import OsSim.Paging.Regions

namespace OsSim.Paging
open NodeHeap Tiling Transition

/-- The non-empty regions of the registers and the free regions `nodes` share out the area up to the break,
and no freed node is in the list or was used. -/
structure PartitionedBy (mm : MmStruct) (nodes : List (Nat × VmRg)) (dummy : Nat) : Prop where
  list : Holds mm.rgNodes mm.mmap.vmFreergList (nodes ++ [(dummy, dummyRg)])
  nonempty : ∀ b ∈ nodes, b.2.rgStart < b.2.rgEnd
  disjoint : (regionFamily mm (nodes.map Prod.snd)).Pairwise fun rg rg' =>
    ∀ x, ¬ (0 < rg.covers x ∧ 0 < rg'.covers x)
  covered : ∀ x, (∃ rg ∈ regionFamily mm (nodes.map Prod.snd), 0 < rg.covers x) ↔
    mm.mmap.vmStart ≤ x ∧ x < mm.mmap.sbrk
  apart : ∀ rg ∈ nodes.map Prod.snd, ∀ rg' ∈ nodes.map Prod.snd, rg.rgEnd ≠ rg'.rgStart

def MmStruct.Partitioned (mm : MmStruct) : Prop := ∃ nodes dummy, PartitionedBy mm nodes dummy

theorem Regions.partitioned {mm : MmStruct} {nodes : List (Nat × VmRg)} {dummy : Nat}
    (regions : Regions mm nodes dummy []) : mm.Partitioned := by
  have tiles := regions.tiles
  rw [List.append_nil] at tiles
  refine ⟨nodes, dummy, regions.list.holds, regions.list.nonempty, tiles.disjoint, ?_, regions.apart⟩
  intro x
  rw [tiles.covered_iff x, regions.vmStart]
  simp

def MmStruct.freeNodes (mm : MmStruct) : List (Nat × VmRg) :=
  (walk mm.rgNodes.cell mm.rgNodes.fresh mm.mmap.vmFreergList).dropLast

theorem Regions.freeNodes {mm : MmStruct} {nodes : List (Nat × VmRg)} {dummy : Nat} {lost : List VmRg}
    (regions : Regions mm nodes dummy lost) : mm.freeNodes = nodes := by
  rw [MmStruct.freeNodes, regions.list.holds.walk_eq, List.dropLast_concat]

/-! ## Runs -/

/-- Allocations are for empty registers, of at least one byte and below 4 MB. -/
def System.RegionCall (s : System) (l : Label) : Prop :=
  match l.call with
  | .alloc size regIndex => regIndex < pagingMaxSymtblSz ∧
      (s.procs l.p).symrgtbl regIndex = ⟨0, 0⟩ ∧ 1 ≤ size ∧ size < 2 ^ pagingCpuBusWidth ∧
      s.WithinSpace l
  | .free regIndex => regIndex < pagingMaxSymtblSz
  | _ => True

/-- No region is freed whose upper neighbour stands directly before its lower neighbour in the list. -/
def System.FreesApart (s : System) (l : Label) : Prop :=
  match l.call with
  | .free regIndex =>
      UnlinkedNeighbours ((s.procs l.p).symrgtbl regIndex) (s.procs l.p).freeNodes
  | _ => True

instance (s : System) (p regIndex : Nat) (g : Garbage) :
    Decidable (s.FreesApart ⟨p, .free regIndex, g⟩) :=
  inferInstanceAs (Decidable (UnlinkedNeighbours _ _))

def System.lost (s : System) (l : Label) : List VmRg :=
  match l.call with
  | .alloc _ regIndex => [(s.procs l.p).symrgtbl regIndex]
  | _ => []

theorem System.lost_of_access {s : System} {l : Label} (access : l.call.isAccess = true) : s.lost l = [] := by
  unfold System.lost
  cases call : l.call <;> simp_all [Call.isAccess]

theorem System.exec_regions {s : System} {l : Label} {nodes : List (Nat × VmRg)} {dummy : Nat} {lost : List VmRg}
    (regions : Regions (s.procs l.p) nodes dummy lost) (registered : l.call.Registered) (sized : l.call.Sized)
    (within : s.WithinSpace l) (frees : s.FreesApart l) :
    ∃ nodes' dummy', Regions ((s.exec l).procs l.p) nodes' dummy' (s.lost l ++ lost) := by
  have caller : Regions (s.caller l.p).mm nodes dummy lost := regions
  rw [System.exec, System.procs_put]
  rcases l.call.access_or with access | ⟨size, regIndex, call⟩ | ⟨regIndex, call⟩
  · have same := l.call.exec_sameRegions (s.caller l.p) l.g access
    rw [System.lost_of_access access, List.nil_append]
    refine ⟨nodes, dummy, ?_, ?_, ?_, ?_, ?_, regions.apart⟩
    · rw [same.mmap, same.rgNodes]
      exact caller.list
    · rw [same.mmap]
      exact caller.aligned
    · rw [same.mmap]
      exact caller.vmStart
    · rw [same.mmap]
      exact caller.below
    · rw [regionFamily, same.mmap, same.symrgtbl]
      exact caller.tiles
  · rw [call] at registered sized
    rw [System.WithinSpace, call] at within
    rw [System.lost, call, Call.exec, pgalloc, cint_of_lt sized.2]
    exact caller.after_alloc registered sized.1 sized.2 (cint_of_lt sized.2 ▸ within)
  · rw [call] at registered
    rw [System.FreesApart, call, regions.freeNodes] at frees
    rw [System.lost, call]
    exact caller.after_free registered frees l.g

theorem System.RegionCall.registered {s : System} {l : Label} (regionCall : s.RegionCall l) :
    l.call.Registered := by
  rw [System.RegionCall] at regionCall
  cases call : l.call with
  | alloc size regIndex =>
      rw [call] at regionCall
      exact regionCall.1
  | free regIndex =>
      rw [call] at regionCall
      exact regionCall
  | read | write | getval | setval => trivial

theorem System.RegionCall.alloc {s : System} {l : Label} (regionCall : s.RegionCall l) :
    l.call.Sized ∧ s.WithinSpace l ∧ ∀ rg ∈ s.lost l, rg = ⟨0, 0⟩ := by
  rw [System.RegionCall] at regionCall
  rw [System.lost]
  cases call : l.call with
  | alloc size regIndex =>
      rw [call] at regionCall
      obtain ⟨_, empty, positive, word, within⟩ := regionCall
      simp only [pagingCpuBusWidth] at word
      exact ⟨⟨positive, by omega⟩, within, by simp [empty]⟩
  | free | read | write | getval | setval =>
      refine ⟨trivial, ?_, by simp⟩
      rw [System.WithinSpace, call]
      trivial

/-- In every run whose frees meet `FreesApart`, each process has its area partitioned. -/
theorem reachable_partitioned {s : System}
    (reachable : Reach System.Step (fun s l => s.RegionCall l ∧ s.FreesApart l) System.Boot s) (p : Nat) :
    (s.procs p).Partitioned := by
  suffices all : ∀ q, ∃ nodes dummy, Regions (s.procs q) nodes dummy [] by
    obtain ⟨nodes, dummy, regions⟩ := all p
    exact regions.partitioned
  induction reachable with
  | start boot =>
      intro q
      obtain ⟨block, zero, fresh⟩ := boot.procs q
      rw [fresh]
      exact ⟨[], _, initMm_regions zero⟩
  | @step s s' l _ allowed taken ih =>
      intro q
      rw [taken]
      by_cases mine : q = l.p
      · obtain ⟨nodes, dummy, regions⟩ := ih l.p
        obtain ⟨sized, within, empty⟩ := allowed.1.alloc
        obtain ⟨nodes', dummy', regions'⟩ :=
          System.exec_regions regions allowed.1.registered sized within allowed.2
        rw [mine]
        exact ⟨nodes', dummy', regions'.forget fun rg member => by rw [empty rg member]⟩
      · rw [System.exec, s.procs_put_of_ne _ mine]
        exact ih q

/-! ### Two orders of the same frees -/

/-- Three regions of a page each, then three frees. -/
def threeRegions (first second third : Nat) : List Label :=
  [⟨0, .alloc 256 0, noGarbage⟩, ⟨0, .alloc 256 1, noGarbage⟩, ⟨0, .alloc 256 2, noGarbage⟩,
    ⟨0, .free first, noGarbage⟩, ⟨0, .free second, noGarbage⟩, ⟨0, .free third, noGarbage⟩]

theorem threeRegions_regionCall {first second third : Nat} (inside : first < pagingMaxSymtblSz)
    (inside' : second < pagingMaxSymtblSz) (inside'' : third < pagingMaxSymtblSz) :
    Along System.exec System.RegionCall tinyBoot (threeRegions first second third) := by
  refine ⟨?_, ?_, ?_, inside, inside', inside'', trivial⟩ <;>
    exact ⟨by decide, by decide, by decide, by decide, fun _ => by decide⟩

theorem tinyBoot_partitioned :
    ((run System.exec tinyBoot (threeRegions 2 0 1)).procs 0).Partitioned := by
  have calls : Along System.exec System.RegionCall tinyBoot (threeRegions 2 0 1) :=
    threeRegions_regionCall (by decide) (by decide) (by decide)
  have frees : Along System.exec System.FreesApart tinyBoot (threeRegions 2 0 1) := by
    refine ⟨trivial, trivial, trivial, ?_, ?_, ?_, trivial⟩ <;> decide
  have boot : tinyBoot.Boot := bootSystem_boot zeroBlock_zero _ _ _
  exact reachable_partitioned ((calls.and frees).reach (.start boot)) 0

/-- Freed in this order, the upper neighbour of the last region stands directly before the lower one. -/
theorem tinyBoot_not_partitioned :
    Along System.exec System.RegionCall tinyBoot (threeRegions 0 2 1) ∧
      ¬ ((run System.exec tinyBoot (threeRegions 0 2 1)).procs 0).Partitioned := by
  refine ⟨threeRegions_regionCall (by decide) (by decide) (by decide), ?_⟩
  rintro ⟨nodes, dummy, partitioned⟩
  have used : ((run System.exec tinyBoot (threeRegions 0 2 1)).procs 0).rgNodes.misused = true := by
    decide
  exact absurd partitioned.list.sound (by simp [used])

end OsSim.Paging
