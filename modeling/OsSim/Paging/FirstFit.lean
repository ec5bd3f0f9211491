import Mathlib.Order.CompletePartialOrder
import Mathlib.Data.Set.Lattice
import Mathlib.Order.Interval.Set.Basic
import OsSim.Paging.FreeList
import OsSim.Paging.System

namespace OsSim.Paging
open NodeHeap

/-! ## Regions that are free -/

def VmRg.HasRoom (rg : VmRg) (size : Nat) : Prop := rg.rgStart + size ≤ rg.rgEnd

def VmRg.Apart (rg rg' : VmRg) : Prop := rg.rgEnd ≤ rg'.rgStart ∨ rg'.rgEnd ≤ rg.rgStart

def VmRg.bytes (rg : VmRg) : Set Nat := Set.Ico rg.rgStart rg.rgEnd

def freeBytes (regions : List VmRg) : Set Nat := {x | ∃ rg ∈ regions, x ∈ rg.bytes}

theorem freeBytes_nil : freeBytes [] = ∅ := by
  ext x
  simp [freeBytes]

theorem freeBytes_append (regions regions' : List VmRg) :
    freeBytes (regions ++ regions') = freeBytes regions ∪ freeBytes regions' := by
  ext x
  simp [freeBytes, or_and_right, exists_or]

theorem freeBytes_cons (rg : VmRg) (regions : List VmRg) :
    freeBytes (rg :: regions) = rg.bytes ∪ freeBytes regions := by
  ext x
  simp [freeBytes]

theorem VmRg.Apart.disjoint {rg rg' : VmRg} (apart : rg.Apart rg') : Disjoint rg.bytes rg'.bytes := by
  rw [Set.disjoint_left]
  intro x inside inside'
  obtain ⟨lower, upper⟩ := inside
  obtain ⟨lower', upper'⟩ := inside'
  unfold VmRg.Apart at apart
  omega

theorem disjoint_freeBytes {rg : VmRg} {regions : List VmRg} (apart : ∀ rg' ∈ regions, rg.Apart rg') :
    Disjoint rg.bytes (freeBytes regions) := by
  rw [Set.disjoint_right]
  rintro x ⟨rg', member, inside⟩
  exact Set.disjoint_right.mp (apart rg' member).disjoint inside

theorem freeBytes_left {rg : VmRg} {size : Nat} (room : rg.HasRoom size) :
    freeBytes (rg.left size) = rg.bytes \ Set.Ico rg.rgStart (rg.rgStart + size) := by
  unfold VmRg.HasRoom at room
  ext x
  rw [VmRg.left, VmRg.bytes, Set.mem_sdiff, Set.mem_Ico, Set.mem_Ico]
  split
  · rw [freeBytes_cons, freeBytes_nil, Set.union_empty, VmRg.bytes, Set.mem_Ico]
    dsimp only
    omega
  · rw [freeBytes_nil, Set.mem_empty_iff_false, false_iff]
    omega

/-- Taking the first bytes of one region takes exactly these from the free bytes. -/
theorem freeBytes_take {pre post : List VmRg} {rg : VmRg} {size : Nat} (room : rg.HasRoom size)
    (apart : ∀ rg' ∈ pre ++ post, rg.Apart rg') :
    freeBytes (pre ++ rg.left size ++ post) =
      freeBytes (pre ++ rg :: post) \ Set.Ico rg.rgStart (rg.rgStart + size) := by
  have within : Set.Ico rg.rgStart (rg.rgStart + size) ⊆ rg.bytes := Set.Ico_subset_Ico_right room
  have before : Disjoint rg.bytes (freeBytes pre) :=
    disjoint_freeBytes fun rg' member => apart rg' (List.mem_append_left _ member)
  have behind : Disjoint rg.bytes (freeBytes post) :=
    disjoint_freeBytes fun rg' member => apart rg' (List.mem_append_right _ member)
  rw [freeBytes_append, freeBytes_append, freeBytes_left room, freeBytes_append, freeBytes_cons, Set.union_sdiff_distrib,
    Set.union_sdiff_distrib, (before.mono_left within).sdiff_eq_right, (behind.mono_left within).sdiff_eq_right,
    Set.union_assoc]

/-! ## What `getFreeVmrgArea` finds -/

variable {mm : MmStruct} {nodes : List (Nat × VmRg)} {dummy size : Nat}

structure MmStruct.FreeRegions (mm : MmStruct) (nodes : List (Nat × VmRg)) (dummy : Nat) : Prop where
  list : FreeList mm.rgNodes mm.mmap.vmFreergList nodes dummy
  apart : (nodes.map Prod.snd).Pairwise VmRg.Apart
  words : ∀ b ∈ nodes, b.2.rgEnd < 2 ^ 64

/-- The free list after the first bytes of one region were taken. -/
structure MmStruct.LeftBy (after : MmStruct) (pre : List VmRg) (rg : VmRg) (post : List VmRg) (size : Nat) :
    Prop where
  list : ∃ nodes dummy, FreeList after.rgNodes after.mmap.vmFreergList nodes dummy ∧
    nodes.map Prod.snd = pre ++ rg.left size ++ post
  bytes : freeBytes (pre ++ rg.left size ++ post) =
    freeBytes (pre ++ rg :: post) \ Set.Ico rg.rgStart (rg.rgStart + size)

/-- The first region with room serves the request; without one the request is refused and the list stays. -/
structure MmStruct.FirstFits (mm : MmStruct) (nodes : List (Nat × VmRg)) (size : Nat) : Prop where
  status : (getFreeVmrgArea mm size).1 = 0 ↔ ∃ rg ∈ nodes.map Prod.snd, rg.HasRoom size
  taken : ∀ pre rg post, nodes.map Prod.snd = pre ++ rg :: post → (∀ rg' ∈ pre, ¬ rg'.HasRoom size) →
    rg.HasRoom size → (getFreeVmrgArea mm size).2.1 = ⟨rg.rgStart, rg.rgStart + size⟩ ∧
      (getFreeVmrgArea mm size).2.2.LeftBy pre rg post size
  refused : (∀ rg ∈ nodes.map Prod.snd, ¬ rg.HasRoom size) →
    (getFreeVmrgArea mm size).1 = -1 ∧ (getFreeVmrgArea mm size).2.2 = mm

/-- The comparison of the walk: the sum is a machine word. -/
def VmRg.Passes (rg : VmRg) (size : Nat) : Prop := ulong (rg.rgStart + size) ≤ rg.rgEnd

theorem VmRg.passes_iff {rg : VmRg} (nonempty : rg.rgStart < rg.rgEnd) (word : rg.rgEnd < 2 ^ 64)
    (int : size < 2 ^ 31) : rg.Passes size ↔ rg.HasRoom size ∨ 2 ^ 64 ≤ rg.rgStart + size := by
  unfold VmRg.Passes VmRg.HasRoom ulong
  omega

theorem MmStruct.FreeRegions.first (free : mm.FreeRegions nodes dummy) (positive : 1 ≤ size) (int : size < 2 ^ 31) :
    ((getFreeVmrgArea mm size).1 = -1 ∧ (getFreeVmrgArea mm size).2.2 = mm ∧
        ∀ rg ∈ nodes.map Prod.snd, ¬ rg.Passes size) ∨
      ∃ pre a rg post, nodes = pre ++ (a, rg) :: post ∧ (∀ rg' ∈ pre.map Prod.snd, ¬ rg'.Passes size) ∧
        rg.Passes size ∧
        getFreeVmrgArea mm size = (0, ⟨rg.rgStart, ulong (rg.rgStart + size)⟩, { mm with
          rgNodes :=
            if ulong (rg.rgStart + size) < rg.rgEnd then
              mm.rgNodes.write a ⟨{ rg with rgStart := ulong (rg.rgStart + size) }, (mm.rgNodes.cell a).next⟩
            else deleteVmRgNode mm.rgNodes a }) := by
  have list : FreeList mm.rgNodes mm.mmap.vmFreergList ([] ++ nodes) dummy := free.list
  have found := takeFit_first positive (by omega) ⟨ulong (-1), ulong (-1)⟩ list list.length_lt
  have at_head := free.list.head_eq
  rw [← at_head] at found
  obtain ⟨rgit, first⟩ : ∃ rgit, mm.mmap.vmFreergList = some rgit := by
    rw [at_head]
    cases nodes <;> exact ⟨_, rfl⟩
  rw [getFreeVmrgArea, first]
  rw [first] at found
  dsimp only
  rcases found with ⟨same, tooSmall⟩ | ⟨pre, a, rg, post, split, before, passes, taken⟩
  · refine .inl ?_
    rw [same]
    refine ⟨rfl, rfl, fun rg member => ?_⟩
    obtain ⟨b, inside, rfl⟩ := List.mem_map.mp member
    exact Nat.not_le_of_lt (tooSmall b inside)
  · refine .inr ⟨pre, a, rg, post, split, ?_, passes, ?_⟩
    · intro rg' member
      obtain ⟨b, inside, rfl⟩ := List.mem_map.mp member
      exact Nat.not_le_of_lt (before b inside)
    · have member : (a, rg) ∈ nodes := by simp [split]
      have nonempty := free.list.nonempty _ member
      have word := free.words _ member
      have found : rg.rgStart ≠ ulong (-1) := by
        have mark : ulong (-1) = 2 ^ 64 - 1 := by decide
        dsimp only at nonempty word
        omega
      rw [taken]
      dsimp only
      rw [if_neg found]

/-- Two elements of a list: one is in front of the other, or they are at the same place. -/
theorem split_cases {α : Type*} {pre post pre' post' : List α} {a a' : α}
    (same : pre ++ a :: post = pre' ++ a' :: post') :
    a ∈ pre' ∨ a' ∈ pre ∨ pre = pre' ∧ a = a' ∧ post = post' := by
  rcases List.append_eq_append_iff.mp same with ⟨between, rfl, tail⟩ | ⟨between, rfl, tail⟩
  · cases between with
    | nil =>
        obtain ⟨rfl, rfl⟩ := List.cons.inj tail
        exact .inr (.inr ⟨by simp, rfl, rfl⟩)
    | cons b rest =>
        obtain ⟨rfl, _⟩ := List.cons.inj tail
        exact .inl (by simp)
  · cases between with
    | nil =>
        obtain ⟨rfl, rfl⟩ := List.cons.inj tail
        exact .inr (.inr ⟨by simp, rfl, rfl⟩)
    | cons b rest =>
        obtain ⟨rfl, _⟩ := List.cons.inj tail
        exact .inr (.inl (by simp))

theorem exists_first {α : Type*} {P : α → Prop} {l : List α} (some : ∃ a ∈ l, P a) :
    ∃ pre a post, l = pre ++ a :: post ∧ (∀ b ∈ pre, ¬ P b) ∧ P a := by
  classical
  obtain ⟨a, member, holds⟩ := some
  obtain ⟨first, found⟩ : ∃ first, l.find? (P ·) = .some first :=
    Option.isSome_iff_exists.mp (List.find?_isSome.mpr ⟨a, member, decide_eq_true holds⟩)
  obtain ⟨holds, pre, post, split, before⟩ := List.find?_eq_some_iff_append.mp found
  exact ⟨pre, first, post, split, by simpa using before, of_decide_eq_true holds⟩

/-- A region whose first bytes would end behind the last address stands behind one that has room. -/
def WrapsBehind (regions : List VmRg) (size : Nat) : Prop :=
  ∀ pre rg post, regions = pre ++ rg :: post → 2 ^ 64 ≤ rg.rgStart + size → ∃ rg' ∈ pre, rg'.HasRoom size

theorem MmStruct.FreeRegions.passes_iff (free : mm.FreeRegions nodes dummy) (int : size < 2 ^ 31) {rg : VmRg}
    (member : rg ∈ nodes.map Prod.snd) : rg.Passes size ↔ rg.HasRoom size ∨ 2 ^ 64 ≤ rg.rgStart + size := by
  obtain ⟨b, inside, rfl⟩ := List.mem_map.mp member
  exact VmRg.passes_iff (free.list.nonempty b inside) (free.words b inside) int

theorem MmStruct.FreeRegions.leftBy (free : mm.FreeRegions nodes dummy) {pre post : List (Nat × VmRg)} {a : Nat}
    {rg : VmRg} (split : nodes = pre ++ (a, rg) :: post) (room : rg.HasRoom size) {after : MmStruct}
    (mmap : after.mmap = mm.mmap) (rgNodes : after.rgNodes = takeNode mm.rgNodes a rg size) :
    after.LeftBy (pre.map Prod.snd) rg (post.map Prod.snd) size := by
  have list := free.list
  rw [split] at list
  have apart := free.apart
  rw [split, List.map_append, List.map_cons, List.pairwise_append, List.pairwise_cons] at apart
  obtain ⟨_, ⟨behind, _⟩, before⟩ := apart
  refine ⟨?_, freeBytes_take room ?_⟩
  · obtain ⟨nodes', dummy', list', vals⟩ := list.takeNode size
    refine ⟨nodes', dummy', ?_, vals⟩
    rw [mmap, rgNodes]
    exact list'
  · intro rg' member
    rcases List.mem_append.mp member with first | second
    · exact (before rg' first rg (by simp)).symm
    · exact behind rg' second

/-- With room in the first region that passes, the walk is a first fit. -/
theorem MmStruct.FreeRegions.firstFits (free : mm.FreeRegions nodes dummy) (positive : 1 ≤ size)
    (int : size < 2 ^ 31) (wraps : WrapsBehind (nodes.map Prod.snd) size) : mm.FirstFits nodes size := by
  rcases free.first positive int with ⟨status, same, none⟩ | ⟨pre, a, rg, post, split, before, passes, taken⟩
  · have noRoom : ∀ rg ∈ nodes.map Prod.snd, ¬ rg.HasRoom size :=
      fun rg member room => none rg member ((free.passes_iff int member).mpr (.inl room))
    refine ⟨?_, ?_, fun _ => ⟨status, same⟩⟩
    · rw [status]
      exact ⟨fun found => absurd found (by decide), fun ⟨rg, member, room⟩ => absurd room (noRoom rg member)⟩
    · intro pre rg post split _ room
      exact absurd room (noRoom rg (by simp [split]))
  · have regions : nodes.map Prod.snd = pre.map Prod.snd ++ rg :: post.map Prod.snd := by simp [split]
    have member : rg ∈ nodes.map Prod.snd := by simp [regions]
    have noRoom : ∀ rg' ∈ pre.map Prod.snd, ¬ rg'.HasRoom size := by
      intro rg' inside room
      exact before rg' inside ((free.passes_iff int (by simp [regions, inside])).mpr (.inl room))
    have room : rg.HasRoom size := by
      rcases (free.passes_iff int member).mp passes with room | far
      · exact room
      · obtain ⟨rg', inside, room⟩ := wraps _ _ _ regions far
        exact absurd room (noRoom rg' inside)
    have limit : ulong ((rg.rgStart : Int) + size) = rg.rgStart + size := by
      have word := free.words (a, rg) (by simp [split])
      exact ulong_add (Nat.lt_of_le_of_lt room word)
    rw [limit] at taken
    refine ⟨?_, ?_, fun none => absurd room (none rg member)⟩
    · rw [taken]
      exact ⟨fun _ => ⟨rg, member, room⟩, fun _ => rfl⟩
    · intro pre' rg' post' split' noRoom' room'
      rcases split_cases (regions.symm.trans split') with inside | inside | ⟨rfl, rfl, rfl⟩
      · exact absurd room (noRoom' rg inside)
      · exact absurd room' (noRoom rg' inside)
      · rw [taken]
        exact ⟨rfl, free.leftBy split room rfl rfl⟩

/-- The walk is a first fit exactly if it does not reach a region where the comparison wraps. -/
theorem firstFits_iff (free : mm.FreeRegions nodes dummy) (positive : 1 ≤ size) (int : size < 2 ^ 31) :
    mm.FirstFits nodes size ↔ WrapsBehind (nodes.map Prod.snd) size := by
  refine ⟨fun fits pre rg post split far => ?_, free.firstFits positive int⟩
  have passes : rg.Passes size := (free.passes_iff int (by simp [split])).mpr (.inr far)
  rcases free.first positive int with ⟨_, _, none⟩ | ⟨pre', a, rg', post', split', before, passes', taken⟩
  · exact absurd passes (none rg (by simp [split]))
  · -- the region that is taken is the one the property names, so its first bytes do not wrap
    have room : rg'.HasRoom size ∧ rg'.rgStart + size < 2 ^ 64 := by
      obtain ⟨pre, first, post, split, noRoom, room⟩ := exists_first (fits.status.mp (by rw [taken]))
      have region := (fits.taken pre first post split noRoom room).1
      have member : first ∈ nodes.map Prod.snd := by simp [split]
      obtain ⟨b, inside, rfl⟩ := List.mem_map.mp member
      have word := free.words b inside
      rw [taken] at region
      obtain ⟨start, limit⟩ := VmRg.mk.inj region
      rw [VmRg.Passes, limit, ← start] at passes'
      unfold VmRg.HasRoom at room
      exact ⟨passes', by omega⟩
    have regions : nodes.map Prod.snd = pre'.map Prod.snd ++ rg' :: post'.map Prod.snd := by simp [split']
    rcases split_cases (split.symm.trans regions) with inside | inside | ⟨_, rfl, _⟩
    · exact absurd passes (before rg inside)
    · exact ⟨rg', inside, room.1⟩
    · exact absurd far (Nat.not_le_of_lt room.2)

def oneRegion (rg : VmRg) : MmStruct where
  pgd _ := 0#32
  mmap := { vmStart := 0, vmEnd := 0, sbrk := 0, vmFreergList := some 0 }
  symrgtbl _ := ⟨0, 0⟩
  fifoPgn := []
  rgNodes :=
    { cell := fun a => if a = 0 then ⟨rg, some 1⟩ else ⟨dummyRg, none⟩
      live := fun _ => true
      fresh := 2
      misused := false }

theorem oneRegion_free {rg : VmRg} (nonempty : rg.rgStart < rg.rgEnd) (word : rg.rgEnd < 2 ^ 64) :
    (oneRegion rg).FreeRegions [(0, rg)] 1 := by
  refine ⟨⟨⟨?_, by simp, by simp [oneRegion], by simp [oneRegion], rfl⟩, ?_⟩, by simp, ?_⟩
  · simp [oneRegion, Seg]
  · simpa using nonempty
  · simpa using word

theorem oneRegion_firstFits_iff :
    (oneRegion ⟨256, 768⟩).FirstFits [(0, ⟨256, 768⟩)] 300 ↔ WrapsBehind [⟨256, 768⟩] 300 :=
  firstFits_iff (oneRegion_free (by decide) (by decide)) (by decide) (by decide)

/-- Twenty bytes from a region of five: the sum wraps, and the call succeeds. -/
theorem oneRegion_not_firstFits :
    (oneRegion ⟨2 ^ 64 - 10, 2 ^ 64 - 5⟩).FreeRegions [(0, ⟨2 ^ 64 - 10, 2 ^ 64 - 5⟩)] 1 ∧
      (getFreeVmrgArea (oneRegion ⟨2 ^ 64 - 10, 2 ^ 64 - 5⟩) 20).1 = 0 ∧
      (getFreeVmrgArea (oneRegion ⟨2 ^ 64 - 10, 2 ^ 64 - 5⟩) 20).2.1 = ⟨2 ^ 64 - 10, 10⟩ ∧
      ¬ (oneRegion ⟨2 ^ 64 - 10, 2 ^ 64 - 5⟩).FirstFits [(0, ⟨2 ^ 64 - 10, 2 ^ 64 - 5⟩)] 20 := by
  have status : (getFreeVmrgArea (oneRegion ⟨2 ^ 64 - 10, 2 ^ 64 - 5⟩) 20).1 = 0 := by decide
  refine ⟨oneRegion_free (by decide) (by decide), status, by decide, fun fits => ?_⟩
  obtain ⟨rg, member, room⟩ := fits.status.mp status
  rw [List.mem_singleton.mp member] at room
  exact absurd room (by unfold VmRg.HasRoom; decide)

/-- The calls of a process that lead to this region and to such a request. -/
def wrappingCalls : List Call :=
  [.alloc 2147483647 0, .alloc 2147483639 1, .alloc 5 2, .free 2, .alloc 20 3]

example : ((wrappingCalls.foldl (fun s call => s.exec ⟨0, call, noGarbage⟩) tinyBoot).procs 0).symrgtbl 3 =
    ⟨2 ^ 64 - 10, 10⟩ := by
  decide +kernel

end OsSim.Paging
