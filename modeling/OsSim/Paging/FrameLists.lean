import OsSim.Lib.Transition
import OsSim.Paging.Collect
import OsSim.Paging.Format

namespace OsSim.Paging.FrameNodes
open NodeHeap Transition

/-! ## The calls that change the frame lists -/

def memphyPutFreefp (mp : Memphy) (fpn : Nat) : Memphy :=
  let fp := mp.freeFpList
  let newnode := mp.fpNodes.fresh
  let heap := mp.fpNodes.malloc (mp.fpNodes.cell newnode)
  { mp with freeFpList := some newnode, fpNodes := heap.write newnode ⟨fpn, fp⟩ }

def memphyPutUsedfp (mp : Memphy) (fpn : Nat) : Memphy :=
  let newnode := mp.fpNodes.fresh
  let heap := mp.fpNodes.malloc (mp.fpNodes.cell newnode)
  { mp with usedFpList := some newnode, fpNodes := heap.write newnode ⟨fpn, mp.usedFpList⟩ }

inductive FrameCall
  | getFreefp
  | putFreefp (fpn : Nat)
  | putUsedfp (fpn : Nat)

/-- The frame that is returned, or `none` for the return value -1, and the device afterwards. -/
def Memphy.call (mp : Memphy) : FrameCall → Option Nat × Memphy
  | .getFreefp => memphyGetFreefp mp
  | .putFreefp fpn => (none, memphyPutFreefp mp fpn)
  | .putUsedfp fpn => (none, memphyPutUsedfp mp fpn)

/-- The same call on the device that the paging functions work on. -/
def listCall (device : Paging.Memphy) : FrameCall → Option Nat × Paging.Memphy
  | .getFreefp =>
      match Paging.memphyGetFreefp device with
      | none => (none, device)
      | some (fpn, device) => (some fpn, device)
  | .putFreefp fpn => (none, Paging.memphyPutFreefp device fpn)
  | .putUsedfp fpn => (none, Paging.memphyPutUsedfp device fpn)

def Memphy.exec (mp : Memphy) (call : FrameCall) : Memphy := (mp.call call).2

def listExec (device : Paging.Memphy) (call : FrameCall) : Paging.Memphy := (listCall device call).2

/-! ## The two lists in the heap -/

/-- The nodes of the lists are different live blocks, and from `base` on there are no other live blocks. -/
structure Memphy.Keeps (mp : Memphy) (base : Nat) (free used : List (Nat × Nat)) : Prop where
  freeFp : Holds mp.fpNodes mp.freeFpList free
  usedFp : Holds mp.fpNodes mp.usedFpList used
  apart : ∀ b ∈ free, b.1 ∉ used.map Prod.fst
  all : ∀ a, base ≤ a → mp.fpNodes.live a = true → a ∈ (free ++ used).map Prod.fst

/-- The nodes hold the lists of the device that the paging functions work on. -/
def Memphy.KeepsLists (mp : Memphy) (base : Nat) (device : Paging.Memphy) : Prop :=
  ∃ free used, mp.Keeps base free used ∧ free.map Prod.snd = device.freeFpList ∧
    used.map Prod.snd = device.usedFpList

section Calls

variable {mp : Memphy} {base : Nat} {free used : List (Nat × Nat)} {device : Paging.Memphy}

theorem live_malloc {a fpn : Nat} {next : Option Nat} {h : Heap Nat} (n : Node Nat)
    (alive : ((h.malloc n).write h.fresh ⟨fpn, next⟩).live a = true) : a = h.fresh ∨ h.live a = true := by
  by_cases new : a = h.fresh
  · exact .inl new
  · exact .inr (by simpa [Heap.write, Heap.touch, Heap.malloc, new] using alive)

theorem Memphy.Keeps.putFreefp (keeps : mp.Keeps base free used) (fpn : Nat) :
    (memphyPutFreefp mp fpn).Keeps base ((mp.fpNodes.fresh, fpn) :: free) used := by
  obtain ⟨free', spare⟩ := keeps.freeFp.malloc (mp.fpNodes.cell mp.fpNodes.fresh)
  obtain ⟨used', spare'⟩ := keeps.usedFp.malloc (mp.fpNodes.cell mp.fpNodes.fresh)
  refine ⟨free'.link spare fpn, used'.writeSpare spare' _, ?_, ?_⟩
  · intro b member
    rcases List.mem_cons.mp member with rfl | old
    · exact spare'.outside
    · exact keeps.apart b old
  · intro a lower alive
    rw [List.cons_append, List.map_cons, List.mem_cons]
    exact (live_malloc _ alive).imp id (keeps.all a lower)

theorem Memphy.Keeps.putUsedfp (keeps : mp.Keeps base free used) (fpn : Nat) :
    (memphyPutUsedfp mp fpn).Keeps base free ((mp.fpNodes.fresh, fpn) :: used) := by
  obtain ⟨free', spare⟩ := keeps.freeFp.malloc (mp.fpNodes.cell mp.fpNodes.fresh)
  obtain ⟨used', spare'⟩ := keeps.usedFp.malloc (mp.fpNodes.cell mp.fpNodes.fresh)
  refine ⟨free'.writeSpare spare _, used'.link spare' fpn, ?_, ?_⟩
  · intro b member
    rw [List.map_cons, List.mem_cons, not_or]
    refine ⟨?_, keeps.apart b member⟩
    exact fun same => spare.outside (List.mem_map.mpr ⟨b, member, same⟩)
  · intro a lower alive
    rw [List.map_append, List.map_cons, List.mem_append, List.mem_cons, or_left_comm]
    refine (live_malloc _ alive).imp id fun old => ?_
    rw [← List.mem_append, ← List.map_append]
    exact keeps.all a lower old

theorem Memphy.Keeps.getFreefp {a fpn : Nat} (keeps : mp.Keeps base ((a, fpn) :: free) used) :
    (memphyGetFreefp mp).1 = some fpn ∧ (memphyGetFreefp mp).2.Keeps base free used := by
  obtain ⟨at_a, val, _⟩ := keeps.freeFp.seg
  have alive : mp.fpNodes.touch a = mp.fpNodes := keeps.freeFp.touch (c := (a, fpn)) (by simp)
  have live : mp.fpNodes.live a = true := keeps.freeFp.live (a, fpn) (by simp)
  have outside : a ∉ used.map Prod.fst := keeps.apart (a, fpn) (by simp)
  have got : memphyGetFreefp mp =
      (some fpn, { mp with freeFpList := (mp.fpNodes.cell a).next, fpNodes := mp.fpNodes.free a }) := by
    simp only [memphyGetFreefp, at_a, alive, val]
  rw [got]
  refine ⟨rfl, keeps.freeFp.freeFirst, keeps.usedFp.freeOther live outside, ?_, ?_⟩
  · exact fun b member => keeps.apart b (List.mem_cons_of_mem _ member)
  · intro b lower still
    have other : b ≠ a := by
      rintro rfl
      simp [Heap.free] at still
    have before : mp.fpNodes.live b = true := by simpa [Heap.free, Heap.touch, other] using still
    exact (List.mem_cons.mp (keeps.all b lower before)).resolve_left other

/-- Each call does to the nodes what it does to the lists, and returns the same. -/
theorem Memphy.KeepsLists.call (keeps : mp.KeepsLists base device) (call : FrameCall) :
    (mp.call call).1 = (listCall device call).1 ∧ (mp.call call).2.KeepsLists base (listCall device call).2 := by
  obtain ⟨free, used, nodes, freeFrames, usedFrames⟩ := keeps
  cases call with
  | getFreefp =>
      cases free with
      | nil =>
          have ended : mp.freeFpList = none := nodes.freeFp.seg
          have gone : (none, mp) = mp.call .getFreefp := by simp [Memphy.call, memphyGetFreefp, ended]
          have empty : (none, device) = listCall device .getFreefp := by
            simp [listCall, Paging.memphyGetFreefp, ← freeFrames]
          rw [← gone, ← empty]
          exact ⟨rfl, [], used, nodes, freeFrames, usedFrames⟩
      | cons b rest =>
          obtain ⟨returned, keeps⟩ := nodes.getFreefp
          have taken : listCall device .getFreefp =
              (some b.2, { device with freeFpList := rest.map Prod.snd }) := by
            simp [listCall, Paging.memphyGetFreefp, ← freeFrames]
          rw [taken]
          exact ⟨returned, rest, used, keeps, rfl, usedFrames⟩
  | putFreefp fpn => exact ⟨rfl, _, used, nodes.putFreefp fpn, congrArg (fpn :: ·) freeFrames, usedFrames⟩
  | putUsedfp fpn => exact ⟨rfl, free, _, nodes.putUsedfp fpn, freeFrames, congrArg (fpn :: ·) usedFrames⟩

theorem Memphy.KeepsLists.run (keeps : mp.KeepsLists base device) (calls : List FrameCall) :
    outputs Memphy.exec (fun mp call => [(mp.call call).1]) mp calls =
        outputs listExec (fun device call => [(listCall device call).1]) device calls ∧
      (Transition.run Memphy.exec mp calls).KeepsLists base (Transition.run listExec device calls) := by
  induction calls generalizing mp device with
  | nil => exact ⟨rfl, keeps⟩
  | cons call calls ih =>
      obtain ⟨same, keeps'⟩ := keeps.call call
      obtain ⟨later, ended⟩ := ih keeps'
      refine ⟨?_, ended⟩
      rw [outputs, outputs, same]
      exact congrArg _ later

end Calls

/-! ## The lists after `initMemphy` -/

section Init

variable {mp : Memphy} {storage : Nat → Byte} {maxSize : Nat} {randomflg : Bool} {fpNext : Option Nat}

/-- The nodes that are handed out one after the other from `fresh` on, for the frames from `k` on. -/
def newNodes (fresh k n : Nat) : List (Nat × Nat) := (List.range n).map fun j => (fresh + j, k + j)

theorem newNodes_succ (fresh k n : Nat) : newNodes fresh k (n + 1) = (fresh, k) :: newNodes (fresh + 1) (k + 1) n := by
  rw [newNodes, newNodes, List.range_succ_eq_map, List.map_cons, List.map_map]
  refine congrArg _ (List.map_congr_left fun j _ => ?_)
  simp only [Function.comp_apply, Prod.mk.injEq]
  omega

theorem formatNodes_holds (n : Nat) {heap : Heap Nat} {head : Option Nat} {pre : List (Nat × Nat)} {fst k : Nat}
    (holds : Holds heap head (pre ++ [(fst, k)])) :
    Holds (formatNodes n (k + 1) fst heap) head (pre ++ [(fst, k)] ++ newNodes heap.fresh (k + 1) n) ∧
      ∀ a, (formatNodes n (k + 1) fst heap).live a = true →
        heap.live a = true ∨ a ∈ (newNodes heap.fresh (k + 1) n).map Prod.fst := by
  induction n generalizing heap pre fst k with
  | zero => exact ⟨by simpa [newNodes, formatNodes] using holds, fun a alive => .inl alive⟩
  | succ n ih =>
      obtain ⟨kept, spare⟩ := holds.malloc ⟨k + 1, none⟩
      have linked := kept.linkLast spare (by simp [Heap.malloc] : _ = (⟨k + 1, none⟩ : Node Nat))
      obtain ⟨after, lives⟩ := ih linked
      rw [newNodes_succ]
      refine ⟨?_, fun a alive => ?_⟩
      · rw [List.append_cons]
        exact after
      rw [List.map_cons, List.mem_cons, or_left_comm]
      rcases lives a alive with old | new
      · by_cases first : a = heap.fresh
        · exact .inl first
        · exact .inr (.inl (by simpa [Heap.write, Heap.touch, Heap.malloc, first] using old))
      · exact .inr (.inr new)

/-- The first turn of the loop overwrites what the next field of the first node holds. -/
theorem formatNodes_first (heap : Heap Nat) (n : Nat) (fpNext : Option Nat) :
    formatNodes (n + 1) 1 heap.fresh (heap.malloc ⟨0, fpNext⟩) =
      formatNodes (n + 1) 1 heap.fresh (heap.malloc ⟨0, none⟩) := by
  rw [formatNodes, formatNodes]
  have same : ((heap.malloc ⟨0, fpNext⟩).malloc ⟨1, none⟩).write heap.fresh ⟨0, some (heap.fresh + 1)⟩ =
      ((heap.malloc ⟨0, none⟩).malloc ⟨1, none⟩).write heap.fresh ⟨0, some (heap.fresh + 1)⟩ := by
    simp only [Heap.write, Heap.touch, Heap.malloc, Heap.mk.injEq, and_true]
    funext a
    simp only [Function.update_apply]
    split_ifs <;> rfl
  have val : ∀ next, (((heap.malloc ⟨0, next⟩).malloc ⟨1, none⟩).cell heap.fresh).val = 0 := by
    intro next
    simp [Heap.malloc]
  simp only [val]
  exact congrArg _ same

theorem holds_first {heap : Heap Nat} (sound : heap.misused = false) :
    Holds (heap.malloc ⟨0, none⟩) (some heap.fresh) ([] ++ [(heap.fresh, 0)]) :=
  ⟨by simp [Seg, Heap.malloc], by simp, by simp [Heap.malloc], by simp [Heap.malloc], sound⟩

theorem initMemphy_keepsLists (sound : mp.fpNodes.misused = false)
    (unused : ∀ a, mp.fpNodes.fresh ≤ a → mp.fpNodes.live a = false)
    (small : maxSize / pagingPagesz = 0 → mp.freeFpList = none) (single : maxSize / pagingPagesz = 1 → fpNext = none) :
    (initMemphy mp storage maxSize randomflg fpNext).KeepsLists mp.fpNodes.fresh
      (Paging.initMemphy storage maxSize randomflg) := by
  have list := initMemphy_list mp storage maxSize randomflg fpNext
  have frames : (Paging.initMemphy storage maxSize randomflg).freeFpList = List.range (maxSize / pagingPagesz) := rfl
  have noneUsed : ∀ h : Heap Nat, h.misused = false → Holds h none [] :=
    fun h sound => ⟨rfl, List.nodup_nil, by simp, by simp, sound⟩
  have used : (initMemphy mp storage maxSize randomflg fpNext).usedFpList = none := by
    simp only [initMemphy, memphyFormat]
    split <;> rfl
  cases count : maxSize / pagingPagesz with
  | zero =>
      have heap : (initMemphy mp storage maxSize randomflg fpNext).fpNodes = mp.fpNodes := by
        simp [initMemphy, memphyFormat, count]
      simp only [count, if_true, small count] at list
      refine ⟨[], [], ⟨?_, ?_, by simp, ?_⟩, by rw [frames, count]; rfl, rfl⟩
      · rw [heap, list]
        exact noneUsed _ sound
      · rw [heap, used]
        exact noneUsed _ sound
      · intro a lower alive
        rw [heap, unused a lower] at alive
        cases alive
  | succ n =>
      simp only [count, Nat.succ_ne_zero, if_false, Nat.add_sub_cancel] at list
      obtain ⟨head, heap⟩ := list
      have opened : formatNodes n 1 mp.fpNodes.fresh (mp.fpNodes.malloc ⟨0, fpNext⟩) =
          formatNodes n 1 mp.fpNodes.fresh (mp.fpNodes.malloc ⟨0, none⟩) := by
        cases n with
        | zero => rw [single count]
        | succ n => exact formatNodes_first mp.fpNodes n fpNext
      obtain ⟨holds, lives⟩ := formatNodes_holds n (holds_first sound)
      refine ⟨(mp.fpNodes.fresh, 0) :: newNodes (mp.fpNodes.fresh + 1) 1 n, [],
        ⟨?_, ?_, fun _ _ => List.not_mem_nil, ?_⟩, ?_, rfl⟩
      · rw [head, heap, opened]
        exact holds
      · rw [heap, opened, used]
        exact noneUsed _ holds.sound
      · intro a lower alive
        rw [heap, opened] at alive
        rw [List.append_nil, List.map_cons, List.mem_cons]
        refine (lives a alive).imp (fun old => ?_) id
        by_contra different
        have before : mp.fpNodes.live a = true := by simpa [Heap.malloc, different] using old
        rw [unused a lower] at before
        cases before
      · rw [frames, count, List.range_succ_eq_map]
        simp [newNodes, Function.comp_def, Nat.add_comm 1]

/-- However the frame lists are used from `initMemphy` on, the nodes hold the lists of the device that the paging
functions work on, no freed node is touched, and the live nodes are those of the two lists. -/
theorem run_frameLists (sound : mp.fpNodes.misused = false)
    (unused : ∀ a, mp.fpNodes.fresh ≤ a → mp.fpNodes.live a = false)
    (small : maxSize / pagingPagesz = 0 → mp.freeFpList = none) (single : maxSize / pagingPagesz = 1 → fpNext = none)
    (calls : List FrameCall) :
    let first := initMemphy mp storage maxSize randomflg fpNext
    let device := Paging.initMemphy storage maxSize randomflg
    let after := run Memphy.exec first calls
    let free := walk after.fpNodes.cell after.fpNodes.fresh after.freeFpList
    let used := walk after.fpNodes.cell after.fpNodes.fresh after.usedFpList
    outputs Memphy.exec (fun mp call => [(mp.call call).1]) first calls =
        outputs listExec (fun device call => [(listCall device call).1]) device calls ∧
      free.map Prod.snd = (run listExec device calls).freeFpList ∧
      used.map Prod.snd = (run listExec device calls).usedFpList ∧
      ((free ++ used).map Prod.fst).Nodup ∧ after.fpNodes.misused = false ∧
      ∀ a, mp.fpNodes.fresh ≤ a → (after.fpNodes.live a = true ↔ a ∈ (free ++ used).map Prod.fst) := by
  intro first device after free used
  have keeps : first.KeepsLists mp.fpNodes.fresh device := initMemphy_keepsLists sound unused small single
  obtain ⟨same, nodes, nodes', ended, freeFrames, usedFrames⟩ := keeps.run calls
  have walked : free = nodes := ended.freeFp.walk_eq
  have walked' : used = nodes' := ended.usedFp.walk_eq
  rw [walked, walked']
  refine ⟨same, freeFrames, usedFrames, ?_, ended.freeFp.sound, fun a lower => ⟨ended.all a lower, fun member => ?_⟩⟩
  · rw [List.map_append, List.nodup_append]
    refine ⟨ended.freeFp.nodup, ended.usedFp.nodup, ?_⟩
    rintro a inside b inside' rfl
    obtain ⟨node, member, rfl⟩ := List.mem_map.mp inside
    exact ended.apart node member inside'
  · obtain ⟨node, here, rfl⟩ := List.mem_map.mp member
    rcases List.mem_append.mp here with inside | inside
    · exact ended.freeFp.live node inside
    · exact ended.usedFp.live node inside

end Init

/-- A device of two frames gives out both, has none left, and gets one back. -/
def frameCalls : List FrameCall := [.getFreefp, .putUsedfp 0, .getFreefp, .putUsedfp 1, .getFreefp, .putFreefp 0]

theorem frameCalls_frameLists :
    let first := initMemphy (newMemphy none) (fun _ => 0) 512 true none
    let device := Paging.initMemphy (fun _ => 0) 512 true
    let after := run Memphy.exec first frameCalls
    let free := walk after.fpNodes.cell after.fpNodes.fresh after.freeFpList
    let used := walk after.fpNodes.cell after.fpNodes.fresh after.usedFpList
    outputs Memphy.exec (fun mp call => [(mp.call call).1]) first frameCalls =
        outputs listExec (fun device call => [(listCall device call).1]) device frameCalls ∧
      free.map Prod.snd = (run listExec device frameCalls).freeFpList ∧
      used.map Prod.snd = (run listExec device frameCalls).usedFpList ∧
      ((free ++ used).map Prod.fst).Nodup ∧ after.fpNodes.misused = false ∧
      ∀ a, 1 ≤ a → (after.fpNodes.live a = true ↔ a ∈ (free ++ used).map Prod.fst) :=
  @run_frameLists (newMemphy none) (fun _ => 0) 512 true none rfl (fun _ _ => rfl) (fun _ => rfl) (fun _ => rfl)
    frameCalls

end OsSim.Paging.FrameNodes
