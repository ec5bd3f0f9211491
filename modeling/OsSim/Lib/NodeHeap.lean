import Mathlib.Logic.Function.Basic
import Mathlib.Data.List.Nodup
import Mathlib.Data.List.Perm.Subperm

namespace NodeHeap

variable {α : Type*}

structure Node (α : Type*) where
  val : α
  next : Option Nat

/-- The blocks of one kind of list node. A freed block keeps its content and its address is not handed
out again, so that every access to it is seen: `misused` records whether there was one. -/
structure Heap (α : Type*) where
  cell : Nat → Node α
  live : Nat → Bool
  fresh : Nat
  misused : Bool

namespace Heap

def touch (h : Heap α) (p : Nat) : Heap α :=
  { h with misused := h.misused || !h.live p }

def write (h : Heap α) (p : Nat) (n : Node α) : Heap α :=
  { h.touch p with cell := Function.update h.cell p n }

def malloc (h : Heap α) (n : Node α) : Heap α :=
  { h with
    cell := Function.update h.cell h.fresh n
    live := Function.update h.live h.fresh true
    fresh := h.fresh + 1 }

def free (h : Heap α) (p : Nat) : Heap α :=
  { h.touch p with live := Function.update h.live p false }

theorem touch_of_live {h : Heap α} {p : Nat} (alive : h.live p = true) : h.touch p = h := by
  simp [touch, alive]

end Heap

/-! ## List segments -/

/-- From `p`, following `next`, the blocks of `l` hold the values of `l` and the walk ends at `q`. -/
def Seg (cell : Nat → Node α) : Option Nat → List (Nat × α) → Option Nat → Prop
  | p, [], q => p = q
  | p, b :: rest, q => p = some b.1 ∧ (cell b.1).val = b.2 ∧ Seg cell (cell b.1).next rest q

theorem seg_append {cell : Nat → Node α} {p q : Option Nat} {l l' : List (Nat × α)} :
    Seg cell p (l ++ l') q ↔ ∃ r, Seg cell p l r ∧ Seg cell r l' q := by
  induction l generalizing p with
  | nil => simp [Seg]
  | cons b rest ih => simp only [List.cons_append, Seg, ih, exists_and_left, and_assoc]

theorem Seg.congr {cell cell' : Nat → Node α} {p q : Option Nat} {l : List (Nat × α)}
    (seg : Seg cell p l q) (same : ∀ b ∈ l, cell' b.1 = cell b.1) : Seg cell' p l q := by
  induction l generalizing p with
  | nil => exact seg
  | cons b rest ih =>
      obtain ⟨at_b, val, tail⟩ := seg
      have same_b := same b (by simp)
      refine ⟨at_b, by rw [same_b]; exact val, ?_⟩
      rw [same_b]
      exact ih tail (fun c member => same c (by simp [member]))

theorem Seg.update {cell : Nat → Node α} {p q : Option Nat} {l : List (Nat × α)} {a : Nat}
    (seg : Seg cell p l q) (outside : a ∉ l.map Prod.fst) (n : Node α) :
    Seg (Function.update cell a n) p l q := by
  apply seg.congr
  intro b member
  apply Function.update_of_ne
  rintro rfl
  exact outside (List.mem_map.mpr ⟨b, member, rfl⟩)

/-! ## Lists in a heap -/

/-- The heap holds the list `l` of blocks and values at `head`: all its blocks are live and different. -/
structure Holds (h : Heap α) (head : Option Nat) (l : List (Nat × α)) : Prop where
  seg : Seg h.cell head l none
  nodup : (l.map Prod.fst).Nodup
  live : ∀ b ∈ l, h.live b.1 = true
  below : ∀ b ∈ l, b.1 < h.fresh
  sound : h.misused = false

variable {h : Heap α} {head : Option Nat} {l pre post : List (Nat × α)} {a b : Nat} {v w : α}

theorem Holds.touch (holds : Holds h head l) {c : Nat × α} (member : c ∈ l) : h.touch c.1 = h :=
  Heap.touch_of_live (holds.live c member)

theorem Holds.val (holds : Holds h head (pre ++ (a, v) :: post)) : (h.cell a).val = v := by
  obtain ⟨_, _, _, val, _⟩ := seg_append.mp holds.seg
  exact val

theorem Holds.next (holds : Holds h head (pre ++ (a, v) :: post)) :
    (h.cell a).next = post.head?.map Prod.fst := by
  obtain ⟨_, _, _, _, tail⟩ := seg_append.mp holds.seg
  cases post with
  | nil => exact tail
  | cons c rest => exact tail.1

private theorem outside_of_nodup (nodup : ((pre ++ (a, v) :: post).map Prod.fst).Nodup) :
    a ∉ pre.map Prod.fst ∧ a ∉ post.map Prod.fst := by
  rw [List.map_append, List.map_cons, List.nodup_append] at nodup
  obtain ⟨_, tail, apart⟩ := nodup
  exact ⟨fun member => apart a member a (by simp) rfl, (List.nodup_cons.mp tail).1⟩

private theorem address_of_setVal {c : Nat × α} (v : α) {w : α} (member : c ∈ pre ++ (a, w) :: post) :
    ∃ d ∈ pre ++ (a, v) :: post, d.1 = c.1 := by
  rcases List.mem_append.mp member with first | second
  · exact ⟨c, by simp [first], rfl⟩
  · rcases List.mem_cons.mp second with rfl | third
    · exact ⟨(a, v), by simp, rfl⟩
    · exact ⟨c, by simp [third], rfl⟩

theorem Holds.setVal (holds : Holds h head (pre ++ (a, v) :: post)) (w : α) :
    Holds (h.write a ⟨w, (h.cell a).next⟩) head (pre ++ (a, w) :: post) := by
  obtain ⟨outsidePre, outsidePost⟩ := outside_of_nodup holds.nodup
  have alive : h.touch a = h := holds.touch (c := (a, v)) (by simp)
  obtain ⟨r, segPre, at_a, val, tail⟩ := seg_append.mp holds.seg
  refine ⟨?_, ?_, ?_, ?_, ?_⟩
  · refine seg_append.mpr ⟨r, segPre.update outsidePre _, at_a, by simp [Heap.write], ?_⟩
    simpa [Heap.write] using tail.update outsidePost _
  · simpa using holds.nodup
  · intro c member
    obtain ⟨d, old, same⟩ := address_of_setVal v member
    simpa [Heap.write, alive, same] using holds.live d old
  · intro c member
    obtain ⟨d, old, same⟩ := address_of_setVal v member
    simpa [Heap.write, alive, same] using holds.below d old
  · simpa [Heap.write, alive] using holds.sound

/-- Copying the next block over a block of the list and freeing the next block. -/
theorem Holds.absorb (holds : Holds h head (pre ++ (a, v) :: (b, w) :: post)) :
    Holds ((h.write a (h.cell b)).free b) head (pre ++ (a, w) :: post) := by
  have alive_a : h.live a = true := holds.live (a, v) (by simp)
  have alive_b : h.live b = true := holds.live (b, w) (by simp)
  obtain ⟨outsidePre, outsidePost⟩ := outside_of_nodup holds.nodup
  have nodup' : ((pre ++ (a, v) :: [] ++ (b, w) :: post).map Prod.fst).Nodup := by
    simpa using holds.nodup
  obtain ⟨outsidePre', outsidePost'⟩ := outside_of_nodup nodup'
  have different : a ≠ b := by
    rintro rfl
    simp at outsidePost
  obtain ⟨r, segPre, at_a, _, _, val, tail⟩ := seg_append.mp holds.seg
  have apart : ∀ c ∈ pre ++ (a, w) :: post, c.1 ≠ b := by
    intro c member same
    rcases List.mem_append.mp member with first | second
    · exact outsidePre' (List.mem_map.mpr ⟨c, by simp [first], same⟩)
    · rcases List.mem_cons.mp second with rfl | third
      · exact different same
      · exact outsidePost' (List.mem_map.mpr ⟨c, third, same⟩)
  have kept : ∀ c ∈ pre ++ (a, w) :: post, ∃ d ∈ pre ++ (a, v) :: (b, w) :: post, d.1 = c.1 := by
    intro c member
    obtain ⟨d, old, same⟩ := address_of_setVal v member
    refine ⟨d, ?_, same⟩
    rcases List.mem_append.mp old with first | second
    · simp [first]
    · rcases List.mem_cons.mp second with rfl | third
      · simp
      · simp [third]
  refine ⟨?_, ?_, ?_, ?_, ?_⟩
  · refine seg_append.mpr ⟨r, segPre.update outsidePre _, at_a, ?_, ?_⟩
    · simpa [Heap.write, Heap.free, Heap.touch] using val
    · have outsideTail : a ∉ post.map Prod.fst := fun member => outsidePost (by simp [member])
      simpa [Heap.write, Heap.free, Heap.touch] using tail.update outsideTail _
  · have nodup := holds.nodup
    simp only [List.map_append, List.map_cons] at nodup ⊢
    exact nodup.sublist (List.Sublist.append_left ((List.sublist_cons_self _ _).cons_cons _) _)
  · intro c member
    obtain ⟨d, old, same⟩ := kept c member
    simpa [Heap.write, Heap.free, Heap.touch, apart c member, same] using holds.live d old
  · intro c member
    obtain ⟨d, old, same⟩ := kept c member
    simpa [Heap.write, Heap.free, Heap.touch, same] using holds.below d old
  · simp [Heap.write, Heap.free, alive_a, Heap.touch, alive_b, holds.sound]

/-- A block that is handed out and is not in the list. -/
structure Spare (h : Heap α) (l : List (Nat × α)) (c : Nat) : Prop where
  live : h.live c = true
  below : c < h.fresh
  outside : c ∉ l.map Prod.fst

/-- Handing out a block leaves a list as it is, and the block is spare. -/
theorem Holds.malloc (holds : Holds h head l) (n : Node α) :
    Holds (h.malloc n) head l ∧ Spare (h.malloc n) l h.fresh := by
  have outside : h.fresh ∉ l.map Prod.fst := by
    intro member
    obtain ⟨c, inside, same⟩ := List.mem_map.mp member
    have := holds.below c inside
    omega
  have apart : ∀ c ∈ l, c.1 ≠ h.fresh := fun c inside => Nat.ne_of_lt (holds.below c inside)
  refine ⟨⟨holds.seg.update outside n, holds.nodup, ?_, ?_, holds.sound⟩, ?_, Nat.lt_succ_self _,
    outside⟩
  · intro c inside
    simpa [Heap.malloc, apart c inside] using holds.live c inside
  · intro c inside
    exact Nat.lt_succ_of_lt (holds.below c inside)
  · simp [Heap.malloc]

theorem Spare.absorb {c : Nat} (spare : Spare h (pre ++ (a, v) :: (b, w) :: post) c) :
    Spare ((h.write a (h.cell b)).free b) (pre ++ (a, w) :: post) c := by
  obtain ⟨live, below, outside⟩ := spare
  simp only [List.map_append, List.map_cons, List.mem_append, List.mem_cons, not_or] at outside
  obtain ⟨notPre, notA, notB, notPost⟩ := outside
  refine ⟨by simpa [Heap.write, Heap.free, Heap.touch, notB] using live, below, ?_⟩
  simp [notPre, notA, notPost]

theorem Spare.write {c : Nat} (spare : Spare h l c) (n : Node α) :
    Spare (h.write c n) l c := by
  obtain ⟨live, below, outside⟩ := spare
  have alive : h.touch c = h := Heap.touch_of_live live
  exact ⟨by simpa [Heap.write, alive] using live, by simpa [Heap.write, alive] using below, outside⟩

theorem Holds.writeSpare (holds : Holds h head l) {c : Nat} (spare : Spare h l c) (n : Node α) :
    Holds (h.write c n) head l := by
  have alive : h.touch c = h := Heap.touch_of_live spare.live
  refine ⟨by simpa [Heap.write, alive] using holds.seg.update spare.outside n, holds.nodup, ?_, ?_, ?_⟩
  · simpa [Heap.write, alive] using holds.live
  · simpa [Heap.write, alive] using holds.below
  · simpa [Heap.write, alive] using holds.sound

/-- Linking a spare block in front of the list. -/
theorem Holds.link (holds : Holds h head l) {c : Nat} (spare : Spare h l c) (v : α) :
    Holds (h.write c ⟨v, head⟩) (some c) ((c, v) :: l) := by
  have alive : h.touch c = h := Heap.touch_of_live spare.live
  refine ⟨⟨rfl, by simp [Heap.write], ?_⟩, ?_, ?_, ?_, by simpa [Heap.write, alive] using holds.sound⟩
  · simpa [Heap.write] using holds.seg.update spare.outside _
  · exact List.nodup_cons.mpr ⟨spare.outside, holds.nodup⟩
  · intro d member
    rcases List.mem_cons.mp member with rfl | inside
    · simpa [Heap.write, alive] using spare.live
    · simpa [Heap.write, alive] using holds.live d inside
  · intro d member
    rcases List.mem_cons.mp member with rfl | inside
    · simpa [Heap.write, alive] using spare.below
    · simpa [Heap.write, alive] using holds.below d inside

/-- Linking a spare block behind the last one. -/
theorem Holds.linkLast (holds : Holds h head (pre ++ [(a, v)])) {c : Nat} (spare : Spare h (pre ++ [(a, v)]) c)
    (last : h.cell c = ⟨w, none⟩) :
    Holds (h.write a ⟨(h.cell a).val, some c⟩) head (pre ++ [(a, v)] ++ [(c, w)]) := by
  obtain ⟨outside, _⟩ := outside_of_nodup holds.nodup
  have alive : h.touch a = h := holds.touch (c := (a, v)) (by simp)
  have apart : c ≠ a := fun same => spare.outside (by simp [same])
  obtain ⟨r, first, at_a, val, _⟩ := seg_append.mp holds.seg
  have grown : ∀ b ∈ pre ++ [(a, v)] ++ [(c, w)], b ∈ pre ++ [(a, v)] ∨ b = (c, w) :=
    fun b member => (List.mem_append.mp member).imp id List.mem_singleton.mp
  refine ⟨?_, ?_, ?_, ?_, by simpa [Heap.write, alive] using holds.sound⟩
  · refine seg_append.mpr ⟨some c, seg_append.mpr ⟨r, first.update outside _, at_a, ?_, ?_⟩, rfl, ?_, ?_⟩
    · simpa [Heap.write] using val
    · simp [Heap.write, Seg]
    · simp [Heap.write, apart, last]
    · simp [Heap.write, apart, last, Seg]
  · rw [List.map_append, List.nodup_append]
    refine ⟨holds.nodup, List.nodup_singleton _, ?_⟩
    intro x inside y single
    rw [List.mem_singleton.mp single]
    rintro rfl
    exact spare.outside inside
  · intro b member
    rcases grown b member with inside | rfl
    · simpa [Heap.write, alive] using holds.live b inside
    · simpa [Heap.write, alive] using spare.live
  · intro b member
    rcases grown b member with inside | rfl
    · simpa [Heap.write, alive] using holds.below b inside
    · simpa [Heap.write, alive] using spare.below

/-- Freeing a block of another list. -/
theorem Holds.freeOther (holds : Holds h head l) {c : Nat} (alive : h.live c = true) (outside : c ∉ l.map Prod.fst) :
    Holds (h.free c) head l := by
  have same : h.touch c = h := Heap.touch_of_live alive
  refine ⟨by simpa [Heap.free, same] using holds.seg, holds.nodup, ?_, ?_, by simpa [Heap.free, same] using holds.sound⟩
  · intro b member
    have apart : b.1 ≠ c := by
      rintro rfl
      exact outside (List.mem_map.mpr ⟨b, member, rfl⟩)
    simpa [Heap.free, same, apart] using holds.live b member
  · intro b member
    simpa [Heap.free, same] using holds.below b member

/-- Freeing the first block. -/
theorem Holds.freeFirst (holds : Holds h head ((a, v) :: l)) : Holds (h.free a) (h.cell a).next l := by
  have alive : h.touch a = h := holds.touch (c := (a, v)) (by simp)
  obtain ⟨outside, nodup⟩ := List.nodup_cons.mp holds.nodup
  obtain ⟨_, _, tail⟩ := holds.seg
  refine ⟨by simpa [Heap.free, alive] using tail, nodup, ?_, ?_, by simpa [Heap.free, alive] using holds.sound⟩
  · intro c member
    have apart : c.1 ≠ a := by
      rintro rfl
      exact outside (List.mem_map.mpr ⟨c, member, rfl⟩)
    simpa [Heap.free, alive, apart] using holds.live c (List.mem_cons_of_mem _ member)
  · intro c member
    simpa [Heap.free, alive] using holds.below c (List.mem_cons_of_mem _ member)

theorem Holds.length_le (holds : Holds h head l) : l.length ≤ h.fresh := by
  have inside : l.map Prod.fst ⊆ List.range h.fresh := by
    intro c member
    obtain ⟨d, old, same⟩ := List.mem_map.mp member
    exact List.mem_range.mpr (same ▸ holds.below d old)
  have := (List.subperm_of_subset holds.nodup inside).length_le
  simpa using this

/-- The blocks from `p` on, at most `fuel` of them. -/
def walk (cell : Nat → Node α) : Nat → Option Nat → List (Nat × α)
  | _, none => []
  | 0, some _ => []
  | fuel + 1, some p => (p, (cell p).val) :: walk cell fuel (cell p).next

theorem Seg.walk_eq {cell : Nat → Node α} {p : Option Nat} {l : List (Nat × α)}
    (seg : Seg cell p l none) {fuel : Nat} (enough : l.length ≤ fuel) : walk cell fuel p = l := by
  induction l generalizing p fuel with
  | nil =>
      rw [show p = none from seg]
      cases fuel <;> rfl
  | cons b rest ih =>
      obtain ⟨rfl, val, tail⟩ := seg
      obtain ⟨fuel, rfl⟩ := Nat.exists_eq_add_one.mpr (Nat.zero_lt_of_lt enough)
      rw [walk, val, ih tail (by simpa using enough)]

theorem Holds.walk_eq (holds : Holds h head l) : walk h.cell h.fresh head = l :=
  holds.seg.walk_eq holds.length_le

/-! ## Blocks that point to each other -/

/-- The blocks from `base` up to `top` hold values with `good` and point to blocks among them. -/
def Closed (good : α → Prop) (base top : Nat) (cell : Nat → Node α) : Prop :=
  ∀ a, base ≤ a → a < top →
    good (cell a).val ∧ ∀ b, (cell a).next = some b → base ≤ b ∧ b < top

section Closed

variable {good weaker : α → Prop} {base top : Nat} {cell : Nat → Node α}

theorem Closed.mono (closed : Closed good base top cell) (implies : ∀ v, good v → weaker v) :
    Closed weaker base top cell := by
  intro a lower upper
  obtain ⟨val, next⟩ := closed a lower upper
  exact ⟨implies _ val, next⟩

theorem Closed.update (closed : Closed good base top cell) (a : Nat) {n : Node α} (val : good n.val)
    (next : ∀ b, n.next = some b → base ≤ b ∧ b < top) :
    Closed good base top (Function.update cell a n) := by
  intro b lower upper
  by_cases same : b = a
  · subst same
    rw [Function.update_self]
    exact ⟨val, next⟩
  · rw [Function.update_of_ne same]
    exact closed b lower upper

theorem Closed.update_top (closed : Closed good base top cell) (n : Node α) :
    Closed good base top (Function.update cell top n) := by
  intro b lower upper
  rw [Function.update_of_ne (Nat.ne_of_lt upper)]
  exact closed b lower upper

theorem Closed.extend (closed : Closed good base top cell) {n : Node α} (val : good n.val)
    (next : ∀ b, n.next = some b → base ≤ b ∧ b < top) :
    Closed good base (top + 1) (Function.update cell top n) := by
  intro b lower upper
  by_cases same : b = top
  · subst same
    rw [Function.update_self]
    exact ⟨val, fun c at_c => ⟨(next c at_c).1, Nat.lt_succ_of_lt (next c at_c).2⟩⟩
  · rw [Function.update_of_ne same]
    obtain ⟨val', next'⟩ := closed b lower (by omega)
    exact ⟨val', fun c at_c => ⟨(next' c at_c).1, Nat.lt_succ_of_lt (next' c at_c).2⟩⟩

end Closed

end NodeHeap
