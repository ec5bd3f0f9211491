import OsSim.Paging.Mm

namespace OsSim.Paging.AreaNodes
open NodeHeap

/-! ## The lookup over linked areas -/

/-- The loop of `getVmaByNum`, for at most `fuel` tests of its condition; `none` where it still runs. -/
def walkAreas (cell : Nat → Node VmArea) (vmaid : Int) : Nat → Int → Option Nat → Option (Option Nat)
  | 0, _, _ => none
  | fuel + 1, vmait, pvma =>
      if vmait < vmaid then
        match pvma with
        | none => some none
        -- `vmait` is not counted up
        | some vma => walkAreas cell vmaid fuel vmait (cell vma).next
      else some pvma

def getVmaByNum (cell : Nat → Node VmArea) (mmap : Option Nat) (vmaid : Int) (fuel : Nat) : Option (Option Nat) :=
  if mmap = none then some none else walkAreas cell vmaid fuel 0 mmap

section Lookup

variable {cell : Nat → Node VmArea} {mmap : Option Nat} {areas : List (Nat × VmArea)} {vmaid : Int} {fuel : Nat}

/-- The loop stops at once or runs to the end of the list. -/
theorem walkAreas_eq {vmait : Int} {pvma : Option Nat} (seg : Seg cell pvma areas none)
    (enough : areas.length < fuel) :
    walkAreas cell vmaid fuel vmait pvma = some (if vmait < vmaid then none else pvma) := by
  induction areas generalizing pvma fuel with
  | nil =>
      obtain ⟨fuel, rfl⟩ := Nat.exists_eq_add_one.mpr (Nat.zero_lt_of_lt enough)
      have ended : pvma = none := seg
      rw [ended, walkAreas]
      split <;> rfl
  | cons area rest ih =>
      obtain ⟨fuel, rfl⟩ := Nat.exists_eq_add_one.mpr (Nat.zero_lt_of_lt enough)
      obtain ⟨rfl, _, tail⟩ := seg
      rw [walkAreas]
      split
      · next running =>
        have step := ih tail (Nat.lt_of_succ_lt_succ enough)
        rwa [if_pos running] at step
      · rfl

theorem getVmaByNum_eq (seg : Seg cell mmap areas none) (enough : areas.length < fuel) :
    getVmaByNum cell mmap vmaid fuel = some (if 0 < vmaid then none else mmap) := by
  rw [getVmaByNum, walkAreas_eq seg enough]
  split
  · next empty =>
    rw [empty, ite_self]
  · rfl

/-- The areas of a list are looked up as those of the linked list. -/
theorem getVmaByNum_list (seg : Seg cell mmap areas none) (enough : areas.length < fuel) :
    (getVmaByNum cell mmap vmaid fuel).map (Option.map fun vma => (cell vma).val) =
      some (Paging.getVmaByNum vmaid (areas.map Prod.snd)) := by
  have list : ∀ areas : List VmArea,
      Paging.getVmaByNum vmaid areas = if 0 < vmaid then none else areas.head? := by
    intro areas
    induction areas with
    | nil => simp [Paging.getVmaByNum]
    | cons area rest ih =>
        rw [Paging.getVmaByNum, ih]
        split <;> rfl
  rw [getVmaByNum_eq seg enough, list]
  split
  · rfl
  · cases areas with
    | nil =>
        rw [show mmap = none from seg]
        rfl
    | cons area rest =>
        obtain ⟨rfl, val, _⟩ := seg
        simp [val]

end Lookup

/-- The walk ends, at the area with the number `vmaid` or, behind the last one, with NULL. -/
def LooksUp (cell : Nat → Node VmArea) (mmap : Option Nat) (areas : List (Nat × VmArea)) (vmaid : Int) : Prop :=
  ∀ fuel, areas.length < fuel → getVmaByNum cell mmap vmaid fuel = some (areas[vmaid.toNat]?.map Prod.fst)

theorem looksUp_iff {cell : Nat → Node VmArea} {mmap : Option Nat} {areas : List (Nat × VmArea)} {vmaid : Int}
    (seg : Seg cell mmap areas none) (nonneg : 0 ≤ vmaid) :
    LooksUp cell mmap areas vmaid ↔ vmaid = 0 ∨ (areas.length : Int) ≤ vmaid := by
  have first : areas[0]?.map Prod.fst = mmap := by
    cases areas with
    | nil => exact (show mmap = none from seg).symm
    | cons area rest => exact seg.1.symm
  constructor
  · intro looksUp
    by_cases zero : vmaid = 0
    · exact .inl zero
    · have result := looksUp (areas.length + 1) (Nat.lt_succ_self _)
      rw [getVmaByNum_eq seg (Nat.lt_succ_self _), if_pos (by omega), Option.some.injEq] at result
      have missing : areas[vmaid.toNat]? = none := Option.map_eq_none_iff.mp result.symm
      have passed := List.getElem?_eq_none_iff.mp missing
      exact .inr (by omega)
  · rintro (rfl | passed) fuel enough
    · rw [getVmaByNum_eq seg enough, if_neg (Int.lt_irrefl 0), Int.toNat_zero, first]
    · have missing : areas[vmaid.toNat]? = none := List.getElem?_eq_none (by omega)
      rw [getVmaByNum_eq seg enough, missing]
      by_cases zero : vmaid = 0
      · subst zero
        rw [if_neg (Int.lt_irrefl 0), ← first, show areas[0]? = none from missing]
      · rw [if_pos (by omega)]
        rfl

def twoAreas (vma : Nat) : Node VmArea :=
  if vma = 0 then ⟨⟨0, 256, 0, none⟩, some 1⟩ else ⟨⟨256, 512, 256, none⟩, none⟩

theorem twoAreas_looksUp_iff :
    LooksUp twoAreas (some 0) [(0, (twoAreas 0).val), (1, (twoAreas 1).val)] 2 ↔ (2 : Int) = 0 ∨ (2 : Int) ≤ 2 :=
  looksUp_iff ⟨rfl, rfl, rfl, rfl, rfl⟩ (by decide)

theorem twoAreas_not_looksUp :
    ¬ LooksUp twoAreas (some 0) [(0, (twoAreas 0).val), (1, (twoAreas 1).val)] 1 ∧
      getVmaByNum twoAreas (some 0) 1 3 = some none := by
  refine ⟨fun looksUp => ?_, rfl⟩
  have result := looksUp 3 (by decide)
  cases result

end OsSim.Paging.AreaNodes
