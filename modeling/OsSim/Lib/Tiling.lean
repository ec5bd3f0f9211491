import Mathlib.Algebra.BigOperators.Group.List.Basic
import Mathlib.Algebra.GroupWithZero.Nat
import Mathlib.Data.List.Nodup
import Mathlib.Logic.Function.Basic

namespace Tiling

variable {ρ α ι : Type*} (weight : ρ → α → Nat)

/-- How often the pieces of a family cover the point `x`. -/
def count (family : List ρ) (x : α) : Nat := (family.map (weight · x)).sum

/-- Each point of the universe is covered exactly once, and no other point is covered. -/
def Tiles (family : List ρ) (univ : α → Prop) [DecidablePred univ] : Prop :=
  ∀ x, count weight family x = if univ x then 1 else 0

@[simp] theorem count_nil (x : α) : count weight [] x = 0 := rfl

@[simp] theorem count_cons (r : ρ) (family : List ρ) (x : α) :
    count weight (r :: family) x = weight r x + count weight family x :=
  List.sum_cons

@[simp] theorem count_append (family family' : List ρ) (x : α) :
    count weight (family ++ family') x = count weight family x + count weight family' x := by
  rw [count, List.map_append, List.sum_append]
  rfl

variable {weight}

theorem count_perm {family family' : List ρ} (same : family.Perm family') (x : α) :
    count weight family x = count weight family' x :=
  (same.map _).sum_eq

theorem count_update [DecidableEq ι] {labels : List ι} (nodup : labels.Nodup) {i : ι}
    (member : i ∈ labels) (pieces : ι → ρ) (r : ρ) (x : α) :
    count weight (labels.map (Function.update pieces i r)) x + weight (pieces i) x =
      count weight (labels.map pieces) x + weight r x := by
  induction labels with
  | nil => cases member
  | cons j rest ih =>
      obtain ⟨absent, nodup'⟩ := List.nodup_cons.mp nodup
      rw [List.map_cons, List.map_cons, count_cons, count_cons]
      by_cases same : j = i
      · subst same
        have kept : rest.map (Function.update pieces j r) = rest.map pieces := by
          apply List.map_congr_left
          intro k inside
          refine Function.update_of_ne ?_ _ _
          rintro rfl
          exact absent inside
        rw [kept, Function.update_self]
        omega
      · have later := ih nodup' ((List.mem_cons.mp member).resolve_left (Ne.symm same))
        rw [Function.update_of_ne same]
        omega

theorem count_pos_iff {family : List ρ} {x : α} :
    0 < count weight family x ↔ ∃ r ∈ family, 0 < weight r x := by
  induction family with
  | nil => simp
  | cons r rest ih =>
      rw [count_cons, Nat.add_pos_iff_pos_or_pos, ih, List.exists_mem_cons_iff]

theorem weight_le_count {labels : List ι} {i : ι} (member : i ∈ labels) (pieces : ι → ρ) (x : α) :
    weight (pieces i) x ≤ count weight (labels.map pieces) x := by
  induction labels with
  | nil => cases member
  | cons j rest ih =>
      rw [List.map_cons, count_cons]
      rcases List.mem_cons.mp member with rfl | later
      · exact Nat.le_add_right _ _
      · exact Nat.le_add_left_of_le (ih later)

theorem add_le_count {labels : List ι} {i j : ι} (first : i ∈ labels) (second : j ∈ labels)
    (different : i ≠ j) (pieces : ι → ρ) (x : α) :
    weight (pieces i) x + weight (pieces j) x ≤ count weight (labels.map pieces) x := by
  induction labels with
  | nil => cases first
  | cons k rest ih =>
      rw [List.map_cons, count_cons]
      rcases List.mem_cons.mp first with rfl | first'
      · have later := (List.mem_cons.mp second).resolve_left (Ne.symm different)
        exact Nat.add_le_add_left (weight_le_count later pieces x) _
      · rcases List.mem_cons.mp second with rfl | second'
        · rw [Nat.add_comm]
          exact Nat.add_le_add_left (weight_le_count first' pieces x) _
        · exact Nat.le_add_left_of_le (ih first' second')

section Tiles

variable {family : List ρ} {univ : α → Prop} [DecidablePred univ]

theorem Tiles.covered_iff (tiles : Tiles weight family univ) (x : α) :
    (∃ r ∈ family, 0 < weight r x) ↔ univ x := by
  rw [← count_pos_iff, tiles x]
  split <;> simp_all

theorem Tiles.inside (tiles : Tiles weight family univ) {r : ρ} (member : r ∈ family) {x : α}
    (covered : 0 < weight r x) : univ x :=
  (tiles.covered_iff x).mp ⟨r, member, covered⟩

theorem Tiles.count_le_one (tiles : Tiles weight family univ) (x : α) : count weight family x ≤ 1 := by
  rw [tiles x]
  split <;> omega

theorem pairwise_of_count_le_one (once : ∀ x, count weight family x ≤ 1) :
    family.Pairwise fun r r' => ∀ x, ¬ (0 < weight r x ∧ 0 < weight r' x) := by
  induction family with
  | nil => exact .nil
  | cons r rest ih =>
      refine List.pairwise_cons.mpr ⟨?_, ih fun x => ?_⟩
      · rintro r' member x ⟨first, second⟩
        have covered : 0 < count weight rest x := count_pos_iff.mpr ⟨r', member, second⟩
        have bound := once x
        rw [count_cons] at bound
        omega
      · have bound := once x
        rw [count_cons] at bound
        omega

theorem Tiles.disjoint (tiles : Tiles weight family univ) :
    family.Pairwise fun r r' => ∀ x, ¬ (0 < weight r x ∧ 0 < weight r' x) :=
  pairwise_of_count_le_one tiles.count_le_one

end Tiles

end Tiling
