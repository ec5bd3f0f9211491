import Mathlib.Logic.Function.Basic
import Mathlib.Data.List.Nodup
import Mathlib.Tactic.Tauto

namespace Custody

variable {ι α : Type*} {held : ι → Option α} {pending free : List α} {univ : α → Prop}
variable {i : ι} {a : α}

/-- Resources of one kind: some are held, some are in flight (taken from the pool and not yet given to a
holder), some are in the pool. No resource is in two of these places, or twice in one. -/
structure Exclusive (held : ι → Option α) (pending free : List α) : Prop where
  injective : ∀ i j a, held i = some a → held j = some a → i = j
  outside : ∀ i a, held i = some a → a ∉ pending ++ free
  nodup : (pending ++ free).Nodup

def Complete (univ : α → Prop) (held : ι → Option α) (pending free : List α) : Prop :=
  ∀ a, univ a → a ∈ free ∨ a ∈ pending ∨ ∃ i, held i = some a

/-- The first `n` resources of the pool are taken; the one taken last lies in front. -/
theorem Exclusive.pops (own : Exclusive held pending free) (n : Nat) :
    Exclusive held ((free.take n).reverse ++ pending) (free.drop n) := by
  have front : (pending ++ free.take n).Perm ((free.take n).reverse ++ pending) :=
    List.perm_append_comm.trans ((List.reverse_perm _).symm.append_right _)
  have same : (pending ++ free).Perm ((free.take n).reverse ++ pending ++ free.drop n) := by
    have moved := front.append_right (free.drop n)
    rwa [List.append_assoc, List.take_append_drop] at moved
  exact ⟨own.injective, fun i b holds member => own.outside i b holds (same.mem_iff.mpr member),
    same.nodup_iff.mp own.nodup⟩

theorem Exclusive.pop (own : Exclusive held pending (a :: free)) :
    Exclusive held (a :: pending) free := by
  simpa using own.pops 1

theorem Exclusive.lose (own : Exclusive held pending free) : Exclusive held [] free := by
  have sub : ([] ++ free).Sublist (pending ++ free) := by simp
  exact ⟨own.injective, fun i b holds member => own.outside i b holds (sub.subset member),
    own.nodup.sublist sub⟩

theorem Complete.pops (all : Complete univ held pending free) (n : Nat) :
    Complete univ held ((free.take n).reverse ++ pending) (free.drop n) := by
  intro b inside
  have place := all b inside
  rw [← List.take_append_drop n free] at place
  simp only [List.mem_append, List.mem_reverse] at place ⊢
  tauto

variable [DecidableEq ι]

theorem Exclusive.drop (own : Exclusive held pending free) (i : ι) :
    Exclusive (Function.update held i none) pending free := by
  have weaker : ∀ j b, Function.update held i none j = some b → held j = some b := by
    intro j b holds
    by_cases same : j = i
    · subst same
      simp at holds
    · rwa [Function.update_of_ne same] at holds
  exact ⟨fun j k b hj hk => own.injective j k b (weaker j b hj) (weaker k b hk),
    fun j b hj => own.outside j b (weaker j b hj), own.nodup⟩

/-- A holder gives its resource up for another holder to take. -/
theorem Exclusive.release (own : Exclusive held pending free) (holds : held i = some a) :
    Exclusive (Function.update held i none) (a :: pending) free := by
  have dropped := own.drop i
  refine ⟨dropped.injective, ?_, ?_⟩
  · intro j b hj member
    rcases List.mem_cons.mp member with rfl | rest
    · by_cases same : j = i
      · subst same
        simp at hj
      · rw [Function.update_of_ne same] at hj
        exact same (own.injective j i b hj holds)
    · exact dropped.outside j b hj rest
  · exact List.nodup_cons.mpr ⟨own.outside i a holds, own.nodup⟩

/-- A holder takes a resource in flight, in place of what it held. -/
theorem Exclusive.assign (own : Exclusive held (a :: pending) free) (i : ι) :
    Exclusive (Function.update held i (some a)) pending free := by
  have unheld : ∀ k, held k ≠ some a := fun k holds => own.outside k a holds (by simp)
  obtain ⟨absent, nodup⟩ := List.nodup_cons.mp own.nodup
  refine ⟨?_, ?_, nodup⟩
  · intro j k b hj hk
    by_cases ji : j = i <;> by_cases ki : k = i
    · rw [ji, ki]
    · rw [ji, Function.update_self] at hj
      rw [Function.update_of_ne ki, ← hj] at hk
      exact absurd hk (unheld k)
    · rw [ki, Function.update_self] at hk
      rw [Function.update_of_ne ji, ← hk] at hj
      exact absurd hj (unheld j)
    · rw [Function.update_of_ne ji] at hj
      rw [Function.update_of_ne ki] at hk
      exact own.injective j k b hj hk
  · intro j b hj
    by_cases ji : j = i
    · rw [ji, Function.update_self, Option.some.injEq] at hj
      exact hj ▸ absent
    · rw [Function.update_of_ne ji] at hj
      exact fun member => own.outside j b hj (List.mem_cons_of_mem _ member)

theorem Complete.drop (all : Complete univ held pending free) (idle : held i = none) :
    Complete univ (Function.update held i none) pending free := by
  rwa [← idle, Function.update_eq_self]

theorem Complete.assign (all : Complete univ held (a :: pending) free) (idle : held i = none) :
    Complete univ (Function.update held i (some a)) pending free := by
  intro b inside
  rcases all b inside with pool | flight | ⟨j, hj⟩
  · exact .inl pool
  · rcases List.mem_cons.mp flight with rfl | rest
    · exact .inr (.inr ⟨i, by simp⟩)
    · exact .inr (.inl rest)
  · have different : j ≠ i := by
      rintro rfl
      rw [idle] at hj
      cases hj
    exact .inr (.inr ⟨j, by rwa [Function.update_of_ne different]⟩)

end Custody
