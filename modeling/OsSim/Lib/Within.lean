import Mathlib.Logic.Relation

namespace Within
open Relation

variable {σ : Type*} {others turn : σ → σ → Prop} {goal avoid inv : σ → Prop} {rank : σ → Nat}

/-- Whatever the others do between its turns, a party comes to its goal in at most `n` turns, and none of them
leads to a state that it avoids. -/
def Attains (others turn : σ → σ → Prop) (goal avoid : σ → Prop) : Nat → σ → Prop
  | 0, s => goal s
  | n + 1, s => ∀ s', ReflTransGen others s s' → goal s' ∨
      (∃ s'', turn s' s'') ∧ ∀ s'', turn s' s'' → ¬ avoid s'' ∧ Attains others turn goal avoid n s''

/-- What the others keep, they keep in any number of steps. -/
theorem kept_of_steps (kept : ∀ s s', inv s → others s s' → inv s' ∧ rank s' ≤ rank s) {s s' : σ}
    (holds : inv s) (run : ReflTransGen others s s') : inv s' ∧ rank s' ≤ rank s := by
  induction run with
  | refl => exact ⟨holds, Nat.le_refl _⟩
  | tail _ step ih =>
      obtain ⟨holds', less⟩ := kept _ _ ih.1 step
      exact ⟨holds', Nat.le_trans less ih.2⟩

/-- A party comes to its goal if each of its turns lowers a rank that the others do not raise. -/
theorem attains_of_rank (kept : ∀ s s', inv s → others s s' → inv s' ∧ rank s' ≤ rank s)
    (moves : ∀ s, inv s → ¬ goal s → ∃ s', turn s s')
    (turns : ∀ s s', inv s → turn s s' → ¬ avoid s' ∧ inv s' ∧ rank s' < rank s)
    {n : Nat} {s : σ} (holds : inv s) (bound : rank s ≤ n) : Attains others turn goal avoid n s := by
  induction n generalizing s with
  | zero =>
      apply Classical.byContradiction
      intro away
      obtain ⟨s', step⟩ := moves s holds away
      have less := (turns s s' holds step).2.2
      omega
  | succ n ih =>
      intro s' run
      obtain ⟨holds', less⟩ := kept_of_steps kept holds run
      rcases Classical.em (goal s') with here | away
      · exact .inl here
      · refine .inr ⟨moves s' holds' away, ?_⟩
        intro s'' step
        obtain ⟨clear, holds'', less'⟩ := turns s' s'' holds' step
        exact ⟨clear, ih holds'' (by omega)⟩

/-- Some run of a party that comes to its goal ends there. -/
theorem Attains.exists_run {n : Nat} {s : σ} (attains : Attains others turn goal avoid n s) :
    ∃ s', ReflTransGen (fun s s' => others s s' ∨ turn s s') s s' ∧ goal s' := by
  induction n generalizing s with
  | zero => exact ⟨s, .refl, attains⟩
  | succ n ih =>
      rcases attains s .refl with here | ⟨⟨next, step⟩, all⟩
      · exact ⟨s, .refl, here⟩
      · obtain ⟨s', run, ends⟩ := ih (all next step).2
        exact ⟨s', run.head (.inr step), ends⟩

end Within
