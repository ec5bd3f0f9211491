import Mathlib.Logic.Basic

namespace Transition

variable {σ ℓ : Type*} {step : σ → ℓ → σ → Prop} {ok weaker : σ → ℓ → Prop} {start : σ → Prop}

/-- The states of the runs from `start` in which every step taken meets `ok` in the state before it. -/
inductive Reach (step : σ → ℓ → σ → Prop) (ok : σ → ℓ → Prop) (start : σ → Prop) : σ → Prop
  | start {s : σ} (first : start s) : Reach step ok start s
  | step {s s' : σ} {l : ℓ} (before : Reach step ok start s) (allowed : ok s l)
      (taken : step s l s') : Reach step ok start s'

theorem Reach.invariant {inv : σ → Prop} (base : ∀ s, start s → inv s)
    (preserved : ∀ s l s', inv s → ok s l → step s l s' → inv s')
    {s : σ} (reachable : Reach step ok start s) : inv s := by
  induction reachable with
  | start first => exact base _ first
  | step _ allowed taken ih => exact preserved _ _ _ ih allowed taken

/-- As `Reach.invariant`, with an invariant proved before at hand in every step. -/
theorem Reach.invariant_with {known inv : σ → Prop}
    (have_known : ∀ s, Reach step ok start s → known s) (base : ∀ s, start s → inv s)
    (preserved : ∀ s l s', known s → inv s → ok s l → step s l s' → inv s')
    {s : σ} (reachable : Reach step ok start s) : inv s := by
  induction reachable with
  | start first => exact base _ first
  | step before allowed taken ih =>
      exact preserved _ _ _ (have_known _ before) ih allowed taken

theorem Reach.mono (implies : ∀ s l, ok s l → weaker s l)
    {s : σ} (reachable : Reach step ok start s) : Reach step weaker start s := by
  induction reachable with
  | start first => exact .start first
  | step _ allowed taken ih => exact .step ih (implies _ _ allowed) taken

theorem Reach.mono_start {start' : σ → Prop} (implies : ∀ s, start s → start' s)
    {s : σ} (reachable : Reach step ok start s) : Reach step ok start' s := by
  induction reachable with
  | start first => exact .start (implies _ first)
  | step _ allowed taken ih => exact .step ih allowed taken

/-- Two machines whose allowed steps agree in the states that `inv` describes have the same runs. -/
theorem Reach.transfer {step' : σ → ℓ → σ → Prop} {inv : σ → Prop} (base : ∀ s, start s → inv s)
    (agrees : ∀ s l s', inv s → ok s l → step s l s' → step' s l s')
    (preserved : ∀ s l s', inv s → ok s l → step' s l s' → inv s')
    {s : σ} (reachable : Reach step ok start s) : inv s ∧ Reach step' ok start s := by
  induction reachable with
  | start first => exact ⟨base _ first, .start first⟩
  | step _ allowed taken ih =>
      obtain ⟨known, before⟩ := ih
      have taken' := agrees _ _ _ known allowed taken
      exact ⟨preserved _ _ _ known allowed taken', .step before allowed taken'⟩

/-- The part `f` of a machine is itself a machine, if each step leaves it alone or is one of its steps. -/
theorem Reach.project {τ ℓ' : Type*} {step' : τ → ℓ' → τ → Prop} {ok' : τ → ℓ' → Prop} {start' : τ → Prop}
    {known : σ → Prop} (f : σ → τ) (have_known : ∀ s, Reach step ok start s → known s)
    (base : ∀ s, start s → start' (f s))
    (simulates : ∀ s l s', known s → ok s l → step s l s' →
      f s' = f s ∨ ∃ l', ok' (f s) l' ∧ step' (f s) l' (f s'))
    {s : σ} (reachable : Reach step ok start s) : Reach step' ok' start' (f s) := by
  induction reachable with
  | start first => exact .start (base _ first)
  | step before allowed taken ih =>
      rcases simulates _ _ _ (have_known _ before) allowed taken with same | ⟨l', allowed', taken'⟩
      · rw [same]
        exact ih
      · exact .step ih allowed' taken'

/-- A list of labels that can be taken one after the other. -/
theorem Reach.foldlM {exec : σ → ℓ → Option σ} {s s' : σ} {labels : List ℓ}
    (first : Reach (fun s l s' => exec s l = some s') ok start s)
    (allowed : ∀ l ∈ labels, ∀ s, ok s l) (taken : labels.foldlM exec s = some s') :
    Reach (fun s l s' => exec s l = some s') ok start s' := by
  induction labels generalizing s with
  | nil =>
      cases taken
      exact first
  | cons l rest ih =>
      rw [List.foldlM_cons, Option.bind_eq_bind, Option.bind_eq_some_iff] at taken
      obtain ⟨next, step, later⟩ := taken
      exact ih (.step first (allowed l (by simp) s) step)
        (fun l member => allowed l (List.mem_cons_of_mem _ member)) later

/-- The state after a list of labels, up to the first one that fails a check or cannot be taken. -/
def follow (exec : σ → ℓ → Option σ) (check : σ → ℓ → Prop) [∀ s l, Decidable (check s l)] : σ → List ℓ → σ
  | s, [] => s
  | s, l :: rest =>
      if check s l then
        match exec s l with
        | some next => follow exec check next rest
        | none => s
      else s

theorem Reach.follow {exec : σ → ℓ → Option σ} {check : σ → ℓ → Prop} [∀ s l, Decidable (check s l)]
    (allowed : ∀ s l, check s l → ok s l) {s : σ}
    (first : Reach (fun s l s' => exec s l = some s') ok start s) (labels : List ℓ) :
    Reach (fun s l s' => exec s l = some s') ok start (follow exec check s labels) := by
  induction labels generalizing s with
  | nil => exact first
  | cons l rest ih =>
      rw [Transition.follow]
      split
      · next passes =>
        cases step : exec s l with
        | some next => exact ih (.step first (allowed s l passes) step)
        | none => exact first
      · exact first

/-! ## Runs with their labels -/

/-- A run from `s`, with the labels of its steps in their order. -/
inductive Path (step : σ → ℓ → σ → Prop) (ok : σ → ℓ → Prop) (s : σ) : List ℓ → σ → Prop
  | start : Path step ok s [] s
  | step {labels : List ℓ} {s' s'' : σ} {l : ℓ} (before : Path step ok s labels s') (allowed : ok s' l)
      (taken : step s' l s'') : Path step ok s (labels ++ [l]) s''

/-! ## Runs of a machine that has one next state -/

section Exec

variable {exec : σ → ℓ → σ} {holds : σ → ℓ → Prop}

def run (exec : σ → ℓ → σ) : σ → List ℓ → σ :=
  List.foldl exec

theorem run_append (s : σ) (labels later : List ℓ) :
    run exec s (labels ++ later) = run exec (run exec s labels) later :=
  List.foldl_append

def Along (exec : σ → ℓ → σ) (holds : σ → ℓ → Prop) : σ → List ℓ → Prop
  | _, [] => True
  | s, l :: rest => holds s l ∧ Along exec holds (exec s l) rest

theorem Along.reach {s : σ} {labels : List ℓ} (first : Reach (fun s l s' => s' = exec s l) ok start s)
    (along : Along exec ok s labels) :
    Reach (fun s l s' => s' = exec s l) ok start (run exec s labels) := by
  induction labels generalizing s with
  | nil => exact first
  | cons l rest ih => exact ih (.step first along.1 rfl) along.2

theorem Along.and {other : σ → ℓ → Prop} {s : σ} {labels : List ℓ} (along : Along exec holds s labels)
    (along' : Along exec other s labels) :
    Along exec (fun s l => holds s l ∧ other s l) s labels := by
  induction labels generalizing s with
  | nil => trivial
  | cons l rest ih => exact ⟨⟨along.1, along'.1⟩, ih along.2 along'.2⟩

/-- Two machines that agree on the allowed steps run alike. -/
theorem Along.run_eq {exec' : σ → ℓ → σ} (agree : ∀ s l, ok s l → exec' s l = exec s l) {s : σ} {labels : List ℓ}
    (along : Along exec' ok s labels) : run exec' s labels = run exec s labels := by
  induction labels generalizing s with
  | nil => rfl
  | cons l rest ih =>
      have later := ih along.2
      rw [agree s l along.1] at later
      rw [run, List.foldl_cons, agree s l along.1]
      exact later

/-- Two conditions agree along a run if they agree on the steps that the run allows. -/
theorem Along.congr {other : σ → ℓ → Prop} {s : σ} {labels : List ℓ}
    (agree : ∀ s l, ok s l → (holds s l ↔ other s l)) (along : Along exec ok s labels) :
    Along exec holds s labels ↔ Along exec other s labels := by
  induction labels generalizing s with
  | nil => exact Iff.rfl
  | cons l rest ih => exact and_congr (agree s l along.1) (ih along.2)

variable {ω α : Type*} {output : σ → ℓ → List ω}

/-- What the steps of a list of labels put out, the first step first. -/
def outputs (exec : σ → ℓ → σ) (output : σ → ℓ → List ω) : σ → List ℓ → List ω
  | _, [] => []
  | s, l :: rest => output s l ++ outputs exec output (exec s l) rest

/-- A list to which each step pushes what it puts out. -/
theorem run_pushes (stack : σ → List α) {f : ω → α}
    (pushes : ∀ s l, stack (exec s l) = ((output s l).map f).reverse ++ stack s) (s : σ) (labels : List ℓ) :
    stack (run exec s labels) = ((outputs exec output s labels).map f).reverse ++ stack s := by
  induction labels generalizing s with
  | nil => rfl
  | cons l rest ih =>
      have later := ih (exec s l)
      rw [pushes, ← List.append_assoc, ← List.reverse_append, ← List.map_append] at later
      exact later

end Exec

end Transition
