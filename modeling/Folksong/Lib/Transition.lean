import Mathlib.Logic.Relation
import Mathlib.Tactic

/-!
# Runs of a labelled transition relation

A run is a finite sequence of steps. What each step preserves holds in every state a run
reaches; a step relation can be restricted by a guard on the state before the step and on its
label.
-/

namespace Transition

variable {σ ℓ : Type*}

/-- `Run step s ls s'`: steps with the labels `ls`, in this order, lead from `s` to `s'`. -/
inductive Run (step : σ → ℓ → σ → Prop) : σ → List ℓ → σ → Prop where
  | nil {s} : Run step s [] s
  | snoc {s s' s'' ls l} : Run step s ls s' → step s' l s'' → Run step s (ls ++ [l]) s''

/-- The steps that are taken where the guard holds. -/
def Guarded (guard : σ → ℓ → Prop) (step : σ → ℓ → σ → Prop) (s : σ) (l : ℓ) (s' : σ) : Prop :=
  guard s l ∧ step s l s'

variable {step : σ → ℓ → σ → Prop} {guard : σ → ℓ → Prop}

lemma Run.one {s s' : σ} {l : ℓ} (h : step s l s') : Run step s [l] s' :=
  .snoc .nil h

lemma Run.append {s s' s'' : σ} {ls ls' : List ℓ} (h : Run step s ls s')
    (h' : Run step s' ls' s'') : Run step s (ls ++ ls') s'' := by
  induction h' with
  | nil => simpa using h
  | snoc _ hl ih =>
    rw [← List.append_assoc]
    exact .snoc ih hl

lemma Run.cons {s s' s'' : σ} {l : ℓ} {ls : List ℓ} (h : step s l s')
    (h' : Run step s' ls s'') : Run step s (l :: ls) s'' :=
  (Run.one h).append h'

/-- A run can be cut anywhere. -/
lemma run_append_iff {s s'' : σ} {ls ls' : List ℓ} :
    Run step s (ls ++ ls') s'' ↔ ∃ s', Run step s ls s' ∧ Run step s' ls' s'' := by
  constructor
  · intro h
    generalize heq : ls ++ ls' = ls₀ at h
    induction h generalizing ls' with
    | nil =>
      obtain ⟨rfl, rfl⟩ := List.append_eq_nil_iff.mp heq
      exact ⟨_, .nil, .nil⟩
    | @snoc _ _ _ l h hl ih =>
      rcases List.eq_nil_or_concat ls' with rfl | ⟨ls', l', rfl⟩
      · rw [List.append_nil] at heq
        exact ⟨_, heq ▸ h.snoc hl, .nil⟩
      · rw [List.concat_eq_append, ← List.append_assoc] at heq
        obtain ⟨hinit, hlast⟩ := List.append_inj' heq rfl
        obtain rfl := List.singleton_inj.mp hlast
        obtain ⟨s', h₁, h₂⟩ := ih hinit
        exact ⟨s', h₁, by simpa using h₂.snoc hl⟩
  · rintro ⟨s', h, h'⟩
    exact h.append h'

lemma run_nil_iff {s s' : σ} : Run step s [] s' ↔ s = s' := by
  constructor
  · intro h
    generalize heq : ([] : List ℓ) = ls at h
    cases h with
    | nil => rfl
    | snoc => exact absurd heq (by simp)
  · rintro rfl
    exact .nil

lemma run_one_iff {s s' : σ} {l : ℓ} : Run step s [l] s' ↔ step s l s' := by
  refine ⟨fun h => ?_, Run.one⟩
  generalize heq : [l] = ls at h
  cases h with
  | nil => cases heq
  | snoc h hl =>
    obtain ⟨rfl, hlast⟩ :=
      (List.append_eq_singleton_iff.mp heq.symm).resolve_right (by simp)
    obtain rfl := List.singleton_inj.mp hlast
    exact run_nil_iff.mp h ▸ hl

lemma run_cons_iff {s s'' : σ} {l : ℓ} {ls : List ℓ} :
    Run step s (l :: ls) s'' ↔ ∃ s', step s l s' ∧ Run step s' ls s'' := by
  have happend : Run step s ([l] ++ ls) s'' ↔ ∃ s', Run step s [l] s' ∧ Run step s' ls s'' :=
    run_append_iff
  simp only [run_one_iff] at happend
  exact happend

lemma Run.mono {step' : σ → ℓ → σ → Prop} (hmono : ∀ s l s', step s l s' → step' s l s')
    {s s' : σ} {ls : List ℓ} (h : Run step s ls s') : Run step' s ls s' := by
  induction h with
  | nil => exact .nil
  | snoc _ hl ih => exact .snoc ih (hmono _ _ _ hl)

/-- A guarded run is a run. -/
lemma Run.unguarded {s s' : σ} {ls : List ℓ} (h : Run (Guarded guard step) s ls s') :
    Run step s ls s' :=
  h.mono fun _ _ _ hl => hl.2

/-- A run is guarded when its labels are allowed in any state. -/
lemma Run.guarded {s s' : σ} {ls : List ℓ} (h : Run step s ls s')
    (hguard : ∀ l ∈ ls, ∀ s, guard s l) : Run (Guarded guard step) s ls s' := by
  induction h with
  | nil => exact .nil
  | snoc _ hl ih =>
    have hlast := hguard _ (List.mem_append_right _ (List.mem_singleton_self _))
    exact .snoc (ih fun l hl => hguard l (List.mem_append_left _ hl)) ⟨hlast _, hl⟩

/-- What every step preserves holds at the end of a run. -/
lemma Run.invariant {I : σ → Prop} (hstep : ∀ s l s', I s → step s l s' → I s') {s s' : σ}
    {ls : List ℓ} (h : Run step s ls s') (hs : I s) : I s' := by
  induction h with
  | nil => exact hs
  | snoc _ hl ih => exact hstep _ _ _ ih hl

/-- The same for a guarded run, where a step may use its guard. -/
lemma Run.invariant_guarded {I : σ → Prop}
    (hstep : ∀ s l s', I s → guard s l → step s l s' → I s') {s s' : σ} {ls : List ℓ}
    (h : Run (Guarded guard step) s ls s') (hs : I s) : I s' :=
  h.invariant (fun s l s' hI hl => hstep s l s' hI hl.1 hl.2) hs

/-! ### Functions as step relations -/

/-- The step relation of a partial function of the state and a label. -/
def Step (f : σ → ℓ → Option σ) (s : σ) (l : ℓ) (s' : σ) : Prop := f s l = some s'

/-- Apply a partial function along a list of labels. -/
def exec (f : σ → ℓ → Option σ) : σ → List ℓ → Option σ
  | s, [] => some s
  | s, l :: ls => (f s l).bind fun s' => exec f s' ls

lemma exec_append (f : σ → ℓ → Option σ) (s : σ) (ls ls' : List ℓ) :
    exec f s (ls ++ ls') = (exec f s ls).bind fun s' => exec f s' ls' := by
  induction ls generalizing s with
  | nil => rfl
  | cons l ls ih =>
    cases h : f s l with
    | none => simp [exec, h]
    | some s' => simp [exec, h, ih]

/-- The runs of a partial function are its executions. -/
lemma run_step_iff {f : σ → ℓ → Option σ} {s s' : σ} {ls : List ℓ} :
    Run (Step f) s ls s' ↔ exec f s ls = some s' := by
  constructor
  · intro h
    induction h with
    | nil => rfl
    | snoc _ hl ih =>
      rw [Step] at hl
      simp [exec_append, ih, exec, hl]
  · intro h
    induction ls generalizing s with
    | nil =>
      rw [exec, Option.some.injEq] at h
      exact h ▸ .nil
    | cons l ls ih =>
      obtain ⟨s₁, h₁, h⟩ := Option.bind_eq_some_iff.mp h
      exact .cons h₁ (ih h)

/-- A guarded run of a partial function, found by executing it. -/
lemma guarded_of_exec {f : σ → ℓ → Option σ} [∀ s l, Decidable (guard s l)] {s s' : σ}
    {ls : List ℓ} (h : exec (fun s l => if guard s l then f s l else none) s ls = some s') :
    Run (Guarded guard (Step f)) s ls s' := by
  refine (run_step_iff.mpr h).mono fun s l s' hl => ?_
  rwa [Step, Option.ite_none_right_eq_some] at hl

/-- A partial function leaves no choice. -/
lemma Run.deterministic {f : σ → ℓ → Option σ} {s s' s'' : σ} {ls : List ℓ}
    (h : Run (Step f) s ls s') (h' : Run (Step f) s ls s'') : s' = s'' := by
  rw [run_step_iff] at h h'
  exact Option.some.inj (h.symm.trans h')

/-- The step relation of a system that finds its next label by itself. -/
def Next (next : σ → Option (ℓ × σ)) (s : σ) (l : ℓ) (s' : σ) : Prop := next s = some (l, s')

/-- Take `n` steps, each where the guard holds. -/
def follow (next : σ → Option (ℓ × σ)) (guard : σ → ℓ → Prop) [∀ s l, Decidable (guard s l)] :
    Nat → σ → Option σ
  | 0, s => some s
  | n + 1, s => (next s).bind fun r => if guard s r.1 then follow next guard n r.2 else none

/-- What `follow` finds is the end of a guarded run. -/
lemma run_of_follow {next : σ → Option (ℓ × σ)} [∀ s l, Decidable (guard s l)] {n : Nat}
    {s s' : σ} (h : follow next guard n s = some s') :
    ∃ ls, Run (Guarded guard (Next next)) s ls s' := by
  induction n generalizing s with
  | zero =>
    rw [follow, Option.some.injEq] at h
    exact ⟨[], h ▸ .nil⟩
  | succ n ih =>
    rw [follow, Option.bind_eq_some_iff] at h
    obtain ⟨⟨l, s₁⟩, hnext, h⟩ := h
    by_cases hg : guard s l
    · rw [if_pos hg] at h
      obtain ⟨ls, hrun⟩ := ih h
      exact ⟨l :: ls, .cons ⟨hg, hnext⟩ hrun⟩
    · rw [if_neg hg] at h
      cases h

/-- A state found by `follow` that satisfies a test is the end of a guarded run. -/
lemma exists_run_of_follow {next : σ → Option (ℓ × σ)} [∀ s l, Decidable (guard s l)] {n : Nat}
    {s : σ} {test : σ → Bool} (h : (follow next guard n s).any test) :
    ∃ ls s', Run (Guarded guard (Next next)) s ls s' ∧ test s' := by
  cases hf : follow next guard n s with
  | none =>
    rw [hf] at h
    cases h
  | some s' =>
    rw [hf] at h
    obtain ⟨ls, hrun⟩ := run_of_follow hf
    exact ⟨ls, s', hrun, h⟩

end Transition
