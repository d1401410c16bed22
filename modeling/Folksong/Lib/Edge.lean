import Folksong.Lib.Transition

/-!
# Queues that signal when they stop being empty

Elements are put into a queue at any time, and one that is put into an empty queue sends a signal.
The consumer sleeps until there is a signal, of which it takes one. It then takes elements one after
the other, until the queue is empty or an element makes it stop.
-/

namespace Edge

open Transition

variable {α : Type*}

structure State (α : Type*) where
  queue : List α
  signals : Nat
  awake : Bool
  taken : List α

inductive Label (α : Type*) where
  | put (a : α)
  | wake
  | take

/-- The element that is put. -/
def Label.elem : Label α → Option α
  | .put a => some a
  | _ => none

/-- The elements that have been put. -/
def puts (ls : List (Label α)) : List α := ls.filterMap Label.elem

def State.put (s : State α) (a : α) : State α :=
  { s with
    queue := s.queue ++ [a]
    signals := if s.queue.isEmpty then s.signals + 1 else s.signals }

/-- The consumer goes on behind the elements of `goesOn`. -/
def step (goesOn : α → Bool) (s : State α) : Label α → Option (State α)
  | .put a => some (s.put a)
  | .wake =>
    if s.awake = false ∧ 0 < s.signals then
      some { s with awake := true, signals := s.signals - 1 }
    else none
  | .take =>
    if s.awake then
      match s.queue with
      | [] => some { s with awake := false }
      | a :: queue =>
        some { s with queue := queue, awake := goesOn a, taken := s.taken ++ [a] }
    else none

/-- Nothing has happened, but the queue may hold elements already. -/
def start (queue : List α) : State α := ⟨queue, 0, false, []⟩

/-- A consumer that sleeps over elements will be woken. -/
def State.Alert (s : State α) : Prop := s.awake = false → s.queue ≠ [] → 0 < s.signals

/-- The next element stops the consumer before the queue is empty, and no signal is left. -/
structure Forsakes (goesOn : α → Bool) (s : State α) : Prop where
  awake : s.awake = true
  signals : s.signals = 0
  stops : ∃ a queue, s.queue = a :: queue ∧ goesOn a = false ∧ queue ≠ []

/-- The step does not leave elements behind. -/
def Minds (goesOn : α → Bool) (s : State α) : Label α → Prop
  | .take => ¬ Forsakes goesOn s
  | _ => True

section

variable {goesOn : α → Bool} {s s' : State α} {l : Label α} {ls : List (Label α)}

/-! ### Nothing is lost -/

lemma step_elems (h : Step (step goesOn) s l s') :
    s'.taken ++ s'.queue = s.taken ++ s.queue ++ puts [l] := by
  rw [Step] at h
  cases l with
  | put a =>
    cases h
    simp [State.put, puts, Label.elem]
  | wake =>
    rw [step] at h
    split_ifs at h
    cases h
    simp [puts, Label.elem]
  | take =>
    rw [step] at h
    split_ifs at h
    cases hq : s.queue with
    | nil =>
      rw [hq] at h
      cases h
      simp [puts, Label.elem]
    | cons a queue =>
      rw [hq] at h
      cases h
      simp [puts, Label.elem]

/-- What has been put is taken once, in order, or still in the queue. -/
lemma run_elems (h : Run (Step (step goesOn)) s ls s') :
    s'.taken ++ s'.queue = s.taken ++ s.queue ++ puts ls := by
  induction h with
  | nil => simp [puts]
  | snoc _ hl ih =>
    rw [step_elems hl, ih]
    simp [puts]

/-! ### Signals -/

lemma alert_start : (start ([] : List α)).Alert := fun _ h => absurd rfl h

/-- A step leaves the consumer alert, unless it leaves elements behind. -/
lemma Alert.step (hs : s.Alert) (hminds : Minds goesOn s l) (h : Step (step goesOn) s l s') :
    s'.Alert := by
  rw [Step] at h
  cases l with
  | put a =>
    cases h
    intro hawake _
    by_cases hq : s.queue = []
    · simp [State.put, hq]
    · simpa [State.put, hq] using hs hawake hq
  | wake =>
    rw [Edge.step] at h
    split_ifs at h
    cases h
    exact fun hawake => absurd hawake Bool.noConfusion
  | take =>
    rw [Edge.step] at h
    split_ifs at h with hawake
    cases hq : s.queue with
    | nil =>
      rw [hq] at h
      cases h
      exact fun _ hne => absurd rfl hne
    | cons a queue =>
      rw [hq] at h
      cases h
      intro hstops hne
      by_contra hsignals
      exact hminds ⟨hawake, Nat.eq_zero_of_not_pos hsignals, a, queue, hq, hstops, hne⟩

/-- A consumer that is not alert is not woken again, whatever is put. -/
lemma stuck_step (hs : ¬ s.Alert) (h : Step (step goesOn) s l s') :
    ¬ s'.Alert ∧ s'.taken = s.taken := by
  simp only [State.Alert, Classical.not_imp, Nat.not_lt, Nat.le_zero] at hs
  obtain ⟨hawake, hne, hsignals⟩ := hs
  rw [Step] at h
  cases l with
  | put a =>
    cases h
    refine ⟨fun halert => ?_, rfl⟩
    have hpos := halert hawake (List.append_ne_nil_of_left_ne_nil hne _)
    simp [State.put, hne, hsignals] at hpos
  | wake =>
    rw [step, if_neg (by simp [hsignals])] at h
    cases h
  | take =>
    rw [step, if_neg (by simp [hawake])] at h
    cases h

lemma stuck_of_run (h : Run (Step (step goesOn)) s ls s') (hs : ¬ s.Alert) :
    ¬ s'.Alert ∧ s'.taken = s.taken := by
  induction h with
  | nil => exact ⟨hs, rfl⟩
  | snoc _ hl ih =>
    obtain ⟨hs', htaken⟩ := ih
    obtain ⟨hs'', htaken'⟩ := stuck_step hs' hl
    exact ⟨hs'', htaken'.trans htaken⟩

variable (goesOn) in
/-- A consumer is not alert when elements are left that no run takes any more. -/
lemma not_alert_iff :
    ¬ s.Alert ↔ s.queue ≠ [] ∧
      ∀ ls s', Run (Step (step goesOn)) s ls s' → s'.taken = s.taken := by
  constructor
  · intro hs
    refine ⟨fun hnil => hs fun _ hne => absurd hnil hne, fun ls s' h => ?_⟩
    exact (stuck_of_run h hs).2
  · rintro ⟨hne, hnone⟩ halert
    obtain ⟨a, queue, hq⟩ := List.exists_cons_of_ne_nil hne
    have htake : ∀ s₁ : State α, s₁.awake = true → s₁.queue = s.queue → s₁.taken = s.taken →
        ∃ s₂, Step (step goesOn) s₁ .take s₂ ∧ s₂.taken = s.taken ++ [a] := by
      intro s₁ hawake hqueue htaken
      refine ⟨_, by rw [Step, step, if_pos hawake, hqueue, hq], ?_⟩
      simp only [htaken]
    cases hawake : s.awake with
    | true =>
      obtain ⟨s₂, h₂, htaken⟩ := htake s hawake rfl rfl
      simpa [htaken] using hnone _ _ (.one h₂)
    | false =>
      have hwake : Step (step goesOn) s .wake { s with awake := true, signals := s.signals - 1 } :=
        if_pos ⟨hawake, halert hawake hne⟩
      obtain ⟨s₂, h₂, htaken⟩ :=
        htake { s with awake := true, signals := s.signals - 1 } rfl rfl rfl
      simpa [htaken] using hnone _ _ ((Run.one hwake).snoc h₂)

/-- Leaving elements behind without a signal puts the consumer to sleep for good. -/
lemma Forsakes.step (hs : Forsakes goesOn s) (h : Step (step goesOn) s .take s') :
    ¬ s'.Alert := by
  obtain ⟨hawake, hsignals, a, queue, hq, hstops, hne⟩ := hs
  rw [Step, Edge.step, if_pos hawake, hq] at h
  cases h
  intro halert
  exact absurd (halert hstops hne) (by simp [hsignals])

/-- The consumer sleeps over elements for good exactly when it has once left some behind while no
signal was left. -/
lemma stuck_iff (h : Run (Step (step goesOn)) s ls s') (hs : s.Alert) :
    ¬ s'.Alert ↔ ∃ ls₁ ls₂ s₁, ls = ls₁ ++ .take :: ls₂ ∧ Run (Step (step goesOn)) s ls₁ s₁ ∧
      Forsakes goesOn s₁ := by
  constructor
  · induction h with
    | nil => exact fun hstuck => absurd hs hstuck
    | @snoc s₁ s₂ ls l hrun hl ih =>
      intro hstuck
      by_cases halert : s₁.Alert
      · have hminds : ¬ Minds goesOn s₁ l := fun hminds => hstuck (Alert.step halert hminds hl)
        cases l with
        | take => exact ⟨ls, [], s₁, rfl, hrun, not_not.mp hminds⟩
        | put | wake => exact absurd trivial hminds
      · obtain ⟨ls₁, ls₂, s₀, rfl, hrun₁, hforsakes⟩ := ih halert
        exact ⟨ls₁, ls₂ ++ [l], s₀, by simp, hrun₁, hforsakes⟩
  · rintro ⟨ls₁, ls₂, s₁, rfl, hrun₁, hforsakes⟩
    obtain ⟨s₂, hrun₂, hrest⟩ := run_append_iff.mp h
    obtain rfl := hrun₁.deterministic hrun₂
    obtain ⟨s₃, htake, hrest⟩ := run_append_iff.mp (show Run _ s₁ ([.take] ++ ls₂) s' from hrest)
    refine (stuck_of_run hrest (hforsakes.step ?_)).1
    rw [run_step_iff, exec] at htake
    obtain ⟨s₄, hstep, hend⟩ := Option.bind_eq_some_iff.mp htake
    rw [exec, Option.some.injEq] at hend
    exact hend ▸ hstep

/-! ### Progress -/

/-- The steps the consumer can take before it must wait. -/
def State.work (s : State α) : Nat := s.queue.length + 2 * s.signals + s.awake.toNat

lemma work_lt (hl : l.elem = none) (h : Step (step goesOn) s l s') : s'.work < s.work := by
  rw [Step] at h
  cases l with
  | put => cases hl
  | wake =>
    rw [step] at h
    split_ifs at h with hwake
    cases h
    simp only [State.work, hwake.1, Bool.toNat_true, Bool.toNat_false]
    omega
  | take =>
    rw [step] at h
    split_ifs at h with hawake
    cases hq : s.queue with
    | nil =>
      rw [hq] at h
      cases h
      simp [State.work, hawake, hq]
    | cons a queue =>
      rw [hq] at h
      cases h
      have hle := Bool.toNat_le (goesOn a)
      simp only [State.work, hawake, hq, List.length_cons, Bool.toNat_true]
      omega

/-- While nothing is put, the consumer comes to rest. -/
lemma length_le_work (h : Run (Step (step goesOn)) s ls s') (hputs : puts ls = []) :
    ls.length + s'.work ≤ s.work := by
  induction h with
  | nil => simp
  | @snoc _ _ ls l _ hl ih =>
    have hsplit : puts ls = [] ∧ l.elem = none := by
      simpa [puts, List.filterMap_append] using hputs
    have hlt := work_lt hsplit.2 hl
    have hle := ih hsplit.1
    rw [List.length_append, List.length_singleton]
    omega

/-- The consumer waits for a signal. -/
def State.Rests (goesOn : α → Bool) (s : State α) : Prop :=
  step goesOn s .wake = none ∧ step goesOn s .take = none

lemma rests_iff : s.Rests goesOn ↔ s.awake = false ∧ s.signals = 0 := by
  rw [State.Rests, step, step]
  cases s.awake with
  | false => simp
  | true => cases s.queue <;> simp

/-- An alert consumer rests only when the queue is empty. -/
lemma Alert.queue_eq_nil (hs : s.Alert) (hrests : s.Rests goesOn) : s.queue = [] := by
  obtain ⟨hawake, hsignals⟩ := rests_iff.mp hrests
  by_contra hne
  exact absurd (hs hawake hne) (by simp [hsignals])

end

/-! ### The consumer by itself -/

/-- What an awake consumer takes when nothing is put meanwhile, and what it leaves. -/
def drain (goesOn : α → Bool) : List α → List α × List α
  | [] => ([], [])
  | a :: queue =>
    if goesOn a then (a :: (drain goesOn queue).1, (drain goesOn queue).2) else ([a], queue)

lemma exists_drain (goesOn : α → Bool) (queue : List α) :
    ∀ taken signals, ∃ n, exec (step goesOn) ⟨queue, signals, true, taken⟩
      (List.replicate n .take)
        = some ⟨(drain goesOn queue).2, signals, false, taken ++ (drain goesOn queue).1⟩ := by
  induction queue with
  | nil => exact fun taken signals => ⟨1, by simp [exec, step, drain]⟩
  | cons a queue ih =>
    intro taken signals
    cases hgoes : goesOn a with
    | true =>
      obtain ⟨n, hn⟩ := ih (taken ++ [a]) signals
      refine ⟨n + 1, ?_⟩
      rw [List.replicate_succ, exec, step]
      simp [hgoes, drain, hn]
    | false => exact ⟨1, by simp [exec, step, drain, hgoes]⟩

end Edge
