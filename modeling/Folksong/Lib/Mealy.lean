import Mathlib.Tactic

/-!
# Transducers over lists

A transducer reads one input at a time and emits a list of outputs at each step. Runs compose
along concatenation of the inputs, which is how a long input is read segment by segment.

An output list of words and terminators is cut into records: the words since the last
terminator, together with that terminator.
-/

namespace Mealy

variable {σ α β : Type*}

/-- Run a transducer over a list of inputs, collecting what it emits. -/
def run (step : σ → α → σ × List β) : σ → List α → σ × List β
  | s, [] => (s, [])
  | s, a :: as => ((run step (step s a).1 as).1, (step s a).2 ++ (run step (step s a).1 as).2)

variable (step : σ → α → σ × List β)

@[simp] lemma run_nil (s : σ) : run step s [] = (s, []) := rfl

lemma run_cons (s : σ) (a : α) (as : List α) :
    run step s (a :: as)
      = ((run step (step s a).1 as).1, (step s a).2 ++ (run step (step s a).1 as).2) := rfl

/-- A run over a concatenation is the run over the second part from where the first one ended. -/
lemma run_append (s : σ) (as bs : List α) :
    run step s (as ++ bs)
      = ((run step (run step s as).1 bs).1,
          (run step s as).2 ++ (run step (run step s as).1 bs).2) := by
  induction as generalizing s with
  | nil => simp
  | cons a as ih =>
    rw [List.cons_append, run_cons, ih, run_cons]
    simp

/-- `Reads step s as s' bs`: from `s`, the input `as` leads to `s'` and emits `bs`. -/
def Reads (s : σ) (as : List α) (s' : σ) (bs : List β) : Prop :=
  run step s as = (s', bs)

variable {step}

lemma Reads.nil (s : σ) : Reads step s [] s [] := rfl

lemma Reads.one {s : σ} {a : α} {s' : σ} {bs : List β} (h : step s a = (s', bs)) :
    Reads step s [a] s' bs := by
  simp [Reads, run_cons, h]

lemma Reads.append {s s' s'' : σ} {as as' : List α} {bs bs' : List β}
    (h : Reads step s as s' bs) (h' : Reads step s' as' s'' bs') :
    Reads step s (as ++ as') s'' (bs ++ bs') := by
  simp only [Reads] at h h' ⊢
  rw [run_append, h, h']

lemma Reads.cons {s s' s'' : σ} {a : α} {as : List α} {bs bs' : List β}
    (h : step s a = (s', bs)) (h' : Reads step s' as s'' bs') :
    Reads step s (a :: as) s'' (bs ++ bs') :=
  (Reads.one h).append h'

lemma reads_cons_iff {s s' : σ} {a : α} {as : List α} {bs : List β} :
    Reads step s (a :: as) s' bs
      ↔ ∃ bs', bs = (step s a).2 ++ bs' ∧ Reads step (step s a).1 as s' bs' := by
  simp only [Reads, run_cons, Prod.ext_iff]
  constructor
  · rintro ⟨rfl, rfl⟩
    exact ⟨_, rfl, rfl, rfl⟩
  · rintro ⟨bs', rfl, rfl, rfl⟩
    exact ⟨rfl, rfl⟩

end Mealy

namespace Records

variable {ω τ : Type*}

/-- Cut a list of words and terminators into records. The words after the last terminator are
left over; `acc` holds the words already read of the first record. -/
def cut : List ω → List (ω ⊕ τ) → List (List ω × τ) × List ω
  | acc, [] => ([], acc)
  | acc, .inl w :: es => cut (acc ++ [w]) es
  | acc, .inr t :: es => ((acc, t) :: (cut [] es).1, (cut [] es).2)

@[simp] lemma cut_nil (acc : List ω) : cut acc ([] : List (ω ⊕ τ)) = ([], acc) := rfl

@[simp] lemma cut_inl (acc : List ω) (w : ω) (es : List (ω ⊕ τ)) :
    cut acc (.inl w :: es) = cut (acc ++ [w]) es := rfl

@[simp] lemma cut_inr (acc : List ω) (t : τ) (es : List (ω ⊕ τ)) :
    cut acc (.inr t :: es) = ((acc, t) :: (cut [] es).1, (cut [] es).2) := rfl

lemma cut_append (acc : List ω) (es fs : List (ω ⊕ τ)) :
    cut acc (es ++ fs)
      = ((cut acc es).1 ++ (cut (cut acc es).2 fs).1, (cut (cut acc es).2 fs).2) := by
  induction es generalizing acc with
  | nil => simp
  | cons e es ih =>
    cases e with
    | inl w => simp [ih]
    | inr t => simp [ih]

/-- The words of one record followed by its terminator. -/
lemma cut_map_inl (acc ws : List ω) (es : List (ω ⊕ τ)) :
    cut acc (ws.map .inl ++ es) = cut (acc ++ ws) es := by
  induction ws generalizing acc with
  | nil => simp
  | cons w ws ih => simp [ih]

/-- The terminators of the records are those read. -/
lemma cut_map_snd (acc : List ω) (es : List (ω ⊕ τ)) :
    (cut acc es).1.map Prod.snd = es.filterMap Sum.getRight? := by
  induction es generalizing acc with
  | nil => rfl
  | cons e es ih =>
    cases e with
    | inl w => simp [ih, List.filterMap_cons]
    | inr t => simp [ih]

/-- The words of the records and the words left over are the words read. -/
lemma mem_cut {es : List (ω ⊕ τ)} {acc : List ω} {w : ω} :
    ((∃ r ∈ (cut acc es).1, w ∈ r.1) ∨ w ∈ (cut acc es).2) ↔ w ∈ acc ∨ .inl w ∈ es := by
  induction es generalizing acc with
  | nil => simp
  | cons e es ih =>
    cases e with
    | inl v =>
      rw [cut_inl, ih]
      simp [or_assoc]
    | inr t =>
      have := @ih []
      simp only [List.not_mem_nil, false_or] at this
      rw [cut_inr, List.exists_mem_cons_iff, or_assoc, this]
      simp

end Records
