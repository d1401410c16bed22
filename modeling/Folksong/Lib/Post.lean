import Mathlib.Tactic

/-!
# Postconditions of computations that can exit early

A computation in `Except` ends with a value or with an exit. `Post r P Q` says that the value
satisfies `P`, or that the exit satisfies `Q`. There is one rule for each way to build a
computation.
-/

namespace Except

universe u

variable {ε : Type*} {α β : Type u}

def Post (r : Except ε α) (P : α → Prop) (Q : ε → Prop) : Prop :=
  match r with
  | .ok a => P a
  | .error e => Q e

variable {P : α → Prop} {P' : β → Prop} {Q Q' : ε → Prop}

@[simp] lemma post_ok {a : α} : Post (.ok a) P Q ↔ P a := Iff.rfl

@[simp] lemma post_error {e : ε} : Post (.error e : Except ε α) P Q ↔ Q e := Iff.rfl

lemma Post.bind {r : Except ε α} {f : α → Except ε β} (h : Post r P Q)
    (hf : ∀ a, P a → Post (f a) P' Q) : Post (r >>= f) P' Q := by
  cases r with
  | ok a => exact hf a h
  | error e => exact h

lemma Post.mono {r : Except ε α} {R : α → Prop} (h : Post r P Q) (hP : ∀ a, P a → R a)
    (hQ : ∀ e, Q e → Q' e) : Post r R Q' := by
  cases r with
  | ok a => exact hP a h
  | error e => exact hQ e h

/-- What a computation that ends with a value establishes. -/
lemma Post.of_ok {r : Except ε α} {a : α} (h : Post r P Q) (hr : r = .ok a) : P a := by
  rw [hr] at h
  exact h

lemma map_eq_ok_iff {r : Except ε α} {f : α → β} {b : β} :
    r.map f = .ok b ↔ ∃ a, r = .ok a ∧ f a = b := by
  cases r with
  | ok a => simp [Except.map]
  | error e => simp [Except.map]

lemma bind_eq_ok_iff {r : Except ε α} {f : α → Except ε β} {b : β} :
    r.bind f = .ok b ↔ ∃ a, r = .ok a ∧ f a = .ok b := by
  cases r with
  | ok a => simp [Except.bind]
  | error e => simp [Except.bind]

/-! ### Two computations -/

section

variable {ε' : Type*} {α' β' : Type u}

/-- Two computations end in the same way, with related values or related exits. -/
inductive Both (P : α → α' → Prop) (Q : ε → ε' → Prop) : Except ε α → Except ε' α' → Prop where
  | ok {a a'} : P a a' → Both P Q (.ok a) (.ok a')
  | error {e e'} : Q e e' → Both P Q (.error e) (.error e')

variable {R : α → α' → Prop} {R' : β → β' → Prop} {S S' : ε → ε' → Prop}

lemma Both.bind {r : Except ε α} {r' : Except ε' α'} {f : α → Except ε β}
    {f' : α' → Except ε' β'} (h : Both R S r r')
    (hf : ∀ a a', R a a' → Both R' S (f a) (f' a')) : Both R' S (r >>= f) (r' >>= f') := by
  cases h with
  | ok h => exact hf _ _ h
  | error h => exact .error h

lemma Both.mono {R₁ : α → α' → Prop} {r : Except ε α} {r' : Except ε' α'} (h : Both R S r r')
    (hR : ∀ a a', R a a' → R₁ a a') (hS : ∀ e e', S e e' → S' e e') : Both R₁ S' r r' := by
  cases h with
  | ok h => exact .ok (hR _ _ h)
  | error h => exact .error (hS _ _ h)

/-- The values are those of the computations. -/
lemma Both.with_eq {r : Except ε α} {r' : Except ε' α'} (h : Both R S r r') :
    Both (fun a a' => r = .ok a ∧ r' = .ok a' ∧ R a a') S r r' := by
  cases h with
  | ok h => exact .ok ⟨rfl, rfl, h⟩
  | error h => exact .error h

variable {R₁ : α → α → Prop} {S₁ : ε → ε → Prop}

lemma Both.symm (hR : ∀ a b, R₁ a b → R₁ b a) (hS : ∀ e f, S₁ e f → S₁ f e)
    {r r' : Except ε α} (h : Both R₁ S₁ r r') : Both R₁ S₁ r' r := by
  cases h with
  | ok h => exact .ok (hR _ _ h)
  | error h => exact .error (hS _ _ h)

lemma Both.trans (hR : ∀ a b c, R₁ a b → R₁ b c → R₁ a c)
    (hS : ∀ e f g, S₁ e f → S₁ f g → S₁ e g) {r r' r'' : Except ε α} (h : Both R₁ S₁ r r')
    (h' : Both R₁ S₁ r' r'') : Both R₁ S₁ r r'' := by
  cases h with
  | ok h =>
    cases h' with
    | ok h' => exact .ok (hR _ _ _ h h')
  | error h =>
    cases h' with
    | error h' => exact .error (hS _ _ _ h h')

end

end Except
