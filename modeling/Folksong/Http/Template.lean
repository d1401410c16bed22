import Folksong.Http.Pieces

/-!
# The grammar of templates

`fs_var_parse` checks braces against a flag that a dollar sets and a closing brace clears, and
does not look at the flag when the input ends. The strings it accepts are those without a stray
brace; the templates of the grammar are those of them whose dollars all begin a reference.
-/

namespace Folksong

/-- The bytes of a name. -/
def IsName (name : List UInt8) : Prop :=
  fsChrDOLLAR ∉ name ∧ fsChrLCBRACK ∉ name ∧ fsChrRCBRACK ∉ name

/-- Literal bytes, and references written `${name}`. -/
inductive Template : List UInt8 → Prop where
  | nil : Template []
  | literal {c rest} : c ≠ fsChrDOLLAR → c ≠ fsChrLCBRACK → c ≠ fsChrRCBRACK → Template rest →
      Template (c :: rest)
  | reference {name rest} : IsName name → Template rest →
      Template (fsChrDOLLAR :: fsChrLCBRACK :: (name ++ fsChrRCBRACK :: rest))

/-- Every dollar of the input is that of a reference. -/
def DollarsRefer (input : List UInt8) : Prop :=
  ∀ u v, input = u ++ fsChrDOLLAR :: v →
    ∃ name rest, v = fsChrLCBRACK :: (name ++ fsChrRCBRACK :: rest) ∧ IsName name

/-- There is no dollar behind the last closing brace. -/
def Outside (u : List UInt8) : Prop := fsChrDOLLAR ∉ u.reverse.takeWhile (· ≠ fsChrRCBRACK)

instance (u : List UInt8) : Decidable (Outside u) :=
  inferInstanceAs (Decidable (_ ∉ _))

/-- Some brace stands outside of what a dollar has begun. -/
def StrayBrace (input : List UInt8) : Prop :=
  ∃ u c v, input = u ++ c :: v ∧ (c = fsChrLCBRACK ∨ c = fsChrRCBRACK) ∧ Outside u

/-- The flag behind a byte. -/
def flagAfter (flag : Bool) (c : UInt8) : Bool :=
  if c = fsChrDOLLAR then true else if c = fsChrRCBRACK then false else flag

/-- No brace is met while the flag is down. -/
def Braced : Bool → List UInt8 → Prop
  | _, [] => True
  | flag, c :: rest =>
    (c = fsChrLCBRACK ∨ c = fsChrRCBRACK → flag = true) ∧ Braced (flagAfter flag c) rest

section

variable {size : Nat} {input name rest : List UInt8} {t : VarState}

/-- The flag tells what has been read. -/
lemma outside_iff (u : List UInt8) : Outside u ↔ u.foldl flagAfter false = false := by
  induction u using List.reverseRecOn with
  | nil => simp [Outside]
  | append_singleton u c ih =>
    rw [List.foldl_append, List.foldl_cons, List.foldl_nil, flagAfter, Outside, List.reverse_append,
      List.reverse_singleton, List.singleton_append, List.takeWhile_cons]
    by_cases hclose : c = fsChrRCBRACK
    · subst hclose
      simp
      decide
    · by_cases hdollar : c = fsChrDOLLAR
      · subst hdollar
        simp [hclose]
      · rw [if_pos (by simpa using hclose), if_neg hdollar, if_neg hclose, List.mem_cons, not_or,
          ← ih, Outside]
        exact and_iff_right (Ne.symm hdollar)

lemma braced_iff {flag : Bool} : Braced flag input ↔ ∀ u c v, input = u ++ c :: v →
    c = fsChrLCBRACK ∨ c = fsChrRCBRACK → u.foldl flagAfter flag = true := by
  induction input generalizing flag with
  | nil =>
    apply iff_of_true trivial
    intro u c v heq
    simp at heq
  | cons b rest ih =>
    rw [Braced, ih]
    constructor
    · rintro ⟨hb, hrest⟩ u c v heq hc
      cases u with
      | nil =>
        obtain ⟨rfl, rfl⟩ := List.cons.inj heq
        exact hb hc
      | cons x u =>
        rw [List.cons_append, List.cons.injEq] at heq
        obtain ⟨rfl, heq⟩ := heq
        exact hrest u c v heq hc
    · intro h
      refine ⟨h [] b rest rfl, ?_⟩
      intro u c v heq hc
      exact h (b :: u) c v (by rw [heq, List.cons_append]) hc

lemma strayBrace_iff : StrayBrace input ↔ ¬ Braced false input := by
  rw [braced_iff]
  simp only [StrayBrace, outside_iff]
  push Not
  simp

lemma put_flag (t : VarState) (chr : UInt8) : (t.put size chr).isVariable = t.isVariable := by
  rw [VarState.put]
  split_ifs
  · cases t.pieces.getLast? <;> rfl
  · rfl

/-- What a byte does to the flag. -/
lemma varByte_flag (size : Nat) (t : VarState) (chr : UInt8) :
    match varByte size t chr with
    | none => (chr = fsChrLCBRACK ∨ chr = fsChrRCBRACK) ∧ t.isVariable = false
    | some t' => (chr = fsChrLCBRACK ∨ chr = fsChrRCBRACK → t.isVariable = true) ∧
        t'.isVariable = flagAfter t.isVariable chr := by
  rw [varByte, flagAfter]
  simp only [beq_iff_eq]
  by_cases hdollar : chr = fsChrDOLLAR
  · subst hdollar
    rw [if_pos rfl, if_pos rfl]
    exact ⟨fun h => absurd h (by decide), put_flag _ _⟩
  · rw [if_neg hdollar, if_neg hdollar]
    by_cases hopen : chr = fsChrLCBRACK
    · have hne : fsChrLCBRACK ≠ fsChrRCBRACK := by decide
      subst hopen
      rw [if_pos rfl, if_neg hne]
      split_ifs with hvar
      · exact ⟨fun _ => hvar, put_flag _ _⟩
      · exact ⟨.inl rfl, by simpa using hvar⟩
    · rw [if_neg hopen]
      by_cases hclose : chr = fsChrRCBRACK
      · rw [if_pos hclose, if_pos hclose]
        split_ifs with hvar
        · exact ⟨fun _ => hvar, rfl⟩
        · exact ⟨.inr hclose, by simpa using hvar⟩
      · rw [if_neg hclose, if_neg hclose]
        exact ⟨fun h => absurd h (not_or.mpr ⟨hopen, hclose⟩), put_flag _ _⟩

/-- The parse succeeds when no brace is stray. -/
lemma fsVarParse_ok_iff :
    (fsVarParse size t input).1 = true ↔ Braced t.isVariable input := by
  induction input generalizing t with
  | nil => simp [fsVarParse, Braced]
  | cons chr rest ih =>
    have hflag := varByte_flag size t chr
    rw [fsVarParse, Braced]
    cases hbyte : varByte size t chr with
    | none =>
      simp only [hbyte] at hflag
      apply iff_of_false Bool.false_ne_true
      rintro ⟨h, -⟩
      rw [h hflag.1] at hflag
      exact Bool.false_ne_true hflag.2.symm
    | some t' =>
      simp only [hbyte] at hflag
      rw [← hflag.2, ← ih]
      exact (and_iff_right hflag.1).symm

lemma braced_name (h : IsName name) :
    Braced true (name ++ fsChrRCBRACK :: rest) ↔ Braced false rest := by
  induction name with
  | nil =>
    rw [List.nil_append, Braced]
    exact and_iff_right fun _ => rfl
  | cons c name ih =>
    obtain ⟨h₁, h₂, h₃⟩ := h
    rw [List.mem_cons, not_or] at h₁ h₂ h₃
    have hflag : flagAfter true c = true := by
      rw [flagAfter, if_neg (Ne.symm h₁.1), if_neg (Ne.symm h₃.1)]
    rw [List.cons_append, Braced, hflag, ih ⟨h₁.2, h₂.2, h₃.2⟩]
    exact and_iff_right fun _ => rfl

lemma braced_reference (h : IsName name) :
    Braced false (fsChrDOLLAR :: fsChrLCBRACK :: (name ++ fsChrRCBRACK :: rest))
      ↔ Braced false rest := by
  rw [Braced, Braced]
  have hdollar : flagAfter false fsChrDOLLAR = true := rfl
  have hopen : flagAfter true fsChrLCBRACK = true := rfl
  rw [hdollar, hopen, braced_name h]
  constructor
  · intro h
    exact h.2.2
  · intro h
    exact ⟨by decide, fun _ => rfl, h⟩

lemma dollarsRefer_of_cons {c : UInt8} (h : DollarsRefer (c :: rest)) : DollarsRefer rest := by
  intro u v heq
  exact h (c :: u) v (by rw [heq, List.cons_append])

lemma dollarsRefer_of_append (h : DollarsRefer (name ++ rest)) : DollarsRefer rest := by
  induction name with
  | nil => exact h
  | cons c name ih => exact ih (dollarsRefer_of_cons h)

lemma exists_dollar_behind {u v : List UInt8} (h : fsChrDOLLAR ∉ name)
    (heq : name ++ rest = u ++ fsChrDOLLAR :: v) : ∃ u', rest = u' ++ fsChrDOLLAR :: v := by
  rcases List.append_eq_append_iff.mp heq with ⟨u', rfl, hrest⟩ | ⟨w, rfl, hrest⟩
  · exact ⟨u', hrest⟩
  · cases w with
    | nil => exact ⟨[], hrest.symm⟩
    | cons c w =>
      obtain ⟨rfl, -⟩ := List.cons.inj hrest
      exact absurd (List.mem_append_right _ (List.mem_cons_self ..)) h

lemma dollarsRefer_reference (h : IsName name) (hrest : DollarsRefer rest) :
    DollarsRefer (fsChrDOLLAR :: fsChrLCBRACK :: (name ++ fsChrRCBRACK :: rest)) := by
  intro u v heq
  cases u with
  | nil => exact ⟨name, rest, (List.cons.inj heq).2.symm, h⟩
  | cons c u =>
    have hfree : fsChrDOLLAR ∉ fsChrLCBRACK :: (name ++ [fsChrRCBRACK]) := by
      simpa [h.1] using by decide
    have heq' : (fsChrLCBRACK :: (name ++ [fsChrRCBRACK])) ++ rest = u ++ fsChrDOLLAR :: v := by
      simpa using (List.cons.inj heq).2
    obtain ⟨u', hu'⟩ := exists_dollar_behind hfree heq'
    exact hrest u' v hu'

lemma Template.braced (h : Template input) : Braced false input := by
  induction h with
  | nil => trivial
  | @literal c rest hdollar hopen hclose _ ih =>
    have hflag : flagAfter false c = false := by rw [flagAfter, if_neg hdollar, if_neg hclose]
    rw [Braced, hflag]
    exact ⟨fun h => absurd h (not_or.mpr ⟨hopen, hclose⟩), ih⟩
  | reference hname _ ih => exact (braced_reference hname).mpr ih

lemma Template.dollarsRefer (h : Template input) : DollarsRefer input := by
  induction h with
  | nil =>
    intro u v heq
    simp at heq
  | @literal c rest hdollar _ _ _ ih =>
    intro u v heq
    cases u with
    | nil => exact absurd (List.cons.inj heq).1 hdollar
    | cons x u => exact ih u v (List.cons.inj heq).2
  | reference hname _ ih => exact dollarsRefer_reference hname ih

/-- What is read off the front of an input. -/
lemma template_of_braced (hbraced : Braced false input) (hrefer : DollarsRefer input) :
    Template input := by
  induction hn : input.length using Nat.strong_induction_on generalizing input with
  | _ n ih =>
    cases input with
    | nil => exact .nil
    | cons c rest =>
      by_cases hdollar : c = fsChrDOLLAR
      · subst hdollar
        obtain ⟨name, rest, rfl, hname⟩ := hrefer [] rest rfl
        refine .reference hname (ih rest.length ?_ ((braced_reference hname).mp hbraced) ?_ rfl)
        · rw [← hn]
          simp
          omega
        · have hsuffix : (fsChrDOLLAR :: fsChrLCBRACK :: (name ++ [fsChrRCBRACK])) ++ rest
              = fsChrDOLLAR :: fsChrLCBRACK :: (name ++ fsChrRCBRACK :: rest) := by
            simp
          rw [← hsuffix] at hrefer
          exact dollarsRefer_of_append hrefer
      · rw [Braced] at hbraced
        have hopen : c ≠ fsChrLCBRACK := fun heq => Bool.false_ne_true (hbraced.1 (.inl heq))
        have hclose : c ≠ fsChrRCBRACK := fun heq => Bool.false_ne_true (hbraced.1 (.inr heq))
        have hflag : flagAfter false c = false := by rw [flagAfter, if_neg hdollar, if_neg hclose]
        rw [hflag] at hbraced
        refine .literal hdollar hopen hclose (ih rest.length ?_ hbraced.2 ?_ rfl)
        · rw [← hn]
          exact Nat.lt_succ_self _
        · exact dollarsRefer_of_cons hrefer

/-- The grammar, by what can be wrong with an input. -/
lemma template_iff : Template input ↔ ¬ StrayBrace input ∧ DollarsRefer input := by
  rw [strayBrace_iff, not_not]
  constructor
  · intro h
    exact ⟨h.braced, h.dollarsRefer⟩
  · rintro ⟨hbraced, hrefer⟩
    exact template_of_braced hbraced hrefer

/-- How the parse of an input ends on an array that holds pieces already. -/
lemma fsVarParseArr_cases {arr : FsArr Piece} {ps : List Piece} (h : arr.contents = ps.map some)
    (input : List UInt8) :
    (¬ StrayBrace input ∧ ∃ arr', fsVarParseArr arr input = .ok arr') ∨
      (StrayBrace input ∧ ∃ arr', fsVarParseArr arr input = .error arr') := by
  obtain ⟨arr', -, heq⟩ := fsVarParseArr_eq h input
  rw [heq, strayBrace_iff, not_not]
  by_cases hbraced : Braced false input
  · rw [if_pos (fsVarParse_ok_iff.mpr hbraced)]
    exact .inl ⟨hbraced, arr', rfl⟩
  · rw [if_neg fun hok => hbraced (fsVarParse_ok_iff.mp hok)]
    exact .inr ⟨hbraced, arr', rfl⟩

end

/-- The strings of the grammar are accepted, and every other one gives `FS_VAR_ERROR`. -/
def Recognises (arr : FsArr Piece) (input : List UInt8) : Prop :=
  ((∃ arr', fsVarParseArr arr input = .ok arr') ↔ Template input) ∧
    (¬ Template input → ∃ arr', fsVarParseArr arr input = .error arr')

/-- The parse decides the grammar on the inputs with a stray brace, which it rejects, and on those
whose dollars all begin a reference. -/
theorem recognises_iff {arr : FsArr Piece} {ps : List Piece} (h : arr.contents = ps.map some)
    (input : List UInt8) :
    Recognises arr input ↔ StrayBrace input ∨ DollarsRefer input := by
  rw [Recognises, template_iff]
  rcases fsVarParseArr_cases h input with ⟨hstray, arr', heq⟩ | ⟨hstray, arr', heq⟩
  · simp [heq, hstray]
  · simp [heq, hstray]

/-- A reference between two literals. -/
theorem recognises_iff_sample :
    Recognises (fsAllocArr Piece 2 Nat.two_pos) (bytes "/a${b}c") ↔
      StrayBrace (bytes "/a${b}c") ∨ DollarsRefer (bytes "/a${b}c") :=
  recognises_iff (show (fsAllocArr Piece 2 Nat.two_pos).contents = [].map some from rfl) _

/-- A dollar that begins no reference is accepted. -/
theorem not_recognises : ¬ Recognises (fsAllocArr Piece 2 Nat.two_pos) (bytes "$a") := by
  rintro ⟨hok, -⟩
  have htemplate : Template (bytes "$a") := hok.mp ⟨_, rfl⟩
  obtain ⟨name, rest, heq, -⟩ := htemplate.dollarsRefer [] (bytes "a") rfl
  have hhead : (97 : UInt8) = fsChrLCBRACK := (List.cons.inj heq).1
  exact absurd hhead (by decide)

end Folksong
