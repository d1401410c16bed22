import Folksong.Lib.Mealy
import Folksong.Conf.Token

/-!
# The language of the scanner

The flags of `fs_conf_next_token` take only a few of their combinations. `LexState` names these:
a mode, an escape that is still open, and a dollar sign that makes the next brace harmless. As
a transducer it reads a whole text at once and emits the words and the ends of directives, each
word with the place where it was opened and the bytes it is written with.
-/

namespace Folksong

inductive Quote where
  | double | single
deriving DecidableEq, Repr

def Quote.byte : Quote → UInt8
  | .double => fsChrDQUO
  | .single => fsChrSQUO

/-- Where the scanner stands between two bytes; `closed` is right behind a closing quote. -/
inductive Mode where
  | gap | comment | word | quote (q : Quote) | closed
deriving DecidableEq, Repr

structure LexState where
  mode : Mode
  escaped : Bool
  dollar : Bool
  pos : Nat
  opened : Nat
  raw : List UInt8
deriving DecidableEq, Repr

/-- A word of the text: the position of the byte that opened it, the position of its first
written byte, and its written bytes without opening quote or backslash. -/
structure Word where
  opened : Nat
  start : Nat
  raw : List UInt8
deriving DecidableEq, Repr

/-- The position of the byte that ends a word. -/
def Word.stop (w : Word) : Nat := w.start + w.raw.length

abbrev LexEvent := Word ⊕ Status

namespace LexState

/-- The state at position `pos` between two directives. -/
def fresh (pos : Nat) : LexState := ⟨.gap, false, false, pos, 0, []⟩

def skip (s : LexState) (m : Mode) : LexState := { s with mode := m, pos := s.pos + 1 }

def opens (s : LexState) (m : Mode) (escaped dollar : Bool) (raw : List UInt8) : LexState :=
  ⟨m, escaped, dollar, s.pos + 1, s.pos, raw⟩

def grow (s : LexState) (c : UInt8) (escaped dollar : Bool) : LexState :=
  { s with escaped := escaped, dollar := dollar, pos := s.pos + 1, raw := s.raw ++ [c] }

/-- A byte behind a closing quote that belongs to nothing. -/
def lose (s : LexState) (escaped dollar : Bool) : LexState :=
  { s with escaped := escaped, dollar := dollar, pos := s.pos + 1 }

/-- The state after the byte that ends a word. -/
def finish (s : LexState) (m : Mode) : LexState :=
  { s with mode := m, dollar := false, pos := s.pos + 1 }

/-- The word that ends at the next byte. -/
def ended (s : LexState) : Word := ⟨s.opened, s.pos - s.raw.length, s.raw⟩

def stepGap (s : LexState) (c : UInt8) : LexState × List LexEvent :=
  if isSpace c then (s.skip .gap, [])
  else if c == fsChrSEM then (fresh (s.pos + 1), [.inr .ok])
  else if c == fsChrLCBRACK then (fresh (s.pos + 1), [.inr .blockStart])
  else if c == fsChrRCBRACK then (fresh (s.pos + 1), [.inr .blockEnd])
  else if c == fsChrSHARP then (s.skip .comment, [])
  else if c == fsChrESCAPE then (s.opens .word true s.dollar [], [])
  else if c == fsChrDQUO then (s.opens (.quote .double) false s.dollar [], [])
  else if c == fsChrSQUO then (s.opens (.quote .single) false s.dollar [], [])
  else if c == fsChrDOLLAR then (s.opens .word false true [c], [])
  else (s.opens .word false s.dollar [c], [])

def stepComment (s : LexState) (c : UInt8) : LexState × List LexEvent :=
  (s.skip (if c == fsChrLF then .gap else .comment), [])

def stepWord (s : LexState) (c : UInt8) : LexState × List LexEvent :=
  if s.escaped then (s.grow c false s.dollar, [])
  else if c == fsChrLCBRACK && s.dollar then (s.grow c false true, [])
  else if c == fsChrESCAPE then (s.grow c true false, [])
  else if c == fsChrDOLLAR then (s.grow c false true, [])
  else if c == fsChrSEM then (fresh (s.pos + 1), [.inl s.ended, .inr .ok])
  else if c == fsChrLCBRACK then (fresh (s.pos + 1), [.inl s.ended, .inr .blockStart])
  else if isSpace c then (s.finish .gap, [.inl s.ended])
  else (s.grow c false false, [])

def stepQuote (s : LexState) (q : Quote) (c : UInt8) : LexState × List LexEvent :=
  if s.escaped then (s.grow c false s.dollar, [])
  else if c == fsChrLCBRACK && s.dollar then (s.grow c false true, [])
  else if c == fsChrESCAPE then (s.grow c true false, [])
  else if c == fsChrDOLLAR then (s.grow c false true, [])
  else if c == q.byte then (s.finish .closed, [.inl s.ended])
  else (s.grow c false false, [])

def stepClosed (s : LexState) (c : UInt8) : LexState × List LexEvent :=
  if s.escaped then (s.lose false s.dollar, [])
  else if isSpace c then (s.skip .gap, [])
  else if c == fsChrSEM then (fresh (s.pos + 1), [.inr .ok])
  else if c == fsChrLCBRACK then (fresh (s.pos + 1), [.inr .blockStart])
  else if c == fsChrESCAPE then (s.lose true false, [])
  else if c == fsChrDOLLAR then (s.lose false true, [])
  else (s.lose false false, [])

/-- One byte of the text. -/
def step (s : LexState) (c : UInt8) : LexState × List LexEvent :=
  match s.mode with
  | .gap => s.stepGap c
  | .comment => s.stepComment c
  | .word => s.stepWord c
  | .quote q => s.stepQuote q c
  | .closed => s.stepClosed c

/-- Is a word open? -/
def inWord (s : LexState) : Bool :=
  match s.mode with
  | .word | .quote _ => true
  | _ => false

/-- What holds between any two bytes. -/
structure Wf (s : LexState) : Prop where
  escaped : s.mode = .gap ∨ s.mode = .comment → s.escaped = false
  raw_le : s.inWord → s.raw.length ≤ s.pos

lemma wf_fresh (n : Nat) : (fresh n).Wf := ⟨fun _ => rfl, fun h => by simp [fresh, inWord] at h⟩

@[simp] lemma fresh_pos (n : Nat) : (fresh n).pos = n := rfl

lemma wf_skip {s : LexState} {m : Mode} (hm : m = .gap ∨ m = .comment) (h : s.escaped = false) :
    (s.skip m).Wf := by
  refine ⟨fun _ => h, ?_⟩
  rcases hm with rfl | rfl <;> nofun

lemma wf_opens (s : LexState) {m : Mode} (hm : m ≠ .gap ∧ m ≠ .comment) (escaped dollar : Bool)
    {raw : List UInt8} (hraw : raw.length ≤ 1) : (s.opens m escaped dollar raw).Wf := by
  refine ⟨?_, fun _ => hraw.trans (Nat.le_add_left 1 s.pos)⟩
  rintro (h | h)
  · exact absurd h hm.1
  · exact absurd h hm.2

lemma Wf.grow {s : LexState} (h : s.Wf) (hw : s.inWord) (c : UInt8) (escaped dollar : Bool) :
    (s.grow c escaped dollar).Wf := by
  refine ⟨?_, ?_⟩
  · rintro (hm | hm) <;> simp [inWord, show s.mode = _ from hm] at hw
  · intro _
    simpa [LexState.grow] using h.raw_le hw

lemma wf_finish {s : LexState} (h : s.escaped = false) : (s.finish .gap).Wf :=
  ⟨fun _ => h, nofun⟩

lemma wf_finish_closed (s : LexState) : (s.finish .closed).Wf :=
  ⟨fun h => h.elim nofun nofun, nofun⟩

lemma wf_lose {s : LexState} (hm : s.mode = .closed) (escaped dollar : Bool) :
    (s.lose escaped dollar).Wf := by
  refine ⟨?_, ?_⟩
  · rintro (h | h) <;> cases hm.symm.trans h
  · intro h
    simp [lose, inWord, hm] at h

lemma wf_ite {p : Prop} [Decidable p] {r r' : LexState × List LexEvent} (h : p → r.1.Wf)
    (h' : ¬p → r'.1.Wf) : (if p then r else r').1.Wf := by
  by_cases hp : p
  · rw [if_pos hp]
    exact h hp
  · rw [if_neg hp]
    exact h' hp

lemma wf_step {s : LexState} (h : s.Wf) (c : UInt8) : (s.step c).1.Wf := by
  cases hm : s.mode with
  | gap =>
    have he := h.escaped (.inl hm)
    simp only [step, hm, stepGap]
    refine wf_ite (fun _ => wf_skip (.inl rfl) he) fun _ => ?_
    refine wf_ite (fun _ => wf_fresh _) fun _ => ?_
    refine wf_ite (fun _ => wf_fresh _) fun _ => ?_
    refine wf_ite (fun _ => wf_fresh _) fun _ => ?_
    refine wf_ite (fun _ => wf_skip (.inr rfl) he) fun _ => ?_
    refine wf_ite (fun _ => wf_opens s (by decide) _ _ (by simp)) fun _ => ?_
    refine wf_ite (fun _ => wf_opens s (by decide) _ _ (by simp)) fun _ => ?_
    refine wf_ite (fun _ => wf_opens s (by decide) _ _ (by simp)) fun _ => ?_
    exact wf_ite (fun _ => wf_opens s (by decide) _ _ (by simp))
      fun _ => wf_opens s (by decide) _ _ (by simp)
  | comment =>
    have he := h.escaped (.inr hm)
    simp only [step, hm, stepComment]
    by_cases hc : c == fsChrLF
    · rw [if_pos hc]
      exact wf_skip (.inl rfl) he
    · rw [if_neg hc]
      exact wf_skip (.inr rfl) he
  | word =>
    have hw : s.inWord := by simp [inWord, hm]
    simp only [step, hm, stepWord]
    refine wf_ite (fun _ => h.grow hw _ _ _) fun hesc => ?_
    refine wf_ite (fun _ => h.grow hw _ _ _) fun _ => ?_
    refine wf_ite (fun _ => h.grow hw _ _ _) fun _ => ?_
    refine wf_ite (fun _ => h.grow hw _ _ _) fun _ => ?_
    refine wf_ite (fun _ => wf_fresh _) fun _ => ?_
    refine wf_ite (fun _ => wf_fresh _) fun _ => ?_
    exact wf_ite (fun _ => wf_finish (Bool.eq_false_iff.mpr hesc)) fun _ => h.grow hw _ _ _
  | quote q =>
    have hw : s.inWord := by simp [inWord, hm]
    simp only [step, hm, stepQuote]
    refine wf_ite (fun _ => h.grow hw _ _ _) fun _ => ?_
    refine wf_ite (fun _ => h.grow hw _ _ _) fun _ => ?_
    refine wf_ite (fun _ => h.grow hw _ _ _) fun _ => ?_
    refine wf_ite (fun _ => h.grow hw _ _ _) fun _ => ?_
    exact wf_ite (fun _ => wf_finish_closed s) fun _ => h.grow hw _ _ _
  | closed =>
    simp only [step, hm, stepClosed]
    refine wf_ite (fun _ => wf_lose hm _ _) fun hesc => ?_
    refine wf_ite (fun _ => wf_skip (.inl rfl) (Bool.eq_false_iff.mpr hesc)) fun _ => ?_
    refine wf_ite (fun _ => wf_fresh _) fun _ => ?_
    refine wf_ite (fun _ => wf_fresh _) fun _ => ?_
    refine wf_ite (fun _ => wf_lose hm _ _) fun _ => ?_
    exact wf_ite (fun _ => wf_lose hm _ _) fun _ => wf_lose hm _ _

/-- Everything one byte can do. -/
inductive Stepped (s : LexState) (c : UInt8) : LexState → List LexEvent → Prop where
  | outside {s'} : s.inWord = false → s'.inWord = false → s'.pos = s.pos + 1 → Stepped s c s' []
  | opened {m escaped dollar raw} : s.inWord = false → (s.opens m escaped dollar raw).inWord →
      raw = [] ∨ raw = [c] → Stepped s c (s.opens m escaped dollar raw) []
  | grown (escaped dollar) : s.inWord → Stepped s c (s.grow c escaped dollar) []
  | ended {m} : s.inWord → s.escaped = false → m = .gap ∨ m = .closed → c ≠ fsChrSEM →
      c ≠ fsChrLCBRACK → Stepped s c (s.finish m) [.inl s.ended]
  | endedOk : s.inWord → s.escaped = false → c = fsChrSEM →
      Stepped s c (fresh (s.pos + 1)) [.inl s.ended, .inr .ok]
  | endedBlock : s.inWord → s.escaped = false → c = fsChrLCBRACK →
      Stepped s c (fresh (s.pos + 1)) [.inl s.ended, .inr .blockStart]
  | stop {st} : s.inWord = false → st.isDirective → Stepped s c (fresh (s.pos + 1)) [.inr st]

lemma Stepped.ite {s : LexState} {c : UInt8} {p : Prop} [Decidable p]
    {r r' : LexState × List LexEvent} (h : p → Stepped s c r.1 r.2)
    (h' : ¬p → Stepped s c r'.1 r'.2) :
    Stepped s c (if p then r else r').1 (if p then r else r').2 := by
  by_cases hp : p
  · rw [if_pos hp]
    exact h hp
  · rw [if_neg hp]
    exact h' hp

lemma stepped (s : LexState) (c : UInt8) : Stepped s c (s.step c).1 (s.step c).2 := by
  cases hm : s.mode with
  | gap =>
    have hw : s.inWord = false := by simp [inWord, hm]
    simp only [step, hm, stepGap]
    refine .ite (fun _ => .outside hw rfl rfl) fun _ => ?_
    refine .ite (fun _ => .stop hw rfl) fun _ => ?_
    refine .ite (fun _ => .stop hw rfl) fun _ => ?_
    refine .ite (fun _ => .stop hw rfl) fun _ => ?_
    refine .ite (fun _ => .outside hw rfl rfl) fun _ => ?_
    refine .ite (fun _ => .opened hw rfl (.inl rfl)) fun _ => ?_
    refine .ite (fun _ => .opened hw rfl (.inl rfl)) fun _ => ?_
    refine .ite (fun _ => .opened hw rfl (.inl rfl)) fun _ => ?_
    exact .ite (fun _ => .opened hw rfl (.inr rfl)) fun _ => .opened hw rfl (.inr rfl)
  | comment =>
    have hw : s.inWord = false := by simp [inWord, hm]
    simp only [step, hm, stepComment]
    by_cases hc : c == fsChrLF
    · rw [if_pos hc]
      exact .outside hw rfl rfl
    · rw [if_neg hc]
      exact .outside hw rfl rfl
  | word =>
    have hw : s.inWord = true := by simp [inWord, hm]
    simp only [step, hm, stepWord]
    refine .ite (fun _ => .grown _ _ hw) fun hesc => ?_
    have hesc := Bool.eq_false_iff.mpr hesc
    refine .ite (fun _ => .grown _ _ hw) fun _ => ?_
    refine .ite (fun _ => .grown _ _ hw) fun _ => ?_
    refine .ite (fun _ => .grown _ _ hw) fun _ => ?_
    refine .ite (fun hc => .endedOk hw hesc (eq_of_beq hc)) fun hsem => ?_
    refine .ite (fun hc => .endedBlock hw hesc (eq_of_beq hc)) fun hbrace => ?_
    refine .ite (fun _ => ?_) fun _ => .grown _ _ hw
    exact .ended hw hesc (.inl rfl) (by simpa using hsem) (by simpa using hbrace)
  | quote q =>
    have hw : s.inWord = true := by simp [inWord, hm]
    simp only [step, hm, stepQuote]
    refine .ite (fun _ => .grown _ _ hw) fun hesc => ?_
    refine .ite (fun _ => .grown _ _ hw) fun _ => ?_
    refine .ite (fun _ => .grown _ _ hw) fun _ => ?_
    refine .ite (fun _ => .grown _ _ hw) fun _ => ?_
    refine .ite (fun hc => ?_) fun _ => .grown _ _ hw
    obtain rfl := eq_of_beq hc
    -- a quote ends no directive
    exact .ended hw (Bool.eq_false_iff.mpr hesc) (.inr rfl) (by cases q <;> decide)
      (by cases q <;> decide)
  | closed =>
    have hw : s.inWord = false := by simp [inWord, hm]
    have hlose : ∀ escaped dollar, (s.lose escaped dollar).inWord = false := by
      simp [lose, inWord, hm]
    simp only [step, hm, stepClosed]
    refine .ite (fun _ => .outside hw (hlose _ _) rfl) fun _ => ?_
    refine .ite (fun _ => .outside hw rfl rfl) fun _ => ?_
    refine .ite (fun _ => .stop hw rfl) fun _ => ?_
    refine .ite (fun _ => .stop hw rfl) fun _ => ?_
    refine .ite (fun _ => .outside hw (hlose _ _) rfl) fun _ => ?_
    exact .ite (fun _ => .outside hw (hlose _ _) rfl) fun _ => .outside hw (hlose _ _) rfl

lemma step_pos (s : LexState) (c : UInt8) : (s.step c).1.pos = s.pos + 1 := by
  have h := stepped s c
  generalize (s.step c).1 = s', (s.step c).2 = es at h ⊢
  cases h with
  | outside _ _ hpos => exact hpos
  | opened => rfl
  | grown => rfl
  | ended => rfl
  | endedOk => rfl
  | endedBlock => rfl
  | stop => rfl

end LexState

/-- The words and ends of directives of a text, in order. -/
def lexEvents (text : List UInt8) : List LexEvent :=
  (Mealy.run LexState.step (LexState.fresh 0) text).2

/-- The directives of a text, each with its words and the way it ends, and the words at the end
of the text that belong to no complete directive. -/
def lexRecords (text : List UInt8) : List (List Word × Status) × List Word :=
  Records.cut [] (lexEvents text)

end Folksong
