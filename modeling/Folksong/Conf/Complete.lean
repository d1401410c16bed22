import Folksong.Conf.Nesting
import Folksong.Conf.Refill
import Folksong.Mod.Table

/-!
# Which texts are accepted

At the end of its input the scanner drops the words it has read, and the parse answers
`FS_CONF_OK` whatever is still open; a closing brace drops the words before it. So a text need
not be complete to be accepted: all that a text by itself has to avoid is a closing brace too
many.
-/

namespace Folksong

/-- A complete sequence of directives: each block is closed by its own brace, no words stand
before a closing brace or at the end of the text, and no word or quoted string is open there. -/
structure Complete (text : List UInt8) : Prop where
  closed : nesting 0 (lexStatuses text) = some 0
  uncut : ∀ r ∈ (lexRecords text).1, r.2 = .blockEnd → r.1 = []
  left : (lexRecords text).2 = []
  ended : (Mealy.run LexState.step (LexState.fresh 0) text).1.inWord = false

/-- Some closing brace of the text has no open block. -/
def SurplusClose (text : List UInt8) : Prop := nesting 0 (lexStatuses text) = none

instance (text : List UInt8) : Decidable (SurplusClose text) :=
  inferInstanceAs (Decidable (_ = _))

/-- A text in the hands of `fs_conf_parse`: a file, or a string held in one buffer. -/
inductive Delivered (text : List UInt8) : ParseMode → FsFile → Prop where
  | file (mem) : Delivered text .file (FsFile.opened text mem)
  | cmdline (behind) : Delivered text .param (FsFile.ofBuf (text ++ behind) text.length)

/-! ### Reads that fail -/

/-- A read that fails ends the directive with an error; before that it makes no difference. -/
lemma nextTokenLoop_io (io : ReadOutcome) :
    ∀ (n : Nat) (s : Scan) (f : FsFile) (tokens : FsArr FsStr),
      nextTokenLoop io n s f tokens = nextTokenLoop (fun _ => true) n s f tokens ∨
        ∃ f' tokens', nextTokenLoop io n s f tokens = .ret .error f' tokens' := by
  intro n
  induction n with
  | zero => exact fun _ _ _ => .inl rfl
  | succ n ih =>
    intro s f tokens
    have hrefill : refill io f = refill (fun _ => true) f ∨ refill io f = .failed := by
      simp only [refill, fsFileRead]
      cases io f.off with
      | true => exact .inl rfl
      | false =>
        by_cases hover : f.bufOverflow
        · by_cases hdone : f.done <;> simp [hover, hdone]
        · simp [hover]
    rw [nextTokenLoop, nextTokenLoop]
    rcases hrefill with hsame | hfailed
    · rw [hsame]
      cases refill (fun _ => true) f with
      | done => exact .inl rfl
      | failed => exact .inl rfl
      | go f =>
        dsimp only
        cases f.bufLshift with
        | none => exact .inl rfl
        | some r =>
          obtain ⟨chr, f⟩ := r
          dsimp only
          cases scanByte s chr f.pos with
          | next s => exact ih _ _ _
          | ret st => exact .inl rfl
          | found s =>
            dsimp only
            cases takeToken f.mem s.tokenStart (f.pos - 1) with
            | none => exact .inl rfl
            | some token =>
              dsimp only
              split_ifs with hsem hblock
              · exact .inl rfl
              · exact .inl rfl
              · exact ih _ _ _
    · rw [hfailed]
      exact .inr ⟨f, tokens, rfl⟩

section

variable {μ κ H : Type} [DecidableEq μ] {env : Env μ κ H} {mode : ParseMode}

/-- A parse that answers `FS_CONF_OK` has met no read that failed. -/
lemma parseLoop_io {io : ReadOutcome} :
    ∀ (n : Nat) (f : FsFile) (c : Conf μ κ H), (parseLoop env io mode n f c).verdict = .ok →
      (parseLoop env (fun _ => true) mode n f c).verdict = .ok := by
  intro n
  induction n with
  | zero => exact fun _ _ h => h
  | succ n ih =>
    intro f c h
    rw [parseLoop] at h ⊢
    have hturn : parseTurn env io mode f c = parseTurn env (fun _ => true) mode f c := by
      rcases nextTokenLoop_io io (f.remaining + 1) Scan.start f c.tokens.reset with
        hsame | ⟨f', tokens', herr⟩
      · rw [parseTurn, parseTurn, fsConfNextToken, fsConfNextToken, hsame]
      · rw [parseTurn, fsConfNextToken, herr] at h
        cases h
    rw [hturn] at h
    cases hr : parseTurn env (fun _ => true) mode f c with
    | stop v last c => rw [hr] at h; exact h
    | next l f c =>
      rw [hr] at h
      exact ih f c h

/-- The parse of a text that is held in one buffer. -/
lemma parseLoop_cmdline (io : ReadOutcome) (text behind : List UInt8) (c : Conf μ κ H) :
    parseLoop env io mode ((FsFile.ofBuf (text ++ behind) text.length).remaining + 2)
        (FsFile.ofBuf (text ++ behind) text.length) c
      = conduct env mode c
          (replies (fun w => some (wordToken text w)) (lexRecords text).1 (lexRecords text).2) := by
  have htake : (text ++ behind).take text.length = text := List.take_left' rfl
  rw [parseLoop_eq_conduct, replies_of_some (fun _ => rfl), ← readAll_ofBuf io htake c.tokens]
  rfl

/-- The parse of a text that is read from a file, whose reads succeed. -/
lemma parseLoop_file {io : ReadOutcome} (hio : ∀ off, io off = true) (text mem : List UInt8)
    (c : Conf μ κ H) :
    parseLoop env io mode ((FsFile.opened text mem).remaining + 2) (FsFile.opened text mem) c
      = conduct env mode c
          (replies (bufToken loadBase text) (lexRecords text).1 (lexRecords text).2) := by
  rw [parseLoop_eq_conduct, ← readAll_opened hio text mem c.tokens]
  rfl

/-! ### Accepted texts -/

omit [DecidableEq μ] in
lemma nesting_lexRecords_iff (text : List UInt8) {c : Conf μ κ H} (hc : c.stMod = []) :
    nesting c.stMod.length ((lexRecords text).1.map Prod.snd) = none ↔ SurplusClose text := by
  rw [hc, lexRecords_statuses]
  rfl

/-- A text with a closing brace too many is not accepted. -/
lemma not_ok_of_surplusClose {text : List UInt8} (h : SurplusClose text) {f : FsFile}
    (hf : Delivered text mode f) (io : ReadOutcome) (tokens : FsArr FsStr) (heap : H) :
    (parseLoop env io mode (f.remaining + 2) f (Conf.start tokens heap)).verdict ≠ .ok := by
  intro hok
  have hok' := parseLoop_io _ _ _ hok
  have hnone : nesting (Conf.start tokens heap : Conf μ κ H).stMod.length
      ((lexRecords text).1.map Prod.snd) = none := (nesting_lexRecords_iff text rfl).mpr h
  cases hf with
  | file mem =>
    rw [parseLoop_file (fun _ => rfl)] at hok'
    exact (conduct_surplus (lexRecords_isDirective text) _ hnone [] _ []).2 hok'
  | cmdline behind =>
    rw [parseLoop_cmdline] at hok'
    exact (conduct_surplus (lexRecords_isDirective text) _ hnone [] _ []).2 hok'

end

/-- Tokens in whose first slot something stands. -/
def namedTokens : FsArr FsStr := (fsAllocArr FsStr 3 tokensCapa_pos).push (fsStr "a")

lemma ready_start : Ready (Conf.start namedTokens ()) :=
  ⟨rfl, nofun, nofun⟩

/-- A text in which every closing brace has an open block is accepted by some table of
modules. -/
lemma permissive_ok {text : List UInt8} (h : ¬ SurplusClose text) (behind : List UInt8) :
    (parseLoop permissive (fun _ => true) .param
      ((FsFile.ofBuf (text ++ behind) text.length).remaining + 2)
      (FsFile.ofBuf (text ++ behind) text.length) (Conf.start namedTokens ())).verdict = .ok := by
  rw [parseLoop_cmdline]
  refine (permissive_conduct (t := wordToken text) (fun _ => rfl) (by decide)
    (lexRecords_isDirective text) _ _ ready_start ?_).1
  exact Option.isSome_iff_ne_none.mpr (mt (nesting_lexRecords_iff text rfl).mp h)

/-- With any modules, in any memory and however it is delivered, a text is accepted only if it is
complete, exactly when it is complete or has a closing brace too many. -/
theorem complete_of_ok_iff (text : List UInt8) :
    (∀ (μ κ H : Type) (_ : DecidableEq μ) (env : Env μ κ H) (io : ReadOutcome) (mode : ParseMode)
        (f : FsFile) (tokens : FsArr FsStr) (heap : H), Delivered text mode f →
      (parseLoop env io mode (f.remaining + 2) f (Conf.start tokens heap)).verdict = .ok →
        Complete text)
      ↔ Complete text ∨ SurplusClose text := by
  constructor
  · intro h
    by_cases hsurplus : SurplusClose text
    · exact .inr hsurplus
    · exact .inl (h Unit Unit Unit inferInstance permissive _ _ _ _ _ (.cmdline [])
        (permissive_ok hsurplus []))
  · rintro (hcomplete | hsurplus) μ κ H _ env io mode f tokens heap hf hok
    · exact hcomplete
    · exact absurd hok (not_ok_of_surplusClose hsurplus hf io tokens heap)

/-- A timer block that is never closed is accepted. -/
theorem accepts_open_block :
    ¬ ∀ text : List UInt8,
      (fsConfParse sampleEnv (fun _ => true) text [] sampleStart).verdict = .ok → Complete text := by
  intro h
  have hok : (fsConfParse sampleEnv (fun _ => true) (bytes "timer\x7b") [] sampleStart).verdict
      = .ok := by decide +kernel
  exact absurd (h _ hok).closed (by decide)

end Folksong
