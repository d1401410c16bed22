import Folksong.Conf.Complete
import Folksong.Conf.Walk

/-!
# What a failed parse reports (`fs_conf_parse_errlog`)

The line in the report is that of the byte which ends the refused directive, however the text comes
into the buffer; the words are those of the directive.
-/

namespace Folksong

open Mealy

/-- `fs_conf_parse_errlog`: the line it logs and the words it prints. -/
def fsConfParseErrlog (f : FsFile) (tokens : FsArr FsStr) : Nat × List FsStr :=
  (f.line, tokens.toList)

section

variable {μ κ H : Type} [DecidableEq μ] (env : Env μ κ H) (io : ReadOutcome) (mode : ParseMode)

/-- What the loop of `fs_conf_parse` reports, if it fails. -/
def parseErrlog : Nat → FsFile → Conf μ κ H → Option (Nat × List FsStr)
  | 0, _, _ => none
  | n + 1, f, c =>
    match fsConfNextToken io f c.tokens, parseTurn env io mode f c with
    | .ret _ f' _, .stop .error _ c => some (fsConfParseErrlog f' c.tokens)
    | _, .next _ f c => parseErrlog n f c
    | _, _ => none

end

/-! ### Lines -/

lemma refill_line {io : ReadOutcome} {f f' : FsFile} (h : refill io f = .go f') :
    f'.line = f.line := by
  rw [refill] at h
  split_ifs at h with hover hdone
  · rw [fsFileRead] at h
    split_ifs at h
    cases h
    rfl
  · cases h
    rfl

lemma countLine_line (f : FsFile) (c : UInt8) :
    (f.countLine c).line = f.line + [c].count fsChrLF := by
  rw [FsFile.countLine, List.count_singleton]
  split_ifs <;> rfl

/-- A file that delivers a text counts its lines. -/
lemma Source.lines {io : ReadOutcome} {text : List UInt8} {base : Nat → Nat}
    {P : FsFile → Nat → Prop} (hS : Source io text base P) :
    Source io text base fun f g => P f g ∧ f.line = 1 + (text.take g).count fsChrLF where
  base_le := hS.base_le
  remaining h := hS.remaining h.1
  finish h := hS.finish h.1
  byte := by
    rintro f g c ⟨hP, hline⟩ hc
    obtain ⟨f', hgo, hpos, hmem, hP'⟩ := hS.byte hP hc
    refine ⟨f', hgo, hpos, hmem, hP', ?_⟩
    rw [countLine_line, refill_line hgo, hline, List.take_add_one, hc, List.count_append,
      Nat.add_assoc]
    rfl

/-! ### Tokens -/

/-- No operation of a directive changes its words. -/
lemma walk_tokens {μ κ H : Type} (tokens : FsArr FsStr) :
    Walk (fun c : Conf μ κ H => c.tokens = tokens) (fun c => c.tokens = tokens) where
  push _ _ h := h
  pop h := h
  drop h hdrop := (dropBlock_left hdrop).tokens.trans h
  inside h _ := h
  outside h := h
  store p h := (storeTop_left _ p).tokens.trans h
  called _ _ h := h

/-- `fs_conf_handle` leaves the words of the directive, however it ends. -/
lemma handle_words {μ κ H : Type} [DecidableEq μ] (env : Env μ κ H) (c : Conf μ κ H)
    (st : Status) : (fsConfHandle env c st).Post (fun c' => c'.tokens = c.tokens)
      (Exit.Keeps fun c' => c'.tokens = c.tokens) :=
  (walk_tokens c.tokens).handle
    (fun p _ => registers_of_blind (fun _ _ h => h) (fun _ _ h => h) p.1 p.2) rfl st

/-! ### The report -/

/-- How many directives end in these bytes, from `s` on. -/
def endsIn (s : LexState) (bs : List UInt8) : Nat :=
  ((run LexState.step s bs).2.filterMap Sum.getRight?).length

lemma lexRecords_length (text : List UInt8) :
    (lexRecords text).1.length = endsIn (LexState.fresh 0) text := by
  rw [← List.length_map Prod.snd, lexRecords, Records.cut_map_snd]
  rfl

lemma endsIn_append {s s' : LexState} {as bs : List UInt8} {es : List LexEvent}
    (h : Reads LexState.step s as s' es) :
    endsIn s (as ++ bs) = (es.filterMap Sum.getRight?).length + endsIn s' bs := by
  rw [endsIn, run_append, h, List.filterMap_append, List.length_append]
  rfl

lemma endsIn_words {s s' : LexState} {bs : List UInt8} {ws : List Word}
    (h : Reads LexState.step s bs s' (ws.map .inl)) : endsIn s bs = 0 := by
  have hnone : (ws.map (.inl : Word → LexEvent)).filterMap Sum.getRight? = [] := by
    rw [List.filterMap_map, List.filterMap_eq_nil_iff]
    exact fun _ _ => rfl
  have happend := @endsIn_append _ _ _ [] _ h
  rwa [List.append_nil, hnone] at happend

/-- A directive that ends with the byte behind `bs`. -/
lemma reads_directive {s s' s'' : LexState} {bs : List UInt8} {b : UInt8} {ws vs : List Word}
    {st : Status} (hreads : Reads LexState.step s bs s' (ws.map .inl))
    (hstep : s'.step b = (s'', vs.map .inl ++ [.inr st])) :
    ∃ es, Reads LexState.step s (bs ++ [b]) s'' es ∧
      (es.filterMap Sum.getRight?).length = 1 := by
  refine ⟨_, hreads.append (Reads.one hstep), ?_⟩
  have hnone : ∀ ws : List Word,
      (ws.map (.inl : Word → LexEvent)).filterMap Sum.getRight? = [] := by
    intro ws
    rw [List.filterMap_map, List.filterMap_eq_nil_iff]
    exact fun _ _ => rfl
  rw [List.filterMap_append, List.filterMap_append, hnone, hnone]
  rfl

section

variable {μ κ H : Type} [DecidableEq μ] {env : Env μ κ H} {io : ReadOutcome} {mode : ParseMode}
  {text : List UInt8} {base : Nat → Nat} {P : FsFile → Nat → Prop}

/-- The report of a parse from position `g` on, which refuses the directive that ends with the byte
`b` behind `bs`. -/
structure Refused (text : List UInt8) (g : Nat) (parsed : Parsed μ κ)
    (report : Option (Nat × List FsStr)) (bs : List UInt8) (b : UInt8) : Prop where
  drop : ∃ rest, text.drop g = bs ++ b :: rest
  before : endsIn (LexState.fresh g) bs + 1 = parsed.directives.length
  upto : endsIn (LexState.fresh g) (bs ++ [b]) = parsed.directives.length
  report : ∃ st words, parsed.directives.getLast? = some (st, words) ∧
    report = some (1 + (text.take (g + bs.length + 1)).count fsChrLF, words)

lemma refused_of_error (hS : Source io text base P)
    (hlines : ∀ f g, P f g → f.line = 1 + (text.take g).count fsChrLF) (hmode : mode ≠ .block)
    (n : Nat) :
    ∀ (f : FsFile) (g : Nat) (c : Conf μ κ H), P f g → g ≤ text.length →
      (parseLoop env io mode n f c).verdict = .error →
      ∃ bs b,
        Refused text g (parseLoop env io mode n f c) (parseErrlog env io mode n f c) bs b := by
  induction n with
  | zero =>
    intro f g c _ _ herr
    cases herr
  | succ n ih =>
    intro f g c hP hle herr
    have hends := fsConfNextToken_ends hS hP hle c.tokens
    rw [parseLoop] at herr ⊢
    rw [parseErrlog]
    cases htaken : fsConfNextToken io f c.tokens with
    | undefined =>
      rw [parseTurn, htaken] at herr
      cases herr
    | ret st f' tokens' =>
      rw [htaken] at hends
      cases hends with
      | finished =>
        rw [parseTurn, htaken] at herr
        have hblock : (mode == .block) = false := by simpa using hmode
        simp [hblock] at herr
      | @directive bs ws vs b rest s' ts _ _ _ hdrop hreads hstep hst _ _ hP' =>
        rw [LexState.fresh_pos] at hdrop hstep hP'
        rw [parseTurn_directive env mode hst htaken] at herr ⊢
        obtain ⟨es, hes, hone⟩ := reads_directive hreads hstep
        have hnone : endsIn (LexState.fresh g) bs = 0 := endsIn_words hreads
        have hupto : endsIn (LexState.fresh g) (bs ++ [b]) = 1 := by
          have happend := @endsIn_append _ _ _ [] _ hes
          rwa [List.append_nil, hone] at happend
        cases hhandle : fsConfHandle env (c.take ⟨st, tokens'⟩) st with
        | ok c' =>
          rw [hhandle] at herr
          have hle' : g + bs.length + 1 ≤ text.length := by
            have hlength := congrArg List.length hdrop
            rw [List.length_drop, List.length_append, List.length_cons] at hlength
            omega
          obtain ⟨bs', b', hrefused⟩ := ih f' _ c' hP' hle' herr
          obtain ⟨rest', hdrop'⟩ := hrefused.drop
          obtain ⟨st', words, hlast, hreport⟩ := hrefused.report
          refine ⟨bs ++ [b] ++ bs', b', ⟨rest', ?_⟩, ?_, ?_, st', words, ?_, ?_⟩
          · have hrest : text.drop (g + bs.length + 1) = rest := by
              rw [Nat.add_assoc, ← List.drop_drop, hdrop, List.drop_append]
              simp
            rw [hdrop, ← hrest, hdrop', List.append_assoc, List.append_assoc]
            rfl
          · rw [endsIn_append hes, hone, Nat.add_assoc, hrefused.before, Nat.add_comm]
            rfl
          · rw [List.append_assoc, endsIn_append hes, hone, hrefused.upto, Nat.add_comm]
            rfl
          · rw [List.getLast?_cons, hlast]
            rfl
          · have hposition : g + (bs ++ [b] ++ bs').length + 1 =
                g + bs.length + 1 + bs'.length + 1 := by
              rw [List.length_append, List.length_append, List.length_singleton]
              omega
            rw [hposition]
            exact hreport
        | error e =>
          have hwords := handle_words env (c.take ⟨st, tokens'⟩) st
          rw [hhandle] at herr hwords
          have hline := hlines f' _ hP'
          cases e with
          | undefined => cases herr
          | error c' | pass _ c' =>
            have htokens : c'.tokens = tokens' := hwords
            refine ⟨bs, b, ⟨rest, hdrop⟩, by rw [hnone]; rfl, hupto, st, tokens'.toList, rfl, ?_⟩
            simp only [fsConfParseErrlog, hline, htokens]

end

/-- A directive of the second line that no module knows. -/
def refusedText : List UInt8 := bytes "fs_version\x7b\nbad 1;\n\x7d"

example : parseErrlog sampleEnv (fun _ => true) .file ((FsFile.opened refusedText []).remaining + 2)
    (FsFile.opened refusedText []) sampleStart = some (2, [⟨bytes "bad", 4⟩, ⟨bytes "1", 2⟩]) := by
  decide +kernel

end Folksong
