import Folksong.Conf.Words

/-!
# Directives and the ways to write them

The quoted format: each string of a directive stands between double or between single quotes,
strings are separated by white space and comments. `Renders` relates a list of directives to
every text that writes it, and the scanner takes each such text back to its directives.
-/

namespace Folksong

/-- A string a configuration can hold: a C string has no NUL in it. -/
structure ConfString where
  text : List UInt8
  nul_free : (0 : UInt8) ∉ text

/-- A directive: strings ended by a semicolon, strings ended by an opening brace, or a closing
brace. There is at least one string before a semicolon or an opening brace. -/
inductive Directive where
  | simple (first : ConfString) (more : List ConfString)
  | block (first : ConfString) (more : List ConfString)
  | close

namespace Directive

def strings : Directive → List ConfString
  | simple first more => first :: more
  | block first more => first :: more
  | close => []

/-- The code the scanner answers for a directive. -/
def status : Directive → Status
  | simple _ _ => .ok
  | block _ _ => .blockStart
  | close => .blockEnd

end Directive

/-- `WritesBytes q string written`: between quotes `q`, `string` can be written as `written`. -/
inductive WritesBytes (q : Quote) : List UInt8 → List UInt8 → Prop where
  | nil : WritesBytes q [] []
  | plain {c s w} : c ≠ q.byte → c ≠ fsChrESCAPE → WritesBytes q s w →
      WritesBytes q (c :: s) (c :: w)
  | escaped {c s w} : c = q.byte ∨ c = fsChrESCAPE → WritesBytes q s w →
      WritesBytes q (c :: s) (fsChrESCAPE :: c :: w)
  | tab {s w} : WritesBytes q s w → WritesBytes q (fsChrTAB :: s) (fsChrESCAPE :: 116 :: w)
  | cr {s w} : WritesBytes q s w → WritesBytes q (fsChrCR :: s) (fsChrESCAPE :: 114 :: w)
  | lf {s w} : WritesBytes q s w → WritesBytes q (fsChrLF :: s) (fsChrESCAPE :: 110 :: w)

/-- White space and comments, in any order. -/
inductive Layout : List UInt8 → Prop where
  | nil : Layout []
  | space {c l} : isSpace c → Layout l → Layout (c :: l)
  | comment {body l} : fsChrLF ∉ body → Layout l → Layout (fsChrSHARP :: (body ++ fsChrLF :: l))

/-- What separates two strings: layout that begins with white space. -/
inductive Separator : List UInt8 → Prop where
  | mk {c l} : isSpace c → Layout l → Separator (c :: l)

/-- The strings of one directive, each between quotes of its own. -/
inductive WritesStrings : List ConfString → List UInt8 → Prop where
  | last {s : ConfString} {q w} : WritesBytes q s.text w →
      WritesStrings [s] (q.byte :: (w ++ [q.byte]))
  | next {s s' : ConfString} {more q w l u} : WritesBytes q s.text w → Separator l →
      WritesStrings (s' :: more) u →
      WritesStrings (s :: s' :: more) (q.byte :: (w ++ [q.byte]) ++ (l ++ u))

/-- One directive, from its first byte to the byte that ends it. -/
inductive WritesDirective : Directive → List UInt8 → Prop where
  | simple {s more t l} : WritesStrings (s :: more) t → l = [] ∨ Separator l →
      WritesDirective (.simple s more) (t ++ (l ++ [fsChrSEM]))
  | block {s more t l} : WritesStrings (s :: more) t → l = [] ∨ Separator l →
      WritesDirective (.block s more) (t ++ (l ++ [fsChrLCBRACK]))
  | close : WritesDirective .close [fsChrRCBRACK]

/-- The texts that write a list of directives. -/
inductive Renders : List Directive → List UInt8 → Prop where
  | nil {l} : Layout l → Renders [] l
  | cons {d ds l t u} : Layout l → WritesDirective d t → Renders ds u →
      Renders (d :: ds) (l ++ (t ++ u))

/-! ### Decoding -/

lemma decode_plain {c : UInt8} (hc : c ≠ fsChrESCAPE) (mem : List UInt8) (n : Nat) :
    decode (c :: mem) (n + 1) = c :: decode mem n := by
  have hb : ∀ d, decodeByte c d = (c, 1) := by
    intro d
    simp [decodeByte, hc]
  cases mem with
  | nil => cases n <;> rfl
  | cons d mem => simp [decode, hb]

lemma decode_escape {d : UInt8} (mem : List UInt8) (n : Nat)
    (h : (decodeByte fsChrESCAPE d).2 = 2) :
    decode (fsChrESCAPE :: d :: mem) (n + 2) = (decodeByte fsChrESCAPE d).1 :: decode mem n := by
  rw [decode, if_pos h]
  rfl

/-- Decoding takes what is written back to the string, whatever follows it in the memory. -/
lemma WritesBytes.decode {q : Quote} {s w : List UInt8} (h : WritesBytes q s w)
    (behind : List UInt8) : Folksong.decode (w ++ behind) w.length = s := by
  induction h with
  | nil => simp [Folksong.decode]
  | plain _ hesc _ ih =>
    rw [List.cons_append, List.length_cons, decode_plain hesc, ih]
  | @escaped c s w hc _ ih =>
    have hd : decodeByte fsChrESCAPE c = (c, 2) := by
      rcases hc with rfl | rfl
      · cases q <;> rfl
      · rfl
    rw [List.cons_append, List.cons_append, List.length_cons, List.length_cons,
      decode_escape _ _ (by rw [hd]), hd, ih]
  | tab _ ih =>
    rw [List.cons_append, List.cons_append, List.length_cons, List.length_cons,
      decode_escape _ _ rfl, ih]
    rfl
  | cr _ ih =>
    rw [List.cons_append, List.cons_append, List.length_cons, List.length_cons,
      decode_escape _ _ rfl, ih]
    rfl
  | lf _ ih =>
    rw [List.cons_append, List.cons_append, List.length_cons, List.length_cons,
      decode_escape _ _ rfl, ih]
    rfl

/-! ### Reading -/

open Mealy

namespace LexState

/-- Right behind a closing quote, with no escape open. -/
def Closed (s : LexState) : Prop := s.mode = .closed ∧ s.escaped = false

lemma stepGap_space {s : LexState} (h : s.mode = .gap) {c : UInt8} (hc : isSpace c) :
    s.step c = (s.skip .gap, []) := by
  simp [step, h, stepGap, hc]

lemma stepGap_quote {s : LexState} (h : s.mode = .gap) (q : Quote) :
    s.step q.byte = (s.opens (.quote q) false s.dollar [], []) := by
  simp only [step, h]
  cases q <;> rfl

lemma stepComment_ne {s : LexState} (h : s.mode = .comment) {c : UInt8} (hc : c ≠ fsChrLF) :
    s.step c = (s.skip .comment, []) := by
  simp [step, h, stepComment, hc]

lemma stepComment_lf {s : LexState} (h : s.mode = .comment) :
    s.step fsChrLF = (s.skip .gap, []) := by
  simp [step, h, stepComment]

lemma reads_comment {body : List UInt8} (hbody : fsChrLF ∉ body) :
    ∀ s : LexState, s.mode = .comment → ∃ s', Reads step s body s' [] ∧ s'.mode = .comment := by
  induction body with
  | nil => exact fun s h => ⟨s, Reads.nil s, h⟩
  | cons c body ih =>
    intro s h
    simp only [List.mem_cons, not_or] at hbody
    obtain ⟨s', hs', hm⟩ := ih hbody.2 (s.skip .comment) rfl
    exact ⟨s', Reads.cons (stepComment_ne h (Ne.symm hbody.1)) hs', hm⟩

/-- Layout between two directives or two words is skipped. -/
lemma reads_layout {l : List UInt8} (hl : Layout l) :
    ∀ s : LexState, s.mode = .gap → ∃ s', Reads step s l s' [] ∧ s'.mode = .gap := by
  induction hl with
  | nil => exact fun s h => ⟨s, Reads.nil s, h⟩
  | space hc _ ih =>
    intro s h
    obtain ⟨s', hs', hm⟩ := ih (s.skip .gap) rfl
    exact ⟨s', Reads.cons (stepGap_space h hc) hs', hm⟩
  | comment hbody _ ih =>
    intro s h
    have hsharp : s.step fsChrSHARP = (s.skip .comment, []) := by
      simp only [step, h]
      rfl
    obtain ⟨s₁, h₁, hm₁⟩ := reads_comment hbody (s.skip .comment) rfl
    obtain ⟨s₂, h₂, hm₂⟩ := ih (s₁.skip .gap) rfl
    exact ⟨s₂, Reads.cons hsharp (h₁.append (Reads.cons (stepComment_lf hm₁) h₂)), hm₂⟩

/-- A separator leads from behind a closing quote to the next gap. -/
lemma reads_separator {l : List UInt8} (hl : Separator l) {s : LexState} (h : s.Closed) :
    ∃ s', Reads step s l s' [] ∧ s'.mode = .gap := by
  obtain @⟨c, l, hc, hl⟩ := hl
  obtain ⟨s', hs', hm⟩ := reads_layout hl (s.skip .gap) rfl
  have hstep : s.step c = (s.skip .gap, []) := by
    simp [step, h.1, stepClosed, h.2, hc]
  exact ⟨s', Reads.cons hstep hs', hm⟩

/-- Inside quotes a byte that is neither the quote nor a backslash belongs to the word. -/
lemma stepQuote_plain {s : LexState} {q : Quote} (h : s.mode = .quote q)
    (hesc : s.escaped = false) {c : UInt8} (hq : c ≠ q.byte) (hc : c ≠ fsChrESCAPE) :
    ∃ dollar, s.step c = (s.grow c false dollar, []) := by
  have hb : (c == q.byte) = false := by simpa using hq
  have hb' : (c == fsChrESCAPE) = false := by simpa using hc
  simp only [step, h, stepQuote, hesc, hb, hb']
  split_ifs <;> first | contradiction | exact ⟨_, rfl⟩

/-- Inside quotes a backslash takes the byte behind it into the word. -/
lemma reads_escape {s : LexState} {q : Quote} (h : s.mode = .quote q)
    (hesc : s.escaped = false) (c : UInt8) :
    Reads step s [fsChrESCAPE, c] ((s.grow fsChrESCAPE true false).grow c false false) [] := by
  have h₁ : s.step fsChrESCAPE = (s.grow fsChrESCAPE true false, []) := by
    simp only [step, h, stepQuote, hesc]
    rfl
  have h₂ : (s.grow fsChrESCAPE true false).step c
      = ((s.grow fsChrESCAPE true false).grow c false false, []) := by
    simp [step, grow, h, stepQuote]
  exact Reads.cons h₁ (Reads.one h₂)

/-- What is written for a string becomes the written bytes of the open word. -/
lemma reads_bytes {q : Quote} {str w : List UInt8} (hw : WritesBytes q str w) :
    ∀ s : LexState, s.mode = .quote q → s.escaped = false →
      ∃ s', Reads step s w s' [] ∧ s'.mode = .quote q ∧ s'.escaped = false ∧
        s'.raw = s.raw ++ w := by
  -- A backslash and the byte behind it, whatever the byte.
  have pair : ∀ (c : UInt8) {w : List UInt8},
      (∀ s : LexState, s.mode = .quote q → s.escaped = false →
        ∃ s', Reads step s w s' [] ∧ s'.mode = .quote q ∧ s'.escaped = false ∧
          s'.raw = s.raw ++ w) →
      ∀ s : LexState, s.mode = .quote q → s.escaped = false →
        ∃ s', Reads step s (fsChrESCAPE :: c :: w) s' [] ∧ s'.mode = .quote q ∧
          s'.escaped = false ∧ s'.raw = s.raw ++ fsChrESCAPE :: c :: w := by
    intro c w ih s hm hesc
    obtain ⟨s', hs', hm', hesc', hraw⟩ :=
      ih ((s.grow fsChrESCAPE true false).grow c false false) hm rfl
    refine ⟨s', (reads_escape hm hesc c).append hs', hm', hesc', ?_⟩
    rw [hraw]
    simp [grow]
  induction hw with
  | nil => exact fun s hm hesc => ⟨s, Reads.nil s, hm, hesc, (List.append_nil _).symm⟩
  | plain hq hc _ ih =>
    intro s hm hesc
    obtain ⟨dollar, hstep⟩ := stepQuote_plain hm hesc hq hc
    obtain ⟨s', hs', hm', hesc', hraw⟩ := ih (s.grow _ false dollar) hm rfl
    refine ⟨s', Reads.cons hstep hs', hm', hesc', ?_⟩
    rw [hraw]
    simp [grow]
  | escaped _ _ ih => exact pair _ ih
  | tab _ ih => exact pair _ ih
  | cr _ ih => exact pair _ ih
  | lf _ ih => exact pair _ ih

end LexState

/-- The word is written for the string. -/
def Word.Writes (w : Word) (s : ConfString) : Prop := ∃ q, WritesBytes q s.text w.raw

namespace LexState

/-- A string between quotes is read as one word. -/
lemma reads_quoted {q : Quote} {str : ConfString} {w : List UInt8}
    (hw : WritesBytes q str.text w) {s : LexState} (h : s.mode = .gap) :
    ∃ s' v, Reads step s (q.byte :: (w ++ [q.byte])) s' [.inl v] ∧ s'.Closed ∧
      Word.Writes v str := by
  obtain ⟨s₁, h₁, hm₁, hesc₁, hraw₁⟩ :=
    reads_bytes hw (s.opens (.quote q) false s.dollar []) rfl rfl
  have hend : s₁.step q.byte = (s₁.finish .closed, [.inl s₁.ended]) := by
    simp only [step, hm₁, stepQuote, hesc₁]
    cases q <;> rfl
  refine ⟨s₁.finish .closed, s₁.ended,
    Reads.cons (stepGap_quote h q) (h₁.append (Reads.one hend)), ⟨rfl, hesc₁⟩, q, ?_⟩
  have hraw : s₁.ended.raw = w := hraw₁
  rwa [hraw]

/-- The strings of a directive are read as words, one for each string. -/
lemma reads_strings {strs : List ConfString} {t : List UInt8} (ht : WritesStrings strs t) :
    ∀ s : LexState, s.mode = .gap → ∃ s' ws, Reads step s t s' (ws.map .inl) ∧ s'.Closed ∧
      List.Forall₂ Word.Writes ws strs := by
  induction ht with
  | last hw =>
    intro s h
    obtain ⟨s', v, hs', hc, hv⟩ := reads_quoted hw h
    exact ⟨s', [v], hs', hc, .cons hv .nil⟩
  | next hw hl _ ih =>
    intro s h
    obtain ⟨s₁, v, h₁, hc₁, hv⟩ := reads_quoted hw h
    obtain ⟨s₂, h₂, hm₂⟩ := reads_separator hl hc₁
    obtain ⟨s₃, ws, h₃, hc₃, hws⟩ := ih s₂ hm₂
    exact ⟨s₃, v :: ws, h₁.append (h₂.append h₃), hc₃, .cons hv hws⟩

/-- Behind the strings, the byte that ends the directive is read in the same way with and
without layout before it. -/
lemma reads_end {l : List UInt8} (hl : l = [] ∨ Separator l) {c : UInt8} {st : Status}
    (hc : c = fsChrSEM ∧ st = .ok ∨ c = fsChrLCBRACK ∧ st = .blockStart) {s : LexState}
    (h : s.Closed) : ∃ n, Reads step s (l ++ [c]) (fresh n) [.inr st] := by
  rcases hl with rfl | hl
  · refine ⟨s.pos + 1, Reads.one ?_⟩
    simp only [step, h.1, stepClosed, h.2]
    rcases hc with ⟨rfl, rfl⟩ | ⟨rfl, rfl⟩ <;> rfl
  · obtain ⟨s', hs', hm⟩ := reads_separator hl h
    refine ⟨s'.pos + 1, hs'.append (Reads.one ?_)⟩
    simp only [step, hm]
    rcases hc with ⟨rfl, rfl⟩ | ⟨rfl, rfl⟩ <;> rfl

/-- A directive is read as its words followed by its status. -/
lemma reads_directive {d : Directive} {t : List UInt8} (ht : WritesDirective d t)
    {s : LexState} (h : s.mode = .gap) :
    ∃ n ws, Reads step s t (fresh n) (ws.map .inl ++ [.inr d.status]) ∧
      List.Forall₂ Word.Writes ws d.strings := by
  cases ht with
  | simple ht hl =>
    obtain ⟨s₁, ws, h₁, hc₁, hws⟩ := reads_strings ht s h
    obtain ⟨n, h₂⟩ := reads_end hl (.inl ⟨rfl, rfl⟩) hc₁
    exact ⟨n, ws, h₁.append h₂, hws⟩
  | block ht hl =>
    obtain ⟨s₁, ws, h₁, hc₁, hws⟩ := reads_strings ht s h
    obtain ⟨n, h₂⟩ := reads_end hl (.inr ⟨rfl, rfl⟩) hc₁
    exact ⟨n, ws, h₁.append h₂, hws⟩
  | close =>
    refine ⟨s.pos + 1, [], Reads.one ?_, .nil⟩
    simp only [step, h]
    rfl

end LexState

/-- The record is the directive. -/
def Record.Is (r : List Word × Status) (d : Directive) : Prop :=
  List.Forall₂ Word.Writes r.1 d.strings ∧ r.2 = d.status

/-- A text that writes directives is cut into exactly these, and nothing is left over. -/
lemma Renders.reads {ds : List Directive} {text : List UInt8} (h : Renders ds text) :
    ∀ s : LexState, s.mode = .gap → ∃ s' es, Reads LexState.step s text s' es ∧
      ∃ rs, Records.cut [] es = (rs, []) ∧ List.Forall₂ Record.Is rs ds := by
  induction h with
  | nil hl =>
    intro s hm
    obtain ⟨s', hs', -⟩ := LexState.reads_layout hl s hm
    exact ⟨s', [], hs', [], rfl, .nil⟩
  | @cons d ds l t u hl ht _ ih =>
    intro s hm
    obtain ⟨s₁, h₁, hm₁⟩ := LexState.reads_layout hl s hm
    obtain ⟨n, ws, h₂, hws⟩ := LexState.reads_directive ht hm₁
    obtain ⟨s₃, es, h₃, rs, hcut, hrs⟩ := ih (LexState.fresh n) rfl
    refine ⟨s₃, _, h₁.append (h₂.append h₃), (ws, d.status) :: rs, ?_, .cons ⟨hws, rfl⟩ hrs⟩
    rw [List.nil_append, List.append_assoc, Records.cut_map_inl]
    simp [hcut]

/-! ### Round trip -/

/-- The token of a word that is written for a string is that string. -/
lemma Word.Writes.token {text : List UInt8} {w : Word} {s : ConfString} (hs : w.Writes s)
    (hin : w.In text) : (wordToken text w).cstr = s.text := by
  obtain ⟨q, hq⟩ := hs
  obtain ⟨pre, c, rest, rfl, hstart, -⟩ := hin
  have hdrop : (pre ++ w.raw ++ c :: rest).drop w.start = w.raw ++ c :: rest := by
    rw [hstart, List.append_assoc, List.drop_left]
  have htext : (wordToken (pre ++ w.raw ++ c :: rest) w).text = s.text := by
    simp only [wordToken, hdrop]
    exact hq.decode _
  rw [FsStr.cstr_of_nul_free (by rw [htext]; exact s.nul_free), htext]

/-- What a caller sees of one call: the status and the tokens as C strings. -/
def Reply.strings : Reply → Option (Status × List (List UInt8))
  | .taken st tokens => some (st, tokens.map FsStr.cstr)
  | .undefined => none

/-- What a caller should see for a directive. -/
def Directive.strings? (d : Directive) : Option (Status × List (List UInt8)) :=
  some (d.status, d.strings.map ConfString.text)

lemma Record.Is.strings {text : List UInt8} {r : List Word × Status} {d : Directive}
    (h : Record.Is r d) (hin : ∀ w ∈ r.1, w.In text) :
    (Reply.taken r.2 (r.1.map (wordToken text))).strings = d.strings? := by
  obtain ⟨ws, st⟩ := r
  obtain ⟨hws, rfl⟩ := h
  simp only [Reply.strings, Directive.strings?, Option.some.injEq, Prod.mk.injEq, true_and]
  simp only at hws hin
  generalize d.strings = strs at hws
  induction hws with
  | nil => rfl
  | cons hw _ ih =>
    simp only [List.map_cons, List.cons.injEq]
    exact ⟨hw.token (hin _ List.mem_cons_self), ih fun w hw => hin w (List.mem_cons_of_mem _ hw)⟩

/-- The scanner takes every text that writes a list of directives back to these directives, with
their strings and their statuses, and then reports the end of the text. -/
theorem readAll_of_renders (io : ReadOutcome) {ds : List Directive} {text : List UInt8}
    (h : Renders ds text) (behind : List UInt8) (tokens : FsArr FsStr) :
    (readAll io (FsFile.ofBuf (text ++ behind) text.length) tokens).map Reply.strings
      = ds.map Directive.strings? ++ [some (.fileDone, [])] := by
  obtain ⟨s', es, hes, rs, hcut, hrs⟩ := h.reads (LexState.fresh 0) rfl
  have hrecords : lexRecords text = (rs, []) := by
    rw [lexRecords, lexEvents, hes, hcut]
  have hin : ∀ r ∈ rs, ∀ w ∈ r.1, w.In text := by
    intro r hr w hw
    exact lexWords_in (mem_lexRecords.mp (.inl ⟨r, by rwa [hrecords], hw⟩))
  rw [readAll_ofBuf io (List.take_left' rfl), hrecords]
  simp only [List.map_append, List.map_map, List.map_cons, List.map_nil]
  refine congrArg₂ (· ++ ·) ?_ rfl
  clear hcut hrecords hes h
  induction hrs with
  | nil => rfl
  | cons hr _ ih =>
    simp only [List.map_cons, List.cons.injEq]
    refine ⟨hr.strings (hin _ List.mem_cons_self), ih fun r hr => ?_⟩
    exact hin r (List.mem_cons_of_mem _ hr)

/-- A block named `a';` that is opened and closed, with a comment before its brace. -/
lemma renders_block :
    Renders [.block ⟨[97, 39, 59], by decide⟩ [], .close]
      [39, 97, 92, 39, 59, 39, 32, 35, 123, 10, 123, 125] := by
  have hb : WritesBytes .single [97, 39, 59] [97, 92, 39, 59] :=
    .plain (by decide) (by decide) (.escaped (.inl rfl) (.plain (by decide) (by decide) .nil))
  have hw : WritesStrings [⟨[97, 39, 59], by decide⟩] [39, 97, 92, 39, 59, 39] :=
    .last (q := .single) (w := [97, 92, 39, 59]) hb
  have hl : Layout [35, 123, 10] := Layout.comment (l := []) (show fsChrLF ∉ [123] by decide) .nil
  have hs : Separator [32, 35, 123, 10] := .mk (by decide) hl
  exact .cons .nil (.block hw (.inr hs)) (.cons .nil .close (.nil .nil))

theorem readAll_of_renders_block :
    (readAll (fun _ => true) (FsFile.ofBuf (bytes "'a\\';' #\x7b\n\x7b\x7d" ++ [0]) 12)
        (fsAllocArr FsStr 1 (Nat.succ_pos _))).map Reply.strings
      = [some (.blockStart, [bytes "a';"]), some (.blockEnd, []), some (.fileDone, [])] :=
  readAll_of_renders (fun _ => true) renders_block [0] (fsAllocArr FsStr 1 (Nat.succ_pos _))

end Folksong
