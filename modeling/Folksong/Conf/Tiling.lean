import Folksong.Conf.Escapes

/-!
# What a directive is made of

The grammar of a directive as a sequence of pieces: white space, comments, and the words with
their quotes, each of which is returned as one token. Behind a closing quote the scanner waits for
white space or the end of the directive, and passes over what else it finds there.
-/

namespace Folksong

/-! ### The grammar -/

/-- What stands between quotes `q`: a backslash belongs to the byte behind it. -/
inductive QuoteBody (q : Quote) : List UInt8 → Prop where
  | nil : QuoteBody q []
  | plain {body c} : QuoteBody q body → c ≠ q.byte → c ≠ fsChrESCAPE → QuoteBody q (body ++ [c])
  | pair {body} (c) : QuoteBody q body → QuoteBody q (body ++ [fsChrESCAPE, c])

/-- `Unquoted written raw dollar`: a word that stands without quotes is written so. A backslash
that begins it is not among the bytes `raw` its token is taken from. Behind a dollar sign and the
braces that follow it, `dollar`, an opening brace belongs to the word. -/
inductive Unquoted : List UInt8 → List UInt8 → Bool → Prop where
  | plain {c} : isSpace c = false → c ∉ [fsChrSEM, fsChrLCBRACK, fsChrRCBRACK, fsChrSHARP,
      fsChrESCAPE, fsChrDQUO, fsChrSQUO, fsChrDOLLAR] → Unquoted [c] [c] false
  | dollar : Unquoted [fsChrDOLLAR] [fsChrDOLLAR] true
  | escaped (c) : Unquoted [fsChrESCAPE, c] [c] false
  | more {written raw dollar c} : Unquoted written raw dollar → isSpace c = false →
      c ∉ [fsChrSEM, fsChrLCBRACK, fsChrESCAPE, fsChrDOLLAR] →
      Unquoted (written ++ [c]) (raw ++ [c]) false
  | moreDollar {written raw dollar} : Unquoted written raw dollar →
      Unquoted (written ++ [fsChrDOLLAR]) (raw ++ [fsChrDOLLAR]) true
  | brace {written raw} : Unquoted written raw true →
      Unquoted (written ++ [fsChrLCBRACK]) (raw ++ [fsChrLCBRACK]) true
  | pair {written raw dollar} (c) : Unquoted written raw dollar →
      Unquoted (written ++ [fsChrESCAPE, c]) (raw ++ [fsChrESCAPE, c]) false

/-- The token that is taken from these bytes. -/
def rawToken (raw : List UInt8) : FsStr := ⟨decode raw raw.length, raw.length + 1⟩

/-- Where the next piece of a directive stands: where a word may begin, or right behind a closing
quote. -/
inductive Place where
  | gap | behind

/-- `Pieces tokens place bs`: the bytes are pieces of a directive, with these tokens, and lead
to this place. -/
inductive Pieces : List FsStr → Place → List UInt8 → Prop where
  | nil : Pieces [] .gap []
  | space {tokens place bs c} : Pieces tokens place bs → isSpace c → Pieces tokens .gap (bs ++ [c])
  | comment {tokens bs body} : Pieces tokens .gap bs → fsChrLF ∉ body →
      Pieces tokens .gap (bs ++ (fsChrSHARP :: body ++ [fsChrLF]))
  | quoted {tokens bs q body} : Pieces tokens .gap bs → QuoteBody q body →
      Pieces (tokens ++ [rawToken body]) .behind (bs ++ (q.byte :: body ++ [q.byte]))
  | unquoted {tokens bs written raw dollar c} : Pieces tokens .gap bs →
      Unquoted written raw dollar → isSpace c →
      Pieces (tokens ++ [rawToken raw]) .gap (bs ++ (written ++ [c]))

/-- A whole directive: its pieces and the byte that ends it. -/
inductive Tiled : List FsStr → Status → List UInt8 → Prop where
  | ok {tokens place bs} : Pieces tokens place bs → Tiled tokens .ok (bs ++ [fsChrSEM])
  | block {tokens place bs} : Pieces tokens place bs →
      Tiled tokens .blockStart (bs ++ [fsChrLCBRACK])
  | close {tokens bs} : Pieces tokens .gap bs → Tiled tokens .blockEnd (bs ++ [fsChrRCBRACK])
  | okWord {tokens bs written raw dollar} : Pieces tokens .gap bs → Unquoted written raw dollar →
      Tiled (tokens ++ [rawToken raw]) .ok (bs ++ (written ++ [fsChrSEM]))
  | blockWord {tokens bs written raw} : Pieces tokens .gap bs → Unquoted written raw false →
      Tiled (tokens ++ [rawToken raw]) .blockStart (bs ++ (written ++ [fsChrLCBRACK]))

/-- The bytes lead right behind a closing quote. -/
def Behind (bs : List UInt8) : Prop := ∃ tokens, Pieces tokens .behind bs

/-! ### The tokens of the pieces -/

/-- A backslash and the byte behind it are taken for one byte or for two. -/
lemma decode_escaped_pair (c : UInt8) (mem : List UInt8) (n : Nat) :
    decode (fsChrESCAPE :: c :: mem) (n + 2) = decode [fsChrESCAPE, c] 2 ++ decode mem n := by
  by_cases hc : isEscaped c
  · rw [decode_escape mem n (by simpa [isEscaped] using hc),
      decode_escape [] 0 (by simpa [isEscaped] using hc)]
    simp [decode]
  · have hne : (decodeByte fsChrESCAPE c).2 ≠ 2 := by simpa [isEscaped] using hc
    have hesc : c ≠ fsChrESCAPE := by
      rintro rfl
      exact hne rfl
    rw [decode, if_neg hne, decode_plain hesc, decode, if_neg hne, decode_plain hesc]
    simp [decode]

lemma isEscaped_of_isSpace {c : UInt8} (h : isSpace c) : isEscaped c = false := by
  simp only [isSpace, Bool.or_eq_true, beq_iff_eq] at h
  rcases h with ((rfl | rfl) | rfl) | rfl <;> rfl

/-- Between quotes the decoder takes the pieces one by one, whatever follows. -/
lemma QuoteBody.decode {q : Quote} {body : List UInt8} (h : QuoteBody q body) (mem : List UInt8)
    (n : Nat) : Folksong.decode (body ++ mem) (body.length + n)
      = Folksong.decode body body.length ++ Folksong.decode mem n := by
  induction h generalizing mem n with
  | nil => simp [Folksong.decode]
  | @plain body c _ _ hesc ih =>
    have hlen : (body ++ [c]).length + n = body.length + (n + 1) := by simp; omega
    have hone : Folksong.decode (body ++ [c]) (body ++ [c]).length
        = Folksong.decode body body.length ++ [c] := by
      rw [List.length_append, ih, List.length_singleton]
      rfl
    rw [List.append_assoc, hlen, ih, hone, List.append_assoc]
    simp [decode_plain hesc]
  | @pair body c _ ih =>
    have hlen : (body ++ [fsChrESCAPE, c]).length + n = body.length + (n + 2) := by simp; omega
    have hone : Folksong.decode (body ++ [fsChrESCAPE, c]) (body ++ [fsChrESCAPE, c]).length
        = Folksong.decode body body.length ++ Folksong.decode [fsChrESCAPE, c] 2 := by
      rw [List.length_append, ih]
      rfl
    rw [List.append_assoc, hlen, ih, hone, List.append_assoc]
    exact congrArg _ (decode_escaped_pair c mem n)

/-- A byte that no backslash is taken together with makes no difference to the token before it. -/
lemma decode_delim {d : UInt8} (hd : isEscaped d = false) (rest raw : List UInt8) :
    decode (raw ++ d :: rest) raw.length = decode raw raw.length := by
  have hne : ∀ c, (decodeByte c d).2 ≠ 2 := by
    intro c
    by_cases hc : c = fsChrESCAPE
    · simpa [isEscaped, hc] using hd
    · simp [decodeByte, hc]
  induction raw using List.twoStepInduction with
  | nil => simp [decode]
  | singleton c =>
    have hfst : (decodeByte c d).1 = c := by
      have := hne c
      simp only [decodeByte] at this ⊢
      split_ifs at this ⊢ <;> simp_all
    simp [decode, hne, hfst]
  | cons_cons c c' raw ih ih' =>
    simp only [List.cons_append, List.length_cons] at ih' ⊢
    rw [decode, decode]
    split_ifs
    · rw [Nat.add_sub_cancel, ih]
    · rw [ih']

/-! ### From the scanner to the grammar -/

namespace LexState

/-- The state between two pieces, or in a comment. -/
structure At (s : LexState) (m : Mode) : Prop where
  mode : s.mode = m
  escaped : s.escaped = false
  dollar : s.dollar = false

end LexState

/-- `Stands tokens bs s`: the bytes that the lexer has read up to the state `s` are pieces, with
these tokens, and the beginning of one more. -/
inductive Stands : List FsStr → List UInt8 → LexState → Prop where
  | gap {tokens bs s} : Pieces tokens .gap bs → s.At .gap → Stands tokens bs s
  | behind {tokens bs s} : Pieces tokens .behind bs → s.At .closed → Stands tokens bs s
  | comment {tokens bs body s} : Pieces tokens .gap bs → fsChrLF ∉ body → s.At .comment →
      Stands tokens (bs ++ fsChrSHARP :: body) s
  | quote {tokens bs q body s} : Pieces tokens .gap bs → QuoteBody q body → s.raw = body →
      s.mode = .quote q → s.escaped = false → Stands tokens (bs ++ q.byte :: body) s
  | quoteEscape {tokens bs q body s} : Pieces tokens .gap bs → QuoteBody q body →
      s.raw = body ++ [fsChrESCAPE] → s.mode = .quote q → s.escaped = true →
      Stands tokens (bs ++ (q.byte :: body ++ [fsChrESCAPE])) s
  | word {tokens bs written s} : Pieces tokens .gap bs → Unquoted written s.raw s.dollar →
      s.mode = .word → s.escaped = false → Stands tokens (bs ++ written) s
  | wordEscape {tokens bs written raw dollar s} : Pieces tokens .gap bs →
      Unquoted written raw dollar → s.raw = raw ++ [fsChrESCAPE] → s.mode = .word →
      s.escaped = true → s.dollar = false → Stands tokens (bs ++ (written ++ [fsChrESCAPE])) s
  | escape {tokens bs s} : Pieces tokens .gap bs → s.raw = [] → s.mode = .word →
      s.escaped = true → s.dollar = false → Stands tokens (bs ++ [fsChrESCAPE]) s

/-- What one more byte does, `bs` being the bytes up to it. -/
inductive Tiles (text : List UInt8) (tokens : List FsStr) (bs : List UInt8) :
    LexState → List LexEvent → Prop where
  | more {s} : Stands tokens bs s → Tiles text tokens bs s []
  | word {w s} : Stands (tokens ++ [wordToken text w]) bs s → Tiles text tokens bs s [.inl w]
  | stop {st s} : Tiled tokens st bs → Tiles text tokens bs s [.inr st]
  | stopWord {w st s} : Tiled (tokens ++ [wordToken text w]) st bs →
      Tiles text tokens bs s [.inl w, .inr st]

lemma Tiles.ite {text : List UInt8} {tokens : List FsStr} {bs : List UInt8} {p : Prop} [Decidable p]
    {r r' : LexState × List LexEvent} (h : p → Tiles text tokens bs r.1 r.2)
    (h' : ¬p → Tiles text tokens bs r'.1 r'.2) :
    Tiles text tokens bs (if p then r else r').1 (if p then r else r').2 := by
  by_cases hp : p
  · rw [if_pos hp]
    exact h hp
  · rw [if_neg hp]
    exact h' hp

lemma Unquoted.raw_suffix {written raw : List UInt8} {dollar : Bool}
    (h : Unquoted written raw dollar) : raw <:+ written := by
  induction h with
  | plain => exact List.suffix_refl _
  | dollar => exact List.suffix_refl _
  | escaped c => exact List.suffix_cons _ _
  | more _ _ _ ih => exact List.suffix_append_self_iff.mpr ih
  | moreDollar _ ih => exact List.suffix_append_self_iff.mpr ih
  | brace _ ih => exact List.suffix_append_self_iff.mpr ih
  | pair _ _ ih => exact List.suffix_append_self_iff.mpr ih

/-- The open word is the end of what has been read. -/
lemma Stands.raw_suffix {tokens : List FsStr} {bs : List UInt8} {s : LexState}
    (h : Stands tokens bs s) (hw : s.inWord) : s.raw <:+ bs := by
  cases h with
  | gap _ h => simp [LexState.inWord, h.mode] at hw
  | behind _ h => simp [LexState.inWord, h.mode] at hw
  | comment _ _ h => simp [LexState.inWord, h.mode] at hw
  | quote _ _ hraw => exact hraw ▸ List.suffix_append_of_suffix (List.suffix_cons _ _)
  | quoteEscape _ _ hraw => exact hraw ▸ List.suffix_append_of_suffix (List.suffix_cons _ _)
  | word _ h => exact List.suffix_append_of_suffix h.raw_suffix
  | wordEscape _ h hraw =>
    rw [hraw]
    exact List.suffix_append_of_suffix (List.suffix_append_self_iff.mpr h.raw_suffix)
  | escape _ hraw => exact hraw ▸ List.nil_suffix

/-- The token of the word that ends at `c`. -/
lemma wordToken_ended {text bs rest : List UInt8} {s : LexState} {g : Nat} {c : UInt8}
    (hpos : s.pos = g + bs.length) (hdrop : text.drop g = bs ++ c :: rest)
    (hraw : s.raw <:+ bs) (hc : isEscaped c = false ∨ ∃ q, QuoteBody q s.raw) :
    wordToken text s.ended = rawToken s.raw := by
  obtain ⟨pre, rfl⟩ := hraw
  have hstart : s.pos - s.raw.length = g + pre.length := by
    rw [hpos, List.length_append]
    omega
  have hraw : text.drop (s.pos - s.raw.length) = s.raw ++ c :: rest := by
    rw [hstart, ← List.drop_drop, hdrop, List.append_assoc, List.drop_left]
  have hdecode : decode (s.raw ++ c :: rest) s.raw.length = decode s.raw s.raw.length := by
    rcases hc with hc | ⟨q, hq⟩
    · exact decode_delim hc rest s.raw
    · simpa [decode] using hq.decode (c :: rest) 0
  simp only [wordToken, LexState.ended, rawToken, hraw, hdecode]

/-- What may stand behind a closing quote. -/
def Separates (c : UInt8) : Prop := isSpace c ∨ c = fsChrSEM ∨ c = fsChrLCBRACK

section Step

variable {text : List UInt8} {tokens : List FsStr} {bs : List UInt8} {s : LexState} {c : UInt8}

lemma tiles_gap (hp : Pieces tokens .gap bs) (h : s.At .gap) :
    Tiles text tokens (bs ++ [c]) (s.step c).1 (s.step c).2 := by
  simp only [LexState.step, h.mode, LexState.stepGap]
  refine .ite (fun hspace => .more (.gap (hp.space hspace) ⟨rfl, h.escaped, h.dollar⟩))
    fun hspace => ?_
  refine .ite (fun hc => .stop (eq_of_beq hc ▸ .ok hp)) fun hsem => ?_
  refine .ite (fun hc => .stop (eq_of_beq hc ▸ .block hp)) fun hbrace => ?_
  refine .ite (fun hc => .stop (eq_of_beq hc ▸ .close hp)) fun hclose => ?_
  refine .ite (fun hc => ?_) fun hsharp => ?_
  · obtain rfl := eq_of_beq hc
    exact .more (.comment hp (List.not_mem_nil) ⟨rfl, h.escaped, h.dollar⟩)
  refine .ite (fun hc => ?_) fun hesc => ?_
  · obtain rfl := eq_of_beq hc
    exact .more (.escape hp rfl rfl rfl h.dollar)
  refine .ite (fun hc => ?_) fun hdquo => ?_
  · obtain rfl := eq_of_beq hc
    exact .more (.quote (q := .double) hp .nil rfl rfl rfl)
  refine .ite (fun hc => ?_) fun hsquo => ?_
  · obtain rfl := eq_of_beq hc
    exact .more (.quote (q := .single) hp .nil rfl rfl rfl)
  refine .ite (fun hc => ?_) fun hdollar => ?_
  · obtain rfl := eq_of_beq hc
    exact .more (.word hp .dollar rfl rfl)
  refine .more (.word hp ?_ rfl rfl)
  rw [show (s.opens .word false s.dollar [c]).dollar = false from h.dollar]
  exact .plain (by simpa using hspace) (by simp_all)

lemma tiles_behind (hp : Pieces tokens .behind bs) (h : s.At .closed) (hc : Separates c) :
    Tiles text tokens (bs ++ [c]) (s.step c).1 (s.step c).2 := by
  simp only [LexState.step, h.mode, LexState.stepClosed, h.escaped]
  rcases hc with hc | rfl | rfl
  · rw [if_neg (by decide), if_pos hc]
    exact .more (.gap (hp.space hc) ⟨rfl, h.escaped, h.dollar⟩)
  · exact .stop (.ok hp)
  · exact .stop (.block hp)

lemma tiles_comment {body : List UInt8} (hp : Pieces tokens .gap bs) (hbody : fsChrLF ∉ body)
    (h : s.At .comment) :
    Tiles text tokens (bs ++ fsChrSHARP :: body ++ [c]) (s.step c).1 (s.step c).2 := by
  simp only [LexState.step, h.mode, LexState.stepComment]
  rw [List.append_assoc]
  by_cases hc : c = fsChrLF
  · subst hc
    exact .more (.gap (hp.comment hbody) ⟨rfl, h.escaped, h.dollar⟩)
  · rw [if_neg (by simpa using hc)]
    exact .more (.comment hp (by simp [hbody, Ne.symm hc]) ⟨rfl, h.escaped, h.dollar⟩)

lemma tiles_quote {q : Quote} {body : List UInt8} (hp : Pieces tokens .gap bs)
    (hbody : QuoteBody q body) (hraw : s.raw = body) (hm : s.mode = .quote q)
    (he : s.escaped = false)
    (htoken : wordToken text s.ended = rawToken body) :
    Tiles text tokens (bs ++ q.byte :: body ++ [c]) (s.step c).1 (s.step c).2 := by
  simp only [LexState.step, hm, LexState.stepQuote, he]
  rw [List.append_assoc]
  have hplain : ∀ dollar, c ≠ q.byte → c ≠ fsChrESCAPE →
      Tiles text tokens (bs ++ (q.byte :: body ++ [c])) (s.grow c false dollar) [] :=
    fun dollar hq hesc => .more (.quote hp (hbody.plain hq hesc) (congrArg (· ++ [c]) hraw) hm rfl)
  refine .ite (fun h => by simp at h) fun _ => ?_
  refine .ite (fun hc => ?_) fun _ => ?_
  · obtain rfl : c = fsChrLCBRACK := by simp at hc; exact hc.1
    exact hplain _ (by cases q <;> decide) (by decide)
  refine .ite (fun hc => ?_) fun hesc => ?_
  · obtain rfl := eq_of_beq hc
    exact .more (.quoteEscape hp hbody (congrArg (· ++ [fsChrESCAPE]) hraw) hm rfl)
  refine .ite (fun hc => ?_) fun _ => ?_
  · obtain rfl := eq_of_beq hc
    exact hplain _ (by cases q <;> decide) (by decide)
  refine .ite (fun hc => ?_) fun hq => hplain _ (by simpa using hq) (by simpa using hesc)
  obtain rfl := eq_of_beq hc
  refine .word (.behind ?_ ⟨rfl, he, rfl⟩)
  rw [htoken]
  exact hp.quoted hbody

lemma tiles_word {written : List UInt8} (hp : Pieces tokens .gap bs)
    (hword : Unquoted written s.raw s.dollar) (hm : s.mode = .word) (he : s.escaped = false)
    (htoken : isEscaped c = false → wordToken text s.ended = rawToken s.raw) :
    Tiles text tokens (bs ++ written ++ [c]) (s.step c).1 (s.step c).2 := by
  simp only [LexState.step, hm, LexState.stepWord, he]
  rw [List.append_assoc]
  refine .ite (fun h => by simp at h) fun _ => ?_
  refine .ite (fun hc => ?_) fun hdollar => ?_
  · simp only [Bool.and_eq_true] at hc
    obtain rfl := eq_of_beq hc.1
    exact .more (.word hp (.brace (hc.2 ▸ hword)) hm rfl)
  refine .ite (fun hc => ?_) fun hesc => ?_
  · obtain rfl := eq_of_beq hc
    exact .more (.wordEscape hp hword rfl hm rfl rfl)
  refine .ite (fun hc => ?_) fun hdol => ?_
  · obtain rfl := eq_of_beq hc
    exact .more (.word hp hword.moreDollar hm rfl)
  refine .ite (fun hc => ?_) fun hsem => ?_
  · obtain rfl := eq_of_beq hc
    refine .stopWord ?_
    rw [htoken rfl]
    exact .okWord hp hword
  refine .ite (fun hc => ?_) fun hbrace => ?_
  · obtain rfl := eq_of_beq hc
    refine .stopWord ?_
    rw [htoken rfl]
    have hd : s.dollar = false := by simpa using hdollar
    exact .blockWord hp (hd ▸ hword)
  refine .ite (fun hc => ?_) fun hspace => ?_
  · refine .word (.gap ?_ ⟨rfl, he, rfl⟩)
    rw [htoken (isEscaped_of_isSpace hc)]
    exact hp.unquoted hword hc
  · exact .more (.word hp (hword.more (by simpa using hspace) (by simp_all)) hm rfl)

end Step

/-- One byte more, unless it is lost behind a closing quote. -/
lemma Stands.step {text : List UInt8} {tokens : List FsStr} {bs : List UInt8} {s : LexState}
    {c : UInt8} (h : Stands tokens bs s) (hc : s.mode = .closed → Separates c)
    (htoken : s.inWord → isEscaped c = false ∨ (∃ q, QuoteBody q s.raw) →
      wordToken text s.ended = rawToken s.raw) :
    Tiles text tokens (bs ++ [c]) (s.step c).1 (s.step c).2 := by
  cases h with
  | gap hp h => exact tiles_gap hp h
  | behind hp h => exact tiles_behind hp h (hc h.mode)
  | comment hp hbody h => exact tiles_comment hp hbody h
  | @quote _ q _ _ hp hbody hraw hm he =>
    have htoken := htoken (by simp [LexState.inWord, hm]) (.inr ⟨q, hraw ▸ hbody⟩)
    exact tiles_quote hp hbody hraw hm he (hraw ▸ htoken)
  | quoteEscape hp hbody hraw hm he =>
    simp only [LexState.step, hm, LexState.stepQuote, he, if_true]
    rw [List.append_assoc, List.append_assoc]
    refine .more (.quote hp (hbody.pair c) ?_ hm rfl)
    exact (congrArg (· ++ [c]) hraw).trans (List.append_assoc _ _ _)
  | word hp hword hm he =>
    exact tiles_word hp hword hm he fun hc => htoken (by simp [LexState.inWord, hm]) (.inl hc)
  | @wordEscape _ _ raw _ _ hp hword hraw hm he hd =>
    simp only [LexState.step, hm, LexState.stepWord, he, if_true]
    have hgrow : (s.grow c false s.dollar).raw = raw ++ [fsChrESCAPE, c] :=
      (congrArg (· ++ [c]) hraw).trans (List.append_assoc _ _ _)
    rw [List.append_assoc, List.append_assoc]
    refine .more (.word hp ?_ hm rfl)
    rw [hgrow, show (s.grow c false s.dollar).dollar = false from hd]
    exact hword.pair c
  | escape hp hraw hm he hd =>
    simp only [LexState.step, hm, LexState.stepWord, he, if_true]
    have hgrow : (s.grow c false s.dollar).raw = [c] := congrArg (· ++ [c]) hraw
    rw [List.append_assoc]
    refine .more (.word hp ?_ hm rfl)
    rw [hgrow, show (s.grow c false s.dollar).dollar = false from hd]
    exact .escaped c

open Mealy

/-- Behind each closing quote stands a byte that may stand there. -/
def QuotesEnd (text : List UInt8) : Prop :=
  ∀ pre c post, text = pre ++ c :: post → Behind pre → Separates c

/-- The byte at the end of what has been read keeps to the grammar. -/
lemma Stands.tiles {text bs rest : List UInt8} {tokens : List FsStr} {s : LexState} {g : Nat}
    {c : UInt8} (hquotes : QuotesEnd (text.drop g)) (h : Stands tokens bs s)
    (hpos : s.pos = g + bs.length) (hdrop : text.drop g = bs ++ c :: rest) :
    Tiles text tokens (bs ++ [c]) (s.step c).1 (s.step c).2 := by
  refine h.step (fun hm => ?_) fun hw hc => wordToken_ended hpos hdrop (h.raw_suffix hw) hc
  cases h with
  | behind hp => exact hquotes _ c rest hdrop ⟨_, hp⟩
  | gap _ h => cases h.mode.symm.trans hm
  | comment _ _ h => cases h.mode.symm.trans hm
  | quote _ _ _ h => cases h.symm.trans hm
  | quoteEscape _ _ _ h => cases h.symm.trans hm
  | word _ _ h => cases h.symm.trans hm
  | wordEscape _ _ _ h => cases h.symm.trans hm
  | escape _ _ h => cases h.symm.trans hm

/-- Up to the byte that ends the directive. -/
lemma Stands.reads {text : List UInt8} {g : Nat} (hquotes : QuotesEnd (text.drop g))
    (cs : List UInt8) : ∀ {bs rest : List UInt8} {tokens : List FsStr} {s s' : LexState}
      {ws : List Word}, Stands tokens bs s → s.pos = g + bs.length →
      text.drop g = bs ++ (cs ++ rest) → Reads LexState.step s cs s' (ws.map .inl) →
      Stands (tokens ++ ws.map (wordToken text)) (bs ++ cs) s' ∧
        s'.pos = g + (bs ++ cs).length := by
  induction cs with
  | nil =>
    intro bs rest tokens s s' ws h hpos _ hreads
    obtain ⟨rfl, hws⟩ := Prod.mk.inj hreads
    obtain rfl : ws = [] := List.map_eq_nil_iff.mp hws.symm
    simpa using ⟨h, hpos⟩
  | cons c cs ih =>
    intro bs rest tokens s s' ws h hpos hdrop hreads
    have htiles := h.tiles hquotes hpos hdrop
    have hpos' : (s.step c).1.pos = g + (bs ++ [c]).length := by
      rw [LexState.step_pos, hpos, List.length_append, List.length_singleton, Nat.add_assoc]
    have hdrop' : text.drop g = bs ++ [c] ++ (cs ++ rest) := by simpa using hdrop
    obtain ⟨es, hes, hcs⟩ := reads_cons_iff.mp hreads
    generalize s.step c = r at htiles hpos' hes hcs
    obtain ⟨s₁, es₁⟩ := r
    simp only at htiles hpos' hes hcs
    cases htiles with
    | more h₁ =>
      obtain rfl : ws.map .inl = es := hes
      simpa using ih h₁ hpos' hdrop' hcs
    | word h₁ =>
      obtain ⟨w, ws, rfl, hw, rfl⟩ := List.map_eq_cons_iff.mp hes
      cases hw
      simpa using ih h₁ hpos' hdrop' hcs
    | stop =>
      obtain ⟨w, ws, rfl, hw, -⟩ := List.map_eq_cons_iff.mp hes
      cases hw
    | stopWord =>
      obtain ⟨w, ws, rfl, -, hes⟩ := List.map_eq_cons_iff.mp hes
      obtain ⟨w', ws, rfl, hw, -⟩ := List.map_eq_cons_iff.mp hes
      cases hw

/-- A directive keeps to the grammar if every closing quote of the text does. -/
lemma tiled_of_quotesEnd {text bs rest : List UInt8} {g : Nat} {c : UInt8} {ws vs : List Word}
    {s s' : LexState} {st : Status} (hquotes : QuotesEnd (text.drop g))
    (hdrop : text.drop g = bs ++ c :: rest)
    (hreads : Reads LexState.step (LexState.fresh g) bs s (ws.map .inl))
    (hend : s.step c = (s', vs.map .inl ++ [.inr st])) :
    Tiled ((ws ++ vs).map (wordToken text)) st (bs ++ [c]) := by
  have hstart : Stands [] [] (LexState.fresh g) := .gap .nil ⟨rfl, rfl, rfl⟩
  obtain ⟨h, hpos⟩ := hstart.reads hquotes bs rfl hdrop hreads
  have htiles := h.tiles hquotes hpos hdrop
  rw [hend] at htiles
  rw [List.nil_append, List.nil_append] at htiles
  rcases vs with - | ⟨v, - | ⟨v', vs⟩⟩
  · cases htiles with
    | stop h => simpa using h
  · cases htiles with
    | stopWord h => simpa using h
  · cases htiles

/-! ### From the grammar to the scanner -/

/-- The lexer reads the bytes without the end of a directive, and loses none of them behind a
closing quote. -/
inductive ReadsOn : LexState → List UInt8 → LexState → Prop where
  | nil (s) : ReadsOn s [] s
  | cons {s c s' cs s''} {ws : List Word} : (s.mode = .closed → Separates c) →
      s.step c = (s', ws.map .inl) → ReadsOn s' cs s'' → ReadsOn s (c :: cs) s''

lemma ReadsOn.one {s s' : LexState} {c : UInt8} (ws : List Word)
    (hc : s.mode = .closed → Separates c) (h : s.step c = (s', ws.map .inl)) : ReadsOn s [c] s' :=
  .cons hc h (.nil s')

lemma ReadsOn.append {s s' s'' : LexState} {bs cs : List UInt8} (h : ReadsOn s bs s')
    (h' : ReadsOn s' cs s'') : ReadsOn s (bs ++ cs) s'' := by
  induction h with
  | nil => exact h'
  | cons hc hstep _ ih => exact .cons hc hstep (ih h')

lemma ReadsOn.reads {s s' : LexState} {bs : List UInt8} (h : ReadsOn s bs s') :
    ∃ ws : List Word, Reads LexState.step s bs s' (ws.map .inl) := by
  induction h with
  | nil s => exact ⟨[], Reads.nil s⟩
  | @cons s c s' cs s'' ws _ hstep _ ih =>
    obtain ⟨ws', h⟩ := ih
    exact ⟨ws ++ ws', by simpa using Reads.cons hstep h⟩

/-- What a passage does at one of its bytes. -/
lemma ReadsOn.at {s s' s'' : LexState} {pre post : List UInt8} {c : UInt8} {es : List LexEvent}
    (h : ReadsOn s (pre ++ c :: post) s'') (hpre : Reads LexState.step s pre s' es) :
    (s'.mode = .closed → Separates c) ∧ ∃ ws : List Word, (s'.step c).2 = ws.map .inl := by
  induction pre generalizing s es with
  | nil =>
    obtain ⟨rfl, -⟩ := Prod.mk.inj hpre
    cases h with
    | cons hc hstep => exact ⟨hc, _, congrArg Prod.snd hstep⟩
  | cons d pre ih =>
    obtain ⟨es', -, hpre⟩ := reads_cons_iff.mp hpre
    cases h with
    | cons _ hstep h =>
      rw [hstep] at hpre
      exact ih h hpre

/-- A byte that is read anywhere but behind a closing quote. -/
lemma ReadsOn.quiet {s s' : LexState} {c : UInt8} {m : Mode} (hm : s.mode = m) (hne : m ≠ .closed)
    (h : s.step c = (s', [])) : ReadsOn s [c] s' :=
  .one [] (fun hc => absurd (hm.symm.trans hc) hne) h

lemma QuoteBody.readsOn {q : Quote} {body : List UInt8} (h : QuoteBody q body) {s : LexState}
    (hm : s.mode = .quote q) (he : s.escaped = false) :
    ∃ s', ReadsOn s body s' ∧ s'.mode = .quote q ∧ s'.escaped = false := by
  induction h with
  | nil => exact ⟨s, .nil s, hm, he⟩
  | plain _ hq hesc ih =>
    obtain ⟨s', h, hm', he'⟩ := ih
    obtain ⟨dollar, hstep⟩ := LexState.stepQuote_plain hm' he' hq hesc
    exact ⟨_, h.append (.quiet hm' (by simp) hstep), hm', rfl⟩
  | pair c _ ih =>
    obtain ⟨s', h, hm', he'⟩ := ih
    have h₁ : s'.step fsChrESCAPE = (s'.grow fsChrESCAPE true false, []) := by
      simp only [LexState.step, hm', LexState.stepQuote, he']
      rfl
    have h₂ : (s'.grow fsChrESCAPE true false).step c
        = ((s'.grow fsChrESCAPE true false).grow c false false, []) := by
      simp [LexState.step, LexState.grow, hm', LexState.stepQuote]
    have hpair := (ReadsOn.quiet hm' (by simp) h₁).append (.quiet hm' (by simp) h₂)
    exact ⟨_, h.append hpair, hm', rfl⟩

/-- A word is open, with no escape. -/
structure LexState.WordOpen (s : LexState) (dollar : Bool) : Prop where
  mode : s.mode = .word
  escaped : s.escaped = false
  dollar : s.dollar = dollar

lemma Unquoted.readsOn {written raw : List UInt8} {dollar : Bool} (h : Unquoted written raw dollar)
    {s : LexState} (hs : s.At .gap) : ∃ s', ReadsOn s written s' ∧ s'.WordOpen dollar := by
  induction h with
  | @plain c hspace hc =>
    have hstep : s.step c = (s.opens .word false s.dollar [c], []) := by
      simp only [List.mem_cons, List.not_mem_nil, or_false, not_or] at hc
      simp [LexState.step, hs.mode, LexState.stepGap, hspace, hc]
    exact ⟨_, .quiet hs.mode (by simp) hstep, rfl, rfl, hs.dollar⟩
  | dollar =>
    have hstep : s.step fsChrDOLLAR = (s.opens .word false true [fsChrDOLLAR], []) := by
      simp only [LexState.step, hs.mode]
      rfl
    exact ⟨_, .quiet hs.mode (by simp) hstep, rfl, rfl, rfl⟩
  | escaped c =>
    have h₁ : s.step fsChrESCAPE = (s.opens .word true s.dollar [], []) := by
      simp only [LexState.step, hs.mode]
      rfl
    have h₂ : (s.opens .word true s.dollar []).step c
        = ((s.opens .word true s.dollar []).grow c false s.dollar, []) := by
      simp [LexState.step, LexState.opens, LexState.stepWord]
    have h := (ReadsOn.quiet hs.mode (by simp) h₁).append (.quiet (m := .word) rfl (by simp) h₂)
    exact ⟨_, h, rfl, rfl, hs.dollar⟩
  | @more _ _ _ c _ hspace hc ih =>
    obtain ⟨s', h, hs'⟩ := ih
    have hstep : s'.step c = (s'.grow c false false, []) := by
      simp only [List.mem_cons, List.not_mem_nil, or_false, not_or] at hc
      simp [LexState.step, hs'.mode, LexState.stepWord, hs'.escaped, hspace, hc]
    exact ⟨_, h.append (.quiet hs'.mode (by simp) hstep), hs'.mode, rfl, rfl⟩
  | moreDollar _ ih =>
    obtain ⟨s', h, hs'⟩ := ih
    have hstep : s'.step fsChrDOLLAR = (s'.grow fsChrDOLLAR false true, []) := by
      simp only [LexState.step, hs'.mode, LexState.stepWord, hs'.escaped]
      rfl
    exact ⟨_, h.append (.quiet hs'.mode (by simp) hstep), hs'.mode, rfl, rfl⟩
  | brace _ ih =>
    obtain ⟨s', h, hs'⟩ := ih
    have hstep : s'.step fsChrLCBRACK = (s'.grow fsChrLCBRACK false true, []) := by
      simp only [LexState.step, hs'.mode, LexState.stepWord, hs'.escaped, hs'.dollar]
      rfl
    exact ⟨_, h.append (.quiet hs'.mode (by simp) hstep), hs'.mode, rfl, rfl⟩
  | pair c _ ih =>
    obtain ⟨s', h, hs'⟩ := ih
    have h₁ : s'.step fsChrESCAPE = (s'.grow fsChrESCAPE true false, []) := by
      simp only [LexState.step, hs'.mode, LexState.stepWord, hs'.escaped]
      rfl
    have h₂ : (s'.grow fsChrESCAPE true false).step c
        = ((s'.grow fsChrESCAPE true false).grow c false false, []) := by
      simp [LexState.step, LexState.grow, hs'.mode, LexState.stepWord]
    have hpair := (ReadsOn.quiet hs'.mode (by simp) h₁).append (.quiet hs'.mode (by simp) h₂)
    exact ⟨_, h.append hpair, hs'.mode, rfl, rfl⟩

lemma readsOn_comment {body : List UInt8} (hbody : fsChrLF ∉ body) {s : LexState}
    (hs : s.At .comment) : ∃ s', ReadsOn s body s' ∧ s'.At .comment := by
  induction body generalizing s with
  | nil => exact ⟨s, .nil s, hs⟩
  | cons c body ih =>
    simp only [List.mem_cons, not_or] at hbody
    obtain ⟨s', h, hs'⟩ := ih hbody.2 (s := s.skip .comment) ⟨rfl, hs.escaped, hs.dollar⟩
    have hstep := LexState.stepComment_ne hs.mode (Ne.symm hbody.1)
    exact ⟨s', (ReadsOn.quiet hs.mode (by simp) hstep).append h, hs'⟩

def Place.mode : Place → Mode
  | .gap => .gap
  | .behind => .closed

lemma Pieces.readsOn {tokens : List FsStr} {place : Place} {bs : List UInt8}
    (h : Pieces tokens place bs) (g : Nat) :
    ∃ s, ReadsOn (LexState.fresh g) bs s ∧ s.At place.mode := by
  induction h with
  | nil => exact ⟨_, .nil _, rfl, rfl, rfl⟩
  | @space _ place _ c _ hc ih =>
    obtain ⟨s, h, hs⟩ := ih
    have hstep : s.step c = (s.skip .gap, []) := by
      cases place with
      | gap => exact LexState.stepGap_space hs.mode hc
      | behind =>
        have hm : s.mode = .closed := hs.mode
        simp [LexState.step, hm, LexState.stepClosed, hs.escaped, hc]
    exact ⟨_, h.append (.one [] (fun _ => .inl hc) hstep), rfl, hs.escaped, hs.dollar⟩
  | @comment _ _ body _ hbody ih =>
    obtain ⟨s, h, hs⟩ := ih
    have hm : s.mode = .gap := hs.mode
    have hsharp : s.step fsChrSHARP = (s.skip .comment, []) := by
      simp only [LexState.step, hm]
      rfl
    obtain ⟨s₁, h₁, hs₁⟩ :=
      readsOn_comment hbody (s := s.skip .comment) ⟨rfl, hs.escaped, hs.dollar⟩
    have hend := ReadsOn.quiet hs₁.mode (by simp) (LexState.stepComment_lf hs₁.mode)
    have hopen := ReadsOn.quiet hm (by simp) hsharp
    exact ⟨_, h.append (hopen.append (h₁.append hend)), rfl, hs₁.escaped, hs₁.dollar⟩
  | @quoted _ _ q body _ hbody ih =>
    obtain ⟨s, h, hs⟩ := ih
    obtain ⟨s₁, h₁, hm, he⟩ := hbody.readsOn (s := s.opens (.quote q) false s.dollar []) rfl rfl
    have hgap : s.mode = .gap := hs.mode
    have hopen := ReadsOn.quiet hgap (by simp) (LexState.stepGap_quote hgap q)
    have hend : s₁.step q.byte = (s₁.finish .closed, [.inl s₁.ended]) := by
      simp only [LexState.step, hm, LexState.stepQuote, he]
      cases q <;> rfl
    have hclose := ReadsOn.one [s₁.ended] (fun hc => by cases hm.symm.trans hc) hend
    exact ⟨_, h.append (hopen.append (h₁.append hclose)), rfl, he, rfl⟩
  | @unquoted _ _ _ _ _ c _ hword hc ih =>
    obtain ⟨s, h, hs⟩ := ih
    obtain ⟨s₁, h₁, hs₁⟩ := hword.readsOn hs
    have hend : s₁.step c = (s₁.finish .gap, [.inl s₁.ended]) := by
      simp only [LexState.step, hs₁.mode, LexState.stepWord, hs₁.escaped]
      simp only [isSpace, Bool.or_eq_true, beq_iff_eq] at hc
      rcases hc with ((rfl | rfl) | rfl) | rfl <;> rfl
    have hclose := ReadsOn.one [s₁.ended] (fun hm => by cases hs₁.mode.symm.trans hm) hend
    exact ⟨_, h.append (h₁.append hclose), rfl, hs₁.escaped, rfl⟩

/-- The bytes before the one that ends a directive. -/
lemma Tiled.readsOn {tokens : List FsStr} {st : Status} {bs : List UInt8} {c : UInt8}
    (h : Tiled tokens st (bs ++ [c])) (g : Nat) :
    ∃ s, ReadsOn (LexState.fresh g) bs s ∧ (s.mode = .closed → Separates c) := by
  generalize hbs : bs ++ [c] = bs' at h
  cases h with
  | ok hp =>
    obtain ⟨rfl, hc⟩ := List.append_inj' hbs rfl
    cases hc
    obtain ⟨s, h, -⟩ := hp.readsOn g
    exact ⟨s, h, fun _ => .inr (.inl rfl)⟩
  | block hp =>
    obtain ⟨rfl, hc⟩ := List.append_inj' hbs rfl
    cases hc
    obtain ⟨s, h, -⟩ := hp.readsOn g
    exact ⟨s, h, fun _ => .inr (.inr rfl)⟩
  | close hp =>
    obtain ⟨rfl, hc⟩ := List.append_inj' hbs rfl
    obtain ⟨s, h, hs⟩ := hp.readsOn g
    exact ⟨s, h, fun hm => by cases hs.mode.symm.trans hm⟩
  | okWord hp hword =>
    rw [← List.append_assoc] at hbs
    obtain ⟨rfl, hc⟩ := List.append_inj' hbs rfl
    obtain ⟨s, h, hs⟩ := hp.readsOn g
    obtain ⟨s₁, h₁, hs₁⟩ := hword.readsOn hs
    exact ⟨s₁, h.append h₁, fun hm => by cases hs₁.mode.symm.trans hm⟩
  | blockWord hp hword =>
    rw [← List.append_assoc] at hbs
    obtain ⟨rfl, hc⟩ := List.append_inj' hbs rfl
    obtain ⟨s, h, hs⟩ := hp.readsOn g
    obtain ⟨s₁, h₁, hs₁⟩ := hword.readsOn hs
    exact ⟨s₁, h.append h₁, fun hm => by cases hs₁.mode.symm.trans hm⟩

lemma quotesEnd_of_tiled {text bs rest : List UInt8} {g : Nat} {c : UInt8} {ws vs : List Word}
    {s s' : LexState} {st st' : Status} {tokens : List FsStr}
    (htiled : Tiled tokens st' (bs ++ [c])) (hdrop : text.drop g = bs ++ c :: rest)
    (hreads : Reads LexState.step (LexState.fresh g) bs s (ws.map .inl))
    (hend : s.step c = (s', vs.map .inl ++ [.inr st])) : QuotesEnd (text.drop g) := by
  intro pre d post hpre hbehind
  obtain ⟨tokens', hpieces⟩ := hbehind
  obtain ⟨s₁, h₁, hclosed⟩ := htiled.readsOn g
  obtain ⟨s₂, h₂, hs₂⟩ := hpieces.readsOn g
  obtain ⟨ws₂, hreads₂⟩ := h₂.reads
  -- The lexer is in one state where both passages have read the same bytes.
  have hsame : bs = pre → c = d → Separates d := by
    rintro rfl rfl
    obtain ⟨ws₁, hreads₁⟩ := h₁.reads
    obtain ⟨rfl, -⟩ := Prod.mk.inj (hreads₁.symm.trans hreads₂)
    exact hclosed hs₂.mode
  rw [hdrop] at hpre
  rcases List.append_eq_append_iff.mp hpre with ⟨mid, rfl, hmid⟩ | ⟨mid, rfl, hmid⟩
  · cases mid with
    | nil =>
      exact hsame (List.append_nil bs).symm (List.cons.inj hmid).1
    | cons e mid =>
      obtain ⟨rfl, -⟩ := List.cons.inj hmid
      -- The directive would have ended before.
      obtain ⟨ws₃, hws₃⟩ := (h₂.at hreads).2
      rw [hend] at hws₃
      obtain ⟨ws₄, ws₅, -, -, h⟩ := List.map_eq_append_iff.mp hws₃.symm
      cases ws₅ <;> simp at h
  · cases mid with
    | nil =>
      exact hsame (List.append_nil pre) (List.cons.inj hmid).1.symm
    | cons e mid =>
      obtain ⟨rfl, -⟩ := List.cons.inj hmid
      exact (h₁.at hreads₂).1 hs₂.mode

/-- A call that reads a directive from one buffer has read the pieces of which its tokens are made
and the byte that ends them, exactly when behind each closing quote there stands white space, a
semicolon or an opening brace. -/
theorem tiled_iff {io : ReadOutcome} {text : List UInt8} {f f' : FsFile} {g : Nat}
    {tokens tokens' : FsArr FsStr} {st : Status} (hf : InBuf text f g)
    (h : fsConfNextToken io f tokens = .ret st f' tokens') (hst : st.isDirective) :
    Tiled tokens'.toList st ((text.drop g).take (f'.pos - g)) ↔ QuotesEnd (text.drop g) := by
  have hends := fsConfNextToken_ends (inBuf_source io text) hf hf.le tokens
  generalize fsConfNextToken io f tokens = r at h hends
  cases hends with
  | undefined => cases h
  | finished =>
    cases h
    cases hst
  | @directive bs ws vs c rest s ts st' f₁ tokens₁ hbs hreads hend _ hws htokens hbuf =>
    obtain ⟨rfl, rfl, rfl⟩ := Taken.ret.inj h.symm
    rw [LexState.fresh_pos] at hbs hend hbuf
    have htake : (text.drop g).take (f'.pos - g) = bs ++ [c] := by
      rw [hbuf.pos, Nat.add_assoc, Nat.add_sub_cancel_left, hbs, List.take_append]
      simp
    have hlist : tokens'.toList = (ws ++ vs).map (wordToken text) := by
      have hmap : (ws ++ vs).mapM (bufToken (fun _ => 0) text)
          = some ((ws ++ vs).map (wordToken text)) :=
        mapM_eq_map_iff.mpr fun w _ => bufToken_zero text w
      rw [htokens, Option.some.inj (hws.symm.trans hmap), FsArr.reset_toList, List.nil_append]
    rw [htake, hlist]
    exact ⟨fun htiled => quotesEnd_of_tiled htiled hbs hreads hend,
      fun hquotes => tiled_of_quotesEnd hquotes hbs hreads hend⟩

/-- A word, a quoted string and a semicolon. -/
theorem tiled_iff_words :
    ∃ f' tokens', fsConfNextToken (fun _ => true) (FsFile.ofBuf (bytes "a \"b\";" ++ [0]) 6)
        (fsAllocArr FsStr 3 tokensCapa_pos) = .ret .ok f' tokens' ∧
      (Tiled tokens'.toList .ok (((bytes "a \"b\";").drop 0).take (f'.pos - 0))
        ↔ QuotesEnd ((bytes "a \"b\";").drop 0)) := by
  have hbuf : InBuf (bytes "a \"b\";") (FsFile.ofBuf (bytes "a \"b\";" ++ [0]) 6) 0 :=
    inBuf_ofBuf rfl
  have hcall : fsConfNextToken (fun _ => true) (FsFile.ofBuf (bytes "a \"b\";" ++ [0]) 6)
      (fsAllocArr FsStr 3 tokensCapa_pos) = .ret .ok _ _ := rfl
  exact ⟨_, _, hcall, tiled_iff hbuf hcall rfl⟩

/-- The letter in `"a"b;` belongs to no token. -/
theorem not_tiled :
    ¬ ∀ (io : ReadOutcome) (text : List UInt8) (f f' : FsFile) (g : Nat)
      (tokens tokens' : FsArr FsStr) (st : Status), InBuf text f g →
        fsConfNextToken io f tokens = .ret st f' tokens' → st.isDirective →
          Tiled tokens'.toList st ((text.drop g).take (f'.pos - g)) := by
  intro h
  have hbuf : InBuf (bytes "\"a\"b;") (FsFile.ofBuf (bytes "\"a\"b;" ++ [0]) 5) 0 :=
    inBuf_ofBuf rfl
  have hcall : fsConfNextToken (fun _ => true) (FsFile.ofBuf (bytes "\"a\"b;" ++ [0]) 5)
      (fsAllocArr FsStr 3 tokensCapa_pos) = .ret .ok _ _ := rfl
  have htiled : Tiled [⟨bytes "a", 2⟩] .ok (bytes "\"a\"b" ++ [fsChrSEM]) :=
    h _ _ _ _ _ _ _ _ hbuf hcall rfl
  have hreads : Reads LexState.step (LexState.fresh 0) (bytes "\"a\"b") _
      ([(⟨0, 1, bytes "a"⟩ : Word)].map .inl) := rfl
  have hquotes : QuotesEnd ((bytes "\"a\"b;").drop 0) :=
    @quotesEnd_of_tiled _ _ [] _ _ _ [] _ _ _ _ _ htiled rfl hreads rfl
  have hbody : QuoteBody .double (bytes "a") := .plain .nil (by decide) (by decide)
  have hbehind : Behind (bytes "\"a\"") := ⟨_, Pieces.nil.quoted hbody⟩
  rcases hquotes (bytes "\"a\"") 98 [fsChrSEM] rfl hbehind with hc | hc | hc
  · exact absurd hc (by decide)
  · exact absurd hc (by decide)
  · exact absurd hc (by decide)

end Folksong
