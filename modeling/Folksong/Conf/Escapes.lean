import Folksong.Conf.Refill
import Folksong.Conf.RoundTrip

/-!
# Escapes

The decode loop copies a token out of the buffer after its allocation has been given its size, and
takes a backslash and the byte behind it for one byte. The scanner leaves a backslash that opens a
word out of it.
-/

namespace Folksong

/-! ### The size of a token -/

/-- The bytes that are taken together with a backslash before them. -/
def isEscaped (d : UInt8) : Bool := (decodeByte fsChrESCAPE d).2 == 2

/-- There is no backslash before such a byte. -/
def EscapeFree (source : List UInt8) : Prop :=
  ∀ d, isEscaped d → ¬ [fsChrESCAPE, d] <:+: source

lemma escapeFree_singleton (c : UInt8) : EscapeFree [c] := by
  intro d _ hinfix
  have hlen := hinfix.length_le
  simp at hlen

lemma escapeFree_cons {c d : UInt8} {source : List UInt8} (h : (decodeByte c d).2 ≠ 2) :
    EscapeFree (c :: d :: source) ↔ EscapeFree (d :: source) := by
  refine forall₂_congr fun e he => not_congr ?_
  rw [List.infix_cons_iff]
  refine or_iff_right fun hprefix => h ?_
  obtain ⟨hc, hprefix⟩ := List.cons_prefix_cons.mp hprefix
  obtain ⟨hd, -⟩ := List.cons_prefix_cons.mp hprefix
  rw [← hc, ← hd]
  exact eq_of_beq he

lemma not_escapeFree {c d : UInt8} {source : List UInt8} (h : (decodeByte c d).2 = 2) :
    ¬ EscapeFree (c :: d :: source) := by
  intro hfree
  have hc : c = fsChrESCAPE := by
    by_contra hc
    simp [decodeByte, hc] at h
  subst hc
  exact hfree d (beq_iff_eq.mpr h) (List.prefix_append [fsChrESCAPE, d] source).isInfix

/-- The decode loop stores a byte for each byte it reads exactly when it meets no escape. -/
lemma decode_length_iff {mem : List UInt8} {n : Nat} (hn : n ≤ mem.length) :
    (decode mem n).length = n ↔ EscapeFree (mem.take n) := by
  fun_induction decode mem n with
  | case1 => exact iff_of_true rfl fun d _ hinfix => by simp at hinfix
  | case2 => simp at hn
  | case3 c n =>
    obtain rfl : n = 0 := by simpa using hn
    exact iff_of_true rfl (escapeFree_singleton c)
  | case4 c d mem n h ih =>
    cases n with
    | zero => exact iff_of_true (by simp [decode]) (escapeFree_singleton c)
    | succ n =>
      have hle := decode_length_le mem n
      refine iff_of_false (fun hlen => ?_) (not_escapeFree h)
      simp only [List.length_cons, Nat.add_sub_cancel] at hlen
      omega
  | case5 c d mem n h ih =>
    rw [List.length_cons, Nat.add_left_inj, ih (Nat.le_of_succ_le_succ hn)]
    cases n with
    | zero => exact iff_of_true (fun d _ hinfix => by simp at hinfix) (escapeFree_singleton c)
    | succ n => exact (escapeFree_cons h).symm

/-- What a token is taken from: the bytes in the buffer between `token_start` and the delimiter. -/
structure Cut where
  mem : List UInt8
  tokenStart : Nat
  delim : Nat

def Cut.source (cut : Cut) : List UInt8 :=
  (cut.mem.drop cut.tokenStart).take (cut.delim - cut.tokenStart)

/-- What the turns of the loop of `fs_conf_next_token` take tokens from. A refill may have stored
over the bytes of a word, so each range goes with the buffer it is taken from. -/
def cutsLoop (io : ReadOutcome) : Nat → Scan → FsFile → List Cut
  | 0, _, _ => []
  | fuel + 1, s, f =>
    match refill io f with
    | .done => []
    | .failed => []
    | .go f =>
      match f.bufLshift with
      | none => []
      | some (chr, f) =>
        match scanByte s chr f.pos with
        | .next s => cutsLoop io fuel s (f.countLine chr)
        | .ret _ => []
        | .found s =>
          ⟨f.mem, s.tokenStart, f.pos - 1⟩ ::
            if chr == fsChrSEM || chr == fsChrLCBRACK then []
            else cutsLoop io fuel s (f.countLine chr)

/-- What the tokens of a call are taken from. -/
def cuts (io : ReadOutcome) (f : FsFile) : List Cut := cutsLoop io (f.remaining + 1) Scan.start f

/-- The token of a cut. -/
def Cut.token (cut : Cut) : FsStr :=
  ⟨decode (cut.mem.drop cut.tokenStart) (cut.delim - cut.tokenStart),
    cut.delim - cut.tokenStart + 1⟩

/-- The delimiter has been read from the buffer. -/
def Cut.Read (cut : Cut) : Prop := cut.tokenStart ≤ cut.delim ∧ cut.delim < cut.mem.length

/-- The tokens of the loop are those of its cuts. -/
lemma nextTokenLoop_cuts (io : ReadOutcome) :
    ∀ (n : Nat) (s : Scan) (f : FsFile) (tokens : FsArr FsStr) {st : Status} {f' : FsFile}
      {tokens' : FsArr FsStr}, nextTokenLoop io n s f tokens = .ret st f' tokens' →
      tokens'.toList = tokens.toList ++ (cutsLoop io n s f).map Cut.token ∧
        ∀ cut ∈ cutsLoop io n s f, cut.Read := by
  intro n
  induction n with
  | zero => exact fun _ _ _ _ _ _ h => by cases h
  | succ n ih =>
    intro s f tokens st f' tokens' h
    rw [nextTokenLoop] at h
    rw [cutsLoop]
    cases hrefill : refill io f with
    | done =>
      rw [hrefill] at h
      cases h
      simp
    | failed =>
      rw [hrefill] at h
      cases h
      simp
    | go f₁ =>
      rw [hrefill] at h
      dsimp only at h ⊢
      cases hshift : f₁.bufLshift with
      | none =>
        rw [hshift] at h
        cases h
      | some r =>
        obtain ⟨chr, f₂⟩ := r
        rw [hshift] at h
        dsimp only at h ⊢
        cases hbyte : scanByte s chr f₂.pos with
        | next s' =>
          rw [hbyte] at h
          exact ih _ _ _ h
        | ret st' =>
          rw [hbyte] at h
          cases h
          simp
        | found s' =>
          rw [hbyte] at h
          dsimp only at h ⊢
          obtain ⟨c, hget, heq⟩ := Option.map_eq_some_iff.mp hshift
          cases heq
          have hlt : f₁.pos < f₁.mem.length := (List.getElem?_eq_some_iff.mp hget).1
          rw [takeToken] at h
          split_ifs at h with hle hsem hblock
          · cases h
            simpa [hsem, Cut.token, Cut.Read] using ⟨hle, hlt⟩
          · cases h
            simpa [hblock, Cut.token, Cut.Read] using ⟨hle, hlt⟩
          · obtain ⟨htokens, hread⟩ := ih _ _ _ h
            rw [if_neg (by simp [hsem, hblock])]
            refine ⟨?_, List.forall_mem_cons.mpr ⟨⟨hle, hlt⟩, hread⟩⟩
            rw [htokens, FsArr.push_toList, List.map_cons, List.append_assoc]
            rfl

/-- The sizes of the tokens of a call, told by what they are taken from: each is one more than the
length of its text exactly when there is no escape in any source. -/
theorem size_iff_escapeFree {io : ReadOutcome} {f f' : FsFile} {tokens tokens' : FsArr FsStr}
    {st : Status} (h : fsConfNextToken io f tokens = .ret st f' tokens') :
    (∀ token ∈ tokens'.toList, token.size = token.text.length + 1) ↔
      ∀ cut ∈ cuts io f, EscapeFree cut.source := by
  obtain ⟨htokens, hread⟩ := nextTokenLoop_cuts io _ _ _ _ h
  rw [htokens, FsArr.reset_toList, List.nil_append, List.forall_mem_map]
  refine forall₂_congr fun cut hcut => ?_
  obtain ⟨hle, hlt⟩ := hread cut hcut
  rw [Cut.source, ← decode_length_iff (by simp; omega), Cut.token, Nat.add_left_inj]
  exact eq_comm

/-- Three words, and an escape in the second. -/
def escapedText : List UInt8 := bytes "a \"b\\\"\" c;"

theorem size_iff_escapeFree_escaped :
    ∃ f' tokens', fsConfNextToken (fun _ => true)
        (FsFile.ofBuf (escapedText ++ [0]) escapedText.length)
        (fsAllocArr FsStr 3 tokensCapa_pos) = .ret .ok f' tokens' ∧
      (cuts (fun _ => true) (FsFile.ofBuf (escapedText ++ [0]) escapedText.length)).map Cut.source
        = [bytes "a", bytes "b\\\"", bytes "c"] ∧
      ((∀ token ∈ tokens'.toList, token.size = token.text.length + 1) ↔
        ∀ cut ∈ cuts (fun _ => true) (FsFile.ofBuf (escapedText ++ [0]) escapedText.length),
          EscapeFree cut.source) :=
  ⟨_, _, rfl, by decide, size_iff_escapeFree rfl⟩

/-- The token of `"\""` is one byte long and has the size of one with two bytes. -/
theorem not_size_eq :
    ¬ ∀ (io : ReadOutcome) (f f' : FsFile) (tokens tokens' : FsArr FsStr) (st : Status),
      fsConfNextToken io f tokens = .ret st f' tokens' →
        ∀ token ∈ tokens'.toList, token.size = token.text.length + 1 := by
  intro h
  have hsize := h (fun _ => true) (FsFile.ofBuf (bytes "\"\\\"\";" ++ [0]) 5) _
    (fsAllocArr FsStr 3 tokensCapa_pos) _ _ rfl
  exact absurd (hsize ⟨bytes "\"", 3⟩ (by decide)) (by decide)

/-! ### Unquoted words -/

/-- A byte as it is written in an unquoted word. -/
def escapeByte (c : UInt8) : List UInt8 :=
  if c = fsChrDQUO ∨ c = fsChrSQUO ∨ c = fsChrESCAPE then [fsChrESCAPE, c]
  else if c = fsChrTAB then [fsChrESCAPE, 116]
  else if c = fsChrCR then [fsChrESCAPE, 114]
  else if c = fsChrLF then [fsChrESCAPE, 110]
  else [c]

def escapeWord (s : List UInt8) : List UInt8 := s.flatMap escapeByte

/-- A string that is written so: it is not empty, and has no byte that would have to be quoted. -/
structure WordText (s : List UInt8) : Prop where
  ne : s ≠ []
  bytes : ∀ c ∈ s, c ∉ [0, fsChrSPACE, fsChrSEM, fsChrLCBRACK, fsChrRCBRACK, fsChrSHARP,
    fsChrDOLLAR]

/-- The first byte that is no backslash is not white space, and no letter that is taken together
with a backslash if there is one before it. -/
def StartsPlain (s : List UInt8) : Prop :=
  ∀ c ∈ (s.dropWhile (· == fsChrESCAPE)).head?,
    c ∉ [fsChrTAB, fsChrCR, fsChrLF] ∧ (s.head? = some fsChrESCAPE → c ∉ [116, 114, 110])

/-- How a byte is written. -/
inductive EscapedAs (c : UInt8) : List UInt8 → Prop where
  | plain : c ∉ [fsChrDQUO, fsChrSQUO, fsChrESCAPE, fsChrTAB, fsChrCR, fsChrLF] → EscapedAs c [c]
  | itself : c ∈ [fsChrDQUO, fsChrSQUO, fsChrESCAPE] → EscapedAs c [fsChrESCAPE, c]
  | letter {d} : (c, d) ∈ [(fsChrTAB, 116), (fsChrCR, 114), (fsChrLF, 110)] →
      EscapedAs c [fsChrESCAPE, d]

lemma escapedAs (c : UInt8) : EscapedAs c (escapeByte c) := by
  rw [escapeByte]
  split_ifs with hself htab hcr hlf
  · exact .itself (by simpa using hself)
  · exact .letter (by simp [htab])
  · exact .letter (by simp [hcr])
  · exact .letter (by simp [hlf])
  · exact .plain (by simp_all)

@[simp] lemma escapeWord_nil : escapeWord [] = [] := rfl

lemma escapeWord_cons (c : UInt8) (s : List UInt8) :
    escapeWord (c :: s) = escapeByte c ++ escapeWord s := rfl

lemma decodeByte_itself {c : UInt8} (h : c ∈ [fsChrDQUO, fsChrSQUO, fsChrESCAPE]) :
    decodeByte fsChrESCAPE c = (c, 2) := by
  simp only [List.mem_cons, List.not_mem_nil, or_false] at h
  rcases h with rfl | rfl | rfl <;> rfl

lemma decodeByte_letter {c d : UInt8}
    (h : (c, d) ∈ [(fsChrTAB, 116), (fsChrCR, 114), (fsChrLF, 110)]) :
    decodeByte fsChrESCAPE d = (c, 2) := by
  simp only [List.mem_cons, List.not_mem_nil, or_false, Prod.mk.injEq] at h
  rcases h with ⟨rfl, rfl⟩ | ⟨rfl, rfl⟩ | ⟨rfl, rfl⟩ <;> rfl

lemma letter_ne {c d : UInt8}
    (h : (c, d) ∈ [(fsChrTAB, 116), (fsChrCR, 114), (fsChrLF, 110)]) :
    c ∈ [fsChrTAB, fsChrCR, fsChrLF] ∧ c ≠ fsChrESCAPE ∧ d ≠ fsChrESCAPE ∧ d ≠ c := by
  simp only [List.mem_cons, List.not_mem_nil, or_false, Prod.mk.injEq] at h
  rcases h with ⟨rfl, rfl⟩ | ⟨rfl, rfl⟩ | ⟨rfl, rfl⟩ <;> decide

lemma decode_pair {c d : UInt8} (h : decodeByte fsChrESCAPE d = (c, 2)) (mem : List UInt8)
    (n : Nat) : decode (fsChrESCAPE :: d :: mem) (n + 2) = c :: decode mem n := by
  rw [decode_escape mem n (by rw [h]), h]

/-- Decoding takes a byte back, whatever follows it. -/
lemma decode_escapeByte (c : UInt8) (mem : List UInt8) (n : Nat) :
    decode (escapeByte c ++ mem) ((escapeByte c).length + n) = c :: decode mem n := by
  have h := escapedAs c
  generalize escapeByte c = w at h ⊢
  cases h with
  | plain hc =>
    rw [List.length_singleton, Nat.add_comm]
    exact decode_plain (fun h => hc (by simp [h])) mem n
  | itself hc =>
    rw [show [fsChrESCAPE, c].length + n = n + 2 from Nat.add_comm _ _]
    exact decode_pair (decodeByte_itself hc) mem n
  | @letter d hd =>
    rw [show [fsChrESCAPE, d].length + n = n + 2 from Nat.add_comm _ _]
    exact decode_pair (decodeByte_letter hd) mem n

/-- Decoding takes a word back that has kept its first byte. -/
lemma decode_escapeWord (s mem : List UInt8) :
    decode (escapeWord s ++ mem) (escapeWord s).length = s := by
  induction s with
  | nil => exact decode.eq_1 mem
  | cons c s ih =>
    rw [escapeWord_cons, List.append_assoc, List.length_append, decode_escapeByte, ih]

lemma head_dropWhile {c : UInt8} (h : c ≠ fsChrESCAPE) (s : List UInt8) :
    ((c :: s).dropWhile (· == fsChrESCAPE)).head? = some c := by
  simp [h]

/-- A backslash in front of a byte that is taken as a letter. -/
lemma decode_letter_ne {d : UInt8} (h : d ∈ [116, 114, 110]) (mem : List UInt8) (n : Nat)
    (s : List UInt8) : decode (fsChrESCAPE :: d :: mem) (n + 2) ≠ fsChrESCAPE :: s := by
  simp only [List.mem_cons, List.not_mem_nil, or_false] at h
  rcases h with rfl | rfl | rfl <;> rw [decode_escape mem n rfl] <;> exact fun h => by cases h

/-- A backslash in front of a byte that is not taken together with it. -/
lemma decode_backslash {d : UInt8}
    (h : d ∉ [fsChrDQUO, fsChrSQUO, fsChrESCAPE, 116, 114, 110]) (mem : List UInt8) (n : Nat) :
    decode (fsChrESCAPE :: d :: mem) (n + 1) = fsChrESCAPE :: decode (d :: mem) n := by
  simp only [List.mem_cons, List.not_mem_nil, or_false, not_or] at h
  have hd : decodeByte fsChrESCAPE d = (fsChrESCAPE, 1) := by simp [decodeByte, h]
  rw [decode, if_neg (by rw [hd]; decide), hd]

/-- A backslash in front of a written word stays one when the first byte of the word that is no
backslash allows it. -/
lemma decode_escape_escapeWord (s mem : List UInt8) :
    decode (fsChrESCAPE :: (escapeWord s ++ fsChrSEM :: mem)) ((escapeWord s).length + 1)
        = fsChrESCAPE :: s ↔
      ∀ c ∈ (s.dropWhile (· == fsChrESCAPE)).head?,
        c ∉ [fsChrTAB, fsChrCR, fsChrLF] ∧ c ∉ [116, 114, 110] := by
  induction s with
  | nil => exact iff_of_true (decode_backslash (by decide) mem 0) (by simp)
  | cons c s ih =>
    have h := escapedAs c
    rw [escapeWord_cons]
    generalize escapeByte c = w at h ⊢
    cases h with
    | plain hc =>
      have hesc : c ≠ fsChrESCAPE := fun h => hc (by simp [h])
      rw [head_dropWhile hesc]
      by_cases ht : c ∈ [116, 114, 110]
      · refine iff_of_false ?_ fun h => (h c rfl).2 ht
        exact decode_letter_ne ht (escapeWord s ++ fsChrSEM :: mem) (escapeWord s).length (c :: s)
      · refine iff_of_true ?_ (by simp_all)
        have hback := decode_backslash (d := c) (by simp_all) (escapeWord s ++ fsChrSEM :: mem)
          ((escapeWord s).length + 1)
        rw [decode_plain hesc, decode_escapeWord] at hback
        exact hback
    | itself hc =>
      -- The backslash in front and the one of the pair are taken together.
      have hpair := decode_pair (decodeByte_itself (c := fsChrESCAPE) (by simp))
        (c :: (escapeWord s ++ fsChrSEM :: mem)) ((escapeWord s).length + 1)
      refine (Eq.congr_left hpair).trans ((List.cons_inj_right _).trans ?_)
      by_cases hesc : c = fsChrESCAPE
      · rw [hesc, ih]
        simp
      · rw [head_dropWhile hesc, decode_plain hesc, decode_escapeWord]
        simp only [List.mem_cons, List.not_mem_nil, or_false] at hc
        apply iff_of_true rfl
        rcases hc with rfl | rfl | rfl <;> simp <;> decide
    | @letter d hd =>
      have hpair := decode_pair (decodeByte_itself (c := fsChrESCAPE) (by simp))
        (d :: (escapeWord s ++ fsChrSEM :: mem)) ((escapeWord s).length + 1)
      refine (Eq.congr_left hpair).trans ((List.cons_inj_right _).trans ?_)
      obtain ⟨hmem, hesc, hd', hdc⟩ := letter_ne hd
      rw [head_dropWhile hesc, decode_plain hd']
      exact iff_of_false (fun h => hdc (List.cons.inj h).1) fun h => (h c rfl).1 hmem

/-- What a word is taken from: its written bytes, without a backslash that begins them. -/
def openedRaw (s : List UInt8) : List UInt8 :=
  match escapeWord s with
  | [] => []
  | c :: w => if c == fsChrESCAPE then w else c :: w

lemma escapeWord_eq (s : List UInt8) :
    escapeWord s = openedRaw s ∨ escapeWord s = fsChrESCAPE :: openedRaw s := by
  rw [openedRaw]
  cases escapeWord s with
  | nil => exact .inl rfl
  | cons c w =>
    by_cases hc : c = fsChrESCAPE
    · simp [hc]
    · simp [hc]

lemma openedRaw_suffix (s : List UInt8) : openedRaw s <:+ escapeWord s := by
  rcases escapeWord_eq s with h | h
  · exact h ▸ List.suffix_refl _
  · exact h ▸ List.suffix_cons fsChrESCAPE _

/-- The bytes that are left of a word give the word back exactly when it starts plain. -/
lemma decode_openedRaw {s : List UInt8} (hs : WordText s) (mem : List UInt8) :
    decode (openedRaw s ++ fsChrSEM :: mem) (openedRaw s).length = s ↔ StartsPlain s := by
  obtain ⟨c, s, rfl⟩ := List.exists_cons_of_ne_nil hs.ne
  have h := escapedAs c
  rw [openedRaw, escapeWord_cons, StartsPlain]
  generalize escapeByte c = w at h ⊢
  cases h with
  | plain hc =>
    have hesc : c ≠ fsChrESCAPE := fun h => hc (by simp [h])
    rw [head_dropWhile hesc]
    simp only [List.nil_append, beq_iff_eq, hesc, if_false, List.cons_append,
      List.length_cons]
    rw [decode_plain hesc, decode_escapeWord]
    exact iff_of_true rfl (by simp_all)
  | itself hc =>
    simp only [List.cons_append, List.nil_append, beq_self_eq_true, if_true, List.length_cons]
    by_cases hesc : c = fsChrESCAPE
    · subst hesc
      rw [decode_escape_escapeWord]
      simp
    · rw [head_dropWhile hesc, decode_plain hesc, decode_escapeWord]
      simp only [List.mem_cons, List.not_mem_nil, or_false] at hc
      apply iff_of_true rfl
      rcases hc with rfl | rfl | rfl <;> simp <;> decide
  | @letter d hd =>
    obtain ⟨hmem, hesc, hd', hdc⟩ := letter_ne hd
    simp only [List.cons_append, List.nil_append, beq_self_eq_true, if_true, List.length_cons]
    rw [head_dropWhile hesc, decode_plain hd']
    exact iff_of_false (fun h => hdc (List.cons.inj h).1) fun h => (h c rfl).1 hmem

/-- The bytes that a word which is not quoted cannot hold. -/
lemma plain_of_wordText {c : UInt8}
    (h : c ∉ [0, fsChrSPACE, fsChrSEM, fsChrLCBRACK, fsChrRCBRACK, fsChrSHARP, fsChrDOLLAR])
    (hc : c ∉ [fsChrDQUO, fsChrSQUO, fsChrESCAPE, fsChrTAB, fsChrCR, fsChrLF]) :
    isSpace c = false ∧ ∀ d ∈ [fsChrSEM, fsChrLCBRACK, fsChrRCBRACK, fsChrSHARP, fsChrESCAPE,
      fsChrDQUO, fsChrSQUO, fsChrDOLLAR], (c == d) = false := by
  simp_all [isSpace]

namespace LexState

open Mealy

/-- An unquoted word is open, with no escape. -/
def unquoted (pos opened : Nat) (raw : List UInt8) : LexState :=
  ⟨.word, false, false, pos, opened, raw⟩

lemma reads_escapeByte {c : UInt8}
    (h : c ∉ [0, fsChrSPACE, fsChrSEM, fsChrLCBRACK, fsChrRCBRACK, fsChrSHARP, fsChrDOLLAR])
    (pos opened : Nat) (raw : List UInt8) :
    Reads step (unquoted pos opened raw) (escapeByte c)
      (unquoted (pos + (escapeByte c).length) opened (raw ++ escapeByte c)) [] := by
  have hw := escapedAs c
  generalize escapeByte c = w at hw ⊢
  -- A backslash takes the byte behind it into the word.
  have hpair : ∀ d, Reads step (unquoted pos opened raw) [fsChrESCAPE, d]
      (unquoted (pos + 2) opened (raw ++ [fsChrESCAPE, d])) [] := by
    intro d
    have h₁ : step (unquoted pos opened raw) fsChrESCAPE
        = ((unquoted pos opened raw).grow fsChrESCAPE true false, []) := rfl
    refine Reads.cons h₁ (Reads.one ?_)
    simp [step, grow, unquoted, stepWord]
  cases hw with
  | plain hc =>
    obtain ⟨hspace, hne⟩ := plain_of_wordText h hc
    simp only [List.forall_mem_cons] at hne
    apply Reads.one
    simp [step, unquoted, stepWord, grow, hspace, hne]
  | itself => exact hpair c
  | letter => exact hpair _

lemma reads_escapeWord {s : List UInt8}
    (h : ∀ c ∈ s, c ∉ [0, fsChrSPACE, fsChrSEM, fsChrLCBRACK, fsChrRCBRACK, fsChrSHARP,
      fsChrDOLLAR]) (pos opened : Nat) (raw : List UInt8) :
    Reads step (unquoted pos opened raw) (escapeWord s)
      (unquoted (pos + (escapeWord s).length) opened (raw ++ escapeWord s)) [] := by
  induction s generalizing pos raw with
  | nil => simpa using Reads.nil (unquoted pos opened raw)
  | cons c s ih =>
    rw [List.forall_mem_cons] at h
    have := (reads_escapeByte h.1 pos opened raw).append (ih h.2 _ _)
    rwa [List.append_assoc, Nat.add_assoc, ← List.length_append, ← escapeWord_cons] at this

/-- A word is opened by its first byte, which it keeps if that is no backslash. -/
lemma reads_open {s : List UInt8} (hs : WordText s) (g : Nat) :
    Reads step (fresh g) (escapeWord s)
      (unquoted (g + (escapeWord s).length) g (openedRaw s)) [] := by
  obtain ⟨c, s, rfl⟩ := List.exists_cons_of_ne_nil hs.ne
  obtain ⟨hbyte, hbytes⟩ := List.forall_mem_cons.mp hs.bytes
  have hw := escapedAs c
  rw [openedRaw, escapeWord_cons]
  generalize escapeByte c = w at hw ⊢
  have hpair : ∀ d, Reads step (fresh g) (fsChrESCAPE :: d :: escapeWord s)
      (unquoted (g + (escapeWord s).length + 2) g (d :: escapeWord s)) [] := by
    intro d
    have h₁ : step (fresh g) fsChrESCAPE = ((fresh g).opens .word true false [], []) := rfl
    have h₂ : step ((fresh g).opens .word true false []) d = (unquoted (g + 2) g [d], []) := by
      simp [step, opens, unquoted, stepWord, grow, fresh]
    have := Reads.cons h₁ (Reads.cons h₂ (reads_escapeWord hbytes (g + 2) g [d]))
    rwa [Nat.add_right_comm] at this
  cases hw with
  | plain hc =>
    obtain ⟨hspace, hne⟩ := plain_of_wordText hbyte hc
    simp only [List.forall_mem_cons] at hne
    have hopen : step (fresh g) c = (unquoted (g + 1) g [c], []) := by
      simp [step, fresh, unquoted, stepGap, opens, hspace, hne]
    have := Reads.cons hopen (reads_escapeWord hbytes (g + 1) g [c])
    rw [Nat.add_right_comm] at this
    simpa [hne, Nat.add_assoc] using this
  | itself => simpa [Nat.add_assoc] using hpair c
  | letter => simpa [Nat.add_assoc] using hpair _

end LexState

/-- The word that is read where `s` is written without quotes at position `g`. -/
def unquotedWord (s : List UInt8) (g : Nat) : Word :=
  ⟨g, g + (escapeWord s).length - (openedRaw s).length, openedRaw s⟩

lemma reads_unquotedWord {s : List UInt8} (hs : WordText s) (g : Nat) :
    ∃ s', Mealy.Reads LexState.step (LexState.fresh g) (escapeWord s ++ [fsChrSEM]) s'
      [.inl (unquotedWord s g), .inr .ok] :=
  ⟨_, (LexState.reads_open hs g).append (Mealy.Reads.one rfl)⟩

lemma unquotedWord_stop (s : List UInt8) (g : Nat) :
    (unquotedWord s g).stop = g + (escapeWord s).length := by
  have hle := (openedRaw_suffix s).length_le
  simp only [Word.stop, unquotedWord]
  omega

lemma drop_unquotedWord {text s mem : List UInt8} {g : Nat}
    (h : text.drop g = escapeWord s ++ mem) :
    text.drop (unquotedWord s g).start = openedRaw s ++ mem := by
  have hle := (openedRaw_suffix s).length_le
  have hstart : (unquotedWord s g).start
      = g + ((escapeWord s).length - (openedRaw s).length) := by
    simp only [unquotedWord]
    omega
  rw [hstart, ← List.drop_drop, h, List.drop_append_of_le_length (Nat.sub_le _ _),
    ← List.suffix_iff_eq_drop.mp (openedRaw_suffix s)]

/-! ### Words that are cut short -/

/-- One byte more is one byte more in the token, or none. -/
lemma decode_length_cons (c : UInt8) {mem : List UInt8} {n : Nat} (hn : n ≤ mem.length) :
    (decode mem n).length ≤ (decode (c :: mem) (n + 1)).length ∧
      (decode (c :: mem) (n + 1)).length ≤ (decode mem n).length + 1 := by
  induction mem generalizing c n with
  | nil =>
    obtain rfl : n = 0 := by simpa using hn
    simp [decode]
  | cons d mem ih =>
    rw [decode.eq_4]
    split_ifs
    · cases n with
      | zero => simp [decode]
      | succ n =>
        obtain ⟨h₁, h₂⟩ := ih d (Nat.le_of_succ_le_succ hn)
        simp only [List.length_cons, Nat.add_sub_cancel]
        omega
    · simp

/-- A token that has lost two bytes of its source is shorter. -/
lemma decode_length_drop_lt {mem : List UInt8} {n k : Nat} (hk : 2 ≤ k) (hkn : k ≤ n)
    (hn : n ≤ mem.length) : (decode (mem.drop k) (n - k)).length < (decode mem n).length := by
  have hle : ∀ (k : Nat) {mem : List UInt8} {n : Nat}, k ≤ n → n ≤ mem.length →
      (decode (mem.drop k) (n - k)).length ≤ (decode mem n).length := by
    intro k
    induction k with
    | zero => exact fun _ _ => le_rfl
    | succ k ih =>
      intro mem n hkn hn
      obtain ⟨m, rfl⟩ : ∃ m, n = m + 1 := ⟨n - 1, by omega⟩
      obtain ⟨c, mem, rfl⟩ := List.exists_cons_of_ne_nil
        (List.ne_nil_of_length_pos (l := mem) (by omega))
      rw [List.drop_succ_cons, Nat.add_sub_add_right]
      have hm : m ≤ mem.length := Nat.le_of_succ_le_succ hn
      exact (ih (Nat.le_of_succ_le_succ hkn) hm).trans (decode_length_cons c hm).1
  obtain ⟨k, rfl⟩ : ∃ j, k = j + 2 := ⟨k - 2, by omega⟩
  obtain ⟨n, rfl⟩ : ∃ m, n = m + 2 := ⟨n - 2, by omega⟩
  obtain ⟨c, mem, rfl⟩ := List.exists_cons_of_ne_nil
    (List.ne_nil_of_length_pos (l := mem) (by omega))
  obtain ⟨d, mem, rfl⟩ := List.exists_cons_of_ne_nil
    (List.ne_nil_of_length_pos (l := mem) (by simp at hn; omega))
  have hmem : n ≤ mem.length := Nat.le_of_succ_le_succ (Nat.le_of_succ_le_succ hn)
  rw [List.drop_succ_cons, List.drop_succ_cons, Nat.add_sub_add_right]
  apply (hle k (Nat.le_of_add_le_add_right hkn) hmem).trans_lt
  rw [decode.eq_4]
  split_ifs
  · simp
  · have := (decode_length_cons d hmem).1
    simp only [List.length_cons]
    omega

/-- What is left of a word is no longer than the word. -/
lemma decode_openedRaw_length_le (s mem : List UInt8) :
    (decode (openedRaw s ++ mem) (openedRaw s).length).length ≤ s.length := by
  have h := decode_escapeWord s mem
  rcases escapeWord_eq s with heq | heq
  · rw [heq] at h
    rw [h]
  · rw [heq] at h
    have hle := (@decode_length_cons fsChrESCAPE (openedRaw s ++ mem) (openedRaw s).length
      (by simp)).1
    exact hle.trans_eq (congrArg List.length h)

/-- A word that is taken from two loads is taken too short. -/
lemma bufToken_text_length_lt {text : List UInt8} {w : Word} (hw : w.In text)
    (hload : ¬ w.InOneLoad) {token : FsStr} (h : bufToken loadBase text w = some token) :
    token.text.length < (wordToken text w).text.length := by
  obtain ⟨pre, c, rest, htext, hstart, hopen, -⟩ := hw
  have hlen : w.raw.length ≤ (text.drop w.start).length := by
    rw [htext, hstart, List.append_assoc, List.drop_left, List.length_append]
    exact Nat.le_add_right _ _
  have hstop : w.stop = w.start + w.raw.length := rfl
  have hlo := loadBase_le w.opened
  have hls := loadBase_le w.stop
  have hbase : loadBase w.opened + fsConfPayloadBufferSize ≤ loadBase w.stop := by
    have hle : w.opened / fsConfPayloadBufferSize ≤ w.stop / fsConfPayloadBufferSize :=
      Nat.div_le_div_right (by omega)
    rw [loadBase, loadBase, ← Nat.succ_mul]
    exact Nat.mul_le_mul_right _ (lt_of_le_of_ne hle hload)
  have hsize : 2 ≤ fsConfPayloadBufferSize := by decide
  simp only [bufToken, takeToken] at h
  split_ifs at h with hle
  obtain rfl := Option.some.inj h
  have hdrop : (text.drop (loadBase w.stop)).drop (w.start - loadBase w.opened)
      = (text.drop w.start).drop (loadBase w.stop - loadBase w.opened) := by
    rw [List.drop_drop, List.drop_drop]
    congr 1
    omega
  have hraw : w.stop - loadBase w.stop - (w.start - loadBase w.opened)
      = w.raw.length - (loadBase w.stop - loadBase w.opened) := by
    omega
  simp only [hdrop, hraw, wordToken]
  exact decode_length_drop_lt (by omega) (by omega) hlen

/-! ### Words as they are delivered -/

/-- The file `f` stands at position `g` of `text`, in one buffer that holds all of it or in the
buffer that is refilled. -/
inductive StandsAt (io : ReadOutcome) (text : List UInt8) (f : FsFile) (g : Nat) : Prop where
  | buf : InBuf text f g → StandsAt io text f g
  | load : (∀ off, io off = true) → Loaded text f g → StandsAt io text f g

/-- The call that reads a word which is not quoted, told by what it takes for the word. -/
lemma fsConfNextToken_unquoted_iff {io : ReadOutcome} {text s rest : List UInt8}
    {base : Nat → Nat} {P : FsFile → Nat → Prop} (hS : Source io text base P) {f : FsFile} {g : Nat}
    (hP : P f g) (hle : g ≤ text.length) (hs : WordText s)
    (htext : text.drop g = escapeWord s ++ fsChrSEM :: rest) (tokens : FsArr FsStr) :
    (∃ f' tokens', fsConfNextToken io f tokens = .ret .ok f' tokens' ∧
        tokens'.toList.map FsStr.text = [s])
      ↔ ∃ token, bufToken base text (unquotedWord s g) = some token ∧ token.text = s := by
  obtain ⟨s', hreads⟩ := reads_unquotedWord hs g
  have hdrop : text.drop g = escapeWord s ++ [fsChrSEM] ++ rest := by simpa using htext
  have hcall : ∀ ts, _ ↔ [unquotedWord s g].mapM (bufToken base text) = some ts :=
    fsConfNextToken_iff hS hP hle hdrop hreads tokens
  constructor
  · rintro ⟨f', tokens', hret, hmap⟩
    have hmapM := (hcall tokens'.toList).mp ⟨f', tokens', hret, rfl⟩
    cases htok : bufToken base text (unquotedWord s g) with
    | none => simp [htok] at hmapM
    | some token =>
      have hlist : [token] = tokens'.toList := by simpa [htok] using hmapM
      rw [← hlist] at hmap
      exact ⟨token, rfl, by simpa using hmap⟩
  · rintro ⟨token, htok, htext⟩
    obtain ⟨f', tokens', hret, hlist⟩ := (hcall [token]).mpr (by simp [htok])
    exact ⟨f', tokens', hret, by simp [hlist, htext]⟩

lemma unquotedWord_in {text s rest : List UInt8} {g : Nat} (hs : WordText s)
    (htext : text.drop g = escapeWord s ++ fsChrSEM :: rest) : (unquotedWord s g).In text := by
  obtain ⟨s', hreads⟩ := reads_unquotedWord hs g
  refine run_words (text.drop g) (LexState.fresh g) (fun h => by cases h) rfl _ ?_
  rw [htext, ← List.singleton_append, ← List.append_assoc, Mealy.run_append, hreads]
  simp

/-- Written without quotes, a string is read as itself exactly when it starts plain and, where the
text comes from a file, its written bytes and the semicolon lie in one load of the buffer. -/
theorem escapes_iff {io : ReadOutcome} {text s rest : List UInt8} {f : FsFile} {g : Nat}
    (hf : StandsAt io text f g) (hs : WordText s)
    (htext : text.drop g = escapeWord s ++ fsChrSEM :: rest) (tokens : FsArr FsStr) :
    (∃ f' tokens', fsConfNextToken io f tokens = .ret .ok f' tokens' ∧
        tokens'.toList.map FsStr.text = [s])
      ↔ StartsPlain s ∧ (f.stSize ≠ 0 → g / fsConfPayloadBufferSize
          = (g + (escapeWord s).length) / fsConfPayloadBufferSize) := by
  have hin := unquotedWord_in hs htext
  have hle : g ≤ text.length := by
    by_contra hge
    rw [List.drop_of_length_le (by omega)] at htext
    simp at htext
  have hdecode : (wordToken text (unquotedWord s g)).text
      = decode (openedRaw s ++ fsChrSEM :: rest) (openedRaw s).length := by
    rw [wordToken, drop_unquotedWord htext]
    rfl
  cases hf with
  | buf hbuf =>
    rw [fsConfNextToken_unquoted_iff (inBuf_source io text) hbuf hle hs htext]
    simp [hdecode, decode_openedRaw hs, hbuf.done]
  | load hio hload =>
    have hsize : f.stSize ≠ 0 := by
      rw [hload.size]
      rintro h
      simp [List.length_eq_zero_iff.mp h] at htext
    have hone : (unquotedWord s g).InOneLoad ↔ g / fsConfPayloadBufferSize
        = (g + (escapeWord s).length) / fsConfPayloadBufferSize := by
      rw [Word.InOneLoad, unquotedWord_stop]
      rfl
    rw [fsConfNextToken_unquoted_iff (loaded_source hio text) hload hle hs htext,
      forall_prop_of_true hsize, ← hone, ← decode_openedRaw hs rest, ← hdecode]
    by_cases hw : (unquotedWord s g).InOneLoad
    · rw [(bufToken_loadBase_iff hin).mpr hw]
      simp [hw]
    · refine iff_of_false ?_ fun h => hw h.2
      rintro ⟨token, htok, rfl⟩
      have hlt := bufToken_text_length_lt hin hw htok
      rw [hdecode] at hlt
      exact absurd (decode_openedRaw_length_le _ _) (Nat.not_le.mpr hlt)

/-- A word with a quote, a tabulator and a backslash in it. -/
theorem escapes_iff_quote :
    WordText (bytes "a\"\t\\") ∧
      ((∃ f' tokens', fsConfNextToken (fun _ => true)
            (FsFile.ofBuf (bytes "a\\\"\\t\\\\;" ++ [0]) 8) (fsAllocArr FsStr 3 tokensCapa_pos)
              = .ret .ok f' tokens' ∧
          tokens'.toList.map FsStr.text = [bytes "a\"\t\\"])
        ↔ StartsPlain (bytes "a\"\t\\") ∧
          ((FsFile.ofBuf (bytes "a\\\"\\t\\\\;" ++ [0]) 8).stSize ≠ 0 →
            0 / fsConfPayloadBufferSize
              = (0 + (escapeWord (bytes "a\"\t\\")).length) / fsConfPayloadBufferSize)) := by
  have hs : WordText (bytes "a\"\t\\") := ⟨by decide, List.forall_iff_forall_mem.mp (by decide)⟩
  have hbuf : InBuf (bytes "a\\\"\\t\\\\;") (FsFile.ofBuf (bytes "a\\\"\\t\\\\;" ++ [0]) 8) 0 :=
    inBuf_ofBuf rfl
  have htext : (bytes "a\\\"\\t\\\\;").drop 0
      = escapeWord (bytes "a\"\t\\") ++ fsChrSEM :: [] := by decide
  exact ⟨hs, escapes_iff (.buf hbuf) hs htext _⟩

/-- A tabulator alone is written as `\t` and read as the letter. -/
theorem not_escapes :
    ¬ ∀ (io : ReadOutcome) (text s rest : List UInt8) (f : FsFile) (g : Nat),
      StandsAt io text f g → WordText s → text.drop g = escapeWord s ++ fsChrSEM :: rest →
        ∀ tokens, ∃ f' tokens', fsConfNextToken io f tokens = .ret .ok f' tokens' ∧
          tokens'.toList.map FsStr.text = [s] := by
  intro h
  have hbuf : InBuf (bytes "\\t;") (FsFile.ofBuf (bytes "\\t;" ++ [0]) 3) 0 := inBuf_ofBuf rfl
  have hs : WordText [fsChrTAB] := ⟨by decide, List.forall_iff_forall_mem.mp (by decide)⟩
  have hread := h (fun _ => true) _ _ [] _ 0 (.buf hbuf) hs rfl (fsAllocArr FsStr 3 tokensCapa_pos)
  obtain ⟨token, htok, htext⟩ := (fsConfNextToken_unquoted_iff
    (inBuf_source (fun _ => true) _) hbuf (Nat.zero_le _) hs rfl _).mp hread
  rw [bufToken_zero] at htok
  obtain rfl := Option.some.inj htok
  exact absurd htext (by decide)

end Folksong
