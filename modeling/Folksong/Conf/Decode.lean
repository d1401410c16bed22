import Folksong.Conf.Tiling

/-!
# The decode loop

`decode` says what the loop that copies a token out of the buffer stores. `decodeLoop` is the loop
itself, with its pointer `src` and the bytes it looks at. It stops right at the delimiter since it
takes a backslash together with the byte behind it where the scanner does.
-/

namespace Folksong

/-- The loop between two turns: `src`, what has been stored through `dst`, and the offsets of the
bytes that have been looked at. -/
structure Decoding where
  src : Nat
  dst : List UInt8
  reads : List Nat
deriving DecidableEq, Repr

/-- One turn. Only behind a backslash it looks at one byte more. -/
def Decoding.turn (mem : List UInt8) (d : Decoding) : Option Decoding :=
  match mem[d.src]? with
  | none => none
  | some c =>
    if c == fsChrESCAPE then
      match mem[d.src + 1]? with
      | none => none
      | some e =>
        some ⟨d.src + (decodeByte c e).2, d.dst ++ [(decodeByte c e).1],
          d.reads ++ [d.src, d.src + 1]⟩
    else some ⟨d.src + 1, d.dst ++ [c], d.reads ++ [d.src]⟩

/-- The loop. A turn moves `src`, so that the bytes up to the delimiter bound the turns. -/
def decodeLoop (mem : List UInt8) (delim : Nat) : Nat → Decoding → Option Decoding
  | 0, d => some d
  | n + 1, d => if d.src < delim then (d.turn mem).bind (decodeLoop mem delim n) else some d

/-- The loop as it is run for a token. -/
def Cut.decoding (cut : Cut) : Option Decoding :=
  decodeLoop cut.mem cut.delim (cut.delim - cut.tokenStart) ⟨cut.tokenStart, [], []⟩

/-- The loop has ended at the delimiter, and has touched no other byte than it may. -/
structure Decoding.Inside (d : Decoding) (cut : Cut) : Prop where
  src : d.src = cut.delim
  reads : ∀ p ∈ d.reads, cut.tokenStart ≤ p ∧ p ≤ cut.delim
  text : d.dst = cut.token.text
  length_le : d.dst.length ≤ cut.delim - cut.tokenStart
  nul : d.dst.length < cut.token.size

/-- The loop stays inside the token. -/
def Cut.DecodesInside (cut : Cut) : Prop :=
  cut.tokenStart ≤ cut.delim ∧ ∃ d, cut.decoding = some d ∧ d.Inside cut

/-! ### Backslashes -/

/-- The last backslash has not been taken together with the byte before it. -/
def pending (raw : List UInt8) : Bool := raw.foldl (fun p c => !p && c == fsChrESCAPE) false

@[simp] lemma pending_append_singleton (raw : List UInt8) (c : UInt8) :
    pending (raw ++ [c]) = (!pending raw && c == fsChrESCAPE) := by
  simp [pending, List.foldl_append]

lemma pending_cons {c : UInt8} (hc : c ≠ fsChrESCAPE) (raw : List UInt8) :
    pending (c :: raw) = pending raw := by
  have hb : (c == fsChrESCAPE) = false := by simpa using hc
  simp [pending, hb]

@[simp] lemma pending_pair (d : UInt8) (raw : List UInt8) :
    pending (fsChrESCAPE :: d :: raw) = pending raw := by
  simp [pending]

lemma isEscaped_iff {d : UInt8} : isEscaped d ↔ (decodeByte fsChrESCAPE d).2 = 2 := beq_iff_eq

lemma not_mem_of_not_isEscaped {d : UInt8} (h : isEscaped d = false) :
    d ∉ [fsChrDQUO, fsChrSQUO, fsChrESCAPE, 116, 114, 110] := by
  rintro hd
  simp only [List.mem_cons, List.not_mem_nil, or_false] at hd
  rcases hd with rfl | rfl | rfl | rfl | rfl | rfl <;> cases h

lemma decodeByte_of_not_isEscaped {d : UInt8} (h : isEscaped d = false) :
    decodeByte fsChrESCAPE d = (fsChrESCAPE, 1) := by
  have hd := not_mem_of_not_isEscaped h
  simp only [List.mem_cons, List.not_mem_nil, or_false, not_or] at hd
  simp [decodeByte, hd]

/-! ### The loop -/

/-- From `src` on the loop stores `out`, looks at nothing behind the delimiter and ends there. -/
def StoresUpTo (mem : List UInt8) (delim n src : Nat) (out : List UInt8) : Prop :=
  ∀ dst reads, ∃ looked,
    decodeLoop mem delim n ⟨src, dst, reads⟩ = some ⟨delim, dst ++ out, reads ++ looked⟩ ∧
      ∀ p ∈ looked, src ≤ p ∧ p ≤ delim

section Loop

variable {mem rest out : List UInt8} {delim n src : Nat} {c e : UInt8}

lemma storesUpTo_nil : StoresUpTo mem src n src [] := by
  intro dst reads
  refine ⟨[], ?_, by simp⟩
  cases n with
  | zero => simp [decodeLoop]
  | succ n => simp [decodeLoop]

lemma StoresUpTo.turn {k : Nat} {looked : List Nat} (h : StoresUpTo mem delim n (src + k) out)
    (hlt : src < delim)
    (hturn : ∀ dst reads, Decoding.turn mem ⟨src, dst, reads⟩
      = some ⟨src + k, dst ++ [c], reads ++ looked⟩)
    (hlooked : ∀ p ∈ looked, src ≤ p ∧ p ≤ delim) :
    StoresUpTo mem delim (n + 1) src (c :: out) := by
  intro dst reads
  obtain ⟨behind, hloop, hbehind⟩ := h (dst ++ [c]) (reads ++ looked)
  refine ⟨looked ++ behind, ?_, ?_⟩
  · rw [decodeLoop, if_pos hlt, hturn, Option.bind_some, hloop]
    simp
  · intro p hp
    rcases List.mem_append.mp hp with hp | hp
    · exact hlooked p hp
    · have hp := hbehind p hp
      omega

lemma turn_plain (hmem : mem.drop src = c :: rest) (hc : c ≠ fsChrESCAPE) (dst : List UInt8)
    (reads : List Nat) :
    Decoding.turn mem ⟨src, dst, reads⟩ = some ⟨src + 1, dst ++ [c], reads ++ [src]⟩ := by
  rw [Decoding.turn, (of_drop_eq_cons hmem).2.1]
  simp [hc]

lemma turn_escape (hmem : mem.drop src = fsChrESCAPE :: e :: rest) (dst : List UInt8)
    (reads : List Nat) :
    Decoding.turn mem ⟨src, dst, reads⟩
      = some ⟨src + (decodeByte fsChrESCAPE e).2, dst ++ [(decodeByte fsChrESCAPE e).1],
          reads ++ [src, src + 1]⟩ := by
  obtain ⟨-, hsrc, hnext⟩ := of_drop_eq_cons hmem
  rw [Decoding.turn, hsrc]
  dsimp only
  rw [(of_drop_eq_cons hnext).2.1]
  rfl

/-- A plain byte, with what comes behind it. -/
lemma StoresUpTo.plain (hmem : mem.drop src = c :: rest) (hc : c ≠ fsChrESCAPE)
    (hlt : src < delim) (h : StoresUpTo mem delim n (src + 1) out) :
    StoresUpTo mem delim (n + 1) src (c :: out) := by
  apply h.turn hlt (turn_plain hmem hc)
  simp
  omega

/-- A backslash that stays, since the byte behind it is not taken together with it. -/
lemma StoresUpTo.backslash (hmem : mem.drop src = fsChrESCAPE :: e :: rest)
    (he : isEscaped e = false) (hlt : src < delim) (h : StoresUpTo mem delim n (src + 1) out) :
    StoresUpTo mem delim (n + 1) src (fsChrESCAPE :: out) := by
  have hturn : ∀ dst reads, Decoding.turn mem ⟨src, dst, reads⟩
      = some ⟨src + 1, dst ++ [fsChrESCAPE], reads ++ [src, src + 1]⟩ := by
    intro dst reads
    rw [turn_escape hmem, decodeByte_of_not_isEscaped he]
  apply h.turn hlt hturn
  simp
  omega

/-- A backslash that is taken together with the byte behind it. -/
lemma StoresUpTo.pair (hmem : mem.drop src = fsChrESCAPE :: e :: rest) (he : isEscaped e)
    (hlt : src + 1 < delim) (h : StoresUpTo mem delim n (src + 2) out) :
    StoresUpTo mem delim (n + 1) src ((decodeByte fsChrESCAPE e).1 :: out) := by
  have hturn : ∀ dst reads, Decoding.turn mem ⟨src, dst, reads⟩
      = some ⟨src + 2, dst ++ [(decodeByte fsChrESCAPE e).1], reads ++ [src, src + 1]⟩ := by
    intro dst reads
    rw [turn_escape hmem, isEscaped_iff.mp he]
  apply h.turn (Nat.lt_of_succ_lt hlt) hturn
  simp
  omega

/-- The loop stores what `decode` says. It ends at the delimiter `e` unless that is taken together
with the backslash before it. -/
lemma storesUpTo_decode (n : Nat) : ∀ {raw : List UInt8} {src : Nat}, raw.length ≤ n →
    mem.drop src = raw ++ e :: rest → pending raw = false ∨ isEscaped e = false →
    StoresUpTo mem (src + raw.length) n src (decode (raw ++ e :: rest) raw.length) := by
  induction n with
  | zero =>
    intro raw src hlen hmem _
    obtain rfl : raw = [] := by simpa using hlen
    simpa [decode] using storesUpTo_nil
  | succ n ih =>
    intro raw src hlen hmem hend
    cases raw with
    | nil => simpa [decode] using storesUpTo_nil
    | cons c raw =>
      have hdelim : src + (c :: raw).length = src + 1 + raw.length := by
        rw [List.length_cons, Nat.add_right_comm, Nat.add_assoc]
      have hlt : src < src + 1 + raw.length := by omega
      replace hlen : raw.length ≤ n := by simpa using hlen
      have hnext := (of_drop_eq_cons hmem).2.2
      rw [hdelim, List.cons_append, List.length_cons]
      by_cases hc : c = fsChrESCAPE
      · subst hc
        cases raw with
        | nil =>
          have he : isEscaped e = false := by simpa [pending] using hend
          rw [List.nil_append, decode_backslash (not_mem_of_not_isEscaped he)]
          apply StoresUpTo.backslash hmem he hlt
          simpa [decode] using storesUpTo_nil
        | cons d raw =>
          by_cases hd : isEscaped d
          · rw [List.cons_append, List.length_cons, decode_escape _ _ (isEscaped_iff.mp hd)]
            rw [pending_pair] at hend
            have hrest := ih (Nat.le_of_succ_le hlen) (of_drop_eq_cons hnext).2.2 hend
            apply StoresUpTo.pair hmem hd (by simp)
            convert hrest using 1
            omega
          · have hd : isEscaped d = false := by simpa using hd
            have hne : d ≠ fsChrESCAPE := by
              rintro rfl
              cases hd
            rw [pending_pair, ← pending_cons hne] at hend
            rw [List.cons_append, decode_backslash (not_mem_of_not_isEscaped hd)]
            exact StoresUpTo.backslash hmem hd hlt (ih hlen hnext hend)
      · rw [pending_cons hc] at hend
        rw [decode_plain hc]
        exact StoresUpTo.plain hmem hc hlt (ih hlen hnext hend)

end Loop

/-! ### Scanner and loop -/

namespace LexState

/-- Between quotes the flag of the scanner is set behind the backslashes that are not taken
together with the byte before them. -/
def Paired (s : LexState) : Prop := ∀ q, s.mode = .quote q → s.escaped = pending s.raw

lemma paired_of_mode {s : LexState} (h : ∀ q, s.mode ≠ .quote q) : s.Paired :=
  fun q hq => absurd hq (h q)

lemma Paired.grow {s : LexState} (h : s.Paired) (c : UInt8) (escaped dollar : Bool)
    (hesc : ∀ q, s.mode = .quote q → escaped = (!s.escaped && c == fsChrESCAPE)) :
    (s.grow c escaped dollar).Paired := by
  intro q hq
  simp only [LexState.grow, pending_append_singleton] at hq ⊢
  rw [hesc q hq, h q hq]

lemma paired_opens (s : LexState) (m : Mode) (dollar : Bool) : (s.opens m false dollar []).Paired :=
  fun _ _ => rfl

lemma paired_ite {p : Prop} [Decidable p] {r r' : LexState × List LexEvent} (h : p → r.1.Paired)
    (h' : ¬ p → r'.1.Paired) : (if p then r else r').1.Paired := by
  by_cases hp : p
  · rw [if_pos hp]
    exact h hp
  · rw [if_neg hp]
    exact h' hp

lemma Paired.step {s : LexState} (h : s.Paired) (c : UInt8) : (s.step c).1.Paired := by
  cases hm : s.mode with
  | gap =>
    have hfresh : (fresh (s.pos + 1)).Paired := paired_of_mode (by simp [fresh])
    have hword : ∀ escaped dollar raw, (s.opens .word escaped dollar raw).Paired :=
      fun _ _ _ => paired_of_mode (by simp [opens])
    simp only [LexState.step, hm, stepGap]
    refine paired_ite (fun _ => paired_of_mode (by simp [skip])) fun _ => ?_
    refine paired_ite (fun _ => hfresh) fun _ => ?_
    refine paired_ite (fun _ => hfresh) fun _ => ?_
    refine paired_ite (fun _ => hfresh) fun _ => ?_
    refine paired_ite (fun _ => paired_of_mode (by simp [skip])) fun _ => ?_
    refine paired_ite (fun _ => hword _ _ _) fun _ => ?_
    refine paired_ite (fun _ => paired_opens _ _ _) fun _ => ?_
    refine paired_ite (fun _ => paired_opens _ _ _) fun _ => ?_
    exact paired_ite (fun _ => hword _ _ _) fun _ => hword _ _ _
  | comment =>
    refine paired_of_mode fun q => ?_
    simp only [LexState.step, hm, stepComment, skip]
    split_ifs <;> simp
  | word =>
    refine paired_of_mode fun q => ?_
    simp only [LexState.step, hm, stepWord]
    split_ifs <;> simp [LexState.grow, hm, finish, fresh]
  | quote q =>
    simp only [LexState.step, hm, stepQuote]
    split_ifs with hesc hbrace hback hdollar hquote
    · exact h.grow c _ _ fun _ _ => by simp [hesc]
    · obtain ⟨rfl, -⟩ : c = fsChrLCBRACK ∧ _ := by simpa using hbrace
      exact h.grow _ _ _ fun _ _ => by simp [fsChrLCBRACK, fsChrESCAPE]
    · exact h.grow c _ _ fun _ _ => by simp [hesc, hback]
    · exact h.grow c _ _ fun _ _ => by simp [hback]
    · exact paired_of_mode fun q => by simp [finish]
    · exact h.grow c _ _ fun _ _ => by simp [hback]
  | closed =>
    refine paired_of_mode fun q => ?_
    simp only [LexState.step, hm, stepClosed]
    split_ifs <;> simp [lose, hm, skip, fresh]

/-- Only a byte behind an open word ends one. -/
lemma inWord_of_ended {s : LexState} {c : UInt8} {w : Word} {es : List LexEvent}
    (hend : (s.step c).2 = .inl w :: es) :
    s.inWord := by
  have hstep := stepped s c
  rw [hend] at hstep
  generalize (s.step c).1 = s' at hstep
  cases hstep with
  | ended hw => exact hw
  | endedOk hw => exact hw
  | endedBlock hw => exact hw

/-- The byte that ends a word is not taken together with a backslash at its end. -/
lemma Paired.ended {s : LexState} (h : s.Paired) {c : UInt8} {w : Word} {es : List LexEvent}
    (hstep : (s.step c).2 = .inl w :: es) : pending s.raw = false ∨ isEscaped c = false := by
  have hin := inWord_of_ended hstep
  cases hm : s.mode with
  | gap => simp [inWord, hm] at hin
  | comment => simp [inWord, hm] at hin
  | word =>
    right
    simp only [LexState.step, hm, stepWord] at hstep
    split_ifs at hstep with _ _ _ _ hsem hbrace hspace
    · obtain rfl := eq_of_beq hsem
      rfl
    · obtain rfl := eq_of_beq hbrace
      rfl
    · exact isEscaped_of_isSpace hspace
  | quote q =>
    left
    simp only [LexState.step, hm, stepQuote] at hstep
    split_ifs at hstep with hesc
    rw [← h q hm]
    simpa using hesc
  | closed => simp [inWord, hm] at hin

end LexState

/-! ### One buffer -/

/-- Everything that is left to be read stands in the buffer, or comes into it with one load. -/
def FsFile.OneBuffer (f : FsFile) : Prop :=
  f.done ∨ f.bufOverflow ∧ f.remainSize ≤ f.bufLen

lemma oneBuffer_ofBuf (mem : List UInt8) (last : Nat) : (FsFile.ofBuf mem last).OneBuffer :=
  .inl rfl

lemma FsFile.countLine_mem (f : FsFile) (c : UInt8) : (f.countLine c).mem = f.mem := by
  rw [FsFile.countLine]
  split_ifs <;> rfl

lemma FsFile.countLine_pos (f : FsFile) (c : UInt8) : (f.countLine c).pos = f.pos := by
  rw [FsFile.countLine]
  split_ifs <;> rfl

lemma FsFile.countLine_done (f : FsFile) (c : UInt8) : (f.countLine c).done = f.done := by
  rw [FsFile.countLine]
  split_ifs <;> rfl

/-- A load brings in all the rest, and nothing is loaded again. -/
lemma FsFile.OneBuffer.refill {io : ReadOutcome} {f f' : FsFile} (h : f.OneBuffer)
    (hgo : Folksong.refill io f = .go f') : f'.done ∧ (f.done → f' = f) := by
  rw [Folksong.refill] at hgo
  split_ifs at hgo with hover hdone
  · obtain ⟨-, hsize⟩ := h.resolve_left hdone
    have htarget : f.readTarget f.remainSize = f.remainSize := if_neg (Nat.not_lt.mpr hsize)
    rw [fsFileRead, htarget] at hgo
    split_ifs at hgo with hread
    cases hgo
    obtain ⟨-, hgot⟩ : _ ∧ (f.readInBuf f.remainSize).1 = f.remainSize := by simpa using hread
    refine ⟨?_, fun h => absurd h hdone⟩
    have hoff : (f.readInBuf f.remainSize).2.off = f.off + (f.readInBuf f.remainSize).1 := rfl
    have hst : (f.readInBuf f.remainSize).2.stSize = f.stSize := rfl
    rw [FsFile.done, hoff, hst, hgot, FsFile.remainSize]
    simp
    omega
  · cases hgo
    exact ⟨h.resolve_right fun h => hover h.1, fun _ => rfl⟩

/-- What holds where the loop of a call stands: the bytes of an open word are those of the buffer
between `token_start` and the next byte. -/
structure LexState.Spans (s : LexState) (f : FsFile) (ts : Nat) : Prop where
  wf : s.Wf
  paired : s.Paired
  file : f.OneBuffer
  word : s.inWord → f.done ∧ ts + s.raw.length = f.pos ∧
    f.mem.drop ts = s.raw ++ f.mem.drop f.pos

namespace LexState.Spans

variable {io : ReadOutcome} {s : LexState} {f f' : FsFile} {ts : Nat} {c : UInt8}

/-- Nothing is loaded while a word is open. -/
lemma load (h : s.Spans f ts) (hgo : refill io f = .go f') : s.Spans f' ts ∧ f'.done := by
  obtain ⟨hdone, hsame⟩ := h.file.refill hgo
  refine ⟨⟨h.wf, h.paired, .inl hdone, fun hw => ?_⟩, hdone⟩
  have hword := h.word hw
  rw [hsame hword.1]
  exact hword

/-- The invariant behind a byte, by what the byte does to the words. -/
lemma byte (h : s.Spans f ts) (hdone : f.done) (hc : f.mem[f.pos]? = some c) :
    (s.step c).1.Spans ({ f with pos := f.pos + 1 }.countLine c)
      (s.nextStart (s.step c).1 ts (f.pos + 1)) := by
  have hlt := (List.getElem?_eq_some_iff.mp hc).1
  have hdrop : f.mem.drop f.pos = c :: f.mem.drop (f.pos + 1) := by
    rw [List.drop_eq_getElem_cons hlt, (List.getElem?_eq_some_iff.mp hc).2]
  have hdone' : ({ f with pos := f.pos + 1 }.countLine c).done := by
    rw [FsFile.countLine_done]
    exact hdone
  refine ⟨wf_step h.wf c, h.paired.step c, .inl hdone', fun hw => ⟨hdone', ?_⟩⟩
  rw [FsFile.countLine_mem, FsFile.countLine_pos]
  have hstep := stepped s c
  generalize (s.step c).1 = s', (s.step c).2 = es at hstep hw ⊢
  cases hstep with
  | outside _ hw' => exact absurd hw (by simp [hw'])
  | @opened m escaped dollar raw hs _ hraw =>
    rw [nextStart, hs, hw]
    rcases hraw with rfl | rfl
    · simp [opens]
    · simpa [opens] using hdrop
  | grown escaped dollar hs =>
    obtain ⟨-, hlen, hraw⟩ := h.word hs
    have hstart : s.nextStart (s.grow c escaped dollar) ts (f.pos + 1) = ts := by
      simp [nextStart, hs]
    rw [hstart]
    refine ⟨?_, ?_⟩
    · simp [grow]
      omega
    · simp [grow, hraw, hdrop]
  | ended _ _ hm =>
    rcases hm with rfl | rfl <;> cases hw
  | endedOk => cases hw
  | endedBlock => cases hw
  | stop => cases hw

/-- The loop that copies a word out of the buffer. -/
lemma cut (h : s.Spans f ts) (hc : f.mem[f.pos]? = some c) {w : Word} {es : List LexEvent}
    (hend : (s.step c).2 = .inl w :: es) : (Cut.mk f.mem ts f.pos).DecodesInside := by
  obtain ⟨-, hlen, hraw⟩ := h.word (inWord_of_ended hend)
  have hlt := (List.getElem?_eq_some_iff.mp hc).1
  rw [List.drop_eq_getElem_cons hlt, (List.getElem?_eq_some_iff.mp hc).2] at hraw
  have hsub : f.pos - ts = s.raw.length := by omega
  have hstores := storesUpTo_decode s.raw.length le_rfl hraw (h.paired.ended hend)
  rw [hlen, ← hraw, ← hsub] at hstores
  obtain ⟨looked, hloop, hlooked⟩ := hstores [] []
  refine ⟨by simp only; omega, _, hloop, rfl, hlooked, rfl, ?_, ?_⟩
  · exact decode_length_le _ _
  · exact Nat.lt_succ_of_le (decode_length_le _ _)

end LexState.Spans

/-- The loop stays inside each token that the scanner takes from here on. -/
lemma cutsLoop_inside (io : ReadOutcome) (n : Nat) : ∀ (s : LexState) (f : FsFile) (ts : Nat),
    s.Spans f ts → ∀ cut ∈ cutsLoop io n (s.scan ts) f, cut.DecodesInside := by
  induction n with
  | zero => exact fun _ _ _ _ cut hcut => by cases hcut
  | succ n ih =>
    intro s f ts h
    rw [cutsLoop]
    cases hrefill : refill io f with
    | done => simp
    | failed => simp
    | go f₁ =>
      obtain ⟨h, hdone⟩ := h.load hrefill
      dsimp only
      cases hshift : f₁.bufLshift with
      | none => simp
      | some r =>
        obtain ⟨c, hget, rfl⟩ := Option.map_eq_some_iff.mp hshift
        have hnext := h.byte hdone hget
        dsimp only
        rw [scanByte_scan h.wf, LexState.turn]
        cases hes : (s.step c).2 with
        | nil => exact ih _ _ _ hnext
        | cons e es =>
          cases e with
          | inr st => simp
          | inl w =>
            have hstart : s.nextStart (s.step c).1 ts (f₁.pos + 1) = ts := by
              simp [LexState.nextStart, LexState.inWord_of_ended hes]
            rw [hstart] at hnext
            dsimp only
            rw [List.forall_mem_cons]
            refine ⟨h.cut hget hes, ?_⟩
            split_ifs
            · simp
            · exact ih _ _ _ hnext

lemma cuts_inside {io : ReadOutcome} {f : FsFile} (h : f.OneBuffer) :
    ∀ cut ∈ cuts io f, cut.DecodesInside :=
  cutsLoop_inside io _ (LexState.fresh 0) f 0
    ⟨LexState.wf_fresh 0, LexState.paired_of_mode fun _ => nofun, h, nofun⟩

/-! ### Whole runs -/

/-- A call leaves the file so that the rest is still read from one buffer. -/
lemma nextTokenLoop_oneBuffer {io : ReadOutcome} {st : Status} {f' : FsFile}
    {tokens' : FsArr FsStr} (n : Nat) : ∀ {s : Scan} {f : FsFile} {tokens : FsArr FsStr},
      f.OneBuffer → nextTokenLoop io n s f tokens = .ret st f' tokens' → f'.OneBuffer := by
  induction n with
  | zero => exact fun _ h => by cases h
  | succ n ih =>
    intro s f tokens hf h
    rw [nextTokenLoop] at h
    cases hrefill : refill io f with
    | done =>
      rw [hrefill] at h
      cases h
      exact hf
    | failed =>
      rw [hrefill] at h
      cases h
      exact hf
    | go f₁ =>
      rw [hrefill] at h
      dsimp only at h
      cases hshift : f₁.bufLshift with
      | none =>
        rw [hshift] at h
        cases h
      | some r =>
        obtain ⟨c, -, rfl⟩ := Option.map_eq_some_iff.mp hshift
        rw [hshift] at h
        dsimp only at h
        have hnext : ({ f₁ with pos := f₁.pos + 1 }.countLine c).OneBuffer := by
          left
          rw [FsFile.countLine_done]
          exact (hf.refill hrefill).1
        split at h
        · exact ih hnext h
        · cases h
          exact hnext
        · split at h
          · cases h
          · split_ifs at h
            · cases h
              exact hnext
            · cases h
              exact hnext
            · exact ih hnext h

/-- Some call of the scanner leaves `f'` where it has found `f`. -/
def NextToken (io : ReadOutcome) (f f' : FsFile) : Prop :=
  ∃ tokens st tokens', fsConfNextToken io f tokens = .ret st f' tokens'

/-- Whatever has been read before, the decode loop stays inside every token that is taken from a
text in one buffer. -/
theorem decodes_inside {io : ReadOutcome} {f₀ f : FsFile} (h : f₀.OneBuffer)
    (hcalls : Relation.ReflTransGen (NextToken io) f₀ f) :
    ∀ cut ∈ cuts io f, cut.DecodesInside := by
  have hf : f.OneBuffer := by
    induction hcalls with
    | refl => exact h
    | tail _ hcall ih =>
      obtain ⟨tokens, st, tokens', hcall⟩ := hcall
      exact nextTokenLoop_oneBuffer _ ih hcall
  exact cuts_inside hf

/-- A word that begins with a backslash and ends with one. -/
theorem decodes_inside_backslash :
    (cuts (fun _ => true) (FsFile.ofBuf (bytes "\\\\\\\\;" ++ [0]) 5)).map Cut.source
        = [bytes "\\\\\\"] ∧
      ∀ cut ∈ cuts (fun _ => true) (FsFile.ofBuf (bytes "\\\\\\\\;" ++ [0]) 5),
        cut.DecodesInside :=
  ⟨by decide, decodes_inside (oneBuffer_ofBuf _ _) .refl⟩

end Folksong
