import Folksong.Conf.Lexer

/-!
# The scanner follows the lexer

`scanByte_scan` relates one turn of the loop of `fs_conf_next_token` to one step of the lexer.
`tokenize_eq_replies` carries this over whole runs, for every input that delivers the bytes of a
text one after the other: one buffer that holds all of it, or a buffer that is refilled.
-/

namespace Folksong

namespace LexState

/-- The flags that stand for a state of the lexer. -/
def scan (s : LexState) (tokenStart : Nat) : Scan where
  sharp := s.mode == .comment
  quoted := s.escaped
  dQuote := s.mode == .quote .double
  sQuote := s.mode == .quote .single
  vacancy := s.mode == .gap || s.mode == .comment
  needSpace := s.mode == .closed
  isVariable := s.dollar
  tokenStart := tokenStart

/-- `token_start` after a byte: it moves when the byte opens a word. -/
def nextStart (s s' : LexState) (tokenStart pos : Nat) : Nat :=
  if !s.inWord && s'.inWord then pos - s'.raw.length else tokenStart

/-- What the loop does on a byte, told by what the lexer answers. -/
def turn (s : LexState) (tokenStart pos : Nat) (r : LexState × List LexEvent) : Turn :=
  match r.2 with
  | [] => .next (r.1.scan (s.nextStart r.1 tokenStart pos))
  | .inr st :: _ => .ret st
  | .inl _ :: _ => .found (r.1.scan tokenStart)

end LexState

@[simp] lemma Scan.start_eq (n : Nat) : (LexState.fresh n).scan 0 = Scan.start := rfl

/-- A line feed only matters to the flags inside a comment. -/
lemma scanByte_of_not_sharp {s : Scan} (h : s.sharp = false) (c : UInt8) (p : Nat) :
    scanByte s c p
      = if s.quoted then .next { s with quoted := false }
        else if s.needSpace && isSpace c then .next { s with vacancy := true, needSpace := false }
        else if s.needSpace && c == fsChrSEM then .ret .ok
        else if s.needSpace && c == fsChrLCBRACK then .ret .blockStart
        else if s.vacancy then scanVacancy s c p
        else scanWord s c := by
  have hs : (if c == fsChrLF then { s with sharp := false } else s) = s := by
    split_ifs
    · rw [← h]
    · rfl
  simp only [scanByte, hs, h]
  rfl

/-- One turn of the loop is one step of the lexer. -/
lemma scanByte_scan {s : LexState} (h : s.Wf) (c : UInt8) (ts p : Nat) :
    scanByte (s.scan ts) c p = s.turn ts p (s.step c) := by
  have hesc := h.escaped
  obtain ⟨mode, escaped, dollar, pos, opened, raw⟩ := s
  cases mode with
  | gap =>
    simp only [true_or, forall_const] at hesc
    subst hesc
    rw [scanByte_of_not_sharp rfl]
    simp only [LexState.step, LexState.stepGap, apply_ite (LexState.turn _ ts p)]
    rfl
  | comment =>
    simp only [or_true, forall_const] at hesc
    subst hesc
    by_cases hc : c = fsChrLF
    · subst hc
      rfl
    · have hb : (c == fsChrLF) = false := by simpa using hc
      simp [scanByte, LexState.step, LexState.stepComment, LexState.turn, LexState.nextStart,
        LexState.inWord, LexState.skip, LexState.scan, hb]
  | word =>
    rw [scanByte_of_not_sharp rfl]
    simp only [LexState.step, LexState.stepWord, apply_ite (LexState.turn _ ts p)]
    cases escaped with
    | true => rfl
    | false =>
      change (if c == fsChrLCBRACK && dollar then Turn.next _
        else if c == fsChrESCAPE then Turn.next _ else if c == fsChrDOLLAR then Turn.next _
        else if isSpace c || c == fsChrSEM || c == fsChrLCBRACK then Turn.found _
        else Turn.next _) = if c == fsChrLCBRACK && dollar then _ else _
      -- The loop asks for the three ways to end a word at once, the lexer one by one.
      cases dollar <;> cases isSpace c <;> cases c == fsChrSEM <;> cases c == fsChrLCBRACK <;> rfl
  | quote q =>
    rw [scanByte_of_not_sharp rfl]
    simp only [LexState.step, LexState.stepQuote, apply_ite (LexState.turn _ ts p)]
    cases escaped with
    | true => cases q <;> rfl
    | false =>
      cases q with
      | double =>
        change (if c == fsChrLCBRACK && dollar then Turn.next _
          else if c == fsChrESCAPE then Turn.next _ else if c == fsChrDOLLAR then Turn.next _
          else if c == fsChrDQUO then Turn.found _ else Turn.next _) = _
        cases dollar <;> cases c == fsChrLCBRACK <;> rfl
      | single =>
        change (if c == fsChrLCBRACK && dollar then Turn.next _
          else if c == fsChrESCAPE then Turn.next _ else if c == fsChrDOLLAR then Turn.next _
          else if c == fsChrSQUO then Turn.found _ else Turn.next _) = _
        cases dollar <;> cases c == fsChrLCBRACK <;> rfl
  | closed =>
    rw [scanByte_of_not_sharp rfl]
    simp only [LexState.step, LexState.stepClosed, apply_ite (LexState.turn _ ts p)]
    cases escaped with
    | true => rfl
    | false =>
      change (if isSpace c then Turn.next _
        else if c == fsChrSEM then Turn.ret _ else if c == fsChrLCBRACK then Turn.ret _
        else if c == fsChrLCBRACK && dollar then Turn.next _
        else if c == fsChrESCAPE then Turn.next _
        else if c == fsChrDOLLAR then Turn.next _
        else if isSpace c || c == fsChrSEM || c == fsChrLCBRACK then Turn.found _
        else Turn.next _) = _
      cases isSpace c <;> cases c == fsChrSEM <;> cases c == fsChrLCBRACK <;> rfl

/-! ### Tokens -/

/-- The decoder looks at the bytes before the delimiter and at the delimiter. -/
lemma decode_take (mem : List UInt8) (n : Nat) : decode mem n = decode (mem.take (n + 1)) n := by
  fun_induction decode mem n with
  | case1 => simp [decode]
  | case2 => simp [decode]
  | case3 => simp [decode]
  | case4 c d mem n h ih =>
    rw [List.take_succ_cons, List.take_succ_cons, decode, if_pos h, ih]
    cases n with
    | zero => simp [decode]
    | succ n => rfl
  | case5 c d mem n h ih =>
    rw [List.take_succ_cons, List.take_succ_cons, decode, if_neg h, ih, List.take_succ_cons]

/-- A token only depends on the memory up to its delimiter. -/
lemma takeToken_congr {mem mem' : List UInt8} {d : Nat} (h : mem.take (d + 1) = mem'.take (d + 1))
    (ts : Nat) : takeToken mem ts d = takeToken mem' ts d := by
  simp only [takeToken]
  split_ifs with hle
  · have hdrop : (mem.drop ts).take (d - ts + 1) = (mem'.drop ts).take (d - ts + 1) := by
      rw [List.take_drop, List.take_drop, show ts + (d - ts + 1) = d + 1 by omega, h]
    rw [decode_take, hdrop, ← decode_take]
  · rfl

/-- The token the scanner takes for a word of `text`, when the byte at position `g` is read from
a buffer that begins with position `base g` of the text. -/
def bufToken (base : Nat → Nat) (text : List UInt8) (w : Word) : Option FsStr :=
  takeToken (text.drop (base w.stop)) (w.start - base w.opened) (w.stop - base w.stop)

/-- The reply of a call that has read these words. -/
def reply (tok : Word → Option FsStr) (ws : List Word) (st : Status) : Reply :=
  match ws.mapM tok with
  | none => .undefined
  | some tokens => .taken st tokens

/-- The replies for the records of a text; nothing follows one that is undefined. -/
def replies (tok : Word → Option FsStr) : List (List Word × Status) → List Word → List Reply
  | [], left => [reply tok left .fileDone]
  | (ws, st) :: rs, left =>
    match ws.mapM tok with
    | none => [.undefined]
    | some tokens => .taken st tokens :: replies tok rs left

lemma mapM_eq_none_of_mem {tok : Word → Option FsStr} {w : Word} (hw : tok w = none) :
    ∀ {ws : List Word}, w ∈ ws → ws.mapM tok = none
  | [], h => by simp at h
  | v :: ws, h => by
    rcases List.mem_cons.mp h with rfl | h
    · simp [List.mapM_cons, hw]
    · rw [List.mapM_cons, mapM_eq_none_of_mem hw h]
      cases tok v <;> rfl

lemma exists_of_mapM_eq_none {tok : Word → Option FsStr} :
    ∀ {ws : List Word}, ws.mapM tok = none → ∃ w ∈ ws, tok w = none
  | [], h => by cases h
  | v :: ws, h => by
    cases hv : tok v with
    | none => exact ⟨v, List.mem_cons_self, hv⟩
    | some t =>
      cases hws : ws.mapM tok with
      | none =>
        obtain ⟨w, hw, hnone⟩ := exists_of_mapM_eq_none hws
        exact ⟨w, List.mem_cons_of_mem _ hw, hnone⟩
      | some ts => simp [List.mapM_cons, hv, hws] at h

/-- An undefined token ends the replies, whatever follows in its directive. -/
lemma replies_cut_of_none {tok : Word → Option FsStr} {w : Word} (hw : tok w = none) :
    ∀ (es : List LexEvent) {acc : List Word}, w ∈ acc →
      replies tok (Records.cut acc es).1 (Records.cut acc es).2 = [.undefined]
  | [], acc, h => by simp [replies, reply, mapM_eq_none_of_mem hw h]
  | .inl v :: es, acc, h => by
    rw [Records.cut_inl]
    exact replies_cut_of_none hw es (List.mem_append_left _ h)
  | .inr st :: es, acc, h => by
    simp [replies, mapM_eq_none_of_mem hw h]

/-! ### Whole runs -/

/-- `P f g` says that the file `f` is about to deliver position `g` of `text`. The byte comes out
of a buffer that begins with position `base g`. -/
structure Source (io : ReadOutcome) (text : List UInt8) (base : Nat → Nat)
    (P : FsFile → Nat → Prop) : Prop where
  base_le : ∀ g, base g ≤ g
  remaining : ∀ {f g}, P f g → f.remaining = text.length - g
  finish : ∀ {f}, P f text.length → refill io f = .done
  byte : ∀ {f g c}, P f g → text[g]? = some c →
    ∃ f', refill io f = .go f' ∧ f'.pos = g - base g ∧
      f'.mem.take (g - base g + 1) = (text.drop (base g)).take (g - base g + 1) ∧
      P ({ f' with pos := f'.pos + 1 }.countLine c) (g + 1)

/-- The replies from the end of one call on. -/
def resume (io : ReadOutcome) (n : Nat) : Taken → List Reply
  | .undefined => [.undefined]
  | .ret st f tokens =>
    .taken st tokens.toList :: (if st.isDirective then tokenize io n f tokens else [])

lemma tokenize_succ (io : ReadOutcome) (n : Nat) (f : FsFile) (tokens : FsArr FsStr) :
    tokenize io (n + 1) f tokens = resume io n (fsConfNextToken io f tokens) := by
  rw [tokenize]
  cases fsConfNextToken io f tokens <;> rfl

section Run

open Mealy

variable {io : ReadOutcome} {text : List UInt8} {base : Nat → Nat} {P : FsFile → Nat → Prop}

/-- A turn of the loop on a file that delivers `c`. -/
lemma nextTokenLoop_byte (hS : Source io text base P) {f : FsFile} {g : Nat} {c : UInt8}
    (hP : P f g) (hc : text[g]? = some c) :
    ∃ f' : FsFile, P (f'.countLine c) (g + 1) ∧
      f'.mem.take (g - base g + 1) = (text.drop (base g)).take (g - base g + 1) ∧
      ∀ fuel s tokens, nextTokenLoop io (fuel + 1) s f tokens =
        match scanByte s c (g - base g + 1) with
        | .next s => nextTokenLoop io fuel s (f'.countLine c) tokens
        | .ret st => .ret st (f'.countLine c) tokens
        | .found s =>
          match takeToken f'.mem s.tokenStart (g - base g) with
          | none => .undefined
          | some token =>
            if c == fsChrSEM then .ret .ok (f'.countLine c) (tokens.push token)
            else if c == fsChrLCBRACK then .ret .blockStart (f'.countLine c) (tokens.push token)
            else nextTokenLoop io fuel s (f'.countLine c) (tokens.push token) := by
  obtain ⟨f', hgo, hpos, hmem, hnext⟩ := hS.byte hP hc
  have hle := hS.base_le g
  have hget : f'.mem[g - base g]? = some c := by
    have h1 : (f'.mem.take (g - base g + 1))[g - base g]? = f'.mem[g - base g]? := by
      rw [List.getElem?_take_of_lt (by omega)]
    rw [← h1, hmem, List.getElem?_take_of_lt (by omega), List.getElem?_drop,
      show base g + (g - base g) = g by omega, hc]
  refine ⟨{ f' with pos := f'.pos + 1 }, hnext, hmem, fun fuel s tokens => ?_⟩
  have hshift : f'.bufLshift = some (c, { f' with pos := f'.pos + 1 }) := by
    rw [FsFile.bufLshift, hpos, hget]
    rfl
  rw [← hpos, nextTokenLoop, hgo]
  dsimp only
  rw [hshift]
  rfl

lemma of_drop_eq_cons {text rest : List UInt8} {n : Nat} {c : UInt8}
    (h : text.drop n = c :: rest) :
    n < text.length ∧ text[n]? = some c ∧ text.drop (n + 1) = rest := by
  have hlt : n < text.length := by
    by_contra hge
    rw [List.drop_of_length_le (Nat.not_lt.mp hge)] at h
    cases h
  rw [List.drop_eq_getElem_cons hlt] at h
  injection h with h₁ h₂
  exact ⟨hlt, by rw [List.getElem?_eq_getElem hlt, h₁], h₂⟩

/-- How the loop of a call ends, told by what the lexer reads from `s` on: with a directive, at
the end of the text, or at a token that is undefined. -/
inductive Ends (text : List UInt8) (base : Nat → Nat) (P : FsFile → Nat → Prop) (s : LexState)
    (tokens : FsArr FsStr) : Taken → Prop where
  | directive (bs : List UInt8) (ws vs : List Word) {c rest s' ts st f' tokens'} :
      text.drop s.pos = bs ++ c :: rest → Reads LexState.step s bs s' (ws.map .inl) →
      s'.step c = (LexState.fresh (s.pos + bs.length + 1), vs.map .inl ++ [.inr st]) →
      st.isDirective → (ws ++ vs).mapM (bufToken base text) = some ts →
      tokens'.toList = tokens.toList ++ ts → P f' (s.pos + bs.length + 1) →
      Ends text base P s tokens (.ret st f' tokens')
  | finished (ws : List Word) {s' ts f' tokens'} :
      Reads LexState.step s (text.drop s.pos) s' (ws.map .inl) →
      ws.mapM (bufToken base text) = some ts → tokens'.toList = tokens.toList ++ ts →
      Ends text base P s tokens (.ret .fileDone f' tokens')
  | undefined (bs : List UInt8) (ws : List Word) {rest s' es} : text.drop s.pos = bs ++ rest →
      Reads LexState.step s bs s' (ws.map .inl ++ es) → ws.mapM (bufToken base text) = none →
      Ends text base P s tokens .undefined

/-- A byte that the loop reads before it ends. -/
lemma Ends.cons {s s' : LexState} {c : UInt8} {rest : List UInt8} (vs : List Word)
    {us : List FsStr} {tokens tokens' : FsArr FsStr} {r : Taken}
    (hdrop : text.drop s.pos = c :: rest) (hstep : s.step c = (s', vs.map .inl))
    (hvs : vs.mapM (bufToken base text) = some us) (htokens : tokens'.toList = tokens.toList ++ us)
    (h : Ends text base P s' tokens' r) : Ends text base P s tokens r := by
  have hpos : s'.pos = s.pos + 1 := by
    have := LexState.step_pos s c
    rwa [hstep] at this
  have hrest : text.drop s'.pos = rest := hpos ▸ (of_drop_eq_cons hdrop).2.2
  have happend : ∀ {ws : List Word}, (vs ++ ws).mapM (bufToken base text)
      = (ws.mapM (bufToken base text)).map (us ++ ·) := by
    intro ws
    rw [List.mapM_append, hvs]
    cases ws.mapM (bufToken base text) <;> rfl
  have hcons : ∀ {bs rest' : List UInt8}, text.drop s'.pos = bs ++ rest' →
      text.drop s.pos = c :: bs ++ rest' := by
    intro bs rest' hbs
    rw [hdrop, ← hrest, hbs]
    rfl
  cases h with
  | @directive bs ws ws' c' rest' s'' ts st f' tokens'' hbs hreads hend hst hws htokens' hP =>
    have hlen : s'.pos + bs.length + 1 = s.pos + (c :: bs).length + 1 := by
      rw [hpos, List.length_cons]
      omega
    have hreads' : Reads LexState.step s (c :: bs) s'' ((vs ++ ws).map .inl) := by
      simpa using Reads.cons hstep hreads
    have hws' : (vs ++ ws ++ ws').mapM (bufToken base text) = some (us ++ ts) := by
      rw [List.append_assoc, happend, hws]
      rfl
    refine .directive (c :: bs) (vs ++ ws) ws' (hcons hbs) hreads' (hlen ▸ hend) hst hws' ?_
      (hlen ▸ hP)
    rw [htokens', htokens, List.append_assoc]
  | @finished ws s'' ts f' tokens'' hreads hws htokens' =>
    have hreads' : Reads LexState.step s (text.drop s.pos) s'' ((vs ++ ws).map .inl) := by
      rw [hdrop, ← hrest]
      simpa using Reads.cons hstep hreads
    refine .finished (vs ++ ws) hreads' (happend.trans (congrArg _ hws)) ?_
    rw [htokens', htokens, List.append_assoc]
  | @undefined bs ws rest' s'' es hbs hreads hws =>
    have hreads' : Reads LexState.step s (c :: bs) s'' ((vs ++ ws).map .inl ++ es) := by
      simpa using Reads.cons hstep hreads
    exact .undefined (c :: bs) (vs ++ ws) (hcons hbs) hreads' (happend.trans (congrArg _ hws))

/-- The word that ends a call is the last one of its directive. -/
lemma Ends.last {s : LexState} {c : UInt8} {rest : List UInt8} {st : Status} {token : FsStr}
    {f' : FsFile} {tokens : FsArr FsStr} (hdrop : text.drop s.pos = c :: rest)
    (hstep : s.step c = (LexState.fresh (s.pos + 1), [.inl s.ended, .inr st]))
    (hst : st.isDirective) (ht : bufToken base text s.ended = some token) (hP : P f' (s.pos + 1)) :
    Ends text base P s tokens (.ret st f' (tokens.push token)) :=
  .directive [] [] [s.ended] hdrop (Reads.nil s) hstep hst (by simp [ht]) (FsArr.push_toList ..) hP

/-- A word whose token does not exist. -/
lemma Ends.lost {s s' : LexState} {c : UInt8} {rest : List UInt8} {es : List LexEvent}
    {tokens : FsArr FsStr} (hdrop : text.drop s.pos = c :: rest)
    (hstep : s.step c = (s', .inl s.ended :: es)) (ht : bufToken base text s.ended = none) :
    Ends text base P s tokens .undefined :=
  .undefined [c] [s.ended] hdrop (Reads.one hstep) (by simp [ht])

/-- From the middle of a call on, the loop does what the lexer says about the rest of the text. -/
lemma nextTokenLoop_ends (hS : Source io text base P) (rest : List UInt8) :
    ∀ (s : LexState) (f : FsFile) (tokens : FsArr FsStr) (ts fuel : Nat),
      s.Wf → P f s.pos → s.pos ≤ text.length → text.drop s.pos = rest →
      (s.inWord →
        ts = s.pos - s.raw.length - base s.opened ∧ base s.opened ≤ s.pos - s.raw.length) →
      rest.length < fuel →
      Ends text base P s tokens (nextTokenLoop io fuel (s.scan ts) f tokens) := by
  induction rest with
  | nil =>
    intro s f tokens ts fuel _ hP hle hdrop _ hfuel
    have hend : s.pos = text.length := le_antisymm hle (List.drop_eq_nil_iff.mp hdrop)
    obtain ⟨k, rfl⟩ : ∃ k, fuel = k + 1 := ⟨fuel - 1, by simp at hfuel; omega⟩
    rw [hend] at hP
    rw [nextTokenLoop, hS.finish hP]
    have hreads : Reads LexState.step s (text.drop s.pos) s [] := by
      rw [hdrop]
      exact Reads.nil s
    exact .finished [] hreads rfl (List.append_nil _).symm
  | cons c rest ih =>
    intro s f tokens ts fuel hwf hP _ hdrop hts hfuel
    obtain ⟨hlt, hc, hdrop'⟩ := of_drop_eq_cons hdrop
    obtain ⟨f', hP', hmem, hloop⟩ := nextTokenLoop_byte hS hP hc
    obtain ⟨k, rfl⟩ : ∃ k, fuel = k + 1 := ⟨fuel - 1, by simp at hfuel; omega⟩
    have hlek : rest.length < k := by simpa using hfuel
    have hwf' := LexState.wf_step hwf c
    rw [hloop, scanByte_scan hwf]
    have htok : s.inWord →
        takeToken f'.mem ts (s.pos - base s.pos) = bufToken base text s.ended := by
      intro hw
      have hraw := hwf.raw_le hw
      have hend : s.ended.stop = s.pos := by simp [Word.stop, LexState.ended, hraw]
      rw [bufToken, hend, takeToken_congr hmem, (hts hw).1]
      rfl
    have hstep := LexState.stepped s c
    obtain ⟨s', evs, hr⟩ : ∃ s' evs, s.step c = (s', evs) := ⟨_, _, rfl⟩
    rw [hr] at hstep hwf' ⊢
    simp only at hstep hwf'
    cases hstep with
    | outside hw hw' hpos =>
      refine .cons [] hdrop hr rfl (List.append_nil _).symm ?_
      exact ih s' _ _ _ _ hwf' (hpos ▸ hP') (by omega) (hpos ▸ hdrop')
        (fun h => by rw [hw'] at h; cases h) hlek
    | opened hw hw' hraw =>
      refine .cons [] hdrop hr rfl (List.append_nil _).symm ?_
      have hb := hS.base_le s.pos
      refine ih _ _ _ _ _ hwf' hP' hlt hdrop' (fun _ => ?_) hlek
      rw [LexState.nextStart, hw, hw']
      rcases hraw with rfl | rfl <;>
      · simp only [LexState.opens, List.length_nil, List.length_singleton]
        refine ⟨?_, by omega⟩
        simp only [Bool.not_false, Bool.and_self, if_true]
        omega
    | grown escaped dollar hw =>
      refine .cons [] hdrop hr rfl (List.append_nil _).symm ?_
      have hw' : (s.grow c escaped dollar).inWord = true := hw
      refine ih _ _ _ _ _ hwf' hP' hlt hdrop' (fun _ => ?_) hlek
      simpa [LexState.nextStart, hw, LexState.grow] using hts hw
    | @ended m' hw _ hm hsem hlc =>
      simp only [LexState.turn, LexState.scan, htok hw]
      cases ht : bufToken base text s.ended with
      | none => exact .lost hdrop hr ht
      | some token =>
        have hw' : (s.finish m').inWord = false := by rcases hm with rfl | rfl <;> rfl
        simp only [beq_iff_eq, hsem, hlc, if_false]
        refine .cons [s.ended] hdrop hr (by simp [ht]; rfl) (FsArr.push_toList ..) ?_
        refine ih _ _ _ _ _ hwf' hP' hlt hdrop' (fun h => ?_) hlek
        rw [hw'] at h
        cases h
    | endedOk hw _ hc =>
      simp only [LexState.turn, LexState.scan, htok hw]
      cases ht : bufToken base text s.ended with
      | none => exact .lost hdrop hr ht
      | some token =>
        simp only [hc, beq_self_eq_true, if_true]
        exact .last hdrop hr rfl ht (hc ▸ hP')
    | endedBlock hw _ hc =>
      simp only [LexState.turn, LexState.scan, htok hw]
      cases ht : bufToken base text s.ended with
      | none => exact .lost hdrop hr ht
      | some token =>
        have hsem : (fsChrLCBRACK == fsChrSEM) = false := by decide
        simp only [hc, hsem, beq_self_eq_true, if_true]
        exact .last hdrop hr rfl ht (hc ▸ hP')
    | stop hw hst =>
      exact .directive [] [] [] hdrop (Reads.nil s) hr hst rfl (List.append_nil _).symm hP'

/-- How a call ends on a file that delivers a text. -/
lemma fsConfNextToken_ends (hS : Source io text base P) {f : FsFile} {g : Nat} (hP : P f g)
    (hle : g ≤ text.length) (tokens : FsArr FsStr) :
    Ends text base P (LexState.fresh g) tokens.reset (fsConfNextToken io f tokens) := by
  rw [fsConfNextToken, hS.remaining hP, ← Scan.start_eq g]
  refine nextTokenLoop_ends hS (text.drop g) (LexState.fresh g) f tokens.reset 0 _
    (LexState.wf_fresh g) hP hle rfl (fun h => ?_) (by simp)
  cases h

/-- The replies from position `g` on are those for the records there. -/
lemma tokenize_ends (hS : Source io text base P) (n : Nat) :
    ∀ (f : FsFile) (g : Nat) (tokens : FsArr FsStr), P f g → g ≤ text.length →
      text.length - g < n →
      tokenize io n f tokens
        = replies (bufToken base text)
            (Records.cut [] (Mealy.run LexState.step (LexState.fresh g) (text.drop g)).2).1
            (Records.cut [] (Mealy.run LexState.step (LexState.fresh g) (text.drop g)).2).2 := by
  induction n with
  | zero => exact fun _ _ _ _ _ h => absurd h (Nat.not_lt_zero _)
  | succ n ih =>
    intro f g tokens hP hle hn
    rw [tokenize_succ]
    have hends := fsConfNextToken_ends hS hP hle tokens
    generalize fsConfNextToken io f tokens = r at hends ⊢
    cases hends with
    | @directive bs ws vs c rest s' ts st f' tokens' hbs hreads hend hst hws htokens hP' =>
      rw [LexState.fresh_pos] at hbs hend hP'
      obtain ⟨hlt, -, hrest⟩ := of_drop_eq_cons (by rw [← List.drop_drop, hbs, List.drop_left] :
        text.drop (g + bs.length) = c :: rest)
      have hcut : Records.cut [] (run LexState.step (LexState.fresh g) (text.drop g)).2
          = ((ws ++ vs, st) ::
              (Records.cut [] (run LexState.step (LexState.fresh (g + bs.length + 1)) rest).2).1,
            (Records.cut [] (run LexState.step (LexState.fresh (g + bs.length + 1))
              rest).2).2) := by
        rw [hbs, run_append, hreads, run_cons, hend]
        simp only [List.append_assoc, Records.cut_map_inl]
        rfl
      rw [hcut, resume, if_pos hst, ih f' _ tokens' hP' hlt (by omega), hrest]
      simp [replies, hws, htokens]
    | @finished ws s' ts f' tokens' hreads hws htokens =>
      rw [LexState.fresh_pos] at hreads
      have hcut : Records.cut [] (ws.map (.inl : Word → LexEvent)) = ([], ws) := by
        have := Records.cut_map_inl (τ := Status) [] ws []
        simpa using this
      rw [hreads, hcut]
      simp [resume, replies, reply, hws, htokens, Status.isDirective]
    | @undefined bs ws rest s' es hbs hreads hws =>
      rw [LexState.fresh_pos] at hbs
      obtain ⟨w, hw, hnone⟩ := exists_of_mapM_eq_none hws
      rw [hbs, run_append, hreads, List.append_assoc, Records.cut_map_inl, List.nil_append,
        replies_cut_of_none hnone _ hw]
      rfl

/-- Where the lexer reads a directive, the call answers it with the tokens of its words. -/
lemma fsConfNextToken_iff (hS : Source io text base P) {f : FsFile} {g : Nat} (hP : P f g)
    (hle : g ≤ text.length) {bs rest : List UInt8} {s' : LexState} {ws : List Word} {st : Status}
    (hdrop : text.drop g = bs ++ rest)
    (hreads : Reads LexState.step (LexState.fresh g) bs s' (ws.map .inl ++ [.inr st]))
    (tokens : FsArr FsStr) (ts : List FsStr) :
    (∃ f' tokens', fsConfNextToken io f tokens = .ret st f' tokens' ∧ tokens'.toList = ts)
      ↔ ws.mapM (bufToken base text) = some ts := by
  have h := tokenize_ends hS (text.length + 1) f g tokens hP hle (by omega)
  rw [tokenize_succ, hdrop, run_append, hreads, List.append_assoc, Records.cut_map_inl,
    List.nil_append, List.singleton_append, Records.cut_inr, replies] at h
  cases hws : ws.mapM (bufToken base text) with
  | none =>
    rw [hws] at h
    refine iff_of_false ?_ (fun h => by cases h)
    rintro ⟨f', tokens', hcall, -⟩
    rw [hcall] at h
    cases h
  | some us =>
    rw [hws] at h
    cases hcall : fsConfNextToken io f tokens with
    | undefined =>
      rw [hcall] at h
      cases h
    | ret st' f' tokens' =>
      rw [hcall] at h
      obtain ⟨rfl, rfl⟩ : st' = st ∧ tokens'.toList = us := by simpa using (List.cons.inj h).1
      simp

/-- The replies for a text that a file delivers are those for its records. -/
theorem tokenize_eq_replies (hS : Source io text base P) {f : FsFile} (hP : P f 0)
    (tokens : FsArr FsStr) {n : Nat} (hn : text.length + 1 < n) :
    tokenize io n f tokens
      = replies (bufToken base text) (lexRecords text).1 (lexRecords text).2 :=
  tokenize_ends hS n f 0 tokens hP (Nat.zero_le _) (by omega)

end Run

/-! ### One buffer -/

/-- The file `f` reads from one buffer that begins with `text`, and stands at position `g`. -/
structure InBuf (text : List UInt8) (f : FsFile) (g : Nat) : Prop where
  mem : f.mem.take text.length = text
  last : f.last = text.length
  pos : f.pos = g
  le : g ≤ text.length
  done : f.stSize = 0

lemma inBuf_source (io : ReadOutcome) (text : List UInt8) :
    Source io text (fun _ => 0) (InBuf text) where
  base_le _ := Nat.zero_le _
  remaining h := by
    simp [FsFile.remaining, h.last, h.pos, h.done]
  finish h := by
    simp [refill, FsFile.bufOverflow, h.last, h.pos, FsFile.done, h.done]
  byte := by
    intro f g c h hc
    obtain ⟨hg, -⟩ := List.getElem?_eq_some_iff.mp hc
    refine ⟨f, by simp [refill, FsFile.bufOverflow, h.last, h.pos, hg], h.pos, ?_, ?_⟩
    · have := congrArg (List.take (g + 1)) h.mem
      rw [List.take_take] at this
      simpa [show min (g + 1) text.length = g + 1 by omega] using this
    · simp only [FsFile.countLine]
      split_ifs <;> exact ⟨h.mem, h.last, by simp [h.pos], hg, h.done⟩

lemma inBuf_ofBuf {mem text : List UInt8} (h : mem.take text.length = text) :
    InBuf text (FsFile.ofBuf mem text.length) 0 :=
  ⟨h, rfl, rfl, Nat.zero_le _, rfl⟩

/-! ### A refilled buffer -/

/-- The first position of the buffer load that delivers position `g`. -/
def loadBase (g : Nat) : Nat := g / fsConfPayloadBufferSize * fsConfPayloadBufferSize

lemma loadBase_le (g : Nat) : loadBase g ≤ g := Nat.div_mul_le_self _ _

lemma loadBase_of_dvd {g : Nat} (h : fsConfPayloadBufferSize ∣ g) : loadBase g = g :=
  Nat.div_mul_cancel h

/-- Positions of one load have one base. -/
lemma loadBase_succ {g : Nat} (h : g + 1 < loadBase g + fsConfPayloadBufferSize) :
    loadBase (g + 1) = loadBase g := by
  simp only [loadBase, fsConfPayloadBufferSize] at h ⊢
  omega

/-- The file `f` has been opened on `text` and stands at position `g`, where its buffer is used
up and the next load begins. -/
structure AtLoad (text : List UInt8) (f : FsFile) (g : Nat) : Prop where
  off : f.off = g
  used : f.last ≤ f.pos
  dvd : g = text.length ∨ fsConfPayloadBufferSize ∣ g

/-- The file `f` has been opened on `text` and stands at position `g` of the load in its
buffer, which reaches up to `off`. -/
structure InLoad (text : List UInt8) (f : FsFile) (g : Nat) : Prop where
  lt : g < f.off
  off_le : f.off ≤ text.length
  pos : f.pos = g - loadBase g
  last : f.last = f.off - loadBase g
  cap : f.off ≤ loadBase g + fsConfPayloadBufferSize
  dvd : f.off = text.length ∨ fsConfPayloadBufferSize ∣ f.off
  mem : f.mem.take f.last = (text.drop (loadBase g)).take f.last

/-- The file `f` has been opened on `text` and stands at position `g`. -/
structure Loaded (text : List UInt8) (f : FsFile) (g : Nat) : Prop where
  content : f.content = text
  size : f.stSize = text.length
  bufLen : f.bufLen = fsConfPayloadBufferSize
  le : g ≤ text.length
  buf : AtLoad text f g ∨ InLoad text f g

lemma loaded_opened (text mem : List UInt8) : Loaded text (FsFile.opened text mem) 0 :=
  ⟨rfl, rfl, rfl, Nat.zero_le _, .inl ⟨rfl, le_rfl, .inr (Nat.dvd_zero _)⟩⟩

/-- What a read at the start of a load brings in. -/
lemma AtLoad.readInBuf {text : List UInt8} {f : FsFile} {g : Nat} (h : Loaded text f g)
    (ha : AtLoad text f g) :
    f.readInBuf (f.readTarget f.remainSize)
      = (min fsConfPayloadBufferSize (text.length - g),
          { f with
            mem := (text.drop g).take (min fsConfPayloadBufferSize (text.length - g))
              ++ f.mem.drop (min fsConfPayloadBufferSize (text.length - g))
            pos := 0
            last := min fsConfPayloadBufferSize (text.length - g)
            off := g + min fsConfPayloadBufferSize (text.length - g) }) ∧
      f.readTarget f.remainSize = min fsConfPayloadBufferSize (text.length - g) := by
  have htarget : f.readTarget f.remainSize
      = min fsConfPayloadBufferSize (text.length - g) := by
    simp only [FsFile.readTarget, FsFile.remainSize, h.size, h.bufLen, ha.off]
    split_ifs <;> omega
  have hlen : ((text.drop g).take (min fsConfPayloadBufferSize (text.length - g))).length
      = min fsConfPayloadBufferSize (text.length - g) := by
    rw [List.length_take, List.length_drop]
    omega
  refine ⟨?_, htarget⟩
  rw [FsFile.readInBuf, htarget, h.content, ha.off, hlen]

/-- A refill at the start of a load. -/
lemma AtLoad.refill {io : ReadOutcome} (hio : ∀ off, io off = true) {text : List UInt8}
    {f : FsFile} {g : Nat} (h : Loaded text f g) (ha : AtLoad text f g) (hg : g < text.length) :
    ∃ f', Folksong.refill io f = .go f' ∧ Loaded text f' g ∧ InLoad text f' g := by
  have hdvd : fsConfPayloadBufferSize ∣ g := ha.dvd.resolve_left (by omega)
  have hbase := loadBase_of_dvd hdvd
  have hcap : 0 < fsConfPayloadBufferSize := by decide
  obtain ⟨hread, htarget⟩ := ha.readInBuf h
  have hin : InLoad text (f.readInBuf (f.readTarget f.remainSize)).2 g := by
    rw [hread]
    refine ⟨?_, ?_, ?_, ?_, ?_, ?_, ?_⟩
    · simp only
      omega
    · simp only
      omega
    · simp only [hbase]
      omega
    · simp only [hbase]
      omega
    · simp only [hbase]
      omega
    · rcases le_total fsConfPayloadBufferSize (text.length - g) with hle | hle
      · right
        simp only [Nat.min_eq_left hle]
        exact hdvd.add (Nat.dvd_refl _)
      · left
        simp only
        omega
    · simp only [hbase]
      rw [List.take_append_of_le_length, List.take_take, Nat.min_self]
      rw [List.length_take, List.length_drop]
      omega
  refine ⟨(f.readInBuf (f.readTarget f.remainSize)).2, ?_, ⟨?_, ?_, ?_, h.le, .inr hin⟩, hin⟩
  · have hused : f.bufOverflow = true := by simpa [FsFile.bufOverflow] using ha.used
    have hdone : f.done = false := by simpa [FsFile.done, h.size, ha.off] using hg
    have hfst : ((f.readInBuf (f.readTarget f.remainSize)).1
        == f.readTarget f.remainSize) = true := by
      rw [hread, htarget]
      simp
    simp [Folksong.refill, hused, hdone, fsFileRead, hio, hfst]
  · rw [hread]
    exact h.content
  · rw [hread]
    exact h.size
  · rw [hread]
    exact h.bufLen

/-- Taking one byte out of a load. -/
lemma InLoad.advance {text : List UInt8} {f : FsFile} {g : Nat} (h : Loaded text f g)
    (hi : InLoad text f g) (c : UInt8) :
    Loaded text ({ f with pos := f.pos + 1 }.countLine c) (g + 1) := by
  have hle := loadBase_le g
  have hlt := hi.lt
  have key : Loaded text { f with pos := f.pos + 1 } (g + 1) := by
    refine ⟨h.content, h.size, h.bufLen, by have := hi.off_le; omega, ?_⟩
    rcases Nat.lt_or_ge (g + 1) f.off with hnext | hend
    · have hbase : loadBase (g + 1) = loadBase g := loadBase_succ (by have := hi.cap; omega)
      refine .inr ⟨hnext, hi.off_le, ?_, ?_, ?_, hi.dvd, ?_⟩
      · simp only [hbase, hi.pos]
        omega
      · simp only [hbase, hi.last]
      · simpa only [hbase] using hi.cap
      · simpa only [hbase] using hi.mem
    · have hoff : f.off = g + 1 := by omega
      refine .inl ⟨hoff, ?_, hoff ▸ hi.dvd⟩
      simp only [hi.last, hi.pos, hoff]
      omega
  simp only [FsFile.countLine]
  split_ifs
  · exact ⟨key.content, key.size, key.bufLen, key.le, key.buf.imp
      (fun a => ⟨a.off, a.used, a.dvd⟩) fun i => ⟨i.lt, i.off_le, i.pos, i.last, i.cap, i.dvd, i.mem⟩⟩
  · exact key

lemma loaded_source {io : ReadOutcome} (hio : ∀ off, io off = true) (text : List UInt8) :
    Source io text loadBase (Loaded text) where
  base_le := loadBase_le
  remaining := by
    intro f g h
    rcases h.buf with ha | hi
    · have := ha.used
      rw [FsFile.remaining, h.size, ha.off]
      omega
    · have h1 := hi.lt
      have h2 := hi.off_le
      have h3 := loadBase_le g
      rw [FsFile.remaining, h.size, hi.last, hi.pos]
      omega
  finish := by
    intro f h
    rcases h.buf with ha | hi
    · have hused : f.bufOverflow = true := by simpa [FsFile.bufOverflow] using ha.used
      have hdone : f.done = true := by simp [FsFile.done, h.size, ha.off]
      simp [refill, hused, hdone]
    · have h1 := hi.lt
      have h2 := hi.off_le
      omega
  byte := by
    intro f g c h hc
    obtain ⟨hg, -⟩ := List.getElem?_eq_some_iff.mp hc
    have hgo : ∃ f', refill io f = .go f' ∧ Loaded text f' g ∧ InLoad text f' g := by
      rcases h.buf with ha | hi
      · exact ha.refill hio h hg
      · have hused : f.bufOverflow = false := by
          have h1 := hi.lt
          have h2 := loadBase_le g
          simp only [FsFile.bufOverflow, hi.last, hi.pos, decide_eq_false_iff_not]
          omega
        exact ⟨f, by simp [refill, hused], h, hi⟩
    obtain ⟨f', hgo, h', hi⟩ := hgo
    refine ⟨f', hgo, hi.pos, ?_, hi.advance h' c⟩
    have hlast : g - loadBase g + 1 ≤ f'.last := by
      have h1 := hi.lt
      have h2 := loadBase_le g
      rw [hi.last]
      omega
    have := congrArg (List.take (g - loadBase g + 1)) hi.mem
    rwa [List.take_take, List.take_take, Nat.min_eq_left hlast] at this

end Folksong
