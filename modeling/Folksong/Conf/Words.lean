import Folksong.Conf.Simulation

/-!
# Where the words lie in the text

Every word the lexer emits is a piece of the text, delimited by the byte that ended it. In one
buffer the scanner therefore takes exactly this piece.
-/

namespace Folksong

namespace LexState

/-- Between two bytes the open word is the end of what has been read. -/
def Open (text : List UInt8) (s : LexState) : Prop :=
  s.inWord → ∃ pre, text.take s.pos = pre ++ s.raw ∧ s.opened ≤ pre.length ∧
    pre.length ≤ s.opened + 1

end LexState

/-- `w` is a piece of `text`, delimited by the byte behind it. -/
def Word.In (text : List UInt8) (w : Word) : Prop :=
  ∃ pre c rest, text = pre ++ w.raw ++ c :: rest ∧ w.start = pre.length ∧
    w.opened ≤ w.start ∧ w.start ≤ w.opened + 1

lemma take_succ_of_drop {text : List UInt8} {n : Nat} {c : UInt8} {rest : List UInt8}
    (h : text.drop n = c :: rest) :
    text.take (n + 1) = text.take n ++ [c] ∧ text.drop (n + 1) = rest := by
  obtain ⟨-, hc, hrest⟩ := of_drop_eq_cons h
  refine ⟨?_, hrest⟩
  rw [List.take_add_one, hc]
  rfl

/-- One byte keeps the open word in place. -/
lemma LexState.open_step {text : List UInt8} {s : LexState} {c : UInt8} {rest : List UInt8}
    (h : s.Open text) (hdrop : text.drop s.pos = c :: rest) : (s.step c).1.Open text := by
  obtain ⟨htake, -⟩ := take_succ_of_drop hdrop
  have hlen : (text.take s.pos).length = s.pos :=
    List.length_take_of_le (of_drop_eq_cons hdrop).1.le
  have hstep := LexState.stepped s c
  generalize s.step c = r at hstep ⊢
  obtain ⟨s', evs⟩ := r
  intro hw'
  simp only at hstep hw' ⊢
  cases hstep with
  | outside _ hw'' => rw [hw''] at hw'; cases hw'
  | opened _ _ hraw =>
    simp only [LexState.opens]
    rcases hraw with rfl | rfl
    · exact ⟨text.take s.pos ++ [c], by simpa using htake, by simp [hlen], by simp [hlen]⟩
    · exact ⟨text.take s.pos, htake, by simp [hlen], by simp [hlen]⟩
  | grown escaped dollar hw =>
    obtain ⟨pre, hpre, hopen⟩ := h hw
    simp only [LexState.grow]
    exact ⟨pre, by rw [htake, hpre, List.append_assoc], hopen⟩
  | ended _ _ hm => rcases hm with rfl | rfl <;> cases hw'
  | endedOk => cases hw'
  | endedBlock => cases hw'
  | stop => cases hw'

/-- The word that ends at a byte is delimited by it. -/
lemma LexState.ended_in {text : List UInt8} {s : LexState} {c : UInt8} {rest : List UInt8}
    (h : s.Open text) (hw : s.inWord) (hdrop : text.drop s.pos = c :: rest) :
    s.ended.In text := by
  obtain ⟨pre, hpre, h1, h2⟩ := h hw
  have hlen : s.pos = pre.length + s.raw.length := by
    have hlt : s.pos < text.length := by
      by_contra hge
      rw [List.drop_of_length_le (by omega)] at hdrop
      cases hdrop
    have := congrArg List.length hpre
    rw [List.length_take, List.length_append] at this
    omega
  have hstart : s.ended.start = pre.length := by
    simp only [LexState.ended]
    omega
  refine ⟨pre, c, rest, ?_, hstart, hstart ▸ h1, hstart ▸ h2⟩
  calc text = text.take s.pos ++ text.drop s.pos := (List.take_append_drop _ _).symm
    _ = pre ++ s.ended.raw ++ c :: rest := by rw [hpre, hdrop]; rfl

lemma run_words {text : List UInt8} (rest : List UInt8) :
    ∀ s : LexState, s.Open text → text.drop s.pos = rest →
      ∀ w, .inl w ∈ (Mealy.run LexState.step s rest).2 → w.In text := by
  induction rest with
  | nil => simp
  | cons c rest ih =>
    intro s hopen hdrop w hw
    have hopen' := LexState.open_step hopen hdrop
    have hpos := LexState.step_pos s c
    rw [Mealy.run_cons, List.mem_append] at hw
    rcases hw with hw | hw
    · have hstep := LexState.stepped s c
      generalize s.step c = r at hstep hw
      obtain ⟨s', evs⟩ := r
      simp only at hstep hw
      cases hstep <;> simp at hw
      all_goals
        subst hw
        exact LexState.ended_in hopen ‹_› hdrop
    · exact ih _ hopen' (by rw [hpos, (take_succ_of_drop hdrop).2]) w hw

/-- The words a text is made of. -/
def lexWords (text : List UInt8) : List Word := (lexEvents text).filterMap Sum.getLeft?

lemma mem_lexWords {text : List UInt8} {w : Word} :
    w ∈ lexWords text ↔ .inl w ∈ lexEvents text := by
  simp only [lexWords, List.mem_filterMap]
  constructor
  · rintro ⟨e, he, hw⟩
    rw [Sum.getLeft?_eq_some_iff] at hw
    exact hw ▸ he
  · exact fun h => ⟨_, h, rfl⟩

/-- The words of the text are those of its directives and those left over. -/
lemma mem_lexRecords {text : List UInt8} {w : Word} :
    ((∃ r ∈ (lexRecords text).1, w ∈ r.1) ∨ w ∈ (lexRecords text).2) ↔ w ∈ lexWords text := by
  rw [mem_lexWords, lexRecords, Records.mem_cut]
  simp

/-- Every word is a piece of the text. -/
theorem lexWords_in {text : List UInt8} {w : Word} (h : w ∈ lexWords text) : w.In text :=
  run_words text (LexState.fresh 0) (fun h => by cases h) rfl w (mem_lexWords.mp h)

/-- The token of a word: its written bytes decoded, in one byte more than it is written with. -/
def wordToken (text : List UInt8) (w : Word) : FsStr :=
  ⟨decode (text.drop w.start) w.raw.length, w.raw.length + 1⟩

@[simp] lemma bufToken_zero (text : List UInt8) (w : Word) :
    bufToken (fun _ => 0) text w = some (wordToken text w) := by
  simp [bufToken, takeToken, wordToken, Word.stop]

lemma mapM_eq_map_iff {tok : Word → Option FsStr} {t : Word → FsStr} {ws : List Word} :
    ws.mapM tok = some (ws.map t) ↔ ∀ w ∈ ws, tok w = some (t w) := by
  induction ws with
  | nil => simp
  | cons w ws ih =>
    rw [List.mapM_cons, List.forall_mem_cons, ← ih]
    cases tok w with
    | none => simp
    | some v =>
      cases ws.mapM tok with
      | none => simp
      | some vs => simp

/-- The replies when no token is undefined. -/
lemma replies_of_some {tok : Word → Option FsStr} {t : Word → FsStr} (h : ∀ w, tok w = some (t w))
    (rs : List (List Word × Status)) (left : List Word) :
    replies tok rs left
      = rs.map (fun r => .taken r.2 (r.1.map t)) ++ [.taken .fileDone (left.map t)] := by
  have hm : ∀ ws : List Word, ws.mapM tok = some (ws.map t) :=
    fun ws => mapM_eq_map_iff.mpr fun w _ => h w
  induction rs with
  | nil => simp [replies, reply, hm]
  | cons r rs ih => simp [replies, hm, ih]

/-- The replies tell which token is taken for each word. -/
lemma replies_eq_iff {tok : Word → Option FsStr} {t : Word → FsStr}
    (rs : List (List Word × Status)) (left : List Word) :
    replies tok rs left
        = rs.map (fun r => .taken r.2 (r.1.map t)) ++ [.taken .fileDone (left.map t)]
      ↔ ∀ w, (∃ r ∈ rs, w ∈ r.1) ∨ w ∈ left → tok w = some (t w) := by
  induction rs with
  | nil =>
    have : replies tok [] left = [.taken .fileDone (left.map t)] ↔
        left.mapM tok = some (left.map t) := by
      simp only [replies, reply]
      cases left.mapM tok <;> simp
    simpa [mapM_eq_map_iff] using this
  | cons r rs ih =>
    obtain ⟨ws, st⟩ := r
    have : replies tok ((ws, st) :: rs) left
          = ((ws, st) :: rs).map (fun r => .taken r.2 (r.1.map t))
            ++ [.taken .fileDone (left.map t)]
        ↔ ws.mapM tok = some (ws.map t) ∧ replies tok rs left
            = rs.map (fun r => .taken r.2 (r.1.map t)) ++ [.taken .fileDone (left.map t)] := by
      simp only [replies]
      cases ws.mapM tok <;> simp
    rw [this, ih, mapM_eq_map_iff]
    constructor
    · rintro ⟨hws, hrs⟩ w (⟨r, hr, hw⟩ | hw)
      · rcases List.mem_cons.mp hr with rfl | hr
        · exact hws w hw
        · exact hrs w (.inl ⟨r, hr, hw⟩)
      · exact hrs w (.inr hw)
    · intro h
      refine ⟨fun w hw => h w (.inl ⟨_, List.mem_cons_self, hw⟩), ?_⟩
      rintro w (⟨r, hr, hw⟩ | hw)
      · exact h w (.inl ⟨r, List.mem_cons_of_mem _ hr, hw⟩)
      · exact h w (.inr hw)

/-- All replies for the rest of a file: at most one call for each byte that is left. -/
def readAll (io : ReadOutcome) (f : FsFile) (tokens : FsArr FsStr) : List Reply :=
  tokenize io (f.remaining + 2) f tokens

/-- What the scanner makes of a text that is held in one buffer. -/
theorem readAll_ofBuf (io : ReadOutcome) {mem text : List UInt8}
    (h : mem.take text.length = text) (tokens : FsArr FsStr) :
    readAll io (FsFile.ofBuf mem text.length) tokens
      = (lexRecords text).1.map (fun r => .taken r.2 (r.1.map (wordToken text)))
        ++ [.taken .fileDone ((lexRecords text).2.map (wordToken text))] := by
  have hS := inBuf_source io text
  rw [readAll, hS.remaining (inBuf_ofBuf h),
    tokenize_eq_replies hS (inBuf_ofBuf h) tokens (by omega),
    replies_of_some (bufToken_zero text)]

end Folksong
