import Folksong.Conf.Complete

/-!
# The configuration on the command line

`fs_str_set` leaves the last byte of the argument out, so that `-c` parses the text without its
last byte. This makes no difference to what is handled only if the last byte ends no directive.
-/

namespace Folksong

/-- The lexer on a text and on what comes before its last byte. -/
lemma lexEvents_dropLast (text : List UInt8) :
    ∃ evs, lexEvents text = lexEvents text.dropLast ++ evs := by
  rcases List.eq_nil_or_concat text with rfl | ⟨text, b, rfl⟩
  · exact ⟨[], rfl⟩
  · rw [List.concat_eq_append, List.dropLast_concat]
    exact ⟨_, congrArg Prod.snd (Mealy.run_append LexState.step (LexState.fresh 0) text [b])⟩

lemma lexRecords_dropLast (text : List UInt8) :
    ∃ rs left, lexRecords text = ((lexRecords text.dropLast).1 ++ rs, left) ∧
      lexStatuses text = lexStatuses text.dropLast ++ rs.map Prod.snd := by
  obtain ⟨evs, hevs⟩ := lexEvents_dropLast text
  refine ⟨(Records.cut (lexRecords text.dropLast).2 evs).1,
    (Records.cut (lexRecords text.dropLast).2 evs).2, ?_, ?_⟩
  · rw [lexRecords, hevs, Records.cut_append]
    rfl
  · rw [lexStatuses, hevs, List.filterMap_append, Records.cut_map_snd]
    rfl

/-- A word has the same token in every text that goes on behind its delimiter. -/
lemma wordToken_append {text : List UInt8} {w : Word} (hw : w.In text) (rest : List UInt8) :
    wordToken (text ++ rest) w = wordToken text w := by
  obtain ⟨pre, c, behind, htext, hstart, -, -⟩ := hw
  have hdrop : ∀ rest, (text ++ rest).drop w.start = w.raw ++ c :: (behind ++ rest) := by
    intro rest
    rw [htext, hstart, List.append_assoc, List.append_assoc, List.drop_left, List.cons_append]
  have htake : ∀ rest, ((text ++ rest).drop w.start).take (w.raw.length + 1) = w.raw ++ [c] := by
    intro rest
    rw [hdrop, List.take_length_add_append]
    rfl
  have hnil := htake []
  rw [List.append_nil] at hnil
  simp only [wordToken]
  rw [decode_take, htake, ← hnil, ← decode_take]

section

variable {μ κ H : Type} [DecidableEq μ] {env : Env μ κ H} {mode : ParseMode}

/-- The end of a parse does not depend on where the text comes from. -/
lemma conduct_param_eq_file (rs : List Reply) :
    ∀ c : Conf μ κ H, conduct env .param c rs = conduct env .file c rs := by
  induction rs with
  | nil => exact fun _ => rfl
  | cons r rs ih =>
    intro c
    cases r with
    | undefined => rfl
    | taken st ts =>
      by_cases hst : st.isDirective
      · rw [conduct_directive env .param hst, conduct_directive env .file hst]
        cases fsConfHandle env (c.taken st ts) st with
        | ok c' => simp only [ih c']
        | error e => cases e <;> rfl
      · cases st <;> first | rfl | exact absurd rfl hst

/-- Words that no directive has are dropped. -/
lemma conduct_left {tok : Word → Option FsStr} {t : Word → FsStr} (htok : ∀ w, tok w = some (t w))
    {rs : List (List Word × Status)} (hdir : ∀ r ∈ rs, r.2.isDirective) (left left' : List Word) :
    ∀ c : Conf μ κ H, conduct env mode c (replies tok rs left)
      = conduct env mode c (replies tok rs left') := by
  have hm : ∀ ws : List Word, ws.mapM tok = some (ws.map t) :=
    fun ws => mapM_eq_map_iff.mpr fun w _ => htok w
  induction rs with
  | nil =>
    intro c
    simp [replies, reply, hm, conduct]
  | cons r rs ih =>
    intro c
    rw [List.forall_mem_cons] at hdir
    obtain ⟨ws, st⟩ := r
    simp only [replies, hm, conduct_directive env mode hdir.1]
    cases fsConfHandle env (c.taken st (ws.map t)) st with
    | ok c' => simp only [ih hdir.2 c']
    | error e => cases e <;> rfl

/-- The parse of the text `text`, whose words have these tokens. -/
def conductText (env : Env μ κ H) (text : List UInt8) (c : Conf μ κ H) : Parsed μ κ :=
  conduct env .file c
    (replies (fun w => some (wordToken text w)) (lexRecords text).1 (lexRecords text).2)

/-- `-c` parses everything but the last byte. -/
lemma fsConfParseCmdline_eq (io : ReadOutcome) (text : List UInt8) (c : Conf μ κ H) :
    fsConfParseCmdline env io (fsStrSet text) c = conductText env text.dropLast c := by
  obtain ⟨behind, hbehind⟩ := fsStrSet_split text
  rw [fsConfParseCmdline, fsStrSet_ahead, hbehind]
  split_ifs with hempty
  · rw [dropLast_of_fsStrEmpty hempty]
    rfl
  · dsimp only
    rw [parseLoop_cmdline, conduct_param_eq_file]
    rfl

/-- `-f` parses the whole text, which fits in one load of the buffer. -/
lemma fsConfParse_eq {io : ReadOutcome} (hio : ∀ off, io off = true) {text : List UInt8}
    (hlen : text.length ≤ fsConfPayloadBufferSize) (mem : List UInt8) (c : Conf μ κ H) :
    fsConfParse env io text mem c = conductText env text c := by
  have hload : ∀ w ∈ lexWords text, w.InOneLoad := by
    intro w hw
    obtain ⟨pre, b, behind, htext, hstart, hopen, -⟩ := lexWords_in hw
    have hstop : w.stop < fsConfPayloadBufferSize := by
      have hlength := congrArg List.length htext
      simp only [List.length_append, List.length_cons] at hlength
      rw [Word.stop]
      omega
    have hopen' : w.opened < fsConfPayloadBufferSize :=
      lt_of_le_of_lt (hopen.trans (Nat.le_add_right _ _)) hstop
    rw [Word.InOneLoad, Nat.div_eq_of_lt hopen', Nat.div_eq_of_lt hstop]
  have hread := (readAll_opened_iff_tokens hio text mem [] c.tokens c.tokens).mpr fun w hw =>
    (bufToken_loadBase_iff (lexWords_in hw)).mpr (hload w hw)
  have htake : (text ++ []).take text.length = text := List.take_left' rfl
  rw [fsConfParse, parseLoop_eq_conduct, conductText, replies_of_some (fun _ => rfl),
    ← readAll_ofBuf io htake c.tokens, ← hread]
  rfl

/-- The parse of a text and of what comes before its last byte, when that byte ends no directive
or the parse stops before it. -/
lemma conductText_dropLast {text : List UInt8}
    (h : lexStatuses text = lexStatuses text.dropLast ∨ SurplusClose text.dropLast)
    {c : Conf μ κ H} (hc : c.stMod = []) :
    conductText env text.dropLast c = conductText env text c := by
  obtain ⟨rs, left, hrecords, hstatuses⟩ := lexRecords_dropLast text
  have hdir := lexRecords_isDirective text.dropLast
  have htokens : ∀ w ∈ lexWords text.dropLast,
      some (wordToken text w) = some (wordToken text.dropLast w) := by
    intro w hw
    rcases List.eq_nil_or_concat text with rfl | ⟨text, b, rfl⟩
    · rfl
    · rw [List.concat_eq_append, List.dropLast_concat] at hw ⊢
      rw [wordToken_append (lexWords_in hw)]
  -- The directives before the last byte have the same tokens in both texts.
  have hreplies : replies (fun w => some (wordToken text w)) (lexRecords text.dropLast).1
        (lexRecords text.dropLast).2
      = replies (fun w => some (wordToken text.dropLast w)) (lexRecords text.dropLast).1
        (lexRecords text.dropLast).2 := by
    rw [replies_of_some (t := wordToken text.dropLast) (fun _ => rfl)]
    exact (replies_eq_iff _ _).mpr fun w hw => htokens w (mem_lexRecords.mp hw)
  rw [conductText, conductText, hrecords, ← hreplies]
  dsimp only
  rcases h with hsame | hsurplus
  · have hnil : rs = [] := by
      rw [hstatuses, List.append_right_eq_self, List.map_eq_nil_iff] at hsame
      exact hsame
    rw [hnil, List.append_nil]
    exact conduct_left (t := wordToken text) (fun _ => rfl) hdir _ _ c
  · have hnone := (nesting_lexRecords_iff text.dropLast hc).mpr hsurplus
    exact (conduct_surplus hdir c hnone rs left _).1.symm

/-- A text with a closing brace too many is not accepted. -/
lemma conductText_surplus {text : List UInt8} (h : SurplusClose text) {c : Conf μ κ H}
    (hc : c.stMod = []) : (conductText env text c).verdict ≠ .ok := by
  have hnone := (nesting_lexRecords_iff text hc).mpr h
  exact (conduct_surplus (lexRecords_isDirective text) c hnone [] _ []).2

end

/-- With `permissive` every directive of any other text is handled. -/
lemma conductText_permissive {text : List UInt8} (h : ¬ SurplusClose text) :
    (conductText permissive text (Conf.start namedTokens ())).verdict = .ok ∧
      (conductText permissive text (Conf.start namedTokens ())).directives.map Prod.fst
        = lexStatuses text := by
  have hopen : (nesting (Conf.start namedTokens () : Conf Unit Unit Unit).stMod.length
      ((lexRecords text).1.map Prod.snd)).isSome :=
    Option.isSome_iff_ne_none.mpr (mt (nesting_lexRecords_iff text rfl).mp h)
  have hmode : ParseMode.file ≠ .block := by decide
  obtain ⟨hok, hdirectives⟩ := permissive_conduct (t := wordToken text) (fun _ => rfl) hmode
    (lexRecords_isDirective text) (lexRecords text).2 _ ready_start hopen
  refine ⟨hok, ?_⟩
  rw [conductText, hdirectives, List.map_map, ← lexRecords_statuses]
  rfl

/-- A text that fits in one load of the buffer is handled in the same way whether it is given with
`-c` or with `-f`, by all modules and in any memory, exactly when its last byte ends no directive
or an earlier closing brace has no open block. -/
theorem cmdline_eq_file_iff {io : ReadOutcome} (hio : ∀ off, io off = true) {text : List UInt8}
    (hlen : text.length ≤ fsConfPayloadBufferSize) (mem : List UInt8) :
    (∀ (μ κ H : Type) (_ : DecidableEq μ) (env : Env μ κ H) (tokens : FsArr FsStr) (heap : H),
        fsConfParseCmdline env io (fsStrSet text) (Conf.start tokens heap)
          = fsConfParse env io text mem (Conf.start tokens heap))
      ↔ lexStatuses text = lexStatuses text.dropLast ∨ SurplusClose text.dropLast := by
  constructor
  · intro h
    have heq := h Unit Unit Unit inferInstance permissive namedTokens ()
    rw [fsConfParseCmdline_eq, fsConfParse_eq hio hlen] at heq
    by_cases hsurplus : SurplusClose text.dropLast
    · exact .inr hsurplus
    · -- The last byte must not end a directive: with `permissive` it would be handled.
      left
      obtain ⟨hok, hstatuses⟩ := conductText_permissive hsurplus
      by_cases hsurplus' : SurplusClose text
      · rw [heq] at hok
        exact absurd hok (conductText_surplus hsurplus' rfl)
      · rw [← (conductText_permissive hsurplus').2, ← hstatuses, heq]
  · intro h μ κ H _ env tokens heap
    rw [fsConfParseCmdline_eq, fsConfParse_eq hio hlen]
    exact conductText_dropLast h rfl

/-- A text whose last byte is a line feed. -/
theorem cmdline_eq_file_line :
    fsConfParseCmdline sampleEnv (fun _ => true) (fsStrSet (bytes "fs_version\x7b\x7d\n"))
        sampleStart
      = fsConfParse sampleEnv (fun _ => true) (bytes "fs_version\x7b\x7d\n") [] sampleStart :=
  (cmdline_eq_file_iff (fun _ => rfl) (by decide) []).mpr (.inl (by decide)) _ _ _ _ sampleEnv _ _

/-- The brace that ends the text never reaches the engine. -/
theorem cmdline_ne_file :
    ¬ ∀ text : List UInt8, text ≠ [] → 0 ∉ text → text.length ≤ fsConfPayloadBufferSize →
      fsConfParseCmdline sampleEnv (fun _ => true) (fsStrSet text) sampleStart
        = fsConfParse sampleEnv (fun _ => true) text [] sampleStart := by
  intro h
  have heq := h (bytes "fs_version\x7b\x7d") (by decide) (by decide) (by decide)
  have hne : (fsConfParseCmdline sampleEnv (fun _ => true) (fsStrSet (bytes "fs_version\x7b\x7d"))
      sampleStart).directives.length ≠ (fsConfParse sampleEnv (fun _ => true)
        (bytes "fs_version\x7b\x7d") [] sampleStart).directives.length := by
    decide +kernel
  exact hne (congrArg (fun parsed => parsed.directives.length) heq)

end Folksong
