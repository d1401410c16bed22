import Folksong.Conf.Stale
import Folksong.Mod.Exec
import Folksong.Mod.Order

/-!
# Words of earlier directives in the shipped modules

All callbacks compare the number of words before they look at one, but for those of `exec`, which
take the second word for the file of the process. And a directive without words is dispatched by
the first word of an earlier one.
-/

namespace Folksong

/-- What libraries and fresh memory give does not depend on the slots that are not in use. -/
structure Lib.Deaf (lib : Lib) : Prop where
  uninitNull : ∀ k (c : Engine) t t', FsArr.Agrees t t' →
    lib.uninitNull (c.retoken t') k = lib.uninitNull (c.retoken t) k
  misused : ∀ k (c : Engine) p t t', FsArr.Agrees t t' →
    lib.misused k (c.retoken t') p = lib.misused k (c.retoken t) p
  misusedCompleted : ∀ m (c : Engine) p t t', FsArr.Agrees t t' →
    lib.misusedCompleted m (c.retoken t') p = lib.misusedCompleted m (c.retoken t) p

/-- Neither does what other memory gives. -/
structure Junk.Deaf (junk : Junk) : Prop where
  stale : ∀ (c : Engine) s t t', FsArr.Agrees t t' →
    junk.stale (c.retoken t') s = junk.stale (c.retoken t) s
  first : ∀ (c : Engine) t t', FsArr.Agrees t t' →
    junk.first (c.retoken t') = junk.first (c.retoken t)

/-! ### Where `exec` takes its word -/

/-- The innermost block takes an `exec` directive: it is a timer, or a topic that has been added to
its listener. -/
inductive TakesExec (c : Engine) (p : Ptr) : Callback → Prop where
  | timer {t : Timer} : topMod c = some .timer → c.heap.get p = some (.timer t) →
      TakesExec c p .timerExec
  | listener {l : Listener} {topics : FsArr Topic} {topic : Topic} :
      topMod c = some .kafkaListener → topCmd c = some .kafkaListenerTopic →
      c.heap.get p = some (.listener l) → l.topic = .arr topics → topics.eleCount ≠ 0 →
      topics.nth (topics.eleCount - 1) = some topic → TakesExec c p .kafkaListenerExec

/-- The file of the process that is stored behind a context: in the timer, or in the topic that was
added last. -/
inductive ExecFile (h : Heap) (p : Ptr) : Option FsStr → Prop where
  | timer {t : Timer} {o : ProcOptions} : h.get p = some (.timer t) → t.procOptions = some o →
      ExecFile h p o.file
  | listener {l : Listener} {topics : FsArr Topic} {topic : Topic} {o : ProcOptions} :
      h.get p = some (.listener l) → l.topic = .arr topics →
      topics.nth (topics.eleCount - 1) = some topic → topic.procOptions = some o →
      ExecFile h p o.file

section

variable {lib : Lib} {c c' : Engine} {p : Ptr} {k : Callback} {t t' : FsArr FsStr}

lemma ExecFile.unique {h : Heap} {file file' : Option FsStr} (hfile : ExecFile h p file)
    (hfile' : ExecFile h p file') : file' = file := by
  cases hfile with
  | timer hget hopt =>
    cases hfile' with
    | timer hget' hopt' =>
      rw [hget] at hget'
      cases hget'
      rw [hopt] at hopt'
      cases hopt'
      rfl
    | listener hget' =>
      rw [hget] at hget'
      cases hget'
  | listener hget htopic hnth hopt =>
    cases hfile' with
    | timer hget' =>
      rw [hget] at hget'
      cases hget'
    | listener hget' htopic' hnth' hopt' =>
      rw [hget] at hget'
      cases hget'
      rw [htopic] at htopic'
      cases htopic'
      rw [hnth] at hnth'
      cases hnth'
      rw [hopt] at hopt'
      cases hopt'
      rfl

/-- What decides is the stack and the memory. -/
lemma TakesExec.congr (h : TakesExec c p k) (hs : c'.stMod = c.stMod) (hheap : c'.heap = c.heap) :
    TakesExec c' p k := by
  have hmod : topMod c' = topMod c := by rw [topMod, topMod, hs]
  have hcmd : topCmd c' = topCmd c := by rw [topCmd, topCmd, hs]
  cases h with
  | timer htop hget => exact .timer (hmod.trans htop) (by rw [hheap, hget])
  | listener htop hcmd' hget htopic hne hnth =>
    exact .listener (hmod.trans htop) (hcmd.trans hcmd') (by rw [hheap, hget]) htopic hne hnth

lemma TakesExec.not_declines (h : TakesExec c p k) : ¬ k.Declines c := by
  cases h with
  | timer htop => exact fun hdecl => hdecl htop
  | listener htop => exact fun hdecl => hdecl htop

lemma TakesExec.stMod_ne_nil (h : TakesExec c p k) : c.stMod ≠ [] := by
  cases h with
  | timer htop => exact Folksong.stMod_ne_nil htop
  | listener htop => exact Folksong.stMod_ne_nil htop

/-- The file is the second word, whether there is one or not. -/
lemma TakesExec.call (h : TakesExec c p k) (hfits : (execArgs c.tokens).Fits lib) :
    ∃ heap, shippedCall lib k c p = some (.ok, heap) ∧ ExecFile heap p (c.tokens.nth 1) := by
  cases h with
  | timer htop hget =>
    rw [shippedCall, fsModTimerCmdExec, if_neg (by simpa using htop), hget]
    dsimp only
    rw [if_pos hfits]
    refine ⟨_, rfl, ?_⟩
    exact .timer (o := execOptions c.tokens) (Heap.get_set_self hget _) rfl
  | @listener l topics topic htop hcmd hget htopic hne hnth =>
    rw [shippedCall, fsModKafkaListenerCmdExec, if_neg (by simpa using htop),
      if_neg (by simpa using hcmd), hget]
    dsimp only
    rw [htopic]
    dsimp only
    rw [if_neg hne, hnth]
    dsimp only
    rw [if_pos hfits]
    refine ⟨_, rfl, ?_⟩
    have hlt : topics.eleCount - 1 < topics.elems.length := by
      have hle := topics.count_le
      omega
    exact .listener (o := execOptions c.tokens) (Heap.get_set_self hget _) rfl
      (topics.write_nth_self _ hlt) rfl

/-! ### The callbacks and the slots that are not in use -/

lemma execFits_agrees (h : t.Agrees t') :
    (execArgs t').Fits lib ↔ (execArgs t).Fits lib := by
  rw [execArgs_fits_iff, execArgs_fits_iff, h.eleCount]

lemma execOptions_agrees (h : t.Agrees t') (hcount : 2 ≤ t.eleCount) :
    execOptions t' = execOptions t := by
  have hstores : (List.range' 1 (t.eleCount - 1)).map (fun i => (i - 1, some (t'.nth i)))
      = (List.range' 1 (t.eleCount - 1)).map fun i => (i - 1, some (t.nth i)) := by
    refine List.map_congr_left fun i hi => ?_
    rw [List.mem_range'_1] at hi
    rw [h.nth i (by omega)]
  rw [execOptions, execOptions, execArgs, execArgs, h.eleCount, hstores, h.nth 1 hcount]

section

variable (c t t')

@[simp] lemma topMod_retoken : topMod (c.retoken t) = topMod c := rfl

@[simp] lemma topCmd_retoken : topCmd (c.retoken t) = topCmd c := rfl

@[simp] lemma subtopMod_retoken : subtopMod (c.retoken t) = subtopMod c := rfl

@[simp] lemma subtopCmd_retoken : subtopCmd (c.retoken t) = subtopCmd c := rfl

@[simp] lemma tokens_retoken : (c.retoken t).tokens = t := rfl

@[simp] lemma heap_retoken : (c.retoken t).heap = c.heap := rfl

@[simp] lemma tokenText_retoken (i : Nat) :
    tokenText (c.retoken t) i = (t.nth i).map FsStr.cstr := rfl

end

/-- A callback that wants two words looks at the second one then. -/
lemma timerCmdTime_deaf (hlib : lib.Deaf) (h : t.Agrees t') {flag : Timer → Bool}
    {store : Timer → Nat → Timer} :
    timerCmdTime k flag store lib (c.retoken t') p
      = timerCmdTime k flag store lib (c.retoken t) p := by
  simp only [timerCmdTime, topMod_retoken, tokens_retoken, heap_retoken, tokenText_retoken,
    h.eleCount, hlib.misused k c p t t' h]
  by_cases hcount : t.eleCount = 2
  · rw [h.nth 1 (by omega)]
    rfl
  · simp only [ne_eq, hcount, not_false_eq_true, if_true]

lemma publisherCmd_deaf (hlib : lib.Deaf) (h : t.Agrees t') {words : Nat}
    {store : Publisher → Engine → Option (Option Publisher)}
    (hstore : t.eleCount = words →
      ∀ publisher, store publisher (c.retoken t') = store publisher (c.retoken t)) :
    publisherCmd k words store lib (c.retoken t') p
      = publisherCmd k words store lib (c.retoken t) p := by
  simp only [publisherCmd, topCmd_retoken, tokens_retoken, heap_retoken, h.eleCount,
    hlib.misused k c p t t' h]
  by_cases hcount : t.eleCount = words
  · simp only [hstore hcount]
    rfl
  · simp only [ne_eq, hcount, not_false_eq_true, if_true]

lemma publisherField_deaf (hlib : lib.Deaf) (h : t.Agrees t') {field : Publisher → StrField}
    {store : Publisher → StrField → Publisher} :
    publisherField k field store lib (c.retoken t') p
      = publisherField k field store lib (c.retoken t) p := by
  rw [publisherField]
  refine publisherCmd_deaf hlib h fun hcount publisher => ?_
  rw [tokens_retoken, tokens_retoken, h.nth 1 (by omega)]

lemma timerExec_deaf (hlib : lib.Deaf) (h : t.Agrees t')
    (hexec : 2 ≤ t.eleCount ∨ ¬ (TakesExec c p .timerExec ∧ (execArgs t).Fits lib)) :
    fsModTimerCmdExec lib (c.retoken t') p = fsModTimerCmdExec lib (c.retoken t) p := by
  rw [fsModTimerCmdExec, fsModTimerCmdExec]
  by_cases htop : topMod c = some .timer
  · have htop' : ∀ t, topMod (c.retoken t) = some .timer := fun _ => htop
    rw [if_neg (not_ne_iff.mpr (htop' t)), if_neg (not_ne_iff.mpr (htop' t')), heap_retoken,
      heap_retoken]
    cases hget : c.heap.get p with
    | none => exact hlib.misused _ c p t t' h
    | some o =>
      cases o with
      | timer timer =>
        dsimp only
        rw [tokens_retoken, tokens_retoken]
        by_cases hfits : (execArgs t).Fits lib
        · have hcount : 2 ≤ t.eleCount :=
            hexec.resolve_right (not_not_intro ⟨.timer htop hget, hfits⟩)
          rw [if_pos hfits, if_pos ((execFits_agrees h).mpr hfits), execOptions_agrees h hcount]
        · rw [if_neg hfits, if_neg (mt (execFits_agrees h).mp hfits)]
      | _ => exact hlib.misused _ c p t t' h
  · have htop' : ∀ t, topMod (c.retoken t) ≠ some .timer := fun _ => htop
    rw [if_pos (htop' t), if_pos (htop' t')]
    rfl

lemma listenerExec_deaf (hlib : lib.Deaf) (h : t.Agrees t')
    (hexec : 2 ≤ t.eleCount ∨ ¬ (TakesExec c p .kafkaListenerExec ∧ (execArgs t).Fits lib)) :
    fsModKafkaListenerCmdExec lib (c.retoken t') p
      = fsModKafkaListenerCmdExec lib (c.retoken t) p := by
  rw [fsModKafkaListenerCmdExec, fsModKafkaListenerCmdExec]
  by_cases htop : topMod c = some .kafkaListener
  · have htop' : ∀ t, topMod (c.retoken t) = some .kafkaListener := fun _ => htop
    rw [if_neg (not_ne_iff.mpr (htop' t)), if_neg (not_ne_iff.mpr (htop' t'))]
    by_cases hcmd : topCmd c = some .kafkaListenerTopic
    · have hcmd' : ∀ t, topCmd (c.retoken t) = some .kafkaListenerTopic := fun _ => hcmd
      rw [if_neg (not_ne_iff.mpr (hcmd' t)), if_neg (not_ne_iff.mpr (hcmd' t')), heap_retoken,
        heap_retoken]
      cases hget : c.heap.get p with
      | none => exact hlib.misused _ c p t t' h
      | some o =>
        cases o with
        | listener l =>
          dsimp only
          cases htopic : l.topic with
          | arr topics =>
            dsimp only
            rw [tokens_retoken, tokens_retoken]
            by_cases hempty : topics.eleCount = 0
            · rw [if_pos hempty, if_pos hempty]
            rw [if_neg hempty, if_neg hempty]
            cases hnth : topics.nth (topics.eleCount - 1) with
            | none => rfl
            | some topic =>
              dsimp only
              by_cases hfits : (execArgs t).Fits lib
              · have hcount : 2 ≤ t.eleCount := hexec.resolve_right
                  (not_not_intro ⟨.listener htop hcmd hget htopic hempty hnth, hfits⟩)
                rw [if_pos hfits, if_pos ((execFits_agrees h).mpr hfits),
                  execOptions_agrees h hcount]
              · rw [if_neg hfits, if_neg (mt (execFits_agrees h).mp hfits)]
          | _ => rfl
        | _ => exact hlib.misused _ c p t t' h
    · have hcmd' : ∀ t, topCmd (c.retoken t) ≠ some .kafkaListenerTopic := fun _ => hcmd
      rw [if_pos (hcmd' t), if_pos (hcmd' t')]
      rfl
  · have htop' : ∀ t, topMod (c.retoken t) ≠ some .kafkaListener := fun _ => htop
    rw [if_pos (htop' t), if_pos (htop' t')]
    rfl

/-- The callbacks do not look at the slots that are not in use, but for an `exec` that is taken. -/
lemma shippedCall_deaf (hlib : lib.Deaf) (h : t.Agrees t')
    (hexec : 2 ≤ t.eleCount ∨ ¬ (TakesExec c p k ∧ (execArgs t).Fits lib)) :
    shippedCall lib k (c.retoken t') p = shippedCall lib k (c.retoken t) p := by
  have hmisused : ∀ k, lib.misused k (c.retoken t') p = lib.misused k (c.retoken t) p :=
    fun k => hlib.misused k c p t t' h
  have hnth : ∀ n, t.eleCount = n → ∀ i, i < n → t'.nth i = t.nth i := by
    rintro n rfl i hi
    exact h.nth i hi
  cases k with
  | versionInit => simp only [shippedCall, fsModVersionInit, heap_retoken, hmisused]
  | versionArt => simp only [shippedCall, fsModVersionArt, heap_retoken, hmisused]
  | timerBlock => rfl
  | timerTimeout => exact timerCmdTime_deaf hlib h
  | timerRepeat => exact timerCmdTime_deaf hlib h
  | timerExec => exact timerExec_deaf hlib h hexec
  | httpBlock => rfl
  | httpHost =>
    simp only [shippedCall, fsModHttpCmdHost, topMod_retoken, tokens_retoken, heap_retoken,
      h.eleCount, hmisused]
    by_cases hcount : t.eleCount = 2
    · rw [hnth 2 hcount 1 one_lt_two]
      rfl
    · simp only [ne_eq, hcount, not_false_eq_true, if_true]
  | httpPort =>
    simp only [shippedCall, fsModHttpCmdPort, topMod_retoken, tokens_retoken, heap_retoken,
      tokenText_retoken, h.eleCount, hmisused]
    by_cases hcount : t.eleCount = 2
    · rw [hnth 2 hcount 1 one_lt_two]
      rfl
    · simp only [ne_eq, hcount, not_false_eq_true, if_true]
  | httpKafkaBlock =>
    simp only [shippedCall, fsModHttpKafkaBlock, subtopMod_retoken, tokens_retoken, heap_retoken,
      h.eleCount, hmisused, hlib.uninitNull _ c t t' h]
    by_cases hcount : t.eleCount = 2
    · rw [hnth 2 hcount 1 one_lt_two]
      rfl
    · simp only [ne_eq, hcount, not_false_eq_true, if_true]
  | httpKafkaConfig =>
    rw [shippedCall, fsModHttpKafkaCmdConfig]
    refine publisherCmd_deaf hlib h fun hcount publisher => ?_
    rw [tokens_retoken, tokens_retoken, hnth 3 hcount 1 (by omega), hnth 3 hcount 2 (by omega)]
  | httpKafkaTopicParam =>
    rw [shippedCall, fsModHttpKafkaCmdTopicParam]
    exact publisherField_deaf hlib h
  | httpKafkaDefaultTopic =>
    rw [shippedCall, fsModHttpKafkaCmdDefaultTopic]
    exact publisherField_deaf hlib h
  | httpKafkaKeyParam =>
    rw [shippedCall, fsModHttpKafkaCmdKeyParam]
    exact publisherField_deaf hlib h
  | httpKafkaDefaultKey =>
    rw [shippedCall, fsModHttpKafkaCmdDefaultKey]
    exact publisherField_deaf hlib h
  | httpProxyBlock =>
    simp only [shippedCall, fsModHttpProxyBlock, subtopMod_retoken, tokens_retoken, heap_retoken,
      h.eleCount, hmisused]
    by_cases hcount : t.eleCount = 2
    · rw [hnth 2 hcount 1 one_lt_two]
      rfl
    · simp only [ne_eq, hcount, not_false_eq_true, if_true]
  | httpProxyPassPath =>
    simp only [shippedCall, fsModHttpProxyCmdPassPath, subtopMod_retoken, tokens_retoken,
      heap_retoken, h.eleCount, hmisused]
    by_cases hcount : t.eleCount = 2
    · rw [hnth 2 hcount 1 one_lt_two]
      rfl
    · simp only [ne_eq, hcount, not_false_eq_true, if_true]
  | kafkaListenerBlock => rfl
  | kafkaListenerConfig =>
    simp only [shippedCall, fsModKafkaListenerCmdConfig, topMod_retoken, topCmd_retoken,
      tokens_retoken, heap_retoken, tokenText_retoken, h.eleCount, hmisused]
    by_cases hcount : t.eleCount = 3
    · rw [hnth 3 hcount 1 (by omega), hnth 3 hcount 2 (by omega)]
      rfl
    · simp only [ne_eq, hcount, not_false_eq_true, if_true]
  | kafkaListenerTopic =>
    simp only [shippedCall, fsModKafkaListenerCmdTopic, topMod_retoken, subtopCmd_retoken,
      tokens_retoken, heap_retoken, h.eleCount, hmisused]
    by_cases hcount : t.eleCount = 2
    · rw [hnth 2 hcount 1 one_lt_two]
      rfl
    · simp only [ne_eq, hcount, not_false_eq_true, if_true]
  | kafkaListenerExec => exact listenerExec_deaf hlib h hexec

end

variable {mods : List (FsMod ModId Callback)} {lib : Lib} {junk : Junk} {c : Engine}
  {t t' : FsArr FsStr} {st : Status}

lemma completed_deaf (hlib : lib.Deaf) (h : t.Agrees t') {m : ModId}
    {f : Engine → Ptr → Called} (hf : (shippedMethods lib m).initModCompleted = some f)
    (c : Engine) (p : Ptr) : f (c.retoken t') p = f (c.retoken t) p := by
  cases m with
  | version =>
    cases hf
    rfl
  | timer =>
    cases hf
    simp only [fsModTimerInitModCompleted, heap_retoken, hlib.misusedCompleted _ c p t t' h]
  | http =>
    cases hf
    simp only [fsModHttpInitModCompleted, heap_retoken, hlib.misusedCompleted _ c p t t' h]
    rfl
  | kafkaListener =>
    cases hf
    simp only [fsModKafkaListenerInitModCompleted, heap_retoken,
      hlib.misusedCompleted _ c p t t' h]
    rfl
  | httpKafka | httpProxy => cases hf

lemma shippedEnv_similar (hlib : lib.Deaf) (hjunk : junk.Deaf) (h : t.Agrees t') :
    ((shippedEnv mods lib junk).over t).Similar ((shippedEnv mods lib junk).over t') where
  globalMods := rfl
  methods := by
    funext m
    simp only [Env.over, FsModMethod.mk.injEq]
    constructor
    · cases m <;> rfl
    · change (shippedMethods lib m).initModCompleted.map _
        = (shippedMethods lib m).initModCompleted.map _
      cases hf : (shippedMethods lib m).initModCompleted with
      | none => rfl
      | some f => exact congrArg some (funext₂ (completed_deaf hlib h hf))
  stale := by
    funext c s
    exact hjunk.stale c s t t' h
  uninit := rfl
  first := by
    funext c
    exact hjunk.first c t t' h

/-! ### An `exec` directive -/

/-- The directive is an `exec` that the innermost block takes. -/
structure ExecTakes (env : Env ModId Callback Heap) (c : Engine) (st : Status) : Prop where
  status : st = .ok
  word : ∃ name, c.tokens.nth 0 = some name ∧ bytes "exec" <+: name.cstr
  taken : ∃ k, TakesExec c (c.topCtx env) k

section

variable {p q : ModId × FsCmd Callback} {name : FsStr} {k : Callback} {ctx : Ptr}

lemma exec_commands (hmods : ∀ m ∈ mods, m ∈ shippedMods)
    (hp : p ∈ (shippedEnv mods lib junk).candidates) (h : TakesExec c ctx p.2.call) :
    p.2.token.text = bytes "exec" ∧ p.2.isParam = true := by
  have hall : ∀ m ∈ shippedMods, ∀ cmd ∈ m.commands,
      cmd.call = .timerExec ∨ cmd.call = .kafkaListenerExec →
        cmd.token.text = bytes "exec" ∧ cmd.isParam = true := by decide +kernel
  obtain ⟨m, hm, -, hcmd⟩ := mem_commands_of_mem_candidates hmods hp
  apply hall m hm p.2 hcmd
  generalize p.2.call = k at h
  cases h with
  | timer => exact .inl rfl
  | listener => exact .inr rfl

/-- The commands named `exec` fit such a directive. -/
lemma exec_fitting (hmods : mods.Perm shippedMods) (hname : name.IsToken)
    (hpre : bytes "exec" <+: name.cstr) (h : TakesExec c ctx k) :
    ∃ p ∈ (shippedEnv mods lib junk).fitting name .ok, p.2.call = k := by
  have hall : ∀ k ∈ [Callback.timerExec, .kafkaListenerExec], ∃ p ∈ (shippedMods.flatMap fun m =>
      (m.commands.takeWhile fun cmd => !cmd.isEnd).map (m.id, ·)),
        p.2.call = k ∧ p.2.token.text = bytes "exec" ∧ p.2.fits .ok := by decide +kernel
  have hk : k ∈ [Callback.timerExec, .kafkaListenerExec] := by
    cases h with
    | timer => exact List.mem_cons_self
    | listener => exact List.mem_cons_of_mem _ List.mem_cons_self
  obtain ⟨p, hp, hcall, htext, hfits⟩ := hall k hk
  have hcand : p ∈ (shippedEnv mods lib junk).candidates := (hmods.flatMap_right _).mem_iff.mpr hp
  refine ⟨p, Env.mem_fitting.mpr ⟨hcand, ?_⟩, hcall⟩
  rw [matches_iff_begins (mem_shipped_of_perm hmods) hname hcand, htext]
  exact ⟨hpre, hfits⟩

/-- The word of a directive that `exec` takes is `exec`. -/
lemma ExecTakes.of_fitting (hmods : ∀ m ∈ mods, m ∈ shippedMods) (hname : name.IsToken)
    (hnth : c.tokens.nth 0 = some name) (hp : p ∈ (shippedEnv mods lib junk).fitting name st)
    (h : TakesExec c (c.topCtx (shippedEnv mods lib junk)) p.2.call) :
    ExecTakes (shippedEnv mods lib junk) c st := by
  obtain ⟨hcand, hmatch⟩ := Env.mem_fitting.mp hp
  obtain ⟨htext, hparam⟩ := exec_commands hmods hcand h
  have hst := FsCmd.fits_eq (FsCmd.fits_of_matches hmatch)
  rw [FsCmd.isParam, Bool.and_eq_true, Bool.not_eq_true'] at hparam
  rw [hparam.2] at hst
  rw [matches_iff_begins hmods hname hcand, htext] at hmatch
  exact ⟨hst, ⟨name, hnth, hmatch.1⟩, ⟨_, h⟩⟩

/-- The command that takes the directive accepts it, with the second word for its file. -/
lemma tryCmd_takes {m : ModId} {cmd : FsCmd Callback} {first : Bool} (hparam : cmd.isParam = true)
    (h : TakesExec c (c.topCtx (shippedEnv mods lib junk)) cmd.call)
    (hfits : (execArgs c.tokens).Fits lib) :
    ∃ c', tryCmd (shippedEnv mods lib junk) c m cmd st first = .ok c' ∧
      ExecFile c'.heap (c.topCtx (shippedEnv mods lib junk)) (c.tokens.nth 1) := by
  have hne := h.stMod_ne_nil
  generalize hctx : c.topCtx (shippedEnv mods lib junk) = ctx at h
  obtain ⟨heap, hcall, hfile⟩ : ∃ heap, shippedCall lib cmd.call c ctx = some (.ok, heap) ∧
      ExecFile heap ctx (c.tokens.nth 1) := h.call hfits
  have hrun : c.runCall (shippedEnv mods lib junk) m cmd ctx
      = some (.ok, Conf.emit { c with heap := heap } (.call m cmd ctx .ok)) := by
    rw [Conf.runCall]
    change (shippedCall lib cmd.call c ctx).map _ = _
    rw [hcall]
    rfl
  refine ⟨Conf.emit { c with heap := heap } (.call m cmd ctx .ok), ?_, hfile⟩
  rw [tryCmd, if_pos hparam, tryParam, if_neg (by simpa using hne), hctx, hrun]
  rfl

lemma topCtx_relog (hblind : junk.Blind) (c : Engine) (log : List (Event ModId Callback)) :
    (c.relog log).topCtx (shippedEnv mods lib junk) = c.topCtx (shippedEnv mods lib junk) := by
  rw [Conf.topCtx, Conf.topCtx, show (c.relog log).stMod = c.stMod from rfl]
  cases c.stMod with
  | nil => rfl
  | cons frame frames =>
    dsimp only
    rw [Conf.deref, Conf.deref, show (shippedEnv mods lib junk).stale = junk.stale from rfl,
      hblind.stale]
    rfl

/-- When a command passes and its rival then takes the directive, it had declined. -/
lemma declines_of_pass (hp : p ∈ (shippedEnv mods lib junk).fitting name st)
    (hrival : p.2.call.rival = some q.2.call) {c' : Engine} {first first' : Bool}
    (hpass : tryCmd (shippedEnv mods lib junk) c p.1 p.2 st first = .error (.pass first' c'))
    (h : TakesExec c' ctx q.2.call) : p.2.call.Declines c := by
  have hmatch := (Env.mem_fitting.mp hp).2
  have hstMod := (tryCmd_pass (FsCmd.fits_of_matches hmatch) hpass).stMod
  rcases declines_or_rival (c := c) hrival with hdecl | hdecl
  · exact hdecl
  · exact absurd (hdecl.congr hstMod) h.not_declines

/-- A rival takes the directive behind a command that declines if it takes it before. -/
lemma takesExec_declined (hmods : ∀ m ∈ mods, m ∈ shippedMods) (hblind : junk.Blind)
    (hp : p ∈ (shippedEnv mods lib junk).fitting name st)
    (hdecl : p.2.call.Declines c) (hblock : p.2.call.block = false) (hne : c.stMod ≠ [])
    (first : Bool) :
    ∃ c', tryCmd (shippedEnv mods lib junk) c p.1 p.2 st first = .error (.pass first c') ∧
      c'.tokens = c.tokens ∧ c'.topCtx (shippedEnv mods lib junk)
        = c.topCtx (shippedEnv mods lib junk) ∧
      ∀ k ctx, TakesExec c' ctx k ↔ TakesExec c ctx k := by
  have hship := shippedCmd_of_mem_fitting hmods hp
  obtain ⟨c', hpass, halike⟩ : ∃ c', tryCmd (shippedEnv mods lib junk) c p.1 p.2 st first
      = .error (.pass first c') ∧ c.Alike c' := declines_param hship hdecl hblock hne
  refine ⟨c', hpass, halike.tokens, ?_, fun k ctx => ?_⟩
  · rw [halike.state, topCtx_relog hblind]
  · have hheap : c'.heap = c.heap := by
      rw [halike.state]
      rfl
    constructor
    · intro h
      exact h.congr halike.stMod.symm hheap.symm
    · intro h
      exact h.congr halike.stMod hheap

lemma TakesExec.block (h : TakesExec c ctx k) : k.block = false := by
  cases h <;> rfl

/-- A rival that takes the directive behind a command that passes takes it before as well. -/
lemma takesExec_of_pass (hmods : ∀ m ∈ mods, m ∈ shippedMods) (hblind : junk.Blind)
    (hp : p ∈ (shippedEnv mods lib junk).fitting name st)
    (hrival : p.2.call.rival = some q.2.call) {c' : Engine} {first first' : Bool}
    (hpass : tryCmd (shippedEnv mods lib junk) c p.1 p.2 st first = .error (.pass first' c'))
    (h : TakesExec c' (c'.topCtx (shippedEnv mods lib junk)) q.2.call) :
    TakesExec c (c.topCtx (shippedEnv mods lib junk)) q.2.call := by
  have hdecl := declines_of_pass hp hrival hpass h
  have hblock : p.2.call.block = false := (rival_block (Callback.rival_symm hrival)).trans h.block
  have hne : c.stMod ≠ [] := by
    have hmatch := (Env.mem_fitting.mp hp).2
    have hstMod := (tryCmd_pass (FsCmd.fits_of_matches hmatch) hpass).stMod
    exact hstMod ▸ h.stMod_ne_nil
  obtain ⟨c₁, hpass₁, -, hctx, hiff⟩ := takesExec_declined hmods hblind hp hdecl hblock hne first
  rw [hpass] at hpass₁
  cases hpass₁
  rw [hctx] at h
  exact (hiff _ _).mp h

/-- The loops end with the command that takes the directive. -/
lemma tryAll_takes {rest : List (ModId × FsCmd Callback)} {first : Bool}
    (hparam : p.2.isParam = true) (hmatch : p.2.matches name st)
    (h : TakesExec c (c.topCtx (shippedEnv mods lib junk)) p.2.call)
    (hfits : (execArgs c.tokens).Fits lib) :
    ∃ c', tryAll (shippedEnv mods lib junk) name st (p :: rest) first c = .ok c' ∧
      ExecFile c'.heap (c.topCtx (shippedEnv mods lib junk)) (c.tokens.nth 1) := by
  obtain ⟨c', htry, hfile⟩ : ∃ c', tryCmd (shippedEnv mods lib junk) c p.1 p.2 st first = .ok c' ∧
      ExecFile c'.heap (c.topCtx (shippedEnv mods lib junk)) (c.tokens.nth 1) :=
    tryCmd_takes hparam h hfits
  refine ⟨c', ?_, hfile⟩
  rw [tryAll_cons, if_pos hmatch, htry]

/-- A directive that `exec` takes is accepted, with the second word for the file, whether there is
one or not. -/
lemma ExecTakes.handle (hmods : mods.Perm shippedMods) (hblind : junk.Blind)
    (hworded : c.tokens.Worded) (h : ExecTakes (shippedEnv mods lib junk) c st)
    (hfits : (execArgs c.tokens).Fits lib) :
    ∃ c', fsConfHandle (shippedEnv mods lib junk) c st = .ok c' ∧
      ExecFile c'.heap (c.topCtx (shippedEnv mods lib junk)) (c.tokens.nth 1) := by
  obtain ⟨rfl, ⟨name, hnth, hpre⟩, k, htakes⟩ := h
  have hmem := mem_shipped_of_perm hmods
  have hname := hworded 0 name hnth
  obtain ⟨q, hq, rfl⟩ : ∃ q ∈ (shippedEnv mods lib junk).fitting name .ok, q.2.call = k :=
    exec_fitting hmods hname hpre htakes
  obtain ⟨hcand, hmatch⟩ := Env.mem_fitting.mp hq
  have hparam := (exec_commands hmem hcand htakes).2
  rw [fsConfHandle_of_name hnth (by simp), tryAll_fitting]
  rcases fitting_cases hmods hname .ok rfl with hfit | ⟨p, hfit⟩ | ⟨p, r, hfit, hrival⟩
  · rw [hfit] at hq
    cases hq
  · rw [hfit] at hq ⊢
    obtain rfl := List.mem_singleton.mp hq
    exact tryAll_takes hparam hmatch htakes hfits
  · have hq' := hq
    rw [hfit] at hq'
    rcases List.mem_cons.mp hq' with rfl | hq'
    · rw [hfit]
      exact tryAll_takes hparam hmatch htakes hfits
    · obtain rfl := List.mem_singleton.mp hq'
      -- its rival is tried first
      have hp : p ∈ (shippedEnv mods lib junk).fitting name .ok := by simp [hfit]
      have hdecl : p.2.call.Declines c :=
        (declines_or_rival hrival).resolve_right htakes.not_declines
      have hblock : p.2.call.block = false :=
        (rival_block (Callback.rival_symm hrival)).trans htakes.block
      obtain ⟨c₁, hpass, htokens, hctx, hiff⟩ := takesExec_declined hmem hblind hp hdecl hblock
        htakes.stMod_ne_nil ((shippedEnv mods lib junk).first c)
      rw [hfit, tryAll_cons, if_pos (Env.mem_fitting.mp hp).2, hpass]
      dsimp only
      rw [← hctx, ← htokens]
      rw [← htokens] at hfits
      refine tryAll_takes hparam hmatch ?_ hfits
      rw [hctx]
      exact (hiff _ _).mpr htakes

/-! ### All other directives -/

/-- A command does the same with both arrays, unless it is an `exec` that is taken. -/
lemma tryCmd_deaf (hmods : ∀ m ∈ mods, m ∈ shippedMods) (hlib : lib.Deaf) (hjunk : junk.Deaf)
    (h : t.Agrees t') (hp : p ∈ (shippedEnv mods lib junk).fitting name st) {first : Bool}
    (hexec : 2 ≤ t.eleCount ∨
      ¬ (TakesExec c (c.topCtx ((shippedEnv mods lib junk).over t)) p.2.call ∧
        (execArgs t).Fits lib)) :
    tryCmd ((shippedEnv mods lib junk).over t') c p.1 p.2 st first
      = tryCmd ((shippedEnv mods lib junk).over t) c p.1 p.2 st first := by
  have hsimilar : ((shippedEnv mods lib junk).over t).Similar
      ((shippedEnv mods lib junk).over t') := shippedEnv_similar hlib hjunk h
  by_cases hsome : ∃ c ctx, TakesExec c ctx p.2.call
  · obtain ⟨_, _, hsome⟩ := hsome
    have hparam := (exec_commands hmods (Env.mem_fitting.mp hp).1 hsome).2
    rw [tryCmd, tryCmd, if_pos hparam, if_pos hparam]
    exact tryParam_similar hsimilar (shippedCall_deaf hlib h hexec)
  · apply tryCmd_similar hsimilar
    funext c ctx
    exact shippedCall_deaf hlib h (.inr fun htakes => hsome ⟨c, ctx, htakes.1⟩)

/-- So do the loops. -/
lemma tryAll_deaf (hmods : mods.Perm shippedMods) (hlib : lib.Deaf) (hjunk : junk.Deaf)
    (hblind : junk.Blind) (hname : name.IsToken) (h : c.tokens.Agrees t) (first : Bool)
    (hexec : 2 ≤ c.tokens.eleCount ∨ ∀ p ∈ (shippedEnv mods lib junk).fitting name st,
      ¬ (TakesExec c (c.topCtx (shippedEnv mods lib junk)) p.2.call ∧
        (execArgs c.tokens).Fits lib)) :
    tryAll ((shippedEnv mods lib junk).over t) name st (shippedEnv mods lib junk).candidates first c
      = tryAll ((shippedEnv mods lib junk).over c.tokens) name st
          (shippedEnv mods lib junk).candidates first c := by
  have hmem := mem_shipped_of_perm hmods
  have hmatch : ∀ r ∈ (shippedEnv mods lib junk).fitting name st, r.2.matches name st :=
    fun r hr => (Env.mem_fitting.mp hr).2
  have htry : ∀ r ∈ (shippedEnv mods lib junk).fitting name st, ∀ first,
      tryCmd ((shippedEnv mods lib junk).over t) c r.1 r.2 st first
        = tryCmd ((shippedEnv mods lib junk).over c.tokens) c r.1 r.2 st first :=
    fun r hr first => tryCmd_deaf hmem hlib hjunk h hr (hexec.imp_right fun hall => hall r hr)
  rw [← tryAll_filter name st (shippedEnv mods lib junk).candidates first c,
    ← tryAll_filter name st (shippedEnv mods lib junk).candidates first c]
  change tryAll _ name st ((shippedEnv mods lib junk).fitting name st) first c
    = tryAll _ name st ((shippedEnv mods lib junk).fitting name st) first c
  rcases fitting_cases hmods hname st rfl with hfit | ⟨p, hfit⟩ | ⟨p, q, hfit, hrival⟩
  · rw [hfit]
    rfl
  · have hp : p ∈ (shippedEnv mods lib junk).fitting name st := by simp [hfit]
    rw [hfit]
    exact tryAll_cons_similar (hmatch p hp) (htry p hp first) fun _ _ _ => rfl
  · have hp : p ∈ (shippedEnv mods lib junk).fitting name st := by simp [hfit]
    have hq : q ∈ (shippedEnv mods lib junk).fitting name st := by simp [hfit]
    rw [hfit]
    apply tryAll_cons_similar (hmatch p hp) (htry p hp first)
    intro first₁ c₁ hpass
    refine tryAll_cons_similar (hmatch q hq) ?_ fun _ _ _ => rfl
    apply tryCmd_deaf hmem hlib hjunk h hq
    apply hexec.imp_right
    rintro hall ⟨htakes, hfits⟩
    have hpass : tryCmd (shippedEnv mods lib junk) c p.1 p.2 st first
        = .error (.pass first₁ (c₁.retoken c.tokens)) := by
      have hretoken : tryCmd (shippedEnv mods lib junk) c p.1 p.2 st first
          = retokenResult c.tokens (tryCmd ((shippedEnv mods lib junk).over c.tokens) c p.1 p.2 st
              first) := tryCmd_retoken c.tokens c p.1 p.2 st first
      rw [hretoken, hpass]
      rfl
    have htakes₁ : TakesExec (c₁.retoken c.tokens)
        ((c₁.retoken c.tokens).topCtx (shippedEnv mods lib junk)) q.2.call :=
      htakes.congr rfl rfl
    exact hall q hq ⟨takesExec_of_pass hmem hblind hp hrival hpass htakes₁, hfits⟩

/-- A directive with a word other than an `exec` that is taken is handled in the same way. -/
lemma fsConfHandle_deaf (hmods : mods.Perm shippedMods) (hlib : lib.Deaf) (hjunk : junk.Deaf)
    (hblind : junk.Blind) (hworded : c.tokens.Worded) (h : c.tokens.Agrees t)
    (hcount : 0 < c.tokens.eleCount)
    (hexec : 2 ≤ c.tokens.eleCount ∨
      ¬ (ExecTakes (shippedEnv mods lib junk) c st ∧ (execArgs c.tokens).Fits lib)) :
    fsConfHandle (shippedEnv mods lib junk) (c.retoken t) st
      = retokenResult t (fsConfHandle (shippedEnv mods lib junk) c st) := by
  apply fsConfHandle_same t c st (h.nth 0 hcount)
  have hsimilar : ((shippedEnv mods lib junk).over c.tokens).Similar
      ((shippedEnv mods lib junk).over t) := shippedEnv_similar hlib hjunk h
  rw [fsConfHandle, fsConfHandle, closeBlock_similar hsimilar]
  split_ifs with hend
  · rfl
  cases hnth : c.tokens.nth 0 with
  | none => rfl
  | some name =>
    have hname := hworded 0 name hnth
    change tryAll ((shippedEnv mods lib junk).over t) name st
        (shippedEnv mods lib junk).candidates (((shippedEnv mods lib junk).over t).first c) c = _
    rw [hsimilar.first]
    apply tryAll_deaf hmods hlib hjunk hblind hname h
    apply hexec.imp_right
    rintro hno p hp ⟨htakes, hfits⟩
    exact hno ⟨.of_fitting (mem_shipped_of_perm hmods) hname hnth hp htakes, hfits⟩

lemma fsConfHandle_blockEnd_deaf (hlib : lib.Deaf) (hjunk : junk.Deaf) (h : c.tokens.Agrees t) :
    fsConfHandle (shippedEnv mods lib junk) (c.retoken t) .blockEnd
      = retokenResult t (fsConfHandle (shippedEnv mods lib junk) c .blockEnd) := by
  have hsimilar : ((shippedEnv mods lib junk).over c.tokens).Similar
      ((shippedEnv mods lib junk).over t) := shippedEnv_similar hlib hjunk h
  have hself : closeBlock (shippedEnv mods lib junk) c
      = retokenResult c.tokens (closeBlock ((shippedEnv mods lib junk).over c.tokens) c) :=
    closeBlock_retoken c.tokens c
  change closeBlock (shippedEnv mods lib junk) (c.retoken t)
    = retokenResult t (closeBlock (shippedEnv mods lib junk) c)
  rw [closeBlock_retoken, closeBlock_similar hsimilar, hself, retokenResult_retokenResult]

/-- No command has an empty name. -/
lemma not_matches_empty (hmods : ∀ m ∈ mods, m ∈ shippedMods)
    (hp : p ∈ (shippedEnv mods lib junk).candidates) : ¬ p.2.matches ⟨[], 1⟩ st := by
  have hall : ∀ m ∈ shippedMods, ∀ cmd ∈ m.commands, cmd.token.text ≠ [] := by decide +kernel
  obtain ⟨m, hm, -, hcmd⟩ := mem_commands_of_mem_candidates hmods hp
  intro hmatch
  rw [matches_iff_begins hmods (by decide) hp] at hmatch
  exact hall m hm p.2 hcmd (List.prefix_nil.mp hmatch.1)

/-- A directive without words is dispatched by what is in the first slot. -/
lemma not_unleaked_of_empty (hmods : ∀ m ∈ mods, m ∈ shippedMods) (hst : st ≠ .blockEnd)
    (hcount : c.tokens.eleCount = 0) : ¬ Unleaked (shippedEnv mods lib junk) c st := by
  intro h
  have hnone : fsConfHandle (shippedEnv mods lib junk) (c.retoken (c.tokens.unwritten 0)) st
      = .error .undefined := by
    rw [fsConfHandle, if_neg (by simpa using hst), tokens_retoken, FsArr.unwritten_nth]
    rfl
  have hempty : fsConfHandle (shippedEnv mods lib junk) (c.retoken (c.tokens.write 0 ⟨[], 1⟩)) st
      = .error (.error (c.retoken (c.tokens.write 0 ⟨[], 1⟩))) := by
    have hnth : (c.retoken (c.tokens.write 0 ⟨[], 1⟩)).tokens.nth 0 = some ⟨[], 1⟩ :=
      c.tokens.write_nth_self _ c.tokens.capa_pos
    rw [fsConfHandle_of_name hnth hst]
    exact tryAll_eq_error fun p hp => not_matches_empty hmods hp
  rw [h.outcome _ (FsArr.agrees_unwritten hcount.le)] at hnone
  rw [h.outcome _ (FsArr.agrees_write hcount.le _)] at hempty
  have hundefined := congrArg (retokenResult (c.tokens.write 0 ⟨[], 1⟩)) hnone
  rw [retokenResult_retokenResult, hempty] at hundefined
  cases hundefined

lemma FsArr.Worded.write {tokens : FsArr FsStr} (h : tokens.Worded) {w : FsStr} (hw : w.IsToken)
    (i : Nat) : (tokens.write i w).Worded := by
  intro j s hj
  by_cases hij : i = j
  · subst hij
    by_cases hi : i < tokens.elems.length
    · rw [FsArr.write_nth_self _ _ hi] at hj
      cases hj
      exact hw
    · rw [FsArr.nth, FsArr.write, List.getElem?_eq_none (by simpa using hi)] at hj
      cases hj
  · rw [FsArr.write_nth_ne _ _ hij] at hj
    exact h j s hj

/-- An `exec` without further words starts whatever is in the second slot. -/
lemma not_unleaked_of_exec (hmods : mods.Perm shippedMods) (hlib : lib.Deaf) (hjunk : junk.Deaf)
    (hblind : junk.Blind) (hworded : c.tokens.Worded) (hcapa : 2 ≤ c.tokens.eleCapa)
    (hcount : c.tokens.eleCount = 1) (h : ExecTakes (shippedEnv mods lib junk) c st)
    (hfits : (execArgs c.tokens).Fits lib) :
    ¬ Unleaked (shippedEnv mods lib junk) c st := by
  intro hsame
  obtain ⟨c', hhandle, -⟩ := h.handle hmods hblind hworded hfits
  have hfile : ∀ w : FsStr, w.IsToken →
      ExecFile c'.heap (c.topCtx (shippedEnv mods lib junk)) (some w) := by
    intro w hw
    have hagrees : c.tokens.Agrees (c.tokens.write 1 w) := FsArr.agrees_write hcount.le w
    have hsimilar : ((shippedEnv mods lib junk).over c.tokens).Similar
        ((shippedEnv mods lib junk).over (c.tokens.write 1 w)) :=
      shippedEnv_similar hlib hjunk hagrees
    have hctx : (c.retoken (c.tokens.write 1 w)).topCtx (shippedEnv mods lib junk)
        = c.topCtx (shippedEnv mods lib junk) := hsimilar.topCtx c
    have htakes : ExecTakes (shippedEnv mods lib junk) (c.retoken (c.tokens.write 1 w)) st := by
      obtain ⟨hst, ⟨name, hnth, hpre⟩, k, hk⟩ := h
      refine ⟨hst, ⟨name, ?_, hpre⟩, k, ?_⟩
      · exact (hagrees.nth 0 (by omega)).trans hnth
      · rw [hctx]
        exact hk.congr rfl rfl
    obtain ⟨c'', hhandle', hfile⟩ :=
      htakes.handle hmods hblind (hworded.write hw 1) ((execFits_agrees hagrees).mpr hfits)
    rw [hsame.outcome _ hagrees, hhandle] at hhandle'
    cases hhandle'
    rw [hctx, tokens_retoken, FsArr.write_nth_self _ _ hcapa] at hfile
    exact hfile
  have heq := (hfile ⟨[], 1⟩ (by decide)).unique (hfile ⟨[], 2⟩ (by decide))
  simp at heq

/-- Where the words of earlier directives make no difference: at a closing brace, and at a directive
with words, unless it is an `exec` with no further word that is taken, and whose vector has room. -/
theorem unleaked_iff (hmods : mods.Perm shippedMods) (hlib : lib.Deaf) (hjunk : junk.Deaf)
    (hblind : junk.Blind) (hworded : c.tokens.Worded) (hcapa : 2 ≤ c.tokens.eleCapa) :
    Unleaked (shippedEnv mods lib junk) c st ↔ st = .blockEnd ∨ 2 ≤ c.tokens.eleCount ∨
      c.tokens.eleCount = 1 ∧
        ¬ (ExecTakes (shippedEnv mods lib junk) c st ∧ (execArgs c.tokens).Fits lib) := by
  constructor
  · intro h
    by_cases hst : st = .blockEnd
    · exact .inl hst
    by_cases hcount : 2 ≤ c.tokens.eleCount
    · exact .inr (.inl hcount)
    have hne : c.tokens.eleCount ≠ 0 := fun hzero =>
      not_unleaked_of_empty (mem_shipped_of_perm hmods) hst hzero h
    have hone : c.tokens.eleCount = 1 := by omega
    refine .inr (.inr ⟨hone, ?_⟩)
    rintro ⟨htakes, hfits⟩
    exact not_unleaked_of_exec hmods hlib hjunk hblind hworded hcapa hone htakes hfits h
  · intro h
    by_cases hst : st = .blockEnd
    · subst hst
      constructor
      · intro t ht
        exact fsConfHandle_blockEnd_deaf hlib hjunk ht
      · intro _ t _ a ha
        cases ha
    · have hwords := h.resolve_left hst
      have hcount : 0 < c.tokens.eleCount := by
        rcases hwords with hwords | hwords
        · exact Nat.zero_lt_two.trans_le hwords
        · rw [hwords.1]
          exact Nat.one_pos
      constructor
      · intro t ht
        exact fsConfHandle_deaf hmods hlib hjunk hblind hworded ht hcount
          (hwords.imp_right And.right)
      · intro hzero
        exact absurd hzero hcount.ne'

end

lemma succeeding_deaf : Lib.succeeding.Deaf :=
  ⟨fun _ _ _ _ _ => rfl, fun _ _ _ _ _ _ => rfl, fun _ _ _ _ _ _ => rfl⟩

lemma null_deaf : Junk.null.Deaf := ⟨fun _ _ _ _ _ => rfl, fun _ _ _ _ => rfl⟩

lemma null_blind : Junk.null.Blind := ⟨fun _ _ _ => rfl, fun _ _ => rfl⟩

lemma execStart_worded : execStart.tokens.Worded :=
  ((fsAllocArr_worded 3 tokensCapa_pos).push (by decide)).push (by decide)

theorem unleaked_iff_true : Unleaked sampleEnv execStart .ok :=
  (unleaked_iff (.refl _) succeeding_deaf null_deaf null_blind execStart_worded (by decide)).mpr
    (.inr (.inl (by decide)))

/-- The engine at a lone semicolon behind `exec true;`. -/
def semicolonStart : Engine := { execStart with tokens := execStart.tokens.reset }

/-- The semicolon runs `exec` once more. -/
theorem not_unleaked :
    ¬ ∀ (mods : List (FsMod ModId Callback)) (lib : Lib) (junk : Junk) (c : Engine) (st : Status),
      mods.Perm shippedMods → lib.Deaf → junk.Deaf → junk.Blind → c.tokens.Worded →
      2 ≤ c.tokens.eleCapa → Unleaked (shippedEnv mods lib junk) c st := by
  intro h
  have hunleaked : Unleaked sampleEnv semicolonStart .ok := h shippedMods .succeeding .null
    semicolonStart .ok (.refl _) succeeding_deaf null_deaf null_blind execStart_worded (by decide)
  have hinvoked : ((handleAttempts sampleEnv semicolonStart .ok).any
      fun a => a.invokes sampleEnv) = true := by decide
  obtain ⟨a, ha, hinvokes⟩ := List.any_eq_true.mp hinvoked
  rw [hunleaked.silent rfl _ (.refl _) a ha] at hinvokes
  cases hinvokes

end Folksong
