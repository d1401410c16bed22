import Folksong.Script.Dispatch

/-!
# A callback in its place does what its directive means

The callback finds the stack it tests for and the object it casts its context to, and answers as
`Heap.apply` says.
-/

namespace Folksong

/-- A callback answers as a directive that leads to this memory, or to none. -/
inductive Called.Answers : Called → Except Fault Heap → Prop where
  | ok (h : Heap) : Answers (some (.ok, h)) (.ok h)
  | rejected (h : Heap) : Answers (some (.error, h)) (.error .rejected)
  | undefined : Answers none (.error .undefined)

/-! ### Words -/

section

variable {tokens : FsArr FsStr} {l : Line}

lemma eleCount_of_words (h : tokens.contents = l.words.map some) :
    tokens.eleCount = l.args.length + 1 := by
  rw [FsArr.eleCount_of_contents h]
  rfl

/-- The words behind the name. -/
lemma nth_of_words (h : tokens.contents = l.words.map some) {i : Nat} {w : FsStr}
    (hw : l.args[i]? = some w) : tokens.nth (i + 1) = some w :=
  FsArr.nth_of_map h hw

lemma nth_zero_of_words (h : tokens.contents = l.words.map some) : tokens.nth 0 = some l.name :=
  FsArr.nth_of_map h rfl

/-- The options of an `exec` directive are those of its words. -/
lemma execOptions_of_words (h : tokens.contents = l.words.map some) (hne : l.args ≠ []) :
    execOptions tokens = execWords l.args := by
  have hcount := eleCount_of_words h
  have hpos : 0 < l.args.length := List.length_pos_iff.mpr hne
  have hstores : (List.range' 1 l.args.length).map (fun i => (i - 1, some (tokens.nth i)))
      = l.args.mapIdx fun i w => (i, some (some w)) := by
    apply List.ext_getElem
    · simp
    · intro i hi hi'
      have hlt : i < l.args.length := by simpa using hi
      have hnth : tokens.nth (1 + i) = some l.args[i] := by
        rw [Nat.add_comm]
        exact nth_of_words h (List.getElem?_eq_getElem hlt)
      simp [hnth]
  have hfile : tokens.nth 1 = l.args.head? := by
    obtain ⟨w, ws, hargs⟩ := List.exists_cons_of_ne_nil hne
    rw [hargs, List.head?_cons]
    exact nth_of_words h (by rw [hargs]; rfl)
  rw [execOptions, execArgs, hcount, Nat.add_sub_cancel, hstores, hfile, execWords,
    max_eq_right (by omega)]

lemma execArgs_of_words (h : tokens.contents = l.words.map some) (hne : l.args ≠ []) :
    execArgs tokens = (execWords l.args).args :=
  congrArg ProcOptions.args (execOptions_of_words h hne)

end

/-! ### Callbacks -/

section

variable {lib : Lib} {unset : Heap → Callback → Bool} {c : Engine} {p : Ptr} {l : Line}

lemma apply_of_get {k : Callback} {o : Obj} (ho : c.heap.get p = some o) :
    c.heap.apply lib unset k l.args p = (k.meaning lib (unset c.heap) c.heap.calls l.args o).map
      fun r => { c.heap with calls := r.2 }.set p r.1 := by
  rw [Heap.apply, ho]

/-- A directive with one word behind its name. -/
lemma one_word_cases (hwords : c.tokens.contents = l.words.map some) :
    (∃ value, l.args = [value] ∧ c.tokens.eleCount = 2 ∧ c.tokens.nth 1 = some value) ∨
      (c.tokens.eleCount ≠ 2 ∧ ∀ value, l.args ≠ [value]) := by
  have hcount := eleCount_of_words hwords
  rcases hargs : l.args with _ | ⟨value, _ | ⟨w, ws⟩⟩
  · simp [hcount, hargs]
  · refine .inl ⟨value, rfl, by rw [hcount, hargs]; rfl, nth_of_words hwords (by rw [hargs]; rfl)⟩
  · simp [hcount, hargs]

/-- A directive with two words behind its name. -/
lemma two_words_cases (hwords : c.tokens.contents = l.words.map some) :
    (∃ key value, l.args = [key, value] ∧ c.tokens.eleCount = 3 ∧ c.tokens.nth 1 = some key ∧
        c.tokens.nth 2 = some value) ∨
      (c.tokens.eleCount ≠ 3 ∧ ∀ key value, l.args ≠ [key, value]) := by
  have hcount := eleCount_of_words hwords
  rcases hargs : l.args with _ | ⟨key, _ | ⟨value, _ | ⟨w, ws⟩⟩⟩
  · simp [hcount, hargs]
  · simp [hcount, hargs]
  · refine .inl ⟨key, value, rfl, by rw [hcount, hargs]; rfl, ?_, ?_⟩
    · exact nth_of_words hwords (by rw [hargs]; rfl)
    · exact nth_of_words hwords (by rw [hargs]; rfl)
  · simp [hcount, hargs]

/-- A directive with another number of words is rejected. -/
lemma meaning_of_args_one {k : Callback} (hk : k ∈ [.timerTimeout, .timerRepeat, .httpHost,
      .httpPort, .httpKafkaBlock, .httpKafkaTopicParam, .httpKafkaDefaultTopic, .httpKafkaKeyParam,
      .httpKafkaDefaultKey, .httpProxyBlock, .httpProxyPassPath, .kafkaListenerTopic])
    (hargs : ∀ value, l.args ≠ [value]) (null : Callback → Bool) (calls : List LibCall) (o : Obj) :
    k.meaning lib null calls l.args o = .error .rejected := by
  simp only [List.mem_cons, List.not_mem_nil, or_false] at hk
  rcases hargs' : l.args with _ | ⟨value, _ | ⟨w, ws⟩⟩
  · rcases hk with rfl | rfl | rfl | rfl | rfl | rfl | rfl | rfl | rfl | rfl | rfl | rfl <;> rfl
  · exact absurd hargs' (hargs value)
  · rcases hk with rfl | rfl | rfl | rfl | rfl | rfl | rfl | rfl | rfl | rfl | rfl | rfl <;> rfl

/-- An accepted directive stores the object it makes. -/
lemma Called.Answers.stored {k : Callback} {o o' : Obj} {calls : List LibCall}
    (ho : c.heap.get p = some o)
    (h : k.meaning lib (unset c.heap) c.heap.calls l.args o = .ok (o', calls)) :
    Called.Answers (some (.ok, { c.heap with calls := calls }.set p o'))
      (c.heap.apply lib unset k l.args p) := by
  rw [apply_of_get ho, h]
  exact .ok _

lemma Called.Answers.refused {k : Callback} {o : Obj} (ho : c.heap.get p = some o)
    (h : k.meaning lib (unset c.heap) c.heap.calls l.args o = .error .rejected) (h' : Heap) :
    Called.Answers (some (.error, h')) (c.heap.apply lib unset k l.args p) := by
  rw [apply_of_get ho, h]
  exact .rejected _

lemma Called.Answers.lost {k : Callback} {o : Obj} (ho : c.heap.get p = some o)
    (h : k.meaning lib (unset c.heap) c.heap.calls l.args o = .error .undefined) :
    Called.Answers none (c.heap.apply lib unset k l.args p) := by
  rw [apply_of_get ho, h]
  exact .undefined

lemma timerTime_answers {k : Callback} {flag : Timer → Bool} {store : Timer → Nat → Timer}
    {t : Timer} (hk : k ∈ [.timerTimeout, .timerRepeat])
    (hmeaning : ∀ value, k.meaning lib (unset c.heap) c.heap.calls [value] (.timer t)
      = if flag t then .error .rejected
        else match fsModTimerParseTime value.cstr with
          | none => .error .rejected
          | some n => .ok (.timer (store t n), c.heap.calls))
    (htop : topMod c = some .timer) (ho : c.heap.get p = some (.timer t))
    (hwords : c.tokens.contents = l.words.map some) :
    (timerCmdTime k flag store lib c p).Answers (c.heap.apply lib unset k l.args p) := by
  rw [timerCmdTime, if_neg (not_not_intro htop), ho]
  dsimp only
  rcases one_word_cases hwords with ⟨value, hargs, hcount, hvalue⟩ | ⟨hcount, hargs⟩
  · have hm := hmeaning value
    rw [← hargs] at hm
    rw [tokenText, hvalue, if_neg (not_not_intro hcount)]
    split_ifs at hm ⊢
    · exact .refused ho hm _
    · dsimp only [Option.map_some]
      cases htime : fsModTimerParseTime value.cstr with
      | none =>
        rw [htime] at hm
        exact .refused ho hm _
      | some n =>
        rw [htime] at hm
        exact .stored ho hm
  · have hno : k.meaning lib (unset c.heap) c.heap.calls l.args (.timer t) = .error .rejected := by
      refine meaning_of_args_one ?_ hargs _ _ _
      simp only [List.mem_cons, List.not_mem_nil, or_false] at hk
      rcases hk with rfl | rfl <;> simp
    rw [if_pos hcount]
    split_ifs <;> exact .refused ho hno _

lemma timerExec_answers {t : Timer} (htop : topMod c = some .timer)
    (ho : c.heap.get p = some (.timer t)) (hwords : c.tokens.contents = l.words.map some)
    (hne : l.args ≠ []) :
    (fsModTimerCmdExec lib c p).Answers (c.heap.apply lib unset .timerExec l.args p) := by
  have hm : Callback.timerExec.meaning lib (unset c.heap) c.heap.calls l.args (.timer t)
      = (lib.exec l.args).map fun options =>
        (.timer { t with procOptions := some options, cbFlag := true }, c.heap.calls) := by
    rw [Callback.meaning]
  rw [Lib.exec] at hm
  rw [fsModTimerCmdExec, if_neg (not_not_intro htop), ho, execOptions_of_words hwords hne,
    execArgs_of_words hwords hne]
  dsimp only
  split_ifs at hm ⊢
  · exact .stored ho hm
  · exact .lost ho hm

lemma httpHost_answers {http : Http} (htop : topMod c = some .http)
    (ho : c.heap.get p = some (.http http)) (hwords : c.tokens.contents = l.words.map some) :
    (fsModHttpCmdHost lib c p).Answers (c.heap.apply lib unset .httpHost l.args p) := by
  rw [fsModHttpCmdHost, if_neg (not_not_intro htop), ho]
  rcases one_word_cases hwords with ⟨host, hargs, hcount, hvalue⟩ | ⟨hcount, hargs⟩
  · rw [if_neg (not_not_intro hcount), hvalue]
    exact .stored ho (by rw [hargs]; rfl)
  · rw [if_pos hcount]
    exact .refused ho (meaning_of_args_one (by simp) hargs _ _ _) _

lemma httpPort_answers {http : Http} (htop : topMod c = some .http)
    (ho : c.heap.get p = some (.http http)) (hwords : c.tokens.contents = l.words.map some) :
    (fsModHttpCmdPort lib c p).Answers (c.heap.apply lib unset .httpPort l.args p) := by
  rw [fsModHttpCmdPort, if_neg (not_not_intro htop), ho]
  rcases one_word_cases hwords with ⟨port, hargs, hcount, hvalue⟩ | ⟨hcount, hargs⟩
  · rw [if_neg (not_not_intro hcount), tokenText, hvalue]
    exact .stored ho (by rw [hargs]; rfl)
  · rw [if_pos hcount]
    exact .refused ho (meaning_of_args_one (by simp) hargs _ _ _) _

lemma kafkaBlock_answers {http : Http} (hlib : ∀ k, lib.uninitNull c k = unset c.heap k)
    (hsub : subtopMod c = some .http) (ho : c.heap.get p = some (.http http))
    (hwords : c.tokens.contents = l.words.map some) :
    (fsModHttpKafkaBlock lib c p).Answers (c.heap.apply lib unset .httpKafkaBlock l.args p) := by
  rw [fsModHttpKafkaBlock, if_neg (not_not_intro hsub), ho]
  rcases one_word_cases hwords with ⟨path, hargs, hcount, hvalue⟩ | ⟨hcount, hargs⟩
  · rw [if_neg (not_not_intro hcount), hvalue]
    simp only [hlib]
    exact .stored ho (by rw [hargs]; rfl)
  · rw [if_pos hcount]
    exact .refused ho (meaning_of_args_one (by simp) hargs _ _ _) _

lemma proxyBlock_answers {http : Http} (hsub : subtopMod c = some .http)
    (ho : c.heap.get p = some (.http http)) (hwords : c.tokens.contents = l.words.map some) :
    (fsModHttpProxyBlock lib c p).Answers (c.heap.apply lib unset .httpProxyBlock l.args p) := by
  rw [fsModHttpProxyBlock, if_neg (not_not_intro hsub), ho]
  rcases one_word_cases hwords with ⟨path, hargs, hcount, hvalue⟩ | ⟨hcount, hargs⟩
  · rw [if_neg (not_not_intro hcount), hvalue]
    dsimp only
    by_cases hcompiles : lib.result c.heap.calls (.pcreCompile path.cstr)
    · have hre : pcreCompile lib c.heap path.cstr
          = (some path.cstr,
            { c.heap with calls := c.heap.calls ++ [.pcreCompile path.cstr] }) := by
        rw [pcreCompile, Heap.callLib]
        dsimp only
        rw [if_pos hcompiles]
      rw [hre]
      refine .stored ho ?_
      rw [hargs, Callback.meaning, Lib.ask, List.foldlM_cons, if_pos hcompiles]
      rfl
    · have hre : (pcreCompile lib c.heap path.cstr).1 = none := by
        rw [pcreCompile, Heap.callLib]
        dsimp only
        rw [if_neg hcompiles]
      rw [hre]
      refine .refused ho ?_ _
      rw [hargs, Callback.meaning, Lib.ask, List.foldlM_cons, if_neg hcompiles]
      rfl
  · rw [if_pos hcount]
    exact .refused ho (meaning_of_args_one (by simp) hargs _ _ _) _

/-- The parameters of a publisher with one value. -/
lemma publisherField_answers (name : PublisherParam) {http : Http} {q : Publisher}
    (hplace : topCmd c = some .httpKafkaBlock) (ho : c.heap.get p = some (.http http))
    (hlast : http.lastRoute = some (.publisher q))
    (hwords : c.tokens.contents = l.words.map some) :
    (publisherField name.cmd.call name.field name.store lib c p).Answers
      (c.heap.apply lib unset name.cmd.call l.args p) := by
  rw [publisherField, publisherCmd, if_neg (not_not_intro hplace), ho]
  dsimp only
  rw [hlast]
  dsimp only
  rcases one_word_cases hwords with ⟨value, hargs, hcount, hvalue⟩ | ⟨hcount, hargs⟩
  · have hm : name.cmd.call.meaning lib (unset c.heap) c.heap.calls l.args (.http http)
        = ((q.give name value).map fun q => http.setLast (.publisher q)).map fun http =>
          (.http http, c.heap.calls) := by
      have honp : ∀ f, http.onPublisher f = (f q).map fun q => http.setLast (.publisher q) := by
        intro f
        rw [Http.onPublisher, hlast]
      rw [hargs, ← honp]
      cases name <;> rfl
    rw [if_neg (not_not_intro hcount), hvalue]
    rw [Publisher.give] at hm
    split_ifs at hm ⊢
    · exact .refused ho hm _
    · exact .stored ho hm
  · rw [if_pos hcount]
    refine .refused ho (meaning_of_args_one ?_ hargs _ _ _) _
    cases name <;> simp [PublisherParam.cmd, fsParamCmd]

lemma kafkaConfig_answers {http : Http} {q : Publisher} (hplace : topCmd c = some .httpKafkaBlock)
    (ho : c.heap.get p = some (.http http)) (hlast : http.lastRoute = some (.publisher q))
    (hwords : c.tokens.contents = l.words.map some) :
    (fsModHttpKafkaCmdConfig lib c p).Answers
      (c.heap.apply lib unset .httpKafkaConfig l.args p) := by
  rw [fsModHttpKafkaCmdConfig, publisherCmd, if_neg (not_not_intro hplace), ho]
  dsimp only
  rw [hlast]
  dsimp only
  rcases two_words_cases hwords with ⟨key, value, hargs, hcount, hkey, hvalue⟩ | ⟨hcount, hargs⟩
  · rw [if_neg (not_not_intro hcount), hkey, hvalue]
    refine .stored ho ?_
    rw [hargs, Callback.meaning, Http.onPublisher, hlast]
    rfl
  · rw [if_pos hcount]
    refine .refused ho ?_ _
    rcases hargs' : l.args with _ | ⟨key, _ | ⟨value, _ | ⟨w, ws⟩⟩⟩
    · rfl
    · rfl
    · exact absurd hargs' (hargs key value)
    · rfl

lemma passPath_answers {http : Http} {proxy : Proxy} (hsub : subtopMod c = some .http)
    (ho : c.heap.get p = some (.http http)) (hlast : http.lastRoute = some (.proxy proxy))
    (hwords : c.tokens.contents = l.words.map some) :
    (fsModHttpProxyCmdPassPath lib c p).Answers
      (c.heap.apply lib unset .httpProxyPassPath l.args p) := by
  rw [fsModHttpProxyCmdPassPath, if_neg (not_not_intro hsub), ho]
  dsimp only
  rw [hlast]
  dsimp only
  rcases one_word_cases hwords with ⟨template, hargs, hcount, hvalue⟩ | ⟨hcount, hargs⟩
  · have hm : Callback.httpProxyPassPath.meaning lib (unset c.heap) c.heap.calls l.args (.http http)
        = (if proxy.passPath.eleCount ≠ 0 ∨ (varPieces lib template).1 = false then
            (.error .rejected : Except Fault Http)
          else .ok (http.setLast (.proxy { proxy with
            passPath := (varPieces lib template).2.foldl FsArr.push proxy.passPath }))).map
          fun http => (.http http, c.heap.calls) := by
      rw [hargs, Callback.meaning, Http.passPath, hlast]
    rw [if_neg (not_not_intro hcount), hvalue]
    by_cases hset : proxy.passPath.eleCount ≠ 0
    · rw [if_pos (.inl hset)] at hm
      rw [if_pos hset]
      exact .refused ho hm _
    · rw [if_neg hset]
      dsimp only
      cases hpieces : (varPieces lib template).1 with
      | false =>
        rw [if_pos (.inr hpieces)] at hm
        exact .refused ho hm _
      | true =>
        rw [if_neg (by simp [hset, hpieces])] at hm
        exact .stored ho hm
  · rw [if_pos hcount]
    exact .refused ho (meaning_of_args_one (by simp) hargs _ _ _) _

lemma listenerConfig_answers {listener : Listener} (htop : topMod c = some .kafkaListener)
    (hplace : topCmd c = some .kafkaListenerBlock)
    (ho : c.heap.get p = some (.listener listener))
    (hwords : c.tokens.contents = l.words.map some) :
    (fsModKafkaListenerCmdConfig lib c p).Answers
      (c.heap.apply lib unset .kafkaListenerConfig l.args p) := by
  rw [fsModKafkaListenerCmdConfig, if_neg (not_not_intro htop), if_neg (not_not_intro hplace), ho]
  rcases two_words_cases hwords with ⟨key, value, hargs, hcount, hkey, hvalue⟩ | ⟨hcount, hargs⟩
  · rw [if_neg (not_not_intro hcount), tokenText, tokenText, hkey, hvalue]
    dsimp only [Option.map_some]
    rw [Heap.callLib]
    dsimp only
    by_cases hset : lib.result c.heap.calls (.rdKafkaConfSet key.cstr value.cstr)
    · rw [if_pos hset]
      refine .stored ho ?_
      rw [hargs, Callback.meaning, Lib.ask, List.foldlM_cons, if_pos hset]
      rfl
    · rw [if_neg hset]
      refine .refused ho ?_ _
      rw [hargs, Callback.meaning, Lib.ask, List.foldlM_cons, if_neg hset]
      rfl
  · rw [if_pos hcount]
    refine .refused ho ?_ _
    rcases hargs' : l.args with _ | ⟨key, _ | ⟨value, _ | ⟨w, ws⟩⟩⟩
    · rfl
    · rfl
    · exact absurd hargs' (hargs key value)
    · rfl

lemma listenerTopic_answers {listener : Listener} (htop : topMod c = some .kafkaListener)
    (hplace : subtopCmd c = some .kafkaListenerBlock)
    (ho : c.heap.get p = some (.listener listener))
    (hwords : c.tokens.contents = l.words.map some) :
    (fsModKafkaListenerCmdTopic lib c p).Answers
      (c.heap.apply lib unset .kafkaListenerTopic l.args p) := by
  rw [fsModKafkaListenerCmdTopic, if_neg (not_not_intro htop), if_neg (not_not_intro hplace), ho]
  rcases one_word_cases hwords with ⟨name, hargs, hcount, hvalue⟩ | ⟨hcount, hargs⟩
  · have hm : Callback.kafkaListenerTopic.meaning lib (unset c.heap) c.heap.calls l.args
        (.listener listener)
        = (listener.addTopic name).map fun l => (.listener l, c.heap.calls) := by
      rw [hargs, Callback.meaning]
    rw [Listener.addTopic] at hm
    rw [if_neg (not_not_intro hcount), hvalue]
    dsimp only
    cases htopic : listener.topic with
    | wild =>
      rw [htopic] at hm
      exact .lost ho hm
    | null =>
      rw [htopic] at hm
      exact .stored ho hm
    | arr topics =>
      rw [htopic] at hm
      exact .stored ho hm
  · rw [if_pos hcount]
    exact .refused ho (meaning_of_args_one (by simp) hargs _ _ _) _

lemma listenerExec_answers {listener : Listener} (htop : topMod c = some .kafkaListener)
    (hplace : topCmd c = some .kafkaListenerTopic)
    (ho : c.heap.get p = some (.listener listener))
    (hwords : c.tokens.contents = l.words.map some) (hne : l.args ≠ []) :
    (fsModKafkaListenerCmdExec lib c p).Answers
      (c.heap.apply lib unset .kafkaListenerExec l.args p) := by
  have hm : Callback.kafkaListenerExec.meaning lib (unset c.heap) c.heap.calls l.args
      (.listener listener) = (listener.exec lib l.args).map fun l => (.listener l, c.heap.calls) := by
    rw [Callback.meaning]
  rw [Listener.exec] at hm
  rw [fsModKafkaListenerCmdExec, if_neg (not_not_intro htop), if_neg (not_not_intro hplace), ho,
    execOptions_of_words hwords hne, execArgs_of_words hwords hne]
  dsimp only
  cases htopic : listener.topic with
  | null =>
    rw [htopic] at hm
    exact .lost ho hm
  | wild =>
    rw [htopic] at hm
    exact .lost ho hm
  | arr topics =>
    rw [htopic] at hm
    dsimp only at hm ⊢
    by_cases hempty : topics.eleCount = 0
    · rw [if_pos hempty] at hm ⊢
      exact .lost ho hm
    · rw [if_neg hempty] at hm ⊢
      cases hlast : topics.nth (topics.eleCount - 1) with
      | none =>
        rw [hlast] at hm
        exact .lost ho hm
      | some topic =>
        rw [hlast, Lib.exec] at hm
        dsimp only
        split_ifs at hm ⊢
        · exact .stored ho hm
        · exact .lost ho hm

end

/-! ### Callbacks of open blocks -/

section

variable {env : Env ModId Callback Heap} {lib : Lib} {unset : Heap → Callback → Bool} {c : Engine}
  {bs : List (Opened ModId Callback)} {b : Opened ModId Callback} {k : Callback} {l : Line}

lemma Heap.http_of_shape {h : Heap} {p : Ptr} {o : Obj} {last : Option RouteKind}
    (ho : h.get p = some o) (hs : o.shape = .http last) :
    ∃ http, h.get p = some (.http http) ∧ http.lastRoute.map Route.kind = last := by
  cases o with
  | http http => exact ⟨http, ho, by simpa [Obj.shape] using hs⟩
  | version | timer | listener => cases hs

/-- A route block stands in an http block. -/
lemma TypedStack.route_parent (ht : TypedStack c.heap (b :: bs)) (kind : RouteKind)
    (hcall : b.cmd.call = kind.block) : bs.head?.map Opened.mod = some .http := by
  cases ht with
  | own hc =>
    rw [hcall] at hc
    cases kind <;> cases hc
  | route _ _ hmod => exact congrArg some hmod
  | topic hcall' =>
    rw [hcall'] at hcall
    cases kind <;> cases hcall

/-- The parameters of an open block. -/
lemma param_answers (hk : c.Kept env (b :: bs)) (ht : TypedStack c.heap (b :: bs))
    (hparam : k.isParam = true) (hplace : b.cmd.call = k.place)
    (hwords : c.tokens.contents = l.words.map some) (hl : l.Names k) :
    (shippedCall lib k c b.ctx).Answers (c.heap.apply lib unset k l.args b.ctx) := by
  rw [Callback.isParam, Bool.and_eq_true, Bool.not_eq_true'] at hparam
  obtain ⟨hchild, hblock⟩ := hparam
  obtain ⟨o, ho, hwants⟩ := ht.wants hchild hblock hplace
  have htop : topMod c = some k.place.owner := by
    rw [hk.topMod, ← hplace]
    exact congrArg some ht.owner.symm
  have hcmd : topCmd c = some k.place := by
    rw [hk.topCmd, ← hplace]
    rfl
  -- a route parameter works on the last route of its block
  have hroute : ∀ kind, o.shape = .http (some kind) →
      ∃ http route, c.heap.get b.ctx = some (.http http) ∧ http.lastRoute = some route ∧
        route.kind = kind := by
    intro kind hs
    obtain ⟨http, ho', hlast⟩ := Heap.http_of_shape ho hs
    obtain ⟨route, hroute, hkind⟩ := Option.map_eq_some_iff.mp hlast
    exact ⟨http, route, ho', hroute, hkind⟩
  cases k with
  | versionArt =>
    cases o with
    | version welcome =>
      rw [shippedCall, fsModVersionArt, ho]
      exact .stored ho rfl
    | timer | http | listener => cases hwants
  | timerTimeout | timerRepeat =>
    cases o with
    | timer t => exact timerTime_answers (by simp) (fun _ => rfl) htop ho hwords
    | version | http | listener => cases hwants
  | timerExec =>
    cases o with
    | timer t => exact timerExec_answers htop ho hwords (hl.exec (.inl rfl))
    | version | http | listener => cases hwants
  | httpHost =>
    obtain ⟨last, hs⟩ := hwants
    obtain ⟨http, ho', -⟩ := Heap.http_of_shape ho hs
    exact httpHost_answers htop ho' hwords
  | httpPort =>
    obtain ⟨last, hs⟩ := hwants
    obtain ⟨http, ho', -⟩ := Heap.http_of_shape ho hs
    exact httpPort_answers htop ho' hwords
  | httpKafkaConfig =>
    obtain ⟨http, route, ho', hlast, hkind⟩ := hroute _ hwants
    cases route with
    | publisher q => exact kafkaConfig_answers hcmd ho' hlast hwords
    | proxy proxy => cases hkind
  | httpKafkaTopicParam =>
    obtain ⟨http, route, ho', hlast, hkind⟩ := hroute _ hwants
    cases route with
    | publisher q => exact publisherField_answers .topicParam hcmd ho' hlast hwords
    | proxy proxy => cases hkind
  | httpKafkaDefaultTopic =>
    obtain ⟨http, route, ho', hlast, hkind⟩ := hroute _ hwants
    cases route with
    | publisher q => exact publisherField_answers .defaultTopic hcmd ho' hlast hwords
    | proxy proxy => cases hkind
  | httpKafkaKeyParam =>
    obtain ⟨http, route, ho', hlast, hkind⟩ := hroute _ hwants
    cases route with
    | publisher q => exact publisherField_answers .keyParam hcmd ho' hlast hwords
    | proxy proxy => cases hkind
  | httpKafkaDefaultKey =>
    obtain ⟨http, route, ho', hlast, hkind⟩ := hroute _ hwants
    cases route with
    | publisher q => exact publisherField_answers .defaultKey hcmd ho' hlast hwords
    | proxy proxy => cases hkind
  | httpProxyPassPath =>
    obtain ⟨http, route, ho', hlast, hkind⟩ := hroute _ hwants
    have hsub : subtopMod c = some .http :=
      hk.subtopMod.trans (ht.route_parent .proxy hplace)
    cases route with
    | publisher q => cases hkind
    | proxy proxy => exact passPath_answers hsub ho' hlast hwords
  | kafkaListenerConfig =>
    cases o with
    | listener listener => exact listenerConfig_answers htop hcmd ho hwords
    | version | timer | http => cases hwants
  | kafkaListenerExec =>
    cases o with
    | listener listener =>
      exact listenerExec_answers htop hcmd ho hwords (hl.exec (.inr rfl))
    | version | timer | http => cases hwants
  | versionInit | timerBlock | httpBlock | kafkaListenerBlock => cases hchild
  | httpKafkaBlock | httpProxyBlock | kafkaListenerTopic => cases hblock

/-- A block inside the block `b`, whose context it shares; its frame has been pushed. -/
lemma subblock_answers {b' : Opened ModId Callback} (hk : c.Kept env (b' :: b :: bs))
    (ht : TypedStack c.heap (b :: bs)) (hchild : k.child = true)
    (hopens : k.opensIn (some b.cmd.call) = true) (hmod : b'.mod = k.owner)
    (hwords : c.tokens.contents = l.words.map some)
    (hlib : ∀ k, lib.uninitNull c k = unset c.heap k) :
    (shippedCall lib k c b.ctx).Answers (c.heap.apply lib unset k l.args b.ctx) := by
  have hsub : subtopMod c = some b.cmd.call.owner := by
    rw [hk.subtopMod, ht.owner]
    rfl
  cases k with
  | httpKafkaBlock =>
    have hcall : b.cmd.call = .httpBlock := by simpa [Callback.opensIn] using hopens
    rw [hcall] at hsub
    obtain ⟨o, ho, hown⟩ := ht.own_obj hcall rfl
    cases o with
    | http http => exact kafkaBlock_answers hlib hsub ho hwords
    | version | timer | listener => cases hown
  | httpProxyBlock =>
    have hcall : b.cmd.call = .httpBlock := by simpa [Callback.opensIn] using hopens
    rw [hcall] at hsub
    obtain ⟨o, ho, hown⟩ := ht.own_obj hcall rfl
    cases o with
    | http http => exact proxyBlock_answers hsub ho hwords
    | version | timer | listener => cases hown
  | kafkaListenerTopic =>
    have hcall : b.cmd.call = .kafkaListenerBlock := by simpa [Callback.opensIn] using hopens
    have hsubcmd : subtopCmd c = some .kafkaListenerBlock := by
      rw [hk.subtopCmd, ← hcall]
      rfl
    have htop : topMod c = some .kafkaListener := by
      rw [hk.topMod]
      exact congrArg some hmod
    obtain ⟨o, ho, hs⟩ := ht.listener_obj hcall
    cases o with
    | listener listener => exact listenerTopic_answers htop hsubcmd ho hwords
    | version | timer | http => cases hs
  | versionInit | timerBlock | httpBlock | kafkaListenerBlock => cases hchild
  | _ => cases hopens

/-- What `init_mod` of a block of its own allocates. -/
def Callback.raw (lib : Lib) (k : Callback) : Obj :=
  if k = .versionInit then .version none else k.fresh lib

lemma Callback.owner_fresh (hchild : k.child = false) : (k.fresh lib).owner = k.owner := by
  cases k with
  | versionInit | timerBlock | httpBlock | kafkaListenerBlock => rfl
  | _ => cases hchild

lemma get_alloc_self (h : Heap) (o : Obj) : (h.alloc o).2.get (h.alloc o).1 = some o := by
  simp [Heap.alloc, Heap.get]

lemma alloc_set (h : Heap) (o o' : Obj) :
    (h.alloc o).2.set (h.alloc o).1 o' = (h.alloc o').2 := by
  simp [Heap.alloc, Heap.set]

/-- The object of a block of its own, behind its callback. -/
lemma own_call {h : Heap} (hk : c.Kept env (b :: bs)) (hchild : k.child = false)
    (hmod : b.mod = k.owner) (hheap : c.heap = (h.alloc (k.raw lib)).2) :
    shippedCall lib k c (h.alloc (k.raw lib)).1 = some (.ok, (h.alloc (k.fresh lib)).2) := by
  cases k with
  | versionInit =>
    have hget : c.heap.get (h.alloc (Callback.versionInit.raw lib)).1 = some (.version none) := by
      rw [hheap]
      exact get_alloc_self h _
    rw [shippedCall, fsModVersionInit, hget]
    dsimp only
    rw [hheap, alloc_set]
    rfl
  | timerBlock | httpBlock => exact congrArg (fun h => some (Ret.ok, h)) hheap
  | kafkaListenerBlock =>
    have htop : topMod c = some .kafkaListener := by
      rw [hk.topMod]
      exact congrArg some hmod
    rw [shippedCall, fsModKafkaListenerBlock, if_neg (not_not_intro htop)]
    exact congrArg (fun h => some (Ret.ok, h)) hheap
  | _ => cases hchild

/-- `init_mod` of a block of its own: there is one version block only, and a listener stands at top
level. -/
lemma runInitMod_own (mods : List (FsMod ModId Callback)) (lib : Lib) (junk : Junk) (c : Engine)
    (hchild : k.child = false) (hlistener : k = .kafkaListenerBlock → c.stDepth = 0) :
    ∃ c₁, (c.stPush k.owner k.cmd).runInitMod (shippedEnv mods lib junk) k.owner k.cmd
      = some (if k = .versionInit ∧ c.used .version then .pass else .ok, c₁) := by
  cases k with
  | versionInit =>
    cases hused : c.used .version <;>
      simp [Conf.runInitMod, shippedEnv, shippedMethods, Callback.owner, fsModVersionInitMod,
        Conf.stPush, hused]
  | timerBlock => exact ⟨_, rfl⟩
  | httpBlock => exact ⟨_, rfl⟩
  | kafkaListenerBlock =>
    have hdepth : (c.stPush .kafkaListener Callback.kafkaListenerBlock.cmd).stDepth = 1 := by
      simp [Conf.stPush, hlistener rfl]
    exact ⟨_, runInitMod_listener rfl hdepth⟩
  | _ => cases hchild

/-- The object that is allocated. -/
lemma InitMod.raw {mods : List (FsMod ModId Callback)} {junk : Junk} {p : Ptr} {h : Heap}
    {log : List (Event ModId Callback)} (hchild : k.child = false)
    (hinit : InitMod (shippedEnv mods lib junk) c k.owner k.cmd .ok p h log) :
    p = (c.heap.alloc (k.raw lib)).1 ∧ h = (c.heap.alloc (k.raw lib)).2 := by
  have hcases : ∀ {f : Engine → FsCmd Callback → Option (Ret × Option Ptr × Heap)}
      {q : Option Ptr}, (shippedMethods lib k.owner).initMod = some f →
      f (c.stPush k.owner k.cmd) k.cmd = some (.ok, q, h) →
        q = some (c.heap.alloc (k.raw lib)).1 ∧ h = (c.heap.alloc (k.raw lib)).2 := by
    intro f q hf hcall
    cases k with
    | versionInit =>
      cases hf
      rw [fsModVersionInitMod] at hcall
      split_ifs at hcall
      · cases hcall
      · cases hcall
        exact ⟨rfl, rfl⟩
    | timerBlock | httpBlock =>
      cases hf
      cases hcall
      exact ⟨rfl, rfl⟩
    | kafkaListenerBlock =>
      cases hf
      rw [fsModKafkaListenerInitMod, if_neg (by simp [Callback.cmd, fsBlockCmd])] at hcall
      split_ifs at hcall
      · cases hcall
      · cases hcall
        exact ⟨rfl, rfl⟩
    | _ => cases hchild
  cases hinit with
  | absent hnone =>
    cases k with
    | versionInit | timerBlock | httpBlock | kafkaListenerBlock => cases hnone
    | _ => cases hchild
  | stored hf hcall =>
    obtain ⟨hq, hh⟩ := hcases hf hcall
    exact ⟨Option.some.inj hq, hh⟩
  | unset hf hcall =>
    obtain ⟨hq, -⟩ := hcases hf hcall
    cases hq

end

/-! ### Completions -/

section

variable {lib : Lib} {c : Engine} {p : Ptr}

lemma complete_of_get {o : Obj} (ho : c.heap.get p = some o) :
    c.heap.complete lib p
      = (lib.completion c.heap.calls o).map fun calls => { c.heap with calls := calls } := by
  rw [Heap.complete, ho]

/-- Library calls are made up to the first one that fails. -/
lemma ask_cons (calls : List LibCall) (l : LibCall) (ls : List LibCall) :
    lib.ask calls (l :: ls)
      = if lib.result calls l then lib.ask (calls ++ [l]) ls else .error .rejected := by
  rw [Lib.ask, List.foldlM_cons]
  split_ifs <;> rfl

lemma Called.Answers.asked {x : Called} {h : Heap} {l : LibCall} {ls : List LibCall}
    {g : List LibCall → Heap} (hx : x.Answers ((lib.ask (h.callLib lib l).2.calls ls).map g)) :
    Called.Answers (if !(h.callLib lib l).1 then some (.error, (h.callLib lib l).2) else x)
      ((lib.ask h.calls (l :: ls)).map g) := by
  rw [ask_cons]
  cases hl : lib.result h.calls l with
  | false =>
    rw [if_pos (by simp [Heap.callLib, hl]), if_neg (by simp)]
    exact .rejected _
  | true =>
    rw [if_neg (by simp [Heap.callLib, hl]), if_pos rfl]
    exact hx

/-- What the completion of a block does at its closing brace. -/
lemma completed_answers {m : ModId} {f : Engine → Ptr → Called} {o : Obj}
    (hf : (shippedMethods lib m).initModCompleted = some f) (ho : c.heap.get p = some o)
    (howner : o.owner = m) : (f c p).Answers (c.heap.complete lib p) := by
  subst howner
  rw [complete_of_get ho]
  cases o with
  | version welcome =>
    cases hf
    exact .ok c.heap
  | timer t =>
    cases hf
    rw [completed_eq lib ho, Lib.completion]
    split_ifs
    · exact .ok c.heap
    · exact .rejected _
  | http http =>
    cases hf
    rw [fsModHttpInitModCompleted, ho, Lib.completion]
    dsimp only
    cases hhost : http.host with
    | none => exact .undefined
    | some host => exact .asked (.asked (.asked (.ok _)))
  | listener l =>
    cases hf
    rw [fsModKafkaListenerInitModCompleted, ho, Lib.completion]
    dsimp only
    cases l.topic with
    | null => exact .rejected _
    | wild => exact .undefined
    | arr topics =>
      dsimp only
      by_cases hexec : topics.toList.any fun t => !t.procFlag
      · rw [if_pos hexec, if_pos hexec]
        exact .rejected _
      · rw [if_neg hexec, if_neg hexec]
        exact .asked (.asked (.ok _))

end

end Folksong
