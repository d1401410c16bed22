import Folksong.Conf.Record
import Folksong.Mod.Rivals

/-!
# The order of the modules

Three words belong to two modules each. Wherever a directive with such a word stands, one of the
two commands declines, and what it leaves behind makes no difference to the other one.
-/

namespace Folksong

/-- What libraries and fresh memory give depends on the state of the program. -/
structure Lib.Blind (lib : Lib) : Prop where
  uninitNull : ∀ k c log, lib.uninitNull (c.relog log) k = lib.uninitNull c k
  misused : ∀ k c log p, lib.misused k (c.relog log) p = lib.misused k c p
  misusedCompleted : ∀ m c log p, lib.misusedCompleted m (c.relog log) p = lib.misusedCompleted m c p

/-- So does what released and unwritten memory gives. -/
structure Junk.Blind (junk : Junk) : Prop where
  stale : ∀ c log s, junk.stale (c.relog log) s = junk.stale c s
  first : ∀ c log, junk.first (c.relog log) = junk.first c

section

variable (c : Engine) (log : List (Event ModId Callback))

@[simp] lemma topMod_relog : topMod (c.relog log) = topMod c := rfl

@[simp] lemma topCmd_relog : topCmd (c.relog log) = topCmd c := rfl

@[simp] lemma subtopMod_relog : subtopMod (c.relog log) = subtopMod c := rfl

@[simp] lemma subtopCmd_relog : subtopCmd (c.relog log) = subtopCmd c := rfl

@[simp] lemma tokenText_relog (i : Nat) : tokenText (c.relog log) i = tokenText c i := rfl

end

variable {mods mods' : List (FsMod ModId Callback)} {lib : Lib} {junk : Junk} {c c' : Engine}

lemma timerCmdTime_blind (hlib : lib.Blind) {k : Callback} {flag : Timer → Bool}
    {store : Timer → Nat → Timer} (c : Engine) (log : List (Event ModId Callback)) (p : Ptr) :
    timerCmdTime k flag store lib (c.relog log) p = timerCmdTime k flag store lib c p := by
  simp only [timerCmdTime, topMod_relog, relog_tokens, relog_heap, tokenText_relog, hlib.misused]
  rfl

lemma publisherCmd_blind (hlib : lib.Blind) {k : Callback} {words : Nat}
    {store : Publisher → Engine → Option (Option Publisher)}
    (c : Engine) (log : List (Event ModId Callback)) (p : Ptr)
    (hstore : ∀ publisher c log, store publisher (c.relog log) = store publisher c) :
    publisherCmd k words store lib (c.relog log) p = publisherCmd k words store lib c p := by
  simp only [publisherCmd, topCmd_relog, relog_tokens, relog_heap, hlib.misused, hstore]

lemma publisherField_blind (hlib : lib.Blind) {k : Callback} {field : Publisher → StrField}
    {store : Publisher → StrField → Publisher} (c : Engine) (log : List (Event ModId Callback))
    (p : Ptr) :
    publisherField k field store lib (c.relog log) p = publisherField k field store lib c p := by
  rw [publisherField]
  exact publisherCmd_blind hlib c log p fun _ _ _ => rfl

lemma shippedCall_blind (hlib : lib.Blind) (k : Callback) (c : Engine)
    (log : List (Event ModId Callback)) (p : Ptr) :
    shippedCall lib k (c.relog log) p = shippedCall lib k c p := by
  cases k with
  | versionInit => simp only [shippedCall, fsModVersionInit, relog_heap, hlib.misused]
  | versionArt => simp only [shippedCall, fsModVersionArt, relog_heap, hlib.misused]
  | timerBlock => rfl
  | timerTimeout => exact timerCmdTime_blind hlib c log p
  | timerRepeat => exact timerCmdTime_blind hlib c log p
  | timerExec =>
    simp only [shippedCall, fsModTimerCmdExec, topMod_relog, relog_tokens, relog_heap,
      hlib.misused]
    rfl
  | httpBlock => rfl
  | httpHost =>
    simp only [shippedCall, fsModHttpCmdHost, topMod_relog, relog_tokens, relog_heap,
      hlib.misused]
  | httpPort =>
    simp only [shippedCall, fsModHttpCmdPort, topMod_relog, relog_tokens, relog_heap,
      tokenText_relog, hlib.misused]
  | httpKafkaBlock =>
    simp only [shippedCall, fsModHttpKafkaBlock, subtopMod_relog, relog_tokens, relog_heap,
      hlib.misused, hlib.uninitNull]
  | httpKafkaConfig =>
    rw [shippedCall, fsModHttpKafkaCmdConfig]
    exact publisherCmd_blind hlib c log p fun _ _ _ => rfl
  | httpKafkaTopicParam =>
    rw [shippedCall, fsModHttpKafkaCmdTopicParam]
    exact publisherField_blind hlib c log p
  | httpKafkaDefaultTopic =>
    rw [shippedCall, fsModHttpKafkaCmdDefaultTopic]
    exact publisherField_blind hlib c log p
  | httpKafkaKeyParam =>
    rw [shippedCall, fsModHttpKafkaCmdKeyParam]
    exact publisherField_blind hlib c log p
  | httpKafkaDefaultKey =>
    rw [shippedCall, fsModHttpKafkaCmdDefaultKey]
    exact publisherField_blind hlib c log p
  | httpProxyBlock =>
    simp only [shippedCall, fsModHttpProxyBlock, subtopMod_relog, relog_tokens, relog_heap,
      hlib.misused]
    rfl
  | httpProxyPassPath =>
    simp only [shippedCall, fsModHttpProxyCmdPassPath, subtopMod_relog, relog_tokens, relog_heap,
      hlib.misused]
  | kafkaListenerBlock => rfl
  | kafkaListenerConfig =>
    simp only [shippedCall, fsModKafkaListenerCmdConfig, topMod_relog, topCmd_relog, relog_tokens,
      relog_heap, tokenText_relog, hlib.misused]
    rfl
  | kafkaListenerTopic =>
    simp only [shippedCall, fsModKafkaListenerCmdTopic, topMod_relog, subtopCmd_relog,
      relog_tokens, relog_heap, hlib.misused]
  | kafkaListenerExec =>
    simp only [shippedCall, fsModKafkaListenerCmdExec, topMod_relog, topCmd_relog, relog_tokens,
      relog_heap, hlib.misused]
    rfl

lemma shippedEnv_blind (hlib : lib.Blind) (hjunk : junk.Blind) :
    (shippedEnv mods lib junk).Blind where
  call k c log p := shippedCall_blind hlib k c log p
  initMod m f hf c log cmd := by
    cases m with
    | version | timer | http | kafkaListener =>
      cases hf
      rfl
    | httpKafka | httpProxy => cases hf
  completed m f hf c log p := by
    cases m with
    | version =>
      cases hf
      rfl
    | timer =>
      cases hf
      simp only [fsModTimerInitModCompleted, relog_heap, hlib.misusedCompleted]
    | http =>
      cases hf
      simp only [fsModHttpInitModCompleted, relog_heap, hlib.misusedCompleted]
      rfl
    | kafkaListener =>
      cases hf
      simp only [fsModKafkaListenerInitModCompleted, relog_heap, hlib.misusedCompleted]
      rfl
    | httpKafka | httpProxy => cases hf
  stale := hjunk.stale
  first := hjunk.first

/-! ### Where a command declines -/

/-- The command passes on the stack of `c`, whatever is behind the context it is given. -/
def Callback.Declines (c : Engine) : Callback → Prop
  | .httpKafkaBlock => topMod c ≠ some .http
  | .kafkaListenerBlock => c.stMod ≠ []
  | .httpKafkaConfig => topCmd c ≠ some .httpKafkaBlock
  | .kafkaListenerConfig => topMod c ≠ some .kafkaListener ∨ topCmd c ≠ some .kafkaListenerBlock
  | .timerExec => topMod c ≠ some .timer
  | .kafkaListenerExec => topMod c ≠ some .kafkaListener
  | _ => False

lemma stMod_ne_nil {m : ModId} (h : topMod c = some m) : c.stMod ≠ [] := by
  intro hnil
  simp [topMod, hnil] at h

/-- Of two rivals one declines. -/
lemma declines_or_rival {k k' : Callback} (h : k.rival = some k') :
    k.Declines c ∨ k'.Declines c := by
  have hblock : topMod c ≠ some .http ∨ c.stMod ≠ [] := by
    by_cases htop : topMod c = some .http
    · exact .inr (stMod_ne_nil htop)
    · exact .inl htop
  have hconfig : topCmd c ≠ some .httpKafkaBlock ∨
      (topMod c ≠ some .kafkaListener ∨ topCmd c ≠ some .kafkaListenerBlock) := by
    by_cases htop : topCmd c = some .httpKafkaBlock
    · exact .inr (.inr (by simp [htop]))
    · exact .inl htop
  have hexec : topMod c ≠ some .timer ∨ topMod c ≠ some .kafkaListener := by
    by_cases htop : topMod c = some .timer
    · exact .inr (by simp [htop])
    · exact .inl htop
  cases k with
  | httpKafkaBlock =>
    cases h
    exact hblock
  | kafkaListenerBlock =>
    cases h
    exact hblock.symm
  | httpKafkaConfig =>
    cases h
    exact hconfig
  | kafkaListenerConfig =>
    cases h
    exact hconfig.symm
  | timerExec =>
    cases h
    exact hexec
  | kafkaListenerExec =>
    cases h
    exact hexec.symm
  | _ => cases h

/-- Declining depends on the stack only. -/
lemma Callback.Declines.congr {k : Callback} (h : k.Declines c) (hs : c'.stMod = c.stMod) :
    k.Declines c' := by
  have hmod : topMod c' = topMod c := by rw [topMod, topMod, hs]
  have hcmd : topCmd c' = topCmd c := by rw [topCmd, topCmd, hs]
  cases k with
  | httpKafkaBlock | kafkaListenerBlock | httpKafkaConfig | kafkaListenerConfig | timerExec
  | kafkaListenerExec => simpa only [Callback.Declines, hmod, hcmd, hs] using h
  | _ => cases h

section

variable {m : ModId} {cmd : FsCmd Callback} {st : Status} {first : Bool}

/-- A parameter that declines passes and does nothing. -/
lemma shippedCall_of_declines (h : cmd.call.Declines c) (hblock : cmd.call.block = false)
    (p : Ptr) : shippedCall lib cmd.call c p = some (.pass, c.heap) := by
  cases hcall : cmd.call with
  | httpKafkaConfig =>
    rw [hcall, Callback.Declines] at h
    rw [shippedCall, fsModHttpKafkaCmdConfig, publisherCmd, if_pos h]
  | kafkaListenerConfig =>
    rw [hcall, Callback.Declines] at h
    rw [shippedCall, fsModKafkaListenerCmdConfig]
    rcases h with h | h
    · rw [if_pos h]
    · rw [if_pos h, ite_self]
  | timerExec =>
    rw [hcall, Callback.Declines] at h
    rw [shippedCall, fsModTimerCmdExec, if_pos h]
  | kafkaListenerExec =>
    rw [hcall, Callback.Declines] at h
    rw [shippedCall, fsModKafkaListenerCmdExec, if_pos h]
  | httpKafkaBlock | kafkaListenerBlock =>
    rw [hcall] at hblock
    cases hblock
  | _ =>
    rw [hcall] at h
    cases h

lemma isParam_of_declines (hship : ShippedCmd m cmd) (h : cmd.call.Declines c)
    (hblock : cmd.call.block = false) : cmd.isParam = true := by
  have hchild : cmd.call.child = true := by
    cases hcall : cmd.call <;> rw [hcall] at h hblock <;> first | rfl | cases h | cases hblock
  rw [FsCmd.isParam, hship.child, hship.block, hchild, hblock]
  rfl

lemma declines_param (hship : ShippedCmd m cmd) (h : cmd.call.Declines c)
    (hblock : cmd.call.block = false) (hne : c.stMod ≠ []) :
    ∃ c₁, tryCmd (shippedEnv mods lib junk) c m cmd st first = .error (.pass first c₁) ∧
      c.Alike c₁ := by
  generalize hp : c.topCtx (shippedEnv mods lib junk) = p
  have hrun : c.runCall (shippedEnv mods lib junk) m cmd p
      = some (.pass, c.emit (.call m cmd p .pass)) := by
    rw [Conf.runCall]
    change (shippedCall lib cmd.call c p).map _ = _
    rw [shippedCall_of_declines h hblock]
    rfl
  refine ⟨_, ?_, Conf.alike_emit c (.call m cmd p .pass) rfl⟩
  rw [tryCmd, if_pos (isParam_of_declines hship h hblock), tryParam,
    if_neg (by simpa using hne), hp, hrun]
  rfl

/-- A listener that is not at top level is taken back before anything is stored. -/
lemma declines_listener (hship : ShippedCmd m cmd) (hcall : cmd.call = .kafkaListenerBlock)
    (hlevel : c.Level) (hne : c.stMod ≠ []) :
    ∃ c₁, tryCmd (shippedEnv mods lib junk) c m cmd st first = .error (.pass first c₁) ∧
      Conf.Alike { c with ctx := c.ctx.grow } c₁ := by
  obtain ⟨hm, hchild, hparam⟩ := hship.listener hcall
  have hdepth : (c.stPush m cmd).stDepth ≠ 1 := by
    have hlen : c.stDepth = c.stMod.length := hlevel
    have hpos := List.length_pos_iff.mpr hne
    simp only [Conf.stPush, hlen]
    omega
  subst hm
  have hinit : (c.stPush .kafkaListener cmd).runInitMod (shippedEnv mods lib junk)
      .kafkaListener cmd
      = some (.pass, (c.stPush .kafkaListener cmd).emit (.initMod .kafkaListener .pass)) := by
    simp only [Conf.runInitMod, shippedEnv, shippedMethods, fsModKafkaListenerInitMod, hcall,
      hdepth, ne_eq, not_true_eq_false, not_false_eq_true, if_false, if_true]
    rfl
  have hdrop : ((c.stPush .kafkaListener cmd).emit (.initMod .kafkaListener .pass)).dropBlock
      = some (({ c with ctx := c.ctx.grow } : Engine).emit (.initMod .kafkaListener .pass)) := by
    simp [Conf.dropBlock, Conf.emit, Conf.stPush, Conf.stPop, FsArr.pushed_decCount]
  have henter : enterBlock (shippedEnv mods lib junk) (c.stPush .kafkaListener cmd) .kafkaListener
      cmd first = .error (.pass first
        (({ c with ctx := c.ctx.grow } : Engine).emit (.initMod .kafkaListener .pass))) := by
    rw [enterBlock, if_neg (by simp [hchild]), hinit]
    change (defined
      ((c.stPush .kafkaListener cmd).emit (.initMod .kafkaListener .pass)).dropBlock).bind
        (fun c => .error (.pass first c)) = _
    rw [hdrop]
    rfl
  refine ⟨_, ?_, Conf.alike_emit _ (.initMod .kafkaListener .pass) rfl⟩
  rw [tryCmd, if_neg (by simp [hparam]), tryBlock, henter]
  rfl

/-- A route outside of an http block is taken back; its slot has been written. -/
lemma declines_httpKafka (hship : ShippedCmd m cmd) (hcall : cmd.call = .httpKafkaBlock)
    (hun : c.Unregistered .httpKafka) (htop : topMod c ≠ some .http) :
    ∃ q c₁, tryCmd (shippedEnv mods lib junk) c m cmd st first = .error (.pass first c₁) ∧
      Conf.Alike { c with ctx := c.ctx.grow.write c.ctx.eleCount q } c₁ := by
  have hm : m = .httpKafka := by rw [← hship.owner, hcall]; rfl
  have hchild : cmd.child = true := by rw [hship.child, hcall]; rfl
  have hparam : cmd.isParam = false := by
    rw [FsCmd.isParam, hship.block, hcall, hchild]
    rfl
  subst hm
  generalize hq : (c.stPush .httpKafka cmd).subtopCtx (shippedEnv mods lib junk) = q
  generalize hentered : (c.stPush .httpKafka cmd).storeTop q = c₀
  have hc₀ : c₀ = { c.stPush .httpKafka cmd with ctx := c.ctx.push q } := hentered.symm
  generalize hp : c₀.topCtx (shippedEnv mods lib junk) = p
  have henter : enterBlock (shippedEnv mods lib junk) (c.stPush .httpKafka cmd) .httpKafka cmd first
      = .ok (first, c₀) := by
    rw [enterBlock, if_pos hchild, hq, hentered]
  have hrun : c₀.runCall (shippedEnv mods lib junk) .httpKafka cmd p
      = some (.pass, c₀.emit (.call .httpKafka cmd p .pass)) := by
    have hcalled : shippedCall lib cmd.call c₀ p = some (.pass, c₀.heap) := by
      rw [hcall, shippedCall, fsModHttpKafkaBlock, if_pos]
      rw [hc₀]
      exact htop
    rw [Conf.runCall]
    change (shippedCall lib cmd.call c₀ p).map _ = _
    rw [hcalled]
    rfl
  obtain ⟨c₁, hc₁⟩ : ∃ c₁ : Engine, c₁ = Conf.emit
      { c with ctx := c.ctx.grow.write c.ctx.eleCount q } (.call .httpKafka cmd p .pass) := ⟨_, rfl⟩
  have hdrop : (c₀.emit (.call .httpKafka cmd p .pass)).dropBlock = some c₁ := by
    simp [hc₀, hc₁, Conf.dropBlock, Conf.emit, Conf.stPush, Conf.stPop, FsArr.push_decCount]
  have hunregister : c₁.unregister .httpKafka first = some c₁ := by
    have hused : (if first then Function.update c.used .httpKafka false else c.used) = c.used := by
      cases first with
      | true => exact Function.update_eq_self_iff.mpr hun.used.symm
      | false => rfl
    have hctxs : Function.update c.ctxs .httpKafka .null = c.ctxs :=
      Function.update_eq_self_iff.mpr hun.ctxs.symm
    simp [hc₁, Conf.unregister, Conf.emit, hun.ctxs, hused, hctxs]
  have hblock : callBlock (shippedEnv mods lib junk) c₀ .httpKafka cmd first
      = .error (.pass first c₁) := by
    rw [callBlock, hp, hrun]
    change (defined (c₀.emit (.call .httpKafka cmd p .pass)).dropBlock).bind (fun c =>
      (defined (c.unregister .httpKafka first)).bind fun c => .error (.pass first c)) = _
    rw [hdrop]
    change (defined (c₁.unregister .httpKafka first)).bind (fun c => .error (.pass first c)) = _
    rw [hunregister]
    rfl
  refine ⟨q, c₁, ?_, ?_⟩
  · rw [tryCmd, if_neg (by simp [hparam]), tryBlock, henter]
    change (callBlock (shippedEnv mods lib junk) c₀ .httpKafka cmd first).bind _ = _
    rw [hblock]
    rfl
  · rw [hc₁]
    exact Conf.alike_emit _ _ rfl

/-! ### What the rival finds -/

/-- The room in `run->ctx` is not looked at when a directive has been rejected. -/
lemma same_ctx (c : Engine) (ctx : FsArr Ptr) : c.Same { c with ctx := ctx } :=
  ⟨rfl, rfl, rfl, rfl⟩

/-- A push finds the room that a push before it has made. -/
lemma stPush_grow (c : Engine) (m : ModId) (cmd : FsCmd Callback) :
    Conf.stPush { c with ctx := c.ctx.grow } m cmd = c.stPush m cmd := by
  simp [Conf.stPush, FsArr.grow_slot, FsArr.grow_pushed]

/-- What has been stored in a slot is lost with the next store. -/
lemma storeTop_again (c : Engine) (m : ModId) (cmd : FsCmd Callback) (q p : Ptr) :
    (Conf.stPush { c with ctx := c.ctx.grow.write c.ctx.eleCount q } m cmd).storeTop p
      = (c.stPush m cmd).storeTop p := by
  have hpush : (c.ctx.grow.write c.ctx.eleCount q).push p = c.ctx.push p := c.ctx.push_again q p
  rw [FsArr.push, FsArr.push, FsArr.write_eleCount, FsArr.grow_eleCount] at hpush
  simp [Conf.stPush, Conf.storeTop, FsArr.slot, FsArr.grow_write, hpush]

lemma listener_again (henv : (shippedEnv mods lib junk).Blind) (hship : ShippedCmd m cmd)
    (hcall : cmd.call = .kafkaListenerBlock) (hlevel : c.Level) (q : Ptr) (st : Status)
    (first : Bool) :
    SameResults (tryCmd (shippedEnv mods lib junk) c m cmd st first)
      (tryCmd (shippedEnv mods lib junk) { c with ctx := c.ctx.grow.write c.ctx.eleCount q } m cmd
        st first) := by
  generalize hagain : { c with ctx := c.ctx.grow.write c.ctx.eleCount q } = c'
  have hlevel' : c'.Level := hagain ▸ hlevel
  have hsame : c.Same c' := hagain ▸ same_ctx c _
  by_cases hempty : c.stMod = []
  · obtain ⟨hm, hchild, hparam⟩ := hship.listener hcall
    have hempty' : c'.stMod = [] := hagain ▸ hempty
    have hstore : ∀ p, (c'.stPush .kafkaListener cmd).storeTop p
        = (c.stPush .kafkaListener cmd).storeTop p := hagain ▸ storeTop_again c _ cmd q
    have hheap : (c'.stPush .kafkaListener cmd).heap = (c.stPush .kafkaListener cmd).heap :=
      hagain ▸ rfl
    subst hm
    rw [tryCmd, tryCmd, if_neg (by simp [hparam]), if_neg (by simp [hparam])]
    refine AlikeResults.same (tryBlock_alike henv (enterOwn_alike henv ?_ hchild first) st)
    rw [runInitMod_listener hcall (stDepth_pushed hlevel hempty _ cmd),
      runInitMod_listener hcall (stDepth_pushed hlevel' hempty' _ cmd), hstore, hheap]
    exact .some ⟨rfl, Conf.Alike.refl _⟩
  · obtain ⟨c₁, hpass, h₁⟩ := declines_listener hship hcall hlevel hempty
    obtain ⟨c₂, hpass', h₂⟩ := declines_listener hship hcall hlevel' (hagain ▸ hempty)
    rw [hpass, hpass']
    have hsame₁ := (same_ctx c _).trans h₁.same
    have hsame₂ := (same_ctx c' _).trans h₂.same
    exact .error (.pass (hsame₁.symm.trans (hsame.trans hsame₂)))

/-- A command that declines passes, and makes no difference to its rival. -/
lemma declines_same (henv : (shippedEnv mods lib junk).Blind) (hship : ShippedCmd m cmd)
    {m' : ModId} {cmd' : FsCmd Callback} (hship' : ShippedCmd m' cmd')
    (hrival : cmd.call.rival = some cmd'.call) (h : cmd.call.Declines c) (hlevel : c.Level)
    (hun : c.Unregistered .httpKafka) (hne : cmd.call.block = false → c.stMod ≠ []) (st : Status)
    (first : Bool) :
    ∃ c₁, tryCmd (shippedEnv mods lib junk) c m cmd st first = .error (.pass first c₁) ∧
      c.Same c₁ ∧ SameResults (tryCmd (shippedEnv mods lib junk) c m' cmd' st first)
        (tryCmd (shippedEnv mods lib junk) c₁ m' cmd' st first) := by
  cases hblock : cmd.call.block with
  | false =>
    obtain ⟨c₁, hpass, h₁⟩ := declines_param hship h hblock (hne hblock)
    exact ⟨c₁, hpass, h₁.same, (tryCmd_alike henv h₁ m' cmd' st first).same⟩
  | true =>
    cases hcall : cmd.call with
    | kafkaListenerBlock =>
      rw [hcall] at h hrival
      obtain ⟨c₁, hpass, h₁⟩ := declines_listener hship hcall hlevel h
      refine ⟨c₁, hpass, (same_ctx c _).trans h₁.same, ?_⟩
      have hparam : cmd'.isParam = false := by
        rw [FsCmd.isParam, hship'.block, ← Option.some.inj hrival]
        simp [Callback.block]
      have hgrown : tryCmd (shippedEnv mods lib junk) { c with ctx := c.ctx.grow } m' cmd' st first
          = tryCmd (shippedEnv mods lib junk) c m' cmd' st first := by
        rw [tryCmd, tryCmd, if_neg (by simp [hparam]), if_neg (by simp [hparam]), tryBlock,
          tryBlock, stPush_grow]
      rw [← hgrown]
      exact (tryCmd_alike henv h₁ m' cmd' st first).same
    | httpKafkaBlock =>
      rw [hcall] at h hrival
      obtain ⟨q, c₁, hpass, h₁⟩ := declines_httpKafka hship hcall hun h
      refine ⟨c₁, hpass, (same_ctx c _).trans h₁.same, ?_⟩
      have hagain := listener_again henv hship' (Option.some.inj hrival).symm hlevel q
        st first
      exact hagain.trans (tryCmd_alike henv h₁ m' cmd' st first).same
    | httpKafkaConfig | kafkaListenerConfig | timerExec | kafkaListenerExec =>
      rw [hcall] at hblock
      cases hblock
    | _ =>
      rw [hcall] at h
      cases h

/-! ### Two orders -/

lemma rival_block {k k' : Callback} (h : k.rival = some k') : k'.block = k.block := by
  cases k with
  | httpKafkaBlock | kafkaListenerBlock | httpKafkaConfig | kafkaListenerConfig | timerExec
  | kafkaListenerExec =>
    cases h
    rfl
  | _ => cases h

lemma rival_child {k k' : Callback} (h : k.rival = some k') (hblock : k.block = false) :
    k.child = true := by
  cases k with
  | httpKafkaConfig | kafkaListenerConfig | timerExec | kafkaListenerExec => rfl
  | httpKafkaBlock | kafkaListenerBlock => cases hblock
  | _ => cases h

/-- Parameters are rejected when no block is open. -/
lemma tryCmd_of_empty (hship : ShippedCmd m cmd) {k : Callback} (hrival : cmd.call.rival = some k)
    (hblock : cmd.call.block = false) (hempty : c.stMod = []) :
    tryCmd (shippedEnv mods lib junk) c m cmd st first = .error (.error c) := by
  have hparam : cmd.isParam = true := by
    rw [FsCmd.isParam, hship.child, hship.block, hblock, rival_child hrival hblock]
    rfl
  rw [tryCmd, if_pos hparam, tryParam, hempty]
  rfl

/-- The http kafka module has no own block. -/
lemma child_of_httpKafka (hship : ShippedCmd m cmd) (hm : .httpKafka = m) : cmd.child = true := by
  have howner := hship.owner
  rw [hship.child]
  cases hcall : cmd.call with
  | versionInit | timerBlock | httpBlock | kafkaListenerBlock =>
    rw [hcall, ← hm] at howner
    cases howner
  | _ => rfl

/-- Two rivals can be tried in either order when the first one declines. -/
lemma tryAll_declines (henv : (shippedEnv mods lib junk).Blind) (hship : ShippedCmd m cmd)
    {m' : ModId} {cmd' : FsCmd Callback} (hship' : ShippedCmd m' cmd')
    (hrival : cmd.call.rival = some cmd'.call) (h : cmd.call.Declines c) (hlevel : c.Level)
    (hun : c.Unregistered .httpKafka) {name : FsStr} (hmatch : cmd.matches name st)
    (hmatch' : cmd'.matches name st) (first : Bool) :
    SameResults (tryAll (shippedEnv mods lib junk) name st [(m, cmd), (m', cmd')] first c)
      (tryAll (shippedEnv mods lib junk) name st [(m', cmd'), (m, cmd)] first c) := by
  rw [tryAll_cons name st [(m', cmd')], tryAll_cons name st [(m, cmd)], if_pos hmatch,
    if_pos hmatch']
  by_cases hempty : cmd.call.block = false ∧ c.stMod = []
  · obtain ⟨hblock, hempty⟩ := hempty
    rw [tryCmd_of_empty hship hrival hblock hempty, tryCmd_of_empty hship'
      (Callback.rival_symm hrival) ((rival_block hrival).trans hblock) hempty]
    exact .error (.error (.refl c))
  · have hne : cmd.call.block = false → c.stMod ≠ [] := fun hblock hnil => hempty ⟨hblock, hnil⟩
    obtain ⟨c₁, hpass, -, hrest⟩ :=
      declines_same henv hship hship' hrival h hlevel hun hne st first
    rw [hpass]
    dsimp only
    rw [tryAll_cons, if_pos hmatch']
    generalize hr : tryCmd (shippedEnv mods lib junk) c m' cmd' st first = r,
      tryCmd (shippedEnv mods lib junk) c₁ m' cmd' st first = r' at hrest ⊢
    cases hrest with
    | ok h₂ => exact .ok h₂.symm
    | error he =>
      cases he with
      | error h₂ => exact .error (.error h₂.symm)
      | undefined => exact .error .undefined
      | @pass first₂ _ c₂ _ h₂ =>
        -- the rival has passed as well, and then the command declines behind it
        have hstMod : c₂.stMod = c.stMod := (tryCmd_pass (FsCmd.fits_of_matches hmatch') hr).stMod
        have hlevel₂ : c₂.Level := by
          have hpost : (tryCmd (shippedEnv mods lib junk) c m' cmd' st first).Post Conf.Level
              (Exit.Keeps Conf.Level) := tryCmd_level hlevel m' cmd' st first
          rw [hr] at hpost
          exact hpost
        have hun₂ : c₂.Unregistered .httpKafka := by
          have hpost : (tryCmd (shippedEnv mods lib junk) c m' cmd' st first).Post
              (Conf.Unregistered · .httpKafka) (Exit.Keeps (Conf.Unregistered · .httpKafka)) :=
            tryCmd_unregistered hun (child_of_httpKafka hship') st first
          rw [hr] at hpost
          exact hpost
        obtain ⟨c₃, hpass₃, hsame₃, -⟩ := declines_same henv hship hship' hrival
          (h.congr hstMod) hlevel₂ hun₂ (fun hblock => hstMod ▸ hne hblock) st first₂
        dsimp only
        rw [tryAll_cons, if_pos hmatch, hpass₃]
        exact .error (.error (h₂.symm.trans hsame₃))

/-- The table is only used for the order of the commands. -/
lemma tryAll_mods (mods mods' : List (FsMod ModId Callback)) (name : FsStr)
    (cmds : List (ModId × FsCmd Callback)) (c : Engine) :
    tryAll (shippedEnv mods' lib junk) name st cmds first c
      = tryAll (shippedEnv mods lib junk) name st cmds first c := by
  induction cmds generalizing first c with
  | nil => rfl
  | cons p cmds ih =>
    obtain ⟨m, cmd⟩ := p
    have htry : tryCmd (shippedEnv mods' lib junk) c m cmd st first
        = tryCmd (shippedEnv mods lib junk) c m cmd st first := rfl
    rw [tryAll_cons, tryAll_cons, htry]
    simp only [ih]

/-- Rivals can be tried in either order. -/
lemma tryAll_rivals (hmods : mods.Perm shippedMods) (henv : (shippedEnv mods lib junk).Blind)
    {p q : ModId × FsCmd Callback} {name : FsStr}
    (hfitting : (shippedEnv mods lib junk).fitting name st = [p, q])
    (hrival : p.2.call.rival = some q.2.call) (hlevel : c.Level)
    (hun : c.Unregistered .httpKafka) (first : Bool) :
    SameResults (tryAll (shippedEnv mods lib junk) name st [p, q] first c)
      (tryAll (shippedEnv mods lib junk) name st [q, p] first c) := by
  have hmem := mem_shipped_of_perm hmods
  have hp : p ∈ (shippedEnv mods lib junk).fitting name st := by simp [hfitting]
  have hq : q ∈ (shippedEnv mods lib junk).fitting name st := by simp [hfitting]
  have hmatch := (Env.mem_fitting.mp hp).2
  have hmatch' := (Env.mem_fitting.mp hq).2
  have hship := shippedCmd_of_mem_fitting hmem hp
  have hship' := shippedCmd_of_mem_fitting hmem hq
  rcases declines_or_rival hrival with h | h
  · exact tryAll_declines henv hship hship' hrival h hlevel hun hmatch hmatch' first
  · exact (tryAll_declines henv hship' hship (Callback.rival_symm hrival) h hlevel hun hmatch'
      hmatch first).symm

end

/-- A directive ends in the same way, whatever the order of the modules is. -/
lemma handle_order (hmods : mods.Perm shippedMods) (hmods' : mods'.Perm shippedMods)
    (hlib : lib.Blind) (hjunk : junk.Blind) (hsteady : c.Steady)
    (hun : c.Unregistered .httpKafka) (h : c.Alike c') (st : Status) :
    SameResults (fsConfHandle (shippedEnv mods lib junk) c st)
      (fsConfHandle (shippedEnv mods' lib junk) c' st) := by
  have henv : (shippedEnv mods lib junk).Blind := shippedEnv_blind hlib hjunk
  by_cases hend : st = .blockEnd
  · subst hend
    exact closeBlock_alike henv h
  cases hname : c.tokens.nth 0 with
  | none =>
    rw [fsConfHandle, fsConfHandle, if_neg (by simpa using hend), if_neg (by simpa using hend),
      h.tokens, hname]
    exact .error .undefined
  | some name =>
    have hfirst : (shippedEnv mods' lib junk).first c' = (shippedEnv mods lib junk).first c := by
      rw [h.state]
      exact hjunk.first c _
    have hperm : ((shippedEnv mods lib junk).fitting name st).Perm
        ((shippedEnv mods' lib junk).fitting name st) := fitting_perm (hmods.trans hmods'.symm)
    rw [fsConfHandle_of_name hname hend, fsConfHandle_of_name (h.tokens ▸ hname) hend,
      tryAll_fitting, tryAll_fitting, tryAll_mods mods mods', hfirst]
    have hsame : ∀ cmds first, SameResults (tryAll (shippedEnv mods lib junk) name st cmds first c)
        (tryAll (shippedEnv mods lib junk) name st cmds first c') :=
      fun cmds first => tryAll_alike henv h name st cmds first
    rcases fitting_cases hmods (hsteady.worded 0 name hname) st rfl with
      hfit | ⟨p, hfit⟩ | ⟨p, q, hfit, hrival⟩
    · rw [hfit] at hperm ⊢
      rw [List.nil_perm.mp hperm]
      exact hsame _ _
    · rw [hfit] at hperm ⊢
      rw [List.singleton_perm.mp hperm]
      exact hsame _ _
    · have hrivals := tryAll_rivals hmods henv hfit hrival hsteady.level hun
      rw [hfit] at hperm ⊢
      rcases List.pair_perm.mp hperm with hfit' | hfit'
      · rw [hfit']
        exact hsame _ _
      · rw [hfit']
        exact (hrivals _).trans (hsame _ _)

/-! ### A parse -/

/-- Between two directives the engine is steady, and http kafka has no entry in the registry. -/
structure Conf.Orderly (c : Engine) : Prop where
  steady : c.Steady
  unregistered : c.Unregistered .httpKafka

lemma orderly_start (capa : Nat) (hcapa : 0 < capa) (heap : Heap) :
    Conf.Orderly (Conf.start (fsAllocArr FsStr capa hcapa) heap) :=
  ⟨steady_start capa hcapa heap, rfl, rfl⟩

lemma orderly_step (hmods : mods.Perm shippedMods) {io : ReadOutcome} {mode : ParseMode}
    {s s' : FsFile × Engine} {l : Taking} (h : s.2.Orderly)
    (hstep : ParseStep (shippedEnv mods lib junk) io mode s l s') : s'.2.Orderly := by
  obtain ⟨-, -, hhandle⟩ := hstep.handled
  have hun : (s.2.take l).Unregistered .httpKafka := h.unregistered.congr rfl rfl
  have hmem := mem_shipped_of_perm hmods
  exact ⟨steady_step h.steady hstep,
    handle_unregistered hun
      (fun _ hp hm => child_of_httpKafka (shippedCmd_of_mem hmem hp) hm) hhandle⟩

/-- What two parses have in common: the verdict, the callbacks that have accepted, and the
contexts registered for each module, with the objects behind them. -/
structure SameParse (r r' : Verdict × Engine) : Prop where
  verdict : r'.1 = r.1
  calls : r'.2.acceptedCalls = r.2.acceptedCalls
  used : r'.2.used = r.2.used
  ctxs : r'.2.ctxs = r.2.ctxs
  heap : r'.2.heap = r.2.heap

lemma SameParse.of_ends {r r' : Verdict × Engine} (h : SameEnds r r') : SameParse r r' :=
  ⟨h.verdict, h.same.acceptedCalls, h.same.used, h.same.ctxs, h.same.heap⟩

/-- Every text is parsed in the same way, from a file and as a command line. -/
structure SameParses (env env' : Env ModId Callback Heap) (io : ReadOutcome) (c : Engine) :
    Prop where
  file : ∀ content mem, SameParse (fsConfParseEnd env io content mem c)
    (fsConfParseEnd env' io content mem c)
  cmdline : ∀ text, SameParse (fsConfParseCmdlineEnd env io text c)
    (fsConfParseCmdlineEnd env' io text c)

lemma parseEnd_order (hmods : mods.Perm shippedMods) (hmods' : mods'.Perm shippedMods)
    (hlib : lib.Blind) (hjunk : junk.Blind) (io : ReadOutcome) (mode : ParseMode) (n : Nat)
    (f : FsFile) (h : c.Orderly) :
    SameParse (parseEnd (shippedEnv mods lib junk) io mode n f c)
      (parseEnd (shippedEnv mods' lib junk) io mode n f c) := by
  apply SameParse.of_ends
  refine parseEnd_same (I := Conf.Orderly) ?_ ?_ n f h (Conf.Alike.refl c)
  · intro f f' l c c' hc halike hnext _
    exact handle_order hmods hmods' hlib hjunk (hc.steady.take hnext)
      (hc.unregistered.congr rfl rfl) (halike.take l) l.status
  · intro s l s' hs hstep
    exact orderly_step hmods hs hstep

/-- The order of the modules makes no difference. -/
theorem sameParses_of_perm (hmods : mods.Perm shippedMods) (hmods' : mods'.Perm shippedMods)
    (hlib : lib.Blind) (hjunk : junk.Blind) (io : ReadOutcome) (capa : Nat) (hcapa : 0 < capa)
    (heap : Heap) :
    SameParses (shippedEnv mods lib junk) (shippedEnv mods' lib junk) io
      (Conf.start (fsAllocArr FsStr capa hcapa) heap) := by
  have hstart := orderly_start capa hcapa heap
  constructor
  · intro content mem
    exact parseEnd_order hmods hmods' hlib hjunk io .file _ _ hstart
  · intro text
    rw [fsConfParseCmdlineEnd, fsConfParseCmdlineEnd]
    split_ifs with hempty
    · exact ⟨rfl, rfl, rfl, rfl, rfl⟩
    · exact parseEnd_order hmods hmods' hlib hjunk io .param _ _ hstart

/-- The table and its reverse. -/
theorem sameParses_of_perm_reverse :
    SameParses (shippedEnv shippedMods .succeeding .null)
      (shippedEnv shippedMods.reverse .succeeding .null) (fun _ => true) sampleStart :=
  sameParses_of_perm (.refl _) (List.reverse_perm _)
    ⟨fun _ _ _ => rfl, fun _ _ _ _ => rfl, fun _ _ _ _ => rfl⟩ ⟨fun _ _ _ => rfl, fun _ _ => rfl⟩
    (fun _ => true) 3 tokensCapa_pos ⟨[], []⟩

end Folksong
