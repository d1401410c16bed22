import Folksong.Conf.Depth
import Folksong.Mod.Rivals

/-!
# Where the frame below the innermost one is looked at

`fs_run_st_subtop` takes what lies below the innermost frame for a frame. `fs_conf_handle` does so
for every sub-block, right after the push, and four callbacks do so by themselves; only the branch
of parameters tests that there is a frame at all.
-/

namespace Folksong

/-- The sizes of the stack on which a callback evaluates `fs_run_st_subtop`. -/
def Callback.subtopReads (c : Engine) : Callback → List Nat
  | .httpKafkaBlock | .httpProxyBlock | .httpProxyPassPath => [c.stMod.length]
  | .kafkaListenerTopic => if topMod c = some .kafkaListener then [c.stMod.length] else []
  | _ => []

/-- The sizes of the stack on which `fs_run_st_subtop` is evaluated while a command is tried. -/
def Attempt.subtopReads (env : Env ModId Callback Heap) (a : Attempt ModId Callback Heap) :
    List Nat :=
  if a.cmd.isParam then
    if a.conf.stMod.isEmpty then [] else a.cmd.call.subtopReads a.conf
  else
    let c := a.conf.stPush a.mod a.cmd
    (if a.cmd.child then [c.stMod.length] else []) ++
      match enterBlock env c a.mod a.cmd a.first with
      | .ok r => a.cmd.call.subtopReads r.2
      | .error _ => []

/-- While the directive is handled, `fs_run_st_subtop` is evaluated with two frames at least. -/
def ParentExists (env : Env ModId Callback Heap) (c : Engine) (st : Status) : Prop :=
  ∀ a ∈ handleAttempts env c st, ∀ n ∈ a.subtopReads env, 2 ≤ n

/-- The command can be tried on the stack of `c`: a sub-block needs an open block, and `pass_path`
a second one around it. -/
structure Supported (c : Engine) (cmd : FsCmd Callback) : Prop where
  subblock : cmd.isParam = false → cmd.child = true → c.stMod ≠ []
  passPath : cmd.call = .httpProxyPassPath → c.stMod.length ≠ 1

section

variable {mods : List (FsMod ModId Callback)} {lib : Lib} {junk : Junk} {c : Engine}

lemma mem_callback_subtopReads {k : Callback} {n : Nat} (h : n ∈ k.subtopReads c) :
    n = c.stMod.length := by
  cases k with
  | httpKafkaBlock | httpProxyBlock | httpProxyPassPath => simpa [Callback.subtopReads] using h
  | kafkaListenerTopic =>
    rw [Callback.subtopReads] at h
    split_ifs at h with hmod
    · simpa using h
    · cases h
  | _ => cases h

/-- Of the parameters, `pass_path` alone looks below the innermost frame. -/
lemma subtopReads_of_param {k : Callback} (hblock : k.block = false)
    (hne : k ≠ .httpProxyPassPath) : k.subtopReads c = [] := by
  cases k with
  | httpProxyPassPath => exact absurd rfl hne
  | httpKafkaBlock | httpProxyBlock | kafkaListenerTopic => cases hblock
  | _ => rfl

/-- Own blocks do not. -/
lemma subtopReads_of_own {k : Callback} (hchild : k.child = false) : k.subtopReads c = [] := by
  cases k with
  | versionInit | timerBlock | httpBlock | kafkaListenerBlock => rfl
  | _ => cases hchild

section

variable {env : Env ModId Callback Heap} {a : Attempt ModId Callback Heap}

/-- A parameter needs a second block if it is `pass_path`. -/
lemma subtopReads_param_iff (hship : ShippedCmd a.mod a.cmd) (hparam : a.cmd.isParam) :
    (∀ n ∈ a.subtopReads env, 2 ≤ n) ↔
      (a.cmd.call = .httpProxyPassPath → a.conf.stMod.length ≠ 1) := by
  have hblock : a.cmd.call.block = false := by
    rw [FsCmd.isParam, Bool.and_eq_true, Bool.not_eq_true'] at hparam
    rw [← hship.block, hparam.2]
  rw [Attempt.subtopReads, if_pos hparam]
  by_cases hpass : a.cmd.call = .httpProxyPassPath
  · have hreads : (a.cmd.call.subtopReads a.conf) = [a.conf.stMod.length] := by
      rw [hpass, Callback.subtopReads]
    rw [hreads]
    constructor
    · intro h _ hone
      have hne : ¬ a.conf.stMod.isEmpty := by
        intro hempty
        simp [List.isEmpty_iff.mp hempty] at hone
      have htwo := h a.conf.stMod.length (by simp [hne])
      omega
    · intro hone n hn
      split_ifs at hn with hempty
      · cases hn
      · have hpos : 0 < a.conf.stMod.length := List.length_pos_iff.mpr (by simpa using hempty)
        have hone := hone hpass
        obtain rfl := List.mem_singleton.mp hn
        omega
  · rw [subtopReads_of_param hblock hpass, ite_self]
    refine iff_of_true (fun n hn => ?_) fun h => absurd h hpass
    cases hn

/-- A block needs one around it if it is a sub-block. -/
lemma subtopReads_block_iff (hship : ShippedCmd a.mod a.cmd) (hparam : a.cmd.isParam = false) :
    (∀ n ∈ a.subtopReads env, 2 ≤ n) ↔ (a.cmd.child = true → a.conf.stMod ≠ []) := by
  rw [Attempt.subtopReads, if_neg (by simp [hparam])]
  by_cases hchild : a.cmd.child
  · have henter : enterBlock env (a.conf.stPush a.mod a.cmd) a.mod a.cmd a.first
        = .ok (a.first, (a.conf.stPush a.mod a.cmd).storeTop
            ((a.conf.stPush a.mod a.cmd).subtopCtx env)) := by
      rw [enterBlock, if_pos hchild]
    have hlen : (a.conf.stPush a.mod a.cmd).stMod.length = a.conf.stMod.length + 1 := rfl
    simp only [henter, hchild, if_true]
    constructor
    · intro h _ hempty
      have htwo := h _ (List.mem_append_left _ (List.mem_singleton_self _))
      rw [hlen, hempty] at htwo
      simp at htwo
    · intro hsub n hn
      have hpos : 0 < a.conf.stMod.length := List.length_pos_iff.mpr (hsub trivial)
      have hn : n = a.conf.stMod.length + 1 := by
        rcases List.mem_append.mp hn with hn | hn
        · simpa [hlen] using hn
        · rw [mem_callback_subtopReads hn,
            (storeTop_left (a.conf.stPush a.mod a.cmd) _).stMod, hlen]
      omega
  · have hchild' : a.cmd.call.child = false := by
      rw [← hship.child]
      simpa using hchild
    refine iff_of_true (fun n hn => ?_) fun h => absurd h hchild
    simp only [hchild, Bool.false_eq_true, if_false, List.nil_append] at hn
    split at hn
    · rw [subtopReads_of_own hchild'] at hn
      cases hn
    · cases hn

/-- The stack is large enough while the command is tried exactly when it supports the command. -/
lemma subtopReads_iff (hship : ShippedCmd a.mod a.cmd) :
    (∀ n ∈ a.subtopReads env, 2 ≤ n) ↔ Supported a.conf a.cmd := by
  by_cases hparam : a.cmd.isParam
  · rw [subtopReads_param_iff hship hparam]
    constructor
    · intro h
      exact ⟨fun hno => absurd hparam (by simp [hno]), h⟩
    · exact Supported.passPath
  · have hparam : a.cmd.isParam = false := by simpa using hparam
    have hpass : a.cmd.call ≠ .httpProxyPassPath := by
      intro h
      have hchild := hship.child
      have hblock := hship.block
      rw [h] at hchild hblock
      simp [FsCmd.isParam, hchild, hblock, Callback.child, Callback.block] at hparam
    rw [subtopReads_block_iff hship hparam]
    constructor
    · intro h
      exact ⟨fun _ => h, fun hno => absurd hno hpass⟩
    · intro h
      exact h.subblock hparam

end

/-- A kafka listener at top level does not pass. -/
lemma listener_not_pass {m : ModId} {cmd : FsCmd Callback} (hship : ShippedCmd m cmd)
    (hcall : cmd.call = .kafkaListenerBlock) (hlevel : c.Level) (hempty : c.stMod = [])
    (st : Status) (first : Bool) :
    (tryCmd (shippedEnv mods lib junk) c m cmd st first).Post (fun _ => True)
      (Exit.Passes fun _ => False) := by
  obtain ⟨hm, hchild, hparam⟩ := hship.listener hcall
  have hdepth : (c.stPush m cmd).stDepth = 1 := stDepth_pushed hlevel hempty m cmd
  subst hm
  have hinit : ∀ r, (c.stPush .kafkaListener cmd).runInitMod (shippedEnv mods lib junk)
      .kafkaListener cmd = some r → r.1 = .ok ∧ topMod r.2 = some .kafkaListener := by
    rintro ⟨r, c₁⟩ hr
    constructor
    · rw [runInitMod_listener hcall hdepth] at hr
      cases hr
      rfl
    · rw [topMod, (runInitMod_left hr).stMod]
      rfl
  rw [tryCmd, if_neg (by simp [hparam]), tryBlock]
  refine Except.Post.bind (P := fun r => topMod r.2 = some .kafkaListener) ?_ fun r htop => ?_
  · rw [enterBlock, if_neg (by simp [hchild])]
    apply (post_defined hinit).bind
    rintro ⟨r, c₁⟩ ⟨hok, htop⟩
    dsimp only at hok htop
    subst hok
    refine (post_defined (P := fun c₂ => topMod c₂ = some .kafkaListener) ?_).bind fun c₂ h => h
    intro c₂ hreg
    rw [Conf.register] at hreg
    split at hreg
    · cases hreg
      exact htop
    · cases hreg
  refine Except.Post.bind (P := fun _ => True) ?_ fun c₃ _ => ?_
  · rw [callBlock]
    refine (post_defined (P := fun r => r.1 = .ok) ?_).bind ?_
    · rintro ⟨r', c₂⟩ hr
      simp only [Conf.runCall, shippedEnv, shippedCall, hcall, fsModKafkaListenerBlock, htop,
        ne_eq, not_true_eq_false, if_false, Option.map_some, Option.some.injEq] at hr
      cases hr
      rfl
    · rintro ⟨r', c₂⟩ hok
      dsimp only at hok
      subst hok
      trivial
  · rw [leaveBlock]
    split_ifs with hst
    · refine (post_defined (P := fun _ => True) fun _ _ => trivial).bind ?_
      rintro ⟨r', c₂⟩ -
      cases r' <;> trivial
    · trivial

/-- The rival of a sub-block is the block of a kafka listener. -/
lemma rival_subblock {m : ModId} {cmd : FsCmd Callback} {k : Callback}
    (hrival : k.rival = some cmd.call) (hship : ShippedCmd m cmd) (hparam : cmd.isParam = false)
    (hchild : cmd.child = true) : k = .kafkaListenerBlock := by
  have hblock : cmd.call.block = true := by
    rw [FsCmd.isParam, hchild, Bool.true_and, Bool.not_eq_false'] at hparam
    rw [← hship.block, hparam]
  have hchild' : cmd.call.child = true := by rw [← hship.child, hchild]
  have hback := Callback.rival_symm hrival
  cases hcall : cmd.call with
  | httpKafkaBlock =>
    rw [hcall] at hback
    cases hback
    rfl
  | httpProxyBlock | kafkaListenerTopic =>
    rw [hcall] at hback
    cases hback
  | versionInit | timerBlock | httpBlock | kafkaListenerBlock =>
    rw [hcall] at hchild'
    cases hchild'
  | _ =>
    rw [hcall] at hblock
    cases hblock

/-- The first command that fits the directive is supported by the stack. -/
def FirstSupported (env : Env ModId Callback Heap) (c : Engine) (st : Status) : Prop :=
  ∀ name, c.tokens.nth 0 = some name → ∀ p ∈ (env.fitting name st).head?, Supported c p.2

/-- What is supported does not depend on the rest of the engine. -/
lemma Supported.congr {c' : Engine} {cmd : FsCmd Callback} (h : Supported c cmd)
    (hs : c'.stMod = c.stMod) : Supported c' cmd :=
  ⟨hs ▸ h.subblock, hs ▸ h.passPath⟩

/-- A command that is tried behind the first one that fits is supported: the first one is its rival,
and has passed. -/
lemma supported_behind (hmods : mods.Perm shippedMods) {name : FsStr} (hname : name.IsToken)
    (hlevel : c.Level) {st : Status} {p q : ModId × FsCmd Callback}
    {rest : List (ModId × FsCmd Callback)}
    (hfit : (shippedEnv mods lib junk).fitting name st = p :: rest) {first first' : Bool}
    {c' : Engine}
    (hpass : tryCmd (shippedEnv mods lib junk) c p.1 p.2 st first = .error (.pass first' c'))
    (hq : q ∈ rest) : Supported c q.2 := by
  have hmem := mem_shipped_of_perm hmods
  have hpfit : p ∈ (shippedEnv mods lib junk).fitting name st := hfit ▸ List.mem_cons_self
  have hqfit : q ∈ (shippedEnv mods lib junk).fitting name st :=
    hfit ▸ List.mem_cons_of_mem _ hq
  have hship := shippedCmd_of_mem_fitting hmem hpfit
  have hship' := shippedCmd_of_mem_fitting hmem hqfit
  have hrival : p.2.call.rival = some q.2.call := by
    have hnodup : ((shippedEnv mods lib junk).fitting name st).Nodup := fitting_nodup hmods
    rw [hfit, List.nodup_cons] at hnodup
    refine (rival_of_matches hmem hname hpfit hqfit).resolve_left fun heq => ?_
    exact hnodup.1 (heq ▸ hq)
  constructor
  · intro hparam hchild hempty
    have hcall : p.2.call = .kafkaListenerBlock := rival_subblock hrival hship' hparam hchild
    have hpost : (tryCmd (shippedEnv mods lib junk) c p.1 p.2 st first).Post (fun _ => True)
        (Exit.Passes fun _ => False) := listener_not_pass hship hcall hlevel hempty st first
    rw [hpass] at hpost
    exact hpost
  · intro hpassPath
    have hno := Callback.rival_symm hrival
    rw [hpassPath] at hno
    cases hno

lemma parentExists_iff (hmods : mods.Perm shippedMods) (h : c.Steady) (st : Status) :
    ParentExists (shippedEnv mods lib junk) c st ↔
      FirstSupported (shippedEnv mods lib junk) c st := by
  have hmem := mem_shipped_of_perm hmods
  by_cases hend : st = .blockEnd
  · subst hend
    refine iff_of_true (fun a ha => by cases ha) fun name _ p hp => ?_
    have hp := FsCmd.fits_of_matches (Env.mem_fitting.mp (List.mem_of_mem_head? hp)).2
    simp [FsCmd.fits] at hp
  cases hname : c.tokens.nth 0 with
  | none =>
    refine iff_of_true (fun a ha => ?_) fun name hname' => ?_
    · rw [handleAttempts, if_neg (by simpa using hend), hname] at ha
      cases ha
    · rw [hname] at hname'
      cases hname'
  | some name =>
    have htoken := h.worded 0 name hname
    have hfirst : FirstSupported (shippedEnv mods lib junk) c st ↔
        ∀ p ∈ ((shippedEnv mods lib junk).fitting name st).head?, Supported c p.2 := by
      simp [FirstSupported, hname]
    rw [hfirst, ParentExists, handleAttempts_of_name hname hend, attempts_fitting]
    generalize (shippedEnv mods lib junk).first c = first
    cases hfit : (shippedEnv mods lib junk).fitting name st with
    | nil => exact iff_of_true (fun a ha => by cases ha) fun p hp => by cases hp
    | cons p rest =>
      obtain ⟨m, cmd⟩ := p
      have hfitting : ∀ p ∈ (m, cmd) :: rest, p ∈ (shippedEnv mods lib junk).fitting name st := by
        intro p hp
        rw [hfit]
        exact hp
      have hfirst := hfitting _ List.mem_cons_self
      have hmatch := (Env.mem_fitting.mp hfirst).2
      rw [attempts, if_pos hmatch, List.forall_mem_cons,
        subtopReads_iff (shippedCmd_of_mem_fitting hmem hfirst)]
      simp only [List.head?_cons, Option.mem_some_iff, forall_eq']
      refine and_iff_left_of_imp fun hsupp a ha => ?_
      split at ha
      next first' c' htry =>
        have hleft := tryCmd_pass (FsCmd.fits_of_matches hmatch) htry
        -- the commands behind the first one are tried on the same stack
        obtain ⟨hstack, hrest, -⟩ := of_mem_attempts (I := fun c' => c'.stMod = c.stMod)
          (fun m cmd first c₁ first' c₂ _ hmatch hc₁ hpass =>
            (tryCmd_pass (FsCmd.fits_of_matches hmatch) hpass).stMod.trans hc₁) hleft.stMod ha
        have hbehind := hfitting _ (List.mem_cons_of_mem _ hrest)
        rw [subtopReads_iff (shippedCmd_of_mem_fitting hmem hbehind)]
        exact (supported_behind hmods htoken h.level hfit htry hrest).congr hstack
      next => cases ha

/-- In every state of every run, whatever the text and the order of the modules are,
`fs_run_st_subtop` finds two frames while the next directive is handled exactly when the first
command that fits the directive is supported by the stack. -/
theorem parentExists_of_run_iff (hmods : mods.Perm shippedMods) (io : ReadOutcome)
    (mode : ParseMode) {f f' : FsFile} {heap : Heap} {s : FsFile × Engine} {ls : List Taking}
    {l : Taking} (hrun : Transition.Run (ParseStep (shippedEnv mods lib junk) io mode)
      (f, Conf.start (fsAllocArr FsStr 3 tokensCapa_pos) heap) ls s)
    (hnext : fsConfNextToken io s.1 s.2.tokens = .ret l.status f' l.tokens) :
    ParentExists (shippedEnv mods lib junk) (s.2.take l) l.status ↔
      FirstSupported (shippedEnv mods lib junk) (s.2.take l) l.status :=
  parentExists_iff hmods ((steady_of_run hrun (steady_start 3 tokensCapa_pos heap)).take hnext)
    l.status

end

/-- A sub-block in an http block that has been opened. -/
theorem parentExists_of_run_iff_proxy :
    ∃ ls s f l, Transition.Run (ParseStep sampleEnv (fun _ => true) .param)
        (sampleAt (bytes "http\x7bport 80;proxy a\x7b")) ls s ∧ (s.2.stMod.length == 1) = true ∧
      fsConfNextToken (fun _ => true) s.1 s.2.tokens = .ret l.status f l.tokens ∧
      l.status = .blockStart ∧
      (ParentExists sampleEnv (s.2.take l) l.status ↔
        FirstSupported sampleEnv (s.2.take l) l.status) := by
  obtain ⟨ls, s, hrun, htest⟩ := Transition.exists_run_of_follow
    (show ((Transition.follow (parseNext sampleEnv (fun _ => true) .param) (fun _ _ => True) 2
      (sampleAt (bytes "http\x7bport 80;proxy a\x7b"))).any fun s => s.2.stMod.length == 1 &&
        (fsConfNextToken (fun _ => true) s.1 s.2.tokens).answers fun l =>
          l.status == .blockStart) = true by decide +kernel)
  rw [Bool.and_eq_true] at htest
  obtain ⟨hlen, hnext⟩ := htest
  obtain ⟨f, l, hnext, hst⟩ := exists_taking (fun l => l.status == .blockStart) hnext
  refine ⟨ls, s, f, l, hrun.unguarded, hlen, hnext, by simpa using hst, ?_⟩
  exact parentExists_of_run_iff (List.Perm.refl _) (fun _ => true) .param hrun.unguarded hnext

/-- `proxy` at top level. -/
theorem not_parentExists :
    ¬ ∀ (mods : List (FsMod ModId Callback)) (s : FsFile × Engine) (ls : List Taking)
        (f f' : FsFile) (l : Taking), mods.Perm shippedMods →
      Transition.Run (ParseStep (shippedEnv mods .succeeding .null) (fun _ => true) .param)
        (f, sampleStart) ls s →
      fsConfNextToken (fun _ => true) s.1 s.2.tokens = .ret l.status f' l.tokens →
        ParentExists (shippedEnv mods .succeeding .null) (s.2.take l) l.status := by
  intro h
  obtain ⟨f', l, hnext, hreads⟩ := exists_taking
    (fun l => (handleAttempts sampleEnv (sampleStart.take l) l.status).any fun a =>
      (a.subtopReads sampleEnv).any (· < 2))
    (show (fsConfNextToken (fun _ => true) (sampleAt (bytes "proxy a\x7b")).1
      sampleStart.tokens).answers _ by decide +kernel)
  obtain ⟨a, ha, hreads⟩ := List.any_eq_true.mp hreads
  obtain ⟨n, hn, hlt⟩ := List.any_eq_true.mp hreads
  have htwo := h shippedMods (_, sampleStart) [] _ f' l (List.Perm.refl _) .nil hnext a ha n hn
  exact absurd (of_decide_eq_true hlt) (Nat.not_lt.mpr htwo)

end Folksong
