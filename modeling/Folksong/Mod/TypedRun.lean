import Folksong.Conf.Events
import Folksong.Mod.Typing

/-!
# Every parameter works on an object of its module

An accepted directive keeps `TypedStack`, and a parameter that answers `FS_CONF_OK` has worked on
an object of the type it casts its context to, which a block of its own module has made.
-/

namespace Folksong

/-- The block that makes what the callback works on. -/
def Callback.creator : Callback → Callback
  | .versionInit | .versionArt => .versionInit
  | .timerBlock | .timerTimeout | .timerRepeat | .timerExec => .timerBlock
  | .httpBlock | .httpHost | .httpPort => .httpBlock
  | .httpKafkaBlock | .httpKafkaConfig | .httpKafkaTopicParam | .httpKafkaDefaultTopic
  | .httpKafkaKeyParam | .httpKafkaDefaultKey => .httpKafkaBlock
  | .httpProxyBlock | .httpProxyPassPath => .httpProxyBlock
  | .kafkaListenerBlock | .kafkaListenerConfig | .kafkaListenerTopic | .kafkaListenerExec =>
    .kafkaListenerBlock

/-- Parameters keep the types of all objects. -/
lemma Callback.leaves_of_param {k : Callback} (hk : k.block = false) (s : Shape) :
    k.leaves s = s := by
  cases k <;> first | rfl | cases hk

/-- Own blocks keep the types of all objects. -/
lemma Callback.leaves_of_own {k : Callback} (hk : k.child = false) (s : Shape) :
    k.leaves s = s := by
  cases k <;> first | rfl | cases hk

/-- No shipped command is a block by itself. -/
lemma Callback.block_of_own {k : Callback} (hk : k.child = false) : k.block = true := by
  cases k <;> first | rfl | cases hk

/-- The modules of routes have no own blocks. -/
lemma Callback.owner_of_own {k : Callback} (hk : k.child = false) :
    k.owner ≠ .httpKafka ∧ k.owner ≠ .httpProxy := by
  cases k <;> first | decide | cases hk

/-- The callback keeps the types, as functions on pointers. -/
lemma Effect.shape_eq {k : Callback} {c : Engine} {p : Ptr} {h : Heap} (he : Effect k c p .ok h)
    (hk : ∀ s, k.leaves s = s) : h.shape = c.heap.shape := by
  rw [(he.ok rfl).2.2, Function.update_eq_self_iff]
  cases c.heap.shape p with
  | none => rfl
  | some s => exact congrArg some (hk s)

section

variable {mods : List (FsMod ModId Callback)} (hmods : ∀ m ∈ mods, m ∈ shippedMods) {lib : Lib}
  {junk : Junk} {c : Engine} {bs : List (Opened ModId Callback)} {st : Status}

/-- A sub-block stands on the types of its parent. -/
lemma TypedStack.subblock {b : Opened ModId Callback} {c₁ : Engine} {h : Heap}
    (ht : TypedStack c₁.heap bs) (hk : c₁.Kept (shippedEnv mods lib junk) (b :: bs))
    (hship : ShippedCmd b.mod b.cmd) (hblock : b.cmd.call.block = true)
    (hchild : b.cmd.call.child = true) (hctx : ∀ b' ∈ bs.head?, b.ctx = b'.ctx)
    (he : Effect b.cmd.call c₁ b.ctx .ok h) : TypedStack h (b :: bs) := by
  have hsub := hk.subtopMod
  have hsubcmd := hk.subtopCmd
  simp only [List.tail_cons] at hsub hsubcmd
  obtain ⟨happ, -, hshape⟩ := he.ok rfl
  -- A route is the last one of the http block that it stands in.
  have hroute : ∀ kind, b.cmd.call = RouteKind.block kind → subtopMod c₁ = some .http →
      (∀ last, b.cmd.call.leaves (.http last) = .http (some kind)) → TypedStack h (b :: bs) := by
    intro kind hcall hm hleaves
    rw [hsub] at hm
    cases bs with
    | nil => cases hm
    | cons parent bs =>
      simp only [List.head?_cons, Option.map_some, Option.some.injEq] at hm
      have heq := hctx parent rfl
      have hown := ht.own_of_mod (.inr (.inr hm))
      obtain ⟨s, hs, hs'⟩ := ht.own_shape hown
      rw [hm] at hs'
      have hnew : h.shape b.ctx = some (.http (some kind)) := by
        rw [hshape, Function.update_self, heq, hs]
        cases s with
        | http last => rw [Option.map_some, hleaves]
        | version => cases hs'
        | timer => cases hs'
        | listener => cases hs'
      have hfresh := ht.fresh hown
      refine .route hcall hship hm heq hnew (.own hown ht.shipped (heq ▸ hnew) ?_ hfresh ?_)
      · rw [hm]
        rfl
      · refine ht.tail.congr fun b' hb' => ?_
        rw [hshape, heq, Function.update_of_ne (hfresh b' hb')]
  cases hcall : b.cmd.call with
  | httpKafkaBlock =>
    rw [hcall] at happ hroute
    exact hroute .publisher rfl happ.1 fun _ => rfl
  | httpProxyBlock =>
    rw [hcall] at happ hroute
    exact hroute .proxy rfl happ.1 fun _ => rfl
  | kafkaListenerTopic =>
    have hsame := he.shape_eq fun s => by rw [hcall]; rfl
    rw [hcall] at happ
    have hp := happ.2
    simp only [hsubcmd] at hp
    cases bs with
    | nil => cases hp
    | cons parent bs =>
      simp only [List.head?_cons, Option.map_some, Option.some.injEq] at hp
      exact .topic hcall hship hp (hctx parent rfl) (ht.congr fun b' _ => by rw [hsame])
  | versionInit | timerBlock | httpBlock | kafkaListenerBlock =>
    rw [hcall] at hchild
    cases hchild
  | _ =>
    rw [hcall] at hblock
    cases hblock

/-- The completion of an own block changes no object. -/
lemma TypedStack.completed_objs {b : Opened ModId Callback} (ht : TypedStack c.heap (b :: bs))
    (hch : b.cmd.child = false) {c₁ : Engine}
    (hcomp : c.runCompleted (shippedEnv mods lib junk) b.mod b.ctx = some (.ok, c₁)) :
    c₁.heap.objs = c.heap.objs := by
  have hch' : b.cmd.call.child = false := ht.shipped.child.symm.trans hch
  obtain ⟨s, hs, hs'⟩ := ht.own_shape hch'
  obtain ⟨o, ho, rfl⟩ := Heap.get_of_shape hs
  rw [Conf.runCompleted] at hcomp
  split at hcomp
  next =>
    cases hcomp
    rfl
  next f hf =>
    obtain ⟨⟨r, h'⟩, hcall, heq⟩ := Option.map_eq_some_iff.mp hcomp
    cases heq
    exact completed_effect hf ho hs' _ _ hcall

include hmods

/-- A shipped command that opens no block belongs inside one. -/
lemma Tried.not_single {m : ModId} {cmd : FsCmd Callback}
    (hc : Tried (shippedEnv mods lib junk) c st m cmd) (hblock : cmd.block = false)
    (hchild : cmd.child = false) : False := by
  have hship := hc.shipped hmods
  rw [hship.child] at hchild
  rw [hship.block, Callback.block_of_own hchild] at hblock
  cases hblock

/-- An accepted directive keeps the types. -/
lemma Accepted.typed (hI : c.Inv (shippedEnv mods lib junk) bs) (ht : TypedStack c.heap bs)
    (hplace : c.pathInPlace (shippedEnv mods lib junk) st) {c' : Engine}
    {bs' : List (Opened ModId Callback)}
    (h : Accepted (shippedEnv mods lib junk) c bs st c' bs') : TypedStack c'.heap bs' := by
  cases h with
  | @param m cmd b h hc hp hb hcall =>
    have he := param_effect hmods hI ht hplace hc hp hb _ _ hcall
    have hsame := he.shape_eq (Callback.leaves_of_param (hc.param hmods hp).2)
    exact ht.congr fun b' _ => by rw [Conf.emit, hsame]
  | @block m cmd p first c₁ h hc hblock hE hcall =>
    have hship := hc.shipped hmods
    have hp : cmd.isParam = false := by simp [FsCmd.isParam, hblock]
    have he := hE.effect hmods ht hc hp _ _ hcall
    obtain ⟨ht₁, hown, hsub⟩ := hE.typed hmods ht hc
    simp only [Conf.emit]
    cases hch : cmd.call.child with
    | false =>
      obtain ⟨⟨s, hs, hs'⟩, hfresh⟩ := hown hch
      have hsame := he.shape_eq (Callback.leaves_of_own hch)
      refine .own hch hship (by rw [hsame, hs]) hs' hfresh ?_
      exact ht₁.congr fun b' _ => by rw [hsame]
    | true =>
      rw [hship.block] at hblock
      exact ht₁.subblock hE.entered.keeps hship hblock hch (hsub hch).2 he
  | single hc hblock hchild => exact (hc.not_single hmods hblock hchild).elim
  | closeChild hbs _ =>
    subst hbs
    exact ht.tail
  | @closeOwn b bs' c₁ hbs hch hcomp =>
    subst hbs
    exact ht.tail.congr fun b' _ =>
      congrFun (Heap.shape_congr (ht.completed_objs hch hcomp)) _

/-- The commands that have passed leave the memory and the place of the directive. -/
lemma PassedAll.untouched (hI : c.Inv (shippedEnv mods lib junk) bs) (ht : TypedStack c.heap bs)
    (hplace : c.pathInPlace (shippedEnv mods lib junk) st) {c₁ : Engine}
    (h : PassedAll (shippedEnv mods lib junk) bs st c c₁) :
    c₁.Inv (shippedEnv mods lib junk) bs ∧ c₁.heap = c.heap ∧
      c₁.pathInPlace (shippedEnv mods lib junk) st := by
  induction h with
  | refl => exact ⟨hI, rfl, hplace⟩
  | tail h hp ih =>
    obtain ⟨hI₁, hheap, hplace₁⟩ := ih
    obtain ⟨htokens, hstMod⟩ := PassedAll.stayed (h.tail hp) hI
    refine ⟨hp.inv hI₁, ?_, ?_⟩
    · rw [hp.heap_eq hmods hI₁ (hheap ▸ ht) hplace₁, hheap]
    · simpa only [Conf.pathInPlace, Conf.tries, topCmd, subtopMod, htokens, hstMod] using hplace

/-- An accepted directive keeps the types of the contexts. -/
lemma handle_typed (hI : c.Inv (shippedEnv mods lib junk) bs) (ht : TypedStack c.heap bs)
    (hroom : c.pushes (shippedEnv mods lib junk) st → c.Room)
    (hplace : c.pathInPlace (shippedEnv mods lib junk) st) {c' : Engine}
    (h : fsConfHandle (shippedEnv mods lib junk) c st = .ok c') :
    ∃ bs', c'.Inv (shippedEnv mods lib junk) bs' ∧ TypedStack c'.heap bs' := by
  obtain ⟨c₁, bs', hall, hacc⟩ := handle_cases hI hroom h
  obtain ⟨hI₁, hheap, hplace₁⟩ := PassedAll.untouched hmods hI ht hplace hall
  exact ⟨bs', hacc.inv hI₁, hacc.typed hmods hI₁ (hheap ▸ ht) hplace₁⟩

end

/-! ### Parameters -/

/-- What the callback `k` finds behind `p` is of the type it casts it to, and the block that makes
such objects has been opened with this context. -/
structure Suits (log : List (Event ModId Callback)) (k : Callback) (h : Heap) (p : Ptr) :
    Prop where
  object : ∃ o, h.get p = some o ∧ k.wants o.shape
  created : ∃ b : Opened ModId Callback, .opened b ∈ log ∧ b.cmd.call = k.creator ∧ b.ctx = p

/-- The block that has made what a parameter in its place works on is open. -/
lemma TypedStack.creator {h : Heap} {b : Opened ModId Callback} {bs : List (Opened ModId Callback)}
    (ht : TypedStack h (b :: bs)) {k : Callback} (hblock : k.block = false)
    (hplace : b.cmd.call = k.place) :
    ∃ b' ∈ b :: bs, b'.cmd.call = k.creator ∧ b'.ctx = b.ctx := by
  cases k with
  | kafkaListenerExec =>
    -- a topic works on the listener around it
    cases ht with
    | own hc =>
      rw [hplace] at hc
      cases hc
    | @route _ parent _ kind hcall =>
      rw [hplace] at hcall
      cases kind <;> cases hcall
    | @topic _ parent _ _ _ hparent heq _ =>
      exact ⟨parent, List.mem_cons_of_mem _ List.mem_cons_self, hparent, heq.symm⟩
  | kafkaListenerTopic => cases hblock
  | _ => exact ⟨b, List.mem_cons_self, hplace, rfl⟩

section

variable {mods : List (FsMod ModId Callback)} (hmods : ∀ m ∈ mods, m ∈ shippedMods) {lib : Lib}
  {junk : Junk} {c : Engine} {bs : List (Opened ModId Callback)} {st : Status}

include hmods

/-- A parameter that has answered `FS_CONF_OK` has met what it wants. -/
lemma Tried.suits (hI : c.Inv (shippedEnv mods lib junk) bs) (ht : TypedStack c.heap bs)
    (hart : c.artInPlace (shippedEnv mods lib junk) st)
    (hpath : c.pathInPlace (shippedEnv mods lib junk) st) {m : ModId} {cmd : FsCmd Callback}
    (hc : Tried (shippedEnv mods lib junk) c st m cmd) (hp : cmd.isParam)
    {b : Opened ModId Callback} (hb : b ∈ bs.head?) {h : Heap}
    (hcall : shippedCall lib cmd.call c b.ctx = some (.ok, h)) :
    Suits c.log cmd.call c.heap b.ctx := by
  have happ := ((param_effect hmods hI ht hpath hc hp hb _ _ hcall).ok rfl).1
  obtain ⟨hchild, hblock⟩ := hc.param hmods hp
  cases bs with
  | nil => cases hb
  | cons b' bs' =>
    cases hb
    have hplace := ht.place hI.kept hchild hblock happ (topMod_of_artInPlace hart hc)
      (topCmd_of_pathInPlace hpath hc)
    obtain ⟨b'', hmem, hcreator, hctx⟩ := ht.creator hblock hplace
    exact ⟨ht.wants hchild hblock hplace, b'', hI.traced.mem_opened b'' hmem, hcreator, hctx⟩

/-- The parameters a directive calls. -/
lemma handle_suits (hI : c.Inv (shippedEnv mods lib junk) bs) (ht : TypedStack c.heap bs)
    (hroom : c.pushes (shippedEnv mods lib junk) st → c.Room)
    (hart : c.artInPlace (shippedEnv mods lib junk) st)
    (hpath : c.pathInPlace (shippedEnv mods lib junk) st) {c' : Engine}
    (h : fsConfHandle (shippedEnv mods lib junk) c st = .ok c') {m : ModId}
    {cmd : FsCmd Callback} {p : Ptr} (hcall : .call m cmd p .ok ∈ c'.log.drop c.log.length)
    (hp : cmd.isParam) : Suits c'.log cmd.call c.heap p := by
  obtain ⟨c₁, bs', hall, hacc⟩ := handle_cases hI hroom h
  obtain ⟨hI₁, hheap, hpath₁⟩ := PassedAll.untouched hmods hI ht hpath hall
  obtain ⟨htokens, hstMod⟩ := PassedAll.stayed hall hI
  have hart₁ : c₁.artInPlace (shippedEnv mods lib junk) st := by
    simpa only [Conf.artInPlace, Conf.tries, topMod, htokens, hstMod] using hart
  obtain ⟨log, hlog, hno⟩ := PassedAll.log_eq hall
  obtain ⟨log', hlog', hparam⟩ := hacc.param_of_mem
  rw [hlog', hlog, List.append_assoc, List.drop_left, List.mem_append] at hcall
  obtain ⟨b, hb, rfl, hc, h', hcall'⟩ := hparam m cmd p (hcall.resolve_left (hno m cmd p)) hp
  obtain ⟨hobject, b', hb', hcreator, hctx⟩ :=
    hc.suits hmods hI₁ (hheap ▸ ht) hart₁ hpath₁ hp hb hcall'
  exact ⟨hheap ▸ hobject, b', by rw [hlog']; exact List.mem_append_left _ hb', hcreator, hctx⟩

end

/-! ### Runs -/

/-- The directive moves no context of an open block, and lets `pass_path` work on a proxy. -/
def Sound (env : Env ModId Callback Heap) (s : FsFile × Engine) (l : Taking) : Prop :=
  KeepsRoom env s l ∧ (s.2.take l).pathInPlace env l.status

instance (env : Env ModId Callback Heap) (s : FsFile × Engine) (l : Taking) :
    Decidable (Sound env s l) :=
  inferInstanceAs (Decidable (_ ∧ _))

/-- The directive is sound, and uses `fs_version_art` in its own block. -/
def InPlace (env : Env ModId Callback Heap) (s : FsFile × Engine) (l : Taking) : Prop :=
  Sound env s l ∧ (s.2.take l).artInPlace env l.status

instance (env : Env ModId Callback Heap) (s : FsFile × Engine) (l : Taking) :
    Decidable (InPlace env s l) :=
  inferInstanceAs (Decidable (_ ∧ _))

/-- The types of the contexts are kept by every run of sound directives. -/
lemma typed_of_run {mods : List (FsMod ModId Callback)} (hmods : ∀ m ∈ mods, m ∈ shippedMods)
    {lib : Lib} {junk : Junk} {io : ReadOutcome} {mode : ParseMode} {f : FsFile}
    {tokens : FsArr FsStr} {heap : Heap} {s : FsFile × Engine} {ls : List Taking}
    (hrun : Transition.Run (Transition.Guarded (Sound (shippedEnv mods lib junk))
      (ParseStep (shippedEnv mods lib junk) io mode)) (f, Conf.start tokens heap) ls s) :
    ∃ bs, s.2.Inv (shippedEnv mods lib junk) bs ∧ TypedStack s.2.heap bs := by
  refine hrun.invariant_guarded
    (I := fun s => ∃ bs, s.2.Inv (shippedEnv mods lib junk) bs ∧ TypedStack s.2.heap bs) ?_
    ⟨[], inv_start _ tokens heap, .nil⟩
  rintro s l s' ⟨bs, hI, ht⟩ ⟨hroom, hpath⟩ hstep
  exact handle_typed hmods (hI.take l) ht hroom hpath hstep.handled.2.2

/-- In every run whose directives keep the contexts of open blocks where they are, and use
`fs_version_art` and `pass_path` in their own blocks, whatever the order of the modules: each
parameter that answers `FS_CONF_OK` has found an object of the type it casts its context to, and
the block that makes these objects has been opened with this context. -/
theorem suits_of_run {mods : List (FsMod ModId Callback)} (hmods : ∀ m ∈ mods, m ∈ shippedMods)
    (lib : Lib) (junk : Junk) (io : ReadOutcome) (mode : ParseMode) {f : FsFile}
    {tokens : FsArr FsStr} {heap : Heap} {s s' : FsFile × Engine} {ls : List Taking} {l : Taking}
    (hrun : Transition.Run (Transition.Guarded (InPlace (shippedEnv mods lib junk))
      (ParseStep (shippedEnv mods lib junk) io mode)) (f, Conf.start tokens heap) ls s)
    (hplace : InPlace (shippedEnv mods lib junk) s l)
    (hstep : ParseStep (shippedEnv mods lib junk) io mode s l s') {m : ModId}
    {cmd : FsCmd Callback} {p : Ptr} (hcall : .call m cmd p .ok ∈ s'.2.log.drop s.2.log.length)
    (hp : cmd.isParam) : Suits s'.2.log cmd.call s.2.heap p := by
  obtain ⟨bs, hI, ht⟩ := typed_of_run hmods
    (hrun.mono fun _ _ _ h => (⟨h.1.1, h.2⟩ : Transition.Guarded _ _ _ _ _))
  obtain ⟨⟨hroom, hpath⟩, hart⟩ := hplace
  exact handle_suits hmods (hI.take l) ht hroom hart hpath hstep.handled.2.2 hcall hp

/-- The timeout of a timer. -/
theorem suits_of_run_timeout :
    ∃ s s' ls l, Transition.Run (Transition.Guarded (InPlace sampleEnv)
        (ParseStep sampleEnv (fun _ => true) .param)) (sampleAt (bytes "timer\x7btimeout 5;")) ls s ∧
      ParseStep sampleEnv (fun _ => true) .param s l s' ∧
      .call .timer (fsParamCmd "timeout" .timerTimeout) (.obj 0) .ok
        ∈ s'.2.log.drop s.2.log.length ∧
      Suits s'.2.log .timerTimeout s.2.heap (.obj 0) := by
  obtain ⟨ls, s, hrun, htest⟩ := Transition.exists_run_of_follow
    (show ((Transition.follow (parseNext sampleEnv (fun _ => true) .param) (InPlace sampleEnv) 1
      (sampleAt (bytes "timer\x7btimeout 5;"))).any fun s =>
        (parseNext sampleEnv (fun _ => true) .param s).any fun r => decide (InPlace sampleEnv s r.1) &&
          decide (.call .timer (fsParamCmd "timeout" .timerTimeout) (.obj 0) .ok
            ∈ r.2.2.log.drop s.2.log.length)) = true
      by decide +kernel)
  obtain ⟨⟨l, s'⟩, hstep, htest⟩ := (Option.any_eq_true _ _).mp htest
  rw [Bool.and_eq_true, decide_eq_true_iff, decide_eq_true_iff] at htest
  exact ⟨s, s', ls, l, hrun, hstep, htest.2,
    suits_of_run (fun _ hm => hm) .succeeding .null _ _ hrun htest.1 hstep htest.2 rfl⟩

/-- `fs_version_art` in a timer block stores into the timer. -/
theorem not_suits_of_version_art :
    ¬ ∀ (s s' : FsFile × Engine) (ls : List Taking) (l : Taking) (f : FsFile) (m : ModId)
        (cmd : FsCmd Callback) (p : Ptr),
      Transition.Run (ParseStep sampleEnv (fun _ => true) .param) (f, sampleStart) ls s →
        ParseStep sampleEnv (fun _ => true) .param s l s' →
        .call m cmd p .ok ∈ s'.2.log.drop s.2.log.length → cmd.isParam →
        Suits s'.2.log cmd.call s.2.heap p := by
  intro h
  obtain ⟨ls, s, hrun, htest⟩ := Transition.exists_run_of_follow
    (show ((Transition.follow (parseNext sampleEnv (fun _ => true) .param) (fun _ _ => True) 1
      (sampleAt (bytes "timer\x7bfs_version_art;"))).any fun s =>
        (parseNext sampleEnv (fun _ => true) .param s).any fun r =>
          s.2.heap.shape (.obj 0) == some .timer &&
          decide (.call .version (fsParamCmd "fs_version_art" .versionArt) (.obj 0) .ok
            ∈ r.2.2.log.drop s.2.log.length)) = true
      by decide +kernel)
  obtain ⟨⟨l, s'⟩, hstep, htest⟩ := (Option.any_eq_true _ _).mp htest
  rw [Bool.and_eq_true, beq_iff_eq, decide_eq_true_iff] at htest
  obtain ⟨hshape, hcall⟩ := htest
  obtain ⟨o, ho, hw⟩ := (h _ _ _ _ _ _ _ _ hrun.unguarded hstep hcall rfl).object
  rw [Heap.shape, ho] at hshape
  rw [show o.shape = .timer from Option.some.inj hshape] at hw
  cases hw

end Folksong
