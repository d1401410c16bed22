import Folksong.Mod.TypedRun

/-!
# The registry of the modules

Between two directives the frames are the open blocks, each accepted block has a slot of
`run->ctx`, and each module lists the contexts of its own blocks. All this is read off the events
of the run.
-/

namespace Folksong

/-! ### What the events say -/

section

variable {μ κ : Type}

/-- The blocks that have been opened and not yet closed, innermost first. -/
def openBlocks (log : List (Event μ κ)) : List (Opened μ κ) :=
  log.foldl (fun bs e => match e with
    | .opened b => b :: bs
    | .closed => bs.tail
    | _ => bs) []

lemma openBlocks_append_one (log : List (Event μ κ)) (e : Event μ κ) :
    openBlocks (log ++ [e]) = match e with
      | .opened b => b :: openBlocks log
      | .closed => (openBlocks log).tail
      | _ => openBlocks log := by
  rw [openBlocks, List.foldl_append]
  rfl

lemma openBlocks_completion {H : Type} (env : Env μ κ H) (log : List (Event μ κ))
    (b : Opened μ κ) : openBlocks (log ++ env.completion b) = openBlocks log := by
  rw [Env.completion]
  split_ifs
  · rw [openBlocks_append_one]
  · rw [List.append_nil]

lemma openBlocks_closing {H : Type} (env : Env μ κ H) (log : List (Event μ κ))
    (b : Opened μ κ) : openBlocks (log ++ env.closing b) = openBlocks log := by
  rw [Env.closing]
  split_ifs
  · rw [List.append_nil]
  · exact openBlocks_completion env log b

/-- The open blocks are determined by the events. -/
lemma Traced.openBlocks_eq {H : Type} {env : Env μ κ H} {log : List (Event μ κ)}
    {bs : List (Opened μ κ)} (h : Traced env log bs) : openBlocks log = bs := by
  induction h with
  | nil => rfl
  | initMod _ ih => rw [openBlocks_append_one, ih]
  | call _ _ ih => rw [openBlocks_append_one, ih]
  | opened _ _ ih => rw [openBlocks_append_one, ih]
  | single _ ih => rw [← List.append_assoc, openBlocks_append_one, openBlocks_completion, ih]
  | closed _ ih =>
    rw [← List.append_assoc, openBlocks_append_one, openBlocks_closing, ih, List.tail_cons]

variable [DecidableEq μ]

/-- The context of an own block of the module `m` that the event accepts. -/
def Event.ownCtx (m : μ) : Event μ κ → Option Ptr
  | .opened b | .single b => if b.mod = m ∧ b.cmd.child = false then some b.ctx else none
  | _ => none

/-- The contexts of the own blocks of the module `m` in the order in which they were accepted. -/
def ownCtxs (m : μ) (log : List (Event μ κ)) : List Ptr := log.filterMap (Event.ownCtx m)

lemma ownCtxs_append (m : μ) (log log' : List (Event μ κ)) :
    ownCtxs m (log ++ log') = ownCtxs m log ++ ownCtxs m log' :=
  List.filterMap_append

lemma ownCtxs_completion {H : Type} (env : Env μ κ H) (m : μ) (b : Opened μ κ) :
    ownCtxs m (env.completion b) = [] := by
  rw [Env.completion]
  split_ifs <;> rfl

lemma InitMod.ownCtxs_eq {H : Type} {env : Env μ κ H} {c : Conf μ κ H} {m : μ} {cmd : FsCmd κ}
    {r : Ret} {p : Ptr} {h : H} {log : List (Event μ κ)} (hinit : InitMod env c m cmd r p h log)
    (m' : μ) : ownCtxs m' log = [] := by
  cases hinit <;> rfl

end

/-! ### Directives keep the registry -/

/-- The registry of every module, as the events have it. A module that is not used has no list;
the route modules are never used. -/
structure Registered (c : Engine) : Prop where
  used : ∀ m, c.used m ↔ ownCtxs m c.log ≠ []
  ctxs : ∀ m, c.used m → ∃ a, c.ctxs m = .arr a ∧ a.toList = ownCtxs m c.log
  unused : ∀ m, c.used m = false → c.ctxs m = .null
  routes : c.used .httpKafka = false ∧ c.used .httpProxy = false

namespace Registered

variable {c c' : Engine}

/-- Nothing has been accepted that is an own block. -/
lemma congr (h : Registered c) (hused : c'.used = c.used) (hctxs : c'.ctxs = c.ctxs)
    (hlog : ∀ m, ownCtxs m c'.log = ownCtxs m c.log) : Registered c' := by
  refine ⟨?_, ?_, ?_, ?_⟩
  · intro m
    rw [hused, hlog]
    exact h.used m
  · intro m
    rw [hused, hctxs, hlog]
    exact h.ctxs m
  · intro m
    rw [hused, hctxs]
    exact h.unused m
  · rw [hused]
    exact h.routes

/-- The array an own block is entered into lists the contexts before it. -/
lemma arr_eq (h : Registered c) {m : ModId} {a : FsArr Ptr}
    (ha : (if c.used m then c.ctxs m else .arr (fsAllocArr Ptr 1 Nat.zero_lt_one)) = .arr a) :
    a.toList = ownCtxs m c.log := by
  by_cases hused : c.used m
  · obtain ⟨a', ha', hlist⟩ := h.ctxs m hused
    rw [if_pos hused, ha', Ctxs.arr.injEq] at ha
    rw [← ha, hlist]
  · rw [if_neg hused, Ctxs.arr.injEq] at ha
    have hnil : ownCtxs m c.log = [] := by
      by_contra hne
      exact hused ((h.used m).mpr hne)
    rw [← ha, hnil]
    rfl

/-- An own block has been accepted. -/
lemma entered (h : Registered c) {m : ModId} {p : Ptr} {a : FsArr Ptr}
    (ha : (if c.used m then c.ctxs m else .arr (fsAllocArr Ptr 1 Nat.zero_lt_one)) = .arr a)
    (hm : m ≠ .httpKafka ∧ m ≠ .httpProxy) (hused : c'.used = Function.update c.used m true)
    (hctxs : c'.ctxs = Function.update c.ctxs m (.arr (a.push p)))
    (hlog : ∀ m', ownCtxs m' c'.log = ownCtxs m' c.log ++ if m = m' then [p] else []) :
    Registered c' := by
  have hlist := h.arr_eq ha
  refine ⟨?_, ?_, ?_, ?_⟩
  · intro m'
    by_cases hm' : m' = m
    · subst hm'
      simp [hused, hlog]
    · simp [hused, hlog, Function.update_of_ne hm', Ne.symm hm', h.used m']
  · intro m' hused'
    by_cases hm' : m' = m
    · subst hm'
      refine ⟨a.push p, by rw [hctxs, Function.update_self], ?_⟩
      rw [FsArr.push_toList, hlist, hlog, if_pos rfl]
    · rw [hused, Function.update_of_ne hm'] at hused'
      rw [hctxs, Function.update_of_ne hm', hlog, if_neg (Ne.symm hm'), List.append_nil]
      exact h.ctxs m' hused'
  · intro m' hused'
    by_cases hm' : m' = m
    · subst hm'
      rw [hused, Function.update_self] at hused'
      cases hused'
    · rw [hused, Function.update_of_ne hm'] at hused'
      rw [hctxs, Function.update_of_ne hm']
      exact h.unused m' hused'
  · rw [hused, Function.update_of_ne hm.1.symm, Function.update_of_ne hm.2.symm]
    exact h.routes

end Registered

section

variable {mods : List (FsMod ModId Callback)} (hmods : ∀ m ∈ mods, m ∈ shippedMods) {lib : Lib}
  {junk : Junk} {c : Engine} {bs : List (Opened ModId Callback)} {st : Status}

include hmods

/-- A command that passes leaves the registry. -/
lemma Passed.registry (ht : TypedStack c.heap bs) (hr : Registered c) {c' : Engine}
    (h : Passed (shippedEnv mods lib junk) c bs st c') :
    c'.used = c.used ∧ c'.ctxs = c.ctxs ∧ ∀ m, ownCtxs m c'.log = ownCtxs m c.log := by
  have hlogged : ∀ {log : List (Event ModId Callback)}, c'.log = c.log ++ log →
      (∀ m, ownCtxs m log = []) → ∀ m, ownCtxs m c'.log = ownCtxs m c.log := by
    intro log hlog hno m
    rw [hlog, ownCtxs_append, hno, List.append_nil]
  cases h with
  | param => exact ⟨rfl, rfl, hlogged rfl fun _ => rfl⟩
  | initMod _ _ hinit _ _ hused hctxs hlog => exact ⟨hused, hctxs, hlogged hlog hinit.ownCtxs_eq⟩
  | @call m cmd p first c₁ h c₂ _ hc hp hE hcall _ _ hused hctxs hlog hun =>
    -- Only a route block passes: there is nothing to take back.
    obtain ⟨-, hchild, hm⟩ := hE.of_pass hmods ht hc hp hcall
    have hused' : c.used m = false := by
      rcases hm with rfl | rfl
      · exact hr.routes.1
      · exact hr.routes.2
    cases hE with
    | own hch => rw [hchild] at hch; cases hch
    | child _ _ _ _ hused₁ hctxs₁ hlog₁ =>
      rw [hused₁] at hused
      rw [hctxs₁] at hctxs
      have hnull := hr.unused m hused'
      rw [Conf.unregister, hctxs, hnull, Option.map_some, Option.some.injEq] at hun
      subst hun
      rw [hlog₁] at hlog
      refine ⟨?_, ?_, hlogged hlog fun _ => rfl⟩
      · dsimp only
        rw [hused]
        split_ifs
        · rw [← hused', Function.update_eq_self]
        · rfl
      · rw [← hnull, Function.update_eq_self]

lemma Passed.registered (ht : TypedStack c.heap bs) (hr : Registered c) {c' : Engine}
    (h : Passed (shippedEnv mods lib junk) c bs st c') : Registered c' := by
  obtain ⟨hused, hctxs, hlog⟩ := h.registry hmods ht hr
  exact hr.congr hused hctxs hlog

/-- What an accepted directive does to the registry: it leaves it, or it enters an own block with
a context. -/
lemma Accepted.registry {c' : Engine} {bs' : List (Opened ModId Callback)}
    (h : Accepted (shippedEnv mods lib junk) c bs st c' bs') :
    (c'.used = c.used ∧ c'.ctxs = c.ctxs ∧ ∀ m, ownCtxs m c'.log = ownCtxs m c.log) ∨
      ∃ b ∈ bs'.head?, b.cmd.child = false ∧ ∃ a,
        (if c.used b.mod then c.ctxs b.mod else .arr (fsAllocArr Ptr 1 Nat.zero_lt_one)) = .arr a ∧
        (b.mod ≠ .httpKafka ∧ b.mod ≠ .httpProxy) ∧ c'.used = Function.update c.used b.mod true ∧
        c'.ctxs = Function.update c.ctxs b.mod (.arr (a.push b.ctx)) ∧
        ∀ m', ownCtxs m' c'.log = ownCtxs m' c.log ++ if b.mod = m' then [b.ctx] else [] := by
  cases h with
  | param =>
    refine .inl ⟨rfl, rfl, fun m' => ?_⟩
    rw [Conf.emit, ownCtxs_append]
    exact List.append_nil _
  | @block m cmd p first c₁ h hc hblock hE hcall =>
    cases hE with
    | child hch _ _ _ hused hctxs hlog =>
      refine .inl ⟨hused, hctxs, fun m' => ?_⟩
      simp [Conf.emit, hlog, ownCtxs, Event.ownCtx, hch]
    | own hch hinit ha _ _ hused hctxs hlog =>
      have hship := hc.shipped hmods
      have hm : m ≠ .httpKafka ∧ m ≠ .httpProxy := by
        rw [hship.child] at hch
        rw [← hship.owner]
        exact Callback.owner_of_own hch
      refine .inr ⟨⟨m, cmd, p⟩, rfl, hch, _, ha, hm, hused, hctxs, fun m' => ?_⟩
      simp only [Conf.emit, hlog, ownCtxs_append, hinit.ownCtxs_eq, List.append_nil]
      by_cases hm' : m = m' <;>
        simp [ownCtxs, List.filterMap_cons, Event.ownCtx, hch, hm']
  | single hc hblock hchild => exact (hc.not_single hmods hblock hchild).elim
  | closeChild =>
    refine .inl ⟨rfl, rfl, fun m' => ?_⟩
    rw [Conf.emit, ownCtxs_append]
    exact List.append_nil _
  | closeOwn _ _ hcomp =>
    obtain ⟨heap, rfl⟩ := runCompleted_eq hcomp
    refine .inl ⟨rfl, rfl, fun m' => ?_⟩
    rw [Conf.emit, ownCtxs_append]
    apply (List.append_nil _).trans
    rw [Conf.stPop, ownCtxs_append, ownCtxs_completion, List.append_nil]

/-- An accepted directive keeps the registry. -/
lemma Accepted.registered (hr : Registered c) {c' : Engine} {bs' : List (Opened ModId Callback)}
    (h : Accepted (shippedEnv mods lib junk) c bs st c' bs') : Registered c' := by
  rcases h.registry hmods with ⟨hused, hctxs, hlog⟩ | ⟨b, -, -, a, ha, hm, hused, hctxs, hlog⟩
  · exact hr.congr hused hctxs hlog
  · exact hr.entered ha hm hused hctxs hlog

lemma PassedAll.registered (hI : c.Inv (shippedEnv mods lib junk) bs) (ht : TypedStack c.heap bs)
    (hpath : c.pathInPlace (shippedEnv mods lib junk) st) (hr : Registered c) {c₁ : Engine}
    (h : PassedAll (shippedEnv mods lib junk) bs st c c₁) : Registered c₁ := by
  induction h with
  | refl => exact hr
  | tail h hp ih =>
    obtain ⟨-, hheap, -⟩ := PassedAll.untouched hmods hI ht hpath h
    exact hp.registered hmods (hheap ▸ ht) ih

/-- A sound directive keeps the registry. -/
lemma handle_registered (hI : c.Inv (shippedEnv mods lib junk) bs) (ht : TypedStack c.heap bs)
    (hr : Registered c) (hroom : c.pushes (shippedEnv mods lib junk) st → c.Room)
    (hpath : c.pathInPlace (shippedEnv mods lib junk) st) {c' : Engine}
    (h : fsConfHandle (shippedEnv mods lib junk) c st = .ok c') : Registered c' := by
  obtain ⟨c₁, bs', hall, hacc⟩ := handle_cases hI hroom h
  exact hacc.registered hmods (PassedAll.registered hmods hI ht hpath hr hall)

end

/-! ### Closing braces -/

/-- The closing brace has completed the innermost block, when it is an own block. -/
lemma handle_close {mods : List (FsMod ModId Callback)} {lib : Lib} {junk : Junk} {c c' : Engine}
    {bs : List (Opened ModId Callback)} (hI : c.Inv (shippedEnv mods lib junk) bs)
    (ht : TypedStack c.heap bs)
    (h : fsConfHandle (shippedEnv mods lib junk) c .blockEnd = .ok c') :
    ∃ b bs', bs = b :: bs' ∧ c'.log = c.log ++
      ((if b.cmd.child then [] else [.completed b.mod b.ctx .ok]) ++ [.closed]) := by
  rw [fsConfHandle, if_pos (by decide)] at h
  obtain ⟨bs', hacc⟩ := (closeBlock_post hI).of_ok h
  cases hacc with
  | @closeChild b _ hbs hch => exact ⟨b, bs', hbs, by rw [if_pos hch]; rfl⟩
  | @closeOwn b _ c₁ hbs hch hcomp =>
    subst hbs
    obtain ⟨heap, rfl⟩ := runCompleted_eq hcomp
    refine ⟨b, bs', rfl, ?_⟩
    -- All modules with own blocks complete them.
    have hsome : (shippedMethods lib b.mod).initModCompleted.isSome := by
      have hown := ht.shipped.child.symm.trans hch
      rw [← ht.owner]
      cases hk : b.cmd.call <;> rw [hk] at hown <;> first | rfl | cases hown
    rw [if_neg (by simp [hch]), Conf.emit, Conf.stPop]
    simp [Env.completion, shippedEnv, hsome]

/-! ### Runs -/

/-- What holds between two directives. -/
structure Registry (env : Env ModId Callback Heap) (c : Engine) : Prop where
  depth : c.stDepth = c.stMod.length
  frames : List.Forall₂ (fun frame b => frame.mod = b.mod ∧ frame.cmd = b.cmd ∧
    c.deref env frame.ctx = b.ctx) c.stMod (openBlocks c.log)
  slots : c.ctx.eleCount = c.log.countP Event.isAccepted
  used : ∀ m, c.used m ↔ ownCtxs m c.log ≠ []
  ctxs : ∀ m, c.used m → ∃ a, c.ctxs m = .arr a ∧ a.toList = ownCtxs m c.log

/-- What the proofs keep between two directives, with the blocks that are open. -/
structure Settled (env : Env ModId Callback Heap) (bs : List (Opened ModId Callback))
    (c : Engine) : Prop where
  inv : c.Inv env bs
  typed : TypedStack c.heap bs
  registered : Registered c

lemma Settled.take {env : Env ModId Callback Heap} {bs : List (Opened ModId Callback)} {c : Engine}
    (h : Settled env bs c) (l : Taking) : Settled env bs (c.take l) :=
  ⟨h.inv.take l, h.typed, h.registered.congr rfl rfl fun _ => rfl⟩

lemma settled_start (env : Env ModId Callback Heap) (tokens : FsArr FsStr) (heap : Heap) :
    Settled env [] (Conf.start tokens heap) :=
  ⟨inv_start env tokens heap, .nil, fun _ => by simp [Conf.start, ownCtxs], nofun, fun _ _ => rfl,
    rfl, rfl⟩

lemma Settled.handle {mods : List (FsMod ModId Callback)} (hmods : ∀ m ∈ mods, m ∈ shippedMods)
    {lib : Lib} {junk : Junk} {bs : List (Opened ModId Callback)} {c c' : Engine} {l : Taking}
    (hs : Settled (shippedEnv mods lib junk) bs c)
    (hroom : (c.take l).pushes (shippedEnv mods lib junk) l.status → c.Room)
    (hpath : (c.take l).pathInPlace (shippedEnv mods lib junk) l.status)
    (h : fsConfHandle (shippedEnv mods lib junk) (c.take l) l.status = .ok c') :
    ∃ bs', Settled (shippedEnv mods lib junk) bs' c' := by
  obtain ⟨hI, ht, hr⟩ := hs.take l
  obtain ⟨bs', hI', ht'⟩ := handle_typed hmods hI ht hroom hpath h
  exact ⟨bs', hI', ht', handle_registered hmods hI ht hr hroom hpath h⟩

lemma settled_of_run {mods : List (FsMod ModId Callback)} (hmods : ∀ m ∈ mods, m ∈ shippedMods)
    {lib : Lib} {junk : Junk} {io : ReadOutcome} {mode : ParseMode} {f : FsFile}
    {tokens : FsArr FsStr} {heap : Heap} {s : FsFile × Engine} {ls : List Taking}
    (hrun : Transition.Run (Transition.Guarded (Sound (shippedEnv mods lib junk))
      (ParseStep (shippedEnv mods lib junk) io mode)) (f, Conf.start tokens heap) ls s) :
    ∃ bs, Settled (shippedEnv mods lib junk) bs s.2 := by
  refine hrun.invariant_guarded (I := fun s => ∃ bs, Settled (shippedEnv mods lib junk) bs s.2) ?_
    ⟨[], settled_start _ tokens heap⟩
  rintro s l s' ⟨bs, hs⟩ ⟨hroom, hpath⟩ hstep
  exact hs.handle hmods hroom hpath hstep.handled.2.2

/-- In every run of sound directives, whatever the order of the modules: the stack, the contexts
and the registry are those of the blocks accepted so far, and a closing brace completes the
innermost block once, with its own context, when it is an own block, and completes nothing
otherwise. -/
theorem registry_of_run {mods : List (FsMod ModId Callback)} (hmods : ∀ m ∈ mods, m ∈ shippedMods)
    (lib : Lib) (junk : Junk) (io : ReadOutcome) (mode : ParseMode) {f : FsFile}
    {tokens : FsArr FsStr} {heap : Heap} {s : FsFile × Engine} {ls : List Taking}
    (hrun : Transition.Run (Transition.Guarded (Sound (shippedEnv mods lib junk))
      (ParseStep (shippedEnv mods lib junk) io mode)) (f, Conf.start tokens heap) ls s) :
    Registry (shippedEnv mods lib junk) s.2 ∧
      ∀ l s', ParseStep (shippedEnv mods lib junk) io mode s l s' → l.status = .blockEnd →
        ∃ b bs, openBlocks s.2.log = b :: bs ∧ s'.2.log = s.2.log ++
          ((if b.cmd.child then [] else [.completed b.mod b.ctx .ok]) ++ [.closed]) := by
  obtain ⟨bs, hI, ht, hr⟩ := settled_of_run hmods hrun
  have hbs := hI.traced.openBlocks_eq
  refine ⟨⟨hI.depth, ?_, hI.count, hr.used, hr.ctxs⟩, ?_⟩
  · rw [hbs]
    refine hI.kept.imp fun frame b hf => ⟨hf.mod, hf.cmd, ?_⟩
    rw [Conf.deref, if_pos hf.current, hf.value]
  · intro l s' hstep hst
    have hhandle := hstep.handled.2.2
    rw [hst] at hhandle
    obtain ⟨b, bs', rfl, hlog⟩ := handle_close (hI.take l) ht hhandle
    exact ⟨b, bs', hbs, hlog⟩

/-- A publisher in an http block, and the brace that closes it: one frame is left, and its brace
completes the http block. -/
theorem registry_of_run_http :
    ∃ ls s l s', Transition.Run (Transition.Guarded (Sound sampleEnv)
        (ParseStep sampleEnv (fun _ => true) .param))
        (sampleAt (bytes "http\x7bhost h;kafka a\x7b\x7d\x7d")) ls s ∧
      (s.2.stMod.length == 1) = true ∧ Registry sampleEnv s.2 ∧
      ParseStep sampleEnv (fun _ => true) .param s l s' ∧ l.status = .blockEnd ∧
      ∃ b bs, openBlocks s.2.log = b :: bs ∧ s'.2.log = s.2.log ++
        ((if b.cmd.child then [] else [.completed b.mod b.ctx .ok]) ++ [.closed]) := by
  obtain ⟨ls, s, hrun, htest⟩ := Transition.exists_run_of_follow
    (show ((Transition.follow (parseNext sampleEnv (fun _ => true) .param) (Sound sampleEnv) 4
      (sampleAt (bytes "http\x7bhost h;kafka a\x7b\x7d\x7d"))).any fun s =>
        s.2.stMod.length == 1 && (parseNext sampleEnv (fun _ => true) .param s).any fun r =>
          r.1.status == .blockEnd) = true by decide +kernel)
  rw [Bool.and_eq_true] at htest
  obtain ⟨hlen, hnext⟩ := htest
  obtain ⟨⟨l, s'⟩, hstep, hst⟩ := (Option.any_eq_true _ _).mp hnext
  rw [beq_iff_eq] at hst
  obtain ⟨hreg, hclose⟩ :=
    registry_of_run (fun _ hm => hm) .succeeding .null (fun _ => true) .param hrun
  exact ⟨ls, s, l, s', hrun, hlen, hreg, hstep, hst, hclose l s' hstep hst⟩

/-- After eight publishers the brace of the http block completes whatever stands in the released
storage. -/
theorem not_registry_of_publishers :
    ¬ ∀ (f : FsFile) (s s' : FsFile × Engine) (ls : List Taking) (l : Taking),
      Transition.Run (ParseStep sampleEnv (fun _ => true) .param) (f, sampleStart) ls s →
        ParseStep sampleEnv (fun _ => true) .param s l s' → l.status = .blockEnd →
        ∃ b bs, openBlocks s.2.log = b :: bs ∧ s'.2.log = s.2.log ++
          ((if b.cmd.child then [] else [.completed b.mod b.ctx .ok]) ++ [.closed]) := by
  intro h
  obtain ⟨ls, s, hrun, htest⟩ := Transition.exists_run_of_follow
    (show ((Transition.follow (parseNext sampleEnv (fun _ => true) .param) (fun _ _ => True) 17
      (sampleAt (bytes ("http\x7b" ++ "kafka a\x7b\x7dkafka a\x7b\x7dkafka a\x7b\x7dkafka a\x7b\x7d" ++
        "kafka a\x7b\x7dkafka a\x7b\x7dkafka a\x7b\x7dkafka a\x7b\x7d" ++ "\x7d")))).any
          fun s => (parseNext sampleEnv (fun _ => true) .param s).any fun r =>
            r.1.status == .blockEnd && !(openBlocks s.2.log).any (fun b => b.ctx == .null) &&
              decide (.completed .http .null .ok ∈ r.2.2.log.drop s.2.log.length)) = true
      by decide +kernel)
  obtain ⟨⟨l, s'⟩, hstep, htest⟩ := (Option.any_eq_true _ _).mp htest
  rw [Bool.and_eq_true, Bool.and_eq_true, beq_iff_eq, Bool.not_eq_true', decide_eq_true_iff,
    List.any_eq_false] at htest
  obtain ⟨⟨hst, hnone⟩, hmem⟩ := htest
  obtain ⟨b, bs, hbs, hlog⟩ := h _ _ _ _ _ hrun.unguarded hstep hst
  have hb := hnone b (by rw [hbs]; exact List.mem_cons_self)
  dsimp only at hmem
  rw [hlog, List.drop_left] at hmem
  by_cases hchild : b.cmd.child
  · simp [hchild] at hmem
  · simp only [hchild, Bool.false_eq_true, if_false, List.mem_append, List.mem_singleton,
      Event.completed.injEq, reduceCtorEq, or_false, and_true] at hmem
    rw [← hmem.2] at hb
    exact hb (by decide)

end Folksong
