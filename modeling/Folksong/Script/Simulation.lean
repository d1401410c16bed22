import Folksong.Conf.Capacity
import Folksong.Script.Calls

/-!
# The engine does what a script means

`Sim` relates the engine between two directives to the objects that the script has made so far.
Each directive keeps it, and is rejected where its meaning is.
-/

namespace Folksong

/-! ### Objects -/

namespace Heap

variable {h : Heap} {p : Ptr} {o o' : Obj}

lemma contexts_congr {h' : Heap} (hobjs : h'.objs = h.objs) (m : ModId) :
    h'.contexts m = h.contexts m := by
  rw [contexts, contexts, hobjs]

/-- The objects of a module are the same when each object keeps its module. -/
lemma contexts_of_owners {h' : Heap}
    (howners : h'.objs.map Obj.owner = h.objs.map Obj.owner) (m : ModId) :
    h'.contexts m = h.contexts m := by
  have hlen : h'.objs.length = h.objs.length := by simpa using congrArg List.length howners
  have hget : ∀ i : Nat, ((h'.objs[i]?).any fun o : Obj => o.owner == m)
      = ((h.objs[i]?).any fun o : Obj => o.owner == m) := by
    intro i
    have hi := congrArg (fun owners => (owners[i]?).any (· == m)) howners
    simpa [List.getElem?_map, Option.any_map, Function.comp_def] using hi
  rw [contexts, contexts, hlen]
  simp only [hget]

lemma contexts_set (ho : h.get p = some o) (howner : o'.owner = o.owner) (m : ModId) :
    (h.set p o').contexts m = h.contexts m := by
  apply contexts_of_owners
  cases p with
  | obj n =>
    obtain ⟨hlt, hn⟩ := List.getElem?_eq_some_iff.mp ho
    rw [set]
    dsimp only
    rw [List.map_set, howner, ← hn]
    apply List.ext_getElem
    · simp
    · intro i hi hi'
      rw [List.getElem_set]
      split_ifs with heq
      · subst heq
        simp
      · rfl
  | null | loop | wild => cases ho

lemma contexts_alloc (h : Heap) (o : Obj) (m : ModId) :
    (h.alloc o).2.contexts m = h.contexts m ++ if o.owner = m then [(h.alloc o).1] else [] := by
  have hnew : ((h.objs ++ [o])[h.objs.length]?).any (fun o => o.owner == m) = (o.owner == m) := by
    simp
  have hold : ∀ i ∈ List.range h.objs.length,
      ((h.objs ++ [o])[i]?).any (fun o => o.owner == m)
        = (h.objs[i]?).any fun o => o.owner == m := by
    intro i hi
    rw [List.getElem?_append_left (List.mem_range.mp hi)]
  rw [contexts, alloc]
  dsimp only
  rw [List.length_append, List.length_singleton, List.range_succ, List.filter_append,
    List.filter_congr hold, List.map_append, contexts]
  congr 1
  by_cases hm : o.owner = m <;> simp [hm]

/-- The context of a block of its own is new. -/
lemma mem_contexts {m : ModId} : p ∈ h.contexts m ↔ ∃ o, h.get p = some o ∧ o.owner = m := by
  simp only [contexts, List.mem_map, List.mem_filter, List.mem_range, Option.any_eq_true,
    beq_iff_eq]
  constructor
  · rintro ⟨i, ⟨-, o, ho, hm⟩, rfl⟩
    exact ⟨o, ho, hm⟩
  · rintro ⟨o, ho, hm⟩
    cases p with
    | obj n =>
      exact ⟨n, ⟨(List.getElem?_eq_some_iff.mp ho).1, o, ho, hm⟩, rfl⟩
    | null | loop | wild => cases ho

lemma any_owner_iff {m : ModId} : h.objs.any (·.owner == m) = true ↔ h.contexts m ≠ [] := by
  rw [List.any_eq_true]
  constructor
  · rintro ⟨o, ho, hm⟩
    obtain ⟨i, hi⟩ := List.getElem?_of_mem ho
    have hp : Ptr.obj i ∈ h.contexts m := mem_contexts.mpr ⟨o, hi, by simpa using hm⟩
    exact List.ne_nil_of_mem hp
  · intro hne
    obtain ⟨p, hp⟩ := List.exists_mem_of_ne_nil _ hne
    obtain ⟨o, ho, hm⟩ := mem_contexts.mp hp
    cases p with
    | obj n => exact ⟨o, List.mem_of_getElem? ho, by simpa using hm⟩
    | null | loop | wild => cases ho

end Heap

/-- A directive leaves an object of the same module. -/
lemma meaning_owner {lib : Lib} {null : Callback → Bool} {calls calls' : List LibCall}
    {k : Callback} {args : List FsStr} {o o' : Obj}
    (h : k.meaning lib null calls args o = .ok (o', calls')) : o'.owner = o.owner := by
  unfold Callback.meaning at h
  split at h
  -- the two times are read first
  case h_2 | h_3 =>
    split_ifs at h
    split at h
    · cases h
    · cases h
      rfl
  all_goals first
    | (cases h; done)
    | (cases h; rfl)
    | (obtain ⟨a, -, ha⟩ := Except.map_eq_ok_iff.mp h; cases ha; rfl)

lemma contexts_apply {lib : Lib} {unset : Heap → Callback → Bool} {h h' : Heap} {k : Callback}
    {args : List FsStr} {p : Ptr} (happly : h.apply lib unset k args p = .ok h') (m : ModId) :
    h'.contexts m = h.contexts m := by
  rw [Heap.apply] at happly
  split at happly
  next => cases happly
  next o ho =>
    obtain ⟨⟨o', calls⟩, hmeaning, rfl⟩ := Except.map_eq_ok_iff.mp happly
    have ho' : ({ h with calls := calls } : Heap).get p = some o := ho
    rw [Heap.contexts_set ho' (meaning_owner hmeaning)]
    exact Heap.contexts_congr rfl m

/-! ### States -/

/-- The engine between two directives, with the blocks `bs` open, after `n` blocks that have made
the objects `h`. -/
structure Sim (env : Env ModId Callback Heap) (bs : List (Opened ModId Callback)) (n : Nat)
    (c : Engine) (h : Heap) : Prop where
  settled : Settled env bs c
  heap : c.heap = h
  listed : ∀ m, ownCtxs m c.log = h.contexts m
  count : c.ctx.eleCount = n
  doubled : c.Doubled
  owned : Owned c

/-- A directive fails as its meaning does. -/
inductive Exit.Fails : Exit ModId Callback Heap → Fault → Prop where
  | rejected (c : Engine) : Fails (.error c) .rejected
  | undefined : Fails .undefined .undefined

lemma Owned.take {c : Engine} (h : Owned c) (l : Taking) : Owned (c.take l) :=
  ⟨h.filled, h.typed, h.nodup⟩

lemma sim_start (env : Env ModId Callback Heap) (tokens : FsArr FsStr) :
    Sim env [] 0 (Conf.start tokens ⟨[], []⟩) ⟨[], []⟩ :=
  ⟨settled_start env tokens _, rfl, fun _ => rfl, rfl, doubled_start tokens _, nofun, nofun,
    fun _ => List.nodup_nil⟩

section

variable {mods : List (FsMod ModId Callback)} {lib : Lib} {junk : Junk} {c c₁ c' : Engine}
  {bs bs' : List (Opened ModId Callback)} {b : Opened ModId Callback} {n : Nat} {h : Heap}
  {k : Callback} {l : Line} {ts : List FsStr}

lemma Reaches.accepted (hmods : ∀ m ∈ mods, m ∈ shippedMods) {st : Status}
    (hreach : Reaches (shippedEnv mods lib junk) bs c c₁)
    (hplace : c₁.pathInPlace (shippedEnv mods lib junk) st)
    (hacc : Accepted (shippedEnv mods lib junk) c₁ bs st c' bs') :
    Settled (shippedEnv mods lib junk) bs' c' ∧ (Owned c → Owned c') := by
  obtain ⟨hI, ht, hr⟩ := hreach.settled
  exact ⟨⟨hacc.inv hI, hacc.typed hmods hI ht hplace, hacc.registered hmods hr⟩,
    fun ho => hacc.owned hmods hI ht hplace (hreach.owned ho)⟩

/-- The loops have come to the command of the directive, in the state `c₁`. -/
structure Comes (env : Env ModId Callback Heap) (bs : List (Opened ModId Callback)) (c : Engine)
    (h : Heap) (k : Callback) (l : Line) (c₁ : Engine) : Prop where
  reaches : Reaches env bs (c.taken k.ending l.words) c₁
  heap : c₁.heap = h
  words : c₁.tokens.contents = l.words.map some
  path : c₁.pathInPlace env k.ending
  tried : Tried env c₁ k.ending k.owner k.cmd
  room : k.block = true → c₁.Room

lemma Sim.comes (hmods : mods.Perm shippedMods) (hs : Sim (shippedEnv mods lib junk) bs n c h)
    (hl : l.Names k) (hstands : k.Stands (innermost bs))
    (hroom : k.block = true → bs = [] ∨ ∀ j, n ≠ 8 * 2 ^ j) :
    ∃ c₁ first rest, Comes (shippedEnv mods lib junk) bs c h k l c₁ ∧
      (k.rival = none → rest = []) ∧
      fsConfHandle (shippedEnv mods lib junk) (c.taken k.ending l.words) k.ending
        = tryAll (shippedEnv mods lib junk) l.name k.ending ((k.owner, k.cmd) :: rest) first
          c₁ := by
  have hs' : Settled (shippedEnv mods lib junk) bs (c.taken k.ending l.words) := hs.settled.take _
  have hroom' : k.block = true → Conf.Room (c.taken k.ending l.words) := by
    intro hblock
    rcases hroom hblock with hnil | hcount
    · left
      have hkept := hs.settled.inv.kept
      rw [Conf.Kept, hnil, List.forall₂_nil_right_iff] at hkept
      exact hkept
    · right
      exact hs.doubled.not_full fun j => by rw [hs.count]; exact hcount j
  have hwords : (c.taken k.ending l.words).tokens.contents = l.words.map some :=
    FsArr.refill_contents c.tokens l.words
  obtain ⟨c₁, first, rest, hreach, hrest, hhandle⟩ :=
    exists_tryAll hmods hs' hl hstands hroom' (nth_zero_of_words hwords)
  have hwords₁ : c₁.tokens.contents = l.words.map some := by
    rw [hreach.tokens]
    exact hwords
  have hname := nth_zero_of_words hwords₁
  exact ⟨c₁, first, rest, ⟨hreach, hreach.heap.trans hs.heap, hwords₁,
    pathInPlace_of_stands hmods hl hreach.settled.inv.kept hname hstands,
    ⟨mem_candidates hmods k, l.name, hname, hl.matches hmods⟩,
    fun hblock => hreach.room (hroom' hblock)⟩, hrest, hhandle⟩

/-- The command has the last word when it does not pass. -/
lemma tryAll_both {R : Engine → Heap → Prop} {m : ModId} {cmd : FsCmd Callback} {name : FsStr}
    {st : Status} {first : Bool} {r : Except Fault Heap} (rest : List (ModId × FsCmd Callback))
    (hmatch : cmd.matches name st)
    (h : Except.Both R Exit.Fails (tryCmd (shippedEnv mods lib junk) c m cmd st first) r) :
    Except.Both R Exit.Fails
      (tryAll (shippedEnv mods lib junk) name st ((m, cmd) :: rest) first c) r := by
  rw [tryAll_cons, if_pos hmatch]
  generalize tryCmd (shippedEnv mods lib junk) c m cmd st first = r' at h ⊢
  cases h with
  | ok h => exact .ok h
  | error h =>
    cases h with
    | rejected c => exact .error (.rejected c)
    | undefined => exact .error .undefined

/-! ### Parameters -/

lemma tryCmd_param {r : Except Fault Heap} (hparam : k.isParam = true)
    (hk : c.Kept (shippedEnv mods lib junk) (b :: bs))
    (hans : (shippedCall lib k c b.ctx).Answers r) (first : Bool) :
    Except.Both (fun c' h' => shippedCall lib k c b.ctx = some (.ok, h') ∧
        c' = { c with heap := h' }.emit (.call k.owner k.cmd b.ctx .ok)) Exit.Fails
      (tryCmd (shippedEnv mods lib junk) c k.owner k.cmd .ok first) r := by
  have hne : c.stMod ≠ [] := by
    intro hnil
    rw [Conf.Kept, hnil] at hk
    cases hk
  have hcall : c.runCall (shippedEnv mods lib junk) k.owner k.cmd b.ctx
      = (shippedCall lib k c b.ctx).map fun r =>
          (r.1, { c with heap := r.2 }.emit (.call k.owner k.cmd b.ctx r.1)) := by
    rw [Conf.runCall]
    change (shippedCall lib k.cmd.call c b.ctx).map _ = _
    rw [k.cmd_call]
  rw [tryCmd, if_pos (k.isParam_cmd.trans hparam), tryParam, if_neg (by simpa using hne),
    hk.topCtx, hcall]
  generalize shippedCall lib k c b.ctx = called at hans ⊢
  cases hans with
  | ok h => exact .ok ⟨rfl, rfl⟩
  | rejected h => exact .error (.rejected _)
  | undefined => exact .error .undefined

/-- A parameter of the innermost block. -/
lemma Sim.param (hmods : mods.Perm shippedMods) {unset : Heap → Callback → Bool}
    (hs : Sim (shippedEnv mods lib junk) (b :: bs) n c h) (hl : l.Names k)
    (hparam : k.isParam = true) (hplace : b.cmd.call = k.place) :
    Except.Both (Sim (shippedEnv mods lib junk) (b :: bs) n) Exit.Fails
      (fsConfHandle (shippedEnv mods lib junk) (c.taken .ok l.words) .ok)
      (h.apply lib unset k l.args b.ctx) := by
  have hblock : k.block = false := by
    rw [Callback.isParam, Bool.and_eq_true, Bool.not_eq_true'] at hparam
    exact hparam.2
  have hending : k.ending = .ok := by rw [Callback.ending, hblock]; rfl
  obtain ⟨c₁, first, rest, hcomes, -, hhandle⟩ := hs.comes hmods hl
    (.inl ⟨hparam, congrArg some hplace⟩) fun hb => by rw [hblock] at hb; cases hb
  have hsettled := hcomes.reaches.settled
  have hans : (shippedCall lib k c₁ b.ctx).Answers (h.apply lib unset k l.args b.ctx) := by
    rw [← hcomes.heap]
    exact param_answers hsettled.inv.kept hsettled.typed hparam hplace hcomes.words hl
  have hmatch := hl.matches hmods
  obtain ⟨hreach, -, -, hpath, htried, -⟩ := hcomes
  rw [hending] at hhandle hpath htried hmatch hreach
  have hboth := tryAll_both rest hmatch (tryCmd_param hparam hsettled.inv.kept hans first)
  rw [← hhandle] at hboth
  refine hboth.with_eq.mono ?_ fun _ _ h => h
  rintro c' h' ⟨hok, happly, hcall, rfl⟩
  rw [← k.cmd_call] at hcall
  obtain ⟨hsettled', howned⟩ := hreach.accepted (mem_shipped_of_perm hmods) hpath
    (.param htried (k.isParam_cmd.trans hparam) rfl hcall)
  refine ⟨hsettled', rfl, fun m => ?_, hreach.count.trans hs.count,
    handle_doubled (c := c.taken .ok l.words) hs.doubled hok, howned (hs.owned.take _)⟩
  rw [Conf.emit, ownCtxs_append, contexts_apply happly, ← hs.listed]
  exact (List.append_nil _).trans (hreach.listed m)

/-! ### Blocks -/

/-- A block command that has been entered with the context `p`. -/
lemma tryCmd_block {r : Except Fault Heap} {m : ModId} {cmd : FsCmd Callback}
    {first first₁ : Bool} {p : Ptr} (hparam : cmd.isParam = false)
    (henter : enterBlock (shippedEnv mods lib junk) (c.stPush m cmd) m cmd first = .ok (first₁, c₁))
    (hE : Entry (shippedEnv mods lib junk) c bs m cmd p first₁ c₁)
    (hans : (shippedCall lib cmd.call c₁ p).Answers r) :
    Except.Both (fun c' h' => shippedCall lib cmd.call c₁ p = some (.ok, h') ∧
        c' = ({ c₁ with heap := h' }.emit (.call m cmd p .ok)).emit (.opened ⟨m, cmd, p⟩))
      Exit.Fails (tryCmd (shippedEnv mods lib junk) c m cmd .blockStart first) r := by
  have hcall : c₁.runCall (shippedEnv mods lib junk) m cmd p
      = (shippedCall lib cmd.call c₁ p).map fun r =>
          (r.1, { c₁ with heap := r.2 }.emit (.call m cmd p r.1)) := rfl
  have hblock : tryBlock (shippedEnv mods lib junk) c m cmd .blockStart first
      = (callBlock (shippedEnv mods lib junk) c₁ m cmd first₁).bind fun c =>
          leaveBlock (shippedEnv mods lib junk) c m cmd .blockStart := by
    rw [tryBlock, henter]
    rfl
  rw [tryCmd, if_neg (by simp [hparam]), hblock, callBlock, hE.entered.topCtx, hcall]
  generalize hcalled : shippedCall lib cmd.call c₁ p = called at hans ⊢
  cases hans with
  | ok h =>
    have htop : Conf.topCtx (shippedEnv mods lib junk)
        ({ c₁ with heap := h }.emit (.call m cmd p .ok)) = p := by
      have hentered : Entered (shippedEnv mods lib junk) c bs ⟨m, cmd, p⟩
        ({ c₁ with heap := h }.emit (.call m cmd p .ok)) := hE.entered.congr rfl rfl rfl rfl
      exact hentered.topCtx
    change Except.Both _ _ (leaveBlock (shippedEnv mods lib junk)
      ({ c₁ with heap := h }.emit (.call m cmd p .ok)) m cmd .blockStart) _
    rw [leaveBlock, if_neg (by decide), htop]
    exact .ok ⟨rfl, rfl⟩
  | rejected h => exact .error (.rejected _)
  | undefined => exact .error .undefined

/-- The engine behind a block that has been accepted. -/
lemma Sim.opened (hmods : mods.Perm shippedMods) {h' : Heap} {p : Ptr} {first : Bool} {c₂ : Engine}
    (hs : Sim (shippedEnv mods lib junk) bs n c h)
    (hcomes : Comes (shippedEnv mods lib junk) bs c h k l c₁) (hblock : k.block = true)
    (hE : Entry (shippedEnv mods lib junk) c₁ bs k.owner k.cmd p first c₂)
    (hcall : shippedCall lib k.cmd.call c₂ p = some (.ok, h'))
    (hok : fsConfHandle (shippedEnv mods lib junk) (c.taken k.ending l.words) k.ending
      = .ok (({ c₂ with heap := h' }.emit (.call k.owner k.cmd p .ok)).emit
          (.opened ⟨k.owner, k.cmd, p⟩)))
    (hlisted : ∀ m, h'.contexts m
      = h.contexts m ++ if k.owner = m ∧ k.child = false then [p] else []) :
    Sim (shippedEnv mods lib junk) (⟨k.owner, k.cmd, p⟩ :: bs) (n + 1)
      (({ c₂ with heap := h' }.emit (.call k.owner k.cmd p .ok)).emit
        (.opened ⟨k.owner, k.cmd, p⟩)) h' := by
  obtain ⟨hreach, -, -, hpath, htried, -⟩ := hcomes
  have hending : k.ending = .blockStart := by rw [Callback.ending, hblock]; rfl
  have hdoubled := handle_doubled (c := c.taken _ l.words) hs.doubled hok
  rw [hending] at hreach hpath htried
  obtain ⟨hsettled, howned⟩ := hreach.accepted (mem_shipped_of_perm hmods) hpath
    (.block htried (k.cmd_block.trans hblock) hE hcall)
  refine ⟨hsettled, rfl, fun m => ?_, ?_, hdoubled, howned (hs.owned.take _)⟩
  · have hlog : ownCtxs m c₂.log = h.contexts m := by
      rw [← hs.listed]
      refine Eq.trans ?_ (hreach.listed m)
      cases hE with
      | child _ _ _ _ _ _ hlog => rw [hlog]
      | own _ hinit _ _ _ _ _ hlog => rw [hlog, ownCtxs_append, hinit.ownCtxs_eq, List.append_nil]
    rw [hlisted, Conf.emit, Conf.emit, ownCtxs_append, ownCtxs_append, hlog]
    by_cases hm : k.owner = m <;> cases hchild : k.child <;>
      simp [ownCtxs, Event.ownCtx, hm, k.cmd_child, hchild]
  · have hcount := hE.entered.count
    rw [hreach.count] at hcount
    exact hcount.trans (congrArg (· + 1) hs.count)

/-- A block inside the innermost one, with the context of that one. -/
lemma Sim.sub (hmods : mods.Perm shippedMods) {unset : Heap → Callback → Bool}
    (hlib : ∀ (c : Engine) k, lib.uninitNull c k = unset c.heap k)
    (hs : Sim (shippedEnv mods lib junk) (b :: bs) n c h) (hl : l.Names k)
    (hchild : k.child = true) (hopens : k.opensIn (some b.cmd.call) = true)
    (hroom : ∀ j, n ≠ 8 * 2 ^ j) :
    Except.Both (Sim (shippedEnv mods lib junk) (⟨k.owner, k.cmd, b.ctx⟩ :: b :: bs) (n + 1))
      Exit.Fails (fsConfHandle (shippedEnv mods lib junk) (c.taken k.ending l.words) k.ending)
      (h.apply lib unset k l.args b.ctx) := by
  have hblock : k.block = true := Callback.block_of_opensIn hopens
  obtain ⟨c₁, first, rest, hcomes, -, hhandle⟩ :=
    hs.comes hmods hl (.inr hopens) fun _ => .inr hroom
  have hsettled := hcomes.reaches.settled
  obtain ⟨c₂, henter⟩ : ∃ c₂, enterBlock (shippedEnv mods lib junk) (c₁.stPush k.owner k.cmd)
      k.owner k.cmd first = .ok (first, c₂) := by
    rw [enterBlock, if_pos (k.cmd_child.trans hchild)]
    exact ⟨_, rfl⟩
  have hpost := enterBlock_post hsettled.inv (hcomes.room hblock) hcomes.tried first
  rw [henter] at hpost
  obtain ⟨p, hE⟩ := hpost
  obtain ⟨rfl, hheap⟩ : p = b.ctx ∧ c₂.heap = c₁.heap := by
    cases hE with
    | child _ hp _ hheap => exact ⟨hp b rfl, hheap⟩
    | own hch =>
      rw [k.cmd_child, hchild] at hch
      cases hch
  have hans : (shippedCall lib k.cmd.call c₂ b.ctx).Answers (h.apply lib unset k l.args b.ctx) := by
    rw [← hcomes.heap, ← hheap, k.cmd_call]
    refine subblock_answers hE.entered.keeps ?_ hchild hopens rfl ?_ (hlib c₂)
    · rw [hheap]
      exact hsettled.typed
    · rw [hE.entered.tokens]
      exact hcomes.words
  have hparam : k.cmd.isParam = false := by
    rw [FsCmd.isParam, k.cmd_block, hblock, Bool.not_true, Bool.and_false]
  have hending : k.ending = .blockStart := by rw [Callback.ending, hblock]; rfl
  have htry := tryCmd_block hparam henter hE hans
  rw [← hending] at htry
  have hboth := tryAll_both rest (hl.matches hmods) htry
  rw [← hhandle] at hboth
  refine hboth.with_eq.mono ?_ fun _ _ h => h
  rintro c' h' ⟨hok, happly, hcall, rfl⟩
  refine hs.opened hmods hcomes hblock hE hcall hok fun m => ?_
  rw [contexts_apply happly, if_neg (by simp [hchild]), List.append_nil]

/-- A version block is rejected behind another one. -/
lemma tryCmd_own_pass (mods : List (FsMod ModId Callback)) (lib : Lib) (junk : Junk)
    (hchild : k.child = false)
    (hversion : k = .versionInit ∧ c.used .version) (st : Status) (first : Bool) :
    ∃ first₁ c₁, tryCmd (shippedEnv mods lib junk) c k.owner k.cmd st first
      = .error (.pass first₁ c₁) := by
  obtain ⟨c₁, hinit⟩ := runInitMod_own mods lib junk c hchild
    fun hk => by rw [hk] at hversion; cases hversion.1
  rw [if_pos hversion] at hinit
  have htrace : LeavesNoTrace (shippedEnv mods lib junk) c k.owner k.cmd st first :=
    leavesNoTrace_init (k.cmd_child.trans hchild) ⟨c₁, hinit⟩ st
  obtain ⟨first₁, c', hpass, -⟩ := htrace
  exact ⟨first₁, c', hpass⟩

/-- A block of its own is entered with a new object. -/
lemma enterBlock_fresh (hs : Settled (shippedEnv mods lib junk) bs c) (hchild : k.child = false)
    (hversion : ¬ (k = .versionInit ∧ c.used .version))
    (hlistener : k = .kafkaListenerBlock → c.stMod = []) (first : Bool) :
    ∃ first₁ c₁, enterBlock (shippedEnv mods lib junk) (c.stPush k.owner k.cmd) k.owner k.cmd first
      = .ok (first₁, c₁) := by
  obtain ⟨c₁, hinit⟩ := runInitMod_own mods lib junk c hchild
    fun hk => by rw [hs.inv.depth, hlistener hk]; rfl
  rw [if_neg hversion] at hinit
  obtain ⟨hused, hctxs⟩ := runInitMod_registry hinit
  have hreg : ∃ a, (if c₁.used k.owner then c₁.ctxs k.owner
      else .arr (fsAllocArr Ptr 1 Nat.zero_lt_one)) = .arr a := by
    rw [hused, hctxs]
    by_cases hu : c.used k.owner
    · obtain ⟨a, ha, -⟩ := hs.registered.ctxs k.owner hu
      exact ⟨a, (if_pos hu).trans ha⟩
    · exact ⟨_, if_neg hu⟩
  obtain ⟨a, ha⟩ := hreg
  rw [enterBlock, if_neg (by simp [k.cmd_child, hchild]), hinit]
  change ∃ first₁ c₂, (defined (c₁.register k.owner (c₁.topCtx (shippedEnv mods lib junk)))).bind
    (fun c' => .ok (!c₁.used k.owner, c')) = .ok (first₁, c₂)
  rw [Conf.register_eq ha]
  exact ⟨_, _, rfl⟩

/-- A block of its own. -/
lemma Sim.own (hmods : mods.Perm shippedMods) (hs : Sim (shippedEnv mods lib junk) bs n c h)
    (hl : l.Names k) (hchild : k.child = false) (hopens : k.opensIn (innermost bs) = true)
    (hroom : bs = [] ∨ ∀ j, n ≠ 8 * 2 ^ j) :
    Except.Both
      (fun c' r => Sim (shippedEnv mods lib junk) (⟨k.owner, k.cmd, r.1⟩ :: bs) (n + 1) c' r.2)
      Exit.Fails (fsConfHandle (shippedEnv mods lib junk) (c.taken k.ending l.words) k.ending)
      (h.opened lib k) := by
  have hblock : k.block = true := Callback.block_of_opensIn hopens
  obtain ⟨c₁, first, rest, hcomes, hrest, hhandle⟩ :=
    hs.comes hmods hl (.inr hopens) fun _ => hroom
  have hsettled := hcomes.reaches.settled
  have hmatch := hl.matches hmods
  have hused : c₁.used .version ↔ h.objs.any (·.owner == .version) := by
    rw [hsettled.registered.used, hcomes.reaches.listed, Heap.any_owner_iff]
    exact not_congr (by rw [← hs.listed]; rfl)
  rw [Heap.opened]
  by_cases hversion : k = .versionInit ∧ h.objs.any (·.owner == .version)
  · rw [if_pos hversion]
    obtain ⟨first₁, c₂, hpass⟩ := tryCmd_own_pass mods lib junk hchild
      ⟨hversion.1, hused.mpr hversion.2⟩ k.ending first
    rw [hhandle, tryAll_cons, if_pos hmatch, hpass, hrest (by rw [hversion.1]; rfl)]
    exact .error (.rejected c₂)
  · rw [if_neg hversion]
    have hlistener : k = .kafkaListenerBlock → c₁.stMod = [] := by
      intro hk
      have hinner : innermost bs = none := by
        rw [hk] at hopens
        simpa [Callback.opensIn] using hopens
      have hkept := hsettled.inv.kept
      cases bs with
      | nil => exact List.forall₂_nil_right_iff.mp hkept
      | cons b bs => cases hinner
    obtain ⟨first₁, c₂, henter⟩ := enterBlock_fresh hsettled hchild
      (fun hv => hversion ⟨hv.1, hused.mp hv.2⟩) hlistener first
    have hpost := enterBlock_post hsettled.inv (hcomes.room hblock) hcomes.tried first
    rw [henter] at hpost
    obtain ⟨p, hE⟩ := hpost
    obtain ⟨rfl, hheap⟩ : p = (h.alloc (k.raw lib)).1 ∧ c₂.heap = (h.alloc (k.raw lib)).2 := by
      cases hE with
      | child hch =>
        rw [k.cmd_child, hchild] at hch
        cases hch
      | own _ hinit _ _ hheap =>
        obtain ⟨hp, hh⟩ := hinit.raw hchild
        rw [hcomes.heap] at hp hh
        exact ⟨hp, hheap.trans hh⟩
    have hcall : shippedCall lib k.cmd.call c₂ (h.alloc (k.raw lib)).1
        = some (.ok, (h.alloc (k.fresh lib)).2) := by
      rw [k.cmd_call]
      exact own_call hE.entered.keeps hchild rfl hheap
    have hparam : k.cmd.isParam = false := by
      rw [FsCmd.isParam, k.cmd_block, hblock, Bool.not_true, Bool.and_false]
    have hending : k.ending = .blockStart := by rw [Callback.ending, hblock]; rfl
    have htry := tryCmd_block (r := .ok (h.alloc (k.fresh lib)).2) hparam henter hE
      (by rw [hcall]; exact .ok _)
    rw [← hending] at htry
    have hboth := tryAll_both rest hmatch htry
    rw [← hhandle] at hboth
    generalize hr : fsConfHandle (shippedEnv mods lib junk) (c.taken k.ending l.words) k.ending = r
      at hboth ⊢
    cases hboth with
    | ok hdone =>
      obtain ⟨-, rfl⟩ := hdone
      refine .ok (hs.opened hmods hcomes hblock hE hcall hr fun m => ?_)
      rw [Heap.contexts_alloc, Callback.owner_fresh hchild]
      simp [hchild, Heap.alloc]

/-! ### Closing braces -/

lemma Accepted.close_kept
    (hacc : Accepted (shippedEnv mods lib junk) c bs .blockEnd c' bs') :
    c'.ctx = c.ctx ∧ ∀ m, ownCtxs m c'.log = ownCtxs m c.log := by
  cases hacc with
  | closeChild =>
    refine ⟨rfl, fun m => ?_⟩
    rw [Conf.emit, ownCtxs_append]
    exact List.append_nil _
  | closeOwn _ _ hcomp =>
    obtain ⟨heap, rfl⟩ := runCompleted_eq hcomp
    refine ⟨rfl, fun m => ?_⟩
    rw [Conf.emit, ownCtxs_append]
    apply (List.append_nil _).trans
    rw [Conf.stPop, ownCtxs_append, ownCtxs_completion, List.append_nil]

/-- The state behind a closing brace. -/
lemma Sim.closed (hmods : ∀ m ∈ mods, m ∈ shippedMods) {h' : Heap}
    (hs : Sim (shippedEnv mods lib junk) (b :: bs) n c h)
    (hacc : Accepted (shippedEnv mods lib junk) (c.taken .blockEnd ts) (b :: bs) .blockEnd c' bs)
    (hok : fsConfHandle (shippedEnv mods lib junk) (c.taken .blockEnd ts) .blockEnd = .ok c')
    (hheap : c'.heap = h') (hobjs : h'.objs = h.objs) :
    Sim (shippedEnv mods lib junk) bs n c' h' := by
  have hs' : Settled (shippedEnv mods lib junk) (b :: bs) (c.taken .blockEnd ts) :=
    hs.settled.take _
  obtain ⟨hctx, hlisted⟩ := hacc.close_kept
  obtain ⟨hsettled, howned⟩ := (Reaches.refl hs').accepted hmods (pathInPlace_of_close _) hacc
  refine ⟨hsettled, hheap, fun m => ?_, ?_,
    handle_doubled (c := c.taken .blockEnd ts) hs.doubled hok, howned (hs.owned.take _)⟩
  · rw [Heap.contexts_congr hobjs, ← hs.listed]
    exact hlisted m
  · rw [hctx]
    exact hs.count

/-- The closing brace of a block inside another one. -/
lemma Sim.closeSub (hmods : ∀ m ∈ mods, m ∈ shippedMods)
    (hs : Sim (shippedEnv mods lib junk) (b :: bs) n c h) (hchild : b.cmd.call.child = true) :
    ∃ c', fsConfHandle (shippedEnv mods lib junk) (c.taken .blockEnd ts) .blockEnd = .ok c' ∧
      Sim (shippedEnv mods lib junk) bs n c' h := by
  have hchild' : b.cmd.child = true := hs.settled.typed.shipped.child.trans hchild
  have hkept := hs.settled.inv.kept
  rw [Conf.Kept, List.forall₂_cons_right_iff] at hkept
  obtain ⟨frame, frames, hframe, -, hstMod⟩ := hkept
  have hok : fsConfHandle (shippedEnv mods lib junk) (c.taken .blockEnd ts) .blockEnd
      = .ok ((c.taken .blockEnd ts).stPop.emit .closed) := by
    have hstMod' : (c.taken .blockEnd ts).stMod = frame :: frames := hstMod
    rw [fsConfHandle, if_pos (by decide), closeBlock, hstMod']
    dsimp only
    rw [if_pos (by rw [hframe.cmd]; exact hchild')]
  exact ⟨_, hok, hs.closed hmods (.closeChild rfl hchild') hok hs.heap rfl⟩

/-- The closing brace of a block of its own. -/
lemma Sim.closeOwn (hmods : ∀ m ∈ mods, m ∈ shippedMods)
    (hs : Sim (shippedEnv mods lib junk) (b :: bs) n c h) (hchild : b.cmd.call.child = false) :
    Except.Both (Sim (shippedEnv mods lib junk) bs n) Exit.Fails
      (fsConfHandle (shippedEnv mods lib junk) (c.taken .blockEnd ts) .blockEnd)
      (h.complete lib b.ctx) := by
  have htyped : TypedStack c.heap (b :: bs) := hs.settled.typed
  have hchild' : b.cmd.child = false := htyped.shipped.child.trans hchild
  obtain ⟨o, ho, howner⟩ := htyped.own_obj rfl hchild
  rw [htyped.owner] at howner
  obtain ⟨f, hf⟩ : ∃ f, (shippedMethods lib b.mod).initModCompleted = some f := by
    rw [← howner]
    cases o <;> exact ⟨_, rfl⟩
  have hans : Called.Answers (f (c.taken .blockEnd ts) b.ctx)
      ((c.taken .blockEnd ts).heap.complete lib b.ctx) := completed_answers hf ho howner
  have htop : (c.taken .blockEnd ts).topCtx (shippedEnv mods lib junk) = b.ctx :=
    (hs.settled.take _).inv.kept.topCtx
  have hrun : (c.taken .blockEnd ts).runCompleted (shippedEnv mods lib junk) b.mod b.ctx
      = (f (c.taken .blockEnd ts) b.ctx).map fun r =>
          (r.1, { c.taken .blockEnd ts with heap := r.2 }.emit (.completed b.mod b.ctx r.1)) := by
    have hf' : ((shippedEnv mods lib junk).methods b.mod).initModCompleted = some f := hf
    rw [Conf.runCompleted, hf']
  have hkept := hs.settled.inv.kept
  rw [Conf.Kept, List.forall₂_cons_right_iff] at hkept
  obtain ⟨frame, frames, hframe, -, hstMod⟩ := hkept
  have hstMod' : (c.taken .blockEnd ts).stMod = frame :: frames := hstMod
  have hclose : fsConfHandle (shippedEnv mods lib junk) (c.taken .blockEnd ts) .blockEnd
      = closeBlock (shippedEnv mods lib junk) (c.taken .blockEnd ts) := by
    rw [fsConfHandle, if_pos (by decide)]
  rw [closeBlock, hstMod'] at hclose
  dsimp only at hclose
  rw [if_neg (by simp [hframe.cmd, hchild']), htop, hframe.mod, hrun] at hclose
  have hheap : (c.taken .blockEnd ts).heap = h := hs.heap
  rw [hheap] at hans
  generalize f (c.taken .blockEnd ts) b.ctx = called, hr : h.complete lib b.ctx = r
    at hans hrun hclose
  cases hans with
  | ok h' =>
    have hobjs : h'.objs = h.objs := by
      rw [Heap.complete, ← hheap, show (c.taken .blockEnd ts).heap.get b.ctx = some o from ho] at hr
      obtain ⟨calls, -, rfl⟩ := Except.map_eq_ok_iff.mp hr
      have hobjs : (c.taken .blockEnd ts).heap.objs = h.objs := congrArg Heap.objs hheap
      exact hobjs
    rw [hclose]
    exact .ok (hs.closed hmods (.closeOwn rfl hchild' hrun) hclose rfl hobjs)
  | rejected h' =>
    rw [hclose]
    exact .error (.rejected _)
  | undefined =>
    rw [hclose]
    exact .error .undefined

end

/-! ### Scripts -/

/-- The directives one after the other, with the words that the scanner delivers. -/
def handleWords {μ κ H : Type} [DecidableEq μ] (env : Env μ κ H) (c : Conf μ κ H)
    (ds : List (Status × List FsStr)) : Except (Exit μ κ H) (Conf μ κ H) :=
  ds.foldlM (fun c d => fsConfHandle env (c.taken d.1 d.2) d.1) c

section

variable {μ κ H : Type} [DecidableEq μ] {env : Env μ κ H} {c : Conf μ κ H}

lemma handleWords_cons (d : Status × List FsStr) (ds : List (Status × List FsStr)) :
    handleWords env c (d :: ds)
      = fsConfHandle env (c.taken d.1 d.2) d.1 >>= fun c => handleWords env c ds :=
  List.foldlM_cons

lemma handleWords_append (ds ds' : List (Status × List FsStr)) :
    handleWords env c (ds ++ ds') = handleWords env c ds >>= fun c => handleWords env c ds' :=
  List.foldlM_append

end

section

variable {mods : List (FsMod ModId Callback)} {lib : Lib} {junk : Junk}
  {unset : Heap → Callback → Bool}

lemma Callback.ending_of_opens {k : Callback} {inner : Option Callback}
    (h : k.opensIn inner = true) : k.ending = .blockStart := by
  rw [Callback.ending, Callback.block_of_opensIn h]
  rfl

/-- At top level only blocks of their own can stand. -/
lemma Callback.own_of_opensIn {k : Callback} (h : k.opensIn none = true) : k.child = false := by
  cases k with
  | versionInit | timerBlock | httpBlock | kafkaListenerBlock => rfl
  | _ => simp [Callback.opensIn] at h

/-- The directives of a script, in the blocks `bs`, of which the innermost one has the context
`p`. -/
lemma Sim.script (hmods : mods.Perm shippedMods)
    (hlib : ∀ (c : Engine) k, lib.uninitNull c k = unset c.heap k) (s : Script) :
    ∀ {bs : List (Opened ModId Callback)} {n : Nat} {c : Engine} {h : Heap} {p : Ptr},
      Sim (shippedEnv mods lib junk) bs n c h → s.Placed (innermost bs) →
      s.Roomy (!bs.isEmpty) n → (∀ b ∈ bs.head?, p = b.ctx) →
      Except.Both (Sim (shippedEnv mods lib junk) bs (n + s.blocks)) Exit.Fails
        (handleWords (shippedEnv mods lib junk) c s.directives) (s.eval lib unset p h) := by
  induction s with
  | nil => exact fun hs _ _ _ => .ok hs
  | param k l rest ih =>
    intro bs n c h p hs hplaced hroomy hp
    obtain ⟨⟨hl, hparam, hinner⟩, hplaced⟩ := hplaced
    cases bs with
    | nil => cases hinner
    | cons b bs =>
      obtain rfl := hp b rfl
      rw [Script.directives, handleWords_cons]
      exact (hs.param hmods hl hparam (Option.some.inj hinner)).bind fun c h hs =>
        ih hs hplaced hroomy hp
  | block k l body left rest ihbody ihrest =>
    intro bs n c h p hs hplaced hroomy hp
    obtain ⟨⟨hl, hopens⟩, hbody, hrest⟩ := hplaced
    obtain ⟨hroom, hroomy, hroomy'⟩ := hroomy
    have hinner : ∀ q, innermost (⟨k.owner, k.cmd, q⟩ :: bs) = some k := by
      intro q
      exact congrArg some k.cmd_call
    have hclosed : n + (Script.block k l body left rest).blocks =
        n + 1 + body.blocks + rest.blocks := by
      rw [Script.blocks]
      ring
    rw [Script.directives, handleWords_cons, hclosed]
    simp only [handleWords_append, handleWords_cons]
    rw [Script.eval]
    have hstep := Callback.ending_of_opens hopens
    cases hchild : k.child with
    | true =>
      -- it works on the object of the block around it
      cases bs with
      | nil =>
        rw [Callback.own_of_opensIn hopens] at hchild
        cases hchild
      | cons b bs =>
        obtain rfl := hp b rfl
        have hopened := hs.sub hmods hlib hl hchild hopens (hroom rfl)
        rw [hstep] at hopened
        rw [if_pos rfl, ← bind_assoc]
        refine (hopened.bind fun c h hs => ihbody hs ?_ hroomy fun _ hb => ?_).bind fun c h hs => ?_
        · rw [hinner]
          exact hbody
        · cases hb
          rfl
        · obtain ⟨c', hok, hs'⟩ := hs.closeSub (mem_shipped_of_perm hmods)
            ((congrArg Callback.child k.cmd_call).trans hchild)
          rw [hok]
          exact ihrest hs' hrest hroomy' hp
    | false =>
      have hroom' : bs = [] ∨ ∀ j, n ≠ 8 * 2 ^ j := by
        cases bs with
        | nil => exact .inl rfl
        | cons b bs => exact .inr (hroom rfl)
      have hopened := hs.own hmods hl hchild hopens hroom'
      rw [hstep] at hopened
      rw [if_neg (by simp)]
      have hassoc : ∀ c : Engine, (do
            let c ←
              fsConfHandle (shippedEnv mods lib junk) (c.taken .blockStart l.words) .blockStart
            let c ← handleWords (shippedEnv mods lib junk) c body.directives
            let c ← fsConfHandle (shippedEnv mods lib junk) (c.taken .blockEnd left) .blockEnd
            handleWords (shippedEnv mods lib junk) c rest.directives)
          = (fsConfHandle (shippedEnv mods lib junk) (c.taken .blockStart l.words) .blockStart >>=
              fun c => handleWords (shippedEnv mods lib junk) c body.directives >>=
                fun c => fsConfHandle (shippedEnv mods lib junk) (c.taken .blockEnd left) .blockEnd)
            >>= fun c => handleWords (shippedEnv mods lib junk) c rest.directives := by
        intro c
        simp only [bind_assoc]
      rw [hassoc]
      refine (hopened.bind fun c r hs => ?_).bind fun c h hs => ihrest hs hrest hroomy' hp
      refine (ihbody hs ?_ hroomy fun _ hb => ?_).bind fun c h hs => ?_
      · rw [hinner]
        exact hbody
      · cases hb
        rfl
      · exact hs.closeOwn (mem_shipped_of_perm hmods)
          ((congrArg Callback.child k.cmd_call).trans hchild)

end

end Folksong
