import Folksong.Conf.Rollback
import Folksong.Mod.Closed
import Folksong.Mod.Inited
import Folksong.Mod.Order
import Folksong.Mod.TimerWords

/-!
# Timer blocks in a configuration

Whatever module is tried first, a directive of an open timer block does to its timer what
`Timer.takes` says, and the closing brace completes it. At start-up the timer is started with the
times it holds.
-/

namespace Folksong

/-! ### The commands that fit -/

/-- The commands that the two loops meet, in the order of the shipped table. -/
def shippedCommands : List (ModId × FsCmd Callback) :=
  shippedMods.flatMap fun m => (m.commands.takeWhile fun cmd => !cmd.isEnd).map (m.id, ·)

section

variable {mods : List (FsMod ModId Callback)} (lib : Lib) (junk : Junk) {name : FsStr}

lemma fitting_perm_shipped (hmods : mods.Perm shippedMods) (hname : name.IsToken) (st : Status) :
    ((shippedEnv mods lib junk).fitting name st).Perm
      (shippedCommands.filter fun p => decide (p.2.token.text <+: name.cstr) && p.2.fits st) := by
  apply (fitting_perm hmods).trans
  have hmatches : ∀ p ∈ (shippedEnv shippedMods lib junk).candidates, p.2.matches name st
      = (decide (p.2.token.text <+: name.cstr) && p.2.fits st) := by
    intro p hp
    rw [Bool.eq_iff_iff, matches_iff_begins (fun _ hm => hm) hname hp]
    simp
  exact List.Perm.of_eq (List.filter_congr hmatches)

/-- Only the block of the timer module opens under its name. -/
lemma fitting_timer (hmods : mods.Perm shippedMods) (hname : name.IsToken)
    (hcstr : name.cstr = bytes "timer") :
    (shippedEnv mods lib junk).fitting name .blockStart
      = [(.timer, fsBlockCmd "timer" .timerBlock)] := by
  have hperm := fitting_perm_shipped lib junk hmods hname .blockStart
  rw [hcstr, show (shippedCommands.filter fun p => decide (p.2.token.text <+: bytes "timer") &&
    p.2.fits .blockStart) = [(.timer, fsBlockCmd "timer" .timerBlock)] by decide +kernel] at hperm
  exact List.perm_singleton.mp hperm

/-- The other command with the word of a directive of a timer block. -/
def timerRival : ModId × FsCmd Callback := (.kafkaListener, fsParamCmd "exec" .kafkaListenerExec)

lemma fitting_timerWord (hmods : mods.Perm shippedMods) (d : TimerDirective) :
    (shippedEnv mods lib junk).fitting d.name .ok = [(.timer, d.word.cmd)] ∨
      (shippedEnv mods lib junk).fitting d.name .ok = [(.timer, d.word.cmd), timerRival] ∨
      (shippedEnv mods lib junk).fitting d.name .ok = [timerRival, (.timer, d.word.cmd)] := by
  have hfilter : ∀ w : TimerWord, (shippedCommands.filter fun p =>
      decide (p.2.token.text <+: w.cmd.token.text) && p.2.fits .ok)
        = (.timer, w.cmd) :: if w = .exec then [timerRival] else [] := by
    intro w
    cases w <;> decide +kernel
  have hperm := fitting_perm_shipped lib junk hmods d.isToken .ok
  rw [d.cstr, hfilter] at hperm
  split_ifs at hperm
  · exact .inr (List.perm_pair.mp hperm)
  · exact .inl (List.perm_singleton.mp hperm)

end

/-! ### The open block -/

/-- The timer at `p` is `t`, and a context of its module. -/
structure Conf.ListsTimer (c : Engine) (p : Ptr) (t : Timer) : Prop where
  listed : c.ListsCtx .timer p
  obj : c.heap.get p = some (.timer t)

/-- The block of that timer is the innermost one, and its frame points into the current storage. -/
structure Conf.InTimer (c : Engine) (p : Ptr) (t : Timer) : Prop where
  lists : c.ListsTimer p t
  top : ∃ cmd slot frames, c.stMod = ⟨.timer, cmd, slot⟩ :: frames ∧ cmd.child = false ∧
    slot.gen = c.ctx.gen ∧ c.ctx.nth slot.idx = some p

/-- The context of a frame that points into the current storage. -/
lemma topCtx_of_frame {env : Env ModId Callback Heap} {c : Engine} {m : ModId}
    {cmd : FsCmd Callback} {slot : Slot} {frames : List (Frame ModId Callback)} {p : Ptr}
    (hstMod : c.stMod = ⟨m, cmd, slot⟩ :: frames) (hgen : slot.gen = c.ctx.gen)
    (hnth : c.ctx.nth slot.idx = some p) : c.topCtx env = p := by
  rw [Conf.topCtx, hstMod]
  dsimp only
  rw [Conf.deref, if_pos hgen, Env.slotValue, hnth]
  rfl

namespace Conf.InTimer

variable {c c' : Engine} {p : Ptr} {t t' : Timer}

lemma topMod (h : c.InTimer p t) : topMod c = some .timer := by
  obtain ⟨cmd, slot, frames, hstMod, -⟩ := h.top
  rw [Folksong.topMod, hstMod]
  rfl

lemma stMod_ne_nil (h : c.InTimer p t) : c.stMod ≠ [] := Folksong.stMod_ne_nil h.topMod

lemma topCtx (h : c.InTimer p t) (env : Env ModId Callback Heap) : c.topCtx env = p := by
  obtain ⟨cmd, slot, frames, hstMod, -, hgen, hnth⟩ := h.top
  exact topCtx_of_frame hstMod hgen hnth

/-- What a directive of the block leaves alone. -/
lemma congr (h : c.InTimer p t) (hstMod : c'.stMod = c.stMod) (hctx : c'.ctx = c.ctx)
    (hused : c'.used = c.used) (hctxs : c'.ctxs = c.ctxs)
    (hobj : c'.heap.get p = some (.timer t')) : c'.InTimer p t' := by
  refine ⟨⟨⟨?_, ?_⟩, hobj⟩, ?_⟩
  · rw [hused]
    exact h.lists.listed.used
  · rw [hctxs]
    exact h.lists.listed.ctxs
  · rw [hstMod, hctx]
    exact h.top

lemma take (h : c.InTimer p t) (l : Taking) : (c.take l).InTimer p t :=
  h.congr rfl rfl rfl rfl h.lists.obj

lemma alike (h : c.InTimer p t) (halike : c.Alike c') : c'.InTimer p t := by
  rw [halike.state]
  exact h.congr rfl rfl rfl rfl h.lists.obj

variable {mods : List (FsMod ModId Callback)} {lib : Lib} {junk : Junk} {d : TimerDirective}

/-- What the callback of a directive answers. -/
lemma call_eq (h : c.InTimer p t) (htokens : c.tokens = d.tokens)
    (hfits : d.word = .exec → (execArgs d.tokens).Fits lib) :
    shippedCall lib d.word.cmd.call c p = (t.takes d).elim (some (.error, c.heap))
      fun t' => some (.ok, c.heap.set p (.timer t')) := by
  have htop := h.topMod
  have hobj := h.lists.obj
  have hcount : c.tokens.eleCount = d.args.length + 1 := by
    rw [htokens, FsArr.eleCount_of_contents d.contents, List.length_cons]
  -- `timeout` and `repeat` read the only word behind their name
  have htime : ∀ {k : Callback} {flag : Timer → Bool} {store : Timer → Nat → Timer},
      timerCmdTime k flag store lib c p
        = (if flag t then none else d.time.map (store t)).elim (some (.error, c.heap))
          fun t' => some (.ok, c.heap.set p (.timer t')) := by
    intro k flag store
    rw [timerCmdTime, if_neg (not_not.mpr htop), hobj]
    dsimp only
    rw [hcount, TimerDirective.time]
    by_cases hflag : flag t
    · rw [if_pos hflag, if_pos hflag, Option.elim_none]
    rw [if_neg hflag, if_neg hflag]
    rcases hargs : d.args with _ | ⟨value, _ | ⟨_, _⟩⟩
    · rfl
    · have htext : tokenText c 1 = some value.cstr := by
        rw [tokenText, htokens, FsArr.nth_of_contents (x := value)]
        · rfl
        · rw [d.contents, hargs]
          rfl
      rw [if_neg (by simp), htext]
      dsimp only
      cases fsModTimerParseTime value.cstr with
      | none => rfl
      | some n => rfl
    · rfl
  rw [Timer.takes]
  cases hword : d.word with
  | timeout => exact htime
  | rep => exact htime
  | exec =>
    change fsModTimerCmdExec lib c p = _
    rw [fsModTimerCmdExec, if_neg (not_not.mpr htop), hobj, htokens]
    exact if_pos (hfits hword)

/-- A `NULL` without room. -/
lemma call_undefined (h : c.InTimer p t) (htokens : c.tokens = d.tokens) (hword : d.word = .exec)
    (hfits : ¬ (execArgs d.tokens).Fits lib) : shippedCall lib d.word.cmd.call c p = none := by
  rw [hword]
  change fsModTimerCmdExec lib c p = none
  rw [fsModTimerCmdExec, if_neg (not_not.mpr h.topMod), h.lists.obj, htokens]
  exact if_neg hfits

/-- The command is tried in the block. -/
lemma tryCmd_takes (h : c.InTimer p t) (htokens : c.tokens = d.tokens)
    (hfits : d.word = .exec → (execArgs d.tokens).Fits lib) (htake : t.takes d = some t')
    (first : Bool) :
    ∃ c', tryCmd (shippedEnv mods lib junk) c .timer d.word.cmd .ok first = .ok c' ∧
      c'.InTimer p t' := by
  have hcall : shippedCall lib d.word.cmd.call c p
      = some (.ok, c.heap.set p (.timer t')) := by
    rw [h.call_eq htokens hfits, htake, Option.elim_some]
  have hrun : c.runCall (shippedEnv mods lib junk) .timer d.word.cmd p
      = some (.ok, ({ c with heap := c.heap.set p (.timer t') } : Engine).emit
          (.call .timer d.word.cmd p .ok)) := congrArg _ hcall
  have h' : Conf.InTimer (({ c with heap := c.heap.set p (.timer t') } : Engine).emit
      (.call .timer d.word.cmd p .ok)) p t' :=
    h.congr rfl rfl rfl rfl (Heap.get_set_self h.lists.obj _)
  refine ⟨_, ?_, h'⟩
  rw [tryCmd, if_pos d.word.isParam_cmd, tryParam, if_neg (by simpa using h.stMod_ne_nil),
    h.topCtx, hrun]
  rfl

lemma tryCmd_rejects (h : c.InTimer p t) (htokens : c.tokens = d.tokens)
    (hfits : d.word = .exec → (execArgs d.tokens).Fits lib) (htake : t.takes d = none)
    (first : Bool) :
    ∃ c', tryCmd (shippedEnv mods lib junk) c .timer d.word.cmd .ok first
      = .error (.error c') := by
  have hcall : shippedCall lib d.word.cmd.call c p = some (.error, c.heap) := by
    rw [h.call_eq htokens hfits, htake, Option.elim_none]
  have hrun : c.runCall (shippedEnv mods lib junk) .timer d.word.cmd p
      = some (.error, c.emit (.call .timer d.word.cmd p .error)) := congrArg _ hcall
  refine ⟨c.emit (.call .timer d.word.cmd p .error), ?_⟩
  rw [tryCmd, if_pos d.word.isParam_cmd, tryParam, if_neg (by simpa using h.stMod_ne_nil),
    h.topCtx, hrun]
  rfl

lemma tryCmd_undefined (h : c.InTimer p t) (htokens : c.tokens = d.tokens) (hword : d.word = .exec)
    (hfits : ¬ (execArgs d.tokens).Fits lib) (first : Bool) :
    tryCmd (shippedEnv mods lib junk) c .timer d.word.cmd .ok first = .error .undefined := by
  have hrun : c.runCall (shippedEnv mods lib junk) .timer d.word.cmd p = none :=
    congrArg (Option.map _) (h.call_undefined htokens hword hfits)
  rw [tryCmd, if_pos d.word.isParam_cmd, tryParam, if_neg (by simpa using h.stMod_ne_nil),
    h.topCtx, hrun]
  rfl

variable (lib junk)

/-- Whatever module comes first, the command of the timer is tried in the block. -/
lemma exists_tryAll (hmods : mods.Perm shippedMods) (h : c.InTimer p t) (d : TimerDirective) :
    ∃ c₁ first rest, c₁.InTimer p t ∧ c₁.tokens = d.tokens ∧ d.word.cmd.matches d.name .ok ∧
      fsConfHandle (shippedEnv mods lib junk) (c.take d.taking) .ok
        = tryAll (shippedEnv mods lib junk) d.name .ok ((.timer, d.word.cmd) :: rest) first c₁ := by
  have hname : (c.take d.taking).tokens.nth 0 = some d.name := d.nth_zero
  rw [fsConfHandle_of_name hname (by simp), tryAll_fitting]
  have hmatch : ∀ q ∈ (shippedEnv mods lib junk).fitting d.name .ok, q.2.matches d.name .ok :=
    fun q hq => (Env.mem_fitting.mp hq).2
  have hship : ∀ q ∈ (shippedEnv mods lib junk).fitting d.name .ok, ShippedCmd q.1 q.2 :=
    fun q hq => shippedCmd_of_mem_fitting (mem_shipped_of_perm hmods) hq
  generalize (shippedEnv mods lib junk).first (c.take d.taking) = first
  rcases fitting_timerWord lib junk hmods d with hfit | hfit | hfit
  · rw [hfit] at hmatch ⊢
    exact ⟨_, first, [], h.take d.taking, rfl, hmatch (.timer, d.word.cmd) (by simp), rfl⟩
  · rw [hfit] at hmatch ⊢
    exact ⟨_, first, [timerRival], h.take d.taking, rfl, hmatch (.timer, d.word.cmd) (by simp), rfl⟩
  · rw [hfit] at hmatch hship ⊢
    -- the listener declines
    have hdecline : timerRival.2.call.Declines (c.take d.taking) := by
      change Folksong.topMod c ≠ some .kafkaListener
      rw [h.topMod]
      simp
    obtain ⟨c₁, hpass, halike⟩ : ∃ c₁, tryCmd (shippedEnv mods lib junk) (c.take d.taking)
        timerRival.1 timerRival.2 .ok first = .error (.pass first c₁) ∧
          (c.take d.taking).Alike c₁ :=
      declines_param (hship timerRival (by simp)) hdecline rfl h.stMod_ne_nil
    refine ⟨c₁, first, [], (h.take d.taking).alike halike, halike.tokens,
      hmatch (.timer, d.word.cmd) (by simp), ?_⟩
    rw [tryAll_cons, if_pos (hmatch timerRival (by simp)), hpass]

/-- A directive of the block is accepted as `Timer.takes` says. -/
lemma handle_takes (hmods : mods.Perm shippedMods) (h : c.InTimer p t)
    (hfits : d.word = .exec → (execArgs d.tokens).Fits lib) (htake : t.takes d = some t') :
    ∃ c', fsConfHandle (shippedEnv mods lib junk) (c.take d.taking) .ok = .ok c' ∧
      c'.InTimer p t' := by
  obtain ⟨c₁, first, rest, h₁, htokens, hmatch, hhandle⟩ := h.exists_tryAll lib junk hmods d
  obtain ⟨c', htry, h'⟩ := h₁.tryCmd_takes htokens hfits htake first
  refine ⟨c', ?_, h'⟩
  rw [hhandle, tryAll_cons, if_pos hmatch, htry]

lemma handle_rejects (hmods : mods.Perm shippedMods) (h : c.InTimer p t)
    (hfits : d.word = .exec → (execArgs d.tokens).Fits lib) (htake : t.takes d = none) :
    ∃ c', fsConfHandle (shippedEnv mods lib junk) (c.take d.taking) .ok = .error (.error c') := by
  obtain ⟨c₁, first, rest, h₁, htokens, hmatch, hhandle⟩ := h.exists_tryAll lib junk hmods d
  obtain ⟨c', htry⟩ := h₁.tryCmd_rejects htokens hfits htake first
  refine ⟨c', ?_⟩
  rw [hhandle, tryAll_cons, if_pos hmatch, htry]

lemma handle_undefined (hmods : mods.Perm shippedMods) (h : c.InTimer p t) (hword : d.word = .exec)
    (hfits : ¬ (execArgs d.tokens).Fits lib) :
    fsConfHandle (shippedEnv mods lib junk) (c.take d.taking) .ok = .error .undefined := by
  obtain ⟨c₁, first, rest, h₁, htokens, hmatch, hhandle⟩ := h.exists_tryAll lib junk hmods d
  rw [hhandle, tryAll_cons, if_pos hmatch, h₁.tryCmd_undefined htokens hword hfits]

end Conf.InTimer

/-! ### Whole blocks -/

/-- The directives one after the other, up to the first one that is not accepted. -/
def handleAll {μ κ H : Type} [DecidableEq μ] (env : Env μ κ H) (c : Conf μ κ H)
    (ls : List Taking) : Except (Exit μ κ H) (Conf μ κ H) :=
  ls.foldlM (fun c l => fsConfHandle env (c.take l) l.status) c

section

variable {μ κ H : Type} [DecidableEq μ] {env : Env μ κ H} {c c₁ : Conf μ κ H} {l : Taking}
  {e : Exit μ κ H} (ls : List Taking)

lemma handleAll_cons_ok (h : fsConfHandle env (c.take l) l.status = .ok c₁) :
    handleAll env c (l :: ls) = handleAll env c₁ ls := by
  rw [handleAll, List.foldlM_cons, h]
  rfl

lemma handleAll_append_ok {ls₁ : List Taking} (h : handleAll env c ls₁ = .ok c₁) :
    handleAll env c (ls₁ ++ ls) = handleAll env c₁ ls := by
  rw [handleAll] at h
  rw [handleAll, List.foldlM_append, h]
  rfl

lemma handleAll_one : handleAll env c [l] = fsConfHandle env (c.take l) l.status := by
  rw [handleAll, List.foldlM_cons]
  exact bind_pure _

lemma handleAll_cons_error (h : fsConfHandle env (c.take l) l.status = .error e) :
    handleAll env c (l :: ls) = .error e := by
  rw [handleAll, List.foldlM_cons, h]
  rfl

end

section

variable (mods : List (FsMod ModId Callback)) (lib : Lib) (junk : Junk) {c : Engine} {p : Ptr}
  {t : Timer} {l : Taking}

/-- What the completion answers. -/
lemma completed_eq (h : c.heap.get p = some (.timer t)) :
    fsModTimerInitModCompleted lib c p
      = some (if t.completes then .ok else .error, c.heap) := by
  rw [fsModTimerInitModCompleted, h, Timer.completes]
  dsimp only
  cases t.repeatFlag <;> cases t.timeoutFlag <;> cases t.cbFlag <;> rfl

/-- The closing brace calls the completion on the timer. -/
lemma Conf.InTimer.handle_close (h : c.InTimer p t) {st : Status} (hclose : st = .blockEnd) :
    fsConfHandle (shippedEnv mods lib junk) c st
      = if t.completes then .ok ((c.emit (.completed .timer p .ok)).stPop.emit .closed)
        else .error (.error (c.emit (.completed .timer p .error))) := by
  have hrun : c.runCompleted (shippedEnv mods lib junk) .timer p
      = some (if t.completes then .ok else .error,
          c.emit (.completed .timer p (if t.completes then .ok else .error))) := by
    change (fsModTimerInitModCompleted lib c p).map _ = _
    rw [completed_eq lib h.lists.obj]
    rfl
  have htop := h.topCtx (shippedEnv mods lib junk)
  obtain ⟨cmd, slot, frames, hstMod, hchild, -⟩ := h.top
  subst hclose
  rw [fsConfHandle, if_pos (beq_self_eq_true _), closeBlock, hstMod]
  dsimp only
  rw [if_neg (by simp [hchild]), htop, hrun]
  split_ifs <;> rfl

/-- The closing brace pops the frame of a timer that is complete. -/
lemma Conf.InTimer.close (h : c.InTimer p t) (hcompletes : t.completes)
    (hclose : l.status = .blockEnd) :
    ∃ c', fsConfHandle (shippedEnv mods lib junk) (c.take l) l.status = .ok c' ∧
      c'.ListsTimer p t := by
  have hhandle := (h.take l).handle_close mods lib junk hclose
  rw [if_pos hcompletes] at hhandle
  exact ⟨_, hhandle, ⟨h.lists.listed.used, h.lists.listed.ctxs⟩, h.lists.obj⟩

lemma Conf.InTimer.not_close (h : c.InTimer p t) (hcompletes : ¬ t.completes)
    (hclose : l.status = .blockEnd) :
    ∃ c', fsConfHandle (shippedEnv mods lib junk) (c.take l) l.status = .error (.error c') := by
  have hhandle := (h.take l).handle_close mods lib junk hclose
  rw [if_neg hcompletes] at hhandle
  exact ⟨_, hhandle⟩

end

section

variable {mods : List (FsMod ModId Callback)} (hmods : mods.Perm shippedMods) (lib : Lib)
  (junk : Junk) {c c₁ : Engine} {p : Ptr} {t t' : Timer} {ds : List TimerDirective} {l : Taking}

/-- The entry of a block, with what it leaves alone. -/
lemma listed_of_register {c c' : Engine} {m : ModId} (h : c.register m p = some c') :
    c'.ListsCtx m p ∧ c'.stMod = c.stMod ∧ c'.ctx = c.ctx ∧ c'.heap = c.heap := by
  rw [Conf.register] at h
  split at h
  next a ha =>
    obtain rfl := Option.some.inj h
    refine ⟨⟨Function.update_self _ _ _, a.push p, Function.update_self _ _ _, ?_⟩, rfl, rfl, rfl⟩
    rw [FsArr.push_contents]
    simp
  next => cases h

/-- What `fs_mod_timer_init_mod` leaves in the frame just pushed, and in the registry. -/
lemma inTimer_of_enter {cmd : FsCmd Callback} (hcall : cmd.call = .timerBlock)
    (hchild : cmd.child = false) {first first' : Bool} {c' : Engine}
    (h : enterBlock (shippedEnv mods lib junk) (c.stPush .timer cmd) .timer cmd first
      = .ok (first', c')) : ∃ q, c'.InTimer q fsModTimerInit := by
  obtain ⟨q, hq⟩ : ∃ q, (c.heap.alloc (.timer fsModTimerInit)).1 = q := ⟨_, rfl⟩
  have hinit : (c.stPush .timer cmd).runInitMod (shippedEnv mods lib junk) .timer cmd
      = some (.ok, Conf.emit { (c.stPush .timer cmd).storeTop q with
          heap := (c.heap.alloc (.timer fsModTimerInit)).2 } (.initMod .timer .ok)) := by
    simp only [Conf.runInitMod, shippedEnv, shippedMethods, fsModTimerInitMod, hcall, if_true, ← hq]
    rfl
  obtain ⟨c₂, hinit', hreg, -⟩ := enterBlock_own hchild h
  rw [hinit] at hinit'
  obtain ⟨-, hc₂⟩ := Prod.mk.inj (Option.some.inj hinit')
  have hstMod : c₂.stMod = ⟨.timer, cmd, c.ctx.slot⟩ :: c.stMod := by rw [← hc₂]; rfl
  have hctx : c₂.ctx = c.ctx.push q := by rw [← hc₂]; rfl
  have hheap : c₂.heap = (c.heap.alloc (.timer fsModTimerInit)).2 := by rw [← hc₂]; rfl
  have hgen : c.ctx.slot.gen = c₂.ctx.gen := by rw [hctx]; rfl
  have hnth : c₂.ctx.nth c.ctx.slot.idx = some q := by
    rw [hctx]
    exact c.ctx.push_nth_self q
  rw [topCtx_of_frame hstMod hgen hnth] at hreg
  obtain ⟨hlisted, hstMod', hctx', hheap'⟩ := listed_of_register hreg
  refine ⟨q, ⟨hlisted, ?_⟩, cmd, c.ctx.slot, c.stMod, ?_, hchild, ?_, ?_⟩
  · rw [hheap', hheap, ← hq]
    simp [Heap.alloc, Heap.get]
  · rw [hstMod', hstMod]
  · rw [hctx', hgen]
  · rw [hctx', hnth]

include hmods

/-- A block that is opened has a timer of its own. -/
lemma inTimer_of_open {name : FsStr} (hname : l.tokens.nth 0 = some name) (htoken : name.IsToken)
    (hcstr : name.cstr = bytes "timer")
    (h : fsConfHandle (shippedEnv mods lib junk) (c.take l) .blockStart = .ok c₁) :
    c₁.InTimer (c₁.topCtx (shippedEnv mods lib junk)) fsModTimerInit := by
  have hmatch : (fsBlockCmd "timer" Callback.timerBlock).matches name .blockStart := by
    have hmem := fitting_timer lib junk hmods htoken hcstr
    exact (Env.mem_fitting.mp (hmem ▸ List.mem_singleton_self _)).2
  rw [fsConfHandle_of_name (show (c.take l).tokens.nth 0 = some name from hname) (by simp),
    tryAll_fitting, fitting_timer lib junk hmods htoken hcstr, tryAll_cons, if_pos hmatch, tryCmd,
    if_neg (by decide), tryBlock] at h
  suffices hex : ∃ q, c₁.InTimer q fsModTimerInit by
    obtain ⟨q, hq⟩ := hex
    rwa [hq.topCtx]
  cases henter : enterBlock (shippedEnv mods lib junk)
      ((c.take l).stPush .timer (fsBlockCmd "timer" .timerBlock)) .timer
      (fsBlockCmd "timer" .timerBlock) ((shippedEnv mods lib junk).first (c.take l)) with
  | error e =>
    rw [henter] at h
    cases e <;> cases h
  | ok r =>
    rw [henter] at h
    cases h
    obtain ⟨q, hq⟩ := inTimer_of_enter lib junk rfl rfl henter
    exact ⟨q, hq.congr rfl rfl rfl rfl hq.lists.obj⟩

/-- Directives that are taken are all accepted. -/
lemma handleAll_takes (h : c.InTimer p t) (hfits : t.Fits lib ds)
    (hfold : ds.foldlM Timer.takes t = some t') :
    ∃ c', c'.InTimer p t' ∧
      handleAll (shippedEnv mods lib junk) c (ds.map TimerDirective.taking) = .ok c' := by
  induction ds generalizing c t with
  | nil =>
    obtain rfl := Option.some.inj hfold
    exact ⟨c, h, rfl⟩
  | cons d ds ih =>
    obtain ⟨hd, hds⟩ := Timer.fits_cons.mp hfits
    obtain ⟨t₁, htake, hrest⟩ := Timer.foldlM_takes_cons.mp hfold
    obtain ⟨c₁, hhandle, h₁⟩ := h.handle_takes lib junk hmods hd htake
    obtain ⟨c', h', hall⟩ := ih h₁ (hds t₁ htake) hrest
    exact ⟨c', h', (handleAll_cons_ok _ hhandle).trans hall⟩

/-- The first directive that is not taken is rejected. -/
lemma handleAll_rejects (h : c.InTimer p t) (hfits : t.Fits lib ds)
    (hfold : ds.foldlM Timer.takes t = none) (ls : List Taking) :
    ∃ c', handleAll (shippedEnv mods lib junk) c (ds.map TimerDirective.taking ++ ls)
      = .error (.error c') := by
  induction ds generalizing c t with
  | nil => cases hfold
  | cons d ds ih =>
    obtain ⟨hd, hds⟩ := Timer.fits_cons.mp hfits
    cases htake : t.takes d with
    | none =>
      obtain ⟨c', hhandle⟩ := h.handle_rejects lib junk hmods hd htake
      exact ⟨c', handleAll_cons_error _ hhandle⟩
    | some t₁ =>
      obtain ⟨c₁, hhandle, h₁⟩ := h.handle_takes lib junk hmods hd htake
      rw [List.foldlM_cons, htake] at hfold
      obtain ⟨c', hall⟩ := ih h₁ (hds t₁ htake) hfold
      exact ⟨c', (handleAll_cons_ok _ hhandle).trans hall⟩

/-- The first `exec` without room leads nowhere. -/
lemma handleAll_undefined (h : c.InTimer p t) (hfits : ¬ t.Fits lib ds) (ls : List Taking) :
    handleAll (shippedEnv mods lib junk) c (ds.map TimerDirective.taking ++ ls)
      = .error .undefined := by
  induction ds generalizing c t with
  | nil => exact absurd (Timer.fits_nil t) hfits
  | cons d ds ih =>
    rw [Timer.fits_cons, not_and_or] at hfits
    by_cases hd : d.word = .exec → (execArgs d.tokens).Fits lib
    · have hds := hfits.resolve_left (not_not_intro hd)
      push Not at hds
      obtain ⟨t₁, htake, hds⟩ := hds
      obtain ⟨c₁, hhandle, h₁⟩ := h.handle_takes lib junk hmods hd htake
      exact (handleAll_cons_ok _ hhandle).trans (ih h₁ hds)
    · rw [Classical.not_imp] at hd
      exact handleAll_cons_error _ (h.handle_undefined lib junk hmods hd.1 hd.2)

end

/-! ### Start-up -/

section

variable {c : Engine} {m : ModId} {ctxs : List (Option Ptr)} {s s' : Startup} {call : StartCall}
  {p : Ptr} {t : Timer}

/-- A module that stores the loop behind its calls makes no others. -/
lemma calls_of_storeLoop {body : Ptr → Option (List StartCall)}
    (h : (eachCtx body ctxs s).bind (storeLoop ctxs) = some s') (hcall : call ∈ s'.calls) :
    call ∈ s.calls ∨ ∃ q calls, body q = some calls ∧ call ∈ calls := by
  obtain ⟨s₁, heach, hstore⟩ := Option.bind_eq_some_iff.mp h
  obtain ⟨q, -, rfl⟩ := storeLoop_eq hstore
  apply (((eachCtx_calls heach).2 call).mp hcall).imp_right
  rintro ⟨q, calls, -, hbody⟩
  exact ⟨q, calls, hbody⟩

/-- The values a timer is started with are those it holds. -/
lemma inited_timerStart {inited : List (Option Ptr) → Startup → Option Startup} {timeout rep : Nat}
    (hinited : shippedInited c m = some inited) (h : inited ctxs s = some s')
    (hcall : .uvTimerStart p timeout rep ∈ s'.calls) :
    .uvTimerStart p timeout rep ∈ s.calls ∨
      ∃ t, c.heap.get p = some (.timer t) ∧ timeout = t.timeout ∧ rep = t.rep := by
  cases m with
  | version =>
    cases hinited
    rw [fsModVersionInited] at h
    split at h
    · cases h
    · split at h
      · cases h
        exact .inl (by simpa [Startup.call] using hcall)
      · cases h
  | timer =>
    cases hinited
    apply (((eachCtx_calls h).2 _).mp hcall).imp_right
    rintro ⟨q, calls, -, hbody, hmem⟩
    split at hbody
    next t ht =>
      cases hbody
      simp only [List.mem_cons, reduceCtorEq, StartCall.uvTimerStart.injEq, false_or,
        List.not_mem_nil, or_false] at hmem
      obtain ⟨rfl, rfl, rfl⟩ := hmem
      exact ⟨t, ht, rfl, rfl⟩
    next => cases hbody
  | http =>
    cases hinited
    apply (calls_of_storeLoop h hcall).imp_right
    rintro ⟨q, calls, hbody, hmem⟩
    split at hbody
    · cases hbody
      simp at hmem
    · cases hbody
  | kafkaListener =>
    cases hinited
    apply (calls_of_storeLoop h hcall).imp_right
    rintro ⟨q, calls, hbody, hmem⟩
    split at hbody
    · cases hbody
      simp [listenerCalls] at hmem
    · cases hbody
  | httpKafka => cases hinited
  | httpProxy => cases hinited

lemma foldlM_timerStart {mods : List (FsMod ModId Callback)} {timeout rep : Nat}
    (h : mods.foldlM (fun s m => initedTurn c m.id s) s = some s')
    (hcall : .uvTimerStart p timeout rep ∈ s'.calls) :
    .uvTimerStart p timeout rep ∈ s.calls ∨
      ∃ t, c.heap.get p = some (.timer t) ∧ timeout = t.timeout ∧ rep = t.rep := by
  induction mods generalizing s with
  | nil =>
    obtain rfl := Option.some.inj h
    exact .inl hcall
  | cons m mods ih =>
    rw [List.foldlM_cons] at h
    obtain ⟨s₁, hturn, hrest⟩ := Option.bind_eq_some_iff.mp h
    refine (ih hrest).elim (fun hcall₁ => ?_) .inr
    rw [initedTurn] at hturn
    split_ifs at hturn
    · split at hturn
      next inited a hinited _ => exact inited_timerStart hinited hturn hcall₁
      next => cases hturn
    · obtain rfl := Option.some.inj hturn
      exact .inl hcall₁

/-- A timer that its module lists is started with the values it holds, and with no others. -/
lemma Conf.ListsTimer.timerStart_iff {mods : List (FsMod ModId Callback)}
    (hmods : mods.Perm shippedMods) (h : c.ListsTimer p t) (hstart : fsGmodInited mods c = some s)
    (timeout rep : Nat) :
    .uvTimerStart p timeout rep ∈ s.calls ↔ timeout = t.timeout ∧ rep = t.rep := by
  constructor
  · intro hcall
    rcases foldlM_timerStart hstart hcall with hinit | ⟨t', ht', htimes⟩
    · cases hinit
    · rw [h.obj, Option.some.injEq, Obj.timer.injEq] at ht'
      subst ht'
      exact htimes
  · rintro ⟨rfl, rfl⟩
    have hmem : fsModTimer ∈ mods := hmods.mem_iff.mpr (by simp [shippedMods])
    obtain ⟨s₁, s₂, hturn, hcalls⟩ := fsGmodInited_split hstart hmem
    obtain ⟨a, ha, hlisted⟩ := h.listed.ctxs
    change initedTurn c .timer s₁ = some s₂ at hturn
    rw [initedTurn, if_pos h.listed.used, ha] at hturn
    apply hcalls
    refine ((eachCtx_calls hturn).2 _).mpr (.inr
      ⟨p, [.uvTimerInit p, .uvTimerStart p t.timeout t.rep], hlisted, ?_, by simp⟩)
    rw [h.obj]

end

/-! ### Behind the block -/

section

variable {mods : List (FsMod ModId Callback)} {lib : Lib} {junk : Junk} {c c' : Engine}
  {bs : List (Opened ModId Callback)} {p : Ptr} {t : Timer} {l : Taking}

/-- A directive is sound if the commands it can reach are. -/
lemma sound_of_fitting {name : FsStr} (hname : l.tokens.nth 0 = some name)
    (hroom : c.Room ∨ ∀ q ∈ (shippedEnv mods lib junk).fitting name l.status, q.2.isParam)
    (hpath : ∀ q ∈ (shippedEnv mods lib junk).fitting name l.status,
      q.2.call ≠ .httpProxyPassPath) :
    ((c.take l).pushes (shippedEnv mods lib junk) l.status → c.Room) ∧
      (c.take l).pathInPlace (shippedEnv mods lib junk) l.status := by
  have hname' : (c.take l).tokens.nth 0 = some name := hname
  refine ⟨fun hpushes => hroom.resolve_right fun hparam => ?_, ?_⟩
  · simp only [Conf.pushes, hname', Option.any_some, Bool.and_eq_true, List.any_eq_true,
      Bool.not_eq_true'] at hpushes
    obtain ⟨-, q, hmem, hmatch, hno⟩ := hpushes
    have hyes := hparam q (Env.mem_fitting.mpr ⟨hmem, hmatch⟩)
    rw [hno] at hyes
    cases hyes
  · have htries : (c.take l).tries (shippedEnv mods lib junk) l.status .httpProxyPassPath
        = false := by
      simp only [Conf.tries, hname', Option.any_some, List.any_eq_false, Bool.and_eq_true,
        beq_iff_eq, not_and]
      exact fun q hmem hcall hmatch => hpath q (Env.mem_fitting.mpr ⟨hmem, hmatch⟩) hcall
    rw [Conf.pathInPlace, htries]
    rfl

lemma TimerDirective.sound (hmods : mods.Perm shippedMods) (d : TimerDirective) :
    ((c.take d.taking).pushes (shippedEnv mods lib junk) .ok → c.Room) ∧
      (c.take d.taking).pathInPlace (shippedEnv mods lib junk) .ok := by
  have hname : d.taking.tokens.nth 0 = some d.name := d.nth_zero
  have hfit : ∀ q ∈ (shippedEnv mods lib junk).fitting d.name .ok,
      q = (.timer, d.word.cmd) ∨ q = timerRival := by
    rcases fitting_timerWord lib junk hmods d with hfit | hfit | hfit <;> rw [hfit] <;> simp
  refine sound_of_fitting hname (.inr fun q hq => ?_) fun q hq => ?_
  · rcases hfit q hq with rfl | rfl
    · exact d.word.isParam_cmd
    · rfl
  · rcases hfit q hq with rfl | rfl
    · cases d.word <;> simp [TimerWord.cmd, fsParamCmd]
    · simp [timerRival, fsParamCmd]

/-- A closing brace tries no command. -/
lemma pathInPlace_of_close (c : Engine) :
    c.pathInPlace (shippedEnv mods lib junk) .blockEnd := by
  have hfits : ∀ cmd : FsCmd Callback, cmd.fits .blockEnd = false := by
    intro cmd
    rw [FsCmd.fits]
    cases cmd.block <;> rfl
  have htries : c.tries (shippedEnv mods lib junk) .blockEnd .httpProxyPassPath = false := by
    cases hname : c.tokens.nth 0 <;> simp [Conf.tries, hname, FsCmd.matches, hfits]
  rw [Conf.pathInPlace, htries]
  rfl

lemma Settled.handleAll (hmods : mods.Perm shippedMods) {ds : List TimerDirective}
    (hs : Settled (shippedEnv mods lib junk) bs c)
    (h : handleAll (shippedEnv mods lib junk) c (ds.map TimerDirective.taking) = .ok c') :
    ∃ bs', Settled (shippedEnv mods lib junk) bs' c' := by
  induction ds generalizing c bs with
  | nil =>
    cases h
    exact ⟨bs, hs⟩
  | cons d ds ih =>
    rw [List.map_cons] at h
    cases hhandle : fsConfHandle (shippedEnv mods lib junk) (c.take d.taking) d.taking.status with
    | error e =>
      rw [handleAll_cons_error _ hhandle] at h
      cases h
    | ok c₁ =>
      rw [handleAll_cons_ok _ hhandle] at h
      obtain ⟨hroom, hpath⟩ := d.sound hmods
      obtain ⟨bs₁, hs₁⟩ := hs.handle (mem_shipped_of_perm hmods) hroom hpath hhandle
      exact ih hs₁ h

/-- The innermost block is that of the timer, and it has the timer for itself. -/
lemma Conf.InTimer.exists_cons (h : c.InTimer p t) (hs : Settled (shippedEnv mods lib junk) bs c) :
    ∃ b bs', bs = b :: bs' ∧ ∀ b' ∈ bs', b'.ctx ≠ p := by
  have hmod := hs.inv.kept.topMod
  rw [h.topMod] at hmod
  cases bs with
  | nil => cases hmod
  | cons b bs' =>
    have hctx := Kept.topCtx hs.inv.kept
    rw [h.topCtx] at hctx
    have hown := hs.typed.own_of_mod (.inr (.inl (Option.some.inj hmod).symm))
    refine ⟨b, bs', rfl, ?_⟩
    rw [hctx]
    exact hs.typed.fresh hown

/-- The closing brace leaves the timer to no open block. -/
lemma Conf.InTimer.closed (hmods : ∀ m ∈ mods, m ∈ shippedMods) (h : c.InTimer p t)
    (hs : Settled (shippedEnv mods lib junk) bs c) (hclose : l.status = .blockEnd)
    (hhandle : fsConfHandle (shippedEnv mods lib junk) (c.take l) l.status = .ok c')
    (hobj : c'.heap.get p ≠ none) :
    ∃ bs', Settled (shippedEnv mods lib junk) bs' c' ∧ Closed c' bs' p := by
  obtain ⟨b, bs', rfl, hfree⟩ := h.exists_cons hs
  obtain ⟨hI, ht, hr⟩ := hs.take l
  rw [hclose, fsConfHandle, if_pos (by decide)] at hhandle
  obtain ⟨bs'', hacc⟩ := (closeBlock_post hI).of_ok hhandle
  have hs' : Settled (shippedEnv mods lib junk) bs'' c' :=
    ⟨hacc.inv hI, hacc.typed hmods hI ht (pathInPlace_of_close _), hacc.registered hmods hr⟩
  refine ⟨bs'', hs', hobj, ?_⟩
  cases hacc with
  | closeChild hbs =>
    obtain ⟨-, rfl⟩ := List.cons.inj hbs
    exact hfree
  | closeOwn hbs =>
    obtain ⟨-, rfl⟩ := List.cons.inj hbs
    exact hfree

lemma settled_of_open (hmods : mods.Perm shippedMods) {c₀ : Engine} {name : FsStr}
    (hname : l.tokens.nth 0 = some name) (htoken : name.IsToken)
    (hcstr : name.cstr = bytes "timer")
    (hopen : fsConfHandle (shippedEnv mods lib junk) (c₀.take l) .blockStart = .ok c)
    (hreached : c₀.Reached (shippedEnv mods lib junk)) (hroom : c₀.Room) :
    ∃ bs, Settled (shippedEnv mods lib junk) bs c := by
  obtain ⟨bs₀, hs₀⟩ := hreached.settled (mem_shipped_of_perm hmods)
  have hsound : ((c₀.take l).pushes (shippedEnv mods lib junk) .blockStart → c₀.Room) ∧
      (c₀.take l).pathInPlace (shippedEnv mods lib junk) .blockStart := by
    refine sound_of_fitting (l := ⟨.blockStart, l.tokens⟩) hname (.inl hroom) fun q hq => ?_
    rw [fitting_timer lib junk hmods htoken hcstr, List.mem_singleton] at hq
    subst hq
    simp [fsBlockCmd]
  exact hs₀.handle (mem_shipped_of_perm hmods) (l := ⟨.blockStart, l.tokens⟩) hsound.1 hsound.2
    hopen

/-- No sound directive behind the block changes the timer. -/
lemma Conf.InTimer.keeps_of_leadsTo (hmods : mods.Perm shippedMods) {ds : List TimerDirective}
    (h : c.InTimer p fsModTimerInit) (hs : Settled (shippedEnv mods lib junk) bs c)
    (hfits : fsModTimerInit.Fits lib ds) (hfold : ds.foldlM Timer.takes fsModTimerInit = some t)
    (hclose : l.status = .blockEnd)
    {c₁ c₂ : Engine} (hok : Folksong.handleAll (shippedEnv mods lib junk) c
      (ds.map TimerDirective.taking ++ [l]) = .ok c₁) (hlists : c₁.ListsTimer p t)
    (hleads : c₁.LeadsTo (shippedEnv mods lib junk) c₂) : c₁.Keeps .timer p c₂ := by
  have hshipped := mem_shipped_of_perm hmods
  obtain ⟨c', hin, hall⟩ := handleAll_takes hmods lib junk h hfits hfold
  rw [handleAll_append_ok [l] hall, handleAll_one] at hok
  obtain ⟨bs', hs'⟩ := hs.handleAll hmods hall
  have hobj : c₁.heap.get p ≠ none := by
    rw [hlists.obj]
    simp
  obtain ⟨bs₁, hs₁, hclosed⟩ := hin.closed hshipped hs' hclose hok hobj
  obtain ⟨_, -, hkept⟩ := hs₁.run_closed hshipped hleads
  exact (hkept p hclosed).2 .timer

end

/-! ### The verdict -/

lemma Conf.ListsTimer.kept {c c' : Engine} {p : Ptr} {t : Timer} (h : c.ListsTimer p t)
    (hkept : c.Keeps .timer p c') : c'.ListsTimer p t :=
  ⟨hkept.listed h.listed, hkept.obj.trans h.obj⟩

/-- How the directives of an open block and its closing brace are handled. -/
lemma Conf.InTimer.handleAll_cases {mods : List (FsMod ModId Callback)}
    (hmods : mods.Perm shippedMods) (lib : Lib) (junk : Junk) {c : Engine} {p : Ptr}
    (h : c.InTimer p fsModTimerInit) {close : Taking} (hclose : close.status = .blockEnd)
    {ds : List TimerDirective} (hfits : fsModTimerInit.Fits lib ds) :
    (TimerAccepts ds ∧ ∃ c' t, handleAll (shippedEnv mods lib junk) c
        (ds.map TimerDirective.taking ++ [close]) = .ok c' ∧
      ds.foldlM Timer.takes fsModTimerInit = some t ∧ c'.ListsTimer p t) ∨
    (¬ TimerAccepts ds ∧ ∃ c', handleAll (shippedEnv mods lib junk) c
      (ds.map TimerDirective.taking ++ [close]) = .error (.error c')) := by
  rw [Timer.timerAccepts_iff]
  cases hfold : ds.foldlM Timer.takes fsModTimerInit with
  | none => exact .inr ⟨by simp, handleAll_rejects hmods lib junk h hfits hfold [close]⟩
  | some t =>
    obtain ⟨c₁, h₁, hall⟩ := handleAll_takes hmods lib junk h hfits hfold
    rw [handleAll_append_ok [close] hall, handleAll_one]
    by_cases hcompletes : t.completes
    · obtain ⟨c', hok, hlists⟩ := h₁.close mods lib junk hcompletes hclose
      exact .inl ⟨⟨t, rfl, hcompletes⟩, c', t, hok, rfl, hlists⟩
    · refine .inr ⟨?_, h₁.not_close mods lib junk hcompletes hclose⟩
      simpa using hcompletes

/-- What the directives `ds` and a closing brace do that are handled in `c`, where a timer block has
been opened in `c₀`. The block is accepted when its directives are those of `TimerAccepts`, and
rejected otherwise; a timer that is kept is started with the times that are given, and with no
others; and in every run of sound directives it is kept. -/
structure SetsTimer (mods : List (FsMod ModId Callback)) (lib : Lib) (junk : Junk) (c₀ c : Engine)
    (close : Taking) (ds : List TimerDirective) : Prop where
  accepted : TimerAccepts ds → ∃ c',
    handleAll (shippedEnv mods lib junk) c (ds.map TimerDirective.taking ++ [close]) = .ok c'
  rejected : ¬ TimerAccepts ds → ∃ c',
    handleAll (shippedEnv mods lib junk) c (ds.map TimerDirective.taking ++ [close])
      = .error (.error c')
  started : ∀ c',
    handleAll (shippedEnv mods lib junk) c (ds.map TimerDirective.taking ++ [close]) = .ok c' →
      ∀ c'' s, c'.Keeps .timer (c.topCtx (shippedEnv mods lib junk)) c'' →
        fsGmodInited mods c'' = some s → ∀ timeout rep,
          .uvTimerStart (c.topCtx (shippedEnv mods lib junk)) timeout rep ∈ s.calls ↔
            Gives ds .timeout timeout ∧ Gives ds .rep rep
  kept : ∀ c',
    handleAll (shippedEnv mods lib junk) c (ds.map TimerDirective.taking ++ [close]) = .ok c' →
      c₀.Reached (shippedEnv mods lib junk) → c₀.Room →
        ∀ c'', c'.LeadsTo (shippedEnv mods lib junk) c'' →
          c'.Keeps .timer (c.topCtx (shippedEnv mods lib junk)) c''

/-- In whatever state a timer block is opened, and whatever the order of the modules and of its
directives is: it sets up its timer as it should exactly when the vector of each `exec` that is
reached has room for the `NULL` that is stored behind it. -/
theorem timerBlock_iff {mods : List (FsMod ModId Callback)} (hmods : mods.Perm shippedMods)
    (lib : Lib) (junk : Junk) {c₀ c : Engine} {head close : Taking} {name : FsStr}
    (hname : head.tokens.nth 0 = some name) (htoken : name.IsToken)
    (hcstr : name.cstr = bytes "timer")
    (hopen : fsConfHandle (shippedEnv mods lib junk) (c₀.take head) .blockStart = .ok c)
    (hclose : close.status = .blockEnd) (ds : List TimerDirective) :
    SetsTimer mods lib junk c₀ c close ds ↔ ExecsFit lib ds := by
  have hin := inTimer_of_open hmods lib junk hname htoken hcstr hopen
  rw [Timer.execsFit_iff]
  constructor
  · intro hsets
    by_contra hfits
    have hundefined := handleAll_undefined hmods lib junk hin hfits [close]
    by_cases haccepts : TimerAccepts ds
    · obtain ⟨c', hok⟩ := hsets.accepted haccepts
      rw [hundefined] at hok
      cases hok
    · obtain ⟨c', herror⟩ := hsets.rejected haccepts
      rw [hundefined] at herror
      cases herror
  intro hfits
  have hsettled := settled_of_open hmods hname htoken hcstr hopen
  generalize hp : c.topCtx (shippedEnv mods lib junk) = p at hin
  rcases hin.handleAll_cases hmods lib junk hclose hfits with
    ⟨haccepts, c', t, hok, hfold, hlists⟩ | ⟨hnot, c', herror⟩
  · refine ⟨fun _ => ⟨c', hok⟩, fun hnot => absurd haccepts hnot, ?_, ?_⟩
    · intro c₁ hok₁ c'' s hkept hstart timeout rep
      obtain rfl := Except.ok.inj (hok.symm.trans hok₁)
      rw [hp] at hkept ⊢
      rw [(hlists.kept hkept).timerStart_iff hmods hstart, ← Timer.gives_iff hfold (by simp),
        ← Timer.gives_iff hfold (by simp)]
      rfl
    · intro c₁ hok₁ hreached hroom c'' hleads
      obtain rfl := Except.ok.inj (hok.symm.trans hok₁)
      obtain ⟨bs, hs⟩ := hsettled hreached hroom
      rw [hp]
      exact hin.keeps_of_leadsTo hmods hs hfits hfold hclose hok hlists hleads
  · refine ⟨fun haccepts => absurd haccepts hnot, fun _ => ⟨c', herror⟩, ?_, ?_⟩
    · intro c₁ hok
      rw [herror] at hok
      cases hok
    · intro c₁ hok
      rw [herror] at hok
      cases hok

/-- The directive `exec true;`. -/
def execTrue : TimerDirective where
  word := .exec
  name := ⟨bytes "exec", 5⟩
  args := [⟨bytes "true", 5⟩]
  tokens := (sampleStart.tokens.push ⟨bytes "exec", 5⟩).push ⟨bytes "true", 5⟩
  contents := rfl
  isToken := by decide
  cstr := by decide
  exec := by simp

/-- The directive `timeout 5s;`. -/
def timeoutFive : TimerDirective where
  word := .timeout
  name := ⟨bytes "timeout", 8⟩
  args := [⟨bytes "5s", 3⟩]
  tokens := (sampleStart.tokens.push ⟨bytes "timeout", 8⟩).push ⟨bytes "5s", 3⟩
  contents := rfl
  isToken := by decide
  cstr := by decide
  exec := by simp

/-- The first word of a timer block, at the start of a text. -/
def timerHead : Taking := ⟨.blockStart, sampleStart.tokens.push ⟨bytes "timer", 6⟩⟩

/-- Its closing brace. -/
def timerClose : Taking := ⟨.blockEnd, sampleStart.tokens⟩

/-- The engine in the block. -/
def timerStart : Engine :=
  match fsConfHandle sampleEnv (sampleStart.take timerHead) .blockStart with
  | .ok c => c
  | .error _ => sampleStart

lemma timerStart_opened :
    fsConfHandle sampleEnv (sampleStart.take timerHead) .blockStart = .ok timerStart := by
  have hok : (fsConfHandle sampleEnv (sampleStart.take timerHead) .blockStart).toOption.isSome
      = true := by decide +kernel
  rw [timerStart]
  cases hopen : fsConfHandle sampleEnv (sampleStart.take timerHead) .blockStart with
  | ok c => rfl
  | error e =>
    rw [hopen] at hok
    cases hok

lemma timerHead_name : timerHead.tokens.nth 0 = some ⟨bytes "timer", 6⟩ := rfl

lemma execsFit_five : ExecsFit .succeeding [execTrue, timeoutFive] := by
  rw [Timer.execsFit_iff, Timer.fits_cons]
  refine ⟨fun _ => by decide, fun t _ => ?_⟩
  rw [Timer.fits_cons]
  exact ⟨(fun h => by cases h), fun t _ => t.fits_nil⟩

/-- A block with both of them. -/
theorem timerBlock_iff_five :
    SetsTimer shippedMods .succeeding .null sampleStart timerStart timerClose
      [execTrue, timeoutFive] :=
  (timerBlock_iff (.refl _) .succeeding .null timerHead_name (by decide) (by decide)
    timerStart_opened rfl _).mpr execsFit_five

/-- The directive `exec true b;`. -/
def execTrueB : TimerDirective where
  word := .exec
  name := ⟨bytes "exec", 5⟩
  args := [⟨bytes "true", 5⟩, ⟨bytes "b", 2⟩]
  tokens :=
    ((sampleStart.tokens.push ⟨bytes "exec", 5⟩).push ⟨bytes "true", 5⟩).push ⟨bytes "b", 2⟩
  contents := rfl
  isToken := by decide
  cstr := by decide
  exec := by simp

/-- `timer{exec true b;timeout 5s;}`: three pointers fill the block that `malloc` returns, and the
`NULL` is stored behind it. -/
theorem not_timerBlock :
    TimerAccepts [execTrueB, timeoutFive] ∧
      ¬ ∀ (mods : List (FsMod ModId Callback)) (lib : Lib) (junk : Junk) (c₀ c : Engine)
          (head close : Taking) (name : FsStr) (ds : List TimerDirective),
        mods.Perm shippedMods → head.tokens.nth 0 = some name → name.IsToken →
        name.cstr = bytes "timer" →
        fsConfHandle (shippedEnv mods lib junk) (c₀.take head) .blockStart = .ok c →
        close.status = .blockEnd → SetsTimer mods lib junk c₀ c close ds := by
  have haccepts : TimerAccepts [execTrueB, timeoutFive] := by
    rw [Timer.timerAccepts_iff]
    exact ⟨_, rfl, rfl⟩
  refine ⟨haccepts, fun h => ?_⟩
  have hsets := h shippedMods .succeeding .null sampleStart timerStart timerHead timerClose
    ⟨bytes "timer", 6⟩ [execTrueB, timeoutFive] (.refl _) rfl (by decide) (by decide)
    timerStart_opened rfl
  obtain ⟨c', hok⟩ := hsets.accepted haccepts
  have hin := inTimer_of_open (.refl shippedMods) .succeeding .null timerHead_name (by decide)
    (by decide) timerStart_opened
  have hfits : ¬ fsModTimerInit.Fits .succeeding [execTrueB, timeoutFive] := by
    intro hfits
    have hfirst := (Timer.fits_cons.mp hfits).1 rfl
    revert hfirst
    decide
  rw [handleAll_undefined (.refl shippedMods) .succeeding .null hin hfits [timerClose]] at hok
  cases hok

end Folksong
