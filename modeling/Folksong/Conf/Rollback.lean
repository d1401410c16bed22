import Folksong.Conf.Attempts

/-!
# What a command that passes leaves behind

`fs_conf_handle` goes on to the next command when `init_mod` or the call of a command answers
`FS_CONF_PASS`. The code that takes the frame and the entry of the registry back is the same for
own blocks and sub-blocks, although only the former have made an entry and set `first`.
-/

namespace Folksong

variable {μ κ H : Type}

/-- Two values of `ctxs` that hold the same contexts. -/
inductive Ctxs.Same : Ctxs → Ctxs → Prop where
  | null : Same .null .null
  | arr {a b : FsArr Ptr} : a.contents = b.contents → Same (.arr a) (.arr b)
  | released : Same .released .released

/-- The engine is as it was: the stack, its depth, `run->ctx` and the registry of every module. -/
structure NoTrace (c c' : Conf μ κ H) : Prop where
  stMod : c'.stMod = c.stMod
  depth : c'.stDepth = c.stDepth
  ctx : c'.ctx.contents = c.ctx.contents
  used : c'.used = c.used
  ctxs : ∀ m, (c.ctxs m).Same (c'.ctxs m)

lemma Ctxs.Same.refl (x : Ctxs) : x.Same x := by
  cases x with
  | null => exact .null
  | arr a => exact .arr rfl
  | released => exact .released

lemma Ctxs.of_same_released {x : Ctxs} (h : x.Same .released) : x = .released := by
  cases h
  rfl

lemma Ctxs.of_null_same {x : Ctxs} (h : Ctxs.null.Same x) : x = .null := by
  cases h
  rfl

/-! ### The frame -/

/-- A frame has been pushed over the stack of `c`, and a slot over the contexts. -/
structure Pushed (c c₁ : Conf μ κ H) : Prop where
  frame : ∃ frame : Frame μ κ, frame.ctx.idx = c.ctx.eleCount ∧ c₁.stMod = frame :: c.stMod
  depth : c₁.stDepth = c.stDepth + 1
  count : c₁.ctx.eleCount = c.ctx.eleCount + 1
  kept : c₁.ctx.elems.take c.ctx.eleCount = c.ctx.contents

namespace Pushed

variable {c c₁ : Conf μ κ H}

lemma stPush (c : Conf μ κ H) (m : μ) (cmd : FsCmd κ) : Pushed c (c.stPush m cmd) := by
  refine ⟨⟨_, rfl, rfl⟩, rfl, c.ctx.pushed_eleCount, ?_⟩
  exact c.ctx.grow_take

lemma storeTop (h : Pushed c c₁) (p : Ptr) : Pushed c (c₁.storeTop p) := by
  obtain ⟨⟨frame, hidx, hstack⟩, hdepth, hcount, hkept⟩ := h
  have heq : c₁.storeTop p = { c₁ with ctx := c₁.ctx.write frame.ctx.idx p } := by
    rw [Conf.storeTop, hstack]
  rw [heq]
  refine ⟨⟨frame, hidx, hstack⟩, hdepth, hcount, ?_⟩
  rw [FsArr.write_take _ _ hidx.ge, hkept]

lemma congr {c₂ : Conf μ κ H} (h : Pushed c c₁) (hs : c₂.stMod = c₁.stMod)
    (hd : c₂.stDepth = c₁.stDepth) (hc : c₂.ctx = c₁.ctx) : Pushed c c₂ := by
  refine ⟨?_, hd.trans h.depth, ?_, ?_⟩
  · rw [hs]
    exact h.frame
  · rw [hc]
    exact h.count
  · rw [hc]
    exact h.kept

/-- Taking the frame and the slot off leads back to the stack and the contexts of `c`. -/
lemma dropBlock (h : Pushed c c₁) :
    ∃ c₂, c₁.dropBlock = some c₂ ∧ c₂.stMod = c.stMod ∧ c₂.stDepth = c.stDepth ∧
      c₂.ctx.contents = c.ctx.contents ∧ c₂.used = c₁.used ∧ c₂.ctxs = c₁.ctxs := by
  obtain ⟨⟨frame, -, hstack⟩, hdepth, hcount, hkept⟩ := h
  have hne : c₁.ctx.eleCount ≠ 0 := by
    rw [hcount]
    exact Nat.succ_ne_zero _
  refine ⟨{ c₁ with ctx := ⟨c₁.ctx.gen, c₁.ctx.elems, c₁.ctx.eleCount - 1, c₁.ctx.capa_pos,
    (Nat.sub_le _ _).trans c₁.ctx.count_le⟩ }.stPop, ?_, ?_, ?_, ?_, rfl, rfl⟩
  · simp [Conf.dropBlock, FsArr.decCount, hne]
  · simp [Conf.stPop, hstack]
  · simp [Conf.stPop, hdepth]
  · simpa [Conf.stPop, FsArr.contents, hcount] using hkept

end Pushed

section

variable {env : Env μ κ H} {c : Conf μ κ H} {m : μ} {cmd : FsCmd κ}

lemma runCall_pushed {c₁ c₂ : Conf μ κ H} {p : Ptr} {r : Ret} (h : Pushed c c₁)
    (hcall : c₁.runCall env m cmd p = some (r, c₂)) :
    Pushed c c₂ ∧ c₂.used = c₁.used ∧ c₂.ctxs = c₁.ctxs := by
  rw [(runCall_eq hcall).2]
  exact ⟨h.congr rfl rfl rfl, rfl, rfl⟩

lemma runInitMod_pushed {c₁ c₂ : Conf μ κ H} {r : Ret} (h : Pushed c c₁)
    (hinit : c₁.runInitMod env m cmd = some (r, c₂)) :
    Pushed c c₂ ∧ c₂.used = c₁.used ∧ c₂.ctxs = c₁.ctxs := by
  refine ⟨?_, ?_⟩
  · rw [Conf.runInitMod] at hinit
    split at hinit
    next =>
      cases hinit
      exact h
    next f hf =>
      obtain ⟨⟨r', q, h'⟩, -, heq⟩ := Option.map_eq_some_iff.mp hinit
      cases heq
      cases q with
      | none => exact h.congr rfl rfl rfl
      | some q => exact (h.storeTop q).congr rfl rfl rfl
  · obtain ⟨ctx, heap, log, rfl⟩ := runInitMod_changes hinit
    exact ⟨rfl, rfl⟩

end

variable [DecidableEq μ] (env : Env μ κ H)

/-- The `init_mod` of an own block passes. -/
def InitPasses (c : Conf μ κ H) (m : μ) (cmd : FsCmd κ) : Prop :=
  ∃ c', (c.stPush m cmd).runInitMod env m cmd = some (.pass, c')

/-- The command is tried, and its `init_mod` or its call answers `FS_CONF_PASS`. -/
inductive Passes (c : Conf μ κ H) (m : μ) (cmd : FsCmd κ) (first : Bool) : Prop where
  | param {c'} : cmd.isParam = true → c.stMod ≠ [] →
      c.runCall env m cmd (c.topCtx env) = some (.pass, c') → Passes c m cmd first
  | initMod : cmd.child = false → InitPasses env c m cmd → Passes c m cmd first
  | call {first' c₁ c₂} : cmd.isParam = false →
      enterBlock env (c.stPush m cmd) m cmd first = .ok (first', c₁) →
      c₁.runCall env m cmd (c₁.topCtx env) = some (.pass, c₂) → Passes c m cmd first

/-- The next command is tried on the engine as it was. -/
def LeavesNoTrace (c : Conf μ κ H) (m : μ) (cmd : FsCmd κ) (st : Status) (first : Bool) : Prop :=
  ∃ first' c', tryCmd env c m cmd st first = .error (.pass first' c') ∧ NoTrace c c'

/-- What the code takes back is what it has done: a parameter does nothing, an own block has
entered itself in the registry of a module that is used already, or has not got so far, and a
sub-block finds no registry. -/
def Reversible (c : Conf μ κ H) (m : μ) (cmd : FsCmd κ) (first : Bool) : Prop :=
  if cmd.isParam then True
  else if cmd.child then c.ctxs m = .null ∧ (first = true → c.used m = false)
  else InitPasses env c m cmd ∨ c.used m = true ∨ c.ctxs m = .released

/-! ### The cases -/

section

variable {env} {c : Conf μ κ H} {m : μ} {cmd : FsCmd κ} {first : Bool}

/-- A parameter that passes has touched nothing. -/
lemma leavesNoTrace_param {c' : Conf μ κ H} (hp : cmd.isParam = true) (hne : c.stMod ≠ [])
    (hcall : c.runCall env m cmd (c.topCtx env) = some (.pass, c')) (st : Status) :
    LeavesNoTrace env c m cmd st first := by
  obtain ⟨⟨r', h'⟩, -, heq⟩ := Option.map_eq_some_iff.mp hcall
  cases heq
  refine ⟨first, { c with heap := h' }.emit (.call m cmd (c.topCtx env) .pass), ?_,
    ⟨rfl, rfl, rfl, rfl, fun m => .refl _⟩⟩
  rw [tryCmd, if_pos hp, tryParam, if_neg (by simpa using hne), hcall]
  rfl

/-- An own block whose `init_mod` passes is taken back. -/
lemma leavesNoTrace_init (hch : cmd.child = false) (hinit : InitPasses env c m cmd) (st : Status) :
    LeavesNoTrace env c m cmd st first := by
  obtain ⟨c₁, hinit⟩ := hinit
  obtain ⟨hpushed, hused, hctxs⟩ := runInitMod_pushed (Pushed.stPush c m cmd) hinit
  obtain ⟨c₂, hdrop, hstMod, hdepth, hctx, hused', hctxs'⟩ := hpushed.dropBlock
  refine ⟨first, c₂, ?_, ⟨hstMod, hdepth, hctx, ?_, fun m' => ?_⟩⟩
  · have hp : cmd.isParam = false := by rw [FsCmd.isParam, hch, Bool.false_and]
    have henter : enterBlock env (c.stPush m cmd) m cmd first = .error (.pass first c₂) := by
      rw [enterBlock, if_neg (by simp [hch]), hinit]
      change (defined c₁.dropBlock).bind (fun c => .error (.pass first c)) = _
      rw [hdrop]
      rfl
    rw [tryCmd, if_neg (by simp [hp]), tryBlock, henter]
    rfl
  · rw [hused', hused]
    rfl
  · rw [hctxs', hctxs]
    exact .refl _

/-- What a block command that passes hands to the next one: the stack and the contexts of `c`,
and what is left of the registry. -/
lemma tryCmd_call (hp : cmd.isParam = false) {first' : Bool} {c₁ c₂ : Conf μ κ H}
    (henter : enterBlock env (c.stPush m cmd) m cmd first = .ok (first', c₁))
    (hpushed : Pushed c c₁) (hcall : c₁.runCall env m cmd (c₁.topCtx env) = some (.pass, c₂))
    (st : Status) :
    ∃ c₃ : Conf μ κ H, tryCmd env c m cmd st first =
        (defined (c₃.unregister m first')).bind (fun c => .error (.pass first' c)) ∧
      c₃.stMod = c.stMod ∧ c₃.stDepth = c.stDepth ∧ c₃.ctx.contents = c.ctx.contents ∧
      c₃.used = c₁.used ∧ c₃.ctxs = c₁.ctxs := by
  obtain ⟨hpushed₂, hused₂, hctxs₂⟩ := runCall_pushed hpushed hcall
  obtain ⟨c₃, hdrop, hstMod, hdepth, hctx, hused, hctxs⟩ := hpushed₂.dropBlock
  refine ⟨c₃, ?_, hstMod, hdepth, hctx, hused.trans hused₂, hctxs.trans hctxs₂⟩
  have hblock : callBlock env c₁ m cmd first'
      = (defined (c₃.unregister m first')).bind (fun c => .error (.pass first' c)) := by
    rw [callBlock, hcall]
    change (defined c₂.dropBlock).bind (fun c => (defined (c.unregister m first')).bind
      fun c => .error (.pass first' c)) = _
    rw [hdrop]
    rfl
  rw [tryCmd, if_neg (by simp [hp]), tryBlock, henter]
  change (callBlock env c₁ m cmd first').bind _ = _
  rw [hblock]
  cases c₃.unregister m first' <;> rfl

/-- Taking the entry of `m` out of the registry of `c₁` gives the registry of `c`. -/
def Restores (c₁ c : Conf μ κ H) (m : μ) (first : Bool) : Prop :=
  ∃ c', c₁.unregister m first = some c' ∧ c'.used = c.used ∧ ∀ m', (c.ctxs m').Same (c'.ctxs m')

/-- Only the registry is looked at and changed. -/
lemma unregister_congr {c₁ c₃ : Conf μ κ H} (hused : c₃.used = c₁.used) (hctxs : c₃.ctxs = c₁.ctxs)
    {c' : Conf μ κ H} (h : c₁.unregister m first = some c') :
    c₃.unregister m first = some { c₃ with used := c'.used, ctxs := c'.ctxs } := by
  obtain ⟨x, hx, rfl⟩ := Option.map_eq_some_iff.mp h
  rw [← hctxs] at hx
  rw [Conf.unregister, hx, ← hused, ← hctxs]
  rfl

lemma Restores.congr {c₁ c₃ : Conf μ κ H} (h : Restores c₁ c m first) (hused : c₃.used = c₁.used)
    (hctxs : c₃.ctxs = c₁.ctxs) : Restores c₃ c m first := by
  obtain ⟨c', hun, hused', hsame⟩ := h
  exact ⟨_, unregister_congr hused hctxs hun, hused', hsame⟩

/-- The registry decides whether a block command that passes leaves a trace. -/
lemma leavesNoTrace_iff_restores (hp : cmd.isParam = false) {first' : Bool} {c₁ c₂ : Conf μ κ H}
    (henter : enterBlock env (c.stPush m cmd) m cmd first = .ok (first', c₁))
    (hpushed : Pushed c c₁) (hcall : c₁.runCall env m cmd (c₁.topCtx env) = some (.pass, c₂))
    (st : Status) : LeavesNoTrace env c m cmd st first ↔ Restores c₁ c m first' := by
  obtain ⟨c₃, htry, hstMod, hdepth, hctx, hused, hctxs⟩ := tryCmd_call hp henter hpushed hcall st
  constructor
  · rintro ⟨first'', c', hpass, htrace⟩
    rw [htry] at hpass
    cases hun : c₃.unregister m first' with
    | none =>
      rw [hun] at hpass
      cases hpass
    | some c₄ =>
      rw [hun] at hpass
      cases hpass
      exact ⟨_, unregister_congr hused.symm hctxs.symm hun, htrace.used, htrace.ctxs⟩
  · rintro ⟨c', hun, hused', hsame⟩
    refine ⟨first', { c₃ with used := c'.used, ctxs := c'.ctxs }, ?_,
      ⟨hstMod, hdepth, hctx, hused', hsame⟩⟩
    rw [htry, unregister_congr hused hctxs hun]
    rfl

/-- Only the contexts of `m` have to be compared. -/
lemma same_update {x : Ctxs} (h : (c.ctxs m).Same x) (m' : μ) :
    (c.ctxs m').Same (Function.update c.ctxs m x m') := by
  by_cases hm : m' = m
  · subst hm
    rwa [Function.update_self]
  · rw [Function.update_of_ne hm]
    exact .refl _

/-- Taking an entry out that has never been made does no harm when the module has no registry,
and no use is taken back with it. -/
lemma restores_self_iff :
    Restores c c m first ↔ c.ctxs m = .null ∧ (first = true → c.used m = false) := by
  constructor
  · rintro ⟨c', hun, hused, hsame⟩
    obtain ⟨x, hx, rfl⟩ := Option.map_eq_some_iff.mp hun
    have hm := hsame m
    simp only [Function.update_self] at hm
    cases hctxs : c.ctxs m with
    | null =>
      refine ⟨rfl, fun hfirst => ?_⟩
      have hused' := congrFun hused m
      simpa [hfirst] using hused'.symm
    | arr a =>
      rw [hctxs] at hx hm
      obtain ⟨b, hb, rfl⟩ := Option.map_eq_some_iff.mp hx
      cases hfirst : first with
      | true =>
        rw [hfirst] at hm
        cases hm
      | false =>
        rw [hfirst] at hm
        cases hm with
        | arr hab => exact absurd (congrArg List.length hab) (FsArr.decCount_contents hb).ne'
    | released =>
      rw [hctxs] at hx
      cases hx
  · rintro ⟨hnull, hfirst⟩
    refine ⟨{ c with used := if first then Function.update c.used m false else c.used
                     ctxs := Function.update c.ctxs m .null }, ?_, ?_, fun m' => ?_⟩
    · rw [Conf.unregister, hnull]
      rfl
    · cases first with
      | true => simpa using hfirst
      | false => rfl
    · exact same_update (by rw [hnull]; exact .null) m'

/-- An own block has entered itself: the entry is taken out of a registry that was there before,
and otherwise the registry is released with it. -/
lemma restores_register_iff {p : Ptr} {c₁ : Conf μ κ H} (hreg : c.register m p = some c₁) :
    Restores c₁ c m (!c.used m) ↔ c.used m = true ∨ c.ctxs m = .released := by
  rw [Conf.register] at hreg
  split at hreg
  next a ha =>
    cases hreg
    obtain ⟨b, hb, hcontents⟩ := a.decCount_push p
    have hun : ∀ first, ({ c with used := Function.update c.used m true
                                  ctxs := Function.update c.ctxs m (.arr (a.push p)) } :
          Conf μ κ H).unregister m first
        = some { c with used := if first then Function.update c.used m false
                          else Function.update c.used m true
                        ctxs := Function.update c.ctxs m (if first then .released else .arr b) } := by
      intro first
      simp only [Conf.unregister, Function.update_self, hb, Option.map_some,
        Function.update_idem]
    cases hused : c.used m with
    | true =>
      rw [hused, if_pos rfl] at ha
      refine iff_of_true ⟨_, hun _, ?_, fun m' => ?_⟩ (.inl rfl)
      · exact Function.update_eq_self_iff.mpr hused.symm
      · exact same_update (ha ▸ .arr hcontents.symm) m'
    | false =>
      constructor
      · rintro ⟨c', hun', -, hsame⟩
        rw [hun] at hun'
        cases hun'
        have hm := hsame m
        simp only [Bool.not_false, if_true, Function.update_self] at hm
        exact .inr (Ctxs.of_same_released hm)
      · rintro (h | hreleased)
        · cases h
        · refine ⟨_, hun _, ?_, fun m' => ?_⟩
          · exact Function.update_eq_self_iff.mpr hused.symm
          · exact same_update (hreleased ▸ .released) m'
  next => cases hreg

/-- How an own block has been entered. -/
lemma enterBlock_own (hch : cmd.child = false) {first' : Bool} {c₁ c₂ : Conf μ κ H}
    (henter : enterBlock env c₁ m cmd first = .ok (first', c₂)) :
    ∃ c', c₁.runInitMod env m cmd = some (.ok, c') ∧ c'.register m (c'.topCtx env) = some c₂ ∧
      first' = !c'.used m := by
  rw [enterBlock, if_neg (by simp [hch])] at henter
  cases hinit : c₁.runInitMod env m cmd with
  | none =>
    rw [hinit] at henter
    cases henter
  | some r =>
    obtain ⟨r, c'⟩ := r
    rw [hinit] at henter
    cases r with
    | pass =>
      change (defined c'.dropBlock).bind (fun c => .error (.pass first c)) = _ at henter
      cases hdrop : c'.dropBlock <;> rw [hdrop] at henter <;> cases henter
    | error => cases henter
    | ok =>
      change (defined (c'.register m (c'.topCtx env))).bind (fun c => .ok (!c'.used m, c)) = _
        at henter
      cases hreg : c'.register m (c'.topCtx env) with
      | none =>
        rw [hreg] at henter
        cases henter
      | some c₃ =>
        rw [hreg] at henter
        cases henter
        exact ⟨c', rfl, hreg, rfl⟩

lemma leavesNoTrace_own_iff (hch : cmd.child = false) {first' : Bool} {c₁ c₂ : Conf μ κ H}
    (henter : enterBlock env (c.stPush m cmd) m cmd first = .ok (first', c₁))
    (hcall : c₁.runCall env m cmd (c₁.topCtx env) = some (.pass, c₂)) (st : Status) :
    LeavesNoTrace env c m cmd st first ↔ c.used m = true ∨ c.ctxs m = .released := by
  have hp : cmd.isParam = false := by rw [FsCmd.isParam, hch, Bool.false_and]
  obtain ⟨c', hinit, hreg, rfl⟩ := enterBlock_own hch henter
  obtain ⟨hpushed, hused, hctxs⟩ := runInitMod_pushed (Pushed.stPush c m cmd) hinit
  have hused' : c'.used = c.used := hused
  have hctxs' : c'.ctxs = c.ctxs := hctxs
  have hpushed₁ : Pushed c c₁ := by
    rw [Conf.register] at hreg
    split at hreg
    · cases hreg
      exact hpushed.congr rfl rfl rfl
    · cases hreg
  have hiff := restores_register_iff hreg
  rw [hused', hctxs'] at hiff
  rw [leavesNoTrace_iff_restores hp henter hpushed₁ hcall, hused', ← hiff]
  simp only [Restores, hused', hctxs']

lemma leavesNoTrace_child_iff (hch : cmd.child = true) (hp : cmd.isParam = false) {first' : Bool}
    {c₁ c₂ : Conf μ κ H}
    (henter : enterBlock env (c.stPush m cmd) m cmd first = .ok (first', c₁))
    (hcall : c₁.runCall env m cmd (c₁.topCtx env) = some (.pass, c₂)) (st : Status) :
    LeavesNoTrace env c m cmd st first ↔
      c.ctxs m = .null ∧ (first = true → c.used m = false) := by
  have hpushed : Pushed c ((c.stPush m cmd).storeTop ((c.stPush m cmd).subtopCtx env)) :=
    (Pushed.stPush c m cmd).storeTop _
  have heq := henter
  rw [enterBlock, if_pos hch] at heq
  cases heq
  rw [leavesNoTrace_iff_restores hp henter hpushed hcall, ← restores_self_iff]
  exact ⟨fun h => h.congr rfl rfl, fun h => h.congr rfl rfl⟩

/-- A command that passes leaves no trace exactly when what the code takes back is what it has
done, whatever the local variable `first` holds. -/
theorem leavesNoTrace_iff_reversible (h : Passes env c m cmd first) (st : Status) :
    LeavesNoTrace env c m cmd st first ↔ Reversible env c m cmd first := by
  rw [Reversible]
  cases h with
  | param hp hne hcall =>
    rw [if_pos hp]
    exact iff_of_true (leavesNoTrace_param hp hne hcall st) trivial
  | initMod hch hinit =>
    have hp : cmd.isParam = false := by rw [FsCmd.isParam, hch, Bool.false_and]
    rw [if_neg (by simp [hp]), if_neg (by simp [hch])]
    exact iff_of_true (leavesNoTrace_init hch hinit st) (.inl hinit)
  | call hp henter hcall =>
    rw [if_neg (by simp [hp])]
    cases hch : cmd.child with
    | true =>
      rw [if_pos rfl]
      exact leavesNoTrace_child_iff hch hp henter hcall st
    | false =>
      have hno : ¬ InitPasses env c m cmd := by
        rintro ⟨c', hinit⟩
        obtain ⟨c'', hinit', -⟩ := enterBlock_own hch henter
        rw [hinit] at hinit'
        cases hinit'
      rw [if_neg (by simp), leavesNoTrace_own_iff hch henter hcall, or_iff_right hno]

end

/-! ### Modules that only answer -/

/-- A table of modules without methods, whose callbacks are their answers. -/
def answering (mods : List (FsMod Unit Ret)) : Env Unit Ret Unit where
  globalMods := mods
  methods := fun _ => ⟨none, none⟩
  call := fun r _ _ => some (r, ())
  stale := fun _ _ => .null
  uninit := fun _ => .null
  first := fun _ => false

/-- An own block that accepts, and a sub-block that passes. -/
def ownAndSub : FsMod Unit Ret where
  id := ()
  commands := [⟨fsStr "own", .ok, true, false⟩, ⟨fsStr "sub", .pass, true, true⟩]

/-- The engine before a directive with one word. -/
def Conf.atWord (word : String) : Conf Unit Ret Unit :=
  .start ((fsAllocArr FsStr 3 tokensCapa_pos).push ⟨bytes word, (bytes word).length + 1⟩) ()

/-- The sub-block, before the module has been used. -/
theorem leavesNoTrace_iff_reversible_unused :
    LeavesNoTrace (answering [ownAndSub]) (.atWord "sub") () ⟨fsStr "sub", .pass, true, true⟩
        .blockStart true ↔
      Reversible (answering [ownAndSub]) (.atWord "sub") () ⟨fsStr "sub", .pass, true, true⟩ true :=
  leavesNoTrace_iff_reversible (.call rfl rfl rfl) .blockStart

/-- The sub-block, inside the own block: the context of the own block is taken out of the
registry. -/
theorem not_leavesNoTrace :
    ¬ ∀ (env : Env Unit Ret Unit) (c₀ c : Conf Unit Ret Unit) (m : Unit) (cmd : FsCmd Ret)
        (first : Bool), fsConfHandle env c₀ .blockStart = .ok c → Passes env c m cmd first →
          LeavesNoTrace env c m cmd .blockStart first := by
  intro h
  have hpass := h (answering [ownAndSub]) (.atWord "own") _ () ⟨fsStr "sub", .pass, true, true⟩
    false rfl (.call rfl rfl rfl)
  obtain ⟨hnull, -⟩ := (leavesNoTrace_child_iff rfl rfl rfl rfl .blockStart).mp hpass
  cases hnull

end Folksong
