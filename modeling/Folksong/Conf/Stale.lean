import Folksong.Conf.Attempts

/-!
# Words of earlier directives

The array of tokens is emptied by setting its count to zero, so the words of earlier directives
stay in its slots. The engine itself only reads the first slot: everything else it does commutes
with an exchange of the array, as far as the modules do not look at it.
-/

namespace Folksong

variable {μ κ H : Type}

/-- The arrays agree but for the slots that are not in use. -/
structure FsArr.Agrees {α : Type} (arr arr' : FsArr α) : Prop where
  gen : arr'.gen = arr.gen
  eleCapa : arr'.eleCapa = arr.eleCapa
  eleCount : arr'.eleCount = arr.eleCount
  nth : ∀ i, i < arr.eleCount → arr'.nth i = arr.nth i

lemma FsArr.Agrees.refl {α : Type} (arr : FsArr α) : arr.Agrees arr :=
  ⟨rfl, rfl, rfl, fun _ _ => rfl⟩

/-- A store into a slot that is not in use. -/
lemma FsArr.agrees_write {α : Type} {arr : FsArr α} {i : Nat} (h : arr.eleCount ≤ i) (x : α) :
    arr.Agrees (arr.write i x) := by
  refine ⟨rfl, ?_, rfl, fun j hj => arr.write_nth_ne x (by omega)⟩
  simp [FsArr.eleCapa, FsArr.write]

/-- The slot `i` as it is before anything is stored there. -/
def FsArr.unwritten {α : Type} (arr : FsArr α) (i : Nat) : FsArr α where
  gen := arr.gen
  elems := arr.elems.set i none
  eleCount := arr.eleCount
  capa_pos := by simpa using arr.capa_pos
  count_le := by simpa using arr.count_le

lemma FsArr.agrees_unwritten {α : Type} {arr : FsArr α} {i : Nat} (h : arr.eleCount ≤ i) :
    arr.Agrees (arr.unwritten i) := by
  refine ⟨rfl, by simp [FsArr.eleCapa, FsArr.unwritten], rfl, fun j hj => ?_⟩
  have hne : i ≠ j := by omega
  simp [FsArr.nth, FsArr.unwritten, List.getElem?_set_ne hne]

lemma FsArr.unwritten_nth {α : Type} (arr : FsArr α) (i : Nat) :
    (arr.unwritten i).nth i = none := by
  by_cases hi : i < arr.elems.length
  · simp [FsArr.nth, FsArr.unwritten, hi]
  · simp [FsArr.nth, FsArr.unwritten, Nat.le_of_not_lt hi]

/-- The engine with other tokens. -/
def Conf.retoken (c : Conf μ κ H) (t : FsArr FsStr) : Conf μ κ H := { c with tokens := t }

def Exit.retoken (t : FsArr FsStr) : Exit μ κ H → Exit μ κ H
  | .pass first c => .pass first (c.retoken t)
  | .error c => .error (c.retoken t)
  | .undefined => .undefined

/-- The outcome of a directive, with other tokens. -/
def retokenResult (t : FsArr FsStr) :
    Except (Exit μ κ H) (Conf μ κ H) → Except (Exit μ κ H) (Conf μ κ H)
  | .ok c => .ok (c.retoken t)
  | .error e => .error (e.retoken t)

/-- The entry of a block, with other tokens. -/
def retokenEntry (t : FsArr FsStr) :
    Except (Exit μ κ H) (Bool × Conf μ κ H) → Except (Exit μ κ H) (Bool × Conf μ κ H)
  | .ok r => .ok (r.1, r.2.retoken t)
  | .error e => .error (e.retoken t)

@[simp] lemma retokenResult_retokenResult (t t' : FsArr FsStr)
    (r : Except (Exit μ κ H) (Conf μ κ H)) :
    retokenResult t (retokenResult t' r) = retokenResult t r := by
  cases r with
  | ok c => rfl
  | error e => cases e <;> rfl

/-- The environment as it is for an engine with these tokens. -/
def Env.over (env : Env μ κ H) (t : FsArr FsStr) : Env μ κ H where
  globalMods := env.globalMods
  methods := fun m =>
    ⟨(env.methods m).initMod.map fun f c cmd => f (c.retoken t) cmd,
      (env.methods m).initModCompleted.map fun f c p => f (c.retoken t) p⟩
  call := fun k c p => env.call k (c.retoken t) p
  stale := fun c s => env.stale (c.retoken t) s
  uninit := env.uninit
  first := fun c => env.first (c.retoken t)

section

variable {env : Env μ κ H} (t : FsArr FsStr) (c : Conf μ κ H)

lemma topCtx_retoken : (c.retoken t).topCtx env = c.topCtx (env.over t) := rfl

lemma storeTop_retoken (p : Ptr) : (c.retoken t).storeTop p = (c.storeTop p).retoken t := by
  rw [Conf.storeTop, Conf.storeTop, show (c.retoken t).stMod = c.stMod from rfl]
  split <;> rfl

lemma runCall_retoken (m : μ) (cmd : FsCmd κ) (p : Ptr) :
    (c.retoken t).runCall env m cmd p
      = (c.runCall (env.over t) m cmd p).map fun r => (r.1, r.2.retoken t) := by
  rw [Conf.runCall, Conf.runCall, Option.map_map]
  rfl

lemma runInitMod_retoken (m : μ) (cmd : FsCmd κ) :
    (c.retoken t).runInitMod env m cmd
      = (c.runInitMod (env.over t) m cmd).map fun r => (r.1, r.2.retoken t) := by
  have hmod : ((env.over t).methods m).initMod
      = (env.methods m).initMod.map fun f c cmd => f (c.retoken t) cmd := rfl
  rw [Conf.runInitMod, Conf.runInitMod, hmod]
  cases (env.methods m).initMod with
  | none => rfl
  | some f =>
    simp only [Option.map_some, Option.map_map]
    refine congrArg (Option.map · _) (funext fun r => ?_)
    obtain ⟨r, p, heap⟩ := r
    cases p with
    | none => rfl
    | some p =>
      simp only [Option.elim, storeTop_retoken, Function.comp]
      rfl

lemma runCompleted_retoken (m : μ) (p : Ptr) :
    (c.retoken t).runCompleted env m p
      = (c.runCompleted (env.over t) m p).map fun r => (r.1, r.2.retoken t) := by
  have hmod : ((env.over t).methods m).initModCompleted
      = (env.methods m).initModCompleted.map fun f c p => f (c.retoken t) p := rfl
  rw [Conf.runCompleted, Conf.runCompleted, hmod]
  cases (env.methods m).initModCompleted with
  | none => rfl
  | some f =>
    simp only [Option.map_some, Option.map_map]
    rfl

lemma dropBlock_retoken : (c.retoken t).dropBlock = c.dropBlock.map (Conf.retoken · t) := by
  rw [Conf.dropBlock, Conf.dropBlock, Option.map_map]
  rfl

variable (m : μ) (cmd : FsCmd κ) (st : Status) (first : Bool)

lemma tryParam_retoken :
    tryParam env (c.retoken t) m cmd first
      = retokenResult t (tryParam (env.over t) c m cmd first) := by
  rw [tryParam, tryParam, topCtx_retoken, runCall_retoken,
    show (c.retoken t).stMod = c.stMod from rfl]
  split_ifs
  · rfl
  · cases c.runCall (env.over t) m cmd (c.topCtx (env.over t)) with
    | none => rfl
    | some r =>
      obtain ⟨r, c₁⟩ := r
      cases r <;> rfl

lemma leaveBlock_retoken :
    leaveBlock env (c.retoken t) m cmd st
      = retokenResult t (leaveBlock (env.over t) c m cmd st) := by
  simp only [leaveBlock, topCtx_retoken, runCompleted_retoken]
  split_ifs
  · cases c.runCompleted (env.over t) m (c.topCtx (env.over t)) with
    | none => rfl
    | some r =>
      obtain ⟨r, c₁⟩ := r
      cases r <;> rfl
  · rfl

lemma closeBlock_retoken :
    closeBlock env (c.retoken t) = retokenResult t (closeBlock (env.over t) c) := by
  simp only [closeBlock, topCtx_retoken, runCompleted_retoken,
    show (c.retoken t).stMod = c.stMod from rfl]
  split
  next => rfl
  next frame _ _ =>
    split_ifs
    · rfl
    · cases c.runCompleted (env.over t) frame.mod (c.topCtx (env.over t)) with
      | none => rfl
      | some r =>
        obtain ⟨r, c₁⟩ := r
        cases r <;> rfl

end

section

variable [DecidableEq μ] {env : Env μ κ H} (t : FsArr FsStr) (c : Conf μ κ H)

lemma register_retoken (m : μ) (p : Ptr) :
    (c.retoken t).register m p = (c.register m p).map (Conf.retoken · t) := by
  have hused : (c.retoken t).used = c.used := rfl
  have hctxs : (c.retoken t).ctxs = c.ctxs := rfl
  simp only [Conf.register, hused, hctxs]
  split <;> rfl

lemma unregister_retoken (m : μ) (first : Bool) :
    (c.retoken t).unregister m first = (c.unregister m first).map (Conf.retoken · t) := by
  simp only [Conf.unregister, Option.map_map]
  rfl

variable (m : μ) (cmd : FsCmd κ) (st : Status) (first : Bool)

lemma enterBlock_retoken :
    enterBlock env (c.retoken t) m cmd first
      = retokenEntry t (enterBlock (env.over t) c m cmd first) := by
  rw [enterBlock, enterBlock]
  split_ifs
  · exact congrArg _ (congrArg _ (storeTop_retoken t c _))
  · rw [runInitMod_retoken]
    cases c.runInitMod (env.over t) m cmd with
    | none => rfl
    | some r =>
      obtain ⟨r, c₁⟩ := r
      cases r with
      | error => rfl
      | pass =>
        change (defined (c₁.retoken t).dropBlock).bind (fun c => .error (.pass first c))
          = retokenEntry t ((defined c₁.dropBlock).bind fun c => .error (.pass first c))
        rw [dropBlock_retoken]
        cases c₁.dropBlock <;> rfl
      | ok =>
        change (defined ((c₁.retoken t).register m (c₁.topCtx (env.over t)))).bind
            (fun c => .ok (!c₁.used m, c))
          = retokenEntry t ((defined (c₁.register m (c₁.topCtx (env.over t)))).bind
              fun c => .ok (!c₁.used m, c))
        rw [register_retoken]
        cases c₁.register m (c₁.topCtx (env.over t)) <;> rfl

lemma callBlock_retoken :
    callBlock env (c.retoken t) m cmd first
      = retokenResult t (callBlock (env.over t) c m cmd first) := by
  rw [callBlock, callBlock, topCtx_retoken, runCall_retoken]
  cases c.runCall (env.over t) m cmd (c.topCtx (env.over t)) with
  | none => rfl
  | some r =>
    obtain ⟨r, c₁⟩ := r
    cases r with
    | ok => rfl
    | error => rfl
    | pass =>
      change (defined (c₁.retoken t).dropBlock).bind (fun c =>
          (defined (c.unregister m first)).bind fun c => .error (.pass first c))
        = retokenResult t ((defined c₁.dropBlock).bind fun c =>
          (defined (c.unregister m first)).bind fun c => .error (.pass first c))
      rw [dropBlock_retoken]
      cases c₁.dropBlock with
      | none => rfl
      | some c₂ =>
        change (defined ((c₂.retoken t).unregister m first)).bind (fun c => .error (.pass first c))
          = retokenResult t ((defined (c₂.unregister m first)).bind fun c => .error (.pass first c))
        rw [unregister_retoken]
        cases c₂.unregister m first <;> rfl

lemma tryBlock_retoken :
    tryBlock env (c.retoken t) m cmd st first
      = retokenResult t (tryBlock (env.over t) c m cmd st first) := by
  have hpush : (c.retoken t).stPush m cmd = (c.stPush m cmd).retoken t := rfl
  rw [tryBlock, tryBlock, hpush, enterBlock_retoken]
  cases enterBlock (env.over t) (c.stPush m cmd) m cmd first with
  | error e => rfl
  | ok r =>
    obtain ⟨first, c₁⟩ := r
    change (callBlock env (c₁.retoken t) m cmd first).bind (fun c => leaveBlock env c m cmd st)
      = retokenResult t ((callBlock (env.over t) c₁ m cmd first).bind fun c =>
          leaveBlock (env.over t) c m cmd st)
    rw [callBlock_retoken]
    cases callBlock (env.over t) c₁ m cmd first with
    | error e => rfl
    | ok c₂ => exact leaveBlock_retoken t c₂ m cmd st

lemma tryCmd_retoken :
    tryCmd env (c.retoken t) m cmd st first
      = retokenResult t (tryCmd (env.over t) c m cmd st first) := by
  rw [tryCmd, tryCmd]
  split_ifs
  · exact tryParam_retoken t c m cmd first
  · exact tryBlock_retoken t c m cmd st first

lemma tryAll_retoken (name : FsStr) (cmds : List (μ × FsCmd κ)) :
    tryAll env name st cmds first (c.retoken t)
      = retokenResult t (tryAll (env.over t) name st cmds first c) := by
  induction cmds generalizing first c with
  | nil => rfl
  | cons p cmds ih =>
    obtain ⟨m, cmd⟩ := p
    rw [tryAll_cons, tryAll_cons, tryCmd_retoken]
    split_ifs
    · cases tryCmd (env.over t) c m cmd st first with
      | ok c₁ => rfl
      | error e =>
        cases e with
        | pass first₁ c₁ => exact ih c₁ first₁
        | error c₁ => rfl
        | undefined => rfl
    · exact ih c first

/-- The engine commutes with an exchange of the tokens that leaves the name of the directive. -/
lemma fsConfHandle_retoken (hname : t.nth 0 = c.tokens.nth 0) :
    fsConfHandle env (c.retoken t) st = retokenResult t (fsConfHandle (env.over t) c st) := by
  rw [fsConfHandle, fsConfHandle]
  split_ifs
  · exact closeBlock_retoken t c
  · rw [show (c.retoken t).tokens = t from rfl, hname]
    cases c.tokens.nth 0 with
    | none => rfl
    | some name => exact tryAll_retoken t c st (env.first (c.retoken t)) name env.candidates

/-- Where the modules do the same with both arrays, so does the engine. -/
lemma fsConfHandle_same (hname : t.nth 0 = c.tokens.nth 0)
    (h : fsConfHandle (env.over t) c st = fsConfHandle (env.over c.tokens) c st) :
    fsConfHandle env (c.retoken t) st = retokenResult t (fsConfHandle env c st) := by
  have hself : fsConfHandle env c st
      = retokenResult c.tokens (fsConfHandle (env.over c.tokens) c st) :=
    fsConfHandle_retoken c.tokens c st rfl
  rw [fsConfHandle_retoken t c st hname, hself, retokenResult_retokenResult, h]

end

/-! ### Environments that agree -/

/-- The environments differ in their calls only. -/
structure Env.Similar (env env' : Env μ κ H) : Prop where
  globalMods : env'.globalMods = env.globalMods
  methods : env'.methods = env.methods
  stale : env'.stale = env.stale
  uninit : env'.uninit = env.uninit
  first : env'.first = env.first

/-- Engines that agree but for the slots of `tokens` that are not in use handle the directive in the
same way, and a directive without words calls no command. -/
structure Unleaked [DecidableEq μ] (env : Env μ κ H) (c : Conf μ κ H) (st : Status) : Prop where
  outcome : ∀ t, c.tokens.Agrees t →
    fsConfHandle env (c.retoken t) st = retokenResult t (fsConfHandle env c st)
  silent : c.tokens.eleCount = 0 → ∀ t, c.tokens.Agrees t →
    ∀ a ∈ handleAttempts env (c.retoken t) st, a.invokes env = false

section

variable {env env' : Env μ κ H} {c : Conf μ κ H} {m : μ} {cmd : FsCmd κ} {first : Bool}

namespace Env.Similar

lemma topCtx (h : env.Similar env') (c : Conf μ κ H) : c.topCtx env' = c.topCtx env := by
  simp only [Conf.topCtx, Conf.deref, Env.slotValue, h.stale, h.uninit]

lemma subtopCtx (h : env.Similar env') (c : Conf μ κ H) :
    c.subtopCtx env' = c.subtopCtx env := by
  simp only [Conf.subtopCtx, Conf.deref, Env.slotValue, h.stale, h.uninit]

end Env.Similar

/-- A closing brace calls no command. -/
lemma closeBlock_similar (h : env.Similar env') : closeBlock env' c = closeBlock env c := by
  simp only [closeBlock, Conf.runCompleted, h.methods, h.topCtx]

/-- A parameter only has to be called in the same way on the engine it is tried on. -/
lemma tryParam_similar (h : env.Similar env')
    (hcall : env'.call cmd.call c (c.topCtx env) = env.call cmd.call c (c.topCtx env)) :
    tryParam env' c m cmd first = tryParam env c m cmd first := by
  simp only [tryParam, Conf.runCall, h.topCtx, hcall]

variable [DecidableEq μ] {st : Status}

lemma tryCmd_similar (h : env.Similar env') (hcall : env'.call cmd.call = env.call cmd.call) :
    tryCmd env' c m cmd st first = tryCmd env c m cmd st first := by
  simp only [tryCmd, tryParam, tryBlock, enterBlock, callBlock, leaveBlock, Conf.runCall,
    Conf.runInitMod, Conf.runCompleted, hcall, h.methods, h.topCtx, h.subtopCtx]

/-- The loops do the same when their first command does, and the others on what it leaves. -/
lemma tryAll_cons_similar {name : FsStr} {cmds : List (μ × FsCmd κ)}
    (hmatch : cmd.matches name st)
    (htry : tryCmd env' c m cmd st first = tryCmd env c m cmd st first)
    (hrest : ∀ first₁ c₁, tryCmd env c m cmd st first = .error (.pass first₁ c₁) →
      tryAll env' name st cmds first₁ c₁ = tryAll env name st cmds first₁ c₁) :
    tryAll env' name st ((m, cmd) :: cmds) first c
      = tryAll env name st ((m, cmd) :: cmds) first c := by
  rw [tryAll_cons, tryAll_cons, if_pos hmatch, if_pos hmatch, htry]
  cases hr : tryCmd env c m cmd st first with
  | ok c₁ => rfl
  | error e =>
    cases e with
    | error c₁ => rfl
    | undefined => rfl
    | pass first₁ c₁ => exact hrest first₁ c₁ hr

end

end Folksong
