import Folksong.Conf.Depth

/-!
# The log is a record only

`Conf.log` belongs to the model: the code has no such field. Where the callbacks and the memory
nobody has written do not depend on it either, two engines that differ in their logs alone go on
in the same way. Commands that pass may differ between the logs.
-/

namespace Folksong

variable {μ κ H : Type}

/-- The engine with another log. -/
def Conf.relog (c : Conf μ κ H) (log : List (Event μ κ)) : Conf μ κ H := { c with log := log }

@[simp] lemma relog_tokens (c : Conf μ κ H) (log : List (Event μ κ)) :
    (c.relog log).tokens = c.tokens := rfl

@[simp] lemma relog_heap (c : Conf μ κ H) (log : List (Event μ κ)) :
    (c.relog log).heap = c.heap := rfl

/-- The environment does not look at the log. -/
structure Env.Blind (env : Env μ κ H) : Prop where
  call : ∀ k c log p, env.call k (c.relog log) p = env.call k c p
  initMod : ∀ m f, (env.methods m).initMod = some f → ∀ c log cmd, f (c.relog log) cmd = f c cmd
  completed : ∀ m f, (env.methods m).initModCompleted = some f →
    ∀ c log p, f (c.relog log) p = f c p
  stale : ∀ c log s, env.stale (c.relog log) s = env.stale c s
  first : ∀ c log, env.first (c.relog log) = env.first c

/-- A module or a command has declined. -/
def Event.isPass : Event μ κ → Bool
  | .initMod _ .pass | .call _ _ _ .pass => true
  | _ => false

/-- The log without what has declined. -/
def Conf.happened (c : Conf μ κ H) : List (Event μ κ) := c.log.filter fun e => !e.isPass

/-- The callback of a command has accepted. -/
def Event.isCallOk : Event μ κ → Bool
  | .call _ _ _ .ok => true
  | _ => false

/-- The callbacks that have accepted, with their contexts, in the order of the calls. -/
def Conf.acceptedCalls (c : Conf μ κ H) : List (Event μ κ) := c.log.filter Event.isCallOk

/-- The engines are the same but for what has declined. -/
structure Conf.Alike (c c' : Conf μ κ H) : Prop where
  state : c' = c.relog c'.log
  happened : c'.happened = c.happened

/-- What remains to be seen of an engine that has rejected a directive. -/
structure Conf.Same (c c' : Conf μ κ H) : Prop where
  used : c'.used = c.used
  ctxs : c'.ctxs = c.ctxs
  heap : c'.heap = c.heap
  happened : c'.happened = c.happened

/-- The exits are of one kind, on engines that are alike. -/
inductive Exit.Alike : Exit μ κ H → Exit μ κ H → Prop where
  | pass {first c c'} : c.Alike c' → Alike (.pass first c) (.pass first c')
  | error {c c'} : c.Alike c' → Alike (.error c) (.error c')
  | undefined : Alike .undefined .undefined

namespace Conf

variable {c c' c'' : Conf μ κ H}

lemma Alike.refl (c : Conf μ κ H) : c.Alike c := ⟨rfl, rfl⟩

lemma Alike.symm (h : c.Alike c') : c'.Alike c := by
  refine ⟨?_, h.happened.symm⟩
  rw [h.state]
  rfl

lemma Alike.trans (h : c.Alike c') (h' : c'.Alike c'') : c.Alike c'' := by
  refine ⟨?_, h'.happened.trans h.happened⟩
  rw [h'.state, h.state]
  rfl

lemma Alike.tokens (h : c.Alike c') : c'.tokens = c.tokens := by
  rw [h.state]
  rfl

lemma Alike.stMod (h : c.Alike c') : c'.stMod = c.stMod := by
  rw [h.state]
  rfl

lemma Alike.same (h : c.Alike c') : c.Same c' := by
  constructor
  · rw [h.state]
    rfl
  · rw [h.state]
    rfl
  · rw [h.state]
    rfl
  · exact h.happened

lemma Same.refl (c : Conf μ κ H) : c.Same c := ⟨rfl, rfl, rfl, rfl⟩

lemma Same.symm (h : c.Same c') : c'.Same c :=
  ⟨h.used.symm, h.ctxs.symm, h.heap.symm, h.happened.symm⟩

lemma Same.trans (h : c.Same c') (h' : c'.Same c'') : c.Same c'' :=
  ⟨h'.used.trans h.used, h'.ctxs.trans h.ctxs, h'.heap.trans h.heap,
    h'.happened.trans h.happened⟩

/-- What has declined has not been accepted. -/
lemma Same.acceptedCalls (h : c.Same c') : c'.acceptedCalls = c.acceptedCalls := by
  have hfilter : ∀ c : Conf μ κ H, c.acceptedCalls = c.happened.filter Event.isCallOk := by
    intro c
    rw [Conf.acceptedCalls, Conf.happened, List.filter_filter]
    refine List.filter_congr fun e _ => ?_
    cases e with
    | call m cmd ctx r => cases r <;> rfl
    | _ => rfl
  rw [hfilter, hfilter, h.happened]

lemma happened_emit (c : Conf μ κ H) (e : Event μ κ) :
    (c.emit e).happened = if e.isPass then c.happened else c.happened ++ [e] := by
  cases h : e.isPass <;> simp [happened, emit, h]

/-- Declining leaves nothing but a record. -/
lemma alike_emit (c : Conf μ κ H) (e : Event μ κ) (he : e.isPass) : c.Alike (c.emit e) := by
  refine ⟨rfl, ?_⟩
  rw [happened_emit, if_pos he]

/-- What commutes with a change of the log keeps engines alike. -/
lemma Alike.map {f : Conf μ κ H → Conf μ κ H} (h : c.Alike c')
    (hf : ∀ log, f (c.relog log) = (f c).relog log) (hlog : (f c).log = c.log) :
    (f c).Alike (f c') := by
  have heq : f c' = (f c).relog c'.log := by
    rw [← hf, ← h.state]
  constructor
  · rw [heq]
    rfl
  · rw [heq]
    simp only [Conf.happened, relog, hlog]
    exact h.happened

lemma Alike.emit (h : c.Alike c') (e : Event μ κ) : (c.emit e).Alike (c'.emit e) := by
  constructor
  · rw [h.state]
    rfl
  · rw [happened_emit, happened_emit, h.happened]

lemma Alike.stPush (h : c.Alike c') (m : μ) (cmd : FsCmd κ) :
    (c.stPush m cmd).Alike (c'.stPush m cmd) :=
  h.map (f := fun c => c.stPush m cmd) (fun _ => rfl) rfl

lemma Alike.stPop (h : c.Alike c') : c.stPop.Alike c'.stPop :=
  h.map (f := Conf.stPop) (fun _ => rfl) rfl

lemma storeTop_relog (c : Conf μ κ H) (p : Ptr) (log : List (Event μ κ)) :
    (c.relog log).storeTop p = (c.storeTop p).relog log := by
  simp only [Conf.storeTop, relog]
  split <;> rfl

lemma Alike.storeTop (h : c.Alike c') (p : Ptr) : (c.storeTop p).Alike (c'.storeTop p) := by
  refine h.map (f := fun c => c.storeTop p) (storeTop_relog c p) ?_
  simp only [Conf.storeTop]
  split <;> rfl

lemma Alike.take (h : c.Alike c') (l : Taking) : (c.take l).Alike (c'.take l) :=
  h.map (f := fun c => c.take l) (fun _ => rfl) rfl

end Conf

section

variable {env : Env μ κ H} {c c' : Conf μ κ H}

lemma deref_alike (henv : env.Blind) (h : c.Alike c') (s : Slot) :
    c'.deref env s = c.deref env s := by
  rw [h.state, Conf.deref, henv.stale]
  rfl

lemma topCtx_alike (henv : env.Blind) (h : c.Alike c') : c'.topCtx env = c.topCtx env := by
  rw [Conf.topCtx, Conf.topCtx, h.stMod]
  split
  · exact deref_alike henv h _
  · rfl

lemma subtopCtx_alike (henv : env.Blind) (h : c.Alike c') :
    c'.subtopCtx env = c.subtopCtx env := by
  rw [Conf.subtopCtx, Conf.subtopCtx, h.stMod]
  split
  · exact deref_alike henv h _
  · rfl

/-- Two answers of a module, with engines that are alike. -/
def AlikeAnswers (r r' : Ret × Conf μ κ H) : Prop := r'.1 = r.1 ∧ r.2.Alike r'.2

lemma runCall_alike (henv : env.Blind) (h : c.Alike c') (m : μ) (cmd : FsCmd κ) (p : Ptr) :
    Option.Rel AlikeAnswers (c.runCall env m cmd p) (c'.runCall env m cmd p) := by
  have hcall : env.call cmd.call c' p = env.call cmd.call c p := by
    rw [h.state]
    exact henv.call _ _ _ _
  rw [Conf.runCall, Conf.runCall, hcall]
  cases env.call cmd.call c p with
  | none => exact .none
  | some r =>
    refine .some ⟨rfl, Conf.Alike.emit ?_ _⟩
    exact h.map (f := fun c => { c with heap := r.2 }) (fun _ => rfl) rfl

lemma runInitMod_alike (henv : env.Blind) (h : c.Alike c') (m : μ) (cmd : FsCmd κ) :
    Option.Rel AlikeAnswers (c.runInitMod env m cmd) (c'.runInitMod env m cmd) := by
  rw [Conf.runInitMod, Conf.runInitMod]
  cases hf : (env.methods m).initMod with
  | none => exact .some ⟨rfl, h⟩
  | some f =>
    have hcall : f c' cmd = f c cmd := by
      rw [h.state]
      exact henv.initMod m f hf _ _ _
    dsimp only
    rw [hcall]
    cases f c cmd with
    | none => exact .none
    | some r =>
      refine .some ⟨rfl, Conf.Alike.emit ?_ _⟩
      have hstore : (r.2.1.elim c c.storeTop).Alike (r.2.1.elim c' c'.storeTop) := by
        cases r.2.1 with
        | none => exact h
        | some p => exact h.storeTop p
      exact hstore.map (f := fun c => { c with heap := r.2.2 }) (fun _ => rfl) rfl

lemma runCompleted_alike (henv : env.Blind) (h : c.Alike c') (m : μ) (p : Ptr) :
    Option.Rel AlikeAnswers (c.runCompleted env m p) (c'.runCompleted env m p) := by
  rw [Conf.runCompleted, Conf.runCompleted]
  cases hf : (env.methods m).initModCompleted with
  | none => exact .some ⟨rfl, h⟩
  | some f =>
    have hcall : f c' p = f c p := by
      rw [h.state]
      exact henv.completed m f hf _ _ _
    dsimp only
    rw [hcall]
    cases f c p with
    | none => exact .none
    | some r =>
      refine .some ⟨rfl, Conf.Alike.emit ?_ _⟩
      exact h.map (f := fun c => { c with heap := r.2 }) (fun _ => rfl) rfl

/-- An operation that does not look at the log, and may have no defined result. -/
lemma Conf.Alike.mapOption {f : Conf μ κ H → Option (Conf μ κ H)} (h : c.Alike c')
    (hf : ∀ log, f (c.relog log) = (f c).map fun c => c.relog log)
    (hlog : ∀ c₁, f c = some c₁ → c₁.log = c.log) : Option.Rel Conf.Alike (f c) (f c') := by
  rw [h.state, hf]
  cases hc : f c with
  | none => exact .none
  | some c₁ =>
    refine .some ⟨rfl, ?_⟩
    simp only [Conf.happened, Conf.relog, hlog c₁ hc]
    exact h.happened

lemma dropBlock_alike (h : c.Alike c') : Option.Rel Conf.Alike c.dropBlock c'.dropBlock := by
  refine h.mapOption (f := Conf.dropBlock) (fun log => ?_) fun c₁ hc₁ => ?_
  · simp only [Conf.dropBlock, Conf.relog, Option.map_map]
    rfl
  · obtain ⟨ctx, -, rfl⟩ := Option.map_eq_some_iff.mp hc₁
    rfl

/-! ### Results -/

lemma both_defined {α β : Type} {R : α → β → Prop} {o : Option α} {o' : Option β}
    (h : Option.Rel R o o') :
    (defined o : Except (Exit μ κ H) α).Both R Exit.Alike (defined o') := by
  cases h with
  | none => exact .error .undefined
  | some h => exact .ok h

/-- What is done after a module has answered. -/
lemma both_answered {α : Type} {R : α → α → Prop} {o o' : Option (Ret × Conf μ κ H)}
    {f f' : Ret × Conf μ κ H → Except (Exit μ κ H) α} (h : Option.Rel AlikeAnswers o o')
    (hf : ∀ r c c', c.Alike c' → (f (r, c)).Both R Exit.Alike (f' (r, c'))) :
    (defined o >>= f).Both R Exit.Alike (defined o' >>= f') := by
  apply (both_defined h).bind
  rintro ⟨r, c⟩ ⟨r', c'⟩ ⟨hr, hc⟩
  obtain rfl : r' = r := hr
  exact hf r' c c' hc

/-- Results of a command that is tried. -/
abbrev AlikeResults : Except (Exit μ κ H) (Conf μ κ H) → Except (Exit μ κ H) (Conf μ κ H) → Prop :=
  Except.Both Conf.Alike Exit.Alike

/-- How a directive is rejected, on engines of which the same remains. -/
inductive Exit.Same : Exit μ κ H → Exit μ κ H → Prop where
  | pass {first first' : Bool} {c c' : Conf μ κ H} :
      c.Same c' → Same (.pass first c) (.pass first' c')
  | error {c c' : Conf μ κ H} : c.Same c' → Same (.error c) (.error c')
  | undefined : Same .undefined .undefined

lemma Exit.Alike.same {e e' : Exit μ κ H} (h : e.Alike e') : e.Same e' := by
  cases h with
  | pass h => exact .pass h.same
  | error h => exact .error h.same
  | undefined => exact .undefined

/-- Results of a directive. -/
abbrev SameResults : Except (Exit μ κ H) (Conf μ κ H) → Except (Exit μ κ H) (Conf μ κ H) → Prop :=
  Except.Both Conf.Alike Exit.Same

lemma Exit.Same.symm {e e' : Exit μ κ H} (h : e.Same e') : e'.Same e := by
  cases h with
  | pass h => exact .pass h.symm
  | error h => exact .error h.symm
  | undefined => exact .undefined

lemma Exit.Same.trans {e e' e'' : Exit μ κ H} (h : e.Same e') (h' : e'.Same e'') :
    e.Same e'' := by
  cases h with
  | pass h =>
    cases h' with
    | pass h' => exact .pass (h.trans h')
  | error h =>
    cases h' with
    | error h' => exact .error (h.trans h')
  | undefined => exact h'

lemma SameResults.symm {r r' : Except (Exit μ κ H) (Conf μ κ H)} (h : SameResults r r') :
    SameResults r' r :=
  Except.Both.symm (fun _ _ h => h.symm) (fun _ _ h => h.symm) h

lemma SameResults.trans {r r' r'' : Except (Exit μ κ H) (Conf μ κ H)} (h : SameResults r r')
    (h' : SameResults r' r'') : SameResults r r'' :=
  Except.Both.trans (fun _ _ _ h h' => h.trans h') (fun _ _ _ h h' => h.trans h') h h'

lemma AlikeResults.same {r r' : Except (Exit μ κ H) (Conf μ κ H)} (h : AlikeResults r r') :
    SameResults r r' :=
  h.mono (fun _ _ h => h) fun _ _ h => h.same

/-! ### The branches -/

lemma tryParam_alike (henv : env.Blind) (h : c.Alike c') (m : μ) (cmd : FsCmd κ) (first : Bool) :
    AlikeResults (tryParam env c m cmd first) (tryParam env c' m cmd first) := by
  rw [tryParam, tryParam, h.stMod, topCtx_alike henv h]
  split_ifs with hempty
  · exact .error (.error h)
  · refine both_answered (runCall_alike henv h m cmd _) fun r c₁ c₁' h₁ => ?_
    cases r with
    | ok => exact .ok h₁
    | pass => exact .error (.pass h₁)
    | error => exact .error (.error h₁)

lemma leaveBlock_alike (henv : env.Blind) (h : c.Alike c') (m : μ) (cmd : FsCmd κ) (st : Status) :
    AlikeResults (leaveBlock env c m cmd st) (leaveBlock env c' m cmd st) := by
  simp only [leaveBlock, topCtx_alike henv h]
  split_ifs with hst
  · refine both_answered (runCompleted_alike henv h m _) fun r c₁ c₁' h₁ => ?_
    cases r with
    | ok => exact .ok (h₁.stPop.emit _)
    | pass => exact .error (.error h₁)
    | error => exact .error (.error h₁)
  · exact .ok (h.emit _)

lemma closeBlock_alike (henv : env.Blind) (h : c.Alike c') :
    SameResults (closeBlock env c) (closeBlock env c') := by
  simp only [closeBlock, h.stMod, topCtx_alike henv h]
  split
  next => exact .error (.error h.same)
  next frame _ _ =>
    split_ifs with hchild
    · exact .ok (h.stPop.emit _)
    · refine AlikeResults.same (both_answered (runCompleted_alike henv h frame.mod _)
        fun r c₁ c₁' h₁ => ?_)
      cases r with
      | ok => exact .ok (h₁.stPop.emit _)
      | pass => exact .error (.error h₁)
      | error => exact .error (.error h₁)

variable [DecidableEq μ]

lemma register_alike (h : c.Alike c') (m : μ) (p : Ptr) :
    Option.Rel Conf.Alike (c.register m p) (c'.register m p) := by
  refine h.mapOption (f := fun c => c.register m p) (fun log => ?_) fun c₁ hc₁ => ?_
  · cases hused : c.used m with
    | true => cases hctxs : c.ctxs m <;> simp [Conf.register, Conf.relog, hused, hctxs]
    | false => simp [Conf.register, Conf.relog, hused]
  · simp only [Conf.register] at hc₁
    split at hc₁ <;> cases hc₁
    rfl

lemma unregister_alike (h : c.Alike c') (m : μ) (first : Bool) :
    Option.Rel Conf.Alike (c.unregister m first) (c'.unregister m first) := by
  refine h.mapOption (f := fun c => c.unregister m first) (fun log => ?_) fun c₁ hc₁ => ?_
  · simp only [Conf.unregister, Conf.relog, Option.map_map]
    rfl
  · obtain ⟨ctxs, -, rfl⟩ := Option.map_eq_some_iff.mp hc₁
    rfl

/-- Engines behind the entry of a block, with the same value of `first`. -/
def AlikeEntries (r r' : Bool × Conf μ κ H) : Prop := r'.1 = r.1 ∧ r.2.Alike r'.2

/-- An own block is entered in the same way when `init_mod` gives the same answer. -/
lemma enterOwn_alike (henv : env.Blind) {m : μ} {cmd : FsCmd κ}
    (h : Option.Rel AlikeAnswers (c.runInitMod env m cmd) (c'.runInitMod env m cmd))
    (hch : cmd.child = false) (first : Bool) :
    (enterBlock env c m cmd first).Both AlikeEntries Exit.Alike
      (enterBlock env c' m cmd first) := by
  rw [enterBlock, enterBlock, if_neg (by simp [hch]), if_neg (by simp [hch])]
  refine both_answered h fun r c c' hc => ?_
  cases r with
  | error => exact .error (.error hc)
  | pass => exact (both_defined (dropBlock_alike hc)).bind fun _ _ h => .error (.pass h)
  | ok =>
    dsimp only
    rw [topCtx_alike henv hc]
    refine (both_defined (register_alike hc m _)).bind fun _ _ h => .ok ⟨?_, h⟩
    rw [hc.state]
    rfl

lemma enterBlock_alike (henv : env.Blind) (h : c.Alike c') (m : μ) (cmd : FsCmd κ) (first : Bool) :
    (enterBlock env c m cmd first).Both AlikeEntries Exit.Alike
      (enterBlock env c' m cmd first) := by
  cases hch : cmd.child with
  | true =>
    rw [enterBlock, enterBlock, if_pos hch, if_pos hch, subtopCtx_alike henv h]
    exact .ok ⟨rfl, h.storeTop _⟩
  | false => exact enterOwn_alike henv (runInitMod_alike henv h m cmd) hch first

lemma callBlock_alike (henv : env.Blind) (h : c.Alike c') (m : μ) (cmd : FsCmd κ) (first : Bool) :
    AlikeResults (callBlock env c m cmd first) (callBlock env c' m cmd first) := by
  rw [callBlock, callBlock, topCtx_alike henv h]
  refine both_answered (runCall_alike henv h m cmd _) fun r c₁ c₁' h₁ => ?_
  cases r with
  | ok => exact .ok h₁
  | error => exact .error (.error h₁)
  | pass =>
    exact (both_defined (dropBlock_alike h₁)).bind fun _ _ h₂ =>
      (both_defined (unregister_alike h₂ m first)).bind fun _ _ h₃ => .error (.pass h₃)

/-- From its entry on, a block command goes the same way. -/
lemma tryBlock_alike (henv : env.Blind) {m : μ} {cmd : FsCmd κ} {first : Bool}
    (h : (enterBlock env (c.stPush m cmd) m cmd first).Both AlikeEntries Exit.Alike
      (enterBlock env (c'.stPush m cmd) m cmd first)) (st : Status) :
    AlikeResults (tryBlock env c m cmd st first) (tryBlock env c' m cmd st first) := by
  apply h.bind
  rintro ⟨f, c₁⟩ ⟨f', c₁'⟩ ⟨hf, h₁⟩
  obtain rfl : f' = f := hf
  exact (callBlock_alike henv h₁ m cmd f').bind fun _ _ h₂ => leaveBlock_alike henv h₂ m cmd st

lemma tryCmd_alike (henv : env.Blind) (h : c.Alike c') (m : μ) (cmd : FsCmd κ) (st : Status)
    (first : Bool) : AlikeResults (tryCmd env c m cmd st first) (tryCmd env c' m cmd st first) := by
  rw [tryCmd, tryCmd]
  split_ifs with hparam
  · exact tryParam_alike henv h m cmd first
  · exact tryBlock_alike henv (enterBlock_alike henv (h.stPush m cmd) m cmd first) st

/-- The loops go the same way over the same commands. -/
lemma tryAll_alike (henv : env.Blind) (h : c.Alike c') (name : FsStr) (st : Status)
    (cmds : List (μ × FsCmd κ)) (first : Bool) :
    SameResults (tryAll env name st cmds first c) (tryAll env name st cmds first c') := by
  induction cmds generalizing first c c' with
  | nil => exact .error (.error h.same)
  | cons p cmds ih =>
    obtain ⟨m, cmd⟩ := p
    have htry := tryCmd_alike henv h m cmd st first
    rw [tryAll_cons, tryAll_cons]
    split_ifs with hmatch
    · generalize tryCmd env c m cmd st first = r, tryCmd env c' m cmd st first = r' at htry ⊢
      cases htry with
      | ok h₁ => exact .ok h₁
      | error he =>
        cases he with
        | pass h₁ => exact ih h₁ _
        | error h₁ => exact .error (.error h₁.same)
        | undefined => exact .error .undefined
    · exact ih h first

end

/-! ### A parse -/

section

variable [DecidableEq μ] (env : Env μ κ H) (io : ReadOutcome) (mode : ParseMode)

/-- How the loop of `fs_conf_parse` ends, and the engine it leaves. -/
def parseEnd : Nat → FsFile → Conf μ κ H → Verdict × Conf μ κ H
  | 0, _, c => (.undefined, c)
  | n + 1, f, c =>
    match parseTurn env io mode f c with
    | .stop v _ c => (v, c)
    | .next _ f c => parseEnd n f c

/-- The end of `fs_conf_parse` on a file that has been opened. -/
def fsConfParseEnd (content mem : List UInt8) (c : Conf μ κ H) : Verdict × Conf μ κ H :=
  let f := FsFile.opened content mem
  parseEnd env io .file (f.remaining + 2) f c

/-- The end of `fs_conf_parse_cmdline`. -/
def fsConfParseCmdlineEnd (cmdline : FsStr) (c : Conf μ κ H) : Verdict × Conf μ κ H :=
  if fsStrEmpty cmdline then (.ok, c)
  else
    let f := FsFile.ofBuf (cmdline.text ++ [0]) cmdline.ahead
    parseEnd env io .param (f.remaining + 2) f c

lemma parseLoop_end (n : Nat) (f : FsFile) (c : Conf μ κ H) :
    (parseLoop env io mode n f c).verdict = (parseEnd env io mode n f c).1 ∧
      (parseLoop env io mode n f c).log = (parseEnd env io mode n f c).2.log := by
  induction n generalizing f c with
  | zero => exact ⟨rfl, rfl⟩
  | succ n ih =>
    rw [parseLoop, parseEnd]
    cases parseTurn env io mode f c with
    | stop v last c => exact ⟨rfl, rfl⟩
    | next l f c => exact ih f c

/-- What `fs_conf_parse` lets be seen is how it ends. -/
lemma fsConfParse_end (content mem : List UInt8) (c : Conf μ κ H) :
    (fsConfParse env io content mem c).verdict = (fsConfParseEnd env io content mem c).1 ∧
      (fsConfParse env io content mem c).log = (fsConfParseEnd env io content mem c).2.log :=
  parseLoop_end env io .file _ _ c

lemma fsConfParseCmdline_end (cmdline : FsStr) (c : Conf μ κ H) :
    (fsConfParseCmdline env io cmdline c).verdict = (fsConfParseCmdlineEnd env io cmdline c).1 ∧
      (fsConfParseCmdline env io cmdline c).log
        = (fsConfParseCmdlineEnd env io cmdline c).2.log := by
  rw [fsConfParseCmdline, fsConfParseCmdlineEnd]
  split_ifs with hempty
  · exact ⟨rfl, rfl⟩
  · exact parseLoop_end env io .param _ _ c

/-- Turns of the loop that end in the same way. -/
inductive SameTurns : ParseTurn μ κ H → ParseTurn μ κ H → Prop where
  | next {l : Taking} {f : FsFile} {c c' : Conf μ κ H} :
      c.Alike c' → SameTurns (.next l f c) (.next l f c')
  | stop {v : Verdict} {last : Option Taking} {c c' : Conf μ κ H} :
      c.Same c' → SameTurns (.stop v last c) (.stop v last c')

/-- Parses that end in the same way. -/
structure SameEnds (r r' : Verdict × Conf μ κ H) : Prop where
  verdict : r'.1 = r.1
  same : r.2.Same r'.2

variable {env io mode} {env' : Env μ κ H}

lemma parseTurn_same {f : FsFile} {c c' : Conf μ κ H} (h : c.Alike c')
    (hdir : ∀ f' l, fsConfNextToken io f c.tokens = .ret l.status f' l.tokens →
      l.status.isDirective →
      SameResults (fsConfHandle env (c.take l) l.status)
        (fsConfHandle env' (c'.take l) l.status)) :
    SameTurns (parseTurn env io mode f c) (parseTurn env' io mode f c') := by
  cases hs : fsConfNextToken io f c.tokens with
  | undefined =>
    rw [parseTurn, parseTurn, h.tokens, hs]
    exact .stop h.same
  | ret st f' tokens =>
    have hs' := hs
    rw [← h.tokens] at hs'
    by_cases hst : st.isDirective
    · rw [parseTurn_directive env mode hst hs, parseTurn_directive env' mode hst hs']
      have hres := hdir f' ⟨st, tokens⟩ hs hst
      dsimp only at hres
      generalize fsConfHandle env (c.take ⟨st, tokens⟩) st = r,
        fsConfHandle env' (c'.take ⟨st, tokens⟩) st = r' at hres ⊢
      cases hres with
      | ok h₁ => exact .next h₁
      | error he =>
        cases he with
        | pass h₁ => exact .stop h₁
        | error h₁ => exact .stop h₁
        | undefined => exact .stop (h.take _).same
    · rw [parseTurn, parseTurn, hs, hs']
      cases st with
      | ok => exact absurd rfl hst
      | blockStart => exact absurd rfl hst
      | blockEnd => exact absurd rfl hst
      | fileDone => exact .stop (h.take _).same
      | error => exact .stop (h.take _).same

/-- Where every directive ends in the same way, so does the parse. -/
lemma parseEnd_same {I : Conf μ κ H → Prop}
    (hdir : ∀ f f' l c c', I c → c.Alike c' →
      fsConfNextToken io f c.tokens = .ret l.status f' l.tokens → l.status.isDirective →
      SameResults (fsConfHandle env (c.take l) l.status) (fsConfHandle env' (c'.take l) l.status))
    (hstep : ∀ s l s', I s.2 → ParseStep env io mode s l s' → I s'.2)
    (n : Nat) (f : FsFile) {c c' : Conf μ κ H} (hI : I c) (h : c.Alike c') :
    SameEnds (parseEnd env io mode n f c) (parseEnd env' io mode n f c') := by
  induction n generalizing f c c' with
  | zero => exact ⟨rfl, h.same⟩
  | succ n ih =>
    have hturn : SameTurns (parseTurn env io mode f c) (parseTurn env' io mode f c') :=
      parseTurn_same h fun f' l => hdir f f' l c c' hI h
    have hnext : ∀ l f' c₁, parseTurn env io mode f c = .next l f' c₁ → I c₁ := by
      intro l f' c₁ hr
      apply hstep (f, c) l (f', c₁) hI
      rw [ParseStep, Transition.Next, parseNext, hr]
    rw [parseEnd, parseEnd]
    generalize parseTurn env io mode f c = r, parseTurn env' io mode f c' = r' at hturn hnext ⊢
    cases hturn with
    | stop h₁ => exact ⟨rfl, h₁⟩
    | next h₁ => exact ih _ (hnext _ _ _ rfl) h₁

end

end Folksong
