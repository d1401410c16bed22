import Folksong.Conf.Token

/-!
# The engine (`fs_conf_handle`)

The modules are parameters: `μ` names them, `κ` names their callbacks and `H` is the memory the
callbacks work on. `Conf` joins the fields of `fs_conf_t`, `fs_run_t` and the mutable part of
the modules. A frame keeps a pointer to a slot of `run->ctx`; `Conf.deref` reads through it,
also where the storage has been released.

Memory allocation is taken to succeed.
-/

namespace Folksong

/-- `fs_cmd_t`. -/
structure FsCmd (κ : Type) where
  token : FsStr
  call : κ
  block : Bool
  child : Bool
deriving DecidableEq, Repr

/-- The constant part of `fs_mod_t`: its commands up to `fs_cmd_end`. -/
structure FsMod (μ κ : Type) where
  id : μ
  commands : List (FsCmd κ)

/-- What a context pointer can be: null, an object of the memory, the loop of `fs_uv_t`, or
whatever stands in memory that is not a context slot. -/
inductive Ptr where
  | null | obj (n : Nat) | loop | wild (n : Nat)
deriving DecidableEq, Repr

/-- What a callback answers. -/
inductive Ret where
  | ok | pass | error
deriving DecidableEq, Repr

/-- `fs_st_mod_t`. -/
structure Frame (μ κ : Type) where
  mod : μ
  cmd : FsCmd κ
  ctx : Slot
deriving DecidableEq, Repr

/-- The `ctxs` of a module. -/
inductive Ctxs where
  | null
  | arr (a : FsArr Ptr)
  | released

/-- A block that has been accepted, with the context it was opened with. -/
structure Opened (μ κ : Type) where
  mod : μ
  cmd : FsCmd κ
  ctx : Ptr
deriving DecidableEq, Repr

/-- What happens while directives are handled: the calls of the modules, and the acceptance of
a directive that opens or closes a block or is a block by itself. -/
inductive Event (μ κ : Type) where
  | initMod (m : μ) (r : Ret)
  | call (m : μ) (cmd : FsCmd κ) (ctx : Ptr) (r : Ret)
  | completed (m : μ) (ctx : Ptr) (r : Ret)
  | opened (b : Opened μ κ)
  | closed
  | single (b : Opened μ κ)
deriving DecidableEq, Repr

structure Conf (μ κ H : Type) where
  tokens : FsArr FsStr
  /-- The frames, innermost first. -/
  stMod : List (Frame μ κ)
  stDepth : Int
  ctx : FsArr Ptr
  used : μ → Bool
  ctxs : μ → Ctxs
  heap : H
  log : List (Event μ κ)

/-- `fs_mod_method_t`; either pointer may be null. A callback that has no defined behaviour
gives `none`. `initMod` may store a context through its last argument. -/
structure FsModMethod (μ κ H : Type) where
  initMod : Option (Conf μ κ H → FsCmd κ → Option (Ret × Option Ptr × H))
  initModCompleted : Option (Conf μ κ H → Ptr → Option (Ret × H))

/-- What the engine is linked with, and what it finds in memory that nobody has written:
`stale` in a storage that has been released, `uninit` in a slot never written, `first` in the
local variable of this name. -/
structure Env (μ κ H : Type) where
  globalMods : List (FsMod μ κ)
  methods : μ → FsModMethod μ κ H
  call : κ → Conf μ κ H → Ptr → Option (Ret × H)
  stale : Conf μ κ H → Slot → Ptr
  uninit : Slot → Ptr
  first : Conf μ κ H → Bool

variable {μ κ H : Type}

/-- `fs_cmd_is_end`. -/
def FsCmd.isEnd (cmd : FsCmd κ) : Bool := fsStrEmpty cmd.token

/-- The commands in the order in which `fs_conf_handle` meets them. -/
def Env.candidates (env : Env μ κ H) : List (μ × FsCmd κ) :=
  env.globalMods.flatMap fun m => (m.commands.takeWhile fun cmd => !cmd.isEnd).map (m.id, ·)

/-- What a slot of the current storage holds. -/
def Env.slotValue (env : Env μ κ H) (ctx : FsArr Ptr) (s : Slot) : Ptr :=
  (ctx.nth s.idx).getD (env.uninit s)

/-- Why a command has not been accepted: the next one is tried, the directive is rejected, or
there is no defined behaviour. -/
inductive Exit (μ κ H : Type) where
  | pass (first : Bool) (c : Conf μ κ H)
  | error (c : Conf μ κ H)
  | undefined

namespace Conf

/-- Read through a pointer to a context slot. -/
def deref (env : Env μ κ H) (c : Conf μ κ H) (s : Slot) : Ptr :=
  if s.gen = c.ctx.gen then env.slotValue c.ctx s else env.stale c s

/-- `*fs_run_st_top_ctx`. -/
def topCtx (env : Env μ κ H) (c : Conf μ κ H) : Ptr :=
  match c.stMod with
  | frame :: _ => c.deref env frame.ctx
  | [] => .null

/-- `*fs_run_st_subtop_ctx`. Below a single frame lies the list head inside `fs_run_t`, whose
field at the place of `ctx` is `uv`. -/
def subtopCtx (env : Env μ κ H) (c : Conf μ κ H) : Ptr :=
  match c.stMod with
  | _ :: frame :: _ => c.deref env frame.ctx
  | _ => .loop

/-- `fs_run_st_push`. -/
def stPush (c : Conf μ κ H) (m : μ) (cmd : FsCmd κ) : Conf μ κ H :=
  { c with stDepth := c.stDepth + 1
           stMod := ⟨m, cmd, c.ctx.slot⟩ :: c.stMod
           ctx := c.ctx.pushed }

/-- `fs_run_st_pop`. -/
def stPop (c : Conf μ κ H) : Conf μ κ H :=
  { c with stDepth := c.stDepth - 1, stMod := c.stMod.tail }

/-- Store through the pointer of the frame just pushed, which is never stale. -/
def storeTop (c : Conf μ κ H) (p : Ptr) : Conf μ κ H :=
  match c.stMod with
  | frame :: _ => { c with ctx := c.ctx.write frame.ctx.idx p }
  | [] => c

def emit (c : Conf μ κ H) (e : Event μ κ) : Conf μ κ H := { c with log := c.log ++ [e] }

/-- `fs_cmd_call(cmd)(run, ctx)`. -/
def runCall (env : Env μ κ H) (c : Conf μ κ H) (m : μ) (cmd : FsCmd κ) (ctx : Ptr) :
    Option (Ret × Conf μ κ H) :=
  (env.call cmd.call c ctx).map fun r => (r.1, { c with heap := r.2 }.emit (.call m cmd ctx r.1))

/-- `init_mod`, when the module has one, on the slot just pushed. -/
def runInitMod (env : Env μ κ H) (c : Conf μ κ H) (m : μ) (cmd : FsCmd κ) :
    Option (Ret × Conf μ κ H) :=
  match (env.methods m).initMod with
  | none => some (.ok, c)
  | some f => (f c cmd).map fun r =>
      (r.1, { (r.2.1.elim c c.storeTop) with heap := r.2.2 }.emit (.initMod m r.1))

/-- `init_mod_completed`, when the module has one. -/
def runCompleted (env : Env μ κ H) (c : Conf μ κ H) (m : μ) (ctx : Ptr) :
    Option (Ret × Conf μ κ H) :=
  match (env.methods m).initModCompleted with
  | none => some (.ok, c)
  | some f => (f c ctx).map fun r =>
      (r.1, { c with heap := r.2 }.emit (.completed m ctx r.1))

/-- `conf->run->ctx->ele_count--; fs_run_st_pop(conf->run)`. -/
def dropBlock (c : Conf μ κ H) : Option (Conf μ κ H) :=
  c.ctx.decCount.map fun ctx => { c with ctx := ctx }.stPop

variable [DecidableEq μ]

/-- The entry of a block in the registry of its module. -/
def register (c : Conf μ κ H) (m : μ) (p : Ptr) : Option (Conf μ κ H) :=
  match if c.used m then c.ctxs m else .arr (fsAllocArr Ptr 1 Nat.zero_lt_one) with
  | .arr a => some { c with used := Function.update c.used m true
                            ctxs := Function.update c.ctxs m (.arr (a.push p)) }
  | _ => none

/-- How an entry is taken back when the command passes. -/
def unregister (c : Conf μ κ H) (m : μ) (first : Bool) : Option (Conf μ κ H) :=
  let ctxs : Option Ctxs := match c.ctxs m with
    | .null => some .null
    | .arr a => a.decCount.map fun a => if first then .released else .arr a
    | .released => none
  ctxs.map fun x => { c with used := if first then Function.update c.used m false else c.used
                             ctxs := Function.update c.ctxs m x }

end Conf

section Handle

variable [DecidableEq μ] (env : Env μ κ H)

/-- Go on with a result that is defined. -/
def defined {α : Type} : Option α → Except (Exit μ κ H) α
  | none => .error .undefined
  | some a => .ok a

/-- The branch of a parameter command. -/
def tryParam (c : Conf μ κ H) (m : μ) (cmd : FsCmd κ) (first : Bool) :
    Except (Exit μ κ H) (Conf μ κ H) :=
  if c.stMod.isEmpty then .error (.error c)
  else do
    let (r, c) ← defined (c.runCall env m cmd (c.topCtx env))
    match r with
    | .ok => .ok c
    | .pass => .error (.pass first c)
    | .error => .error (.error c)

/-- The context of the frame just pushed: a sub-block takes that of its parent, an own block is
set up by its module and entered in the registry. The result carries `first`. -/
def enterBlock (c : Conf μ κ H) (m : μ) (cmd : FsCmd κ) (first : Bool) :
    Except (Exit μ κ H) (Bool × Conf μ κ H) :=
  if cmd.child then .ok (first, c.storeTop (c.subtopCtx env))
  else do
    let (r, c) ← defined (c.runInitMod env m cmd)
    match r with
    | .pass => do
      let c ← defined c.dropBlock
      .error (.pass first c)
    | .error => .error (.error c)
    | .ok => do
      let c' ← defined (c.register m (c.topCtx env))
      .ok (!c.used m, c')

/-- The call of a block command whose frame has been entered. -/
def callBlock (c : Conf μ κ H) (m : μ) (cmd : FsCmd κ) (first : Bool) :
    Except (Exit μ κ H) (Conf μ κ H) := do
  let (r, c) ← defined (c.runCall env m cmd (c.topCtx env))
  match r with
  | .ok => .ok c
  | .error => .error (.error c)
  | .pass => do
    let c ← defined c.dropBlock
    let c ← defined (c.unregister m first)
    .error (.pass first c)

/-- The end of a directive whose command is a block: one that ends with a semicolon is
completed at once. -/
def leaveBlock (c : Conf μ κ H) (m : μ) (cmd : FsCmd κ) (st : Status) :
    Except (Exit μ κ H) (Conf μ κ H) :=
  let b : Opened μ κ := ⟨m, cmd, c.topCtx env⟩
  if st == .ok then do
    let (r, c) ← defined (c.runCompleted env m (c.topCtx env))
    match r with
    | .ok => .ok (c.stPop.emit (.single b))
    | _ => .error (.error c)
  else .ok (c.emit (.opened b))

/-- The branch of a block command. -/
def tryBlock (c : Conf μ κ H) (m : μ) (cmd : FsCmd κ) (st : Status) (first : Bool) :
    Except (Exit μ κ H) (Conf μ κ H) := do
  let (first, c) ← enterBlock env (c.stPush m cmd) m cmd first
  let c ← callBlock env c m cmd first
  leaveBlock env c m cmd st

/-- Do the kind of the command and the way the directive ends fit? -/
def FsCmd.fits (cmd : FsCmd κ) (st : Status) : Bool :=
  (cmd.block || st == .ok) && (!cmd.block || st == .blockStart)

/-- Is the command a parameter of an open block? -/
def FsCmd.isParam (cmd : FsCmd κ) : Bool := cmd.child && !cmd.block

/-- The two loops over the modules and their commands. -/
def tryAll (name : FsStr) (st : Status) :
    List (μ × FsCmd κ) → Bool → Conf μ κ H → Except (Exit μ κ H) (Conf μ κ H)
  | [], _, c => .error (.error c)
  | (m, cmd) :: cmds, first, c =>
    if fsStrCmp cmd.token name && cmd.fits st then
      match if cmd.isParam then tryParam env c m cmd first else tryBlock env c m cmd st first with
      | .error (.pass first c) => tryAll name st cmds first c
      | r => r
    else tryAll name st cmds first c

/-- The branch `taken_status == FS_CONF_BLOCK_END`. -/
def closeBlock (c : Conf μ κ H) : Except (Exit μ κ H) (Conf μ κ H) :=
  match c.stMod with
  | [] => .error (.error c)
  | frame :: _ =>
    if frame.cmd.child then .ok (c.stPop.emit .closed)
    else do
      let (r, c) ← defined (c.runCompleted env frame.mod (c.topCtx env))
      match r with
      | .ok => .ok (c.stPop.emit .closed)
      | _ => .error (.error c)

/-- `fs_conf_handle`. The name of a directive without words is what an earlier directive left
in the first slot. -/
def fsConfHandle (c : Conf μ κ H) (st : Status) : Except (Exit μ κ H) (Conf μ κ H) :=
  if st == .blockEnd then closeBlock env c
  else do
    let name ← defined (c.tokens.nth 0)
    tryAll env name st env.candidates (env.first c) c

end Handle

end Folksong
