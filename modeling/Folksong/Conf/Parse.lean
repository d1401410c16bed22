import Folksong.Lib.Transition
import Folksong.Conf.Stack

/-!
# The parse loop (`fs_conf_parse`)

The loop reads a directive and hands it to the engine, until the input ends or something is
rejected. `ParseStep` is one turn that goes on, as a step relation between the states at which
the loop reads the next directive.
-/

namespace Folksong

variable {μ κ H : Type}

/-- The `FS_PARSE_*` codes. -/
inductive ParseMode where
  | file | block | param
deriving DecidableEq, Repr

/-- How a parse ends; `undefined` when the behaviour of the code is. -/
inductive Verdict where
  | ok | error | undefined
deriving DecidableEq, Repr

/-- A directive as the scanner delivers it. -/
structure Taking where
  status : Status
  tokens : FsArr FsStr

/-- The engine when the directive is handed to `fs_conf_handle`. -/
def Conf.take (c : Conf μ κ H) (l : Taking) : Conf μ κ H := { c with tokens := l.tokens }

/-- One turn of the loop: the next state, or the end with the directive handled last. -/
inductive ParseTurn (μ κ H : Type) where
  | next (l : Taking) (f : FsFile) (c : Conf μ κ H)
  | stop (v : Verdict) (last : Option Taking) (c : Conf μ κ H)

section

variable [DecidableEq μ] (env : Env μ κ H) (io : ReadOutcome)

def parseTurn (mode : ParseMode) (f : FsFile) (c : Conf μ κ H) : ParseTurn μ κ H :=
  match fsConfNextToken io f c.tokens with
  | .undefined => .stop .undefined none c
  | .ret st f tokens =>
    match st with
    | .error => .stop .error none (c.take ⟨st, tokens⟩)
    | .fileDone => .stop (if mode == .block then .error else .ok) none (c.take ⟨st, tokens⟩)
    | _ =>
      match fsConfHandle env (c.take ⟨st, tokens⟩) st with
      | .ok c => .next ⟨st, tokens⟩ f c
      | .error .undefined => .stop .undefined (some ⟨st, tokens⟩) (c.take ⟨st, tokens⟩)
      | .error (.error c) | .error (.pass _ c) => .stop .error (some ⟨st, tokens⟩) c

/-- What can be observed of a parse: how it ends, the directives that were handed to
`fs_conf_handle`, and the calls of the modules. -/
structure Parsed (μ κ : Type) where
  verdict : Verdict
  directives : List (Status × List FsStr)
  log : List (Event μ κ)
deriving DecidableEq

def Taking.seen (l : Taking) : Status × List FsStr := (l.status, l.tokens.toList)

/-- The loop of `fs_conf_parse`. -/
def parseLoop (mode : ParseMode) : Nat → FsFile → Conf μ κ H → Parsed μ κ
  | 0, _, c => ⟨.undefined, [], c.log⟩
  | n + 1, f, c =>
    match parseTurn env io mode f c with
    | .stop v last c => ⟨v, last.toList.map Taking.seen, c.log⟩
    | .next l f c =>
      let rest := parseLoop mode n f c
      { rest with directives := l.seen :: rest.directives }

/-- `fs_conf_parse` on a file that has been opened and holds `content`; `mem` is what the
memory of the fresh buffer holds. -/
def fsConfParse (content mem : List UInt8) (c : Conf μ κ H) : Parsed μ κ :=
  let f := FsFile.opened content mem
  parseLoop env io .file (f.remaining + 2) f c

/-- `fs_conf_parse_cmdline`; the C string at `cmdline` ends with its NUL. -/
def fsConfParseCmdline (cmdline : FsStr) (c : Conf μ κ H) : Parsed μ κ :=
  if fsStrEmpty cmdline then ⟨.ok, [], c.log⟩
  else
    let f := FsFile.ofBuf (cmdline.text ++ [0]) cmdline.ahead
    parseLoop env io .param (f.remaining + 2) f c

/-- The engine after `fs_run_init` and `fs_gmod_init`. -/
def Conf.start (tokens : FsArr FsStr) (heap : H) : Conf μ κ H where
  tokens := tokens
  stMod := []
  stDepth := 0
  ctx := fsAllocArr Ptr 8 (Nat.succ_pos _)
  used := fun _ => false
  ctxs := fun _ => .null
  heap := heap
  log := []

/-- One turn of the loop, where it goes on. -/
def parseNext (mode : ParseMode) (s : FsFile × Conf μ κ H) :
    Option (Taking × FsFile × Conf μ κ H) :=
  match parseTurn env io mode s.1 s.2 with
  | .next l f c => some (l, f, c)
  | .stop _ _ _ => none

/-- The loop as a transition relation. -/
def ParseStep (mode : ParseMode) : FsFile × Conf μ κ H → Taking → FsFile × Conf μ κ H → Prop :=
  Transition.Next (parseNext env io mode)

variable {env io}

/-- A turn that goes on has read a directive and has seen it accepted. -/
lemma ParseStep.handled {mode : ParseMode} {s s' : FsFile × Conf μ κ H} {l : Taking}
    (h : ParseStep env io mode s l s') :
    fsConfNextToken io s.1 s.2.tokens = .ret l.status s'.1 l.tokens ∧ l.status.isDirective ∧
      fsConfHandle env (s.2.take l) l.status = .ok s'.2 := by
  rw [ParseStep, Transition.Next, parseNext, parseTurn] at h
  cases hs : fsConfNextToken io s.1 s.2.tokens with
  | undefined =>
    rw [hs] at h
    cases h
  | ret st f tokens =>
    rw [hs] at h
    have key : st.isDirective →
        (match (match fsConfHandle env (s.2.take ⟨st, tokens⟩) st with
          | .ok c => ParseTurn.next ⟨st, tokens⟩ f c
          | .error .undefined => .stop .undefined (some ⟨st, tokens⟩) (s.2.take ⟨st, tokens⟩)
          | .error (.error c) | .error (.pass _ c) => .stop .error (some ⟨st, tokens⟩) c) with
          | .next l f c => some (l, f, c)
          | .stop _ _ _ => none) = some (l, s') →
        Taken.ret st f tokens = .ret l.status s'.1 l.tokens ∧ l.status.isDirective ∧
          fsConfHandle env (s.2.take l) l.status = .ok s'.2 := by
      intro hd h
      cases hc : fsConfHandle env (s.2.take ⟨st, tokens⟩) st with
      | ok c =>
        rw [hc] at h
        cases h
        exact ⟨rfl, hd, hc⟩
      | error e =>
        rw [hc] at h
        cases e <;> cases h
    cases st with
    | error => cases h
    | fileDone => cases h
    | ok => exact key rfl h
    | blockStart => exact key rfl h
    | blockEnd => exact key rfl h

end

/-! ### Runs -/

lemma inv_start (env : Env μ κ H) (tokens : FsArr FsStr) (heap : H) :
    (Conf.start tokens heap).Inv env [] :=
  ⟨.nil, .nil, rfl, rfl⟩

lemma Conf.Inv.take {env : Env μ κ H} {c : Conf μ κ H} {bs : List (Opened μ κ)}
    (h : c.Inv env bs) (l : Taking) :
    (c.take l).Inv env bs :=
  ⟨h.traced, h.kept, h.depth, h.count⟩

section

variable [DecidableEq μ] {env : Env μ κ H} {io : ReadOutcome} {mode : ParseMode}

/-- The directive pushes no context slot while a push would move `run->ctx` under open
frames. -/
def KeepsRoom (env : Env μ κ H) (s : FsFile × Conf μ κ H) (l : Taking) : Prop :=
  (s.2.take l).pushes env l.status → s.2.Room

instance (env : Env μ κ H) (s : FsFile × Conf μ κ H) (l : Taking) : Decidable (KeepsRoom env s l) :=
  inferInstanceAs (Decidable (_ → _))

/-- The invariant between two directives holds in every state of a run. -/
lemma inv_of_run {s s' : FsFile × Conf μ κ H} {ls : List Taking}
    (h : Transition.Run (Transition.Guarded (KeepsRoom env) (ParseStep env io mode)) s ls s')
    (hs : ∃ bs, s.2.Inv env bs) : ∃ bs, s'.2.Inv env bs := by
  refine h.invariant_guarded (I := fun s => ∃ bs, s.2.Inv env bs) ?_ hs
  rintro s l s' ⟨bs, hI⟩ hroom hstep
  exact handle_inv (hI.take l) hroom hstep.handled.2.2

end

end Folksong
