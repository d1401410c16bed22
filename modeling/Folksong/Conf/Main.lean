import Folksong.Mod.Table

/-!
# The program (`folksong.c`)

`main` looks for the first option it knows, has the configuration parsed and enters the event loop
when `conf.valid` says so. The macros `fs_conf` and `fs_conf_file` write this flag only where the
parse succeeds, and nobody writes it before.
-/

namespace Folksong

variable {μ κ H : Type}

/-- Where a configuration comes from: `-c` or `-f` with its argument. -/
inductive ConfSource where
  | cmdline (text : List UInt8)
  | file (name : List UInt8)
deriving DecidableEq, Repr

/-- What `main` does. -/
inductive MainEvent where
  | usage
  | invalidArgument (arg : List UInt8)
  | gmodInit
  | parsed (source : ConfSource) (v : Verdict)
  | gmodInited
  | run
deriving DecidableEq, Repr

/-- The events, and the status `main` returns with; there is none where it has no defined
behaviour. -/
structure MainRun where
  events : List MainEvent
  status : Option Int
deriving DecidableEq, Repr

/-- What the program finds: the files that can be opened, how reads end, the memory of the read
buffer, and the byte of `conf.valid` on the stack. -/
structure Surroundings where
  files : List UInt8 → Option (List UInt8)
  io : ReadOutcome
  mem : List UInt8
  valid : Bool

section

variable [DecidableEq μ] (env : Env μ κ H) (sur : Surroundings) (heap : H)

/-- The parse of a source, with `fs_conf_parse_cmdline` or `fs_conf_parse`. -/
def ConfSource.parse : ConfSource → Verdict
  | .cmdline text =>
    (fsConfParseCmdline env sur.io (fsStrSet text)
      (Conf.start (fsAllocArr FsStr 3 tokensCapa_pos) heap)).verdict
  | .file name =>
    match sur.files name with
    | none => .error
    | some content =>
      (fsConfParse env sur.io content sur.mem
        (Conf.start (fsAllocArr FsStr 3 tokensCapa_pos) heap)).verdict

/-- `fs_conf` and `fs_conf_file`, and what `main` does behind them. -/
def confOption (source : ConfSource) : MainRun :=
  match source.parse env sur heap with
  | .undefined => ⟨[.gmodInit, .parsed source .undefined], none⟩
  | .ok => ⟨[.gmodInit, .parsed source .ok, .gmodInited, .run], some 0⟩
  | .error =>
    if sur.valid then ⟨[.gmodInit, .parsed source .error, .run], some 0⟩
    else ⟨[.gmodInit, .parsed source .error], some (-1)⟩

/-- The loop over the arguments; an option without an argument makes `strlen` read a null
pointer. -/
def mainLoop : List (List UInt8) → MainRun
  | [] => ⟨[.run], some 0⟩
  | arg :: args =>
    if [45, 104] <+: arg then ⟨[.usage], some 0⟩
    else if [45, 99] <+: arg then
      match args.head? with
      | none => ⟨[], none⟩
      | some text => confOption env sur heap (.cmdline text)
    else if [45, 102] <+: arg then
      match args.head? with
      | none => ⟨[], none⟩
      | some name => confOption env sur heap (.file name)
    else { mainLoop args with events := .invalidArgument arg :: (mainLoop args).events }

/-- `main`. -/
def fsMain : List (List UInt8) → MainRun
  | [name] => ⟨[.invalidArgument name], some (-1)⟩
  | argv => mainLoop env sur heap argv.tail

end

/-- The source `main` has parsed: that of the first option, if this is not `-h`. -/
def optionOf : List (List UInt8) → Option ConfSource
  | [] => none
  | arg :: args =>
    if [45, 104] <+: arg then none
    else if [45, 99] <+: arg then args.head?.map .cmdline
    else if [45, 102] <+: arg then args.head?.map .file
    else optionOf args

/-- The event loop is entered behind a parse only if this has succeeded and the modules have been
started, and a parse that fails ends the program with -1. -/
structure MainRun.Checked (r : MainRun) : Prop where
  run : ∀ before behind, r.events = before ++ .run :: behind →
    ∀ source v, .parsed source v ∈ before → v = .ok ∧ .gmodInited ∈ before
  failed : ∀ source, .parsed source .error ∈ r.events → r.status = some (-1) ∧ .run ∉ r.events

section

variable [DecidableEq μ] {env : Env μ κ H} {sur : Surroundings} {heap : H}

/-- A program that gets to the event loop. -/
lemma checked_run {es : List MainEvent} (hes : .run ∉ es) (status : Option Int) :
    MainRun.Checked ⟨es ++ [.run], status⟩ ↔
      ∀ source v, .parsed source v ∈ es → v = .ok ∧ .gmodInited ∈ es := by
  constructor
  · intro h
    exact h.run es [] rfl
  · intro h
    constructor
    · intro before behind heq
      obtain ⟨rfl, -⟩ := (List.append_cons_inj_of_notMem hes List.not_mem_nil).mp heq
      exact h
    · intro source hmem
      rw [List.mem_append, List.mem_singleton] at hmem
      obtain ⟨hok, -⟩ := h source .error (hmem.resolve_right nofun)
      cases hok

/-- A program that does not get there. -/
lemma checked_not_run {es : List MainEvent} (hes : .run ∉ es) (status : Option Int) :
    MainRun.Checked ⟨es, status⟩ ↔
      ∀ source, .parsed source .error ∈ es → status = some (-1) := by
  constructor
  · intro h source hmem
    exact (h.failed source hmem).1
  · intro h
    constructor
    · rintro before behind rfl
      exact absurd (List.mem_append_right _ (List.mem_cons_self ..)) hes
    · intro source hmem
      exact ⟨h source hmem, hes⟩

/-- An argument that is complained about. -/
lemma checked_cons {arg : List UInt8} {es : List MainEvent} (status : Option Int) :
    MainRun.Checked ⟨.invalidArgument arg :: es, status⟩ ↔ MainRun.Checked ⟨es, status⟩ := by
  constructor
  · intro h
    constructor
    · rintro before behind rfl source v hv
      simpa using h.run (.invalidArgument arg :: before) behind rfl source v (by simpa using hv)
    · intro source hv
      simpa using h.failed source (by simpa using hv)
  · intro h
    constructor
    · intro before behind heq source v hv
      cases before with
      | nil => cases hv
      | cons e before =>
        obtain ⟨rfl, rfl⟩ := List.cons.inj heq
        simpa using h.run before behind rfl source v (by simpa using hv)
    · intro source hv
      simpa using h.failed source (by simpa using hv)

/-- Behind an option. -/
lemma confOption_checked (source : ConfSource) :
    (confOption env sur heap source).Checked ↔
      sur.valid = false ∨ source.parse env sur heap ≠ .error := by
  rw [confOption]
  cases hv : source.parse env sur heap with
  | undefined =>
    dsimp only
    rw [checked_not_run (by simp)]
    simp
  | ok =>
    dsimp only
    rw [show [MainEvent.gmodInit, .parsed source .ok, .gmodInited, .run]
      = [.gmodInit, .parsed source .ok, .gmodInited] ++ [.run] from rfl, checked_run (by simp)]
    simp
  | error =>
    dsimp only
    split_ifs with hvalid
    · rw [show [MainEvent.gmodInit, .parsed source .error, .run]
        = [.gmodInit, .parsed source .error] ++ [.run] from rfl, checked_run (by simp)]
      simp [hvalid]
    · rw [checked_not_run (by simp)]
      simp [hvalid]

/-- The loop over the arguments. -/
lemma mainLoop_checked (args : List (List UInt8)) :
    (mainLoop env sur heap args).Checked ↔
      sur.valid = false ∨ ∀ source ∈ optionOf args, source.parse env sur heap ≠ .error := by
  induction args with
  | nil =>
    have hrun : (mainLoop env sur heap []).Checked ↔ _ := checked_run List.not_mem_nil _
    simp [hrun, optionOf]
  | cons arg args ih =>
    rw [mainLoop, optionOf]
    split_ifs
    · rw [checked_not_run (by simp)]
      simp
    · cases args.head? with
      | none => simp [checked_not_run]
      | some text => simp [confOption_checked]
    · cases args.head? with
      | none => simp [checked_not_run]
      | some name => simp [confOption_checked]
    · rw [checked_cons]
      exact ih

end

/-- A rejected configuration never runs, exactly when the byte of `conf.valid` happens to be zero
or the parse that `main` does, if any, does not fail. -/
theorem fsMain_checked_iff [DecidableEq μ] (env : Env μ κ H) (sur : Surroundings) (heap : H)
    (argv : List (List UInt8)) :
    (fsMain env sur heap argv).Checked ↔
      sur.valid = false ∨ ∀ source ∈ optionOf argv.tail, source.parse env sur heap ≠ .error := by
  match argv with
  | [] => exact mainLoop_checked []
  | [name] =>
    have hfail : (fsMain env sur heap [name]).Checked ↔ _ := checked_not_run (by simp) _
    simp [hfail, optionOf]
  | name :: arg :: args => exact mainLoop_checked (arg :: args)

/-- `-f` with a file that does not exist, where the stack happens to hold a one. -/
theorem not_fsMain_checked :
    ¬ (fsMain sampleEnv ⟨fun _ => none, fun _ => true, [], true⟩ ⟨[], []⟩
      [bytes "folksong", bytes "-f", bytes "missing"]).Checked := by
  intro h
  obtain ⟨hok, -⟩ := h.run [.gmodInit, .parsed (.file (bytes "missing")) .error] [] rfl
    (.file (bytes "missing")) .error (by simp)
  cases hok

end Folksong
