import Folksong.Conf.Conduct

/-!
# The commands a directive is tried on

`fs_conf_handle` goes through the commands of all modules and tries those whose token and kind
fit the directive, each on what the one before has left, until one does not pass.
-/

namespace Folksong

variable {μ κ H : Type}

/-- A command that is tried, with the value of `first` and the engine it is tried on. -/
structure Attempt (μ κ H : Type) where
  mod : μ
  cmd : FsCmd κ
  first : Bool
  conf : Conf μ κ H

/-- The commands that fit a directive, in the order of the loops. -/
def Env.fitting (env : Env μ κ H) (name : FsStr) (st : Status) : List (μ × FsCmd κ) :=
  env.candidates.filter fun p => p.2.matches name st

lemma Env.mem_fitting {env : Env μ κ H} {name : FsStr} {st : Status} {p : μ × FsCmd κ} :
    p ∈ env.fitting name st ↔ p ∈ env.candidates ∧ p.2.matches name st :=
  List.mem_filter

section

variable [DecidableEq μ] (env : Env μ κ H)

/-- Try one command of the loops of `fs_conf_handle`. -/
def tryCmd (c : Conf μ κ H) (m : μ) (cmd : FsCmd κ) (st : Status) (first : Bool) :
    Except (Exit μ κ H) (Conf μ κ H) :=
  if cmd.isParam then tryParam env c m cmd first else tryBlock env c m cmd st first

/-- The commands the loops try, in this order. -/
def attempts (name : FsStr) (st : Status) :
    List (μ × FsCmd κ) → Bool → Conf μ κ H → List (Attempt μ κ H)
  | [], _, _ => []
  | (m, cmd) :: cmds, first, c =>
    if cmd.matches name st then
      ⟨m, cmd, first, c⟩ ::
        match tryCmd env c m cmd st first with
        | .error (.pass first c) => attempts name st cmds first c
        | _ => []
    else attempts name st cmds first c

/-- The commands `fs_conf_handle` tries; a closing brace tries none. -/
def handleAttempts (c : Conf μ κ H) (st : Status) : List (Attempt μ κ H) :=
  if st == .blockEnd then []
  else match c.tokens.nth 0 with
    | none => []
    | some name => attempts env name st env.candidates (env.first c) c

/-- The callback of the command that is tried is called. -/
def Attempt.invokes (a : Attempt μ κ H) : Bool :=
  if a.cmd.isParam then !a.conf.stMod.isEmpty
  else (enterBlock env (a.conf.stPush a.mod a.cmd) a.mod a.cmd a.first).isOk

end

variable [DecidableEq μ] {env : Env μ κ H}

/-! ### The loops, one command at a time -/

section

variable (name : FsStr) (st : Status) (cmds : List (μ × FsCmd κ)) (first : Bool) (c : Conf μ κ H)

/-- The next command is tried on what a command that passes leaves. -/
lemma tryAll_cons (m : μ) (cmd : FsCmd κ) :
    tryAll env name st ((m, cmd) :: cmds) first c =
      if cmd.matches name st then
        match tryCmd env c m cmd st first with
        | .error (.pass first c) => tryAll env name st cmds first c
        | r => r
      else tryAll env name st cmds first c := rfl

/-- The loops look at the commands that fit only. -/
lemma tryAll_filter :
    tryAll env name st (cmds.filter fun p => p.2.matches name st) first c =
      tryAll env name st cmds first c := by
  induction cmds generalizing first c with
  | nil => rfl
  | cons p cmds ih =>
    obtain ⟨m, cmd⟩ := p
    by_cases hmatch : cmd.matches name st
    · rw [List.filter_cons, if_pos hmatch, tryAll_cons, tryAll_cons, if_pos hmatch, if_pos hmatch]
      simp only [ih]
    · rw [List.filter_cons, if_neg hmatch, tryAll_cons, if_neg hmatch, ih]

lemma attempts_filter :
    attempts env name st (cmds.filter fun p => p.2.matches name st) first c =
      attempts env name st cmds first c := by
  induction cmds generalizing first c with
  | nil => rfl
  | cons p cmds ih =>
    obtain ⟨m, cmd⟩ := p
    by_cases hmatch : cmd.matches name st
    · rw [List.filter_cons, if_pos hmatch, attempts, attempts, if_pos hmatch, if_pos hmatch]
      simp only [ih]
    · rw [List.filter_cons, if_neg hmatch, attempts, if_neg hmatch, ih]

end

section

variable {c : Conf μ κ H} {name : FsStr} {st : Status} {cmds : List (μ × FsCmd κ)} {first : Bool}

lemma tryAll_fitting : tryAll env name st env.candidates first c =
    tryAll env name st (env.fitting name st) first c :=
  (tryAll_filter name st env.candidates first c).symm

lemma attempts_fitting : attempts env name st env.candidates first c =
    attempts env name st (env.fitting name st) first c :=
  (attempts_filter name st env.candidates first c).symm

lemma fsConfHandle_of_name (hname : c.tokens.nth 0 = some name) (hst : st ≠ .blockEnd) :
    fsConfHandle env c st = tryAll env name st env.candidates (env.first c) c := by
  rw [fsConfHandle, if_neg (by simpa using hst), hname]
  rfl

lemma handleAttempts_of_name (hname : c.tokens.nth 0 = some name) (hst : st ≠ .blockEnd) :
    handleAttempts env c st = attempts env name st env.candidates (env.first c) c := by
  rw [handleAttempts, if_neg (by simpa using hst), hname]

/-- Where no command fits, the directive is rejected. -/
lemma tryAll_eq_error (h : ∀ p ∈ cmds, ¬ p.2.matches name st) :
    tryAll env name st cmds first c = .error (.error c) := by
  induction cmds with
  | nil => rfl
  | cons p cmds ih =>
    obtain ⟨m, cmd⟩ := p
    have hhead : ¬ cmd.matches name st := h _ List.mem_cons_self
    rw [tryAll_cons, if_neg hhead]
    exact ih fun p hp => h p (List.mem_cons_of_mem _ hp)

/-- What commands that pass preserve holds wherever a command is tried. -/
lemma of_mem_attempts {I : Conf μ κ H → Prop}
    (hpass : ∀ m cmd first c first' c', (m, cmd) ∈ cmds → cmd.matches name st → I c →
      tryCmd env c m cmd st first = .error (.pass first' c') → I c')
    (hc : I c) {a : Attempt μ κ H} (ha : a ∈ attempts env name st cmds first c) :
    I a.conf ∧ (a.mod, a.cmd) ∈ cmds ∧ a.cmd.matches name st := by
  induction cmds generalizing first c with
  | nil => cases ha
  | cons p cmds ih =>
    obtain ⟨m, cmd⟩ := p
    have hrest : ∀ {first c}, I c → a ∈ attempts env name st cmds first c →
        I a.conf ∧ (a.mod, a.cmd) ∈ (m, cmd) :: cmds ∧ a.cmd.matches name st := by
      intro first c hc ha
      obtain ⟨hI, hmem, hmatch⟩ := ih
        (fun m cmd first c first' c' hm => hpass m cmd first c first' c'
          (List.mem_cons_of_mem _ hm)) hc ha
      exact ⟨hI, List.mem_cons_of_mem _ hmem, hmatch⟩
    rw [attempts] at ha
    split_ifs at ha with hmatch
    · rcases List.mem_cons.mp ha with rfl | ha
      · exact ⟨hc, List.mem_cons_self, hmatch⟩
      · split at ha
        next first' c' htry => exact hrest (hpass _ _ _ _ _ _ List.mem_cons_self hmatch hc htry) ha
        next => cases ha
    · exact hrest hc ha

lemma FsCmd.fits_of_matches {cmd : FsCmd κ} (h : cmd.matches name st) : cmd.fits st := by
  rw [FsCmd.matches, Bool.and_eq_true] at h
  exact h.2

lemma tryCmd_left (m : μ) {cmd : FsCmd κ} (hfit : cmd.fits st) :
    (tryCmd env c m cmd st first).Post (c.Follows st) (Exit.Leaves c) := by
  have hst := FsCmd.fits_eq hfit
  rw [tryCmd]
  by_cases hparam : cmd.isParam
  · rw [if_pos hparam]
    rw [FsCmd.isParam, Bool.and_eq_true, Bool.not_eq_true'] at hparam
    rw [hparam.2] at hst
    subst hst
    exact tryParam_left m cmd first
  · rw [if_neg hparam]
    refine tryBlock_left m cmd ?_ first
    cases cmd.block <;> simp [hst]

/-- A command that passes leaves the tokens and the frames. -/
lemma tryCmd_pass {m : μ} {cmd : FsCmd κ} {first' : Bool} {c' : Conf μ κ H} (hfit : cmd.fits st)
    (h : tryCmd env c m cmd st first = .error (.pass first' c')) : c.Left c.stMod c' := by
  have hpost : (tryCmd env c m cmd st first).Post (c.Follows st) (Exit.Leaves c) :=
    tryCmd_left m hfit
  rw [h] at hpost
  exact hpost

end

end Folksong
