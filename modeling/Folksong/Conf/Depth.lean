import Folksong.Conf.Walk

/-!
# What holds of the engine in every run

`st_depth` counts the frames, and what stands in the token array has been cut out by the scanner.
Neither depends on the room in `run->ctx`.
-/

namespace Folksong

variable {μ κ H : Type}

/-! ### The depth of the stack -/

/-- `st_depth` counts the frames. -/
def Conf.Level (c : Conf μ κ H) : Prop := c.stDepth = c.stMod.length

/-- The frame of a block command is on the stack. -/
structure Conf.Inside (c : Conf μ κ H) : Prop where
  level : c.Level
  nonempty : c.stMod ≠ []

section

variable {env : Env μ κ H} {c c' : Conf μ κ H}

lemma Conf.Level.congr (h : c.Level) (hs : c'.stMod = c.stMod) (hd : c'.stDepth = c.stDepth) :
    c'.Level := by
  rw [Conf.Level, hs, hd]
  exact h

lemma Conf.Inside.congr (h : c.Inside) (hs : c'.stMod = c.stMod) (hd : c'.stDepth = c.stDepth) :
    c'.Inside :=
  ⟨h.level.congr hs hd, hs ▸ h.nonempty⟩

lemma Conf.Level.stPush (h : c.Level) (m : μ) (cmd : FsCmd κ) : (c.stPush m cmd).Inside := by
  constructor
  · have hlen : c.stDepth = c.stMod.length := h
    simp [Conf.Level, Conf.stPush, hlen]
  · simp [Conf.stPush]

lemma Conf.Inside.stPop (h : c.Inside) : c.stPop.Level := by
  obtain ⟨hlen, hne⟩ := h
  rw [Conf.Level] at hlen
  have hpos : 0 < c.stMod.length := List.length_pos_iff.mpr hne
  simp only [Conf.Level, Conf.stPop, hlen, List.length_tail]
  omega

lemma walk_level : Walk (Conf.Level : Conf μ κ H → Prop) Conf.Inside where
  push m cmd h := h.stPush m cmd
  pop h := h.stPop
  drop h hdrop := by
    obtain ⟨ctx, rfl⟩ := dropBlock_changes hdrop
    exact h.stPop.congr rfl rfl
  inside h hne := ⟨h, hne⟩
  outside h := h.level
  store p h := by
    obtain ⟨ctx, heq⟩ := storeTop_changes _ p
    rw [heq]
    exact h.congr rfl rfl
  called _ _ h := h.congr rfl rfl

variable [DecidableEq μ]

lemma registers_level (m : μ) (cmd : FsCmd κ) :
    Registers (Conf.Level : Conf μ κ H → Prop) Conf.Inside m cmd :=
  registers_of_blind (fun _ _ h => h.congr rfl rfl) (fun _ _ h => h.congr rfl rfl) m cmd

/-- A command that is tried leaves the engine level. -/
lemma tryCmd_level (h : c.Level) (m : μ) (cmd : FsCmd κ) (st : Status) (first : Bool) :
    (tryCmd env c m cmd st first).Post Conf.Level (Exit.Keeps Conf.Level) :=
  walk_level.tryCmd (registers_level m cmd) h st first

lemma handle_level {st : Status} (h : c.Level) (hc : fsConfHandle env c st = .ok c') :
    c'.Level :=
  (walk_level.handle (fun p _ => registers_level p.1 p.2) h st).of_ok hc

end

/-! ### Modules without own blocks -/

/-- The module has never been entered in the registry. -/
structure Conf.Unregistered (c : Conf μ κ H) (m : μ) : Prop where
  used : c.used m = false
  ctxs : c.ctxs m = .null

section

variable {env : Env μ κ H} {c c' : Conf μ κ H} {m m' : μ}

lemma Conf.Unregistered.congr (h : c.Unregistered m) (hused : c'.used = c.used)
    (hctxs : c'.ctxs = c.ctxs) : c'.Unregistered m := by
  constructor
  · rw [hused]
    exact h.used
  · rw [hctxs]
    exact h.ctxs

lemma runInitMod_registry {cmd : FsCmd κ} {r : Ret}
    (h : c.runInitMod env m cmd = some (r, c')) : c'.used = c.used ∧ c'.ctxs = c.ctxs := by
  obtain ⟨ctx, heap, log, rfl⟩ := runInitMod_changes h
  exact ⟨rfl, rfl⟩

lemma walk_unregistered (m : μ) :
    Walk (Conf.Unregistered · m : Conf μ κ H → Prop) (Conf.Unregistered · m) where
  push _ _ h := h.congr rfl rfl
  pop h := h.congr rfl rfl
  drop h hdrop := by
    obtain ⟨ctx, rfl⟩ := dropBlock_changes hdrop
    exact h.congr rfl rfl
  inside h _ := h
  outside h := h
  store p h := by
    obtain ⟨ctx, heq⟩ := storeTop_changes _ p
    rw [heq]
    exact h.congr rfl rfl
  called _ _ h := h.congr rfl rfl

variable [DecidableEq μ]

lemma Conf.Unregistered.register {p : Ptr} (h : c.Unregistered m) (hne : m ≠ m')
    (hreg : c.register m' p = some c') : c'.Unregistered m := by
  rw [Conf.register] at hreg
  split at hreg
  · cases hreg
    constructor
    · simpa [Function.update_of_ne hne] using h.used
    · simpa [Function.update_of_ne hne] using h.ctxs
  · cases hreg

/-- Taking an entry back does not make one. -/
lemma Conf.Unregistered.unregister {first : Bool} (h : c.Unregistered m)
    (hun : c.unregister m' first = some c') : c'.Unregistered m := by
  obtain ⟨ctxs, hctxs, rfl⟩ := Option.map_eq_some_iff.mp hun
  by_cases hm : m = m'
  · subst hm
    rw [h.ctxs] at hctxs
    cases hctxs
    constructor
    · cases first with
      | true => simp
      | false => exact h.used
    · simp
  · constructor
    · cases first with
      | true => simpa [Function.update_of_ne hm] using h.used
      | false => exact h.used
    · simpa [Function.update_of_ne hm] using h.ctxs

lemma registers_unregistered {cmd : FsCmd κ} (hcmd : m = m' → cmd.child = true) :
    Registers (Conf.Unregistered · m : Conf μ κ H → Prop) (Conf.Unregistered · m) m' cmd where
  register hchild h hreg := h.register (fun hm => hchild (hcmd hm)) hreg
  unregister h hun := h.unregister hun

/-- A command that is tried does not enter a module in the registry unless it is one of its own
blocks. -/
lemma tryCmd_unregistered (h : c.Unregistered m) {cmd : FsCmd κ}
    (hcmd : m = m' → cmd.child = true) (st : Status) (first : Bool) :
    (tryCmd env c m' cmd st first).Post (Conf.Unregistered · m)
      (Exit.Keeps (Conf.Unregistered · m)) :=
  (walk_unregistered m).tryCmd (registers_unregistered hcmd) h st first

/-- A module that has no own block is never entered in the registry. -/
lemma handle_unregistered {st : Status} (h : c.Unregistered m)
    (hcmds : ∀ p ∈ env.candidates, m = p.1 → p.2.child = true)
    (hc : fsConfHandle env c st = .ok c') : c'.Unregistered m :=
  ((walk_unregistered m).handle (fun p hp => registers_unregistered (hcmds p hp)) h st).of_ok hc

end

/-! ### The token array -/

/-- Every slot that has been written holds a token. -/
def FsArr.Worded (tokens : FsArr FsStr) : Prop := ∀ i t, tokens.nth i = some t → t.IsToken

lemma FsArr.Worded.push {tokens : FsArr FsStr} (h : tokens.Worded) {token : FsStr}
    (ht : token.IsToken) : (tokens.push token).Worded := by
  intro i t hi
  rcases FsArr.nth_of_push hi with rfl | hi
  · exact ht
  · exact h i t hi

lemma fsAllocArr_worded (capa : Nat) (hcapa : 0 < capa) : (fsAllocArr FsStr capa hcapa).Worded := by
  intro i t h
  rw [fsAllocArr_nth] at h
  cases h

/-- The token array of what the scanner answers. -/
def Taken.Worded : Taken → Prop
  | .ret _ _ tokens => tokens.Worded
  | .undefined => True

lemma nextTokenLoop_worded (io : ReadOutcome) (n : Nat) (s : Scan) (f : FsFile)
    {tokens : FsArr FsStr} (h : tokens.Worded) : (nextTokenLoop io n s f tokens).Worded := by
  induction n generalizing s f tokens with
  | zero => trivial
  | succ n ih =>
    rw [nextTokenLoop]
    cases refill io f with
    | done => exact h
    | failed => exact h
    | go f =>
      dsimp only
      cases f.bufLshift with
      | none => trivial
      | some r =>
        obtain ⟨chr, f⟩ := r
        dsimp only
        cases scanByte s chr f.pos with
        | next s => exact ih _ _ h
        | ret st => exact h
        | found s =>
          dsimp only
          cases htake : takeToken f.mem s.tokenStart (f.pos - 1) with
          | none => trivial
          | some token =>
            have hpush := h.push (takeToken_isToken htake)
            dsimp only
            split_ifs with hsem hblock
            · exact hpush
            · exact hpush
            · exact ih _ _ hpush

lemma fsConfNextToken_worded {io : ReadOutcome} {f f' : FsFile} {tokens tokens' : FsArr FsStr}
    {st : Status} (h : tokens.Worded) (hnext : fsConfNextToken io f tokens = .ret st f' tokens') :
    tokens'.Worded := by
  have hreset : tokens.reset.Worded := h
  have hloop := nextTokenLoop_worded io (f.remaining + 1) Scan.start f hreset
  rw [fsConfNextToken] at hnext
  rw [hnext] at hloop
  exact hloop

/-! ### Runs -/

/-- What holds in every state in which the loop reads the next directive. -/
structure Conf.Steady (c : Conf μ κ H) : Prop where
  level : c.Level
  worded : c.tokens.Worded

lemma steady_start (capa : Nat) (hcapa : 0 < capa) (heap : H) :
    (Conf.start (fsAllocArr FsStr capa hcapa) heap : Conf μ κ H).Steady :=
  ⟨rfl, fsAllocArr_worded capa hcapa⟩

section

variable {env : Env μ κ H} {io : ReadOutcome} {mode : ParseMode}

/-- The directive that is read next is handled in a steady state. -/
lemma Conf.Steady.take {c : Conf μ κ H} {f f' : FsFile} {st : Status} {tokens : FsArr FsStr}
    (h : c.Steady) (hnext : fsConfNextToken io f c.tokens = .ret st f' tokens) :
    (c.take ⟨st, tokens⟩).Steady :=
  ⟨h.level.congr rfl rfl, fsConfNextToken_worded h.worded hnext⟩

variable [DecidableEq μ]

lemma steady_step {s s' : FsFile × Conf μ κ H} {l : Taking} (h : s.2.Steady)
    (hstep : ParseStep env io mode s l s') : s'.2.Steady := by
  obtain ⟨hnext, hdirective, hhandle⟩ := hstep.handled
  have htake : (s.2.take l).Steady := h.take hnext
  constructor
  · exact handle_level htake.level hhandle
  · rw [handle_tokens hdirective hhandle]
    exact htake.worded

lemma steady_of_run {s s' : FsFile × Conf μ κ H} {ls : List Taking}
    (h : Transition.Run (ParseStep env io mode) s ls s') (hs : s.2.Steady) : s'.2.Steady :=
  h.invariant (I := fun s => s.2.Steady) (fun _ _ _ hI hstep => steady_step hI hstep) hs

end

end Folksong
