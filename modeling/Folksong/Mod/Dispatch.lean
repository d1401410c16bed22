import Folksong.Conf.Rollback
import Folksong.Mod.Table

/-!
# Dispatch by name

A command token does not count its NUL and the word of a directive does, so `fs_str_cmp` takes a
command whose token is a prefix of the word.
-/

namespace Folksong

variable {μ κ : Type}

/-- A callback is called under the name of its command only, by a directive of its kind, and a
name that belongs to no command is rejected. -/
structure ExactDispatch {H : Type} [DecidableEq μ] (env : Env μ κ H) (c : Conf μ κ H)
    (name : FsStr) (st : Status) : Prop where
  called : ∀ a ∈ handleAttempts env c st, a.invokes env →
    a.cmd.token.text = name.cstr ∧ a.cmd.fits st
  rejected : (∀ p ∈ env.candidates, p.2.token.text ≠ name.cstr) →
    ∃ c', fsConfHandle env c st = .error (.error c')

/-! ### Modules that decline -/

/-- Modules that pass, except that an own block with another token than `word` is set up. -/
def declining (mods : List (FsMod μ κ)) (word : List UInt8) : Env μ κ Unit where
  globalMods := mods
  methods := fun _ =>
    ⟨some fun _ cmd => some (if cmd.token.text = word then .pass else .ok, none, ()), none⟩
  call := fun _ _ _ => some (.pass, ())
  stale := fun _ _ => .null
  uninit := fun _ => .null
  first := fun _ => false

/-- An open block, and modules that have not been used. -/
structure Conf.Fresh (c : Conf μ κ Unit) : Prop where
  stMod : c.stMod ≠ []
  used : ∀ m, c.used m = false
  ctxs : ∀ m, c.ctxs m = .null

section

variable {mods : List (FsMod μ κ)} {word : List UInt8} {c c' : Conf μ κ Unit}

lemma Conf.Fresh.congr (h : c.Fresh) (htrace : NoTrace c c') : c'.Fresh := by
  constructor
  · rw [htrace.stMod]
    exact h.stMod
  · intro m
    rw [htrace.used]
    exact h.used m
  · intro m
    have hsame := htrace.ctxs m
    rw [h.ctxs m] at hsame
    exact Ctxs.of_null_same hsame

variable [DecidableEq μ]

/-- A command with the token `word` passes. -/
lemma declining_passes (mods : List (FsMod μ κ)) (h : c.Fresh) (m : μ) {cmd : FsCmd κ}
    (hword : cmd.token.text = word) (st : Status) (first : Bool) :
    LeavesNoTrace (declining mods word) c m cmd st first := by
  by_cases hchild : cmd.child
  · by_cases hparam : cmd.isParam
    · exact leavesNoTrace_param hparam h.stMod rfl st
    · have hparam' : cmd.isParam = false := by simpa using hparam
      have henter : enterBlock (declining mods word) (c.stPush m cmd) m cmd first
          = .ok (first, (c.stPush m cmd).storeTop
              ((c.stPush m cmd).subtopCtx (declining mods word))) := by
        rw [enterBlock, if_pos hchild]
      rw [leavesNoTrace_child_iff hchild hparam' henter rfl]
      exact ⟨h.ctxs m, fun _ => h.used m⟩
  · have hchild' : cmd.child = false := by simpa using hchild
    refine leavesNoTrace_init hchild' ?_ st
    exact ⟨_, by simp [Conf.runInitMod, declining, hword]; rfl⟩

/-- A command with another token is called. -/
lemma declining_invokes (mods : List (FsMod μ κ)) (h : c.Fresh) (m : μ) {cmd : FsCmd κ}
    (hword : cmd.token.text ≠ word) (first : Bool) :
    (⟨m, cmd, first, c⟩ : Attempt μ κ Unit).invokes (declining mods word) := by
  rw [Attempt.invokes]
  by_cases hparam : cmd.isParam
  · simpa [hparam] using h.stMod
  · rw [if_neg hparam]
    by_cases hchild : cmd.child
    · simp [enterBlock, hchild, Except.isOk, Except.toBool]
    · have hinit : (c.stPush m cmd).runInitMod (declining mods word) m cmd
          = some (.ok, (c.stPush m cmd).emit (.initMod m .ok)) := by
        simp [Conf.runInitMod, declining, hword]
      have hreg : ∀ p, ∃ c', ((c.stPush m cmd).emit (.initMod m .ok)).register m p = some c' := by
        intro p
        have hused : ((c.stPush m cmd).emit (.initMod m .ok)).used m = false := h.used m
        simp [Conf.register, hused]
      obtain ⟨c', hc'⟩ := hreg (((c.stPush m cmd).emit (.initMod m .ok)).topCtx
        (declining mods word))
      simp [enterBlock, hchild, hinit, defined, hc', Except.isOk, Except.toBool, bind, Except.bind]

variable {name : FsStr} {st : Status}

/-- The first command that fits and has another token is reached, and called. -/
lemma exists_invoked (mods : List (FsMod μ κ)) {cmds : List (μ × FsCmd κ)}
    (hex : ∃ p ∈ cmds, p.2.matches name st ∧ p.2.token.text ≠ word) (h : c.Fresh) (first : Bool) :
    ∃ a ∈ attempts (declining mods word) name st cmds first c,
      a.invokes (declining mods word) ∧ a.cmd.token.text ≠ word := by
  induction cmds generalizing first c with
  | nil =>
    obtain ⟨p, hp, -⟩ := hex
    cases hp
  | cons p cmds ih =>
    obtain ⟨m, cmd⟩ := p
    have hlater : ¬ (cmd.matches name st ∧ cmd.token.text ≠ word) →
        ∃ p ∈ cmds, p.2.matches name st ∧ p.2.token.text ≠ word := by
      intro hno
      obtain ⟨p, hp, hbad⟩ := hex
      rcases List.mem_cons.mp hp with rfl | hp
      · exact absurd hbad hno
      · exact ⟨p, hp, hbad⟩
    rw [attempts]
    split_ifs with hmatch
    · by_cases hword : cmd.token.text = word
      · obtain ⟨first', c', hpass, htrace⟩ :=
          declining_passes mods h m hword st first
        obtain ⟨a, ha, hbad⟩ := ih (hlater fun hbad => hbad.2 hword) (h.congr htrace) first'
        rw [hpass]
        exact ⟨a, List.mem_cons_of_mem _ ha, hbad⟩
      · exact ⟨_, List.mem_cons_self, declining_invokes mods h m hword first, hword⟩
    · exact ih (hlater fun hbad => hmatch hbad.1) h first

/-- Whatever the callbacks do, and whatever the state of the engine is, directives with the first
word `name` are dispatched by exact name, exactly when no command of their kind has a token that
is a proper prefix of that word. -/
theorem exactDispatch_iff (hmods : ∀ m ∈ mods, ∀ cmd ∈ m.commands, cmd.token.IsLiteral)
    (hname : name.IsToken) (hst : st = .ok ∨ st = .blockStart) :
    (∀ (H : Type) (env : Env μ κ H) (c : Conf μ κ H), env.globalMods = mods →
        c.tokens.nth 0 = some name → ExactDispatch env c name st) ↔
      ∀ m ∈ mods, ∀ cmd ∈ m.commands.takeWhile fun cmd => !cmd.isEnd, cmd.fits st →
        cmd.token.text <+: name.cstr → cmd.token.text = name.cstr := by
  have hend : st ≠ .blockEnd := by rcases hst with rfl | rfl <;> decide
  have hmem : ∀ {H : Type} (env : Env μ κ H), env.globalMods = mods → ∀ p ∈ env.candidates,
      ∃ m ∈ mods, p.2 ∈ m.commands.takeWhile fun cmd => !cmd.isEnd := by
    rintro H env rfl p hp
    obtain ⟨m, hm, hcmd⟩ := List.mem_flatMap.mp hp
    obtain ⟨cmd, hmem, rfl⟩ := List.mem_map.mp hcmd
    exact ⟨m, hm, hmem⟩
  have hmatches : ∀ m ∈ mods, ∀ cmd ∈ m.commands.takeWhile fun cmd => !cmd.isEnd,
      (cmd.matches name st = true ↔ cmd.token.text <+: name.cstr ∧ cmd.fits st) := by
    intro m hm cmd hcmd
    rw [FsCmd.matches, Bool.and_eq_true,
      fsStrCmp_literal (hmods m hm cmd (List.takeWhile_subset _ hcmd)) hname]
  constructor
  · intro h m hm cmd hcmd hfit hpre
    by_contra hne
    let c : Conf μ κ Unit := { Conf.start ((fsAllocArr FsStr 3 tokensCapa_pos).push name) () with
      stMod := [⟨m.id, cmd, ⟨0, 0⟩⟩] }
    have hfresh : c.Fresh := ⟨List.cons_ne_nil _ _, fun _ => rfl, fun _ => rfl⟩
    have hmem' : (m.id, cmd) ∈ (declining mods name.cstr).candidates :=
      List.mem_flatMap.mpr ⟨m, hm, List.mem_map.mpr ⟨cmd, hcmd, rfl⟩⟩
    obtain ⟨a, ha, hinvokes, hword⟩ := exists_invoked mods
      ⟨_, hmem', (hmatches m hm cmd hcmd).mpr ⟨hpre, hfit⟩, hne⟩ hfresh false
    have hexact := h Unit (declining mods name.cstr) c rfl rfl
    have htoken : c.tokens.nth 0 = some name := rfl
    refine hword (hexact.called a ?_ hinvokes).1
    rw [handleAttempts_of_name htoken hend]
    exact ha
  · intro h H env c hglobal htoken
    constructor
    · intro a ha _
      rw [handleAttempts_of_name htoken hend] at ha
      obtain ⟨-, hcand, hmatch⟩ := of_mem_attempts (I := fun _ => True)
        (fun _ _ _ _ _ _ _ _ _ _ => trivial) trivial ha
      obtain ⟨m, hm, hcmd⟩ := hmem env hglobal _ hcand
      obtain ⟨hpre, hfit⟩ := (hmatches m hm a.cmd hcmd).mp hmatch
      exact ⟨h m hm a.cmd hcmd hfit hpre, hfit⟩
    · intro hno
      rw [fsConfHandle_of_name htoken hend]
      refine ⟨c, tryAll_eq_error fun p hp hmatch => hno p hp ?_⟩
      obtain ⟨m, hm, hcmd⟩ := hmem env hglobal p hp
      obtain ⟨hpre, hfit⟩ := (hmatches m hm p.2 hcmd).mp hmatch
      exact h m hm p.2 hcmd hfit hpre

end

/-- The word `http` and the block it opens. -/
theorem exactDispatch_iff_http :
    (∀ (H : Type) (env : Env ModId Callback H) (c : Conf ModId Callback H),
        env.globalMods = shippedMods → c.tokens.nth 0 = some ⟨bytes "http", 5⟩ →
          ExactDispatch env c ⟨bytes "http", 5⟩ .blockStart) ↔
      ∀ m ∈ shippedMods, ∀ cmd ∈ m.commands.takeWhile fun cmd => !cmd.isEnd,
        cmd.fits .blockStart → cmd.token.text <+: FsStr.cstr ⟨bytes "http", 5⟩ →
          cmd.token.text = FsStr.cstr ⟨bytes "http", 5⟩ :=
  exactDispatch_iff (fun m hm cmd hcmd => isLiteral_of_mem_shipped hm hcmd) (by decide) (.inr rfl)

/-- `httpx` opens an http block. -/
theorem not_exactDispatch :
    ¬ ∀ (env : Env ModId Callback Heap) (c : Engine) (name : FsStr) (st : Status),
      (∀ m ∈ env.globalMods, ∀ cmd ∈ m.commands, cmd.token.IsLiteral) →
        c.tokens.nth 0 = some name → name.IsToken → (st = .ok ∨ st = .blockStart) →
          ExactDispatch env c name st := by
  intro h
  let c := sampleStart.take ⟨.blockStart, sampleStart.tokens.push ⟨bytes "httpx", 6⟩⟩
  have hany : (handleAttempts sampleEnv c .blockStart).any fun a =>
      a.invokes sampleEnv && a.cmd.token.text != bytes "httpx" := by decide +kernel
  obtain ⟨a, ha, hbad⟩ := List.any_eq_true.mp hany
  rw [Bool.and_eq_true, bne_iff_ne] at hbad
  have hexact := h sampleEnv c ⟨bytes "httpx", 6⟩ .blockStart
    (fun m hm cmd hcmd => isLiteral_of_mem_shipped hm hcmd) (by decide) (by decide) (.inr rfl)
  exact hbad.2 ((hexact.called a ha hbad.1).1.trans (by decide))

end Folksong
