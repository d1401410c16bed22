import Folksong.Conf.Conduct

/-!
# Blocks opened and closed

A parse that is not stopped by anything else fails at the first closing brace without an open
block. `permissive` is a table of modules that accepts every directive, so that with it nothing
else can stop a parse.
-/

namespace Folksong

/-! ### The braces of a text -/

/-- The number of open blocks after a directive; `none` where nothing is open to be closed. -/
def Status.nest (d : Nat) : Status → Option Nat
  | .blockStart => some (d + 1)
  | .blockEnd => if d = 0 then none else some (d - 1)
  | _ => some d

/-- The number of open blocks after these directives. -/
def nesting : Nat → List Status → Option Nat
  | d, [] => some d
  | d, st :: sts => (st.nest d).bind fun d => nesting d sts

/-- How the directives of a text end. -/
def lexStatuses (text : List UInt8) : List Status := (lexEvents text).filterMap Sum.getRight?

lemma lexRecords_statuses (text : List UInt8) :
    (lexRecords text).1.map Prod.snd = lexStatuses text :=
  Records.cut_map_snd _ _

/-- The lexer emits the statuses of directives only. -/
lemma LexState.run_isDirective (text : List UInt8) :
    ∀ (s : LexState) (st : Status), .inr st ∈ (Mealy.run LexState.step s text).2 →
      st.isDirective := by
  induction text with
  | nil => simp
  | cons c text ih =>
    intro s st h
    rw [Mealy.run_cons, List.mem_append] at h
    rcases h with h | h
    · have hstep := LexState.stepped s c
      generalize s.step c = r at hstep h
      obtain ⟨s', evs⟩ := r
      simp only at hstep h
      cases hstep with
      | outside => cases h
      | opened => cases h
      | grown => cases h
      | ended => simp at h
      | endedOk => simp at h; rw [h]; rfl
      | endedBlock => simp at h; rw [h]; rfl
      | stop _ hst => simp at h; exact h ▸ hst
    · exact ih _ st h

lemma lexRecords_isDirective (text : List UInt8) : ∀ r ∈ (lexRecords text).1, r.2.isDirective := by
  intro r hr
  have hmem : r.2 ∈ lexStatuses text := by
    rw [← lexRecords_statuses]
    exact List.mem_map_of_mem hr
  obtain ⟨e, he, heq⟩ := List.mem_filterMap.mp hmem
  rw [Sum.getRight?_eq_some_iff] at heq
  exact LexState.run_isDirective text _ r.2 (heq ▸ he)

/-! ### Every parse counts the blocks -/

section

variable {μ κ H : Type} {env : Env μ κ H} {mode : ParseMode}

lemma Conf.Follows.nest {c c' : Conf μ κ H} {st : Status} (h : c.Follows st c') :
    st.nest c.stMod.length = some c'.stMod.length := by
  cases st with
  | blockStart =>
    obtain ⟨frame, h⟩ := h
    rw [h.stMod]
    rfl
  | blockEnd =>
    obtain ⟨hne, h⟩ := h
    rw [h.stMod, Status.nest, if_neg (by simpa using hne), List.length_tail]
  | ok =>
    obtain ⟨-, hstMod⟩ := h
    rw [hstMod]
    rfl
  | fileDone =>
    obtain ⟨-, hstMod⟩ := h
    rw [hstMod]
    rfl
  | error =>
    obtain ⟨-, hstMod⟩ := h
    rw [hstMod]
    rfl

variable [DecidableEq μ]

/-- What comes after a closing brace too many does not matter: the parse has stopped, and it has
not answered `FS_CONF_OK`. -/
lemma conduct_surplus {tok : Word → Option FsStr} {rs : List (List Word × Status)}
    (hdir : ∀ r ∈ rs, r.2.isDirective) :
    ∀ c : Conf μ κ H, nesting c.stMod.length (rs.map Prod.snd) = none → ∀ rs' left left',
      conduct env mode c (replies tok (rs ++ rs') left)
          = conduct env mode c (replies tok rs left') ∧
        (conduct env mode c (replies tok rs left)).verdict ≠ .ok := by
  induction rs with
  | nil => exact fun _ h => by cases h
  | cons r rs ih =>
    intro c hnone rs' left left'
    rw [List.forall_mem_cons] at hdir
    obtain ⟨ws, st⟩ := r
    simp only [List.cons_append, replies]
    cases ws.mapM tok with
    | none => exact ⟨rfl, by simp [conduct]⟩
    | some ts =>
      simp only [conduct_directive env mode hdir.1]
      cases hc : fsConfHandle env (c.taken st ts) st with
      | ok c' =>
        have hnest := (handle_follows hdir.1 hc).nest
        rw [List.map_cons, nesting, show c.stMod.length = (c.taken st ts).stMod.length from rfl,
          hnest] at hnone
        obtain ⟨heq, hne⟩ := ih hdir.2 c' hnone rs' left left'
        exact ⟨by simp only [heq], hne⟩
      | error e => cases e <;> exact ⟨rfl, by simp⟩

end

/-! ### A table that accepts everything -/

/-- A command with a name of one byte, which every word that begins with it selects. -/
def permissiveCmd (block : Bool) (b : UInt8) : FsCmd Unit := ⟨⟨[b], 1⟩, (), block, block⟩

/-- A single command and a sub-block for every byte. -/
def permissive : Env Unit Unit Unit where
  globalMods := [⟨(), (List.range 256).flatMap fun n =>
    [permissiveCmd false (UInt8.ofNat n), permissiveCmd true (UInt8.ofNat n)]⟩]
  methods := fun _ => ⟨none, none⟩
  call := fun _ c _ => some (.ok, c.heap)
  stale := fun _ _ => .null
  uninit := fun _ => .null
  first := fun _ => false

/-- The states in which `permissive` accepts every directive. -/
structure Ready (c : Conf Unit Unit Unit) : Prop where
  named : (c.tokens.nth 0).isSome
  registry : c.used () → ∃ a, c.ctxs () = .arr a
  child : ∀ frame ∈ c.stMod, frame.cmd.child

lemma permissive_candidates :
    permissive.candidates = (List.range 256).flatMap fun n =>
      [((), permissiveCmd false (UInt8.ofNat n)), ((), permissiveCmd true (UInt8.ofNat n))] := by
  have hend : ∀ cmd ∈ (List.range 256).flatMap fun n =>
      [permissiveCmd false (UInt8.ofNat n), permissiveCmd true (UInt8.ofNat n)],
      !cmd.isEnd := by
    intro cmd hcmd
    simp only [List.mem_flatMap, List.mem_cons, List.not_mem_nil, or_false] at hcmd
    obtain ⟨n, -, rfl | rfl⟩ := hcmd <;> rfl
  simp only [Env.candidates, permissive, List.flatMap_cons, List.flatMap_nil, List.append_nil]
  rw [List.takeWhile_eq_self_iff.mpr hend, List.map_flatMap]
  rfl

/-- Some command is tried for every directive. -/
lemma permissive_matches (name : FsStr) {st : Status} (hst : st = .ok ∨ st = .blockStart) :
    ∃ p ∈ permissive.candidates, p.2.matches name st := by
  obtain ⟨b, rest, hb⟩ : ∃ b rest, name.text ++ [0] = b :: rest := by
    cases h : name.text with
    | nil => exact ⟨0, [], rfl⟩
    | cons b rest => exact ⟨b, rest ++ [0], rfl⟩
  have hcmp : ∀ block, fsStrCmp (permissiveCmd block b).token name := by
    intro block
    simp only [permissiveCmd, fsStrCmp, hb, List.singleton_append]
    by_cases hsize : name.size = 0
    · simp [hsize]
    · rw [min_eq_left (by omega)]
      simp
  have hmem : ∀ block, ((), permissiveCmd block b) ∈ permissive.candidates := by
    intro block
    rw [permissive_candidates, List.mem_flatMap]
    refine ⟨b.toNat, List.mem_range.mpr b.toNat_lt, ?_⟩
    cases block <;> simp
  rcases hst with rfl | rfl
  · exact ⟨_, hmem false, by rw [FsCmd.matches, hcmp]; rfl⟩
  · exact ⟨_, hmem true, by rw [FsCmd.matches, hcmp]; rfl⟩

/-- A single command enters the registry of its module. -/
lemma permissive_enterBlock {c : Conf Unit Unit Unit} (hc : Ready c) (b : UInt8) (first : Bool) :
    ∃ a, enterBlock permissive (c.stPush () (permissiveCmd false b)) () (permissiveCmd false b) first
      = .ok (!c.used (), { c.stPush () (permissiveCmd false b) with
          used := Function.update c.used () true, ctxs := Function.update c.ctxs () (.arr a) }) := by
  obtain ⟨a, ha⟩ : ∃ a, (if c.used () then c.ctxs () else
      .arr (fsAllocArr Ptr 1 Nat.zero_lt_one)) = .arr a := by
    by_cases hused : c.used ()
    · rw [if_pos hused]
      exact hc.registry hused
    · rw [if_neg hused]
      exact ⟨_, rfl⟩
  refine ⟨a.push ((c.stPush () (permissiveCmd false b)).topCtx permissive), ?_⟩
  change (defined ((c.stPush () (permissiveCmd false b)).register () _) >>= _) = _
  rw [Conf.register_eq (c := c.stPush () (permissiveCmd false b)) (m := ()) ha]
  rfl

/-- A command of `permissive` accepts what it is tried for. -/
lemma permissive_accepts {c : Conf Unit Unit Unit} (hc : Ready c) {p : Unit × FsCmd Unit}
    (hp : p ∈ permissive.candidates) {name : FsStr} {st : Status} (hmatch : p.2.matches name st)
    (first : Bool) :
    ∃ c', (if p.2.isParam then tryParam permissive c p.1 p.2 first
      else tryBlock permissive c p.1 p.2 st first) = .ok c' ∧ Ready c' := by
  rw [permissive_candidates] at hp
  simp only [List.mem_flatMap, List.mem_cons, List.not_mem_nil, or_false] at hp
  obtain ⟨n, -, hp⟩ := hp
  have hst : st = if p.2.block then .blockStart else .ok := by
    rw [FsCmd.matches, Bool.and_eq_true] at hmatch
    exact FsCmd.fits_eq hmatch.2
  rcases hp with rfl | rfl
  · obtain rfl : st = .ok := hst
    obtain ⟨a, henter⟩ := permissive_enterBlock hc (UInt8.ofNat n) first
    rw [if_neg (by simp [FsCmd.isParam, permissiveCmd]), tryBlock, henter]
    refine ⟨_, rfl, hc.named, fun _ => ⟨a, ?_⟩, hc.child⟩
    exact Function.update_self () (.arr a) c.ctxs
  · obtain rfl : st = .blockStart := hst
    rw [if_neg (by simp [FsCmd.isParam, permissiveCmd]), tryBlock]
    refine ⟨_, rfl, hc.named, hc.registry, ?_⟩
    intro frame hframe
    rcases List.mem_cons.mp hframe with rfl | hframe
    · rfl
    · exact hc.child frame hframe

/-- The loop finds a command that accepts. -/
lemma permissive_tryAll {name : FsStr} {st : Status} {cmds : List (Unit × FsCmd Unit)}
    (hcmds : ∀ p ∈ cmds, p ∈ permissive.candidates) (hex : ∃ p ∈ cmds, p.2.matches name st)
    {c : Conf Unit Unit Unit} (hc : Ready c) (first : Bool) :
    ∃ c', tryAll permissive name st cmds first c = .ok c' ∧ Ready c' := by
  induction cmds with
  | nil =>
    obtain ⟨p, hp, -⟩ := hex
    cases hp
  | cons p cmds ih =>
    rw [List.forall_mem_cons] at hcmds
    rw [tryAll]
    by_cases hmatch : p.2.matches name st
    · obtain ⟨c', htry, hc'⟩ := permissive_accepts hc hcmds.1 hmatch first
      rw [FsCmd.matches] at hmatch
      rw [if_pos hmatch, htry]
      exact ⟨c', rfl, hc'⟩
    · obtain ⟨q, hq, hqmatch⟩ := hex
      have hq' : q ∈ cmds := by
        rcases List.mem_cons.mp hq with rfl | hq
        · exact absurd hqmatch hmatch
        · exact hq
      rw [FsCmd.matches] at hmatch
      rw [if_neg hmatch]
      exact ih hcmds.2 ⟨q, hq', hqmatch⟩

lemma permissive_handle {c : Conf Unit Unit Unit} (hc : Ready c) {st : Status}
    (hst : st.isDirective) (hnest : (st.nest c.stMod.length).isSome) :
    ∃ c', fsConfHandle permissive c st = .ok c' ∧ Ready c' := by
  by_cases hend : st = .blockEnd
  · subst hend
    cases hframes : c.stMod with
    | nil =>
      rw [hframes] at hnest
      cases hnest
    | cons frame frames =>
      have hchild := hc.child frame (by rw [hframes]; exact List.mem_cons_self)
      refine ⟨c.stPop.emit .closed, ?_, hc.named, hc.registry, ?_⟩
      · simp [fsConfHandle, closeBlock, hframes, hchild]
      · intro frame' hframe'
        exact hc.child frame' (List.mem_of_mem_tail hframe')
  · have hst' : st = .ok ∨ st = .blockStart := by
      cases st <;> simp_all [Status.isDirective]
    obtain ⟨name, hname⟩ := Option.isSome_iff_exists.mp hc.named
    rw [fsConfHandle, if_neg (by simpa using hend), hname]
    exact permissive_tryAll (fun _ hp => hp) (permissive_matches name hst') hc _

lemma push_named {tokens : FsArr FsStr} (h : (tokens.nth 0).isSome) (t : FsStr) :
    ((tokens.push t).nth 0).isSome := by
  by_cases hcount : tokens.eleCount = 0
  · have hself := tokens.push_nth_self t
    rw [hcount] at hself
    rw [hself]
    rfl
  · rw [tokens.push_nth_lt t (Nat.pos_of_ne_zero hcount)]
    exact h

lemma refill_named {tokens : FsArr FsStr} (h : (tokens.nth 0).isSome) (ts : List FsStr) :
    ((tokens.refill ts).nth 0).isSome := by
  have hpush : ∀ (ts : List FsStr) (tokens : FsArr FsStr), (tokens.nth 0).isSome →
      ((ts.foldl FsArr.push tokens).nth 0).isSome := by
    intro ts
    induction ts with
    | nil => exact fun _ h => h
    | cons t ts ih => exact fun tokens h => ih _ (push_named h t)
  exact hpush ts tokens.reset h

/-- With `permissive`, only a closing brace too many stops a parse. -/
lemma permissive_conduct {tok : Word → Option FsStr} {t : Word → FsStr}
    (htok : ∀ w, tok w = some (t w)) {mode : ParseMode} (hmode : mode ≠ .block)
    {rs : List (List Word × Status)} (hdir : ∀ r ∈ rs, r.2.isDirective) (left : List Word) :
    ∀ c : Conf Unit Unit Unit, Ready c → (nesting c.stMod.length (rs.map Prod.snd)).isSome →
      (conduct permissive mode c (replies tok rs left)).verdict = .ok ∧
        (conduct permissive mode c (replies tok rs left)).directives
          = rs.map fun r => (r.2, r.1.map t) := by
  have hm : ∀ ws : List Word, ws.mapM tok = some (ws.map t) :=
    fun ws => mapM_eq_map_iff.mpr fun w _ => htok w
  induction rs with
  | nil =>
    intro c _ _
    simp [replies, reply, hm, conduct, hmode]
  | cons r rs ih =>
    intro c hc hnest
    rw [List.forall_mem_cons] at hdir
    obtain ⟨ws, st⟩ := r
    rw [List.map_cons, nesting] at hnest
    have hc' : Ready (c.taken st (ws.map t)) := ⟨refill_named hc.named _, hc.registry, hc.child⟩
    obtain ⟨d, hd, hrest⟩ : ∃ d, st.nest c.stMod.length = some d ∧
        (nesting d (rs.map Prod.snd)).isSome := by
      cases hd : st.nest c.stMod.length with
      | none =>
        simp only [hd] at hnest
        cases hnest
      | some d =>
        simp only [hd] at hnest
        exact ⟨d, rfl, hnest⟩
    have hsome : (st.nest (c.taken st (ws.map t)).stMod.length).isSome := by
      rw [show (c.taken st (ws.map t)).stMod = c.stMod from rfl, hd]
      rfl
    obtain ⟨c₁, hhandle, hc₁⟩ := permissive_handle hc' hdir.1 hsome
    have hlen : c₁.stMod.length = d := by
      have hnest₁ := (handle_follows hdir.1 hhandle).nest
      rw [show (c.taken st (ws.map t)).stMod = c.stMod from rfl, hd] at hnest₁
      exact (Option.some.inj hnest₁).symm
    obtain ⟨hv, hds⟩ := ih hdir.2 c₁ hc₁ (hlen ▸ hrest)
    simp only [replies, hm, conduct_directive permissive mode hdir.1, hhandle]
    exact ⟨hv, by rw [hds]; rfl⟩

end Folksong
