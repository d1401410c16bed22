import Folksong.Conf.Words
import Folksong.Conf.Parse

/-!
# A parse, directive by directive

The scanner and the engine meet in the tokens only. `conduct` handles a list of replies of the
scanner; the parse loop conducts the replies of `tokenize`, however its input is delivered.
-/

namespace Folksong

variable {μ κ H : Type}

/-! ### The tokens of a directive -/

/-- The tokens after the next directive, which are stored over those of the one before. -/
def FsArr.refill (tokens : FsArr FsStr) (ts : List FsStr) : FsArr FsStr :=
  ts.foldl FsArr.push tokens.reset

/-- What `fs_conf_next_token` does to the tokens. -/
def Taken.pushes (tokens : FsArr FsStr) : Taken → Prop
  | .ret _ _ tokens' => ∃ ts : List FsStr, tokens' = ts.foldl FsArr.push tokens
  | .undefined => True

lemma foldl_push_toList (tokens : FsArr FsStr) (ts : List FsStr) :
    (ts.foldl FsArr.push tokens).toList = tokens.toList ++ ts := by
  induction ts generalizing tokens with
  | nil => simp
  | cons t ts ih => rw [List.foldl_cons, ih, FsArr.push_toList, List.append_assoc]; rfl

lemma Taken.pushes.cons {tokens : FsArr FsStr} {token : FsStr} {r : Taken}
    (h : r.pushes (tokens.push token)) : r.pushes tokens := by
  cases r with
  | undefined => trivial
  | ret st f tokens' =>
    obtain ⟨ts, rfl⟩ := h
    exact ⟨token :: ts, rfl⟩

lemma nextTokenLoop_pushes (io : ReadOutcome) :
    ∀ (n : Nat) (s : Scan) (f : FsFile) (tokens : FsArr FsStr),
      (nextTokenLoop io n s f tokens).pushes tokens := by
  intro n
  induction n with
  | zero => exact fun _ _ _ => trivial
  | succ n ih =>
    intro s f tokens
    rw [nextTokenLoop]
    cases refill io f with
    | done => exact ⟨[], rfl⟩
    | failed => exact ⟨[], rfl⟩
    | go f =>
      dsimp only
      cases f.bufLshift with
      | none => trivial
      | some r =>
        obtain ⟨chr, f⟩ := r
        dsimp only
        cases scanByte s chr f.pos with
        | next s => exact ih _ _ _
        | ret st => exact ⟨[], rfl⟩
        | found s =>
          dsimp only
          cases takeToken f.mem s.tokenStart (f.pos - 1) with
          | none => trivial
          | some token =>
            dsimp only
            split_ifs with hsem hblock
            · exact ⟨[token], rfl⟩
            · exact ⟨[token], rfl⟩
            · exact (ih _ _ _).cons

/-- The scanner leaves the words of the directive, over what the array held before. -/
lemma fsConfNextToken_tokens {io : ReadOutcome} {f f' : FsFile} {tokens tokens' : FsArr FsStr}
    {st : Status} (h : fsConfNextToken io f tokens = .ret st f' tokens') :
    tokens' = tokens.refill tokens'.toList := by
  have hp := nextTokenLoop_pushes io (f.remaining + 1) Scan.start f tokens.reset
  rw [fsConfNextToken] at h
  rw [h] at hp
  obtain ⟨ts, rfl⟩ := hp
  rw [foldl_push_toList, FsArr.reset_toList, List.nil_append]
  rfl

/-! ### What every directive does to the frames -/

section

variable {env : Env μ κ H} {c : Conf μ κ H}

/-- The tokens are those of `c` and the frames are `frames`. -/
structure Conf.Left (c : Conf μ κ H) (frames : List (Frame μ κ)) (c' : Conf μ κ H) : Prop where
  tokens : c'.tokens = c.tokens
  stMod : c'.stMod = frames

/-- A command that passes leaves the frames. -/
abbrev Exit.Leaves (c : Conf μ κ H) : Exit μ κ H → Prop := Exit.Passes (c.Left c.stMod)

lemma tryParam_left (m : μ) (cmd : FsCmd κ) (first : Bool) :
    (tryParam env c m cmd first).Post (c.Left c.stMod) (Exit.Leaves c) := by
  rw [tryParam]
  split_ifs with hempty
  · trivial
  · refine (post_defined (P := fun r => c.Left c.stMod r.2) ?_).bind ?_
    · intro r h
      rw [(runCall_eq h).2]
      exact ⟨rfl, rfl⟩
    · rintro ⟨r, c'⟩ h
      cases r with
      | ok => exact h
      | pass => exact h
      | error => trivial

lemma storeTop_left (c : Conf μ κ H) (p : Ptr) : c.Left c.stMod (c.storeTop p) := by
  obtain ⟨ctx, heq⟩ := storeTop_changes c p
  rw [heq]
  exact ⟨rfl, rfl⟩

lemma runInitMod_left {m : μ} {cmd : FsCmd κ} {r : Ret} {c' : Conf μ κ H}
    (h : c.runInitMod env m cmd = some (r, c')) : c.Left c.stMod c' := by
  obtain ⟨ctx, heap, log, rfl⟩ := runInitMod_changes h
  exact ⟨rfl, rfl⟩

lemma runCompleted_left {m : μ} {p : Ptr} {r : Ret} {c' : Conf μ κ H}
    (h : c.runCompleted env m p = some (r, c')) : c.Left c.stMod c' := by
  obtain ⟨heap, log, rfl⟩ := runCompleted_changes h
  exact ⟨rfl, rfl⟩

lemma dropBlock_left {c' : Conf μ κ H} (h : c.dropBlock = some c') :
    c.Left c.stMod.tail c' := by
  obtain ⟨ctx, rfl⟩ := dropBlock_changes h
  exact ⟨rfl, rfl⟩

/-- The frames after a directive that ends with `st` has been accepted. -/
def Conf.Follows (c : Conf μ κ H) (st : Status) (c' : Conf μ κ H) : Prop :=
  match st with
  | .blockStart => ∃ frame, c.Left (frame :: c.stMod) c'
  | .blockEnd => c.stMod ≠ [] ∧ c.Left c.stMod.tail c'
  | _ => c.Left c.stMod c'

lemma leaveBlock_left {c₁ : Conf μ κ H} {frame : Frame μ κ}
    (h₁ : c.Left (frame :: c.stMod) c₁) (m : μ) (cmd : FsCmd κ) {st : Status}
    (hst : st = .ok ∨ st = .blockStart) :
    (leaveBlock env c₁ m cmd st).Post (c.Follows st) (Exit.Leaves c) := by
  rcases hst with rfl | rfl
  · rw [leaveBlock, if_pos (by decide)]
    refine (post_defined (P := fun r => c₁.Left c₁.stMod r.2)
      fun r h => runCompleted_left h).bind ?_
    rintro ⟨r, c₂⟩ ⟨htokens, hstMod⟩
    cases r with
    | ok =>
      refine ⟨htokens.trans h₁.tokens, ?_⟩
      change c₂.stMod.tail = c.stMod
      rw [show c₂.stMod = _ from hstMod, h₁.stMod, List.tail_cons]
    | pass => trivial
    | error => trivial
  · rw [leaveBlock, if_neg (by decide)]
    exact ⟨frame, h₁.tokens, h₁.stMod⟩

variable [DecidableEq μ]

lemma enterBlock_left (m : μ) (cmd : FsCmd κ) (first : Bool) :
    (enterBlock env (c.stPush m cmd) m cmd first).Post
      (fun r => c.Left (⟨m, cmd, c.ctx.slot⟩ :: c.stMod) r.2) (Exit.Leaves c) := by
  rw [enterBlock]
  split_ifs with hch
  · exact ⟨(storeTop_left (c.stPush m cmd) _).tokens, (storeTop_left (c.stPush m cmd) _).stMod⟩
  · refine (post_defined (P := fun r => (c.stPush m cmd).Left (c.stPush m cmd).stMod r.2)
      fun r h => runInitMod_left h).bind ?_
    rintro ⟨r, c₁⟩ ⟨htokens, hstMod⟩
    cases r with
    | error => trivial
    | pass =>
      refine (post_defined fun c₂ h => dropBlock_left h).bind fun c₂ h => ?_
      exact ⟨h.tokens.trans htokens, by rw [h.stMod, hstMod]; rfl⟩
    | ok =>
      refine (post_defined (P := fun c₂ => c₁.Left c₁.stMod c₂) ?_).bind fun c₂ h => ?_
      · intro c₂ h
        rw [Conf.register] at h
        split at h
        · cases h
          exact ⟨rfl, rfl⟩
        · cases h
      · exact ⟨h.tokens.trans htokens, h.stMod.trans hstMod⟩

lemma callBlock_left {c₁ : Conf μ κ H} {frame : Frame μ κ}
    (h₁ : c.Left (frame :: c.stMod) c₁) (m : μ) (cmd : FsCmd κ) (first : Bool) :
    (callBlock env c₁ m cmd first).Post (c.Left (frame :: c.stMod)) (Exit.Leaves c) := by
  rw [callBlock]
  refine (post_defined (P := fun r => c.Left (frame :: c.stMod) r.2) ?_).bind ?_
  · intro r h
    obtain ⟨r', -, rfl⟩ := Option.map_eq_some_iff.mp h
    exact ⟨h₁.tokens, h₁.stMod⟩
  · rintro ⟨r, c₂⟩ ⟨htokens, hstMod⟩
    cases r with
    | ok => exact ⟨htokens, hstMod⟩
    | error => trivial
    | pass =>
      refine (post_defined fun c₃ h => dropBlock_left h).bind fun c₃ h => ?_
      refine (post_defined (P := fun c₄ => c₃.Left c₃.stMod c₄) ?_).bind fun c₄ h' => ?_
      · intro c₄ h
        obtain ⟨ctxs, -, rfl⟩ := Option.map_eq_some_iff.mp h
        exact ⟨rfl, rfl⟩
      · refine ⟨(h'.tokens.trans h.tokens).trans htokens, ?_⟩
        rw [h'.stMod, h.stMod, hstMod, List.tail_cons]

lemma FsCmd.fits_eq {cmd : FsCmd κ} {st : Status} (h : cmd.fits st) :
    st = if cmd.block then .blockStart else .ok := by
  cases hb : cmd.block <;> simpa [FsCmd.fits, hb] using h

lemma tryBlock_left (m : μ) (cmd : FsCmd κ) {st : Status} (hst : st = .ok ∨ st = .blockStart)
    (first : Bool) : (tryBlock env c m cmd st first).Post (c.Follows st) (Exit.Leaves c) :=
  (enterBlock_left m cmd first).bind fun _ h₁ =>
    (callBlock_left h₁ m cmd _).bind fun _ h₂ => leaveBlock_left h₂ m cmd hst

lemma tryAll_left {name : FsStr} {st : Status} (hst : st = .ok ∨ st = .blockStart)
    (cmds : List (μ × FsCmd κ)) :
    ∀ (first : Bool) (c : Conf μ κ H),
      (tryAll env name st cmds first c).Post (c.Follows st) (fun _ => True) := by
  induction cmds with
  | nil => exact fun _ _ => trivial
  | cons p cmds ih =>
    intro first c
    obtain ⟨m, cmd⟩ := p
    rw [tryAll]
    by_cases hmatch : fsStrCmp cmd.token name && cmd.fits st
    · rw [if_pos hmatch]
      have htry : (if cmd.isParam then tryParam env c m cmd first
          else tryBlock env c m cmd st first).Post (c.Follows st) (Exit.Leaves c) := by
        by_cases hparam : cmd.isParam
        · rw [if_pos hparam]
          have hok : st = .ok := by
            rw [Bool.and_eq_true] at hmatch
            rw [FsCmd.isParam, Bool.and_eq_true, Bool.not_eq_true'] at hparam
            rw [FsCmd.fits_eq hmatch.2, hparam.2]
            rfl
          subst hok
          exact tryParam_left m cmd first
        · rw [if_neg hparam]
          exact tryBlock_left m cmd hst first
      generalize (if cmd.isParam then tryParam env c m cmd first
          else tryBlock env c m cmd st first) = r at htry ⊢
      cases r with
      | ok c' => exact htry
      | error e =>
        cases e with
        | undefined => trivial
        | error _ => trivial
        | pass first₁ c₁ =>
          have hpass : c.Left c.stMod c₁ := htry
          refine (ih first₁ c₁).mono ?_ fun _ h => h
          intro c' h
          rcases hst with rfl | rfl
          · exact ⟨h.tokens.trans hpass.tokens, h.stMod.trans hpass.stMod⟩
          · obtain ⟨frame, h⟩ := h
            exact ⟨frame, h.tokens.trans hpass.tokens, by rw [h.stMod, hpass.stMod]⟩
    · rw [if_neg hmatch]
      exact ih first c

/-- What an accepted directive does to the frames, in every state of the engine. -/
lemma handle_follows {st : Status} {c' : Conf μ κ H} (hst : st.isDirective)
    (h : fsConfHandle env c st = .ok c') : c.Follows st c' := by
  rw [fsConfHandle] at h
  by_cases hend : st = .blockEnd
  · subst hend
    rw [if_pos (by decide), closeBlock] at h
    split at h
    · cases h
    · next frame frames hframes =>
      refine ⟨by simp [hframes], ?_⟩
      split_ifs at h with hchild
      · cases h
        exact ⟨rfl, rfl⟩
      · refine Except.Post.of_ok (P := c.Left c.stMod.tail) (Q := Exit.Leaves c) ?_ h
        refine (post_defined (P := fun r => c.Left c.stMod r.2)
          fun r h => runCompleted_left h).bind ?_
        rintro ⟨r, c₁⟩ ⟨htokens, hstMod⟩
        cases r with
        | ok => exact ⟨htokens, congrArg List.tail hstMod⟩
        | pass => trivial
        | error => trivial
  · have hst' : st = .ok ∨ st = .blockStart := by
      cases st <;> simp_all [Status.isDirective]
    rw [if_neg (by simpa using hend)] at h
    cases hname : c.tokens.nth 0 with
    | none =>
      rw [hname] at h
      cases h
    | some name =>
      rw [hname] at h
      exact (tryAll_left hst' env.candidates (env.first c) c).of_ok h

lemma handle_tokens {st : Status} {c' : Conf μ κ H} (hst : st.isDirective)
    (h : fsConfHandle env c st = .ok c') : c'.tokens = c.tokens := by
  have hf := handle_follows hst h
  cases st with
  | ok =>
    obtain ⟨htokens, -⟩ := hf
    exact htokens
  | blockStart =>
    obtain ⟨-, htokens, -⟩ := hf
    exact htokens
  | blockEnd => exact hf.2.tokens
  | fileDone => cases hst
  | error => cases hst

end

/-! ### The loop -/

section

variable [DecidableEq μ] (env : Env μ κ H) (mode : ParseMode)

/-- The state in which a directive with the words `ts` is handled. -/
def Conf.taken (c : Conf μ κ H) (st : Status) (ts : List FsStr) : Conf μ κ H :=
  c.take ⟨st, c.tokens.refill ts⟩

/-- Handle what the scanner has replied, up to the end of the parse. -/
def conduct : Conf μ κ H → List Reply → Parsed μ κ
  | c, [] => ⟨.undefined, [], c.log⟩
  | c, .undefined :: _ => ⟨.undefined, [], c.log⟩
  | c, .taken st ts :: rs =>
    match st with
    | .error => ⟨.error, [], c.log⟩
    | .fileDone => ⟨if mode == .block then .error else .ok, [], c.log⟩
    | _ =>
      match fsConfHandle env (c.taken st ts) st with
      | .ok c =>
        let rest := conduct c rs
        { rest with directives := (st, ts) :: rest.directives }
      | .error .undefined => ⟨.undefined, [(st, ts)], c.log⟩
      | .error (.error c) | .error (.pass _ c) => ⟨.error, [(st, ts)], c.log⟩

lemma conduct_directive {st : Status} (hst : st.isDirective) (c : Conf μ κ H) (ts : List FsStr)
    (rs : List Reply) :
    conduct env mode c (.taken st ts :: rs)
      = match fsConfHandle env (c.taken st ts) st with
        | .ok c => { conduct env mode c rs with
            directives := (st, ts) :: (conduct env mode c rs).directives }
        | .error .undefined => ⟨.undefined, [(st, ts)], c.log⟩
        | .error (.error c) | .error (.pass _ c) => ⟨.error, [(st, ts)], c.log⟩ := by
  cases st with
  | ok => rfl
  | blockStart => rfl
  | blockEnd => rfl
  | fileDone => cases hst
  | error => cases hst

/-- One turn of the loop on a directive. -/
lemma parseTurn_directive {io : ReadOutcome} {f f' : FsFile} {c : Conf μ κ H} {st : Status}
    {tokens : FsArr FsStr} (hst : st.isDirective)
    (h : fsConfNextToken io f c.tokens = .ret st f' tokens) :
    parseTurn env io mode f c
      = match fsConfHandle env (c.take ⟨st, tokens⟩) st with
        | .ok c => .next ⟨st, tokens⟩ f' c
        | .error .undefined => .stop .undefined (some ⟨st, tokens⟩) (c.take ⟨st, tokens⟩)
        | .error (.error c) | .error (.pass _ c) => .stop .error (some ⟨st, tokens⟩) c := by
  rw [parseTurn, h]
  cases st with
  | ok => rfl
  | blockStart => rfl
  | blockEnd => rfl
  | fileDone => cases hst
  | error => cases hst

/-- The loop conducts the replies of the scanner. -/
theorem parseLoop_eq_conduct (io : ReadOutcome) :
    ∀ (n : Nat) (f : FsFile) (c : Conf μ κ H),
      parseLoop env io mode n f c = conduct env mode c (tokenize io n f c.tokens) := by
  intro n
  induction n with
  | zero => exact fun _ _ => rfl
  | succ n ih =>
    intro f c
    rw [parseLoop, tokenize]
    cases hs : fsConfNextToken io f c.tokens with
    | undefined =>
      rw [parseTurn, hs]
      rfl
    | ret st f' tokens =>
      by_cases hst : st.isDirective
      · have htokens : tokens = c.tokens.refill tokens.toList := fsConfNextToken_tokens hs
        rw [parseTurn_directive env mode hst hs]
        dsimp only
        rw [conduct_directive env mode hst, if_pos hst, Conf.taken, ← htokens]
        cases hc : fsConfHandle env (c.take ⟨st, tokens⟩) st with
        | ok c' =>
          have hsame : c'.tokens = tokens := handle_tokens hst hc
          dsimp only
          rw [ih f' c', hsame]
          rfl
        | error e => cases e <;> rfl
      · rw [parseTurn, hs]
        cases st with
        | ok => exact absurd rfl hst
        | blockStart => exact absurd rfl hst
        | blockEnd => exact absurd rfl hst
        | fileDone => rfl
        | error => rfl

end

end Folksong
