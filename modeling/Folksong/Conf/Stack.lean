import Folksong.Lib.Post
import Folksong.Conf.Handle

/-!
# What one directive does to the engine

`Conf.Inv` relates the engine to the blocks that are open: each frame stands for one of them and
its slot of `run->ctx` still holds the context the block was opened with. The inversion lemmas
`handle_cases` and `tryBlock_post` say once what a directive can do; they need the directive to
push no context slot that would move `run->ctx` under an open frame.
-/

namespace Folksong

variable {μ κ H : Type}

/-- The event that accepts a block. -/
def Event.isAccepted : Event μ κ → Bool
  | .opened _ | .single _ => true
  | _ => false

/-- The call that completes an own block. -/
def Env.completion (env : Env μ κ H) (b : Opened μ κ) : List (Event μ κ) :=
  if (env.methods b.mod).initModCompleted.isSome then [.completed b.mod b.ctx .ok] else []

/-- What a closing brace calls: sub-blocks are not completed. -/
def Env.closing (env : Env μ κ H) (b : Opened μ κ) : List (Event μ κ) :=
  if b.cmd.child then [] else env.completion b

/-- The event lists after which the blocks `bs` are open, innermost first. A callback of a
child command is called with the context of the innermost open block, and a block is completed
once, when it is closed, with the context it was opened with. -/
inductive Traced (env : Env μ κ H) : List (Event μ κ) → List (Opened μ κ) → Prop where
  | nil : Traced env [] []
  | initMod {log bs m r} : Traced env log bs → Traced env (log ++ [.initMod m r]) bs
  | call {log bs m cmd p r} : Traced env log bs → (cmd.child → ∀ b ∈ bs.head?, p = b.ctx) →
      Traced env (log ++ [.call m cmd p r]) bs
  | opened {log bs b} : Traced env log bs → (b.cmd.child → ∀ b' ∈ bs.head?, b.ctx = b'.ctx) →
      Traced env (log ++ [.opened b]) (b :: bs)
  | single {log bs b} : Traced env log bs → Traced env (log ++ (env.completion b ++ [.single b])) bs
  | closed {log b bs} : Traced env log (b :: bs) → Traced env (log ++ (env.closing b ++ [.closed])) bs

/-- The frame stands for the open block: its slot lies in the storage in use, among the first
`n`, and holds the context of the block. -/
structure Frame.Holds (env : Env μ κ H) (ctx : FsArr Ptr) (n : Nat) (f : Frame μ κ)
    (b : Opened μ κ) : Prop where
  mod : f.mod = b.mod
  cmd : f.cmd = b.cmd
  current : f.ctx.gen = ctx.gen
  idx_lt : f.ctx.idx < n
  value : env.slotValue ctx f.ctx = b.ctx

/-- Every frame stands for its block. -/
def Conf.Kept (env : Env μ κ H) (c : Conf μ κ H) (bs : List (Opened μ κ)) : Prop :=
  List.Forall₂ (Frame.Holds env c.ctx c.ctx.eleCount) c.stMod bs

/-- The engine between two directives, with the blocks `bs` open. -/
structure Conf.Inv (env : Env μ κ H) (c : Conf μ κ H) (bs : List (Opened μ κ)) : Prop where
  traced : Traced env c.log bs
  kept : c.Kept env bs
  depth : c.stDepth = c.stMod.length
  count : c.ctx.eleCount = c.log.countP Event.isAccepted

/-- A push of a context slot moves no slot of an open frame. -/
def Conf.Room (c : Conf μ κ H) : Prop := c.stMod = [] ∨ c.ctx.isFull = false

instance (c : Conf μ κ H) : Decidable c.Room :=
  inferInstanceAs (Decidable (c.stMod = [] ∨ c.ctx.isFull = false))

/-- The engine inside a directive: a frame for `b` has been pushed over the blocks `bs` of
`c₀`. -/
structure Entered (env : Env μ κ H) (c₀ : Conf μ κ H) (bs : List (Opened μ κ)) (b : Opened μ κ)
    (c : Conf μ κ H) : Prop where
  tokens : c.tokens = c₀.tokens
  stMod : c.stMod = ⟨b.mod, b.cmd, ⟨c.ctx.gen, c₀.ctx.eleCount⟩⟩ :: c₀.stMod
  depth : c.stDepth = c₀.stDepth + 1
  count : c.ctx.eleCount = c₀.ctx.eleCount + 1
  kept : List.Forall₂ (Frame.Holds env c.ctx c₀.ctx.eleCount) c₀.stMod bs
  value : env.slotValue c.ctx ⟨c.ctx.gen, c₀.ctx.eleCount⟩ = b.ctx
  room : c₀.stMod = [] ∨ c.ctx.eleCapa = c₀.ctx.eleCapa

lemma Frame.Holds.mono {env : Env μ κ H} {ctx : FsArr Ptr} {n n' : Nat} {f : Frame μ κ}
    {b : Opened μ κ} (h : f.Holds env ctx n b) (hn : n ≤ n') : f.Holds env ctx n' b :=
  ⟨h.mod, h.cmd, h.current, lt_of_lt_of_le h.idx_lt hn, h.value⟩

namespace Conf

variable {env : Env μ κ H} {c : Conf μ κ H} {bs : List (Opened μ κ)}

lemma Kept.topCtx {b : Opened μ κ} (h : c.Kept env (b :: bs)) : c.topCtx env = b.ctx := by
  obtain ⟨frames, heq⟩ : ∃ frames, c.stMod = frames := ⟨_, rfl⟩
  rw [Kept, heq] at h
  cases h with
  | cons hf _ => simp [Conf.topCtx, heq, deref, hf.current, hf.value]

end Conf

namespace Entered

variable {env : Env μ κ H} {c₀ c : Conf μ κ H} {bs : List (Opened μ κ)} {b : Opened μ κ}

/-- The frames of the state inside the directive. -/
lemma keeps (h : Entered env c₀ bs b c) : c.Kept env (b :: bs) := by
  rw [Conf.Kept, h.stMod]
  refine .cons ⟨rfl, rfl, rfl, ?_, h.value⟩ (h.kept.imp fun _ _ hf => hf.mono ?_)
  · rw [h.count]
    exact Nat.lt_succ_self _
  · rw [h.count]
    exact Nat.le_succ _

lemma topCtx (h : Entered env c₀ bs b c) : c.topCtx env = b.ctx := h.keeps.topCtx

/-- The parent of the new frame is the block that was innermost. -/
lemma subtopCtx {b' : Opened μ κ} (h : Entered env c₀ (b' :: bs) b c) :
    c.subtopCtx env = b'.ctx := by
  have hk := h.kept
  rw [List.forall₂_cons_right_iff] at hk
  obtain ⟨f, fs, hf, -, heq⟩ := hk
  simp [Conf.subtopCtx, h.stMod, heq, Conf.deref, hf.current, hf.value]

/-- Entering a block looks at nothing but the stack, the contexts and the tokens. -/
lemma congr {c' : Conf μ κ H} (h : Entered env c₀ bs b c) (ht : c'.tokens = c.tokens)
    (hs : c'.stMod = c.stMod) (hd : c'.stDepth = c.stDepth) (hc : c'.ctx = c.ctx) :
    Entered env c₀ bs b c' := by
  refine ⟨ht.trans h.tokens, ?_, hd.trans h.depth, ?_, ?_, ?_, ?_⟩
  · rw [hs, hc, h.stMod]
  · rw [hc, h.count]
  · rw [hc]
    exact h.kept
  · rw [hc]
    exact h.value
  · rw [hc]
    exact h.room

end Entered

/-- The engine after a command has passed: the stack is that of `c₀`. -/
structure Stayed (env : Env μ κ H) (c₀ : Conf μ κ H) (bs : List (Opened μ κ))
    (c : Conf μ κ H) : Prop where
  tokens : c.tokens = c₀.tokens
  stMod : c.stMod = c₀.stMod
  depth : c.stDepth = c₀.stDepth
  count : c.ctx.eleCount = c₀.ctx.eleCount
  kept : List.Forall₂ (Frame.Holds env c.ctx c₀.ctx.eleCount) c₀.stMod bs
  room : c₀.stMod = [] ∨ c.ctx.eleCapa = c₀.ctx.eleCapa

/-! ### The operations on the stack -/

namespace Conf

variable {env : Env μ κ H} {c : Conf μ κ H} {bs : List (Opened μ κ)}

/-- A push with room enters a block, whose context is what the new slot happens to hold. -/
lemma Inv.stPush (h : c.Inv env bs) (hr : c.Room) (m : μ) (cmd : FsCmd κ) :
    Entered env c bs ⟨m, cmd, env.slotValue c.ctx.pushed c.ctx.slot⟩ (c.stPush m cmd) := by
  refine ⟨rfl, rfl, rfl, c.ctx.pushed_eleCount, ?_, rfl, ?_⟩
  · rcases hr with hnil | hfull
    · have hk := h.kept
      rw [Kept, hnil] at hk
      cases hk
      rw [hnil]
      exact .nil
    · refine h.kept.imp fun f b hf => ⟨hf.mod, hf.cmd, ?_, hf.idx_lt, ?_⟩
      · rw [hf.current]
        simp [Conf.stPush, FsArr.grow_of_not_full hfull]
      · have hlt : f.ctx.idx < c.ctx.elems.length := lt_of_lt_of_le hf.idx_lt c.ctx.count_le
        rw [← hf.value, Env.slotValue, Env.slotValue, Conf.stPush, FsArr.pushed_nth _ hlt]
  · rcases hr with hnil | hfull
    · exact .inl hnil
    · right
      simp [Conf.stPush, FsArr.pushed, FsArr.eleCapa, FsArr.grow_of_not_full hfull]

end Conf

namespace Entered

variable {env : Env μ κ H} {c₀ c : Conf μ κ H} {bs : List (Opened μ κ)} {b : Opened μ κ}

/-- Storing through the new slot gives the block its context and changes no other frame. -/
lemma storeTop (h : Entered env c₀ bs b c) (p : Ptr) :
    Entered env c₀ bs ⟨b.mod, b.cmd, p⟩ (c.storeTop p) := by
  have heq : c.storeTop p = { c with ctx := c.ctx.write c₀.ctx.eleCount p } := by
    simp [Conf.storeTop, h.stMod]
  rw [heq]
  refine ⟨h.tokens, h.stMod, h.depth, h.count, ?_, ?_, ?_⟩
  · refine h.kept.imp fun f b' hf => ⟨hf.mod, hf.cmd, hf.current, hf.idx_lt, ?_⟩
    rw [← hf.value, Env.slotValue, Env.slotValue, FsArr.write_nth_ne _ _ (ne_of_gt hf.idx_lt)]
  · have hlt : c₀.ctx.eleCount < c.ctx.elems.length := by
      have hle := c.ctx.count_le
      rw [h.count] at hle
      exact hle
    simp [Env.slotValue, FsArr.write_nth_self _ _ hlt]
  · simpa [FsArr.eleCapa, FsArr.write] using h.room

/-- Taking the frame off again leads back to the stack before it. -/
lemma dropBlock (h : Entered env c₀ bs b c) :
    ∃ ctx, c.dropBlock = some { c with ctx := ctx }.stPop ∧
      Stayed env c₀ bs { c with ctx := ctx }.stPop := by
  have hne : c.ctx.eleCount ≠ 0 := by
    rw [h.count]
    exact Nat.succ_ne_zero _
  refine ⟨⟨c.ctx.gen, c.ctx.elems, c.ctx.eleCount - 1, c.ctx.capa_pos,
    (Nat.sub_le _ _).trans c.ctx.count_le⟩, ?_, ?_⟩
  · simp [Conf.dropBlock, FsArr.decCount, hne]
  · refine ⟨h.tokens, ?_, ?_, ?_, ?_, h.room⟩
    · simp [Conf.stPop, h.stMod]
    · simp [Conf.stPop, h.depth]
    · simp [Conf.stPop, h.count]
    · exact h.kept.imp fun f b' hf => ⟨hf.mod, hf.cmd, hf.current, hf.idx_lt, hf.value⟩

end Entered

namespace Stayed

variable {env : Env μ κ H} {c₀ c : Conf μ κ H} {bs : List (Opened μ κ)}

lemma congr {c' : Conf μ κ H} (h : Stayed env c₀ bs c) (ht : c'.tokens = c.tokens)
    (hs : c'.stMod = c.stMod) (hd : c'.stDepth = c.stDepth) (hc : c'.ctx = c.ctx) :
    Stayed env c₀ bs c' := by
  refine ⟨ht.trans h.tokens, hs.trans h.stMod, hd.trans h.depth, ?_, ?_, ?_⟩
  · rw [hc, h.count]
  · rw [hc]
    exact h.kept
  · rw [hc]
    exact h.room

/-- The invariant holds again, when the events in between open and close nothing. -/
lemma inv (h : Stayed env c₀ bs c) (h₀ : c₀.Inv env bs) (ht : Traced env c.log bs)
    (hl : c.log.countP Event.isAccepted = c₀.log.countP Event.isAccepted) : c.Inv env bs := by
  refine ⟨ht, ?_, ?_, ?_⟩
  · rw [Conf.Kept, h.stMod, h.count]
    exact h.kept
  · rw [h.depth, h.stMod, h₀.depth]
  · rw [h.count, h₀.count, hl]

lemma keeps_room (h : Stayed env c₀ bs c) (hr : c₀.Room) : c.Room := by
  rcases hr with hnil | hfull
  · exact .inl (h.stMod.trans hnil)
  · rcases h.room with hnil | hcapa
    · exact .inl (h.stMod.trans hnil)
    · right
      rw [FsArr.isFull, h.count, hcapa]
      exact hfull

end Stayed

/-! ### What a directive can do -/

/-- The command is tried for a directive with this name that ends in this way. -/
def FsCmd.matches (cmd : FsCmd κ) (name : FsStr) (st : Status) : Bool :=
  fsStrCmp cmd.token name && cmd.fits st

/-- The engine tries the command `cmd` of the module `m` for its directive. -/
structure Tried (env : Env μ κ H) (c : Conf μ κ H) (st : Status) (m : μ) (cmd : FsCmd κ) :
    Prop where
  mem : (m, cmd) ∈ env.candidates
  named : ∃ name, c.tokens.nth 0 = some name ∧ cmd.matches name st

/-- What `init_mod` of an own block answers, the context it leaves in the slot, the memory
after it and the event. A slot it does not write keeps whatever it held. -/
inductive InitMod (env : Env μ κ H) (c : Conf μ κ H) (m : μ) (cmd : FsCmd κ) :
    Ret → Ptr → H → List (Event μ κ) → Prop where
  | absent {p} : (env.methods m).initMod = none → InitMod env c m cmd .ok p c.heap []
  | stored {f r p h} : (env.methods m).initMod = some f →
      f (c.stPush m cmd) cmd = some (r, some p, h) → InitMod env c m cmd r p h [.initMod m r]
  | unset {f r p h} : (env.methods m).initMod = some f →
      f (c.stPush m cmd) cmd = some (r, none, h) → InitMod env c m cmd r p h [.initMod m r]

/-- The exit hands a state to the next command that satisfies `P`. -/
def Exit.Passes (P : Conf μ κ H → Prop) : Exit μ κ H → Prop
  | .pass _ c => P c
  | _ => True

lemma post_defined {α : Type} {x : Option α} {P : α → Prop} {Q : Conf μ κ H → Prop}
    (h : ∀ a, x = some a → P a) : (defined x).Post P (Exit.Passes Q) := by
  cases x with
  | none => trivial
  | some a => exact h a rfl

/-! ### What is changed -/

section

variable {env : Env μ κ H} {c c' : Conf μ κ H} {m : μ} {cmd : FsCmd κ} {p : Ptr} {r : Ret}

lemma storeTop_changes (c : Conf μ κ H) (p : Ptr) : ∃ ctx, c.storeTop p = { c with ctx := ctx } := by
  rw [Conf.storeTop]
  split
  · exact ⟨_, rfl⟩
  · exact ⟨c.ctx, rfl⟩

/-- A call changes the memory and is recorded. -/
lemma runCall_eq (h : c.runCall env m cmd p = some (r, c')) :
    env.call cmd.call c p = some (r, c'.heap) ∧
      c' = { c with heap := c'.heap }.emit (.call m cmd p r) := by
  obtain ⟨⟨r', h'⟩, hcall, heq⟩ := Option.map_eq_some_iff.mp h
  cases heq
  exact ⟨hcall, rfl⟩

lemma runInitMod_changes (h : c.runInitMod env m cmd = some (r, c')) :
    ∃ ctx heap log, c' = { c with ctx := ctx, heap := heap, log := log } := by
  rw [Conf.runInitMod] at h
  split at h
  · cases h
    exact ⟨c.ctx, c.heap, c.log, rfl⟩
  · obtain ⟨⟨r', q, h'⟩, -, heq⟩ := Option.map_eq_some_iff.mp h
    cases heq
    cases q with
    | none => exact ⟨c.ctx, h', _, rfl⟩
    | some q =>
      obtain ⟨ctx, hstore⟩ := storeTop_changes c q
      simp only [Option.elim_some, hstore, Conf.emit]
      exact ⟨ctx, h', _, rfl⟩

lemma runCompleted_changes (h : c.runCompleted env m p = some (r, c')) :
    ∃ heap log, c' = { c with heap := heap, log := log } := by
  rw [Conf.runCompleted] at h
  split at h
  · cases h
    exact ⟨c.heap, c.log, rfl⟩
  · obtain ⟨⟨r', h'⟩, -, heq⟩ := Option.map_eq_some_iff.mp h
    cases heq
    exact ⟨h', _, rfl⟩

lemma dropBlock_changes (h : c.dropBlock = some c') : ∃ ctx, c' = { c with ctx := ctx }.stPop := by
  obtain ⟨ctx, -, rfl⟩ := Option.map_eq_some_iff.mp h
  exact ⟨ctx, rfl⟩

end

/-- A completed block has left an event, when its module completes blocks at all. -/
lemma runCompleted_eq {env : Env μ κ H} {c c' : Conf μ κ H} {b : Opened μ κ}
    (h : c.runCompleted env b.mod b.ctx = some (.ok, c')) :
    ∃ heap, c' = { c with heap := heap, log := c.log ++ env.completion b } := by
  rw [Conf.runCompleted] at h
  cases hf : (env.methods b.mod).initModCompleted with
  | none =>
    simp only [hf, Option.some.injEq, Prod.mk.injEq, true_and] at h
    subst h
    exact ⟨c.heap, by simp [Env.completion, hf]⟩
  | some f =>
    simp only [hf] at h
    obtain ⟨⟨r, h'⟩, -, heq⟩ := Option.map_eq_some_iff.mp h
    simp only [Prod.mk.injEq] at heq
    obtain ⟨rfl, rfl⟩ := heq
    exact ⟨h', by simp [Conf.emit, Env.completion, hf]⟩

lemma completion_accepts_nothing (env : Env μ κ H) (b : Opened μ κ) :
    (env.completion b).countP Event.isAccepted = 0 := by
  rw [Env.completion]
  split_ifs <;> rfl

/-- What `init_mod` has done, before its answer is looked at. -/
lemma runInitMod_entered {env : Env μ κ H} {c c₁ : Conf μ κ H} {bs : List (Opened μ κ)} {m : μ}
    {cmd : FsCmd κ} {r : Ret}
    (hpush : Entered env c bs ⟨m, cmd, env.slotValue c.ctx.pushed c.ctx.slot⟩ (c.stPush m cmd))
    (h : (c.stPush m cmd).runInitMod env m cmd = some (r, c₁)) :
    ∃ p h log, InitMod env c m cmd r p h log ∧ Entered env c bs ⟨m, cmd, p⟩ c₁ ∧ c₁.heap = h ∧
      c₁.used = c.used ∧ c₁.ctxs = c.ctxs ∧ c₁.log = c.log ++ log := by
  simp only [Conf.runInitMod] at h
  cases hf : (env.methods m).initMod with
  | none =>
    simp only [hf, Option.some.injEq, Prod.mk.injEq] at h
    obtain ⟨rfl, rfl⟩ := h
    exact ⟨_, _, _, .absent hf, hpush, rfl, rfl, rfl, (List.append_nil _).symm⟩
  | some f =>
    simp only [hf] at h
    obtain ⟨⟨r', q, h'⟩, hcall, heq⟩ := Option.map_eq_some_iff.mp h
    cases heq
    cases q with
    | none => exact ⟨_, _, _, .unset hf hcall, hpush.congr rfl rfl rfl rfl, rfl, rfl, rfl, rfl⟩
    | some q =>
      exact ⟨_, _, _, .stored hf hcall, (hpush.storeTop q).congr rfl rfl rfl rfl, rfl, rfl, rfl,
        rfl⟩

section

variable [DecidableEq μ]

lemma Conf.register_eq {c : Conf μ κ H} {m : μ} {a : FsArr Ptr}
    (ha : (if c.used m then c.ctxs m else .arr (fsAllocArr Ptr 1 Nat.zero_lt_one)) = .arr a)
    (p : Ptr) :
    c.register m p = some { c with used := Function.update c.used m true
                                   ctxs := Function.update c.ctxs m (.arr (a.push p)) } := by
  rw [Conf.register, ha]

lemma Conf.unregister_eq {c c' : Conf μ κ H} {m : μ} {first : Bool}
    (h : c.unregister m first = some c') :
    ∃ ctxs, c' = { c with used := if first then Function.update c.used m false else c.used
                          ctxs := Function.update c.ctxs m ctxs } := by
  obtain ⟨ctxs, -, rfl⟩ := Option.map_eq_some_iff.mp h
  exact ⟨ctxs, rfl⟩

/-- How the block `cmd` of the module `m` is entered with the context `p`; `first` is the local
variable afterwards. -/
inductive Entry (env : Env μ κ H) (c : Conf μ κ H) (bs : List (Opened μ κ)) (m : μ)
    (cmd : FsCmd κ) (p : Ptr) : Bool → Conf μ κ H → Prop where
  | child {first c₁} : cmd.child = true → (∀ b ∈ bs.head?, p = b.ctx) →
      Entered env c bs ⟨m, cmd, p⟩ c₁ → c₁.heap = c.heap → c₁.used = c.used →
      c₁.ctxs = c.ctxs → c₁.log = c.log → Entry env c bs m cmd p first c₁
  | own {h log a c₁} : cmd.child = false → InitMod env c m cmd .ok p h log →
      (if c.used m then c.ctxs m else .arr (fsAllocArr Ptr 1 Nat.zero_lt_one)) = .arr a →
      Entered env c bs ⟨m, cmd, p⟩ c₁ → c₁.heap = h → c₁.used = Function.update c.used m true →
      c₁.ctxs = Function.update c.ctxs m (.arr (a.push p)) → c₁.log = c.log ++ log →
      Entry env c bs m cmd p (!c.used m) c₁

/-- What a command that passes leaves behind. -/
inductive Passed (env : Env μ κ H) (c : Conf μ κ H) (bs : List (Opened μ κ)) (st : Status) :
    Conf μ κ H → Prop where
  | param {m cmd b h} : Tried env c st m cmd → cmd.isParam → b ∈ bs.head? →
      env.call cmd.call c b.ctx = some (.pass, h) →
      Passed env c bs st ({ c with heap := h }.emit (.call m cmd b.ctx .pass))
  | initMod {m cmd p h log c'} : Tried env c st m cmd → cmd.child = false →
      InitMod env c m cmd .pass p h log → Stayed env c bs c' → c'.heap = h →
      c'.used = c.used → c'.ctxs = c.ctxs → c'.log = c.log ++ log → Passed env c bs st c'
  | call {m cmd p first c₁ h c₂ c'} : Tried env c st m cmd → cmd.isParam = false →
      Entry env c bs m cmd p first c₁ → env.call cmd.call c₁ p = some (.pass, h) →
      Stayed env c bs c₂ → c₂.heap = h → c₂.used = c₁.used → c₂.ctxs = c₁.ctxs →
      c₂.log = c₁.log ++ [.call m cmd p .pass] → c₂.unregister m first = some c' →
      Passed env c bs st c'

/-- What the command does that accepts the directive. -/
inductive Accepted (env : Env μ κ H) (c : Conf μ κ H) (bs : List (Opened μ κ)) :
    Status → Conf μ κ H → List (Opened μ κ) → Prop where
  | param {m cmd b h} : Tried env c .ok m cmd → cmd.isParam → b ∈ bs.head? →
      env.call cmd.call c b.ctx = some (.ok, h) →
      Accepted env c bs .ok ({ c with heap := h }.emit (.call m cmd b.ctx .ok)) bs
  | block {m cmd p first c₁ h} : Tried env c .blockStart m cmd → cmd.block = true →
      Entry env c bs m cmd p first c₁ → env.call cmd.call c₁ p = some (.ok, h) →
      Accepted env c bs .blockStart
        (({ c₁ with heap := h }.emit (.call m cmd p .ok)).emit (.opened ⟨m, cmd, p⟩))
        (⟨m, cmd, p⟩ :: bs)
  | single {m cmd p first c₁ h c₂} : Tried env c .ok m cmd → cmd.block = false →
      cmd.child = false → Entry env c bs m cmd p first c₁ →
      env.call cmd.call c₁ p = some (.ok, h) →
      Conf.runCompleted env ({ c₁ with heap := h }.emit (.call m cmd p .ok)) m p = some (.ok, c₂) →
      Accepted env c bs .ok (c₂.stPop.emit (.single ⟨m, cmd, p⟩)) bs
  | closeChild {b bs'} : bs = b :: bs' → b.cmd.child = true →
      Accepted env c bs .blockEnd (c.stPop.emit .closed) bs'
  | closeOwn {b bs' c₁} : bs = b :: bs' → b.cmd.child = false →
      Conf.runCompleted env c b.mod b.ctx = some (.ok, c₁) →
      Accepted env c bs .blockEnd (c₁.stPop.emit .closed) bs'

variable {env : Env μ κ H} {c : Conf μ κ H} {bs : List (Opened μ κ)}

lemma tryParam_post (hI : c.Inv env bs) {st : Status} {m : μ} {cmd : FsCmd κ}
    (hc : Tried env c st m cmd) (hp : cmd.isParam) (hst : st = .ok) (first : Bool) :
    (tryParam env c m cmd first).Post (fun c' => Accepted env c bs st c' bs)
      (Exit.Passes (Passed env c bs st)) := by
  subst hst
  have hk := hI.kept
  rw [tryParam]
  cases bs with
  | nil =>
    rw [Conf.Kept, List.forall₂_nil_right_iff] at hk
    simp [hk, Exit.Passes]
  | cons b bs =>
    have hne : c.stMod.isEmpty = false := by
      rw [Conf.Kept, List.forall₂_cons_right_iff] at hk
      obtain ⟨f, fs, -, -, heq⟩ := hk
      rw [heq]
      rfl
    rw [hne, if_neg (by decide), hk.topCtx]
    apply (post_defined fun r hr => hr).bind
    rintro ⟨r, c'⟩ hrun
    obtain ⟨hcall, heq⟩ := runCall_eq hrun
    rw [heq]
    cases r with
    | ok => exact .param hc hp rfl hcall
    | pass => exact .param hc hp rfl hcall
    | error => trivial

lemma enterBlock_post (hI : c.Inv env bs) (hr : c.Room) {st : Status} {m : μ} {cmd : FsCmd κ}
    (hc : Tried env c st m cmd) (first : Bool) :
    (enterBlock env (c.stPush m cmd) m cmd first).Post
      (fun r => ∃ p, Entry env c bs m cmd p r.1 r.2) (Exit.Passes (Passed env c bs st)) := by
  have hpush := hI.stPush hr m cmd
  rw [enterBlock]
  by_cases hch : cmd.child = true
  · rw [if_pos hch]
    refine ⟨_, .child hch ?_ (hpush.storeTop _) ?_ ?_ ?_ ?_⟩
    · intro b hb
      cases bs with
      | nil => cases hb
      | cons b' bs' =>
        cases hb
        exact hpush.subtopCtx
    all_goals rfl
  · rw [if_neg hch]
    have hch' : cmd.child = false := by simpa using hch
    refine (post_defined fun r hr => hr).bind ?_
    rintro ⟨r, c₁⟩ hrun
    obtain ⟨p, h, log, hinit, henter, hheap, hused, hctxs, hlog⟩ := runInitMod_entered hpush hrun
    dsimp only
    cases r with
    | error => trivial
    | pass =>
      obtain ⟨ctx, hdrop, hstay⟩ := henter.dropBlock
      rw [hdrop]
      exact .initMod hc hch' hinit hstay hheap hused hctxs hlog
    | ok =>
      rw [henter.topCtx]
      refine (post_defined fun c' hreg => hreg).bind fun c' hreg => ?_
      rw [Conf.register, hused, hctxs] at hreg
      split at hreg
      next a ha =>
        cases hreg
        refine ⟨p, ?_⟩
        simp only [hused]
        exact .own hch' hinit ha (henter.congr rfl rfl rfl rfl) hheap rfl rfl hlog
      next => cases hreg

lemma Entry.entered {m : μ} {cmd : FsCmd κ} {p : Ptr} {first : Bool} {c₁ : Conf μ κ H}
    (h : Entry env c bs m cmd p first c₁) : Entered env c bs ⟨m, cmd, p⟩ c₁ := by
  cases h with
  | child _ _ henter => exact henter
  | own _ _ _ henter => exact henter

lemma callBlock_post {st : Status} {m : μ} {cmd : FsCmd κ} (hc : Tried env c st m cmd)
    (hp : cmd.isParam = false) {p : Ptr} {first : Bool} {c₁ : Conf μ κ H}
    (hE : Entry env c bs m cmd p first c₁) :
    (callBlock env c₁ m cmd first).Post
      (fun c₂ => ∃ h, env.call cmd.call c₁ p = some (.ok, h) ∧
        c₂ = { c₁ with heap := h }.emit (.call m cmd p .ok))
      (Exit.Passes (Passed env c bs st)) := by
  have henter := hE.entered
  rw [callBlock, henter.topCtx]
  apply (post_defined fun r hr => hr).bind
  rintro ⟨r, c'⟩ hrun
  obtain ⟨hcall, heq⟩ := runCall_eq hrun
  rw [heq]
  cases r with
  | ok => exact ⟨_, hcall, rfl⟩
  | error => trivial
  | pass =>
    have henter' : Entered env c bs ⟨m, cmd, p⟩
        ({ c₁ with heap := c'.heap }.emit (.call m cmd p .pass)) :=
      henter.congr rfl rfl rfl rfl
    obtain ⟨ctx, hdrop, hstay⟩ := henter'.dropBlock
    simp only [hdrop, defined]
    refine (post_defined fun c₂ hun => ?_).bind fun c₂ hun => hun
    exact .call hc hp hE hcall hstay rfl rfl rfl rfl hun

lemma tryBlock_post (hI : c.Inv env bs) (hr : c.Room) {m : μ} {cmd : FsCmd κ}
    {st : Status} (hc : Tried env c st m cmd) (hp : cmd.isParam = false)
    (hfit : cmd.fits st) (first : Bool) :
    (tryBlock env c m cmd st first).Post (fun c' => ∃ bs', Accepted env c bs st c' bs')
      (Exit.Passes (Passed env c bs st)) := by
  apply (enterBlock_post hI hr hc first).bind
  rintro ⟨first₁, c₁⟩ ⟨p, hE⟩
  apply (callBlock_post hc hp hE).bind
  rintro c₂ ⟨h, hcall, rfl⟩
  have henter : Entered env c bs ⟨m, cmd, p⟩
      ({ c₁ with heap := h }.emit (.call m cmd p .ok)) := hE.entered.congr rfl rfl rfl rfl
  have htop := henter.topCtx
  simp only [leaveBlock, htop]
  by_cases hst : st = .ok
  · subst hst
    have hblock : cmd.block = false := by simpa [FsCmd.fits] using hfit
    have hchild : cmd.child = false := by simpa [FsCmd.isParam, hblock] using hp
    rw [if_pos (by decide)]
    refine (post_defined fun r hr => hr).bind ?_
    rintro ⟨r, c₂⟩ hcomp
    cases r with
    | ok => exact ⟨bs, .single hc hblock hchild hE hcall hcomp⟩
    | pass => trivial
    | error => trivial
  · have hst' : st = .blockStart := by
      cases hb : cmd.block <;> simp [FsCmd.fits, hb, hst] at hfit
      exact hfit
    subst hst'
    rw [if_neg (by decide)]
    have hblock : cmd.block = true := by simpa [FsCmd.fits] using hfit
    exact ⟨_, .block hc hblock hE hcall⟩

/-- The log when a block command has been entered and called. -/
lemma Entry.traced {m : μ} {cmd : FsCmd κ} {p : Ptr} {first : Bool} {c₁ : Conf μ κ H}
    (hE : Entry env c bs m cmd p first c₁) (ht : Traced env c.log bs) (r : Ret) :
    Traced env (c₁.log ++ [.call m cmd p r]) bs ∧
      (cmd.child → ∀ b ∈ bs.head?, p = b.ctx) ∧
      c₁.log.countP Event.isAccepted = c.log.countP Event.isAccepted := by
  cases hE with
  | child hch hp _ _ _ _ hlog =>
    rw [hlog]
    exact ⟨.call ht fun _ => hp, fun _ => hp, rfl⟩
  | own hch hinit _ _ _ _ _ hlog =>
    have hno : cmd.child → ∀ b ∈ bs.head?, p = b.ctx := by
      intro h
      rw [hch] at h
      cases h
    rw [hlog]
    cases hinit with
    | absent => exact ⟨by simpa using Traced.call ht hno, hno, by simp⟩
    | stored _ _ => exact ⟨.call (.initMod ht) hno, hno, by simp [Event.isAccepted]⟩
    | unset _ _ => exact ⟨.call (.initMod ht) hno, hno, by simp [Event.isAccepted]⟩

lemma Passed.stayed {st : Status} {c' : Conf μ κ H} (h : Passed env c bs st c')
    (hI : c.Inv env bs) :
    Stayed env c bs c' := by
  cases h with
  | param _ _ _ _ => exact ⟨rfl, rfl, rfl, rfl, hI.kept, .inr rfl⟩
  | initMod _ _ _ hstay => exact hstay
  | @call _ _ _ first _ _ c₂ _ _ _ _ _ hstay _ _ _ _ hun =>
    obtain ⟨ctxs, rfl⟩ := Conf.unregister_eq hun
    exact hstay.congr rfl rfl rfl rfl

/-- A command that passes keeps the invariant. -/
lemma Passed.inv {st : Status} {c' : Conf μ κ H} (h : Passed env c bs st c') (hI : c.Inv env bs) :
    c'.Inv env bs := by
  refine (h.stayed hI).inv hI ?_ ?_
  · cases h with
    | param _ _ hb _ =>
      exact .call hI.traced fun _ _ hb' => congrArg Opened.ctx (Option.mem_unique hb hb')
    | initMod _ _ hinit _ _ _ _ hlog =>
      rw [hlog]
      cases hinit with
      | stored _ _ => exact .initMod hI.traced
      | unset _ _ => exact .initMod hI.traced
    | call _ _ hE _ _ _ _ _ hlog hun =>
      obtain ⟨ctxs, rfl⟩ := Conf.unregister_eq hun
      simp only [hlog]
      exact (hE.traced hI.traced _).1
  · cases h with
    | param _ _ _ _ => simp [Conf.emit, Event.isAccepted]
    | initMod _ _ hinit _ _ _ _ hlog =>
      rw [hlog]
      cases hinit with
      | stored _ _ => simp [Event.isAccepted]
      | unset _ _ => simp [Event.isAccepted]
    | call _ _ hE _ _ _ _ _ hlog hun =>
      obtain ⟨ctxs, rfl⟩ := Conf.unregister_eq hun
      simp only [hlog, List.countP_append, (hE.traced hI.traced .ok).2.2]
      simp [Event.isAccepted]

/-- The directive that has been accepted leads to the invariant for the blocks now open. -/
lemma Accepted.inv {st : Status} {c' : Conf μ κ H} {bs' : List (Opened μ κ)}
    (h : Accepted env c bs st c' bs') (hI : c.Inv env bs) : c'.Inv env bs' := by
  cases h with
  | param _ _ hb _ =>
    refine ⟨.call hI.traced fun _ _ hb' => congrArg Opened.ctx (Option.mem_unique hb hb'),
      hI.kept, hI.depth, ?_⟩
    simpa [Conf.emit, Event.isAccepted] using hI.count
  | block _ _ hE _ =>
    obtain ⟨ht, hp, hcount⟩ := hE.traced hI.traced .ok
    refine ⟨.opened ht hp, hE.entered.keeps, ?_, ?_⟩
    · simp [Conf.emit, hE.entered.depth, hE.entered.stMod, hI.depth]
    · simp [Conf.emit, hE.entered.count, hI.count, hcount, Event.isAccepted]
  | @single m cmd p _ c₁ h _ _ _ _ hE _ hcomp =>
    obtain ⟨ht, hp, hcount⟩ := hE.traced hI.traced .ok
    obtain ⟨heap, rfl⟩ := runCompleted_eq (b := ⟨m, cmd, p⟩) hcomp
    have henter := hE.entered
    refine ⟨?_, ?_, ?_, ?_⟩
    · simp only [Conf.emit, Conf.stPop, List.append_assoc]
      rw [← List.append_assoc]
      exact .single ht
    · have : c.stMod = c₁.stMod.tail := by rw [henter.stMod, List.tail_cons]
      simp only [Conf.Kept, Conf.emit, Conf.stPop, ← this]
      refine henter.kept.imp fun _ _ hf => hf.mono ?_
      rw [henter.count]
      exact Nat.le_succ _
    · simp [Conf.emit, Conf.stPop, henter.depth, henter.stMod, hI.depth]
    · simp [Conf.emit, Conf.stPop, henter.count, hI.count, hcount, completion_accepts_nothing,
        Event.isAccepted]
  | @closeChild b bs' hbs hch =>
    subst hbs
    have hk := hI.kept
    rw [Conf.Kept, List.forall₂_cons_right_iff] at hk
    obtain ⟨f, fs, hf, hk, heq⟩ := hk
    refine ⟨?_, ?_, ?_, ?_⟩
    · have := Traced.closed hI.traced
      rwa [Env.closing, if_pos hch] at this
    · simpa [Conf.Kept, Conf.emit, Conf.stPop, heq] using hk
    · simp [Conf.emit, Conf.stPop, hI.depth, heq]
    · simpa [Conf.emit, Conf.stPop, Event.isAccepted] using hI.count
  | @closeOwn b bs' _ hbs hch hcomp =>
    subst hbs
    obtain ⟨heap, rfl⟩ := runCompleted_eq hcomp
    have hk := hI.kept
    rw [Conf.Kept, List.forall₂_cons_right_iff] at hk
    obtain ⟨f, fs, hf, hk, heq⟩ := hk
    refine ⟨?_, ?_, ?_, ?_⟩
    · have := Traced.closed hI.traced
      rw [Env.closing, hch, if_neg (by decide)] at this
      simpa [Conf.emit, Conf.stPop] using this
    · simpa [Conf.Kept, Conf.emit, Conf.stPop, heq] using hk
    · simp [Conf.emit, Conf.stPop, hI.depth, heq]
    · simpa [Conf.emit, Conf.stPop, Event.isAccepted, completion_accepts_nothing] using hI.count

/-! ### The whole directive -/

/-- The directive reaches a command that opens a block, which pushes a context slot. -/
def Conf.pushes (env : Env μ κ H) (c : Conf μ κ H) (st : Status) : Bool :=
  st != .blockEnd && (c.tokens.nth 0).any fun name =>
    env.candidates.any fun p => p.2.matches name st && !p.2.isParam

/-- The commands `cs` have passed one after the other. -/
abbrev PassedAll (env : Env μ κ H) (bs : List (Opened μ κ)) (st : Status) :
    Conf μ κ H → Conf μ κ H → Prop :=
  Relation.ReflTransGen fun c c' => Passed env c bs st c'

lemma PassedAll.inv {st : Status} {c' : Conf μ κ H} (h : PassedAll env bs st c c')
    (hI : c.Inv env bs) :
    c'.Inv env bs := by
  induction h with
  | refl => exact hI
  | tail _ hp ih => exact hp.inv ih

/-- One try accepts, or hands a state to the commands behind it. -/
lemma try_post (hI : c.Inv env bs) {st : Status} {m : μ} {cmd : FsCmd κ}
    (hc : Tried env c st m cmd) (hroom : cmd.isParam = false → c.Room) (first : Bool) :
    (if cmd.isParam then tryParam env c m cmd first
      else tryBlock env c m cmd st first).Post
      (fun c' => ∃ bs', Accepted env c bs st c' bs') (Exit.Passes (Passed env c bs st)) := by
  obtain ⟨name, -, hmatch⟩ := hc.named
  have hfit : cmd.fits st := by
    rw [FsCmd.matches, Bool.and_eq_true] at hmatch
    exact hmatch.2
  by_cases hp : cmd.isParam
  · rw [if_pos hp]
    have hst : st = .ok := by
      have hb : cmd.block = false := by
        rw [FsCmd.isParam, Bool.and_eq_true] at hp
        simpa using hp.2
      simpa [FsCmd.fits, hb] using hfit
    exact (tryParam_post hI hc hp hst first).mono (fun c' h => ⟨bs, h⟩) fun _ h => h
  · rw [if_neg hp]
    have hp' : cmd.isParam = false := by simpa using hp
    exact tryBlock_post hI (hroom hp') hc hp' hfit first

lemma tryAll_post {name : FsStr} {st : Status} {cmds : List (μ × FsCmd κ)}
    (hcmds : ∀ p ∈ cmds, p ∈ env.candidates) :
    ∀ (first : Bool) (c : Conf μ κ H), c.tokens.nth 0 = some name → c.Inv env bs →
      ((∃ p ∈ cmds, p.2.matches name st ∧ p.2.isParam = false) → c.Room) →
      (tryAll env name st cmds first c).Post
        (fun c' => ∃ c₁ bs', PassedAll env bs st c c₁ ∧ Accepted env c₁ bs st c' bs')
        (fun _ => True) := by
  induction cmds with
  | nil => exact fun _ _ _ _ _ => trivial
  | cons p cmds ih =>
    intro first c hname hI hroom
    obtain ⟨m, cmd⟩ := p
    have hmem := hcmds _ List.mem_cons_self
    have hmems : ∀ p ∈ cmds, p ∈ env.candidates := fun p hp => hcmds p (List.mem_cons_of_mem _ hp)
    have hrest : (∃ p ∈ cmds, p.2.matches name st ∧ p.2.isParam = false) → c.Room := by
      rintro ⟨p, hp, hm⟩
      exact hroom ⟨p, List.mem_cons_of_mem _ hp, hm⟩
    rw [tryAll]
    by_cases hmatch : cmd.matches name st
    · have hc : Tried env c st m cmd := ⟨hmem, name, hname, hmatch⟩
      rw [FsCmd.matches] at hmatch
      rw [if_pos hmatch]
      have htry := try_post hI hc (fun hp => hroom ⟨_, List.mem_cons_self, hmatch, hp⟩) first
      generalize (if cmd.isParam then tryParam env c m cmd first
          else tryBlock env c m cmd st first) = r at htry ⊢
      match r, htry with
      | .ok c', ⟨bs', h⟩ => exact ⟨c, bs', .refl, h⟩
      | .error .undefined, _ => trivial
      | .error (.error _), _ => trivial
      | .error (.pass first₁ c₁), h =>
        have hpass : Passed env c bs st c₁ := h
        have hname₁ : c₁.tokens.nth 0 = some name := by rw [(hpass.stayed hI).tokens, hname]
        refine (ih hmems first₁ c₁ hname₁ (hpass.inv hI) fun hex =>
          (hpass.stayed hI).keeps_room (hrest hex)).mono ?_ fun _ h => h
        rintro c' ⟨c₂, bs', hall, hacc⟩
        exact ⟨c₂, bs', .head hpass hall, hacc⟩
    · rw [FsCmd.matches] at hmatch
      rw [if_neg hmatch]
      exact ih hmems first c hname hI hrest

lemma closeBlock_post (hI : c.Inv env bs) :
    (closeBlock env c).Post (fun c' => ∃ bs', Accepted env c bs .blockEnd c' bs')
      (fun _ => True) := by
  have hk := hI.kept
  cases bs with
  | nil =>
    rw [Conf.Kept, List.forall₂_nil_right_iff] at hk
    simp [closeBlock, hk]
  | cons b bs =>
    have htop := hk.topCtx
    rw [Conf.Kept, List.forall₂_cons_right_iff] at hk
    obtain ⟨f, fs, hf, -, heq⟩ := hk
    simp only [closeBlock, heq, htop, hf.mod, hf.cmd]
    by_cases hch : b.cmd.child = true
    · rw [if_pos hch]
      exact ⟨bs, .closeChild rfl hch⟩
    · rw [if_neg hch]
      have hch' : b.cmd.child = false := by simpa using hch
      refine Except.Post.mono (Q := Exit.Passes fun _ => True) ?_ (fun _ h => h) fun _ _ => trivial
      refine (post_defined fun r hr => hr).bind ?_
      rintro ⟨r, c₁⟩ hcomp
      cases r with
      | ok => exact ⟨bs, .closeOwn rfl hch' hcomp⟩
      | pass => trivial
      | error => trivial

/-- Everything an accepted directive can have done. -/
theorem handle_cases (hI : c.Inv env bs) {st : Status} (hroom : c.pushes env st → c.Room)
    {c' : Conf μ κ H} (h : fsConfHandle env c st = .ok c') :
    ∃ c₁ bs', PassedAll env bs st c c₁ ∧ Accepted env c₁ bs st c' bs' := by
  rw [fsConfHandle] at h
  by_cases hst : st = .blockEnd
  · subst hst
    rw [if_pos (by decide)] at h
    obtain ⟨bs', hacc⟩ := (closeBlock_post hI).of_ok h
    exact ⟨c, bs', .refl, hacc⟩
  · rw [if_neg (by simpa using hst)] at h
    cases hname : c.tokens.nth 0 with
    | none =>
      rw [hname] at h
      cases h
    | some name =>
      rw [hname] at h
      refine (tryAll_post (fun _ hp => hp) (env.first c) c hname hI fun hex => hroom ?_).of_ok h
      obtain ⟨p, hp, hmatch, hparam⟩ := hex
      simp only [Conf.pushes, hname, Option.any_some, Bool.and_eq_true, bne_iff_ne, ne_eq,
        List.any_eq_true, Bool.not_eq_true']
      exact ⟨hst, p, hp, hmatch, hparam⟩

/-- An accepted directive keeps the invariant. -/
theorem handle_inv (hI : c.Inv env bs) {st : Status} (hroom : c.pushes env st → c.Room)
    {c' : Conf μ κ H} (h : fsConfHandle env c st = .ok c') : ∃ bs', c'.Inv env bs' := by
  obtain ⟨c₁, bs', hall, hacc⟩ := handle_cases hI hroom h
  exact ⟨bs', hacc.inv (hall.inv hI)⟩

end

end Folksong
