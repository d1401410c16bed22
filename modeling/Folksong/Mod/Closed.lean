import Folksong.Mod.Registry

/-!
# What a closed block has left

An object belongs to the directives between the braces of its block. Once no open block has it for
its context, it stays as it is, and so does its entry in the list of its module, in every run of
sound directives.
-/

namespace Folksong

/-- The module `m` is used, and `p` is in its list. -/
structure Conf.ListsCtx (m : ModId) (p : Ptr) (c : Engine) : Prop where
  used : c.used m = true
  ctxs : ∃ a, c.ctxs m = .arr a ∧ some p ∈ a.contents

/-- The object at `p` and its entry in the list of the module `m` are the same in `c'`. -/
structure Conf.Keeps (m : ModId) (p : Ptr) (c c' : Engine) : Prop where
  listed : c.ListsCtx m p → c'.ListsCtx m p
  obj : c'.heap.get p = c.heap.get p

/-- There is an object at `p`, and it is not the context of an open block. -/
structure Closed (c : Engine) (bs : List (Opened ModId Callback)) (p : Ptr) : Prop where
  obj : c.heap.get p ≠ none
  free : ∀ b ∈ bs, b.ctx ≠ p

namespace Conf.Keeps

variable {m : ModId} {p : Ptr} {c c' c'' : Engine}

lemma refl (m : ModId) (p : Ptr) (c : Engine) : c.Keeps m p c := ⟨id, rfl⟩

lemma trans (h : c.Keeps m p c') (h' : c'.Keeps m p c'') : c.Keeps m p c'' :=
  ⟨fun hlisted => h'.listed (h.listed hlisted), h'.obj.trans h.obj⟩

/-- The registry is not touched. -/
lemma of_eq (hused : c'.used = c.used) (hctxs : c'.ctxs = c.ctxs)
    (hobj : c'.heap.get p = c.heap.get p) : c.Keeps m p c' := by
  refine ⟨fun h => ⟨?_, ?_⟩, hobj⟩
  · rw [hused]
    exact h.used
  · rw [hctxs]
    exact h.ctxs

/-- An own block has been entered. -/
lemma of_entered {m' : ModId} {q : Ptr} {a : FsArr Ptr}
    (ha : (if c.used m' then c.ctxs m' else .arr (fsAllocArr Ptr 1 Nat.zero_lt_one)) = .arr a)
    (hused : c'.used = Function.update c.used m' true)
    (hctxs : c'.ctxs = Function.update c.ctxs m' (.arr (a.push q)))
    (hobj : c'.heap.get p = c.heap.get p) : c.Keeps m p c' := by
  refine ⟨fun h => ?_, hobj⟩
  obtain ⟨a', ha', hlisted⟩ := h.ctxs
  by_cases hm : m = m'
  · subst hm
    rw [if_pos h.used, ha', Ctxs.arr.injEq] at ha
    subst ha
    refine ⟨by rw [hused, Function.update_self], a'.push q, by rw [hctxs, Function.update_self], ?_⟩
    rw [FsArr.push_contents]
    exact List.mem_append_left _ hlisted
  · refine ⟨?_, a', ?_, hlisted⟩
    · rw [hused, Function.update_of_ne hm]
      exact h.used
    · rw [hctxs, Function.update_of_ne hm]
      exact ha'

end Conf.Keeps

/-- A sub-block works on the context of the block around it. -/
lemma TypedStack.exists_parent {h : Heap} {b : Opened ModId Callback}
    {bs : List (Opened ModId Callback)} (ht : TypedStack h (b :: bs))
    (hchild : b.cmd.call.child = true) : ∃ parent ∈ bs, b.ctx = parent.ctx := by
  cases ht with
  | own hc =>
    rw [hc] at hchild
    cases hchild
  | @route _ parent _ _ _ _ _ heq => exact ⟨parent, List.mem_cons_self, heq⟩
  | @topic _ parent _ _ _ _ heq => exact ⟨parent, List.mem_cons_self, heq⟩

section

variable {mods : List (FsMod ModId Callback)} (hmods : ∀ m ∈ mods, m ∈ shippedMods) {lib : Lib}
  {junk : Junk} {c : Engine} {bs : List (Opened ModId Callback)} {st : Status} {p : Ptr}

include hmods

/-- Entering a block changes no object, and an own block gets another one. -/
lemma Entry.get_eq {m : ModId} {cmd : FsCmd Callback}
    (hc : Tried (shippedEnv mods lib junk) c st m cmd) {q : Ptr} {first : Bool} {c₁ : Engine}
    (hE : Entry (shippedEnv mods lib junk) c bs m cmd q first c₁) (hp : c.heap.get p ≠ none) :
    c₁.heap.get p = c.heap.get p ∧ (cmd.child = false → q ≠ p) := by
  cases hE with
  | child hch _ _ hheap =>
    refine ⟨by rw [hheap], fun h => ?_⟩
    rw [hch] at h
    cases h
  | own hch hinit _ _ hheap =>
    obtain ⟨o, rfl, rfl, -⟩ := hinit.alloc (hc.shipped hmods) hch
    have hne : p ≠ (c.heap.alloc o).1 := by
      rintro rfl
      exact hp (Heap.get_alloc_none c.heap o)
    rw [hheap]
    exact ⟨Heap.get_alloc_ne c.heap o hne, fun _ => hne.symm⟩

/-- An accepted directive works on other objects. -/
lemma Accepted.closed (hI : c.Inv (shippedEnv mods lib junk) bs) (ht : TypedStack c.heap bs)
    (hplace : c.pathInPlace (shippedEnv mods lib junk) st) (hp : Closed c bs p) {c' : Engine}
    {bs' : List (Opened ModId Callback)}
    (h : Accepted (shippedEnv mods lib junk) c bs st c' bs') :
    (∀ b ∈ bs', b.ctx ≠ p) ∧ c'.heap.get p = c.heap.get p := by
  have ht' := h.typed hmods hI ht hplace
  cases h with
  | @param m cmd b h hc hparam hb hcall =>
    have heffect := param_effect hmods hI ht hplace hc hparam hb _ _ hcall
    have hne := hp.free b (List.mem_of_mem_head? hb)
    exact ⟨hp.free, heffect.frame rfl p hne.symm⟩
  | @block m cmd q first c₁ h hc hblock hE hcall =>
    have hparam : cmd.isParam = false := by simp [FsCmd.isParam, hblock]
    obtain ⟨hget, hown⟩ := hE.get_eq hmods hc hp.obj
    have hne : q ≠ p := by
      cases hch : cmd.child with
      | false => exact hown hch
      | true =>
        rw [(hc.shipped hmods).child] at hch
        obtain ⟨parent, hmem, heq⟩ := ht'.exists_parent hch
        intro hq
        exact hp.free parent hmem (heq.symm.trans hq)
    have heffect := hE.effect hmods ht hc hparam _ _ hcall
    exact ⟨List.forall_mem_cons.mpr ⟨hne, hp.free⟩, (heffect.frame rfl p hne.symm).trans hget⟩
  | single hc hblock hchild => exact (hc.not_single hmods hblock hchild).elim
  | closeChild hbs _ =>
    subst hbs
    exact ⟨(List.forall_mem_cons.mp hp.free).2, rfl⟩
  | @closeOwn b bs' c₁ hbs hch hcomp =>
    subst hbs
    exact ⟨(List.forall_mem_cons.mp hp.free).2,
      Heap.get_congr (ht.completed_objs hch hcomp) p⟩

lemma PassedAll.registry (hI : c.Inv (shippedEnv mods lib junk) bs) (ht : TypedStack c.heap bs)
    (hpath : c.pathInPlace (shippedEnv mods lib junk) st) (hr : Registered c) {c₁ : Engine}
    (h : PassedAll (shippedEnv mods lib junk) bs st c c₁) :
    c₁.used = c.used ∧ c₁.ctxs = c.ctxs := by
  induction h with
  | refl => exact ⟨rfl, rfl⟩
  | tail h hp ih =>
    obtain ⟨-, hheap, -⟩ := PassedAll.untouched hmods hI ht hpath h
    obtain ⟨hused, hctxs, -⟩ := hp.registry hmods (hheap ▸ ht)
      (PassedAll.registered hmods hI ht hpath hr h)
    exact ⟨hused.trans ih.1, hctxs.trans ih.2⟩

/-- A sound directive keeps a closed context. -/
lemma handle_closed (hI : c.Inv (shippedEnv mods lib junk) bs) (ht : TypedStack c.heap bs)
    (hr : Registered c) (hroom : c.pushes (shippedEnv mods lib junk) st → c.Room)
    (hpath : c.pathInPlace (shippedEnv mods lib junk) st) {c' : Engine}
    (h : fsConfHandle (shippedEnv mods lib junk) c st = .ok c') :
    ∃ bs', c'.Inv (shippedEnv mods lib junk) bs' ∧ TypedStack c'.heap bs' ∧
      ∀ p, Closed c bs p → Closed c' bs' p ∧ ∀ m, c.Keeps m p c' := by
  obtain ⟨c₁, bs', hall, hacc⟩ := handle_cases hI hroom h
  obtain ⟨hI₁, hheap, hpath₁⟩ := PassedAll.untouched hmods hI ht hpath hall
  obtain ⟨hused, hctxs⟩ := PassedAll.registry hmods hI ht hpath hr hall
  refine ⟨bs', hacc.inv hI₁, hacc.typed hmods hI₁ (hheap ▸ ht) hpath₁, fun p hp => ?_⟩
  have hp₁ : Closed c₁ bs p := ⟨by rw [hheap]; exact hp.obj, hp.free⟩
  obtain ⟨hfree, hget⟩ := hacc.closed hmods hI₁ (hheap ▸ ht) hpath₁ hp₁
  refine ⟨⟨?_, hfree⟩, fun m => ?_⟩
  · rw [hget]
    exact hp₁.obj
  · apply Conf.Keeps.trans (.of_eq hused hctxs (by rw [hheap]))
    rcases hacc.registry hmods with ⟨hused', hctxs', -⟩ | ⟨b, -, -, a, ha, -, hused', hctxs', -⟩
    · exact .of_eq hused' hctxs' hget
    · exact .of_entered ha hused' hctxs' hget

end

/-! ### Runs -/

/-- Sound directives lead from `c` to `c'`. -/
def Conf.LeadsTo (env : Env ModId Callback Heap) (c c' : Engine) : Prop :=
  ∃ (io : ReadOutcome) (mode : ParseMode) (f f' : FsFile) (ls : List Taking),
    Transition.Run (Transition.Guarded (Sound env) (ParseStep env io mode)) (f, c) ls (f', c')

/-- Sound directives lead from the start of the program to `c`. -/
def Conf.Reached (env : Env ModId Callback Heap) (c : Engine) : Prop :=
  ∃ (tokens : FsArr FsStr) (heap : Heap), Conf.LeadsTo env (Conf.start tokens heap) c

section

variable {mods : List (FsMod ModId Callback)} (hmods : ∀ m ∈ mods, m ∈ shippedMods) {lib : Lib}
  {junk : Junk} {c c' : Engine} {bs : List (Opened ModId Callback)} {l : Taking} {p : Ptr}

include hmods

lemma Settled.handle_closed (hs : Settled (shippedEnv mods lib junk) bs c)
    (hroom : (c.take l).pushes (shippedEnv mods lib junk) l.status → c.Room)
    (hpath : (c.take l).pathInPlace (shippedEnv mods lib junk) l.status)
    (h : fsConfHandle (shippedEnv mods lib junk) (c.take l) l.status = .ok c') :
    ∃ bs', Settled (shippedEnv mods lib junk) bs' c' ∧
      ∀ p, Closed c bs p → Closed c' bs' p ∧ ∀ m, c.Keeps m p c' := by
  obtain ⟨hI, ht, hr⟩ := hs.take l
  obtain ⟨bs', hI', ht', hclosed⟩ := Folksong.handle_closed hmods hI ht hr hroom hpath h
  refine ⟨bs', ⟨hI', ht', handle_registered hmods hI ht hr hroom hpath h⟩, fun p hp => ?_⟩
  obtain ⟨hp', hkeeps⟩ := hclosed p ⟨hp.obj, hp.free⟩
  exact ⟨hp', fun m => ⟨fun hl => (hkeeps m).listed ⟨hl.used, hl.ctxs⟩, (hkeeps m).obj⟩⟩

/-- In every run of sound directives a closed context is kept. -/
lemma Settled.run_closed (hs : Settled (shippedEnv mods lib junk) bs c)
    (h : c.LeadsTo (shippedEnv mods lib junk) c') :
    ∃ bs', Settled (shippedEnv mods lib junk) bs' c' ∧
      ∀ p, Closed c bs p → Closed c' bs' p ∧ ∀ m, c.Keeps m p c' := by
  obtain ⟨io, mode, f, f', ls, hrun⟩ := h
  refine hrun.invariant_guarded (I := fun s => ∃ bs', Settled (shippedEnv mods lib junk) bs' s.2 ∧
    ∀ p, Closed c bs p → Closed s.2 bs' p ∧ ∀ m, c.Keeps m p s.2) ?_
    ⟨bs, hs, fun p hp => ⟨hp, fun m => .refl m p c⟩⟩
  rintro s l s' ⟨bs₁, hs₁, hkept₁⟩ ⟨hroom, hpath⟩ hstep
  obtain ⟨bs₂, hs₂, hkept₂⟩ := hs₁.handle_closed hmods hroom hpath hstep.handled.2.2
  refine ⟨bs₂, hs₂, fun p hp => ?_⟩
  obtain ⟨hp₁, hkeeps₁⟩ := hkept₁ p hp
  obtain ⟨hp₂, hkeeps₂⟩ := hkept₂ p hp₁
  exact ⟨hp₂, fun m => (hkeeps₁ m).trans (hkeeps₂ m)⟩

lemma Conf.Reached.settled (h : c.Reached (shippedEnv mods lib junk)) :
    ∃ bs, Settled (shippedEnv mods lib junk) bs c := by
  obtain ⟨tokens, heap, hleads⟩ := h
  obtain ⟨bs, hs, -⟩ := (settled_start _ tokens heap).run_closed hmods hleads
  exact ⟨bs, hs⟩

end

end Folksong
