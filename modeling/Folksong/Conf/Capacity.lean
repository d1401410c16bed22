import Folksong.Conf.Walk

/-!
# The room in `run->ctx`

The storage has eight slots at first and is doubled when it is full, also for a block whose command
passes. No directive gives room back.
-/

namespace Folksong

variable {μ κ H : Type} {env : Env μ κ H} {c c' : Conf μ κ H}

/-- The storage has been doubled a number of times. -/
def Conf.Doubled (c : Conf μ κ H) : Prop := ∃ j, c.ctx.eleCapa = 8 * 2 ^ j

lemma Conf.Doubled.congr (h : c.Doubled) (hcapa : c'.ctx.eleCapa = c.ctx.eleCapa) :
    c'.Doubled := by
  obtain ⟨j, hj⟩ := h
  exact ⟨j, hcapa.trans hj⟩

lemma doubled_start (tokens : FsArr FsStr) (heap : H) :
    (Conf.start tokens heap : Conf μ κ H).Doubled :=
  ⟨0, rfl⟩

/-- The storage is full only when the number of blocks is one of its sizes. -/
lemma Conf.Doubled.not_full (h : c.Doubled) (hcount : ∀ j, c.ctx.eleCount ≠ 8 * 2 ^ j) :
    c.ctx.isFull = false := by
  obtain ⟨j, hj⟩ := h
  rw [FsArr.isFull, hj, beq_eq_false_iff_ne]
  exact hcount j

/-! ### Operations -/

@[simp] lemma FsArr.write_eleCapa {α : Type} (arr : FsArr α) (i : Nat) (x : α) :
    (arr.write i x).eleCapa = arr.eleCapa := by
  simp [FsArr.eleCapa, FsArr.write]

lemma FsArr.decCount_eleCapa {α : Type} {arr arr' : FsArr α} (h : arr.decCount = some arr') :
    arr'.eleCapa = arr.eleCapa := by
  rw [FsArr.decCount] at h
  split_ifs at h
  cases h
  rfl

lemma Conf.Doubled.stPush (h : c.Doubled) (m : μ) (cmd : FsCmd κ) : (c.stPush m cmd).Doubled := by
  obtain ⟨j, hj⟩ := h
  have hcapa : (c.stPush m cmd).ctx.eleCapa = c.ctx.grow.eleCapa := rfl
  by_cases hfull : c.ctx.isFull
  · refine ⟨j + 1, ?_⟩
    have hgrow : c.ctx.grow.eleCapa = c.ctx.eleCapa + c.ctx.eleCapa := by
      simp [FsArr.grow, hfull, FsArr.relocate, FsArr.eleCapa]
    rw [hcapa, hgrow, hj]
    ring
  · rw [Bool.not_eq_true] at hfull
    exact ⟨j, by rw [hcapa, FsArr.grow_of_not_full hfull, hj]⟩

lemma storeTop_eleCapa (c : Conf μ κ H) (p : Ptr) : (c.storeTop p).ctx.eleCapa = c.ctx.eleCapa := by
  rw [Conf.storeTop]
  split <;> simp

lemma walk_doubled : Walk (Conf.Doubled : Conf μ κ H → Prop) Conf.Doubled where
  push m cmd h := h.stPush m cmd
  pop h := h
  drop h hdrop := by
    obtain ⟨ctx, hctx, rfl⟩ := Option.map_eq_some_iff.mp hdrop
    exact h.congr (FsArr.decCount_eleCapa hctx)
  inside h _ := h
  outside h := h
  store p h := h.congr (storeTop_eleCapa _ p)
  called _ _ h := h

/-- An accepted directive leaves a storage that has been doubled. -/
lemma handle_doubled [DecidableEq μ] {st : Status} (h : c.Doubled)
    (hc : fsConfHandle env c st = .ok c') : c'.Doubled :=
  (walk_doubled.handle (fun p _ => registers_of_blind (fun _ _ h => h) (fun _ _ h => h) p.1 p.2)
    h st).of_ok hc

end Folksong
