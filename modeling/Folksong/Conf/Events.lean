import Folksong.Conf.Stack

/-!
# The events of one directive

The log only grows. Among the callbacks a directive calls, at most one parameter answers
`FS_CONF_OK`: the one that accepts the directive, and it is called with the context of the
innermost open block.
-/

namespace Folksong

variable {μ κ H : Type} {env : Env μ κ H} {c c' : Conf μ κ H} {bs : List (Opened μ κ)} {st : Status}

/-- Every open block has been opened. -/
lemma Traced.mem_opened {log : List (Event μ κ)} (h : Traced env log bs) :
    ∀ b ∈ bs, .opened b ∈ log := by
  induction h with
  | nil => exact fun _ hb => by cases hb
  | initMod _ ih => exact fun b hb => List.mem_append_left _ (ih b hb)
  | call _ _ ih => exact fun b hb => List.mem_append_left _ (ih b hb)
  | opened _ _ ih =>
    refine List.forall_mem_cons.mpr ⟨?_, fun b hb => List.mem_append_left _ (ih b hb)⟩
    exact List.mem_append_right _ List.mem_cons_self
  | single _ ih => exact fun b hb => List.mem_append_left _ (ih b hb)
  | closed _ ih => exact fun b hb => List.mem_append_left _ (ih b (List.mem_cons_of_mem _ hb))

lemma InitMod.no_call {m : μ} {cmd : FsCmd κ} {r : Ret} {p : Ptr} {h : H}
    {log : List (Event μ κ)} (hinit : InitMod env c m cmd r p h log) :
    ∀ m' cmd' p' r', .call m' cmd' p' r' ∉ log := by
  cases hinit <;> simp

variable [DecidableEq μ]

/-- Entering a block calls no callback. -/
lemma Entry.log_eq {m : μ} {cmd : FsCmd κ} {p : Ptr} {first : Bool}
    (hE : Entry env c bs m cmd p first c') :
    ∃ log, c'.log = c.log ++ log ∧ ∀ m' cmd' p' r', .call m' cmd' p' r' ∉ log := by
  cases hE with
  | child _ _ _ _ _ _ hlog => exact ⟨[], by rw [hlog, List.append_nil], by simp⟩
  | own _ hinit _ _ _ _ _ hlog => exact ⟨_, hlog, hinit.no_call⟩

/-- A command that passes answers nothing but `FS_CONF_PASS`. -/
lemma Passed.log_eq (h : Passed env c bs st c') :
    ∃ log, c'.log = c.log ++ log ∧ ∀ m cmd p, .call m cmd p .ok ∉ log := by
  cases h with
  | param => exact ⟨_, rfl, by simp⟩
  | initMod _ _ hinit _ _ _ _ hlog => exact ⟨_, hlog, fun m cmd p => hinit.no_call m cmd p .ok⟩
  | call _ _ hE _ _ _ _ _ hlog hun =>
    obtain ⟨log, hlog₁, hno⟩ := hE.log_eq
    obtain ⟨ctxs, rfl⟩ := Conf.unregister_eq hun
    refine ⟨log ++ _, by rw [hlog, hlog₁, List.append_assoc], ?_⟩
    simp [hno]

lemma PassedAll.log_eq (h : PassedAll env bs st c c') :
    ∃ log, c'.log = c.log ++ log ∧ ∀ m cmd p, .call m cmd p .ok ∉ log := by
  induction h with
  | refl => exact ⟨[], (List.append_nil _).symm, by simp⟩
  | tail _ hp ih =>
    obtain ⟨log, hlog, hno⟩ := ih
    obtain ⟨log', hlog', hno'⟩ := hp.log_eq
    refine ⟨log ++ log', by rw [hlog', hlog, List.append_assoc], ?_⟩
    simp [hno, hno']

lemma PassedAll.stayed {c₁ : Conf μ κ H} (h : PassedAll env bs st c c₁) (hI : c.Inv env bs) :
    c₁.tokens = c.tokens ∧ c₁.stMod = c.stMod := by
  induction h with
  | refl => exact ⟨rfl, rfl⟩
  | tail h hp ih =>
    have hstay := hp.stayed (PassedAll.inv h hI)
    exact ⟨hstay.tokens.trans ih.1, hstay.stMod.trans ih.2⟩

/-- The only parameter that answers `FS_CONF_OK` is the one that accepts the directive. -/
lemma Accepted.param_of_mem {bs' : List (Opened μ κ)} (h : Accepted env c bs st c' bs') :
    ∃ log, c'.log = c.log ++ log ∧ ∀ m cmd p, .call m cmd p .ok ∈ log → cmd.isParam →
      ∃ b ∈ bs.head?, p = b.ctx ∧ Tried env c st m cmd ∧
        ∃ h, env.call cmd.call c b.ctx = some (.ok, h) := by
  have hcompletion : ∀ (b : Opened μ κ) m cmd p, Event.call m cmd p .ok ∉ env.completion b := by
    intro b m cmd p
    rw [Env.completion]
    split_ifs <;> simp
  cases h with
  | @param m cmd b h hc _ hb hcall =>
    refine ⟨_, rfl, ?_⟩
    rintro m' cmd' p hmem -
    rw [List.mem_singleton, Event.call.injEq] at hmem
    obtain ⟨rfl, rfl, rfl, -⟩ := hmem
    exact ⟨b, hb, rfl, hc, h, hcall⟩
  | @block m cmd p _ c₁ h _ hblock hE _ =>
    obtain ⟨log, hlog, hno⟩ := hE.log_eq
    refine ⟨log ++ [.call m cmd p .ok, .opened ⟨m, cmd, p⟩], ?_, ?_⟩
    · simp [Conf.emit, hlog]
    · intro m' cmd' p' hmem hparam
      simp only [List.mem_append, hno, List.mem_cons, Event.call.injEq, reduceCtorEq,
        List.not_mem_nil, or_false, false_or] at hmem
      obtain ⟨-, rfl, -⟩ := hmem
      simp [FsCmd.isParam, hblock] at hparam
  | @single m cmd p _ c₁ h c₂ _ _ hchild hE _ hcomp =>
    obtain ⟨log, hlog, hno⟩ := hE.log_eq
    obtain ⟨heap, rfl⟩ := runCompleted_eq (b := ⟨m, cmd, p⟩) hcomp
    refine ⟨log ++ [.call m cmd p .ok] ++ env.completion ⟨m, cmd, p⟩ ++ [.single ⟨m, cmd, p⟩],
      ?_, ?_⟩
    · simp [Conf.emit, Conf.stPop, hlog]
    · intro m' cmd' p' hmem hparam
      simp only [List.mem_append, hno, hcompletion, List.mem_singleton, Event.call.injEq,
        reduceCtorEq, or_false, false_or] at hmem
      obtain ⟨-, rfl, -⟩ := hmem
      simp [FsCmd.isParam, hchild] at hparam
  | closeChild _ _ =>
    refine ⟨_, rfl, ?_⟩
    intro m' cmd' p' hmem
    simp at hmem
  | @closeOwn b _ _ _ _ hcomp =>
    obtain ⟨heap, rfl⟩ := runCompleted_eq hcomp
    refine ⟨env.completion b ++ [.closed], ?_, ?_⟩
    · simp [Conf.emit, Conf.stPop]
    · intro m' cmd' p' hmem
      simp [hcompletion] at hmem

end Folksong
