import Folksong.Mod.TimerLoop

/-!
# When the timers fire (`fs_mod_timer_inited`, `fs_mod_timer_cb`)

libuv arms a timer that repeats from the time at which it fires. No firing is early, and a late one
makes all those behind it late. While the loop is on time, how often a timer has fired depends on
its two times and on the clock alone.
-/

namespace Folksong

open Transition

/-- The firing of the timer at an index. -/
def TimerEvent.fires (i : Nat) : TimerEvent → Bool
  | .fire j _ => j == i
  | _ => false

/-- The time that passes. -/
def TimerEvent.elapsed : TimerEvent → Nat
  | .elapse ms => ms
  | _ => 0

def firings (i : Nat) (ls : List TimerEvent) : Nat := ls.countP (TimerEvent.fires i)

/-- The child that a firing starts. -/
def TimerEvent.child (ctxs : List Timer) : TimerEvent → Option SpawnOptions
  | .fire i true => (ctxs[i]?).map timerSpawn
  | _ => none

/-- The time of the firing number `k`, counted from zero, of a timer that is started at `start`
and is never late. -/
def Timer.time (t : Timer) (start k : Nat) : Nat := start + t.timeout + k * t.rep

/-- How often a timer that is never late has fired when `elapsed` milliseconds have passed. -/
def Timer.count (t : Timer) (elapsed : Nat) : Nat :=
  if elapsed < t.timeout then 0
  else if t.rep = 0 then 1
  else (elapsed - t.timeout) / t.rep + 1

/-- A timer that has fired `k` times: the next firing is not early, nor was the last one. -/
structure NotEarly (start : Nat) (t : Timer) (k now : Nat) (u : UvTimer) : Prop where
  timer : u.timer = t
  due : ∀ d ∈ u.due, min (t.time start k) (2 ^ 64 - 1) ≤ d
  stopped : t.rep = 0 → 0 < k → u.due = none
  once : t.rep = 0 → k ≤ 1
  past : 0 < k → t.time start (k - 1) ≤ now

/-- A timer that has fired `k` times: the next firing will not be late. -/
structure NotLate (start : Nat) (t : Timer) (k now : Nat) (u : UvTimer) : Prop where
  timer : u.timer = t
  armed : u.due = none → t.rep = 0 ∧ 0 < k
  due : ∀ d ∈ u.due, now ≤ d ∧ d ≤ t.time start k

/-- The loop does not let time pass over a timer that is due. -/
def OnTime (loop : TimerLoop) : TimerEvent → Prop
  | .elapse ms => ∀ u ∈ loop.timers, ∀ d ∈ u.due, loop.now + ms ≤ d
  | _ => True

/-- Nothing is due. -/
def TimerLoop.Waits (loop : TimerLoop) : Prop := ∀ u ∈ loop.timers, ∀ d ∈ u.due, loop.now < d

section

variable {uv : UvTimers} {loop loop' : TimerLoop} {l : TimerEvent} {ls : List TimerEvent}
variable {i k now start : Nat} {t : Timer} {u u' : UvTimer}

lemma time_succ (t : Timer) (start k : Nat) : t.time start (k + 1) = t.time start k + t.rep := by
  rw [Timer.time, Timer.time, Nat.add_mul, Nat.one_mul, ← Nat.add_assoc]

lemma firings_snoc (i : Nat) (ls : List TimerEvent) (l : TimerEvent) :
    firings i (ls ++ [l]) = firings i ls + (l.fires i).toNat := by
  rw [firings, List.countP_append, firings]
  cases h : l.fires i <;> simp [h]

/-! ### One step -/

lemma now_of_step (h : timerStep uv loop l = some loop') : loop'.now = loop.now + l.elapsed := by
  cases l with
  | elapse ms =>
    cases h
    rfl
  | fire i started =>
    obtain ⟨u, -, -, rfl⟩ := timerStep_fire.mp h
    cases started <;> rfl
  | exit k =>
    rw [timerStep] at h
    split at h
    · cases h
    · obtain ⟨-, hloop⟩ := Option.ite_none_left_eq_some.mp h
      cases hloop
      rfl

/-- A timer has fired and is armed again, or stays as it was. -/
lemma timer_of_step (h : timerStep uv loop l = some loop') (hu : loop.timers[i]? = some u) :
    (l.fires i = true ∧ loop.IsNext uv u ∧ loop'.timers[i]? = some (uvTimerAgain uv loop.now u)) ∨
    (l.fires i = false ∧ loop'.timers[i]? = some u) := by
  cases l with
  | elapse ms =>
    cases h
    exact .inr ⟨rfl, hu⟩
  | exit k =>
    rw [(timerStep_exit h).1]
    exact .inr ⟨rfl, hu⟩
  | fire j started =>
    obtain ⟨v, hv, hnext, rfl⟩ := timerStep_fire.mp h
    rw [fsModTimerCb_timers]
    by_cases hj : j = i
    · subst hj
      obtain rfl := Option.some.inj (hu.symm.trans hv)
      have hi := (List.getElem?_eq_some_iff.mp hu).1
      exact .inl ⟨beq_self_eq_true j, hnext, List.getElem?_set_self hi⟩
    · refine .inr ⟨beq_eq_false_iff_ne.mpr hj, ?_⟩
      rw [List.getElem?_set_ne hj]
      exact hu

lemma uvTimerAgain_due (uv : UvTimers) (now : Nat) (u : UvTimer) :
    (uvTimerAgain uv now u).due =
      if u.timer.rep = 0 then none else some (uv.due now u.timer.rep) := by
  rw [uvTimerAgain]
  split_ifs with hrep
  · rw [hrep, uv.again_zero]
  · exact uv.again_pos now _ hrep

/-- How many firings there can be. -/
lemma le_count_iff {elapsed : Nat} :
    k + 1 ≤ t.count elapsed ↔ t.timeout + k * t.rep ≤ elapsed ∧ (t.rep = 0 → k = 0) := by
  rw [Timer.count]
  split_ifs with hlt hrep
  · refine iff_of_false (Nat.not_succ_le_zero k) fun h => ?_
    have := Nat.le_of_add_right_le h.1
    omega
  · rw [hrep, Nat.mul_zero]
    omega
  · rw [Nat.add_le_add_iff_right, Nat.le_div_iff_mul_le (Nat.pos_of_ne_zero hrep)]
    constructor
    · exact fun hle => ⟨by omega, fun hzero => absurd hzero hrep⟩
    · exact fun h => by omega

/-! ### No firing is early -/

lemma inited_some {ctxs : List Timer} (hi : ctxs[i]? = some t) :
    (fsModTimerInited uv start ctxs).timers[i]? = some ⟨t, some (uv.due start t.timeout)⟩ := by
  rw [fsModTimerInited, List.getElem?_map, hi]
  rfl

lemma notEarly_inited (uv : UvTimers) (start : Nat) (t : Timer) :
    NotEarly start t 0 start ⟨t, some (uv.due start t.timeout)⟩ := by
  refine ⟨rfl, fun d hd => ?_, fun _ h => absurd h (lt_irrefl 0), fun _ => Nat.zero_le 1,
    fun h => absurd h (lt_irrefl 0)⟩
  obtain rfl := Option.mem_some_iff.mp hd
  rw [Timer.time, Nat.zero_mul, Nat.add_zero]
  exact uv.le_due start t.timeout

lemma NotEarly.step (hu : NotEarly start t k loop.now u) (hnow : loop.now < 2 ^ 64 - 1)
    (hi : loop.timers[i]? = some u) (h : timerStep uv loop l = some loop') :
    ∃ u', loop'.timers[i]? = some u' ∧ NotEarly start t (k + (l.fires i).toNat) loop'.now u' := by
  have hnow' := now_of_step h
  rcases timer_of_step h hi with ⟨hfires, ⟨d, hd, hnext⟩, hi'⟩ | ⟨hfires, hi'⟩
  · -- the clock has come to the time of the timer
    have hdue := hu.due d hd
    have hle := uv.le_of_next _ _ _ hnext
    have htime : t.time start k ≤ loop.now := by omega
    rw [hfires]
    refine ⟨_, hi', hu.timer, fun d' hd' => ?_, fun hrep _ => ?_, fun hrep => ?_, fun _ => ?_⟩
    · rw [uvTimerAgain_due, hu.timer] at hd'
      split_ifs at hd' with hrep
      · cases hd'
      · obtain rfl := Option.mem_some_iff.mp hd'
        have hagain := uv.le_due loop.now t.rep
        rw [Bool.toNat_true, time_succ]
        omega
    · rw [uvTimerAgain_due, hu.timer, if_pos hrep]
    · by_contra hk
      rw [Bool.toNat_true] at hk
      rw [hu.stopped hrep (by omega)] at hd
      cases hd
    · exact htime.trans (by omega)
  · rw [hfires]
    exact ⟨u, hi', hu.timer, hu.due, hu.stopped, hu.once, fun hk => (hu.past hk).trans (by omega)⟩

lemma notEarly_of_run {ctxs : List Timer} (hi : ctxs[i]? = some t)
    (h : Run (Step (timerStep uv)) (fsModTimerInited uv start ctxs) ls loop)
    (hnow : loop.now < 2 ^ 64 - 1) :
    ∃ u, loop.timers[i]? = some u ∧ NotEarly start t (firings i ls) loop.now u := by
  induction h with
  | nil => exact ⟨_, inited_some hi, notEarly_inited uv start t⟩
  | @snoc loop loop' ls l _ hl ih =>
    have hle := now_of_step hl
    obtain ⟨u, hu, hearly⟩ := ih (by omega)
    rw [firings_snoc]
    exact hearly.step (by omega) hu hl

lemma NotEarly.le_count (hu : NotEarly start t k now u) : k ≤ t.count (now - start) := by
  cases k with
  | zero => exact Nat.zero_le _
  | succ k =>
    have hpast := hu.past (Nat.succ_pos k)
    rw [Nat.add_sub_cancel, Timer.time] at hpast
    rw [le_count_iff]
    refine ⟨by omega, fun hrep => ?_⟩
    have hone := hu.once hrep
    omega

/-! ### No firing is late -/

lemma NotLate.step (hu : NotLate start t k loop.now u) (hnow : loop.now < 2 ^ 64 - 1)
    (hi : loop.timers[i]? = some u) (hontime : OnTime loop l)
    (h : timerStep uv loop l = some loop') :
    ∃ u', loop'.timers[i]? = some u' ∧ NotLate start t (k + (l.fires i).toNat) loop'.now u' := by
  have hnow' := now_of_step h
  rcases timer_of_step h hi with ⟨hfires, ⟨d, hd, hnext⟩, hi'⟩ | ⟨hfires, hi'⟩
  · have hdue := hu.due d hd
    have hstays : l.elapsed = 0 := by
      cases l with
      | fire j started => rfl
      | elapse ms => cases hfires
      | exit k => cases hfires
    rw [hfires]
    refine ⟨_, hi', hu.timer, fun hnone => ?_, fun d' hd' => ?_⟩
    · rw [uvTimerAgain_due, hu.timer] at hnone
      split_ifs at hnone with hrep
      exact ⟨hrep, Nat.succ_pos k⟩
    · rw [uvTimerAgain_due, hu.timer] at hd'
      split_ifs at hd' with hrep
      · cases hd'
      · obtain rfl := Option.mem_some_iff.mp hd'
        have hfirst := uv.le_due loop.now t.rep
        have hlast := uv.due_le loop.now t.rep
        rw [Bool.toNat_true, time_succ]
        omega
  · rw [hfires]
    refine ⟨u, hi', hu.timer, hu.armed, fun d hd => ⟨?_, (hu.due d hd).2⟩⟩
    rw [hnow']
    cases l with
    | elapse ms => exact hontime u (List.mem_of_getElem? hi) d hd
    | fire j started => exact (hu.due d hd).1
    | exit k => exact (hu.due d hd).1

lemma notLate_of_run {ctxs : List Timer} (hi : ctxs[i]? = some t)
    (h : Run (Guarded OnTime (Step (timerStep uv))) (fsModTimerInited uv start ctxs) ls loop)
    (hnow : loop.now < 2 ^ 64 - 1) :
    ∃ u, loop.timers[i]? = some u ∧ NotLate start t (firings i ls) loop.now u := by
  induction h with
  | nil =>
    refine ⟨_, inited_some hi, rfl, nofun, fun d hd => ?_⟩
    obtain rfl := Option.mem_some_iff.mp hd
    have hstart : start < 2 ^ 64 - 1 := hnow
    have hfirst := uv.le_due start t.timeout
    have hlast := uv.due_le start t.timeout
    change start ≤ uv.due start t.timeout ∧ _
    rw [Timer.time]
    omega
  | @snoc loop loop' ls l _ hl ih =>
    have hle := now_of_step hl.2
    obtain ⟨u, hu, hlate⟩ := ih (by omega)
    rw [firings_snoc]
    exact hlate.step (by omega) hu hl.1 hl.2

/-- A timer that is not due now has fired as often as it should. -/
lemma NotLate.count_le (hu : NotLate start t k now u) (hdue : ∀ d ∈ u.due, now < d)
    (hstart : start ≤ now) : t.count (now - start) ≤ k := by
  refine Nat.le_of_not_lt fun hlt => ?_
  obtain ⟨htime, honce⟩ := le_count_iff.mp hlt
  cases hnext : u.due with
  | none =>
    obtain ⟨hrep, hpos⟩ := hu.armed hnext
    exact hpos.ne' (honce hrep)
  | some d =>
    have hlt := hdue d hnext
    have hle := (hu.due d hnext).2
    rw [Timer.time] at hle
    omega

/-! ### How often a timer fires -/

lemma set_of_getElem? {α : Type*} {l : List α} {a : α} (h : l[i]? = some a) : l.set i a = l := by
  obtain ⟨hi, rfl⟩ := List.getElem?_eq_some_iff.mp h
  exact List.set_getElem_self hi

/-- A step keeps the contexts of the timers, and adds the child of a firing. -/
lemma children_of_step {ctxs : List Timer} (htimers : loop.timers.map UvTimer.timer = ctxs)
    (h : timerStep uv loop l = some loop') :
    loop'.timers.map UvTimer.timer = ctxs ∧ loop'.proc.map TimerChild.options =
      loop.proc.map TimerChild.options ++ [l].filterMap (TimerEvent.child ctxs) := by
  cases l with
  | elapse ms =>
    cases h
    exact ⟨htimers, (List.append_nil _).symm⟩
  | fire i started =>
    obtain ⟨u, hu, -, rfl⟩ := timerStep_fire.mp h
    have hctx : ctxs[i]? = some u.timer := by
      rw [← htimers, List.getElem?_map, hu]
      rfl
    refine ⟨?_, ?_⟩
    · rw [fsModTimerCb_timers, List.map_set, htimers]
      exact set_of_getElem? hctx
    · cases started with
      | false => exact (List.append_nil _).symm
      | true => simp [fsModTimerCb, TimerEvent.child, hctx]
  | exit k =>
    refine ⟨(timerStep_exit h).1 ▸ htimers, ?_⟩
    rw [timerStep] at h
    split at h
    · cases h
    next child hchild =>
      obtain ⟨-, hloop⟩ := Option.ite_none_left_eq_some.mp h
      obtain rfl := Option.some.inj hloop
      refine Eq.trans ?_ (List.append_nil _).symm
      rw [List.map_set]
      apply set_of_getElem?
      rw [List.getElem?_map, hchild]
      rfl

/-- The children are those of the firings that start one, in their order. -/
lemma children_of_run {ctxs : List Timer}
    (h : Run (Step (timerStep uv)) (fsModTimerInited uv start ctxs) ls loop) :
    loop.timers.map UvTimer.timer = ctxs ∧
      loop.proc.map TimerChild.options = ls.filterMap (TimerEvent.child ctxs) := by
  induction h with
  | nil => exact ⟨by simp [fsModTimerInited, Function.comp_def], rfl⟩
  | @snoc _ _ ls l _ hl ih =>
    obtain ⟨htimers, hproc⟩ := children_of_step ih.1 hl
    refine ⟨htimers, ?_⟩
    rw [hproc, ih.2, List.filterMap_append]

lemma now_of_run {ctxs : List Timer}
    (h : Run (Step (timerStep uv)) (fsModTimerInited uv start ctxs) ls loop) : start ≤ loop.now :=
  h.invariant (I := fun loop => start ≤ loop.now)
    (fun _ _ _ hle hl => by rw [now_of_step hl]; exact Nat.le_add_right_of_le hle) le_rfl

/-- In every run, until the end of the clock, a timer has not fired more often than it is due, and
what has been started is what the firings start. -/
theorem firings_le_count {ctxs : List Timer} (hi : ctxs[i]? = some t)
    (h : Run (Step (timerStep uv)) (fsModTimerInited uv start ctxs) ls loop)
    (hnow : loop.now < 2 ^ 64 - 1) :
    firings i ls ≤ t.count (loop.now - start) ∧
      loop.proc.map TimerChild.options = ls.filterMap (TimerEvent.child ctxs) := by
  obtain ⟨u, -, hearly⟩ := notEarly_of_run hi h hnow
  exact ⟨hearly.le_count, (children_of_run h).2⟩

/-- While the loop is on time and nothing is due, a timer has fired as often as it is due. -/
theorem firings_eq_count {ctxs : List Timer} (hi : ctxs[i]? = some t)
    (h : Run (Guarded OnTime (Step (timerStep uv))) (fsModTimerInited uv start ctxs) ls loop)
    (hnow : loop.now < 2 ^ 64 - 1) (hwaits : loop.Waits) :
    firings i ls = t.count (loop.now - start) := by
  obtain ⟨u, hu, hlate⟩ := notLate_of_run hi h hnow
  obtain ⟨_, -, hearly⟩ := notEarly_of_run hi h.unguarded hnow
  have hdue := hwaits u (List.mem_of_getElem? hu)
  exact hearly.le_count.antisymm (hlate.count_le hdue (now_of_run h.unguarded))

end

/-- The first two firings of `everySecond`. -/
def twoSeconds : List TimerEvent := [.fire 0 true, .elapse 1000, .fire 0 true]

/-- The loop behind them. -/
def twoSecondsEnd : TimerLoop :=
  (exec (timerStep .inOrder) (fsModTimerInited .inOrder 5 [everySecond]) twoSeconds).getD
    ⟨5, [], []⟩

lemma run_twoSeconds :
    Run (Guarded OnTime (Step (timerStep .inOrder))) (fsModTimerInited .inOrder 5 [everySecond])
      twoSeconds twoSecondsEnd := by
  refine .cons ⟨trivial, rfl⟩ (.cons ⟨?_, rfl⟩ (.cons ⟨trivial, rfl⟩ .nil))
  intro u hu d hd
  obtain rfl := List.mem_singleton.mp hu
  obtain rfl := Option.mem_some_iff.mp hd
  decide

theorem firings_le_count_twoSeconds :
    firings 0 twoSeconds ≤ everySecond.count (twoSecondsEnd.now - 5) ∧
      twoSecondsEnd.proc.map TimerChild.options =
        twoSeconds.filterMap (TimerEvent.child [everySecond]) :=
  firings_le_count rfl run_twoSeconds.unguarded (by decide)

theorem firings_eq_count_twoSeconds :
    firings 0 twoSeconds = everySecond.count (twoSecondsEnd.now - 5) := by
  refine firings_eq_count rfl run_twoSeconds (by decide) fun u hu d hd => ?_
  obtain rfl := List.mem_singleton.mp hu
  obtain rfl := Option.mem_some_iff.mp hd
  decide

end Folksong
