import Folksong.Lib.Transition
import Folksong.Mod.Timer

/-!
# The timers at run time (`fs_mod_timer_inited`, `fs_mod_timer_cb`)

All timers start their children with one global `uv_process_t`. libuv fires the timers in the
order they are due in, a child ends whenever it likes, and nothing ever closes the handle. What
libuv does with a timer is a parameter, and its fields say what is used of it.
-/

namespace Folksong

open Transition

/-- A `uv_timer_t` inside its context: when it is due, unless it is stopped. -/
structure UvTimer where
  timer : Timer
  due : Option Nat
deriving DecidableEq, Repr

/-- An entry of the `stdio` vector. -/
inductive StdioContainer where
  | ignore
  | inheritFd (fd : Nat)
deriving DecidableEq, Repr

/-- What `fs_mod_timer_cb` hands to `uv_spawn` next to `proc`. -/
structure SpawnOptions where
  options : Option ProcOptions
  stdio : List StdioContainer
  exitCb : Bool
deriving DecidableEq, Repr

/-- A child that was started with `proc`: whether it has exited, and whether `proc` has been
closed since. -/
structure TimerChild where
  options : SpawnOptions
  exited : Bool
  closed : Bool
deriving DecidableEq, Repr

/-- The event loop: its time, the timers, and the children that were started with `proc`. -/
structure TimerLoop where
  now : Nat
  timers : List UvTimer
  proc : List TimerChild
deriving DecidableEq, Repr

/-- The timers of libuv: when a timer is due that `uv_timer_start` arms, how `uv_timer_again` arms
one, and whether `uv_run` calls back the timer that is due at `d`, where `ds` are the times at which
timers are due. -/
structure UvTimers where
  due (now timeout : Nat) : Nat
  again (now rep : Nat) : Option Nat
  next (now : Nat) (ds : List Nat) (d : Nat) : Bool
  -- the timeout is waited for, up to the end of the clock, and no longer
  le_due : ∀ now timeout, min (now + timeout) (2 ^ 64 - 1) ≤ due now timeout
  due_le : ∀ now timeout, due now timeout ≤ now + timeout
  -- a timer that repeats takes its repeat value for the timeout, any other one is stopped
  again_zero : ∀ now, again now 0 = none
  again_pos : ∀ now rep, rep ≠ 0 → again now rep = some (due now rep)
  -- a timer is called back when it is due, and as time passes one of those armed is
  le_of_next : ∀ now ds d, next now ds d = true → d ≤ now
  exists_next : ∀ now ds, ds ≠ [] → ∃ ms, ∃ d ∈ ds, next (now + ms) ds d = true

/-- What happens in the loop: time passes, the timer at an index fires, and `uv_spawn` starts a
child or does not, or the child at an index exits. -/
inductive TimerEvent where
  | elapse (ms : Nat)
  | fire (i : Nat) (started : Bool)
  | exit (k : Nat)
deriving DecidableEq, Repr

/-- `fs_mod_timer_inited`. -/
def fsModTimerInited (uv : UvTimers) (now : Nat) (ctxs : List Timer) : TimerLoop where
  now := now
  timers := ctxs.map fun t => ⟨t, some (uv.due now t.timeout)⟩
  proc := []

/-- `uv_timer_again`, which libuv does right before the callback. -/
def uvTimerAgain (uv : UvTimers) (now : Nat) (u : UvTimer) : UvTimer :=
  { u with due := uv.again now u.timer.rep }

/-- What a firing timer starts. -/
def timerSpawn (t : Timer) : SpawnOptions where
  options := t.procOptions
  stdio := [.ignore, .inheritFd 1, .ignore]
  exitCb := false

/-- `fs_mod_timer_cb`. -/
def fsModTimerCb (loop : TimerLoop) (t : Timer) (started : Bool) : TimerLoop :=
  if started then { loop with proc := loop.proc ++ [⟨timerSpawn t, false, false⟩] } else loop

/-- libuv calls the timer back now. -/
def TimerLoop.IsNext (loop : TimerLoop) (uv : UvTimers) (u : UvTimer) : Prop :=
  ∃ d ∈ u.due, uv.next loop.now (loop.timers.filterMap UvTimer.due) d = true

instance (loop : TimerLoop) (uv : UvTimers) (u : UvTimer) : Decidable (loop.IsNext uv u) :=
  inferInstanceAs (Decidable (∃ d ∈ u.due, _))

/-- A step of the loop. -/
def timerStep (uv : UvTimers) (loop : TimerLoop) : TimerEvent → Option TimerLoop
  | .elapse ms => some { loop with now := loop.now + ms }
  | .fire i started =>
    match loop.timers[i]? with
    | none => none
    | some u =>
      if loop.IsNext uv u then
        some (fsModTimerCb { loop with timers := loop.timers.set i (uvTimerAgain uv loop.now u) }
          u.timer started)
      else none
  | .exit k =>
    match loop.proc[k]? with
    | none => none
    | some child =>
      if child.exited then none
      else some { loop with proc := loop.proc.set k { child with exited := true } }

/-- The loop does not track `proc` for a child that has not exited and been closed. -/
def TimerLoop.ProcFree (loop : TimerLoop) : Prop := ∀ child ∈ loop.proc, child.exited ∧ child.closed

/-- Whatever happens, `fs_mod_timer_cb` is only called while `proc` is free. -/
def NeverReused (uv : UvTimers) (now : Nat) (ctxs : List Timer) : Prop :=
  ∀ ls loop i started loop', Run (Step (timerStep uv)) (fsModTimerInited uv now ctxs) ls loop →
    timerStep uv loop (.fire i started) = some loop' → loop.ProcFree

/-- Some timer is still to fire. -/
def TimerLoop.Armed (loop : TimerLoop) : Prop := ∃ u ∈ loop.timers, u.due ≠ none

section

variable {uv : UvTimers} {loop loop' : TimerLoop}

/-- What a firing does. -/
lemma timerStep_fire {i : Nat} {started : Bool} :
    timerStep uv loop (.fire i started) = some loop' ↔ ∃ u, loop.timers[i]? = some u ∧
      loop.IsNext uv u ∧ loop' = fsModTimerCb
        { loop with timers := loop.timers.set i (uvTimerAgain uv loop.now u) } u.timer started := by
  rw [timerStep]
  cases hu : loop.timers[i]? with
  | none => simp
  | some u =>
    simp only [Option.ite_none_right_eq_some, Option.some.injEq, exists_eq_left']
    exact and_congr_right fun _ => eq_comm

/-- An exit changes a child and nothing else. -/
lemma timerStep_exit {k : Nat} (h : timerStep uv loop (.exit k) = some loop') :
    loop'.timers = loop.timers ∧ loop.proc ≠ [] := by
  rw [timerStep] at h
  cases hchild : loop.proc[k]? with
  | none => simp [hchild] at h
  | some child =>
    simp only [hchild, Option.ite_none_left_eq_some, Option.some.injEq] at h
    obtain ⟨-, rfl⟩ := h
    refine ⟨rfl, ?_⟩
    intro hnil
    simp [hnil] at hchild

lemma fsModTimerCb_timers (t : Timer) (started : Bool) :
    (fsModTimerCb loop t started).timers = loop.timers := by
  cases started <;> rfl

/-- A timer that fires is armed. -/
lemma TimerLoop.IsNext.due_ne {u : UvTimer} (h : loop.IsNext uv u) : u.due ≠ none := by
  obtain ⟨d, hd, -⟩ := h
  rw [Option.mem_def.mp hd]
  exact Option.some_ne_none d

/-- While a timer is armed, one of them comes to be the next. -/
lemma TimerLoop.Armed.exists_isNext (h : loop.Armed) (uv : UvTimers) :
    ∃ (ms i : Nat) (u : UvTimer), loop.timers[i]? = some u ∧
      TimerLoop.IsNext { loop with now := loop.now + ms } uv u := by
  have hne : loop.timers.filterMap UvTimer.due ≠ [] := by
    obtain ⟨u, hu, hdue⟩ := h
    obtain ⟨d, hd⟩ := Option.ne_none_iff_exists'.mp hdue
    exact List.ne_nil_of_mem (List.mem_filterMap.mpr ⟨u, hu, hd⟩)
  obtain ⟨ms, d, hd, hnext⟩ := uv.exists_next loop.now _ hne
  obtain ⟨u, hu, hdue⟩ := List.mem_filterMap.mp hd
  obtain ⟨i, hi⟩ := List.mem_iff_getElem?.mp hu
  exact ⟨ms, i, u, hi, d, hdue, hnext⟩

/-- An armed loop can run to the firing of a timer that starts its child. -/
lemma TimerLoop.Armed.exists_fire (h : loop.Armed) (uv : UvTimers) :
    ∃ (ms i : Nat) (u : UvTimer) (loop' : TimerLoop), loop.timers[i]? = some u ∧
      timerStep uv { loop with now := loop.now + ms } (.fire i true) = some loop' ∧
      loop'.timers = loop.timers.set i (uvTimerAgain uv (loop.now + ms) u) ∧
      loop'.proc = loop.proc ++ [⟨timerSpawn u.timer, false, false⟩] := by
  obtain ⟨ms, i, u, hu, hnext⟩ := h.exists_isNext uv
  exact ⟨ms, i, u, _, hu, timerStep_fire.mpr ⟨u, hu, hnext, rfl⟩, rfl, rfl⟩

/-! ### When one firing is all there is -/

/-- Nothing has been started and there is one timer at most, which does not repeat; or no timer
is left. -/
def TimerLoop.LastFiring (loop : TimerLoop) : Prop :=
  (loop.proc = [] ∧ loop.timers.length ≤ 1 ∧ ∀ u ∈ loop.timers, u.timer.rep = 0) ∨ ¬ loop.Armed

/-- The only timer is stopped by its firing. -/
lemma not_armed_again {i : Nat} {u : UvTimer} (hone : loop.timers.length ≤ 1)
    (hrep : u.timer.rep = 0) (hu : loop.timers[i]? = some u) (now : Nat) (proc : List TimerChild) :
    ¬ TimerLoop.Armed ⟨now, loop.timers.set i (uvTimerAgain uv loop.now u), proc⟩ := by
  rintro ⟨v, hv, hdue⟩
  obtain ⟨j, hj⟩ := List.mem_iff_getElem?.mp hv
  have hi := (List.getElem?_eq_some_iff.mp hu).1
  have hj' := (List.getElem?_eq_some_iff.mp hj).1
  rw [List.length_set] at hj'
  obtain rfl : i = j := by omega
  rw [List.getElem?_set_self hi] at hj
  apply hdue
  rw [← Option.some.inj hj, uvTimerAgain, hrep, uv.again_zero]

lemma timerStep_lastFiring {l : TimerEvent} (h : timerStep uv loop l = some loop')
    (hlast : loop.LastFiring) : loop'.LastFiring := by
  cases l with
  | elapse ms =>
    cases h
    exact hlast
  | fire i started =>
    obtain ⟨u, hu, hnext, rfl⟩ := timerStep_fire.mp h
    right
    rcases hlast with ⟨-, hone, hrep⟩ | hnone
    · have hstop := hrep u (List.mem_of_getElem? hu)
      rw [TimerLoop.Armed, fsModTimerCb_timers]
      exact not_armed_again hone hstop hu 0 []
    · exact absurd ⟨u, List.mem_of_getElem? hu, hnext.due_ne⟩ hnone
  | exit k =>
    obtain ⟨htimers, hne⟩ := timerStep_exit h
    rcases hlast with ⟨hnil, -⟩ | hnone
    · exact absurd hnil hne
    · right
      rwa [TimerLoop.Armed, htimers]

/-- The last firing finds `proc` free. -/
lemma procFree_of_lastFiring {i : Nat} {started : Bool} (hlast : loop.LastFiring)
    (h : timerStep uv loop (.fire i started) = some loop') : loop.ProcFree := by
  obtain ⟨u, hu, hnext, -⟩ := timerStep_fire.mp h
  rcases hlast with ⟨hnil, -⟩ | hnone
  · intro child hchild
    simp [hnil] at hchild
  · exact absurd ⟨u, List.mem_of_getElem? hu, hnext.due_ne⟩ hnone

end

/-! ### When there is a second firing -/

variable {uv : UvTimers} {now : Nat} {ctxs : List Timer}

lemma inited_getElem? {i : Nat} {u : UvTimer}
    (h : (fsModTimerInited uv now ctxs).timers[i]? = some u) :
    ∃ t, ctxs[i]? = some t ∧ u = ⟨t, some (uv.due now t.timeout)⟩ := by
  simp only [fsModTimerInited, List.getElem?_map, Option.map_eq_some_iff] at h
  obtain ⟨t, ht, rfl⟩ := h
  exact ⟨t, ht, rfl⟩

/-- With a second timer, or a timer that repeats, the first firing leaves a timer armed. -/
lemma armed_after_first (hmore : 2 ≤ ctxs.length ∨ ∃ t ∈ ctxs, t.rep ≠ 0) {i : Nat} {u : UvTimer}
    (hu : (fsModTimerInited uv now ctxs).timers[i]? = some u) (time : Nat)
    (proc : List TimerChild) : TimerLoop.Armed
      ⟨time, (fsModTimerInited uv now ctxs).timers.set i (uvTimerAgain uv time u), proc⟩ := by
  obtain ⟨t, ht, rfl⟩ := inited_getElem? hu
  have hi := (List.getElem?_eq_some_iff.mp hu).1
  by_cases htwo : 2 ≤ ctxs.length
  · -- another timer is still armed for the first time
    obtain ⟨j, hj, hne⟩ : ∃ j, j < ctxs.length ∧ i ≠ j := by
      by_cases hzero : i = 0
      · exact ⟨1, by omega, by omega⟩
      · exact ⟨0, by omega, hzero⟩
    refine ⟨⟨ctxs[j], some (uv.due now ctxs[j].timeout)⟩, ?_, Option.some_ne_none _⟩
    apply List.mem_of_getElem? (i := j)
    rw [List.getElem?_set_ne hne]
    simp [fsModTimerInited, hj]
  · -- the only timer is armed again
    obtain ⟨t', ht', hrep⟩ := hmore.resolve_left htwo
    obtain ⟨j, hj⟩ := List.mem_iff_getElem?.mp ht'
    have hi' := (List.getElem?_eq_some_iff.mp ht).1
    have hj' := (List.getElem?_eq_some_iff.mp hj).1
    obtain rfl : i = j := by omega
    obtain rfl : t = t' := Option.some.inj (ht.symm.trans hj)
    refine ⟨_, List.mem_of_getElem? (List.getElem?_set_self hi), ?_⟩
    rw [uvTimerAgain, uv.again_pos _ _ hrep]
    exact Option.some_ne_none _

/-- Then a run reaches a firing while the child of the first one is still running. -/
lemma exists_reuse (hmore : 2 ≤ ctxs.length ∨ ∃ t ∈ ctxs, t.rep ≠ 0) :
    ∃ ls loop i loop', Run (Step (timerStep uv)) (fsModTimerInited uv now ctxs) ls loop ∧
      timerStep uv loop (.fire i true) = some loop' ∧
      ∃ child ∈ loop.proc, child.exited = false := by
  have harmed : (fsModTimerInited uv now ctxs).Armed := by
    have hpos : ∃ t, t ∈ ctxs := by
      rcases hmore with htwo | ⟨t, ht, -⟩
      · exact List.exists_mem_of_length_pos (by omega)
      · exact ⟨t, ht⟩
    obtain ⟨t, ht⟩ := hpos
    exact ⟨_, List.mem_map_of_mem ht, Option.some_ne_none _⟩
  obtain ⟨ms, i, u, loop, hu, hfire, htimers, hproc⟩ := harmed.exists_fire uv
  have hagain : loop.Armed := by
    rw [TimerLoop.Armed, htimers]
    exact armed_after_first hmore hu _ []
  obtain ⟨ms', j, -, loop', -, hfire', -, -⟩ := hagain.exists_fire uv
  refine ⟨[.elapse ms, .fire i true, .elapse ms'], _, j, loop', ?_, hfire', ?_⟩
  · exact .cons rfl (.cons hfire (.one rfl))
  · refine ⟨⟨timerSpawn u.timer, false, false⟩, ?_, rfl⟩
    rw [hproc]
    exact List.mem_append_right _ (List.mem_singleton_self _)

/-- A timer never fires while `proc` is in use exactly when there is at most one timer and it
does not repeat. -/
theorem neverReused_iff (uv : UvTimers) (now : Nat) (ctxs : List Timer) :
    NeverReused uv now ctxs ↔ ctxs.length ≤ 1 ∧ ∀ t ∈ ctxs, t.rep = 0 := by
  constructor
  · intro hnever
    by_contra hcond
    have hmore : 2 ≤ ctxs.length ∨ ∃ t ∈ ctxs, t.rep ≠ 0 := by
      by_contra hno
      simp only [not_or, not_exists, not_and, ne_eq, not_not] at hno
      exact hcond ⟨by omega, hno.2⟩
    obtain ⟨ls, loop, i, loop', hrun, hfire, child, hchild, hexit⟩ := exists_reuse hmore
    obtain ⟨hexit', -⟩ := hnever ls loop i true loop' hrun hfire child hchild
    rw [hexit] at hexit'
    cases hexit'
  · rintro ⟨hone, hrep⟩ ls loop i started loop' hrun hfire
    have hstart : (fsModTimerInited uv now ctxs).LastFiring := by
      left
      refine ⟨rfl, by simpa [fsModTimerInited] using hone, ?_⟩
      intro u hu
      obtain ⟨t, ht, rfl⟩ := List.mem_map.mp hu
      exact hrep t ht
    exact procFree_of_lastFiring
      (hrun.invariant (fun _ _ _ hI hl => timerStep_lastFiring hl hI) hstart) hfire

/-- The words `exec sleep 60`. -/
def sleepTokens : FsArr FsStr where
  gen := 0
  elems := [some ⟨bytes "exec", 5⟩, some ⟨bytes "sleep", 6⟩, some ⟨bytes "60", 3⟩]
  eleCount := 3
  capa_pos := by decide
  count_le := by decide

/-- The context of `timer{repeat 1s;exec sleep 60;}`. -/
def everySecond : Timer :=
  { fsModTimerInit with
    rep := 1000
    repeatFlag := true
    procOptions := some (execOptions sleepTokens)
    cbFlag := true }

/-- Every timer in the order they are due in. -/
def UvTimers.inOrder : UvTimers where
  due now timeout := min (now + timeout) (2 ^ 64 - 1)
  again now rep := if rep = 0 then none else some (min (now + rep) (2 ^ 64 - 1))
  next now ds d := d ≤ now && ds.all (d ≤ ·)
  le_due _ _ := le_rfl
  due_le _ _ := min_le_left _ _
  again_zero _ := if_pos rfl
  again_pos _ _ hrep := if_neg hrep
  le_of_next now ds d h := by
    rw [Bool.and_eq_true, decide_eq_true_eq] at h
    exact h.1
  exists_next now ds hne := by
    obtain ⟨d, hd⟩ := Option.isSome_iff_exists.mp (List.isSome_min?_of_ne_nil hne)
    obtain ⟨hmem, hle⟩ := List.min?_eq_some_iff.mp hd
    refine ⟨d, d, hmem, ?_⟩
    simpa using hle

/-- A minute's sleep every second: the second child takes the handle of the first. -/
theorem not_neverReused : ¬ NeverReused .inOrder 0 [everySecond] := by
  intro hnever
  have hrun : Run (Step (timerStep .inOrder)) (fsModTimerInited .inOrder 0 [everySecond])
      [.fire 0 true, .elapse 1000]
      ⟨1000, [⟨everySecond, some 1000⟩], [⟨timerSpawn everySecond, false, false⟩]⟩ := by
    rw [run_step_iff]
    rfl
  have hfree := hnever _ _ 0 true _ hrun rfl
  exact absurd (hfree _ (List.mem_singleton_self _)).1 Bool.false_ne_true

end Folksong
