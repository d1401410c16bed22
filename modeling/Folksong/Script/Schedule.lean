import Folksong.Mod.Schedule
import Folksong.Script.Reading

/-!
# From the timer blocks of a script to their firings

Start-up arms the timers in the order of the blocks they stand in. From then on each of them fires
at the times that its own block gives, and starts the command that its block gives last.
-/

namespace Folksong

open Transition

/-! ### What is read off the script -/

namespace Script

/-- The bodies of the timer blocks. -/
def timers (s : Script) : List Script :=
  s.bodies.filterMap fun b => if b.1 = .timerBlock then some b.2 else none

/-- What a firing of the timer of a block starts. -/
def spawn (body : Script) : SpawnOptions where
  options := (body.given .timerExec).getLast?.map execWords
  stdio := [.ignore, .inheritFd 1, .ignore]
  exitCb := false

end Script

/-- The child that a firing starts, by the block of its timer. -/
def TimerEvent.spawns (bodies : List Script) : TimerEvent → Option SpawnOptions
  | .fire i true => (bodies[i]?).map Script.spawn
  | _ => none

/-- The timer that a call arms. -/
def StartCall.arms (uv : UvTimers) (h : Heap) (now : Nat) : StartCall → Option UvTimer
  | .uvTimerStart p timeout rep =>
    match h.get p with
    | some (.timer t) => some ⟨{ t with timeout := timeout, rep := rep }, some (uv.due now timeout)⟩
    | _ => none
  | _ => none

/-- The event loop behind start-up. -/
def Startup.timerLoop (st : Startup) (uv : UvTimers) (h : Heap) (now : Nat) : TimerLoop where
  now := now
  timers := st.calls.filterMap (StartCall.arms uv h now)
  proc := []

def Obj.timer? : Obj → Option Timer
  | .timer t => some t
  | _ => none

section

variable {uv : UvTimers} {lib : Lib} {unset : Heap → Callback → Bool} {h : Heap} {p : Ptr} {o : Obj}
  {s body : Script} {t : Timer} {now : Nat}

/-- The block of a timer says what it starts. -/
lemma Timer.Reads.spawn (hreads : fsModTimerInit.Reads body t) : timerSpawn t = body.spawn := by
  rw [timerSpawn, Script.spawn, hreads.procOptions]
  exact congrArg (SpawnOptions.mk · _ _) (Option.or_none ..)

/-- The timers are those of the timer blocks. -/
lemma timers_of_reads {bs : List (Callback × Script)} {objs : List Obj}
    (hreads : List.Forall₂ (Obj.Reads lib unset) bs objs) :
    List.Forall₂ fsModTimerInit.Reads
      (bs.filterMap fun b => if b.1 = .timerBlock then some b.2 else none)
      (objs.filterMap Obj.timer?) := by
  induction hreads with
  | nil => exact .nil
  | @cons b o bs objs hb _ ih =>
    cases hb with
    | version => exact ih
    | timer ht => exact .cons ht ih
    | http => exact ih
    | listener => exact ih

/-! ### The calls of start-up -/

/-- The objects of a module, in the order of allocation. -/
lemma filterMap_contexts (objs : List Obj) (calls : List LibCall) (m : ModId) :
    (Heap.contexts ⟨objs, calls⟩ m).filterMap (Heap.get ⟨objs, calls⟩) =
      objs.filter (·.owner == m) := by
  induction objs using List.reverseRecOn with
  | nil => rfl
  | append_singleton objs o ih =>
    have halloc : (⟨objs ++ [o], calls⟩ : Heap) = (Heap.alloc ⟨objs, calls⟩ o).2 := rfl
    have hold : ∀ p ∈ Heap.contexts ⟨objs, calls⟩ m,
        Heap.get ⟨objs ++ [o], calls⟩ p = Heap.get ⟨objs, calls⟩ p := by
      intro p hp
      obtain ⟨o', ho', -⟩ := Heap.mem_contexts.mp hp
      rw [halloc, Heap.get_alloc_ne]
      rintro rfl
      rw [Heap.get_alloc_none] at ho'
      cases ho'
    rw [halloc, Heap.contexts_alloc, ← halloc, List.filterMap_append,
      List.filterMap_congr hold, ih, List.filter_append]
    split_ifs with howner
    · rw [halloc, List.filterMap_cons_some (get_alloc_self _ o)]
      simp [howner]
    · simp [howner]

/-- The timer of an object, armed. -/
def Obj.armed (uv : UvTimers) (now : Nat) (o : Obj) : Option UvTimer :=
  o.timer?.map fun t => ⟨t, some (uv.due now t.timeout)⟩

/-- The calls for an object arm its timer, and nothing else. -/
lemma filterMap_startsAt (ho : h.get p = some o) :
    (h.startsAt p).filterMap (StartCall.arms uv h now) = (o.armed uv now).toList := by
  rw [Heap.startsAt, ho, Option.elim_some]
  cases o with
  | version welcome => cases welcome <;> rfl
  | timer t =>
    rw [Obj.starts, List.filterMap_cons_none rfl,
      List.filterMap_cons_some (by rw [StartCall.arms, ho])]
    rfl
  | http block => rfl
  | listener l => rfl

/-- The turn of a module arms the timers of its objects. -/
lemma filterMap_starts (uv : UvTimers) (h : Heap) (m : ModId) (now : Nat) :
    (h.starts m).filterMap (StartCall.arms uv h now) =
      (h.objs.filter (·.owner == m)).filterMap (Obj.armed uv now) := by
  have hobj : ∀ p ∈ h.contexts m, (h.startsAt p).filterMap (StartCall.arms uv h now) =
      ((h.get p).bind (Obj.armed uv now)).toList := by
    intro p hp
    obtain ⟨o, ho, -⟩ := Heap.mem_contexts.mp hp
    rw [filterMap_startsAt ho, ho, Option.bind_some]
  calc (h.starts m).filterMap (StartCall.arms uv h now)
      = (h.contexts m).flatMap fun p => ((h.get p).bind (Obj.armed uv now)).toList := by
        rw [Heap.starts, List.filterMap_flatMap, List.flatMap_congr hobj]
    _ = ((h.contexts m).filterMap h.get).filterMap (Obj.armed uv now) := by
        rw [List.filterMap_filterMap, List.filterMap_eq_flatMap_toList]
    _ = _ := by rw [filterMap_contexts h.objs h.calls m]

/-- Only the turn of the timer module arms timers. -/
lemma filterMap_armed (uv : UvTimers) (objs : List Obj) (m : ModId) (now : Nat) :
    (objs.filter (·.owner == m)).filterMap (Obj.armed uv now) =
      if m = .timer then objs.filterMap (Obj.armed uv now) else [] := by
  have howner : ∀ o : Obj, o.owner ≠ .timer → o.armed uv now = none := by
    intro o ho
    cases o with
    | timer t => exact absurd rfl ho
    | version | http | listener => rfl
  rw [List.filterMap_filter]
  split_ifs with hm
  · refine List.filterMap_congr fun o _ => ?_
    rw [hm, ite_eq_left_iff, beq_iff_eq]
    exact fun ho => (howner o ho).symm
  · rw [List.filterMap_eq_nil_iff]
    intro o _
    rw [ite_eq_right_iff, beq_iff_eq]
    exact fun ho => howner o (ho ▸ hm)

lemma flatMap_ite {α β : Type*} (q : α → Prop) [DecidablePred q] (xs : List β) (l : List α) :
    (l.flatMap fun a => if q a then xs else []) = (List.replicate (l.countP (q ·)) xs).flatten := by
  induction l with
  | nil => rfl
  | cons a l ih =>
    rw [List.flatMap_cons, ih]
    by_cases ha : q a <;> simp [ha, List.replicate_succ]

/-- All calls of start-up together arm the timers, in the order of allocation. -/
lemma filterMap_flatMap_starts {mods : List (FsMod ModId Callback)}
    (hmods : mods.Perm shippedMods) (h : Heap) (now : Nat) :
    (mods.flatMap fun m => h.starts m.id).filterMap (StartCall.arms uv h now) =
      h.objs.filterMap (Obj.armed uv now) := by
  have hone : mods.countP (·.id = .timer) = 1 := by
    rw [hmods.countP_eq]
    decide
  simp only [List.filterMap_flatMap, filterMap_starts, filterMap_armed]
  rw [flatMap_ite (fun m : FsMod ModId Callback => m.id = .timer), hone]
  exact List.append_nil _

/-! ### The loop behind start-up -/

lemma timerLoop_eq {st : Startup} {mods : List (FsMod ModId Callback)}
    (hmods : mods.Perm shippedMods) (hcalls : st.calls = mods.flatMap fun m => h.starts m.id)
    (now : Nat) :
    st.timerLoop uv h now = fsModTimerInited uv now (h.objs.filterMap Obj.timer?) := by
  rw [Startup.timerLoop, hcalls, filterMap_flatMap_starts hmods, fsModTimerInited,
    List.map_filterMap]
  rfl

lemma completes_of_mem (hcomplete : ∀ o ∈ h.objs, o.complete)
    (ht : t ∈ h.objs.filterMap Obj.timer?) : t.completes := by
  obtain ⟨o, ho, hot⟩ := List.mem_filterMap.mp ht
  have hdone := hcomplete o ho
  cases o with
  | timer t' =>
    cases hot
    exact hdone
  | version | http | listener => cases hot

/-- The children are those of the blocks. -/
lemma child_eq_spawns {bodies : List Script} {ts : List Timer}
    (hreads : List.Forall₂ fsModTimerInit.Reads bodies ts) :
    TimerEvent.child ts = TimerEvent.spawns bodies := by
  have hspawn : ts.map timerSpawn = bodies.map Script.spawn := by
    induction hreads with
    | nil => rfl
    | cons ht _ ih => rw [List.map_cons, List.map_cons, ht.spawn, ih]
  funext l
  cases l with
  | elapse ms => rfl
  | exit k => rfl
  | fire i started =>
    cases started with
    | false => rfl
    | true =>
      rw [TimerEvent.child, TimerEvent.spawns, ← List.getElem?_map, hspawn, List.getElem?_map]

/-- In a run behind start-up, the timer at an index has fired as its block says. -/
structure FiresBy (uv : UvTimers) (body : Script) (start i : Nat) (loop₀ : TimerLoop)
    (ls : List TimerEvent) (loop : TimerLoop) (t : Timer) : Prop where
  reads : fsModTimerInit.Reads body t
  completes : t.completes
  notEarly : firings i ls ≤ t.count (loop.now - start)
  onTime : Run (Guarded OnTime (Step (timerStep uv))) loop₀ ls loop → loop.Waits →
    firings i ls = t.count (loop.now - start)

lemma firesBy_of_run {ts : List Timer} {loop : TimerLoop} {ls : List TimerEvent} {start i : Nat}
    (hreads : fsModTimerInit.Reads body t) (hcompletes : t.completes) (hi : ts[i]? = some t)
    (hrun : Run (Step (timerStep uv)) (fsModTimerInited uv start ts) ls loop)
    (hnow : loop.now < 2 ^ 64 - 1) :
    FiresBy uv body start i (fsModTimerInited uv start ts) ls loop t := by
  obtain ⟨_, -, hearly⟩ := notEarly_of_run hi hrun hnow
  refine ⟨hreads, hcompletes, hearly.le_count, fun hontime hwaits => ?_⟩
  obtain ⟨u, hu, hlate⟩ := notLate_of_run hi hontime hnow
  have hdue := hwaits u (List.mem_of_getElem? hu)
  exact hearly.le_count.antisymm (hlate.count_le hdue (now_of_run hrun))

variable {mods : List (FsMod ModId Callback)}

/-- From the text of a script to what runs: in every run of the loop behind start-up, up to the end
of the clock, the timer of each timer block has fired no more often than the times of its block make
it due, and as often while the loop is on time; and what has been started is, firing by firing, the
command of the block. -/
theorem firings_of_script (uv : UvTimers) (unset : Heap → Callback → Bool)
    (hmods : mods.Perm shippedMods) (hlib : ∀ (c : Engine) k, lib.uninitNull c k = unset c.heap k) (junk : Junk)
    {io : ReadOutcome} (hio : ∀ off, io off = true) {text : List UInt8} {mode : ParseMode}
    {f : FsFile} (hf : Delivered text mode f) (huncut : mode.Uncut text) {s : Script}
    (htext : textDirectives text = s.directives) (hplaced : s.Placed none)
    (hroomy : s.Roomy false 0) {tokens : FsArr FsStr} {c : Engine}
    (hok : parseEnd (shippedEnv mods lib junk) io mode (f.remaining + 2) f
      (Conf.start tokens ⟨[], []⟩) = (.ok, c)) :
    ∃ st, fsGmodInited mods c = some st ∧ ∀ {start : Nat} {ls : List TimerEvent} {loop : TimerLoop},
      Run (Step (timerStep uv)) (st.timerLoop uv c.heap start) ls loop → loop.now < 2 ^ 64 - 1 →
        loop.proc.map TimerChild.options = ls.filterMap (TimerEvent.spawns s.timers) ∧
        ∀ {i : Nat} {body : Script}, s.timers[i]? = some body →
          ∃ t, FiresBy uv body start i (st.timerLoop uv c.heap start) ls loop t := by
  have hbuilds := hf.builds hmods hlib junk hio huncut htext hplaced hroomy tokens
  rw [hok] at hbuilds
  obtain ⟨h, heval, hholds⟩ := holds_of_builds hbuilds rfl
  obtain ⟨st, hturns, hcalls, -⟩ := hholds.turns (Script.eval_greets greets_nil heval) mods .init
  have hgrows := s.eval_grows greets_nil (.inr rfl) heval
  have hreads := timers_of_reads (Script.reads_of_eval hplaced heval)
  refine ⟨st, hturns, fun {start ls loop} hrun hnow => ?_⟩
  rw [hholds.heap, timerLoop_eq hmods hcalls] at hrun ⊢
  refine ⟨?_, fun {i body} hbody => ?_⟩
  · rw [(children_of_run hrun).2, child_eq_spawns hreads]
    rfl
  · obtain ⟨hi, rfl⟩ := List.getElem?_eq_some_iff.mp hbody
    have hi' := hreads.length_eq ▸ hi
    have hcomplete : ∀ o ∈ h.objs, o.complete := fun o ho => by
      obtain ⟨n, hn⟩ := List.getElem?_of_mem ho
      exact hgrows.new (.obj n) o rfl hn
    exact ⟨_, firesBy_of_run (hreads.get hi hi') (completes_of_mem hcomplete (List.get_mem ..))
      (List.getElem?_eq_getElem hi') hrun hnow⟩

end

/-- Start-up behind the script. -/
def mixedStartup : Startup := (fsGmodInited shippedMods mixedParse.2).getD .init

/-- The loop it leaves. -/
def mixedLoop : TimerLoop := mixedStartup.timerLoop .inOrder mixedParse.2.heap 0

/-- The only firing of its timer. -/
def fiveMillis : List TimerEvent := [.elapse 5, .fire 0 true]

/-- The loop behind it. -/
def fiveMillisEnd : TimerLoop := (exec (timerStep .inOrder) mixedLoop fiveMillis).getD ⟨0, [], []⟩

lemma run_fiveMillis : Run (Step (timerStep .inOrder)) mixedLoop fiveMillis fiveMillisEnd :=
  run_step_iff.mpr (by decide +kernel)

theorem firings_of_script_mixed :
    fiveMillisEnd.proc.map TimerChild.options =
        fiveMillis.filterMap (TimerEvent.spawns mixedScript.timers) ∧
      ∃ body t, mixedScript.timers[0]? = some body ∧
        FiresBy .inOrder body 0 0 mixedLoop fiveMillis fiveMillisEnd t := by
  obtain ⟨st, hst, hruns⟩ := firings_of_script .inOrder (fun _ _ => true) (List.Perm.refl _)
    (fun _ _ => rfl) .null (fun _ => rfl) (.file []) uncut_mixedText directives_mixedScript
    placed_mixedScript roomy_mixedScript mixedParse_eq
  obtain rfl : st = mixedStartup := by rw [mixedStartup, hst, Option.getD_some]
  obtain ⟨hproc, htimers⟩ := hruns run_fiveMillis (by decide +kernel)
  obtain ⟨t, ht⟩ := htimers (i := 0) rfl
  exact ⟨hproc, _, t, rfl, ht⟩

end Folksong
