import Folksong.Kafka.Queue
import Folksong.Lib.Edge

/-!
# A listener at run time (`fs_mod_kafka_listener.c`)

librdkafka puts messages into the queue at any time. It writes a byte into the pipe when it puts
one into an empty queue (`rd_kafka_queue_io_event_enable`), and libuv calls
`fs_mod_kafka_listener_poll_cb` when the pipe can be read. A call reads one byte and then polls one
message after the other. Between the calls libuv delivers to the handlers of the children.
-/

namespace Folksong

open Transition

/-! ### One message -/

/-- What the loop of `fs_mod_kafka_listener_poll_cb` does with a message: the handler it makes, the
message it destroys, and whether it goes on. -/
structure PolledOne where
  proc : Option Proc
  destroyed : Option Rkm
  goesOn : Bool

def pollOne (topics : List ListenedTopic) (m : Rkm × Outcome) : PolledOne :=
  if m.1.err then ⟨none, some m.1, false⟩
  else match fsModKafkaListenerTopicOf topics m.1 with
    | none => ⟨none, some m.1, true⟩
    | some topic => ⟨some (procStart topic m.1 m.2), none, m.2.ok⟩

def procsOf (topics : List ListenedTopic) (ms : List (Rkm × Outcome)) : List Proc :=
  ms.filterMap fun m => (pollOne topics m).proc

def destroyedOf (topics : List ListenedTopic) (ms : List (Rkm × Outcome)) : List Rkm :=
  ms.filterMap fun m => (pollOne topics m).destroyed

def goesOn (topics : List ListenedTopic) (m : Rkm × Outcome) : Bool := (pollOne topics m).goesOn

/-- A call polls until the queue is empty or a message ends the loop. -/
lemma pollCb_eq_drain (topics : List ListenedTopic) (queue : List (Rkm × Outcome)) :
    fsModKafkaListenerPollCb topics queue =
      ⟨procsOf topics (Edge.drain (goesOn topics) queue).1,
        destroyedOf topics (Edge.drain (goesOn topics) queue).1,
        (Edge.drain (goesOn topics) queue).2⟩ := by
  induction queue with
  | nil => rfl
  | cons m queue ih =>
    obtain ⟨rkm, o⟩ := m
    rw [fsModKafkaListenerPollCb_cons]
    by_cases herr : rkm.err = true
    · simp [Edge.drain, goesOn, procsOf, destroyedOf, pollOne, herr]
    · rw [if_neg herr]
      cases htopic : fsModKafkaListenerTopicOf topics rkm with
      | none => simp [Edge.drain, goesOn, procsOf, destroyedOf, pollOne, herr, htopic, ih]
      | some topic =>
        cases hok : o.ok with
        | false =>
          have hstops : ¬ (o.spawned && o.written) = true := by
            rw [← Outcome.ok, hok]
            exact Bool.false_ne_true
          simp [Edge.drain, goesOn, procsOf, destroyedOf, pollOne, herr, htopic, hok, hstops]
        | true =>
          have hgoes : (o.spawned && o.written) = true := hok
          simp [Edge.drain, goesOn, procsOf, destroyedOf, pollOne, herr, htopic, hok, hgoes, ih]

/-! ### The listener -/

/-- The queue with its pipe, the handlers of the children, and the messages that were destroyed
without one. -/
structure ListenerState where
  edge : Edge.State (Rkm × Outcome)
  procs : List Proc
  destroyed : List Rkm

/-- What happens to a listener: librdkafka puts a message into its queue, libuv finds the pipe
readable, the callback polls, and libuv delivers to a handler. -/
inductive ListenerTurn where
  | arrive (m : Rkm × Outcome)
  | readable
  | poll
  | deliver (i : Nat) (d : Delivery)

/-- libuv delivers to a handler while no callback runs. -/
def ListenerState.turn (topics : List ListenedTopic) (s : ListenerState) :
    ListenerTurn → Option ListenerState
  | .arrive m => (Edge.step (goesOn topics) s.edge (.put m)).map fun e => { s with edge := e }
  | .readable => (Edge.step (goesOn topics) s.edge .wake).map fun e => { s with edge := e }
  | .poll => (Edge.step (goesOn topics) s.edge .take).map fun e =>
      { edge := e
        procs := s.procs ++ procsOf topics s.edge.queue.head?.toList
        destroyed := s.destroyed ++ destroyedOf topics s.edge.queue.head?.toList }
  | .deliver i d =>
    if s.edge.awake then none
    else (Pool.step procStep (fun ps : List Proc => ps) s.procs (.deliver i d)).map fun ps =>
      { s with procs := ps }

/-- `fs_mod_kafka_listener_inited`, before anything is in the queue. -/
def ListenerState.inited : ListenerState := ⟨Edge.start [], [], []⟩

/-- What a turn is for the queue. -/
def ListenerTurn.label : ListenerTurn → Option (Edge.Label (Rkm × Outcome))
  | .arrive m => some (.put m)
  | .readable => some .wake
  | .poll => some .take
  | .deliver _ _ => none

/-- The turn that is a step of the queue. -/
def turnOf : Edge.Label (Rkm × Outcome) → ListenerTurn
  | .put m => .arrive m
  | .wake => .readable
  | .take => .poll

/-- The messages that have arrived. -/
def arrivals (ts : List ListenerTurn) : List (Rkm × Outcome) :=
  Edge.puts (ts.filterMap ListenerTurn.label)

/-- What was delivered to the handler at index `i`. -/
def deliveries (i : Nat) (ts : List ListenerTurn) : List Delivery :=
  ts.filterMap fun
    | .deliver j d => if j = i then some d else none
    | _ => none

section

variable {topics : List ListenedTopic} {s s' : ListenerState}
variable {t : ListenerTurn} {ts : List ListenerTurn}

/-! ### The queue of a listener -/

lemma edge_of_turn (h : Step (ListenerState.turn topics) s t s') :
    Run (Step (Edge.step (goesOn topics))) s.edge ([t].filterMap ListenerTurn.label) s'.edge := by
  cases t with
  | arrive m =>
    rw [Step, ListenerState.turn] at h
    obtain ⟨e, he, rfl⟩ := Option.map_eq_some_iff.mp h
    exact .one he
  | readable =>
    rw [Step, ListenerState.turn] at h
    obtain ⟨e, he, rfl⟩ := Option.map_eq_some_iff.mp h
    exact .one he
  | poll =>
    rw [Step, ListenerState.turn] at h
    obtain ⟨e, he, rfl⟩ := Option.map_eq_some_iff.mp h
    exact .one he
  | deliver i d =>
    obtain ⟨-, h⟩ := Option.ite_none_left_eq_some.mp h
    obtain ⟨ps, -, rfl⟩ := Option.map_eq_some_iff.mp h
    exact .nil

/-- A run of a listener is a run of its queue. -/
lemma edge_of_turns (h : Run (Step (ListenerState.turn topics)) s ts s') :
    Run (Step (Edge.step (goesOn topics))) s.edge (ts.filterMap ListenerTurn.label) s'.edge := by
  induction h with
  | nil => exact .nil
  | snoc _ hl ih =>
    rw [List.filterMap_append]
    exact ih.append (edge_of_turn hl)

/-- A listener follows its queue. -/
lemma exists_turn {l : Edge.Label (Rkm × Outcome)} {e : Edge.State (Rkm × Outcome)}
    (h : Step (Edge.step (goesOn topics)) s.edge l e) :
    ∃ s', Step (ListenerState.turn topics) s (turnOf l) s' ∧ s'.edge = e := by
  rw [Step] at h
  cases l with
  | put m => exact ⟨{ s with edge := e }, by rw [Step, turnOf, ListenerState.turn, h]; rfl, rfl⟩
  | wake => exact ⟨{ s with edge := e }, by rw [Step, turnOf, ListenerState.turn, h]; rfl, rfl⟩
  | take => exact ⟨⟨e, _, _⟩, by rw [Step, turnOf, ListenerState.turn, h]; rfl, rfl⟩

lemma exists_turns {ls : List (Edge.Label (Rkm × Outcome))} {e : Edge.State (Rkm × Outcome)}
    (h : Run (Step (Edge.step (goesOn topics))) s.edge ls e) :
    ∃ s', Run (Step (ListenerState.turn topics)) s (ls.map turnOf) s' ∧ s'.edge = e := by
  induction h with
  | nil => exact ⟨s, .nil, rfl⟩
  | snoc _ hl ih =>
    obtain ⟨s₁, hrun, rfl⟩ := ih
    obtain ⟨s₂, hturn, rfl⟩ := exists_turn hl
    rw [List.map_append]
    exact ⟨s₂, hrun.snoc hturn, rfl⟩

/-! ### The handlers of a listener -/

/-- The handlers of a listener, as a pool. -/
abbrev poolStep : List Proc → Pool.Label (List Proc) Delivery → Option (List Proc) :=
  Pool.step procStep fun ps => ps

/-- What a turn polls, makes and destroys, and what it delivers. -/
lemma polled_of_turn (h : Step (ListenerState.turn topics) s t s') :
    ∃ ms ls, s'.edge.taken = s.edge.taken ++ ms ∧
      s'.destroyed = s.destroyed ++ destroyedOf topics ms ∧
      Run (Step poolStep) s.procs ls s'.procs ∧
      Pool.started (fun ps => ps) ls = procsOf topics ms ∧
      ∀ i, Pool.delivered i ls = deliveries i [t] := by
  cases t with
  | arrive m =>
    rw [Step, ListenerState.turn] at h
    obtain ⟨e, he, rfl⟩ := Option.map_eq_some_iff.mp h
    cases he
    exact ⟨[], [], by simp [Edge.State.put], by simp [destroyedOf], .nil, rfl, fun _ => rfl⟩
  | readable =>
    rw [Step, ListenerState.turn] at h
    obtain ⟨e, he, rfl⟩ := Option.map_eq_some_iff.mp h
    obtain ⟨-, he⟩ := Option.ite_none_right_eq_some.mp he
    cases he
    exact ⟨[], [], by simp, by simp [destroyedOf], .nil, rfl, fun _ => rfl⟩
  | poll =>
    rw [Step, ListenerState.turn] at h
    obtain ⟨e, he, rfl⟩ := Option.map_eq_some_iff.mp h
    refine ⟨s.edge.queue.head?.toList, [.start (procsOf topics s.edge.queue.head?.toList)],
      ?_, rfl, .one rfl, Pool.started_start _, fun _ => rfl⟩
    obtain ⟨-, he⟩ := Option.ite_none_right_eq_some.mp he
    cases hq : s.edge.queue with
    | nil =>
      rw [hq] at he
      cases he
      simp
    | cons m queue =>
      rw [hq] at he
      cases he
      rfl
  | deliver i d =>
    obtain ⟨-, h⟩ := Option.ite_none_left_eq_some.mp h
    obtain ⟨ps, hps, rfl⟩ := Option.map_eq_some_iff.mp h
    exact ⟨[], [.deliver i d], by simp, by simp [destroyedOf], .one hps, rfl, fun _ => rfl⟩

/-- What a run polls, makes and destroys, and what it delivers. -/
lemma polled_of_turns (h : Run (Step (ListenerState.turn topics)) s ts s') :
    ∃ ms ls, s'.edge.taken = s.edge.taken ++ ms ∧
      s'.destroyed = s.destroyed ++ destroyedOf topics ms ∧
      Run (Step poolStep) s.procs ls s'.procs ∧
      Pool.started (fun ps => ps) ls = procsOf topics ms ∧
      ∀ i, Pool.delivered i ls = deliveries i ts := by
  induction h with
  | nil => exact ⟨[], [], by simp, by simp [destroyedOf], .nil, rfl, fun _ => rfl⟩
  | snoc _ hl ih =>
    obtain ⟨ms, ls, htaken, hdestroyed, hrun, hstarted, hdelivered⟩ := ih
    obtain ⟨ms', ls', htaken', hdestroyed', hrun', hstarted', hdelivered'⟩ := polled_of_turn hl
    refine ⟨ms ++ ms', ls ++ ls', ?_, ?_, hrun.append hrun', ?_, fun i => ?_⟩
    · rw [htaken', htaken, List.append_assoc]
    · rw [hdestroyed', hdestroyed, List.append_assoc, destroyedOf, destroyedOf, destroyedOf,
        List.filterMap_append]
    · rw [Pool.started_append, hstarted, hstarted', procsOf, procsOf, procsOf,
        List.filterMap_append]
    · rw [Pool.delivered_append, hdelivered, hdelivered', deliveries, deliveries, deliveries,
        List.filterMap_append]

/-- In every run, each message that has arrived is polled once, in its turn, or still in the
queue. What was polled without a child is destroyed; every other message has one handler, which
has got its own deliveries since it was made and no others. -/
theorem polled_once (h : Run (Step (ListenerState.turn topics)) .inited ts s) :
    s.edge.taken ++ s.edge.queue = arrivals ts ∧
    s.destroyed = destroyedOf topics s.edge.taken ∧
    s.procs.length = (procsOf topics s.edge.taken).length ∧
    ∀ i p, s.procs[i]? = some p → ∃ p₀, (procsOf topics s.edge.taken)[i]? = some p₀ ∧
      Run (Step procStep) p₀ (deliveries i ts) p := by
  obtain ⟨ms, ls, htaken, hdestroyed, hrun, hstarted, hdelivered⟩ := polled_of_turns h
  obtain ⟨hlen, hruns⟩ := Pool.started_of_run hrun
  have htaken : s.edge.taken = ms := htaken
  rw [hstarted, ← htaken] at hlen hruns
  refine ⟨Edge.run_elems (edge_of_turns h), htaken ▸ hdestroyed, hlen, fun i p hp => ?_⟩
  rw [← hdelivered]
  exact hruns i p hp

end

/-- A message of the topic `t`, and an event of an error. -/
def plainMessage : Rkm × Outcome := (⟨false, bytes "t", [], bytes "x"⟩, ⟨true, true⟩)

def errorEvent : Rkm × Outcome := (⟨true, [], [], []⟩, ⟨true, true⟩)

/-- One message, and a child that reads its input. -/
def plainTurns : List ListenerTurn :=
  [.arrive plainMessage, .readable, .poll, .poll, .deliver 0 .writed, .deliver 0 .closed,
    .deliver 0 .exited]

/-- Two messages behind an event of an error: the call that polls the event polls nothing else,
and the byte of the pipe has been read. -/
def errorTurns : List ListenerTurn :=
  [.arrive errorEvent, .arrive plainMessage, .readable, .poll, .arrive plainMessage]

/-- What a list of turns leads to. -/
def reached (ts : List ListenerTurn) : ListenerState :=
  (exec (ListenerState.turn [.plain "t"]) .inited ts).getD .inited

lemma run_reached {ts : List ListenerTurn}
    (h : (exec (ListenerState.turn [.plain "t"]) .inited ts).isSome = true) :
    Run (Step (ListenerState.turn [.plain "t"])) .inited ts (reached ts) := by
  obtain ⟨s, hs⟩ := Option.isSome_iff_exists.mp h
  rw [run_step_iff, reached, hs]
  rfl

theorem polled_once_plain :
    (reached plainTurns).edge.taken ++ (reached plainTurns).edge.queue = arrivals plainTurns ∧
    (reached plainTurns).destroyed = destroyedOf [.plain "t"] (reached plainTurns).edge.taken ∧
    (reached plainTurns).procs.length =
      (procsOf [.plain "t"] (reached plainTurns).edge.taken).length ∧
    ∀ (i : Nat) p, (reached plainTurns).procs[i]? = some p →
      ∃ p₀, (procsOf [.plain "t"] (reached plainTurns).edge.taken)[i]? = some p₀ ∧
        Run (Step procStep) p₀ (deliveries i plainTurns) p :=
  polled_once (run_reached (by decide))

section

variable {topics : List ListenedTopic} {s s' : ListenerState}
variable {t : ListenerTurn} {ts : List ListenerTurn}

/-! ### A listener that is not woken -/

/-- The pipe is not readable and no call polls. -/
def ListenerState.Rests (topics : List ListenedTopic) (s : ListenerState) : Prop :=
  s.turn topics .readable = none ∧ s.turn topics .poll = none

/-- Messages are in the queue that nothing will ever poll, whatever arrives. -/
def ListenerState.Stuck (topics : List ListenedTopic) (s : ListenerState) : Prop :=
  s.edge.queue ≠ [] ∧
    ∀ ts s', Run (Step (ListenerState.turn topics)) s ts s' → s'.edge.taken = s.edge.taken

lemma rests_iff_edge : s.Rests topics ↔ s.edge.Rests (goesOn topics) := by
  rw [ListenerState.Rests, Edge.State.Rests, ListenerState.turn, ListenerState.turn,
    Option.map_eq_none_iff, Option.map_eq_none_iff]

lemma stuck_iff_edge : s.Stuck topics ↔ ¬ s.edge.Alert := by
  rw [Edge.not_alert_iff (goesOn topics), ListenerState.Stuck]
  refine and_congr_right fun _ => ⟨fun hnone ls e h => ?_, fun hnone ts s' h => ?_⟩
  · obtain ⟨s', hrun, rfl⟩ := exists_turns h
    exact hnone _ s' hrun
  · exact hnone _ _ (edge_of_turns h)

/-- While nothing arrives, a listener takes no more turns than there are messages, bytes in the
pipe and running calls, a byte for two. When it has come to rest, it has polled everything that has
arrived, or it is stuck. -/
theorem served_or_stuck (h : Run (Step (ListenerState.turn topics)) .inited ts s) :
    (∀ ts' s', Run (Step (ListenerState.turn topics)) s ts' s' → arrivals ts' = [] →
      (ts'.filterMap ListenerTurn.label).length ≤
        s.edge.queue.length + 2 * s.edge.signals + s.edge.awake.toNat) ∧
    (s.Rests topics → s.edge.taken = arrivals ts ∨ s.Stuck topics) := by
  constructor
  · intro ts' s' h' hnone
    exact Nat.le_of_add_right_le (Edge.length_le_work (edge_of_turns h') hnone)
  · intro hrests
    by_cases halert : s.edge.Alert
    · have hall := Edge.run_elems (edge_of_turns h)
      rw [Edge.Alert.queue_eq_nil halert (rests_iff_edge.mp hrests), List.append_nil] at hall
      exact .inl hall
    · exact .inr (stuck_iff_edge.mpr halert)

lemma goesOn_eq_false_iff {m : Rkm × Outcome} :
    goesOn topics m = false ↔
      m.1.err = true ∨ fsModKafkaListenerTopicOf topics m.1 ≠ none ∧ m.2.ok = false := by
  rw [goesOn, pollOne]
  by_cases herr : m.1.err = true
  · simp [herr]
  · cases htopic : fsModKafkaListenerTopicOf topics m.1 <;> simp [herr]

/-- A turn of the queue in a run. -/
lemma exists_poll {ls₁ ls₂ : List (Edge.Label (Rkm × Outcome))}
    (h : ts.filterMap ListenerTurn.label = ls₁ ++ .take :: ls₂) :
    ∃ ts₁ ts₂, ts = ts₁ ++ .poll :: ts₂ ∧ ts₁.filterMap ListenerTurn.label = ls₁ := by
  obtain ⟨ts₀, ts', rfl, rfl, h'⟩ := List.filterMap_eq_append_iff.mp h
  obtain ⟨ts₁, t, ts₂, rfl, hnone, hpoll, -⟩ := List.filterMap_eq_cons_iff.mp h'
  have ht : t = .poll := by
    cases t with
    | poll => rfl
    | arrive | readable | deliver => cases hpoll
  refine ⟨ts₀ ++ ts₁, ts₂, by rw [ht, List.append_assoc], ?_⟩
  rw [List.filterMap_append, List.filterMap_eq_nil_iff.mpr hnone, List.append_nil]

/-- A listener is stuck exactly when a call has once ended early, behind an event of an error or a
child that did not start, while messages were left and the pipe was empty. -/
theorem stuck_iff_forsaken (h : Run (Step (ListenerState.turn topics)) .inited ts s) :
    s.Stuck topics ↔ ∃ ts₁ ts₂ s₁ m ms, ts = ts₁ ++ .poll :: ts₂ ∧
      Run (Step (ListenerState.turn topics)) .inited ts₁ s₁ ∧ s₁.edge.awake = true ∧
      s₁.edge.signals = 0 ∧ s₁.edge.queue = m :: ms ∧ ms ≠ [] ∧
      (m.1.err = true ∨ fsModKafkaListenerTopicOf topics m.1 ≠ none ∧ m.2.ok = false) := by
  rw [stuck_iff_edge, Edge.stuck_iff (edge_of_turns h) Edge.alert_start]
  constructor
  · rintro ⟨ls₁, ls₂, e₁, hls, hrun₁, hawake, hsignals, m, ms, hq, hstops, hne⟩
    obtain ⟨ts₁, ts₂, rfl, rfl⟩ := exists_poll hls
    obtain ⟨s₁, hturns₁, -⟩ := run_append_iff.mp h
    obtain rfl := (edge_of_turns hturns₁).deterministic hrun₁
    exact ⟨ts₁, ts₂, s₁, m, ms, rfl, hturns₁, hawake, hsignals, hq, hne,
      goesOn_eq_false_iff.mp hstops⟩
  · rintro ⟨ts₁, ts₂, s₁, m, ms, rfl, hturns₁, hawake, hsignals, hq, hne, hstops⟩
    refine ⟨ts₁.filterMap ListenerTurn.label, ts₂.filterMap ListenerTurn.label, s₁.edge, ?_,
      edge_of_turns hturns₁, hawake, hsignals, m, ms, hq, goesOn_eq_false_iff.mpr hstops, hne⟩
    rw [List.filterMap_append]
    rfl

end

theorem served_or_stuck_plain :
    (∀ ts' s', Run (Step (ListenerState.turn [.plain "t"])) (reached plainTurns) ts' s' →
      arrivals ts' = [] → (ts'.filterMap ListenerTurn.label).length ≤
        (reached plainTurns).edge.queue.length + 2 * (reached plainTurns).edge.signals +
          (reached plainTurns).edge.awake.toNat) ∧
    ((reached plainTurns).Rests [.plain "t"] →
      (reached plainTurns).edge.taken = arrivals plainTurns ∨
        (reached plainTurns).Stuck [.plain "t"]) :=
  served_or_stuck (run_reached (by decide))

theorem stuck_iff_forsaken_error :
    (reached errorTurns).Stuck [.plain "t"] ↔ ∃ ts₁ ts₂ s₁ m ms,
      errorTurns = ts₁ ++ .poll :: ts₂ ∧
      Run (Step (ListenerState.turn [.plain "t"])) .inited ts₁ s₁ ∧ s₁.edge.awake = true ∧
      s₁.edge.signals = 0 ∧ s₁.edge.queue = m :: ms ∧ ms ≠ [] ∧
      (m.1.err = true ∨ fsModKafkaListenerTopicOf [.plain "t"] m.1 ≠ none ∧ m.2.ok = false) :=
  stuck_iff_forsaken (run_reached (by decide))

example : (reached errorTurns).Stuck [.plain "t"] :=
  stuck_iff_edge.mpr fun halert => absurd (halert (by decide) (by decide)) (by decide)

/-! ### A call that is not interrupted -/

section

variable {topics : List ListenedTopic} {s : ListenerState}

/-- Where nothing arrives meanwhile, a call takes its byte and does what
`fs_mod_kafka_listener_poll_cb` does with the queue. -/
theorem call_eq_pollCb (hasleep : s.edge.awake = false) (hreadable : 0 < s.edge.signals) :
    ∃ n s', exec (ListenerState.turn topics) s (.readable :: List.replicate n .poll) = some s' ∧
      s'.edge.awake = false ∧ s'.edge.signals + 1 = s.edge.signals ∧
      s'.edge.queue = (fsModKafkaListenerPollCb topics s.edge.queue).left ∧
      s'.procs = s.procs ++ (fsModKafkaListenerPollCb topics s.edge.queue).procs ∧
      s'.destroyed = s.destroyed ++ (fsModKafkaListenerPollCb topics s.edge.queue).destroyed := by
  obtain ⟨n, hn⟩ := Edge.exists_drain (goesOn topics) s.edge.queue s.edge.taken
    (s.edge.signals - 1)
  have hwake : Step (Edge.step (goesOn topics)) s.edge .wake
      ⟨s.edge.queue, s.edge.signals - 1, true, s.edge.taken⟩ := if_pos ⟨hasleep, hreadable⟩
  obtain ⟨s', hturns, hedge⟩ := exists_turns (.cons hwake (run_step_iff.mpr hn))
  rw [List.map_cons, List.map_replicate] at hturns
  obtain ⟨ms, ls, htaken, hdestroyed, hrun, hstarted, hdelivered⟩ := polled_of_turns hturns
  have hms : ms = (Edge.drain (goesOn topics) s.edge.queue).1 := by
    rw [hedge] at htaken
    exact (List.append_cancel_left htaken).symm
  have hnone : ∀ i, Pool.delivered i ls = [] := by
    intro i
    rw [hdelivered, deliveries]
    simp [turnOf]
  have hprocs := Pool.eq_append_started hrun hnone
  rw [hstarted] at hprocs
  rw [pollCb_eq_drain, ← hms]
  refine ⟨n, s', run_step_iff.mp hturns, ?_, ?_, ?_, hprocs, hdestroyed⟩
  · rw [hedge]
  · rw [hedge]
    exact Nat.sub_add_cancel hreadable
  · rw [hedge]

end

theorem call_eq_pollCb_plain :
    ∃ n s', exec (ListenerState.turn [.plain "t"]) (reached [.arrive plainMessage])
        (.readable :: List.replicate n .poll) = some s' ∧
      s'.edge.awake = false ∧
      s'.edge.signals + 1 = (reached [.arrive plainMessage]).edge.signals ∧
      s'.edge.queue = (fsModKafkaListenerPollCb [.plain "t"]
        (reached [.arrive plainMessage]).edge.queue).left ∧
      s'.procs = (reached [.arrive plainMessage]).procs ++ (fsModKafkaListenerPollCb [.plain "t"]
        (reached [.arrive plainMessage]).edge.queue).procs ∧
      s'.destroyed = (reached [.arrive plainMessage]).destroyed ++
        (fsModKafkaListenerPollCb [.plain "t"]
          (reached [.arrive plainMessage]).edge.queue).destroyed :=
  call_eq_pollCb (by decide) (by decide)

end Folksong
