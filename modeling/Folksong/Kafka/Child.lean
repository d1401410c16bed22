import Folksong.Core.Str
import Folksong.Lib.Pool

/-!
# The children of the kafka listener (`fs_mod_kafka_listener.c`)

Each message of a configured topic gets a child of its own. The listener is a pool of their
handlers: `fs_mod_kafka_listener_poll_cb` puts handlers into it, and libuv delivers to each the
completion of its write, the exit of its child and the close of its pipe, in any order.
-/

namespace Folksong

open Transition

/-- The part of `rd_kafka_message_t` the listener reads. -/
structure Rkm where
  err : Bool
  topic : List UInt8
  key : List UInt8
  payload : List UInt8
deriving DecidableEq, Repr

/-- A topic of the listener at run time: its name, and the `args` of its command up to their
`NULL`. -/
structure ListenedTopic where
  topic : FsStr
  args : List (List UInt8)
deriving DecidableEq, Repr

/-- Whether `uv_spawn` and the `uv_write` behind it succeed. -/
structure Outcome where
  spawned : Bool
  written : Bool
deriving DecidableEq, Repr

/-- What happens to a handler: the error returns, the callbacks libuv delivers, and what they do
with the handler and its message. -/
inductive ProcAct where
  | spawnFailed | writeFailed
  | writed | exited | closed
  | uvClose | free | destroy
deriving DecidableEq, Repr

/-- What libuv delivers to a handler. -/
inductive Delivery where
  | writed | exited | closed
deriving DecidableEq, Repr

/-- `fs_mod_kafka_listener_proc_handler_t`, with what libuv has still to deliver and what has
happened so far. -/
structure Proc where
  rkm : Rkm
  args : List (List UInt8)
  outcome : Outcome
  running : Bool
  writing : Bool
  closing : Nat
  trace : List ProcAct
deriving DecidableEq, Repr

/-- An argument of the child. -/
def procArg (rkm : Rkm) (arg : List UInt8) : List UInt8 :=
  if arg = bytes "$kafka_topic" then rkm.topic
  else if arg = bytes "$kafka_key" then rkm.key.takeWhile (· ≠ 0)
  else arg

/-- Start a child; after an error the handler is left as it is. -/
def procStart (topic : ListenedTopic) (rkm : Rkm) (o : Outcome) : Proc :=
  let args := topic.args.map (procArg rkm)
  if !o.spawned then ⟨rkm, args, o, false, false, 0, [.spawnFailed]⟩
  else if !o.written then ⟨rkm, args, o, true, false, 0, [.writeFailed]⟩
  else ⟨rkm, args, o, true, true, 0, []⟩

/-- What a call of the poll callback does: the handlers it makes, the messages it destroys by
itself, and the messages it leaves in the queue. -/
structure Polled where
  procs : List Proc
  destroyed : List Rkm
  left : List (Rkm × Outcome)
deriving DecidableEq, Repr

/-- `fs_mod_kafka_listener_poll_cb`, on the messages of the queue and on what will come of a child
for each. -/
def fsModKafkaListenerPollCb (topics : List ListenedTopic) : List (Rkm × Outcome) → Polled
  | [] => ⟨[], [], []⟩
  | (rkm, o) :: queue =>
    if rkm.err then ⟨[], [rkm], queue⟩
    else match topics.find? fun t => fsStrCmp t.topic (fsStrSet rkm.topic) with
      | none =>
        let polled := fsModKafkaListenerPollCb topics queue
        { polled with destroyed := rkm :: polled.destroyed }
      | some topic =>
        let proc := procStart topic rkm o
        if o.spawned && o.written then
          let polled := fsModKafkaListenerPollCb topics queue
          { polled with procs := proc :: polled.procs }
        else ⟨[proc], [], queue⟩

/-- `fs_mod_kafka_listener_proc_writed_cb`. -/
def fsModKafkaListenerProcWritedCb (p : Proc) : Proc :=
  { p with
    writing := false
    closing := p.closing + 1
    trace := p.trace ++ [.writed, .uvClose, .destroy] }

/-- `fs_mod_kafka_listener_proc_exited_cb`. -/
def fsModKafkaListenerProcExitedCb (p : Proc) : Proc :=
  { p with running := false, trace := p.trace ++ [.exited, .free] }

/-- `fs_mod_kafka_listener_proc_pipe_closed_cb`. -/
def fsModKafkaListenerProcPipeClosedCb (p : Proc) : Proc :=
  { p with closing := p.closing - 1, trace := p.trace ++ [.closed] }

/-- A delivery to a handler, which there is only for what is pending. -/
def procStep (p : Proc) : Delivery → Option Proc
  | .writed => if p.writing then some (fsModKafkaListenerProcWritedCb p) else none
  | .exited => if p.running then some (fsModKafkaListenerProcExitedCb p) else none
  | .closed => if 0 < p.closing then some (fsModKafkaListenerProcPipeClosedCb p) else none

/-- A poll with the messages of the queue, or a delivery to one handler. -/
abbrev ListenerEvent := Pool.Label (List (Rkm × Outcome)) Delivery

/-- The listener, seen as the pool of its handlers. -/
def listenerStep (topics : List ListenedTopic) : List Proc → ListenerEvent → Option (List Proc) :=
  Pool.step procStep fun queue => (fsModKafkaListenerPollCb topics queue).procs

/-- What libuv has still to deliver. -/
def Proc.Pending (p : Proc) (running writing : Bool) (closing : Nat) : Prop :=
  p.running = running ∧ p.writing = writing ∧ p.closing = closing

/-- Everything has been delivered. -/
def Proc.Settled (p : Proc) : Prop := p.Pending false false 0

/-- The handler is freed once, behind the completion of its write and the close of its pipe; the
message is destroyed once, behind the completion or the failure of the write. -/
def Orderly (trace : List ProcAct) : Prop :=
  (trace.count .free = 1 ∧ List.Sublist [.writed, .free] trace ∧
    List.Sublist [.closed, .free] trace) ∧
  (trace.count .destroy = 1 ∧
    (List.Sublist [.writed, .destroy] trace ∨ List.Sublist [.writeFailed, .destroy] trace))

instance : DecidablePred Orderly := fun _ => inferInstanceAs (Decidable (_ ∧ _))

/-! ### One handler -/

/-- What a delivery adds to the trace. -/
def Delivery.acts : Delivery → List ProcAct
  | .writed => [.writed, .uvClose, .destroy]
  | .exited => [.exited, .free]
  | .closed => [.closed]

lemma procStep_trace {p p' : Proc} {d : Delivery} (h : procStep p d = some p') :
    p'.trace = p.trace ++ d.acts ∧ p'.outcome = p.outcome := by
  cases d <;> obtain ⟨-, h⟩ := Option.ite_none_right_eq_some.mp h <;> cases h <;> exact ⟨rfl, rfl⟩

/-- The trace is made of the deliveries. -/
lemma trace_of_run {p p' : Proc} {ds : List Delivery} (h : Run (Step procStep) p ds p') :
    p'.trace = p.trace ++ ds.flatMap Delivery.acts ∧ p'.outcome = p.outcome := by
  induction h with
  | nil => simp
  | snoc _ hl ih =>
    obtain ⟨htrace, houtcome⟩ := procStep_trace hl
    rw [htrace, houtcome, ih.1, ih.2]
    simp

section

variable {p p' : Proc} {ds : List Delivery}

lemma exec_nil {running writing : Bool} {closing : Nat} (h : exec procStep p [] = some p')
    (hp : p.Pending running writing closing) (hp' : p'.Settled) :
    running = false ∧ writing = false ∧ closing = 0 := by
  obtain rfl := Option.some.inj h
  obtain ⟨rfl, rfl, rfl⟩ := hp
  exact hp'

/-- What the first delivery can be, and what is pending behind it. -/
lemma exec_cons {running writing : Bool} {closing : Nat} {d : Delivery}
    (h : exec procStep p (d :: ds) = some p') (hp : p.Pending running writing closing) :
    (d = .writed ∧ writing = true ∧ ∃ q, exec procStep q ds = some p' ∧
      q.Pending running false (closing + 1)) ∨
    (d = .exited ∧ running = true ∧ ∃ q, exec procStep q ds = some p' ∧
      q.Pending false writing closing) ∨
    (d = .closed ∧ 0 < closing ∧ ∃ q, exec procStep q ds = some p' ∧
      q.Pending running writing (closing - 1)) := by
  obtain ⟨rfl, rfl, rfl⟩ := hp
  obtain ⟨q, hq, hrest⟩ := Option.bind_eq_some_iff.mp h
  cases d with
  | writed =>
    obtain ⟨hwriting, hq⟩ := Option.ite_none_right_eq_some.mp hq
    exact .inl ⟨rfl, hwriting, q, hrest, Option.some.inj hq ▸ ⟨rfl, rfl, rfl⟩⟩
  | exited =>
    obtain ⟨hrunning, hq⟩ := Option.ite_none_right_eq_some.mp hq
    exact .inr (.inl ⟨rfl, hrunning, q, hrest, Option.some.inj hq ▸ ⟨rfl, rfl, rfl⟩⟩)
  | closed =>
    obtain ⟨hclosing, hq⟩ := Option.ite_none_right_eq_some.mp hq
    exact .inr (.inr ⟨rfl, hclosing, q, hrest, Option.some.inj hq ▸ ⟨rfl, rfl, rfl⟩⟩)

/-- A settled handler gets nothing more. -/
lemma exec_settled (h : exec procStep p ds = some p') (hp : p.Settled) : ds = [] := by
  cases ds with
  | nil => rfl
  | cons d ds =>
    rcases exec_cons h hp with ⟨-, hwriting, -⟩ | ⟨-, hrunning, -⟩ | ⟨-, hclosing, -⟩
    · cases hwriting
    · cases hrunning
    · cases hclosing

/-- The pipe of a child that has exited closes. -/
lemma exec_closing (h : exec procStep p ds = some p') (hp : p.Pending false false 1)
    (hp' : p'.Settled) : ds = [.closed] := by
  cases ds with
  | nil => exact absurd (exec_nil h hp hp') (by decide)
  | cons d ds =>
    rcases exec_cons h hp with ⟨-, hwriting, -⟩ | ⟨-, hrunning, -⟩ | ⟨rfl, -, q, h, hq⟩
    · cases hwriting
    · cases hrunning
    · rw [exec_settled h hq]

/-- A child exits for which nothing else is pending. -/
lemma exec_running (h : exec procStep p ds = some p') (hp : p.Pending true false 0)
    (hp' : p'.Settled) : ds = [.exited] := by
  cases ds with
  | nil => exact absurd (exec_nil h hp hp') (by decide)
  | cons d ds =>
    rcases exec_cons h hp with ⟨-, hwriting, -⟩ | ⟨rfl, -, q, h, hq⟩ | ⟨-, hclosing, -⟩
    · cases hwriting
    · rw [exec_settled h hq]
    · cases hclosing

/-- A child that has exited early leaves the write and then the close. -/
lemma exec_writing (h : exec procStep p ds = some p') (hp : p.Pending false true 0)
    (hp' : p'.Settled) : ds = [.writed, .closed] := by
  cases ds with
  | nil => exact absurd (exec_nil h hp hp') (by decide)
  | cons d ds =>
    rcases exec_cons h hp with ⟨rfl, -, q, h, hq⟩ | ⟨-, hrunning, -⟩ | ⟨-, hclosing, -⟩
    · rw [exec_closing h hq hp']
    · cases hrunning
    · cases hclosing

/-- Behind its write a child exits and its pipe closes, in any order. -/
lemma exec_writed (h : exec procStep p ds = some p') (hp : p.Pending true false 1)
    (hp' : p'.Settled) : ds = [.closed, .exited] ∨ ds = [.exited, .closed] := by
  cases ds with
  | nil => exact absurd (exec_nil h hp hp') (by decide)
  | cons d ds =>
    rcases exec_cons h hp with ⟨-, hwriting, -⟩ | ⟨rfl, -, q, h, hq⟩ | ⟨rfl, -, q, h, hq⟩
    · cases hwriting
    · rw [exec_closing h hq hp']
      exact .inr rfl
    · rw [exec_running h hq hp']
      exact .inl rfl

/-- The orders in which everything is delivered to a handler whose child was started. -/
lemma exec_started (h : exec procStep p ds = some p') (hp : p.Pending true true 0)
    (hp' : p'.Settled) :
    ds = [.writed, .closed, .exited] ∨ ds = [.writed, .exited, .closed] ∨
      ds = [.exited, .writed, .closed] := by
  cases ds with
  | nil => exact absurd (exec_nil h hp hp') (by decide)
  | cons d ds =>
    rcases exec_cons h hp with ⟨rfl, -, q, h, hq⟩ | ⟨rfl, -, q, h, hq⟩ | ⟨-, hclosing, -⟩
    · rcases exec_writed h hq hp' with rfl | rfl
      · exact .inl rfl
      · exact .inr (.inl rfl)
    · rw [exec_writing h hq hp']
      exact .inr (.inr rfl)
    · cases hclosing

end

/-- What becomes of one handler. -/
lemma orderly_iff_order {topic : ListenedTopic} {rkm : Rkm} {o : Outcome} {p : Proc}
    {ds : List Delivery} (h : Run (Step procStep) (procStart topic rkm o) ds p)
    (hp : p.Settled) :
    Orderly p.trace ↔ p.outcome.spawned = true ∧ p.outcome.written = true ∧
      List.Sublist [.closed, .exited] ds := by
  obtain ⟨htrace, houtcome⟩ := trace_of_run h
  rw [run_step_iff] at h
  rw [htrace, houtcome]
  obtain ⟨spawned, written⟩ := o
  cases spawned with
  | false =>
    obtain rfl := exec_settled h ⟨rfl, rfl, rfl⟩
    have hleft : ¬ Orderly [.spawnFailed] := by decide
    exact iff_of_false hleft fun hok => nomatch hok.1
  | true =>
    cases written with
    | false =>
      obtain rfl := exec_running h ⟨rfl, rfl, rfl⟩ hp
      have hleft : ¬ Orderly [.writeFailed, .exited, .free] := by decide
      exact iff_of_false hleft fun hok => nomatch hok.2.1
    | true =>
      simp only [procStart, Bool.not_true, Bool.false_eq_true, if_false, true_and]
      rcases exec_started h ⟨rfl, rfl, rfl⟩ hp with rfl | rfl | rfl
      · decide
      · decide
      · decide

/-! ### All of them -/

lemma mem_procs {topics : List ListenedTopic} {queue : List (Rkm × Outcome)} {p : Proc}
    (h : p ∈ (fsModKafkaListenerPollCb topics queue).procs) :
    ∃ topic rkm o, p = procStart topic rkm o := by
  induction queue with
  | nil => cases h
  | cons m queue ih =>
    obtain ⟨rkm, o⟩ := m
    rw [fsModKafkaListenerPollCb] at h
    by_cases herr : rkm.err
    · rw [if_pos herr] at h
      cases h
    · rw [if_neg herr] at h
      split at h
      · exact ih h
      · split at h
        · rcases List.mem_cons.mp h with rfl | h
          · exact ⟨_, rkm, o, rfl⟩
          · exact ih h
        · obtain rfl := List.mem_singleton.mp h
          exact ⟨_, rkm, o, rfl⟩

/-- A handler to which everything has been delivered was treated in an orderly way exactly when
its child was started, its write was submitted, and its pipe closed before the child exited. -/
theorem orderly_iff {topics : List ListenedTopic} {ls : List ListenerEvent} {ps : List Proc}
    (h : Run (Step (listenerStep topics)) [] ls ps) {i : Nat} {p : Proc} (hp : ps[i]? = some p)
    (hsettled : p.Settled) :
    Orderly p.trace ↔ p.outcome.spawned = true ∧ p.outcome.written = true ∧
      List.Sublist [.deliver i .closed, .deliver i .exited] ls := by
  obtain ⟨queue, p₀, -, hmem, hrun⟩ := Pool.component_of_run h hp
  obtain ⟨topic, rkm, o, rfl⟩ := mem_procs hmem
  rw [orderly_iff_order hrun hsettled, Pool.sublist_delivered_iff]
  rfl

/-- A child that reads all of its input. -/
theorem orderly_iff_cat :
    Orderly [.writed, .uvClose, .destroy, .closed, .exited, .free] ↔
      true = true ∧ true = true ∧
      List.Sublist [.deliver 0 .closed, .deliver 0 .exited]
        ([.start [(⟨false, [116], [], [49]⟩, ⟨true, true⟩)], .deliver 0 .writed,
          .deliver 0 .closed, .deliver 0 .exited] : List ListenerEvent) := by
  have hrun : Run (Step (listenerStep [⟨⟨[116], 2⟩, [[99, 97, 116]]⟩])) []
      [.start [(⟨false, [116], [], [49]⟩, ⟨true, true⟩)], .deliver 0 .writed,
        .deliver 0 .closed, .deliver 0 .exited]
      [⟨⟨false, [116], [], [49]⟩, [[99, 97, 116]], ⟨true, true⟩, false, false, 0,
        [.writed, .uvClose, .destroy, .closed, .exited, .free]⟩] :=
    run_step_iff.mpr (by decide)
  exact orderly_iff hrun (i := 0) rfl ⟨rfl, rfl, rfl⟩

/-- A child that exits before it has read its input: the handler is freed, then used for the
completion of the write. -/
theorem not_orderly :
    ¬ ∀ topics ls ps, Run (Step (listenerStep topics)) [] ls ps →
      ∀ (i : Nat) p, ps[i]? = some p → p.Settled → Orderly p.trace := by
  intro hall
  have hrun : Run (Step (listenerStep [⟨⟨[116], 2⟩, [[116, 114, 117, 101]]⟩])) []
      [.start [(⟨false, [116], [], [49]⟩, ⟨true, true⟩)], .deliver 0 .exited,
        .deliver 0 .writed, .deliver 0 .closed]
      [⟨⟨false, [116], [], [49]⟩, [[116, 114, 117, 101]], ⟨true, true⟩, false, false, 0,
        [.exited, .free, .writed, .uvClose, .destroy, .closed]⟩] :=
    run_step_iff.mpr (by decide)
  exact absurd (hall _ _ _ hrun 0 _ rfl ⟨rfl, rfl, rfl⟩) (by decide)

end Folksong
