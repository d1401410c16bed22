import Folksong.Kafka.Topic

/-!
# What a poll leaves behind (`fs_mod_kafka_listener_poll_cb`)

The descriptor of the queue becomes readable when the queue stops being empty, so that a call of
the callback has to take everything out of it.
-/

namespace Folksong

/-! ### Draining -/

/-- The child was started and its input was submitted. -/
def Outcome.ok (o : Outcome) : Bool := o.spawned && o.written

/-- The messages that a call hands to the input of a child. -/
def Polled.handed (polled : Polled) : List Rkm :=
  (polled.procs.filter (·.outcome.ok)).map Proc.rkm

/-- Nothing is left to be polled, and each message was handed to a child or destroyed. -/
structure QueueDrained (queue : List (Rkm × Outcome)) (polled : Polled) : Prop where
  empty : polled.left = []
  handled : List.Perm (queue.map Prod.fst) (polled.handed ++ polled.destroyed)

/-- The loop goes on behind a message: it is no event of an error, unless it is the last one, and
if it has a topic, its child is started and its input is submitted. -/
def GoesOn (topics : List ListenedTopic) (rkm : Rkm) (o : Outcome)
    (post : List (Rkm × Outcome)) : Prop :=
  if rkm.err then post = [] else fsModKafkaListenerTopicOf topics rkm ≠ none → o.ok = true

/-- It does so behind all of them. -/
def Undisturbed (topics : List ListenedTopic) (queue : List (Rkm × Outcome)) : Prop :=
  ∀ pre rkm o post, queue = pre ++ (rkm, o) :: post → GoesOn topics rkm o post

section

variable {topics : List ListenedTopic} {rkm : Rkm} {o : Outcome} {queue : List (Rkm × Outcome)}

@[simp] lemma procStart_rkm (topic : ListenedTopic) : (procStart topic rkm o).rkm = rkm := by
  simp only [procStart]
  split_ifs <;> rfl

@[simp] lemma procStart_outcome (topic : ListenedTopic) :
    (procStart topic rkm o).outcome = o := by
  simp only [procStart]
  split_ifs <;> rfl

lemma undisturbed_nil : Undisturbed topics [] := by
  intro pre rkm o post heq
  simp at heq

lemma undisturbed_cons :
    Undisturbed topics ((rkm, o) :: queue) ↔
      GoesOn topics rkm o queue ∧ Undisturbed topics queue := by
  constructor
  · intro h
    refine ⟨h [] rkm o queue rfl, fun pre rkm' o' post heq => ?_⟩
    exact h ((rkm, o) :: pre) rkm' o' post (by rw [heq, List.cons_append])
  · rintro ⟨hhead, htail⟩ pre rkm' o' post heq
    rcases List.cons_eq_append_iff.mp heq with ⟨-, heq⟩ | ⟨pre', -, heq⟩
    · cases heq
      exact hhead
    · exact htail pre' rkm' o' post heq

/-- An event of an error ends the loop. -/
lemma queueDrained_err (herr : rkm.err = true) :
    QueueDrained ((rkm, o) :: queue) (fsModKafkaListenerPollCb topics ((rkm, o) :: queue)) ↔
      queue = [] := by
  rw [fsModKafkaListenerPollCb_cons, if_pos herr]
  constructor
  · exact fun h => h.empty
  · rintro rfl
    exact ⟨rfl, .refl _⟩

/-- A message without a topic is destroyed. -/
lemma queueDrained_none (herr : rkm.err = false)
    (hnone : fsModKafkaListenerTopicOf topics rkm = none) :
    QueueDrained ((rkm, o) :: queue) (fsModKafkaListenerPollCb topics ((rkm, o) :: queue)) ↔
      QueueDrained queue (fsModKafkaListenerPollCb topics queue) := by
  rw [fsModKafkaListenerPollCb_cons, if_neg (by simp [herr]), hnone]
  have hperm : List.Perm (rkm :: queue.map Prod.fst)
        ((fsModKafkaListenerPollCb topics queue).handed ++
          rkm :: (fsModKafkaListenerPollCb topics queue).destroyed) ↔
      List.Perm (queue.map Prod.fst) ((fsModKafkaListenerPollCb topics queue).handed ++
        (fsModKafkaListenerPollCb topics queue).destroyed) :=
    ⟨fun h => (h.trans List.perm_middle).cons_inv, fun h => (h.cons rkm).trans
      List.perm_middle.symm⟩
  exact ⟨fun h => ⟨h.empty, hperm.mp h.handled⟩, fun h => ⟨h.empty, hperm.mpr h.handled⟩⟩

/-- A message goes to its child. -/
lemma queueDrained_ok {topic : ListenedTopic} (herr : rkm.err = false)
    (htopic : fsModKafkaListenerTopicOf topics rkm = some topic) (hok : o.ok = true) :
    QueueDrained ((rkm, o) :: queue) (fsModKafkaListenerPollCb topics ((rkm, o) :: queue)) ↔
      QueueDrained queue (fsModKafkaListenerPollCb topics queue) := by
  rw [fsModKafkaListenerPollCb_cons, if_neg (by simp [herr]), htopic]
  simp only
  rw [if_pos (show (o.spawned && o.written) = true from hok)]
  have hhanded : Polled.handed { fsModKafkaListenerPollCb topics queue with
        procs := procStart topic rkm o :: (fsModKafkaListenerPollCb topics queue).procs }
      = rkm :: (fsModKafkaListenerPollCb topics queue).handed := by
    simp [Polled.handed, hok]
  constructor
  · rintro ⟨hempty, hhandled⟩
    rw [hhanded] at hhandled
    exact ⟨hempty, hhandled.cons_inv⟩
  · rintro ⟨hempty, hhandled⟩
    refine ⟨hempty, ?_⟩
    rw [hhanded]
    exact hhandled.cons rkm

/-- A child that does not start keeps its message, and ends the loop. -/
lemma not_queueDrained_of_failed {topic : ListenedTopic} (herr : rkm.err = false)
    (htopic : fsModKafkaListenerTopicOf topics rkm = some topic) (hok : o.ok = false) :
    ¬ QueueDrained ((rkm, o) :: queue) (fsModKafkaListenerPollCb topics ((rkm, o) :: queue)) := by
  rw [fsModKafkaListenerPollCb_cons, if_neg (by simp [herr]), htopic]
  simp only
  rw [if_neg (by simpa [Outcome.ok] using hok)]
  rintro ⟨-, hhandled⟩
  simp [Polled.handed, hok] at hhandled

/-- A call empties the queue, and hands each of its messages to a child or destroys it, exactly
when an event of an error is the last in the queue, and each message with a topic gets a child
that is started and whose input is submitted. -/
theorem queueDrained_iff (topics : List ListenedTopic) (queue : List (Rkm × Outcome)) :
    QueueDrained queue (fsModKafkaListenerPollCb topics queue) ↔ Undisturbed topics queue := by
  induction queue with
  | nil => exact iff_of_true ⟨rfl, .refl _⟩ undisturbed_nil
  | cons m queue ih =>
    obtain ⟨rkm, o⟩ := m
    rw [undisturbed_cons, ← ih, GoesOn]
    by_cases herr : rkm.err = true
    · rw [queueDrained_err herr, if_pos herr]
      refine ⟨?_, And.left⟩
      rintro rfl
      exact ⟨rfl, rfl, .refl _⟩
    · rw [if_neg herr]
      rw [Bool.not_eq_true] at herr
      cases htopic : fsModKafkaListenerTopicOf topics rkm with
      | none =>
        rw [queueDrained_none herr htopic]
        simp
      | some topic =>
        cases hok : o.ok with
        | false => simpa using not_queueDrained_of_failed herr htopic hok
        | true =>
          rw [queueDrained_ok herr htopic hok]
          simp

end

/-- A message behind an event of an error is left in the queue. -/
theorem not_queueDrained :
    ¬ ∀ (topics : List ListenedTopic) (queue : List (Rkm × Outcome)),
      QueueDrained queue (fsModKafkaListenerPollCb topics queue) := by
  intro h
  have hempty := (h [.plain "t"] [(⟨true, bytes "t", [], []⟩, ⟨true, true⟩),
    (⟨false, bytes "t", [], bytes "x"⟩, ⟨true, true⟩)]).empty
  exact absurd hempty (by decide)

end Folksong
