import Folksong.Kafka.Child
import Folksong.Lib.Search

/-!
# The topic of a message (`fs_mod_kafka_listener.c`)

The listener looks for the block of a message with `fs_str_cmp`, after `fs_str_set` has left the
last byte out of the name of its topic: a block is taken when its name begins with the others.
-/

namespace Folksong

/-! ### The search -/

/-- The name of a topic block. -/
def ListenedTopic.name (t : ListenedTopic) : List UInt8 := t.topic.cstr

/-- The loop of `fs_mod_kafka_listener_poll_cb` over the topic blocks. -/
def fsModKafkaListenerTopicOf (topics : List ListenedTopic) (rkm : Rkm) : Option ListenedTopic :=
  topics.find? fun t => fsStrCmp t.topic (fsStrSet rkm.topic)

/-- A message goes to the command of the topic that is found for it, or is dropped. -/
lemma fsModKafkaListenerPollCb_cons (topics : List ListenedTopic) (rkm : Rkm) (o : Outcome)
    (queue : List (Rkm × Outcome)) :
    fsModKafkaListenerPollCb topics ((rkm, o) :: queue) =
      if rkm.err then ⟨[], [rkm], queue⟩
      else match fsModKafkaListenerTopicOf topics rkm with
        | none =>
          { fsModKafkaListenerPollCb topics queue with
            destroyed := rkm :: (fsModKafkaListenerPollCb topics queue).destroyed }
        | some topic =>
          if o.spawned && o.written then
            { fsModKafkaListenerPollCb topics queue with
              procs := procStart topic rkm o :: (fsModKafkaListenerPollCb topics queue).procs }
          else ⟨[procStart topic rkm o], [], queue⟩ := rfl

/-- What librdkafka calls a topic: a C string with at least one byte. -/
structure Rkm.Named (rkm : Rkm) : Prop where
  ne : rkm.topic ≠ []
  nulFree : (0 : UInt8) ∉ rkm.topic

/-- The block that is found has the name of the message's topic, if there is one, and otherwise
nothing is found. -/
structure OwnTopic (topics : List ListenedTopic) (rkm : Rkm) (found : Option ListenedTopic) :
    Prop where
  own : ∀ t ∈ topics, t.name = rkm.topic → found = some t
  dropped : (∀ t ∈ topics, t.name ≠ rkm.topic) → found = none

section

variable {topics : List ListenedTopic} {rkm : Rkm}

/-- Among blocks with different names, there is one to be found at most. -/
lemma ownTopic_iff (hnames : (topics.map ListenedTopic.name).Nodup)
    {found : Option ListenedTopic} :
    OwnTopic topics rkm found ↔ found = topics.find? fun t => t.name == rkm.topic := by
  constructor
  · rintro ⟨hown, hdropped⟩
    cases hfind : topics.find? fun t => t.name == rkm.topic with
    | none =>
      apply hdropped
      intro t ht hname
      exact List.find?_eq_none.mp hfind t ht (beq_iff_eq.mpr hname)
    | some t =>
      have hname := List.find?_some hfind
      exact hown t (List.mem_of_find?_eq_some hfind) (by simpa using hname)
  · rintro rfl
    constructor
    · intro t ht hname
      have hsome : (topics.find? fun t => t.name == rkm.topic).isSome := by
        rw [List.find?_isSome]
        exact ⟨t, ht, beq_iff_eq.mpr hname⟩
      obtain ⟨t', ht'⟩ := Option.isSome_iff_exists.mp hsome
      have hname' : t'.name = rkm.topic := by
        have h := List.find?_some ht'
        simpa using h
      rw [ht', List.inj_on_of_nodup_map hnames (List.mem_of_find?_eq_some ht') ht
        (hname'.trans hname.symm)]
    · intro hno
      rw [List.find?_eq_none]
      intro t ht hname
      exact hno t ht (beq_iff_eq.mp hname)

/-- The last byte of the message's topic is not looked at. -/
lemma topic_found_iff (hm : rkm.Named) {t : ListenedTopic} (ht : t.topic.IsToken) :
    fsStrCmp t.topic (fsStrSet rkm.topic) = true ↔ rkm.topic.dropLast <+: t.name := by
  have hsize : (fsStrSet rkm.topic).size = rkm.topic.length - 1 := if_neg hm.ne
  rw [fsStrCmp_comm, fsStrCmp_iff_begins hm.nulFree (hsize.trans_le (Nat.sub_le _ _)) ht, hsize,
    List.dropLast_eq_take]
  rfl

/-- A message goes to the command of its own topic, or is dropped when there is none, exactly
when no block whose name begins with all bytes of the message's topic but the last one stands
before the block of that topic. -/
theorem ownTopic_iff_first (htokens : ∀ t ∈ topics, t.topic.IsToken)
    (hnames : (topics.map ListenedTopic.name).Nodup) (hm : rkm.Named) :
    OwnTopic topics rkm (fsModKafkaListenerTopicOf topics rkm) ↔
      ∀ pre t post, topics = pre ++ t :: post → rkm.topic.dropLast <+: t.name →
        ∃ t' ∈ pre ++ [t], t'.name = rkm.topic := by
  have hfound : ∀ t ∈ topics, (fsStrCmp t.topic (fsStrSet rkm.topic) = true ↔
      rkm.topic.dropLast <+: t.name) := fun t ht => topic_found_iff hm (htokens t ht)
  have hown : ∀ t ∈ topics, (t.name == rkm.topic) = true →
      fsStrCmp t.topic (fsStrSet rkm.topic) = true := by
    intro t ht hname
    rw [hfound t ht, beq_iff_eq.mp hname]
    exact List.dropLast_prefix _
  rw [ownTopic_iff hnames, fsModKafkaListenerTopicOf, Search.find?_eq_find?_iff hown]
  constructor
  · intro h pre t post heq hpre
    obtain ⟨t', ht', hname⟩ := h pre t post heq ((hfound t (by simp [heq])).mpr hpre)
    exact ⟨t', ht', beq_iff_eq.mp hname⟩
  · intro h pre t post heq hcmp
    obtain ⟨t', ht', hname⟩ := h pre t post heq ((hfound t (by simp [heq])).mp hcmp)
    exact ⟨t', ht', beq_iff_eq.mpr hname⟩

end

/-- A topic block whose name is written as it is. -/
def ListenedTopic.plain (name : String) : ListenedTopic :=
  ⟨⟨bytes name, (bytes name).length + 1⟩, []⟩

/-- Two topics that differ before their last byte. -/
theorem ownTopic_iff_first_plain :
    OwnTopic [.plain "a1", .plain "b1"] ⟨false, bytes "b1", [], []⟩
        (fsModKafkaListenerTopicOf [.plain "a1", .plain "b1"] ⟨false, bytes "b1", [], []⟩) ↔
      ∀ (pre : List ListenedTopic) (t : ListenedTopic) (post : List ListenedTopic),
        [.plain "a1", .plain "b1"] = pre ++ t :: post →
          (bytes "b1").dropLast <+: t.name → ∃ t' ∈ pre ++ [t], t'.name = bytes "b1" :=
  ownTopic_iff_first (by decide) (by decide) ⟨by decide, by decide⟩

/-- A message of the topic `t2` goes to the command of the topic `t1`. -/
theorem not_ownTopic :
    ¬ ∀ (topics : List ListenedTopic) (rkm : Rkm), (∀ t ∈ topics, t.topic.IsToken) →
      (topics.map ListenedTopic.name).Nodup → rkm.Named →
        OwnTopic topics rkm (fsModKafkaListenerTopicOf topics rkm) := by
  intro h
  have hown := (h [.plain "t1", .plain "t2"] ⟨false, bytes "t2", [], []⟩ (by decide) (by decide)
    ⟨by decide, by decide⟩).own (.plain "t2") (by decide) (by decide)
  revert hown
  decide

end Folksong
