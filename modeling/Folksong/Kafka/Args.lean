import Folksong.Kafka.Topic

/-!
# The arguments of a child (`fs_mod_kafka_listener_poll_cb`)

The handler of a child has room for 64 pointers and for a key of 127 bytes. The loop that fills
them in looks at the arguments of the topic only.
-/

namespace Folksong

/-! ### The loop -/

/-- What a slot of the vector points to. -/
inductive ArgPtr where
  | topicName
  | keyParam
  | conf (arg : List UInt8)
deriving DecidableEq, Repr

/-- The length of `args`. -/
def argsLength : Nat := 64

/-- The length of `key_param`. -/
def keyParamLength : Nat := 128

/-- `args` and `key_param` of `fs_mod_kafka_listener_proc_handler_t`: the slots that have been
written, `none` for `NULL`, the string in `key_param`, and whether every byte and every pointer has
been stored inside. -/
structure ProcArgs where
  args : List (Option ArgPtr)
  keyParam : List UInt8
  inside : Bool
deriving DecidableEq, Repr

/-- A handler that has just been allocated. -/
def ProcArgs.fresh : ProcArgs := ⟨[], [], true⟩

/-- `proc->options.args[i] = p`, for the next `i`. -/
def ProcArgs.store (s : ProcArgs) (p : Option ArgPtr) : ProcArgs :=
  { s with args := s.args ++ [p], inside := s.inside && decide (s.args.length < argsLength) }

/-- `(int) rkm->key_len` as a precision: a negative one counts as none. -/
def keyPrecision (keyLen : Nat) : Option Nat :=
  if keyLen % 2 ^ 32 < 2 ^ 31 then some (keyLen % 2 ^ 32) else none

/-- What `sprintf` makes of the key with `%.*s`. Without a precision it would read on behind a key
that has no NUL. -/
def sprintfKey (key : List UInt8) : Option (List UInt8) :=
  match keyPrecision key.length with
  | some n => some ((key.take n).takeWhile (· ≠ 0))
  | none => if 0 ∈ key then some (key.takeWhile (· ≠ 0)) else none

/-- `sprintf` to `key_param`, with its NUL. -/
def ProcArgs.printKey (s : ProcArgs) (key : List UInt8) : Option ProcArgs :=
  (sprintfKey key).map fun text =>
    { s with keyParam := text, inside := s.inside && decide (text.length < keyParamLength) }

/-- The loop over the arguments of the topic, up to their `NULL`. -/
def fillArgs (key : List UInt8) : List (List UInt8) → ProcArgs → Option ProcArgs
  | [], s => some (s.store none)
  | arg :: args, s =>
    if arg = bytes "$kafka_topic" then fillArgs key args (s.store (some .topicName))
    else if arg = bytes "$kafka_key" then
      match s.printKey key with
      | none => none
      | some s => fillArgs key args (s.store (some .keyParam))
    else fillArgs key args (s.store (some (.conf arg)))

/-- The vector a message of a topic is given. -/
def childArgs (topic : ListenedTopic) (rkm : Rkm) : Option ProcArgs :=
  fillArgs rkm.key topic.args .fresh

/-- The string behind a slot. -/
def ProcArgs.string (s : ProcArgs) (rkm : Rkm) : ArgPtr → List UInt8
  | .topicName => rkm.topic
  | .keyParam => s.keyParam
  | .conf arg => arg

/-- The child gets the arguments of the topic, with the topic and the key of the message in their
places, and a `NULL`; nothing is stored outside. -/
def ProperArgs (topic : ListenedTopic) (rkm : Rkm) (r : Option ProcArgs) : Prop :=
  ∃ s, r = some s ∧ s.inside = true ∧
    s.args.map (Option.map (s.string rkm))
      = topic.args.map (fun arg => some (procArg rkm arg)) ++ [none]

/-! ### What the loop stores -/

/-- The pointer for an argument. -/
def argPtr (arg : List UInt8) : ArgPtr :=
  if arg = bytes "$kafka_topic" then .topicName
  else if arg = bytes "$kafka_key" then .keyParam
  else .conf arg

lemma key_ne_topic : bytes "$kafka_key" ≠ bytes "$kafka_topic" := by decide

/-- The result of the loop, told by the arguments. -/
structure Filled (key : List UInt8) (args : List (List UInt8)) (s s' : ProcArgs) : Prop where
  slots : s'.args = s.args ++ args.map (fun arg => some (argPtr arg)) ++ [none]
  printed : bytes "$kafka_key" ∈ args → sprintfKey key = some s'.keyParam
  kept : bytes "$kafka_key" ∉ args → s'.keyParam = s.keyParam
  inside : s'.inside = true ↔ s.inside = true ∧ s.args.length + args.length < argsLength ∧
    (bytes "$kafka_key" ∈ args → s'.keyParam.length < keyParamLength)

lemma ProcArgs.store_inside (s : ProcArgs) (p : Option ArgPtr) :
    (s.store p).inside = true ↔ s.inside = true ∧ s.args.length < argsLength := by
  simp [ProcArgs.store]

section

variable {key : List UInt8} {args : List (List UInt8)} {s s' : ProcArgs}

lemma filled_nil : Filled key [] s (s.store none) where
  slots := by simp [ProcArgs.store]
  printed := by simp
  kept := fun _ => rfl
  inside := by simp [ProcArgs.store_inside]

/-- An argument that is not the key. -/
lemma filled_cons {arg : List UInt8} (hne : arg ≠ bytes "$kafka_key")
    (h : Filled key args (s.store (some (argPtr arg))) s') : Filled key (arg :: args) s s' where
  slots := by simp [h.slots, ProcArgs.store]
  printed := fun hmem => h.printed ((List.mem_cons.mp hmem).resolve_left hne.symm)
  kept := fun hmem => h.kept fun hargs => hmem (List.mem_cons_of_mem _ hargs)
  inside := by
    have hlength : (s.store (some (argPtr arg))).args.length = s.args.length + 1 := by
      simp [ProcArgs.store]
    have hmem : bytes "$kafka_key" ∈ arg :: args ↔ bytes "$kafka_key" ∈ args := by
      simp [hne.symm]
    rw [h.inside, ProcArgs.store_inside, hlength, hmem, List.length_cons]
    constructor
    · rintro ⟨⟨hs, -⟩, hargs, hkey⟩
      exact ⟨hs, by omega, hkey⟩
    · rintro ⟨hs, hargs, hkey⟩
      exact ⟨⟨hs, by omega⟩, by omega, hkey⟩

/-- The key: each copy of it prints the same text. -/
lemma filled_key {s₁ : ProcArgs} (hprint : s.printKey key = some s₁)
    (h : Filled key args (s₁.store (some .keyParam)) s') :
    Filled key (bytes "$kafka_key" :: args) s s' := by
  obtain ⟨text, htext, rfl⟩ := Option.map_eq_some_iff.mp hprint
  have hparam : s'.keyParam = text := by
    by_cases hmem : bytes "$kafka_key" ∈ args
    · exact Option.some.inj ((h.printed hmem).symm.trans htext)
    · exact h.kept hmem
  constructor
  · rw [h.slots]
    simp [ProcArgs.store, argPtr, key_ne_topic]
  · intro _
    rw [htext, hparam]
  · intro hmem
    exact absurd List.mem_cons_self hmem
  · have hlength : ∀ (k : List UInt8) (i : Bool),
        (ProcArgs.store ⟨s.args, k, i⟩ (some .keyParam)).args.length = s.args.length + 1 := by
      simp [ProcArgs.store]
    rw [h.inside, ProcArgs.store_inside, hlength, hparam, List.length_cons]
    simp only [Bool.and_eq_true, decide_eq_true_eq, List.mem_cons, true_or, forall_const]
    constructor
    · rintro ⟨⟨⟨hs, htext⟩, -⟩, hargs, -⟩
      exact ⟨hs, by omega, htext⟩
    · rintro ⟨hs, hargs, htext⟩
      exact ⟨⟨⟨hs, htext⟩, by omega⟩, by omega, fun _ => htext⟩

/-- What the loop stores. -/
lemma fillArgs_filled (h : fillArgs key args s = some s') : Filled key args s s' := by
  induction args generalizing s with
  | nil =>
    obtain rfl := Option.some.inj h
    exact filled_nil
  | cons arg args ih =>
    rw [fillArgs] at h
    by_cases htopic : arg = bytes "$kafka_topic"
    · rw [if_pos htopic] at h
      have hptr : argPtr arg = .topicName := if_pos htopic
      exact filled_cons (htopic ▸ key_ne_topic.symm) (hptr ▸ ih h)
    · rw [if_neg htopic] at h
      by_cases hkey : arg = bytes "$kafka_key"
      · rw [if_pos hkey] at h
        cases hprint : s.printKey key with
        | none => simp [hprint] at h
        | some s₁ =>
          rw [hprint] at h
          subst hkey
          exact filled_key hprint (ih h)
      · rw [if_neg hkey] at h
        have hptr : argPtr arg = .conf arg := by rw [argPtr, if_neg htopic, if_neg hkey]
        exact filled_cons hkey (hptr ▸ ih h)

/-- The loop ends when the key can be printed. -/
lemma fillArgs_isSome (h : bytes "$kafka_key" ∈ args → (sprintfKey key).isSome) :
    ∃ s', fillArgs key args s = some s' := by
  induction args generalizing s with
  | nil => exact ⟨_, rfl⟩
  | cons arg args ih =>
    have hargs : ∀ s, ∃ s', fillArgs key args s = some s' :=
      fun s => ih (s := s) fun hmem => h (List.mem_cons_of_mem _ hmem)
    simp only [fillArgs]
    split_ifs with htopic hkey
    · exact hargs _
    · obtain ⟨text, htext⟩ := Option.isSome_iff_exists.mp (h (hkey ▸ List.mem_cons_self))
      rw [ProcArgs.printKey, htext]
      exact hargs _
    · exact hargs _

end

/-! ### The vector of a message -/

/-- The key of a message up to its first NUL. -/
def Rkm.keyText (rkm : Rkm) : List UInt8 := rkm.key.takeWhile (· ≠ 0)

/-- The precision does not cut the text of the key. -/
def Rkm.Uncut (rkm : Rkm) : Prop :=
  ∀ n, keyPrecision rkm.key.length = some n → rkm.keyText.length ≤ n

section

variable {topic : ListenedTopic} {rkm : Rkm}

/-- The text is printed as a whole when it is not cut and has an end. -/
lemma sprintfKey_eq_iff :
    sprintfKey rkm.key = some rkm.keyText ↔
      rkm.Uncut ∧ (keyPrecision rkm.key.length = none → 0 ∈ rkm.key) := by
  rw [sprintfKey, Rkm.Uncut]
  cases keyPrecision rkm.key.length with
  | none => simp [Rkm.keyText]
  | some n =>
    rw [Option.some_inj, ← List.take_takeWhile]
    simp [Rkm.keyText]

/-- A short text of a long key has a NUL behind it. -/
lemma zero_mem_of_keyPrecision (hnone : keyPrecision rkm.key.length = none)
    (hshort : rkm.keyText.length < keyParamLength) : 0 ∈ rkm.key := by
  by_contra hmem
  have hall : rkm.keyText = rkm.key := by
    rw [Rkm.keyText, List.takeWhile_eq_self_iff]
    intro b hb
    simpa using fun hzero : b = 0 => hmem (hzero ▸ hb)
  rw [hall, keyParamLength] at hshort
  rw [keyPrecision, if_pos (by omega)] at hnone
  cases hnone

lemma string_argPtr {s : ProcArgs} {arg : List UInt8}
    (hkey : arg = bytes "$kafka_key" → s.keyParam = rkm.keyText) :
    s.string rkm (argPtr arg) = procArg rkm arg := by
  rw [argPtr, procArg]
  split_ifs with htopic harg
  · rfl
  · exact hkey harg
  · rfl

/-- The child gets what its topic and its message say, and nothing is stored outside, exactly when
there are fewer than 64 arguments and, if one of them is the key, its text is shorter than 128
bytes and is not cut. -/
theorem properArgs_iff (topic : ListenedTopic) (rkm : Rkm) :
    ProperArgs topic rkm (childArgs topic rkm) ↔
      topic.args.length < argsLength ∧
        (bytes "$kafka_key" ∈ topic.args → rkm.keyText.length < keyParamLength ∧ rkm.Uncut) := by
  constructor
  · rintro ⟨s, hs, hinside, hslots⟩
    have hfilled := fillArgs_filled hs
    obtain ⟨-, hlength, hparam⟩ := hfilled.inside.mp hinside
    refine ⟨by simpa [ProcArgs.fresh] using hlength, fun hmem => ?_⟩
    have htext : s.keyParam = rkm.keyText := by
      rw [hfilled.slots] at hslots
      have hmap : topic.args.map (fun arg => some (s.string rkm (argPtr arg)))
          = topic.args.map (fun arg => some (procArg rkm arg)) := by
        simpa [ProcArgs.fresh] using hslots
      have harg := List.map_inj_left.mp hmap _ hmem
      exact Option.some.inj harg
    rw [← htext]
    have hprinted := hfilled.printed hmem
    rw [htext] at hprinted
    exact ⟨hparam hmem, (sprintfKey_eq_iff.mp hprinted).1⟩
  · rintro ⟨hlength, hkey⟩
    have hprint : bytes "$kafka_key" ∈ topic.args → sprintfKey rkm.key = some rkm.keyText := by
      intro hmem
      obtain ⟨hshort, huncut⟩ := hkey hmem
      exact sprintfKey_eq_iff.mpr ⟨huncut, fun hnone => zero_mem_of_keyPrecision hnone hshort⟩
    obtain ⟨s, hs⟩ : ∃ s, childArgs topic rkm = some s :=
      fillArgs_isSome fun hmem => Option.isSome_of_eq_some (hprint hmem)
    have hfilled := fillArgs_filled hs
    have htext : bytes "$kafka_key" ∈ topic.args → s.keyParam = rkm.keyText := fun hmem =>
      Option.some.inj ((hfilled.printed hmem).symm.trans (hprint hmem))
    refine ⟨s, hs, hfilled.inside.mpr ⟨rfl, by simpa [ProcArgs.fresh] using hlength, ?_⟩, ?_⟩
    · intro hmem
      rw [htext hmem]
      exact (hkey hmem).1
    · have hmap : topic.args.map (fun arg => some (s.string rkm (argPtr arg)))
          = topic.args.map (fun arg => some (procArg rkm arg)) := by
        apply List.map_congr_left
        intro arg hmem
        rw [string_argPtr fun harg => htext (harg ▸ hmem)]
      simpa [hfilled.slots, ProcArgs.fresh] using hmap

end

/-- With 64 arguments the `NULL` is stored outside. -/
theorem not_properArgs :
    ¬ ∀ (topic : ListenedTopic) (rkm : Rkm), ProperArgs topic rkm (childArgs topic rkm) := by
  intro h
  obtain ⟨s, hs, hinside, -⟩ :=
    h ⟨⟨bytes "t", 2⟩, List.replicate 64 (bytes "a")⟩ ⟨false, bytes "t", [], []⟩
  obtain ⟨-, hlength, -⟩ := (fillArgs_filled hs).inside.mp hinside
  exact absurd hlength (by decide)

end Folksong
