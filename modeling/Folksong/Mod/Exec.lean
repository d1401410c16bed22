import Folksong.Mod.Effects
import Folksong.Mod.Table

/-!
# The argument vector of `exec` (`fs_mod_timer.c`, `fs_mod_kafka_listener.c`)

Both modules allocate one pointer for each word of the directive, `exec` included, which is enough
for the words behind it and their `NULL`. The loop over the words ends one index further than its
last store.
-/

namespace Folksong

/-! ### The vector in memory -/

/-- What a slot holds after all stores: the last thing that was stored there. -/
def Args.slot (a : Args) (i : Nat) : Option (Option (Option FsStr)) :=
  (a.stores.reverse.find? fun s => s.1 == i).map Prod.snd

/-- The words in their order, `NULL` behind the last one, and no store outside the allocation. -/
structure Args.Holds (a : Args) (words : List FsStr) : Prop where
  arg : ∀ i w, words[i]? = some w → a.slot i = some (some (some w))
  null : a.slot words.length = some none
  inside : ∀ s ∈ a.stores, s.1 < a.alloc

/-- The stores of the loop. -/
def wordStores (tokens : FsArr FsStr) : List (Nat × Option (Option FsStr)) :=
  (List.range' 1 (tokens.eleCount - 1)).map fun i => (i - 1, some (tokens.nth i))

section

variable {tokens : FsArr FsStr}

/-- With at least one word behind `exec`, the `NULL` is stored behind the allocation. -/
lemma execArgs_eq (h : 2 ≤ tokens.eleCount) :
    execArgs tokens = ⟨tokens.eleCount, wordStores tokens ++ [(tokens.eleCount, none)]⟩ := by
  rw [execArgs, max_eq_right (Nat.le_of_succ_le h)]
  rfl

end

/-! ### The two modules -/

/-- The same libraries, with room behind every vector. -/
def Lib.roomy (lib : Lib) : Lib := { lib with usable := fun n => n + 2 }

lemma execArgs_fits_roomy {lib : Lib} {tokens : FsArr FsStr} :
    (execArgs tokens).Fits lib.roomy := by
  rw [execArgs_fits_iff]
  simp only [Lib.roomy]
  omega

/-- The options an `exec` directive that is taken stores: in the timer, or in the topic that was
added last. It stores them whether the vector has room for its `NULL` or not. -/
inductive ExecStores (lib : Lib) (c : Engine) (p : Ptr) : ProcOptions → Prop where
  | timer {t t' : Timer} {heap : Heap} {o : ProcOptions} : c.heap.get p = some (.timer t) →
      fsModTimerCmdExec lib.roomy c p = some (.ok, heap) → heap.get p = some (.timer t') →
      t'.procOptions = some o → ExecStores lib c p o
  | listener {l l' : Listener} {heap : Heap} {topics : FsArr Topic} {topic : Topic}
      {o : ProcOptions} : c.heap.get p = some (.listener l) →
      fsModKafkaListenerCmdExec lib.roomy c p = some (.ok, heap) → heap.get p = some (.listener l') →
      l'.topic = .arr topics → topics.nth (topics.eleCount - 1) = some topic →
      topic.procOptions = some o → ExecStores lib c p o

section

variable {lib : Lib} {c : Engine} {p : Ptr} {o : ProcOptions}

/-- Both modules store the same. -/
lemma ExecStores.eq (h : ExecStores lib c p o) : o = execOptions c.tokens := by
  cases h with
  | @timer t t' heap _ hget hcall hget' hopt =>
    simp only [fsModTimerCmdExec, hget, if_pos execArgs_fits_roomy] at hcall
    split_ifs at hcall
    · cases hcall
    · cases hcall
      rw [Heap.get_set_self hget] at hget'
      cases hget'
      exact (Option.some.inj hopt).symm
  | @listener l l' heap topics topic _ hget hcall hget' htopics hnth hopt =>
    simp only [fsModKafkaListenerCmdExec, hget, if_pos execArgs_fits_roomy] at hcall
    split_ifs at hcall
    · cases hcall
    · cases hcall
    · split at hcall
      next topics' htopics' =>
        split_ifs at hcall with hempty
        split at hcall
        · cases hcall
        next topic' hnth' =>
          cases hcall
          rw [Heap.get_set_self hget] at hget'
          cases hget'
          cases htopics
          have hlt : topics'.eleCount - 1 < topics'.elems.length := by
            have hle := topics'.count_le
            omega
          rw [FsArr.write_eleCount, FsArr.write_nth_self _ _ hlt] at hnth
          cases hnth
          exact (Option.some.inj hopt).symm
      next => cases hcall

/-- A vector is never built as it should be: its `NULL` is stored behind the allocation, whatever
the words are. -/
theorem exec_not_holds (h : ExecStores lib c p o) (hwords : 2 ≤ c.tokens.eleCount) :
    ¬ o.args.Holds c.tokens.toList.tail := by
  obtain rfl := h.eq
  intro hholds
  have hmem : (c.tokens.eleCount, none) ∈ (execOptions c.tokens).args.stores := by
    rw [execOptions, execArgs_eq hwords]
    exact List.mem_append_right _ (List.mem_singleton_self _)
  have hlt := hholds.inside _ hmem
  rw [execOptions, execArgs_eq hwords] at hlt
  exact absurd hlt (lt_irrefl _)

end

/-- The engine in a timer block, at the directive `exec true`. -/
def execStart : Engine :=
  { sampleStart with
    tokens := (sampleStart.tokens.push ⟨bytes "exec", 5⟩).push ⟨bytes "true", 5⟩
    stMod := [⟨.timer, fsBlockCmd "timer" .timerBlock, ⟨0, 0⟩⟩]
    heap := ⟨[.timer fsModTimerInit], []⟩ }

lemma execStores_start (lib : Lib) :
    ExecStores lib execStart (.obj 0) (execOptions execStart.tokens) :=
  .timer rfl rfl rfl rfl

theorem exec_not_holds_true :
    ¬ (execOptions execStart.tokens).args.Holds execStart.tokens.toList.tail :=
  exec_not_holds (execStores_start .succeeding) (by decide)

/-- One word takes two pointers, and the third one is written. -/
theorem not_exec_holds :
    ¬ ∀ (lib : Lib) (c : Engine) (p : Ptr) (o : ProcOptions), ExecStores lib c p o →
      2 ≤ c.tokens.eleCount → o.args.Holds c.tokens.toList.tail := by
  intro h
  have hholds := h .succeeding execStart (.obj 0) _ (execStores_start .succeeding) (by decide)
  have hnull : (execOptions execStart.tokens).args.slot 1 = some none := hholds.null
  revert hnull
  decide

end Folksong
