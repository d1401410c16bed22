import Folksong.Lib.Ring
import Folksong.Lib.Transition

/-!
# Intrusive queues (`fs_queue.h`)

The macros assign links one after the other, and each assignment reads the links as the ones
before have left them. A node is its address.
-/

namespace Folksong

open Ring Transition

variable {ι : Type} [DecidableEq ι]

/-- `(a)->next = b`. -/
def setNext (σ : Links ι) (a b : ι) : Links ι := { σ with next := Function.update σ.next a b }

/-- `(a)->prev = b`. -/
def setPrev (σ : Links ι) (a b : ι) : Links ι := { σ with prev := Function.update σ.prev a b }

/-- `fs_queue_init`. -/
def fsQueueInit (σ : Links ι) (q : ι) : Links ι :=
  let σ := setPrev σ q q
  setNext σ q q

/-- `fs_queue_empty`. -/
def fsQueueEmpty (σ : Links ι) (q : ι) : Bool := σ.next q = q

/-- `fs_queue_insert_after`. -/
def fsQueueInsertAfter (σ : Links ι) (h q : ι) : Links ι :=
  let σ := setNext σ q (σ.next h)
  let σ := setPrev σ (σ.next q) q
  let σ := setPrev σ q h
  setNext σ h q

/-- `fs_queue_insert_before`. -/
def fsQueueInsertBefore (σ : Links ι) (h q : ι) : Links ι :=
  let σ := setPrev σ q (σ.prev h)
  let σ := setNext σ (σ.prev q) q
  let σ := setNext σ q h
  setPrev σ h q

/-- `fs_queue_remove`. The links of the node itself stay. -/
def fsQueueRemove (σ : Links ι) (q : ι) : Links ι :=
  let σ := setPrev σ (σ.next q) (σ.prev q)
  setNext σ (σ.prev q) (σ.next q)

/-- What is done to a queue. -/
inductive QueueOp (ι : Type) where
  | insertAfter (h q : ι)
  | insertBefore (h q : ι)
  | remove (q : ι)
deriving DecidableEq, Repr

/-- What it does to the links. -/
def QueueOp.run (σ : Links ι) : QueueOp ι → Links ι
  | .insertAfter h q => fsQueueInsertAfter σ h q
  | .insertBefore h q => fsQueueInsertBefore σ h q
  | .remove q => fsQueueRemove σ q

/-- What it does to the list of the nodes behind the head. -/
def QueueOp.onList (hd : ι) (l : List ι) : QueueOp ι → List ι
  | .insertAfter h q => (Ring.insertAfter h q (hd :: l)).tail
  | .insertBefore h q => (Ring.insertBefore h q (l ++ [hd])).dropLast
  | .remove q => l.erase q

/-- A node that is not in the queue is inserted next to one that is, or a member is removed. -/
def QueueOp.Allowed (hd : ι) (l : List ι) : QueueOp ι → Prop
  | .insertAfter h q | .insertBefore h q => h ∈ hd :: l ∧ q ∉ hd :: l
  | .remove q => q ∈ l

instance (hd : ι) (l : List ι) : DecidablePred (QueueOp.Allowed hd l)
  | .insertAfter h q | .insertBefore h q => inferInstanceAs (Decidable (h ∈ hd :: l ∧ q ∉ hd :: l))
  | .remove q => inferInstanceAs (Decidable (q ∈ l))

/-- The nodes it is given. -/
def QueueOp.nodes : QueueOp ι → List ι
  | .insertAfter h q | .insertBefore h q => [h, q]
  | .remove q => [q]

/-- An allowed operation, on the links and on the list. -/
structure QueueStep (hd : ι) (s : Links ι × List ι) (op : QueueOp ι) (s' : Links ι × List ι) :
    Prop where
  allowed : op.Allowed hd s.2
  links : s'.1 = op.run s.1
  list : s'.2 = op.onList hd s.2

lemma QueueOp.step {hd : ι} {s : Links ι × List ι} (op : QueueOp ι) (h : op.Allowed hd s.2) :
    QueueStep hd s op (op.run s.1, op.onList hd s.2) := ⟨h, rfl, rfl⟩

/-! ### The assignments as one update -/

section

variable {σ : Links ι} {hd h q : ι} {l : List ι}

lemma fsQueueInit_isRing (σ : Links ι) (hd : ι) : IsRing (fsQueueInit σ hd) hd [] := by
  constructor
  · simp [fsQueueInit, setNext, setPrev, Links.Follows]
  · exact List.nodup_singleton hd

/-- The successor is read before the head's link is changed. -/
lemma fsQueueInsertAfter_eq :
    fsQueueInsertAfter σ h q = σ.link h q (σ.next h) := by
  simp [fsQueueInsertAfter, setNext, setPrev, Links.link]

lemma fsQueueInsertBefore_eq (hne : h ≠ q) (hprev : σ.prev h ≠ q) :
    fsQueueInsertBefore σ h q = σ.link (σ.prev h) q h := by
  simp only [fsQueueInsertBefore, setNext, setPrev, Links.link, Function.update_self]
  rw [Function.update_comm hprev, Function.update_comm hne.symm]

/-- The second assignment reads the link back that the first one has not touched. -/
lemma fsQueueRemove_eq (hnext : σ.next q ≠ q) :
    fsQueueRemove σ q = σ.unlink (σ.prev q) (σ.next q) := by
  simp [fsQueueRemove, setNext, setPrev, Links.unlink, hnext.symm]

end

/-! ### Runs -/

section

variable {hd : ι} {s s' : Links ι × List ι} {op : QueueOp ι}

/-- An operation keeps the queue. -/
lemma QueueStep.isRing (hring : IsRing s.1 hd s.2) (h : QueueStep hd s op s') :
    IsRing s'.1 hd s'.2 := by
  rw [h.links, h.list]
  have hallowed := h.allowed
  cases op with
  | insertAfter x q =>
    obtain ⟨hx, hq⟩ := hallowed
    rw [QueueOp.run, fsQueueInsertAfter_eq]
    exact hring.insertAfter hx hq
  | insertBefore x q =>
    obtain ⟨hx, hq⟩ := hallowed
    have hne : x ≠ q := fun heq => hq (heq ▸ hx)
    have hprev : s.1.prev x ≠ q := fun heq => hq (heq ▸ hring.prev_mem hx)
    rw [QueueOp.run, fsQueueInsertBefore_eq hne hprev]
    exact hring.insertBefore hx hq
  | remove q =>
    rw [QueueOp.run, fsQueueRemove_eq (hring.next_ne_self hallowed)]
    exact hring.erase hallowed

/-- An operation writes links of the queue and of the nodes it is given only. -/
lemma QueueStep.frame (hring : IsRing s.1 hd s.2) (h : QueueStep hd s op s') {z : ι}
    (hz : z ∉ hd :: s.2) (hop : z ∉ op.nodes) :
    s'.1.next z = s.1.next z ∧ s'.1.prev z = s.1.prev z := by
  have hout : ∀ x ∈ hd :: s.2, z ≠ x := fun x hx heq => hz (heq ▸ hx)
  have hallowed := h.allowed
  rw [h.links]
  cases op with
  | insertAfter x q =>
    obtain ⟨hx, hq⟩ := hallowed
    have hzq : z ≠ q := by
      rintro rfl
      exact hop (by simp [QueueOp.nodes])
    rw [QueueOp.run, fsQueueInsertAfter_eq]
    exact ⟨link_next_of_ne (hout x hx) hzq, link_prev_of_ne hzq (hout _ (hring.next_mem hx))⟩
  | insertBefore x q =>
    obtain ⟨hx, hq⟩ := hallowed
    have hne : x ≠ q := fun heq => hq (heq ▸ hx)
    have hprev : s.1.prev x ≠ q := fun heq => hq (heq ▸ hring.prev_mem hx)
    have hzq : z ≠ q := by
      rintro rfl
      exact hop (by simp [QueueOp.nodes])
    rw [QueueOp.run, fsQueueInsertBefore_eq hne hprev]
    exact ⟨link_next_of_ne (hout _ (hring.prev_mem hx)) hzq, link_prev_of_ne hzq (hout x hx)⟩
  | remove q =>
    have hq : q ∈ hd :: s.2 := List.mem_cons_of_mem _ hallowed
    rw [QueueOp.run, fsQueueRemove_eq (hring.next_ne_self hallowed)]
    exact ⟨unlink_next_of_ne (hout _ (hring.prev_mem hq)),
      unlink_prev_of_ne (hout _ (hring.next_mem hq))⟩

end

/-- The links of a queue are those of a list. -/
structure Queues (σ : Links ι) (hd : ι) (l : List ι) : Prop where
  traverse : List.iterate σ.next (σ.next hd) (l.length + 1) = l ++ [hd]
  nodup : (hd :: l).Nodup
  inverse : ∀ x ∈ hd :: l, σ.prev (σ.next x) = x ∧ σ.next (σ.prev x) = x
  empty : fsQueueEmpty σ hd = true ↔ l = []

lemma queues_of_isRing {σ : Links ι} {hd : ι} {l : List ι} (h : IsRing σ hd l) :
    Queues σ hd l := by
  refine ⟨h.traverse, h.nodup, ?_, ?_⟩
  · intro x hx
    exact ⟨h.prev_next hx, h.next_prev hx⟩
  · rw [fsQueueEmpty, decide_eq_true_eq]
    exact h.next_eq_head_iff

section

variable {σ₀ : Links ι} {hd : ι} {ops : List (QueueOp ι)} {s : Links ι × List ι}

lemma isRing_of_run (hrun : Run (QueueStep hd) (fsQueueInit σ₀ hd, []) ops s) :
    IsRing s.1 hd s.2 :=
  hrun.invariant (I := fun s => IsRing s.1 hd s.2) (fun _ _ _ hring h => h.isRing hring)
    (fsQueueInit_isRing σ₀ hd)

/-- What gets into the queue is given to the operation. -/
lemma mem_onList {l : List ι} {op : QueueOp ι} {z : ι} (hz : z ∈ op.onList hd l) (hne : z ≠ hd) :
    z ∈ l ∨ z ∈ op.nodes := by
  cases op with
  | insertAfter x q =>
    have hmem := mem_insertAfter (List.mem_of_mem_tail hz)
    simp only [QueueOp.nodes, List.mem_cons, hne] at hmem ⊢
    tauto
  | insertBefore x q =>
    have hmem := mem_insertBefore (List.mem_of_mem_dropLast hz)
    simp only [QueueOp.nodes, List.mem_append, List.mem_cons, hne] at hmem ⊢
    tauto
  | remove q => exact .inl (List.mem_of_mem_erase hz)

/-- A node that no operation is given stays outside, and its links stay. -/
lemma untouched_of_run (hrun : Run (QueueStep hd) (fsQueueInit σ₀ hd, []) ops s) {z : ι}
    (hne : z ≠ hd) (hz : z ∉ ops.flatMap QueueOp.nodes) :
    z ∉ s.2 ∧ s.1.next z = σ₀.next z ∧ s.1.prev z = σ₀.prev z := by
  induction hrun with
  | nil => simp [fsQueueInit, setNext, setPrev, hne]
  | @snoc s s' ops op hrun hstep ih =>
    rw [List.flatMap_append, List.mem_append, not_or] at hz
    obtain ⟨hout, hnext, hprev⟩ := ih hz.1
    have hop : z ∉ op.nodes := by simpa using hz.2
    have hring := isRing_of_run hrun
    obtain ⟨hnext', hprev'⟩ := hstep.frame hring (by simp [hne, hout]) hop
    refine ⟨?_, hnext'.trans hnext, hprev'.trans hprev⟩
    intro hmem
    rw [hstep.list] at hmem
    rcases mem_onList hmem hne with hmem | hmem
    · exact hout hmem
    · exact hop hmem

/-- After any sequence of allowed operations on a fresh queue in any memory, the links are those
of the list, and no link of another node has changed: neither in a single operation nor since
the beginning. -/
theorem queues_of_run (hrun : Run (QueueStep hd) (fsQueueInit σ₀ hd, []) ops s) :
    Queues s.1 hd s.2 ∧
      (∀ op s', QueueStep hd s op s' → Queues s'.1 hd s'.2 ∧ ∀ z ∉ hd :: s.2, z ∉ op.nodes →
        s'.1.next z = s.1.next z ∧ s'.1.prev z = s.1.prev z) ∧
      ∀ z ≠ hd, z ∉ ops.flatMap QueueOp.nodes →
        s.1.next z = σ₀.next z ∧ s.1.prev z = σ₀.prev z := by
  have hring := isRing_of_run hrun
  refine ⟨queues_of_isRing hring, ?_, ?_⟩
  · intro op s' hstep
    exact ⟨queues_of_isRing (hstep.isRing hring), fun z hz hop => hstep.frame hring hz hop⟩
  · intro z hne hz
    exact (untouched_of_run hrun hne hz).2

/-- Three nodes are inserted around the head, and the first one is removed again. -/
theorem queues_of_run_removed :
    Queues (fsQueueRemove (fsQueueInsertAfter (fsQueueInsertBefore (fsQueueInsertAfter
      (fsQueueInit ⟨id, id⟩ 0) 0 1) 0 2) 1 3) 1) 0 [3, 2] :=
  (queues_of_run ((((Run.nil.snoc (QueueOp.step (.insertAfter 0 1) (by decide))).snoc
    (QueueOp.step (.insertBefore 0 2) (by decide))).snoc
    (QueueOp.step (.insertAfter 1 3) (by decide))).snoc
    (QueueOp.step (.remove 1) (by decide)))).1

end

end Folksong
