import Mathlib.Data.List.Chain
import Mathlib.Data.List.Iterate
import Mathlib.Tactic

/-!
# Circular doubly linked lists

A ring leads from its head along `next` through the nodes of a list and back to the head, and
`prev` undoes every step. Linking a node in between two neighbours and unlinking one change the
list in one place: in both cases all links but those between the two neighbours stay.
-/

namespace Ring

/-- The two links of every node. -/
structure Links (ι : Type*) where
  next : ι → ι
  prev : ι → ι

variable {ι : Type*} {σ σ' : Links ι} {hd : ι} {l : List ι}

/-- `b` follows `a`, both ways. -/
def Links.Follows (σ : Links ι) (a b : ι) : Prop := σ.next a = b ∧ σ.prev b = a

/-- The links lead from `hd` through the nodes of `l` back to `hd`. -/
structure IsRing (σ : Links ι) (hd : ι) (l : List ι) : Prop where
  chain : (hd :: l ++ [hd]).IsChain σ.Follows
  nodup : (hd :: l).Nodup

/-! ### Chains of links -/

/-- A chain reads `next` of every node but the last, and `prev` of every node but the first. -/
lemma chain_congr (h : l.IsChain σ.Follows) (hnext : ∀ x ∈ l.dropLast, σ'.next x = σ.next x)
    (hprev : ∀ x ∈ l.tail, σ'.prev x = σ.prev x) : l.IsChain σ'.Follows := by
  induction h with
  | nil => exact .nil
  | singleton x => exact .singleton x
  | @cons_cons x y l hxy h ih =>
    rw [List.dropLast_cons_cons] at hnext
    have hfollows : σ'.Follows x y := by
      constructor
      · rw [hnext x (List.mem_cons_self ..), hxy.1]
      · rw [hprev y (List.mem_cons_self ..), hxy.2]
    refine .cons_cons hfollows (ih ?_ ?_)
    · intro z hz
      exact hnext z (List.mem_cons_of_mem _ hz)
    · intro z hz
      exact hprev z (List.mem_cons_of_mem _ hz)

lemma exists_next (h : l.IsChain σ.Follows) {x : ι} (hx : x ∈ l.dropLast) :
    ∃ y ∈ l.tail, σ.Follows x y := by
  induction h with
  | nil => simp at hx
  | singleton => simp at hx
  | @cons_cons a b l hab h ih =>
    rw [List.dropLast_cons_cons, List.mem_cons] at hx
    rcases hx with rfl | hx
    · exact ⟨b, List.mem_cons_self .., hab⟩
    · obtain ⟨y, hy, hxy⟩ := ih hx
      exact ⟨y, List.mem_cons_of_mem _ hy, hxy⟩

lemma exists_prev (h : l.IsChain σ.Follows) {x : ι} (hx : x ∈ l.tail) :
    ∃ y ∈ l.dropLast, σ.Follows y x := by
  induction h with
  | nil => simp at hx
  | singleton => simp at hx
  | @cons_cons a b l hab h ih =>
    rw [List.dropLast_cons_cons]
    rw [List.tail_cons, List.mem_cons] at hx
    rcases hx with rfl | hx
    · exact ⟨a, List.mem_cons_self .., hab⟩
    · obtain ⟨y, hy, hyx⟩ := ih hx
      exact ⟨y, List.mem_cons_of_mem _ hy, hyx⟩

lemma iterate_next {a : ι} (h : (a :: l).IsChain σ.Follows) :
    List.iterate σ.next (σ.next a) l.length = l := by
  induction l generalizing a with
  | nil => rfl
  | cons b l ih =>
    rw [List.isChain_cons_cons] at h
    rw [List.length_cons, List.iterate, h.1.1, ih h.2]

/-! ### What a ring says -/

lemma dropLast_closed (hd : ι) (l : List ι) : (hd :: l ++ [hd]).dropLast = hd :: l :=
  List.dropLast_concat

/-- What follows a node of the ring. -/
lemma exists_behind (hd : ι) (rest : List ι) : ∃ b post, rest ++ [hd] = b :: post := by
  cases rest with
  | nil => exact ⟨hd, [], rfl⟩
  | cons b rest => exact ⟨b, rest ++ [hd], rfl⟩

/-- What precedes a node of the ring. -/
lemma exists_ahead (hd : ι) (pre : List ι) : ∃ pre' a, hd :: pre = pre' ++ [a] :=
  ⟨_, _, (List.dropLast_append_getLast (List.cons_ne_nil hd pre)).symm⟩

namespace IsRing

/-- `next` goes through the list and comes back. -/
lemma traverse (h : IsRing σ hd l) :
    List.iterate σ.next (σ.next hd) (l.length + 1) = l ++ [hd] := by
  simpa using iterate_next h.chain

lemma prev_next (h : IsRing σ hd l) {x : ι} (hx : x ∈ hd :: l) : σ.prev (σ.next x) = x := by
  obtain ⟨y, -, hxy⟩ := exists_next h.chain (by rwa [dropLast_closed])
  rw [hxy.1, hxy.2]

lemma next_prev (h : IsRing σ hd l) {x : ι} (hx : x ∈ hd :: l) : σ.next (σ.prev x) = x := by
  obtain ⟨y, -, hyx⟩ := exists_prev h.chain (x := x) (by simpa [or_comm] using hx)
  rw [hyx.2, hyx.1]

/-- The links of a node in the ring stay in the ring. -/
lemma next_mem (h : IsRing σ hd l) {x : ι} (hx : x ∈ hd :: l) : σ.next x ∈ hd :: l := by
  obtain ⟨y, hy, hxy⟩ := exists_next h.chain (by rwa [dropLast_closed])
  rw [hxy.1]
  simpa [or_comm] using hy

lemma prev_mem (h : IsRing σ hd l) {x : ι} (hx : x ∈ hd :: l) : σ.prev x ∈ hd :: l := by
  obtain ⟨y, hy, hyx⟩ := exists_prev h.chain (x := x) (by simpa [or_comm] using hx)
  rw [hyx.2]
  rwa [dropLast_closed] at hy

lemma next_eq_head_iff (h : IsRing σ hd l) : σ.next hd = hd ↔ l = [] := by
  have hchain := h.chain
  cases l with
  | nil =>
    rw [List.cons_append, List.nil_append, List.isChain_pair] at hchain
    exact iff_of_true hchain.1 rfl
  | cons x l =>
    simp only [List.cons_append, List.isChain_cons_cons] at hchain
    have hne : hd ≠ x := by
      have hnodup := h.nodup
      simp only [List.nodup_cons, List.mem_cons, not_or] at hnodup
      exact hnodup.1.1
    rw [hchain.1.1]
    simp [hne.symm]

variable {pre post : List ι} {a b : ι}

/-- The head and the nodes, in front of a neighbour. -/
lemma sources (heq : hd :: l ++ [hd] = pre ++ a :: b :: post) :
    hd :: l = pre ++ a :: (b :: post).dropLast := by
  have h := congrArg List.dropLast heq
  rwa [dropLast_closed, List.dropLast_append_cons, List.dropLast_cons_cons] at h

/-- Every node is reached from one neighbour only. -/
lemma targets_nodup (h : IsRing σ hd l) (heq : hd :: l ++ [hd] = pre ++ a :: b :: post) :
    ((pre ++ [a]).tail ++ b :: post).Nodup := by
  have htail : l ++ [hd] = (pre ++ [a]).tail ++ b :: post := by
    rw [← List.tail_append_of_ne_nil (by simp), List.append_assoc, List.singleton_append, ← heq]
    rfl
  rw [← htail]
  exact (List.perm_append_singleton hd l).nodup_iff.mpr h.nodup

/-- A node other than the head lies between two others. -/
lemma exists_neighbours (hd x : ι) (pre post : List ι) :
    ∃ pre' a b post', hd :: pre = pre' ++ [a] ∧ post ++ [hd] = b :: post' ∧
      hd :: (pre ++ x :: post) ++ [hd] = pre' ++ a :: x :: b :: post' := by
  obtain ⟨pre', a, hpre⟩ := exists_ahead hd pre
  obtain ⟨b, post', hpost⟩ := exists_behind hd post
  refine ⟨pre', a, b, post', hpre, hpost, ?_⟩
  rw [← List.cons_append, hpre, List.append_assoc, List.append_assoc, List.singleton_append,
    List.cons_append, hpost]

/-- No such node is its own neighbour. -/
lemma next_ne_self (h : IsRing σ hd l) {x : ι} (hx : x ∈ l) : σ.next x ≠ x := by
  obtain ⟨rest, rest', rfl⟩ := List.append_of_mem hx
  obtain ⟨pre, a, b, post, -, -, heq⟩ := exists_neighbours hd x rest rest'
  have hchain := h.chain
  have hnodup := h.targets_nodup heq
  rw [heq, List.isChain_append_cons_cons, List.isChain_cons_cons] at hchain
  rw [hchain.2.2.1.1]
  rintro rfl
  rw [List.nodup_append, List.nodup_cons] at hnodup
  exact hnodup.2.1.1 (List.mem_cons_self ..)

end IsRing

/-! ### Linking a node in and out -/

section

variable [DecidableEq ι]

/-- `q` is linked in between `a` and `b`. -/
def Links.link (σ : Links ι) (a q b : ι) : Links ι where
  next := Function.update (Function.update σ.next q b) a q
  prev := Function.update (Function.update σ.prev b q) q a

/-- What lies between `a` and `b` is linked out. -/
def Links.unlink (σ : Links ι) (a b : ι) : Links ι where
  next := Function.update σ.next a b
  prev := Function.update σ.prev b a

lemma link_next_of_ne {a q b x : ι} (ha : x ≠ a) (hq : x ≠ q) :
    (σ.link a q b).next x = σ.next x := by
  simp [Links.link, ha, hq]

lemma link_prev_of_ne {a q b x : ι} (hq : x ≠ q) (hb : x ≠ b) :
    (σ.link a q b).prev x = σ.prev x := by
  simp [Links.link, hq, hb]

lemma unlink_next_of_ne {a b x : ι} (ha : x ≠ a) : (σ.unlink a b).next x = σ.next x :=
  Function.update_of_ne ha _ _

lemma unlink_prev_of_ne {a b x : ι} (hb : x ≠ b) : (σ.unlink a b).prev x = σ.prev x :=
  Function.update_of_ne hb _ _

namespace IsRing

variable {pre post : List ι} {a b q : ι} {l' : List ι}

/-- A node that is not in the ring is linked in between two neighbours. -/
lemma link (h : IsRing σ hd l) (heq : hd :: l ++ [hd] = pre ++ a :: b :: post)
    (heq' : hd :: l' ++ [hd] = pre ++ a :: q :: b :: post) (hq : q ∉ hd :: l) :
    IsRing (σ.link a q b) hd l' := by
  have hsrc := sources heq
  have htgt := h.targets_nodup heq
  have hnodup := h.nodup
  have hchain := h.chain
  have hmem : ∀ x ∈ pre ++ a :: b :: post, x ≠ q := by
    rintro x hx rfl
    rw [← heq] at hx
    exact hq (by simpa [or_comm] using hx)
  rw [hsrc, List.nodup_append] at hnodup
  obtain ⟨-, hnodup, hpre⟩ := hnodup
  rw [List.nodup_append, List.nodup_cons] at htgt
  obtain ⟨-, ⟨hpost, -⟩, htail⟩ := htgt
  rw [heq, List.isChain_append_cons_cons] at hchain
  constructor
  · rw [heq', List.isChain_append_cons_cons, List.isChain_cons_cons]
    refine ⟨?_, ⟨?_, ?_⟩, ⟨?_, ?_⟩, ?_⟩
    · -- in front of the two neighbours
      refine chain_congr hchain.1 ?_ ?_
      · intro x hx
        rw [List.dropLast_concat] at hx
        exact link_next_of_ne (hpre x hx a (List.mem_cons_self ..)) (hmem x (by simp [hx]))
      · intro x hx
        have hx' := List.mem_of_mem_tail hx
        exact link_prev_of_ne (hmem x (by simp at hx' ⊢; tauto))
          (htail x hx b (List.mem_cons_self ..))
    · exact Function.update_self ..
    · exact Function.update_self ..
    · simp [Links.link, (hmem a (by simp)).symm]
    · simp [Links.link, hmem b (by simp)]
    · -- behind them
      refine chain_congr hchain.2.2 ?_ ?_
      · intro x hx
        have hx' := List.mem_of_mem_dropLast hx
        refine link_next_of_ne ?_ (hmem x (by simp at hx' ⊢; tauto))
        rintro rfl
        exact (List.nodup_cons.mp hnodup).1 hx
      · intro x hx
        apply link_prev_of_ne (hmem x (by simp at hx ⊢; tauto))
        rintro rfl
        exact hpost hx
  · have hsrc' : hd :: l' = pre ++ a :: q :: (b :: post).dropLast := sources heq'
    have hperm : (hd :: l').Perm (q :: hd :: l) := by
      have hmid : (pre ++ [a] ++ q :: (b :: post).dropLast).Perm
          (q :: (pre ++ [a] ++ (b :: post).dropLast)) := List.perm_middle
      rw [hsrc, hsrc']
      simpa using hmid
    rw [hperm.nodup_iff, List.nodup_cons]
    exact ⟨hq, h.nodup⟩

/-- A node is linked out from between its neighbours. -/
lemma unlink (h : IsRing σ hd l) (heq : hd :: l ++ [hd] = pre ++ a :: q :: b :: post)
    (heq' : hd :: l' ++ [hd] = pre ++ a :: b :: post) : IsRing (σ.unlink a b) hd l' := by
  have hsrc := sources heq
  have hnodup := h.nodup
  have htgt := h.targets_nodup heq
  have hchain := h.chain
  rw [hsrc, List.dropLast_cons_cons, List.nodup_append] at hnodup
  obtain ⟨-, hnodup, hpre⟩ := hnodup
  rw [List.nodup_append, List.nodup_cons, List.nodup_cons] at htgt
  obtain ⟨-, ⟨-, hpost, -⟩, htail⟩ := htgt
  rw [heq, List.isChain_append_cons_cons, List.isChain_cons_cons] at hchain
  constructor
  · rw [heq', List.isChain_append_cons_cons]
    refine ⟨?_, ⟨Function.update_self .., Function.update_self ..⟩, ?_⟩
    · refine chain_congr hchain.1 ?_ ?_
      · intro x hx
        rw [List.dropLast_concat] at hx
        exact unlink_next_of_ne (hpre x hx a (List.mem_cons_self ..))
      · intro x hx
        exact unlink_prev_of_ne (htail x hx b (by simp))
    · refine chain_congr hchain.2.2.2 ?_ ?_
      · intro x hx
        apply unlink_next_of_ne
        rintro rfl
        exact (List.nodup_cons.mp hnodup).1 (List.mem_cons_of_mem _ hx)
      · intro x hx
        apply unlink_prev_of_ne
        rintro rfl
        exact hpost hx
  · have hsub : (hd :: l').Sublist (hd :: l) := by
      rw [hsrc, sources heq', List.dropLast_cons_cons]
      exact (List.Sublist.refl pre).append ((List.sublist_cons_self q _).cons_cons a)
    exact h.nodup.sublist hsub

end IsRing

/-! ### By position in the list -/

/-- The list with `q` behind the first `x`. -/
def insertAfter (x q : ι) : List ι → List ι
  | [] => []
  | y :: l => if y = x then y :: q :: l else y :: insertAfter x q l

/-- The list with `q` in front of the first `x`. -/
def insertBefore (x q : ι) : List ι → List ι
  | [] => []
  | y :: l => if y = x then q :: y :: l else y :: insertBefore x q l

lemma insertAfter_append {x q : ι} {pre : List ι} (hx : x ∉ pre) (post : List ι) :
    insertAfter x q (pre ++ x :: post) = pre ++ x :: q :: post := by
  induction pre with
  | nil => simp [insertAfter]
  | cons y pre ih =>
    rw [List.mem_cons, not_or] at hx
    rw [List.cons_append, insertAfter, if_neg (Ne.symm hx.1), ih hx.2, List.cons_append]

lemma insertBefore_append {x q : ι} {pre : List ι} (hx : x ∉ pre) (post : List ι) :
    insertBefore x q (pre ++ x :: post) = pre ++ q :: x :: post := by
  induction pre with
  | nil => simp [insertBefore]
  | cons y pre ih =>
    rw [List.mem_cons, not_or] at hx
    rw [List.cons_append, insertBefore, if_neg (Ne.symm hx.1), ih hx.2, List.cons_append]

lemma mem_insertAfter {x q z : ι} {l : List ι} (h : z ∈ insertAfter x q l) : z = q ∨ z ∈ l := by
  induction l with
  | nil => cases h
  | cons y l ih =>
    rw [insertAfter] at h
    split_ifs at h <;> simp only [List.mem_cons] at h ⊢ <;> tauto

lemma mem_insertBefore {x q z : ι} {l : List ι} (h : z ∈ insertBefore x q l) :
    z = q ∨ z ∈ l := by
  induction l with
  | nil => cases h
  | cons y l ih =>
    rw [insertBefore] at h
    split_ifs at h <;> simp only [List.mem_cons] at h ⊢ <;> tauto

namespace IsRing

variable {x q : ι}

/-- A node is linked in behind the head or any other node. -/
lemma insertAfter (h : IsRing σ hd l) (hx : x ∈ hd :: l) (hq : q ∉ hd :: l) :
    IsRing (σ.link x q (σ.next x)) hd (Ring.insertAfter x q (hd :: l)).tail := by
  obtain ⟨pre, rest, heq, hpre⟩ := List.eq_append_cons_of_mem hx
  obtain ⟨b, post, hpost⟩ := exists_behind hd rest
  have hring : hd :: l ++ [hd] = pre ++ x :: b :: post := by
    rw [heq, List.append_assoc, List.cons_append, hpost]
  have hnext : σ.next x = b := by
    have hchain := h.chain
    rw [hring, List.isChain_append_cons_cons] at hchain
    exact hchain.2.1.1
  rw [hnext]
  refine h.link hring ?_ hq
  have hhead : hd :: (pre ++ x :: q :: rest).tail = pre ++ x :: q :: rest := by
    cases pre with
    | nil => simp_all
    | cons y pre => simp_all
  rw [heq, insertAfter_append hpre, hhead, List.append_assoc, List.cons_append, List.cons_append,
    hpost]

/-- A node is linked in before the head or any other node. -/
lemma insertBefore (h : IsRing σ hd l) (hx : x ∈ hd :: l) (hq : q ∉ hd :: l) :
    IsRing (σ.link (σ.prev x) q x) hd (Ring.insertBefore x q (l ++ [hd])).dropLast := by
  have hx' : x ∈ l ++ [hd] := by simpa [or_comm] using hx
  obtain ⟨rest, post, heq, hrest⟩ := List.eq_append_cons_of_mem hx'
  obtain ⟨pre, a, hpre⟩ := exists_ahead hd rest
  have hring : hd :: l ++ [hd] = pre ++ a :: x :: post := by
    rw [List.cons_append, heq, ← List.cons_append, hpre, List.append_assoc, List.singleton_append]
  have hprev : σ.prev x = a := by
    have hchain := h.chain
    rw [hring, List.isChain_append_cons_cons] at hchain
    exact hchain.2.1.2
  rw [hprev]
  refine h.link hring ?_ hq
  have hlast : (rest ++ q :: x :: post).dropLast ++ [hd] = rest ++ q :: x :: post := by
    have hx' : (x :: post).dropLast ++ [hd] = x :: post := by
      have hd' := congrArg List.dropLast heq
      rw [List.dropLast_concat, List.dropLast_append_cons] at hd'
      have happ := heq
      rw [hd', List.append_assoc] at happ
      exact List.append_cancel_left happ
    rw [List.dropLast_append_cons, List.dropLast_cons_cons, List.append_assoc, List.cons_append,
      hx']
  rw [heq, insertBefore_append hrest, List.cons_append, hlast, ← List.cons_append, hpre,
    List.append_assoc, List.singleton_append]

/-- A node other than the head is linked out. -/
lemma erase (h : IsRing σ hd l) (hx : x ∈ l) :
    IsRing (σ.unlink (σ.prev x) (σ.next x)) hd (l.erase x) := by
  obtain ⟨rest, rest', rfl, hrest⟩ := List.eq_append_cons_of_mem hx
  obtain ⟨pre, a, b, post, hpre, hpost, heq⟩ :=
    exists_neighbours hd x rest rest'
  have hchain := h.chain
  rw [heq, List.isChain_append_cons_cons, List.isChain_cons_cons] at hchain
  rw [hchain.2.1.2, hchain.2.2.1.1]
  apply h.unlink heq
  rw [List.erase_append_right _ hrest, List.erase_cons_head, ← List.cons_append, hpre,
    List.append_assoc, List.append_assoc, List.singleton_append, hpost]

end IsRing

end

end Ring
