import Mathlib.Data.Multiset.AddSub
import Mathlib.Tactic

/-!
# Ledgers of allocated blocks

Commands allocate, release and use blocks. A ledger has the blocks that are allocated, whether a
command has used or released one that was not, and whether one has gone outside of a block; no
number of a block is given out twice.

A triple says which blocks a command needs to have, and what it has behind it. It leaves all other
blocks alone, so that triples compose whatever else is allocated.
-/

namespace Ledger

structure Heap where
  next : Nat
  live : Multiset Nat
  misused : Bool
  strayed : Bool

/-- No block has been allocated. -/
def Heap.empty : Heap := ⟨0, 0, false, false⟩

abbrev Command := StateM Heap

/-- What is misused stays so. -/
def misuse : Command Unit := modify fun h => { h with misused := true }

/-- Read or write outside of a block, if `out` holds. -/
def stray (out : Bool) : Command Unit := modify fun h => { h with strayed := h.strayed || out }

def alloc : Command Nat := modifyGet fun h =>
  (h.next, { h with next := h.next + 1, live := h.next ::ₘ h.live })

/-- Read or write a block. -/
def use (b : Nat) : Command Unit := modify fun h =>
  { h with misused := h.misused || decide (b ∉ h.live) }

def release (b : Nat) : Command Unit := modify fun h =>
  { h with live := h.live.erase b, misused := h.misused || decide (b ∉ h.live) }

/-- The block may be moved. -/
def realloc (b : Nat) : Command Nat := do
  release b
  alloc

def releaseAll : List Nat → Command Unit
  | [] => pure ()
  | b :: bs => do
    release b
    releaseAll bs

/-- The allocated blocks are those that somebody has, each of them once. -/
structure Heap.Holds (h : Heap) (own : Multiset Nat) : Prop where
  live : h.live = own
  nodup : own.Nodup
  below : ∀ b ∈ own, b < h.next

lemma holds_empty : Heap.empty.Holds 0 := ⟨rfl, Multiset.nodup_zero, nofun⟩

/-- With the blocks of `own`, the command misuses nothing; it has the blocks that `post` tells
behind it, and the others have stayed as they were. -/
def Triple {α : Type} (own : Multiset Nat) (c : Command α) (post : α → Multiset Nat → Prop) :
    Prop :=
  ∀ h fr, h.Holds (own + fr) → ∃ own', post (c.run h).1 own' ∧
    (c.run h).2.Holds (own' + fr) ∧ (c.run h).2.misused = h.misused

namespace Triple

variable {α β : Type} {own own' : Multiset Nat} {c : Command α} {f : α → Command β}
  {post : α → Multiset Nat → Prop} {mid : β → Multiset Nat → Prop} {b : Nat}

/-! ### Rules -/

lemma pure {a : α} (h : post a own) : Triple own (Pure.pure a) post :=
  fun _ _ hholds => ⟨own, h, hholds, rfl⟩

lemma bind (hc : Triple own c post) (hf : ∀ a own', post a own' → Triple own' (f a) mid) :
    Triple own (c >>= f) mid := by
  intro h fr hholds
  obtain ⟨own₁, hpost, hholds₁, hmisused₁⟩ := hc h fr hholds
  obtain ⟨own₂, hmid, hholds₂, hmisused₂⟩ := hf _ _ hpost _ fr hholds₁
  exact ⟨own₂, hmid, hholds₂, hmisused₂.trans hmisused₁⟩

lemma mono {post' : α → Multiset Nat → Prop} (hc : Triple own c post)
    (hpost : ∀ a own', post a own' → post' a own') : Triple own c post' := by
  intro h fr hholds
  obtain ⟨own₁, ha, hrest⟩ := hc h fr hholds
  exact ⟨own₁, hpost _ _ ha, hrest⟩

/-- Blocks that a command does not need are there behind it. -/
lemma frame (fr : Multiset Nat) (hc : Triple own c post) (hown : own' = own + fr) :
    Triple own' c fun a own₂ => ∃ own₁, post a own₁ ∧ own₂ = own₁ + fr := by
  rintro heap fr' hholds
  rw [hown, add_assoc] at hholds
  obtain ⟨own₁, hpost, hholds₁, hmisused⟩ := hc heap (fr + fr') hholds
  rw [← add_assoc] at hholds₁
  exact ⟨own₁ + fr, ⟨own₁, hpost, rfl⟩, hholds₁, hmisused⟩

lemma alloc : Triple own alloc fun b own' => own' = b ::ₘ own := by
  intro h fr hholds
  have hnew : h.next ∉ own + fr := fun hmem => lt_irrefl _ (hholds.below _ hmem)
  refine ⟨h.next ::ₘ own, rfl, ⟨?_, ?_, ?_⟩, rfl⟩
  · rw [Multiset.cons_add, ← hholds.live]
    rfl
  · rw [Multiset.cons_add]
    exact hholds.nodup.cons hnew
  · rw [Multiset.cons_add]
    intro b hb
    rcases Multiset.mem_cons.mp hb with rfl | hb
    · exact Nat.lt_succ_self _
    · exact Nat.lt_succ_of_lt (hholds.below b hb)

lemma use (hb : b ∈ own) : Triple own (use b) fun _ own' => own' = own := by
  intro h fr hholds
  have hlive : b ∈ h.live := hholds.live ▸ Multiset.mem_add.mpr (.inl hb)
  refine ⟨own, rfl, ⟨hholds.live, hholds.nodup, hholds.below⟩, ?_⟩
  exact (congrArg _ (decide_eq_false (not_not.mpr hlive))).trans (Bool.or_false _)

lemma stray (out : Bool) : Triple own (stray out) fun _ own' => own' = own :=
  fun _ _ hholds => ⟨own, rfl, ⟨hholds.live, hholds.nodup, hholds.below⟩, rfl⟩

lemma release : Triple (b ::ₘ own) (release b) fun _ own' => own' = own := by
  intro h fr hholds
  rw [Multiset.cons_add] at hholds
  have hlive : b ∈ h.live := hholds.live ▸ Multiset.mem_cons_self b _
  refine ⟨own, rfl, ⟨?_, ?_, ?_⟩, ?_⟩
  · have hrest : h.live.erase b = own + fr := by rw [hholds.live, Multiset.erase_cons_head]
    exact hrest
  · exact (Multiset.nodup_cons.mp hholds.nodup).2
  · exact fun b' hb' => hholds.below b' (Multiset.mem_cons_of_mem hb')
  · exact (congrArg _ (decide_eq_false (not_not.mpr hlive))).trans (Bool.or_false _)

lemma realloc : Triple (b ::ₘ own) (realloc b) fun b' own' => own' = b' ::ₘ own :=
  bind release fun _ _ heq => heq ▸ alloc

lemma releaseAll (bs : List Nat) :
    Triple (bs + own) (releaseAll bs) fun _ own' => own' = own := by
  induction bs with
  | nil => exact pure (by simp)
  | cons b bs ih =>
    rw [← Multiset.cons_coe, Multiset.cons_add]
    exact bind release fun _ _ heq => heq ▸ ih

end Triple

/-! ### What no command undoes -/

/-- A misuse is not forgotten, and a block that has been released does not come back. -/
structure Steady {α : Type} (c : Command α) : Prop where
  misused : ∀ h, h.misused = true → (c.run h).2.misused = true
  next : ∀ h, h.next ≤ (c.run h).2.next
  live : ∀ h, ∀ b < h.next, b ∈ (c.run h).2.live → b ∈ h.live

namespace Steady

variable {α β : Type} {c : Command α} {f : α → Command β}

lemma pure (a : α) : Steady (Pure.pure a : Command α) :=
  ⟨fun _ h => h, fun _ => le_rfl, fun _ _ _ h => h⟩

lemma bind (hc : Steady c) (hf : ∀ a, Steady (f a)) : Steady (c >>= f) where
  misused h hm := (hf _).misused _ (hc.misused h hm)
  next h := (hc.next h).trans ((hf _).next _)
  live h b hb hlive := hc.live h b hb ((hf _).live _ b (hb.trans_le (hc.next h)) hlive)

lemma misuse : Steady misuse := ⟨fun _ _ => rfl, fun _ => le_rfl, fun _ _ _ h => h⟩

lemma stray (out : Bool) : Steady (stray out) := ⟨fun _ h => h, fun _ => le_rfl, fun _ _ _ h => h⟩

lemma alloc : Steady alloc where
  misused _ h := h
  next h := Nat.le_succ h.next
  live _ _ hb hlive := (Multiset.mem_cons.mp hlive).resolve_left hb.ne

lemma use (b : Nat) : Steady (use b) where
  misused _ h := Bool.or_eq_true_iff.mpr (.inl h)
  next _ := le_rfl
  live _ _ _ h := h

lemma release (b : Nat) : Steady (release b) where
  misused _ h := Bool.or_eq_true_iff.mpr (.inl h)
  next _ := le_rfl
  live _ _ _ h := Multiset.mem_of_mem_erase h

lemma realloc (b : Nat) : Steady (realloc b) := (release b).bind fun _ => alloc

lemma releaseAll (bs : List Nat) : Steady (releaseAll bs) := by
  induction bs with
  | nil => exact pure ()
  | cons b bs ih => exact (release b).bind fun _ => ih

end Steady

/-! ### What goes outside -/

/-- The command goes outside of a block exactly when `out` holds. -/
def Strays {α : Type} (c : Command α) (out : Bool) : Prop :=
  ∀ h, (c.run h).2.strayed = (h.strayed || out)

namespace Strays

variable {α β : Type} {c : Command α} {f : α → Command β} {out out' : Bool}

lemma pure (a : α) : Strays (Pure.pure a : Command α) false := fun _ => (Bool.or_false _).symm

lemma bind (hc : Strays c out) (hf : ∀ a, Strays (f a) out') : Strays (c >>= f) (out || out') :=
  fun h => ((hf _) _).trans ((congrArg (· || out') (hc h)).trans (Bool.or_assoc _ _ _))

/-- A command that stays inside, and another one. -/
lemma behind (hc : Strays c false) (hf : ∀ a, Strays (f a) out) : Strays (c >>= f) out :=
  hc.bind hf

/-- A command, and another one that stays inside. -/
lemma before (hc : Strays c out) (hf : ∀ a, Strays (f a) false) : Strays (c >>= f) out := by
  have h := hc.bind hf
  rwa [Bool.or_false] at h

lemma misuse : Strays misuse false := fun _ => (Bool.or_false _).symm

lemma alloc : Strays alloc false := fun _ => (Bool.or_false _).symm

lemma use (b : Nat) : Strays (use b) false := fun _ => (Bool.or_false _).symm

lemma release (b : Nat) : Strays (release b) false := fun _ => (Bool.or_false _).symm

lemma realloc (b : Nat) : Strays (realloc b) false := (release b).behind fun _ => alloc

lemma releaseAll (bs : List Nat) : Strays (releaseAll bs) false := by
  induction bs with
  | nil => exact pure ()
  | cons b bs ih => exact (release b).behind fun _ => ih

lemma stray (out : Bool) : Strays (stray out) out := fun _ => rfl

end Strays

/-- Using a block that is not allocated is a misuse. -/
lemma misused_use {h : Heap} {b : Nat} (hb : b ∉ h.live) :
    ((use b).run h).2.misused = true := Bool.or_eq_true_iff.mpr (.inr (decide_eq_true hb))

/-- One of several owners has its own blocks beside those of the others. -/
lemma exists_share {ι : Type*} (blocks : ι → Multiset Nat) {l : List ι} {i : Nat} {a : ι}
    (h : l[i]? = some a) : ∃ rest, (l.map blocks).sum = blocks a + rest ∧
      ∀ b, ((l.set i b).map blocks).sum = blocks b + rest := by
  obtain ⟨hi, rfl⟩ := List.getElem?_eq_some_iff.mp h
  refine ⟨((l.take i).map blocks).sum + ((l.drop (i + 1)).map blocks).sum, ?_, fun b => ?_⟩
  · conv_lhs => rw [← List.take_append_drop i l, List.drop_eq_getElem_cons hi]
    rw [List.map_append, List.map_cons, List.sum_append, List.sum_cons]
    abel
  · rw [List.set_eq_take_append_cons_drop, if_pos hi, List.map_append, List.map_cons,
      List.sum_append, List.sum_cons]
    abel

end Ledger
