import Folksong.Lib.Transition

/-!
# Pools of processes

A pool is a list of processes that step on their own; new processes are put behind those that are
there. A run of the pool, seen from one of its processes, is a run of that process on the labels
delivered to it.
-/

namespace Pool

open Transition

variable {π δ α : Type*}

/-- Put processes into the pool, or deliver a label to one of them. -/
inductive Label (α δ : Type*) where
  | start (a : α)
  | deliver (i : Nat) (d : δ)
deriving DecidableEq, Repr

/-- The step function of a pool. -/
def step (f : π → δ → Option π) (spawn : α → List π) (ps : List π) :
    Label α δ → Option (List π)
  | .start a => some (ps ++ spawn a)
  | .deliver i d => (ps[i]?).bind fun p => (f p d).map (ps.set i ·)

/-- The labels delivered to the process at index `i`. -/
def delivered (i : Nat) (ls : List (Label α δ)) : List δ :=
  ls.filterMap fun
    | .start _ => none
    | .deliver j d => if j = i then some d else none

@[simp] lemma delivered_append (i : Nat) (ls ls' : List (Label α δ)) :
    delivered i (ls ++ ls') = delivered i ls ++ delivered i ls' :=
  List.filterMap_append

@[simp] lemma delivered_start (i : Nat) (a : α) :
    delivered i [(.start a : Label α δ)] = [] := rfl

lemma delivered_self (i : Nat) (d : δ) : delivered i [(.deliver i d : Label α δ)] = [d] := by
  simp [delivered]

lemma delivered_ne {i j : Nat} (h : j ≠ i) (d : δ) :
    delivered i [(.deliver j d : Label α δ)] = [] := by
  simp [delivered, h]

lemma delivered_map (i : Nat) (ds : List δ) :
    delivered i (ds.map (.deliver i) : List (Label α δ)) = ds := by
  induction ds with
  | nil => rfl
  | cons d ds ih =>
    rw [List.map_cons, ← List.singleton_append, delivered_append, delivered_self, ih]
    rfl

lemma map_delivered_sublist (i : Nat) (ls : List (Label α δ)) :
    List.Sublist ((delivered i ls).map (.deliver i)) ls := by
  induction ls with
  | nil => exact .slnil
  | cons l ls ih =>
    rw [← List.singleton_append, delivered_append, List.map_append]
    refine List.Sublist.append ?_ ih
    cases l with
    | start a => exact List.nil_sublist _
    | deliver j d =>
      by_cases hj : j = i
      · subst hj
        rw [delivered_self]
        exact List.Sublist.refl _
      · rw [delivered_ne hj]
        exact List.nil_sublist _

/-- A process gets its labels in the order in which the pool takes them. -/
lemma sublist_delivered_iff {i : Nat} {ds : List δ} {ls : List (Label α δ)} :
    List.Sublist ds (delivered i ls) ↔ List.Sublist (ds.map (.deliver i)) ls := by
  constructor
  · intro h
    exact (h.map _).trans (map_delivered_sublist i ls)
  · intro h
    have hsub : List.Sublist (delivered i (ds.map (.deliver i))) (delivered i ls) := h.filterMap _
    rwa [delivered_map] at hsub

variable {f : π → δ → Option π} {spawn : α → List π}

/-- Nothing is delivered to a process before it is there. -/
lemma delivered_eq_nil {ls : List (Label α δ)} {ps : List π}
    (h : Run (Step (step f spawn)) [] ls ps) {i : Nat} (hi : ps.length ≤ i) :
    delivered i ls = [] := by
  induction h with
  | nil => rfl
  | @snoc ps ps' ls l _ hl ih =>
    rw [delivered_append]
    cases l with
    | start a =>
      obtain rfl := Option.some.inj hl
      rw [List.length_append] at hi
      rw [ih (Nat.le_of_add_right_le hi), delivered_start, List.append_nil]
    | deliver j d =>
      obtain ⟨p, hp, hl⟩ := Option.bind_eq_some_iff.mp hl
      obtain ⟨p', -, rfl⟩ := Option.map_eq_some_iff.mp hl
      rw [List.length_set] at hi
      have hj := (List.getElem?_eq_some_iff.mp hp).1
      rw [ih hi, delivered_ne (by omega), List.append_nil]

/-- A run of a pool is, for each of its processes, a run of that process. -/
theorem component_of_run {ls : List (Label α δ)} {ps : List π}
    (h : Run (Step (step f spawn)) [] ls ps) {i : Nat} {p : π} (hp : ps[i]? = some p) :
    ∃ a p₀, .start a ∈ ls ∧ p₀ ∈ spawn a ∧ Run (Step f) p₀ (delivered i ls) p := by
  induction h generalizing p with
  | nil => cases hp
  | @snoc ps ps' ls l h hl ih =>
    cases l with
    | start a =>
      obtain rfl := Option.some.inj hl
      by_cases hi : i < ps.length
      · rw [List.getElem?_append_left hi] at hp
        obtain ⟨b, p₀, hmem, hp₀, hrun⟩ := ih hp
        exact ⟨b, p₀, List.mem_append_left _ hmem, hp₀, by simpa using hrun⟩
      · rw [Nat.not_lt] at hi
        rw [List.getElem?_append_right hi] at hp
        refine ⟨a, p, List.mem_append_right _ (List.mem_singleton_self _),
          List.mem_of_getElem? hp, ?_⟩
        rw [delivered_append, delivered_eq_nil h hi]
        exact .nil
    | deliver j d =>
      obtain ⟨q, hq, hl⟩ := Option.bind_eq_some_iff.mp hl
      obtain ⟨q', hstep, rfl⟩ := Option.map_eq_some_iff.mp hl
      by_cases hj : j = i
      · subst hj
        obtain ⟨hlt, -⟩ := List.getElem?_eq_some_iff.mp hq
        rw [List.getElem?_set_self hlt] at hp
        obtain rfl := Option.some.inj hp
        obtain ⟨a, p₀, hmem, hp₀, hrun⟩ := ih hq
        refine ⟨a, p₀, List.mem_append_left _ hmem, hp₀, ?_⟩
        rw [delivered_append, delivered_self]
        exact hrun.snoc hstep
      · rw [List.getElem?_set_ne hj] at hp
        obtain ⟨a, p₀, hmem, hp₀, hrun⟩ := ih hp
        refine ⟨a, p₀, List.mem_append_left _ hmem, hp₀, ?_⟩
        rw [delivered_append, delivered_ne hj, List.append_nil]
        exact hrun

/-- The processes that have been put into the pool. -/
def started (spawn : α → List π) (ls : List (Label α δ)) : List π :=
  ls.flatMap fun
    | .start a => spawn a
    | .deliver _ _ => []

@[simp] lemma started_append (ls ls' : List (Label α δ)) :
    started spawn (ls ++ ls') = started spawn ls ++ started spawn ls' :=
  List.flatMap_append

@[simp] lemma started_start (a : α) : started spawn [(.start a : Label α δ)] = spawn a := by
  simp [started]

@[simp] lemma started_deliver (i : Nat) (d : δ) :
    started spawn [(.deliver i d : Label α δ)] = [] := rfl

/-- Without deliveries nothing happens to the processes that are there. -/
lemma eq_append_started {ls : List (Label α δ)} {ps ps' : List π}
    (h : Run (Step (step f spawn)) ps ls ps') (hnone : ∀ i, delivered i ls = []) :
    ps' = ps ++ started spawn ls := by
  induction h with
  | nil => exact (List.append_nil _).symm
  | @snoc ps' ps'' ls l h hl ih =>
    have hsplit : ∀ i, delivered i ls = [] ∧ delivered i [l] = [] := fun i =>
      List.append_eq_nil_iff.mp ((delivered_append i ls [l]).symm.trans (hnone i))
    cases l with
    | start a =>
      obtain rfl := Option.some.inj hl
      rw [ih fun i => (hsplit i).1, started_append, started_start, List.append_assoc]
    | deliver j d =>
      have hdelivered := (hsplit j).2
      rw [delivered_self] at hdelivered
      cases hdelivered

/-- The processes of a pool are those that have been put into it, each behind its own run. -/
theorem started_of_run {ls : List (Label α δ)} {ps : List π}
    (h : Run (Step (step f spawn)) [] ls ps) :
    ps.length = (started spawn ls).length ∧ ∀ i p, ps[i]? = some p →
      ∃ p₀, (started spawn ls)[i]? = some p₀ ∧ Run (Step f) p₀ (delivered i ls) p := by
  induction h with
  | nil => exact ⟨rfl, nofun⟩
  | @snoc ps ps' ls l h hl ih =>
    obtain ⟨hlen, hruns⟩ := ih
    cases l with
    | start a =>
      obtain rfl := Option.some.inj hl
      rw [started_append, started_start, List.length_append, List.length_append, hlen]
      refine ⟨rfl, fun i p hp => ?_⟩
      rw [delivered_append, delivered_start, List.append_nil]
      by_cases hi : i < ps.length
      · rw [List.getElem?_append_left hi] at hp
        rw [List.getElem?_append_left (hlen ▸ hi)]
        exact hruns i p hp
      · rw [Nat.not_lt] at hi
        rw [List.getElem?_append_right hi, hlen] at hp
        rw [List.getElem?_append_right (hlen ▸ hi), delivered_eq_nil h hi]
        exact ⟨p, hp, .nil⟩
    | deliver j d =>
      obtain ⟨q, hq, hl⟩ := Option.bind_eq_some_iff.mp hl
      obtain ⟨q', hstep, rfl⟩ := Option.map_eq_some_iff.mp hl
      rw [started_append, started_deliver, List.append_nil, List.length_set]
      refine ⟨hlen, fun i p hp => ?_⟩
      rw [delivered_append]
      by_cases hj : j = i
      · subst hj
        obtain ⟨hlt, -⟩ := List.getElem?_eq_some_iff.mp hq
        rw [List.getElem?_set_self hlt] at hp
        obtain rfl := Option.some.inj hp
        obtain ⟨p₀, hp₀, hrun⟩ := hruns j q hq
        rw [delivered_self]
        exact ⟨p₀, hp₀, hrun.snoc hstep⟩
      · rw [List.getElem?_set_ne hj] at hp
        rw [delivered_ne hj, List.append_nil]
        exact hruns i p hp

end Pool
