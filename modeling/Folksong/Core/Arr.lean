import Mathlib.Data.List.ReduceOption
import Mathlib.Tactic

/-!
# Growable arrays (`fs_arr.c`)

The storage of an array is replaced each time the array grows, and the old storage is released.
`gen` numbers the storages of one array, so that a pointer to a slot remembers the storage it
points into: it dangles exactly when its number is not the array's current one.
-/

namespace Folksong

/-- `fs_arr_t`. One entry of `elems` for each slot of the storage; `none` has never been
written. Slots at and beyond `eleCount` keep whatever was stored there. -/
structure FsArr (α : Type) where
  gen : Nat
  elems : List (Option α)
  eleCount : Nat
  capa_pos : 0 < elems.length
  count_le : eleCount ≤ elems.length

/-- A pointer to a slot of the storage number `gen`. -/
structure Slot where
  gen : Nat
  idx : Nat
deriving DecidableEq, Repr

variable {α : Type}

namespace FsArr

def eleCapa (arr : FsArr α) : Nat := arr.elems.length

/-- `fs_arr_is_full`. -/
def isFull (arr : FsArr α) : Bool := arr.eleCount == arr.eleCapa

/-- Move the elements to a storage twice as large. -/
def relocate (arr : FsArr α) : FsArr α where
  gen := arr.gen + 1
  elems := arr.elems ++ List.replicate arr.eleCapa none
  eleCount := arr.eleCount
  capa_pos := by
    have := arr.capa_pos
    simp [eleCapa]
    omega
  count_le := by
    have := arr.count_le
    simp [eleCapa]
    omega

/-- The storage `fs_arr_push` hands a slot out of. -/
def grow (arr : FsArr α) : FsArr α := if arr.isFull then arr.relocate else arr

lemma count_lt_grow (arr : FsArr α) : arr.grow.eleCount < arr.grow.elems.length := by
  have hpos := arr.capa_pos
  have hle := arr.count_le
  by_cases h : arr.isFull
  · simp only [grow, h, if_true, relocate, eleCapa, List.length_append, List.length_replicate]
    omega
  · have hne : arr.eleCount ≠ arr.elems.length := by simpa [isFull, eleCapa] using h
    simp only [grow, h]
    exact lt_of_le_of_ne hle hne

/-- The array after a push; the new slot has not been written yet. -/
def pushed (arr : FsArr α) : FsArr α where
  gen := arr.grow.gen
  elems := arr.grow.elems
  eleCount := arr.grow.eleCount + 1
  capa_pos := arr.grow.capa_pos
  count_le := arr.count_lt_grow

/-- The slot a push hands out. -/
def slot (arr : FsArr α) : Slot := ⟨arr.grow.gen, arr.eleCount⟩

/-- Store through a pointer to slot `i` of the current storage. -/
def write (arr : FsArr α) (i : Nat) (x : α) : FsArr α where
  gen := arr.gen
  elems := arr.elems.set i (some x)
  eleCount := arr.eleCount
  capa_pos := by simpa using arr.capa_pos
  count_le := by simpa using arr.count_le

/-- `fs_arr_nth`, read through: also beyond `eleCount`. -/
def nth (arr : FsArr α) (i : Nat) : Option α := (arr.elems[i]?).join

/-- Push followed by a store through the returned slot. -/
def push (arr : FsArr α) (x : α) : FsArr α := arr.pushed.write arr.eleCount x

/-- `ele_count--`; taking an element off an empty array leaves the values an array can have. -/
def decCount (arr : FsArr α) : Option (FsArr α) :=
  if arr.eleCount = 0 then none
  else some ⟨arr.gen, arr.elems, arr.eleCount - 1, arr.capa_pos, by have := arr.count_le; omega⟩

/-- `fs_arr_count(arr) = 0`: the slots keep their contents. -/
def reset (arr : FsArr α) : FsArr α := ⟨arr.gen, arr.elems, 0, arr.capa_pos, Nat.zero_le _⟩

/-- The elements an array stands for. -/
def toList (arr : FsArr α) : List α := (arr.elems.take arr.eleCount).reduceOption

/-- The slots in use. -/
def contents (arr : FsArr α) : List (Option α) := arr.elems.take arr.eleCount

end FsArr

/-- `fs_alloc_arr`: a fresh storage of `capa` slots. -/
def fsAllocArr (α : Type) (capa : Nat) (h : 0 < capa) : FsArr α where
  gen := 0
  elems := List.replicate capa none
  eleCount := 0
  capa_pos := by simpa using h
  count_le := Nat.zero_le _

/-- The capacity of `conf->tokens` in `main`. -/
lemma tokensCapa_pos : 0 < 3 := Nat.succ_pos 2

/-- `fs_arr_push`: `alloc` says whether the allocation of a larger storage succeeds. -/
def fsArrPush (alloc : Bool) (arr : FsArr α) : Option (Slot × FsArr α) :=
  if arr.isFull && !alloc then none else some (arr.slot, arr.pushed)

/-- Nothing has been written to a fresh storage. -/
lemma fsAllocArr_nth (capa : Nat) (h : 0 < capa) (i : Nat) :
    (fsAllocArr α capa h).nth i = none := by
  rw [FsArr.nth, fsAllocArr, List.getElem?_replicate]
  split_ifs <;> rfl

namespace FsArr

@[simp] lemma grow_eleCount (arr : FsArr α) : arr.grow.eleCount = arr.eleCount := by
  simp only [grow]
  split <;> rfl

@[simp] lemma pushed_eleCount (arr : FsArr α) : arr.pushed.eleCount = arr.eleCount + 1 := by
  simp [pushed]

@[simp] lemma pushed_gen (arr : FsArr α) : arr.pushed.gen = arr.grow.gen := rfl

@[simp] lemma write_eleCount (arr : FsArr α) (i : Nat) (x : α) :
    (arr.write i x).eleCount = arr.eleCount := rfl

@[simp] lemma write_gen (arr : FsArr α) (i : Nat) (x : α) : (arr.write i x).gen = arr.gen := rfl

@[simp] lemma push_eleCount (arr : FsArr α) (x : α) :
    (arr.push x).eleCount = arr.eleCount + 1 := by
  simp [push]

lemma grow_of_not_full {arr : FsArr α} (h : arr.isFull = false) : arr.grow = arr := by
  simp [grow, h]

/-- Growing keeps every slot that existed. -/
lemma grow_nth (arr : FsArr α) {i : Nat} (h : i < arr.elems.length) :
    arr.grow.nth i = arr.nth i := by
  simp only [grow]
  split
  · simp [nth, relocate, List.getElem?_append_left h]
  · rfl

lemma pushed_nth (arr : FsArr α) {i : Nat} (h : i < arr.elems.length) :
    arr.pushed.nth i = arr.nth i :=
  arr.grow_nth h

lemma write_nth_self (arr : FsArr α) (x : α) {i : Nat} (h : i < arr.elems.length) :
    (arr.write i x).nth i = some x := by
  simp [nth, write, h]

lemma write_nth_ne (arr : FsArr α) (x : α) {i j : Nat} (h : i ≠ j) :
    (arr.write i x).nth j = arr.nth j := by
  simp [nth, write, List.getElem?_set_ne h]

lemma push_nth_self (arr : FsArr α) (x : α) : (arr.push x).nth arr.eleCount = some x := by
  apply write_nth_self
  simpa [pushed] using arr.count_lt_grow

lemma push_nth_lt (arr : FsArr α) (x : α) {i : Nat} (h : i < arr.eleCount) :
    (arr.push x).nth i = arr.nth i := by
  rw [push, write_nth_ne _ _ (by omega), pushed_nth _ (lt_of_lt_of_le h arr.count_le)]

lemma nth_of_grow {arr : FsArr α} {i : Nat} {x : α}
    (h : arr.grow.nth i = some x) : arr.nth i = some x := by
  by_cases hi : i < arr.elems.length
  · rwa [arr.grow_nth hi] at h
  · rw [grow] at h
    split_ifs at h with hfull
    · simp only [nth, relocate, List.getElem?_append_right (Nat.le_of_not_lt hi)] at h
      rw [List.getElem?_replicate] at h
      split_ifs at h <;> cases h
    · exact h

lemma nth_of_push {arr : FsArr α} {i : Nat} {x y : α}
    (h : (arr.push y).nth i = some x) : x = y ∨ arr.nth i = some x := by
  by_cases hi : arr.eleCount = i
  · subst hi
    rw [arr.push_nth_self] at h
    exact .inl (Option.some.inj h).symm
  · rw [push, write_nth_ne _ _ hi] at h
    exact .inr (nth_of_grow h)

@[simp] lemma reset_eleCount (arr : FsArr α) : arr.reset.eleCount = 0 := rfl

@[simp] lemma reset_toList (arr : FsArr α) : arr.reset.toList = [] := by
  simp [reset, toList]

lemma grow_take (arr : FsArr α) :
    arr.grow.elems.take arr.eleCount = arr.elems.take arr.eleCount := by
  simp only [grow]
  split
  · simp [relocate, List.take_append_of_le_length arr.count_le]
  · rfl

lemma write_take (arr : FsArr α) (x : α) {n i : Nat} (h : n ≤ i) :
    (arr.write i x).elems.take n = arr.elems.take n :=
  List.take_set_of_le h

/-- A push uses one more slot. -/
lemma push_contents (arr : FsArr α) (x : α) :
    (arr.push x).contents = arr.contents ++ [some x] := by
  have hlt : arr.eleCount < arr.grow.elems.length := by simpa using arr.count_lt_grow
  have htake : (arr.grow.elems.set arr.eleCount (some x)).take (arr.eleCount + 1)
      = arr.elems.take arr.eleCount ++ [some x] := by
    rw [List.take_succ_eq_append_getElem (by simpa using hlt), List.take_set_of_le (le_refl _),
      grow_take]
    simp
  simp [contents, push, write, pushed, htake]

/-- A push stands for appending one element to the list. -/
@[simp] lemma push_toList (arr : FsArr α) (x : α) :
    (arr.push x).toList = arr.toList ++ [x] := by
  change (arr.push x).contents.reduceOption = arr.contents.reduceOption ++ [x]
  rw [push_contents, List.reduceOption_append]
  rfl

lemma write_contents (arr : FsArr α) (i : Nat) (x : α) :
    (arr.write i x).contents = arr.contents.set i (some x) :=
  List.take_set

@[simp] lemma contents_length (arr : FsArr α) : arr.contents.length = arr.eleCount :=
  List.length_take_of_le arr.count_le

lemma nth_of_contents {arr : FsArr α} {i : Nat} {x : α} (h : arr.contents[i]? = some (some x)) :
    arr.nth i = some x := by
  rw [contents, List.getElem?_take] at h
  split_ifs at h
  rw [nth, h]
  rfl

/-- An array whose slots in use have all been written has as many of them as its list is long. -/
lemma eleCount_of_contents {arr : FsArr α} {l : List α} (h : arr.contents = l.map some) :
    arr.eleCount = l.length := by
  rw [← arr.contents_length, h, List.length_map]

/-- `ele_count--` takes back what has been pushed. -/
lemma decCount_push (arr : FsArr α) (x : α) :
    ∃ a, (arr.push x).decCount = some a ∧ a.contents = arr.contents := by
  refine ⟨_, by rw [decCount, if_neg (by simp)], ?_⟩
  have hlen : arr.contents.length = arr.eleCount := List.length_take_of_le arr.count_le
  have h := congrArg (List.take arr.eleCount) (arr.push_contents x)
  rw [List.take_append_of_le_length hlen.ge, List.take_of_length_le hlen.le, contents,
    List.take_take, push_eleCount, min_eq_left (Nat.le_succ _)] at h
  simpa [contents] using h

lemma decCount_contents {arr a : FsArr α} (h : arr.decCount = some a) :
    a.contents.length < arr.contents.length := by
  rw [decCount] at h
  split_ifs at h with hne
  obtain rfl := Option.some.inj h
  have := arr.count_le
  simp only [contents, List.length_take]
  omega

/-! ### A push that is taken back -/

lemma grow_not_full (arr : FsArr α) : arr.grow.isFull = false := by
  simpa [isFull, eleCapa] using arr.count_lt_grow.ne

@[simp] lemma grow_grow (arr : FsArr α) : arr.grow.grow = arr.grow :=
  grow_of_not_full arr.grow_not_full

lemma grow_pushed (arr : FsArr α) : arr.grow.pushed = arr.pushed := by
  simp [pushed]

lemma grow_slot (arr : FsArr α) : arr.grow.slot = arr.slot := by
  simp [slot]

/-- The storage stays as large as it has become. -/
lemma pushed_decCount (arr : FsArr α) : arr.pushed.decCount = some arr.grow := by
  rw [decCount, if_neg (by simp)]
  rfl

/-- What has been stored in the slot stays there. -/
lemma push_decCount (arr : FsArr α) (x : α) :
    (arr.push x).decCount = some (arr.grow.write arr.eleCount x) := by
  rw [decCount, if_neg (by simp)]
  rfl

lemma grow_write (arr : FsArr α) (x : α) :
    (arr.grow.write arr.eleCount x).grow = arr.grow.write arr.eleCount x := by
  apply grow_of_not_full
  have hlt := arr.count_lt_grow
  rw [grow_eleCount] at hlt
  simpa [isFull, eleCapa, write] using hlt.ne

/-- The next push overwrites it. -/
lemma push_again (arr : FsArr α) (x y : α) :
    (arr.grow.write arr.eleCount x).push y = arr.push y := by
  simp only [push, pushed, grow_write]
  simp [write]

end FsArr

end Folksong
