import Folksong.Core.Arr

/-!
# Growable arrays in memory (`fs_arr.c`)

The same functions on bytes: an array is a pointer to a block, and an element is a range of it.
A full array is moved by allocating a block of twice the size, copying the old one and releasing
it. Each block keeps its number, so an access to a released block is seen.
-/

namespace Folksong

/-- A byte of the memory; `none` is indeterminate. -/
abbrev Cell := Option UInt8

/-- The blocks in the order of their allocation; `none` has been released. -/
structure Store where
  blocks : List (Option (List Cell))

namespace Store

def block (m : Store) (p : Nat) : Option (List Cell) := (m.blocks[p]?).join

/-- `fs_pool_alloc`, where it succeeds. -/
def alloc (m : Store) (n : Nat) : Nat × Store :=
  (m.blocks.length, ⟨m.blocks ++ [some (List.replicate n none)]⟩)

/-- `fs_pool_release`. -/
def release (m : Store) (p : Nat) : Option Store :=
  (m.block p).map fun _ => ⟨m.blocks.set p none⟩

/-- Read `n` bytes; nothing where they do not lie inside the block. -/
def read (m : Store) (p off n : Nat) : Option (List Cell) :=
  (m.block p).bind fun cells =>
    if off + n ≤ cells.length then some ((cells.drop off).take n) else none

/-- Write some bytes; nothing where they do not lie inside the block. -/
def write (m : Store) (p off : Nat) (bs : List Cell) : Option Store :=
  (m.block p).bind fun cells =>
    if off + bs.length ≤ cells.length then
      some ⟨m.blocks.set p (some (cells.take off ++ bs ++ cells.drop (off + bs.length)))⟩
    else none

/-- `fs_memcpy`. -/
def memcpy (m : Store) (dst src n : Nat) : Option Store :=
  (m.read src 0 n).bind (m.write dst 0)

end Store

/-- `fs_arr_t`. -/
structure ArrBytes where
  elems : Nat
  eleCapa : Nat
  eleCount : Nat
  eleSize : Nat
deriving DecidableEq, Repr

/-- A product in `size_t`. -/
def sizeT (n : Nat) : Nat := n % 2 ^ 64

namespace ArrBytes

/-- `fs_arr_is_full`. -/
def isFull (arr : ArrBytes) : Bool := arr.eleCount == arr.eleCapa

/-- `fs_arr_capa_size`. -/
def capaSize (arr : ArrBytes) : Nat := sizeT (arr.eleCapa * arr.eleSize)

/-- `fs_arr_nth`: the block and the distance from its start. -/
def nth (arr : ArrBytes) (n : Nat) : Nat × Nat := (arr.elems, sizeT (n * arr.eleSize))

/-- `fs_arr_last`. -/
def last (arr : ArrBytes) : Nat × Nat := arr.nth (arr.eleCount - 1)

end ArrBytes

/-- An array and the memory. -/
structure ArrState where
  mem : Store
  arr : ArrBytes

/-- `fs_arr_init`, where the allocation succeeds. -/
def fsArrInitBytes (m : Store) (capa size : Nat) : ArrState :=
  let r := m.alloc (sizeT (capa * size))
  ⟨r.2, r.1, capa, 0, size⟩

/-- The branch of `fs_arr_push` that moves the elements; undefined where a block is left or the
capacity is no `int`. -/
def fsArrMove (s : ArrState) : Option ArrState :=
  let r := s.mem.alloc (sizeT (s.arr.capaSize * 2))
  (r.2.memcpy r.1 s.arr.elems s.arr.capaSize).bind fun m =>
    (m.release s.arr.elems).bind fun m =>
      if s.arr.eleCapa * 2 < 2 ^ 31 then
        some ⟨m, { s.arr with elems := r.1, eleCapa := s.arr.eleCapa * 2 }⟩
      else none

/-- `fs_arr_count(arr)++`. -/
def ArrState.counted (s : ArrState) : ArrState :=
  ⟨s.mem, s.arr.elems, s.arr.eleCapa, s.arr.eleCount + 1, s.arr.eleSize⟩

/-- `fs_arr_push`: the slot, or `none` for `NULL`. -/
def fsArrPushBytes (alloc : Bool) (s : ArrState) : Option (Option (Nat × Nat) × ArrState) :=
  if s.arr.isFull && !alloc then some (none, s)
  else
    (if s.arr.isFull then fsArrMove s else some s).map fun s =>
      (some (s.arr.nth s.arr.eleCount), s.counted)

/-- A push followed by a write of an element through the slot; whether there was a slot. -/
def pushWrite (s : ArrState) (alloc : Bool) (e : List UInt8) : Option (Bool × ArrState) :=
  (fsArrPushBytes alloc s).bind fun r =>
    match r.1 with
    | none => some (false, r.2)
    | some (p, off) => (r.2.mem.write p off (e.map some)).map fun m => (true, { r.2 with mem := m })

/-- A sequence of pushes, and which of them had a slot. -/
def pushAll : ArrState → List (Bool × List UInt8) → Option (List Bool × ArrState)
  | s, [] => some ([], s)
  | s, op :: ops =>
    (pushWrite s op.1 op.2).bind fun r => (pushAll r.2 ops).map fun rs => (r.1 :: rs.1, rs.2)

/-- The elements whose push had a slot. -/
def written (ops : List (Bool × List UInt8)) (results : List Bool) : List (List UInt8) :=
  ((ops.zip results).filter Prod.snd).map fun x => x.1.2

/-- The element at an index. -/
def readNth (s : ArrState) (i : Nat) : Option (List Cell) :=
  s.mem.read (s.arr.nth i).1 (s.arr.nth i).2 s.arr.eleSize

/-- The newest element. -/
def readLast (s : ArrState) : Option (List Cell) :=
  s.mem.read s.arr.last.1 s.arr.last.2 s.arr.eleSize

/-! ### The same pushes on a list of slots -/

/-- The push and the write on slots. -/
def FsArr.pushIf {α : Type} (arr : FsArr α) (alloc : Bool) (x : α) : Bool × FsArr α :=
  match fsArrPush alloc arr with
  | none => (false, arr)
  | some _ => (true, arr.push x)

/-- The sizes that a push computes stay below the limits of `size_t` and `int`. -/
def FsArr.Fits {α : Type} (size : Nat) (arr : FsArr α) (alloc : Bool) : Prop :=
  arr.isFull → arr.eleCapa * size * 2 < 2 ^ 64 ∧ (alloc → arr.eleCapa * 2 < 2 ^ 31)

instance {α : Type} (size : Nat) (arr : FsArr α) (alloc : Bool) :
    Decidable (arr.Fits size alloc) :=
  inferInstanceAs (Decidable (_ → _ ∧ (_ → _)))

/-- The same for a sequence. -/
def FsArr.FitsAll {α : Type} (size : Nat) : FsArr α → List (Bool × α) → Prop
  | _, [] => True
  | arr, op :: ops => arr.Fits size op.1 ∧ FitsAll size (arr.pushIf op.1 op.2).2 ops

/-! ### Blocks -/

namespace Store

variable {m : Store} {p q n off : Nat} {cells bs : List Cell}

lemma block_lt (h : m.block p = some cells) : p < m.blocks.length := by
  by_contra hge
  rw [block, List.getElem?_eq_none (Nat.le_of_not_lt hge)] at h
  cases h

lemma block_alloc_self (m : Store) (n : Nat) :
    (m.alloc n).2.block (m.alloc n).1 = some (List.replicate n none) := by
  simp [block, alloc]

lemma block_alloc (n : Nat) (h : m.block p = some cells) :
    (m.alloc n).2.block p = some cells := by
  rw [block, alloc, List.getElem?_append_left (block_lt h)]
  exact h

lemma alloc_ne (n : Nat) (h : m.block p = some cells) : (m.alloc n).1 ≠ p :=
  (block_lt h).ne'

lemma block_set_ne {o : Option (List Cell)} (h : p ≠ q) :
    block ⟨m.blocks.set q o⟩ p = m.block p := by
  simp [block, List.getElem?_set_ne h.symm]

lemma block_set_self {o : Option (List Cell)} (h : m.block p = some cells) :
    block ⟨m.blocks.set p o⟩ p = o := by
  simp [block, List.getElem?_set_self (block_lt h)]

lemma read_eq (h : m.block p = some cells) (hlen : off + n ≤ cells.length) :
    m.read p off n = some ((cells.drop off).take n) := by
  rw [read, h, Option.bind_some, if_pos hlen]

lemma write_eq (h : m.block p = some cells) (hlen : off + bs.length ≤ cells.length) :
    m.write p off bs
      = some ⟨m.blocks.set p (some (cells.take off ++ bs ++ cells.drop (off + bs.length)))⟩ := by
  rw [write, h, Option.bind_some, if_pos hlen]

lemma release_eq (h : m.block p = some cells) : m.release p = some ⟨m.blocks.set p none⟩ := by
  rw [release, h, Option.map_some]

/-- A whole block is copied to the front of another one. -/
lemma memcpy_eq {dst src : Nat} {old : List Cell} (hsrc : m.block src = some cells)
    (hdst : m.block dst = some old) (hlen : cells.length ≤ old.length) :
    m.memcpy dst src cells.length
      = some ⟨m.blocks.set dst (some (cells ++ old.drop cells.length))⟩ := by
  rw [memcpy, read_eq hsrc (Nat.zero_add _).le, Option.bind_some, List.drop_zero,
    List.take_length, write_eq hdst (by simpa using hlen)]
  simp

/-- A block is moved to a new one of twice its size. -/
lemma exists_moved (h : m.block p = some cells) :
    ∃ m₁ m₂, (m.alloc (cells.length * 2)).2.memcpy (m.alloc (cells.length * 2)).1 p cells.length
        = some m₁ ∧ m₁.release p = some m₂ ∧
      m₂.block (m.alloc (cells.length * 2)).1 = some (cells ++ List.replicate cells.length none) := by
  have hnew := block_alloc_self m (cells.length * 2)
  have hold := block_alloc (cells.length * 2) h
  have hne := alloc_ne (cells.length * 2) h
  refine ⟨_, _, memcpy_eq hold hnew ?_, release_eq ((block_set_ne hne.symm).trans hold), ?_⟩
  · rw [List.length_replicate]
    exact Nat.le_mul_of_pos_right _ Nat.two_pos
  · have hdrop : (List.replicate (cells.length * 2) (none : Cell)).drop cells.length
        = List.replicate cells.length none := by
      rw [List.drop_replicate, Nat.mul_two, Nat.add_sub_cancel]
    rw [hdrop]
    exact (block_set_ne hne).trans (block_set_self hnew)

end Store

/-- What has been written is read back. -/
lemma take_drop_write {cells bs : List Cell} {off n : Nat} (h : off ≤ cells.length)
    (hn : bs.length = n) :
    ((cells.take off ++ bs ++ cells.drop (off + bs.length)).drop off).take n = bs := by
  subst hn
  have hlen : (cells.take off).length = off := List.length_take_of_le h
  rw [List.append_assoc, List.drop_append_of_le_length hlen.ge, List.drop_of_length_le hlen.le,
    List.nil_append, List.take_left]

/-- What lies in front of it or behind it is not changed. -/
lemma take_drop_write_ne {cells bs : List Cell} {off i n : Nat}
    (h : off + bs.length ≤ cells.length) (hi : i + n ≤ off ∨ off + bs.length ≤ i) :
    ((cells.take off ++ bs ++ cells.drop (off + bs.length)).drop i).take n
      = (cells.drop i).take n := by
  apply List.ext_getElem?
  intro j
  rw [List.getElem?_take, List.getElem?_take]
  split_ifs with hj
  · rw [List.getElem?_drop, List.getElem?_drop]
    rcases hi with hi | hi
    · rw [List.append_assoc, List.getElem?_append_left (by simp; omega),
        List.getElem?_take_of_lt (by omega)]
    · rw [List.getElem?_append_right (by simp; omega), List.getElem?_drop]
      congr 1
      simp
      omega
  · rfl

/-! ### The bytes hold the slots -/

/-- The block is as large as the slots are together, and every slot that has been written holds
its element. -/
structure ArrState.Holds (s : ArrState) (size : Nat) (arr : FsArr (List UInt8)) : Prop where
  eleSize : s.arr.eleSize = size
  capa : s.arr.eleCapa = arr.eleCapa
  count : s.arr.eleCount = arr.eleCount
  limit : arr.eleCapa * size < 2 ^ 64
  block : ∃ cells, s.mem.block s.arr.elems = some cells ∧ cells.length = arr.eleCapa * size ∧
    ∀ i e, arr.nth i = some e → (cells.drop (i * size)).take size = e.map some

lemma sizeT_of_lt {n : Nat} (h : n < 2 ^ 64) : sizeT n = n := Nat.mod_eq_of_lt h

section

variable {s : ArrState} {size : Nat} {arr : FsArr (List UInt8)}

lemma holds_init (m : Store) {capa size : Nat} (hcapa : 0 < capa) (hmem : capa * size < 2 ^ 64) :
    ArrState.Holds (fsArrInitBytes m capa size) size (fsAllocArr _ capa hcapa) := by
  have hlen : (fsAllocArr (List UInt8) capa hcapa).eleCapa = capa := List.length_replicate
  refine ⟨rfl, hlen.symm, rfl, hlen.symm ▸ hmem, _, Store.block_alloc_self _ _, ?_, ?_⟩
  · rw [List.length_replicate, sizeT_of_lt hmem, hlen]
  · intro i e h
    rw [fsAllocArr_nth] at h
    cases h

lemma FsArr.lt_of_nth {α : Type} {arr : FsArr α} {i : Nat} {x : α} (h : arr.nth i = some x) :
    i < arr.eleCapa := by
  by_contra hge
  rw [FsArr.nth, List.getElem?_eq_none (Nat.le_of_not_lt hge)] at h
  cases h

namespace ArrState.Holds

lemma isFull_eq (h : s.Holds size arr) : s.arr.isFull = arr.isFull := by
  rw [ArrBytes.isFull, FsArr.isFull, h.capa, h.count]

/-- A slot of the array lies inside the block. -/
lemma slot_le (h : s.Holds size arr) {i : Nat} (hi : i < arr.eleCapa) :
    sizeT (i * s.arr.eleSize) = i * size ∧ i * size + size ≤ arr.eleCapa * size := by
  have hle : i * size + size ≤ arr.eleCapa * size := by
    rw [← Nat.succ_mul]
    exact Nat.mul_le_mul_right size hi
  have hlimit := h.limit
  rw [h.eleSize]
  exact ⟨sizeT_of_lt (by omega), hle⟩

/-- Reading a slot that has been written. -/
lemma readNth_eq (h : s.Holds size arr) {i : Nat} {e : List UInt8} (he : arr.nth i = some e)
    (hi : i < arr.eleCapa) : readNth s i = some (e.map some) := by
  obtain ⟨cells, hblock, hlen, hcells⟩ := h.block
  obtain ⟨hoff, hle⟩ := h.slot_le hi
  rw [readNth, ArrBytes.nth, hoff, h.eleSize, Store.read_eq hblock (by rw [hlen]; exact hle),
    hcells i e he]

/-- The elements are moved to the new block as they are. -/
lemma move (h : s.Holds size arr) (hfull : arr.isFull) (hmem : arr.eleCapa * size * 2 < 2 ^ 64)
    (hint : arr.eleCapa * 2 < 2 ^ 31) : ∃ s', fsArrMove s = some s' ∧ s'.Holds size arr.grow := by
  obtain ⟨cells, hblock, hlen, hcells⟩ := h.block
  have hcapa : s.arr.capaSize = cells.length := by
    rw [ArrBytes.capaSize, h.capa, h.eleSize, sizeT_of_lt h.limit, hlen]
  have hsize : sizeT (s.arr.capaSize * 2) = cells.length * 2 := by
    rw [hcapa, sizeT_of_lt (by rw [hlen]; exact hmem)]
  have hgrow : arr.grow.eleCapa = arr.eleCapa * 2 := by
    rw [FsArr.grow, if_pos hfull, FsArr.eleCapa, FsArr.relocate, List.length_append,
      List.length_replicate, ← FsArr.eleCapa, Nat.mul_two]
  obtain ⟨m₁, m₂, hcopy, hrelease, hnew⟩ := Store.exists_moved hblock
  refine ⟨⟨m₂, { s.arr with elems := (s.mem.alloc (cells.length * 2)).1,
                            eleCapa := s.arr.eleCapa * 2 }⟩, ?_, ?_⟩
  · rw [fsArrMove, hsize, hcapa, hcopy, Option.bind_some, hrelease, Option.bind_some,
      if_pos (by rw [h.capa]; exact hint)]
  · refine ⟨h.eleSize, ?_, ?_, ?_, _, hnew, ?_, ?_⟩
    · rw [hgrow, h.capa]
    · rw [FsArr.grow_eleCount, h.count]
    · rw [hgrow, Nat.mul_right_comm]
      exact hmem
    · rw [List.length_append, List.length_replicate, hlen, hgrow, Nat.mul_right_comm, Nat.mul_two]
    · intro i e he
      have he' := FsArr.nth_of_grow he
      have hle := (h.slot_le (FsArr.lt_of_nth he')).2
      rw [List.drop_append_of_le_length (by rw [hlen]; omega),
        List.take_append_of_le_length (by rw [List.length_drop, hlen]; omega), hcells i e he']

/-- A slot below the capacity is written. -/
lemma write (h : s.Holds size arr) {i : Nat} (hi : i < arr.eleCapa) {e : List UInt8}
    (he : e.length = size) :
    ∃ m, s.mem.write (s.arr.nth i).1 (s.arr.nth i).2 (e.map some) = some m ∧
      ArrState.Holds { s with mem := m } size (arr.write i e) := by
  obtain ⟨cells, hblock, hlen, hcells⟩ := h.block
  obtain ⟨hoff, hle⟩ := h.slot_le hi
  have hbs : (e.map some).length = size := by rw [List.length_map, he]
  have hfit : i * size + (e.map some).length ≤ cells.length := by rw [hbs, hlen]; exact hle
  have hcapa : (arr.write i e).eleCapa = arr.eleCapa := List.length_set
  refine ⟨_, by rw [ArrBytes.nth, hoff]; exact Store.write_eq hblock hfit, ?_⟩
  refine ⟨h.eleSize, h.capa.trans hcapa.symm, h.count, hcapa ▸ h.limit, _,
    Store.block_set_self hblock, ?_, ?_⟩
  · rw [hcapa, ← hlen]
    simp
    omega
  · intro j x hx
    by_cases hij : i = j
    · subst hij
      rw [FsArr.write_nth_self _ _ hi, Option.some.injEq] at hx
      subst hx
      exact take_drop_write (by omega) hbs
    · rw [FsArr.write_nth_ne _ _ hij] at hx
      have hj := h.slot_le (FsArr.lt_of_nth hx)
      rw [take_drop_write_ne hfit, hcells j x hx]
      rw [hbs]
      rcases Nat.lt_or_gt_of_ne hij with hlt | hlt
      · exact .inr (Nat.succ_mul i size ▸ Nat.mul_le_mul_right size hlt)
      · exact .inl (Nat.succ_mul j size ▸ Nat.mul_le_mul_right size hlt)

end ArrState.Holds

/-! ### Pushes -/

namespace ArrState.Holds

/-- A push that needs no allocation, or gets it. -/
lemma push (h : s.Holds size arr) {alloc : Bool} (hnull : ¬ (arr.isFull && !alloc))
    (hfits : arr.Fits size alloc) :
    ∃ s', fsArrPushBytes alloc s = some (some (s'.arr.nth arr.eleCount), s') ∧
      s'.Holds size arr.pushed := by
  obtain ⟨s₁, hs₁, h₁⟩ : ∃ s₁, (if s.arr.isFull then fsArrMove s else some s) = some s₁ ∧
      s₁.Holds size arr.grow := by
    rw [h.isFull_eq]
    by_cases hfull : arr.isFull
    · obtain ⟨hmem, hint⟩ := hfits hfull
      have halloc : alloc = true := by simpa [hfull] using hnull
      rw [if_pos hfull]
      exact h.move hfull hmem (hint halloc)
    · refine ⟨s, if_neg hfull, ?_⟩
      rwa [FsArr.grow_of_not_full (by simpa using hfull)]
  have hcount : s₁.arr.eleCount = arr.eleCount := by rw [h₁.count, FsArr.grow_eleCount]
  refine ⟨s₁.counted, ?_, h₁.eleSize, h₁.capa, ?_, h₁.limit, h₁.block⟩
  · rw [fsArrPushBytes, h.isFull_eq, if_neg hnull, ← h.isFull_eq, hs₁, Option.map_some, hcount]
    rfl
  · rw [FsArr.pushed_eleCount, ← hcount]
    rfl

/-- A push with its write does the same to the bytes as to the slots. -/
lemma pushWrite_eq (h : s.Holds size arr) {alloc : Bool} {e : List UInt8} (he : e.length = size)
    (hfits : arr.Fits size alloc) :
    ∃ s', pushWrite s alloc e = some ((arr.pushIf alloc e).1, s') ∧
      s'.Holds size (arr.pushIf alloc e).2 := by
  by_cases hnull : arr.isFull && !alloc
  · rw [pushWrite, fsArrPushBytes, h.isFull_eq, if_pos hnull, FsArr.pushIf, fsArrPush, if_pos hnull]
    exact ⟨s, rfl, h⟩
  · obtain ⟨s₁, hpush, h₁⟩ := h.push hnull hfits
    have hslot : arr.eleCount < arr.pushed.eleCapa := by
      have hlt := arr.count_lt_grow
      rwa [FsArr.grow_eleCount] at hlt
    obtain ⟨m, hm, hwritten⟩ := h₁.write hslot he
    rw [pushWrite, hpush, FsArr.pushIf, fsArrPush, if_neg hnull]
    simp only [Option.bind_some, hm, Option.map_some]
    exact ⟨_, rfl, hwritten⟩

end ArrState.Holds

/-- What is read of an array that stands for a list. -/
structure ArrState.IsList (s : ArrState) (l : List (List UInt8)) : Prop where
  count : s.arr.eleCount = l.length
  count_le : s.arr.eleCount ≤ s.arr.eleCapa
  nth : ∀ i (h : i < l.length), readNth s i = some (l[i].map some)
  last : ∀ e ∈ l.getLast?, readLast s = some (e.map some)

/-- The slots in use hold the elements of the list. -/
lemma ArrState.Holds.isList (h : s.Holds size arr) {l : List (List UInt8)}
    (hl : arr.contents = l.map some) : s.IsList l := by
  have hcount := FsArr.eleCount_of_contents hl
  have hnth : ∀ i (hi : i < l.length), readNth s i = some (l[i].map some) := by
    intro i hi
    refine h.readNth_eq (FsArr.nth_of_contents ?_) (lt_of_lt_of_le (hcount ▸ hi) arr.count_le)
    rw [hl, List.getElem?_map, List.getElem?_eq_getElem hi, Option.map_some]
  refine ⟨h.count.trans hcount, ?_, hnth, ?_⟩
  · rw [h.count, h.capa]
    exact arr.count_le
  · intro e he
    rw [Option.mem_def, List.getLast?_eq_getElem?] at he
    obtain ⟨hlt, rfl⟩ := List.getElem?_eq_some_iff.mp he
    change readNth s (s.arr.eleCount - 1) = _
    rw [h.count, hcount]
    exact hnth _ hlt

/-- A push whose element has got in appends it. -/
lemma pushIf_contents (arr : FsArr (List UInt8)) (alloc : Bool) (e : List UInt8) :
    (arr.pushIf alloc e).2.contents
      = arr.contents ++ if (arr.pushIf alloc e).1 then [some e] else [] := by
  rw [FsArr.pushIf]
  cases fsArrPush alloc arr with
  | none => simp
  | some r => simp [FsArr.push_contents]

/-- A push gives `NULL` only where an allocation has failed. -/
lemma pushIf_null {alloc : Bool} {e : List UInt8} (h : (arr.pushIf alloc e).1 = false) :
    alloc = false := by
  rw [FsArr.pushIf, fsArrPush] at h
  by_cases hnull : arr.isFull && !alloc
  · simp only [Bool.and_eq_true, Bool.not_eq_true'] at hnull
    exact hnull.2
  · rw [if_neg hnull] at h
    cases h

/-- The pushes of a sequence do the same to the bytes as to the slots. -/
lemma ArrState.Holds.pushAll_eq (h : s.Holds size arr) {ops : List (Bool × List UInt8)}
    (hops : ∀ op ∈ ops, op.2.length = size) (hfits : arr.FitsAll size ops) {l : List (List UInt8)}
    (hl : arr.contents = l.map some) :
    ∃ results s' arr', pushAll s ops = some (results, s') ∧ s'.Holds size arr' ∧
      arr'.contents = (l ++ written ops results).map some ∧
      List.Forall₂ (fun op r => r = false → op.1 = false) ops results := by
  induction ops generalizing s arr l with
  | nil => exact ⟨[], s, arr, rfl, h, by simpa [written] using hl, .nil⟩
  | cons op ops ih =>
    obtain ⟨hfit, hfits⟩ := hfits
    obtain ⟨s₁, hstep, h₁⟩ := h.pushWrite_eq (hops op (List.mem_cons_self ..)) hfit
    have hl₁ : (arr.pushIf op.1 op.2).2.contents
        = (l ++ if (arr.pushIf op.1 op.2).1 then [op.2] else []).map some := by
      rw [pushIf_contents, hl]
      split_ifs <;> simp
    obtain ⟨results, s', arr', hrun, h', hl', hnull⟩ :=
      ih h₁ (fun op hop => hops op (List.mem_cons_of_mem _ hop)) hfits hl₁
    refine ⟨(arr.pushIf op.1 op.2).1 :: results, s', arr', ?_, h', ?_, .cons pushIf_null hnull⟩
    · rw [pushAll, hstep, Option.bind_some, hrun, Option.map_some]
    · rw [hl', List.append_assoc]
      cases (arr.pushIf op.1 op.2).1 <;> simp [written]

/-- Whatever is pushed on a fresh array, it stands for the list of the elements whose push had a
slot, and a push has none only where its allocation has failed. Such a push changes nothing. -/
theorem isList_of_pushes {capa size : Nat} (hcapa : 0 < capa) (hmem : capa * size < 2 ^ 64)
    (m : Store) {ops : List (Bool × List UInt8)} (hops : ∀ op ∈ ops, op.2.length = size)
    (hfits : (fsAllocArr (List UInt8) capa hcapa).FitsAll size ops) :
    ∃ results s, pushAll (fsArrInitBytes m capa size) ops = some (results, s) ∧
      List.Forall₂ (fun op r => r = false → op.1 = false) ops results ∧
      s.IsList (written ops results) ∧
      (s.arr.isFull → fsArrPushBytes false s = some (none, s)) := by
  obtain ⟨results, s, arr, hrun, h, hl, hnull⟩ :=
    (holds_init m hcapa hmem).pushAll_eq hops hfits (l := []) rfl
  refine ⟨results, s, hrun, hnull, h.isList hl, ?_⟩
  intro hfull
  rw [fsArrPushBytes, hfull]
  rfl

/-- Two growths, and one that fails in between. -/
theorem isList_of_pushes_two :
    let ops : List (Bool × List UInt8) :=
      [(true, [1, 2]), (true, [3, 4]), (false, [5, 6]), (true, [7, 8])]
    ∃ results s, pushAll (fsArrInitBytes ⟨[]⟩ 1 2) ops = some (results, s) ∧
      List.Forall₂ (fun op r => r = false → op.1 = false) ops results ∧
      s.IsList (written ops results) ∧
      (s.arr.isFull → fsArrPushBytes false s = some (none, s)) :=
  isList_of_pushes Nat.one_pos (by decide) ⟨[]⟩ (List.forall_iff_forall_mem.mp (by decide))
    ⟨by decide, by decide, by decide, by decide, trivial⟩

end

end Folksong
