import Mathlib.Data.List.TakeWhile
import Mathlib.Tactic

/-!
# Bytes and strings (`fs_str.h`)

A `fs_str_t` is a pair of pointers into memory. Here it is the bytes stored before the
terminating NUL, together with the distance from `pos` to `last`, which the code computes by
three different conventions: a literal does not count its NUL, a token counts it, and
`fs_str_set` even leaves the last byte out.
-/

namespace Folksong

/-- The bytes of a string literal of the source. -/
def bytes (s : String) : List UInt8 := s.toList.map fun c => c.toUInt8

def fsChrLF : UInt8 := 10
def fsChrCR : UInt8 := 13
def fsChrSHARP : UInt8 := 35
def fsChrESCAPE : UInt8 := 92
def fsChrSPACE : UInt8 := 32
def fsChrTAB : UInt8 := 9
def fsChrSEM : UInt8 := 59
def fsChrLCBRACK : UInt8 := 123
def fsChrRCBRACK : UInt8 := 125
def fsChrDQUO : UInt8 := 34
def fsChrSQUO : UInt8 := 39
def fsChrDOLLAR : UInt8 := 36

/-- `fs_str_t`: the bytes at `pos` up to the NUL that follows them, and `last - pos`. Bytes of
the allocation behind the NUL are indeterminate and have no place here. -/
structure FsStr where
  text : List UInt8
  size : Nat
deriving DecidableEq, Repr

/-- `fs_str`: a literal, without its NUL. -/
def fsStr (s : String) : FsStr := ⟨bytes s, (bytes s).length⟩

/-- `fs_str_set`: `last` is one byte short of the end of the text. In front of an empty one it is
before `pos`, and their difference wraps round. -/
def fsStrSet (text : List UInt8) : FsStr :=
  ⟨text, if text = [] then 2 ^ 64 - 1 else text.length - 1⟩

/-- The bytes from `pos` to `last` of a string that has been set so; there is none where `last` is
in front. -/
def FsStr.ahead (s : FsStr) : Nat := min s.size s.text.length

/-- `fs_str_empty`. -/
def fsStrEmpty (s : FsStr) : Bool := s.size == 0

/-- `fs_str_set` leaves the last byte in front of the end. -/
lemma fsStrSet_split (text : List UInt8) :
    ∃ behind, (fsStrSet text).text ++ [0] = text.dropLast ++ behind := by
  rcases List.eq_nil_or_concat text with rfl | ⟨text, b, rfl⟩
  · exact ⟨[0], rfl⟩
  · rw [List.concat_eq_append, List.dropLast_concat]
    exact ⟨[b, 0], List.append_assoc text [b] [0]⟩

lemma fsStrSet_ahead (text : List UInt8) : (fsStrSet text).ahead = text.dropLast.length := by
  rw [List.length_dropLast, FsStr.ahead, fsStrSet]
  split_ifs with hnil
  · rw [hnil]
    rfl
  · exact min_eq_left (Nat.sub_le _ _)

lemma dropLast_of_fsStrEmpty {text : List UInt8} (h : fsStrEmpty (fsStrSet text)) :
    text.dropLast = [] := by
  rw [fsStrEmpty, fsStrSet, beq_iff_eq, ite_eq_iff] at h
  rw [← List.length_eq_zero_iff, List.length_dropLast]
  rcases h with ⟨-, hwrap⟩ | ⟨-, hsize⟩
  · cases hwrap
  · exact hsize

/-- The C string at `fs_str_get`. -/
def FsStr.cstr (s : FsStr) : List UInt8 := s.text.takeWhile (· ≠ 0)

/-- `fs_str_cmp(a, b) == 0`: `memcmp` over the smaller of the two sizes. -/
def fsStrCmp (a b : FsStr) : Bool :=
  (a.text ++ [0]).take (min a.size b.size) == (b.text ++ [0]).take (min a.size b.size)

lemma FsStr.cstr_of_nul_free {s : FsStr} (h : (0 : UInt8) ∉ s.text) : s.cstr = s.text := by
  rw [FsStr.cstr, List.takeWhile_eq_self_iff]
  intro c hc
  simp only [decide_eq_true_eq]
  rintro rfl
  exact h hc

lemma fsStrCmp_comm (a b : FsStr) : fsStrCmp a b = fsStrCmp b a := by
  rw [fsStrCmp, fsStrCmp, min_comm, BEq.comm]

/-- A token counts its NUL, and more where its escapes have made it shorter. -/
def FsStr.IsToken (s : FsStr) : Prop := s.text.length < s.size

instance : DecidablePred FsStr.IsToken := fun _ => inferInstanceAs (Decidable (_ < _))

/-- The memory of a string up to the NUL that ends the C string. -/
lemma FsStr.cstr_append (s : FsStr) : ∃ rest, s.text ++ [0] = s.cstr ++ 0 :: rest := by
  rw [FsStr.cstr]
  induction s.text with
  | nil => exact ⟨[], rfl⟩
  | cons c text ih =>
    by_cases hc : c = 0
    · exact ⟨text ++ [0], by simp [hc]⟩
    · obtain ⟨rest, hrest⟩ := ih
      exact ⟨rest, by simp [hc, hrest]⟩

lemma FsStr.cstr_length_le (s : FsStr) : s.cstr.length ≤ s.text.length :=
  (List.takeWhile_prefix _).length_le

/-- Bytes without a NUL agree with a string that is long enough exactly when the C string begins
with them. -/
lemma take_eq_take_iff_begins {w k rest : List UInt8} (hw : (0 : UInt8) ∉ w) {n : Nat}
    (hn : k.length < n) :
    w.take (min w.length n) = (k ++ 0 :: rest).take (min w.length n) ↔ w <+: k := by
  by_cases hle : w.length ≤ k.length
  · rw [min_eq_left (hle.trans hn.le), List.take_length, List.take_append_of_le_length hle,
      List.prefix_iff_eq_take]
  · refine iff_of_false (fun heq => ?_) fun hpre => hle hpre.length_le
    -- the comparison gets to the NUL
    have hlt : k.length < min w.length n := by omega
    have hnul := congrArg (·[k.length]?) heq
    simp only [List.getElem?_take_of_lt hlt, List.getElem?_append_right (le_refl _),
      Nat.sub_self, List.getElem?_cons_zero] at hnul
    exact hw (List.mem_of_getElem? hnul)

/-- A string that does not count its NUL is compared with a token as far as it counts. -/
lemma fsStrCmp_iff_begins {s t : FsStr} (hs : (0 : UInt8) ∉ s.text) (hsize : s.size ≤ s.text.length)
    (ht : t.IsToken) : fsStrCmp s t = true ↔ s.text.take s.size <+: t.cstr := by
  obtain ⟨rest, hrest⟩ := t.cstr_append
  have hlen : (s.text.take s.size).length = s.size := List.length_take_of_le hsize
  have hnul : (0 : UInt8) ∉ s.text.take s.size := fun h => hs (List.mem_of_mem_take h)
  have htake : (s.text ++ [0]).take (min s.size t.size)
      = (s.text.take s.size).take (min s.size t.size) := by
    rw [List.take_append_of_le_length ((min_le_left _ _).trans hsize), List.take_take,
      min_eq_left (min_le_left _ _)]
  rw [fsStrCmp, beq_iff_eq, hrest, htake, ← take_eq_take_iff_begins hnul
    (lt_of_le_of_lt t.cstr_length_le ht), hlen]

/-- What `fs_str` makes of a literal. -/
structure FsStr.IsLiteral (s : FsStr) : Prop where
  size : s.size = s.text.length
  nulFree : (0 : UInt8) ∉ s.text

/-- A literal fits a token that begins with it. -/
lemma fsStrCmp_literal {s t : FsStr} (hs : s.IsLiteral) (ht : t.IsToken) :
    fsStrCmp s t = true ↔ s.text <+: t.cstr := by
  rw [fsStrCmp_iff_begins hs.nulFree hs.size.le ht, hs.size, List.take_length]

end Folksong
