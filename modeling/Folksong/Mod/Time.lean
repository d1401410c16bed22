import Mathlib.Data.Nat.Digits.Defs
import Folksong.Mod.Timer

/-!
# Times (`fs_mod_timer_parse_time`)

A time is decimal digits and a unit. The code cuts the token where the digits end, reads the
number with `atoll`, multiplies it, and puts the first byte of the unit back.
-/

namespace Folksong

/-! ### The code, with the memory it writes to -/

/-- The C string at offset `i`. -/
def cstrAt (mem : List UInt8) (i : Nat) : List UInt8 := (mem.drop i).takeWhile (· ≠ 0)

/-- `*sp = 0; *ret = atoll(...) * factor; *sp = chr`. -/
def cutTime (mem : List UInt8) (sp : Nat) (chr : UInt8) (factor : Nat) : Nat × List UInt8 :=
  (atoll (cstrAt (mem.set sp 0) 0) * factor % 2 ^ 64, (mem.set sp 0).set sp chr)

/-- `fs_mod_timer_parse_time` on the bytes of the token and on what `*ret` holds before. -/
def fsModTimerParseTimeAt (mem : List UInt8) (ret : Nat) : Ret × Nat × List UInt8 :=
  let sp := (mem.takeWhile isDigit).length
  if cstrAt mem sp = [] then (.ok, atoll (cstrAt mem 0), mem)
  else if cstrAt mem sp = bytes "ms" then (.ok, cutTime mem sp 109 1)
  else if cstrAt mem sp = bytes "s" then (.ok, cutTime mem sp 115 1000)
  else if cstrAt mem sp = bytes "min" then (.ok, cutTime mem sp 109 (1000 * 60))
  else if cstrAt mem sp = bytes "hour" then (.ok, cutTime mem sp 104 (1000 * 60 * 60))
  else if cstrAt mem sp = bytes "day" then (.ok, cutTime mem sp 100 (1000 * 60 * 60 * 24))
  else (.error, ret, mem)

/-! ### What a time denotes -/

/-- The milliseconds of a unit. -/
def unitMillis (unit : List UInt8) : Option Nat :=
  if unit = [] then some 1
  else if unit = bytes "ms" then some 1
  else if unit = bytes "s" then some 1000
  else if unit = bytes "min" then some 60000
  else if unit = bytes "hour" then some 3600000
  else if unit = bytes "day" then some 86400000
  else none

/-- The number a string of decimal digits denotes. -/
def decimal (digits : List UInt8) : Nat :=
  Nat.ofDigits 10 (digits.reverse.map fun b => b.toNat - 48)

/-- The text is one or more digits and a unit, and denotes `n` milliseconds. -/
inductive DenotesTime : List UInt8 → Nat → Prop where
  | mk {digits unit : List UInt8} {k : Nat} : digits ≠ [] → (∀ b ∈ digits, isDigit b = true) →
      unitMillis unit = some k → DenotesTime (digits ++ unit) (decimal digits * k)

/-- The text denotes `n` milliseconds, and these fit a `long long`. -/
structure IsTime (text : List UInt8) (n : Nat) : Prop where
  denotes : DenotesTime text n
  fits : n < 2 ^ 63

/-- A time is accepted and stored exactly, and nothing else is; the token is left as it was. -/
structure ExactTime (mem : List UInt8) (ret : Nat) (r : Ret × Nat × List UInt8) : Prop where
  ok_iff : r.1 = .ok ↔ ∃ n, IsTime (cstrAt mem 0) n
  stored : ∀ n, IsTime (cstrAt mem 0) n → r.2.1 = n
  unchanged : (¬ ∃ n, IsTime (cstrAt mem 0) n) → r.2.1 = ret
  text : r.2.2 = mem

/-! ### Digits -/

lemma atoll_foldl (digits : List UInt8) :
    digits.foldl (fun n b => 10 * n + (b.toNat - 48)) 0 = decimal digits := by
  rw [decimal]
  induction digits using List.reverseRecOn with
  | nil => rfl
  | append_singleton digits b ih =>
    rw [List.foldl_append, List.reverse_append, List.foldl_cons, List.foldl_nil, ih,
      List.reverse_singleton, List.singleton_append, List.map_cons, Nat.ofDigits_cons]
    exact Nat.add_comm _ _

lemma atoll_eq (text : List UInt8) :
    atoll text = min (decimal (text.takeWhile isDigit)) (2 ^ 63 - 1) := by
  rw [atoll, leadingNumber, atoll_foldl]

lemma atoll_lt (text : List UInt8) : atoll text < 2 ^ 63 := by
  rw [atoll_eq]
  omega

/-- No unit begins with a digit. -/
lemma takeWhile_unit {unit : List UInt8} {k : Nat} (h : unitMillis unit = some k) :
    unit.takeWhile isDigit = [] := by
  rw [unitMillis] at h
  split_ifs at h with h₁ h₂ h₃ h₄ h₅ h₆
  · rw [h₁]
    rfl
  · rw [h₂]
    decide
  · rw [h₃]
    decide
  · rw [h₄]
    decide
  · rw [h₅]
    decide
  · rw [h₆]
    decide

lemma unitMillis_pos {unit : List UInt8} {k : Nat} (h : unitMillis unit = some k) : 0 < k := by
  rw [unitMillis] at h
  split_ifs at h <;> cases h <;> decide

/-- A text is cut into digits and a unit in one way only. -/
lemma isTime_iff {text : List UInt8} {n : Nat} :
    IsTime text n ↔ text.takeWhile isDigit ≠ [] ∧ n < 2 ^ 63 ∧
      ∃ k, unitMillis (text.dropWhile isDigit) = some k ∧
        n = decimal (text.takeWhile isDigit) * k := by
  constructor
  · rintro ⟨⟨hne, hdigits, hunit⟩, hfits⟩
    rename_i digits unit k
    have hhead : (digits ++ unit).takeWhile isDigit = digits := by
      rw [List.takeWhile_append_of_pos hdigits, takeWhile_unit hunit, List.append_nil]
    have htail : (digits ++ unit).dropWhile isDigit = unit := by
      have h := (digits ++ unit).takeWhile_append_dropWhile (p := isDigit)
      rw [hhead] at h
      exact List.append_cancel_left h
    rw [hhead, htail]
    exact ⟨hne, hfits, k, hunit, rfl⟩
  · rintro ⟨hne, hfits, k, hunit, rfl⟩
    have hdenotes := DenotesTime.mk hne (fun b hb => List.mem_takeWhile_imp hb) hunit
    rw [List.takeWhile_append_dropWhile] at hdenotes
    exact ⟨hdenotes, hfits⟩

/-! ### What the code makes of a time -/

/-- The number is read as far as a `long long` goes, and multiplied in 64 bits. -/
lemma fsModTimerParseTime_eq (text : List UInt8) :
    fsModTimerParseTime text
      = (unitMillis (text.dropWhile isDigit)).map fun k => atoll text * k % 2 ^ 64 := by
  have hlt := atoll_lt text
  have hone : atoll text * 1 % 2 ^ 64 = atoll text := by omega
  simp only [fsModTimerParseTime, unitMillis]
  split_ifs
  · rw [Option.map_some, hone]
  · rw [Option.map_some, hone]
  · rfl
  · rw [Option.map_some, Nat.mul_assoc]
  · rw [Option.map_some, Nat.mul_assoc, Nat.mul_assoc]
  · rw [Option.map_some, Nat.mul_assoc, Nat.mul_assoc, Nat.mul_assoc]
  · rfl

section

variable (mem : List UInt8)

lemma digits_ne_zero {b : UInt8} (h : isDigit b = true) : b ≠ 0 := by
  rintro rfl
  cases h

lemma drop_digits : mem.drop (mem.takeWhile isDigit).length = mem.dropWhile isDigit := by
  nth_rewrite 2 [← mem.takeWhile_append_dropWhile (p := isDigit)]
  exact List.drop_left' rfl

/-- The digits of the token end where its unit begins. -/
lemma cstrAt_zero :
    (cstrAt mem 0).takeWhile isDigit = mem.takeWhile isDigit ∧
      (cstrAt mem 0).dropWhile isDigit = cstrAt mem (mem.takeWhile isDigit).length := by
  have hnul : ∀ b ∈ mem.takeWhile isDigit, decide (b ≠ 0) = true := by
    intro b hb
    exact decide_eq_true (digits_ne_zero (List.mem_takeWhile_imp hb))
  have htext : cstrAt mem 0
      = mem.takeWhile isDigit ++ cstrAt mem (mem.takeWhile isDigit).length := by
    rw [cstrAt, cstrAt, List.drop_zero, drop_digits, ← List.takeWhile_append_of_pos hnul,
      List.takeWhile_append_dropWhile]
  have hhead : (cstrAt mem 0).takeWhile isDigit = mem.takeWhile isDigit := by
    rw [cstrAt, List.drop_zero, List.takeWhile_takeWhile]
    refine congrArg (List.takeWhile · mem) (funext fun b => ?_)
    by_cases hb : isDigit b = true
    · simp [hb, digits_ne_zero hb]
    · simp [hb]
  have hsplit := (cstrAt mem 0).takeWhile_append_dropWhile (p := isDigit)
  rw [hhead] at hsplit
  exact ⟨hhead, List.append_cancel_left (hsplit.trans htext)⟩

/-- In front of the cut stands the number, and the cut is undone. -/
lemma cutTime_append {digits : List UInt8} (h : ∀ b ∈ digits, isDigit b = true) (chr : UInt8)
    (rest : List UInt8) (factor : Nat) :
    cutTime (digits ++ chr :: rest) digits.length chr factor
      = (atoll digits * factor % 2 ^ 64, digits ++ chr :: rest) := by
  have hset : ∀ c c' : UInt8, (digits ++ c :: rest).set digits.length c' = digits ++ c' :: rest := by
    intro c c'
    rw [List.set_append_right _ _ (le_refl _), Nat.sub_self, List.set_cons_zero]
  have hnul : ∀ b ∈ digits, decide (b ≠ 0) = true :=
    fun b hb => decide_eq_true (digits_ne_zero (h b hb))
  have hcut : cstrAt (digits ++ 0 :: rest) 0 = digits := by
    rw [cstrAt, List.drop_zero, List.takeWhile_append_of_pos hnul, List.takeWhile_cons]
    simp
  rw [cutTime, hset, hset, hcut]

/-- The token at a unit that is not empty. -/
lemma cutTime_eq (chr : UInt8) (factor : Nat)
    (h : (cstrAt mem (mem.takeWhile isDigit).length).head? = some chr) :
    cutTime mem (mem.takeWhile isDigit).length chr factor
      = (atoll (cstrAt mem 0) * factor % 2 ^ 64, mem) := by
  have hdigits : ∀ b ∈ mem.takeWhile isDigit, isDigit b = true :=
    fun b hb => List.mem_takeWhile_imp hb
  rw [cstrAt, drop_digits] at h
  obtain ⟨rest, hrest⟩ : ∃ rest, mem.dropWhile isDigit = chr :: rest := by
    cases hdrop : mem.dropWhile isDigit with
    | nil =>
      rw [hdrop] at h
      cases h
    | cons c rest =>
      rw [hdrop, List.takeWhile_cons] at h
      split_ifs at h
      · cases h
        exact ⟨rest, rfl⟩
      · cases h
  have hmem : mem = mem.takeWhile isDigit ++ chr :: rest := by
    rw [← hrest, List.takeWhile_append_dropWhile]
  have hcut := cutTime_append hdigits chr rest factor
  have hself : (mem.takeWhile isDigit).takeWhile isDigit = mem.takeWhile isDigit :=
    List.takeWhile_eq_self_iff.mpr hdigits
  rw [← hmem] at hcut
  rw [hcut, atoll_eq, atoll_eq, hself, (cstrAt_zero mem).1]

/-- The function that only reads the text says what is stored. -/
lemma fsModTimerParseTimeAt_eq (ret : Nat) :
    fsModTimerParseTimeAt mem ret
      = (fsModTimerParseTime (cstrAt mem 0)).elim (.error, ret, mem) fun n => (.ok, n, mem) := by
  have hlt := atoll_lt (cstrAt mem 0)
  have hone : atoll (cstrAt mem 0) * 1 % 2 ^ 64 = atoll (cstrAt mem 0) := by omega
  rw [fsModTimerParseTime_eq, (cstrAt_zero mem).2, fsModTimerParseTimeAt, unitMillis]
  split_ifs with h₁ h₂ h₃ h₄ h₅ h₆
  · rw [Option.map_some, Option.elim_some, hone]
  · rw [cutTime_eq mem 109 1 (by rw [h₂]; rfl)]
    rfl
  · rw [cutTime_eq mem 115 1000 (by rw [h₃]; rfl)]
    rfl
  · rw [cutTime_eq mem 109 (1000 * 60) (by rw [h₄]; rfl)]
    rfl
  · rw [cutTime_eq mem 104 (1000 * 60 * 60) (by rw [h₅]; rfl)]
    rfl
  · rw [cutTime_eq mem 100 (1000 * 60 * 60 * 24) (by rw [h₆]; rfl)]
    rfl
  · rfl

end

/-- A token is read exactly when what follows its digits is no unit at all, or it has a digit and
the number of milliseconds fits a `long long`. -/
theorem exactTime_iff (mem : List UInt8) (ret : Nat) :
    ExactTime mem ret (fsModTimerParseTimeAt mem ret) ↔
      ∀ k, unitMillis ((cstrAt mem 0).dropWhile isDigit) = some k →
        (cstrAt mem 0).takeWhile isDigit ≠ [] ∧
          decimal ((cstrAt mem 0).takeWhile isDigit) * k < 2 ^ 63 := by
  rw [fsModTimerParseTimeAt_eq, fsModTimerParseTime_eq]
  cases hunit : unitMillis ((cstrAt mem 0).dropWhile isDigit) with
  | none =>
    have hno : ¬ ∃ n, IsTime (cstrAt mem 0) n := by
      rintro ⟨n, hn⟩
      obtain ⟨-, -, k, hk, -⟩ := isTime_iff.mp hn
      rw [hunit] at hk
      cases hk
    refine iff_of_true ⟨iff_of_false nofun hno, fun n hn => absurd ⟨n, hn⟩ hno, fun _ => rfl, rfl⟩ ?_
    intro k hk
    cases hk
  | some k =>
    constructor
    · intro h k' hk'
      cases hk'
      obtain ⟨n, hn⟩ := h.ok_iff.mp rfl
      obtain ⟨hne, hfits, k', hk', rfl⟩ := isTime_iff.mp hn
      rw [hunit] at hk'
      cases hk'
      exact ⟨hne, hfits⟩
    · intro h
      obtain ⟨hne, hfits⟩ := h k rfl
      have htime : IsTime (cstrAt mem 0) (decimal ((cstrAt mem 0).takeWhile isDigit) * k) :=
        isTime_iff.mpr ⟨hne, hfits, k, hunit, rfl⟩
      have hvalue : atoll (cstrAt mem 0) * k % 2 ^ 64
          = decimal ((cstrAt mem 0).takeWhile isDigit) * k := by
        have hle := Nat.le_mul_of_pos_right (decimal ((cstrAt mem 0).takeWhile isDigit))
          (unitMillis_pos hunit)
        rw [atoll_eq, min_eq_left (by omega), Nat.mod_eq_of_lt (by omega)]
      refine ⟨iff_of_true rfl ⟨_, htime⟩, fun n hn => ?_, fun hno => absurd ⟨_, htime⟩ hno, rfl⟩
      obtain ⟨-, -, k', hk', rfl⟩ := isTime_iff.mp hn
      rw [hunit] at hk'
      cases hk'
      exact hvalue

/-- A unit alone is read as a time of zero milliseconds. -/
theorem not_exactTime :
    ¬ ∀ (mem : List UInt8) (ret : Nat), ExactTime mem ret (fsModTimerParseTimeAt mem ret) := by
  intro h
  obtain ⟨n, hn⟩ := (h (bytes "ms") 0).ok_iff.mp (by decide)
  exact (isTime_iff.mp hn).1 (by decide)

end Folksong
