import Folksong.Conf.Words

/-!
# Reading through the refilled buffer

A refill stores the next bytes of the file at the front of the buffer, also where a word is
still open: `token_start` is not moved and the bytes already read are overwritten. A word is
therefore taken whole exactly when it is opened and ended in the same load of the buffer.
-/

namespace Folksong

/-- The word is opened and ended in one load of the buffer. -/
def Word.InOneLoad (w : Word) : Prop :=
  w.opened / fsConfPayloadBufferSize = w.stop / fsConfPayloadBufferSize

instance (w : Word) : Decidable w.InOneLoad := inferInstanceAs (Decidable (_ = _))

lemma loadBase_eq_iff {g g' : Nat} :
    loadBase g = loadBase g' ↔ g / fsConfPayloadBufferSize = g' / fsConfPayloadBufferSize :=
  Nat.mul_left_inj (by decide)

lemma loadBase_mono {g g' : Nat} (h : g ≤ g') : loadBase g ≤ loadBase g' :=
  Nat.mul_le_mul_right _ (Nat.div_le_div_right h)

/-- A word within one load is taken as from one buffer; of any other word the scanner takes too
few bytes, or none at all. -/
lemma bufToken_loadBase_iff {text : List UInt8} {w : Word} (hw : w.In text) :
    bufToken loadBase text w = some (wordToken text w) ↔ w.InOneLoad := by
  obtain ⟨-, -, -, -, -, hopen, -⟩ := hw
  have hstop : w.start ≤ w.stop := Nat.le_add_right _ _
  have hmono := loadBase_mono (hopen.trans hstop)
  have hlo := loadBase_le w.opened
  have hls := loadBase_le w.stop
  have hraw : w.stop = w.start + w.raw.length := rfl
  rw [Word.InOneLoad, ← loadBase_eq_iff]
  constructor
  · intro h
    simp only [bufToken, takeToken] at h
    split_ifs at h with hle
    have hsize := congrArg FsStr.size (Option.some.inj h)
    simp only [wordToken] at hsize
    omega
  · intro h
    have hdrop : (text.drop (loadBase w.stop)).drop (w.start - loadBase w.opened)
        = text.drop w.start := by
      rw [List.drop_drop, show loadBase w.stop + (w.start - loadBase w.opened) = w.start by omega]
    have hlen : w.stop - loadBase w.stop - (w.start - loadBase w.opened) = w.raw.length := by
      omega
    rw [bufToken, takeToken, if_pos (by omega), hdrop, hlen]
    rfl

/-- What the scanner takes from the refilled buffer. -/
lemma readAll_opened {io : ReadOutcome} (hio : ∀ off, io off = true) (text mem : List UInt8)
    (tokens : FsArr FsStr) :
    readAll io (FsFile.opened text mem) tokens
      = replies (bufToken loadBase text) (lexRecords text).1 (lexRecords text).2 := by
  have hS := loaded_source hio text
  rw [readAll, hS.remaining (loaded_opened text mem),
    tokenize_eq_replies hS (loaded_opened text mem) tokens (by omega)]

/-- Both ways of reading agree as soon as the tokens of all words do. -/
lemma readAll_opened_iff_tokens {io : ReadOutcome} (hio : ∀ off, io off = true)
    (text mem behind : List UInt8) (tokens tokens' : FsArr FsStr) :
    readAll io (FsFile.opened text mem) tokens
        = readAll io (FsFile.ofBuf (text ++ behind) text.length) tokens'
      ↔ ∀ w ∈ lexWords text, bufToken loadBase text w = some (wordToken text w) := by
  rw [readAll_opened hio, readAll_ofBuf io (List.take_left' rfl), replies_eq_iff]
  simp only [mem_lexRecords]

/-- White space only moves on. -/
lemma reads_spaces (n m : Nat) :
    Mealy.Reads LexState.step (LexState.fresh m) (List.replicate n fsChrSPACE)
      (LexState.fresh (m + n)) [] := by
  induction n generalizing m with
  | zero => exact Mealy.Reads.nil _
  | succ n ih =>
    have h := ih (m + 1)
    rw [Nat.add_right_comm m 1 n] at h
    have hone : Mealy.Reads LexState.step (LexState.fresh m) [fsChrSPACE]
        (LexState.fresh (m + 1)) [] := Mealy.Reads.one rfl
    exact hone.append h

/-- The refilled buffer gives what one buffer with the whole text gives exactly when no word is
opened in one load and ended in another. -/
theorem readAll_opened_eq_iff {io : ReadOutcome} (hio : ∀ off, io off = true)
    (text mem behind : List UInt8) (tokens tokens' : FsArr FsStr) :
    readAll io (FsFile.opened text mem) tokens
        = readAll io (FsFile.ofBuf (text ++ behind) text.length) tokens'
      ↔ ∀ w ∈ lexWords text, w.InOneLoad := by
  rw [readAll_opened_iff_tokens hio]
  exact forall₂_congr fun w hw => bufToken_loadBase_iff (lexWords_in hw)

/-- A directive that ends with the last byte of the first load, and one in the second. -/
theorem readAll_opened_twoLoads :
    readAll (fun _ => true)
        (FsFile.opened (List.replicate 4093 fsChrSPACE ++ bytes "ab;cd;") [])
        (fsAllocArr FsStr 1 (Nat.succ_pos _))
      = readAll (fun _ => true)
        (FsFile.ofBuf (List.replicate 4093 fsChrSPACE ++ bytes "ab;cd;" ++ [0])
          (List.replicate 4093 fsChrSPACE ++ bytes "ab;cd;").length)
        (fsAllocArr FsStr 1 (Nat.succ_pos _)) := by
  refine (readAll_opened_eq_iff (fun _ => rfl) _ _ _ _ _).mpr fun w hw => ?_
  have hrun : (Mealy.run LexState.step (LexState.fresh 4093) (bytes "ab;cd;")).2
      = [.inl ⟨4093, 4093, bytes "ab"⟩, .inr .ok, .inl ⟨4096, 4096, bytes "cd"⟩, .inr .ok] := by
    decide
  rw [mem_lexWords, lexEvents, Mealy.run_append, reads_spaces 4093 0, Nat.zero_add, hrun] at hw
  have hwords : w = ⟨4093, 4093, bytes "ab"⟩ ∨ w = ⟨4096, 4096, bytes "cd"⟩ := by simpa using hw
  rcases hwords with rfl | rfl <;> decide

/-- A word that begins with the last byte of the first load is lost. -/
theorem readAll_opened_straddling :
    ¬ readAll (fun _ => true)
        (FsFile.opened (List.replicate 4095 fsChrSPACE ++ bytes "ab;") [])
        (fsAllocArr FsStr 1 (Nat.succ_pos _))
      = readAll (fun _ => true)
        (FsFile.ofBuf (List.replicate 4095 fsChrSPACE ++ bytes "ab;" ++ [0])
          (List.replicate 4095 fsChrSPACE ++ bytes "ab;").length)
        (fsAllocArr FsStr 1 (Nat.succ_pos _)) := by
  rw [readAll_opened_iff_tokens fun _ => rfl]
  intro h
  have hmem : (⟨4095, 4095, bytes "ab"⟩ : Word)
      ∈ lexWords (List.replicate 4095 fsChrSPACE ++ bytes "ab;") := by
    have hrun : (Mealy.run LexState.step (LexState.fresh 4095) (bytes "ab;")).2
        = [.inl ⟨4095, 4095, bytes "ab"⟩, .inr .ok] := by decide
    rw [mem_lexWords, lexEvents, Mealy.run_append, reads_spaces 4095 0, hrun]
    exact List.mem_cons_self
  have := (bufToken_loadBase_iff (lexWords_in hmem)).mp (h _ hmem)
  exact absurd this (by decide)

end Folksong
