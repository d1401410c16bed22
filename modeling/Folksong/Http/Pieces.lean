import Folksong.Mod.Http

/-!
# The pieces of a template (`fs_var.c`)

`fs_var_parse` keeps a pointer to the piece it is writing, and the pieces lie in an array that is
moved when it grows. Here the pointer and the array are those of the code; the parse computes what
`fsVarParse` does on a list, which is then shown to cut the input without losing a byte.
-/

namespace Folksong

/-- The local variables of `fs_var_parse`, and the array. -/
structure VarLocals where
  isVariable : Bool
  token : Option Slot
  arr : FsArr Piece

/-- How the parse ends. -/
inductive VarResult where
  | ok (arr : FsArr Piece)
  | error (arr : FsArr Piece)
  | undefined

/-- `fs_var_new_token`: an empty piece with room for `len` bytes. -/
def fsVarNewToken (len : Nat) (s : VarLocals) : VarLocals :=
  { s with token := some s.arr.slot, arr := s.arr.push ⟨len, []⟩ }

/-- Store a byte and a NUL behind it through the pointer; nothing where the pointer is null, does
not point into the array any more, or the bytes do not fit. -/
def VarLocals.store (s : VarLocals) (chr : UInt8) : Option VarLocals :=
  match s.token with
  | none => none
  | some slot =>
    if slot.gen = s.arr.gen then
      match s.arr.nth slot.idx with
      | none => none
      | some piece =>
        if piece.text.length + 1 < piece.alloc then
          some { s with arr := s.arr.write slot.idx ⟨piece.alloc, piece.text ++ [chr]⟩ }
        else none
    else none

/-- The end of the loop's body: a piece is opened if need be. -/
def VarLocals.append (len : Nat) (s : VarLocals) (chr : UInt8) : Option VarLocals :=
  (if s.token.isNone then fsVarNewToken len s else s).store chr

/-- One turn of the loop: `some none` is `FS_VAR_ERROR`. -/
def varTurn (len : Nat) (s : VarLocals) (chr : UInt8) : Option (Option VarLocals) :=
  if chr == fsChrDOLLAR then
    ((fsVarNewToken len { s with isVariable := true }).append len chr).map some
  else if chr == fsChrLCBRACK then
    if s.isVariable then (s.append len chr).map some else some none
  else if chr == fsChrRCBRACK then
    if s.isVariable then
      (VarLocals.store { s with isVariable := false } chr).map fun s => some { s with token := none }
    else some none
  else (s.append len chr).map some

def varLoop (len : Nat) : VarLocals → List UInt8 → VarResult
  | s, [] => .ok s.arr
  | s, chr :: rest =>
    match varTurn len s chr with
    | none => .undefined
    | some none => .error s.arr
    | some (some s) => varLoop len s rest

/-- `fs_var_parse` on the bytes of a string. -/
def fsVarParseArr (arr : FsArr Piece) (input : List UInt8) : VarResult :=
  varLoop (input.length + 1) ⟨false, none, arr⟩ input

/-! ### The array holds the pieces -/

/-- The pointer is null, or points to the piece that was pushed last and is open. -/
structure VarLocals.Tracks (s : VarLocals) (t : VarState) : Prop where
  isVariable : s.isVariable = t.isVariable
  contents : s.arr.contents = t.pieces.map some
  closed : s.token = none → t.opened = false ∧ t.isVariable = false
  opened : ∀ slot, s.token = some slot → t.opened = true ∧ slot.gen = s.arr.gen ∧
    ∃ ps p, t.pieces = ps ++ [p] ∧ slot.idx = ps.length

/-- The piece that is open has room for what is still to come. -/
def VarState.Room (len rest : Nat) (t : VarState) : Prop :=
  t.opened → ∀ p ∈ t.pieces.getLast?, p.alloc = len ∧ p.text.length + rest < len

section

variable {s : VarLocals} {t : VarState} {size n : Nat} {chr : UInt8}

/-- The byte goes to the end of the last piece. -/
lemma VarLocals.Tracks.store (h : s.Tracks t) (hroom : t.Room (size + 1) (n + 1)) {slot : Slot}
    (hslot : s.token = some slot) (chr : UInt8) :
    ∃ s', s.store chr = some s' ∧ s'.token = some slot ∧ s'.Tracks (t.put size chr) ∧
      (t.put size chr).Room (size + 1) n := by
  obtain ⟨hopened, hgen, ps, p, hpieces, hidx⟩ := h.opened slot hslot
  have hcontents : s.arr.contents = (ps ++ [p]).map some := by rw [h.contents, hpieces]
  have hnth : s.arr.nth slot.idx = some p := by
    apply FsArr.nth_of_contents
    simp [hcontents, hidx]
  obtain ⟨halloc, hlen⟩ := hroom hopened p (by simp [hpieces])
  have hput : t.put size chr
      = ⟨t.isVariable, true, ps ++ [⟨p.alloc, p.text ++ [chr]⟩]⟩ := by
    rw [VarState.put, if_pos hopened, hpieces]
    simp [hopened]
  refine ⟨{ s with arr := s.arr.write slot.idx ⟨p.alloc, p.text ++ [chr]⟩ }, ?_, hslot, ?_, ?_⟩
  · rw [VarLocals.store, hslot]
    simp only [hgen, if_true, hnth]
    rw [if_pos (by omega)]
  · rw [hput]
    refine ⟨h.isVariable, ?_, ?_, ?_⟩
    · rw [FsArr.write_contents, hcontents, hidx]
      simp
    · intro hnone
      rw [hslot] at hnone
      cases hnone
    · intro slot' hslot'
      rw [hslot, Option.some.injEq] at hslot'
      subst hslot'
      exact ⟨rfl, hgen, ps, _, rfl, hidx⟩
  · rw [hput]
    intro _ q hq
    simp only [List.getLast?_append, List.getLast?_singleton, Option.some_or, Option.mem_def,
      Option.some.injEq] at hq
    subst hq
    refine ⟨halloc, ?_⟩
    rw [List.length_append, List.length_singleton]
    omega

/-- A new piece, open and empty. -/
def VarState.fresh (size : Nat) (t : VarState) : VarState :=
  { t with opened := true, pieces := t.pieces ++ [⟨size + 1, []⟩] }

lemma tracks_newToken (hvar : s.isVariable = t.isVariable)
    (hcontents : s.arr.contents = t.pieces.map some) :
    (fsVarNewToken (size + 1) s).Tracks (t.fresh size) := by
  refine ⟨hvar, ?_, ?_, ?_⟩
  · rw [fsVarNewToken, FsArr.push_contents, hcontents, VarState.fresh, List.map_append]
    rfl
  · intro hnone
    cases hnone
  · intro slot hslot
    rw [fsVarNewToken, Option.some.injEq] at hslot
    subst hslot
    exact ⟨rfl, rfl, t.pieces, _, rfl, FsArr.eleCount_of_contents hcontents⟩

lemma fresh_room (hn : n ≤ size) : (t.fresh size).Room (size + 1) n := by
  intro _ p hp
  simp only [VarState.fresh, List.getLast?_append, List.getLast?_singleton, Option.some_or,
    Option.mem_def, Option.some.injEq] at hp
  subst hp
  exact ⟨rfl, by simpa using Nat.lt_succ_of_le hn⟩

/-- On the list, opening a piece and storing the byte is one step. -/
lemma fresh_put (h : t.opened = false) : (t.fresh size).put size chr = t.put size chr := by
  simp [VarState.fresh, VarState.put, h]

lemma put_isVariable (b : Bool) :
    VarState.put size { t with isVariable := b } chr
      = { t.put size chr with isVariable := b } := by
  rw [VarState.put, VarState.put]
  split_ifs
  · cases t.pieces.getLast? <;> rfl
  · rfl

/-- A byte is stored in a new piece. -/
lemma append_newToken (hvar : s.isVariable = t.isVariable)
    (hcontents : s.arr.contents = t.pieces.map some) (hclosed : t.opened = false)
    (hn : n + 1 ≤ size) (chr : UInt8) :
    ∃ s', (fsVarNewToken (size + 1) s).store chr = some s' ∧ s'.Tracks (t.put size chr) ∧
      (t.put size chr).Room (size + 1) n := by
  obtain ⟨s', hs', -, h', hroom'⟩ := (tracks_newToken hvar hcontents).store (fresh_room hn) rfl chr
  rw [fresh_put hclosed] at h' hroom'
  exact ⟨s', hs', h', hroom'⟩

/-- A byte is appended, to a new piece if need be. -/
lemma VarLocals.Tracks.append (h : s.Tracks t) (hroom : t.Room (size + 1) (n + 1))
    (hn : n + 1 ≤ size) (chr : UInt8) :
    ∃ s', s.append (size + 1) chr = some s' ∧ s'.Tracks (t.put size chr) ∧
      (t.put size chr).Room (size + 1) n := by
  cases htoken : s.token with
  | none =>
    rw [VarLocals.append, htoken]
    exact append_newToken h.isVariable h.contents (h.closed htoken).1 hn chr
  | some slot =>
    obtain ⟨s', hs', -, h', hroom'⟩ := h.store hroom htoken chr
    refine ⟨s', ?_, h', hroom'⟩
    rw [VarLocals.append, htoken]
    exact hs'

/-- What one turn does to the list it does to the array. -/
lemma VarLocals.Tracks.turn (h : s.Tracks t) (hroom : t.Room (size + 1) (n + 1))
    (hn : n + 1 ≤ size) (chr : UInt8) :
    match varByte size t chr with
    | none => varTurn (size + 1) s chr = some none
    | some t' => ∃ s', varTurn (size + 1) s chr = some (some s') ∧ s'.Tracks t' ∧
        t'.Room (size + 1) n := by
  rw [varByte, varTurn]
  by_cases hdollar : chr == fsChrDOLLAR
  · -- a new piece is opened whether or not there is an open one
    rw [if_pos hdollar, if_pos hdollar]
    obtain ⟨s', hs', h', hroom'⟩ := append_newToken (s := { s with isVariable := true })
      (t := { t with isVariable := true, opened := false }) rfl h.contents rfl hn chr
    refine ⟨s', ?_, h', hroom'⟩
    have htoken : (fsVarNewToken (size + 1) { s with isVariable := true }).token.isNone = false :=
      rfl
    rw [VarLocals.append, htoken, if_neg Bool.false_ne_true, hs', Option.map_some]
  · rw [if_neg hdollar, if_neg hdollar]
    by_cases hopen : chr == fsChrLCBRACK
    · rw [if_pos hopen, if_pos hopen, h.isVariable]
      split_ifs
      · obtain ⟨s', hs', h', hroom'⟩ := h.append hroom hn chr
        exact ⟨s', by rw [hs']; rfl, h', hroom'⟩
      · rfl
    · rw [if_neg hopen, if_neg hopen]
      by_cases hclose : chr == fsChrRCBRACK
      · rw [if_pos hclose, if_pos hclose, h.isVariable]
        split_ifs with hvar
        · cases htoken : s.token with
          | none =>
            rw [(h.closed htoken).2] at hvar
            cases hvar
          | some slot =>
            have h₁ : VarLocals.Tracks { s with isVariable := false }
                { t with isVariable := false } :=
              ⟨rfl, h.contents, fun hnone => ⟨(h.closed hnone).1, rfl⟩, h.opened⟩
            obtain ⟨s', hs', -, h', hroom'⟩ := h₁.store hroom htoken chr
            rw [put_isVariable] at h' hroom'
            refine ⟨{ s' with token := none }, ?_, ?_, ?_⟩
            · rw [htoken] at hs'
              rw [hs', Option.map_some]
            · exact ⟨h'.isVariable, h'.contents, fun _ => ⟨rfl, rfl⟩, fun slot hslot => by cases hslot⟩
            · intro hopened
              cases hopened
        · rfl
      · rw [if_neg hclose, if_neg hclose]
        obtain ⟨s', hs', h', hroom'⟩ := h.append hroom hn chr
        exact ⟨s', by rw [hs']; rfl, h', hroom'⟩

/-- The parse on the array and the parse on the list. -/
lemma varLoop_eq {input : List UInt8} (h : s.Tracks t) (hroom : t.Room (size + 1) input.length)
    (hn : input.length ≤ size) :
    ∃ arr, arr.contents = (fsVarParse size t input).2.map some ∧
      varLoop (size + 1) s input
        = if (fsVarParse size t input).1 then .ok arr else .error arr := by
  induction input generalizing s t with
  | nil => exact ⟨s.arr, h.contents, rfl⟩
  | cons chr rest ih =>
    have hturn := h.turn hroom hn chr
    rw [fsVarParse, varLoop]
    cases hbyte : varByte size t chr with
    | none =>
      simp only [hbyte] at hturn
      rw [hturn]
      exact ⟨s.arr, h.contents, rfl⟩
    | some t' =>
      simp only [hbyte] at hturn
      obtain ⟨s', hs', h', hroom'⟩ := hturn
      rw [hs']
      exact ih h' hroom' (Nat.le_of_succ_le hn)

/-- Every store of the parse is inside a piece, and the array holds what the list does. -/
lemma fsVarParseArr_eq {arr : FsArr Piece} {ps : List Piece} (h : arr.contents = ps.map some)
    (input : List UInt8) :
    ∃ arr', arr'.contents = (fsVarParse input.length ⟨false, false, ps⟩ input).2.map some ∧
      fsVarParseArr arr input
        = if (fsVarParse input.length ⟨false, false, ps⟩ input).1 then .ok arr' else .error arr' := by
  apply varLoop_eq
  · exact ⟨rfl, h, fun _ => ⟨rfl, rfl⟩, fun slot hslot => by cases hslot⟩
  · intro hopened
    cases hopened
  · exact le_refl _

end

/-! ### What the pieces cover -/

/-- None of the bytes means anything to `fs_var_parse`. -/
def IsLiteral (text : List UInt8) : Prop :=
  ∀ c ∈ text, c ≠ fsChrDOLLAR ∧ c ≠ fsChrLCBRACK ∧ c ≠ fsChrRCBRACK

/-- A dollar in front, and a closing brace at the end at most. -/
def IsReference (text : List UInt8) : Prop :=
  ∃ rest, text = fsChrDOLLAR :: rest ∧ fsChrDOLLAR ∉ rest ∧ fsChrRCBRACK ∉ rest.dropLast

/-- A reference that has not been closed. -/
def IsOpening (text : List UInt8) : Prop :=
  ∃ rest, text = fsChrDOLLAR :: rest ∧ fsChrDOLLAR ∉ rest ∧ fsChrRCBRACK ∉ rest

/-- The pieces make up the input, each is a literal or begins with a reference, and no two
literals stand next to each other. -/
structure Covers (size : Nat) (ps : List Piece) (input : List UInt8) : Prop where
  joined : (ps.map Piece.text).flatten = input
  nonempty : ∀ p ∈ ps, p.text ≠ []
  shape : ∀ p ∈ ps, IsLiteral p.text ∨ IsReference p.text
  apart : ps.IsChain fun p q => ¬ (IsLiteral p.text ∧ IsLiteral q.text)
  alloc : ∀ p ∈ ps, p.alloc = size + 1

/-- Between two bytes: what has been read is covered, and the piece that is open is of the kind the
flag says. -/
structure VarState.Inv (size : Nat) (t : VarState) (input : List UInt8) : Prop where
  covers : Covers size t.pieces input
  closed : t.opened = false → t.isVariable = false ∧ ∀ p ∈ t.pieces.getLast?, ¬ IsLiteral p.text
  opened : t.opened = true → ∃ ps p, t.pieces = ps ++ [p] ∧
    if t.isVariable then IsOpening p.text else IsLiteral p.text

section

variable {size : Nat} {ps : List Piece} {p : Piece} {input text : List UInt8} {chr : UInt8}
  {t t' : VarState}

lemma IsOpening.isReference (h : IsOpening text) : IsReference text := by
  obtain ⟨rest, rfl, hdollar, hclose⟩ := h
  exact ⟨rest, rfl, hdollar, fun hmem => hclose (List.mem_of_mem_dropLast hmem)⟩

lemma IsReference.not_isLiteral (h : IsReference text) : ¬ IsLiteral text := by
  obtain ⟨rest, rfl, -⟩ := h
  intro hlit
  exact (hlit _ (List.mem_cons_self ..)).1 rfl

lemma IsOpening.snoc (h : IsOpening text) (hdollar : chr ≠ fsChrDOLLAR)
    (hclose : chr ≠ fsChrRCBRACK) : IsOpening (text ++ [chr]) := by
  obtain ⟨rest, rfl, h₁, h₂⟩ := h
  refine ⟨rest ++ [chr], rfl, ?_, ?_⟩
  · simp [h₁, hdollar.symm]
  · simp [h₂, hclose.symm]

lemma IsOpening.close (h : IsOpening text) : IsReference (text ++ [fsChrRCBRACK]) := by
  obtain ⟨rest, rfl, h₁, h₂⟩ := h
  refine ⟨rest ++ [fsChrRCBRACK], rfl, ?_, ?_⟩
  · simpa [h₁] using by decide
  · rwa [List.dropLast_concat]

lemma isLiteral_snoc : IsLiteral (text ++ [chr]) ↔ IsLiteral text ∧ IsLiteral [chr] := by
  rw [IsLiteral, List.forall_mem_append]
  rfl

/-- A piece of one byte is added. -/
lemma Covers.new (h : Covers size ps input) (hshape : IsLiteral [chr] ∨ IsReference [chr])
    (hlast : ∀ p ∈ ps.getLast?, ¬ (IsLiteral p.text ∧ IsLiteral [chr])) :
    Covers size (ps ++ [⟨size + 1, [chr]⟩]) (input ++ [chr]) := by
  constructor
  · rw [List.map_append, List.flatten_append, h.joined]
    simp
  · simpa [or_imp, forall_and] using h.nonempty
  · intro q hq
    rw [List.mem_append, List.mem_singleton] at hq
    rcases hq with hq | rfl
    · exact h.shape q hq
    · exact hshape
  · rw [List.isChain_append]
    refine ⟨h.apart, .singleton _, ?_⟩
    intro q hq r hr
    rw [List.head?_cons, Option.mem_def, Option.some.injEq] at hr
    subst hr
    exact hlast q hq
  · simpa [or_imp, forall_and] using h.alloc

/-- A byte is added to the last piece. -/
lemma Covers.extend (h : Covers size (ps ++ [p]) input)
    (hshape : IsLiteral (p.text ++ [chr]) ∨ IsReference (p.text ++ [chr])) :
    Covers size (ps ++ [⟨p.alloc, p.text ++ [chr]⟩]) (input ++ [chr]) := by
  constructor
  · rw [← h.joined]
    simp
  · intro q hq
    rw [List.mem_append, List.mem_singleton] at hq
    rcases hq with hq | rfl
    · exact h.nonempty q (List.mem_append_left _ hq)
    · simp
  · intro q hq
    rw [List.mem_append, List.mem_singleton] at hq
    rcases hq with hq | rfl
    · exact h.shape q (List.mem_append_left _ hq)
    · exact hshape
  · have happart := h.apart
    rw [List.isChain_append] at happart ⊢
    refine ⟨happart.1, .singleton _, ?_⟩
    intro q hq r hr
    rw [List.head?_cons, Option.mem_def, Option.some.injEq] at hr
    subst hr
    rintro ⟨hq', hr'⟩
    exact happart.2.2 q hq p rfl ⟨hq', (isLiteral_snoc.mp hr').1⟩
  · intro q hq
    rw [List.mem_append, List.mem_singleton] at hq
    rcases hq with hq | rfl
    · exact h.alloc q (List.mem_append_left _ hq)
    · exact h.alloc p (by simp)

lemma put_closed (h : t.opened = false) :
    t.put size chr = ⟨t.isVariable, true, t.pieces ++ [⟨size + 1, [chr]⟩]⟩ := by
  simp [VarState.put, h]

lemma put_opened (h : t.opened = true) (hps : t.pieces = ps ++ [p]) :
    t.put size chr = ⟨t.isVariable, true, ps ++ [⟨p.alloc, p.text ++ [chr]⟩]⟩ := by
  simp [VarState.put, h, hps]

namespace VarState.Inv

/-- A dollar opens a piece, also inside a reference. -/
lemma dollar (h : t.Inv size input) :
    (VarState.put size { t with isVariable := true, opened := false } fsChrDOLLAR).Inv size
      (input ++ [fsChrDOLLAR]) := by
  have hopening : IsOpening [fsChrDOLLAR] := ⟨[], rfl, by simp, by simp⟩
  rw [put_closed rfl]
  constructor
  · refine h.covers.new (.inr hopening.isReference) fun p _ hp => ?_
    exact hopening.isReference.not_isLiteral hp.2
  · intro hclosed
    cases hclosed
  · intro _
    exact ⟨t.pieces, _, rfl, hopening⟩

/-- Any other byte goes on with the open piece, or begins a literal. -/
lemma inside (h : t.Inv size input) (hdollar : chr ≠ fsChrDOLLAR) (hclose : chr ≠ fsChrRCBRACK)
    (hbrace : chr = fsChrLCBRACK → t.isVariable = true) :
    (t.put size chr).Inv size (input ++ [chr]) := by
  have hlit : t.isVariable = false → IsLiteral [chr] := by
    intro hvar c hc
    rw [List.mem_singleton] at hc
    subst hc
    refine ⟨hdollar, ?_, hclose⟩
    rintro rfl
    rw [hbrace rfl] at hvar
    cases hvar
  cases hopened : t.opened with
  | false =>
    obtain ⟨hvar, hlast⟩ := h.closed hopened
    rw [put_closed hopened, hvar]
    constructor
    · exact h.covers.new (.inl (hlit hvar)) fun p hp hpq => hlast p hp hpq.1
    · intro hclosed
      cases hclosed
    · intro _
      exact ⟨t.pieces, _, rfl, hlit hvar⟩
  | true =>
    obtain ⟨ps, p, hps, hp⟩ := h.opened hopened
    have hcovers := h.covers
    rw [hps] at hcovers
    rw [put_opened hopened hps]
    have hp' : if t.isVariable then IsOpening (p.text ++ [chr])
        else IsLiteral (p.text ++ [chr]) := by
      cases hvar : t.isVariable with
      | true =>
        rw [hvar, if_pos rfl] at hp
        rw [if_pos rfl]
        exact hp.snoc hdollar hclose
      | false =>
        rw [hvar, if_neg Bool.false_ne_true] at hp
        rw [if_neg Bool.false_ne_true]
        exact isLiteral_snoc.mpr ⟨hp, hlit hvar⟩
    constructor
    · apply hcovers.extend
      split_ifs at hp'
      · exact .inr hp'.isReference
      · exact .inl hp'
    · intro hclosed
      cases hclosed
    · intro _
      exact ⟨ps, _, rfl, hp'⟩

/-- A closing brace ends the reference. -/
lemma close (h : t.Inv size input) (hvar : t.isVariable = true) :
    VarState.Inv size { t.put size fsChrRCBRACK with isVariable := false, opened := false }
      (input ++ [fsChrRCBRACK]) := by
  have hopened : t.opened = true := by
    by_contra hclosed
    rw [(h.closed (Bool.not_eq_true _ ▸ hclosed)).1] at hvar
    cases hvar
  obtain ⟨ps, p, hps, hp⟩ := h.opened hopened
  rw [hvar, if_pos rfl] at hp
  have hcovers := h.covers
  rw [hps] at hcovers
  rw [put_opened hopened hps]
  constructor
  · exact hcovers.extend (.inr hp.close)
  · intro _
    refine ⟨rfl, ?_⟩
    intro q hq
    simp only [List.getLast?_append, List.getLast?_singleton, Option.some_or, Option.mem_def,
      Option.some.injEq] at hq
    subst hq
    exact hp.close.not_isLiteral
  · intro hopened
    cases hopened

/-- What every byte keeps. -/
lemma byte (h : t.Inv size input) (hbyte : varByte size t chr = some t') :
    t'.Inv size (input ++ [chr]) := by
  rw [varByte] at hbyte
  simp only [beq_iff_eq] at hbyte
  split_ifs at hbyte with hdollar hbrace hvar hclose hvar
  · cases hbyte
    subst hdollar
    exact h.dollar
  · cases hbyte
    exact h.inside hdollar (by simp [hbrace]; decide) fun _ => hvar
  · cases hbyte
    subst hclose
    exact h.close hvar
  · cases hbyte
    exact h.inside hdollar hclose fun heq => absurd heq hbrace

/-- What a parse that succeeds leaves. -/
lemma parse (h : t.Inv size input) {rest : List UInt8}
    (hok : (fsVarParse size t rest).1 = true) :
    Covers size (fsVarParse size t rest).2 (input ++ rest) := by
  induction rest generalizing t input with
  | nil =>
    rw [List.append_nil]
    exact h.covers
  | cons chr rest ih =>
    rw [fsVarParse] at hok ⊢
    cases hbyte : varByte size t chr with
    | none =>
      rw [hbyte] at hok
      cases hok
    | some t' =>
      rw [hbyte] at hok
      rw [List.append_cons]
      exact ih (h.byte hbyte) hok

end VarState.Inv

lemma inv_empty (size : Nat) : VarState.Inv size ⟨false, false, []⟩ [] := by
  refine ⟨⟨rfl, by simp, by simp, .nil, by simp⟩, ?_, ?_⟩
  · intro _
    exact ⟨rfl, by simp⟩
  · intro hopened
    cases hopened

lemma covers_of_fsVarParse (h : (fsVarParse size ⟨false, false, []⟩ input).1 = true) :
    Covers size (fsVarParse size ⟨false, false, []⟩ input).2 input :=
  (inv_empty size).parse h

end

/-- Splitting a template is lossless: every parse has a defined end, so that no store leaves its
piece, and where it succeeds on an empty array the pieces are those of the input, each with room
for the NUL behind it. -/
theorem fsVarParseArr_lossless {arr : FsArr Piece} (hempty : arr.eleCount = 0) (input : List UInt8) :
    fsVarParseArr arr input ≠ .undefined ∧
      ∀ arr', fsVarParseArr arr input = .ok arr' → ∃ ps : List Piece,
        arr'.contents = ps.map some ∧
        (ps.map Piece.text).flatten = input ∧
        (∀ p ∈ ps, p.text ≠ [] ∧ (IsLiteral p.text ∨ IsReference p.text) ∧
          p.text.length + 1 ≤ p.alloc) ∧
        ps.IsChain fun p q => ¬ (IsLiteral p.text ∧ IsLiteral q.text) := by
  have hcontents : arr.contents = ([] : List Piece).map some := by
    rw [List.map_nil, ← List.length_eq_zero_iff, FsArr.contents_length]
    exact hempty
  obtain ⟨arr₁, harr₁, heq⟩ := fsVarParseArr_eq hcontents input
  rw [heq]
  split_ifs with hok
  · refine ⟨by simp, ?_⟩
    intro arr' harr'
    obtain rfl := VarResult.ok.inj harr'
    have hcovers := covers_of_fsVarParse hok
    refine ⟨_, harr₁, hcovers.joined, ?_, hcovers.apart⟩
    intro p hp
    refine ⟨hcovers.nonempty p hp, hcovers.shape p hp, ?_⟩
    have hle : p.text.length ≤ input.length := by
      rw [← hcovers.joined]
      exact (List.sublist_flatten_of_mem (List.mem_map_of_mem hp)).length_le
    rw [hcovers.alloc p hp]
    omega
  · exact ⟨by simp, fun arr' harr' => by cases harr'⟩

/-- A literal, a reference and another literal, for which the array has to grow. -/
theorem fsVarParseArr_lossless_sample :
    ∃ arr', fsVarParseArr (fsAllocArr Piece 2 Nat.two_pos) (bytes "/a${b}c") = .ok arr' ∧
      ∃ ps : List Piece, arr'.contents = ps.map some ∧
        (ps.map Piece.text).flatten = bytes "/a${b}c" ∧
        (∀ p ∈ ps, p.text ≠ [] ∧ (IsLiteral p.text ∨ IsReference p.text) ∧
          p.text.length + 1 ≤ p.alloc) ∧
        ps.IsChain fun p q => ¬ (IsLiteral p.text ∧ IsLiteral q.text) := by
  cases h : fsVarParseArr (fsAllocArr Piece 2 Nat.two_pos) (bytes "/a${b}c") with
  | ok arr' => exact ⟨arr', rfl, (fsVarParseArr_lossless rfl _).2 arr' h⟩
  | error => cases h
  | undefined => cases h

end Folksong
