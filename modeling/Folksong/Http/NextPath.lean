import Folksong.Http.Pieces

/-!
# The path of a proxied request (`http/proxy.c`)

The URL is put together piece by piece in a buffer that is reallocated for every piece. What is
kept of the buffer is the size requested last and the bytes copied into it, and every write is
recorded with that size.
-/

namespace Folksong

/-- A C string that `pcre` has allocated. -/
abbrev CText := { text : List UInt8 // (0 : UInt8) ∉ text }

/-- What `pcre` says of the pattern and of a URL: the list has the string of each group up to the
last one that took part, and no string when the match has failed, `named` is
`pcre_get_named_substring`, and `wild` is what stands in memory around the list. -/
structure Match where
  captures : Nat
  list : List CText
  named : List UInt8 → Option CText
  wild : Int → Option CText
  captures_lt : captures < 2 ^ 31
  list_le : list.length ≤ captures + 1

/-- `var_list[n]`; behind the strings stands `NULL`. -/
def Match.at (m : Match) (n : Int) : Option CText :=
  if n < 0 then m.wild n
  else match m.list[n.toNat]? with
    | some val => some val
    | none => if n = m.list.length then none else m.wild n

/-- A write, with the number of bytes requested where it goes. -/
inductive Access where
  /-- `memcpy` of `n` bytes into the URL. -/
  | copy (off n requested : Nat)
  /-- The NUL behind the URL. -/
  | nul (off requested : Nat)
  /-- `memcpy` of a name into `token[128]`. -/
  | name (n : Int)
deriving DecidableEq, Repr

/-- The URL buffer, what has been written, and the places where `var_list` has been read. -/
structure NextUrl where
  requested : Option Nat
  text : List UInt8
  nul : Bool
  accesses : List Access
  indices : List Int
deriving DecidableEq, Repr

/-- `{ NULL, 0 }`. -/
def NextUrl.empty : NextUrl := ⟨none, [], false, [], []⟩

/-- The C string at the start of the buffer, when there is a NUL. -/
def NextUrl.cstr (u : NextUrl) : Option (List UInt8) :=
  if 0 ∈ u.text ∨ u.nul then some (u.text.takeWhile (· ≠ 0)) else none

/-- A literal piece: the first one asks for a byte more than the later ones. -/
def NextUrl.putLiteral (u : NextUrl) (token : List UInt8) : NextUrl :=
  let requested := match u.requested with
    | none => token.length + 1
    | some _ => u.text.length + token.length
  { u with
    requested := some requested
    text := u.text ++ token
    nul := true
    accesses := u.accesses ++ [.copy u.text.length token.length requested,
      .nul (u.text.length + token.length) requested] }

/-- The text of a group; no NUL is written behind it. -/
def NextUrl.putValue (u : NextUrl) (val : Option CText) : NextUrl :=
  match val with
  | none => u
  | some val =>
    if val.1 = [] then u
    else
      let requested := match u.requested with
        | none => val.1.length + 1
        | some _ => u.text.length + val.1.length
      { u with
        requested := some requested
        text := u.text ++ val.1
        nul := false
        accesses := u.accesses ++ [.copy u.text.length val.1.length requested] }

/-- `path_prefix`. -/
def pathPrefix : FsStr := fsStr "$\x7bpath_"

/-- The C string in `token` once the name has been copied there. -/
def pathToken (var : List UInt8) : List UInt8 :=
  ((var.drop pathPrefix.size).take (var.length - pathPrefix.size - 1)).takeWhile (· ≠ 0)

/-- A number cut to an `int`. -/
def cInt (n : Int) : Int := n.bmod (2 ^ 32)

/-- `fs_mod_http_variable_compile`. -/
def fsModHttpVariableCompile (m : Match) (u : NextUrl) (var : List UInt8) : NextUrl :=
  if fsStrCmp ⟨var, var.length⟩ pathPrefix then
    let u := { u with accesses := u.accesses ++ [.name ((var.length : Int) - pathPrefix.size - 1)] }
    let token := pathToken var
    if token.all isDigit then
      let n := cInt (atoi token)
      if (m.captures : Int) < n then u
      else NextUrl.putValue { u with indices := u.indices ++ [n] } (m.at n)
    else u.putValue (m.named token)
  else u

/-- One turn of the loop over the pieces. -/
def nextPathPiece (m : Match) (u : NextUrl) (token : List UInt8) : NextUrl :=
  if token.head? = some fsChrDOLLAR then fsModHttpVariableCompile m u token else u.putLiteral token

/-- `fs_mod_http_proxy_set_next_path`. -/
def fsModHttpProxySetNextPath (m : Match) (passPath : List Piece) : NextUrl :=
  (passPath.map Piece.text).foldl (nextPathPiece m) .empty

/-- The pieces of a template. -/
def templatePieces (input : List UInt8) : List Piece :=
  (fsVarParse input.length ⟨false, false, []⟩ input).2

/-- `pass_path` with these bytes, and the path of a request that has matched; nothing where the
template is rejected. -/
def nextUrl (m : Match) (input : List UInt8) : Option NextUrl :=
  match fsVarParseArr (fsAllocArr Piece 2 Nat.two_pos) input with
  | .ok arr => some (fsModHttpProxySetNextPath m arr.toList)
  | _ => none

/-- The write does not leave what has been requested, and the name has room for its NUL. -/
def Access.InBounds : Access → Prop
  | .copy off n requested => off + n ≤ requested
  | .nul off requested => off < requested
  | .name n => 0 ≤ n ∧ n + 1 ≤ 128

instance : DecidablePred Access.InBounds
  | .copy _ _ _ => inferInstanceAs (Decidable (_ ≤ _))
  | .nul _ _ => inferInstanceAs (Decidable (_ < _))
  | .name _ => inferInstanceAs (Decidable (_ ∧ _))

/-- What is written stays inside, and the list is read where it has a string or its `NULL`. -/
def NextUrl.Inside (m : Match) (u : NextUrl) : Prop :=
  (∀ a ∈ u.accesses, a.InBounds) ∧ ∀ i ∈ u.indices, 0 ≤ i ∧ i ≤ m.list.length

instance (m : Match) : DecidablePred (NextUrl.Inside m) :=
  fun _ => inferInstanceAs (Decidable (_ ∧ _))

/-! ### What a piece stands for -/

/-- The group a piece names, if it is one of `path_re`. -/
def Match.lookup (m : Match) (var : List UInt8) : Option CText :=
  if fsStrCmp ⟨var, var.length⟩ pathPrefix then
    if (pathToken var).all isDigit then
      if (m.captures : Int) < cInt (atoi (pathToken var)) then none
      else m.at (cInt (atoi (pathToken var)))
    else m.named (pathToken var)
  else none

/-- The places where the list is read for a piece. -/
def Match.reads (m : Match) (var : List UInt8) : List Int :=
  if fsStrCmp ⟨var, var.length⟩ pathPrefix then
    if (pathToken var).all isDigit then
      if (m.captures : Int) < cInt (atoi (pathToken var)) then []
      else [cInt (atoi (pathToken var))]
    else []
  else []

/-- The name copied for a piece. -/
def nameAccess (var : List UInt8) : List Access :=
  if fsStrCmp ⟨var, var.length⟩ pathPrefix then
    [.name ((var.length : Int) - pathPrefix.size - 1)]
  else []

/-- The bytes that a piece adds to the URL. -/
def Match.expand (m : Match) (token : List UInt8) : List UInt8 :=
  if token.head? = some fsChrDOLLAR then ((m.lookup token).map Subtype.val).getD [] else token

/-- The name of a piece that is compared with the prefix has 0 to 127 bytes. -/
def NameFits (token : List UInt8) : Prop :=
  token.head? = some fsChrDOLLAR → fsStrCmp ⟨token, token.length⟩ pathPrefix →
    8 ≤ token.length ∧ token.length ≤ 135

/-- The piece puts nothing into the buffer. -/
def Match.Silent (m : Match) (token : List UInt8) : Prop :=
  token.head? = some fsChrDOLLAR ∧ m.expand token = []

/-- No literal piece follows a piece that has put something into the buffer, or a buffer that has
been allocated already. -/
def Match.LiteralFirst (m : Match) (written : Prop) (tokens : List (List UInt8)) : Prop :=
  ∀ pre token post, tokens = pre ++ token :: post → token.head? ≠ some fsChrDOLLAR →
    ¬ written ∧ ∀ t ∈ pre, m.Silent t

/-- The expansion of these pieces stays inside. -/
structure Match.Fits (m : Match) (tokens : List (List UInt8)) : Prop where
  names : ∀ token ∈ tokens, NameFits token
  literals : m.LiteralFirst False tokens
  numbers : ∀ token ∈ tokens, token.head? = some fsChrDOLLAR →
    ∀ i ∈ m.reads token, 0 ≤ i ∧ i ≤ m.list.length

/-- Nothing has been copied before the first request. -/
def NextUrl.Fresh (u : NextUrl) : Prop := u.requested = none → u.text = []

/-- All writes so far. -/
def NextUrl.Safe (u : NextUrl) : Prop := ∀ a ∈ u.accesses, a.InBounds

section

variable {m : Match} {u : NextUrl} {token : List UInt8}

/-! ### One piece -/

/-- What a reference does: its name is copied, its number may be looked up, and its text is
appended. -/
lemma variableCompile_eq (m : Match) (u : NextUrl) (var : List UInt8) :
    fsModHttpVariableCompile m u var = NextUrl.putValue
      { u with accesses := u.accesses ++ nameAccess var, indices := u.indices ++ m.reads var }
      (m.lookup var) := by
  rw [fsModHttpVariableCompile, Match.lookup, Match.reads, nameAccess]
  by_cases hprefix : fsStrCmp ⟨var, var.length⟩ pathPrefix
  · simp only [if_pos hprefix]
    by_cases hdigits : (pathToken var).all isDigit
    · simp only [if_pos hdigits]
      split_ifs
      · rw [List.append_nil]
        rfl
      · rfl
    · simp only [if_neg hdigits, List.append_nil]
  · simp only [if_neg hprefix, List.append_nil]
    rfl

lemma putValue_text (val : Option CText) :
    (u.putValue val).text = u.text ++ (val.map Subtype.val).getD [] := by
  cases val with
  | none => simp [NextUrl.putValue]
  | some val =>
    rw [NextUrl.putValue]
    split_ifs with hval <;> simp [hval]

/-- A piece adds what it stands for. -/
lemma nextPathPiece_text : (nextPathPiece m u token).text = u.text ++ m.expand token := by
  rw [nextPathPiece, Match.expand]
  split_ifs
  · rw [variableCompile_eq, putValue_text]
  · rfl

lemma putValue_requested (val : Option CText) :
    (u.putValue val).requested = none ↔
      u.requested = none ∧ (val.map Subtype.val).getD [] = [] := by
  cases val with
  | none => simp [NextUrl.putValue]
  | some val =>
    rw [NextUrl.putValue]
    split_ifs with hval <;> simp [hval]

/-- The buffer stays unallocated as long as the pieces are silent. -/
lemma nextPathPiece_requested : (nextPathPiece m u token).requested = none ↔
    u.requested = none ∧ m.Silent token := by
  rw [nextPathPiece, Match.Silent, Match.expand]
  split_ifs with hdollar
  · rw [variableCompile_eq, putValue_requested]
    simp [hdollar]
  · simp [NextUrl.putLiteral, hdollar]

lemma NextUrl.Fresh.piece (h : u.Fresh) : (nextPathPiece m u token).Fresh := by
  intro hnone
  obtain ⟨hu, -, hempty⟩ := nextPathPiece_requested.mp hnone
  rw [nextPathPiece_text, h hu, hempty, List.append_nil]

/-- A text always has room. -/
lemma putValue_safe (hfresh : u.Fresh) (val : Option CText) :
    (u.putValue val).Safe ↔ u.Safe := by
  cases val with
  | none => rfl
  | some val =>
    rw [NextUrl.putValue]
    split_ifs
    · rfl
    · simp only [NextUrl.Safe, List.forall_mem_append, List.forall_mem_singleton]
      apply and_iff_left
      cases hreq : u.requested with
      | none => simp [Access.InBounds, hfresh hreq]
      | some n => exact le_refl _

/-- A literal has room for its NUL in a buffer of its own only. -/
lemma putLiteral_safe (hfresh : u.Fresh) :
    (u.putLiteral token).Safe ↔ u.Safe ∧ u.requested = none := by
  simp only [NextUrl.Safe, NextUrl.putLiteral, List.forall_mem_append, List.forall_mem_cons]
  refine and_congr_right fun _ => ?_
  cases hreq : u.requested with
  | none => simp [Access.InBounds, hfresh hreq]
  | some n => simp [Access.InBounds]

lemma nextPathPiece_safe (hfresh : u.Fresh) :
    (nextPathPiece m u token).Safe ↔
      u.Safe ∧ NameFits token ∧ (token.head? ≠ some fsChrDOLLAR → u.requested = none) := by
  rw [nextPathPiece, NameFits]
  split_ifs with hdollar
  · have hfresh' : NextUrl.Fresh
        { u with accesses := u.accesses ++ nameAccess token
                 indices := u.indices ++ m.reads token } := hfresh
    rw [variableCompile_eq, putValue_safe hfresh']
    simp only [NextUrl.Safe, List.forall_mem_append, nameAccess]
    refine and_congr_right fun _ => ?_
    split_ifs with hprefix
    · have hsize : pathPrefix.size = 7 := rfl
      simp [Access.InBounds, hdollar, hprefix, hsize]
      omega
    · simp [hdollar, hprefix]
  · rw [putLiteral_safe hfresh]
    simp [hdollar]

/-! ### All pieces -/

lemma foldl_text (tokens : List (List UInt8)) :
    (tokens.foldl (nextPathPiece m) u).text = u.text ++ tokens.flatMap m.expand := by
  induction tokens generalizing u with
  | nil => simp
  | cons token tokens ih => rw [List.foldl_cons, ih, nextPathPiece_text]; simp

lemma literalFirst_nil {written : Prop} : m.LiteralFirst written [] := by
  intro pre t post heq
  simp at heq

lemma literalFirst_cons {written : Prop} {tokens : List (List UInt8)} :
    m.LiteralFirst written (token :: tokens) ↔
      (token.head? ≠ some fsChrDOLLAR → ¬ written) ∧
        m.LiteralFirst (written ∨ ¬ m.Silent token) tokens := by
  constructor
  · intro h
    refine ⟨fun hlit => (h [] token tokens rfl hlit).1, ?_⟩
    rintro pre t post rfl hlit
    obtain ⟨hwritten, hpre⟩ := h (token :: pre) t post rfl hlit
    rw [List.forall_mem_cons] at hpre
    exact ⟨not_or.mpr ⟨hwritten, not_not.mpr hpre.1⟩, hpre.2⟩
  · rintro ⟨hhead, htail⟩ pre t post heq hlit
    cases pre with
    | nil =>
      obtain ⟨rfl, -⟩ := List.cons.inj heq
      exact ⟨hhead hlit, by simp⟩
    | cons x pre =>
      rw [List.cons_append, List.cons.injEq] at heq
      obtain ⟨rfl, rfl⟩ := heq
      obtain ⟨hor, hpre⟩ := htail pre t post rfl hlit
      rw [not_or, not_not] at hor
      exact ⟨hor.1, List.forall_mem_cons.mpr ⟨hor.2, hpre⟩⟩

lemma foldl_safe (hfresh : u.Fresh) (tokens : List (List UInt8)) :
    (tokens.foldl (nextPathPiece m) u).Safe ↔
      u.Safe ∧ (∀ token ∈ tokens, NameFits token) ∧ m.LiteralFirst (u.requested ≠ none) tokens := by
  induction tokens generalizing u with
  | nil =>
    simp [literalFirst_nil]
  | cons token tokens ih =>
    have hreq : (nextPathPiece m u token).requested ≠ none ↔
        u.requested ≠ none ∨ ¬ m.Silent token := by
      rw [Ne, nextPathPiece_requested, not_and_or]
    rw [List.foldl_cons, ih hfresh.piece, nextPathPiece_safe hfresh, literalFirst_cons,
      List.forall_mem_cons, propext hreq, not_not]
    tauto

lemma putValue_indices (val : Option CText) : (u.putValue val).indices = u.indices := by
  cases val with
  | none => rfl
  | some val =>
    rw [NextUrl.putValue]
    split_ifs <;> rfl

/-- The list is read where a piece says. -/
lemma foldl_indices {P : Int → Prop} (tokens : List (List UInt8)) :
    (∀ i ∈ (tokens.foldl (nextPathPiece m) u).indices, P i) ↔ (∀ i ∈ u.indices, P i) ∧
      ∀ token ∈ tokens, token.head? = some fsChrDOLLAR → ∀ i ∈ m.reads token, P i := by
  induction tokens generalizing u with
  | nil => simp
  | cons token tokens ih =>
    rw [List.foldl_cons, ih, List.forall_mem_cons, ← and_assoc]
    refine and_congr_left fun _ => ?_
    rw [nextPathPiece]
    split_ifs with hdollar
    · rw [variableCompile_eq, putValue_indices, List.forall_mem_append]
      simp [hdollar]
    · simp [hdollar, NextUrl.putLiteral]

lemma toList_of_contents {α : Type} {arr : FsArr α} {l : List α} (h : arr.contents = l.map some) :
    arr.toList = l := by
  change arr.contents.reduceOption = l
  rw [h]
  simp [List.reduceOption]

/-- The array of an accepted template is gone through. -/
lemma nextUrl_eq (m : Match) (input : List UInt8) :
    nextUrl m input = if (fsVarParse input.length ⟨false, false, []⟩ input).1 then
      some (fsModHttpProxySetNextPath m (templatePieces input)) else none := by
  have hempty : (fsAllocArr Piece 2 Nat.two_pos).contents = [].map some := rfl
  obtain ⟨arr, harr, heq⟩ := fsVarParseArr_eq hempty input
  rw [nextUrl, heq, templatePieces]
  split_ifs
  · rw [← toList_of_contents harr]
  · rfl

lemma NextUrl.empty_fresh : NextUrl.empty.Fresh := fun _ => rfl

lemma NextUrl.empty_safe : NextUrl.empty.Safe := fun _ h => absurd h List.not_mem_nil

lemma setNextPath_safe (m : Match) (passPath : List Piece) :
    (fsModHttpProxySetNextPath m passPath).Safe ↔
      (∀ token ∈ passPath.map Piece.text, NameFits token) ∧
        m.LiteralFirst False (passPath.map Piece.text) := by
  have hnot : (NextUrl.empty.requested ≠ none) = False := by simp [NextUrl.empty]
  rw [← hnot]
  exact (foldl_safe NextUrl.empty_fresh _).trans (and_iff_right NextUrl.empty_safe)

lemma setNextPath_inside_iff (m : Match) (passPath : List Piece) :
    (fsModHttpProxySetNextPath m passPath).Inside m ↔ m.Fits (passPath.map Piece.text) := by
  have hindices : (∀ i ∈ ((passPath.map Piece.text).foldl (nextPathPiece m) .empty).indices,
      0 ≤ i ∧ i ≤ (m.list.length : Int)) ↔ _ := foldl_indices _
  have hsafe := setNextPath_safe m passPath
  rw [NextUrl.Safe] at hsafe
  rw [NextUrl.Inside, hsafe, fsModHttpProxySetNextPath, hindices]
  simp only [NextUrl.empty, List.not_mem_nil, false_implies, implies_true, true_and]
  exact ⟨fun h => ⟨h.1.1, h.1.2, h.2⟩, fun h => ⟨⟨h.names, h.literals⟩, h.numbers⟩⟩

end

/-- The writes of an expansion stay inside exactly when every name that is copied has 0 to 127
bytes, and no literal piece follows another one or a reference with a text. -/
theorem accesses_inBounds_iff {m : Match} {input : List UInt8} {u : NextUrl}
    (h : nextUrl m input = some u) :
    (∀ a ∈ u.accesses, a.InBounds) ↔
      (∀ token ∈ (templatePieces input).map Piece.text, NameFits token) ∧
        m.LiteralFirst False ((templatePieces input).map Piece.text) := by
  rw [nextUrl_eq, Option.ite_none_right_eq_some, Option.some.injEq] at h
  obtain ⟨-, rfl⟩ := h
  exact setNextPath_safe m _

/-- `^/(a)` on `/a`. -/
def oneGroup : Match where
  captures := 1
  list := [⟨bytes "/a", by decide⟩, ⟨bytes "a", by decide⟩]
  named _ := none
  wild _ := none
  captures_lt := by decide
  list_le := by decide

/-- `^/(a)(b)?` on `/a`. -/
def oneOfTwo : Match where
  captures := 2
  list := [⟨bytes "/a", by decide⟩, ⟨bytes "a", by decide⟩]
  named _ := none
  wild _ := none
  captures_lt := by decide
  list_le := by decide

/-- A reference to the group that has not taken part. -/
theorem accesses_inBounds_iff_reference :
    ∃ u, nextUrl oneOfTwo (bytes "${path_2}\x00") = some u ∧ ∀ a ∈ u.accesses, a.InBounds := by
  have hpieces : (templatePieces (bytes "${path_2}\x00")).map Piece.text
      = [bytes "${path_2}", [0]] := by decide
  have hurl : nextUrl oneOfTwo (bytes "${path_2}\x00") = some (fsModHttpProxySetNextPath oneOfTwo
      (templatePieces (bytes "${path_2}\x00"))) := rfl
  refine ⟨_, hurl, (accesses_inBounds_iff hurl).mpr ⟨?_, ?_⟩⟩
  · rw [hpieces, List.forall_mem_cons, List.forall_mem_singleton]
    exact ⟨fun _ _ => by decide, (fun h => absurd h (by decide))⟩
  · rw [hpieces, literalFirst_cons, literalFirst_cons]
    have hsilent : oneOfTwo.Silent (bytes "${path_2}") := ⟨by decide, by decide⟩
    refine ⟨fun h => absurd (by decide) h, fun _ => ?_, literalFirst_nil⟩
    exact not_or.mpr ⟨not_false, not_not_intro hsilent⟩

/-- `/b${path_1}`: the terminator is the third piece, and its NUL goes one byte behind the five that
have been requested. Two dollars: the length of the first one's name is negative. -/
theorem not_accesses_inBounds :
    (∃ u, nextUrl oneGroup (bytes "/b${path_1}\x00") = some u ∧
      .nul 4 4 ∈ u.accesses ∧ ¬ (Access.nul 4 4).InBounds) ∧
    (∃ u, nextUrl oneGroup (bytes "$$\x00") = some u ∧
      .name (-7) ∈ u.accesses ∧ ¬ (Access.name (-7)).InBounds) := by
  refine ⟨⟨_, rfl, by decide, by decide⟩, ⟨_, rfl, by decide, by decide⟩⟩

end Folksong
