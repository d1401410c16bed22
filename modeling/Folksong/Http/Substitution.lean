import Folksong.Http.NextPath
import Folksong.Http.Template
import Folksong.Mod.Time

/-!
# Expansion as substitution

A template is text and references to the groups of `path_re`. What it stands for is said on the
parts; the code expands the pieces into which `fs_var_parse` has cut the bytes of the token, the
NUL and whatever lies behind it included.
-/

namespace Folksong

/-- A part of a template: text, or a reference `${path_name}`. -/
inductive Part where
  | literal (text : { text : List UInt8 // IsLiteral text ∧ (0 : UInt8) ∉ text })
  | reference (name : { name : List UInt8 //
      name ≠ [] ∧ name.length < 120 ∧ IsName name ∧ (0 : UInt8) ∉ name })

/-- `${path_name}`. -/
def pathReference (name : List UInt8) : List UInt8 := pathPrefix.text ++ name ++ [fsChrRCBRACK]

/-- How a part is written. -/
def Part.render : Part → List UInt8
  | .literal text => text.1
  | .reference name => pathReference name.1

/-- The bytes of a template. -/
def renderParts (parts : List Part) : List UInt8 := parts.flatMap Part.render

/-- The text of the group with this number or this name, if there is such a group and it took
part. -/
def Match.group (m : Match) (name : List UInt8) : Option CText :=
  if name.all isDigit then m.list[decimal name]? else m.named name

/-- What a part stands for. -/
def Match.subst (m : Match) : Part → List UInt8
  | .literal text => text.1
  | .reference name => ((m.group name.1).map Subtype.val).getD []

/-- The URL is the template with its references replaced, and the list is read inside only. -/
def Substitutes (m : Match) (parts : List Part) (behind : List UInt8) : Prop :=
  ∃ u, nextUrl m (renderParts parts ++ 0 :: behind) = some u ∧
    u.cstr = some (parts.flatMap m.subst) ∧ ∀ i ∈ u.indices, 0 ≤ i ∧ i < m.list.length

/-- A piece that is a reference by number is one to a string of the list, or to a group the pattern
does not have. -/
def Match.InList (m : Match) (token : List UInt8) : Prop :=
  token.head? = some fsChrDOLLAR → ∀ i ∈ m.reads token, 0 ≤ i ∧ i < m.list.length

/-- The number of a reference is an `int`, or cut to one it is that of a group without text. -/
def Match.NumberFits (m : Match) : Part → Prop
  | .literal _ => True
  | .reference name => name.1.all isDigit → cInt (atoi name.1) = decimal name.1 ∨
      (m.captures : Int) < cInt (atoi name.1) ∨
        ((m.at (cInt (atoi name.1))).map Subtype.val).getD [] = []

/-- Bytes one after the other. -/
def varBytes (size : Nat) (t : VarState) (text : List UInt8) : Option VarState :=
  text.foldlM (varByte size) t

section

variable {m : Match} {size : Nat} {t t' : VarState} {input text name rest : List UInt8}
  {chr : UInt8} {parts : List Part} {ps : List Piece} {p : Piece}

/-! ### The value of a piece -/

lemma expand_literal (h : IsLiteral text) : m.expand text = text := by
  rw [Match.expand, if_neg]
  intro hhead
  exact (h _ (List.mem_of_mem_head? hhead)).1 rfl

lemma pathReference_head (name : List UInt8) :
    (pathReference name).head? = some fsChrDOLLAR := rfl

lemma pathReference_cmp (name : List UInt8) :
    fsStrCmp ⟨pathReference name, (pathReference name).length⟩ pathPrefix = true := by
  have hsize : pathPrefix.size = pathPrefix.text.length := rfl
  have hmin : min (pathReference name).length pathPrefix.size = pathPrefix.text.length := by
    rw [hsize, pathReference, List.append_assoc, List.length_append]
    exact min_eq_right (Nat.le_add_right _ _)
  rw [fsStrCmp, beq_iff_eq]
  simp only [hmin]
  rw [List.take_left, pathReference]
  simp

lemma pathReference_token (h : (0 : UInt8) ∉ name) : pathToken (pathReference name) = name := by
  have hdrop : (pathReference name).drop pathPrefix.size = name ++ [fsChrRCBRACK] := rfl
  have hlen : (pathReference name).length - pathPrefix.size - 1 = name.length := by
    have hsize : pathPrefix.size = 7 := rfl
    have htext : pathPrefix.text.length = 7 := rfl
    simp [pathReference, hsize, htext]
  rw [pathToken, hdrop, hlen, List.take_left, List.takeWhile_eq_self_iff]
  intro c hc
  simp only [ne_eq, decide_eq_true_eq]
  rintro rfl
  exact h hc

/-- Which group the code looks up for a reference. -/
lemma lookup_pathReference (h : (0 : UInt8) ∉ name) : m.lookup (pathReference name) =
    if name.all isDigit then
      if (m.captures : Int) < cInt (atoi name) then none else m.at (cInt (atoi name))
    else m.named name := by
  rw [Match.lookup, if_pos (pathReference_cmp name), pathReference_token h]

lemma reads_pathReference (h : (0 : UInt8) ∉ name) : m.reads (pathReference name) =
    if name.all isDigit then
      if (m.captures : Int) < cInt (atoi name) then [] else [cInt (atoi name)]
    else [] := by
  rw [Match.reads, if_pos (pathReference_cmp name), pathReference_token h]

lemma expand_pathReference (name : List UInt8) : m.expand (pathReference name)
    = ((m.lookup (pathReference name)).map Subtype.val).getD [] := by
  rw [Match.expand, if_pos (pathReference_head name)]

/-! ### Reading the bytes of a part -/

/-- The bytes are read before what follows them. -/
lemma fsVarParse_append (h : varBytes size t text = some t') (rest : List UInt8) :
    fsVarParse size t (text ++ rest) = fsVarParse size t' rest := by
  induction text generalizing t with
  | nil =>
    obtain rfl := Option.some.inj h
    rfl
  | cons c text ih =>
    rw [varBytes, List.foldlM_cons] at h
    obtain ⟨t₁, hbyte, htext⟩ := Option.bind_eq_some_iff.mp h
    rw [List.cons_append, fsVarParse, hbyte]
    exact ih htext

lemma VarState.Inv.bytes (h : t.Inv size input) (hbytes : varBytes size t text = some t') :
    t'.Inv size (input ++ text) := by
  induction text generalizing t input with
  | nil =>
    obtain rfl := Option.some.inj hbytes
    rwa [List.append_nil]
  | cons c text ih =>
    rw [varBytes, List.foldlM_cons] at hbytes
    obtain ⟨t₁, hbyte, htext⟩ := Option.bind_eq_some_iff.mp hbytes
    rw [List.append_cons]
    exact ih (h.byte hbyte) htext

lemma varBytes_append (h : varBytes size t text = some t') (rest : List UInt8) :
    varBytes size t (text ++ rest) = varBytes size t' rest := by
  have h' : text.foldlM (varByte size) t = some t' := h
  rw [varBytes, List.foldlM_append, h']
  rfl

/-- What the pieces stand for. -/
def VarState.expand (m : Match) (t : VarState) : List UInt8 :=
  t.pieces.flatMap fun p => m.expand p.text

lemma varByte_literal (h : IsLiteral [chr]) : varByte size t chr = some (t.put size chr) := by
  obtain ⟨hdollar, hopen, hclose⟩ := h chr (List.mem_singleton_self _)
  rw [varByte]
  simp [hdollar, hopen, hclose]

/-- A byte of a literal outside of a reference: it is the last one of the last piece, which is a
literal, and the references stay where they are. -/
lemma put_literal (h : t.Inv size input) (hvar : t.isVariable = false) (hchr : IsLiteral [chr]) :
    ∃ ps p l, (t.put size chr).pieces = ps ++ [p] ∧ p.text = l ++ [chr] ∧ IsLiteral p.text ∧
      t.expand m = (ps.flatMap fun p => m.expand p.text) ++ l ∧
      ∀ q ∈ t.pieces, ¬ IsLiteral q.text → q ∈ ps := by
  cases hopened : t.opened with
  | false =>
    rw [put_closed hopened]
    exact ⟨t.pieces, _, [], rfl, rfl, hchr, (List.append_nil _).symm, fun q hq _ => hq⟩
  | true =>
    obtain ⟨ps, p, hps, hp⟩ := h.opened hopened
    rw [hvar, if_neg Bool.false_ne_true] at hp
    rw [put_opened hopened hps]
    refine ⟨ps, _, p.text, rfl, rfl, isLiteral_snoc.mpr ⟨hp, hchr⟩, ?_, ?_⟩
    · rw [VarState.expand, hps, List.flatMap_append, List.flatMap_singleton, expand_literal hp]
    · intro q hq hnot
      rw [hps, List.mem_append, List.mem_singleton] at hq
      rcases hq with hq | rfl
      · exact hq
      · exact absurd hp hnot

/-- A literal is read as it stands. -/
lemma bytes_literal (m : Match) (h : t.Inv size input) (hvar : t.isVariable = false)
    (htext : IsLiteral text) :
    ∃ t', varBytes size t text = some t' ∧ t'.isVariable = false ∧
      t'.expand m = t.expand m ++ text ∧
      ∀ q ∈ t.pieces, ¬ IsLiteral q.text → q ∈ t'.pieces := by
  induction text generalizing t input with
  | nil => exact ⟨t, rfl, hvar, (List.append_nil _).symm, fun q hq _ => hq⟩
  | cons c text ih =>
    have hc : IsLiteral [c] := fun b hb => htext b (by simp_all)
    have hbyte : varByte size t c = some (t.put size c) := varByte_literal hc
    obtain ⟨ps, p, l, hpieces, hp, hlit, hexpand, hkeep⟩ := put_literal (m := m) h hvar hc
    have hput : (t.put size c).expand m = t.expand m ++ [c] := by
      rw [VarState.expand, hpieces, List.flatMap_append, List.flatMap_singleton,
        expand_literal hlit, hp, hexpand, List.append_assoc]
    obtain ⟨t', ht', hvar', hexpand', hkeep'⟩ := ih (h.byte hbyte) ((put_flag t c).trans hvar)
      fun b hb => htext b (List.mem_cons_of_mem _ hb)
    refine ⟨t', ?_, hvar', ?_, ?_⟩
    · rw [varBytes, List.foldlM_cons, hbyte]
      exact ht'
    · rw [hexpand', hput, List.append_assoc, List.singleton_append]
    · intro q hq hnot
      refine hkeep' q ?_ hnot
      rw [hpieces]
      exact List.mem_append_left _ (hkeep q hq hnot)

/-- The bytes behind the dollar of a reference. -/
lemma bytes_reference (hopened : t.opened = true) (hvar : t.isVariable = true)
    (hps : t.pieces = ps ++ [p]) (hdollar : fsChrDOLLAR ∉ text) (hclose : fsChrRCBRACK ∉ text) :
    varBytes size t (text ++ [fsChrRCBRACK])
      = some ⟨false, false, ps ++ [⟨p.alloc, p.text ++ text ++ [fsChrRCBRACK]⟩]⟩ := by
  induction text generalizing t p with
  | nil =>
    have hne : ¬ fsChrRCBRACK = fsChrDOLLAR := by decide
    have hne' : ¬ fsChrRCBRACK = fsChrLCBRACK := by decide
    have hbyte : varByte size t fsChrRCBRACK
        = some ⟨false, false, ps ++ [⟨p.alloc, p.text ++ [fsChrRCBRACK]⟩]⟩ := by
      simp [varByte, hne, hne', hvar, put_opened hopened hps]
    rw [List.nil_append, varBytes, List.foldlM_cons, hbyte, List.append_nil]
    rfl
  | cons c text ih =>
    rw [List.mem_cons, not_or] at hdollar hclose
    have hbyte : varByte size t c
        = some ⟨true, true, ps ++ [⟨p.alloc, p.text ++ [c]⟩]⟩ := by
      simp [varByte, Ne.symm hdollar.1, Ne.symm hclose.1, hvar, put_opened hopened hps]
    rw [List.cons_append, varBytes, List.foldlM_cons, hbyte]
    apply (ih rfl rfl rfl hdollar.2 hclose.2).trans
    simp

/-- A reference becomes a piece of its own. -/
lemma bytes_pathReference (h : IsName name) : varBytes size t (pathReference name)
    = some ⟨false, false, t.pieces ++ [⟨size + 1, pathReference name⟩]⟩ := by
  have hbyte : varByte size t fsChrDOLLAR
      = some ⟨true, true, t.pieces ++ [⟨size + 1, [fsChrDOLLAR]⟩]⟩ := by
    simp [varByte, VarState.put]
  have hbehind : pathReference name
      = fsChrDOLLAR :: (bytes "\x7bpath_" ++ name ++ [fsChrRCBRACK]) := rfl
  have hdollar : fsChrDOLLAR ∉ bytes "\x7bpath_" ++ name := by
    rw [List.mem_append, not_or]
    exact ⟨by decide, h.1⟩
  have hclose : fsChrRCBRACK ∉ bytes "\x7bpath_" ++ name := by
    rw [List.mem_append, not_or]
    exact ⟨by decide, h.2.2⟩
  rw [hbehind, varBytes, List.foldlM_cons, hbyte]
  exact bytes_reference (p := ⟨size + 1, [fsChrDOLLAR]⟩) rfl rfl rfl hdollar hclose

/-- Behind the parts of a template: the pieces stand for what the parts do, and each reference is
one of them. -/
structure VarState.Holds (m : Match) (size : Nat) (parts : List Part) (t : VarState) : Prop where
  inv : t.Inv size (renderParts parts)
  outside : t.isVariable = false
  value : t.expand m = parts.flatMap fun part => m.expand part.render
  refs : ∀ name, .reference name ∈ parts → ∃ p ∈ t.pieces, p.text = pathReference name.1

lemma pathReference_not_literal (name : List UInt8) : ¬ IsLiteral (pathReference name) :=
  fun h => (h fsChrDOLLAR (List.mem_of_mem_head? (pathReference_head name))).1 rfl

/-- One more part. -/
lemma VarState.Holds.snoc (h : t.Holds m size parts) (part : Part) :
    ∃ t', varBytes size t part.render = some t' ∧ t'.Holds m size (parts ++ [part]) := by
  have hrender : renderParts (parts ++ [part]) = renderParts parts ++ part.render := by
    rw [renderParts, List.flatMap_append, List.flatMap_singleton]
    rfl
  cases part with
  | literal text =>
    obtain ⟨t', ht', hvar, hexpand, hkeep⟩ := bytes_literal m h.inv h.outside text.2.1
    refine ⟨t', ht', ?_, hvar, ?_, ?_⟩
    · rw [hrender]
      exact h.inv.bytes ht'
    · rw [hexpand, h.value, List.flatMap_append, List.flatMap_singleton, Part.render,
        expand_literal text.2.1]
    · intro name hname
      have hmem : Part.reference name ∈ parts := by simpa using hname
      obtain ⟨p, hp, heq⟩ := h.refs name hmem
      exact ⟨p, hkeep p hp (heq ▸ pathReference_not_literal name.1), heq⟩
  | reference name =>
    have ht' : varBytes size t (pathReference name.1) = some _ :=
      bytes_pathReference name.2.2.2.1
    refine ⟨_, ht', ?_, rfl, ?_, ?_⟩
    · rw [hrender]
      exact h.inv.bytes ht'
    · rw [VarState.expand, List.flatMap_append, List.flatMap_singleton, List.flatMap_append,
        List.flatMap_singleton, ← h.value]
      rfl
    · intro name' hname
      rw [List.mem_append, List.mem_singleton] at hname
      rcases hname with hname | hname
      · obtain ⟨p, hp, heq⟩ := h.refs name' hname
        exact ⟨p, List.mem_append_left _ hp, heq⟩
      · cases hname
        exact ⟨_, List.mem_append_right _ (List.mem_singleton_self _), rfl⟩

/-- The whole template, up to its NUL. -/
lemma holds_parts (m : Match) (size : Nat) (parts : List Part) :
    ∃ t, varBytes size ⟨false, false, []⟩ (renderParts parts) = some t ∧
      t.Holds m size parts := by
  induction parts using List.reverseRecOn with
  | nil => exact ⟨_, rfl, inv_empty size, rfl, rfl, fun name hname => by cases hname⟩
  | append_singleton parts part ih =>
    obtain ⟨t, ht, hholds⟩ := ih
    obtain ⟨t', ht', hholds'⟩ := hholds.snoc part
    refine ⟨t', ?_, hholds'⟩
    rw [renderParts, List.flatMap_append, List.flatMap_singleton]
    exact (varBytes_append ht _).trans ht'

/-! ### Behind the NUL -/

lemma put_pieces (hps : t.pieces = ps ++ [p]) :
    ∃ q r, (t.put size chr).pieces = ps ++ q :: r ∧ p.text <+: q.text := by
  rw [VarState.put, hps]
  split_ifs
  · rw [List.getLast?_concat, List.dropLast_concat]
    exact ⟨_, [], rfl, List.prefix_append _ _⟩
  · exact ⟨p, _, by rw [List.append_assoc]; rfl, List.prefix_refl _⟩

lemma varByte_pieces (h : varByte size t chr = some t') (hps : t.pieces = ps ++ [p]) :
    ∃ q r, t'.pieces = ps ++ q :: r ∧ p.text <+: q.text := by
  rw [varByte] at h
  split_ifs at h
  · cases h
    exact put_pieces hps
  · cases h
    exact put_pieces hps
  · cases h
    exact put_pieces hps
  · cases h
    exact put_pieces hps

/-- What is read later leaves the pieces before the last one, and adds to that one at most. -/
lemma fsVarParse_pieces (hps : t.pieces = ps ++ [p]) (rest : List UInt8) :
    ∃ q r, (fsVarParse size t rest).2 = ps ++ q :: r ∧ p.text <+: q.text := by
  induction rest generalizing t ps p with
  | nil => exact ⟨p, [], hps, List.prefix_refl _⟩
  | cons c rest ih =>
    rw [fsVarParse]
    cases hbyte : varByte size t c with
    | none => exact ⟨p, [], hps, List.prefix_refl _⟩
    | some t' =>
      obtain ⟨q, r, ht', hpre⟩ := varByte_pieces hbyte hps
      cases r using List.reverseRecOn with
      | nil =>
        obtain ⟨q', r', hfinal, hpre'⟩ := ih ht'
        exact ⟨q', r', hfinal, hpre.trans hpre'⟩
      | append_singleton r x =>
        have hlast : t'.pieces = (ps ++ q :: r) ++ [x] := by rw [ht', List.append_assoc]; rfl
        obtain ⟨q', r', hfinal, -⟩ := ih hlast
        refine ⟨q, r ++ q' :: r', ?_, hpre⟩
        change (fsVarParse size t' rest).2 = _
        rw [hfinal, List.append_assoc]
        rfl

/-- The pieces of a token: they stand for what the parts of the template do, up to a NUL. -/
lemma pieces_token (m : Match) (parts : List Part) (behind : List UInt8) :
    (∃ rest, (templatePieces (renderParts parts ++ 0 :: behind)).flatMap
        (fun p => m.expand p.text)
      = (parts.flatMap fun part => m.expand part.render) ++ 0 :: rest) ∧
    (∀ name, .reference name ∈ parts →
      ∃ p ∈ templatePieces (renderParts parts ++ 0 :: behind), p.text = pathReference name.1) ∧
    ((fsVarParse (renderParts parts ++ 0 :: behind).length ⟨false, false, []⟩
      (renderParts parts ++ 0 :: behind)).1 = true ↔ ¬ StrayBrace behind) := by
  rw [templatePieces]
  generalize (renderParts parts ++ 0 :: behind).length = size
  obtain ⟨t, ht, hholds⟩ := holds_parts m size parts
  have hnul : IsLiteral [0] := by simpa [IsLiteral] using by decide
  obtain ⟨ps, p, l, hput, hp, hlit, hexpand, hkeep⟩ :=
    put_literal (m := m) hholds.inv hholds.outside hnul
  obtain ⟨q, r, hfinal, text, hq⟩ := fsVarParse_pieces hput behind
  rw [fsVarParse_append ht, fsVarParse, varByte_literal hnul]
  refine ⟨?_, ?_, ?_⟩
  · -- the piece with the NUL is not a reference
    have hvalue : m.expand q.text = q.text := by
      rw [← hq, hp, List.append_assoc, List.singleton_append, Match.expand, if_neg]
      cases l with
      | nil => simp [fsChrDOLLAR]
      | cons c l =>
        rw [hp] at hlit
        simpa using (hlit c (List.mem_cons_self ..)).1
    refine ⟨text ++ r.flatMap fun p => m.expand p.text, ?_⟩
    change (fsVarParse size (t.put size 0) behind).2.flatMap _ = _
    rw [hfinal, List.flatMap_append, List.flatMap_cons, hvalue, ← hq, hp, ← hholds.value, hexpand]
    simp
  · intro name hname
    obtain ⟨p', hp', heq⟩ := hholds.refs name hname
    refine ⟨p', ?_, heq⟩
    change p' ∈ (fsVarParse size (t.put size 0) behind).2
    rw [hfinal]
    exact List.mem_append_left _ (hkeep p' hp' (heq ▸ pathReference_not_literal name.1))
  · change (fsVarParse size (t.put size 0) behind).1 = true ↔ _
    rw [fsVarParse_ok_iff, put_flag, hholds.outside, strayBrace_iff, not_not]

/-! ### Numbers -/

lemma atoi_digits (h : name.all isDigit) : atoi name = (min (decimal name) (2 ^ 63 - 1) : Nat) := by
  rw [List.all_eq_true] at h
  have hself : name.takeWhile isDigit = name := List.takeWhile_eq_self_iff.mpr h
  have hatoll : atoll name = min (decimal name) (2 ^ 63 - 1) := by rw [atoll_eq, hself]
  cases name with
  | nil => rfl
  | cons c name =>
    -- a digit is neither white space nor a sign
    have hc : 48 ≤ c ∧ c ≤ 57 := by simpa [isDigit] using h c (List.mem_cons_self ..)
    have hplus : c ≠ 43 := by rintro rfl; exact absurd hc.1 (by decide)
    have hminus : c ≠ 45 := by rintro rfl; exact absurd hc.1 (by decide)
    have hspace : (c == 32 || (9 ≤ c && c ≤ 13)) = false := by
      have hle : ¬ c ≤ 13 := fun h13 => absurd (UInt8.le_trans hc.1 h13) (by decide)
      have hne : c ≠ 32 := by rintro rfl; exact absurd hc.1 (by decide)
      simp [hle, hne]
    rw [← hatoll, atoi, List.dropWhile_cons_of_neg (by simp [hspace])]
    split
    · next heq => exact absurd (List.cons.inj heq).1 hminus
    · next heq => exact absurd (List.cons.inj heq).1 hplus
    · rfl

/-- A number that the list can have is an `int`. -/
lemma cInt_atoi (h : name.all isDigit) (hlt : decimal name < 2 ^ 31) :
    cInt (atoi name) = decimal name := by
  rw [atoi_digits h, min_eq_left (by omega)]
  apply Int.bmod_eq_of_le <;> omega

lemma at_list {n : Int} (hle : 0 ≤ n) (hlt : n < m.list.length) :
    m.at n = m.list[n.toNat]? := by
  have hget : n.toNat < m.list.length := by omega
  rw [Match.at, if_neg (by omega), List.getElem?_eq_getElem hget]

lemma group_none (hdigits : name.all isDigit)
    (hne : cInt (atoi name) ≠ decimal name ∨ (m.captures : Int) < cInt (atoi name)) :
    m.group name = none := by
  rw [Match.group, if_pos hdigits, List.getElem?_eq_none_iff]
  by_contra! hlt
  have hle := m.list_le
  have hcaptures := m.captures_lt
  have heq := cInt_atoi hdigits (by omega)
  omega

/-- A read inside the list finds the group of that number. -/
lemma at_group {n : Int} (hdigits : name.all isDigit) (heq : n = decimal name) (hle : 0 ≤ n)
    (hlt : n < m.list.length) : m.at n = m.group name := by
  rw [at_list hle hlt, Match.group, if_pos hdigits, heq, Int.toNat_natCast]

/-- Reading inside the list, the code puts in what the reference stands for, or it stands for
nothing. -/
lemma lookup_group (h : (0 : UInt8) ∉ name) (hlist : m.InList (pathReference name)) :
    m.lookup (pathReference name) = m.group name ∨ m.group name = none := by
  have hread := hlist (pathReference_head name)
  rw [reads_pathReference h] at hread
  rw [lookup_pathReference h]
  split_ifs at hread ⊢ with hdigits hcaptures
  · exact .inr (group_none hdigits (.inr hcaptures))
  · obtain ⟨hle, hlt⟩ := hread _ (List.mem_singleton_self _)
    by_cases heq : cInt (atoi name) = decimal name
    · exact .inl (at_group hdigits heq hle hlt)
    · exact .inr (group_none hdigits (.inl heq))
  · left
    rw [Match.group, if_neg hdigits]

/-- It puts in what the reference stands for exactly when the number fits. -/
lemma value_eq_iff (h : (0 : UInt8) ∉ name) (hlist : m.InList (pathReference name)) :
    ((m.lookup (pathReference name)).map Subtype.val).getD []
        = ((m.group name).map Subtype.val).getD [] ↔
      (name.all isDigit → cInt (atoi name) = decimal name ∨
        (m.captures : Int) < cInt (atoi name) ∨
          ((m.at (cInt (atoi name))).map Subtype.val).getD [] = []) := by
  have hread := hlist (pathReference_head name)
  rw [reads_pathReference h] at hread
  rw [lookup_pathReference h]
  split_ifs at hread ⊢ with hdigits hcaptures
  · simp [hcaptures, group_none hdigits (.inr hcaptures)]
  · obtain ⟨hle, hlt⟩ := hread _ (List.mem_singleton_self _)
    by_cases heq : cInt (atoi name) = decimal name
    · simp [heq, ← at_group hdigits heq hle hlt]
    · simp [heq, hdigits, hcaptures, group_none hdigits (.inl heq)]
  · simp [Match.group, hdigits]

/-- Two texts put together from the same parts, where a part that differs is empty in one of
them. -/
lemma flatMap_eq_iff {α β : Type} {f g : α → List β} {l : List α}
    (h : ∀ x ∈ l, f x = g x ∨ g x = []) : l.flatMap f = l.flatMap g ↔ ∀ x ∈ l, f x = g x := by
  have hlen : ∀ {l : List α}, (∀ x ∈ l, f x = g x ∨ g x = []) →
      (l.flatMap g).length ≤ (l.flatMap f).length := by
    intro l h
    induction l with
    | nil => exact le_refl _
    | cons x l ih =>
      rw [List.forall_mem_cons] at h
      rw [List.flatMap_cons, List.flatMap_cons, List.length_append, List.length_append]
      apply Nat.add_le_add _ (ih h.2)
      rcases h.1 with heq | hnil
      · exact heq ▸ le_refl _
      · exact hnil ▸ Nat.zero_le _
  refine ⟨fun heq => ?_, fun heq => List.flatMap_congr heq⟩
  induction l with
  | nil => simp
  | cons x l ih =>
    rw [List.forall_mem_cons] at h ⊢
    rw [List.flatMap_cons, List.flatMap_cons] at heq
    have hx : f x = g x := by
      rcases h.1 with hx | hnil
      · exact hx
      · have hle := hlen h.2
        have hsum := congrArg List.length heq
        rw [hnil, List.length_append, List.nil_append] at hsum
        rw [hnil, ← List.length_eq_zero_iff]
        omega
    rw [hx, List.append_cancel_left_eq] at heq
    exact ⟨hx, ih h.2 heq⟩

/-! ### The URL -/

lemma nulFree_value (part : Part) : (0 : UInt8) ∉ m.expand part.render := by
  cases part with
  | literal text =>
    rw [Part.render, expand_literal text.2.1]
    exact text.2.2
  | reference name =>
    rw [Part.render, expand_pathReference]
    cases m.lookup (pathReference name.1) with
    | none => simp
    | some val => exact val.2

lemma cstr_eq {u : NextUrl} {value rest : List UInt8} (h : u.text = value ++ 0 :: rest)
    (hvalue : (0 : UInt8) ∉ value) : u.cstr = some value := by
  rw [NextUrl.cstr, if_pos (.inl (by simp [h])), h, List.takeWhile_append_of_pos]
  · simp
  · intro c hc
    simp only [ne_eq, decide_eq_true_eq]
    rintro rfl
    exact hvalue hc

end

/-- `^/x(b)?(c)?` on `/x`: no group has taken part, and the list has the whole match only. -/
def noGroup : Match where
  captures := 2
  list := [⟨bytes "/x", by decide⟩]
  named _ := none
  wild _ := none
  captures_lt := oneOfTwo.captures_lt
  list_le := by decide

end Folksong
