import Folksong.Http.Request

/-!
# Strings that arrive in pieces (`fs_mod_http_buf_append`)

The buffer is made larger when the new piece still fits, and is left as it is when the piece does
not fit any more. A string is put together inside its allocation as long as every piece but the
first one fits into what the pieces before it have left.
-/

namespace Folksong

/-- The buffer holds the pieces put together and a NUL, and everything has been written below the
capacity asked for, which is the one recorded in `len`. -/
structure HttpBuf.Intact (buf : HttpBuf) (pieces : List (List UInt8)) : Prop where
  allocated : buf.allocated
  text : buf.text = pieces.flatten
  inside : buf.inside
  room : buf.text.length < buf.len

/-- The first piece is allocated for. -/
lemma fsModHttpBufAppend_null (piece : List UInt8) :
    fsModHttpBufAppend .null piece = ⟨true, piece.length + 1, piece, true⟩ := by
  simp [fsModHttpBufAppend, HttpBuf.capacity, HttpBuf.null]

lemma foldl_append_allocated {buf : HttpBuf} (h : buf.allocated) (pieces : List (List UInt8)) :
    (pieces.foldl fsModHttpBufAppend buf).allocated := by
  induction pieces generalizing buf with
  | nil => exact h
  | cons bytes pieces ih =>
    apply ih
    rfl

/-- One more piece is written inside the allocation when it fits without growing, and then the
allocation is doubled. -/
lemma fsModHttpBufAppend_of_lt {buf : HttpBuf} (h : buf.allocated) {bytes : List UInt8}
    (hlt : buf.text.length + bytes.length < buf.len) :
    fsModHttpBufAppend buf bytes =
      ⟨true, 2 * buf.len + 1, buf.text ++ bytes, buf.inside⟩ := by
  have hcapa : buf.capacity bytes.length = 2 * buf.len + 1 := by simp [HttpBuf.capacity, h, hlt]
  have hinside : buf.text.length + bytes.length < 2 * buf.len + 1 := by omega
  simp [fsModHttpBufAppend, hcapa, hinside]

/-- Otherwise it is written over the end. -/
lemma fsModHttpBufAppend_of_le {buf : HttpBuf} (h : buf.allocated) {bytes : List UInt8}
    (hle : buf.len ≤ buf.text.length + bytes.length) :
    fsModHttpBufAppend buf bytes = ⟨true, buf.len, buf.text ++ bytes, false⟩ := by
  have hcapa : buf.capacity bytes.length = buf.len := by
    simp [HttpBuf.capacity, h, Nat.not_lt.mpr hle]
  simp [fsModHttpBufAppend, hcapa, Nat.not_lt.mpr hle]

/-- What is once outside stays there. -/
lemma foldl_append_outside {buf : HttpBuf} (h : buf.inside = false) (pieces : List (List UInt8)) :
    (pieces.foldl fsModHttpBufAppend buf).inside = false := by
  induction pieces generalizing buf with
  | nil => exact h
  | cons bytes pieces ih =>
    apply ih
    simp [fsModHttpBufAppend, h]

/-- The second piece already runs over the end, unless it is empty. -/
lemma second_outside {bytes : List UInt8} (hne : bytes ≠ []) (piece : List UInt8)
    (pieces : List (List UInt8)) :
    ((piece :: bytes :: pieces).foldl fsModHttpBufAppend .null).inside = false := by
  have hpos : 0 < bytes.length := List.length_pos_iff.mpr hne
  rw [List.foldl_cons, fsModHttpBufAppend_null, List.foldl_cons,
    fsModHttpBufAppend_of_le rfl (Nat.add_le_add_left hpos _)]
  exact foldl_append_outside rfl pieces

/-- Every piece fits into the capacity before it, which each piece doubles. -/
lemma foldl_append_inside_iff {buf : HttpBuf} (h : buf.allocated) (hinside : buf.inside)
    (hroom : buf.text.length < buf.len) (pieces : List (List UInt8)) :
    ((pieces.foldl fsModHttpBufAppend buf).inside = true ∧
        (pieces.foldl fsModHttpBufAppend buf).text.length
          < (pieces.foldl fsModHttpBufAppend buf).len) ↔
      ∀ pre bytes, pre ++ [bytes] <+: pieces →
        buf.text.length + (pre ++ [bytes]).flatten.length + 1 < 2 ^ pre.length * (buf.len + 1) := by
  induction pieces generalizing buf with
  | nil =>
    refine iff_of_true ⟨hinside, hroom⟩ fun pre bytes hpre => ?_
    simp at hpre
  | cons bytes pieces ih =>
    rw [List.foldl_cons]
    by_cases hlt : buf.text.length + bytes.length < buf.len
    · rw [fsModHttpBufAppend_of_lt h hlt]
      have hroom' : (buf.text ++ bytes).length < 2 * buf.len + 1 := by
        rw [List.length_append]
        omega
      rw [@ih ⟨true, 2 * buf.len + 1, buf.text ++ bytes, buf.inside⟩ rfl hinside hroom']
      have hpow : ∀ n, 2 ^ (n + 1) * (buf.len + 1) = 2 ^ n * (2 * buf.len + 1 + 1) := by
        intro n
        ring
      constructor
      · intro hall pre last hpre
        cases pre with
        | nil =>
          obtain rfl : last = bytes := by simpa using hpre
          simpa using by omega
        | cons b pre =>
          rw [List.cons_append, List.cons_prefix_cons] at hpre
          obtain ⟨rfl, hpre⟩ := hpre
          have hbound := hall pre last hpre
          rw [List.length_cons, hpow]
          simpa [Nat.add_assoc] using hbound
      · intro hall pre last hpre
        have hbound := hall (bytes :: pre) last (by simpa using hpre)
        rw [List.length_cons, hpow] at hbound
        simpa [Nat.add_assoc] using hbound
    · rw [fsModHttpBufAppend_of_le h (Nat.le_of_not_lt hlt)]
      refine iff_of_false (fun hin => ?_) fun hall => hlt ?_
      · rw [foldl_append_outside rfl] at hin
        exact absurd hin.1 (by simp)
      · have hbound := hall [] bytes (by simp)
        simp at hbound
        omega

/-- A url, a name or a value that arrives in one or more pieces is put together inside its
allocation exactly when, for all `k`, it has fewer than `2 ^ k * (n + 2) - 1` bytes up to the
piece number `k + 2`, where `n` is the length of the first piece. -/
theorem intact_iff (piece : List UInt8) (pieces : List (List UInt8)) :
    ((piece :: pieces).foldl fsModHttpBufAppend .null).Intact (piece :: pieces) ↔
      ∀ pre bytes, pre ++ [bytes] <+: pieces →
        (piece :: pre ++ [bytes]).flatten.length + 1 < 2 ^ pre.length * (piece.length + 2) := by
  have hiff := @foldl_append_inside_iff ⟨true, piece.length + 1, piece, true⟩ rfl rfl
    (Nat.lt_succ_self _) pieces
  rw [List.foldl_cons, fsModHttpBufAppend_null]
  constructor
  · rintro ⟨-, -, hinside, hroom⟩ pre bytes hpre
    have hbound := hiff.mp ⟨hinside, hroom⟩ pre bytes hpre
    simpa [Nat.add_assoc] using hbound
  · intro hall
    obtain ⟨hinside, hroom⟩ := hiff.mpr fun pre bytes hpre => by
      have hbound := hall pre bytes hpre
      simpa [Nat.add_assoc] using hbound
    exact ⟨foldl_append_allocated rfl pieces, by simp, hinside, hroom⟩

/-- A header name in two pieces of one byte. -/
theorem not_intact :
    ¬ ∀ pieces : List (List UInt8), pieces ≠ [] →
      (pieces.foldl fsModHttpBufAppend .null).Intact pieces := by
  intro h
  have hinside := (h [bytes "a", bytes "b"] (List.cons_ne_nil _ _)).inside
  rw [second_outside (by decide)] at hinside
  cases hinside

/-! ### The strings of a request -/

/-- A piece of `length` bytes goes over the end. -/
def HttpBuf.overruns (buf : HttpBuf) (length : Nat) : Bool :=
  decide (buf.capacity length ≤ buf.text.length + length)

lemma append_inside_iff (buf : HttpBuf) (bytes : List UInt8) :
    (fsModHttpBufAppend buf bytes).inside = true ↔
      buf.inside = true ∧ buf.overruns bytes.length = false := by
  simp [fsModHttpBufAppend, HttpBuf.overruns]

/-- The pieces of a string are put together inside its allocation. -/
def Fit (pieces : List (List UInt8)) : Prop := (pieces.foldl fsModHttpBufAppend .null).inside

/-- The callbacks for headers whose names and values arrive in pieces that fit. -/
inductive HeadersFit : List HttpEvent → Prop where
  | nil : HeadersFit []
  | cons {names values evs} : names ≠ [] → values ≠ [] → Fit names → Fit values →
      HeadersFit evs → HeadersFit (names.map .headerField ++ values.map .headerValue ++ evs)

/-- The callbacks for a request of which every string arrives in pieces that fit. -/
inductive StringsFit : List HttpEvent → Prop where
  | mk {urls bodies : List (List UInt8)} {headers trailers : List HttpEvent} :
      Fit urls → HeadersFit headers → HeadersFit trailers →
      StringsFit (urls.map .url ++ (headers ++ (.headersComplete :: (bodies.map .body ++
        (trailers ++ [.messageComplete])))))

/-- All that a request holds has been written inside its allocation. -/
def HttpReq.Inside (req : HttpReq) : Prop :=
  req.urlBuf.inside ∧ ∀ buf ∈ req.pKey ++ req.pVal, buf.inside

instance : DecidablePred HttpReq.Inside :=
  fun _ => inferInstanceAs (Decidable (_ ∧ _))

section

variable (routes : List Route) (pcre : Pcre) {req : HttpReq}

lemma HttpReq.KeepsTexts.inside_iff {req' : HttpReq} (h : req.KeepsTexts req') :
    req'.Inside ↔ req.Inside := by
  rw [HttpReq.Inside, HttpReq.Inside, h.url, h.key, h.val]

lemma keepsTexts_bodies (bodies : List (List UInt8)) :
    req.KeepsTexts (Mealy.run (httpStep routes pcre) req (bodies.map .body)).1 := by
  induction bodies generalizing req with
  | nil => exact ⟨rfl, rfl, rfl, rfl⟩
  | cons bytes bodies ih => exact (req.keepsTexts_body routes bytes).trans ih

lemma HeadersFit.run {evs : List HttpEvent} (h : HeadersFit evs) (hreq : req.Inside)
    (hstate : req.pState ≠ .inKey) :
    (Mealy.run (httpStep routes pcre) req evs).1.Inside ∧
      (Mealy.run (httpStep routes pcre) req evs).1.pState ≠ .inKey := by
  induction h generalizing req with
  | nil => exact ⟨hreq, hstate⟩
  | cons hnames hvalues hname hvalue _ ih =>
    rw [Mealy.run_append, run_header routes pcre hnames hvalues req hstate]
    refine ih ⟨hreq.1, fun buf hbuf => ?_⟩ nofun
    simp only [List.mem_append, List.mem_singleton] at hbuf
    rcases hbuf with (hbuf | rfl) | hbuf | rfl
    · exact hreq.2 buf (List.mem_append_left _ hbuf)
    · exact hname
    · exact hreq.2 buf (List.mem_append_right _ hbuf)
    · exact hvalue

/-- A request that arrives alone, and whose strings fit, is put together inside. -/
lemma StringsFit.run {evs : List HttpEvent} (h : StringsFit evs) :
    (Mealy.run (httpStep routes pcre) .fresh evs).1.Inside := by
  obtain ⟨hurls, hheaders, htrailers⟩ := h
  rename_i urls bodies headers trailers
  have hurl : HttpReq.Inside
      { HttpReq.fresh with urlBuf := urls.foldl fsModHttpBufAppend HttpReq.fresh.urlBuf } :=
    ⟨hurls, fun buf hbuf => by cases hbuf⟩
  obtain ⟨hinside, hstate⟩ := hheaders.run routes pcre hurl nofun
  rw [Mealy.run_append, run_urls, Mealy.run_append]
  set req₁ := (Mealy.run (httpStep routes pcre) _ headers).1
  have hkept : req₁.KeepsTexts (Mealy.run (httpStep routes pcre)
      (fsModHttpOnHeadersComplete routes pcre req₁) (bodies.map .body)).1 :=
    (req₁.keepsTexts_headersComplete routes pcre).trans (keepsTexts_bodies routes pcre bodies)
  have hlast := htrailers.run routes pcre (hkept.inside_iff.mpr hinside)
    (by rw [hkept.state]; exact hstate)
  rw [Mealy.run_cons, Mealy.run_append, Mealy.run_append]
  exact hlast.1

end

end Folksong
