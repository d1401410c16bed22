import Folksong.Http.Blocks

/-!
# What goes outside of the blocks of a connection (`fs_mod_http.c`)

`fs_mod_http_buf_append` writes behind a string that has no room left, and the path of a proxied
request leaves its buffers for some templates. Nothing else in the callbacks on blocks does; both
are read off the texts that run beside them.
-/

namespace Folksong

open Ledger

/-- The callback goes outside of a block: a piece does not fit behind its string, or the path of the
proxy that is selected leaves its buffers. -/
def strays (routes : List Route) (pcre : Pcre) (req : HttpReq) : HttpEvent → Bool
  | .url bytes => req.urlBuf.overruns bytes.length
  | .headerField bytes => !decide (req.pState = .wantKey ∨ req.pState = .inValue) &&
    (req.pKey.getLast?.getD .null).overruns bytes.length
  | .headerValue bytes => !decide (req.pState = .inKey) &&
    (req.pVal.getLast?.getD .null).overruns bytes.length
  | .headersComplete =>
    (routes.find? (·.matches pcre req.urlBuf.text)).any (Route.strays pcre req.urlBuf.text)
  | _ => false

def strayed (routes : List Route) (pcre : Pcre) : HttpReq → List HttpEvent → Bool
  | _, [] => false
  | req, e :: evs =>
    strays routes pcre req e || strayed routes pcre (httpStep routes pcre req e).1 evs

lemma strayed_append {routes : List Route} {pcre : Pcre} (req : HttpReq) (evs evs' : List HttpEvent) :
    strayed routes pcre req (evs ++ evs') = (strayed routes pcre req evs ||
      strayed routes pcre (Mealy.run (httpStep routes pcre) req evs).1 evs') := by
  induction evs generalizing req with
  | nil => rfl
  | cons e evs ih =>
    rw [List.cons_append, strayed, ih, strayed, Mealy.run_cons, Bool.or_assoc]

/-- The path of a proxy that the callback selects stays inside its buffers. -/
def PathFits (routes : List Route) (pcre : Pcre) (req : HttpReq) : HttpEvent → Prop
  | .headersComplete => ∀ p, routes.find? (·.matches pcre req.urlBuf.text) = some (.proxy p) →
    p.PathFits pcre req.urlBuf.text
  | _ => True

def PathsFit (routes : List Route) (pcre : Pcre) : HttpReq → List HttpEvent → Prop
  | _, [] => True
  | req, e :: evs =>
    PathFits routes pcre req e ∧ PathsFit routes pcre (httpStep routes pcre req e).1 evs

section

variable {routes : List Route} {pcre : Pcre} {pieces : Nat → List UInt8 → Nat}
variable {req : HttpReq} {n : Nat} {m : ReqBlocks}

/-! ### On blocks -/

lemma strays_growBlock (block : Option Nat) (buf : HttpBuf) (length : Nat) :
    Strays (growBlock block buf length) false := by
  cases block with
  | none => exact .alloc
  | some b =>
    rw [growBlock]
    split_ifs
    · exact .realloc b
    · exact (Strays.use b).behind fun _ => .pure b

lemma strays_appendBlock (block : Option Nat) (buf : HttpBuf) (length : Nat) :
    Strays (appendBlock block buf length) (buf.overruns length) :=
  (strays_growBlock block buf length).behind fun b => (Strays.stray _).before fun _ => .pure b

lemma strays_allocArr (capa : Nat) : Strays (allocArr capa) false :=
  Strays.alloc.behind fun _ => Strays.alloc.behind fun _ => .pure _

lemma strays_allocReq : Strays allocReq false :=
  Strays.alloc.behind fun _ => (strays_allocArr 4).behind fun _ =>
    (strays_allocArr 4).behind fun _ => .pure _

lemma strays_push (a : ArrBlocks) : Strays a.push false := by
  have hgrow : Strays a.grow false := by
    rw [ArrBlocks.grow]
    split_ifs
    · exact Strays.alloc.behind fun _ => (Strays.release _).behind fun _ => .pure _
    · exact .pure a
  exact hgrow.behind fun _ => Strays.alloc.behind fun _ => .pure _

lemma strays_piece {a : ArrBlocks} {bufs : List HttpBuf} {opens : Bool}
    (hlen : a.strings.length = bufs.length) (hne : opens = false → bufs ≠ []) (length : Nat) :
    Strays (a.piece opens bufs length)
      (!opens && (bufs.getLast?.getD .null).overruns length) := by
  cases opens with
  | true => exact strays_push a
  | false =>
    have hpos : 0 < a.strings.length := hlen ▸ List.length_pos_iff.mpr (hne rfl)
    have hlast : a.strings.getLast? = some (a.strings.getLast (List.length_pos_iff.mp hpos)) :=
      List.getLast?_eq_some_getLast _
    rw [ArrBlocks.piece, if_neg Bool.false_ne_true, ArrBlocks.appendLast, hlast]
    exact (strays_appendBlock _ _ _).before fun _ => .pure _

lemma strays_appendPieces (n : Nat) (block : Option Nat) : Strays (appendPieces n block) false := by
  induction n generalizing block with
  | zero => exact .pure block
  | succ n ih =>
    cases block with
    | none => exact Strays.alloc.behind fun b => ih (some b)
    | some b => exact (Strays.realloc b).behind fun b => ih (some b)

lemma strays_initBlocks (url : List UInt8) (n : Nat) (route : Route) :
    Strays (route.initBlocks pcre url n) (route.strays pcre url) := by
  cases route with
  | publisher p => exact Strays.alloc.behind fun _ => .pure _
  | proxy p =>
    exact Strays.alloc.behind fun _ => (strays_appendPieces n none).behind fun _ =>
      (Strays.stray _).before fun _ => .pure _

lemma strays_bodyBlocks (value : Nat) (buf : Option Nat) : Strays (bodyBlocks value buf) false := by
  refine (Strays.use value).behind fun _ => ?_
  cases buf with
  | none => exact Strays.alloc.behind fun _ => .pure _
  | some b => exact (Strays.realloc b).behind fun _ => .pure _

variable (routes pcre pieces) in
lemma strays_onEvent {e : HttpEvent} (h : m.Fits req n)
    (hvalue : ∀ bytes, e = .headerValue bytes → req.pState ≠ .wantKey) :
    Strays (m.onEvent routes pcre pieces req e) (strays routes pcre req e) := by
  cases e with
  | url bytes => exact (strays_appendBlock _ _ _).before fun _ => .pure _
  | headerField bytes =>
    refine Strays.before (strays_piece h.pKey (fun hno => ?_) _) fun _ => .pure _
    exact h.inKey (inKey_of_not_opens (of_decide_eq_false hno))
  | headerValue bytes =>
    refine Strays.before (strays_piece h.pVal (fun hno => ?_) _) fun _ => .pure _
    exact h.inValue (inValue_of_not_opens (hvalue bytes rfl) (of_decide_eq_false hno))
  | headersComplete =>
    have hfind : routes.find? (·.matches pcre req.urlBuf.text) =
        (routes.findIdx? (·.matches pcre req.urlBuf.text)).bind (routes[·]?) :=
      List.find?_eq_bind_findIdx?_getElem?
    rw [ReqBlocks.onEvent, ReqBlocks.onHeadersComplete, strays, hfind]
    cases routes.findIdx? (·.matches pcre req.urlBuf.text) with
    | none => exact .pure m
    | some i =>
      rw [Option.bind_some]
      dsimp only
      cases routes[i]? with
      | none => exact .pure m
      | some route => exact (strays_initBlocks _ _ route).before fun _ => .pure _
  | body bytes =>
    rw [ReqBlocks.onEvent, ReqBlocks.onBody]
    split
    · exact (strays_bodyBlocks _ _).behind fun _ => .pure _
    · exact Strays.misuse.behind fun _ => .pure m
    · exact .pure m
  | messageComplete => exact .pure m

variable (routes pcre pieces) in
lemma strayed_onEvents {evs : List HttpEvent} {h : Ledger.Heap} {rest : Multiset Nat}
    (hfits : m.Fits req n) (hfirst : FieldFirst req evs) (hholds : h.Holds (m.all + rest)) :
    ((m.onEvents routes pcre pieces req evs).run h).2.strayed =
      (h.strayed || strayed routes pcre req evs) := by
  induction evs generalizing req n m h with
  | nil => exact (Bool.or_false _).symm
  | cons e evs ih =>
    obtain ⟨_, ⟨rfl, hfits'⟩, hholds', -⟩ :=
      onEvent_triple routes pcre pieces hfits hfirst h rest hholds
    have hone := strays_onEvent routes pcre pieces hfits (value_of_first hfirst) h
    exact (ih hfits' hfirst.tail hholds').trans
      ((congrArg (· || _) hone).trans (Bool.or_assoc _ _ _))

lemma strays_allocRead (m : ReqBlocks) : Strays (allocRead m) false := by
  rw [allocRead]
  cases m.buf with
  | none => exact Strays.alloc.behind fun _ => .pure _
  | some b => exact .pure m

lemma strays_releaseOption (block : Option Nat) : Strays (releaseOption block) false := by
  cases block with
  | none => exact .pure ()
  | some b => exact .release b

lemma strays_releaseArr (a : ArrBlocks) : Strays a.release false :=
  (Strays.releaseAll _).behind fun _ => (Strays.release _).behind fun _ => .release _

variable (req m) in
lemma strays_release : Strays (m.release req) false := by
  have hroute : Strays (releaseRoute req m) false := by
    rw [releaseRoute]
    split_ifs
    · cases m.self with
      | none => exact .misuse
      | some self => exact (strays_releaseOption _).behind fun _ => .release _
    · exact .pure ()
  exact (strays_releaseOption _).behind fun _ => (strays_releaseOption _).behind fun _ =>
    hroute.behind fun _ => (strays_releaseArr _).behind fun _ => (strays_releaseArr _).behind
      fun _ => .release _

variable (routes pcre pieces) in
/-- A read goes outside where its callbacks do. -/
lemma strayed_onReaded {r : ConnRead} {h : Ledger.Heap} {rest : Multiset Nat} (hfits : m.Fits req n)
    (hfirst : FieldFirst req (ConnEvent.readed r).events) (hholds : h.Holds (m.all + rest)) :
    ((m.onConnEvent routes pcre pieces req (.readed r)).run h).2.strayed =
      (h.strayed || strayed routes pcre req (ConnEvent.readed r).events) := by
  obtain ⟨_, rfl, hholds₁, -⟩ := Triple.use (req_mem_all m) h rest hholds
  obtain ⟨_, ⟨rfl, hfits'⟩, hholds₂, -⟩ := allocRead_triple hfits _ rest hholds₁
  have hfirst' : (((use m.req >>= fun _ => allocRead m) : Command ReqBlocks).run h).2.strayed =
      h.strayed :=
    ((Strays.use m.req).behind (fun _ => strays_allocRead m) h).trans (Bool.or_false _)
  have hrun := strayed_onEvents routes pcre pieces hfits' hfirst hholds₂
  exact hrun.trans (congrArg (· || _) hfirst')

variable (routes pcre pieces req m) in
/-- The other callbacks do not. -/
lemma strays_onConnEvent {e : ConnEvent} (he : ∀ r, e ≠ .readed r) :
    Strays (m.onConnEvent routes pcre pieces req e) false := by
  refine (Strays.use _).behind fun _ => ?_
  cases e with
  | readed r => exact absurd rfl (he r)
  | writed => exact .pure m
  | closed => exact (strays_release req m).behind fun _ => .pure m

/-! ### On texts -/

lemma null_overruns (length : Nat) : HttpBuf.null.overruns length = false := by
  simp [HttpBuf.overruns, HttpBuf.capacity, HttpBuf.null]

lemma null_append_inside (bytes : List UInt8) :
    (fsModHttpBufAppend .null bytes).inside = true := by
  rw [fsModHttpBufAppend_null]

lemma updateLast_inside_iff (bufs : List HttpBuf) (bytes : List UInt8) :
    (∀ buf ∈ updateLast (fsModHttpBufAppend · bytes) bufs, buf.inside) ↔
      (∀ buf ∈ bufs, buf.inside) ∧
        (bufs.getLast?.getD .null).overruns bytes.length = false := by
  rcases List.eq_nil_or_concat bufs with rfl | ⟨init, buf, rfl⟩
  · simp [updateLast, null_overruns]
  · rw [List.concat_eq_append, updateLast_concat, List.forall_mem_append, List.forall_mem_append,
      List.forall_mem_singleton, List.forall_mem_singleton, append_inside_iff, and_assoc]
    simp

variable (routes pcre req) in
/-- One callback keeps what is inside there, and stays inside with the path it selects, exactly when
it goes outside of no block. -/
lemma inside_step_iff (e : HttpEvent) :
    (httpStep routes pcre req e).1.Inside ∧ PathFits routes pcre req e ↔
      req.Inside ∧ strays routes pcre req e = false := by
  cases e with
  | url bytes =>
    simp only [PathFits, and_true, httpStep, fsModHttpOnUrl, HttpReq.Inside, strays,
      append_inside_iff]
    tauto
  | headerField bytes =>
    simp only [PathFits, and_true, httpStep, fsModHttpOnHeaderField, strays]
    split_ifs with hopens
    · rw [HttpReq.Inside, HttpReq.Inside]
      simp only [hopens, List.forall_mem_append, List.forall_mem_singleton, null_append_inside]
      simp
    · rw [HttpReq.Inside, HttpReq.Inside]
      simp only [List.forall_mem_append, updateLast_inside_iff]
      simp [hopens]
      tauto
  | headerValue bytes =>
    simp only [PathFits, and_true, httpStep, fsModHttpOnHeaderValue, strays]
    split_ifs with hopens
    · rw [HttpReq.Inside, HttpReq.Inside]
      simp only [hopens, List.forall_mem_append, List.forall_mem_singleton, null_append_inside]
      simp
    · rw [HttpReq.Inside, HttpReq.Inside]
      simp only [List.forall_mem_append, updateLast_inside_iff]
      simp [hopens]
      tauto
  | headersComplete =>
    rw [httpStep, (req.keepsTexts_headersComplete routes pcre).inside_iff, PathFits, strays]
    refine and_congr_right fun _ => ?_
    cases routes.find? (·.matches pcre req.urlBuf.text) with
    | none => simp
    | some route =>
      cases route with
      | publisher p => simp [Route.strays]
      | proxy p => simp [Route.strays, ← nextPath_isSome_iff, Option.isSome_iff_ne_none]
  | body bytes =>
    rw [httpStep, (req.keepsTexts_body routes bytes).inside_iff]
    simp [PathFits, strays]
  | messageComplete => simp [PathFits, strays, httpStep]

variable (routes pcre) in
/-- The callbacks go outside of no block exactly when every string has been put together inside,
and the paths of all proxies that were selected stay inside. -/
lemma inside_run_iff (req : HttpReq) (evs : List HttpEvent) :
    (Mealy.run (httpStep routes pcre) req evs).1.Inside ∧ PathsFit routes pcre req evs ↔
      req.Inside ∧ strayed routes pcre req evs = false := by
  induction evs generalizing req with
  | nil => simp [PathsFit, strayed]
  | cons e evs ih =>
    have hstep := inside_step_iff routes pcre req e
    have htail := ih (httpStep routes pcre req e).1
    rw [Mealy.run_cons, PathsFit, strayed, Bool.or_eq_false_iff]
    tauto

end

end Folksong
