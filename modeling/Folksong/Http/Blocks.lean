import Folksong.Http.Append
import Folksong.Http.Connection
import Folksong.Http.Headers
import Folksong.Lib.Ledger

/-!
# The memory of a connection (`fs_mod_http.c`)

The callbacks again, on the blocks they allocate and release. A `fs_mod_http_req_t` has a block of
its own and those its fields point to; `fs_mod_http_req_release` gives them back. What the strings
hold is left to the callbacks on texts, which run beside these, and what pcre and librdkafka
allocate for a message is not among these blocks.
-/

namespace Folksong

open Ledger

/-- The `fs_arr_t` of the names or of the values: its own block, its elements, how many of them
there is room for, and what they point to. -/
structure ArrBlocks where
  arr : Nat
  elems : Nat
  eleCapa : Nat
  strings : List Nat

/-- `fs_mod_http_req_t`: the value of a publisher or the next hop of a proxy comes with the buffer
it points to. What `self` has pointed to before is lost. -/
structure ReqBlocks where
  req : Nat
  buf : Option Nat
  urlBuf : Option Nat
  pKey : ArrBlocks
  pVal : ArrBlocks
  self : Option (Nat × Option Nat)
  lost : List (Nat × Option Nat)

/-! ### The callbacks -/

/-- `fs_alloc_arr`. -/
def allocArr (capa : Nat) : Command ArrBlocks := do
  let arr ← alloc
  let elems ← alloc
  return ⟨arr, elems, capa, []⟩

/-- `fs_mod_http_connection_cb`. -/
def allocReq : Command ReqBlocks := do
  let req ← alloc
  let pKey ← allocArr 4
  let pVal ← allocArr 4
  return ⟨req, none, none, pKey, pVal, none, []⟩

/-- `fs_mod_http_req_read_alloc_cb`. -/
def allocRead (m : ReqBlocks) : Command ReqBlocks :=
  match m.buf with
  | some _ => return m
  | none => do
    let buf ← alloc
    return { m with buf := some buf }

/-- The block that `fs_mod_http_buf_append` writes into. -/
def growBlock (block : Option Nat) (buf : HttpBuf) (length : Nat) : Command Nat :=
  match block with
  | none => alloc
  | some b =>
    if buf.text.length + length < buf.len then realloc b
    else do
      use b
      return b

/-- `fs_mod_http_buf_append`, on a string that holds `buf`. -/
def appendBlock (block : Option Nat) (buf : HttpBuf) (length : Nat) : Command Nat := do
  let b ← growBlock block buf length
  stray (buf.overruns length)
  return b

/-- The elements of a full array are moved by `fs_arr_push`. -/
def ArrBlocks.grow (a : ArrBlocks) : Command ArrBlocks :=
  if a.strings.length = a.eleCapa then do
    let elems ← alloc
    release a.elems
    return { a with elems := elems, eleCapa := 2 * a.eleCapa }
  else return a

/-- A new string of the array. -/
def ArrBlocks.push (a : ArrBlocks) : Command ArrBlocks := do
  let a ← a.grow
  let s ← alloc
  return { a with strings := a.strings ++ [s] }

/-- The last string of the array; there must be one. -/
def ArrBlocks.appendLast (a : ArrBlocks) (buf : HttpBuf) (length : Nat) : Command ArrBlocks :=
  match a.strings.getLast? with
  | none => do
    misuse
    return a
  | some b => do
    let b ← appendBlock (some b) buf length
    return { a with strings := a.strings.dropLast ++ [b] }

/-- A piece of a name or of a value opens a string, or goes to the last one of `bufs`. -/
def ArrBlocks.piece (a : ArrBlocks) (opens : Bool) (bufs : List HttpBuf) (length : Nat) :
    Command ArrBlocks :=
  if opens then a.push else a.appendLast (bufs.getLast?.getD .null) length

/-- `fs_mod_http_on_url`. -/
def ReqBlocks.onUrl (req : HttpReq) (bytes : List UInt8) (m : ReqBlocks) : Command ReqBlocks := do
  let b ← appendBlock m.urlBuf req.urlBuf bytes.length
  return { m with urlBuf := some b }

/-- `fs_mod_http_on_header_field`. -/
def ReqBlocks.onHeaderField (req : HttpReq) (bytes : List UInt8) (m : ReqBlocks) :
    Command ReqBlocks := do
  let pKey ← m.pKey.piece (req.pState = .wantKey ∨ req.pState = .inValue) req.pKey bytes.length
  return { m with pKey := pKey }

/-- `fs_mod_http_on_header_value`. -/
def ReqBlocks.onHeaderValue (req : HttpReq) (bytes : List UInt8) (m : ReqBlocks) :
    Command ReqBlocks := do
  let pVal ← m.pVal.piece (req.pState = .inKey) req.pVal bytes.length
  return { m with pVal := pVal }

/-- The url of a proxy is put together from `n` pieces. -/
def appendPieces : Nat → Option Nat → Command (Option Nat)
  | 0, b => return b
  | n + 1, none => do
    let b ← alloc
    appendPieces n (some b)
  | n + 1, some b => do
    let b ← realloc b
    appendPieces n (some b)

/-- The path of a proxy leaves its buffers. -/
def Route.strays (pcre : Pcre) (url : List UInt8) : Route → Bool
  | .publisher _ => false
  | .proxy p => (p.nextPath pcre url).isNone

/-- `fs_mod_http_kafka_init_cb` and `fs_mod_http_proxy_init_cb`. -/
def Route.initBlocks (pcre : Pcre) (url : List UInt8) (pieces : Nat) :
    Route → Command (Nat × Option Nat)
  | .publisher _ => do
    let value ← alloc
    return (value, none)
  | .proxy p => do
    let next ← alloc
    let buf ← appendPieces pieces none
    stray (Route.strays pcre url (.proxy p))
    return (next, buf)

/-- `fs_mod_http_on_headers_complete`; `pieces` is what a proxy expands for a url. -/
def ReqBlocks.onHeadersComplete (routes : List Route) (pcre : Pcre)
    (pieces : Nat → List UInt8 → Nat) (req : HttpReq) (m : ReqBlocks) : Command ReqBlocks :=
  match routes.findIdx? (·.matches pcre req.urlBuf.text) with
  | none => return m
  | some i =>
    match routes[i]? with
    | none => return m
    | some route => do
      let self ← route.initBlocks pcre req.urlBuf.text (pieces i req.urlBuf.text)
      return { m with self := some self, lost := m.lost ++ m.self.toList }

/-- `fs_mod_http_kafka_body_cb`. -/
def bodyBlocks (value : Nat) (buf : Option Nat) : Command (Nat × Option Nat) := do
  use value
  match buf with
  | none =>
    let b ← alloc
    return (value, some b)
  | some b =>
    let b ← realloc b
    return (value, some b)

/-- `fs_mod_http_on_body`; `fs_mod_http_proxy_body_cb` does nothing. -/
def ReqBlocks.onBody (routes : List Route) (req : HttpReq) (m : ReqBlocks) : Command ReqBlocks :=
  match req.route.bind (routes[·]?), m.self with
  | some (.publisher _), some (value, buf) => do
    let self ← bodyBlocks value buf
    return { m with self := some self }
  | some (.publisher _), none => do
    misuse
    return m
  | _, _ => return m

/-- One callback of the parser. -/
def ReqBlocks.onEvent (routes : List Route) (pcre : Pcre) (pieces : Nat → List UInt8 → Nat)
    (req : HttpReq) (m : ReqBlocks) : HttpEvent → Command ReqBlocks
  | .url bytes => m.onUrl req bytes
  | .headerField bytes => m.onHeaderField req bytes
  | .headerValue bytes => m.onHeaderValue req bytes
  | .headersComplete => m.onHeadersComplete routes pcre pieces req
  | .body _ => m.onBody routes req
  | .messageComplete => return m

/-- The callbacks of a read, beside those on the texts. -/
def ReqBlocks.onEvents (routes : List Route) (pcre : Pcre) (pieces : Nat → List UInt8 → Nat) :
    HttpReq → ReqBlocks → List HttpEvent → Command ReqBlocks
  | _, m, [] => return m
  | req, m, e :: evs => do
    let m ← m.onEvent routes pcre pieces req e
    onEvents routes pcre pieces (httpStep routes pcre req e).1 m evs

def releaseOption : Option Nat → Command Unit
  | none => return ()
  | some b => release b

/-- The end of `fs_mod_http_req_release` for an array. -/
def ArrBlocks.release (a : ArrBlocks) : Command Unit := do
  releaseAll a.strings
  Ledger.release a.elems
  Ledger.release a.arr

/-- `fs_mod_http_kafka_release_cb` and `fs_mod_http_proxy_release_cb`. -/
def releaseSelf : Option (Nat × Option Nat) → Command Unit
  | none => misuse
  | some (self, buf) => do
    releaseOption buf
    release self

/-- The call of `route->release_cb`. -/
def releaseRoute (req : HttpReq) (m : ReqBlocks) : Command Unit :=
  if req.route.isSome then releaseSelf m.self else return ()

/-- `fs_mod_http_req_release`. -/
def ReqBlocks.release (req : HttpReq) (m : ReqBlocks) : Command Unit := do
  releaseOption m.buf
  releaseOption m.urlBuf
  releaseRoute req m
  m.pKey.release
  m.pVal.release
  Ledger.release m.req

/-- The callbacks of the parser in a callback of libuv. -/
def ConnEvent.events : ConnEvent → List HttpEvent
  | .readed (.data evs _) => evs
  | _ => []

/-- A callback of libuv, for a request that is there. -/
def ReqBlocks.serve (routes : List Route) (pcre : Pcre) (pieces : Nat → List UInt8 → Nat)
    (req : HttpReq) (m : ReqBlocks) (e : ConnEvent) : Command ReqBlocks :=
  match e with
  | .readed _ => do
    let m ← allocRead m
    m.onEvents routes pcre pieces req e.events
  | .writed => return m
  | .closed => do
    m.release req
    return m

/-- Each callback of libuv uses the request first. -/
def ReqBlocks.onConnEvent (routes : List Route) (pcre : Pcre) (pieces : Nat → List UInt8 → Nat)
    (req : HttpReq) (m : ReqBlocks) (e : ConnEvent) : Command ReqBlocks := do
  use m.req
  m.serve routes pcre pieces req e

/-! ### What belongs to a connection -/

def ArrBlocks.all (a : ArrBlocks) : Multiset Nat := {a.arr} + {a.elems} + a.strings

/-- The blocks of what `self` points to. -/
def selfBlocks (self : Nat × Option Nat) : Multiset Nat := {self.1} + self.2.toList

@[simp] lemma selfBlocks_none (self : Nat) : selfBlocks (self, none) = {self} := by
  simp [selfBlocks]

@[simp] lemma selfBlocks_some (self b : Nat) : selfBlocks (self, some b) = b ::ₘ {self} := by
  simp [selfBlocks, ← Multiset.singleton_add, add_comm]

/-- What `fs_mod_http_req_release` gives back. -/
def ReqBlocks.kept (m : ReqBlocks) : Multiset Nat :=
  {m.req} + m.buf.toList + m.urlBuf.toList + m.pKey.all + m.pVal.all +
    (m.self.toList.map selfBlocks).sum

/-- What nothing points to any more. -/
def ReqBlocks.leaked (m : ReqBlocks) : Multiset Nat := (m.lost.map selfBlocks).sum

def ReqBlocks.all (m : ReqBlocks) : Multiset Nat := m.kept + m.leaked

/-- The blocks are those of the texts, behind `n` selections of a route. -/
structure ReqBlocks.Fits (req : HttpReq) (n : Nat) (m : ReqBlocks) : Prop where
  pKey : m.pKey.strings.length = req.pKey.length
  pVal : m.pVal.strings.length = req.pVal.length
  self : m.self.isSome = req.route.isSome
  inKey : req.pState = .inKey → req.pKey ≠ []
  inValue : req.pState = .inValue → req.pVal ≠ []
  made : m.lost.length + m.self.toList.length = n
  lost : m.lost ≠ [] → m.self.isSome

/-- The selections of a route that a callback makes. -/
def selects (routes : List Route) (pcre : Pcre) (req : HttpReq) : HttpEvent → Nat
  | .headersComplete => (routes.findIdx? (·.matches pcre req.urlBuf.text)).toList.length
  | _ => 0

def selections (routes : List Route) (pcre : Pcre) : HttpReq → List HttpEvent → Nat
  | _, [] => 0
  | req, e :: evs =>
    selects routes pcre req e + selections routes pcre (httpStep routes pcre req e).1 evs

section

variable {routes : List Route} {pcre : Pcre} {pieces : Nat → List UInt8 → Nat}
variable {req : HttpReq} {n : Nat} {m : ReqBlocks}

/-! ### What the callbacks keep -/

lemma allocArr_triple {capa : Nat} :
    Triple 0 (allocArr capa) fun a own => own = a.all ∧ a.strings = [] := by
  refine .bind .alloc fun arr _ harr => .bind .alloc fun elems _ helems => .pure ⟨?_, rfl⟩
  rw [helems, harr, ArrBlocks.all]
  simp [← Multiset.singleton_add, add_comm]

lemma allocReq_triple : Triple 0 allocReq fun m own => own = m.all ∧ m.Fits .fresh 0 := by
  refine .bind .alloc fun b _ hb => ?_
  refine .bind (.frame _ allocArr_triple (zero_add _).symm) ?_
  rintro pKey _ ⟨_, ⟨rfl, hkeys⟩, rfl⟩
  refine .bind (.frame _ allocArr_triple (zero_add _).symm) ?_
  rintro pVal _ ⟨_, ⟨rfl, hvals⟩, rfl⟩
  refine .pure ⟨?_, by simp [hkeys, HttpReq.fresh], by simp [hvals, HttpReq.fresh], rfl, nofun,
    nofun, rfl, absurd rfl⟩
  simp only [hb, ReqBlocks.all, ReqBlocks.kept, ReqBlocks.leaked, Option.toList_none,
    List.map_nil, List.sum_nil, Multiset.coe_nil, ← Multiset.singleton_add]
  abel

lemma growBlock_triple {block : Option Nat} {buf : HttpBuf} {length : Nat} :
    Triple block.toList (growBlock block buf length) fun b own => own = {b} := by
  cases block with
  | none => exact .alloc
  | some b =>
    rw [growBlock, Option.toList_some, Multiset.coe_singleton]
    split_ifs
    · exact .realloc
    · exact .bind (.use (Multiset.mem_singleton_self b)) fun _ _ h => .pure h

lemma appendBlock_triple {block : Option Nat} {buf : HttpBuf} {length : Nat} :
    Triple block.toList (appendBlock block buf length) fun b own => own = {b} := by
  refine .bind growBlock_triple ?_
  rintro b _ rfl
  exact .bind (.stray _) fun _ _ h => .pure h

lemma grow_triple {a : ArrBlocks} :
    Triple a.all a.grow fun a' own => own = a'.all ∧ a'.strings = a.strings := by
  rw [ArrBlocks.grow]
  split_ifs
  · refine .bind .alloc fun elems _ h => ?_
    have hown : elems ::ₘ a.all = a.elems ::ₘ ({a.arr} + {elems} + a.strings) := by
      simp only [ArrBlocks.all, ← Multiset.singleton_add]
      abel
    rw [h, hown]
    exact .bind .release fun _ _ h => .pure ⟨h, rfl⟩
  · exact .pure ⟨rfl, rfl⟩

lemma push_triple {a : ArrBlocks} :
    Triple a.all a.push fun a' own =>
      own = a'.all ∧ a'.strings.length = a.strings.length + 1 := by
  refine .bind grow_triple ?_
  rintro a' _ ⟨rfl, hstrings⟩
  refine .bind .alloc fun s _ h => .pure ⟨?_, by simp [hstrings]⟩
  rw [h]
  simp only [ArrBlocks.all, ← Multiset.singleton_add, ← Multiset.coe_add, Multiset.coe_singleton]
  abel

lemma appendLast_triple {a : ArrBlocks} {buf : HttpBuf} {length : Nat} (hne : a.strings ≠ []) :
    Triple a.all (a.appendLast buf length) fun a' own =>
      own = a'.all ∧ a'.strings.length = a.strings.length := by
  obtain ⟨init, b, hstrings⟩ := List.eq_nil_or_concat a.strings |>.resolve_left hne
  rw [ArrBlocks.appendLast, hstrings, List.concat_eq_append, List.getLast?_concat]
  refine .bind (.frame ({a.arr} + {a.elems} + init) appendBlock_triple ?_) ?_
  · simp only [ArrBlocks.all, hstrings, List.concat_eq_append, ← Multiset.coe_add,
      Multiset.coe_singleton, Option.toList_some]
    abel
  · rintro b' _ ⟨_, rfl, rfl⟩
    refine .pure ⟨?_, by simp⟩
    simp only [ArrBlocks.all, List.dropLast_concat, ← Multiset.coe_add, Multiset.coe_singleton]
    abel

lemma onUrl_triple {bytes : List UInt8} (h : m.Fits req n) :
    Triple m.all (m.onUrl req bytes) fun m' own =>
      own = m'.all ∧ m'.Fits (fsModHttpOnUrl req bytes) n := by
  refine .bind (.frame ({m.req} + m.buf.toList + m.pKey.all + m.pVal.all +
    (m.self.toList.map selfBlocks).sum + m.leaked) appendBlock_triple ?_) ?_
  · simp only [ReqBlocks.all, ReqBlocks.kept]
    abel
  · rintro b _ ⟨_, rfl, rfl⟩
    refine .pure ⟨?_, h.pKey, h.pVal, h.self, h.inKey, h.inValue, h.made, h.lost⟩
    simp only [ReqBlocks.all, ReqBlocks.kept, ReqBlocks.leaked, Option.toList_some,
      Multiset.coe_singleton]
    abel

lemma length_updateLast (f : HttpBuf → HttpBuf) (bufs : List HttpBuf) :
    (updateLast f bufs).length = bufs.length := by
  rcases List.eq_nil_or_concat bufs with rfl | ⟨init, buf, rfl⟩
  · rfl
  · rw [List.concat_eq_append, updateLast_concat]
    simp

lemma piece_triple {a : ArrBlocks} {bufs : List HttpBuf} {length : Nat} {opens : Bool}
    (hlen : a.strings.length = bufs.length) (hne : opens = false → bufs ≠ []) :
    Triple a.all (a.piece opens bufs length) fun a' own =>
      own = a'.all ∧ a'.strings.length = bufs.length + opens.toNat := by
  cases opens with
  | true => exact hlen ▸ push_triple
  | false =>
    have hpos : 0 < a.strings.length := hlen ▸ List.length_pos_iff.mpr (hne rfl)
    exact hlen ▸ appendLast_triple (List.length_pos_iff.mp hpos)

lemma inKey_of_not_opens (h : ¬ (req.pState = .wantKey ∨ req.pState = .inValue)) :
    req.pState = .inKey := by
  cases hstate : req.pState with
  | inKey => rfl
  | wantKey => exact absurd (.inl hstate) h
  | inValue => exact absurd (.inr hstate) h

lemma inValue_of_not_opens (hstate : req.pState ≠ .wantKey) (h : ¬ req.pState = .inKey) :
    req.pState = .inValue := by
  cases hs : req.pState with
  | inValue => rfl
  | wantKey => exact absurd hs hstate
  | inKey => exact absurd hs h

variable (req) in
lemma length_onHeaderField (bytes : List UInt8) :
    (fsModHttpOnHeaderField req bytes).pKey.length =
      req.pKey.length + (decide (req.pState = .wantKey ∨ req.pState = .inValue)).toNat := by
  rw [fsModHttpOnHeaderField]
  split_ifs with hopens
  · simp [hopens]
  · simp [hopens, length_updateLast]

variable (req) in
lemma length_onHeaderValue (bytes : List UInt8) :
    (fsModHttpOnHeaderValue req bytes).pVal.length =
      req.pVal.length + (decide (req.pState = .inKey)).toNat := by
  rw [fsModHttpOnHeaderValue]
  split_ifs with hopens
  · simp [hopens]
  · simp [hopens, length_updateLast]

lemma onHeaderField_triple {bytes : List UInt8} (h : m.Fits req n) :
    Triple m.all (m.onHeaderField req bytes) fun m' own =>
      own = m'.all ∧ m'.Fits (fsModHttpOnHeaderField req bytes) n := by
  have hopens : ¬ (req.pState = .wantKey ∨ req.pState = .inValue) → req.pKey ≠ [] :=
    fun hno => h.inKey (inKey_of_not_opens hno)
  refine .bind (.frame ({m.req} + m.buf.toList + m.urlBuf.toList + m.pVal.all +
    (m.self.toList.map selfBlocks).sum + m.leaked) (piece_triple h.pKey
      fun hno => hopens (of_decide_eq_false hno)) ?_) ?_
  · simp only [ReqBlocks.all, ReqBlocks.kept]
    abel
  · rintro a _ ⟨_, ⟨rfl, hlen⟩, rfl⟩
    rw [← length_onHeaderField req bytes] at hlen
    refine .pure ⟨?_, hlen, ?_, ?_, fun _ => ?_, ?_, h.made, h.lost⟩
    · simp only [ReqBlocks.all, ReqBlocks.kept, ReqBlocks.leaked]
      abel
    · rw [fsModHttpOnHeaderField]
      split_ifs <;> exact h.pVal
    · rw [fsModHttpOnHeaderField]
      split_ifs <;> exact h.self
    · rw [← List.length_pos_iff, length_onHeaderField]
      by_cases hno : req.pState = .wantKey ∨ req.pState = .inValue
      · simp [hno]
      · exact Nat.add_pos_left (List.length_pos_iff.mpr (hopens hno)) _
    · rw [fsModHttpOnHeaderField]
      split_ifs <;> rintro ⟨⟩

lemma onHeaderValue_triple {bytes : List UInt8} (h : m.Fits req n)
    (hstate : req.pState ≠ .wantKey) :
    Triple m.all (m.onHeaderValue req bytes) fun m' own =>
      own = m'.all ∧ m'.Fits (fsModHttpOnHeaderValue req bytes) n := by
  have hopens : ¬ req.pState = .inKey → req.pVal ≠ [] :=
    fun hno => h.inValue (inValue_of_not_opens hstate hno)
  refine .bind (.frame ({m.req} + m.buf.toList + m.urlBuf.toList + m.pKey.all +
    (m.self.toList.map selfBlocks).sum + m.leaked) (piece_triple h.pVal
      fun hno => hopens (of_decide_eq_false hno)) ?_) ?_
  · simp only [ReqBlocks.all, ReqBlocks.kept]
    abel
  · rintro a _ ⟨_, ⟨rfl, hlen⟩, rfl⟩
    rw [← length_onHeaderValue req bytes] at hlen
    refine .pure ⟨?_, ?_, hlen, ?_, ?_, fun _ => ?_, h.made, h.lost⟩
    · simp only [ReqBlocks.all, ReqBlocks.kept, ReqBlocks.leaked]
      abel
    · rw [fsModHttpOnHeaderValue]
      split_ifs <;> exact h.pKey
    · rw [fsModHttpOnHeaderValue]
      split_ifs <;> exact h.self
    · rw [fsModHttpOnHeaderValue]
      split_ifs <;> rintro ⟨⟩
    · rw [← List.length_pos_iff, length_onHeaderValue]
      by_cases hno : req.pState = .inKey
      · simp [hno]
      · exact Nat.add_pos_left (List.length_pos_iff.mpr (hopens hno)) _

lemma appendPieces_triple (n : Nat) (block : Option Nat) :
    Triple block.toList (appendPieces n block) fun b own => own = b.toList := by
  induction n generalizing block with
  | zero => exact .pure rfl
  | succ n ih =>
    cases block with
    | none => exact .bind .alloc fun b _ h => h ▸ ih (some b)
    | some b =>
      rw [Option.toList_some, Multiset.coe_singleton]
      exact .bind .realloc fun b' _ h => h ▸ ih (some b')

lemma initBlocks_triple {n : Nat} {url : List UInt8} (route : Route) :
    Triple 0 (route.initBlocks pcre url n) fun self own => own = selfBlocks self := by
  cases route with
  | publisher p => exact .bind .alloc fun value _ h => .pure (h.trans (selfBlocks_none _).symm)
  | proxy p =>
    refine .bind .alloc fun next _ h => ?_
    refine .bind (.frame {next} (appendPieces_triple n none) (by simp [h])) ?_
    rintro buf _ ⟨_, rfl, rfl⟩
    exact .bind (.stray _) fun _ _ h => .pure (h.trans (add_comm _ _))

lemma onHeadersComplete_triple (h : m.Fits req n) :
    Triple m.all (m.onHeadersComplete routes pcre pieces req) fun m' own =>
      own = m'.all ∧ m'.Fits (fsModHttpOnHeadersComplete routes pcre req)
        (n + selects routes pcre req .headersComplete) := by
  rw [ReqBlocks.onHeadersComplete, fsModHttpOnHeadersComplete, selects]
  cases hfind : routes.findIdx? (·.matches pcre req.urlBuf.text) with
  | none => exact .pure ⟨rfl, h⟩
  | some i =>
    have hi : i < routes.length := (List.findIdx?_eq_some_iff_getElem.mp hfind).1
    simp only [List.getElem?_eq_getElem hi]
    refine .bind (.frame m.all (initBlocks_triple routes[i]) (zero_add _).symm) ?_
    rintro self _ ⟨_, rfl, rfl⟩
    refine .pure ⟨?_, h.pKey, h.pVal, rfl, h.inKey, h.inValue, ?_, fun _ => rfl⟩
    rotate_left
    · simp [← h.made]
    simp only [ReqBlocks.all, ReqBlocks.kept, ReqBlocks.leaked, List.map_append, List.sum_append,
      Option.toList_some, List.map_cons, List.map_nil, List.sum_cons, List.sum_nil, add_zero]
    abel

lemma bodyBlocks_triple (value : Nat) (buf : Option Nat) :
    Triple (selfBlocks (value, buf)) (bodyBlocks value buf) fun self own =>
      own = selfBlocks self := by
  have hmem : value ∈ selfBlocks (value, buf) := by simp [selfBlocks]
  refine .bind (.use hmem) ?_
  rintro _ _ rfl
  cases buf with
  | none =>
    rw [selfBlocks_none]
    exact .bind .alloc fun b _ h => .pure (h.trans (selfBlocks_some _ _).symm)
  | some b =>
    rw [selfBlocks_some]
    exact .bind .realloc fun b' _ h => .pure (h.trans (selfBlocks_some _ _).symm)

variable (routes req) in
/-- A body changes nothing that blocks depend on. -/
lemma onBody_self (bytes : List UInt8) :
    ∃ self, fsModHttpOnBody routes req bytes = { req with self := self } := by
  rw [fsModHttpOnBody]
  cases req.route.bind (routes[·]?) with
  | none => exact ⟨req.self, rfl⟩
  | some route => exact ⟨_, rfl⟩

lemma onBody_triple {bytes : List UInt8} (h : m.Fits req n) :
    Triple m.all (m.onBody routes req) fun m' own =>
      own = m'.all ∧ m'.Fits (fsModHttpOnBody routes req bytes) n := by
  obtain ⟨self', hself'⟩ := onBody_self routes req bytes
  rw [hself', ReqBlocks.onBody]
  cases hroute : req.route.bind (routes[·]?) with
  | none => exact .pure ⟨rfl, h.pKey, h.pVal, h.self, h.inKey, h.inValue, h.made, h.lost⟩
  | some route =>
    obtain ⟨i, hi, -⟩ := Option.bind_eq_some_iff.mp hroute
    have hsome : m.self.isSome = true := h.self.trans (hi ▸ rfl)
    obtain ⟨⟨value, buf⟩, hself⟩ := Option.isSome_iff_exists.mp hsome
    cases route with
    | proxy p => exact .pure ⟨rfl, h.pKey, h.pVal, h.self, h.inKey, h.inValue, h.made, h.lost⟩
    | publisher p =>
      simp only [hself]
      refine .bind (.frame ({m.req} + m.buf.toList + m.urlBuf.toList + m.pKey.all + m.pVal.all +
        m.leaked) (bodyBlocks_triple value buf) ?_) ?_
      · simp only [ReqBlocks.all, ReqBlocks.kept, hself, Option.toList_some, List.map_cons,
          List.map_nil, List.sum_cons, List.sum_nil, add_zero]
        abel
      · rintro self _ ⟨_, rfl, rfl⟩
        refine .pure ⟨?_, h.pKey, h.pVal, hi ▸ rfl, h.inKey, h.inValue, ?_, fun _ => rfl⟩
        rotate_left
        · simpa [hself] using h.made
        simp only [ReqBlocks.all, ReqBlocks.kept, ReqBlocks.leaked, Option.toList_some,
          List.map_cons, List.map_nil, List.sum_cons, List.sum_nil, add_zero]
        abel

/-- There is no piece of a value before one of a name. -/
def FieldFirst (req : HttpReq) (evs : List HttpEvent) : Prop :=
  req.pState = .wantKey → NameFirst evs

variable (routes pcre) in
/-- Before the first piece of a header the parser has called for none. -/
lemma wantKey_of_step {e : HttpEvent} (h : (httpStep routes pcre req e).1.pState = .wantKey) :
    req.pState = .wantKey ∧ ∀ bytes, e ≠ .headerField bytes := by
  refine ⟨not_not.mp fun hstarted => pState_started hstarted e h, ?_⟩
  rintro bytes rfl
  rw [httpStep, fsModHttpOnHeaderField] at h
  split_ifs at h

lemma FieldFirst.tail {e : HttpEvent} {evs : List HttpEvent} (h : FieldFirst req (e :: evs)) :
    FieldFirst (httpStep routes pcre req e).1 evs := by
  rintro hstate pre bytes post rfl
  obtain ⟨hwant, hne⟩ := wantKey_of_step routes pcre hstate
  obtain ⟨bytes', hmem⟩ := h hwant (e :: pre) bytes post rfl
  exact ⟨bytes', (List.mem_cons.mp hmem).resolve_left (hne bytes').symm⟩

lemma value_of_first {e : HttpEvent} {evs : List HttpEvent} (h : FieldFirst req (e :: evs)) :
    ∀ bytes, e = .headerValue bytes → req.pState ≠ .wantKey := by
  rintro bytes rfl hstate
  obtain ⟨bytes', hmem⟩ := h hstate [] bytes evs rfl
  cases hmem

variable (routes pcre pieces) in
lemma onEvent_triple {e : HttpEvent} {evs : List HttpEvent} (h : m.Fits req n)
    (hfirst : FieldFirst req (e :: evs)) :
    Triple m.all (m.onEvent routes pcre pieces req e) fun m' own => own = m'.all ∧
      m'.Fits (httpStep routes pcre req e).1 (n + selects routes pcre req e) := by
  cases e with
  | url bytes => exact onUrl_triple h
  | headerField bytes => exact onHeaderField_triple h
  | headerValue bytes => exact onHeaderValue_triple h (value_of_first hfirst bytes rfl)
  | headersComplete => exact onHeadersComplete_triple h
  | body bytes => exact onBody_triple h
  | messageComplete => exact .pure ⟨rfl, h⟩

lemma onEvents_triple {evs : List HttpEvent} (h : m.Fits req n) (hfirst : FieldFirst req evs) :
    Triple m.all (m.onEvents routes pcre pieces req evs) fun m' own =>
      own = m'.all ∧ m'.Fits (Mealy.run (httpStep routes pcre) req evs).1
        (n + selections routes pcre req evs) := by
  induction evs generalizing req n m with
  | nil => exact .pure ⟨rfl, h⟩
  | cons e evs ih =>
    rw [ReqBlocks.onEvents, Mealy.run_cons, selections, ← Nat.add_assoc]
    refine .bind (onEvent_triple routes pcre pieces h hfirst) ?_
    rintro m' _ ⟨rfl, hfits⟩
    exact ih hfits hfirst.tail

lemma allocRead_triple (h : m.Fits req n) :
    Triple m.all (allocRead m) fun m' own =>
      own = m'.all ∧ m'.Fits req n := by
  rw [allocRead]
  cases hbuf : m.buf with
  | some b => exact .pure ⟨rfl, h⟩
  | none =>
    refine .bind .alloc fun b _ hb =>
      .pure ⟨?_, h.pKey, h.pVal, h.self, h.inKey, h.inValue, h.made, h.lost⟩
    simp only [hb, ReqBlocks.all, ReqBlocks.kept, ReqBlocks.leaked, hbuf, Option.toList_none,
      Option.toList_some, Multiset.coe_nil, Multiset.coe_singleton, ← Multiset.singleton_add]
    abel

lemma releaseOption_triple {own : Multiset Nat} (block : Option Nat) :
    Triple (block.toList + own) (releaseOption block) fun _ own' => own' = own := by
  cases block with
  | none => exact .pure (zero_add _)
  | some b =>
    rw [Option.toList_some, Multiset.coe_singleton, Multiset.singleton_add]
    exact .release

lemma releaseArr_triple {own : Multiset Nat} (a : ArrBlocks) :
    Triple (a.all + own) a.release fun _ own' => own' = own := by
  have hown : a.all + own = a.strings + (a.elems ::ₘ a.arr ::ₘ own) := by
    simp only [ArrBlocks.all, ← Multiset.singleton_add]
    abel
  rw [hown]
  refine .bind (.releaseAll _) ?_
  rintro _ _ rfl
  exact .bind .release fun _ _ h => h ▸ .release

lemma releaseSelf_triple {own : Multiset Nat} (self : Nat × Option Nat) :
    Triple (selfBlocks self + own) (releaseSelf (some self)) fun _ own' => own' = own := by
  have hown : selfBlocks self + own = self.2.toList + (self.1 ::ₘ own) := by
    simp only [selfBlocks, ← Multiset.singleton_add]
    abel
  rw [hown]
  exact .bind (releaseOption_triple _) fun _ _ h => h ▸ .release

lemma releaseRoute_triple {own : Multiset Nat} (h : m.Fits req n) :
    Triple ((m.self.toList.map selfBlocks).sum + own) (releaseRoute req m)
      fun _ own' => own' = own := by
  rw [releaseRoute, ← h.self]
  cases hself : m.self with
  | none => exact .pure (by simp)
  | some self =>
    rw [Option.toList_some, List.map_singleton, List.sum_singleton]
    exact releaseSelf_triple self

/-- Everything but what has been lost is given back. -/
lemma release_triple (h : m.Fits req n) :
    Triple m.all (m.release req) fun _ own => own = m.leaked := by
  have hown : m.all = m.buf.toList + (m.urlBuf.toList + ((m.self.toList.map selfBlocks).sum +
      (m.pKey.all + (m.pVal.all + (m.req ::ₘ m.leaked))))) := by
    simp only [ReqBlocks.all, ReqBlocks.kept, ← Multiset.singleton_add]
    abel
  rw [hown]
  refine .bind (releaseOption_triple _) ?_
  rintro _ _ rfl
  refine .bind (releaseOption_triple _) ?_
  rintro _ _ rfl
  refine .bind (releaseRoute_triple h) ?_
  rintro _ _ rfl
  refine .bind (releaseArr_triple _) ?_
  rintro _ _ rfl
  refine .bind (releaseArr_triple _) ?_
  rintro _ _ rfl
  exact .release

variable (m) in
lemma req_mem_all : m.req ∈ m.all := by simp [ReqBlocks.all, ReqBlocks.kept]

variable {c : Conn} {e : ConnEvent}

variable (pieces) in
lemma onReaded_triple (r : ConnRead) (h : m.Fits req n)
    (hfirst : FieldFirst req (ConnEvent.readed r).events) :
    Triple m.all (m.onConnEvent routes pcre pieces req (.readed r)) fun m' own =>
      own = m'.all ∧
        m'.Fits (Mealy.run (httpStep routes pcre) req (ConnEvent.readed r).events).1
          (n + selections routes pcre req (ConnEvent.readed r).events) := by
  refine .bind (.use (req_mem_all m)) ?_
  rintro _ _ rfl
  refine .bind (allocRead_triple h) ?_
  rintro m' _ ⟨rfl, hfits⟩
  exact onEvents_triple hfits hfirst

variable (routes pcre pieces req m) in
lemma onWrited_triple :
    Triple m.all (m.onConnEvent routes pcre pieces req .writed) fun m' own =>
      own = m.all ∧ m' = m := by
  refine .bind (.use (req_mem_all m)) ?_
  rintro _ _ rfl
  exact .pure ⟨rfl, rfl⟩

variable (routes pcre pieces) in
lemma onClosed_triple (h : m.Fits req n) :
    Triple m.all (m.onConnEvent routes pcre pieces req .closed) fun m' own =>
      own = m.leaked ∧ m' = m := by
  refine .bind (.use (req_mem_all m)) ?_
  rintro _ _ rfl
  refine .bind (release_triple h) ?_
  rintro _ _ rfl
  exact .pure ⟨rfl, rfl⟩

/-! ### What the callbacks do not undo -/

lemma steady_allocReq : Steady allocReq := by
  have harr : ∀ capa, Steady (allocArr capa) := fun capa =>
    Steady.alloc.bind fun _ => Steady.alloc.bind fun _ => .pure _
  exact Steady.alloc.bind fun _ => (harr 4).bind fun _ => (harr 4).bind fun _ => .pure _

lemma steady_appendBlock (block : Option Nat) (buf : HttpBuf) (length : Nat) :
    Steady (appendBlock block buf length) := by
  have hgrow : Steady (growBlock block buf length) := by
    cases block with
    | none => exact .alloc
    | some b =>
      rw [growBlock]
      split_ifs
      · exact .realloc b
      · exact (Steady.use b).bind fun _ => .pure b
  exact hgrow.bind fun b => (Steady.stray _).bind fun _ => .pure b

lemma steady_push (a : ArrBlocks) : Steady a.push := by
  have hgrow : Steady a.grow := by
    rw [ArrBlocks.grow]
    split_ifs
    · exact Steady.alloc.bind fun _ => (Steady.release _).bind fun _ => .pure _
    · exact .pure a
  exact hgrow.bind fun _ => Steady.alloc.bind fun _ => .pure _

lemma steady_piece (a : ArrBlocks) (opens : Bool) (bufs : List HttpBuf) (length : Nat) :
    Steady (a.piece opens bufs length) := by
  cases opens with
  | true => exact steady_push a
  | false =>
    rw [ArrBlocks.piece, if_neg Bool.false_ne_true, ArrBlocks.appendLast]
    cases a.strings.getLast? with
    | none => exact Steady.misuse.bind fun _ => .pure a
    | some b => exact (steady_appendBlock _ _ _).bind fun _ => .pure _

lemma steady_appendPieces (n : Nat) (block : Option Nat) : Steady (appendPieces n block) := by
  induction n generalizing block with
  | zero => exact .pure block
  | succ n ih =>
    cases block with
    | none => exact Steady.alloc.bind fun b => ih (some b)
    | some b => exact (Steady.realloc b).bind fun b => ih (some b)

lemma steady_initBlocks (url : List UInt8) (n : Nat) (route : Route) :
    Steady (route.initBlocks pcre url n) := by
  cases route with
  | publisher p => exact Steady.alloc.bind fun _ => .pure _
  | proxy p =>
    exact Steady.alloc.bind fun _ => (steady_appendPieces n none).bind fun _ =>
      (Steady.stray _).bind fun _ => .pure _

lemma steady_bodyBlocks (value : Nat) (buf : Option Nat) : Steady (bodyBlocks value buf) := by
  refine (Steady.use value).bind fun _ => ?_
  cases buf with
  | none => exact Steady.alloc.bind fun _ => .pure _
  | some b => exact (Steady.realloc b).bind fun _ => .pure _

variable (routes pcre pieces req m) in
lemma steady_onEvent (e : HttpEvent) : Steady (m.onEvent routes pcre pieces req e) := by
  cases e with
  | url bytes => exact (steady_appendBlock _ _ _).bind fun _ => .pure _
  | headerField bytes => exact (steady_piece _ _ _ _).bind fun _ => .pure _
  | headerValue bytes => exact (steady_piece _ _ _ _).bind fun _ => .pure _
  | headersComplete =>
    rw [ReqBlocks.onEvent, ReqBlocks.onHeadersComplete]
    split
    · exact .pure m
    · split
      · exact .pure m
      · exact (steady_initBlocks _ _ _).bind fun _ => .pure _
  | body bytes =>
    rw [ReqBlocks.onEvent, ReqBlocks.onBody]
    split
    · exact (steady_bodyBlocks _ _).bind fun _ => .pure _
    · exact Steady.misuse.bind fun _ => .pure m
    · exact .pure m
  | messageComplete => exact .pure m

variable (routes pcre pieces req m) in
lemma steady_onEvents (evs : List HttpEvent) : Steady (m.onEvents routes pcre pieces req evs) := by
  induction evs generalizing req m with
  | nil => exact .pure m
  | cons e evs ih => exact (steady_onEvent routes pcre pieces req m e).bind fun m' => ih _ m'

lemma steady_releaseOption (block : Option Nat) : Steady (releaseOption block) := by
  cases block with
  | none => exact .pure ()
  | some b => exact .release b

lemma steady_releaseArr (a : ArrBlocks) : Steady a.release :=
  (Steady.releaseAll _).bind fun _ => (Steady.release _).bind fun _ => .release _

variable (req m) in
lemma steady_release : Steady (m.release req) := by
  have hroute : Steady (releaseRoute req m) := by
    rw [releaseRoute]
    split_ifs
    · cases m.self with
      | none => exact .misuse
      | some self => exact (steady_releaseOption _).bind fun _ => .release _
    · exact .pure ()
  exact (steady_releaseOption _).bind fun _ => (steady_releaseOption _).bind fun _ =>
    hroute.bind fun _ => (steady_releaseArr _).bind fun _ => (steady_releaseArr _).bind fun _ =>
      .release _

variable (routes pcre pieces req m) in
lemma steady_serve (e : ConnEvent) : Steady (m.serve routes pcre pieces req e) := by
  cases e with
  | readed r =>
    refine Steady.bind ?_ fun m' => steady_onEvents routes pcre pieces req m' _
    rw [allocRead]
    cases m.buf with
    | none => exact Steady.alloc.bind fun _ => .pure _
    | some b => exact .pure m
  | writed => exact .pure m
  | closed => exact (steady_release req m).bind fun _ => .pure m

variable (routes pcre pieces req m) in
lemma steady_onConnEvent (e : ConnEvent) : Steady (m.onConnEvent routes pcre pieces req e) :=
  (Steady.use _).bind fun _ => steady_serve routes pcre pieces req m e

/-- A callback for a request that has been released is a misuse. -/
lemma misused_onConnEvent {h : Ledger.Heap} (hreq : m.req ∉ h.live) :
    ((m.onConnEvent routes pcre pieces req e).run h).2.misused = true :=
  (steady_serve routes pcre pieces req m e).misused _ (misused_use hreq)

end

end Folksong
