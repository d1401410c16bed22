import Folksong.Http.NextPath
import Folksong.Lib.Mealy

/-!
# The request of a connection (`fs_mod_http.c`)

`http_parser` calls back while it reads; the callbacks keep what they have seen in the
`fs_mod_http_req_t` of the connection. The request is a transducer: it reads the callbacks of the
parser and answers at the end of each message, with what it holds then.
-/

namespace Folksong

/-! ### Strings in the making -/

/-- A string that `fs_mod_http_buf_append` has put together: the capacity recorded in the `len`
of its `uv_buf_t`, the bytes before its NUL, and whether all of them and the NUL have been written
inside the allocation. Bytes written behind it are kept here as well. -/
structure HttpBuf where
  allocated : Bool
  len : Nat
  text : List UInt8
  inside : Bool
deriving DecidableEq, Repr

/-- `{ NULL, 0 }`. -/
def HttpBuf.null : HttpBuf := ⟨false, 0, [], true⟩

/-- The capacity `fs_mod_http_buf_append` writes into. -/
def HttpBuf.capacity (buf : HttpBuf) (length : Nat) : Nat :=
  if !buf.allocated then length + 1
  else if buf.text.length + length < buf.len then 2 * buf.len + 1
  else buf.len

/-- `fs_mod_http_buf_append`. -/
def fsModHttpBufAppend (buf : HttpBuf) (bytes : List UInt8) : HttpBuf where
  allocated := true
  len := buf.capacity bytes.length
  text := buf.text ++ bytes
  inside := buf.inside && decide (buf.text.length + bytes.length < buf.capacity bytes.length)

@[simp] lemma fsModHttpBufAppend_text (buf : HttpBuf) (bytes : List UInt8) :
    (fsModHttpBufAppend buf bytes).text = buf.text ++ bytes := rfl

@[simp] lemma HttpBuf.null_text : HttpBuf.null.text = [] := rfl

/-! ### The callbacks -/

/-- `p_state`. -/
inductive PState where
  | wantKey | inKey | inValue
deriving DecidableEq, Repr

/-- What `req->self` points to: the value a publisher collects, or the next hop of a proxy with the
path that has been put together for it, unless that has left its buffers. -/
inductive SelfField where
  | unset
  | value (buf : Option (List UInt8))
  | next (url : Option NextUrl)
deriving DecidableEq, Repr

/-- `fs_mod_http_req_t`; the route is an index of the routes of the http block. -/
structure HttpReq where
  route : Option Nat
  urlBuf : HttpBuf
  pKey : List HttpBuf
  pVal : List HttpBuf
  pState : PState
  self : SelfField
deriving DecidableEq, Repr

/-- What `pcre_exec` answers: the texts of the groups up to the highest one that takes part, no
match, or an error. -/
inductive PcreResult where
  | matched (groups : List (Option (List UInt8)))
  | noMatch
  | failed
deriving DecidableEq, Repr

/-- What pcre answers for a compiled pattern and a subject: `exec` is `pcre_exec` where a route is
looked for, `found` what it and the calls behind it find for the path of a proxied request. -/
structure Pcre where
  exec : List UInt8 → List UInt8 → PcreResult
  found : List UInt8 → List UInt8 → Match

/-- The callbacks of `http_parser`. -/
inductive HttpEvent where
  | url (bytes : List UInt8)
  | headerField (bytes : List UInt8)
  | headerValue (bytes : List UInt8)
  | headersComplete
  | body (bytes : List UInt8)
  | messageComplete
deriving DecidableEq, Repr

/-- `fs_mod_http_connection_cb`. -/
def HttpReq.fresh : HttpReq where
  route := none
  urlBuf := .null
  pKey := []
  pVal := []
  pState := .wantKey
  self := .unset

/-- Store through `fs_arr_last`. -/
def updateLast (f : HttpBuf → HttpBuf) (bufs : List HttpBuf) : List HttpBuf :=
  match bufs.getLast? with
  | none => bufs
  | some buf => bufs.dropLast ++ [f buf]

/-- `fs_mod_http_on_url`. -/
def fsModHttpOnUrl (req : HttpReq) (bytes : List UInt8) : HttpReq :=
  { req with urlBuf := fsModHttpBufAppend req.urlBuf bytes }

/-- `fs_mod_http_on_header_field`. -/
def fsModHttpOnHeaderField (req : HttpReq) (bytes : List UInt8) : HttpReq :=
  if req.pState = .wantKey ∨ req.pState = .inValue then
    { req with pKey := req.pKey ++ [fsModHttpBufAppend .null bytes], pState := .inKey }
  else { req with pKey := updateLast (fsModHttpBufAppend · bytes) req.pKey, pState := .inKey }

/-- `fs_mod_http_on_header_value`. -/
def fsModHttpOnHeaderValue (req : HttpReq) (bytes : List UInt8) : HttpReq :=
  if req.pState = .inKey then
    { req with pVal := req.pVal ++ [fsModHttpBufAppend .null bytes], pState := .inValue }
  else { req with pVal := updateLast (fsModHttpBufAppend · bytes) req.pVal, pState := .inValue }

/-- The pattern of a route, which is null when it did not compile. -/
def Route.pathRe : Route → Option (List UInt8)
  | .publisher p => p.pathRe
  | .proxy p => p.pathRe

/-- `fs_mod_http_kafka_match_cb` and `fs_mod_http_proxy_match_cb`, which are the same. -/
def Route.matches (pcre : Pcre) (route : Route) (url : List UInt8) : Bool :=
  match route.pathRe with
  | none => true
  | some re => pcre.exec re url != .noMatch

/-- `fs_mod_http_proxy_set_next_path`, unless a read or a write leaves its buffer. A pattern is not
null here: `fs_mod_http_proxy_block` rejects one that does not compile. -/
def Proxy.nextPath (pcre : Pcre) (proxy : Proxy) (url : List UInt8) : Option NextUrl :=
  match proxy.pathRe with
  | none => none
  | some re =>
    let u := fsModHttpProxySetNextPath (pcre.found re url) proxy.passPath.toList
    if u.Inside (pcre.found re url) then some u else none

/-- The path of a request to the proxy stays inside its buffers. -/
def Proxy.PathFits (pcre : Pcre) (url : List UInt8) (proxy : Proxy) : Prop :=
  ∃ re, proxy.pathRe = some re ∧
    (pcre.found re url).Fits (proxy.passPath.toList.map Piece.text)

lemma nextPath_isSome_iff {pcre : Pcre} {url : List UInt8} {proxy : Proxy} :
    (proxy.nextPath pcre url).isSome ↔ proxy.PathFits pcre url := by
  rw [Proxy.nextPath, Proxy.PathFits]
  cases proxy.pathRe with
  | none => simp
  | some re =>
    simp only [Option.some.injEq, exists_eq_left']
    rw [← setNextPath_inside_iff]
    split_ifs with hinside <;> simp [hinside]

/-- `fs_mod_http_kafka_init_cb` and `fs_mod_http_proxy_init_cb`. -/
def Route.init (pcre : Pcre) (url : List UInt8) : Route → SelfField
  | .publisher _ => .value none
  | .proxy p => .next (p.nextPath pcre url)

/-- `fs_mod_http_kafka_body_cb` and `fs_mod_http_proxy_body_cb`. -/
def Route.body (route : Route) (self : SelfField) (bytes : List UInt8) : SelfField :=
  match route, self with
  | .publisher _, .value buf => .value (some (buf.getD [] ++ bytes))
  | _, self => self

/-- `fs_mod_http_on_headers_complete`. -/
def fsModHttpOnHeadersComplete (routes : List Route) (pcre : Pcre) (req : HttpReq) : HttpReq :=
  match routes.findIdx? (·.matches pcre req.urlBuf.text) with
  | none => req
  | some i =>
    { req with
      route := some i
      self := (routes[i]?).elim req.self (Route.init pcre req.urlBuf.text) }

/-- `fs_mod_http_on_body`. -/
def fsModHttpOnBody (routes : List Route) (req : HttpReq) (bytes : List UInt8) : HttpReq :=
  match req.route.bind (routes[·]?) with
  | none => req
  | some route => { req with self := route.body req.self bytes }

/-- What a message is answered with. -/
structure HttpAnswer where
  url : List UInt8
  headers : List (List UInt8) × List (List UInt8)
  route : Option Nat
  self : SelfField
deriving DecidableEq, Repr

/-- What the request holds when its message is complete. -/
def HttpReq.answer (req : HttpReq) : HttpAnswer where
  url := req.urlBuf.text
  headers := (req.pKey.map HttpBuf.text, req.pVal.map HttpBuf.text)
  route := req.route
  self := req.self

/-- One callback; `fs_mod_http_on_message_complete` answers. -/
def httpStep (routes : List Route) (pcre : Pcre) (req : HttpReq) (e : HttpEvent) :
    HttpReq × List HttpAnswer :=
  match e with
  | .url bytes => (fsModHttpOnUrl req bytes, [])
  | .headerField bytes => (fsModHttpOnHeaderField req bytes, [])
  | .headerValue bytes => (fsModHttpOnHeaderValue req bytes, [])
  | .headersComplete => (fsModHttpOnHeadersComplete routes pcre req, [])
  | .body bytes => (fsModHttpOnBody routes req bytes, [])
  | .messageComplete => (req, [req.answer])

/-- The answers on a fresh connection. -/
def answers (routes : List Route) (pcre : Pcre) (evs : List HttpEvent) : List HttpAnswer :=
  (Mealy.run (httpStep routes pcre) .fresh evs).2

/-! ### Requests -/

/-- A well-formed request. -/
structure Request where
  url : List UInt8
  headers : List (List UInt8 × List UInt8)
  body : List UInt8
  trailers : List (List UInt8 × List UInt8)
  url_ne : url ≠ []

/-- The callbacks for one header: its name in one or more pieces, then its value. -/
inductive DeliversHeader (name value : List UInt8) : List HttpEvent → Prop where
  | mk {names values : List (List UInt8)} : names ≠ [] → values ≠ [] → names.flatten = name →
      values.flatten = value →
      DeliversHeader name value (names.map .headerField ++ values.map .headerValue)

/-- The callbacks for a list of headers. -/
inductive DeliversHeaders : List (List UInt8 × List UInt8) → List HttpEvent → Prop where
  | nil : DeliversHeaders [] []
  | cons {name value hs evs evs'} : DeliversHeader name value evs → DeliversHeaders hs evs' →
      DeliversHeaders ((name, value) :: hs) (evs ++ evs')

/-- The callbacks for a request, however the parser cuts its parts into pieces; it calls back
with a piece of a body only when there is one. -/
inductive Delivers (r : Request) : List HttpEvent → Prop where
  | mk {urls bodies : List (List UInt8)} {headers trailers : List HttpEvent} :
      urls.flatten = r.url → DeliversHeaders r.headers headers → bodies.flatten = r.body →
      [] ∉ bodies → DeliversHeaders r.trailers trailers →
      Delivers r (urls.map .url ++ (headers ++ (.headersComplete :: (bodies.map .body ++
        (trailers ++ [.messageComplete])))))

section

variable (routes : List Route) (pcre : Pcre)

/-! ### Pieces -/

@[simp] lemma foldl_append_text (pieces : List (List UInt8)) (buf : HttpBuf) :
    (pieces.foldl fsModHttpBufAppend buf).text = buf.text ++ pieces.flatten := by
  induction pieces generalizing buf with
  | nil => simp
  | cons bytes pieces ih => simp [ih]

/-- The pieces of a url are put behind what is there already. -/
lemma run_urls (urls : List (List UInt8)) (req : HttpReq) :
    Mealy.Reads (httpStep routes pcre) req (urls.map .url)
      { req with urlBuf := urls.foldl fsModHttpBufAppend req.urlBuf } [] := by
  induction urls generalizing req with
  | nil => exact Mealy.Reads.nil _
  | cons bytes urls ih =>
    have hone : httpStep routes pcre req (.url bytes) = (fsModHttpOnUrl req bytes, []) := rfl
    exact Mealy.Reads.cons hone (ih (fsModHttpOnUrl req bytes))

lemma updateLast_concat (f : HttpBuf → HttpBuf) (bufs : List HttpBuf) (buf : HttpBuf) :
    updateLast f (bufs ++ [buf]) = bufs ++ [f buf] := by
  simp [updateLast]

/-- More pieces of a name go to the last name. -/
lemma run_names (names : List (List UInt8)) (req : HttpReq) (keys : List HttpBuf)
    (key : HttpBuf) (hkeys : req.pKey = keys ++ [key]) (hstate : req.pState = .inKey) :
    Mealy.Reads (httpStep routes pcre) req (names.map .headerField)
      { req with pKey := keys ++ [names.foldl fsModHttpBufAppend key] } [] := by
  induction names generalizing req key with
  | nil =>
    rw [List.foldl_nil, ← hkeys]
    exact Mealy.Reads.nil _
  | cons bytes names ih =>
    have hone : httpStep routes pcre req (.headerField bytes) =
        ({ req with pKey := keys ++ [fsModHttpBufAppend key bytes] }, []) := by
      simp [httpStep, fsModHttpOnHeaderField, hstate, hkeys, updateLast_concat]
    exact Mealy.Reads.cons hone (ih
      { req with pKey := keys ++ [fsModHttpBufAppend key bytes] } _ rfl hstate)

/-- More pieces of a value go to the last value. -/
lemma run_values (values : List (List UInt8)) (req : HttpReq) (vals : List HttpBuf)
    (val : HttpBuf) (hvals : req.pVal = vals ++ [val]) (hstate : req.pState = .inValue) :
    Mealy.Reads (httpStep routes pcre) req (values.map .headerValue)
      { req with pVal := vals ++ [values.foldl fsModHttpBufAppend val] } [] := by
  induction values generalizing req val with
  | nil =>
    rw [List.foldl_nil, ← hvals]
    exact Mealy.Reads.nil _
  | cons bytes values ih =>
    have hone : httpStep routes pcre req (.headerValue bytes) =
        ({ req with pVal := vals ++ [fsModHttpBufAppend val bytes] }, []) := by
      simp [httpStep, fsModHttpOnHeaderValue, hstate, hvals, updateLast_concat]
    exact Mealy.Reads.cons hone (ih
      { req with pVal := vals ++ [fsModHttpBufAppend val bytes] } _ rfl hstate)

/-- The pieces of a header make one name and one value. -/
lemma run_header {names values : List (List UInt8)} (hnames : names ≠ []) (hvalues : values ≠ [])
    (req : HttpReq) (hstate : req.pState ≠ .inKey) :
    Mealy.Reads (httpStep routes pcre) req (names.map .headerField ++ values.map .headerValue)
      { req with
        pKey := req.pKey ++ [names.foldl fsModHttpBufAppend .null]
        pVal := req.pVal ++ [values.foldl fsModHttpBufAppend .null]
        pState := .inValue } [] := by
  obtain ⟨bytes, names, rfl⟩ := List.exists_cons_of_ne_nil hnames
  obtain ⟨bytes', values, rfl⟩ := List.exists_cons_of_ne_nil hvalues
  -- the first piece opens the string, the others are put behind it
  have hname : httpStep routes pcre req (.headerField bytes) =
      ({ req with pKey := req.pKey ++ [fsModHttpBufAppend .null bytes], pState := .inKey }, []) := by
    cases h : req.pState <;> simp_all [httpStep, fsModHttpOnHeaderField]
  have hnames := run_names routes pcre names
    { req with pKey := req.pKey ++ [fsModHttpBufAppend .null bytes], pState := .inKey } _ _ rfl rfl
  have hvalues := run_values routes pcre values
    { req with
      pKey := req.pKey ++ [(bytes :: names).foldl fsModHttpBufAppend .null]
      pVal := req.pVal ++ [fsModHttpBufAppend .null bytes']
      pState := .inValue } _ _ rfl rfl
  have hvalue : httpStep routes pcre
      { req with
        pKey := req.pKey ++ [(bytes :: names).foldl fsModHttpBufAppend .null], pState := .inKey }
      (.headerValue bytes') =
      ({ req with
        pKey := req.pKey ++ [(bytes :: names).foldl fsModHttpBufAppend .null]
        pVal := req.pVal ++ [fsModHttpBufAppend .null bytes']
        pState := .inValue }, []) := by
    simp [httpStep, fsModHttpOnHeaderValue]
  exact (Mealy.Reads.cons hname hnames).append (Mealy.Reads.cons hvalue hvalues)

/-- The headers add their names and their values, in their order. -/
lemma run_headers {hs : List (List UInt8 × List UInt8)} {evs : List HttpEvent}
    (hd : DeliversHeaders hs evs) (req : HttpReq) (hstate : req.pState ≠ .inKey) :
    ∃ keys vals state, keys.map HttpBuf.text = hs.map Prod.fst ∧
      vals.map HttpBuf.text = hs.map Prod.snd ∧ state ≠ .inKey ∧
      Mealy.Reads (httpStep routes pcre) req evs
        { req with pKey := req.pKey ++ keys, pVal := req.pVal ++ vals, pState := state } [] := by
  induction hd generalizing req with
  | nil => exact ⟨[], [], req.pState, rfl, rfl, hstate, by simpa using Mealy.Reads.nil _⟩
  | cons hone _ ih =>
    obtain ⟨hnames, hvalues, rfl, rfl⟩ := hone
    rename_i names values
    have hrun := run_header routes pcre hnames hvalues req hstate
    obtain ⟨keys, vals, state, hkeys, hvals, hstate', hrun'⟩ := ih
      { req with
        pKey := req.pKey ++ [names.foldl fsModHttpBufAppend .null]
        pVal := req.pVal ++ [values.foldl fsModHttpBufAppend .null]
        pState := .inValue } nofun
    refine ⟨names.foldl fsModHttpBufAppend .null :: keys,
      values.foldl fsModHttpBufAppend .null :: vals, state, by simp [hkeys], by simp [hvals],
      hstate', ?_⟩
    simpa using hrun.append hrun'

lemma fsModHttpOnBody_append (req : HttpReq) (bytes bytes' : List UInt8) :
    fsModHttpOnBody routes (fsModHttpOnBody routes req bytes) bytes'
      = fsModHttpOnBody routes req (bytes ++ bytes') := by
  cases h : req.route.bind (routes[·]?) with
  | none => simp [fsModHttpOnBody, h]
  | some route =>
    cases route with
    | publisher p => cases hs : req.self <;> simp [fsModHttpOnBody, Route.body, h, hs]
    | proxy p => simp [fsModHttpOnBody, Route.body, h]

/-- The request after a body: nothing is called for an empty one. -/
def HttpReq.collect (req : HttpReq) (body : List UInt8) : HttpReq :=
  if body = [] then req else fsModHttpOnBody routes req body

lemma HttpReq.collect_append (req : HttpReq) {bytes : List UInt8} (hbytes : bytes ≠ [])
    (bytes' : List UInt8) :
    req.collect routes (bytes ++ bytes')
      = (fsModHttpOnBody routes req bytes).collect routes bytes' := by
  unfold HttpReq.collect
  rw [if_neg (by simp [hbytes])]
  by_cases hflat : bytes' = []
  · rw [if_pos hflat, hflat, List.append_nil]
  · rw [if_neg hflat, fsModHttpOnBody_append]

lemma run_bodies (bodies : List (List UInt8)) (hne : [] ∉ bodies) (req : HttpReq) :
    Mealy.Reads (httpStep routes pcre) req (bodies.map .body)
      (req.collect routes bodies.flatten) [] := by
  induction bodies generalizing req with
  | nil => exact Mealy.Reads.nil _
  | cons bytes bodies ih =>
    obtain ⟨hbytes, hne⟩ := not_or.mp (mt List.mem_cons.mpr hne)
    have hone : Mealy.Reads (httpStep routes pcre) req [.body bytes]
        (fsModHttpOnBody routes req bytes) [] := Mealy.Reads.one rfl
    rw [List.flatten_cons, HttpReq.collect_append routes req (Ne.symm hbytes)]
    exact hone.append (ih hne _)

/-! ### Messages -/

/-- `req` and `req'` are alike in what selects a route and takes a body. -/
structure HttpReq.Alike (req req' : HttpReq) : Prop where
  url : req.urlBuf.text = req'.urlBuf.text
  route : req.route = req'.route
  self : req.self = req'.self

lemma HttpReq.Alike.headersComplete {req req' : HttpReq} (h : req.Alike req') :
    (fsModHttpOnHeadersComplete routes pcre req).Alike
      (fsModHttpOnHeadersComplete routes pcre req') := by
  obtain ⟨hurl, hroute, hself⟩ := h
  rw [fsModHttpOnHeadersComplete, fsModHttpOnHeadersComplete, hurl, hself]
  split
  · exact ⟨hurl, hroute, hself⟩
  · exact ⟨hurl, rfl, rfl⟩

lemma HttpReq.Alike.collect {req req' : HttpReq} (h : req.Alike req') (body : List UInt8) :
    (req.collect routes body).Alike (req'.collect routes body) := by
  rw [HttpReq.collect, HttpReq.collect]
  split
  · exact h
  · obtain ⟨hurl, hroute, hself⟩ := h
    rw [fsModHttpOnBody, fsModHttpOnBody, hroute, hself]
    split
    · exact ⟨hurl, hroute, hself⟩
    · exact ⟨hurl, rfl, rfl⟩

/-- What a request is answered with that is delivered to `req`, whatever its pieces. -/
def HttpReq.answerTo (req : HttpReq) (r : Request) : HttpAnswer :=
  let url := req.urlBuf.text ++ r.url
  let selected := fsModHttpOnHeadersComplete routes pcre
    { req with urlBuf := { req.urlBuf with text := url } }
  { url := url
    headers := (req.pKey.map HttpBuf.text ++ (r.headers ++ r.trailers).map Prod.fst,
      req.pVal.map HttpBuf.text ++ (r.headers ++ r.trailers).map Prod.snd)
    route := (selected.collect routes r.body).route
    self := (selected.collect routes r.body).self }

/-- `req'` holds the url and the headers of `req`. -/
structure HttpReq.KeepsTexts (req req' : HttpReq) : Prop where
  url : req'.urlBuf = req.urlBuf
  key : req'.pKey = req.pKey
  val : req'.pVal = req.pVal
  state : req'.pState = req.pState

lemma HttpReq.KeepsTexts.trans {req req' req'' : HttpReq} (h : req.KeepsTexts req')
    (h' : req'.KeepsTexts req'') : req.KeepsTexts req'' :=
  ⟨h'.url.trans h.url, h'.key.trans h.key, h'.val.trans h.val, h'.state.trans h.state⟩

lemma HttpReq.keepsTexts_headersComplete (req : HttpReq) :
    req.KeepsTexts (fsModHttpOnHeadersComplete routes pcre req) := by
  rw [fsModHttpOnHeadersComplete]
  split <;> exact ⟨rfl, rfl, rfl, rfl⟩

lemma HttpReq.keepsTexts_body (req : HttpReq) (bytes : List UInt8) :
    req.KeepsTexts (fsModHttpOnBody routes req bytes) := by
  rw [fsModHttpOnBody]
  split <;> exact ⟨rfl, rfl, rfl, rfl⟩

lemma HttpReq.keepsTexts_collect (req : HttpReq) (body : List UInt8) :
    req.KeepsTexts (req.collect routes body) := by
  rw [HttpReq.collect]
  split
  · exact ⟨rfl, rfl, rfl, rfl⟩
  · exact req.keepsTexts_body routes body

/-- A request delivered to `req` gets one answer, and leaves the parser between two headers. -/
lemma run_request {r : Request} {evs : List HttpEvent} (hd : Delivers r evs) (req : HttpReq)
    (hstate : req.pState ≠ .inKey) :
    ∃ req', Mealy.Reads (httpStep routes pcre) req evs req' [req.answerTo routes pcre r] ∧
      req'.pState ≠ .inKey ∧ req'.urlBuf.text = req.urlBuf.text ++ r.url := by
  obtain ⟨hurl, hheaders, hbody, hne, htrailers⟩ := hd
  rename_i urls bodies headers trailers
  have hurls := run_urls routes pcre urls req
  have htext : (urls.foldl fsModHttpBufAppend req.urlBuf).text = req.urlBuf.text ++ urls.flatten :=
    foldl_append_text urls req.urlBuf
  set buf := urls.foldl fsModHttpBufAppend req.urlBuf
  obtain ⟨keys, vals, state, hkeys, hvals, hstate, hheaders⟩ :=
    run_headers routes pcre hheaders { req with urlBuf := buf } hstate
  set req₁ : HttpReq := { req with
    urlBuf := buf, pKey := req.pKey ++ keys, pVal := req.pVal ++ vals, pState := state } with hreq₁
  have hcomplete : Mealy.Reads (httpStep routes pcre) req₁ [.headersComplete]
      (fsModHttpOnHeadersComplete routes pcre req₁) [] := Mealy.Reads.one rfl
  have hbodies := run_bodies routes pcre bodies hne (fsModHttpOnHeadersComplete routes pcre req₁)
  rw [hbody] at hbodies
  have hkept := (req₁.keepsTexts_headersComplete routes pcre).trans
    (HttpReq.keepsTexts_collect routes _ r.body)
  set req₂ := (fsModHttpOnHeadersComplete routes pcre req₁).collect routes r.body
  obtain ⟨keys', vals', state', hkeys', hvals', hstate', htrailers⟩ :=
    run_headers routes pcre htrailers req₂ (by rw [hkept.state]; exact hstate)
  set req₃ : HttpReq := { req₂ with
    pKey := req₂.pKey ++ keys', pVal := req₂.pVal ++ vals', pState := state' } with hreq₃
  have hanswer : Mealy.Reads (httpStep routes pcre) req₃ [.messageComplete] req₃ [req₃.answer] :=
    Mealy.Reads.one rfl
  -- the route and the body are those that the joined url selects
  have hjoined : req₁.Alike
      { req with urlBuf := { req.urlBuf with text := req.urlBuf.text ++ r.url } } :=
    ⟨by simp [hreq₁, htext, hurl], rfl, rfl⟩
  have halike := HttpReq.Alike.collect routes (hjoined.headersComplete routes pcre) r.body
  have htext₃ : req₃.urlBuf.text = req.urlBuf.text ++ r.url := by
    simp [hreq₃, hkept.url, hreq₁, htext, hurl]
  have heq : req₃.answer = req.answerTo routes pcre r := by
    rw [HttpReq.answer, HttpReq.answerTo, htext₃]
    simp only [HttpAnswer.mk.injEq, true_and]
    refine ⟨?_, halike.route, halike.self⟩
    simp [hreq₃, hkept.key, hkept.val, hreq₁, hkeys, hvals, hkeys', hvals']
  refine ⟨req₃, ?_, hstate', htext₃⟩
  rw [← heq]
  exact hurls.append (hheaders.append (hcomplete.append (hbodies.append
    (htrailers.append hanswer))))

/-- Each request of a connection gets one answer, for the urls read so far put together. -/
lemma run_requests {rs : List Request} {evs : List (List HttpEvent)}
    (h : List.Forall₂ Delivers rs evs) (req : HttpReq) (hstate : req.pState ≠ .inKey) :
    ∃ req' as, Mealy.Reads (httpStep routes pcre) req evs.flatten req' as ∧
      as.map HttpAnswer.url
        = ((rs.map Request.url).scanl (· ++ ·) req.urlBuf.text).tail := by
  induction h generalizing req with
  | nil => exact ⟨req, [], Mealy.Reads.nil _, rfl⟩
  | @cons r _ rs _ hd _ ih =>
    obtain ⟨req₁, hrun, hstate₁, htext⟩ := run_request routes pcre hd req hstate
    obtain ⟨req', as, hruns, has⟩ := ih req₁ hstate₁
    refine ⟨req', _, hrun.append hruns, ?_⟩
    rw [List.singleton_append, List.map_cons, has, htext]
    cases rs <;> simp [HttpReq.answerTo]

lemma answers_urls {rs : List Request} {evs : List (List HttpEvent)}
    (h : List.Forall₂ Delivers rs evs) :
    (answers routes pcre evs.flatten).map HttpAnswer.url
      = ((rs.map Request.url).scanl (· ++ ·) []).tail := by
  obtain ⟨req', as, hrun, has⟩ := run_requests routes pcre h .fresh nofun
  rw [answers, hrun]
  exact has

/-- A request that arrives alone is answered for what it says, whatever its pieces. -/
lemma answers_alone {r : Request} {evs : List HttpEvent} (hd : Delivers r evs) :
    answers routes pcre evs = [HttpReq.fresh.answerTo routes pcre r] := by
  obtain ⟨req', hrun, -⟩ := run_request routes pcre hd .fresh nofun
  rw [answers, hrun]

/-- Each request is answered as it is when it arrives alone on a fresh connection. -/
def Independent (rs : List Request) (evs : List HttpEvent) : Prop :=
  ∀ (k : Nat) r evs', rs[k]? = some r → Delivers r evs' →
    (answers routes pcre evs)[k]? = (answers routes pcre evs').head?

/-- The requests of a connection are answered as if each arrived alone exactly when there is one
of them at most: nothing is taken back between two messages. -/
theorem independent_iff {rs : List Request} {evs : List (List HttpEvent)}
    (h : List.Forall₂ Delivers rs evs) :
    Independent routes pcre rs evs.flatten ↔ rs.length ≤ 1 := by
  constructor
  · intro halone
    cases h with
    | nil => exact Nat.zero_le 1
    | @cons r₀ evs₀ rs evs hd₀ h =>
      cases h with
      | nil => exact Nat.le_refl 1
      | @cons r₁ evs₁ rs evs hd₁ h =>
        -- the second request is answered for both urls
        have hurl := answers_urls routes pcre (.cons hd₀ (.cons hd₁ h))
        have hsecond := halone 1 r₁ evs₁ rfl hd₁
        rw [answers_alone routes pcre hd₁] at hsecond
        have hjoined := congrArg (·[1]?) hurl
        simp only [List.getElem?_map, hsecond] at hjoined
        have hempty : r₁.url = r₀.url ++ r₁.url := by
          cases rs <;> simpa [HttpReq.answerTo, HttpReq.fresh] using hjoined
        exact absurd (List.append_left_eq_self.mp hempty.symm) r₀.url_ne
  · intro hlen k r evs' hk hd'
    cases h with
    | nil => simp at hk
    | cons hd h =>
      cases h with
      | cons _ _ => simp at hlen
      | nil =>
        cases k with
        | succ k => simp at hk
        | zero =>
          cases hk
          rw [List.flatten_singleton, answers_alone routes pcre hd, answers_alone routes pcre hd']
          rfl

/-- No pattern matches. -/
def Pcre.refusing : Pcre where
  exec _ _ := .noMatch
  found _ _ := ⟨0, [], fun _ => none, fun _ => none, by decide, by decide⟩

/-- Every pattern matches. -/
def Pcre.matching : Pcre where
  exec _ _ := .matched []
  found _ _ := oneGroup

/-- A proxy with the template `/b`. -/
def Proxy.toB : Proxy where
  path := ⟨bytes "/b", 3⟩
  pathRe := some (bytes "/b")
  pathCaptures := 0
  passPath := (fsAllocArr Piece 2 Nat.two_pos).push ⟨3, bytes "/b\x00"⟩

/-- A request that has a url only. -/
def Request.bare (url : List UInt8) (h : url ≠ []) : Request := ⟨url, [], [], [], h⟩

lemma Delivers.bare (urls : List (List UInt8)) (h : urls.flatten ≠ []) :
    Delivers (.bare urls.flatten h) (urls.map .url ++ [.headersComplete, .messageComplete]) := by
  have hbody : ([] : List (List UInt8)).flatten = [] := rfl
  exact Delivers.mk (r := .bare urls.flatten h) rfl .nil hbody List.not_mem_nil .nil

end

/-- `GET /a`, with its url in two pieces. -/
theorem independent_iff_bare :
    Independent [] .refusing [.bare [47, 97] (by decide)]
      [[.url [47], .url [97], .headersComplete, .messageComplete]].flatten
        ↔ [Request.bare [47, 97] (by decide)].length ≤ 1 :=
  independent_iff [] _ (.cons (Delivers.bare [[47], [97]] (by decide)) .nil)

/-- Behind `GET /a`, `GET /b` is answered for `/a/b`. -/
theorem not_independent :
    ¬ ∀ routes pcre rs evs, List.Forall₂ Delivers rs evs →
      Independent routes pcre rs evs.flatten := by
  intro hall
  have ha := Delivers.bare [[47, 97]] (by decide)
  have hb := Delivers.bare [[47, 98]] (by decide)
  have hsecond := hall [] .refusing _ _ (.cons ha (.cons hb .nil)) 1 _ _ rfl hb
  revert hsecond
  decide

end Folksong
