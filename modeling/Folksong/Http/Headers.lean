import Folksong.Http.Request
import Folksong.Lib.Transition

/-!
# Names and values in two arrays (`fs_mod_http_on_header_field`, `fs_mod_http_on_header_value`)

The names and the values of a message stand in two arrays that grow as headers arrive. Which entry
belongs to which is kept by `p_state` alone: it tells whether the next piece opens an entry or goes
to the last one.
-/

namespace Folksong

/-- `fs_arr_last`, read and written back. Below the first slot of an array there is none. -/
def FsArr.modifyLast {α : Type} (f : α → α) (arr : FsArr α) : Option (FsArr α) :=
  if arr.eleCount = 0 then none
  else (arr.nth (arr.eleCount - 1)).map fun x => arr.write (arr.eleCount - 1) (f x)

/-- The fields of `fs_mod_http_req_t` for headers. -/
structure HeaderArrs where
  pKey : FsArr HttpBuf
  pVal : FsArr HttpBuf
  pState : PState

/-- `fs_mod_http_connection_cb`. -/
def HeaderArrs.fresh : HeaderArrs where
  pKey := fsAllocArr HttpBuf 4 (Nat.succ_pos _)
  pVal := fsAllocArr HttpBuf 4 (Nat.succ_pos _)
  pState := .wantKey

/-- `fs_mod_http_on_header_field`. -/
def HeaderArrs.onField (a : HeaderArrs) (bytes : List UInt8) : Option HeaderArrs :=
  (if a.pState = .wantKey ∨ a.pState = .inValue then
      some (a.pKey.push (fsModHttpBufAppend .null bytes))
    else a.pKey.modifyLast (fsModHttpBufAppend · bytes)).map
    fun keys => { a with pKey := keys, pState := .inKey }

/-- `fs_mod_http_on_header_value`. -/
def HeaderArrs.onValue (a : HeaderArrs) (bytes : List UInt8) : Option HeaderArrs :=
  (if a.pState = .inKey then some (a.pVal.push (fsModHttpBufAppend .null bytes))
    else a.pVal.modifyLast (fsModHttpBufAppend · bytes)).map
    fun vals => { a with pVal := vals, pState := .inValue }

/-- One callback of `http_parser`; the others leave the arrays. -/
def headerStep (a : HeaderArrs) : HttpEvent → Option HeaderArrs
  | .headerField bytes => a.onField bytes
  | .headerValue bytes => a.onValue bytes
  | _ => some a

/-! ### The arrays and the lists of a request -/

section

variable {α : Type} {arr : FsArr α}

/-- The last element is replaced by what `f` makes of it. -/
lemma FsArr.modifyLast_contents {xs : List α} {x : α}
    (h : arr.contents = (xs ++ [x]).map some) (f : α → α) :
    ∃ arr', arr.modifyLast f = some arr' ∧ arr'.contents = (xs ++ [f x]).map some := by
  have hlen : arr.eleCount = xs.length + 1 := by
    rw [← arr.contents_length, h]
    simp
  have hlast : arr.nth (arr.eleCount - 1) = some x := by
    apply FsArr.nth_of_contents
    simp [h, hlen]
  refine ⟨arr.write (arr.eleCount - 1) (f x), ?_, ?_⟩
  · rw [FsArr.modifyLast, if_neg (by simp [hlen]), hlast]
    rfl
  · rw [FsArr.write_contents, h, hlen]
    simp

end

/-- The arrays hold the names and the values of the request, and have a last entry where one is
extended. -/
structure HeaderArrs.Holds (a : HeaderArrs) (req : HttpReq) : Prop where
  key : a.pKey.contents = req.pKey.map some
  val : a.pVal.contents = req.pVal.map some
  state : a.pState = req.pState
  inKey : req.pState = .inKey → req.pKey ≠ []
  inValue : req.pState = .inValue → req.pVal ≠ []

lemma holds_fresh : HeaderArrs.fresh.Holds .fresh :=
  ⟨rfl, rfl, rfl, nofun, nofun⟩

/-- A value comes after some name only. -/
def NameFirst (evs : List HttpEvent) : Prop :=
  ∀ pre bytes post, evs = pre ++ .headerValue bytes :: post → ∃ name, .headerField name ∈ pre

section

variable {routes : List Route} {pcre : Pcre} {a : HeaderArrs} {req : HttpReq}

lemma HeaderArrs.Holds.field (h : a.Holds req) (bytes : List UInt8) :
    ∃ a', a.onField bytes = some a' ∧ a'.Holds (fsModHttpOnHeaderField req bytes) := by
  by_cases hnew : req.pState = .wantKey ∨ req.pState = .inValue
  · refine ⟨_, by rw [HeaderArrs.onField, h.state, if_pos hnew]; rfl, ?_⟩
    rw [fsModHttpOnHeaderField, if_pos hnew]
    refine ⟨?_, h.val, rfl, fun _ => by simp, by simp⟩
    simp [FsArr.push_contents, h.key]
  · have hstate : req.pState = .inKey := by
      cases hs : req.pState <;> simp_all
    obtain ⟨keys, key, hkeys⟩ := (List.eq_nil_or_concat' req.pKey).resolve_left (h.inKey hstate)
    obtain ⟨arr, harr, hcontents⟩ := FsArr.modifyLast_contents (hkeys ▸ h.key)
      (fsModHttpBufAppend · bytes)
    refine ⟨{ a with pKey := arr, pState := .inKey }, ?_, ?_⟩
    · rw [HeaderArrs.onField, h.state, if_neg hnew, harr]
      rfl
    · rw [fsModHttpOnHeaderField, if_neg hnew, hkeys, updateLast_concat]
      exact ⟨hcontents, h.val, rfl, fun _ => by simp, by simp⟩

lemma HeaderArrs.Holds.value (h : a.Holds req) (hstarted : req.pState ≠ .wantKey)
    (bytes : List UInt8) :
    ∃ a', a.onValue bytes = some a' ∧ a'.Holds (fsModHttpOnHeaderValue req bytes) := by
  by_cases hnew : req.pState = .inKey
  · refine ⟨_, by rw [HeaderArrs.onValue, h.state, if_pos hnew]; rfl, ?_⟩
    rw [fsModHttpOnHeaderValue, if_pos hnew]
    refine ⟨h.key, ?_, rfl, by simp, fun _ => by simp⟩
    simp [FsArr.push_contents, h.val]
  · have hstate : req.pState = .inValue := by
      cases hs : req.pState <;> simp_all
    obtain ⟨vals, val, hvals⟩ := (List.eq_nil_or_concat' req.pVal).resolve_left (h.inValue hstate)
    obtain ⟨arr, harr, hcontents⟩ := FsArr.modifyLast_contents (hvals ▸ h.val)
      (fsModHttpBufAppend · bytes)
    refine ⟨{ a with pVal := arr, pState := .inValue }, ?_, ?_⟩
    · rw [HeaderArrs.onValue, h.state, if_neg hnew, harr]
      rfl
    · rw [fsModHttpOnHeaderValue, if_neg hnew, hvals, updateLast_concat]
      exact ⟨h.key, hcontents, rfl, by simp, fun _ => by simp⟩

/-- The callbacks that are not about headers leave what is held. -/
lemma HeaderArrs.Holds.congr {req' : HttpReq} (h : a.Holds req) (hkept : req.KeepsTexts req') :
    a.Holds req' := by
  constructor
  · rw [hkept.key]
    exact h.key
  · rw [hkept.val]
    exact h.val
  · rw [hkept.state]
    exact h.state
  · rw [hkept.state, hkept.key]
    exact h.inKey
  · rw [hkept.state, hkept.val]
    exact h.inValue

/-- What a callback does to the arrays is what it does to the request. -/
lemma HeaderArrs.Holds.step (h : a.Holds req) (e : HttpEvent)
    (he : req.pState = .wantKey → ∀ bytes, e ≠ .headerValue bytes) :
    ∃ a', headerStep a e = some a' ∧ a'.Holds (httpStep routes pcre req e).1 := by
  cases e with
  | url bytes => exact ⟨a, rfl, h.key, h.val, h.state, h.inKey, h.inValue⟩
  | headerField bytes => exact h.field bytes
  | headerValue bytes => exact h.value (fun hwant => he hwant bytes rfl) bytes
  | headersComplete => exact ⟨a, rfl, h.congr (req.keepsTexts_headersComplete routes pcre)⟩
  | body bytes =>
    refine ⟨a, rfl, h.congr ?_⟩
    simp only [httpStep, fsModHttpOnBody]
    split <;> exact ⟨rfl, rfl, rfl, rfl⟩
  | messageComplete => exact ⟨a, rfl, h⟩

lemma pState_started (h : req.pState ≠ .wantKey) (e : HttpEvent) :
    (httpStep routes pcre req e).1.pState ≠ .wantKey := by
  cases e with
  | url bytes => exact h
  | headerField bytes =>
    simp only [httpStep, fsModHttpOnHeaderField]
    split <;> simp
  | headerValue bytes =>
    simp only [httpStep, fsModHttpOnHeaderValue]
    split <;> simp
  | headersComplete =>
    simp only [httpStep]
    rw [(req.keepsTexts_headersComplete routes pcre).state]
    exact h
  | body bytes =>
    simp only [httpStep, fsModHttpOnBody]
    split <;> exact h
  | messageComplete => exact h

/-- The arrays hold what the request does after any callbacks in which the first value comes after
a name. -/
lemma HeaderArrs.Holds.run {evs : List HttpEvent} (h : a.Holds req)
    (hevs : req.pState ≠ .wantKey ∨ NameFirst evs) :
    ∃ a', Transition.exec headerStep a evs = some a' ∧
      a'.Holds (Mealy.run (httpStep routes pcre) req evs).1 := by
  induction evs generalizing a req with
  | nil => exact ⟨a, rfl, h⟩
  | cons e evs ih =>
    have hvalue : req.pState = .wantKey → ∀ bytes, e ≠ .headerValue bytes := by
      rintro hwant bytes rfl
      obtain ⟨name, hname⟩ := hevs.resolve_left (not_not_intro hwant) [] bytes evs rfl
      cases hname
    obtain ⟨a₁, hstep, hholds⟩ : ∃ a', headerStep a e = some a' ∧
        a'.Holds (httpStep routes pcre req e).1 := h.step e hvalue
    have hrest : (httpStep routes pcre req e).1.pState ≠ .wantKey ∨ NameFirst evs := by
      rcases hevs with hstarted | hfirst
      · exact .inl (pState_started hstarted e)
      · by_cases hname : ∃ bytes, e = .headerField bytes
        · obtain ⟨bytes, rfl⟩ := hname
          left
          simp only [httpStep, fsModHttpOnHeaderField]
          split <;> simp
        · right
          rintro pre bytes post rfl
          obtain ⟨name, hmem⟩ := hfirst (e :: pre) bytes post rfl
          rcases List.mem_cons.mp hmem with rfl | hmem
          · exact absurd ⟨name, rfl⟩ hname
          · exact ⟨name, hmem⟩
    obtain ⟨a', hexec, hholds'⟩ := ih hholds hrest
    refine ⟨a', ?_, hholds'⟩
    rw [Transition.exec, hstep]
    exact hexec

lemma HeaderArrs.Holds.reads {evs : List HttpEvent} {req' : HttpReq} {as : List HttpAnswer}
    (h : a.Holds req) (hrun : Mealy.Reads (httpStep routes pcre) req evs req' as)
    (hevs : NameFirst evs) :
    ∃ a', Transition.exec headerStep a evs = some a' ∧ a'.Holds req' := by
  obtain ⟨a', hexec, hholds⟩ : ∃ a', Transition.exec headerStep a evs = some a' ∧
      a'.Holds (Mealy.run (httpStep routes pcre) req evs).1 := h.run (.inr hevs)
  rw [hrun] at hholds
  exact ⟨a', hexec, hholds⟩

end

/-! ### Names and values stay together -/

/-- The arrays hold the headers `hs`: as many names as values, and at each index the name and the
value of one header. -/
structure HeaderArrs.Paired (a : HeaderArrs) (hs : List (List UInt8 × List UInt8)) : Prop where
  keys : a.pKey.eleCount = hs.length
  vals : a.pVal.eleCount = hs.length
  nth : ∀ i name value, hs[i]? = some (name, value) →
    ∃ key val, a.pKey.nth i = some key ∧ a.pVal.nth i = some val ∧
      key.text = name ∧ val.text = value

lemma HeaderArrs.Holds.paired {a : HeaderArrs} {req : HttpReq} (h : a.Holds req)
    {hs : List (List UInt8 × List UInt8)} (hkeys : req.pKey.map HttpBuf.text = hs.map Prod.fst)
    (hvals : req.pVal.map HttpBuf.text = hs.map Prod.snd) : a.Paired hs := by
  constructor
  · have hlen := congrArg List.length hkeys
    rw [← a.pKey.contents_length, h.key]
    simpa using hlen
  · have hlen := congrArg List.length hvals
    rw [← a.pVal.contents_length, h.val]
    simpa using hlen
  · intro i name value hi
    have hkey := congrArg (·[i]?) hkeys
    have hval := congrArg (·[i]?) hvals
    simp only [List.getElem?_map, hi, Option.map_some] at hkey hval
    obtain ⟨key, hkey, hname⟩ := Option.map_eq_some_iff.mp hkey
    obtain ⟨val, hval, hvalue⟩ := Option.map_eq_some_iff.mp hval
    refine ⟨key, val, ?_, ?_, hname, hvalue⟩
    · apply FsArr.nth_of_contents
      simp [h.key, hkey]
    · apply FsArr.nth_of_contents
      simp [h.val, hval]

lemma nameFirst_nil : NameFirst [] := by
  intro pre bytes post heq
  cases pre <;> cases heq

lemma nameFirst_field (name : List UInt8) (evs : List HttpEvent) :
    NameFirst (.headerField name :: evs) := by
  intro pre bytes post heq
  cases pre with
  | nil => cases heq
  | cons e pre =>
    cases heq
    exact ⟨name, List.mem_cons_self⟩

lemma NameFirst.cons {e : HttpEvent} {evs : List HttpEvent} (h : NameFirst evs)
    (hno : ∀ bytes, e ≠ .headerValue bytes) : NameFirst (e :: evs) := by
  intro pre bytes post heq
  cases pre with
  | nil =>
    cases heq
    exact absurd rfl (hno bytes)
  | cons e' pre =>
    rw [List.cons_append, List.cons.injEq] at heq
    obtain ⟨rfl, heq⟩ := heq
    obtain ⟨name, hmem⟩ := h pre bytes post heq
    exact ⟨name, List.mem_cons_of_mem _ hmem⟩

lemma NameFirst.append {evs evs' : List HttpEvent} (h : NameFirst evs')
    (hno : ∀ bytes, .headerValue bytes ∉ evs) : NameFirst (evs ++ evs') := by
  induction evs with
  | nil => exact h
  | cons e evs ih =>
    refine (ih fun bytes hmem => hno bytes (List.mem_cons_of_mem _ hmem)).cons fun bytes heq => ?_
    exact hno bytes (heq ▸ List.mem_cons_self)

/-- A list of headers begins with a name. -/
lemma DeliversHeaders.nameFirst {hs : List (List UInt8 × List UInt8)} {evs evs' : List HttpEvent}
    (hd : DeliversHeaders hs evs) (h : NameFirst evs') : NameFirst (evs ++ evs') := by
  cases hd with
  | nil => exact h
  | cons hone _ =>
    obtain ⟨hnames, -, -, -⟩ := hone
    obtain ⟨bytes, names, rfl⟩ := List.exists_cons_of_ne_nil hnames
    exact nameFirst_field bytes _

/-- Without routes a body changes nothing. -/
lemma run_bodies_unrouted (pcre : Pcre) (bodies : List (List UInt8)) (req : HttpReq) :
    Mealy.Reads (httpStep [] pcre) req (bodies.map .body) req [] := by
  induction bodies with
  | nil => exact Mealy.Reads.nil _
  | cons bytes bodies ih =>
    have hone : Mealy.Reads (httpStep [] pcre) req [.body bytes] req [] := by
      apply Mealy.Reads.one
      simp [httpStep, fsModHttpOnBody]
    exact hone.append ih

/-- However the names and the values are cut into pieces, the arrays hold the headers of the
message when its header list is complete, and the trailers behind them when the message is. -/
theorem headers_paired {hs trailers : List (List UInt8 × List UInt8)} {evs evs' : List HttpEvent}
    (hd : DeliversHeaders hs evs) (ht : DeliversHeaders trailers evs')
    (urls bodies : List (List UInt8)) :
    ∃ a b, Transition.exec headerStep .fresh (urls.map .url ++ evs) = some a ∧ a.Paired hs ∧
      Transition.exec headerStep a
        (.headersComplete :: (bodies.map .body ++ (evs' ++ [.messageComplete]))) = some b ∧
      b.Paired (hs ++ trailers) := by
  let pcre : Pcre := .refusing
  have hurls := run_urls [] pcre urls .fresh
  set buf := urls.foldl fsModHttpBufAppend HttpReq.fresh.urlBuf
  obtain ⟨keys, vals, state, hkeys, hvals, hstate, hheaders⟩ :=
    run_headers [] pcre hd { HttpReq.fresh with urlBuf := buf } nofun
  have hfirst : NameFirst (urls.map .url ++ evs) := by
    have hnames := hd.nameFirst nameFirst_nil
    rw [List.append_nil] at hnames
    exact hnames.append (by simp)
  obtain ⟨a, hexec, hholds⟩ := holds_fresh.reads (hurls.append hheaders) hfirst
  -- the rest of the message
  set req₁ : HttpReq := { HttpReq.fresh with
    urlBuf := buf, pKey := [] ++ keys, pVal := [] ++ vals, pState := state }
  obtain ⟨keys', vals', state', hkeys', hvals', -, htrailers⟩ :=
    run_headers [] pcre ht req₁ hstate
  set req₂ : HttpReq := { req₁ with
    pKey := req₁.pKey ++ keys', pVal := req₁.pVal ++ vals', pState := state' }
  have hcomplete : Mealy.Reads (httpStep [] pcre) req₁ [.headersComplete] req₁ [] :=
    Mealy.Reads.one rfl
  have hdone : Mealy.Reads (httpStep [] pcre) req₂ [.messageComplete] req₂ [req₂.answer] :=
    Mealy.Reads.one rfl
  have hrest := hcomplete.append ((run_bodies_unrouted pcre bodies req₁).append
    (htrailers.append hdone))
  have hfirst' : NameFirst
      ([.headersComplete] ++ (bodies.map .body ++ (evs' ++ [.messageComplete]))) := by
    have hlast : NameFirst ([.messageComplete] ++ []) := nameFirst_nil.append (by simp)
    exact ((ht.nameFirst hlast).append (by simp)).append (by simp)
  obtain ⟨b, hexec', hholds'⟩ := hholds.reads hrest hfirst'
  refine ⟨a, b, hexec, hholds.paired ?_ ?_, hexec', hholds'.paired ?_ ?_⟩
  · exact hkeys
  · exact hvals
  · have hall : (keys ++ keys').map HttpBuf.text = (hs ++ trailers).map Prod.fst := by
      simp [hkeys, hkeys']
    exact hall
  · have hall : (vals ++ vals').map HttpBuf.text = (hs ++ trailers).map Prod.snd := by
      simp [hvals, hvals']
    exact hall

/-- `ab: c`, its name in two pieces, and no trailers. -/
theorem headers_paired_two_pieces :
    ∃ a b, Transition.exec headerStep .fresh (([[47]] : List (List UInt8)).map .url ++
        (([bytes "a", bytes "b"] : List (List UInt8)).map HttpEvent.headerField ++
          ([bytes "c"] : List (List UInt8)).map HttpEvent.headerValue ++ [])) = some a ∧
      a.Paired [(bytes "ab", bytes "c")] ∧
      Transition.exec headerStep a
        (.headersComplete :: (([] : List (List UInt8)).map .body ++ ([] ++ [.messageComplete])))
          = some b ∧
      b.Paired ([(bytes "ab", bytes "c")] ++ []) :=
  headers_paired (.cons (.mk (List.cons_ne_nil _ _) (List.cons_ne_nil _ _) (by decide) (by decide))
    .nil) .nil [[47]] []

end Folksong
