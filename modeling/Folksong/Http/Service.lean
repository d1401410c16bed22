import Folksong.Http.Answer
import Folksong.Http.Append
import Folksong.Script.Reading

/-!
# What a script serves

A request that arrives at an http block of an accepted script is answered as the text of the block
says: its route is the first block inside whose pattern matches, and the message of a publisher is
put together from the words of the publisher's own directives and from the request. Where the
behaviour is undefined, the text says so too.
-/

namespace Folksong

/-! ### Publishing a message -/

/-- A message, with the configuration of the producer that is made for it. -/
structure Message where
  conf : List (FsStr × FsStr)
  topic : List UInt8
  payload : List UInt8
  key : Option (List UInt8)

/-- Calls one after the other, up to the first one that fails, and whether there is none. -/
def callAll : List ((Bool → PublishOp) × Bool) → List PublishOp × Bool
  | [] => ([], true)
  | (call, ok) :: rest =>
    if ok then (call true :: (callAll rest).1, (callAll rest).2) else ([call false], false)

/-- The calls that publish a message, with what librdkafka reports. -/
def Message.calls (o : RdKafka) (m : Message) : List ((Bool → PublishOp) × Bool) :=
  m.conf.zipIdx.map (fun item => (.confSet item.1.1.cstr item.1.2.cstr, o.confSet item.2)) ++
    [(.new, o.new), (.topicConfNew, o.topicConfNew), (.topicNew m.topic, o.topicNew),
      (.produce m.payload m.key, o.produce)]

/-- What has to be released behind a call. -/
def PublishOp.release : PublishOp → List PublishOp
  | .new true => [.destroy]
  | .topicNew _ true => [.topicDestroy]
  | _ => []

/-- The calls, the answer, and the release of what the calls have made. -/
def Message.submitted (o : RdKafka) (m : Message) : List PublishOp :=
  (callAll (m.calls o)).1 ++
    ((if (callAll (m.calls o)).2 then [.poll, .flush o.flush, .respond 200] else [.respond 500]) ++
      (callAll (m.calls o)).1.flatMap PublishOp.release)

lemma callAll_append (calls calls' : List ((Bool → PublishOp) × Bool)) :
    callAll (calls ++ calls') = if (callAll calls).2 then
      ((callAll calls).1 ++ (callAll calls').1, (callAll calls').2) else callAll calls := by
  induction calls with
  | nil => rfl
  | cons call calls ih =>
    obtain ⟨call, ok⟩ := call
    rw [List.cons_append, callAll, callAll]
    cases ok with
    | false => rfl
    | true =>
      rw [if_pos rfl, if_pos rfl, ih]
      split_ifs <;> rfl

lemma callAll_conf (ok : Nat → Bool) (items : List (FsStr × FsStr)) (i : Nat) :
    callAll ((items.zipIdx i).map fun item => (.confSet item.1.1.cstr item.1.2.cstr, ok item.2))
      = confSets ok i items := by
  induction items generalizing i with
  | nil => rfl
  | cons item items ih =>
    obtain ⟨key, value⟩ := item
    rw [List.zipIdx_cons, List.map_cons, callAll, confSets, ih]

lemma release_conf {ok : Nat → Bool} {items : List (FsStr × FsStr)} {i : Nat} :
    (confSets ok i items).1.flatMap PublishOp.release = [] := by
  rw [List.flatMap_eq_nil_iff]
  intro op hop
  obtain ⟨key, value, r, rfl⟩ := mem_confSets hop
  rfl

/-- `fs_mod_http_kafka_publish` makes the calls up to the first one that fails, answers, and
releases what has been made, at whatever call it ends. -/
lemma publish_eq_submitted (o : RdKafka) {p : Publisher} {conf : List (FsStr × FsStr)}
    (hconf : p.conf.toList = conf) (topic payload : List UInt8) (key : Option (List UInt8)) :
    fsModHttpKafkaPublish o p (.value (some payload)) (.text topic) (key.elim .null .text)
      = some (Message.submitted o ⟨conf, topic, payload, key⟩) := by
  rw [fsModHttpKafkaPublish, hconf, Message.submitted, Message.calls, callAll_append,
    callAll_conf]
  cases hset : (confSets o.confSet 0 conf).2 with
  | false =>
    rw [if_neg Bool.false_ne_true, if_neg Bool.false_ne_true, hset, if_neg Bool.false_ne_true,
      release_conf]
    rfl
  | true =>
    rw [if_pos rfl, if_pos rfl, List.flatMap_append, release_conf, List.append_assoc]
    unfold publishTo
    cases o.new
    · rfl
    cases o.topicConfNew
    · rfl
    cases o.topicNew
    · rfl
    cases key <;> cases hproduce : o.produce <;>
      simp [callAll, produceTo, hproduce, PublishOp.release]

/-! ### What a publisher block says -/

/-- The value of the first header that has the size and the bytes of the word. -/
def headerOf (headers : List (List UInt8 × List UInt8)) (w : FsStr) : Option (List UInt8) :=
  (headerIndex w (headers.map Prod.fst)).bind fun n => (headers[n]?).map Prod.snd

/-- The group of the pattern unless it is empty, else the header that is named, else the
default. -/
def sought (group : Option (List UInt8)) (param dflt : Option FsStr)
    (headers : List (List UInt8 × List UInt8)) : Option (List UInt8) :=
  if group.getD [] ≠ [] then group
  else ((param.bind (headerOf headers)).map cText).or (dflt.map FsStr.cstr)

namespace Script

/-- The items of the configuration. -/
def items (s : Script) (k : Callback) : List (FsStr × FsStr) :=
  (s.given k).filterMap fun ws => match ws with
    | [key, value] => some (key, value)
    | _ => none

/-- The pieces of the path of a proxy. -/
def pathPieces (lib : Lib) (s : Script) : List Piece :=
  (s.given .httpProxyPassPath).flatten.flatMap fun template => (varPieces lib template).2

/-- What is found for a request with this group and these two parameters. -/
def seek (named : PcreNamed) (re : List UInt8) (s : Script) (r : Request)
    (group : List UInt8) (param dflt : PublisherParam) : Option (List UInt8) :=
  sought (named re r.url group) (s.lastWord param.cmd.call) (s.lastWord dflt.cmd.call)
    (r.headers ++ r.trailers)

/-- The message of a publisher with these directives and this pattern; there is none without a
topic or without a body. A group for the key that is empty is left as the key where nothing else is
found. -/
def message (named : PcreNamed) (re : List UInt8) (s : Script) (r : Request) : Option Message :=
  if r.body = [] then none
  else (s.seek named re r (bytes "topic") .topicParam .defaultTopic).map fun topic =>
    ⟨s.items .httpKafkaConfig, topic, r.body,
      (s.seek named re r (bytes "key") .keyParam .defaultKey).or
        (named re r.url (bytes "key"))⟩

/-- What is submitted for a request to the publisher. -/
def reply (named : PcreNamed) (o : RdKafka) (re : List UInt8) (s : Script) (r : Request) :
    List PublishOp :=
  (s.message named re r).elim [.respond 400] (Message.submitted o)

/-- The fields for the key are set, or null where they are not. -/
def KeysSet (unset : Heap → Callback → Bool) (s : Script) : Prop :=
  ∀ name ∈ [PublisherParam.keyParam, .defaultKey],
    s.given name.cmd.call ≠ [] ∨ ∀ h, unset h name.cmd.call = true

end Script

/-- What is submitted for a request when these blocks stand inside an http block; nothing is defined
behind a publisher whose pattern has not been compiled, or a path that leaves its buffers. -/
inductive Serves (lib : Lib) (pcre : Pcre) (named : PcreNamed) (o : RdKafka) (r : Request) :
    List (Callback × List FsStr × Script) → Option (List PublishOp) → Prop where
  | notFound : Serves lib pcre named o r [] (some [.respond 404])
  | next {k path body bs result} (calls : List LibCall) :
      (k = .httpKafkaBlock → lib.result calls (.pcreCompile path.cstr) = true) →
      pcre.exec path.cstr r.url = .noMatch → Serves lib pcre named o r bs result →
      Serves lib pcre named o r ((k, [path], body) :: bs) result
  | proxy {path body bs} : pcre.exec path.cstr r.url ≠ .noMatch →
      (pcre.found path.cstr r.url).Fits ((body.pathPieces lib).map Piece.text) →
      Serves lib pcre named o r ((.httpProxyBlock, [path], body) :: bs) (some [.respond 200])
  | strays {path body bs} : pcre.exec path.cstr r.url ≠ .noMatch →
      ¬ (pcre.found path.cstr r.url).Fits ((body.pathPieces lib).map Piece.text) →
      Serves lib pcre named o r ((.httpProxyBlock, [path], body) :: bs) none
  | publisher {path body bs} (calls : List LibCall) :
      lib.result calls (.pcreCompile path.cstr) = true → pcre.exec path.cstr r.url ≠ .noMatch →
      Serves lib pcre named o r ((.httpKafkaBlock, [path], body) :: bs)
        (some (body.reply named o path.cstr r))
  | uncompiled {path body bs} (calls : List LibCall) :
      lib.result calls (.pcreCompile path.cstr) = false →
      Serves lib pcre named o r ((.httpKafkaBlock, [path], body) :: bs) none

section

variable {lib : Lib} {unset : Heap → Callback → Bool} {null : Callback → Bool} {pcre : Pcre}
  {named : PcreNamed} {o : RdKafka} {r : Request} {a : HttpAnswer} {path : FsStr}
  {re : Option (List UInt8)} {s : Script} {q : Publisher} {x : Proxy} {rs : List Route}

/-! ### The fields of a publisher -/

lemma Once.field_eq {ws : List (List FsStr)} {x y : StrField} (h : Once GiveField ws x y) :
    y = ws.flatten.getLast?.elim x .set := by
  cases h with
  | never => rfl
  | once hgive => exact hgive.2

/-- A field that a block sets, or that is null without. -/
lemma Publisher.Reads.field_eq (h : (Publisher.started path re null).Reads s q)
    (name : PublisherParam)
    (hnull : s.given name.cmd.call ≠ [] ∨ name.field (.started path re null) = .null) :
    name.field q = (s.lastWord name.cmd.call).elim .null .set := by
  have hfield := h.field name
  rcases hnull with hgiven | hnull
  · cases hws : s.given name.cmd.call with
    | nil => exact absurd hws hgiven
    | cons ws wss =>
      rw [hws] at hfield
      obtain ⟨w, rfl, rfl⟩ : ∃ w, ws = [w] ∧ wss = [] := by
        cases hfield with
        | once => exact ⟨_, rfl, rfl⟩
      rw [hfield.field_eq, Script.lastWord, hws]
      rfl
  · rw [hfield.field_eq, hnull, Script.lastWord]

lemma Script.KeysSet.fields (hkeys : s.KeysSet unset) {h : Heap} (name : PublisherParam) :
    s.given name.cmd.call ≠ [] ∨ name.field (.started path re (unset h)) = .null := by
  cases name with
  | topicParam | defaultTopic => exact .inr rfl
  | keyParam =>
    refine (hkeys .keyParam (by simp)).imp_right fun hnull => ?_
    have hnull : unset h .httpKafkaKeyParam = true := hnull h
    simp [PublisherParam.field, Publisher.started, StrField.unset, hnull]
  | defaultKey =>
    refine (hkeys .defaultKey (by simp)).imp_right fun hnull => ?_
    have hnull : unset h .httpKafkaDefaultKey = true := hnull h
    simp [PublisherParam.field, Publisher.started, StrField.unset, hnull]

/-- What is looked for with fields that are set or null. -/
lemma kafkaGet_eq_sought (group : Option (List UInt8)) (param dflt : Option FsStr)
    (headers : List (List UInt8 × List UInt8)) :
    kafkaGet group (param.elim .null .set) (dflt.elim .null .set) (headers.map Prod.fst,
        headers.map Prod.snd)
      = some ((sought group param dflt headers).map .text) := by
  have hheader : (param.elim .null StrField.set).header (headers.map Prod.fst, headers.map Prod.snd)
      = some ((param.bind (headerOf headers)).map fun value => .text (cText value)) := by
    cases param with
    | none => rfl
    | some w =>
      rw [Option.elim_some, StrField.header, Option.bind_some, headerOf]
      cases hindex : headerIndex w (headers.map Prod.fst) with
      | none => rfl
      | some n =>
        have hn : n < headers.length := by
          have hlt := (List.findIdx?_eq_some_iff_getElem.mp hindex).1
          rwa [List.length_map] at hlt
        simp [hn, cText, FsStr.cstr]
  have hdflt : (dflt.elim .null StrField.set).get = dflt.map fun w => .text w.cstr := by
    cases dflt <;> rfl
  rw [kafkaGet, sought]
  by_cases hgroup : group.getD [] = []
  · rw [if_neg (not_not_intro hgroup), if_neg (not_not_intro hgroup), hheader, hdflt]
    cases param.bind (headerOf headers) <;> cases dflt <;> rfl
  · rw [if_pos hgroup, if_pos hgroup]
    cases group with
    | none => exact absurd rfl hgroup
    | some group => rfl

/-- The configuration of a producer is that of the block. -/
lemma Publisher.Reads.conf_eq (h : (Publisher.started path re null).Reads s q) :
    q.conf.toList = s.items .httpKafkaConfig := by
  obtain ⟨items, hgiven, hconf⟩ := h.conf
  have hcontents : q.conf.contents = items.map some := hconf
  rw [toList_of_contents hcontents, Script.items, hgiven, List.filterMap_map]
  exact (List.filterMap_some).symm

variable (named o) in
/-- A publisher block answers as it says. -/
lemma Publisher.Reads.reply {h : Heap} {re : List UInt8}
    (hreads : (Publisher.started path (some re) (unset h)).Reads s q)
    (hkeys : s.KeysSet unset) (ha : r.HeldBy a) :
    fsModHttpKafkaDoneCb named o q a = some (s.reply named o re r) := by
  have hfield : ∀ name : PublisherParam,
      name.field q = (s.lastWord name.cmd.call).elim .null .set :=
    fun name => hreads.field_eq name (hkeys.fields name)
  have hre : q.pathRe = some re := hreads.pathRe
  have hget : ∀ (group : List UInt8) (param dflt : PublisherParam),
      kafkaGet (named re r.url group) (param.field q) (dflt.field q) a.headers
        = some ((s.seek named re r group param dflt).map .text) := by
    intro group param dflt
    have hheaders : a.headers = ((r.headers ++ r.trailers).map Prod.fst,
        (r.headers ++ r.trailers).map Prod.snd) := Prod.ext ha.names ha.values
    rw [hfield, hfield, hheaders]
    exact kafkaGet_eq_sought _ _ _ _
  have htopic : fsModHttpKafkaGetTopic named q a
      = some ((s.seek named re r (bytes "topic") .topicParam .defaultTopic).map .text) := by
    rw [fsModHttpKafkaGetTopic, hre, ha.url]
    exact hget _ .topicParam .defaultTopic
  have hkey : fsModHttpKafkaGetKey named q a
      = some (((s.seek named re r (bytes "key") .keyParam .defaultKey).or
          (named re r.url (bytes "key"))).elim .null .text) := by
    have hseek := hget (bytes "key") .keyParam .defaultKey
    simp only [PublisherParam.field] at hseek
    rw [fsModHttpKafkaGetKey, hre]
    dsimp only
    rw [ha.url, hseek]
    cases s.seek named re r (bytes "key") .keyParam .defaultKey <;> rfl
  rw [fsModHttpKafkaDoneCb, htopic, hkey, ha.self, Script.reply, Script.message]
  cases s.seek named re r (bytes "topic") .topicParam .defaultTopic with
  | none => split_ifs <;> rfl
  | some topic =>
    by_cases hbody : r.body = []
    · rw [if_pos hbody, if_pos hbody]
      rfl
    · rw [if_neg hbody, if_neg hbody]
      exact publish_eq_submitted o hreads.conf_eq _ _ _

/-- The pieces of a proxy are those of its template. -/
lemma Proxy.Reads.passPath_eq {x₀ : Proxy} (h : x₀.Reads lib s x)
    (hempty : x₀.passPath.contents = []) : x.passPath.toList = s.pathPieces lib := by
  obtain ⟨templates, hgiven, -, hcontents⟩ := h.passPath
  rw [hempty, List.nil_append] at hcontents
  have hflatten : (templates.map ([·])).flatten = templates := by
    rw [← List.flatMap_def, List.flatMap_singleton']
  rw [toList_of_contents hcontents, Script.pathPieces, hgiven, hflatten]

/-! ### The routes of a block -/

/-- A route is passed over when its pattern is there and does not match. -/
lemma not_matches_iff {route : Route} {url : List UInt8} : ¬ route.matches pcre url = true ↔
    ∃ re, route.pathRe = some re ∧ pcre.exec re url = .noMatch := by
  rw [Route.matches]
  cases route.pathRe <;> simp

/-- What is submitted for the route that is selected, as the blocks say. -/
structure Selected (lib : Lib) (unset : Heap → Callback → Bool) (pcre : Pcre)
    (named : PcreNamed) (o : RdKafka) (r : Request) (bs : List (Callback × List FsStr × Script))
    (found : Option Route) : Prop where
  notFound : found = none → Serves lib pcre named o r bs (some [.respond 404])
  proxy : ∀ x, found = some (.proxy x) →
    ((x.nextPath pcre r.url).isSome → Serves lib pcre named o r bs (some [.respond 200])) ∧
      (x.nextPath pcre r.url = none → Serves lib pcre named o r bs none)
  publisher : ∀ q, found = some (.publisher q) →
    (q.pathRe = none → Serves lib pcre named o r bs none) ∧
      ∀ re, q.pathRe = some re → ∃ path h s,
        (Publisher.started path (some re) (unset h)).Reads s q ∧ s.KeysSet unset ∧
          Serves lib pcre named o r bs (some (s.reply named o re r))

lemma Selected.next {k : Callback} {body : Script} {bs : List (Callback × List FsStr × Script)}
    {found : Option Route} (h : Selected lib unset pcre named o r bs found) (calls : List LibCall)
    (hre : k = .httpKafkaBlock → lib.result calls (.pcreCompile path.cstr) = true)
    (hno : pcre.exec path.cstr r.url = .noMatch) :
    Selected lib unset pcre named o r ((k, [path], body) :: bs) found := by
  constructor
  · exact fun hfound => .next calls hre hno (h.notFound hfound)
  · intro x hfound
    obtain ⟨hinside, hstrays⟩ := h.proxy x hfound
    exact ⟨fun hsome => .next calls hre hno (hinside hsome),
      fun hnone => .next calls hre hno (hstrays hnone)⟩
  · intro q hfound
    obtain ⟨huncompiled, hcompiled⟩ := h.publisher q hfound
    refine ⟨fun hnone => .next calls hre hno (huncompiled hnone), fun re hsome => ?_⟩
    obtain ⟨path, h, s, hreads, hkeys, hserves⟩ := hcompiled re hsome
    exact ⟨path, h, s, hreads, hkeys, .next calls hre hno hserves⟩

/-- The first block is the route that is selected. -/
lemma Route.Reads.selected {b : Callback × List FsStr × Script}
    {bs : List (Callback × List FsStr × Script)} {route : Route}
    (hroute : Route.Reads lib unset b route)
    (hkeys : b.1 = .httpKafkaBlock → b.2.2.KeysSet unset)
    (hmatch : route.matches pcre r.url = true) :
    Selected lib unset pcre named o r (b :: bs) (some route) := by
  cases hroute with
  | @publisher path body q h hq =>
    refine ⟨fun hfound => (by cases hfound), fun x hfound => (by cases hfound), ?_⟩
    rintro _ ⟨⟩
    cases hcompile : lib.result h.calls (.pcreCompile path.cstr) with
    | false =>
      rw [if_neg (by simp [hcompile])] at hq
      have hnone : q.pathRe = none := hq.pathRe
      refine ⟨fun _ => .uncompiled h.calls hcompile, fun re hsome => ?_⟩
      rw [hnone] at hsome
      cases hsome
    | true =>
      rw [if_pos hcompile] at hq
      have hsome : q.pathRe = some path.cstr := hq.pathRe
      refine ⟨fun hnone => ?_, fun re hre => ?_⟩
      · rw [hsome] at hnone
        cases hnone
      · obtain rfl : path.cstr = re := Option.some.inj (hsome.symm.trans hre)
        refine ⟨path, h, body, hq, hkeys rfl, .publisher h.calls hcompile fun hno => ?_⟩
        exact not_matches_iff.mpr ⟨_, (show (Route.publisher q).pathRe = _ from hsome), hno⟩ hmatch
  | @proxy path body x hx =>
    refine ⟨fun hfound => (by cases hfound), ?_, fun q hfound => (by cases hfound)⟩
    rintro _ ⟨⟩
    have hsome : x.pathRe = some path.cstr := hx.pathRe
    have hne : pcre.exec path.cstr r.url ≠ .noMatch := fun hno =>
      not_matches_iff.mpr ⟨_, (show (Route.proxy x).pathRe = _ from hsome), hno⟩ hmatch
    have hfits : (x.nextPath pcre r.url).isSome ↔
        (pcre.found path.cstr r.url).Fits ((body.pathPieces lib).map Piece.text) := by
      rw [nextPath_isSome_iff, Proxy.PathFits, hsome, hx.passPath_eq rfl]
      simp
    refine ⟨fun hinside => .proxy hne (hfits.mp hinside), fun hnone => .strays hne fun hin => ?_⟩
    rw [← hfits, hnone] at hin
    cases hin

variable (pcre named o r) in
lemma selected_of_reads {bs : List (Callback × List FsStr × Script)}
    (hreads : List.Forall₂ (Route.Reads lib unset) bs rs)
    (hkeys : ∀ b ∈ bs, b.1 = .httpKafkaBlock → b.2.2.KeysSet unset) :
    Selected lib unset pcre named o r bs (rs.find? (·.matches pcre r.url)) := by
  induction hreads with
  | nil =>
    exact ⟨fun _ => .notFound, fun x hfound => (by cases hfound), fun q hfound => (by cases hfound)⟩
  | @cons b route bs rs hroute _ ih =>
    have ih := ih fun b hb => hkeys b (List.mem_cons_of_mem _ hb)
    by_cases hmatch : route.matches pcre r.url = true
    · simp only [List.find?_cons, hmatch]
      exact hroute.selected (hkeys b List.mem_cons_self) hmatch
    · obtain ⟨re, hre, hno⟩ := not_matches_iff.mp hmatch
      simp only [List.find?_cons, Bool.eq_false_iff.mpr hmatch]
      cases hroute with
      | publisher h hq =>
        have hre : _ = some re := hq.pathRe.symm.trans hre
        rw [Publisher.started] at hre
        split_ifs at hre with hcompile
        · cases hre
          exact ih.next h.calls (fun _ => hcompile) hno
      | proxy hx =>
        have hre : _ = some re := hx.pathRe.symm.trans hre
        cases hre
        exact ih.next [] (fun hk => (by cases hk)) hno

/-- A request that arrives alone at a block is served as the blocks inside it say. -/
lemma Http.Reads.serves {http₀ http : Http} {s : Script} {evs : List HttpEvent}
    (hreads : http₀.Reads lib unset s http) (hempty : http₀.routes.contents = [])
    (hkeys : ∀ b ∈ s.inner, b.1 = .httpKafkaBlock → b.2.2.KeysSet unset)
    (hd : Delivers r evs) :
    ∃ result, (answers http.routes.toList pcre evs).map
        (fsModHttpOnMessageComplete http.routes.toList named o) = [result] ∧
      Serves lib pcre named o r s.inner result := by
  obtain ⟨rs, hinner, hcontents⟩ := hreads.routes
  rw [hempty, List.nil_append] at hcontents
  have hselected := selected_of_reads pcre named o r hinner hkeys
  rw [toList_of_contents hcontents, answers_alone rs pcre hd, List.map_singleton,
    fsModHttpOnMessageComplete, answerTo_route]
  have hfind : rs.find? (·.matches pcre r.url)
      = (rs.findIdx? (·.matches pcre r.url)).bind (rs[·]?) :=
    List.find?_eq_bind_findIdx?_getElem?
  cases hindex : rs.findIdx? (·.matches pcre r.url) with
  | none =>
    rw [hindex] at hfind
    exact ⟨_, rfl, hselected.notFound hfind⟩
  | some i =>
    rw [hindex] at hfind
    have hi : i < rs.length := (List.findIdx?_eq_some_iff_getElem.mp hindex).1
    have hroute : rs[i]? = some rs[i] := List.getElem?_eq_getElem hi
    have hfind : rs.find? (·.matches pcre r.url) = some rs[i] := hfind.trans hroute
    dsimp only
    rw [hroute]
    cases hri : rs[i] with
    | proxy x =>
      rw [hri] at hfind hroute
      obtain ⟨hinside, hstrays⟩ := hselected.proxy x hfind
      dsimp only
      rw [answerTo_next hindex hroute]
      cases hnext : x.nextPath pcre r.url with
      | none => exact ⟨_, rfl, hstrays hnext⟩
      | some u => exact ⟨_, rfl, hinside (by rw [hnext]; rfl)⟩
    | publisher q =>
      rw [hri] at hfind hroute
      obtain ⟨huncompiled, hcompiled⟩ := hselected.publisher q hfind
      dsimp only
      cases hre : q.pathRe with
      | none =>
        refine ⟨none, ?_, huncompiled hre⟩
        rw [fsModHttpKafkaDoneCb, fsModHttpKafkaGetTopic, hre]
      | some re =>
        obtain ⟨path, h, body, hq, hset, hserves⟩ := hcompiled re hre
        exact ⟨_, by rw [hq.reply named o hset (answerTo_heldBy hindex hroute)], hserves⟩

end

/-- An http block with a proxy, which has its path, and a publisher. -/
def httpScript : Script :=
  .block .httpBlock ⟨word "http", []⟩
    (.param .httpHost ⟨word "host", [word "h"]⟩
      (.block .httpProxyBlock ⟨word "proxy", [word "/b"]⟩
        (.param .httpProxyPassPath ⟨word "pass_path", [word "/c"]⟩ .nil) []
        (.block .httpKafkaBlock ⟨word "kafka", [word "/a"]⟩
          (.param .httpKafkaDefaultTopic ⟨word "default_topic", [word "t"]⟩
            (.param .httpKafkaKeyParam ⟨word "key_param", [word "k"]⟩ .nil)) [] .nil)))
    [] .nil

def httpText : List UInt8 :=
  bytes "http\x7bhost h;proxy /b\x7bpass_path /c;\x7d" ++
    bytes "kafka /a\x7bdefault_topic t;key_param k;\x7d\x7d"

/-- The body of the http block. -/
def httpBody : Script := (httpScript.bodies.headD (.httpBlock, .nil)).2

/-- The parse of its text. -/
def httpParse : Verdict × Engine :=
  parseEnd (shippedEnv shippedMods .succeeding .null) (fun _ => true) .file
    ((FsFile.opened httpText []).remaining + 2) (FsFile.opened httpText [])
    (Conf.start (fsAllocArr FsStr 3 tokensCapa_pos) ⟨[], []⟩)

lemma httpParse_eq : httpParse = (.ok, httpParse.2) := by
  have hok : httpParse.1 = .ok := by decide +kernel
  exact Prod.ext hok rfl

/-- Patterns without special characters, and a path without references. -/
def Pcre.plain : Pcre where
  exec re url := if re <:+: url then .matched [some re] else .noMatch
  found _ _ := oneGroup

/-- A request with a header. -/
def keyed : Request := ⟨bytes "/a", [(bytes "k", bytes "v")], bytes "x", [], by decide⟩

/-- Its pieces. -/
def keyedEvents : List HttpEvent :=
  [bytes "/a"].map .url ++ ([bytes "k"].map .headerField ++ [bytes "v"].map .headerValue ++ [] ++
    (.headersComplete :: ([bytes "x"].map .body ++ ([] ++ [.messageComplete]))))

lemma delivers_keyed : Delivers keyed keyedEvents :=
  .mk (r := keyed) rfl (.cons (.mk (by decide) (by decide) rfl rfl) .nil) rfl (by decide) .nil

lemma fit_keyed : StringsFit keyedEvents := by
  have hfit : ∀ piece, Fit [piece] := fun piece => by
    simp [Fit, fsModHttpBufAppend_null]
  exact .mk (hfit _) (.cons (by decide) (by decide) (hfit _) (hfit _) .nil) .nil

end Folksong
