import Folksong.Http.Publish

/-!
# One answer for a request

Every exit of the code behind `fs_mod_http_on_message_complete` answers once, unless a field of the
publisher is looked at that nobody has set, its pattern is null, or the path of a proxied request
has left its buffers. An answer `200` does not tell whether the queue of the producer has been
drained.
-/

namespace Folksong

/-- The names of all headers of a request. -/
def Request.names (r : Request) : List (List UInt8) := (r.headers ++ r.trailers).map Prod.fst

/-- What the pattern of a publisher finds for a group, if it has one. -/
def Publisher.group (named : PcreNamed) (p : Publisher) (url name : List UInt8) :
    Option (List UInt8) :=
  p.pathRe.bind fun re => named re url name

/-- No topic can be found for the request: not in its url, not in a header, and there is no
default. -/
def NoTopic (named : PcreNamed) (r : Request) (p : Publisher) : Prop :=
  Missing (p.group named r.url (bytes "topic")) p.topicParam p.defaultTopic r.names

/-- What a publisher submits for a request. -/
structure KafkaAnswer (named : PcreNamed) (r : Request) (p : Publisher) (ops : List PublishOp) :
    Prop where
  one : ∃ code, codes ops = [code] ∧ code ≠ 404
  once : (ops.filter PublishOp.isProduce).length ≤ 1
  payload : ∀ payload key ok, .produce payload key ok ∈ ops → payload = r.body
  ok : 200 ∈ codes ops → ∃ key, .produce r.body key true ∈ ops
  badRequest : 400 ∈ codes ops ↔ NoTopic named r p ∨ r.body = []

/-- The pattern has been compiled, and every field that is looked at for the topic and for the key
of the request has been set. -/
structure FieldsSet (named : PcreNamed) (o : RdKafka) (r : Request) (p : Publisher) : Prop where
  compiled : p.pathRe ≠ none
  topic : Looked (p.group named r.url (bytes "topic")) p.topicParam p.defaultTopic r.names
    (r.body ≠ [] ∧ o.Makes p)
  key : ¬ NoTopic named r p → Looked (p.group named r.url (bytes "key")) p.keyParam p.defaultKey
    r.names (r.body ≠ [] ∧ o.Makes p ∧ o.topicNew = true)

/-- The request is answered as it should by this route: a publisher looks at what has been set, and
the path of a proxied request stays inside its buffers. -/
def Route.Ready (pcre : Pcre) (named : PcreNamed) (o : RdKafka) (r : Request) : Route → Prop
  | .publisher p => FieldsSet named o r p
  | .proxy p => p.PathFits pcre r.url

/-- The request as a publisher holds it at its end. -/
structure Request.HeldBy (r : Request) (a : HttpAnswer) : Prop where
  url : a.url = r.url
  names : a.headers.1 = r.names
  values : a.headers.2 = (r.headers ++ r.trailers).map Prod.snd
  self : a.self = .value (if r.body = [] then none else some r.body)

section

variable {named : PcreNamed} {o : RdKafka} {r : Request} {p : Publisher} {a : HttpAnswer}

lemma Request.HeldBy.length (h : r.HeldBy a) : a.headers.1.length = a.headers.2.length := by
  rw [h.names, h.values]
  simp [Request.names]

lemma kafkaAnswer_badRequest (h : NoTopic named r p ∨ r.body = []) :
    KafkaAnswer named r p [.respond 400] := by
  refine ⟨⟨400, rfl, by decide⟩, Nat.zero_le 1, ?_, ?_, iff_of_true (by decide) h⟩
  · intro payload key ok hmem
    simp at hmem
  · intro hok
    simp [codes] at hok

/-- What the producer submits for a request that has a body and a topic. -/
lemma Answered.kafkaAnswer {ops : List PublishOp} (h : Answered r.body ops)
    (htopic : ¬ NoTopic named r p) (hbody : r.body ≠ []) : KafkaAnswer named r p ops := by
  constructor
  · rcases h.one with hcodes | ⟨hcodes, -⟩
    · exact ⟨500, hcodes, by decide⟩
    · exact ⟨200, hcodes, by decide⟩
  · exact h.once
  · intro payload key ok hmem
    obtain ⟨key', ok', heq⟩ := h.produced _ (List.mem_filter.mpr ⟨hmem, rfl⟩)
    cases heq
    rfl
  · intro hok
    rcases h.one with hcodes | ⟨-, hproduce⟩
    · simp [hcodes] at hok
    · exact hproduce
  · refine iff_of_false (fun hbad => ?_) (not_or.mpr ⟨htopic, hbody⟩)
    rcases h.one with hcodes | ⟨hcodes, -⟩ <;> simp [hcodes] at hbad

/-- `fs_mod_http_kafka_publish` on a topic and a key, of which the pointers nobody has set would
be used as soon as the producer is made. -/
lemma publish_cases (h : r.HeldBy a) (htopic : ¬ NoTopic named r p) {topic key : CString}
    (hnull : topic ≠ .null) :
    (∀ ops, fsModHttpKafkaPublish o p a.self topic key = some ops → KafkaAnswer named r p ops) ∧
      (fsModHttpKafkaPublish o p a.self topic key = none ↔
        topic = .wild ∧ (r.body ≠ [] ∧ o.Makes p) ∨
          key = .wild ∧ (r.body ≠ [] ∧ o.Makes p ∧ o.topicNew = true)) := by
  rw [h.self]
  by_cases hbody : r.body = []
  · rw [if_pos hbody]
    constructor
    · intro ops hops
      cases hops
      exact kafkaAnswer_badRequest (.inr hbody)
    · simp [fsModHttpKafkaPublish, hbody]
  · rw [if_neg hbody, publish_none_iff]
    constructor
    · exact fun ops hops => (publish_answered hops).kafkaAnswer htopic hbody
    · have hwild : (∀ s, topic ≠ .text s) ↔ topic = .wild := by
        cases topic <;> simp at hnull ⊢
      rw [hwild]
      constructor
      · rintro ⟨hmakes, htop | ⟨hnew, hkey⟩⟩
        · exact .inl ⟨htop, hbody, hmakes⟩
        · exact .inr ⟨hkey, hbody, hmakes, hnew⟩
      · rintro (⟨htop, -, hmakes⟩ | ⟨hkey, -, hmakes, hnew⟩)
        · exact ⟨hmakes, .inl htop⟩
        · exact ⟨hmakes, .inr ⟨hnew, hkey⟩⟩

/-- A publisher answers a request once, and as it should, when all fields it looks at have been
set; otherwise its behaviour is undefined. -/
lemma doneCb_cases (h : r.HeldBy a) :
    (∀ ops, fsModHttpKafkaDoneCb named o p a = some ops → KafkaAnswer named r p ops) ∧
      (fsModHttpKafkaDoneCb named o p a = none ↔ ¬ FieldsSet named o r p) := by
  have htopics := kafkaGet_looked (p.group named r.url (bytes "topic")) p.topicParam
    p.defaultTopic h.length (r.body ≠ [] ∧ o.Makes p)
  have hkeys := kafkaGet_looked (p.group named r.url (bytes "key")) p.keyParam
    p.defaultKey h.length (r.body ≠ [] ∧ o.Makes p ∧ o.topicNew = true)
  rw [h.names] at htopics hkeys
  rw [fsModHttpKafkaDoneCb, fsModHttpKafkaGetTopic, fsModHttpKafkaGetKey, h.url]
  cases hre : p.pathRe with
  | none => exact ⟨nofun, iff_of_true rfl fun hset => hset.compiled hre⟩
  | some re =>
  have hcompiled : p.pathRe ≠ none := by simp [hre]
  have hgroup : ∀ name, named re r.url name = p.group named r.url name := by
    intro name
    rw [Publisher.group, hre, Option.bind_some]
  simp only [hgroup]
  rcases htopics with ⟨htopic, hlooked⟩ | ⟨htopic, hmissing, hlooked⟩ |
    ⟨topic, htopic, hnull, hfound, hlooked⟩
  · rw [htopic]
    exact ⟨nofun, iff_of_true rfl fun hset => hlooked hset.topic⟩
  · rw [htopic]
    constructor
    · intro ops hops
      cases hops
      exact kafkaAnswer_badRequest (.inl hmissing)
    · exact iff_of_false nofun (not_not_intro ⟨hcompiled, hlooked, fun hno => absurd hmissing hno⟩)
  · -- the key is `key`, and looking for it has not gone wrong
    have hpublish : ∀ key, (Looked (p.group named r.url (bytes "key")) p.keyParam p.defaultKey
        r.names (r.body ≠ [] ∧ o.Makes p ∧ o.topicNew = true) ↔
          ¬ (key = .wild ∧ (r.body ≠ [] ∧ o.Makes p ∧ o.topicNew = true))) →
        (∀ ops, fsModHttpKafkaPublish o p a.self topic key = some ops →
          KafkaAnswer named r p ops) ∧
        (fsModHttpKafkaPublish o p a.self topic key = none ↔ ¬ FieldsSet named o r p) := by
      intro key hkey
      obtain ⟨hanswer, hnone⟩ := publish_cases h hfound hnull
      refine ⟨hanswer, hnone.trans ?_⟩
      constructor
      · rintro (hwild | hwild) ⟨-, hset, hset'⟩
        · exact hlooked.mp hset hwild
        · exact hkey.mp (hset' hfound) hwild
      · intro hno
        by_contra hwild
        rw [not_or] at hwild
        exact hno ⟨hcompiled, hlooked.mpr hwild.1, fun _ => hkey.mpr hwild.2⟩
    rw [htopic]
    rcases hkeys with ⟨hkey, hunset⟩ | ⟨hkey, -, hset⟩ | ⟨key, hkey, -, -, hset⟩
    · rw [hkey]
      exact ⟨nofun, iff_of_true rfl fun hall => hunset (hall.key hfound)⟩
    · rw [hkey]
      refine hpublish _ (iff_of_true hset ?_)
      cases p.group named r.url (bytes "key") <;> simp
    · rw [hkey]
      exact hpublish key hset

end

/-- What is submitted for a request: one response, `404` when no route has been selected, and what
a publisher has to submit when one has. -/
structure OneAnswer (routes : List Route) (pcre : Pcre) (named : PcreNamed) (r : Request)
    (ops : List PublishOp) : Prop where
  one : ∃ code, codes ops = [code]
  notFound : codes ops = [404] ↔ routes.find? (·.matches pcre r.url) = none
  kafka : ∀ p, routes.find? (·.matches pcre r.url) = some (.publisher p) →
    KafkaAnswer named r p ops

section

variable {routes : List Route} {pcre : Pcre} {named : PcreNamed} {o : RdKafka} {r : Request}
  {evs : List HttpEvent}

lemma answerTo_route : (HttpReq.fresh.answerTo routes pcre r).route
    = routes.findIdx? (·.matches pcre r.url) := by
  have hselected : ∀ req : HttpReq, (req.collect routes r.body).route = req.route := by
    intro req
    rw [HttpReq.collect, fsModHttpOnBody]
    split
    · rfl
    · split <;> rfl
  rw [HttpReq.answerTo]
  dsimp only
  rw [hselected, fsModHttpOnHeadersComplete]
  cases hindex : routes.findIdx? (·.matches pcre r.url) with
  | none =>
    simp only [HttpReq.fresh, HttpBuf.null_text, List.nil_append, hindex]
  | some i =>
    simp only [HttpReq.fresh, HttpBuf.null_text, List.nil_append, hindex]

/-- A publisher that has been selected holds the whole request. -/
lemma answerTo_heldBy {i : Nat} {p : Publisher}
    (hindex : routes.findIdx? (·.matches pcre r.url) = some i)
    (hroute : routes[i]? = some (.publisher p)) :
    r.HeldBy (HttpReq.fresh.answerTo routes pcre r) := by
  refine ⟨rfl, rfl, rfl, ?_⟩
  rw [HttpReq.answerTo]
  simp only [HttpReq.fresh, HttpBuf.null_text, List.nil_append, fsModHttpOnHeadersComplete, hindex,
    hroute, HttpReq.collect]
  split_ifs with hbody
  · rfl
  · simp [fsModHttpOnBody, hroute, Route.init, Route.body]

/-- What a publisher that has been selected answers. -/
lemma oneAnswer_publisher_iff {i : Nat} {p : Publisher}
    (hindex : routes.findIdx? (·.matches pcre r.url) = some i)
    (hroute : routes[i]? = some (.publisher p))
    (hfind : routes.find? (·.matches pcre r.url) = some (.publisher p)) :
    (∃ ops, fsModHttpKafkaDoneCb named o p (HttpReq.fresh.answerTo routes pcre r) = some ops ∧
        OneAnswer routes pcre named r ops) ↔ FieldsSet named o r p := by
  have hheld : r.HeldBy (HttpReq.fresh.answerTo routes pcre r) := answerTo_heldBy hindex hroute
  obtain ⟨hanswer, hnone⟩ : (∀ ops, fsModHttpKafkaDoneCb named o p
      (HttpReq.fresh.answerTo routes pcre r) = some ops → KafkaAnswer named r p ops) ∧
      (fsModHttpKafkaDoneCb named o p (HttpReq.fresh.answerTo routes pcre r) = none ↔
        ¬ FieldsSet named o r p) := doneCb_cases hheld
  constructor
  · rintro ⟨ops, hops, -⟩
    by_contra hunset
    rw [hnone.mpr hunset] at hops
    cases hops
  · intro hset
    cases hdone : fsModHttpKafkaDoneCb named o p (HttpReq.fresh.answerTo routes pcre r) with
    | none => exact absurd hset (hnone.mp hdone)
    | some ops =>
      have hkafka := hanswer ops hdone
      obtain ⟨code, hcodes, hne⟩ := hkafka.one
      refine ⟨ops, rfl, ⟨code, hcodes⟩, iff_of_false ?_ ?_, ?_⟩
      · rw [hcodes]
        simpa using hne
      · simp [hfind]
      · intro p' hp'
        rw [hfind] at hp'
        cases hp'
        exact hkafka

/-- A proxy that has been selected has put the path together. -/
lemma answerTo_next {i : Nat} {p : Proxy} (hindex : routes.findIdx? (·.matches pcre r.url) = some i)
    (hroute : routes[i]? = some (.proxy p)) :
    (HttpReq.fresh.answerTo routes pcre r).self = .next (p.nextPath pcre r.url) := by
  rw [HttpReq.answerTo]
  simp only [HttpReq.fresh, HttpBuf.null_text, List.nil_append, fsModHttpOnHeadersComplete, hindex,
    hroute, HttpReq.collect]
  split_ifs
  · rfl
  · simp [fsModHttpOnBody, hroute, Route.init, Route.body]

/-- What a proxy that has been selected answers. -/
lemma oneAnswer_proxy_iff {i : Nat} {p : Proxy}
    (hindex : routes.findIdx? (·.matches pcre r.url) = some i)
    (hroute : routes[i]? = some (.proxy p))
    (hfind : routes.find? (·.matches pcre r.url) = some (.proxy p)) :
    (∃ ops, fsModHttpProxyDoneCb (HttpReq.fresh.answerTo routes pcre r).self = some ops ∧
        OneAnswer routes pcre named r ops) ↔ p.PathFits pcre r.url := by
  rw [answerTo_next hindex hroute, ← nextPath_isSome_iff]
  cases p.nextPath pcre r.url with
  | none => exact iff_of_false (by rintro ⟨ops, hops, -⟩; cases hops) nofun
  | some u =>
    refine iff_of_true ⟨[.respond 200], rfl, ⟨200, rfl⟩, iff_of_false (by decide) ?_, ?_⟩ rfl
    · simp [hfind]
    · intro p' hp'
      rw [hfind] at hp'
      cases hp'

/-- A request that arrives alone is answered once, and as it should, exactly when the route it goes
to, if there is one, is ready for it. -/
theorem oneAnswer_iff (hd : Delivers r evs) :
    (∃ ops, (answers routes pcre evs).map (fsModHttpOnMessageComplete routes named o) = [some ops] ∧
        OneAnswer routes pcre named r ops) ↔
      ∀ route, routes.find? (·.matches pcre r.url) = some route → route.Ready pcre named o r := by
  rw [answers_alone routes pcre hd, List.map_singleton]
  have hfind : routes.find? (·.matches pcre r.url)
      = (routes.findIdx? (·.matches pcre r.url)).bind (routes[·]?) :=
    List.find?_eq_bind_findIdx?_getElem?
  rw [fsModHttpOnMessageComplete, answerTo_route]
  cases hindex : routes.findIdx? (·.matches pcre r.url) with
  | none =>
    rw [hindex] at hfind
    have hnone : routes.find? (·.matches pcre r.url) = none := hfind
    refine iff_of_true ⟨[.respond 404], rfl, ⟨404, rfl⟩, iff_of_true rfl hnone, ?_⟩ ?_
    · intro p hp
      rw [hnone] at hp
      cases hp
    · intro p hp
      rw [hnone] at hp
      cases hp
  | some i =>
    rw [hindex] at hfind
    have hi : i < routes.length := (List.findIdx?_eq_some_iff_getElem.mp hindex).1
    have hroute : routes[i]? = some routes[i] := List.getElem?_eq_getElem hi
    have hfind : routes.find? (·.matches pcre r.url) = some routes[i] := hfind.trans hroute
    dsimp only
    rw [hfind, hroute]
    cases hp : routes[i] with
    | proxy p =>
      rw [hp] at hroute hfind
      have hiff : (∃ ops, fsModHttpProxyDoneCb (HttpReq.fresh.answerTo routes pcre r).self
          = some ops ∧ OneAnswer routes pcre named r ops) ↔ Route.Ready pcre named o r (.proxy p) :=
        oneAnswer_proxy_iff hindex hroute hfind
      simpa using hiff
    | publisher p =>
      rw [hp] at hroute hfind
      have hiff : (∃ ops, fsModHttpKafkaDoneCb named o p (HttpReq.fresh.answerTo routes pcre r)
          = some ops ∧ OneAnswer routes pcre named r ops) ↔
            Route.Ready pcre named o r (.publisher p) :=
        oneAnswer_publisher_iff hindex hroute hfind
      simpa using hiff

end

/-- A request with a body and without headers. -/
def Request.posted (url body : List UInt8) (h : url ≠ []) : Request := ⟨url, [], body, [], h⟩

lemma Delivers.posted (url body : List UInt8) (h : url ≠ []) (hbody : body ≠ []) :
    Delivers (.posted url body h) [.url url, .headersComplete, .body body, .messageComplete] := by
  have hurls : [url].flatten = url := by simp
  have hbodies : [body].flatten = body := by simp
  have hne : [] ∉ [body] := by simpa using hbody.symm
  exact Delivers.mk (r := .posted url body h) hurls .nil hbodies hne .nil

/-- A publisher with a default topic, whose key fields hold what was found in the memory. -/
def Publisher.withKey (key : StrField) : Publisher where
  path := ⟨bytes "/a", 3⟩
  pathRe := some (bytes "/a")
  topicParam := .null
  defaultTopic := .set ⟨bytes "t", 2⟩
  keyParam := key
  defaultKey := key
  conf := fsAllocArr (FsStr × FsStr) 2 Nat.two_pos

/-- Nothing fails. -/
def RdKafka.succeeding : RdKafka := ⟨fun _ => true, true, true, true, true, true⟩

lemma withKey_ready {r : Request} :
    Route.Ready .matching (fun _ _ _ => none) .succeeding r (.publisher (.withKey .null)) := by
  refine ⟨nofun, fun _ => ⟨nofun, fun _ _ => nofun⟩, fun _ _ => ⟨nofun, fun _ _ => nofun⟩⟩

lemma toB_ready {r : Request} :
    Route.Ready .matching (fun _ _ _ => none) .succeeding r (.proxy .toB) := by
  refine ⟨_, rfl, ?_⟩
  rw [← setNextPath_inside_iff]
  change (fsModHttpProxySetNextPath oneGroup Proxy.toB.passPath.toList).Inside oneGroup
  decide

/-- Null pointers in the memory; and a request that is proxied. -/
theorem oneAnswer_iff_null :
    (∃ ops, (answers [.publisher (.withKey .null), .proxy .toB] .matching
        [.url (bytes "/a"), .headersComplete, .body (bytes "x"), .messageComplete]).map
          (fsModHttpOnMessageComplete [.publisher (.withKey .null), .proxy .toB]
            (fun _ _ _ => none) .succeeding) = [some ops] ∧
      OneAnswer [.publisher (.withKey .null), .proxy .toB] .matching (fun _ _ _ => none)
        (.posted (bytes "/a") (bytes "x") (by decide)) ops) ∧
    ∃ ops, (answers [.proxy .toB] .matching
        [.url (bytes "/a"), .headersComplete, .body (bytes "x"), .messageComplete]).map
          (fsModHttpOnMessageComplete [.proxy .toB] (fun _ _ _ => none) .succeeding)
            = [some ops] ∧
      OneAnswer [.proxy .toB] .matching (fun _ _ _ => none)
        (.posted (bytes "/a") (bytes "x") (by decide)) ops := by
  refine ⟨(oneAnswer_iff (Delivers.posted _ _ (by decide) (by decide))).mpr ?_,
    (oneAnswer_iff (Delivers.posted _ _ (by decide) (by decide))).mpr ?_⟩
  · intro route hroute
    obtain rfl : _ = route := Option.some.inj hroute
    exact withKey_ready
  · intro route hroute
    obtain rfl : _ = route := Option.some.inj hroute
    exact toB_ready

/-- Other pointers: the key of a message is read from wherever the default key points to. -/
theorem not_oneAnswer :
    ¬ ∀ routes pcre named o r evs, Delivers r evs →
      ∃ ops, (answers routes pcre evs).map (fsModHttpOnMessageComplete routes named o) = [some ops] ∧
        OneAnswer routes pcre named r ops := by
  intro h
  obtain ⟨ops, hops, -⟩ := h [.publisher (.withKey .wild)] .matching (fun _ _ _ => none)
    .succeeding _ _ (Delivers.posted (bytes "/a") (bytes "x") (by decide) (by decide))
  cases hops

/-! ### Nothing is acknowledged and lost -/

/-- A response `200` comes with a message that librdkafka has accepted and a queue that has been
drained before the producer is destroyed. -/
def Drained (result : Option (List PublishOp)) : Prop :=
  ∀ ops, result = some ops → 200 ∈ codes ops →
    ∃ pre post, ops = pre ++ .destroy :: post ∧ (∃ payload key, .produce payload key true ∈ pre) ∧
      .flush true ∈ pre

/-- Every step before the queue is flushed succeeds. -/
structure Produced (o : RdKafka) (p : Publisher) (self : SelfField) (topic key : CString) : Prop where
  body : ∃ payload, self = .value (some payload)
  makes : o.Makes p
  topic : ∃ s, topic = .text s
  topicNew : o.topicNew = true
  key : key ≠ .wild
  produce : o.produce = true

section

variable {o : RdKafka} {p : Publisher} {self : SelfField} {topic key : CString}

/-- What is submitted when all of them do. -/
lemma publish_of_produced (h : Produced o p self topic key) :
    ∃ t payload k, fsModHttpKafkaPublish o p self topic key =
      some (((confSets o.confSet 0 p.conf.toList).1 ++
        [.new true, .topicConfNew true, .topicNew t true, .produce payload k true, .poll,
          .flush o.flush, .respond 200]) ++ [.destroy, .topicDestroy]) := by
  obtain ⟨⟨payload, rfl⟩, ⟨hconf, hnew, hconfnew⟩, ⟨t, rfl⟩, htopic, hkey, hproduce⟩ := h
  have hok : (confSets o.confSet 0 p.conf.toList).2 = true := by
    rw [confSets_ok_iff]
    simpa using hconf
  refine ⟨t, payload, ?_⟩
  cases key with
  | wild => exact absurd rfl hkey
  | null =>
    exact ⟨none, by simp [fsModHttpKafkaPublish, hok, publishTo, hnew, hconfnew, htopic, produceTo,
      hproduce]⟩
  | text k =>
    exact ⟨some k, by simp [fsModHttpKafkaPublish, hok, publishTo, hnew, hconfnew, htopic,
      produceTo, hproduce]⟩

lemma codes_produceTo (o : RdKafka) (payload : List UInt8) (k : Option (List UInt8)) :
    codes (produceTo o payload k) = [if o.produce then 200 else 500] := by
  cases h : o.produce <;> simp [produceTo, h, codes]

/-- `200` is answered only when they do. -/
lemma produced_of_ok {ops : List PublishOp} (h : fsModHttpKafkaPublish o p self topic key = some ops)
    (hcode : 200 ∈ codes ops) : Produced o p self topic key := by
  cases self with
  | unset => cases h
  | next => cases h
  | value payload =>
    cases payload with
    | none =>
      cases h
      simp [codes] at hcode
    | some payload =>
      rw [fsModHttpKafkaPublish] at h
      split_ifs at h with hok
      · obtain ⟨ops', hops', rfl⟩ := Option.map_eq_some_iff.mp h
        rw [codes_append, codes_confSets, List.nil_append] at hcode
        rw [confSets_ok_iff] at hok
        simp only [Nat.zero_add] at hok
        rcases publishTo_cases hops' with
          ⟨hfailed, -⟩ | ⟨t, k, rfl, hkey, hnew, hconf, htopic, rfl⟩
        · simp [hfailed] at hcode
        · have hproduce : o.produce = true := by
            by_contra hno
            have hcodes := codes_produceTo o payload k
            rw [if_neg hno] at hcodes
            rw [codes_append, hcodes] at hcode
            simp [codes] at hcode
          exact ⟨⟨payload, rfl⟩, ⟨hok, hnew, hconf⟩, ⟨t, rfl⟩, htopic, hkey, hproduce⟩
      · cases h
        rw [codes_append, codes_confSets] at hcode
        simp [codes] at hcode

/-- An answer `200` means that the message has left the proxy exactly when the flush reports no
error, or a step before it has failed. -/
theorem drained_iff (o : RdKafka) (p : Publisher) (self : SelfField) (topic key : CString) :
    Drained (fsModHttpKafkaPublish o p self topic key) ↔
      (Produced o p self topic key → o.flush = true) := by
  constructor
  · intro h hproduced
    obtain ⟨t, payload, k, heq⟩ := publish_of_produced hproduced
    obtain ⟨pre, post, hops, -, hflush⟩ := h _ heq (by simp [codes])
    have hmem : PublishOp.flush true ∈ pre ++ .destroy :: post := List.mem_append_left _ hflush
    rw [← hops] at hmem
    -- the queue is flushed once
    rcases List.mem_append.mp hmem with hmem | hmem
    · rcases List.mem_append.mp hmem with hmem | hmem
      · obtain ⟨key, value, r, hconf⟩ := mem_confSets hmem
        cases hconf
      · simpa using hmem
    · simp at hmem
  · intro hflush ops hops hcode
    have hproduced := produced_of_ok hops hcode
    obtain ⟨t, payload, k, heq⟩ := publish_of_produced hproduced
    rw [hops, hflush hproduced] at heq
    obtain rfl := Option.some.inj heq
    exact ⟨_, [.topicDestroy], rfl, ⟨payload, k, by simp⟩, by simp⟩

end

/-- The flush runs into its time limit. -/
theorem not_drained :
    ¬ ∀ (o : RdKafka) (p : Publisher) (self : SelfField) (topic key : CString),
      Drained (fsModHttpKafkaPublish o p self topic key) := by
  intro h
  have hdrained := h { RdKafka.succeeding with flush := false } (.withKey .null)
    (.value (some (bytes "x"))) (.text (bytes "t")) .null
  obtain ⟨pre, post, hops, -, hflush⟩ := hdrained _ rfl (by decide)
  have hmem : PublishOp.flush true ∈ pre ++ .destroy :: post := List.mem_append_left _ hflush
  rw [← hops] at hmem
  revert hmem
  decide

end Folksong
