import Folksong.Http.Request

/-!
# The end of a message (`fs_mod_http_on_message_complete`, `http/kafka.c`)

A publisher finds out the topic and the key of a message, makes a producer for it and answers. The
outcomes of pcre and librdkafka are parameters. What is submitted to libuv and librdkafka is a list
of operations in their order; there is none where the behaviour of the code is undefined.
-/

namespace Folksong

/-- What is submitted, with what librdkafka reports. -/
inductive PublishOp where
  | respond (code : Nat)
  | confSet (key value : List UInt8) (ok : Bool)
  | new (ok : Bool)
  | topicConfNew (ok : Bool)
  | topicNew (topic : List UInt8) (ok : Bool)
  | produce (payload : List UInt8) (key : Option (List UInt8)) (ok : Bool)
  | poll
  | flush (ok : Bool)
  | destroy
  | topicDestroy
deriving DecidableEq, Repr

/-- `pcre_exec` and `pcre_get_named_substring`: what a compiled pattern finds in a subject for a
group. -/
abbrev PcreNamed := List UInt8 → List UInt8 → List UInt8 → Option (List UInt8)

/-- What the calls of librdkafka report: `confSet` for each item of the configuration, `flush`
whether the queue has been drained in time. -/
structure RdKafka where
  confSet : Nat → Bool
  new : Bool
  topicConfNew : Bool
  topicNew : Bool
  produce : Bool
  flush : Bool

/-- A C string: null, a pointer nobody has set, or its text. -/
inductive CString where
  | null
  | wild
  | text (s : List UInt8)
deriving DecidableEq, Repr

/-! ### The topic and the key -/

/-- `fs_str_get`, unless the field is null. -/
def StrField.get : StrField → Option CString
  | .null => none
  | .wild => some .wild
  | .set s => some (.text s.cstr)

/-- The loop over `p_key`: the first name of the size of the parameter, and with its bytes. -/
def headerIndex (param : FsStr) (names : List (List UInt8)) : Option Nat :=
  names.findIdx? fun name =>
    name.length == param.size - 1 && fsStrCmp ⟨name, name.length⟩ param

/-- The part behind `try_param`: the value of the header that the field names, if there is one. A
field that has not been set is looked at for each name. -/
def StrField.header (param : StrField) (headers : List (List UInt8) × List (List UInt8)) :
    Option (Option CString) :=
  match param with
  | .null => some none
  | .wild => if headers.1 = [] then some none else none
  | .set s =>
    match headerIndex s headers.1 with
    | none => some none
    | some n => (headers.2[n]?).map fun value => some (.text (FsStr.cstr ⟨value, value.length⟩))

/-- What `fs_mod_http_kafka_get_topic` and `fs_mod_http_kafka_get_key` share: the group of the
pattern, then the header, then the default; `some none` is `FS_MOD_HTTP_KAFKA_ERROR`. -/
def kafkaGet (group : Option (List UInt8)) (param dflt : StrField)
    (headers : List (List UInt8) × List (List UInt8)) : Option (Option CString) :=
  if group.getD [] ≠ [] then some (some (.text (group.getD [])))
  else (param.header headers).map fun value => value.or dflt.get

/-- `fs_mod_http_kafka_get_topic`; `pcre_get_named_substring` looks into a pattern that is null. -/
def fsModHttpKafkaGetTopic (named : PcreNamed) (p : Publisher) (a : HttpAnswer) :
    Option (Option CString) :=
  match p.pathRe with
  | none => none
  | some re => kafkaGet (named re a.url (bytes "topic")) p.topicParam p.defaultTopic a.headers

/-- `fs_mod_http_kafka_get_key`; what it answers is not looked at, and where it finds nothing the
key stays what pcre has made of it. -/
def fsModHttpKafkaGetKey (named : PcreNamed) (p : Publisher) (a : HttpAnswer) : Option CString :=
  match p.pathRe with
  | none => none
  | some re =>
    let group := named re a.url (bytes "key")
    (kafkaGet group p.keyParam p.defaultKey a.headers).map fun key =>
      key.getD (group.elim .null .text)

/-! ### The producer -/

/-- The loop over `publisher->conf`, and whether it gets to the end. -/
def confSets (ok : Nat → Bool) : Nat → List (FsStr × FsStr) → List PublishOp × Bool
  | _, [] => ([], true)
  | i, (key, value) :: items =>
    if ok i then
      let r := confSets ok (i + 1) items
      (.confSet key.cstr value.cstr true :: r.1, r.2)
    else ([.confSet key.cstr value.cstr false], false)

/-- From `rd_kafka_produce` on. -/
def produceTo (o : RdKafka) (payload : List UInt8) (key : Option (List UInt8)) : List PublishOp :=
  .produce payload key o.produce ::
    ((if o.produce then [.poll, .flush o.flush, .respond 200] else [.respond 500]) ++
      [.destroy, .topicDestroy])

/-- From `rd_kafka_new` on; `strlen` is called on a key that is not null. -/
def publishTo (o : RdKafka) (payload : List UInt8) (topic key : CString) :
    Option (List PublishOp) :=
  if !o.new then some [.new false, .respond 500]
  else if !o.topicConfNew then some [.new true, .topicConfNew false, .respond 500, .destroy]
  else match topic with
    | .text topic =>
      let made := [.new true, .topicConfNew true, .topicNew topic o.topicNew]
      if !o.topicNew then some (made ++ [.respond 500, .destroy])
      else match key with
        | .null => some (made ++ produceTo o payload none)
        | .text key => some (made ++ produceTo o payload (some key))
        | .wild => none
    | _ => none

/-- `fs_mod_http_kafka_publish`. -/
def fsModHttpKafkaPublish (o : RdKafka) (p : Publisher) (self : SelfField) (topic key : CString) :
    Option (List PublishOp) :=
  match self with
  | .value none => some [.respond 400]
  | .value (some payload) =>
    let r := confSets o.confSet 0 p.conf.toList
    if r.2 then (publishTo o payload topic key).map (r.1 ++ ·) else some (r.1 ++ [.respond 500])
  | _ => none

/-- `fs_mod_http_kafka_done_cb`. -/
def fsModHttpKafkaDoneCb (named : PcreNamed) (o : RdKafka) (p : Publisher) (a : HttpAnswer) :
    Option (List PublishOp) :=
  match fsModHttpKafkaGetTopic named p a with
  | none => none
  | some none => some [.respond 400]
  | some (some topic) =>
    match fsModHttpKafkaGetKey named p a with
    | none => none
    | some key => fsModHttpKafkaPublish o p a.self topic key

/-- `fs_mod_http_proxy_done_cb`, which is not reached in a defined way behind a path that has left
its buffers. -/
def fsModHttpProxyDoneCb : SelfField → Option (List PublishOp)
  | .next none => none
  | _ => some [.respond 200]

/-- `fs_mod_http_on_message_complete`. -/
def fsModHttpOnMessageComplete (routes : List Route) (named : PcreNamed) (o : RdKafka)
    (a : HttpAnswer) : Option (List PublishOp) :=
  match a.route with
  | none => some [.respond 404]
  | some i =>
    match routes[i]? with
    | none => none
    | some (.publisher p) => fsModHttpKafkaDoneCb named o p a
    | some (.proxy _) => fsModHttpProxyDoneCb a.self

/-! ### What is submitted -/

/-- The codes of the responses. -/
def codes (ops : List PublishOp) : List Nat :=
  ops.filterMap fun op => match op with
    | .respond code => some code
    | _ => none

/-- `rd_kafka_produce`. -/
def PublishOp.isProduce : PublishOp → Bool
  | .produce _ _ _ => true
  | _ => false

@[simp] lemma codes_append (ops ops' : List PublishOp) :
    codes (ops ++ ops') = codes ops ++ codes ops' :=
  List.filterMap_append

/-- The configuration is set to the end exactly when every item is accepted. -/
lemma confSets_ok_iff (ok : Nat → Bool) (i : Nat) (items : List (FsStr × FsStr)) :
    (confSets ok i items).2 = true ↔ ∀ j < items.length, ok (i + j) = true := by
  induction items generalizing i with
  | nil => simp [confSets]
  | cons item items ih =>
    rw [confSets]
    split_ifs with hok
    · rw [ih]
      constructor
      · intro h j hj
        cases j with
        | zero => exact hok
        | succ j =>
          have hnext := h j (by simpa using hj)
          rwa [Nat.add_right_comm] at hnext
      · intro h j hj
        have hnext := h (j + 1) (by simpa using hj)
        rwa [← Nat.add_assoc, Nat.add_right_comm] at hnext
    · refine iff_of_false (by simp) fun h => hok ?_
      exact h 0 (by simp)

/-- Setting the configuration submits nothing else. -/
lemma mem_confSets {ok : Nat → Bool} {i : Nat} {items : List (FsStr × FsStr)} {op : PublishOp}
    (h : op ∈ (confSets ok i items).1) : ∃ key value r, op = .confSet key value r := by
  induction items generalizing i with
  | nil => cases h
  | cons item items ih =>
    rw [confSets] at h
    split_ifs at h with hok
    · rcases List.mem_cons.mp h with rfl | h
      · exact ⟨_, _, _, rfl⟩
      · exact ih h
    · obtain rfl := List.mem_singleton.mp h
      exact ⟨_, _, _, rfl⟩

@[simp] lemma codes_confSets (ok : Nat → Bool) (i : Nat) (items : List (FsStr × FsStr)) :
    codes (confSets ok i items).1 = [] := by
  rw [codes, List.filterMap_eq_nil_iff]
  intro op hop
  obtain ⟨key, value, r, rfl⟩ := mem_confSets hop
  rfl

@[simp] lemma filter_confSets (ok : Nat → Bool) (i : Nat) (items : List (FsStr × FsStr)) :
    (confSets ok i items).1.filter PublishOp.isProduce = [] := by
  rw [List.filter_eq_nil_iff]
  intro op hop
  obtain ⟨key, value, r, rfl⟩ := mem_confSets hop
  simp [PublishOp.isProduce]

/-- What every exit behind the test for a body has in common: one answer, for one message at most,
which is the body. -/
structure Answered (payload : List UInt8) (ops : List PublishOp) : Prop where
  one : codes ops = [500] ∨ codes ops = [200] ∧ ∃ key, .produce payload key true ∈ ops
  produced : ∀ op ∈ ops.filter PublishOp.isProduce, ∃ key ok, op = .produce payload key ok
  once : (ops.filter PublishOp.isProduce).length ≤ 1

lemma produceTo_answered (o : RdKafka) (payload : List UInt8) (key : Option (List UInt8)) :
    Answered payload (produceTo o payload key) := by
  cases h : o.produce with
  | false =>
    rw [produceTo, h]
    refine ⟨.inl rfl, fun op hop => ?_, Nat.le_refl 1⟩
    exact ⟨key, false, List.mem_singleton.mp hop⟩
  | true =>
    rw [produceTo, h]
    refine ⟨.inr ⟨rfl, key, List.mem_cons_self⟩, fun op hop => ?_, Nat.le_refl 1⟩
    exact ⟨key, true, List.mem_singleton.mp hop⟩

/-- Operations before that neither answer nor produce. -/
lemma Answered.append {payload : List UInt8} {ops ops' : List PublishOp} (h : Answered payload ops')
    (hcodes : codes ops = []) (hproduce : ops.filter PublishOp.isProduce = []) :
    Answered payload (ops ++ ops') := by
  constructor
  · rw [codes_append, hcodes, List.nil_append]
    apply h.one.imp_right
    rintro ⟨hok, key, hmem⟩
    exact ⟨hok, key, List.mem_append_right _ hmem⟩
  · rw [List.filter_append, hproduce]
    exact h.produced
  · rw [List.filter_append, hproduce]
    exact h.once

lemma answered_failed {payload : List UInt8} {ops : List PublishOp} (hcodes : codes ops = [500])
    (hproduce : ops.filter PublishOp.isProduce = []) : Answered payload ops :=
  ⟨.inl hcodes, by simp [hproduce], by simp [hproduce]⟩

/-- The producer either fails before anything is produced, or gets to `rd_kafka_produce`. -/
lemma publishTo_cases {o : RdKafka} {payload : List UInt8} {topic key : CString}
    {ops : List PublishOp} (h : publishTo o payload topic key = some ops) :
    (codes ops = [500] ∧ ops.filter PublishOp.isProduce = []) ∨
      ∃ t k, topic = .text t ∧ key ≠ .wild ∧ o.new = true ∧ o.topicConfNew = true ∧
        o.topicNew = true ∧
        ops = [.new true, .topicConfNew true, .topicNew t true] ++ produceTo o payload k := by
  unfold publishTo at h
  cases hnew : o.new with
  | false =>
    simp only [hnew, Bool.not_false, if_true, Option.some.injEq] at h
    subst h
    exact .inl ⟨rfl, rfl⟩
  | true =>
    cases hconf : o.topicConfNew with
    | false =>
      simp only [hnew, hconf, Bool.not_true, Bool.not_false, Bool.false_eq_true, if_true, if_false,
        Option.some.injEq] at h
      subst h
      exact .inl ⟨rfl, rfl⟩
    | true =>
      simp only [hnew, hconf, Bool.not_true, Bool.false_eq_true, if_false] at h
      cases topic with
      | null => cases h
      | wild => cases h
      | text t =>
        cases htopic : o.topicNew with
        | false =>
          simp only [htopic, Bool.not_false, if_true, Option.some.injEq] at h
          subst h
          exact .inl ⟨rfl, rfl⟩
        | true =>
          simp only [htopic, Bool.not_true, Bool.false_eq_true, if_false] at h
          cases key with
          | wild => cases h
          | null =>
            cases h
            exact .inr ⟨t, none, rfl, nofun, rfl, rfl, rfl, rfl⟩
          | text k =>
            cases h
            exact .inr ⟨t, some k, rfl, nofun, rfl, rfl, rfl, rfl⟩

lemma publishTo_answered {o : RdKafka} {payload : List UInt8} {topic key : CString}
    {ops : List PublishOp} (h : publishTo o payload topic key = some ops) :
    Answered payload ops := by
  rcases publishTo_cases h with ⟨hcodes, hproduce⟩ | ⟨t, k, -, -, -, -, -, rfl⟩
  · exact answered_failed hcodes hproduce
  · exact (produceTo_answered o payload k).append rfl rfl

lemma publish_answered {o : RdKafka} {p : Publisher} {payload : List UInt8} {topic key : CString}
    {ops : List PublishOp}
    (h : fsModHttpKafkaPublish o p (.value (some payload)) topic key = some ops) :
    Answered payload ops := by
  rw [fsModHttpKafkaPublish] at h
  split_ifs at h with hconf
  · obtain ⟨ops', hops', rfl⟩ := Option.map_eq_some_iff.mp h
    exact (publishTo_answered hops').append (codes_confSets _ _ _) (filter_confSets _ _ _)
  · cases h
    refine answered_failed ?_ ?_
    · rw [codes_append, codes_confSets]
      rfl
    · rw [List.filter_append, filter_confSets]
      rfl

/-! ### Where the behaviour is undefined -/

/-- No name is that of the parameter. -/
def StrField.NoHeader (param : StrField) (names : List (List UInt8)) : Prop :=
  ∀ s, param = .set s → headerIndex s names = none

section

variable {group : Option (List UInt8)} {param dflt : StrField}
  {headers : List (List UInt8) × List (List UInt8)}

/-- The header of a parameter is looked for. -/
lemma header_cases (hlen : headers.1.length = headers.2.length) :
    (param = .wild ∧ headers.1 ≠ [] ∧ param.header headers = none) ∨
      (∃ value, ¬ param.NoHeader headers.1 ∧ param.header headers = some (some (.text value))) ∨
      ((param = .wild → headers.1 = []) ∧ param.NoHeader headers.1 ∧
        param.header headers = some none) := by
  cases param with
  | null => exact .inr (.inr ⟨nofun, nofun, rfl⟩)
  | wild =>
    by_cases hempty : headers.1 = []
    · exact .inr (.inr ⟨fun _ => hempty, nofun, by rw [StrField.header, if_pos hempty]⟩)
    · exact .inl ⟨rfl, hempty, by rw [StrField.header, if_neg hempty]⟩
  | set s =>
    cases hindex : headerIndex s headers.1 with
    | none =>
      refine .inr (.inr ⟨nofun, ?_, by rw [StrField.header, hindex]⟩)
      intro s' hs
      cases hs
      exact hindex
    | some n =>
      have hn : n < headers.2.length := by
        rw [← hlen]
        exact (List.findIdx?_eq_some_iff_getElem.mp hindex).1
      refine .inr (.inl ⟨FsStr.cstr ⟨headers.2[n], headers.2[n].length⟩, fun hno => ?_, ?_⟩)
      · rw [hno s rfl] at hindex
        cases hindex
      · simp [StrField.header, hindex, hn]

/-- What is found is a text, unless the default is taken. -/
lemma kafkaGet_cases (hlen : headers.1.length = headers.2.length) :
    (group.getD [] = [] ∧ param = .wild ∧ headers.1 ≠ [] ∧
        kafkaGet group param dflt headers = none) ∨
      (∃ s, (group.getD [] ≠ [] ∨ ¬ param.NoHeader headers.1) ∧
        (group.getD [] = [] → param = .wild → headers.1 = []) ∧
        kafkaGet group param dflt headers = some (some (.text s))) ∨
      (group.getD [] = [] ∧ (param = .wild → headers.1 = []) ∧ param.NoHeader headers.1 ∧
        kafkaGet group param dflt headers = some dflt.get) := by
  rw [kafkaGet]
  by_cases hgroup : group.getD [] = []
  · rw [if_neg (not_not_intro hgroup)]
    rcases header_cases hlen with ⟨hparam, hne, heq⟩ | ⟨value, hfound, heq⟩ | ⟨hparam, hno, heq⟩
    · exact .inl ⟨hgroup, hparam, hne, by rw [heq]; rfl⟩
    · refine .inr (.inl ⟨value, .inr hfound, fun _ hwild => ?_, by rw [heq]; rfl⟩)
      exact absurd (fun s hs => by rw [hwild] at hs; cases hs) hfound
    · exact .inr (.inr ⟨hgroup, hparam, hno, by rw [heq]; rfl⟩)
  · rw [if_pos hgroup]
    exact .inr (.inl ⟨_, .inl hgroup, fun h => absurd h hgroup, rfl⟩)

/-- Whatever is looked at for a string has been set: the field that names a header, and the
default where it is `used`. -/
def Looked (group : Option (List UInt8)) (param dflt : StrField) (names : List (List UInt8))
    (used : Prop) : Prop :=
  group.getD [] = [] →
    (param = .wild → names = []) ∧ (param.NoHeader names → used → dflt ≠ .wild)

/-- Neither the pattern nor a header nor the default gives a string. -/
structure Missing (group : Option (List UInt8)) (param dflt : StrField) (names : List (List UInt8)) :
    Prop where
  group : group.getD [] = []
  header : param.NoHeader names
  dflt : dflt = .null

/-- How a string is found, and whether something unset has been looked at or would be used. -/
lemma kafkaGet_looked (group : Option (List UInt8)) (param dflt : StrField)
    (hlen : headers.1.length = headers.2.length) (used : Prop) :
    (kafkaGet group param dflt headers = none ∧ ¬ Looked group param dflt headers.1 used) ∨
      (kafkaGet group param dflt headers = some none ∧ Missing group param dflt headers.1 ∧
        Looked group param dflt headers.1 used) ∨
      (∃ s, kafkaGet group param dflt headers = some (some s) ∧ s ≠ .null ∧
        ¬ Missing group param dflt headers.1 ∧
        (Looked group param dflt headers.1 used ↔ ¬ (s = .wild ∧ used))) := by
  rcases kafkaGet_cases hlen with
    ⟨hgroup, hparam, hne, heq⟩ | ⟨s, hfound, hparam, heq⟩ | ⟨hgroup, hparam, hno, heq⟩
  · exact .inl ⟨heq, fun hlooked => hne ((hlooked hgroup).1 hparam)⟩
  · refine .inr (.inr ⟨.text s, heq, nofun, fun hmissing => ?_, iff_of_true ?_ (by simp)⟩)
    · exact hfound.elim (fun h => h hmissing.group) fun h => h hmissing.header
    · refine fun hgroup => ⟨hparam hgroup, fun hno => ?_⟩
      exact hfound.elim (fun h => absurd hgroup h) fun h => absurd hno h
  · cases dflt with
    | null =>
      refine .inr (.inl ⟨heq, ⟨hgroup, hno, rfl⟩, fun _ => ⟨hparam, ?_⟩⟩)
      exact fun _ _ => nofun
    | set s =>
      refine .inr (.inr ⟨.text s.cstr, heq, nofun, ?_, iff_of_true ?_ (by simp)⟩)
      · rintro ⟨-, -, h⟩
        cases h
      · exact fun _ => ⟨hparam, fun _ _ => nofun⟩
    | wild =>
      refine .inr (.inr ⟨.wild, heq, nofun, ?_, ?_⟩)
      · rintro ⟨-, -, h⟩
        cases h
      · constructor
        · rintro hlooked ⟨-, hused⟩
          exact (hlooked hgroup).2 hno hused rfl
        · intro hunused _
          exact ⟨hparam, fun _ hused => absurd ⟨rfl, hused⟩ hunused⟩

end

/-- The producer is made when the configuration and what follows it is accepted. -/
structure RdKafka.Makes (o : RdKafka) (p : Publisher) : Prop where
  conf : ∀ i < p.conf.toList.length, o.confSet i = true
  new : o.new = true
  topicConfNew : o.topicConfNew = true

lemma publishTo_none_iff {o : RdKafka} {payload : List UInt8} {topic key : CString} :
    publishTo o payload topic key = none ↔ o.new = true ∧ o.topicConfNew = true ∧
      ((∀ s, topic ≠ .text s) ∨ o.topicNew = true ∧ key = .wild) := by
  unfold publishTo
  cases hnew : o.new <;> cases hconf : o.topicConfNew <;> simp
  cases topic with
  | null => simp
  | wild => simp
  | text topic => cases htopic : o.topicNew <;> cases key <;> simp

/-- Publishing is undefined where a string is used that nobody has set. -/
lemma publish_none_iff {o : RdKafka} {p : Publisher} {payload : List UInt8} {topic key : CString} :
    fsModHttpKafkaPublish o p (.value (some payload)) topic key = none ↔ o.Makes p ∧
      ((∀ s, topic ≠ .text s) ∨ o.topicNew = true ∧ key = .wild) := by
  rw [fsModHttpKafkaPublish]
  have hok := confSets_ok_iff o.confSet 0 p.conf.toList
  simp only [Nat.zero_add] at hok
  by_cases hconf : (confSets o.confSet 0 p.conf.toList).2 = true
  · rw [if_pos hconf, Option.map_eq_none_iff, publishTo_none_iff]
    constructor
    · rintro ⟨hnew, hconfnew, hstr⟩
      exact ⟨⟨hok.mp hconf, hnew, hconfnew⟩, hstr⟩
    · rintro ⟨⟨-, hnew, hconfnew⟩, hstr⟩
      exact ⟨hnew, hconfnew, hstr⟩
  · rw [if_neg hconf]
    exact iff_of_false (by simp) fun h => hconf (hok.mpr h.1.conf)

end Folksong
