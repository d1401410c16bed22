import Folksong.Conf.Conduct
import Folksong.Http.Answer
import Folksong.Mod.Effects

/-!
# The topic and the key of a message (`http/kafka.c`)

A group of the pattern, a header or a default gives each of them. The block of a publisher makes
the two pointers for the topic null and leaves the two for the key as they are in the memory.
-/

namespace Folksong

/-! ### Directives -/

/-- The parameters of a publisher that have one value. -/
inductive PublisherParam where
  | topicParam | defaultTopic | keyParam | defaultKey
deriving DecidableEq, Repr

/-- A directive in the block of a publisher. -/
inductive PublisherDirective where
  | config (key value : List UInt8)
  | param (name : PublisherParam) (value : List UInt8)
deriving DecidableEq, Repr

/-- The command of a parameter. -/
def PublisherParam.cmd : PublisherParam → FsCmd Callback
  | .topicParam => fsParamCmd "topic_param" .httpKafkaTopicParam
  | .defaultTopic => fsParamCmd "default_topic" .httpKafkaDefaultTopic
  | .keyParam => fsParamCmd "key_param" .httpKafkaKeyParam
  | .defaultKey => fsParamCmd "default_key" .httpKafkaDefaultKey

/-- The command of a directive. -/
def PublisherDirective.cmd : PublisherDirective → FsCmd Callback
  | .config _ _ => fsParamCmd "config" .httpKafkaConfig
  | .param name _ => name.cmd

/-- The words of a directive. -/
def PublisherDirective.words (d : PublisherDirective) : List (List UInt8) :=
  match d with
  | .config key value => [d.cmd.token.text, key, value]
  | .param _ value => [d.cmd.token.text, value]

/-- The token of a word that is written without escapes. -/
def plainToken (word : List UInt8) : FsStr := ⟨word, word.length + 1⟩

/-- The engine with these words and this memory. -/
def Conf.at (c : Engine) (h : Heap) (words : List (List UInt8)) : Engine :=
  { c with tokens := c.tokens.refill (words.map plainToken), heap := h }

/-- The directives in a block, up to the first one that does not answer `FS_CONF_OK`. -/
def publisherDirectives (lib : Lib) (c : Engine) (p : Ptr) : Heap → List PublisherDirective → Called
  | h, [] => some (.ok, h)
  | h, d :: ds =>
    match shippedCall lib d.cmd.call (c.at h d.words) p with
    | some (.ok, h') => publisherDirectives lib c p h' ds
    | r => r

/-- A block with its directives. -/
def publisherBlock (lib : Lib) (c : Engine) (p : Ptr) (path : List UInt8)
    (ds : List PublisherDirective) : Called :=
  match shippedCall lib .httpKafkaBlock (c.at c.heap [bytes "kafka", path]) p with
  | some (.ok, h) => publisherDirectives lib c p h ds
  | r => r

/-! ### What a directive stores -/

/-- The field of a parameter. -/
def PublisherParam.field : PublisherParam → Publisher → StrField
  | .topicParam => Publisher.topicParam
  | .defaultTopic => Publisher.defaultTopic
  | .keyParam => Publisher.keyParam
  | .defaultKey => Publisher.defaultKey

/-- A store to it. -/
def PublisherParam.store (name : PublisherParam) (q : Publisher) (v : StrField) : Publisher :=
  match name with
  | .topicParam => { q with topicParam := v }
  | .defaultTopic => { q with defaultTopic := v }
  | .keyParam => { q with keyParam := v }
  | .defaultKey => { q with defaultKey := v }

/-- The publisher behind a directive. -/
def PublisherDirective.apply (q : Publisher) : PublisherDirective → Publisher
  | .config key value => { q with conf := q.conf.push (plainToken key, plainToken value) }
  | .param name value => name.store q (.set (plainToken value))

/-- The field has not been set before. -/
def PublisherDirective.Free (q : Publisher) : PublisherDirective → Prop
  | .config _ _ => True
  | .param name _ => (name.field q).isSet = false

/-- The value the directives give to a parameter. -/
def valueOf (ds : List PublisherDirective) (name : PublisherParam) : Option (List UInt8) :=
  ds.findSome? fun d => match d with
    | .config _ _ => none
    | .param name' value => if name' = name then some value else none

/-- The parameters that directives set, in their order. -/
def paramNames (ds : List PublisherDirective) : List PublisherParam :=
  ds.filterMap fun d => match d with
    | .config _ _ => none
    | .param name _ => some name

/-- The last route of the http block behind `p` is this publisher. -/
def Heap.HasPublisher (h : Heap) (p : Ptr) (q : Publisher) : Prop :=
  ∃ http, h.get p = some (.http http) ∧ http.lastRoute = some (.publisher q)

section

variable {lib : Lib} {c : Engine} {p : Ptr} {h : Heap} {q : Publisher} {name : PublisherParam}
  {ds : List PublisherDirective}

lemma field_store_self (v : StrField) : name.field (name.store q v) = v := by
  cases name <;> rfl

lemma field_store_ne {name' : PublisherParam} (hne : name ≠ name') (v : StrField) :
    name.field (name'.store q v) = name.field q := by
  cases name <;> cases name' <;> first | rfl | exact absurd rfl hne

lemma pathRe_apply (d : PublisherDirective) : (d.apply q).pathRe = q.pathRe := by
  cases d with
  | config key value => rfl
  | param name value => cases name <;> rfl

lemma Heap.HasPublisher.set {http : Http} (ho : h.get p = some (.http http))
    (hlast : http.lastRoute = some (.publisher q)) (q' : Publisher) :
    (h.set p (.http (http.setLast (.publisher q')))).HasPublisher p q' :=
  ⟨_, Heap.get_set_self ho _, lastRoute_setLast hlast _⟩

/-- The words of a directive with one value. -/
lemma at_value (c : Engine) (h : Heap) (word value : List UInt8) :
    (c.at h [word, value]).tokens.eleCount = 2 ∧
      (c.at h [word, value]).tokens.nth 1 = some (plainToken value) := by
  have hcount : (c.tokens.reset.push (plainToken word)).eleCount = 1 := by simp
  have hvalue := FsArr.push_nth_self (c.tokens.reset.push (plainToken word)) (plainToken value)
  rw [hcount] at hvalue
  exact ⟨by simp [Conf.at, FsArr.refill], hvalue⟩

/-- The words of a directive with two values. -/
lemma at_values (c : Engine) (h : Heap) (word key value : List UInt8) :
    (c.at h [word, key, value]).tokens.eleCount = 3 ∧
      (c.at h [word, key, value]).tokens.nth 1 = some (plainToken key) ∧
      (c.at h [word, key, value]).tokens.nth 2 = some (plainToken value) := by
  obtain ⟨hcount, hkey⟩ := at_value c h word key
  have hkey' := FsArr.push_nth_lt (c.at h [word, key]).tokens (plainToken value) (i := 1) (by omega)
  have hvalue := FsArr.push_nth_self (c.at h [word, key]).tokens (plainToken value)
  rw [hcount] at hvalue
  exact ⟨by simp [Conf.at, FsArr.refill], hkey'.trans hkey, hvalue⟩

/-- A command of a publisher in its place. -/
lemma publisherCmd_eq {k : Callback} {words : Nat}
    {store : Publisher → Engine → Option (Option Publisher)}
    (hplace : topCmd c = some .httpKafkaBlock) (hwords : c.tokens.eleCount = words) {http : Http}
    (ho : c.heap.get p = some (.http http)) (hlast : http.lastRoute = some (.publisher q))
    {res : Option Publisher} (hres : store q c = some res) :
    publisherCmd k words store lib c p
      = some (res.elim (.error, c.heap) fun q' =>
          (.ok, c.heap.set p (.http (http.setLast (.publisher q'))))) := by
  rw [publisherCmd, if_neg (not_not_intro hplace), if_neg (not_not_intro hwords), ho]
  dsimp only
  rw [hlast]
  dsimp only
  rw [hres]
  cases res <;> rfl

/-- The callback of a parameter. -/
lemma shippedCall_param : shippedCall lib name.cmd.call
    = publisherField name.cmd.call name.field name.store lib := by
  cases name <;> rfl

/-- A directive whose field is free stores its value, and another one is an error. -/
lemma call_directive (hplace : topCmd c = some .httpKafkaBlock) (hh : h.HasPublisher p q)
    (d : PublisherDirective) :
    (d.Free q → ∃ h', shippedCall lib d.cmd.call (c.at h d.words) p = some (.ok, h') ∧
        h'.HasPublisher p (d.apply q)) ∧
      (¬ d.Free q → shippedCall lib d.cmd.call (c.at h d.words) p = some (.error, h)) := by
  obtain ⟨http, ho, hlast⟩ := hh
  have hplace' : ∀ words, topCmd (c.at h words) = some .httpKafkaBlock := fun _ => hplace
  have ho' : ∀ words, (c.at h words).heap.get p = some (.http http) := fun _ => ho
  cases d with
  | config key value =>
    obtain ⟨hcount, hkey, hvalue⟩ := at_values c h (bytes "config") key value
    refine ⟨fun _ => ⟨_, ?_, Heap.HasPublisher.set ho hlast _⟩, fun hno => absurd trivial hno⟩
    rw [PublisherDirective.words, PublisherDirective.cmd]
    change fsModHttpKafkaCmdConfig lib (c.at h [bytes "config", key, value]) p = _
    rw [fsModHttpKafkaCmdConfig]
    rw [publisherCmd_eq (hplace' _) hcount (ho' _) hlast (by rw [hkey, hvalue])]
    rfl
  | param name value =>
    obtain ⟨hcount, hvalue⟩ := at_value c h name.cmd.token.text value
    rw [PublisherDirective.words, PublisherDirective.cmd, shippedCall_param, publisherField]
    constructor
    · intro hfree
      refine ⟨_, ?_, Heap.HasPublisher.set ho hlast _⟩
      rw [publisherCmd_eq (hplace' _) hcount (ho' _) hlast
        (by rw [if_neg (by simpa [PublisherDirective.Free] using hfree), hvalue])]
      rfl
    · intro hset
      rw [publisherCmd_eq (hplace' _) hcount (ho' _) hlast
        (if_pos (by simpa [PublisherDirective.Free] using hset))]
      rfl

/-! ### What a block stores -/

/-- Each directive finds its field free. -/
def AllFree : Publisher → List PublisherDirective → Prop
  | _, [] => True
  | q, d :: ds => d.Free q ∧ AllFree (d.apply q) ds

/-- The directives of a block are accepted when each finds its field free. -/
lemma publisherDirectives_ok (hplace : topCmd c = some .httpKafkaBlock) (hh : h.HasPublisher p q)
    (hfree : AllFree q ds) :
    ∃ h', publisherDirectives lib c p h ds = some (.ok, h') ∧
      h'.HasPublisher p (ds.foldl PublisherDirective.apply q) := by
  induction ds generalizing h q with
  | nil => exact ⟨h, rfl, hh⟩
  | cons d ds ih =>
    obtain ⟨hd, hds⟩ := hfree
    obtain ⟨h₁, hcall, hh₁⟩ := (@call_directive lib _ _ _ _ hplace hh d).1 hd
    obtain ⟨h', hrun, hh'⟩ := ih hh₁ hds
    refine ⟨h', ?_, hh'⟩
    rw [publisherDirectives, hcall]
    exact hrun

lemma allFree_of_ok (hplace : topCmd c = some .httpKafkaBlock) (hh : h.HasPublisher p q)
    {h' : Heap} (hrun : publisherDirectives lib c p h ds = some (.ok, h')) : AllFree q ds := by
  induction ds generalizing h q with
  | nil => trivial
  | cons d ds ih =>
    obtain ⟨hfree, hset⟩ := @call_directive lib _ _ _ _ hplace hh d
    rw [publisherDirectives] at hrun
    by_cases hd : d.Free q
    · obtain ⟨h₁, hcall, hh₁⟩ := hfree hd
      rw [hcall] at hrun
      exact ⟨hd, ih hh₁ hrun⟩
    · rw [hset hd] at hrun
      cases hrun

lemma valueOf_isSome_iff : (valueOf ds name).isSome ↔ name ∈ paramNames ds := by
  rw [valueOf, List.isSome_findSome?, List.any_eq_true, paramNames]
  simp only [List.mem_filterMap]
  refine exists_congr fun d => and_congr_right fun _ => ?_
  cases d with
  | config key value => simp
  | param name' value => by_cases heq : name' = name <;> simp [heq]

/-- No parameter is given twice, and the directives set each to its value. -/
lemma field_foldl (hds : (paramNames ds).Nodup) :
    name.field (ds.foldl PublisherDirective.apply q)
      = (valueOf ds name).elim (name.field q) fun value => .set (plainToken value) := by
  induction ds generalizing q with
  | nil => rfl
  | cons d ds ih =>
    cases d with
    | config key value =>
      have hkept : name.field (PublisherDirective.apply q (.config key value)) = name.field q := by
        cases name <;> rfl
      rw [List.foldl_cons, ih hds, hkept]
      rfl
    | param name' value =>
      obtain ⟨hnot, hds⟩ := List.nodup_cons.mp hds
      rw [List.foldl_cons, ih hds, PublisherDirective.apply]
      by_cases heq : name = name'
      · subst heq
        have hnone : valueOf ds name = none := by
          rw [← Option.not_isSome_iff_eq_none, valueOf_isSome_iff]
          exact hnot
        rw [hnone, Option.elim_none, field_store_self]
        simp [valueOf]
      · rw [field_store_ne heq]
        have hskip : valueOf (.param name' value :: ds) name = valueOf ds name := by
          simp [valueOf, Ne.symm heq]
        rw [hskip]

/-- The directives find their fields free exactly when they are free before. -/
lemma allFree_iff (hds : (paramNames ds).Nodup) :
    AllFree q ds ↔ ∀ name ∈ paramNames ds, (name.field q).isSet = false := by
  induction ds generalizing q with
  | nil => simp [AllFree, paramNames]
  | cons d ds ih =>
    cases d with
    | config key value =>
      have hkept : ∀ name : PublisherParam,
          name.field (PublisherDirective.apply q (.config key value)) = name.field q := by
        intro name
        cases name <;> rfl
      rw [AllFree, ih hds]
      simp only [hkept]
      exact and_iff_right trivial
    | param name' value =>
      obtain ⟨hnot, hds⟩ := List.nodup_cons.mp hds
      have hkept : ∀ name ∈ paramNames ds,
          name.field (PublisherDirective.apply q (.param name' value)) = name.field q := by
        intro name hname
        refine field_store_ne ?_ _
        rintro rfl
        exact hnot hname
      rw [AllFree, ih hds]
      change _ ↔ ∀ name ∈ name' :: paramNames ds, _
      rw [List.forall_mem_cons]
      refine and_congr_right fun _ => forall₂_congr fun name hname => ?_
      rw [hkept name hname]

lemma pathRe_foldl : (ds.foldl PublisherDirective.apply q).pathRe = q.pathRe := by
  induction ds generalizing q with
  | nil => rfl
  | cons d ds ih => rw [List.foldl_cons, ih, pathRe_apply]

/-! ### Resolution -/

/-- The value of the first header with this name. -/
def headerValue (headers : List (List UInt8 × List UInt8)) (name : List UInt8) :
    Option (List UInt8) :=
  (headers.find? (·.1 == name)).map Prod.snd

/-- A text as a C string. -/
def cText (text : List UInt8) : List UInt8 := text.takeWhile (· ≠ 0)

/-- The group if it is not empty, else the header, else the default. -/
def resolved (group param dflt : Option (List UInt8)) (headers : List (List UInt8 × List UInt8)) :
    Option (List UInt8) :=
  if group.getD [] ≠ [] then group
  else ((param.bind (headerValue headers)).or dflt).map cText

/-- What the fields of a publisher hold: the value of the directive, or what was there before. -/
def StrField.given (init : StrField) (value : Option (List UInt8)) : StrField :=
  value.elim init fun value => .set (plainToken value)

lemma headerIndex_plain (param : List UInt8) (names : List (List UInt8)) :
    headerIndex (plainToken param) names = names.findIdx? (· == param) := by
  rw [headerIndex]
  congr 1
  funext name
  rw [Bool.eq_iff_iff, Bool.and_eq_true, beq_iff_eq, beq_iff_eq]
  have hsize : (plainToken param).size - 1 = param.length := rfl
  rw [hsize]
  constructor
  · rintro ⟨hlen, hcmp⟩
    rw [fsStrCmp, beq_iff_eq] at hcmp
    have hmin : min name.length (plainToken param).size = param.length := by
      simp [plainToken, hlen]
    have htext : (plainToken param).text = param := rfl
    rw [hmin, htext, List.take_left, ← hlen, List.take_left] at hcmp
    exact hcmp
  · rintro rfl
    exact ⟨rfl, by simp [fsStrCmp, plainToken]⟩

/-- The header that a parameter names. -/
lemma header_plain (param : List UInt8) (headers : List (List UInt8 × List UInt8)) :
    (StrField.set (plainToken param)).header (headers.map Prod.fst, headers.map Prod.snd)
      = some ((headerValue headers param).map fun value => .text (cText value)) := by
  have hfind : headers.find? (·.1 == param)
      = (headers.findIdx? (·.1 == param)).bind (headers[·]?) :=
    List.find?_eq_bind_findIdx?_getElem?
  have hmap : (headers.map Prod.fst).findIdx? (· == param) = headers.findIdx? (·.1 == param) := by
    rw [List.findIdx?_map]
    rfl
  rw [StrField.header, headerIndex_plain, hmap, headerValue, hfind]
  cases hindex : headers.findIdx? (·.1 == param) with
  | none => rfl
  | some n =>
    have hn : n < headers.length := (List.findIdx?_eq_some_iff_getElem.mp hindex).1
    simp [hn, cText, FsStr.cstr]

/-- A pointer that nobody has set: null or not. -/
def StrField.unset (null : Bool) : StrField := if null then .null else .wild

/-- Without a directive a header is looked for if the pointer is not null. -/
lemma header_given (null : Bool) (param : Option (List UInt8))
    (headers : List (List UInt8 × List UInt8)) :
    (StrField.given (.unset null) param).header (headers.map Prod.fst, headers.map Prod.snd)
      = if param = none ∧ null = false ∧ headers ≠ [] then none
        else some ((param.bind (headerValue headers)).map fun value => .text (cText value)) := by
  cases param with
  | none =>
    cases null <;> by_cases hne : headers = [] <;>
      simp [StrField.given, StrField.unset, StrField.header, hne]
  | some param => exact (header_plain param headers).trans (by simp)

/-- Without a directive the default is what the pointer holds. -/
lemma get_given (null : Bool) (dflt : Option (List UInt8)) :
    (StrField.given (.unset null) dflt).get
      = (dflt.map fun d => .text (cText d)).or (if null then none else some .wild) := by
  cases dflt with
  | none => cases null <;> rfl
  | some d => rfl

section

variable {group param dflt : Option (List UInt8)} {headers : List (List UInt8 × List UInt8)}

/-- What is looked for with fields of which those that no directive has set are null. -/
lemma kafkaGet_given :
    kafkaGet group (.given .null param) (.given .null dflt) (headers.map Prod.fst,
        headers.map Prod.snd)
      = some ((resolved group param dflt headers).map .text) := by
  rw [kafkaGet, resolved]
  by_cases hgroup : group.getD [] = []
  · have hheader : (StrField.given .null param).header (headers.map Prod.fst, headers.map Prod.snd)
        = some ((param.bind (headerValue headers)).map fun value => .text (cText value)) :=
      (header_given true param headers).trans (if_neg (by simp))
    have hdflt := get_given true dflt
    rw [StrField.unset, if_pos rfl] at hdflt
    rw [if_neg (not_not_intro hgroup), if_neg (not_not_intro hgroup), hheader, hdflt]
    cases param.bind (headerValue headers) <;> cases dflt <;> rfl
  · rw [if_pos hgroup, if_pos hgroup]
    cases group with
    | none => exact absurd rfl hgroup
    | some group => rfl

/-- The key is what it is to be exactly when no pointer that nobody has set is looked at, and when
a group that is empty is not left as the key. -/
lemma kafkaGet_key_iff (group param dflt : Option (List UInt8))
    (headers : List (List UInt8 × List UInt8)) (paramNull dfltNull : Bool) :
    (kafkaGet group (.given (.unset paramNull) param) (.given (.unset dfltNull) dflt)
        (headers.map Prod.fst, headers.map Prod.snd)).map
          (fun key => key.getD (group.elim .null .text))
        = some ((resolved group param dflt headers).elim .null .text) ↔
      (group.getD [] = [] →
        (param = none → paramNull = false → headers = []) ∧
          (param.bind (headerValue headers) = none → dflt = none →
            dfltNull = true ∧ group = none)) := by
  rw [kafkaGet, resolved]
  by_cases hgroup : group.getD [] = []
  · rw [if_neg (not_not_intro hgroup), if_neg (not_not_intro hgroup)]
    simp only [hgroup, forall_const]
    rw [header_given, get_given]
    by_cases hwild : param = none ∧ paramNull = false ∧ headers ≠ []
    · rw [if_pos hwild]
      refine iff_of_false (by simp) fun h => hwild.2.2 (h.1 hwild.1 hwild.2.1)
    · rw [if_neg hwild]
      have hfirst : param = none → paramNull = false → headers = [] := by
        intro hparam hnull
        by_contra hne
        exact hwild ⟨hparam, hnull, hne⟩
      rw [and_iff_right hfirst]
      cases param.bind (headerValue headers) with
      | some value => simp
      | none =>
        cases dflt with
        | some d => simp
        | none => cases dfltNull <;> cases group <;> simp
  · rw [if_pos hgroup, if_pos hgroup]
    refine iff_of_true ?_ fun h => absurd h hgroup
    cases group with
    | none => exact absurd rfl hgroup
    | some group => rfl

end

end

/-! ### A block and a request -/

/-- The topic and the key of a request, whose url the pattern `re` matches, are those that the
directives and the request name; without a topic the request gets `400`, and without a key the
message has none. -/
structure Resolves (named : PcreNamed) (re : List UInt8) (ds : List PublisherDirective) (r : Request)
    (a : HttpAnswer) (q : Publisher) : Prop where
  topic : fsModHttpKafkaGetTopic named q a
    = some ((resolved (named re r.url (bytes "topic")) (valueOf ds .topicParam)
        (valueOf ds .defaultTopic) (r.headers ++ r.trailers)).map .text)
  badRequest : resolved (named re r.url (bytes "topic")) (valueOf ds .topicParam)
      (valueOf ds .defaultTopic) (r.headers ++ r.trailers) = none →
    ∀ o, fsModHttpKafkaDoneCb named o q a = some [.respond 400]
  key : fsModHttpKafkaGetKey named q a
    = some ((resolved (named re r.url (bytes "key")) (valueOf ds .keyParam)
        (valueOf ds .defaultKey) (r.headers ++ r.trailers)).elim .null .text)

/-- The pattern of a block, when it compiles. -/
def blockPattern (lib : Lib) (c : Engine) (path : List UInt8) : Option (List UInt8) :=
  (pcreCompile lib c.heap (cText path)).1

/-- What the memory has to hold for a block and a request: null, where a directive sets a pointer
for the key or where there is none and the pointer is looked at; and the pattern has no group for
the key that is left empty. -/
structure KeySettled (null : Callback → Bool) (ds : List PublisherDirective) (named : PcreNamed)
    (pattern : Option (List UInt8)) (r : Request) : Prop where
  keyParam : .keyParam ∈ paramNames ds → null .httpKafkaKeyParam = true
  defaultKey : .defaultKey ∈ paramNames ds → null .httpKafkaDefaultKey = true
  looked : ∀ re, pattern = some re → (named re r.url (bytes "key")).getD [] = [] →
    (valueOf ds .keyParam = none → null .httpKafkaKeyParam = false →
        r.headers ++ r.trailers = []) ∧
      ((valueOf ds .keyParam).bind (headerValue (r.headers ++ r.trailers)) = none →
        valueOf ds .defaultKey = none →
          null .httpKafkaDefaultKey = true ∧ named re r.url (bytes "key") = none)

section

variable {lib : Lib} {c : Engine} {p : Ptr} {http : Http} {path : List UInt8}
  {ds : List PublisherDirective} {named : PcreNamed} {r : Request} {a : HttpAnswer}

/-- A fresh publisher. -/
def Publisher.opened (lib : Lib) (c : Engine) (path : List UInt8) : Publisher where
  path := plainToken path
  pathRe := blockPattern lib c path
  topicParam := .null
  defaultTopic := .null
  keyParam := .unset (lib.uninitNull (c.at c.heap [bytes "kafka", path]) .httpKafkaKeyParam)
  defaultKey := .unset (lib.uninitNull (c.at c.heap [bytes "kafka", path]) .httpKafkaDefaultKey)
  conf := fsAllocArr (FsStr × FsStr) 2 Nat.two_pos

/-- The block makes one. -/
lemma kafkaBlock_ok (hplace : subtopMod c = some .http) (ho : c.heap.get p = some (.http http)) :
    ∃ h, shippedCall lib .httpKafkaBlock (c.at c.heap [bytes "kafka", path]) p = some (.ok, h) ∧
      h.HasPublisher p (.opened lib c path) := by
  obtain ⟨hcount, hpath⟩ := at_value c c.heap (bytes "kafka") path
  have hplace' : subtopMod (c.at c.heap [bytes "kafka", path]) = some .http := hplace
  have ho' : (c.at c.heap [bytes "kafka", path]).heap.get p = some (.http http) := ho
  have hcompiled : (pcreCompile lib c.heap (cText path)).2.get p = some (.http http) :=
    (Heap.get_congr rfl p).trans ho
  rw [shippedCall, fsModHttpKafkaBlock, if_neg (not_not_intro hplace'),
    if_neg (not_not_intro hcount), ho']
  dsimp only
  rw [hpath]
  dsimp only
  exact ⟨_, rfl, _, Heap.get_set_self hcompiled _, lastRoute_push http _⟩

/-- The publisher behind its block. -/
lemma publisherBlock_ok_iff (hplace : topCmd c = some .httpKafkaBlock)
    (hsub : subtopMod c = some .http) (ho : c.heap.get p = some (.http http))
    {P : Publisher → Prop} :
    (∃ h q, publisherBlock lib c p path ds = some (.ok, h) ∧ h.HasPublisher p q ∧ P q) ↔
      AllFree (.opened lib c path) ds ∧
        P (ds.foldl PublisherDirective.apply (.opened lib c path)) := by
  obtain ⟨h₀, hblock, hh₀⟩ := @kafkaBlock_ok lib _ _ _ path hsub ho
  rw [publisherBlock, hblock]
  constructor
  · rintro ⟨h, q, hrun, ⟨http', ho', hlast'⟩, hq⟩
    have hfree := allFree_of_ok hplace hh₀ hrun
    obtain ⟨h', hrun', http'', ho'', hlast''⟩ :=
      @publisherDirectives_ok lib _ _ _ _ _ hplace hh₀ hfree
    obtain rfl : h' = h := (Prod.mk.inj (Option.some.inj (hrun'.symm.trans hrun))).2
    obtain rfl := Obj.http.inj (Option.some.inj (ho''.symm.trans ho'))
    obtain rfl := Route.publisher.inj (Option.some.inj (hlast''.symm.trans hlast'))
    exact ⟨hfree, hq⟩
  · rintro ⟨hfree, hq⟩
    obtain ⟨h', hrun, hh'⟩ := @publisherDirectives_ok lib _ _ _ _ _ hplace hh₀ hfree
    exact ⟨h', _, hrun, hh', hq⟩

/-- The directives of a fresh publisher find their fields free. -/
lemma allFree_opened_iff (hds : (paramNames ds).Nodup) :
    AllFree (.opened lib c path) ds ↔
      (.keyParam ∈ paramNames ds →
        lib.uninitNull (c.at c.heap [bytes "kafka", path]) .httpKafkaKeyParam = true) ∧
      (.defaultKey ∈ paramNames ds →
        lib.uninitNull (c.at c.heap [bytes "kafka", path]) .httpKafkaDefaultKey = true) := by
  have hunset : ∀ null, (StrField.unset null).isSet = false ↔ null = true := by decide
  rw [allFree_iff hds]
  constructor
  · intro h
    exact ⟨fun hmem => (hunset _).mp (h _ hmem), fun hmem => (hunset _).mp (h _ hmem)⟩
  · rintro ⟨hkey, hdflt⟩ name hmem
    cases name with
    | topicParam => rfl
    | defaultTopic => rfl
    | keyParam => exact (hunset _).mpr (hkey hmem)
    | defaultKey => exact (hunset _).mpr (hdflt hmem)

/-- A block is accepted, and the topic and the key of a request, whose url its pattern matches, are
those that its directives and the request name, exactly when the memory and the request are as
`KeySettled` says. -/
theorem resolves_iff (hplace : topCmd c = some .httpKafkaBlock) (hsub : subtopMod c = some .http)
    (ho : c.heap.get p = some (.http http)) (hds : (paramNames ds).Nodup) (ha : r.HeldBy a) :
    (∃ h q, publisherBlock lib c p path ds = some (.ok, h) ∧ h.HasPublisher p q ∧
        ∀ re, q.pathRe = some re → Resolves named re ds r a q) ↔
      KeySettled (lib.uninitNull (c.at c.heap [bytes "kafka", path])) ds named
        (blockPattern lib c path) r := by
  rw [publisherBlock_ok_iff hplace hsub ho, allFree_opened_iff hds]
  set q := ds.foldl PublisherDirective.apply (.opened lib c path) with hq
  have hre : q.pathRe = blockPattern lib c path := pathRe_foldl
  have hfield : ∀ name : PublisherParam,
      name.field q = .given (name.field (.opened lib c path)) (valueOf ds name) :=
    fun name => field_foldl hds
  have hheaders : a.headers = ((r.headers ++ r.trailers).map Prod.fst,
      (r.headers ++ r.trailers).map Prod.snd) := Prod.ext ha.names ha.values
  have htopic : ∀ re, q.pathRe = some re → fsModHttpKafkaGetTopic named q a
      = some ((resolved (named re r.url (bytes "topic")) (valueOf ds .topicParam)
          (valueOf ds .defaultTopic) (r.headers ++ r.trailers)).map .text) := by
    intro re hre
    have hparam := hfield .topicParam
    have hdflt := hfield .defaultTopic
    simp only [PublisherParam.field] at hparam hdflt
    rw [fsModHttpKafkaGetTopic, hre, hparam, hdflt, hheaders, ha.url]
    exact kafkaGet_given
  have hget : ∀ re, q.pathRe = some re → fsModHttpKafkaGetKey named q a = (kafkaGet
      (named re r.url (bytes "key"))
      (.given (.unset (lib.uninitNull (c.at c.heap [bytes "kafka", path]) .httpKafkaKeyParam))
        (valueOf ds .keyParam))
      (.given (.unset (lib.uninitNull (c.at c.heap [bytes "kafka", path]) .httpKafkaDefaultKey))
        (valueOf ds .defaultKey)) ((r.headers ++ r.trailers).map Prod.fst,
      (r.headers ++ r.trailers).map Prod.snd)).map fun key =>
        key.getD ((named re r.url (bytes "key")).elim .null .text) := by
    intro re hre
    have hparam := hfield .keyParam
    have hdflt := hfield .defaultKey
    simp only [PublisherParam.field] at hparam hdflt
    rw [fsModHttpKafkaGetKey, hre, hparam, hdflt, hheaders, ha.url]
    rfl
  have hkey := fun re => kafkaGet_key_iff (named re r.url (bytes "key"))
    (valueOf ds .keyParam) (valueOf ds .defaultKey) (r.headers ++ r.trailers)
    (lib.uninitNull (c.at c.heap [bytes "kafka", path]) .httpKafkaKeyParam)
    (lib.uninitNull (c.at c.heap [bytes "kafka", path]) .httpKafkaDefaultKey)
  constructor
  · rintro ⟨⟨hparam, hdflt⟩, hres⟩
    refine ⟨hparam, hdflt, fun re hpattern => ?_⟩
    have hre := hre.trans hpattern
    exact (hkey re).mp (hget re hre ▸ (hres re hre).key)
  · rintro ⟨hparam, hdflt, hlooked⟩
    refine ⟨⟨hparam, hdflt⟩, fun re hpattern => ⟨htopic re hpattern, fun hnone o => ?_, ?_⟩⟩
    · rw [fsModHttpKafkaDoneCb, htopic re hpattern, hnone]
      rfl
    · rw [hget re hpattern]
      exact (hkey re).mpr (hlooked re (hre.symm.trans hpattern))

end

/-- The engine inside the block of a publisher. -/
def publisherStart : Engine :=
  { sampleStart with
    stMod := [⟨.httpKafka, fsSubblockCmd "kafka" .httpKafkaBlock, ⟨0, 1⟩⟩,
      ⟨.http, fsBlockCmd "http" .httpBlock, ⟨0, 0⟩⟩]
    stDepth := 2
    heap := ⟨[.http ⟨0, none, fsAllocArr Route 1 Nat.zero_lt_one⟩], []⟩ }

/-- A default topic, and null pointers in the memory. -/
theorem resolves_iff_default :
    (∃ h q, publisherBlock .succeeding publisherStart (.obj 0) (bytes "/a")
          [.param .defaultTopic (bytes "t")] = some (.ok, h) ∧ h.HasPublisher (.obj 0) q ∧
        ∀ re, q.pathRe = some re →
        Resolves (fun _ _ _ => none) re [.param .defaultTopic (bytes "t")]
          (.posted (bytes "/a") (bytes "x") (by decide))
          ⟨bytes "/a", ([], []), some 0, .value (some (bytes "x"))⟩ q) ↔
      KeySettled (fun _ => true) [.param .defaultTopic (bytes "t")] (fun _ _ _ => none)
        (some (bytes "/a")) (.posted (bytes "/a") (bytes "x") (by decide)) :=
  resolves_iff rfl rfl rfl (by decide)
    ⟨rfl, rfl, rfl, by decide⟩

/-- With other pointers in the memory `key_param` is taken for given already. -/
theorem not_resolves :
    ¬ ∀ (lib : Lib) (c : Engine) (p : Ptr) (http : Http) (path : List UInt8)
        (ds : List PublisherDirective) (named : PcreNamed) (r : Request) (a : HttpAnswer),
      topCmd c = some .httpKafkaBlock → subtopMod c = some .http →
        c.heap.get p = some (.http http) → (paramNames ds).Nodup → r.HeldBy a →
        ∃ h q, publisherBlock lib c p path ds = some (.ok, h) ∧ h.HasPublisher p q ∧
          ∀ re, q.pathRe = some re → Resolves named re ds r a q := by
  intro h
  have hblock := h { Lib.succeeding with uninitNull := fun _ _ => false } publisherStart (.obj 0)
    _ (bytes "/a") [.param .keyParam (bytes "k")] (fun _ _ _ => none)
    (.posted (bytes "/a") (bytes "x") (by decide))
    ⟨bytes "/a", ([], []), some 0, .value (some (bytes "x"))⟩ rfl rfl rfl (by decide)
    ⟨rfl, rfl, rfl, by decide⟩
  rw [publisherBlock_ok_iff rfl rfl rfl, allFree_opened_iff (by decide)] at hblock
  exact absurd (hblock.1.1 (by decide)) (by decide)

end Folksong
