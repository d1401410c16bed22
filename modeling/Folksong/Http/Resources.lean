import Folksong.Http.Answer
import Folksong.Http.NextPath
import Folksong.Lib.Ledger

/-!
# What a request makes pcre and librdkafka allocate (`http/kafka.c`, `http/proxy.c`)

The strings of pcre and the handles of librdkafka are blocks of their own, which the code has to
give back. The callbacks once more, on these blocks: what they compute and what they submit is what
the callbacks on texts do.
-/

namespace Folksong

open Ledger

/-! ### The topic and the key -/

/-- A C string: in a block that pcre has allocated for it, or anywhere else. -/
inductive StringAt where
  | block (b : Nat) (s : List UInt8)
  | elsewhere (s : CString)

def StringAt.value : StringAt → CString
  | .block _ s => .text s
  | .elsewhere s => s

def StringAt.use : StringAt → Command Unit
  | .block b _ => Ledger.use b
  | .elsewhere _ => return ()

/-- `FS_MOD_HTTP_KAFKA_VALUE_IN_PCRE` and so on; the first of them is 0, with which `in` starts. -/
inductive ValueIn where
  | pcre
  | param
  | default
deriving DecidableEq

/-- `*in` and the string behind a call, and whether it answers `FS_MOD_HTTP_KAFKA_OK`. -/
structure GotString where
  ok : Bool
  isIn : ValueIn
  str : StringAt

/-- `pcre_get_named_substring`, with the text of the group. -/
def pcreGetNamedSubstring : Option (List UInt8) → Command StringAt
  | none => return .elsewhere .null
  | some s => do
    let b ← alloc
    return .block b s

/-- `pcre_free_substring`; it must have been allocated by pcre. -/
def pcreFreeSubstring : StringAt → Command Unit
  | .block b _ => release b
  | .elsewhere _ => misuse

/-- What `fs_mod_http_kafka_get_topic` and `fs_mod_http_kafka_get_key` share. -/
def kafkaGetAt (group : Option (List UInt8)) (param dflt : StrField)
    (headers : List (List UInt8) × List (List UInt8)) : Command (Option GotString) := do
  let found ← pcreGetNamedSubstring group
  if group.getD [] ≠ [] then return some ⟨true, .pcre, found⟩
  else match param.header headers with
    | none => return none
    | some (some value) => return some ⟨true, .param, .elsewhere value⟩
    | some none =>
      match dflt.get with
      | none => return some ⟨false, .pcre, found⟩
      | some value => return some ⟨true, .default, .elsewhere value⟩

/-! ### The producer -/

/-- The pointers of `fs_mod_http_kafka_publish`. -/
structure Handles where
  rkconf : Option Nat
  rk : Option Nat
  rktconf : Option Nat
  rkt : Option Nat

/-- What is done to the block of a pointer; a null pointer has none. -/
def onBlock (f : Nat → Command Unit) : Option Nat → Command Unit
  | none => misuse
  | some b => f b

/-- A call that makes a handle, when it succeeds. -/
def makes : Bool → Command (Option Nat)
  | false => return none
  | true => do
    let b ← alloc
    return some b

/-- The calls of librdkafka. `rd_kafka_new` frees the configuration when it succeeds,
`rd_kafka_topic_new` always. -/
def Handles.call (topic key : StringAt) (hs : Handles) : PublishOp → Command Handles
  | .respond _ => return hs
  | .confSet _ _ _ => do
    onBlock use hs.rkconf
    return hs
  | .new false => do
    onBlock use hs.rkconf
    return hs
  | .new true => do
    onBlock release hs.rkconf
    let rk ← makes true
    return { hs with rk := rk }
  | .topicConfNew ok => do
    let rktconf ← makes ok
    return { hs with rktconf := rktconf }
  | .topicNew _ ok => do
    onBlock use hs.rk
    topic.use
    onBlock release hs.rktconf
    let rkt ← makes ok
    return { hs with rkt := rkt }
  | .produce _ _ _ => do
    onBlock use hs.rkt
    key.use
    return hs
  | .poll | .flush _ => do
    onBlock use hs.rk
    return hs
  | .destroy => do
    onBlock release hs.rk
    return hs
  | .topicDestroy => do
    onBlock release hs.rkt
    return hs

def Handles.calls (topic key : StringAt) : Handles → List PublishOp → Command Handles
  | hs, [] => return hs
  | hs, op :: ops => do
    let hs ← hs.call topic key op
    hs.calls topic key ops

/-- The handles of `fs_mod_http_kafka_publish`, which begins with `rd_kafka_conf_new` unless there
is no body. -/
def publishHandles (self : SelfField) (topic key : StringAt) (ops : List PublishOp) :
    Command Unit :=
  match self with
  | .value (some _) => do
    let rkconf ← alloc
    let _ ← Handles.calls topic key ⟨some rkconf, none, none, none⟩ ops
    return ()
  | _ => return ()

/-- `pcre_free_substring` behind the test of `in`. -/
def freeString (str : StringAt) (free : Bool) : Command Unit :=
  if free then pcreFreeSubstring str else return ()

/-- `fs_mod_http_kafka_done_cb`. -/
def kafkaDoneAt (named : PcreNamed) (o : RdKafka) (p : Publisher) (a : HttpAnswer) :
    Command (Option (List PublishOp)) := do
  match p.pathRe with
  | none => return none
  | some re =>
    match ← kafkaGetAt (named re a.url (bytes "topic")) p.topicParam p.defaultTopic a.headers with
    | none => return none
    | some ⟨false, _, _⟩ => return some [.respond 400]
    | some ⟨true, topicIn, topic⟩ =>
      match ← kafkaGetAt (named re a.url (bytes "key")) p.keyParam p.defaultKey a.headers with
      | none => return none
      | some ⟨_, keyIn, key⟩ =>
        match fsModHttpKafkaPublish o p a.self topic.value key.value with
        | none => return none
        | some ops => do
          publishHandles a.self topic key ops
          freeString topic (topicIn = .pcre)
          freeString key (key.value ≠ .null ∧ keyIn = .pcre)
          return some ops

/-! ### The path of a proxied request -/

/-- `fs_mod_http_variable_compile`; the strings of `var_list` are in one block. -/
def variableCompileAt (m : Match) (u : NextUrl) (var : List UInt8) : Command NextUrl :=
  if fsStrCmp ⟨var, var.length⟩ pathPrefix then
    if (pathToken var).all isDigit then do
      let list ← alloc
      use list
      release list
      return fsModHttpVariableCompile m u var
    else do
      let val ← pcreGetNamedSubstring ((m.named (pathToken var)).map Subtype.val)
      val.use
      freeString val (val.value ≠ .null)
      return fsModHttpVariableCompile m u var
  else return u

/-- One turn of the loop over the pieces. -/
def nextPathPieceAt (m : Match) (u : NextUrl) (token : List UInt8) : Command NextUrl :=
  if token.head? = some fsChrDOLLAR then variableCompileAt m u token
  else return u.putLiteral token

/-- `fs_mod_http_proxy_set_next_path`. -/
def setNextPathAt (m : Match) : NextUrl → List Piece → Command NextUrl
  | u, [] => return u
  | u, piece :: pieces => do
    let u ← nextPathPieceAt m u piece.text
    setNextPathAt m u pieces

/-! ### The callbacks of all connections -/

/-- A callback in which pcre or librdkafka allocate: a proxy is selected for a URL, or a message is
complete. -/
inductive HttpTurn where
  | selected (m : Match) (passPath : List Piece)
  | complete (o : RdKafka) (a : HttpAnswer)

/-- The path of a proxied request, or what is submitted. -/
abbrev TurnResult := NextUrl ⊕ Option (List PublishOp)

/-- `fs_mod_http_on_message_complete`. -/
def messageCompleteAt (routes : List Route) (named : PcreNamed) (o : RdKafka) (a : HttpAnswer) :
    Command (Option (List PublishOp)) :=
  match a.route with
  | none => return some [.respond 404]
  | some i =>
    match routes[i]? with
    | none => return none
    | some (.publisher p) => kafkaDoneAt named o p a
    | some (.proxy _) => return fsModHttpProxyDoneCb a.self

def HttpTurn.at (routes : List Route) (named : PcreNamed) : HttpTurn → Command TurnResult
  | .selected m passPath => do
    let u ← setNextPathAt m .empty passPath
    return .inl u
  | .complete o a => do
    let ops ← messageCompleteAt routes named o a
    return .inr ops

/-- The callbacks in their order, whichever connections they belong to. -/
def turnsAt (routes : List Route) (named : PcreNamed) : List HttpTurn → Command (List TurnResult)
  | [] => return []
  | turn :: turns => do
    let r ← turn.at routes named
    let rs ← turnsAt routes named turns
    return r :: rs

/-- The same on texts. -/
def HttpTurn.result (routes : List Route) (named : PcreNamed) : HttpTurn → TurnResult
  | .selected m passPath => .inl (fsModHttpProxySetNextPath m passPath)
  | .complete o a => .inr (fsModHttpOnMessageComplete routes named o a)

/-! ### What stays allocated -/

/-- A group that has matched nothing has a string nevertheless. -/
def emptyGroup : Option (List UInt8) → Nat
  | some [] => 1
  | _ => 0

/-- A configuration that no producer is made with. -/
def lostConf (o : RdKafka) (p : Publisher) : SelfField → Nat
  | .value (some _) => if (confSets o.confSet 0 p.conf.toList).2 && o.new then 0 else 1
  | _ => 0

/-- The empty string of a group, when a header or the default has taken its place. -/
def replaced (group : Option (List UInt8)) (param dflt : StrField)
    (headers : List (List UInt8) × List (List UInt8)) : Nat :=
  if kafkaGet group param dflt headers = some none then 0 else emptyGroup group

/-- How many blocks a message leaves behind. -/
def lost (named : PcreNamed) (o : RdKafka) (p : Publisher) (a : HttpAnswer) : Nat :=
  match p.pathRe with
  | none => 0
  | some re =>
    emptyGroup (named re a.url (bytes "topic")) +
      match fsModHttpKafkaGetTopic named p a with
      | some (some _) => replaced (named re a.url (bytes "key")) p.keyParam p.defaultKey a.headers +
          lostConf o p a.self
      | _ => 0

/-- All that is allocated for the message is given back. -/
def Publisher.Returns (named : PcreNamed) (o : RdKafka) (a : HttpAnswer) (p : Publisher) : Prop :=
  ∀ re, p.pathRe = some re → named re a.url (bytes "topic") ≠ some [] ∧
    ∀ topic, fsModHttpKafkaGetTopic named p a = some (some topic) →
      (named re a.url (bytes "key") = some [] →
        kafkaGet (some []) p.keyParam p.defaultKey a.headers = some none) ∧
      ∀ payload, a.self = .value (some payload) →
        (∀ i < p.conf.toList.length, o.confSet i) ∧ o.new

/-- How many blocks a callback leaves behind. -/
def HttpTurn.lost (routes : List Route) (named : PcreNamed) : HttpTurn → Nat
  | .selected _ _ => 0
  | .complete o a =>
    match a.route.bind (routes[·]?) with
    | some (.publisher p) => Folksong.lost named o p a
    | _ => 0

def HttpTurn.Returns (routes : List Route) (named : PcreNamed) : HttpTurn → Prop
  | .selected _ _ => True
  | .complete o a =>
    ∀ p, a.route.bind (routes[·]?) = some (.publisher p) → p.Returns named o a

/-- The callback has a defined behaviour. -/
def HttpTurn.Defined (routes : List Route) (named : PcreNamed) : HttpTurn → Prop
  | .selected m passPath => (fsModHttpProxySetNextPath m passPath).Inside m
  | .complete o a => (fsModHttpOnMessageComplete routes named o a).isSome

/-- The block of a string. -/
def StringAt.blocks : StringAt → Multiset Nat
  | .block b _ => {b}
  | .elsewhere _ => 0

/-- A handle that is made has a block. -/
inductive Makes (own : Multiset Nat) : Bool → Option Nat → Multiset Nat → Prop where
  | failed : Makes own false none own
  | made (b : Nat) : Makes own true (some b) (b ::ₘ own)

/-- What is freed behind the test of `in`. -/
def GotString.held (g : GotString) : Multiset Nat := if g.isIn = .pcre then g.str.blocks else 0

/-- What a call has found, with the blocks `left` that it has lost track of. -/
structure GotString.Fits (group : Option (List UInt8)) (param dflt : StrField)
    (headers : List (List UInt8) × List (List UInt8)) (g : GotString) (left : Multiset Nat) :
    Prop where
  got : kafkaGet group param dflt headers = some (if g.ok then some g.str.value else none)
  failed : g.ok = false → g.str.value = group.elim .null .text ∧ g.held.card = emptyGroup group
  pcre : g.isIn = .pcre → g.ok = false ∧ g.str = .elsewhere .null ∨ ∃ b s, g.str = .block b s
  blocks : g.str.blocks ≤ g.held + left
  card : left.card = if g.ok then emptyGroup group else 0

section

variable {own : Multiset Nat} {group : Option (List UInt8)} {param dflt : StrField}
  {headers : List (List UInt8) × List (List UInt8)} {str topic key : StringAt} {o : RdKafka}
  {p : Publisher} {ops : List PublishOp} {b : Nat}

lemma StringAt.use_triple (h : str.blocks ≤ own) :
    Triple own str.use fun _ own' => own' = own := by
  cases str with
  | block b s => exact .use (Multiset.singleton_le.mp h)
  | elsewhere s => exact .pure rfl

lemma pcreGetNamedSubstring_triple : Triple own (pcreGetNamedSubstring group) fun str own' =>
    own' = str.blocks + own ∧ str.value = group.elim .null .text ∧
      (group = none ∧ str = .elsewhere .null ∨ ∃ b s, group = some s ∧ str = .block b s) := by
  cases group with
  | none => exact .pure ⟨(zero_add own).symm, rfl, .inl ⟨rfl, rfl⟩⟩
  | some s => exact .bind .alloc fun b _ h => .pure ⟨h, rfl, .inr ⟨b, s, rfl, rfl⟩⟩

/-- The search for a topic or a key. -/
lemma kafkaGetAt_triple :
    Triple own (kafkaGetAt group param dflt headers) fun r own' =>
      (r = none ∧ kafkaGet group param dflt headers = none) ∨
        ∃ g left, r = some g ∧ g.Fits group param dflt headers left ∧
          own' = g.held + left + own := by
  refine .bind pcreGetNamedSubstring_triple ?_
  rintro str _ ⟨rfl, hvalue, hstr⟩
  split_ifs with hgroup
  · -- the group has matched a text
    obtain ⟨b, s, rfl, rfl⟩ := hstr.resolve_left (fun h => hgroup (by rw [h.1]; rfl))
    have hs : s ≠ [] := hgroup
    have hget : kafkaGet (some s) param dflt headers = some (some (.text s)) := by
      rw [kafkaGet, if_pos hgroup]
      rfl
    have hempty : emptyGroup (some s) = 0 := by
      cases s with
      | nil => exact absurd rfl hs
      | cons c s => rfl
    exact .pure (.inr ⟨_, 0, rfl,
      ⟨hget, (fun h => by cases h), fun _ => .inr ⟨b, s, rfl⟩, le_rfl, hempty.symm⟩, rfl⟩)
  · -- the string of the group is not looked at any more
    have hget : kafkaGet group param dflt headers =
        (param.header headers).map fun value => value.or dflt.get := by
      rw [kafkaGet, if_neg hgroup]
    have hcard : str.blocks.card = emptyGroup group := by
      rcases hstr with ⟨rfl, rfl⟩ | ⟨b, s, rfl, rfl⟩
      · rfl
      · rw [not_not] at hgroup
        obtain rfl : s = [] := hgroup
        rfl
    split
    next hheader => exact .pure (.inl ⟨rfl, by rw [hget, hheader]; rfl⟩)
    next value hheader =>
      refine .pure (.inr ⟨_, str.blocks, rfl,
        ⟨?_, (fun h => by cases h), (fun h => by cases h), zero_le, hcard⟩, ?_⟩)
      · rw [hget, hheader]
        rfl
      · exact congrArg (· + own) (zero_add _).symm
    next hheader =>
      split
      next hdflt =>
        refine .pure (.inr ⟨_, 0, rfl,
          ⟨?_, fun _ => ⟨hvalue, hcard⟩, fun _ => ?_, (add_zero _).ge, rfl⟩, ?_⟩)
        · rw [hget, hheader, hdflt]
          rfl
        · rcases hstr with ⟨-, hnull⟩ | ⟨b, s, -, hblock⟩
          · exact .inl ⟨rfl, hnull⟩
          · exact .inr ⟨b, s, hblock⟩
        · exact congrArg (· + own) (add_zero _).symm
      next value hdflt =>
        refine .pure (.inr ⟨_, str.blocks, rfl,
          ⟨?_, (fun h => by cases h), (fun h => by cases h), zero_le, hcard⟩, ?_⟩)
        · rw [hget, hheader, hdflt]
          rfl
        · exact congrArg (· + own) (zero_add _).symm

/-! ### One producer -/

variable {hs : Handles} {op : PublishOp} {post : Handles → Multiset Nat → Prop}
  {payload : List UInt8} {k : Option (List UInt8)} {c rk rkt : Nat}

lemma makes_triple {ok : Bool} : Triple own (makes ok) fun r own' => Makes own ok r own' := by
  cases ok with
  | false => exact .pure .failed
  | true => exact .bind .alloc fun b _ h => .pure (h ▸ .made b)

/-- The call that makes the producer frees the configuration. -/
lemma new_triple (h : hs.rkconf = some b) :
    Triple (b ::ₘ own) (hs.call topic key (.new true)) fun hs' own' =>
      ∃ rk, hs' = { hs with rk := some rk } ∧ own' = rk ::ₘ own := by
  rw [Handles.call, h]
  refine .bind .release fun _ _ heq => ?_
  rw [heq]
  refine .bind makes_triple ?_
  rintro _ _ (_ | ⟨rk⟩)
  exact .pure ⟨rk, rfl, rfl⟩

lemma topicConfNew_triple {ok : Bool} :
    Triple own (hs.call topic key (.topicConfNew ok)) fun hs' own' =>
      ∃ r, hs' = { hs with rktconf := r } ∧ Makes own ok r own' :=
  .bind makes_triple fun r _ hr => .pure ⟨r, rfl, hr⟩

/-- The call that makes the topic frees its configuration, whatever it answers. -/
lemma topicNew_triple {ok : Bool} {t : List UInt8} (hrk : hs.rk = some rk) (hmem : rk ∈ own)
    (hconf : hs.rktconf = some b) (htopic : topic.blocks ≤ own) :
    Triple (b ::ₘ own) (hs.call topic key (.topicNew t ok)) fun hs' own' =>
      ∃ r, hs' = { hs with rkt := r } ∧ Makes own ok r own' := by
  have htopic' : topic.blocks ≤ b ::ₘ own := htopic.trans (Multiset.le_cons_self own b)
  rw [Handles.call, hrk, hconf]
  refine .bind (.use (Multiset.mem_cons_of_mem hmem)) fun _ _ heq => ?_
  rw [heq]
  refine .bind (StringAt.use_triple htopic') fun _ _ heq => ?_
  rw [heq]
  refine .bind .release fun _ _ heq => ?_
  rw [heq]
  exact .bind makes_triple fun r _ hr => .pure ⟨r, rfl, hr⟩

/-- A call that allocates and frees nothing. -/
def Uses (topic key : StringAt) (own : Multiset Nat) (hs : Handles) (op : PublishOp) : Prop :=
  Triple own (hs.call topic key op) fun hs' own' => hs' = hs ∧ own' = own

lemma Uses.calls (hop : Uses topic key own hs op) (h : Triple own (hs.calls topic key ops) post) :
    Triple own (hs.calls topic key (op :: ops)) post := by
  refine .bind hop ?_
  rintro _ _ ⟨rfl, rfl⟩
  exact h

lemma uses_respond (code : Nat) : Uses topic key own hs (.respond code) := .pure ⟨rfl, rfl⟩

lemma uses_confSet (hconf : hs.rkconf = some b) (hmem : b ∈ own) (name value : List UInt8)
    (ok : Bool) : Uses topic key own hs (.confSet name value ok) := by
  rw [Uses, Handles.call, hconf]
  exact .bind (.use hmem) fun _ _ heq => .pure ⟨rfl, heq⟩

lemma uses_produce (hrkt : hs.rkt = some rkt) (hmem : rkt ∈ own) (hkey : key.blocks ≤ own)
    (ok : Bool) : Uses topic key own hs (.produce payload k ok) := by
  rw [Uses, Handles.call, hrkt]
  refine .bind (.use hmem) fun _ _ heq => ?_
  rw [heq]
  exact .bind (StringAt.use_triple hkey) fun _ _ heq => .pure ⟨rfl, heq⟩

lemma uses_poll (hrk : hs.rk = some rk) (hmem : rk ∈ own) : Uses topic key own hs .poll := by
  rw [Uses, Handles.call, hrk]
  exact .bind (.use hmem) fun _ _ heq => .pure ⟨rfl, heq⟩

lemma uses_flush (hrk : hs.rk = some rk) (hmem : rk ∈ own) (ok : Bool) :
    Uses topic key own hs (.flush ok) := by
  rw [Uses, Handles.call, hrk]
  exact .bind (.use hmem) fun _ _ heq => .pure ⟨rfl, heq⟩

/-- Setting the configuration needs it, and keeps it. -/
lemma confSets_triple (hconf : hs.rkconf = some b) (hmem : b ∈ own) {ok : Nat → Bool} {i : Nat}
    {items : List (FsStr × FsStr)} (hops : Triple own (hs.calls topic key ops) post) :
    Triple own (hs.calls topic key ((confSets ok i items).1 ++ ops)) post := by
  induction items generalizing i with
  | nil => exact hops
  | cons item items ih =>
    rw [confSets]
    split_ifs with hok
    · exact (uses_confSet hconf hmem _ _ _).calls ih
    · exact (uses_confSet hconf hmem _ _ _).calls hops

lemma destroy_triple (hrk : hs.rk = some rk) :
    Triple (rk ::ₘ own) (hs.call topic key .destroy) fun hs' own' => hs' = hs ∧ own' = own := by
  rw [Handles.call, hrk]
  exact .bind .release fun _ _ heq => .pure ⟨rfl, heq⟩

/-- The end of a producer that has no topic. -/
lemma destroy_calls (hrk : hs.rk = some rk) :
    Triple (rk ::ₘ own) (hs.calls topic key [.destroy]) fun _ own' => own' = own :=
  .bind (destroy_triple hrk) fun _ _ h => .pure h.2

/-- The end of a producer and of its topic. -/
lemma destroy_both (hrk : hs.rk = some rk) (hrkt : hs.rkt = some rkt) :
    Triple (rkt ::ₘ rk ::ₘ own) (hs.calls topic key [.destroy, .topicDestroy])
      fun _ own' => own' = own := by
  rw [Multiset.cons_swap]
  refine .bind (destroy_triple hrk) ?_
  rintro _ _ ⟨rfl, rfl⟩
  refine .bind ?_ fun _ _ h => .pure h
  rw [Handles.call, hrkt]
  exact .bind .release fun _ _ heq => .pure heq

/-- From `rd_kafka_produce` on. -/
lemma produceTo_triple (hrk : hs.rk = some rk) (hrkt : hs.rkt = some rkt)
    (hkey : key.blocks ≤ own) :
    Triple (rkt ::ₘ rk ::ₘ own) (hs.calls topic key (produceTo o payload k))
      fun _ own' => own' = own := by
  have hmem : rk ∈ rkt ::ₘ rk ::ₘ own := Multiset.mem_cons_of_mem (Multiset.mem_cons_self rk own)
  have hkey' : key.blocks ≤ rkt ::ₘ rk ::ₘ own :=
    (hkey.trans (Multiset.le_cons_self own rk)).trans (Multiset.le_cons_self _ rkt)
  refine (uses_produce hrkt (Multiset.mem_cons_self rkt _) hkey' _).calls ?_
  cases o.produce with
  | false => exact (uses_respond _).calls (destroy_both hrk hrkt)
  | true =>
    refine (uses_poll hrk hmem).calls ((uses_flush hrk hmem _).calls ?_)
    exact (uses_respond _).calls (destroy_both hrk hrkt)

/-- The producer is made, and perhaps the configuration of its topic. -/
lemma made_calls {own' : Multiset Nat} {ok : Bool} (hconf : hs.rkconf = some b)
    (hops : ∀ rk r own₁, Makes (rk ::ₘ own) ok r own₁ → Triple own₁
      (Handles.calls topic key { hs with rk := some rk, rktconf := r } ops)
      fun _ own'' => own'' = own') :
    Triple (b ::ₘ own) (hs.calls topic key (.new true :: .topicConfNew ok :: ops))
      fun _ own'' => own'' = own' := by
  refine .bind (new_triple hconf) ?_
  rintro _ _ ⟨rk, rfl, rfl⟩
  refine .bind topicConfNew_triple ?_
  rintro _ _ ⟨r, rfl, hr⟩
  exact hops rk r _ hr

/-- Both are made, and perhaps the topic. -/
lemma topic_calls {t : List UInt8} {ok : Bool} (hconf : hs.rkconf = some b)
    (htopic : topic.blocks ≤ own)
    (hops : ∀ rk c r own₁, Makes (rk ::ₘ own) ok r own₁ → Triple own₁
      (Handles.calls topic key { hs with rk := some rk, rktconf := some c, rkt := r } ops)
      fun _ own' => own' = own) :
    Triple (b ::ₘ own)
      (hs.calls topic key (.new true :: .topicConfNew true :: .topicNew t ok :: ops))
      fun _ own' => own' = own := by
  refine made_calls hconf ?_
  rintro rk _ _ (_ | ⟨c⟩)
  refine .bind (topicNew_triple rfl (Multiset.mem_cons_self rk own) rfl
    (htopic.trans (Multiset.le_cons_self own rk))) ?_
  rintro _ _ ⟨r, rfl, hr⟩
  exact hops rk c r _ hr

/-- From `rd_kafka_new` on, the configuration is the only thing that can be lost. -/
lemma publishTo_triple (hops : publishTo o payload topic.value key.value = some ops)
    (hconf : hs.rkconf = some b) (htopic : topic.blocks ≤ own) (hkey : key.blocks ≤ own) :
    Triple (b ::ₘ own) (hs.calls topic key ops) fun _ own' =>
      own' = if o.new then own else b ::ₘ own := by
  unfold publishTo at hops
  generalize topic.value = t, key.value = v at hops
  cases hnew : o.new with
  | false =>
    rw [hnew] at hops
    obtain rfl := Option.some.inj hops
    have huse : Uses topic key (b ::ₘ own) hs (.new false) := by
      rw [Uses, Handles.call, hconf]
      exact .bind (.use (Multiset.mem_cons_self b own)) fun _ _ heq => .pure ⟨rfl, heq⟩
    exact huse.calls ((uses_respond 500).calls (.pure rfl))
  | true =>
    rw [hnew, if_neg (by decide)] at hops
    rw [if_pos rfl]
    cases hconfNew : o.topicConfNew with
    | false =>
      rw [hconfNew] at hops
      obtain rfl := Option.some.inj hops
      refine made_calls hconf ?_
      rintro rk _ _ ⟨⟩
      exact (uses_respond 500).calls (destroy_calls rfl)
    | true =>
      rw [hconfNew, if_neg (by decide)] at hops
      cases t with
      | null | wild => cases hops
      | text t =>
        cases htopicNew : o.topicNew with
        | false =>
          rw [htopicNew] at hops
          obtain rfl := Option.some.inj hops
          refine topic_calls hconf htopic ?_
          rintro rk c _ _ ⟨⟩
          exact (uses_respond 500).calls (destroy_calls rfl)
        | true =>
          have hproduce : ∃ k, ops = .new true :: .topicConfNew true :: .topicNew t true ::
              produceTo o payload k := by
            rw [htopicNew] at hops
            cases v with
            | wild => cases hops
            | null => exact ⟨none, (Option.some.inj hops).symm⟩
            | text v => exact ⟨some v, (Option.some.inj hops).symm⟩
          obtain ⟨k, rfl⟩ := hproduce
          refine topic_calls hconf htopic ?_
          rintro rk c _ _ (_ | ⟨rkt⟩)
          exact produceTo_triple rfl rfl hkey

lemma publishHandles_triple {self : SelfField}
    (hops : fsModHttpKafkaPublish o p self topic.value key.value = some ops)
    (htopic : topic.blocks ≤ own) (hkey : key.blocks ≤ own) :
    Triple own (publishHandles self topic key ops) fun _ own' =>
      ∃ left : Multiset Nat, own' = left + own ∧ left.card = lostConf o p self := by
  cases self with
  | unset | next => cases hops
  | value buf =>
    cases buf with
    | none => exact .pure ⟨0, (zero_add own).symm, rfl⟩
    | some payload =>
      refine .bind .alloc fun c _ hc => ?_
      rw [hc]
      have hmem : c ∈ c ::ₘ own := Multiset.mem_cons_self c own
      rw [fsModHttpKafkaPublish] at hops
      split_ifs at hops with hconf
      · obtain ⟨ops', hops', rfl⟩ := Option.map_eq_some_iff.mp hops
        refine .bind (confSets_triple rfl hmem (publishTo_triple hops' rfl htopic hkey)) ?_
        rintro _ _ rfl
        rw [lostConf, hconf, Bool.true_and]
        split_ifs
        · exact .pure ⟨0, (zero_add own).symm, rfl⟩
        · exact .pure ⟨{c}, rfl, rfl⟩
      · obtain rfl := Option.some.inj hops
        have hlast : Triple (c ::ₘ own) (Handles.calls topic key ⟨some c, none, none, none⟩
            [.respond 500]) fun _ own' => own' = c ::ₘ own := (uses_respond 500).calls (.pure rfl)
        refine .bind (confSets_triple rfl hmem hlast) ?_
        rintro _ _ rfl
        rw [lostConf, if_neg (by simp [hconf])]
        exact .pure ⟨{c}, rfl, rfl⟩

/-! ### One message -/

variable {g : GotString} {left : Multiset Nat} {named : PcreNamed} {a : HttpAnswer}

lemma GotString.Fits.card_replaced (h : g.Fits group param dflt headers left) :
    left.card = replaced group param dflt headers := by
  rw [h.card, replaced, h.got]
  cases g.ok <;> simp

/-- The string of a topic that has been found. -/
lemma GotString.Fits.freeTopic (h : g.Fits group param dflt headers left) (hok : g.ok = true) :
    Triple (g.held + own) (freeString g.str (g.isIn = .pcre)) fun _ own' => own' = own := by
  rw [freeString, GotString.held]
  by_cases hpcre : g.isIn = .pcre
  · obtain ⟨b, s, hstr⟩ := (h.pcre hpcre).resolve_left (fun hno => by simp [hno.1] at hok)
    rw [if_pos hpcre, if_pos (decide_eq_true hpcre), hstr]
    exact .release
  · rw [if_neg hpcre, if_neg (by simpa using hpcre)]
    exact .pure (zero_add own)

/-- The string of a key, which may be null. -/
lemma GotString.Fits.freeKey (h : g.Fits group param dflt headers left) :
    Triple (g.held + own) (freeString g.str (g.str.value ≠ .null ∧ g.isIn = .pcre))
      fun _ own' => own' = own := by
  rw [freeString, GotString.held]
  by_cases hpcre : g.isIn = .pcre
  · rw [if_pos hpcre]
    rcases h.pcre hpcre with ⟨-, hstr⟩ | ⟨b, s, hstr⟩
    · rw [hstr, if_neg (by simp [StringAt.value])]
      exact .pure (zero_add own)
    · rw [hstr, if_pos (by simp [StringAt.value, hpcre])]
      exact .release
  · rw [if_neg hpcre, if_neg (by simp [hpcre])]
    exact .pure (zero_add own)

/-- The end of `fs_mod_http_kafka_done_cb`, behind a topic and a key. -/
lemma GotString.Fits.publish {g' : GotString} {left' : Multiset Nat} {group' : Option (List UInt8)}
    {param' dflt' : StrField} {self : SelfField} (hg : g.Fits group param dflt headers left)
    (hok : g.ok = true) (hg' : g'.Fits group' param' dflt' headers left')
    (hops : fsModHttpKafkaPublish o p self g.str.value g'.str.value = some ops) :
    Triple (g'.held + left' + (g.held + left + own)) (do
      publishHandles self g.str g'.str ops
      freeString g.str (g.isIn = .pcre)
      freeString g'.str (g'.str.value ≠ .null ∧ g'.isIn = .pcre)
      return some ops) fun r own' => r = some ops ∧ ∃ left₁ : Multiset Nat, own' = left₁ + own ∧
        left₁.card = emptyGroup group + (replaced group' param' dflt' headers +
          lostConf o p self) := by
  have htopic : g.str.blocks ≤ g'.held + left' + (g.held + left + own) :=
    hg.blocks.trans ((Multiset.le_add_right _ own).trans (Multiset.le_add_left _ _))
  have hkey : g'.str.blocks ≤ g'.held + left' + (g.held + left + own) :=
    hg'.blocks.trans (Multiset.le_add_right _ _)
  refine .bind (publishHandles_triple hops htopic hkey) ?_
  rintro _ _ ⟨conf, rfl, hconf⟩
  have horder : conf + (g'.held + left' + (g.held + left + own)) =
      g.held + (g'.held + (left + left' + conf + own)) := by abel
  rw [horder]
  refine .bind (hg.freeTopic hok) fun _ _ heq => ?_
  rw [heq]
  refine .bind hg'.freeKey fun _ _ heq => ?_
  rw [heq]
  refine .pure ⟨rfl, left + left' + conf, rfl, ?_⟩
  rw [Multiset.card_add, Multiset.card_add, hg.card, if_pos hok, hg'.card_replaced, hconf,
    Nat.add_assoc]

/-- What `fs_mod_http_kafka_done_cb` submits is what it submits on texts, and it loses what `lost`
counts. -/
lemma kafkaDoneAt_triple :
    Triple own (kafkaDoneAt named o p a) fun r own' => r = fsModHttpKafkaDoneCb named o p a ∧
      (r.isSome → ∃ left : Multiset Nat, own' = left + own ∧ left.card = lost named o p a) := by
  rw [kafkaDoneAt, fsModHttpKafkaDoneCb, lost, fsModHttpKafkaGetTopic, fsModHttpKafkaGetKey]
  cases p.pathRe with
  | none => exact .pure ⟨rfl, (fun h => by cases h)⟩
  | some re =>
  dsimp only
  refine .bind kafkaGetAt_triple ?_
  rintro _ _ (⟨rfl, htopic⟩ | ⟨⟨ok, topicIn, topic⟩, left, rfl, htopic, rfl⟩)
  · exact .pure ⟨by rw [htopic], (fun h => by cases h)⟩
  have hget := htopic.got
  cases ok with
  | false =>
    simp only [Bool.false_eq_true, if_false] at hget
    refine .pure ⟨by rw [hget], fun _ => ⟨_, rfl, ?_⟩⟩
    rw [hget, Multiset.card_add, (htopic.failed rfl).2, htopic.card]
    rfl
  | true =>
    simp only [if_true] at hget
    rw [hget]
    refine .bind kafkaGetAt_triple ?_
    rintro _ _ (⟨rfl, hkey⟩ | ⟨⟨ok, keyIn, key⟩, left', rfl, hkey, rfl⟩)
    · exact .pure ⟨by rw [hkey]; rfl, (fun h => by cases h)⟩
    have hkeyGet : ((kafkaGet (named re a.url (bytes "key")) p.keyParam p.defaultKey a.headers).map
        fun key => key.getD ((named re a.url (bytes "key")).elim .null .text))
          = some key.value := by
      rw [hkey.got]
      cases ok with
      | false => rw [(hkey.failed rfl).1]; rfl
      | true => rfl
    rw [hkeyGet]
    dsimp only
    cases hops : fsModHttpKafkaPublish o p a.self topic.value key.value with
    | none => exact .pure ⟨rfl, (fun h => by cases h)⟩
    | some ops =>
      refine (htopic.publish rfl hkey hops).mono ?_
      rintro _ _ ⟨rfl, left₁, rfl, hleft⟩
      exact ⟨rfl, fun _ => ⟨left₁, rfl, hleft⟩⟩

/-! ### One path -/

variable {m : Match} {u : NextUrl} {var : List UInt8}

/-- All that pcre allocates for a reference is freed. -/
lemma variableCompileAt_triple : Triple own (variableCompileAt m u var) fun u' own' =>
    u' = fsModHttpVariableCompile m u var ∧ own' = own := by
  rw [variableCompileAt]
  split_ifs with hprefix hdigits
  · refine .bind .alloc fun list _ heq => ?_
    rw [heq]
    refine .bind (.use (Multiset.mem_cons_self list own)) fun _ _ heq => ?_
    rw [heq]
    exact .bind .release fun _ _ heq => .pure ⟨rfl, heq⟩
  · refine .bind pcreGetNamedSubstring_triple ?_
    rintro val _ ⟨rfl, -, ⟨-, rfl⟩ | ⟨b, s, -, rfl⟩⟩
    · exact .pure ⟨rfl, zero_add own⟩
    · refine .bind (StringAt.use_triple (Multiset.le_add_right _ own)) fun _ _ heq => ?_
      rw [heq]
      exact .bind .release fun _ _ heq => .pure ⟨rfl, heq⟩
  · refine .pure ⟨?_, rfl⟩
    rw [fsModHttpVariableCompile, if_neg hprefix]

lemma setNextPathAt_triple (pieces : List Piece) :
    Triple own (setNextPathAt m u pieces) fun u' own' =>
      u' = (pieces.map Piece.text).foldl (nextPathPiece m) u ∧ own' = own := by
  induction pieces generalizing u with
  | nil => exact .pure ⟨rfl, rfl⟩
  | cons piece pieces ih =>
    have hpiece : Triple own (nextPathPieceAt m u piece.text) fun u' own' =>
        u' = nextPathPiece m u piece.text ∧ own' = own := by
      rw [nextPathPieceAt, nextPathPiece]
      split_ifs
      · exact variableCompileAt_triple
      · exact .pure ⟨rfl, rfl⟩
    refine .bind hpiece ?_
    rintro _ _ ⟨rfl, rfl⟩
    exact ih

/-! ### All callbacks -/

variable {routes : List Route} {turn : HttpTurn} {turns : List HttpTurn}

lemma messageCompleteAt_triple : Triple own (messageCompleteAt routes named o a) fun r own' =>
    r = fsModHttpOnMessageComplete routes named o a ∧ (r.isSome → ∃ left : Multiset Nat,
      own' = left + own ∧ left.card = (HttpTurn.complete o a).lost routes named) := by
  have hnothing : ∃ left : Multiset Nat, own = left + own ∧ left.card = 0 :=
    ⟨0, (zero_add own).symm, rfl⟩
  rw [messageCompleteAt, fsModHttpOnMessageComplete, HttpTurn.lost]
  cases a.route with
  | none => exact .pure ⟨rfl, fun _ => hnothing⟩
  | some i =>
    rw [Option.bind_some]
    dsimp only
    cases routes[i]? with
    | none => exact .pure ⟨rfl, fun h => by cases h⟩
    | some route =>
      cases route with
      | publisher p => exact kafkaDoneAt_triple
      | proxy x => exact .pure ⟨rfl, fun _ => hnothing⟩

/-- A callback frees all that it has allocated but what it loses. -/
lemma turnAt_triple (hturn : turn.Defined routes named) :
    Triple own (turn.at routes named) fun r own' => r = turn.result routes named ∧
      ∃ left : Multiset Nat, own' = left + own ∧ left.card = turn.lost routes named := by
  cases turn with
  | selected m passPath =>
    refine .bind (setNextPathAt_triple passPath) ?_
    rintro _ _ ⟨rfl, rfl⟩
    exact .pure ⟨rfl, 0, (zero_add _).symm, rfl⟩
  | complete o a =>
    refine .bind messageCompleteAt_triple ?_
    rintro _ own' ⟨rfl, hleft⟩
    exact .pure ⟨rfl, hleft hturn⟩

lemma turnsAt_triple (hturns : ∀ turn ∈ turns, turn.Defined routes named) :
    Triple own (turnsAt routes named turns) fun rs own' =>
      rs = turns.map (HttpTurn.result routes named) ∧ ∃ left : Multiset Nat,
        own' = left + own ∧ left.card = (turns.map (HttpTurn.lost routes named)).sum := by
  induction turns generalizing own with
  | nil => exact .pure ⟨rfl, 0, (zero_add own).symm, rfl⟩
  | cons turn turns ih =>
    obtain ⟨hturn, hturns⟩ := List.forall_mem_cons.mp hturns
    refine .bind (turnAt_triple hturn) ?_
    rintro _ _ ⟨rfl, left, rfl, hleft⟩
    refine .bind (ih hturns) ?_
    rintro _ _ ⟨rfl, left', rfl, hleft'⟩
    refine .pure ⟨rfl, left' + left, (add_assoc left' left own).symm, ?_⟩
    rw [Multiset.card_add, hleft, hleft', List.map_cons, List.sum_cons, Nat.add_comm]

/-! ### When nothing is lost -/

lemma emptyGroup_eq_zero_iff : emptyGroup group = 0 ↔ group ≠ some [] := by
  cases group with
  | none => exact iff_of_true rfl nofun
  | some s => cases s <;> simp [emptyGroup]

lemma lostConf_eq_zero_iff {self : SelfField} : lostConf o p self = 0 ↔
    ∀ payload, self = .value (some payload) →
      (∀ i < p.conf.toList.length, o.confSet i) ∧ o.new := by
  cases self with
  | unset | next => exact iff_of_true rfl nofun
  | value buf =>
    cases buf with
    | none => exact iff_of_true rfl nofun
    | some payload =>
      have hconf := confSets_ok_iff o.confSet 0 p.conf.toList
      simp only [Nat.zero_add] at hconf
      rw [lostConf, ite_eq_left_iff, Bool.and_eq_true, hconf]
      simp

lemma replaced_eq_zero_iff : replaced group param dflt headers = 0 ↔
    (group = some [] → kafkaGet (some []) param dflt headers = some none) := by
  rw [replaced, ite_eq_left_iff, emptyGroup_eq_zero_iff]
  constructor
  · rintro h rfl
    by_contra hno
    exact h hno rfl
  · rintro h hno rfl
    exact hno (h rfl)

lemma lost_eq_zero_iff : lost named o p a = 0 ↔ p.Returns named o a := by
  rw [lost, Publisher.Returns]
  cases hre : p.pathRe with
  | none => exact iff_of_true rfl nofun
  | some re =>
    simp only [Option.some.injEq, forall_eq']
    rw [Nat.add_eq_zero_iff, emptyGroup_eq_zero_iff]
    refine and_congr_right fun _ => ?_
    cases hget : fsModHttpKafkaGetTopic named p a with
    | none => exact iff_of_true rfl nofun
    | some topic =>
      cases topic with
      | none => exact iff_of_true rfl nofun
      | some topic =>
        rw [Nat.add_eq_zero_iff, replaced_eq_zero_iff, lostConf_eq_zero_iff]
        exact ⟨fun h _ _ => h, fun h => h topic rfl⟩

lemma HttpTurn.lost_eq_zero_iff : turn.lost routes named = 0 ↔ turn.Returns routes named := by
  cases turn with
  | selected m passPath => exact iff_of_true rfl trivial
  | complete o a =>
    rw [HttpTurn.lost, HttpTurn.Returns]
    generalize a.route.bind (routes[·]?) = route
    split
    next p =>
      rw [Folksong.lost_eq_zero_iff]
      exact ⟨fun h _ heq => by cases heq; exact h, fun h => h p rfl⟩
    next hroute => exact iff_of_true rfl fun p heq => absurd heq (hroute p)

/-- In whatever order the callbacks of all connections come, they do on blocks what they do on
texts, no block is used that has been freed and none is freed twice, and behind them there are as
many more blocks as the messages lose. So all is given back exactly when each message gives back
its own. -/
theorem lost_of_turns {h : Ledger.Heap} (hh : h.Holds own)
    (hturns : ∀ turn ∈ turns, turn.Defined routes named) :
    ((turnsAt routes named turns).run h).1 = turns.map (HttpTurn.result routes named) ∧
      ((turnsAt routes named turns).run h).2.misused = h.misused ∧
      (∃ left : Multiset Nat, ((turnsAt routes named turns).run h).2.Holds (left + own) ∧
        left.card = (turns.map (HttpTurn.lost routes named)).sum) ∧
      (((turnsAt routes named turns).run h).2.live = own ↔
        ∀ turn ∈ turns, turn.Returns routes named) := by
  obtain ⟨_, ⟨hresult, left, rfl, hleft⟩, hholds, hmisused⟩ :=
    turnsAt_triple hturns h 0 ((add_zero own).symm ▸ hh)
  rw [add_zero] at hholds
  refine ⟨hresult, hmisused, ⟨left, hholds, hleft⟩, ?_⟩
  rw [hholds.live, add_eq_right, ← Multiset.card_eq_zero, hleft, List.sum_eq_zero_iff,
    List.forall_mem_map]
  exact forall₂_congr fun turn _ => HttpTurn.lost_eq_zero_iff

end

/-- The group `topic` has the path behind the first slash. -/
def pathTopic : PcreNamed := fun _ url group =>
  if group = bytes "topic" then some (url.drop 1) else none

/-- A message for each of two paths; the first of them leaves the topic empty. -/
def emptyThenTopic : List HttpTurn :=
  [.complete .succeeding ⟨bytes "/", ([], []), some 0, .value (some (bytes "x"))⟩,
    .complete .succeeding ⟨bytes "/a", ([], []), some 0, .value (some (bytes "x"))⟩]

theorem lost_of_turns_empty :
    ((turnsAt [.publisher (.withKey .null)] pathTopic emptyThenTopic).run .empty).1 =
        emptyThenTopic.map (HttpTurn.result [.publisher (.withKey .null)] pathTopic) ∧
      ((turnsAt [.publisher (.withKey .null)] pathTopic emptyThenTopic).run .empty).2.misused =
        false ∧
      (∃ left : Multiset Nat,
        ((turnsAt [.publisher (.withKey .null)] pathTopic emptyThenTopic).run .empty).2.Holds
          (left + 0) ∧
        left.card =
          (emptyThenTopic.map (HttpTurn.lost [.publisher (.withKey .null)] pathTopic)).sum) ∧
      (((turnsAt [.publisher (.withKey .null)] pathTopic emptyThenTopic).run .empty).2.live = 0 ↔
        ∀ turn ∈ emptyThenTopic, turn.Returns [.publisher (.withKey .null)] pathTopic) :=
  lost_of_turns holds_empty (by
    intro turn hturn
    simp only [emptyThenTopic, List.mem_cons, List.not_mem_nil, or_false] at hturn
    rcases hturn with rfl | rfl <;> rfl)

example :
    (emptyThenTopic.map (HttpTurn.lost [.publisher (.withKey .null)] pathTopic)) = [1, 0] := by
  decide

end Folksong
