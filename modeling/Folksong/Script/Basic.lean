import Folksong.Http.Resolve
import Folksong.Mod.TimerBlock

/-!
# Configurations as trees

A script is a configuration in which every directive stands in a block it belongs to. Its meaning
is given on the objects alone: a directive works on the object of the block around it, a block of
its own allocates one and is completed at its closing brace. There is no stack, no table of
commands and no command that passes.
-/

namespace Folksong

/-! ### Syntax -/

/-- The words of a directive: the one that names the command, and those behind it. -/
structure Line where
  name : FsStr
  args : List FsStr
deriving DecidableEq, Repr

def Line.words (l : Line) : List FsStr := l.name :: l.args

/-- A sequence of directives; the body of a block stands between its braces. Words that stand right
before a closing brace, in `left`, belong to no directive. -/
inductive Script where
  | nil
  | param (k : Callback) (l : Line) (rest : Script)
  | block (k : Callback) (l : Line) (body : Script) (left : List FsStr) (rest : Script)
deriving Repr

/-- The command of a callback. -/
def Callback.cmd : Callback → FsCmd Callback
  | .versionInit => fsBlockCmd "fs_version" .versionInit
  | .versionArt => fsParamCmd "fs_version_art" .versionArt
  | .timerBlock => fsBlockCmd "timer" .timerBlock
  | .timerTimeout => fsParamCmd "timeout" .timerTimeout
  | .timerRepeat => fsParamCmd "repeat" .timerRepeat
  | .timerExec => fsParamCmd "exec" .timerExec
  | .httpBlock => fsBlockCmd "http" .httpBlock
  | .httpHost => fsParamCmd "host" .httpHost
  | .httpPort => fsParamCmd "port" .httpPort
  | .httpKafkaBlock => fsSubblockCmd "kafka" .httpKafkaBlock
  | .httpKafkaConfig => fsParamCmd "config" .httpKafkaConfig
  | .httpKafkaTopicParam => fsParamCmd "topic_param" .httpKafkaTopicParam
  | .httpKafkaDefaultTopic => fsParamCmd "default_topic" .httpKafkaDefaultTopic
  | .httpKafkaKeyParam => fsParamCmd "key_param" .httpKafkaKeyParam
  | .httpKafkaDefaultKey => fsParamCmd "default_key" .httpKafkaDefaultKey
  | .httpProxyBlock => fsSubblockCmd "proxy" .httpProxyBlock
  | .httpProxyPassPath => fsParamCmd "pass_path" .httpProxyPassPath
  | .kafkaListenerBlock => fsBlockCmd "kafka" .kafkaListenerBlock
  | .kafkaListenerConfig => fsParamCmd "config" .kafkaListenerConfig
  | .kafkaListenerTopic => fsSubblockCmd "topic" .kafkaListenerTopic
  | .kafkaListenerExec => fsParamCmd "exec" .kafkaListenerExec

/-- The first word begins with that of the command, and `exec` has a word behind it. -/
structure Line.Names (l : Line) (k : Callback) : Prop where
  isToken : l.name.IsToken
  begins : k.cmd.token.text <+: l.name.cstr
  exec : k = .timerExec ∨ k = .kafkaListenerExec → l.args ≠ []

instance (l : Line) (k : Callback) : Decidable (l.Names k) :=
  decidable_of_iff (l.name.IsToken ∧ k.cmd.token.text <+: l.name.cstr ∧
      (k = .timerExec ∨ k = .kafkaListenerExec → l.args ≠ []))
    ⟨fun h => ⟨h.1, h.2.1, h.2.2⟩, fun h => ⟨h.isToken, h.begins, h.exec⟩⟩

/-- The callback is that of a parameter. -/
def Callback.isParam (k : Callback) : Bool := k.child && !k.block

/-- A block of this callback can stand directly in the block `inner`, or at top level. A block of
its own can stand anywhere, a listener at top level only. -/
def Callback.opensIn (k : Callback) (inner : Option Callback) : Bool :=
  match k with
  | .versionInit | .timerBlock | .httpBlock => true
  | .kafkaListenerBlock => inner == none
  | .httpKafkaBlock | .httpProxyBlock => inner == some .httpBlock
  | .kafkaListenerTopic => inner == some .kafkaListenerBlock
  | _ => false

namespace Script

/-- Every directive stands where it belongs. -/
def Placed : Option Callback → Script → Prop
  | _, nil => True
  | inner, param k l rest =>
    (l.Names k ∧ k.isParam = true ∧ inner = some k.place) ∧ Placed inner rest
  | inner, block k l body _ rest =>
    (l.Names k ∧ k.opensIn inner = true) ∧ Placed (some k) body ∧ Placed inner rest

instance decidablePlaced : ∀ inner s, Decidable (Placed inner s)
  | _, nil => .isTrue trivial
  | inner, param _ _ rest =>
    have := decidablePlaced inner rest
    inferInstanceAs (Decidable ((_ ∧ _ ∧ _) ∧ _))
  | inner, block k _ body _ rest =>
    have := decidablePlaced (some k) body
    have := decidablePlaced inner rest
    inferInstanceAs (Decidable ((_ ∧ _) ∧ _ ∧ _))

/-- The number of blocks. -/
def blocks : Script → Nat
  | nil => 0
  | param _ _ rest => rest.blocks
  | block _ _ body _ rest => 1 + body.blocks + rest.blocks

/-- With `n` blocks before it, no block inside another one finds `run->ctx` full, whose eight slots
are doubled each time. -/
def Roomy : Bool → Nat → Script → Prop
  | _, _, nil => True
  | inside, n, param _ _ rest => Roomy inside n rest
  | inside, n, block _ _ body _ rest =>
    (inside = true → ∀ j, n ≠ 8 * 2 ^ j) ∧ Roomy true (n + 1) body ∧
      Roomy inside (n + 1 + body.blocks) rest

lemma roomy_of_blocks (s : Script) :
    ∀ {inside : Bool} {n : Nat}, n + s.blocks ≤ 8 → s.Roomy inside n := by
  induction s with
  | nil => exact fun _ => trivial
  | param _ _ rest ih => exact fun hn => ih hn
  | block _ _ body _ rest ihbody ihrest =>
    intro inside n hn
    rw [blocks] at hn
    refine ⟨fun _ j => ?_, ihbody (by omega), ihrest (by omega)⟩
    have hpow : 0 < 2 ^ j := Nat.two_pow_pos j
    omega

/-- The directives as the scanner delivers them. -/
def directives : Script → List (Status × List FsStr)
  | nil => []
  | param _ l rest => (.ok, l.words) :: rest.directives
  | block _ l body left rest =>
    (.blockStart, l.words) :: (body.directives ++ (.blockEnd, left) :: rest.directives)

end Script

/-! ### Meaning -/

/-- Why a script comes to nothing: it is rejected, or the code has no defined behaviour. -/
inductive Fault where
  | rejected | undefined
deriving DecidableEq, Repr

/-- Library calls one after the other, up to the first one that fails. -/
def Lib.ask (lib : Lib) (calls ls : List LibCall) : Except Fault (List LibCall) :=
  ls.foldlM
    (fun calls l => if lib.result calls l then .ok (calls ++ [l]) else .error .rejected) calls

/-- The options of a child whose command has these words. -/
def execWords (args : List FsStr) : ProcOptions where
  file := args.head?
  args :=
    { alloc := args.length + 1
      stores := args.mapIdx (fun i w => (i, some (some w))) ++ [(args.length + 1, none)] }

/-- The publisher of a block with this pattern; `unset` says which of the pointers that the block
leaves alone are null. -/
def Publisher.started (path : FsStr) (re : Option (List UInt8)) (unset : Callback → Bool) :
    Publisher where
  path := path
  pathRe := re
  topicParam := .null
  defaultTopic := .null
  keyParam := .unset (unset .httpKafkaKeyParam)
  defaultKey := .unset (unset .httpKafkaDefaultKey)
  conf := fsAllocArr (FsStr × FsStr) 2 Nat.two_pos

def Http.addRoute (http : Http) (r : Route) : Http := { http with routes := http.routes.push r }

/-- Change the publisher that was added last. -/
def Http.onPublisher (http : Http) (f : Publisher → Except Fault Publisher) : Except Fault Http :=
  match http.lastRoute with
  | some (.publisher q) => (f q).map fun q => http.setLast (.publisher q)
  | _ => .error .rejected

/-- Give a parameter of a publisher its value. -/
def Publisher.give (name : PublisherParam) (value : FsStr) (q : Publisher) :
    Except Fault Publisher :=
  if (name.field q).isSet then .error .rejected else .ok (name.store q (.set value))

/-- Set the template of the proxy that was added last. -/
def Http.passPath (lib : Lib) (http : Http) (template : FsStr) : Except Fault Http :=
  match http.lastRoute with
  | some (.proxy proxy) =>
    if proxy.passPath.eleCount ≠ 0 ∨ (varPieces lib template).1 = false then .error .rejected
    else .ok (http.setLast (.proxy
      { proxy with passPath := (varPieces lib template).2.foldl FsArr.push proxy.passPath }))
  | _ => .error .rejected

def Listener.addTopic (l : Listener) (name : FsStr) : Except Fault Listener :=
  match l.topic with
  | .wild => .error .undefined
  | .null =>
    .ok { l with topic := .arr ((fsAllocArr Topic 1 Nat.zero_lt_one).push ⟨name, none, false⟩) }
  | .arr topics => .ok { l with topic := .arr (topics.push ⟨name, none, false⟩) }

/-- The command of a child, unless its vector has no room for the last store. -/
def Lib.exec (lib : Lib) (args : List FsStr) : Except Fault ProcOptions :=
  if (execWords args).args.Fits lib then .ok (execWords args) else .error .undefined

/-- Set the command of the topic that was added last. -/
def Listener.exec (lib : Lib) (l : Listener) (args : List FsStr) : Except Fault Listener :=
  match l.topic with
  | .arr topics =>
    match if topics.eleCount = 0 then none else topics.nth (topics.eleCount - 1) with
    | none => .error .undefined
    | some topic => (lib.exec args).map fun options => { l with
        topic := .arr (topics.write (topics.eleCount - 1)
          { topic with procOptions := some options, procFlag := true }) }
  | _ => .error .undefined

/-- What a directive with the words `args` makes of the object of its block. -/
def Callback.meaning (lib : Lib) (unset : Callback → Bool) (calls : List LibCall) :
    Callback → List FsStr → Obj → Except Fault (Obj × List LibCall)
  | .versionArt, _, .version _ => .ok (.version (some fsModVersionArtText), calls)
  | .timerTimeout, [value], .timer t =>
    if t.timeoutFlag then .error .rejected
    else match fsModTimerParseTime value.cstr with
      | none => .error .rejected
      | some n => .ok (.timer { t with timeout := n, timeoutFlag := true }, calls)
  | .timerRepeat, [value], .timer t =>
    if t.repeatFlag then .error .rejected
    else match fsModTimerParseTime value.cstr with
      | none => .error .rejected
      | some n => .ok (.timer { t with rep := n, repeatFlag := true }, calls)
  | .timerExec, args, .timer t => (lib.exec args).map fun options =>
    (.timer { t with procOptions := some options, cbFlag := true }, calls)
  | .httpHost, [host], .http http => .ok (.http { http with host := some host }, calls)
  | .httpPort, [port], .http http =>
    .ok (.http { http with port := (atoi port.cstr % 2 ^ 16).toNat }, calls)
  | .httpKafkaBlock, [path], .http http =>
    let re := if lib.result calls (.pcreCompile path.cstr) then some path.cstr else none
    .ok (.http (http.addRoute (.publisher (.started path re unset))),
      calls ++ [.pcreCompile path.cstr])
  | .httpKafkaConfig, [key, value], .http http =>
    (http.onPublisher fun q => .ok { q with conf := q.conf.push (key, value) }).map
      fun http => (.http http, calls)
  | .httpKafkaTopicParam, [value], .http http =>
    (http.onPublisher (Publisher.give .topicParam value)).map fun http => (.http http, calls)
  | .httpKafkaDefaultTopic, [value], .http http =>
    (http.onPublisher (Publisher.give .defaultTopic value)).map fun http => (.http http, calls)
  | .httpKafkaKeyParam, [value], .http http =>
    (http.onPublisher (Publisher.give .keyParam value)).map fun http => (.http http, calls)
  | .httpKafkaDefaultKey, [value], .http http =>
    (http.onPublisher (Publisher.give .defaultKey value)).map fun http => (.http http, calls)
  | .httpProxyBlock, [path], .http http =>
    (lib.ask calls [.pcreCompile path.cstr]).map fun calls =>
      (.http (http.addRoute (.proxy ⟨path, some path.cstr, lib.captures path.cstr,
        fsAllocArr Piece 2 Nat.two_pos⟩)), calls)
  | .httpProxyPassPath, [template], .http http =>
    (http.passPath lib template).map fun http => (.http http, calls)
  | .kafkaListenerConfig, [key, value], .listener l =>
    (lib.ask calls [.rdKafkaConfSet key.cstr value.cstr]).map fun calls =>
      (.listener { l with conf := l.conf ++ [(key.cstr, value.cstr)] }, calls)
  | .kafkaListenerTopic, [name], .listener l =>
    (l.addTopic name).map fun l => (.listener l, calls)
  | .kafkaListenerExec, args, .listener l => (l.exec lib args).map fun l => (.listener l, calls)
  | _, _, _ => .error .rejected

/-- What a block of its own starts with. -/
def Callback.fresh (lib : Lib) : Callback → Obj
  | .timerBlock => .timer fsModTimerInit
  | .httpBlock =>
    .http ⟨lib.uninitPort % 2 ^ 16, none, fsAllocArr Route 1 Nat.zero_lt_one⟩
  | .kafkaListenerBlock => .listener ⟨.null, []⟩
  | _ => .version (some (bytes "folk song"))

/-- The module that has allocated an object. -/
def Obj.owner (o : Obj) : ModId := o.shape.owner

/-- What the closing brace of a block asks for. -/
def Lib.completion (lib : Lib) (calls : List LibCall) : Obj → Except Fault (List LibCall)
  | .version _ => .ok calls
  | .timer t => if t.completes then .ok calls else .error .rejected
  | .http http =>
    match http.host with
    | none => .error .undefined
    | some host => lib.ask calls [.uvIp4Addr host.cstr http.port, .uvTcpInit, .uvTcpBind]
  | .listener l =>
    match l.topic with
    | .null => .error .rejected
    | .wild => .error .undefined
    | .arr topics =>
      if topics.toList.any fun t => !t.procFlag then .error .rejected
      else lib.ask calls
        [.rdKafkaNew l.conf, .rdKafkaSubscribe (topics.toList.map fun t => t.topic.cstr)]

namespace Heap

/-- A directive on the object at `p`. -/
def apply (lib : Lib) (unset : Heap → Callback → Bool) (h : Heap) (k : Callback)
    (args : List FsStr) (p : Ptr) : Except Fault Heap :=
  match h.get p with
  | none => .error .rejected
  | some o => (k.meaning lib (unset h) h.calls args o).map fun r =>
      { h with calls := r.2 }.set p r.1

/-- A block of its own allocates its object; there is only one version block. -/
def opened (lib : Lib) (h : Heap) (k : Callback) : Except Fault (Ptr × Heap) :=
  if k = .versionInit ∧ h.objs.any (·.owner == .version) then .error .rejected
  else .ok (h.alloc (k.fresh lib))

/-- The closing brace of the block of the object at `p`. -/
def complete (lib : Lib) (h : Heap) (p : Ptr) : Except Fault Heap :=
  match h.get p with
  | none => .error .rejected
  | some o => (lib.completion h.calls o).map fun calls => { h with calls := calls }

/-- The objects of a module, in the order in which they were allocated. -/
def contexts (h : Heap) (m : ModId) : List Ptr :=
  ((List.range h.objs.length).filter fun i => (h.objs[i]?).any fun o => o.owner == m).map Ptr.obj

end Heap

/-- The objects that the script makes, when its directives stand in the block of the object at
`p`. -/
def Script.eval (lib : Lib) (unset : Heap → Callback → Bool) :
    Script → Ptr → Heap → Except Fault Heap
  | .nil, _, h => .ok h
  | .param k l rest, p, h => (h.apply lib unset k l.args p).bind (rest.eval lib unset p)
  | .block k l body _ rest, p, h =>
    if k.child then
      ((h.apply lib unset k l.args p).bind (body.eval lib unset p)).bind (rest.eval lib unset p)
    else
      (((h.opened lib k).bind fun r => (body.eval lib unset r.1 r.2).bind fun h =>
        h.complete lib r.1)).bind (rest.eval lib unset p)

end Folksong
