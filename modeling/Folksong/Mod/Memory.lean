import Folksong.Conf.Handle

/-!
# The memory of the shipped modules

The six modules and their callbacks by name, the objects their blocks allocate, and the
libraries they call. A context is an untyped pointer: a callback that finds an object of another
type behind it gets whatever `Lib.misused` says, which is arbitrary.
-/

namespace Folksong

/-- The shipped modules. -/
inductive ModId where
  | version | timer | http | httpKafka | httpProxy | kafkaListener
deriving DecidableEq, Repr

/-- Their callbacks. -/
inductive Callback where
  | versionInit | versionArt
  | timerBlock | timerTimeout | timerRepeat | timerExec
  | httpBlock | httpHost | httpPort
  | httpKafkaBlock | httpKafkaConfig | httpKafkaTopicParam | httpKafkaDefaultTopic
  | httpKafkaKeyParam | httpKafkaDefaultKey
  | httpProxyBlock | httpProxyPassPath
  | kafkaListenerBlock | kafkaListenerConfig | kafkaListenerTopic | kafkaListenerExec
deriving DecidableEq, Repr

/-- The `args` of an `exec` directive: how many pointers are allocated, and the stores into the
vector in order. A store of `none` is one of `NULL`; an element that is `none` was never
written. -/
structure Args where
  alloc : Nat
  stores : List (Nat × Option (Option FsStr))
deriving DecidableEq, Repr

/-- The part of `uv_process_options_t` that `exec` sets. -/
structure ProcOptions where
  file : Option FsStr
  args : Args
deriving DecidableEq, Repr

/-- `fs_mod_timer_t`. -/
structure Timer where
  timeout : Nat
  rep : Nat
  procOptions : Option ProcOptions
  timeoutFlag : Bool
  repeatFlag : Bool
  cbFlag : Bool
deriving DecidableEq, Repr

/-- A `fs_str_t` inside an allocated structure, as its `buf` pointer tells it. -/
inductive StrField where
  | null
  | wild
  | set (s : FsStr)
deriving DecidableEq, Repr

/-- `buf.buf != NULL`. -/
def StrField.isSet : StrField → Bool
  | .null => false
  | _ => true

/-- `fs_mod_http_kafka_publisher_t`; `pathRe` is null when the pattern did not compile. -/
structure Publisher where
  path : FsStr
  pathRe : Option (List UInt8)
  topicParam : StrField
  defaultTopic : StrField
  keyParam : StrField
  defaultKey : StrField
  conf : FsArr (FsStr × FsStr)

/-- A piece of a template: the bytes allocated for it and the bytes stored. -/
structure Piece where
  alloc : Nat
  text : List UInt8
deriving DecidableEq, Repr

/-- `fs_mod_http_proxy_t`. -/
structure Proxy where
  path : FsStr
  pathRe : Option (List UInt8)
  pathCaptures : Nat
  passPath : FsArr Piece

/-- `fs_mod_http_route_t`: the callbacks stored in a route are those of the module that has made
its `conf`. -/
inductive Route where
  | publisher (p : Publisher)
  | proxy (p : Proxy)

/-- `fs_mod_http_t`; the host is `none` until it is set. -/
structure Http where
  port : Nat
  host : Option FsStr
  routes : FsArr Route

/-- `fs_mod_kafka_listener_topic_t`. -/
structure Topic where
  topic : FsStr
  procOptions : Option ProcOptions
  procFlag : Bool
deriving DecidableEq, Repr

/-- The `topic` field of a listener. -/
inductive TopicField where
  | null
  | wild
  | arr (a : FsArr Topic)

/-- `fs_mod_kafka_listener_t`; `conf` is what `rd_kafka_conf_set` has stored. -/
structure Listener where
  topic : TopicField
  conf : List (List UInt8 × List UInt8)

/-- What a block allocates. -/
inductive Obj where
  | version (welcome : Option (List UInt8))
  | timer (t : Timer)
  | http (h : Http)
  | listener (l : Listener)

/-- A call of a library, with what it can depend on. -/
inductive LibCall where
  | uvIp4Addr (host : List UInt8) (port : Nat)
  | uvTcpInit
  | uvTcpBind
  | pcreCompile (pattern : List UInt8)
  | rdKafkaConfSet (key value : List UInt8)
  | rdKafkaNew (conf : List (List UInt8 × List UInt8))
  | rdKafkaSubscribe (topics : List (List UInt8))
deriving DecidableEq, Repr

/-- The objects, numbered in the order of their allocation, and the library calls so far. -/
structure Heap where
  objs : List Obj
  calls : List LibCall

/-- The engine with the shipped modules. -/
abbrev Engine := Conf ModId Callback Heap

/-- What a callback gives: nothing where its behaviour is undefined. -/
abbrev Called := Option (Ret × Heap)

/-- The libraries, and memory nobody has written: `result` says whether a call succeeds after
the earlier ones, `captures` counts the groups of a pattern, `uninitPort` is what the port of a
fresh `fs_mod_http_t` holds, `uninitNull` whether the pointer that a command of a publisher sets
is null before, where the block does not set it, `behind` the bytes behind the NUL of a token,
`usable` how many pointers have room in the block that `malloc` returns for a number of them. -/
structure Lib where
  result : List LibCall → LibCall → Bool
  captures : List UInt8 → Nat
  uninitPort : Nat
  uninitNull : Engine → Callback → Bool
  behind : FsStr → Nat → UInt8
  usable : Nat → Nat
  misused : Callback → Engine → Ptr → Called
  misusedCompleted : ModId → Engine → Ptr → Called

namespace Heap

def get (h : Heap) (p : Ptr) : Option Obj :=
  match p with
  | .obj n => h.objs[n]?
  | _ => none

def set (h : Heap) (p : Ptr) (o : Obj) : Heap :=
  match p with
  | .obj n => { h with objs := h.objs.set n o }
  | _ => h

/-- `fs_pool_alloc` of an object. -/
def alloc (h : Heap) (o : Obj) : Ptr × Heap :=
  (.obj h.objs.length, { h with objs := h.objs ++ [o] })

/-- Call a library. -/
def callLib (lib : Lib) (h : Heap) (l : LibCall) : Bool × Heap :=
  (lib.result h.calls l, { h with calls := h.calls ++ [l] })

end Heap

/-- The text of the token at index `i` as a C string; it does not exist in a slot that has never
been written. -/
def tokenText (c : Engine) (i : Nat) : Option (List UInt8) := (c.tokens.nth i).map FsStr.cstr

def topMod (c : Engine) : Option ModId := c.stMod.head?.map Frame.mod

def topCmd (c : Engine) : Option Callback := c.stMod.head?.map fun f => f.cmd.call

/-- `fs_run_st_subtop_mod`. Below a single frame `fs_run_t` itself is taken for a frame, with no
module's address in it. -/
def subtopMod (c : Engine) : Option ModId := c.stMod.tail.head?.map Frame.mod

def subtopCmd (c : Engine) : Option Callback := c.stMod.tail.head?.map fun f => f.cmd.call

/-- The vector `exec` builds: the words behind the first one, and the terminating `NULL` at the
index the loop ends with. -/
def execArgs (tokens : FsArr FsStr) : Args where
  alloc := tokens.eleCount
  stores := (List.range' 1 (tokens.eleCount - 1)).map (fun i => (i - 1, some (tokens.nth i)))
    ++ [(max 1 tokens.eleCount, none)]

def execOptions (tokens : FsArr FsStr) : ProcOptions := ⟨tokens.nth 1, execArgs tokens⟩

/-- No store leaves the block that `malloc` has returned for the vector. -/
def Args.Fits (lib : Lib) (a : Args) : Prop := ∀ s ∈ a.stores, s.1 < lib.usable a.alloc

instance (lib : Lib) : DecidablePred (Args.Fits lib) :=
  fun a => inferInstanceAs (Decidable (∀ s ∈ a.stores, s.1 < lib.usable a.alloc))

/-- The last store goes furthest. -/
lemma execArgs_fits_iff {lib : Lib} {tokens : FsArr FsStr} :
    (execArgs tokens).Fits lib ↔ max 1 tokens.eleCount < lib.usable tokens.eleCount := by
  rw [Args.Fits, execArgs, List.forall_mem_append, List.forall_mem_singleton]
  refine and_iff_right_of_imp fun hlast s hs => ?_
  obtain ⟨i, hi, rfl⟩ := List.mem_map.mp hs
  have hle : i - 1 < tokens.eleCount := by
    have := List.mem_range'_1.mp hi
    omega
  exact hle.trans_le ((le_max_right _ _).trans hlast.le)

end Folksong
