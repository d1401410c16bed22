import Folksong.Conf.Parse
import Folksong.Mod.KafkaListener

/-!
# The shipped modules as the engine sees them

The order of `global_mods` is chosen by the build.
-/

namespace Folksong

/-- `fs_single_cmd`, `fs_block_cmd`, `fs_param_cmd` and `fs_subblock_cmd`. -/
def fsBlockCmd {κ : Type} (token : String) (call : κ) : FsCmd κ := ⟨fsStr token, call, true, false⟩
def fsParamCmd {κ : Type} (token : String) (call : κ) : FsCmd κ := ⟨fsStr token, call, false, true⟩
def fsSubblockCmd {κ : Type} (token : String) (call : κ) : FsCmd κ :=
  ⟨fsStr token, call, true, true⟩

def fsModVersion : FsMod ModId Callback where
  id := .version
  commands :=
    [fsBlockCmd "fs_version" .versionInit,
     fsParamCmd "fs_version_art" .versionArt]

def fsModTimer : FsMod ModId Callback where
  id := .timer
  commands :=
    [fsBlockCmd "timer" .timerBlock,
     fsParamCmd "timeout" .timerTimeout,
     fsParamCmd "repeat" .timerRepeat,
     fsParamCmd "exec" .timerExec]

def fsModHttp : FsMod ModId Callback where
  id := .http
  commands :=
    [fsBlockCmd "http" .httpBlock,
     fsParamCmd "host" .httpHost,
     fsParamCmd "port" .httpPort]

def fsModHttpKafka : FsMod ModId Callback where
  id := .httpKafka
  commands :=
    [fsSubblockCmd "kafka" .httpKafkaBlock,
     fsParamCmd "config" .httpKafkaConfig,
     fsParamCmd "topic_param" .httpKafkaTopicParam,
     fsParamCmd "default_topic" .httpKafkaDefaultTopic,
     fsParamCmd "key_param" .httpKafkaKeyParam,
     fsParamCmd "default_key" .httpKafkaDefaultKey]

def fsModHttpProxy : FsMod ModId Callback where
  id := .httpProxy
  commands :=
    [fsSubblockCmd "proxy" .httpProxyBlock,
     fsParamCmd "pass_path" .httpProxyPassPath]

def fsModKafkaListener : FsMod ModId Callback where
  id := .kafkaListener
  commands :=
    [fsBlockCmd "kafka" .kafkaListenerBlock,
     fsParamCmd "config" .kafkaListenerConfig,
     fsSubblockCmd "topic" .kafkaListenerTopic,
     fsParamCmd "exec" .kafkaListenerExec]

def shippedMods : List (FsMod ModId Callback) :=
  [fsModVersion, fsModTimer, fsModHttp, fsModHttpKafka, fsModHttpProxy, fsModKafkaListener]

lemma isLiteral_of_mem_shipped {m : FsMod ModId Callback} (hm : m ∈ shippedMods)
    {cmd : FsCmd Callback} (hcmd : cmd ∈ m.commands) : cmd.token.IsLiteral := by
  have hall : ∀ m ∈ shippedMods, ∀ cmd ∈ m.commands,
      cmd.token.size = cmd.token.text.length ∧ (0 : UInt8) ∉ cmd.token.text := by decide +kernel
  obtain ⟨hsize, hnul⟩ := hall m hm cmd hcmd
  exact ⟨hsize, hnul⟩

/-- The `methods` of the modules. -/
def shippedMethods (lib : Lib) : ModId → FsModMethod ModId Callback Heap
  | .version => ⟨some fsModVersionInitMod, some fsModVersionInitModCompleted⟩
  | .timer => ⟨some fsModTimerInitMod, some (fsModTimerInitModCompleted lib)⟩
  | .http => ⟨some (fsModHttpInitMod lib), some (fsModHttpInitModCompleted lib)⟩
  | .httpKafka => ⟨none, none⟩
  | .httpProxy => ⟨none, none⟩
  | .kafkaListener =>
    ⟨some fsModKafkaListenerInitMod, some (fsModKafkaListenerInitModCompleted lib)⟩

/-- The `call` of the commands. -/
def shippedCall (lib : Lib) : Callback → Engine → Ptr → Called
  | .versionInit => fsModVersionInit lib
  | .versionArt => fsModVersionArt lib
  | .timerBlock => fsModTimerBlock
  | .timerTimeout => fsModTimerCmdTimeout lib
  | .timerRepeat => fsModTimerCmdRepeat lib
  | .timerExec => fsModTimerCmdExec lib
  | .httpBlock => fsModHttpBlock
  | .httpHost => fsModHttpCmdHost lib
  | .httpPort => fsModHttpCmdPort lib
  | .httpKafkaBlock => fsModHttpKafkaBlock lib
  | .httpKafkaConfig => fsModHttpKafkaCmdConfig lib
  | .httpKafkaTopicParam => fsModHttpKafkaCmdTopicParam lib
  | .httpKafkaDefaultTopic => fsModHttpKafkaCmdDefaultTopic lib
  | .httpKafkaKeyParam => fsModHttpKafkaCmdKeyParam lib
  | .httpKafkaDefaultKey => fsModHttpKafkaCmdDefaultKey lib
  | .httpProxyBlock => fsModHttpProxyBlock lib
  | .httpProxyPassPath => fsModHttpProxyCmdPassPath lib
  | .kafkaListenerBlock => fsModKafkaListenerBlock
  | .kafkaListenerConfig => fsModKafkaListenerCmdConfig lib
  | .kafkaListenerTopic => fsModKafkaListenerCmdTopic lib
  | .kafkaListenerExec => fsModKafkaListenerCmdExec lib

/-- What memory nobody has written holds. -/
structure Junk where
  stale : Engine → Slot → Ptr
  uninit : Slot → Ptr
  first : Engine → Bool

/-- The engine linked with the shipped modules in the order `mods`. -/
def shippedEnv (mods : List (FsMod ModId Callback)) (lib : Lib) (junk : Junk) :
    Env ModId Callback Heap where
  globalMods := mods
  methods := shippedMethods lib
  call := shippedCall lib
  stale := junk.stale
  uninit := junk.uninit
  first := junk.first

/-- glibc: blocks grow by two pointers, of which three fit into the smallest. -/
def glibcUsable (n : Nat) : Nat := max 3 (2 * ((n + 2) / 2) - 1)

/-- Libraries that never fail; a misused object changes nothing. -/
def Lib.succeeding : Lib where
  result := fun _ _ => true
  captures := fun _ => 0
  uninitPort := 0
  uninitNull := fun _ _ => true
  behind := fun _ _ => 0
  usable := glibcUsable
  misused := fun _ c _ => some (.ok, c.heap)
  misusedCompleted := fun _ c _ => some (.ok, c.heap)

def Junk.null : Junk := ⟨fun _ _ => .null, fun _ => .null, fun _ => false⟩

/-- The engine in which runs on given texts are evaluated. -/
def sampleEnv : Env ModId Callback Heap := shippedEnv shippedMods .succeeding .null

/-- `main` before the parse. -/
def sampleStart : Engine := Conf.start (fsAllocArr FsStr 3 tokensCapa_pos) ⟨[], []⟩

/-- The parse of a text that is held in one buffer, at its start. -/
def sampleAt (text : List UInt8) : FsFile × Engine :=
  (FsFile.ofBuf (text ++ [0]) text.length, sampleStart)

/-- The scanner answers with a directive that passes a test. -/
def Taken.answers (test : Taking → Bool) : Taken → Bool
  | .ret st _ tokens => test ⟨st, tokens⟩
  | .undefined => false

lemma exists_taking (test : Taking → Bool) {io : ReadOutcome} {f : FsFile} {tokens : FsArr FsStr}
    (h : (fsConfNextToken io f tokens).answers test) :
    ∃ f' l, fsConfNextToken io f tokens = .ret l.status f' l.tokens ∧ test l := by
  cases hnext : fsConfNextToken io f tokens with
  | undefined =>
    rw [hnext] at h
    cases h
  | ret st f' tokens' =>
    rw [hnext] at h
    exact ⟨f', ⟨st, tokens'⟩, rfl, h⟩

end Folksong
