import Folksong.Mod.Http

/-!
# The configuration of the kafka listener (`fs_mod_kafka_listener.c`)
-/

namespace Folksong

/-- `fs_mod_kafka_listener_init_mod`. -/
def fsModKafkaListenerInitMod (c : Engine) (cmd : FsCmd Callback) :
    Option (Ret × Option Ptr × Heap) :=
  if cmd.call ≠ .kafkaListenerBlock then some (.pass, none, c.heap)
  else if c.stDepth ≠ 1 then some (.pass, none, c.heap)
  else some (.ok, some (c.heap.alloc (.listener ⟨.null, []⟩)).1,
    (c.heap.alloc (.listener ⟨.null, []⟩)).2)

/-- `fs_mod_kafka_listener_init_mod_completed`. -/
def fsModKafkaListenerInitModCompleted (lib : Lib) (c : Engine) (p : Ptr) : Called :=
  match c.heap.get p with
  | some (.listener listener) =>
    match listener.topic with
    | .null => some (.error, c.heap)
    | .wild => none
    | .arr topics =>
      if topics.toList.any fun t => !t.procFlag then some (.error, c.heap)
      else
        let r₁ := c.heap.callLib lib (.rdKafkaNew listener.conf)
        if !r₁.1 then some (.error, r₁.2)
        else
          let names := topics.toList.map fun t => t.topic.cstr
          let r₂ := r₁.2.callLib lib (.rdKafkaSubscribe names)
          if !r₂.1 then some (.error, r₂.2) else some (.ok, r₂.2)
  | _ => lib.misusedCompleted .kafkaListener c p

/-- `fs_mod_kafka_listener_block`. -/
def fsModKafkaListenerBlock (c : Engine) (_ : Ptr) : Called :=
  if topMod c ≠ some .kafkaListener then some (.pass, c.heap) else some (.ok, c.heap)

/-- `fs_mod_kafka_listener_cmd_topic`. -/
def fsModKafkaListenerCmdTopic (lib : Lib) (c : Engine) (p : Ptr) : Called :=
  if topMod c ≠ some .kafkaListener then some (.pass, c.heap)
  else if subtopCmd c ≠ some .kafkaListenerBlock then some (.error, c.heap)
  else if c.tokens.eleCount ≠ 2 then some (.error, c.heap)
  else match c.heap.get p with
    | some (.listener listener) =>
      match c.tokens.nth 1 with
      | none => none
      | some name =>
        let topic : Topic := ⟨name, none, false⟩
        match listener.topic with
        | .wild => none
        | .null =>
          let topics := (fsAllocArr Topic 1 Nat.zero_lt_one).push topic
          some (.ok, c.heap.set p (.listener { listener with topic := .arr topics }))
        | .arr topics =>
          some (.ok, c.heap.set p (.listener { listener with topic := .arr (topics.push topic) }))
    | _ => lib.misused .kafkaListenerTopic c p

/-- `fs_mod_kafka_listener_cmd_config`. -/
def fsModKafkaListenerCmdConfig (lib : Lib) (c : Engine) (p : Ptr) : Called :=
  if topMod c ≠ some .kafkaListener then some (.pass, c.heap)
  else if topCmd c ≠ some .kafkaListenerBlock then some (.pass, c.heap)
  else if c.tokens.eleCount ≠ 3 then some (.error, c.heap)
  else match c.heap.get p with
    | some (.listener listener) =>
      match tokenText c 1, tokenText c 2 with
      | some key, some value =>
        let r := c.heap.callLib lib (.rdKafkaConfSet key value)
        if r.1 then
          some (.ok, r.2.set p (.listener { listener with conf := listener.conf ++ [(key, value)] }))
        else some (.error, r.2)
      | _, _ => none
    | _ => lib.misused .kafkaListenerConfig c p

/-- `fs_mod_kafka_listener_cmd_exec`, on the topic added last. -/
def fsModKafkaListenerCmdExec (lib : Lib) (c : Engine) (p : Ptr) : Called :=
  if topMod c ≠ some .kafkaListener then some (.pass, c.heap)
  else if topCmd c ≠ some .kafkaListenerTopic then some (.error, c.heap)
  else match c.heap.get p with
    | some (.listener listener) =>
      match listener.topic with
      | .arr topics =>
        if topics.eleCount = 0 then none
        else match topics.nth (topics.eleCount - 1) with
          | none => none
          | some topic =>
            if (execArgs c.tokens).Fits lib then
              let topic := { topic with procOptions := some (execOptions c.tokens), procFlag := true }
              some (.ok, c.heap.set p (.listener
                { listener with topic := .arr (topics.write (topics.eleCount - 1) topic) }))
            else none
      | _ => none
    | _ => lib.misused .kafkaListenerExec c p

end Folksong
