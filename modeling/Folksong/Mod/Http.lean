import Folksong.Mod.Timer

/-!
# The configuration of the http modules (`fs_mod_http.c`, `http/kafka.c`, `http/proxy.c`)
-/

namespace Folksong

/-! ### Http -/

/-- `fs_mod_http_init_mod`. -/
def fsModHttpInitMod (lib : Lib) (c : Engine) (cmd : FsCmd Callback) :
    Option (Ret × Option Ptr × Heap) :=
  if cmd.call = .httpBlock then
    let http : Http := ⟨lib.uninitPort % 2 ^ 16, none, fsAllocArr Route 1 Nat.zero_lt_one⟩
    some (.ok, some (c.heap.alloc (.http http)).1, (c.heap.alloc (.http http)).2)
  else some (.error, none, c.heap)

/-- `fs_mod_http_init_mod_completed`; the address of a host that has not been set is
indeterminate. -/
def fsModHttpInitModCompleted (lib : Lib) (c : Engine) (p : Ptr) : Called :=
  match c.heap.get p with
  | some (.http http) =>
    match http.host with
    | none => none
    | some host =>
      let r₁ := c.heap.callLib lib (.uvIp4Addr host.cstr http.port)
      if !r₁.1 then some (.error, r₁.2)
      else
        let r₂ := r₁.2.callLib lib .uvTcpInit
        if !r₂.1 then some (.error, r₂.2)
        else
          let r₃ := r₂.2.callLib lib .uvTcpBind
          if !r₃.1 then some (.error, r₃.2) else some (.ok, r₃.2)
  | _ => lib.misusedCompleted .http c p

/-- `fs_mod_http_block`. -/
def fsModHttpBlock (c : Engine) (_ : Ptr) : Called := some (.ok, c.heap)

/-- `fs_mod_http_cmd_host`. -/
def fsModHttpCmdHost (lib : Lib) (c : Engine) (p : Ptr) : Called :=
  if topMod c ≠ some .http then some (.pass, c.heap)
  else if c.tokens.eleCount ≠ 2 then some (.error, c.heap)
  else match c.heap.get p with
    | some (.http http) =>
      match c.tokens.nth 1 with
      | none => none
      | some host => some (.ok, c.heap.set p (.http { http with host := some host }))
    | _ => lib.misused .httpHost c p

/-- `atoi`: white space, a sign and decimal digits; it stops at `LONG_MIN` and at `LONG_MAX`, and
what is kept of the number is left to the caller. -/
def atoi (text : List UInt8) : Int :=
  let text := text.dropWhile fun b => b == 32 || (9 ≤ b && b ≤ 13)
  match text with
  | 45 :: rest => -(min (leadingNumber rest) (2 ^ 63) : Nat)
  | 43 :: rest => atoll rest
  | _ => atoll text

/-- `fs_mod_http_cmd_port`: the number is stored in 16 bits. -/
def fsModHttpCmdPort (lib : Lib) (c : Engine) (p : Ptr) : Called :=
  if topMod c ≠ some .http then some (.pass, c.heap)
  else if c.tokens.eleCount ≠ 2 then some (.error, c.heap)
  else match c.heap.get p with
    | some (.http http) =>
      match tokenText c 1 with
      | none => none
      | some text =>
        some (.ok, c.heap.set p (.http { http with port := (atoi text % 2 ^ 16).toNat }))
    | _ => lib.misused .httpPort c p

/-- `fs_arr_last` of the routes. -/
def Http.lastRoute (http : Http) : Option Route :=
  if http.routes.eleCount = 0 then none else http.routes.nth (http.routes.eleCount - 1)

/-- Store through the pointer to the last route. -/
def Http.setLast (http : Http) (r : Route) : Http :=
  { http with routes := http.routes.write (http.routes.eleCount - 1) r }

/-! ### The kafka publisher -/

/-- `pcre_compile`. -/
def pcreCompile (lib : Lib) (h : Heap) (pattern : List UInt8) : Option (List UInt8) × Heap :=
  let r := h.callLib lib (.pcreCompile pattern)
  (if r.1 then some pattern else none, r.2)

/-- `fs_mod_http_kafka_block`. A pattern that does not compile is only logged. -/
def fsModHttpKafkaBlock (lib : Lib) (c : Engine) (p : Ptr) : Called :=
  if subtopMod c ≠ some .http then some (.pass, c.heap)
  else if c.tokens.eleCount ≠ 2 then some (.error, c.heap)
  else match c.heap.get p with
    | some (.http http) =>
      match c.tokens.nth 1 with
      | none => none
      | some path =>
        let re := pcreCompile lib c.heap path.cstr
        let unset (k : Callback) : StrField := if lib.uninitNull c k then .null else .wild
        let publisher : Publisher :=
          ⟨path, re.1, .null, .null, unset .httpKafkaKeyParam, unset .httpKafkaDefaultKey,
            fsAllocArr (FsStr × FsStr) 2 (Nat.succ_pos _)⟩
        some (.ok, re.2.set p
          (.http { http with routes := http.routes.push (.publisher publisher) }))
    | _ => lib.misused .httpKafkaBlock c p

/-- What the parameters of a publisher share: where they apply, and how many words they have;
then `store` is done on the publisher behind the last route. -/
def publisherCmd (k : Callback) (words : Nat)
    (store : Publisher → Engine → Option (Option Publisher)) (lib : Lib) (c : Engine) (p : Ptr) :
    Called :=
  if topCmd c ≠ some .httpKafkaBlock then some (.pass, c.heap)
  else if c.tokens.eleCount ≠ words then some (.error, c.heap)
  else match c.heap.get p with
    | some (.http http) =>
      match http.lastRoute with
      | some (.publisher publisher) =>
        match store publisher c with
        | none => none
        | some none => some (.error, c.heap)
        | some (some publisher) =>
          some (.ok, c.heap.set p (.http (http.setLast (.publisher publisher))))
      | _ => lib.misused k c p
    | _ => lib.misused k c p

/-- `fs_mod_http_kafka_cmd_config`. -/
def fsModHttpKafkaCmdConfig : Lib → Engine → Ptr → Called :=
  publisherCmd .httpKafkaConfig 3 fun publisher c =>
    match c.tokens.nth 1, c.tokens.nth 2 with
    | some key, some value =>
      some (some { publisher with conf := publisher.conf.push (key, value) })
    | _, _ => none

/-- The four parameters with one value: an error when the field is set already. -/
def publisherField (k : Callback) (field : Publisher → StrField)
    (store : Publisher → StrField → Publisher) : Lib → Engine → Ptr → Called :=
  publisherCmd k 2 fun publisher c =>
    if (field publisher).isSet then some none
    else match c.tokens.nth 1 with
      | none => none
      | some value => some (some (store publisher (.set value)))

/-- `fs_mod_http_kafka_cmd_topic_param`. -/
def fsModHttpKafkaCmdTopicParam : Lib → Engine → Ptr → Called :=
  publisherField .httpKafkaTopicParam Publisher.topicParam fun p v => { p with topicParam := v }

/-- `fs_mod_http_kafka_cmd_default_topic`. -/
def fsModHttpKafkaCmdDefaultTopic : Lib → Engine → Ptr → Called :=
  publisherField .httpKafkaDefaultTopic Publisher.defaultTopic fun p v =>
    { p with defaultTopic := v }

/-- `fs_mod_http_kafka_cmd_key_param`. -/
def fsModHttpKafkaCmdKeyParam : Lib → Engine → Ptr → Called :=
  publisherField .httpKafkaKeyParam Publisher.keyParam fun p v => { p with keyParam := v }

/-- `fs_mod_http_kafka_cmd_default_key`. -/
def fsModHttpKafkaCmdDefaultKey : Lib → Engine → Ptr → Called :=
  publisherField .httpKafkaDefaultKey Publisher.defaultKey fun p v => { p with defaultKey := v }

/-! ### The proxy -/

/-- `fs_mod_http_proxy_block`. `pcre_fullinfo` fails exactly on a null pattern. -/
def fsModHttpProxyBlock (lib : Lib) (c : Engine) (p : Ptr) : Called :=
  if subtopMod c ≠ some .http then some (.pass, c.heap)
  else if c.tokens.eleCount ≠ 2 then some (.error, c.heap)
  else match c.heap.get p with
    | some (.http http) =>
      match c.tokens.nth 1 with
      | none => none
      | some path =>
        let re := pcreCompile lib c.heap path.cstr
        let proxy : Proxy :=
          ⟨path, re.1, re.1.elim 0 lib.captures, fsAllocArr Piece 2 (Nat.succ_pos _)⟩
        some (if re.1.isSome then .ok else .error,
          re.2.set p (.http { http with routes := http.routes.push (.proxy proxy) }))
    | _ => lib.misused .httpProxyBlock c p

/-- The loop variables of `fs_var_parse`: inside a reference, a piece is open, the pieces so
far. -/
structure VarState where
  isVariable : Bool
  opened : Bool
  pieces : List Piece

/-- Append a byte to the open piece, which is opened first if need be. -/
def VarState.put (size : Nat) (s : VarState) (chr : UInt8) : VarState :=
  if s.opened then
    match s.pieces.getLast? with
    | some piece =>
      { s with pieces := s.pieces.dropLast ++ [{ piece with text := piece.text ++ [chr] }] }
    | none => s
  else { s with opened := true, pieces := s.pieces ++ [⟨size + 1, [chr]⟩] }

/-- One turn of `fs_var_parse`; `none` is `FS_VAR_ERROR`. -/
def varByte (size : Nat) (s : VarState) (chr : UInt8) : Option VarState :=
  if chr == fsChrDOLLAR then some ({ s with isVariable := true, opened := false }.put size chr)
  else if chr == fsChrLCBRACK then
    if s.isVariable then some (s.put size chr) else none
  else if chr == fsChrRCBRACK then
    if s.isVariable then some { (s.put size chr) with isVariable := false, opened := false } else none
  else some (s.put size chr)

/-- `fs_var_parse` on the bytes of a string: whether it succeeds, and the pieces it has
pushed. -/
def fsVarParse (size : Nat) : VarState → List UInt8 → Bool × List Piece
  | s, [] => (true, s.pieces)
  | s, chr :: rest =>
    match varByte size s chr with
    | none => (false, s.pieces)
    | some s => fsVarParse size s rest

/-- The bytes between `pos` and `last` of a string: its text, the NUL, and what lies behind. -/
def FsStr.span (lib : Lib) (s : FsStr) : List UInt8 :=
  (s.text ++ 0 :: (List.range (s.size - s.text.length - 1)).map (lib.behind s)).take s.size

/-- The pieces `fs_var_parse` cuts a token into. -/
def varPieces (lib : Lib) (s : FsStr) : Bool × List Piece :=
  fsVarParse s.size ⟨false, false, []⟩ (s.span lib)

/-- `fs_mod_http_proxy_cmd_pass_path`. -/
def fsModHttpProxyCmdPassPath (lib : Lib) (c : Engine) (p : Ptr) : Called :=
  if subtopMod c ≠ some .http then some (.pass, c.heap)
  else if c.tokens.eleCount ≠ 2 then some (.error, c.heap)
  else match c.heap.get p with
    | some (.http http) =>
      match http.lastRoute with
      | some (.proxy proxy) =>
        if proxy.passPath.eleCount ≠ 0 then some (.error, c.heap)
        else match c.tokens.nth 1 with
          | none => none
          | some token =>
            let r := varPieces lib token
            let proxy := { proxy with passPath := r.2.foldl FsArr.push proxy.passPath }
            some (if r.1 then .ok else .error,
              c.heap.set p (.http (http.setLast (.proxy proxy))))
      | _ => lib.misused .httpProxyPassPath c p
    | _ => lib.misused .httpProxyPassPath c p

end Folksong
