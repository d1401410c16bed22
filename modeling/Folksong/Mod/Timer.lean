import Folksong.Mod.Memory

/-!
# The version and the timer module (`fs_mod_version.c`, `fs_mod_timer.c`)
-/

namespace Folksong

/-! ### Version -/

/-- `fs_mod_version_init_mod`. -/
def fsModVersionInitMod (c : Engine) (_ : FsCmd Callback) : Option (Ret × Option Ptr × Heap) :=
  if c.used .version then some (.pass, none, c.heap)
  else some (.ok, some (c.heap.alloc (.version none)).1, (c.heap.alloc (.version none)).2)

/-- `fs_mod_version_init_mod_completed`. -/
def fsModVersionInitModCompleted (c : Engine) (_ : Ptr) : Called := some (.ok, c.heap)

/-- `fs_mod_verison_init`. -/
def fsModVersionInit (lib : Lib) (c : Engine) (p : Ptr) : Called :=
  match c.heap.get p with
  | some (.version _) => some (.ok, c.heap.set p (.version (some (bytes "folk song"))))
  | _ => lib.misused .versionInit c p

/-- The letters `fs_mod_version_art` makes the version write. -/
def fsModVersionArtText : List UInt8 :=
  bytes ("_____ ____  _     _  __   ____  ____  _      _____\n" ++
    "/    //  _ \\/ \\   / |/ /  / ___\\/  _ \\/ \\  /|/  __/\n" ++
    "|  __\\| / \\|| |   |   /   |    \\| / \\|| |\\ ||| |  _\n" ++
    "| |   | \\_/|| |_/\\|   \\   \\___ || \\_/|| | \\||| |_//\n" ++
    "\\_/   \\____/\\____/\\_|\\_\\  \\____/\\____/\\_/  \\|\\____\\ \n\n")

/-- `fs_mod_version_art`: a store to the first word of whatever the context points to. This is
the `data` pointer of the handle in a timer and in an http object, which nothing reads, and the
topics of a listener. -/
def fsModVersionArt (lib : Lib) (c : Engine) (p : Ptr) : Called :=
  match c.heap.get p with
  | some (.version _) => some (.ok, c.heap.set p (.version (some fsModVersionArtText)))
  | some (.timer _) | some (.http _) => some (.ok, c.heap)
  | some (.listener l) => some (.ok, c.heap.set p (.listener { l with topic := .wild }))
  | none => lib.misused .versionArt c p

/-! ### Timer -/

/-- `fs_mod_timer_init`. -/
def fsModTimerInit : Timer where
  timeout := 0
  rep := 0
  procOptions := none
  timeoutFlag := false
  repeatFlag := false
  cbFlag := false

/-- `fs_mod_timer_init_mod`. -/
def fsModTimerInitMod (c : Engine) (cmd : FsCmd Callback) : Option (Ret × Option Ptr × Heap) :=
  if cmd.call = .timerBlock then
    some (.ok, some (c.heap.alloc (.timer fsModTimerInit)).1,
      (c.heap.alloc (.timer fsModTimerInit)).2)
  else some (.error, none, c.heap)

/-- `fs_mod_timer_init_mod_completed`. -/
def fsModTimerInitModCompleted (lib : Lib) (c : Engine) (p : Ptr) : Called :=
  match c.heap.get p with
  | some (.timer t) =>
    if (!t.repeatFlag && !t.timeoutFlag) || !t.cbFlag then some (.error, c.heap)
    else some (.ok, c.heap)
  | _ => lib.misusedCompleted .timer c p

/-- `fs_mod_timer_block`. -/
def fsModTimerBlock (c : Engine) (_ : Ptr) : Called := some (.ok, c.heap)

def isDigit (b : UInt8) : Bool := 48 ≤ b && b ≤ 57

/-- The decimal number at the start of a text. -/
def leadingNumber (text : List UInt8) : Nat :=
  (text.takeWhile isDigit).foldl (fun n b => 10 * n + (b.toNat - 48)) 0

/-- `atoll` on a text that begins with decimal digits; it stops at `LLONG_MAX`. -/
def atoll (text : List UInt8) : Nat := min (leadingNumber text) (2 ^ 63 - 1)

/-- `fs_mod_timer_parse_time`: milliseconds in 64 bits; `none` is `FS_CONF_ERROR`. The text is
cut at the unit while `atoll` reads it and is then put together again. -/
def fsModTimerParseTime (time : List UInt8) : Option Nat :=
  let unit := time.dropWhile isDigit
  if unit = [] then some (atoll time)
  else if unit = bytes "ms" then some (atoll time)
  else if unit = bytes "s" then some (atoll time * 1000 % 2 ^ 64)
  else if unit = bytes "min" then some (atoll time * 1000 * 60 % 2 ^ 64)
  else if unit = bytes "hour" then some (atoll time * 1000 * 60 * 60 % 2 ^ 64)
  else if unit = bytes "day" then some (atoll time * 1000 * 60 * 60 * 24 % 2 ^ 64)
  else none

/-- What `timeout` and `repeat` share: which flag they look at, and what they store. -/
def timerCmdTime (k : Callback) (flag : Timer → Bool) (store : Timer → Nat → Timer) (lib : Lib)
    (c : Engine) (p : Ptr) : Called :=
  if topMod c ≠ some .timer then some (.pass, c.heap)
  else match c.heap.get p with
    | some (.timer t) =>
      if flag t then some (.error, c.heap)
      else if c.tokens.eleCount ≠ 2 then some (.error, c.heap)
      else match tokenText c 1 with
        | none => none
        | some text =>
          match fsModTimerParseTime text with
          | none => some (.error, c.heap)
          | some n => some (.ok, c.heap.set p (.timer (store t n)))
    | _ => lib.misused k c p

/-- `fs_mod_timer_cmd_timeout`. -/
def fsModTimerCmdTimeout : Lib → Engine → Ptr → Called :=
  timerCmdTime .timerTimeout Timer.timeoutFlag fun t n =>
    { t with timeout := n, timeoutFlag := true }

/-- `fs_mod_timer_cmd_repeat`. -/
def fsModTimerCmdRepeat : Lib → Engine → Ptr → Called :=
  timerCmdTime .timerRepeat Timer.repeatFlag fun t n =>
    { t with rep := n, repeatFlag := true }

/-- `fs_mod_timer_cmd_exec`. There is no telling what a `NULL` overwrites that is stored outside the
block of the vector. -/
def fsModTimerCmdExec (lib : Lib) (c : Engine) (p : Ptr) : Called :=
  if topMod c ≠ some .timer then some (.pass, c.heap)
  else match c.heap.get p with
    | some (.timer t) =>
      if (execArgs c.tokens).Fits lib then
        some (.ok, c.heap.set p
          (.timer { t with procOptions := some (execOptions c.tokens), cbFlag := true }))
      else none
    | _ => lib.misused .timerExec c p

end Folksong
