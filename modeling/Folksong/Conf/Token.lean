import Folksong.Core.Arr
import Folksong.Core.File

/-!
# The scanner (`fs_conf_next_token`)

One call reads one directive. Its local flags are the fields of `Scan`; `scanByte` is one turn
of the loop, in the order of the source. A token that has ended is copied out of the buffer by
`takeToken`, which works on buffer offsets: `tokenStart` still means the place it meant when it
was set, also after the buffer has been refilled.
-/

namespace Folksong

/-- The `FS_CONF_*` codes a call of the scanner answers. -/
inductive Status where
  | ok | blockStart | blockEnd | fileDone | error
deriving DecidableEq, Repr

/-- The flags of `fs_conf_next_token` that live across bytes. -/
structure Scan where
  sharp : Bool
  quoted : Bool
  dQuote : Bool
  sQuote : Bool
  vacancy : Bool
  needSpace : Bool
  isVariable : Bool
  tokenStart : Nat
deriving DecidableEq, Repr

/-- The flags at the start of a call. -/
def Scan.start : Scan where
  sharp := false
  quoted := false
  dQuote := false
  sQuote := false
  vacancy := true
  needSpace := false
  isVariable := false
  tokenStart := 0

/-- What one byte does: go on, end a token and go on, or return. -/
inductive Turn where
  | next (s : Scan)
  | found (s : Scan)
  | ret (st : Status)
deriving DecidableEq

def isSpace (c : UInt8) : Bool :=
  c == fsChrCR || c == fsChrSPACE || c == fsChrLF || c == fsChrTAB

/-- The branch `if (vacancy)`: the byte before `pos` comes between two words. -/
def scanVacancy (s : Scan) (chr : UInt8) (pos : Nat) : Turn :=
  if isSpace chr then .next s
  else if chr == fsChrSEM then .ret .ok
  else if chr == fsChrLCBRACK then .ret .blockStart
  else if chr == fsChrRCBRACK then .ret .blockEnd
  else if chr == fsChrSHARP then .next { s with sharp := true }
  else if chr == fsChrESCAPE then
    .next { s with tokenStart := pos, vacancy := false, quoted := true }
  else if chr == fsChrDQUO then
    .next { s with tokenStart := pos, dQuote := true, vacancy := false }
  else if chr == fsChrSQUO then
    .next { s with tokenStart := pos, sQuote := true, vacancy := false }
  else if chr == fsChrDOLLAR then
    .next { s with tokenStart := pos - 1, isVariable := true, vacancy := false }
  else .next { s with tokenStart := pos - 1, vacancy := false }

/-- The branch `else` of `if (vacancy)`: a word is open, or a closing quote has just been read. -/
def scanWord (s : Scan) (chr : UInt8) : Turn :=
  if chr == fsChrLCBRACK && s.isVariable then .next s
  else if chr == fsChrESCAPE then .next { s with isVariable := false, quoted := true }
  else if chr == fsChrDOLLAR then .next { s with isVariable := true }
  else if s.dQuote then
    if chr == fsChrDQUO then
      .found { s with isVariable := false, dQuote := false, needSpace := true }
    else .next { s with isVariable := false }
  else if s.sQuote then
    if chr == fsChrSQUO then
      .found { s with isVariable := false, sQuote := false, needSpace := true }
    else .next { s with isVariable := false }
  else if isSpace chr || chr == fsChrSEM || chr == fsChrLCBRACK then
    .found { s with isVariable := false, vacancy := true }
  else .next { s with isVariable := false }

/-- One turn of the loop of `fs_conf_next_token`; `pos` is the buffer offset after the byte. -/
def scanByte (s : Scan) (chr : UInt8) (pos : Nat) : Turn :=
  let s := if chr == fsChrLF then { s with sharp := false } else s
  if s.sharp then .next s
  else if s.quoted then .next { s with quoted := false }
  else if s.needSpace && isSpace chr then .next { s with vacancy := true, needSpace := false }
  else if s.needSpace && chr == fsChrSEM then .ret .ok
  else if s.needSpace && chr == fsChrLCBRACK then .ret .blockStart
  else if s.vacancy then scanVacancy s chr pos
  else scanWord s chr

/-- One turn of the decode loop: the byte stored at `dst` and how far `src` moves, for the byte
at `src` and the one after it. -/
def decodeByte (c d : UInt8) : UInt8 × Nat :=
  if c == fsChrESCAPE then
    if d == fsChrDQUO || d == fsChrSQUO || d == fsChrESCAPE then (d, 2)
    else if d == 116 then (fsChrTAB, 2)
    else if d == 114 then (fsChrCR, 2)
    else if d == 110 then (fsChrLF, 2)
    else (c, 1)
  else (c, 1)

/-- The decode loop, on the memory from `src` on, of which `n` bytes lie before the delimiter.
The loop looks one byte ahead, at the last turn at the delimiter itself. -/
def decode : List UInt8 → Nat → List UInt8
  | _, 0 => []
  | [], _ + 1 => []
  | [c], _ + 1 => [c]
  | c :: d :: mem, n + 1 =>
    if (decodeByte c d).2 = 2 then (decodeByte c d).1 :: decode mem (n - 1)
    else (decodeByte c d).1 :: decode (d :: mem) n

/-- The token between `tokenStart` and the delimiter just before `pos`. `fs_buf_alloc` asks for
one byte more than lies between the two; where that is not positive the code writes outside
the allocation, which is undefined. -/
def takeToken (mem : List UInt8) (tokenStart delim : Nat) : Option FsStr :=
  if tokenStart ≤ delim then
    some ⟨decode (mem.drop tokenStart) (delim - tokenStart), delim - tokenStart + 1⟩
  else none

/-- The decode loop stores at most one byte for each byte it reads. -/
lemma decode_length_le (mem : List UInt8) (n : Nat) : (decode mem n).length ≤ n := by
  fun_induction decode mem n with
  | case1 => exact Nat.le_refl 0
  | case2 => exact Nat.zero_le _
  | case3 c n => exact Nat.succ_le_succ (Nat.zero_le n)
  | case4 c d mem n _ ih =>
    simp only [List.length_cons]
    omega
  | case5 c d mem n _ ih => exact Nat.succ_le_succ ih

/-- What the scanner cuts out of the buffer is a token. -/
lemma takeToken_isToken {mem : List UInt8} {tokenStart delim : Nat} {token : FsStr}
    (h : takeToken mem tokenStart delim = some token) : token.IsToken := by
  rw [takeToken, Option.ite_none_right_eq_some] at h
  obtain ⟨-, h⟩ := h
  cases h
  exact Nat.lt_succ_of_le (decode_length_le _ _)

/-- How a call of `fs_conf_next_token` ends. -/
inductive Taken where
  | ret (st : Status) (file : FsFile) (tokens : FsArr FsStr)
  | undefined

/-- The overflow test at the top of the loop. -/
inductive Refill where
  | done
  | failed
  | go (file : FsFile)

def refill (io : ReadOutcome) (f : FsFile) : Refill :=
  if f.bufOverflow then
    if f.done then .done
    else match fsFileRead io f f.remainSize with
      | none => .failed
      | some f' => .go f'
  else .go f

/-- `fs_file_line(conf->file)++` at every line feed. -/
def FsFile.countLine (f : FsFile) (chr : UInt8) : FsFile :=
  if chr == fsChrLF then { f with line := f.line + 1 } else f

/-- The loop of `fs_conf_next_token`. Each turn takes one byte of the input, so the number of
bytes left bounds the turns. -/
def nextTokenLoop (io : ReadOutcome) : Nat → Scan → FsFile → FsArr FsStr → Taken
  | 0, _, _, _ => .undefined
  | fuel + 1, s, f, tokens =>
    match refill io f with
    | .done => .ret .fileDone f tokens
    | .failed => .ret .error f tokens
    | .go f =>
      match f.bufLshift with
      | none => .undefined
      | some (chr, f) =>
        match scanByte s chr f.pos with
        | .next s => nextTokenLoop io fuel s (f.countLine chr) tokens
        | .ret st => .ret st (f.countLine chr) tokens
        | .found s =>
          match takeToken f.mem s.tokenStart (f.pos - 1) with
          | none => .undefined
          | some token =>
            if chr == fsChrSEM then .ret .ok (f.countLine chr) (tokens.push token)
            else if chr == fsChrLCBRACK then .ret .blockStart (f.countLine chr) (tokens.push token)
            else nextTokenLoop io fuel s (f.countLine chr) (tokens.push token)

/-- The bytes a `fs_file_t` has yet to deliver. -/
def FsFile.remaining (f : FsFile) : Nat := (f.last - f.pos) + (f.stSize - f.off)

/-- `fs_conf_next_token`. -/
def fsConfNextToken (io : ReadOutcome) (f : FsFile) (tokens : FsArr FsStr) : Taken :=
  nextTokenLoop io (f.remaining + 1) Scan.start f tokens.reset

/-- What one call of the scanner gives its caller: the status with the tokens, or no defined
result at all. -/
inductive Reply where
  | taken (st : Status) (tokens : List FsStr)
  | undefined
deriving DecidableEq, Repr

/-- Does the caller read on after this status? -/
def Status.isDirective : Status → Bool
  | .ok | .blockStart | .blockEnd => true
  | .fileDone | .error => false

/-- The replies of repeated calls, up to the one that ends the input. -/
def tokenize (io : ReadOutcome) : Nat → FsFile → FsArr FsStr → List Reply
  | 0, _, _ => []
  | n + 1, f, tokens =>
    match fsConfNextToken io f tokens with
    | .undefined => [.undefined]
    | .ret st f' tokens' =>
      .taken st tokens'.toList :: (if st.isDirective then tokenize io n f' tokens' else [])

end Folksong
