import Folksong.Core.Str

/-!
# The input buffer (`fs_buf.h`, `fs_file.c`)

`fs_file_t` joins the buffer the scanner reads from with the descriptor that refills it. A
refill starts again at the front of the buffer. A `fs_file_t` without a file (the command line)
has a zero size, so that its buffer is never refilled.
-/

namespace Folksong

/-- `FS_CONF_PAYLOAD_BUFFER_SIZE`. -/
def fsConfPayloadBufferSize : Nat := 4096

/-- `fs_file_t`: the memory of the buffer with the offsets of `pos` and `last` in it, the bytes
behind the descriptor, the size `fstat` reported and the offset of the next read. -/
structure FsFile where
  mem : List UInt8
  bufLen : Nat
  pos : Nat
  last : Nat
  content : List UInt8
  stSize : Nat
  off : Nat
  line : Nat
deriving DecidableEq

namespace FsFile

/-- `fs_file_buf_overflow`. -/
def bufOverflow (f : FsFile) : Bool := f.last ≤ f.pos

/-- `fs_file_done`. -/
def done (f : FsFile) : Bool := f.stSize ≤ f.off

/-- `fs_file_remain_size`. -/
def remainSize (f : FsFile) : Nat := f.stSize - f.off

/-- `fs_file_buf_lshift`: the byte at `pos`, and `pos` moved past it. Reading behind the end of
the memory is undefined. -/
def bufLshift (f : FsFile) : Option (UInt8 × FsFile) :=
  (f.mem[f.pos]?).map fun c => (c, { f with pos := f.pos + 1 })

/-- `fs_file_read_in_buf`: the bytes at offset `off` go to the front of the buffer. -/
def readInBuf (f : FsFile) (size : Nat) : Nat × FsFile :=
  let got := (f.content.drop f.off).take size
  (got.length,
    { f with mem := got ++ f.mem.drop got.length, pos := 0, last := got.length,
             off := f.off + got.length })

/-- The number of bytes `fs_file_read` asks for. -/
def readTarget (f : FsFile) (size : Nat) : Nat := if f.bufLen < size then f.bufLen else size

end FsFile

/-- How the reads at each offset of a file end. `false` stands for every way in which
`fs_file_read` answers `FS_FILE_ERROR` although the bytes are there: a failing `lseek` or
`read`, a short read, or a success, which leaves the variable `err` unset, with the error code in
that variable. -/
abbrev ReadOutcome := Nat → Bool

/-- `fs_file_read`; `none` is `FS_FILE_ERROR`. -/
def fsFileRead (io : ReadOutcome) (f : FsFile) (size : Nat) : Option FsFile :=
  if io f.off && (f.readInBuf (f.readTarget size)).1 == f.readTarget size then
    some (f.readInBuf (f.readTarget size)).2
  else none

/-- The `fs_file_t` of `fs_conf_parse` for a file with these bytes. The buffer has just been
allocated, `mem` being what the memory holds, and counts as used up. -/
def FsFile.opened (content mem : List UInt8) : FsFile where
  mem := mem
  bufLen := fsConfPayloadBufferSize
  pos := fsConfPayloadBufferSize
  last := fsConfPayloadBufferSize
  content := content
  stSize := content.length
  off := 0
  line := 1

/-- A text held in one buffer, as `fs_conf_parse_cmdline` sets it up for a string: everything
else of the zeroed `fs_file_t` is zero. -/
def FsFile.ofBuf (mem : List UInt8) (last : Nat) : FsFile where
  mem := mem
  bufLen := 0
  pos := 0
  last := last
  content := []
  stSize := 0
  off := 0
  line := 1

end Folksong
