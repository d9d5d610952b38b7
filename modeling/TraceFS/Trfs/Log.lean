import TraceFS.Trfs.Record

namespace TraceFS.Trfs

open TraceFS.Lib TraceFS.Linux

inductive WriteOutcome where
  | all
  | short (count : Nat)
  | error (errno : CInt)
  deriving DecidableEq

def WriteOutcome.taken : WriteOutcome → Nat → Nat
  | .all, size => size
  | .short count, size => min count size
  | .error _, _ => 0

def WriteOutcome.ret : WriteOutcome → Nat → CInt
  | .error errno, _ => -errno
  | o, size => BitVec.ofNat 32 (o.taken size)

@[simp] theorem WriteOutcome.taken_all (size : Nat) : WriteOutcome.all.taken size = size := rfl

theorem WriteOutcome.taken_le (o : WriteOutcome) (size : Nat) : o.taken size ≤ size := by
  cases o <;> simp [taken]

/-- `struct trace_info`, less its mutex. `filp` is the trace file's contents; it is opened
with `O_TRUNC` and written through `offset` only, so that `offset` is always its end. -/
structure TraceInfo (P : PageSize) where
  filp : List Byte
  offset : Nat
  bitmap : BitVec 64
  buffer : Buffer P.capacity
  bufferOffset : BitVec 32
  atEnd : offset = filp.length

def TraceInfo.pending (t : TraceInfo P) : List Byte := t.buffer.bytes.take t.bufferOffset.toNat

def TraceInfo.stream (t : TraceInfo P) : List Byte := t.filp ++ t.pending

structure SbInfo (P : PageSize) where
  trInfo : TraceInfo P
  lastId : BitVec 32

def SbInfo.fresh (P : PageSize) : SbInfo P where
  trInfo :=
    { filp := []
      offset := 0
      bitmap := 0xFFFFFFFF
      buffer := .zero P.capacity
      bufferOffset := 0
      atEnd := rfl }
  lastId := 0

inductive Fault where
  | overrun
  | badSource
  deriving DecidableEq

def vfsWrite (t : TraceInfo P) (data : List Byte) (o : WriteOutcome) : TraceInfo P × CInt :=
  let taken := data.take (o.taken data.length)
  ({ t with
      filp := pwrite t.filp t.offset taken
      offset := t.offset + taken.length
      atEnd := by simp [t.atEnd] }, o.ret data.length)

/-- `file_write` of the buffer, and `buffer_offset = 0` whatever it returned. -/
def flushBuffer (t : TraceInfo P) (o : WriteOutcome) : TraceInfo P × CInt :=
  let out := vfsWrite t t.pending o
  ({ out.1 with bufferOffset := 0 }, out.2)

structure Copy where
  src : Option (List Byte)
  len : Nat

def Copy.word {w : Nat} (x : BitVec w) : Copy := ⟨some (le x), sizeof x⟩

def Copy.bytes (c : Copy) : List Byte := pointee c.src c.len

/-- The source has `len` bytes; copying none is fine from any pointer. -/
def Copy.Readable (c : Copy) : Prop := c.len ≤ (c.src.getD []).length

instance (c : Copy) : Decidable c.Readable := inferInstanceAs (Decidable (_ ≤ _))

def TraceInfo.memcpy (t : TraceInfo P) (c : Copy) : Except Fault (TraceInfo P) :=
  if hfit : t.bufferOffset.toNat + c.len ≤ P.capacity then
    if hsrc : c.Readable then
      .ok { t with
        buffer := t.buffer.blit t.bufferOffset.toNat c.bytes (by
          have : c.bytes.length ≤ c.len := List.length_take_le _ _
          omega)
        bufferOffset := t.bufferOffset + BitVec.ofNat 32 c.len }
    else .error .badSource
  else .error .overrun

def TraceInfo.memcpyAll (t : TraceInfo P) : List Copy → Except Fault (TraceInfo P)
  | [] => .ok t
  | c :: cs => t.memcpy c >>= fun t => t.memcpyAll cs

def logRecordCommon (r : Record) : List Copy :=
  [.word r.id, .word r.type, .word r.returnValue, .word r.fileAddress]

def switchCopies (r : Record) : LogType → List Copy
  | .readdir => [.word r.pathLength, ⟨r.path, r.pathLength.toNat⟩]
  | .open_ =>
    [.word r.pathLength, ⟨r.path, r.pathLength.toNat⟩, .word r.openFlags, .word r.permMode]
  | .read | .write => [.word r.dataLength, ⟨r.data, r.dataLength.toNat⟩]
  | .close => []
  | .mkdir => [.word r.pathLength, ⟨r.path, r.pathLength.toNat⟩, .word r.permMode]
  | .unlink => [.word r.pathLength, ⟨r.path, r.pathLength.toNat⟩]
  | .link =>
    [.word r.pathLength, ⟨r.path, r.pathLength.toNat⟩,
      .word r.newPathLength, ⟨r.newPath, r.newPathLength.toNat⟩]
  | .rename =>
    [.word r.pathLength, ⟨r.path, r.pathLength.toNat⟩,
      .word r.newPathLength, ⟨r.newPath, r.newPathLength.toNat⟩]
  | .rmdir => [.word r.pathLength, ⟨r.path, r.pathLength.toNat⟩]

def Record.HeaderOnly (r : Record) : Prop :=
  (r.type = LogType.read.toByte ∨ r.type = LogType.write.toByte) ∧ r.logRwLarge = 1

instance (r : Record) : Decidable r.HeaderOnly := inferInstanceAs (Decidable (_ ∧ _))

/-- Everything `sync_log_record` copies for a record that is no flush request, and what it
returns after a flush that returned `err`. -/
def syncCopies (r : Record) (err : CInt) : List Copy × CInt :=
  if r.HeaderOnly then (logRecordCommon r ++ [.word r.dataLength], err)
  else
    match LogType.ofByte r.type with
    | some ty => (logRecordCommon r ++ switchCopies r ty, err)
    | none => (logRecordCommon r, -EINVAL)

/-- The test `buffer_offset + record_size >= 2 * PAGE_SIZE`: a sum of two `unsigned int`. -/
def TraceInfo.WouldFill (t : TraceInfo P) (r : Record) : Prop :=
  P.capacity ≤ (t.bufferOffset + r.recordSize).toNat

instance (t : TraceInfo P) (r : Record) : Decidable (t.WouldFill r) :=
  inferInstanceAs (Decidable (_ ≤ _))

def TraceInfo.makeRoom (t : TraceInfo P) (r : Record) (o : WriteOutcome) : TraceInfo P × CInt :=
  if t.WouldFill r then flushBuffer t o else (t, 0)

def syncLogRecord (t : TraceInfo P) (r : Record) (o : WriteOutcome) :
    Except Fault (TraceInfo P × CInt) :=
  if r.flushBufferSig = 1 then .ok ((flushBuffer t o).1, 0)
  else
    let out := syncCopies r (t.makeRoom r o).2
    ((t.makeRoom r o).1.memcpyAll out.1).map fun t => (t, out.2)

/-- `CHECK_BIT`: `1 << operation` is an `int`, shifted by the low five bits of the type and
sign-extended to the width of the bitmap. -/
def checkBit (bitmap : BitVec 64) (operation : Byte) : Bool :=
  bitmap &&& ((1 : BitVec 32) <<< (operation.toNat % 32)).signExtend 64 != 0

def logRecord (sb : SbInfo P) (r : Record) (o : WriteOutcome) : Except Fault (SbInfo P × CInt) :=
  if r.flushBufferSig ≠ 1 ∧ checkBit sb.trInfo.bitmap r.type = false then .ok (sb, -1)
  else
    let next :=
      if r.flushBufferSig ≠ 1 then (r.withId sb.lastId, sb.lastId + 1) else (r, sb.lastId)
    (syncLogRecord sb.trInfo next.1 o).map fun out => (⟨out.1, next.2⟩, 0)

/-- The record that `thread_fn` allocates once and logs as its flush request. -/
def flushRequest : Record := { Record.zero with flushBufferSig := 1 }

def threadRound (sb : SbInfo P) (o : WriteOutcome) : Except Fault (SbInfo P × CInt) :=
  if 0 < sb.trInfo.bufferOffset.toNat then logRecord sb flushRequest o else .ok (sb, 0)

/-- The locked part of the large path of `trfs_read` and `trfs_write`: flush the buffer, then
write the user's data straight to the trace file. -/
def writeLarge (sb : SbInfo P) (buf : List Byte) (dataLength : BitVec 64)
    (flushed data : WriteOutcome) : SbInfo P :=
  let t := (flushBuffer sb.trInfo flushed).1
  { sb with trInfo := (vfsWrite t (buf.take dataLength.toNat) data).1 }

inductive BitmapIoctl where
  | setAll
  | setOpt (arg : BitVec 64)
  deriving DecidableEq

def BitmapIoctl.value : BitmapIoctl → BitVec 64
  | .setAll => 0xFFFFFFFF
  | .setOpt arg => arg

def ioctlBitmap (sb : SbInfo P) (cmd : BitmapIoctl) : SbInfo P :=
  { sb with trInfo := { sb.trInfo with bitmap := cmd.value } }

def umountFlush (sb : SbInfo P) (o : WriteOutcome) : SbInfo P :=
  { sb with trInfo := (flushBuffer sb.trInfo o).1 }

end TraceFS.Trfs
