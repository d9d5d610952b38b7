import TraceFS.Lib.Bytes
import TraceFS.Linux.Kernel

namespace TraceFS.Trfs

open TraceFS.Lib TraceFS.Linux

/-- `PAGE_SIZE`; the architectures of the kernel have pages of 4 KiB up to 1 MiB. -/
structure PageSize where
  bytes : Nat
  min_le : 4096 ≤ bytes
  le_max : bytes ≤ 2 ^ 20

def PageSize.small : PageSize := ⟨4096, by decide, by decide⟩

def PageSize.capacity (P : PageSize) : Nat := 2 * P.bytes

theorem PageSize.capacity_ge (P : PageSize) : 8192 ≤ P.capacity := by
  have := P.min_le
  unfold capacity
  omega

theorem PageSize.capacity_le (P : PageSize) : P.capacity ≤ 2 ^ 21 := by
  have := P.le_max
  unfold capacity
  omega

/-- `enum log_types`: the constructor's index is the bit of the operation in the bitmap. -/
inductive LogType where
  | readdir | open_ | read | write | close | mkdir | unlink | link | rename | rmdir
  deriving DecidableEq, Repr

def LogType.toByte : LogType → Byte
  | .readdir => 0
  | .open_ => 1
  | .read => 2
  | .write => 3
  | .close => 4
  | .mkdir => 5
  | .unlink => 6
  | .link => 7
  | .rename => 8
  | .rmdir => 9

def LogType.ofByte (b : Byte) : Option LogType :=
  match b.toNat with
  | 0 => some .readdir
  | 1 => some .open_
  | 2 => some .read
  | 3 => some .write
  | 4 => some .close
  | 5 => some .mkdir
  | 6 => some .unlink
  | 7 => some .link
  | 8 => some .rename
  | 9 => some .rmdir
  | _ => none

@[simp] theorem LogType.ofByte_toByte (ty : LogType) : LogType.ofByte ty.toByte = some ty := by
  cases ty <;> rfl

theorem LogType.toByte_ofByte (b : Byte) (ty : LogType) (h : LogType.ofByte b = some ty) :
    ty.toByte = b := by
  unfold LogType.ofByte at h
  split at h <;> cases h <;> rename_i hb <;> exact BitVec.eq_of_toNat_eq hb.symm

/-- `struct record`. A `char *` is `none` for NULL and else the memory it points to. -/
structure Record where
  id : BitVec 32
  type : Byte
  returnValue : CInt
  fileAddress : BitVec 64
  openFlags : CInt
  permMode : CInt
  pathLength : BitVec 16
  path : Option (List Byte)
  newPathLength : BitVec 16
  newPath : Option (List Byte)
  dataLength : BitVec 64
  data : Option (List Byte)
  recordSize : BitVec 32
  logRwLarge : Byte
  sbPrivate : BitVec 64
  flushBufferSig : Byte
  deriving DecidableEq

def Record.zero : Record where
  id := 0
  type := 0
  returnValue := 0
  fileAddress := 0
  openFlags := 0
  permMode := 0
  pathLength := 0
  path := none
  newPathLength := 0
  newPath := none
  dataLength := 0
  data := none
  recordSize := 0
  logRwLarge := 0
  sbPrivate := 0
  flushBufferSig := 0

def Record.withId (r : Record) (i : BitVec 32) : Record := { r with id := i }

def pointee (p : Option (List Byte)) (n : Nat) : List Byte := (p.getD []).take n

def Record.encCommon (r : Record) : List Byte :=
  le r.id ++ le r.type ++ le r.returnValue ++ le r.fileAddress

def Record.encFields (r : Record) : LogType → List Byte
  | .readdir | .unlink | .rmdir => le r.pathLength ++ pointee r.path r.pathLength.toNat
  | .open_ =>
    le r.pathLength ++ pointee r.path r.pathLength.toNat ++ le r.openFlags ++ le r.permMode
  | .read | .write => le r.dataLength ++ pointee r.data r.dataLength.toNat
  | .close => []
  | .mkdir => le r.pathLength ++ pointee r.path r.pathLength.toNat ++ le r.permMode
  | .link | .rename =>
    le r.pathLength ++ pointee r.path r.pathLength.toNat ++
      (le r.newPathLength ++ pointee r.newPath r.newPathLength.toNat)

def Record.enc? (r : Record) : Option (List Byte) :=
  (LogType.ofByte r.type).map fun ty => r.encCommon ++ r.encFields ty

def Record.enc (r : Record) : List Byte := r.enc?.getD []

end TraceFS.Trfs
