import TraceFS.Treplay.Reader

namespace TraceFS.Treplay

open TraceFS.Lib TraceFS.Linux

structure FileMap where
  fileAddr : BitVec 64
  fileD : CInt
  deriving DecidableEq

def mapAdd (map : List FileMap) (fileAddress : BitVec 64) (fd : CInt) : List FileMap :=
  map ++ [⟨fileAddress, fd⟩]

/-- The first entry for the address counts. -/
def mapFind (map : List FileMap) (fileAddress : BitVec 64) : CInt :=
  match map.find? (·.fileAddr = fileAddress) with
  | some e => e.fileD
  | none => -1

inductive Syscall where
  | open_ (path : List Byte) (flags mode : CInt)
  | read (fd : CInt) (count : BitVec 64)
  | write (fd : CInt) (data : List Byte) (count : BitVec 64)
  | close (fd : CInt)
  | mkdir (path : List Byte) (mode : CInt)
  | unlink (path : List Byte)
  | link (path newPath : List Byte)
  | rename (path newPath : List Byte)
  | rmdir (path : List Byte)
  deriving DecidableEq

inductive ReplayFault where
  | nullString
  | pathOverflow
  deriving DecidableEq

def cstr (bs : List Byte) : List Byte := bs.takeWhile (· ≠ 0)

/-- `strcat` of `cwd` and a path into one of the two arrays of 4096 bytes. -/
def buildPath (cwd : List Byte) (path : Option (List Byte)) : Except ReplayFault (List Byte) :=
  match path with
  | none => .error .nullString
  | some path =>
    let built := cstr cwd ++ cstr path
    if built.length < 4096 then .ok built else .error .pathOverflow

/-- The call that a record leads to. A descriptor of -1 is noticed and used all the same. -/
def replayCall (cwd : List Byte) (map : List FileMap) (r : Record) :
    Except ReplayFault (Option Syscall) :=
  match LogType.ofByte r.type with
  | some .checkReaddir | none => .ok none
  | some .checkOpen => do
    let openPath ← buildPath cwd r.path
    return some (.open_ openPath r.openFlags r.permMode)
  | some .checkRead => .ok (some (.read (mapFind map r.fileAddress) r.dataLength))
  | some .checkWrite =>
    .ok (some (.write (mapFind map r.fileAddress) ((r.data.getD []).take r.dataLength.toNat)
      r.dataLength))
  | some .checkClose => .ok (some (.close (mapFind map r.fileAddress)))
  | some .checkMkdir => do
    let openPath ← buildPath cwd r.path
    return some (.mkdir openPath r.permMode)
  | some .checkUnlink => do
    let openPath ← buildPath cwd r.path
    return some (.unlink openPath)
  | some .checkLink => do
    let openPath ← buildPath cwd r.path
    let newOpenPath ← buildPath cwd r.newPath
    return some (.link openPath newOpenPath)
  | some .checkRename => do
    let openPath ← buildPath cwd r.path
    let newOpenPath ← buildPath cwd r.newPath
    return some (.rename openPath newOpenPath)
  | some .checkRmdir => do
    let openPath ← buildPath cwd r.path
    return some (.rmdir openPath)

def replayReturn (map : List FileMap) (r : Record) (ret : CInt) : List FileMap × CInt :=
  match LogType.ofByte r.type with
  | some .checkReaddir | none => (map, 0)
  | some .checkOpen =>
    if ret.toInt < -1 then (map, -1) else (mapAdd map r.fileAddress ret, 0)
  | some .checkRead | some .checkWrite | some .checkClose | some .checkMkdir | some .checkUnlink
  | some .checkLink | some .checkRename | some .checkRmdir => (map, ret)

end TraceFS.Treplay
