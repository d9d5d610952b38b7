import TraceFS.Lib.Bytes
import TraceFS.Linux.Kernel

namespace TraceFS.Treplay

open TraceFS.Lib TraceFS.Linux

inductive LogType where
  | checkReaddir | checkOpen | checkRead | checkWrite | checkClose | checkMkdir | checkUnlink
  | checkLink | checkRename | checkRmdir
  deriving DecidableEq

def LogType.ofByte (b : Byte) : Option LogType :=
  match b.toNat with
  | 0 => some .checkReaddir
  | 1 => some .checkOpen
  | 2 => some .checkRead
  | 3 => some .checkWrite
  | 4 => some .checkClose
  | 5 => some .checkMkdir
  | 6 => some .checkUnlink
  | 7 => some .checkLink
  | 8 => some .checkRename
  | 9 => some .checkRmdir
  | _ => none

/-- `struct record`. A `char *` is `none` for NULL and else the memory that `malloc` gave. -/
structure Record where
  id : BitVec 32
  type : Byte
  returnValue : CInt
  fileAddress : BitVec 64
  openFlags : CInt
  permMode : CInt
  pathLength : BitVec 16
  path : Option (List Byte)
  newPathLength : BitVec 16
  newPath : Option (List Byte)
  dataLength : BitVec 64
  data : Option (List Byte)
  recordSize : BitVec 32
  deriving DecidableEq

def Record.blank : Record where
  id := 0
  type := 0
  returnValue := 0
  fileAddress := 0
  openFlags := 0
  permMode := 0
  pathLength := 0
  path := none
  newPathLength := 0
  newPath := none
  dataLength := 0
  data := none
  recordSize := 0

structure Cursor (π : Type) where
  start : π
  index : π → Int
  advance : π → Nat → π
  /-- `offset < file_length` -/
  below : π → Nat → Bool

def Cursor.unbounded : Cursor Nat where
  start := 0
  index := Int.ofNat
  advance := (· + ·)
  below offset fileLength := decide (offset < fileLength)

section Read

variable {π : Type} (C : Cursor π) (content : List Byte)

/-- `memcpy(.., &content[offset], n); offset += n`, when those bytes are in the file. -/
def memcpy (n : Nat) : StateT π Option (List Byte) := fun offset =>
  if 0 ≤ C.index offset ∧ (C.index offset).toNat + n ≤ content.length then
    some ((content.drop (C.index offset).toNat).take n, C.advance offset n)
  else none

def readWord (w : Nat) (set : BitVec w → Record → Record) (r : Record) :
    StateT π Option Record := do
  let bytes ← memcpy C content (w / 8)
  return set (un w bytes) r

def readId : Record → StateT π Option Record :=
  readWord C content 32 fun x r => { r with id := x }

def readType : Record → StateT π Option Record :=
  readWord C content 8 fun x r => { r with type := x }

def readReturnValue : Record → StateT π Option Record :=
  readWord C content 32 fun x r => { r with returnValue := x }

def readFileAddress : Record → StateT π Option Record :=
  readWord C content 64 fun x r => { r with fileAddress := x }

def readOpenFlags : Record → StateT π Option Record :=
  readWord C content 32 fun x r => { r with openFlags := x }

def readPermMode : Record → StateT π Option Record :=
  readWord C content 32 fun x r => { r with permMode := x }

/-- The path gets a NUL behind it. -/
def readPath (r : Record) : StateT π Option Record := do
  let r ← readWord C content 16 (fun x r => { r with pathLength := x }) r
  let bytes ← memcpy C content r.pathLength.toNat
  return { r with path := some (bytes ++ [0]) }

def readNewPath (r : Record) : StateT π Option Record := do
  let r ← readWord C content 16 (fun x r => { r with newPathLength := x }) r
  let bytes ← memcpy C content r.newPathLength.toNat
  return { r with newPath := some (bytes ++ [0]) }

def readData (r : Record) : StateT π Option Record := do
  let r ← readWord C content 64 (fun x r => { r with dataLength := x }) r
  let bytes ← memcpy C content r.dataLength.toNat
  return { r with data := some (bytes ++ [0]) }

/-- The values that all records have; `path` and `data` start as NULL, `new_path` does not. -/
def readCommon (r : Record) : StateT π Option Record := do
  let r ← readId C content { r with path := none, data := none }
  let r ← readType C content r
  let r ← readReturnValue C content r
  readFileAddress C content r

def readFields (r : Record) : LogType → StateT π Option Record
  | .checkReaddir => readPath C content r
  | .checkOpen => do
    let r ← readPath C content r
    let r ← readOpenFlags C content r
    readPermMode C content r
  | .checkRead => readData C content r
  | .checkWrite => readData C content r
  | .checkClose => return r
  | .checkMkdir => do
    let r ← readPath C content r
    readPermMode C content r
  | .checkUnlink => readPath C content r
  | .checkLink => do
    let r ← readPath C content r
    readNewPath C content r
  | .checkRename => do
    let r ← readPath C content r
    readNewPath C content r
  | .checkRmdir => readPath C content r

def readRecord (r : Record) : StateT π Option Record := do
  let r ← readCommon C content r
  match LogType.ofByte r.type with
  | some ty => readFields C content r ty
  | none => return r

inductive Stuck where
  | outOfBounds
  | outOfFuel
  deriving DecidableEq

/-- The loop of `main`, for at most so many rounds: the values of the one `struct record` after
each round, and the place where the loop ends. -/
def decodeLoop : Nat → Record → π → Except Stuck (List Record × π)
  | 0, _, _ => .error .outOfFuel
  | fuel + 1, r, offset =>
    if C.below offset content.length then
      match readRecord C content r offset with
      | none => .error .outOfBounds
      | some (r, offset) => (decodeLoop fuel r offset).map fun out => (r :: out.1, out.2)
    else .ok ([], offset)

variable {C content}

theorem decodeLoop_cases {fuel : Nat} {r : Record} {offset end_ : π} {rs : List Record}
    (h : decodeLoop C content (fuel + 1) r offset = .ok (rs, end_)) :
    (C.below offset content.length = false ∧ rs = [] ∧ end_ = offset) ∨
      (C.below offset content.length = true ∧ ∃ r' offset' rs',
        readRecord C content r offset = some (r', offset') ∧
          decodeLoop C content fuel r' offset' = .ok (rs', end_) ∧ rs = r' :: rs') := by
  rw [decodeLoop] at h
  split at h
  case isFalse hend =>
    cases h
    exact .inl ⟨Bool.eq_false_iff.mpr hend, rfl, rfl⟩
  case isTrue hbelow =>
    cases hread : readRecord C content r offset with
    | none =>
      rw [hread] at h
      cases h
    | some out =>
      obtain ⟨r', offset'⟩ := out
      rw [hread] at h
      dsimp only at h
      cases hloop : decodeLoop C content fuel r' offset' with
      | error f =>
        rw [hloop] at h
        cases h
      | ok out =>
        rw [hloop] at h
        cases h
        exact .inr ⟨hbelow, r', offset', out.1, rfl, hloop, rfl⟩

variable (C content)

/-- A round reads at least the header, so that no file has more rounds than bytes. -/
def decodeFile (r : Record) : Except Stuck (List Record × π) :=
  decodeLoop C content (content.length + 1) r C.start

end Read

end TraceFS.Treplay
