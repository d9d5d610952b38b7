import TraceFS.Trfs.Built

universe u

namespace TraceFS.Trfs

open TraceFS.Lib TraceFS.Linux

/-- The C string that `dentry_path_raw` leaves in the 1024 bytes of `tmp`. -/
structure TmpPath where
  chars : List Byte
  noNul : 0 ∉ chars
  fits : chars.length < 1024

theorem root_noNul : (0 : Byte) ∉ [(0x2F : Byte)] := by decide

theorem root_fits : [(0x2F : Byte)].length < 1024 := by decide

def TmpPath.root : TmpPath := ⟨[0x2F], root_noNul, root_fits⟩

def TmpPath.strlen (p : TmpPath) : BitVec 16 := BitVec.ofNat 16 p.chars.length

structure Tracing where
  /-- what `kmalloc` finds in the memory that it hands out -/
  heap : Record
  recordAlloc : Bool
  /-- `none` stands for an `ERR_PTR` -/
  dentryPathRaw : Ptr → Option TmpPath
  pathAlloc : Bool
  newPathAlloc : Bool
  dataAlloc : Bool
  copyAlloc : Bool
  user : Ptr → (n : Nat) → {bs : List Byte // bs.length = n}
  copyFault : Bool
  workAlloc : Bool
  /-- `eWq` is there or can be created -/
  queueAlloc : Bool
  bitmap : BitVec 64

def Tracing.plenty : Tracing where
  heap := .zero
  recordAlloc := true
  dentryPathRaw _ := some .root
  pathAlloc := true
  newPathAlloc := true
  dataAlloc := true
  copyAlloc := true
  user _ n := ⟨(Buffer.zero n).bytes, (Buffer.zero n).length_eq⟩
  copyFault := false
  workAlloc := true
  queueAlloc := true
  bitmap := 0xFFFFFFFF

structure Submission where
  record : Record
  buf : List Byte

inductive OpFault where
  | nullRecord
  | errString
  | nullWork
  | nullQueue
  deriving DecidableEq

structure Exit (σ : Type u) where
  ret : CInt
  state : σ
  submitted : List Submission

/-- How the tracing part leaves an operation: at the label `out` with another `err`, or going
on after the record was handed over. -/
inductive Traced where
  | out (err : CInt)
  | next (submitted : List Submission)

variable (T : Tracing)

/-- `eworkqueue_init`: without a queue, the record is dropped. -/
def eworkqueueInit (r : Record) (buf : List Byte) : Except OpFault (List Submission) :=
  if T.workAlloc = false then .error .nullWork
  else if T.queueAlloc = false then .ok []
  else .ok [⟨r, buf⟩]

/-- `strlen` of what `dentry_path_raw` returns goes through its error pointer too. -/
def dentryPath (dentry : Ptr) : Except OpFault TmpPath :=
  match T.dentryPathRaw dentry with
  | none => .error .errString
  | some p => .ok p

def tracePath (dentry : Ptr) (record : TmpPath → Record) : Except OpFault Traced :=
  if T.recordAlloc = false then .ok (.out (-ENOMEM))
  else
    match dentryPath T dentry with
    | .error f => .error f
    | .ok p =>
      if T.pathAlloc = false then .ok (.out (-ENOMEM))
      else (eworkqueueInit T (record p) []).map .next

def tracePaths (oldDentry newDentry : Ptr) (record : TmpPath → TmpPath → Record) :
    Except OpFault Traced :=
  if T.recordAlloc = false then .ok (.out (-ENOMEM))
  else
    match dentryPath T oldDentry with
    | .error f => .error f
    | .ok p =>
      if T.pathAlloc = false then .ok (.out (-ENOMEM))
      else
        match dentryPath T newDentry with
        | .error f => .error f
        | .ok q =>
          if T.newPathAlloc = false then .ok (.out (-ENOMEM))
          else (eworkqueueInit T (record p q) []).map .next

/-- The tracing part of a read or write that returned `err`, from the test for a large record
on; `r` has its `record_size`. -/
def traceTransfer (P : PageSize) (r : Record) (buf : Ptr) (err : CInt) :
    Except OpFault (CInt × List Submission) :=
  let data := (T.user buf r.dataLength.toNat).val
  if T.recordAlloc = false then .ok (-ENOMEM, [])
  else if P.capacity ≤ r.recordSize.toNat then
    if checkBit T.bitmap r.type = false then .ok (err, [])
    else
      match eworkqueueInit T { r with logRwLarge := 1 } data with
      | .error f => .error f
      -- `flush_workqueue(eWq)`
      | .ok submitted => if T.queueAlloc = false then .error .nullQueue else .ok (err, submitted)
  else if T.dataAlloc = false then .ok (-ENOMEM, [])
  else if T.copyAlloc = false then .ok (-ENOMEM, [])
  else if T.copyFault then .ok (-EFAULT, [])
  else (eworkqueueInit T { r with data := some data } data).map fun submitted => (err, submitted)

section Requests

def Tracing.PathTraced (dentry : Ptr) : Prop :=
  T.recordAlloc = true ∧ (T.dentryPathRaw dentry).isSome ∧ T.pathAlloc = true ∧ T.workAlloc = true

def Tracing.PathRefused (dentry : Ptr) : Prop :=
  T.recordAlloc = false ∨ (T.dentryPathRaw dentry).isSome ∧ T.pathAlloc = false

def Tracing.PathsTraced (oldDentry newDentry : Ptr) : Prop :=
  T.recordAlloc = true ∧ (T.dentryPathRaw oldDentry).isSome ∧ T.pathAlloc = true ∧
    (T.dentryPathRaw newDentry).isSome ∧ T.newPathAlloc = true ∧ T.workAlloc = true

def Tracing.PathsRefused (oldDentry newDentry : Ptr) : Prop :=
  T.recordAlloc = false ∨ (T.dentryPathRaw oldDentry).isSome ∧
    (T.pathAlloc = false ∨ (T.dentryPathRaw newDentry).isSome ∧ T.newPathAlloc = false)

def Tracing.TransferTraced (P : PageSize) (r : Record) : Prop :=
  T.recordAlloc = true ∧
    if P.capacity ≤ r.recordSize.toNat then
      checkBit T.bitmap r.type = true → T.workAlloc = true ∧ T.queueAlloc = true
    else
      T.dataAlloc = true ∧ T.copyAlloc = true ∧ T.copyFault = false ∧ T.workAlloc = true

def Tracing.queued (r : Record) (buf : List Byte) : List Submission :=
  if T.queueAlloc then [⟨r, buf⟩] else []

def Tracing.transferred (P : PageSize) (r : Record) (buf : Ptr) : List Submission :=
  let data := (T.user buf r.dataLength.toNat).val
  if P.capacity ≤ r.recordSize.toNat then
    if checkBit T.bitmap r.type then [⟨{ r with logRwLarge := 1 }, data⟩] else []
  else T.queued { r with data := some data } data

variable {T}

theorem eworkqueueInit_eq (r : Record) (buf : List Byte) :
    eworkqueueInit T r buf =
      if T.workAlloc then .ok (T.queued r buf) else .error .nullWork := by
  unfold eworkqueueInit Tracing.queued
  cases T.workAlloc <;> cases T.queueAlloc <;> rfl

theorem tracePath_cases (dentry : Ptr) (record : TmpPath → Record) :
    (T.PathTraced dentry ∧ ∃ p, T.dentryPathRaw dentry = some p ∧
        tracePath T dentry record = .ok (.next (T.queued (record p) []))) ∨
      (¬ T.PathTraced dentry ∧ T.PathRefused dentry ∧
        tracePath T dentry record = .ok (.out (-ENOMEM))) ∨
      (¬ T.PathTraced dentry ∧ ¬ T.PathRefused dentry ∧
        ∃ f, tracePath T dentry record = .error f) := by
  unfold tracePath Tracing.PathTraced Tracing.PathRefused dentryPath
  cases T.recordAlloc
  · simp
  cases T.dentryPathRaw dentry
  · simp
  cases T.pathAlloc
  · simp
  cases hw : T.workAlloc <;> simp [eworkqueueInit_eq, hw, Except.map]

theorem tracePaths_cases (oldDentry newDentry : Ptr) (record : TmpPath → TmpPath → Record) :
    (T.PathsTraced oldDentry newDentry ∧ ∃ p q, T.dentryPathRaw oldDentry = some p ∧
        T.dentryPathRaw newDentry = some q ∧
        tracePaths T oldDentry newDentry record = .ok (.next (T.queued (record p q) []))) ∨
      (¬ T.PathsTraced oldDentry newDentry ∧ T.PathsRefused oldDentry newDentry ∧
        tracePaths T oldDentry newDentry record = .ok (.out (-ENOMEM))) ∨
      (¬ T.PathsTraced oldDentry newDentry ∧ ¬ T.PathsRefused oldDentry newDentry ∧
        ∃ f, tracePaths T oldDentry newDentry record = .error f) := by
  unfold tracePaths Tracing.PathsTraced Tracing.PathsRefused dentryPath
  cases T.recordAlloc
  · simp
  cases T.dentryPathRaw oldDentry
  · simp
  cases T.pathAlloc
  · simp
  cases T.dentryPathRaw newDentry
  · simp
  cases T.newPathAlloc
  · simp
  cases hw : T.workAlloc <;> simp [eworkqueueInit_eq, hw, Except.map]

theorem traceTransfer_cases (P : PageSize) (r : Record) (buf : Ptr) (err : CInt) :
    (T.TransferTraced P r ∧ traceTransfer T P r buf err = .ok (err, T.transferred P r buf)) ∨
      (¬ T.TransferTraced P r ∧ ((∃ f, traceTransfer T P r buf err = .error f) ∨
        ∃ err', err'.toInt < 0 ∧ traceTransfer T P r buf err = .ok (err', []))) := by
  have hnomem : (-ENOMEM).toInt < 0 := by decide
  have hfault : (-EFAULT).toInt < 0 := by decide
  unfold traceTransfer Tracing.TransferTraced Tracing.transferred
  cases T.recordAlloc
  · exact .inr ⟨by simp, .inr ⟨_, hnomem, by simp⟩⟩
  by_cases hlarge : P.capacity ≤ r.recordSize.toNat
  · cases checkBit T.bitmap r.type
    · exact .inl (by simp [hlarge])
    · cases hw : T.workAlloc <;> cases hq : T.queueAlloc <;>
        simp [hlarge, eworkqueueInit_eq, hw, hq, Tracing.queued]
  · cases T.dataAlloc
    · exact .inr ⟨by simp [hlarge], .inr ⟨_, hnomem, by simp [hlarge]⟩⟩
    cases T.copyAlloc
    · exact .inr ⟨by simp [hlarge], .inr ⟨_, hnomem, by simp [hlarge]⟩⟩
    cases T.copyFault
    · cases hw : T.workAlloc <;> simp [hlarge, eworkqueueInit_eq, hw, Except.map]
    · exact .inr ⟨by simp [hlarge], .inr ⟨_, hfault, by simp [hlarge]⟩⟩

end Requests

end TraceFS.Trfs
