import TraceFS.Trfs.Ops

universe u

namespace TraceFS.Trfs

open TraceFS.Lib TraceFS.Linux TraceFS.Wrapfs

variable {σ : Type u} {K : Kernel σ} {T : Tracing} {P : PageSize}

def Call.dentries (K : Kernel σ) : Call → List Ptr
  | .readdir file _ | .open_ _ file => [K.fileDentry file]
  | .read .. | .write .. | .close .. => []
  | .mkdir _ dentry _ | .unlink _ dentry | .rmdir _ dentry => [dentry]
  | .link oldDentry _ newDentry | .rename _ oldDentry _ newDentry => [oldDentry, newDentry]

structure Tracing.Grants (K : Kernel σ) (T : Tracing) (c : Call) : Prop where
  record : T.recordAlloc = true
  path : T.pathAlloc = true
  newPath : T.newPathAlloc = true
  data : T.dataAlloc = true
  copy : T.copyAlloc = true
  work : T.workAlloc = true
  queue : T.queueAlloc = true
  fits : ∀ dentry ∈ c.dentries K, (T.dentryPathRaw dentry).isSome

def Records (ty : LogType) (x : Except OpFault (Exit σ)) : Prop :=
  ∃ e r buf, x = .ok e ∧ e.submitted = [⟨r, buf⟩] ∧ r.type = ty.toByte ∧ r.returnValue = e.ret

@[simp] theorem records_error (ty : LogType) (f : OpFault) :
    Records ty (.error f : Except OpFault (Exit σ)) ↔ False := by
  simp [Records]

@[simp] theorem records_none (ty : LogType) (ret : CInt) (s : σ) :
    Records ty (.ok ⟨ret, s, []⟩) ↔ False := by
  simp [Records]

@[simp] theorem records_one (ty : LogType) (ret : CInt) (s : σ) (r : Record) (buf : List Byte) :
    Records ty (.ok ⟨ret, s, [⟨r, buf⟩]⟩) ↔ r.type = ty.toByte ∧ r.returnValue = ret := by
  simp [Records]

/-- When a call is recorded, in terms of how its lower call and its interpose step turn out. -/
def Call.Recorded (K : Kernel σ) (T : Tracing) (P : PageSize) (s : σ) : Call → Prop
  | .readdir .. | .close .. | .unlink .. => True
  | .open_ _ file =>
    K.dUnhashed s (K.fileDentry file) = false ∧ (K.allocFileInfo file s).1 = true
  | .read file buf count ppos =>
    let err := (K.vfsRead (K.lowerFile s file) buf count ppos s).1
    0 ≤ err.toInt ∧
      if P.capacity ≤ (readRecord K file err s).recordSize.toNat then
        checkBit T.bitmap LogType.read.toByte = true
      else T.copyFault = false
  | .write file buf count ppos =>
    let err := (K.vfsWrite (K.lowerFile s file) buf count ppos s).1
    0 ≤ err.toInt ∧
      if P.capacity ≤ (writeRecord K file err s).recordSize.toNat then
        checkBit T.bitmap LogType.write.toByte = true
      else T.copyFault = false
  | .mkdir dir dentry mode =>
    let e := mkdirLower K dentry mode s
    e.err ≠ 0 ∨ (mkdirInterpose K dir dentry e).1 = 0
  | .link oldDentry _ newDentry => ¬ (linkLower K oldDentry newDentry s).Stops K
  | .rename _ oldDentry _ newDentry => (renameLock K oldDentry newDentry s).trapped = none
  | .rmdir _ dentry => (rmdirLower K dentry s).err = 0

section Granted

variable {c : Call} (hT : T.Grants K c)
include hT

theorem Tracing.Grants.eworkqueueInit (r : Record) (buf : List Byte) :
    eworkqueueInit T r buf = .ok [⟨r, buf⟩] := by
  simp [eworkqueueInit_eq, Tracing.queued, hT.work, hT.queue]

theorem Tracing.Grants.dentryPath (dentry : Ptr) (hd : dentry ∈ c.dentries K) :
    ∃ p, dentryPath T dentry = .ok p := by
  obtain ⟨p, hp⟩ := Option.isSome_iff_exists.mp (hT.fits dentry hd)
  exact ⟨p, by rw [Trfs.dentryPath, hp]⟩

theorem Tracing.Grants.tracePath (dentry : Ptr) (hd : dentry ∈ c.dentries K)
    (record : TmpPath → Record) :
    ∃ p, tracePath T dentry record = .ok (.next [⟨record p, []⟩]) := by
  obtain ⟨p, hp⟩ := hT.dentryPath dentry hd
  exact ⟨p, by simp [Trfs.tracePath, hp, hT.record, hT.path, hT.eworkqueueInit, Except.map]⟩

theorem Tracing.Grants.tracePaths (oldDentry newDentry : Ptr) (ho : oldDentry ∈ c.dentries K)
    (hn : newDentry ∈ c.dentries K) (record : TmpPath → TmpPath → Record) :
    ∃ p q, tracePaths T oldDentry newDentry record = .ok (.next [⟨record p q, []⟩]) := by
  obtain ⟨p, hp⟩ := hT.dentryPath oldDentry ho
  obtain ⟨q, hq⟩ := hT.dentryPath newDentry hn
  refine ⟨p, q, ?_⟩
  simp [Trfs.tracePaths, hp, hq, hT.record, hT.path, hT.newPath, hT.eworkqueueInit, Except.map]

theorem Tracing.Grants.transfer_records (ty : LogType) {r : Record} (hty : r.type = ty.toByte)
    (buf : Ptr) (s : σ) :
    Records ty ((traceTransfer T P r buf r.returnValue).map fun out => ⟨out.1, s, out.2⟩) ↔
      if P.capacity ≤ r.recordSize.toNat then checkBit T.bitmap ty.toByte = true
      else T.copyFault = false := by
  by_cases hlarge : P.capacity ≤ r.recordSize.toNat
  · cases hbit : checkBit T.bitmap ty.toByte <;>
      simp [traceTransfer, hlarge, hbit, hT.record, hT.queue, hT.eworkqueueInit, hty, Except.map]
  · cases hfault : T.copyFault <;>
      simp [traceTransfer, hlarge, hfault, hT.record, hT.data, hT.copy, hT.eworkqueueInit, hty,
        Except.map]

end Granted

section File

variable {file : Ptr} (s : σ)

theorem trfsReaddir_records {ctx : Ptr} (hT : T.Grants K (.readdir file ctx)) :
    Records .readdir (trfsReaddir K T file ctx s) := by
  obtain ⟨p, hp⟩ := hT.dentryPath (K.fileDentry file) (by simp [Call.dentries])
  simp [trfsReaddir, hp, hT.record, hT.path, readdirRecord]

theorem trfsOpen_records {inode : Ptr} (hT : T.Grants K (.open_ inode file)) :
    Records .open_ (trfsOpen K T file inode s) ↔ (Call.open_ inode file).Recorded K T P s := by
  obtain ⟨p, hp⟩ := hT.dentryPath (K.fileDentry file) (by simp [Call.dentries])
  simp only [trfsOpen, Call.Recorded, hp, hT.record, hT.path, hT.eworkqueueInit]
  cases K.dUnhashed s (K.fileDentry file) <;> cases (K.allocFileInfo file s).1 <;>
    simp [Except.map, openRecord]

theorem trfsRead_records {buf : Ptr} {count : BitVec 64} {ppos : Ptr}
    (hT : T.Grants K (.read file buf count ppos)) :
    Records .read (trfsRead K T P file buf count ppos s) ↔
      (Call.read file buf count ppos).Recorded K T P s := by
  simp only [trfsRead, Call.Recorded]
  split
  case isTrue herr =>
    simp only [herr, true_and]
    exact hT.transfer_records .read rfl buf _
  case isFalse herr => simp [herr]

theorem trfsWrite_records {buf : Ptr} {count : BitVec 64} {ppos : Ptr}
    (hT : T.Grants K (.write file buf count ppos)) :
    Records .write (trfsWrite K T P file buf count ppos s) ↔
      (Call.write file buf count ppos).Recorded K T P s := by
  simp only [trfsWrite, Call.Recorded]
  split
  case isTrue herr =>
    simp only [herr, true_and]
    exact hT.transfer_records .write rfl buf _
  case isFalse herr => simp [herr]

theorem trfsFlush_records {owner : Ptr} (hT : T.Grants K (.close file owner)) :
    Records .close (trfsFlush K T file owner s) := by
  simp [trfsFlush, hT.record, hT.eworkqueueInit, Except.map, closeRecord]

end File

section Entry

variable {dir dentry : Ptr} (s : σ)

theorem trfsMkdir_records {mode : BitVec 16} (hT : T.Grants K (.mkdir dir dentry mode)) :
    Records .mkdir (trfsMkdir K T dir dentry mode s) ↔
      (Call.mkdir dir dentry mode).Recorded K T P s := by
  simp only [trfsMkdir, Call.Recorded]
  generalize mkdirLower K dentry mode s = e
  obtain ⟨p, hp⟩ := hT.tracePath dentry (by simp [Call.dentries])
    (mkdirRecord K dir mode e.err e.state)
  simp only [hp, mkdirRest]
  split
  case isTrue herr =>
    rw [records_one]
    exact iff_of_true ⟨rfl, rfl⟩ (.inl herr)
  case isFalse herr =>
    simp only [records_one, herr, false_or]
    constructor
    · rintro ⟨-, hret⟩
      exact hret.symm.trans (not_not.mp herr)
    · intro hret
      exact ⟨rfl, (not_not.mp herr).trans hret.symm⟩

theorem trfsUnlink_records (hT : T.Grants K (.unlink dir dentry)) :
    Records .unlink (trfsUnlink K T dir dentry s) := by
  rw [trfsUnlink]
  generalize unlinkLower K dir dentry s = e
  obtain ⟨p, hp⟩ := hT.tracePath dentry (by simp [Call.dentries])
    (unlinkRecord K dir e.err e.state)
  simp [hp, unlinkRecord]

theorem trfsRmdir_records (hT : T.Grants K (.rmdir dir dentry)) :
    Records .rmdir (trfsRmdir K T dir dentry s) ↔ (Call.rmdir dir dentry).Recorded K T P s := by
  simp only [trfsRmdir, Call.Recorded]
  generalize rmdirLower K dentry s = e
  obtain ⟨p, hp⟩ := hT.tracePath dentry (by simp [Call.dentries])
    (rmdirRecord K dir e.err e.state)
  by_cases herr : e.err = 0
  · rw [if_neg (not_not.mpr herr), hp, records_one]
    exact iff_of_true ⟨rfl, rfl⟩ herr
  · rw [if_pos herr, records_none]
    exact iff_of_false not_false herr

end Entry

theorem trfsLink_records {oldDentry dir newDentry : Ptr} (s : σ)
    (hT : T.Grants K (.link oldDentry dir newDentry)) :
    Records .link (trfsLink K T oldDentry dir newDentry s) ↔
      (Call.link oldDentry dir newDentry).Recorded K T P s := by
  simp only [trfsLink, Call.Recorded]
  generalize linkLower K oldDentry newDentry s = l
  by_cases hstop : l.Stops K
  · simp [hstop]
  · obtain ⟨p, q, hpq⟩ := hT.tracePaths oldDentry newDentry (by simp [Call.dentries])
      (by simp [Call.dentries])
      (linkRecord K T dir (linkInterpose K dir newDentry l).1 (linkInterpose K dir newDentry l).2)
    simp [hstop, hpq, linkRecord]

theorem trfsRename_records {oldDir oldDentry newDir newDentry : Ptr} (s : σ)
    (hT : T.Grants K (.rename oldDir oldDentry newDir newDentry)) :
    Records .rename (trfsRename K T oldDir oldDentry newDir newDentry s) ↔
      (Call.rename oldDir oldDentry newDir newDentry).Recorded K T P s := by
  simp only [trfsRename, Call.Recorded]
  generalize renameLock K oldDentry newDentry s = l
  cases l.trapped with
  | some err => simp
  | none =>
    obtain ⟨p, q, hpq⟩ := hT.tracePaths oldDentry newDentry (by simp [Call.dentries])
      (by simp [Call.dentries])
      (renameRecord K oldDir (renameLower K l).1 (renameLower K l).2)
    simp [hpq, renameRecord]

/-- With every allocation granted, a call is recorded once and with the value that it returns
exactly when it takes none of the exits that leave tracing out and its interpose step does not
change the value after the record was queued. -/
theorem recorded_iff (K : Kernel σ) (T : Tracing) (P : PageSize) (c : Call) (s : σ)
    (hT : T.Grants K c) :
    (∃ e r buf, c.trfs K T P s = .ok e ∧ e.submitted = [⟨r, buf⟩] ∧
        r.type = c.logType.toByte ∧ r.returnValue = e.ret) ↔ c.Recorded K T P s := by
  cases c with
  | readdir file ctx => exact iff_of_true (trfsReaddir_records s hT) trivial
  | open_ inode file => exact trfsOpen_records s hT
  | read file buf count ppos => exact trfsRead_records s hT
  | write file buf count ppos => exact trfsWrite_records s hT
  | close file owner => exact iff_of_true (trfsFlush_records s hT) trivial
  | mkdir dir dentry mode => exact trfsMkdir_records s hT
  | unlink dir dentry => exact iff_of_true (trfsUnlink_records s hT) trivial
  | link oldDentry dir newDentry => exact trfsLink_records s hT
  | rename oldDir oldDentry newDir newDentry => exact trfsRename_records s hT
  | rmdir dir dentry => exact trfsRmdir_records s hT

theorem plenty_grants (K : Kernel σ) (c : Call) : Tracing.plenty.Grants K c where
  record := rfl
  path := rfl
  newPath := rfl
  data := rfl
  copy := rfl
  work := rfl
  queue := rfl
  fits _ _ := rfl

theorem recorded_iff_mkdir :
    (∃ e r buf, (Call.mkdir 2 3 0o755).trfs (Kernel.inert : Kernel Unit) .plenty .small () = .ok e ∧
        e.submitted = [⟨r, buf⟩] ∧ r.type = (Call.mkdir 2 3 0o755).logType.toByte ∧
          r.returnValue = e.ret) ↔
      (Call.mkdir 2 3 0o755).Recorded (Kernel.inert : Kernel Unit) .plenty .small () :=
  recorded_iff Kernel.inert .plenty .small (.mkdir 2 3 0o755) ()
    (plenty_grants Kernel.inert (.mkdir 2 3 0o755))

def Kernel.noInode : Kernel Unit := { Kernel.inert with interpose := fun _ _ _ s => (-ENOMEM, s) }

theorem mkdir_recorded_before_interpose :
    Tracing.plenty.Grants Kernel.noInode (.mkdir 2 3 0o755) ∧
      ¬ ∃ e r buf, (Call.mkdir 2 3 0o755).trfs Kernel.noInode .plenty .small () = .ok e ∧
        e.submitted = [⟨r, buf⟩] ∧ r.type = (Call.mkdir 2 3 0o755).logType.toByte ∧
          r.returnValue = e.ret := by
  refine ⟨plenty_grants _ _, ?_⟩
  rintro ⟨e, r, buf, hok, hsub, -, hret⟩
  cases hok
  cases hsub
  exact absurd hret (by decide)

end TraceFS.Trfs
