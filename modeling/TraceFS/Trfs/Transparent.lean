import TraceFS.Trfs.Ops

universe u

namespace TraceFS.Trfs

open TraceFS.Lib TraceFS.Linux TraceFS.Wrapfs

variable {σ : Type u} {K : Kernel σ} {T : Tracing} {P : PageSize}

def Agrees (x : Except OpFault (Exit σ)) (w : CInt × σ) : Prop :=
  ∃ submitted, x = .ok ⟨w.1, w.2, submitted⟩

@[simp] theorem agrees_error (f : OpFault) (w : CInt × σ) : Agrees (.error f) w ↔ False := by
  simp [Agrees]

@[simp] theorem agrees_ok (ret : CInt) (s : σ) (submitted : List Submission) (w : CInt × σ) :
    Agrees (.ok ⟨ret, s, submitted⟩) w ↔ ret = w.1 ∧ s = w.2 := by
  simp [Agrees]

@[simp] theorem agrees_queued (r : Record) (buf : List Byte) (ret : CInt) (s : σ) (w : CInt × σ) :
    Agrees ((eworkqueueInit T r buf).map fun submitted => ⟨ret, s, submitted⟩) w ↔
      T.workAlloc = true ∧ ret = w.1 ∧ s = w.2 := by
  rw [eworkqueueInit_eq]
  cases T.workAlloc <;> simp [Except.map]

theorem agrees_refused (out : σ → σ) (err : CInt) (s done : σ) :
    Agrees (.ok ⟨-ENOMEM, out s, []⟩) (err, out (if err = 0 then done else s)) ↔
      err = -ENOMEM := by
  rw [agrees_ok]
  constructor
  · rintro ⟨herr, -⟩
    exact herr.symm
  · rintro rfl
    exact ⟨rfl, by rw [if_neg (by decide)]⟩

/-- When tracing leaves a call alone, in terms of how its lower call and its interpose step turn
out. A refused allocation shows unless the operation was about to fail with `-ENOMEM` itself. -/
def Call.Unaffected (K : Kernel σ) (T : Tracing) (P : PageSize) (s : σ) : Call → Prop
  | .readdir file ctx =>
    T.recordAlloc = true ∧ (T.dentryPathRaw (K.fileDentry file)).isSome ∧
      (T.pathAlloc = true ∨ (K.iterateDir (K.lowerFile s file) ctx s).1 = -ENOMEM)
  | .open_ inode file =>
    K.dUnhashed s (K.fileDentry file) = false ∧ (K.allocFileInfo file s).1 = true ∧
      T.recordAlloc = true ∧ (T.dentryPathRaw (K.fileDentry file)).isSome ∧
      T.workAlloc = true ∧
      (T.pathAlloc = true ∨ (openLower K file inode (K.allocFileInfo file s).2).1 = -ENOMEM)
  | .read file buf count ppos =>
    let err := (K.vfsRead (K.lowerFile s file) buf count ppos s).1
    0 ≤ err.toInt → T.TransferTraced P (readRecord K file err s)
  | .write file buf count ppos =>
    let err := (K.vfsWrite (K.lowerFile s file) buf count ppos s).1
    0 ≤ err.toInt → T.TransferTraced P (writeRecord K file err s)
  | .close file owner =>
    T.recordAlloc = true ∧ T.workAlloc = true ∨
      T.recordAlloc = false ∧ (wrapfsFlush K file owner s).1 = -ENOMEM
  | .mkdir dir dentry mode =>
    let e := mkdirLower K dentry mode s
    T.PathTraced dentry ∨ T.PathRefused dentry ∧
      (e.err = -ENOMEM ∨ e.err = 0 ∧ (mkdirInterpose K dir dentry e).1 = -ENOMEM ∧
        entryOut K dentry e e.state = entryOut K dentry e (mkdirInterpose K dir dentry e).2)
  | .unlink dir dentry =>
    T.PathTraced dentry ∨ T.PathRefused dentry ∧ (unlinkLower K dir dentry s).err = -ENOMEM
  | .link oldDentry dir newDentry =>
    let l := linkLower K oldDentry newDentry s
    l.Stops K ∨ T.PathsTraced oldDentry newDentry ∨
      T.PathsRefused oldDentry newDentry ∧ (linkInterpose K dir newDentry l).1 = -ENOMEM
  | .rename _ oldDentry _ newDentry =>
    let l := renameLock K oldDentry newDentry s
    l.trapped.isSome ∨ T.PathsTraced oldDentry newDentry ∨
      T.PathsRefused oldDentry newDentry ∧ (renameLower K l).1 = -ENOMEM
  | .rmdir _ dentry => (rmdirLower K dentry s).err ≠ 0 ∨ T.PathTraced dentry

theorem trfsReaddir_agrees (file ctx : Ptr) (s : σ) :
    Agrees (trfsReaddir K T file ctx s) (wrapfsReaddir K file ctx s) ↔
      (Call.readdir file ctx).Unaffected K T P s := by
  simp only [trfsReaddir, wrapfsReaddir, Call.Unaffected, dentryPath]
  generalize K.iterateDir (K.lowerFile s file) ctx s = call
  have hcomm : -ENOMEM = call.1 ↔ call.1 = -ENOMEM := eq_comm
  cases T.recordAlloc
  · simp
  cases T.dentryPathRaw (K.fileDentry file)
  · simp
  by_cases herr : 0 ≤ call.1.toInt <;> cases T.pathAlloc <;> simp [herr, hcomm]

theorem trfsOpen_agrees (file inode : Ptr) (s : σ) :
    Agrees (trfsOpen K T file inode s) (wrapfsOpen K file inode s) ↔
      (Call.open_ inode file).Unaffected K T P s := by
  simp only [trfsOpen, wrapfsOpen, Call.Unaffected, dentryPath]
  generalize openLower K file inode (K.allocFileInfo file s).2 = opened
  have hcomm : -ENOMEM = opened.1 ↔ opened.1 = -ENOMEM := eq_comm
  cases K.dUnhashed s (K.fileDentry file)
  case true => simp
  cases (K.allocFileInfo file s).1
  · simp
  cases T.recordAlloc
  · simp
  cases T.dentryPathRaw (K.fileDentry file)
  · simp
  cases T.pathAlloc <;> simp [hcomm]

theorem traceTransfer_agrees (r : Record) (buf : Ptr) {err : CInt} (herr : 0 ≤ err.toInt)
    (s : σ) :
    Agrees ((traceTransfer T P r buf err).map fun out => ⟨out.1, s, out.2⟩) (err, s) ↔
      T.TransferTraced P r := by
  rcases traceTransfer_cases (T := T) P r buf err with
    ⟨hT, heq⟩ | ⟨hT, ⟨f, heq⟩ | ⟨err', hneg, heq⟩⟩
  · simp [heq, hT, Except.map]
  · simp [heq, hT, Except.map]
  · have hne : err' ≠ err := by
      rintro rfl
      omega
    simp [heq, hT, Except.map, hne]

theorem trfsRead_agrees (file buf : Ptr) (count : BitVec 64) (ppos : Ptr) (s : σ) :
    Agrees (trfsRead K T P file buf count ppos s) (wrapfsRead K file buf count ppos s) ↔
      (Call.read file buf count ppos).Unaffected K T P s := by
  unfold trfsRead wrapfsRead
  simp only [Call.Unaffected]
  split
  case isTrue herr =>
    rw [traceTransfer_agrees _ _ herr]
    simp only [herr, true_implies]
    rfl
  case isFalse herr => simp [herr]

theorem trfsWrite_agrees (file buf : Ptr) (count : BitVec 64) (ppos : Ptr) (s : σ) :
    Agrees (trfsWrite K T P file buf count ppos s) (wrapfsWrite K file buf count ppos s) ↔
      (Call.write file buf count ppos).Unaffected K T P s := by
  unfold trfsWrite wrapfsWrite
  simp only [Call.Unaffected]
  split
  case isTrue herr =>
    rw [traceTransfer_agrees _ _ herr]
    simp only [herr, true_implies]
    rfl
  case isFalse herr => simp [herr]

theorem trfsFlush_agrees (file owner : Ptr) (s : σ) :
    Agrees (trfsFlush K T file owner s) (wrapfsFlush K file owner s) ↔
      (Call.close file owner).Unaffected K T P s := by
  have hsame : trfsFlush K T file owner s =
      let out := wrapfsFlush K file owner s
      if T.recordAlloc = false then .ok ⟨-ENOMEM, out.2, []⟩
      else (eworkqueueInit T (closeRecord K file out.1 out.2) []).map fun submitted =>
        ⟨out.1, out.2, submitted⟩ := rfl
  simp only [hsame, Call.Unaffected]
  have hcomm : -ENOMEM = (wrapfsFlush K file owner s).1 ↔
      (wrapfsFlush K file owner s).1 = -ENOMEM := eq_comm
  cases T.recordAlloc <;> simp [hcomm]

theorem trfsLink_agrees (oldDentry dir newDentry : Ptr) (s : σ) :
    Agrees (trfsLink K T oldDentry dir newDentry s) (wrapfsLink K oldDentry dir newDentry s) ↔
      (Call.link oldDentry dir newDentry).Unaffected K T P s := by
  unfold trfsLink wrapfsLink
  simp only [Call.Unaffected]
  by_cases hstop : (linkLower K oldDentry newDentry s).Stops K
  · simp [hstop]
  simp only [hstop, if_false, false_or]
  generalize linkInterpose K dir newDentry (linkLower K oldDentry newDentry s) = call
  rcases tracePaths_cases (T := T) oldDentry newDentry (linkRecord K T dir call.1 call.2) with
    ⟨hT, p, q, -, -, heq⟩ | ⟨hT, hR, heq⟩ | ⟨hT, hR, f, heq⟩
  · simp [heq, hT]
  · simp only [heq, hT, hR, false_or, true_and]
    exact agrees_refused (linkOut K oldDentry newDentry _) call.1 call.2 _
  · simp [heq, hT, hR]

theorem trfsUnlink_agrees (dir dentry : Ptr) (s : σ) :
    Agrees (trfsUnlink K T dir dentry s) (wrapfsUnlink K dir dentry s) ↔
      (Call.unlink dir dentry).Unaffected K T P s := by
  unfold trfsUnlink wrapfsUnlink
  simp only [Call.Unaffected]
  generalize unlinkLower K dir dentry s = e
  rcases tracePath_cases (T := T) dentry (unlinkRecord K dir e.err e.state) with
    ⟨hT, p, -, heq⟩ | ⟨hT, hR, heq⟩ | ⟨hT, hR, f, heq⟩
  · simp [heq, hT]
  · simp only [heq, hT, hR, false_or, true_and]
    exact agrees_refused (unlinkOut K dentry e) e.err e.state _
  · simp [heq, hT, hR]

theorem trfsMkdir_agrees (dir dentry : Ptr) (mode : BitVec 16) (s : σ) :
    Agrees (trfsMkdir K T dir dentry mode s) (wrapfsMkdir K dir dentry mode s) ↔
      (Call.mkdir dir dentry mode).Unaffected K T P s := by
  unfold trfsMkdir wrapfsMkdir
  simp only [Call.Unaffected]
  generalize mkdirLower K dentry mode s = e
  rcases tracePath_cases (T := T) dentry (mkdirRecord K dir mode e.err e.state) with
    ⟨hT, p, -, heq⟩ | ⟨hT, hR, heq⟩ | ⟨hT, hR, f, heq⟩
  · simp [heq, hT]
  · simp only [heq, hT, hR, agrees_ok, false_or, true_and, mkdirRest]
    split
    case isTrue herr =>
      simp only [herr, false_and, or_false, and_true]
      exact eq_comm
    case isFalse herr =>
      have hne : 0 ≠ -ENOMEM := by decide
      simp only [not_not.mp herr, hne, false_or, true_and]
      constructor
      · rintro ⟨hnomem, hstate⟩
        rw [← hnomem, if_neg hne.symm] at hstate
        exact ⟨hnomem.symm, hstate⟩
      · rintro ⟨hnomem, hstate⟩
        rw [hnomem, if_neg hne.symm]
        exact ⟨rfl, hstate⟩
  · simp [heq, hT, hR]

theorem trfsRmdir_agrees (dir dentry : Ptr) (s : σ) :
    Agrees (trfsRmdir K T dir dentry s) (wrapfsRmdir K dir dentry s) ↔
      (Call.rmdir dir dentry).Unaffected K T P s := by
  unfold trfsRmdir wrapfsRmdir
  simp only [Call.Unaffected]
  generalize rmdirLower K dentry s = e
  by_cases herr : e.err = 0
  · have hne : -ENOMEM ≠ 0 := by decide
    simp only [herr, ne_eq, not_true_eq_false, if_false, false_or]
    rcases tracePath_cases (T := T) dentry (rmdirRecord K dir 0 e.state) with
      ⟨hT, p, -, heq⟩ | ⟨hT, hR, heq⟩ | ⟨hT, hR, f, heq⟩ <;>
      simp only [heq, hT, hne, agrees_ok, agrees_error, true_and, false_and]
  · simp only [herr, ne_eq, not_false_eq_true, if_true, true_or, agrees_ok, true_and]

theorem trfsRename_agrees (oldDir oldDentry newDir newDentry : Ptr) (s : σ) :
    Agrees (trfsRename K T oldDir oldDentry newDir newDentry s)
        (wrapfsRename K oldDir oldDentry newDir newDentry s) ↔
      (Call.rename oldDir oldDentry newDir newDentry).Unaffected K T P s := by
  unfold trfsRename wrapfsRename
  simp only [Call.Unaffected]
  generalize renameLock K oldDentry newDentry s = l
  cases l.trapped with
  | some err => simp
  | none =>
    simp only [Option.isSome_none, Bool.false_eq_true, false_or]
    generalize renameLower K l = call
    rcases tracePaths_cases (T := T) oldDentry newDentry (renameRecord K oldDir call.1 call.2) with
      ⟨hT, p, q, -, -, heq⟩ | ⟨hT, hR, heq⟩ | ⟨hT, hR, f, heq⟩
    · simp [heq, hT]
    · simp only [heq, hT, hR, false_or, true_and]
      exact agrees_refused (renameOut K oldDentry newDentry l) call.1 call.2 _
    · simp [heq, hT, hR]

theorem transparent_iff (K : Kernel σ) (T : Tracing) (P : PageSize) (c : Call) (s : σ) :
    (∃ submitted, c.trfs K T P s = .ok ⟨(c.wrapfs K s).1, (c.wrapfs K s).2, submitted⟩) ↔
      c.Unaffected K T P s := by
  cases c with
  | readdir file ctx => exact trfsReaddir_agrees file ctx s
  | open_ inode file => exact trfsOpen_agrees file inode s
  | read file buf count ppos => exact trfsRead_agrees file buf count ppos s
  | write file buf count ppos => exact trfsWrite_agrees file buf count ppos s
  | close file owner => exact trfsFlush_agrees file owner s
  | mkdir dir dentry mode => exact trfsMkdir_agrees dir dentry mode s
  | unlink dir dentry => exact trfsUnlink_agrees dir dentry s
  | link oldDentry dir newDentry => exact trfsLink_agrees oldDentry dir newDentry s
  | rename oldDir oldDentry newDir newDentry =>
    exact trfsRename_agrees oldDir oldDentry newDir newDentry s
  | rmdir dir dentry => exact trfsRmdir_agrees dir dentry s

theorem open_unhashed_faults :
    ¬ ∃ submitted,
      (Call.open_ 1 2).trfs { (Kernel.inert : Kernel Unit) with dUnhashed := fun _ _ => true }
          .plenty .small () =
        .ok ⟨((Call.open_ 1 2).wrapfs
            { (Kernel.inert : Kernel Unit) with dUnhashed := fun _ _ => true } ()).1,
          ((Call.open_ 1 2).wrapfs
            { (Kernel.inert : Kernel Unit) with dUnhashed := fun _ _ => true } ()).2, submitted⟩ := by
  simp [Call.trfs, trfsOpen]

end TraceFS.Trfs
