import TraceFS.Linux.Kernel

/-! The operations of WRAPFS that TRFS traces. Each is cut where the other file system splices
its tracing in, and the pieces are lines that both have. -/

universe u

namespace TraceFS.Wrapfs

open TraceFS.Linux

variable {σ : Type u} (K : Kernel σ)

section File

variable (file : Ptr)

def wrapfsRead (buf : Ptr) (count : BitVec 64) (ppos : Ptr) (s : σ) : CInt × σ :=
  let lowerFile := K.lowerFile s file
  let call := K.vfsRead lowerFile buf count ppos s
  if 0 ≤ call.1.toInt then
    (call.1, K.copyAttrAtime (K.dInode call.2 (K.fileDentry file))
      (K.fileInode call.2 lowerFile) call.2)
  else call

def wrapfsWrite (buf : Ptr) (count : BitVec 64) (ppos : Ptr) (s : σ) : CInt × σ :=
  let lowerFile := K.lowerFile s file
  let call := K.vfsWrite lowerFile buf count ppos s
  if 0 ≤ call.1.toInt then
    let dentry := K.fileDentry file
    let sized := K.copyInodeSize (K.dInode call.2 dentry) (K.fileInode call.2 lowerFile) call.2
    (call.1, K.copyAttrTimes (K.dInode sized dentry) (K.fileInode sized lowerFile) sized)
  else call

def wrapfsReaddir (ctx : Ptr) (s : σ) : CInt × σ :=
  let lowerFile := K.lowerFile s file
  let call := K.iterateDir lowerFile ctx s
  let moved := K.copyFPos file lowerFile call.2
  if 0 ≤ call.1.toInt then
    (call.1, K.copyAttrAtime (K.dInode moved (K.fileDentry file))
      (K.fileInode moved lowerFile) moved)
  else (call.1, moved)

def openLower (inode : Ptr) (s : σ) : CInt × σ :=
  let lowerPath := K.getLowerPath (K.fileDentry file) s
  let opened := K.dentryOpen lowerPath.1 (K.fFlags lowerPath.2 file) lowerPath.2
  let put := K.pathPut lowerPath.1 opened.2
  let linked : CInt × σ :=
    match opened.1 with
    | .error err =>
      if K.lowerFile put file = NULL then (err, put)
      else (err, K.fput (K.lowerFile put file) (K.setLowerFile file NULL put))
    | .ok lowerFile => (0, K.setLowerFile file lowerFile put)
  if linked.1 = 0 then (0, K.copyAttrAll inode (K.lowerInode linked.2 inode) linked.2)
  else (linked.1, K.freeFileInfo file linked.2)

def wrapfsOpen (inode : Ptr) (s : σ) : CInt × σ :=
  if K.dUnhashed s (K.fileDentry file) then (-ENOENT, s)
  else if (K.allocFileInfo file s).1 = false then (-ENOMEM, (K.allocFileInfo file s).2)
  else openLower K file inode (K.allocFileInfo file s).2

def wrapfsFlush (owner : Ptr) (s : σ) : CInt × σ :=
  let lowerFile := K.lowerFile s file
  if lowerFile ≠ NULL ∧ K.hasFlush s lowerFile then
    K.flush lowerFile owner (K.filemapWriteAndWait file s)
  else (0, s)

end File

section Link

structure Linking (σ : Type u) where
  fileSizeSave : BitVec 64
  lowerOld : Path
  lowerNew : Path
  lowerDir : Ptr
  err : CInt
  state : σ

variable (oldDentry dir newDentry : Ptr)

def linkLower (s : σ) : Linking σ :=
  let lowerOld := K.getLowerPath oldDentry s
  let lowerNew := K.getLowerPath newDentry lowerOld.2
  let lowerDir := K.lockParent lowerNew.1.dentry lowerNew.2
  let call := K.vfsLink lowerOld.1.dentry (K.dInode lowerDir.2 lowerDir.1) lowerNew.1.dentry
    lowerDir.2
  { fileSizeSave := K.iSizeRead s (K.dInode s oldDentry)
    lowerOld := lowerOld.1
    lowerNew := lowerNew.1
    lowerDir := lowerDir.1
    err := call.1
    state := call.2 }

/-- The test for the early exit: the lower link failed or left its dentry negative. -/
def Linking.Stops (l : Linking σ) : Prop :=
  l.err ≠ 0 ∨ K.dInode l.state l.lowerNew.dentry = NULL

instance (l : Linking σ) : Decidable (l.Stops K) := inferInstanceAs (Decidable (_ ∨ _))

def linkInterpose (l : Linking σ) : CInt × σ :=
  K.interpose newDentry (K.iSb l.state dir) l.lowerNew l.state

def linkDone (l : Linking σ) (s : σ) : σ :=
  let s := K.copyAttrTimes dir (K.dInode s l.lowerNew.dentry) s
  let s := K.copyInodeSize dir (K.dInode s l.lowerNew.dentry) s
  let inode := K.dInode s oldDentry
  let s := K.setNlink inode (K.iNlink s (K.lowerInode s inode)) s
  K.iSizeWrite (K.dInode s newDentry) l.fileSizeSave s

def linkOut (l : Linking σ) (s : σ) : σ :=
  let s := K.unlockDir l.lowerDir s
  let s := K.putLowerPath oldDentry l.lowerOld s
  K.putLowerPath newDentry l.lowerNew s

def wrapfsLink (s : σ) : CInt × σ :=
  let l := linkLower K oldDentry newDentry s
  if l.Stops K then (l.err, linkOut K oldDentry newDentry l l.state)
  else
    let call := linkInterpose K dir newDentry l
    (call.1, linkOut K oldDentry newDentry l
      (if call.1 = 0 then linkDone K oldDentry dir newDentry l call.2 else call.2))

end Link

structure Entry (σ : Type u) where
  lowerPath : Path
  lowerDir : Ptr
  err : CInt
  state : σ

section Entry

variable (dir dentry : Ptr)

def unlinkLower (s : σ) : Entry σ :=
  let lowerPath := K.getLowerPath dentry s
  let lowerDir := K.lockParent lowerPath.1.dentry (K.dget lowerPath.1.dentry lowerPath.2)
  let call := K.vfsUnlink (K.lowerInode s dir) lowerPath.1.dentry lowerDir.2
  { lowerPath := lowerPath.1
    lowerDir := lowerDir.1
    -- NFS deletes a silly-renamed file later on
    err := if call.1 = -EBUSY ∧ K.nfsRenamed call.2 lowerPath.1.dentry then 0 else call.1
    state := call.2 }

/-- `lower_dir_inode` was read when the operation started, in state `s₀`. -/
def unlinkDone (s₀ s : σ) : σ :=
  let lowerDirInode := K.lowerInode s₀ dir
  let s := K.copyAttrTimes dir lowerDirInode s
  let s := K.copyInodeSize dir lowerDirInode s
  let inode := K.dInode s dentry
  let s := K.setNlink inode (K.iNlink s (K.lowerInode s inode)) s
  let s := K.copyCtime (K.dInode s dentry) dir s
  K.dDrop dentry s

def unlinkOut (e : Entry σ) (s : σ) : σ :=
  let s := K.unlockDir e.lowerDir s
  let s := K.dput e.lowerPath.dentry s
  K.putLowerPath dentry e.lowerPath s

def wrapfsUnlink (s : σ) : CInt × σ :=
  let e := unlinkLower K dir dentry s
  (e.err, unlinkOut K dentry e (if e.err = 0 then unlinkDone K dir dentry s e.state else e.state))

def mkdirLower (mode : BitVec 16) (s : σ) : Entry σ :=
  let lowerPath := K.getLowerPath dentry s
  let lowerDir := K.lockParent lowerPath.1.dentry lowerPath.2
  let call := K.vfsMkdir (K.dInode lowerDir.2 lowerDir.1) lowerPath.1.dentry mode lowerDir.2
  { lowerPath := lowerPath.1, lowerDir := lowerDir.1, err := call.1, state := call.2 }

def mkdirInterpose (e : Entry σ) : CInt × σ :=
  K.interpose dentry (K.iSb e.state dir) e.lowerPath e.state

def mkdirDone (e : Entry σ) (s : σ) : σ :=
  let s := K.copyAttrTimes dir (K.lowerInode s dir) s
  let s := K.copyInodeSize dir (K.dInode s e.lowerDir) s
  K.setNlink dir (K.iNlink s (K.lowerInode s dir)) s

def entryOut (e : Entry σ) (s : σ) : σ :=
  let s := K.unlockDir e.lowerDir s
  K.putLowerPath dentry e.lowerPath s

def mkdirRest (e : Entry σ) : CInt × σ :=
  if e.err ≠ 0 then (e.err, entryOut K dentry e e.state)
  else
    let call := mkdirInterpose K dir dentry e
    (call.1, entryOut K dentry e (if call.1 = 0 then mkdirDone K dir e call.2 else call.2))

def wrapfsMkdir (mode : BitVec 16) (s : σ) : CInt × σ :=
  mkdirRest K dir dentry (mkdirLower K dentry mode s)

def rmdirLower (s : σ) : Entry σ :=
  let lowerPath := K.getLowerPath dentry s
  let lowerDir := K.lockParent lowerPath.1.dentry lowerPath.2
  let call := K.vfsRmdir (K.dInode lowerDir.2 lowerDir.1) lowerPath.1.dentry lowerDir.2
  { lowerPath := lowerPath.1, lowerDir := lowerDir.1, err := call.1, state := call.2 }

def rmdirDone (e : Entry σ) (s : σ) : σ :=
  let s := K.dDrop dentry s
  let s := if K.dInode s dentry = NULL then s else K.clearNlink (K.dInode s dentry) s
  let s := K.copyAttrTimes dir (K.dInode s e.lowerDir) s
  let s := K.copyInodeSize dir (K.dInode s e.lowerDir) s
  K.setNlink dir (K.iNlink s (K.dInode s e.lowerDir)) s

def wrapfsRmdir (s : σ) : CInt × σ :=
  let e := rmdirLower K dentry s
  if e.err ≠ 0 then (e.err, entryOut K dentry e e.state)
  else (e.err, entryOut K dentry e (rmdirDone K dir dentry e e.state))

end Entry

section Rename

structure Renaming (σ : Type u) where
  lowerOld : Path
  lowerNew : Path
  lowerOldDir : Ptr
  lowerNewDir : Ptr
  trap : Ptr
  state : σ

variable (oldDir oldDentry newDir newDentry : Ptr)

def renameLock (s : σ) : Renaming σ :=
  let lowerOld := K.getLowerPath oldDentry s
  let lowerNew := K.getLowerPath newDentry lowerOld.2
  let lowerOldDir := K.dgetParent lowerOld.1.dentry lowerNew.2
  let lowerNewDir := K.dgetParent lowerNew.1.dentry lowerOldDir.2
  let trap := K.lockRename lowerOldDir.1 lowerNewDir.1 lowerNewDir.2
  { lowerOld := lowerOld.1
    lowerNew := lowerNew.1
    lowerOldDir := lowerOldDir.1
    lowerNewDir := lowerNewDir.1
    trap := trap.1
    state := trap.2 }

def Renaming.trapped (l : Renaming σ) : Option CInt :=
  if l.trap = l.lowerOld.dentry then some (-EINVAL)
  else if l.trap = l.lowerNew.dentry then some (-ENOTEMPTY)
  else none

def renameLower (l : Renaming σ) : CInt × σ :=
  K.vfsRename (K.dInode l.state l.lowerOldDir) l.lowerOld.dentry
    (K.dInode l.state l.lowerNewDir) l.lowerNew.dentry l.state

def renameDone (l : Renaming σ) (s : σ) : σ :=
  let s := K.copyAttrAll newDir (K.dInode s l.lowerNewDir) s
  let s := K.copyInodeSize newDir (K.dInode s l.lowerNewDir) s
  if newDir = oldDir then s
  else
    let s := K.copyAttrAll oldDir (K.dInode s l.lowerOldDir) s
    K.copyInodeSize oldDir (K.dInode s l.lowerOldDir) s

def renameOut (l : Renaming σ) (s : σ) : σ :=
  let s := K.unlockRename l.lowerOldDir l.lowerNewDir s
  let s := K.dput l.lowerOldDir s
  let s := K.dput l.lowerNewDir s
  let s := K.putLowerPath oldDentry l.lowerOld s
  K.putLowerPath newDentry l.lowerNew s

def wrapfsRename (s : σ) : CInt × σ :=
  let l := renameLock K oldDentry newDentry s
  match l.trapped with
  | some err => (err, renameOut K oldDentry newDentry l l.state)
  | none =>
    let call := renameLower K l
    (call.1, renameOut K oldDentry newDentry l
      (if call.1 = 0 then renameDone K oldDir newDir l call.2 else call.2))

end Rename

end TraceFS.Wrapfs
