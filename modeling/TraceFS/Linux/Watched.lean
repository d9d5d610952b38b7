import TraceFS.Linux.Vfs

/-! A kernel that keeps account of what a stackable file system holds of the lower one, and of
whether each lower call is made with what it relies on. -/

universe u

namespace TraceFS.Linux

structure Held where
  paths : List Path
  dentries : List Ptr
  dirs : List (Ptr × Ptr)
  inodes : List Ptr
  deriving DecidableEq

def Held.none : Held := ⟨[], [], [], []⟩

def Held.Pins (h : Held) (dentry : Ptr) : Prop := ∃ p ∈ h.paths, p.dentry = dentry

def Held.Locks (h : Held) (inode : Ptr) : Prop := ∃ e ∈ h.dirs, e.2 = inode

instance (h : Held) (dentry : Ptr) : Decidable (h.Pins dentry) :=
  inferInstanceAs (Decidable (∃ p ∈ _, _))

instance (h : Held) (inode : Ptr) : Decidable (h.Locks inode) :=
  inferInstanceAs (Decidable (∃ e ∈ _, _))

/-- `misused` says that something was dropped that was not held, or a call made without need. -/
structure Watched (σ : Type u) where
  state : σ
  held : Held
  misused : Bool

namespace Watched

variable {σ : Type u} {α : Type}

def lift (f : σ → α × σ) (w : Watched σ) : α × Watched σ :=
  ((f w.state).1, { w with state := (f w.state).2 })

def map (f : σ → σ) (w : Watched σ) : Watched σ := { w with state := f w.state }

def check (needed : Held → Prop) [DecidablePred needed] (w : Watched σ) : Watched σ :=
  { w with misused := w.misused || !decide (needed w.held) }

def getPath (p : Path) (w : Watched σ) : Watched σ :=
  { w with held := { w.held with paths := p :: w.held.paths } }

def putPath (p : Path) (w : Watched σ) : Watched σ :=
  let w := w.check fun h => p ∈ h.paths
  { w with held := { w.held with paths := w.held.paths.erase p } }

def getDentry (d : Ptr) (w : Watched σ) : Watched σ :=
  { w with held := { w.held with dentries := d :: w.held.dentries } }

def putDentry (d : Ptr) (w : Watched σ) : Watched σ :=
  let w := w.check fun h => d ∈ h.dentries
  { w with held := { w.held with dentries := w.held.dentries.erase d } }

def lockDir (dir inode : Ptr) (w : Watched σ) : Watched σ :=
  { w with held := { w.held with dirs := (dir, inode) :: w.held.dirs } }

def unlockDir (dir : Ptr) (w : Watched σ) : Watched σ :=
  let w := w.check fun h => ∃ e ∈ h.dirs, e.1 = dir
  { w with held := { w.held with dirs := w.held.dirs.eraseP fun e => e.1 = dir } }

/-- `lock_rename` locks one directory only if it is given the same twice. -/
def lockDirs (a inode b inode' : Ptr) (w : Watched σ) : Watched σ :=
  { w with held := { w.held with dirs :=
      if a = b then (a, inode) :: w.held.dirs else (b, inode') :: (a, inode) :: w.held.dirs } }

def unlockDirs (a b : Ptr) (w : Watched σ) : Watched σ :=
  if a = b then w.unlockDir a else (w.unlockDir a).unlockDir b

def lockInode (inode : Ptr) (w : Watched σ) : Watched σ :=
  { w with held := { w.held with inodes := inode :: w.held.inodes } }

def unlockInode (inode : Ptr) (w : Watched σ) : Watched σ :=
  let w := w.check fun h => inode ∈ h.inodes
  { w with held := { w.held with inodes := w.held.inodes.erase inode } }

end Watched

open Watched in
def Kernel.watched (K : Kernel σ) : Kernel (Watched σ) where
  dInode w := K.dInode w.state
  fileDentry := K.fileDentry
  fileInode w := K.fileInode w.state
  fileSFsInfo w := K.fileSFsInfo w.state
  fFlags w := K.fFlags w.state
  fMode w := K.fMode w.state
  iSb w := K.iSb w.state
  sFsInfo w := K.sFsInfo w.state
  iNlink w := K.iNlink w.state
  iSizeRead w := K.iSizeRead w.state
  dUnhashed w := K.dUnhashed w.state
  nfsRenamed w := K.nfsRenamed w.state
  hasFlush w := K.hasFlush w.state
  lowerFile w := K.lowerFile w.state
  lowerInode w := K.lowerInode w.state
  getLowerPath d w :=
    let out := w.lift (K.getLowerPath d)
    (out.1, out.2.getPath out.1)
  putLowerPath d p w := (w.putPath p).map (K.putLowerPath d p)
  pathPut p w := (w.putPath p).map (K.pathPut p)
  setLowerFile file lowerFile := map (K.setLowerFile file lowerFile)
  fput file := map (K.fput file)
  allocFileInfo file := lift (K.allocFileInfo file)
  freeFileInfo file := map (K.freeFileInfo file)
  dget d w := (w.map (K.dget d)).getDentry d
  dput d w := (w.putDentry d).map (K.dput d)
  dgetParent d w :=
    let out := w.lift (K.dgetParent d)
    (out.1, out.2.getDentry out.1)
  lockParent d w :=
    let out := w.lift (K.lockParent d)
    (out.1, (out.2.getDentry out.1).lockDir out.1 (K.dInode out.2.state out.1))
  unlockDir dir w := ((w.unlockDir dir).putDentry dir).map (K.unlockDir dir)
  lockRename a b w :=
    let out := w.lift (K.lockRename a b)
    (out.1, out.2.lockDirs a (K.dInode out.2.state a) b (K.dInode out.2.state b))
  unlockRename a b w := (w.unlockDirs a b).map (K.unlockRename a b)
  dentryOpen p flags w := (w.check fun h => p ∈ h.paths).lift (K.dentryOpen p flags)
  vfsRead file buf count ppos := lift (K.vfsRead file buf count ppos)
  vfsWrite file buf count ppos := lift (K.vfsWrite file buf count ppos)
  iterateDir file ctx := lift (K.iterateDir file ctx)
  filemapWriteAndWait file := map (K.filemapWriteAndWait file)
  flush file owner := lift (K.flush file owner)
  vfsLink old dir new w :=
    (w.check fun h => h.Pins old ∧ h.Pins new ∧ h.Locks dir).lift (K.vfsLink old dir new)
  vfsUnlink dir d w := (w.check fun h => h.Pins d ∧ h.Locks dir).lift (K.vfsUnlink dir d)
  vfsMkdir dir d mode w := (w.check fun h => h.Pins d ∧ h.Locks dir).lift (K.vfsMkdir dir d mode)
  vfsRmdir dir d w := (w.check fun h => h.Pins d ∧ h.Locks dir).lift (K.vfsRmdir dir d)
  vfsRename oldDir old newDir new w :=
    (w.check fun h => h.Pins old ∧ h.Pins new ∧ h.Locks oldDir ∧ h.Locks newDir).lift
      (K.vfsRename oldDir old newDir new)
  interpose d sb p w := (w.check fun h => p ∈ h.paths).lift (K.interpose d sb p)
  copyAttrAtime a b := map (K.copyAttrAtime a b)
  copyAttrTimes a b := map (K.copyAttrTimes a b)
  copyAttrAll a b := map (K.copyAttrAll a b)
  copyInodeSize a b := map (K.copyInodeSize a b)
  copyFPos a b := map (K.copyFPos a b)
  copyCtime a b := map (K.copyCtime a b)
  setNlink a n := map (K.setNlink a n)
  clearNlink a := map (K.clearNlink a)
  iSizeWrite a n := map (K.iSizeWrite a n)
  dDrop d := map (K.dDrop d)

open Watched in
def Vfs.watched (V : Vfs σ) : Vfs (Watched σ) where
  toKernel := V.toKernel.watched
  vfsCreate dir d mode wantExcl w :=
    (w.check fun h => h.Pins d ∧ h.Locks dir).lift (V.vfsCreate dir d mode wantExcl)
  vfsSymlink dir d symname w :=
    (w.check fun h => h.Pins d ∧ h.Locks dir).lift (V.vfsSymlink dir d symname)
  vfsMknod dir d mode dev w :=
    (w.check fun h => h.Pins d ∧ h.Locks dir).lift (V.vfsMknod dir d mode dev)
  hasReadlink w := V.hasReadlink w.state
  readlink d buf bufsiz w := (w.check fun h => h.Pins d).lift (V.readlink d buf bufsiz)
  inodePermission inode mask := lift (V.inodePermission inode mask)
  inodeChangeOk w := V.inodeChangeOk w.state
  inodeNewsizeOk w := V.inodeNewsizeOk w.state
  truncateSetsize inode size := map (V.truncateSetsize inode size)
  inodeLock inode w := (w.map (V.inodeLock inode)).lockInode inode
  inodeUnlock inode w := (w.unlockInode inode).map (V.inodeUnlock inode)
  -- `notify_change` has a `BUG` for a mode together with bits to clear
  notifyChange d ia w :=
    (w.check fun h => h.Pins d ∧ V.dInode w.state d ∈ h.inodes ∧
      ¬ (ia.Has ATTR_MODE ∧ ia.Has (ATTR_KILL_SUID ||| ATTR_KILL_SGID))).lift (V.notifyChange d ia)
  vfsGetattr p w := (w.check fun h => p ∈ h.paths).lift (V.vfsGetattr p)
  genericFillattr inode stat := map (V.genericFillattr inode stat)
  setBlocks stat blocks := map (V.setBlocks stat blocks)
  hasXattr w := V.hasXattr w.state
  vfsXattr d x w := (w.check fun h => h.Pins d).lift (V.vfsXattr d x)
  vfsStatfs p buf w := (w.check fun h => p ∈ h.paths).lift (V.vfsStatfs p buf)
  setFType buf := map (V.setFType buf)
  genericFileFsync file start stop datasync := lift (V.genericFileFsync file start stop datasync)
  vfsFsyncRange file start stop datasync := lift (V.vfsFsyncRange file start stop datasync)
  opRevalidate w := V.opRevalidate w.state
  dRevalidate d flags w := (w.check fun h => h.Pins d).lift (V.dRevalidate d flags)

end TraceFS.Linux
