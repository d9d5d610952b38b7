import Mathlib.Data.BitVec

/-! The part of Linux that the two stackable file systems are written against. -/

universe u

namespace TraceFS.Linux

abbrev CInt := BitVec 32

def ENOENT : CInt := 2
def ENOMEM : CInt := 12
def EFAULT : CInt := 14
def EBUSY : CInt := 16
def EINVAL : CInt := 22
def ENOTEMPTY : CInt := 39

abbrev Ptr := BitVec 64

instance : LawfulBEq Ptr := inferInstance

def NULL : Ptr := 0

structure Path where
  mnt : Ptr
  dentry : Ptr

deriving instance DecidableEq for Path

/-- What a stackable file system reads from the kernel's state `σ` and calls on it. Nothing is
assumed of any of these: every outcome of every call is that of some kernel. -/
structure Kernel (σ : Type u) where
  dInode : σ → Ptr → Ptr
  fileDentry : Ptr → Ptr
  fileInode : σ → Ptr → Ptr
  fileSFsInfo : σ → Ptr → Ptr
  fFlags : σ → Ptr → CInt
  fMode : σ → Ptr → CInt
  iSb : σ → Ptr → Ptr
  sFsInfo : σ → Ptr → Ptr
  iNlink : σ → Ptr → BitVec 32
  iSizeRead : σ → Ptr → BitVec 64
  dUnhashed : σ → Ptr → Bool
  /-- `d_flags & DCACHE_NFSFS_RENAMED` -/
  nfsRenamed : σ → Ptr → Bool
  /-- `f_op && f_op->flush` -/
  hasFlush : σ → Ptr → Bool
  lowerFile : σ → Ptr → Ptr
  lowerInode : σ → Ptr → Ptr
  getLowerPath : Ptr → σ → Path × σ
  putLowerPath : Ptr → Path → σ → σ
  pathPut : Path → σ → σ
  setLowerFile : Ptr → Ptr → σ → σ
  fput : Ptr → σ → σ
  /-- `file->private_data = kzalloc(..)`, and whether there was memory -/
  allocFileInfo : Ptr → σ → Bool × σ
  freeFileInfo : Ptr → σ → σ
  dget : Ptr → σ → σ
  dput : Ptr → σ → σ
  dgetParent : Ptr → σ → Ptr × σ
  lockParent : Ptr → σ → Ptr × σ
  unlockDir : Ptr → σ → σ
  lockRename : Ptr → Ptr → σ → Ptr × σ
  unlockRename : Ptr → Ptr → σ → σ
  /-- `dentry_open`: a file, or what `PTR_ERR` makes of the error -/
  dentryOpen : Path → CInt → σ → Except CInt Ptr × σ
  vfsRead : Ptr → Ptr → BitVec 64 → Ptr → σ → CInt × σ
  vfsWrite : Ptr → Ptr → BitVec 64 → Ptr → σ → CInt × σ
  iterateDir : Ptr → Ptr → σ → CInt × σ
  filemapWriteAndWait : Ptr → σ → σ
  flush : Ptr → Ptr → σ → CInt × σ
  vfsLink : Ptr → Ptr → Ptr → σ → CInt × σ
  vfsUnlink : Ptr → Ptr → σ → CInt × σ
  vfsMkdir : Ptr → Ptr → BitVec 16 → σ → CInt × σ
  vfsRmdir : Ptr → Ptr → σ → CInt × σ
  vfsRename : Ptr → Ptr → Ptr → Ptr → σ → CInt × σ
  interpose : Ptr → Ptr → Path → σ → CInt × σ
  copyAttrAtime : Ptr → Ptr → σ → σ
  copyAttrTimes : Ptr → Ptr → σ → σ
  copyAttrAll : Ptr → Ptr → σ → σ
  copyInodeSize : Ptr → Ptr → σ → σ
  copyFPos : Ptr → Ptr → σ → σ
  copyCtime : Ptr → Ptr → σ → σ
  setNlink : Ptr → BitVec 32 → σ → σ
  clearNlink : Ptr → σ → σ
  iSizeWrite : Ptr → BitVec 64 → σ → σ
  dDrop : Ptr → σ → σ

def Kernel.inert : Kernel σ where
  dInode _ p := p
  fileDentry p := p
  fileInode _ p := p
  fileSFsInfo _ p := p
  fFlags _ _ := 0
  fMode _ _ := 0
  iSb _ p := p
  sFsInfo _ p := p
  iNlink _ _ := 0
  iSizeRead _ _ := 0
  dUnhashed _ _ := false
  nfsRenamed _ _ := false
  hasFlush _ _ := false
  lowerFile _ p := p
  lowerInode _ p := p
  getLowerPath p s := (⟨0, p⟩, s)
  putLowerPath _ _ s := s
  pathPut _ s := s
  setLowerFile _ _ s := s
  fput _ s := s
  allocFileInfo _ s := (true, s)
  freeFileInfo _ s := s
  dget _ s := s
  dput _ s := s
  dgetParent p s := (p, s)
  lockParent p s := (p, s)
  unlockDir _ s := s
  lockRename _ _ s := (NULL, s)
  unlockRename _ _ s := s
  dentryOpen p _ s := (.ok p.dentry, s)
  vfsRead _ _ _ _ s := (0, s)
  vfsWrite _ _ _ _ s := (0, s)
  iterateDir _ _ s := (0, s)
  filemapWriteAndWait _ s := s
  flush _ _ s := (0, s)
  vfsLink _ _ _ s := (0, s)
  vfsUnlink _ _ s := (0, s)
  vfsMkdir _ _ _ s := (0, s)
  vfsRmdir _ _ s := (0, s)
  vfsRename _ _ _ _ s := (0, s)
  interpose _ _ _ s := (0, s)
  copyAttrAtime _ _ s := s
  copyAttrTimes _ _ s := s
  copyAttrAll _ _ s := s
  copyInodeSize _ _ s := s
  copyFPos _ _ s := s
  copyCtime _ _ s := s
  setNlink _ _ s := s
  clearNlink _ s := s
  iSizeWrite _ _ s := s
  dDrop _ s := s

end TraceFS.Linux
