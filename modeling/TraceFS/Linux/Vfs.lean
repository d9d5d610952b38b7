import TraceFS.Linux.Kernel

universe u

namespace TraceFS.Linux

def ECHILD : CInt := 10
def EOPNOTSUPP : CInt := 95

def LOOKUP_RCU : BitVec 32 := 0x40

def ATTR_MODE : BitVec 32 := 0x1
def ATTR_SIZE : BitVec 32 := 0x8
def ATTR_KILL_SUID : BitVec 32 := 0x800
def ATTR_KILL_SGID : BitVec 32 := 0x1000
def ATTR_FILE : BitVec 32 := 0x2000

structure Iattr where
  iaValid : BitVec 32
  iaMode : BitVec 16
  iaSize : BitVec 64
  iaFile : Ptr
  iaOther : BitVec 64
  deriving DecidableEq

def Iattr.Has (ia : Iattr) (flags : BitVec 32) : Prop := ia.iaValid &&& flags ≠ 0

instance (ia : Iattr) (flags : BitVec 32) : Decidable (ia.Has flags) :=
  inferInstanceAs (Decidable (_ ≠ _))

inductive Xattr where
  | set (name value : Ptr) (size : BitVec 64) (flags : CInt)
  | get (name buffer : Ptr) (size : BitVec 64)
  | list (buffer : Ptr) (size : BitVec 64)
  | remove (name : Ptr)
  deriving DecidableEq

structure Vfs (σ : Type u) extends Kernel σ where
  vfsCreate : Ptr → Ptr → BitVec 16 → Bool → σ → CInt × σ
  vfsSymlink : Ptr → Ptr → Ptr → σ → CInt × σ
  vfsMknod : Ptr → Ptr → BitVec 16 → BitVec 32 → σ → CInt × σ
  hasReadlink : σ → Ptr → Bool
  readlink : Ptr → Ptr → CInt → σ → CInt × σ
  inodePermission : Ptr → CInt → σ → CInt × σ
  /-- the check, and the `struct iattr` as it leaves it -/
  inodeChangeOk : σ → Ptr → Iattr → CInt × Iattr
  inodeNewsizeOk : σ → Ptr → BitVec 64 → CInt
  truncateSetsize : Ptr → BitVec 64 → σ → σ
  inodeLock : Ptr → σ → σ
  inodeUnlock : Ptr → σ → σ
  notifyChange : Ptr → Iattr → σ → CInt × σ
  /-- the error, and `blocks` of the `struct kstat` -/
  vfsGetattr : Path → σ → (CInt × BitVec 64) × σ
  genericFillattr : Ptr → Ptr → σ → σ
  setBlocks : Ptr → BitVec 64 → σ → σ
  hasXattr : σ → Ptr → Xattr → Bool
  vfsXattr : Ptr → Xattr → σ → CInt × σ
  vfsStatfs : Path → Ptr → σ → CInt × σ
  setFType : Ptr → σ → σ
  genericFileFsync : Ptr → BitVec 64 → BitVec 64 → CInt → σ → CInt × σ
  vfsFsyncRange : Ptr → BitVec 64 → BitVec 64 → CInt → σ → CInt × σ
  /-- `d_flags & DCACHE_OP_REVALIDATE` -/
  opRevalidate : σ → Ptr → Bool
  dRevalidate : Ptr → BitVec 32 → σ → CInt × σ

def Vfs.inert : Vfs σ where
  toKernel := .inert
  vfsCreate _ _ _ _ s := (0, s)
  vfsSymlink _ _ _ s := (0, s)
  vfsMknod _ _ _ _ s := (0, s)
  hasReadlink _ _ := true
  readlink _ _ _ s := (0, s)
  inodePermission _ _ s := (0, s)
  inodeChangeOk _ _ ia := (0, ia)
  inodeNewsizeOk _ _ _ := 0
  truncateSetsize _ _ s := s
  inodeLock _ s := s
  inodeUnlock _ s := s
  notifyChange _ _ s := (0, s)
  vfsGetattr _ s := ((0, 0), s)
  genericFillattr _ _ s := s
  setBlocks _ _ s := s
  hasXattr _ _ _ := true
  vfsXattr _ _ s := (0, s)
  vfsStatfs _ _ s := (0, s)
  setFType _ s := s
  genericFileFsync _ _ _ _ s := (0, s)
  vfsFsyncRange _ _ _ _ s := (0, s)
  opRevalidate _ _ := false
  dRevalidate _ _ s := (1, s)

end TraceFS.Linux
