import TraceFS.Linux.Vfs
import TraceFS.Trfs.Ops

/-! The operations that trfs does not trace. WRAPFS has the same lines for them. -/

universe u

namespace TraceFS.Trfs

open TraceFS.Linux TraceFS.Wrapfs

variable {σ : Type u} (V : Vfs σ)

section Make

variable (dir dentry : Ptr)

def makeEntry (call : Ptr → Ptr → σ → CInt × σ) (s : σ) : CInt × σ :=
  let lowerPath := V.getLowerPath dentry s
  let lowerDir := V.lockParent lowerPath.1.dentry lowerPath.2
  let made := call (V.dInode lowerDir.2 lowerDir.1) lowerPath.1.dentry lowerDir.2
  let e : Wrapfs.Entry σ :=
    { lowerPath := lowerPath.1, lowerDir := lowerDir.1, err := made.1, state := made.2 }
  if e.err ≠ 0 then (e.err, entryOut V.toKernel dentry e e.state)
  else
    let call := V.interpose dentry (V.iSb e.state dir) e.lowerPath e.state
    (call.1, entryOut V.toKernel dentry e
      (if call.1 = 0 then createDone V.toKernel dir e call.2 else call.2))

def trfsSymlink (symname : Ptr) : σ → CInt × σ :=
  makeEntry V dir dentry fun inode lower => V.vfsSymlink inode lower symname

def trfsMknod (mode : BitVec 16) (dev : BitVec 32) : σ → CInt × σ :=
  makeEntry V dir dentry fun inode lower => V.vfsMknod inode lower mode dev

theorem trfsCreate_eq_makeEntry (c : Creation) :
    trfsCreate V.toKernel V.vfsCreate c =
      makeEntry V c.dir c.dentry fun inode lower => V.vfsCreate inode lower c.mode c.wantExcl := rfl

end Make

section LowerPath

variable (dentry : Ptr)

def onLowerPath (body : Path → σ → CInt × σ) (s : σ) : CInt × σ :=
  let lowerPath := V.getLowerPath dentry s
  let out := body lowerPath.1 lowerPath.2
  (out.1, V.putLowerPath dentry lowerPath.1 out.2)

def readlinkLower (buf : Ptr) (bufsiz : CInt) (lowerPath : Path) (s : σ) : CInt × σ :=
  if V.hasReadlink s (V.dInode s lowerPath.dentry) = false then (-EINVAL, s)
  else
    let call := V.readlink lowerPath.dentry buf bufsiz s
    if call.1.toInt < 0 then call
    else
      (call.1, V.copyAttrAtime (V.dInode call.2 dentry) (V.dInode call.2 lowerPath.dentry) call.2)

def trfsReadlink (buf : Ptr) (bufsiz : CInt) : σ → CInt × σ :=
  onLowerPath V dentry (readlinkLower V dentry buf bufsiz)

def trfsPermission (inode : Ptr) (mask : CInt) (s : σ) : CInt × σ :=
  V.inodePermission (V.lowerInode s inode) mask s

/-- The `struct iattr` for the lower inode: the lower file system is left to clear the mode's
setuid and setgid bits in its own way. -/
def lowerIattr (ia : Iattr) (s : σ) : Iattr :=
  let lowerIa := if ia.Has ATTR_FILE then { ia with iaFile := V.lowerFile s ia.iaFile } else ia
  if lowerIa.Has (ATTR_KILL_SUID ||| ATTR_KILL_SGID) then
    { lowerIa with iaValid := lowerIa.iaValid &&& ~~~ATTR_MODE }
  else lowerIa

def setattrSize (inode : Ptr) (ia : Iattr) (s : σ) : CInt × σ :=
  if ia.Has ATTR_SIZE then
    if V.inodeNewsizeOk s inode ia.iaSize ≠ 0 then (V.inodeNewsizeOk s inode ia.iaSize, s)
    else (0, V.truncateSetsize inode ia.iaSize s)
  else (0, s)

def notifyLower (lowerDentry : Ptr) (ia : Iattr) (s : σ) : CInt × σ :=
  let call := V.notifyChange lowerDentry ia (V.inodeLock (V.dInode s lowerDentry) s)
  (call.1, V.inodeUnlock (V.dInode call.2 lowerDentry) call.2)

def setattrLower (inode : Ptr) (ia : Iattr) (lowerPath : Path) (s : σ) : CInt × σ :=
  let sized := setattrSize V inode ia s
  if sized.1 ≠ 0 then sized
  else
    let call := notifyLower V lowerPath.dentry (lowerIattr V ia s) sized.2
    if call.1 ≠ 0 then call else (0, V.copyAttrAll inode (V.lowerInode s inode) call.2)

def trfsSetattr (ia : Iattr) (s : σ) : CInt × σ :=
  let inode := V.dInode s dentry
  let checked := V.inodeChangeOk s inode ia
  if checked.1 ≠ 0 then (checked.1, s)
  else onLowerPath V dentry (setattrLower V inode checked.2) s

def getattrLower (stat : Ptr) (lowerPath : Path) (s : σ) : CInt × σ :=
  let call := V.vfsGetattr lowerPath s
  if call.1.1 ≠ 0 then (call.1.1, call.2)
  else
    let s := V.copyAttrAll (V.dInode call.2 dentry) (V.dInode call.2 lowerPath.dentry) call.2
    let s := V.genericFillattr (V.dInode s dentry) stat s
    (0, V.setBlocks stat call.1.2 s)

def trfsGetattr (stat : Ptr) : σ → CInt × σ := onLowerPath V dentry (getattrLower V dentry stat)

/-- Where the lower file system has no such operation; `trfs_removexattr` has an error of its
own. -/
def xattrMissing : Xattr → CInt
  | .set .. | .get .. | .list .. => -EOPNOTSUPP
  | .remove _ => -EINVAL

def xattrCopy : Xattr → Ptr → Ptr → σ → σ
  | .set .. | .remove _ => V.copyAttrAll
  | .get .. | .list .. => V.copyAttrAtime

def xattrLower (x : Xattr) (lowerPath : Path) (s : σ) : CInt × σ :=
  if V.hasXattr s (V.dInode s lowerPath.dentry) x = false then (xattrMissing x, s)
  else
    let call := V.vfsXattr lowerPath.dentry x s
    -- the length that a get or list returns takes the way out of an error
    if call.1 ≠ 0 then call
    else (0, xattrCopy V x (V.dInode call.2 dentry) (V.dInode call.2 lowerPath.dentry) call.2)

def trfsXattr (x : Xattr) : σ → CInt × σ := onLowerPath V dentry (xattrLower V dentry x)

def trfsSetxattr (name value : Ptr) (size : BitVec 64) (flags : CInt) : σ → CInt × σ :=
  trfsXattr V dentry (.set name value size flags)

def trfsGetxattr (name buffer : Ptr) (size : BitVec 64) : σ → CInt × σ :=
  trfsXattr V dentry (.get name buffer size)

def trfsListxattr (buffer : Ptr) (size : BitVec 64) : σ → CInt × σ :=
  trfsXattr V dentry (.list buffer size)

def trfsRemovexattr (name : Ptr) : σ → CInt × σ := trfsXattr V dentry (.remove name)

def trfsStatfs (buf : Ptr) (s : σ) : CInt × σ :=
  let out := onLowerPath V dentry (fun lowerPath => V.vfsStatfs lowerPath buf) s
  (out.1, V.setFType buf out.2)

def trfsFsync (file : Ptr) (start stop : BitVec 64) (datasync : CInt) (s : σ) : CInt × σ :=
  let synced := V.genericFileFsync file start stop datasync s
  if synced.1 ≠ 0 then synced
  else
    let lowerFile := V.lowerFile synced.2 file
    onLowerPath V (V.fileDentry file) (fun _ => V.vfsFsyncRange lowerFile start stop datasync)
      synced.2

def trfsDRevalidate (flags : BitVec 32) (s : σ) : CInt × σ :=
  if flags &&& LOOKUP_RCU ≠ 0 then (-ECHILD, s)
  else
    onLowerPath V dentry (fun lowerPath s =>
      if V.opRevalidate s lowerPath.dentry = false then (1, s)
      else V.dRevalidate lowerPath.dentry flags s) s

end LowerPath

end TraceFS.Trfs
