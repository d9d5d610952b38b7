import TraceFS.Trfs.Tracing
import TraceFS.Wrapfs.Ops

/-! The ten traced operations: the lines of WRAPFS with tracing spliced in. -/

universe u

namespace TraceFS.Trfs

open TraceFS.Lib TraceFS.Linux TraceFS.Wrapfs

variable {σ : Type u} (K : Kernel σ) (T : Tracing) (P : PageSize)

section File

variable (file : Ptr)

def readRecord (err : CInt) (s : σ) : Record :=
  let r := { Record.zero with
    type := LogType.read.toByte
    fileAddress := file
    returnValue := err
    dataLength := err.signExtend 64
    sbPrivate := K.fileSFsInfo s file }
  { r with
    recordSize := BitVec.ofNat 32 (sizeof r.id + sizeof r.type + sizeof r.returnValue +
      sizeof r.fileAddress + sizeof r.dataLength + r.dataLength.toNat) }

def trfsRead (buf : Ptr) (count : BitVec 64) (ppos : Ptr) (s : σ) :
    Except OpFault (Exit σ) :=
  let lowerFile := K.lowerFile s file
  let call := K.vfsRead lowerFile buf count ppos s
  let err := call.1
  if 0 ≤ err.toInt then
    let s := K.copyAttrAtime (K.dInode call.2 (K.fileDentry file))
      (K.fileInode call.2 lowerFile) call.2
    (traceTransfer T P (readRecord K file err s) buf err).map fun out => ⟨out.1, s, out.2⟩
  else .ok ⟨err, call.2, []⟩

def writeRecord (err : CInt) (s : σ) : Record :=
  let r := { Record.zero with
    type := LogType.write.toByte
    fileAddress := file
    returnValue := err
    dataLength := err.signExtend 64
    logRwLarge := 0
    sbPrivate := K.fileSFsInfo s file }
  { r with
    recordSize := BitVec.ofNat 32 (sizeof r.id + sizeof r.type + sizeof r.returnValue +
      sizeof r.fileAddress + sizeof r.dataLength + r.dataLength.toNat) }

def trfsWrite (buf : Ptr) (count : BitVec 64) (ppos : Ptr) (s : σ) :
    Except OpFault (Exit σ) :=
  let lowerFile := K.lowerFile s file
  let call := K.vfsWrite lowerFile buf count ppos s
  let err := call.1
  if 0 ≤ err.toInt then
    let dentry := K.fileDentry file
    let sized := K.copyInodeSize (K.dInode call.2 dentry) (K.fileInode call.2 lowerFile) call.2
    let s := K.copyAttrTimes (K.dInode sized dentry) (K.fileInode sized lowerFile) sized
    (traceTransfer T P (writeRecord K file err s) buf err).map fun out => ⟨out.1, s, out.2⟩
  else .ok ⟨err, call.2, []⟩

def readdirRecord (err : CInt) (p : TmpPath) : Record :=
  let r := { Record.zero with
    type := LogType.readdir.toByte
    fileAddress := file
    pathLength := p.strlen
    path := some p.chars
    returnValue := err }
  { r with
    recordSize := BitVec.ofNat 32 (sizeof r.id + sizeof r.type + sizeof r.returnValue +
      sizeof r.fileAddress + sizeof r.pathLength + r.pathLength.toNat) }

/-- The record goes straight to `log_record`. Without one, `out` reads `r->path` all the same. -/
def trfsReaddir (ctx : Ptr) (s : σ) : Except OpFault (Exit σ) :=
  let lowerFile := K.lowerFile s file
  let call := K.iterateDir lowerFile ctx s
  let err := call.1
  let moved := K.copyFPos file lowerFile call.2
  let s := if 0 ≤ err.toInt then
      K.copyAttrAtime (K.dInode moved (K.fileDentry file)) (K.fileInode moved lowerFile) moved
    else moved
  if T.recordAlloc = false then .error .nullRecord
  else
    match dentryPath T (K.fileDentry file) with
    | .error f => .error f
    | .ok p =>
      if T.pathAlloc = false then .ok ⟨-ENOMEM, s, []⟩
      else .ok ⟨err, s, [⟨readdirRecord file err p, []⟩]⟩

/-- At the label `out_err`; the path is there unless `kzalloc` refused it. -/
def openRecord (err : CInt) (p : TmpPath) (path : Option (List Byte)) (s : σ) : Record :=
  let r := { Record.zero with
    type := LogType.open_.toByte
    openFlags := K.fFlags s file
    permMode := K.fMode s file
    fileAddress := file
    pathLength := p.strlen
    path := path
    returnValue := err }
  { r with
    recordSize := BitVec.ofNat 32 (sizeof r.id + sizeof r.type + sizeof r.returnValue +
      sizeof r.fileAddress + sizeof r.openFlags + sizeof r.permMode + sizeof r.pathLength +
      r.pathLength.toNat)
    sbPrivate := K.fileSFsInfo s file }

/-- The exits before `r` is allocated lead to `out_err`, which fills it in. -/
def trfsOpen (inode : Ptr) (s : σ) : Except OpFault (Exit σ) :=
  if K.dUnhashed s (K.fileDentry file) then .error .nullRecord
  else if (K.allocFileInfo file s).1 = false then .error .nullRecord
  else
    let opened := openLower K file inode (K.allocFileInfo file s).2
    let err := opened.1
    let s := opened.2
    if T.recordAlloc = false then .error .nullRecord
    else
      match dentryPath T (K.fileDentry file) with
      | .error f => .error f
      | .ok p =>
        let out : CInt × Option (List Byte) :=
          if T.pathAlloc = false then (-ENOMEM, none) else (err, some p.chars)
        (eworkqueueInit T (openRecord K file out.1 p out.2 s) []).map fun submitted =>
          ⟨out.1, s, submitted⟩

def closeRecord (err : CInt) (s : σ) : Record :=
  let r := { Record.zero with
    type := LogType.close.toByte
    fileAddress := file
    returnValue := err
    sbPrivate := K.fileSFsInfo s file }
  { r with
    recordSize := BitVec.ofNat 32 (sizeof r.id + sizeof r.type + sizeof r.returnValue +
      sizeof r.fileAddress) }

def trfsFlush (owner : Ptr) (s : σ) : Except OpFault (Exit σ) :=
  let lowerFile := K.lowerFile s file
  let call :=
    if lowerFile ≠ NULL ∧ K.hasFlush s lowerFile then
      K.flush lowerFile owner (K.filemapWriteAndWait file s)
    else (0, s)
  let err := call.1
  let s := call.2
  if T.recordAlloc = false then .ok ⟨-ENOMEM, s, []⟩
  else (eworkqueueInit T (closeRecord K file err s) []).map fun submitted => ⟨err, s, submitted⟩

end File

section Link

variable (oldDentry dir newDentry : Ptr)

/-- `kmalloc` leaves in the record what was there before. -/
def linkRecord (err : CInt) (s : σ) (p q : TmpPath) : Record :=
  let r := { T.heap with
    type := LogType.link.toByte
    fileAddress := -1
    pathLength := p.strlen
    path := some p.chars
    newPathLength := q.strlen
    newPath := some q.chars
    returnValue := err }
  { r with
    recordSize := BitVec.ofNat 32 (sizeof r.id + sizeof r.type + sizeof r.returnValue +
      sizeof r.fileAddress + sizeof r.pathLength + r.pathLength.toNat +
      sizeof r.newPathLength + r.newPathLength.toNat)
    sbPrivate := K.sFsInfo s (K.iSb s dir) }

def trfsLink (s : σ) : Except OpFault (Exit σ) :=
  let l := linkLower K oldDentry newDentry s
  if l.Stops K then .ok ⟨l.err, linkOut K oldDentry newDentry l l.state, []⟩
  else
    let call := linkInterpose K dir newDentry l
    let err := call.1
    let s := call.2
    match tracePaths T oldDentry newDentry (linkRecord K T dir err s) with
    | .error f => .error f
    | .ok (.out err) => .ok ⟨err, linkOut K oldDentry newDentry l s, []⟩
    | .ok (.next submitted) =>
      let s := if err = 0 then linkDone K oldDentry dir newDentry l s else s
      .ok ⟨err, linkOut K oldDentry newDentry l s, submitted⟩

end Link

section Entry

variable (dir dentry : Ptr)

def unlinkRecord (err : CInt) (s : σ) (p : TmpPath) : Record :=
  let r := { Record.zero with
    type := LogType.unlink.toByte
    fileAddress := -1
    pathLength := p.strlen
    path := some p.chars
    returnValue := err }
  { r with
    recordSize := BitVec.ofNat 32 (sizeof r.id + sizeof r.type + sizeof r.returnValue +
      sizeof r.fileAddress + sizeof r.pathLength + r.pathLength.toNat)
    sbPrivate := K.sFsInfo s (K.iSb s dir) }

def trfsUnlink (s : σ) : Except OpFault (Exit σ) :=
  let e := unlinkLower K dir dentry s
  match tracePath T dentry (unlinkRecord K dir e.err e.state) with
  | .error f => .error f
  | .ok (.out err) => .ok ⟨err, unlinkOut K dentry e e.state, []⟩
  | .ok (.next submitted) =>
    let s := if e.err = 0 then unlinkDone K dir dentry s e.state else e.state
    .ok ⟨e.err, unlinkOut K dentry e s, submitted⟩

def mkdirRecord (mode : BitVec 16) (err : CInt) (s : σ) (p : TmpPath) : Record :=
  let r := { Record.zero with
    type := LogType.mkdir.toByte
    fileAddress := -1
    pathLength := p.strlen
    path := some p.chars
    returnValue := err
    permMode := mode.setWidth 32 }
  { r with
    recordSize := BitVec.ofNat 32 (sizeof r.id + sizeof r.type + sizeof r.returnValue +
      sizeof r.fileAddress + sizeof r.pathLength + r.pathLength.toNat + sizeof r.permMode)
    sbPrivate := K.sFsInfo s (K.iSb s dir) }

/-- The record is queued before the interpose step. -/
def trfsMkdir (mode : BitVec 16) (s : σ) : Except OpFault (Exit σ) :=
  let e := mkdirLower K dentry mode s
  match tracePath T dentry (mkdirRecord K dir mode e.err e.state) with
  | .error f => .error f
  | .ok (.out err) => .ok ⟨err, entryOut K dentry e e.state, []⟩
  | .ok (.next submitted) =>
    let out := mkdirRest K dir dentry e
    .ok ⟨out.1, out.2, submitted⟩

def rmdirRecord (err : CInt) (s : σ) (p : TmpPath) : Record :=
  let r := { Record.zero with
    type := LogType.rmdir.toByte
    fileAddress := -1
    pathLength := p.strlen
    path := some p.chars
    returnValue := err }
  { r with
    recordSize := BitVec.ofNat 32 (sizeof r.id + sizeof r.type + sizeof r.returnValue +
      sizeof r.fileAddress + sizeof r.pathLength + r.pathLength.toNat)
    sbPrivate := K.sFsInfo s (K.iSb s dir) }

def trfsRmdir (s : σ) : Except OpFault (Exit σ) :=
  let e := rmdirLower K dentry s
  if e.err ≠ 0 then .ok ⟨e.err, entryOut K dentry e e.state, []⟩
  else
    match tracePath T dentry (rmdirRecord K dir e.err e.state) with
    | .error f => .error f
    | .ok (.out err) => .ok ⟨err, entryOut K dentry e e.state, []⟩
    | .ok (.next submitted) =>
      .ok ⟨e.err, entryOut K dentry e (rmdirDone K dir dentry e e.state), submitted⟩

end Entry

section Rename

variable (oldDir oldDentry newDir newDentry : Ptr)

def renameRecord (err : CInt) (s : σ) (p q : TmpPath) : Record :=
  let r := { Record.zero with
    type := LogType.rename.toByte
    fileAddress := -1
    pathLength := p.strlen
    path := some p.chars
    newPathLength := q.strlen
    newPath := some q.chars
    returnValue := err }
  { r with
    recordSize := BitVec.ofNat 32 (sizeof r.id + sizeof r.type + sizeof r.returnValue +
      sizeof r.fileAddress + sizeof r.pathLength + r.pathLength.toNat +
      sizeof r.newPathLength + r.newPathLength.toNat)
    sbPrivate := K.sFsInfo s (K.iSb s oldDir) }

def trfsRename (s : σ) : Except OpFault (Exit σ) :=
  let l := renameLock K oldDentry newDentry s
  match l.trapped with
  | some err => .ok ⟨err, renameOut K oldDentry newDentry l l.state, []⟩
  | none =>
    let call := renameLower K l
    let err := call.1
    let s := call.2
    match tracePaths T oldDentry newDentry (renameRecord K oldDir err s) with
    | .error f => .error f
    | .ok (.out err) => .ok ⟨err, renameOut K oldDentry newDentry l s, []⟩
    | .ok (.next submitted) =>
      let s := if err = 0 then renameDone K oldDir newDir l s else s
      .ok ⟨err, renameOut K oldDentry newDentry l s, submitted⟩

end Rename

section Create

variable (vfsCreate : Ptr → Ptr → BitVec 16 → Bool → σ → CInt × σ)

structure Creation where
  dir : Ptr
  dentry : Ptr
  mode : BitVec 16
  wantExcl : Bool

def createDone (dir : Ptr) (e : Wrapfs.Entry σ) (s : σ) : σ :=
  let s := K.copyAttrTimes dir (K.lowerInode s dir) s
  K.copyInodeSize dir (K.dInode s e.lowerDir) s

/-- An open with `O_CREAT` of a file that is not there calls this first. It is not traced. -/
def trfsCreate (c : Creation) (s : σ) : CInt × σ :=
  let lowerPath := K.getLowerPath c.dentry s
  let lowerDir := K.lockParent lowerPath.1.dentry lowerPath.2
  let call := vfsCreate (K.dInode lowerDir.2 lowerDir.1) lowerPath.1.dentry c.mode c.wantExcl
    lowerDir.2
  let e : Wrapfs.Entry σ :=
    { lowerPath := lowerPath.1, lowerDir := lowerDir.1, err := call.1, state := call.2 }
  if e.err ≠ 0 then (e.err, entryOut K c.dentry e e.state)
  else
    let call := K.interpose c.dentry (K.iSb e.state c.dir) e.lowerPath e.state
    (call.1, entryOut K c.dentry e (if call.1 = 0 then createDone K c.dir e call.2 else call.2))

end Create

inductive Call where
  | readdir (file ctx : Ptr)
  | open_ (inode file : Ptr)
  | read (file buf : Ptr) (count : BitVec 64) (ppos : Ptr)
  | write (file buf : Ptr) (count : BitVec 64) (ppos : Ptr)
  | close (file owner : Ptr)
  | mkdir (dir dentry : Ptr) (mode : BitVec 16)
  | unlink (dir dentry : Ptr)
  | link (oldDentry dir newDentry : Ptr)
  | rename (oldDir oldDentry newDir newDentry : Ptr)
  | rmdir (dir dentry : Ptr)

def Call.logType : Call → LogType
  | .readdir .. => .readdir
  | .open_ .. => .open_
  | .read .. => .read
  | .write .. => .write
  | .close .. => .close
  | .mkdir .. => .mkdir
  | .unlink .. => .unlink
  | .link .. => .link
  | .rename .. => .rename
  | .rmdir .. => .rmdir

def Call.trfs : Call → σ → Except OpFault (Exit σ)
  | .readdir file ctx => trfsReaddir K T file ctx
  | .open_ inode file => trfsOpen K T file inode
  | .read file buf count ppos => trfsRead K T P file buf count ppos
  | .write file buf count ppos => trfsWrite K T P file buf count ppos
  | .close file owner => trfsFlush K T file owner
  | .mkdir dir dentry mode => trfsMkdir K T dir dentry mode
  | .unlink dir dentry => trfsUnlink K T dir dentry
  | .link oldDentry dir newDentry => trfsLink K T oldDentry dir newDentry
  | .rename oldDir oldDentry newDir newDentry =>
    trfsRename K T oldDir oldDentry newDir newDentry
  | .rmdir dir dentry => trfsRmdir K T dir dentry

def Call.wrapfs : Call → σ → CInt × σ
  | .readdir file ctx => wrapfsReaddir K file ctx
  | .open_ inode file => wrapfsOpen K file inode
  | .read file buf count ppos => wrapfsRead K file buf count ppos
  | .write file buf count ppos => wrapfsWrite K file buf count ppos
  | .close file owner => wrapfsFlush K file owner
  | .mkdir dir dentry mode => wrapfsMkdir K dir dentry mode
  | .unlink dir dentry => wrapfsUnlink K dir dentry
  | .link oldDentry dir newDentry => wrapfsLink K oldDentry dir newDentry
  | .rename oldDir oldDentry newDir newDentry =>
    wrapfsRename K oldDir oldDentry newDir newDentry
  | .rmdir dir dentry => wrapfsRmdir K dir dentry

end TraceFS.Trfs
