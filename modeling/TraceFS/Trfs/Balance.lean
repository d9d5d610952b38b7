import TraceFS.Lib.Run
import TraceFS.Linux.Watched
import TraceFS.Trfs.Untraced

universe u

namespace TraceFS.Trfs

open TraceFS.Lib TraceFS.Linux TraceFS.Wrapfs

variable {σ : Type u} {K : Kernel σ} {V : Vfs σ} {T : Tracing} {P : PageSize}

def watchedAt (held : Held) (misused : Bool) (out : CInt × σ) : CInt × Watched σ :=
  (out.1, ⟨out.2, held, misused⟩)

abbrev watchedOut : Bool → CInt × σ → CInt × Watched σ := watchedAt .none

def watchedExit (misused : Bool) (x : Exit σ) : Exit (Watched σ) :=
  ⟨x.ret, ⟨x.state, .none, misused⟩, x.submitted⟩

theorem erase_pair {α : Type u} [BEq α] [LawfulBEq α] (x y : α) : [x, y].erase y = [x] := by
  by_cases hxy : x = y
  · rw [hxy, List.erase_cons_head]
  · rw [List.erase_cons_tail (by simpa using hxy), List.erase_cons_head]

theorem ite_watched {p : Prop} [Decidable p] (s t : σ) (held : Held) (b : Bool) :
    (if p then ⟨s, held, b⟩ else ⟨t, held, b⟩ : Watched σ) = ⟨if p then s else t, held, b⟩ := by
  split <;> rfl

theorem transfer_watched (x : Except OpFault (CInt × List Submission)) (s : σ) (b : Bool) :
    (x.map fun out => ⟨out.1, ⟨s, .none, b⟩, out.2⟩) =
      (x.map fun out => (⟨out.1, s, out.2⟩ : Exit σ)).map (watchedExit b) := by
  cases x <;> rfl

theorem queued_watched (x : Except OpFault (List Submission)) (err : CInt) (s : σ) (b : Bool) :
    (x.map fun submitted => ⟨err, ⟨s, .none, b⟩, submitted⟩) =
      (x.map fun submitted => (⟨err, s, submitted⟩ : Exit σ)).map (watchedExit b) := by
  cases x <;> rfl

theorem trfsFlush_eq (file owner : Ptr) (s : σ) :
    trfsFlush K T file owner s =
      if T.recordAlloc = false then .ok ⟨-ENOMEM, (wrapfsFlush K file owner s).2, []⟩
      else (eworkqueueInit T (closeRecord K file (wrapfsFlush K file owner s).1
          (wrapfsFlush K file owner s).2) []).map fun submitted =>
        ⟨(wrapfsFlush K file owner s).1, (wrapfsFlush K file owner s).2, submitted⟩ := rfl

theorem ok_watched {w : Watched σ} {s : σ} {b : Bool} (h : w = ⟨s, .none, b⟩) {err : CInt}
    {submitted : List Submission} :
    (Except.ok ⟨err, w, submitted⟩ : Except OpFault (Exit (Watched σ))) =
      (Except.ok ⟨err, s, submitted⟩ : Except OpFault (Exit σ)).map (watchedExit b) := by
  rw [h]
  rfl

section File

variable (file : Ptr) (s : σ) (b : Bool)

theorem wrapfsRead_watched (buf : Ptr) (count : BitVec 64) (ppos : Ptr) :
    wrapfsRead K.watched file buf count ppos ⟨s, .none, b⟩ =
      watchedOut b (wrapfsRead K file buf count ppos s) := by
  simp only [wrapfsRead, apply_ite (watchedOut b)]
  rfl

theorem wrapfsWrite_watched (buf : Ptr) (count : BitVec 64) (ppos : Ptr) :
    wrapfsWrite K.watched file buf count ppos ⟨s, .none, b⟩ =
      watchedOut b (wrapfsWrite K file buf count ppos s) := by
  simp only [wrapfsWrite, apply_ite (watchedOut b)]
  rfl

theorem wrapfsReaddir_watched (ctx : Ptr) :
    wrapfsReaddir K.watched file ctx ⟨s, .none, b⟩ = watchedOut b (wrapfsReaddir K file ctx s) := by
  simp only [wrapfsReaddir, apply_ite (watchedOut b)]
  rfl

theorem wrapfsFlush_watched (owner : Ptr) :
    wrapfsFlush K.watched file owner ⟨s, .none, b⟩ = watchedOut b (wrapfsFlush K file owner s) := by
  simp only [wrapfsFlush, apply_ite (watchedOut b)]
  rfl

def openPut (K : Kernel σ) (file : Ptr) (s : σ) : Except CInt Ptr × σ :=
  let lowerPath := K.getLowerPath (K.fileDentry file) s
  let opened := K.dentryOpen lowerPath.1 (K.fFlags lowerPath.2 file) lowerPath.2
  (opened.1, K.pathPut lowerPath.1 opened.2)

def openLinked (K : Kernel σ) (file inode : Ptr) (opened : Except CInt Ptr) (s : σ) : CInt × σ :=
  let linked : CInt × σ :=
    match opened with
    | .error err =>
      if K.lowerFile s file = NULL then (err, s)
      else (err, K.fput (K.lowerFile s file) (K.setLowerFile file NULL s))
    | .ok lowerFile => (0, K.setLowerFile file lowerFile s)
  if linked.1 = 0 then (0, K.copyAttrAll inode (K.lowerInode linked.2 inode) linked.2)
  else (linked.1, K.freeFileInfo file linked.2)

theorem openLower_eq (inode : Ptr) :
    openLower K file inode s =
      openLinked K file inode (openPut K file s).1 (openPut K file s).2 := rfl

theorem openPut_watched :
    openPut K.watched file ⟨s, .none, b⟩ =
      ((openPut K file s).1, ⟨(openPut K file s).2, .none, b⟩) := by
  simp [openPut, Kernel.watched, Watched.getPath, Watched.putPath, Watched.check, Watched.lift,
    Watched.map, Held.none]

theorem openLinked_watched (inode : Ptr) (opened : Except CInt Ptr) :
    openLinked K.watched file inode opened ⟨s, .none, b⟩ =
      watchedOut b (openLinked K file inode opened s) := by
  cases opened with
  | error err =>
    simp only [openLinked, apply_ite (watchedOut b)]
    by_cases hnull : K.lowerFile s file = NULL <;> by_cases herr : err = 0 <;>
      simp [hnull, herr, Kernel.watched, Watched.map, watchedAt]
  | ok lowerFile => rfl

theorem openLower_watched (inode : Ptr) :
    openLower K.watched file inode ⟨s, .none, b⟩ = watchedOut b (openLower K file inode s) := by
  rw [openLower_eq, openLower_eq, openPut_watched]
  exact openLinked_watched file _ b inode _

theorem wrapfsOpen_watched (inode : Ptr) :
    wrapfsOpen K.watched file inode ⟨s, .none, b⟩ = watchedOut b (wrapfsOpen K file inode s) := by
  simp only [wrapfsOpen, apply_ite (watchedOut b)]
  refine ite_congr rfl (fun _ => rfl) fun _ => ite_congr rfl (fun _ => rfl) fun _ => ?_
  exact openLower_watched file _ b inode

theorem trfsRead_watched (buf : Ptr) (count : BitVec 64) (ppos : Ptr) :
    trfsRead K.watched T P file buf count ppos ⟨s, .none, b⟩ =
      (trfsRead K T P file buf count ppos s).map (watchedExit b) := by
  simp only [trfsRead, apply_ite (Except.map (watchedExit b))]
  refine ite_congr rfl (fun _ => ?_) fun _ => rfl
  exact transfer_watched ..

theorem trfsWrite_watched (buf : Ptr) (count : BitVec 64) (ppos : Ptr) :
    trfsWrite K.watched T P file buf count ppos ⟨s, .none, b⟩ =
      (trfsWrite K T P file buf count ppos s).map (watchedExit b) := by
  simp only [trfsWrite, apply_ite (Except.map (watchedExit b))]
  refine ite_congr rfl (fun _ => ?_) fun _ => rfl
  exact transfer_watched ..

theorem trfsFlush_watched (owner : Ptr) :
    trfsFlush K.watched T file owner ⟨s, .none, b⟩ =
      (trfsFlush K T file owner s).map (watchedExit b) := by
  rw [trfsFlush_eq, trfsFlush_eq, wrapfsFlush_watched, apply_ite (Except.map (watchedExit b))]
  exact ite_congr rfl (fun _ => rfl) fun _ => queued_watched ..

theorem trfsReaddir_watched (ctx : Ptr) :
    trfsReaddir K.watched T file ctx ⟨s, .none, b⟩ =
      (trfsReaddir K T file ctx s).map (watchedExit b) := by
  have hfile : K.watched.fileDentry file = K.fileDentry file := rfl
  simp only [trfsReaddir, hfile, apply_ite (Except.map (watchedExit b))]
  refine ite_congr rfl (fun _ => rfl) fun _ => ?_
  rcases dentryPath T (K.fileDentry file) with f | p
  · rfl
  · simp only [apply_ite (Except.map (watchedExit b))]
    refine ite_congr rfl (fun _ => ?_) fun _ => ?_
    · exact ok_watched (ite_watched ..)
    · exact ok_watched (ite_watched ..)

theorem trfsOpen_watched (inode : Ptr) :
    trfsOpen K.watched T file inode ⟨s, .none, b⟩ =
      (trfsOpen K T file inode s).map (watchedExit b) := by
  have hfile : K.watched.fileDentry file = K.fileDentry file := rfl
  have hopened : openLower K.watched file inode (K.watched.allocFileInfo file ⟨s, .none, b⟩).2 =
      watchedOut b (openLower K file inode (K.allocFileInfo file s).2) :=
    openLower_watched file _ b inode
  simp only [trfsOpen, hfile, hopened, apply_ite (Except.map (watchedExit b))]
  refine ite_congr rfl (fun _ => rfl) fun _ => ite_congr rfl (fun _ => rfl) fun _ =>
    ite_congr rfl (fun _ => rfl) fun _ => ?_
  rcases dentryPath T (K.fileDentry file) with f | p
  · rfl
  · exact queued_watched ..

end File

section Entry

variable (dir dentry : Ptr)

def heldEntry (e : Wrapfs.Entry σ) (inode : Ptr) : Held :=
  ⟨[e.lowerPath], [e.lowerDir], [(e.lowerDir, inode)], []⟩

def watchedEntry (e : Wrapfs.Entry σ) (held : Held) (misused : Bool) : Wrapfs.Entry (Watched σ) :=
  ⟨e.lowerPath, e.lowerDir, e.err, ⟨e.state, held, misused⟩⟩

def lockedInode (K : Kernel σ) (dentry : Ptr) (s : σ) : Ptr :=
  let lowerPath := K.getLowerPath dentry s
  let lowerDir := K.lockParent lowerPath.1.dentry lowerPath.2
  K.dInode lowerDir.2 lowerDir.1

theorem entryOut_watched (e : Wrapfs.Entry σ) (s : σ) (inode : Ptr) (held : Held) (b b' : Bool) :
    entryOut K.watched dentry (watchedEntry e held b') ⟨s, heldEntry e inode, b⟩ =
      ⟨entryOut K dentry e s, .none, b⟩ := by
  simp [entryOut, Kernel.watched, watchedEntry, heldEntry, Watched.putPath, Watched.putDentry,
    Watched.unlockDir, Watched.check, Watched.map, Held.none]

theorem mkdirLower_watched (mode : BitVec 16) (s : σ) (b : Bool) :
    mkdirLower K.watched dentry mode ⟨s, .none, b⟩ =
      watchedEntry (mkdirLower K dentry mode s)
        (heldEntry (mkdirLower K dentry mode s) (lockedInode K dentry s)) b := by
  simp [mkdirLower, Kernel.watched, watchedEntry, heldEntry, Watched.getPath, Watched.getDentry,
    Watched.lockDir, Watched.check, Watched.lift, Held.none, Held.Pins, Held.Locks, lockedInode]

theorem mkdirInterpose_watched (e : Wrapfs.Entry σ) (inode : Ptr) (b : Bool) :
    mkdirInterpose K.watched dir dentry (watchedEntry e (heldEntry e inode) b) =
      ((mkdirInterpose K dir dentry e).1,
        ⟨(mkdirInterpose K dir dentry e).2, heldEntry e inode, b⟩) := by
  simp [mkdirInterpose, Kernel.watched, watchedEntry, heldEntry, Watched.check, Watched.lift]

theorem mkdirRest_watched (e : Wrapfs.Entry σ) (inode : Ptr) (b : Bool) :
    mkdirRest K.watched dir dentry (watchedEntry e (heldEntry e inode) b) =
      watchedOut b (mkdirRest K dir dentry e) := by
  simp only [mkdirRest, apply_ite (watchedOut b)]
  refine ite_congr rfl (fun _ => ?_) fun _ => ?_
  · exact congrArg (Prod.mk _) (entryOut_watched dentry e _ inode _ b b)
  · rw [mkdirInterpose_watched]
    exact congrArg (Prod.mk _) ((congrArg _ (ite_watched ..)).trans (entryOut_watched ..))

theorem rmdirLower_watched (s : σ) (b : Bool) :
    rmdirLower K.watched dentry ⟨s, .none, b⟩ =
      watchedEntry (rmdirLower K dentry s)
        (heldEntry (rmdirLower K dentry s) (lockedInode K dentry s)) b := by
  simp [rmdirLower, Kernel.watched, watchedEntry, heldEntry, Watched.getPath, Watched.getDentry,
    Watched.lockDir, Watched.check, Watched.lift, Held.none, Held.Pins, Held.Locks, lockedInode]

theorem rmdirDone_watched (e : Wrapfs.Entry σ) (s : σ) (held : Held) (b b' : Bool) :
    rmdirDone K.watched dir dentry (watchedEntry e held b') ⟨s, held, b⟩ =
      ⟨rmdirDone K dir dentry e s, held, b⟩ := by
  simp only [rmdirDone]
  by_cases hnull : K.dInode (K.dDrop dentry s) dentry = NULL <;>
    simp [hnull, Kernel.watched, Watched.map, watchedEntry]

def unlinkLocked (K : Kernel σ) (dentry : Ptr) (s : σ) : Ptr :=
  let lowerPath := K.getLowerPath dentry s
  let lowerDir := K.lockParent lowerPath.1.dentry (K.dget lowerPath.1.dentry lowerPath.2)
  K.dInode lowerDir.2 lowerDir.1

def heldUnlink (e : Wrapfs.Entry σ) (inode : Ptr) : Held :=
  ⟨[e.lowerPath], [e.lowerDir, e.lowerPath.dentry], [(e.lowerDir, inode)], []⟩

theorem unlinkLower_watched (s : σ) (b : Bool) :
    unlinkLower K.watched dir dentry ⟨s, .none, b⟩ =
      watchedEntry (unlinkLower K dir dentry s)
        (heldUnlink (unlinkLower K dir dentry s) (unlinkLocked K dentry s))
        (b || !decide (K.lowerInode s dir = unlinkLocked K dentry s)) := by
  simp [unlinkLower, Kernel.watched, watchedEntry, heldUnlink, Watched.getPath, Watched.getDentry,
    Watched.lockDir, Watched.check, Watched.lift, Watched.map, Held.none, Held.Pins, Held.Locks,
    unlinkLocked]
  congr

theorem unlinkOut_watched (e : Wrapfs.Entry σ) (s : σ) (inode : Ptr) (held : Held) (b b' : Bool) :
    unlinkOut K.watched dentry (watchedEntry e held b') ⟨s, heldUnlink e inode, b⟩ =
      ⟨unlinkOut K dentry e s, .none, b⟩ := by
  simp [unlinkOut, Kernel.watched, watchedEntry, heldUnlink, Watched.putPath, Watched.putDentry,
    Watched.unlockDir, Watched.check, Watched.map, Held.none]

theorem wrapfsUnlink_watched (s : σ) (b : Bool) :
    wrapfsUnlink K.watched dir dentry ⟨s, .none, b⟩ =
      watchedOut (b || !decide (K.lowerInode s dir = unlinkLocked K dentry s))
        (wrapfsUnlink K dir dentry s) := by
  simp only [wrapfsUnlink, unlinkLower_watched]
  generalize unlinkLower K dir dentry s = e
  exact congrArg (Prod.mk e.err) ((congrArg _ (ite_watched ..)).trans (unlinkOut_watched ..))

theorem wrapfsMkdir_watched (mode : BitVec 16) (s : σ) (b : Bool) :
    wrapfsMkdir K.watched dir dentry mode ⟨s, .none, b⟩ =
      watchedOut b (wrapfsMkdir K dir dentry mode s) := by
  rw [wrapfsMkdir, mkdirLower_watched, mkdirRest_watched]
  rfl

theorem wrapfsRmdir_watched (s : σ) (b : Bool) :
    wrapfsRmdir K.watched dir dentry ⟨s, .none, b⟩ = watchedOut b (wrapfsRmdir K dir dentry s) := by
  simp only [wrapfsRmdir, rmdirLower_watched, apply_ite (watchedOut b)]
  generalize rmdirLower K dentry s = e
  refine ite_congr rfl (fun _ => ?_) fun _ => ?_
  · exact congrArg (Prod.mk e.err) (entryOut_watched ..)
  · exact congrArg (Prod.mk e.err)
      ((congrArg _ (rmdirDone_watched ..)).trans (entryOut_watched ..))

theorem trfsUnlink_watched (s : σ) (b : Bool) :
    trfsUnlink K.watched T dir dentry ⟨s, .none, b⟩ =
      (trfsUnlink K T dir dentry s).map
        (watchedExit (b || !decide (K.lowerInode s dir = unlinkLocked K dentry s))) := by
  simp only [trfsUnlink, unlinkLower_watched]
  generalize unlinkLower K dir dentry s = e
  generalize (b || !decide (K.lowerInode s dir = unlinkLocked K dentry s)) = b'
  have hrecord (held : Held) : unlinkRecord K.watched dir (watchedEntry e held b').err
      (watchedEntry e held b').state = unlinkRecord K dir e.err e.state := rfl
  rw [hrecord]
  rcases tracePath T dentry (unlinkRecord K dir e.err e.state) with f | err | submitted
  · rfl
  · exact ok_watched (unlinkOut_watched ..)
  · exact ok_watched ((congrArg _ (ite_watched ..)).trans (unlinkOut_watched ..))

theorem trfsMkdir_watched (mode : BitVec 16) (s : σ) (b : Bool) :
    trfsMkdir K.watched T dir dentry mode ⟨s, .none, b⟩ =
      (trfsMkdir K T dir dentry mode s).map (watchedExit b) := by
  simp only [trfsMkdir, mkdirLower_watched, mkdirRest_watched]
  generalize mkdirLower K dentry mode s = e
  have hrecord (held : Held) : mkdirRecord K.watched dir mode (watchedEntry e held b).err
      (watchedEntry e held b).state = mkdirRecord K dir mode e.err e.state := rfl
  rw [hrecord]
  rcases tracePath T dentry (mkdirRecord K dir mode e.err e.state) with f | err | submitted
  · rfl
  · exact ok_watched (entryOut_watched ..)
  · rfl

theorem trfsRmdir_watched (s : σ) (b : Bool) :
    trfsRmdir K.watched T dir dentry ⟨s, .none, b⟩ =
      (trfsRmdir K T dir dentry s).map (watchedExit b) := by
  simp only [trfsRmdir, rmdirLower_watched, apply_ite (Except.map (watchedExit b))]
  generalize rmdirLower K dentry s = e
  refine ite_congr rfl (fun _ => ?_) fun _ => ?_
  · exact ok_watched (entryOut_watched ..)
  have hrecord (held : Held) : rmdirRecord K.watched dir (watchedEntry e held b).err
      (watchedEntry e held b).state = rmdirRecord K dir e.err e.state := rfl
  rw [hrecord]
  rcases tracePath T dentry (rmdirRecord K dir e.err e.state) with f | err | submitted
  · rfl
  · exact ok_watched (entryOut_watched ..)
  · exact ok_watched ((congrArg _ (rmdirDone_watched ..)).trans (entryOut_watched ..))

end Entry

section Link

variable (oldDentry dir newDentry : Ptr)

def heldLink (l : Linking σ) (inode : Ptr) : Held :=
  ⟨[l.lowerNew, l.lowerOld], [l.lowerDir], [(l.lowerDir, inode)], []⟩

def watchedLinking (l : Linking σ) (held : Held) (misused : Bool) : Linking (Watched σ) :=
  ⟨l.fileSizeSave, l.lowerOld, l.lowerNew, l.lowerDir, l.err, ⟨l.state, held, misused⟩⟩

def linkLocked (K : Kernel σ) (oldDentry newDentry : Ptr) (s : σ) : Ptr :=
  lockedInode K newDentry (K.getLowerPath oldDentry s).2

theorem linkLower_watched (s : σ) (b : Bool) :
    linkLower K.watched oldDentry newDentry ⟨s, .none, b⟩ =
      watchedLinking (linkLower K oldDentry newDentry s)
        (heldLink (linkLower K oldDentry newDentry s) (linkLocked K oldDentry newDentry s)) b := by
  simp [linkLower, Kernel.watched, watchedLinking, heldLink, Watched.getPath, Watched.getDentry,
    Watched.lockDir, Watched.check, Watched.lift, Held.none, Held.Pins, Held.Locks, linkLocked,
    lockedInode]

theorem linkInterpose_watched (l : Linking σ) (inode : Ptr) (b : Bool) :
    linkInterpose K.watched dir newDentry (watchedLinking l (heldLink l inode) b) =
      ((linkInterpose K dir newDentry l).1,
        ⟨(linkInterpose K dir newDentry l).2, heldLink l inode, b⟩) := by
  simp [linkInterpose, Kernel.watched, watchedLinking, heldLink, Watched.check, Watched.lift]

theorem linkOut_watched (l : Linking σ) (s : σ) (inode : Ptr) (held : Held) (b b' : Bool) :
    linkOut K.watched oldDentry newDentry (watchedLinking l held b') ⟨s, heldLink l inode, b⟩ =
      ⟨linkOut K oldDentry newDentry l s, .none, b⟩ := by
  simp [linkOut, Kernel.watched, watchedLinking, heldLink, Watched.putPath, Watched.putDentry,
    Watched.unlockDir, Watched.check, Watched.map, Held.none, erase_pair]

theorem wrapfsLink_watched (s : σ) (b : Bool) :
    wrapfsLink K.watched oldDentry dir newDentry ⟨s, .none, b⟩ =
      watchedOut b (wrapfsLink K oldDentry dir newDentry s) := by
  simp only [wrapfsLink, linkLower_watched, apply_ite (watchedOut b)]
  generalize linkLower K oldDentry newDentry s = l
  refine ite_congr rfl (fun _ => ?_) fun _ => ?_
  · exact congrArg (Prod.mk l.err) (linkOut_watched ..)
  · rw [linkInterpose_watched]
    exact congrArg (Prod.mk _) ((congrArg _ (ite_watched ..)).trans (linkOut_watched ..))

theorem trfsLink_watched (s : σ) (b : Bool) :
    trfsLink K.watched T oldDentry dir newDentry ⟨s, .none, b⟩ =
      (trfsLink K T oldDentry dir newDentry s).map (watchedExit b) := by
  simp only [trfsLink, linkLower_watched, apply_ite (Except.map (watchedExit b))]
  generalize linkLower K oldDentry newDentry s = l
  refine ite_congr rfl (fun _ => ?_) fun _ => ?_
  · exact ok_watched (linkOut_watched ..)
  have hrecord (err : CInt) (t : σ) (held : Held) :
      linkRecord K.watched T dir err ⟨t, held, b⟩ = linkRecord K T dir err t := rfl
  simp only [linkInterpose_watched, hrecord]
  rcases tracePaths T oldDentry newDentry (linkRecord K T dir (linkInterpose K dir newDentry l).1
      (linkInterpose K dir newDentry l).2) with f | err | submitted
  · rfl
  · exact ok_watched (linkOut_watched ..)
  · exact ok_watched ((congrArg _ (ite_watched ..)).trans (linkOut_watched ..))

end Link

section Rename

variable (oldDir oldDentry newDir newDentry : Ptr)

def heldRename (l : Renaming σ) (oldInode newInode : Ptr) : Held :=
  { paths := [l.lowerNew, l.lowerOld]
    dentries := [l.lowerNewDir, l.lowerOldDir]
    dirs :=
      if l.lowerOldDir = l.lowerNewDir then [(l.lowerOldDir, oldInode)]
      else [(l.lowerNewDir, newInode), (l.lowerOldDir, oldInode)]
    inodes := [] }

def watchedRenaming (l : Renaming σ) (held : Held) (misused : Bool) : Renaming (Watched σ) :=
  ⟨l.lowerOld, l.lowerNew, l.lowerOldDir, l.lowerNewDir, l.trap, ⟨l.state, held, misused⟩⟩

def Renaming.locked (K : Kernel σ) (l : Renaming σ) : Held :=
  heldRename l (K.dInode l.state l.lowerOldDir) (K.dInode l.state l.lowerNewDir)

theorem renameLock_watched (s : σ) (b : Bool) :
    renameLock K.watched oldDentry newDentry ⟨s, .none, b⟩ =
      watchedRenaming (renameLock K oldDentry newDentry s)
        (Renaming.locked K (renameLock K oldDentry newDentry s)) b := rfl

theorem renameLower_watched (l : Renaming σ) (b : Bool) :
    renameLower K.watched (watchedRenaming l (Renaming.locked K l) b) =
      ((renameLower K l).1, ⟨(renameLower K l).2, Renaming.locked K l, b⟩) := by
  by_cases hsame : l.lowerOldDir = l.lowerNewDir <;>
    simp [hsame, renameLower, Kernel.watched, watchedRenaming, Renaming.locked, heldRename,
      Watched.check, Watched.lift, Held.Pins, Held.Locks]

theorem renameDone_watched (l : Renaming σ) (s : σ) (held : Held) (b b' : Bool) :
    renameDone K.watched oldDir newDir (watchedRenaming l held b') ⟨s, held, b⟩ =
      ⟨renameDone K oldDir newDir l s, held, b⟩ := ite_watched ..

theorem unlockDirs_heldRename (l : Renaming σ) (s : σ) (i j : Ptr) (b : Bool) :
    Watched.unlockDirs l.lowerOldDir l.lowerNewDir ⟨s, heldRename l i j, b⟩ =
      ⟨s, { heldRename l i j with dirs := [] }, b⟩ := by
  by_cases hsame : l.lowerOldDir = l.lowerNewDir
  · simp [hsame, Watched.unlockDirs, Watched.unlockDir, Watched.check, heldRename]
  · simp [hsame, Ne.symm hsame, Watched.unlockDirs, Watched.unlockDir, Watched.check, heldRename]

theorem renameOut_watched (l : Renaming σ) (s : σ) (i j : Ptr) (held : Held) (b b' : Bool) :
    renameOut K.watched oldDentry newDentry (watchedRenaming l held b') ⟨s, heldRename l i j, b⟩ =
      ⟨renameOut K oldDentry newDentry l s, .none, b⟩ := by
  simp only [renameOut, Kernel.watched, watchedRenaming, unlockDirs_heldRename]
  simp [heldRename, Watched.putPath, Watched.putDentry, Watched.check, Watched.map, Held.none,
    erase_pair]

def renameRest (K : Kernel σ) (l : Renaming σ) : CInt × σ :=
  match l.trapped with
  | some err => (err, renameOut K oldDentry newDentry l l.state)
  | none =>
    let call := renameLower K l
    (call.1, renameOut K oldDentry newDentry l
      (if call.1 = 0 then renameDone K oldDir newDir l call.2 else call.2))

theorem renameRest_watched (l : Renaming σ) (b : Bool) :
    renameRest oldDir oldDentry newDir newDentry K.watched
        (watchedRenaming l (Renaming.locked K l) b) =
      watchedOut b (renameRest oldDir oldDentry newDir newDentry K l) := by
  have htrapped : (watchedRenaming l (Renaming.locked K l) b).trapped = l.trapped := rfl
  unfold renameRest
  rw [htrapped]
  cases l.trapped with
  | some err => exact congrArg (Prod.mk err) (renameOut_watched ..)
  | none =>
    simp only [renameLower_watched]
    exact congrArg (Prod.mk _)
      ((congrArg _ ((if_congr Iff.rfl (renameDone_watched ..) rfl).trans (ite_watched ..))).trans
        (renameOut_watched ..))

theorem wrapfsRename_watched (s : σ) (b : Bool) :
    wrapfsRename K.watched oldDir oldDentry newDir newDentry ⟨s, .none, b⟩ =
      watchedOut b (wrapfsRename K oldDir oldDentry newDir newDentry s) :=
  renameRest_watched oldDir oldDentry newDir newDentry (renameLock K oldDentry newDentry s) b

theorem trfsRename_watched (s : σ) (b : Bool) :
    trfsRename K.watched T oldDir oldDentry newDir newDentry ⟨s, .none, b⟩ =
      (trfsRename K T oldDir oldDentry newDir newDentry s).map (watchedExit b) := by
  unfold trfsRename
  rw [renameLock_watched]
  obtain ⟨l, hl⟩ : ∃ l, renameLock K oldDentry newDentry s = l := ⟨_, rfl⟩
  have htrapped : (watchedRenaming l (Renaming.locked K l) b).trapped = l.trapped := rfl
  simp only [hl, htrapped]
  cases l.trapped with
  | some err =>
    exact ok_watched (renameOut_watched ..)
  | none =>
    have hrecord (t : σ) (held : Held) : renameRecord K.watched oldDir (renameLower K l).1
        ⟨t, held, b⟩ = renameRecord K oldDir (renameLower K l).1 t := rfl
    simp only [renameLower_watched, hrecord]
    rcases tracePaths T oldDentry newDentry
        (renameRecord K oldDir (renameLower K l).1 (renameLower K l).2) with f | err | submitted
    · rfl
    · exact ok_watched (renameOut_watched ..)
    · exact ok_watched
        ((congrArg _ ((if_congr Iff.rfl (renameDone_watched ..) rfl).trans (ite_watched ..))).trans
          (renameOut_watched ..))

end Rename

section Make

variable (dir dentry : Ptr) (call : Ptr → Ptr → σ → CInt × σ)

def madeEntry (V : Vfs σ) (dentry : Ptr) (call : Ptr → Ptr → σ → CInt × σ) (s : σ) :
    Wrapfs.Entry σ :=
  let lowerPath := V.getLowerPath dentry s
  let lowerDir := V.lockParent lowerPath.1.dentry lowerPath.2
  let made := call (V.dInode lowerDir.2 lowerDir.1) lowerPath.1.dentry lowerDir.2
  ⟨lowerPath.1, lowerDir.1, made.1, made.2⟩

def makeRest (V : Vfs σ) (dir dentry : Ptr) (e : Wrapfs.Entry σ) : CInt × σ :=
  if e.err ≠ 0 then (e.err, entryOut V.toKernel dentry e e.state)
  else
    let call := mkdirInterpose V.toKernel dir dentry e
    (call.1, entryOut V.toKernel dentry e
      (if call.1 = 0 then createDone V.toKernel dir e call.2 else call.2))

theorem makeEntry_eq (s : σ) :
    makeEntry V dir dentry call s = makeRest V dir dentry (madeEntry V dentry call s) := rfl

def watchedMake (inode lower : Ptr) (w : Watched σ) : CInt × Watched σ :=
  (w.check fun h => h.Pins lower ∧ h.Locks inode).lift (call inode lower)

theorem madeEntry_watched (s : σ) (b : Bool) :
    madeEntry V.watched dentry (watchedMake call) ⟨s, .none, b⟩ =
      watchedEntry (madeEntry V dentry call s)
        (heldEntry (madeEntry V dentry call s) (lockedInode V.toKernel dentry s)) b := by
  simp [madeEntry, watchedMake, Vfs.watched, Kernel.watched, watchedEntry, heldEntry,
    Watched.getPath, Watched.getDentry, Watched.lockDir, Watched.check, Watched.lift, Held.none,
    Held.Pins, Held.Locks, lockedInode]

theorem makeEntry_watched (s : σ) (b : Bool) :
    makeEntry V.watched dir dentry (watchedMake call) ⟨s, .none, b⟩ =
      watchedOut b (makeEntry V dir dentry call s) := by
  rw [makeEntry_eq, makeEntry_eq, madeEntry_watched]
  generalize madeEntry V dentry call s = e
  have hkernel : V.watched.toKernel = V.toKernel.watched := rfl
  simp only [makeRest, hkernel, apply_ite (watchedOut b)]
  refine ite_congr rfl (fun _ => ?_) fun _ => ?_
  · exact congrArg (Prod.mk e.err) (entryOut_watched ..)
  · rw [mkdirInterpose_watched]
    exact congrArg (Prod.mk _) ((congrArg _ (ite_watched ..)).trans (entryOut_watched ..))

end Make

section LowerPath

variable (dentry : Ptr)

def heldPath (lowerPath : Path) : Held := ⟨[lowerPath], [], [], []⟩

def KeepsPath (body : Path → σ → CInt × σ) (body' : Path → Watched σ → CInt × Watched σ) : Prop :=
  ∀ p s b, body' p ⟨s, heldPath p, b⟩ = watchedAt (heldPath p) b (body p s)

theorem onLowerPath_at {body : Path → σ → CInt × σ}
    {body' : Path → Watched σ → CInt × Watched σ} {s : σ} {b : Bool}
    (h : body' (V.getLowerPath dentry s).1
        ⟨(V.getLowerPath dentry s).2, heldPath (V.getLowerPath dentry s).1, b⟩ =
      watchedAt (heldPath (V.getLowerPath dentry s).1) b
        (body (V.getLowerPath dentry s).1 (V.getLowerPath dentry s).2)) :
    onLowerPath V.watched dentry body' ⟨s, .none, b⟩ =
      watchedOut b (onLowerPath V dentry body s) := by
  have hget : V.watched.getLowerPath dentry ⟨s, .none, b⟩ =
      ((V.getLowerPath dentry s).1,
        ⟨(V.getLowerPath dentry s).2, heldPath (V.getLowerPath dentry s).1, b⟩) := rfl
  simp only [onLowerPath, hget, h]
  simp [Vfs.watched, Kernel.watched, Watched.putPath, Watched.check, Watched.map, heldPath,
    watchedAt, Held.none]

theorem onLowerPath_watched {body : Path → σ → CInt × σ}
    {body' : Path → Watched σ → CInt × Watched σ} (h : KeepsPath body body') (s : σ) (b : Bool) :
    onLowerPath V.watched dentry body' ⟨s, .none, b⟩ =
      watchedOut b (onLowerPath V dentry body s) := onLowerPath_at dentry (h ..)

theorem onLowerPath_misused {body' : Path → Watched σ → CInt × Watched σ} {s : σ} {b : Bool}
    (h : (body' (V.getLowerPath dentry s).1
      ⟨(V.getLowerPath dentry s).2, heldPath (V.getLowerPath dentry s).1, b⟩).2.misused = true) :
    (onLowerPath V.watched dentry body' ⟨s, .none, b⟩).2.misused = true :=
  Bool.or_eq_true_iff.mpr (.inl h)

theorem readlinkLower_watched (buf : Ptr) (bufsiz : CInt) :
    KeepsPath (readlinkLower V dentry buf bufsiz) (readlinkLower V.watched dentry buf bufsiz) := by
  intro p s b
  have hcall : V.watched.readlink p.dentry buf bufsiz ⟨s, heldPath p, b⟩ =
      watchedAt (heldPath p) b (V.readlink p.dentry buf bufsiz s) := by
    simp [Vfs.watched, Watched.check, Watched.lift, heldPath, Held.Pins, watchedAt]
  simp only [readlinkLower, hcall, apply_ite (watchedAt (heldPath p) b)]
  exact ite_congr rfl (fun _ => rfl) fun _ => ite_congr rfl (fun _ => rfl) fun _ => rfl

theorem getattrLower_watched (stat : Ptr) :
    KeepsPath (getattrLower V dentry stat) (getattrLower V.watched dentry stat) := by
  intro p s b
  have hcall : V.watched.vfsGetattr p ⟨s, heldPath p, b⟩ =
      ((V.vfsGetattr p s).1, ⟨(V.vfsGetattr p s).2, heldPath p, b⟩) := by
    simp [Vfs.watched, Watched.check, Watched.lift, heldPath]
  simp only [getattrLower, hcall, apply_ite (watchedAt (heldPath p) b)]
  exact ite_congr rfl (fun _ => rfl) fun _ => rfl

theorem xattrLower_watched (x : Xattr) :
    KeepsPath (xattrLower V dentry x) (xattrLower V.watched dentry x) := by
  intro p s b
  have hcall : V.watched.vfsXattr p.dentry x ⟨s, heldPath p, b⟩ =
      watchedAt (heldPath p) b (V.vfsXattr p.dentry x s) := by
    simp [Vfs.watched, Watched.check, Watched.lift, heldPath, Held.Pins, watchedAt]
  simp only [xattrLower, hcall, apply_ite (watchedAt (heldPath p) b)]
  refine ite_congr rfl (fun _ => rfl) fun _ => ite_congr rfl (fun _ => rfl) fun _ => ?_
  cases x <;> rfl

theorem vfsStatfs_watched (buf : Ptr) :
    KeepsPath (fun p => V.vfsStatfs p buf) (fun p => V.watched.vfsStatfs p buf) := by
  intro p s b
  simp [Vfs.watched, Watched.check, Watched.lift, heldPath, watchedAt]

theorem revalidate_watched (flags : BitVec 32) :
    KeepsPath
      (fun p s => if V.opRevalidate s p.dentry = false then (1, s)
        else V.dRevalidate p.dentry flags s)
      (fun p w => if V.watched.opRevalidate w p.dentry = false then (1, w)
        else V.watched.dRevalidate p.dentry flags w) := by
  intro p s b
  have hcall : V.watched.dRevalidate p.dentry flags ⟨s, heldPath p, b⟩ =
      watchedAt (heldPath p) b (V.dRevalidate p.dentry flags s) := by
    simp [Vfs.watched, Watched.check, Watched.lift, heldPath, Held.Pins, watchedAt]
  simp only [hcall, apply_ite (watchedAt (heldPath p) b)]
  exact ite_congr rfl (fun _ => rfl) fun _ => rfl

theorem trfsStatfs_watched (buf : Ptr) (s : σ) (b : Bool) :
    trfsStatfs V.watched dentry buf ⟨s, .none, b⟩ = watchedOut b (trfsStatfs V dentry buf s) := by
  simp only [trfsStatfs, onLowerPath_watched dentry (vfsStatfs_watched buf)]
  rfl

theorem trfsFsync_watched (file : Ptr) (start stop : BitVec 64) (datasync : CInt) (s : σ)
    (b : Bool) :
    trfsFsync V.watched file start stop datasync ⟨s, .none, b⟩ =
      watchedOut b (trfsFsync V file start stop datasync s) := by
  simp only [trfsFsync, apply_ite (watchedOut b)]
  refine ite_congr rfl (fun _ => rfl) fun _ => ?_
  exact onLowerPath_watched (V.fileDentry file) (fun _ _ _ => rfl) _ b

theorem trfsDRevalidate_watched (flags : BitVec 32) (s : σ) (b : Bool) :
    trfsDRevalidate V.watched dentry flags ⟨s, .none, b⟩ =
      watchedOut b (trfsDRevalidate V dentry flags s) := by
  simp only [trfsDRevalidate, apply_ite (watchedOut b)]
  exact ite_congr rfl (fun _ => rfl) fun _ =>
    onLowerPath_watched dentry (revalidate_watched flags) s b

theorem lowerIattr_has (ia : Iattr) (s : σ) :
    ¬ ((lowerIattr V ia s).Has ATTR_MODE ∧
      (lowerIattr V ia s).Has (ATTR_KILL_SUID ||| ATTR_KILL_SGID)) := by
  obtain ⟨lowerIa, hlower⟩ : ∃ lowerIa : Iattr, lowerIattr V ia s =
      if lowerIa.Has (ATTR_KILL_SUID ||| ATTR_KILL_SGID) then
        { lowerIa with iaValid := lowerIa.iaValid &&& ~~~ATTR_MODE }
      else lowerIa := ⟨_, rfl⟩
  rw [hlower]
  split
  case isTrue =>
    rintro ⟨hmode, -⟩
    apply hmode
    change lowerIa.iaValid &&& ~~~ATTR_MODE &&& ATTR_MODE = 0
    rw [BitVec.and_assoc, BitVec.not_and_self]
    exact BitVec.and_zero
  case isFalse hno => exact fun h => hno h.2

theorem setattrSize_watched (inode : Ptr) (ia : Iattr) (s : σ) (held : Held) (b : Bool) :
    setattrSize V.watched inode ia ⟨s, held, b⟩ = watchedAt held b (setattrSize V inode ia s) := by
  simp only [setattrSize, apply_ite (watchedAt held b)]
  exact ite_congr rfl (fun _ => ite_congr rfl (fun _ => rfl) fun _ => rfl) fun _ => rfl

def NotifySteady (V : Vfs σ) (lowerDentry : Ptr) (ia : Iattr) (s : σ) : Prop :=
  let inode := V.dInode s lowerDentry
  let locked := V.inodeLock inode s
  V.dInode locked lowerDentry = inode ∧
    V.dInode (V.notifyChange lowerDentry ia locked).2 lowerDentry = inode

theorem notifyLower_watched {ia : Iattr}
    (hia : ¬ (ia.Has ATTR_MODE ∧ ia.Has (ATTR_KILL_SUID ||| ATTR_KILL_SGID))) {p : Path} {s : σ}
    (hsteady : NotifySteady V p.dentry ia s) (b : Bool) :
    notifyLower V.watched p.dentry ia ⟨s, heldPath p, b⟩ =
      watchedAt (heldPath p) b (notifyLower V p.dentry ia s) := by
  obtain ⟨hlocked, hchanged⟩ := hsteady
  simp [notifyLower, Vfs.watched, Kernel.watched, Watched.lockInode, Watched.unlockInode,
    Watched.check, Watched.lift, Watched.map, heldPath, Held.Pins, watchedAt, hia, hlocked,
    hchanged]

theorem notifyLower_misused {ia : Iattr} {p : Path} {s : σ}
    (hsteady : ¬ NotifySteady V p.dentry ia s) (b : Bool) :
    (notifyLower V.watched p.dentry ia ⟨s, heldPath p, b⟩).2.misused = true := by
  by_contra hused
  apply hsteady
  simp [notifyLower, Vfs.watched, Kernel.watched, Watched.lockInode, Watched.unlockInode,
    Watched.check, Watched.lift, Watched.map, heldPath, Held.Pins] at hused
  exact ⟨hused.1.2.1, hused.2⟩

def SetattrSteady (V : Vfs σ) (dentry : Ptr) (ia : Iattr) (s : σ) : Prop :=
  let inode := V.dInode s dentry
  let checked := V.inodeChangeOk s inode ia
  let lowerPath := V.getLowerPath dentry s
  let sized := setattrSize V inode checked.2 lowerPath.2
  checked.1 = 0 → sized.1 = 0 →
    NotifySteady V lowerPath.1.dentry (lowerIattr V checked.2 lowerPath.2) sized.2

theorem setattrLower_watched (inode : Ptr) (ia : Iattr) {p : Path} {s : σ}
    (hsteady : (setattrSize V inode ia s).1 = 0 →
      NotifySteady V p.dentry (lowerIattr V ia s) (setattrSize V inode ia s).2) (b : Bool) :
    setattrLower V.watched inode ia p ⟨s, heldPath p, b⟩ =
      watchedAt (heldPath p) b (setattrLower V inode ia p s) := by
  simp only [setattrLower, setattrSize_watched, apply_ite (watchedAt (heldPath p) b)]
  refine ite_congr rfl (fun _ => rfl) fun hsized => ?_
  have hcall : notifyLower V.watched p.dentry (lowerIattr V.watched ia ⟨s, heldPath p, b⟩)
        (watchedAt (heldPath p) b (setattrSize V inode ia s)).2 =
      watchedAt (heldPath p) b
        (notifyLower V p.dentry (lowerIattr V ia s) (setattrSize V inode ia s).2) :=
    notifyLower_watched (lowerIattr_has ia s) (hsteady (not_not.mp hsized)) b
  rw [hcall]
  exact ite_congr rfl (fun _ => rfl) fun _ => rfl

theorem setattrLower_misused (inode : Ptr) (ia : Iattr) {p : Path} {s : σ}
    (hsized : (setattrSize V inode ia s).1 = 0)
    (hsteady : ¬ NotifySteady V p.dentry (lowerIattr V ia s) (setattrSize V inode ia s).2)
    (b : Bool) : (setattrLower V.watched inode ia p ⟨s, heldPath p, b⟩).2.misused = true := by
  have hcall : (notifyLower V.watched p.dentry (lowerIattr V.watched ia ⟨s, heldPath p, b⟩)
      (watchedAt (heldPath p) b (setattrSize V inode ia s)).2).2.misused = true :=
    notifyLower_misused hsteady b
  have hpass : ¬ (watchedAt (heldPath p) b (setattrSize V inode ia s)).1 ≠ 0 := not_not.mpr hsized
  simp only [setattrLower, setattrSize_watched]
  rw [if_neg hpass]
  split
  · exact hcall
  · exact hcall

theorem trfsSetattr_watched (ia : Iattr) {s : σ} (hsteady : SetattrSteady V dentry ia s)
    (b : Bool) :
    trfsSetattr V.watched dentry ia ⟨s, .none, b⟩ =
      watchedOut b (trfsSetattr V dentry ia s) := by
  simp only [trfsSetattr, apply_ite (watchedOut b)]
  refine ite_congr rfl (fun _ => rfl) fun hchecked => ?_
  exact onLowerPath_at dentry (setattrLower_watched _ _ (hsteady (not_not.mp hchecked)) b)

theorem trfsSetattr_misused (ia : Iattr) {s : σ} (hsteady : ¬ SetattrSteady V dentry ia s)
    (b : Bool) : (trfsSetattr V.watched dentry ia ⟨s, .none, b⟩).2.misused = true := by
  simp only [SetattrSteady, Classical.not_imp] at hsteady
  obtain ⟨hchecked, hsized, hnotify⟩ := hsteady
  have hpass : ¬ (V.watched.inodeChangeOk ⟨s, .none, b⟩ (V.watched.dInode ⟨s, .none, b⟩ dentry)
      ia).1 ≠ 0 := not_not.mpr hchecked
  simp only [trfsSetattr]
  rw [if_neg hpass]
  exact onLowerPath_misused dentry (setattrLower_misused _ _ hsized hnotify b)

end LowerPath

inductive Op where
  | traced (call : Call) (T : Tracing)
  | plain (call : Call)
  | create (c : Creation)
  | symlink (dir dentry symname : Ptr)
  | mknod (dir dentry : Ptr) (mode : BitVec 16) (dev : BitVec 32)
  | readlink (dentry buf : Ptr) (bufsiz : CInt)
  | permission (inode : Ptr) (mask : CInt)
  | setattr (dentry : Ptr) (ia : Iattr)
  | getattr (dentry stat : Ptr)
  | xattr (dentry : Ptr) (x : Xattr)
  | statfs (dentry buf : Ptr)
  | fsync (file : Ptr) (start stop : BitVec 64) (datasync : CInt)
  | revalidate (dentry : Ptr) (flags : BitVec 32)

def Op.exec (V : Vfs σ) (P : PageSize) (s : σ) : Op → Option σ
  | .traced call T => (call.trfs V.toKernel T P s).toOption.map Exit.state
  | .plain call => some (call.wrapfs V.toKernel s).2
  | .create c => some (trfsCreate V.toKernel V.vfsCreate c s).2
  | .symlink dir dentry symname => some (trfsSymlink V dir dentry symname s).2
  | .mknod dir dentry mode dev => some (trfsMknod V dir dentry mode dev s).2
  | .readlink dentry buf bufsiz => some (trfsReadlink V dentry buf bufsiz s).2
  | .permission inode mask => some (trfsPermission V inode mask s).2
  | .setattr dentry ia => some (trfsSetattr V dentry ia s).2
  | .getattr dentry stat => some (trfsGetattr V dentry stat s).2
  | .xattr dentry x => some (trfsXattr V dentry x s).2
  | .statfs dentry buf => some (trfsStatfs V dentry buf s).2
  | .fsync file start stop datasync => some (trfsFsync V file start stop datasync s).2
  | .revalidate dentry flags => some (trfsDRevalidate V dentry flags s).2

/-- An unlink takes the lower directory's inode from the upper one, and has to find it under the
lower parent that it locks. -/
def Op.Steady (V : Vfs σ) (s : σ) : Op → Prop
  | .traced (.unlink dir dentry) _ | .plain (.unlink dir dentry) =>
    V.lowerInode s dir = unlinkLocked V.toKernel dentry s
  | .setattr dentry ia => SetattrSteady V dentry ia s
  | _ => True

def Watched.settled (s : σ) : Watched σ := ⟨s, .none, false⟩

theorem Call.trfs_watched (c : Call) {s : σ} (hsteady : (Op.traced c T).Steady V s) :
    c.trfs V.toKernel.watched T P ⟨s, .none, false⟩ =
      (c.trfs V.toKernel T P s).map (watchedExit false) := by
  cases c with
  | readdir file ctx => exact trfsReaddir_watched file s false ctx
  | open_ inode file => exact trfsOpen_watched file s false inode
  | read file buf count ppos => exact trfsRead_watched file s false buf count ppos
  | write file buf count ppos => exact trfsWrite_watched file s false buf count ppos
  | close file owner => exact trfsFlush_watched file s false owner
  | mkdir dir dentry mode => exact trfsMkdir_watched dir dentry mode s false
  | unlink dir dentry =>
    have hparent : V.lowerInode s dir = unlinkLocked V.toKernel dentry s := hsteady
    have h := trfsUnlink_watched (K := V.toKernel) (T := T) dir dentry s false
    rw [decide_eq_true hparent] at h
    exact h
  | link oldDentry dir newDentry => exact trfsLink_watched oldDentry dir newDentry s false
  | rename oldDir oldDentry newDir newDentry =>
    exact trfsRename_watched oldDir oldDentry newDir newDentry s false
  | rmdir dir dentry => exact trfsRmdir_watched dir dentry s false

theorem Call.wrapfs_watched (c : Call) {s : σ} (hsteady : (Op.plain c).Steady V s) :
    c.wrapfs V.toKernel.watched ⟨s, .none, false⟩ =
      watchedOut false (c.wrapfs V.toKernel s) := by
  cases c with
  | readdir file ctx => exact wrapfsReaddir_watched file s false ctx
  | open_ inode file => exact wrapfsOpen_watched file s false inode
  | read file buf count ppos => exact wrapfsRead_watched file s false buf count ppos
  | write file buf count ppos => exact wrapfsWrite_watched file s false buf count ppos
  | close file owner => exact wrapfsFlush_watched file s false owner
  | mkdir dir dentry mode => exact wrapfsMkdir_watched dir dentry mode s false
  | unlink dir dentry =>
    have hparent : V.lowerInode s dir = unlinkLocked V.toKernel dentry s := hsteady
    have h := wrapfsUnlink_watched (K := V.toKernel) dir dentry s false
    rw [decide_eq_true hparent] at h
    exact h
  | link oldDentry dir newDentry => exact wrapfsLink_watched oldDentry dir newDentry s false
  | rename oldDir oldDentry newDir newDentry =>
    exact wrapfsRename_watched oldDir oldDentry newDir newDentry s false
  | rmdir dir dentry => exact wrapfsRmdir_watched dir dentry s false

theorem Op.exec_watched {op : Op} {s : σ} (hsteady : op.Steady V s) :
    op.exec V.watched P (Watched.settled s) = (op.exec V P s).map Watched.settled := by
  have hout {x : CInt × Watched σ} {y : CInt × σ} (h : x = watchedOut false y) :
      some x.2 = (some y.2).map Watched.settled := by
    rw [h]
    rfl
  cases op with
  | traced call T =>
    have h := Call.trfs_watched (P := P) call hsteady
    change (call.trfs V.toKernel.watched T P ⟨s, .none, false⟩).toOption.map Exit.state = _
    rw [h, Op.exec]
    cases call.trfs V.toKernel T P s <;> rfl
  | plain call => exact hout (Call.wrapfs_watched call hsteady)
  | create c =>
    exact hout (makeEntry_watched c.dir c.dentry
      (fun inode lower => V.vfsCreate inode lower c.mode c.wantExcl) s false)
  | symlink dir dentry symname =>
    exact hout (makeEntry_watched dir dentry
      (fun inode lower => V.vfsSymlink inode lower symname) s false)
  | mknod dir dentry mode dev =>
    exact hout (makeEntry_watched dir dentry
      (fun inode lower => V.vfsMknod inode lower mode dev) s false)
  | readlink dentry buf bufsiz =>
    exact hout (onLowerPath_watched dentry (readlinkLower_watched dentry buf bufsiz) s false)
  | permission inode mask => rfl
  | setattr dentry ia => exact hout (trfsSetattr_watched dentry ia hsteady false)
  | getattr dentry stat =>
    exact hout (onLowerPath_watched dentry (getattrLower_watched dentry stat) s false)
  | xattr dentry x =>
    exact hout (onLowerPath_watched dentry (xattrLower_watched dentry x) s false)
  | statfs dentry buf => exact hout (trfsStatfs_watched dentry buf s false)
  | fsync file start stop datasync =>
    exact hout (trfsFsync_watched file start stop datasync s false)
  | revalidate dentry flags => exact hout (trfsDRevalidate_watched dentry flags s false)

theorem Op.exec_misused {op : Op} {s : σ} (hsteady : ¬ op.Steady V s) {w : Watched σ}
    (h : op.exec V.watched P (Watched.settled s) = some w) : w.misused = true := by
  cases op with
  | traced call T =>
    cases call with
    | unlink dir dentry =>
      have hparent : ¬ V.lowerInode s dir = unlinkLocked V.toKernel dentry s := hsteady
      have hunlink := trfsUnlink_watched (K := V.toKernel) (T := T) dir dentry s false
      rw [decide_eq_false hparent] at hunlink
      change (trfsUnlink V.toKernel.watched T dir dentry ⟨s, .none, false⟩).toOption.map
        Exit.state = some w at h
      rw [hunlink] at h
      cases hexit : trfsUnlink V.toKernel T dir dentry s with
      | error f =>
        rw [hexit] at h
        cases h
      | ok x =>
        rw [hexit] at h
        cases h
        rfl
    | _ => exact absurd trivial hsteady
  | plain call =>
    cases call with
    | unlink dir dentry =>
      have hparent : ¬ V.lowerInode s dir = unlinkLocked V.toKernel dentry s := hsteady
      have hunlink := wrapfsUnlink_watched (K := V.toKernel) dir dentry s false
      rw [decide_eq_false hparent] at hunlink
      cases h
      exact congrArg (fun x => x.2.misused) hunlink
    | _ => exact absurd trivial hsteady
  | setattr dentry ia =>
    cases h
    exact trfsSetattr_misused dentry ia hsteady false
  | _ => exact absurd trivial hsteady

/-- After each of a run's operations, all that was taken has been given back and every lower call
so far was made under what it needs, exactly when all of the run's unlinks and setattrs are
steady. -/
theorem Op.balanced_iff (V : Vfs σ) (P : PageSize) {s : σ} {ops : List Op} {w : Watched σ}
    (h : run (Op.exec V.watched P) (Watched.settled s) ops = some w) :
    (∀ pre post t, ops = pre ++ post →
        run (Op.exec V.watched P) (Watched.settled s) pre = some t →
        t.held = .none ∧ t.misused = false) ↔
      Along (Op.Steady V) (Op.exec V P) s ops := by
  have halong : Along (fun w op => Op.Steady V w.state op) (Op.exec V.watched P)
      (Watched.settled s) ops ↔ Along (Op.Steady V) (Op.exec V P) s ops :=
    along_map_iff (f := Watched.settled) (fun _ _ => .rfl) fun _ _ => Op.exec_watched
  rw [← halong]
  refine run_holds_iff_along (fun w => w.held = .none ∧ w.misused = false) (fun _ hw => hw) ?_
    ⟨rfl, rfl⟩ h
  rintro ⟨t, held, misused⟩ op w ⟨rfl, rfl⟩ hop
  constructor
  · intro hsteady
    rw [show (⟨t, .none, false⟩ : Watched σ) = Watched.settled t from rfl,
      Op.exec_watched hsteady] at hop
    obtain ⟨u, -, rfl⟩ := Option.map_eq_some_iff.mp hop
    exact ⟨rfl, rfl⟩
  · rintro ⟨-, hfine⟩
    by_contra hsteady
    rw [Op.exec_misused hsteady hop] at hfine
    cases hfine

theorem Op.balanced_iff_inert :
    (∀ pre post t, [Op.plain (.rename 1 2 1 3), .traced (.unlink 4 4) .plenty,
          .setattr 5 ⟨ATTR_SIZE, 0, 0, NULL, 0⟩] = pre ++ post →
        run (Op.exec (Vfs.inert : Vfs Unit).watched .small) (Watched.settled ()) pre = some t →
        t.held = .none ∧ t.misused = false) ↔
      Along (Op.Steady (Vfs.inert : Vfs Unit)) (Op.exec Vfs.inert .small) ()
        [Op.plain (.rename 1 2 1 3), .traced (.unlink 4 4) .plenty,
          .setattr 5 ⟨ATTR_SIZE, 0, 0, NULL, 0⟩] :=
  Op.balanced_iff _ _ rfl

end TraceFS.Trfs
