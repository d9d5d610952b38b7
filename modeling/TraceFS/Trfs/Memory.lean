import TraceFS.Lib.Blocks
import TraceFS.Lib.Run
import TraceFS.Trfs.Submits

universe u

namespace TraceFS.Trfs

open TraceFS.Lib TraceFS.Linux TraceFS.Wrapfs

inductive Block where
  | record
  | path
  | newPath
  | data
  | copyBuffer
  | work
  deriving DecidableEq

structure RecordAt where
  addr : Nat
  path : Option Nat
  newPath : Option Nat
  data : Option Nat
  logRwLarge : Bool

structure WorkAt where
  addr : Nat
  ptr : RecordAt

/-- Beside the blocks and the queue: the records of large transfers, before `flush_workqueue` and
while it waits, and how often a freed block was read or a block freed that was not there. -/
structure Memory where
  blocks : Blocks Block
  queue : List WorkAt
  large : List Nat
  flushing : List Nat
  staleReads : Nat
  badFrees : Nat

namespace Memory

def start : Memory := ⟨.empty, [], [], [], 0, 0⟩

def kmalloc (granted : Bool) (k : Block) (m : Memory) : Option Nat × Memory :=
  if granted then (some m.blocks.next, { m with blocks := m.blocks.alloc k }) else (none, m)

def kfree (m : Memory) : Option Nat → Memory
  | none => m
  | some b =>
    if m.blocks.Live b then { m with blocks := m.blocks.free b }
    else { m with badFrees := m.badFrees + 1 }

def read (m : Memory) (b : Nat) : Memory :=
  if m.blocks.Live b then m else { m with staleReads := m.staleReads + 1 }

end Memory

section Build

variable (T : Tracing) (P : PageSize)

def pathRecordAt (m : Memory) : Option RecordAt × Memory :=
  match m.kmalloc T.recordAlloc .record with
  | (none, m) => (none, m)
  | (some r, m) =>
    match m.kmalloc T.pathAlloc .path with
    | (none, m) => (none, m)
    | (some p, m) => (some ⟨r, some p, none, none, false⟩, m)

def pathsRecordAt (data : Option Nat) (m : Memory) : Option RecordAt × Memory :=
  match m.kmalloc T.recordAlloc .record with
  | (none, m) => (none, m)
  | (some r, m) =>
    match m.kmalloc T.pathAlloc .path with
    | (none, m) => (none, m)
    | (some p, m) =>
      match m.kmalloc T.newPathAlloc .newPath with
      | (none, m) => (none, m)
      | (some q, m) => (some ⟨r, some p, some q, data, false⟩, m)

/-- The record of an open goes to the queue without its path too. -/
def openRecordAt (m : Memory) : Option RecordAt × Memory :=
  match m.kmalloc T.recordAlloc .record with
  | (none, m) => (none, m)
  | (some r, m) =>
    let p := m.kmalloc T.pathAlloc .path
    (some ⟨r, p.1, none, none, false⟩, p.2)

def closeRecordAt (m : Memory) : Option RecordAt × Memory :=
  match m.kmalloc T.recordAlloc .record with
  | (none, m) => (none, m)
  | (some r, m) => (some ⟨r, none, none, none, false⟩, m)

/-- A read or write whose lower call has succeeded; `copy_buffer` is given back on every way out.
After a transfer of no bytes `data` is not NULL either, and counts as a block. -/
def transferRecordAt (r : Record) (m : Memory) : Option RecordAt × Memory :=
  match m.kmalloc T.recordAlloc .record with
  | (none, m) => (none, m)
  | (some addr, m) =>
    if P.capacity ≤ r.recordSize.toNat then
      if checkBit T.bitmap r.type = false then (none, m)
      else (some ⟨addr, none, none, none, true⟩, m)
    else
      match m.kmalloc T.dataAlloc .data with
      | (none, m) => (none, m)
      | (some data, m) =>
        match m.kmalloc T.copyAlloc .copyBuffer with
        | (none, m) => (none, m)
        | (some copy, m) =>
          (if T.copyFault then none else some ⟨addr, none, none, some data, false⟩,
            m.kfree (some copy))

/-- `readdir` logs its record itself and gives it back. -/
def readdirRecordAt (m : Memory) : Memory :=
  match m.kmalloc T.recordAlloc .record with
  | (none, m) => m
  | (some r, m) =>
    let p := m.kmalloc T.pathAlloc .path
    (p.2.kfree p.1).kfree (some r)

def Memory.eworkqueueInit (r : RecordAt) (m : Memory) : Memory :=
  match m.kmalloc T.workAlloc .work with
  -- `INIT_WORK` through the null pointer
  | (none, m) => m
  | (some w, m) =>
    { m with
      queue := if T.queueAlloc then m.queue ++ [⟨w, r⟩] else m.queue
      -- `flush_workqueue` of no queue crashes
      large := if r.logRwLarge && T.queueAlloc then r.addr :: m.large else m.large }

def Memory.queued : Option RecordAt × Memory → Memory
  | (none, m) => m
  | (some r, m) => m.eworkqueueInit T r

variable {σ : Type u} (K : Kernel σ)

def Call.recordAt (data : Option Nat) (s : σ) : Call → Memory → Option RecordAt × Memory
  | .readdir .., m => (none, readdirRecordAt T m)
  | .open_ .., m => openRecordAt T m
  | .read file buf count ppos, m =>
    let call := K.vfsRead (K.lowerFile s file) buf count ppos s
    if 0 ≤ call.1.toInt then transferRecordAt T P (readRecord K file call.1 call.2) m
    else (none, m)
  | .write file buf count ppos, m =>
    let call := K.vfsWrite (K.lowerFile s file) buf count ppos s
    if 0 ≤ call.1.toInt then transferRecordAt T P (writeRecord K file call.1 call.2) m
    else (none, m)
  | .close .., m => closeRecordAt T m
  | .mkdir .., m | .unlink .., m => pathRecordAt T m
  | .rmdir _ dentry, m => if (rmdirLower K dentry s).err ≠ 0 then (none, m) else pathRecordAt T m
  | .link oldDentry _ newDentry, m =>
    if (linkLower K oldDentry newDentry s).Stops K then (none, m) else pathsRecordAt T data m
  | .rename _ oldDentry _ newDentry, m =>
    if (renameLock K oldDentry newDentry s).trapped.isSome then (none, m)
    else pathsRecordAt T none m

def Call.memory (data : Option Nat) (s : σ) (c : Call) (m : Memory) : Memory :=
  Memory.queued T (c.recordAt T P K data s m)

end Build

/-- `ework_handler`: `stale` is what it finds at `rptr->data` after it has freed `rptr`. -/
def Memory.eworkHandler (m : Memory) (w : WorkAt) (stale : Option Nat) : Memory :=
  let m := (m.read w.addr).read w.ptr.addr
  -- `log_record` goes by the pointers of the record
  let m := (w.ptr.path.toList ++ w.ptr.newPath.toList ++ w.ptr.data.toList).foldl Memory.read m
  let m := (m.kfree w.ptr.path).kfree (some w.ptr.addr)
  (m.read w.ptr.addr).kfree stale

namespace Memory

variable (P : PageSize)

inductive Label where
  | call (x : CallRun P) (data : Option Nat)
  | work (stale : Option Nat)
  /-- `flush_workqueue(r->sb_private->eWq)` is called -/
  | flush (r : Nat)
  /-- `flush_workqueue` has returned, and `r->data_length` goes to `vfs_write` -/
  | resume (r : Nat)

variable {P}

def step (m : Memory) : Label P → Option Memory
  | .call x data => some (x.call.memory x.T P x.K data x.s m)
  | .work stale =>
    match m.queue with
    | [] => none
    | w :: queue => some ({ m with queue := queue }.eworkHandler w stale)
  | .flush r =>
    if r ∈ m.large then
      some { m.read r with large := m.large.erase r, flushing := r :: m.flushing }
    else none
  | .resume r =>
    if r ∈ m.flushing ∧ ∀ w ∈ m.queue, w.ptr.addr ≠ r then
      some { m.read r with flushing := m.flushing.erase r }
    else none

end Memory

section Lost

variable (T : Tracing)

/-- What is left behind for good of a record on its way to the queue, if these are its blocks:
`ework_handler` keeps the `my_work_t`, and without a queue nobody gets to the record. -/
def Tracing.queueLost (owned : List Block) : List Block :=
  if T.workAlloc = false then owned
  else if T.queueAlloc then [.work]
  else .work :: owned

def Tracing.pathLost : List Block :=
  if T.recordAlloc = false then []
  else if T.pathAlloc = false then [.record]
  else T.queueLost [.record, .path]

def Tracing.pathsLost : List Block :=
  if T.recordAlloc = false then []
  else if T.pathAlloc = false then [.record]
  else if T.newPathAlloc = false then [.path, .record]
  else .newPath :: T.queueLost [.record, .path]

def Tracing.openLost : List Block :=
  if T.recordAlloc = false then []
  else if T.pathAlloc = false then T.queueLost [.record]
  else T.queueLost [.record, .path]

def Tracing.closeLost : List Block :=
  if T.recordAlloc = false then [] else T.queueLost [.record]

def Tracing.transferLost (P : PageSize) (r : Record) : List Block :=
  if T.recordAlloc = false then []
  else if P.capacity ≤ r.recordSize.toNat then
    if checkBit T.bitmap r.type = false then [.record] else T.queueLost [.record]
  else if T.dataAlloc = false then [.record]
  else if T.copyAlloc = false then [.data, .record]
  else if T.copyFault then [.data, .record]
  else T.queueLost [.record, .data]

variable (P : PageSize) {σ : Type u} (K : Kernel σ)

def Call.lost (s : σ) : Call → List Block
  | .readdir .. => []
  | .open_ .. => T.openLost
  | .read file buf count ppos =>
    let call := K.vfsRead (K.lowerFile s file) buf count ppos s
    if 0 ≤ call.1.toInt then T.transferLost P (readRecord K file call.1 call.2) else []
  | .write file buf count ppos =>
    let call := K.vfsWrite (K.lowerFile s file) buf count ppos s
    if 0 ≤ call.1.toInt then T.transferLost P (writeRecord K file call.1 call.2) else []
  | .close .. => T.closeLost
  | .mkdir .. | .unlink .. => T.pathLost
  | .rmdir _ dentry => if (rmdirLower K dentry s).err ≠ 0 then [] else T.pathLost
  | .link oldDentry _ newDentry =>
    if (linkLower K oldDentry newDentry s).Stops K then [] else T.pathsLost
  | .rename _ oldDentry _ newDentry =>
    if (renameLock K oldDentry newDentry s).trapped.isSome then [] else T.pathsLost

def Call.GetsRecord (s : σ) : Call → Prop
  | .readdir .. => False
  | .open_ .. | .close .. | .mkdir .. | .unlink .. => T.recordAlloc = true
  | .read file buf count ppos =>
    0 ≤ (K.vfsRead (K.lowerFile s file) buf count ppos s).1.toInt ∧ T.recordAlloc = true
  | .write file buf count ppos =>
    0 ≤ (K.vfsWrite (K.lowerFile s file) buf count ppos s).1.toInt ∧ T.recordAlloc = true
  | .rmdir _ dentry => (rmdirLower K dentry s).err = 0 ∧ T.recordAlloc = true
  | .link oldDentry _ newDentry =>
    ¬ (linkLower K oldDentry newDentry s).Stops K ∧ T.recordAlloc = true
  | .rename _ oldDentry _ newDentry =>
    ¬ (renameLock K oldDentry newDentry s).trapped.isSome ∧ T.recordAlloc = true

end Lost

def RecordAt.owned (r : RecordAt) : List (Nat × Block) :=
  (r.addr, .record) :: (r.path.toList.map (·, .path) ++ r.data.toList.map (·, .data))

def WorkAt.kept (w : WorkAt) : List (Nat × Block) :=
  (w.addr, .work) :: w.ptr.newPath.toList.map (·, .newPath)

namespace Memory

variable {T : Tracing} {P : PageSize} {m m' : Memory} {out : Option RecordAt × Memory}
  {l lost : List (Nat × Block)}

structure Built (m : Memory) (out : Option RecordAt × Memory) (l lost : List (Nat × Block)) :
    Prop where
  only : out.2 = { m with blocks := out.2.blocks }
  consists : out.2.blocks.Consists (out.1.elim [] RecordAt.owned ++ (lost ++ l))
  since : m.blocks.Since out.2.blocks
  addr_le : ∀ r ∈ out.1, m.blocks.next ≤ r.addr
  newPath_lost : ∀ r ∈ out.1, ∀ q ∈ r.newPath, (q, Block.newPath) ∈ lost

def lostOf (T : Tracing) (out : Option RecordAt × Memory) (lost : List (Nat × Block)) :
    List Block :=
  lost.map Prod.snd ++ out.1.elim [] fun r => T.queueLost (r.owned.map Prod.snd)

section Built

variable {B : Blocks Block} {r : RecordAt}

theorem built_lost (hconsists : B.Consists (lost ++ l)) (hsince : m.blocks.Since B) :
    Built m (none, { m with blocks := B }) l lost where
  only := rfl
  consists := hconsists
  since := hsince
  addr_le _ h := nomatch h
  newPath_lost _ h := nomatch h

theorem built_none (hl : m.blocks.Consists l) : Built m (none, m) l [] := built_lost hl (.refl _)

theorem built_record (hconsists : B.Consists (r.owned ++ (lost ++ l)))
    (hsince : m.blocks.Since B) (haddr : m.blocks.next ≤ r.addr)
    (hnew : ∀ q ∈ r.newPath, (q, Block.newPath) ∈ lost) :
    Built m (some r, { m with blocks := B }) l lost where
  only := rfl
  consists := hconsists
  since := hsince
  addr_le := by
    rintro _ ⟨⟩
    exact haddr
  newPath_lost := by
    rintro _ ⟨⟩
    exact hnew

end Built

theorem kfree_live {b : Nat} (h : m.blocks.Live b) :
    m.kfree (some b) = { m with blocks := m.blocks.free b } :=
  if_pos h

theorem pathRecordAt_built (hl : m.blocks.Consists l) :
    ∃ lost, Built m (pathRecordAt T m) l lost ∧
      lostOf T (pathRecordAt T m) lost = T.pathLost := by
  unfold pathRecordAt Tracing.pathLost lostOf kmalloc
  have hrecord := hl.alloc .record
  have hsince := (Blocks.Since.refl m.blocks).alloc Block.record
  have hpath := (hrecord.alloc .path).perm (.swap _ _ _)
  cases T.recordAlloc with
  | false => exact ⟨[], built_none hl, rfl⟩
  | true =>
    cases T.pathAlloc with
    | false => exact ⟨[(m.blocks.next, .record)], built_lost hrecord hsince, rfl⟩
    | true =>
      exact ⟨[], built_record hpath (hsince.alloc _) (Nat.le_refl _) nofun, rfl⟩

theorem closeRecordAt_built (hl : m.blocks.Consists l) :
    ∃ lost, Built m (closeRecordAt T m) l lost ∧
      lostOf T (closeRecordAt T m) lost = T.closeLost := by
  unfold closeRecordAt Tracing.closeLost lostOf kmalloc
  have hsince := (Blocks.Since.refl m.blocks).alloc Block.record
  cases T.recordAlloc with
  | false => exact ⟨[], built_none hl, rfl⟩
  | true =>
    exact ⟨[], built_record (hl.alloc .record) hsince (Nat.le_refl _) nofun, rfl⟩

theorem openRecordAt_built (hl : m.blocks.Consists l) :
    ∃ lost, Built m (openRecordAt T m) l lost ∧
      lostOf T (openRecordAt T m) lost = T.openLost := by
  unfold openRecordAt Tracing.openLost lostOf kmalloc
  have hrecord := hl.alloc .record
  have hsince := (Blocks.Since.refl m.blocks).alloc Block.record
  have hpath := (hrecord.alloc .path).perm (.swap _ _ _)
  cases T.recordAlloc with
  | false => exact ⟨[], built_none hl, rfl⟩
  | true =>
    cases T.pathAlloc with
    | false => exact ⟨[], built_record hrecord hsince (Nat.le_refl _) nofun, rfl⟩
    | true => exact ⟨[], built_record hpath (hsince.alloc _) (Nat.le_refl _) nofun, rfl⟩

theorem pathsRecordAt_built (hl : m.blocks.Consists l) :
    ∃ lost, Built m (pathsRecordAt T none m) l lost ∧
      lostOf T (pathsRecordAt T none m) lost = T.pathsLost := by
  unfold pathsRecordAt Tracing.pathsLost lostOf kmalloc
  have hrecord := hl.alloc .record
  have hpath := hrecord.alloc .path
  have hnewPath := hpath.alloc .newPath
  have hsince := (Blocks.Since.refl m.blocks).alloc Block.record
  cases T.recordAlloc with
  | false => exact ⟨[], built_none hl, rfl⟩
  | true =>
    cases T.pathAlloc with
    | false => exact ⟨[(m.blocks.next, .record)], built_lost hrecord hsince, rfl⟩
    | true =>
      cases T.newPathAlloc with
      | false =>
        exact ⟨[(m.blocks.next + 1, .path), (m.blocks.next, .record)],
          built_lost hpath (hsince.alloc _), rfl⟩
      | true =>
        refine ⟨[(m.blocks.next + 2, .newPath)],
          built_record (hnewPath.perm ?_) ((hsince.alloc _).alloc _) (Nat.le_refl _) ?_, rfl⟩
        · exact ((List.Perm.swap _ _ _).cons _).trans
            ((List.Perm.swap _ _ _).trans ((List.Perm.swap _ _ _).cons _))
        · rintro q ⟨⟩
          exact List.mem_singleton_self _

theorem readdirRecordAt_built (hl : m.blocks.Consists l) :
    Built m (none, readdirRecordAt T m) l [] := by
  unfold readdirRecordAt
  cases hr : T.recordAlloc with
  | false => exact built_none hl
  | true =>
    have hrecord := hl.alloc .record
    have hsince := (Blocks.Since.refl m.blocks).alloc Block.record
    cases hp : T.pathAlloc with
    | false =>
      simp only [kmalloc, if_true, Bool.false_eq_true, if_false, kfree]
      rw [if_pos hrecord.live_head]
      exact built_lost hrecord.free (hsince.free _)
    | true =>
      have hpath := hrecord.alloc .path
      have hfreed := hpath.free
      simp only [kmalloc, if_true, kfree]
      rw [if_pos hpath.live_head]
      simp only []
      rw [if_pos hfreed.live_head]
      exact built_lost hfreed.free (((hsince.alloc _).free _).free _)

theorem transferRecordAt_built (r : Record) (hl : m.blocks.Consists l) :
    ∃ lost, Built m (transferRecordAt T P r m) l lost ∧
      lostOf T (transferRecordAt T P r m) lost = T.transferLost P r := by
  unfold transferRecordAt Tracing.transferLost lostOf kmalloc
  cases T.recordAlloc with
  | false => exact ⟨[], built_none hl, rfl⟩
  | true =>
    have hrecord := hl.alloc .record
    have hsince := (Blocks.Since.refl m.blocks).alloc Block.record
    by_cases hlarge : P.capacity ≤ r.recordSize.toNat
    · simp only [if_true, if_pos hlarge, Bool.true_eq_false, if_false]
      cases checkBit T.bitmap r.type with
      | false => exact ⟨[(m.blocks.next, .record)], built_lost hrecord hsince, rfl⟩
      | true => exact ⟨[], built_record hrecord hsince (Nat.le_refl _) nofun, rfl⟩
    · simp only [if_true, if_neg hlarge, Bool.true_eq_false, if_false]
      have hdata := hrecord.alloc .data
      cases T.dataAlloc with
      | false => exact ⟨[(m.blocks.next, .record)], built_lost hrecord hsince, rfl⟩
      | true =>
        cases T.copyAlloc with
        | false =>
          exact ⟨[(m.blocks.next + 1, .data), (m.blocks.next, .record)],
            built_lost hdata (hsince.alloc _), rfl⟩
        | true =>
          have hcopy := hdata.alloc .copyBuffer
          simp only [if_true, Bool.true_eq_false, if_false]
          rw [kfree_live hcopy.live_head]
          have hfreed := hcopy.free
          have hsince₃ := ((hsince.alloc .data).alloc .copyBuffer).free (m.blocks.next + 2)
          cases T.copyFault with
          | true =>
            exact ⟨[(m.blocks.next + 1, .data), (m.blocks.next, .record)],
              built_lost hfreed hsince₃, rfl⟩
          | false =>
            exact ⟨[], built_record (hfreed.perm (.swap _ _ _)) hsince₃ (Nat.le_refl _) nofun, rfl⟩

theorem recordAt_built {σ : Type u} {K : Kernel σ} {s : σ} (c : Call)
    (hl : m.blocks.Consists l) :
    ∃ lost, Built m (c.recordAt T P K none s m) l lost ∧
      lostOf T (c.recordAt T P K none s m) lost = c.lost T P K s := by
  have hnone : ∃ lost, Built m (none, m) l lost ∧ lostOf T (none, m) lost = [] :=
    ⟨[], built_none hl, rfl⟩
  cases c with
  | readdir file ctx => exact ⟨[], readdirRecordAt_built hl, rfl⟩
  | open_ inode file => exact openRecordAt_built hl
  | read file buf count ppos | write file buf count ppos =>
    simp only [Call.recordAt, Call.lost]
    split
    · exact transferRecordAt_built _ hl
    · exact hnone
  | close file owner => exact closeRecordAt_built hl
  | mkdir dir dentry mode | unlink dir dentry => exact pathRecordAt_built hl
  | rmdir dir dentry =>
    simp only [Call.recordAt, Call.lost]
    split
    · exact hnone
    · exact pathRecordAt_built hl
  | link oldDentry dir newDentry | rename oldDir oldDentry newDir newDentry =>
    simp only [Call.recordAt, Call.lost]
    split
    · exact hnone
    · exact pathsRecordAt_built hl

section Queue

def one (granted : Bool) : Nat := if granted then 1 else 0

theorem length_queued (r : Record) (buf : List Byte) :
    (T.queued r buf).length = one T.queueAlloc := by
  unfold Tracing.queued
  cases T.queueAlloc <;> rfl

theorem pathRecordAt_queue (m : Memory) : (queued T (pathRecordAt T m)).queue.length =
    m.queue.length + one (T.recordAlloc && T.pathAlloc && T.workAlloc && T.queueAlloc) := by
  unfold pathRecordAt kmalloc
  cases T.recordAlloc
  · rfl
  · cases T.pathAlloc
    · rfl
    · cases hw : T.workAlloc <;> cases hq : T.queueAlloc <;>
        simp [queued, eworkqueueInit, kmalloc, hw, hq, one]

theorem pathsRecordAt_queue (data : Option Nat) (m : Memory) :
    (queued T (pathsRecordAt T data m)).queue.length = m.queue.length +
      one (T.recordAlloc && T.pathAlloc && T.newPathAlloc && T.workAlloc && T.queueAlloc) := by
  unfold pathsRecordAt kmalloc
  cases T.recordAlloc
  · rfl
  · cases T.pathAlloc
    · rfl
    · cases T.newPathAlloc
      · rfl
      · cases hw : T.workAlloc <;> cases hq : T.queueAlloc <;>
          simp [queued, eworkqueueInit, kmalloc, hw, hq, one]

def count : Traced → Nat
  | .out _ => 0
  | .next submitted => submitted.length

theorem tracePath_queues {dentry : Ptr} {record : TmpPath → Record} {t : Traced}
    (h : tracePath T dentry record = .ok t) :
    one (T.recordAlloc && T.pathAlloc && T.workAlloc && T.queueAlloc) = count t := by
  rcases tracePath_cases (T := T) dentry record with
    ⟨⟨hr, -, hp, hw⟩, p, -, heq⟩ | ⟨-, hrefused, heq⟩ | ⟨-, -, f, heq⟩
  · rw [heq] at h
    cases h
    simp [count, length_queued, hr, hp, hw]
  · rw [heq] at h
    cases h
    rcases hrefused with hr | ⟨-, hp⟩
    · simp [count, hr, one]
    · simp [count, hp, one]
  · rw [heq] at h
    cases h

theorem tracePaths_queues {oldDentry newDentry : Ptr} {record : TmpPath → TmpPath → Record}
    {t : Traced} (h : tracePaths T oldDentry newDentry record = .ok t) :
    one (T.recordAlloc && T.pathAlloc && T.newPathAlloc && T.workAlloc && T.queueAlloc) =
      count t := by
  rcases tracePaths_cases (T := T) oldDentry newDentry record with
    ⟨⟨hr, -, hp, -, hq, hw⟩, p, q, -, -, heq⟩ | ⟨-, hrefused, heq⟩ | ⟨-, -, f, heq⟩
  · rw [heq] at h
    cases h
    simp [count, length_queued, hr, hp, hq, hw]
  · rw [heq] at h
    cases h
    rcases hrefused with hr | ⟨-, hp | ⟨-, hq⟩⟩
    · simp [count, hr, one]
    · simp [count, hp, one]
    · simp [count, hq, one]
  · rw [heq] at h
    cases h

theorem queued_record (hw : T.workAlloc = true) (rec : Record) (buf : List Byte) (r : RecordAt)
    (m : Memory) :
    (queued T (some r, m)).queue.length = m.queue.length + (T.queued rec buf).length := by
  unfold queued eworkqueueInit kmalloc Tracing.queued
  cases T.queueAlloc <;> simp [hw]

theorem transferRecordAt_queue {r : Record} {buf : Ptr} {err : CInt}
    {out : CInt × List Submission} (h : traceTransfer T P r buf err = .ok out) (m : Memory) :
    (queued T (transferRecordAt T P r m)).queue.length = m.queue.length + out.2.length := by
  unfold traceTransfer at h
  unfold transferRecordAt kmalloc
  split at h
  next hr =>
    cases h
    simp only [hr, Bool.false_eq_true, if_false]
    rfl
  next hr =>
    simp only [Bool.eq_true_of_not_eq_false hr, if_true]
    split at h
    next hlarge =>
      simp only [if_pos hlarge]
      split at h
      next hbit =>
        cases h
        rw [if_pos hbit]
        rfl
      next hbit =>
        rw [if_neg hbit]
        simp only [eworkqueueInit_eq] at h
        cases hw : T.workAlloc with
        | false =>
          rw [hw] at h
          cases h
        | true =>
          simp only [hw, if_true] at h
          split at h <;> cases h
          exact queued_record hw _ _ _ _
    next hlarge =>
      simp only [if_neg hlarge]
      split at h
      next hd =>
        cases h
        simp only [hd, Bool.false_eq_true, if_false]
        rfl
      next hd =>
        simp only [Bool.eq_true_of_not_eq_false hd, if_true]
        split at h
        next hc =>
          cases h
          simp only [hc, Bool.false_eq_true, if_false]
          rfl
        next hc =>
          simp only [Bool.eq_true_of_not_eq_false hc, if_true]
          rw [kfree_live (Blocks.live_alloc.mpr (.inl rfl))]
          split at h
          next hf =>
            cases h
            rw [if_pos hf]
            rfl
          next hf =>
            rw [if_neg hf]
            obtain ⟨hw, rfl⟩ := map_eworkqueueInit h
            exact queued_record hw _ _ _ _

theorem traced_transfer_queue {σ : Type u} {s : σ} {e : Exit σ} {r : Record} {buf : Ptr}
    {err : CInt} (he : (traceTransfer T P r buf err).map (fun out => ⟨out.1, s, out.2⟩) = .ok e)
    (m : Memory) : (queued T (transferRecordAt T P r m)).queue.length =
      m.queue.length + e.submitted.length := by
  cases ht : traceTransfer T P r buf err with
  | error f =>
    rw [ht] at he
    cases he
  | ok out =>
    rw [ht] at he
    cases he
    exact transferRecordAt_queue ht m

theorem memory_queue {σ : Type u} {K : Kernel σ} {s : σ} {c : Call} {e : Exit σ}
    (he : c.trfs K T P s = .ok e) (hc : c.logType ≠ .readdir) (data : Option Nat) (m : Memory) :
    (c.memory T P K data s m).queue.length = m.queue.length + e.submitted.length := by
  unfold Call.memory
  cases c with
  | readdir file ctx => exact absurd rfl hc
  | open_ inode file =>
    simp only [Call.trfs, trfsOpen] at he
    split at he
    · cases he
    split at he
    · cases he
    split at he
    · cases he
    next hr =>
      simp only [Call.recordAt, openRecordAt, kmalloc, Bool.eq_true_of_not_eq_false hr, if_true]
      split at he
      · cases he
      · obtain ⟨hw, rfl⟩ := map_eworkqueueInit he
        cases T.pathAlloc <;> exact queued_record hw _ _ _ _
  | read file buf count ppos =>
    simp only [Call.trfs, trfsRead] at he
    simp only [Call.recordAt]
    split at he
    next hret =>
      rw [if_pos hret]
      exact traced_transfer_queue he m
    next hret =>
      rw [if_neg hret]
      cases he
      rfl
  | write file buf count ppos =>
    simp only [Call.trfs, trfsWrite] at he
    simp only [Call.recordAt]
    split at he
    next hret =>
      rw [if_pos hret]
      exact traced_transfer_queue he m
    next hret =>
      rw [if_neg hret]
      cases he
      rfl
  | close file owner =>
    simp only [Call.trfs, trfsFlush] at he
    simp only [Call.recordAt, closeRecordAt, kmalloc]
    split at he
    next hr =>
      cases he
      rw [hr]
      rfl
    next hr =>
      rw [Bool.eq_true_of_not_eq_false hr]
      obtain ⟨hw, rfl⟩ := map_eworkqueueInit he
      exact queued_record hw _ _ _ _
  | mkdir dir dentry mode =>
    simp only [Call.trfs, trfsMkdir] at he
    simp only [Call.recordAt, pathRecordAt_queue]
    split at he <;> cases he
    next ht => rw [tracePath_queues ht, count, List.length_nil]
    next ht => rw [tracePath_queues ht, count]
  | unlink dir dentry =>
    simp only [Call.trfs, trfsUnlink] at he
    simp only [Call.recordAt, pathRecordAt_queue]
    split at he <;> cases he
    next ht => rw [tracePath_queues ht, count, List.length_nil]
    next ht => rw [tracePath_queues ht, count]
  | rmdir dir dentry =>
    simp only [Call.trfs, trfsRmdir] at he
    simp only [Call.recordAt]
    split at he
    next herr =>
      cases he
      rw [if_pos herr]
      rfl
    next herr =>
      rw [if_neg herr, pathRecordAt_queue]
      split at he <;> cases he
      next ht => rw [tracePath_queues ht, count, List.length_nil]
      next ht => rw [tracePath_queues ht, count]
  | link oldDentry dir newDentry =>
    simp only [Call.trfs, trfsLink] at he
    simp only [Call.recordAt]
    split at he
    next hstop =>
      cases he
      rw [if_pos hstop]
      rfl
    next hstop =>
      rw [if_neg hstop, pathsRecordAt_queue]
      split at he <;> cases he
      next ht => rw [tracePaths_queues ht, count, List.length_nil]
      next ht => rw [tracePaths_queues ht, count]
  | rename oldDir oldDentry newDir newDentry =>
    simp only [Call.trfs, trfsRename] at he
    simp only [Call.recordAt]
    split at he
    next err htrap =>
      cases he
      simp only [htrap, Option.isSome_some, if_true]
      rfl
    next htrap =>
      rw [htrap, if_neg (by simp), pathsRecordAt_queue]
      split at he <;> cases he
      next ht => rw [tracePaths_queues ht, count, List.length_nil]
      next ht => rw [tracePaths_queues ht, count]

end Queue

structure Called (m m' : Memory) (ws : List WorkAt) (l lost : List (Nat × Block)) : Prop where
  queue : m'.queue = m.queue ++ ws
  consists : m'.blocks.Consists (ws.flatMap (fun w => w.ptr.owned) ++ (lost ++ l))
  kept : ∀ w ∈ ws, ∀ e ∈ w.kept, e ∈ lost
  since : m.blocks.Since m'.blocks
  large : ∀ r ∈ m'.large, r ∈ m.large ∨ ∃ w ∈ ws, w.ptr.addr = r
  flushing : m'.flushing = m.flushing
  staleReads : m'.staleReads = m.staleReads
  badFrees : m'.badFrees = m.badFrees

theorem Built.dropped {r : RecordAt} {m₁ : Memory} (h : Built m (some r, m₁) l lost) :
    Called m m₁ [] l (r.owned ++ lost) := by
  obtain ⟨only, consists, since, -, -⟩ := h
  obtain ⟨B, rfl⟩ : ∃ B, m₁ = { m with blocks := B } := ⟨_, only⟩
  refine ⟨(List.append_nil _).symm, ?_, List.forall_mem_nil _, since, fun r hr => .inl hr, rfl,
    rfl, rfl⟩
  rw [List.append_assoc]
  exact consists

theorem Built.called (h : Built m out l lost) :
    ∃ ws lost', Called m (queued T out) ws l lost' ∧
      (lost'.map Prod.snd).Perm (lostOf T out lost) := by
  obtain ⟨r, m₁⟩ := out
  cases r with
  | none =>
    obtain ⟨only, consists, since, -, -⟩ := h
    obtain ⟨B, rfl⟩ : ∃ B, m₁ = { m with blocks := B } := ⟨_, only⟩
    refine ⟨[], lost, ⟨(List.append_nil _).symm, consists, List.forall_mem_nil _, since,
      fun r hr => .inl hr, rfl, rfl, rfl⟩, ?_⟩
    rw [lostOf, Option.elim_none, List.append_nil]
  | some r =>
    have hdropped := h.dropped
    have hperm : ((r.owned ++ lost).map Prod.snd).Perm
        (lost.map Prod.snd ++ r.owned.map Prod.snd) := by
      rw [List.map_append]
      exact List.perm_append_comm
    unfold lostOf Tracing.queueLost queued eworkqueueInit kmalloc
    cases T.workAlloc with
    | false => exact ⟨[], _, hdropped, hperm⟩
    | true =>
      have hwork := hdropped.consists.alloc .work
      have hsince := hdropped.since.alloc Block.work
      cases T.queueAlloc with
      | false =>
        refine ⟨[], (m₁.blocks.next, .work) :: (r.owned ++ lost), ⟨hdropped.queue, hwork,
          List.forall_mem_nil _, hsince, ?_, hdropped.flushing, hdropped.staleReads,
          hdropped.badFrees⟩, ?_⟩
        · intro b hb
          have hb : b ∈ if r.logRwLarge && false then r.addr :: m₁.large else m₁.large := hb
          rw [Bool.and_false] at hb
          exact hdropped.large b hb
        · exact (hperm.cons _).trans List.perm_middle.symm
      | true =>
        refine ⟨[⟨m₁.blocks.next, r⟩], (m₁.blocks.next, .work) :: lost, ⟨?_, ?_, ?_, hsince, ?_,
          hdropped.flushing, hdropped.staleReads, hdropped.badFrees⟩, ?_⟩
        · exact congrArg (· ++ [_]) (hdropped.queue.trans (List.append_nil _))
        · refine hwork.perm ?_
          simp only [List.flatMap_nil, List.nil_append, List.flatMap_cons, List.append_nil,
            List.append_assoc]
          exact List.perm_middle.symm
        · intro w hw e he
          cases List.mem_singleton.mp hw
          cases he with
          | head => exact List.mem_cons_self
          | tail _ he =>
            obtain ⟨q, hq, rfl⟩ := List.mem_map.mp he
            exact List.mem_cons_of_mem _ (h.newPath_lost r rfl q (Option.mem_toList.mp hq))
        · intro b hb
          have hold : ∀ b ∈ m₁.large, b ∈ m.large := fun b hb =>
            (hdropped.large b hb).resolve_right fun ⟨_, hw, _⟩ => nomatch hw
          have hb : b ∈ if r.logRwLarge && true then r.addr :: m₁.large else m₁.large := hb
          split at hb
          · cases hb with
            | head => exact .inr ⟨_, List.mem_singleton_self _, rfl⟩
            | tail _ hb => exact .inl (hold b hb)
          · exact .inl (hold b hb)
        · exact (List.perm_append_singleton _ _).symm

theorem read_live {b : Nat} (h : m.blocks.Live b) : m.read b = m := if_pos h

@[simp] theorem large_read (m : Memory) (b : Nat) : (m.read b).large = m.large := by
  unfold read
  split <;> rfl

theorem foldl_read_live {bs : List Nat} (h : ∀ b ∈ bs, m.blocks.Live b) :
    bs.foldl Memory.read m = m := by
  induction bs with
  | nil => rfl
  | cons b bs ih =>
    rw [List.foldl_cons, read_live (h b List.mem_cons_self)]
    exact ih fun b' hb' => h b' (List.mem_cons_of_mem b hb')

theorem kfree_consists {p : Option Nat} {k : Block}
    (h : m.blocks.Consists (p.toList.map (·, k) ++ l)) :
    ∃ B, m.kfree p = { m with blocks := B } ∧ B.Consists l ∧ m.blocks.Since B := by
  cases p with
  | none => exact ⟨m.blocks, rfl, h, .refl _⟩
  | some b => exact ⟨m.blocks.free b, kfree_live h.live_head, h.free, (Blocks.Since.refl _).free b⟩

/-- The worker reads `rptr->data` after it has freed `rptr`. When that is still what it was, it
gives back all that is owned. -/
theorem eworkHandler_spec {w : WorkAt} (h : m.blocks.Consists (w.ptr.owned ++ l))
    (hkept : ∀ e ∈ w.kept, e ∈ l) :
    ∃ B, m.eworkHandler w w.ptr.data =
        { m with blocks := B, staleReads := m.staleReads + 1 } ∧
      B.Consists l ∧ m.blocks.Since B ∧ ¬ B.Live w.ptr.addr := by
  have hlive : ∀ e ∈ w.ptr.owned ++ l, m.blocks.Live e.1 := fun e he =>
    h.live_iff.mpr (List.mem_map_of_mem he)
  have hwork := hlive _ (List.mem_append_right _ (hkept _ List.mem_cons_self))
  have hrecord := hlive _ (List.mem_append_left _ List.mem_cons_self)
  have hreads : ∀ b ∈ w.ptr.path.toList ++ w.ptr.newPath.toList ++ w.ptr.data.toList,
      m.blocks.Live b := by
    intro b hb
    rcases List.mem_append.mp hb with hb | hb
    · rcases List.mem_append.mp hb with hb | hb
      · exact hlive (b, .path) (List.mem_append_left _ (List.mem_cons_of_mem _
          (List.mem_append_left _ (List.mem_map_of_mem hb))))
      · exact hlive (b, .newPath) (List.mem_append_right _ (hkept _ (List.mem_cons_of_mem _
          (List.mem_map_of_mem hb))))
    · exact hlive (b, .data) (List.mem_append_left _ (List.mem_cons_of_mem _
        (List.mem_append_right _ (List.mem_map_of_mem hb))))
  have hpath : m.blocks.Consists (w.ptr.path.toList.map (·, Block.path) ++
      ((w.ptr.addr, .record) :: (w.ptr.data.toList.map (·, Block.data) ++ l))) := by
    refine h.perm ?_
    rw [RecordAt.owned, List.cons_append, List.append_assoc]
    exact List.perm_middle.symm
  obtain ⟨B, hB, hconsists, hsince⟩ := kfree_consists hpath
  have hdead : ¬ (B.free w.ptr.addr).Live w.ptr.addr := fun hl => (Blocks.live_free.mp hl).1 rfl
  obtain ⟨B', hB', hconsists', hsince'⟩ :=
    kfree_consists (m := { m with blocks := B.free w.ptr.addr, staleReads := m.staleReads + 1 })
      hconsists.free
  have hsince₂ := hsince.free w.ptr.addr
  refine ⟨B', ?_, hconsists', hsince₂.trans hsince', ?_⟩
  · unfold eworkHandler
    simp only [read_live hwork, read_live hrecord, foldl_read_live hreads, hB]
    rw [kfree_live hconsists.live_head, read, if_neg hdead]
    exact hB'
  · have hlt : w.ptr.addr < B.next := (Blocks.Consists.live_head hconsists).lt
    exact fun hl => hdead (hsince'.old _ hlt hl)

variable {x : Label P}

structure Accounts (m : Memory) (lost : List (Nat × Block)) : Prop where
  consists : m.blocks.Consists (m.queue.flatMap (fun w => w.ptr.owned) ++ lost)
  kept : ∀ w ∈ m.queue, ∀ e ∈ w.kept, e ∈ lost
  waits : ∀ r ∈ m.large ++ m.flushing,
    r < m.blocks.next ∧ (m.blocks.Live r → ∃ w ∈ m.queue, w.ptr.addr = r)
  badFrees : m.badFrees = 0

theorem start_accounts : start.Accounts [] where
  consists := .refl _
  kept _ h := nomatch h
  waits _ h := nomatch h
  badFrees := rfl

/-- The memory of a record reads as it should: as NULL at `data` where a link has it from `kmalloc`,
and after it was freed as before. -/
def Clean (m : Memory) : Label P → Prop
  | .call _ data => data = none
  | .work stale => ∀ w ∈ m.queue.head?, stale = w.ptr.data
  | .flush _ | .resume _ => True

instance (m : Memory) : (x : Label P) → Decidable (m.Clean x)
  | .call _ data => inferInstanceAs (Decidable (data = none))
  | .work stale => inferInstanceAs (Decidable (∀ w ∈ m.queue.head?, stale = w.ptr.data))
  | .flush _ | .resume _ => isTrue trivial

def Label.loses : Label P → List Block
  | .call x _ => x.call.lost x.T P x.K x.s
  | .work _ | .flush _ | .resume _ => []

def ReadsStale (m : Memory) : Label P → Prop
  | .call .. => False
  | .work _ => True
  | .flush r | .resume r => ∀ w ∈ m.queue, w.ptr.addr ≠ r

structure Kept (m m' : Memory) (x : Label P) (lost : List (Nat × Block)) : Prop where
  accounts : ∃ lost', m'.Accounts (lost' ++ lost) ∧ (lost'.map Prod.snd).Perm x.loses
  staleReads : m'.staleReads = m.staleReads ↔ ¬ m.ReadsStale x

theorem Accounts.live_addr (h : m.Accounts lost) {w : WorkAt} (hw : w ∈ m.queue) :
    m.blocks.Live w.ptr.addr := by
  have howned : (w.ptr.addr, Block.record) ∈ m.queue.flatMap fun w => w.ptr.owned :=
    List.mem_flatMap.mpr ⟨w, hw, List.mem_cons_self⟩
  exact h.consists.live_iff.mpr (List.mem_map.mpr ⟨_, List.mem_append_left _ howned, rfl⟩)

theorem Accounts.live_iff (h : m.Accounts lost) {r : Nat} (hr : r ∈ m.large ++ m.flushing) :
    m.blocks.Live r ↔ ∃ w ∈ m.queue, w.ptr.addr = r := by
  refine ⟨(h.waits r hr).2, ?_⟩
  rintro ⟨w, hw, rfl⟩
  exact h.live_addr hw

theorem Accounts.called {ws : List WorkAt} {lost' : List (Nat × Block)} (h : m.Accounts lost)
    (hcalled : Called m m' ws (m.queue.flatMap (fun w => w.ptr.owned) ++ lost) lost') :
    m'.Accounts (lost' ++ lost) := by
  obtain ⟨queue, consists, kept, since, large, flushing, -, badFrees⟩ := hcalled
  have hold : ∀ r ∈ m.large ++ m.flushing, r < m'.blocks.next ∧
      (m'.blocks.Live r → ∃ w ∈ m'.queue, w.ptr.addr = r) := by
    intro r hr
    obtain ⟨hlt, hqueued⟩ := h.waits r hr
    refine ⟨Nat.lt_of_lt_of_le hlt since.next_le, fun hlive => ?_⟩
    obtain ⟨w, hw, heq⟩ := hqueued (since.old r hlt hlive)
    exact ⟨w, queue ▸ List.mem_append_left _ hw, heq⟩
  constructor
  · rw [queue, List.flatMap_append, List.append_assoc]
    refine consists.perm ?_
    exact ((List.perm_append_comm_assoc lost' _ lost).append_left _).trans
      (List.perm_append_comm_assoc _ _ _)
  · intro w hw e he
    rw [queue] at hw
    cases List.mem_append.mp hw with
    | inl hw => exact List.mem_append_right _ (h.kept w hw e he)
    | inr hw => exact List.mem_append_left _ (kept w hw e he)
  · intro r hr
    cases List.mem_append.mp hr with
    | inl hr =>
      cases large r hr with
      | inl hr => exact hold r (List.mem_append_left _ hr)
      | inr hnew =>
        obtain ⟨w, hw, rfl⟩ := hnew
        have howned : (w.ptr.addr, Block.record) ∈ ws.flatMap fun w => w.ptr.owned :=
          List.mem_flatMap.mpr ⟨w, hw, List.mem_cons_self⟩
        have hlive := consists.live_iff.mpr
          (List.mem_map.mpr ⟨_, List.mem_append_left _ howned, rfl⟩)
        exact ⟨Blocks.Live.lt hlive, fun _ => ⟨w, queue ▸ List.mem_append_right _ hw, rfl⟩⟩
    | inr hr =>
      rw [flushing] at hr
      exact hold r (List.mem_append_right _ hr)
  · exact badFrees.trans h.badFrees

theorem Accounts.kept_call (h : m.Accounts lost) (c : CallRun P) :
    Kept m (c.call.memory c.T P c.K none c.s m) (.call c none) lost := by
  obtain ⟨lost₁, hbuilt, hlost₁⟩ := recordAt_built c.call h.consists
  obtain ⟨ws, lost', hcalled, hperm⟩ := hbuilt.called
  rw [hlost₁] at hperm
  exact ⟨⟨lost', h.called hcalled, hperm⟩, iff_of_true hcalled.staleReads not_false⟩

theorem Accounts.kept_work {w : WorkAt} {queue : List WorkAt} (h : m.Accounts lost)
    (hqueue : m.queue = w :: queue) :
    Kept m ({ m with queue := queue }.eworkHandler w w.ptr.data) (.work w.ptr.data : Label P)
      lost := by
  obtain ⟨consists, kept, waits, badFrees⟩ := h
  rw [hqueue] at consists kept waits
  rw [List.flatMap_cons, List.append_assoc] at consists
  obtain ⟨B, hB, hconsists, hsince, hdead⟩ :=
    eworkHandler_spec (m := { m with queue := queue }) consists
      (fun e he => List.mem_append_right _ (kept w List.mem_cons_self e he))
  rw [hB]
  refine ⟨⟨[], ⟨hconsists, fun w' hw' => kept w' (List.mem_cons_of_mem w hw'), ?_, badFrees⟩,
    .refl _⟩, iff_of_false (Nat.succ_ne_self _) (not_not_intro trivial)⟩
  intro r hr
  obtain ⟨hlt, hqueued⟩ := waits r hr
  refine ⟨Nat.lt_of_lt_of_le hlt hsince.next_le, fun hlive => ?_⟩
  obtain ⟨w', hw', rfl⟩ := hqueued (hsince.old r hlt hlive)
  cases hw' with
  | head => exact absurd hlive hdead
  | tail _ hw' => exact ⟨w', hw', rfl⟩

theorem Accounts.kept_read {r : Nat} {large flushing : List Nat} (h : m.Accounts lost)
    (hr : r ∈ m.large ++ m.flushing)
    (hsub : ∀ r' ∈ large ++ flushing, r' ∈ m.large ++ m.flushing)
    (hstale : m.ReadsStale x ↔ ∀ w ∈ m.queue, w.ptr.addr ≠ r) (hloses : x.loses = []) :
    Kept m { m.read r with large := large, flushing := flushing } x lost := by
  have hlive := h.live_iff hr
  unfold read
  by_cases hl : m.blocks.Live r
  · rw [if_pos hl]
    refine ⟨⟨[], ⟨h.consists, h.kept, fun r' hr' => h.waits r' (hsub r' hr'), h.badFrees⟩,
      hloses ▸ .refl _⟩, iff_of_true rfl ?_⟩
    obtain ⟨w, hw, heq⟩ := hlive.mp hl
    exact fun hs => hstale.mp hs w hw heq
  · rw [if_neg hl]
    refine ⟨⟨[], ⟨h.consists, h.kept, fun r' hr' => h.waits r' (hsub r' hr'), h.badFrees⟩,
      hloses ▸ .refl _⟩, iff_of_false (Nat.succ_ne_self _) (not_not_intro ?_)⟩
    exact hstale.mpr fun w hw heq => hl (hlive.mpr ⟨w, hw, heq⟩)

theorem Accounts.kept_step (h : m.Accounts lost) (hclean : m.Clean x)
    (hstep : m.step x = some m') : Kept m m' x lost := by
  cases x with
  | call c data =>
    cases hclean
    cases hstep
    exact h.kept_call c
  | work stale =>
    simp only [step] at hstep
    split at hstep
    · cases hstep
    next w queue hqueue =>
      cases hstep
      obtain rfl : stale = w.ptr.data := hclean w (by rw [hqueue]; rfl)
      exact h.kept_work hqueue
  | flush r =>
    obtain ⟨hr, heq⟩ := Option.ite_none_right_eq_some.mp hstep
    cases heq
    refine h.kept_read (List.mem_append_left _ hr) ?_ .rfl rfl
    intro r' hr'
    cases List.mem_append.mp hr' with
    | inl hr' => exact List.mem_append_left _ (List.mem_of_mem_erase hr')
    | inr hr' =>
      cases hr' with
      | head => exact List.mem_append_left _ hr
      | tail _ hr' => exact List.mem_append_right _ hr'
  | resume r =>
    obtain ⟨⟨hr, -⟩, heq⟩ := Option.ite_none_right_eq_some.mp hstep
    cases heq
    refine h.kept_read (List.mem_append_right _ hr) ?_ .rfl rfl
    intro r' hr'
    cases List.mem_append.mp hr' with
    | inl hr' => exact List.mem_append_left _ (m.large_read r ▸ hr')
    | inr hr' => exact List.mem_append_right _ (List.mem_of_mem_erase hr')

variable {labels : List (Label P)}

theorem Accounts.kept_run (h : m.Accounts lost) (hclean : Along Clean step m labels)
    (hrun : run step m labels = some m') :
    ∃ lost', m'.Accounts (lost' ++ lost) ∧
      (lost'.map Prod.snd).Perm (labels.flatMap Label.loses) := by
  induction labels generalizing m lost with
  | nil =>
    cases hrun
    exact ⟨[], h, .refl _⟩
  | cons x labels ih =>
    obtain ⟨m₁, hstep, hrun⟩ := run_cons_eq_some.mp hrun
    obtain ⟨lost₁, h₁, hperm₁⟩ := (h.kept_step hclean.1 hstep).accounts
    obtain ⟨lost₂, h₂, hperm₂⟩ := ih h₁ (hclean.2 m₁ hstep) hrun
    refine ⟨lost₂ ++ lost₁, by rw [List.append_assoc]; exact h₂, ?_⟩
    rw [List.map_append, List.flatMap_cons]
    exact (hperm₂.append hperm₁).trans List.perm_append_comm

def madeDirectory : CallRun .small where
  K := (Kernel.inert : Kernel Unit)
  T := .plenty
  call := .mkdir 2 3 0o755
  s := ()
  exit := ⟨0, (), [⟨mkdirRecord Kernel.inert 2 0o755 0 () .root, []⟩]⟩
  ran := rfl

def wholeReads : Kernel Unit := { Kernel.inert with vfsRead := fun _ _ _ _ s => (8192, s) }

def readLarge : CallRun .small where
  K := wholeReads
  T := .plenty
  call := .read 3 4 8192 0
  s := ()
  exit := ⟨8192, (), [⟨{ Trfs.readRecord wholeReads 3 8192 () with logRwLarge := 1 },
    (Buffer.zero 8192).bytes⟩]⟩
  ran := rfl

def readAfterMkdir : List (Label .small) :=
  [.call madeDirectory none, .call readLarge none, .work none, .flush 3, .work none, .resume 3]

theorem readAfterMkdir_runs :
    ∃ m, run step start readAfterMkdir = some m ∧ m.queue.isEmpty = true :=
  Option.map_eq_some_iff.mp (by decide +kernel)

theorem readAfterMkdir_clean : Along Clean step start readAfterMkdir := by decide +kernel

theorem memory_remaining (hrun : run step start labels = some m)
    (hclean : Along Clean step start labels) :
    (m.blocks.live.map Prod.snd).Perm
      (m.queue.flatMap (fun w => w.ptr.owned.map Prod.snd) ++ labels.flatMap Label.loses) := by
  obtain ⟨lost, h, hperm⟩ := start_accounts.kept_run hclean hrun
  rw [List.append_nil] at h
  have hmap := h.consists.map Prod.snd
  rw [List.map_append, List.map_flatMap] at hmap
  exact hmap.trans (hperm.append_left _)

theorem memory_remaining_readAfterMkdir :
    ∃ m, run step start readAfterMkdir = some m ∧
      (m.blocks.live.map Prod.snd).Perm (m.queue.flatMap (fun w => w.ptr.owned.map Prod.snd) ++
        readAfterMkdir.flatMap Label.loses) := by
  obtain ⟨m, hm, -⟩ := readAfterMkdir_runs
  exact ⟨m, hm, memory_remaining hm readAfterMkdir_clean⟩

theorem stale_reads_iff (hrun : run step start labels = some m)
    (hclean : Along Clean step start labels) :
    m.badFrees = 0 ∧ ∀ (x : Label P) (m' : Memory), m.Clean x → m.step x = some m' →
      (m'.staleReads ≠ m.staleReads ↔ m.ReadsStale x) := by
  obtain ⟨lost, h, -⟩ := start_accounts.kept_run hclean hrun
  refine ⟨h.badFrees, fun x m' hx hstep => ?_⟩
  exact (not_congr (h.kept_step hx hstep).staleReads).trans not_not

theorem stale_reads_iff_readAfterMkdir :
    ∃ m, run step start readAfterMkdir = some m ∧ m.badFrees = 0 ∧
      ∀ (x : Label .small) (m' : Memory), m.Clean x → m.step x = some m' →
        (m'.staleReads ≠ m.staleReads ↔ m.ReadsStale x) := by
  obtain ⟨m, hm, -⟩ := readAfterMkdir_runs
  exact ⟨m, hm, stale_reads_iff hm readAfterMkdir_clean⟩

@[simp] theorem queueLost_cons_ne_nil (b : Block) (bs : List Block) :
    T.queueLost (b :: bs) ≠ [] := by
  unfold Tracing.queueLost
  split
  · exact List.cons_ne_nil _ _
  · split <;> exact List.cons_ne_nil _ _

theorem pathLost_eq_nil : T.pathLost = [] ↔ T.recordAlloc = false := by
  unfold Tracing.pathLost
  cases T.recordAlloc
  · simp
  · cases T.pathAlloc <;> simp

theorem pathsLost_eq_nil : T.pathsLost = [] ↔ T.recordAlloc = false := by
  unfold Tracing.pathsLost
  cases T.recordAlloc
  · simp
  · cases T.pathAlloc
    · simp
    · cases T.newPathAlloc <;> simp

theorem openLost_eq_nil : T.openLost = [] ↔ T.recordAlloc = false := by
  unfold Tracing.openLost
  cases T.recordAlloc
  · simp
  · cases T.pathAlloc <;> simp

theorem closeLost_eq_nil : T.closeLost = [] ↔ T.recordAlloc = false := by
  unfold Tracing.closeLost
  cases T.recordAlloc <;> simp

theorem transferLost_eq_nil (r : Record) : T.transferLost P r = [] ↔ T.recordAlloc = false := by
  unfold Tracing.transferLost
  cases T.recordAlloc
  · simp
  · by_cases hlarge : P.capacity ≤ r.recordSize.toNat
    · cases checkBit T.bitmap r.type <;> simp [hlarge]
    · cases T.dataAlloc
      · simp [hlarge]
      · cases T.copyAlloc
        · simp [hlarge]
        · cases T.copyFault <;> simp [hlarge]

theorem lost_eq_nil_iff {σ : Type u} {K : Kernel σ} {s : σ} (c : Call) :
    c.lost T P K s = [] ↔ ¬ c.GetsRecord T K s := by
  cases c with
  | readdir file ctx => exact iff_of_true rfl not_false
  | open_ inode file => simp [Call.lost, Call.GetsRecord, openLost_eq_nil]
  | close file owner => simp [Call.lost, Call.GetsRecord, closeLost_eq_nil]
  | mkdir dir dentry mode | unlink dir dentry =>
    simp [Call.lost, Call.GetsRecord, pathLost_eq_nil]
  | read file buf count ppos | write file buf count ppos =>
    simp only [Call.lost, Call.GetsRecord]
    split
    next hret => simp [hret, transferLost_eq_nil]
    next hret => simp [hret]
  | rmdir dir dentry =>
    simp only [Call.lost, Call.GetsRecord]
    split
    next herr => exact iff_of_true rfl fun h => herr h.1
    next herr => simp [not_not.mp herr, pathLost_eq_nil]
  | link oldDentry dir newDentry =>
    simp only [Call.lost, Call.GetsRecord]
    split
    next hstop => simp [hstop]
    next hstop => simp [hstop, pathsLost_eq_nil]
  | rename oldDir oldDentry newDir newDentry =>
    simp only [Call.lost, Call.GetsRecord]
    split
    next htrap => simp [htrap]
    next htrap => simp [htrap, pathsLost_eq_nil]

theorem given_back_iff (hrun : run step start labels = some m)
    (hclean : Along Clean step start labels) (hqueue : m.queue = []) :
    m.blocks.live = [] ↔
      ∀ c data, Label.call c data ∈ labels → ¬ c.call.GetsRecord c.T c.K c.s := by
  obtain ⟨lost, h, hperm⟩ := start_accounts.kept_run hclean hrun
  have hlive : m.blocks.live = [] ↔ lost = [] := by
    have hconsists : m.blocks.live.Perm lost := by
      have hall := h.consists
      rw [hqueue, List.append_nil] at hall
      exact hall
    constructor
    · intro hnil
      exact (hnil ▸ hconsists).nil_eq.symm
    · intro hnil
      exact (hnil ▸ hconsists).eq_nil
  have hloses : lost = [] ↔ labels.flatMap Label.loses = [] := by
    rw [← List.map_eq_nil_iff (f := Prod.snd)]
    constructor
    · intro hnil
      exact (hnil ▸ hperm).nil_eq.symm
    · intro hnil
      exact (hnil ▸ hperm).eq_nil
  rw [hlive, hloses, List.flatMap_eq_nil_iff]
  constructor
  · intro hall c data hmem
    exact (lost_eq_nil_iff c.call).mp (hall _ hmem)
  · intro hall x hx
    cases x with
    | call c data => exact (lost_eq_nil_iff c.call).mpr (hall c data hx)
    | work stale | flush r | resume r => rfl

theorem given_back_iff_readAfterMkdir :
    ∃ m, run step start readAfterMkdir = some m ∧
      (m.blocks.live = [] ↔ ∀ c data, Label.call c data ∈ readAfterMkdir →
        ¬ c.call.GetsRecord c.T c.K c.s) := by
  obtain ⟨m, hm, hqueue⟩ := readAfterMkdir_runs
  exact ⟨m, hm, given_back_iff hm readAfterMkdir_clean (List.isEmpty_iff.mp hqueue)⟩

end Memory

end TraceFS.Trfs
