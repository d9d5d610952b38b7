import TraceFS.Lib.Run
import TraceFS.Trfs.Bounds
import TraceFS.Trfs.Format
import Mathlib.Logic.Function.Basic

/-! One mount at work: the clients, the queue with its single worker, the logger thread, the
bitmap ioctls and `trfs_umount`, in any interleaving. Every `vfs_write` is complete. -/

universe u

namespace TraceFS.Trfs

open TraceFS.Lib TraceFS.Linux

variable {P : PageSize}

def logLocked (sb : SbInfo P) (r : Record) (o : WriteOutcome) : Except Fault (SbInfo P) :=
  if r.flushBufferSig = 1 then
    (syncLogRecord sb.trInfo r o).map fun out => { sb with trInfo := out.1 }
  else
    (syncLogRecord sb.trInfo (r.withId sb.lastId) o).map fun out => ⟨out.1, sb.lastId + 1⟩

theorem logRecord_eq_logLocked (sb : SbInfo P) (r : Record) (o : WriteOutcome) :
    logRecord sb r o =
      if r.flushBufferSig ≠ 1 ∧ checkBit sb.trInfo.bitmap r.type = false then .ok (sb, -1)
      else (logLocked sb r o).map fun sb => (sb, 0) := by
  unfold logRecord logLocked
  by_cases hsig : r.flushBufferSig = 1
  · simp only [hsig, ne_eq, not_true_eq_false, false_and, if_false, if_true]
    cases syncLogRecord sb.trInfo r o <;> rfl
  · simp only [hsig, ne_eq, not_false_eq_true, true_and, if_true, if_false]
    split
    · rfl
    · cases syncLogRecord sb.trInfo (r.withId sb.lastId) o <;> rfl

/-- A record as an operation hands it over, with the user's buffer of a read or write. Only
`trfs_link` leaves `flush_buffer_sig` to what `kmalloc` finds. -/
structure Job (P : PageSize) where
  type : LogType
  record : Record
  buf : List Byte
  sized : record.Sized P type
  clear : type ≠ .link → record.flushBufferSig ≠ 1
  bufLength : type.HasData → buf.length = record.dataLength.toNat

def Submission.Sound.job {T : Tracing} {sub : Submission} (h : sub.Sound P T ty) : Job P where
  type := ty
  record := sub.record
  buf := sub.buf
  sized := h.sized
  clear := h.clear
  bufLength := h.bufLength

theorem Call.submitted_job {σ : Type u} {K : Kernel σ} {T : Tracing} {c : Call} {s : σ} {e : Exit σ}
    (he : c.trfs K T P s = .ok e) :
    ∀ sub ∈ e.submitted, ∃ job : Job P, job.type = c.logType ∧ job.record = sub.record ∧
      job.buf = sub.buf := fun sub hsub =>
  ⟨(c.submitted_sound he sub hsub).job, rfl, rfl, rfl⟩

structure Work (P : PageSize) where
  op : Nat
  job : Job P

/-- How far an operation has come. Only large records are waited for, and only
`trfs_readdir` logs its record itself. -/
inductive Phase (P : PageSize) where
  | idle
  | invoked
  | built (job : Job P)
  | checked (job : Job P) (large : job.record.Large P)
  | flushing (job : Job P) (large : job.record.Large P)
  | ready (job : Job P) (large : job.record.Large P)
  | logging (job : Job P) (readdir : job.type = .readdir)
  | done
  | returned

inductive Unmounting where
  | mounted
  | begun
  | stopped
  | written
  | closed
  deriving DecidableEq

inductive Segment where
  | whole (op : Nat) (r : Record)
  | header (op : Nat) (r : Record)
  | data (op : Nat) (buf : List Byte)
  deriving DecidableEq

def Segment.bytes : Segment → List Byte
  | .whole _ r | .header _ r => r.emitted
  | .data _ buf => buf

def Segment.recordOp? : Segment → Option Nat
  | .whole op _ | .header op _ => some op
  | .data _ _ => none

structure Ledger where
  filed : List Segment
  buffered : List Segment

namespace Ledger

def log (l : Ledger) : List Segment := l.filed ++ l.buffered

def logged (l : Ledger) : List Nat := l.log.filterMap Segment.recordOp?

def flush (l : Ledger) : Ledger := ⟨l.filed ++ l.buffered, []⟩

def append (l : Ledger) (g : Segment) : Ledger := ⟨l.filed, l.buffered ++ [g]⟩

def write (l : Ledger) (g : Segment) : Ledger := ⟨l.filed ++ l.buffered ++ [g], []⟩

end Ledger

/-- The state of the mount, and a history of it that no step looks at: which operations were in
progress, had returned, had returned when another was invoked, had handed over their records, or
had their bit found clear by `log_record`. -/
structure State (P : PageSize) where
  sb : SbInfo P
  eWq : Bool
  queue : List (Work P)
  worker : Option (Work P)
  phase : Nat → Phase P
  umount : Unmounting
  active : List Nat
  returned : List Nat
  before : Nat → List Nat
  submitted : List Nat
  unset : List Nat
  ledger : Ledger

def State.start (P : PageSize) : State P where
  sb := .fresh P
  eWq := false
  queue := []
  worker := none
  phase _ := .idle
  umount := .mounted
  active := []
  returned := []
  before _ := []
  submitted := []
  unset := []
  ledger := ⟨[], []⟩

inductive Label (P : PageSize) where
  | invoke (op : Nat)
  | build (op : Nat) (job : Option (Job P))
  | submit (op : Nat)
  | checkLarge (op : Nat)
  | submitLarge (op : Nat)
  /-- There is no queue yet, and `create_singlethread_workqueue` fails. -/
  | drop (op : Nat)
  | flushed (op : Nat)
  /-- The worker has freed the record: `found` is what its `data_length` reads now, with so many
  bytes from the user's buffer on. -/
  | writeLarge (op : Nat) (found : Counted 64)
  | checkReaddir (op : Nat)
  | logReaddir (op : Nat)
  | ret (op : Nat)
  | ioctl (cmd : BitmapIoctl)
  | take
  | work
  | tick
  | umount
  | stop
  | finalWrite
  | close

namespace State

def setPhase (s : State P) (op : Nat) (p : Phase P) : State P :=
  { s with phase := Function.update s.phase op p }

def ledgerAfter (s : State P) (op : Nat) (r : Record) : Ledger :=
  if r.flushBufferSig = 1 then s.ledger.flush
  else
    let room := if s.sb.trInfo.WouldFill r then s.ledger.flush else s.ledger
    let r := r.withId s.sb.lastId
    room.append (if r.HeaderOnly then .header op r else .whole op r)

/-- The critical section of `log_record`. A fault in it is the end of the run. -/
def log (s : State P) (op : Nat) (r : Record) : Option (State P) :=
  match logLocked s.sb r .all with
  | .error _ => none
  | .ok sb => some { s with sb := sb, ledger := s.ledgerAfter op r }

def Passes (s : State P) (r : Record) : Prop :=
  r.flushBufferSig = 1 ∨ checkBit s.sb.trInfo.bitmap r.type = true

instance (s : State P) (r : Record) : Decidable (s.Passes r) := inferInstanceAs (Decidable (_ ∨ _))

def noteBit (s : State P) (op : Nat) (r : Record) : State P :=
  if checkBit s.sb.trInfo.bitmap r.type then s else { s with unset := op :: s.unset }

def pending (s : State P) : List (Work P) := s.worker.toList ++ s.queue

/-- A step of one operation; the VFS runs none while it unmounts. -/
def clientStep (s : State P) : Label P → Option (State P)
  | .invoke op =>
    match s.phase op with
    | .idle =>
      some { s.setPhase op .invoked with
        active := op :: s.active
        before := Function.update s.before op s.returned }
    | _ => none
  | .build op job =>
    match s.phase op with
    | .invoked =>
      some (s.setPhase op (match job with | some job => .built job | none => .done))
    | _ => none
  | .submit op =>
    match s.phase op with
    | .built job =>
      if job.type = .readdir ∨ job.record.Large P then none
      else
        some { s.setPhase op .done with
          eWq := true
          queue := s.queue ++ [⟨op, job⟩]
          submitted := op :: s.submitted }
    | _ => none
  | .checkLarge op =>
    match s.phase op with
    | .built job =>
      if hl : job.record.Large P then
        if checkBit s.sb.trInfo.bitmap job.record.type then some (s.setPhase op (.checked job hl))
        else some (s.setPhase op .done)
      else none
    | _ => none
  | .submitLarge op =>
    match s.phase op with
    | .checked job hl =>
      some { s.setPhase op (.flushing job hl) with
        eWq := true
        queue := s.queue ++ [⟨op, job⟩]
        submitted := op :: s.submitted }
    | _ => none
  | .drop op =>
    if s.eWq then none
    else
      match s.phase op with
      | .built job =>
        if job.type = .readdir ∨ job.record.Large P then none
        else some { s.setPhase op .done with submitted := op :: s.submitted }
      -- `flush_workqueue` of no queue: the oops is the end of the operation
      | .checked _ _ => some { s.setPhase op .done with submitted := op :: s.submitted }
      | _ => none
  | .flushed op =>
    match s.phase op with
    | .flushing job hl =>
      if ∀ w ∈ s.pending, w.op ≠ op then some (s.setPhase op (.ready job hl)) else none
    | _ => none
  | .writeLarge op found =>
    match s.phase op with
    | .ready _ _ =>
      some { s.setPhase op .done with
        sb := Trfs.writeLarge s.sb found.2.val found.1 .all .all
        ledger := s.ledger.write (.data op found.2.val) }
    | _ => none
  | .checkReaddir op =>
    match s.phase op with
    | .built job =>
      if hr : job.type = .readdir then
        let s := s.noteBit op job.record
        some { s.setPhase op (if s.Passes job.record then .logging job hr else .done) with
          submitted := op :: s.submitted }
      else none
    | _ => none
  | .logReaddir op =>
    match s.phase op with
    | .logging job _ => (s.setPhase op .done).log op job.record
    | _ => none
  | .ret op =>
    match s.phase op with
    | .done =>
      some { s.setPhase op .returned with
        active := s.active.erase op
        returned := op :: s.returned }
    | _ => none
  | .ioctl cmd => some { s with sb := ioctlBitmap s.sb cmd }
  | _ => none

def systemStep (s : State P) : Label P → Option (State P)
  | .take =>
    match s.worker, s.queue with
    | none, w :: queue =>
      let s := s.noteBit w.op w.job.record
      some { s with queue := queue, worker := if s.Passes w.job.record then some w else none }
    | _, _ => none
  | .work =>
    match s.worker with
    | some w => { s with worker := none }.log w.op w.job.record
    | none => none
  | .tick =>
    -- the test of `buffer_offset` is made without the mutex: the buffer may be empty by now
    if s.umount = .mounted ∨ s.umount = .begun then s.log 0 flushRequest else none
  | .umount =>
    if s.umount = .mounted ∧ s.active = [] then some { s with umount := .begun } else none
  | .stop => if s.umount = .begun then some { s with umount := .stopped } else none
  | .finalWrite =>
    if s.umount = .stopped then
      some { s with
        umount := .written
        sb := umountFlush s.sb .all
        ledger := s.ledger.flush }
    else none
  | .close => if s.umount = .written then some { s with umount := .closed } else none
  | _ => none

def step (s : State P) (l : Label P) : Option (State P) :=
  match l with
  | .take | .work | .tick | .umount | .stop | .finalWrite | .close =>
    -- with the trace file closed and `tr_info` freed, nothing is logged any more
    if s.umount = .closed then none else s.systemStep l
  | _ => if s.umount = .mounted then s.clientStep l else none

end State

end TraceFS.Trfs
