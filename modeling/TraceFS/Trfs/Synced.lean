import TraceFS.Lib.Observed
import TraceFS.Lib.Waiting
import TraceFS.Trfs.Unmount
import TraceFS.Trfs.Contiguous

/-! What the threads of a mount wait for: the trace mutex, the queue, the end of the logger thread
and the locks of lower directories. -/

namespace TraceFS.Trfs

open TraceFS.Lib TraceFS.Linux

variable {P : PageSize}

inductive Actor where
  | client (op : Nat)
  | worker
  | logger
  | umount
  deriving DecidableEq

/-- Where the logger thread is: before its loop, at `kthread_should_stop`, at the test of
`buffer_offset`, about to lock, in its critical section before and after the flush, in `ssleep`,
or out of the loop. -/
inductive Round where
  | starting
  | test
  | looking
  | armed
  | locked
  | flushed
  | asleep
  | exited
  deriving DecidableEq

/-- Who holds the trace mutex, whether the logger thread has a record, the lower directories that
each operation has to lock yet and those that it has locked, who holds the mutex that a rename
across directories takes first, and the operations that have oopsed. -/
structure Sync where
  mutex : Option Actor
  round : Round
  record : Bool
  wants : Nat → Option (List Ptr)
  locked : Nat → List Ptr
  holder : Ptr → Option Nat
  renamer : Option Nat
  oopsed : List Nat

inductive SyncLabel where
  | begin_ (op : Nat) (dirs : List Ptr)
  | lockRename (op : Nat)
  | lockDir (op : Nat)
  | unlockDirs (op : Nat)
  | lock (a : Actor)
  | unlock (a : Actor)
  /-- An `ERR_PTR` is taken for a path, or `kmalloc` has no memory for the `my_work_t`. -/
  | oops (op : Nat)
  | kzalloc (mem : Bool)
  | test
  | look
  | wake

def Label.actor : Label P → Option Actor
  | .invoke op | .build op _ | .submit op | .checkLarge op | .submitLarge op | .drop op
  | .flushed op | .writeLarge op _ | .checkReaddir op | .logReaddir op
  | .ret op => some (.client op)
  | .take | .work => some .worker
  | .tick => some .logger
  | .umount | .stop | .finalWrite | .close => some .umount
  | .ioctl _ => none

def SyncLabel.actor : SyncLabel → Actor
  | .begin_ op _ | .lockRename op | .lockDir op | .unlockDirs op | .oops op => .client op
  | .lock a | .unlock a => a
  | .kzalloc _ | .test | .look | .wake => .logger

def Phase.Locking : Phase P → Prop
  | .ready .. | .logging .. => True
  | _ => False

def Phase.Done : Phase P → Prop
  | .done => True
  | _ => False

/-- The operation has its record to make yet, or to pass to `eworkqueue_init`. -/
def Phase.Faultable : Phase P → Prop
  | .invoked | .checked .. => True
  | .built job => job.type ≠ .readdir ∧ ¬ job.record.Large P
  | _ => False

instance (p : Phase P) : Decidable p.Locking :=
  match p with
  | .ready .. | .logging .. => isTrue trivial
  | .idle | .invoked | .built _ | .checked .. | .flushing .. | .done | .returned => isFalse id

instance (p : Phase P) : Decidable p.Done :=
  match p with
  | .done => isTrue trivial
  | .idle | .invoked | .built _ | .checked .. | .flushing .. | .ready .. | .logging ..
  | .returned => isFalse id

instance (p : Phase P) : Decidable p.Faultable :=
  match p with
  | .invoked | .checked .. => isTrue trivial
  | .built _ => inferInstanceAs (Decidable (_ ∧ _))
  | .idle | .flushing .. | .ready .. | .logging .. | .done | .returned => isFalse id

namespace Sync

def start : Sync where
  mutex := none
  round := .starting
  record := false
  wants _ := none
  locked _ := []
  holder _ := none
  renamer := none
  oopsed := []

/-- A critical section is one of the thread that has the mutex, `kthread_stop` returns when the
thread is gone, and no operation returns with a lock. -/
def see (_ : State P) (e : Sync) : Label P → Option Sync
  | .build op _ => if e.wants op = some [] then some e else none
  | .logReaddir op | .writeLarge op _ => if e.mutex = some (.client op) then some e else none
  | .work => if e.mutex = some .worker then some e else none
  | .take => if e.mutex ≠ some .worker then some e else none
  | .tick => if e.round = .locked then some { e with round := .flushed } else none
  | .finalWrite => if e.mutex = some .umount then some e else none
  | .stop => if e.round = .exited then some e else none
  | .ret op =>
    if e.locked op = [] ∧ e.renamer ≠ some op ∧ e.mutex ≠ some (.client op) then some e else none
  -- beyond the release of the mutex by `trfs_umount`
  | .close => none
  | .invoke _ | .submit _ | .checkLarge _ | .submitLarge _ | .drop _ | .flushed _
  | .checkReaddir _ | .ioctl _ | .umount => some e

def Needs (s : State P) (e : Sync) : Actor → Prop
  | .client op => (s.phase op).Locking
  | .worker => s.worker.isSome
  | .logger => e.round = .armed
  | .umount => s.umount = .stopped

def Through (s : State P) (e : Sync) : Actor → Prop
  | .client op => (s.phase op).Done
  | .worker => s.worker.isNone
  | .logger => e.round = .flushed
  | .umount => s.umount = .written

instance (s : State P) (e : Sync) (a : Actor) : Decidable (e.Needs s a) :=
  match a with
  | .client op => inferInstanceAs (Decidable (s.phase op).Locking)
  | .worker | .logger | .umount => inferInstanceAs (Decidable (_ = _))

instance (s : State P) (e : Sync) (a : Actor) : Decidable (e.Through s a) :=
  match a with
  | .client op => inferInstanceAs (Decidable (s.phase op).Done)
  | .worker | .logger | .umount => inferInstanceAs (Decidable (_ = _))

def act (s : State P) (e : Sync) : SyncLabel → Option Sync
  | .begin_ op dirs =>
    match s.phase op, e.wants op with
    | .invoked, none =>
      if dirs.Nodup ∧ dirs.length ≤ 2 then
        some { e with wants := Function.update e.wants op (some dirs) }
      else none
    | _, _ => none
  | .lockRename op =>
    match e.wants op with
    | some (_ :: _ :: _) => if e.renamer = none then some { e with renamer := some op } else none
    | _ => none
  | .lockDir op =>
    match e.wants op with
    | some (dir :: dirs) =>
      if e.holder dir = none ∧ (dirs = [] ∨ e.renamer = some op) then
        some { e with
          wants := Function.update e.wants op (some dirs)
          locked := Function.update e.locked op (dir :: e.locked op)
          holder := Function.update e.holder dir (some op) }
      else none
    | _ => none
  | .unlockDirs op =>
    if (s.phase op).Done ∧ (e.locked op ≠ [] ∨ e.renamer = some op) then
      some { e with
        locked := Function.update e.locked op []
        holder := fun dir => if e.holder dir = some op then none else e.holder dir
        renamer := if e.renamer = some op then none else e.renamer }
    else none
  | .lock a =>
    if e.mutex = none ∧ e.Needs s a then
      some { e with mutex := some a, round := if a = .logger then .locked else e.round }
    else none
  | .unlock a =>
    if e.mutex = some a ∧ e.Through s a then
      some { e with mutex := none, round := if a = .logger then .asleep else e.round }
    else none
  | .oops op =>
    if e.wants op = some [] ∧ (s.phase op).Faultable then
      some { e with oopsed := op :: e.oopsed }
    else none
  | .kzalloc mem =>
    if e.round = .starting then some { e with round := .test, record := mem } else none
  | .test =>
    if e.round = .test then
      some { e with round := if s.umount = .begun then .exited else .looking }
    else none
  | .look =>
    if e.round = .looking then
      some { e with
        round :=
          if 0 < s.sb.trInfo.bufferOffset.toNat then
            -- `r->flush_buffer_sig = 1` through NULL is the end of the thread
            if e.record then .armed else .exited
          else .asleep }
    else none
  | .wake => if e.round = .asleep then some { e with round := .test } else none

def Alive (e : Sync) (a : Option Actor) : Prop := ∀ op ∈ e.oopsed, a ≠ some (.client op)

instance (e : Sync) (a : Option Actor) : Decidable (e.Alive a) :=
  inferInstanceAs (Decidable (∀ op ∈ e.oopsed, _))

/-- The oops is the end of an operation, whatever it has locked. -/
def surroundings (P : PageSize) : Surroundings (State P) (Label P) Sync SyncLabel where
  see s e l := if e.Alive l.actor then see s e l else none
  act s e l := if e.Alive l.actor then act s e l else none

end Sync

abbrev Synced (P : PageSize) : Type := State P × Sync

def Record.Copyable (r : Record) : Prop :=
  r.flushBufferSig = 1 ∨ ∀ c ∈ (syncCopies r 0).1, c.Readable

instance (r : Record) : Decidable r.Copyable := inferInstanceAs (Decidable (_ ∨ _))

namespace Synced

def start (P : PageSize) : Synced P := (State.start P, .start)

def step : Synced P → Label P ⊕ SyncLabel → Option (Synced P) :=
  (Sync.surroundings P).step State.step

def actor : Label P ⊕ SyncLabel → Option Actor
  | .inl l => l.actor
  | .inr l => some l.actor

theorem step_inl {c c' : Synced P} {l : Label P} :
    c.step (.inl l) = some c' ↔
      c.2.Alive l.actor ∧ c.1.step l = some c'.1 ∧ Sync.see c.1 c.2 l = some c'.2 := by
  rw [step, Surroundings.step_inl, and_left_comm]
  exact and_congr_right' Option.ite_none_right_eq_some

theorem step_inr {c c' : Synced P} {l : SyncLabel} :
    c.step (.inr l) = some c' ↔
      c.2.Alive l.actor ∧ c'.1 = c.1 ∧ Sync.act c.1 c.2 l = some c'.2 := by
  rw [step, Surroundings.step_inr, and_left_comm]
  exact and_congr_right' Option.ite_none_right_eq_some

variable (c : Synced P)

def Holds (op : Nat) : Prop := c.2.locked op ≠ [] ∨ c.2.renamer = some op

def AwaitsQueue (a : Actor) : Prop := ∃ op job hl, a = .client op ∧ c.1.phase op = .flushing job hl

def AwaitsThread (a : Actor) : Prop := a = .umount ∧ c.1.umount = .begun

inductive Waits : Actor → Actor → Prop where
  | mutex {a b : Actor} (hneeds : c.2.Needs c.1 a) (hmutex : c.2.mutex = some b) : Waits a b
  | queue {a : Actor} (h : c.AwaitsQueue a) : Waits a .worker
  | thread {a : Actor} (h : c.AwaitsThread a) : Waits a .logger
  | directory {op op' : Nat} {dir : Ptr} {dirs : List Ptr}
      (hwants : c.2.wants op = some (dir :: dirs)) (hholder : c.2.holder dir = some op') :
      Waits (.client op) (.client op')
  | rename {op op' : Nat} {dir dir' : Ptr} {dirs : List Ptr}
      (hwants : c.2.wants op = some (dir :: dir' :: dirs)) (hrenamer : c.2.renamer = some op') :
      Waits (.client op) (.client op')

/-- No lock is left behind. -/
def Harmless : Label P ⊕ SyncLabel → Prop
  | .inr (.lock .worker) => ∀ w ∈ c.1.worker, w.job.record.Copyable
  | .inr (.lock (.client op)) => ∀ job hr, c.1.phase op = .logging job hr → job.record.Copyable
  | .inr (.oops op) => ¬ c.Holds op
  | _ => True

end Synced

end TraceFS.Trfs
