import TraceFS.Lib.Faulting
import TraceFS.Trfs.Steps

/-! A mount from `trfs_read_super` to the end of `trfs_umount`: what is there for logging, and
what each step dereferences. -/

universe u

namespace TraceFS.Trfs

open TraceFS.Lib TraceFS.Linux

variable {P : PageSize}

inductive Resource where
  | sFsInfo
  | trInfo
  | filp
  deriving DecidableEq

inductive Presence where
  | absent
  | live
  | gone
  deriving DecidableEq

inductive ReadExit where
  | noDevice
  | noPath
  | noFile
  | noRoot
  | mounted
  deriving DecidableEq

inductive Reading where
  | start
  | named
  | found
  | allocated (sb : Bool)
  | traced (info : Bool)
  | queued
  | threaded
  | opened
  | left (exit : ReadExit)
  deriving DecidableEq

inductive Teardown where
  | idle
  | begun
  | stopped
  | written
  | closed
  | freed
  | destroyed
  | returned
  deriving DecidableEq

/-- The logger thread; it is armed when it has found bytes in the buffer and is to flush them. -/
inductive Logger where
  | absent
  | failed
  | running (armed : Bool)
  | exited
  deriving DecidableEq

/-- `locked` says that the worker is in the critical section of `log_record`, past its write to the
file. The critical sections of all others are over when `trfs_umount` closes the file. In
`eworkqueue_init`, the operations `missed` have found no queue and are to create one, and the
operations `tried` have done so. -/
structure Mount (P : PageSize) where
  logging : State P
  reading : Reading
  teardown : Teardown
  sFsInfo : Presence
  trInfo : Presence
  filp : Presence
  logger : Logger
  eWq : Presence
  locked : Bool
  missed : List Nat
  tried : List Nat

def Mount.start (P : PageSize) : Mount P where
  logging := .start P
  reading := .start
  teardown := .idle
  sFsInfo := .absent
  trInfo := .absent
  filp := .absent
  logger := .absent
  eWq := .absent
  locked := false
  missed := []
  tried := []

inductive MountLabel (P : PageSize) where
  | devName (given : Bool)
  | kernPath (found : Bool)
  | allocSb (ok : Bool)
  | allocTrInfo (ok : Bool)
  | createQueue (ok : Bool)
  | runThread (ok : Bool)
  | openFile (ok : Bool)
  | makeRoot (ok : Bool)
  | round
  | enter
  | missQueue (op : Nat)
  | makeQueue (op : Nat) (ok : Bool)
  | logging (l : Label P)
  | killSb
  | stopThread
  | finalWrite
  | closeFile
  | freeTrInfo
  | destroyQueue
  | shutdown

namespace State

variable (s : State P)

/-- The record goes to the file at once, or makes room for itself there. -/
def Writes (r : Record) : Prop :=
  r.flushBufferSig = 1 ∨ s.sb.trInfo.WouldFill (r.withId s.sb.lastId)

instance (r : Record) : Decidable (s.Writes r) := inferInstanceAs (Decidable (_ ∨ _))

/-- The bit check of `log_record`, which a flush request does not get to. -/
def checkUses (r : Record) : List Resource :=
  if r.flushBufferSig = 1 then [] else [.sFsInfo, .trInfo]

def logUses (r : Record) : List Resource :=
  if s.Writes r then [.sFsInfo, .trInfo, .filp] else [.sFsInfo, .trInfo]

def logs? : Label P → Option Record
  | .work => s.worker.map fun w => w.job.record
  | .logReaddir op =>
    match s.phase op with
    | .logging job _ => some job.record
    | _ => none
  | .tick => some flushRequest
  | _ => none

def uses : Label P → List Resource
  | .submit _ | .submitLarge _ | .drop _ | .flushed _ => [.sFsInfo]
  | .checkLarge _ | .ioctl _ => [.sFsInfo, .trInfo]
  | .writeLarge .. => [.sFsInfo, .trInfo, .filp]
  | .checkReaddir op =>
    match s.phase op with
    | .built job => checkUses job.record
    | _ => []
  | .take =>
    match s.queue with
    | w :: _ => checkUses w.job.record
    | [] => []
  | .work => [.sFsInfo, .trInfo]
  | .logReaddir op => (s.logs? (.logReaddir op)).elim [] s.logUses
  | .tick => s.logUses flushRequest
  | .invoke _ | .build .. | .ret _ | .umount | .stop | .finalWrite | .close => []

end State

namespace Mount

variable (s : Mount P)

def presence : Resource → Presence
  | .sFsInfo => s.sFsInfo
  | .trInfo => s.trInfo
  | .filp => s.filp

/-- What a step dereferences: a resource has to be followed on the way to the next. -/
def uses : MountLabel P → List Resource
  | .devName _ | .kernPath _ | .allocSb _ | .stopThread => []
  | .allocTrInfo _ | .runThread _ | .makeRoot _ | .missQueue _ | .makeQueue .. | .killSb =>
    [.sFsInfo]
  | .createQueue _ => [.sFsInfo, .trInfo]
  | .openFile ok => if ok then [.sFsInfo, .trInfo] else []
  | .round => [.sFsInfo, .trInfo]
  | .enter => (s.logging.logs? .work).elim [] s.logging.logUses
  | .logging l => s.logging.uses l
  | .destroyQueue => [.sFsInfo]
  | .finalWrite | .closeFile => [.sFsInfo, .trInfo, .filp]
  | .freeTrInfo => [.sFsInfo, .trInfo]
  | .shutdown => if s.reading = .left .mounted then [.sFsInfo] else []

/-- The step puts what `create_singlethread_workqueue` returned in the place of a queue: nothing
will destroy that one. -/
def LosesQueue : MountLabel P → Prop
  | .makeQueue .. => s.eWq = .live
  | _ => False

instance (l : MountLabel P) : Decidable (s.LosesQueue l) := by
  cases l <;> unfold LosesQueue <;> infer_instance

def Safe (l : MountLabel P) : Prop := (∀ r ∈ s.uses l, s.presence r = .live) ∧ ¬ s.LosesQueue l

instance (l : MountLabel P) : Decidable (s.Safe l) := inferInstanceAs (Decidable (_ ∧ _))

def Operates : Prop := s.reading = .left .mounted ∧ s.teardown = .idle

instance : Decidable s.Operates := inferInstanceAs (Decidable (_ ∧ _))

def Takes : Label P → Prop
  | .tick => s.logger = .running true ∧ s.locked = false
  | .take => s.eWq = .live
  | .work => s.eWq = .live ∧ s.locked = true
  | .writeLarge .. | .logReaddir _ => s.Operates ∧ s.locked = false
  | .submit op | .submitLarge op => s.Operates ∧ s.eWq = .live ∧ op ∉ s.missed
  | .drop op => s.Operates ∧ s.eWq ≠ .live ∧ op ∈ s.tried
  | .invoke _ | .build .. | .checkLarge _ | .flushed _ | .checkReaddir _ | .ret _ | .ioctl _ =>
    s.Operates
  | .umount | .stop | .finalWrite | .close => False

instance (l : Label P) : Decidable (s.Takes l) :=
  match l with
  | .take => inferInstanceAs (Decidable (_ = _))
  | .tick | .work | .writeLarge .. | .logReaddir _ | .submit _ | .submitLarge _ | .drop _ =>
    inferInstanceAs (Decidable (_ ∧ _))
  | .invoke _ | .build .. | .checkLarge _ | .flushed _ | .checkReaddir _ | .ret _ | .ioctl _ =>
    inferInstanceAs (Decidable s.Operates)
  | .umount | .stop | .finalWrite | .close => inferInstanceAs (Decidable False)

def logNext (l : Label P) : Option (Mount P) :=
  (s.logging.step l).map fun logging =>
    match l with
    | .tick => { s with logging := logging, logger := .running false }
    | .work => { s with logging := logging, locked := false }
    | _ => { s with logging := logging }

def next : MountLabel P → Option (Mount P)
  | .devName given =>
    if s.reading = .start then
      some { s with reading := if given then .named else .left .noDevice }
    else none
  | .kernPath found =>
    if s.reading = .named then some { s with reading := if found then .found else .left .noPath }
    else none
  | .allocSb ok =>
    if s.reading = .found then
      some { s with reading := .allocated ok, sFsInfo := if ok then .live else .absent }
    else none
  | .allocTrInfo ok =>
    match s.reading with
    | .allocated _ => some { s with reading := .traced ok, trInfo := if ok then .live else .absent }
    | _ => none
  | .createQueue ok =>
    match s.reading with
    | .traced _ => some { s with reading := .queued, eWq := if ok then .live else .absent }
    | _ => none
  | .runThread ok =>
    if s.reading = .queued then
      some { s with reading := .threaded, logger := if ok then .running false else .failed }
    else none
  | .openFile ok =>
    if s.reading = .threaded then
      if ok then some { s with reading := .opened, filp := .live }
      else some { s with reading := .left .noFile }
    else none
  | .makeRoot ok =>
    if s.reading = .opened then
      if ok then some { s with reading := .left .mounted }
      -- `out_sput` frees the private data, but neither stops the thread nor closes the file
      else some { s with reading := .left .noRoot, sFsInfo := .gone }
    else none
  | .round =>
    if s.logger = .running false then
      some { s with logger := .running (0 < s.logging.sb.trInfo.bufferOffset.toNat) }
    else none
  | .enter =>
    if s.logging.worker.isSome ∧ s.locked = false then some { s with locked := true } else none
  | .missQueue op =>
    -- `eWq` is tested and set without the mutex
    if s.Operates ∧ s.eWq ≠ .live ∧ op ∉ s.missed ∧ (s.logging.step (.drop op)).isSome then
      some { s with missed := op :: s.missed }
    else none
  | .makeQueue op ok =>
    if s.Operates ∧ op ∈ s.missed then
      some { s with
        missed := s.missed.filter (· ≠ op)
        tried := op :: s.tried
        eWq := if ok then .live else .absent }
    else none
  | .logging l => if s.Takes l then s.logNext l else none
  | .killSb =>
    -- the VFS calls `trfs_umount`, which asks the thread to stop and waits for it
    match s.reading with
    | .left _ => (s.logging.step .umount).map fun logging =>
        { s with logging := logging, teardown := .begun }
    | _ => none
  | .stopThread =>
    -- of a thread that was never started, `kthread_stop` crashes on the error pointer
    if s.teardown = .begun ∧ s.logger = .running false then
      (s.logging.step .stop).map fun logging =>
        { s with logging := logging, teardown := .stopped, logger := .exited }
    else none
  | .finalWrite =>
    if s.teardown = .stopped ∧ s.locked = false then
      (s.logging.step .finalWrite).map fun logging =>
        { s with logging := logging, teardown := .written }
    else none
  | .closeFile =>
    if s.teardown = .written then some { s with teardown := .closed, filp := .gone } else none
  | .freeTrInfo =>
    if s.teardown = .closed then some { s with teardown := .freed, trInfo := .gone } else none
  | .destroyQueue =>
    -- `destroy_workqueue` lets the worker finish the queue first
    if s.teardown = .freed ∧ s.logging.queue = [] ∧ s.logging.worker.isNone then
      some { s with teardown := .destroyed, eWq := if s.eWq = .live then .gone else s.eWq }
    else none
  | .shutdown =>
    -- `generic_shutdown_super` calls `trfs_put_super` when there is a root
    if s.teardown = .destroyed then
      some { s with
        teardown := .returned
        sFsInfo := if s.reading = .left .mounted then .gone else s.sFsInfo }
    else none

/-- The step can be taken, or it gets into a critical section whose copies go wrong. -/
def Attempts : MountLabel P → Prop
  | .logging l => s.Takes l ∧ ((s.logging.step l).isSome ∨ (s.logging.logs? l).isSome)
  | l => (s.next l).isSome

instance (l : MountLabel P) : Decidable (s.Attempts l) :=
  match l with
  | .logging l => inferInstanceAs
      (Decidable (s.Takes l ∧ ((s.logging.step l).isSome ∨ (s.logging.logs? l).isSome)))
  | .devName _ | .kernPath _ | .allocSb _ | .allocTrInfo _ | .createQueue _ | .runThread _
  | .openFile _ | .makeRoot _ | .round | .enter | .missQueue _ | .makeQueue .. | .killSb
  | .stopThread | .finalWrite | .closeFile | .freeTrInfo | .destroyQueue | .shutdown =>
    inferInstanceAs (Decidable (_ = _))

def step : Faulting (Mount P) → MountLabel P → Option (Faulting (Mount P)) :=
  Faulting.step Attempts Safe next

variable {s} {s' : Mount P}

theorem logNext_eq_some {l : Label P} (hs : s.logNext l = some s') :
    ∃ t, s.logging.step l = some t ∧
      s' = { s with logging := t, logger := s'.logger, locked := s'.locked } ∧
      (s'.locked = true → s.locked = true ∧ l ≠ .work) ∧
      (s'.logger = s.logger ∨ s'.logger = .running false ∧ l = .tick) := by
  obtain ⟨t, ht, rfl⟩ := Option.map_eq_some_iff.mp hs
  refine ⟨t, ht, ?_⟩
  cases l <;> simp

theorem next_allocTrInfo {ok : Bool} (hs : s.next (.allocTrInfo ok) = some s') :
    ∃ sb, s.reading = .allocated sb ∧
      s' = { s with reading := .traced ok, trInfo := if ok then .live else .absent } := by
  simp only [next] at hs
  split at hs
  case h_1 sb hr => exact ⟨sb, hr, (Option.some.inj hs).symm⟩
  case h_2 => cases hs

theorem next_createQueue {ok : Bool} (hs : s.next (.createQueue ok) = some s') :
    ∃ info, s.reading = .traced info ∧
      s' = { s with reading := .queued, eWq := if ok then .live else .absent } := by
  simp only [next] at hs
  split at hs
  case h_1 info hr => exact ⟨info, hr, (Option.some.inj hs).symm⟩
  case h_2 => cases hs

theorem next_killSb (hs : s.next .killSb = some s') :
    ∃ exit t, s.reading = .left exit ∧ s.logging.step .umount = some t ∧
      s' = { s with logging := t, teardown := .begun } := by
  simp only [next] at hs
  split at hs
  case h_1 exit hr =>
    obtain ⟨t, hstep, rfl⟩ := Option.map_eq_some_iff.mp hs
    exact ⟨exit, t, hr, hstep, rfl⟩
  case h_2 => cases hs

theorem next_logging {l : MountLabel P} (hs : s.next l = some s') :
    s'.logging = s.logging ∨ ∃ l', s.logging.step l' = some s'.logging := by
  cases l with
  | logging l =>
    obtain ⟨t, hstep, heq, -⟩ := logNext_eq_some (Option.ite_none_right_eq_some.mp hs).2
    rw [heq]
    exact .inr ⟨l, hstep⟩
  | killSb =>
    obtain ⟨exit, t, -, hstep, rfl⟩ := next_killSb hs
    exact .inr ⟨_, hstep⟩
  | stopThread | finalWrite =>
    obtain ⟨t, hstep, rfl⟩ := Option.map_eq_some_iff.mp (Option.ite_none_right_eq_some.mp hs).2
    exact .inr ⟨_, hstep⟩
  | openFile ok | makeRoot ok =>
    obtain ⟨-, hs⟩ := Option.ite_none_right_eq_some.mp hs
    cases ok <;> cases hs <;> exact .inl rfl
  | allocTrInfo ok =>
    obtain ⟨sb, -, rfl⟩ := next_allocTrInfo hs
    exact .inl rfl
  | createQueue ok =>
    obtain ⟨info, -, rfl⟩ := next_createQueue hs
    exact .inl rfl
  | _ =>
    cases (Option.ite_none_right_eq_some.mp hs).2
    exact .inl rfl

theorem logging_reachable {labels : List (MountLabel P)}
    (h : run Mount.step (.running (.start P)) labels = some (.running s)) :
    ∃ ls, run State.step (State.start P) ls = some s.logging := by
  refine Faulting.holds_of_run (I := fun s : Mount P =>
    ∃ ls, run State.step (State.start P) ls = some s.logging) ?_ ⟨[], rfl⟩ h
  rintro s l s' ⟨ls, hls⟩ - hs
  rcases next_logging hs with heq | ⟨l', hstep⟩
  · exact ⟨ls, heq ▸ hls⟩
  · exact ⟨ls ++ [l'], run_concat_eq_some.mpr ⟨_, hls, hstep⟩⟩

end Mount

end TraceFS.Trfs
