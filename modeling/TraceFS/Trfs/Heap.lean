import TraceFS.Trfs.Recorded
import TraceFS.Trfs.Submits
import TraceFS.Trfs.System

universe u

namespace TraceFS.Trfs

open TraceFS.Lib TraceFS.Linux TraceFS.Wrapfs

variable {σ : Type u} {K : Kernel σ} {T : Tracing} {P : PageSize} {c : Call} {s : σ}
  {sb : SbInfo P}

structure Consumed where
  type : Byte
  flushBufferSig : Byte
  logRwLarge : Byte
  pathLength : BitVec 16
  newPathLength : BitVec 16
  dataLength : BitVec 64
  recordSize : BitVec 32
  path : Option (List Byte)
  newPath : Option (List Byte)
  data : Option (List Byte)
  sbPrivate : BitVec 64
  deriving DecidableEq

def Record.consumed (r : Record) : Consumed where
  type := r.type
  flushBufferSig := r.flushBufferSig
  logRwLarge := r.logRwLarge
  pathLength := r.pathLength
  newPathLength := r.newPathLength
  dataLength := r.dataLength
  recordSize := r.recordSize
  path := r.path
  newPath := r.newPath
  data := r.data
  sbPrivate := r.sbPrivate

def Tracing.on (T : Tracing) (sb : SbInfo P) (heap : Record) : Tracing :=
  { T with bitmap := sb.trInfo.bitmap, heap := heap }

structure Tracing.Allocates (T : Tracing) : Prop where
  record : T.recordAlloc = true
  path : T.pathAlloc = true
  newPath : T.newPathAlloc = true
  data : T.dataAlloc = true
  copy : T.copyAlloc = true
  work : T.workAlloc = true
  queue : T.queueAlloc = true

theorem Tracing.Allocates.grants (h : T.Allocates) (sb : SbInfo P) (heap : Record)
    (hfits : ∀ dentry ∈ c.dentries K, (T.dentryPathRaw dentry).isSome) :
    (T.on sb heap).Grants K c where
  record := h.record
  path := h.path
  newPath := h.newPath
  data := h.data
  copy := h.copy
  work := h.work
  queue := h.queue
  fits := hfits

def Call.submission (K : Kernel σ) (T : Tracing) (P : PageSize) (s : σ) (c : Call) :
    List Submission :=
  match c.trfs K T P s with
  | .ok e => e.submitted
  | .error _ => []

def Submission.log (sb : SbInfo P) (room flushed data : WriteOutcome) (sub : Submission) :
    Except Fault (SbInfo P × CInt) :=
  logOp sb sub.record sub.buf room flushed data

/-- Whatever was in the memory before, the call hands over the same record, which sets all that
its consumers read, and it is logged in the same way and not taken for a flush request. -/
structure Call.HeapFree (K : Kernel σ) (T : Tracing) (s : σ) (sb : SbInfo P) (c : Call) :
    Prop where
  submission : ∀ h h', c.submission K (T.on sb h) P s = c.submission K (T.on sb h') P s
  logged : ∀ h h' room flushed data,
    (c.submission K (T.on sb h) P s).map (Submission.log sb room flushed data) =
      (c.submission K (T.on sb h') P s).map (Submission.log sb room flushed data)
  clear : ∀ h, ∀ sub ∈ c.submission K (T.on sb h) P s, sub.record.flushBufferSig ≠ 1
  set : ∀ h h', (c.submission K (T.on sb h) P s).map (fun sub => sub.record.consumed) =
    (c.submission K (T.on sb h') P s).map fun sub => sub.record.consumed

def Call.LinkRecorded (K : Kernel σ) (T : Tracing) (s : σ) : Call → Prop
  | .link oldDentry _ newDentry =>
    ¬ (linkLower K oldDentry newDentry s).Stops K ∧ (T.dentryPathRaw oldDentry).isSome ∧
      (T.dentryPathRaw newDentry).isSome
  | _ => False

theorem Call.trfs_heap (h : ¬ c.LinkRecorded K T s) (heap heap' : Record) :
    c.trfs K (T.on sb heap) P s = c.trfs K (T.on sb heap') P s := by
  cases c with
  | link oldDentry dir newDentry =>
    by_cases hstop : (linkLower K oldDentry newDentry s).Stops K
    · simp only [Call.trfs, trfsLink, if_pos hstop]
    · simp only [Call.trfs, trfsLink, if_neg hstop, tracePaths, dentryPath, Tracing.on]
      cases hold : T.dentryPathRaw oldDentry with
      | none => rfl
      | some p =>
        cases hnew : T.dentryPathRaw newDentry with
        | none => rfl
        | some q => exact absurd ⟨hstop, by simp [hold], by simp [hnew]⟩ h
  | readdir | open_ | read | write | close | mkdir | unlink | rename | rmdir => rfl

theorem Call.submission_clear (h : ¬ c.LinkRecorded K T s) (heap : Record) :
    ∀ sub ∈ c.submission K (T.on sb heap) P s, sub.record.flushBufferSig ≠ 1 := by
  intro sub hsub
  rw [Call.submission, Call.trfs_heap h heap Record.zero] at hsub
  split at hsub
  case h_2 => cases hsub
  case h_1 e he =>
    by_cases hty : c.logType = .link
    · cases c with
      | link oldDentry dir newDentry =>
        obtain ⟨err, s', p, q, -, -, rfl⟩ := Call.submits he hsub
        exact zero_clear
      | _ => cases hty
    · exact (c.submitted_sound he sub hsub).clear hty

theorem Call.HeapFree.of_not_linkRecorded (h : ¬ c.LinkRecorded K T s) : c.HeapFree K T s sb := by
  have hsame : ∀ heap heap', c.submission K (T.on sb heap) P s =
      c.submission K (T.on sb heap') P s := by
    intro heap heap'
    rw [Call.submission, Call.submission, Call.trfs_heap h heap heap']
  refine ⟨hsame, ?_, Call.submission_clear h, ?_⟩
  · intro heap heap' room flushed data
    rw [hsame heap heap']
  · intro heap heap'
    rw [hsame heap heap']

theorem Call.LinkRecorded.submission (h : c.LinkRecorded K T s) (hT : T.Allocates) (sb : SbInfo P)
    (heap : Record) :
    ∃ r, c.submission K (T.on sb heap) P s = [⟨r, []⟩] ∧ r.type = LogType.link.toByte ∧
      r.flushBufferSig = heap.flushBufferSig ∧ r.data = heap.data := by
  cases c with
  | link oldDentry dir newDentry =>
    generalize hcall : linkInterpose K dir newDentry (linkLower K oldDentry newDentry s) = call
    obtain ⟨hstop, hpaths⟩ := h
    have hgrants := hT.grants (K := K) (c := .link oldDentry dir newDentry) sb heap
      (by simpa [Call.dentries] using hpaths)
    obtain ⟨p, q, hpq⟩ := hgrants.tracePaths oldDentry newDentry (by simp [Call.dentries])
      (by simp [Call.dentries]) (linkRecord K (T.on sb heap) dir call.1 call.2)
    refine ⟨linkRecord K (T.on sb heap) dir call.1 call.2 p q, ?_, rfl, rfl, rfl⟩
    simp only [Call.submission, Call.trfs, trfsLink, if_neg hstop, hcall, hpq]
  | _ => exact h.elim

theorem logRecord_flush_ne {r r' : Record} (hr : r.flushBufferSig = 1)
    (hr' : r'.flushBufferSig ≠ 1) (o : WriteOutcome) : logRecord sb r o ≠ logRecord sb r' o := by
  rw [logRecord_flush o hr]
  cases hbit : checkBit sb.trInfo.bitmap r'.type with
  | false =>
    rw [logRecord_untraced o hr' hbit]
    intro heq
    have hret : (0 : CInt) = -1 := congrArg Prod.snd (Except.ok.inj heq)
    exact absurd hret (by decide)
  | true =>
    rw [logRecord_eq_logLocked, if_neg (by simp [hbit]), logLocked, if_neg hr']
    cases syncLogRecord sb.trInfo (r'.withId sb.lastId) o with
    | error f => exact nofun
    | ok out =>
      intro heq
      have hid : sb.lastId = sb.lastId + 1 := congrArg (fun x => x.1.lastId) (Except.ok.inj heq)
      bv_omega

theorem logOp_of_link {r : Record} (h : r.type = LogType.link.toByte) (buf : List Byte)
    (room flushed data : WriteOutcome) :
    logOp sb r buf room flushed data = logRecord sb r room := by
  refine if_neg ?_
  rintro ⟨hty, -⟩
  rw [h] at hty
  exact absurd hty (by decide)

theorem Call.LinkRecorded.logged_ne (h : c.LinkRecorded K T s) (hT : T.Allocates)
    {heap heap' : Record} (hsig : heap.flushBufferSig = 1) (hsig' : heap'.flushBufferSig ≠ 1)
    (room flushed data : WriteOutcome) :
    (c.submission K (T.on sb heap) P s).map (Submission.log sb room flushed data) ≠
      (c.submission K (T.on sb heap') P s).map (Submission.log sb room flushed data) := by
  obtain ⟨r, hr, hty, heq, -⟩ := h.submission hT sb heap
  obtain ⟨r', hr', hty', heq', -⟩ := h.submission hT sb heap'
  rw [hr, hr', List.map_singleton, List.map_singleton, Submission.log, Submission.log,
    logOp_of_link hty, logOp_of_link hty']
  intro hlog
  exact logRecord_flush_ne (heq.trans hsig) (heq' ▸ hsig') room (List.cons.inj hlog).1

/-- `trfs_link` is the one operation whose records depend on what `kmalloc` hands out. -/
theorem heap_free_iff (hT : T.Allocates) : c.HeapFree K T s sb ↔ ¬ c.LinkRecorded K T s := by
  refine ⟨fun hfree hk => ?_, Call.HeapFree.of_not_linkRecorded⟩
  have hlog := hfree.logged { Record.zero with flushBufferSig := 1 } Record.zero .all .all .all
  exact hk.logged_ne hT rfl zero_clear .all .all .all hlog

theorem plenty_allocates : Tracing.plenty.Allocates := ⟨rfl, rfl, rfl, rfl, rfl, rfl, rfl⟩

theorem heap_free_iff_mkdir :
    (Call.mkdir 2 3 0o755).HeapFree (Kernel.inert : Kernel Unit) .plenty () (SbInfo.fresh .small) ↔
      ¬ (Call.mkdir 2 3 0o755).LinkRecorded (Kernel.inert : Kernel Unit) .plenty () :=
  heap_free_iff plenty_allocates

def linkAppends (heap : Record) : List (Option Nat) :=
  ((Call.link 1 2 3).submission (Kernel.inert : Kernel Unit)
      (Tracing.plenty.on (SbInfo.fresh .small) heap) .small ()).map fun sub =>
    (sub.log (SbInfo.fresh .small) .all .all .all).toOption.map fun out =>
      out.1.trInfo.stream.length

theorem link_taken_for_flush :
    Tracing.plenty.Allocates ∧ linkAppends Record.zero = [some 23] ∧
      linkAppends { Record.zero with flushBufferSig := 1 } = [some 0] ∧
      ¬ (Call.link 1 2 3).HeapFree (Kernel.inert : Kernel Unit) .plenty ()
        (SbInfo.fresh .small) := by
  refine ⟨plenty_allocates, by decide +kernel, by decide +kernel, ?_⟩
  intro hfree
  have hsame := hfree.clear { Record.zero with flushBufferSig := 1 }
  revert hsame
  decide

end TraceFS.Trfs
