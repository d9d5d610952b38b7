import TraceFS.Lib.Run
import TraceFS.Trfs.Built

/-! Whole logging steps, and the append-only log that they refine. -/

namespace TraceFS.Trfs

open TraceFS.Lib TraceFS.Linux

variable {P : PageSize}

def Record.Large (P : PageSize) (r : Record) : Prop :=
  (r.type = LogType.read.toByte ∨ r.type = LogType.write.toByte) ∧
    P.capacity ≤ r.recordSize.toNat

instance (r : Record) : Decidable (r.Large P) := inferInstanceAs (Decidable (_ ∧ _))

/-- Logging done without interruption: the record of one operation, with the user's buffer and
the outcomes of the writes it may need; a round of the logger thread; a change of the bitmap;
the last write of `trfs_umount`. -/
inductive LogStep where
  | op (r : Record) (buf : List Byte) (room flushed data : WriteOutcome)
  | flush (o : WriteOutcome)
  | ioctl (cmd : BitmapIoctl)
  | umount (o : WriteOutcome)

/-- What an operation does once its record is built, and what it is told: the large path checks
the bit itself and drops the results of its two writes. -/
def logOp (sb : SbInfo P) (r : Record) (buf : List Byte) (room flushed data : WriteOutcome) :
    Except Fault (SbInfo P × CInt) :=
  if r.Large P then
    if checkBit sb.trInfo.bitmap r.type then
      (logRecord sb r room).map fun out => (writeLarge out.1 buf r.dataLength flushed data, 0)
    else .ok (sb, 0)
  else logRecord sb r room

def LogStep.apply (sb : SbInfo P) : LogStep → Except Fault (SbInfo P × CInt)
  | .op r buf room flushed data => logOp sb r buf room flushed data
  | .flush o => threadRound sb o
  | .ioctl cmd => .ok (ioctlBitmap sb cmd, 0)
  | .umount o => .ok (umountFlush sb o, 0)

def LogStep.next (sb : SbInfo P) (a : LogStep) : Option (SbInfo P) :=
  (a.apply sb).toOption.map Prod.fst

theorem LogStep.next_of_apply {sb sb' : SbInfo P} {a : LogStep} {ret : CInt}
    (h : a.apply sb = .ok (sb', ret)) : LogStep.next sb a = some sb' := by
  rw [LogStep.next, h]
  rfl

def LogStep.Built (P : PageSize) : LogStep → Prop
  | .op r buf _ _ _ => ∃ ty, r.Built P ty buf
  | _ => True

def LogStep.Complete : LogStep → Prop
  | .op _ _ room flushed data => room = .all ∧ flushed = .all ∧ data = .all
  | .flush o | .umount o => o = .all
  | .ioctl _ => True

/-- The record that the trace holds: the data of a large one is in the user's buffer. -/
def Record.logged (P : PageSize) (r : Record) (buf : List Byte) : Record :=
  if r.Large P then r.withData buf else r

/-- What logging is for: records are numbered and appended, nothing else happens to them. -/
structure AppendLog where
  bitmap : BitVec 64
  nextId : BitVec 32
  log : List Record

def AppendLog.fresh : AppendLog := ⟨0xFFFFFFFF, 0, []⟩

def AppendLog.step (P : PageSize) (l : AppendLog) : LogStep → AppendLog
  | .op r buf _ _ _ =>
    if checkBit l.bitmap r.type then
      { l with
        nextId := l.nextId + 1
        log := l.log ++ [(r.withId l.nextId).logged P buf] }
    else l
  | .ioctl cmd => { l with bitmap := cmd.value }
  | .flush _ | .umount _ => l

structure Refines (sb : SbInfo P) (l : AppendLog) : Prop where
  inBounds : sb.trInfo.InBounds
  bitmap : sb.trInfo.bitmap = l.bitmap
  nextId : sb.lastId = l.nextId
  stream : sb.trInfo.stream = l.log.flatMap Record.enc

theorem refines_fresh (P : PageSize) : Refines (SbInfo.fresh P) .fresh where
  inBounds := by
    have := P.capacity_ge
    change 0 < P.capacity
    omega
  bitmap := rfl
  nextId := rfl
  stream := rfl

theorem TraceInfo.makeRoom_stream_all (t : TraceInfo P) (r : Record) :
    (t.makeRoom r .all).1.stream = t.stream := by
  unfold TraceInfo.makeRoom
  split
  · exact flushBuffer_stream_all t
  · rfl

theorem logRecord_untraced {sb : SbInfo P} {r : Record} (o : WriteOutcome)
    (hsig : r.flushBufferSig ≠ 1) (hbit : checkBit sb.trInfo.bitmap r.type = false) :
    logRecord sb r o = .ok (sb, -1) := by
  rw [logRecord, if_pos ⟨hsig, hbit⟩]

theorem logRecord_flush {sb : SbInfo P} {r : Record} (o : WriteOutcome)
    (hsig : r.flushBufferSig = 1) :
    logRecord sb r o = .ok ({ sb with trInfo := (flushBuffer sb.trInfo o).1 }, 0) := by
  simp only [logRecord, hsig, ne_eq, not_true_eq_false, false_and, if_false,
    syncLogRecord_flush _ _ _ hsig]
  rfl

theorem logRecord_traced {sb : SbInfo P} {r : Record} (o : WriteOutcome)
    (hsig : r.flushBufferSig ≠ 1) (hbit : checkBit sb.trInfo.bitmap r.type = true)
    (hsb : sb.trInfo.InBounds) (hfits : (r.withId sb.lastId).Fits P)
    (hread : ∀ c ∈ (syncCopies (r.withId sb.lastId) 0).1, c.Readable) :
    ∃ t, logRecord sb r o = .ok (⟨t, sb.lastId + 1⟩, 0) ∧ t.InBounds ∧
      (sb.trInfo.makeRoom r o).1.Appends t (r.withId sb.lastId).emitted := by
  have hlog : logRecord sb r o = (syncLogRecord sb.trInfo (r.withId sb.lastId) o).map
      fun out => (⟨out.1, sb.lastId + 1⟩, 0) := by
    rw [logRecord, if_neg (by simp [hbit])]
    simp only [if_pos hsig]
  rcases syncLogRecord_spec o (r := r.withId sb.lastId) hsig hsb hfits with
    ⟨-, c, hc, hbad⟩ | ⟨t, err, hok, -, happ, hin⟩
  · exact absurd (hread c hc) hbad
  · exact ⟨t, by rw [hlog, hok]; rfl, hin, happ⟩

theorem logRecord_built {sb : SbInfo P} {r : Record} (hb : r.Built P ty buf) (o : WriteOutcome)
    (hsb : sb.trInfo.InBounds) (hbit : checkBit sb.trInfo.bitmap r.type = true) :
    ∃ t, logRecord sb r o = .ok (⟨t, sb.lastId + 1⟩, 0) ∧ t.InBounds ∧
      (sb.trInfo.makeRoom r o).1.Appends t (r.withId sb.lastId).emitted :=
  logRecord_traced o hb.clear hbit hsb (hb.withId sb.lastId).fits (hb.withId sb.lastId).readable

theorem Record.Sized.large_iff {r : Record} (h : r.Sized P ty) : r.Large P ↔ r.HeaderOnly := by
  rw [Record.headerOnly_iff h.type_eq, Record.Large, h.type_eq]
  constructor
  · rintro ⟨hty, hcap⟩
    have hd : ty.HasData := by cases ty <;> simp_all [LogType.HasData, LogType.toByte]
    exact ⟨hd, (h.large hd).mpr hcap⟩
  · rintro ⟨hd, hl⟩
    refine ⟨?_, (h.large hd).mp hl⟩
    cases ty <;> simp_all [LogType.HasData]

theorem Record.Large.hasData {r : Record} (hl : r.Large P) (h : r.Sized P ty) : ty.HasData :=
  ((Record.headerOnly_iff h.type_eq).mp (h.large_iff.mp hl)).1

theorem Record.logged_enc_large {r : Record} (hb : r.Built P ty buf) (hl : r.Large P) :
    (r.logged P buf).enc = r.emitted ++ buf := by
  have hd := hl.hasData hb.toSized
  rw [Record.logged, if_pos hl, Record.withData_enc hb.type_eq hd (hb.buf_length hd),
    Record.emitted_header (hb.large_iff.mp hl)]

theorem Record.Large.wouldFill {r : Record} {t : TraceInfo P} (hl : r.Large P)
    (h : r.Sized P ty) (ht : t.InBounds) : t.WouldFill r := by
  have hwrap := h.fits.no_wrap
  have hcap := hl.2
  unfold TraceInfo.InBounds at ht
  rw [TraceInfo.WouldFill, BitVec.toNat_add, Nat.mod_eq_of_lt (by omega)]
  omega

theorem writeLarge_trInfo_pending (sb : SbInfo P) (buf : List Byte) (n : BitVec 64)
    (o o' : WriteOutcome) : (writeLarge sb buf n o o').trInfo.pending = [] := rfl

theorem writeLarge_inBounds (sb : SbInfo P) (buf : List Byte) (n : BitVec 64)
    (o o' : WriteOutcome) : (writeLarge sb buf n o o').trInfo.InBounds :=
  flushBuffer_inBounds sb.trInfo o

theorem writeLarge_stream (sb : SbInfo P) {buf : List Byte} {n : BitVec 64}
    (hlen : buf.length = n.toNat) (o o' : WriteOutcome) :
    (writeLarge sb buf n o o').trInfo.stream =
      sb.trInfo.filp ++ sb.trInfo.pending.take (o.taken sb.trInfo.pending.length) ++
        buf.take (o'.taken buf.length) := by
  rw [TraceInfo.stream, writeLarge_trInfo_pending, List.append_nil, writeLarge, vfsWrite_filp,
    flushBuffer_filp, ← hlen, List.take_length]

theorem logOp_small {sb : SbInfo P} {r : Record} (hb : r.Built P ty buf) (hs : ¬ r.Large P)
    (hsb : sb.trInfo.InBounds) (hbit : checkBit sb.trInfo.bitmap r.type = true)
    (room flushed data : WriteOutcome) :
    ∃ t, logOp sb r buf room flushed data = .ok (⟨t, sb.lastId + 1⟩, 0) ∧ t.InBounds ∧
      t.bitmap = sb.trInfo.bitmap ∧
      t.stream = (sb.trInfo.makeRoom r room).1.stream ++ (r.withId sb.lastId).enc := by
  obtain ⟨t, hok, hin, happ⟩ := logRecord_built hb room hsb hbit
  have hwhole : ¬ (r.withId sb.lastId).HeaderOnly := fun hh => hs (hb.large_iff.mpr hh)
  refine ⟨t, by rw [logOp, if_neg hs, hok], hin, ?_, ?_⟩
  · rw [happ.bitmap, TraceInfo.makeRoom_bitmap]
  · rw [happ.stream, Record.emitted_whole hwhole (hb.withId sb.lastId).type_eq]

theorem logOp_large {sb : SbInfo P} {r : Record} (hb : r.Built P ty buf) (hl : r.Large P)
    (hsb : sb.trInfo.InBounds) (hbit : checkBit sb.trInfo.bitmap r.type = true)
    (room flushed data : WriteOutcome) :
    ∃ t, logOp sb r buf room flushed data = .ok (⟨t, sb.lastId + 1⟩, 0) ∧ t.InBounds ∧
      t.bitmap = sb.trInfo.bitmap ∧
      t.stream = sb.trInfo.filp ++
        sb.trInfo.pending.take (room.taken sb.trInfo.pending.length) ++
        (r.withId sb.lastId).emitted.take (flushed.taken (r.withId sb.lastId).emitted.length) ++
        buf.take (data.taken buf.length) := by
  obtain ⟨t, hok, hin, happ⟩ := logRecord_built hb room hsb hbit
  have hfill : (sb.trInfo.makeRoom r room).1 = (flushBuffer sb.trInfo room).1 := by
    rw [TraceInfo.makeRoom, if_pos (hl.wouldFill hb.toSized hsb)]
  rw [hfill] at happ
  have hpending : t.pending = (r.withId sb.lastId).emitted := by
    rw [happ.pending, flushBuffer_pending, List.nil_append]
  have hlen : buf.length = r.dataLength.toNat := hb.buf_length (hl.hasData hb.toSized)
  let sb' : SbInfo P := writeLarge ⟨t, sb.lastId + 1⟩ buf r.dataLength flushed data
  refine ⟨sb'.trInfo, ?_, writeLarge_inBounds _ _ _ _ _, ?_, ?_⟩
  · rw [logOp, if_pos hl, if_pos hbit, hok]
    rfl
  · change t.bitmap = _
    rw [happ.bitmap, flushBuffer_bitmap]
  · rw [writeLarge_stream _ hlen, hpending, happ.filp, flushBuffer_filp]

theorem logOp_untraced {sb : SbInfo P} {r : Record} (hb : r.Built P ty buf)
    (hbit : checkBit sb.trInfo.bitmap r.type = false) (room flushed data : WriteOutcome) :
    ∃ ret, logOp sb r buf room flushed data = .ok (sb, ret) := by
  by_cases hl : r.Large P
  · exact ⟨0, by rw [logOp, if_pos hl, if_neg (by simp [hbit])]⟩
  · exact ⟨-1, by rw [logOp, if_neg hl, logRecord_untraced room hb.clear hbit]⟩

theorem threadRound_eq (sb : SbInfo P) (o : WriteOutcome) :
    threadRound sb o = .ok (sb, 0) ∧ sb.trInfo.pending = [] ∨
      threadRound sb o = .ok ({ sb with trInfo := (flushBuffer sb.trInfo o).1 }, 0) := by
  by_cases hpos : 0 < sb.trInfo.bufferOffset.toNat
  · exact .inr (by rw [threadRound, if_pos hpos, logRecord_flush o rfl])
  · refine .inl ⟨by rw [threadRound, if_neg hpos], ?_⟩
    rw [TraceInfo.pending, Nat.eq_zero_of_not_pos hpos, List.take_zero]

theorem AppendLog.step_refines {sb : SbInfo P} {l : AppendLog} {a : LogStep}
    (h : Refines sb l) (hb : a.Built P) (hc : a.Complete) :
    ∃ sb', LogStep.next sb a = some sb' ∧ Refines sb' (l.step P a) := by
  cases a with
  | op r buf room flushed data =>
    obtain ⟨ty, hb⟩ := hb
    obtain ⟨rfl, rfl, rfl⟩ := hc
    cases hbit : checkBit sb.trInfo.bitmap r.type with
    | false =>
      obtain ⟨ret, hok⟩ := logOp_untraced hb hbit .all .all .all
      refine ⟨sb, LogStep.next_of_apply hok, ?_⟩
      rw [AppendLog.step, ← h.bitmap, if_neg (by simp [hbit])]
      exact h
    | true =>
      rw [AppendLog.step, ← h.bitmap, if_pos hbit, ← h.nextId]
      by_cases hl : r.Large P
      · obtain ⟨t, hok, hin, hbitmap, hstream⟩ := logOp_large hb hl h.inBounds hbit .all .all .all
        refine ⟨_, LogStep.next_of_apply hok, hin, hbitmap.trans rfl, rfl, ?_⟩
        simp only [WriteOutcome.taken_all, List.take_length] at hstream
        rw [hstream, List.flatMap_append, ← h.stream, List.flatMap_singleton,
          Record.logged_enc_large (hb.withId sb.lastId) (show (r.withId sb.lastId).Large P from hl),
          TraceInfo.stream, List.append_assoc _ _ buf]
      · obtain ⟨t, hok, hin, hbitmap, hstream⟩ := logOp_small hb hl h.inBounds hbit .all .all .all
        refine ⟨_, LogStep.next_of_apply hok, hin, hbitmap.trans rfl, rfl, ?_⟩
        rw [hstream, TraceInfo.makeRoom_stream_all, h.stream, List.flatMap_append,
          List.flatMap_singleton, Record.logged,
          if_neg (show ¬ (r.withId sb.lastId).Large P from hl)]
  | flush o =>
    cases show o = .all from hc
    rcases threadRound_eq sb .all with ⟨hok, -⟩ | hok
    · exact ⟨sb, LogStep.next_of_apply hok, h⟩
    · exact ⟨_, LogStep.next_of_apply hok, flushBuffer_inBounds _ _, h.bitmap, h.nextId,
        (flushBuffer_stream_all _).trans h.stream⟩
  | ioctl cmd =>
    exact ⟨ioctlBitmap sb cmd, rfl, h.inBounds, rfl, h.nextId, h.stream⟩
  | umount o =>
    cases show o = .all from hc
    exact ⟨umountFlush sb .all, rfl, flushBuffer_inBounds _ _, h.bitmap, h.nextId,
      (flushBuffer_stream_all _).trans h.stream⟩

/-- The trace buffer is an append-only log: after any run in which every write is complete, the
trace file and the buffer together are the encodings of the records whose bit was set, in the
order they were logged, and a last write by `trfs_umount` leaves all of them in the file. -/
theorem stream_eq_append_log (P : PageSize) (steps : List LogStep)
    (hbuilt : ∀ a ∈ steps, a.Built P) (hcomplete : ∀ a ∈ steps, a.Complete) :
    ∃ sb, run LogStep.next (SbInfo.fresh P) steps = some sb ∧
      sb.trInfo.stream = (steps.foldl (AppendLog.step P) .fresh).log.flatMap Record.enc ∧
      (umountFlush sb .all).trInfo.filp =
        (steps.foldl (AppendLog.step P) .fresh).log.flatMap Record.enc := by
  obtain ⟨sb, hrun, href⟩ : ∃ sb, run LogStep.next (SbInfo.fresh P) steps = some sb ∧
      Refines sb (steps.foldl (AppendLog.step P) .fresh) :=
    run_simulates Refines (AppendLog.step P) (fun a => a.Built P ∧ a.Complete)
      (fun sb l a h hG => AppendLog.step_refines h hG.1 hG.2) (refines_fresh P)
      fun a ha => ⟨hbuilt a ha, hcomplete a ha⟩
  refine ⟨sb, hrun, href.stream, ?_⟩
  rw [← href.stream, ← flushBuffer_stream_all]
  simp [TraceInfo.stream, umountFlush]

def plainCloseRecord : Record := { Record.zero with type := 4, recordSize := 17 }

theorem plainCloseRecord_built (P : PageSize) : plainCloseRecord.Built P .close [] where
  type_eq := rfl
  size_eq := rfl
  path_lt := False.elim
  newPath_lt := False.elim
  data_lt := False.elim
  large := False.elim
  clear := by decide
  path_at := False.elim
  newPath_at := False.elim
  buf_length := False.elim
  data_eq := False.elim

def shortReadRecord : Record :=
  { Record.zero with
    type := 2
    returnValue := 3
    dataLength := 3
    data := some [1, 2, 3]
    recordSize := 28 }

theorem shortReadRecord_built : shortReadRecord.Built .small .read [1, 2, 3] where
  type_eq := rfl
  size_eq := rfl
  path_lt := False.elim
  newPath_lt := False.elim
  data_lt _ := by decide
  large _ := by decide
  clear := by decide
  path_at := False.elim
  newPath_at := False.elim
  buf_length _ := rfl
  data_eq _ _ := rfl

def sampleSteps : List LogStep :=
  [.op shortReadRecord [1, 2, 3] .all .all .all, .flush .all, .ioctl (.setOpt 0),
    .op plainCloseRecord [] .all .all .all, .umount .all]

theorem stream_eq_append_log_sampleSteps :
    ∃ sb, run LogStep.next (SbInfo.fresh .small) sampleSteps = some sb ∧
      sb.trInfo.stream =
        (sampleSteps.foldl (AppendLog.step .small) .fresh).log.flatMap Record.enc ∧
      (umountFlush sb .all).trInfo.filp =
        (sampleSteps.foldl (AppendLog.step .small) .fresh).log.flatMap Record.enc := by
  apply stream_eq_append_log .small sampleSteps
  · have hread : ∃ ty, shortReadRecord.Built .small ty [1, 2, 3] := ⟨.read, shortReadRecord_built⟩
    have hclose : ∃ ty, plainCloseRecord.Built .small ty [] :=
      ⟨.close, plainCloseRecord_built .small⟩
    simpa [sampleSteps, LogStep.Built] using ⟨hread, hclose⟩
  · simp [sampleSteps, LogStep.Complete]

end TraceFS.Trfs
