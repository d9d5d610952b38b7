import TraceFS.Trfs.Bounds

/-! The critical sections of logging one by one, in any order and with any outcome of their
writes, and the bounds of the buffer. -/

universe u

namespace TraceFS.Trfs

open TraceFS.Lib TraceFS.Linux TraceFS.Wrapfs

variable {P : PageSize}

inductive CritStep where
  | log (r : Record) (o : WriteOutcome)
  | flush (o : WriteOutcome)
  | writeLarge (buf : List Byte) (dataLength : BitVec 64) (flushed data : WriteOutcome)
  | ioctl (cmd : BitmapIoctl)
  | umount (o : WriteOutcome)

def CritStep.apply (sb : SbInfo P) : CritStep → Except Fault (SbInfo P)
  | .log r o => (logRecord sb r o).map Prod.fst
  | .flush o => (threadRound sb o).map Prod.fst
  | .writeLarge buf dataLength flushed data => .ok (Trfs.writeLarge sb buf dataLength flushed data)
  | .ioctl cmd => .ok (ioctlBitmap sb cmd)
  | .umount o => .ok (umountFlush sb o)

def CritStep.next (sb : SbInfo P) (a : CritStep) : Option (SbInfo P) := (a.apply sb).toOption

/-- Some call of one of the ten operations hands over `sub`, on any kernel and with any luck of
its allocations. -/
def Submission.OfCall (P : PageSize) (T : Tracing) (c : Call) (sub : Submission) : Prop :=
  ∃ (σ : Type) (K : Kernel σ) (s : σ) (e : Exit σ), c.trfs K T P s = .ok e ∧ sub ∈ e.submitted

def CritStep.OfCalls (P : PageSize) : CritStep → Prop
  | .log r _ => ∃ T c buf, (⟨r, buf⟩ : Submission).OfCall P T c
  | _ => True

theorem Submission.OfCall.sound {T : Tracing} {c : Call} {sub : Submission}
    (h : sub.OfCall P T c) : sub.Sound P T c.logType := by
  obtain ⟨σ, K, s, e, he, hsub⟩ := h
  exact c.submitted_sound he sub hsub

theorem logRecord_inBounds {sb : SbInfo P} {r : Record} (hsb : sb.trInfo.InBounds)
    (hr : ∀ i, (r.withId i).Fits P) (o : WriteOutcome) :
    logRecord sb r o = .error .badSource ∨
      ∃ sb' ret, logRecord sb r o = .ok (sb', ret) ∧ sb'.trInfo.InBounds := by
  by_cases hsig : r.flushBufferSig = 1
  · exact .inr ⟨_, _, logRecord_flush o hsig, flushBuffer_inBounds _ _⟩
  cases hbit : checkBit sb.trInfo.bitmap r.type with
  | false => exact .inr ⟨sb, -1, logRecord_untraced o hsig hbit, hsb⟩
  | true =>
    have hlog : logRecord sb r o = (syncLogRecord sb.trInfo (r.withId sb.lastId) o).map
        fun out => (⟨out.1, sb.lastId + 1⟩, 0) := by
      rw [logRecord, if_neg (by simp [hbit])]
      simp only [ne_eq, hsig, not_false_eq_true, if_true]
    rcases syncLogRecord_spec o (r := r.withId sb.lastId) hsig hsb (hr sb.lastId) with
      ⟨herr, -⟩ | ⟨t, err, hok, -, -, hin⟩
    · exact .inl (by rw [hlog, herr]; rfl)
    · exact .inr ⟨_, _, by rw [hlog, hok]; rfl, hin⟩

theorem CritStep.apply_inBounds {sb : SbInfo P} {a : CritStep} (hsb : sb.trInfo.InBounds)
    (ha : a.OfCalls P) :
    a.apply sb ≠ .error .overrun ∧ ∀ sb', a.apply sb = .ok sb' → sb'.trInfo.InBounds := by
  cases a with
  | log r o =>
    obtain ⟨T, c, buf, hcall⟩ := ha
    rcases logRecord_inBounds hsb (fun i => (hcall.sound.sized.withId i).fits) o with
      herr | ⟨sb', ret, hok, hin⟩
    · simp [CritStep.apply, herr, Except.map]
    · simpa [CritStep.apply, hok, Except.map] using hin
  | flush o =>
    rcases threadRound_eq sb o with ⟨hok, -⟩ | hok
    · simpa [CritStep.apply, hok, Except.map] using hsb
    · simpa [CritStep.apply, hok, Except.map] using flushBuffer_inBounds sb.trInfo o
  | writeLarge buf dataLength flushed data =>
    simpa [CritStep.apply] using writeLarge_inBounds sb buf dataLength flushed data
  | ioctl cmd =>
    refine ⟨nofun, ?_⟩
    rintro sb' ⟨⟩
    exact hsb
  | umount o =>
    refine ⟨nofun, ?_⟩
    rintro sb' ⟨⟩
    exact flushBuffer_inBounds sb.trInfo o

theorem CritStep.inBounds_of_run {steps : List CritStep} {sb : SbInfo P}
    (hcalls : ∀ a ∈ steps, a.OfCalls P) (h : run CritStep.next (SbInfo.fresh P) steps = some sb) :
    sb.trInfo.InBounds := by
  apply run_invariant_along (fun sb => sb.trInfo.InBounds) (fun _ a => a.OfCalls P)
    ?_ (refines_fresh P).inBounds ?_ h
  · intro s a s' hs ha hstep
    obtain ⟨sb', hok, rfl⟩ : ∃ sb', a.apply s = .ok sb' ∧ sb' = s' := by
      unfold CritStep.next at hstep
      cases hok : a.apply s with
      | error f => simp [hok, Except.toOption] at hstep
      | ok sb' => exact ⟨sb', rfl, by simpa [hok, Except.toOption] using hstep⟩
    exact (CritStep.apply_inBounds hs ha).2 sb' hok
  · exact .of_forall fun a ha _ => hcalls a ha

def Record.layoutLength (r : Record) (ty : LogType) : Nat :=
  copyLength (logRecordCommon r ++ switchCopies r ty)

theorem Record.Sized.layoutLength_eq {r : Record} (h : r.Sized P ty) :
    r.layoutLength ty = r.recordSize.toNat := by
  rw [h.recordSize_toNat, Record.layoutLength, copyLength_append, copyLength_common]
  cases ty <;> simp [copyLength, switchCopies, Record.sizeAs, sizeof] <;> omega

theorem Record.Built.logged_length {r : Record} (h : r.Built P ty buf) :
    (r.logged P buf).enc.length = r.recordSize.toNat := by
  have hread := copyBytes_length h.readable
  by_cases hl : r.Large P
  · have hd := hl.hasData h.toSized
    have hlen := Record.emittedLength_headerOnly (h.large_iff.mp hl)
    rw [Record.logged_enc_large h hl, List.length_append, Record.emitted, hread, h.buf_length hd,
      h.recordSize_toNat]
    unfold Record.emittedLength at hlen
    cases ty <;> simp_all [LogType.HasData, Record.sizeAs, sizeof]
  · have hh : ¬ r.HeaderOnly := fun hh => hl (h.large_iff.mpr hh)
    rw [Record.logged, if_neg hl, ← Record.emitted_whole hh h.type_eq, Record.emitted, hread,
      h.recordSize_toNat]
    exact Record.emittedLength_whole hh h.type_eq

theorem Record.unflushed_logged_enc (r : Record) (buf : List Byte) :
    (r.unflushed.logged P buf).enc = (r.logged P buf).enc := by
  unfold Record.logged
  by_cases hl : r.Large P
  · rw [if_pos hl, if_pos (show r.unflushed.Large P from hl)]
    rfl
  · rw [if_neg hl, if_neg (show ¬ r.unflushed.Large P from hl)]
    rfl

/-- The trace buffer never overflows: in every state that the critical sections reach, the
offset is inside the buffer and stays there over every next one, none of whose copies goes past
the end; and a record that an operation hands over has in `record_size` the exact length of its
encoding, which added to the offset does not wrap. -/
theorem buffer_never_overflows (P : PageSize) (steps : List CritStep) (sb : SbInfo P)
    (hcalls : ∀ a ∈ steps, a.OfCalls P)
    (hrun : run CritStep.next (SbInfo.fresh P) steps = some sb) :
    sb.trInfo.bufferOffset.toNat < 2 * P.bytes ∧
      (∀ a : CritStep, a.OfCalls P → a.apply sb ≠ .error .overrun ∧
        ∀ sb', a.apply sb = .ok sb' → sb'.trInfo.bufferOffset.toNat < 2 * P.bytes) ∧
      ∀ (T : Tracing) (c : Call) (sub : Submission), sub.OfCall P T c →
        sub.record.recordSize.toNat = sub.record.layoutLength c.logType ∧
        (T.pathAlloc = true →
          sub.record.recordSize.toNat = (sub.record.logged P sub.buf).enc.length) ∧
        (sb.trInfo.bufferOffset + sub.record.recordSize).toNat =
          sb.trInfo.bufferOffset.toNat + sub.record.recordSize.toNat := by
  have hin := CritStep.inBounds_of_run hcalls hrun
  refine ⟨hin, fun a ha => CritStep.apply_inBounds hin ha, ?_⟩
  intro T c sub hsub
  have hsound := hsub.sound
  refine ⟨hsound.sized.layoutLength_eq.symm, ?_, ?_⟩
  · intro hT
    rw [← Record.unflushed_logged_enc, (hsound.built fun _ => hT).logged_length]
    rfl
  · have hwrap := hsound.sized.fits.no_wrap
    unfold TraceInfo.InBounds at hin
    rw [BitVec.toNat_add, Nat.mod_eq_of_lt (by omega)]

theorem buffer_never_overflows_rootMkdir :
    ∃ sb, run CritStep.next (SbInfo.fresh .small)
        [.log (mkdirRecord (Kernel.inert : Kernel Unit) 2 0o755 0 () .root) .all,
          .flush .all] = some sb ∧
      sb.trInfo.bufferOffset.toNat < 2 * PageSize.small.bytes := by
  obtain ⟨sb, hrun⟩ : ∃ sb, run CritStep.next (SbInfo.fresh .small)
      [.log (mkdirRecord (Kernel.inert : Kernel Unit) 2 0o755 0 () .root) .all,
        .flush .all] = some sb :=
    Option.isSome_iff_exists.mp (by decide +kernel)
  refine ⟨sb, hrun, (buffer_never_overflows .small _ sb ?_ hrun).1⟩
  intro a ha
  rcases List.mem_cons.mp ha with rfl | ha
  · exact ⟨.plenty, .mkdir 2 3 0o755, [], Unit, Kernel.inert, (), _, rfl, List.mem_singleton_self _⟩
  · rw [List.mem_singleton.mp ha]
    trivial

end TraceFS.Trfs
