import TraceFS.Trfs.Stream

namespace TraceFS.Trfs

open TraceFS.Lib TraceFS.Linux

variable {P : PageSize}

def WriteOutcome.Accepts (o : WriteOutcome) (size : Nat) : Prop := o.taken size = size

theorem WriteOutcome.take_taken_eq_iff (o : WriteOutcome) (bs : List Byte) :
    bs.take (o.taken bs.length) = bs ↔ o.Accepts bs.length := by
  have hle := o.taken_le bs.length
  constructor
  · intro h
    have hlen := congrArg List.length h
    rwa [List.length_take, Nat.min_eq_left hle] at hlen
  · intro h
    rw [h, List.take_length]

structure Record.Rejected (P : PageSize) (r : Record) : Prop where
  unknown : LogType.ofByte r.type = none
  clear : r.flushBufferSig ≠ 1
  fits : r.Fits P

theorem Record.type_ne_of_unknown {r : Record} (h : LogType.ofByte r.type = none) (ty : LogType) :
    r.type ≠ ty.toByte := by
  intro hty
  rw [hty, LogType.ofByte_toByte] at h
  cases h

theorem Record.emittedLength_unknown {r : Record} (h : LogType.ofByte r.type = none) :
    (syncCopies r 0).1 = logRecordCommon r ∧ r.emittedLength = 17 := by
  have hh : ¬ r.HeaderOnly := fun hh =>
    hh.1.elim (r.type_ne_of_unknown h .read) (r.type_ne_of_unknown h .write)
  have hcopies : (syncCopies r 0).1 = logRecordCommon r := by rw [syncCopies, if_neg hh, h]
  exact ⟨hcopies, by rw [Record.emittedLength, hcopies, copyLength_common]⟩

namespace Record.Rejected

variable {r : Record}

theorem not_large (h : r.Rejected P) : ¬ r.Large P := fun hl =>
  hl.1.elim (r.type_ne_of_unknown h.unknown .read) (r.type_ne_of_unknown h.unknown .write)

theorem withId (h : r.Rejected P) (i : BitVec 32) : (r.withId i).Rejected P where
  unknown := h.unknown
  clear := h.clear
  fits := by
    have hlen : (r.withId i).emittedLength = r.emittedLength :=
      (Record.emittedLength_unknown (r := r.withId i) h.unknown).2.trans
        (Record.emittedLength_unknown h.unknown).2.symm
    exact ⟨hlen ▸ h.fits.length_le, hlen ▸ h.fits.length_lt, h.fits.no_wrap⟩

theorem readable (h : r.Rejected P) : ∀ c ∈ (syncCopies r 0).1, c.Readable := by
  rw [(Record.emittedLength_unknown h.unknown).1]
  simp [logRecordCommon, Copy.word_readable]

end Record.Rejected

def LogStep.WellFormed (P : PageSize) : LogStep → Prop
  | .op r buf _ _ _ => (∃ ty, r.Built P ty buf) ∨ r.Rejected P
  | _ => True

def LogStep.enc? (sb : SbInfo P) : LogStep → Option (List Byte)
  | .op r buf _ _ _ => ((r.withId sb.lastId).logged P buf).enc?
  | _ => some []

def LogStep.Untraced (sb : SbInfo P) : LogStep → Prop
  | .op r _ _ _ _ => checkBit sb.trInfo.bitmap r.type = false
  | _ => False

/-- Either the whole encoding is appended, or nothing changes and the caller is told. -/
def LogStep.AllOrNothing (sb : SbInfo P) (a : LogStep) (sb' : SbInfo P) (ret : CInt) : Prop :=
  (∃ e, a.enc? sb = some e ∧ sb'.trInfo.stream = sb.trInfo.stream ++ e) ∨
    (sb'.trInfo.stream = sb.trInfo.stream ∧ (ret.toInt < 0 ∨ a.Untraced sb))

def LogStep.Kept (sb : SbInfo P) : LogStep → Prop
  | .op r buf room flushed data =>
    checkBit sb.trInfo.bitmap r.type = false ∨
      (LogType.ofByte r.type).isSome ∧
        (sb.trInfo.WouldFill r → room.Accepts sb.trInfo.pending.length) ∧
        (r.Large P → flushed.Accepts 25 ∧ data.Accepts buf.length)
  | .flush o | .umount o => o.Accepts sb.trInfo.pending.length
  | .ioctl _ => True

theorem LogStep.allOrNothing_told {sb sb' : SbInfo P} {a : LogStep} (htraced : ¬ a.Untraced sb)
    (e : List Byte) (he : a.enc? sb = some e) :
    a.AllOrNothing sb sb' 0 ↔ sb'.trInfo.stream = sb.trInfo.stream ++ e := by
  simp [LogStep.AllOrNothing, htraced, he]

theorem flushBuffer_stream_eq_iff (t : TraceInfo P) (o : WriteOutcome) :
    (flushBuffer t o).1.stream = t.stream ↔ o.Accepts t.pending.length := by
  rw [flushBuffer_stream, TraceInfo.stream, List.append_cancel_left_eq,
    WriteOutcome.take_taken_eq_iff]

theorem makeRoom_stream_eq_iff (t : TraceInfo P) (r : Record) (o : WriteOutcome) :
    (t.makeRoom r o).1.stream = t.stream ↔ (t.WouldFill r → o.Accepts t.pending.length) := by
  by_cases hfill : t.WouldFill r
  · simp only [TraceInfo.makeRoom, hfill, if_true, true_implies]
    exact flushBuffer_stream_eq_iff t o
  · simp [TraceInfo.makeRoom, hfill]

theorem three_writes_eq_iff (xs ys zs : List Byte) (o₁ o₂ o₃ : WriteOutcome) :
    xs.take (o₁.taken xs.length) ++ (ys.take (o₂.taken ys.length) ++ zs.take (o₃.taken zs.length)) =
        xs ++ (ys ++ zs) ↔
      o₁.Accepts xs.length ∧ o₂.Accepts ys.length ∧ o₃.Accepts zs.length := by
  constructor
  · intro h
    have hlen := congrArg List.length h
    have h₁ := o₁.taken_le xs.length
    have h₂ := o₂.taken_le ys.length
    have h₃ := o₃.taken_le zs.length
    simp only [List.length_append, List.length_take] at hlen
    refine ⟨?_, ?_, ?_⟩ <;> unfold WriteOutcome.Accepts <;> omega
  · rintro ⟨h₁, h₂, h₃⟩
    rw [(o₁.take_taken_eq_iff xs).mpr h₁, (o₂.take_taken_eq_iff ys).mpr h₂,
      (o₃.take_taken_eq_iff zs).mpr h₃]

theorem Record.emitted_length_large {r : Record} (hb : r.Built P ty buf) (hl : r.Large P) :
    r.emitted.length = 25 := by
  rw [Record.emitted, copyBytes_length hb.readable]
  exact Record.emittedLength_headerOnly (hb.large_iff.mp hl)

theorem Record.logged_enc? {r : Record} (hb : r.Built P ty buf) :
    (r.logged P buf).enc? = some (r.logged P buf).enc := by
  have hty : (r.logged P buf).type = ty.toByte := by
    unfold Record.logged
    split <;> exact hb.type_eq
  exact Record.enc?_eq hty

theorem LogStep.apply_spec {sb : SbInfo P} {a : LogStep} (hsb : sb.trInfo.InBounds)
    (ha : a.WellFormed P) :
    ∃ sb' ret, a.apply sb = .ok (sb', ret) ∧ sb'.trInfo.InBounds ∧
      (a.AllOrNothing sb sb' ret ↔ a.Kept sb) := by
  cases a with
  | op r buf room flushed data =>
    cases hbit : checkBit sb.trInfo.bitmap r.type with
    | false =>
      have hskip : ∃ ret, logOp sb r buf room flushed data = .ok (sb, ret) := by
        rcases ha with ⟨ty, hb⟩ | hrej
        · exact logOp_untraced hb hbit room flushed data
        · exact ⟨-1, by rw [logOp, if_neg hrej.not_large, logRecord_untraced room hrej.clear hbit]⟩
      obtain ⟨ret, hok⟩ := hskip
      exact ⟨sb, ret, hok, hsb, iff_of_true (.inr ⟨rfl, .inr hbit⟩) (.inl hbit)⟩
    | true =>
      have htraced : ¬ (LogStep.op r buf room flushed data).Untraced sb := by
        simp [LogStep.Untraced, hbit]
      rcases ha with ⟨ty, hb⟩ | hrej
      · have henc := Record.logged_enc? (hb.withId sb.lastId)
        have hsome : (LogType.ofByte r.type).isSome := by rw [hb.type_eq]; simp
        by_cases hl : r.Large P
        · obtain ⟨t, hok, hin, -, hstream⟩ := logOp_large hb hl hsb hbit room flushed data
          refine ⟨_, 0, hok, hin, ?_⟩
          rw [LogStep.allOrNothing_told htraced _ henc]
          have hfill := hl.wouldFill hb.toSized hsb
          rw [hstream, Record.logged_enc_large (hb.withId sb.lastId) hl, TraceInfo.stream,
            List.append_assoc, List.append_assoc, List.append_assoc, List.append_cancel_left_eq,
            three_writes_eq_iff, Record.emitted_length_large (hb.withId sb.lastId) hl]
          simp [LogStep.Kept, hbit, hsome, hfill, hl]
        · obtain ⟨t, hok, hin, -, hstream⟩ := logOp_small hb hl hsb hbit room flushed data
          refine ⟨_, 0, hok, hin, ?_⟩
          rw [LogStep.allOrNothing_told htraced _ henc]
          have hwhole : (r.withId sb.lastId).logged P buf = r.withId sb.lastId := if_neg hl
          rw [hstream, hwhole, List.append_cancel_right_eq, makeRoom_stream_eq_iff]
          simp [LogStep.Kept, hbit, hsome, hl]
      · obtain ⟨t, hok, hin, -⟩ := logRecord_traced room hrej.clear hbit hsb (hrej.withId _).fits
          (hrej.withId _).readable
        refine ⟨_, 0, by rw [LogStep.apply, logOp, if_neg hrej.not_large, hok], hin, ?_⟩
        have hnone : (LogStep.op r buf room flushed data).enc? sb = none := by
          have : ((r.withId sb.lastId).logged P buf) = r.withId sb.lastId := if_neg hrej.not_large
          rw [LogStep.enc?, this, Record.enc?]
          exact congrArg (Option.map _) hrej.unknown
        refine iff_of_false ?_ ?_
        · simp [LogStep.AllOrNothing, hnone, htraced]
        · simp [LogStep.Kept, hbit, hrej.unknown]
  | flush o =>
    rcases threadRound_eq sb o with ⟨hok, hempty⟩ | hok
    · refine ⟨sb, 0, hok, hsb, iff_of_true (.inl ⟨[], rfl, (List.append_nil _).symm⟩) ?_⟩
      have := o.taken_le 0
      simp only [LogStep.Kept, WriteOutcome.Accepts, hempty, List.length_nil]
      omega
    · refine ⟨_, 0, hok, flushBuffer_inBounds _ _, ?_⟩
      rw [LogStep.allOrNothing_told (by simp [LogStep.Untraced]) [] rfl, List.append_nil]
      exact flushBuffer_stream_eq_iff sb.trInfo o
  | ioctl cmd =>
    exact ⟨_, 0, rfl, hsb, iff_of_true (.inl ⟨[], rfl, (List.append_nil _).symm⟩) trivial⟩
  | umount o =>
    refine ⟨_, 0, rfl, flushBuffer_inBounds _ _, ?_⟩
    rw [LogStep.allOrNothing_told (by simp [LogStep.Untraced]) [] rfl, List.append_nil]
    exact flushBuffer_stream_eq_iff sb.trInfo o

theorem LogStep.next_inBounds {sb sb' : SbInfo P} {a : LogStep} (hsb : sb.trInfo.InBounds)
    (ha : a.WellFormed P) (h : LogStep.next sb a = some sb') : sb'.trInfo.InBounds := by
  obtain ⟨sb₁, ret, hok, hin, -⟩ := LogStep.apply_spec hsb ha
  rw [LogStep.next_of_apply hok] at h
  exact Option.some.inj h ▸ hin

theorem inBounds_of_run {steps : List LogStep} {sb : SbInfo P}
    (hwf : ∀ a ∈ steps, a.WellFormed P) (h : run LogStep.next (SbInfo.fresh P) steps = some sb) :
    sb.trInfo.InBounds := by
  apply run_invariant_along (fun sb => sb.trInfo.InBounds) (fun _ a => a.WellFormed P)
    (fun s a s' hs ha hstep => LogStep.next_inBounds hs ha hstep) (refines_fresh P).inBounds ?_ h
  exact .of_forall fun a ha _ => hwf a ha

theorem allOrNothing_iff (P : PageSize) (steps : List LogStep) (sb : SbInfo P)
    (hwf : ∀ a ∈ steps, a.WellFormed P)
    (hrun : run LogStep.next (SbInfo.fresh P) steps = some sb)
    (a : LogStep) (ha : a.WellFormed P) :
    ∃ sb' ret, a.apply sb = .ok (sb', ret) ∧ (a.AllOrNothing sb sb' ret ↔ a.Kept sb) := by
  obtain ⟨sb', ret, hok, -, hiff⟩ := LogStep.apply_spec (inBounds_of_run hwf hrun) ha
  exact ⟨sb', ret, hok, hiff⟩

theorem allOrNothing_iff_plainClose :
    ∃ sb sb' ret, run LogStep.next (SbInfo.fresh .small)
        [.op plainCloseRecord [] .all .all .all] = some sb ∧
      (LogStep.flush (.short 3)).apply sb = .ok (sb', ret) ∧
        ((LogStep.flush (.short 3)).AllOrNothing sb sb' ret ↔
          (LogStep.flush (.short 3)).Kept sb) := by
  have hwf : ∀ a ∈ [LogStep.op plainCloseRecord [] .all .all .all], a.WellFormed .small := by
    intro a ha
    rw [List.mem_singleton.mp ha]
    exact .inl ⟨.close, plainCloseRecord_built .small⟩
  obtain ⟨sb, hrun⟩ : ∃ sb, run LogStep.next (SbInfo.fresh .small)
      [.op plainCloseRecord [] .all .all .all] = some sb :=
    Option.isSome_iff_exists.mp (by decide +kernel)
  obtain ⟨sb', ret, hok, hiff⟩ := allOrNothing_iff .small _ sb hwf hrun (.flush (.short 3)) trivial
  exact ⟨sb, sb', ret, hrun, hok, hiff⟩

theorem failed_flush_loses_close :
    ∃ sb sb' ret, run LogStep.next (SbInfo.fresh .small)
        [.op plainCloseRecord [] .all .all .all] = some sb ∧
      (LogStep.flush (.error 5)).apply sb = .ok (sb', ret) ∧
        ¬ (LogStep.flush (.error 5)).AllOrNothing sb sb' ret := by
  have hrun : ((run LogStep.next (SbInfo.fresh .small)
      [.op plainCloseRecord [] .all .all .all]).map fun sb => sb.trInfo.pending.length) =
        some 17 := by decide +kernel
  obtain ⟨sb, hsb, hpending⟩ := Option.map_eq_some_iff.mp hrun
  rcases threadRound_eq sb (.error 5) with ⟨-, hempty⟩ | hok
  · rw [hempty] at hpending
    cases hpending
  · refine ⟨sb, _, 0, hsb, hok, ?_⟩
    rw [LogStep.allOrNothing_told (by simp [LogStep.Untraced]) [] rfl, List.append_nil,
      flushBuffer_stream_eq_iff, hpending]
    exact nofun

end TraceFS.Trfs
