import TraceFS.Trfs.Order

namespace TraceFS.Trfs

open TraceFS.Lib TraceFS.Linux

variable {P : PageSize}

def Ledger.filedOps (l : Ledger) : List Nat := l.filed.filterMap Segment.recordOp?

theorem Ledger.logged_eq (l : Ledger) :
    l.logged = l.filedOps ++ l.buffered.filterMap Segment.recordOp? :=
  List.filterMap_append

theorem State.ledgerAfter_filed (s : State P) (op : Nat) (r : Record) :
    s.ledger.filed <+: (s.ledgerAfter op r).filed := by
  have hflush : s.ledger.filed <+: s.ledger.flush.filed := List.prefix_append _ _
  by_cases hsig : r.flushBufferSig = 1
  · rw [s.ledgerAfter_flush op hsig]
    exact hflush
  · rw [s.ledgerAfter_append op hsig]
    change s.ledger.filed <+: (if s.sb.trInfo.WouldFill r then s.ledger.flush else s.ledger).filed
    split
    · exact hflush
    · exact List.prefix_rfl

theorem Step.filed {s s' : State P} {l : Label P} (hs : Step s l s') :
    s.ledger.filed <+: s'.ledger.filed := by
  cases hs with
  | checkReaddir | take => simp [State.setPhase]
  | writeLarge hm hp =>
    exact ((List.prefix_append _ _).trans (List.prefix_append _ _))
  | logReaddir hm hp hlog => exact s.ledgerAfter_filed _ _
  | work hc hw hlog => exact s.ledgerAfter_filed _ _
  | tick hu hlog => exact s.ledgerAfter_filed _ _
  | finalWrite hu => exact List.prefix_append _ _
  | _ => exact List.prefix_rfl

theorem Step.active {s s' : State P} {l : Label P} (hs : Step s l s') {op : Nat}
    (hop : op ∈ s.active) : s'.phase op = .returned ∨ op ∈ s'.active := by
  cases hs with
  | @invoke op' hm hp => exact .inr (List.mem_cons_of_mem op' hop)
  | @ret op' hm hp =>
    by_cases heq : op = op'
    · subst heq
      exact .inl (Function.update_self ..)
    · exact .inr ((List.mem_erase_of_ne heq).mpr hop)
  | checkReaddir | take => simp [State.setPhase, hop]
  | _ => exact .inr hop

def State.Counted (s : State P) : Prop :=
  ∀ op, s.phase op = .idle ∨ s.phase op = .returned ∨ op ∈ s.active

theorem Step.counted {s s' : State P} {l : Label P} (hs : Step s l s') (h : s.Counted) :
    s'.Counted := by
  intro op
  rcases hs.phase op with heq | hnext
  · rw [heq]
    rcases h op with hidle | hret | hop
    · exact .inl hidle
    · exact .inr (.inl hret)
    · exact .inr (heq ▸ hs.active hop)
  · right
    cases hp : s.phase op with
    | idle =>
      rw [hp] at hnext
      cases hnext.of_idle
      cases hs
      exact .inr List.mem_cons_self
    | returned =>
      rw [hp] at hnext
      cases hnext
    | _ => exact hs.active (((h op).resolve_left (by simp [hp])).resolve_left (by simp [hp]))

theorem Step.quiet {s s' : State P} {l : Label P} (hs : Step s l s')
    (h : s.umount ≠ .mounted → s.active = []) : s'.umount ≠ .mounted → s'.active = [] := by
  cases hs with
  | invoke hm | ret hm | build hm | giveUp hm | submit hm | checkLarge hm | skipLarge hm
  | submitLarge hm | drop hm | dropLarge hm | flushed hm | writeLarge hm | logReaddir hm
  | ioctl hm =>
    exact fun hne => absurd hm hne
  | checkReaddir hm =>
    simp only [State.setPhase, State.noteBit_umount]
    exact fun hne => absurd hm hne
  | take => simpa using h
  | work => exact h
  | tick => exact h
  | umount hm ha => exact fun _ => ha
  | stop hu => exact fun _ => h (by simp [hu])
  | finalWrite hu => exact fun _ => h (by simp [hu])
  | close hu => exact fun _ => h (by simp [hu])

/-- At the last write to the trace file nothing that is to be logged is still queued or executing,
no record that is to be logged passes for a flush request or goes with a queue that cannot be
created, and the data of a large record is as long as the record said. -/
def State.Drained (s : State P) : Label P → Prop
  | .drop _ => False
  | .writeLarge op found => ∀ job hl, s.phase op = .ready job hl → found.1 = job.record.dataLength
  | .work => ∀ w ∈ s.worker, w.job.record.flushBufferSig = 1 → w.op ∈ s.unset
  | .finalWrite =>
    (∀ w ∈ s.worker, w.op ∈ s.unset) ∧
      ∀ w ∈ s.queue, checkBit s.sb.trInfo.bitmap w.job.record.type = false
  | _ => True

theorem Step.unset {s s' : State P} {l : Label P} (hs : Step s l s') {op : Nat}
    (hop : op ∈ s.unset) : op ∈ s'.unset := by
  have hnote : ∀ op' r, op ∈ (s.noteBit op' r).unset := by
    intro op' r
    unfold State.noteBit
    split
    · exact hop
    · exact List.mem_cons_of_mem op' hop
  cases hs with
  | checkReaddir => exact hnote _ _
  | take => exact hnote _ _
  | _ => exact hop

theorem Step.chain_mem {s s' : State P} {l : Label P} (hs : Step s l s') (hd : s.Drained l)
    {op : Nat} (hop : op ∈ s.chain) : op ∈ s'.chain ∨ op ∈ s'.unset := by
  cases hs with
  | invoke | build | giveUp | checkLarge | skipLarge | drop | dropLarge | flushed | ret | umount
  | stop | close | ioctl => exact .inl hop
  | submit | submitLarge =>
    left
    simp only [State.chain, Trfs.chain, List.mem_append, List.map_append] at hop ⊢
    tauto
  | checkReaddir => simpa [State.chain, State.setPhase] using .inl hop
  | finalWrite => simpa [State.chain] using .inl hop
  | writeLarge => simpa [State.chain, State.setPhase] using .inl hop
  | tick =>
    left
    simpa [State.chain, s.ledgerAfter_flush 0 (r := flushRequest) rfl] using hop
  | @logReaddir op' job hr sb hm hp hlog =>
    left
    have hsig : job.record.flushBufferSig ≠ 1 := job.clear (by rw [hr]; decide)
    simp only [State.chain, Trfs.chain, State.setPhase, s.ledgerAfter_logged op' hsig,
      List.mem_append] at hop ⊢
    tauto
  | @take w queue hc hw hq =>
    rw [State.chain, hw, hq] at hop
    by_cases hpass : (s.noteBit w.op w.job.record).Passes w.job.record
    · left
      simp only [State.chain, hpass, if_true, State.noteBit_ledger]
      exact hop
    · have hbit : checkBit s.sb.trInfo.bitmap w.job.record.type ≠ true := by
        intro hbit
        exact hpass (.inr (by rw [State.noteBit_sb, hbit]))
      have hunset : (s.noteBit w.op w.job.record).unset = w.op :: s.unset := by
        simp [State.noteBit, hbit]
      simp only [State.chain, Trfs.chain, hpass, if_false, State.noteBit_ledger, hunset,
        Option.toList_none, List.nil_append, List.map_cons, List.mem_append,
        List.mem_cons] at hop ⊢
      tauto
  | @work w sb hc hw hlog =>
    rw [State.chain, hw] at hop
    by_cases hsig : w.job.record.flushBufferSig = 1
    · have hunset := hd w hw hsig
      simp only [State.chain, Trfs.chain, s.ledgerAfter_flush w.op hsig, Ledger.flush_logged,
        Option.toList_some, List.cons_append, List.map_cons, List.mem_append, List.mem_cons] at hop ⊢
      rcases hop with hop | rfl | hop
      · exact .inl (.inl hop)
      · exact .inr hunset
      · exact .inl (.inr hop)
    · left
      simpa [State.chain, Trfs.chain, s.ledgerAfter_logged w.op hsig] using hop

def State.Held (s : State P) (op : Nat) : Prop :=
  op ∈ s.unset ∨ op ∈ s.chain ∨ ∃ job hr, s.phase op = .logging job hr

theorem Step.held {s s' : State P} {l : Label P} (hs : Step s l s') (hd : s.Drained l) {op : Nat}
    (h : s.Held op) : s'.Held op := by
  rcases h with hunset | hchain | ⟨job, hr, hp⟩
  · exact .inl (hs.unset hunset)
  · exact (hs.chain_mem hd hchain).elim (fun h => .inr (.inl h)) .inl
  · rcases hs.phase op with heq | hnext
    · exact .inr (.inr ⟨job, hr, heq.trans hp⟩)
    · rw [hp] at hnext
      cases hnext.of_logging
      cases hs with
      | @logReaddir _ job' hr' sb hm hp' hlog =>
        have hsig : job'.record.flushBufferSig ≠ 1 := job'.clear (by rw [hr']; decide)
        right
        left
        simp [State.chain, Trfs.chain, State.setPhase, s.ledgerAfter_logged op hsig]

theorem Step.submitted {s s' : State P} {l : Label P} (hs : Step s l s') (hd : s.Drained l)
    {op : Nat} (h : op ∈ s'.submitted) : op ∈ s.submitted ∨ s'.Held op := by
  cases hs with
  | submit | submitLarge =>
    rcases List.mem_cons.mp h with rfl | h
    · exact .inr (.inr (.inl (by simp [State.chain, Trfs.chain])))
    · exact .inl h
  | drop | dropLarge => exact hd.elim
  | @checkReaddir op' job hm hp hr =>
    simp only [State.noteBit_submitted] at h
    rcases List.mem_cons.mp h with rfl | h
    · right
      cases hbit : checkBit s.sb.trInfo.bitmap job.record.type with
      | true => exact .inr (.inr ⟨job, hr, by simp [State.setPhase, State.Passes, hbit]⟩)
      | false => exact .inl (by simp [State.setPhase, State.noteBit, hbit])
    · exact .inl h
  | take =>
    simp only [State.noteBit_submitted] at h
    exact .inl h
  | _ => exact .inl h

def State.DataAwaited (s : State P) (op : Nat) (r : Record) : Prop :=
  ∃ job, (s.phase op).Waits job ∧ job.record.dataLength = r.dataLength

def State.DataFiled (s : State P) (op : Nat) (r : Record) : Prop :=
  ∃ buf, .data op buf ∈ s.ledger.filed ∧ buf.length = r.dataLength.toNat

def State.DataFollows (s : State P) : Prop :=
  ∀ op r, .header op r ∈ s.ledger.log →
    s.DataAwaited op r ∨ s.DataFiled op r

theorem Step.dataFollows {s s' : State P} {l : Label P} (hs : Step s l s') (ht : s.Tracked)
    (hd : s.Drained l) (h : s.DataFollows) : s'.DataFollows := by
  have hstays : ∀ op r, s.DataAwaited op r ∨ s.DataFiled op r →
      s'.DataAwaited op r ∨ s'.DataFiled op r := by
    rintro op r (⟨job, hwaits, hlen⟩ | ⟨buf, hbuf, hlen⟩)
    · rcases hs.phase op with heq | hnext
      · exact .inl ⟨job, heq ▸ hwaits, hlen⟩
      · cases hp : s.phase op with
        | flushing job' hl =>
          rw [hp] at hnext hwaits
          refine .inl ⟨job, ?_, hlen⟩
          generalize s'.phase op = p' at hnext
          cases hnext
          exact hwaits
        | ready job' hl =>
          rw [hp] at hnext hwaits
          obtain ⟨found, rfl⟩ := hnext.of_ready
          have hjob : job' = job := hwaits
          cases hs with
          | writeLarge hm hp' =>
            refine .inr ⟨found.2.val, by simp [Ledger.write], ?_⟩
            rw [found.2.property, hd job' hl hp, hjob, hlen]
        | _ =>
          rw [hp] at hwaits
          exact hwaits.elim
    · exact .inr ⟨buf, hs.filed.subset hbuf, hlen⟩
  intro op r hmem
  rw [hs.log_eq] at hmem
  rcases List.mem_append.mp hmem with hmem | hmem
  · exact hstays op r (h op r hmem)
  · have hlarge : ∀ (op' : Nat) (job : Job P), .header op r = s.segment op' job.record →
        op = op' ∧ job.record.dataLength = r.dataLength ∧ job.record.Large P := by
      intro op' job heq
      unfold State.segment at heq
      split at heq
      · cases heq
        exact ⟨rfl, rfl, (Job.headerOnly_iff job).mp ‹_›⟩
      · cases heq
    apply hstays op r
    left
    cases hs with
    | @work w sb hc hw hlog =>
      simp only [State.emits, hw] at hmem
      split at hmem
      · cases hmem
      · obtain ⟨rfl, hlen, hl⟩ := hlarge w.op w.job (List.mem_singleton.mp hmem)
        rw [State.Tracked, hw] at ht
        exact ⟨w.job, Work.waits (ht.pending_at w List.mem_cons_self) hl, hlen⟩
    | @logReaddir op' job hr sb hm hp hlog =>
      simp only [State.emits, hp] at hmem
      obtain ⟨-, -, hl⟩ := hlarge op' job (List.mem_singleton.mp hmem)
      have hd := hl.hasData job.sized
      rw [hr] at hd
      exact hd.elim
    | writeLarge hm hp => simp [State.emits, hp] at hmem
    | _ => cases hmem

theorem Step.written {s s' : State P} {l : Label P} (hs : Step s l s')
    (hu : s'.umount = .written ∨ s'.umount = .closed) :
    (s.umount = .written ∨ s.umount = .closed) ∨ l = .finalWrite := by
  cases hs with
  | checkReaddir | take =>
    simp only [State.setPhase, State.noteBit_umount] at hu
    exact .inl hu
  | umount | stop => simp at hu
  | finalWrite => exact .inr rfl
  | close hu' => exact .inl (.inl hu')
  | _ => exact .inl hu

structure State.Settled (s : State P) : Prop where
  submitted : ∀ op ∈ s.submitted,
    op ∈ s.unset ∨ op ∈ s.ledger.filedOps ∨ ∃ w ∈ s.queue, w.op = op
  worker : ∀ w ∈ s.worker, w.op ∈ s.unset
  queue : ∀ w ∈ s.queue, checkBit s.sb.trInfo.bitmap w.job.record.type = false

theorem Ledger.filedOps_mono {l l' : Ledger} (h : l.filed <+: l'.filed) :
    l.filedOps ⊆ l'.filedOps := (h.filterMap _).subset

theorem logLocked_bitmap {sb sb' : SbInfo P} {r : Record} (hin : sb.trInfo.InBounds)
    (hr : r.flushBufferSig ≠ 1 → r.Sized P ty) (h : logLocked sb r .all = .ok sb') :
    sb'.trInfo.bitmap = sb.trInfo.bitmap := by
  by_cases hsig : r.flushBufferSig = 1
  · rw [logLocked_flush hsig h]
    rfl
  · rw [(logLocked_appends hsig hin (hr hsig) h).2.bitmap, TraceInfo.makeRoom_bitmap]

theorem Step.settled {s s' : State P} {l : Label P} (hs : Step s l s')
    (hin : s.sb.trInfo.InBounds) (hu : s.umount = .written ∨ s.umount = .closed)
    (h : s.Settled) : s'.Settled := by
  have hmounted : s.umount ≠ .mounted := by
    intro hm
    rw [hm] at hu
    exact absurd hu (by decide)
  cases hs with
  | invoke hm | ret hm | build hm | giveUp hm | submit hm | checkLarge hm | skipLarge hm
  | submitLarge hm | drop hm | dropLarge hm | flushed hm | writeLarge hm | logReaddir hm
  | ioctl hm | checkReaddir hm | umount hm => exact absurd hm hmounted
  | tick hu' =>
    rcases hu' with hu' | hu' <;> rw [hu'] at hu <;> exact absurd hu (by decide)
  | stop hu' =>
    rw [hu'] at hu
    exact absurd hu (by decide)
  | finalWrite hu' =>
    rw [hu'] at hu
    exact absurd hu (by decide)
  | close hu' => exact ⟨h.submitted, h.worker, h.queue⟩
  | @take w queue hc hw hq =>
    have hbit : checkBit s.sb.trInfo.bitmap w.job.record.type = false :=
      h.queue w (by rw [hq]; exact List.mem_cons_self)
    have hunset : (s.noteBit w.op w.job.record).unset = w.op :: s.unset := by
      simp [State.noteBit, hbit]
    constructor
    · simp only [State.noteBit_submitted, State.noteBit_ledger, hunset]
      intro op hop
      rcases h.submitted op hop with hop | hop | ⟨w', hw', rfl⟩
      · exact .inl (List.mem_cons_of_mem w.op hop)
      · exact .inr (.inl hop)
      · rw [hq] at hw'
        rcases List.mem_cons.mp hw' with rfl | hw'
        · exact .inl List.mem_cons_self
        · exact .inr (.inr ⟨w', hw', rfl⟩)
    · simp only [hunset]
      intro w' hw'
      split at hw' <;> cases hw'
      exact List.mem_cons_self
    · simp only [State.noteBit_sb]
      exact fun w' hw' => h.queue w' (by rw [hq]; exact List.mem_cons_of_mem w hw')
  | @work w sb hc hw hlog =>
    constructor
    · intro op hop
      rcases h.submitted op hop with hop | hop | hop
      · exact .inl hop
      · exact .inr (.inl (Ledger.filedOps_mono (s.ledgerAfter_filed w.op w.job.record) hop))
      · exact .inr (.inr hop)
    · simp
    · simp only [logLocked_bitmap hin (fun _ => w.job.sized) hlog]
      exact h.queue

theorem State.settled_of_drained {s : State P} (hcounted : s.Counted) (hactive : s.active = [])
    (hheld : ∀ op ∈ s.submitted, s.Held op)
    (hworker : ∀ w ∈ s.worker, w.op ∈ s.unset)
    (hqueue : ∀ w ∈ s.queue, checkBit s.sb.trInfo.bitmap w.job.record.type = false) :
    State.Settled { s with
      umount := .written
      sb := umountFlush s.sb .all
      ledger := s.ledger.flush } where
  submitted op hop := by
    rcases hheld op hop with hop | hop | ⟨job, hr, hp⟩
    · exact .inl hop
    · rcases List.mem_append.mp hop with hop | hop
      · exact .inr (.inl hop)
      · obtain ⟨w, hw, rfl⟩ := List.mem_map.mp hop
        rcases List.mem_append.mp hw with hw | hw
        · exact .inl (hworker w (Option.mem_toList.mp hw))
        · exact .inr (.inr ⟨w, hw, rfl⟩)
    · rcases hcounted op with hidle | hret | hop
      · rw [hp] at hidle
        cases hidle
      · rw [hp] at hret
        cases hret
      · rw [hactive] at hop
        cases hop
  worker := hworker
  queue := hqueue

structure State.Accounted (s : State P) : Prop where
  tracked : s.Tracked
  describes : s.ledger.Describes s.sb.trInfo
  counted : s.Counted
  quiet : s.umount ≠ .mounted → s.active = []
  held : ∀ op ∈ s.submitted, s.Held op
  dataFollows : s.DataFollows
  settled : s.umount = .written ∨ s.umount = .closed → s.Settled

theorem Step.accounted {s s' : State P} {l : Label P} (hs : Step s l s') (h : s.Accounted)
    (hd : s.Drained l) : s'.Accounted where
  tracked := hs.tracked h.tracked
  describes := hs.describes h.describes
  counted := hs.counted h.counted
  quiet := hs.quiet h.quiet
  held op hop := (hs.submitted hd hop).elim (fun hop => hs.held hd (h.held op hop)) id
  dataFollows := hs.dataFollows h.tracked hd h.dataFollows
  settled := by
    by_cases hu : s.umount = .written ∨ s.umount = .closed
    · exact fun _ => hs.settled h.describes.inBounds hu (h.settled hu)
    · intro hu'
      cases (hs.written hu').resolve_left hu
      cases hs with
      | finalWrite hstop =>
        exact State.settled_of_drained h.counted (h.quiet (by simp [hstop])) h.held hd.1 hd.2

theorem start_accounted (P : PageSize) : (State.start P).Accounted where
  tracked := start_tracked P
  describes := start_describes P
  counted _ := .inl rfl
  quiet _ := rfl
  held _ hop := nomatch hop
  dataFollows _ _ h := nomatch h
  settled hu := by simp [State.start] at hu

def State.Traced (s : State P) (op : Nat) : Prop :=
  op ∉ s.unset ∧
    ∀ w ∈ s.pending, w.op = op → checkBit s.sb.trInfo.bitmap w.job.record.type = true

def State.Filed (s : State P) (op : Nat) : Prop :=
  s.ledger.filedOps.count op = 1 ∧ ∀ r, .header op r ∈ s.ledger.filed → s.DataFiled op r

instance (s : State P) (l : Label P) : Decidable (s.Drained l) :=
  match l with
  | .drop _ => inferInstanceAs (Decidable False)
  | .writeLarge op found =>
    match hp : s.phase op with
    | .ready job hl =>
      decidable_of_iff (found.1 = job.record.dataLength) <| by
        simp only [State.Drained, hp, Phase.ready.injEq]
        exact ⟨fun h job' _ heq => heq ▸ h, fun h => h job hl rfl⟩
    | .idle | .invoked | .built _ | .checked _ _ | .flushing _ _ | .logging _ _ | .done
    | .returned => .isTrue (by simp [State.Drained, hp])
  | .work =>
    inferInstanceAs (Decidable (∀ w ∈ s.worker, w.job.record.flushBufferSig = 1 → w.op ∈ s.unset))
  | .finalWrite =>
    inferInstanceAs (Decidable ((∀ w ∈ s.worker, w.op ∈ s.unset) ∧
      ∀ w ∈ s.queue, checkBit s.sb.trInfo.bitmap w.job.record.type = false))
  | .invoke _ | .build _ _ | .submit _ | .checkLarge _ | .submitLarge _ | .flushed _
  | .checkReaddir _ | .logReaddir _ | .ret _ | .ioctl _ | .take | .tick | .umount | .stop
  | .close => inferInstanceAs (Decidable True)

end TraceFS.Trfs
