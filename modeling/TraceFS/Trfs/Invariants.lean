import TraceFS.Trfs.Steps

namespace TraceFS.Trfs

open TraceFS.Lib TraceFS.Linux

variable {P : PageSize}

namespace Ledger

@[simp] theorem flush_log (l : Ledger) : l.flush.log = l.log := by
  simp [flush, log]

@[simp] theorem append_log (l : Ledger) (g : Segment) : (l.append g).log = l.log ++ [g] := by
  simp [append, log]

@[simp] theorem write_log (l : Ledger) (g : Segment) : (l.write g).log = l.log ++ [g] := by
  simp [write, log]

@[simp] theorem flush_logged (l : Ledger) : l.flush.logged = l.logged := by
  rw [logged, flush_log, logged]

@[simp] theorem write_data_logged (l : Ledger) (op : Nat) (buf : List Byte) :
    (l.write (.data op buf)).logged = l.logged := by
  rw [logged, write_log, List.filterMap_append]
  exact List.append_nil _

structure Describes (l : Ledger) (t : TraceInfo P) : Prop where
  inBounds : t.InBounds
  filed : t.filp = l.filed.flatMap Segment.bytes
  buffered : t.pending = l.buffered.flatMap Segment.bytes

namespace Describes

variable {l : Ledger} {t t' : TraceInfo P}

theorem stream (h : l.Describes t) : t.stream = l.log.flatMap Segment.bytes := by
  rw [TraceInfo.stream, h.filed, h.buffered, log, List.flatMap_append]

theorem flush (h : l.Describes t) : l.flush.Describes (flushBuffer t .all).1 where
  inBounds := flushBuffer_inBounds t .all
  filed := by
    rw [flushBuffer_filp, WriteOutcome.taken_all, List.take_length]
    exact h.stream
  buffered := flushBuffer_pending t .all

theorem append (h : l.Describes t) {g : Segment} (happ : t.Appends t' g.bytes)
    (hin : t'.InBounds) : (l.append g).Describes t' where
  inBounds := hin
  filed := happ.filp.trans h.filed
  buffered := by
    rw [happ.pending, h.buffered, Ledger.append, List.flatMap_append, List.flatMap_singleton]

theorem makeRoom (h : l.Describes t) (r : Record) :
    (if t.WouldFill r then l.flush else l).Describes (t.makeRoom r .all).1 := by
  unfold TraceInfo.makeRoom
  split
  · exact h.flush
  · exact h

theorem writeLarge {sb : SbInfo P} (h : l.Describes sb.trInfo) (op : Nat) {buf : List Byte}
    {n : BitVec 64} (hlen : buf.length = n.toNat) :
    (l.write (.data op buf)).Describes (writeLarge sb buf n .all .all).trInfo where
  inBounds := writeLarge_inBounds sb buf n .all .all
  filed := by
    have hstream := writeLarge_stream sb hlen .all .all
    rw [TraceInfo.stream, writeLarge_trInfo_pending, List.append_nil] at hstream
    simp only [WriteOutcome.taken_all, List.take_length] at hstream
    rw [hstream, ← TraceInfo.stream, h.stream, Ledger.write, List.flatMap_append,
      List.flatMap_singleton]
    rfl
  buffered := writeLarge_trInfo_pending sb buf n .all .all

end Describes

end Ledger

theorem logLocked_flush {sb sb' : SbInfo P} {r : Record} (hsig : r.flushBufferSig = 1)
    (h : logLocked sb r .all = .ok sb') :
    sb' = { sb with trInfo := (flushBuffer sb.trInfo .all).1 } := by
  rw [logLocked, if_pos hsig, syncLogRecord_flush _ _ _ hsig] at h
  exact (Except.ok.inj h).symm

theorem logLocked_appends {sb sb' : SbInfo P} {r : Record} (hsig : r.flushBufferSig ≠ 1)
    (hin : sb.trInfo.InBounds) (hr : r.Sized P ty) (h : logLocked sb r .all = .ok sb') :
    sb'.trInfo.InBounds ∧
      (sb.trInfo.makeRoom r .all).1.Appends sb'.trInfo (r.withId sb.lastId).emitted := by
  rw [logLocked, if_neg hsig] at h
  rcases syncLogRecord_spec .all (r := r.withId sb.lastId) hsig hin (hr.withId _).fits with
    ⟨herr, -⟩ | ⟨t, err, hok, -, happ, hin'⟩
  · rw [herr] at h
    cases h
  · rw [hok] at h
    cases h
    exact ⟨hin', happ⟩

def State.segment (s : State P) (op : Nat) (r : Record) : Segment :=
  if r.HeaderOnly then .header op (r.withId s.sb.lastId) else .whole op (r.withId s.sb.lastId)

theorem State.segment_bytes (s : State P) (op : Nat) (r : Record) :
    (s.segment op r).bytes = (r.withId s.sb.lastId).emitted := by
  unfold State.segment
  split <;> rfl

theorem State.ledgerAfter_flush (s : State P) (op : Nat) {r : Record}
    (hsig : r.flushBufferSig = 1) : s.ledgerAfter op r = s.ledger.flush := if_pos hsig

theorem State.ledgerAfter_append (s : State P) (op : Nat) {r : Record}
    (hsig : r.flushBufferSig ≠ 1) :
    s.ledgerAfter op r =
      (if s.sb.trInfo.WouldFill r then s.ledger.flush else s.ledger).append (s.segment op r) :=
  if_neg hsig

theorem State.ledgerAfter_log (s : State P) (op : Nat) {r : Record}
    (hsig : r.flushBufferSig ≠ 1) :
    (s.ledgerAfter op r).log = s.ledger.log ++ [s.segment op r] := by
  rw [s.ledgerAfter_append op hsig, Ledger.append_log]
  split
  · rw [Ledger.flush_log]
  · rfl

theorem State.ledgerAfter_logged (s : State P) (op : Nat) {r : Record}
    (hsig : r.flushBufferSig ≠ 1) : (s.ledgerAfter op r).logged = s.ledger.logged ++ [op] := by
  have hop : (s.segment op r).recordOp? = some op := by
    unfold State.segment
    split <;> rfl
  rw [Ledger.logged, s.ledgerAfter_log op hsig, List.filterMap_append, Ledger.logged]
  simp [hop]

theorem State.ledgerAfter_describes {s : State P} (op : Nat) {r : Record} {sb : SbInfo P}
    (h : s.ledger.Describes s.sb.trInfo) (hr : r.flushBufferSig ≠ 1 → r.Sized P ty)
    (hlog : logLocked s.sb r .all = .ok sb) : (s.ledgerAfter op r).Describes sb.trInfo := by
  by_cases hsig : r.flushBufferSig = 1
  · rw [s.ledgerAfter_flush op hsig, logLocked_flush hsig hlog]
    exact h.flush
  · obtain ⟨hin, happ⟩ := logLocked_appends hsig h.inBounds (hr hsig) hlog
    rw [s.ledgerAfter_append op hsig]
    exact (h.makeRoom r).append (s.segment_bytes op r ▸ happ) hin

theorem Step.describes {s s' : State P} {l : Label P} (hs : Step s l s')
    (h : s.ledger.Describes s.sb.trInfo) : s'.ledger.Describes s'.sb.trInfo := by
  cases hs with
  | invoke | build | giveUp | submit | checkLarge | skipLarge | submitLarge | drop | dropLarge
  | flushed | ret | umount | stop | close => exact h
  | checkReaddir hm hp hr =>
    simp only [State.setPhase, State.noteBit_ledger, State.noteBit_sb]
    exact h
  | take hc hw hq =>
    simp only [State.noteBit_ledger, State.noteBit_sb]
    exact h
  | ioctl hm => exact ⟨h.inBounds, h.filed, h.buffered⟩
  | @writeLarge op found job hl hm hp => exact h.writeLarge op found.2.property
  | @logReaddir op job hr sb hm hp hlog =>
    exact State.ledgerAfter_describes op h (fun _ => job.sized) hlog
  | @work w sb hc hw hlog =>
    exact State.ledgerAfter_describes w.op h (fun _ => w.job.sized) hlog
  | tick hu hlog =>
    have hr : flushRequest.flushBufferSig ≠ 1 → flushRequest.Sized P .close :=
      fun hsig => absurd rfl hsig
    exact State.ledgerAfter_describes 0 h hr hlog
  | finalWrite hu => exact h.flush

def Phase.Handed : Phase P → Prop
  | .flushing _ _ | .ready _ _ | .done | .returned => True
  | _ => False

def Work.At (w : Work P) : Phase P → Prop
  | .flushing job _ => job = w.job
  | .done | .returned => ¬ w.job.record.Large P
  | _ => False

theorem Work.At.handed {w : Work P} {p : Phase P} (h : w.At p) : p.Handed := by
  cases p <;> first | exact h | trivial

def chain (logged : List Nat) (worker : Option (Work P)) (queue : List (Work P)) : List Nat :=
  logged ++ (worker.toList ++ queue).map Work.op

/-- Each record that was submitted is in one place: the stream, the queue, or nowhere, its bit
having been found clear. -/
structure Tracked (logged : List Nat) (worker : Option (Work P)) (queue : List (Work P))
    (unset : List Nat) (phase : Nat → Phase P) : Prop where
  nodup : (chain logged worker queue).Nodup
  logged_handed : ∀ op ∈ logged, (phase op).Handed
  pending_at : ∀ w ∈ worker.toList ++ queue, w.At (phase w.op)
  unset_handed : ∀ op ∈ unset, (phase op).Handed
  queue_unset : ∀ w ∈ queue, w.op ∉ unset
  worker_unset : ∀ w ∈ worker, w.job.record.flushBufferSig ≠ 1 → w.op ∉ unset

namespace Tracked

variable {logged : List Nat} {worker : Option (Work P)} {queue : List (Work P)}
  {unset : List Nat} {phase : Nat → Phase P} {op : Nat} {w : Work P}

theorem chain_handed (h : Tracked logged worker queue unset phase)
    (hop : op ∈ chain logged worker queue) : (phase op).Handed := by
  rcases List.mem_append.mp hop with hop | hop
  · exact h.logged_handed op hop
  · obtain ⟨w, hw, rfl⟩ := List.mem_map.mp hop
    exact (h.pending_at w hw).handed

theorem move (h : Tracked logged worker queue unset phase) {p : Phase P}
    (hp : (phase op).Handed → p.Handed ∧ ∀ w ∈ worker.toList ++ queue, w.op = op → w.At p) :
    Tracked logged worker queue unset (Function.update phase op p) where
  nodup := h.nodup
  logged_handed op' hop' := by
    by_cases heq : op' = op
    · subst heq
      rw [Function.update_self]
      exact (hp (h.logged_handed op' hop')).1
    · rw [Function.update_of_ne heq]
      exact h.logged_handed op' hop'
  pending_at w hw := by
    by_cases heq : w.op = op
    · subst heq
      rw [Function.update_self]
      exact (hp (h.pending_at w hw).handed).2 w hw rfl
    · rw [Function.update_of_ne heq]
      exact h.pending_at w hw
  unset_handed op' hop' := by
    by_cases heq : op' = op
    · subst heq
      rw [Function.update_self]
      exact (hp (h.unset_handed op' hop')).1
    · rw [Function.update_of_ne heq]
      exact h.unset_handed op' hop'
  queue_unset := h.queue_unset
  worker_unset := h.worker_unset

theorem move_fresh (h : Tracked logged worker queue unset phase) (p : Phase P)
    (hop : ¬ (phase op).Handed) :
    Tracked logged worker queue unset (Function.update phase op p) :=
  h.move fun hh => absurd hh hop

theorem enqueue (h : Tracked logged worker queue unset phase) {p : Phase P}
    (hop : ¬ (phase w.op).Handed) (hp : w.At p) :
    Tracked logged worker (queue ++ [w]) unset (Function.update phase w.op p) := by
  have hfresh : w.op ∉ chain logged worker queue := fun hmem => hop (h.chain_handed hmem)
  have hmoved := h.move_fresh p hop
  refine { hmoved with nodup := ?_, pending_at := ?_, queue_unset := ?_ }
  · have heq : chain logged worker (queue ++ [w]) = chain logged worker queue ++ [w.op] := by
      simp [chain]
    rw [heq]
    rw [← List.concat_eq_append]
    exact h.nodup.concat hfresh
  · intro w' hw'
    rw [← List.append_assoc, List.mem_append, List.mem_singleton] at hw'
    rcases hw' with hw' | rfl
    · exact hmoved.pending_at w' hw'
    · rw [Function.update_self]
      exact hp
  · intro w' hw'
    rcases List.mem_append.mp hw' with hw' | hw'
    · exact h.queue_unset w' hw'
    · rw [List.mem_singleton.mp hw']
      exact fun hmem => hop (h.unset_handed w.op hmem)

theorem take (h : Tracked logged none (w :: queue) unset phase) :
    Tracked logged (some w) queue unset phase where
  nodup := h.nodup
  logged_handed := h.logged_handed
  pending_at := h.pending_at
  unset_handed := h.unset_handed
  queue_unset w' hw' := h.queue_unset w' (List.mem_cons_of_mem w hw')
  worker_unset w' hw' _ := by
    cases hw'
    exact h.queue_unset w List.mem_cons_self

theorem takeUnset (h : Tracked logged none (w :: queue) unset phase)
    (hsig : w.job.record.flushBufferSig = 1) :
    Tracked logged (some w) queue (w.op :: unset) phase := by
  have hnodup := (List.nodup_append.mp h.nodup).2.1
  refine { h.take with unset_handed := ?_, queue_unset := ?_, worker_unset := ?_ }
  · intro op hop
    rcases List.mem_cons.mp hop with rfl | hop
    · exact (h.pending_at w List.mem_cons_self).handed
    · exact h.unset_handed op hop
  · intro w' hw' hmem
    rcases List.mem_cons.mp hmem with heq | hmem
    · exact (List.nodup_cons.mp hnodup).1 (heq ▸ List.mem_map_of_mem hw')
    · exact h.queue_unset w' (List.mem_cons_of_mem w hw') hmem
  · rintro w' hw' hne
    cases hw'
    exact absurd hsig hne

theorem drop (h : Tracked logged (some w) queue unset phase) :
    Tracked logged none queue unset phase where
  nodup := h.nodup.sublist ((List.sublist_cons_self w.op (queue.map Work.op)).append_left logged)
  logged_handed := h.logged_handed
  pending_at w' hw' := h.pending_at w' (List.mem_cons_of_mem w hw')
  unset_handed := h.unset_handed
  queue_unset := h.queue_unset
  worker_unset _ hw' := nomatch hw'

theorem skip (h : Tracked logged none (w :: queue) unset phase) :
    Tracked logged none queue (w.op :: unset) phase where
  nodup := h.take.drop.nodup
  logged_handed := h.logged_handed
  pending_at := h.take.drop.pending_at
  unset_handed op hop := by
    rcases List.mem_cons.mp hop with rfl | hop
    · exact (h.pending_at w List.mem_cons_self).handed
    · exact h.unset_handed op hop
  queue_unset w' hw' hmem := by
    have hnodup := (List.nodup_append.mp h.nodup).2.1
    rcases List.mem_cons.mp hmem with heq | hmem
    · exact (List.nodup_cons.mp hnodup).1 (heq ▸ List.mem_map_of_mem hw')
    · exact h.queue_unset w' (List.mem_cons_of_mem w hw') hmem
  worker_unset _ hw' := nomatch hw'

theorem log (h : Tracked logged (some w) queue unset phase) :
    Tracked (logged ++ [w.op]) none queue unset phase where
  nodup := by
    have heq : chain (logged ++ [w.op]) none queue = chain logged (some w) queue := by
      simp [chain]
    exact heq ▸ h.nodup
  logged_handed op hop := by
    rcases List.mem_append.mp hop with hop | hop
    · exact h.logged_handed op hop
    · rw [List.mem_singleton.mp hop]
      exact (h.pending_at w List.mem_cons_self).handed
  pending_at := h.drop.pending_at
  unset_handed := h.unset_handed
  queue_unset := h.queue_unset
  worker_unset _ hw' := nomatch hw'

theorem append (h : Tracked logged worker queue unset phase) (hop : ¬ (phase op).Handed) :
    Tracked (logged ++ [op]) worker queue unset (Function.update phase op .done) := by
  have hfresh : op ∉ chain logged worker queue := fun hmem => hop (h.chain_handed hmem)
  have hmoved := h.move_fresh .done hop
  refine { hmoved with nodup := ?_, logged_handed := ?_ }
  · have hperm : (chain (logged ++ [op]) worker queue).Perm (op :: chain logged worker queue) := by
      rw [chain, List.append_assoc]
      exact List.perm_middle
    exact hperm.nodup_iff.mpr (List.nodup_cons.mpr ⟨hfresh, h.nodup⟩)
  · intro op' hop'
    rcases List.mem_append.mp hop' with hop' | hop'
    · exact hmoved.logged_handed op' hop'
    · rw [List.mem_singleton.mp hop', Function.update_self]
      trivial

theorem giveUp (h : Tracked logged worker queue unset phase) (hop : ¬ (phase op).Handed) :
    Tracked logged worker queue (op :: unset) (Function.update phase op .done) := by
  have hfresh : ∀ w ∈ worker.toList ++ queue, w.op ≠ op := by
    rintro w hw rfl
    exact hop (h.pending_at w hw).handed
  have hmoved := h.move_fresh .done hop
  refine { hmoved with unset_handed := ?_, queue_unset := ?_, worker_unset := ?_ }
  · intro op' hop'
    rcases List.mem_cons.mp hop' with rfl | hop'
    · rw [Function.update_self]
      trivial
    · exact hmoved.unset_handed op' hop'
  · intro w hw hmem
    rcases List.mem_cons.mp hmem with heq | hmem
    · exact hfresh w (List.mem_append_right _ hw) heq
    · exact h.queue_unset w hw hmem
  · intro w hw hne hmem
    rcases List.mem_cons.mp hmem with heq | hmem
    · exact hfresh w (List.mem_append_left _ (Option.mem_toList.mpr hw)) heq
    · exact h.worker_unset w hw hne hmem

end Tracked

def State.Tracked (s : State P) : Prop :=
  Trfs.Tracked s.ledger.logged s.worker s.queue s.unset s.phase

theorem Step.tracked {s s' : State P} {l : Label P} (hs : Step s l s') (h : s.Tracked) :
    s'.Tracked := by
  cases hs with
  | invoke hm hp => exact h.move_fresh _ (by rw [hp]; exact id)
  | build hm hp => exact h.move_fresh _ (by rw [hp]; exact id)
  | giveUp hm hp => exact h.move_fresh _ (by rw [hp]; exact id)
  | submit hm hp hr hl => exact h.enqueue (by rw [hp]; exact id) hl
  | checkLarge hm hp hl hbit => exact h.move_fresh _ (by rw [hp]; exact id)
  | skipLarge hm hp hl hbit => exact h.move_fresh _ (by rw [hp]; exact id)
  | submitLarge hm hp => exact h.enqueue (by rw [hp]; exact id) rfl
  | drop hm he hp => exact h.move_fresh _ (by rw [hp]; exact id)
  | dropLarge hm he hp => exact h.move_fresh _ (by rw [hp]; exact id)
  | flushed hm hp hdone =>
    exact h.move fun _ => ⟨trivial, fun w hw heq => absurd heq (hdone w hw)⟩
  | @writeLarge op found job hl hm hp =>
    have hmoved : Trfs.Tracked s.ledger.logged s.worker s.queue s.unset
        (Function.update s.phase op .done) := by
      refine h.move fun _ => ⟨trivial, ?_⟩
      rintro w hw rfl
      have hat := h.pending_at w hw
      rw [hp] at hat
      exact hat.elim
    unfold State.Tracked
    simp only [Ledger.write_data_logged]
    exact hmoved
  | @checkReaddir op job hm hp hr =>
    have hop : ¬ (s.phase op).Handed := by
      rw [hp]
      exact id
    have hsig : job.record.flushBufferSig ≠ 1 := job.clear (by rw [hr]; decide)
    cases hbit : checkBit s.sb.trInfo.bitmap job.record.type with
    | true =>
      simp only [State.noteBit, hbit, if_true]
      exact h.move_fresh _ hop
    | false =>
      simp only [State.noteBit, State.Passes, hbit, hsig, Bool.false_eq_true, or_self, if_false]
      exact h.giveUp hop
  | @logReaddir op job hr sb hm hp hlog =>
    have hsig : job.record.flushBufferSig ≠ 1 := job.clear (by rw [hr]; decide)
    unfold State.Tracked
    simp only [s.ledgerAfter_logged op hsig]
    exact h.append (by rw [hp]; exact id)
  | ret hm hp =>
    refine h.move fun _ => ⟨trivial, ?_⟩
    rintro w hw rfl
    have hat := h.pending_at w hw
    rw [hp] at hat
    exact hat
  | ioctl hm => exact h
  | @take w queue hc hw hq =>
    rw [State.Tracked, hw, hq] at h
    cases hbit : checkBit s.sb.trInfo.bitmap w.job.record.type with
    | true =>
      simp only [State.noteBit, State.Passes, hbit, if_true, or_true]
      exact h.take
    | false =>
      by_cases hsig : w.job.record.flushBufferSig = 1
      · simp only [State.noteBit, State.Passes, hbit, hsig, Bool.false_eq_true, or_false, if_true,
          if_false]
        exact h.takeUnset hsig
      · simp only [State.noteBit, State.Passes, hbit, hsig, Bool.false_eq_true, or_self, if_false]
        exact h.skip
  | @work w sb hc hw hlog =>
    rw [State.Tracked, hw] at h
    by_cases hsig : w.job.record.flushBufferSig = 1
    · unfold State.Tracked
      simp only [s.ledgerAfter_flush w.op hsig, Ledger.flush_logged]
      exact h.drop
    · unfold State.Tracked
      simp only [s.ledgerAfter_logged w.op hsig]
      exact h.log
  | tick hu hlog =>
    unfold State.Tracked
    simp only [s.ledgerAfter_flush 0 (r := flushRequest) rfl, Ledger.flush_logged]
    exact h
  | umount hm ha => exact h
  | stop hu => exact h
  | finalWrite hu =>
    unfold State.Tracked
    simp only [Ledger.flush_logged]
    exact h
  | close hu => exact h

theorem start_describes (P : PageSize) :
    (State.start P).ledger.Describes (State.start P).sb.trInfo where
  inBounds := (refines_fresh P).inBounds
  filed := rfl
  buffered := rfl

theorem start_tracked (P : PageSize) : (State.start P).Tracked where
  nodup := List.nodup_nil
  logged_handed _ hop := nomatch hop
  pending_at _ hw := nomatch hw
  unset_handed _ hop := nomatch hop
  queue_unset _ hw := nomatch hw
  worker_unset _ hw := nomatch hw

theorem describes_of_run {labels : List (Label P)} {s : State P}
    (h : run State.step (State.start P) labels = some s) : s.ledger.Describes s.sb.trInfo :=
  run_invariant (fun s => s.ledger.Describes s.sb.trInfo)
    (fun _ _ _ hs hstep => (Step.of_step hstep).describes hs) (start_describes P) h

end TraceFS.Trfs
