import TraceFS.Trfs.Invariants

namespace TraceFS.Trfs

open TraceFS.Lib TraceFS.Linux

variable {P : PageSize}

/-- The stream as a sequence of complete records; the header of a last one may await its data. -/
structure Parsed where
  records : List Record
  awaiting : Option (Nat × Record)
  deriving DecidableEq

namespace Parsed

def empty : Parsed := ⟨[], none⟩

def absorb (t : Parsed) : Segment → Option Parsed
  | .whole _ r =>
    match t.awaiting with
    | none => some ⟨t.records ++ [r], none⟩
    | some _ => none
  | .header op r =>
    match t.awaiting with
    | none => some ⟨t.records, some (op, r)⟩
    | some _ => none
  | .data op buf =>
    match t.awaiting with
    | none => none
    | some (op', r) =>
      if op' = op ∧ buf.length = r.dataLength.toNat then some ⟨t.records ++ [r.withData buf], none⟩
      else none

def bytes (t : Parsed) : List Byte :=
  t.records.flatMap Record.enc ++
    match t.awaiting with
    | none => []
    | some (_, r) => r.encCommon ++ le r.dataLength

end Parsed

def Segment.Sound : Segment → Prop
  | .whole _ r => (∃ ty, r.type = LogType.toByte ty) ∧ ¬ r.HeaderOnly
  | .header _ r => r.HeaderOnly
  | .data _ _ => True

theorem Record.HeaderOnly.withData_enc {r : Record} {buf : List Byte} (h : r.HeaderOnly)
    (hlen : buf.length = r.dataLength.toNat) :
    (r.withData buf).enc = r.encCommon ++ le r.dataLength ++ buf := by
  rcases h.1 with hty | hty
  · exact Record.withData_enc hty trivial hlen
  · exact Record.withData_enc hty trivial hlen

namespace Parsed

theorem absorb_bytes {t t' : Parsed} {g : Segment} (h : t.absorb g = some t') (hg : g.Sound)
    (ht : ∀ op r, t.awaiting = some (op, r) → r.HeaderOnly) :
    t'.bytes = t.bytes ++ g.bytes ∧ ∀ op r, t'.awaiting = some (op, r) → r.HeaderOnly := by
  obtain ⟨records, awaiting⟩ := t
  cases g with
  | whole op r =>
    cases awaiting with
    | some _ => cases h
    | none =>
      cases h
      obtain ⟨⟨ty, hty⟩, hwhole⟩ := hg
      refine ⟨?_, by simp⟩
      simp [bytes, Segment.bytes, Record.emitted_whole hwhole hty]
  | header op r =>
    cases awaiting with
    | some _ => cases h
    | none =>
      cases h
      refine ⟨by simp [bytes, Segment.bytes, Record.emitted_header hg], ?_⟩
      rintro _ _ ⟨⟩
      exact hg
  | data op buf =>
    cases awaiting with
    | none => cases h
    | some a =>
      obtain ⟨op', r⟩ := a
      simp only [absorb, Option.ite_none_right_eq_some] at h
      obtain ⟨hcond, h⟩ := h
      cases h
      refine ⟨?_, by simp⟩
      simp [bytes, Segment.bytes, (ht op' r rfl).withData_enc hcond.2]

theorem run_absorb_bytes {gs : List Segment} {t : Parsed} (hgs : ∀ g ∈ gs, g.Sound)
    (h : run absorb empty gs = some t) :
    t.bytes = gs.flatMap Segment.bytes ∧ ∀ op r, t.awaiting = some (op, r) → r.HeaderOnly := by
  induction gs using List.reverseRecOn generalizing t with
  | nil =>
    cases h
    exact ⟨rfl, fun _ _ h => nomatch h⟩
  | append_singleton gs g ih =>
    obtain ⟨t₀, h₀, hg⟩ := run_concat_eq_some.mp h
    obtain ⟨hbytes, hawait⟩ := ih (fun g' hg' => hgs g' (List.mem_append_left _ hg')) h₀
    obtain ⟨hbytes', hawait'⟩ := absorb_bytes hg (hgs g (by simp)) hawait
    refine ⟨?_, hawait'⟩
    rw [hbytes', hbytes, List.flatMap_append, List.flatMap_singleton]

end Parsed

theorem State.segment_sound (s : State P) (op : Nat) (job : Job P) :
    (s.segment op job.record).Sound := by
  unfold State.segment
  split
  · assumption
  · exact ⟨⟨job.type, job.sized.type_eq⟩, ‹_›⟩

def State.emits (s : State P) : Label P → List Segment
  | .work =>
    match s.worker with
    | some w => if w.job.record.flushBufferSig = 1 then [] else [s.segment w.op w.job.record]
    | none => []
  | .logReaddir op =>
    match s.phase op with
    | .logging job _ => [s.segment op job.record]
    | _ => []
  | .writeLarge op found =>
    match s.phase op with
    | .ready _ _ => [.data op found.2.val]
    | _ => []
  | _ => []

theorem State.emits_sound (s : State P) (l : Label P) : ∀ g ∈ s.emits l, g.Sound := by
  unfold State.emits
  split
  · split
    · split <;> simp [s.segment_sound]
    · simp
  · split <;> simp [s.segment_sound]
  · split <;> simp [Segment.Sound]
  · simp

theorem Step.log_eq {s s' : State P} {l : Label P} (hs : Step s l s') :
    s'.ledger.log = s.ledger.log ++ s.emits l := by
  cases hs with
  | invoke | build | giveUp | submit | checkLarge | skipLarge | submitLarge | drop | dropLarge
  | flushed | ret | umount | stop | close | ioctl => exact (List.append_nil _).symm
  | checkReaddir hm hp hr => simp [State.setPhase, State.emits]
  | take hc hw hq => simp [State.emits]
  | finalWrite hu => simp [State.emits]
  | writeLarge hm hp => simp [State.emits, hp]
  | @logReaddir op job hr sb hm hp hlog =>
    simp [State.emits, hp, s.ledgerAfter_log op (job.clear (by rw [hr]; decide))]
  | @work w sb hc hw hlog =>
    by_cases hsig : w.job.record.flushBufferSig = 1
    · simp [State.emits, hw, hsig, s.ledgerAfter_flush w.op hsig]
    · simp only [State.emits, hw, if_neg hsig]
      exact s.ledgerAfter_log w.op hsig
  | tick hu hlog =>
    simp [State.emits, s.ledgerAfter_flush 0 (r := flushRequest) rfl]

def Phase.Waits (job : Job P) : Phase P → Prop
  | .flushing job' _ | .ready job' _ => job' = job
  | _ => False

theorem Phase.Waits.handed {job : Job P} {p : Phase P} (h : p.Waits job) : p.Handed := by
  cases p <;> first | exact h | trivial

/-- The worker has logged the header of `job`, and the data is not written yet. -/
structure Awaits (worker : Option (Work P)) (queue : List (Work P)) (unset : List Nat)
    (phase : Nat → Phase P) (op : Nat) (job : Job P) : Prop where
  waits : (phase op).Waits job
  worked : ∀ w ∈ worker.toList ++ queue, w.op ≠ op
  traced : op ∉ unset

section Awaits

variable {logged : List Nat} {worker : Option (Work P)} {queue : List (Work P)}
  {unset : List Nat} {phase : Nat → Phase P} {op : Nat} {w : Work P}

theorem awaits_move {p : Phase P} (hp : ∀ job, p.Waits job ↔ (phase op).Waits job) :
    Awaits worker queue unset (Function.update phase op p) = Awaits worker queue unset phase := by
  funext op' job
  have hwaits : (Function.update phase op p op').Waits job ↔ (phase op').Waits job := by
    by_cases heq : op' = op
    · subst heq
      rw [Function.update_self]
      exact hp job
    · rw [Function.update_of_ne heq]
  exact propext ⟨fun h => ⟨hwaits.mp h.waits, h.worked, h.traced⟩,
    fun h => ⟨hwaits.mpr h.waits, h.worked, h.traced⟩⟩

theorem awaits_enqueue {p : Phase P} (hop : ¬ (phase w.op).Handed) :
    Awaits worker (queue ++ [w]) unset (Function.update phase w.op p) =
      Awaits worker queue unset phase := by
  funext op' job
  apply propext
  constructor
  · intro h
    have hne : op' ≠ w.op := fun heq => h.worked w (by simp) heq.symm
    refine ⟨by simpa [hne] using h.waits, ?_, h.traced⟩
    intro w' hw'
    exact h.worked w' (by rw [← List.append_assoc]; exact List.mem_append_left _ hw')
  · intro h
    have hne : op' ≠ w.op := by
      rintro rfl
      exact hop h.waits.handed
    refine ⟨by simpa [hne] using h.waits, ?_, h.traced⟩
    intro w' hw'
    rw [← List.append_assoc, List.mem_append, List.mem_singleton] at hw'
    rcases hw' with hw' | rfl
    · exact h.worked w' hw'
    · exact hne.symm

theorem awaits_giveUp (hop : ¬ (phase op).Handed) :
    Awaits worker queue (op :: unset) (Function.update phase op .done) =
      Awaits worker queue unset phase := by
  rw [awaits_move (p := .done)]
  · funext op' job
    refine propext ⟨
      fun h => ⟨h.waits, h.worked, fun hmem => h.traced (List.mem_cons_of_mem op hmem)⟩,
      fun h => ⟨h.waits, h.worked, ?_⟩⟩
    intro hmem
    rcases List.mem_cons.mp hmem with rfl | hmem
    · exact hop h.waits.handed
    · exact h.traced hmem
  · intro job
    exact iff_of_false id fun h => hop h.handed

theorem awaits_take : Awaits (some w) queue unset phase = Awaits none (w :: queue) unset phase := by
  funext op' job
  exact propext ⟨fun h => ⟨h.waits, h.worked, h.traced⟩, fun h => ⟨h.waits, h.worked, h.traced⟩⟩

theorem awaits_skip :
    Awaits none queue (w.op :: unset) phase = Awaits none (w :: queue) unset phase := by
  funext op' job
  apply propext
  constructor
  · intro h
    refine ⟨h.waits, ?_, fun hmem => h.traced (List.mem_cons_of_mem w.op hmem)⟩
    intro w' hw'
    rcases List.mem_cons.mp hw' with rfl | hw'
    · exact fun heq => h.traced (heq ▸ List.mem_cons_self)
    · exact h.worked w' hw'
  · intro h
    refine ⟨h.waits, fun w' hw' => h.worked w' (List.mem_cons_of_mem w hw'), ?_⟩
    intro hmem
    rcases List.mem_cons.mp hmem with rfl | hmem
    · exact h.worked w List.mem_cons_self rfl
    · exact h.traced hmem

theorem awaits_takeUnset :
    Awaits (some w) queue (w.op :: unset) phase = Awaits none (w :: queue) unset phase := by
  funext op' job
  apply propext
  constructor
  · intro h
    exact ⟨h.waits, h.worked, fun hmem => h.traced (List.mem_cons_of_mem w.op hmem)⟩
  · intro h
    refine ⟨h.waits, h.worked, ?_⟩
    intro hmem
    rcases List.mem_cons.mp hmem with rfl | hmem
    · exact h.worked w List.mem_cons_self rfl
    · exact h.traced hmem

theorem awaits_drop (hw : ∀ job, ¬ (phase w.op).Waits job) :
    Awaits none queue unset phase = Awaits (some w) queue unset phase := by
  funext op' job
  apply propext
  constructor
  · intro h
    refine ⟨h.waits, ?_, h.traced⟩
    intro w' hw'
    rcases List.mem_cons.mp hw' with rfl | hw'
    · rintro rfl
      exact hw job h.waits
    · exact h.worked w' hw'
  · intro h
    exact ⟨h.waits, fun w' hw' => h.worked w' (List.mem_cons_of_mem w hw'), h.traced⟩

theorem awaits_log (h : Tracked logged (some w) queue unset phase)
    (hwait : (phase w.op).Waits w.job)
    (hsig : w.job.record.flushBufferSig ≠ 1) {job : Job P} :
    Awaits none queue unset phase op job ↔
      Awaits (some w) queue unset phase op job ∨ op = w.op ∧ job = w.job := by
  constructor
  · intro hop
    by_cases heq : op = w.op
    · subst heq
      refine .inr ⟨rfl, ?_⟩
      have hjob := hop.waits
      cases hp : phase w.op <;> simp_all [Phase.Waits]
    · refine .inl ⟨hop.waits, ?_, hop.traced⟩
      intro w' hw'
      rcases List.mem_cons.mp hw' with rfl | hw'
      · exact Ne.symm heq
      · exact hop.worked w' hw'
  · rintro (hop | ⟨rfl, rfl⟩)
    · exact ⟨hop.waits, fun w' hw' => hop.worked w' (List.mem_cons_of_mem w hw'), hop.traced⟩
    · refine ⟨hwait, ?_, h.worker_unset w rfl hsig⟩
      intro w' hw' heq
      have hnodup := (List.nodup_append.mp h.nodup).2.1
      exact (List.nodup_cons.mp hnodup).1 (heq ▸ List.mem_map_of_mem hw')

theorem awaits_done {op' : Nat} {job : Job P} :
    Awaits worker queue unset (Function.update phase op .done) op' job ↔
      op' ≠ op ∧ Awaits worker queue unset phase op' job := by
  constructor
  · intro h
    have hne : op' ≠ op := by
      rintro rfl
      have hwaits := h.waits
      rw [Function.update_self] at hwaits
      exact hwaits
    exact ⟨hne, by simpa [hne] using h.waits, h.worked, h.traced⟩
  · rintro ⟨hne, h⟩
    exact ⟨by simpa [hne] using h.waits, h.worked, h.traced⟩

end Awaits

def State.Awaits (s : State P) : Nat → Job P → Prop :=
  Trfs.Awaits s.worker s.queue s.unset s.phase

theorem Work.not_waits {w : Work P} {p : Phase P} (hat : w.At p) (hl : ¬ w.job.record.Large P)
    (job : Job P) : ¬ p.Waits job := by
  cases p with
  | flushing job' large =>
    cases show job' = w.job from hat
    exact absurd large hl
  | ready job' large => exact hat.elim
  | _ => exact id

theorem Work.waits {w : Work P} {p : Phase P} (hat : w.At p) (hl : w.job.record.Large P) :
    p.Waits w.job := by
  cases p with
  | flushing job' large => exact hat
  | done | returned => exact absurd hl hat
  | _ => exact hat.elim

theorem Job.clear_of_large {job : Job P} (hl : job.record.Large P) :
    job.record.flushBufferSig ≠ 1 := by
  have hd := hl.hasData job.sized
  refine job.clear ?_
  rintro heq
  rw [heq] at hd
  exact hd

theorem Step.awaits_eq {s s' : State P} {l : Label P} (hs : Step s l s')
    (hwork : l ≠ .work) (hwrite : ∀ op found, l ≠ .writeLarge op found) :
    s'.Awaits = s.Awaits := by
  have hmove : ∀ {op : Nat} {p p' : Phase P}, s.phase op = p → (∀ job, p'.Waits job ↔ p.Waits job) →
      Trfs.Awaits s.worker s.queue s.unset (Function.update s.phase op p') = s.Awaits := by
    rintro op p p' rfl hp
    exact awaits_move hp
  cases hs with
  | invoke hm hp => exact hmove hp fun _ => .rfl
  | build hm hp => exact hmove hp fun _ => .rfl
  | giveUp hm hp => exact hmove hp fun _ => .rfl
  | submit hm hp hr hl => exact awaits_enqueue (by rw [hp]; exact id)
  | checkLarge hm hp hl hbit => exact hmove hp fun _ => .rfl
  | skipLarge hm hp hl hbit => exact hmove hp fun _ => .rfl
  | submitLarge hm hp => exact awaits_enqueue (by rw [hp]; exact id)
  | drop hm he hp => exact hmove hp fun _ => .rfl
  | dropLarge hm he hp => exact hmove hp fun _ => .rfl
  | flushed hm hp hdone => exact hmove hp fun _ => .rfl
  | writeLarge hm hp => exact absurd rfl (hwrite _ _)
  | @checkReaddir op job hm hp hr =>
    have hsig : job.record.flushBufferSig ≠ 1 := job.clear (by rw [hr]; decide)
    cases hbit : checkBit s.sb.trInfo.bitmap job.record.type with
    | true =>
      simp only [State.noteBit, State.Passes, hbit, or_true, if_true]
      exact hmove hp fun _ => .rfl
    | false =>
      simp only [State.noteBit, State.Passes, hbit, hsig, Bool.false_eq_true, or_self, if_false]
      exact awaits_giveUp (by rw [hp]; exact id)
  | logReaddir hm hp hlog => exact hmove hp fun _ => .rfl
  | ret hm hp => exact hmove hp fun _ => .rfl
  | @take w queue hc hw hq =>
    unfold State.Awaits
    rw [hw, hq]
    cases hbit : checkBit s.sb.trInfo.bitmap w.job.record.type with
    | true =>
      simp only [State.noteBit, State.Passes, hbit, or_true, if_true]
      exact awaits_take
    | false =>
      by_cases hsig : w.job.record.flushBufferSig = 1
      · simp only [State.noteBit, State.Passes, hbit, hsig, Bool.false_eq_true, or_false, if_true,
          if_false]
        exact awaits_takeUnset
      · simp only [State.noteBit, State.Passes, hbit, hsig, Bool.false_eq_true, or_self, if_false]
        exact awaits_skip
  | work hc hw hlog => exact absurd rfl hwork
  | tick | umount | stop | finalWrite | close | ioctl => rfl

structure State.Reads (s : State P) (t : Parsed) : Prop where
  log : run Parsed.absorb .empty s.ledger.log = some t
  awaiting : ∀ op job, s.Awaits op job → ∃ i, t.awaiting = some (op, job.record.withId i)
  awaited : ∀ op r, t.awaiting = some (op, r) → ∃ job, s.Awaits op job

/-- The step lets no record in while a header awaits its data, and writes data only after its
header and as long as the header says. -/
def State.KeepsWhole (s : State P) : Label P → Prop
  | .work =>
    ∀ w ∈ s.worker, w.job.record.flushBufferSig = 1 ∨ ∀ op job, ¬ s.Awaits op job
  | .logReaddir _ => ∀ op job, ¬ s.Awaits op job
  | .writeLarge op found =>
    op ∉ s.unset ∧ ∀ job hl, s.phase op = .ready job hl → found.1 = job.record.dataLength
  | _ => True

theorem State.Reads.awaiting_eq_none_iff {s : State P} {t : Parsed} (h : s.Reads t) :
    t.awaiting = none ↔ ∀ op job, ¬ s.Awaits op job := by
  constructor
  · intro hnone op job haw
    obtain ⟨i, hsome⟩ := h.awaiting op job haw
    rw [hnone] at hsome
    cases hsome
  · intro hno
    cases hsome : t.awaiting with
    | none => rfl
    | some a =>
      obtain ⟨job, haw⟩ := h.awaited a.1 a.2 hsome
      exact absurd haw (hno a.1 job)

theorem Parsed.absorb_segment (t : Parsed) (s : State P) (op : Nat) (r : Record) :
    t.absorb (s.segment op r) =
      if t.awaiting = none then
        some (if r.HeaderOnly then ⟨t.records, some (op, r.withId s.sb.lastId)⟩
          else ⟨t.records ++ [r.withId s.sb.lastId], none⟩)
      else none := by
  obtain ⟨records, awaiting⟩ := t
  unfold State.segment
  split <;> cases awaiting <;> rfl

theorem Job.headerOnly_iff (job : Job P) : job.record.HeaderOnly ↔ job.record.Large P :=
  job.sized.large_iff.symm

theorem State.Reads.same {s s' : State P} {t : Parsed} (h : s.Reads t)
    (hlog : s'.ledger.log = s.ledger.log) (haw : s'.Awaits = s.Awaits) : s'.Reads t where
  log := hlog ▸ h.log
  awaiting := haw ▸ h.awaiting
  awaited := haw ▸ h.awaited

theorem State.Reads.append {s s' : State P} {t : Parsed} {op : Nat} {r : Record} (h : s.Reads t)
    (hno : ∀ op job, ¬ s.Awaits op job) (hwhole : ¬ r.HeaderOnly)
    (hlog : s'.ledger.log = s.ledger.log ++ [s.segment op r]) (haw : s'.Awaits = s.Awaits) :
    ∃ t', s'.Reads t' := by
  have hnone := h.awaiting_eq_none_iff.mpr hno
  refine ⟨⟨t.records ++ [r.withId s.sb.lastId], none⟩, ?_, ?_, by simp⟩
  · rw [hlog, run_concat_eq_some]
    exact ⟨t, h.log, by rw [Parsed.absorb_segment, if_pos hnone, if_neg hwhole]⟩
  · intro op job hop
    exact absurd (haw ▸ hop) (hno op job)

theorem Step.reads {s s' : State P} {l : Label P} {t : Parsed} (hs : Step s l s')
    (ht : s.Tracked) (h : s.Reads t) (hk : s.KeepsWhole l) : ∃ t', s'.Reads t' := by
  have hlog := hs.log_eq
  have haw := hs.awaits_eq
  cases hs with
  | @work w sb hc hw hl =>
    have htracked := ht
    rw [State.Tracked, hw] at htracked
    have hat := htracked.pending_at w List.mem_cons_self
    by_cases hsig : w.job.record.flushBufferSig = 1
    · have hsmall : ¬ w.job.record.Large P := fun hl => Job.clear_of_large hl hsig
      simp only [State.emits, hw, if_pos hsig, List.append_nil] at hlog
      refine ⟨t, h.same hlog ?_⟩
      rw [State.Awaits, State.Awaits, hw]
      exact awaits_drop (Work.not_waits hat hsmall)
    · have hno := (hk w hw).resolve_left hsig
      simp only [State.emits, hw, if_neg hsig] at hlog
      by_cases hlarge : w.job.record.Large P
      · have hnone := h.awaiting_eq_none_iff.mpr hno
        have hwait := Work.waits hat hlarge
        have hiff : ∀ op job, Trfs.Awaits none s.queue s.unset s.phase op job ↔
            op = w.op ∧ job = w.job := by
          intro op job
          rw [awaits_log htracked hwait hsig, or_iff_right]
          rw [← hw]
          exact hno op job
        refine ⟨⟨t.records, some (w.op, w.job.record.withId s.sb.lastId)⟩, ?_, ?_, ?_⟩
        · rw [hlog, run_concat_eq_some]
          refine ⟨t, h.log, ?_⟩
          rw [Parsed.absorb_segment, if_pos hnone, if_pos ((Job.headerOnly_iff _).mpr hlarge)]
        · intro op job hop
          obtain ⟨rfl, rfl⟩ := (hiff op job).mp hop
          exact ⟨_, rfl⟩
        · rintro op r ⟨⟩
          exact ⟨w.job, (hiff w.op w.job).mpr ⟨rfl, rfl⟩⟩
      · refine h.append hno (fun hh => hlarge ((Job.headerOnly_iff _).mp hh)) hlog ?_
        rw [State.Awaits, State.Awaits, hw]
        exact awaits_drop (Work.not_waits hat hlarge)
  | @logReaddir op job hr sb hm hp hl =>
    simp only [State.emits, hp] at hlog
    refine h.append hk ?_ hlog (haw (by simp) (by simp))
    intro hh
    have hd := ((Job.headerOnly_iff _).mp hh).hasData job.sized
    rw [hr] at hd
    exact hd
  | @writeLarge op found job hl hm hp =>
    obtain ⟨htraced, hfound⟩ := hk
    simp only [State.emits, hp] at hlog
    have hworked : ∀ w ∈ s.pending, w.op ≠ op := by
      rintro w hw rfl
      have hat := ht.pending_at w hw
      rw [hp] at hat
      exact hat.elim
    obtain ⟨i, hsome⟩ := h.awaiting op job ⟨by rw [hp]; rfl, hworked, htraced⟩
    refine ⟨⟨t.records ++ [(job.record.withId i).withData found.2.val], none⟩, ?_, ?_, by simp⟩
    · rw [hlog, run_concat_eq_some]
      refine ⟨t, h.log, ?_⟩
      rw [Parsed.absorb, hsome]
      refine if_pos ⟨rfl, ?_⟩
      rw [found.2.property, hfound job hl hp]
      rfl
    · intro op' job' hop
      obtain ⟨hne, hop⟩ := awaits_done.mp hop
      obtain ⟨i', hsome'⟩ := h.awaiting op' job' hop
      have heq := congrArg Prod.fst (Option.some.inj (hsome.symm.trans hsome'))
      exact absurd heq.symm hne
  | _ => exact ⟨t, h.same (hlog.trans (List.append_nil _)) (haw (by simp) (by simp))⟩

theorem Step.keepsWhole {s s' : State P} {l : Label P} {t t' : Parsed} (hs : Step s l s')
    (h : s.Reads t) (hparse : run Parsed.absorb .empty s'.ledger.log = some t') :
    s.KeepsWhole l := by
  have hlog := hs.log_eq
  have habsorb : run Parsed.absorb t (s.emits l) = some t' := by
    rw [hlog] at hparse
    obtain ⟨t₀, ht₀, hemit⟩ := run_append_eq_some.mp hparse
    cases h.log.symm.trans ht₀
    exact hemit
  cases hs with
  | @work w sb hc hw hl =>
    intro w' hw'
    cases hw.symm.trans hw'
    by_cases hsig : w.job.record.flushBufferSig = 1
    · exact .inl hsig
    · refine .inr (h.awaiting_eq_none_iff.mp ?_)
      simp only [State.emits, hw, if_neg hsig, run_cons_eq_some, Parsed.absorb_segment,
        Option.ite_none_right_eq_some] at habsorb
      obtain ⟨-, ⟨hnone, -⟩, -⟩ := habsorb
      exact hnone
  | @logReaddir op job hr sb hm hp hl =>
    refine h.awaiting_eq_none_iff.mp ?_
    simp only [State.emits, hp, run_cons_eq_some, Parsed.absorb_segment,
      Option.ite_none_right_eq_some] at habsorb
    obtain ⟨-, ⟨hnone, -⟩, -⟩ := habsorb
    exact hnone
  | @writeLarge op found job hl hm hp =>
    simp only [State.emits, hp, run_cons_eq_some] at habsorb
    obtain ⟨_, habsorb, -⟩ := habsorb
    simp only [Parsed.absorb] at habsorb
    split at habsorb
    · cases habsorb
    · rename_i op' r hsome
      obtain ⟨⟨rfl, hlen⟩, -⟩ := Option.ite_none_right_eq_some.mp habsorb
      obtain ⟨job', haw⟩ := h.awaited op' r hsome
      refine ⟨haw.traced, ?_⟩
      intro job₀ hl₀ hp₀
      cases hp.symm.trans hp₀
      obtain rfl : job = job' := by
        have hwaits := haw.waits
        rw [hp] at hwaits
        exact hwaits
      obtain ⟨i, hawait⟩ := h.awaiting op' job haw
      cases hsome.symm.trans hawait
      exact BitVec.eq_of_toNat_eq (found.2.property.symm.trans hlen)
  | _ => trivial

/-- The stream, seen as what each critical section put into it, is complete records, and perhaps
the header of one more whose data is awaited. -/
def State.Contiguous (s : State P) : Prop :=
  ∃ t, run Parsed.absorb .empty s.ledger.log = some t ∧ s.sb.trInfo.stream = t.bytes

theorem start_reads (P : PageSize) : (State.start P).Reads .empty where
  log := rfl
  awaiting _ _ h := h.waits.elim
  awaited _ _ h := nomatch h

theorem contiguous_iff (P : PageSize) (labels : List (Label P)) (s : State P)
    (hrun : run State.step (State.start P) labels = some s) :
    (∀ pre post t, labels = pre ++ post → run State.step (State.start P) pre = some t →
        t.Contiguous) ↔
      Along State.KeepsWhole State.step (State.start P) labels := by
  refine run_holds_iff_along
    (fun s => s.Tracked ∧ s.ledger.Describes s.sb.trInfo ∧ (∀ g ∈ s.ledger.log, g.Sound) ∧
      ∃ t, s.Reads t) ?_ ?_ ?_ hrun
  · rintro s ⟨-, hdesc, hsound, t, hreads⟩
    refine ⟨t, hreads.log, ?_⟩
    rw [hdesc.stream, (Parsed.run_absorb_bytes hsound hreads.log).1]
  · rintro s l s' ⟨htracked, hdesc, hsound, t, hreads⟩ hstep
    have hs := Step.of_step hstep
    constructor
    · intro hk
      refine ⟨hs.tracked htracked, hs.describes hdesc, ?_, hs.reads htracked hreads hk⟩
      rw [hs.log_eq]
      exact List.forall_mem_append.mpr ⟨hsound, s.emits_sound l⟩
    · rintro ⟨t', hparse, -⟩
      exact hs.keepsWhole hreads hparse
  · exact ⟨start_tracked P, start_describes P, (fun _ hg => nomatch hg), .empty, start_reads P⟩

def rootReaddir : Job .small :=
  (readdirRecord_sound (T := .plenty) 2 0 .root).job

def largeReadRecord : Record := readRecord (Kernel.inert : Kernel Unit) 3 8192 ()

theorem largeReadRecord_transfer : largeReadRecord.Transfer .read :=
  readRecord_transfer 3 () (by decide)

def largeRead : Job .small :=
  (largeReadRecord_transfer.sound (T := .plenty) (P := .small)
    (show _ ∈ Tracing.plenty.transferred .small largeReadRecord 4 from
      List.mem_singleton_self _)).job

def largeReadFound : Counted 64 :=
  ⟨largeRead.record.dataLength, largeRead.buf, largeRead.bufLength trivial⟩

def readAlone : List (Label .small) :=
  [.invoke 1, .build 1 (some largeRead), .checkLarge 1, .submitLarge 1, .take, .work, .flushed 1,
    .writeLarge 1 largeReadFound, .ret 1]

theorem contiguous_iff_readAlone :
    (∀ pre post t, readAlone = pre ++ post → run State.step (State.start .small) pre = some t →
        t.Contiguous) ↔
      Along State.KeepsWhole State.step (State.start .small) readAlone := by
  obtain ⟨s, hs⟩ : ∃ s, run State.step (State.start .small) readAlone = some s :=
    Option.isSome_iff_exists.mp (by decide +kernel)
  exact contiguous_iff .small readAlone s hs

/-- Between the worker's critical section and the caller's, a `trfs_readdir` gets the mutex. -/
def readdirBetween : List (Label .small) :=
  [.invoke 1, .build 1 (some largeRead), .checkLarge 1, .submitLarge 1, .take, .work,
    .invoke 2, .build 2 (some rootReaddir), .checkReaddir 2, .logReaddir 2, .flushed 1,
    .writeLarge 1 largeReadFound]

theorem readdir_splits_read :
    ∃ s, run State.step (State.start .small) readdirBetween = some s ∧ ¬ s.Contiguous := by
  have hrun : ((run State.step (State.start .small) readdirBetween).map fun s =>
      run Parsed.absorb .empty s.ledger.log) = some none := by decide +kernel
  obtain ⟨s, hs, hnone⟩ := Option.map_eq_some_iff.mp hrun
  refine ⟨s, hs, ?_⟩
  rintro ⟨t, ht, -⟩
  rw [hnone] at ht
  cases ht

end TraceFS.Trfs
