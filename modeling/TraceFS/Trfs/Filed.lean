import TraceFS.Trfs.Format
import TraceFS.Trfs.Marks
import TraceFS.Trfs.Unmount

namespace TraceFS.Trfs

open TraceFS.Lib TraceFS.Linux

variable {P : PageSize}

theorem Phase.Waits.job? {job : Job P} {p : Phase P} (h : p.Waits job) : p.job? = some job := by
  cases p <;> first | exact congrArg some h | exact h.elim

theorem Step.pending {s s' : State P} {l : Label P} (hs : Step s l s') :
    ∀ w ∈ s'.pending, w ∈ s.pending ∨ (s.phase w.op).job? = some w.job := by
  intro w hw
  have hcast : ∀ {op : Nat} {job : Job P}, (s.phase op).job? = some job →
      w ∈ s.worker.toList ++ (s.queue ++ [⟨op, job⟩]) →
        w ∈ s.pending ∨ (s.phase w.op).job? = some w.job := by
    intro op job hjob hmem
    rw [← List.append_assoc, List.mem_append, List.mem_singleton] at hmem
    rcases hmem with hmem | rfl
    · exact .inl hmem
    · exact .inr hjob
  cases hs with
  | submit hm hp => exact hcast (by rw [hp]; rfl) hw
  | submitLarge hm hp => exact hcast (by rw [hp]; rfl) hw
  | checkReaddir =>
    simp only [State.pending, State.setPhase, State.noteBit_worker, State.noteBit_queue] at hw
    exact .inl hw
  | @take w' queue hc hworker hq =>
    left
    rw [State.pending, hworker, hq]
    simp only [State.pending] at hw
    split at hw
    · exact hw
    · exact List.mem_cons_of_mem w' hw
  | work hc hworker hlog =>
    left
    rw [State.pending, hworker]
    exact List.mem_cons_of_mem _ hw
  | _ => exact .inl hw

section Holds

variable (Q : Nat → Job P → Prop)

structure State.Holds (s : State P) : Prop where
  phase : ∀ op job, (s.phase op).job? = some job → Q op job
  pending : ∀ w ∈ s.pending, Q w.op w.job

def Label.Builds (l : Label P) : Prop := ∀ op job, l = .build op (some job) → Q op job

variable {Q}

theorem Step.holds {s s' : State P} {l : Label P} (hs : Step s l s') (hl : l.Builds Q)
    (h : s.Holds Q) : s'.Holds Q where
  phase op job hjob := (hs.job? hjob).elim (h.phase op job) (hl op job)
  pending w hw := (hs.pending w hw).elim (h.pending w) (h.phase w.op w.job)

theorem start_holds (Q : Nat → Job P → Prop) : (State.start P).Holds Q where
  phase _ _ hjob := nomatch hjob
  pending _ hw := nomatch hw

end Holds

structure Entered (P : PageSize) where
  op : Nat
  job : Job P
  id : BitVec 32

namespace Entered

def record (x : Entered P) : Record := x.job.record.withId x.id

def segments (x : Entered P) : List Segment :=
  if x.record.HeaderOnly then [.header x.op x.record, .data x.op x.job.buf]
  else [.whole x.op x.record]

theorem segments_bytes (x : Entered P) :
    x.segments.flatMap Segment.bytes = x.record.written x.job.buf := by
  unfold segments Record.written
  split <;> simp [Segment.bytes]

theorem segments_ops (x : Entered P) : x.segments.filterMap Segment.recordOp? = [x.op] := by
  unfold segments
  split <;> rfl

end Entered

structure State.EnteredAs (Q : Nat → Job P → Prop) (s : State P) (t : Parsed)
    (xs : List (Entered P)) : Prop where
  reads : s.Reads t
  log : s.ledger.log = xs.flatMap Entered.segments ++
    t.awaiting.toList.map fun a => .header a.1 a.2
  entered : ∀ x ∈ xs, Q x.op x.job

/-- The data of a large record is written as the caller's buffer was when the record was built. -/
def State.Intact (s : State P) : Label P → Prop
  | .writeLarge op found => ∀ job hl, s.phase op = .ready job hl → found.2.val = job.buf
  | _ => True

theorem State.emits_cases {Q : Nat → Job P → Prop} {s : State P} (h : s.Holds Q) {l : Label P}
    (hi : s.Intact l) :
    s.emits l = [] ∨ (∃ op job, Q op job ∧ s.emits l = [s.segment op job.record]) ∨
      ∃ op job hl, s.phase op = .ready job hl ∧ s.emits l = [.data op job.buf] := by
  cases l with
  | work =>
    cases hw : s.worker with
    | none => exact .inl (by simp [emits, hw])
    | some w =>
      by_cases hsig : w.job.record.flushBufferSig = 1
      · exact .inl (by simp [emits, hw, hsig])
      · have hQ := h.pending w (by simp [State.pending, hw])
        refine .inr (.inl ⟨w.op, w.job, hQ, ?_⟩)
        simp only [emits, hw]
        exact if_neg hsig
  | logReaddir op =>
    cases hp : s.phase op with
    | logging job hr =>
      have hQ := h.phase op job (by rw [hp]; rfl)
      exact .inr (.inl ⟨op, job, hQ, by simp [emits, hp]⟩)
    | _ => exact .inl (by simp [emits, hp])
  | writeLarge op found =>
    cases hp : s.phase op with
    | ready job hl =>
      refine .inr (.inr ⟨op, job, hl, hp, ?_⟩)
      simp only [emits, hp]
      rw [hi job hl hp]
    | _ => exact .inl (by simp [emits, hp])
  | _ => exact .inl rfl

theorem Step.enteredAs {Q : Nat → Job P → Prop} {s s' : State P} {l : Label P} {t : Parsed}
    {xs : List (Entered P)} (hs : Step s l s') (ht : s.Tracked) (hh : s.Holds Q)
    (h : s.EnteredAs Q t xs) (hk : s.KeepsWhole l) (hi : s.Intact l) :
    ∃ t' xs', s'.EnteredAs Q t' xs' := by
  obtain ⟨t', hreads⟩ := hs.reads ht h.reads hk
  have hlog := hs.log_eq
  have habsorb : run Parsed.absorb t (s.emits l) = some t' := by
    have hparse := hreads.log
    rw [hlog] at hparse
    obtain ⟨t₀, ht₀, hemit⟩ := run_append_eq_some.mp hparse
    cases h.reads.log.symm.trans ht₀
    exact hemit
  rcases State.emits_cases hh hi with hemit | ⟨op, job, hQ, hemit⟩ | ⟨op, job, hl, hp, hemit⟩
  · rw [hemit] at hlog habsorb
    cases habsorb
    exact ⟨t, xs, hreads, by rw [hlog, List.append_nil, h.log], h.entered⟩
  · simp only [hemit, run_cons_eq_some, Parsed.absorb_segment,
      Option.ite_none_right_eq_some] at habsorb
    obtain ⟨t₁, ⟨hnone, ht₁⟩, ht'⟩ := habsorb
    cases ht'
    have hbefore := h.log
    rw [hnone, Option.toList_none, List.map_nil, List.append_nil] at hbefore
    rw [hemit, hbefore] at hlog
    by_cases hheader : job.record.HeaderOnly
    · rw [if_pos hheader] at ht₁
      cases ht₁
      refine ⟨_, xs, hreads, ?_, h.entered⟩
      rw [hlog, State.segment, if_pos hheader]
      rfl
    · rw [if_neg hheader] at ht₁
      cases ht₁
      refine ⟨_, xs ++ [⟨op, job, s.sb.lastId⟩], hreads, ?_, ?_⟩
      · have hsegments : Entered.segments ⟨op, job, s.sb.lastId⟩ =
            [.whole op (job.record.withId s.sb.lastId)] := if_neg hheader
        rw [hlog, State.segment, if_neg hheader, List.flatMap_append, List.flatMap_singleton,
          hsegments, Option.toList_none, List.map_nil, List.append_nil]
      · exact List.forall_mem_append.mpr ⟨h.entered, List.forall_mem_singleton.mpr hQ⟩
  · simp only [hemit, run_cons_eq_some, Parsed.absorb] at habsorb
    obtain ⟨t₁, hdata, ht'⟩ := habsorb
    cases ht'
    split at hdata
    · cases hdata
    · rename_i op' r hsome
      obtain ⟨⟨rfl, -⟩, ht₁⟩ := Option.ite_none_right_eq_some.mp hdata
      cases ht₁
      obtain ⟨job', haw⟩ := h.reads.awaited op' r hsome
      have hjob := haw.waits
      rw [hp] at hjob
      cases show job = job' from hjob
      obtain ⟨i, hi⟩ := h.reads.awaiting op' job haw
      cases hsome.symm.trans hi
      refine ⟨_, xs ++ [⟨op', job, i⟩], hreads, ?_, ?_⟩
      · have hsegments : Entered.segments ⟨op', job, i⟩ =
            [.header op' (job.record.withId i), .data op' job.buf] :=
          if_pos ((Job.headerOnly_iff job).mpr hl)
        rw [hlog, hemit, h.log, hsome, List.flatMap_append, List.flatMap_singleton, hsegments]
        simp
      · have hQ := hh.phase op' job (by rw [hp]; rfl)
        exact List.forall_mem_append.mpr ⟨h.entered, List.forall_mem_singleton.mpr hQ⟩

theorem start_enteredAs (Q : Nat → Job P → Prop) : (State.start P).EnteredAs Q .empty [] where
  reads := start_reads P
  log := rfl
  entered _ hx := nomatch hx

/-- Data is written to the file past the buffer. -/
def Ledger.BuffersRecords (l : Ledger) : Prop := ∀ g ∈ l.buffered, g.recordOp?.isSome

theorem State.ledgerAfter_buffersRecords {s : State P} (h : s.ledger.BuffersRecords) (op : Nat)
    (r : Record) : (s.ledgerAfter op r).BuffersRecords := by
  have hflush : s.ledger.flush.BuffersRecords := fun _ hg => nomatch hg
  by_cases hsig : r.flushBufferSig = 1
  · rw [s.ledgerAfter_flush op hsig]
    exact hflush
  · have hroom : (if s.sb.trInfo.WouldFill r then s.ledger.flush else s.ledger).BuffersRecords := by
      split
      · exact hflush
      · exact h
    have hsegment : (s.segment op r).recordOp?.isSome := by
      unfold State.segment
      split <;> rfl
    rw [s.ledgerAfter_append op hsig]
    exact List.forall_mem_append.mpr ⟨hroom, List.forall_mem_singleton.mpr hsegment⟩

theorem Step.buffersRecords {s s' : State P} {l : Label P} (hs : Step s l s')
    (h : s.ledger.BuffersRecords) : s'.ledger.BuffersRecords := by
  cases hs with
  | checkReaddir | take => simpa [State.setPhase] using h
  | logReaddir hm hp hlog => exact State.ledgerAfter_buffersRecords h _ _
  | work hc hw hlog => exact State.ledgerAfter_buffersRecords h _ _
  | tick hu hlog => exact State.ledgerAfter_buffersRecords h _ _
  | writeLarge | finalWrite => exact List.forall_mem_nil _
  | _ => exact h

theorem filed_of_entered {xs : List (Entered P)} {tail filed buffered : List Segment}
    (htail : tail.length ≤ 1) (h : filed ++ buffered = xs.flatMap Entered.segments ++ tail)
    (hb : ∀ g ∈ buffered, g.recordOp?.isSome) :
    ∃ ys, ys <+: xs ∧
      filed = ys.flatMap Entered.segments ++ (if buffered = [] then tail else []) := by
  induction xs generalizing filed with
  | nil =>
    refine ⟨[], List.prefix_rfl, ?_⟩
    rw [List.flatMap_nil, List.nil_append] at h ⊢
    split
    case isTrue hempty => rw [← h, hempty, List.append_nil]
    case isFalse hne =>
      have hlen := congrArg List.length h
      have hpos := List.length_pos_iff.mpr hne
      rw [List.length_append] at hlen
      exact List.length_eq_zero_iff.mp (by omega)
  | cons x xs ih =>
    rw [List.flatMap_cons, List.append_assoc] at h
    have hnext : ∀ filed', filed' ++ buffered = xs.flatMap Entered.segments ++ tail →
        filed = x.segments ++ filed' → ∃ ys, ys <+: x :: xs ∧
          filed = ys.flatMap Entered.segments ++ (if buffered = [] then tail else []) := by
      rintro filed' h' rfl
      obtain ⟨ys, hys, hfiled⟩ := ih h'
      refine ⟨x :: ys, (List.cons_prefix_cons).mpr ⟨rfl, hys⟩, ?_⟩
      rw [hfiled, List.flatMap_cons, List.append_assoc]
    cases filed with
    | nil =>
      have hne : buffered ≠ [] := by
        rintro rfl
        have hlen := congrArg List.length h
        unfold Entered.segments at hlen
        split at hlen <;> simp at hlen
      exact ⟨[], List.nil_prefix, by simp [hne]⟩
    | cons g filed =>
      by_cases hheader : x.record.HeaderOnly
      · have hsegments : x.segments = [.header x.op x.record, .data x.op x.job.buf] :=
          if_pos hheader
        rw [hsegments] at h hnext
        cases filed with
        | nil =>
          simp only [List.cons_append, List.nil_append, List.cons.injEq] at h
          have hmem : Segment.data x.op x.job.buf ∈ buffered := by
            rw [h.2]
            exact List.mem_cons_self
          exact absurd (hb _ hmem) (by simp [Segment.recordOp?])
        | cons g' filed =>
          simp only [List.cons_append, List.nil_append, List.cons.injEq] at h
          obtain ⟨rfl, rfl, h⟩ := h
          exact hnext filed h rfl
      · have hsegments : x.segments = [.whole x.op x.record] := if_neg hheader
        rw [hsegments] at h hnext
        simp only [List.cons_append, List.nil_append, List.cons.injEq] at h
        obtain ⟨rfl, h⟩ := h
        exact hnext filed h rfl

theorem Record.emitted_length (r : Record) : 17 ≤ r.emitted.length := by
  have hcommon : r.encCommon.length = 17 := by simp [Record.encCommon]
  have hlong : ∀ cs : List Copy, 17 ≤ (copyBytes (logRecordCommon r ++ cs)).length := by
    intro cs
    rw [copyBytes_append, copyBytes_common, List.length_append, hcommon]
    omega
  unfold Record.emitted syncCopies
  split
  · exact hlong _
  · split
    · exact hlong _
    · exact Nat.le_of_eq (by rw [copyBytes_common, hcommon])

theorem TraceInfo.pending_length {t : TraceInfo P} (h : t.InBounds) :
    t.pending.length = t.bufferOffset.toNat := by
  rw [TraceInfo.pending, List.length_take, t.buffer.length_eq]
  exact Nat.min_eq_left (Nat.le_of_lt h)

theorem Ledger.Describes.buffered_eq_nil_iff {l : Ledger} {t : TraceInfo P} (h : l.Describes t)
    (hb : l.BuffersRecords) : l.buffered = [] ↔ t.bufferOffset = 0 := by
  have hoffset := TraceInfo.pending_length h.inBounds
  rw [h.buffered] at hoffset
  constructor
  · intro hempty
    rw [hempty] at hoffset
    exact BitVec.eq_of_toNat_eq hoffset.symm
  · intro hzero
    cases hl : l.buffered with
    | nil => rfl
    | cons g gs =>
      have hlong : 17 ≤ g.bytes.length := by
        have hg := hb g (by rw [hl]; exact List.mem_cons_self)
        cases g with
        | whole op r | header op r => exact r.emitted_length
        | data op buf => cases hg
      rw [hl, List.flatMap_cons, List.length_append, hzero] at hoffset
      have hnone : (0 : BitVec 32).toNat = 0 := rfl
      omega

/-- The trace file ends in the header of a large record whose data is not written yet. -/
def State.Torn (s : State P) : Prop := s.sb.trInfo.bufferOffset = 0 ∧ ∃ op job, s.Awaits op job

theorem Entered.segments_flatMap_bytes (xs : List (Entered P)) :
    (xs.flatMap Entered.segments).flatMap Segment.bytes =
      xs.flatMap fun x => x.record.written x.job.buf := by
  rw [List.flatMap_assoc]
  simp only [Entered.segments_bytes]

theorem Entered.segments_flatMap_ops (xs : List (Entered P)) :
    (xs.flatMap Entered.segments).filterMap Segment.recordOp? = xs.map Entered.op := by
  rw [List.filterMap_flatMap]
  simp only [Entered.segments_ops]
  exact List.flatMap_pure_eq_map ..

theorem filed_of_run {Q : Nat → Job P → Prop} {labels : List (Label P)} {s : State P}
    (hrun : run State.step (State.start P) labels = some s)
    (hkeeps : Along State.KeepsWhole State.step (State.start P) labels)
    (hintact : Along State.Intact State.step (State.start P) labels)
    (hQ : ∀ l ∈ labels, l.Builds Q) :
    ∃ xs : List (Entered P), (∀ x ∈ xs, Q x.op x.job) ∧
      (¬ s.Torn ∧ s.sb.trInfo.filp = (xs.flatMap fun x => x.record.written x.job.buf) ∧
          s.ledger.filedOps = xs.map Entered.op ∨
        s.Torn ∧ ∃ op job i, Q op job ∧ job.record.Large P ∧
          s.sb.trInfo.filp = (xs.flatMap fun x => x.record.written x.job.buf) ++
            (job.record.withId i).emitted) := by
  obtain ⟨hh, ht, hb, t, xs, hx⟩ := run_invariant_along
    (fun s => s.Holds Q ∧ s.Tracked ∧ s.ledger.BuffersRecords ∧ ∃ t xs, s.EnteredAs Q t xs)
    (fun s l => s.KeepsWhole l ∧ s.Intact l ∧ l.Builds Q)
    (fun s l s' hI hG hstep => by
      obtain ⟨hh, ht, hb, t, xs, hx⟩ := hI
      have hs := Step.of_step hstep
      exact ⟨hs.holds hG.2.2 hh, hs.tracked ht, hs.buffersRecords hb,
        hs.enteredAs ht hh hx hG.1 hG.2.1⟩)
    ⟨start_holds Q, start_tracked P, fun _ hg => (nomatch hg), .empty, [], start_enteredAs Q⟩
    (hkeeps.and (hintact.and ((along_iff_forall hrun).mpr hQ))) hrun
  have hdesc := describes_of_run hrun
  have hempty := hdesc.buffered_eq_nil_iff hb
  have htail : (t.awaiting.toList.map fun a => Segment.header a.1 a.2).length ≤ 1 := by
    cases t.awaiting <;> simp
  obtain ⟨ys, hys, hfiled⟩ := filed_of_entered htail hx.log hb
  have hentered : ∀ x ∈ ys, Q x.op x.job := fun x hmem => hx.entered x (hys.subset hmem)
  refine ⟨ys, hentered, ?_⟩
  by_cases htorn : s.Torn
  · right
    obtain ⟨hoffset, op, job, haw⟩ := htorn
    refine ⟨⟨hoffset, op, job, haw⟩, op, job, ?_⟩
    obtain ⟨i, hi⟩ := hx.reads.awaiting op job haw
    have hjob := haw.waits.job?
    have hlarge : job.record.Large P := by
      cases hp : s.phase op with
      | flushing job' hl | ready job' hl =>
        have hwaits := haw.waits
        rw [hp] at hwaits
        exact hwaits ▸ hl
      | _ =>
        have hwaits := haw.waits
        rw [hp] at hwaits
        exact hwaits.elim
    refine ⟨i, hh.phase op job hjob, hlarge, ?_⟩
    rw [hdesc.filed, hfiled, if_pos (hempty.mpr hoffset), hi, List.flatMap_append,
      Entered.segments_flatMap_bytes]
    simp [Segment.bytes]
  · left
    have hno : (if s.ledger.buffered = [] then
        t.awaiting.toList.map fun a => Segment.header a.1 a.2 else []) = [] := by
      split
      case isFalse => rfl
      case isTrue hb =>
        have hnone : t.awaiting = none := hx.reads.awaiting_eq_none_iff.mpr fun op job haw =>
          htorn ⟨hempty.mp hb, op, job, haw⟩
        rw [hnone]
        rfl
    rw [hno, List.append_nil] at hfiled
    refine ⟨htorn, ?_, ?_⟩
    · rw [hdesc.filed, hfiled, Entered.segments_flatMap_bytes]
    · rw [Ledger.filedOps, hfiled, Entered.segments_flatMap_ops]

theorem intact_of_found {Q : Nat → Job P → Prop} {labels : List (Label P)} {s : State P}
    (hrun : run State.step (State.start P) labels = some s) (hQ : ∀ l ∈ labels, l.Builds Q)
    (hfound : ∀ op found, Label.writeLarge op found ∈ labels →
      ∀ job, Q op job → found.2.val = job.buf) :
    Along State.Intact State.step (State.start P) labels := by
  have hall : Along (fun _ l => l.Builds Q ∧ l ∈ labels) State.step (State.start P) labels :=
    (along_iff_forall hrun).mpr fun l hl => ⟨hQ l hl, hl⟩
  have hboth : Along (fun s l => (l.Builds Q ∧ l ∈ labels) ∧ s.Intact l) State.step
      (State.start P) labels := by
    refine (along_congr_of_kept (State.Holds Q)
      (fun s l s' h hl hstep => (Step.of_step hstep).holds hl.1 h) ?_ (start_holds Q)).mp hall
    refine fun s l h => ⟨fun hl => ⟨hl, ?_⟩, And.left⟩
    cases l with
    | writeLarge op found =>
      intro job hlarge hphase
      exact hfound op found hl.2 job (h.phase op job (by rw [hphase]; rfl))
    | _ => trivial
  exact hboth.mono fun _ _ h => h.2

theorem keepsWhole_of_parsed {labels : List (Label P)} {s : State P} {t : Parsed}
    (hrun : run State.step (State.start P) labels = some s)
    (ht : run Parsed.absorb .empty s.ledger.log = some t) :
    Along State.KeepsWhole State.step (State.start P) labels := by
  refine (run_holds_iff_along (Q := fun s => ∃ t, run Parsed.absorb .empty s.ledger.log = some t)
    (fun s => s.Tracked ∧ ∃ t, s.Reads t) ?_ ?_ ?_ hrun).mp ?_
  · rintro s ⟨-, t, h⟩
    exact ⟨t, h.log⟩
  · rintro s l s' ⟨htracked, t, h⟩ hstep
    have hs := Step.of_step hstep
    exact ⟨fun hk => ⟨hs.tracked htracked, hs.reads htracked h hk⟩,
      fun ⟨t', ht'⟩ => hs.keepsWhole h ht'⟩
  · exact ⟨start_tracked P, .empty, start_reads P⟩
  · intro pre post u hpre hu
    rw [hpre] at hrun
    obtain ⟨u', hu', hpost⟩ := run_append_eq_some.mp hrun
    cases hu.symm.trans hu'
    have hgrows := run_invariant (fun s' => u.ledger.log <+: s'.ledger.log)
      (fun s₁ l s₂ h hstep => h.trans ((Step.of_step hstep).log_eq ▸ List.prefix_append _ _))
      List.prefix_rfl hpost
    obtain ⟨rest, hrest⟩ := hgrows
    rw [← hrest] at ht
    obtain ⟨t', ht', -⟩ := run_append_eq_some.mp ht
    exact ⟨t', ht'⟩

namespace State.Accounted

variable {s : State P}

theorem filedOps_nodup (h : s.Accounted) : s.ledger.filedOps.Nodup := by
  have hlogged := (List.nodup_append.mp h.tracked.nodup).1
  rw [s.ledger.logged_eq] at hlogged
  exact (List.nodup_append.mp hlogged).1

theorem filed (h : s.Accounted) (hclosed : s.umount = .closed) {op : Nat} (hop : op ∈ s.submitted)
    (ht : s.Traced op) : op ∈ s.ledger.filedOps := by
  have hsettled := h.settled (.inr hclosed)
  rcases hsettled.submitted op hop with hunset | hfiled | ⟨w, hw, rfl⟩
  · exact absurd hunset ht.1
  · exact hfiled
  · have hset := ht.2 w (List.mem_append_right _ hw) rfl
    rw [hsettled.queue w hw] at hset
    cases hset

theorem not_awaits (h : s.Accounted) (hclosed : s.umount = .closed) {op : Nat} {job : Job P} :
    ¬ s.Awaits op job := by
  intro haw
  have hwaits := haw.waits
  have hactive := h.quiet (by simp [hclosed])
  rcases h.counted op with hidle | hret | hop
  · rw [hidle] at hwaits
    exact hwaits
  · rw [hret] at hwaits
    exact hwaits
  · rw [hactive] at hop
    cases hop

end State.Accounted

end TraceFS.Trfs
