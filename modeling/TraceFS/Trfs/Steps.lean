import TraceFS.Trfs.System

namespace TraceFS.Trfs

open TraceFS.Lib TraceFS.Linux

variable {P : PageSize}

inductive Step (s : State P) : Label P → State P → Prop where
  | invoke {op} (hm : s.umount = .mounted) (hp : s.phase op = .idle) :
    Step s (.invoke op) { s.setPhase op .invoked with
      active := op :: s.active
      before := Function.update s.before op s.returned }
  | build {op job} (hm : s.umount = .mounted) (hp : s.phase op = .invoked) :
    Step s (.build op (some job)) (s.setPhase op (.built job))
  | giveUp {op} (hm : s.umount = .mounted) (hp : s.phase op = .invoked) :
    Step s (.build op none) (s.setPhase op .done)
  | submit {op job} (hm : s.umount = .mounted) (hp : s.phase op = .built job)
      (hr : job.type ≠ .readdir) (hl : ¬ job.record.Large P) :
    Step s (.submit op) { s.setPhase op .done with
      eWq := true
      queue := s.queue ++ [⟨op, job⟩]
      submitted := op :: s.submitted }
  | checkLarge {op job} (hm : s.umount = .mounted) (hp : s.phase op = .built job)
      (hl : job.record.Large P) (hbit : checkBit s.sb.trInfo.bitmap job.record.type = true) :
    Step s (.checkLarge op) (s.setPhase op (.checked job hl))
  | skipLarge {op job} (hm : s.umount = .mounted) (hp : s.phase op = .built job)
      (hl : job.record.Large P) (hbit : checkBit s.sb.trInfo.bitmap job.record.type = false) :
    Step s (.checkLarge op) (s.setPhase op .done)
  | submitLarge {op job hl} (hm : s.umount = .mounted) (hp : s.phase op = .checked job hl) :
    Step s (.submitLarge op) { s.setPhase op (.flushing job hl) with
      eWq := true
      queue := s.queue ++ [⟨op, job⟩]
      submitted := op :: s.submitted }
  | drop {op job} (hm : s.umount = .mounted) (he : s.eWq = false) (hp : s.phase op = .built job)
      (hr : job.type ≠ .readdir) (hl : ¬ job.record.Large P) :
    Step s (.drop op) { s.setPhase op .done with submitted := op :: s.submitted }
  | dropLarge {op job hl} (hm : s.umount = .mounted) (he : s.eWq = false)
      (hp : s.phase op = .checked job hl) :
    Step s (.drop op) { s.setPhase op .done with submitted := op :: s.submitted }
  | flushed {op job hl} (hm : s.umount = .mounted) (hp : s.phase op = .flushing job hl)
      (hdone : ∀ w ∈ s.pending, w.op ≠ op) :
    Step s (.flushed op) (s.setPhase op (.ready job hl))
  | writeLarge {op found job hl} (hm : s.umount = .mounted) (hp : s.phase op = .ready job hl) :
    Step s (.writeLarge op found) { s.setPhase op .done with
      sb := Trfs.writeLarge s.sb found.2.val found.1 .all .all
      ledger := s.ledger.write (.data op found.2.val) }
  | checkReaddir {op job} (hm : s.umount = .mounted) (hp : s.phase op = .built job)
      (hr : job.type = .readdir) :
    Step s (.checkReaddir op) { (s.noteBit op job.record).setPhase op
        (if (s.noteBit op job.record).Passes job.record then .logging job hr else .done) with
      submitted := op :: (s.noteBit op job.record).submitted }
  | logReaddir {op job hr sb} (hm : s.umount = .mounted) (hp : s.phase op = .logging job hr)
      (hlog : logLocked s.sb job.record .all = .ok sb) :
    Step s (.logReaddir op) { s.setPhase op .done with
      sb := sb
      ledger := s.ledgerAfter op job.record }
  | ret {op} (hm : s.umount = .mounted) (hp : s.phase op = .done) :
    Step s (.ret op) { s.setPhase op .returned with
      active := s.active.erase op
      returned := op :: s.returned }
  | ioctl {cmd} (hm : s.umount = .mounted) :
    Step s (.ioctl cmd) { s with sb := ioctlBitmap s.sb cmd }
  | take {w queue} (hc : s.umount ≠ .closed) (hw : s.worker = none) (hq : s.queue = w :: queue) :
    Step s .take { s.noteBit w.op w.job.record with
      queue := queue
      worker := if (s.noteBit w.op w.job.record).Passes w.job.record then some w else none }
  | work {w sb} (hc : s.umount ≠ .closed) (hw : s.worker = some w)
      (hlog : logLocked s.sb w.job.record .all = .ok sb) :
    Step s .work { s with
      worker := none
      sb := sb
      ledger := s.ledgerAfter w.op w.job.record }
  | tick {sb} (hu : s.umount = .mounted ∨ s.umount = .begun)
      (hlog : logLocked s.sb flushRequest .all = .ok sb) :
    Step s .tick { s with sb := sb, ledger := s.ledgerAfter 0 flushRequest }
  | umount (hm : s.umount = .mounted) (ha : s.active = []) :
    Step s .umount { s with umount := .begun }
  | stop (hu : s.umount = .begun) : Step s .stop { s with umount := .stopped }
  | finalWrite (hu : s.umount = .stopped) :
    Step s .finalWrite { s with
      umount := .written
      sb := umountFlush s.sb .all
      ledger := s.ledger.flush }
  | close (hu : s.umount = .written) : Step s .close { s with umount := .closed }

namespace State

variable (s : State P) (op : Nat) (r : Record)

theorem noteBit_eq : s.noteBit op r =
    { s with unset := if checkBit s.sb.trInfo.bitmap r.type then s.unset else op :: s.unset } := by
  unfold noteBit
  split <;> rfl

@[simp] theorem noteBit_sb : (s.noteBit op r).sb = s.sb := by rw [noteBit_eq]

@[simp] theorem noteBit_eWq : (s.noteBit op r).eWq = s.eWq := by rw [noteBit_eq]

@[simp] theorem noteBit_queue : (s.noteBit op r).queue = s.queue := by rw [noteBit_eq]

@[simp] theorem noteBit_worker : (s.noteBit op r).worker = s.worker := by rw [noteBit_eq]

@[simp] theorem noteBit_phase : (s.noteBit op r).phase = s.phase := by rw [noteBit_eq]

@[simp] theorem noteBit_umount : (s.noteBit op r).umount = s.umount := by rw [noteBit_eq]

@[simp] theorem noteBit_active : (s.noteBit op r).active = s.active := by rw [noteBit_eq]

@[simp] theorem noteBit_returned : (s.noteBit op r).returned = s.returned := by rw [noteBit_eq]

@[simp] theorem noteBit_before : (s.noteBit op r).before = s.before := by rw [noteBit_eq]

@[simp] theorem noteBit_submitted : (s.noteBit op r).submitted = s.submitted := by rw [noteBit_eq]

@[simp] theorem noteBit_ledger : (s.noteBit op r).ledger = s.ledger := by rw [noteBit_eq]

end State

theorem State.log_eq_some {s s' : State P} {op : Nat} {r : Record} (h : s.log op r = some s') :
    ∃ sb, logLocked s.sb r .all = .ok sb ∧
      s' = { s with sb := sb, ledger := s.ledgerAfter op r } := by
  unfold State.log at h
  split at h
  · cases h
  · cases h
    exact ⟨_, ‹_›, rfl⟩

theorem Step.of_clientStep {s s' : State P} {l : Label P} (hm : s.umount = .mounted)
    (h : s.clientStep l = some s') : Step s l s' := by
  cases l with
  | invoke op =>
    simp only [State.clientStep] at h
    split at h <;> cases h
    exact .invoke hm ‹_›
  | build op job =>
    simp only [State.clientStep] at h
    split at h <;> cases h
    cases job with
    | none => exact .giveUp hm ‹_›
    | some job => exact .build hm ‹_›
  | submit op =>
    simp only [State.clientStep] at h
    split at h
    · obtain ⟨hno, heq⟩ := Option.ite_none_left_eq_some.mp h
      cases heq
      exact .submit hm ‹_› (fun hr => hno (.inl hr)) (fun hl => hno (.inr hl))
    · cases h
  | checkLarge op =>
    simp only [State.clientStep] at h
    split at h
    · split at h
      · split at h <;> cases h
        · exact .checkLarge hm ‹_› ‹_› ‹_›
        · exact .skipLarge hm ‹_› ‹_› (Bool.eq_false_iff.mpr ‹_›)
      · cases h
    · cases h
  | submitLarge op =>
    simp only [State.clientStep] at h
    split at h <;> cases h
    exact .submitLarge hm ‹_›
  | drop op =>
    simp only [State.clientStep] at h
    obtain ⟨he, h⟩ := Option.ite_none_left_eq_some.mp h
    split at h
    · obtain ⟨hno, heq⟩ := Option.ite_none_left_eq_some.mp h
      cases heq
      exact .drop hm (Bool.eq_false_iff.mpr he) ‹_› (fun hr => hno (.inl hr))
        (fun hl => hno (.inr hl))
    · cases h
      exact .dropLarge hm (Bool.eq_false_iff.mpr he) ‹_›
    · cases h
  | flushed op =>
    simp only [State.clientStep] at h
    split at h
    · obtain ⟨hdone, heq⟩ := Option.ite_none_right_eq_some.mp h
      cases heq
      exact .flushed hm ‹_› hdone
    · cases h
  | writeLarge op found =>
    simp only [State.clientStep] at h
    split at h <;> cases h
    exact .writeLarge hm ‹_›
  | checkReaddir op =>
    simp only [State.clientStep] at h
    split at h
    · split at h <;> cases h
      exact .checkReaddir hm ‹_› ‹_›
    · cases h
  | logReaddir op =>
    simp only [State.clientStep] at h
    split at h
    · obtain ⟨sb, hlog, rfl⟩ := State.log_eq_some h
      exact .logReaddir hm ‹_› hlog
    · cases h
  | ret op =>
    simp only [State.clientStep] at h
    split at h <;> cases h
    exact .ret hm ‹_›
  | ioctl cmd =>
    cases h
    exact .ioctl hm
  | take | work | tick | umount | stop | finalWrite | close => cases h

theorem Step.of_systemStep {s s' : State P} {l : Label P} (hc : s.umount ≠ .closed)
    (h : s.systemStep l = some s') : Step s l s' := by
  cases l with
  | take =>
    simp only [State.systemStep] at h
    split at h <;> cases h
    exact .take hc ‹_› ‹_›
  | work =>
    simp only [State.systemStep] at h
    split at h
    · obtain ⟨sb, hlog, rfl⟩ := State.log_eq_some h
      exact .work hc ‹_› hlog
    · cases h
  | tick =>
    obtain ⟨hu, htick⟩ := Option.ite_none_right_eq_some.mp h
    obtain ⟨sb, hlog, rfl⟩ := State.log_eq_some htick
    exact .tick hu hlog
  | umount =>
    obtain ⟨⟨hu, hactive⟩, heq⟩ := Option.ite_none_right_eq_some.mp h
    cases heq
    exact .umount hu hactive
  | stop =>
    obtain ⟨hu, heq⟩ := Option.ite_none_right_eq_some.mp h
    cases heq
    exact .stop hu
  | finalWrite =>
    obtain ⟨hu, heq⟩ := Option.ite_none_right_eq_some.mp h
    cases heq
    exact .finalWrite hu
  | close =>
    obtain ⟨hu, heq⟩ := Option.ite_none_right_eq_some.mp h
    cases heq
    exact .close hu
  | invoke | build | submit | checkLarge | submitLarge | drop | flushed | writeLarge
  | checkReaddir | logReaddir | ret | ioctl => cases h

theorem Step.of_step {s s' : State P} {l : Label P} (h : s.step l = some s') : Step s l s' := by
  cases l with
  | take | work | tick | umount | stop | finalWrite | close =>
    obtain ⟨hc, h⟩ := Option.ite_none_left_eq_some.mp h
    exact .of_systemStep hc h
  | _ =>
    obtain ⟨hm, h⟩ := Option.ite_none_right_eq_some.mp h
    exact .of_clientStep hm h

inductive Phase.Next (op : Nat) : Phase P → Label P → Phase P → Prop where
  | invoke : Next op .idle (.invoke op) .invoked
  | build {job} : Next op .invoked (.build op (some job)) (.built job)
  | giveUp : Next op .invoked (.build op none) .done
  | submit {job} : Next op (.built job) (.submit op) .done
  | checkLarge {job hl} : Next op (.built job) (.checkLarge op) (.checked job hl)
  | skipLarge {job} : Next op (.built job) (.checkLarge op) .done
  | submitLarge {job hl} : Next op (.checked job hl) (.submitLarge op) (.flushing job hl)
  | drop {job} : Next op (.built job) (.drop op) .done
  | dropLarge {job hl} : Next op (.checked job hl) (.drop op) .done
  | flushed {job hl} : Next op (.flushing job hl) (.flushed op) (.ready job hl)
  | writeLarge {job hl found} : Next op (.ready job hl) (.writeLarge op found) .done
  | checkReaddir {job hr} : Next op (.built job) (.checkReaddir op) (.logging job hr)
  | skipReaddir {job} : Next op (.built job) (.checkReaddir op) .done
  | logReaddir {job hr} : Next op (.logging job hr) (.logReaddir op) .done
  | ret : Next op .done (.ret op) .returned

namespace Phase.Next

variable {op : Nat} {l : Label P} {p : Phase P} {job : Job P}

theorem of_idle (h : Next op .idle l p) : l = .invoke op := by
  cases h
  rfl

theorem of_logging {hr : job.type = .readdir} (h : Next op (.logging job hr) l p) :
    l = .logReaddir op := by
  cases h
  rfl

theorem of_ready {hl : job.record.Large P} (h : Next op (.ready job hl) l p) :
    ∃ found, l = .writeLarge op found := by
  cases h
  exact ⟨_, rfl⟩

end Phase.Next

theorem Step.phase {s s' : State P} {l : Label P} (hs : Step s l s') (op : Nat) :
    s'.phase op = s.phase op ∨ Phase.Next op (s.phase op) l (s'.phase op) := by
  have hmove : ∀ {op' : Nat} {p p' : Phase P} {l : Label P}, s.phase op' = p →
      Phase.Next op' p l p' → Function.update s.phase op' p' op = s.phase op ∨
        Phase.Next op (s.phase op) l (Function.update s.phase op' p' op) := by
    rintro op' p p' l rfl hnext
    by_cases hop : op = op'
    · subst hop
      rw [Function.update_self]
      exact .inr hnext
    · exact .inl (Function.update_of_ne hop _ _)
  cases hs with
  | invoke hm hp => exact hmove hp .invoke
  | build hm hp => exact hmove hp .build
  | giveUp hm hp => exact hmove hp .giveUp
  | submit hm hp hr hl => exact hmove hp .submit
  | checkLarge hm hp hl hbit => exact hmove hp .checkLarge
  | skipLarge hm hp hl hbit => exact hmove hp .skipLarge
  | submitLarge hm hp => exact hmove hp .submitLarge
  | drop hm he hp => exact hmove hp .drop
  | dropLarge hm he hp => exact hmove hp .dropLarge
  | flushed hm hp hdone => exact hmove hp .flushed
  | writeLarge hm hp => exact hmove hp .writeLarge
  | checkReaddir hm hp hr =>
    simp only [State.setPhase, State.noteBit_phase]
    split
    · exact hmove hp .checkReaddir
    · exact hmove hp .skipReaddir
  | logReaddir hm hp hlog => exact hmove hp .logReaddir
  | ret hm hp => exact hmove hp .ret
  | take hc hw hq => simp
  | work | tick | umount | stop | finalWrite | close | ioctl => exact .inl rfl

theorem Step.umount_cases {s s' : State P} {l : Label P} (hs : Step s l s') :
    s'.umount = s.umount ∨ (l = .umount ∧ s.umount = .mounted ∧ s'.umount = .begun) ∨
      (l = .stop ∧ s.umount = .begun ∧ s'.umount = .stopped) ∨
      (l = .finalWrite ∧ s.umount = .stopped ∧ s'.umount = .written) ∨
      (l = .close ∧ s.umount = .written ∧ s'.umount = .closed) := by
  cases hs with
  | umount hm => exact .inr (.inl ⟨rfl, hm, rfl⟩)
  | stop hu => exact .inr (.inr (.inl ⟨rfl, hu, rfl⟩))
  | finalWrite hu => exact .inr (.inr (.inr (.inl ⟨rfl, hu, rfl⟩)))
  | close hu => exact .inr (.inr (.inr (.inr ⟨rfl, hu, rfl⟩)))
  | checkReaddir | take => simp [State.setPhase]
  | _ => exact .inl rfl

theorem Step.returned_stays {s s' : State P} {l : Label P} (hs : Step s l s') {op : Nat}
    (hop : s.phase op = .returned) : s'.phase op = .returned := by
  rcases hs.phase op with heq | hnext
  · rw [heq, hop]
  · rw [hop] at hnext
    cases hnext

theorem State.logRecord_of_passes {s : State P} {r : Record} {sb : SbInfo P} (h : s.Passes r)
    (hlog : logLocked s.sb r .all = .ok sb) : logRecord s.sb r .all = .ok (sb, 0) := by
  have hno : ¬ (r.flushBufferSig ≠ 1 ∧ checkBit s.sb.trInfo.bitmap r.type = false) := by
    rintro ⟨hsig, hbit⟩
    rcases h with h | h
    · exact hsig h
    · rw [hbit] at h
      cases h
  rw [logRecord_eq_logLocked, if_neg hno, hlog]
  rfl

theorem State.logRecord_of_not_passes {s : State P} {r : Record} (h : ¬ s.Passes r) :
    logRecord s.sb r .all = .ok (s.sb, -1) := by
  obtain ⟨hsig, hbit⟩ := not_or.mp h
  exact logRecord_untraced .all hsig (Bool.eq_false_iff.mpr hbit)

/-- What the worker does with an item in its two steps is `log_record`, if nothing comes between. -/
theorem Step.take_logRecord {s s₁ : State P} (hs : Step s .take s₁) :
    ∃ w, s.queue.head? = some w ∧
      (s₁.worker = none → logRecord s.sb w.job.record .all = .ok (s₁.sb, -1)) ∧
      ∀ s₂, Step s₁ .work s₂ → logRecord s.sb w.job.record .all = .ok (s₂.sb, 0) := by
  cases hs with
  | @take w queue hc hw hq =>
    have hsb := s.noteBit_sb w.op w.job.record
    refine ⟨w, by rw [hq, List.head?_cons], ?_, ?_⟩
    · intro hnone
      have hno : ¬ (s.noteBit w.op w.job.record).Passes w.job.record := by simpa using hnone
      simpa [hsb] using State.logRecord_of_not_passes hno
    · intro s₂ hs₂
      cases hs₂ with
      | @work w' sb hc' hw' hlog =>
        obtain ⟨hpass, heq⟩ := Option.ite_none_right_eq_some.mp hw'
        cases heq
        have hok := State.logRecord_of_passes hpass hlog
        rwa [hsb] at hok

/-- What `trfs_readdir` does in its two steps is `log_record`, if nothing comes between. -/
theorem Step.checkReaddir_logRecord {s s₁ s₂ : State P} {op : Nat}
    (hs₁ : Step s (.checkReaddir op) s₁) (hs₂ : Step s₁ (.logReaddir op) s₂) :
    ∃ job, s.phase op = .built job ∧ logRecord s.sb job.record .all = .ok (s₂.sb, 0) := by
  cases hs₁ with
  | @checkReaddir _ job hm hp hr =>
    refine ⟨job, hp, ?_⟩
    cases hs₂ with
    | @logReaddir _ job' hr' sb hm' hp' hlog =>
      have hphase : (if (s.noteBit op job.record).Passes job.record then Phase.logging job hr
          else .done) = .logging job' hr' := by simpa [State.setPhase] using hp'
      split at hphase
      · cases hphase
        have hok := State.logRecord_of_passes (s := s.noteBit op job.record) ‹_› hlog
        rwa [s.noteBit_sb op job.record] at hok
      · cases hphase

end TraceFS.Trfs
