import TraceFS.Trfs.Locking

universe u

namespace TraceFS.Trfs

open TraceFS.Lib TraceFS.Linux

variable {P : PageSize}

/-- All records can be copied but those of opens that had no memory for the path. -/
theorem Call.submitted_copyable {σ : Type u} {K : Kernel σ} {T : Tracing} {call : Call} {s : σ}
    {e : Exit σ} (he : call.trfs K T P s = .ok e)
    (hpath : call.logType = .open_ → T.pathAlloc = true) :
    ∀ sub ∈ e.submitted, sub.record.Copyable := by
  intro sub hsub
  exact .inr ((call.submitted_sound he sub hsub).built hpath).readable

namespace Synced

variable {c : Synced P}

theorem Kept.mounted (h : c.Kept) (op : Nat) (hidle : c.1.phase op ≠ .idle)
    (hreturned : c.1.phase op ≠ .returned) : c.1.umount = .mounted := by
  by_contra hno
  have hactive := ((h.counted op).resolve_left hidle).resolve_left hreturned
  rw [h.quiet hno] at hactive
  cases hactive

structure Sound (c : Synced P) : Prop where
  kept : c.Kept
  describes : c.1.ledger.Describes c.1.sb.trInfo
  worker : c.2.mutex = some .worker → ∀ w ∈ c.1.worker, w.job.record.Copyable
  client : ∀ op, c.2.mutex = some (.client op) → ∀ job hr, c.1.phase op = .logging job hr →
    job.record.Copyable
  oopsed : ∀ op ∈ c.2.oopsed, ¬ c.Holds op

theorem start_sound (P : PageSize) : (Synced.start P).Sound where
  kept := start_kept P
  describes := start_describes P
  worker h := by cases h
  client _ h := by cases h
  oopsed _ h := by cases h

section Step

variable {c' : Synced P} {s' : State P} {l : Label P} {a : Label P ⊕ SyncLabel}

theorem worker_stays {e' : Sync} (hs : Step c.1 l s') (hsee : Sync.see c.1 c.2 l = some e')
    (hmutex : c.2.mutex = some .worker) {w : Work P} (hw : w ∈ s'.worker) : w ∈ c.1.worker := by
  cases hs with
  | take => exact absurd hmutex (Option.ite_none_right_eq_some.mp hsee).1
  | work => cases hw
  | checkReaddir => simpa [State.setPhase] using hw
  | _ => exact hw

theorem Kept.logging_stays (h : c.Kept) (hs : Step c.1 l s') {op : Nat}
    (hmutex : c.2.mutex = some (.client op)) {job : Job P} {hr : job.type = .readdir}
    (hp : s'.phase op = .logging job hr) : c.1.phase op = .logging job hr := by
  rcases hs.phase op with heq | hnext
  · rw [← heq, hp]
  · rw [hp] at hnext
    have hphase := h.client op hmutex
    generalize c.1.phase op = p at hnext hphase
    cases hnext
    exact hphase.elim False.elim False.elim

theorem act_oopsed {e' : Sync} {l : SyncLabel} (hact : Sync.act c.1 c.2 l = some e') {op : Nat}
    (hop : op ∈ e'.oopsed) : op ∈ c.2.oopsed ∨ l = .oops op := by
  cases l with
  | oops op' =>
    cases (Option.ite_none_right_eq_some.mp hact).2
    rcases List.mem_cons.mp hop with rfl | hop
    · exact .inr rfl
    · exact .inl hop
  | begin_ =>
    obtain ⟨-, -, -, rfl⟩ := act_begin_cases hact
    exact .inl hop
  | lockRename =>
    obtain ⟨-, -, rfl⟩ := act_lockRename_cases hact
    exact .inl hop
  | lockDir =>
    obtain ⟨dir, dirs, -, -, rfl⟩ := act_lockDir_cases hact
    exact .inl hop
  | lock | unlock | unlockDirs | kzalloc | test | look | wake =>
    cases (Option.ite_none_right_eq_some.mp hact).2
    exact .inl hop

theorem act_holds {e' : Sync} {l : SyncLabel} (hact : Sync.act c.1 c.2 l = some e') {op : Nat}
    (hne : l.actor ≠ .client op) (hholds : Holds (c.1, e') op) : c.Holds op := by
  cases l with
  | lockRename op' =>
    obtain ⟨-, -, rfl⟩ := act_lockRename_cases hact
    refine hholds.imp_right fun hrenamer => absurd ?_ hne
    exact congrArg Actor.client (Option.some.inj hrenamer)
  | lockDir op' =>
    obtain ⟨dir, dirs, -, -, rfl⟩ := act_lockDir_cases hact
    have hop : op ≠ op' := by
      rintro rfl
      exact hne rfl
    simpa only [Holds, Function.update_of_ne hop] using hholds
  | unlockDirs op' =>
    cases (Option.ite_none_right_eq_some.mp hact).2
    have hop : op ≠ op' := by
      rintro rfl
      exact hne rfl
    simp only [Holds, Function.update_of_ne hop] at hholds
    exact hholds.imp_right fun hsome => (Option.ite_none_left_eq_some.mp hsome).2
  | begin_ =>
    obtain ⟨-, -, -, rfl⟩ := act_begin_cases hact
    exact hholds
  | lock | unlock | oops | kzalloc | test | look | wake =>
    cases (Option.ite_none_right_eq_some.mp hact).2
    exact hholds

theorem Sound.step (h : c.Sound) (hs : c.step a = some c') (hharmless : c.Harmless a) :
    c'.Sound := by
  obtain ⟨s', e'⟩ := c'
  have hkept := h.kept.step hs
  cases a with
  | inl l =>
    obtain ⟨-, hstep, hsee⟩ := step_inl.mp hs
    have hstep := Step.of_step hstep
    obtain ⟨-, hlocked, -, hrenamer, hoopsed, hmutex⟩ := see_frame (s := c.1) hsee
    refine ⟨hkept, hstep.describes h.describes, ?_, ?_, ?_⟩
    · intro hm w hw
      rw [hmutex] at hm
      exact h.worker hm w (worker_stays hstep hsee hm hw)
    · intro op hm job hr hp
      rw [hmutex] at hm
      exact h.client op hm job hr (h.kept.logging_stays hstep hm hp)
    · intro op hop
      rw [hoopsed] at hop
      rw [Holds, hlocked, hrenamer]
      exact h.oopsed op hop
  | inr l =>
    obtain ⟨halive, rfl, hact⟩ := step_inr.mp hs
    have hlocks : e'.mutex = c.2.mutex ∨ (∃ b, l = .lock b ∧ e'.mutex = some b) ∨
        e'.mutex = none := by
      cases l with
      | lock b =>
        cases (Option.ite_none_right_eq_some.mp hact).2
        exact .inr (.inl ⟨b, rfl, rfl⟩)
      | unlock b =>
        cases (Option.ite_none_right_eq_some.mp hact).2
        exact .inr (.inr rfl)
      | unlockDirs | oops | kzalloc | test | look | wake =>
        cases (Option.ite_none_right_eq_some.mp hact).2
        exact .inl rfl
      | begin_ =>
        obtain ⟨-, -, -, rfl⟩ := act_begin_cases hact
        exact .inl rfl
      | lockRename =>
        obtain ⟨-, -, rfl⟩ := act_lockRename_cases hact
        exact .inl rfl
      | lockDir =>
        obtain ⟨dir, dirs, -, -, rfl⟩ := act_lockDir_cases hact
        exact .inl rfl
    refine ⟨hkept, h.describes, ?_, ?_, ?_⟩
    · intro hm
      rcases hlocks with heq | ⟨b, rfl, heq⟩ | heq
      · exact h.worker (heq ▸ hm)
      · cases heq.symm.trans hm
        exact hharmless
      · cases heq.symm.trans hm
    · intro op hm
      rcases hlocks with heq | ⟨b, rfl, heq⟩ | heq
      · exact h.client op (heq ▸ hm)
      · cases heq.symm.trans hm
        exact hharmless
      · cases heq.symm.trans hm
    · intro op hop hholds
      rcases act_oopsed hact hop with hop | rfl
      · have hne : l.actor ≠ .client op := fun heq => halive op hop (congrArg some heq)
        exact h.oopsed op hop (act_holds hact hne hholds)
      · cases (Option.ite_none_right_eq_some.mp hact).2
        exact hharmless hholds

end Step

end Synced

end TraceFS.Trfs
