import TraceFS.Trfs.Synced

namespace TraceFS.Trfs

open TraceFS.Lib TraceFS.Linux

variable {P : PageSize}

theorem Phase.Next.leaves {op : Nat} {l : Label P} {p p' : Phase P} (h : Phase.Next op p l p') :
    (p = .idle ∧ p' = .invoked) ∨ (p = .invoked ∧ ∃ job, l = .build op job) ∨
      (p ≠ .idle ∧ p ≠ .invoked ∧ p' ≠ .idle ∧ (p' = .returned → l = .ret op)) := by
  cases h <;> simp

theorem Phase.Next.actor {op : Nat} {l : Label P} {p p' : Phase P} (h : Phase.Next op p l p') :
    l.actor = some (.client op) := by
  cases h <;> rfl

theorem Phase.Next.through {op : Nat} {l : Label P} {p p' : Phase P} (h : Phase.Next op p l p')
    (hp : p.Locking ∨ p.Done) : p'.Done ∨ l = .ret op := by
  cases h <;> simp_all [Phase.Locking, Phase.Done]

namespace Synced

variable (c : Synced P)

structure Kept : Prop where
  counted : c.1.Counted
  quiet : c.1.umount ≠ .mounted → c.1.active = []
  open_ : c.1.umount ≠ .closed
  exited : c.1.umount = .stopped ∨ c.1.umount = .written → c.2.round = .exited
  client : ∀ op, c.2.mutex = some (.client op) → (c.1.phase op).Locking ∨ (c.1.phase op).Done
  logger : c.2.mutex = some .logger ↔ c.2.round = .locked ∨ c.2.round = .flushed
  umount : c.2.mutex = some .umount → c.1.umount = .stopped ∨ c.1.umount = .written
  fresh : ∀ op, c.2.wants op = none → c.1.phase op = .idle ∨ c.1.phase op = .invoked
  wants : ∀ op dir dirs, c.2.wants op = some (dir :: dirs) → c.1.phase op = .invoked
  holds : ∀ op, c.Holds op → c.2.wants op ≠ none ∧ c.1.phase op ≠ .idle ∧ c.1.phase op ≠ .returned
  holder : ∀ dir op, c.2.holder dir = some op → dir ∈ c.2.locked op
  nodup : ∀ op dirs, c.2.wants op = some dirs → dirs.Nodup ∧ ∀ dir ∈ dirs, dir ∉ c.2.locked op
  renamer : ∀ op dir dirs, c.2.wants op = some (dir :: dirs) → c.2.locked op ≠ [] →
    c.2.renamer = some op
  oopsed : ∀ op ∈ c.2.oopsed, c.2.wants op = some [] ∧ (c.1.phase op).Faultable

theorem start_kept (P : PageSize) : (Synced.start P).Kept where
  counted _ := .inl rfl
  quiet _ := rfl
  open_ := nofun
  exited h := by simp [start, State.start] at h
  client _ h := by cases h
  logger := by simp [start, Sync.start]
  umount h := by cases h
  fresh _ _ := .inl rfl
  wants _ _ _ h := by cases h
  holds _ h := by simp [Holds, start, Sync.start] at h
  holder _ _ h := by cases h
  nodup _ _ h := by cases h
  renamer _ _ _ h := by cases h
  oopsed _ h := by cases h

variable {c}

variable {s' : State P} {e' : Sync} {l : Label P}

theorem see_cases {s : State P} {e : Sync} (hsee : Sync.see s e l = some e') :
    e' = e ∨ l = .tick ∧ e.round = .locked ∧ e' = { e with round := .flushed } := by
  cases l with
  | tick =>
    obtain ⟨hround, heq⟩ := Option.ite_none_right_eq_some.mp hsee
    exact .inr ⟨rfl, hround, (Option.some.inj heq).symm⟩
  | build | logReaddir | writeLarge | work | take | finalWrite | stop | ret =>
    obtain ⟨-, heq⟩ := Option.ite_none_right_eq_some.mp hsee
    exact .inl (Option.some.inj heq).symm
  | close => cases hsee
  | _ => exact .inl (Option.some.inj hsee).symm

theorem see_build {s : State P} {e : Sync} {op : Nat} {job : Option (Job P)}
    (hsee : Sync.see s e (.build op job) = some e') : e.wants op = some [] :=
  (Option.ite_none_right_eq_some.mp hsee).1

theorem see_ret {s : State P} {e : Sync} {op : Nat} (hsee : Sync.see s e (.ret op) = some e') :
    e.locked op = [] ∧ e.renamer ≠ some op ∧ e.mutex ≠ some (.client op) :=
  (Option.ite_none_right_eq_some.mp hsee).1

theorem see_frame {s : State P} {e : Sync} (hsee : Sync.see s e l = some e') :
    e'.wants = e.wants ∧ e'.locked = e.locked ∧ e'.holder = e.holder ∧ e'.renamer = e.renamer ∧
      e'.oopsed = e.oopsed ∧ e'.mutex = e.mutex := by
  rcases see_cases hsee with rfl | ⟨-, -, rfl⟩ <;> exact ⟨rfl, rfl, rfl, rfl, rfl, rfl⟩

section Act

variable {s : State P} {e : Sync} {op : Nat}

theorem act_begin_cases {dirs : List Ptr} (hact : Sync.act s e (.begin_ op dirs) = some e') :
    s.phase op = .invoked ∧ e.wants op = none ∧ dirs.Nodup ∧
      e' = { e with wants := Function.update e.wants op (some dirs) } := by
  simp only [Sync.act] at hact
  split at hact
  case h_1 hp hnone =>
    obtain ⟨⟨hdirs, -⟩, heq⟩ := Option.ite_none_right_eq_some.mp hact
    exact ⟨hp, hnone, hdirs, (Option.some.inj heq).symm⟩
  case h_2 => cases hact

theorem act_lockRename_cases (hact : Sync.act s e (.lockRename op) = some e') :
    (∃ dir dir' dirs, e.wants op = some (dir :: dir' :: dirs)) ∧ e.renamer = none ∧
      e' = { e with renamer := some op } := by
  simp only [Sync.act] at hact
  split at hact
  case h_1 dir dir' dirs hwants =>
    obtain ⟨hfree, heq⟩ := Option.ite_none_right_eq_some.mp hact
    exact ⟨⟨dir, dir', dirs, hwants⟩, hfree, (Option.some.inj heq).symm⟩
  case h_2 => cases hact

theorem act_lockDir_cases (hact : Sync.act s e (.lockDir op) = some e') :
    ∃ dir dirs, e.wants op = some (dir :: dirs) ∧ (dirs = [] ∨ e.renamer = some op) ∧
      e' = { e with
        wants := Function.update e.wants op (some dirs)
        locked := Function.update e.locked op (dir :: e.locked op)
        holder := Function.update e.holder dir (some op) } := by
  simp only [Sync.act] at hact
  split at hact
  case h_1 dir dirs hwants =>
    obtain ⟨⟨-, hdirs⟩, heq⟩ := Option.ite_none_right_eq_some.mp hact
    exact ⟨dir, dirs, hwants, hdirs, (Option.some.inj heq).symm⟩
  case h_2 => cases hact

end Act

theorem invoked_stays (hs : Step c.1 l s') (hsee : Sync.see c.1 c.2 l = some e') {op : Nat}
    (hp : c.1.phase op = .invoked) (hno : c.2.wants op ≠ some []) : s'.phase op = .invoked := by
  rcases hs.phase op with heq | hnext
  · exact heq.trans hp
  · rcases hnext.leaves with ⟨hidle, -⟩ | ⟨-, job, rfl⟩ | ⟨-, hinv, -⟩
    · rw [hp] at hidle
      cases hidle
    · exact absurd (see_build hsee) hno
    · exact absurd hp hinv

theorem Kept.exited_inner (h : c.Kept) (hs : Step c.1 l s') (hsee : Sync.see c.1 c.2 l = some e')
    (hu : s'.umount = .stopped ∨ s'.umount = .written) : e'.round = .exited := by
  have hround : c.2.round = .exited → e'.round = .exited := by
    intro hexited
    rcases see_cases hsee with rfl | ⟨-, hlocked, -⟩
    · exact hexited
    · rw [hexited] at hlocked
      cases hlocked
  rcases hs.umount_cases with heq | ⟨-, -, heq⟩ | ⟨rfl, -, -⟩ | ⟨-, hstopped, -⟩ | ⟨rfl, -⟩
  · exact hround (h.exited (heq ▸ hu))
  · simp [heq] at hu
  · exact hround (Option.ite_none_right_eq_some.mp hsee).1
  · exact hround (h.exited (.inl hstopped))
  · cases hsee

theorem Kept.umount_inner (h : c.Kept) (hs : Step c.1 l s') (hsee : Sync.see c.1 c.2 l = some e')
    (hu : c.2.mutex = some .umount) : s'.umount = .stopped ∨ s'.umount = .written := by
  have hold := h.umount hu
  rcases hs.umount_cases with heq | ⟨-, hm, -⟩ | ⟨-, hb, -⟩ | ⟨-, -, heq⟩ | ⟨rfl, -⟩
  · exact heq ▸ hold
  · simp [hm] at hold
  · simp [hb] at hold
  · exact .inr heq
  · cases hsee

theorem Kept.fresh_inner (h : c.Kept) (hs : Step c.1 l s') (hsee : Sync.see c.1 c.2 l = some e')
    {op : Nat} (hop : c.2.wants op = none) : s'.phase op = .idle ∨ s'.phase op = .invoked := by
  rcases h.fresh op hop with hidle | hinv
  · rcases hs.phase op with heq | hnext
    · exact .inl (heq.trans hidle)
    · rcases hnext.leaves with ⟨-, hinv⟩ | ⟨hinv, -⟩ | ⟨hno, -⟩
      · exact .inr hinv
      · rw [hidle] at hinv
        cases hinv
      · exact absurd hidle hno
  · exact .inr (invoked_stays hs hsee hinv (by simp [hop]))

theorem Kept.holds_inner (h : c.Kept) (hs : Step c.1 l s') (hsee : Sync.see c.1 c.2 l = some e')
    {op : Nat} (hholds : c.Holds op) : s'.phase op ≠ .idle ∧ s'.phase op ≠ .returned := by
  obtain ⟨-, hidle, hreturned⟩ := h.holds op hholds
  rcases hs.phase op with heq | hnext
  · rw [heq]
    exact ⟨hidle, hreturned⟩
  · rcases hnext.leaves with ⟨heq, -⟩ | ⟨hinv, job, rfl⟩ | ⟨-, -, hno, hret⟩
    · exact absurd heq hidle
    · cases hs <;> simp [State.setPhase]
    · refine ⟨hno, fun hp => ?_⟩
      obtain rfl := hret hp
      obtain ⟨hfree, hrename, -⟩ := see_ret hsee
      exact hholds.elim (fun hl => hl hfree) hrename

theorem Kept.client_inner (h : c.Kept) (hs : Step c.1 l s') (hsee : Sync.see c.1 c.2 l = some e')
    {op : Nat} (hop : c.2.mutex = some (.client op)) :
    (s'.phase op).Locking ∨ (s'.phase op).Done := by
  rcases hs.phase op with heq | hnext
  · rw [heq]
    exact h.client op hop
  · rcases hnext.through (h.client op hop) with hdone | rfl
    · exact .inr hdone
    · exact absurd hop (see_ret hsee).2.2

theorem phase_of_oopsed (halive : c.2.Alive l.actor) (hs : Step c.1 l s') {op : Nat}
    (hop : op ∈ c.2.oopsed) : s'.phase op = c.1.phase op :=
  (hs.phase op).resolve_right fun hnext => halive op hop hnext.actor

theorem Kept.inner (h : c.Kept) (halive : c.2.Alive l.actor) (hs : Step c.1 l s')
    (hsee : Sync.see c.1 c.2 l = some e') : Kept (s', e') := by
  obtain ⟨hwants, hlocked, hholder, hrenamer, hoopsed, hmutex⟩ := see_frame hsee
  exact
    { counted := hs.counted h.counted
      quiet := hs.quiet h.quiet
      open_ := by
        rcases hs.umount_cases with heq | ⟨-, -, heq⟩ | ⟨-, -, heq⟩ | ⟨-, -, heq⟩ | ⟨rfl, -⟩
        · exact heq ▸ h.open_
        · simp [heq]
        · simp [heq]
        · simp [heq]
        · cases hsee
      exited := h.exited_inner hs hsee
      client := fun op hop => h.client_inner hs hsee (hmutex ▸ hop)
      logger := by
        rw [hmutex, h.logger]
        rcases see_cases hsee with rfl | ⟨-, hround, rfl⟩
        · rfl
        · simp [hround]
      umount := fun hu => h.umount_inner hs hsee (hmutex ▸ hu)
      fresh := fun op hop => h.fresh_inner hs hsee (hwants ▸ hop)
      wants := by
        intro op dir dirs hop
        rw [hwants] at hop
        exact invoked_stays hs hsee (h.wants op dir dirs hop) (by simp [hop])
      holds := by
        intro op hop
        have hold : c.Holds op := by
          unfold Holds at hop ⊢
          rwa [hlocked, hrenamer] at hop
        exact ⟨hwants ▸ (h.holds op hold).1, h.holds_inner hs hsee hold⟩
      holder := by
        rw [hholder, hlocked]
        exact h.holder
      nodup := by
        rw [hwants, hlocked]
        exact h.nodup
      renamer := by
        rw [hwants, hlocked, hrenamer]
        exact h.renamer
      oopsed := by
        intro op hop
        rw [hoopsed] at hop
        rw [hwants, phase_of_oopsed halive hs hop]
        exact h.oopsed op hop }

theorem Kept.fresh_update {op : Nat} (h : c.Kept) (hp : c.1.phase op = .invoked)
    (dirs : List Ptr) (op' : Nat) (hop : Function.update c.2.wants op (some dirs) op' = none) :
    c.1.phase op' = .idle ∨ c.1.phase op' = .invoked := by
  by_cases heq : op' = op
  · exact .inr (heq ▸ hp)
  · rw [Function.update_of_ne heq] at hop
    exact h.fresh op' hop

theorem Kept.wants_update {op : Nat} (h : c.Kept) (hp : c.1.phase op = .invoked)
    (dirs : List Ptr) (op' : Nat) (dir : Ptr) (dirs' : List Ptr)
    (hop : Function.update c.2.wants op (some dirs) op' = some (dir :: dirs')) :
    c.1.phase op' = .invoked := by
  by_cases heq : op' = op
  · exact heq ▸ hp
  · rw [Function.update_of_ne heq] at hop
    exact h.wants op' dir dirs' hop

theorem Kept.oopsed_update {op : Nat} (h : c.Kept) (hop : c.2.wants op ≠ some [])
    (dirs : List Ptr) (op' : Nat) (hoopsed : op' ∈ c.2.oopsed) :
    Function.update c.2.wants op (some dirs) op' = some [] ∧ (c.1.phase op').Faultable := by
  have hne : op' ≠ op := by
    rintro rfl
    exact hop (h.oopsed op' hoopsed).1
  rw [Function.update_of_ne hne]
  exact h.oopsed op' hoopsed

theorem Kept.act_begin {op : Nat} {dirs : List Ptr} (h : c.Kept) (hp : c.1.phase op = .invoked)
    (hnone : c.2.wants op = none) (hdirs : dirs.Nodup) :
    Kept (c.1, { c.2 with wants := Function.update c.2.wants op (some dirs) }) := by
  have hfree : ¬ c.Holds op := fun hholds => (h.holds op hholds).1 hnone
  obtain ⟨hlocked, -⟩ := not_or.mp hfree
  have hlocked := not_not.mp hlocked
  exact
    { h with
      fresh := h.fresh_update hp dirs
      wants := h.wants_update hp dirs
      holds := by
        intro op' hholds
        have hne : op' ≠ op := by
          rintro rfl
          exact hfree hholds
        simp only [Function.update_of_ne hne]
        exact h.holds op' hholds
      nodup := by
        intro op' dirs' hop
        by_cases heq : op' = op
        · subst heq
          simp only [Function.update_self, Option.some.injEq] at hop
          subst hop
          exact ⟨hdirs, by simp [hlocked]⟩
        · simp only [Function.update_of_ne heq] at hop
          exact h.nodup op' dirs' hop
      renamer := by
        intro op' dir dirs' hop hne
        have hneq : op' ≠ op := by
          rintro rfl
          exact hne hlocked
        simp only [Function.update_of_ne hneq] at hop
        exact h.renamer op' dir dirs' hop hne
      oopsed := h.oopsed_update (by simp [hnone]) dirs }

theorem Kept.act_lockRename {op : Nat} {dir dir' : Ptr} {dirs : List Ptr} (h : c.Kept)
    (hwants : c.2.wants op = some (dir :: dir' :: dirs)) (hfree : c.2.renamer = none) :
    Kept (c.1, { c.2 with renamer := some op }) := by
  have hp := h.wants op dir _ hwants
  exact
    { h with
      holds := by
        intro op' hholds
        by_cases heq : op' = op
        · subst heq
          simp [hwants, hp]
        · refine h.holds op' (.inl (hholds.resolve_right fun hsome => heq ?_))
          exact (Option.some.inj hsome).symm
      renamer := by
        intro op' dir'' dirs' hop hne
        have hold := h.renamer op' dir'' dirs' hop hne
        rw [hfree] at hold
        cases hold }

theorem Kept.act_lockDir {op : Nat} {dir : Ptr} {dirs : List Ptr} (h : c.Kept)
    (hwants : c.2.wants op = some (dir :: dirs)) (hdirs : dirs = [] ∨ c.2.renamer = some op) :
    Kept (c.1, { c.2 with
      wants := Function.update c.2.wants op (some dirs)
      locked := Function.update c.2.locked op (dir :: c.2.locked op)
      holder := Function.update c.2.holder dir (some op) }) := by
  have hp := h.wants op dir dirs hwants
  obtain ⟨hnodup, hdisjoint⟩ := h.nodup op _ hwants
  obtain ⟨hnew, hrest⟩ := List.nodup_cons.mp hnodup
  exact
    { h with
      fresh := h.fresh_update hp dirs
      wants := h.wants_update hp dirs
      holds := by
        intro op' hholds
        by_cases heq : op' = op
        · subst heq
          simp [hp]
        · simp only [Holds, Function.update_of_ne heq] at hholds ⊢
          exact h.holds op' hholds
      holder := by
        intro dir' op' hop
        by_cases hdir : dir' = dir
        · subst hdir
          simp only [Function.update_self, Option.some.injEq] at hop
          subst hop
          simp
        · simp only [Function.update_of_ne hdir] at hop
          have hmem := h.holder dir' op' hop
          by_cases heq : op' = op
          · subst heq
            simp [hmem]
          · simp only [Function.update_of_ne heq]
            exact hmem
      nodup := by
        intro op' dirs' hop
        by_cases heq : op' = op
        · subst heq
          simp only [Function.update_self, Option.some.injEq] at hop ⊢
          subst hop
          refine ⟨hrest, fun dir' hdir' hmem => ?_⟩
          rcases List.mem_cons.mp hmem with rfl | hmem
          · exact hnew hdir'
          · exact hdisjoint dir' (List.mem_cons_of_mem dir hdir') hmem
        · simp only [Function.update_of_ne heq] at hop ⊢
          exact h.nodup op' dirs' hop
      renamer := by
        intro op' dir' dirs' hop hne
        by_cases heq : op' = op
        · subst heq
          simp only [Function.update_self, Option.some.injEq] at hop
          exact hdirs.resolve_left (by simp [hop])
        · simp only [Function.update_of_ne heq] at hop hne
          exact h.renamer op' dir' dirs' hop hne
      oopsed := h.oopsed_update (by simp [hwants]) dirs }

theorem Kept.act_unlockDirs {op : Nat} (h : c.Kept) (hp : c.1.phase op = .done) :
    Kept (c.1, { c.2 with
      locked := Function.update c.2.locked op []
      holder := fun dir => if c.2.holder dir = some op then none else c.2.holder dir
      renamer := if c.2.renamer = some op then none else c.2.renamer }) := by
  have hwaits : ∀ op' dir dirs, c.2.wants op' = some (dir :: dirs) → op' ≠ op := by
    rintro op' dir dirs hop rfl
    have hinv := h.wants op' dir dirs hop
    rw [hp] at hinv
    cases hinv
  exact
    { h with
      holds := by
        intro op' hholds
        have hne : op' ≠ op := by
          rintro rfl
          simp [Holds] at hholds
        refine h.holds op' ?_
        simp only [Holds, Function.update_of_ne hne] at hholds ⊢
        exact hholds.imp_right fun hsome => (Option.ite_none_left_eq_some.mp hsome).2
      holder := by
        intro dir op' hop
        obtain ⟨hno, hholder⟩ := Option.ite_none_left_eq_some.mp hop
        have hne : op' ≠ op := by
          rintro rfl
          exact hno hholder
        simp only [Function.update_of_ne hne]
        exact h.holder dir op' hholder
      nodup := by
        intro op' dirs hop
        by_cases heq : op' = op
        · subst heq
          exact ⟨(h.nodup op' dirs hop).1, by simp⟩
        · simp only [Function.update_of_ne heq]
          exact h.nodup op' dirs hop
      renamer := by
        intro op' dir dirs hop hlocked
        have hne := hwaits op' dir dirs hop
        simp only [Function.update_of_ne hne] at hlocked
        have hrenamer := h.renamer op' dir dirs hop hlocked
        refine (if_neg ?_).trans hrenamer
        rw [hrenamer]
        exact fun hsome => hne (Option.some.inj hsome) }

theorem Kept.act_lock {a : Actor} (h : c.Kept) (hfree : c.2.mutex = none)
    (hneeds : c.2.Needs c.1 a) :
    Kept (c.1, { c.2 with
      mutex := some a
      round := if a = .logger then .locked else c.2.round }) := by
  have hround : c.2.round ≠ .locked ∧ c.2.round ≠ .flushed := by
    rw [← not_or, ← h.logger, hfree]
    simp
  exact
    { h with
      exited := by
        intro hu
        have hexited := h.exited hu
        refine (if_neg ?_).trans hexited
        rintro rfl
        rw [show c.2.round = .armed from hneeds] at hexited
        cases hexited
      client := by
        intro op hop
        cases hop
        exact .inl hneeds
      logger := by
        by_cases heq : a = .logger
        · simp [heq]
        · simp [heq, hround]
      umount := by
        intro hop
        cases hop
        exact .inl hneeds }

theorem Kept.act_unlock {a : Actor} (h : c.Kept) (hmutex : c.2.mutex = some a) :
    Kept (c.1, { c.2 with
      mutex := none
      round := if a = .logger then .asleep else c.2.round }) :=
  { h with
    exited := by
      intro hu
      have hexited := h.exited hu
      refine (if_neg ?_).trans hexited
      rintro rfl
      rcases h.logger.mp hmutex with hround | hround <;> rw [hround] at hexited <;> cases hexited
    client := fun op hop => by cases hop
    logger := by
      by_cases heq : a = .logger
      · simp [heq]
      · have hround : c.2.round ≠ .locked ∧ c.2.round ≠ .flushed := by
          rw [← not_or, ← h.logger, hmutex]
          simpa using heq
        simp [heq, hround]
    umount := fun hop => by cases hop }

theorem Kept.act_oops {op : Nat} (h : c.Kept) (hwants : c.2.wants op = some [])
    (hp : (c.1.phase op).Faultable) :
    Kept (c.1, { c.2 with oopsed := op :: c.2.oopsed }) :=
  { h with
    oopsed := by
      intro op' hop
      rcases List.mem_cons.mp hop with rfl | hop
      · exact ⟨hwants, hp⟩
      · exact h.oopsed op' hop }

theorem Kept.act_round {r r' : Round} (h : c.Kept) (hr : c.2.round = r)
    (hno : r ≠ .locked ∧ r ≠ .flushed ∧ r ≠ .exited) (hno' : r' ≠ .locked ∧ r' ≠ .flushed)
    (mem : Bool) : Kept (c.1, { c.2 with round := r', record := mem }) :=
  { h with
    exited := fun hu => absurd (hr.symm.trans (h.exited hu)) hno.2.2
    logger := by
      rw [h.logger, hr]
      simp [hno, hno'] }

theorem Kept.outer {a : SyncLabel} (h : c.Kept) (ha : Sync.act c.1 c.2 a = some e') :
    Kept (c.1, e') := by
  cases a with
  | begin_ op dirs =>
    obtain ⟨hp, hnone, hdirs, rfl⟩ := act_begin_cases ha
    exact h.act_begin hp hnone hdirs
  | lockRename op =>
    obtain ⟨⟨dir, dir', dirs, hwants⟩, hfree, rfl⟩ := act_lockRename_cases ha
    exact h.act_lockRename hwants hfree
  | lockDir op =>
    obtain ⟨dir, dirs, hwants, hdirs, rfl⟩ := act_lockDir_cases ha
    exact h.act_lockDir hwants hdirs
  | unlockDirs op =>
    obtain ⟨⟨hdone, -⟩, heq⟩ := Option.ite_none_right_eq_some.mp ha
    cases heq
    refine h.act_unlockDirs ?_
    cases hp : c.1.phase op with
    | done => rfl
    | _ =>
      rw [hp] at hdone
      exact hdone.elim
  | lock a =>
    obtain ⟨⟨hfree, hneeds⟩, heq⟩ := Option.ite_none_right_eq_some.mp ha
    cases heq
    exact h.act_lock hfree hneeds
  | unlock a =>
    obtain ⟨⟨hmutex, -⟩, heq⟩ := Option.ite_none_right_eq_some.mp ha
    cases heq
    exact h.act_unlock hmutex
  | oops op =>
    obtain ⟨⟨hwants, hp⟩, heq⟩ := Option.ite_none_right_eq_some.mp ha
    cases heq
    exact h.act_oops hwants hp
  | kzalloc mem =>
    obtain ⟨hr, heq⟩ := Option.ite_none_right_eq_some.mp ha
    cases heq
    exact h.act_round hr (by simp) (by simp) mem
  | test =>
    obtain ⟨hr, heq⟩ := Option.ite_none_right_eq_some.mp ha
    cases heq
    exact h.act_round hr (by simp) (by split <;> simp) c.2.record
  | look =>
    obtain ⟨hr, heq⟩ := Option.ite_none_right_eq_some.mp ha
    cases heq
    refine h.act_round hr (by simp) ?_ c.2.record
    split
    · split <;> simp
    · simp
  | wake =>
    obtain ⟨hr, heq⟩ := Option.ite_none_right_eq_some.mp ha
    cases heq
    exact h.act_round hr (by simp) (by simp) c.2.record

theorem Kept.step {c' : Synced P} {a : Label P ⊕ SyncLabel} (h : c.Kept)
    (hs : c.step a = some c') : c'.Kept := by
  cases a with
  | inl l =>
    obtain ⟨halive, hstep, hsee⟩ := step_inl.mp hs
    exact h.inner halive (Step.of_step hstep) hsee
  | inr a =>
    obtain ⟨-, heq, hact⟩ := step_inr.mp hs
    have houter := h.outer hact
    rwa [← heq] at houter

end Synced

end TraceFS.Trfs
