import TraceFS.Trfs.Contiguous

namespace TraceFS.Trfs

open TraceFS.Lib TraceFS.Linux

variable {P : PageSize}

def State.chain (s : State P) : List Nat := Trfs.chain s.ledger.logged s.worker s.queue

theorem Step.chain {s s' : State P} {l : Label P} (hs : Step s l s') :
    s'.chain.Sublist s.chain ∨
      (∃ op, s'.chain = s.chain ++ [op] ∧ ¬ (s.phase op).Handed) ∨
      ∃ op job hr, l = .logReaddir op ∧ s.phase op = .logging job hr ∧
        s'.chain = s.ledger.logged ++ op :: s.pending.map Work.op := by
  have henqueue : ∀ (op : Nat) (job : Job P),
      Trfs.chain s.ledger.logged s.worker (s.queue ++ [⟨op, job⟩]) = s.chain ++ [op] := by
    intro op job
    simp [State.chain, Trfs.chain]
  have hdrop : ∀ w, (Trfs.chain s.ledger.logged none s.queue).Sublist
      (Trfs.chain s.ledger.logged (some w) s.queue) := fun w =>
    (List.sublist_cons_self w.op (s.queue.map Work.op)).append_left s.ledger.logged
  cases hs with
  | invoke | build | giveUp | checkLarge | skipLarge | flushed | ret | umount | stop | close
  | ioctl => exact .inl (.refl _)
  | submit hm hp hr hl => exact .inr (.inl ⟨_, henqueue _ _, by rw [hp]; exact id⟩)
  | submitLarge hm hp => exact .inr (.inl ⟨_, henqueue _ _, by rw [hp]; exact id⟩)
  | drop | dropLarge => exact .inl (.refl _)
  | checkReaddir hm hp hr =>
    left
    simp [State.chain, State.setPhase]
  | finalWrite hu =>
    left
    simp [State.chain]
  | tick hu hlog =>
    left
    simp [State.chain, s.ledgerAfter_flush 0 (r := flushRequest) rfl]
  | writeLarge hm hp =>
    left
    simp [State.chain, State.setPhase]
  | @logReaddir op job hr sb hm hp hlog =>
    refine .inr (.inr ⟨op, job, hr, rfl, hp, ?_⟩)
    have hsig : job.record.flushBufferSig ≠ 1 := job.clear (by rw [hr]; decide)
    simp [State.chain, Trfs.chain, State.setPhase, State.pending, s.ledgerAfter_logged op hsig]
  | @take w queue hc hw hq =>
    left
    rw [State.chain, State.chain, State.noteBit_ledger, hw, hq]
    split
    · exact .refl _
    · exact (List.sublist_cons_self w.op (queue.map Work.op)).append_left s.ledger.logged
  | @work w sb hc hw hlog =>
    left
    rw [State.chain, State.chain, hw]
    by_cases hsig : w.job.record.flushBufferSig = 1
    · simp only [s.ledgerAfter_flush w.op hsig, Ledger.flush_logged]
      exact hdrop w
    · simp [Trfs.chain, s.ledgerAfter_logged w.op hsig]

theorem Step.before {s s' : State P} {l : Label P} (hs : Step s l s') (b : Nat) :
    s'.before b = s.before b ∨ s'.before b = s.returned ∧ s.phase b = .idle := by
  cases hs with
  | @invoke op hm hp =>
    by_cases hb : b = op
    · subst hb
      exact .inr ⟨Function.update_self .., hp⟩
    · exact .inl (Function.update_of_ne hb _ _)
  | checkReaddir | take => simp [State.setPhase]
  | _ => exact .inl rfl

theorem Step.returned {s s' : State P} {l : Label P} (hs : Step s l s') :
    ∀ a ∈ s'.returned, a ∈ s.returned ∨ s'.phase a = .returned := by
  cases hs with
  | @ret op hm hp =>
    intro a ha
    rcases List.mem_cons.mp ha with rfl | ha
    · exact .inr (Function.update_self ..)
    · exact .inl ha
  | checkReaddir | take =>
    intro a ha
    simp only [State.setPhase, State.noteBit_returned] at ha
    exact .inl ha
  | _ => exact fun a ha => .inl ha

/-- A `trfs_readdir` logs its record while that of an operation that returned before it was
invoked is still in the queue. -/
def State.Overtakes (s : State P) : Label P → Prop
  | .logReaddir op => ∃ w ∈ s.pending, w.op ∈ s.before op
  | _ => False

instance (s : State P) (l : Label P) : Decidable (s.Overtakes l) :=
  match l with
  | .logReaddir op => inferInstanceAs (Decidable (∃ w ∈ s.pending, w.op ∈ s.before op))
  | .invoke _ | .build _ _ | .submit _ | .checkLarge _ | .submitLarge _ | .drop _ | .flushed _
  | .writeLarge _ _ | .checkReaddir _ | .ret _ | .ioctl _ | .take | .work | .tick | .umount
  | .stop | .finalWrite | .close => inferInstanceAs (Decidable False)

structure State.Ordered (s : State P) : Prop where
  returned : ∀ a ∈ s.returned, s.phase a = .returned
  before : ∀ a b, a ∈ s.before b → s.phase a = .returned ∧ a ≠ b
  chain : s.chain.Pairwise fun x y => y ∉ s.before x

theorem Step.ordered {s s' : State P} {l : Label P} (hs : Step s l s') (ht : s.Tracked)
    (h : s.Ordered) (hl : ¬ s.Overtakes l) : s'.Ordered where
  returned a ha := (hs.returned a ha).elim (fun ha => hs.returned_stays (h.returned a ha)) id
  before a b hab := by
    rcases hs.before b with heq | ⟨heq, hidle⟩
    · rw [heq] at hab
      obtain ⟨ha, hne⟩ := h.before a b hab
      exact ⟨hs.returned_stays ha, hne⟩
    · rw [heq] at hab
      have ha := h.returned a hab
      refine ⟨hs.returned_stays ha, ?_⟩
      rintro rfl
      rw [hidle] at ha
      cases ha
  chain := by
    have hsame : ∀ x ∈ s.chain, s'.before x = s.before x := by
      intro x hx
      refine (hs.before x).resolve_right ?_
      rintro ⟨-, hidle⟩
      have hx := ht.chain_handed hx
      rw [hidle] at hx
      exact hx
    have hold : s.chain.Pairwise fun x y => y ∉ s'.before x :=
      h.chain.imp_of_mem fun hx _ hxy => hsame _ hx ▸ hxy
    have hlast : ∀ op, ¬ (s.phase op).Handed → ∀ x ∈ s.chain, op ∉ s'.before x := by
      intro op hop x hx hmem
      rw [hsame x hx] at hmem
      rw [(h.before op x hmem).1] at hop
      exact hop trivial
    rcases hs.chain with hsub | ⟨op, heq, hop⟩ | ⟨op, job, hr, rfl, hp, heq⟩
    · exact hold.sublist hsub
    · rw [heq]
      refine List.pairwise_append.mpr ⟨hold, List.pairwise_singleton _ op, ?_⟩
      intro x hx y hy
      rw [List.mem_singleton.mp hy]
      exact hlast op hop x hx
    · rw [heq]
      obtain ⟨hlogged, hpending, hcross⟩ := List.pairwise_append.mp hold
      have hbefore : s'.before op = s.before op := by
        refine (hs.before op).resolve_right ?_
        rintro ⟨-, hidle⟩
        rw [hp] at hidle
        cases hidle
      refine List.pairwise_append.mpr ⟨hlogged, List.pairwise_cons.mpr ⟨?_, hpending⟩, ?_⟩
      · intro y hy hmem
        obtain ⟨w, hw, rfl⟩ := List.mem_map.mp hy
        exact hl ⟨w, hw, hbefore ▸ hmem⟩
      · intro x hx y hy
        rcases List.mem_cons.mp hy with rfl | hy
        · exact hlast y (by rw [hp]; exact id) x (List.mem_append_left _ hx)
        · exact hcross x hx y hy

theorem start_ordered (P : PageSize) : (State.start P).Ordered where
  returned _ ha := nomatch ha
  before _ _ hab := nomatch hab
  chain := List.Pairwise.nil

def State.InOrder (s : State P) : Prop :=
  ∀ a b, a ∈ s.before b → a ∈ s.ledger.logged → b ∈ s.ledger.logged →
    s.ledger.logged.idxOf a < s.ledger.logged.idxOf b

theorem State.Ordered.inOrder {s : State P} (h : s.Ordered) : s.InOrder := by
  intro a b hab ha hb
  have hlogged := (List.pairwise_append.mp h.chain).1
  rcases Nat.lt_trichotomy (s.ledger.logged.idxOf a) (s.ledger.logged.idxOf b) with hlt | heq | hgt
  · exact hlt
  · exact absurd ((List.idxOf_inj ha).mp heq) (h.before a b hab).2
  · have hno := List.pairwise_iff_getElem.mp hlogged _ _ (List.idxOf_lt_length_of_mem hb)
      (List.idxOf_lt_length_of_mem ha) hgt
    rw [List.getElem_idxOf, List.getElem_idxOf] at hno
    exact absurd hab hno

theorem real_time_order (P : PageSize) (labels : List (Label P)) (s : State P)
    (hrun : run State.step (State.start P) labels = some s)
    (hno : Along (fun s l => ¬ s.Overtakes l) State.step (State.start P) labels) :
    s.sb.trInfo.stream = s.ledger.log.flatMap Segment.bytes ∧ s.InOrder := by
  have hord : s.Tracked ∧ s.Ordered := by
    refine run_invariant_along (fun s => s.Tracked ∧ s.Ordered) (fun s l => ¬ s.Overtakes l) ?_
      ⟨start_tracked P, start_ordered P⟩ hno hrun
    rintro s l s' ⟨htracked, hord⟩ hl hstep
    have hs := Step.of_step hstep
    exact ⟨hs.tracked htracked, hs.ordered htracked hord hl⟩
  exact ⟨(describes_of_run hrun).stream, hord.2.inOrder⟩

def plainClose : Job .small := (closeRecord_sound (K := Kernel.inert) (T := .plenty) 2 0 ()).job

def closeThenReaddir : List (Label .small) :=
  [.invoke 1, .build 1 (some plainClose), .submit 1, .ret 1, .take, .work,
    .invoke 2, .build 2 (some rootReaddir), .checkReaddir 2, .logReaddir 2, .ret 2]

theorem real_time_order_closeThenReaddir :
    ∃ s, run State.step (State.start .small) closeThenReaddir = some s ∧
      s.ledger.logged = [1, 2] ∧
        s.sb.trInfo.stream = s.ledger.log.flatMap Segment.bytes ∧ s.InOrder := by
  have hrun : ((run State.step (State.start .small) closeThenReaddir).map fun s =>
      s.ledger.logged) = some [1, 2] := by decide +kernel
  obtain ⟨s, hs, hlogged⟩ := Option.map_eq_some_iff.mp hrun
  refine ⟨s, hs, hlogged, real_time_order .small closeThenReaddir s hs ?_⟩
  decide +kernel

def readdirFirst : List (Label .small) :=
  [.invoke 1, .build 1 (some plainClose), .submit 1, .ret 1,
    .invoke 2, .build 2 (some rootReaddir), .checkReaddir 2, .logReaddir 2, .ret 2, .take, .work]

theorem readdir_before_earlier_close :
    ∃ s, run State.step (State.start .small) readdirFirst = some s ∧ ¬ s.InOrder := by
  have hrun : ((run State.step (State.start .small) readdirFirst).map fun s =>
      (s.ledger.logged, s.before 2)) = some ([2, 1], [1]) := by decide +kernel
  obtain ⟨s, hs, heq⟩ := Option.map_eq_some_iff.mp hrun
  obtain ⟨hlogged, hbefore⟩ := Prod.mk.inj heq
  refine ⟨s, hs, ?_⟩
  intro hin
  have hlt := hin 1 2 (by simp [hbefore]) (by simp [hlogged]) (by simp [hlogged])
  rw [hlogged] at hlt
  exact absurd hlt (by decide)

end TraceFS.Trfs
