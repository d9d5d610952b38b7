import TraceFS.Lib.Observed
import TraceFS.Lib.Precedes
import TraceFS.Trfs.Balance
import TraceFS.Trfs.Ids
import TraceFS.Trfs.Submits

universe u

namespace TraceFS.Trfs

open TraceFS.Lib TraceFS.Linux TraceFS.Wrapfs

variable {P : PageSize}

def LogType.Namespace : LogType → Prop
  | .mkdir | .unlink | .link | .rename | .rmdir => True
  | .readdir | .open_ | .read | .write | .close => False

instance : (ty : LogType) → Decidable ty.Namespace
  | .mkdir | .unlink | .link | .rename | .rmdir => isTrue trivial
  | .readdir | .open_ | .read | .write | .close => isFalse id

structure Locks where
  holder : Ptr → Option Nat
  parents : Nat → List Ptr
  effects : List Nat

inductive LockLabel where
  | lock (op : Nat) (dir : Ptr)
  | lower (op : Nat)
  | unlock (op : Nat) (dir : Ptr)

namespace Locks

def start : Locks := ⟨fun _ => none, fun _ => [], []⟩

def Shares (e : Locks) (a b : Nat) : Prop := ∃ dir ∈ e.parents a, dir ∈ e.parents b

/-- The lower call comes under the locks, and the record after it; with locks still held no
operation returns. -/
def see (_ : State P) (e : Locks) : Label P → Option Locks
  | .build op (some job) =>
    if if job.type.Namespace then op ∈ e.effects else e.parents op = [] then some e else none
  | .ret op => if (e.parents op).all fun dir => e.holder dir ≠ some op then some e else none
  | _ => some e

/-- Every way to `out`, where the locks are let go, leads past the record or gives it up. -/
def act (s : State P) (e : Locks) : LockLabel → Option Locks
  | .lock op dir =>
    match s.phase op with
    | .invoked =>
      if op ∉ e.effects ∧ e.holder dir = none then
        some { e with
          holder := Function.update e.holder dir (some op)
          parents := Function.update e.parents op (dir :: e.parents op) }
      else none
    | _ => none
  | .lower op =>
    match s.phase op with
    | .invoked =>
      if op ∉ e.effects ∧ e.parents op ≠ [] then some { e with effects := e.effects ++ [op] }
      else none
    | _ => none
  | .unlock op dir =>
    match s.phase op with
    | .done =>
      if e.holder dir = some op then some { e with holder := Function.update e.holder dir none }
      else none
    | _ => none

def surroundings (P : PageSize) : Surroundings (State P) (Label P) Locks LockLabel := ⟨see, act⟩

end Locks

section Queued

variable {σ : Type u} {K : Kernel σ} {T : Tracing} {s : σ} {b : Bool}

/-- `s_fs_info` is what a record reads as it is built, right before it is queued, and what it
reads here is whether a lower directory is locked. -/
def telling (K : Kernel σ) : Kernel (Watched σ) :=
  { K.watched with sFsInfo := fun w _ => if w.held.dirs = [] then 0 else 1 }

def Exit.InLocks (e : Exit (Watched σ)) : Prop :=
  (∀ sub ∈ e.submitted, sub.record.sbPrivate = 1) ∧ e.state.held = .none

theorem Exit.InLocks.out {w : Watched σ} (hw : w.held = .none) (err : CInt) :
    Exit.InLocks ⟨err, w, []⟩ := by
  refine ⟨?_, hw⟩
  rintro sub ⟨⟩

theorem Exit.InLocks.entry {dentry : Ptr} {record : TmpPath → Record} {subs : List Submission}
    {w : Watched σ} (hsubs : tracePath T dentry record = .ok (.next subs))
    (hrecord : ∀ p, (record p).sbPrivate = 1) (hw : w.held = .none) (err : CInt) :
    Exit.InLocks ⟨err, w, subs⟩ := by
  refine ⟨?_, hw⟩
  intro sub hsub
  obtain ⟨p, -, rfl⟩ := mem_tracePath hsubs sub hsub
  exact hrecord p

theorem Exit.InLocks.entries {old new : Ptr} {record : TmpPath → TmpPath → Record}
    {subs : List Submission} {w : Watched σ}
    (hsubs : tracePaths T old new record = .ok (.next subs))
    (hrecord : ∀ p q, (record p q).sbPrivate = 1) (hw : w.held = .none) (err : CInt) :
    Exit.InLocks ⟨err, w, subs⟩ := by
  refine ⟨?_, hw⟩
  intro sub hsub
  obtain ⟨p, q, -, -, rfl⟩ := mem_tracePaths hsubs sub hsub
  exact hrecord p q

theorem trfsMkdir_inLocks {dir dentry : Ptr} {mode : BitVec 16} {e : Exit (Watched σ)}
    (he : trfsMkdir (telling K) T dir dentry mode ⟨s, .none, b⟩ = .ok e) : e.InLocks := by
  have hlower : mkdirLower (telling K) dentry mode ⟨s, .none, b⟩ =
      watchedEntry _ (heldEntry _ _) b := mkdirLower_watched (K := K) dentry mode s b
  simp only [trfsMkdir, hlower] at he
  split at he <;> cases he
  · exact .out (congrArg Watched.held (entryOut_watched (K := K) ..)) _
  next hsubs =>
    refine .entry hsubs (fun p => by simp [mkdirRecord, telling, watchedEntry, heldEntry]) ?_ _
    exact congrArg (fun out => out.2.held) (mkdirRest_watched (K := K) dir dentry _ _ b)

theorem trfsUnlink_inLocks {dir dentry : Ptr} {e : Exit (Watched σ)}
    (he : trfsUnlink (telling K) T dir dentry ⟨s, .none, b⟩ = .ok e) : e.InLocks := by
  have hlower : unlinkLower (telling K) dir dentry ⟨s, .none, b⟩ =
      watchedEntry _ (heldUnlink _ _) _ := unlinkLower_watched (K := K) dir dentry s b
  simp only [trfsUnlink, hlower] at he
  split at he <;> cases he
  · exact .out (congrArg Watched.held (unlinkOut_watched (K := K) ..)) _
  next hsubs =>
    refine .entry hsubs (fun p => by simp [unlinkRecord, telling, watchedEntry, heldUnlink]) ?_ _
    exact congrArg Watched.held
      ((congrArg _ (ite_watched ..)).trans (unlinkOut_watched (K := K) ..))

theorem trfsRmdir_inLocks {dir dentry : Ptr} {e : Exit (Watched σ)}
    (he : trfsRmdir (telling K) T dir dentry ⟨s, .none, b⟩ = .ok e) : e.InLocks := by
  have hlower : rmdirLower (telling K) dentry ⟨s, .none, b⟩ = watchedEntry _ (heldEntry _ _) b :=
    rmdirLower_watched (K := K) dentry s b
  simp only [trfsRmdir, hlower] at he
  split at he
  · cases he
    exact .out (congrArg Watched.held (entryOut_watched (K := K) ..)) _
  split at he <;> cases he
  · exact .out (congrArg Watched.held (entryOut_watched (K := K) ..)) _
  next hsubs =>
    refine .entry hsubs (fun p => by simp [rmdirRecord, telling, watchedEntry, heldEntry]) ?_ _
    exact congrArg Watched.held
      ((congrArg _ (rmdirDone_watched (K := K) ..)).trans (entryOut_watched (K := K) ..))

theorem trfsLink_inLocks {oldDentry dir newDentry : Ptr} {e : Exit (Watched σ)}
    (he : trfsLink (telling K) T oldDentry dir newDentry ⟨s, .none, b⟩ = .ok e) : e.InLocks := by
  have hlower : linkLower (telling K) oldDentry newDentry ⟨s, .none, b⟩ =
      watchedLinking _ (heldLink _ _) b := linkLower_watched (K := K) oldDentry newDentry s b
  simp only [trfsLink, hlower] at he
  split at he
  · cases he
    exact .out (congrArg Watched.held (linkOut_watched (K := K) ..)) _
  have hinterpose : linkInterpose (telling K) dir newDentry
      (watchedLinking _ (heldLink _ _) b) = _ :=
    linkInterpose_watched (K := K) dir newDentry (linkLower K oldDentry newDentry s)
      (linkLocked K oldDentry newDentry s) b
  simp only [hinterpose] at he
  split at he <;> cases he
  · exact .out (congrArg Watched.held (linkOut_watched (K := K) ..)) _
  next hsubs =>
    refine .entries hsubs (fun p q => by simp [linkRecord, telling, heldLink]) ?_ _
    exact congrArg Watched.held
      ((congrArg _ (ite_watched ..)).trans (linkOut_watched (K := K) ..))

theorem dirs_heldRename (l : Renaming σ) (i j : Ptr) : (heldRename l i j).dirs ≠ [] := by
  unfold heldRename
  split <;> simp

theorem trfsRename_inLocks {oldDir oldDentry newDir newDentry : Ptr} {e : Exit (Watched σ)}
    (he : trfsRename (telling K) T oldDir oldDentry newDir newDentry ⟨s, .none, b⟩ = .ok e) :
    e.InLocks := by
  obtain ⟨l, hl⟩ : ∃ l, renameLock K oldDentry newDentry s = l := ⟨_, rfl⟩
  have hlock : renameLock (telling K) oldDentry newDentry ⟨s, .none, b⟩ =
      watchedRenaming l (Renaming.locked K l) b :=
    (renameLock_watched (K := K) oldDentry newDentry s b).trans (by rw [hl])
  have hlower : renameLower (telling K) (watchedRenaming l (Renaming.locked K l) b) = _ :=
    renameLower_watched (K := K) l b
  simp only [trfsRename, hlock, hlower] at he
  split at he
  · cases he
    exact .out (congrArg Watched.held (renameOut_watched (K := K) ..)) _
  split at he <;> cases he
  · exact .out (congrArg Watched.held (renameOut_watched (K := K) ..)) _
  next hsubs =>
    refine .entries hsubs ?_ ?_ _
    · intro p q
      simp [renameRecord, telling, Renaming.locked, dirs_heldRename]
    · exact congrArg Watched.held
        ((congrArg _ ((if_congr Iff.rfl (renameDone_watched (K := K) ..) rfl).trans
          (ite_watched ..))).trans (renameOut_watched (K := K) ..))

/-- What the locks' steps say of the operations: the record is queued with a lower directory
locked, and no exit leaves one locked. -/
theorem Call.inLocks {c : Call} (hc : c.logType.Namespace) {e : Exit (Watched σ)}
    (he : c.trfs (telling K) T P ⟨s, .none, b⟩ = .ok e) : e.InLocks := by
  cases c with
  | mkdir dir dentry mode => exact trfsMkdir_inLocks he
  | unlink dir dentry => exact trfsUnlink_inLocks he
  | link oldDentry dir newDentry => exact trfsLink_inLocks he
  | rename oldDir oldDentry newDir newDentry => exact trfsRename_inLocks he
  | rmdir dir dentry => exact trfsRmdir_inLocks he
  | readdir | open_ | read | write | close => exact hc.elim

end Queued

abbrev Locked (P : PageSize) : Type := State P × Locks

namespace Locked

def start (P : PageSize) : Locked P := (State.start P, .start)

def step : Locked P → Label P ⊕ LockLabel → Option (Locked P) :=
  (Locks.surroundings P).step State.step

end Locked

def Phase.InLocks : Phase P → Prop
  | .invoked | .built _ => True
  | _ => False

def Phase.Finished : Phase P → Prop
  | .done | .returned => True
  | _ => False

theorem Phase.Finished.handed {p : Phase P} (h : p.Finished) : p.Handed := by
  cases p <;> first | exact h.elim | trivial

theorem Phase.Next.finished {op : Nat} {l : Label P} {p p' : Phase P} (h : Phase.Next op p l p')
    (hp : p.Finished) : p'.Finished := by
  cases h <;> first | exact hp.elim | trivial

theorem Step.finished {s s' : State P} {l : Label P} (hs : Step s l s') {op : Nat}
    (h : (s.phase op).Finished) : (s'.phase op).Finished := by
  rcases hs.phase op with heq | hnext
  · exact heq ▸ h
  · exact hnext.finished h

namespace Locked

structure Kept (c : Locked P) : Prop where
  tracked : c.1.Tracked
  holds : ∀ op dir, dir ∈ c.2.parents op → (c.1.phase op).InLocks → c.2.holder dir = some op
  built : ∀ op job, c.1.phase op = .built job → ¬ job.type.Namespace → c.2.parents op = []
  lockless : ∀ op, ¬ (c.1.phase op).InLocks → ¬ (c.1.phase op).Finished → c.2.parents op = []
  effects : c.2.effects.Nodup
  finished : ∀ a b, Precedes c.2.effects a b → c.2.Shares a b → (c.1.phase a).Finished
  ordered : ∀ a b, Precedes c.1.chain a b → c.2.Shares a b → ¬ Precedes c.2.effects b a

variable {c c' : Locked P}

theorem shares_symm {e : Locks} {a b : Nat} (h : e.Shares a b) : e.Shares b a := by
  obtain ⟨dir, ha, hb⟩ := h
  exact ⟨dir, hb, ha⟩

theorem not_shares {e : Locks} {a b : Nat} (h : e.parents a = []) : ¬ e.Shares a b := by
  rintro ⟨dir, hdir, -⟩
  rw [h] at hdir
  cases hdir

theorem start_kept (P : PageSize) : (start P).Kept where
  tracked := start_tracked P
  holds _ _ hdir := nomatch hdir
  built _ _ _ _ := rfl
  lockless _ _ _ := rfl
  effects := List.nodup_nil
  finished _ _ h := absurd h.mem_left (by simp [start, Locks.start])
  ordered _ _ h := absurd h.mem_left
    (by simp [start, State.start, State.chain, Trfs.chain, Ledger.logged, Ledger.log])

theorem see_eq {s : State P} {e e' : Locks} {l : Label P} (h : Locks.see s e l = some e') :
    e' = e ∧ ∀ op job, l = .build op (some job) → ¬ job.type.Namespace → e.parents op = [] := by
  unfold Locks.see at h
  split at h
  · obtain ⟨hcond, heq⟩ := Option.ite_none_right_eq_some.mp h
    refine ⟨(Option.some.inj heq).symm, ?_⟩
    rintro op job heq hno
    cases heq
    rwa [if_neg hno] at hcond
  · obtain ⟨-, heq⟩ := Option.ite_none_right_eq_some.mp h
    exact ⟨(Option.some.inj heq).symm, by simp⟩
  · rename_i hbuild _
    refine ⟨(Option.some.inj h).symm, ?_⟩
    rintro op job rfl
    exact absurd rfl (hbuild op job)

theorem Kept.lockless_of_next {op : Nat} {l : Label P} {p : Phase P} (h : c.Kept)
    (hnext : Phase.Next op (c.1.phase op) l p) (hlocks : ¬ p.InLocks) (hfin : ¬ p.Finished) :
    c.2.parents op = [] := by
  cases hp : c.1.phase op with
  | built job =>
    rw [hp] at hnext
    refine h.built op job hp ?_
    cases hnext with
    | @checkLarge _ hl =>
      have hdata := hl.hasData job.sized
      cases hty : job.type <;> rw [hty] at hdata <;> first | exact hdata.elim | exact id
    | @checkReaddir _ hr =>
      rw [hr]
      exact id
    | _ => exact absurd trivial hfin
  | idle | checked | flushing | ready | logging =>
    exact h.lockless op (by rw [hp]; exact id) (by rw [hp]; exact id)
  | invoked =>
    rw [hp] at hnext
    cases hnext with
    | build => exact absurd trivial hlocks
    | giveUp => exact absurd trivial hfin
  | done | returned =>
    exact absurd (hnext.finished (by rw [hp]; trivial)) hfin

theorem Kept.inner {s' : State P} {l : Label P} (h : c.Kept) (hs : Step c.1 l s')
    (hl : ∀ op job, l = .build op (some job) → ¬ job.type.Namespace → c.2.parents op = []) :
    Kept (s', c.2) where
  tracked := hs.tracked h.tracked
  holds op dir hdir hlocks := by
    refine h.holds op dir hdir ?_
    rcases hs.phase op with heq | hnext
    · exact heq ▸ hlocks
    · cases hp : c.1.phase op with
      | idle =>
        rw [h.lockless op (by rw [hp]; exact id) (by rw [hp]; exact id)] at hdir
        cases hdir
      | invoked | built => trivial
      | _ =>
        rw [hp] at hnext
        change (s'.phase op).InLocks at hlocks
        generalize s'.phase op = p at hnext hlocks
        cases hnext <;> exact hlocks
  built op job hp hno := by
    rcases hs.phase op with heq | hnext
    · exact h.built op job (heq ▸ hp) hno
    · change s'.phase op = .built job at hp
      rw [hp] at hnext
      generalize c.1.phase op = p at hnext
      cases hnext with
      | build => exact hl op job rfl hno
  lockless op hlocks hfin := by
    rcases hs.phase op with heq | hnext
    · exact h.lockless op (heq ▸ hlocks) (heq ▸ hfin)
    · exact h.lockless_of_next hnext hlocks hfin
  effects := h.effects
  finished a b hab hshares := hs.finished (h.finished a b hab hshares)
  ordered := by
    intro a b hab hshares hba
    have hlast : ¬ (c.1.phase b).Handed → False := fun hno =>
      hno (h.finished b a hba (shares_symm hshares)).handed
    change Precedes s'.chain a b at hab
    rcases hs.chain with hsub | ⟨op, heq, hop⟩ | ⟨op, job, hr, rfl, hp, heq⟩
    · exact h.ordered a b (hab.sublist hsub) hshares hba
    · rw [heq, Precedes.concat_iff] at hab
      rcases hab with hab | ⟨-, rfl⟩
      · exact h.ordered a b hab hshares hba
      · exact hlast hop
    · have hnone := h.lockless op (by rw [hp]; exact id) (by rw [hp]; exact id)
      have ha : a ≠ op := by
        rintro rfl
        exact not_shares hnone hshares
      have hb : b ≠ op := by
        rintro rfl
        exact not_shares hnone (shares_symm hshares)
      rw [heq] at hab
      exact h.ordered a b (hab.of_insert ha hb) hshares hba

theorem Kept.act_lock {op : Nat} {dir : Ptr} (h : c.Kept) (hp : c.1.phase op = .invoked)
    (hop : op ∉ c.2.effects) (hfree : c.2.holder dir = none) :
    Kept (c.1, { c.2 with
      holder := Function.update c.2.holder dir (some op)
      parents := Function.update c.2.parents op (dir :: c.2.parents op) }) := by
  have hlocks : (c.1.phase op).InLocks := by
    rw [hp]
    trivial
  have hshares : ∀ {a b : Nat}, a ∈ c.2.effects → b ∈ c.2.effects →
      Locks.Shares
        { c.2 with parents := Function.update c.2.parents op (dir :: c.2.parents op) } a b →
      c.2.Shares a b := by
    rintro a b ha hb ⟨d, hda, hdb⟩
    have hne : ∀ x ∈ c.2.effects, x ≠ op := fun x hx heq => hop (heq ▸ hx)
    simp only [Function.update_of_ne (hne a ha)] at hda
    simp only [Function.update_of_ne (hne b hb)] at hdb
    exact ⟨d, hda, hdb⟩
  refine { h with holds := ?_, built := ?_, lockless := ?_, finished := ?_, ordered := ?_ }
  · intro op' dir' hdir hlocks'
    have hother : dir' ∈ c.2.parents op' →
        Function.update c.2.holder dir (some op) dir' = some op' := by
      intro hold
      have hheld := h.holds op' dir' hold hlocks'
      rw [Function.update_of_ne, hheld]
      rintro rfl
      rw [hfree] at hheld
      cases hheld
    by_cases heq : op' = op
    · subst heq
      simp only [Function.update_self] at hdir
      rcases List.mem_cons.mp hdir with rfl | hdir
      · exact Function.update_self ..
      · exact hother hdir
    · simp only [Function.update_of_ne heq] at hdir
      exact hother hdir
  · intro op' job hp' hno
    have heq : op' ≠ op := by
      rintro rfl
      rw [hp] at hp'
      cases hp'
    exact (Function.update_of_ne heq _ _).trans (h.built op' job hp' hno)
  · intro op' hlocks' hfin
    have heq : op' ≠ op := by
      rintro rfl
      exact hlocks' hlocks
    exact (Function.update_of_ne heq _ _).trans (h.lockless op' hlocks' hfin)
  · exact fun a b hab hs => h.finished a b hab (hshares hab.mem_left hab.mem_right hs)
  · exact fun a b hab hs hba => h.ordered a b hab (hshares hba.mem_right hba.mem_left hs) hba

theorem Kept.act_lower {op : Nat} (h : c.Kept) (hp : c.1.phase op = .invoked)
    (hop : op ∉ c.2.effects) :
    Kept (c.1, { c.2 with effects := c.2.effects ++ [op] }) := by
  refine { h with effects := ?_, finished := ?_, ordered := ?_ }
  · rw [← List.concat_eq_append]
    exact h.effects.concat hop
  · intro a b hab hshares
    rcases Precedes.concat_iff.mp hab with hab | ⟨hmem, rfl⟩
    · exact h.finished a b hab hshares
    · -- the later operation holds the lock that they share, so the earlier one is past its own
      by_contra hfin
      obtain ⟨dir, hda, hdb⟩ := hshares
      have hheld := h.holds b dir hdb (by rw [hp]; trivial)
      by_cases hlocks : (c.1.phase a).InLocks
      · rw [h.holds a dir hda hlocks] at hheld
        exact hop (Option.some.inj hheld ▸ hmem)
      · change dir ∈ c.2.parents a at hda
        rw [h.lockless a hlocks hfin] at hda
        cases hda
  · intro a b hab hshares hba
    rcases Precedes.concat_iff.mp hba with hba | ⟨-, rfl⟩
    · exact h.ordered a b hab hshares hba
    · have hhanded := h.tracked.chain_handed hab.mem_left
      rw [hp] at hhanded
      exact hhanded

theorem Kept.act_unlock {op : Nat} {dir : Ptr} (h : c.Kept) (hp : c.1.phase op = .done)
    (hheld : c.2.holder dir = some op) :
    Kept (c.1, { c.2 with holder := Function.update c.2.holder dir none }) := by
  refine { h with holds := ?_ }
  intro op' dir' hdir hlocks
  have hholds := h.holds op' dir' hdir hlocks
  have hne : dir' ≠ dir := by
    rintro rfl
    rw [hheld] at hholds
    cases hholds
    rw [hp] at hlocks
    exact hlocks
  exact (Function.update_of_ne hne _ _).trans hholds

theorem Kept.outer {e : Locks} {a : LockLabel} (h : c.Kept) (ha : Locks.act c.1 c.2 a = some e) :
    Kept (c.1, e) := by
  cases a with
  | lock op dir =>
    simp only [Locks.act] at ha
    split at ha
    case h_2 => cases ha
    case h_1 hp =>
      obtain ⟨⟨hop, hfree⟩, heq⟩ := Option.ite_none_right_eq_some.mp ha
      cases heq
      exact h.act_lock hp hop hfree
  | lower op =>
    simp only [Locks.act] at ha
    split at ha
    case h_2 => cases ha
    case h_1 hp =>
      obtain ⟨⟨hop, -⟩, heq⟩ := Option.ite_none_right_eq_some.mp ha
      cases heq
      exact h.act_lower hp hop
  | unlock op dir =>
    simp only [Locks.act] at ha
    split at ha
    case h_2 => cases ha
    case h_1 hp =>
      obtain ⟨hheld, heq⟩ := Option.ite_none_right_eq_some.mp ha
      cases heq
      exact h.act_unlock hp hheld

theorem Kept.step {a : Label P ⊕ LockLabel} (h : c.Kept) (hs : step c a = some c') : c'.Kept := by
  cases a with
  | inl l =>
    obtain ⟨hstep, hsee⟩ := Surroundings.step_inl.mp hs
    obtain ⟨heq, hl⟩ := see_eq (s := c.1) hsee
    have hinner := h.inner (Step.of_step hstep) hl
    rwa [← heq] at hinner
  | inr a =>
    obtain ⟨heq, hact⟩ := Surroundings.step_inr.mp hs
    have houter := h.outer hact
    rwa [← heq] at houter

def InEffectOrder (c : Locked P) : Prop :=
  ∀ a b, c.2.Shares a b → Precedes c.2.effects a b →
    a ∈ c.1.ledger.logged → b ∈ c.1.ledger.logged →
      ∃ i j, i < j ∧ c.1.ledger.NumberedAt i a ∧ c.1.ledger.NumberedAt j b

theorem Kept.inEffectOrder (h : c.Kept) (hnum : c.1.Numbered) : c.InEffectOrder := by
  intro a b hshares hab ha hb
  have hchain : Precedes c.1.ledger.logged a b := by
    refine (Precedes.total ha hb (hab.ne h.effects)).resolve_right ?_
    intro hba
    exact h.ordered b a (hba.sublist (List.sublist_append_left _ _)) (shares_symm hshares) hab
  obtain ⟨i, j, hij, hi, hj⟩ := hchain.exists_getElem?
  exact ⟨i, j, hij, hnum.numberedAt hi, hnum.numberedAt hj⟩

end Locked

/-- Whatever the interleaving of the locks, the queue and the mutex, operations on a common lower
directory are in the stream, and have their ids, in the order of their lower calls. -/
theorem records_in_effect_order (P : PageSize) {labels : List (Label P ⊕ LockLabel)} {c : Locked P}
    (h : run Locked.step (Locked.start P) labels = some c) :
    c.1.sb.trInfo.stream = c.1.ledger.log.flatMap Segment.bytes ∧ c.InEffectOrder := by
  have hkept : c.Kept := run_invariant Locked.Kept (fun _ _ _ hc hs => hc.step hs)
    (Locked.start_kept P) h
  have hrun := Surroundings.run_inner h
  exact ⟨(describes_of_run hrun).stream, hkept.inEffectOrder (numbered_of_run hrun)⟩

def rootMkdir : Job .small :=
  (mkdirRecord_sound (K := Kernel.inert) (T := .plenty) 5 0 0 () .root).job

def mkdirsOverlapping : List (Label .small ⊕ LockLabel) :=
  [.inl (.invoke 1), .inr (.lock 1 7), .inl (.invoke 2), .inr (.lower 1),
    .inl (.build 1 (some rootMkdir)), .inl (.submit 1), .inr (.unlock 1 7), .inr (.lock 2 7),
    .inr (.lower 2), .inl (.build 2 (some rootMkdir)), .inl (.submit 2), .inr (.unlock 2 7),
    .inl (.ret 2), .inl .take, .inl .work, .inl .take, .inl .work, .inl (.ret 1)]

theorem records_in_effect_order_mkdirsOverlapping :
    ∃ c, run Locked.step (Locked.start .small) mkdirsOverlapping = some c ∧
      c.1.ledger.logged = [1, 2] ∧
        c.1.sb.trInfo.stream = c.1.ledger.log.flatMap Segment.bytes ∧ c.InEffectOrder := by
  have hrun : ((run Locked.step (Locked.start .small) mkdirsOverlapping).map fun c =>
      c.1.ledger.logged) = some [1, 2] := by decide +kernel
  obtain ⟨c, hc, hlogged⟩ := Option.map_eq_some_iff.mp hrun
  exact ⟨c, hc, hlogged, records_in_effect_order .small hc⟩

end TraceFS.Trfs
