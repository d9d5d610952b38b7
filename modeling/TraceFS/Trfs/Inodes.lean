import TraceFS.Lib.Run
import TraceFS.Lib.Table
import TraceFS.Linux.Kernel
import Mathlib.Algebra.Group.Pi.Basic
import Mathlib.Tactic.Abel

namespace TraceFS.Trfs

open TraceFS.Lib TraceFS.Linux

abbrev Lower := {p : Ptr // p ≠ NULL}

/-- An interposition has the lower inode from a path that keeps it there, `trfs_nfs_get_inode`
has a reference of its own from `ilookup`. -/
inductive IgetCaller where
  | interpose
  | nfs
  deriving DecidableEq

inductive Inode where
  /-- as `iget5_locked` returns a new one: `trfs_inode_set` sets nothing -/
  | fresh (caller : IgetCaller) (lower : Lower)
  | filled (lower : Lower)
  | live (lower : Lower) (iCount : Nat)
  /-- still `I_NEW` after `-ESTALE` -/
  | stale
  deriving DecidableEq

def Inode.lowerInode : Inode → Ptr
  | .fresh _ _ | .stale => NULL
  | .filled lower | .live lower _ => lower

def Inode.test (i : Inode) (candidate : Ptr) : Bool := i.lowerInode = candidate

/-- The hash, and the references on lower inodes that were taken less those that were dropped. -/
structure Icache where
  inodes : Table Ptr Inode
  held : Ptr → ℤ

def Icache.start : Icache where
  inodes := ∅
  held := 0

inductive IcacheLabel where
  | fails (caller : IgetCaller) (lower : Lower)
  | finds (caller : IgetCaller) (lower : Lower) (inode : Ptr)
  | allocates (caller : IgetCaller) (lower : Lower) (inode : Ptr)
  | igrabs (inode : Ptr) (ok : Bool)
  | unlocks (inode : Ptr)
  | ihold (inode : Ptr)
  | iput (inode : Ptr)
  deriving DecidableEq

def ref (inode : Ptr) : Ptr → ℤ := Pi.single inode 1

def IgetCaller.refs (lower : Lower) : IgetCaller → Ptr → ℤ
  | .interpose => 0
  | .nfs => ref lower

def Inode.refs : Inode → Ptr → ℤ
  | .fresh caller lower => caller.refs lower
  | .filled lower | .live lower _ => ref lower
  | .stale => 0

namespace Icache

def step (s : Icache) : IcacheLabel → Option Icache
  | .fails caller lower => some { s with held := s.held + caller.refs lower - ref lower }
  | .finds caller lower a =>
    -- `iget5_locked` waits for an inode that is `I_NEW`
    match s.inodes.lookup a with
    | some (.live lower' iCount) =>
      if (Inode.live lower' iCount).test lower then
        some ⟨s.inodes.insert a (.live lower' (iCount + 1)), s.held + caller.refs lower⟩
      else none
    | _ => none
  | .allocates caller lower a =>
    if a ∉ s.inodes ∧ ∀ e ∈ s.inodes.entries, e.2.test lower = false then
      some ⟨s.inodes.insert a (.fresh caller lower), s.held + caller.refs lower⟩
    else none
  | .igrabs a ok =>
    match s.inodes.lookup a with
    | some (.fresh _ lower) =>
      if ok then some ⟨s.inodes.insert a (.filled lower), s.held + ref lower⟩
      else some { s with inodes := s.inodes.insert a .stale }
    | _ => none
  | .unlocks a =>
    match s.inodes.lookup a with
    | some (.filled lower) => some { s with inodes := s.inodes.insert a (.live lower 1) }
    | _ => none
  | .ihold a =>
    match s.inodes.lookup a with
    | some (.live lower iCount) =>
      some { s with inodes := s.inodes.insert a (.live lower (iCount + 1)) }
    | _ => none
  | .iput a =>
    match s.inodes.lookup a with
    | some (.live lower iCount) =>
      -- `generic_delete_inode`: the last one evicts it
      if iCount ≤ 1 then some ⟨s.inodes.erase a, s.held - ref lower⟩
      else some { s with inodes := s.inodes.insert a (.live lower (iCount - 1)) }
    | _ => none

variable {s s' : Icache}

inductive Next (s : Icache) : IcacheLabel → Icache → Prop where
  | fails (caller : IgetCaller) (lower : Lower) :
      s.Next (.fails caller lower) { s with held := s.held + caller.refs lower - ref lower }
  | finds (caller : IgetCaller) {lower : Lower} {a : Ptr} {iCount : Nat}
      (ha : s.inodes.lookup a = some (.live lower iCount)) :
      s.Next (.finds caller lower a)
        ⟨s.inodes.insert a (.live lower (iCount + 1)), s.held + caller.refs lower⟩
  | allocates (caller : IgetCaller) {lower : Lower} {a : Ptr} (ha : s.inodes.lookup a = none)
      (hnone : ∀ b j, s.inodes.lookup b = some j → j.lowerInode ≠ lower) :
      s.Next (.allocates caller lower a)
        ⟨s.inodes.insert a (.fresh caller lower), s.held + caller.refs lower⟩
  | grabs {caller : IgetCaller} {lower : Lower} {a : Ptr}
      (ha : s.inodes.lookup a = some (.fresh caller lower)) :
      s.Next (.igrabs a true) ⟨s.inodes.insert a (.filled lower), s.held + ref lower⟩
  | misses {caller : IgetCaller} {lower : Lower} {a : Ptr}
      (ha : s.inodes.lookup a = some (.fresh caller lower)) :
      s.Next (.igrabs a false) { s with inodes := s.inodes.insert a .stale }
  | unlocks {lower : Lower} {a : Ptr} (ha : s.inodes.lookup a = some (.filled lower)) :
      s.Next (.unlocks a) { s with inodes := s.inodes.insert a (.live lower 1) }
  | ihold {lower : Lower} {a : Ptr} {iCount : Nat}
      (ha : s.inodes.lookup a = some (.live lower iCount)) :
      s.Next (.ihold a) { s with inodes := s.inodes.insert a (.live lower (iCount + 1)) }
  | iput {lower : Lower} {a : Ptr} {iCount : Nat}
      (ha : s.inodes.lookup a = some (.live lower iCount)) :
      s.Next (.iput a) { s with inodes := s.inodes.insert a (.live lower (iCount - 1)) }
  | evict {lower : Lower} {a : Ptr} {iCount : Nat}
      (ha : s.inodes.lookup a = some (.live lower iCount)) :
      s.Next (.iput a) ⟨s.inodes.erase a, s.held - ref lower⟩

theorem Next.of_step {l : IcacheLabel} (h : s.step l = some s') : s.Next l s' := by
  cases l with
  | fails caller lower =>
    cases h
    exact .fails caller lower
  | finds caller lower a =>
    simp only [step] at h
    split at h
    case h_1 lower' iCount ha =>
      obtain ⟨htest, ⟨⟩⟩ := Option.ite_none_right_eq_some.mp h
      obtain rfl : lower' = lower := Subtype.ext (of_decide_eq_true htest)
      exact .finds caller ha
    case h_2 => cases h
  | allocates caller lower a =>
    obtain ⟨⟨ha, htest⟩, ⟨⟩⟩ := Option.ite_none_right_eq_some.mp h
    refine .allocates caller (AList.lookup_eq_none.mpr ha) ?_
    intro b j hj
    exact of_decide_eq_false (htest _ (AList.mem_lookup_iff.mp hj))
  | igrabs a ok =>
    simp only [step] at h
    split at h
    case h_1 caller lower ha =>
      cases ok
      · cases h
        exact .misses ha
      · cases h
        exact .grabs ha
    case h_2 => cases h
  | unlocks a =>
    simp only [step] at h
    split at h
    case h_1 lower ha =>
      cases h
      exact .unlocks ha
    case h_2 => cases h
  | ihold a =>
    simp only [step] at h
    split at h
    case h_1 lower iCount ha =>
      cases h
      exact .ihold ha
    case h_2 => cases h
  | iput a =>
    simp only [step] at h
    split at h
    case h_1 lower iCount ha =>
      split at h
      · cases h
        exact .evict ha
      · cases h
        exact .iput ha
    case h_2 => cases h

section Unique

def Unique (inodes : Table Ptr Inode) : Prop :=
  ∀ a b i j, inodes.lookup a = some i → inodes.lookup b = some j → i.lowerInode = j.lowerInode →
    i.lowerInode ≠ NULL → a = b

/-- A lookup that sets a lower inode is the only one to have done so since `iget5_locked` found
no inode for it. -/
def SetsFirst (s : Icache) : IcacheLabel → Prop
  | .igrabs a true => ∀ caller lower, s.inodes.lookup a = some (.fresh caller lower) →
      ∀ b j, s.inodes.lookup b = some j → j.lowerInode ≠ lower
  | _ => True

variable {t : Table Ptr Inode} {a : Ptr} {i : Inode}

theorem unique_insert_iff
    (hold : ∀ j, t.lookup a = some j → j.lowerInode = NULL ∨ j.lowerInode = i.lowerInode) :
    Unique (t.insert a i) ↔ Unique t ∧ (i.lowerInode ≠ NULL →
      ∀ b j, b ≠ a → t.lookup b = some j → j.lowerInode ≠ i.lowerInode) := by
  constructor
  · intro h
    have hother : i.lowerInode ≠ NULL →
        ∀ b j, b ≠ a → t.lookup b = some j → j.lowerInode ≠ i.lowerInode := by
      intro hne b j hb hj heq
      have hj' := Table.lookup_insert_eq_some (k := a) (x := i) |>.mpr (.inr ⟨hb, hj⟩)
      exact hb (h b a j i hj' (AList.lookup_insert t) heq (heq ▸ hne))
    refine ⟨?_, hother⟩
    intro b c j k hj hk heq hne
    by_cases hb : b = a
    · subst hb
      have hji := (hold j hj).resolve_left hne
      by_contra hbc
      exact hother (hji ▸ hne) c k (Ne.symm hbc) hk (heq.symm.trans hji)
    · by_cases hc : c = a
      · subst hc
        have hki := (hold k hk).resolve_left (heq ▸ hne)
        exact absurd (heq.trans hki) (hother (hki ▸ heq ▸ hne) b j hb hj)
      · exact h b c j k (Table.lookup_insert_eq_some.mpr (.inr ⟨hb, hj⟩))
          (Table.lookup_insert_eq_some.mpr (.inr ⟨hc, hk⟩)) heq hne
  · rintro ⟨h, hother⟩ b c j k hj hk heq hne
    rcases Table.lookup_insert_eq_some.mp hj with ⟨rfl, rfl⟩ | ⟨hb, hj'⟩ <;>
      rcases Table.lookup_insert_eq_some.mp hk with ⟨rfl, rfl⟩ | ⟨hc, hk'⟩
    · rfl
    · exact absurd heq.symm (hother hne c k hc hk')
    · exact absurd heq (hother (heq ▸ hne) b j hb hj')
    · exact h b c j k hj' hk' heq hne

theorem unique_insert_of_null (hi : i.lowerInode = NULL)
    (hold : ∀ j, t.lookup a = some j → j.lowerInode = NULL) :
    Unique (t.insert a i) ↔ Unique t := by
  rw [unique_insert_iff fun j hj => .inl (hold j hj), and_iff_left]
  exact fun hne => absurd hi hne

theorem unique_insert_of_same {j : Inode} (ha : t.lookup a = some j)
    (heq : j.lowerInode = i.lowerInode) : Unique (t.insert a i) ↔ Unique t := by
  have hold : ∀ k, t.lookup a = some k → k.lowerInode = NULL ∨ k.lowerInode = i.lowerInode := by
    intro k hk
    cases ha.symm.trans hk
    exact .inr heq
  rw [unique_insert_iff hold, and_iff_left_iff_imp]
  intro h hne b k hb hk hki
  exact hb (h b a k j hk ha (hki.trans heq.symm) (hki ▸ hne))

theorem Next.unique {l : IcacheLabel} (hs : s.Next l s') (h : Unique s.inodes) :
    Unique s'.inodes ↔ s.SetsFirst l := by
  cases hs with
  | fails caller lower => exact iff_of_true h trivial
  | finds caller ha | ihold ha | unlocks ha | iput ha =>
    refine iff_of_true ((unique_insert_of_same ha ?_).mpr h) trivial
    rfl
  | allocates caller ha hnone =>
    refine iff_of_true ((unique_insert_of_null rfl ?_).mpr h) trivial
    intro j hj
    cases ha.symm.trans hj
  | misses ha =>
    refine iff_of_true ((unique_insert_of_null rfl ?_).mpr h) trivial
    intro j hj
    cases ha.symm.trans hj
    rfl
  | evict ha =>
    refine iff_of_true ?_ trivial
    intro b c j k hj hk
    exact h b c j k (Table.lookup_erase_eq_some.mp hj).2 (Table.lookup_erase_eq_some.mp hk).2
  | @grabs caller lower a ha =>
    have hold : ∀ j, s.inodes.lookup a = some j →
        j.lowerInode = NULL ∨ j.lowerInode = (Inode.filled lower).lowerInode := by
      intro j hj
      cases ha.symm.trans hj
      exact .inl rfl
    rw [unique_insert_iff hold, and_iff_right h]
    constructor
    · intro hfirst caller' lower' ha' b j hj
      cases ha.symm.trans ha'
      by_cases hb : b = a
      · subst hb
        cases ha.symm.trans hj
        exact lower.2.symm
      · exact hfirst lower.2 b j hb hj
    · intro hfirst _ b j _ hj
      exact hfirst caller lower ha b j hj

theorem unique_iff (labels : List IcacheLabel) (s : Icache) (h : run step start labels = some s) :
    (∀ pre post t, labels = pre ++ post → run step start pre = some t → Unique t.inodes) ↔
      Along SetsFirst step start labels := by
  refine run_holds_iff_along (Q := fun s => Unique s.inodes) (fun s => Unique s.inodes)
    (fun _ h => h) ?_ ?_ h
  · intro s l s' hs hstep
    have hiff := (Next.of_step hstep).unique hs
    exact ⟨hiff.mpr, hiff.mp⟩
  · intro a b i j hi
    cases hi

def racing : List IcacheLabel :=
  [.allocates .interpose ⟨7, by decide⟩ 1, .allocates .interpose ⟨7, by decide⟩ 2, .igrabs 1 true,
    .igrabs 2 true]

theorem unique_iff_racing :
    (∀ pre post t, racing = pre ++ post → run step start pre = some t → Unique t.inodes) ↔
      Along SetsFirst step start racing := by
  obtain ⟨s, hs⟩ : ∃ s, run step start racing = some s :=
    Option.isSome_iff_exists.mp (by decide +kernel)
  exact unique_iff racing s hs

end Unique

section Held

def Accounted (s : Icache) : Prop := s.held = Table.total (fun _ i => i.refs) s.inodes

/-- `trfs_iget` drops the reference of its caller when there is no inode, and takes one of its
own when there is: the one is wrong for an interposition, the other for an NFS file handle. -/
def Accounts (s : Icache) : IcacheLabel → Prop
  | .fails caller _ => caller = .nfs
  | .finds caller _ _ => caller = .interpose
  | .igrabs a _ => ∀ caller lower, s.inodes.lookup a = some (.fresh caller lower) →
      caller = .interpose
  | _ => True

theorem ref_ne_zero (p : Ptr) : ref p ≠ 0 := by
  intro h
  have hp := congrFun h p
  rw [ref, Pi.single_eq_same] at hp
  exact one_ne_zero hp

theorem callerRefs_eq_zero_iff {caller : IgetCaller} (lower : Lower) :
    caller.refs lower = 0 ↔ caller = .interpose := by
  cases caller with
  | interpose => exact iff_of_true rfl rfl
  | nfs => exact iff_of_false (ref_ne_zero lower) nofun

theorem callerRefs_eq_ref_iff {caller : IgetCaller} (lower : Lower) :
    caller.refs lower = ref lower ↔ caller = .nfs := by
  cases caller with
  | interpose => exact iff_of_false (ref_ne_zero lower).symm nofun
  | nfs => exact iff_of_true rfl rfl

theorem accounts_igrabs_iff {caller : IgetCaller} {lower : Lower} {a : Ptr} {ok : Bool}
    (ha : s.inodes.lookup a = some (.fresh caller lower)) :
    s.Accounts (.igrabs a ok) ↔ caller = .interpose := by
  constructor
  · intro h
    exact h caller lower ha
  · intro h caller' lower' ha'
    cases ha.symm.trans ha'
    exact h

theorem Next.accounted {l : IcacheLabel} (hs : s.Next l s') (h : s.Accounted) :
    s'.Accounted ↔ s.Accounts l := by
  unfold Accounted at h ⊢
  cases hs with
  | fails caller lower =>
    rw [Accounts, ← callerRefs_eq_ref_iff lower, ← h, add_sub_assoc, add_eq_left, sub_eq_zero]
  | @finds caller lower a iCount ha =>
    rw [Accounts, ← callerRefs_eq_zero_iff lower, Table.total_insert_of_some _ ha, ← h]
    simp [Inode.refs]
  | allocates caller ha hnone =>
    rw [Table.total_insert_of_none _ ha, ← h]
    exact iff_of_true rfl trivial
  | @grabs caller lower a ha =>
    rw [accounts_igrabs_iff ha, ← callerRefs_eq_zero_iff lower, Table.total_insert_of_some _ ha,
      ← h, eq_comm]
    simp [Inode.refs]
  | @misses caller lower a ha =>
    rw [accounts_igrabs_iff ha, ← callerRefs_eq_zero_iff lower, Table.total_insert_of_some _ ha,
      ← h, eq_comm]
    simp [Inode.refs]
  | unlocks ha | ihold ha | iput ha =>
    rw [Table.total_insert_of_some _ ha, ← h]
    exact iff_of_true (sub_add_cancel _ _).symm trivial
  | evict ha =>
    rw [Table.total_erase_of_some _ ha, ← h]
    exact iff_of_true rfl trivial

theorem start_accounted : start.Accounted := rfl

theorem accounted_iff (labels : List IcacheLabel) (s : Icache)
    (h : run step start labels = some s) :
    (∀ pre post t, labels = pre ++ post → run step start pre = some t → t.Accounted) ↔
      Along Accounts step start labels := by
  refine run_holds_iff_along Accounted (fun _ h => h) ?_ start_accounted h
  intro s l s' hs hstep
  have hiff := (Next.of_step hstep).accounted hs
  exact ⟨hiff.mpr, hiff.mp⟩

def handleFirst : List IcacheLabel :=
  [.allocates .interpose ⟨7, by decide⟩ 1, .igrabs 1 true, .unlocks 1,
    .finds .nfs ⟨7, by decide⟩ 1, .iput 1, .iput 1]

theorem accounted_iff_handleFirst :
    (∀ pre post t, handleFirst = pre ++ post → run step start pre = some t → t.Accounted) ↔
      Along Accounts step start handleFirst := by
  obtain ⟨s, hs⟩ : ∃ s, run step start handleFirst = some s :=
    Option.isSome_iff_exists.mp (by decide +kernel)
  exact accounted_iff handleFirst s hs

end Held

section Stale

def NoStale (inodes : Table Ptr Inode) : Prop := ∀ a, inodes.lookup a ≠ some .stale

theorem noStale_insert_iff {t : Table Ptr Inode} {a : Ptr} {i : Inode}
    (ha : t.lookup a ≠ some .stale) : NoStale (t.insert a i) ↔ NoStale t ∧ i ≠ .stale := by
  constructor
  · intro h
    have hi : i ≠ .stale := by
      rintro rfl
      exact h a (AList.lookup_insert t)
    refine ⟨?_, hi⟩
    intro b hb
    refine h b (Table.lookup_insert_eq_some.mpr (.inr ⟨?_, hb⟩))
    rintro rfl
    exact ha hb
  · rintro ⟨h, hi⟩ b hb
    rcases Table.lookup_insert_eq_some.mp hb with ⟨-, heq⟩ | ⟨-, hb⟩
    · exact hi heq.symm
    · exact h b hb

theorem noStale_erase_iff {t : Table Ptr Inode} {a : Ptr} (ha : t.lookup a ≠ some .stale) :
    NoStale (t.erase a) ↔ NoStale t := by
  constructor
  · intro h b hb
    refine h b (Table.lookup_erase_eq_some.mpr ⟨?_, hb⟩)
    rintro rfl
    exact ha hb
  · intro h b hb
    exact h b (Table.lookup_erase_eq_some.mp hb).2

theorem Next.noStale {l : IcacheLabel} (hs : s.Next l s') :
    NoStale s'.inodes ↔ NoStale s.inodes ∧ ∀ a, l ≠ .igrabs a false := by
  have hother : ∀ {a : Ptr} {i : Inode}, s.inodes.lookup a = some i → i ≠ .stale →
      s.inodes.lookup a ≠ some .stale := by
    intro a i ha hi hstale
    exact hi (Option.some.inj (ha.symm.trans hstale))
  cases hs with
  | fails caller lower => simp
  | finds caller ha | unlocks ha | ihold ha | iput ha | grabs ha =>
    simp [noStale_insert_iff (hother ha (by simp))]
  | @allocates caller lower a ha hnone =>
    have hne : s.inodes.lookup a ≠ some .stale := by simp [ha]
    simp [noStale_insert_iff hne]
  | misses ha => simp [noStale_insert_iff (hother ha (by simp))]
  | evict ha => simp [noStale_erase_iff (hother ha (by simp))]

theorem busy_iff (labels : List IcacheLabel) (s : Icache) (h : run step start labels = some s)
    (hput : ∀ a i, s.inodes.lookup a = some i → i = .stale) :
    (s.inodes ≠ ∅ ↔ ∃ a, .igrabs a false ∈ labels) ∧
      (Along Accounts step start labels → s.held = 0) := by
  have hkept : NoStale s.inodes ↔ ∀ a, .igrabs a false ∉ labels := by
    have hstart : NoStale start.inodes := nofun
    rw [run_keeps_iff_along (Q := fun s => NoStale s.inodes)
      (G := fun _ l => ∀ a, l ≠ .igrabs a false) (fun _ => True) (fun _ _ _ _ _ => trivial)
      (fun s l s' _ hs => (Next.of_step hs).noStale) trivial h, and_iff_right hstart,
      along_iff_forall h]
    exact ⟨fun hall a ha => hall _ ha a rfl, fun hall l hl a heq => hall a (heq ▸ hl)⟩
  have hempty : s.inodes = ∅ ↔ NoStale s.inodes := by
    constructor
    · intro hs a ha
      rw [hs] at ha
      cases ha
    · intro hs
      refine Table.eq_empty_of_lookup fun a => ?_
      cases ha : s.inodes.lookup a with
      | none => rfl
      | some i => exact absurd (hput a i ha ▸ ha) (hs a)
  refine ⟨?_, ?_⟩
  · rw [ne_eq, hempty, hkept]
    simp
  · intro halong
    have hheld : s.Accounted := run_invariant_along Accounted Accounts
      (fun _ _ _ hI hG hs => ((Next.of_step hs).accounted hI).mpr hG) start_accounted halong h
    rw [hheld]
    refine Table.total_eq_zero _ ?_
    intro a i ha
    rw [hput a i ha]
    rfl

def grabFails : List IcacheLabel :=
  [.allocates .interpose ⟨7, by decide⟩ 1, .igrabs 1 false]

theorem busy_iff_grabFails : ∃ s, run step start grabFails = some s ∧
    (s.inodes ≠ ∅ ↔ ∃ a, .igrabs a false ∈ grabFails) ∧
      (Along Accounts step start grabFails → s.held = 0) := by
  refine ⟨⟨AList.singleton 1 .stale, 0 + 0⟩, rfl, ?_⟩
  refine busy_iff grabFails _ rfl ?_
  intro a i ha
  rcases (Table.lookup_insert_eq_some (t := ∅)).mp ha with ⟨-, rfl⟩ | ⟨-, hnone⟩
  · rfl
  · cases hnone

end Stale

end Icache

end TraceFS.Trfs
