import Mathlib.Data.List.AList
import Mathlib.Algebra.BigOperators.Group.List.Basic
import Mathlib.Algebra.Order.BigOperators.Group.List

universe u v w

namespace TraceFS.Lib

abbrev Table (κ : Type u) (ν : Type v) := AList fun _ : κ => ν

namespace Table

variable {κ : Type u} {ν : Type v} {M : Type w} [AddCommGroup M] {t : Table κ ν} {k k' : κ}
  {x y : ν}

def total (weight : κ → ν → M) (t : Table κ ν) : M := (t.entries.map fun e => weight e.1 e.2).sum

@[simp] theorem total_empty (weight : κ → ν → M) : total weight ∅ = 0 := rfl

variable [DecidableEq κ]

theorem lookup_insert_eq_some :
    (t.insert k x).lookup k' = some y ↔ k' = k ∧ y = x ∨ k' ≠ k ∧ t.lookup k' = some y := by
  by_cases h : k' = k
  · subst h
    rw [AList.lookup_insert, Option.some.injEq]
    simp [eq_comm]
  · rw [AList.lookup_insert_ne h]
    simp [h]

theorem lookup_erase_eq_some :
    (t.erase k).lookup k' = some y ↔ k' ≠ k ∧ t.lookup k' = some y := by
  by_cases h : k' = k
  · subst h
    rw [AList.lookup_erase]
    simp
  · rw [AList.lookup_erase_ne h]
    simp [h]

theorem forall_insert {p : ν → Prop} (h : ∀ k y, t.lookup k = some y → p y) (hx : p x) :
    ∀ k' y, (t.insert k x).lookup k' = some y → p y := by
  intro k' y hy
  rcases lookup_insert_eq_some.mp hy with ⟨-, rfl⟩ | ⟨-, hy⟩
  · exact hx
  · exact h k' y hy

theorem forall_erase {p : ν → Prop} (h : ∀ k y, t.lookup k = some y → p y) :
    ∀ k' y, (t.erase k).lookup k' = some y → p y :=
  fun k' y hy => h k' y (lookup_erase_eq_some.mp hy).2

theorem erase_of_lookup (h : t.lookup k = none) : t.erase k = t :=
  AList.ext (List.kerase_of_notMem_keys (AList.lookup_eq_none.mp h))

theorem erase_insert (t : Table κ ν) (k : κ) (x : ν) : (t.insert k x).erase k = t.erase k := by
  have hself : ((t.insert k x).erase k).entries = List.kerase k (⟨k, x⟩ :: (t.erase k).entries) :=
    rfl
  exact AList.ext (hself.trans (List.kerase_cons_eq rfl))

theorem entries_perm (h : t.lookup k = some x) :
    t.entries.Perm (⟨k, x⟩ :: (t.erase k).entries) := by
  have hself : t.insert k x = ⟨⟨k, x⟩ :: (t.erase k).entries, (t.insert k x).nodupKeys⟩ := rfl
  have hperm : t.entries.Perm (t.insert k x).entries := by
    refine List.lookup_ext t.nodupKeys (t.insert k x).nodupKeys ?_
    intro k' y
    change y ∈ t.lookup k' ↔ y ∈ (t.insert k x).lookup k'
    rw [Option.mem_def, Option.mem_def, lookup_insert_eq_some]
    by_cases hk : k' = k
    · subst hk
      simp [h, eq_comm]
    · simp [hk]
  rwa [hself] at hperm

variable (weight : κ → ν → M)

theorem total_erase (k : κ) :
    total weight (t.erase k) = total weight t - (t.lookup k).elim 0 (weight k) := by
  cases h : t.lookup k with
  | none =>
    rw [erase_of_lookup h, Option.elim_none, sub_zero]
  | some x =>
    have hperm := (entries_perm h).map fun e => weight e.1 e.2
    have hsum := hperm.sum_eq
    rw [List.map_cons, List.sum_cons] at hsum
    rw [total, total, hsum, Option.elim_some, add_sub_cancel_left]

theorem total_insert (k : κ) (x : ν) :
    total weight (t.insert k x) =
      total weight t - (t.lookup k).elim 0 (weight k) + weight k x := by
  rw [← total_erase, add_comm]
  exact List.sum_cons

theorem total_insert_of_none (h : t.lookup k = none) (x : ν) :
    total weight (t.insert k x) = total weight t + weight k x := by
  rw [total_insert, h, Option.elim_none, sub_zero]

theorem total_insert_of_some (h : t.lookup k = some y) (x : ν) :
    total weight (t.insert k x) = total weight t - weight k y + weight k x := by
  rw [total_insert, h, Option.elim_some]

theorem total_eq_zero (h : ∀ k x, t.lookup k = some x → weight k x = 0) : total weight t = 0 := by
  refine List.sum_eq_zero ?_
  intro m hm
  obtain ⟨e, he, rfl⟩ := List.mem_map.mp hm
  exact h e.1 e.2 (AList.mem_lookup_iff.mpr he)

theorem eq_empty_of_lookup (h : ∀ k, t.lookup k = none) : t = ∅ := by
  refine AList.ext (List.eq_nil_iff_forall_not_mem.mpr ?_)
  intro e he
  have hsome := AList.mem_lookup_iff.mpr he
  rw [h e.1] at hsome
  cases hsome

theorem total_erase_of_some (h : t.lookup k = some y) :
    total weight (t.erase k) = total weight t - weight k y := by
  rw [total_erase, h, Option.elim_some]

omit [DecidableEq κ] in
theorem total_nonneg [PartialOrder M] [IsOrderedAddMonoid M] (hweight : ∀ k x, 0 ≤ weight k x) :
    0 ≤ total weight t := by
  refine List.sum_nonneg ?_
  intro m hm
  obtain ⟨e, -, rfl⟩ := List.mem_map.mp hm
  exact hweight e.1 e.2

theorem le_total [PartialOrder M] [IsOrderedAddMonoid M] (hweight : ∀ k x, 0 ≤ weight k x)
    (h : t.lookup k = some y) : weight k y ≤ total weight t := by
  have hrest : 0 ≤ total weight (t.erase k) := total_nonneg weight hweight
  have hsum : weight k y + total weight (t.erase k) = total weight t := by
    rw [total_erase_of_some weight h, add_sub_cancel]
  rw [← hsum]
  exact le_add_of_nonneg_right hrest

end Table

end TraceFS.Lib
