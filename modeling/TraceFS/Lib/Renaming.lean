import TraceFS.Lib.Table

universe u v w

namespace TraceFS.Lib

variable {κ : Type u} {κ' : Type v} {ν : Type w} [DecidableEq κ] [DecidableEq κ']

namespace Table

omit [DecidableEq κ'] in
theorem keys_length_insert {t : Table κ ν} {k : κ} (h : t.lookup k = none) (x : ν) :
    (t.insert k x).keys.length = t.keys.length + 1 := by
  rw [AList.keys_insert, List.length_cons, List.erase_of_not_mem (AList.lookup_eq_none.mp h)]

omit [DecidableEq κ'] in
theorem keys_length_erase {t : Table κ ν} {k : κ} {x : ν} (h : t.lookup k = some x) :
    (t.erase k).keys.length + 1 = t.keys.length := by
  have hmem : k ∈ t.keys := AList.lookup_isSome.mp (by rw [h]; rfl)
  have hpos := List.length_pos_of_mem hmem
  rw [AList.keys_erase, List.length_erase_of_mem hmem]
  omega

end Table

structure Renames (name : κ → κ') (t : Table κ ν) (t' : Table κ' ν) : Prop where
  finds : ∀ k x, t.lookup k = some x → t'.lookup (name k) = some x
  injective : ∀ k k' x x', t.lookup k = some x → t.lookup k' = some x' → name k = name k' → k = k'
  size : t'.keys.length = t.keys.length

namespace Renames

variable {name name' : κ → κ'} {t : Table κ ν} {t' : Table κ' ν}

theorem empty (name : κ → κ') : Renames name (∅ : Table κ ν) (∅ : Table κ' ν) where
  finds _ _ h := nomatch h
  injective _ _ _ _ h := nomatch h
  size := rfl

theorem congr (h : Renames name t t') (hname : ∀ k x, t.lookup k = some x → name' k = name k) :
    Renames name' t t' where
  finds k x hk := by
    rw [hname k x hk]
    exact h.finds k x hk
  injective k k' x x' hk hk' heq := by
    rw [hname k x hk, hname k' x' hk'] at heq
    exact h.injective k k' x x' hk hk' heq
  size := h.size

theorem insert (h : Renames name t t') {k : κ} (hk : t.lookup k = none)
    (hfresh : t'.lookup (name k) = none) (x : ν) :
    Renames name (t.insert k x) (t'.insert (name k) x) where
  finds k' y hy := by
    rcases Table.lookup_insert_eq_some.mp hy with ⟨rfl, rfl⟩ | ⟨-, hy⟩
    · exact AList.lookup_insert t'
    · have hold := h.finds k' y hy
      have hne : name k' ≠ name k := by
        intro heq
        rw [heq, hfresh] at hold
        cases hold
      rw [AList.lookup_insert_ne hne]
      exact hold
  injective a b y z hy hz heq := by
    have hother : ∀ a y, t.lookup a = some y → name a ≠ name k := by
      intro a y ha hname
      have hold := h.finds a y ha
      rw [hname, hfresh] at hold
      cases hold
    rcases Table.lookup_insert_eq_some.mp hy with ⟨ha, -⟩ | ⟨-, hold⟩
    · rcases Table.lookup_insert_eq_some.mp hz with ⟨hb, -⟩ | ⟨-, hold'⟩
      · rw [ha, hb]
      · exact absurd (ha ▸ heq.symm) (hother b z hold')
    · rcases Table.lookup_insert_eq_some.mp hz with ⟨hb, -⟩ | ⟨-, hold'⟩
      · exact absurd (hb ▸ heq) (hother a y hold)
      · exact h.injective a b y z hold hold' heq
  size := by
    rw [Table.keys_length_insert hk, Table.keys_length_insert hfresh, h.size]

theorem erase (h : Renames name t t') {k : κ} {x : ν} (hk : t.lookup k = some x) :
    Renames name (t.erase k) (t'.erase (name k)) where
  finds k' y hy := by
    obtain ⟨hne, hy⟩ := Table.lookup_erase_eq_some.mp hy
    have hname : name k' ≠ name k := fun heq => hne (h.injective k' k y x hy hk heq)
    exact Table.lookup_erase_eq_some.mpr ⟨hname, h.finds k' y hy⟩
  injective a b y z hy hz heq :=
    h.injective a b y z (Table.lookup_erase_eq_some.mp hy).2
      (Table.lookup_erase_eq_some.mp hz).2 heq
  size := by
    have hleft := Table.keys_length_erase hk
    have hright := Table.keys_length_erase (h.finds k x hk)
    have hsize := h.size
    omega

end Renames

end TraceFS.Lib
