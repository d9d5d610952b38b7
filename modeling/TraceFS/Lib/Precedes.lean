import Mathlib.Data.List.Basic

universe u

namespace TraceFS.Lib

variable {α : Type u} {l l' : List α} {a b x : α}

def Precedes (l : List α) (a b : α) : Prop := List.Sublist [a, b] l

namespace Precedes

theorem mem_left (h : Precedes l a b) : a ∈ l := h.subset (by simp)

theorem mem_right (h : Precedes l a b) : b ∈ l := h.subset (by simp)

theorem sublist (h : Precedes l a b) (hl : l.Sublist l') : Precedes l' a b := h.trans hl

theorem ne (h : Precedes l a b) (hl : l.Nodup) : a ≠ b := by
  have hab := hl.sublist h
  simpa using hab

theorem concat_iff : Precedes (l ++ [x]) a b ↔ Precedes l a b ∨ a ∈ l ∧ b = x := by
  unfold Precedes
  constructor
  · intro h
    obtain ⟨l₁, l₂, heq, h₁, h₂⟩ := List.sublist_append_iff.mp h
    match l₁, heq with
    | [], heq =>
      have hlen := h₂.length_le
      rw [List.nil_append] at heq
      simp [← heq] at hlen
    | [c], heq =>
      obtain ⟨rfl, rfl⟩ := List.cons.inj heq
      exact .inr ⟨List.singleton_sublist.mp h₁, by simpa using h₂⟩
    | c :: d :: l₁, heq =>
      obtain ⟨rfl, htail⟩ := List.cons.inj heq
      obtain ⟨rfl, hnil⟩ := List.cons.inj htail
      obtain ⟨rfl, rfl⟩ := List.append_eq_nil_iff.mp hnil.symm
      exact .inl h₁
  · rintro (h | ⟨ha, rfl⟩)
    · exact h.trans (List.sublist_append_left l [x])
    · exact List.Sublist.append (List.singleton_sublist.mpr ha) (List.Sublist.refl [b])

theorem total (ha : a ∈ l) (hb : b ∈ l) (hne : a ≠ b) : Precedes l a b ∨ Precedes l b a := by
  induction l with
  | nil => cases ha
  | cons c l ih =>
    rcases List.mem_cons.mp ha with rfl | ha' <;> rcases List.mem_cons.mp hb with rfl | hb'
    · exact absurd rfl hne
    · exact .inl (List.cons_sublist_cons.mpr (List.singleton_sublist.mpr hb'))
    · exact .inr (List.cons_sublist_cons.mpr (List.singleton_sublist.mpr ha'))
    · exact (ih ha' hb').imp (fun h => h.cons c) (fun h => h.cons c)

theorem of_insert (h : Precedes (l ++ x :: l') a b) (ha : a ≠ x) (hb : b ≠ x) :
    Precedes (l ++ l') a b := by
  induction l with
  | nil =>
    cases h with
    | cons _ h => exact h
    | cons_cons => exact absurd rfl ha
  | cons c l ih =>
    cases h with
    | cons _ h => exact (ih h).cons c
    | cons_cons _ h =>
      have hmem : b ∈ l ++ l' := by
        have hb' := List.singleton_sublist.mp h
        simpa [hb] using hb'
      exact List.cons_sublist_cons.mpr (List.singleton_sublist.mpr hmem)

theorem exists_getElem? (h : Precedes l a b) :
    ∃ i j : Nat, i < j ∧ l[i]? = some a ∧ l[j]? = some b := by
  induction l with
  | nil => cases h
  | cons c l ih =>
    cases h with
    | cons _ h =>
      obtain ⟨i, j, hij, hi, hj⟩ := ih h
      exact ⟨i + 1, j + 1, by omega, by simpa using hi, by simpa using hj⟩
    | cons_cons _ h =>
      obtain ⟨j, hj⟩ := List.mem_iff_getElem?.mp (List.singleton_sublist.mp h)
      exact ⟨0, j + 1, by omega, rfl, by simpa using hj⟩

end Precedes

end TraceFS.Lib
