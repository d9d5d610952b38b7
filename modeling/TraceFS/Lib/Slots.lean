import Mathlib.Data.List.Basic

universe u

namespace TraceFS.Lib

variable {α : Type u} {slots : List (Option α)} {xs : List α}

def Filled (slots : List (Option α)) (xs : List α) : Prop :=
  ∃ free, slots = xs.map some ++ List.replicate free none

theorem Filled.empty (n : Nat) : Filled (List.replicate n none) ([] : List α) := ⟨n, rfl⟩

theorem Filled.length_le (h : Filled slots xs) : xs.length ≤ slots.length := by
  obtain ⟨free, rfl⟩ := h
  simp

theorem Filled.grow (h : Filled slots xs) (n : Nat) :
    Filled (slots ++ List.replicate n none) xs := by
  obtain ⟨free, rfl⟩ := h
  exact ⟨free + n, by rw [List.append_assoc, List.replicate_append_replicate]⟩

theorem Filled.set (h : Filled slots xs) (hfree : xs.length < slots.length) (x : α) :
    Filled (slots.set xs.length (some x)) (xs ++ [x]) := by
  obtain ⟨free, rfl⟩ := h
  cases free with
  | zero => simp at hfree
  | succ free =>
    refine ⟨free, ?_⟩
    have hlen : (xs.map some).length = xs.length := List.length_map some
    rw [← hlen, List.set_append_right _ _ (Nat.le_refl _), Nat.sub_self, List.replicate_succ,
      List.set_cons_zero, List.map_append, List.append_assoc]
    rfl

theorem Filled.get (h : Filled slots xs) {i : Nat} (hi : i < xs.length) :
    slots[i]? = some (some xs[i]) := by
  obtain ⟨free, rfl⟩ := h
  rw [List.getElem?_append_left (by simpa using hi), List.getElem?_map,
    List.getElem?_eq_getElem hi, Option.map_some]

end TraceFS.Lib
