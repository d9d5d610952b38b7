import Mathlib.Data.List.Nodup
import Mathlib.Data.List.Perm.Basic

/-! Blocks of memory, each named by the number of its allocation, so that no name is used twice. -/

universe u

namespace TraceFS.Lib

structure Blocks (κ : Type u) where
  live : List (Nat × κ)
  next : Nat
  fresh : ∀ e ∈ live, e.1 < next
  distinct : (live.map Prod.fst).Nodup

namespace Blocks

variable {κ : Type u} {h : Blocks κ} {b b' : Nat} {k : κ} {l l' : List (Nat × κ)}

def empty : Blocks κ := ⟨[], 0, List.forall_mem_nil _, List.nodup_nil⟩

def Live (h : Blocks κ) (b : Nat) : Prop := b ∈ h.live.map Prod.fst

instance (h : Blocks κ) (b : Nat) : Decidable (h.Live b) := inferInstanceAs (Decidable (_ ∈ _))

theorem Live.lt (hb : h.Live b) : b < h.next := by
  obtain ⟨e, he, rfl⟩ := List.mem_map.mp hb
  exact h.fresh e he

def alloc (k : κ) (h : Blocks κ) : Blocks κ where
  live := (h.next, k) :: h.live
  next := h.next + 1
  fresh := by
    intro e he
    cases he with
    | head => exact Nat.lt_succ_self _
    | tail _ he => exact Nat.lt_succ_of_lt (h.fresh e he)
  distinct := by
    refine List.nodup_cons.mpr ⟨?_, h.distinct⟩
    exact fun hnext => Nat.lt_irrefl _ (Live.lt hnext)

def free (b : Nat) (h : Blocks κ) : Blocks κ where
  live := h.live.filter fun e => e.1 ≠ b
  next := h.next
  fresh e he := h.fresh e (List.mem_of_mem_filter he)
  distinct := (List.filter_sublist.map Prod.fst).nodup h.distinct

@[simp] theorem next_alloc (k : κ) (h : Blocks κ) : (h.alloc k).next = h.next + 1 := rfl

@[simp] theorem next_free (b : Nat) (h : Blocks κ) : (h.free b).next = h.next := rfl

@[simp] theorem live_alloc : (h.alloc k).Live b ↔ b = h.next ∨ h.Live b := List.mem_cons

@[simp] theorem live_free : (h.free b).Live b' ↔ b' ≠ b ∧ h.Live b' := by
  constructor
  · intro hb'
    obtain ⟨e, he, rfl⟩ := List.mem_map.mp hb'
    obtain ⟨hmem, hne⟩ := List.mem_filter.mp he
    exact ⟨of_decide_eq_true hne, List.mem_map_of_mem hmem⟩
  · rintro ⟨hne, hb'⟩
    obtain ⟨e, he, rfl⟩ := List.mem_map.mp hb'
    exact List.mem_map_of_mem (List.mem_filter.mpr ⟨he, decide_eq_true hne⟩)

def Consists (h : Blocks κ) (l : List (Nat × κ)) : Prop := h.live.Perm l

theorem Consists.perm (hl : h.Consists l) (hperm : l.Perm l') : h.Consists l' := hl.trans hperm

theorem Consists.live_iff (hl : h.Consists l) : h.Live b ↔ b ∈ l.map Prod.fst :=
  (hl.map Prod.fst).mem_iff

theorem Consists.alloc (hl : h.Consists l) (k : κ) : (h.alloc k).Consists ((h.next, k) :: l) :=
  hl.cons _

theorem Consists.distinct (hl : h.Consists l) : (l.map Prod.fst).Nodup :=
  (hl.map Prod.fst).nodup_iff.mp h.distinct

theorem Consists.free (hl : h.Consists ((b, k) :: l)) : (h.free b).Consists l := by
  have hnotin : b ∉ l.map Prod.fst := (List.nodup_cons.mp hl.distinct).1
  have hrest : l.filter (fun e => e.1 ≠ b) = l := by
    refine List.filter_eq_self.mpr fun e he => decide_eq_true ?_
    rintro rfl
    exact hnotin (List.mem_map_of_mem he)
  have hfilter : h.live.filter (fun e => e.1 ≠ b) |>.Perm
      (((b, k) :: l).filter fun e => e.1 ≠ b) := hl.filter _
  rwa [List.filter_cons_of_neg (by simp), hrest] at hfilter

theorem Consists.live_head (hl : h.Consists ((b, k) :: l)) : h.Live b :=
  hl.live_iff.mpr List.mem_cons_self

structure Since (h h' : Blocks κ) : Prop where
  next_le : h.next ≤ h'.next
  old : ∀ b < h.next, h'.Live b → h.Live b

namespace Since

variable {h' h'' : Blocks κ}

theorem refl (h : Blocks κ) : h.Since h := ⟨Nat.le_refl _, fun _ _ hb => hb⟩

theorem trans (hs : h.Since h') (hs' : h'.Since h'') : h.Since h'' where
  next_le := Nat.le_trans hs.next_le hs'.next_le
  old b hb hlive := hs.old b hb (hs'.old b (Nat.lt_of_lt_of_le hb hs.next_le) hlive)

theorem alloc (hs : h.Since h') (k : κ) : h.Since (h'.alloc k) where
  next_le := Nat.le_succ_of_le hs.next_le
  old b hb hlive := by
    cases live_alloc.mp hlive with
    | inl heq => exact absurd (heq ▸ hb) (Nat.not_lt.mpr hs.next_le)
    | inr hlive => exact hs.old b hb hlive

theorem free (hs : h.Since h') (b : Nat) : h.Since (h'.free b) where
  next_le := hs.next_le
  old b' hb' hlive := hs.old b' hb' (live_free.mp hlive).2

end Since

end Blocks

end TraceFS.Lib
