import TraceFS.Lib.Run

/-! A system in its surroundings: they see its steps, may refuse them, and take steps of their
own. -/

universe u v w x

namespace TraceFS.Lib

structure Surroundings (σ : Type u) (ι : Type v) (ε : Type w) (κ : Type x) where
  see : σ → ε → ι → Option ε
  act : σ → ε → κ → Option ε

namespace Surroundings

variable {σ : Type u} {ι : Type v} {ε : Type w} {κ : Type x} {next : σ → ι → Option σ}
  {E : Surroundings σ ι ε κ}

def step (E : Surroundings σ ι ε κ) (next : σ → ι → Option σ) (c : σ × ε) :
    ι ⊕ κ → Option (σ × ε)
  | .inl a => (next c.1 a).bind fun s => (E.see c.1 c.2 a).map fun e => (s, e)
  | .inr b => (E.act c.1 c.2 b).map fun e => (c.1, e)

def inner (labels : List (ι ⊕ κ)) : List ι := labels.filterMap Sum.getLeft?

theorem step_inl {c c' : σ × ε} {a : ι} :
    E.step next c (.inl a) = some c' ↔
      next c.1 a = some c'.1 ∧ E.see c.1 c.2 a = some c'.2 := by
  obtain ⟨s', e'⟩ := c'
  simp [Surroundings.step, Option.bind_eq_some_iff, Option.map_eq_some_iff]

theorem step_inr {c c' : σ × ε} {b : κ} :
    E.step next c (.inr b) = some c' ↔ c'.1 = c.1 ∧ E.act c.1 c.2 b = some c'.2 := by
  obtain ⟨s', e'⟩ := c'
  simp only [Surroundings.step, Option.map_eq_some_iff, Prod.mk.injEq]
  constructor
  · rintro ⟨e, he, rfl, rfl⟩
    exact ⟨rfl, he⟩
  · rintro ⟨rfl, he⟩
    exact ⟨e', he, rfl, rfl⟩

theorem run_inner {c c' : σ × ε} {labels : List (ι ⊕ κ)}
    (h : run (E.step next) c labels = some c') :
    run next c.1 (inner labels) = some c'.1 := by
  induction labels generalizing c with
  | nil => exact congrArg (Option.map Prod.fst) h
  | cons l labels ih =>
    obtain ⟨t, hl, hlabels⟩ := run_cons_eq_some.mp h
    cases l with
    | inl a => exact run_cons_eq_some.mpr ⟨t.1, (step_inl.mp hl).1, ih hlabels⟩
    | inr b => exact (step_inr.mp hl).1 ▸ ih hlabels

end Surroundings

end TraceFS.Lib
