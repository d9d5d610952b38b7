import TraceFS.Lib.Run

/-! A system that stops at the first unsafe step that it attempts. -/

universe u v

namespace TraceFS.Lib

inductive Faulting (σ : Type u) : Type u where
  | running (s : σ)
  | faulted (s : σ)

namespace Faulting

variable {σ : Type u} {ι : Type v}

def Runs : Faulting σ → Prop
  | .running _ => True
  | .faulted _ => False

instance (c : Faulting σ) : Decidable c.Runs :=
  match c with
  | .running _ => isTrue trivial
  | .faulted _ => isFalse id

def Allows (G : σ → ι → Prop) : Faulting σ → ι → Prop
  | .running s, a => G s a
  | .faulted _, _ => True

def Holds (I : σ → Prop) : Faulting σ → Prop
  | .running s => I s
  | .faulted _ => True

variable (attempts safe : σ → ι → Prop) [∀ s a, Decidable (attempts s a)]
  [∀ s a, Decidable (safe s a)] (next : σ → ι → Option σ)

def step : Faulting σ → ι → Option (Faulting σ)
  | .running s, a =>
    if attempts s a then if safe s a then (next s a).map .running else some (.faulted s) else none
  | .faulted _, _ => none

variable {attempts safe next} {I : σ → Prop} {s : σ} {a : ι} {c : Faulting σ} {as : List ι}

theorem step_cases {c : Faulting σ} (h : step attempts safe next (.running s) a = some c) :
    attempts s a ∧ ((safe s a ∧ ∃ s', next s a = some s' ∧ c = .running s') ∨
      (¬ safe s a ∧ c = .faulted s)) := by
  obtain ⟨hattempt, h⟩ := Option.ite_none_right_eq_some.mp h
  refine ⟨hattempt, ?_⟩
  by_cases hsafe : safe s a
  · rw [if_pos hsafe] at h
    obtain ⟨s', hs', rfl⟩ := Option.map_eq_some_iff.mp h
    exact .inl ⟨hsafe, s', hs', rfl⟩
  · rw [if_neg hsafe] at h
    exact .inr ⟨hsafe, (Option.some.inj h).symm⟩

theorem holds_step (hstep : ∀ s a s', I s → safe s a → next s a = some s' → I s')
    {c' : Faulting σ} (hc : c.Holds I) (h : step attempts safe next c a = some c') :
    c'.Holds I := by
  cases c with
  | faulted s => cases h
  | running s =>
    obtain ⟨-, ⟨hsafe, s', hs', rfl⟩ | ⟨-, rfl⟩⟩ := step_cases h
    · exact hstep s a s' hc hsafe hs'
    · trivial

theorem holds_of_run (hstep : ∀ s a s', I s → safe s a → next s a = some s' → I s')
    (hs : I s) (h : run (step attempts safe next) (.running s) as = some c) : c.Holds I :=
  have hstart : (running s).Holds I := hs
  run_invariant (Holds I) (fun _ _ _ hc hs => holds_step hstep hc hs) hstart h

/-- Where `G` tells the safe steps under an invariant, a run ends without a fault exactly when
all of its steps are such. -/
theorem runs_iff_along {G : σ → ι → Prop}
    (hstep : ∀ s a s', I s → safe s a → next s a = some s' → I s')
    (hsafe : ∀ s a, I s → attempts s a → (safe s a ↔ G s a)) (hs : I s)
    (h : run (step attempts safe next) (.running s) as = some c) :
    c.Runs ↔ Along (Allows G) (step attempts safe next) (.running s) as := by
  have hstart : (running s).Holds I := hs
  have hkeeps : ∀ (c : Faulting σ) (a : ι) (c' : Faulting σ), c.Holds I →
      step attempts safe next c a = some c' → (c'.Runs ↔ c.Runs ∧ c.Allows G a) := by
    intro c a c' hc hs
    cases c with
    | faulted s => cases hs
    | running s =>
      obtain ⟨hattempt, ⟨hok, s', -, rfl⟩ | ⟨hbad, rfl⟩⟩ := step_cases hs
      · exact iff_of_true trivial ⟨trivial, (hsafe s a hc hattempt).mp hok⟩
      · exact iff_of_false id fun hG => hbad ((hsafe s a hc hattempt).mpr hG.2)
  rw [run_keeps_iff_along (Holds I) (fun _ _ _ hc hs => holds_step hstep hc hs) hkeeps hstart h]
  exact and_iff_right trivial

end Faulting

end TraceFS.Lib
