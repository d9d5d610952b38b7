import Mathlib.Algebra.BigOperators.Group.List.Basic
import Mathlib.Data.List.Basic

universe u v w

namespace TraceFS.Lib

variable {σ : Type u} {ι : Type v} {τ : Type w} {step : σ → ι → Option σ}

def run (step : σ → ι → Option σ) : σ → List ι → Option σ
  | s, [] => some s
  | s, a :: as => (step s a).bind fun s' => run step s' as

@[simp] theorem run_nil (s : σ) : run step s [] = some s := rfl

theorem run_cons_eq_some {s s' : σ} {a : ι} {as : List ι} :
    run step s (a :: as) = some s' ↔ ∃ t, step s a = some t ∧ run step t as = some s' :=
  Option.bind_eq_some_iff

theorem run_append_eq_some {s s' : σ} {as bs : List ι} :
    run step s (as ++ bs) = some s' ↔ ∃ t, run step s as = some t ∧ run step t bs = some s' := by
  induction as generalizing s with
  | nil => simp
  | cons a as ih =>
    simp only [List.cons_append, run_cons_eq_some, ih]
    constructor
    · rintro ⟨t, ha, t', has, hbs⟩
      exact ⟨t', ⟨t, ha, has⟩, hbs⟩
    · rintro ⟨t', ⟨t, ha, has⟩, hbs⟩
      exact ⟨t, ha, t', has, hbs⟩

theorem run_concat_eq_some {s s' : σ} {as : List ι} {a : ι} :
    run step s (as ++ [a]) = some s' ↔ ∃ t, run step s as = some t ∧ step t a = some s' := by
  simp [run_append_eq_some, run_cons_eq_some]

theorem run_invariant (I : σ → Prop) (hstep : ∀ s a s', I s → step s a = some s' → I s')
    {s s' : σ} {as : List ι} (hs : I s) (h : run step s as = some s') : I s' := by
  induction as generalizing s with
  | nil => exact Option.some.inj h ▸ hs
  | cons a as ih =>
    obtain ⟨t, ha, has⟩ := run_cons_eq_some.mp h
    exact ih (hstep s a t hs ha) has

theorem run_sum {M : Type*} [AddMonoid M] (measure : σ → M) (added : ι → M)
    (hstep : ∀ s a s', step s a = some s' → measure s' = measure s + added a)
    {s s' : σ} {as : List ι} (h : run step s as = some s') :
    measure s' = measure s + (as.map added).sum := by
  induction as generalizing s with
  | nil =>
    cases h
    exact (add_zero _).symm
  | cons a as ih =>
    obtain ⟨t, ha, has⟩ := run_cons_eq_some.mp h
    rw [ih has, hstep s a t ha, List.map_cons, List.sum_cons, add_assoc]

def Along (G : σ → ι → Prop) (step : σ → ι → Option σ) : σ → List ι → Prop
  | _, [] => True
  | s, a :: as => G s a ∧ ∀ t ∈ step s a, Along G step t as

instance Along.decidable {G : σ → ι → Prop} [∀ s a, Decidable (G s a)] :
    ∀ s as, Decidable (Along G step s as)
  | _, [] => inferInstanceAs (Decidable True)
  | s, a :: as =>
    let _ : ∀ t, Decidable (Along G step t as) := fun t => Along.decidable t as
    inferInstanceAs (Decidable (G s a ∧ ∀ t ∈ step s a, Along G step t as))

theorem Along.of_forall {G : σ → ι → Prop} {s : σ} {as : List ι} (h : ∀ a ∈ as, ∀ s, G s a) :
    Along G step s as := by
  induction as generalizing s with
  | nil => trivial
  | cons a as ih =>
    exact ⟨h a List.mem_cons_self s, fun t _ => ih fun b hb => h b (List.mem_cons_of_mem a hb)⟩

theorem Along.and {G G' : σ → ι → Prop} {s : σ} {as : List ι} (h : Along G step s as)
    (h' : Along G' step s as) : Along (fun s a => G s a ∧ G' s a) step s as := by
  induction as generalizing s with
  | nil => trivial
  | cons a as ih => exact ⟨⟨h.1, h'.1⟩, fun t ht => ih (h.2 t ht) (h'.2 t ht)⟩

theorem Along.mono {G G' : σ → ι → Prop} {s : σ} {as : List ι} (h : Along G step s as)
    (hG : ∀ s a, G s a → G' s a) : Along G' step s as := by
  induction as generalizing s with
  | nil => trivial
  | cons a as ih => exact ⟨hG s a h.1, fun t ht => ih (h.2 t ht)⟩

theorem along_iff_forall {G : ι → Prop} {s s' : σ} {as : List ι} (h : run step s as = some s') :
    Along (fun _ => G) step s as ↔ ∀ a ∈ as, G a := by
  refine ⟨?_, fun hall => .of_forall fun a ha _ => hall a ha⟩
  induction as generalizing s with
  | nil => exact fun _ _ ha => nomatch ha
  | cons a as ih =>
    rintro ⟨hGa, hall⟩
    obtain ⟨t, ht, has⟩ := run_cons_eq_some.mp h
    exact List.forall_mem_cons.mpr ⟨hGa, ih has (hall t ht)⟩

theorem along_congr_of_kept {G G' : σ → ι → Prop} (I : σ → Prop)
    (hstep : ∀ s a s', I s → G s a → step s a = some s' → I s')
    (hG : ∀ s a, I s → (G s a ↔ G' s a)) {s : σ} {as : List ι} (hs : I s) :
    Along G step s as ↔ Along G' step s as := by
  induction as generalizing s with
  | nil => exact .rfl
  | cons a as ih =>
    constructor
    · rintro ⟨hsa, hall⟩
      exact ⟨(hG s a hs).mp hsa, fun t ht => (ih (hstep s a t hs hsa ht)).mp (hall t ht)⟩
    · rintro ⟨hsa', hall⟩
      have hsa := (hG s a hs).mpr hsa'
      exact ⟨hsa, fun t ht => (ih (hstep s a t hs hsa ht)).mpr (hall t ht)⟩

theorem along_congr {G G' : σ → ι → Prop} (I : σ → Prop)
    (hstep : ∀ s a s', I s → step s a = some s' → I s')
    (hG : ∀ s a, I s → (G s a ↔ G' s a)) {s : σ} {as : List ι} (hs : I s) :
    Along G step s as ↔ Along G' step s as :=
  along_congr_of_kept I (fun s a s' hI _ => hstep s a s' hI) hG hs

theorem along_congr_of_run {G G' : σ → ι → Prop} (I : σ → Prop)
    (hstep : ∀ s a s', I s → G s a → step s a = some s' → I s')
    (hG : ∀ s a s', I s → step s a = some s' → (G s a ↔ G' s a)) {s s' : σ} {as : List ι}
    (hs : I s) (h : run step s as = some s') : Along G step s as ↔ Along G' step s as := by
  induction as generalizing s with
  | nil => exact .rfl
  | cons a as ih =>
    obtain ⟨t, ha, has⟩ := run_cons_eq_some.mp h
    have hrest : G s a → ((∀ u ∈ step s a, Along G step u as) ↔
        ∀ u ∈ step s a, Along G' step u as) := by
      intro hsa
      refine forall₂_congr fun u hu => ?_
      cases ha.symm.trans hu
      exact ih (hstep s a t hs hsa ha) has
    constructor
    · rintro ⟨hsa, hall⟩
      exact ⟨(hG s a t hs ha).mp hsa, (hrest hsa).mp hall⟩
    · rintro ⟨hsa, hall⟩
      have hsa' := (hG s a t hs ha).mpr hsa
      exact ⟨hsa', (hrest hsa').mpr hall⟩

theorem along_map_iff {f : τ → σ} {step' : τ → ι → Option τ} {G : σ → ι → Prop}
    {G' : τ → ι → Prop} (hG : ∀ t a, G (f t) a ↔ G' t a)
    (hstep : ∀ t a, G' t a → step (f t) a = (step' t a).map f) {t : τ} {as : List ι} :
    Along G step (f t) as ↔ Along G' step' t as := by
  induction as generalizing t with
  | nil => exact .rfl
  | cons a as ih =>
    have hrest : G' t a → ((∀ u ∈ step (f t) a, Along G step u as) ↔
        ∀ u ∈ step' t a, Along G' step' u as) := by
      intro hallowed
      rw [hstep t a hallowed]
      constructor
      · exact fun hall u hu => ih.mp (hall (f u) (Option.mem_map_of_mem f hu))
      · intro hall u hu
        obtain ⟨t', ht', rfl⟩ := Option.map_eq_some_iff.mp hu
        exact ih.mpr (hall t' ht')
    constructor
    · rintro ⟨hta, hall⟩
      have hta' := (hG t a).mp hta
      exact ⟨hta', (hrest hta').mp hall⟩
    · rintro ⟨hta', hall⟩
      exact ⟨(hG t a).mpr hta', (hrest hta').mpr hall⟩

theorem run_invariant_along (I : σ → Prop) (G : σ → ι → Prop)
    (hstep : ∀ s a s', I s → G s a → step s a = some s' → I s')
    {s s' : σ} {as : List ι} (hs : I s) (hG : Along G step s as)
    (h : run step s as = some s') : I s' := by
  induction as generalizing s with
  | nil => exact Option.some.inj h ▸ hs
  | cons a as ih =>
    obtain ⟨t, ha, has⟩ := run_cons_eq_some.mp h
    exact ih (hstep s a t hs hG.1 ha) (hG.2 t ha) has

/-- Where the allowed steps are those that keep `Q`, a run has `Q` throughout exactly when all of
its steps are allowed. -/
theorem run_holds_iff_along {Q : σ → Prop} {G : σ → ι → Prop} (I : σ → Prop)
    (hQ : ∀ s, I s → Q s)
    (hstep : ∀ s a s', I s → step s a = some s' → (G s a → I s') ∧ (Q s' → G s a))
    {s s' : σ} {as : List ι} (hs : I s) (h : run step s as = some s') :
    (∀ pre post t, as = pre ++ post → run step s pre = some t → Q t) ↔ Along G step s as := by
  induction as generalizing s with
  | nil =>
    refine iff_of_true ?_ trivial
    rintro pre post t has ht
    obtain ⟨rfl, -⟩ := List.append_eq_nil_iff.mp has.symm
    exact Option.some.inj ht ▸ hQ s hs
  | cons a as ih =>
    obtain ⟨t, ha, has⟩ := run_cons_eq_some.mp h
    constructor
    · intro hall
      have hG : G s a := (hstep s a t hs ha).2
        (hall [a] as t rfl (run_cons_eq_some.mpr ⟨t, ha, rfl⟩))
      refine ⟨hG, ?_⟩
      intro t' ht'
      cases ha.symm.trans ht'
      refine (ih ((hstep s a t hs ha).1 hG) has).mp ?_
      intro pre post u hpre hu
      exact hall (a :: pre) post u (by rw [hpre, List.cons_append])
        (run_cons_eq_some.mpr ⟨t, ha, hu⟩)
    · rintro ⟨hsa, htas⟩ pre post u hpre hu
      cases pre with
      | nil => exact Option.some.inj hu ▸ hQ s hs
      | cons b pre =>
        obtain ⟨rfl, has'⟩ := List.cons.inj hpre
        obtain ⟨t₁, hb, hrest⟩ := run_cons_eq_some.mp hu
        cases ha.symm.trans hb
        exact (ih ((hstep s a t hs ha).1 hsa) has).mpr (htas t ha) pre post u has' hrest

/-- What each step either keeps or breaks for good, the run keeps exactly when all of its steps
do. -/
theorem run_keeps_iff_along {Q : σ → Prop} {G : σ → ι → Prop} (I : σ → Prop)
    (hinv : ∀ s a s', I s → step s a = some s' → I s')
    (hstep : ∀ s a s', I s → step s a = some s' → (Q s' ↔ Q s ∧ G s a))
    {s s' : σ} {as : List ι} (hs : I s) (h : run step s as = some s') :
    Q s' ↔ Q s ∧ Along G step s as := by
  induction as generalizing s with
  | nil =>
    cases h
    exact (and_iff_left trivial).symm
  | cons a as ih =>
    obtain ⟨t, ha, has⟩ := run_cons_eq_some.mp h
    rw [ih (hinv s a t hs ha) has, hstep s a t hs ha, and_assoc]
    refine and_congr_right fun _ => and_congr_right fun _ => ?_
    constructor
    · intro hall u hu
      cases ha.symm.trans hu
      exact hall
    · exact fun hall => hall t ha

theorem run_simulates (R : σ → τ → Prop) (astep : τ → ι → τ) (G : ι → Prop)
    (hstep : ∀ s t a, R s t → G a → ∃ s', step s a = some s' ∧ R s' (astep t a))
    {s : σ} {t : τ} {as : List ι} (hs : R s t) (hG : ∀ a ∈ as, G a) :
    ∃ s', run step s as = some s' ∧ R s' (as.foldl astep t) := by
  induction as generalizing s t with
  | nil => exact ⟨s, rfl, hs⟩
  | cons a as ih =>
    obtain ⟨s₁, ha, hR⟩ := hstep s t a hs (hG a List.mem_cons_self)
    obtain ⟨s', has, hR'⟩ := ih hR fun b hb => hG b (List.mem_cons_of_mem a hb)
    exact ⟨s', run_cons_eq_some.mpr ⟨s₁, ha, has⟩, hR'⟩

end TraceFS.Lib
