import TraceFS.Lib.Observed
import TraceFS.Trfs.Unmount

namespace TraceFS.Trfs

open TraceFS.Lib TraceFS.Linux

variable {P : PageSize}

/-- A history of the operations: the bitmap in force when each made its lower call, whether it
then had the bit of the record that was built, and what came of that record when a bit was
tested. -/
structure Fate where
  bitmap : Nat → Option (BitVec 64)
  wanted : Nat → Option Bool
  kept : Nat → Option Bool

namespace State

def keeps (s : State P) (r : Record) : Bool :=
  decide (r.flushBufferSig ≠ 1) && checkBit s.sb.trInfo.bitmap r.type

def decides (s : State P) : Label P → Option (Nat × Bool)
  | .take => s.queue.head?.map fun w => (w.op, s.keeps w.job.record)
  | .checkLarge op =>
    match s.phase op with
    | .built job =>
      if checkBit s.sb.trInfo.bitmap job.record.type then none else some (op, false)
    | _ => none
  | .drop op => some (op, false)
  | .checkReaddir op =>
    match s.phase op with
    | .built job => some (op, s.keeps job.record)
    | _ => none
  | _ => none

end State

namespace Fate

def start : Fate := ⟨fun _ => none, fun _ => none, fun _ => none⟩

def decided (e : Fate) : Option (Nat × Bool) → Fate
  | some (op, d) => { e with kept := Function.update e.kept op (some d) }
  | none => e

/-- A record is built after the lower call. -/
def see (s : State P) (e : Fate) : Label P → Option Fate
  | .build op job =>
    (e.bitmap op).map fun bitmap =>
      match job with
      | some job =>
        { e with wanted := Function.update e.wanted op (some (checkBit bitmap job.record.type)) }
      | none => e
  | l => some (e.decided (s.decides l))

/-- The operation makes its lower call; a flush of a lower file that has none finds that out. -/
def act (s : State P) (e : Fate) (op : Nat) : Option Fate :=
  match s.phase op, e.bitmap op with
  | .invoked, none =>
    some { e with bitmap := Function.update e.bitmap op (some s.sb.trInfo.bitmap) }
  | _, _ => none

def surroundings (P : PageSize) : Surroundings (State P) (Label P) Fate Nat := ⟨see, act⟩

end Fate

abbrev Fated (P : PageSize) : Type := State P × Fate

def Fated.start (P : PageSize) : Fated P := (State.start P, .start)

def Fated.step : Fated P → Label P ⊕ Nat → Option (Fated P) :=
  (Fate.surroundings P).step State.step

def Phase.Undecided : Phase P → Prop
  | .built _ | .checked _ _ => True
  | _ => False

def State.Undecided (s : State P) (op : Nat) : Prop :=
  (s.phase op).Undecided ∨ ∃ w ∈ s.queue, w.op = op

def Phase.Logging : Phase P → Prop
  | .logging _ _ => True
  | _ => False

def State.Enters (s : State P) (op : Nat) : Prop :=
  op ∈ s.ledger.logged ∨ (∃ w ∈ s.worker, w.op = op ∧ w.job.record.flushBufferSig ≠ 1) ∨
    (s.phase op).Logging

section Step

variable {s s' : State P} {l : Label P} {op : Nat}

def Phase.Fresh : Phase P → Prop
  | .idle | .invoked => True
  | _ => False

theorem Step.fresh (hs : Step s l s') {op : Nat} (h : (s'.phase op).Fresh) :
    (s.phase op).Fresh ∧ ∀ job, l ≠ .build op job := by
  rcases hs.phase op with heq | hnext
  · refine ⟨heq ▸ h, ?_⟩
    rintro job rfl
    cases hs <;> simp [State.setPhase, Phase.Fresh] at h
  · generalize s.phase op = p at hnext ⊢
    generalize s'.phase op = p' at h hnext
    cases hnext with
    | invoke => exact ⟨trivial, by simp⟩
    | _ => exact h.elim

end Step

namespace Fated

structure Kept (c : Fated P) : Prop where
  tracked : c.1.Tracked
  counted : c.1.Counted
  fresh : ∀ op, (c.1.phase op).Fresh → c.2.wanted op = none
  enters : ∀ op, c.2.kept op = some true ↔ c.1.Enters op
  wanted : ∀ op, (c.2.wanted op).isSome ↔ (c.2.kept op).isSome ∨ c.1.Undecided op
  decided : ∀ op, (c.2.kept op).isSome → ¬ c.1.Undecided op

def Agrees (c : Fated P) : Prop := ∀ op d, c.2.kept op = some d → c.2.wanted op = some d

variable {c c' : Fated P} {a : Label P ⊕ Nat}

theorem start_kept (P : PageSize) : (start P).Kept where
  tracked := start_tracked P
  counted _ := .inl rfl
  fresh _ _ := rfl
  enters op := by
    simp [start, State.start, Fate.start, State.Enters, Ledger.logged, Ledger.log, Phase.Logging]
  wanted op := by simp [start, State.start, Fate.start, State.Undecided, Phase.Undecided]
  decided op h := by simp [start, Fate.start] at h

theorem see_cases {s : State P} {e e' : Fate} {l : Label P} (h : Fate.see s e l = some e') :
    (∃ op job b, l = .build op (some job) ∧
        e' = { e with wanted := Function.update e.wanted op (some b) }) ∨
      (∀ op job, l ≠ .build op (some job)) ∧ e' = e.decided (s.decides l) := by
  cases l with
  | build op job =>
    obtain ⟨bitmap, -, rfl⟩ := Option.map_eq_some_iff.mp h
    cases job with
    | none => exact .inr ⟨by simp, rfl⟩
    | some job => exact .inl ⟨op, job, _, rfl, rfl⟩
  | _ => exact .inr ⟨by simp, (Option.some.inj h).symm⟩

section Step

variable {s' : State P} {l : Label P} {op : Nat}

end Step

end Fated

end TraceFS.Trfs
