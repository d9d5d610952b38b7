import TraceFS.Treplay.Cursor
import TraceFS.Treplay.Paths
import TraceFS.Treplay.Verdict

universe u

namespace TraceFS.Treplay

open TraceFS.Lib TraceFS.Linux

inductive Opt where
  | n
  | s
  | unknown
  deriving DecidableEq

structure Flags where
  showFlag : Bool
  strictFlag : Bool
  deriving DecidableEq

def getFlags : Flags → List Opt → Option Flags
  | flags, [] => some flags
  | flags, .n :: opts => getFlags { flags with showFlag := true } opts
  | flags, .s :: opts => getFlags { flags with strictFlag := true } opts
  | _, .unknown :: _ => none

abbrev Os (σ : Type u) : Type u := Syscall → σ → CInt × σ

structure Replayed (σ : Type u) where
  call : Option Syscall
  ret : CInt
  map : List FileMap
  os : σ

variable {σ : Type u} (S : Os σ) (cwd : List Byte)

def replayRecord (map : List FileMap) (r : Record) (s : σ) : Except ReplayFault (Replayed σ) :=
  match replayCall cwd map r with
  | .error f => .error f
  | .ok none =>
    let back := replayReturn map r 0
    .ok ⟨none, back.2, back.1, s⟩
  | .ok (some c) =>
    let out := S c s
    let back := replayReturn map r out.1
    .ok ⟨some c, back.2, back.1, out.2⟩

structure Round where
  record : Record
  call : Option Syscall
  report : Option Report
  deriving DecidableEq

inductive Ending where
  | finished
  | aborted
  | outOfBounds
  | fault (f : ReplayFault)
  | outOfFuel
  deriving DecidableEq

structure Run where
  rounds : List Round
  ending : Ending
  offset : CInt
  deriving DecidableEq

def Run.after (round : Round) (run : Run) : Run := { run with rounds := round :: run.rounds }

/-- The loop of `main` for at most so many rounds, with the one `struct record`, the map and the
system as the last round has left them. -/
def mainLoop (content : List Byte) (flags : Flags) :
    Nat → Record → CInt → List FileMap → σ → Run
  | 0, _, offset, _, _ => ⟨[], .outOfFuel, offset⟩
  | fuel + 1, r, offset, map, s =>
    if Cursor.int.below offset content.length then
      match readRecord .int content r offset with
      | none => ⟨[], .outOfBounds, offset⟩
      | some (r, offset) =>
        if flags.showFlag then (mainLoop content flags fuel r offset map s).after ⟨r, none, none⟩
        else
          match replayRecord S cwd map r s with
          | .error f => ⟨[⟨r, none, none⟩], .fault f, offset⟩
          | .ok d =>
            let report := report flags.strictFlag r d.ret
            if report = .aborting then ⟨[⟨r, d.call, some report⟩], .aborted, offset⟩
            else (mainLoop content flags fuel r offset d.map d.os).after ⟨r, d.call, some report⟩
    else ⟨[], .finished, offset⟩

def Record.Quiet (r : Record) : Prop :=
  LogType.ofByte r.type = none ∨ LogType.ofByte r.type = some .checkReaddir

/-- The records are replayed one after another: each that is not quiet is passed to the system as
its call, with the map and the system as the records before it have left them, and what the call
returns is reported. -/
inductive Replays : List FileMap → σ → List Record → List Round → Prop
  | done (map : List FileMap) (s : σ) : Replays map s [] []
  | quiet {map : List FileMap} {s : σ} {r : Record} {rs : List Record} {rounds : List Round} :
      r.Quiet → Replays map s rs rounds →
      Replays map s (r :: rs) (⟨r, none, some (report false r 0)⟩ :: rounds)
  | call {map : List FileMap} {s : σ} {r : Record} {rs : List Record} {rounds : List Round}
      {c : Syscall} :
      replayCall cwd map r = .ok (some c) →
      Replays (replayReturn map r (S c s).1).1 (S c s).2 rs rounds →
      Replays map s (r :: rs)
        (⟨r, some c, some (report false r (replayReturn map r (S c s).1).2)⟩ :: rounds)

variable {S cwd}

theorem Replays.records {map : List FileMap} {s : σ} {rs : List Record} {rounds : List Round}
    (h : Replays S cwd map s rs rounds) : rounds.map Round.record = rs := by
  induction h with
  | done => rfl
  | quiet _ _ ih => exact congrArg (_ :: ·) ih
  | call _ _ ih => exact congrArg (_ :: ·) ih

theorem replayCall_quiet_iff {map : List FileMap} {r : Record} :
    replayCall cwd map r = .ok none ↔ r.Quiet := by
  unfold replayCall Record.Quiet
  cases LogType.ofByte r.type with
  | none => simp
  | some ty =>
    cases ty <;> cases buildPath cwd r.path <;> cases buildPath cwd r.newPath <;>
      simp [bind, Except.bind, pure, Except.pure]

theorem replayReturn_quiet {r : Record} (h : r.Quiet) (map : List FileMap) (ret : CInt) :
    replayReturn map r ret = (map, 0) := by
  unfold replayReturn
  rcases h with h | h <;> rw [h]

theorem replays_cons_iff {map : List FileMap} {s : σ} {r : Record} {rs : List Record}
    {rounds : List Round} :
    Replays S cwd map s (r :: rs) rounds ↔
      ∃ d rest, replayRecord S cwd map r s = .ok d ∧ Replays S cwd d.map d.os rs rest ∧
        rounds = ⟨r, d.call, some (report false r d.ret)⟩ :: rest := by
  unfold replayRecord
  constructor
  · intro h
    cases h with
    | @quiet _ _ _ _ rest hquiet h =>
      rw [replayCall_quiet_iff.mpr hquiet, replayReturn_quiet hquiet]
      exact ⟨_, rest, rfl, h, rfl⟩
    | @call _ _ _ _ rest c hcall h =>
      rw [hcall]
      exact ⟨_, rest, rfl, h, rfl⟩
  · rintro ⟨d, rest, hd, h, rfl⟩
    cases hcall : replayCall cwd map r with
    | error f =>
      rw [hcall] at hd
      cases hd
    | ok call =>
      rw [hcall] at hd
      cases call with
      | none =>
        have hquiet := replayCall_quiet_iff.mp hcall
        rw [replayReturn_quiet hquiet] at hd
        cases hd
        exact .quiet hquiet h
      | some c =>
        cases hd
        exact .call hcall h

variable (S cwd)

theorem report_false_ne (r : Record) (ret : CInt) : report false r ret ≠ .aborting := by
  unfold report
  split <;> simp

/-- What `main` finds of its operand: the contents of the file when `stat` succeeds, and whether
`malloc` and `fopen` do. -/
structure Found where
  stat : Option (List Byte)
  malloc : Bool
  fopen : Bool

inductive MainExit where
  | usage
  | statFailed
  | noMemory
  | openFailed
  | readFailed
  | left (run : Run)
  deriving DecidableEq

/-- The items that `fread(content, size, 1, fp)` returns. -/
def freadOne (size : Nat) : Nat := if size = 0 then 0 else 1

def main (opts : List Opt) (operands : Nat) (found : Found) (fuel : Nat) (r : Record) (s : σ) :
    MainExit :=
  match getFlags ⟨false, false⟩ opts with
  | none => .usage
  | some flags =>
    if flags.showFlag ∧ flags.strictFlag then .usage
    else if operands ≠ 1 then .usage
    else
      match found.stat with
      | none => .statFailed
      | some content =>
        if found.malloc = false then .noMemory
        else if found.fopen = false then .openFailed
        else if freadOne content.length ≠ 1 then .readFailed
        else .left (mainLoop S cwd content flags fuel r Cursor.int.start [] s)

end TraceFS.Treplay
