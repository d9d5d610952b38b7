import TraceFS.Treplay.Descriptors

namespace TraceFS.Treplay

open TraceFS.Lib TraceFS.Linux

/-- How a system call ends. A value is an `int`: Linux transfers no more bytes in one call. -/
inductive Outcome where
  | success (value : CInt) (nonneg : 0 ≤ value.toInt)
  | failure (errno : CInt) (pos : 0 < errno.toInt)

def Outcome.ret : Outcome → CInt
  | .success value _ => value
  | .failure _ _ => -1

inductive Report where
  | sameResult
  | deviation
  | aborting
  deriving DecidableEq

def report (strictFlag : Bool) (r : Record) (replayReturn : CInt) : Report :=
  if replayReturn = r.returnValue then .sameResult
  else if strictFlag then .aborting
  else .deviation

/-- The replayed call ends as the traced one did: the kernel traces a failure as `-errno`, and
of an open the descriptor does not matter. -/
def Record.Matches (r : Record) : Outcome → Prop
  | .success value _ =>
    if LogType.ofByte r.type = some .checkOpen then 0 ≤ r.returnValue.toInt
    else r.returnValue = value
  | .failure errno _ => r.returnValue = -errno

instance (r : Record) : (o : Outcome) → Decidable (r.Matches o)
  | .success _ _ => inferInstanceAs (Decidable (ite _ _ _))
  | .failure _ _ => inferInstanceAs (Decidable (_ = _))

/-- The outcomes that the report tells apart for a record: all successes, and a failure when -1,
or 0 for an open, stands for it or the traced value has nothing to do with either. -/
def Record.Told (r : Record) : Outcome → Prop
  | .success _ _ => LogType.ofByte r.type = some .checkOpen → r.returnValue.toInt ≤ 0
  | .failure errno _ =>
    if LogType.ofByte r.type = some .checkOpen then r.returnValue ≠ 0 ∧ r.returnValue ≠ -errno
    else errno = 1 ∨ r.returnValue ≠ -1 ∧ r.returnValue ≠ -errno

theorem report_sameResult_iff (strictFlag : Bool) (r : Record) (ret : CInt) :
    report strictFlag r ret = .sameResult ↔ ret = r.returnValue := by
  unfold report
  split
  · simp [*]
  · cases strictFlag <;> simp [*]

theorem Outcome.ret_ge (o : Outcome) : ¬ o.ret.toInt < -1 := by
  cases o with
  | success value nonneg => simp only [ret]; omega
  | failure errno pos => simp [ret]

/-- A failed open is taken for an open that gave the descriptor -1. -/
theorem replayReturn_open {r : Record} (hr : LogType.ofByte r.type = some .checkOpen)
    (map : List FileMap) (o : Outcome) : (replayReturn map r o.ret).2 = 0 := by
  rw [replayReturn, hr]
  exact congrArg Prod.snd (if_neg o.ret_ge)

theorem replayReturn_ret {cwd : List Byte} {map : List FileMap} {r : Record} {c : Syscall}
    (hcall : replayCall cwd map r = .ok (some c))
    (hr : LogType.ofByte r.type ≠ some .checkOpen) (ret : CInt) :
    (replayReturn map r ret).2 = ret := by
  unfold replayCall at hcall
  unfold replayReturn
  cases hty : LogType.ofByte r.type with
  | none =>
    rw [hty] at hcall
    cases hcall
  | some ty =>
    rw [hty] at hcall hr
    cases ty <;> first | rfl | cases hcall | exact absurd rfl hr

theorem neg_errno_ne_zero {errno : CInt} (pos : 0 < errno.toInt) : -errno ≠ 0 := by
  intro h
  have herrno : errno = 0 := by simpa using h
  rw [herrno] at pos
  exact absurd pos (by decide)

theorem eq_zero_iff_of_toInt_nonneg {x : CInt} : x = 0 ↔ 0 ≤ x.toInt ∧ x.toInt ≤ 0 := by
  have hzero : (0 : CInt).toInt = 0 := rfl
  rw [← BitVec.toInt_inj, hzero]
  omega

theorem verdict_exact_iff (strictFlag : Bool) (cwd : List Byte) (map : List FileMap) (r : Record)
    (c : Syscall) (o : Outcome) (hcall : replayCall cwd map r = .ok (some c)) :
    (report strictFlag r (replayReturn map r o.ret).2 = .sameResult ↔ r.Matches o) ↔ r.Told o := by
  rw [report_sameResult_iff]
  by_cases hr : LogType.ofByte r.type = some .checkOpen
  · rw [replayReturn_open hr map o]
    cases o with
    | success value nonneg =>
      simp only [Record.Matches, Record.Told, hr, if_true, forall_const]
      rw [eq_comm, eq_zero_iff_of_toInt_nonneg]
      omega
    | failure errno pos =>
      have hne := neg_errno_ne_zero pos
      simp only [Record.Matches, Record.Told, hr, if_true]
      grind
  · rw [replayReturn_ret hcall hr o.ret]
    cases o with
    | success value nonneg =>
      simp only [Record.Matches, Record.Told, hr, if_false, Outcome.ret, false_implies, iff_true]
      exact eq_comm
    | failure errno pos =>
      have hone : -1 = -errno ↔ errno = 1 := by
        rw [neg_inj]
        exact eq_comm
      simp only [Record.Matches, Record.Told, hr, if_false, Outcome.ret]
      grind

def unlinkMissing : Record :=
  { Record.blank with
    type := 6
    returnValue := -ENOENT
    pathLength := 2
    path := some [0x2F, 0x61, 0] }

theorem enoent_pos : 0 < ENOENT.toInt := by decide

def missing : Outcome := .failure ENOENT enoent_pos

theorem verdict_exact_iff_unlinkMissing :
    (report true unlinkMissing (replayReturn [] unlinkMissing missing.ret).2 = .sameResult ↔
      unlinkMissing.Matches missing) ↔ unlinkMissing.Told missing :=
  verdict_exact_iff true [] [] unlinkMissing (.unlink [0x2F, 0x61]) missing (by decide)

theorem same_failure_aborts :
    replayCall [] [] unlinkMissing = .ok (some (.unlink [0x2F, 0x61])) ∧
      report true unlinkMissing (replayReturn [] unlinkMissing missing.ret).2 = .aborting ∧
      ¬ (report true unlinkMissing (replayReturn [] unlinkMissing missing.ret).2 = .sameResult ↔
        unlinkMissing.Matches missing) := by
  decide

end TraceFS.Treplay
