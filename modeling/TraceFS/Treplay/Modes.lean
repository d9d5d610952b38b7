import TraceFS.Treplay.Whole

universe u

namespace TraceFS.Treplay

open TraceFS.Lib TraceFS.Linux
open TraceFS.Trfs (Entry entry)

def upToFirst {α : Type} (p : α → Prop) [DecidablePred p] : List α → List α
  | [] => []
  | a :: as => if p a then [a] else a :: upToFirst p as

def Round.Deviates (x : Round) : Prop := x.report = some .deviation

instance : DecidablePred Round.Deviates := fun x =>
  inferInstanceAs (Decidable (x.report = some .deviation))

def MainExit.rounds : MainExit → List Round
  | .left run => run.rounds
  | _ => []

def recordsOf (rounds : List Round) : List Record := rounds.map Round.record

def callsOf (rounds : List Round) : List Syscall := rounds.filterMap Round.call

def MainExit.Faults : MainExit → Prop
  | .left run => ∃ f, run.ending = .fault f
  | _ => False

variable {σ : Type u}

section Loop

variable (S : Os σ) (cwd content : List Byte)

theorem report_true_iff (r : Record) (ret : CInt) :
    report true r ret = .aborting ↔ report false r ret = .deviation := by
  unfold report
  split <;> simp

theorem mainLoop_strict (fuel : Nat) (r : Record) (offset : CInt) (map : List FileMap) (s : σ) :
    (mainLoop S cwd content ⟨false, true⟩ fuel r offset map s).rounds.map
        (fun x => (x.record, x.call)) =
      (upToFirst Round.Deviates
        (mainLoop S cwd content ⟨false, false⟩ fuel r offset map s).rounds).map
        fun x => (x.record, x.call) := by
  induction fuel generalizing r offset map s with
  | zero => rfl
  | succ fuel ih =>
    rw [mainLoop, mainLoop]
    split
    case isFalse => rfl
    case isTrue =>
      cases readRecord .int content r offset with
      | none => rfl
      | some out =>
        obtain ⟨r, offset⟩ := out
        simp only [Bool.false_eq_true, if_false]
        cases replayRecord S cwd map r s with
        | error f => simp [upToFirst, Round.Deviates]
        | ok d =>
          dsimp only
          rw [if_neg (report_false_ne r d.ret)]
          by_cases hdev : report false r d.ret = .deviation
          · rw [if_pos ((report_true_iff r d.ret).mpr hdev)]
            simp [Run.after, upToFirst, Round.Deviates, hdev]
          · rw [if_neg (mt (report_true_iff r d.ret).mp hdev)]
            simp [Run.after, upToFirst, Round.Deviates, hdev, ih]

theorem mainLoop_dry_calls (fuel : Nat) (r : Record) (offset : CInt) (map : List FileMap) (s : σ) :
    callsOf (mainLoop S cwd content ⟨true, false⟩ fuel r offset map s).rounds = [] := by
  induction fuel generalizing r offset map s with
  | zero => rfl
  | succ fuel ih =>
    rw [mainLoop]
    split
    case isFalse => rfl
    case isTrue =>
      cases readRecord .int content r offset with
      | none => rfl
      | some out => exact ih out.1 out.2 map s

def decodedFrom : Nat → Record → CInt → List Record
  | 0, _, _ => []
  | fuel + 1, r, offset =>
    if Cursor.int.below offset content.length then
      match readRecord .int content r offset with
      | none => []
      | some (r, offset) => r :: decodedFrom fuel r offset
    else []

theorem decodedFrom_of_decodeLoop {content : List Byte} {fuel : Nat} {r : Record}
    {offset end_ : CInt} {rs : List Record}
    (h : decodeLoop .int content fuel r offset = .ok (rs, end_)) :
    decodedFrom content fuel r offset = rs := by
  induction fuel generalizing r offset rs with
  | zero => cases h
  | succ fuel ih =>
    rw [decodeLoop] at h
    rw [decodedFrom]
    split at h
    case isFalse hend =>
      cases h
      rw [if_neg hend]
    case isTrue hbelow =>
      rw [if_pos hbelow]
      cases hread : readRecord .int content r offset with
      | none =>
        rw [hread] at h
        cases h
      | some next =>
        rw [hread] at h
        obtain ⟨r, offset⟩ := next
        simp only at h
        cases hloop : decodeLoop .int content fuel r offset with
        | error e =>
          rw [hloop] at h
          cases h
        | ok out =>
          rw [hloop] at h
          cases h
          exact congrArg (r :: ·) (ih hloop)

theorem mainLoop_dry (fuel : Nat) (r : Record) (offset : CInt) (map : List FileMap) (s : σ) :
    recordsOf (mainLoop S cwd content ⟨true, false⟩ fuel r offset map s).rounds =
      decodedFrom content fuel r offset := by
  induction fuel generalizing r offset map s with
  | zero => rfl
  | succ fuel ih =>
    rw [mainLoop, decodedFrom]
    split
    case isFalse => rfl
    case isTrue =>
      cases readRecord .int content r offset with
      | none => rfl
      | some out => exact congrArg (out.1 :: ·) (ih out.1 out.2 map s)

theorem mainLoop_default (fuel : Nat) (r : Record) (offset : CInt) (map : List FileMap) (s : σ) :
    let run := mainLoop S cwd content ⟨false, false⟩ fuel r offset map s
    recordsOf run.rounds = upToFirst (¬ Record.Fits cwd ·) (decodedFrom content fuel r offset) ∧
      ((∃ f, run.ending = .fault f) ↔ ∃ r' ∈ decodedFrom content fuel r offset, ¬ r'.Fits cwd) := by
  induction fuel generalizing r offset map s with
  | zero => simp [mainLoop, decodedFrom, recordsOf, upToFirst]
  | succ fuel ih =>
    dsimp only
    rw [mainLoop, decodedFrom]
    split
    case isFalse => simp [recordsOf, upToFirst]
    case isTrue =>
      cases readRecord .int content r offset with
      | none => simp [recordsOf, upToFirst]
      | some out =>
        obtain ⟨r, offset⟩ := out
        have hfits := replayRecord_ok_iff S cwd map r s
        simp only [Bool.false_eq_true, if_false]
        cases hreplay : replayRecord S cwd map r s with
        | error f =>
          have hno : ¬ r.Fits cwd := by
            rw [← hfits, hreplay]
            simp
          exact ⟨by simp [recordsOf, upToFirst, hno], by simp [hno]⟩
        | ok d =>
          have hfit : r.Fits cwd := hfits.mp ⟨d, hreplay⟩
          dsimp only
          rw [if_neg (report_false_ne r d.ret)]
          obtain ⟨hrecords, hfault⟩ := ih r offset d.map d.os
          refine ⟨?_, ?_⟩
          · rw [upToFirst, if_neg (not_not_intro hfit), ← hrecords]
            rfl
          · rw [List.exists_mem_cons_iff, or_iff_right (not_not_intro hfit), ← hfault]
            rfl

theorem upToFirst_eq_self {α : Type} {p : α → Prop} [DecidablePred p] {as : List α}
    (h : ∀ a ∈ as, ¬ p a) : upToFirst p as = as := by
  induction as with
  | nil => rfl
  | cons a as ih =>
    obtain ⟨ha, has⟩ := List.forall_mem_cons.mp h
    rw [upToFirst, if_neg ha, ih has]

end Loop

def Found.read (found : Found) (operands : Nat) : Option (List Byte) :=
  if operands = 1 ∧ found.malloc = true ∧ found.fopen = true then
    found.stat.filter fun content => freadOne content.length = 1
  else none

theorem main_cases (S : Os σ) (cwd : List Byte) (operands : Nat) (found : Found) (fuel : Nat)
    (r : Record) (s : σ) :
    (∃ content, found.read operands = some content ∧
        ∀ opts flags, getFlags ⟨false, false⟩ opts = some flags →
          (flags.showFlag && flags.strictFlag) = false →
            main S cwd opts operands found fuel r s =
              .left (mainLoop S cwd content flags fuel r Cursor.int.start [] s)) ∨
      found.read operands = none ∧ ∃ e : MainExit, e.rounds = [] ∧ ¬ e.Faults ∧
        ∀ opts flags, getFlags ⟨false, false⟩ opts = some flags →
          (flags.showFlag && flags.strictFlag) = false →
            main S cwd opts operands found fuel r s = e := by
  have hboth : ∀ flags : Flags, (flags.showFlag && flags.strictFlag) = false →
      ¬ (flags.showFlag = true ∧ flags.strictFlag = true) := by
    rintro flags hflags ⟨hshow, hstrict⟩
    rw [hshow, hstrict] at hflags
    cases hflags
  by_cases hoperands : operands = 1
  case neg =>
    refine .inr ⟨by simp [Found.read, hoperands], .usage, rfl, id, ?_⟩
    intro opts flags hopts hflags
    simp [main, hopts, hboth flags hflags, hoperands]
  cases hstat : found.stat with
  | none =>
    refine .inr ⟨by simp [Found.read, hstat], .statFailed, rfl, id, ?_⟩
    intro opts flags hopts hflags
    simp [main, hopts, hboth flags hflags, hoperands, hstat]
  | some content =>
    cases hmalloc : found.malloc
    case false =>
      refine .inr ⟨by simp [Found.read, hmalloc], .noMemory, rfl, id, ?_⟩
      intro opts flags hopts hflags
      simp [main, hopts, hboth flags hflags, hoperands, hstat, hmalloc]
    cases hfopen : found.fopen
    case false =>
      refine .inr ⟨by simp [Found.read, hfopen], .openFailed, rfl, id, ?_⟩
      intro opts flags hopts hflags
      simp [main, hopts, hboth flags hflags, hoperands, hstat, hmalloc, hfopen]
    by_cases hread : freadOne content.length = 1
    case neg =>
      refine .inr ⟨by simp [Found.read, hstat, hread], .readFailed, rfl, id, ?_⟩
      intro opts flags hopts hflags
      simp [main, hopts, hboth flags hflags, hoperands, hstat, hmalloc, hfopen, hread]
    refine .inl ⟨content, by simp [Found.read, hoperands, hstat, hmalloc, hfopen, hread],
      fun opts flags hopts hflags => ?_⟩
    simp [main, hopts, hboth flags hflags, hoperands, hstat, hmalloc, hfopen, hread]

/-- On one trace and one system, the strict run makes the calls of the default run up to and
including the first record for which that reports a deviation, and no others; the dry run decodes
the records of the default run and makes no call. Nothing could be said of the calls of a run
behind a fault, so there is none. -/
structure ModesAgree (S : Os σ) (cwd : List Byte) (operands : Nat) (found : Found) (fuel : Nat)
    (r : Record) (s : σ) : Prop where
  strictCalls : callsOf (main S cwd [.s] operands found fuel r s).rounds =
    callsOf (upToFirst Round.Deviates (main S cwd [] operands found fuel r s).rounds)
  strictRecords : recordsOf (main S cwd [.s] operands found fuel r s).rounds =
    recordsOf (upToFirst Round.Deviates (main S cwd [] operands found fuel r s).rounds)
  dryCalls : callsOf (main S cwd [.n] operands found fuel r s).rounds = []
  dryRecords : recordsOf (main S cwd [.n] operands found fuel r s).rounds =
    recordsOf (main S cwd [] operands found fuel r s).rounds
  noFault : ¬ (main S cwd [] operands found fuel r s).Faults

theorem modes_agree_iff (S : Os σ) (cwd : List Byte) (operands : Nat) (found : Found) (fuel : Nat)
    (r : Record) (s : σ) :
    ModesAgree S cwd operands found fuel r s ↔
      ∀ content ∈ found.read operands,
        ∀ r' ∈ decodedFrom content fuel r Cursor.int.start, r'.Fits cwd := by
  have hcalls : ∀ rounds : List Round,
      callsOf rounds = (rounds.map fun x => (x.record, x.call)).filterMap Prod.snd := by
    intro rounds
    rw [List.filterMap_map]
    rfl
  have hrecords : ∀ rounds : List Round,
      recordsOf rounds = (rounds.map fun x => (x.record, x.call)).map Prod.fst := by
    intro rounds
    rw [List.map_map]
    rfl
  rcases main_cases S cwd operands found fuel r s with
    ⟨content, hread, hmain⟩ | ⟨hread, e, he, hfault, hmain⟩
  · have hdefault := hmain [] ⟨false, false⟩ rfl rfl
    have hstrict := hmain [.s] ⟨false, true⟩ rfl rfl
    have hdry := hmain [.n] ⟨true, false⟩ rfl rfl
    obtain ⟨hcut, hfaults⟩ := mainLoop_default S cwd content fuel r Cursor.int.start [] s
    constructor
    · intro h content' hcontent r' hr'
      cases hread.symm.trans hcontent
      have hno := h.noFault
      rw [hdefault] at hno
      exact not_not.mp fun hfit => hno (hfaults.mpr ⟨r', hr', hfit⟩)
    · intro hall
      have hfit := hall content hread
      have hloop := mainLoop_strict S cwd content fuel r Cursor.int.start [] s
      refine ⟨?_, ?_, ?_, ?_, ?_⟩
      · rw [hdefault, hstrict, hcalls, hcalls]
        exact congrArg _ hloop
      · rw [hdefault, hstrict, hrecords, hrecords]
        exact congrArg _ hloop
      · rw [hdry]
        exact mainLoop_dry_calls S cwd content fuel r _ [] s
      · rw [hdefault, hdry]
        refine (mainLoop_dry S cwd content fuel r _ [] s).trans ?_
        exact ((upToFirst_eq_self fun r' hr' => not_not_intro (hfit r' hr')).symm.trans hcut.symm)
      · rw [hdefault]
        intro hf
        obtain ⟨r', hr', hno⟩ := hfaults.mp hf
        exact hno (hfit r' hr')
  · rw [hread]
    refine iff_of_true ?_ (by simp)
    have hdefault := hmain [] ⟨false, false⟩ rfl rfl
    have hstrict := hmain [.s] ⟨false, true⟩ rfl rfl
    have hdry := hmain [.n] ⟨true, false⟩ rfl rfl
    constructor <;> simp [hdefault, hstrict, hdry, he, hfault, upToFirst, callsOf, recordsOf]

def longUnlink : Entry :=
  ⟨((0, 6, 0, 0) : Trfs.Header), (⟨200, List.replicate 200 0x61, by
    rw [List.length_replicate]
    rfl⟩ : Trfs.Counted 16)⟩

def deepDirectory : List Byte := List.replicate 4000 0x61

theorem cstr_replicate (n : Nat) : cstr (List.replicate n 0x61) = List.replicate n 0x61 := by
  simp [cstr]

theorem cstr_replicate_nul (n : Nat) :
    cstr (List.replicate n 0x61 ++ [0]) = List.replicate n 0x61 := by
  rw [cstr, List.takeWhile_append_of_pos] <;> simp

theorem longUnlink_not_fits (r : Record) : ¬ (fill longUnlink r).Fits deepDirectory := by
  rintro ⟨p, hp, hlt⟩
  have hpath : p = List.replicate 200 0x61 ++ [0] := (Option.some.inj hp).symm
  rw [hpath, deepDirectory, cstr_replicate, cstr_replicate_nul, List.length_replicate,
    List.length_replicate] at hlt
  omega

theorem long_unlink_cuts_replay_short :
    let found := Found.whole ([longUnlink, closeEntry].flatMap entry.enc)
    recordsOf (main quietOs deepDirectory [.n] 1 found 3 .blank ()).rounds ≠
        recordsOf (main quietOs deepDirectory [] 1 found 3 .blank ()).rounds ∧
      ¬ ModesAgree quietOs deepDirectory 1 found 3 .blank () := by
  intro found
  have hlaid : Laid ([longUnlink, closeEntry].flatMap entry.enc) Cursor.int.start
      [longUnlink, closeEntry] :=
    (laid_iff_of_short (by decide +kernel) (Nat.zero_le _) _).mpr List.drop_zero
  have hdecoded := decodedFrom_of_decodeLoop (decodeLoop_of_laid hlaid 3 .blank)
  have hread : found.read 1 = some ([longUnlink, closeEntry].flatMap entry.enc) := by
    decide +kernel
  have hne : recordsOf (main quietOs deepDirectory [.n] 1 found 3 .blank ()).rounds ≠
      recordsOf (main quietOs deepDirectory [] 1 found 3 .blank ()).rounds := by
    rcases main_cases quietOs deepDirectory 1 found 3 .blank () with
      ⟨content, hcontent, hmain⟩ | ⟨hnone, -⟩
    · cases hread.symm.trans hcontent
      rw [hmain [] ⟨false, false⟩ rfl rfl, hmain [.n] ⟨true, false⟩ rfl rfl]
      intro heq
      have hrecords :=
        (mainLoop_dry quietOs deepDirectory _ 3 .blank Cursor.int.start [] ()).symm.trans
          (heq.trans (mainLoop_default quietOs deepDirectory _ 3 .blank Cursor.int.start [] ()).1)
      rw [hdecoded, fillAll, upToFirst, if_pos (longUnlink_not_fits _)] at hrecords
      cases hrecords
    · cases hread.symm.trans hnone
  exact ⟨hne, fun h => hne h.dryRecords⟩

end TraceFS.Treplay
