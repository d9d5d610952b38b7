import TraceFS.Treplay.Main
import TraceFS.Treplay.Safety

universe u

namespace TraceFS.Treplay

open TraceFS.Lib TraceFS.Linux
open TraceFS.Trfs (Entry entry)

variable {σ : Type u}

section Loop

variable (S : Os σ) (cwd content : List Byte)

theorem replayRecord_ok_iff (map : List FileMap) (r : Record) (s : σ) :
    (∃ d, replayRecord S cwd map r s = .ok d) ↔ r.Fits cwd := by
  rw [← replayCall_ok_iff cwd map r, replayRecord]
  cases replayCall cwd map r with
  | error f => simp
  | ok call => cases call <;> simp

theorem exists_replays (map : List FileMap) (s : σ) (rs : List Record)
    (hfits : ∀ r ∈ rs, r.Fits cwd) : ∃ rounds, Replays S cwd map s rs rounds := by
  induction rs generalizing map s with
  | nil => exact ⟨[], .done map s⟩
  | cons r rs ih =>
    obtain ⟨hfit, hfits⟩ := List.forall_mem_cons.mp hfits
    obtain ⟨d, hd⟩ := (replayRecord_ok_iff S cwd map r s).mpr hfit
    obtain ⟨rest, hrest⟩ := ih d.map d.os hfits
    exact ⟨_, replays_cons_iff.mpr ⟨d, rest, hd, hrest, rfl⟩⟩

variable {S cwd}

theorem Replays.mainLoop {es : List Entry} {offset : CInt} {r : Record} {map : List FileMap}
    {s : σ} {rounds : List Round} (h : Replays S cwd map s (fillAll es r) rounds)
    (hlaid : Laid content offset es) (fuel : Nat) (hfuel : es.length < fuel) :
    Treplay.mainLoop S cwd content ⟨false, false⟩ fuel r offset map s =
      ⟨rounds, .finished, placeAfter offset es⟩ := by
  induction es generalizing fuel r offset map s rounds with
  | nil =>
    obtain ⟨fuel, rfl⟩ := Nat.exists_eq_add_of_lt hfuel
    have hbelow : Cursor.int.below offset content.length = false := hlaid
    cases h
    simp [Treplay.mainLoop, hbelow, placeAfter]
  | cons e es ih =>
    cases fuel with
    | zero => cases hfuel
    | succ fuel =>
      obtain ⟨hbelow, hpre, hstarts, hrest⟩ := hlaid
      obtain ⟨bs, hdec⟩ := dec_of_prefix hpre
      obtain ⟨d, rest, hd, hreplays, rfl⟩ := replays_cons_iff.mp h
      rw [Treplay.mainLoop, if_pos hbelow, readRecord_int r hbelow, hdec, Option.bind_some,
        if_pos hstarts]
      simp only [Bool.false_eq_true, if_false, hd]
      rw [if_neg (report_false_ne _ _), ih hreplays hrest fuel (Nat.lt_of_succ_lt_succ hfuel)]
      rfl

variable (S cwd)

theorem fits_of_finished (fuel : Nat) (r : Record) (offset : CInt) (map : List FileMap) (s : σ)
    (h : (mainLoop S cwd content ⟨false, false⟩ fuel r offset map s).ending = .finished) :
    ∀ x ∈ (mainLoop S cwd content ⟨false, false⟩ fuel r offset map s).rounds,
      x.record.Fits cwd := by
  induction fuel generalizing r offset map s with
  | zero => cases h
  | succ fuel ih =>
    rw [mainLoop] at h ⊢
    split at h
    case isFalse hend => simp [hend]
    case isTrue hbelow =>
      rw [if_pos hbelow]
      cases hread : readRecord .int content r offset with
      | none =>
        rw [hread] at h
        cases h
      | some out =>
        obtain ⟨r, offset⟩ := out
        simp only [hread, Bool.false_eq_true, if_false] at h ⊢
        cases hreplay : replayRecord S cwd map r s with
        | error f =>
          rw [hreplay] at h
          cases h
        | ok d =>
          simp only [hreplay, if_neg (report_false_ne _ _)] at h ⊢
          refine List.forall_mem_cons.mpr ⟨?_, ih r offset d.map d.os h⟩
          exact (replayRecord_ok_iff S cwd map r s).mp ⟨d, hreplay⟩

end Loop

theorem placeAfter_ofNat (i : Nat) (es : List Entry) :
    placeAfter (BitVec.ofNat 32 i) es = BitVec.ofNat 32 (i + (es.flatMap entry.enc).length) := by
  induction es generalizing i with
  | nil => rfl
  | cons e es ih =>
    have hadvance : Cursor.int.advance (BitVec.ofNat 32 i) (entry.enc e).length =
        BitVec.ofNat 32 (i + (entry.enc e).length) := (BitVec.ofNat_add _ _).symm
    rw [placeAfter, hadvance, ih, List.flatMap_cons, List.length_append, Nat.add_assoc]

def Found.whole (content : List Byte) : Found := ⟨some content, true, true⟩

/-- The default run on the file of the entries decodes and replays each of them once, in their
order, and leaves its loop with `offset` at the end of the file. -/
def ReplaysWhole (S : Os σ) (cwd : List Byte) (es : List Entry) (r : Record) (s : σ) : Prop :=
  ∃ fuel run, main S cwd [] 1 (.whole (es.flatMap entry.enc)) fuel r s = .left run ∧
    run.ending = .finished ∧ Replays S cwd [] s (fillAll es r) run.rounds ∧
    (run.offset.signExtend 64).toNat = (es.flatMap entry.enc).length

theorem main_whole (S : Os σ) (cwd content : List Byte) (fuel : Nat) (r : Record) (s : σ) :
    main S cwd [] 1 (.whole content) fuel r s =
      if content.length = 0 then .readFailed
      else .left (mainLoop S cwd content ⟨false, false⟩ fuel r Cursor.int.start [] s) := by
  by_cases hempty : content.length = 0 <;> simp [main, getFlags, Found.whole, freadOne, hempty]

theorem ReplaysWhole.bounds {S : Os σ} {cwd : List Byte} {es : List Entry} {r : Record} {s : σ}
    (hsize : (es.flatMap entry.enc).length < 2 ^ 63) (h : ReplaysWhole S cwd es r s) :
    0 < (es.flatMap entry.enc).length ∧ (es.flatMap entry.enc).length < 2 ^ 31 := by
  obtain ⟨fuel, run, hrun, -, -, hoffset⟩ := h
  rw [main_whole] at hrun
  by_cases hempty : (es.flatMap entry.enc).length = 0
  · rw [if_pos hempty] at hrun
    cases hrun
  · refine ⟨by omega, ?_⟩
    by_cases hneg : run.offset.toInt < 0
    · have hlarge := toNat_signExtend_of_neg hneg
      omega
    · have hlt := BitVec.toInt_lt (x := run.offset)
      rw [toNat_signExtend_of_nonneg (by omega)] at hoffset
      omega

/-- A trace is replayed as a whole exactly when it is not empty, has fewer than 2^31 bytes, and
all of its paths fit behind the current directory. -/
theorem replays_whole_iff (S : Os σ) (cwd : List Byte) (es : List Entry) (r : Record) (s : σ)
    (hsize : (es.flatMap entry.enc).length < 2 ^ 63) :
    ReplaysWhole S cwd es r s ↔
      (0 < (es.flatMap entry.enc).length ∧ (es.flatMap entry.enc).length < 2 ^ 31) ∧
        ∀ r' ∈ fillAll es r, r'.Fits cwd := by
  constructor
  · intro h
    refine ⟨h.bounds hsize, ?_⟩
    obtain ⟨fuel, run, hrun, hending, hreplays, -⟩ := h
    rw [main_whole] at hrun
    split at hrun
    · cases hrun
    · cases hrun
      have hfits := fits_of_finished S cwd _ fuel r _ [] s hending
      intro r' hr'
      rw [← hreplays.records] at hr'
      obtain ⟨x, hx, rfl⟩ := List.mem_map.mp hr'
      exact hfits x hx
  · rintro ⟨⟨hpos, hlt⟩, hfits⟩
    have hlaid : Laid (es.flatMap entry.enc) Cursor.int.start es :=
      (laid_iff_of_short hlt (Nat.zero_le _) es).mpr List.drop_zero
    have hplace := placeAfter_ofNat 0 es
    rw [Nat.zero_add] at hplace
    obtain ⟨rounds, hreplays⟩ := exists_replays S cwd [] s (fillAll es r) hfits
    refine ⟨es.length + 1, ⟨rounds, .finished, placeAfter Cursor.int.start es⟩, ?_, rfl, hreplays,
      ?_⟩
    · rw [main_whole, if_neg (by omega), hreplays.mainLoop _ hlaid _ (Nat.lt_succ_self _)]
    change ((placeAfter (BitVec.ofNat 32 0) es).signExtend 64).toNat = _
    have hindex := toInt_ofNat_of_lt hlt
    rw [hplace, toNat_signExtend_of_nonneg (by omega), hindex]
    rfl

def quietOs : Os Unit := fun _ s => (0, s)

def closeEntry : Entry := ⟨((0, 4, 0, 7) : Trfs.Header), PUnit.unit⟩

theorem replays_whole_iff_oneClose : ReplaysWhole quietOs [] [closeEntry] .blank () := by
  refine (replays_whole_iff quietOs [] [closeEntry] .blank () (by decide)).mpr
    ⟨⟨by decide, by decide⟩, fun r' hr' => ?_⟩
  rw [List.mem_singleton.mp hr']
  trivial

def readEntry (n : Nat) (h : n < 2 ^ 64) : Entry :=
  ⟨((0, 2, 0, 7) : Trfs.Header), (⟨BitVec.ofNat 64 n, List.replicate n 0, by
    rw [List.length_replicate, BitVec.toNat_ofNat, Nat.mod_eq_of_lt h]⟩ : Trfs.Counted 64)⟩

theorem readEntry_enc_length (n : Nat) (h : n < 2 ^ 64) :
    (entry.enc (readEntry n h)).length = 25 + n := by
  have hpayload : ((Trfs.payload (some .read)).enc (readEntry n h).2).length = 8 + n := by
    change (le (BitVec.ofNat 64 n) ++ List.replicate n 0).length = 8 + n
    rw [List.length_append, le_length, List.length_replicate]
  rw [Trfs.entry_enc, List.length_append, Trfs.header_enc_length]
  exact (congrArg (17 + ·) hpayload).trans (Nat.add_assoc 17 8 n).symm

theorem empty_and_large_not_replayed :
    ¬ ReplaysWhole quietOs [] [] .blank () ∧
      ¬ ReplaysWhole quietOs [] [readEntry (2 ^ 31) (by decide), closeEntry] .blank () := by
  constructor
  · intro h
    exact absurd (h.bounds (by decide)).1 (Nat.lt_irrefl 0)
  · intro h
    have hread := readEntry_enc_length (2 ^ 31) (by decide)
    have hclose : (entry.enc closeEntry).length = 17 := by decide
    have hsize : ([readEntry (2 ^ 31) (by decide), closeEntry].flatMap entry.enc).length =
        25 + 2 ^ 31 + 17 := by
      rw [List.flatMap_cons, List.flatMap_cons, List.flatMap_nil, List.append_nil,
        List.length_append, hread, hclose]
    have hlt := (h.bounds (by omega)).2
    omega

end TraceFS.Treplay
