import TraceFS.Lib.Run
import TraceFS.Linux.Conversions
import TraceFS.Trfs.Ops

namespace TraceFS.Trfs

open TraceFS.Lib TraceFS.Linux

abbrev Loff : Type := BitVec 64

abbrev Sought : Type := {e : CInt // e.toInt < 0} ⊕ {p : Loff // 0 ≤ p.toInt}

/-- What `generic_file_llseek` makes of `f_pos`, an offset and `whence`, for a directory of some
size and some largest offset. -/
abbrev Seek : Type := Loff → Loff → CInt → Sought

def genericFileLlseek (seek : Seek) (fPos offset : Loff) (whence : CInt) : Loff × Loff :=
  match seek fPos offset whence with
  | .inl err => (err.val.signExtend 64, fPos)
  | .inr pos => (pos.val, pos.val)

structure Positions where
  fPos : Loff
  lowerFPos : Loff
  deriving DecidableEq

/-- The result of each seek goes through the `int` `err`. -/
def trfsFileLlseek (seek : Seek) (offset : Loff) (whence : CInt) (s : Positions) :
    Loff × Positions :=
  let upper := genericFileLlseek seek s.fPos offset whence
  let err : CInt := upper.1.setWidth 32
  let s := { s with fPos := upper.2 }
  if err.toInt < 0 then (err.signExtend 64, s)
  else
    let lower := genericFileLlseek seek s.lowerFPos offset whence
    let err : CInt := lower.1.setWidth 32
    (err.signExtend 64, { s with lowerFPos := lower.2 })

def dirKernel (err : CInt) (pos : Loff) : Kernel Positions :=
  { Kernel.inert with
    iterateDir := fun _ _ s => (err, { s with lowerFPos := pos })
    copyFPos := fun _ _ s => { s with fPos := s.lowerFPos } }

inductive DirCall where
  | llseek (seek : Seek) (offset : Loff) (whence : CInt)
  | readdir (T : Tracing) (file ctx : Ptr) (err : CInt) (pos : Loff)

/-- `none` is a fault in `trfs_readdir`. -/
def Positions.step (s : Positions) : DirCall → Option Positions
  | .llseek seek offset whence => some (trfsFileLlseek seek offset whence s).2
  | .readdir T file ctx err pos =>
    match trfsReaddir (dirKernel err pos) T file ctx s with
    | .ok e => some e.state
    | .error _ => none

/-- What the call should do: a seek returns the new position, or an error and moves nothing; and
the two positions are equal afterwards. -/
def DirCall.Right (s : Positions) (c : DirCall) : Prop :=
  (∀ t ∈ s.step c, t.fPos = t.lowerFPos) ∧
    ∀ seek offset whence, c = .llseek seek offset whence →
      match seek s.fPos offset whence with
      | .inl _ => (trfsFileLlseek seek offset whence s).1.toInt < 0 ∧
          (trfsFileLlseek seek offset whence s).2 = s
      | .inr pos => (trfsFileLlseek seek offset whence s).1 = pos.val ∧
          (trfsFileLlseek seek offset whence s).2.fPos = pos.val

def DirCall.Small (s : Positions) (c : DirCall) : Prop :=
  ∀ seek offset whence, c = .llseek seek offset whence →
    ∀ pos, seek s.fPos offset whence = .inr pos → pos.val.toInt < 2 ^ 31

theorem trfsFileLlseek_error {seek : Seek} {offset : Loff} {whence : CInt} {s : Positions}
    {err : {e : CInt // e.toInt < 0}} (h : seek s.fPos offset whence = .inl err) :
    trfsFileLlseek seek offset whence s = (err.val.signExtend 64, s) := by
  have hupper : genericFileLlseek seek s.fPos offset whence = (err.val.signExtend 64, s.fPos) := by
    rw [genericFileLlseek, h]
  simp only [trfsFileLlseek, hupper, setWidth_signExtend, if_pos err.property]

theorem trfsFileLlseek_small {seek : Seek} {offset : Loff} {whence : CInt} {s : Positions}
    {pos : {p : Loff // 0 ≤ p.toInt}} (hs : s.fPos = s.lowerFPos)
    (h : seek s.fPos offset whence = .inr pos) (hsmall : pos.val.toInt < 2 ^ 31) :
    trfsFileLlseek seek offset whence s = (pos.val, ⟨pos.val, pos.val⟩) := by
  have hpos := pos.property
  have hupper : genericFileLlseek seek s.fPos offset whence = (pos.val, pos.val) := by
    rw [genericFileLlseek, h]
  have hlower := hs ▸ hupper
  have hsame := (signExtend_setWidth_eq_iff pos.val).mpr ⟨by omega, hsmall⟩
  have hnonneg : ¬ (pos.val.setWidth 32 : CInt).toInt < 0 := by
    have htoInt := congrArg BitVec.toInt hsame
    rw [BitVec.toInt_signExtend_of_le (by decide)] at htoInt
    omega
  simp only [trfsFileLlseek, hupper, if_neg hnonneg, hlower, hsame]

theorem trfsFileLlseek_ret_lt (seek : Seek) (offset : Loff) (whence : CInt) (s : Positions) :
    (trfsFileLlseek seek offset whence s).1.toInt < 2 ^ 31 := by
  have hext : ∀ err : CInt, (err.signExtend 64).toInt < 2 ^ 31 := by
    intro err
    rw [BitVec.toInt_signExtend_of_le (by decide)]
    exact BitVec.toInt_lt
  unfold trfsFileLlseek
  dsimp only
  split
  · exact hext _
  · exact hext _

theorem trfsReaddir_positions {s : Positions} {T : Tracing} {file ctx : Ptr} {err : CInt}
    {pos : Loff} {e : Exit Positions}
    (h : trfsReaddir (dirKernel err pos) T file ctx s = .ok e) : e.state = ⟨pos, pos⟩ := by
  have hmoved : ∀ b : Prop, ∀ _ : Decidable b,
      (if b then (⟨pos, pos⟩ : Positions) else ⟨pos, pos⟩) = ⟨pos, pos⟩ := fun b _ => ite_self _
  simp only [trfsReaddir] at h
  split at h
  · cases h
  split at h
  · cases h
  split at h <;> cases h <;> exact hmoved _ _

theorem Positions.readdir_step {s t : Positions} {T : Tracing} {file ctx : Ptr} {err : CInt}
    {pos : Loff} (h : t ∈ s.step (.readdir T file ctx err pos)) : t = ⟨pos, pos⟩ := by
  simp only [Positions.step] at h
  split at h
  case h_1 e he =>
    cases h
    exact trfsReaddir_positions he
  case h_2 => cases h

theorem DirCall.right_iff_small {s : Positions} (hs : s.fPos = s.lowerFPos) (c : DirCall) :
    c.Right s ↔ c.Small s := by
  cases c with
  | readdir T file ctx err pos =>
    refine iff_of_true ⟨?_, ?_⟩ ?_
    · intro t ht
      rw [Positions.readdir_step ht]
    · intro seek offset whence hc
      cases hc
    · intro seek offset whence hc
      cases hc
  | llseek seek offset whence =>
    constructor
    · rintro ⟨-, hright⟩ _ _ _ ⟨⟩ pos hpos
      have hret := hright seek offset whence rfl
      rw [hpos] at hret
      rw [← hret.1]
      exact trfsFileLlseek_ret_lt seek offset whence s
    · intro hsmall
      cases hsought : seek s.fPos offset whence with
      | inl err =>
        have heq := trfsFileLlseek_error hsought
        refine ⟨?_, ?_⟩
        · intro t ht
          cases ht
          rw [heq]
          exact hs
        · rintro _ _ _ ⟨⟩
          have hneg : (err.val.signExtend 64).toInt < 0 := by
            rw [BitVec.toInt_signExtend_of_le (by decide)]
            exact err.property
          rw [hsought, heq]
          exact ⟨hneg, rfl⟩
      | inr pos =>
        have heq := trfsFileLlseek_small hs hsought (hsmall _ _ _ rfl pos hsought)
        refine ⟨?_, ?_⟩
        · intro t ht
          cases ht
          rw [heq]
        · rintro _ _ _ ⟨⟩
          rw [hsought, heq]
          exact ⟨rfl, rfl⟩

theorem positions_equal_iff (calls : List DirCall) :
    Along (fun s c => c.Right s) Positions.step ⟨0, 0⟩ calls ↔
      Along (fun s c => c.Small s) Positions.step ⟨0, 0⟩ calls :=
  along_congr_of_kept (fun s => s.fPos = s.lowerFPos)
    (fun _ _ t _ hright ht => hright.1 t ht) (fun _ c hs => DirCall.right_iff_small hs c) rfl

def Seek.within (size maxOffset : Nat) : Seek := fun fPos offset whence =>
  let pos : Loff :=
    match whence.toNat with
    | 0 => offset
    | 1 => fPos + offset
    | _ => BitVec.ofNat 64 size + offset
  if h : 0 ≤ pos.toInt ∧ pos.toInt ≤ maxOffset then .inr ⟨pos, h.1⟩ else .inl ⟨-EINVAL, by decide⟩

theorem seek_past_int_splits :
    ¬ ∀ calls, Along (fun s c => DirCall.Right s c) Positions.step ⟨0, 0⟩ calls := by
  intro h
  have hright := (h [.llseek (Seek.within 4096 (2 ^ 63 - 1)) 0x80000000 0]).1.1 _ rfl
  exact absurd hright (by decide)

end TraceFS.Trfs
