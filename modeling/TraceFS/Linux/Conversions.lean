import TraceFS.Linux.Kernel

namespace TraceFS.Linux

theorem toInt_add_eq {x y : CInt} (hge : -2 ^ 31 ≤ x.toInt + y.toInt)
    (hlt : x.toInt + y.toInt < 2 ^ 31) : (x + y).toInt = x.toInt + y.toInt := by
  rw [BitVec.toInt_add, Int.bmod_eq_of_le (by omega) (by omega)]

theorem toInt_add_neg {x y : CInt} (h : 2 ^ 31 ≤ x.toInt + y.toInt) : (x + y).toInt < 0 := by
  have hx := BitVec.toInt_lt (x := x)
  have hy := BitVec.toInt_lt (x := y)
  rw [BitVec.toInt_add, Int.bmod_def]
  omega

theorem toNat_signExtend_of_nonneg {x : CInt} (h : 0 ≤ x.toInt) :
    (x.signExtend 64).toNat = x.toInt.toNat := by
  have hx := x.isLt
  rw [BitVec.toInt_eq_msb_cond] at h ⊢
  rw [BitVec.toNat_signExtend, BitVec.toNat_setWidth]
  cases hmsb : x.msb
  · simp only [Bool.false_eq_true, if_false]
    omega
  · simp only [hmsb, if_true] at h
    omega

theorem toNat_signExtend_of_neg {x : CInt} (h : x.toInt < 0) :
    2 ^ 64 - 2 ^ 31 ≤ (x.signExtend 64).toNat := by
  have hx := x.isLt
  have hge := BitVec.le_toInt x
  rw [BitVec.toInt_eq_msb_cond] at h hge
  rw [BitVec.toNat_signExtend, BitVec.toNat_setWidth]
  cases hmsb : x.msb
  · simp only [hmsb, Bool.false_eq_true, if_false] at h
    omega
  · simp only [hmsb, if_true] at h hge ⊢
    omega

theorem signExtend_setWidth_eq_iff (x : BitVec 64) :
    (x.setWidth 32).signExtend 64 = x ↔ -2 ^ 31 ≤ x.toInt ∧ x.toInt < 2 ^ 31 := by
  have hge := BitVec.le_toInt (x.setWidth 32)
  have hlt := BitVec.toInt_lt (x := x.setWidth 32)
  have hsame : ((x.setWidth 32).signExtend 64).toInt = (x.setWidth 32).toInt :=
    BitVec.toInt_signExtend_of_le (by decide)
  rw [← BitVec.toInt_inj, hsame]
  constructor
  · intro h
    omega
  · rintro ⟨hlow, hhigh⟩
    rw [BitVec.toInt_eq_toNat_cond] at hlow hhigh
    rw [BitVec.toInt_setWidth, Int.bmod_def, BitVec.toInt_eq_toNat_cond]
    have hx := x.isLt
    omega

theorem setWidth_signExtend (x : CInt) : (x.signExtend 64).setWidth 32 = x := by
  apply BitVec.eq_of_getLsbD_eq
  intro i hi
  simp [BitVec.getLsbD_signExtend, hi]
  omega

end TraceFS.Linux
