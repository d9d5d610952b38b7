import Mathlib.Data.List.TakeWhile
import Mathlib.Data.Nat.Digits.Defs
import TraceFS.Lib.Bytes

namespace TraceFS.Lib

def digitVal (b : Byte) : Nat :=
  if 0x30 ≤ b ∧ b ≤ 0x39 then b.toNat - 0x30
  else if 0x61 ≤ b ∧ b ≤ 0x7A then b.toNat - 0x61 + 10
  else if 0x41 ≤ b ∧ b ≤ 0x5A then b.toNat - 0x41 + 10
  else 36

def numeral (base : Nat) (s : List Byte) : Nat :=
  s.foldl (fun acc b => acc * base + digitVal b) 0

def isspace (b : Byte) : Bool := b = 0x20 ∨ 0x09 ≤ b ∧ b ≤ 0x0D

def numeralBase (s : List Byte) : Nat × List Byte :=
  if s[0]? = some 0x30 then
    if (s[1]? = some 0x78 ∨ s[1]? = some 0x58) ∧ ∃ d ∈ s[2]?, digitVal d < 16 then (16, s.drop 2)
    else (8, s)
  else (10, s)

/-- `strtoul(s, NULL, 0)` with an `unsigned long` of 64 bits. -/
def strtoul (s : List Byte) : BitVec 64 :=
  let s := s.dropWhile isspace
  let negative := s[0]? = some 0x2D
  let based := numeralBase (if negative ∨ s[0]? = some 0x2B then s.tail else s)
  let value := numeral based.1 (based.2.takeWhile (digitVal · < based.1))
  if 2 ^ 64 ≤ value then BitVec.allOnes 64
  else if negative then -BitVec.ofNat 64 value
  else BitVec.ofNat 64 value

def hexDigit (d : Nat) : Byte :=
  if d < 10 then BitVec.ofNat 8 (0x30 + d) else BitVec.ofNat 8 (0x61 + (d - 10))

def hexText (n : Nat) : List Byte :=
  if n = 0 then [0x30] else ((Nat.digits 16 n).map hexDigit).reverse

def HexDenotes (s : List Byte) (v : Nat) : Prop :=
  ∃ digits, s = 0x30 :: 0x78 :: digits ∧ digits ≠ [] ∧ (∀ d ∈ digits, digitVal d < 16) ∧
    numeral 16 digits = v

theorem HexDenotes.unique {s : List Byte} {v w : Nat} (hv : HexDenotes s v)
    (hw : HexDenotes s w) : v = w := by
  obtain ⟨digits, rfl, -, -, rfl⟩ := hv
  obtain ⟨_, heq, -, -, rfl⟩ := hw
  obtain rfl := List.tail_eq_of_cons_eq (List.tail_eq_of_cons_eq heq)
  rfl

theorem HexDenotes.strtoul_eq {s : List Byte} {v : Nat} (h : HexDenotes s v) :
    strtoul s = if 2 ^ 64 ≤ v then BitVec.allOnes 64 else BitVec.ofNat 64 v := by
  obtain ⟨digits, rfl, hne, hdigits, rfl⟩ := h
  obtain ⟨d, ds, rfl⟩ := List.exists_cons_of_ne_nil hne
  have hbase : numeralBase (0x30 :: 0x78 :: d :: ds) = (16, d :: ds) := by
    have hd := hdigits d List.mem_cons_self
    simp [numeralBase, hd]
  have hall : (d :: ds).takeWhile (digitVal · < 16) = d :: ds :=
    List.takeWhile_eq_self_iff.mpr fun d hd => decide_eq_true (hdigits d hd)
  have hspace : (0x30 :: 0x78 :: d :: ds : List Byte).dropWhile isspace = 0x30 :: 0x78 :: d :: ds :=
    List.dropWhile_cons_of_neg (by decide)
  have hfirst : (0x30 :: 0x78 :: d :: ds : List Byte)[0]? = some 0x30 := rfl
  have hminus : ¬ some (0x30 : Byte) = some 0x2D := by decide
  have hplus : ¬ some (0x30 : Byte) = some 0x2B := by decide
  simp only [strtoul, hspace, hfirst, hminus, hplus, or_self, if_false, hbase, hall]

theorem digitVal_hexDigit {d : Nat} (h : d < 16) : digitVal (hexDigit d) = d := by
  revert d
  decide

theorem numeral_reverse_map_hexDigit {ds : List Nat} (h : ∀ d ∈ ds, d < 16) :
    numeral 16 (ds.map hexDigit).reverse = Nat.ofDigits 16 ds := by
  induction ds with
  | nil => rfl
  | cons d ds ih =>
    obtain ⟨hd, hds⟩ := List.forall_mem_cons.mp h
    have hlast : numeral 16 ((ds.map hexDigit).reverse ++ [hexDigit d]) =
        numeral 16 (ds.map hexDigit).reverse * 16 + digitVal (hexDigit d) := by
      rw [numeral, List.foldl_append]
      rfl
    rw [List.map_cons, List.reverse_cons, hlast, ih hds, digitVal_hexDigit hd, Nat.ofDigits_cons,
      Nat.mul_comm, Nat.add_comm]

theorem numeral_hexText (n : Nat) : numeral 16 (hexText n) = n := by
  unfold hexText
  split
  case isTrue h =>
    subst h
    rfl
  case isFalse h =>
    rw [numeral_reverse_map_hexDigit fun d hd => Nat.digits_lt_base (by decide) hd,
      Nat.ofDigits_digits]

theorem hexText_injective : Function.Injective hexText :=
  Function.LeftInverse.injective numeral_hexText

end TraceFS.Lib
