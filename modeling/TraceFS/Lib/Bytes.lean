import Mathlib.Data.List.Basic
import Mathlib.Tactic.Ring

namespace TraceFS.Lib

abbrev Byte := BitVec 8

def leNat : Nat → Nat → List Byte
  | 0, _ => []
  | n + 1, x => BitVec.ofNat 8 x :: leNat n (x / 256)

def unNat : List Byte → Nat
  | [] => 0
  | b :: bs => b.toNat + 256 * unNat bs

@[simp] theorem leNat_length (n x : Nat) : (leNat n x).length = n := by
  induction n generalizing x with
  | zero => rfl
  | succ n ih => simp [leNat, ih]

theorem unNat_lt (bs : List Byte) : unNat bs < 256 ^ bs.length := by
  induction bs with
  | nil => simp [unNat]
  | cons b bs ih =>
    have hb : b.toNat < 256 := b.isLt
    simp only [unNat, List.length_cons, Nat.pow_succ]
    omega

theorem unNat_leNat (n x : Nat) : unNat (leNat n x) = x % 256 ^ n := by
  induction n generalizing x with
  | zero => simp [leNat, unNat, Nat.mod_one]
  | succ n ih =>
    rw [leNat, unNat, ih, BitVec.toNat_ofNat, Nat.pow_succ 256 n, Nat.mul_comm (256 ^ n),
      Nat.mod_mul]

theorem leNat_unNat (bs : List Byte) : leNat bs.length (unNat bs) = bs := by
  induction bs with
  | nil => rfl
  | cons b bs ih =>
    have hb : b.toNat < 256 := b.isLt
    have hdiv : (b.toNat + 256 * unNat bs) / 256 = unNat bs := by omega
    have hmod : BitVec.ofNat 8 (b.toNat + 256 * unNat bs) = b := by
      apply BitVec.eq_of_toNat_eq
      rw [BitVec.toNat_ofNat]
      omega
    simp only [List.length_cons, unNat, leNat, hdiv, hmod, ih]

def sizeof {w : Nat} (_ : BitVec w) : Nat := w / 8

def le {w : Nat} (x : BitVec w) : List Byte := leNat (w / 8) x.toNat

def un (w : Nat) (bs : List Byte) : BitVec w := BitVec.ofNat w (unNat bs)

@[simp] theorem le_length {w : Nat} (x : BitVec w) : (le x).length = w / 8 := leNat_length _ _

theorem pow_of_dvd {w : Nat} (h : 8 ∣ w) : 256 ^ (w / 8) = 2 ^ w := by
  obtain ⟨k, rfl⟩ := h
  rw [Nat.mul_div_cancel_left k (by decide), Nat.pow_mul]

theorem un_le {w : Nat} (h : 8 ∣ w) (x : BitVec w) : un w (le x) = x := by
  apply BitVec.eq_of_toNat_eq
  rw [un, le, unNat_leNat, pow_of_dvd h, BitVec.toNat_ofNat, Nat.mod_mod]
  exact Nat.mod_eq_of_lt x.isLt

theorem le_un {w : Nat} (h : 8 ∣ w) (bs : List Byte) (hlen : bs.length = w / 8) :
    le (un w bs) = bs := by
  have hlt : unNat bs < 2 ^ w := by
    rw [← pow_of_dvd h, ← hlen]
    exact unNat_lt bs
  rw [le, un, BitVec.toNat_ofNat, Nat.mod_eq_of_lt hlt, ← hlen, leNat_unNat]

structure Buffer (cap : Nat) where
  bytes : List Byte
  length_eq : bytes.length = cap

def Buffer.zero (cap : Nat) : Buffer cap := ⟨List.replicate cap 0, List.length_replicate⟩

def Buffer.blit (b : Buffer cap) (i : Nat) (src : List Byte) (h : i + src.length ≤ cap) :
    Buffer cap where
  bytes := b.bytes.take i ++ src ++ b.bytes.drop (i + src.length)
  length_eq := by
    simp only [List.length_append, List.length_take, List.length_drop, b.length_eq]
    omega

theorem Buffer.blit_take (b : Buffer cap) (src : List Byte) (h : i + src.length ≤ cap) :
    (b.blit i src h).bytes.take (i + src.length) = b.bytes.take i ++ src := by
  have hi : (b.bytes.take i).length = i := by
    rw [List.length_take, b.length_eq]
    omega
  rw [Buffer.blit, List.take_append_of_le_length (by simp [hi]),
    List.take_of_length_le (by simp [hi])]

def pwrite (file : List Byte) (pos : Nat) (data : List Byte) : List Byte :=
  (file.take pos ++ List.replicate (pos - file.length) 0) ++ data ++ file.drop (pos + data.length)

@[simp] theorem pwrite_end (file data : List Byte) :
    pwrite file file.length data = file ++ data := by
  simp [pwrite]

end TraceFS.Lib
