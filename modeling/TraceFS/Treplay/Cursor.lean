import TraceFS.Treplay.Reader

namespace TraceFS.Treplay

open TraceFS.Lib TraceFS.Linux

/-- `offset` is an `int`; it is compared with the `unsigned long` `file_length`. -/
def Cursor.int : Cursor CInt where
  start := 0
  index := BitVec.toInt
  advance offset n := offset + BitVec.ofNat 32 n
  below offset fileLength := decide ((offset.signExtend 64).toNat < fileLength)

variable {π : Type} {C : Cursor π}

structure Cursor.Counts (C : Cursor π) (place : Nat → π) (n : Nat) : Prop where
  index : ∀ i ≤ n, C.index (place i) = i
  advance : ∀ i ≤ n, ∀ k, C.advance (place i) k = place (i + k)

theorem Cursor.int_counts : Cursor.int.Counts (BitVec.ofNat 32) (2 ^ 31 - 1) where
  index i hi := by
    have hnat : (BitVec.ofNat 32 i).toNat = i := by
      rw [BitVec.toNat_ofNat]
      omega
    change (BitVec.ofNat 32 i).toInt = i
    rw [BitVec.toInt_eq_toNat_of_lt (by omega), hnat]
  advance i _ k := (BitVec.ofNat_add i k).symm

variable {place : Nat → π} {n : Nat} {content : List Byte}

theorem Cursor.Counts.mono (h : C.Counts place n) {m : Nat} (hm : m ≤ n) : C.Counts place m where
  index i hi := h.index i (Nat.le_trans hi hm)
  advance i hi := h.advance i (Nat.le_trans hi hm)

structure Follows (C : Cursor π) (place : Nat → π) (n last size : Nat)
    (m : Record → StateT π Option Record) (m' : Record → StateT Nat Option Record) : Prop where
  eq : ∀ r i, i + last ≤ n → m r (place i) = (m' r i).map fun out => (out.1, place out.2)
  le : ∀ r i r' j, m' r i = some (r', j) → j ≤ i + size

theorem memcpy_le {k i j : Nat} {bytes : List Byte}
    (h : memcpy .unbounded content k i = some (bytes, j)) : j = i + k := by
  unfold memcpy at h
  split at h
  · cases h
    rfl
  · cases h

theorem Cursor.Counts.memcpy (hC : C.Counts place n) {i : Nat} (hi : i ≤ n) (k : Nat) :
    memcpy C content k (place i) =
      (Treplay.memcpy .unbounded content k i).map fun out => (out.1, place out.2) := by
  have hindex : Cursor.unbounded.index i = (i : Int) := rfl
  unfold Treplay.memcpy
  rw [hC.index i hi, hC.advance i hi k, hindex]
  by_cases hfit : 0 ≤ (i : Int) ∧ (i : Int).toNat + k ≤ content.length
  · rw [if_pos hfit, if_pos hfit]
    rfl
  · rw [if_neg hfit, if_neg hfit]
    rfl

theorem readRecord_eq_elim (C : Cursor π) (r : Record) :
    readRecord C content r = (do
      let r ← readCommon C content r
      (LogType.ofByte r.type).elim (pure r) (readFields C content r)) := by
  unfold readRecord
  congr
  funext r
  cases LogType.ofByte r.type <;> rfl

variable (hC : C.Counts place n)
include hC

theorem Cursor.Counts.readWord (w : Nat) (set : BitVec w → Record → Record) :
    Follows C place n 0 (w / 8) (readWord C content w set)
      (Treplay.readWord .unbounded content w set) where
  eq r i hi := by
    simp only [Treplay.readWord, bind, StateT.bind, hC.memcpy (show i ≤ n from hi)]
    cases Treplay.memcpy .unbounded content (w / 8) i <;> rfl
  le r i r' j h := by
    simp only [Treplay.readWord, bind, StateT.bind] at h
    cases hm : Treplay.memcpy .unbounded content (w / 8) i with
    | none =>
      rw [hm] at h
      cases h
    | some out =>
      rw [hm] at h
      cases h
      exact Nat.le_of_eq (memcpy_le hm)

theorem Cursor.Counts.counted (w : Nat) (set : BitVec w → Record → Record)
    (len : Record → BitVec w) (store : List Byte → Record → Record) :
    Follows C place n (w / 8) (w / 8 + 2 ^ w)
      (fun r => do
        let r ← Treplay.readWord C content w set r
        let bytes ← Treplay.memcpy C content (len r).toNat
        return store bytes r)
      (fun r => do
        let r ← Treplay.readWord .unbounded content w set r
        let bytes ← Treplay.memcpy .unbounded content (len r).toNat
        return store bytes r) where
  eq r i hi := by
    simp only [bind, StateT.bind, (hC.readWord w set).eq r i (by omega)]
    cases hw : Treplay.readWord .unbounded content w set r i with
    | none => rfl
    | some out =>
      have hle := (hC.readWord w set).le r i out.1 out.2 hw
      simp only [Option.map_some, Option.bind_some, hC.memcpy (by omega : out.2 ≤ n)]
      cases Treplay.memcpy .unbounded content (len out.1).toNat out.2 <;> rfl
  le r i r' j h := by
    simp only [bind, StateT.bind] at h
    cases hw : Treplay.readWord .unbounded content w set r i with
    | none =>
      rw [hw] at h
      cases h
    | some out =>
      have hle := (hC.readWord w set).le r i out.1 out.2 hw
      have hlen := (len out.1).isLt
      rw [hw, Option.bind_some] at h
      cases hm : Treplay.memcpy .unbounded content (len out.1).toNat out.2 with
      | none =>
        rw [hm] at h
        cases h
      | some out' =>
        rw [hm] at h
        cases h
        have := memcpy_le hm
        omega

omit hC in
theorem Follows.seq {last size last' size' : Nat} {m₁ m₂ : Record → StateT π Option Record}
    {m₁' m₂' : Record → StateT Nat Option Record} (h₁ : Follows C place n last size m₁ m₁')
    (h₂ : Follows C place n last' size' m₂ m₂') :
    Follows C place n (max last (size + last')) (size + size')
      (fun r => do let r ← m₁ r; m₂ r) (fun r => do let r ← m₁' r; m₂' r) where
  eq r i hi := by
    simp only [bind, StateT.bind, h₁.eq r i (by omega)]
    cases hm : m₁' r i with
    | none => rfl
    | some out =>
      have hle := h₁.le r i out.1 out.2 hm
      exact h₂.eq out.1 out.2 (by omega)
  le r i r' j h := by
    simp only [bind, StateT.bind] at h
    cases hm : m₁' r i with
    | none =>
      rw [hm] at h
      cases h
    | some out =>
      have hle := h₁.le r i out.1 out.2 hm
      rw [hm] at h
      have hle' := h₂.le out.1 out.2 r' j h
      omega

omit hC in
theorem Follows.mono {last last' size size' : Nat} {m : Record → StateT π Option Record}
    {m' : Record → StateT Nat Option Record} (h : Follows C place n last size m m')
    (hlast : last ≤ last') (hsize : size ≤ size') : Follows C place n last' size' m m' where
  eq r i hi := h.eq r i (by omega)
  le r i r' j hm := Nat.le_trans (h.le r i r' j hm) (by omega)

theorem Cursor.Counts.readCommon :
    Follows C place n 9 17 (readCommon C content) (Treplay.readCommon .unbounded content) := by
  have hid : Follows C place n 0 4 (readId C content) (readId .unbounded content) :=
    hC.readWord 32 _
  have htype : Follows C place n 0 1 (readType C content) (readType .unbounded content) :=
    hC.readWord 8 _
  have hreturn : Follows C place n 0 4 (readReturnValue C content)
      (readReturnValue .unbounded content) := hC.readWord 32 _
  have haddress : Follows C place n 0 8 (readFileAddress C content)
      (readFileAddress .unbounded content) := hC.readWord 64 _
  have h := hid.seq (htype.seq (hreturn.seq haddress))
  exact ⟨fun r => h.eq { r with path := none, data := none },
    fun r => h.le { r with path := none, data := none }⟩

theorem Cursor.Counts.readFields (ty : LogType) :
    Follows C place n (2 ^ 17 - 17) (8 + 2 ^ 64) (fun r => readFields C content r ty)
      (fun r => Treplay.readFields .unbounded content r ty) := by
  have hpath : Follows C place n 2 (2 + 2 ^ 16) (readPath C content)
      (Treplay.readPath .unbounded content) :=
    hC.counted 16 _ Record.pathLength fun bs r => { r with path := some (bs ++ [0]) }
  have hnewPath : Follows C place n 2 (2 + 2 ^ 16) (readNewPath C content)
      (Treplay.readNewPath .unbounded content) :=
    hC.counted 16 _ Record.newPathLength fun bs r => { r with newPath := some (bs ++ [0]) }
  have hdata : Follows C place n 8 (8 + 2 ^ 64) (readData C content)
      (Treplay.readData .unbounded content) :=
    hC.counted 64 _ Record.dataLength fun bs r => { r with data := some (bs ++ [0]) }
  cases ty with
  | checkReaddir => exact hpath.mono (by omega) (by omega)
  | checkOpen =>
    exact (hpath.seq ((hC.readWord 32 _).seq (hC.readWord 32 _))).mono (by omega) (by omega)
  | checkRead => exact hdata.mono (by omega) (by omega)
  | checkWrite => exact hdata.mono (by omega) (by omega)
  | checkClose =>
    refine ⟨fun r i _ => rfl, fun r i r' j h => ?_⟩
    cases h
    omega
  | checkMkdir => exact (hpath.seq (hC.readWord 32 _)).mono (by omega) (by omega)
  | checkUnlink => exact hpath.mono (by omega) (by omega)
  | checkLink => exact (hpath.seq hnewPath).mono (by omega) (by omega)
  | checkRename => exact (hpath.seq hnewPath).mono (by omega) (by omega)
  | checkRmdir => exact hpath.mono (by omega) (by omega)

theorem Cursor.Counts.readRecord (r : Record) {i : Nat} (hi : i + 2 ^ 17 ≤ n) :
    readRecord C content r (place i) =
      (Treplay.readRecord .unbounded content r i).map fun out => (out.1, place out.2) := by
  have hfields : Follows C place n (2 ^ 17 - 17) (8 + 2 ^ 64)
      (fun r => (LogType.ofByte r.type).elim (pure r) (Treplay.readFields C content r))
      (fun r => (LogType.ofByte r.type).elim (pure r)
        (Treplay.readFields .unbounded content r)) := by
    constructor
    · intro r i hi
      cases LogType.ofByte r.type with
      | some ty => exact (hC.readFields ty).eq r i hi
      | none => rfl
    · intro r i r' j h
      cases hty : LogType.ofByte r.type with
      | some ty =>
        rw [hty] at h
        exact (hC.readFields ty).le r i r' j h
      | none =>
        rw [hty] at h
        cases h
        omega
  rw [readRecord_eq_elim, readRecord_eq_elim]
  exact (hC.readCommon.seq hfields).eq r i (by omega)

end TraceFS.Treplay
