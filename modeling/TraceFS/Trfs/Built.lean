import TraceFS.Trfs.Append

namespace TraceFS.Trfs

open TraceFS.Lib TraceFS.Linux

def LogType.HasPath : LogType → Prop
  | .read | .write | .close => False
  | _ => True

def LogType.HasNewPath : LogType → Prop
  | .link | .rename => True
  | _ => False

def LogType.HasData : LogType → Prop
  | .read | .write => True
  | _ => False

def Record.sizeAs (r : Record) : LogType → Nat
  | .readdir | .unlink | .rmdir =>
    sizeof r.id + sizeof r.type + sizeof r.returnValue + sizeof r.fileAddress +
      sizeof r.pathLength + r.pathLength.toNat
  | .open_ =>
    sizeof r.id + sizeof r.type + sizeof r.returnValue + sizeof r.fileAddress +
      sizeof r.openFlags + sizeof r.permMode + sizeof r.pathLength + r.pathLength.toNat
  | .read | .write =>
    sizeof r.id + sizeof r.type + sizeof r.returnValue + sizeof r.fileAddress +
      sizeof r.dataLength + r.dataLength.toNat
  | .close => sizeof r.id + sizeof r.type + sizeof r.returnValue + sizeof r.fileAddress
  | .mkdir =>
    sizeof r.id + sizeof r.type + sizeof r.returnValue + sizeof r.fileAddress +
      sizeof r.pathLength + r.pathLength.toNat + sizeof r.permMode
  | .link | .rename =>
    sizeof r.id + sizeof r.type + sizeof r.returnValue + sizeof r.fileAddress +
      sizeof r.pathLength + r.pathLength.toNat + sizeof r.newPathLength + r.newPathLength.toNat

def PathAt (p : Option (List Byte)) (length : BitVec 16) : Prop :=
  ∃ bs, p = some bs ∧ bs.length = length.toNat

theorem PathAt.readable {p : Option (List Byte)} {length : BitVec 16} (h : PathAt p length) :
    Copy.Readable ⟨p, length.toNat⟩ := by
  obtain ⟨bs, rfl, hbs⟩ := h
  exact Nat.le_of_eq hbs.symm

/-- The sizes of a record that the operation of type `ty` hands to logging, whatever became of
its allocations: `record_size` is the operation's sum, paths come out of the 1024-byte `tmp`,
data has a non-negative `int` length, and a read or write that would fill the buffer by itself
has `log_rw_large` set. -/
structure Record.Sized (P : PageSize) (ty : LogType) (r : Record) : Prop where
  type_eq : r.type = ty.toByte
  size_eq : r.recordSize = BitVec.ofNat 32 (r.sizeAs ty)
  path_lt : ty.HasPath → r.pathLength.toNat < 1024
  newPath_lt : ty.HasNewPath → r.newPathLength.toNat < 1024
  data_lt : ty.HasData → r.dataLength.toNat < 2 ^ 31
  large : ty.HasData → (r.logRwLarge = 1 ↔ P.capacity ≤ r.recordSize.toNat)

/-- A record of type `ty` with the memory it points to; `buf` is the user's buffer of a read or
write, of which a small record holds a copy. -/
structure Record.Built (P : PageSize) (ty : LogType) (r : Record) (buf : List Byte) : Prop
    extends Record.Sized P ty r where
  clear : r.flushBufferSig ≠ 1
  path_at : ty.HasPath → PathAt r.path r.pathLength
  newPath_at : ty.HasNewPath → PathAt r.newPath r.newPathLength
  buf_length : ty.HasData → buf.length = r.dataLength.toNat
  data_eq : ty.HasData → r.logRwLarge ≠ 1 → r.data = some buf

theorem Record.headerOnly_iff {r : Record} (h : r.type = LogType.toByte ty) :
    r.HeaderOnly ↔ ty.HasData ∧ r.logRwLarge = 1 := by
  unfold Record.HeaderOnly
  rw [h]
  cases ty <;> simp [LogType.HasData, LogType.toByte]

theorem Record.enc_eq {r : Record} (h : r.type = LogType.toByte ty) :
    r.enc = r.encCommon ++ r.encFields ty := by
  rw [Record.enc, Record.enc?, h, LogType.ofByte_toByte, Option.map_some, Option.getD_some]

theorem Record.enc?_eq {r : Record} (h : r.type = LogType.toByte ty) : r.enc? = some r.enc := by
  rw [Record.enc_eq h, Record.enc?, h, LogType.ofByte_toByte, Option.map_some]

theorem copyBytes_common (r : Record) : copyBytes (logRecordCommon r) = r.encCommon := by
  simp [copyBytes, logRecordCommon, Record.encCommon]

theorem copyBytes_switch (r : Record) (ty : LogType) :
    copyBytes (switchCopies r ty) = r.encFields ty := by
  cases ty <;> simp [copyBytes, switchCopies, Record.encFields]

theorem copyBytes_append (cs ds : List Copy) :
    copyBytes (cs ++ ds) = copyBytes cs ++ copyBytes ds := List.flatMap_append

theorem copyLength_append (cs ds : List Copy) :
    copyLength (cs ++ ds) = copyLength cs + copyLength ds := by
  rw [copyLength, List.map_append, List.sum_append]
  rfl

@[simp] theorem copyLength_common (r : Record) : copyLength (logRecordCommon r) = 17 := by
  simp [copyLength, logRecordCommon]

theorem syncCopies_headerOnly {r : Record} (h : r.HeaderOnly) (err : CInt) :
    (syncCopies r err).1 = logRecordCommon r ++ [.word r.dataLength] := by
  rw [syncCopies, if_pos h]

theorem syncCopies_known {r : Record} (h : ¬ r.HeaderOnly) (hty : r.type = LogType.toByte ty)
    (err : CInt) : (syncCopies r err).1 = logRecordCommon r ++ switchCopies r ty := by
  rw [syncCopies, if_neg h, hty, LogType.ofByte_toByte]

theorem Record.emitted_whole {r : Record} (h : ¬ r.HeaderOnly) (hty : r.type = LogType.toByte ty) :
    r.emitted = r.enc := by
  rw [Record.emitted, syncCopies_known h hty, copyBytes_append, copyBytes_common,
    copyBytes_switch, Record.enc_eq hty]

theorem Record.emitted_header {r : Record} (h : r.HeaderOnly) :
    r.emitted = r.encCommon ++ le r.dataLength := by
  rw [Record.emitted, syncCopies_headerOnly h, copyBytes_append, copyBytes_common]
  simp [copyBytes]

def Record.withData (r : Record) (buf : List Byte) : Record := { r with data := some buf }

theorem Record.withData_enc {r : Record} {buf : List Byte} (hty : r.type = LogType.toByte ty)
    (hd : ty.HasData) (hlen : buf.length = r.dataLength.toNat) :
    (r.withData buf).enc = r.encCommon ++ le r.dataLength ++ buf := by
  have henc : (r.withData buf).enc = (r.withData buf).encCommon ++ (r.withData buf).encFields ty :=
    Record.enc_eq hty
  rw [henc]
  cases ty <;> simp only [LogType.HasData] at hd <;>
    simp [Record.withData, Record.encCommon, Record.encFields, pointee, ← hlen]

theorem Record.emittedLength_headerOnly {r : Record} (h : r.HeaderOnly) :
    r.emittedLength = 25 := by
  rw [Record.emittedLength, syncCopies_headerOnly h, copyLength_append, copyLength_common]
  rfl

theorem Record.emittedLength_whole {r : Record} (h : ¬ r.HeaderOnly)
    (hty : r.type = LogType.toByte ty) : r.emittedLength = r.sizeAs ty := by
  rw [Record.emittedLength, syncCopies_known h hty, copyLength_append, copyLength_common]
  cases ty <;> simp [copyLength, switchCopies, Record.sizeAs, sizeof] <;> omega

namespace Record.Sized

variable {P : PageSize} {r : Record}

theorem sizeAs_lt (h : r.Sized P ty) : r.sizeAs ty ≤ 2 ^ 31 + 24 := by
  have hpath := h.path_lt
  have hnew := h.newPath_lt
  have hdata := h.data_lt
  cases ty <;> simp_all [Record.sizeAs, sizeof, LogType.HasPath, LogType.HasNewPath,
    LogType.HasData] <;> omega

theorem recordSize_toNat (h : r.Sized P ty) : r.recordSize.toNat = r.sizeAs ty := by
  have := h.sizeAs_lt
  rw [h.size_eq, BitVec.toNat_ofNat]
  exact Nat.mod_eq_of_lt (by omega)

theorem sizeAs_lt_capacity (h : r.Sized P ty) (hsmall : ¬ r.HeaderOnly) :
    r.sizeAs ty < P.capacity := by
  have hcap := P.capacity_ge
  by_cases hd : ty.HasData
  · have hlarge : ¬ P.capacity ≤ r.recordSize.toNat := by
      rw [← h.large hd]
      intro hl
      exact hsmall ((Record.headerOnly_iff h.type_eq).mpr ⟨hd, hl⟩)
    rw [h.recordSize_toNat] at hlarge
    omega
  · have hpath := h.path_lt
    have hnew := h.newPath_lt
    cases ty <;> simp_all [Record.sizeAs, sizeof, LogType.HasPath, LogType.HasNewPath,
      LogType.HasData] <;> omega

theorem fits (h : r.Sized P ty) : r.Fits P := by
  have hcap := P.capacity_ge
  have hcap' := P.capacity_le
  have hsize := h.recordSize_toNat
  have hlt := h.sizeAs_lt
  by_cases hh : r.HeaderOnly
  · have hlarge := (h.large ((Record.headerOnly_iff h.type_eq).mp hh).1).mp hh.2
    have hlen := Record.emittedLength_headerOnly hh
    constructor <;> omega
  · have hfit := h.sizeAs_lt_capacity hh
    have hlen := Record.emittedLength_whole hh h.type_eq
    constructor <;> omega

theorem withId (h : r.Sized P ty) (i : BitVec 32) : (r.withId i).Sized P ty where
  type_eq := h.type_eq
  size_eq := by
    change r.recordSize = _
    rw [h.size_eq]
    cases ty <;> rfl
  path_lt := h.path_lt
  newPath_lt := h.newPath_lt
  data_lt := h.data_lt
  large := h.large

end Record.Sized

namespace Record.Built

variable {P : PageSize} {r : Record} {buf : List Byte}

theorem withId (h : r.Built P ty buf) (i : BitVec 32) :
    (r.withId i).Built P ty buf where
  toSized := h.toSized.withId i
  clear := h.clear
  path_at := h.path_at
  newPath_at := h.newPath_at
  buf_length := h.buf_length
  data_eq := h.data_eq

theorem readable (h : r.Built P ty buf) : ∀ c ∈ (syncCopies r 0).1, c.Readable := by
  by_cases hh : r.HeaderOnly
  · rw [syncCopies_headerOnly hh]
    simp [logRecordCommon, Copy.word_readable]
  · rw [syncCopies_known hh h.type_eq]
    have hpath : ty.HasPath → Copy.Readable ⟨r.path, r.pathLength.toNat⟩ := fun hp =>
      (h.path_at hp).readable
    have hnew : ty.HasNewPath → Copy.Readable ⟨r.newPath, r.newPathLength.toNat⟩ := fun hp =>
      (h.newPath_at hp).readable
    have hdata : ty.HasData → Copy.Readable ⟨r.data, r.dataLength.toNat⟩ := fun hd => by
      rw [h.data_eq hd fun hl => hh ((Record.headerOnly_iff h.type_eq).mpr ⟨hd, hl⟩),
        ← h.buf_length hd]
      exact Nat.le_refl _
    cases ty <;> simp_all [logRecordCommon, switchCopies, Copy.word_readable, LogType.HasPath,
      LogType.HasNewPath, LogType.HasData]

end Record.Built

end TraceFS.Trfs
