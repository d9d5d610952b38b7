import TraceFS.Lib.Codec
import TraceFS.Trfs.Stream

namespace TraceFS.Trfs

open TraceFS.Lib TraceFS.Linux

abbrev Counted (w : Nat) : Type := Σ n : BitVec w, {bs : List Byte // bs.length = n.toNat}

def counted (w : Nat) (hw : 8 ∣ w) : Codec (Counted w) :=
  (Codec.word w hw).sigma fun n => Codec.raw n.toNat

abbrev Header : Type := BitVec 32 × Byte × BitVec 32 × BitVec 64

def header : Codec Header :=
  (Codec.word 32 (by decide)).prod ((Codec.word 8 (by decide)).prod
    ((Codec.word 32 (by decide)).prod (Codec.word 64 (by decide))))

def Payload : Option LogType → Type
  | some .readdir | some .unlink | some .rmdir => Counted 16
  | some .open_ => Counted 16 × BitVec 32 × BitVec 32
  | some .read | some .write => Counted 64
  | some .close | none => PUnit
  | some .mkdir => Counted 16 × BitVec 32
  | some .link | some .rename => Counted 16 × Counted 16

def payload : (ty : Option LogType) → Codec (Payload ty)
  | some .readdir | some .unlink | some .rmdir => counted 16 (by decide)
  | some .open_ =>
    (counted 16 (by decide)).prod ((Codec.word 32 (by decide)).prod (Codec.word 32 (by decide)))
  | some .read | some .write => counted 64 (by decide)
  | some .close | none => Codec.unit
  | some .mkdir => (counted 16 (by decide)).prod (Codec.word 32 (by decide))
  | some .link | some .rename => (counted 16 (by decide)).prod (counted 16 (by decide))

abbrev Entry : Type := Σ h : Header, Payload (LogType.ofByte h.2.1)

def entry : Codec Entry := header.sigma fun h => payload (LogType.ofByte h.2.1)

theorem entry_enc (e : Entry) :
    entry.enc e = header.enc e.1 ++ (payload (LogType.ofByte e.1.2.1)).enc e.2 := rfl

theorem header_enc_length (h : Header) : (header.enc h).length = 17 := by
  simp [header]

structure Record.Carries (ty : LogType) (r : Record) (buf : List Byte) : Prop where
  type_eq : r.type = ty.toByte
  path_at : ty.HasPath → PathAt r.path r.pathLength
  newPath_at : ty.HasNewPath → PathAt r.newPath r.newPathLength
  buf_length : ty.HasData → buf.length = r.dataLength.toNat
  data_eq : ty.HasData → r.logRwLarge ≠ 1 → r.data = some buf

/-- What reaches the trace for a record: the bytes that `sync_log_record` emits, and after the
header of a large read or write its data. -/
def Record.written (r : Record) (buf : List Byte) : List Byte :=
  if r.HeaderOnly then r.emitted ++ buf else r.emitted

/-- What `sync_log_record` and the large path put into the trace for a record: nothing for one
that is taken for a request to flush. -/
def Record.traced (r : Record) (buf : List Byte) : Option (List Byte) :=
  if r.flushBufferSig = 1 then none else some (r.written buf)

theorem syncLogRecord_traced {P : PageSize} {t t' : TraceInfo P} {r : Record} {err : CInt}
    (buf : List Byte) (ht : t.InBounds) (hr : r.Fits P) (hh : ¬ r.HeaderOnly)
    (h : syncLogRecord t r .all = .ok (t', err)) :
    t'.stream = t.stream ++ (r.traced buf).getD [] := by
  by_cases hsig : r.flushBufferSig = 1
  · rw [syncLogRecord_flush _ _ _ hsig] at h
    cases h
    rw [flushBuffer_stream_all, Record.traced, if_pos hsig]
    exact (List.append_nil _).symm
  · rcases syncLogRecord_spec .all hsig ht hr with ⟨herr, -⟩ | ⟨t₁, err₁, hok, -, happ, -⟩
    · cases herr.symm.trans h
    · cases hok.symm.trans h
      rw [happ.stream, TraceInfo.makeRoom_stream_all, Record.traced, if_neg hsig, Record.written,
        if_neg hh]
      rfl

theorem writeLarge_traced {P : PageSize} {sb : SbInfo P} {t : TraceInfo P} {r : Record}
    {err : CInt} {buf : List Byte} (ht : sb.trInfo.InBounds) (hr : r.Fits P) (hh : r.HeaderOnly)
    (hsig : r.flushBufferSig ≠ 1) (hlen : buf.length = r.dataLength.toNat)
    (h : syncLogRecord sb.trInfo r .all = .ok (t, err)) :
    (writeLarge { sb with trInfo := t } buf r.dataLength .all .all).trInfo.stream =
      sb.trInfo.stream ++ (r.traced buf).getD [] := by
  rcases syncLogRecord_spec .all hsig ht hr with ⟨herr, -⟩ | ⟨t₁, err₁, hok, -, happ, -⟩
  · cases herr.symm.trans h
  · cases hok.symm.trans h
    rw [writeLarge_stream _ hlen, Record.traced, if_neg hsig, Record.written, if_pos hh]
    have hstream : t.filp ++ t.pending = sb.trInfo.stream ++ r.emitted := by
      rw [← TraceInfo.makeRoom_stream_all sb.trInfo r]
      exact happ.stream
    simp only [WriteOutcome.taken, List.take_length]
    rw [hstream, List.append_assoc]
    rfl

theorem Record.Carries.written_fields {r : Record} (h : r.Carries ty buf) (hd : ¬ ty.HasData) :
    r.written buf = r.encCommon ++ r.encFields ty := by
  have hh : ¬ r.HeaderOnly := fun hh => hd ((Record.headerOnly_iff h.type_eq).mp hh).1
  rw [Record.written, if_neg hh, Record.emitted_whole hh h.type_eq, Record.enc_eq h.type_eq]

theorem Record.Carries.written_data {r : Record} (h : r.Carries ty buf) (hd : ty.HasData) :
    r.written buf = r.encCommon ++ (le r.dataLength ++ buf) := by
  by_cases hh : r.HeaderOnly
  · rw [Record.written, if_pos hh, Record.emitted_header hh, List.append_assoc]
  · have hdata : r.data = some buf :=
      h.data_eq hd fun hl => hh ((Record.headerOnly_iff h.type_eq).mpr ⟨hd, hl⟩)
    have hfields : r.encFields ty = le r.dataLength ++ buf := by
      cases ty <;> simp only [LogType.HasData] at hd <;>
        simp [Record.encFields, hdata, pointee, ← h.buf_length trivial]
    rw [Record.written, if_neg hh, Record.emitted_whole hh h.type_eq, Record.enc_eq h.type_eq,
      hfields]

end TraceFS.Trfs
