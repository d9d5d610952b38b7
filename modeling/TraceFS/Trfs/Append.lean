import TraceFS.Trfs.Log

namespace TraceFS.Trfs

open TraceFS.Lib TraceFS.Linux

variable {P : PageSize}

def TraceInfo.InBounds (t : TraceInfo P) : Prop := t.bufferOffset.toNat < P.capacity

structure TraceInfo.Appends (t t' : TraceInfo P) (bs : List Byte) : Prop where
  filp : t'.filp = t.filp
  bitmap : t'.bitmap = t.bitmap
  pending : t'.pending = t.pending ++ bs
  offset : t'.bufferOffset.toNat = t.bufferOffset.toNat + bs.length

theorem TraceInfo.Appends.refl (t : TraceInfo P) : t.Appends t [] :=
  ⟨rfl, rfl, by simp, by simp⟩

theorem TraceInfo.Appends.trans {t t' t'' : TraceInfo P} {bs bs' : List Byte}
    (h : t.Appends t' bs) (h' : t'.Appends t'' bs') : t.Appends t'' (bs ++ bs') where
  filp := h'.filp.trans h.filp
  bitmap := h'.bitmap.trans h.bitmap
  pending := by rw [h'.pending, h.pending, List.append_assoc]
  offset := by rw [h'.offset, h.offset, List.length_append, Nat.add_assoc]

theorem TraceInfo.Appends.stream {t t' : TraceInfo P} {bs : List Byte} (h : t.Appends t' bs) :
    t'.stream = t.stream ++ bs := by
  rw [TraceInfo.stream, h.filp, h.pending, TraceInfo.stream, List.append_assoc]

@[simp] theorem Copy.word_len {w : Nat} (x : BitVec w) : (Copy.word x).len = w / 8 := rfl

@[simp] theorem Copy.word_bytes {w : Nat} (x : BitVec w) : (Copy.word x).bytes = le x := by
  simp [Copy.word, Copy.bytes, pointee, sizeof, List.take_of_length_le]

@[simp] theorem Copy.mk_bytes (p : Option (List Byte)) (n : Nat) :
    (⟨p, n⟩ : Copy).bytes = pointee p n := rfl

theorem Copy.word_readable {w : Nat} (x : BitVec w) : (Copy.word x).Readable := by
  simp [Copy.word, Copy.Readable, sizeof]

theorem Copy.Readable.length {c : Copy} (h : c.Readable) : c.bytes.length = c.len := by
  rw [Copy.bytes, pointee, List.length_take]
  exact Nat.min_eq_left h

def copyLength (cs : List Copy) : Nat := (cs.map Copy.len).sum

def copyBytes (cs : List Copy) : List Byte := cs.flatMap Copy.bytes

theorem copyBytes_length {cs : List Copy} (h : ∀ c ∈ cs, c.Readable) :
    (copyBytes cs).length = copyLength cs := by
  induction cs with
  | nil => rfl
  | cons c cs ih =>
    have hc := (h c List.mem_cons_self).length
    have hcs := ih fun d hd => h d (List.mem_cons_of_mem c hd)
    simp only [copyBytes, copyLength, List.flatMap_cons, List.map_cons, List.sum_cons,
      List.length_append] at hcs ⊢
    rw [hc, hcs]

theorem TraceInfo.memcpy_appends {t t' : TraceInfo P} {c : Copy} (h : t.memcpy c = .ok t') :
    c.Readable ∧ t.Appends t' c.bytes := by
  unfold TraceInfo.memcpy at h
  split at h
  case isFalse => cases h
  case isTrue hfit =>
    split at h
    case isFalse => cases h
    case isTrue hsrc =>
      cases h
      have hlen := hsrc.length
      have hcap := P.capacity_le
      have hoff : (t.bufferOffset + BitVec.ofNat 32 c.len).toNat =
          t.bufferOffset.toNat + c.len := by
        rw [BitVec.toNat_add, BitVec.toNat_ofNat]
        omega
      refine ⟨hsrc, rfl, rfl, ?_, by rw [hoff, hlen]⟩
      rw [TraceInfo.pending, hoff, ← hlen, Buffer.blit_take, TraceInfo.pending]

theorem TraceInfo.memcpyAll_spec (t : TraceInfo P) (cs : List Copy)
    (hfit : t.bufferOffset.toNat + copyLength cs ≤ P.capacity) :
    (t.memcpyAll cs = .error .badSource ∧ ∃ c ∈ cs, ¬ c.Readable) ∨
      ∃ t', t.memcpyAll cs = .ok t' ∧ (∀ c ∈ cs, c.Readable) ∧ t.Appends t' (copyBytes cs) := by
  induction cs generalizing t with
  | nil => exact .inr ⟨t, rfl, by simp, .refl t⟩
  | cons c cs ih =>
    simp only [copyLength, List.map_cons, List.sum_cons] at hfit
    have hc : t.bufferOffset.toNat + c.len ≤ P.capacity := by omega
    by_cases hsrc : c.Readable
    · obtain ⟨t₁, ht₁⟩ : ∃ t₁, t.memcpy c = .ok t₁ := by simp [TraceInfo.memcpy, hc, hsrc]
      obtain ⟨-, happ⟩ := TraceInfo.memcpy_appends ht₁
      have hoff : t₁.bufferOffset.toNat + copyLength cs ≤ P.capacity := by
        rw [happ.offset, hsrc.length, copyLength]
        omega
      have hall : t.memcpyAll (c :: cs) = t₁.memcpyAll cs := by
        rw [TraceInfo.memcpyAll, ht₁]
        rfl
      rw [hall]
      rcases ih t₁ hoff with ⟨herr, d, hd, hnd⟩ | ⟨t', hok, hcs, happ'⟩
      · exact .inl ⟨herr, d, List.mem_cons_of_mem c hd, hnd⟩
      · exact .inr ⟨t', hok, List.forall_mem_cons.mpr ⟨hsrc, hcs⟩, happ.trans happ'⟩
    · refine .inl ⟨?_, c, List.mem_cons_self, hsrc⟩
      simp only [TraceInfo.memcpyAll, TraceInfo.memcpy, hc, hsrc, dite_true, dite_false]
      rfl

theorem vfsWrite_filp (t : TraceInfo P) (data : List Byte) (o : WriteOutcome) :
    (vfsWrite t data o).1.filp = t.filp ++ data.take (o.taken data.length) := by
  change pwrite t.filp t.offset _ = _
  rw [t.atEnd, pwrite_end]

@[simp] theorem flushBuffer_filp (t : TraceInfo P) (o : WriteOutcome) :
    (flushBuffer t o).1.filp = t.filp ++ t.pending.take (o.taken t.pending.length) :=
  vfsWrite_filp t t.pending o

@[simp] theorem flushBuffer_bufferOffset (t : TraceInfo P) (o : WriteOutcome) :
    (flushBuffer t o).1.bufferOffset = 0 := rfl

@[simp] theorem flushBuffer_bitmap (t : TraceInfo P) (o : WriteOutcome) :
    (flushBuffer t o).1.bitmap = t.bitmap := rfl

@[simp] theorem flushBuffer_pending (t : TraceInfo P) (o : WriteOutcome) :
    (flushBuffer t o).1.pending = [] := rfl

theorem flushBuffer_inBounds (t : TraceInfo P) (o : WriteOutcome) :
    (flushBuffer t o).1.InBounds := by
  have := P.capacity_ge
  simp only [TraceInfo.InBounds, flushBuffer_bufferOffset]
  exact Nat.lt_of_lt_of_le (by decide) this

theorem flushBuffer_stream (t : TraceInfo P) (o : WriteOutcome) :
    (flushBuffer t o).1.stream = t.filp ++ t.pending.take (o.taken t.pending.length) := by
  rw [TraceInfo.stream, flushBuffer_filp, flushBuffer_pending, List.append_nil]

theorem flushBuffer_stream_all (t : TraceInfo P) : (flushBuffer t .all).1.stream = t.stream := by
  rw [flushBuffer_stream, WriteOutcome.taken_all, List.take_length, TraceInfo.stream]

def Record.emitted (r : Record) : List Byte := copyBytes (syncCopies r 0).1

theorem syncCopies_fst (r : Record) (err : CInt) : (syncCopies r err).1 = (syncCopies r 0).1 := by
  unfold syncCopies
  split
  · rfl
  · split <;> rfl

def Record.emittedLength (r : Record) : Nat := copyLength (syncCopies r 0).1

structure Record.Fits (P : PageSize) (r : Record) : Prop where
  length_le : r.emittedLength ≤ r.recordSize.toNat
  length_lt : r.emittedLength < P.capacity
  no_wrap : r.recordSize.toNat + P.capacity ≤ 2 ^ 32

theorem TraceInfo.makeRoom_bitmap (t : TraceInfo P) (r : Record) (o : WriteOutcome) :
    (t.makeRoom r o).1.bitmap = t.bitmap := by
  unfold TraceInfo.makeRoom
  split <;> rfl

theorem TraceInfo.makeRoom_room {t : TraceInfo P} {r : Record} (h : t.InBounds)
    (hr : r.Fits P) (o : WriteOutcome) :
    (t.makeRoom r o).1.bufferOffset.toNat + r.emittedLength < P.capacity := by
  unfold TraceInfo.makeRoom
  split
  case isTrue =>
    rw [flushBuffer_bufferOffset]
    simpa using hr.length_lt
  case isFalse hfill =>
    have hle := hr.length_le
    have hwrap := hr.no_wrap
    unfold TraceInfo.InBounds at h
    rw [TraceInfo.WouldFill, BitVec.toNat_add, Nat.mod_eq_of_lt (by omega)] at hfill
    change t.bufferOffset.toNat + _ < _
    omega

theorem syncLogRecord_flush (t : TraceInfo P) (r : Record) (o : WriteOutcome)
    (hr : r.flushBufferSig = 1) : syncLogRecord t r o = .ok ((flushBuffer t o).1, 0) := by
  rw [syncLogRecord, if_pos hr]

theorem syncLogRecord_spec {t : TraceInfo P} {r : Record} (o : WriteOutcome)
    (hsig : r.flushBufferSig ≠ 1) (ht : t.InBounds) (hr : r.Fits P) :
    (syncLogRecord t r o = .error .badSource ∧ ∃ c ∈ (syncCopies r 0).1, ¬ c.Readable) ∨
      ∃ t' err, syncLogRecord t r o = .ok (t', err) ∧ (∀ c ∈ (syncCopies r 0).1, c.Readable) ∧
        (t.makeRoom r o).1.Appends t' r.emitted ∧ t'.InBounds := by
  have hroom := TraceInfo.makeRoom_room ht hr o
  obtain ⟨err, heq⟩ : ∃ err, syncLogRecord t r o =
      ((t.makeRoom r o).1.memcpyAll (syncCopies r 0).1).map fun t => (t, err) := by
    refine ⟨(syncCopies r (t.makeRoom r o).2).2, ?_⟩
    rw [syncLogRecord, if_neg hsig]
    simp only [syncCopies_fst r (t.makeRoom r o).2]
  rw [heq]
  rcases (t.makeRoom r o).1.memcpyAll_spec (syncCopies r 0).1 (Nat.le_of_lt hroom) with
    ⟨herr, hbad⟩ | ⟨t', hok, hread, happ⟩
  · exact .inl ⟨by rw [herr]; rfl, hbad⟩
  · refine .inr ⟨t', err, by rw [hok]; rfl, hread, happ, ?_⟩
    rw [TraceInfo.InBounds, happ.offset, copyBytes_length hread]
    exact hroom

end TraceFS.Trfs
