import TraceFS.Trfs.Stream
import TraceFS.Trfs.Submits

universe u

namespace TraceFS.Trfs

open TraceFS.Lib TraceFS.Linux TraceFS.Wrapfs

variable {σ : Type u} {K : Kernel σ} {T : Tracing} {P : PageSize}

theorem TmpPath.strlen_toNat (p : TmpPath) : p.strlen.toNat = p.chars.length := by
  have := p.fits
  rw [TmpPath.strlen, BitVec.toNat_ofNat]
  omega

theorem TmpPath.strlen_lt (p : TmpPath) : p.strlen.toNat < 1024 := by
  rw [p.strlen_toNat]
  exact p.fits

theorem TmpPath.pathAt (p : TmpPath) : PathAt (some p.chars) p.strlen :=
  ⟨p.chars, rfl, p.strlen_toNat.symm⟩

theorem dataLength_lt {err : CInt} (herr : 0 ≤ err.toInt) : (err.signExtend 64).toNat < 2 ^ 31 := by
  have hmsb : err.msb = false := by
    rw [BitVec.msb_eq_toInt]
    simpa using herr
  have hlt : 2 * err.toNat < 2 ^ 32 := BitVec.msb_eq_false_iff_two_mul_lt.mp hmsb
  rw [BitVec.toNat_signExtend, hmsb, BitVec.toNat_setWidth]
  simp only [Bool.false_eq_true, if_false]
  omega

def Record.unflushed (r : Record) : Record := { r with flushBufferSig := 0 }

theorem Record.Sized.unflushed {r : Record} (h : r.Sized P ty) : r.unflushed.Sized P ty where
  type_eq := h.type_eq
  size_eq := by
    change r.recordSize = _
    rw [h.size_eq]
    cases ty <;> rfl
  path_lt := h.path_lt
  newPath_lt := h.newPath_lt
  data_lt := h.data_lt
  large := h.large

/-- What holds of a record handed over: its sizes, a clear `flush_buffer_sig` unless `trfs_link`
left it to what `kmalloc` finds, and the memory it points to if there was any for its path. -/
structure Submission.Sound (P : PageSize) (T : Tracing) (ty : LogType) (sub : Submission) :
    Prop where
  sized : sub.record.Sized P ty
  clear : ty ≠ .link → sub.record.flushBufferSig ≠ 1
  bufLength : ty.HasData → sub.buf.length = sub.record.dataLength.toNat
  built : (ty = .open_ → T.pathAlloc = true) → sub.record.unflushed.Built P ty sub.buf

theorem zero_clear : Record.zero.flushBufferSig ≠ 1 := by decide

theorem Submission.Sound.ofPaths {r : Record} (hd : ¬ ty.HasData) (hsized : r.Sized P ty)
    (hclear : ty ≠ .link → r.flushBufferSig ≠ 1)
    (hpath : (ty = .open_ → T.pathAlloc = true) → ty.HasPath → PathAt r.path r.pathLength)
    (hnew : ty.HasNewPath → PathAt r.newPath r.newPathLength) :
    (⟨r, []⟩ : Submission).Sound P T ty where
  sized := hsized
  clear := hclear
  bufLength h := absurd h hd
  built hT :=
    { hsized.unflushed with
      clear := show (0 : Byte) ≠ 1 by decide
      path_at := hpath hT
      newPath_at := hnew
      buf_length := fun h => absurd h hd
      data_eq := fun h => absurd h hd }

theorem sized_of_path {r : Record} (hty : r.type = ty.toByte)
    (hsize : r.recordSize = BitVec.ofNat 32 (r.sizeAs ty)) (hd : ¬ ty.HasData)
    (hpath : r.pathLength.toNat < 1024) (hnew : ty.HasNewPath → r.newPathLength.toNat < 1024) :
    r.Sized P ty where
  type_eq := hty
  size_eq := hsize
  path_lt _ := hpath
  newPath_lt := hnew
  data_lt h := absurd h hd
  large h := absurd h hd

theorem readdirRecord_sound (file : Ptr) (err : CInt) (p : TmpPath) :
    (⟨readdirRecord file err p, []⟩ : Submission).Sound P T .readdir :=
  .ofPaths not_false (sized_of_path rfl rfl not_false p.strlen_lt False.elim)
    (fun _ => zero_clear)
    (fun _ _ => p.pathAt) False.elim

theorem openRecord_sound (file : Ptr) (err : CInt) (p : TmpPath) (path : Option (List Byte))
    (s : σ) (hpath : T.pathAlloc = true → path = some p.chars) :
    (⟨openRecord K file err p path s, []⟩ : Submission).Sound P T .open_ :=
  .ofPaths not_false (sized_of_path rfl rfl not_false p.strlen_lt False.elim)
    (fun _ => zero_clear)
    (fun hT _ => hpath (hT rfl) ▸ p.pathAt) False.elim

theorem closeRecord_sound (file : Ptr) (err : CInt) (s : σ) :
    (⟨closeRecord K file err s, []⟩ : Submission).Sound P T .close :=
  .ofPaths not_false
    (sized_of_path rfl rfl not_false (show (0 : BitVec 16).toNat < 1024 by decide) False.elim)
    (fun _ => zero_clear)
    (fun _ => False.elim) False.elim

theorem mkdirRecord_sound (dir : Ptr) (mode : BitVec 16) (err : CInt) (s : σ) (p : TmpPath) :
    (⟨mkdirRecord K dir mode err s p, []⟩ : Submission).Sound P T .mkdir :=
  .ofPaths not_false (sized_of_path rfl rfl not_false p.strlen_lt False.elim)
    (fun _ => zero_clear)
    (fun _ _ => p.pathAt) False.elim

theorem unlinkRecord_sound (dir : Ptr) (err : CInt) (s : σ) (p : TmpPath) :
    (⟨unlinkRecord K dir err s p, []⟩ : Submission).Sound P T .unlink :=
  .ofPaths not_false (sized_of_path rfl rfl not_false p.strlen_lt False.elim)
    (fun _ => zero_clear)
    (fun _ _ => p.pathAt) False.elim

theorem rmdirRecord_sound (dir : Ptr) (err : CInt) (s : σ) (p : TmpPath) :
    (⟨rmdirRecord K dir err s p, []⟩ : Submission).Sound P T .rmdir :=
  .ofPaths not_false (sized_of_path rfl rfl not_false p.strlen_lt False.elim)
    (fun _ => zero_clear)
    (fun _ _ => p.pathAt) False.elim

theorem linkRecord_sound (dir : Ptr) (err : CInt) (s : σ) (p q : TmpPath) :
    (⟨linkRecord K T dir err s p q, []⟩ : Submission).Sound P T .link :=
  .ofPaths not_false (sized_of_path rfl rfl not_false p.strlen_lt fun _ => q.strlen_lt)
    (fun hne => absurd rfl hne)
    (fun _ _ => p.pathAt) fun _ => q.pathAt

theorem renameRecord_sound (oldDir : Ptr) (err : CInt) (s : σ) (p q : TmpPath) :
    (⟨renameRecord K oldDir err s p q, []⟩ : Submission).Sound P T .rename :=
  .ofPaths not_false (sized_of_path rfl rfl not_false p.strlen_lt fun _ => q.strlen_lt)
    (fun _ => zero_clear)
    (fun _ _ => p.pathAt) fun _ => q.pathAt

structure Record.Transfer (ty : LogType) (r : Record) : Prop where
  type_eq : r.type = ty.toByte
  hasData : ty.HasData
  size_eq : r.recordSize = BitVec.ofNat 32 (r.sizeAs ty)
  data_lt : r.dataLength.toNat < 2 ^ 31
  whole : r.logRwLarge = 0
  clear : r.flushBufferSig = 0

theorem Record.Transfer.sized {r r' : Record} (h : r.Transfer ty) (hty : r'.type = r.type)
    (hsize : r'.recordSize = r.recordSize) (hlen : r'.dataLength = r.dataLength)
    (hlarge : r'.logRwLarge = 1 ↔ P.capacity ≤ r.recordSize.toNat) : r'.Sized P ty where
  type_eq := hty.trans h.type_eq
  size_eq := by
    have hsum : r'.sizeAs ty = r.sizeAs ty := by
      have hd := h.hasData
      cases ty <;> simp_all [Record.sizeAs, LogType.HasData, sizeof]
    rw [hsize, h.size_eq, hsum]
  path_lt hp := by
    have hd := h.hasData
    cases ty <;> simp_all [LogType.HasData, LogType.HasPath]
  newPath_lt hp := by
    have hd := h.hasData
    cases ty <;> simp_all [LogType.HasData, LogType.HasNewPath]
  data_lt _ := hlen ▸ h.data_lt
  large _ := by rw [hlarge, hsize]

theorem Record.Transfer.sound {r : Record} (h : r.Transfer ty) {buf : Ptr} {sub : Submission}
    (hsub : sub ∈ T.transferred P r buf) : sub.Sound P T ty := by
  have hpath : ¬ ty.HasPath := by
    have hd := h.hasData
    cases ty <;> simp_all [LogType.HasData, LogType.HasPath]
  have hnew : ¬ ty.HasNewPath := by
    have hd := h.hasData
    cases ty <;> simp_all [LogType.HasData, LogType.HasNewPath]
  have hlen := (T.user buf r.dataLength.toNat).property
  have hclear : r.flushBufferSig ≠ 1 := by
    rw [h.clear]
    decide
  unfold Tracing.transferred at hsub
  split at hsub
  case isTrue hlarge =>
    split at hsub
    case isTrue =>
      obtain rfl := List.mem_singleton.mp hsub
      have hsized : ({ r with logRwLarge := 1 } : Record).Sized P ty :=
        h.sized rfl rfl rfl (iff_of_true rfl hlarge)
      exact
        { sized := hsized
          clear := fun _ => hclear
          bufLength := fun _ => hlen
          built := fun _ =>
            { hsized.unflushed with
              clear := show (0 : Byte) ≠ 1 by decide
              path_at := fun hp => absurd hp hpath
              newPath_at := fun hp => absurd hp hnew
              buf_length := fun _ => hlen
              data_eq := fun _ hl => absurd rfl hl } }
    case isFalse => cases hsub
  case isFalse hsmall =>
    unfold Tracing.queued at hsub
    split at hsub
    case isTrue =>
      obtain rfl := List.mem_singleton.mp hsub
      have hzero : r.logRwLarge ≠ 1 := by
        rw [h.whole]
        decide
      have hsized : ({ r with data := some (T.user buf r.dataLength.toNat).val } : Record).Sized
          P ty := h.sized rfl rfl rfl (iff_of_false hzero hsmall)
      exact
        { sized := hsized
          clear := fun _ => hclear
          bufLength := fun _ => hlen
          built := fun _ =>
            { hsized.unflushed with
              clear := show (0 : Byte) ≠ 1 by decide
              path_at := fun hp => absurd hp hpath
              newPath_at := fun hp => absurd hp hnew
              buf_length := fun _ => hlen
              data_eq := fun _ _ => rfl } }
    case isFalse => cases hsub

theorem readRecord_transfer (file : Ptr) {err : CInt} (s : σ) (herr : 0 ≤ err.toInt) :
    (readRecord K file err s).Transfer .read :=
  ⟨rfl, trivial, rfl, dataLength_lt herr, rfl, rfl⟩

theorem writeRecord_transfer (file : Ptr) {err : CInt} (s : σ) (herr : 0 ≤ err.toInt) :
    (writeRecord K file err s).Transfer .write :=
  ⟨rfl, trivial, rfl, dataLength_lt herr, rfl, rfl⟩

theorem Call.submitted_sound {c : Call} {s : σ} {e : Exit σ} (he : c.trfs K T P s = .ok e) :
    ∀ sub ∈ e.submitted, sub.Sound P T c.logType := by
  intro sub hsub
  have h := c.submits he hsub
  cases c with
  | readdir file ctx =>
    obtain ⟨p, -, rfl⟩ := h
    exact readdirRecord_sound file _ p
  | open_ inode file =>
    obtain ⟨p, path, -, hpath, rfl⟩ := h
    refine openRecord_sound file _ p path _ fun hT => ?_
    simpa [hT] using hpath
  | read file buf count ppos => exact (readRecord_transfer file _ h.1).sound h.2
  | write file buf count ppos => exact (writeRecord_transfer file _ h.1).sound h.2
  | close file owner =>
    cases show sub = _ from h
    exact closeRecord_sound file _ _
  | mkdir dir dentry mode =>
    obtain ⟨err, s', p, -, rfl⟩ := h
    exact mkdirRecord_sound dir mode err s' p
  | unlink dir dentry =>
    obtain ⟨err, s', p, -, rfl⟩ := h
    exact unlinkRecord_sound dir err s' p
  | link oldDentry dir newDentry =>
    obtain ⟨err, s', p, q, -, -, rfl⟩ := h
    exact linkRecord_sound dir err s' p q
  | rename oldDir oldDentry newDir newDentry =>
    obtain ⟨err, s', p, q, -, -, rfl⟩ := h
    exact renameRecord_sound oldDir err s' p q
  | rmdir dir dentry =>
    obtain ⟨err, s', p, -, rfl⟩ := h
    exact rmdirRecord_sound dir err s' p

end TraceFS.Trfs
