import TraceFS.Trfs.Bounds
import TraceFS.Treplay.Cursor
import TraceFS.Treplay.Decode
import TraceFS.Treplay.Replay

universe u

namespace TraceFS.Treplay

open TraceFS.Lib TraceFS.Linux TraceFS.Wrapfs
open TraceFS.Trfs (entry Call Creation Exit PathAt Submission TmpPath Tracing PageSize trfsCreate)

variable {σ : Type u} {K : Kernel σ} {T : Tracing} {P : PageSize}

def afterCreate (K : Kernel σ) (vfsCreate : Ptr → Ptr → BitVec 16 → Bool → σ → CInt × σ) :
    Option Creation → σ → σ
  | none, s => s
  | some c, s => (trfsCreate K vfsCreate c s).2

def fileModes (K : Kernel σ) (file : Ptr) (s : σ) : CInt × CInt := (K.fFlags s file, K.fMode s file)

/-- The calls that an open makes leave the flags and the mode of its own `struct file`. -/
structure KeepsFile (K : Kernel σ) (file : Ptr) : Prop where
  allocFileInfo : ∀ s, fileModes K file (K.allocFileInfo file s).2 = fileModes K file s
  getLowerPath : ∀ dentry s, fileModes K file (K.getLowerPath dentry s).2 = fileModes K file s
  dentryOpen : ∀ path flags s, fileModes K file (K.dentryOpen path flags s).2 = fileModes K file s
  pathPut : ∀ path s, fileModes K file (K.pathPut path s) = fileModes K file s
  setLowerFile : ∀ lower s, fileModes K file (K.setLowerFile file lower s) = fileModes K file s
  fput : ∀ lower s, fileModes K file (K.fput lower s) = fileModes K file s
  freeFileInfo : ∀ s, fileModes K file (K.freeFileInfo file s) = fileModes K file s
  copyAttrAll : ∀ dest src s, fileModes K file (K.copyAttrAll dest src s) = fileModes K file s

/-- The system call that the replay has to make for a call of the trace, from the directory
`cwd`: `ret` is what the call returned, and `created` the creation of the file that it opened. -/
inductive Reissued (K : Kernel σ) (T : Tracing) (cwd : List Byte) (map : List FileMap)
    (created : Option Creation) (s : σ) (ret : CInt) : Call → Syscall → Prop
  | open_ {inode file p mode} (path : T.dentryPathRaw (K.fileDentry file) = some p)
      (given : ∀ c ∈ created, mode = c.mode.setWidth 32) :
    Reissued K T cwd map created s ret (.open_ inode file)
      (.open_ (cstr cwd ++ p.chars) (K.fFlags s file) mode)
  | read {file buf count ppos} :
    Reissued K T cwd map created s ret (.read file buf count ppos)
      (.read (mapFind map file) (ret.signExtend 64))
  | write {file buf count ppos} :
    Reissued K T cwd map created s ret (.write file buf count ppos)
      (.write (mapFind map file) (T.user buf (ret.signExtend 64).toNat).val (ret.signExtend 64))
  | mkdir {dir dentry mode p} (path : T.dentryPathRaw dentry = some p) :
    Reissued K T cwd map created s ret (.mkdir dir dentry mode)
      (.mkdir (cstr cwd ++ p.chars) (mode.setWidth 32))
  | unlink {dir dentry p} (path : T.dentryPathRaw dentry = some p) :
    Reissued K T cwd map created s ret (.unlink dir dentry) (.unlink (cstr cwd ++ p.chars))
  | link {oldDentry dir newDentry p q} (path : T.dentryPathRaw oldDentry = some p)
      (newPath : T.dentryPathRaw newDentry = some q) :
    Reissued K T cwd map created s ret (.link oldDentry dir newDentry)
      (.link (cstr cwd ++ p.chars) (cstr cwd ++ q.chars))
  | rename {oldDir oldDentry newDir newDentry p q} (path : T.dentryPathRaw oldDentry = some p)
      (newPath : T.dentryPathRaw newDentry = some q) :
    Reissued K T cwd map created s ret (.rename oldDir oldDentry newDir newDentry)
      (.rename (cstr cwd ++ p.chars) (cstr cwd ++ q.chars))
  | rmdir {dir dentry p} (path : T.dentryPathRaw dentry = some p) :
    Reissued K T cwd map created s ret (.rmdir dir dentry) (.rmdir (cstr cwd ++ p.chars))

def IsReissued : Call → Prop
  | .readdir .. | .close .. => False
  | _ => True

def PathFits (T : Tracing) (cwd : List Byte) (dentry : Ptr) : Prop :=
  ∀ p ∈ T.dentryPathRaw dentry, (cstr cwd).length + p.chars.length < 4096

/-- The calls that are made again as they were: what was in `f_mode` when a file was created must
happen to be the mode it was created with, and what `kmalloc` found for the record of a link must
not be a request to flush. -/
def Kept (K : Kernel σ) (T : Tracing) (cwd : List Byte) (created : Option Creation) (s : σ) :
    Call → Prop
  | .open_ _ file =>
    PathFits T cwd (K.fileDentry file) ∧ ∀ c ∈ created, K.fMode s file = c.mode.setWidth 32
  | .mkdir _ dentry _ | .unlink _ dentry | .rmdir _ dentry => PathFits T cwd dentry
  | .link oldDentry _ newDentry =>
    (PathFits T cwd oldDentry ∧ PathFits T cwd newDentry) ∧ T.heap.flushBufferSig ≠ 1
  | .rename _ oldDentry _ newDentry => PathFits T cwd oldDentry ∧ PathFits T cwd newDentry
  | .readdir .. | .read .. | .write .. | .close .. => True

theorem KeepsFile.openLower {file : Ptr} (hK : KeepsFile K file) (inode : Ptr) (s : σ) :
    fileModes K file (openLower K file inode s).2 = fileModes K file s := by
  simp only [Wrapfs.openLower]
  split
  case h_1 =>
    split <;> split <;> simp only [hK.copyAttrAll, hK.freeFileInfo, hK.fput, hK.setLowerFile,
      hK.pathPut, hK.dentryOpen, hK.getLowerPath]
  case h_2 =>
    simp only [if_true, hK.copyAttrAll, hK.setLowerFile, hK.pathPut, hK.dentryOpen, hK.getLowerPath]

theorem carries_of_built {r : Trfs.Record} {buf : List Byte} (h : r.unflushed.Built P ty buf) :
    r.Carries ty buf :=
  ⟨h.type_eq, h.path_at, h.newPath_at, h.buf_length, h.data_eq⟩

theorem carries_of_submits {c : Call} {e : Exit σ} {sub : Submission}
    (h : c.Submits K T P e sub) (hret : 0 ≤ e.ret.toInt) :
    sub.record.Carries c.logType sub.buf := by
  let T' : Tracing := { T with pathAlloc := true }
  have hsound : ∀ {ty : Trfs.LogType} {sub : Submission}, sub.Sound P T' ty →
      sub.record.Carries ty sub.buf := fun hs => carries_of_built (hs.built fun _ => rfl)
  cases c with
  | readdir file ctx =>
    obtain ⟨p, -, rfl⟩ := h
    exact hsound (Trfs.readdirRecord_sound file _ p)
  | open_ inode file =>
    obtain ⟨p, path, -, hpath, rfl⟩ := h
    refine hsound (Trfs.openRecord_sound file _ p path _ fun _ => hpath.resolve_right ?_)
    rintro ⟨-, herr⟩
    rw [herr] at hret
    exact absurd hret (by decide)
  | read file buf count ppos => exact hsound ((Trfs.readRecord_transfer file _ h.1).sound h.2)
  | write file buf count ppos => exact hsound ((Trfs.writeRecord_transfer file _ h.1).sound h.2)
  | close file owner =>
    cases show sub = _ from h
    exact hsound (Trfs.closeRecord_sound file _ _)
  | mkdir dir dentry mode =>
    obtain ⟨err, s', p, -, rfl⟩ := h
    exact hsound (Trfs.mkdirRecord_sound dir mode err s' p)
  | unlink dir dentry =>
    obtain ⟨err, s', p, -, rfl⟩ := h
    exact hsound (Trfs.unlinkRecord_sound dir err s' p)
  | link oldDentry dir newDentry =>
    obtain ⟨err, s', p, q, -, -, rfl⟩ := h
    exact hsound (Trfs.linkRecord_sound dir err s' p q)
  | rename oldDir oldDentry newDir newDentry =>
    obtain ⟨err, s', p, q, -, -, rfl⟩ := h
    exact hsound (Trfs.renameRecord_sound oldDir err s' p q)
  | rmdir dir dentry =>
    obtain ⟨err, s', p, -, rfl⟩ := h
    exact hsound (Trfs.rmdirRecord_sound dir err s' p)

theorem readRecord_written {k : Trfs.Record} {buf : List Byte} (h : k.Carries ty buf)
    (pre post : List Byte) (r : Record) :
    ∃ r' j, readRecord .unbounded (pre ++ k.written buf ++ post) r pre.length = some (r', j) ∧
      Agrees ty k buf r' := by
  obtain ⟨p, hp, hagrees⟩ := carries_payload h
  have hdrop : (pre ++ k.written buf ++ post).drop pre.length =
      entry.enc (entryOf k ty p) ++ post := by
    rw [List.append_assoc, List.drop_left, entryOf_enc h.type_eq, hp]
  refine ⟨fill (entryOf k ty p) r, (pre ++ k.written buf ++ post).length - post.length, ?_, ?_⟩
  · rw [readRecord_fills r pre.length (by simp), hdrop, entry.dec_enc]
    rfl
  · rw [fill_entryOf h.type_eq]
    exact hagrees r

theorem cstr_append_nul {bs : List Byte} (h : 0 ∉ bs) : cstr (bs ++ [0]) = bs := by
  unfold cstr
  rw [List.takeWhile_append_of_pos]
  · simp
  · intro b hb
    exact decide_eq_true fun heq => h (heq ▸ hb)

theorem buildPath_chars (cwd : List Byte) (p : TmpPath) :
    buildPath cwd (some (p.chars ++ [0])) =
      if (cstr cwd).length + p.chars.length < 4096 then .ok (cstr cwd ++ p.chars)
      else .error .pathOverflow := by
  simp only [buildPath, cstr_append_nul p.noNul, List.length_append]

theorem pathFits_iff {cwd : List Byte} {dentry : Ptr} {p : TmpPath}
    (hp : T.dentryPathRaw dentry = some p) :
    PathFits T cwd dentry ↔ (cstr cwd).length + p.chars.length < 4096 := by
  simp [PathFits, hp]

theorem Agrees.ofByte_type {k : Trfs.Record} {buf : List Byte} {r : Record} (h : Agrees ty k buf r)
    (hty : k.type = ty.toByte) : LogType.ofByte r.type = some (LogType.ofKernel ty) := by
  rw [h.type, hty, LogType.ofByte_eq, Trfs.LogType.ofByte_toByte, Option.map_some]

section Replay

variable {cwd : List Byte} {map : List FileMap} {created : Option Creation} {s : σ} {ret : CInt}

theorem Reissued.open_given {inode file : Ptr} {path : List Byte} {flags mode : CInt}
    (h : Reissued K T cwd map created s ret (.open_ inode file) (.open_ path flags mode)) :
    ∀ c ∈ created, mode = c.mode.setWidth 32 := by
  cases h with
  | open_ path given => exact given

theorem Agrees.transfer {ty : Trfs.LogType} {k : Trfs.Record} {sub : Submission} {buf : Ptr}
    {i : BitVec 32} {r : Record} (hr : Agrees ty (sub.record.withId i) sub.buf r)
    (hd : ty.HasData) (h : sub ∈ T.transferred P k buf) :
    r.fileAddress = k.fileAddress ∧ r.dataLength = k.dataLength ∧
      (r.data.getD []).take r.dataLength.toNat = (T.user buf k.dataLength.toNat).val := by
  obtain ⟨⟨large, data, hrec⟩, hbuf⟩ := Tracing.mem_transferred h
  have hlength : r.dataLength = k.dataLength := by
    rw [hr.dataLength hd, hrec]
    rfl
  refine ⟨by rw [hr.fileAddress, hrec]; rfl, hlength, ?_⟩
  have hn := (T.user buf k.dataLength.toNat).property
  rw [hr.data hd, hbuf, hlength, Option.getD_some]
  exact List.take_left' hn

theorem reissued_path_iff {c : Call} {r : Record} {dentry : Ptr} {p : TmpPath}
    {sys : List Byte → Syscall} (hp : T.dentryPathRaw dentry = some p)
    (hpath : r.path = some (p.chars ++ [0]))
    (hcall : replayCall cwd map r = (buildPath cwd r.path).map fun built => some (sys built)) :
    (∃ sys', replayCall cwd map r = .ok (some sys') ∧ Reissued K T cwd map created s ret c sys') ↔
      PathFits T cwd dentry ∧ Reissued K T cwd map created s ret c (sys (cstr cwd ++ p.chars)) := by
  rw [hcall, hpath, buildPath_chars, pathFits_iff hp]
  by_cases hfit : (cstr cwd).length + p.chars.length < 4096
  · simp [hfit, Except.map]
  · simp [hfit, Except.map]

theorem reissued_paths_iff {c : Call} {r : Record} {dentry newDentry : Ptr} {p q : TmpPath}
    {sys : List Byte → List Byte → Syscall} (hp : T.dentryPathRaw dentry = some p)
    (hq : T.dentryPathRaw newDentry = some q) (hpath : r.path = some (p.chars ++ [0]))
    (hnewPath : r.newPath = some (q.chars ++ [0]))
    (hcall : replayCall cwd map r = (buildPath cwd r.path).bind fun built =>
      (buildPath cwd r.newPath).map fun newBuilt => some (sys built newBuilt)) :
    (∃ sys', replayCall cwd map r = .ok (some sys') ∧ Reissued K T cwd map created s ret c sys') ↔
      (PathFits T cwd dentry ∧ PathFits T cwd newDentry) ∧
        Reissued K T cwd map created s ret c (sys (cstr cwd ++ p.chars) (cstr cwd ++ q.chars)) := by
  rw [hcall, hpath, hnewPath, buildPath_chars, buildPath_chars, pathFits_iff hp, pathFits_iff hq]
  by_cases hfit : (cstr cwd).length + p.chars.length < 4096
  · by_cases hfit' : (cstr cwd).length + q.chars.length < 4096
    · simp [hfit, hfit', Except.map, Except.bind]
    · simp [hfit, hfit', Except.map, Except.bind]
  · simp [hfit, Except.bind]

theorem clear_iff {c : Call} {e : Exit σ} {sub : Submission} (h : c.Submits K T P e sub)
    (hclear : c.logType ≠ .link → sub.record.flushBufferSig ≠ 1) :
    sub.record.flushBufferSig ≠ 1 ↔ (c.logType = .link → T.heap.flushBufferSig ≠ 1) := by
  cases c with
  | link oldDentry dir newDentry =>
    obtain ⟨err, s', p, q, -, -, rfl⟩ := h
    exact ⟨fun hsig _ => hsig, fun hsig => hsig rfl⟩
  | _ => exact iff_of_true (hclear (by simp [Call.logType])) (by simp [Call.logType])

theorem replayCall_iff {c : Call} {e : Exit σ} {sub : Submission} {i : BitVec 32} {r : Record}
    (h : c.Submits K T P e sub) (hret : 0 ≤ e.ret.toInt) (hc : IsReissued c)
    (hkeeps : ∀ inode file, c = .open_ inode file →
      fileModes K file e.state = fileModes K file s)
    (hr : Agrees c.logType (sub.record.withId i) sub.buf r) :
    (c.logType = .link → T.heap.flushBufferSig ≠ 1) ∧
        (∃ sys, replayCall cwd map r = .ok (some sys) ∧
          Reissued K T cwd map created s e.ret c sys) ↔ Kept K T cwd created s c := by
  have hty := hr.ofByte_type (carries_of_submits h hret).type_eq
  have hother : ∀ {p q : Prop}, c.logType ≠ .link → (p ↔ q) →
      ((c.logType = .link → T.heap.flushBufferSig ≠ 1) ∧ p ↔ q) :=
    fun hne hiff => (and_iff_right fun heq => absurd heq hne).trans hiff
  cases c with
  | readdir file ctx => exact absurd hc id
  | close file owner => exact absurd hc id
  | open_ inode file =>
    obtain ⟨hflags, hmode⟩ := Prod.mk.inj (hkeeps inode file rfl)
    obtain ⟨p, path, hp, hpath, rfl⟩ := h
    obtain rfl := hpath.resolve_right fun herr => by
      rw [herr.2] at hret
      exact absurd hret (by decide)
    refine hother nofun ?_
    rw [reissued_path_iff hp (hr.path trivial) (by rw [replayCall, hty]; rfl)]
    refine and_congr_right fun _ => ?_
    have hrflags : r.openFlags = K.fFlags s file := (hr.openFlags rfl).trans hflags
    have hrmode : r.permMode = K.fMode s file := (hr.permMode (.inl rfl)).trans hmode
    rw [hrflags, hrmode]
    constructor
    · exact Reissued.open_given
    · exact fun hgiven => .open_ hp hgiven
  | read file buf count ppos =>
    obtain ⟨hfile, hlength, -⟩ := hr.transfer trivial h.2
    refine hother nofun (iff_of_true ⟨_, by rw [replayCall, hty]; rfl, ?_⟩ trivial)
    rw [hfile, hlength]
    exact .read
  | write file buf count ppos =>
    obtain ⟨hfile, hlength, hdata⟩ := hr.transfer trivial h.2
    refine hother nofun (iff_of_true ⟨_, by rw [replayCall, hty]; rfl, ?_⟩ trivial)
    rw [hfile, hdata, hlength]
    exact .write
  | mkdir dir dentry mode =>
    obtain ⟨err, s', p, hp, rfl⟩ := h
    refine hother nofun ?_
    rw [reissued_path_iff hp (hr.path trivial) (by rw [replayCall, hty]; rfl)]
    have hrmode : r.permMode = mode.setWidth 32 := hr.permMode (.inr rfl)
    rw [hrmode]
    exact and_iff_left (.mkdir hp)
  | unlink dir dentry =>
    obtain ⟨err, s', p, hp, rfl⟩ := h
    refine hother nofun ?_
    rw [reissued_path_iff hp (hr.path trivial) (by rw [replayCall, hty]; rfl)]
    exact and_iff_left (.unlink hp)
  | rmdir dir dentry =>
    obtain ⟨err, s', p, hp, rfl⟩ := h
    refine hother nofun ?_
    rw [reissued_path_iff hp (hr.path trivial) (by rw [replayCall, hty]; rfl)]
    exact and_iff_left (.rmdir hp)
  | link oldDentry dir newDentry =>
    obtain ⟨err, s', p, q, hp, hq, rfl⟩ := h
    rw [reissued_paths_iff hp hq (hr.path trivial) (hr.newPath trivial)
      (by rw [replayCall, hty]; rfl), and_iff_left (Reissued.link hp hq), and_comm]
    exact and_congr_right fun _ => forall_prop_of_true rfl
  | rename oldDir oldDentry newDir newDentry =>
    obtain ⟨err, s', p, q, hp, hq, rfl⟩ := h
    refine hother nofun ?_
    rw [reissued_paths_iff hp hq (hr.path trivial) (hr.newPath trivial)
      (by rw [replayCall, hty]; rfl)]
    exact and_iff_left (.rename hp hq)

end Replay

/-- From the call to its record, to the bytes of the trace, to the decoded record, to the replayed
call: the same call with the same arguments comes out exactly when it is kept. -/
theorem reissued_iff {π : Type} (K : Kernel σ) (T : Tracing) (P : PageSize)
    (vfsCreate : Ptr → Ptr → BitVec 16 → Bool → σ → CInt × σ) (created : Option Creation) (s₀ : σ)
    (c : Call) (e : Exit σ) (sub : Submission) (i : BitVec 32) (pre post : List Byte)
    (C : Cursor π) (place : Nat → π) (r : Record) (cwd : List Byte) (map : List FileMap)
    (hc : IsReissued c) (he : c.trfs K T P (afterCreate K vfsCreate created s₀) = .ok e)
    (hsub : sub ∈ e.submitted) (hret : 0 ≤ e.ret.toInt)
    (hK : ∀ inode file, c = .open_ inode file → KeepsFile K file)
    (hC : C.Counts place (pre.length + 2 ^ 17)) :
    (∃ bytes r' p sys,
        (sub.record.withId i).traced sub.buf = some bytes ∧
        readRecord C (pre ++ bytes ++ post) r (place pre.length) = some (r', p) ∧
        replayCall cwd map r' = .ok (some sys) ∧
        Reissued K T cwd map created (afterCreate K vfsCreate created s₀) e.ret c sys) ↔
      Kept K T cwd created (afterCreate K vfsCreate created s₀) c := by
  have h := c.submits he hsub
  have hcarries : (sub.record.withId i).Carries c.logType sub.buf := by
    have hcarries := carries_of_submits h hret
    exact ⟨hcarries.type_eq, hcarries.path_at, hcarries.newPath_at, hcarries.buf_length,
      hcarries.data_eq⟩
  obtain ⟨r', j, hread, hagrees⟩ := readRecord_written hcarries pre post r
  have hkeeps : ∀ inode file, c = .open_ inode file → fileModes K file e.state =
      fileModes K file (afterCreate K vfsCreate created s₀) := by
    rintro inode file rfl
    have hfile := hK inode file rfl
    rw [Trfs.trfsOpen_state he, hfile.openLower, hfile.allocFileInfo]
  have hiff : (c.logType = .link → T.heap.flushBufferSig ≠ 1) ∧
      (∃ sys, replayCall cwd map r' = .ok (some sys) ∧
        Reissued K T cwd map created (afterCreate K vfsCreate created s₀) e.ret c sys) ↔
        Kept K T cwd created (afterCreate K vfsCreate created s₀) c :=
    replayCall_iff h hret hc hkeeps hagrees
  have hclear := clear_iff h (c.submitted_sound he sub hsub).clear
  have htraced : (sub.record.withId i).traced sub.buf =
      if sub.record.flushBufferSig = 1 then none
      else some ((sub.record.withId i).written sub.buf) := rfl
  rw [← hiff, ← hclear, htraced]
  by_cases hsig : sub.record.flushBufferSig = 1
  · simp [hsig]
  · have hplace : readRecord C (pre ++ (sub.record.withId i).written sub.buf ++ post) r
        (place pre.length) = _ := hC.readRecord r (Nat.le_refl _)
    rw [hread] at hplace
    rw [if_neg hsig, and_iff_right hsig]
    constructor
    · rintro ⟨bytes, r'', p, sys, hbytes, hr'', hcall, hsys⟩
      cases hbytes
      cases hplace.symm.trans hr''
      exact ⟨sys, hcall, hsys⟩
    · rintro ⟨sys, hcall, hsys⟩
      exact ⟨_, r', place j, sys, rfl, hplace, hcall, hsys⟩

def Kernel.opening : Kernel Unit :=
  { Kernel.inert with fFlags := fun _ _ => 0o101, fMode := fun _ _ => 0o36 }

theorem slashA_noNul : (0 : Byte) ∉ [(0x2F : Byte), 0x61] := by decide

theorem slashA_fits : [(0x2F : Byte), 0x61].length < 1024 := by decide

def slashA : Tracing :=
  { Tracing.plenty with dentryPathRaw := fun _ => some ⟨[0x2F, 0x61], slashA_noNul, slashA_fits⟩ }

theorem opening_keepsFile (file : Ptr) : KeepsFile Kernel.opening file where
  allocFileInfo _ := rfl
  getLowerPath _ _ := rfl
  dentryOpen _ _ _ := rfl
  pathPut _ _ := rfl
  setLowerFile _ _ := rfl
  fput _ _ := rfl
  freeFileInfo _ := rfl
  copyAttrAll _ _ _ := rfl

theorem reissued_iff_open :
    ∃ bytes r' p sys,
      ((Trfs.openRecord Kernel.opening 3 0 ⟨[0x2F, 0x61], slashA_noNul, slashA_fits⟩
        (some [0x2F, 0x61]) ()).withId 0).traced [] = some bytes ∧
      readRecord .int bytes .blank 0 = some (r', p) ∧
      replayCall [] [] r' = .ok (some sys) ∧
      Reissued Kernel.opening slashA [] [] none () 0 (.open_ 4 3) sys := by
  have h := reissued_iff Kernel.opening slashA .small (fun _ _ _ _ s => (0, s)) none ()
    (.open_ 4 3) _ _ 0 [] [] .int (BitVec.ofNat 32) .blank [] [] trivial rfl
    (List.mem_singleton_self _) (by decide) (fun _ _ _ => opening_keepsFile _)
    (Cursor.int_counts.mono (by decide))
  obtain ⟨bytes, r', p, sys, hbytes, hread, hcall, hsys⟩ := h.mpr (by
    refine ⟨?_, nofun⟩
    rintro p ⟨⟩
    decide)
  rw [List.nil_append, List.append_nil] at hread
  exact ⟨bytes, r', p, sys, hbytes, hread, hcall, hsys⟩

def fileCreation : Creation := ⟨2, 3, 0o100644, false⟩

theorem created_file_replayed_with_f_mode :
    ∃ e sub, (Call.open_ 4 3).trfs Kernel.opening slashA .small
          (afterCreate Kernel.opening (fun _ _ _ _ s => (0, s)) (some fileCreation) ()) = .ok e ∧
        e.submitted = [sub] ∧ e.ret = 0 ∧
        ¬ ∃ bytes r' p sys, (sub.record.withId 0).traced sub.buf = some bytes ∧
          readRecord .int bytes .blank 0 = some (r', p) ∧
          replayCall [] [] r' = .ok (some sys) ∧
          Reissued Kernel.opening slashA [] [] (some fileCreation) () e.ret (.open_ 4 3) sys := by
  refine ⟨_, _, rfl, rfl, rfl, ?_⟩
  rintro ⟨bytes, r', p, sys, hbytes, hread, hcall, hsys⟩
  have hmade : (((Trfs.openRecord Kernel.opening 3 0 ⟨[0x2F, 0x61], slashA_noNul, slashA_fits⟩
      (some [0x2F, 0x61]) ()).withId 0).traced []).map (fun bytes =>
        (readRecord .int bytes .blank 0).map fun out => replayCall [] [] out.1) =
          some (some (.ok (some (.open_ [0x2F, 0x61] 0o101 0o36)))) := by decide +kernel
  have hopen : replayCall [] [] r' = .ok (some (.open_ [0x2F, 0x61] 0o101 0o36)) := by
    have hbytes' := congrArg (Option.map fun bytes =>
      (readRecord .int bytes .blank 0).map fun out => replayCall [] [] out.1) hbytes
    rw [Option.map_some, hread] at hbytes'
    exact Option.some.inj (Option.some.inj (hbytes'.symm.trans hmade))
  obtain rfl : sys = .open_ [0x2F, 0x61] 0o101 0o36 :=
    Option.some.inj (Except.ok.inj (hcall.symm.trans hopen))
  exact absurd (hsys.open_given fileCreation rfl) (by decide)

end TraceFS.Treplay
