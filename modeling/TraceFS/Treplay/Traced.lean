import TraceFS.Lib.Table
import TraceFS.Treplay.Modes
import TraceFS.Treplay.Pipeline

/-! Calls of a traced program on a file system, and the loop of the replay over their records. -/

universe u v w

namespace TraceFS.Treplay

open TraceFS.Lib TraceFS.Linux
open TraceFS.Trfs (Call CallRun Entry Exit PageSize Submission Tracing TmpPath entry)

abbrev Errno := {e : CInt // 0 < e.toInt}

inductive Change where
  | mkdir (path : List Byte) (mode : CInt)
  | unlink (path : List Byte)
  | link (path newPath : List Byte)
  | rename (path newPath : List Byte)
  | rmdir (path : List Byte)

def Change.syscall : Change → Syscall
  | .mkdir path mode => .mkdir path mode
  | .unlink path => .unlink path
  | .link path newPath => .link path newPath
  | .rename path newPath => .rename path newPath
  | .rmdir path => .rmdir path

structure Files (φ : Type u) (η : Type v) where
  open_ : List Byte → CInt → CInt → φ → Except Errno η × φ
  read : η → Nat → φ → Except Errno (List Byte) × φ
  write : η → List Byte → φ → Except Errno Nat × φ
  close : η → φ → Except Errno Unit × φ
  change : Change → φ → Except Errno Unit × φ

variable {φ : Type u} {η : Type v}

/-- A call that fails changes nothing, and a transfer that came to less than it was asked for comes
to the same when it is asked for just that. No transfer is longer than an `int` can say. -/
structure Files.Lawful (F : Files φ η) : Prop where
  open_fails : ∀ path flags mode s e s', F.open_ path flags mode s = (.error e, s') → s' = s
  read_fails : ∀ h n s e s', F.read h n s = (.error e, s') → s' = s
  write_fails : ∀ h data s e s', F.write h data s = (.error e, s') → s' = s
  change_fails : ∀ c s e s', F.change c s = (.error e, s') → s' = s
  read_again : ∀ h n s bs s', F.read h n s = (.ok bs, s') →
    bs.length < 2 ^ 31 ∧ F.read h bs.length s = (.ok bs, s')
  write_again : ∀ h data s n s', F.write h data s = (.ok n, s') →
    n < 2 ^ 31 ∧ F.write h (data.take n) s = (.ok n, s')

section Process

variable (F : Files φ η) (pick : Table CInt η → CInt)

def userReturn {α : Type w} (value : α → CInt) : Except Errno α → CInt
  | .ok a => value a
  | .error _ => -1

def Files.os : Os (φ × Table CInt η)
  | .open_ path flags mode, (s, fds) =>
    match F.open_ path flags mode s with
    | (.ok h, s) => (pick fds, s, fds.insert (pick fds) h)
    | (.error _, s) => (-1, s, fds)
  | .read fd count, (s, fds) =>
    match fds.lookup fd with
    | none => (-1, s, fds)
    | some h =>
      let out := F.read h count.toNat s
      (userReturn (fun bs => BitVec.ofNat 32 bs.length) out.1, out.2, fds)
  | .write fd data _, (s, fds) =>
    match fds.lookup fd with
    | none => (-1, s, fds)
    | some h =>
      let out := F.write h data s
      (userReturn (BitVec.ofNat 32) out.1, out.2, fds)
  | .close fd, (s, fds) =>
    match fds.lookup fd with
    | none => (-1, s, fds)
    | some h =>
      let out := F.close h s
      (userReturn (fun _ => 0) out.1, out.2, fds.erase fd)
  | .mkdir path mode, s => changed (.mkdir path mode) s
  | .unlink path, s => changed (.unlink path) s
  | .link path newPath, s => changed (.link path newPath) s
  | .rename path newPath, s => changed (.rename path newPath) s
  | .rmdir path, s => changed (.rmdir path) s
where
  changed (c : Change) (s : φ × Table CInt η) : CInt × φ × Table CInt η :=
    let out := F.change c s.1
    (userReturn (fun _ => 0) out.1, out.2, s.2)

end Process

structure TracedCall (P : PageSize) extends CallRun P where
  mode : CInt

structure Traced (φ : Type u) (η : Type v) where
  files : φ
  opened : Table Ptr η
  used : List Ptr

def Traced.start (files : φ) : Traced φ η := ⟨files, ∅, []⟩

variable {P : PageSize}

def kernelReturn {α : Type w} (value : α → CInt) : Except Errno α → CInt
  | .ok a => value a
  | .error e => -e.val

/-- The lower directory of the mount is `cwd`. -/
def TracedCall.change? (x : TracedCall P) (cwd : List Byte) : Option Change :=
  match x.call with
  | .mkdir _ dentry mode =>
    (x.T.dentryPathRaw dentry).map fun p => .mkdir (cstr cwd ++ p.chars) (mode.setWidth 32)
  | .unlink _ dentry => (x.T.dentryPathRaw dentry).map fun p => .unlink (cstr cwd ++ p.chars)
  | .link oldDentry _ newDentry =>
    (x.T.dentryPathRaw oldDentry).bind fun p =>
      (x.T.dentryPathRaw newDentry).map fun q => .link (cstr cwd ++ p.chars) (cstr cwd ++ q.chars)
  | .rename _ oldDentry _ newDentry =>
    (x.T.dentryPathRaw oldDentry).bind fun p =>
      (x.T.dentryPathRaw newDentry).map fun q =>
        .rename (cstr cwd ++ p.chars) (cstr cwd ++ q.chars)
  | .rmdir _ dentry => (x.T.dentryPathRaw dentry).map fun p => .rmdir (cstr cwd ++ p.chars)
  | .readdir .. | .open_ .. | .read .. | .write .. | .close .. => none

def Traced.after {α : Type w} (t : Traced φ η) (x : TracedCall P) (value : α → CInt)
    (out : Except Errno α × φ) : Option (Traced φ η) :=
  if x.exit.ret = kernelReturn value out.1 then some { t with files := out.2 } else none

def openedBy (opened : Table Ptr η) (file : Ptr) : Except Errno η → Table Ptr η
  | .ok h => opened.insert file h
  | .error _ => opened

/-- A call of the traced program reaches the lower file system. Directories are read at positions
of their own, which no other call looks at. -/
def Traced.step (F : Files φ η) (cwd : List Byte) (t : Traced φ η) (x : TracedCall P) :
    Option (Traced φ η) :=
  match x.call with
  | .readdir file _ =>
    if (t.opened.lookup file).isSome then some t else none
  | .open_ _ file =>
    (x.T.dentryPathRaw (x.K.fileDentry file)).bind fun p =>
      if file ∈ t.used then none
      else
        let out := F.open_ (cstr cwd ++ p.chars) (x.K.fFlags x.exit.state file) x.mode t.files
        Traced.after { t with opened := openedBy t.opened file out.1, used := file :: t.used } x
          (fun _ => 0) out
  | .read file _ count _ =>
    (t.opened.lookup file).bind fun h =>
      t.after x (fun bs => BitVec.ofNat 32 bs.length) (F.read h count.toNat t.files)
  | .write file buf count _ =>
    (t.opened.lookup file).bind fun h =>
      t.after x (BitVec.ofNat 32) (F.write h (x.T.user buf count.toNat).val t.files)
  | .close file _ =>
    (t.opened.lookup file).bind fun h =>
      Traced.after { t with opened := t.opened.erase file } x (fun _ => 0) (F.close h t.files)
  | _ => (x.change? cwd).bind fun c => t.after x (fun _ => 0) (F.change c t.files)

section Record

variable {x : TracedCall P} {cwd : List Byte} {map : List FileMap}

def TracedCall.syscall? (x : TracedCall P) (cwd : List Byte) (map : List FileMap) :
    Option Syscall :=
  match x.call with
  | .readdir .. => none
  | .open_ _ file =>
    (x.T.dentryPathRaw (x.K.fileDentry file)).map fun p =>
      .open_ (cstr cwd ++ p.chars) (x.K.fFlags x.exit.state file) (x.K.fMode x.exit.state file)
  | .read file _ _ _ => some (.read (mapFind map file) (x.exit.ret.signExtend 64))
  | .write file buf _ _ =>
    some (.write (mapFind map file) (x.T.user buf (x.exit.ret.signExtend 64).toNat).val
      (x.exit.ret.signExtend 64))
  | .close file _ => some (.close (mapFind map file))
  | _ => (x.change? cwd).map Change.syscall

def TracedCall.Of (x : TracedCall P) (sub : Submission) (r : Record) : Prop :=
  ∃ i, Agrees x.call.logType (sub.record.withId i) sub.buf r

theorem buildPath_of_short {p : TmpPath} (hcwd : (cstr cwd).length ≤ 3072) :
    buildPath cwd (some (p.chars ++ [0])) = .ok (cstr cwd ++ p.chars) := by
  have hfits := p.fits
  rw [buildPath_chars, if_pos (by omega)]

theorem TracedCall.Of.ofByte_type {sub : Submission} {r : Record} (h : x.Of sub r)
    (hsub : sub ∈ x.exit.submitted) :
    LogType.ofByte r.type = some (LogType.ofKernel x.call.logType) := by
  obtain ⟨i, hr⟩ := h
  exact hr.ofByte_type (x.call.submits x.ran hsub).type_eq

theorem TracedCall.Of.fileAddress {sub : Submission} {r : Record} (h : x.Of sub r)
    (hsub : sub ∈ x.exit.submitted) {file : Ptr} (hfile : x.call.file? = some file) :
    r.fileAddress = file := by
  obtain ⟨i, hr⟩ := h
  exact hr.fileAddress.trans ((x.call.submits x.ran hsub).fileAddress_eq hfile)

theorem TracedCall.Of.replayCall {sub : Submission} {r : Record} (h : x.Of sub r)
    (hsub : sub ∈ x.exit.submitted) (halloc : x.T.pathAlloc = true)
    (hcwd : (cstr cwd).length ≤ 3072) : replayCall cwd map r = .ok (x.syscall? cwd map) := by
  have hty := h.ofByte_type hsub
  obtain ⟨i, hr⟩ := h
  have hsubmits := x.call.submits x.ran hsub
  unfold Treplay.replayCall TracedCall.syscall? TracedCall.change?
  rw [hty]
  cases hcall : x.call with
  | readdir file ctx => rfl
  | open_ inode file =>
    rw [hcall] at hr hsubmits
    obtain ⟨p, path, hp, hpath, rfl⟩ := hsubmits
    obtain rfl := hpath.resolve_right (by simp [halloc])
    have hrpath : r.path = some (p.chars ++ [0]) := hr.path trivial
    simp only [Call.logType, LogType.ofKernel, hrpath, buildPath_of_short hcwd, hp,
      hr.openFlags rfl, hr.permMode (.inl rfl)]
    rfl
  | read file buf count ppos =>
    rw [hcall] at hr hsubmits
    obtain ⟨hfile, hlength, -⟩ := hr.transfer trivial hsubmits.2
    simp only [Call.logType, LogType.ofKernel, hfile, hlength]
    rfl
  | write file buf count ppos =>
    rw [hcall] at hr hsubmits
    obtain ⟨hfile, hlength, hdata⟩ := hr.transfer trivial hsubmits.2
    simp only [Call.logType, LogType.ofKernel, hdata]
    rw [hfile, hlength]
    rfl
  | close file owner =>
    rw [hcall] at hr hsubmits
    cases show sub = _ from hsubmits
    simp only [Call.logType, LogType.ofKernel, hr.fileAddress]
    rfl
  | mkdir dir dentry mode =>
    rw [hcall] at hr hsubmits
    obtain ⟨err, s', p, hp, rfl⟩ := hsubmits
    have hrpath : r.path = some (p.chars ++ [0]) := hr.path trivial
    simp only [Call.logType, LogType.ofKernel, hrpath, buildPath_of_short hcwd, hp,
      hr.permMode (.inr rfl)]
    rfl
  | unlink dir dentry | rmdir dir dentry =>
    rw [hcall] at hr hsubmits
    obtain ⟨err, s', p, hp, rfl⟩ := hsubmits
    have hrpath : r.path = some (p.chars ++ [0]) := hr.path trivial
    simp only [Call.logType, LogType.ofKernel, hrpath, buildPath_of_short hcwd, hp]
    rfl
  | link oldDentry dir newDentry | rename oldDir oldDentry newDir newDentry =>
    rw [hcall] at hr hsubmits
    obtain ⟨err, s', p, q, hp, hq, rfl⟩ := hsubmits
    have hrpath : r.path = some (p.chars ++ [0]) := hr.path trivial
    have hrnewPath : r.newPath = some (q.chars ++ [0]) := hr.newPath trivial
    simp only [Call.logType, LogType.ofKernel, hrpath, hrnewPath, buildPath_of_short hcwd, hp, hq]
    rfl

end Record

section Replaying

variable {σ : Type u} (S : Os σ) (cwd : List Byte)

structure Replaying (σ : Type u) where
  map : List FileMap
  os : σ
  rounds : List Round

def Replaying.start (s : σ) : Replaying σ := ⟨[], s, []⟩

def Replaying.step (y : Replaying σ) (r : Record) : Option (Replaying σ) :=
  match replayRecord S cwd y.map r y.os with
  | .error _ => none
  | .ok d => some ⟨d.map, d.os, y.rounds ++ [⟨r, d.call, some (report false r d.ret)⟩]⟩

theorem Replaying.replays {y y' : Replaying σ} {rs : List Record}
    (hrun : run (Replaying.step S cwd) y rs = some y') :
    ∃ rounds, y'.rounds = y.rounds ++ rounds ∧ Replays S cwd y.map y.os rs rounds := by
  induction rs generalizing y with
  | nil =>
    cases hrun
    exact ⟨[], (List.append_nil _).symm, .done _ _⟩
  | cons r rs ih =>
    obtain ⟨y₁, hstep, hrun⟩ := run_cons_eq_some.mp hrun
    simp only [Replaying.step] at hstep
    split at hstep
    · cases hstep
    case h_2 d hd =>
      cases hstep
      obtain ⟨rounds, hrounds, hreplays⟩ := ih hrun
      refine ⟨_, ?_, replays_cons_iff.mpr ⟨d, rounds, hd, hreplays, rfl⟩⟩
      rw [hrounds, List.append_assoc]
      rfl

def performs (calls : List Syscall) (s : σ) : σ := calls.foldl (fun s c => (S c s).2) s

theorem performs_append (calls calls' : List Syscall) (s : σ) :
    performs S (calls ++ calls') s = performs S calls' (performs S calls s) :=
  List.foldl_append

theorem callsOf_append (rounds rounds' : List Round) :
    callsOf (rounds ++ rounds') = callsOf rounds ++ callsOf rounds' :=
  List.filterMap_append

theorem Replaying.step_performs {s : σ} {y y' : Replaying σ} {r : Record}
    (h : y.os = performs S (callsOf y.rounds) s) (hstep : y.step S cwd r = some y') :
    y'.os = performs S (callsOf y'.rounds) s := by
  simp only [Replaying.step] at hstep
  split at hstep
  · cases hstep
  case h_2 d hd =>
    cases hstep
    rw [callsOf_append, performs_append, ← h]
    simp only [replayRecord] at hd
    split at hd <;> cases hd <;> rfl

end Replaying

end TraceFS.Treplay
