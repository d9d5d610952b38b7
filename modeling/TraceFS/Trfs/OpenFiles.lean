import Mathlib.Algebra.Group.Int.Defs
import Mathlib.Algebra.Group.Pi.Basic
import Mathlib.Algebra.Group.Prod
import Mathlib.Algebra.Order.Pi
import TraceFS.Lib.Run
import TraceFS.Lib.Table
import TraceFS.Trfs.Submits

/-! The open files of a mount, their lower files and their mappings, from `trfs_open` to
`trfs_file_release`, with reads, writes, `trfs_mmap` and `trfs_fault` in between. -/

universe u

namespace TraceFS.Trfs

open TraceFS.Lib TraceFS.Linux TraceFS.Wrapfs

def trfsFileRelease {σ : Type u} (K : Kernel σ) (file : Ptr) (s : σ) : σ :=
  let lowerFile := K.lowerFile s file
  let s := if lowerFile = NULL then s else K.fput lowerFile (K.setLowerFile file NULL s)
  K.freeFileInfo file s

structure FileInfo where
  lowerFile : Ptr
  lowerVmOps : Ptr
  deriving DecidableEq

inductive VmaPhase where
  | asking
  /-- with `saved_vm_ops`, which is NULL too where the lower `mmap` was not called -/
  | answered (savedVmOps : Ptr)
  | mapped
  deriving DecidableEq

structure Vma where
  file : Ptr
  phase : VmaPhase
  deriving DecidableEq

/-- A read or write by `trfs_read_iter` or `trfs_write_iter`, with the file whose reference it
took and that stands in `ki_filp`. -/
structure Iocb where
  file : Ptr
  lowerFile : Ptr
  deriving DecidableEq

structure OpenFiles where
  infos : Table Ptr FileInfo
  vmas : Table Ptr Vma
  iocbs : Table Ptr Iocb
  held : Ptr → ℤ
  allocated : ℤ

namespace OpenFiles

def start : OpenFiles where
  infos := ∅
  vmas := ∅
  iocbs := ∅
  held := 0
  allocated := 0

def ref (lowerFile : Ptr) : Ptr → ℤ := if lowerFile = NULL then 0 else Pi.single lowerFile 1

def kernel (unhashed mem : Bool) (answer : Except CInt Ptr) : Kernel OpenFiles :=
  { Kernel.inert with
    dUnhashed := fun _ _ => unhashed
    lowerFile := fun s file => (s.infos.lookup file).elim NULL FileInfo.lowerFile
    setLowerFile := fun file lowerFile s =>
      { s with infos := (s.infos.lookup file).elim s.infos fun d =>
          s.infos.insert file { d with lowerFile := lowerFile } }
    fput := fun lowerFile s => { s with held := s.held - ref lowerFile }
    allocFileInfo := fun file s =>
      if mem then
        (true, { s with infos := s.infos.insert file ⟨NULL, NULL⟩, allocated := s.allocated + 1 })
      else (false, s)
    freeFileInfo := fun file s =>
      { s with infos := s.infos.erase file, allocated := s.allocated - 1 }
    dentryOpen := fun _ _ s =>
      (answer, answer.toOption.elim s fun p => { s with held := s.held + ref p }) }

inductive Label where
  /-- plain, as in WRAPFS, or traced -/
  | opens (inode file : Ptr) (unhashed mem : Bool) (answer : Except CInt Ptr) (T : Option Tracing)
  /-- a read, write, readdir, seek, ioctl, flush, fsync or fasync, all of which hand the lower file
  down -/
  | uses (file : Ptr)
  | iterBegins (file iocb : Ptr)
  | iterEnds (iocb : Ptr)
  /-- `trfs_mmap` past its check of `writepage` -/
  | maps (file vma : Ptr)
  | lowerMaps (vma : Ptr) (err : CInt) (vmOps : Ptr)
  | finishes (vma : Ptr)
  /-- `trfs_fault` or `trfs_page_mkwrite` -/
  | faults (vma : Ptr)
  | unmaps (vma : Ptr)
  | releases (file : Ptr)

/-- A failed open leaves the VFS with a file that it does not release. -/
def opened (file : Ptr) (ret : CInt) (s : OpenFiles) : OpenFiles :=
  if ret = 0 then s else { s with infos := s.infos.erase file }

def Answers : Except CInt Ptr → Prop
  | .ok lowerFile => lowerFile ≠ NULL
  | .error err => err ≠ 0

instance (answer : Except CInt Ptr) : Decidable (Answers answer) :=
  match answer with
  | .ok _ => inferInstanceAs (Decidable (_ ≠ _))
  | .error _ => inferInstanceAs (Decidable (_ ≠ _))

def Unused (s : OpenFiles) (file : Ptr) : Prop :=
  (∀ e ∈ s.vmas.entries, e.2.file ≠ file) ∧ ∀ e ∈ s.iocbs.entries, e.2.file ≠ file

instance (s : OpenFiles) (file : Ptr) : Decidable (s.Unused file) :=
  inferInstanceAs (Decidable (_ ∧ _))

def step (s : OpenFiles) : Label → Option OpenFiles
  | .opens inode file unhashed mem answer T =>
    if file ∉ s.infos ∧ Answers answer then
      match T with
      | none =>
        let out := wrapfsOpen (kernel unhashed mem answer) file inode s
        some (out.2.opened file out.1)
      | some T =>
        (trfsOpen (kernel unhashed mem answer) T file inode s).toOption.map fun x =>
          x.state.opened file x.ret
    else none
  | .uses file => if file ∈ s.infos then some s else none
  | .iterBegins file iocb =>
    match s.infos.lookup file with
    | some d =>
      if iocb ∉ s.iocbs then
        some { s with
          iocbs := s.iocbs.insert iocb ⟨file, d.lowerFile⟩
          held := s.held + ref d.lowerFile }
      else none
    | none => none
  | .iterEnds iocb =>
    match s.iocbs.lookup iocb with
    | some e => some { s with iocbs := s.iocbs.erase iocb, held := s.held - ref e.lowerFile }
    | none => none
  | .maps file vma =>
    match s.infos.lookup file with
    | some d =>
      if vma ∉ s.vmas then
        let phase := if d.lowerVmOps = NULL then .asking else .answered NULL
        some { s with vmas := s.vmas.insert vma ⟨file, phase⟩ }
      else none
    | none => none
  | .lowerMaps vma err vmOps =>
    match s.vmas.lookup vma with
    | some ⟨file, .asking⟩ =>
      if err ≠ 0 then some { s with vmas := s.vmas.erase vma }
      else some { s with vmas := s.vmas.insert vma ⟨file, .answered vmOps⟩ }
    | _ => none
  | .finishes vma =>
    match s.vmas.lookup vma with
    | some ⟨file, .answered saved⟩ =>
      (s.infos.lookup file).map fun d =>
        { s with
          vmas := s.vmas.insert vma ⟨file, .mapped⟩
          infos :=
            if d.lowerVmOps = NULL then s.infos.insert file { d with lowerVmOps := saved }
            else s.infos }
    | _ => none
  | .faults vma =>
    match s.vmas.lookup vma with
    | some ⟨_, .mapped⟩ => some s
    | _ => none
  | .unmaps vma =>
    match s.vmas.lookup vma with
    | some ⟨_, .mapped⟩ => some { s with vmas := s.vmas.erase vma }
    | _ => none
  | .releases file =>
    if file ∈ s.infos ∧ s.Unused file then
      some (trfsFileRelease (kernel false true (.error 0)) file s)
    else none

variable {s s' : OpenFiles} {file : Ptr}

def linked (s : OpenFiles) (file lowerFile : Ptr) : OpenFiles :=
  { s with
    infos := s.infos.insert file ⟨lowerFile, NULL⟩
    held := s.held + ref lowerFile
    allocated := s.allocated + 1 }

section Open

variable {unhashed mem : Bool} {inode : Ptr} {answer : Except CInt Ptr}

theorem kernel_alloc : ((kernel unhashed mem answer).allocFileInfo file s).1 = mem := by
  cases mem <;> rfl

theorem openLower_ok (lowerFile : Ptr) :
    let K := kernel unhashed true (.ok lowerFile)
    openLower K file inode (K.allocFileInfo file s).2 = (0, s.linked file lowerFile) := by
  simp [openLower, kernel, Kernel.inert, linked, AList.lookup_insert, AList.insert_insert,
    Except.toOption]

theorem openLower_error (hfile : s.infos.lookup file = none) {err : CInt} (herr : err ≠ 0) :
    let K := kernel unhashed true (.error err)
    openLower K file inode (K.allocFileInfo file s).2 = (err, s) := by
  simp [openLower, kernel, Kernel.inert, AList.lookup_insert, Except.toOption,
    Table.erase_insert, Table.erase_of_lookup hfile]
  exact herr

theorem opened_zero (s : OpenFiles) : s.opened file 0 = s := if_pos rfl

theorem opened_of_error (hfile : s.infos.lookup file = none) (ret : CInt) :
    s.opened file ret = s := by
  unfold opened
  split
  · rfl
  · rw [Table.erase_of_lookup hfile]

def leaked (s : OpenFiles) (lowerFile : Ptr) : OpenFiles :=
  { s with held := s.held + ref lowerFile, allocated := s.allocated + 1 }

theorem opened_linked (hfile : s.infos.lookup file = none) (lowerFile : Ptr) :
    (s.linked file lowerFile).opened file (-ENOMEM) = s.leaked lowerFile := by
  have hne : ¬ -ENOMEM = 0 := by decide
  rw [opened, if_neg hne, linked, leaked, Table.erase_insert, Table.erase_of_lookup hfile]

inductive Opens (s : OpenFiles) (file : Ptr) : Except CInt Ptr → Option Tracing → OpenFiles → Prop
  | linked {lowerFile : Ptr} {T : Option Tracing} (hne : lowerFile ≠ NULL)
      (hT : ∀ T' ∈ T, T'.pathAlloc = true) :
      Opens s file (.ok lowerFile) T (s.linked file lowerFile)
  | refused {answer : Except CInt Ptr} {T : Option Tracing}
      (hT : ∀ p, answer = .ok p → T = none) : Opens s file answer T s
  | leaked {lowerFile : Ptr} {T : Tracing} (hne : lowerFile ≠ NULL) (hT : T.pathAlloc = false) :
      Opens s file (.ok lowerFile) (some T) (s.leaked lowerFile)

theorem Opens.of_wrapfs (hfile : s.infos.lookup file = none) (hanswer : Answers answer)
    {out : CInt × OpenFiles} (hout : wrapfsOpen (kernel unhashed mem answer) file inode s = out) :
    Opens s file answer none (out.2.opened file out.1) := by
  rw [← hout]
  unfold wrapfsOpen
  split
  · rw [opened_of_error hfile]
    exact .refused fun _ _ => rfl
  rw [kernel_alloc]
  cases mem with
  | false =>
    change Opens s file answer none (s.opened file (-ENOMEM))
    rw [opened_of_error hfile]
    exact .refused fun _ _ => rfl
  | true =>
    rw [if_neg Bool.true_eq_false.mp]
    cases answer with
    | ok lowerFile =>
      rw [openLower_ok]
      change Opens s file _ _ ((s.linked file lowerFile).opened file 0)
      rw [opened_zero]
      exact .linked hanswer fun T' hT' => absurd hT' (Option.not_mem_none T')
    | error err =>
      rw [openLower_error hfile hanswer, opened_of_error hfile]
      exact .refused nofun

theorem Opens.of_trfs {T : Tracing} {x : Exit OpenFiles} (hfile : s.infos.lookup file = none)
    (hanswer : Answers answer)
    (hx : trfsOpen (kernel unhashed mem answer) T file inode s = .ok x) :
    Opens s file answer (some T) (x.state.opened file x.ret) := by
  obtain ⟨⟨-, hmem⟩, hstate, p, path, -, hret, -⟩ := trfsOpen_cases hx
  rw [kernel_alloc] at hmem
  cases mem with
  | false => exact absurd rfl hmem
  | true =>
    rw [hstate]
    cases answer with
    | ok lowerFile =>
      rw [openLower_ok] at hret ⊢
      obtain ⟨hT, -, hret⟩ | ⟨hT, -, hret⟩ := hret
      · change x.ret = 0 at hret
        rw [hret, opened_zero]
        refine .linked hanswer ?_
        rintro T' ⟨⟩
        exact hT
      · rw [hret, opened_linked hfile]
        exact .leaked hanswer hT
    | error err =>
      rw [openLower_error hfile hanswer, opened_of_error hfile]
      exact .refused nofun

end Open

theorem release_eq {d : FileInfo} (hd : s.infos.lookup file = some d) :
    trfsFileRelease (kernel false true (.error 0)) file s =
      { s with
        infos := s.infos.erase file
        held := s.held - ref d.lowerFile
        allocated := s.allocated - 1 } := by
  by_cases hnull : d.lowerFile = NULL
  · simp [trfsFileRelease, kernel, hd, hnull, ref]
  · simp [trfsFileRelease, kernel, hd, hnull, Table.erase_insert]

inductive Next (s : OpenFiles) : Label → OpenFiles → Prop
  | opens {inode file : Ptr} {unhashed mem : Bool} {answer : Except CInt Ptr} {T : Option Tracing}
      {s' : OpenFiles} (hfile : s.infos.lookup file = none) (h : Opens s file answer T s') :
      s.Next (.opens inode file unhashed mem answer T) s'
  | uses {file : Ptr} {d : FileInfo} (hd : s.infos.lookup file = some d) : s.Next (.uses file) s
  | iterBegins {file iocb : Ptr} {d : FileInfo} (hd : s.infos.lookup file = some d)
      (hiocb : s.iocbs.lookup iocb = none) :
      s.Next (.iterBegins file iocb)
        { s with
          iocbs := s.iocbs.insert iocb ⟨file, d.lowerFile⟩
          held := s.held + ref d.lowerFile }
  | iterEnds {iocb : Ptr} {e : Iocb} (he : s.iocbs.lookup iocb = some e) :
      s.Next (.iterEnds iocb)
        { s with iocbs := s.iocbs.erase iocb, held := s.held - ref e.lowerFile }
  | maps {file vma : Ptr} {d : FileInfo} (hd : s.infos.lookup file = some d)
      (hvma : s.vmas.lookup vma = none) :
      s.Next (.maps file vma)
        { s with vmas :=
            s.vmas.insert vma ⟨file, if d.lowerVmOps = NULL then .asking else .answered NULL⟩ }
  | mapFails {file vma : Ptr} {err : CInt} {vmOps : Ptr} (herr : err ≠ 0)
      (hvma : s.vmas.lookup vma = some ⟨file, .asking⟩) :
      s.Next (.lowerMaps vma err vmOps) { s with vmas := s.vmas.erase vma }
  | lowerMaps {file vma vmOps : Ptr} (hvma : s.vmas.lookup vma = some ⟨file, .asking⟩) :
      s.Next (.lowerMaps vma 0 vmOps)
        { s with vmas := s.vmas.insert vma ⟨file, .answered vmOps⟩ }
  | finishes {file vma saved : Ptr} {d : FileInfo}
      (hvma : s.vmas.lookup vma = some ⟨file, .answered saved⟩)
      (hd : s.infos.lookup file = some d) :
      s.Next (.finishes vma)
        { s with
          vmas := s.vmas.insert vma ⟨file, .mapped⟩
          infos :=
            if d.lowerVmOps = NULL then s.infos.insert file { d with lowerVmOps := saved }
            else s.infos }
  | faults {file vma : Ptr} (hvma : s.vmas.lookup vma = some ⟨file, .mapped⟩) :
      s.Next (.faults vma) s
  | unmaps {file vma : Ptr} (hvma : s.vmas.lookup vma = some ⟨file, .mapped⟩) :
      s.Next (.unmaps vma) { s with vmas := s.vmas.erase vma }
  | releases {file : Ptr} {d : FileInfo} (hd : s.infos.lookup file = some d)
      (hunused : s.Unused file) :
      s.Next (.releases file)
        { s with
          infos := s.infos.erase file
          held := s.held - ref d.lowerFile
          allocated := s.allocated - 1 }

theorem Next.of_step {l : Label} (h : s.step l = some s') : s.Next l s' := by
  cases l with
  | opens inode file unhashed mem answer T =>
    obtain ⟨⟨hfile, hanswer⟩, h⟩ := Option.ite_none_right_eq_some.mp h
    have hfile := AList.lookup_eq_none.mpr hfile
    cases T with
    | none =>
      cases h
      exact .opens hfile (.of_wrapfs hfile hanswer rfl)
    | some T =>
      dsimp only at h
      cases hx : trfsOpen (kernel unhashed mem answer) T file inode s with
      | error f =>
        rw [hx] at h
        cases h
      | ok x =>
        rw [hx] at h
        cases h
        exact .opens hfile (.of_trfs hfile hanswer hx)
  | uses file =>
    obtain ⟨hfile, ⟨⟩⟩ := Option.ite_none_right_eq_some.mp h
    obtain ⟨d, hd⟩ := Option.isSome_iff_exists.mp (AList.lookup_isSome.mpr hfile)
    exact .uses hd
  | iterBegins file iocb =>
    simp only [step] at h
    split at h
    case h_1 d hd =>
      obtain ⟨hiocb, ⟨⟩⟩ := Option.ite_none_right_eq_some.mp h
      exact .iterBegins hd (AList.lookup_eq_none.mpr hiocb)
    case h_2 => cases h
  | iterEnds iocb =>
    simp only [step] at h
    split at h
    case h_1 e he =>
      cases h
      exact .iterEnds he
    case h_2 => cases h
  | maps file vma =>
    simp only [step] at h
    split at h
    case h_1 d hd =>
      obtain ⟨hvma, ⟨⟩⟩ := Option.ite_none_right_eq_some.mp h
      exact .maps hd (AList.lookup_eq_none.mpr hvma)
    case h_2 => cases h
  | lowerMaps vma err vmOps =>
    simp only [step] at h
    split at h
    case h_1 file hvma =>
      split at h
      case isTrue herr =>
        cases h
        exact .mapFails herr hvma
      case isFalse herr =>
        cases h
        obtain rfl := not_not.mp herr
        exact .lowerMaps hvma
    case h_2 => cases h
  | finishes vma =>
    simp only [step] at h
    split at h
    case h_1 file saved hvma =>
      obtain ⟨d, hd, rfl⟩ := Option.map_eq_some_iff.mp h
      exact .finishes hvma hd
    case h_2 => cases h
  | faults vma =>
    simp only [step] at h
    split at h
    case h_1 file hvma =>
      cases h
      exact .faults hvma
    case h_2 => cases h
  | unmaps vma =>
    simp only [step] at h
    split at h
    case h_1 file hvma =>
      cases h
      exact .unmaps hvma
    case h_2 => cases h
  | releases file =>
    obtain ⟨⟨hfile, hunused⟩, ⟨⟩⟩ := Option.ite_none_right_eq_some.mp h
    obtain ⟨d, hd⟩ := Option.isSome_iff_exists.mp (AList.lookup_isSome.mpr hfile)
    rw [release_eq hd]
    exact .releases hd hunused

section Lost

def refs (s : OpenFiles) : Ptr → ℤ :=
  Table.total (fun _ d => ref d.lowerFile) s.infos + Table.total (fun _ e => ref e.lowerFile) s.iocbs

def lost (s : OpenFiles) : (Ptr → ℤ) × ℤ :=
  (s.held - s.refs, s.allocated - Table.total (fun _ _ => 1) s.infos)

/-- What a traced open loses when its lower file was opened and there is no memory for the path. -/
def Label.loses : Label → (Ptr → ℤ) × ℤ
  | .opens _ _ _ _ (.ok lowerFile) (some T) => if T.pathAlloc then 0 else (ref lowerFile, 1)
  | _ => 0

theorem lost_opens {inode : Ptr} {unhashed mem : Bool} {answer : Except CInt Ptr}
    {T : Option Tracing} (hfile : s.infos.lookup file = none) (h : Opens s file answer T s') :
    s'.lost = s.lost + (Label.opens inode file unhashed mem answer T).loses := by
  cases h with
  | @linked lowerFile _ hne hT =>
    have hloses : (Label.opens inode file unhashed mem (.ok lowerFile) T).loses = 0 := by
      cases T with
      | none => rfl
      | some T => exact if_pos (hT T rfl)
    rw [hloses, add_zero]
    simp only [lost, refs, linked, Table.total_insert_of_none _ hfile]
    rw [add_right_comm _ (ref lowerFile), add_sub_add_right_eq_sub, add_sub_add_right_eq_sub]
  | refused hT =>
    have hloses : (Label.opens inode file unhashed mem answer T).loses = 0 := by
      cases answer with
      | error err => rfl
      | ok p =>
        rw [hT p rfl]
        rfl
    rw [hloses, add_zero]
  | @leaked lowerFile T hne hT =>
    simp only [lost, refs, leaked, Label.loses, hT, Bool.false_eq_true, if_false, Prod.mk_add_mk,
      sub_add_eq_add_sub]

theorem Next.lost {l : Label} (hs : s.Next l s') : s'.lost = s.lost + l.loses := by
  cases hs with
  | opens hfile hopens => exact lost_opens hfile hopens
  | uses hd | faults hvma | unmaps hvma | maps hd hvma | mapFails herr hvma | lowerMaps hvma =>
    exact (add_zero s.lost).symm
  | iterBegins hd hiocb =>
    refine Eq.trans ?_ (add_zero _).symm
    simp only [OpenFiles.lost, refs, Table.total_insert_of_none _ hiocb]
    rw [← add_assoc, add_sub_add_right_eq_sub]
  | iterEnds he =>
    refine Eq.trans ?_ (add_zero _).symm
    simp only [OpenFiles.lost, refs, Table.total_erase_of_some _ he]
    rw [← add_sub_assoc, sub_sub_sub_cancel_right]
  | finishes hvma hd =>
    refine Eq.trans ?_ (add_zero _).symm
    simp only [OpenFiles.lost, refs]
    split
    · rw [Table.total_insert_of_some _ hd, sub_add_cancel, Table.total_insert_of_some _ hd,
        sub_add_cancel]
    · rfl
  | releases hd hunused =>
    refine Eq.trans ?_ (add_zero _).symm
    simp only [OpenFiles.lost, refs, Table.total_erase_of_some _ hd]
    rw [sub_add_eq_add_sub, sub_sub_sub_cancel_right, sub_sub_sub_cancel_right]

theorem lost_eq_sum (labels : List Label) (s : OpenFiles) (h : run step start labels = some s) :
    s.lost = (labels.map Label.loses).sum := by
  have hsum := run_sum lost Label.loses (fun s l s' hstep => (Next.of_step hstep).lost) h
  rw [hsum]
  exact zero_add _

def pathRefused : List Label :=
  [.opens 1 2 false true (.ok 3) (some .plenty),
    .opens 1 4 false true (.ok 5) (some { Tracing.plenty with pathAlloc := false }), .releases 2]

theorem lost_eq_sum_pathRefused :
    ∃ s, run step start pathRefused = some s ∧ s.lost = (pathRefused.map Label.loses).sum := by
  obtain ⟨s, hs⟩ : ∃ s, run step start pathRefused = some s :=
    Option.isSome_iff_exists.mp (by decide +kernel)
  exact ⟨s, hs, lost_eq_sum pathRefused s hs⟩

end Lost

section Sound

structure Sound (s : OpenFiles) : Prop where
  opened : ∀ file d, s.infos.lookup file = some d → d.lowerFile ≠ NULL
  mapping : ∀ vma v, s.vmas.lookup vma = some v → ∃ d, s.infos.lookup v.file = some d
  calling : ∀ iocb e, s.iocbs.lookup iocb = some e →
    ∃ d, s.infos.lookup e.file = some d ∧ d.lowerFile = e.lowerFile
  held : 0 ≤ s.lost.1

theorem ref_nonneg (lowerFile : Ptr) : 0 ≤ ref lowerFile := by
  unfold ref
  split
  · exact le_rfl
  · exact Pi.single_nonneg.mpr zero_le_one

theorem loses_nonneg (l : Label) : 0 ≤ l.loses.1 := by
  unfold Label.loses
  split
  · split
    · exact le_rfl
    · exact ref_nonneg _
  · exact le_rfl

theorem Unused.mapping (h : s.Unused file) {vma : Ptr} {v : Vma}
    (hv : s.vmas.lookup vma = some v) : v.file ≠ file :=
  h.1 ⟨vma, v⟩ (AList.mem_lookup_iff.mp hv)

theorem Unused.calling (h : s.Unused file) {iocb : Ptr} {e : Iocb}
    (he : s.iocbs.lookup iocb = some e) : e.file ≠ file :=
  h.2 ⟨iocb, e⟩ (AList.mem_lookup_iff.mp he)

theorem Sound.insert_infos (h : s.Sound) {file : Ptr} {d : FileInfo} (hne : d.lowerFile ≠ NULL)
    (hsame : ∀ d', s.infos.lookup file = some d' → d'.lowerFile = d.lowerFile) :
    let t := s.infos.insert file d
    (∀ f d', t.lookup f = some d' → d'.lowerFile ≠ NULL) ∧
      (∀ f d', s.infos.lookup f = some d' →
        ∃ d'', t.lookup f = some d'' ∧ d''.lowerFile = d'.lowerFile) := by
  intro t
  refine ⟨Table.forall_insert h.opened hne, ?_⟩
  intro f d' hd'
  by_cases hf : f = file
  · rw [hf] at hd' ⊢
    exact ⟨d, AList.lookup_insert _, (hsame d' hd').symm⟩
  · exact ⟨d', Table.lookup_insert_eq_some.mpr (.inr ⟨hf, hd'⟩), rfl⟩

theorem Sound.of_kept
    (hopened : ∀ f d, s'.infos.lookup f = some d → d.lowerFile ≠ NULL)
    (hkept : ∀ f d, s.infos.lookup f = some d →
      ∃ d', s'.infos.lookup f = some d' ∧ d'.lowerFile = d.lowerFile)
    (hvmas : ∀ vma v, s'.vmas.lookup vma = some v → ∃ d, s.infos.lookup v.file = some d)
    (hiocbs : ∀ iocb e, s'.iocbs.lookup iocb = some e →
      ∃ d, s.infos.lookup e.file = some d ∧ d.lowerFile = e.lowerFile)
    (hheld : 0 ≤ s'.lost.1) : s'.Sound where
  opened := hopened
  mapping vma v hv := by
    obtain ⟨d, hd⟩ := hvmas vma v hv
    obtain ⟨d', hd', -⟩ := hkept v.file d hd
    exact ⟨d', hd'⟩
  calling iocb e he := by
    obtain ⟨d, hd, hlower⟩ := hiocbs iocb e he
    obtain ⟨d', hd', hsame⟩ := hkept e.file d hd
    exact ⟨d', hd', hsame.trans hlower⟩
  held := hheld

theorem Next.sound {l : Label} (hs : s.Next l s') (h : s.Sound) : s'.Sound := by
  have hheld : 0 ≤ s'.lost.1 := by
    rw [hs.lost]
    exact add_nonneg h.held (loses_nonneg l)
  have hsame : ∀ f d, s.infos.lookup f = some d →
      ∃ d', s.infos.lookup f = some d' ∧ d'.lowerFile = d.lowerFile := fun f d hd => ⟨d, hd, rfl⟩
  cases hs with
  | opens hfile hopens =>
    cases hopens with
    | linked hne hT =>
      have hnew := h.insert_infos (d := ⟨_, NULL⟩) hne fun d' hd' =>
        absurd (hfile.symm.trans hd') (by simp)
      exact Sound.of_kept hnew.1 hnew.2 h.mapping h.calling hheld
    | refused hT => exact h
    | leaked hne hT => exact Sound.of_kept h.opened hsame h.mapping h.calling hheld
  | uses hd | faults hvma => exact h
  | iterBegins hd hiocb =>
    exact Sound.of_kept h.opened hsame h.mapping
      (Table.forall_insert h.calling ⟨_, hd, rfl⟩) hheld
  | iterEnds he =>
    exact Sound.of_kept h.opened hsame h.mapping (Table.forall_erase h.calling) hheld
  | maps hd hvma =>
    exact Sound.of_kept h.opened hsame (Table.forall_insert h.mapping ⟨_, hd⟩) h.calling hheld
  | mapFails herr hvma =>
    exact Sound.of_kept h.opened hsame (Table.forall_erase h.mapping) h.calling hheld
  | lowerMaps hvma =>
    obtain ⟨d, hd⟩ := h.mapping _ _ hvma
    exact Sound.of_kept h.opened hsame (Table.forall_insert h.mapping ⟨d, hd⟩) h.calling hheld
  | @finishes file vma saved d hvma hd =>
    have hvmas := Table.forall_insert (k := vma) h.mapping (x := ⟨file, .mapped⟩) ⟨d, hd⟩
    have hnew := h.insert_infos (d := { d with lowerVmOps := saved }) (h.opened file d hd)
      fun d' hd' => by
        cases hd'.symm.trans hd
        rfl
    refine Sound.of_kept ?_ ?_ hvmas h.calling hheld
    · change ∀ f d', (ite _ _ _ : Table Ptr FileInfo).lookup f = some d' → _
      split
      · exact hnew.1
      · exact h.opened
    · change ∀ f d', s.infos.lookup f = some d' →
        ∃ d'', (ite _ _ _ : Table Ptr FileInfo).lookup f = some d'' ∧ _
      split
      · exact hnew.2
      · exact hsame
  | unmaps hvma =>
    exact Sound.of_kept h.opened hsame (Table.forall_erase h.mapping) h.calling hheld
  | releases hd hunused =>
    refine ⟨Table.forall_erase h.opened, ?_, ?_, hheld⟩
    · intro vma v hv
      obtain ⟨d, hd⟩ := h.mapping vma v hv
      exact ⟨d, Table.lookup_erase_eq_some.mpr ⟨hunused.mapping hv, hd⟩⟩
    · intro iocb e he
      obtain ⟨d, hd, hlower⟩ := h.calling iocb e he
      exact ⟨d, Table.lookup_erase_eq_some.mpr ⟨hunused.calling he, hd⟩, hlower⟩

theorem Sound.of_run {labels : List Label} (h : run step start labels = some s) : s.Sound := by
  refine run_invariant Sound (fun s l s' hs hstep => (Next.of_step hstep).sound hs) ?_ h
  exact ⟨nofun, nofun, nofun, le_rfl⟩

theorem Sound.pos (h : s.Sound) {d : FileInfo} (hd : s.infos.lookup file = some d) :
    d.lowerFile ≠ NULL ∧ 0 < s.held d.lowerFile := by
  have hne := h.opened file d hd
  refine ⟨hne, ?_⟩
  have hfile : ref d.lowerFile ≤ Table.total (fun _ d => ref d.lowerFile) s.infos :=
    Table.le_total (fun _ d => ref d.lowerFile) (fun _ _ => ref_nonneg _) hd
  have hcalls : 0 ≤ Table.total (fun _ e => ref e.lowerFile) s.iocbs :=
    Table.total_nonneg (fun _ (e : Iocb) => ref e.lowerFile) fun _ _ => ref_nonneg _
  have hrefs : ref d.lowerFile ≤ s.held :=
    (hfile.trans (le_add_of_nonneg_right hcalls)).trans (sub_nonneg.mp h.held)
  have hone : ref d.lowerFile d.lowerFile = 1 := by
    rw [ref, if_neg hne, Pi.single_eq_same]
  exact lt_of_lt_of_le (hone ▸ zero_lt_one) (hrefs d.lowerFile)

def handed (s : OpenFiles) : Label → Option Ptr
  | .uses file | .iterBegins file _ | .releases file =>
    (s.infos.lookup file).map FileInfo.lowerFile
  | .iterEnds iocb => (s.iocbs.lookup iocb).map Iocb.lowerFile
  | .lowerMaps vma _ _ | .faults vma =>
    (s.vmas.lookup vma).bind fun v => (s.infos.lookup v.file).map FileInfo.lowerFile
  | .opens .. | .maps .. | .finishes .. | .unmaps .. => none

theorem handed_held (labels : List Label) (l : Label) (s : OpenFiles)
    (h : run step start (labels ++ [l]) = some s) :
    ∃ t, run step start labels = some t ∧ ∀ p ∈ t.handed l, p ≠ NULL ∧ 0 < t.held p := by
  obtain ⟨t, ht, -⟩ := run_concat_eq_some.mp h
  have hsound := Sound.of_run ht
  refine ⟨t, ht, ?_⟩
  intro p hp
  have hfile : ∀ file, p ∈ (t.infos.lookup file).map FileInfo.lowerFile →
      p ≠ NULL ∧ 0 < t.held p := by
    intro file hp
    obtain ⟨d, hd, rfl⟩ := Option.map_eq_some_iff.mp hp
    exact hsound.pos hd
  have hvma : ∀ vma, p ∈ ((t.vmas.lookup vma).bind fun v =>
      (t.infos.lookup v.file).map FileInfo.lowerFile) → p ≠ NULL ∧ 0 < t.held p := by
    intro vma hp
    obtain ⟨v, -, hp⟩ := Option.bind_eq_some_iff.mp hp
    exact hfile v.file hp
  cases l with
  | uses file | iterBegins file _ | releases file => exact hfile file hp
  | lowerMaps vma _ _ | faults vma => exact hvma vma hp
  | iterEnds iocb =>
    obtain ⟨e, he, rfl⟩ := Option.map_eq_some_iff.mp hp
    obtain ⟨d, hd, hlower⟩ := hsound.calling iocb e he
    rw [← hlower]
    exact hsound.pos hd
  | opens | maps | finishes | unmaps => cases hp

theorem handed_held_pathRefused :
    ∃ t, run step start pathRefused.dropLast = some t ∧
      ∀ p ∈ t.handed (.releases 2), p ≠ NULL ∧ 0 < t.held p := by
  obtain ⟨s, hs⟩ : ∃ s, run step start (pathRefused.dropLast ++ [.releases 2]) = some s :=
    Option.isSome_iff_exists.mp (by decide +kernel)
  exact handed_held pathRefused.dropLast (.releases 2) s hs

end Sound

section Faultable

def Faultable (s : OpenFiles) : Prop :=
  ∀ vma v, s.vmas.lookup vma = some v → v.phase = .mapped →
    ∃ d, s.infos.lookup v.file = some d ∧ d.lowerVmOps ≠ NULL

/-- When `trfs_mmap` returns, its lower `mmap` or that of an earlier call for the same open file
has left `vm_ops`. -/
def SavesVmOps (s : OpenFiles) : Label → Prop
  | .finishes vma => ∀ file saved d, s.vmas.lookup vma = some ⟨file, .answered saved⟩ →
      s.infos.lookup file = some d → d.lowerVmOps = NULL → saved ≠ NULL
  | _ => True

theorem Faultable.insert_vma (h : s.Faultable) {vma : Ptr} {v : Vma} (hv : v.phase ≠ .mapped) :
    Faultable { s with vmas := s.vmas.insert vma v } := by
  intro vma' v' hv' hmapped
  rcases Table.lookup_insert_eq_some.mp hv' with ⟨-, rfl⟩ | ⟨-, hv'⟩
  · exact absurd hmapped hv
  · exact h vma' v' hv' hmapped

theorem Faultable.erase_vma (h : s.Faultable) (vma : Ptr) :
    Faultable { s with vmas := s.vmas.erase vma } :=
  fun vma' v' hv' => h vma' v' (Table.lookup_erase_eq_some.mp hv').2

theorem Next.faultable {l : Label} (hs : s.Next l s') (h : s.Faultable) :
    s'.Faultable ↔ s.SavesVmOps l := by
  cases hs with
  | opens hfile hopens =>
    refine iff_of_true ?_ trivial
    cases hopens with
    | linked hne hT =>
      intro vma v hv hmapped
      obtain ⟨d, hd, hops⟩ := h vma v hv hmapped
      refine ⟨d, Table.lookup_insert_eq_some.mpr (.inr ⟨?_, hd⟩), hops⟩
      rintro rfl
      cases hfile.symm.trans hd
    | refused hT => exact h
    | leaked hne hT => exact h
  | uses hd | faults hvma | iterBegins hd hiocb | iterEnds he => exact iff_of_true h trivial
  | maps hd hvma =>
    refine iff_of_true (h.insert_vma ?_) trivial
    simp only
    split <;> exact nofun
  | mapFails herr hvma => exact iff_of_true (h.erase_vma _) trivial
  | lowerMaps hvma => exact iff_of_true (h.insert_vma nofun) trivial
  | unmaps hvma => exact iff_of_true (h.erase_vma _) trivial
  | releases hd hunused =>
    refine iff_of_true ?_ trivial
    intro vma v hv hmapped
    obtain ⟨d, hd, hops⟩ := h vma v hv hmapped
    exact ⟨d, Table.lookup_erase_eq_some.mpr ⟨hunused.mapping hv, hd⟩, hops⟩
  | @finishes file vma saved d hvma hd =>
    constructor
    · intro h' file' saved' d' hvma' hd' hnull
      cases hvma.symm.trans hvma'
      cases hd.symm.trans hd'
      obtain ⟨d'', hd'', hops⟩ := h' vma _ (AList.lookup_insert _) rfl
      rw [if_pos hnull, AList.lookup_insert] at hd''
      cases hd''
      exact hops
    · intro hsaves
      have hsaved := hsaves file saved d hvma hd
      -- each file keeps its `vm_ops`, and this one has some now
      have hkept : ∀ f d', s.infos.lookup f = some d' → (d'.lowerVmOps ≠ NULL ∨ f = file) →
          ∃ d'', (if d.lowerVmOps = NULL then s.infos.insert file { d with lowerVmOps := saved }
            else s.infos).lookup f = some d'' ∧ d''.lowerVmOps ≠ NULL := by
        intro f d' hd' hops
        split
        next hnull =>
          by_cases hf : f = file
          · rw [hf]
            exact ⟨_, AList.lookup_insert _, hsaved hnull⟩
          · exact ⟨d', Table.lookup_insert_eq_some.mpr (.inr ⟨hf, hd'⟩), hops.resolve_right hf⟩
        next hsome =>
          refine ⟨d', hd', ?_⟩
          rcases hops with hops | rfl
          · exact hops
          · cases hd.symm.trans hd'
            exact hsome
      intro vma' v' hv' hmapped
      rcases Table.lookup_insert_eq_some.mp hv' with ⟨-, rfl⟩ | ⟨-, hv'⟩
      · exact hkept file d hd (.inr rfl)
      · obtain ⟨d', hd', hops⟩ := h vma' v' hv' hmapped
        exact hkept v'.file d' hd' (.inl hops)

theorem faultable_iff (labels : List Label) (s : OpenFiles)
    (h : run step start labels = some s) :
    (∀ pre post t, labels = pre ++ post → run step start pre = some t → t.Faultable) ↔
      Along SavesVmOps step start labels := by
  refine run_holds_iff_along Faultable (fun _ h => h) ?_ (fun _ _ hv => nomatch hv) h
  intro s l s' hs hstep
  have hiff := (Next.of_step hstep).faultable hs
  exact ⟨hiff.mpr, hiff.mp⟩

def twoMappings : List Label :=
  [.opens 1 2 false true (.ok 3) none, .maps 2 7, .maps 2 8, .lowerMaps 7 0 9, .lowerMaps 8 0 NULL,
    .finishes 7, .finishes 8, .faults 8]

theorem faultable_iff_twoMappings :
    (∀ pre post t, twoMappings = pre ++ post → run step start pre = some t → t.Faultable) ↔
      Along SavesVmOps step start twoMappings := by
  obtain ⟨s, hs⟩ : ∃ s, run step start twoMappings = some s :=
    Option.isSome_iff_exists.mp (by decide +kernel)
  exact faultable_iff twoMappings s hs

end Faultable

section Served

def Given (labels : List Label) (file lowerFile vmOps : Ptr) : Prop :=
  ∃ pre post vma t d, labels = pre ++ .lowerMaps vma 0 vmOps :: post ∧
    (∀ l ∈ post, l ≠ .releases file) ∧ run step start pre = some t ∧
    t.vmas.lookup vma = some ⟨file, .asking⟩ ∧ t.infos.lookup file = some d ∧
    d.lowerFile = lowerFile

theorem Given.append {labels : List Label} {lowerFile vmOps : Ptr} {l : Label}
    (h : Given labels file lowerFile vmOps) (hl : l ≠ .releases file) :
    Given (labels ++ [l]) file lowerFile vmOps := by
  obtain ⟨pre, post, vma, t, d, rfl, hpost, ht, hvma, hd, hlower⟩ := h
  refine ⟨pre, post ++ [l], vma, t, d, ?_, ?_, ht, hvma, hd, hlower⟩
  · rw [List.append_assoc, List.cons_append]
  · intro l' hl'
    rcases List.mem_append.mp hl' with hl' | hl'
    · exact hpost l' hl'
    · exact List.mem_singleton.mp hl' ▸ hl

structure AllGiven (labels : List Label) (s : OpenFiles) : Prop where
  saved : ∀ file d, s.infos.lookup file = some d → d.lowerVmOps ≠ NULL →
    Given labels file d.lowerFile d.lowerVmOps
  saving : ∀ vma file vmOps d, s.vmas.lookup vma = some ⟨file, .answered vmOps⟩ → vmOps ≠ NULL →
    s.infos.lookup file = some d → Given labels file d.lowerFile vmOps

theorem AllGiven.of_vmas {labels : List Label} {l : Label} (h : AllGiven labels s)
    (hinfos : s'.infos = s.infos) (hl : ∀ file, l ≠ .releases file)
    (hvmas : ∀ vma file vmOps, s'.vmas.lookup vma = some ⟨file, .answered vmOps⟩ →
      vmOps ≠ NULL → s.vmas.lookup vma = some ⟨file, .answered vmOps⟩) :
    AllGiven (labels ++ [l]) s' where
  saved file d hd hne := (h.saved file d (hinfos ▸ hd) hne).append (hl file)
  saving vma file vmOps d hv hne hd :=
    (h.saving vma file vmOps d (hvmas vma file vmOps hv hne) hne (hinfos ▸ hd)).append (hl file)

theorem Next.allGiven {labels : List Label} {l : Label} (hs : s.Next l s')
    (ht : run step start labels = some s) (h : AllGiven labels s) :
    AllGiven (labels ++ [l]) s' := by
  have hsound := Sound.of_run ht
  cases hs with
  | @opens inode file unhashed mem answer T _ hfile hopens =>
    cases hopens with
    | refused hT => exact h.of_vmas rfl nofun fun _ _ _ hv _ => hv
    | leaked hne hT => exact h.of_vmas rfl nofun fun _ _ _ hv _ => hv
    | linked hne hT =>
      constructor
      · intro file' d hd hops
        rcases Table.lookup_insert_eq_some.mp hd with ⟨-, rfl⟩ | ⟨-, hd⟩
        · exact absurd rfl hops
        · exact (h.saved file' d hd hops).append nofun
      · intro vma file' vmOps d hv hops hd
        rcases Table.lookup_insert_eq_some.mp hd with ⟨rfl, -⟩ | ⟨-, hd⟩
        · obtain ⟨d', hd'⟩ := hsound.mapping vma _ hv
          cases hfile.symm.trans hd'
        · exact (h.saving vma file' vmOps d hv hops hd).append nofun
  | uses hd | faults hvma | iterBegins hd hiocb | iterEnds he =>
    exact h.of_vmas rfl nofun fun _ _ _ hv _ => hv
  | mapFails herr hvma | unmaps hvma =>
    exact h.of_vmas rfl nofun fun _ _ _ hv _ => (Table.lookup_erase_eq_some.mp hv).2
  | @maps file vma d hd hvma =>
    refine h.of_vmas rfl nofun ?_
    intro vma' file' vmOps hv hne
    rcases Table.lookup_insert_eq_some.mp hv with ⟨-, hv⟩ | ⟨-, hv⟩
    · -- where `vm_ops` are there already, NULL stands for the answer
      split at hv
      · cases hv
      · cases hv
        exact absurd rfl hne
    · exact hv
  | @lowerMaps file vma vmOps hvma =>
    constructor
    · exact fun file' d hd hops => (h.saved file' d hd hops).append nofun
    · intro vma' file' vmOps' d hv hops hd
      rcases Table.lookup_insert_eq_some.mp hv with ⟨-, hv⟩ | ⟨-, hv⟩
      · cases hv
        exact ⟨labels, [], vma, s, d, rfl, fun _ hl => (List.not_mem_nil hl).elim, ht, hvma, hd, rfl⟩
      · exact (h.saving vma' file' vmOps' d hv hops hd).append nofun
  | @finishes file vma saved d hvma hd =>
    -- an entry of the files afterwards, and what it was before
    have hinfos : ∀ file' d', (if d.lowerVmOps = NULL then
          s.infos.insert file { d with lowerVmOps := saved } else s.infos).lookup file' = some d' →
        (file' = file ∧ d' = { d with lowerVmOps := saved }) ∨ s.infos.lookup file' = some d' := by
      intro file' d' hd'
      split at hd'
      · exact (Table.lookup_insert_eq_some.mp hd').imp id And.right
      · exact .inr hd'
    constructor
    · intro file' d' hd' hops
      rcases hinfos file' d' hd' with ⟨rfl, rfl⟩ | hd'
      · exact (h.saving vma file' saved d hvma hops hd).append nofun
      · exact (h.saved file' d' hd' hops).append nofun
    · intro vma' file' vmOps d' hv hops hd'
      rcases Table.lookup_insert_eq_some.mp hv with ⟨-, hmapped⟩ | ⟨-, hold⟩
      · cases hmapped
      · rcases hinfos file' d' hd' with ⟨rfl, rfl⟩ | hd'
        · exact (h.saving vma' file' vmOps d hold hops hd).append nofun
        · exact (h.saving vma' file' vmOps d' hold hops hd').append nofun
  | @releases file d hd hunused =>
    constructor
    · intro file' d' hd' hops
      obtain ⟨hne, hd'⟩ := Table.lookup_erase_eq_some.mp hd'
      exact (h.saved file' d' hd' hops).append fun hl => hne (Label.releases.inj hl).symm
    · intro vma file' vmOps d' hv hops hd'
      obtain ⟨hne, hd'⟩ := Table.lookup_erase_eq_some.mp hd'
      exact (h.saving vma file' vmOps d' hv hops hd').append
        fun hl => hne (Label.releases.inj hl).symm

theorem AllGiven.of_run {labels : List Label} (h : run step start labels = some s) :
    AllGiven labels s := by
  induction labels using List.reverseRecOn generalizing s with
  | nil =>
    cases h
    exact ⟨nofun, nofun⟩
  | append_singleton labels l ih =>
    obtain ⟨t, ht, hl⟩ := run_concat_eq_some.mp h
    exact (Next.of_step hl).allGiven ht (ih ht)

theorem faults_served (labels : List Label) (vma : Ptr) (s : OpenFiles)
    (h : run step start (labels ++ [.faults vma]) = some s) :
    ∃ t file d, run step start labels = some t ∧ t.vmas.lookup vma = some ⟨file, .mapped⟩ ∧
      t.infos.lookup file = some d ∧
      (d.lowerVmOps = NULL ∨ Given labels file d.lowerFile d.lowerVmOps) := by
  obtain ⟨t, ht, hl⟩ := run_concat_eq_some.mp h
  cases Next.of_step hl with
  | @faults file _ hvma =>
    obtain ⟨d, hd⟩ := (Sound.of_run ht).mapping vma _ hvma
    refine ⟨_, file, d, ht, hvma, hd, ?_⟩
    by_cases hnull : d.lowerVmOps = NULL
    · exact .inl hnull
    · exact .inr ((AllGiven.of_run ht).saved file d hd hnull)

theorem faults_served_twoMappings :
    ∃ t file d, run step start twoMappings.dropLast = some t ∧
      t.vmas.lookup 8 = some ⟨file, .mapped⟩ ∧ t.infos.lookup file = some d ∧
      (d.lowerVmOps = NULL ∨ Given twoMappings.dropLast file d.lowerFile d.lowerVmOps) := by
  obtain ⟨s, hs⟩ : ∃ s, run step start (twoMappings.dropLast ++ [.faults 8]) = some s :=
    Option.isSome_iff_exists.mp (by decide +kernel)
  exact faults_served twoMappings.dropLast 8 s hs

end Served

end OpenFiles

end TraceFS.Trfs
