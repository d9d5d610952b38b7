import TraceFS.Trfs.Bounds
import TraceFS.Trfs.Recorded
import TraceFS.Trfs.Submits
import TraceFS.Trfs.Transparent

universe u

namespace TraceFS.Trfs

open TraceFS.Lib TraceFS.Linux TraceFS.Wrapfs

variable {σ : Type u} {K : Kernel σ} {T : Tracing} {P : PageSize}

abbrev DentryPath : Type := {bs : List Byte // 0 ∉ bs}

/-- The path fits into `tmp` with its NUL, or `-ENAMETOOLONG` comes back. -/
def DentryPath.inTmp (path : DentryPath) : Option TmpPath :=
  if h : path.val.length < 1024 then some ⟨path.val, path.property, h⟩ else none

def Tracing.withPaths (T : Tracing) (path : Ptr → DentryPath) : Tracing :=
  { T with dentryPathRaw := fun dentry => (path dentry).inTmp }

def Record.HasPaths (r : Record) : List DentryPath → Prop
  | [p] => r.path = some p.val ∧ r.pathLength.toNat = p.val.length
  | [p, q] =>
    (r.path = some p.val ∧ r.pathLength.toNat = p.val.length) ∧
      r.newPath = some q.val ∧ r.newPathLength.toNat = q.val.length
  | _ => False

def Captures (paths : List DentryPath) (w : CInt × σ) (x : Except OpFault (Exit σ)) : Prop :=
  ∃ e, x = .ok e ∧
    ((∃ sub, e.submitted = [sub] ∧ sub.record.HasPaths paths) ∨
      (e.submitted = [] ∧ (e.ret, e.state) = w))

def Call.Captured (K : Kernel σ) (T : Tracing) (P : PageSize) (path : Ptr → DentryPath) (s : σ)
    (c : Call) : Prop :=
  Captures ((c.dentries K).map path) (c.wrapfs K s) (c.trfs K (T.withPaths path) P s)

/-- `trfs_open` goes on to its record without the path that `kzalloc` refused. -/
def Call.LosesPath (T : Tracing) : Call → Prop
  | .open_ .. => T.pathAlloc = false
  | _ => False

theorem DentryPath.inTmp_eq_some {path : DentryPath} {p : TmpPath} (h : path.inTmp = some p) :
    path.val = p.chars := by
  obtain ⟨_, hp⟩ := Option.dite_none_right_eq_some.mp h
  cases hp
  rfl

theorem DentryPath.inTmp_isSome (path : DentryPath) :
    path.inTmp.isSome ↔ path.val.length < 1024 := by
  unfold inTmp
  split <;> simp [*]

theorem DentryPath.exact {path : DentryPath} {p : TmpPath} (h : path.inTmp = some p) :
    some p.chars = some path.val ∧ p.strlen.toNat = path.val.length := by
  rw [inTmp_eq_some h]
  exact ⟨rfl, p.strlen_toNat⟩

theorem Tracing.queued_one {r : Record} {buf : List Byte} (h : T.queued r buf ≠ []) :
    ∃ sub, T.queued r buf = [sub] := by
  unfold Tracing.queued at h ⊢
  cases hq : T.queueAlloc
  · rw [hq] at h
    exact absurd rfl h
  · exact ⟨_, rfl⟩

theorem tracePath_one {dentry : Ptr} {record : TmpPath → Record} {subs : List Submission}
    (h : tracePath T dentry record = .ok (.next subs)) (hne : subs ≠ []) :
    ∃ sub, subs = [sub] := by
  obtain ⟨p, -, rfl⟩ := tracePath_next h
  exact Tracing.queued_one hne

theorem tracePaths_one {oldDentry newDentry : Ptr} {record : TmpPath → TmpPath → Record}
    {subs : List Submission} (h : tracePaths T oldDentry newDentry record = .ok (.next subs))
    (hne : subs ≠ []) : ∃ sub, subs = [sub] := by
  obtain ⟨p, q, -, -, rfl⟩ := tracePaths_next h
  exact Tracing.queued_one hne

theorem Call.handsOver {c : Call} {s : σ} {e : Exit σ} (hpath : c.logType.HasPath)
    (hkeeps : ¬ c.LosesPath T) (he : c.trfs K T P s = .ok e) (hne : e.submitted ≠ []) :
    (∃ sub, e.submitted = [sub]) ∧ (e.ret, e.state) = c.wrapfs K s := by
  cases c with
  | read | write | close => exact hpath.elim
  | readdir file ctx =>
    simp only [Call.trfs, trfsReaddir] at he
    split at he
    · cases he
    split at he
    · cases he
    split at he <;> cases he
    · exact absurd rfl hne
    · refine ⟨⟨_, rfl⟩, ?_⟩
      simp only [Call.wrapfs, wrapfsReaddir]
      split <;> rfl
  | open_ inode file =>
    obtain ⟨⟨hunhashed, hinfo⟩, hstate, p, path, -, hpath, hsubmitted⟩ := trfsOpen_cases he
    obtain ⟨-, -, hret⟩ := hpath.resolve_right fun hlost => hkeeps hlost.1
    refine ⟨?_, ?_⟩
    · rw [hsubmitted] at hne ⊢
      exact Tracing.queued_one hne
    · simp only [Call.wrapfs, wrapfsOpen, if_neg hunhashed, if_neg hinfo]
      rw [hret, hstate]
  | mkdir dir dentry mode =>
    simp only [Call.trfs, trfsMkdir] at he
    split at he <;> cases he
    · exact absurd rfl hne
    · exact ⟨tracePath_one ‹_› hne, rfl⟩
  | unlink dir dentry =>
    simp only [Call.trfs, trfsUnlink] at he
    split at he <;> cases he
    · exact absurd rfl hne
    · exact ⟨tracePath_one ‹_› hne, rfl⟩
  | link oldDentry dir newDentry =>
    simp only [Call.trfs, trfsLink] at he
    split at he
    · cases he
      exact absurd rfl hne
    next hstop =>
      split at he <;> cases he
      · exact absurd rfl hne
      · refine ⟨tracePaths_one ‹_› hne, ?_⟩
        simp only [Call.wrapfs, wrapfsLink, if_neg hstop]
  | rename oldDir oldDentry newDir newDentry =>
    simp only [Call.trfs, trfsRename] at he
    split at he
    next =>
      cases he
      exact absurd rfl hne
    next htrap =>
      split at he <;> cases he
      · exact absurd rfl hne
      · refine ⟨tracePaths_one ‹_› hne, ?_⟩
        simp only [Call.wrapfs, wrapfsRename, htrap]
  | rmdir dir dentry =>
    simp only [Call.trfs, trfsRmdir] at he
    split at he
    · cases he
      exact absurd rfl hne
    next herr =>
      split at he <;> cases he
      · exact absurd rfl hne
      · refine ⟨tracePath_one ‹_› hne, ?_⟩
        simp only [Call.wrapfs, wrapfsRmdir, if_neg herr]

variable {path : Ptr → DentryPath} {c : Call} {s : σ}

theorem Call.Submits.hasPaths {e : Exit σ} {sub : Submission} (hpath : c.logType.HasPath)
    (hkeeps : ¬ c.LosesPath T) (h : c.Submits K (T.withPaths path) P e sub) :
    sub.record.HasPaths ((c.dentries K).map path) := by
  cases c with
  | read | write | close => exact hpath.elim
  | readdir file ctx =>
    obtain ⟨p, hp, rfl⟩ := h
    exact DentryPath.exact hp
  | open_ inode file =>
    obtain ⟨p, chars, hp, hchars, rfl⟩ := h
    obtain rfl := hchars.resolve_right fun hlost => hkeeps hlost.1
    exact DentryPath.exact hp
  | mkdir | unlink | rmdir =>
    obtain ⟨err, s', p, hp, rfl⟩ := h
    exact DentryPath.exact hp
  | link | rename =>
    obtain ⟨err, s', p, q, hp, hq, rfl⟩ := h
    exact ⟨DentryPath.exact hp, DentryPath.exact hq⟩

theorem Call.captured_iff_agrees (hpath : c.logType.HasPath) (hkeeps : ¬ c.LosesPath T) :
    c.Captured K T P path s ↔ Agrees (c.trfs K (T.withPaths path) P s) (c.wrapfs K s) := by
  have hkeeps' : ¬ c.LosesPath (T.withPaths path) := hkeeps
  constructor
  · rintro ⟨e, he, ⟨sub, hsub, -⟩ | ⟨-, hw⟩⟩
    · have hne : e.submitted ≠ [] := by rw [hsub]; exact List.cons_ne_nil _ _
      have hw := (Call.handsOver hpath hkeeps' he hne).2
      exact ⟨e.submitted, by rw [he, ← hw]⟩
    · exact ⟨e.submitted, by rw [he, ← hw]⟩
  · rintro ⟨submitted, he⟩
    refine ⟨_, he, ?_⟩
    by_cases hne : submitted = []
    · exact .inr ⟨hne, rfl⟩
    · obtain ⟨sub, hsub⟩ := (Call.handsOver hpath hkeeps' he hne).1
      have hsubmits := Call.submits he (hsub ▸ List.mem_singleton_self sub)
      exact .inl ⟨sub, hsub, hsubmits.hasPaths hpath hkeeps⟩

@[simp] theorem captures_error (paths : List DentryPath) (w : CInt × σ) (f : OpFault) :
    Captures paths w (.error f) ↔ False := by
  simp [Captures]

@[simp] theorem captures_ok (paths : List DentryPath) (w : CInt × σ) (e : Exit σ) :
    Captures paths w (.ok e) ↔
      (∃ sub, e.submitted = [sub] ∧ sub.record.HasPaths paths) ∨
        e.submitted = [] ∧ (e.ret, e.state) = w := by
  simp [Captures]

theorem trfsOpen_captured_of_loses {inode file : Ptr} (hlost : T.pathAlloc = false) :
    (Call.open_ inode file).Captured K T P path s ↔
      (Call.open_ inode file).Unaffected K (T.withPaths path) P s ∧ T.queueAlloc = false := by
  simp only [Call.Captured, Call.trfs, trfsOpen, Call.wrapfs, wrapfsOpen, Call.Unaffected,
    dentryPath, Tracing.withPaths, hlost, Call.dentries]
  generalize openLower K file inode (K.allocFileInfo file s).2 = opened
  have hcomm : -ENOMEM = opened.1 ↔ opened.1 = -ENOMEM := eq_comm
  cases K.dUnhashed s (K.fileDentry file)
  case true => simp
  cases (K.allocFileInfo file s).1
  · simp
  cases T.recordAlloc
  · simp
  cases (path (K.fileDentry file)).inTmp
  · simp
  cases T.workAlloc
  · simp [eworkqueueInit, Except.map]
  cases T.queueAlloc
  · simp [eworkqueueInit, Except.map, hcomm, Prod.ext_iff]
  · simp [eworkqueueInit, Except.map, Record.HasPaths, openRecord]

/-- An operation records its paths exactly, or completes as in WRAPFS without a record, exactly
when tracing leaves it alone: when every path that it gets to fits into `tmp` and there is memory
for its copy. -/
theorem captured_iff (K : Kernel σ) (T : Tracing) (P : PageSize) (path : Ptr → DentryPath)
    (c : Call) (s : σ) (hpath : c.logType.HasPath) :
    c.Captured K T P path s ↔
      c.Unaffected K (T.withPaths path) P s ∧ (c.LosesPath T → T.queueAlloc = false) := by
  cases c with
  | read | write | close => exact hpath.elim
  | open_ inode file =>
    by_cases hlost : T.pathAlloc = false
    · rw [trfsOpen_captured_of_loses hlost]
      exact and_congr_right fun _ => ⟨fun hqueue _ => hqueue, fun h => h hlost⟩
    · rw [Call.captured_iff_agrees hpath hlost]
      exact (trfsOpen_agrees file inode s).trans
        (and_iff_left fun h => absurd h hlost).symm
  | readdir file ctx =>
    rw [Call.captured_iff_agrees hpath id]
    exact (trfsReaddir_agrees file ctx s).trans (and_iff_left False.elim).symm
  | mkdir dir dentry mode =>
    rw [Call.captured_iff_agrees hpath id]
    exact (trfsMkdir_agrees dir dentry mode s).trans (and_iff_left False.elim).symm
  | unlink dir dentry =>
    rw [Call.captured_iff_agrees hpath id]
    exact (trfsUnlink_agrees dir dentry s).trans (and_iff_left False.elim).symm
  | link oldDentry dir newDentry =>
    rw [Call.captured_iff_agrees hpath id]
    exact (trfsLink_agrees oldDentry dir newDentry s).trans (and_iff_left False.elim).symm
  | rename oldDir oldDentry newDir newDentry =>
    rw [Call.captured_iff_agrees hpath id]
    exact (trfsRename_agrees oldDir oldDentry newDir newDentry s).trans
      (and_iff_left False.elim).symm
  | rmdir dir dentry =>
    rw [Call.captured_iff_agrees hpath id]
    exact (trfsRmdir_agrees dir dentry s).trans (and_iff_left False.elim).symm

def DentryPath.long : DentryPath :=
  ⟨List.replicate 1024 0x61, fun h => absurd (List.eq_of_mem_replicate h) (by decide)⟩

theorem DentryPath.long_inTmp : long.inTmp = none := by
  rw [← Option.not_isSome_iff_eq_none, inTmp_isSome, long, List.length_replicate]
  exact Nat.lt_irrefl _

theorem captured_iff_longMkdir :
    (Call.mkdir 2 3 0o755).Captured (Kernel.inert : Kernel Unit) .plenty .small
        (fun _ => .long) () ↔
      (Call.mkdir 2 3 0o755).Unaffected (Kernel.inert : Kernel Unit)
          (Tracing.plenty.withPaths fun _ => .long) .small () ∧
        ((Call.mkdir 2 3 0o755).LosesPath .plenty → Tracing.plenty.queueAlloc = false) :=
  captured_iff Kernel.inert .plenty .small (fun _ => .long) (.mkdir 2 3 0o755) () trivial

theorem long_unlink_faults :
    ¬ ∀ c : Call, c.logType.HasPath →
      c.Captured (Kernel.inert : Kernel Unit) .plenty .small (fun _ => .long) () := by
  intro h
  obtain ⟨e, he, -⟩ := h (.unlink 2 3) trivial
  simp only [Call.trfs, trfsUnlink, tracePath, dentryPath, Tracing.withPaths,
    DentryPath.long_inTmp] at he
  cases he

end TraceFS.Trfs
