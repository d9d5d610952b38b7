import TraceFS.Trfs.Ops

universe u

namespace TraceFS.Trfs

open TraceFS.Lib TraceFS.Linux TraceFS.Wrapfs

variable {σ : Type u} {K : Kernel σ} {T : Tracing} {P : PageSize}

def Call.Submits (K : Kernel σ) (T : Tracing) (P : PageSize) (e : Exit σ) (sub : Submission) :
    Call → Prop
  | .readdir file _ =>
    ∃ p, T.dentryPathRaw (K.fileDentry file) = some p ∧ sub = ⟨readdirRecord file e.ret p, []⟩
  | .open_ _ file =>
    ∃ p path, T.dentryPathRaw (K.fileDentry file) = some p ∧
      (path = some p.chars ∨ T.pathAlloc = false ∧ e.ret = -ENOMEM) ∧
      sub = ⟨openRecord K file e.ret p path e.state, []⟩
  | .read file buf _ _ =>
    0 ≤ e.ret.toInt ∧ sub ∈ T.transferred P (readRecord K file e.ret e.state) buf
  | .write file buf _ _ =>
    0 ≤ e.ret.toInt ∧ sub ∈ T.transferred P (writeRecord K file e.ret e.state) buf
  | .close file _ => sub = ⟨closeRecord K file e.ret e.state, []⟩
  | .mkdir dir dentry mode =>
    ∃ err s p, T.dentryPathRaw dentry = some p ∧ sub = ⟨mkdirRecord K dir mode err s p, []⟩
  | .unlink dir dentry =>
    ∃ err s p, T.dentryPathRaw dentry = some p ∧ sub = ⟨unlinkRecord K dir err s p, []⟩
  | .rmdir dir dentry =>
    ∃ err s p, T.dentryPathRaw dentry = some p ∧ sub = ⟨rmdirRecord K dir err s p, []⟩
  | .link oldDentry dir newDentry =>
    ∃ err s p q, T.dentryPathRaw oldDentry = some p ∧ T.dentryPathRaw newDentry = some q ∧
      sub = ⟨linkRecord K T dir err s p q, []⟩
  | .rename oldDir oldDentry _ newDentry =>
    ∃ err s p q, T.dentryPathRaw oldDentry = some p ∧ T.dentryPathRaw newDentry = some q ∧
      sub = ⟨renameRecord K oldDir err s p q, []⟩

def Call.file? : Call → Option Ptr
  | .readdir file _ | .open_ _ file | .read file .. | .write file .. | .close file _ => some file
  | .mkdir .. | .unlink .. | .link .. | .rename .. | .rmdir .. => none

theorem Tracing.mem_queued {r : Record} {buf : List Byte} {sub : Submission}
    (h : sub ∈ T.queued r buf) : sub = ⟨r, buf⟩ := by
  unfold Tracing.queued at h
  split at h
  · exact List.mem_singleton.mp h
  · cases h

theorem Tracing.mem_transferred {r : Record} {buf : Ptr} {sub : Submission}
    (h : sub ∈ T.transferred P r buf) :
    (∃ large data, sub.record = { r with logRwLarge := large, data := data }) ∧
      sub.buf = (T.user buf r.dataLength.toNat).val := by
  unfold Tracing.transferred at h
  split at h
  · split at h
    · obtain rfl := List.mem_singleton.mp h
      exact ⟨⟨1, r.data, rfl⟩, rfl⟩
    · cases h
  · obtain rfl := Tracing.mem_queued h
    exact ⟨⟨r.logRwLarge, _, rfl⟩, rfl⟩

theorem map_eworkqueueInit {α : Type u} {r : Record} {buf : List Byte}
    {f : List Submission → α} {a : α} (h : (eworkqueueInit T r buf).map f = .ok a) :
    T.workAlloc = true ∧ a = f (T.queued r buf) := by
  rw [eworkqueueInit_eq] at h
  cases hw : T.workAlloc with
  | false =>
    rw [hw] at h
    cases h
  | true =>
    rw [hw] at h
    cases h
    exact ⟨rfl, rfl⟩

theorem mem_eworkqueueInit {r : Record} {buf : List Byte} {ret : CInt} {s : σ} {e : Exit σ}
    (h : (eworkqueueInit T r buf).map (fun submitted => ⟨ret, s, submitted⟩) = .ok e) :
    e.ret = ret ∧ e.state = s ∧ ∀ sub ∈ e.submitted, sub = ⟨r, buf⟩ := by
  obtain ⟨-, rfl⟩ := map_eworkqueueInit h
  exact ⟨rfl, rfl, fun _ hsub => Tracing.mem_queued hsub⟩

theorem tracePath_next {dentry : Ptr} {record : TmpPath → Record} {subs : List Submission}
    (h : tracePath T dentry record = .ok (.next subs)) :
    ∃ p, T.dentryPathRaw dentry = some p ∧ subs = T.queued (record p) [] := by
  rcases tracePath_cases (T := T) dentry record with ⟨-, p, hp, heq⟩ | ⟨-, -, heq⟩ | ⟨-, -, f, heq⟩
  · rw [heq] at h
    cases h
    exact ⟨p, hp, rfl⟩
  · rw [heq] at h
    cases h
  · rw [heq] at h
    cases h

theorem tracePaths_next {oldDentry newDentry : Ptr} {record : TmpPath → TmpPath → Record}
    {subs : List Submission} (h : tracePaths T oldDentry newDentry record = .ok (.next subs)) :
    ∃ p q, T.dentryPathRaw oldDentry = some p ∧ T.dentryPathRaw newDentry = some q ∧
      subs = T.queued (record p q) [] := by
  rcases tracePaths_cases (T := T) oldDentry newDentry record with
    ⟨-, p, q, hp, hq, heq⟩ | ⟨-, -, heq⟩ | ⟨-, -, f, heq⟩
  · rw [heq] at h
    cases h
    exact ⟨p, q, hp, hq, rfl⟩
  · rw [heq] at h
    cases h
  · rw [heq] at h
    cases h

theorem mem_tracePath {dentry : Ptr} {record : TmpPath → Record} {subs : List Submission}
    (h : tracePath T dentry record = .ok (.next subs)) :
    ∀ sub ∈ subs, ∃ p, T.dentryPathRaw dentry = some p ∧ sub = ⟨record p, []⟩ := by
  obtain ⟨p, hp, rfl⟩ := tracePath_next h
  exact fun sub hsub => ⟨p, hp, Tracing.mem_queued hsub⟩

theorem mem_tracePaths {oldDentry newDentry : Ptr} {record : TmpPath → TmpPath → Record}
    {subs : List Submission} (h : tracePaths T oldDentry newDentry record = .ok (.next subs)) :
    ∀ sub ∈ subs, ∃ p q, T.dentryPathRaw oldDentry = some p ∧ T.dentryPathRaw newDentry = some q ∧
      sub = ⟨record p q, []⟩ := by
  obtain ⟨p, q, hp, hq, rfl⟩ := tracePaths_next h
  exact fun sub hsub => ⟨p, q, hp, hq, Tracing.mem_queued hsub⟩

theorem mem_traceTransfer {r : Record} {buf : Ptr} {err : CInt} {s : σ} {e : Exit σ}
    (he : (traceTransfer T P r buf err).map (fun out => ⟨out.1, s, out.2⟩) = .ok e)
    {sub : Submission} (hsub : sub ∈ e.submitted) :
    e.ret = err ∧ e.state = s ∧ sub ∈ T.transferred P r buf := by
  rcases traceTransfer_cases (T := T) P r buf err with
    ⟨-, heq⟩ | ⟨-, ⟨f, heq⟩ | ⟨err', -, heq⟩⟩
  · rw [heq] at he
    cases he
    exact ⟨rfl, rfl, hsub⟩
  · rw [heq] at he
    cases he
  · rw [heq] at he
    cases he
    cases hsub

theorem trfsOpen_cases {file inode : Ptr} {s : σ} {e : Exit σ}
    (he : trfsOpen K T file inode s = .ok e) :
    (¬ K.dUnhashed s (K.fileDentry file) ∧ ¬ (K.allocFileInfo file s).1 = false) ∧
      e.state = (openLower K file inode (K.allocFileInfo file s).2).2 ∧
      ∃ p path, T.dentryPathRaw (K.fileDentry file) = some p ∧
        (T.pathAlloc = true ∧ path = some p.chars ∧
            e.ret = (openLower K file inode (K.allocFileInfo file s).2).1 ∨
          T.pathAlloc = false ∧ path = none ∧ e.ret = -ENOMEM) ∧
        e.submitted = T.queued (openRecord K file e.ret p path e.state) [] := by
  simp only [trfsOpen] at he
  split at he
  · cases he
  next hunhashed =>
    split at he
    · cases he
    next hinfo =>
      split at he
      · cases he
      cases hp : T.dentryPathRaw (K.fileDentry file) with
      | none =>
        simp only [dentryPath, hp] at he
        cases he
      | some p =>
        simp only [dentryPath, hp, eworkqueueInit_eq] at he
        cases hw : T.workAlloc with
        | false =>
          rw [hw] at he
          cases he
        | true =>
          rw [hw] at he
          cases he
          refine ⟨⟨hunhashed, hinfo⟩, rfl, p, _, rfl, ?_, rfl⟩
          cases hT : T.pathAlloc with
          | false => exact .inr ⟨rfl, rfl, rfl⟩
          | true => exact .inl ⟨rfl, rfl, rfl⟩

theorem trfsOpen_submits {file inode : Ptr} {s : σ} {e : Exit σ}
    (he : trfsOpen K T file inode s = .ok e) {sub : Submission} (hsub : sub ∈ e.submitted) :
    (Call.open_ inode file).Submits K T P e sub := by
  obtain ⟨-, -, p, path, hp, hpath, hsubmitted⟩ := trfsOpen_cases he
  rw [hsubmitted] at hsub
  refine ⟨p, path, hp, ?_, Tracing.mem_queued hsub⟩
  rcases hpath with ⟨-, hpath, -⟩ | ⟨halloc, -, hret⟩
  · exact .inl hpath
  · exact .inr ⟨halloc, hret⟩

theorem trfsOpen_state {file inode : Ptr} {s : σ} {e : Exit σ}
    (he : trfsOpen K T file inode s = .ok e) :
    e.state = (openLower K file inode (K.allocFileInfo file s).2).2 :=
  (trfsOpen_cases he).2.1

theorem trfsReaddir_submits {file ctx : Ptr} {s : σ} {e : Exit σ}
    (he : trfsReaddir K T file ctx s = .ok e) {sub : Submission} (hsub : sub ∈ e.submitted) :
    (Call.readdir file ctx).Submits K T P e sub := by
  simp only [trfsReaddir] at he
  split at he
  · cases he
  cases hp : T.dentryPathRaw (K.fileDentry file) with
  | none =>
    simp only [dentryPath, hp] at he
    cases he
  | some p =>
    simp only [dentryPath, hp] at he
    split at he <;> cases he
    · cases hsub
    · exact ⟨p, hp, List.mem_singleton.mp hsub⟩

theorem Call.submits {c : Call} {s : σ} {e : Exit σ} (he : c.trfs K T P s = .ok e)
    {sub : Submission} (hsub : sub ∈ e.submitted) : c.Submits K T P e sub := by
  cases c with
  | readdir file ctx => exact trfsReaddir_submits he hsub
  | open_ inode file => exact trfsOpen_submits he hsub
  | read file buf count ppos =>
    simp only [Call.trfs, trfsRead] at he
    split at he
    case isTrue herr =>
      obtain ⟨hret, hstate, hmem⟩ := mem_traceTransfer he hsub
      rw [Call.Submits, hret, hstate]
      exact ⟨herr, hmem⟩
    case isFalse =>
      cases he
      cases hsub
  | write file buf count ppos =>
    simp only [Call.trfs, trfsWrite] at he
    split at he
    case isTrue herr =>
      obtain ⟨hret, hstate, hmem⟩ := mem_traceTransfer he hsub
      rw [Call.Submits, hret, hstate]
      exact ⟨herr, hmem⟩
    case isFalse =>
      cases he
      cases hsub
  | close file owner =>
    simp only [Call.trfs, trfsFlush] at he
    split at he
    · cases he
      cases hsub
    · obtain ⟨hret, hstate, hmem⟩ := mem_eworkqueueInit he
      rw [Call.Submits, hret, hstate]
      exact hmem sub hsub
  | mkdir dir dentry mode =>
    simp only [Call.trfs, trfsMkdir] at he
    split at he <;> cases he
    · cases hsub
    · exact ⟨_, _, mem_tracePath ‹_› sub hsub⟩
  | unlink dir dentry =>
    simp only [Call.trfs, trfsUnlink] at he
    split at he <;> cases he
    · cases hsub
    · exact ⟨_, _, mem_tracePath ‹_› sub hsub⟩
  | link oldDentry dir newDentry =>
    simp only [Call.trfs, trfsLink] at he
    split at he
    · cases he
      cases hsub
    split at he <;> cases he
    · cases hsub
    · exact ⟨_, _, mem_tracePaths ‹_› sub hsub⟩
  | rename oldDir oldDentry newDir newDentry =>
    simp only [Call.trfs, trfsRename] at he
    split at he
    · cases he
      cases hsub
    split at he <;> cases he
    · cases hsub
    · exact ⟨_, _, mem_tracePaths ‹_› sub hsub⟩
  | rmdir dir dentry =>
    simp only [Call.trfs, trfsRmdir] at he
    split at he
    · cases he
      cases hsub
    split at he <;> cases he
    · cases hsub
    · exact ⟨_, _, mem_tracePath ‹_› sub hsub⟩

theorem Call.Submits.type_eq {c : Call} {e : Exit σ} {sub : Submission}
    (h : c.Submits K T P e sub) : sub.record.type = c.logType.toByte := by
  cases c with
  | readdir file ctx =>
    obtain ⟨p, -, rfl⟩ := h
    rfl
  | open_ inode file =>
    obtain ⟨p, path, -, -, rfl⟩ := h
    rfl
  | read file buf count ppos | write file buf count ppos =>
    obtain ⟨large, data, hrec⟩ := (Tracing.mem_transferred h.2).1
    rw [hrec]
    rfl
  | close file owner =>
    cases show sub = _ from h
    rfl
  | mkdir | unlink | rmdir =>
    obtain ⟨err, s, p, -, rfl⟩ := h
    rfl
  | link | rename =>
    obtain ⟨err, s, p, q, -, -, rfl⟩ := h
    rfl

theorem Call.Submits.fileAddress_eq {c : Call} {e : Exit σ} {sub : Submission}
    (h : c.Submits K T P e sub) {file : Ptr} (hfile : c.file? = some file) :
    sub.record.fileAddress = file := by
  cases c with
  | readdir file' ctx =>
    obtain ⟨p, -, rfl⟩ := h
    exact Option.some.inj hfile
  | open_ inode file' =>
    obtain ⟨p, path, -, -, rfl⟩ := h
    exact Option.some.inj hfile
  | read file' buf count ppos | write file' buf count ppos =>
    obtain ⟨large, data, hrec⟩ := (Tracing.mem_transferred h.2).1
    rw [hrec]
    exact Option.some.inj hfile
  | close file' owner =>
    cases show sub = _ from h
    exact Option.some.inj hfile
  | mkdir | unlink | rmdir | link | rename => cases hfile

theorem Tracing.queued_cases (T : Tracing) (r : Record) (buf : List Byte) :
    T.queued r buf = [] ∨ T.queued r buf = [⟨r, buf⟩] := by
  unfold Tracing.queued
  cases T.queueAlloc
  · exact .inl rfl
  · exact .inr rfl

/-- A call hands over one record at most, with the value that it returns; only a `mkdir` may come
to another one after its record. -/
def Exit.OneAtMost (e : Exit σ) (c : Call) : Prop :=
  e.submitted = [] ∨ ∃ sub, e.submitted = [sub] ∧
    (c.logType ≠ .mkdir → sub.record.returnValue = e.ret)

theorem Exit.oneAtMost_queued {e : Exit σ} {c : Call} {r : Record} {buf : List Byte}
    (h : e.submitted = T.queued r buf)
    (hret : c.logType ≠ .mkdir → r.returnValue = e.ret) : e.OneAtMost c := by
  unfold Exit.OneAtMost
  rw [h]
  refine (T.queued_cases r buf).imp id ?_
  exact fun hone => ⟨⟨r, buf⟩, hone, hret⟩

theorem oneAtMost_eworkqueueInit {c : Call} {r : Record} {buf : List Byte} {ret : CInt} {s : σ}
    {e : Exit σ}
    (h : (eworkqueueInit T r buf).map (fun submitted => ⟨ret, s, submitted⟩) = .ok e)
    (hret : r.returnValue = ret) : e.OneAtMost c := by
  obtain ⟨-, rfl⟩ := map_eworkqueueInit h
  exact Exit.oneAtMost_queued rfl fun _ => hret

theorem oneAtMost_traceTransfer {c : Call} {r : Record} {buf : Ptr} {err : CInt} {s : σ}
    {e : Exit σ} (he : (traceTransfer T P r buf err).map (fun out => ⟨out.1, s, out.2⟩) = .ok e)
    (hret : r.returnValue = err) : e.OneAtMost c := by
  rcases traceTransfer_cases (T := T) P r buf err with
    ⟨-, heq⟩ | ⟨-, ⟨f, heq⟩ | ⟨err', -, heq⟩⟩
  · rw [heq] at he
    cases he
    by_cases hlarge : P.capacity ≤ r.recordSize.toNat
    · unfold Exit.OneAtMost Tracing.transferred
      rw [if_pos hlarge]
      split
      · exact .inr ⟨_, rfl, fun _ => hret⟩
      · exact .inl rfl
    · refine Exit.oneAtMost_queued (if_neg hlarge) fun _ => hret
  · rw [heq] at he
    cases he
  · rw [heq] at he
    cases he
    exact .inl rfl

theorem Call.oneAtMost {c : Call} {s : σ} {e : Exit σ} (he : c.trfs K T P s = .ok e) :
    e.OneAtMost c := by
  cases c with
  | readdir file ctx =>
    simp only [Call.trfs, trfsReaddir] at he
    split at he
    · cases he
    split at he
    · cases he
    split at he <;> cases he
    · exact .inl rfl
    · exact .inr ⟨_, rfl, fun _ => rfl⟩
  | open_ inode file =>
    obtain ⟨-, -, p, path, -, -, hsubmitted⟩ := trfsOpen_cases he
    exact Exit.oneAtMost_queued hsubmitted fun _ => rfl
  | read file buf count ppos =>
    simp only [Call.trfs, trfsRead] at he
    split at he
    · exact oneAtMost_traceTransfer he rfl
    · cases he
      exact .inl rfl
  | write file buf count ppos =>
    simp only [Call.trfs, trfsWrite] at he
    split at he
    · exact oneAtMost_traceTransfer he rfl
    · cases he
      exact .inl rfl
  | close file owner =>
    simp only [Call.trfs, trfsFlush] at he
    split at he
    · cases he
      exact .inl rfl
    · exact oneAtMost_eworkqueueInit he rfl
  | mkdir dir dentry mode =>
    simp only [Call.trfs, trfsMkdir] at he
    split at he <;> cases he
    · exact .inl rfl
    · obtain ⟨p, -, rfl⟩ := tracePath_next ‹_›
      exact Exit.oneAtMost_queued rfl fun hne => absurd rfl hne
  | unlink dir dentry =>
    simp only [Call.trfs, trfsUnlink] at he
    split at he <;> cases he
    · exact .inl rfl
    · obtain ⟨p, -, rfl⟩ := tracePath_next ‹_›
      exact Exit.oneAtMost_queued rfl fun _ => rfl
  | link oldDentry dir newDentry =>
    simp only [Call.trfs, trfsLink] at he
    split at he
    · cases he
      exact .inl rfl
    split at he <;> cases he
    · exact .inl rfl
    · obtain ⟨p, q, -, -, rfl⟩ := tracePaths_next ‹_›
      exact Exit.oneAtMost_queued rfl fun _ => rfl
  | rename oldDir oldDentry newDir newDentry =>
    simp only [Call.trfs, trfsRename] at he
    split at he
    · cases he
      exact .inl rfl
    split at he <;> cases he
    · exact .inl rfl
    · obtain ⟨p, q, -, -, rfl⟩ := tracePaths_next ‹_›
      exact Exit.oneAtMost_queued rfl fun _ => rfl
  | rmdir dir dentry =>
    simp only [Call.trfs, trfsRmdir] at he
    split at he
    · cases he
      exact .inl rfl
    split at he <;> cases he
    · exact .inl rfl
    · obtain ⟨p, -, rfl⟩ := tracePath_next ‹_›
      exact Exit.oneAtMost_queued rfl fun _ => rfl

structure CallRun (P : PageSize) where
  {σ : Type}
  K : Kernel σ
  T : Tracing
  call : Call
  s : σ
  exit : Exit σ
  ran : call.trfs K T P s = .ok exit

end TraceFS.Trfs
