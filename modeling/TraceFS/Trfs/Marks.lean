import TraceFS.Trfs.Ids
import TraceFS.Trfs.Submits

namespace TraceFS.Trfs

open TraceFS.Lib TraceFS.Linux

variable {P : PageSize}

inductive FileMark where
  | opened (file : Ptr)
  | used (file : Ptr)
  | closed (file : Ptr)
  deriving DecidableEq

def Record.mark? (r : Record) : Option FileMark :=
  match LogType.ofByte r.type with
  | some .open_ => if r.returnValue = 0 then some (.opened r.fileAddress) else none
  | some .read | some .write => some (.used r.fileAddress)
  | some .close => some (.closed r.fileAddress)
  | _ => none

/-- A file is read, written and closed after it was opened, and between two opens it is closed. -/
def WellFormed (marks : List FileMark) : Prop :=
  ∀ before m after, marks = before ++ m :: after → ∀ file,
    (m = .used file ∨ m = .closed file → .opened file ∈ before) ∧
      (m = .opened file → ∀ earlier between, before = earlier ++ .opened file :: between →
        .closed file ∈ between)

def Unclosed (marks : List FileMark) (file : Ptr) : Prop :=
  ∃ before after, marks = before ++ .opened file :: after ∧ .closed file ∉ after

section Marks

variable {marks : List FileMark} {m : FileMark} {file : Ptr}

theorem WellFormed.nil : WellFormed [] := by
  intro before m after h
  simp at h

theorem WellFormed.of_prefix {marks' : List FileMark} (h : WellFormed marks)
    (hp : marks' <+: marks) : WellFormed marks' := by
  obtain ⟨rest, rfl⟩ := hp
  rintro before m after rfl
  exact h before m (after ++ rest) (by simp)

theorem unclosed_concat_iff :
    Unclosed (marks ++ [m]) file ↔ m = .opened file ∨ Unclosed marks file ∧ m ≠ .closed file := by
  constructor
  · rintro ⟨before, after, heq, hno⟩
    rcases List.eq_nil_or_concat after with rfl | ⟨after, x, rfl⟩
    · obtain ⟨-, hm⟩ := List.append_inj' heq rfl
      exact .inl (List.cons.inj hm).1
    · rw [List.concat_eq_append, ← List.cons_append, ← List.append_assoc] at heq
      obtain ⟨hmarks, hm⟩ := List.append_inj' heq rfl
      obtain rfl := (List.cons.inj hm).1
      simp only [List.concat_eq_append, List.mem_append, List.mem_singleton, not_or] at hno
      exact .inr ⟨⟨before, after, hmarks, hno.1⟩, Ne.symm hno.2⟩
  · rintro (rfl | ⟨⟨before, after, rfl, hno⟩, hm⟩)
    · exact ⟨marks, [], rfl, List.not_mem_nil⟩
    · exact ⟨before, after ++ [m], by simp, by simp [hno, Ne.symm hm]⟩

theorem Unclosed.opened (h : Unclosed marks file) : .opened file ∈ marks := by
  obtain ⟨before, after, rfl, -⟩ := h
  simp

theorem WellFormed.concat (h : WellFormed marks)
    (huse : ∀ file, m = .used file ∨ m = .closed file → .opened file ∈ marks)
    (hopen : ∀ file, m = .opened file → ¬ Unclosed marks file) : WellFormed (marks ++ [m]) := by
  intro before x after heq file
  rcases List.eq_nil_or_concat after with rfl | ⟨after, y, rfl⟩
  · obtain ⟨rfl, hm⟩ := List.append_inj' heq rfl
    obtain rfl := (List.cons.inj hm).1
    refine ⟨huse file, ?_⟩
    rintro hm earlier between rfl
    by_contra hno
    exact hopen file hm ⟨earlier, between, rfl, hno⟩
  · rw [List.concat_eq_append, ← List.cons_append, ← List.append_assoc] at heq
    obtain ⟨hmarks, -⟩ := List.append_inj' heq rfl
    exact h before x after hmarks file

end Marks

def State.marks (s : State P) : List FileMark :=
  (s.ledger.entries.map Prod.snd ++ s.pending.map fun w => w.job.record).filterMap Record.mark?

theorem Record.mark?_withId (r : Record) (i : BitVec 32) : (r.withId i).mark? = r.mark? := rfl

theorem Job.ofByte_type (job : Job P) : LogType.ofByte job.record.type = some job.type := by
  rw [job.sized.type_eq, LogType.ofByte_toByte]

def AllSet (bitmap : BitVec 64) : Prop := ∀ ty : LogType, checkBit bitmap ty.toByte = true

theorem allSet_fresh : AllSet 0xFFFFFFFF := by
  intro ty
  cases ty <;> decide

theorem Job.bit_of_allSet {bitmap : BitVec 64} (h : AllSet bitmap) (job : Job P) :
    checkBit bitmap job.record.type = true := by
  rw [job.sized.type_eq]
  exact h job.type

theorem Step.bitmap {s s' : State P} {l : Label P} (hs : Step s l s')
    (hin : s.sb.trInfo.InBounds) :
    s'.sb.trInfo.bitmap = s.sb.trInfo.bitmap ∨
      ∃ cmd, l = .ioctl cmd ∧ s'.sb.trInfo.bitmap = cmd.value := by
  cases hs with
  | @logReaddir op job hr sb hm hp hlog =>
    exact .inl (logLocked_bitmap hin (fun _ => job.sized) hlog)
  | @work w sb hc hw hlog => exact .inl (logLocked_bitmap hin (fun _ => w.job.sized) hlog)
  | tick hu hlog =>
    have hr : flushRequest.flushBufferSig ≠ 1 → flushRequest.Sized P .close :=
      fun hsig => absurd rfl hsig
    exact .inl (logLocked_bitmap hin hr hlog)
  | checkReaddir | take => simp [State.setPhase]
  | @ioctl cmd hm => exact .inr ⟨cmd, rfl, rfl⟩
  | _ => exact .inl rfl

def Phase.job? : Phase P → Option (Job P)
  | .built job | .checked job _ | .flushing job _ | .ready job _ | .logging job _ => some job
  | .idle | .invoked | .done | .returned => none

def State.handsOver (s : State P) : Label P → Option (Job P)
  | .submit op | .submitLarge op => (s.phase op).job?
  | _ => none

theorem Step.marks {s s' : State P} {l : Label P} (hs : Step s l s')
    (hall : AllSet s.sb.trInfo.bitmap) :
    s'.marks = s.marks ++ ((s.handsOver l).bind fun job => job.record.mark?).toList := by
  have henqueue : ∀ (op : Nat) (job : Job P),
      State.marks { s with queue := s.queue ++ [⟨op, job⟩] } =
        s.marks ++ job.record.mark?.toList := by
    intro op job
    have hlast : [job.record].filterMap Record.mark? = job.record.mark?.toList := by
      cases h : job.record.mark? <;> simp [h]
    simp only [State.marks, State.pending, ← List.append_assoc, List.map_append,
      List.filterMap_append, List.map_cons, List.map_nil, hlast]
  cases hs with
  | @submit op job hm hp hr hl =>
    simp only [State.handsOver, hp, Phase.job?, Option.bind_some]
    exact henqueue op job
  | @submitLarge op job hl hm hp =>
    simp only [State.handsOver, hp, Phase.job?, Option.bind_some]
    exact henqueue op job
  | writeLarge hm hp =>
    simp only [State.marks, Ledger.write_data_entries]
    exact (List.append_nil _).symm
  | finalWrite hu =>
    simp only [State.marks, Ledger.flush_entries]
    exact (List.append_nil _).symm
  | tick hu hlog =>
    simp only [State.marks, s.ledgerAfter_flush 0 (r := flushRequest) rfl, Ledger.flush_entries]
    exact (List.append_nil _).symm
  | @logReaddir op job hr sb hm hp hlog =>
    have hsig : job.record.flushBufferSig ≠ 1 := job.clear (by rw [hr]; decide)
    have hmark : job.record.mark? = none := by rw [Record.mark?, job.ofByte_type, hr]
    simp only [State.marks, s.ledgerAfter_entries op hsig, List.map_append, List.map_cons,
      List.map_nil, List.filterMap_append, List.filterMap_cons, Record.mark?_withId, hmark,
      List.filterMap_nil, List.append_nil]
    exact (List.append_nil _).symm
  | checkReaddir hm hp hr =>
    simp [State.marks, State.pending, State.setPhase, State.handsOver]
  | @take w queue hc hw hq =>
    have hpass : (s.noteBit w.op w.job.record).Passes w.job.record := by
      right
      rw [State.noteBit_sb]
      exact w.job.bit_of_allSet hall
    simp [State.marks, State.pending, State.handsOver, hpass, hw, hq]
  | @work w sb hc hw hlog =>
    by_cases hsig : w.job.record.flushBufferSig = 1
    · have hmark : w.job.record.mark? = none := by
        have hty : w.job.type = .link := by
          by_contra hne
          exact w.job.clear hne hsig
        rw [Record.mark?, w.job.ofByte_type, hty]
      simp [State.marks, State.pending, State.handsOver, s.ledgerAfter_flush w.op hsig, hw, hmark]
    · simp [State.marks, State.pending, State.handsOver, s.ledgerAfter_entries w.op hsig, hw,
        List.filterMap_cons, Record.mark?_withId]
  | _ => exact (List.append_nil _).symm

theorem Step.handsOver {s s' : State P} {l : Label P} (hs : Step s l s') {job : Job P}
    (h : s.handsOver l = some job) :
    ∃ op, s.handsOver l = (s.phase op).job? ∧ ¬ (s.phase op).Handed ∧ (s'.phase op).Handed := by
  cases hs with
  | @submit op job hm hp =>
    refine ⟨op, rfl, by rw [hp]; exact id, ?_⟩
    simp [State.setPhase, Phase.Handed]
  | @submitLarge op job hl hm hp =>
    refine ⟨op, rfl, by rw [hp]; exact id, ?_⟩
    simp [State.setPhase, Phase.Handed]
  | _ => cases h

theorem Phase.Next.of_built {op : Nat} {l : Label P} {p : Phase P} {job : Job P}
    (h : Phase.Next op (.built job) l p) :
    l = .submit op ∨ l = .drop op ∨ l = .checkLarge op ∨ l = .checkReaddir op := by
  cases h with
  | submit => exact .inl rfl
  | drop => exact .inr (.inl rfl)
  | checkLarge | skipLarge => exact .inr (.inr (.inl rfl))
  | checkReaddir | skipReaddir => exact .inr (.inr (.inr rfl))

theorem Phase.Next.handed {op : Nat} {l : Label P} {p p' : Phase P} (h : Phase.Next op p l p')
    (hp : p.Handed) : p'.Handed := by
  cases h <;> first | exact hp.elim | trivial

theorem Step.handed {s s' : State P} {l : Label P} (hs : Step s l s') {op : Nat}
    (h : (s.phase op).Handed) : (s'.phase op).Handed := by
  rcases hs.phase op with heq | hnext
  · exact heq ▸ h
  · exact hnext.handed h

theorem Step.job? {s s' : State P} {l : Label P} (hs : Step s l s') {op : Nat} {job : Job P}
    (h : (s'.phase op).job? = some job) :
    (s.phase op).job? = some job ∨ l = .build op (some job) := by
  rcases hs.phase op with heq | hnext
  · exact .inl (heq ▸ h)
  · generalize s.phase op = p at hnext
    generalize s'.phase op = p' at h hnext
    cases hnext with
    | build =>
      cases h
      exact .inr rfl
    | checkLarge | submitLarge | flushed | checkReaddir => exact .inl h
    | _ => cases h

def Call.mark? (ret : CInt) : Call → Option FileMark
  | .open_ _ file => if ret = 0 then some (.opened file) else none
  | .read file .. | .write file .. => some (.used file)
  | .close file _ => some (.closed file)
  | .readdir .. | .mkdir .. | .unlink .. | .link .. | .rename .. | .rmdir .. => none

theorem Job.mark?_eq {job : Job P} {call : Call} (hty : job.type = call.logType)
    (hfile : ∀ file ∈ call.file?, job.record.fileAddress = file) :
    job.record.mark? = call.mark? job.record.returnValue := by
  rw [Record.mark?, job.ofByte_type, hty]
  cases call with
  | open_ inode file | close file owner | read file buf count ppos | write file buf count ppos =>
    simp [Call.logType, Call.mark?, hfile file rfl]
  | readdir | mkdir | unlink | link | rename | rmdir => rfl

end TraceFS.Trfs
