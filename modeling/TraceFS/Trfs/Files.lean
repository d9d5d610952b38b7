import TraceFS.Lib.Observed
import TraceFS.Trfs.Marks
import TraceFS.Trfs.Recorded

universe u

namespace TraceFS.Trfs

open TraceFS.Lib TraceFS.Linux

variable {P : PageSize}

/-- A `struct file` at an address: being opened by an operation, or open, with as many descriptors
and with these closes in progress on it. -/
inductive FileState where
  | free
  | opening (op : Nat)
  | held (descriptors : Nat) (closing : List Nat)

structure Files where
  call : Nat → Option Call
  result : Nat → Option CInt
  files : Ptr → FileState

inductive FileLabel where
  | begin_ (op : Nat) (c : Call)
  | dup (file : Ptr)
  | release (file : Ptr)

def LogType.all : List LogType :=
  [.readdir, .open_, .read, .write, .close, .mkdir, .unlink, .link, .rename, .rmdir]

namespace Files

def start : Files := ⟨fun _ => none, fun _ => none, fun _ => .free⟩

def setFile (e : Files) (file : Ptr) (st : FileState) : Files :=
  { e with files := Function.update e.files file st }

/-- An open needs a `struct file` that is free, and everything else a descriptor; a close takes
its descriptor away. -/
def claim (e : Files) (op : Nat) : Call → Option Files
  | .open_ _ file =>
    match e.files file with
    | .free => some (e.setFile file (.opening op))
    | _ => none
  | .read file .. | .write file .. | .readdir file _ =>
    match e.files file with
    | .held (_ + 1) _ => some e
    | _ => none
  | .close file _ =>
    match e.files file with
    | .held (n + 1) closing => some (e.setFile file (.held n (op :: closing)))
    | _ => none
  | .mkdir .. | .unlink .. | .link .. | .rename .. | .rmdir .. => some e

def act (s : State P) (e : Files) : FileLabel → Option Files
  | .begin_ op c =>
    match s.phase op, e.call op with
    | .invoked, none =>
      (e.claim op c).map fun e => { e with call := Function.update e.call op (some c) }
    | _, _ => none
  | .dup file =>
    match e.files file with
    | .held (n + 1) closing => some (e.setFile file (.held (n + 2) closing))
    | _ => none
  | .release file =>
    match e.files file with
    | .held 0 [] => some (e.setFile file .free)
    | _ => none

/-- An open that returns 0 yields a descriptor, any other leaves the `struct file` free. -/
def settle (e : Files) (op : Nat) : Call → Files
  | .open_ _ file => e.setFile file (if e.result op = some 0 then .held 1 [] else .free)
  | .close file _ =>
    match e.files file with
    | .held n closing => e.setFile file (.held n (closing.erase op))
    | _ => e
  | .read .. | .write .. | .readdir .. | .mkdir .. | .unlink .. | .link .. | .rename ..
  | .rmdir .. => e

/-- A call builds the record that is its own, and an open or a close builds one whatever happens;
the bits are left set, and no allocation fails, so a queue that is needed can be created. -/
def see (_ : State P) (e : Files) : Label P → Option Files
  | .build op job =>
    match e.call op, job with
    | some c, some job =>
      if job.type = c.logType ∧ c.file?.all (fun file => job.record.fileAddress = file) then
        some { e with result := Function.update e.result op (some job.record.returnValue) }
      else none
    | some c, none => if c.logType = .open_ ∨ c.logType = .close then none else some e
    | none, _ => none
  | .ret op =>
    match e.call op with
    | some c => some (e.settle op c)
    | none => none
  | .ioctl cmd => if LogType.all.all fun ty => checkBit cmd.value ty.toByte then some e else none
  | .drop _ => none
  | _ => some e

def surroundings (P : PageSize) : Surroundings (State P) (Label P) Files FileLabel := ⟨see, act⟩

end Files

abbrev Filed (P : PageSize) : Type := State P × Files

namespace Filed

def start (P : PageSize) : Filed P := (State.start P, .start)

def step : Filed P → Label P ⊕ FileLabel → Option (Filed P) :=
  (Files.surroundings P).step State.step

variable (c : Filed P) (file : Ptr)

def Fits : FileState → Prop
  | .free => ¬ Unclosed c.1.marks file
  | .opening op =>
    (∃ inode, c.2.call op = some (.open_ inode file)) ∧
      ((c.1.phase op).Handed → c.2.result op = some 0 → .opened file ∈ c.1.marks) ∧
      (((c.1.phase op).Handed → c.2.result op ≠ some 0) → ¬ Unclosed c.1.marks file)
  | .held n closing =>
    .opened file ∈ c.1.marks ∧
      (Unclosed c.1.marks file → 0 < n ∨
        ∃ op ∈ closing, ¬ (c.1.phase op).Handed ∧ ∃ owner, c.2.call op = some (.close file owner))

def Typed : Prop :=
  ∀ op job, (c.1.phase op).job? = some job → ∃ call, c.2.call op = some call ∧
    job.type = call.logType ∧ (∀ file ∈ call.file?, job.record.fileAddress = file) ∧
    c.2.result op = some job.record.returnValue

structure Kept : Prop where
  describes : c.1.ledger.Describes c.1.sb.trInfo
  bits : AllSet c.1.sb.trInfo.bitmap
  wellFormed : WellFormed c.1.marks
  fresh : ∀ op, c.1.phase op = .idle → c.2.call op = none
  typed : c.Typed
  began : ∀ op call file, c.2.call op = some call → call.logType ≠ .open_ →
    call.file? = some file → .opened file ∈ c.1.marks
  opens : ∀ op inode file, c.2.call op = some (.open_ inode file) → c.1.phase op ≠ .returned →
    c.2.files file = .opening op
  fits : ∀ file, c.Fits file (c.2.files file)

variable {c file}
variable {s' : State P} {e' : Files} {l : Label P}

theorem Kept.opener (h : c.Kept) (hs : Step c.1 l s')
    (hmark : (c.1.handsOver l).bind (fun job => job.record.mark?) = some (.opened file)) :
    ∃ op, c.2.files file = .opening op ∧ ¬ (c.1.phase op).Handed ∧ (s'.phase op).Handed ∧
      c.2.result op = some 0 := by
  obtain ⟨job, hjob, hm⟩ := Option.bind_eq_some_iff.mp hmark
  obtain ⟨op, heq, hno, hyes⟩ := hs.handsOver hjob
  obtain ⟨call, hcall, hty, hfile, hresult⟩ := h.typed op job (heq ▸ hjob)
  rw [Job.mark?_eq hty hfile] at hm
  cases call with
  | open_ inode file' =>
    obtain ⟨hret, hm⟩ := Option.ite_none_right_eq_some.mp hm
    cases hm
    have hopens := h.opens op inode file hcall ?_
    · exact ⟨op, hopens, hno, hyes, hret ▸ hresult⟩
    · intro hp
      rw [hp] at hno
      exact hno trivial
  | _ => cases hm

theorem Kept.sent (h : c.Kept) (hs : Step c.1 l s') (hsee : Files.see c.1 c.2 l = some e')
    {op : Nat} {call : Call} (hcall : c.2.call op = some call)
    (hty : call.logType = .open_ ∨ call.logType = .close) (hno : ¬ (c.1.phase op).Handed)
    (hyes : (s'.phase op).Handed) :
    ∃ job, c.1.handsOver l = some job ∧ job.record.mark? = call.mark? job.record.returnValue ∧
      c.2.result op = some job.record.returnValue := by
  have htyped : ∀ job, (c.1.phase op).job? = some job → job.type ≠ .readdir ∧
      job.record.mark? = call.mark? job.record.returnValue ∧
        c.2.result op = some job.record.returnValue := by
    intro job hjob
    obtain ⟨call', hcall', hty', hfile, hresult⟩ := h.typed op job hjob
    cases hcall.symm.trans hcall'
    refine ⟨?_, Job.mark?_eq hty' hfile, hresult⟩
    rw [hty']
    rcases hty with hty | hty <;> rw [hty] <;> simp
  have hnext := (hs.phase op).resolve_left fun heq => hno (heq ▸ hyes)
  cases hp : c.1.phase op with
  | idle =>
    rw [hp] at hnext
    generalize s'.phase op = p at hnext hyes
    cases hnext
    exact hyes.elim
  | invoked =>
    rw [hp] at hnext
    generalize s'.phase op = p at hnext hyes
    cases hnext with
    | build => exact hyes.elim
    | giveUp => simp [Files.see, hcall, hty] at hsee
  | built job =>
    obtain ⟨hreaddir, hmark, hresult⟩ := htyped job (by rw [hp]; rfl)
    rw [hp] at hnext
    rcases hnext.of_built with rfl | rfl | rfl | rfl
    · exact ⟨job, by simp [State.handsOver, hp, Phase.job?], hmark, hresult⟩
    · cases hsee
    · cases hs with
      | checkLarge => simp [State.setPhase, Phase.Handed] at hyes
      | @skipLarge _ job' hm hp' hl hbit =>
        rw [job'.bit_of_allSet h.bits] at hbit
        cases hbit
    · cases hs with
      | @checkReaddir _ job' hm hp' hr =>
        cases hp.symm.trans hp'
        exact absurd hr hreaddir
  | checked job hl =>
    obtain ⟨-, hmark, hresult⟩ := htyped job (by rw [hp]; rfl)
    rw [hp] at hnext
    generalize s'.phase op = p at hnext hyes
    cases hnext with
    | submitLarge => exact ⟨job, by simp [State.handsOver, hp, Phase.job?], hmark, hresult⟩
    | dropLarge => cases hsee
  | logging job hr => exact absurd hr (htyped job (by rw [hp]; rfl)).1
  | flushing | ready | done | returned =>
    rw [hp] at hno
    exact absurd trivial hno

theorem settle_cases (e : Files) (op : Nat) (call : Call) :
    (∃ inode file, call = .open_ inode file ∧
      e.settle op call = e.setFile file (if e.result op = some 0 then .held 1 [] else .free)) ∨
    (∃ file n closing, e.files file = .held n closing ∧
      e.settle op call = e.setFile file (.held n (closing.erase op))) ∨
    e.settle op call = e := by
  cases call with
  | open_ inode file => exact .inl ⟨inode, file, rfl, rfl⟩
  | close =>
    simp only [Files.settle]
    split
    · exact .inr (.inl ⟨_, _, _, ‹_›, rfl⟩)
    · exact .inr (.inr rfl)
  | _ => exact .inr (.inr rfl)

theorem settle_call (e : Files) (op : Nat) (call : Call) :
    (e.settle op call).call = e.call ∧ (e.settle op call).result = e.result := by
  rcases settle_cases e op call with ⟨inode, file, -, heq⟩ | ⟨file, n, closing, -, heq⟩ | heq <;>
    rw [heq] <;> exact ⟨rfl, rfl⟩

theorem see_cases {s : State P} {e : Files} (hsee : Files.see s e l = some e') :
    (∃ op job call, l = .build op (some job) ∧ e.call op = some call ∧ job.type = call.logType ∧
      (∀ file ∈ call.file?, job.record.fileAddress = file) ∧
      e' = { e with result := Function.update e.result op (some job.record.returnValue) }) ∨
    (∃ op call, l = .ret op ∧ e.call op = some call ∧ e' = e.settle op call) ∨
    ((∀ op job, l ≠ .build op (some job)) ∧ e' = e) := by
  unfold Files.see at hsee
  split at hsee
  · split at hsee
    · obtain ⟨⟨hty, hfile⟩, heq⟩ := Option.ite_none_right_eq_some.mp hsee
      cases heq
      refine .inl ⟨_, _, _, rfl, ‹_›, hty, ?_, rfl⟩
      intro file hf
      rw [hf] at hfile
      simpa using hfile
    · obtain ⟨-, heq⟩ := Option.ite_none_left_eq_some.mp hsee
      cases heq
      exact .inr (.inr ⟨by simp, rfl⟩)
    · cases hsee
  · split at hsee
    · cases hsee
      exact .inr (.inl ⟨_, _, rfl, ‹_›, rfl⟩)
    · cases hsee
  · obtain ⟨-, heq⟩ := Option.ite_none_right_eq_some.mp hsee
    cases heq
    exact .inr (.inr ⟨by simp, rfl⟩)
  · cases hsee
  · rename_i hbuild _ _ _
    cases hsee
    exact .inr (.inr ⟨fun op job => hbuild op (some job), rfl⟩)

theorem see_call {s : State P} {e : Files} (hsee : Files.see s e l = some e') :
    e'.call = e.call ∧ ∀ op, e'.result op = e.result op ∨ ∃ job, l = .build op (some job) := by
  rcases see_cases hsee with ⟨op', job, call, rfl, -, -, -, rfl⟩ | ⟨op', call, -, -, rfl⟩ | ⟨-, rfl⟩
  · refine ⟨rfl, fun op => ?_⟩
    by_cases heq : op = op'
    · exact .inr ⟨job, by rw [heq]⟩
    · exact .inl (Function.update_of_ne heq _ _)
  · obtain ⟨hcall, hresult⟩ := settle_call e op' call
    exact ⟨hcall, fun op => .inl (congrFun hresult op)⟩
  · exact ⟨rfl, fun _ => .inl rfl⟩

theorem result_of_handed {s s' : State P} {e : Files} (hs : Step s l s')
    (hsee : Files.see s e l = some e') {op : Nat} (hyes : (s'.phase op).Handed) :
    e'.result op = e.result op := by
  refine ((see_call hsee).2 op).resolve_right ?_
  rintro ⟨job, rfl⟩
  cases hs
  simp [State.setPhase, Phase.Handed] at hyes

theorem Kept.marks_mono (h : c.Kept) (hs : Step c.1 l s') {m : FileMark} (hm : m ∈ c.1.marks) :
    m ∈ s'.marks := by
  rw [hs.marks h.bits]
  exact List.mem_append_left _ hm

theorem Kept.unclosed (h : c.Kept) (hs : Step c.1 l s') (hun : Unclosed s'.marks file) :
    (c.1.handsOver l).bind (fun job => job.record.mark?) = some (.opened file) ∨
      Unclosed c.1.marks file ∧
        (c.1.handsOver l).bind (fun job => job.record.mark?) ≠ some (.closed file) := by
  rw [hs.marks h.bits] at hun
  cases hm : (c.1.handsOver l).bind (fun job => job.record.mark?) with
  | none =>
    rw [hm, Option.toList_none, List.append_nil] at hun
    exact .inr ⟨hun, by simp⟩
  | some m =>
    rw [hm, Option.toList_some, unclosed_concat_iff] at hun
    exact hun.imp (congrArg some) (And.imp_right fun hne heq => hne (Option.some.inj heq))

theorem Kept.fits_step (h : c.Kept) (hs : Step c.1 l s') (hsee : Files.see c.1 c.2 l = some e') :
    Fits (s', e') file (c.2.files file) := by
  have hfits := h.fits file
  have hcall := (see_call hsee).1
  have hopener : (∀ op, c.2.files file ≠ .opening op) → Unclosed s'.marks file →
      Unclosed c.1.marks file ∧
        (c.1.handsOver l).bind (fun job => job.record.mark?) ≠ some (.closed file) := by
    intro hno hun
    refine (h.unclosed hs hun).resolve_left fun hm => ?_
    obtain ⟨op, hop, -⟩ := h.opener hs hm
    exact hno op hop
  cases hst : c.2.files file with
  | free =>
    rw [hst] at hfits
    exact fun hun => hfits (hopener (by simp [hst]) hun).1
  | opening op =>
    rw [hst] at hfits
    obtain ⟨⟨inode, hop⟩, hsent, hunsent⟩ := hfits
    refine ⟨⟨inode, by rw [hcall]; exact hop⟩, ?_, ?_⟩
    · intro hyes hzero
      rw [result_of_handed hs hsee hyes] at hzero
      by_cases hold : (c.1.phase op).Handed
      · exact h.marks_mono hs (hsent hold hzero)
      · obtain ⟨job, hjob, hmark, hresult⟩ := h.sent hs hsee hop (.inl rfl) hold hyes
        rw [hresult, Option.some.injEq] at hzero
        change _ ∈ s'.marks
        rw [hs.marks h.bits, hjob, Option.bind_some, hmark, Call.mark?, if_pos hzero]
        simp
    · intro hres hun
      rcases h.unclosed hs hun with hm | ⟨hun, -⟩
      · obtain ⟨op', hop', hno, hyes, hzero⟩ := h.opener hs hm
        cases hst.symm.trans hop'
        exact hres hyes ((result_of_handed hs hsee hyes).trans hzero)
      · refine hunsent (fun hold => ?_) hun
        have hyes := hs.handed hold
        rw [← result_of_handed hs hsee hyes]
        exact hres hyes
  | held n closing =>
    rw [hst] at hfits
    obtain ⟨hopened, hclose⟩ := hfits
    refine ⟨h.marks_mono hs hopened, fun hun => ?_⟩
    obtain ⟨hun, hnot⟩ := hopener (by simp [hst]) hun
    refine (hclose hun).imp_right ?_
    rintro ⟨op, hop, hno, owner, hc⟩
    refine ⟨op, hop, fun hyes => ?_, owner, by rw [hcall]; exact hc⟩
    obtain ⟨job, hjob, hmark, -⟩ := h.sent hs hsee hc (.inr rfl) hno hyes
    rw [hjob, Option.bind_some, hmark] at hnot
    exact hnot rfl

theorem see_files {s : State P} {e : Files} (hsee : Files.see s e l = some e') :
    e'.files = e.files ∨
      ∃ op call, l = .ret op ∧ e.call op = some call ∧ e' = e.settle op call := by
  rcases see_cases hsee with ⟨op, job, call, -, -, -, -, rfl⟩ | hret | ⟨-, rfl⟩
  · exact .inl rfl
  · exact .inr hret
  · exact .inl rfl

theorem Fits.update {s : State P} {e : Files} {files : Ptr → FileState}
    (hfits : ∀ file, Fits (s, e) file (files file)) {f : Ptr} {st : FileState}
    (hst : Fits (s, e) f st) (file : Ptr) :
    Fits (s, e) file (Function.update files f st file) := by
  by_cases hf : file = f
  · subst hf
    rwa [Function.update_self]
  · rw [Function.update_of_ne hf]
    exact hfits file

theorem Kept.fits_inner (h : c.Kept) (hs : Step c.1 l s') (hsee : Files.see c.1 c.2 l = some e')
    (file : Ptr) : Fits (s', e') file (e'.files file) := by
  have hfits : ∀ file, Fits (s', e') file (c.2.files file) := fun _ => h.fits_step hs hsee
  rcases see_files hsee with heq | ⟨op, call, rfl, hcall, rfl⟩
  · rw [heq]
    exact hfits file
  · obtain ⟨hp, hreturned⟩ : c.1.phase op = .done ∧ s'.phase op = .returned := by
      cases hs with
      | ret hm hp => exact ⟨hp, Function.update_self ..⟩
    have hhanded : (s'.phase op).Handed := by
      rw [hreturned]
      trivial
    rcases settle_cases c.2 op call with ⟨inode, f, rfl, heq⟩ | ⟨f, n, closing, hst, heq⟩ | heq
    · have hopening := hfits f
      rw [h.opens op inode f hcall (by simp [hp])] at hopening
      obtain ⟨-, hsent, hunsent⟩ := hopening
      refine Fits.update hfits ?_ file
      split
      · rename_i hzero
        exact ⟨hsent hhanded hzero, fun _ => .inl Nat.one_pos⟩
      · rename_i hnonzero
        exact hunsent fun _ => hnonzero
    · have hheld := hfits f
      rw [hst] at hheld
      rw [heq] at hfits hheld ⊢
      have hleft : Fits (s', c.2.setFile f (.held n (closing.erase op))) f
          (.held n (closing.erase op)) := by
        refine ⟨hheld.1, fun hun => (hheld.2 hun).imp_right ?_⟩
        rintro ⟨op', hop', hno, hclose⟩
        refine ⟨op', (List.mem_erase_of_ne ?_).mpr hop', hno, hclose⟩
        rintro rfl
        exact hno hhanded
      exact Fits.update hfits hleft file
    · rw [heq] at hfits ⊢
      exact hfits file

theorem Kept.opens_inner (h : c.Kept) (hs : Step c.1 l s') (hsee : Files.see c.1 c.2 l = some e')
    {op : Nat} {inode file : Ptr} (hcall : c.2.call op = some (.open_ inode file))
    (hp : s'.phase op ≠ .returned) : e'.files file = .opening op := by
  have hopens := h.opens op inode file hcall fun hret => hp (hs.returned_stays hret)
  rcases see_files hsee with heq | ⟨op', call, rfl, hcall', rfl⟩
  · rw [heq]
    exact hopens
  · obtain ⟨hp', hreturned⟩ : c.1.phase op' = .done ∧ s'.phase op' = .returned := by
      cases hs with
      | ret hm hdone => exact ⟨hdone, Function.update_self ..⟩
    rcases settle_cases c.2 op' call with ⟨inode', f, rfl, heq⟩ | ⟨f, n, closing, hst, heq⟩ | heq
    · have hne : file ≠ f := by
        rintro rfl
        have hopens' := h.opens op' inode' file hcall' (by simp [hp'])
        rw [hopens] at hopens'
        cases hopens'
        exact hp hreturned
      rw [heq]
      exact (Function.update_of_ne hne _ _).trans hopens
    · have hne : file ≠ f := by
        rintro rfl
        rw [hst] at hopens
        cases hopens
      rw [heq]
      exact (Function.update_of_ne hne _ _).trans hopens
    · rw [heq]
      exact hopens

theorem Kept.typed_inner (h : c.Kept) (hs : Step c.1 l s') (hsee : Files.see c.1 c.2 l = some e') :
    Typed (s', e') := by
  intro op job hjob
  rw [(see_call hsee).1]
  rcases hs.job? hjob with hold | rfl
  · obtain ⟨call, hcall, hty, hfile, hresult⟩ := h.typed op job hold
    refine ⟨call, hcall, hty, hfile, ?_⟩
    refine (((see_call hsee).2 op).resolve_right ?_).trans hresult
    rintro ⟨job', rfl⟩
    cases hs with
    | build hm hp =>
      rw [hp] at hold
      cases hold
  · rcases see_cases hsee with
      ⟨op', job', call, heq, hcall, hty, hfile, rfl⟩ | ⟨op', call, heq, -⟩ | ⟨hno, -⟩
    · cases heq
      exact ⟨call, hcall, hty, hfile, Function.update_self ..⟩
    · cases heq
    · exact absurd rfl (hno op job)

theorem Kept.wellFormed_inner (h : c.Kept) (hs : Step c.1 l s') : WellFormed s'.marks := by
  rw [hs.marks h.bits]
  cases hm : (c.1.handsOver l).bind (fun job => job.record.mark?) with
  | none =>
    rw [Option.toList_none, List.append_nil]
    exact h.wellFormed
  | some m =>
    refine h.wellFormed.concat ?_ ?_
    · intro file huse
      obtain ⟨job, hjob, hmark⟩ := Option.bind_eq_some_iff.mp hm
      obtain ⟨op, heq, -, -⟩ := hs.handsOver hjob
      obtain ⟨call, hcall, hty, hfile, -⟩ := h.typed op job (heq ▸ hjob)
      rw [Job.mark?_eq hty hfile] at hmark
      have hbegan : call.file? = some file ∧ call.logType ≠ .open_ := by
        cases call with
        | open_ inode f =>
          obtain ⟨-, hmark⟩ := Option.ite_none_right_eq_some.mp hmark
          cases hmark
          simp at huse
        | read f | write f | close f =>
          cases hmark
          refine ⟨?_, by simp [Call.logType]⟩
          simpa [Call.file?] using huse
        | readdir | mkdir | unlink | link | rename | rmdir => cases hmark
      exact h.began op call file hcall hbegan.2 hbegan.1
    · rintro file rfl
      obtain ⟨op, hop, hno, -⟩ := h.opener hs hm
      have hfits := h.fits file
      rw [hop] at hfits
      exact hfits.2.2 fun hyes => absurd hyes hno

theorem Kept.bits_inner (h : c.Kept) (hs : Step c.1 l s') (hsee : Files.see c.1 c.2 l = some e') :
    AllSet s'.sb.trInfo.bitmap := by
  rcases hs.bitmap h.describes.inBounds with heq | ⟨cmd, rfl, heq⟩
  · rw [heq]
    exact h.bits
  · rw [heq]
    intro ty
    obtain ⟨hall, -⟩ := Option.ite_none_right_eq_some.mp hsee
    exact List.all_eq_true.mp hall ty (by cases ty <;> decide)

theorem Kept.inner (h : c.Kept) (hs : Step c.1 l s') (hsee : Files.see c.1 c.2 l = some e') :
    Kept (s', e') where
  describes := hs.describes h.describes
  bits := h.bits_inner hs hsee
  wellFormed := h.wellFormed_inner hs
  fresh op hp := by
    rw [(see_call hsee).1]
    refine h.fresh op ?_
    rcases hs.phase op with heq | hnext
    · exact heq ▸ hp
    · change s'.phase op = .idle at hp
      rw [hp] at hnext
      generalize c.1.phase op = p at hnext
      cases hnext
  typed := h.typed_inner hs hsee
  began op call file hcall hty hfile := by
    rw [(see_call hsee).1] at hcall
    exact h.marks_mono hs (h.began op call file hcall hty hfile)
  opens op inode file hcall hp := by
    rw [(see_call hsee).1] at hcall
    exact h.opens_inner hs hsee hcall hp
  fits := h.fits_inner hs hsee

theorem Kept.setFile {st : FileState} (h : c.Kept) (hst : c.Fits file st)
    (hold : ∀ op, c.2.files file ≠ .opening op) : Kept (c.1, c.2.setFile file st) where
  describes := h.describes
  bits := h.bits
  wellFormed := h.wellFormed
  fresh := h.fresh
  typed := h.typed
  began := h.began
  opens op inode f hcall hp := by
    have hopens := h.opens op inode f hcall hp
    have hne : f ≠ file := by
      rintro rfl
      exact hold op hopens
    exact (Function.update_of_ne hne _ _).trans hopens
  fits := Fits.update h.fits hst

theorem Kept.setCall {op : Nat} {call : Call} {files : Ptr → FileState} (h : c.Kept)
    (hp : c.1.phase op = .invoked) (hnone : c.2.call op = none)
    (hbegan : ∀ file, call.file? = some file → call.logType ≠ .open_ → .opened file ∈ c.1.marks)
    (hopens : ∀ inode file, call = .open_ inode file → files file = .opening op)
    (hkeep : ∀ file op', c.2.files file = .opening op' → files file = .opening op')
    (hfits : ∀ file, files file = c.2.files file ∨
      Fits (c.1, ⟨Function.update c.2.call op (some call), c.2.result, files⟩) file (files file)) :
    Kept (c.1, ⟨Function.update c.2.call op (some call), c.2.result, files⟩) where
  describes := h.describes
  bits := h.bits
  wellFormed := h.wellFormed
  fresh op' hidle := by
    have hne : op' ≠ op := by
      rintro rfl
      rw [hp] at hidle
      cases hidle
    exact (Function.update_of_ne hne _ _).trans (h.fresh op' hidle)
  typed op' job hjob := by
    have hne : op' ≠ op := by
      rintro rfl
      rw [hp] at hjob
      cases hjob
    simp only [Function.update_of_ne hne]
    exact h.typed op' job hjob
  began op' call' file hcall hty hfile := by
    by_cases heq : op' = op
    · subst heq
      simp only [Function.update_self, Option.some.injEq] at hcall
      subst hcall
      exact hbegan file hfile hty
    · simp only [Function.update_of_ne heq] at hcall
      exact h.began op' call' file hcall hty hfile
  opens op' inode file hcall hret := by
    by_cases heq : op' = op
    · subst heq
      simp only [Function.update_self, Option.some.injEq] at hcall
      exact hopens inode file hcall
    · simp only [Function.update_of_ne heq] at hcall
      exact hkeep file op' (h.opens op' inode file hcall hret)
  fits file := by
    have hother : ∀ op' call', c.2.call op' = some call' →
        Function.update c.2.call op (some call) op' = some call' := by
      intro op' call' hcall
      rw [Function.update_of_ne, hcall]
      rintro rfl
      rw [hnone] at hcall
      cases hcall
    rcases hfits file with heq | hfits
    · have hold := h.fits file
      change Fits _ file (files file)
      rw [heq]
      cases hst : c.2.files file with
      | free =>
        rw [hst] at hold
        exact hold
      | opening op' =>
        rw [hst] at hold
        obtain ⟨⟨inode, hcall⟩, hsent⟩ := hold
        exact ⟨⟨inode, hother op' _ hcall⟩, hsent⟩
      | held n closing =>
        rw [hst] at hold
        refine ⟨hold.1, fun hun => (hold.2 hun).imp_right ?_⟩
        rintro ⟨op', hop', hno, owner, hcall⟩
        exact ⟨op', hop', hno, owner, hother op' _ hcall⟩
    · exact hfits

theorem Kept.claim {op : Nat} {call : Call} {st : FileState} (h : c.Kept)
    (hp : c.1.phase op = .invoked) (hnone : c.2.call op = none) (hfile : call.file? = some file)
    (hold : ∀ op', c.2.files file ≠ .opening op')
    (hbegan : call.logType ≠ .open_ → .opened file ∈ c.1.marks)
    (hopen : call.logType = .open_ → st = .opening op)
    (hst : Fits (c.1, ⟨Function.update c.2.call op (some call), c.2.result, c.2.files⟩) file st) :
    Kept (c.1, { c.2.setFile file st with call := Function.update c.2.call op (some call) }) := by
  refine h.setCall hp hnone ?_ ?_ ?_ ?_
  · intro f hf hty
    cases hfile.symm.trans hf
    exact hbegan hty
  · rintro inode f rfl
    cases hfile
    exact (Function.update_self ..).trans (hopen rfl)
  · intro f op' hop'
    have hne : f ≠ file := by
      rintro rfl
      exact hold op' hop'
    exact (Function.update_of_ne hne _ _).trans hop'
  · intro f
    by_cases hf : f = file
    · subst hf
      right
      simp only [Files.setFile, Function.update_self]
      exact hst
    · exact .inl (Function.update_of_ne hf _ _)

theorem Kept.begin_ {op : Nat} {call : Call} {e : Files} (h : c.Kept)
    (hp : c.1.phase op = .invoked) (hnone : c.2.call op = none)
    (hclaim : c.2.claim op call = some e) :
    Kept (c.1, { e with call := Function.update e.call op (some call) }) := by
  cases call with
  | open_ inode file =>
    simp only [Files.claim] at hclaim
    split at hclaim
    case h_2 => cases hclaim
    case h_1 hst =>
      cases hclaim
      have hfits := h.fits file
      rw [hst] at hfits
      refine h.claim hp hnone rfl (by simp [hst]) (fun hty => absurd rfl hty) (fun _ => rfl)
        ⟨⟨inode, Function.update_self ..⟩, fun hyes => ?_, fun _ => hfits⟩
      simp [hp, Phase.Handed] at hyes
  | read file | write file | readdir file =>
    simp only [Files.claim] at hclaim
    split at hclaim
    case h_2 => cases hclaim
    case h_1 hst =>
      cases hclaim
      have hfits := h.fits file
      rw [hst] at hfits
      refine h.setCall hp hnone ?_ ?_ (fun _ _ hop => hop) (fun _ => .inl rfl)
      · intro f hf _
        cases hf
        exact hfits.1
      · intro inode f hcall
        cases hcall
  | close file owner =>
    simp only [Files.claim] at hclaim
    split at hclaim
    case h_2 => cases hclaim
    case h_1 hst =>
      cases hclaim
      have hfits := h.fits file
      rw [hst] at hfits
      refine h.claim hp hnone rfl (by simp [hst]) (fun _ => hfits.1) (fun hopen => by cases hopen)
        ⟨hfits.1, fun _ => .inr ⟨op, List.mem_cons_self, ?_, owner, Function.update_self ..⟩⟩
      simp [hp, Phase.Handed]
  | mkdir | unlink | link | rename | rmdir =>
    cases hclaim
    refine h.setCall hp hnone ?_ ?_ (fun _ _ hop => hop) (fun _ => .inl rfl)
    · intro file hfile
      cases hfile
    · intro inode file hcall
      cases hcall

theorem Kept.outer {a : FileLabel} (h : c.Kept) (ha : Files.act c.1 c.2 a = some e') :
    Kept (c.1, e') := by
  cases a with
  | begin_ op call =>
    simp only [Files.act] at ha
    split at ha
    case h_2 => cases ha
    case h_1 hp hnone =>
      obtain ⟨e, hclaim, rfl⟩ := Option.map_eq_some_iff.mp ha
      exact h.begin_ hp hnone hclaim
  | dup file =>
    simp only [Files.act] at ha
    split at ha
    case h_2 => cases ha
    case h_1 n closing hst =>
      cases ha
      have hfits := h.fits file
      rw [hst] at hfits
      exact h.setFile ⟨hfits.1, fun _ => .inl (Nat.succ_pos _)⟩ (by simp [hst])
  | release file =>
    simp only [Files.act] at ha
    split at ha
    case h_2 => cases ha
    case h_1 hst =>
      cases ha
      have hfits := h.fits file
      rw [hst] at hfits
      refine h.setFile (fun hun => ?_) (by simp [hst])
      rcases hfits.2 hun with hpos | ⟨op, hop, -⟩
      · exact absurd hpos (Nat.lt_irrefl 0)
      · cases hop

theorem start_kept (P : PageSize) : (Filed.start P).Kept where
  describes := start_describes P
  bits := allSet_fresh
  wellFormed := .nil
  fresh _ _ := rfl
  typed _ _ h := by cases h
  began _ _ _ h := by cases h
  opens _ _ _ h := by cases h
  fits _ := by
    rintro hun
    cases hun.opened

theorem Kept.step {c' : Filed P} {a : Label P ⊕ FileLabel} (h : c.Kept) (hs : step c a = some c') :
    c'.Kept := by
  cases a with
  | inl l =>
    obtain ⟨hstep, hsee⟩ := Surroundings.step_inl.mp hs
    exact h.inner (Step.of_step hstep) hsee
  | inr a =>
    obtain ⟨heq, hact⟩ := Surroundings.step_inr.mp hs
    have houter := h.outer hact
    rwa [← heq] at houter

end Filed

theorem Call.seen {σ : Type u} {K : Kernel σ} {T : Tracing} {call : Call} (hT : T.Grants K call)
    {s : σ} {e : Exit σ} (he : call.trfs K T P s = .ok e) :
    (∀ sub ∈ e.submitted, sub.record.type = call.logType.toByte ∧
        ∀ file ∈ call.file?, sub.record.fileAddress = file) ∧
      (call.logType = .open_ ∨ call.logType = .close →
        ∃ sub, e.submitted = [sub] ∧ sub.record.returnValue = e.ret) := by
  refine ⟨fun sub hsub => ?_, fun hty => ?_⟩
  · have hsubmits := call.submits he hsub
    exact ⟨hsubmits.type_eq, fun file hfile => hsubmits.fileAddress_eq hfile⟩
  · cases call with
    | open_ inode file =>
      have hhashed : K.dUnhashed s (K.fileDentry file) = false ∧
          (K.allocFileInfo file s).1 = true := by
        simp only [Call.trfs, trfsOpen] at he
        split at he
        case isTrue => cases he
        case isFalse hhashed =>
          split at he
          case isTrue => cases he
          case isFalse halloc => exact ⟨by simpa using hhashed, by simpa using halloc⟩
      obtain ⟨e', r, buf, he', hsub, -, hret⟩ := (trfsOpen_records (P := P) s hT).mpr hhashed
      cases he.symm.trans he'
      exact ⟨_, hsub, hret⟩
    | close file owner =>
      obtain ⟨e', r, buf, he', hsub, -, hret⟩ := trfsFlush_records s hT
      cases he.symm.trans he'
      exact ⟨_, hsub, hret⟩
    | _ => simp [Call.logType] at hty

theorem traces_well_formed (P : PageSize) {labels : List (Label P ⊕ FileLabel)} {c : Filed P}
    (h : run Filed.step (Filed.start P) labels = some c) :
    c.1.sb.trInfo.stream = c.1.ledger.log.flatMap Segment.bytes ∧
      ∀ rs, rs <+: c.1.ledger.entries.map Prod.snd → WellFormed (rs.filterMap Record.mark?) := by
  have hkept : c.Kept := run_invariant Filed.Kept (fun _ _ _ hc hs => hc.step hs)
    (Filed.start_kept P) h
  refine ⟨hkept.describes.stream, fun rs hrs => ?_⟩
  exact hkept.wellFormed.of_prefix ((hrs.trans (List.prefix_append _ _)).filterMap _)

def rootOpen : Job .small :=
  (openRecord_sound (K := Kernel.inert) (T := .plenty) 2 0 .root (some TmpPath.root.chars) ()
    (fun _ => rfl)).job

def emptyReadRecord : Record := readRecord (Kernel.inert : Kernel Unit) 2 0 ()

theorem emptyReadRecord_transfer : emptyReadRecord.Transfer .read :=
  readRecord_transfer 2 () (by decide)

def emptyRead : Job .small :=
  (emptyReadRecord_transfer.sound (T := .plenty) (P := .small)
    (show _ ∈ Tracing.plenty.transferred .small emptyReadRecord 4 from
      List.mem_singleton_self _)).job

def addressReused : List (Label .small ⊕ FileLabel) :=
  [.inl (.invoke 1), .inr (.begin_ 1 (.open_ 1 2)), .inl (.build 1 (some rootOpen)),
    .inl (.submit 1), .inl (.ret 1),
    .inl (.invoke 2), .inr (.begin_ 2 (.read 2 4 0 5)), .inl (.build 2 (some emptyRead)),
    .inl (.invoke 3), .inr (.begin_ 3 (.close 2 6)), .inl (.build 3 (some plainClose)),
    .inl (.submit 3), .inl (.ret 3), .inl (.submit 2), .inl (.ret 2), .inr (.release 2),
    .inl (.invoke 4), .inr (.begin_ 4 (.open_ 1 2)), .inl (.build 4 (some rootOpen)),
    .inl (.submit 4), .inl .take, .inl .work, .inl .take, .inl .work, .inl .take, .inl .work,
    .inl .take, .inl .work, .inl (.ret 4)]

theorem traces_well_formed_addressReused :
    ∃ c, run Filed.step (Filed.start .small) addressReused = some c ∧
      (c.1.ledger.entries.map Prod.snd).filterMap Record.mark? =
        [.opened 2, .closed 2, .used 2, .opened 2] ∧
      c.1.sb.trInfo.stream = c.1.ledger.log.flatMap Segment.bytes ∧
      ∀ rs, rs <+: c.1.ledger.entries.map Prod.snd → WellFormed (rs.filterMap Record.mark?) := by
  have hrun : ((run Filed.step (Filed.start .small) addressReused).map fun c =>
      (c.1.ledger.entries.map Prod.snd).filterMap Record.mark?) =
      some [.opened 2, .closed 2, .used 2, .opened 2] := by decide +kernel
  obtain ⟨c, hc, hmarks⟩ := Option.map_eq_some_iff.mp hrun
  exact ⟨c, hc, hmarks, traces_well_formed .small hc⟩

end TraceFS.Trfs
