import TraceFS.Treplay.Descriptors
import TraceFS.Treplay.Reissue

universe u

namespace TraceFS.Treplay

open TraceFS.Lib TraceFS.Linux

/-- What the traced processes do with their descriptors, and what the replay makes of the record
that the call left in the trace. The kernel flushes a `struct file` at every close of a
descriptor, which is what is recorded as a close; of `dup` and `fork` there is no record. -/
inductive Move where
  | open_ (file : Ptr) (e : Event)
  | dup (file : Ptr)
  | read (file : Ptr) (e : Event)
  | write (file : Ptr) (e : Event)
  | close (file : Ptr) (e : Event)

structure Shared where
  count : Ptr → Nat
  used : List Ptr
  world : World

def Shared.start (cwd : List Byte) (foreign : List Descriptor) : Shared where
  count _ := 0
  used := []
  world := .start cwd foreign

def Event.Of (e : Event) (ty : LogType) (file : Ptr) : Prop :=
  LogType.ofByte e.record.type = some ty ∧ e.record.fileAddress = file

instance (e : Event) (ty : LogType) (file : Ptr) : Decidable (e.Of ty file) :=
  inferInstanceAs (Decidable (_ ∧ _))

/-- The replayed system does as the traced one did: an open that succeeded succeeds again, and a
close succeeds on every descriptor that is open. No address is used twice. -/
def Shared.step (s : Shared) : Move → Option Shared
  | .open_ file e =>
    if e.Of .checkOpen file ∧ file ∉ s.used ∧ 0 ≤ e.ret.toInt then
      (s.world.step e).map fun w =>
        { count := Function.update s.count file 1, used := file :: s.used, world := w }
    else none
  | .dup file =>
    if 0 < s.count file then
      some { s with count := Function.update s.count file (s.count file + 1) }
    else none
  | .read file e =>
    if e.Of .checkRead file ∧ 0 < s.count file then
      (s.world.step e).map fun w => { s with world := w }
    else none
  | .write file e =>
    if e.Of .checkWrite file ∧ 0 < s.count file then
      (s.world.step e).map fun w => { s with world := w }
    else none
  | .close file e =>
    if e.Of .checkClose file ∧ 0 < s.count file ∧
        e.released = decide (s.world.InUse (mapFind s.world.map file)) then
      (s.world.step e).map fun w =>
        { s with count := Function.update s.count file (s.count file - 1), world := w }
    else none

def Shared.InStep (s : Shared) : Prop :=
  ∀ file, 0 < s.count file ↔ (s.world.liveOpen file).isSome

/-- A read, write or close is replayed on an open descriptor, and the replayed file is closed by
the close of the last descriptor. -/
def Shared.Replays (s : Shared) (m : Move) : Prop :=
  (match m with
    | .read file _ | .write file _ | .close file _ => s.world.InUse (mapFind s.world.map file)
    | .open_ .. | .dup _ => True) ∧
  ∀ s' ∈ s.step m, s'.InStep

def Shared.ClosesLast (s : Shared) : Move → Prop
  | .close file _ => s.count file = 1
  | _ => True

instance (s : Shared) (m : Move) : Decidable (s.ClosesLast m) :=
  match m with
  | .close file _ => inferInstanceAs (Decidable (s.count file = 1))
  | .open_ .. | .dup _ | .read .. | .write .. => inferInstanceAs (Decidable True)

theorem Event.of_submits {σ : Type u} {K : Kernel σ} {T : Trfs.Tracing} {P : Trfs.PageSize}
    {c : Trfs.Call} {x : Trfs.Exit σ} {sub : Trfs.Submission} {i : BitVec 32} {e : Event}
    {file : Ptr} (h : c.Submits K T P x sub) (hfile : c.file? = some file)
    (hr : Agrees c.logType (sub.record.withId i) sub.buf e.record) :
    e.Of (LogType.ofKernel c.logType) file :=
  ⟨hr.ofByte_type h.type_eq, hr.fileAddress.trans (h.fileAddress_eq hfile)⟩

section World

variable {w w' : World} {e : Event} {file : Ptr}

theorem World.step_open (he : e.Of .checkOpen file) (hret : 0 ≤ e.ret.toInt)
    (h : w.step e = some w') :
    ¬ w.InUse e.ret ∧ w'.map = w.map ++ [⟨file, e.ret⟩] ∧
      w'.live = ⟨file, e.ret, hret⟩ :: w.live ∧ w'.foreign = w.foreign := by
  obtain ⟨hty, rfl⟩ := he
  unfold World.step at h
  split at h
  · cases h
  case h_2 hcall =>
    rw [replayCall, hty] at hcall
    obtain ⟨path, hc⟩ := buildPath_cases hcall
    cases hc
  case h_3 c hcall =>
    rw [replayCall, hty] at hcall
    obtain ⟨path, hc⟩ := buildPath_cases hcall
    cases hc
    split at h
    case isFalse => cases h
    case isTrue hallows =>
      cases h
      have hne : e.ret ≠ -1 := by
        intro heq
        rw [heq] at hret
        exact absurd hret (by decide)
      refine ⟨(hallows.resolve_left hne).2, ?_, ?_, rfl⟩
      · simp only [replayReturn, hty, mapAdd]
        rw [if_neg (by omega)]
      · simp [World.perform, Descriptor.of?, hret]

theorem World.step_eq_perform {c : Syscall} (hcall : replayCall w.cwd w.map e.record = .ok (some c))
    (hty : LogType.ofByte e.record.type ≠ some .checkOpen) (hmap : (w.perform e c).map = w.map)
    (h : w.step e = some w') : w' = w.perform e c := by
  unfold World.step at h
  simp only [hcall] at h
  split at h <;> cases h
  rw [replayReturn_map e.ret hty, ← hmap]

theorem World.step_transfer (he : e.Of .checkRead file ∨ e.Of .checkWrite file)
    (h : w.step e = some w') : w' = w := by
  rcases he with ⟨hty, -⟩ | ⟨hty, -⟩
  · have hcall : replayCall w.cwd w.map e.record =
        .ok (some (.read (mapFind w.map e.record.fileAddress) e.record.dataLength)) := by
      rw [replayCall, hty]
    exact World.step_eq_perform hcall (by simp [hty]) rfl h
  · have hcall : replayCall w.cwd w.map e.record =
        .ok (some (.write (mapFind w.map e.record.fileAddress)
          ((e.record.data.getD []).take e.record.dataLength.toNat) e.record.dataLength)) := by
      rw [replayCall, hty]
    exact World.step_eq_perform hcall (by simp [hty]) rfl h

theorem World.step_close (he : e.Of .checkClose file) (h : w.step e = some w') :
    w' = w.perform e (.close (mapFind w.map file)) := by
  obtain ⟨hty, rfl⟩ := he
  have hcall : replayCall w.cwd w.map e.record =
      .ok (some (.close (mapFind w.map e.record.fileAddress))) := by rw [replayCall, hty]
  refine World.step_eq_perform hcall (by simp [hty]) ?_ h
  simp only [World.perform]
  split <;> rfl

theorem mapFind_append_of_ne (map : List FileMap) {addr : Ptr} (fd : CInt) (h : file ≠ addr) :
    mapFind (map ++ [⟨file, fd⟩]) addr = mapFind map addr := by
  simp [mapFind, List.find?_append, h]

theorem mapFind_append_self {map : List FileMap} (fd : CInt) (h : ∀ f ∈ map, f.fileAddr ≠ file) :
    mapFind (map ++ [⟨file, fd⟩]) file = fd := by
  have hnone : map.find? (·.fileAddr = file) = none := by simpa using h
  simp [mapFind, List.find?_append, hnone]

theorem World.liveOpen_isSome : (w.liveOpen file).isSome ↔ ∃ o ∈ w.live, o.fileAddr = file := by
  simp [World.liveOpen]

end World

inductive Shared.Next (s : Shared) : Move → Shared → Prop where
  | open_ {file e w} (hfresh : file ∉ s.used) (hret : 0 ≤ e.ret.toInt)
      (hfree : ¬ s.world.InUse e.ret) (hmap : w.map = s.world.map ++ [⟨file, e.ret⟩])
      (hlive : w.live = ⟨file, e.ret, hret⟩ :: s.world.live) :
    Next s (.open_ file e)
      { count := Function.update s.count file 1, used := file :: s.used, world := w }
  | dup {file} (hcount : 0 < s.count file) :
    Next s (.dup file) { s with count := Function.update s.count file (s.count file + 1) }
  | read {file e} (hcount : 0 < s.count file) : Next s (.read file e) s
  | write {file e} (hcount : 0 < s.count file) : Next s (.write file e) s
  | close {file e} (hcount : 0 < s.count file)
      (hreleased : e.released = decide (s.world.InUse (mapFind s.world.map file))) :
    Next s (.close file e) { s with
      count := Function.update s.count file (s.count file - 1)
      world := s.world.perform e (.close (mapFind s.world.map file)) }

theorem Shared.Next.of_step {s s' : Shared} {m : Move} (h : s.step m = some s') : s.Next m s' := by
  cases m with
  | open_ file e =>
    obtain ⟨⟨he, hfresh, hret⟩, h⟩ := Option.ite_none_right_eq_some.mp h
    obtain ⟨w, hw, rfl⟩ := Option.map_eq_some_iff.mp h
    obtain ⟨hfree, hmap, hlive, -⟩ := World.step_open he hret hw
    exact .open_ hfresh hret hfree hmap hlive
  | dup file =>
    obtain ⟨hcount, h⟩ := Option.ite_none_right_eq_some.mp h
    cases h
    exact .dup hcount
  | read file e =>
    obtain ⟨⟨he, hcount⟩, h⟩ := Option.ite_none_right_eq_some.mp h
    obtain ⟨w, hw, rfl⟩ := Option.map_eq_some_iff.mp h
    cases World.step_transfer (.inl he) hw
    exact .read hcount
  | write file e =>
    obtain ⟨⟨he, hcount⟩, h⟩ := Option.ite_none_right_eq_some.mp h
    obtain ⟨w, hw, rfl⟩ := Option.map_eq_some_iff.mp h
    cases World.step_transfer (.inr he) hw
    exact .write hcount
  | close file e =>
    obtain ⟨⟨he, hcount, hreleased⟩, h⟩ := Option.ite_none_right_eq_some.mp h
    obtain ⟨w, hw, rfl⟩ := Option.map_eq_some_iff.mp h
    cases World.step_close he hw
    exact .close hcount hreleased

structure Shared.Kept (s : Shared) : Prop where
  map_used : ∀ f ∈ s.world.map, f.fileAddr ∈ s.used
  count_used : ∀ file, 0 < s.count file → file ∈ s.used
  inStep : s.InStep
  served : ∀ o ∈ s.world.live, mapFind s.world.map o.fileAddr = o.fd.val
  distinct : ∀ o ∈ s.world.live, ∀ o' ∈ s.world.live, o.fd = o'.fd → o.fileAddr = o'.fileAddr

namespace Shared.Kept

variable {s s' : Shared} {file : Ptr} {e : Event} {m : Move}

theorem used_of_live (h : s.Kept) {o : Live} (ho : o ∈ s.world.live) : o.fileAddr ∈ s.used :=
  h.count_used _ ((h.inStep _).mpr (World.liveOpen_isSome.mpr ⟨o, ho, rfl⟩))

theorem inUse (h : s.Kept) (hcount : 0 < s.count file) :
    s.world.InUse (mapFind s.world.map file) := by
  obtain ⟨o, ho, rfl⟩ := World.liveOpen_isSome.mp ((h.inStep file).mp hcount)
  exact .inl ⟨o, ho, (h.served o ho).symm⟩

theorem close_live (h : s.Kept) (hcount : 0 < s.count file)
    (hreleased : e.released = decide (s.world.InUse (mapFind s.world.map file))) (o : Live) :
    o ∈ (s.world.perform e (.close (mapFind s.world.map file))).live ↔
      o ∈ s.world.live ∧ o.fileAddr ≠ file := by
  obtain ⟨o₁, ho₁, rfl⟩ := World.liveOpen_isSome.mp ((h.inStep file).mp hcount)
  rw [decide_eq_true (h.inUse hcount)] at hreleased
  simp only [World.perform, hreleased, if_true, List.mem_filter, decide_eq_true_eq]
  refine and_congr_right fun ho => not_congr ?_
  rw [h.served o₁ ho₁]
  constructor
  · intro hfd
    exact h.distinct o ho o₁ ho₁ (Subtype.ext hfd)
  · intro haddr
    rw [← h.served o ho, haddr, h.served o₁ ho₁]

theorem step_open {w : World} (h : s.Kept) (hfresh : file ∉ s.used) (hret : 0 ≤ e.ret.toInt)
    (hfree : ¬ s.world.InUse e.ret) (hmap : w.map = s.world.map ++ [⟨file, e.ret⟩])
    (hlive : w.live = ⟨file, e.ret, hret⟩ :: s.world.live) :
    Shared.Kept
      { count := Function.update s.count file 1, used := file :: s.used, world := w } := by
  have hold : ∀ o ∈ s.world.live, o.fileAddr ≠ file := by
    rintro o ho rfl
    exact hfresh (h.used_of_live ho)
  have hself : mapFind w.map file = e.ret := by
    rw [hmap]
    refine mapFind_append_self e.ret ?_
    rintro f hf rfl
    exact hfresh (h.map_used f hf)
  constructor
  · intro f hf
    simp only [hmap, List.mem_append, List.mem_singleton] at hf
    rcases hf with hf | rfl
    · exact List.mem_cons_of_mem _ (h.map_used f hf)
    · exact List.mem_cons_self
  · intro f hf
    by_cases heq : f = file
    · exact heq ▸ List.mem_cons_self
    · simp only [Function.update_of_ne heq] at hf
      exact List.mem_cons_of_mem _ (h.count_used f hf)
  · intro f
    by_cases heq : f = file
    · subst heq
      simp [World.liveOpen, hlive]
    · have hne : file ≠ f := Ne.symm heq
      simpa [World.liveOpen, hlive, Function.update_of_ne heq, hne] using h.inStep f
  · intro o ho
    simp only [hlive, List.mem_cons] at ho
    rcases ho with rfl | ho
    · exact hself
    · simp only [hmap]
      rw [mapFind_append_of_ne _ _ (hold o ho).symm]
      exact h.served o ho
  · intro o ho o' ho' hfd
    simp only [hlive, List.mem_cons] at ho ho'
    rcases ho with rfl | ho <;> rcases ho' with rfl | ho'
    · rfl
    · exact absurd (.inl ⟨o', ho', congrArg Subtype.val hfd.symm⟩) hfree
    · exact absurd (.inl ⟨o, ho, congrArg Subtype.val hfd⟩) hfree
    · exact h.distinct o ho o' ho' hfd

theorem step_dup (h : s.Kept) (hcount : 0 < s.count file) :
    Shared.Kept { s with count := Function.update s.count file (s.count file + 1) } := by
  refine { h with count_used := ?_, inStep := ?_ }
  · intro f hf
    by_cases heq : f = file
    · exact heq ▸ h.count_used file hcount
    · simp only [Function.update_of_ne heq] at hf
      exact h.count_used f hf
  · intro f
    by_cases heq : f = file
    · subst heq
      simpa [hcount] using (h.inStep f).mp hcount
    · simpa [Function.update_of_ne heq] using h.inStep f

theorem step_close (h : s.Kept) (hcount : 0 < s.count file)
    (hreleased : e.released = decide (s.world.InUse (mapFind s.world.map file)))
    (hlast : s.count file = 1) :
    Shared.Kept { s with
      count := Function.update s.count file (s.count file - 1)
      world := s.world.perform e (.close (mapFind s.world.map file)) } := by
  have hlive := h.close_live hcount hreleased
  have hmap : (s.world.perform e (.close (mapFind s.world.map file))).map = s.world.map := by
    simp only [World.perform]
    split <;> rfl
  constructor
  · simpa only [hmap] using h.map_used
  · intro f hf
    by_cases heq : f = file
    · exact heq ▸ h.count_used file hcount
    · simp only [Function.update_of_ne heq] at hf
      exact h.count_used f hf
  · intro f
    rw [World.liveOpen_isSome]
    simp only [hlive]
    by_cases heq : f = file
    · subst heq
      simp [hlast]
    · simp only [Function.update_of_ne heq]
      rw [h.inStep f, World.liveOpen_isSome]
      refine exists_congr fun o => ?_
      constructor
      · rintro ⟨ho, rfl⟩
        exact ⟨⟨ho, heq⟩, rfl⟩
      · rintro ⟨⟨ho, -⟩, rfl⟩
        exact ⟨ho, rfl⟩
  · intro o ho
    simp only [hmap]
    exact h.served o ((hlive o).mp ho).1
  · intro o ho o' ho' hfd
    exact h.distinct o ((hlive o).mp ho).1 o' ((hlive o').mp ho').1 hfd

theorem step (h : s.Kept) (hs : s.Next m s') (hm : s.ClosesLast m) : s'.Kept := by
  cases hs with
  | open_ hfresh hret hfree hmap hlive => exact h.step_open hfresh hret hfree hmap hlive
  | dup hcount => exact h.step_dup hcount
  | read hcount => exact h
  | write hcount => exact h
  | close hcount hreleased => exact h.step_close hcount hreleased hm

theorem replays_iff (h : s.Kept) (hs : s.step m = some s') : s.Replays m ↔ s.ClosesLast m := by
  have hnext := Shared.Next.of_step hs
  constructor
  · rintro ⟨-, hafter⟩
    cases hnext with
    | open_ | dup | read | write => trivial
    | @close file e hcount hreleased =>
      by_contra hlast
      have hstill : 0 < s.count file - 1 := by
        have : s.count file ≠ 1 := hlast
        omega
      have hopen := (hafter _ hs file).mp (by simpa using hstill)
      obtain ⟨o, ho, haddr⟩ := World.liveOpen_isSome.mp hopen
      exact ((h.close_live hcount hreleased o).mp ho).2 haddr
  · intro hm
    refine ⟨?_, fun t ht => ?_⟩
    · cases hnext with
      | open_ | dup => trivial
      | read hcount => exact h.inUse hcount
      | write hcount => exact h.inUse hcount
      | close hcount => exact h.inUse hcount
    · exact (h.step (.of_step ht) hm).inStep

theorem start (cwd : List Byte) (foreign : List Descriptor) : (Shared.start cwd foreign).Kept where
  map_used := by simp [Shared.start, World.start]
  count_used := by simp [Shared.start]
  inStep := by simp [Shared.InStep, Shared.start, World.start, World.liveOpen]
  served := by simp [Shared.start, World.start]
  distinct := by simp [Shared.start, World.start]

end Shared.Kept

/-- In every history of opens, dups, reads, writes and closes, the replay uses open descriptors
only and closes each file with its last descriptor, exactly when no descriptor is closed while
another one shares its file. -/
theorem shared_replays_iff (cwd : List Byte) (foreign : List Descriptor) {moves : List Move}
    {s : Shared} (h : run Shared.step (Shared.start cwd foreign) moves = some s) :
    Along Shared.Replays Shared.step (Shared.start cwd foreign) moves ↔
      Along Shared.ClosesLast Shared.step (Shared.start cwd foreign) moves := by
  refine along_congr_of_run Shared.Kept ?_ ?_ (.start cwd foreign) h
  · intro s m s' hs hm hstep
    exact hs.step (.of_step hstep) ((hs.replays_iff hstep).mp hm)
  · intro s m s' hs hstep
    exact hs.replays_iff hstep

private def eventOf (ty : Byte) (ret : CInt) : Event :=
  ⟨{ Record.blank with type := ty, fileAddress := 7, path := some [0x61, 0], dataLength := 5 }, ret,
    true⟩

theorem shared_replays_iff_open_dup :
    Along Shared.Replays Shared.step (Shared.start [] [])
        [.open_ 7 (eventOf 1 3), .dup 7, .read 7 (eventOf 2 5)] ↔
      Along Shared.ClosesLast Shared.step (Shared.start [] [])
        [.open_ 7 (eventOf 1 3), .dup 7, .read 7 (eventOf 2 5)] := by
  exact shared_replays_iff [] [] rfl

theorem read_after_shared_close :
    ∃ s, run Shared.step (Shared.start [] [])
        [.open_ 7 (eventOf 1 3), .dup 7, .close 7 (eventOf 4 0), .read 7 (eventOf 2 5)] = some s ∧
      ¬ Along Shared.Replays Shared.step (Shared.start [] [])
        [.open_ 7 (eventOf 1 3), .dup 7, .close 7 (eventOf 4 0), .read 7 (eventOf 2 5)] := by
  refine ⟨_, rfl, fun h => ?_⟩
  have huse := ((((h.2 _ rfl).2 _ rfl).2 _ rfl).1).1
  exact absurd huse (by decide)

end TraceFS.Treplay
