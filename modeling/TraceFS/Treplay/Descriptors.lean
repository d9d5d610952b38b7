import TraceFS.Lib.Run
import TraceFS.Treplay.Replay

namespace TraceFS.Treplay

open TraceFS.Lib TraceFS.Linux

abbrev Descriptor : Type := {d : CInt // 0 ≤ d.toInt}

def Descriptor.of? (ret : CInt) : Option Descriptor :=
  if h : 0 ≤ ret.toInt then some ⟨ret, h⟩ else none

structure Live where
  fileAddr : BitVec 64
  fd : Descriptor

structure World where
  cwd : List Byte
  map : List FileMap
  opened : List FileMap
  /-- the replayed opens whose descriptor has not been closed since, the last one first -/
  live : List Live
  /-- descriptors of files that no replayed open opened -/
  foreign : List Descriptor

def World.start (cwd : List Byte) (foreign : List Descriptor) : World := ⟨cwd, [], [], [], foreign⟩

def World.InUse (w : World) (d : CInt) : Prop :=
  (∃ o ∈ w.live, o.fd.val = d) ∨ ∃ f ∈ w.foreign, f.val = d

instance (w : World) (d : CInt) : Decidable (w.InUse d) := inferInstanceAs (Decidable (_ ∨ _))

structure Event where
  record : Record
  ret : CInt
  released : Bool

/-- What a system may do: an open fails or hands out a number that is not in use, and a close
lets go of a descriptor that is. -/
def World.Allows (w : World) (e : Event) : Syscall → Prop
  | .open_ .. => e.ret = -1 ∨ 0 ≤ e.ret.toInt ∧ ¬ w.InUse e.ret
  | .close fd => e.released = true → w.InUse fd
  | _ => True

instance (w : World) (e : Event) : (c : Syscall) → Decidable (w.Allows e c)
  | .open_ .. => inferInstanceAs (Decidable (_ ∨ _))
  | .close _ => inferInstanceAs (Decidable (_ → _))
  | .read .. | .write .. | .mkdir .. | .unlink .. | .link .. | .rename .. | .rmdir .. =>
    isTrue trivial

def World.perform (w : World) (e : Event) : Syscall → World
  | .open_ .. =>
    { w with
      opened := w.opened ++ [⟨e.record.fileAddress, e.ret⟩]
      live := ((Descriptor.of? e.ret).map (Live.mk e.record.fileAddress)).toList ++ w.live }
  | .close fd =>
    if e.released then
      { w with
        live := w.live.filter (·.fd.val ≠ fd)
        foreign := w.foreign.filter (·.val ≠ fd) }
    else w
  | _ => w

def World.step (w : World) (e : Event) : Option World :=
  match replayCall w.cwd w.map e.record with
  | .error _ => none
  | .ok none => some { w with map := (replayReturn w.map e.record e.ret).1 }
  | .ok (some c) =>
    if w.Allows e c then
      some { w.perform e c with map := (replayReturn w.map e.record e.ret).1 }
    else none

def Syscall.fd? : Syscall → Option CInt
  | .read fd _ | .write fd _ _ | .close fd => some fd
  | _ => none

def World.liveOpen (w : World) (fileAddress : BitVec 64) : Option Live :=
  w.live.find? (·.fileAddr = fileAddress)

def World.Right (w : World) (fileAddress : BitVec 64) (d : CInt) : Prop :=
  match w.liveOpen fileAddress with
  | some o => d = o.fd.val
  | none => ¬ w.InUse d

def World.UsesRight (w : World) (e : Event) : Prop :=
  ∀ c, replayCall w.cwd w.map e.record = .ok (some c) → ∀ d, c.fd? = some d →
    w.Right e.record.fileAddress d

def Record.UsesFd (r : Record) : Prop :=
  LogType.ofByte r.type = some .checkRead ∨ LogType.ofByte r.type = some .checkWrite ∨
    LogType.ofByte r.type = some .checkClose

def World.firstOpen (w : World) (fileAddress : BitVec 64) : Option CInt :=
  (w.opened.find? (·.fileAddr = fileAddress)).map FileMap.fileD

/-- For a record that uses a descriptor, the first open of its address gave the one that is
live now; or none is live, and the number it gave is not in use. -/
def World.FirstServes (w : World) (e : Event) : Prop :=
  e.record.UsesFd →
  match w.liveOpen e.record.fileAddress with
  | some o => w.firstOpen e.record.fileAddress = some o.fd.val
  | none => ∀ d, w.firstOpen e.record.fileAddress = some d → ¬ w.InUse d

theorem buildPath_cases {α : Type} {cwd : List Byte} {path : Option (List Byte)}
    {f : List Byte → Except ReplayFault α} {x : α} (h : buildPath cwd path >>= f = .ok x) :
    ∃ built, f built = .ok x := by
  cases hp : buildPath cwd path with
  | error fault =>
    rw [hp] at h
    cases h
  | ok built =>
    rw [hp] at h
    exact ⟨built, h⟩

theorem replayCall_cases {cwd : List Byte} {map : List FileMap} {r : Record} {c : Syscall}
    (h : replayCall cwd map r = .ok (some c)) :
    (LogType.ofByte r.type = some .checkOpen ∧ ∃ path, c = .open_ path r.openFlags r.permMode) ∨
      (r.UsesFd ∧ LogType.ofByte r.type ≠ some .checkOpen ∧
        c.fd? = some (mapFind map r.fileAddress)) ∨
      (¬ r.UsesFd ∧ LogType.ofByte r.type ≠ some .checkOpen ∧ c.fd? = none ∧
        ∀ path flags mode, c ≠ .open_ path flags mode) := by
  unfold replayCall at h
  unfold Record.UsesFd
  split at h <;> rename_i hty
  · cases h
  · cases h
  · obtain ⟨path, hc⟩ := buildPath_cases h
    cases hc
    exact .inl ⟨hty, path, rfl⟩
  · cases h
    exact .inr (.inl ⟨by simp [hty], by simp [hty], rfl⟩)
  · cases h
    exact .inr (.inl ⟨by simp [hty], by simp [hty], rfl⟩)
  · cases h
    exact .inr (.inl ⟨by simp [hty], by simp [hty], rfl⟩)
  · obtain ⟨path, hc⟩ := buildPath_cases h
    cases hc
    exact .inr (.inr ⟨by simp [hty], by simp [hty], rfl, nofun⟩)
  · obtain ⟨path, hc⟩ := buildPath_cases h
    cases hc
    exact .inr (.inr ⟨by simp [hty], by simp [hty], rfl, nofun⟩)
  · obtain ⟨path, hc⟩ := buildPath_cases h
    obtain ⟨newPath, hc⟩ := buildPath_cases hc
    cases hc
    exact .inr (.inr ⟨by simp [hty], by simp [hty], rfl, nofun⟩)
  · obtain ⟨path, hc⟩ := buildPath_cases h
    obtain ⟨newPath, hc⟩ := buildPath_cases hc
    cases hc
    exact .inr (.inr ⟨by simp [hty], by simp [hty], rfl, nofun⟩)
  · obtain ⟨path, hc⟩ := buildPath_cases h
    cases hc
    exact .inr (.inr ⟨by simp [hty], by simp [hty], rfl, nofun⟩)

theorem replayCall_usesFd (cwd : List Byte) (map : List FileMap) {r : Record} (h : r.UsesFd) :
    ∃ c, replayCall cwd map r = .ok (some c) ∧ c.fd? = some (mapFind map r.fileAddress) := by
  rcases h with hty | hty | hty <;> exact ⟨_, by rw [replayCall, hty], rfl⟩

theorem replayReturn_map {map : List FileMap} {r : Record} (ret : CInt)
    (h : LogType.ofByte r.type ≠ some .checkOpen) : (replayReturn map r ret).1 = map := by
  unfold replayReturn
  split <;> first | rfl | exact absurd ‹_› h

theorem World.step_map {w w' : World} {e : Event} (hw : w.map = w.opened)
    (h : w.step e = some w') : w'.map = w'.opened := by
  unfold World.step at h
  split at h
  · cases h
  case h_2 hcall =>
    cases h
    have hopen : LogType.ofByte e.record.type ≠ some .checkOpen := by
      intro hty
      rw [replayCall, hty] at hcall
      obtain ⟨path, hc⟩ := buildPath_cases hcall
      cases hc
    exact (replayReturn_map e.ret hopen).trans hw
  case h_3 c hcall =>
    split at h
    case isFalse => cases h
    case isTrue hallows =>
      cases h
      rcases replayCall_cases hcall with ⟨hty, path, rfl⟩ | ⟨-, hopen, hfd⟩ | ⟨-, hopen, hfd, hc⟩
      · have hret : ¬ e.ret.toInt < -1 := by
          rcases hallows with hret | ⟨hret, -⟩
          · rw [hret]
            decide
          · omega
        simp only [World.perform, replayReturn, hty, if_neg hret, mapAdd, hw]
      · have hsame : (w.perform e c).opened = w.opened := by
          cases c <;> simp only [World.perform]
          · cases hfd
          · split <;> rfl
        exact (replayReturn_map e.ret hopen).trans (hw.trans hsame.symm)
      · have hsame : (w.perform e c).opened = w.opened := by
          cases c <;> simp only [World.perform]
          · exact absurd rfl (hc _ _ _)
          · split <;> rfl
        exact (replayReturn_map e.ret hopen).trans (hw.trans hsame.symm)

theorem mapFind_eq (map : List FileMap) (fileAddress : BitVec 64) :
    mapFind map fileAddress =
      ((map.find? (·.fileAddr = fileAddress)).map FileMap.fileD).getD (-1) := by
  unfold mapFind
  cases map.find? (·.fileAddr = fileAddress) <;> rfl

theorem World.not_inUse_neg (w : World) : ¬ w.InUse (-1) := by
  have hneg : ¬ 0 ≤ (-1 : CInt).toInt := by decide
  rintro (⟨o, -, ho⟩ | ⟨f, -, hf⟩)
  · exact hneg (ho ▸ o.fd.property)
  · exact hneg (hf ▸ f.property)

theorem World.right_mapFind_iff {w : World} (hw : w.map = w.opened) (fileAddress : BitVec 64) :
    w.Right fileAddress (mapFind w.map fileAddress) ↔
      match w.liveOpen fileAddress with
      | some o => w.firstOpen fileAddress = some o.fd.val
      | none => ∀ d, w.firstOpen fileAddress = some d → ¬ w.InUse d := by
  have hfind : mapFind w.map fileAddress = (w.firstOpen fileAddress).getD (-1) := by
    rw [mapFind_eq, hw]
    rfl
  rw [hfind, World.Right]
  cases w.liveOpen fileAddress with
  | some o =>
    have hne : -1 ≠ o.fd.val := by
      intro h
      exact absurd (h ▸ o.fd.property : 0 ≤ (-1 : CInt).toInt) (by decide)
    cases w.firstOpen fileAddress with
    | none => simpa using hne
    | some d => simp
  | none =>
    cases w.firstOpen fileAddress with
    | none => simpa using w.not_inUse_neg
    | some d => simp

theorem World.usesRight_iff_firstServes {w : World} (hw : w.map = w.opened) (e : Event) :
    w.UsesRight e ↔ w.FirstServes e := by
  rw [World.UsesRight, World.FirstServes, ← World.right_mapFind_iff hw]
  constructor
  · intro h hfd
    obtain ⟨c, hcall, hc⟩ := replayCall_usesFd w.cwd w.map hfd
    exact h c hcall _ hc
  · intro h c hcall d hd
    rcases replayCall_cases hcall with ⟨-, path, rfl⟩ | ⟨hfd, -, hc⟩ | ⟨-, -, hc, -⟩
    · cases hd
    · rw [hc] at hd
      cases hd
      exact h hfd
    · rw [hc] at hd
      cases hd

/-- Over any run the replay uses the right descriptors exactly when at each record that uses one
the first open of its address serves. -/
theorem usesRight_iff (cwd : List Byte) (foreign : List Descriptor) (events : List Event) :
    Along World.UsesRight World.step (World.start cwd foreign) events ↔
      Along World.FirstServes World.step (World.start cwd foreign) events := by
  exact along_congr (fun w => w.map = w.opened) (fun w e w' hw h => World.step_map hw h)
    (fun w e hw => World.usesRight_iff_firstServes hw e) rfl

theorem read_after_failed_open :
    ¬ Along World.UsesRight World.step (World.start [] [])
      [⟨{ Record.blank with type := 1, fileAddress := 7, path := some [0x61, 0] }, -1, false⟩,
        ⟨{ Record.blank with type := 1, fileAddress := 7, path := some [0x61, 0] }, 3, false⟩,
        ⟨{ Record.blank with type := 2, fileAddress := 7, dataLength := 5 }, 5, false⟩] := by
  intro h
  have hright : (-1 : CInt) = 3 := ((h.2 _ rfl).2 _ rfl).1 _ rfl _ rfl
  exact absurd hright (by decide)

end TraceFS.Treplay
