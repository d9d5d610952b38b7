import TraceFS.Lib.CString
import TraceFS.Treplay.Replay
import TraceFS.Trfs.Tracing

namespace TraceFS.Treplay

open TraceFS.Lib TraceFS.Linux
open TraceFS.Trfs (TmpPath)

structure Cwd where
  array : Buffer 4096
  chars : List Byte
  holds : HoldsString array.bytes chars

/-- `open_path` and `new_open_path`, with what earlier records have left in them. -/
structure PathArrays where
  openPath : Buffer 4096
  newOpenPath : Buffer 4096

/-- `array[0] = '\0'; strcat(array, cwd); strcat(array, path)` -/
def buildPathIn (array : Buffer 4096) (cwd : Cwd) (path : Option (List Byte)) :
    Except ReplayFault (Buffer 4096) :=
  match path with
  | none => .error .nullString
  | some path =>
    match (strcat (array.set 0 0) cwd.array.bytes).bind fun built => strcat built path with
    | some built => .ok built
    | none => .error .pathOverflow

def buildPaths (a : PathArrays) (cwd : Cwd) (r : Record) : Except ReplayFault PathArrays :=
  match LogType.ofByte r.type with
  | some .checkOpen | some .checkMkdir | some .checkUnlink | some .checkRmdir => do
    let openPath ← buildPathIn a.openPath cwd r.path
    return { a with openPath := openPath }
  | some .checkLink | some .checkRename => do
    let openPath ← buildPathIn a.openPath cwd r.path
    let newOpenPath ← buildPathIn a.newOpenPath cwd r.newPath
    return ⟨openPath, newOpenPath⟩
  | _ => return a

def FitsBehind (cwd : List Byte) (path : Option (List Byte)) : Prop :=
  ∃ p ∈ path, (cstr cwd).length + (cstr p).length < 4096

def Record.Fits (cwd : List Byte) (r : Record) : Prop :=
  match LogType.ofByte r.type with
  | some .checkOpen | some .checkMkdir | some .checkUnlink | some .checkRmdir =>
    FitsBehind cwd r.path
  | some .checkLink | some .checkRename => FitsBehind cwd r.path ∧ FitsBehind cwd r.newPath
  | _ => True

theorem cstr_of_holds {bytes s : List Byte} (h : HoldsString bytes s) : cstr bytes = s := by
  obtain ⟨hs, rest, rfl⟩ := h
  have hne : ∀ b ∈ s, decide (b ≠ 0) = true := fun b hb => decide_eq_true fun heq => hs (heq ▸ hb)
  rw [cstr, List.takeWhile_append_of_pos hne]
  simp

theorem buildPath_some (cwd p : List Byte) :
    buildPath cwd (some p) =
      if (cstr cwd).length + (cstr p).length < 4096 then .ok (cstr cwd ++ cstr p)
      else .error .pathOverflow := by
  simp only [buildPath, List.length_append]

theorem buildPath_ok_iff (cwd : List Byte) (path : Option (List Byte)) :
    (∃ built, buildPath cwd path = .ok built) ↔ FitsBehind cwd path := by
  cases path with
  | none => simp [buildPath, FitsBehind]
  | some p =>
    rw [buildPath_some]
    by_cases hfit : (cstr cwd).length + (cstr p).length < 4096 <;> simp [FitsBehind, hfit]

theorem bind_ok_iff {α β ε : Type} {x : Except ε α} {f : α → Except ε β} :
    (∃ b, x >>= f = .ok b) ↔ ∃ a, x = .ok a ∧ ∃ b, f a = .ok b := by
  cases x with
  | error e => simp [bind, Except.bind]
  | ok a => simp [bind, Except.bind]

theorem replayCall_ok_iff (cwd : List Byte) (map : List FileMap) (r : Record) :
    (∃ call, replayCall cwd map r = .ok call) ↔ r.Fits cwd := by
  unfold replayCall Record.Fits
  cases LogType.ofByte r.type with
  | none => simp
  | some ty =>
    cases ty <;> simp only [bind_ok_iff, exists_and_right, ← buildPath_ok_iff, pure, Except.pure,
      Except.ok.injEq, exists_eq', and_true]

instance (cwd : List Byte) (r : Record) : Decidable (r.Fits cwd) :=
  decidable_of_iff ((replayCall cwd [] r).toOption.isSome = true) <| by
    rw [← replayCall_ok_iff cwd [] r]
    cases replayCall cwd [] r <;> simp [Except.toOption]

variable {array : Buffer 4096} {cwd : Cwd} {p s : List Byte}

theorem buildPathIn_of_fits (array : Buffer 4096) (hp : HoldsString p s)
    (hfit : cwd.chars.length + s.length < 4096) :
    ∃ built, buildPathIn array cwd (some p) = .ok built ∧
      HoldsString built.bytes (cwd.chars ++ s) := by
  have hcwd : ([] : List Byte).length + cwd.chars.length < 4096 := by
    rw [List.length_nil]
    omega
  obtain ⟨front, hfront, hholds⟩ := strcat_of_fits array.holdsString_empty cwd.holds hcwd
  rw [List.nil_append] at hholds
  obtain ⟨built, hbuilt, hbytes⟩ := strcat_of_fits hholds hp hfit
  refine ⟨built, ?_, hbytes⟩
  simp only [buildPathIn, hfront, Option.bind_some, hbuilt]

theorem buildPathIn_of_not_fits (hp : HoldsString p s)
    (hfit : ¬ cwd.chars.length + s.length < 4096) :
    buildPathIn array cwd (some p) = .error .pathOverflow := by
  have hcwd : ([] : List Byte).length + cwd.chars.length < 4096 := by
    rw [List.length_nil, Nat.zero_add]
    exact cwd.holds.length_lt
  obtain ⟨front, hfront, hholds⟩ := strcat_of_fits array.holdsString_empty cwd.holds hcwd
  rw [List.nil_append] at hholds
  simp only [buildPathIn, hfront, Option.bind_some, strcat_of_not_fits hholds hp hfit]

theorem buildPathIn_refines (array : Buffer 4096) (cwd : Cwd) (hp : HoldsString p s) :
    (buildPathIn array cwd (some p)).map (fun built => cstr built.bytes) =
      buildPath cwd.array.bytes (some p) := by
  rw [buildPath_some, cstr_of_holds cwd.holds, cstr_of_holds hp]
  by_cases hfit : cwd.chars.length + s.length < 4096
  · obtain ⟨built, hbuilt, hbytes⟩ := buildPathIn_of_fits array hp hfit
    rw [hbuilt, if_pos hfit, ← cstr_of_holds hbytes]
    rfl
  · rw [buildPathIn_of_not_fits hp hfit, if_neg hfit]
    rfl

theorem holdsString_chars (p : TmpPath) : HoldsString (p.chars ++ [0]) p.chars :=
  ⟨p.noNul, [], rfl⟩

def Record.Names (r : Record) (p : TmpPath) (q : Option TmpPath) : Prop :=
  r.path = some (p.chars ++ [0]) ∧
    match LogType.ofByte r.type with
    | some .checkOpen | some .checkMkdir | some .checkUnlink | some .checkRmdir => q = none
    | some .checkLink | some .checkRename => ∃ p' ∈ q, r.newPath = some (p'.chars ++ [0])
    | _ => False

def BuildsInside (a : PathArrays) (cwd : Cwd) (r : Record) (p : TmpPath) (q : Option TmpPath) :
    Prop :=
  ∃ a', buildPaths a cwd r = .ok a' ∧ HoldsString a'.openPath.bytes (cwd.chars ++ p.chars) ∧
    ∀ p' ∈ q, HoldsString a'.newOpenPath.bytes (cwd.chars ++ p'.chars)

theorem buildsInside_one {a : PathArrays} {r : Record} {p : TmpPath}
    (hpath : r.path = some (p.chars ++ [0]))
    (hr : buildPaths a cwd r = do
      let openPath ← buildPathIn a.openPath cwd r.path
      return { a with openPath := openPath }) :
    BuildsInside a cwd r p none ↔ cwd.chars.length + p.chars.length < 4096 := by
  rw [BuildsInside, hr, hpath]
  constructor
  · rintro ⟨a', hbuilt, -⟩
    by_contra hfit
    rw [buildPathIn_of_not_fits (holdsString_chars p) hfit] at hbuilt
    cases hbuilt
  · intro hfit
    obtain ⟨built, hbuilt, hbytes⟩ := buildPathIn_of_fits a.openPath (holdsString_chars p) hfit
    rw [hbuilt]
    exact ⟨_, rfl, hbytes, fun p' hp' => absurd hp' (Option.not_mem_none p')⟩

theorem buildsInside_two {a : PathArrays} {r : Record} {p q : TmpPath}
    (hpath : r.path = some (p.chars ++ [0])) (hnew : r.newPath = some (q.chars ++ [0]))
    (hr : buildPaths a cwd r = do
      let openPath ← buildPathIn a.openPath cwd r.path
      let newOpenPath ← buildPathIn a.newOpenPath cwd r.newPath
      return ⟨openPath, newOpenPath⟩) :
    BuildsInside a cwd r p (some q) ↔
      cwd.chars.length + p.chars.length < 4096 ∧ cwd.chars.length + q.chars.length < 4096 := by
  rw [BuildsInside, hr, hpath, hnew]
  constructor
  · rintro ⟨a', hbuilt, -⟩
    by_cases hfit : cwd.chars.length + p.chars.length < 4096
    · refine ⟨hfit, ?_⟩
      by_contra hfit'
      obtain ⟨built, hfirst, -⟩ := buildPathIn_of_fits a.openPath (holdsString_chars p) hfit
      rw [hfirst, buildPathIn_of_not_fits (holdsString_chars q) hfit'] at hbuilt
      cases hbuilt
    · rw [buildPathIn_of_not_fits (holdsString_chars p) hfit] at hbuilt
      cases hbuilt
  · rintro ⟨hfit, hfit'⟩
    obtain ⟨built, hbuilt, hbytes⟩ := buildPathIn_of_fits a.openPath (holdsString_chars p) hfit
    obtain ⟨built', hbuilt', hbytes'⟩ :=
      buildPathIn_of_fits a.newOpenPath (holdsString_chars q) hfit'
    rw [hbuilt, hbuilt']
    refine ⟨_, rfl, hbytes, ?_⟩
    rintro p' ⟨⟩
    exact hbytes'

theorem builds_inside_iff (a : PathArrays) (cwd : Cwd) (r : Record) (p : TmpPath)
    (q : Option TmpPath) (hr : r.Names p q) :
    BuildsInside a cwd r p q ↔ cwd.chars.length + p.chars.length ≤ 4095 ∧
      ∀ p' ∈ q, cwd.chars.length + p'.chars.length ≤ 4095 := by
  obtain ⟨hpath, hr⟩ := hr
  cases hty : LogType.ofByte r.type with
  | none =>
    rw [hty] at hr
    exact hr.elim
  | some ty =>
    rw [hty] at hr
    cases ty with
    | checkReaddir | checkRead | checkWrite | checkClose => exact hr.elim
    | checkOpen | checkMkdir | checkUnlink | checkRmdir =>
      cases show q = none from hr
      rw [buildsInside_one hpath (by rw [buildPaths, hty])]
      simp [Nat.lt_succ_iff]
    | checkLink | checkRename =>
      obtain ⟨p', hp', hnew⟩ := hr
      cases hp'
      rw [buildsInside_two hpath hnew (by rw [buildPaths, hty])]
      simp [Nat.lt_succ_iff]

def Cwd.of (chars : List Byte) (noNul : 0 ∉ chars) (fits : chars.length < 4096) : Cwd where
  array := ⟨chars ++ 0 :: List.replicate (4095 - chars.length) 0, by
    rw [List.length_append, List.length_cons, List.length_replicate]
    omega⟩
  chars := chars
  holds := ⟨noNul, _, rfl⟩

def PathArrays.zero : PathArrays := ⟨.zero 4096, .zero 4096⟩

theorem slashM_noNul : (0 : Byte) ∉ [(0x2F : Byte), 0x6D] := by decide

theorem builds_inside_iff_unlinkRoot :
    BuildsInside .zero (.of [0x2F, 0x6D] slashM_noNul (by decide))
      { Record.blank with type := 6, path := some [0x2F, 0] } .root none := by
  refine (builds_inside_iff _ _ _ .root none ⟨rfl, rfl⟩).mpr ⟨?_, ?_⟩
  · decide
  · intro p' hp'
    cases hp'

theorem replicate_noNul (n : Nat) : (0 : Byte) ∉ List.replicate n 0x61 := by
  intro h
  exact absurd (List.eq_of_mem_replicate h) (by decide)

def deepCwd : Cwd := .of (List.replicate 4000 0x61) (replicate_noNul 4000) (by
  rw [List.length_replicate]
  decide)

def longPath : TmpPath := ⟨List.replicate 200 0x61, replicate_noNul 200, by
  rw [List.length_replicate]
  decide⟩

theorem deep_unlink_overflows :
    ¬ ∀ a cwd r p q, Record.Names r p q → BuildsInside a cwd r p q := by
  intro h
  have hbuilt := h .zero deepCwd
    { Record.blank with type := 6, path := some (longPath.chars ++ [0]) } longPath none ⟨rfl, rfl⟩
  have hfit := (buildsInside_one rfl rfl).mp hbuilt
  have hcwd : deepCwd.chars.length = 4000 := List.length_replicate
  have hpath : longPath.chars.length = 200 := List.length_replicate
  omega

end TraceFS.Treplay
