import Mathlib.Data.List.TakeWhile
import TraceFS.Lib.Bytes
import TraceFS.Trfs.Mount

namespace TraceFS.Trfs

open TraceFS.Lib TraceFS.Linux

variable {P : PageSize}

def comma : Byte := 0x2C

def strsep : Option (List Byte) → Option (List Byte × Option (List Byte))
  | none => none
  | some s =>
    match s.dropWhile (· ≠ comma) with
    | [] => some (s, none)
    | _ :: rest => some (s.takeWhile (· ≠ comma), some rest)

inductive Token where
  | tfile (value : List Byte)
  | tfileErr
  deriving DecidableEq

/-- `tfile=` -/
def tfileKey : List Byte := [0x74, 0x66, 0x69, 0x6C, 0x65, 0x3D]

/-- The value is the rest of the option; `%s` does not match an empty one. -/
def matchToken (p : List Byte) : Token :=
  if tfileKey <+: p ∧ p.drop tfileKey.length ≠ [] then .tfile (p.drop tfileKey.length)
  else .tfileErr

/-- The field `option` of `struct trfs_options`, whose memory is not cleared. -/
inductive OptionField where
  | wild
  | null
  | str (value : List Byte)
  deriving DecidableEq

structure TrfsOptions where
  option : OptionField
  devName : Bool

structure MountEnv where
  devName : Bool
  optAlloc : Bool
  dup : Nat → Bool
  sget : CInt
  kernPath : CInt
  sbAlloc : Bool
  infoAlloc : Bool
  queue : Bool
  thread : Bool
  filpOpen : OptionField → CInt
  iget : CInt
  rootAlloc : Bool
  privateData : CInt

structure Filling (P : PageSize) where
  steps : List (MountLabel P)
  opened : Option OptionField
  exit : Option (ReadExit × CInt)

structure Mounting (P : PageSize) where
  steps : List (MountLabel P)
  opened : Option OptionField
  ret : Option CInt

def remaining : Option (List Byte) → Nat
  | none => 0
  | some s => s.length + 1

theorem strsep_remaining {options options' : Option (List Byte)} {p : List Byte}
    (h : strsep options = some (p, options')) : remaining options' < remaining options := by
  cases options with
  | none => cases h
  | some s =>
    have hlen := congrArg List.length (s.takeWhile_append_dropWhile (p := (· ≠ comma)))
    rw [List.length_append] at hlen
    simp only [strsep] at h
    split at h
    · cases h
      exact Nat.succ_pos _
    · next hrest =>
      cases h
      rw [hrest, List.length_cons] at hlen
      simp only [remaining]
      omega

/-- The loop of `trfs_mount`, after so many copies; an option that is repeated is overwritten. -/
def parseOptions (dup : Nat → Bool) (options : Option (List Byte)) (copies : Nat)
    (option : OptionField) : OptionField :=
  match h : strsep options with
  | none => option
  | some (p, options') =>
    have := strsep_remaining h
    if p = [] then parseOptions dup options' copies option
    else
      match matchToken p with
      | .tfile value =>
        parseOptions dup options' (copies + 1) (if dup copies then .str value else .null)
      | .tfileErr => parseOptions dup options' copies option
termination_by remaining options

/-- `trfs_read_super`; the allocations of the private data are followed unchecked. -/
def trfsReadSuper (env : MountEnv) (opt : TrfsOptions) : Filling P :=
  if opt.devName = false then ⟨[.devName false], none, some (.noDevice, -EINVAL)⟩
  else if env.kernPath ≠ 0 then
    ⟨[.devName true, .kernPath false], none, some (.noPath, env.kernPath)⟩
  else if env.sbAlloc = false then
    ⟨[.devName true, .kernPath true, .allocSb false, .allocTrInfo env.infoAlloc], none, none⟩
  else if env.infoAlloc = false then
    ⟨[.devName true, .kernPath true, .allocSb true, .allocTrInfo false, .createQueue env.queue],
      none, none⟩
  else
    let threaded : List (MountLabel P) := [.devName true, .kernPath true, .allocSb true,
      .allocTrInfo true, .createQueue env.queue, .runThread env.thread]
    let filp := env.filpOpen opt.option
    if filp ≠ 0 then ⟨threaded ++ [.openFile false], some opt.option, some (.noFile, filp)⟩
    else if env.iget ≠ 0 then
      ⟨threaded ++ [.openFile true, .makeRoot false], some opt.option, some (.noRoot, env.iget)⟩
    else if env.rootAlloc = false then
      ⟨threaded ++ [.openFile true, .makeRoot false], some opt.option, some (.noRoot, -ENOMEM)⟩
    else if env.privateData ≠ 0 then
      ⟨threaded ++ [.openFile true, .makeRoot false], some opt.option,
        some (.noRoot, env.privateData)⟩
    else ⟨threaded ++ [.openFile true, .makeRoot true], some opt.option, some (.mounted, 0)⟩

/-- `trfs_umount` of a super block that was not filled, up to where it goes wrong: on `s_fs_info`
that is NULL, or where `filp_open` failed on the thread that was not started or on the file. -/
def trfsUmountUnfilled (thread : Bool) : ReadExit → List (MountLabel P)
  | .noFile => if thread then [.killSb, .stopThread, .finalWrite] else [.killSb]
  | .noDevice | .noPath | .noRoot | .mounted => [.killSb]

/-- On an error of `fill_super`, the super block is shut down by `kill_sb`. -/
def mountNodev (env : MountEnv) (fillSuper : Filling P) : Mounting P :=
  if env.sget ≠ 0 then ⟨[], none, some env.sget⟩
  else
    match fillSuper.exit with
    | none => ⟨fillSuper.steps, fillSuper.opened, none⟩
    | some (.mounted, err) => ⟨fillSuper.steps, fillSuper.opened, some err⟩
    | some (exit, _) =>
      ⟨fillSuper.steps ++ trfsUmountUnfilled env.thread exit, fillSuper.opened, none⟩

/-- `opt` is written to unchecked. -/
def trfsMount (env : MountEnv) (rawData : Option (List Byte)) : Mounting P :=
  if env.optAlloc = false then ⟨[], none, none⟩
  else
    mountNodev env (trfsReadSuper env
      { option := parseOptions env.dup rawData 0 .wild, devName := env.devName })

theorem mountNodev_opened (env : MountEnv) (hsget : env.sget = 0) (f : Filling P) :
    (mountNodev env f).opened = f.opened := by
  rw [mountNodev, if_neg (not_not_intro hsget)]
  split <;> rfl

/-- The steps are those of a mount, with a fault exactly when one of them has it. On the error
pointer of a thread that was not started, it is `kthread_stop` that goes wrong. -/
theorem mountNodev_run (env : MountEnv) (hthread : env.thread = true) (opt : TrfsOptions) :
    ∃ c, run Mount.step (.running (.start P)) (mountNodev env (trfsReadSuper env opt)).steps =
        some c ∧
      (c.Runs ↔ (mountNodev (P := P) env (trfsReadSuper env opt)).ret.isSome) := by
  rw [mountNodev]
  by_cases hsget : env.sget ≠ 0
  · rw [if_pos hsget]
    exact ⟨_, rfl, iff_of_true trivial rfl⟩
  rw [if_neg hsget, trfsReadSuper]
  by_cases hdev : opt.devName = false
  · rw [if_pos hdev]
    exact ⟨_, rfl, iff_of_false id Bool.false_ne_true⟩
  by_cases hpath : env.kernPath ≠ 0
  · rw [if_neg hdev, if_pos hpath]
    exact ⟨_, rfl, iff_of_false id Bool.false_ne_true⟩
  by_cases hsb : env.sbAlloc = false
  · rw [if_neg hdev, if_neg hpath, if_pos hsb]
    exact ⟨_, rfl, iff_of_false id Bool.false_ne_true⟩
  by_cases hinfo : env.infoAlloc = false
  · rw [if_neg hdev, if_neg hpath, if_neg hsb, if_pos hinfo]
    exact ⟨_, rfl, iff_of_false id Bool.false_ne_true⟩
  rw [if_neg hdev, if_neg hpath, if_neg hsb, if_neg hinfo, hthread]
  dsimp only
  by_cases hfile : env.filpOpen opt.option ≠ 0
  · rw [if_pos hfile]
    exact ⟨_, rfl, iff_of_false id Bool.false_ne_true⟩
  by_cases higet : env.iget ≠ 0
  · rw [if_neg hfile, if_pos higet]
    exact ⟨_, rfl, iff_of_false id Bool.false_ne_true⟩
  by_cases hroot : env.rootAlloc = false
  · rw [if_neg hfile, if_neg higet, if_pos hroot]
    exact ⟨_, rfl, iff_of_false id Bool.false_ne_true⟩
  by_cases hprivate : env.privateData ≠ 0
  · rw [if_neg hfile, if_neg higet, if_neg hroot, if_pos hprivate]
    exact ⟨_, rfl, iff_of_false id Bool.false_ne_true⟩
  · rw [if_neg hfile, if_neg higet, if_neg hroot, if_neg hprivate]
    exact ⟨_, rfl, iff_of_true trivial rfl⟩

def Token.value? : Token → Option (List Byte)
  | .tfile value => some value
  | .tfileErr => none

def tfileValues (rawData : Option (List Byte)) : List (List Byte) :=
  (rawData.elim [] (List.splitOn comma)).filterMap fun p => (matchToken p).value?

theorem matchToken_eq_tfile {p value : List Byte} :
    matchToken p = .tfile value ↔ p = tfileKey ++ value ∧ value ≠ [] := by
  unfold matchToken
  constructor
  · intro h
    split at h
    · next hkey =>
      cases h
      obtain ⟨⟨rest, rfl⟩, hrest⟩ := hkey
      rw [List.drop_left] at hrest ⊢
      exact ⟨rfl, hrest⟩
    · cases h
  · rintro ⟨rfl, hvalue⟩
    rw [List.drop_left, if_pos ⟨List.prefix_append _ _, hvalue⟩]

theorem mem_tfileValues {s value : List Byte} :
    value ∈ tfileValues (some s) ↔ tfileKey ++ value ∈ s.splitOn comma ∧ value ≠ [] := by
  have hvalue : ∀ p, (matchToken p).value? = some value ↔ matchToken p = .tfile value := by
    intro p
    cases matchToken p <;> simp [Token.value?]
  simp only [tfileValues, Option.elim_some, List.mem_filterMap, hvalue, matchToken_eq_tfile]
  constructor
  · rintro ⟨p, hp, rfl, hne⟩
    exact ⟨hp, hne⟩
  · rintro ⟨hp, hne⟩
    exact ⟨_, hp, rfl, hne⟩

theorem strsep_splitOn {options options' : Option (List Byte)} {p : List Byte}
    (h : strsep options = some (p, options')) :
    options.elim [] (List.splitOn comma) = p :: options'.elim [] (List.splitOn comma) := by
  cases options with
  | none => cases h
  | some s =>
    have hsplit := s.takeWhile_append_dropWhile (p := (· ≠ comma))
    have htake : comma ∉ s.takeWhile (· ≠ comma) := fun hmem => by
      simpa using List.mem_takeWhile_imp hmem
    simp only [strsep] at h
    split at h
    · next hrest =>
      cases h
      rw [hrest, List.append_nil] at hsplit
      rw [hsplit] at htake
      exact List.splitOn_eq_singleton htake
    · next b rest hrest =>
      cases h
      have hb : b = comma := by
        have hhead := s.head?_dropWhile_not (· ≠ comma)
        rw [hrest] at hhead
        simpa using hhead
      rw [hrest, hb] at hsplit
      conv_lhs => rw [← hsplit]
      exact List.splitOn_append_cons_self_of_not_mem htake _

theorem tfileValues_of_strsep {options options' : Option (List Byte)} {p : List Byte}
    (h : strsep options = some (p, options')) :
    tfileValues options = (matchToken p).value?.toList ++ tfileValues options' := by
  rw [tfileValues, strsep_splitOn h]
  cases hvalue : (matchToken p).value? with
  | none => exact List.filterMap_cons_none hvalue
  | some value => exact List.filterMap_cons_some hvalue

theorem tfileValues_of_strsep_none {options : Option (List Byte)} (h : strsep options = none) :
    tfileValues options = [] := by
  cases options with
  | none => rfl
  | some s =>
    simp only [strsep] at h
    split at h <;> cases h

def lastCopy (dup : Nat → Bool) (copies : Nat) (option : OptionField) (values : List (List Byte)) :
    OptionField :=
  values.getLast?.elim option fun value =>
    if dup (copies + values.length - 1) then .str value else .null

theorem lastCopy_cons (dup : Nat → Bool) (copies : Nat) (option : OptionField)
    (value : List Byte) (values : List (List Byte)) :
    lastCopy dup copies option (value :: values) =
      lastCopy dup (copies + 1) (if dup copies then .str value else .null) values := by
  cases values with
  | nil => rfl
  | cons next values =>
    rw [lastCopy, lastCopy, List.getLast?_cons_cons, List.length_cons, Nat.add_right_comm]
    rfl

theorem parseOptions_eq (dup : Nat → Bool) (options : Option (List Byte)) (copies : Nat)
    (option : OptionField) :
    parseOptions dup options copies option = lastCopy dup copies option (tfileValues options) := by
  fun_induction parseOptions dup options copies option with
  | case1 options copies option h =>
    rw [tfileValues_of_strsep_none h]
    rfl
  | case2 options copies option options' h _ ih =>
    rw [tfileValues_of_strsep h]
    exact ih
  | case3 options copies option p options' h _ _ value htoken ih =>
    rw [tfileValues_of_strsep h, htoken]
    rw [dite_eq_ite] at ih
    exact ih.trans (lastCopy_cons ..).symm
  | case4 options copies option p options' h _ _ htoken ih =>
    rw [tfileValues_of_strsep h, htoken]
    exact ih

def MountEnv.OpensFile (env : MountEnv) : Prop :=
  env.optAlloc = true ∧ env.sget = 0 ∧ env.devName = true ∧ env.kernPath = 0 ∧
    env.sbAlloc = true ∧ env.infoAlloc = true

/-- The path given to `filp_open` is the value of the last `tfile` option; without one, the mount
fails before it opens anything or starts a thread. -/
def Mounting.Right (m : Mounting P) (rawData : Option (List Byte)) : Prop :=
  match (tfileValues rawData).getLast? with
  | some value => ∀ option ∈ m.opened, option = .str value
  | none => (∃ err, m.ret = some err ∧ err ≠ 0) ∧ m.opened = none ∧
      ∀ ok, .runThread ok ∉ m.steps

def MountEnv.Selects (env : MountEnv) (rawData : Option (List Byte)) : Prop :=
  if tfileValues rawData = [] then env.optAlloc = true ∧ env.sget ≠ 0
  else env.OpensFile → env.dup ((tfileValues rawData).length - 1) = true

variable {env : MountEnv} {rawData : Option (List Byte)}

theorem trfsMount_sget (halloc : env.optAlloc = true) (hsget : env.sget ≠ 0) :
    trfsMount (P := P) env rawData = ⟨[], none, some env.sget⟩ := by
  rw [trfsMount, if_neg (by simp [halloc]), mountNodev, if_pos hsget]

theorem trfsMount_opened (h : env.OpensFile) :
    (trfsMount (P := P) env rawData).opened =
      some (lastCopy env.dup 0 .wild (tfileValues rawData)) := by
  obtain ⟨halloc, hsget, hdev, hpath, hsb, hinfo⟩ := h
  rw [trfsMount, if_neg (by simp [halloc]), mountNodev_opened env hsget, trfsReadSuper,
    if_neg (by simp [hdev]), if_neg (not_not_intro hpath), if_neg (by simp [hsb]),
    if_neg (by simp [hinfo]), parseOptions_eq]
  dsimp only
  repeat' split
  all_goals rfl

theorem trfsMount_not_opened (h : ¬ env.OpensFile) :
    (trfsMount (P := P) env rawData).opened = none ∧
      (env.optAlloc = true → env.sget = 0 → (trfsMount (P := P) env rawData).ret = none) := by
  rw [trfsMount]
  by_cases halloc : env.optAlloc = false
  · rw [if_pos halloc]
    exact ⟨rfl, fun _ _ => rfl⟩
  rw [if_neg halloc]
  by_cases hsget : env.sget = 0
  case neg =>
    rw [mountNodev, if_pos hsget]
    exact ⟨rfl, fun _ hzero => absurd hzero hsget⟩
  rw [mountNodev, if_neg (not_not_intro hsget), trfsReadSuper]
  by_cases hdev : env.devName = false
  · rw [if_pos hdev]
    exact ⟨rfl, fun _ _ => rfl⟩
  by_cases hpath : env.kernPath ≠ 0
  · rw [if_neg hdev, if_pos hpath]
    exact ⟨rfl, fun _ _ => rfl⟩
  by_cases hsb : env.sbAlloc = false
  · rw [if_neg hdev, if_neg hpath, if_pos hsb]
    exact ⟨rfl, fun _ _ => rfl⟩
  by_cases hinfo : env.infoAlloc = false
  · rw [if_neg hdev, if_neg hpath, if_neg hsb, if_pos hinfo]
    exact ⟨rfl, fun _ _ => rfl⟩
  exact absurd ⟨by simpa using halloc, hsget, by simpa using hdev, not_not.mp hpath,
    by simpa using hsb, by simpa using hinfo⟩ h

theorem mount_right_iff (env : MountEnv) (rawData : Option (List Byte)) :
    (trfsMount (P := P) env rawData).Right rawData ↔ env.Selects rawData := by
  cases hlast : (tfileValues rawData).getLast? with
  | none =>
    have hnil := List.getLast?_eq_none_iff.mp hlast
    simp only [Mounting.Right, hlast, MountEnv.Selects, if_pos hnil]
    constructor
    · rintro ⟨⟨err, hret, -⟩, hopened, -⟩
      by_cases hopens : env.OpensFile
      · rw [trfsMount_opened hopens] at hopened
        cases hopened
      · have hno : env.optAlloc = true → env.sget = 0 →
            (trfsMount (P := P) env rawData).ret = none := (trfsMount_not_opened hopens).2
        have halloc : env.optAlloc = true := by
          by_contra hfalse
          rw [trfsMount, if_pos (by simpa using hfalse)] at hret
          cases hret
        refine ⟨halloc, fun hsget => ?_⟩
        cases hret.symm.trans (hno halloc hsget)
    · rintro ⟨halloc, hsget⟩
      rw [trfsMount_sget halloc hsget]
      exact ⟨⟨_, rfl, hsget⟩, rfl, fun ok => List.not_mem_nil⟩
  | some value =>
    have hne : tfileValues rawData ≠ [] := fun hnil => by
      rw [hnil] at hlast
      cases hlast
    simp only [Mounting.Right, hlast, MountEnv.Selects, if_neg hne]
    by_cases hopens : env.OpensFile
    · rw [trfsMount_opened hopens, lastCopy, hlast, Nat.zero_add]
      cases env.dup ((tfileValues rawData).length - 1) <;> simp [hopens]
    · rw [(trfsMount_not_opened hopens).1]
      exact iff_of_true nofun fun h => absurd h hopens

def MountEnv.plenty : MountEnv where
  devName := true
  optAlloc := true
  dup _ := true
  sget := 0
  kernPath := 0
  sbAlloc := true
  infoAlloc := true
  queue := true
  thread := true
  filpOpen _ := 0
  iget := 0
  rootAlloc := true
  privateData := 0

theorem MountEnv.plenty_opensFile : plenty.OpensFile := ⟨rfl, rfl, rfl, rfl, rfl, rfl⟩

theorem wild_path_opened :
    ¬ ∀ env rawData, (trfsMount (P := .small) env rawData).Right rawData := by
  intro h
  obtain ⟨-, hopened, -⟩ := h .plenty none
  rw [trfsMount_opened MountEnv.plenty_opensFile] at hopened
  cases hopened

end TraceFS.Trfs
