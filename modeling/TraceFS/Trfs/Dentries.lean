import TraceFS.Lib.Faulting
import TraceFS.Trfs.Inodes

/-! The lower paths of a mount's dentries, from `trfs_read_super` and `trfs_lookup` to
`trfs_d_release`, with operations and `trfs_d_revalidate` using them meanwhile. -/

namespace TraceFS.Trfs

open TraceFS.Lib TraceFS.Linux

inductive DentryPhase where
  | rooting (lower : Path)
  | looking (parent : Option Path)
  | interposing (parent : Option Path)
  | hashed (positive : Bool)
  /-- left by a lookup that failed or went for an alias: the VFS drops it -/
  | unhashed
  /-- the alias that `d_obtain_alias` makes for the inode of an NFS file handle -/
  | decoded
  deriving DecidableEq

/-- `d_fsdata`, with the NULL path until one is set in it, and whether `d_op` is `trfs_dops`. -/
structure Dentry where
  dFsdata : Option (Option Path)
  dOp : Bool
  phase : DentryPhase
  deriving DecidableEq

def Dentry.lowerPath (d : Dentry) : Option Path := d.dFsdata.join

/-- `trfs_set_lower_path`, and with no path `trfs_reset_lower_path`. -/
def Dentry.setLowerPath (d : Dentry) (lower : Option Path) : Dentry :=
  { d with dFsdata := d.dFsdata.map fun _ => lower }

/-- The references on lower paths that were taken less those that were put, and the private data
that was allocated less what was freed. -/
structure Dcache where
  dentries : Table Ptr Dentry
  inUse : List (Option Path)
  held : Path → ℤ
  infos : ℤ

def Dcache.start : Dcache where
  dentries := ∅
  inUse := []
  held := 0
  infos := 0

inductive Resolved where
  | found (lower : Path)
  | absent (lowerDentry : Ptr)
  | refused
  deriving DecidableEq

inductive Interposed where
  | spliced
  | aliased
  | refused
  deriving DecidableEq

inductive DcacheLabel where
  | mounts (dentry : Ptr) (lower : Path)
  | rootInfo (dentry : Ptr) (ok : Bool)
  | looksUp (parent dentry : Ptr) (ok : Bool)
  | resolves (dentry : Ptr) (answer : Resolved)
  | interposes (dentry : Ptr) (answer : Interposed)
  | instantiates (dentry : Ptr)
  | decodes (dentry : Ptr)
  | gets (dentry : Ptr)
  | puts (lower : Option Path)
  | releases (dentry : Ptr)
  deriving DecidableEq

/-- `path_get` and `path_put` pass over a NULL path. -/
def pathRefs : Option Path → Path → ℤ
  | none => 0
  | some p => Pi.single p 1

def DentryPhase.refs : DentryPhase → Path → ℤ
  | .rooting lower => pathRefs (some lower)
  | .looking parent | .interposing parent => pathRefs parent
  | .hashed _ | .unhashed | .decoded => 0

def Dentry.refs (d : Dentry) : Path → ℤ := pathRefs d.lowerPath + d.phase.refs

def Dentry.infos (d : Dentry) : ℤ := if d.dFsdata.isSome then 1 else 0

def Dentry.HasInfo (d : Dentry) : Prop := d.dFsdata.isSome = true

def Dentry.HasPath (d : Dentry) : Prop := d.lowerPath.isSome = true

def DentryPhase.Idle : DentryPhase → Prop
  | .hashed _ | .unhashed | .decoded => True
  | .rooting _ | .looking _ | .interposing _ => False

def DentryPhase.Usable : DentryPhase → Prop
  | .hashed _ | .decoded => True
  | .rooting _ | .looking _ | .interposing _ | .unhashed => False

def DentryPhase.Positive : DentryPhase → Prop
  | .hashed positive => positive = true
  | .decoded => True
  | .rooting _ | .looking _ | .interposing _ | .unhashed => False

instance (phase : DentryPhase) : Decidable phase.Idle := by
  cases phase <;> unfold DentryPhase.Idle <;> infer_instance

instance (phase : DentryPhase) : Decidable phase.Usable := by
  cases phase <;> unfold DentryPhase.Usable <;> infer_instance

instance (phase : DentryPhase) : Decidable phase.Positive := by
  cases phase <;> unfold DentryPhase.Positive <;> infer_instance

theorem DentryPhase.Idle.refs {phase : DentryPhase} (h : phase.Idle) : phase.refs = 0 := by
  cases phase with
  | hashed | unhashed | decoded => rfl
  | rooting | looking | interposing => exact h.elim

instance (d : Dentry) : Decidable d.HasInfo := inferInstanceAs (Decidable (_ = _))

instance (d : Dentry) : Decidable d.HasPath := inferInstanceAs (Decidable (_ = _))

def negativePath (parent : Option Path) (lowerDentry : Ptr) : Option Path :=
  parent.map fun p => { p with dentry := lowerDentry }

namespace Dcache

variable (s : Dcache)

/-- Where the step follows `d_fsdata` of a dentry, or the lower path in it. -/
def Safe : DcacheLabel → Prop
  | .looksUp parent _ _ => ∀ d ∈ s.dentries.lookup parent, d.HasPath
  | .gets dentry => ∀ d ∈ s.dentries.lookup dentry, d.HasPath
  -- without the memory, `dput` of the root gets to `trfs_d_release`
  | .rootInfo dentry ok => ok = false → ∀ d ∈ s.dentries.lookup dentry, d.HasInfo
  | .resolves dentry (.found _) | .resolves dentry (.absent _) | .interposes dentry .refused =>
    ∀ d ∈ s.dentries.lookup dentry, d.HasInfo
  | .releases dentry => ∀ d ∈ s.dentries.lookup dentry, d.dOp = true → d.HasInfo
  | .mounts _ _ | .resolves _ .refused | .interposes _ .spliced | .interposes _ .aliased
  | .instantiates _ | .decodes _ | .puts _ => True

instance (l : DcacheLabel) : Decidable (s.Safe l) :=
  match l with
  | .looksUp _ _ _ | .gets _ | .resolves _ (.found _) | .resolves _ (.absent _)
  | .interposes _ .refused | .releases _ => inferInstanceAs (Decidable (∀ d ∈ _, _))
  | .rootInfo _ _ => inferInstanceAs (Decidable (_ → _))
  | .mounts _ _ | .resolves _ .refused | .interposes _ .spliced | .interposes _ .aliased
  | .instantiates _ | .decodes _ | .puts _ => isTrue trivial

def finish (dentry : Ptr) (d : Dentry) (parent : Option Path) (phase : DentryPhase) : Dcache :=
  { s with
    dentries := s.dentries.insert dentry { d with phase := phase }
    held := s.held - pathRefs parent }

def next : DcacheLabel → Option Dcache
  | .mounts dentry lower =>
    if s.dentries.entries = [] then
      some { s with
        dentries := s.dentries.insert dentry ⟨none, true, .rooting lower⟩
        held := s.held + pathRefs (some lower) }
    else none
  | .rootInfo dentry ok =>
    match s.dentries.lookup dentry with
    | some ⟨_, dOp, .rooting lower⟩ =>
      if ok then
        some { s with
          dentries := s.dentries.insert dentry ⟨some (some lower), dOp, .hashed true⟩
          infos := s.infos + 1 }
      else
        some { s with
          dentries := s.dentries.erase dentry
          held := s.held - pathRefs (some lower) }
    | _ => none
  | .looksUp parent dentry ok =>
    match s.dentries.lookup parent with
    | some d =>
      if ¬ d.phase.Positive ∨ dentry ∈ s.dentries then none
      else if ok then
        some { s with
          dentries := s.dentries.insert dentry ⟨some none, true, .looking d.lowerPath⟩
          held := s.held + pathRefs d.lowerPath
          infos := s.infos + 1 }
      else some { s with dentries := s.dentries.insert dentry ⟨none, false, .unhashed⟩ }
    | none => none
  | .resolves dentry answer =>
    match s.dentries.lookup dentry with
    | some ⟨info, dOp, .looking parent⟩ =>
      let d : Dentry := ⟨info, dOp, .looking parent⟩
      match answer with
      | .found lower =>
        some { s with
          dentries := s.dentries.insert dentry
            { d.setLowerPath (some lower) with phase := .interposing parent }
          held := s.held + pathRefs (some lower) }
      | .absent lowerDentry =>
        let lower := negativePath parent lowerDentry
        some ({ s with held := s.held + pathRefs lower }.finish dentry (d.setLowerPath lower) parent
          (.hashed false))
      | .refused => some (s.finish dentry d parent .unhashed)
    | _ => none
  | .interposes dentry answer =>
    match s.dentries.lookup dentry with
    | some ⟨info, dOp, .interposing parent⟩ =>
      let d : Dentry := ⟨info, dOp, .interposing parent⟩
      match answer with
      | .spliced => some (s.finish dentry d parent (.hashed true))
      | .aliased => some (s.finish dentry d parent .unhashed)
      | .refused =>
        some ({ s with held := s.held - pathRefs d.lowerPath }.finish dentry (d.setLowerPath none)
          parent .unhashed)
    | _ => none
  | .instantiates dentry =>
    match s.dentries.lookup dentry with
    | some ⟨info, dOp, .hashed false⟩ =>
      some { s with dentries := s.dentries.insert dentry ⟨info, dOp, .hashed true⟩ }
    | _ => none
  | .decodes dentry =>
    -- there is no `s_d_op`, and nothing sets `d_fsdata` or `d_op` as a lookup does
    if dentry ∈ s.dentries then none
    else some { s with dentries := s.dentries.insert dentry ⟨none, false, .decoded⟩ }
  | .gets dentry =>
    match s.dentries.lookup dentry with
    | some d =>
      if d.phase.Usable then
        some { s with inUse := d.lowerPath :: s.inUse, held := s.held + pathRefs d.lowerPath }
      else none
    | none => none
  | .puts lower =>
    if lower ∈ s.inUse then
      some { s with inUse := s.inUse.erase lower, held := s.held - pathRefs lower }
    else none
  | .releases dentry =>
    match s.dentries.lookup dentry with
    | some d =>
      if d.phase.Idle then
        if d.dOp then
          some { s with
            dentries := s.dentries.erase dentry
            held := s.held - pathRefs d.lowerPath
            infos := s.infos - d.infos }
        else some { s with dentries := s.dentries.erase dentry }
      else none
    | none => none

def step : Faulting Dcache → DcacheLabel → Option (Faulting Dcache) :=
  Faulting.step (fun s l => (next s l).isSome) Safe next

variable {s} {s' : Dcache}

inductive Next (s : Dcache) : DcacheLabel → Dcache → Prop where
  | mounts (dentry : Ptr) (lower : Path) (hempty : s.dentries.lookup dentry = none) :
      s.Next (.mounts dentry lower) { s with
        dentries := s.dentries.insert dentry ⟨none, true, .rooting lower⟩
        held := s.held + pathRefs (some lower) }
  | rootInfo {dentry : Ptr} {info : Option (Option Path)} {dOp : Bool} {lower : Path}
      (hd : s.dentries.lookup dentry = some ⟨info, dOp, .rooting lower⟩) :
      s.Next (.rootInfo dentry true) { s with
        dentries := s.dentries.insert dentry ⟨some (some lower), dOp, .hashed true⟩
        infos := s.infos + 1 }
  | rootFails {dentry : Ptr} {info : Option (Option Path)} {dOp : Bool} {lower : Path}
      (hd : s.dentries.lookup dentry = some ⟨info, dOp, .rooting lower⟩) :
      s.Next (.rootInfo dentry false) { s with
        dentries := s.dentries.erase dentry
        held := s.held - pathRefs (some lower) }
  | looksUp {parent dentry : Ptr} {d : Dentry} (hparent : s.dentries.lookup parent = some d)
      (hphase : d.phase.Positive) (hnew : s.dentries.lookup dentry = none) :
      s.Next (.looksUp parent dentry true) { s with
        dentries := s.dentries.insert dentry ⟨some none, true, .looking d.lowerPath⟩
        held := s.held + pathRefs d.lowerPath
        infos := s.infos + 1 }
  | noInfo {parent dentry : Ptr} {d : Dentry} (hparent : s.dentries.lookup parent = some d)
      (hphase : d.phase.Positive) (hnew : s.dentries.lookup dentry = none) :
      s.Next (.looksUp parent dentry false)
        { s with dentries := s.dentries.insert dentry ⟨none, false, .unhashed⟩ }
  | finds {dentry : Ptr} {d : Dentry} {parent : Option Path} (lower : Path)
      (hd : s.dentries.lookup dentry = some d) (hphase : d.phase = .looking parent) :
      s.Next (.resolves dentry (.found lower)) { s with
        dentries := s.dentries.insert dentry
          { d.setLowerPath (some lower) with phase := .interposing parent }
        held := s.held + pathRefs (some lower) }
  | isAbsent {dentry : Ptr} {d : Dentry} {parent : Option Path} (lowerDentry : Ptr)
      (hd : s.dentries.lookup dentry = some d) (hphase : d.phase = .looking parent) :
      s.Next (.resolves dentry (.absent lowerDentry))
        ({ s with held := s.held + pathRefs (negativePath parent lowerDentry) }.finish dentry
          (d.setLowerPath (negativePath parent lowerDentry)) parent (.hashed false))
  | resolveFails {dentry : Ptr} {d : Dentry} {parent : Option Path}
      (hd : s.dentries.lookup dentry = some d) (hphase : d.phase = .looking parent) :
      s.Next (.resolves dentry .refused) (s.finish dentry d parent .unhashed)
  | splices {dentry : Ptr} {d : Dentry} {parent : Option Path}
      (hd : s.dentries.lookup dentry = some d) (hphase : d.phase = .interposing parent) :
      s.Next (.interposes dentry .spliced) (s.finish dentry d parent (.hashed true))
  | aliases {dentry : Ptr} {d : Dentry} {parent : Option Path}
      (hd : s.dentries.lookup dentry = some d) (hphase : d.phase = .interposing parent) :
      s.Next (.interposes dentry .aliased) (s.finish dentry d parent .unhashed)
  | interposeFails {dentry : Ptr} {d : Dentry} {parent : Option Path}
      (hd : s.dentries.lookup dentry = some d) (hphase : d.phase = .interposing parent) :
      s.Next (.interposes dentry .refused)
        ({ s with held := s.held - pathRefs d.lowerPath }.finish dentry (d.setLowerPath none)
          parent .unhashed)
  | instantiates {dentry : Ptr} {d : Dentry} (hd : s.dentries.lookup dentry = some d)
      (hphase : d.phase = .hashed false) :
      s.Next (.instantiates dentry)
        { s with dentries := s.dentries.insert dentry { d with phase := .hashed true } }
  | decodes {dentry : Ptr} (hnew : s.dentries.lookup dentry = none) :
      s.Next (.decodes dentry)
        { s with dentries := s.dentries.insert dentry ⟨none, false, .decoded⟩ }
  | gets {dentry : Ptr} {d : Dentry} (hd : s.dentries.lookup dentry = some d)
      (hphase : d.phase.Usable) :
      s.Next (.gets dentry) { s with
        inUse := d.lowerPath :: s.inUse
        held := s.held + pathRefs d.lowerPath }
  | puts {lower : Option Path} (hmem : lower ∈ s.inUse) :
      s.Next (.puts lower) { s with
        inUse := s.inUse.erase lower
        held := s.held - pathRefs lower }
  | releases {dentry : Ptr} {d : Dentry} (hd : s.dentries.lookup dentry = some d)
      (hidle : d.phase.Idle) (hop : d.dOp = true) :
      s.Next (.releases dentry) { s with
        dentries := s.dentries.erase dentry
        held := s.held - pathRefs d.lowerPath
        infos := s.infos - d.infos }
  | drops {dentry : Ptr} {d : Dentry} (hd : s.dentries.lookup dentry = some d)
      (hidle : d.phase.Idle) (hop : d.dOp = false) :
      s.Next (.releases dentry) { s with dentries := s.dentries.erase dentry }

theorem Next.of_next {l : DcacheLabel} (h : s.next l = some s') : s.Next l s' := by
  cases l with
  | mounts dentry lower =>
    obtain ⟨hempty, ⟨⟩⟩ := Option.ite_none_right_eq_some.mp h
    refine .mounts dentry lower ?_
    rw [AList.lookup, hempty]
    rfl
  | rootInfo dentry ok =>
    simp only [next] at h
    split at h
    case h_1 info dOp lower hd =>
      cases ok
      · cases h
        exact .rootFails hd
      · cases h
        exact .rootInfo hd
    case h_2 => cases h
  | looksUp parent dentry ok =>
    simp only [next] at h
    split at h
    case h_1 d hparent =>
      obtain ⟨hnot, h⟩ := Option.ite_none_left_eq_some.mp h
      obtain ⟨hphase, hnew⟩ := not_or.mp hnot
      have hnone := AList.lookup_eq_none.mpr hnew
      cases ok
      · cases h
        exact .noInfo hparent (not_not.mp hphase) hnone
      · cases h
        exact .looksUp hparent (not_not.mp hphase) hnone
    case h_2 => cases h
  | resolves dentry answer =>
    simp only [next] at h
    split at h
    case h_1 info dOp parent hd =>
      cases answer with
      | found lower =>
        cases h
        exact .finds lower hd rfl
      | absent lowerDentry =>
        cases h
        exact .isAbsent lowerDentry hd rfl
      | refused =>
        cases h
        exact .resolveFails hd rfl
    case h_2 => cases h
  | interposes dentry answer =>
    simp only [next] at h
    split at h
    case h_1 info dOp parent hd =>
      cases answer with
      | spliced =>
        cases h
        exact .splices hd rfl
      | aliased =>
        cases h
        exact .aliases hd rfl
      | refused =>
        cases h
        exact .interposeFails hd rfl
    case h_2 => cases h
  | instantiates dentry =>
    simp only [next] at h
    split at h
    case h_1 info dOp hd =>
      cases h
      exact .instantiates hd rfl
    case h_2 => cases h
  | decodes dentry =>
    obtain ⟨hnew, ⟨⟩⟩ := Option.ite_none_left_eq_some.mp h
    exact .decodes (AList.lookup_eq_none.mpr hnew)
  | gets dentry =>
    simp only [next] at h
    split at h
    case h_1 d hd =>
      obtain ⟨hphase, ⟨⟩⟩ := Option.ite_none_right_eq_some.mp h
      exact .gets hd hphase
    case h_2 => cases h
  | puts lower =>
    obtain ⟨hmem, ⟨⟩⟩ := Option.ite_none_right_eq_some.mp h
    exact .puts hmem
  | releases dentry =>
    simp only [next] at h
    split at h
    case h_1 d hd =>
      obtain ⟨hidle, h⟩ := Option.ite_none_right_eq_some.mp h
      cases hop : d.dOp with
      | false =>
        rw [hop] at h
        cases h
        exact .drops hd hidle hop
      | true =>
        rw [hop] at h
        cases h
        exact .releases hd hidle hop
    case h_2 => cases h

end Dcache

def Dentry.SoundIn (d : Dentry) : DentryPhase → Prop
  | .rooting _ => d.dFsdata = none ∧ d.dOp = true
  | .looking parent => d.dFsdata = some none ∧ d.dOp = true ∧ parent.isSome
  | .interposing _ | .hashed _ => d.HasPath ∧ d.dOp = true
  | .unhashed => d.dFsdata.isSome = d.dOp
  | .decoded => d.dFsdata = none ∧ d.dOp = false

def Dentry.Sound (d : Dentry) : Prop := d.SoundIn d.phase

theorem Dentry.Sound.within {d : Dentry} {phase : DentryPhase} (h : d.Sound)
    (hphase : d.phase = phase) : d.SoundIn phase := hphase ▸ h

theorem Dentry.HasPath.hasInfo {d : Dentry} (h : d.HasPath) : d.HasInfo := by
  obtain ⟨info, dOp, phase⟩ := d
  cases info with
  | none => cases h
  | some lower => rfl

theorem Dentry.setLowerPath_hasPath {d : Dentry} {lower : Option Path} (h : d.HasInfo)
    (hlower : lower.isSome) : (d.setLowerPath lower).HasPath := by
  obtain ⟨info, dOp, phase⟩ := d
  cases info with
  | none => cases h
  | some _ => exact hlower

theorem Dentry.setLowerPath_lowerPath {d : Dentry} (h : d.HasInfo) (lower : Option Path) :
    (d.setLowerPath lower).lowerPath = lower := by
  obtain ⟨info, dOp, phase⟩ := d
  cases info with
  | none => cases h
  | some _ => rfl

@[simp] theorem Dentry.setLowerPath_infos (d : Dentry) (lower : Option Path) :
    (d.setLowerPath lower).infos = d.infos := by simp [infos, setLowerPath]

theorem Dentry.Sound.noInfo {d : Dentry} (h : d.Sound) (hop : d.dOp = false) :
    d.dFsdata = none := by
  obtain ⟨info, dOp, phase⟩ := d
  obtain rfl : dOp = false := hop
  cases phase with
  | rooting lower | interposing parent | hashed positive => cases h.2
  | looking parent => cases h.2.1
  | unhashed => exact Option.isSome_eq_false_iff.mp h |> Option.isNone_iff_eq_none.mp
  | decoded => exact h.1

theorem Dentry.Sound.hasPath_iff {d : Dentry} (h : d.Sound) (hphase : d.phase.Usable) :
    d.HasPath ↔ d.phase ≠ .decoded := by
  obtain ⟨info, dOp, phase⟩ := d
  cases phase with
  | hashed positive => exact iff_of_true h.1 nofun
  | decoded =>
    obtain ⟨rfl, -⟩ := h
    exact iff_of_false nofun fun hne => hne rfl
  | rooting | looking | interposing | unhashed => exact hphase.elim

theorem DentryPhase.Positive.usable {phase : DentryPhase} (h : phase.Positive) :
    phase.Usable := by
  cases phase with
  | hashed | decoded => trivial
  | rooting | looking | interposing | unhashed => exact h.elim

theorem Dentry.Sound.hasInfo {d : Dentry} (h : d.Sound) (hidle : d.phase.Idle)
    (hop : d.dOp = true) : d.HasInfo := by
  obtain ⟨info, dOp, phase⟩ := d
  cases phase with
  | hashed positive => exact h.1.hasInfo
  | unhashed => exact h.trans hop
  | decoded => exact absurd (h.2.symm.trans hop) Bool.false_ne_true
  | rooting | looking | interposing => exact hidle.elim

theorem negativePath_isSome {parent : Option Path} (h : parent.isSome) (lowerDentry : Ptr) :
    (negativePath parent lowerDentry).isSome := by
  rwa [negativePath, Option.isSome_map]

namespace Dcache

variable {s s' : Dcache} {l : DcacheLabel}

def Sound (s : Dcache) : Prop := ∀ k d, s.dentries.lookup k = some d → d.Sound

theorem Next.sound (hs : s.Next l s') (hsafe : s.Safe l) (h : s.Sound) : s'.Sound := by
  cases hs with
  | mounts dentry lower hnew => exact Table.forall_insert h ⟨rfl, rfl⟩
  | rootInfo hd => exact Table.forall_insert h ⟨rfl, (h _ _ hd).2⟩
  | rootFails hd | releases hd hidle hop | drops hd hidle hop => exact Table.forall_erase h
  | looksUp hparent hphase hnew => exact Table.forall_insert h ⟨rfl, rfl, hsafe _ hparent⟩
  | noInfo hparent hphase hnew => exact Table.forall_insert h rfl
  | decodes hnew => exact Table.forall_insert h ⟨rfl, rfl⟩
  | finds lower hd hphase =>
    obtain ⟨-, hop, -⟩ := (h _ _ hd).within hphase
    exact Table.forall_insert h ⟨Dentry.setLowerPath_hasPath (hsafe _ hd) rfl, hop⟩
  | isAbsent lowerDentry hd hphase =>
    obtain ⟨-, hop, hparent⟩ := (h _ _ hd).within hphase
    exact Table.forall_insert h
      ⟨Dentry.setLowerPath_hasPath (hsafe _ hd) (negativePath_isSome hparent lowerDentry), hop⟩
  | resolveFails hd hphase =>
    obtain ⟨hinfo, hop, -⟩ := (h _ _ hd).within hphase
    refine Table.forall_insert h ?_
    simp [Dentry.Sound, Dentry.SoundIn, hinfo, hop]
  | splices hd hphase => exact Table.forall_insert h ((h _ _ hd).within hphase)
  | aliases hd hphase =>
    obtain ⟨hpath, hop⟩ := (h _ _ hd).within hphase
    exact Table.forall_insert h (hpath.hasInfo.trans hop.symm)
  | interposeFails hd hphase =>
    obtain ⟨-, hop⟩ := (h _ _ hd).within hphase
    refine Table.forall_insert h (Eq.trans ?_ hop.symm)
    exact Option.isSome_map.trans (hsafe _ hd)
  | instantiates hd hphase => exact Table.forall_insert h ((h _ _ hd).within hphase)
  | gets hd hphase | puts hmem => exact h

/-- Each lower path is held once for each dentry that keeps it and each lookup or operation that
has it in hand, and there is private data for the dentries that point to some. -/
structure Accounted (s : Dcache) : Prop where
  held : s.held = Table.total (fun _ d => d.refs) s.dentries + (s.inUse.map pathRefs).sum
  infos : s.infos = Table.total (fun _ d => d.infos) s.dentries

namespace Accounted

variable {k : Ptr} {d d' : Dentry} {held : Path → ℤ} {infos : ℤ}

theorem insert_new (h : s.Accounted) (hnew : s.dentries.lookup k = none)
    (hheld : held = s.held + d'.refs) (hinfos : infos = s.infos + d'.infos) :
    Accounted { s with dentries := s.dentries.insert k d', held := held, infos := infos } where
  held := by
    rw [Table.total_insert_of_none _ hnew, hheld, h.held]
    exact add_right_comm _ _ _
  infos := by rw [Table.total_insert_of_none _ hnew, hinfos, h.infos]

theorem insert (h : s.Accounted) (hd : s.dentries.lookup k = some d)
    (hheld : held = s.held - d.refs + d'.refs) (hinfos : infos = s.infos - d.infos + d'.infos) :
    Accounted { s with dentries := s.dentries.insert k d', held := held, infos := infos } where
  held := by
    rw [Table.total_insert_of_some _ hd, hheld, h.held, add_sub_right_comm]
    exact add_right_comm _ _ _
  infos := by rw [Table.total_insert_of_some _ hd, hinfos, h.infos]

theorem erase (h : s.Accounted) (hd : s.dentries.lookup k = some d)
    (hheld : held = s.held - d.refs) (hinfos : infos = s.infos - d.infos) :
    Accounted { s with dentries := s.dentries.erase k, held := held, infos := infos } where
  held := by
    rw [Table.total_erase_of_some _ hd, hheld, h.held]
    exact add_sub_right_comm _ _ _
  infos := by rw [Table.total_erase_of_some _ hd, hinfos, h.infos]

end Accounted

theorem Next.accounted (hs : s.Next l s') (hsafe : s.Safe l) (hsound : s.Sound)
    (h : s.Accounted) : s'.Accounted := by
  cases hs with
  | mounts dentry lower hnew =>
    refine h.insert_new hnew ?_ (add_zero _).symm
    simp [Dentry.refs, Dentry.lowerPath, DentryPhase.refs, pathRefs]
  | rootInfo hd =>
    obtain ⟨rfl, -⟩ := hsound _ _ hd
    refine h.insert hd ?_ ?_
    · simp [Dentry.refs, Dentry.lowerPath, DentryPhase.refs, pathRefs]
    · simp [Dentry.infos]
  | rootFails hd =>
    obtain ⟨rfl, -⟩ := hsound _ _ hd
    refine h.erase hd ?_ (sub_zero _).symm
    simp [Dentry.refs, Dentry.lowerPath, DentryPhase.refs, pathRefs]
  | looksUp hparent hphase hnew =>
    refine h.insert_new hnew ?_ rfl
    simp [Dentry.refs, Dentry.lowerPath, DentryPhase.refs, pathRefs]
  | noInfo _ _ hnew | decodes hnew =>
    refine h.insert_new hnew ?_ (add_zero _).symm
    simp [Dentry.refs, Dentry.lowerPath, DentryPhase.refs, pathRefs]
  | finds lower hd hphase =>
    obtain ⟨hinfo, -⟩ := (hsound _ _ hd).within hphase
    refine h.insert hd ?_ (by simp [Dentry.infos, Dentry.setLowerPath])
    simp [Dentry.refs, Dentry.lowerPath, Dentry.setLowerPath, DentryPhase.refs, hinfo, hphase,
      pathRefs]
  | isAbsent lowerDentry hd hphase =>
    obtain ⟨hinfo, -⟩ := (hsound _ _ hd).within hphase
    refine h.insert hd ?_ (by simp [Dentry.infos, Dentry.setLowerPath])
    simp [Dentry.refs, Dentry.lowerPath, Dentry.setLowerPath, DentryPhase.refs, hinfo, hphase,
      pathRefs]
    abel
  | resolveFails hd hphase | splices hd hphase | aliases hd hphase =>
    refine h.insert hd ?_ (sub_add_cancel _ _).symm
    simp [Dentry.refs, Dentry.lowerPath, DentryPhase.refs, hphase]
    abel
  | interposeFails hd hphase =>
    refine h.insert hd ?_ (by simp [Dentry.infos, Dentry.setLowerPath])
    have hreset := Dentry.setLowerPath_lowerPath (hsafe _ hd) none
    simp only [Dentry.lowerPath] at hreset
    simp [Dentry.refs, Dentry.lowerPath, DentryPhase.refs, hphase, hreset, pathRefs]
    abel
  | instantiates hd hphase =>
    refine h.insert hd ?_ (sub_add_cancel _ _).symm
    simp [Dentry.refs, Dentry.lowerPath, DentryPhase.refs, hphase]
  | gets hd hphase =>
    refine ⟨?_, h.infos⟩
    rw [List.map_cons, List.sum_cons, h.held, ← add_assoc]
    exact add_right_comm _ _ _
  | puts hmem =>
    refine ⟨?_, h.infos⟩
    have hsum := (List.perm_cons_erase hmem).map pathRefs |>.sum_eq
    rw [List.map_cons, List.sum_cons] at hsum
    rw [h.held, hsum, add_sub_assoc, add_sub_cancel_left]
  | releases hd hidle hop =>
    refine h.erase hd ?_ rfl
    rw [Dentry.refs, hidle.refs, add_zero]
  | drops hd hidle hop =>
    have hnone := (hsound _ _ hd).noInfo hop
    refine h.erase hd ?_ ?_
    · simp [Dentry.refs, Dentry.lowerPath, hnone, hidle.refs, pathRefs]
    · simp [Dentry.infos, hnone]

/-- The step is not about the root whose private data could not be allocated, nor about a dentry
that was decoded from a file handle. -/
def Backed (s : Dcache) : DcacheLabel → Prop
  | .rootInfo _ ok => ok = true
  | .looksUp dentry _ _ | .gets dentry =>
    ∀ d ∈ s.dentries.lookup dentry, d.phase ≠ .decoded
  | _ => True

theorem Next.safe_iff (hs : s.Next l s') (hsound : s.Sound) : s.Safe l ↔ s.Backed l := by
  have hat : ∀ {k : Ptr} {d : Dentry} {p : Dentry → Prop}, s.dentries.lookup k = some d → p d →
      ∀ d' ∈ s.dentries.lookup k, p d' := by
    intro k d p hd hp d' hd'
    cases hd.symm.trans hd'
    exact hp
  have hall : ∀ {k : Ptr} {d : Dentry} {p q : Dentry → Prop}, s.dentries.lookup k = some d →
      (p d ↔ q d) → ((∀ d' ∈ s.dentries.lookup k, p d') ↔ ∀ d' ∈ s.dentries.lookup k, q d') :=
    fun hd hiff => ⟨fun h => hat hd (hiff.mp (h _ hd)), fun h => hat hd (hiff.mpr (h _ hd))⟩
  cases hs with
  | rootFails hd =>
    obtain ⟨rfl, -⟩ := hsound _ _ hd
    refine iff_of_false ?_ Bool.false_ne_true
    intro hsafe
    cases hsafe rfl _ hd
  | rootInfo hd => exact iff_of_true nofun rfl
  | looksUp hparent hphase hnew | noInfo hparent hphase hnew =>
    exact hall hparent ((hsound _ _ hparent).hasPath_iff hphase.usable)
  | gets hd hphase => exact hall hd ((hsound _ _ hd).hasPath_iff hphase)
  | finds lower hd hphase | isAbsent lowerDentry hd hphase =>
    have hinfo := ((hsound _ _ hd).within hphase).1
    exact iff_of_true (hat hd (congrArg Option.isSome hinfo)) trivial
  | interposeFails hd hphase =>
    exact iff_of_true (hat hd ((hsound _ _ hd).within hphase).1.hasInfo) trivial
  | releases hd hidle hop | drops hd hidle hop =>
    exact iff_of_true (hat hd ((hsound _ _ hd).hasInfo hidle)) trivial
  | mounts | resolveFails | splices | aliases | instantiates | decodes | puts =>
    exact iff_of_true trivial trivial

theorem start_sound : start.Sound := nofun

theorem start_accounted : start.Accounted := ⟨rfl, rfl⟩

theorem kept {labels : List DcacheLabel}
    (h : run step (.running start) labels = some (.running s)) : s.Sound ∧ s.Accounted := by
  refine Faulting.holds_of_run (I := fun s : Dcache => s.Sound ∧ s.Accounted) ?_
    ⟨start_sound, start_accounted⟩ h
  rintro s l s' ⟨hsound, hacc⟩ hsafe hs
  have hnext := Next.of_next hs
  exact ⟨hnext.sound hsafe hsound, hnext.accounted hsafe hsound hacc⟩

theorem lower_paths_accounted (labels : List DcacheLabel) (s : Dcache)
    (h : run step (.running start) labels = some (.running s)) :
    s.held = Table.total (fun _ d => d.refs) s.dentries + (s.inUse.map pathRefs).sum ∧
      s.infos = Table.total (fun _ d => d.infos) s.dentries ∧
      (s.dentries = ∅ → s.inUse = [] → s.held = 0 ∧ s.infos = 0) := by
  obtain ⟨-, hheld, hinfos⟩ := kept h
  refine ⟨hheld, hinfos, ?_⟩
  intro hdentries huse
  rw [hheld, hinfos, hdentries, huse]
  exact ⟨rfl, rfl⟩

def lookups : List DcacheLabel :=
  [.mounts 1 ⟨5, 6⟩, .rootInfo 1 true, .looksUp 1 2 true, .resolves 2 (.found ⟨5, 7⟩),
    .interposes 2 .spliced, .looksUp 1 3 true, .resolves 3 (.absent 8), .gets 2,
    .looksUp 1 4 true, .resolves 4 (.found ⟨5, 9⟩), .interposes 4 .refused, .puts (some ⟨5, 7⟩),
    .releases 4, .releases 3, .releases 2, .releases 1]

theorem lower_paths_accounted_lookups : ∃ s,
    run step (.running start) lookups = some (.running s) ∧
    s.held = Table.total (fun _ d => d.refs) s.dentries + (s.inUse.map pathRefs).sum ∧
      s.infos = Table.total (fun _ d => d.infos) s.dentries ∧
      (s.dentries = ∅ → s.inUse = [] → s.held = 0 ∧ s.infos = 0) :=
  ⟨_, rfl, lower_paths_accounted lookups _ rfl⟩

theorem never_null_iff (labels : List DcacheLabel) (c : Faulting Dcache)
    (h : run step (.running start) labels = some c) :
    c.Runs ↔ Along (Faulting.Allows Backed) step (.running start) labels := by
  have hsafe : ∀ (s : Dcache) (l : DcacheLabel), s.Sound → (s.next l).isSome →
      (s.Safe l ↔ s.Backed l) := by
    intro s l hsound hattempt
    obtain ⟨s', hs⟩ := Option.isSome_iff_exists.mp hattempt
    exact (Next.of_next hs).safe_iff hsound
  exact Faulting.runs_iff_along (I := Sound)
    (fun s l s' hI hok hs => (Next.of_next hs).sound hok hI) hsafe start_sound h

def handleUsed : List DcacheLabel := lookups.take 8 ++ [.decodes 9, .gets 9]

theorem never_null_iff_handleUsed : ∃ c, run step (.running start) handleUsed = some c ∧
    (c.Runs ↔ Along (Faulting.Allows Backed) step (.running start) handleUsed) :=
  ⟨_, rfl, never_null_iff handleUsed _ rfl⟩

end Dcache

end TraceFS.Trfs
