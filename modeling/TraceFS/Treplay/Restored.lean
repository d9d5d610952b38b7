import TraceFS.Lib.Renaming
import TraceFS.Treplay.Shared
import TraceFS.Treplay.Traced

universe u v w

namespace TraceFS.Treplay

open TraceFS.Lib TraceFS.Linux
open TraceFS.Trfs (Entry PageSize Submission entry)

variable {φ : Type u} {η : Type v} {P : PageSize}

section Synced

variable (F : Files φ η) (pick : Table CInt η → CInt) (cwd : List Byte) (limit : Nat)

/-- What the replay needs of a call to come to the same: a record if the call has changed
anything, which is not taken for a request to flush; of an open the mode that it was given, where it
matters; of a write that the buffer still has what was written; and of a `mkdir` that nothing went
wrong after its record. -/
structure TracedCall.Kept (t : Traced φ η) (x : TracedCall P) : Prop where
  memory : x.T.pathAlloc = true
  logged : 0 ≤ x.exit.ret.toInt ∨ x.call.logType = .close → x.exit.submitted ≠ []
  clear : ∀ sub ∈ x.exit.submitted, sub.record.flushBufferSig ≠ 1
  result : x.call.logType = .mkdir →
    ∀ sub ∈ x.exit.submitted, sub.record.returnValue = x.exit.ret
  opens : ∀ inode file p, x.call = .open_ inode file →
    x.T.dentryPathRaw (x.K.fileDentry file) = some p →
      t.opened.keys.length < limit ∧
      F.open_ (cstr cwd ++ p.chars) (x.K.fFlags x.exit.state file)
          (x.K.fMode x.exit.state file) t.files =
        F.open_ (cstr cwd ++ p.chars) (x.K.fFlags x.exit.state file) x.mode t.files
  writes : ∀ file buf count ppos, x.call = .write file buf count ppos →
    (x.T.user buf (x.exit.ret.signExtend 64).toNat).val =
      (x.T.user buf count.toNat).val.take (x.exit.ret.signExtend 64).toNat

def Picks : Prop :=
  ∀ fds : Table CInt η, fds.keys.length < limit →
    fds.lookup (pick fds) = none ∧ 0 ≤ (pick fds).toInt

variable {F pick cwd limit}

/-- The replay has the traced files, and has the open ones open, where its map says. -/
structure Synced (t : Traced φ η) (y : Replaying (φ × Table CInt η)) : Prop where
  files : y.os.1 = t.files
  renames : Renames (mapFind y.map) t.opened y.os.2
  map_used : ∀ f ∈ y.map, f.fileAddr ∈ t.used
  opened_used : ∀ file h, t.opened.lookup file = some h → file ∈ t.used
  reports : ∀ round ∈ y.rounds, round.call.isSome → 0 ≤ round.record.returnValue.toInt →
    round.report = some .sameResult

theorem Synced.start (files : φ) : Synced (η := η) (.start files) (.start (files, ∅)) where
  files := rfl
  renames := .empty _
  map_used _ h := nomatch h
  opened_used _ _ h := nomatch h
  reports _ h := nomatch h

variable {t t' : Traced φ η} {y : Replaying (φ × Table CInt η)} {x : TracedCall P} {r : Record}

theorem Traced.of_after {α : Type w} {value : α → CInt} {out : Except Errno α × φ}
    (h : t.after x value out = some t') :
    x.exit.ret = kernelReturn value out.1 ∧ t' = { t with files := out.2 } := by
  obtain ⟨hret, heq⟩ := Option.ite_none_right_eq_some.mp h
  exact ⟨hret, (Option.some.inj heq).symm⟩

theorem kernelReturn_error_neg {α : Type w} (value : α → CInt) (e : Errno) :
    (kernelReturn value (.error e : Except Errno α)).toInt < 0 := by
  have hpos := e.property
  have hlt := BitVec.toInt_lt (x := e.val)
  rw [kernelReturn, BitVec.toInt_neg, Int.bmod_def]
  omega

theorem report_same {ret : CInt} (h : ret = r.returnValue) :
    report false r ret = .sameResult :=
  (report_sameResult_iff false r ret).mpr h

theorem Synced.reports_append {round : Round} (h : Synced t y)
    (hround : round.call.isSome → 0 ≤ round.record.returnValue.toInt →
      round.report = some .sameResult) :
    ∀ round' ∈ y.rounds ++ [round], round'.call.isSome → 0 ≤ round'.record.returnValue.toInt →
      round'.report = some .sameResult := by
  intro round' hmem
  rcases List.mem_append.mp hmem with hmem | hmem
  · exact h.reports round' hmem
  · exact List.mem_singleton.mp hmem ▸ hround

theorem Synced.performed {c : Syscall} (h : Synced t y)
    (hcall : replayCall cwd y.map r = .ok (some c))
    (hty : LogType.ofByte r.type ≠ some .checkOpen)
    (hfiles : (F.os pick c y.os).2.1 = t'.files)
    (hrenames : Renames (mapFind y.map) t'.opened (F.os pick c y.os).2.2)
    (hused : t'.used = t.used)
    (hopened : ∀ file x, t'.opened.lookup file = some x → t.opened.lookup file = some x)
    (hret : 0 ≤ r.returnValue.toInt → (F.os pick c y.os).1 = r.returnValue) :
    ∃ y', y.step (F.os pick) cwd r = some y' ∧ Synced t' y' := by
  have hstep : y.step (F.os pick) cwd r = some ⟨y.map, (F.os pick c y.os).2,
      y.rounds ++ [⟨r, some c, some (report false r (F.os pick c y.os).1)⟩]⟩ := by
    simp only [Replaying.step, replayRecord, hcall]
    rw [replayReturn_map _ hty, replayReturn_ret hcall hty]
  refine ⟨_, hstep, ?_⟩
  constructor
  · exact hfiles
  · exact hrenames
  · exact hused ▸ h.map_used
  · intro file x hx
    rw [hused]
    exact h.opened_used file x (hopened file x hx)
  · exact h.reports_append fun _ hnonneg => congrArg some (report_same (hret hnonneg))

theorem Synced.mapped {path : List Byte} {flags mode fd : CInt} {file : Ptr}
    {os : φ × Table CInt η} (h : Synced t y)
    (hcall : replayCall cwd y.map r = .ok (some (.open_ path flags mode)))
    (hty : LogType.ofByte r.type = some .checkOpen) (hfile : r.fileAddress = file)
    (hout : F.os pick (.open_ path flags mode) y.os = (fd, os)) (hfd : ¬ fd.toInt < -1)
    (hret : 0 ≤ r.returnValue.toInt → 0 = r.returnValue)
    (hfiles : os.1 = t'.files) (hused : t'.used = file :: t.used)
    (hrenames : Renames (mapFind (y.map ++ [⟨file, fd⟩])) t'.opened os.2)
    (hopened : ∀ k z, t'.opened.lookup k = some z → k = file ∨ t.opened.lookup k = some z) :
    ∃ y', y.step (F.os pick) cwd r = some y' ∧ Synced t' y' := by
  have hback : replayReturn y.map r fd = (y.map ++ [⟨file, fd⟩], 0) := by
    rw [replayReturn, hty]
    simp only [if_neg hfd, mapAdd, hfile]
  have hstep : y.step (F.os pick) cwd r = some ⟨y.map ++ [⟨file, fd⟩], os,
      y.rounds ++ [⟨r, some (.open_ path flags mode), some (report false r 0)⟩]⟩ := by
    simp only [Replaying.step, replayRecord, hcall, hout, hback]
  refine ⟨_, hstep, ?_⟩
  constructor
  · exact hfiles
  · exact hrenames
  · intro f hf
    rw [hused]
    rcases List.mem_append.mp hf with hf | hf
    · exact List.mem_cons_of_mem _ (h.map_used f hf)
    · rw [List.mem_singleton.mp hf]
      exact List.mem_cons_self
  · intro k z hk
    rw [hused]
    rcases hopened k z hk with rfl | hk
    · exact List.mem_cons_self
    · exact List.mem_cons_of_mem _ (h.opened_used k z hk)
  · exact h.reports_append fun _ hnonneg => congrArg some (report_same (hret hnonneg))

theorem Synced.renames_append {file : Ptr} (h : Synced t y) (hfresh : file ∉ t.used) (fd : CInt) :
    Renames (mapFind (y.map ++ [⟨file, fd⟩])) t.opened y.os.2 := by
  refine h.renames.congr fun k z hk => mapFind_append_of_ne y.map fd ?_
  rintro rfl
  exact hfresh (h.opened_used _ _ hk)

theorem Synced.opened {path : List Byte} {flags mode : CInt} {file : Ptr}
    {out : Except Errno η × φ} (h : Synced t y) (hF : F.Lawful) (hpick : Picks pick limit)
    (hroom : t.opened.keys.length < limit) (hfresh : file ∉ t.used)
    (hcall : replayCall cwd y.map r = .ok (some (.open_ path flags mode)))
    (hty : LogType.ofByte r.type = some .checkOpen) (hfile : r.fileAddress = file)
    (hout : F.open_ path flags mode y.os.1 = out)
    (hret : r.returnValue = kernelReturn (fun _ => 0) out.1)
    (hfiles : t'.files = out.2) (hused : t'.used = file :: t.used)
    (hopened : t'.opened = openedBy t.opened file out.1) :
    ∃ y', y.step (F.os pick) cwd r = some y' ∧ Synced t' y' := by
  obtain ⟨res, s⟩ := out
  cases res with
  | ok handle =>
    have hsize : y.os.2.keys.length < limit := h.renames.size ▸ hroom
    obtain ⟨hfree, hnonneg⟩ := hpick y.os.2 hsize
    have hos : F.os pick (.open_ path flags mode) y.os =
        (pick y.os.2, s, y.os.2.insert (pick y.os.2) handle) := by
      simp only [Files.os, hout]
    refine h.mapped hcall hty hfile hos (by omega) (fun _ => hret.symm) hfiles.symm hused ?_ ?_
    · have hname : mapFind (y.map ++ [⟨file, pick y.os.2⟩]) file = pick y.os.2 := by
        refine mapFind_append_self _ ?_
        rintro f hf rfl
        exact hfresh (h.map_used f hf)
      have hnew : t.opened.lookup file = none := by
        refine Option.eq_none_iff_forall_ne_some.mpr ?_
        exact fun z hz => hfresh (h.opened_used file z hz)
      have hinsert :=
        (h.renames_append hfresh (pick y.os.2)).insert hnew (hname.symm ▸ hfree) handle
      rw [hname] at hinsert
      exact hopened ▸ hinsert
    · rw [hopened]
      intro k z hk
      exact (Table.lookup_insert_eq_some.mp hk).imp And.left And.right
  | error e =>
    obtain rfl := hF.open_fails _ _ _ _ _ _ hout
    have hos : F.os pick (.open_ path flags mode) y.os = (-1, y.os) := by
      simp only [Files.os, hout]
    refine h.mapped hcall hty hfile hos (by decide) ?_ hfiles.symm hused ?_ ?_
    · intro hnonneg
      rw [hret] at hnonneg
      exact absurd (kernelReturn_error_neg _ e) (not_lt.mpr hnonneg)
    · rw [hopened]
      exact h.renames_append hfresh (-1)
    · rw [hopened]
      exact fun k z hk => .inr hk

theorem ok_of_kernelReturn_nonneg {α : Type w} {value : α → CInt} {res : Except Errno α}
    (h : 0 ≤ (kernelReturn value res).toInt) : ∃ a, res = .ok a := by
  cases res with
  | ok a => exact ⟨a, rfl⟩
  | error e => exact absurd (kernelReturn_error_neg value e) (not_lt.mpr h)

theorem toNat_signExtend_ofNat {n : Nat} (h : n < 2 ^ 31) :
    ((BitVec.ofNat 32 n).signExtend 64).toNat = n := by
  have hint := toInt_ofNat_of_lt h
  rw [toNat_signExtend_of_nonneg (by omega), hint, Int.toNat_natCast]

theorem Files.os_change (F : Files φ η) (pick : Table CInt η → CInt) (c : Change)
    (os : φ × Table CInt η) :
    F.os pick c.syscall os =
      (userReturn (fun _ => 0) (F.change c os.1).1, (F.change c os.1).2, os.2) := by
  cases c <;> rfl

theorem TracedCall.Of.returnValue {sub : Submission} (h : x.Of sub r)
    (hkept : x.Kept F cwd limit t) (hsub : sub ∈ x.exit.submitted) :
    r.returnValue = x.exit.ret := by
  obtain ⟨i, hr⟩ := h
  refine hr.returnValue.trans ?_
  by_cases hmkdir : x.call.logType = .mkdir
  · exact hkept.result hmkdir sub hsub
  · rcases x.call.oneAtMost x.ran with hnone | ⟨sub', hone, hret⟩
    · rw [hnone] at hsub
      cases hsub
    · rw [hone] at hsub
      cases List.mem_singleton.mp hsub
      exact hret hmkdir

section Step

variable {sub : Submission}

theorem Synced.replays_change {c : Change} (h : Synced t y)
    (hcall : replayCall cwd y.map r = .ok (some c.syscall))
    (hty : LogType.ofByte r.type ≠ some .checkOpen)
    (hstep : t.after x (fun _ => 0) (F.change c t.files) = some t')
    (hvalue : r.returnValue = x.exit.ret) :
    ∃ y', y.step (F.os pick) cwd r = some y' ∧ Synced t' y' := by
  obtain ⟨hret, rfl⟩ := Traced.of_after hstep
  have hos := F.os_change pick c y.os
  rw [h.files] at hos
  refine h.performed hcall hty (congrArg (·.2.1) hos) ?_ rfl (fun _ _ hx => hx) ?_
  · rw [hos]
    exact h.renames
  · rw [hos, hvalue, hret]
    intro hnonneg
    obtain ⟨a, ha⟩ := ok_of_kernelReturn_nonneg hnonneg
    rw [ha]
    rfl

theorem Synced.replays_read {file : Ptr} {handle : η} {count : BitVec 64} (h : Synced t y)
    (hF : F.Lawful)
    (hcall : replayCall cwd y.map r =
      .ok (some (.read (mapFind y.map file) (x.exit.ret.signExtend 64))))
    (hty : LogType.ofByte r.type ≠ some .checkOpen)
    (hlook : t.opened.lookup file = some handle)
    (hstep : t.after x (fun bs => BitVec.ofNat 32 bs.length)
      (F.read handle count.toNat t.files) = some t')
    (hnonneg : 0 ≤ x.exit.ret.toInt) (hvalue : r.returnValue = x.exit.ret) :
    ∃ y', y.step (F.os pick) cwd r = some y' ∧ Synced t' y' := by
  obtain ⟨hret, rfl⟩ := Traced.of_after hstep
  rw [hret] at hnonneg
  obtain ⟨bs, hbs⟩ := ok_of_kernelReturn_nonneg hnonneg
  obtain ⟨hshort, hagain⟩ := hF.read_again _ _ _ _ _ (Prod.ext hbs rfl)
  rw [hbs] at hret
  have hos : F.os pick (.read (mapFind y.map file) (x.exit.ret.signExtend 64)) y.os =
      (x.exit.ret, (F.read handle count.toNat t.files).2, y.os.2) := by
    simp only [Files.os, h.renames.finds _ _ hlook, h.files]
    rw [hret]
    simp only [kernelReturn, toNat_signExtend_ofNat hshort, hagain]
    rfl
  refine h.performed hcall hty (congrArg (·.2.1) hos) ?_ rfl (fun _ _ hx => hx) ?_
  · rw [hos]
    exact h.renames
  · rw [hos, hvalue]
    exact fun _ => rfl

theorem Synced.replays_write {file : Ptr} {handle : η} {data data' : List Byte}
    (h : Synced t y) (hF : F.Lawful)
    (hcall : replayCall cwd y.map r =
      .ok (some (.write (mapFind y.map file) data' (x.exit.ret.signExtend 64))))
    (hty : LogType.ofByte r.type ≠ some .checkOpen)
    (hlook : t.opened.lookup file = some handle)
    (hdata : data' = data.take (x.exit.ret.signExtend 64).toNat)
    (hstep : t.after x (BitVec.ofNat 32) (F.write handle data t.files) = some t')
    (hnonneg : 0 ≤ x.exit.ret.toInt) (hvalue : r.returnValue = x.exit.ret) :
    ∃ y', y.step (F.os pick) cwd r = some y' ∧ Synced t' y' := by
  obtain ⟨hret, rfl⟩ := Traced.of_after hstep
  rw [hret] at hnonneg
  obtain ⟨n, hn⟩ := ok_of_kernelReturn_nonneg hnonneg
  obtain ⟨hshort, hagain⟩ := hF.write_again _ _ _ _ _ (Prod.ext hn rfl)
  rw [hn] at hret
  have hcount : (x.exit.ret.signExtend 64).toNat = n := by
    rw [hret]
    exact toNat_signExtend_ofNat hshort
  rw [hcount] at hdata
  have hos : F.os pick (.write (mapFind y.map file) data' (x.exit.ret.signExtend 64)) y.os =
      (x.exit.ret, (F.write handle data t.files).2, y.os.2) := by
    simp only [Files.os, h.renames.finds _ _ hlook, h.files, hdata, hagain]
    rw [hret]
    rfl
  refine h.performed hcall hty (congrArg (·.2.1) hos) ?_ rfl (fun _ _ hx => hx) ?_
  · rw [hos]
    exact h.renames
  · rw [hos, hvalue]
    exact fun _ => rfl

theorem Synced.replays_close {file : Ptr} {handle : η} (h : Synced t y)
    (hcall : replayCall cwd y.map r = .ok (some (.close (mapFind y.map file))))
    (hty : LogType.ofByte r.type ≠ some .checkOpen)
    (hlook : t.opened.lookup file = some handle)
    (hstep : Traced.after { t with opened := t.opened.erase file } x (fun _ => 0)
      (F.close handle t.files) = some t')
    (hvalue : r.returnValue = x.exit.ret) :
    ∃ y', y.step (F.os pick) cwd r = some y' ∧ Synced t' y' := by
  obtain ⟨hret, rfl⟩ := Traced.of_after hstep
  have hos : F.os pick (.close (mapFind y.map file)) y.os =
      (userReturn (fun _ => 0) (F.close handle t.files).1, (F.close handle t.files).2,
        y.os.2.erase (mapFind y.map file)) := by
    simp only [Files.os, h.renames.finds _ _ hlook, h.files]
  refine h.performed hcall hty (congrArg (·.2.1) hos) ?_ rfl ?_ ?_
  · rw [hos]
    exact h.renames.erase hlook
  · exact fun k z hk => (Table.lookup_erase_eq_some.mp hk).2
  · rw [hos, hvalue, hret]
    intro hnonneg
    obtain ⟨a, ha⟩ := ok_of_kernelReturn_nonneg hnonneg
    rw [ha]
    rfl

theorem Synced.replays_readdir (h : Synced t y) (hcall : replayCall cwd y.map r = .ok none)
    (hty : LogType.ofByte r.type = some .checkReaddir) :
    ∃ y', y.step (F.os pick) cwd r = some y' ∧ Synced t y' := by
  have hback : replayReturn y.map r 0 = (y.map, 0) := by rw [replayReturn, hty]
  have hstep : y.step (F.os pick) cwd r =
      some ⟨y.map, y.os, y.rounds ++ [⟨r, none, some (report false r 0)⟩]⟩ := by
    simp only [Replaying.step, replayRecord, hcall, hback]
  refine ⟨_, hstep, h.files, h.renames, h.map_used, h.opened_used, ?_⟩
  refine h.reports_append ?_
  intro hsome
  cases hsome

theorem Synced.replays (h : Synced t y) (hF : F.Lawful) (hpick : Picks pick limit)
    (hcwd : (cstr cwd).length ≤ 3072) (hkept : x.Kept F cwd limit t)
    (hstep : t.step F cwd x = some t') (hsub : sub ∈ x.exit.submitted) (hof : x.Of sub r) :
    ∃ y', y.step (F.os pick) cwd r = some y' ∧ Synced t' y' := by
  have hcall : replayCall cwd y.map r = .ok (x.syscall? cwd y.map) :=
    hof.replayCall hsub hkept.memory hcwd
  have hty := hof.ofByte_type hsub
  have hvalue := hof.returnValue hkept hsub
  have hsubmits := x.call.submits x.ran hsub
  unfold TracedCall.syscall? at hcall
  unfold Traced.step at hstep
  cases hx : x.call with
  | readdir file ctx =>
    rw [hx] at hstep hcall hty
    obtain ⟨-, heq⟩ := Option.ite_none_right_eq_some.mp hstep
    cases heq
    exact h.replays_readdir hcall hty
  | open_ inode file =>
    rw [hx] at hstep hcall hty hsubmits
    obtain ⟨p, hp, hstep⟩ := Option.bind_eq_some_iff.mp hstep
    split at hstep
    · cases hstep
    next hfresh =>
      obtain ⟨hret, rfl⟩ := Traced.of_after hstep
      obtain ⟨hroom, hmode⟩ := hkept.opens inode file p hx hp
      simp only [hp, Option.map_some] at hcall
      rw [← h.files] at hmode
      exact h.opened hF hpick hroom hfresh hcall hty
        (hof.fileAddress hsub (by rw [hx]; rfl)) hmode (hvalue.trans (h.files ▸ hret))
        (by rw [h.files]) rfl (by rw [h.files])
  | read file buf count ppos =>
    rw [hx] at hstep hcall hty hsubmits
    obtain ⟨handle, hlook, hstep⟩ := Option.bind_eq_some_iff.mp hstep
    exact h.replays_read hF hcall (fun hopen => nomatch hty.symm.trans hopen) hlook hstep
      hsubmits.1 hvalue
  | write file buf count ppos =>
    rw [hx] at hstep hcall hty hsubmits
    obtain ⟨handle, hlook, hstep⟩ := Option.bind_eq_some_iff.mp hstep
    exact h.replays_write hF hcall (fun hopen => nomatch hty.symm.trans hopen) hlook
      (hkept.writes file buf count ppos hx) hstep hsubmits.1 hvalue
  | close file owner =>
    rw [hx] at hstep hcall hty
    obtain ⟨handle, hlook, hstep⟩ := Option.bind_eq_some_iff.mp hstep
    exact h.replays_close hcall (fun hopen => nomatch hty.symm.trans hopen) hlook hstep hvalue
  | mkdir | unlink | link | rename | rmdir =>
    rw [hx] at hstep hcall hty
    obtain ⟨c, hc, hstep⟩ := Option.bind_eq_some_iff.mp hstep
    rw [hc] at hcall
    exact h.replays_change hcall (fun hopen => nomatch hty.symm.trans hopen) hstep hvalue

theorem Traced.after_failed {α : Type w} {value : α → CInt} {out : Except Errno α × φ}
    (hret : ¬ 0 ≤ x.exit.ret.toInt) (hstep : t.after x value out = some t')
    (hvalue : ∀ a s, out = (.ok a, s) → 0 ≤ (value a).toInt)
    (hfails : ∀ e s, out = (.error e, s) → s = t.files) : (∃ e, out.1 = .error e) ∧ t' = t := by
  obtain ⟨heq, rfl⟩ := Traced.of_after hstep
  obtain ⟨res, s⟩ := out
  cases res with
  | ok a =>
    rw [heq] at hret
    exact absurd (hvalue a s rfl) hret
  | error e =>
    refine ⟨⟨e, rfl⟩, ?_⟩
    rw [hfails e s rfl]

theorem Synced.skips (h : Synced t y) (hF : F.Lawful) (hkept : x.Kept F cwd limit t)
    (hstep : t.step F cwd x = some t') (hnone : x.exit.submitted = []) : Synced t' y := by
  have hfailed : ¬ 0 ≤ x.exit.ret.toInt := fun hret => hkept.logged (.inl hret) hnone
  unfold Traced.step at hstep
  cases hx : x.call with
  | readdir file ctx =>
    rw [hx] at hstep
    obtain ⟨-, heq⟩ := Option.ite_none_right_eq_some.mp hstep
    cases heq
    exact h
  | open_ inode file =>
    rw [hx] at hstep
    obtain ⟨p, hp, hstep⟩ := Option.bind_eq_some_iff.mp hstep
    split at hstep
    · cases hstep
    next hfresh =>
      obtain ⟨⟨e, he⟩, rfl⟩ := Traced.after_failed hfailed hstep (fun _ _ _ => le_refl 0)
        (hF.open_fails _ _ _ _)
      refine ⟨h.files, ?_, ?_, ?_, h.reports⟩
      · rw [he]
        exact h.renames
      · exact fun f hf => List.mem_cons_of_mem _ (h.map_used f hf)
      · rw [he]
        exact fun k z hk => List.mem_cons_of_mem _ (h.opened_used k z hk)
  | read file buf count ppos =>
    rw [hx] at hstep
    obtain ⟨handle, hlook, hstep⟩ := Option.bind_eq_some_iff.mp hstep
    obtain ⟨-, rfl⟩ := Traced.after_failed hfailed hstep
      (fun bs s heq => (toInt_ofNat_of_lt (hF.read_again _ _ _ _ _ heq).1) ▸ Int.natCast_nonneg _)
      (hF.read_fails _ _ _)
    exact h
  | write file buf count ppos =>
    rw [hx] at hstep
    obtain ⟨handle, hlook, hstep⟩ := Option.bind_eq_some_iff.mp hstep
    obtain ⟨-, rfl⟩ := Traced.after_failed hfailed hstep
      (fun n s heq => (toInt_ofNat_of_lt (hF.write_again _ _ _ _ _ heq).1) ▸ Int.natCast_nonneg _)
      (hF.write_fails _ _ _)
    exact h
  | close file owner => exact absurd hnone (hkept.logged (.inr (by rw [hx]; rfl)))
  | mkdir | unlink | link | rename | rmdir =>
    rw [hx] at hstep
    obtain ⟨c, -, hstep⟩ := Option.bind_eq_some_iff.mp hstep
    obtain ⟨-, rfl⟩ := Traced.after_failed hfailed hstep (fun _ _ _ => le_refl 0)
      (hF.change_fails _ _)
    exact h

def ReadBack (r : Record) (sub : Submission) : Prop :=
  ∃ i ty, Trfs.LogType.ofByte sub.record.type = some ty ∧
    Agrees ty (sub.record.withId i) sub.buf r

theorem ReadBack.of (h : ReadBack r sub) (hsub : sub ∈ x.exit.submitted) : x.Of sub r := by
  obtain ⟨i, ty, hty, hagrees⟩ := h
  rw [(x.call.submits x.ran hsub).type_eq, Trfs.LogType.ofByte_toByte] at hty
  cases hty
  exact ⟨i, hagrees⟩

theorem Synced.step {rs : List Record} (h : Synced t y) (hF : F.Lawful) (hpick : Picks pick limit)
    (hcwd : (cstr cwd).length ≤ 3072) (hkept : x.Kept F cwd limit t)
    (hstep : t.step F cwd x = some t') (hrs : List.Forall₂ ReadBack rs x.exit.submitted) :
    ∃ y', run (Replaying.step (F.os pick) cwd) y rs = some y' ∧ Synced t' y' := by
  rcases x.call.oneAtMost x.ran with hnone | ⟨sub, hone, -⟩
  · rw [hnone] at hrs
    cases hrs
    exact ⟨y, rfl, h.skips hF hkept hstep hnone⟩
  · rw [hone] at hrs
    obtain ⟨r, rs, hr, hnil, rfl⟩ := List.forall₂_cons_right_iff.mp hrs
    cases hnil
    have hsub : sub ∈ x.exit.submitted := hone ▸ List.mem_singleton_self sub
    obtain ⟨y', hy', hsynced⟩ := h.replays hF hpick hcwd hkept hstep hsub (hr.of hsub)
    exact ⟨y', run_cons_eq_some.mpr ⟨y', hy', rfl⟩, hsynced⟩

theorem Synced.run {xs : List (TracedCall P)} {rs : List Record} (h : Synced t y)
    (hF : F.Lawful) (hpick : Picks pick limit) (hcwd : (cstr cwd).length ≤ 3072)
    (hkept : Along (TracedCall.Kept F cwd limit) (Traced.step F cwd) t xs)
    (hrun : Lib.run (Traced.step F cwd) t xs = some t')
    (hrs : List.Forall₂ ReadBack rs (xs.flatMap fun x => x.exit.submitted)) :
    ∃ y', Lib.run (Replaying.step (F.os pick) cwd) y rs = some y' ∧ Synced t' y' := by
  induction xs generalizing t y rs with
  | nil =>
    cases hrun
    cases hrs
    exact ⟨y, rfl, h⟩
  | cons x xs ih =>
    obtain ⟨t₁, hstep, hrun⟩ := run_cons_eq_some.mp hrun
    rw [List.flatMap_cons] at hrs
    have hfirst := List.forall₂_take_append _ _ _ hrs
    have hrest := List.forall₂_drop_append _ _ _ hrs
    obtain ⟨y₁, hy₁, hsynced⟩ := h.step hF hpick hcwd hkept.1 hstep hfirst
    obtain ⟨y', hy', hsynced'⟩ := ih hsynced (hkept.2 t₁ hstep) hrun hrest
    refine ⟨y', ?_, hsynced'⟩
    rw [← List.take_append_drop x.exit.submitted.length rs]
    exact run_append_eq_some.mpr ⟨y₁, hy₁, hy'⟩

end Step

def traceOf (items : List (Submission × BitVec 32)) : List Byte :=
  items.flatMap fun z => ((z.1.record.withId z.2).traced z.1.buf).getD []

theorem traceOf_of_clear {items : List (Submission × BitVec 32)}
    (h : ∀ z ∈ items, z.1.record.flushBufferSig ≠ 1) :
    traceOf items = items.flatMap fun z => (z.1.record.withId z.2).written z.1.buf := by
  rw [traceOf, List.flatMap_congr]
  intro z hz
  exact congrArg (Option.getD · []) (if_neg (h z hz))

theorem entries_of_traced {xs : List (TracedCall P)} (hxs : ∀ x ∈ xs, x.T.pathAlloc = true)
    (hclear : ∀ x ∈ xs, ∀ sub ∈ x.exit.submitted, sub.record.flushBufferSig ≠ 1)
    {items : List (Submission × BitVec 32)}
    (hitems : items.map Prod.fst = xs.flatMap fun x => x.exit.submitted) :
    ∃ es : List Entry, es.flatMap entry.enc = traceOf items ∧
      ∀ r, List.Forall₂ ReadBack (fillAll es r) (xs.flatMap fun x => x.exit.submitted) := by
  have hitem : ∀ z ∈ items, ∃ x ∈ xs, z.1 ∈ x.exit.submitted := fun z hz =>
    List.mem_flatMap.mp (hitems ▸ List.mem_map_of_mem hz)
  obtain ⟨es, hes, hall⟩ := carries_entries
      (items.map fun z => (z.1.record.withId z.2, z.1.buf)) (by
    intro z hz
    obtain ⟨⟨sub, i⟩, hmem, rfl⟩ := List.mem_map.mp hz
    obtain ⟨x, hx, hsub⟩ := hitem _ hmem
    exact ⟨_, carries_submitted (hxs x hx) x.ran hsub i⟩)
  have htrace := traceOf_of_clear fun z hz => by
    obtain ⟨x, hx, hsub⟩ := hitem z hz
    exact hclear x hx z.1 hsub
  refine ⟨es, by rw [hes, List.flatMap_map, htrace], fun r => ?_⟩
  rw [← hitems]
  refine List.forall₂_map_right_iff.mpr ((List.forall₂_map_left_iff.mp (hall r)).flip.imp ?_)
  rintro r' z ⟨ty, hty, hagrees⟩
  exact ⟨z.2, ty, hty, hagrees⟩

/-- A replay of the trace, from the files that the traced calls began with and with room for as
many descriptors, leaves the files that the calls have left, and each call that had succeeded is
reported to have given the same result. -/
theorem replay_restores (hF : F.Lawful) (hpick : Picks pick limit) {files : φ}
    {xs : List (TracedCall P)} (hrun : run (Traced.step F cwd) (.start files) xs = some t)
    (hkept : Along (TracedCall.Kept F cwd limit) (Traced.step F cwd) (.start files) xs)
    {items : List (Submission × BitVec 32)}
    (hitems : items.map Prod.fst = xs.flatMap fun x => x.exit.submitted)
    (hpos : 0 < (traceOf items).length) (hshort : (traceOf items).length < 2 ^ 31)
    (hcwd : (cstr cwd).length ≤ 3072) (r : Record) :
    ∃ (fuel : Nat) (replay : Run),
      main (F.os pick) cwd [] 1 (.whole (traceOf items)) fuel r (files, ∅) = .left replay ∧
      replay.ending = .finished ∧
      (performs (F.os pick) (callsOf replay.rounds) (files, ∅)).1 = t.files ∧
      ∀ round ∈ replay.rounds, round.call.isSome → 0 ≤ round.record.returnValue.toInt →
        round.report = some .sameResult := by
  have hmemory : ∀ x ∈ xs, x.T.pathAlloc = true :=
    (along_iff_forall hrun).mp (hkept.mono fun _ _ h => h.memory)
  have hclear : ∀ x ∈ xs, ∀ sub ∈ x.exit.submitted, sub.record.flushBufferSig ≠ 1 :=
    (along_iff_forall hrun).mp (hkept.mono fun _ _ h => h.clear)
  obtain ⟨es, hes, hall⟩ := entries_of_traced hmemory hclear hitems
  obtain ⟨y, hy, hsynced⟩ :=
    (Synced.start files).run hF hpick hcwd hkept hrun (hall r)
  have hlaid : Laid (traceOf items) Cursor.int.start es :=
    (laid_iff_of_short hshort (Nat.zero_le _) es).mpr (by rw [List.drop_zero, hes])
  obtain ⟨rounds, hrounds, hreplays⟩ := Replaying.replays (F.os pick) cwd hy
  have hloop := hreplays.mainLoop _ hlaid (es.length + 1) (Nat.lt_succ_self _)
  obtain rfl : y.rounds = rounds := hrounds
  have hperforms : y.os = performs (F.os pick) (callsOf y.rounds) (files, ∅) :=
    run_invariant (fun y => y.os = performs (F.os pick) (callsOf y.rounds) (files, ∅))
      (fun _ _ _ h hstep => Replaying.step_performs _ _ h hstep) rfl hy
  refine ⟨es.length + 1, _, by rw [main_whole, if_neg (by omega)], ?_⟩
  rw [Replaying.start] at hloop
  rw [hloop]
  refine ⟨rfl, ?_, hsynced.reports⟩
  rw [← hperforms]
  exact hsynced.files

end Synced

def disk : Files (List Byte) Unit where
  open_ _ _ _ s := (.ok (), s)
  read _ n s := (.ok ((s.take 4096).take n), s)
  write _ data s := (.ok (data.take 4096).length, s ++ data.take 4096)
  close _ s := (.ok (), s)
  change _ s := (.error ⟨1, by decide⟩, s)

theorem disk_lawful : disk.Lawful where
  open_fails _ _ _ _ _ _ h := nomatch h
  read_fails _ _ _ _ _ h := nomatch h
  write_fails _ _ _ _ _ h := nomatch h
  change_fails _ _ _ _ h := (Prod.mk.inj h).2.symm
  read_again _ n s bs s' h := by
    cases h
    have hle := List.length_take_le 4096 s
    have hshort := List.length_take_le' n (s.take 4096)
    have hprefix := List.prefix_iff_eq_take.mp (List.take_prefix n (s.take 4096))
    exact ⟨by omega, congrArg (fun bs => (Except.ok bs, s)) hprefix.symm⟩
  write_again _ data s n s' h := by
    cases h
    have hle := List.length_take_le 4096 data
    have hprefix := List.prefix_iff_eq_take.mp (List.take_prefix 4096 data)
    have hsame : (data.take (data.take 4096).length).take 4096 = data.take 4096 := by
      rw [← hprefix, List.take_take, Nat.min_self]
    exact ⟨by omega, congrArg (fun bs => (Except.ok bs.length, s ++ bs)) hsame⟩

def openedA : TracedCall .small where
  K := Kernel.opening
  T := slashA
  call := .open_ 4 3
  s := ()
  exit := ⟨0, (), [⟨Trfs.openRecord Kernel.opening 3 0 ⟨[0x2F, 0x61], slashA_noNul, slashA_fits⟩
    (some [0x2F, 0x61]) (), []⟩]⟩
  ran := rfl
  mode := 0o644

def writingTwo : Kernel Unit := { Kernel.inert with vfsWrite := fun _ _ _ _ s => (2, s) }

def wroteTwo : TracedCall .small where
  K := writingTwo
  T := .plenty
  call := .write 3 5 2 0
  s := ()
  exit := ⟨2, (), [⟨{ Trfs.writeRecord writingTwo 3 2 () with data := some [0, 0] }, [0, 0]⟩]⟩
  ran := rfl
  mode := 0

def closedA : TracedCall .small where
  K := Kernel.inert
  T := .plenty
  call := .close 3 0
  s := ()
  exit := ⟨0, (), [⟨Trfs.closeRecord Kernel.inert 3 0 (), []⟩]⟩
  ran := rfl
  mode := 0

theorem openedA_kept : openedA.Kept disk [] 1 (.start []) where
  memory := rfl
  logged _ := List.cons_ne_nil _ _
  clear sub hsub := by
    cases List.mem_singleton.mp hsub
    decide
  result h := nomatch h
  opens _ _ _ _ _ := ⟨Nat.zero_lt_one, rfl⟩
  writes _ _ _ _ h := nomatch h

theorem wroteTwo_kept (t : Traced (List Byte) Unit) : wroteTwo.Kept disk [] 1 t where
  memory := rfl
  logged _ := List.cons_ne_nil _ _
  clear sub hsub := by
    cases List.mem_singleton.mp hsub
    decide
  result h := nomatch h
  opens _ _ _ h := nomatch h
  writes _ _ _ _ h := by
    cases h
    rfl

theorem closedA_kept (t : Traced (List Byte) Unit) : closedA.Kept disk [] 1 t where
  memory := rfl
  logged _ := List.cons_ne_nil _ _
  clear sub hsub := by
    cases List.mem_singleton.mp hsub
    decide
  result h := nomatch h
  opens _ _ _ h := nomatch h
  writes _ _ _ _ h := nomatch h

theorem picks_three : Picks (η := Unit) (fun _ => 3) 1 := by
  intro fds h
  have hnonneg : 0 ≤ (3 : CInt).toInt := by decide
  refine ⟨AList.lookup_eq_none.mpr fun hmem => ?_, hnonneg⟩
  have hpos := List.length_pos_of_mem (AList.mem_keys.mp hmem)
  omega

def sessionItems : List (Submission × BitVec 32) :=
  [openedA, wroteTwo, closedA].flatMap fun x => x.exit.submitted.map fun sub => (sub, 7)

theorem replay_restores_session :
    ∃ t, run (Traced.step disk []) (.start []) [openedA, wroteTwo, closedA] = some t ∧
      t.files = [0, 0] ∧
      ∃ (fuel : Nat) (replay : Run),
        main (disk.os fun _ => 3) [] [] 1 (.whole (traceOf sessionItems)) fuel .blank ([], ∅) =
          .left replay ∧
        replay.ending = .finished ∧
        (performs (disk.os fun _ => 3) (callsOf replay.rounds) ([], ∅)).1 = t.files ∧
        ∀ round ∈ replay.rounds, round.call.isSome → 0 ≤ round.record.returnValue.toInt →
          round.report = some .sameResult := by
  obtain ⟨t, ht, hfiles⟩ : ∃ t,
      run (Traced.step disk []) (.start []) [openedA, wroteTwo, closedA] = some t ∧
        t.files = [0, 0] := Option.map_eq_some_iff.mp (by decide +kernel)
  have hkept : Along (TracedCall.Kept disk [] 1) (Traced.step disk []) (.start [])
      [openedA, wroteTwo, closedA] :=
    ⟨openedA_kept, fun t _ => ⟨wroteTwo_kept t, fun t _ => ⟨closedA_kept t, fun _ _ => trivial⟩⟩⟩
  have hlength : (traceOf sessionItems).length = 73 := by decide +kernel
  have hitems : sessionItems.map Prod.fst =
      [openedA, wroteTwo, closedA].flatMap fun x => x.exit.submitted := rfl
  exact ⟨t, ht, hfiles, replay_restores disk_lawful picks_three ht hkept hitems (by omega)
    (by omega) (Nat.zero_le _) .blank⟩

end TraceFS.Treplay
