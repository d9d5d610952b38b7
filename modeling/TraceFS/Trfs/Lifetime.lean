import TraceFS.Trfs.Mount
import TraceFS.Trfs.Order

namespace TraceFS.Trfs

open TraceFS.Lib TraceFS.Linux

variable {P : PageSize}

namespace Mount

variable (s : Mount P)

/-- `trfs_read_super` gets its memory; the thread makes no round after `out_sput`; of the exits
with an error, only the one for want of the trace file leads to `trfs_umount`, which does not get
to its write then; no operation that found no queue creates one when there is one by then; and the
worker is done with the queue when `trfs_umount` frees `tr_info`, and writes nothing once the file
is closed. -/
def Proper : MountLabel P → Prop
  | .allocTrInfo _ => s.reading = .allocated true
  | .createQueue _ => s.reading = .traced true
  | .round => s.reading ≠ .left .noRoot
  | .makeQueue .. => s.eWq ≠ .live
  | .killSb => s.reading = .left .noFile ∨ s.reading = .left .mounted
  | .finalWrite => s.reading = .left .mounted
  | .logging .take =>
    s.teardown = .freed → ∀ w ∈ s.logging.queue.head?, w.job.record.flushBufferSig = 1
  | .enter => s.teardown ≠ .freed ∧
    (s.teardown = .closed → ∀ w ∈ s.logging.worker, ¬ s.logging.Writes w.job.record)
  | .logging .work => s.teardown ≠ .freed
  | _ => True

end Mount

namespace Reading

def sFsInfo : Reading → Presence
  | .start | .named | .found | .allocated false | .left .noDevice | .left .noPath => .absent
  | .allocated true | .traced _ | .queued | .threaded | .opened | .left .noFile
  | .left .mounted => .live
  | .left .noRoot => .gone

def trInfo : Reading → Presence
  | .start | .named | .found | .allocated _ | .traced false | .left .noDevice
  | .left .noPath => .absent
  | .traced true | .queued | .threaded | .opened | .left .noFile | .left .noRoot
  | .left .mounted => .live

def filp : Reading → Presence
  | .opened | .left .noRoot | .left .mounted => .live
  | _ => .absent

def Started : Reading → Prop
  | .threaded | .opened | .left .noFile | .left .noRoot | .left .mounted => True
  | _ => False

def Left : Reading → Prop
  | .left _ => True
  | _ => False

theorem Started.trInfo {r : Reading} (h : r.Started) : r.trInfo = .live := by
  unfold Started at h
  split at h <;> first | rfl | exact h.elim

theorem Started.sFsInfo {r : Reading} (h : r.Started) :
    r.sFsInfo = if r = .left .noRoot then .gone else .live := by
  unfold Started at h
  split at h <;> first | rfl | exact h.elim

end Reading

def Teardown.Written : Teardown → Prop
  | .written | .closed | .freed | .destroyed | .returned => True
  | _ => False

namespace Mount

variable (s : Mount P)

structure Kept : Prop where
  sFsInfo : s.sFsInfo = if s.teardown = .returned then .gone else s.reading.sFsInfo
  trInfo : s.trInfo =
    if s.teardown = .freed ∨ s.teardown = .destroyed ∨ s.teardown = .returned then .gone
    else s.reading.trInfo
  filp : s.filp =
    if s.teardown = .closed ∨ s.teardown = .freed ∨ s.teardown = .destroyed ∨
      s.teardown = .returned then .gone
    else s.reading.filp
  umount : s.logging.umount = match s.teardown with
    | .idle => .mounted
    | .begun => .begun
    | .stopped => .stopped
    | .written | .closed | .freed | .destroyed | .returned => .written
  left : s.teardown ≠ .idle → s.reading = .left .noFile ∨ s.reading = .left .mounted
  started : s.logger = .absent ∨ s.reading.Started
  stopped : s.teardown ≠ .idle → s.teardown ≠ .begun → s.logger = .exited
  mounted : s.teardown ≠ .idle → s.teardown ≠ .begun → s.teardown ≠ .stopped →
    s.reading = .left .mounted
  quiet : s.reading ≠ .left .mounted → s.logging.pending = [] ∧
    s.logging.sb.trInfo.bufferOffset = 0 ∧ s.logger ≠ .running true
  queued : s.eWq = .live ∨ s.logging.pending = []
  destroyed : s.teardown = .destroyed ∨ s.teardown = .returned → s.eWq ≠ .live
  working : s.locked = true → s.logging.worker.isSome

theorem start_kept (P : PageSize) : (Mount.start P).Kept where
  sFsInfo := rfl
  trInfo := rfl
  filp := rfl
  umount := rfl
  left h := absurd rfl h
  started := .inl rfl
  stopped h := absurd rfl h
  mounted h := absurd rfl h
  quiet _ := ⟨rfl, rfl, nofun⟩
  queued := .inr rfl
  destroyed h := by simp [start] at h
  working h := by cases h

variable {s} {l : Label P}

theorem takes_cases (ht : s.Takes l) : s.Operates ∨ (l = .tick ∧ s.logger = .running true) ∨
    ((l = .take ∨ l = .work) ∧ s.eWq = .live) := by
  cases l with
  | tick => exact .inr (.inl ⟨rfl, ht.1⟩)
  | take => exact .inr (.inr ⟨.inl rfl, ht⟩)
  | work => exact .inr (.inr ⟨.inr rfl, ht.1⟩)
  | writeLarge | logReaddir | submit | submitLarge | drop => exact .inl ht.1
  | umount | stop | finalWrite | close => exact ht.elim
  | invoke | build | checkLarge | flushed | checkReaddir | ret | ioctl => exact .inl ht

theorem Kept.mounted_of_pending (h : s.Kept) (hp : s.logging.pending ≠ []) :
    s.reading = .left .mounted := by
  by_contra hno
  exact hp (h.quiet hno).1

theorem Kept.mounted_of_takes (h : s.Kept) (ht : s.Takes l)
    (ha : (s.logging.step l).isSome ∨ (s.logging.logs? l).isSome) :
    s.reading = .left .mounted := by
  rcases takes_cases ht with hop | ⟨-, hrun⟩ | ⟨hl, -⟩
  · exact hop.1
  · by_contra hno
    exact (h.quiet hno).2.2 hrun
  · refine h.mounted_of_pending fun hpending => ?_
    obtain ⟨hworker, hqueue⟩ := List.append_eq_nil_iff.mp hpending
    rw [Option.toList_eq_nil_iff] at hworker
    rcases hl with rfl | rfl <;>
      simp [State.step, State.systemStep, State.logs?, hworker, hqueue] at ha

theorem Kept.sFsInfo_live (h : s.Kept) (hm : s.reading = .left .mounted) :
    s.sFsInfo = .live ↔ s.teardown ≠ .returned := by
  rw [h.sFsInfo, hm]
  cases s.teardown <;> simp [Reading.sFsInfo]

theorem Kept.trInfo_live (h : s.Kept) (hm : s.reading = .left .mounted) :
    s.trInfo = .live ↔
      s.teardown ≠ .freed ∧ s.teardown ≠ .destroyed ∧ s.teardown ≠ .returned := by
  rw [h.trInfo, hm]
  cases s.teardown <;> simp [Reading.trInfo]

theorem Kept.filp_live (h : s.Kept) (hm : s.reading = .left .mounted) :
    s.filp = .live ↔ s.teardown ≠ .closed ∧ s.teardown ≠ .freed ∧ s.teardown ≠ .destroyed ∧
      s.teardown ≠ .returned := by
  rw [h.filp, hm]
  cases s.teardown <;> simp [Reading.filp]

theorem Kept.all_live (h : s.Kept) (hm : s.reading = .left .mounted)
    (ht : s.teardown = .idle ∨ s.teardown = .begun) (r : Resource) : s.presence r = .live := by
  cases r with
  | sFsInfo => exact (h.sFsInfo_live hm).mpr (by rcases ht with ht | ht <;> simp [ht])
  | trInfo => exact (h.trInfo_live hm).mpr (by rcases ht with ht | ht <;> simp [ht])
  | filp => exact (h.filp_live hm).mpr (by rcases ht with ht | ht <;> simp [ht])

theorem Kept.running (h : s.Kept) {armed : Bool} (hr : s.logger = .running armed) :
    s.teardown = .idle ∨ s.teardown = .begun := by
  by_contra hno
  rw [not_or] at hno
  have hexited := h.stopped hno.1 hno.2
  rw [hr] at hexited
  cases hexited

theorem Kept.before_destroyed (h : s.Kept) (ht : s.Takes l) :
    s.teardown ≠ .destroyed ∧ s.teardown ≠ .returned := by
  rw [← not_or]
  intro hd
  rcases takes_cases ht with hop | ⟨-, hrun⟩ | ⟨-, hqueue⟩
  · simp [hop.2] at hd
  · rcases h.running hrun with heq | heq <;> simp [heq] at hd
  · exact h.destroyed hd hqueue

theorem Kept.worker_before_destroyed (h : s.Kept) (hw : s.logging.worker.isSome) :
    s.teardown ≠ .destroyed ∧ s.teardown ≠ .returned := by
  rw [← not_or]
  refine fun hd => h.destroyed hd (h.queued.resolve_right fun hpending => ?_)
  rw [Option.toList_eq_nil_iff.mp (List.append_eq_nil_iff.mp hpending).1] at hw
  cases hw

theorem safe_of_live {l : MountLabel P} (h : ∀ r, s.presence r = .live) (hq : ¬ s.LosesQueue l) :
    s.Safe l := ⟨fun r _ => h r, hq⟩

theorem safe_nil {l : MountLabel P} (h : s.uses l = []) (hq : ¬ s.LosesQueue l) : s.Safe l := by
  refine ⟨fun r hr => ?_, hq⟩
  rw [h] at hr
  cases hr

theorem Kept.take_safe (h : s.Kept) (ht : s.Takes .take)
    (ha : (s.logging.step .take).isSome ∨ (s.logging.logs? .take).isSome) :
    s.Safe (.logging .take) ↔ s.Proper (.logging .take) := by
  have hm := h.mounted_of_takes ht ha
  have hqueue := h.before_destroyed ht
  cases hq : s.logging.queue with
  | nil => exact iff_of_true (safe_nil (by simp [uses, State.uses, hq]) id) (by simp [Proper, hq])
  | cons w queue =>
    by_cases hsig : w.job.record.flushBufferSig = 1#8
    · refine iff_of_true (safe_nil ?_ id) (by simp [Proper, hq, hsig])
      simp [uses, State.uses, hq, State.checkUses, hsig]
    · have huses : s.uses (.logging .take) = [.sFsInfo, .trInfo] := by
        simp [uses, State.uses, hq, State.checkUses, hsig]
      simp [Safe, LosesQueue, huses, presence, Proper, hq, hsig, h.sFsInfo_live hm,
        h.trInfo_live hm, hqueue]

theorem Kept.enter_safe (h : s.Kept) (hw : s.logging.worker.isSome) :
    s.Safe .enter ↔ s.Proper .enter := by
  have hqueue := h.worker_before_destroyed hw
  obtain ⟨w, hw⟩ := Option.isSome_iff_exists.mp hw
  have hm := h.mounted_of_pending (by simp [State.pending, hw])
  by_cases hwrites : s.logging.Writes w.job.record
  · have huses : s.uses .enter = [.sFsInfo, .trInfo, .filp] := by
      simp [uses, State.logs?, hw, State.logUses, hwrites]
    have hsafe : s.Safe .enter ↔ s.sFsInfo = .live ∧ s.trInfo = .live ∧ s.filp = .live := by
      simp [Safe, LosesQueue, huses, presence]
    have hproper : s.Proper .enter ↔ s.teardown ≠ .freed ∧ s.teardown ≠ .closed := by
      simp [Proper, hw, hwrites]
    rw [hsafe, hproper, h.sFsInfo_live hm, h.trInfo_live hm, h.filp_live hm]
    constructor
    · rintro ⟨-, ⟨hfreed, -⟩, hclosed, -⟩
      exact ⟨hfreed, hclosed⟩
    · rintro ⟨hfreed, hclosed⟩
      exact ⟨hqueue.2, ⟨hfreed, hqueue⟩, hclosed, hfreed, hqueue⟩
  · have huses : s.uses .enter = [.sFsInfo, .trInfo] := by
      simp [uses, State.logs?, hw, State.logUses, hwrites]
    simp [Safe, LosesQueue, huses, presence, Proper, hw, hwrites, h.sFsInfo_live hm,
      h.trInfo_live hm, hqueue]

theorem Kept.work_safe (h : s.Kept) (ht : s.Takes .work)
    (ha : (s.logging.step .work).isSome ∨ (s.logging.logs? .work).isSome) :
    s.Safe (.logging .work) ↔ s.Proper (.logging .work) := by
  have hm := h.mounted_of_takes ht ha
  have hqueue := h.before_destroyed ht
  simp [Safe, LosesQueue, uses, State.uses, presence, Proper, h.sFsInfo_live hm, h.trInfo_live hm,
    hqueue]

theorem Kept.idle_of_reading (h : s.Kept) {r : Reading} (hr : s.reading = r) (hno : ¬ r.Left) :
    s.teardown = .idle := by
  by_contra ht
  rw [← hr] at hno
  rcases h.left ht with hl | hl <;> rw [hl] at hno <;> exact hno trivial

theorem Kept.idle_of_mounted (h : s.Kept) (hm : s.logging.umount = .mounted) :
    s.teardown = .idle := by
  have humount := h.umount
  rw [hm] at humount
  cases ht : s.teardown with
  | idle => rfl
  | _ => simp [ht] at humount

theorem Kept.mounted_of_written (h : s.Kept) (hw : s.teardown.Written) :
    s.reading = .left .mounted := by
  refine h.mounted ?_ ?_ ?_ <;> intro ht <;> rw [ht] at hw <;> exact hw

theorem Kept.safe_iff (h : s.Kept) {l : MountLabel P} (ha : s.Attempts l) :
    s.Safe l ↔ s.Proper l := by
  cases l with
  | logging l =>
    obtain ⟨ht, ha⟩ := ha
    have hm := h.mounted_of_takes ht ha
    cases l with
    | take => exact h.take_safe ht ha
    | work => exact h.work_safe ht ha
    | tick => exact iff_of_true (safe_of_live (h.all_live hm (h.running ht.1)) id) trivial
    | umount | stop | finalWrite | close => exact ht.elim
    | writeLarge | logReaddir | submit | submitLarge | drop =>
      exact iff_of_true (safe_of_live (h.all_live hm (.inl ht.1.2)) id) trivial
    | _ => exact iff_of_true (safe_of_live (h.all_live hm (.inl ht.2)) id) trivial
  | enter => exact h.enter_safe (Option.isSome_ite.mp ha).1
  | devName | kernPath | allocSb | stopThread => exact iff_of_true (safe_nil rfl id) trivial
  | missQueue op =>
    have hop := (Option.isSome_ite.mp ha).1
    exact iff_of_true (safe_of_live (h.all_live hop.1 (.inl hop.2)) id) trivial
  | makeQueue op ok =>
    have hop := (Option.isSome_ite.mp ha).1
    exact and_iff_right fun r _ => h.all_live hop.1 (.inl hop.2) r
  | allocTrInfo ok =>
    obtain ⟨s', hs⟩ := Option.isSome_iff_exists.mp ha
    obtain ⟨sb, hr, -⟩ := next_allocTrInfo hs
    have ht := h.idle_of_reading hr id
    cases sb <;> simp [Safe, LosesQueue, uses, presence, Proper, hr, h.sFsInfo, ht, Reading.sFsInfo]
  | createQueue ok =>
    obtain ⟨s', hs⟩ := Option.isSome_iff_exists.mp ha
    obtain ⟨info, hr, -⟩ := next_createQueue hs
    have ht := h.idle_of_reading hr id
    cases info <;> simp [Safe, LosesQueue, uses, presence, Proper, hr, h.sFsInfo, h.trInfo, ht,
      Reading.sFsInfo, Reading.trInfo]
  | runThread ok =>
    have hr : s.reading = .queued := Option.isSome_ite.mp ha
    have ht := h.idle_of_reading hr id
    simp [Safe, LosesQueue, uses, presence, Proper, hr, h.sFsInfo, ht, Reading.sFsInfo]
  | openFile ok =>
    have hr : s.reading = .threaded := by
      by_contra hno
      simp [Attempts, next, hno] at ha
    have ht := h.idle_of_reading hr id
    cases ok <;> simp [Safe, LosesQueue, uses, presence, Proper, hr, h.sFsInfo, h.trInfo, ht,
      Reading.sFsInfo, Reading.trInfo]
  | makeRoot ok =>
    have hr : s.reading = .opened := by
      by_contra hno
      simp [Attempts, next, hno] at ha
    have ht := h.idle_of_reading hr id
    simp [Safe, LosesQueue, uses, presence, Proper, hr, h.sFsInfo, ht, Reading.sFsInfo]
  | round =>
    have hr : s.logger = .running false := Option.isSome_ite.mp ha
    have hstarted := h.started.resolve_left (by simp [hr])
    have ht := h.running hr
    have hfs : s.sFsInfo = if s.reading = .left .noRoot then .gone else .live := by
      rw [h.sFsInfo, if_neg (by rcases ht with ht | ht <;> simp [ht]), hstarted.sFsInfo]
    have htr : s.trInfo = .live := by
      rw [h.trInfo, if_neg (by rcases ht with ht | ht <;> simp [ht]), hstarted.trInfo]
    simp [Safe, LosesQueue, uses, presence, Proper, hfs, htr]
  | killSb =>
    obtain ⟨s', hs⟩ := Option.isSome_iff_exists.mp ha
    obtain ⟨exit, t, hr, hstep, -⟩ := next_killSb hs
    cases Step.of_step hstep with
    | umount hm hactive =>
      have ht := h.idle_of_mounted hm
      cases exit <;>
        simp [Safe, LosesQueue, uses, presence, Proper, hr, h.sFsInfo, ht, Reading.sFsInfo]
  | finalWrite =>
    have ht : s.teardown = .stopped := by
      by_contra hno
      simp [Attempts, next, hno] at ha
    rcases h.left (by simp [ht]) with hr | hr <;>
      simp [Safe, LosesQueue, uses, presence, Proper, hr, h.sFsInfo, h.trInfo, h.filp, ht,
        Reading.sFsInfo, Reading.trInfo, Reading.filp]
  | closeFile =>
    have ht : s.teardown = .written := Option.isSome_ite.mp ha
    have hm := h.mounted_of_written (by rw [ht]; trivial)
    simp [Safe, LosesQueue, uses, presence, Proper, h.sFsInfo_live hm, h.trInfo_live hm,
      h.filp_live hm, ht]
  | freeTrInfo =>
    have ht : s.teardown = .closed := Option.isSome_ite.mp ha
    have hm := h.mounted_of_written (by rw [ht]; trivial)
    simp [Safe, LosesQueue, uses, presence, Proper, h.sFsInfo_live hm, h.trInfo_live hm, ht]
  | destroyQueue =>
    have ht : s.teardown = .freed := (Option.isSome_ite.mp ha).1
    have hm := h.mounted_of_written (by rw [ht]; trivial)
    simp [Safe, LosesQueue, uses, presence, Proper, h.sFsInfo_live hm, ht]
  | shutdown =>
    have ht : s.teardown = .destroyed := Option.isSome_ite.mp ha
    have hm := h.mounted_of_written (by rw [ht]; trivial)
    simp [Safe, LosesQueue, uses, presence, Proper, h.sFsInfo_live hm, ht, hm]

end Mount

theorem Step.worker_isSome {s s' : State P} {l : Label P} (hs : Step s l s') (hl : l ≠ .work)
    (hw : s.worker.isSome) : s'.worker.isSome := by
  cases hs with
  | work => exact absurd rfl hl
  | take hc hnone =>
    rw [hnone] at hw
    cases hw
  | checkReaddir => simpa [State.setPhase] using hw
  | _ => exact hw

theorem Step.pending_nil {s s' : State P} {l : Label P} (hs : Step s l s')
    (hl : ∀ op, l ≠ .submit op ∧ l ≠ .submitLarge op) (h : s.pending = []) : s'.pending = [] := by
  obtain ⟨hworker, hqueue⟩ := List.append_eq_nil_iff.mp h
  rw [Option.toList_eq_nil_iff] at hworker
  cases hs with
  | @submit op => exact absurd rfl (hl op).1
  | @submitLarge op => exact absurd rfl (hl op).2
  | take hc hw hq =>
    rw [hqueue] at hq
    cases hq
  | work hc hw =>
    rw [hworker] at hw
    cases hw
  | checkReaddir => simp [State.pending, State.setPhase, hworker, hqueue]
  | _ => simp [State.pending, State.setPhase, hworker, hqueue]

namespace Mount

variable {s s' : Mount P}

theorem Kept.logNext {l : Label P} (h : s.Kept) (ht : s.Takes l) (hs : s.logNext l = some s') :
    s'.Kept := by
  obtain ⟨t, hstep, heq, hlocked, hlogger⟩ := logNext_eq_some hs
  have hm := h.mounted_of_takes ht (.inl (by simp [hstep]))
  have hbase := Step.of_step hstep
  rw [heq]
  exact
    { sFsInfo := h.sFsInfo
      trInfo := h.trInfo
      filp := h.filp
      umount := by
        have humount : t.umount = s.logging.umount := by
          rcases hbase.umount_cases with heq | ⟨rfl, -⟩ | ⟨rfl, -⟩ | ⟨rfl, -⟩ | ⟨rfl, -⟩
          · exact heq
          all_goals exact ht.elim
        exact humount.trans h.umount
      left := h.left
      started := .inr (by simp [hm, Reading.Started])
      stopped := by
        intro hidle hbegun
        rcases hlogger with hlogger | ⟨-, rfl⟩
        · exact hlogger.trans (h.stopped hidle hbegun)
        · rcases h.running ht.1 with ht | ht
          · exact absurd ht hidle
          · exact absurd ht hbegun
      mounted := h.mounted
      quiet := fun hno => absurd hm hno
      queued := by
        by_cases hqueue : s.eWq = .live
        · exact .inl hqueue
        · refine .inr (hbase.pending_nil ?_ (h.queued.resolve_left hqueue))
          rintro op
          constructor <;> rintro rfl <;> exact hqueue ht.2.1
      destroyed := fun hd => absurd hd (not_or.mpr (h.before_destroyed ht))
      working := fun hl => hbase.worker_isSome (hlocked hl).2 (h.working (hlocked hl).1) }

theorem Kept.of_reading (h : s.Kept) {r : Reading} (hr : s.reading = r) (hno : ¬ r.Left) :
    s.sFsInfo = r.sFsInfo ∧ s.trInfo = r.trInfo ∧ s.filp = r.filp := by
  have ht := h.idle_of_reading hr hno
  rw [h.sFsInfo, h.trInfo, h.filp, ht, hr]
  simp

theorem Kept.readSuper (h : s.Kept) {r : Reading} (hr : s.reading = r) (hno : ¬ r.Left)
    {r' : Reading} {fs tr fp eWq : Presence} {logger : Logger}
    (hfs : fs = r'.sFsInfo) (htr : tr = r'.trInfo) (hfp : fp = r'.filp)
    (hlogger : logger = .absent ∨ r'.Started) (harmed : logger ≠ .running true) :
    Kept { s with
      reading := r'
      sFsInfo := fs
      trInfo := tr
      filp := fp
      logger := logger
      eWq := eWq } := by
  have ht := h.idle_of_reading hr hno
  obtain ⟨hpending, hoffset, -⟩ := h.quiet fun hl => hno (by rw [← hr, hl]; trivial)
  exact
    { sFsInfo := hfs.trans (by simp [ht])
      trInfo := htr.trans (by simp [ht])
      filp := hfp.trans (by simp [ht])
      umount := h.umount
      left := fun hidle => absurd ht hidle
      started := hlogger
      stopped := fun hidle => absurd ht hidle
      mounted := fun hidle => absurd ht hidle
      quiet := fun _ => ⟨hpending, hoffset, harmed⟩
      queued := .inr hpending
      destroyed := fun hd => by simp [ht] at hd
      working := h.working }

theorem Kept.readOn (h : s.Kept) {r r' : Reading} (hr : s.reading = r) (hno : ¬ r.Left)
    (hfs : r.sFsInfo = r'.sFsInfo) (htr : r.trInfo = r'.trInfo) (hfp : r.filp = r'.filp)
    (hstarted : r.Started → r'.Started) : Kept { s with reading := r' } := by
  obtain ⟨hfs', htr', hfp'⟩ := h.of_reading hr hno
  have hquiet := h.quiet fun hl => hno (by rw [← hr, hl]; trivial)
  refine h.readSuper hr hno (hfs'.trans hfs) (htr'.trans htr) (hfp'.trans hfp) ?_ hquiet.2.2
  exact h.started.imp_right fun hs => hstarted (hr ▸ hs)

theorem Kept.absent_of_reading (h : s.Kept) {r : Reading} (hr : s.reading = r)
    (hno : ¬ r.Started) : s.logger = .absent := h.started.resolve_right (hr ▸ hno)

theorem Kept.round (h : s.Kept) (hr : s.logger = .running false) :
    Kept { s with logger := .running (0 < s.logging.sb.trInfo.bufferOffset.toNat) } :=
  { h with
    started := .inr (h.started.resolve_left (by simp [hr]))
    stopped := fun hidle hbegun =>
      absurd (h.running hr) (not_or.mpr ⟨hidle, hbegun⟩)
    quiet := fun hno => by
      obtain ⟨hpending, hoffset, -⟩ := h.quiet hno
      exact ⟨hpending, hoffset, by simp [hoffset]⟩ }

theorem Kept.killSb {exit : ReadExit} (h : s.Kept) (hr : s.reading = .left exit)
    (ht : s.teardown = .idle) (hlive : s.sFsInfo = .live) :
    Kept { s with logging := { s.logging with umount := .begun }, teardown := .begun } where
  sFsInfo := by simpa [ht] using h.sFsInfo
  trInfo := by simpa [ht] using h.trInfo
  filp := by simpa [ht] using h.filp
  umount := rfl
  left _ := by
    rw [h.sFsInfo, ht, hr] at hlive
    cases exit <;> simp_all [Reading.sFsInfo]
  started := h.started
  stopped _ hbegun := absurd rfl hbegun
  mounted _ hbegun := absurd rfl hbegun
  quiet := h.quiet
  queued := h.queued
  destroyed hd := by simp at hd
  working := h.working

theorem Kept.stopThread (h : s.Kept) (ht : s.teardown = .begun) :
    Kept { s with
      logging := { s.logging with umount := .stopped }
      teardown := .stopped
      logger := .exited } where
  sFsInfo := by simpa [ht] using h.sFsInfo
  trInfo := by simpa [ht] using h.trInfo
  filp := by simpa [ht] using h.filp
  umount := rfl
  left _ := h.left (by simp [ht])
  started := .inr (by rcases h.left (by simp [ht]) with hr | hr <;> simp [hr, Reading.Started])
  stopped _ _ := rfl
  mounted _ _ hstopped := absurd rfl hstopped
  quiet hno := ⟨(h.quiet hno).1, (h.quiet hno).2.1, nofun⟩
  queued := h.queued
  destroyed hd := by simp at hd
  working := h.working

theorem Kept.finalWrite (h : s.Kept) (ht : s.teardown = .stopped) (hlive : s.filp = .live) :
    Kept { s with
      logging := { s.logging with
        umount := .written
        sb := umountFlush s.logging.sb .all
        ledger := s.logging.ledger.flush }
      teardown := .written } where
  sFsInfo := by simpa [ht] using h.sFsInfo
  trInfo := by simpa [ht] using h.trInfo
  filp := by simpa [ht] using h.filp
  umount := rfl
  left _ := h.left (by simp [ht])
  started := h.started
  stopped _ _ := h.stopped (by simp [ht]) (by simp [ht])
  mounted _ _ _ := by
    refine (h.left (by simp [ht])).resolve_left fun hr => ?_
    simp [h.filp, ht, hr, Reading.filp] at hlive
  quiet hno := by
    refine absurd ((h.left (by simp [ht])).resolve_left fun hr => ?_) hno
    simp [h.filp, ht, hr, Reading.filp] at hlive
  queued := h.queued
  destroyed hd := by simp at hd
  working := h.working

theorem Kept.tearDown (h : s.Kept) (hw : s.teardown.Written) {t : Teardown}
    {fs tr fp eWq : Presence} (ht : t.Written)
    (hfs : fs = if t = .returned then .gone else .live)
    (htr : tr = if t = .freed ∨ t = .destroyed ∨ t = .returned then .gone else .live)
    (hfp : fp = if t = .closed ∨ t = .freed ∨ t = .destroyed ∨ t = .returned then .gone else .live)
    (hqueued : eWq = .live ∨ s.logging.pending = [])
    (hdestroyed : t = .destroyed ∨ t = .returned → eWq ≠ .live) :
    Kept { s with teardown := t, sFsInfo := fs, trInfo := tr, filp := fp, eWq := eWq } := by
  have hm := h.mounted_of_written hw
  have hstopped : s.logger = .exited := by
    refine h.stopped ?_ ?_ <;> intro ht <;> rw [ht] at hw <;> exact hw
  have humount : s.logging.umount = .written := by
    have humount := h.umount
    cases ht : s.teardown <;> rw [ht] at humount hw <;> first | exact humount | exact hw.elim
  exact
    { h with
      sFsInfo := by rw [hfs, hm]; rfl
      trInfo := by rw [htr, hm]; rfl
      filp := by rw [hfp, hm]; rfl
      umount := by cases t <;> first | exact humount | exact ht.elim
      left := fun _ => .inr hm
      stopped := fun _ _ => hstopped
      mounted := fun _ _ _ => hm
      queued := hqueued
      destroyed := hdestroyed }

theorem Kept.closeFile (h : s.Kept) (ht : s.teardown = .written) :
    Kept { s with teardown := .closed, filp := .gone } := by
  have hw : s.teardown.Written := by rw [ht]; trivial
  have hm := h.mounted_of_written hw
  have hfs : s.sFsInfo = .live := (h.sFsInfo_live hm).mpr (by simp [ht])
  have htr : s.trInfo = .live := (h.trInfo_live hm).mpr (by simp [ht])
  exact h.tearDown hw trivial hfs htr rfl h.queued (by simp)

theorem Kept.freeTrInfo (h : s.Kept) (ht : s.teardown = .closed) :
    Kept { s with teardown := .freed, trInfo := .gone } := by
  have hw : s.teardown.Written := by rw [ht]; trivial
  have hfs : s.sFsInfo = .live := (h.sFsInfo_live (h.mounted_of_written hw)).mpr (by simp [ht])
  have hfp : s.filp = .gone := by rw [h.filp, ht]; rfl
  exact h.tearDown hw trivial hfs rfl hfp h.queued (by simp)

theorem Kept.destroyQueue (h : s.Kept) (ht : s.teardown = .freed)
    (hdone : s.logging.pending = []) :
    Kept { s with teardown := .destroyed, eWq := if s.eWq = .live then .gone else s.eWq } := by
  have hw : s.teardown.Written := by rw [ht]; trivial
  have hfs : s.sFsInfo = .live := (h.sFsInfo_live (h.mounted_of_written hw)).mpr (by simp [ht])
  have htr : s.trInfo = .gone := by rw [h.trInfo, ht]; rfl
  have hfp : s.filp = .gone := by rw [h.filp, ht]; rfl
  exact h.tearDown hw trivial hfs htr hfp (.inr hdone) fun _ => by split <;> simp_all

theorem Kept.shutdown (h : s.Kept) (ht : s.teardown = .destroyed) :
    Kept { s with
      teardown := .returned
      sFsInfo := if s.reading = .left .mounted then .gone else s.sFsInfo } := by
  have hw : s.teardown.Written := by rw [ht]; trivial
  have htr : s.trInfo = .gone := by rw [h.trInfo, ht]; rfl
  have hfp : s.filp = .gone := by rw [h.filp, ht]; rfl
  exact h.tearDown hw trivial (if_pos (h.mounted_of_written hw)) htr hfp h.queued
    fun _ => h.destroyed (.inl ht)

theorem Kept.next {l : MountLabel P} (h : s.Kept) (hsafe : s.Safe l) (hs : s.next l = some s') :
    s'.Kept := by
  cases l with
  | logging l =>
    obtain ⟨ht, hs⟩ := Option.ite_none_right_eq_some.mp hs
    exact h.logNext ht hs
  | devName given =>
    obtain ⟨hr, hs⟩ := Option.ite_none_right_eq_some.mp hs
    cases hs
    cases given <;> exact h.readOn hr id rfl rfl rfl id
  | kernPath found =>
    obtain ⟨hr, hs⟩ := Option.ite_none_right_eq_some.mp hs
    cases hs
    cases found <;> exact h.readOn hr id rfl rfl rfl id
  | allocSb ok =>
    obtain ⟨hr, hs⟩ := Option.ite_none_right_eq_some.mp hs
    cases hs
    obtain ⟨-, htr, hfp⟩ := h.of_reading hr id
    have hlogger := h.absent_of_reading hr id
    exact h.readSuper hr id (by cases ok <;> rfl) htr hfp (.inl hlogger) (by simp [hlogger])
  | allocTrInfo ok =>
    obtain ⟨sb, hr, rfl⟩ := next_allocTrInfo hs
    obtain ⟨hfs, -, hfp⟩ := h.of_reading hr id
    have hlive : s.sFsInfo = (Reading.traced ok).sFsInfo := hsafe.1 .sFsInfo List.mem_cons_self
    have hlogger := h.absent_of_reading hr id
    exact h.readSuper hr id hlive (by cases ok <;> rfl) hfp (.inl hlogger) (by simp [hlogger])
  | createQueue ok =>
    obtain ⟨info, hr, rfl⟩ := next_createQueue hs
    obtain ⟨hfs, -, hfp⟩ := h.of_reading hr id
    have hfs : s.sFsInfo = Reading.queued.sFsInfo := hfs
    have hlive : s.trInfo = Reading.queued.trInfo := hsafe.1 .trInfo (by simp [uses])
    have hlogger := h.absent_of_reading hr id
    exact h.readSuper hr id hfs hlive hfp (.inl hlogger) (by simp [hlogger])
  | runThread ok =>
    obtain ⟨hr, hs⟩ := Option.ite_none_right_eq_some.mp hs
    cases hs
    obtain ⟨hfs, htr, hfp⟩ := h.of_reading hr id
    exact h.readSuper hr id hfs htr hfp (.inr trivial) (by cases ok <;> simp)
  | openFile ok =>
    obtain ⟨hr, hs⟩ := Option.ite_none_right_eq_some.mp hs
    cases ok with
    | false =>
      cases hs
      exact h.readOn hr id rfl rfl rfl id
    | true =>
      cases hs
      obtain ⟨hfs, htr, -⟩ := h.of_reading hr id
      exact h.readSuper hr id hfs htr rfl (.inr trivial) (h.quiet (by simp [hr])).2.2
  | makeRoot ok =>
    obtain ⟨hr, hs⟩ := Option.ite_none_right_eq_some.mp hs
    cases ok with
    | false =>
      cases hs
      obtain ⟨-, htr, hfp⟩ := h.of_reading hr id
      exact h.readSuper hr id rfl htr hfp (.inr trivial) (h.quiet (by simp [hr])).2.2
    | true =>
      cases hs
      exact h.readOn hr id rfl rfl rfl id
  | round =>
    obtain ⟨hr, hs⟩ := Option.ite_none_right_eq_some.mp hs
    cases hs
    exact h.round hr
  | enter =>
    obtain ⟨⟨hw, -⟩, hs⟩ := Option.ite_none_right_eq_some.mp hs
    cases hs
    exact { h with working := fun _ => hw }
  | missQueue op =>
    obtain ⟨-, hs⟩ := Option.ite_none_right_eq_some.mp hs
    cases hs
    exact { h with }
  | makeQueue op ok =>
    obtain ⟨⟨hop, -⟩, hs⟩ := Option.ite_none_right_eq_some.mp hs
    cases hs
    exact
      { h with
        queued := .inr (h.queued.resolve_left hsafe.2)
        destroyed := fun hd => by simp [hop.2] at hd }
  | killSb =>
    obtain ⟨exit, t, hr, hstep, rfl⟩ := next_killSb hs
    cases Step.of_step hstep with
    | umount hm ha =>
      exact h.killSb hr (h.idle_of_mounted hm) (hsafe.1 .sFsInfo List.mem_cons_self)
  | stopThread =>
    obtain ⟨⟨ht, -⟩, hs⟩ := Option.ite_none_right_eq_some.mp hs
    obtain ⟨t, hstep, rfl⟩ := Option.map_eq_some_iff.mp hs
    cases Step.of_step hstep with
    | stop hu => exact h.stopThread ht
  | finalWrite =>
    obtain ⟨⟨ht, -⟩, hs⟩ := Option.ite_none_right_eq_some.mp hs
    obtain ⟨t, hstep, rfl⟩ := Option.map_eq_some_iff.mp hs
    cases Step.of_step hstep with
    | finalWrite hu => exact h.finalWrite ht (hsafe.1 .filp (by simp [uses]))
  | closeFile =>
    obtain ⟨ht, hs⟩ := Option.ite_none_right_eq_some.mp hs
    cases hs
    exact h.closeFile ht
  | freeTrInfo =>
    obtain ⟨ht, hs⟩ := Option.ite_none_right_eq_some.mp hs
    cases hs
    exact h.freeTrInfo ht
  | destroyQueue =>
    obtain ⟨⟨ht, hqueue, hworker⟩, hs⟩ := Option.ite_none_right_eq_some.mp hs
    cases hs
    exact h.destroyQueue ht (by simp_all [State.pending])
  | shutdown =>
    obtain ⟨ht, hs⟩ := Option.ite_none_right_eq_some.mp hs
    cases hs
    exact h.shutdown ht

def Quit (s : Mount P) : Prop :=
  s.teardown = .returned → s.logger = .exited ∧ s.eWq ≠ .live ∧ s.logging.pending = []

theorem Kept.quit (h : s.Kept) : s.Quit := by
  intro ht
  have hqueue := h.destroyed (.inr ht)
  exact ⟨h.stopped (by simp [ht]) (by simp [ht]), hqueue, h.queued.resolve_left hqueue⟩

end Mount

theorem never_outside_lifetime_iff (P : PageSize) {labels : List (MountLabel P)}
    {c : Faulting (Mount P)} (h : run Mount.step (.running (.start P)) labels = some c) :
    (c.Runs ∧ c.Holds Mount.Quit) ↔
      Along (Faulting.Allows Mount.Proper) Mount.step (.running (.start P)) labels := by
  have hkept : c.Holds Mount.Kept :=
    Faulting.holds_of_run (fun _ _ _ hs hsafe hn => hs.next hsafe hn) (Mount.start_kept P) h
  have hquit : c.Holds Mount.Quit := by
    cases c with
    | running s => exact Mount.Kept.quit hkept
    | faulted s => trivial
  rw [and_iff_left hquit]
  exact Faulting.runs_iff_along (fun _ _ _ hs hsafe hn => hs.next hsafe hn)
    (fun _ _ hs ha => hs.safe_iff ha) (Mount.start_kept P) h

def mountSteps : List (MountLabel .small) :=
  [.devName true, .kernPath true, .allocSb true, .allocTrInfo true, .createQueue true,
    .runThread true, .openFile true, .makeRoot true]

def closeSteps : List (MountLabel .small) :=
  [.logging (.invoke 1), .logging (.build 1 (some plainClose)), .logging (.submit 1),
    .logging (.ret 1)]

def drainedUmount : List (MountLabel .small) :=
  mountSteps ++ closeSteps ++ [.logging .take, .enter, .logging .work, .round, .logging .tick,
    .killSb, .stopThread, .finalWrite, .closeFile, .freeTrInfo, .destroyQueue, .shutdown]

theorem never_outside_lifetime_iff_drainedUmount :
    ∃ c, run Mount.step (.running (.start .small)) drainedUmount = some c ∧
      ((c.Runs ∧ c.Holds Mount.Quit) ↔
        Along (Faulting.Allows Mount.Proper) Mount.step (.running (.start .small))
          drainedUmount) := by
  obtain ⟨c, hc⟩ : ∃ c, run Mount.step (.running (.start .small)) drainedUmount = some c :=
    Option.isSome_iff_exists.mp (by decide +kernel)
  exact ⟨c, hc, never_outside_lifetime_iff .small hc⟩

def noLowerDirectory : List (MountLabel .small) := [.devName true, .kernPath false]

def leftThroughOutSput : List (MountLabel .small) := mountSteps.dropLast ++ [.makeRoot false]

def queuedAtUmount : List (MountLabel .small) :=
  mountSteps ++ closeSteps ++ [.killSb, .stopThread, .finalWrite, .closeFile, .freeTrInfo]

def twoFindNoQueue : List (MountLabel .small) :=
  mountSteps.take 4 ++ [.createQueue false] ++ mountSteps.drop 5 ++
    [.logging (.invoke 1), .logging (.build 1 (some plainClose)), .logging (.invoke 2),
      .logging (.build 2 (some plainClose)), .missQueue 1, .missQueue 2, .makeQueue 1 true,
      .logging (.submit 1)]

def After (labels : List (MountLabel P)) (l : MountLabel P)
    (p : Mount P → MountLabel P → Prop) : Prop :=
  ∃ s, run Mount.step (.running (.start P)) labels = some (.running s) ∧ s.Attempts l ∧ p s l

theorem after_of_eq {labels : List (MountLabel P)} {l : MountLabel P}
    {p : Mount P → MountLabel P → Prop} [∀ s l, Decidable (p s l)]
    (h : (run Mount.step (.running (.start P)) labels).map (fun
      | .running s => decide (s.Attempts l ∧ p s l)
      | .faulted _ => false) = some true) : After labels l p := by
  obtain ⟨c, hc, heq⟩ := Option.map_eq_some_iff.mp h
  cases c with
  | running s => exact ⟨s, hc, of_decide_eq_true heq⟩
  | faulted s => cases heq

def Mount.Misuses (s : Mount P) (l : MountLabel P) : Prop := ∃ r ∈ s.uses l, s.presence r ≠ .live

instance (s : Mount P) (l : MountLabel P) : Decidable (s.Misuses l) :=
  inferInstanceAs (Decidable (∃ r ∈ _, _))

/-- In the first run the VFS calls `trfs_umount` all the same, and in the second the thread goes
on when `out_sput` has freed the private data. -/
theorem used_outside_lifetime :
    After noLowerDirectory .killSb Mount.Misuses ∧
      After leftThroughOutSput .round Mount.Misuses ∧
      After queuedAtUmount (.logging .take) Mount.Misuses ∧
      After twoFindNoQueue (.makeQueue 2 true) Mount.LosesQueue :=
  ⟨after_of_eq (by decide +kernel), after_of_eq (by decide +kernel),
    after_of_eq (by decide +kernel), after_of_eq (by decide +kernel)⟩

end TraceFS.Trfs
