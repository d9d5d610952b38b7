import TraceFS.Trfs.Unmount

namespace TraceFS.Trfs

open TraceFS.Lib TraceFS.Linux

variable {P : PageSize}

def Segment.record? : Segment → Option (Nat × Record)
  | .whole op r | .header op r => some (op, r)
  | .data _ _ => none

def Ledger.entries (l : Ledger) : List (Nat × Record) := l.log.filterMap Segment.record?

theorem Ledger.logged_eq_map (l : Ledger) : l.logged = l.entries.map Prod.fst := by
  rw [logged, entries, List.map_filterMap]
  congr 1
  funext g
  cases g <;> rfl

def Ledger.CountsUp (l : Ledger) : Prop :=
  l.entries.map (fun x => x.2.id.toNat) = List.range l.entries.length

structure State.Numbered (s : State P) : Prop where
  ids : s.ledger.entries.map (fun x => x.2.id) =
    (List.range s.ledger.entries.length).map (BitVec.ofNat 32)
  lastId : s.sb.lastId = BitVec.ofNat 32 s.ledger.entries.length

theorem logLocked_lastId {sb sb' : SbInfo P} {r : Record} (h : logLocked sb r .all = .ok sb') :
    sb'.lastId = if r.flushBufferSig = 1 then sb.lastId else sb.lastId + 1 := by
  unfold logLocked at h
  split at h <;> rename_i hsig
  · cases hsync : syncLogRecord sb.trInfo r .all <;> rw [hsync] at h <;> cases h
    rw [if_pos hsig]
  · cases hsync : syncLogRecord sb.trInfo (r.withId sb.lastId) .all <;> rw [hsync] at h <;> cases h
    rw [if_neg hsig]

theorem State.segment_record? (s : State P) (op : Nat) (r : Record) :
    (s.segment op r).record? = some (op, r.withId s.sb.lastId) := by
  unfold State.segment
  split <;> rfl

@[simp] theorem Ledger.flush_entries (l : Ledger) : l.flush.entries = l.entries := by
  rw [entries, flush_log, entries]

@[simp] theorem Ledger.write_data_entries (l : Ledger) (op : Nat) (buf : List Byte) :
    (l.write (.data op buf)).entries = l.entries := by
  rw [entries, write_log, List.filterMap_append]
  exact List.append_nil _

theorem State.ledgerAfter_entries (s : State P) (op : Nat) {r : Record}
    (hsig : r.flushBufferSig ≠ 1) :
    (s.ledgerAfter op r).entries = s.ledger.entries ++ [(op, r.withId s.sb.lastId)] := by
  rw [Ledger.entries, s.ledgerAfter_log op hsig, List.filterMap_append, ← Ledger.entries,
    List.filterMap_cons, s.segment_record?, List.filterMap_nil]

theorem Step.entries_eq {s s' : State P} {l : Label P} (hs : Step s l s') :
    s'.ledger.entries = s.ledger.entries ++ (s.emits l).filterMap Segment.record? := by
  rw [Ledger.entries, hs.log_eq, List.filterMap_append, ← Ledger.entries]

theorem Step.entries {s s' : State P} {l : Label P} (hs : Step s l s') :
    s'.ledger.entries = s.ledger.entries ∧ s'.sb.lastId = s.sb.lastId ∨
      ∃ op r, s'.ledger.entries = s.ledger.entries ++ [(op, r)] ∧ r.id = s.sb.lastId ∧
        s'.sb.lastId = s.sb.lastId + 1 := by
  rw [hs.entries_eq]
  cases hs with
  | writeLarge hm hp =>
    left
    simp only [State.emits, hp]
    exact ⟨List.append_nil _, rfl⟩
  | @logReaddir op job hr sb hm hp hlog =>
    right
    have hsig : job.record.flushBufferSig ≠ 1 := job.clear (by rw [hr]; decide)
    refine ⟨op, job.record.withId s.sb.lastId, ?_, rfl, ?_⟩
    · simp only [State.emits, hp, List.filterMap_cons, s.segment_record?, List.filterMap_nil]
    · exact (logLocked_lastId hlog).trans (if_neg hsig)
  | @work w sb hc hw hlog =>
    have hid := logLocked_lastId hlog
    by_cases hsig : w.job.record.flushBufferSig = 1
    · left
      rw [if_pos hsig] at hid
      simp only [State.emits, hw, if_pos hsig]
      exact ⟨List.append_nil _, hid⟩
    · right
      rw [if_neg hsig] at hid
      refine ⟨w.op, w.job.record.withId s.sb.lastId, ?_, rfl, hid⟩
      simp only [State.emits, hw, if_neg hsig, List.filterMap_cons, s.segment_record?,
        List.filterMap_nil]
  | tick hu hlog =>
    left
    exact ⟨List.append_nil _, (logLocked_lastId hlog).trans (if_pos rfl)⟩
  | checkReaddir hm hp hr =>
    left
    simp [State.emits, State.setPhase]
  | take hc hw hq =>
    left
    simp [State.emits]
  | _ => exact .inl ⟨List.append_nil _, rfl⟩

theorem Step.numbered {s s' : State P} {l : Label P} (hs : Step s l s') (h : s.Numbered) :
    s'.Numbered := by
  rcases hs.entries with ⟨hentries, hid⟩ | ⟨op, r, hentries, hrid, hid⟩
  · constructor
    · rw [hentries]
      exact h.ids
    · rw [hentries, hid]
      exact h.lastId
  · constructor
    · rw [hentries, List.map_append, List.length_append, h.ids]
      simp [List.range_succ, hrid, h.lastId]
    · rw [hentries, hid, h.lastId, List.length_append, List.length_singleton, BitVec.ofNat_add]
      rfl

theorem start_numbered (P : PageSize) : (State.start P).Numbered where
  ids := rfl
  lastId := rfl

theorem numbered_of_run {labels : List (Label P)} {s : State P}
    (h : run State.step (State.start P) labels = some s) : s.Numbered :=
  run_invariant State.Numbered (fun _ _ _ hs hstep => (Step.of_step hstep).numbered hs)
    (start_numbered P) h

def Ledger.NumberedAt (l : Ledger) (i op : Nat) : Prop :=
  ∃ r, l.entries[i]? = some (op, r) ∧ r.id = BitVec.ofNat 32 i

theorem State.Numbered.numberedAt {s : State P} (h : s.Numbered) {i op : Nat}
    (hi : s.ledger.logged[i]? = some op) : s.ledger.NumberedAt i op := by
  rw [s.ledger.logged_eq_map, List.getElem?_map] at hi
  obtain ⟨⟨op', r⟩, hr, rfl⟩ := Option.map_eq_some_iff.mp hi
  refine ⟨r, hr, ?_⟩
  have hid := congrArg (·[i]?) h.ids
  obtain ⟨hlt, -⟩ := List.getElem?_eq_some_iff.mp hr
  simp only [List.getElem?_map, hr, List.getElem?_range hlt, Option.map_some] at hid
  exact Option.some.inj hid

theorem map_toNat_range_iff (w n : Nat) :
    (List.range n).map (fun i => (BitVec.ofNat w i).toNat) = List.range n ↔ n ≤ 2 ^ w := by
  rw [List.map_eq_iff]
  constructor
  · intro h
    by_contra hn
    have hlt : 2 ^ w < n := by omega
    have hw := h (2 ^ w)
    simp [hlt] at hw
  · intro hn i
    by_cases hi : i < n
    · have hlt : i < 2 ^ w := by omega
      simp [hi, Nat.mod_eq_of_lt hlt]
    · simp [hi]

theorem State.Numbered.countsUp_iff {s : State P} (h : s.Numbered) :
    s.ledger.CountsUp ↔ s.ledger.logged.length ≤ 2 ^ 32 := by
  have hids := congrArg (List.map BitVec.toNat) h.ids
  simp only [List.map_map] at hids
  rw [Ledger.CountsUp, s.ledger.logged_eq_map, List.length_map, ← map_toNat_range_iff]
  exact Eq.congr_left hids

theorem ids_count_up_iff {labels : List (Label P)} {s : State P}
    (h : run State.step (State.start P) labels = some s) :
    s.sb.trInfo.stream = s.ledger.log.flatMap Segment.bytes ∧
      (s.ledger.CountsUp ↔ s.ledger.logged.length ≤ 2 ^ 32) :=
  ⟨(describes_of_run h).stream, (numbered_of_run h).countsUp_iff⟩

theorem ids_count_up_iff_closeThenReaddir :
    ∃ s, run State.step (State.start .small) closeThenReaddir = some s ∧
      s.ledger.logged = [1, 2] ∧
        s.sb.trInfo.stream = s.ledger.log.flatMap Segment.bytes ∧
          (s.ledger.CountsUp ↔ s.ledger.logged.length ≤ 2 ^ 32) := by
  have hrun : ((run State.step (State.start .small) closeThenReaddir).map fun s =>
      s.ledger.logged) = some [1, 2] := by decide +kernel
  obtain ⟨s, hs, hlogged⟩ := Option.map_eq_some_iff.mp hrun
  exact ⟨s, hs, hlogged, ids_count_up_iff hs⟩

def closes : Nat → List (Label .small)
  | 0 => []
  | n + 1 => closes n ++
    [.invoke n, .build n (some plainClose), .submit n, .ret n, .take, .work]

structure State.Idle (s : State .small) (n : Nat) : Prop where
  umount : s.umount = .mounted
  queue : s.queue = []
  worker : s.worker = none
  phase : ∀ op, n ≤ op → s.phase op = .idle
  bitmap : s.sb.trInfo.bitmap = 0xFFFFFFFF
  inBounds : s.sb.trInfo.InBounds
  logged : s.ledger.logged.length = n

theorem plainClose_built : plainClose.record.Built .small .close [] :=
  (closeRecord_sound (K := Kernel.inert) (T := .plenty) 2 0 ()).built fun _ => rfl

theorem plainClose_logs {sb : SbInfo .small} (h : sb.trInfo.InBounds) :
    ∃ sb', logLocked sb plainClose.record .all = .ok sb' := by
  have hbuilt := plainClose_built.withId sb.lastId
  rw [logLocked, if_neg plainClose_built.clear]
  rcases syncLogRecord_spec .all (r := plainClose.record.withId sb.lastId) plainClose_built.clear h
    hbuilt.fits with ⟨-, c, hc, hbad⟩ | ⟨t, err, hok, -⟩
  · exact absurd (hbuilt.readable c hc) hbad
  · exact ⟨_, by rw [hok]; rfl⟩

def State.closed (s : State .small) (n : Nat) (sb : SbInfo .small) : State .small :=
  { s with
    sb := sb
    eWq := true
    phase := Function.update s.phase n .returned
    returned := n :: s.returned
    before := Function.update s.before n s.returned
    submitted := n :: s.submitted
    ledger := s.ledgerAfter n plainClose.record }

theorem State.Idle.close_run {s : State .small} {n : Nat} {sb : SbInfo .small} (h : s.Idle n)
    (hlog : logLocked s.sb plainClose.record .all = .ok sb) :
    run State.step s [.invoke n, .build n (some plainClose), .submit n, .ret n, .take, .work] =
      some (s.closed n sb) := by
  have hbit : checkBit s.sb.trInfo.bitmap plainClose.record.type = true := by
    rw [h.bitmap]
    decide
  have hsmall : ¬ (plainClose.type = .readdir ∨ plainClose.record.Large .small) := by decide
  simp [run, State.step, State.clientStep, State.systemStep, h.umount, h.phase n le_rfl,
    State.setPhase, h.queue, h.worker, hsmall, State.noteBit, State.Passes, hbit, State.log, hlog,
    State.closed]
  rfl

theorem closes_run (n : Nat) :
    ∃ s, run State.step (State.start .small) (closes n) = some s ∧ s.Idle n := by
  induction n with
  | zero =>
    exact ⟨_, rfl, rfl, rfl, rfl, fun _ _ => rfl, rfl, (start_describes .small).inBounds, rfl⟩
  | succ n ih =>
    obtain ⟨s, hrun, h⟩ := ih
    obtain ⟨sb, hlog⟩ := plainClose_logs h.inBounds
    have hsig : plainClose.record.flushBufferSig ≠ 1 := plainClose_built.clear
    refine ⟨_, run_append_eq_some.mpr ⟨s, hrun, h.close_run hlog⟩, ?_⟩
    constructor
    · exact h.umount
    · exact h.queue
    · exact h.worker
    · intro op hop
      have hne : op ≠ n := by omega
      exact (Function.update_of_ne hne _ _).trans (h.phase op (by omega))
    · exact (logLocked_bitmap h.inBounds (fun _ => plainClose.sized) hlog).trans h.bitmap
    · exact (logLocked_appends hsig h.inBounds plainClose.sized hlog).1
    · rw [State.closed, s.ledgerAfter_logged n hsig, List.length_append, h.logged]
      rfl

theorem id_used_twice :
    ∃ s, run State.step (State.start .small) (closes (2 ^ 32 + 1)) = some s ∧
      ¬ s.ledger.CountsUp := by
  obtain ⟨s, hrun, h⟩ := closes_run (2 ^ 32 + 1)
  refine ⟨s, hrun, ?_⟩
  rw [(numbered_of_run hrun).countsUp_iff, h.logged]
  omega

end TraceFS.Trfs
