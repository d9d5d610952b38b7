import TraceFS.Treplay.Reissue
import TraceFS.Treplay.Whole
import TraceFS.Trfs.Filed

universe u

namespace TraceFS.Treplay

open TraceFS.Lib TraceFS.Linux
open TraceFS.Trfs (Call Entered Entry Exit Job Label PageSize PathAt State Submission Tracing entry)

variable {P : PageSize} {labels : List (Label P)} {s : State P}

def HandedOver (job : Job P) : Prop :=
  ∃ (σ : Type) (K : Kernel σ) (T : Tracing) (c : Call) (s : σ) (e : Exit σ) (sub : Submission),
    T.pathAlloc = true ∧ c.trfs K T P s = .ok e ∧ sub ∈ e.submitted ∧
      c.logType = job.type ∧ sub.record = job.record ∧ sub.buf = job.buf

theorem carries_submitted {σ : Type} {K : Kernel σ} {T : Tracing} {c : Call} {s : σ} {e : Exit σ}
    {sub : Submission} (hT : T.pathAlloc = true) (he : c.trfs K T P s = .ok e)
    (hsub : sub ∈ e.submitted) (i : BitVec 32) :
    (sub.record.withId i).Carries c.logType sub.buf := by
  have hcarries := carries_of_built ((c.submitted_sound he sub hsub).built fun _ => hT)
  exact ⟨hcarries.type_eq, hcarries.path_at, hcarries.newPath_at, hcarries.buf_length,
    hcarries.data_eq⟩

theorem HandedOver.carries {job : Job P} (h : HandedOver job) (i : BitVec 32) :
    (job.record.withId i).Carries job.type job.buf := by
  obtain ⟨σ, K, T, c, s, e, sub, hT, he, hsub, htype, hrecord, hbuf⟩ := h
  rw [← htype, ← hrecord, ← hbuf]
  exact carries_submitted hT he hsub i

abbrev BuiltIn (labels : List (Label P)) (op : Nat) (job : Job P) : Prop :=
  Label.build op (some job) ∈ labels

theorem builds_of_mem {l : Label P} (hl : l ∈ labels) : l.Builds (BuiltIn labels) := by
  rintro op job rfl
  exact hl

def IsOf (x : Entered P) (r : Record) : Prop := Agrees x.job.type x.record x.job.buf r

theorem entries_of_entered {xs : List (Entered P)} (hxs : ∀ x ∈ xs, HandedOver x.job) :
    ∃ es : List Entry, es.flatMap entry.enc = (xs.flatMap fun x => x.record.written x.job.buf) ∧
      ∀ r, List.Forall₂ IsOf xs (fillAll es r) := by
  obtain ⟨es, hes, hall⟩ := carries_entries (xs.map fun x => (x.record, x.job.buf)) (by
    intro y hy
    obtain ⟨x, hx, rfl⟩ := List.mem_map.mp hy
    exact ⟨x.job.type, (hxs x hx).carries x.id⟩)
  refine ⟨es, by rw [hes, List.flatMap_map], fun r => ?_⟩
  have hboth : List.Forall₂ _ xs (fillAll es r) :=
    (List.forall₂_and_left xs (fillAll es r)).mpr ⟨hxs, List.forall₂_map_left_iff.mp (hall r)⟩
  refine hboth.imp ?_
  rintro x r' ⟨hx, ty, hty, hagrees⟩
  have htype : (x.record, x.job.buf).1.type = x.job.type.toByte := (hx.carries x.id).type_eq
  rw [htype, Trfs.LogType.ofByte_toByte] at hty
  cases hty
  exact hagrees

theorem torn_entry {job : Job P} (h : HandedOver job) (hl : job.record.Large P) (i : BitVec 32) :
    ∃ e : Entry, entry.enc e = (job.record.withId i).emitted ++ job.buf ∧ job.buf ≠ [] := by
  have hcarries := h.carries i
  have hheader : (job.record.withId i).HeaderOnly := (Trfs.Job.headerOnly_iff job).mpr hl
  obtain ⟨p, hp, -⟩ := carries_payload hcarries
  refine ⟨entryOf (job.record.withId i) job.type p, ?_, ?_⟩
  · rw [entryOf_enc hcarries.type_eq, ← hp, Trfs.Record.written, if_pos hheader]
  · intro hempty
    have hd := hl.hasData job.sized
    have hlen := job.bufLength hd
    have hsize := job.sized.recordSize_toNat
    have hcap := hl.2
    have hleast := P.capacity_ge
    have hsum : job.record.sizeAs job.type = 25 + job.record.dataLength.toNat := by
      cases hty : job.type <;> rw [hty] at hd <;>
        simp_all [Trfs.LogType.HasData, Trfs.Record.sizeAs, sizeof]
    rw [hempty, List.length_nil] at hlen
    omega

def Decodes (labels : List (Label P)) (s : State P) (r : Record) : Prop :=
  ∃ xs : List (Entered P), (∀ x ∈ xs, BuiltIn labels x.op x.job) ∧
    s.ledger.filedOps = xs.map Entered.op ∧
    ∃ fuel rs, decodeLoop .int s.sb.trInfo.filp fuel r Cursor.int.start =
        .ok (rs, BitVec.ofNat 32 s.sb.trInfo.filp.length) ∧ List.Forall₂ IsOf xs rs

theorem snapshot_decodes_iff
    (hrun : run State.step (State.start P) labels = some s)
    (hkeeps : Along State.KeepsWhole State.step (State.start P) labels)
    (hintact : Along State.Intact State.step (State.start P) labels)
    (hjobs : ∀ op job, BuiltIn labels op job → HandedOver job)
    (hshort : s.sb.trInfo.filp.length < 2 ^ 31) (r : Record) :
    (DecodesSafely s.sb.trInfo.filp r ↔ ¬ s.Torn) ∧ (¬ s.Torn → Decodes labels s r) := by
  obtain ⟨xs, hxs, hfile⟩ := Trfs.filed_of_run hrun hkeeps hintact fun l => builds_of_mem
  obtain ⟨es, hes, hall⟩ := entries_of_entered fun x hx => hjobs _ _ (hxs x hx)
  rw [← hes] at hfile
  rcases hfile with ⟨hwhole, hfilp, hops⟩ | ⟨htorn, op, job, i, hjob, hl, hfilp⟩
  · refine ⟨iff_of_true ?_ hwhole,
      fun _ => ⟨xs, hxs, hops, es.length + 1, fillAll es r, ?_, hall r⟩⟩
    · exact (decode_safe_iff_of_short hshort r).mpr ⟨es, hfilp⟩
    · have hlaid : Laid s.sb.trInfo.filp Cursor.int.start es :=
        (laid_iff_of_short hshort (Nat.zero_le _) es).mpr (by rw [List.drop_zero, hfilp])
      have hplace := placeAfter_ofNat 0 es
      rw [Nat.zero_add, ← hfilp] at hplace
      rw [decodeLoop_of_laid hlaid, if_pos (Nat.lt_succ_self _)]
      exact congrArg (fun i => Except.ok (fillAll es r, i)) hplace
  · refine ⟨iff_of_false ?_ (not_not_intro htorn), fun h => absurd htorn h⟩
    rw [decode_safe_iff_of_short hshort]
    rintro ⟨es', hes'⟩
    obtain ⟨e, he, hbuf⟩ := torn_entry (hjobs op job hjob) hl i
    refine entry.torn_ne he ?_ hbuf es es' (hfilp ▸ hes')
    intro hnone
    have hlong := (job.record.withId i).emitted_length
    rw [hnone, List.length_nil] at hlong
    omega

def readingWhole : Kernel Unit := { Kernel.inert with vfsRead := fun _ _ _ _ s => (8192, s) }

theorem largeRead_handedOver : HandedOver Trfs.largeRead :=
  ⟨Unit, readingWhole, .plenty, .read 3 4 8192 0, (), _, _, rfl, rfl, List.mem_singleton_self _,
    rfl, rfl, rfl⟩

def headerFlushed : List (Label .small) :=
  [.invoke 1, .build 1 (some Trfs.largeRead), .checkLarge 1, .submitLarge 1, .take, .work, .tick]

theorem largeRead_only {labels : List (Label .small)}
    (h : ∀ l ∈ labels, ∀ op job, l = .build op (some job) → job = Trfs.largeRead) :
    ∀ op job, BuiltIn labels op job → HandedOver job := by
  intro op job hmem
  rw [h _ hmem op job rfl]
  exact largeRead_handedOver

theorem largeRead_intact {labels : List (Label .small)} {s : State .small}
    (hrun : run State.step (State.start .small) labels = some s)
    (h : ∀ l ∈ labels, ∀ op job, l = .build op (some job) → job = Trfs.largeRead)
    (hfound : ∀ l ∈ labels, ∀ op found, l = .writeLarge op found → found = Trfs.largeReadFound) :
    Along State.Intact State.step (State.start .small) labels := by
  refine Trfs.intact_of_found hrun (fun l => builds_of_mem) fun op found hl job hjob => ?_
  rw [h _ hjob op job rfl, hfound _ hl op found rfl]
  rfl

theorem snapshot_decodes_iff_headerFlushed :
    ∃ s, run State.step (State.start .small) headerFlushed = some s ∧
      (DecodesSafely s.sb.trInfo.filp .blank ↔ ¬ s.Torn) ∧
        (¬ s.Torn → Decodes headerFlushed s .blank) := by
  have hrun : ((run State.step (State.start .small) headerFlushed).map fun s =>
      (s.sb.trInfo.filp.length, (run Trfs.Parsed.absorb .empty s.ledger.log).isSome)) =
        some (25, true) := by decide +kernel
  obtain ⟨s, hs, heq⟩ := Option.map_eq_some_iff.mp hrun
  obtain ⟨hlength, hparsed⟩ := Prod.mk.inj heq
  obtain ⟨t, ht⟩ := Option.isSome_iff_exists.mp hparsed
  have hreads : ∀ l ∈ headerFlushed, ∀ op job, l = .build op (some job) → job = Trfs.largeRead := by
    simp [headerFlushed]
  have hintact := largeRead_intact hs hreads (by simp [headerFlushed])
  exact ⟨s, hs, snapshot_decodes_iff hs (Trfs.keepsWhole_of_parsed hs ht) hintact
    (largeRead_only hreads) (by omega) .blank⟩

theorem cstr_length_le (bs : List Byte) : (cstr (bs ++ [0])).length ≤ bs.length := by
  induction bs with
  | nil => exact Nat.le_refl 0
  | cons b bs ih =>
    unfold cstr at ih ⊢
    rw [List.cons_append, List.takeWhile_cons]
    split
    · exact Nat.succ_le_succ ih
    · exact Nat.zero_le _

theorem fits_of_isOf {x : Entered P} {r : Record} (hx : HandedOver x.job) (h : IsOf x r)
    {cwd : List Byte} (hcwd : (cstr cwd).length ≤ 3072) : r.Fits cwd := by
  have hcarries := hx.carries x.id
  have hsized := x.job.sized
  have hbehind : ∀ {p : Option (List Byte)} {n : BitVec 16}, PathAt p n → n.toNat < 1024 →
      FitsBehind cwd (p.map (· ++ [0])) := by
    rintro _ n ⟨bs, rfl, hn⟩ hlt
    have hle := cstr_length_le bs
    exact ⟨bs ++ [0], rfl, by omega⟩
  have hpath : x.job.type.HasPath → FitsBehind cwd r.path := fun hp =>
    h.path hp ▸ hbehind (hcarries.path_at hp) (hsized.path_lt hp)
  have hnew : x.job.type.HasNewPath → FitsBehind cwd r.newPath := fun hp =>
    h.newPath hp ▸ hbehind (hcarries.newPath_at hp) (hsized.newPath_lt hp)
  have htype := Agrees.ofByte_type h hcarries.type_eq
  unfold Record.Fits
  rw [htype]
  cases hty : x.job.type with
  | readdir | read | write | close => trivial
  | open_ | mkdir | unlink | rmdir => exact hpath (by rw [hty]; trivial)
  | link | rename => exact ⟨hpath (by rw [hty]; trivial), hnew (by rw [hty]; trivial)⟩

/-- Unmounted after the queue was drained, a trace that was kept whole is replayed from end to
end: one record for each operation whose bit was set, in the order of the trace file, with what
the operation has handed over. -/
theorem traced_run_replayed {σ : Type u} (S : Os σ)
    (hrun : run State.step (State.start P) labels = some s) (hclosed : s.umount = .closed)
    (hkeeps : Along State.KeepsWhole State.step (State.start P) labels)
    (hdrained : Along State.Drained State.step (State.start P) labels)
    (hintact : Along State.Intact State.step (State.start P) labels)
    (hjobs : ∀ op job, BuiltIn labels op job → HandedOver job)
    (hpos : 0 < s.sb.trInfo.filp.length) (hshort : s.sb.trInfo.filp.length < 2 ^ 31)
    {cwd : List Byte} (hcwd : (cstr cwd).length ≤ 3072) (r : Record) (os : σ) :
    ∃ (xs : List (Entered P)) (fuel : Nat) (replay : Run),
      (∀ x ∈ xs, BuiltIn labels x.op x.job) ∧
      s.ledger.filedOps = xs.map Entered.op ∧ (xs.map Entered.op).Nodup ∧
      (∀ op ∈ s.submitted, s.Traced op → op ∈ xs.map Entered.op) ∧
      main S cwd [] 1 (.whole s.sb.trInfo.filp) fuel r os = .left replay ∧
      replay.ending = .finished ∧
      ∃ rs, List.Forall₂ IsOf xs rs ∧ Replays S cwd [] os rs replay.rounds := by
  have hacc : s.Accounted := run_invariant_along State.Accounted State.Drained
    (fun s l s' hs hd hstep => (Trfs.Step.of_step hstep).accounted hs hd) (Trfs.start_accounted P)
    hdrained hrun
  have hwhole : ¬ s.Torn := by
    rintro ⟨-, op, job, haw⟩
    exact hacc.not_awaits hclosed haw
  obtain ⟨xs, hxs, hfile⟩ := Trfs.filed_of_run hrun hkeeps hintact fun l => builds_of_mem
  obtain ⟨-, hfilp, hops⟩ := hfile.resolve_right fun h => hwhole h.1
  obtain ⟨es, hes, hall⟩ := entries_of_entered fun x hx => hjobs _ _ (hxs x hx)
  rw [← hes] at hfilp
  have hlaid : Laid s.sb.trInfo.filp Cursor.int.start es :=
    (laid_iff_of_short hshort (Nat.zero_le _) es).mpr (by rw [List.drop_zero, hfilp])
  have hfits : ∀ r' ∈ fillAll es r, r'.Fits cwd := by
    have hboth := (List.forall₂_and_left xs (fillAll es r)).mpr
      ⟨fun x hx => hjobs _ _ (hxs x hx), hall r⟩
    have hfit : List.Forall₂ (fun r' x => r'.Fits cwd ∧ IsOf x r') (fillAll es r) xs :=
      (hboth.imp fun x r' h => ⟨fits_of_isOf h.1 h.2 hcwd, h.2⟩).flip
    exact ((List.forall₂_and_left _ xs).mp hfit).1
  obtain ⟨rounds, hreplays⟩ := exists_replays S cwd [] os (fillAll es r) hfits
  refine ⟨xs, es.length + 1, ⟨rounds, .finished, placeAfter Cursor.int.start es⟩, hxs, hops, ?_, ?_,
    ?_, rfl, fillAll es r, hall r, hreplays⟩
  · rw [← hops]
    exact hacc.filedOps_nodup
  · intro op hsub htraced
    rw [← hops]
    exact hacc.filed hclosed hsub htraced
  · rw [main_whole, if_neg (by omega), hreplays.mainLoop _ hlaid _ (Nat.lt_succ_self _)]

def readThenUmount : List (Label .small) :=
  Trfs.readAlone ++ [.umount, .stop, .finalWrite, .close]

theorem traced_run_replayed_readThenUmount :
    ∃ s, run State.step (State.start .small) readThenUmount = some s ∧
    ∃ (xs : List (Entered .small)) (fuel : Nat) (replay : Run),
      (∀ x ∈ xs, BuiltIn readThenUmount x.op x.job) ∧
      s.ledger.filedOps = xs.map Entered.op ∧ (xs.map Entered.op).Nodup ∧
      (∀ op ∈ s.submitted, s.Traced op → op ∈ xs.map Entered.op) ∧
      main quietOs [] [] 1 (.whole s.sb.trInfo.filp) fuel .blank () = .left replay ∧
      replay.ending = .finished ∧
      ∃ rs, List.Forall₂ IsOf xs rs ∧ Replays quietOs [] [] () rs replay.rounds := by
  have hrun : ((run State.step (State.start .small) readThenUmount).map fun s =>
      (s.umount, s.sb.trInfo.filp.length, (run Trfs.Parsed.absorb .empty s.ledger.log).isSome)) =
        some (.closed, 8217, true) := by decide +kernel
  obtain ⟨s, hs, heq⟩ := Option.map_eq_some_iff.mp hrun
  obtain ⟨hclosed, hlength, hparsed⟩ : s.umount = .closed ∧ s.sb.trInfo.filp.length = 8217 ∧
    (run Trfs.Parsed.absorb .empty s.ledger.log).isSome = true := by simpa using heq
  obtain ⟨t, ht⟩ := Option.isSome_iff_exists.mp hparsed
  have hreads : ∀ l ∈ readThenUmount, ∀ op job, l = .build op (some job) →
      job = Trfs.largeRead := by
    simp [readThenUmount, Trfs.readAlone]
  have hintact := largeRead_intact hs hreads (by simp [readThenUmount, Trfs.readAlone])
  exact ⟨s, hs, traced_run_replayed quietOs hs hclosed (Trfs.keepsWhole_of_parsed hs ht)
    (by decide +kernel) hintact (largeRead_only hreads) (by omega) (by omega) (Nat.zero_le _)
    .blank ()⟩

end TraceFS.Treplay
