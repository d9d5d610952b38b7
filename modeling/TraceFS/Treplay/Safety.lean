import TraceFS.Linux.Conversions
import TraceFS.Treplay.Cursor
import TraceFS.Treplay.Decode

universe v

namespace TraceFS.Treplay

open TraceFS.Lib TraceFS.Linux
open TraceFS.Trfs (Header Payload Entry counted header payload entry header_enc_length)

variable {content : List Byte}

/-- From `i` on, what starts at these distances starts where an `int` can still point to. -/
def Below (starts : List Nat) (i : Nat) : Prop := ∀ k ∈ starts, i + k < 2 ^ 31

instance (starts : List Nat) (i : Nat) : Decidable (Below starts i) :=
  inferInstanceAs (Decidable (∀ k ∈ starts, i + k < 2 ^ 31))

theorem below_nil (i : Nat) : Below [] i := fun _ hk => absurd hk List.not_mem_nil

theorem below_append_iff {s t : List Nat} {n i : Nat} :
    Below (s ++ t.map (n + ·)) i ↔ Below s i ∧ Below t (i + n) := by
  unfold Below
  rw [List.forall_mem_append]
  refine and_congr_right fun _ => ?_
  rw [List.forall_mem_map]
  simp only [Nat.add_assoc]

/-- The distances at which the pieces of a payload start. Each is read with one `memcpy`, which has
to be given a place in the file even for no bytes. -/
def payloadStarts : (ty : Option Trfs.LogType) → Payload ty → List Nat
  | some .readdir, _ | some .unlink, _ | some .rmdir, _ => [0, 2]
  | some .open_, p => [0, 2, 2 + p.1.2.val.length, 2 + p.1.2.val.length + 4]
  | some .read, _ | some .write, _ => [0, 8]
  | some .close, _ | none, _ => []
  | some .mkdir, p => [0, 2, 2 + p.1.2.val.length]
  | some .link, p | some .rename, p => [0, 2, 2 + p.1.2.val.length, 2 + p.1.2.val.length + 2]

def entryStarts (e : Entry) : List Nat :=
  [0, 4, 5, 9] ++ (payloadStarts (Trfs.LogType.ofByte e.1.2.1) e.2).map (17 + ·)

def FillsInt (content : List Byte) (m : Record → StateT CInt Option Record) (c : Codec α)
    (set : α → Record → Record) (starts : α → List Nat) : Prop :=
  ∀ r i, i ≤ content.length → i < 2 ^ 32 → m r (BitVec.ofNat 32 i) =
    (c.dec (content.drop i)).bind fun p =>
      if Below (starts p.1) i then
        some (set p.1 r, BitVec.ofNat 32 (content.length - p.2.length))
      else none

theorem memcpy_int {n i : Nat} (hi : i ≤ content.length) (hi' : i < 2 ^ 32) :
    memcpy .int content n (BitVec.ofNat 32 i) =
      if i < 2 ^ 31 then
        (Codec.takeExact n (content.drop i)).map fun p =>
          (p.1, BitVec.ofNat 32 (content.length - p.2.length))
      else none := by
  split
  case isTrue hlt =>
    rw [Cursor.int_counts.memcpy (by omega : i ≤ 2 ^ 31 - 1), memcpy_unbounded hi, Option.map_map]
    rfl
  case isFalse hge =>
    have hneg : (BitVec.ofNat 32 i).toInt < 0 := by
      rw [BitVec.toInt_eq_toNat_cond, BitVec.toNat_ofNat]
      omega
    refine if_neg ?_
    rintro ⟨hindex, -⟩
    change 0 ≤ (BitVec.ofNat 32 i).toInt at hindex
    omega

theorem FillsInt.word (w : Nat) (hw : 8 ∣ w) (set : BitVec w → Record → Record) :
    FillsInt content (readWord .int content w set) (Codec.word w hw) set fun _ => [0] := by
  intro r i hi hi'
  have hbelow : Below [0] i ↔ i < 2 ^ 31 := by simp [Below]
  simp only [readWord, bind, StateT.bind, memcpy_int hi hi', Codec.word, hbelow]
  cases Codec.takeExact (w / 8) (content.drop i) <;> split <;> rfl

theorem FillsInt.compose {β : α → Type v} {m n : Record → StateT CInt Option Record} {c : Codec α}
    {d : (a : α) → Codec (β a)} {f : α → Record → Record} {g : (a : α) → β a → Record → Record}
    {s : α → List Nat} {t : (a : α) → β a → List Nat} (pair : (a : α) → β a → γ) {e : Codec γ}
    (he : ∀ bs, e.dec bs =
      (c.dec bs).bind fun p => ((d p.1).dec p.2).map fun q => (pair p.1 q.1, q.2))
    {set : γ → Record → Record} (hset : ∀ a b r, set (pair a b) r = g a b (f a r))
    {starts : γ → List Nat}
    (hstarts : ∀ a b, starts (pair a b) = s a ++ (t a b).map ((c.enc a).length + ·))
    (hm : FillsInt content m c f s)
    (hshort : ∀ a i, Below (s a) i → i + (c.enc a).length < 2 ^ 32)
    (hn : ∀ a r i, i ≤ content.length → i < 2 ^ 32 → n (f a r) (BitVec.ofNat 32 i) =
      ((d a).dec (content.drop i)).bind fun p =>
        if Below (t a p.1) i then
          some (g a p.1 (f a r), BitVec.ofNat 32 (content.length - p.2.length))
        else none) :
    FillsInt content (fun r => do let r ← m r; n r) e set starts := by
  intro r i hi hi'
  simp only [bind, StateT.bind, hm r i hi hi', he]
  cases hc : c.dec (content.drop i) with
  | none => rfl
  | some p =>
    obtain ⟨a, rest⟩ := p
    obtain ⟨hrest, hpos, hadv⟩ := c.drop_rest hc hi
    simp only [Option.bind_some]
    by_cases hs : Below (s a) i
    · have hlt := hshort a i hs
      rw [if_pos hs, Option.bind_some, hn _ _ _ hpos (by omega), hrest, hadv]
      cases (d a).dec rest with
      | none => rfl
      | some q =>
        simp only [Option.bind_some, Option.map_some, hset, hstarts, below_append_iff, hs,
          true_and]
    · rw [if_neg hs]
      cases (d a).dec rest with
      | none => rfl
      | some q =>
        simp only [Option.bind_none, Option.bind_some, Option.map_some, hstarts,
          below_append_iff, hs, false_and, if_false]

theorem FillsInt.sigma {β : α → Type} {m n : Record → StateT CInt Option Record} {c : Codec α}
    {d : (a : α) → Codec (β a)} {f : α → Record → Record} {g : (a : α) → β a → Record → Record}
    {s : α → List Nat} {t : (a : α) → β a → List Nat} (hm : FillsInt content m c f s)
    (hshort : ∀ a i, Below (s a) i → i + (c.enc a).length < 2 ^ 32)
    (hn : ∀ a r i, i ≤ content.length → i < 2 ^ 32 → n (f a r) (BitVec.ofNat 32 i) =
      ((d a).dec (content.drop i)).bind fun p =>
        if Below (t a p.1) i then
          some (g a p.1 (f a r), BitVec.ofNat 32 (content.length - p.2.length))
        else none) :
    FillsInt content (fun r => do let r ← m r; n r) (c.sigma d) (fun p r => g p.1 p.2 (f p.1 r))
      fun p => s p.1 ++ (t p.1 p.2).map ((c.enc p.1).length + ·) :=
  .compose (f := f) (g := g) Sigma.mk (fun _ => rfl) (fun _ _ _ => rfl) (fun _ _ => rfl) hm hshort hn

theorem FillsInt.seq {m n : Record → StateT CInt Option Record} {c : Codec α} {d : Codec β}
    {f : α → Record → Record} {g : β → Record → Record} {s : α → List Nat} {t : β → List Nat}
    (hm : FillsInt content m c f s)
    (hshort : ∀ a i, Below (s a) i → i + (c.enc a).length < 2 ^ 32)
    (hn : FillsInt content n d g t) :
    FillsInt content (fun r => do let r ← m r; n r) (c.prod d) (fun p r => g p.2 (f p.1 r))
      fun p => s p.1 ++ (t p.2).map ((c.enc p.1).length + ·) :=
  .compose (d := fun _ => d) (f := f) (g := fun _ => g) (t := fun _ => t) Prod.mk (fun _ => rfl)
    (fun _ _ _ => rfl) (fun _ _ => rfl) hm hshort fun a r => hn (f a r)

theorem FillsInt.skip : FillsInt content (fun r => pure r) Codec.unit (fun _ r => r)
    fun _ => [] := by
  intro r i hi hi'
  have hpos : content.length - (content.length - i) = i := by omega
  change some (r, BitVec.ofNat 32 i) = if Below [] i then
    some (r, BitVec.ofNat 32 (content.length - (content.drop i).length)) else none
  rw [if_pos (below_nil i), List.length_drop, hpos]

theorem FillsInt.congr {m : Record → StateT CInt Option Record} {c : Codec α}
    {set : α → Record → Record} {s t : α → List Nat} (h : FillsInt content m c set s)
    (hst : ∀ a i, Below (s a) i ↔ Below (t a) i) : FillsInt content m c set t := by
  intro r i hi hi'
  simp only [h r i hi hi', hst]

theorem FillsInt.counted (w : Nat) (hw : 8 ∣ w) (hw' : w ≤ 64) (set : BitVec w → Record → Record)
    (len : Record → BitVec w) (hlen : ∀ x r, len (set x r) = x)
    (store : List Byte → Record → Record) :
    FillsInt content
      (fun r => do
        let r ← readWord .int content w set r
        let bytes ← memcpy .int content (len r).toNat
        return store bytes r)
      (Trfs.counted w hw) (fun p r => store p.2.val (set p.1 r)) fun _ => [0, w / 8] := by
  have hraw := FillsInt.sigma (d := fun x => Codec.raw x.toNat)
    (n := fun r => do
      let bytes ← memcpy .int content (len r).toNat
      return store bytes r)
    (g := fun x (bs : {bs : List Byte // bs.length = x.toNat}) r => store bs.val r)
    (t := fun _ _ => [0]) (@FillsInt.word content w hw set) ?_ ?_
  · refine hraw.congr fun p i => ?_
    simp [Below, le_length]
  · intro a i ha
    have hi := ha 0 (List.mem_singleton_self 0)
    rw [Codec.word_enc, le_length]
    omega
  · intro x r i hi hi'
    have hbelow : Below [0] i ↔ i < 2 ^ 31 := by simp [Below]
    simp only [bind, StateT.bind, memcpy_int hi hi', hlen, Codec.raw, Codec.takeExact, hbelow]
    by_cases hlt : i < 2 ^ 31
    · simp only [hlt, if_true]
      split <;> rfl
    · simp only [hlt, if_false]
      split <;> rfl

theorem readPath_fillsInt : FillsInt content (readPath .int content) (counted 16 (by decide))
    (fun p r => { r with pathLength := p.1, path := some (p.2.val ++ [0]) }) fun _ => [0, 2] :=
  FillsInt.counted 16 _ (by decide) _ Record.pathLength (fun _ _ => rfl) fun bs r =>
    { r with path := some (bs ++ [0]) }

theorem readNewPath_fillsInt : FillsInt content (readNewPath .int content)
    (counted 16 (by decide))
    (fun p r => { r with newPathLength := p.1, newPath := some (p.2.val ++ [0]) })
    fun _ => [0, 2] :=
  FillsInt.counted 16 _ (by decide) _ Record.newPathLength (fun _ _ => rfl) fun bs r =>
    { r with newPath := some (bs ++ [0]) }

theorem readData_fillsInt : FillsInt content (readData .int content) (counted 64 (by decide))
    (fun p r => { r with dataLength := p.1, data := some (p.2.val ++ [0]) }) fun _ => [0, 8] :=
  FillsInt.counted 64 _ (by decide) _ Record.dataLength (fun _ _ => rfl) fun bs r =>
    { r with data := some (bs ++ [0]) }

theorem word_short (w : Nat) (hw : 8 ∣ w) (hw' : w ≤ 64) (x : BitVec w) (i : Nat)
    (h : Below [0] i) : i + ((Codec.word w hw).enc x).length < 2 ^ 32 := by
  have hi := h 0 (List.mem_singleton_self 0)
  rw [Codec.word_enc, le_length]
  omega

theorem counted_enc_length (p : Trfs.Counted 16) :
    ((counted 16 (by decide)).enc p).length = 2 + p.2.val.length := by
  simp [counted, le_length]

theorem path_short (p : Trfs.Counted 16) (i : Nat) (h : Below [0, 2] i) :
    i + ((counted 16 (by decide)).enc p).length < 2 ^ 32 := by
  have hi := h 0 List.mem_cons_self
  have hlen := p.2.property
  have hlt := p.1.isLt
  rw [counted_enc_length]
  omega

theorem readCommon_fillsInt :
    FillsInt content (readCommon .int content) header fillCommon fun _ => [0, 4, 5, 9] := by
  have hcommon := FillsInt.seq (@FillsInt.word content 32 (by decide) fun x r =>
      { r with id := x }) (word_short 32 _ (by decide))
    (FillsInt.seq (FillsInt.word 8 (by decide) fun x r => { r with type := x })
      (word_short 8 _ (by decide))
      (FillsInt.seq (FillsInt.word 32 (by decide) fun x r => { r with returnValue := x })
        (word_short 32 _ (by decide))
        (FillsInt.word 64 (by decide) fun x r => { r with fileAddress := x })))
  have hstarts := hcommon.congr (t := fun _ => [0, 4, 5, 9]) fun p i => by simp [Below, le_length]
  intro r
  exact hstarts { r with path := none, data := none }

theorem readFields_fillsInt (ty : Option Trfs.LogType) :
    FillsInt content
      (fun r => (ty.map LogType.ofKernel).elim (pure r) (readFields .int content r))
      (payload ty) (fillFields ty) (payloadStarts ty) := by
  have hmode : FillsInt content (readPermMode .int content) (Codec.word 32 (by decide))
      (fun x r => { r with permMode := x }) fun _ => [0] := FillsInt.word 32 _ _
  have hflags : FillsInt content (readOpenFlags .int content) (Codec.word 32 (by decide))
      (fun x r => { r with openFlags := x }) fun _ => [0] := FillsInt.word 32 _ _
  cases ty with
  | none => exact FillsInt.skip
  | some ty =>
    cases ty with
    | readdir | unlink | rmdir => exact readPath_fillsInt
    | open_ =>
      refine (readPath_fillsInt.seq path_short
        (hflags.seq (word_short 32 _ (by decide)) hmode)).congr fun p i => ?_
      rw [counted_enc_length]
      simp [Below, payloadStarts, le_length]
    | read | write => exact readData_fillsInt
    | close => exact FillsInt.skip
    | mkdir =>
      refine (readPath_fillsInt.seq path_short hmode).congr fun p i => ?_
      rw [counted_enc_length]
      simp [Below, payloadStarts]
    | link | rename =>
      refine (readPath_fillsInt.seq path_short readNewPath_fillsInt).congr fun p i => ?_
      rw [counted_enc_length]
      simp [Below, payloadStarts]

theorem readRecord_fillsInt :
    FillsInt content (readRecord .int content) entry fill entryStarts := by
  have hrecord := FillsInt.sigma (m := readCommon .int content)
    (n := fun r => (LogType.ofByte r.type).elim (pure r) (readFields .int content r))
    (d := fun h : Header => payload (Trfs.LogType.ofByte h.2.1))
    (g := fun h => fillFields (Trfs.LogType.ofByte h.2.1))
    (t := fun h => payloadStarts (Trfs.LogType.ofByte h.2.1)) readCommon_fillsInt ?_ ?_
  · intro r i hi hi'
    rw [readRecord_eq_elim]
    refine (hrecord r i hi hi').trans ?_
    simp only [header_enc_length]
    rfl
  · intro h i hbelow
    have hi := hbelow 0 List.mem_cons_self
    rw [header_enc_length]
    omega
  · intro h r i hi hi'
    have hty : (fillCommon h r).type = h.2.1 := rfl
    simp only [hty, LogType.ofByte_eq]
    exact readFields_fillsInt _ (fillCommon h r) i hi hi'

/-- The entries lie in the file one behind the other from the place that `offset` stands for, each
with all of its pieces, up to a place at which the loop ends. -/
def Laid (content : List Byte) : CInt → List Entry → Prop
  | offset, [] => Cursor.int.below offset content.length = false
  | offset, e :: es =>
    Cursor.int.below offset content.length = true ∧
      entry.enc e <+: content.drop offset.toNat ∧ Below (entryStarts e) offset.toNat ∧
        Laid content (Cursor.int.advance offset (entry.enc e).length) es

def placeAfter : CInt → List Entry → CInt
  | offset, [] => offset
  | offset, e :: es => placeAfter (Cursor.int.advance offset (entry.enc e).length) es

theorem toNat_le_of_below {offset : CInt} {n : Nat} (h : Cursor.int.below offset n = true) :
    offset.toNat ≤ n := by
  have hlt : (offset.signExtend 64).toNat < n := of_decide_eq_true h
  have hle : offset.toNat ≤ (offset.signExtend 64).toNat := by
    have hoffset := offset.isLt
    rw [BitVec.toNat_signExtend, BitVec.toNat_setWidth]
    omega
  omega

theorem readRecord_int (r : Record) {offset : CInt}
    (h : Cursor.int.below offset content.length = true) :
    readRecord .int content r offset =
      (entry.dec (content.drop offset.toNat)).bind fun p =>
        if Below (entryStarts p.1) offset.toNat then
          some (fill p.1 r, Cursor.int.advance offset (entry.enc p.1).length)
        else none := by
  have hle := toNat_le_of_below h
  have hread := readRecord_fillsInt r offset.toNat hle offset.isLt
  rw [BitVec.ofNat_toNat, BitVec.setWidth_eq] at hread
  rw [hread]
  cases hdec : entry.dec (content.drop offset.toNat) with
  | none => rfl
  | some p =>
    obtain ⟨-, -, hadv⟩ := entry.drop_rest hdec hle
    rw [Option.bind_some, Option.bind_some, hadv, BitVec.ofNat_add, BitVec.ofNat_toNat,
      BitVec.setWidth_eq]
    rfl

theorem dec_of_prefix {e : Entry} {bs : List Byte} (h : entry.enc e <+: bs) :
    ∃ rest, entry.dec bs = some (e, rest) := by
  obtain ⟨rest, rfl⟩ := h
  exact ⟨rest, entry.dec_enc e rest⟩

theorem decodeLoop_of_laid {offset : CInt} {es : List Entry} (h : Laid content offset es)
    (fuel : Nat) (r : Record) :
    decodeLoop .int content fuel r offset =
      if es.length < fuel then .ok (fillAll es r, placeAfter offset es)
      else .error .outOfFuel := by
  induction es generalizing fuel r offset with
  | nil =>
    cases fuel with
    | zero => rfl
    | succ fuel =>
      have hbelow : Cursor.int.below offset content.length = false := h
      simp [decodeLoop, hbelow, fillAll, placeAfter]
  | cons e es ih =>
    cases fuel with
    | zero => rfl
    | succ fuel =>
      obtain ⟨hbelow, hpre, hstarts, hrest⟩ := h
      obtain ⟨rest, hdec⟩ := dec_of_prefix hpre
      rw [decodeLoop, if_pos hbelow, readRecord_int r hbelow, hdec, Option.bind_some,
        if_pos hstarts]
      dsimp only
      rw [ih hrest]
      by_cases hfuel : es.length < fuel
      · rw [if_pos hfuel, if_pos (by simpa using hfuel)]
        rfl
      · rw [if_neg hfuel, if_neg (by simpa using hfuel)]
        rfl

theorem laid_of_decodeLoop {fuel : Nat} {r : Record} {offset end_ : CInt} {rs : List Record}
    (h : decodeLoop .int content fuel r offset = .ok (rs, end_)) :
    ∃ es, Laid content offset es ∧ rs = fillAll es r ∧ end_ = placeAfter offset es := by
  induction fuel generalizing r offset rs with
  | zero => cases h
  | succ fuel ih =>
    rcases decodeLoop_cases h with ⟨hend, rfl, rfl⟩ | ⟨hbelow, r', offset', rs', hread, hloop, rfl⟩
    · exact ⟨[], hend, rfl, rfl⟩
    · rw [readRecord_int r hbelow] at hread
      obtain ⟨p, hdec, hfill⟩ := Option.bind_eq_some_iff.mp hread
      obtain ⟨hstarts, hfill⟩ := Option.ite_none_right_eq_some.mp hfill
      cases hfill
      obtain ⟨es, hes, hrs, hplace⟩ := ih hloop
      have hpre : entry.enc p.1 <+: content.drop offset.toNat :=
        ⟨p.2, (entry.enc_dec _ _ _ hdec).symm⟩
      exact ⟨p.1 :: es, ⟨hbelow, hpre, hstarts, hes⟩, by rw [fillAll, hrs], hplace⟩

/-- The loop comes to its end, and every `memcpy` on the way reads bytes of the file. -/
def DecodesSafely (content : List Byte) (r : Record) : Prop :=
  (∃ fuel, decodeLoop .int content fuel r Cursor.int.start ≠ .error .outOfFuel) ∧
    ∀ fuel, decodeLoop .int content fuel r Cursor.int.start ≠ .error .outOfBounds

/-- The decode loop is safe on exactly the files in which whole records are laid out from the
first byte on, up to a place where it ends. -/
theorem decode_safe_iff (content : List Byte) (r : Record) :
    DecodesSafely content r ↔ ∃ es, Laid content Cursor.int.start es := by
  constructor
  · rintro ⟨⟨fuel, hends⟩, hbounds⟩
    cases hloop : decodeLoop .int content fuel r Cursor.int.start with
    | ok out =>
      obtain ⟨es, hes, -⟩ := laid_of_decodeLoop hloop
      exact ⟨es, hes⟩
    | error f =>
      cases f with
      | outOfBounds => exact absurd hloop (hbounds fuel)
      | outOfFuel => exact absurd hloop hends
  · rintro ⟨es, hes⟩
    refine ⟨⟨es.length + 1, ?_⟩, fun fuel => ?_⟩
    · rw [decodeLoop_of_laid hes, if_pos (Nat.lt_succ_self _)]
      simp
    · rw [decodeLoop_of_laid hes]
      split <;> simp

theorem truncated_close_overrun :
    ¬ ∀ content r, DecodesSafely content r := by
  intro h
  refine (h [1, 0, 0, 0, 4, 0, 0, 0, 0, 1, 2, 3, 4, 5, 6, 7] .blank).2 1 ?_
  decide

theorem payloadStarts_le (ty : Option Trfs.LogType) (p : Payload ty) :
    ∀ k ∈ payloadStarts ty p, k ≤ ((payload ty).enc p).length := by
  cases ty with
  | none => simp [payloadStarts]
  | some ty =>
    cases ty with
    | readdir | unlink | rmdir | read | write =>
      obtain ⟨n, bs, hn⟩ := p
      simp [payloadStarts, payload, counted]
    | open_ =>
      obtain ⟨⟨n, bs, hn⟩, flags, mode⟩ := p
      simp [payloadStarts, payload, counted]
      omega
    | close => simp [payloadStarts]
    | mkdir =>
      obtain ⟨⟨n, bs, hn⟩, mode⟩ := p
      simp [payloadStarts, payload, counted]
    | link | rename =>
      obtain ⟨⟨n, bs, hn⟩, ⟨n', bs', hn'⟩⟩ := p
      simp [payloadStarts, payload, counted]
      omega

theorem entryStarts_le (e : Entry) : ∀ k ∈ entryStarts e, k ≤ (entry.enc e).length := by
  intro k hk
  rw [Trfs.entry_enc, List.length_append, header_enc_length]
  rcases List.mem_append.mp hk with hk | hk
  · simp only [List.mem_cons, List.not_mem_nil, or_false] at hk
    omega
  · obtain ⟨j, hj, rfl⟩ := List.mem_map.mp hk
    have := payloadStarts_le _ _ j hj
    omega

theorem toInt_ofNat_of_lt {i : Nat} (hi : i < 2 ^ 31) : (BitVec.ofNat 32 i).toInt = i :=
  Cursor.int_counts.index i (by omega)

theorem below_ofNat_iff {i n : Nat} (hi : i < 2 ^ 31) :
    Cursor.int.below (BitVec.ofNat 32 i) n = true ↔ i < n := by
  have hindex := toInt_ofNat_of_lt hi
  have hplace : ((BitVec.ofNat 32 i).signExtend 64).toNat = i := by
    rw [toNat_signExtend_of_nonneg (by omega), hindex]
    rfl
  change decide (((BitVec.ofNat 32 i).signExtend 64).toNat < n) = true ↔ i < n
  rw [hplace, decide_eq_true_iff]

theorem laid_iff_of_short (hlen : content.length < 2 ^ 31) {i : Nat} (hi : i ≤ content.length)
    (es : List Entry) :
    Laid content (BitVec.ofNat 32 i) es ↔ content.drop i = es.flatMap entry.enc := by
  have hmod : (BitVec.ofNat 32 i).toNat = i := by
    rw [BitVec.toNat_ofNat]
    omega
  induction es generalizing i with
  | nil =>
    change Cursor.int.below _ _ = false ↔ _
    rw [← Bool.not_eq_true, below_ofNat_iff (by omega), List.flatMap_nil, List.drop_eq_nil_iff]
    omega
  | cons e es ih =>
    have hadvance : Cursor.int.advance (BitVec.ofNat 32 i) (entry.enc e).length =
        BitVec.ofNat 32 (i + (entry.enc e).length) := (BitVec.ofNat_add _ _).symm
    have hpos := entry_enc_length e
    rw [Laid, hmod, hadvance, below_ofNat_iff (by omega), List.flatMap_cons]
    constructor
    · rintro ⟨-, ⟨rest, hrest⟩, -, hlaid⟩
      have hfit := congrArg List.length hrest
      rw [List.length_append, List.length_drop] at hfit
      have hnext : i + (entry.enc e).length ≤ content.length := by omega
      have htail := (ih hnext (by rw [BitVec.toNat_ofNat]; omega)).mp hlaid
      rw [← hrest, ← htail, ← List.drop_drop, ← hrest, List.drop_left]
    · intro hdrop
      have hfit := congrArg List.length hdrop
      rw [List.length_append, List.length_drop] at hfit
      have hnext : i + (entry.enc e).length ≤ content.length := by omega
      refine ⟨by omega, ⟨_, hdrop.symm⟩, fun k hk => ?_,
        (ih hnext (by rw [BitVec.toNat_ofNat]; omega)).mpr ?_⟩
      · have := entryStarts_le e k hk
        omega
      · rw [← List.drop_drop, hdrop, List.drop_left]

theorem decode_safe_iff_of_short (hlen : content.length < 2 ^ 31) (r : Record) :
    DecodesSafely content r ↔ ∃ es : List Entry, content = es.flatMap entry.enc := by
  have hlaid : ∀ es, Laid content Cursor.int.start es ↔ content = es.flatMap entry.enc :=
    laid_iff_of_short hlen (Nat.zero_le _)
  constructor
  · rintro ⟨⟨fuel, hends⟩, hbounds⟩
    cases hloop : decodeLoop .int content fuel r Cursor.int.start with
    | ok out =>
      obtain ⟨es, hes, -⟩ := laid_of_decodeLoop hloop
      exact ⟨es, (hlaid es).mp hes⟩
    | error f =>
      cases f with
      | outOfBounds => exact absurd hloop (hbounds fuel)
      | outOfFuel => exact absurd hloop hends
  · rintro ⟨es, hes⟩
    have hloop := decodeLoop_of_laid ((hlaid es).mpr hes)
    refine ⟨⟨es.length + 1, ?_⟩, fun fuel => ?_⟩
    · rw [hloop, if_pos (Nat.lt_succ_self _)]
      simp
    · rw [hloop]
      split <;> simp

end TraceFS.Treplay
