import TraceFS.Treplay.Reader
import TraceFS.Trfs.Format

universe v

namespace TraceFS.Treplay

open TraceFS.Lib TraceFS.Linux
open TraceFS.Trfs (Header Payload Entry counted header payload entry entry_enc header_enc_length)

variable {content : List Byte}

def Fills (content : List Byte) (m : Record → StateT Nat Option Record) (c : Codec α)
    (set : α → Record → Record) : Prop :=
  ∀ r i, i ≤ content.length → m r i =
    (c.dec (content.drop i)).map fun p => (set p.1 r, content.length - p.2.length)

theorem memcpy_unbounded {n i : Nat} (hi : i ≤ content.length) :
    memcpy .unbounded content n i =
      (Codec.takeExact n (content.drop i)).map fun p => (p.1, content.length - p.2.length) := by
  by_cases hn : i + n ≤ content.length
  · have hrest : content.length - (content.length - (i + n)) = i + n := by omega
    simp [memcpy, Cursor.unbounded, Codec.takeExact, hn, Nat.le_sub_of_add_le' hn, hrest]
  · have hn' : ¬ n ≤ content.length - i := by omega
    simp [memcpy, Cursor.unbounded, Codec.takeExact, hn, hn']

theorem Fills.word (w : Nat) (hw : 8 ∣ w) (set : BitVec w → Record → Record) :
    Fills content (readWord .unbounded content w set) (Codec.word w hw) set := by
  intro r i hi
  simp only [readWord, bind, StateT.bind, memcpy_unbounded hi, Codec.word]
  cases Codec.takeExact (w / 8) (content.drop i) <;> rfl

theorem Fills.compose {β : α → Type v} {m n : Record → StateT Nat Option Record} {c : Codec α}
    {d : (a : α) → Codec (β a)} {f : α → Record → Record} {g : (a : α) → β a → Record → Record}
    (pair : (a : α) → β a → γ) {e : Codec γ}
    (he : ∀ bs, e.dec bs =
      (c.dec bs).bind fun p => ((d p.1).dec p.2).map fun q => (pair p.1 q.1, q.2))
    {set : γ → Record → Record} (hset : ∀ a b r, set (pair a b) r = g a b (f a r))
    (hm : Fills content m c f)
    (hn : ∀ a r i, i ≤ content.length → n (f a r) i = ((d a).dec (content.drop i)).map fun p =>
      (g a p.1 (f a r), content.length - p.2.length)) :
    Fills content (fun r => do let r ← m r; n r) e set := by
  intro r i hi
  simp only [bind, StateT.bind, hm r i hi, he]
  cases hc : c.dec (content.drop i) with
  | none => rfl
  | some p =>
    obtain ⟨a, rest⟩ := p
    obtain ⟨hrest, hpos, -⟩ := c.drop_rest hc hi
    simp only [Option.map_some, Option.bind_some]
    rw [hn _ _ _ hpos, hrest]
    cases (d a).dec rest with
    | none => rfl
    | some q => simp only [Option.map_some, hset]

theorem Fills.seq {m n : Record → StateT Nat Option Record} {c : Codec α} {d : Codec β}
    {f : α → Record → Record} {g : β → Record → Record} (hm : Fills content m c f)
    (hn : Fills content n d g) :
    Fills content (fun r => do let r ← m r; n r) (c.prod d) fun p r => g p.2 (f p.1 r) :=
  .compose (d := fun _ => d) (f := f) (g := fun _ => g) Prod.mk (fun _ => rfl) (fun _ _ _ => rfl) hm
    fun a r => hn (f a r)

theorem Fills.sigma {β : α → Type} {m n : Record → StateT Nat Option Record} {c : Codec α}
    {d : (a : α) → Codec (β a)} {f : α → Record → Record} {g : (a : α) → β a → Record → Record}
    (hm : Fills content m c f)
    (hn : ∀ a r i, i ≤ content.length → n (f a r) i = ((d a).dec (content.drop i)).map fun p =>
      (g a p.1 (f a r), content.length - p.2.length)) :
    Fills content (fun r => do let r ← m r; n r) (c.sigma d) fun p r => g p.1 p.2 (f p.1 r) :=
  .compose (f := f) (g := g) Sigma.mk (fun _ => rfl) (fun _ _ _ => rfl) hm hn

theorem Fills.skip : Fills content (fun r => pure r) Codec.unit fun _ r => r := by
  intro r i hi
  have hpos : content.length - (content.length - i) = i := by omega
  change some (r, i) = some (r, content.length - (content.drop i).length)
  rw [List.length_drop, hpos]

theorem Fills.counted (w : Nat) (hw : 8 ∣ w) (set : BitVec w → Record → Record)
    (len : Record → BitVec w) (hlen : ∀ x r, len (set x r) = x)
    (store : List Byte → Record → Record) :
    Fills content
      (fun r => do
        let r ← readWord .unbounded content w set r
        let bytes ← memcpy .unbounded content (len r).toNat
        return store bytes r)
      (Trfs.counted w hw) fun p r => store p.2.val (set p.1 r) := by
  apply Fills.sigma (d := fun x => Codec.raw x.toNat)
    (g := fun x (bs : {bs : List Byte // bs.length = x.toNat}) r => store bs.val r)
    (Fills.word w hw set)
  intro x r i hi
  simp only [bind, StateT.bind, memcpy_unbounded hi, hlen, Codec.raw, Codec.takeExact]
  split <;> rfl

theorem readPath_fills : Fills content (readPath .unbounded content) (counted 16 (by decide))
    fun p r => { r with pathLength := p.1, path := some (p.2.val ++ [0]) } :=
  Fills.counted 16 _ _ Record.pathLength (fun _ _ => rfl) fun bs r =>
    { r with path := some (bs ++ [0]) }

theorem readNewPath_fills : Fills content (readNewPath .unbounded content)
    (counted 16 (by decide))
    fun p r => { r with newPathLength := p.1, newPath := some (p.2.val ++ [0]) } :=
  Fills.counted 16 _ _ Record.newPathLength (fun _ _ => rfl) fun bs r =>
    { r with newPath := some (bs ++ [0]) }

theorem readData_fills : Fills content (readData .unbounded content) (counted 64 (by decide))
    fun p r => { r with dataLength := p.1, data := some (p.2.val ++ [0]) } :=
  Fills.counted 64 _ _ Record.dataLength (fun _ _ => rfl) fun bs r =>
    { r with data := some (bs ++ [0]) }

def fillCommon (h : Header) (r : Record) : Record :=
  { r with
    path := none
    data := none
    id := h.1
    type := h.2.1
    returnValue := h.2.2.1
    fileAddress := h.2.2.2 }

theorem readCommon_fills : Fills content (readCommon .unbounded content) header fillCommon := by
  intro r
  exact (Fills.seq (Fills.word 32 _ _) (Fills.seq (Fills.word 8 _ _)
    (Fills.seq (Fills.word 32 _ _) (Fills.word 64 _ _)))) { r with path := none, data := none }

def LogType.ofKernel : Trfs.LogType → LogType
  | .readdir => .checkReaddir
  | .open_ => .checkOpen
  | .read => .checkRead
  | .write => .checkWrite
  | .close => .checkClose
  | .mkdir => .checkMkdir
  | .unlink => .checkUnlink
  | .link => .checkLink
  | .rename => .checkRename
  | .rmdir => .checkRmdir

theorem LogType.ofByte_eq (b : Byte) :
    LogType.ofByte b = (Trfs.LogType.ofByte b).map LogType.ofKernel := by
  unfold LogType.ofByte Trfs.LogType.ofByte
  generalize b.toNat = n
  match n with
  | 0 | 1 | 2 | 3 | 4 | 5 | 6 | 7 | 8 | 9 | _ + 10 => rfl

def fillFields : (ty : Option Trfs.LogType) → Payload ty → Record → Record
  | some .readdir, p, r | some .unlink, p, r | some .rmdir, p, r =>
    { r with pathLength := p.1, path := some (p.2.val ++ [0]) }
  | some .open_, p, r =>
    { r with
      pathLength := p.1.1
      path := some (p.1.2.val ++ [0])
      openFlags := p.2.1
      permMode := p.2.2 }
  | some .read, p, r | some .write, p, r =>
    { r with dataLength := p.1, data := some (p.2.val ++ [0]) }
  | some .close, _, r | none, _, r => r
  | some .mkdir, p, r =>
    { r with pathLength := p.1.1, path := some (p.1.2.val ++ [0]), permMode := p.2 }
  | some .link, p, r | some .rename, p, r =>
    { r with
      pathLength := p.1.1
      path := some (p.1.2.val ++ [0])
      newPathLength := p.2.1
      newPath := some (p.2.2.val ++ [0]) }

theorem readFields_fills (ty : Option Trfs.LogType) :
    Fills content
      (fun r => match ty.map LogType.ofKernel with
        | some ty => readFields .unbounded content r ty
        | none => pure r)
      (payload ty) (fillFields ty) := by
  cases ty with
  | none => exact Fills.skip
  | some ty =>
    cases ty with
    | readdir | unlink | rmdir => exact readPath_fills
    | open_ => exact readPath_fills.seq ((Fills.word 32 _ _).seq (Fills.word 32 _ _))
    | read | write => exact readData_fills
    | close => exact Fills.skip
    | mkdir => exact readPath_fills.seq (Fills.word 32 _ _)
    | link | rename => exact readPath_fills.seq readNewPath_fills

def fill (e : Entry) (r : Record) : Record :=
  fillFields (Trfs.LogType.ofByte e.1.2.1) e.2 (fillCommon e.1 r)

theorem readRecord_fills : Fills content (readRecord .unbounded content) entry fill := by
  apply Fills.sigma readCommon_fills (g := fun h => fillFields (Trfs.LogType.ofByte h.2.1))
  intro h r i hi
  have hty : (fillCommon h r).type = h.2.1 := rfl
  simp only [hty, LogType.ofByte_eq]
  exact readFields_fills _ (fillCommon h r) i hi

def fillAll : List Entry → Record → List Record
  | [], _ => []
  | e :: es, r => fill e r :: fillAll es (fill e r)

theorem entry_enc_length (e : Entry) : 17 ≤ (entry.enc e).length := by
  rw [entry_enc, List.length_append, header_enc_length]
  omega

theorem decodeLoop_of_entries (es : List Entry) (fuel : Nat) (r : Record) (i : Nat)
    (hi : i ≤ content.length) (hes : content.drop i = es.flatMap entry.enc)
    (hfuel : es.length < fuel) :
    decodeLoop .unbounded content fuel r i = .ok (fillAll es r, content.length) := by
  induction es generalizing fuel r i with
  | nil =>
    obtain ⟨fuel, rfl⟩ := Nat.exists_eq_add_of_lt hfuel
    have hlen := congrArg List.length hes
    rw [List.length_drop, List.flatMap_nil, List.length_nil] at hlen
    obtain rfl : i = content.length := by omega
    simp [decodeLoop, Cursor.unbounded, fillAll]
  | cons e es ih =>
    cases fuel with
    | zero => cases hfuel
    | succ fuel =>
      have hdec : entry.dec (content.drop i) = some (e, es.flatMap entry.enc) := by
        rw [hes, List.flatMap_cons, entry.dec_enc]
      obtain ⟨hrest, hpos, hadv⟩ := entry.drop_rest hdec hi
      have hbelow : Cursor.unbounded.below i content.length = true := by
        have := entry_enc_length e
        exact decide_eq_true (by omega)
      have hread : readRecord .unbounded content r i =
          some (fill e r, content.length - (es.flatMap entry.enc).length) := by
        rw [readRecord_fills r i hi, hdec]
        rfl
      have hloop := ih fuel (fill e r) _ hpos hrest (Nat.lt_of_succ_lt_succ hfuel)
      rw [decodeLoop, if_pos hbelow, hread]
      change (decodeLoop .unbounded content fuel (fill e r) _).map _ = _
      rw [hloop]
      rfl

theorem entries_of_decodeLoop {fuel : Nat} {r : Record} {i end_ : Nat} {rs : List Record}
    (hi : i ≤ content.length)
    (h : decodeLoop .unbounded content fuel r i = .ok (rs, end_)) :
    ∃ es : List Entry, content.drop i = es.flatMap entry.enc ∧ rs = fillAll es r := by
  induction fuel generalizing r i rs with
  | zero => cases h
  | succ fuel ih =>
    rcases decodeLoop_cases h with ⟨hend, rfl, rfl⟩ | ⟨-, r', i', rs', hread, hloop, rfl⟩
    · have hlast : ¬ end_ < content.length := of_decide_eq_false hend
      exact ⟨[], List.drop_eq_nil_of_le (by omega), rfl⟩
    · rw [readRecord_fills r i hi] at hread
      obtain ⟨⟨e, rest⟩, hdec, hfill⟩ := Option.map_eq_some_iff.mp hread
      cases hfill
      obtain ⟨hrest, hpos, -⟩ := entry.drop_rest hdec hi
      obtain ⟨es, hes, hout⟩ := ih hpos hloop
      refine ⟨e :: es, ?_, by rw [fillAll, hout]⟩
      rw [List.flatMap_cons, ← hes, hrest]
      exact entry.enc_dec _ _ _ hdec

/-- The decoded record has every field that the type of the traced one carries; `buf` is the
data of a read or write. -/
structure Agrees (ty : Trfs.LogType) (k : Trfs.Record) (buf : List Byte) (r : Record) : Prop where
  id : r.id = k.id
  type : r.type = k.type
  returnValue : r.returnValue = k.returnValue
  fileAddress : r.fileAddress = k.fileAddress
  pathLength : ty.HasPath → r.pathLength = k.pathLength
  path : ty.HasPath → r.path = k.path.map (· ++ [0])
  newPathLength : ty.HasNewPath → r.newPathLength = k.newPathLength
  newPath : ty.HasNewPath → r.newPath = k.newPath.map (· ++ [0])
  openFlags : ty = .open_ → r.openFlags = k.openFlags
  permMode : ty = .open_ ∨ ty = .mkdir → r.permMode = k.permMode
  dataLength : ty.HasData → r.dataLength = k.dataLength
  data : ty.HasData → r.data = some (buf ++ [0])

def entryOf (k : Trfs.Record) (ty : Trfs.LogType) (p : Payload (some ty)) : Entry :=
  ⟨(k.id, ty.toByte, k.returnValue, k.fileAddress), cast (by rw [Trfs.LogType.ofByte_toByte]) p⟩

theorem entryOf_enc {k : Trfs.Record} {ty : Trfs.LogType} (hty : k.type = ty.toByte)
    (p : Payload (some ty)) :
    entry.enc (entryOf k ty p) = k.encCommon ++ (payload (some ty)).enc p := by
  have henc : entry.enc (entryOf k ty p) =
      header.enc (k.id, ty.toByte, k.returnValue, k.fileAddress) ++ (payload (some ty)).enc p := by
    cases ty <;> rfl
  rw [henc, ← hty]
  simp [header, Trfs.Record.encCommon]

theorem fill_entryOf {k : Trfs.Record} {ty : Trfs.LogType} (hty : k.type = ty.toByte)
    (p : Payload (some ty)) (r : Record) :
    fill (entryOf k ty p) r =
      fillFields (some ty) p (fillCommon (k.id, k.type, k.returnValue, k.fileAddress) r) := by
  rw [hty]
  cases ty <;> rfl

theorem carries_payload {k : Trfs.Record} {buf : List Byte} (h : k.Carries ty buf) :
    ∃ p : Payload (some ty), k.written buf = k.encCommon ++ (payload (some ty)).enc p ∧
      ∀ r, Agrees ty k buf
        (fillFields (some ty) p (fillCommon (k.id, k.type, k.returnValue, k.fileAddress) r)) := by
  have hpath := h.path_at
  have hnew := h.newPath_at
  have hlen := h.buf_length
  have hfields := h.written_fields
  have hdata := h.written_data
  cases ty with
  | readdir | unlink | rmdir =>
    obtain ⟨bs, hbs, hn⟩ := hpath trivial
    refine ⟨(⟨k.pathLength, bs, hn⟩ : Trfs.Counted 16), ?_, ?_⟩
    · rw [hfields not_false]
      simp [Trfs.Record.encFields, payload, counted, hbs, ← hn, Trfs.pointee]
    · intro r
      constructor <;> simp [fillFields, fillCommon, hbs, Trfs.LogType.HasNewPath,
        Trfs.LogType.HasData]
  | open_ =>
    obtain ⟨bs, hbs, hn⟩ := hpath trivial
    refine ⟨((⟨k.pathLength, bs, hn⟩ : Trfs.Counted 16), k.openFlags, k.permMode), ?_, ?_⟩
    · rw [hfields not_false]
      simp [Trfs.Record.encFields, payload, counted, hbs, ← hn, Trfs.pointee]
    · intro r
      constructor <;> simp [fillFields, fillCommon, hbs, Trfs.LogType.HasNewPath,
        Trfs.LogType.HasData]
  | read | write =>
    refine ⟨(⟨k.dataLength, buf, hlen trivial⟩ : Trfs.Counted 64), hdata trivial, ?_⟩
    intro r
    constructor <;> simp [fillFields, fillCommon, Trfs.LogType.HasPath, Trfs.LogType.HasNewPath]
  | close =>
    refine ⟨PUnit.unit, hfields not_false, ?_⟩
    intro r
    constructor <;> simp [fillFields, fillCommon, Trfs.LogType.HasPath, Trfs.LogType.HasNewPath,
      Trfs.LogType.HasData]
  | mkdir =>
    obtain ⟨bs, hbs, hn⟩ := hpath trivial
    refine ⟨((⟨k.pathLength, bs, hn⟩ : Trfs.Counted 16), k.permMode), ?_, ?_⟩
    · rw [hfields not_false]
      simp [Trfs.Record.encFields, payload, counted, hbs, ← hn, Trfs.pointee]
    · intro r
      constructor <;> simp [fillFields, fillCommon, hbs, Trfs.LogType.HasNewPath,
        Trfs.LogType.HasData]
  | link | rename =>
    obtain ⟨bs, hbs, hn⟩ := hpath trivial
    obtain ⟨bs', hbs', hn'⟩ := hnew trivial
    refine ⟨((⟨k.pathLength, bs, hn⟩ : Trfs.Counted 16),
      (⟨k.newPathLength, bs', hn'⟩ : Trfs.Counted 16)), ?_, ?_⟩
    · rw [hfields not_false]
      simp [Trfs.Record.encFields, payload, counted, hbs, ← hn, hbs', ← hn', Trfs.pointee]
    · intro r
      constructor <;> simp [fillFields, fillCommon, hbs, hbs', Trfs.LogType.HasData]

theorem carries_entries (items : List (Trfs.Record × List Byte))
    (hitems : ∀ x ∈ items, ∃ ty, x.1.Carries ty x.2) :
    ∃ es : List Entry, es.flatMap entry.enc = items.flatMap (fun x => x.1.written x.2) ∧
      ∀ r, List.Forall₂ (fun x r' => ∃ ty, Trfs.LogType.ofByte x.1.type = some ty ∧
        Agrees ty x.1 x.2 r') items (fillAll es r) := by
  induction items with
  | nil => exact ⟨[], rfl, fun _ => .nil⟩
  | cons x items ih =>
    obtain ⟨ty, hx⟩ := hitems x List.mem_cons_self
    obtain ⟨es, hes, hall⟩ := ih fun y hy => hitems y (List.mem_cons_of_mem x hy)
    obtain ⟨p, hp, hagrees⟩ := carries_payload hx
    refine ⟨entryOf x.1 ty p :: es, ?_, ?_⟩
    · rw [List.flatMap_cons, List.flatMap_cons, hes, entryOf_enc hx.type_eq, hp]
    · intro r
      refine .cons ⟨ty, ?_, ?_⟩ (hall _)
      · rw [hx.type_eq, Trfs.LogType.ofByte_toByte]
      · rw [fill_entryOf hx.type_eq]
        exact hagrees r

def Record.toKernel (r : Record) : Trfs.Record :=
  { Trfs.Record.zero with
    id := r.id
    type := r.type
    returnValue := r.returnValue
    fileAddress := r.fileAddress
    openFlags := r.openFlags
    permMode := r.permMode
    pathLength := r.pathLength
    path := r.path
    newPathLength := r.newPathLength
    newPath := r.newPath
    dataLength := r.dataLength
    data := r.data }

theorem fillFields_type (ty : Option Trfs.LogType) (p : Payload ty) (r : Record) :
    (fillFields ty p r).type = r.type := by
  match ty, p with
  | none, _ | some .readdir, _ | some .open_, _ | some .read, _ | some .write, _
  | some .close, _ | some .mkdir, _ | some .unlink, _ | some .link, _ | some .rename, _
  | some .rmdir, _ => rfl

theorem exists_entryOf (e : Entry) (h : (Trfs.LogType.ofByte e.1.2.1).isSome) :
    ∃ (k : Trfs.Record) (ty : Trfs.LogType) (p : Payload (some ty)),
      k.type = ty.toByte ∧ e = entryOf k ty p := by
  obtain ⟨⟨id, type, returnValue, fileAddress⟩, p⟩ := e
  obtain ⟨ty, hty⟩ := Option.isSome_iff_exists.mp h
  obtain rfl := Trfs.LogType.toByte_ofByte type ty hty
  refine ⟨{ Trfs.Record.zero with
    id := id, type := ty.toByte, returnValue := returnValue, fileAddress := fileAddress }, ty,
    cast (by rw [← hty]) p, rfl, ?_⟩
  simp [entryOf]

theorem toKernel_enc (e : Entry) (r : Record)
    (h : (Trfs.LogType.ofByte e.1.2.1).isSome) : (fill e r).toKernel.enc = entry.enc e := by
  obtain ⟨k, ty, p, htype, rfl⟩ := exists_entryOf e h
  rw [fill_entryOf htype, entryOf_enc htype]
  generalize hr : fillFields (some ty) p
    (fillCommon (k.id, k.type, k.returnValue, k.fileAddress) r) = r'
  have hty : r'.toKernel.type = ty.toByte := by
    rw [← hr, ← htype]
    exact fillFields_type _ p _
  rw [Trfs.Record.enc_eq hty, ← hr]
  cases ty with
  | readdir | unlink | rmdir =>
    obtain ⟨n, bs, hn⟩ := p
    simp [fillFields, fillCommon, Record.toKernel, Trfs.Record.encCommon, Trfs.Record.encFields,
      payload, counted, Trfs.pointee, ← hn]
  | open_ =>
    obtain ⟨⟨n, bs, hn⟩, flags, mode⟩ := p
    simp [fillFields, fillCommon, Record.toKernel, Trfs.Record.encCommon, Trfs.Record.encFields,
      payload, counted, Trfs.pointee, ← hn]
  | read | write =>
    obtain ⟨n, bs, hn⟩ := p
    simp [fillFields, fillCommon, Record.toKernel, Trfs.Record.encCommon, Trfs.Record.encFields,
      payload, counted, Trfs.pointee, ← hn]
  | close => rfl
  | mkdir =>
    obtain ⟨⟨n, bs, hn⟩, mode⟩ := p
    simp [fillFields, fillCommon, Record.toKernel, Trfs.Record.encCommon, Trfs.Record.encFields,
      payload, counted, Trfs.pointee, ← hn]
  | link | rename =>
    obtain ⟨⟨n, bs, hn⟩, ⟨n', bs', hn'⟩⟩ := p
    simp [fillFields, fillCommon, Record.toKernel, Trfs.Record.encCommon, Trfs.Record.encFields,
      payload, counted, Trfs.pointee, ← hn, ← hn']

theorem fillAll_enc (es : List Entry) (r : Record)
    (h : ∀ r' ∈ fillAll es r, (LogType.ofByte r'.type).isSome) :
    (fillAll es r).flatMap (fun r' => r'.toKernel.enc) = es.flatMap entry.enc := by
  induction es generalizing r with
  | nil => rfl
  | cons e es ih =>
    have htype : (fill e r).type = e.1.2.1 := fillFields_type _ e.2 _
    have hknown : (Trfs.LogType.ofByte e.1.2.1).isSome := by
      have := h (fill e r) List.mem_cons_self
      rwa [htype, LogType.ofByte_eq, Option.isSome_map] at this
    rw [fillAll, List.flatMap_cons, List.flatMap_cons, toKernel_enc e r hknown,
      ih (fill e r) fun r' hr' => h r' (List.mem_cons_of_mem _ hr')]

theorem entries_length_le (es : List Entry) : es.length ≤ (es.flatMap entry.enc).length := by
  induction es with
  | nil => exact Nat.le_refl 0
  | cons e es ih =>
    have := entry_enc_length e
    rw [List.flatMap_cons, List.length_append, List.length_cons]
    omega

/-- Encoder and decoder agree on the whole format: the reader gives back every list of records
from what was written for them, up to the last byte and whatever its one record held before, and
the records it reads out of any file encode to that file when all their types are known. -/
theorem decodeFile_written :
    (∀ (items : List (Trfs.Record × List Byte)) (r : Record),
      (∀ x ∈ items, ∃ ty, x.1.Carries ty x.2) →
        ∃ rs, decodeFile .unbounded (items.flatMap fun x => x.1.written x.2) r =
            .ok (rs, (items.flatMap fun x => x.1.written x.2).length) ∧
          List.Forall₂ (fun x r' => ∃ ty, Trfs.LogType.ofByte x.1.type = some ty ∧
            Agrees ty x.1 x.2 r') items rs) ∧
      ∀ (content : List Byte) (r : Record) (rs : List Record) (end_ : Nat),
        decodeFile .unbounded content r = .ok (rs, end_) →
          (∀ r' ∈ rs, (LogType.ofByte r'.type).isSome) →
            rs.flatMap (fun r' => r'.toKernel.enc) = content := by
  constructor
  · intro items r hitems
    obtain ⟨es, hes, hall⟩ := carries_entries items hitems
    refine ⟨fillAll es r, ?_, hall r⟩
    rw [← hes]
    exact decodeLoop_of_entries es _ r 0 (Nat.zero_le _) (List.drop_zero)
      (Nat.lt_succ_of_le (entries_length_le es))
  · intro content r rs end_ h hknown
    obtain ⟨es, hes, rfl⟩ := entries_of_decodeLoop (Nat.zero_le _) h
    rw [fillAll_enc es r hknown, ← hes, List.drop_zero]

end TraceFS.Treplay
