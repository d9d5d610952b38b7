import TraceFS.Lib.Slots
import TraceFS.Linux.Conversions
import TraceFS.Treplay.Replay

namespace TraceFS.Treplay

open TraceFS.Lib TraceFS.Linux

structure MapArray where
  slots : List (Option FileMap)
  mapIndex : CInt
  mapExpandLimit : CInt

inductive MapFault where
  | noMemory
  | outOfBounds
  | uninitialized
  deriving DecidableEq

def mapSize (mapExpandLimit : CInt) : BitVec 64 := 8 * mapExpandLimit.signExtend 64

def PTRDIFF_MAX : Nat := 2 ^ 63 - 1

/-- `realloc` of the map. No object is larger than `PTRDIFF_MAX`. -/
def reallocMap (granted : Bool) (slots : List (Option FileMap)) (size : BitVec 64) :
    Except MapFault (List (Option FileMap)) :=
  if granted ∧ size.toNat ≤ PTRDIFF_MAX then
    .ok (slots.take (size.toNat / 8) ++
      List.replicate (size.toNat / 8 - slots.length) none)
  else .error .noMemory

def createEntry (granted : Bool) (fileAddress : BitVec 64) (fd : CInt) :
    Except MapFault FileMap :=
  if granted then .ok ⟨fileAddress, fd⟩ else .error .noMemory

namespace MapArray

def start : MapArray := ⟨List.replicate 10 none, 0, 10⟩

variable (m : MapArray)

def expand (granted : Bool) : Except MapFault MapArray :=
  if m.mapIndex = m.mapExpandLimit then do
    let limit := m.mapExpandLimit + 10
    let slots ← reallocMap granted m.slots (mapSize limit)
    return { m with slots := slots, mapExpandLimit := limit }
  else return m

def push (entry : FileMap) : Except MapFault MapArray :=
  if 0 ≤ m.mapIndex.toInt ∧ m.mapIndex.toInt.toNat < m.slots.length then
    .ok { m with
      slots := m.slots.set m.mapIndex.toInt.toNat (some entry)
      mapIndex := m.mapIndex + 1 }
  else .error .outOfBounds

/-- `grow` and `node` are the answers to the two requests for memory. -/
def mapAdd (fileAddress : BitVec 64) (fd : CInt) (grow node : Bool) :
    Except MapFault MapArray := do
  let m ← m.expand grow
  let entry ← createEntry node fileAddress fd
  m.push entry

def findFrom (slots : List (Option FileMap)) (fileAddress : BitVec 64) :
    Nat → Nat → Except MapFault CInt
  | 0, _ => .ok (-1)
  | left + 1, i =>
    match slots[i]? with
    | none => .error .outOfBounds
    | some none => .error .uninitialized
    | some (some e) =>
      if e.fileAddr = fileAddress then .ok e.fileD else findFrom slots fileAddress left (i + 1)

def mapFind (fileAddress : BitVec 64) : Except MapFault CInt :=
  findFrom m.slots fileAddress m.mapIndex.toInt.toNat 0

structure Holds (es : List FileMap) : Prop where
  filled : Filled m.slots es
  index : m.mapIndex.toInt = es.length
  limit : m.mapExpandLimit.toInt = m.slots.length
  tens : 10 ∣ m.slots.length

end MapArray

inductive MapOp where
  | add (fileAddress : BitVec 64) (fd : CInt) (grow node : Bool)
  | find (fileAddress : BitVec 64)

def MapArray.perform : MapArray → List MapOp → Except MapFault (MapArray × List CInt)
  | m, [] => .ok (m, [])
  | m, .add fileAddress fd grow node :: ops => do
    let m ← m.mapAdd fileAddress fd grow node
    m.perform ops
  | m, .find fileAddress :: ops => do
    let d ← m.mapFind fileAddress
    let out ← m.perform ops
    return (out.1, d :: out.2)

def performList : List FileMap → List MapOp → List FileMap × List CInt
  | es, [] => (es, [])
  | es, .add fileAddress fd _ _ :: ops => performList (Treplay.mapAdd es fileAddress fd) ops
  | es, .find fileAddress :: ops =>
    let out := performList es ops
    (out.1, Treplay.mapFind es fileAddress :: out.2)

theorem mapFind_cons (e : FileMap) (es : List FileMap) (fileAddress : BitVec 64) :
    Treplay.mapFind (e :: es) fileAddress =
      if e.fileAddr = fileAddress then e.fileD else Treplay.mapFind es fileAddress := by
  by_cases haddr : e.fileAddr = fileAddress <;> simp [mapFind, haddr]

theorem toNat_mapSize_of_nonneg {limit : CInt} (h : 0 ≤ limit.toInt) :
    (mapSize limit).toNat = 8 * limit.toInt.toNat := by
  have hlt := BitVec.toInt_lt (x := limit)
  have height : (8 : BitVec 64).toNat = 8 := rfl
  rw [mapSize, BitVec.toNat_mul, toNat_signExtend_of_nonneg h, height]
  omega

theorem toNat_mapSize_of_neg {limit : CInt} (h : limit.toInt < 0) :
    ¬ (mapSize limit).toNat ≤ PTRDIFF_MAX := by
  have hge := toNat_signExtend_of_neg h
  have hlt := (limit.signExtend 64).isLt
  have height : (8 : BitVec 64).toNat = 8 := rfl
  rw [mapSize, BitVec.toNat_mul, height, PTRDIFF_MAX]
  omega

namespace MapArray

variable {m : MapArray} {es : List FileMap}

theorem start_holds : start.Holds [] where
  filled := Filled.empty 10
  index := rfl
  limit := rfl
  tens := Nat.dvd_refl 10

theorem Holds.full_iff (h : m.Holds es) :
    m.mapIndex = m.mapExpandLimit ↔ es.length = m.slots.length := by
  rw [← BitVec.toInt_inj, h.index, h.limit]
  exact Int.ofNat_inj

/-- An `int` counts the slots in tens. -/
theorem Holds.slots_length_le (h : m.Holds es) : m.slots.length ≤ 2147483640 := by
  have hlimit := h.limit
  have htens := h.tens
  have hlt := BitVec.toInt_lt (x := m.mapExpandLimit)
  omega

theorem Holds.realloc (h : m.Holds es) (hroom : m.slots.length < 2147483640) :
    reallocMap true m.slots (mapSize (m.mapExpandLimit + 10)) =
        .ok (m.slots ++ List.replicate 10 none) ∧
      (m.mapExpandLimit + 10).toInt = m.slots.length + 10 := by
  have hten : (10 : CInt).toInt = 10 := rfl
  have hlimit := h.limit
  have htens := h.tens
  have hsum : (m.mapExpandLimit + 10).toInt = m.slots.length + 10 := by
    rw [toInt_add_eq (by omega) (by omega), hlimit, hten]
  have hsize : (mapSize (m.mapExpandLimit + 10)).toNat = 8 * (m.slots.length + 10) := by
    rw [toNat_mapSize_of_nonneg (by omega), hsum]
    omega
  refine ⟨?_, hsum⟩
  rw [reallocMap, if_pos ⟨rfl, by rw [hsize, PTRDIFF_MAX]; omega⟩, hsize,
    Nat.mul_div_cancel_left _ (by decide), List.take_of_length_le (by omega),
    Nat.add_sub_cancel_left]

theorem Holds.expand (h : m.Holds es) (hroom : es.length < 2147483640) :
    ∃ m', m.expand true = .ok m' ∧ m'.Holds es ∧ es.length < m'.slots.length ∧
      m'.slots = m.slots ++
        List.replicate (if es.length = m.slots.length then 10 else 0) none := by
  by_cases hfull : m.mapIndex = m.mapExpandLimit
  · have hlen := h.full_iff.mp hfull
    obtain ⟨hrealloc, hlimit⟩ := h.realloc (by omega)
    refine ⟨⟨m.slots ++ List.replicate 10 none, m.mapIndex, m.mapExpandLimit + 10⟩, ?_,
      ⟨h.filled.grow 10, h.index, ?_, ?_⟩, ?_, by simp [hlen]⟩
    · rw [MapArray.expand, if_pos hfull]
      dsimp only
      rw [hrealloc]
      rfl
    · rw [hlimit, List.length_append, List.length_replicate, Nat.cast_add]
      rfl
    · rw [List.length_append, List.length_replicate]
      exact Nat.dvd_add h.tens (Nat.dvd_refl 10)
    · rw [List.length_append, List.length_replicate]
      omega
  · have hne : es.length ≠ m.slots.length := fun hlen => hfull (h.full_iff.mpr hlen)
    have hle := h.filled.length_le
    exact ⟨m, if_neg hfull, h, by omega, by simp [hne]⟩

/-- With all those slots taken, `map_expand_limit` wraps, and is asked for as an `unsigned long`. -/
theorem Holds.expand_full (h : m.Holds es) (hfull : 2147483640 ≤ es.length) :
    m.expand true = .error .noMemory := by
  have hle := h.filled.length_le
  have hmax := h.slots_length_le
  have hlimit := h.limit
  have hten : (10 : CInt).toInt = 10 := rfl
  have hrealloc : reallocMap true m.slots (mapSize (m.mapExpandLimit + 10)) =
      .error .noMemory :=
    if_neg fun hgranted =>
      toNat_mapSize_of_neg (toInt_add_neg (by omega)) hgranted.2
  rw [MapArray.expand, if_pos (h.full_iff.mpr (by omega))]
  dsimp only
  rw [hrealloc]
  rfl

theorem Holds.push (h : m.Holds es) (hfree : es.length < m.slots.length) (e : FileMap) :
    ∃ m', m.push e = .ok m' ∧ m'.Holds (es ++ [e]) ∧
      m'.slots = m.slots.set es.length (some e) := by
  have hindex : m.mapIndex.toInt.toNat = es.length := by
    rw [h.index]
    rfl
  have hlimit := BitVec.toInt_lt (x := m.mapExpandLimit)
  have hnext : (m.mapIndex + 1).toInt = m.mapIndex.toInt + 1 := by
    have hi := h.index
    have hl := h.limit
    exact toInt_add_eq (y := 1) (by change _ ≤ _ + (1 : Int); omega)
      (by change _ + (1 : Int) < _; omega)
  refine ⟨_, if_pos ⟨by rw [h.index]; omega, by omega⟩, ?_, by simp only [hindex]⟩
  constructor
  · rw [hindex]
    exact h.filled.set hfree e
  · rw [hnext, h.index, List.length_append, List.length_singleton, Nat.cast_add]
    rfl
  · rw [List.length_set]
    exact h.limit
  · rw [List.length_set]
    exact h.tens

theorem Holds.mapAdd (h : m.Holds es) (hroom : es.length < 2147483640) (fileAddress : BitVec 64)
    (fd : CInt) :
    ∃ m', m.mapAdd fileAddress fd true true = .ok m' ∧
      m'.Holds (Treplay.mapAdd es fileAddress fd) ∧
        (m'.slots.length ≠ m.slots.length ↔ es.length = m.slots.length) := by
  obtain ⟨m₁, hm₁, h₁, hfree, hslots⟩ := h.expand hroom
  obtain ⟨m', hpush, hm', hset⟩ := h₁.push hfree ⟨fileAddress, fd⟩
  refine ⟨m', ?_, hm', ?_⟩
  · rw [MapArray.mapAdd, hm₁]
    exact hpush
  · rw [hset, List.length_set, hslots, List.length_append, List.length_replicate]
    split <;> omega

theorem findFrom_eq {slots : List (Option FileMap)} (hslots : Filled slots es)
    (fileAddress : BitVec 64) (left i : Nat) (hi : i + left = es.length) :
    findFrom slots fileAddress left i = .ok (Treplay.mapFind (es.drop i) fileAddress) := by
  induction left generalizing i with
  | zero => rw [List.drop_of_length_le (by omega)]; rfl
  | succ left ih =>
    have hlt : i < es.length := by omega
    rw [findFrom, hslots.get hlt, List.drop_eq_getElem_cons hlt, mapFind_cons]
    dsimp only
    rw [ih (i + 1) (by omega)]
    split <;> rfl

theorem Holds.mapFind (h : m.Holds es) (fileAddress : BitVec 64) :
    m.mapFind fileAddress = .ok (Treplay.mapFind es fileAddress) := by
  have hindex : m.mapIndex.toInt.toNat = es.length := by
    rw [h.index]
    rfl
  rw [MapArray.mapFind, hindex, findFrom_eq h.filled fileAddress _ 0 (Nat.zero_add _),
    List.drop_zero]

end MapArray

def MapOp.added : MapOp → Option FileMap
  | .add fileAddress fd _ _ => some ⟨fileAddress, fd⟩
  | .find _ => none

def MapOp.IsGranted : MapOp → Prop
  | .add _ _ grow node => grow = true ∧ node = true
  | .find _ => True

theorem performList_fst (es : List FileMap) (ops : List MapOp) :
    (performList es ops).1 = es ++ ops.filterMap MapOp.added := by
  induction ops generalizing es with
  | nil => exact (List.append_nil es).symm
  | cons op ops ih =>
    cases op with
    | add fileAddress fd grow node =>
      rw [performList, ih, Treplay.mapAdd, List.append_assoc]
      rfl
    | find fileAddress => exact ih es

theorem MapArray.Holds.perform_ok {m : MapArray} {es : List FileMap} (h : m.Holds es)
    (ops : List MapOp) (hops : ∀ op ∈ ops, op.IsGranted)
    (hlen : es.length + (ops.filterMap MapOp.added).length ≤ 2147483640) :
    ∃ m', m.perform ops = .ok (m', (performList es ops).2) ∧ m'.Holds (performList es ops).1 := by
  induction ops generalizing m es with
  | nil => exact ⟨m, rfl, h⟩
  | cons op ops ih =>
    obtain ⟨hop, hrest⟩ := List.forall_mem_cons.mp hops
    cases op with
    | add fileAddress fd grow node =>
      obtain ⟨rfl, rfl⟩ := hop
      have hcount : ((MapOp.add fileAddress fd true true :: ops).filterMap MapOp.added).length =
          (ops.filterMap MapOp.added).length + 1 := rfl
      obtain ⟨m₁, hm₁, h₁, -⟩ := h.mapAdd (by omega) fileAddress fd
      obtain ⟨m', hm', h'⟩ := ih h₁ hrest (by
        rw [Treplay.mapAdd, List.length_append, List.length_singleton]
        omega)
      exact ⟨m', by rw [MapArray.perform, hm₁]; exact hm', h'⟩
    | find fileAddress =>
      obtain ⟨m', hm', h'⟩ := ih h hrest hlen
      refine ⟨m', ?_, h'⟩
      rw [MapArray.perform, h.mapFind]
      change (m.perform ops >>= fun out => _) = _
      rw [hm']
      rfl

theorem MapArray.Holds.perform_full {m : MapArray} {es : List FileMap} (h : m.Holds es)
    (ops : List MapOp) (hops : ∀ op ∈ ops, op.IsGranted)
    (hlen : 2147483640 < es.length + (ops.filterMap MapOp.added).length) :
    m.perform ops = .error .noMemory := by
  induction ops generalizing m es with
  | nil =>
    have hle := h.filled.length_le
    have hmax := h.slots_length_le
    rw [List.filterMap_nil, List.length_nil] at hlen
    omega
  | cons op ops ih =>
    obtain ⟨hop, hrest⟩ := List.forall_mem_cons.mp hops
    cases op with
    | add fileAddress fd grow node =>
      obtain ⟨rfl, rfl⟩ := hop
      have hcount : ((MapOp.add fileAddress fd true true :: ops).filterMap MapOp.added).length =
          (ops.filterMap MapOp.added).length + 1 := rfl
      by_cases hroom : es.length < 2147483640
      · obtain ⟨m₁, hm₁, h₁, -⟩ := h.mapAdd hroom fileAddress fd
        rw [MapArray.perform, hm₁]
        refine ih h₁ hrest ?_
        rw [Treplay.mapAdd, List.length_append, List.length_singleton]
        omega
      · rw [MapArray.perform, MapArray.mapAdd, h.expand_full (by omega)]
        rfl
    | find fileAddress =>
      rw [MapArray.perform, h.mapFind]
      change (m.perform ops >>= fun out => _) = _
      rw [ih h hrest hlen]
      rfl

/-- Whatever the calls, with their requests for memory granted: up to 2147483640 entries, which is
as far as an `int` counts in tens, the index stays within the slots, growth happens exactly when
they are full and keeps the entries in order, and an address is found at the first entry ever added
for it. The request for more slots than that cannot be granted. -/
theorem map_grows_safely (ops : List MapOp) (hops : ∀ op ∈ ops, op.IsGranted) :
    let added := ops.filterMap MapOp.added
    (added.length ≤ 2147483640 → ∃ out, MapArray.start.perform ops = .ok out ∧
      (out.1.mapIndex.toInt ≤ out.1.mapExpandLimit.toInt ∧
        out.1.mapExpandLimit.toInt = out.1.slots.length) ∧
      (out.1.mapIndex.toInt = added.length ∧ Filled out.1.slots added) ∧
      (∀ fileAddress, out.1.mapFind fileAddress =
        .ok ((added.find? (·.fileAddr = fileAddress)).elim (-1) FileMap.fileD)) ∧
      (added.length < 2147483640 → ∀ fileAddress fd,
        ∃ m, out.1.mapAdd fileAddress fd true true = .ok m ∧
          Filled m.slots (added ++ [⟨fileAddress, fd⟩]) ∧
          (m.slots.length ≠ out.1.slots.length ↔ out.1.mapIndex = out.1.mapExpandLimit))) ∧
    (2147483640 < added.length → MapArray.start.perform ops = .error .noMemory) := by
  intro added
  constructor
  · intro hlen
    obtain ⟨m, hperform, h⟩ := MapArray.start_holds.perform_ok ops hops (by
      rw [List.length_nil, Nat.zero_add]
      exact hlen)
    rw [performList_fst, List.nil_append] at h
    have hle := h.filled.length_le
    refine ⟨_, hperform, ⟨?_, h.limit⟩, ⟨h.index, h.filled⟩, ?_, ?_⟩
    · rw [h.index, h.limit]
      omega
    · intro fileAddress
      rw [h.mapFind, Treplay.mapFind]
      cases added.find? (·.fileAddr = fileAddress) <;> rfl
    · intro hroom fileAddress fd
      obtain ⟨m', hm', hnext, hgrown⟩ := h.mapAdd hroom fileAddress fd
      exact ⟨m', hm', hnext.filled, hgrown.trans h.full_iff.symm⟩
  · intro hlen
    exact MapArray.start_holds.perform_full ops hops (by
      rw [List.length_nil, Nat.zero_add]
      exact hlen)

def elevenOpens : List MapOp :=
  (List.range 11).map (fun n => .add (BitVec.ofNat 64 n) (BitVec.ofNat 32 (n + 3)) true true) ++
    [.find 10, .find 11]

theorem map_grows_safely_elevenOpens :
    ∃ out, MapArray.start.perform elevenOpens = .ok out ∧ out.1.slots.length = 20 ∧
      out.2 = [13, -1] ∧ out.1.mapFind 10 = .ok 13 := by
  have hops : ∀ op ∈ elevenOpens, op.IsGranted := by
    intro op hop
    rcases List.mem_append.mp hop with hadd | hfind
    · obtain ⟨n, -, rfl⟩ := List.mem_map.mp hadd
      exact ⟨rfl, rfl⟩
    · rcases List.mem_pair.mp hfind with rfl | rfl <;> trivial
  obtain ⟨out, hout, -, -, hfind, -⟩ := (map_grows_safely elevenOpens hops).1 (by decide)
  have hrun : (MapArray.start.perform elevenOpens).toOption.map
      (fun out => (out.1.slots.length, out.2)) = some (20, [13, -1]) := by decide +kernel
  rw [hout] at hrun
  obtain ⟨hlength, hfound⟩ := Prod.mk.inj (Option.some.inj hrun)
  exact ⟨out, hout, hlength, hfound, (hfind 10).trans (by decide +kernel)⟩

end TraceFS.Treplay
