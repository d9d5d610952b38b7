import TraceFS.Lib.Numeral
import TraceFS.Trfs.Log

namespace TraceFS.Trctl

open TraceFS.Lib TraceFS.Trfs

variable {P : PageSize}

inductive Request where
  | set (cmd : BitmapIoctl)
  | getOpt (user : Bool)
  deriving DecidableEq

def trfsUnlockedIoctl (sb : SbInfo P) : Request → SbInfo P × Option (BitVec 64)
  | .set cmd => (ioctlBitmap sb cmd, none)
  | .getOpt user => (sb, if user then some sb.trInfo.bitmap else none)

def tolower (b : Byte) : Byte := if 0x41 ≤ b ∧ b ≤ 0x5A then b + 0x20 else b

def strcaseeq (s t : List Byte) : Bool := s.map tolower = t.map tolower

def strspn (s accept : List Byte) : Nat := (s.takeWhile (· ∈ accept)).length

/-- `all` -/
def allText : List Byte := [0x61, 0x6C, 0x6C]

/-- `none` -/
def noneText : List Byte := [0x6E, 0x6F, 0x6E, 0x65]

/-- `0123456789abcdefABCDEF` -/
def hexDigits : List Byte :=
  [0x30, 0x31, 0x32, 0x33, 0x34, 0x35, 0x36, 0x37, 0x38, 0x39,
    0x61, 0x62, 0x63, 0x64, 0x65, 0x66, 0x41, 0x42, 0x43, 0x44, 0x45, 0x46]

/-- A string is its bytes up to the NUL, which is found where there is no more of them. -/
def validateHex (hex : List Byte) : Bool :=
  if hex.length < 3 then false
  else if hex[0]? = some 0x30 ∧ hex[1]? = some 0x78 then
    let hex := hex.drop 2
    hex[strspn hex hexDigits]? = none
  else false

inductive Line where
  | help
  | couldNotOpen (mountPoint : List Byte)
  | bitmap (digits : List Byte)
  | allSet
  | allReset
  | bitmapSet (digits : List Byte)
  | invalidUsage
  | done
  deriving DecidableEq

structure Env where
  opens : List Byte → Bool
  malloc : Bool

/-- A run of `trctl`: what it asked of the file system, which is `sb` afterwards, what it printed,
and what it returned; `none` is a crash. -/
structure Session (P : PageSize) where
  issued : List Request
  sb : SbInfo P
  printed : List Line
  ret : Option Int

/-- `%x` shows the low 32 bits of an argument. -/
def printfX (x : BitVec 64) : List Byte := hexText (x.setWidth 32).toNat

def ask (sb : SbInfo P) (request : Request) (line : Line) : Session P :=
  ⟨[request], (trfsUnlockedIoctl sb request).1, [line, .done], some 0⟩

/-- The arguments are those after the name of the program; what `ioctl` returns is ignored. -/
def main (env : Env) (args : List (List Byte)) (sb : SbInfo P) : Session P :=
  match args with
  | [mountPoint] =>
    if env.opens mountPoint = false then ⟨[], sb, [.couldNotOpen mountPoint, .help], some (-1)⟩
    else
      match (trfsUnlockedIoctl sb (.getOpt env.malloc)).2 with
      | some x => ask sb (.getOpt env.malloc) (.bitmap (printfX x))
      | none => ⟨[.getOpt env.malloc], sb, [], none⟩
  | [arg, mountPoint] =>
    if env.opens mountPoint = false then ⟨[], sb, [.couldNotOpen mountPoint, .help], some (-1)⟩
    else if strcaseeq arg allText then ask sb (.set .setAll) .allSet
    else if strcaseeq arg noneText then ask sb (.set (.setOpt 0)) .allReset
    else if validateHex arg then
      ask sb (.set (.setOpt (strtoul arg))) (.bitmapSet (printfX (strtoul arg)))
    else ⟨[], sb, [.invalidUsage, .help], some (-1)⟩
  | _ => ⟨[], sb, [.help], some (-1)⟩

def IsNumber (arg : List Byte) : Prop :=
  strcaseeq arg allText = false ∧ strcaseeq arg noneText = false

instance (arg : List Byte) : Decidable (IsNumber arg) := inferInstanceAs (Decidable (_ ∧ _))

/-- What `trctl arg mountPoint` and then `trctl mountPoint` should do: a hexadecimal number that
has 64 bits is installed and shown, and anything else is refused. -/
def Exact (env env' : Env) (mountPoint arg : List Byte) (sb : SbInfo P) : Prop :=
  let set := main env [arg, mountPoint] sb
  let get := main env' [mountPoint] set.sb
  ((∃ x, .set (.setOpt x) ∈ set.issued) ↔ ∃ v < 2 ^ 64, HexDenotes arg v) ∧
    (∀ v < 2 ^ 64, HexDenotes arg v →
      set.sb.trInfo.bitmap.toNat = v ∧ .bitmap (hexText v) ∈ get.printed) ∧
    ((¬ ∃ v < 2 ^ 64, HexDenotes arg v) →
      set.issued = [] ∧ set.ret = some (-1) ∧ set.sb.trInfo.bitmap = sb.trInfo.bitmap)

def Shown (env env' : Env) (mountPoint arg : List Byte) : Prop :=
  ∀ v, HexDenotes arg v →
    if v < 2 ^ 64 then
      v < 2 ^ 32 ∧ env.opens mountPoint = true ∧ env'.opens mountPoint = true ∧ env'.malloc = true
    else env.opens mountPoint = false

theorem mem_hexDigits (b : Byte) : b ∈ hexDigits ↔ digitVal b < 16 := by
  revert b
  decide +kernel

theorem getElem?_strspn_eq_none {s accept : List Byte} :
    s[strspn s accept]? = none ↔ ∀ b ∈ s, b ∈ accept := by
  have htake := List.takeWhile_prefix (l := s) (· ∈ accept)
  rw [strspn, List.getElem?_eq_none_iff]
  constructor
  · intro hlen
    have hself := htake.eq_of_length_le hlen
    exact fun b hb => of_decide_eq_true (List.takeWhile_eq_self_iff.mp hself b hb)
  · intro hall
    rw [List.takeWhile_eq_self_iff.mpr fun b hb => decide_eq_true (hall b hb)]

theorem validateHex_cons (x y d : Byte) (ds : List Byte) :
    validateHex (x :: y :: d :: ds) = true ↔
      (x = 0x30 ∧ y = 0x78) ∧ ∀ b ∈ d :: ds, digitVal b < 16 := by
  have hlength : ¬ (x :: y :: d :: ds).length < 3 := by simp
  have hspan : (d :: ds)[strspn (d :: ds) hexDigits]? = none ↔ ∀ b ∈ d :: ds, digitVal b < 16 :=
    getElem?_strspn_eq_none.trans (forall₂_congr fun b _ => mem_hexDigits b)
  rw [validateHex, if_neg hlength, ← hspan]
  simp

theorem validateHex_iff (hex : List Byte) : validateHex hex = true ↔ ∃ v, HexDenotes hex v := by
  constructor
  · intro h
    match hex with
    | [] | [_] | [_, _] => cases h
    | x :: y :: d :: ds =>
      obtain ⟨⟨rfl, rfl⟩, hall⟩ := (validateHex_cons x y d ds).mp h
      exact ⟨_, d :: ds, rfl, List.cons_ne_nil _ _, hall, rfl⟩
  · rintro ⟨v, digits, rfl, hne, hall, -⟩
    obtain ⟨d, ds, rfl⟩ := List.exists_cons_of_ne_nil hne
    exact (validateHex_cons _ _ d ds).mpr ⟨⟨rfl, rfl⟩, hall⟩

theorem printfX_eq_hexText {v : Nat} (h : v < 2 ^ 64) :
    printfX (BitVec.ofNat 64 v) = hexText v ↔ v < 2 ^ 32 := by
  have hlow : ((BitVec.ofNat 64 v).setWidth 32).toNat = v % 2 ^ 32 := by
    rw [BitVec.toNat_setWidth, BitVec.toNat_ofNat, Nat.mod_eq_of_lt h]
  rw [printfX, hlow, hexText_injective.eq_iff]
  omega

variable {env env' : Env} {mountPoint arg : List Byte} {sb : SbInfo P}

theorem main_unopened (h : env.opens mountPoint = false) :
    main env [arg, mountPoint] sb =
      ⟨[], sb, [.couldNotOpen mountPoint, .help], some (-1)⟩ := by
  rw [main, if_pos h]

theorem main_number (sb : SbInfo P) (h : env.opens mountPoint = true) (harg : IsNumber arg) :
    main env [arg, mountPoint] sb =
      if validateHex arg then
        ask sb (.set (.setOpt (strtoul arg))) (.bitmapSet (printfX (strtoul arg)))
      else ⟨[], sb, [.invalidUsage, .help], some (-1)⟩ := by
  simp only [main, h, harg.1, harg.2, Bool.true_eq_false, Bool.false_eq_true, if_false]

theorem main_shows (digits : List Byte) :
    .bitmap digits ∈ (main env [mountPoint] sb).printed ↔
      env.opens mountPoint = true ∧ env.malloc = true ∧ printfX sb.trInfo.bitmap = digits := by
  cases hopens : env.opens mountPoint <;> cases hmalloc : env.malloc <;>
    simp [main, hopens, hmalloc, trfsUnlockedIoctl, ask, eq_comm]

theorem exact_of_refused {lines : List Line}
    (h : main env [arg, mountPoint] sb = ⟨[], sb, lines, some (-1)⟩) :
    Exact env env' mountPoint arg sb ↔ ¬ ∃ v < 2 ^ 64, HexDenotes arg v := by
  rw [Exact, h]
  constructor
  · rintro ⟨hissued, -⟩ hv
    obtain ⟨x, hx⟩ := hissued.mpr hv
    cases hx
  · intro hnone
    refine ⟨iff_of_false (fun ⟨x, hx⟩ => nomatch hx) hnone, ?_, fun _ => ⟨rfl, rfl, rfl⟩⟩
    intro v hlt hv
    exact absurd ⟨v, hlt, hv⟩ hnone

theorem exact_of_accepted {v : Nat} (hv : HexDenotes arg v)
    (h : main env [arg, mountPoint] sb =
      ask sb (.set (.setOpt (strtoul arg))) (.bitmapSet (printfX (strtoul arg)))) :
    Exact env env' mountPoint arg sb ↔
      v < 2 ^ 64 ∧ env'.opens mountPoint = true ∧ env'.malloc = true ∧ v < 2 ^ 32 := by
  have hissued : ∃ x, .set (.setOpt x) ∈ (main env [arg, mountPoint] sb).issued := by
    rw [h]
    exact ⟨_, List.mem_singleton_self _⟩
  have hbitmap : (main env [arg, mountPoint] sb).sb.trInfo.bitmap = strtoul arg := by
    rw [h]
    rfl
  rw [Exact]
  constructor
  · rintro ⟨hiff, hshown, -⟩
    obtain ⟨w, hlt, hw⟩ := hiff.mp hissued
    obtain rfl := hw.unique hv
    obtain ⟨-, hprinted⟩ := hshown w hlt hw
    obtain ⟨hopens, hmalloc, hdigits⟩ := (main_shows _).mp hprinted
    rw [hbitmap, hw.strtoul_eq, if_neg (Nat.not_le.mpr hlt), printfX_eq_hexText hlt] at hdigits
    exact ⟨hlt, hopens, hmalloc, hdigits⟩
  · rintro ⟨hlt, hopens, hmalloc, hlow⟩
    have hval : strtoul arg = BitVec.ofNat 64 v := by
      rw [hv.strtoul_eq, if_neg (Nat.not_le.mpr hlt)]
    refine ⟨iff_of_true hissued ⟨v, hlt, hv⟩, ?_, fun hnone => absurd ⟨v, hlt, hv⟩ hnone⟩
    intro w _ hw
    obtain rfl := hw.unique hv
    rw [main_shows, hbitmap, hval]
    exact ⟨Nat.mod_eq_of_lt hlt, hopens, hmalloc, (printfX_eq_hexText hlt).mpr hlow⟩

/-- `trctl` is exact for the strings that are no hexadecimal numbers, and for the numbers of which
`%x` shows every bit. -/
theorem exact_iff_shown (env env' : Env) (mountPoint arg : List Byte) (sb : SbInfo P)
    (harg : IsNumber arg) :
    Exact env env' mountPoint arg sb ↔ Shown env env' mountPoint arg := by
  cases hopens : env.opens mountPoint with
  | false =>
    rw [exact_of_refused (main_unopened hopens)]
    simp only [Shown, hopens, Bool.false_eq_true, false_and, and_false, if_false_left, and_true,
      not_exists, not_and]
    exact forall_congr' fun v => ⟨fun h hv hlt => h hlt hv, fun h hlt hv => h hv hlt⟩
  | true =>
    have hmain := main_number sb hopens harg
    by_cases hvalid : ∃ v, HexDenotes arg v
    · rw [if_pos ((validateHex_iff arg).mpr hvalid)] at hmain
      obtain ⟨v, hv⟩ := hvalid
      rw [exact_of_accepted hv hmain]
      constructor
      · rintro ⟨hlt, hopens', hmalloc, hlow⟩ w hw
        obtain rfl := hw.unique hv
        rw [if_pos hlt]
        exact ⟨hlow, hopens, hopens', hmalloc⟩
      · intro hshown
        have hv := hshown v hv
        split at hv
        next hlt => exact ⟨hlt, hv.2.2.1, hv.2.2.2, hv.1⟩
        next => cases hopens.symm.trans hv
    · rw [if_neg (mt (validateHex_iff arg).mp hvalid)] at hmain
      rw [exact_of_refused hmain]
      exact iff_of_true (fun ⟨v, _, hv⟩ => hvalid ⟨v, hv⟩) fun v hv => absurd ⟨v, hv⟩ hvalid

def Env.plenty : Env where
  opens _ := true
  malloc := true

theorem exact_iff_shown_byte :
    Exact .plenty .plenty [0x2F] [0x30, 0x78, 0x66, 0x66] (SbInfo.fresh .small) ↔
      Shown .plenty .plenty [0x2F] [0x30, 0x78, 0x66, 0x66] :=
  exact_iff_shown .plenty .plenty [0x2F] [0x30, 0x78, 0x66, 0x66] (SbInfo.fresh .small)
    (by decide)

theorem large_bitmap_shown_as_zero :
    ¬ ∀ arg, IsNumber arg → Exact .plenty .plenty [0x2F] arg (SbInfo.fresh .small) := by
  intro h
  have hexact := h [0x30, 0x78, 0x31, 0x30, 0x30, 0x30, 0x30, 0x30, 0x30, 0x30, 0x30] (by decide)
  have hshown := (hexact.2.1 (2 ^ 32) (by decide)
    ⟨_, rfl, List.cons_ne_nil _ _, by decide, rfl⟩).2
  have hlow := (printfX_eq_hexText (by decide)).mp ((main_shows _).mp hshown).2.2
  exact absurd hlow (by decide)

end TraceFS.Trctl
