import TraceFS.Lib.Bytes

/-! Binary formats as an encoder and a prefix decoder that are inverse to each other,
with the ways of building one from others. -/

universe u v

namespace TraceFS.Lib

structure Codec (α : Type u) where
  enc : α → List Byte
  dec : List Byte → Option (α × List Byte)
  dec_enc : ∀ a rest, dec (enc a ++ rest) = some (a, rest)
  enc_dec : ∀ bs a rest, dec bs = some (a, rest) → bs = enc a ++ rest

namespace Codec

def unit : Codec PUnit where
  enc _ := []
  dec bs := some (⟨⟩, bs)
  dec_enc _ _ := rfl
  enc_dec bs a rest h := by
    obtain ⟨_, rfl⟩ := Prod.mk.inj (Option.some.inj h)
    rfl

def takeExact (n : Nat) (bs : List Byte) : Option (List Byte × List Byte) :=
  if n ≤ bs.length then some (bs.take n, bs.drop n) else none

theorem takeExact_append (bs rest : List Byte) :
    takeExact bs.length (bs ++ rest) = some (bs, rest) := by
  simp [takeExact]

theorem takeExact_inv {n : Nat} {bs pre rest : List Byte}
    (h : takeExact n bs = some (pre, rest)) : bs = pre ++ rest ∧ pre.length = n := by
  unfold takeExact at h
  split at h
  · obtain ⟨rfl, rfl⟩ := Prod.mk.inj (Option.some.inj h)
    exact ⟨(List.take_append_drop n bs).symm, by rwa [List.length_take, Nat.min_eq_left]⟩
  · cases h

def word (w : Nat) (hw : 8 ∣ w) : Codec (BitVec w) where
  enc := le
  dec bs := (takeExact (w / 8) bs).map fun (pre, rest) => (un w pre, rest)
  dec_enc x rest := by
    simp only [← le_length x, takeExact_append, Option.map_some, un_le hw]
  enc_dec bs x rest h := by
    obtain ⟨⟨pre, rest'⟩, htake, heq⟩ := Option.map_eq_some_iff.mp h
    obtain ⟨rfl, rfl⟩ := Prod.mk.inj heq
    obtain ⟨hbs, hlen⟩ := takeExact_inv htake
    rw [le_un hw pre hlen, hbs]

def raw (n : Nat) : Codec {bs : List Byte // bs.length = n} where
  enc bs := bs.val
  dec bs := if h : n ≤ bs.length then some (⟨bs.take n, by simp [h]⟩, bs.drop n) else none
  dec_enc bs rest := by
    obtain ⟨bs, rfl⟩ := bs
    simp
  enc_dec bs pre rest h := by
    split at h
    · obtain ⟨rfl, rfl⟩ := Prod.mk.inj (Option.some.inj h)
      exact (List.take_append_drop n bs).symm
    · cases h

def sigma {β : α → Type v} (c : Codec α) (d : (a : α) → Codec (β a)) : Codec (Sigma β) where
  enc p := c.enc p.1 ++ (d p.1).enc p.2
  dec bs := (c.dec bs).bind fun (a, bs) => ((d a).dec bs).map fun (b, bs) => (⟨a, b⟩, bs)
  dec_enc p rest := by
    obtain ⟨a, b⟩ := p
    rw [List.append_assoc, c.dec_enc, Option.bind_some]
    change Option.map _ ((d a).dec ((d a).enc b ++ rest)) = _
    rw [(d a).dec_enc, Option.map_some]
  enc_dec bs p rest h := by
    obtain ⟨⟨a, bs'⟩, ha, h⟩ := Option.bind_eq_some_iff.mp h
    obtain ⟨⟨b, bs''⟩, hb, heq⟩ := Option.map_eq_some_iff.mp h
    obtain ⟨rfl, rfl⟩ := Prod.mk.inj heq
    rw [c.enc_dec _ _ _ ha, (d a).enc_dec _ _ _ hb, List.append_assoc]

def prod (c : Codec α) (d : Codec β) : Codec (α × β) where
  enc p := c.enc p.1 ++ d.enc p.2
  dec bs := (c.dec bs).bind fun (a, bs) => (d.dec bs).map fun (b, bs) => ((a, b), bs)
  dec_enc p rest := by
    simp only [List.append_assoc, c.dec_enc, Option.bind_some, d.dec_enc, Option.map_some]
  enc_dec bs p rest h := by
    obtain ⟨⟨a, bs'⟩, ha, h⟩ := Option.bind_eq_some_iff.mp h
    obtain ⟨⟨b, bs''⟩, hb, heq⟩ := Option.map_eq_some_iff.mp h
    obtain ⟨rfl, rfl⟩ := Prod.mk.inj heq
    rw [c.enc_dec _ _ _ ha, d.enc_dec _ _ _ hb, List.append_assoc]

@[simp] theorem unit_enc (a : PUnit) : unit.enc a = [] := rfl

@[simp] theorem word_enc (w : Nat) (hw : 8 ∣ w) (x : BitVec w) : (word w hw).enc x = le x := rfl

@[simp] theorem raw_enc (n : Nat) (bs : {bs : List Byte // bs.length = n}) :
    (raw n).enc bs = bs.val := rfl

@[simp] theorem sigma_enc {β : α → Type v} (c : Codec α) (d : (a : α) → Codec (β a))
    (p : Sigma β) : (c.sigma d).enc p = c.enc p.1 ++ (d p.1).enc p.2 := rfl

@[simp] theorem prod_enc (c : Codec α) (d : Codec β) (p : α × β) :
    (c.prod d).enc p = c.enc p.1 ++ d.enc p.2 := rfl

theorem drop_rest (c : Codec α) {bs : List Byte} {i : Nat} {a : α} {rest : List Byte}
    (h : c.dec (bs.drop i) = some (a, rest)) (hi : i ≤ bs.length) :
    bs.drop (bs.length - rest.length) = rest ∧ bs.length - rest.length ≤ bs.length ∧
      bs.length - rest.length = i + (c.enc a).length := by
  have hbs := c.enc_dec _ _ _ h
  have hlen := congrArg List.length hbs
  rw [List.length_drop, List.length_append] at hlen
  have hpos : bs.length - rest.length = i + (c.enc a).length := by omega
  refine ⟨?_, by omega, hpos⟩
  rw [hpos, ← List.drop_drop, hbs, List.drop_left]

theorem torn_ne (c : Codec α) {a : α} {pre post : List Byte} (ha : c.enc a = pre ++ post)
    (hpre : pre ≠ []) (hpost : post ≠ []) (as bs : List α) :
    as.flatMap c.enc ++ pre ≠ bs.flatMap c.enc := by
  induction as generalizing bs with
  | nil =>
    intro h
    cases bs with
    | nil => exact hpre h
    | cons b bs =>
      rw [List.flatMap_nil, List.nil_append, List.flatMap_cons] at h
      have hdec := c.dec_enc a []
      rw [List.append_nil, ha, h, List.append_assoc, c.dec_enc] at hdec
      exact hpost (List.append_eq_nil_iff.mp (Prod.mk.inj (Option.some.inj hdec)).2).2
  | cons a' as ih =>
    intro h
    rw [List.flatMap_cons, List.append_assoc] at h
    cases bs with
    | nil => exact hpre (List.append_eq_nil_iff.mp (List.append_eq_nil_iff.mp h).2).2
    | cons b bs =>
      have hdec := c.dec_enc a' (as.flatMap c.enc ++ pre)
      rw [h, List.flatMap_cons, c.dec_enc] at hdec
      exact ih bs (Prod.mk.inj (Option.some.inj hdec)).2.symm

end Codec

end TraceFS.Lib
