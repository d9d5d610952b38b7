import TraceFS.Lib.Bytes

namespace TraceFS.Lib

def strlen : List Byte → Option Nat
  | [] => none
  | b :: bs => if b = 0 then some 0 else (strlen bs).map (· + 1)

def Buffer.set (dest : Buffer n) (i : Nat) (b : Byte) : Buffer n where
  bytes := dest.bytes.set i b
  length_eq := by rw [List.length_set, dest.length_eq]

def strcpyAt (dest : Buffer n) (i : Nat) : List Byte → Option (Buffer n)
  | [] => none
  | b :: src =>
    if i < n then
      if b = 0 then some (dest.set i b) else strcpyAt (dest.set i b) (i + 1) src
    else none

/-- `none` is an access outside one of the arrays. -/
def strcat (dest : Buffer n) (src : List Byte) : Option (Buffer n) :=
  (strlen dest.bytes).bind fun i => strcpyAt dest i src

def HoldsString (bytes s : List Byte) : Prop := 0 ∉ s ∧ ∃ rest, bytes = s ++ 0 :: rest

variable {dest : Buffer n} {src s t : List Byte}

theorem HoldsString.strlen_eq {bytes : List Byte} (h : HoldsString bytes s) :
    strlen bytes = some s.length := by
  obtain ⟨hs, rest, rfl⟩ := h
  induction s with
  | nil => rfl
  | cons b s ih =>
    obtain ⟨hb, hs⟩ := not_or.mp (mt List.mem_cons.mpr hs)
    rw [List.cons_append, strlen, if_neg (Ne.symm hb), ih hs, Option.map_some, List.length_cons]

theorem strcpyAt_eq (h : HoldsString src t) {front back : List Byte}
    (hdest : dest.bytes = front ++ back) :
    (strcpyAt dest front.length src).map Buffer.bytes =
      if t.length < back.length then some (front ++ (t ++ 0 :: back.drop (t.length + 1)))
      else none := by
  obtain ⟨ht, rest, rfl⟩ := h
  have hn := dest.length_eq
  rw [hdest, List.length_append] at hn
  induction t generalizing dest front back with
  | nil =>
    cases back with
    | nil => simp [strcpyAt, ← hn]
    | cons c back => simp [strcpyAt, ← hn, Buffer.set, hdest]
  | cons b t ih =>
    obtain ⟨hb, ht⟩ := not_or.mp (mt List.mem_cons.mpr ht)
    cases back with
    | nil => simp [strcpyAt, ← hn]
    | cons c back =>
      have hset : (dest.set front.length b).bytes = (front ++ [b]) ++ back := by
        change dest.bytes.set front.length b = _
        rw [hdest, List.set_append_right _ _ (Nat.le_refl _), Nat.sub_self,
          List.set_cons_zero, List.append_assoc]
        rfl
      rw [List.length_cons] at hn
      have hnext := ih hset ht (by rw [List.length_append, List.length_singleton]; omega)
      rw [List.length_append, List.length_singleton] at hnext
      rw [List.cons_append, strcpyAt, if_pos (by omega), if_neg (Ne.symm hb), hnext]
      simp

theorem strcat_eq (hd : HoldsString dest.bytes s) (hs : HoldsString src t) :
    (strcat dest src).map Buffer.bytes =
      if s.length + t.length < n then
        some (s ++ t ++ 0 :: dest.bytes.drop (s.length + t.length + 1))
      else none := by
  have hn := dest.length_eq
  rw [strcat, hd.strlen_eq, Option.bind_some]
  obtain ⟨-, rest, hrest⟩ := hd
  have hdrop : dest.bytes.drop (s.length + t.length + 1) = (0 :: rest).drop (t.length + 1) := by
    rw [hrest, Nat.add_assoc, ← List.drop_drop, List.drop_left]
  rw [hrest, List.length_append] at hn
  rw [strcpyAt_eq hs hrest, List.append_assoc, hdrop, ← hn]
  simp only [Nat.add_lt_add_iff_left]

theorem strcat_of_fits (hd : HoldsString dest.bytes s) (hs : HoldsString src t)
    (hfit : s.length + t.length < n) :
    ∃ built, strcat dest src = some built ∧ HoldsString built.bytes (s ++ t) := by
  have heq := strcat_eq hd hs
  rw [if_pos hfit] at heq
  obtain ⟨built, hbuilt, hbytes⟩ := Option.map_eq_some_iff.mp heq
  exact ⟨built, hbuilt, fun h => (List.mem_append.mp h).elim hd.1 hs.1, _, hbytes⟩

theorem strcat_of_not_fits (hd : HoldsString dest.bytes s) (hs : HoldsString src t)
    (hfit : ¬ s.length + t.length < n) : strcat dest src = none := by
  have heq := strcat_eq hd hs
  rw [if_neg hfit] at heq
  exact Option.map_eq_none_iff.mp heq

theorem Buffer.holdsString_empty (dest : Buffer (n + 1)) : HoldsString (dest.set 0 0).bytes [] := by
  obtain ⟨bytes, hlen⟩ := dest
  cases bytes with
  | nil => cases hlen
  | cons b bytes => exact ⟨List.not_mem_nil, bytes, rfl⟩

theorem HoldsString.length_lt (h : HoldsString dest.bytes s) : s.length < n := by
  obtain ⟨-, rest, hrest⟩ := h
  have hn := dest.length_eq
  rw [hrest, List.length_append, List.length_cons] at hn
  omega

end TraceFS.Lib
