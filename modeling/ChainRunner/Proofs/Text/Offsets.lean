import Mathlib.Data.String.Basic

/-!
Texts cut at offsets that count the bytes of their UTF-8 form.

An offset within a character cuts nothing. The offsets at which a character is found never are.
-/

namespace ChainRunner.Text

open String (utf8Len)

/-- The two parts of a text before and from a byte offset, if that is between two characters or at
an end. -/
def cutAt? : List Char → Nat → Option (List Char × List Char)
  | s, 0 => some ([], s)
  | [], _ => none
  | c :: s, n =>
    if c.utf8Size ≤ n then
      (cutAt? s (n - c.utf8Size)).map fun parts => (c :: parts.1, parts.2)
    else none

/-- The text between two byte offsets. -/
def slice? (s : List Char) (i j : Nat) : Option (List Char) := do
  let (before, _) ← cutAt? s j
  let (_, between) ← cutAt? before i
  return between

/-- The byte offset of the first character that satisfies `p`. -/
def findOffset? (p : Char → Bool) : List Char → Option Nat
  | [] => none
  | c :: s => if p c then some 0 else (findOffset? p s).map (· + c.utf8Size)

/-- The byte offset of the last character that satisfies `p`. -/
def findLastOffset? (p : Char → Bool) : List Char → Option Nat
  | [] => none
  | c :: s =>
    match findLastOffset? p s with
    | some n => some (n + c.utf8Size)
    | none => if p c then some 0 else none

variable {s l r : List Char} {c : Char} {n i j : Nat} {p : Char → Bool}

/-- The characters of one byte. -/
lemma toNat_lt_iff : c.toNat < 0x80 ↔ c.utf8Size = 1 := by
  rw [Char.utf8Size_eq_one_iff, UInt32.le_iff_toNat_le]
  exact Nat.lt_succ_iff

/-! ### Cuts -/

lemma cutAt?_cons_add (c : Char) (s : List Char) (n : Nat) : cutAt? (c :: s) (n + c.utf8Size) =
    (cutAt? s n).map fun parts => (c :: parts.1, parts.2) := by
  have hpos := c.utf8Size_pos
  rw [cutAt?, if_pos (Nat.le_add_left ..), Nat.add_sub_cancel]
  exact fun h => by omega

lemma cutAt?_append (l r : List Char) : cutAt? (l ++ r) (utf8Len l) = some (l, r) := by
  induction l with
  | nil => cases r <;> rfl
  | cons c l ih => rw [List.cons_append, String.utf8Len_cons, cutAt?_cons_add, ih]; rfl

lemma cutAt?_eq_some : cutAt? s n = some (l, r) ↔ s = l ++ r ∧ n = utf8Len l := by
  constructor
  · intro h
    induction s generalizing n l r with
    | nil => cases n <;> simp_all [cutAt?]
    | cons c s ih =>
      by_cases hn : n = 0
      · simp_all [cutAt?]
      rw [cutAt?] at h
      · split at h
        · rename_i hle
          obtain ⟨⟨l', r'⟩, hcut, hparts⟩ := Option.map_eq_some_iff.1 h
          obtain ⟨rfl, hlen⟩ := ih hcut
          cases hparts
          exact ⟨rfl, (Nat.sub_eq_iff_eq_add hle).1 hlen⟩
        · cases h
      · exact hn
  · rintro ⟨rfl, rfl⟩
    exact cutAt?_append l r

/-- A text is cut exactly where a character ends. -/
lemma isSome_cutAt? : (cutAt? s n).isSome ↔ String.Pos.Raw.IsValid (String.ofList s) ⟨n⟩ := by
  simp only [Option.isSome_iff_exists, Prod.exists, cutAt?_eq_some,
    String.Pos.Raw.isValid_iff_exists_append]
  constructor
  · rintro ⟨l, r, rfl, rfl⟩
    exact ⟨String.ofList l, String.ofList r, String.ofList_append, (String.rawEndPos_ofList l).symm⟩
  · rintro ⟨l, r, hs, hn⟩
    refine ⟨l.toList, r.toList, by simpa using congrArg String.toList hs, ?_⟩
    rw [← String.ofList_toList (s := l), String.rawEndPos_ofList] at hn
    exact congrArg String.Pos.Raw.byteIdx hn

lemma slice?_eq_some {t : List Char} : slice? s i j = some t ↔
    ∃ l r, s = l ++ t ++ r ∧ i = utf8Len l ∧ j = utf8Len (l ++ t) := by
  simp only [slice?, bind, Option.bind_eq_some_iff, Prod.exists, cutAt?_eq_some, pure,
    Option.some.injEq]
  constructor
  · rintro ⟨_, r, ⟨rfl, hj⟩, l, _, ⟨rfl, hi⟩, rfl⟩
    exact ⟨l, r, rfl, hi, hj⟩
  · rintro ⟨l, r, rfl, hi, hj⟩
    exact ⟨_, r, ⟨rfl, hj⟩, l, t, ⟨rfl, hi⟩, rfl⟩

/-! ### Offsets of characters -/

lemma findOffset?_eq : findOffset? p s =
    if s.any p then some (utf8Len (s.takeWhile (!p ·))) else none := by
  induction s with
  | nil => rfl
  | cons c s ih =>
    rw [findOffset?, ih]
    by_cases hc : p c <;> by_cases hs : s.any p <;> simp [hc, hs]

lemma findLastOffset?_eq_none : findLastOffset? p s = none ↔ ∀ x ∈ s, ¬p x := by
  induction s with
  | nil => simp [findLastOffset?]
  | cons c s ih =>
    rw [List.forall_mem_cons, ← ih, findLastOffset?]
    cases findLastOffset? p s <;> simp

lemma findLastOffset?_append (hc : p c) (hr : ∀ x ∈ r, ¬p x) :
    findLastOffset? p (l ++ c :: r) = some (utf8Len l) := by
  induction l with
  | nil => simp [findLastOffset?, findLastOffset?_eq_none.2 hr, hc]
  | cons d l ih => simp only [List.cons_append, findLastOffset?, ih, String.utf8Len_cons]

end ChainRunner.Text
