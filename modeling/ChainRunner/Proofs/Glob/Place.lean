import Mathlib.Data.List.Basic
import ChainRunner.Glob.Parser

/-!
Which texts are globs, character by character.

Whether a text can be read depends on little of what has been read: how many groups are open, and
within a class where its last range starts. A walk over these places ends outside of every group,
class and escape exactly for the texts that are globs.
-/

namespace ChainRunner.Glob

/-- Where a reader of a glob stands; `depth` groups are open. -/
inductive Place
  | text (depth : Nat)
  /-- Behind a backslash. -/
  | escape (depth : Nat)
  /-- Behind the bracket of a class. -/
  | opened (depth : Nat)
  /-- Behind the bracket and the negation sign. -/
  | negated (depth : Nat)
  /-- Behind members: where the last range starts, and whether a `-` waits for its end. -/
  | members (depth : Nat) (lo : Char) (pending : Bool)
deriving DecidableEq

namespace Place

def next : Place → Char → Option Place
  | .text d, c =>
    if c = '[' then some (.opened d)
    else if c = '\x7b' then some (.text (d + 1))
    else if c = '\x7d' then (if d = 0 then none else some (.text (d - 1)))
    else if c = '\\' then some (.escape d)
    else some (.text d)
  | .escape d, _ => some (.text d)
  | .opened d, c => if c = '!' ∨ c = '^' then some (.negated d) else some (.members d c false)
  | .negated d, c => some (.members d c false)
  | .members d lo pending, c =>
    if c = ']' then some (.text d)
    else if pending then (if c < lo then none else some (.members d lo false))
    else if c = '-' then some (.members d lo true)
    else some (.members d c false)

/-- Where a reader stands behind a text, unless it cannot be read. -/
def walk (p : Place) (s : List Char) : Option Place := s.foldlM next p

variable {p q : Place} {c : Char} {s t : List Char}

@[simp] lemma walk_nil (p : Place) : walk p [] = some p := rfl

@[simp] lemma walk_cons (p : Place) (c : Char) (s : List Char) :
    walk p (c :: s) = (p.next c).bind (walk · s) := rfl

lemma walk_append (p : Place) (s t : List Char) :
    walk p (s ++ t) = (walk p s).bind (walk · t) := List.foldlM_append ..

end Place

/-! ### The reader stays on the walk -/

open Place

/-- What was read of a class is what a walk from `p` passes. -/
def Closes (p : Place) (d : Nat) (s : List Char) : Except SyntaxError (Token × List Char) → Prop
  | .ok r => walk p s = walk (.text d) r.2
  | .error _ => ∀ e, walk p s ≠ some (.text e)

lemma closes_members {neg pending : Bool} {d : Nat} {lo hi : Char} {rs : List (Char × Char)}
    {s : List Char} :
    Closes (.members d lo pending) d s (readMembers neg ⟨false, pending, (lo, hi) :: rs⟩ s) := by
  induction s generalizing pending lo hi rs with
  | nil => simp [readMembers, Closes]
  | cons c s ih =>
    have hstep {q : Place} {r} (h : next (.members d lo pending) c = some q)
        (hr : Closes q d s r) : Closes (.members d lo pending) d (c :: s) r := by
      cases r <;> simpa [Closes, h] using hr
    rw [readMembers, if_neg (by simp)]
    by_cases hc : c = ']'
    · simp [Closes, hc, Place.next]
    rw [if_neg hc]
    cases pending with
    | true =>
      rw [if_pos rfl]
      by_cases hlt : c < lo
      · simp [Closes, hc, hlt, Place.next]
      · simpa [hlt] using hstep (by simp [Place.next, hc, hlt]) ih
    | false =>
      rw [if_neg (by simp)]
      by_cases hd : c = '-'
      · simpa [hd] using hstep (by simp [Place.next, hd]) ih
      · simpa [hd] using hstep (by simp [Place.next, hc, hd]) ih

lemma closes_first {neg : Bool} {d : Nat} {s : List Char} :
    Closes (.negated d) d s (readMembers neg {} s) := by
  cases s with
  | nil => simp [readMembers, Closes]
  | cons c s =>
    have h : Closes (.members d c false) d s (readMembers neg ⟨false, false, [(c, c)]⟩ s) :=
      closes_members
    rw [readMembers, if_pos rfl]
    revert h
    cases readMembers neg ⟨false, false, [(c, c)]⟩ s <;> exact id

lemma closes_class {d : Nat} {s : List Char} : Closes (.opened d) d s (readClass s) := by
  have hsign {c : Char} {s : List Char} {r} (hc : c = '!' ∨ c = '^')
      (h : Closes (.negated d) d s r) : Closes (.opened d) d (c :: s) r := by
    cases r <;> simpa [Closes, Place.next, hc] using h
  cases s with
  | nil => simp [readClass, readMembers, Closes]
  | cons c s =>
    by_cases hbang : c = '!'
    · subst hbang
      exact hsign (.inl rfl) closes_first
    by_cases hcaret : c = '^'
    · subst hcaret
      exact hsign (.inr rfl) closes_first
    have hread : readClass (c :: s) = readMembers false {} (c :: s) := by
      unfold readClass
      split <;> simp_all
    have hwalk : walk (.opened d) (c :: s) = walk (.negated d) (c :: s) := by
      simp [Place.next, hbang, hcaret]
    have h : Closes (.negated d) d (c :: s) (readMembers false {} (c :: s)) := closes_first
    rw [hread]
    revert h
    cases readMembers false {} (c :: s) <;> simp only [Closes, hwalk] <;> exact id

lemma outer_replaceLast (st : Scan) (t : Token) : (st.replaceLast t).outer = st.outer := by
  unfold Scan.replaceLast
  split <;> rfl

lemma walk_of_readSpan (st : Scan) (prev : Option Char) (s : List Char) :
    (st.readSpan prev s).1.outer = st.outer ∧
      ∀ d, walk (.text d) (st.readSpan prev s).2 = walk (.text d) s := by
  unfold Scan.readSpan
  simp only
  split
  · split <;> simp [Scan.push, Place.next]
  · split
    · split
      · simp [outer_replaceLast]
      · simp [outer_replaceLast, Place.next]
      · split <;> simp [outer_replaceLast, Scan.push]
    · simp [Scan.push]

lemma exists_read_iff (st : Scan) (prev : Option Char) (s : List Char) :
    (∃ r, st.read prev s = .ok r) ↔ walk (.text st.outer.length) s = some (.text 0) := by
  -- the place outside of classes is the depth of the groups, which every case changes alike
  fun_induction Scan.read st prev s with
  | case1 st prev hg =>
    simp [Scan.inGroup] at hg
    simp [hg]
  | case2 st prev hg =>
    simp [Scan.inGroup] at hg
    simp [hg]
  | case3 st prev s ih => simpa [Scan.push, Place.next] using ih
  | case4 st prev s =>
    rename_i r _ ih
    obtain ⟨ho, hw⟩ := walk_of_readSpan st prev s
    have hr : r = st.readSpan prev s := rfl
    rw [← hr] at ho hw
    simpa [ho, hw, Place.next] using ih
  | case5 st prev s _ ih => simpa [Scan.push, Place.next] using ih
  | case6 st prev s e he =>
    -- a class that is not closed leaves the place within it
    have h : ∀ e, _ := he ▸ closes_class (d := st.outer.length) (s := s)
    simpa [Place.next] using h 0
  | case7 st prev s t s' ht _ ih =>
    have h : walk _ s = _ := ht ▸ closes_class (d := st.outer.length) (s := s)
    simpa [Place.next, h, Scan.push] using ih
  | case8 st prev s ih => simpa [Scan.openGroup, Place.next] using ih
  | case9 st prev s e he =>
    have ho : st.outer = [] := by
      revert he
      unfold Scan.closeGroup
      split <;> simp_all
    simp [Place.next, ho]
  | case10 st prev s t ht ih =>
    have ho : st.outer.length = t.outer.length + 1 := by
      revert ht
      unfold Scan.closeGroup
      split
      · nofun
      · rintro ⟨⟩
        simp [*]
    simpa [Place.next, ho] using ih
  | case11 st prev s _ ih => simpa [Scan.nextBranch, Place.next] using ih
  | case12 st prev s _ ih => simpa [Scan.push, Place.next] using ih
  | case13 st prev => simp [Place.next]
  | case14 st prev c s ih => simpa [Scan.push, Place.next] using ih
  | case15 st prev c s _ _ _ h₁ h₂ h₃ _ h₄ h₅ ih =>
    have hesc : c ≠ '\\' := by
      rintro rfl
      cases s with
      | nil => exact h₄ rfl rfl
      | cons d s => exact h₅ d s rfl rfl
    have hstep : next (.text st.outer.length) c = some (.text st.outer.length) := by
      simp only [Place.next, show c ≠ '[' from h₁, show c ≠ '\x7b' from h₂,
        show c ≠ '\x7d' from h₃, hesc, if_false]
    simpa [Scan.push, hstep] using ih

/-- A text that can be read as a glob. -/
def IsGlob (s : List Char) : Prop := ∃ g, compile (String.ofList s) = .ok g

/-- **The walk decides which texts are globs.** -/
theorem isGlob_iff {s : List Char} : IsGlob s ↔ walk (.text 0) s = some (.text 0) := by
  refine Iff.trans ?_ (exists_read_iff {} none s)
  unfold IsGlob compile parse
  rw [String.toList_ofList]
  cases Scan.read {} none s <;> simp [Except.map]

instance (s : List Char) : Decidable (IsGlob s) := decidable_of_iff _ isGlob_iff.symm

end ChainRunner.Glob
