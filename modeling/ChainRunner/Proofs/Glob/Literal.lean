import ChainRunner.Proofs.Glob.Below
import ChainRunner.Proofs.Glob.Expr

/-!
Globs behind a literal directory.

A text without special characters is read as itself, so a glob behind it and a slash matches what
the glob alone matches, below that directory.
-/

namespace ChainRunner.Glob

/-! ### Literal text -/

/-- The characters that are not read as themselves. -/
def special : List Char := ['*', '?', '[', '\x7b', '\x7d', '\\']

lemma Scan.read_literal {c : Char} (hc : c ∉ special) (bs : List (List Token)) (ts : List Token)
    (prev : Option Char) (s : List Char) :
    (⟨[], bs, ts⟩ : Scan).read prev (c :: s) =
      (⟨[], bs, .literal c :: ts⟩ : Scan).read (some c) s := by
  simp only [special, List.mem_cons, List.not_mem_nil, or_false, not_or] at hc
  by_cases hcomma : c = ','
  · subst hcomma
    rw [Scan.read]
    rfl
  · rw [Scan.read] <;> simp_all [Scan.push]

lemma Scan.read_literals {w : List Char} (hw : ∀ c ∈ w, c ∉ special) (bs : List (List Token))
    (ts : List Token) (prev : Option Char) (s : List Char) :
    (⟨[], bs, ts⟩ : Scan).read prev (w ++ '/' :: s) =
      (⟨[], bs, .literal '/' :: ((w.map .literal).reverse ++ ts)⟩ : Scan).read (some '/') s := by
  induction w generalizing ts prev with
  | nil => exact Scan.read_literal (by decide) bs ts prev s
  | cons c w ih =>
    rw [List.cons_append, Scan.read_literal (hw c (by simp)), ih fun d hd => hw d (by simp [hd])]
    simp

lemma utf8_append_inj {c d : Char} {u v : List UInt8} (h : utf8 c ++ u = utf8 d ++ v) :
    c = d ∧ u = v := by
  have hc : c = d := by
    have hu := ByteArray.utf8DecodeChar?_utf8EncodeChar_append (b := u.toByteArray) (c := c)
    have hv := ByteArray.utf8DecodeChar?_utf8EncodeChar_append (b := v.toByteArray) (c := d)
    rw [← List.toByteArray_append] at hu hv
    exact Option.some.inj (hu.symm.trans ((congrArg (·.toByteArray.utf8DecodeChar? 0) h).trans hv))
  subst hc
  exact ⟨rfl, List.append_cancel_left h⟩

/-- A text starts with the bytes of `w` exactly if it starts with `w`. -/
lemma flatMap_utf8_eq_append {p w : List Char} {v : List UInt8} :
    p.flatMap utf8 = w.flatMap utf8 ++ v ↔ ∃ s, p = w ++ s ∧ s.flatMap utf8 = v := by
  constructor
  · intro h
    induction w generalizing p with
    | nil => exact ⟨p, rfl, h⟩
    | cons c w ih =>
      cases p with
      | nil => simp [utf8, String.utf8EncodeChar_ne_nil] at h
      | cons d p =>
        rw [List.flatMap_cons, List.flatMap_cons, List.append_assoc] at h
        obtain ⟨rfl, h'⟩ := utf8_append_inj h
        obtain ⟨s, rfl, hs⟩ := ih h'
        exact ⟨s, rfl, hs⟩
  · rintro ⟨s, rfl, rfl⟩
    rw [List.flatMap_append]

/-! ### What a glob behind a literal directory matches -/

lemma getD_branchExpr? (ts : List Token) :
    (Token.branchExpr? ts).getD .empty = Expr.concat (ts.filterMap Token.expr?) := by
  unfold Token.branchExpr?
  split <;> simp [*]

/-- The texts of a glob's tokens one after the other. -/
def Spells (ts : List Token) (w : List UInt8) : Prop :=
  (Expr.concat (ts.filterMap Token.expr?)).Describes w

lemma spells_append {ts us : List Token} {w : List UInt8} :
    Spells (ts ++ us) w ↔ ∃ u v, w = u ++ v ∧ Spells ts u ∧ Spells us v := by
  rw [Spells, List.filterMap_append, Expr.describes_concat_append]
  rfl

lemma spells_cons {t : Token} {e : Expr} {ts : List Token} {w : List UInt8} (h : t.expr? = some e) :
    Spells (t :: ts) w ↔ ∃ u v, w = u ++ v ∧ e.Describes u ∧ Spells ts v := by
  rw [Spells, List.filterMap_cons_some h, Expr.describes_concat_cons, Expr.describes_seq]
  rfl

lemma spells_literals {dir : List Char} {w : List UInt8} :
    Spells (dir.map .literal) w ↔ w = dir.flatMap utf8 := by
  induction dir generalizing w with
  | nil => simp [Spells]
  | cons c dir ih => simp [spells_cons, Token.expr?, Expr.describes_ofBytes, ih]

lemma describes_exprOf {ts : List Token} {w : List UInt8} :
    (exprOf ts).Describes w ↔ ts = [.leading] ∨ Spells ts w := by
  unfold exprOf
  split
  · simp [anything, ByteClass.all, ByteClass.contains]
  · rename_i h
    simp [getD_branchExpr?, Spells, show ts ≠ [.leading] from h]

@[simp] lemma describes_slash {w : List UInt8} : slash.Describes w ↔ w = utf8 '/' := by
  simp [slash, ByteClass.only, ByteClass.contains, show utf8 '/' = [ByteClass.slash] from rfl]
  grind

@[simp] lemma describes_anything {w : List UInt8} : anything.Describes w := by
  simp [anything, ByteClass.all, ByteClass.contains]

/-- A `**` between slashes is a slash before a leading one. -/
lemma spells_between {ts : List Token} {w : List UInt8} :
    Spells (.between :: ts) w ↔ ∃ v, w = utf8 '/' ++ v ∧ Spells (.leading :: ts) v := by
  simp only [spells_cons (show Token.expr? .between = some _ from rfl),
    spells_cons (show Token.expr? .leading = some _ from rfl), Expr.describes_alt,
    Expr.describes_seq, Expr.describes_empty, describes_slash, describes_anything, true_and]
  constructor
  · rintro ⟨_, v, rfl, rfl | ⟨_, _, rfl, rfl, u, _, rfl, rfl⟩, hv⟩
    · exact ⟨v, rfl, [], v, rfl, .inl (.inl rfl), hv⟩
    · exact ⟨u ++ utf8 '/' ++ v, by simp, _, v, rfl, .inr ⟨u, _, rfl, rfl⟩, hv⟩
  · rintro ⟨_, rfl, _, v, rfl, (rfl | rfl) | ⟨u, _, rfl, rfl⟩, hv⟩
    · exact ⟨_, v, rfl, .inl rfl, hv⟩
    · exact ⟨utf8 '/' ++ utf8 '/', v, by simp, .inr ⟨_, _, rfl, rfl, [], _, rfl, rfl⟩, hv⟩
    · exact ⟨utf8 '/' ++ (u ++ utf8 '/'), v, by simp, .inr ⟨_, _, rfl, rfl, u, _, rfl, rfl⟩, hv⟩

/-- A trailing `**` is a slash before anything. -/
lemma spells_trailing {w : List UInt8} : Spells [.trailing] w ↔ ∃ v, w = utf8 '/' ++ v := by
  simp only [spells_cons (show Token.expr? .trailing = some _ from rfl), Expr.describes_seq,
    describes_slash, describes_anything]
  simp [Spells]

variable {dir : List Char} {ts ts' : List Token} {w : List UInt8}

lemma Scan.Behind.ne_leading {base : List Token} (h : Behind base ts ts') :
    ts'.reverse ≠ [.leading] := by
  cases h <;> simp [List.append_eq_cons_iff]

lemma spells_behind (h : Scan.Behind (dir.map .literal).reverse ts ts') :
    Spells ts'.reverse w ↔ ∃ v, w = (dir ++ ['/']).flatMap utf8 ++ v ∧ Spells ts.reverse v := by
  cases h with
  | slash =>
    simp [spells_append, spells_cons, spells_literals, Token.expr?, Expr.describes_ofBytes]
  | between =>
    simp [spells_append, spells_between, spells_literals]

lemma isMatch_iff {g : Glob} {p : String} :
    g.isMatch p ↔ g.expr.Describes (p.toList.flatMap utf8) := Expr.test_iff

/-- What a glob behind a directory must match. -/
def Extends (dir : List Char) (g g' : Glob) : Prop :=
  ∀ p, g'.isMatch p ↔ ∃ s : String, p.toList = dir ++ '/' :: s.toList ∧ g.isMatch s

lemma extends_of_spells {us us' : List Token}
    (h : ∀ w, (exprOf us').Describes w ↔
      ∃ v, w = (dir ++ ['/']).flatMap utf8 ++ v ∧ (exprOf us).Describes v) :
    Extends dir { tokens := us } { tokens := us' } := by
  intro p
  rw [isMatch_iff, h]
  constructor
  · rintro ⟨v, hp, hv⟩
    obtain ⟨s, hs, rfl⟩ := flatMap_utf8_eq_append.1 hp
    exact ⟨String.ofList s, by simp [hs], isMatch_iff.2 (by simpa using hv)⟩
  · rintro ⟨s, hp, hs⟩
    exact ⟨s.toList.flatMap utf8, by simp [hp], isMatch_iff.1 hs⟩

lemma compile_ofList (w : List Char) : compile (String.ofList w) =
    (({} : Scan).read none w).map fun st => { tokens := st.tokens.reverse } := by
  rw [compile, parse, String.toList_ofList]
  cases ({} : Scan).read none w <;> rfl

/-- **A glob behind a literal directory matches what the glob matches below it**, and is one
whenever the glob is. -/
theorem compile_behind {G : List Char} (hdir : ∀ c ∈ dir, c ∉ special) (hG : ¬ ['/'] <:+ G) :
    match compile (String.ofList G) with
    | .ok g => ∃ g', compile (String.ofList (dir ++ '/' :: G)) = .ok g' ∧ Extends dir g g'
    | .error e => compile (String.ofList (dir ++ '/' :: G)) = .error e := by
  have hmeets : Scan.Meets ((dir.map .literal).reverse) {}
      ⟨[], [], .literal '/' :: ((dir.map .literal).reverse ++ [])⟩ none (some '/') G := by
    refine ⟨?_, .inr ⟨rfl, rfl⟩, fun _ _ => rfl, hG, nofun⟩
    rw [List.append_nil]
    exact .flat (@Scan.Behind.slash _ [] nofun)
  have hagree := hmeets.read
  rw [compile_ofList, compile_ofList, Scan.read_literals hdir]
  revert hagree
  generalize ({} : Scan).read none G = r
  generalize Scan.read _ _ G = r'
  intro hagree
  match r, r', hagree with
  | .error _, .error _, rfl => rfl
  | .ok st, .ok st', hok =>
    refine ⟨_, rfl, extends_of_spells fun w => ?_⟩
    rcases hok with ⟨hne, hb⟩ | ⟨bs, rfl, rfl⟩
    · have hne' : st.tokens.reverse ≠ [.leading] := by simpa
      simp [describes_exprOf, hne', hb.ne_leading, spells_behind hb]
    · have hne : dir.map Token.literal ++ [.trailing] ≠ [.leading] := by
        simp [List.append_eq_cons_iff]
      simp [describes_exprOf, spells_append, spells_literals, spells_trailing, hne]

end ChainRunner.Glob
