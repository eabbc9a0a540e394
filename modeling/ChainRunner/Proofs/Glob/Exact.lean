import Mathlib.Algebra.Ring.Nat
import ChainRunner.Proofs.Glob.Literal

/-!
A glob that matches its own text and nothing else.

Such a glob has no special character: a text that it matches can either be made longer, at a place
that a `*` or `**` covers, or it is no longer than the shortest text, for which every special
character but `?` costs a byte.
-/

namespace ChainRunner.Glob

namespace Expr

/-- A bound on the shortest text, if there is one. -/
def least : Expr → Nat
  | .empty => 0
  | .byte _ => 1
  | .many _ => 0
  | .seq x y => x.least + y.least
  | .alt x y => max x.least y.least

/-- Repetitions take every byte but the slash. -/
def Wide : Expr → Prop
  | .many s => ∀ b ≠ ByteClass.slash, s.contains b
  | .seq x y => x.Wide ∧ y.Wide
  | .alt x y => x.Wide ∧ y.Wide
  | _ => True

/-- Any bytes but slashes may be put in at some place. -/
def Grows (x : Expr) (w : List UInt8) : Prop :=
  ∃ u v, w = u ++ v ∧ ∀ z, ByteClass.slash ∉ z → x.Describes (u ++ z ++ v)

variable {x y : Expr} {w : List UInt8}

lemma grows_or_length_le (hx : x.Wide) (h : x.Describes w) : x.Grows w ∨ w.length ≤ x.least := by
  -- by induction over how `w` is described: where something repeats, the text can grow
  induction h with
  | empty => exact .inr (Nat.le_refl 0)
  | byte _ => exact .inr (Nat.le_refl 1)
  | @many s w hw =>
    refine .inl ⟨[], w, rfl, fun z hz => .many fun b hb => ?_⟩
    rcases List.mem_append.1 hb with hb | hb
    · exact hx b (by rintro rfl; exact hz (by simpa using hb))
    · exact hw b hb
  | @seq x y u v hu hv ihu ihv =>
    rcases ihu hx.1 with ⟨u₁, u₂, rfl, hg⟩ | hlu
    · refine .inl ⟨u₁, u₂ ++ v, by simp, fun z hz => ?_⟩
      have h := Describes.seq (hg z hz) hv
      simpa using h
    · rcases ihv hx.2 with ⟨v₁, v₂, rfl, hg⟩ | hlv
      · refine .inl ⟨u ++ v₁, v₂, by simp, fun z hz => ?_⟩
        have h := Describes.seq hu (hg z hz)
        simpa using h
      · exact .inr (by simpa [least] using Nat.add_le_add hlu hlv)
  | altLeft _ ih =>
    rcases ih hx.1 with ⟨u, v, rfl, hg⟩ | hl
    · exact .inl ⟨u, v, rfl, fun z hz => .altLeft (hg z hz)⟩
    · exact .inr (Nat.le_trans hl (Nat.le_max_left ..))
  | altRight _ ih =>
    rcases ih hx.2 with ⟨u, v, rfl, hg⟩ | hl
    · exact .inl ⟨u, v, rfl, fun z hz => .altRight (hg z hz)⟩
    · exact .inr (Nat.le_trans hl (Nat.le_max_right ..))

lemma least_andThen : (x.andThen y).least = x.least + y.least := by
  unfold andThen
  split
  · simp [*, least]
  · rfl

lemma wide_andThen (hx : x.Wide) (hy : y.Wide) : (x.andThen y).Wide := by
  unfold andThen
  split
  · exact hy
  · exact ⟨hx, hy⟩

lemma least_concat (xs : List Expr) : (concat xs).least = (xs.map least).sum := by
  induction xs with
  | nil => rfl
  | cons x xs ih =>
    rw [concat, List.foldr_cons, least_andThen, List.map_cons, List.sum_cons, ← ih]
    rfl

lemma wide_concat {xs : List Expr} (h : ∀ x ∈ xs, x.Wide) : (concat xs).Wide := by
  induction xs with
  | nil => trivial
  | cons x xs ih => exact wide_andThen (h x (by simp)) (ih fun y hy => h y (by simp [hy]))

lemma least_ofBytes (w : List UInt8) : (ofBytes w).least = w.length := by
  induction w with
  | nil => rfl
  | cons b w ih => rw [ofBytes, least_andThen, ih, least, List.length_cons, Nat.add_comm]

lemma wide_ofBytes (w : List UInt8) : (ofBytes w).Wide := by
  induction w with
  | nil => trivial
  | cons b w ih => exact wide_andThen trivial ih

end Expr

namespace Token

def least (t : Token) : Nat := (t.expr?.map Expr.least).getD 0

def Wide (t : Token) : Prop := ∀ e, t.expr? = some e → e.Wide

/-- The bound for tokens one after the other. -/
def leastAll (ts : List Token) : Nat := (ts.map least).sum

variable {t : Token} {ts us : List Token} {bs : List (List Token)}

@[simp] lemma leastAll_nil : leastAll [] = 0 := rfl

@[simp] lemma leastAll_cons (t : Token) (ts : List Token) :
    leastAll (t :: ts) = t.least + leastAll ts := rfl

@[simp] lemma leastAll_reverse (ts : List Token) : leastAll ts.reverse = leastAll ts := by
  simp [leastAll, List.sum_reverse]

lemma least_concat_filterMap (ts : List Token) :
    (Expr.concat (ts.filterMap expr?)).least = leastAll ts := by
  rw [Expr.least_concat]
  induction ts with
  | nil => rfl
  | cons t ts ih => cases h : t.expr? <;> simp [h, least, ih]

lemma wide_of_expr? {e : Expr} (h : t.expr? = some e) (he : e.Wide) : t.Wide := by
  rintro e' h'
  cases h.symm.trans h'
  exact he

/-- The highest bound of some branches. -/
def leastAny (bs : List (List Token)) : Nat := (bs.map leastAll).foldr max 0

@[simp] lemma leastAny_nil : leastAny [] = 0 := rfl

@[simp] lemma leastAny_cons (b : List Token) (bs : List (List Token)) :
    leastAny (b :: bs) = max (leastAll b) (leastAny bs) := rfl

lemma le_leastAny {b : List Token} (h : b ∈ bs) : leastAll b ≤ leastAny bs := by
  induction bs with
  | nil => cases h
  | cons c bs ih =>
    rcases List.mem_cons.1 h with rfl | h
    · exact Nat.le_max_left ..
    · exact Nat.le_trans (ih h) (Nat.le_max_right ..)

lemma leastAny_le {n : Nat} (h : ∀ b ∈ bs, leastAll b ≤ n) : leastAny bs ≤ n := by
  induction bs with
  | nil => exact Nat.zero_le n
  | cons b bs ih => exact Nat.max_le.2 ⟨h b (by simp), ih fun c hc => h c (by simp [hc])⟩

lemma exists_branch {e : Expr} (h : e ∈ bs.filterMap branchExpr?) :
    ∃ b ∈ bs, e = Expr.concat (b.filterMap expr?) := by
  obtain ⟨b, hb, he⟩ := List.mem_filterMap.1 h
  refine ⟨b, hb, ?_⟩
  unfold branchExpr? at he
  split at he
  · cases he
  · exact (Option.some.inj he).symm

lemma least_foldl_alt {n : Nat} {x : Expr} {xs : List Expr} (hx : x.least ≤ n)
    (h : ∀ y ∈ xs, y.least ≤ n) : (xs.foldl .alt x).least ≤ n := by
  induction xs generalizing x with
  | nil => exact hx
  | cons y ys ih => exact ih (Nat.max_le.2 ⟨hx, h y (by simp)⟩) fun z hz => h z (by simp [hz])

lemma wide_foldl_alt {x : Expr} {xs : List Expr} (hx : x.Wide) (h : ∀ y ∈ xs, y.Wide) :
    (xs.foldl .alt x).Wide := by
  induction xs generalizing x with
  | nil => exact hx
  | cons y ys ih => exact ih ⟨hx, h y (by simp)⟩ fun z hz => h z (by simp [hz])

/-- The token of some branches. -/
lemma ofBranches_spec (bs : List (List Token)) :
    (ofBranches bs).least ≤ leastAny bs ∧
      ((∀ b ∈ bs, ∀ t ∈ b, t.Wide) → (ofBranches bs).Wide) := by
  have hleast {e : Expr} (he : e ∈ bs.filterMap branchExpr?) : e.least ≤ leastAny bs := by
    obtain ⟨b, hb, rfl⟩ := exists_branch he
    rw [least_concat_filterMap]
    exact le_leastAny hb
  have hwide (h : ∀ b ∈ bs, ∀ t ∈ b, t.Wide) {e : Expr} (he : e ∈ bs.filterMap branchExpr?) :
      e.Wide := by
    obtain ⟨b, hb, rfl⟩ := exists_branch he
    refine Expr.wide_concat fun x hx => ?_
    obtain ⟨t, ht, hx⟩ := List.mem_filterMap.1 hx
    exact h b hb t ht x hx
  unfold ofBranches
  split
  · exact ⟨Nat.zero_le _, fun _ => nofun⟩
  · rename_i x xs hbs
    rw [hbs] at hleast hwide
    refine ⟨least_foldl_alt (hleast (by simp)) fun y hy => hleast (by simp [hy]), fun h => ?_⟩
    exact wide_of_expr? rfl (wide_foldl_alt (hwide h (by simp)) fun y hy => hwide h (by simp [hy]))

end Token

lemma wide_anything : Expr.Wide anything := by
  simp [Expr.Wide, anything, ByteClass.contains, ByteClass.all]

lemma exprOf_spec (ts : List Token) : (exprOf ts).least ≤ Token.leastAll ts ∧
    ((∀ t ∈ ts, t.Wide) → (exprOf ts).Wide) := by
  unfold exprOf
  split
  · exact ⟨Nat.zero_le _, fun _ => wide_anything⟩
  · rw [getD_branchExpr?]
    refine ⟨Nat.le_of_eq (Token.least_concat_filterMap ts), fun h => ?_⟩
    refine Expr.wide_concat fun x hx => ?_
    obtain ⟨t, ht, hx⟩ := List.mem_filterMap.1 hx
    exact h t ht x hx

/-! ### How the bounds grow while a glob is read -/

/-- The number of bytes of a text. -/
def size (s : List Char) : Nat := (s.flatMap utf8).length

@[simp] lemma size_nil : size [] = 0 := rfl

@[simp] lemma size_cons (c : Char) (s : List Char) : size (c :: s) = (utf8 c).length + size s := by
  simp [size]

@[simp] lemma size_append (s t : List Char) : size (s ++ t) = size s + size t := by
  simp [size]

lemma utf8_length_pos (c : Char) : 0 < (utf8 c).length :=
  List.length_pos_iff.2 String.utf8EncodeChar_ne_nil

lemma size_lt_cons (c : Char) (s : List Char) : size s < size (c :: s) := by
  rw [size_cons]
  exact Nat.lt_add_of_pos_left (utf8_length_pos c)

lemma size_lt_of_suffix {s s' : List Char} (h : s' <:+ s) (hlen : s'.length < s.length) :
    size s' < size s := by
  obtain ⟨w, rfl⟩ := h
  cases w with
  | nil => simp at hlen
  | cons c w =>
    have := utf8_length_pos c
    rw [List.cons_append, size_cons, size_append]
    omega

/-- A special character other than `?`. -/
def IsMark (c : Char) : Prop := c ∈ special ∧ c ≠ '?'

instance : DecidablePred IsMark := fun _ => inferInstanceAs (Decidable (_ ∧ _))

namespace Scan

open Token

/-- The branches and tokens of the open groups, innermost first, and of the glob itself. -/
def frames (st : Scan) : List (List (List Token) × List Token) :=
  (st.branches, st.tokens) :: st.outer

def frameLeast (f : List (List Token) × List Token) : Nat := max (leastAny f.1) (leastAll f.2)

/-- A bound on the shortest text of what has been read. -/
def least (st : Scan) : Nat := (st.frames.map frameLeast).sum

def Wide (st : Scan) : Prop :=
  ∀ f ∈ st.frames, (∀ b ∈ f.1, ∀ t ∈ b, t.Wide) ∧ ∀ t ∈ f.2, t.Wide

/-- What reading `s` from `st` on adds to the bounds; a mark costs more than it adds. -/
structure Fits (st : Scan) (s : List Char) (r : Scan) : Prop where
  le : r.least ≤ st.least + size s
  lt : (∃ c ∈ s, IsMark c) → r.least < st.least + size s
  wide : st.Wide → r.Wide

variable {st st' r : Scan} {s s' : List Char} {c : Char}

lemma Fits.of_lt (h : Fits st' s' r) (hlt : st'.least + size s' < st.least + size s)
    (hw : st.Wide → st'.Wide) : Fits st s r :=
  ⟨by have := h.le; omega, fun _ => by have := h.le; omega, fun hst => h.wide (hw hst)⟩

lemma Fits.of_le (h : Fits st' s r) (hc : ¬ IsMark c) (hle : st'.least ≤ st.least + (utf8 c).length)
    (hw : st.Wide → st'.Wide) : Fits st (c :: s) r where
  le := by have := h.le; rw [size_cons]; omega
  lt := by
    rintro ⟨d, hd, hm⟩
    rcases List.mem_cons.1 hd with rfl | hd
    · exact absurd hm hc
    · have := h.lt ⟨d, hd, hm⟩
      rw [size_cons]
      omega
  wide hst := h.wide (hw hst)

lemma least_push (st : Scan) (t : Token) : (st.push t).least ≤ st.least + t.least := by
  simp only [least, frames, push, frameLeast, List.map_cons, List.sum_cons, leastAll_cons]
  omega

lemma wide_push {t : Token} (ht : t.Wide) (h : st.Wide) : (st.push t).Wide := by
  simp only [Wide, frames, push, List.forall_mem_cons] at h ⊢
  exact ⟨⟨h.1.1, ht, h.1.2⟩, h.2⟩

lemma least_replaceLast (st : Scan) (t : Token) :
    (st.replaceLast t).least ≤ st.least + t.least := by
  unfold replaceLast
  split
  · omega
  · omega
  · rename_i hts
    simp only [least, frames, frameLeast, List.map_cons, List.sum_cons, hts, leastAll_cons]
    omega
  · exact least_push st t

lemma wide_replaceLast {t : Token} (ht : t.Wide) (h : st.Wide) : (st.replaceLast t).Wide := by
  unfold replaceLast
  split
  · exact h
  · exact h
  · rename_i hts
    simp only [Wide, frames, List.forall_mem_cons, hts] at h ⊢
    exact ⟨⟨h.1.1, ht, h.1.2.2⟩, h.2⟩
  · exact wide_push ht h

lemma wide_of_repeats : Token.star.Wide ∧ Token.leading.Wide ∧ Token.trailing.Wide ∧
    Token.between.Wide := by
  have hstar : Expr.Wide (.many .notSlash) := by
    intro b hb
    simp [ByteClass.contains, ByteClass.notSlash]
    grind
  exact ⟨wide_of_expr? rfl hstar, wide_of_expr? rfl ⟨⟨trivial, trivial⟩, wide_anything, trivial⟩,
    wide_of_expr? rfl ⟨trivial, wide_anything⟩,
    wide_of_expr? rfl ⟨trivial, trivial, wide_anything, trivial⟩⟩

/-- How a `**` may leave the tokens: it adds a byte less than it costs. -/
lemma readSpan_spec (st : Scan) (prev : Option Char) (s : List Char) :
    (st.readSpan prev s).1.least + size (st.readSpan prev s).2 ≤ st.least + 1 + size s ∧
      (st.Wide → (st.readSpan prev s).1.Wide) := by
  obtain ⟨hstar, hlead, htrail, hbetween⟩ := wide_of_repeats
  -- what a `**` becomes takes no more than the two characters and the slash it replaces
  have plain : ((st.push .star).push .star).least ≤ st.least :=
    Nat.le_trans (least_push _ .star) (least_push st .star)
  have plainWide (h : st.Wide) : ((st.push .star).push .star).Wide :=
    wide_push hstar (wide_push hstar h)
  have first : (st.push .leading).least ≤ st.least + 1 := least_push st .leading
  have last : (st.replaceLast .trailing).least ≤ st.least + 1 := least_replaceLast st .trailing
  have amid : (st.replaceLast .between).least ≤ st.least + 2 := least_replaceLast st .between
  have hslash : (utf8 '/').length = 1 := rfl
  unfold readSpan
  simp only
  split
  · split
    · exact ⟨by simpa using first, wide_push hlead⟩
    · exact ⟨by simp only [size_cons]; omega, wide_push hlead⟩
    · exact ⟨by simp only; omega, plainWide⟩
  · split
    · split
      · exact ⟨by simpa using last, wide_replaceLast htrail⟩
      · exact ⟨by simp only [size_cons]; omega, wide_replaceLast hbetween⟩
      · split
        · exact ⟨by simp only; omega, wide_replaceLast htrail⟩
        · exact ⟨by simp only; omega, plainWide⟩
    · exact ⟨by simp only; omega, plainWide⟩

lemma closeGroup_spec (h : st.closeGroup = .ok st') :
    st'.least ≤ st.least ∧ (st.Wide → st'.Wide) := by
  unfold closeGroup at h
  split at h
  · cases h
  · rename_i bs ts os ho
    obtain ⟨hle, hwide⟩ := ofBranches_spec st.nextBranch.branches.reverse
    have hany : leastAny st.nextBranch.branches.reverse ≤ frameLeast (st.branches, st.tokens) := by
      refine leastAny_le fun b hb => ?_
      rcases List.mem_cons.1 (List.mem_reverse.1 hb) with rfl | hb
      · rw [leastAll_reverse]
        exact Nat.le_max_right ..
      · exact Nat.le_trans (le_leastAny hb) (Nat.le_max_left ..)
    obtain rfl := Except.ok.inj h
    constructor
    · simp only [least, frames, ho, List.map_cons, List.sum_cons, frameLeast, leastAll_cons]
        at hany ⊢
      omega
    · intro hst
      simp only [Wide, frames, ho, List.forall_mem_cons] at hst ⊢
      refine ⟨⟨hst.2.1.1, hwide fun b hb => ?_, hst.2.1.2⟩, hst.2.2⟩
      rcases List.mem_cons.1 (List.mem_reverse.1 hb) with rfl | hb
      · simpa using hst.1.2
      · exact hst.1.1 b hb

lemma openGroup_spec (st : Scan) :
    st.openGroup.least = st.least ∧ (st.Wide → st.openGroup.Wide) := by
  constructor
  · simp [least, frames, openGroup, frameLeast]
  · intro h
    simp only [Wide, frames, openGroup, List.forall_mem_cons] at h ⊢
    exact ⟨by simp, h⟩

lemma nextBranch_spec (st : Scan) :
    st.nextBranch.least ≤ st.least ∧ (st.Wide → st.nextBranch.Wide) := by
  constructor
  · simp only [least, frames, nextBranch, frameLeast, List.map_cons, List.sum_cons, leastAny_cons,
      leastAll_reverse, leastAll_nil]
    omega
  · intro h
    simp only [Wide, frames, nextBranch, List.forall_mem_cons] at h ⊢
    exact ⟨⟨⟨by simpa using h.1.2, h.1.1⟩, by simp⟩, h.2⟩

lemma least_literal (c : Char) : (Token.literal c).least = (utf8 c).length :=
  Expr.least_ofBytes _

lemma wide_literal (c : Char) : (Token.literal c).Wide := wide_of_expr? rfl (Expr.wide_ofBytes _)

lemma fits_read {prev : Option Char} (h : st.read prev s = .ok r) : Fits st s r := by
  -- each token takes at least as much of the glob as it demands of a text; marks take more
  fun_induction Scan.read st prev s with
  | case1 => cases h
  | case2 =>
    obtain rfl := Except.ok.inj h
    exact ⟨Nat.le_refl _, by simp, id⟩
  | case3 st prev s ih =>
    exact (ih h).of_le (by decide) (least_push st .any) (wide_push (wide_of_expr? rfl trivial))
  | case4 st prev s =>
    rename_i ih
    have hfits : Fits (st.readSpan prev s).1 (st.readSpan prev s).2 r := ih h
    obtain ⟨hle, hw⟩ := readSpan_spec st prev s
    have := size_lt_cons '*' s
    have := size_lt_cons '*' ('*' :: s)
    exact hfits.of_lt (by omega) hw
  | case5 st prev s hs ih =>
    exact (ih h).of_lt (Nat.add_lt_add_of_le_of_lt (least_push st .star) (size_lt_cons ..))
      (wide_push wide_of_repeats.1)
  | case6 => cases h
  | case7 st prev s t s' ht _ ih =>
    obtain ⟨hs, neg, ranges, rfl⟩ := readClass_spec ht
    have hs : size s' < size s := size_lt_of_suffix hs (length_of_readClass ht)
    have hle : (st.push (.class neg ranges)).least ≤ st.least + 1 := least_push st _
    have := utf8_length_pos '['
    exact (ih h).of_lt (by rw [size_cons]; omega) (wide_push (wide_of_expr? rfl trivial))
  | case8 st prev s ih =>
    obtain ⟨hle, hw⟩ := openGroup_spec st
    exact (ih h).of_lt (by rw [hle]; exact Nat.add_lt_add_left (size_lt_cons ..) _) hw
  | case9 => cases h
  | case10 st prev s t ht ih =>
    obtain ⟨hle, hw⟩ := closeGroup_spec ht
    exact (ih h).of_lt (Nat.add_lt_add_of_le_of_lt hle (size_lt_cons ..)) hw
  | case11 st prev s hg ih =>
    obtain ⟨hle, hw⟩ := nextBranch_spec st
    exact (ih h).of_le (by decide) (Nat.le_add_right_of_le hle) hw
  | case12 st prev s hg ih =>
    exact (ih h).of_le (by decide) (least_push st _) (wide_push (wide_literal _))
  | case13 => cases h
  | case14 st prev c s ih =>
    have hle := least_push st (.literal c)
    have := size_lt_cons '\\' (c :: s)
    rw [least_literal] at hle
    exact (ih h).of_lt (by rw [size_cons] at this; omega) (wide_push (wide_literal c))
  | case15 st prev c s _ _ _ _ _ _ _ _ _ ih =>
    have hle := least_push st (.literal c)
    rw [least_literal] at hle
    refine (ih h).of_le ?_ hle (wide_push (wide_literal c))
    rintro ⟨hc, -⟩
    have hesc : c ≠ '\\' := by
      rintro rfl
      cases s <;> simp_all
    simp_all [special]

end Scan

/-! ### Another text -/

/-- The slash is a byte of no other character. -/
lemma slash_mem_utf8 {c : Char} (h : ByteClass.slash ∈ utf8 c) : c = '/' := by
  have hbyte {n : Nat} (hn : n < 256) (h : ByteClass.slash = UInt8.ofNat n) : n = 47 := by
    have h := congrArg UInt8.toNat h
    rw [UInt8.toNat_ofNat_of_lt' hn] at h
    exact h.symm
  unfold utf8 String.utf8EncodeChar at h
  simp only at h
  split at h
  · have hc : c.toNat ≤ 127 := ‹_›
    exact Char.toNat_inj.1 (hbyte (by omega) (List.mem_singleton.1 h))
  · -- no byte of a longer character is below 128
    split at h
    · simp only [List.mem_cons, List.not_mem_nil, or_false] at h
      rcases h with h | h <;> have := hbyte (by omega) h <;> omega
    · split at h
      · simp only [List.mem_cons, List.not_mem_nil, or_false] at h
        rcases h with h | h | h <;> have := hbyte (by omega) h <;> omega
      · simp only [List.mem_cons, List.not_mem_nil, or_false] at h
        rcases h with h | h | h | h <;> have := hbyte (by omega) h <;> omega

/-- Wherever the bytes of a text are parted, some can be put in that make it another text. -/
lemma exists_longer {T : List Char} {u v : List UInt8} (h : T.flatMap utf8 = u ++ v) :
    ∃ z T', ByteClass.slash ∉ z ∧ T' ≠ T ∧ T'.flatMap utf8 = u ++ z ++ v := by
  induction T generalizing u with
  | nil =>
    obtain ⟨rfl, rfl⟩ := List.append_eq_nil_iff.1 h.symm
    exact ⟨utf8 'z', ['z'], by decide, by simp, by simp⟩
  | cons c T ih =>
    rw [List.flatMap_cons, List.append_eq_append_iff] at h
    rcases h with ⟨u', rfl, h⟩ | ⟨r, hc, rfl⟩
    · obtain ⟨z, T', hz, hne, hT'⟩ := ih h
      exact ⟨z, c :: T', hz, by simpa, by simp [hT']⟩
    · by_cases hslash : c = '/'
      · subst hslash
        rcases List.cons_eq_append_iff.1 (show [ByteClass.slash] = u ++ r from hc) with
          ⟨rfl, rfl⟩ | ⟨u', rfl, hn⟩
        · exact ⟨utf8 'z', 'z' :: '/' :: T, by decide, by simp, by simp; rfl⟩
        · obtain ⟨rfl, rfl⟩ := List.append_eq_nil_iff.1 hn.symm
          exact ⟨utf8 'z', '/' :: 'z' :: T, by decide, by simp, by simp; rfl⟩
      · -- the character once more, from inside
        refine ⟨r ++ u, c :: c :: T, fun hz => hslash (slash_mem_utf8 ?_), by simp, by simp [hc]⟩
        rw [hc]
        grind

/-- The token of a character that is no mark. -/
def plain (c : Char) : Token := if c = '?' then .any else .literal c

lemma Scan.read_plain {w : List Char} (hw : ∀ c ∈ w, ¬ IsMark c) (bs : List (List Token))
    (ts : List Token) (prev : Option Char) :
    (⟨[], bs, ts⟩ : Scan).read prev w = .ok ⟨[], bs, (w.map plain).reverse ++ ts⟩ := by
  induction w generalizing ts prev with
  | nil => rw [Scan.read]; rfl
  | cons c w ih =>
    have hstep : (⟨[], bs, ts⟩ : Scan).read prev (c :: w) =
        (⟨[], bs, plain c :: ts⟩ : Scan).read (some c) w := by
      by_cases hc : c = '?'
      · subst hc
        rw [Scan.read]
        rfl
      · rw [plain, if_neg hc]
        exact Scan.read_literal (fun h => hw c (by simp) ⟨h, hc⟩) bs ts prev w
    rw [hstep, ih fun d hd => hw d (by simp [hd])]
    simp

lemma exprOf_plain {w : List Char} {v : List UInt8} :
    (exprOf (w.map plain)).Describes v ↔ Spells (w.map plain) v := by
  have hne : w.map plain ≠ [.leading] := by
    intro h
    obtain ⟨c, -, hc⟩ := List.mem_map.1 (h ▸ List.mem_singleton_self Token.leading)
    unfold plain at hc
    split at hc <;> cases hc
  simp [describes_exprOf, hne]

/-- **A text without special characters is a glob that matches it and nothing else.** -/
theorem compile_literal {w : List Char} (hw : ∀ c ∈ w, c ∉ special) :
    ∃ g, compile (String.ofList w) = .ok g ∧ ∀ p, g.isMatch p ↔ p = String.ofList w := by
  have hplain : w.map plain = w.map .literal :=
    List.map_congr_left fun c hc => if_neg (by rintro rfl; exact hw _ hc (by decide))
  refine ⟨_, by rw [compile_ofList, Scan.read_plain fun c hc h => hw c hc h.1]; rfl, fun p => ?_⟩
  rw [isMatch_iff]
  simp only [List.append_nil, List.reverse_reverse, exprOf_plain]
  rw [hplain, spells_literals, ← String.toList_inj, String.toList_ofList]
  refine ⟨fun h => ?_, fun h => by rw [h]⟩
  obtain ⟨s, hs, hn⟩ := flatMap_utf8_eq_append.1 (h.trans (List.append_nil _).symm)
  cases s with
  | nil => simpa using hs
  | cons c s => simp [utf8, String.utf8EncodeChar_ne_nil] at hn

/-- A `?` may stand for any one byte but the slash. -/
lemma spells_plain {d : Char} (hd : (Expr.byte .notSlash).Describes (utf8 d)) (w : List Char) :
    Spells (w.map plain) ((w.map fun c => if c = '?' then d else c).flatMap utf8) := by
  induction w with
  | nil => simp [Spells]
  | cons c w ih =>
    by_cases hc : c = '?'
    · subst hc
      exact (spells_cons rfl).2 ⟨_, _, rfl, hd, ih⟩
    · simp only [List.map_cons, plain, if_neg hc]
      exact (spells_cons rfl).2 ⟨_, _, rfl, Expr.describes_ofBytes.2 rfl, ih⟩

/-- **A glob that matches one text only, one no shorter than its own, is that text**, without
special characters. -/
theorem eq_of_exact {T P : List Char} {g : Glob} (hg : compile (String.ofList T) = .ok g)
    (hsize : size T ≤ size P) (h : ∀ p, g.isMatch p ↔ p = String.ofList P) :
    T = P ∧ ∀ c ∈ T, c ∉ special := by
  have only {T' : List Char} (hT' : g.expr.Describes (T'.flatMap utf8)) : T' = P := by
    have := (h (String.ofList T')).1 (isMatch_iff.2 (by rwa [String.toList_ofList]))
    simpa using congrArg String.toList this
  have self : g.expr.Describes (P.flatMap utf8) := by
    simpa using isMatch_iff.1 ((h (String.ofList P)).2 rfl)
  rw [compile_ofList] at hg
  by_cases hm : ∃ c ∈ T, IsMark c
  · -- with a mark the glob demands less than `P` has, so it matches longer texts as well
    exfalso
    obtain ⟨st, hread, rfl⟩ : ∃ st, ({} : Scan).read none T = .ok st ∧
        g = { tokens := st.tokens.reverse } := by
      cases hr : ({} : Scan).read none T with
      | error => rw [hr] at hg; cases hg
      | ok st => rw [hr] at hg; exact ⟨st, rfl, (Except.ok.inj hg).symm⟩
    have hfits := Scan.fits_read hread
    obtain ⟨hle, hwide⟩ := exprOf_spec st.tokens.reverse
    have hlt : (exprOf st.tokens.reverse).least < size P := by
      have hst : Token.leastAll st.tokens ≤ st.least :=
        Nat.le_trans (Nat.le_max_right ..) (Nat.le_add_right ..)
      have hread : st.least < size T := Nat.zero_add (size T) ▸ hfits.lt hm
      rw [Token.leastAll_reverse] at hle
      omega
    have hw : st.Wide := hfits.wide (by simp [Scan.Wide, Scan.frames])
    rcases Expr.grows_or_length_le (hwide (by simpa using (hw _ (.head _)).2)) self with
      ⟨u, v, huv, hgrows⟩ | hlen
    · obtain ⟨z, T', hz, hne, hT'⟩ := exists_longer huv
      exact hne (only (hT' ▸ hgrows z hz))
    · exact absurd hlen (Nat.not_le.2 hlt)
  · -- without marks a `?` stands for any character, so there is none
    rw [Scan.read_plain fun c hc hc' => hm ⟨c, hc, hc'⟩] at hg
    obtain rfl := Except.ok.inj hg
    have hfill (d : Char) (hd : (Expr.byte .notSlash).Describes (utf8 d)) :
        (T.map fun c => if c = '?' then d else c) = P :=
      only (by simpa using exprOf_plain.2 (spells_plain hd T))
    have hself : T = P := by
      refine .trans ?_ (hfill '?' (.byte (by decide)))
      exact (List.map_id' T).symm.trans (List.map_congr_left fun c _ => by grind)
    have hany : '?' ∉ T := by
      rw [hself, ← hfill 'z' (.byte (by decide))]
      grind
    exact ⟨hself, fun c hc hs => hm ⟨c, hc, hs, by rintro rfl; exact hany hc⟩⟩

end ChainRunner.Glob
