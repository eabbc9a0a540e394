import ChainRunner.Proofs.Glob.Literal

/-!
A glob that starts with a literal directory matches below that directory only.

Whatever follows the directory, its slash stays where it is or goes into a `**` that starts with a
slash itself: the tokens of the glob keep resting on those of the directory.
-/

namespace ChainRunner.Glob

namespace Scan

/-- The tokens that start with a slash. -/
def StartsAtSlash (t : Token) : Prop := t = .literal '/' ∨ t = .between ∨ t = .trailing

/-- Tokens, last first, on top of `base` and a token that starts with a slash. -/
def Rests (base ts : List Token) : Prop :=
  ∃ us t, ts = us ++ t :: base ∧ StartsAtSlash t

/-- The tokens of the glob itself rest on `base`, whatever groups are open. -/
inductive Rooted (base : List Token) : Scan → Prop
  | flat {bs ts} (h : Rests base ts) : Rooted base ⟨[], bs, ts⟩
  | nested (os) {bs ts cs us} (h : Rests base ts) : Rooted base ⟨os ++ [(bs, ts)], cs, us⟩

variable {base ts : List Token} {st st' : Scan} {prev : Option Char} {s : List Char} {t : Token}

lemma Rests.cons (h : Rests base ts) (t : Token) : Rests base (t :: ts) := by
  obtain ⟨us, x, rfl, hx⟩ := h
  exact ⟨t :: us, x, rfl, hx⟩

/-- The last token may be replaced by one that starts with a slash. -/
lemma Rests.replace {x : Token} (h : Rests base (x :: ts)) (ht : StartsAtSlash t) :
    Rests base (t :: ts) := by
  obtain ⟨us, y, heq, hy⟩ := h
  cases us with
  | nil => exact ⟨[], t, by rw [(List.cons.inj heq).2]; rfl, ht⟩
  | cons u us => exact ⟨t :: us, y, by rw [(List.cons.inj heq).2]; rfl, hy⟩

namespace Rooted

lemma push (h : Rooted base st) (t : Token) : Rooted base (st.push t) := by
  cases h with
  | flat h => exact .flat (h.cons t)
  | nested os h => exact .nested os h

lemma replaceLast (h : Rooted base st) (ht : StartsAtSlash t) : Rooted base (st.replaceLast t) := by
  cases h with
  | @flat bs ts h =>
    cases ts with
    | nil =>
      obtain ⟨us, x, heq, -⟩ := h
      simp at heq
    | cons x ts =>
      obtain ⟨y, hy, heq⟩ := replaceLast_cons t x
      rw [heq]
      rcases hy with rfl | rfl
      · exact .flat h
      · exact .flat (h.replace ht)
  | @nested os bs ts cs us h =>
    cases us with
    | nil => exact .nested os h
    | cons x us =>
      obtain ⟨y, -, heq⟩ := replaceLast_cons t x
      rw [heq]
      exact .nested os h

lemma openGroup (h : Rooted base st) : Rooted base st.openGroup := by
  cases h with
  | flat h => exact .nested [] h
  | nested os h => exact .nested ((_, _) :: os) h

lemma nextBranch (h : Rooted base st) (hg : st.inGroup) : Rooted base st.nextBranch := by
  cases h with
  | flat => simp [Scan.inGroup] at hg
  | nested os h => exact .nested os h

lemma closeGroup (h : Rooted base st) (hc : st.closeGroup = .ok st') : Rooted base st' := by
  cases h with
  | flat => cases hc
  | nested os h =>
    cases os with
    | nil =>
      obtain rfl := Except.ok.inj hc
      exact .flat (h.cons _)
    | cons o os =>
      obtain rfl := Except.ok.inj hc
      exact .nested os h

lemma readSpan (h : Rooted base st) (prev : Option Char) (s : List Char) :
    Rooted base (st.readSpan prev s).1 := by
  have hplain : Rooted base ((st.push .star).push .star) := (h.push _).push _
  have htrailing : Rooted base (st.replaceLast .trailing) := h.replaceLast (.inr (.inr rfl))
  have hbetween : Rooted base (st.replaceLast .between) := h.replaceLast (.inr (.inl rfl))
  unfold Scan.readSpan
  simp only
  split
  · split
    · exact h.push .leading
    · exact h.push .leading
    · exact hplain
  · split
    · split
      · exact htrailing
      · exact hbetween
      · split
        · exact htrailing
        · exact hplain
    · exact hplain

/-- However a glob goes on, its tokens keep resting on those of the directory. -/
lemma read (h : Rooted base st) (hr : st.read prev s = .ok st') : Rests base st'.tokens := by
  fun_induction Scan.read st prev s with
  | case1 | case6 | case9 | case13 => cases hr
  | case2 st prev hg =>
    obtain rfl := Except.ok.inj hr
    cases h with
    | flat h => exact h
    | nested os h => simp [Scan.inGroup] at hg
  | case3 st prev s ih => exact ih (h.push _) hr
  | case4 st prev s =>
    rename_i ih
    exact ih (h.readSpan prev s) hr
  | case5 st prev s _ ih => exact ih (h.push _) hr
  | case7 st prev s t s' _ _ ih => exact ih (h.push _) hr
  | case8 st prev s ih => exact ih h.openGroup hr
  | case10 st prev s t ht ih => exact ih (h.closeGroup ht) hr
  | case11 st prev s hg ih => exact ih (h.nextBranch hg) hr
  | case12 st prev s _ ih => exact ih (h.push _) hr
  | case14 st prev c s ih => exact ih (h.push _) hr
  | case15 st prev c s _ _ _ _ _ _ _ _ _ ih => exact ih (h.push _) hr

end Rooted

end Scan

variable {dir rest : List Char} {ts : List Token} {w : List UInt8} {t : Token} {g : Glob}
  {p : String}

lemma exists_of_spells_slash (ht : Scan.StartsAtSlash t) (h : Spells (t :: ts) w) :
    ∃ v, w = utf8 '/' ++ v := by
  rcases ht with rfl | rfl | rfl
  · obtain ⟨u, v, rfl, hu, -⟩ := (spells_cons rfl).1 h
    exact ⟨v, by rw [Expr.describes_ofBytes.1 hu]⟩
  · obtain ⟨v, hw, -⟩ := spells_between.1 h
    exact ⟨v, hw⟩
  · obtain ⟨u, v, rfl, hu, -⟩ := (spells_cons rfl).1 h
    obtain ⟨_, u, rfl, hslash, -⟩ := Expr.describes_seq.1 hu
    exact ⟨u ++ v, by rw [describes_slash.1 hslash, List.append_assoc]⟩

/-- **A glob behind a literal directory matches below it only.** -/
theorem prefix_of_isMatch (hdir : ∀ c ∈ dir, c ∉ special)
    (hg : compile (String.ofList (dir ++ '/' :: rest)) = .ok g) (h : g.isMatch p) :
    dir ++ ['/'] <+: p.toList := by
  rw [compile_ofList, Scan.read_literals hdir, List.append_nil] at hg
  cases hr : Scan.read ⟨[], [], .literal '/' :: (dir.map .literal).reverse⟩ (some '/') rest with
  | error e =>
    rw [hr] at hg
    cases hg
  | ok st =>
    rw [hr] at hg
    obtain rfl := Except.ok.inj hg
    -- the directory stays before a token that matches the slash first
    have hrooted : Scan.Rooted (dir.map .literal).reverse
        ⟨[], [], .literal '/' :: (dir.map .literal).reverse⟩ := .flat ⟨[], _, rfl, .inl rfl⟩
    obtain ⟨us, t, hts, ht⟩ := hrooted.read hr
    have hrev : st.tokens.reverse = dir.map .literal ++ t :: us.reverse := by simp [hts]
    rcases describes_exprOf.1 (isMatch_iff.1 h) with hlead | hspells
    · rw [hrev, List.append_eq_singleton_iff] at hlead
      rcases ht with rfl | rfl | rfl <;> simp at hlead
    · rw [hrev] at hspells
      obtain ⟨u, v, hp, hu, hv⟩ := spells_append.1 hspells
      obtain ⟨v, rfl⟩ := exists_of_spells_slash ht hv
      have hbytes : p.toList.flatMap utf8 = (dir ++ ['/']).flatMap utf8 ++ v := by
        rw [hp, spells_literals.1 hu]
        simp
      obtain ⟨s, hs, -⟩ := flatMap_utf8_eq_append.1 hbytes
      exact ⟨s, hs.symm⟩

end ChainRunner.Glob
