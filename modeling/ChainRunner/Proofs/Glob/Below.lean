import ChainRunner.Proofs.Glob.Place

/-!
Reading a glob that stands behind a slash.

The tokens of what comes first stay below those of the glob, and the slash between the two is one
of them until a `**` at the start of the glob takes it along: a leading `**` becomes one between
slashes, or a trailing one when nothing follows.
-/

namespace ChainRunner.Glob

lemma suffix_of_readMembers {negated : Bool} {st : ClassScan} {s : List Char}
    {t : Token × List Char} (h : readMembers negated st s = .ok t) : t.2 <:+ s := by
  fun_induction readMembers negated st s <;> grind

lemma class_of_readMembers {negated : Bool} {st : ClassScan} {s : List Char}
    {t : Token × List Char} (h : readMembers negated st s = .ok t) :
    ∃ neg ranges, t.1 = .class neg ranges := by
  fun_induction readMembers negated st s <;> grind

lemma readClass_spec {s : List Char} {t : Token × List Char} (h : readClass s = .ok t) :
    t.2 <:+ s ∧ ∃ neg ranges, t.1 = .class neg ranges := by
  unfold readClass at h
  split at h <;>
    exact ⟨by simp [List.suffix_cons_iff, suffix_of_readMembers h], class_of_readMembers h⟩

namespace Scan

/-- What the tokens of a glob, last first, become behind a slash that has the tokens `base`
before it. -/
inductive Behind (base : List Token) : List Token → List Token → Prop
  | slash {ts} (h : ts.getLast? ≠ some .leading) : Behind base ts (ts ++ .literal '/' :: base)
  | between (ts) : Behind base (ts ++ [.leading]) (ts ++ .between :: base)

variable {base ts ts' : List Token} {st st' : Scan} {prev prev' : Option Char} {s : List Char}

lemma Behind.cons {t : Token} (h : Behind base ts ts') (ht : t ≠ .leading) :
    Behind base (t :: ts) (t :: ts') := by
  cases h with
  | slash h => exact .slash (by cases ts <;> simp_all [List.getLast?_cons_cons])
  | between => exact .between (t :: _)

/-- Two scans that differ in the tokens of the glob itself only, as `Behind` says. -/
inductive Below (base : List Token) : Scan → Scan → Prop
  | flat {bs ts ts'} (h : Behind base ts ts') : Below base ⟨[], bs, ts⟩ ⟨[], bs, ts'⟩
  | nested (os) {bs ts ts' cs us} (h : Behind base ts ts') :
    Below base ⟨os ++ [(bs, ts)], cs, us⟩ ⟨os ++ [(bs, ts')], cs, us⟩

namespace Below

lemma inGroup (h : Below base st st') : st'.inGroup = st.inGroup := by
  cases h with
  | flat => rfl
  | @nested os => cases os <;> rfl

lemma tokens_ne (h : Below base st st') (ht : st.tokens ≠ []) : st'.tokens ≠ [] := by
  cases h with
  | flat h => cases h <;> simp
  | nested => exact ht

lemma push {t : Token} (h : Below base st st') (ht : t ≠ .leading) :
    Below base (st.push t) (st'.push t) := by
  cases h with
  | flat h => exact .flat (h.cons ht)
  | nested _ h => exact .nested _ h

lemma openGroup (h : Below base st st') : Below base st.openGroup st'.openGroup := by
  cases h with
  | flat h => exact .nested [] h
  | nested _ h => exact .nested ((_, _) :: _) h

lemma nextBranch (h : Below base st st') (hg : st.inGroup) :
    Below base st.nextBranch st'.nextBranch := by
  cases h with
  | flat h => simp [Scan.inGroup] at hg
  | nested _ h => exact .nested _ h

lemma ofBranches_eq (bs : List (List Token)) : ∃ e, Token.ofBranches bs = .group e := by
  unfold Token.ofBranches
  split <;> exact ⟨_, rfl⟩

lemma closeGroup (h : Below base st st') :
    (∃ e, st.closeGroup = .error e ∧ st'.closeGroup = .error e) ∨
      ∃ t t', st.closeGroup = .ok t ∧ st'.closeGroup = .ok t' ∧ Below base t t' ∧
        ∃ g us, t.tokens = .group g :: us := by
  cases h with
  | flat h => exact .inl ⟨_, rfl, rfl⟩
  | @nested os bs ts ts' cs us h =>
    obtain ⟨e, he⟩ := ofBranches_eq (us.reverse :: cs).reverse
    cases os with
    | nil =>
      refine .inr ⟨_, _, rfl, rfl, .flat (h.cons ?_), e, ts, congrArg (· :: ts) he⟩
      exact fun hl => by cases he.symm.trans hl
    | cons o os => exact .inr ⟨_, _, rfl, rfl, .nested _ h, e, o.2, congrArg (· :: o.2) he⟩

end Below

/-- The glob is a leading `**` alone, which has become a trailing one. -/
def AtEnd (base : List Token) (st st' : Scan) : Prop :=
  ∃ bs, st = ⟨[], bs, [.leading]⟩ ∧ st' = ⟨[], bs, .trailing :: base⟩

/-- The last token is kept or replaced whatever stands below it. -/
lemma replaceLast_cons (t x : Token) :
    ∃ y, (y = x ∨ y = t) ∧
      ∀ os bs us, (⟨os, bs, x :: us⟩ : Scan).replaceLast t = ⟨os, bs, y :: us⟩ := by
  cases x with
  | leading => exact ⟨_, .inl rfl, fun _ _ _ => rfl⟩
  | trailing => exact ⟨_, .inl rfl, fun _ _ _ => rfl⟩
  | _ => exact ⟨t, .inr rfl, fun _ _ _ => rfl⟩

lemma getLast?_cons_ne {x y t : Token} {ts : List Token} (h : (x :: ts).getLast? ≠ some t)
    (hy : y = x ∨ y ≠ t) : (y :: ts).getLast? ≠ some t := by
  cases ts <;> simp_all [List.getLast?_cons_cons]
  grind

lemma Below.replaceLast {t : Token} (h : Below base st st') (ht : t = .between ∨ t = .trailing)
    (hne : st.outer = [] → st.tokens ≠ []) :
    (Below base (st.replaceLast t) (st'.replaceLast t) ∧ ((st.replaceLast t).outer = [] →
        (st.replaceLast t).tokens ≠ [] ∧
          (t = .trailing → (st.replaceLast t).tokens ≠ [.leading]))) ∨
      t = .trailing ∧ st.outer = [] ∧ AtEnd base (st.replaceLast t) (st'.replaceLast t) := by
  have hl : t ≠ .leading := by rcases ht with rfl | rfl <;> simp
  cases h with
  | @flat bs ts ts' h =>
    cases h with
    | slash h =>
      -- the last token is one of the glob, and not the slash of the directory
      obtain _ | ⟨x, ts⟩ := ts
      · simp at hne
      · obtain ⟨y, hy, heq⟩ := replaceLast_cons t x
        rw [List.cons_append, heq, heq]
        have hlast : (y :: ts).getLast? ≠ some .leading := getLast?_cons_ne h (by grind)
        refine .inl ⟨.flat (.slash hlast), fun _ => ⟨by simp, fun _ hall => ?_⟩⟩
        exact hlast (congrArg List.getLast? hall)
    | @between ts =>
      -- without tokens of the glob it is the `**` that has taken that slash along
      obtain _ | ⟨x, ts⟩ := ts
      · rcases ht with rfl | rfl
        · exact .inl ⟨.flat (.between []), fun _ => ⟨nofun, nofun⟩⟩
        · exact .inr ⟨rfl, rfl, bs, rfl, rfl⟩
      · obtain ⟨y, hy, heq⟩ := replaceLast_cons t x
        rw [List.cons_append, List.cons_append, heq, heq]
        exact .inl ⟨.flat (.between (y :: ts)), fun _ => by simp⟩
  | @nested os bs ts ts' cs us h =>
    obtain _ | ⟨x, us⟩ := us
    · exact .inl ⟨.nested _ h, fun ho => by simp [Scan.replaceLast, Scan.push] at ho⟩
    · obtain ⟨y, hy, heq⟩ := replaceLast_cons t x
      rw [heq, heq]
      exact .inl ⟨.nested _ h, by simp⟩

/-- A `**` at the start of a branch. -/
lemma readSpan_first (h : st.tokens = []) : st.readSpan prev s =
    match s with
    | [] => (st.push .leading, [])
    | '/' :: s => (st.push .leading, s)
    | _ => ((st.push .star).push .star, s) := by
  unfold Scan.readSpan
  exact if_pos h

/-- A `**` behind a slash, or what counts as one. -/
lemma readSpan_behind (h : st.tokens ≠ [])
    (hp : prev = some '/' ∨ st.inGroup ∧ (prev = some ',' ∨ prev = some '\x7b')) :
    st.readSpan prev s =
      match s with
      | [] => (st.replaceLast .trailing, [])
      | '/' :: s => (st.replaceLast .between, s)
      | c :: _ =>
        if st.inGroup ∧ (c = ',' ∨ c = '\x7d') then (st.replaceLast .trailing, s)
        else ((st.push .star).push .star, s) := by
  unfold Scan.readSpan
  exact (if_neg h).trans (if_pos hp)

/-- A `**` elsewhere. -/
lemma readSpan_within (h : st.tokens ≠ [])
    (hp : ¬ (prev = some '/' ∨ st.inGroup ∧ (prev = some ',' ∨ prev = some '\x7b'))) :
    st.readSpan prev s = ((st.push .star).push .star, s) := by
  unfold Scan.readSpan
  exact (if_neg h).trans (if_neg hp)

/-- The two scans go on with the same text, behind the characters `prev` and `prev'`. -/
structure Meets (base : List Token) (st st' : Scan) (prev prev' : Option Char) (s : List Char) :
    Prop where
  below : Below base st st'
  prev_eq : prev' = prev ∨ st.outer = [] ∧ st.tokens = []
  start : st.outer = [] → st.tokens = [] → prev' = some '/'
  ends : ¬ ['/'] <:+ s
  /-- The `**` that the glob starts with is not all of it. -/
  more : st.outer = [] → st.tokens = [.leading] → s ≠ []

namespace Meets

variable {p : Option Char} {c : Char} {s' : List Char}

lemma intro (h : Below base st st') (hs : ¬ ['/'] <:+ s)
    (ht : st.outer = [] → st.tokens ≠ [] ∧ st.tokens ≠ [.leading]) : Meets base st st' p p s where
  below := h
  prev_eq := .inl rfl
  start ho hn := absurd hn (ht ho).1
  ends := hs
  more ho hn := absurd hn (ht ho).2

lemma push {t : Token} (h : Meets base st st' prev prev' s) (ht : t ≠ .leading) (hs : s' <:+ s) :
    Meets base (st.push t) (st'.push t) p p s' :=
  intro (h.below.push ht) (fun h' => h.ends (h'.trans hs))
    (fun _ => ⟨by simp [Scan.push], by simp [Scan.push, ht]⟩)

lemma openGroup (h : Meets base st st' prev prev' (c :: s)) :
    Meets base st.openGroup st'.openGroup p p s :=
  intro h.below.openGroup (fun h' => h.ends (h'.trans (List.suffix_cons ..)))
    (by simp [Scan.openGroup])

lemma nextBranch (h : Meets base st st' prev prev' (c :: s)) (hg : st.inGroup) :
    Meets base st.nextBranch st'.nextBranch p p s :=
  intro (h.below.nextBranch hg) (fun h' => h.ends (h'.trans (List.suffix_cons ..)))
    (fun ho => by simp [Scan.inGroup, Scan.nextBranch] at hg ho; exact absurd ho hg)

/-- How the reading of a `**` leaves the two scans. -/
def Spans (base : List Token) (r r' : Scan × List Char) : Prop :=
  r'.2 = r.2 ∧ ((∀ p, Meets base r.1 r'.1 p p r.2) ∨ r.2 = [] ∧ AtEnd base r.1 r'.1)

lemma spans_plain (h : Meets base st st' prev prev' ('*' :: '*' :: s)) :
    Spans base ((st.push .star).push .star, s) ((st'.push .star).push .star, s) :=
  have hstar : Meets base (st.push .star) (st'.push .star) none none ('*' :: s) :=
    h.push (by simp) (List.suffix_cons ..)
  ⟨rfl, .inl fun _ => hstar.push (by simp) (List.suffix_cons ..)⟩

lemma Spans.of_below {r r' : Scan} (h : Below base r r') (hs : ¬ ['/'] <:+ s)
    (hr : r.outer = [] → r.tokens ≠ [] ∧ (r.tokens = [.leading] → s ≠ [])) :
    Spans base (r, s) (r', s) :=
  ⟨rfl, .inl fun _ => ⟨h, .inl rfl, fun ho ht => absurd ht (hr ho).1, hs, fun ho => (hr ho).2⟩⟩

/-- A `**` at the start of the glob takes the slash before it along. -/
lemma spans_start (h : Meets base st st' prev prev' ('*' :: '*' :: s)) (ho : st.outer = [])
    (ht : st.tokens = []) : Spans base (st.readSpan prev s) (st'.readSpan prev' s) := by
  obtain rfl := h.start ho ht
  have hp := h.spans_plain
  have ends := h.ends
  cases h.below with
  | nested => simp at ho
  | @flat bs _ _ hb =>
    cases hb with
    | between => simp at ht
    | slash =>
      subst ht
      rw [readSpan_first rfl, readSpan_behind (by simp) (.inl rfl)]
      split
      · exact ⟨rfl, .inr ⟨rfl, bs, rfl, rfl⟩⟩
      · refine .of_below (.flat (.between []))
          (fun h' => ends (h'.trans ⟨['*', '*', '/'], rfl⟩))
          fun _ => ⟨nofun, ?_⟩
        rintro - rfl
        exact ends ⟨['*', '*'], rfl⟩
      · rename_i hnil hslash
        split
        · exact absurd rfl hnil
        · exact absurd rfl (hslash _)
        · simpa [Scan.inGroup] using hp

lemma readSpan (h : Meets base st st' prev prev' ('*' :: '*' :: s)) :
    Spans base (st.readSpan prev s) (st'.readSpan prev' s) := by
  by_cases hstart : st.outer = [] ∧ st.tokens = []
  · exact h.spans_start hstart.1 hstart.2
  obtain rfl := h.prev_eq.resolve_right hstart
  have hp := h.spans_plain
  have ends := h.ends
  by_cases ht : st.tokens = []
  · cases h.below with
    | flat => exact absurd ⟨rfl, ht⟩ hstart
    | nested _ hb =>
      subst ht
      rw [readSpan_first rfl, readSpan_first rfl]
      split
      · exact .of_below (.nested _ hb) (by simp) (by simp [Scan.push])
      · exact .of_below (.nested _ hb) (fun h' => ends (h'.trans ⟨['*', '*', '/'], rfl⟩))
          (by simp [Scan.push])
      · exact hp
  · have hne : st.outer = [] → st.tokens ≠ [] := fun _ => ht
    have ht' : st'.tokens ≠ [] := h.below.tokens_ne ht
    have hg := h.below.inGroup
    by_cases hb : prev' = some '/' ∨ st.inGroup ∧ (prev' = some ',' ∨ prev' = some '\x7b')
    · rw [readSpan_behind ht hb, readSpan_behind ht' (by rwa [hg]), hg]
      split
      · rcases h.below.replaceLast (t := .trailing) (.inr rfl) hne with ⟨h', hr⟩ | ⟨-, -, h'⟩
        · exact .of_below h' (by simp) fun ho => ⟨(hr ho).1, fun hl => absurd hl ((hr ho).2 rfl)⟩
        · exact ⟨rfl, .inr ⟨rfl, h'⟩⟩
      · rcases h.below.replaceLast (t := .between) (.inl rfl) hne with ⟨h', hr⟩ | ⟨h', -, -⟩
        · refine .of_below h' (fun h' => ends (h'.trans ⟨['*', '*', '/'], rfl⟩))
            fun ho => ⟨(hr ho).1, ?_⟩
          rintro - rfl
          exact ends ⟨['*', '*'], rfl⟩
        · cases h'
      · split
        · rename_i hc
          rcases h.below.replaceLast (t := .trailing) (.inr rfl) hne with ⟨h', hr⟩ | ⟨-, ho, -⟩
          · exact .of_below h' (fun h' => ends (h'.trans ⟨['*', '*'], rfl⟩))
              fun ho => ⟨(hr ho).1, fun hl => absurd hl ((hr ho).2 rfl)⟩
          · simp [Scan.inGroup, ho] at hc
        · exact hp
    · rw [readSpan_within ht hb, readSpan_within ht' (by rwa [hg])]
      exact hp

end Meets

/-- The glob was read behind the slash as it reads alone. -/
def Agree (base : List Token) : Except SyntaxError Scan → Except SyntaxError Scan → Prop
  | .ok st, .ok st' =>
    st.tokens ≠ [.leading] ∧ Behind base st.tokens st'.tokens ∨ AtEnd base st st'
  | .error e, .error e' => e = e'
  | _, _ => False

lemma Agree.atEnd {p p' : Option Char} (h : AtEnd base st st') :
    Agree base (st.read p []) (st'.read p' []) := by
  obtain ⟨bs, rfl, rfl⟩ := h
  rw [Scan.read, Scan.read]
  exact .inr ⟨bs, rfl, rfl⟩

lemma Meets.read (h : Meets base st st' prev prev' s) :
    Agree base (st.read prev s) (st'.read prev' s) := by
  -- what was read so far meets in every case; only a `**` may end both readings at once
  fun_induction Scan.read st prev s generalizing st' prev' with
  | case1 st prev hg =>
    rw [Scan.read, if_pos (h.below.inGroup.trans hg)]
    rfl
  | case2 st prev hg =>
    rw [Scan.read, if_neg (by rwa [h.below.inGroup])]
    have hmore := h.more
    cases h.below with
    | flat hb => exact .inl ⟨fun ht => hmore rfl ht rfl, hb⟩
    | nested => simp [Scan.inGroup] at hg
  | case3 st prev s ih =>
    rw [Scan.read]
    exact ih (h.push (by simp) (List.suffix_cons ..))
  | case4 st prev s =>
    -- either both go on behind the `**`, or it has taken the last slash along
    rename_i ih
    rw [Scan.read]
    obtain ⟨hs, hr | ⟨hn, hend⟩⟩ := h.readSpan
    · rw [hs]
      exact ih (hr _)
    · rw [hs]
      change Agree base ((st.readSpan prev s).1.read _ (st.readSpan prev s).2) _
      rw [hn]
      exact .atEnd hend
  | case5 st prev s hs ih =>
    rw [Scan.read]
    exact ih (h.push (by simp) (List.suffix_cons ..))
    exact hs
  | case6 st prev s e he =>
    rw [Scan.read]
    split
    · simp_all [Agree]
    · simp_all
  | case7 st prev s t s' ht _ ih =>
    rw [Scan.read]
    split
    · simp_all
    · rename_i heq
      rw [ht] at heq
      cases heq
      obtain ⟨hs, neg, ranges, rfl⟩ := readClass_spec ht
      exact ih (h.push (by simp) (hs.trans (List.suffix_cons ..)))
  | case8 st prev s ih =>
    rw [Scan.read]
    exact ih h.openGroup
  | case9 st prev s e he =>
    rw [Scan.read]
    obtain ⟨e', he', he''⟩ | ⟨_, _, hok, -⟩ := h.below.closeGroup
    · rw [he'']
      exact Except.error.inj (he.symm.trans he')
    · cases he.symm.trans hok
  | case10 st prev s t ht ih =>
    rw [Scan.read]
    obtain ⟨_, he, -⟩ | ⟨u, u', hok, hok', hb, g, us, hu⟩ := h.below.closeGroup
    · cases ht.symm.trans he
    · obtain rfl := Except.ok.inj (ht.symm.trans hok)
      rw [hok']
      exact ih (.intro hb (fun h' => h.ends (h'.trans (List.suffix_cons ..))) (by simp [hu]))
  | case11 st prev s hg ih =>
    rw [Scan.read, if_pos (h.below.inGroup.trans hg)]
    exact ih (h.nextBranch hg)
  | case12 st prev s hg ih =>
    rw [Scan.read, if_neg (by rwa [h.below.inGroup])]
    exact ih (h.push (by simp) (List.suffix_cons ..))
  | case13 st prev =>
    rw [Scan.read]
    rfl
  | case14 st prev c s ih =>
    rw [Scan.read]
    exact ih (h.push (by simp) ((List.suffix_cons ..).trans (List.suffix_cons ..)))
  | case15 st prev c s _ _ _ _ _ _ _ _ _ ih =>
    rw [Scan.read]
    · exact ih (h.push (by simp) (List.suffix_cons ..))
    all_goals assumption

end Scan

end ChainRunner.Glob
