import Mathlib.Data.List.TakeWhile
import ChainRunner.Shell.Token

/-!
How a command text is cut into tokens.

A step takes at least one character, or is the last one, so the number of steps allowed makes no
difference: what is read from a text is a function of the text and of the word that has begun.
-/

namespace ChainRunner.Shell

variable {n : Nat} {done : List Token} {w : Option Word} {v v' : Word} {c : Char}
  {cs rest : List Char} {s : String}

lemma flush_eq (done : List Token) (w : Option Word) : flush done w = done ++ flush [] w := by
  cases w <;> simp [flush]

/-! ### Nothing is read twice -/

lemma length_of_upTo (h : upTo c cs = some (s, rest)) : rest.length < cs.length := by
  unfold upTo at h
  split at h
  · cases h
  · rename_i d r hdrop
    obtain ⟨-, rfl⟩ := Prod.mk.inj (Option.some.inj h)
    have hle := List.length_dropWhile_le (· != c) cs
    rw [hdrop, List.length_cons] at hle
    omega

lemma length_of_closing {depth : Nat} {seen inside : List Char}
    (h : closing depth seen cs = some (inside, rest)) : rest.length < cs.length := by
  fun_induction closing depth seen cs with
  | case1 => cases h
  | case2 depth seen cs ih =>
    have := ih h
    rw [List.length_cons]
    omega
  | case3 =>
    obtain ⟨-, rfl⟩ := Prod.mk.inj (Option.some.inj h)
    exact Nat.lt_succ_self _
  | case4 seen cs d ih =>
    have := ih h
    rw [List.length_cons]
    omega
  | case5 depth seen c cs _ _ ih =>
    have := ih h
    rw [List.length_cons]
    omega

lemma length_of_dollar {isQuoted : Bool} {p : Part} (h : dollar isQuoted cs = .ok (p, rest)) :
    rest.length ≤ cs.length := by
  unfold dollar at h
  split at h
  · rename_i cs
    split at h
    · rename_i e r hclosing
      obtain ⟨-, rfl⟩ := Prod.mk.inj (Except.ok.inj h)
      have hlt := length_of_closing hclosing
      simp only [List.length_cons] at hlt ⊢
      omega
    · cases h
  · rename_i cs _
    split at h
    · rename_i source r hclosing
      obtain ⟨-, rfl⟩ := Prod.mk.inj (Except.ok.inj h)
      have hlt := length_of_closing hclosing
      rw [List.length_cons]
      omega
    · cases h
  · rename_i cs
    split at h
    · rename_i name r hupTo
      obtain ⟨-, rfl⟩ := Prod.mk.inj (Except.ok.inj h)
      have hlt := length_of_upTo hupTo
      rw [List.length_cons]
      omega
    · cases h
  · rename_i c cs _ _ _
    split at h
    · obtain ⟨-, rfl⟩ := Prod.mk.inj (Except.ok.inj h)
      have hle := List.length_dropWhile_le isNameChar cs
      rw [List.length_cons]
      omega
    · split at h
      · obtain ⟨-, rfl⟩ := Prod.mk.inj (Except.ok.inj h)
        exact Nat.le_succ _
      · obtain ⟨-, rfl⟩ := Prod.mk.inj (Except.ok.inj h)
        exact Nat.le_refl _
  · obtain ⟨-, rfl⟩ := Prod.mk.inj (Except.ok.inj h)
    exact Nat.le_refl _

/-- A quoted character at the end of a word. -/
def Word.addQuoted (v : Word) (c : Char) : Word :=
  match v.getLast? with
  | some (.quoted s) => v.dropLast ++ [.quoted (s.push c)]
  | _ => v ++ [.quoted c.toString]

lemma doubleQuoted_escape (hc : c ≠ '\n') : doubleQuoted (n + 1) v ('\\' :: c :: rest) =
    if c ∈ ['$', '`', '"', '\\'] then doubleQuoted n (v.addQuoted c) rest
    else doubleQuoted n (v.addQuoted '\\') (c :: rest) := by
  rw [doubleQuoted]
  · rfl
  · simpa using hc

lemma doubleQuoted_other (hc : c ∉ ['"', '\\', '`', '$']) :
    doubleQuoted (n + 1) v (c :: rest) = doubleQuoted n (v.addQuoted c) rest := by
  rw [doubleQuoted] <;> first | rfl | (intros; simp_all)

lemma length_of_doubleQuoted (h : doubleQuoted n v cs = .ok (v', rest)) :
    rest.length < cs.length := by
  induction n generalizing v cs with
  | zero => cases h
  | succ n ih =>
    unfold doubleQuoted at h
    simp only at h
    split at h
    · cases h
    · obtain ⟨-, rfl⟩ := Prod.mk.inj (Except.ok.inj h)
      exact Nat.lt_succ_self _
    · have := ih h
      simp only [List.length_cons]
      omega
    · split at h <;>
      · have := ih h
        simp only [List.length_cons] at this ⊢
        omega
    · split at h
      · rename_i hupTo
        have := length_of_upTo hupTo
        have := ih h
        simp only [List.length_cons]
        omega
      · cases h
    · split at h
      · rename_i hdollar
        have := length_of_dollar hdollar
        have := ih h
        simp only [List.length_cons]
        omega
      · rename_i hdollar
        have := length_of_dollar hdollar
        have := ih h
        simp only [List.length_cons]
        omega
      · cases h
    · have := ih h
      simp only [List.length_cons]
      omega

lemma length_of_redirectSign? {direction : Direction}
    (h : redirectSign? cs = some (direction, rest)) : rest.length < cs.length := by
  unfold redirectSign? at h
  split at h <;> cases h <;> simp only [List.length_cons] <;> omega

lemma length_of_operator? (h : operator? cs = some (s, rest)) : rest.length < cs.length := by
  unfold operator? at h
  split at h
  iterate 3
    · cases h
      simp only [List.length_cons]
      omega
  · split at h <;> cases h
    exact Nat.lt_succ_self _
  · cases h

/-! ### One step -/

lemma lex_escape (hc : c ≠ '\n') : lex (n + 1) done w ('\\' :: c :: rest) =
    lex n done (some (w.getD [] ++ [.quoted c.toString])) rest := by
  rw [lex]
  simpa using hc

lemma lex_single (h : upTo '\'' cs = some (s, rest)) : lex (n + 1) done w ('\'' :: cs) =
    lex n done (some (w.getD [] ++ [.quoted s])) rest := by
  rw [lex]
  simp only [h]

lemma lex_double (h : doubleQuoted (cs.length + 1) (w.getD [] ++ [.quoted ""]) cs = .ok (v, rest)) :
    lex (n + 1) done w ('"' :: cs) = lex n done (some v) rest := by
  rw [lex]
  simp only [h]

lemma lex_other (hc : c ∉ ['\\', '\'', '"', '`', '$']) : lex (n + 1) done w (c :: rest) =
    if c = ' ' ∨ c = '\t' then lex n (flush done w) none rest
    else if c = '#' ∧ w.isNone then lex n done none (rest.dropWhile (· != '\n'))
    else
      match redirectSign? (c :: rest) with
      | some (direction, rest) =>
        match descriptorOf? w with
        | some fd => lex n (done ++ [.redirect (some fd) direction]) none rest
        | none => lex n (flush done w ++ [.redirect none direction]) none rest
      | none =>
        match operator? (c :: rest) with
        | some (s, rest) => lex n (flush done w ++ [.operator s]) none rest
        | none => lex n done (some (Word.addChar (w.getD []) c)) rest := by
  rw [lex] <;> first | rfl | (intros; simp_all)

lemma redirectSign?_eq_none (hc : c ∉ ['<', '>']) : redirectSign? (c :: cs) = none := by
  unfold redirectSign?
  split <;> simp_all

lemma operator?_eq_none (hc : c ∉ ['&', '|', ';', '(', ')', '\n']) :
    operator? (c :: cs) = none := by
  unfold operator?
  split <;> simp_all

lemma isSome_operator? (hc : c ∈ ['&', '|', ';', '(', ')', '\n']) :
    (operator? (c :: cs)).isSome := by
  unfold operator?
  split <;> simp_all

/-- A step adds the tokens `ts` and goes on with less text. -/
def GoesOn (w : Option Word) (cs : List Char) : Prop :=
  ∃ ts w' cs', cs'.length < cs.length ∧
    ∀ n done, lex (n + 1) done w cs = lex n (done ++ ts) w' cs'

/-- A step is the last one. -/
def Stops (w : Option Word) (cs : List Char) : Prop :=
  ∃ ts, ∀ n done, lex (n + 1) done w cs = done ++ ts

lemma goesOn_of_eq {w' : Option Word} {cs' : List Char} (hlt : cs'.length < cs.length)
    (h : ∀ n done, lex (n + 1) done w cs = lex n done w' cs') : GoesOn w cs :=
  ⟨[], w', cs', hlt, fun n done => by rw [h, List.append_nil]⟩

lemma goesOn_of_flush {w' : Option Word} {cs' : List Char} (ts : List Token)
    (hlt : cs'.length < cs.length)
    (h : ∀ n done, lex (n + 1) done w cs = lex n (flush done w ++ ts) w' cs') : GoesOn w cs :=
  ⟨flush [] w ++ ts, w', cs', hlt, fun n done => by
    rw [h, flush_eq done w, List.append_assoc]⟩

lemma step_single (w : Option Word) (cs : List Char) :
    Stops w ('\'' :: cs) ∨ GoesOn w ('\'' :: cs) := by
  cases hend : upTo '\'' cs with
  | none => exact .inl ⟨[.broken openQuote], fun n done => by rw [lex]; simp only [hend]⟩
  | some r =>
    have hlt : r.2.length < ('\'' :: cs).length := Nat.lt_succ_of_lt (length_of_upTo hend)
    exact .inr (goesOn_of_eq hlt fun n done => lex_single hend)

lemma step_double (w : Option Word) (cs : List Char) :
    Stops w ('"' :: cs) ∨ GoesOn w ('"' :: cs) := by
  cases hend : doubleQuoted (cs.length + 1) (w.getD [] ++ [.quoted ""]) cs with
  | error why => exact .inl ⟨[.broken why], fun n done => by rw [lex]; simp only [hend]⟩
  | ok r =>
    have hlt : r.2.length < ('"' :: cs).length := Nat.lt_succ_of_lt (length_of_doubleQuoted hend)
    exact .inr (goesOn_of_eq hlt fun n done => lex_double hend)

lemma step_backquote (w : Option Word) (cs : List Char) :
    Stops w ('`' :: cs) ∨ GoesOn w ('`' :: cs) := by
  cases hend : upTo '`' cs with
  | none =>
    refine .inl ⟨[.broken "EOF in backquote substitution"], fun n done => ?_⟩
    rw [lex]
    simp only [hend]
  | some r =>
    have hstep n done : lex (n + 1) done w ('`' :: cs) =
        lex n done (some (w.getD [] ++ [.output r.1 false])) r.2 := by
      rw [lex]
      simp only [hend]
    have hlt : r.2.length < ('`' :: cs).length := Nat.lt_succ_of_lt (length_of_upTo hend)
    exact .inr (goesOn_of_eq hlt hstep)

lemma step_dollar (w : Option Word) (cs : List Char) :
    Stops w ('$' :: cs) ∨ GoesOn w ('$' :: cs) := by
  cases hend : dollar false cs with
  | error why => exact .inl ⟨[.broken why], fun n done => by rw [lex]; simp only [hend]⟩
  | ok r =>
    obtain ⟨p, rest⟩ := r
    have hstep : ∃ w', ∀ n done, lex (n + 1) done w ('$' :: cs) = lex n done w' rest := by
      cases p with
      | text t =>
        exact ⟨some (Word.addChar (w.getD []) '$'), fun n done => by rw [lex]; simp only [hend]⟩
      | _ =>
        exact ⟨some (w.getD [] ++ [_]), fun n done => by rw [lex]; simp only [hend]; rfl⟩
    obtain ⟨w', hstep⟩ := hstep
    exact .inr (goesOn_of_eq (Nat.lt_succ_of_le (length_of_dollar hend)) hstep)

lemma goesOn_other (hc : c ∉ ['\\', '\'', '"', '`', '$']) : GoesOn w (c :: rest) := by
  have hother n done : lex (n + 1) done w (c :: rest) = _ := lex_other hc
  by_cases hgap : c = ' ' ∨ c = '\t'
  · have hflush n done : lex (n + 1) done w (c :: rest) = lex n (flush done w ++ []) none rest := by
      rw [hother, if_pos hgap, List.append_nil]
    exact goesOn_of_flush [] (Nat.lt_succ_self _) hflush
  simp only [if_neg hgap] at hother
  by_cases hcomment : c = '#' ∧ w.isNone
  · refine goesOn_of_eq ?_ fun n done => (hother n done).trans (if_pos hcomment)
    exact Nat.lt_succ_of_le (List.length_dropWhile_le ..)
  simp only [if_neg hcomment] at hother
  cases hsign : redirectSign? (c :: rest) with
  | some r =>
    obtain ⟨direction, rest'⟩ := r
    have hlt := length_of_redirectSign? hsign
    simp only [hsign] at hother
    cases hfd : descriptorOf? w with
    | some fd =>
      simp only [hfd] at hother
      exact ⟨_, _, _, hlt, hother⟩
    | none =>
      simp only [hfd] at hother
      exact goesOn_of_flush _ hlt hother
  | none =>
    simp only [hsign] at hother
    cases hop : operator? (c :: rest) with
    | some r =>
      obtain ⟨op, rest'⟩ := r
      simp only [hop] at hother
      exact goesOn_of_flush _ (length_of_operator? hop) hother
    | none =>
      simp only [hop] at hother
      exact goesOn_of_eq (Nat.lt_succ_self _) hother

/-- **What a step can do.** -/
lemma step (w : Option Word) (cs : List Char) : Stops w cs ∨ GoesOn w cs := by
  cases cs with
  | nil => exact .inl ⟨flush [] w, fun n done => flush_eq done w⟩
  | cons c rest =>
    by_cases hc : c ∈ ['\\', '\'', '"', '`', '$']
    · simp only [List.mem_cons, List.not_mem_nil, or_false] at hc
      rcases hc with rfl | rfl | rfl | rfl | rfl
      · cases rest with
        | nil => exact .inr (goesOn_of_eq (Nat.lt_succ_self _) fun _ _ => rfl)
        | cons d rest =>
          have hlt : rest.length < ('\\' :: d :: rest).length := by
            simp only [List.length_cons]
            omega
          by_cases hd : d = '\n'
          · subst hd
            exact .inr (goesOn_of_eq hlt fun _ _ => rfl)
          · exact .inr (goesOn_of_eq hlt fun n done => lex_escape hd)
      · exact step_single w rest
      · exact step_double w rest
      · exact step_backquote w rest
      · exact step_dollar w rest
    · exact .inr (goesOn_other hc)

/-! ### All steps -/

/-- The tokens of a text behind the word that has begun. -/
def lexed (w : Option Word) (cs : List Char) : List Token := lex (cs.length + 1) [] w cs

/-- **As many steps as are needed lead to the same tokens.** -/
lemma lex_eq (h : cs.length < n) : lex n done w cs = done ++ lexed w cs := by
  induction hlength : cs.length using Nat.strong_induction_on generalizing cs n done w with
  | _ k ih =>
    subst hlength
    obtain ⟨n, rfl⟩ := Nat.exists_eq_add_one_of_ne_zero (Nat.ne_zero_of_lt h)
    rcases step w cs with ⟨ts, hstep⟩ | ⟨ts, w', cs', hlt, hstep⟩
    · rw [lexed, hstep, hstep, List.nil_append]
    · rw [lexed, hstep, hstep, ih _ hlt (by omega) rfl, ih _ hlt hlt rfl, List.nil_append,
        List.append_assoc]

lemma lexed_of_step {w' : Option Word} {cs' : List Char} (hlt : cs'.length < cs.length)
    (h : ∀ n done, lex (n + 1) done w cs = lex n done w' cs') : lexed w cs = lexed w' cs' := by
  rw [lexed, h, lex_eq hlt, List.nil_append]

lemma tokens_ofList (cs : List Char) : tokens (String.ofList cs) = lexed none cs := by
  rw [tokens, lexed, String.toList_ofList, String.length_ofList]

end ChainRunner.Shell
