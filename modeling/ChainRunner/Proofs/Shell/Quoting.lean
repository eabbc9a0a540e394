import ChainRunner.Proofs.Shell.Token
import ChainRunner.Shell.Expansion

/-!
What the quotes and backslashes of a command text leave of its first word.

The rules are written down here once more, for words that stand for nothing but their own
characters, and what they say is what the shell starts with.
-/

namespace ChainRunner.Shell.Quoting

/-! ### The rules -/

inductive Quote
  | bare
  | single
  | double
deriving DecidableEq, Repr

/-- A word that is not quoted ends before such a character. -/
def endsWord (c : Char) : Bool := c ∈ [' ', '\t', '\n', '|', '&', ';', '(', ')']

/-- A character that does not stand for itself without quotes, wherever it stands. -/
def isSpecial (c : Char) : Bool :=
  endsWord c || c ∈ ['<', '>', '$', '`', '\\', '"', '\'', '*', '?', '[']

/-- The character `c` before what is read. -/
def keep (c : Char) (r : Option (List Char × List Char)) : Option (List Char × List Char) :=
  r.map fun (v, rest) => (c :: v, rest)

/-- The characters that the rest of a word stands for, and the text behind the word. Nothing if the
word is not complete, or stands for something else than its characters. -/
def scan : Quote → List Char → Option (List Char × List Char)
  | .bare, [] => some ([], [])
  | .bare, '\\' :: '\n' :: cs => scan .bare cs
  | .bare, '\\' :: c :: cs => keep c (scan .bare cs)
  | .bare, '\'' :: cs => scan .single cs
  | .bare, '"' :: cs => scan .double cs
  | .bare, c :: cs =>
    if endsWord c then some ([], c :: cs)
    else if isSpecial c then none
    else keep c (scan .bare cs)
  | .single, [] => none
  | .single, '\'' :: cs => scan .bare cs
  | .single, c :: cs => keep c (scan .single cs)
  | .double, [] => none
  | .double, '"' :: cs => scan .bare cs
  | .double, '\\' :: '\n' :: cs => scan .double cs
  | .double, '\\' :: c :: cs =>
    if c ∈ ['$', '`', '"', '\\'] then keep c (scan .double cs)
    else keep '\\' (scan .double (c :: cs))
  | .double, c :: cs => if c ∈ ['$', '`'] then none else keep c (scan .double cs)

/-- The character starts a word: it is no gap, operator, comment or home directory. -/
def startsWord (c : Char) : Bool := !endsWord c && c ∉ ['#', '~']

/-- The first word of a command text, as far as it stands for its own characters, and the text
behind it. Whether the word is a keyword or sets a variable is not asked. -/
def firstWord : List Char → Option (List Char × List Char)
  | [] => none
  | '\\' :: '\n' :: cs => firstWord cs
  | c :: cs =>
    if c = ' ' ∨ c = '\t' then firstWord cs
    else if startsWord c then scan .bare (c :: cs)
    else none

/-! ### What stands for itself -/

variable {q : Quote} {c : Char} {cs v rest : List Char}

lemma keep_eq_some {r : Option (List Char × List Char)} :
    keep c r = some (v, rest) ↔ ∃ v', r = some (v', rest) ∧ v = c :: v' := by
  rcases r with - | ⟨v', rest'⟩
  · simp [keep]
  · simp only [keep, Option.map_some, Option.some.injEq, Prod.mk.injEq]
    grind

lemma scan_escape (hc : c ≠ '\n') : scan .bare ('\\' :: c :: cs) = keep c (scan .bare cs) := by
  rw [scan]
  simpa using hc

lemma scan_other (hc : c ∉ ['\\', '\'', '"']) : scan .bare (c :: cs) =
    if endsWord c then some ([], c :: cs)
    else if isSpecial c then none
    else keep c (scan .bare cs) := by
  rw [scan] <;> (intros; simp_all)

lemma scan_double_escape (hc : c ≠ '\n') : scan .double ('\\' :: c :: cs) =
    if c ∈ ['$', '`', '"', '\\'] then keep c (scan .double cs)
    else keep '\\' (scan .double (c :: cs)) := by
  rw [scan]
  simpa using hc

lemma scan_double_other (hc : c ∉ ['"', '\\']) : scan .double (c :: cs) =
    if c ∈ ['$', '`'] then none else keep c (scan .double cs) := by
  rw [scan] <;> (intros; simp_all)

/-- Quotes and backslashes are left out, and nothing is put in. -/
lemma length_of_scan (h : scan q cs = some (v, rest)) :
    v.length + rest.length + (if q = .bare then 0 else 1) ≤ cs.length := by
  -- a character is kept for each one that is read, but for the quotes themselves
  fun_induction scan q cs generalizing v <;> grind [keep_eq_some]

lemma scan_plain (hc : ¬ isSpecial c) : scan .bare (c :: cs) = keep c (scan .bare cs) := by
  have hends : ¬ endsWord c := fun h => hc (by simp [isSpecial, h])
  have hquote : c ∉ ['\\', '\'', '"'] := by
    simp only [isSpecial, Bool.or_eq_true, decide_eq_true_eq] at hc
    simp_all
  rw [scan_other hquote, if_neg hends, if_neg hc]

/-- A character that does not stand for itself is lost. -/
lemma lt_of_isSpecial (hc : isSpecial c) (hends : ¬ endsWord c)
    (h : scan .bare (c :: cs) = some (v, rest)) : v.length + rest.length < (c :: cs).length := by
  by_cases hquote : c ∈ ['\\', '\'', '"']
  · simp only [List.mem_cons, List.not_mem_nil, or_false] at hquote
    rcases hquote with rfl | rfl | rfl
    · cases cs with
      | nil => cases h
      | cons d cs =>
        by_cases hd : d = '\n'
        · subst hd
          have hscan : scan .bare cs = some (v, rest) := h
          have := length_of_scan hscan
          grind
        · rw [scan_escape hd, keep_eq_some] at h
          obtain ⟨v', hv', rfl⟩ := h
          have := length_of_scan hv'
          grind
    · have hscan : scan .single cs = some (v, rest) := h
      have := length_of_scan hscan
      grind
    · have hscan : scan .double cs = some (v, rest) := h
      have := length_of_scan hscan
      grind
  · rw [scan_other hquote, if_neg hends, if_pos hc] at h
    cases h

lemma not_mem_of_endsWord (hc : endsWord c) :
    c ∉ ['\\', '\'', '"', '`', '$', '#', '<', '>'] := by
  simp only [endsWord, decide_eq_true_eq, List.mem_cons, List.not_mem_nil, or_false] at hc
  rcases hc with rfl | rfl | rfl | rfl | rfl | rfl | rfl | rfl <;> decide

/-- A word that is not quoted may end before the text. -/
def Ends (cs : List Char) : Prop := ∀ c ∈ cs.head?, endsWord c

instance (cs : List Char) : Decidable (Ends cs) :=
  decidable_of_iff (cs.head?.all endsWord) (by simp [Ends, Option.all_eq_true])

lemma scan_of_ends (h : Ends rest) : scan .bare rest = some ([], rest) := by
  cases rest with
  | nil => rfl
  | cons c cs =>
    have hc : endsWord c := h c rfl
    have hquote := not_mem_of_endsWord hc
    rw [scan_other (by simp_all), if_pos hc]

lemma scan_complete (hv : ∀ c ∈ v, ¬ isSpecial c) (h : Ends rest) :
    scan .bare (v ++ rest) = some (v, rest) := by
  induction v with
  | nil => exact scan_of_ends h
  | cons c v ih =>
    obtain ⟨hc, hv⟩ := List.forall_mem_cons.1 hv
    rw [List.cons_append, scan_plain hc, ih hv]
    rfl

/-- If nothing is left out, every character stands for itself. -/
lemma scan_sound (h : scan .bare cs = some (v, rest))
    (hlen : v.length + rest.length = cs.length) :
    cs = v ++ rest ∧ (∀ c ∈ v, ¬ isSpecial c) ∧ Ends rest := by
  induction cs generalizing v with
  | nil =>
    obtain ⟨rfl, rfl⟩ := Prod.mk.inj (Option.some.inj h)
    exact ⟨rfl, by simp, by simp [Ends]⟩
  | cons c cs ih =>
    by_cases hends : endsWord c
    · rw [scan_of_ends (by simpa [Ends] using hends)] at h
      obtain ⟨rfl, rfl⟩ := Prod.mk.inj (Option.some.inj h)
      exact ⟨rfl, by simp, by simpa [Ends] using hends⟩
    · have hc : ¬ isSpecial c := fun hc => (lt_of_isSpecial hc hends h).ne hlen
      rw [scan_plain hc, keep_eq_some] at h
      obtain ⟨v', hv', rfl⟩ := h
      obtain ⟨rfl, hplain, hrest⟩ := ih hv' (by simpa [Nat.succ_add] using hlen)
      exact ⟨rfl, List.forall_mem_cons.2 ⟨hc, hplain⟩, hrest⟩

/-- The text stands for itself between double quotes: nothing in it is read there, and no backslash
stands before another one, a line end or the closing quote. -/
def isInert : List Char → Bool
  | [] => true
  | c :: cs =>
    c ∉ ['$', '`', '"'] && (c != '\\' || cs.head?.any (· ∉ ['\\', '\n'])) && isInert cs

/-- A backslash stays if what follows it is neither left out nor kept alone. -/
lemma scan_double_backslash : scan .double ('\\' :: v ++ '"' :: rest) = some ('\\' :: v, rest) ↔
    v.head?.any (· ∉ ['$', '`', '"', '\\', '\n']) ∧
      scan .double (v ++ '"' :: rest) = some (v, rest) := by
  cases v with
  | nil =>
    refine iff_of_false (fun h => ?_) (by simp)
    rw [List.cons_append, List.nil_append, scan_double_escape (by decide), if_pos (by simp),
      keep_eq_some] at h
    simp at h
  | cons d v =>
    simp only [List.cons_append, List.head?_cons, Option.any_some, decide_eq_true_eq]
    by_cases hnewline : d = '\n'
    · subst hnewline
      refine iff_of_false (fun h => ?_) (by simp)
      -- the line break is dropped, and the text would have to be longer than it is
      have hscan : scan .double (v ++ '"' :: rest) = some ('\\' :: '\n' :: v, rest) := h
      have := length_of_scan hscan
      grind
    · rw [scan_double_escape hnewline]
      by_cases hd : d ∈ ['$', '`', '"', '\\']
      · rw [if_pos hd]
        refine iff_of_false (fun h => ?_) (by grind)
        obtain ⟨v', hv', heq⟩ := keep_eq_some.1 h
        have := length_of_scan hv'
        grind
      · rw [if_neg hd, keep_eq_some]
        grind

lemma scan_double_iff :
    scan .double (v ++ '"' :: rest) = some (v, rest) ↔ isInert v ∧ Ends rest := by
  induction v with
  | nil =>
    refine ⟨fun h => ?_, fun h => scan_of_ends h.2⟩
    have hscan : scan .bare rest = some ([], rest) := h
    exact ⟨rfl, (scan_sound hscan (by simp)).2.2⟩
  | cons c v ih =>
    by_cases hquote : c = '"'
    · subst hquote
      refine iff_of_false (fun h => ?_) (by simp [isInert])
      have hscan : scan .bare (v ++ '"' :: rest) = some ('"' :: v, rest) := h
      have hplain := (scan_sound hscan (by simp; omega)).2.1
      exact hplain '"' List.mem_cons_self (by decide)
    · by_cases hback : c = '\\'
      · subst hback
        rw [scan_double_backslash, ih]
        cases v <;> grind [isInert]
      · rw [List.cons_append, scan_double_other (by simp [hquote, hback])]
        by_cases hc : c ∈ ['$', '`']
        · rw [if_pos hc]
          refine iff_of_false (by simp) ?_
          grind [isInert]
        · rw [if_neg hc, keep_eq_some]
          grind [isInert]

/-- The word `v` stands for itself without quotes. -/
structure IsPlain (v : List Char) : Prop where
  starts : ∃ c ∈ v.head?, startsWord c
  solid : ∀ c ∈ v, ¬ isSpecial c

instance (v : List Char) : Decidable (IsPlain v) :=
  decidable_of_iff (v.head?.any startsWord ∧ v.all (!isSpecial ·))
    ⟨fun h => ⟨by simpa [Option.any_eq_true] using h.1, by simpa using h.2⟩,
      fun h => ⟨by simpa [Option.any_eq_true] using h.starts, by simpa using h.solid⟩⟩

lemma firstWord_of_startsWord (hc : startsWord c) (hback : c ≠ '\\') :
    firstWord (c :: cs) = scan .bare (c :: cs) := by
  have hgap : ¬ (c = ' ' ∨ c = '\t') := by rintro (rfl | rfl) <;> cases hc
  rw [firstWord, if_neg hgap, if_pos hc]
  exact fun _ h => absurd h hback

/-- What is in front of a word is lost. -/
lemma firstWord_sound (h : firstWord cs = some (v, rest)) :
    v.length + rest.length ≤ cs.length ∧
      (v.length + rest.length = cs.length →
        (∃ c ∈ cs.head?, startsWord c) ∧ scan .bare cs = some (v, rest)) := by
  fun_induction firstWord cs with
  | case1 => cases h
  | case2 cs ih => grind
  | case3 c cs _ _ ih => grind
  | case4 c cs _ _ hc =>
    exact ⟨by simpa using length_of_scan h, fun _ => ⟨⟨c, rfl, hc⟩, h⟩⟩
  | case5 => cases h

lemma firstWord_iff : firstWord (v ++ rest) = some (v, rest) ↔ IsPlain v ∧ Ends rest := by
  constructor
  · intro h
    obtain ⟨⟨c, hc, hstarts⟩, hscan⟩ := (firstWord_sound h).2 (by simp)
    obtain ⟨-, hsolid, hends⟩ := scan_sound hscan (by simp)
    refine ⟨⟨⟨c, ?_, hstarts⟩, hsolid⟩, hends⟩
    cases v with
    | nil => grind [startsWord, Ends]
    | cons d v => exact hc
  · rintro ⟨⟨⟨c, hc, hstarts⟩, hsolid⟩, hends⟩
    cases v with
    | nil => cases hc
    | cons d v =>
      obtain rfl := Option.some.inj hc
      have hback : d ≠ '\\' := by
        rintro rfl
        exact hsolid '\\' List.mem_cons_self (by decide)
      rw [List.cons_append, firstWord_of_startsWord hstarts hback, ← List.cons_append]
      exact scan_complete hsolid hends

lemma firstWord_quoted_iff :
    firstWord ('"' :: (v ++ '"' :: rest)) = some (v, rest) ↔ isInert v ∧ Ends rest := by
  rw [firstWord_of_startsWord (by decide) (by decide)]
  exact scan_double_iff

/-! ### What the shell reads -/

variable {n : Nat} {w : Option Word} {p : Word}

/-- The word that has begun gives the characters `v`, whatever stands before it. -/
def Spells : Option Word → List Char → Prop
  | none, v => v = []
  | some p, v => ∀ (s : State) (f : Fields), p.foldl s.addPart f = f.add (String.ofList v)

lemma add_add (f : Fields) (a b : String) : (f.add a).add b = f.add (a ++ b) := by
  simp [Fields.add, String.append_assoc]

lemma fields_eq (h : Spells (some p) v) (s : State) : s.fields p = [String.ofList v] := by
  rw [State.fields, h]
  simp [Fields.toList, Fields.close, Fields.add]

/-- Another part. -/
lemma spells_concat {part : Part} {a : List Char}
    (hpart : ∀ s f, State.addPart s f part = f.add (String.ofList a)) (h : Spells w v) :
    Spells (some (w.getD [] ++ [part])) (v ++ a) := by
  intro s f
  cases w with
  | none =>
    obtain rfl : v = [] := h
    exact hpart s f
  | some p =>
    rw [Option.getD_some, List.foldl_append, h s f, String.ofList_append, ← add_add]
    exact hpart s _

/-- Another character in the last part. -/
lemma spells_push {last next : Part} {t : String}
    (hlast : ∀ s f, State.addPart s f last = f.add t)
    (hnext : ∀ s f, State.addPart s f next = f.add (t.push c))
    (h : Spells (some (p ++ [last])) v) : Spells (some (p ++ [next])) (v ++ [c]) := by
  intro s f
  have hfold := h s f
  rw [List.foldl_append, List.foldl_cons, List.foldl_nil, hlast] at hfold
  rw [List.foldl_append, List.foldl_cons, List.foldl_nil, hnext, String.push_eq_append, ← add_add,
    hfold, add_add, String.ofList_append, String.singleton_eq_ofList]

lemma spells_addChar (h : Spells w v) (c : Char) :
    Spells (some (Word.addChar (w.getD []) c)) (v ++ [c]) := by
  unfold Word.addChar
  split
  · rename_i t hlast
    obtain ⟨p, hp⟩ := List.getLast?_eq_some_iff.1 hlast
    cases w with
    | none => simp at hp
    | some q =>
      obtain rfl : q = p ++ [Part.text t] := hp
      rw [Option.getD_some, List.dropLast_concat]
      exact spells_push (fun _ _ => rfl) (fun _ _ => rfl) h
  · exact spells_concat (fun _ _ => rfl) h

lemma spells_addQuoted (h : Spells (some p) v) (c : Char) :
    Spells (some (p.addQuoted c)) (v ++ [c]) := by
  unfold Word.addQuoted
  split
  · rename_i t hlast
    obtain ⟨p, rfl⟩ := List.getLast?_eq_some_iff.1 hlast
    rw [List.dropLast_concat]
    exact spells_push (fun _ _ => rfl) (fun _ _ => rfl) h
  · exact spells_concat (w := some p) (fun _ _ => rfl) h

lemma upTo_cons_self (c : Char) (cs : List Char) : upTo c (c :: cs) = some ("", cs) := by
  simp [upTo]

lemma upTo_cons {d : Char} {a r : List Char} (hd : d ≠ c)
    (h : upTo c cs = some (String.ofList a, r)) :
    upTo c (d :: cs) = some (String.ofList (d :: a), r) := by
  have hd : (d != c) = true := by simpa using hd
  unfold upTo at h ⊢
  rw [List.dropWhile_cons, if_pos hd]
  split at h
  · cases h
  · obtain ⟨htake, rfl⟩ := Prod.mk.inj (Option.some.inj h)
    rw [List.takeWhile_cons, if_pos hd, String.ofList_injective htake]

lemma upTo_of_scan (h : scan .single cs = some (v, rest)) : ∃ a r b, v = a ++ b ∧
    upTo '\'' cs = some (String.ofList a, r) ∧ scan .bare r = some (b, rest) := by
  induction cs generalizing v with
  | nil => cases h
  | cons c cs ih =>
    by_cases hc : c = '\''
    · subst hc
      exact ⟨[], cs, v, rfl, upTo_cons_self _ _, h⟩
    · rw [scan, keep_eq_some] at h
      · obtain ⟨v', hv', rfl⟩ := h
        obtain ⟨a, r, b, rfl, hupTo, hscan⟩ := ih hv'
        exact ⟨c :: a, r, b, rfl, upTo_cons hc hupTo, hscan⟩
      · exact hc

lemma doubleQuoted_of_scan (hn : cs.length < n) (hp : Spells (some p) v) {v' : List Char}
    (h : scan .double cs = some (v', rest)) : ∃ p' a r b, v' = a ++ b ∧
      doubleQuoted n p cs = .ok (p', r) ∧ Spells (some p') (v ++ a) ∧
      scan .bare r = some (b, rest) := by
  induction n generalizing cs p v v' with
  | zero => cases hn
  | succ n ih =>
    have hkeep {c : Char} {cs : List Char} (hn : cs.length < n)
        (h : keep c (scan .double cs) = some (v', rest)) : ∃ p' a r b, v' = a ++ b ∧
          doubleQuoted n (p.addQuoted c) cs = .ok (p', r) ∧ Spells (some p') (v ++ a) ∧
          scan .bare r = some (b, rest) := by
      obtain ⟨v', hv', rfl⟩ := keep_eq_some.1 h
      obtain ⟨p', a, r, b, rfl, hread, hspells, hscan⟩ := ih hn (spells_addQuoted hp c) hv'
      exact ⟨p', c :: a, r, b, rfl, hread, by simpa using hspells, hscan⟩
    cases cs with
    | nil => cases h
    | cons c cs =>
      have hcs : cs.length < n := Nat.lt_of_succ_lt_succ hn
      by_cases hquote : c = '"'
      · subst hquote
        exact ⟨p, [], cs, v', rfl, rfl, by simpa using hp, h⟩
      by_cases hback : c = '\\'
      · subst hback
        cases cs with
        | nil => cases h
        | cons d cs =>
          by_cases hnewline : d = '\n'
          · subst hnewline
            exact ih (Nat.lt_of_succ_lt hcs) hp h
          · rw [scan_double_escape hnewline] at h
            rw [doubleQuoted_escape hnewline]
            by_cases hd : d ∈ ['$', '`', '"', '\\']
            · rw [if_pos hd] at h ⊢
              exact hkeep (Nat.lt_of_succ_lt hcs) h
            · rw [if_neg hd] at h ⊢
              exact hkeep hcs h
      · rw [scan_double_other (by simp [hquote, hback])] at h
        by_cases hc : c ∈ ['$', '`']
        · rw [if_pos hc] at h
          cases h
        · rw [if_neg hc] at h
          rw [doubleQuoted_other (by grind)]
          exact hkeep hcs h

/-- The characters `a` are added to a word that stands for `v`, and `cs'` is left to read. -/
def Takes (w : Option Word) (v cs a cs' : List Char) : Prop :=
  cs'.length < cs.length ∧ ∃ p, lexed w cs = lexed (some p) cs' ∧ Spells (some p) (v ++ a)

lemma takes_escape (hw : Spells w v) (hc : c ≠ '\n') : Takes w v ('\\' :: c :: cs) [c] cs := by
  have hlt : cs.length < ('\\' :: c :: cs).length := by grind
  exact ⟨hlt, _, lexed_of_step hlt fun n done => lex_escape hc,
    spells_concat (fun _ _ => rfl) hw⟩

lemma takes_single (hw : Spells w v) {a r : List Char}
    (h : upTo '\'' cs = some (String.ofList a, r)) : Takes w v ('\'' :: cs) a r := by
  have hlt : r.length < ('\'' :: cs).length := Nat.lt_succ_of_lt (length_of_upTo h)
  exact ⟨hlt, _, lexed_of_step hlt fun n done => lex_single h,
    spells_concat (fun _ _ => rfl) hw⟩

lemma takes_double (hw : Spells w v) {v' : List Char} (h : scan .double cs = some (v', rest)) :
    ∃ a r b, v' = a ++ b ∧ Takes w v ('"' :: cs) a r ∧ scan .bare r = some (b, rest) := by
  have hempty : Spells (some (w.getD [] ++ [.quoted ""])) v := by
    simpa using spells_concat (a := []) (fun _ _ => rfl) hw
  obtain ⟨p', a, r, b, rfl, hread, hspells, hscan⟩ :=
    doubleQuoted_of_scan (Nat.lt_succ_self cs.length) hempty h
  have hlt : r.length < ('"' :: cs).length := Nat.lt_succ_of_lt (length_of_doubleQuoted hread)
  exact ⟨a, r, b, rfl, ⟨hlt, p', lexed_of_step hlt fun n done => lex_double hread, hspells⟩, hscan⟩

lemma takes_plain (hw : Spells w v) (hc : ¬ isSpecial c) (hcomment : ¬ (c = '#' ∧ w.isNone)) :
    Takes w v (c :: cs) [c] cs := by
  refine ⟨Nat.lt_succ_self _, _, lexed_of_step (Nat.lt_succ_self _) fun n done => ?_,
    spells_addChar hw c⟩
  simp only [isSpecial, endsWord, Bool.or_eq_true, decide_eq_true_eq] at hc
  rw [lex_other (by grind), if_neg (by grind), if_neg hcomment, redirectSign?_eq_none (by grind),
    operator?_eq_none (by grind)]

/-- What ends a word is read the same way without it. -/
lemma step_of_endsWord (hc : endsWord c) (cs : List Char) : ∃ ts r, r.length < (c :: cs).length ∧
    ∀ n done w, lex (n + 1) done w (c :: cs) = lex n (flush done w ++ ts) none r := by
  have hno := not_mem_of_endsWord hc
  have hother n done w : lex (n + 1) done w (c :: cs) = _ := lex_other (by simp_all)
  by_cases hgap : c = ' ' ∨ c = '\t'
  · refine ⟨[], cs, Nat.lt_succ_self _, fun n done w => ?_⟩
    rw [hother, if_pos hgap, List.append_nil]
  · have hoperator : c ∈ ['&', '|', ';', '(', ')', '\n'] := by
      simp only [endsWord, decide_eq_true_eq] at hc
      grind
    have hsome : (operator? (c :: cs)).isSome := isSome_operator? hoperator
    obtain ⟨⟨op, r⟩, hop⟩ := Option.isSome_iff_exists.1 hsome
    refine ⟨[.operator op], r, length_of_operator? hop, fun n done w => ?_⟩
    rw [hother, if_neg hgap, if_neg (by simp_all), redirectSign?_eq_none (by simp_all), hop]

lemma lexed_of_endsWord (hc : endsWord c) :
    lexed (some p) (c :: cs) = .word p :: lexed none (c :: cs) := by
  obtain ⟨ts, r, hlt, hstep⟩ := step_of_endsWord hc cs
  rw [lexed, lexed, hstep, hstep, lex_eq hlt, lex_eq hlt]
  rfl

lemma lexed_of_ends (h : Ends cs) : lexed (some p) cs = .word p :: lexed none cs := by
  cases cs with
  | nil => rfl
  | cons c cs => exact lexed_of_endsWord (h c rfl)

lemma lexed_of_gap (hc : c = ' ' ∨ c = '\t') : lexed none (c :: cs) = lexed none cs := by
  refine lexed_of_step (Nat.lt_succ_self _) fun n done => ?_
  rw [lex_other (by grind), if_pos hc]
  rfl

/-- Where a word may start, a text that starts one. -/
def Starts (cs : List Char) : Prop := (∃ c ∈ cs.head?, startsWord c) ∧ ¬ ['\\', '\n'] <+: cs

lemma Starts.not_ends (h : Starts cs) : ¬ Ends cs := by
  obtain ⟨⟨c, hc, hstarts⟩, -⟩ := h
  intro hends
  simp [startsWord, hends c hc] at hstarts

lemma takes_of_scan (hw : Spells w v) {v' : List Char} (h : scan .bare cs = some (v', rest))
    (hends : ¬ Ends cs) (hstart : w = none → Starts cs) :
    ∃ a r b, v' = a ++ b ∧ Takes w v cs a r ∧ scan .bare r = some (b, rest) := by
  obtain ⟨c, cs, rfl⟩ : ∃ c d, cs = c :: d := by
    cases cs with
    | nil => exact absurd (by simp [Ends]) hends
    | cons c cs => exact ⟨c, cs, rfl⟩
  have hends : ¬ endsWord c := by simpa [Ends] using hends
  by_cases hc : c ∈ ['\\', '\'', '"']
  · simp only [List.mem_cons, List.not_mem_nil, or_false] at hc
    rcases hc with rfl | rfl | rfl
    · -- a backslash: a line break behind it is nothing, anything else is taken
      cases cs with
      | nil => cases h
      | cons d cs =>
        by_cases hd : d = '\n'
        · subst hd
          obtain ⟨p, rfl⟩ : ∃ p, w = some p :=
            Option.ne_none_iff_exists'.1 fun hnone => (hstart hnone).2 (by simp)
          have hlt : cs.length < ('\\' :: '\n' :: cs).length := by grind
          refine ⟨[], cs, v', rfl, ⟨hlt, p, lexed_of_step hlt fun _ _ => rfl, ?_⟩, h⟩
          simpa using hw
        · rw [scan_escape hd, keep_eq_some] at h
          obtain ⟨b, hscan, rfl⟩ := h
          exact ⟨[d], cs, b, rfl, takes_escape hw hd, hscan⟩
    · -- single quotes, taken up to the next one
      obtain ⟨a, r, b, hv, hupTo, hscan⟩ := upTo_of_scan h
      exact ⟨a, r, b, hv, takes_single hw hupTo, hscan⟩
    · exact takes_double hw h
  · rw [scan_other hc, if_neg hends] at h
    by_cases hspecial : isSpecial c
    · rw [if_pos hspecial] at h
      cases h
    · rw [if_neg hspecial, keep_eq_some] at h
      obtain ⟨b, hscan, rfl⟩ := h
      -- a `#` does not start a word, and within one it is a character like others
      have hcomment : ¬ (c = '#' ∧ w.isNone) := by
        rintro ⟨rfl, hnone⟩
        have hstarts := (hstart (Option.isNone_iff_eq_none.1 hnone)).1
        simp [startsWord] at hstarts
      exact ⟨[c], cs, b, rfl, takes_plain hw hspecial hcomment, hscan⟩

/-- The word goes on until something ends it. -/
lemma lexed_of_scan (hw : Spells w v) {v' : List Char} (h : scan .bare cs = some (v', rest))
    (hstart : w = none → Starts cs) :
    ∃ p, lexed w cs = .word p :: lexed none rest ∧ Spells (some p) (v ++ v') := by
  induction hlength : cs.length using Nat.strong_induction_on generalizing cs w v v' with
  | _ k ih =>
    subst hlength
    by_cases hends : Ends cs
    · obtain ⟨rfl, rfl⟩ := Prod.mk.inj (Option.some.inj ((scan_of_ends hends).symm.trans h))
      cases w with
      | none => exact absurd hends (hstart rfl).not_ends
      | some p => exact ⟨p, lexed_of_ends hends, by simpa using hw⟩
    · obtain ⟨a, r, b, rfl, ⟨hlt, p, hlexed, hp⟩, hscan⟩ := takes_of_scan hw h hends hstart
      obtain ⟨p', hlexed', hp'⟩ := ih _ hlt hp hscan (fun h => by cases h) rfl
      exact ⟨p', hlexed.trans hlexed', by simpa using hp'⟩

/-- **The shell starts with the first word.** -/
lemma lexed_of_firstWord (h : firstWord cs = some (v, rest)) :
    ∃ p, lexed none cs = .word p :: lexed none rest ∧
      ∀ s : State, s.fields p = [String.ofList v] := by
  fun_induction firstWord cs with
  | case1 => cases h
  | case2 cs ih =>
    have hskip : lexed none ('\\' :: '\n' :: cs) = lexed none cs :=
      lexed_of_step (by grind) fun _ _ => rfl
    rw [hskip]
    exact ih h
  | case3 c cs _ hgap ih =>
    rw [lexed_of_gap hgap]
    exact ih h
  | case4 c cs hno _ hc =>
    have hstarts : Starts (c :: cs) := by
      refine ⟨⟨c, rfl, hc⟩, ?_⟩
      rintro ⟨cs', hcs⟩
      obtain ⟨rfl, rfl⟩ := List.cons.inj hcs
      exact hno _ rfl rfl
    obtain ⟨p, hlexed, hp⟩ := lexed_of_scan (w := none) (v := []) rfl h fun _ => hstarts
    exact ⟨p, hlexed, fields_eq hp⟩
  | case5 => cases h

example : firstWord " 'it''s' \"a b\"".toList = some ("its".toList, " \"a b\"".toList) := by
  decide +kernel

end ChainRunner.Shell.Quoting
