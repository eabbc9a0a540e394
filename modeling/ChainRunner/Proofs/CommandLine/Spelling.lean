import ChainRunner.CommandLine.Arguments
import ChainRunner.Proofs.CommandLine.Sorted

/-!
The spellings of an option that takes a value.

The value stands behind the option's name, as a token of its own or after an `=`. Sorting knows
both forms for the long name and for the letter. The reader does not read a letter with an `=`,
and of a value apart it asks once more whether it is an option.
-/

namespace ChainRunner.CommandLine

variable {k : Key} {n t v program : String} {a b args : Arguments} {w w' : Waiting}
  {ts us before after : List String} {waiting : Bool}

/-! ### Names -/

/-- A name of the option: the long one, or its letter. -/
inductive Key.HasName (k : Key) : String → Prop
  | long : k.HasName ("--" ++ k.long)
  | letter (c : Char) (h : k.short? = some c) : k.HasName ("-".push c)

@[simp] lemma Key.ofLong?_long (k : Key) : Key.ofLong? k.long.toList = some k := by
  cases k <;> decide

lemma Key.ofShort?_short {c : Char} (h : k.short? = some c) : Key.ofShort? c = some k := by
  cases k <;> cases h <;> rfl

lemma Key.HasName.ne_equals (h : k.HasName n) : ∀ c ∈ n.toList, (c != '=') = true := by
  cases h with
  | long =>
    rw [String.toList_append]
    cases k <;> simp [Key.long]
  | letter c h =>
    have hc : c ≠ '=' := by
      rintro rfl
      cases k <;> simp [short?] at h
    simp [hc]

lemma tokenName_of_ne (h : ∀ c ∈ n.toList, (c != '=') = true) : tokenName n = n.toList := by
  have htake : (n.toList ++ []).takeWhile (· != '=') = n.toList ++ [].takeWhile (· != '=') :=
    List.takeWhile_append_of_pos h
  simpa [tokenName] using htake

lemma tokenValue?_of_ne (h : ∀ c ∈ n.toList, (c != '=') = true) : tokenValue? n = none := by
  have hdrop : (n.toList ++ []).dropWhile (· != '=') = [].dropWhile (· != '=') :=
    List.dropWhile_append_of_pos h
  simp only [List.append_nil, List.dropWhile_nil] at hdrop
  simp [tokenValue?, hdrop]

lemma toList_equals (n v : String) : (n ++ "=" ++ v).toList = n.toList ++ '=' :: v.toList := by
  simp

lemma tokenName_equals (h : ∀ c ∈ n.toList, (c != '=') = true) (v : String) :
    tokenName (n ++ "=" ++ v) = n.toList := by
  rw [tokenName, toList_equals, List.takeWhile_append_of_pos h]
  simp

lemma tokenValue?_equals (h : ∀ c ∈ n.toList, (c != '=') = true) (v : String) :
    tokenValue? (n ++ "=" ++ v) = some v := by
  rw [tokenValue?, toList_equals, List.dropWhile_append_of_pos h]
  simp

namespace Key.HasName

lemma ofToken? (h : k.HasName n) : Key.ofToken? n = some k := by
  rw [Key.ofToken?, tokenName_of_ne h.ne_equals]
  cases h with
  | long =>
    rw [String.toList_append]
    exact ofLong?_long k
  | letter c h =>
    have hc : c ≠ '-' := by
      rintro rfl
      cases k <;> simp [short?] at h
    simp [ofShort?_short h]

lemma ofToken?_equals (h : k.HasName n) (v : String) : Key.ofToken? (n ++ "=" ++ v) = some k := by
  rw [← h.ofToken?, Key.ofToken?, Key.ofToken?, tokenName_equals h.ne_equals,
    tokenName_of_ne h.ne_equals]

lemma isValue (h : k.HasName n) : isValue n = false := by simp [CommandLine.isValue, h.ofToken?]

lemma isValue_equals (h : k.HasName n) (v : String) :
    CommandLine.isValue (n ++ "=" ++ v) = false := by
  simp [CommandLine.isValue, h.ofToken?_equals]

lemma asksValue (h : k.HasName n) (hk : k.takesValue) : asksValue n := by
  simp [CommandLine.asksValue, h.ofToken?, hk, tokenValue?_of_ne h.ne_equals]

lemma asksValue_equals (h : k.HasName n) (v : String) :
    CommandLine.asksValue (n ++ "=" ++ v) = false := by
  simp [CommandLine.asksValue, h.ofToken?_equals, tokenValue?_equals h.ne_equals]

end Key.HasName

/-! ### Sorting -/

/-- Sorting goes on behind the tokens: no separator among them but what an option takes. -/
def sorts (waiting : Bool) : List String → Bool
  | [] => true
  | t :: ts =>
    if waiting && isValue t then sorts false ts
    else t ≠ "--" && sorts (asksValue t) ts

lemma asksValue_of_isValue (h : isValue t) : asksValue t = false := by
  have hnone : Key.ofToken? t = none := by simpa [isValue] using h
  simp [asksValue, hnone]

/-- Behind such tokens sorting stands as at the start, but for an option that waits. -/
lemma exists_sort_append (h : sorts waiting before) :
    ∃ waiting', ∀ ts, sort waiting (before ++ ts) =
      ((sort waiting before).1 ++ (sort waiting' ts).1,
        (sort waiting before).2 ++ (sort waiting' ts).2) := by
  -- what is carried from one token to the next is whether an option waits for its value
  induction before generalizing waiting with
  | nil => exact ⟨waiting, fun ts => by simp [sort]⟩
  | cons t before ih =>
    by_cases hvalue : isValue t
    · cases waiting with
      | true =>
        have htaken : sorts false before := by simpa [sorts, hvalue] using h
        obtain ⟨waiting', hsort⟩ := ih htaken
        exact ⟨waiting', fun ts => by simp [sort_value hvalue, hsort]⟩
      | false =>
        have hword : t ≠ "--" ∧ sorts false before := by
          simpa [sorts, asksValue_of_isValue hvalue] using h
        obtain ⟨waiting', hsort⟩ := ih hword.2
        have hcons := sort_word ⟨t, hvalue, hword.1⟩
        exact ⟨waiting', fun ts => by simp [hcons, hsort]⟩
    · have hoption : isValue t = false := by simpa using hvalue
      have hrest : sorts (asksValue t) before := by
        simp only [sorts, hoption, Bool.and_false, Bool.false_eq_true, if_false,
          Bool.and_eq_true] at h
        exact h.2
      obtain ⟨waiting', hsort⟩ := ih hrest
      exact ⟨waiting', fun ts => by simp [sort_option hoption, hsort]⟩

/-- Tokens that begin with an option and leave none waiting stay together. -/
lemma sorted_within (h : sorts false before)
    (hts : ∀ waiting after, sort waiting (ts ++ after) =
      (ts ++ (sort false after).1, (sort false after).2)) :
    sorted (program :: before ++ ts ++ after) = program :: ((sort false before).1 ++ (ts ++
      ((sort false after).1 ++ "--" :: ((sort false before).2 ++ (sort false after).2)))) := by
  obtain ⟨waiting', hsort⟩ := exists_sort_append h
  simp [sorted, hsort, hts]

lemma sort_apart (hn : k.HasName n) (hk : k.takesValue) (hv : isValue v) (waiting : Bool)
    (after : List String) :
    sort waiting ([n, v] ++ after) = ([n, v] ++ (sort false after).1, (sort false after).2) := by
  simp [sort_option hn.isValue, hn.asksValue hk, sort_value hv]

lemma sort_equals (hn : k.HasName n) (v : String) (waiting : Bool) (after : List String) :
    sort waiting ([n ++ "=" ++ v] ++ after) =
      ([n ++ "=" ++ v] ++ (sort false after).1, (sort false after).2) := by
  rw [List.singleton_append, sort_option (hn.isValue_equals v), hn.asksValue_equals]
  rfl

/-! ### Reading -/

lemma bind_eq_ok {α β : Type} {x : Except Refusal α} {f : α → Except Refusal β} {y : β} :
    x >>= f = .ok y ↔ ∃ z, x = .ok z ∧ f z = .ok y := by
  cases x <;> simp [bind, Except.bind]

@[simp] lemma ok_bind {α β : Type} (x : α) (f : α → Except Refusal β) :
    (Except.ok x : Except Refusal α) >>= f = f x := rfl

lemma ne_nil_of_letters {ks : List Key} {cs : List Char} (h : readsOf t = .letters ks cs) :
    ks ≠ [] := by
  rintro rfl
  unfold readsOf at h
  split at h
  · split at h <;> cases h
  · next c cs _ _ =>
    split at h
    · next ks hks =>
      obtain ⟨rfl, rfl⟩ := Reads.letters.inj h
      simp [List.mapM_cons, Option.bind_eq_some_iff] at hks
    · cases h
  · cases h

/-- A watch directory once given stays. -/
def KeepsWatch (a b : Arguments) : Prop := ∀ d, a.watch = some d → b.watch = some d

lemma KeepsWatch.refl (a : Arguments) : KeepsWatch a a := fun _ h => h

lemma KeepsWatch.trans {c : Arguments} (hab : KeepsWatch a b) (hbc : KeepsWatch b c) :
    KeepsWatch a c := fun d h => hbc d (hab d h)

lemma keepsWatch_assign {v : Option String} (h : a.assign k v = .ok b) : KeepsWatch a b := by
  intro d hd
  unfold Arguments.assign at h
  split at h <;> (try split at h) <;> (try split at h) <;> cases h <;> simp_all

lemma keepsWatch_raise (h : a.raise k = .ok b) : KeepsWatch a b := by
  intro d hd
  unfold Arguments.raise at h
  split at h <;> (try split at h) <;> cases h <;> simp_all

lemma keepsWatch_resolve (h : a.resolve w = .ok b) : KeepsWatch a b := by
  cases w with
  | none => cases h; exact .refl a
  | some w => exact keepsWatch_assign h

lemma readLetters_resolve {ks : List Key} {cs : List Char} {r : Arguments × Waiting}
    (hks : ks ≠ []) (h : readLetters a w ks cs = .ok r) :
    ∃ b, a.resolve w = .ok b ∧ readLetters b none ks cs = .ok r := by
  obtain ⟨k, ks, rfl⟩ := List.exists_cons_of_ne_nil hks
  obtain ⟨b, hb, hr⟩ := bind_eq_ok.1 h
  exact ⟨b, hb, hr⟩

lemma keepsWatch_letters {ks : List Key} {cs : List Char} {r : Arguments × Waiting}
    (h : readLetters a w ks cs = .ok r) : KeepsWatch a r.1 := by
  induction ks generalizing a w cs with
  | nil => cases h; exact .refl a
  | cons k ks ih =>
    obtain ⟨b, hb, h⟩ := bind_eq_ok.1 h
    refine (keepsWatch_resolve hb).trans ?_
    split at h
    · dsimp only at h
      split at h
      · cases h; exact .refl b
      · obtain ⟨c, hc, h⟩ := bind_eq_ok.1 h
        cases h
        exact keepsWatch_assign hc
    · obtain ⟨c, hc, h⟩ := bind_eq_ok.1 h
      exact (keepsWatch_raise hc).trans (ih h)

/-- What becomes of the reader over tokens, whatever follows them: it gets over them, or the chain
begins among them, or it refuses them. -/
inductive Passage (a : Arguments) (w : Waiting) (ts : List String) : Prop
  | passes (b : Arguments) (w' : Waiting) (hwatch : KeepsWatch a b)
      (h : ∀ rest, read a w (ts ++ rest) = read b w' rest)
  | begins (b : Arguments) (words : List String) (hwatch : KeepsWatch a b)
      (hwords : words.length ≤ ts.length)
      (h : ∀ rest, read a w (ts ++ rest) = .ok { b with chain := words ++ rest })
  | refused (r : Refusal) (h : ∀ rest, read a w (ts ++ rest) = .error r)

/-- What the reader makes of the first token. -/
lemma read_cons (a : Arguments) (w : Waiting) (t : String) (rest : List String) :
    read a w (t :: rest) =
      if t = "--" then a.resolve w >>= fun b => .ok { b with chain := rest }
      else
        match readsOf t with
        | .long k (some v) =>
          if k.takesValue then
            a.resolve w >>= fun b => b.assign k (some v) >>= fun b => read b none rest
          else .error .unwantedValue
        | .long k none =>
          if k.takesValue then a.resolve w >>= fun b => read b (some (k, none)) rest
          else a.resolve w >>= fun b => b.raise k >>= fun b => read b none rest
        | .letters ks cs => readLetters a w ks cs >>= fun r => read r.1 r.2 rest
        | .plain =>
          match w with
          | some (k, none) => read a (some (k, some t)) rest
          | w => a.resolve w >>= fun b => .ok { b with chain := t :: rest } := rfl

lemma read_separator (a : Arguments) (w : Waiting) (rest : List String) :
    read a w ("--" :: rest) = a.resolve w >>= fun b => .ok { b with chain := rest } := by
  rw [read_cons, if_pos rfl]

lemma read_value (hne : t ≠ "--") (h : readsOf t = .long k (some v)) (hk : k.takesValue)
    (a : Arguments) (w : Waiting) (rest : List String) :
    read a w (t :: rest) =
      a.resolve w >>= fun b => b.assign k (some v) >>= fun b => read b none rest := by
  simp [read_cons, hne, h, hk]

lemma read_asks (hne : t ≠ "--") (h : readsOf t = .long k none) (hk : k.takesValue)
    (a : Arguments) (w : Waiting) (rest : List String) :
    read a w (t :: rest) = a.resolve w >>= fun b => read b (some (k, none)) rest := by
  simp [read_cons, hne, h, hk]

lemma read_flag (hne : t ≠ "--") (h : readsOf t = .long k none) (hk : ¬ k.takesValue)
    (a : Arguments) (w : Waiting) (rest : List String) :
    read a w (t :: rest) =
      a.resolve w >>= fun b => b.raise k >>= fun b => read b none rest := by
  simp [read_cons, hne, h, hk]

lemma read_letters {ks : List Key} {cs : List Char} (hne : t ≠ "--")
    (h : readsOf t = .letters ks cs) (a : Arguments) (w : Waiting) (rest : List String) :
    read a w (t :: rest) = readLetters a w ks cs >>= fun r => read r.1 r.2 rest := by
  simp [read_cons, hne, h]

lemma read_taken (hne : t ≠ "--") (h : readsOf t = .plain) (a : Arguments) (k : Key)
    (rest : List String) :
    read a (some (k, none)) (t :: rest) = read a (some (k, some t)) rest := by
  simp [read_cons, hne, h]

/-- A word that no option takes begins the chain. -/
lemma read_word (hne : t ≠ "--") (h : readsOf t = .plain) (hw : ∀ k, w ≠ some (k, none))
    (a : Arguments) (rest : List String) :
    read a w (t :: rest) = a.resolve w >>= fun b => .ok { b with chain := t :: rest } := by
  match w, hw with
  | none, _ => simp [read_cons, hne, h]
  | some (k, some v), _ => simp [read_cons, hne, h]
  | some (k, none), hw => exact absurd rfl (hw k)

lemma Passage.of_passes {x : Reading} {f : Arguments → Waiting}
    (h : ∀ rest, read a w (ts ++ rest) = x >>= fun b => read b (f b) rest)
    (hwatch : ∀ b, x = .ok b → KeepsWatch a b) : Passage a w ts := by
  cases x with
  | error r => exact .refused r h
  | ok b => exact .passes b (f b) (hwatch b rfl) h

lemma Passage.of_begins (words : List String) (hwords : words.length ≤ ts.length)
    (h : ∀ rest, read a w (ts ++ rest) =
      a.resolve w >>= fun b => .ok { b with chain := words ++ rest }) :
    Passage a w ts := by
  cases hb : a.resolve w with
  | error r => exact .refused r fun rest => by rw [h, hb]; rfl
  | ok b => exact .begins b words (keepsWatch_resolve hb) hwords fun rest => by rw [h, hb]; rfl

lemma passage_token (a : Arguments) (w : Waiting) (t : String) : Passage a w [t] := by
  by_cases hne : t = "--"
  · subst hne
    exact .of_begins [] (by simp) fun rest => read_separator a w rest
  -- what a token does depends on how it reads, and on whether an option waits for a value
  cases hreads : readsOf t with
  | long k v =>
    by_cases hk : k.takesValue
    · cases v with
      | none =>
        exact .of_passes (fun rest => read_asks hne hreads hk a w rest)
          fun b hb => keepsWatch_resolve hb
      | some v =>
        refine .of_passes (x := a.resolve w >>= fun b => b.assign k (some v)) (f := fun _ => none)
          (fun rest => by simp [read_value hne hreads hk]) fun c hc => ?_
        obtain ⟨b, hb, hc⟩ := bind_eq_ok.1 hc
        exact (keepsWatch_resolve hb).trans (keepsWatch_assign hc)
    · cases v with
      | none =>
        refine .of_passes (x := a.resolve w >>= fun b => b.raise k) (f := fun _ => none)
          (fun rest => by simp [read_flag hne hreads hk]) fun c hc => ?_
        obtain ⟨b, hb, hc⟩ := bind_eq_ok.1 hc
        exact (keepsWatch_resolve hb).trans (keepsWatch_raise hc)
      | some v => exact .refused .unwantedValue fun rest => by simp [read_cons, hne, hreads, hk]
  | letters ks cs =>
    have hread := read_letters hne hreads a w
    cases hr : readLetters a w ks cs with
    | error r => exact .refused r fun rest => by rw [List.singleton_append, hread, hr]; rfl
    | ok r =>
      exact .passes r.1 r.2 (keepsWatch_letters hr) fun rest => by
        rw [List.singleton_append, hread, hr]; rfl
  | plain =>
    by_cases hw : ∃ k, w = some (k, none)
    · obtain ⟨k, rfl⟩ := hw
      exact .passes a _ (.refl a) fun rest => read_taken hne hreads a k rest
    · have hw : ∀ k, w ≠ some (k, none) := fun k hk => hw ⟨k, hk⟩
      exact .of_begins [t] (by simp) fun rest => read_word hne hreads hw a rest

lemma passage (a : Arguments) (w : Waiting) (ts : List String) : Passage a w ts := by
  induction ts generalizing a w with
  | nil => exact .passes a w (.refl a) fun _ => rfl
  | cons t ts ih =>
    have hcons (rest : List String) : t :: ts ++ rest = [t] ++ (ts ++ rest) := rfl
    cases passage_token a w t with
    | passes b w' hwatch h =>
      cases ih b w' with
      | passes c w'' hwatch' h' =>
        exact .passes c w'' (hwatch.trans hwatch') fun rest => by rw [hcons, h, h']
      | begins c words hwatch' hwords h' =>
        exact .begins c words (hwatch.trans hwatch') (Nat.le_succ_of_le hwords)
          fun rest => by rw [hcons, h, h']
      | refused r h' => exact .refused r fun rest => by rw [hcons, h, h']
    | begins b words hwatch hwords h =>
      refine .begins b (words ++ ts) hwatch ?_ fun rest => by
        rw [hcons, h, List.append_assoc]
      simp only [List.length_append, List.length_cons, List.length_nil] at hwords ⊢
      omega
    | refused r h => exact .refused r fun rest => by rw [hcons, h]

lemma keepsWatch_read (h : read a w ts = .ok b) : KeepsWatch a b := by
  cases passage a w ts with
  | passes c w' hwatch hread =>
    have hc := hread []
    rw [List.append_nil, h] at hc
    exact hwatch.trans (keepsWatch_resolve hc.symm)
  | begins c words hwatch hwords hread =>
    have hc := hread []
    rw [List.append_nil, h] at hc
    cases hc
    exact hwatch
  | refused r hread =>
    have hc := hread []
    rw [List.append_nil, h] at hc
    cases hc

/-- Behind a separator stands a chain, and nothing is added to it. -/
lemma length_chain_le (h : read a w (ts ++ "--" :: us) = .ok b) :
    b.chain.length ≤ (ts ++ "--" :: us).length := by
  cases passage a w ts with
  | passes c w' hwatch hread =>
    rw [hread, read_separator] at h
    obtain ⟨d, -, hd⟩ := bind_eq_ok.1 h
    cases hd
    simp only [List.length_append, List.length_cons]
    omega
  | begins c words hwatch hwords hread =>
    rw [hread] at h
    cases h
    simpa using hwords
  | refused r hread =>
    rw [hread] at h
    cases h

/-- An option that holds its value is settled first, but for a flag with a value, which is refused
as such. -/
lemma read_cons_settled (a : Arguments) (k : Key) (v t : String) (ts : List String) :
    (∀ b w, read b w (t :: ts) = .error .unwantedValue) ∨
      read a (some (k, some v)) (t :: ts) =
        a.assign k (some v) >>= fun b => read b none (t :: ts) := by
  by_cases hne : t = "--"
  · subst hne
    exact .inr (by simp [read_separator, Arguments.resolve])
  cases hreads : readsOf t with
  | long k' v' =>
    by_cases hk : k'.takesValue
    · cases v' with
      | none => exact .inr (by simp [read_asks hne hreads hk, Arguments.resolve])
      | some v' => exact .inr (by simp [read_value hne hreads hk, Arguments.resolve])
    · cases v' with
      | none => exact .inr (by simp [read_flag hne hreads hk, Arguments.resolve])
      | some v' => exact .inl fun b w => by simp [read_cons, hne, hreads, hk]
  | letters ks cs =>
    obtain ⟨k', ks, rfl⟩ := List.exists_cons_of_ne_nil (ne_nil_of_letters hreads)
    exact .inr (by simp [read_letters hne hreads, readLetters, Arguments.resolve])
  | plain =>
    exact .inr (by simp [read_word hne hreads, Arguments.resolve])

/-- When an option that holds its value is settled shows only in why the tokens are refused. -/
lemma read_settled (k : Key) (v : String) (ts : List String) :
    read a (some (k, some v)) ts = .ok args ↔
      ∃ b, a.assign k (some v) = .ok b ∧ read b none ts = .ok args := by
  rw [← bind_eq_ok]
  cases ts with
  | nil =>
    rw [bind_eq_ok]
    exact ⟨fun h => ⟨args, h, rfl⟩, fun ⟨b, hb, h⟩ => hb.trans h⟩
  | cons t ts =>
    rcases read_cons_settled a k v t ts with h | h
    · simp [bind_eq_ok, h]
    · rw [h]

/-! ### The option in its spellings -/

/-- The option with its value behind an `=`, by its long name and by its letter. -/
def Key.longEquals (k : Key) (v : String) : String := "--" ++ k.long ++ "=" ++ v

def letterEquals (c : Char) (v : String) : String := "-".push c ++ "=" ++ v

lemma Key.sort_longEquals (k : Key) (waiting : Bool) (after : List String) :
    sort waiting ([k.longEquals v] ++ after) =
      ([k.longEquals v] ++ (sort false after).1, (sort false after).2) :=
  sort_equals .long v waiting after

lemma sort_letterEquals {c : Char} (h : k.short? = some c) (waiting : Bool) (after : List String) :
    sort waiting ([letterEquals c v] ++ after) =
      ([letterEquals c v] ++ (sort false after).1, (sort false after).2) :=
  sort_equals (.letter c h) v waiting after

lemma ne_separator_of_option (h : isValue t = false) : t ≠ "--" := by
  rintro rfl
  simp [isValue_separator] at h

lemma readsOf_long (k : Key) : readsOf ("--" ++ k.long) = .long k none := by
  have hne := Key.HasName.long (k := k).ne_equals
  have hname : (tokenName ("--" ++ k.long)).drop 2 = k.long.toList := by
    rw [tokenName_of_ne hne, String.toList_append]
    rfl
  unfold readsOf
  simp only [String.toList_append, hname, tokenValue?_of_ne hne, Key.ofLong?_long]
  rfl

lemma readsOf_longEquals (k : Key) (v : String) : readsOf (k.longEquals v) = .long k (some v) := by
  have hne := Key.HasName.long (k := k).ne_equals
  have htoList : (k.longEquals v).toList = '-' :: '-' :: (k.long.toList ++ '=' :: v.toList) := by
    simp [Key.longEquals]
  have hname : (tokenName (k.longEquals v)).drop 2 = k.long.toList := by
    rw [Key.longEquals, tokenName_equals hne]
    simp
  have hvalue : tokenValue? (k.longEquals v) = some v := tokenValue?_equals hne v
  unfold readsOf
  simp only [htoList, hname, hvalue, Key.ofLong?_long]

lemma readsOf_letter {c : Char} (h : k.short? = some c) :
    readsOf ("-".push c) = .letters [k] [c] := by
  cases k <;> cases h <;> rfl

/-- A letter and an `=` are no letters of options. -/
lemma readsOf_letterEquals {c : Char} (h : k.short? = some c) (v : String) :
    readsOf (letterEquals c v) = .plain := by
  have htoList : (letterEquals c v).toList = '-' :: c :: '=' :: v.toList := by
    simp [letterEquals]
  have hc : c ≠ '-' := by
    rintro rfl
    cases k <;> simp [Key.short?] at h
  have hequals : Key.ofShort? '=' = none := by decide
  unfold readsOf
  rw [htoList]
  split
  · simp_all
  · next c' cs _ heq =>
    obtain ⟨rfl, rfl⟩ : c = c' ∧ '=' :: v.toList = cs := by simpa using heq
    simp [List.mapM_cons, hequals]
  · rfl

/-- Both names of an option leave it waiting for its value. -/
lemma read_name (hn : k.HasName n) (hk : k.takesValue) (rest : List String) :
    read a w (n :: rest) = a.resolve w >>= fun b => read b (some (k, none)) rest := by
  have hne := ne_separator_of_option hn.isValue
  cases hn with
  | long => exact read_asks hne (readsOf_long k) hk a w rest
  | letter c h =>
    simp [read_letters hne (readsOf_letter h), readLetters, hk]

lemma read_longEquals (hk : k.takesValue) (v : String) (rest : List String) :
    read a w (k.longEquals v :: rest) =
      a.resolve w >>= fun b => b.assign k (some v) >>= fun b => read b none rest :=
  read_value (ne_separator_of_option (Key.HasName.long.isValue_equals v))
    (readsOf_longEquals k v) hk a w rest

lemma isValue_of_long {v : Option String} (h : readsOf t = .long k v) : isValue t = false := by
  unfold readsOf at h
  split at h
  · next cs htoList =>
    have hname : tokenName t = '-' :: '-' :: cs.takeWhile (· != '=') := by
      simp [tokenName, htoList]
    split at h
    · next k' hk' =>
      rw [hname] at hk'
      have hsome : Key.ofToken? t = some k' := by
        rw [Key.ofToken?, hname]
        exact hk'
      simp [isValue, hsome]
    · cases h
  · split at h <;> cases h
  · cases h

lemma assign_none (h : a.assign k none = .ok b) : k = .watch ∧ b.watch = some "." := by
  cases k <;> simp only [Arguments.assign, reduceCtorEq] at h
  split at h
  · cases h
  · cases h
    exact ⟨rfl, rfl⟩

lemma watch_assign (h : a.assign .watch (some v) = .ok b) : b.watch = some v := by
  simp only [Arguments.assign] at h
  split at h
  · cases h
  · cases h
    rfl

/-- A value apart is read as one behind an `=`. -/
lemma read_apart (hn : k.HasName n) (hk : k.takesValue) (hne : v ≠ "--") (hv : readsOf v = .plain)
    (rest : List String) :
    read a w (n :: v :: rest) = .ok args ↔ read a w (k.longEquals v :: rest) = .ok args := by
  rw [read_name hn hk, read_longEquals hk, bind_eq_ok, bind_eq_ok]
  refine exists_congr fun b => and_congr_right fun _ => ?_
  rw [read_taken hne hv, read_settled, bind_eq_ok]

/-- Letters of options apart from a name are not its value. -/
lemma plain_of_read_apart (hn : k.HasName n) (hk : k.takesValue) (hvalue : isValue v)
    (hne : v ≠ "--") {rest : List String} (hapart : read a w (n :: v :: rest) = .ok args)
    (hequals : read a w (k.longEquals v :: rest) = .ok args) : readsOf v = .plain := by
  cases hv : readsOf v with
  | plain => rfl
  | long k' v' => simp [isValue_of_long hv] at hvalue
  | letters ks cs =>
    rw [read_name hn hk] at hapart
    obtain ⟨b, hb, hname⟩ := bind_eq_ok.1 hapart
    rw [read_letters hne hv] at hname
    obtain ⟨r, hr, hrest⟩ := bind_eq_ok.1 hname
    obtain ⟨c, hc, hcluster⟩ := readLetters_resolve (ne_nil_of_letters hv) hr
    obtain ⟨rfl, hdot⟩ := assign_none hc
    rw [read_longEquals hk, hb, ok_bind] at hequals
    obtain ⟨d, hd, hrest'⟩ := bind_eq_ok.1 hequals
    have hwatch := keepsWatch_read hrest _ (keepsWatch_letters hcluster _ hdot)
    have hwatch' := keepsWatch_read hrest' _ (watch_assign hd)
    obtain rfl : v = "." := by simpa [hwatch] using hwatch'.symm
    cases hv

/-- A letter with an `=` is a word: an option takes it, or it begins the chain. -/
lemma not_read_letterEquals {c : Char} (hc : k.short? = some c) (hk : k.takesValue)
    (hequals : read a w (k.longEquals v :: (ts ++ "--" :: us)) = .ok args) :
    read a w (letterEquals c v :: (ts ++ "--" :: us)) ≠ .ok args := by
  intro hletter
  have hplain := readsOf_letterEquals hc v
  have hne : letterEquals c v ≠ "--" :=
    ne_separator_of_option ((Key.HasName.letter c hc).isValue_equals v)
  rw [read_longEquals hk] at hequals
  obtain ⟨b, hb, hassign⟩ := bind_eq_ok.1 hequals
  obtain ⟨d, hd, hrest⟩ := bind_eq_ok.1 hassign
  by_cases hw : ∃ k', w = some (k', none)
  · obtain ⟨k', rfl⟩ := hw
    obtain ⟨rfl, hdot⟩ := assign_none hb
    rw [read_taken hne hplain, read_settled] at hletter
    obtain ⟨e, he, hrest'⟩ := hletter
    have hwatch := keepsWatch_read hrest _ (keepsWatch_assign hd _ hdot)
    have hwatch' := keepsWatch_read hrest' _ (watch_assign he)
    have hletter : letterEquals c v = "." := by simpa [hwatch] using hwatch'.symm
    simpa [letterEquals] using congrArg String.toList hletter
  · rw [read_word hne hplain fun k' hk' => hw ⟨k', hk'⟩, hb] at hletter
    cases hletter
    have hlength := length_chain_le hrest
    simp only [List.length_cons] at hlength
    omega

/-! ### In a command line -/

/-- The reader gets to the end of the options among the tokens. -/
def Reached (before : List String) : Prop :=
  ∃ a w, ∀ rest, read {} none ((sort false before).1 ++ rest) = read a w rest

/-- What is read of an option that holds its value, and of all that is sorted behind it. -/
lemma parse_within (hsorts : sorts false before)
    (hts : ∀ waiting after, sort waiting (ts ++ after) =
      (ts ++ (sort false after).1, (sort false after).2)) (program : String) (after : List String) :
    parse (program :: before ++ ts ++ after) = read {} none ((sort false before).1 ++ (ts ++
      ((sort false after).1 ++ "--" :: ((sort false before).2 ++ (sort false after).2)))) := by
  rw [parse, sorted_within hsorts hts]
  rfl

/-- Where the chain begins before them, different tokens give different chains. -/
lemma reached_of_read_eq {rest : List String} (hne : ts ≠ us)
    (hts : read {} none ((sort false before).1 ++ (ts ++ rest)) = .ok args)
    (hus : read {} none ((sort false before).1 ++ (us ++ rest)) = .ok args) : Reached before := by
  cases passage {} none (sort false before).1 with
  | passes b w hwatch h => exact ⟨b, w, h⟩
  | begins b words hwatch hwords h =>
    rw [h] at hts hus
    have hchain := congrArg Arguments.chain (Except.ok.inj (hts.trans hus.symm))
    simp [hne] at hchain
  | refused r h => simp [h] at hts

/-- **How an option is spelled matters.** Where the options before it are read to their end, its two
names are the same to a value that stands apart, and so is the long one with an `=` unless the
value is made of letters of options. Elsewhere the form with the `=`, if it is accepted, asks for
something else than those apart; and the letter with an `=` always does. -/
theorem parse_spellings (hn : k.HasName n) (hk : k.takesValue) (hvalue : isValue v)
    (hne : v ≠ "--") (hsorts : sorts false before) (program : String) (after : List String) :
    (Reached before → ∀ n', k.HasName n' →
      parse (program :: before ++ [n', v] ++ after) =
        parse (program :: before ++ [n, v] ++ after)) ∧
    (Reached before → readsOf v = .plain → ∀ args,
      parse (program :: before ++ [n, v] ++ after) = .ok args ↔
        parse (program :: before ++ [k.longEquals v] ++ after) = .ok args) ∧
    ∀ args, parse (program :: before ++ [k.longEquals v] ++ after) = .ok args →
      (parse (program :: before ++ [n, v] ++ after) = .ok args →
        Reached before ∧ readsOf v = .plain) ∧
      ∀ c, k.short? = some c →
        parse (program :: before ++ [letterEquals c v] ++ after) ≠ .ok args := by
  -- either way the reader comes to the option with what it has read before
  have hapart {n'} (hn' : k.HasName n') :=
    parse_within hsorts (sort_apart hn' hk hvalue) program after
  rw [hapart hn, parse_within hsorts k.sort_longEquals]
  refine ⟨?_, ?_, fun args hargs => ⟨fun hargs' => ?_, fun c hc hletter => ?_⟩⟩
  · rintro ⟨a, w, hread⟩ n' hn'
    rw [hapart hn', hread, hread]
    exact (read_name hn' hk _).trans (read_name hn hk _).symm
  · rintro ⟨a, w, hread⟩ hplain args
    rw [hread, hread]
    exact read_apart hn hk hne hplain _
  · obtain ⟨a, w, hread⟩ := reached_of_read_eq (by simp) hargs' hargs
    rw [hread] at hargs hargs'
    exact ⟨⟨a, w, hread⟩, plain_of_read_apart hn hk hvalue hne hargs' hargs⟩
  · rw [parse_within hsorts (sort_letterEquals hc)] at hletter
    have hspelled : [letterEquals c v] ≠ [k.longEquals v] := fun h => by
      simpa [readsOf_letterEquals hc, readsOf_longEquals] using congrArg (List.map readsOf) h
    obtain ⟨a, w, hread⟩ := reached_of_read_eq hspelled hletter hargs
    rw [hread] at hargs hletter
    exact not_read_letterEquals hc hk hargs hletter

/-- The projects behind a flag: the value apart and the long form agree, the letter with an `=`
begins the chain. -/
theorem parse_spellings_projects :
    (∀ args, parse ["runna", "-v", "-p", "red", "a"] = .ok args ↔
      parse ["runna", "-v", "--projects=red", "a"] = .ok args) ∧
    parse ["runna", "-v", "-p=red", "a"] ≠
      .ok { chain := ["a"], projects := ["red"], verbose := true } ∧
    parse ["runna", "-v", "-p=red", "a"] =
      .ok { chain := ["-p=red", "--", "a"], verbose := true } := by
  have hletter : Key.short? .projects = some 'p' := rfl
  obtain ⟨-, hagree, hdiffer⟩ := @parse_spellings .projects "-p" "red" ["-v"]
    (.letter 'p' hletter) rfl (by decide) (by decide) (by decide) "runna" ["a"]
  have hreached : Reached ["-v"] := ⟨{ verbose := true }, none, fun rest => rfl⟩
  exact ⟨hagree hreached rfl, (hdiffer _ rfl).2 'p' hletter, rfl⟩

end ChainRunner.CommandLine
