import Mathlib.Data.List.Chain
import ChainRunner.CommandLine.Sorted
import ChainRunner.Proofs.Interleaving

/-!
A command line as chain words and settings, and how it is sorted.

A setting is an option with its value. A word directly behind an option that lacks its value would
be that value; but for that the two may be mixed in any way, and sorting parts them.
-/

namespace ChainRunner.CommandLine

/-- The token is an option that takes a value and does not hold it. -/
def asksValue (t : String) : Bool :=
  (Key.ofToken? t).any fun k => k.takesValue && (tokenValue? t).isNone

/-- A token that is neither an option nor the separator. -/
structure Word where
  text : String
  isValue : isValue text
  ne_separator : text ≠ "--"

/-- An option, with its value if that is a token of its own. -/
structure Setting where
  option : String
  value : Option Word
  declared : CommandLine.isValue option = false
  asks : value ≠ none → asksValue option

namespace Setting

def tokens (o : Setting) : List String := o.option :: (o.value.map Word.text).toList

/-- The option lacks the value it takes. -/
def isBare (o : Setting) : Bool := asksValue o.option && o.value.isNone

end Setting

inductive Item
  | word (w : Word)
  | setting (o : Setting)

namespace Item

def tokens : Item → List String
  | word w => [w.text]
  | setting o => o.tokens

def isBare : Item → Bool
  | word _ => false
  | setting o => o.isBare

def word? : Item → Option Word
  | word w => some w
  | setting _ => none

def setting? : Item → Option Setting
  | word _ => none
  | setting o => some o

end Item

/-- No word stands directly behind an option that lacks its value. -/
def Placed (items : List Item) : Prop :=
  items.IsChain fun x y => x.isBare → y.setting?.isSome

/-- The chain words. -/
def wordsOf (items : List Item) : List String := (items.filterMap Item.word?).map Word.text

/-- The options with their values. -/
def optionsOf (items : List Item) : List String :=
  (items.filterMap Item.setting?).flatMap Setting.tokens

instance (items : List Item) : Decidable (Placed items) :=
  inferInstanceAs (Decidable (items.IsChain _))

variable {t : String} {ts before : List String} {x : Item} {items : List Item}
  {words : List Word} {settings : List Setting}

@[simp] lemma wordsOf_word (w : Word) : wordsOf (.word w :: items) = w.text :: wordsOf items := rfl

@[simp] lemma wordsOf_setting (o : Setting) : wordsOf (.setting o :: items) = wordsOf items := rfl

@[simp] lemma optionsOf_word (w : Word) : optionsOf (.word w :: items) = optionsOf items := rfl

@[simp] lemma optionsOf_setting (o : Setting) :
    optionsOf (.setting o :: items) = o.tokens ++ optionsOf items := rfl

/-! ### Token by token -/

lemma isValue_separator : isValue "--" := by decide

lemma Word.ofToken?_text (w : Word) : Key.ofToken? w.text = none := by
  simpa [CommandLine.isValue] using w.isValue

lemma sort_option (h : isValue t = false) (waiting : Bool) (ts : List String) :
    sort waiting (t :: ts) = (t :: (sort (asksValue t) ts).1, (sort (asksValue t) ts).2) := by
  have hne : t ≠ "--" := by
    rintro rfl
    simp [isValue_separator] at h
  have hsome : (Key.ofToken? t).isSome := by simpa [isValue] using h
  obtain ⟨k, hk⟩ := Option.isSome_iff_exists.1 hsome
  simp [sort, h, hne, hk, asksValue]

lemma sort_value (h : isValue t) (ts : List String) :
    sort true (t :: ts) = (t :: (sort false ts).1, (sort false ts).2) := by
  simp [sort, h]

lemma sort_word (w : Word) (ts : List String) :
    sort false (w.text :: ts) = ((sort false ts).1, w.text :: (sort false ts).2) := by
  simp [sort, w.ne_separator, w.ofToken?_text]

lemma sort_setting (o : Setting) (waiting : Bool) (ts : List String) :
    sort waiting (o.tokens ++ ts) =
      (o.tokens ++ (sort o.isBare ts).1, (sort o.isBare ts).2) := by
  obtain ⟨option, value, declared, asks⟩ := o
  simp only [Setting.tokens, Setting.isBare, List.cons_append]
  rw [sort_option declared]
  cases value with
  | none => simp
  | some w =>
    have hasks : asksValue option := asks (by simp)
    simp [hasks, sort_value w.isValue]

/-! ### Item by item -/

lemma placed_cons : Placed (x :: items) ↔
    (x.isBare → ∀ y ∈ items.head?, y.setting?.isSome) ∧ Placed items := by
  rw [Placed, List.isChain_cons]
  exact and_congr_left' ⟨fun h hb y hy => h y hy hb, fun h y hy hb => h hb y hy⟩

/-- Whether an option waits for a value behind the items. -/
def waitsBehind (waiting : Bool) (items : List Item) : Bool :=
  (items.getLast?.map Item.isBare).getD waiting

lemma waitsBehind_cons (waiting : Bool) :
    waitsBehind waiting (x :: items) = waitsBehind x.isBare items := by
  simp only [waitsBehind, List.getLast?_cons]
  cases items.getLast? <;> rfl

lemma sort_items (hplaced : Placed items) (waiting : Bool)
    (hfirst : waiting → ∀ x ∈ items.head?, x.setting?.isSome) (ts : List String) :
    sort waiting (items.flatMap Item.tokens ++ ts) =
      (optionsOf items ++ (sort (waitsBehind waiting items) ts).1,
        wordsOf items ++ (sort (waitsBehind waiting items) ts).2) := by
  induction items generalizing waiting with
  | nil => rfl
  | cons x items ih =>
    obtain ⟨hnext, hrest⟩ := placed_cons.1 hplaced
    have hsort := ih hrest x.isBare hnext
    rw [List.flatMap_cons, List.append_assoc, waitsBehind_cons]
    cases x with
    | word w =>
      have hwaiting : waiting = false := by
        cases waiting with
        | false => rfl
        | true => simpa [Item.setting?] using hfirst rfl (.word w) rfl
      simp only [Item.isBare] at hsort ⊢
      simp [hwaiting, Item.tokens, sort_word, hsort]
    | setting o =>
      simp only [Item.isBare] at hsort ⊢
      simp [Item.tokens, sort_setting, hsort]

lemma sorted_items (hplaced : Placed items) (program : String) (ts : List String) :
    sorted (program :: items.flatMap Item.tokens ++ ts) =
      program :: optionsOf items ++ (sort (waitsBehind false items) ts).1 ++
        "--" :: (wordsOf items ++ (sort (waitsBehind false items) ts).2) := by
  have hsort := sort_items hplaced false (by simp) ts
  rw [sorted, List.cons_append, List.drop_one, List.tail_cons, hsort]
  simp

lemma exists_items (h : "--" ∉ ts) : ∃ items, Placed items ∧ items.flatMap Item.tokens = ts := by
  induction ts with
  | nil => exact ⟨[], .nil, rfl⟩
  | cons t ts ih =>
    obtain ⟨hne, hts⟩ := List.ne_and_not_mem_of_not_mem_cons h
    obtain ⟨items, hplaced, rfl⟩ := ih hts
    by_cases hvalue : isValue t
    · exact ⟨.word ⟨t, hvalue, hne.symm⟩ :: items, placed_cons.2 ⟨nofun, hplaced⟩, rfl⟩
    have hoption : isValue t = false := by simpa using hvalue
    have hbare (hnext : asksValue t → ∀ y ∈ items.head?, y.setting?.isSome) :
        ∃ items', Placed items' ∧ items'.flatMap Item.tokens = t :: items.flatMap Item.tokens :=
      ⟨.setting ⟨t, none, hoption, by simp⟩ :: items,
        placed_cons.2 ⟨fun hb => hnext (by simpa [Item.isBare, Setting.isBare] using hb), hplaced⟩,
        rfl⟩
    by_cases hasks : asksValue t
    · cases items with
      | nil => exact hbare (by simp)
      | cons x items =>
        cases x with
        | word w =>
          -- the word is the value
          refine ⟨.setting ⟨t, some w, hoption, fun _ => hasks⟩ :: items,
            placed_cons.2 ⟨?_, (placed_cons.1 hplaced).2⟩, rfl⟩
          simp [Item.isBare, Setting.isBare]
        | setting o => exact hbare (by simp [Item.setting?])
    · exact hbare fun h => absurd h hasks

lemma asksValue_getLast? (items : List Item) :
    (items.flatMap Item.tokens).getLast?.any asksValue = waitsBehind false items := by
  have hword (w : Word) : asksValue w.text = false := by simp [asksValue, w.ofToken?_text]
  have hlast (x : Item) : ∃ t, x.tokens.getLast? = some t ∧ asksValue t = x.isBare := by
    cases x with
    | word w => exact ⟨w.text, rfl, hword w⟩
    | setting o =>
      obtain ⟨option, value, -, -⟩ := o
      cases value with
      | none => exact ⟨option, rfl, by simp [Item.isBare, Setting.isBare]⟩
      | some w => exact ⟨w.text, rfl, by simp [Item.isBare, Setting.isBare, hword]⟩
  rcases List.eq_nil_or_concat items with rfl | ⟨items, x, rfl⟩
  · rfl
  · obtain ⟨t, ht, hasks⟩ := hlast x
    simp [waitsBehind, ht, hasks]

/-- **What follows the separator is chain, unless the option before it lacks its value.** Such an
option takes the separator, and what follows is sorted in its turn. -/
theorem sorted_separator (h : "--" ∉ before) :
    (∃ items, Placed items ∧ items.flatMap Item.tokens = before) ∧
    ∀ items, Placed items → items.flatMap Item.tokens = before → ∀ program after,
      sorted (program :: before ++ "--" :: after) =
        if before.getLast?.any asksValue then
          program :: optionsOf items ++ "--" :: (sort false after).1 ++
            "--" :: (wordsOf items ++ (sort false after).2)
        else program :: optionsOf items ++ "--" :: (wordsOf items ++ after) := by
  refine ⟨exists_items h, ?_⟩
  rintro items hplaced rfl program after
  rw [sorted_items hplaced, asksValue_getLast?]
  cases waitsBehind false items with
  | true => simp [sort_value isValue_separator]
  | false => simp [sort]

/-- A `-w` takes the separator, and the `-v` behind it is an option. -/
theorem sorted_separator_taken :
    sorted ["runna", "a", "-w", "--", "-v", "x"] = ["runna", "-w", "--", "-v", "--", "a", "x"] := by
  have hbefore : "--" ∉ ["a", "-w"] := by decide
  obtain ⟨-, hsorted⟩ := sorted_separator hbefore
  exact hsorted [.word ⟨"a", by decide, by decide⟩, .setting ⟨"-w", none, by decide, by simp⟩]
    (by decide) rfl "runna" ["-v", "x"]

end ChainRunner.CommandLine
