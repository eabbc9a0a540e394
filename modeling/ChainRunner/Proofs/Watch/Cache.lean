import Mathlib.Logic.Relation
import ChainRunner.Proofs.Watch.Directory
import ChainRunner.Watch.Rule

/-!
What the cache of compiled rules hides.

The key of the cache takes directories by their components while patterns are put behind their
texts, which makes no difference to the rules; so a call with the cache has the answer it has
without. Lists of rules are numbered as they are compiled; calls are answered with one and the same
list as long as nothing is compiled for another key.
-/

namespace ChainRunner.Watch

open ChainRunner.Path

namespace RuleCache

/-- What rules are compiled for. -/
abbrev Key := Variables × String

/-- The same variables, and the same directory however it is written. -/
def SameKey (k k' : Key) : Prop := k.1 = k'.1 ∧ components k.2 = components k'.2

/-- There are rules for the key. -/
def Compiles (observe : Observe) (k : Key) : Prop :=
  ∃ rules, Rule.ofObserve observe k.1 k.2 = .ok rules

/-- The cache, and how many lists of rules were compiled; the last one is at hand. -/
structure Counted where
  cache : RuleCache := {}
  compiled : Nat := 0

/-- The cache after some calls. -/
def afterCalls (observe : Observe) (ks : List Key) : RuleCache :=
  ks.foldl (fun c k => (c.get observe k.1 k.2).2) {}

namespace Counted

/-- A call with the cache: its answer, with the number of the list. -/
def ask (c : Counted) (observe : Observe) (k : Key) :
    Except PatternError (Nat × List Rule) × Counted :=
  let number := if (c.cache.find? k.1 k.2).isSome then c.compiled else c.compiled + 1
  match c.cache.get observe k.1 k.2 with
  | (.error e, cache) => (.error e, { c with cache })
  | (.ok rules, cache) => (.ok (number, rules), ⟨cache, number⟩)

def after (c : Counted) (observe : Observe) (ks : List Key) : Counted :=
  ks.foldl (fun c k => (c.ask observe k).2) c

end Counted

variable {observe : Observe} {c : Counted} {k k' j : Key} {rules rules' : List Rule} {n : Nat}
  {earlier between : List Key}

namespace SameKey

lemma symm (h : SameKey k k') : SameKey k' k := ⟨h.1.symm, h.2.symm⟩

lemma trans (h : SameKey k k') (h' : SameKey k' j) : SameKey k j :=
  ⟨h.1.trans h'.1, h.2.trans h'.2⟩

/-- One key serves as well as the other. -/
lemma ofObserve_eq (h : SameKey k k') (observe : Observe) :
    Rule.ofObserve observe k.1 k.2 = Rule.ofObserve observe k'.1 k'.2 := by
  simp only [Rule.ofObserve, Rule.ofPattern, resolve_congr h.2, h.1]

end SameKey

/-- The list at hand, and the key it serves. -/
def Holds (c : Counted) (k : Key) (rules : List Rule) : Prop :=
  ∃ key, c.cache.entry = some (key, rules) ∧ SameKey key k

/-- The list at hand is the one that its key would give. -/
def Faithful (observe : Observe) (c : Counted) : Prop :=
  ∀ k rules, Holds c k rules → Rule.ofObserve observe k.1 k.2 = .ok rules

lemma find?_eq_some : c.cache.find? k.1 k.2 = some rules ↔ Holds c k rules := by
  unfold find? Holds SameKey
  cases h : c.cache.entry with
  | none => simp
  | some e =>
    obtain ⟨key, held⟩ := e
    simp only [Option.some.injEq, Prod.mk.injEq]
    split <;> simp_all [and_comm]

lemma Holds.congr (h : Holds c k rules) (hk : SameKey k k') : Holds c k' rules := by
  obtain ⟨key, hentry, hkey⟩ := h
  exact ⟨key, hentry, hkey.trans hk⟩

lemma Holds.unique (h : Holds c k rules) (h' : Holds c k' rules') :
    rules = rules' ∧ SameKey k k' := by
  obtain ⟨key, hentry, hkey⟩ := h
  obtain ⟨key', hentry', hkey'⟩ := h'
  obtain ⟨rfl, rfl⟩ := Prod.mk.inj (Option.some.inj (hentry.symm.trans hentry'))
  exact ⟨rfl, hkey.symm.trans hkey'⟩

/-! ### One call -/

lemma ask_of_holds (h : Holds c k rules) : c.ask observe k = (.ok (c.compiled, rules), c) := by
  have hfind := find?_eq_some.2 h
  simp [Counted.ask, get, hfind]

/-- A call that fails leaves the cache as it is. -/
lemma ask_of_error {e : PatternError} (hno : ∀ rules, ¬ Holds c k rules)
    (h : Rule.ofObserve observe k.1 k.2 = .error e) : c.ask observe k = (.error e, c) := by
  have hfind : c.cache.find? k.1 k.2 = none :=
    Option.eq_none_iff_forall_ne_some.2 fun rules hf => hno rules (find?_eq_some.1 hf)
  simp [Counted.ask, get, hfind, h]

lemma ask_of_ok (hno : ∀ rules, ¬ Holds c k rules)
    (h : Rule.ofObserve observe k.1 k.2 = .ok rules) :
    c.ask observe k = (.ok (c.compiled + 1, rules), ⟨⟨some (k, rules)⟩, c.compiled + 1⟩) := by
  have hfind : c.cache.find? k.1 k.2 = none :=
    Option.eq_none_iff_forall_ne_some.2 fun rules hf => hno rules (find?_eq_some.1 hf)
  simp [Counted.ask, get, hfind, h]

lemma fst_ask (c : Counted) (observe : Observe) (k : Key) :
    (c.ask observe k).1.map Prod.snd = (c.cache.get observe k.1 k.2).1 := by
  unfold Counted.ask
  dsimp only
  split <;> simp_all [Except.map]

lemma cache_ask (c : Counted) (observe : Observe) (k : Key) :
    (c.ask observe k).2.cache = (c.cache.get observe k.1 k.2).2 := by
  unfold Counted.ask
  dsimp only
  split <;> simp_all

/-- Numbering the lists takes no part in the calls. -/
lemma cache_after (observe : Observe) (ks : List Key) :
    (Counted.after {} observe ks).cache = afterCalls observe ks := by
  have hall (c : Counted) : (c.after observe ks).cache =
      ks.foldl (fun c k => (c.get observe k.1 k.2).2) c.cache := by
    unfold Counted.after
    induction ks generalizing c with
    | nil => rfl
    | cons k ks ih => rw [List.foldl_cons, List.foldl_cons, ← cache_ask, ih]
  exact hall {}

/-- What a call comes to: the list at hand, an error, or a new list. -/
inductive Asked (observe : Observe) (c : Counted) (k : Key) :
    Except PatternError (Nat × List Rule) → Counted → Prop
  | held {rules : List Rule} (hk : Holds c k rules)
    (h : Rule.ofObserve observe k.1 k.2 = .ok rules) : Asked observe c k (.ok (c.compiled, rules)) c
  | fails {e : PatternError} (h : Rule.ofObserve observe k.1 k.2 = .error e) :
    Asked observe c k (.error e) c
  | compiles {rules : List Rule} (hno : ∀ rules, ¬ Holds c k rules)
    (h : Rule.ofObserve observe k.1 k.2 = .ok rules) :
    Asked observe c k (.ok (c.compiled + 1, rules)) ⟨⟨some (k, rules)⟩, c.compiled + 1⟩

lemma asked (hc : Faithful observe c) (k : Key) :
    Asked observe c k (c.ask observe k).1 (c.ask observe k).2 := by
  by_cases hheld : ∃ rules, Holds c k rules
  · obtain ⟨rules, hk⟩ := hheld
    rw [ask_of_holds hk]
    exact .held hk (hc k rules hk)
  · have hno : ∀ rules, ¬ Holds c k rules := fun rules hk => hheld ⟨rules, hk⟩
    cases h : Rule.ofObserve observe k.1 k.2 with
    | error e =>
      rw [ask_of_error hno h]
      exact .fails h
    | ok rules =>
      rw [ask_of_ok hno h]
      exact .compiles hno h

lemma Faithful.ask (hc : Faithful observe c) (k : Key) : Faithful observe (c.ask observe k).2 := by
  have hask := asked hc k
  generalize (c.ask observe k).1 = answer at hask
  generalize (c.ask observe k).2 = c' at hask ⊢
  cases hask with
  | held | fails => exact hc
  | compiles hno h =>
    rintro k' rules' ⟨key, hentry, hkey⟩
    obtain ⟨rfl, rfl⟩ := Prod.mk.inj (Option.some.inj hentry)
    rw [← hkey.ofObserve_eq, h]

/-! ### Many calls -/

lemma faithful_empty (observe : Observe) : Faithful observe {} := by
  rintro k rules ⟨key, hentry, -⟩
  cases hentry

lemma Faithful.after (hc : Faithful observe c) (ks : List Key) :
    Faithful observe (c.after observe ks) := by
  induction ks generalizing c with
  | nil => exact hc
  | cons k ks ih => exact ih (hc.ask k)

lemma compiled_le_ask (hc : Faithful observe c) (k : Key) :
    c.compiled ≤ (c.ask observe k).2.compiled := by
  have hask := asked hc k
  generalize (c.ask observe k).1 = answer at hask
  generalize (c.ask observe k).2 = c' at hask ⊢
  cases hask with
  | held | fails => exact Nat.le_refl _
  | compiles => exact Nat.le_succ _

lemma compiled_le_after (hc : Faithful observe c) (ks : List Key) :
    c.compiled ≤ (c.after observe ks).compiled := by
  induction ks generalizing c with
  | nil => exact Nat.le_refl _
  | cons k ks ih => exact (compiled_le_ask hc k).trans (ih (hc.ask k))

/-- The call is no reason to compile anything but for the key `k`. -/
def Spares (observe : Observe) (k j : Key) : Prop := SameKey j k ∨ ¬ Compiles observe j

lemma ask_of_spares (hc : Faithful observe c) (hk : Holds c k rules) (hj : Spares observe k j) :
    (c.ask observe j).2 = c := by
  rcases hj with hj | hj
  · rw [ask_of_holds (hk.congr hj.symm)]
  · have hask := asked hc j
    generalize (c.ask observe j).1 = answer at hask
    generalize (c.ask observe j).2 = c' at hask ⊢
    cases hask with
    | held | fails => rfl
    | compiles _ h => exact absurd ⟨_, h⟩ hj

lemma lt_of_not_spares (hc : Faithful observe c) (hk : Holds c k rules)
    (hj : ¬ Spares observe k j) : c.compiled < (c.ask observe j).2.compiled := by
  have hother : ¬ SameKey j k ∧ Compiles observe j := by
    simpa [Spares, not_or] using hj
  have hask := asked hc j
  generalize (c.ask observe j).1 = answer at hask
  generalize (c.ask observe j).2 = c' at hask ⊢
  cases hask with
  | held hj' => exact absurd (hj'.unique hk).2 hother.1
  | fails h =>
    obtain ⟨rules, hok⟩ := hother.2
    cases h.symm.trans hok
  | compiles => exact Nat.lt_succ_self _

/-- Nothing is compiled exactly as long as no call gives a reason to. -/
lemma after_of_spares (hc : Faithful observe c) (hk : Holds c k rules) :
    (∀ j ∈ between, Spares observe k j) → c.after observe between = c := by
  induction between with
  | nil => exact fun _ => rfl
  | cons j between ih =>
    intro hall
    have hj : (c.ask observe j).2 = c := ask_of_spares hc hk (hall j (by simp))
    have hrest := ih fun i hi => hall i (by simp [hi])
    rw [Counted.after, List.foldl_cons, hj]
    exact hrest

lemma spares_of_compiled_le (hc : Faithful observe c) (hk : Holds c k rules)
    (hle : (c.after observe between).compiled ≤ c.compiled) :
    ∀ j ∈ between, Spares observe k j := by
  induction between with
  | nil => simp
  | cons j between ih =>
    by_cases hj : Spares observe k j
    · have hsame : (c.ask observe j).2 = c := ask_of_spares hc hk hj
      rw [Counted.after, List.foldl_cons, hsame] at hle
      exact List.forall_mem_cons.2 ⟨hj, ih hle⟩
    · have hlt := lt_of_not_spares hc hk hj
      have hmore := compiled_le_after (hc.ask j) between
      rw [Counted.after, List.foldl_cons] at hle
      rw [Counted.after] at hmore
      omega

/-- After a call that succeeds the list it was answered with is at hand. -/
lemma holds_ask (hc : Faithful observe c) (h : (c.ask observe k).1 = .ok (n, rules)) :
    Holds (c.ask observe k).2 k rules ∧ (c.ask observe k).2.compiled = n := by
  have hask := asked hc k
  rw [h] at hask
  generalize (c.ask observe k).2 = c' at hask ⊢
  cases hask with
  | held hk => exact ⟨hk, rfl⟩
  | compiles => exact ⟨⟨k, rfl, rfl, rfl⟩, rfl⟩

lemma compiled_le_number (hc : Faithful observe c) (h : (c.ask observe k).1 = .ok (n, rules)) :
    c.compiled ≤ n := by
  have hle := compiled_le_ask hc k
  rwa [(holds_ask hc h).2] at hle

/-- A call is answered with the list at hand exactly if its key is the one the list serves. -/
lemma shares_iff (hc : Faithful observe c) (hk : Holds c k rules) :
    (c.ask observe k').1 = .ok (c.compiled, rules') ↔ rules' = rules ∧ SameKey k' k := by
  constructor
  · intro h
    have hask := asked hc k'
    rw [h] at hask
    generalize (c.ask observe k').2 = c' at hask
    generalize hn : c.compiled = n at hask
    cases hask with
    | held hk' => exact hk'.unique hk
    -- a list compiled just now has a number of its own
    | compiles => omega
  · rintro ⟨rfl, hkey⟩
    rw [ask_of_holds (hk.congr hkey.symm)]

/-- **A cache of rules shows in nothing but the lists that are shared.** After any calls the answer
of a call is that of compiling, and a call that fails leaves the cache as it is. A later call is
answered with the same list exactly if it has the same key and all that was compiled in between
was for that key. The same directory written in another way gives the same key. -/
theorem get_transparent (observe : Observe) (earlier : List Key) :
    (∀ k : Key, ((afterCalls observe earlier).get observe k.1 k.2).1 =
      Rule.ofObserve observe k.1 k.2) ∧
    (∀ (k : Key) e, Rule.ofObserve observe k.1 k.2 = .error e →
      ((afterCalls observe earlier).get observe k.1 k.2).2 = afterCalls observe earlier) ∧
    (∀ k n rules, ((Counted.after {} observe earlier).ask observe k).1 = .ok (n, rules) →
      ∀ between k' rules',
        ((Counted.after {} observe (earlier ++ k :: between)).ask observe k').1 =
            .ok (n, rules') ↔
          rules' = rules ∧ SameKey k' k ∧ ∀ j ∈ between, Spares observe k j) ∧
    ∀ active root root', Relation.EqvGen Respelled root root' →
      SameKey (active, root) (active, root') := by
  have hfaithful : Faithful observe (Counted.after {} observe earlier) :=
    (faithful_empty observe).after earlier
  rw [← cache_after]
  refine ⟨fun k => ?_, fun k e he => ?_, fun k n rules h between k' rules' => ?_,
    fun active root root' h => ⟨rfl, ?_⟩⟩
  · rw [← fst_ask]
    have hask := asked hfaithful k
    generalize (Counted.ask _ observe k).1 = answer at hask ⊢
    generalize (Counted.ask _ observe k).2 = c' at hask
    cases hask with
    | held _ h | fails h | compiles _ h => exact h.symm
  · rw [← cache_ask]
    have hask := asked hfaithful k
    generalize (Counted.ask _ observe k).1 = answer at hask
    generalize (Counted.ask _ observe k).2 = c' at hask ⊢
    cases hask with
    | held | fails => rfl
    | compiles _ h => cases he.symm.trans h
  · obtain ⟨hk, rfl⟩ := holds_ask hfaithful h
    have hnext := hfaithful.ask k
    rw [Counted.after, List.foldl_append, List.foldl_cons, ← Counted.after, ← Counted.after]
    constructor
    · -- the number answered is the one from before, so nothing was compiled in between
      intro hanswer
      have hle := compiled_le_number (hnext.after between) hanswer
      have hbetween := spares_of_compiled_le hnext hk hle
      rw [after_of_spares hnext hk hbetween] at hanswer
      obtain ⟨hrules, hkey⟩ := (shares_iff hnext hk).1 hanswer
      exact ⟨hrules, hkey, hbetween⟩
    · rintro ⟨rfl, hkey, hbetween⟩
      rw [after_of_spares hnext hk hbetween]
      exact (shares_iff hnext hk).2 ⟨rfl, hkey⟩
  · induction h with
    | rel _ _ h => exact components_of_respelled h
    | refl => rfl
    | symm _ _ _ ih => exact ih.symm
    | trans _ _ _ _ _ ih ih' => exact ih.trans ih'

/-- A table with a pattern for every project. -/
def byProject : Observe := NameMap.ofList [("build", ["$PROJ/*.js"])]

/-- A project that is no glob is refused and leaves the list at hand; the directory written in
another way is answered with that list, and another project is not. -/
theorem get_transparent_respelled :
    ∃ rules, ((Counted.after {} byProject []).ask byProject ({ project := ["red"] }, "/q")).1 =
        .ok (1, rules) ∧
      (∃ e, ((afterCalls byProject [({ project := ["red"] }, "/q")]).get byProject
        { project := ["["] } "/q").1 = .error e) ∧
      ((Counted.after {} byProject
        [({ project := ["red"] }, "/q"), ({ project := ["["] }, "/q")]).ask byProject
          ({ project := ["red"] }, "//q/.")).1 = .ok (1, rules) ∧
      ∀ rules', ((Counted.after {} byProject [({ project := ["red"] }, "/q")]).ask byProject
        ({ project := ["blue"] }, "/q")).1 ≠ .ok (1, rules') := by
  have hred : (Rule.ofObserve byProject { project := ["red"] } "/q").isOk := by decide +kernel
  have hbad : (Rule.ofObserve byProject { project := ["["] } "/q").isOk = false := by
    decide +kernel
  obtain ⟨rules, hrules⟩ : ∃ rules,
      Rule.ofObserve byProject { project := ["red"] } "/q" = .ok rules := by
    cases h : Rule.ofObserve byProject { project := ["red"] } "/q" with
    | error e => rw [h] at hred; contradiction
    | ok rules => exact ⟨rules, rfl⟩
  obtain ⟨e, he⟩ : ∃ e, Rule.ofObserve byProject { project := ["["] } "/q" = .error e := by
    cases h : Rule.ofObserve byProject { project := ["["] } "/q" with
    | error e => exact ⟨e, rfl⟩
    | ok rules => rw [h] at hbad; contradiction
  obtain ⟨-, -, hshares, hrespelled⟩ := get_transparent byProject []
  obtain ⟨hanswer, -⟩ := get_transparent byProject [({ project := ["red"] }, "/q")]
  have hfirst : ((Counted.after {} byProject []).ask byProject ({ project := ["red"] }, "/q")).1 =
      .ok (1, rules) := by
    have hempty : ∀ rules, ¬ Holds {} ({ project := ["red"] }, "/q") rules := by
      rintro rules ⟨key, hentry, -⟩
      cases hentry
    exact congrArg Prod.fst (ask_of_ok hempty hrules)
  have hsame : SameKey ({ project := ["red"] }, "//q/.") ({ project := ["red"] }, "/q") := by
    refine (hrespelled _ _ _ (.trans _ "//q" _ (.rel _ _ ?_) (.rel _ _ ?_))).symm
    · exact .slash [] ['q']
    · exact .dotBehind (by simp : "//q".toList ≠ [])
  have hrefused : Spares byProject ({ project := ["red"] }, "/q") ({ project := ["["] }, "/q") :=
    .inr fun ⟨rules, hok⟩ => by cases he.symm.trans hok
  refine ⟨rules, hfirst, ⟨e, (hanswer ({ project := ["["] }, "/q")).trans he⟩, ?_, ?_⟩
  · exact (hshares _ _ _ hfirst [({ project := ["["] }, "/q")] _ _).2
      ⟨rfl, hsame, List.forall_mem_singleton.2 hrefused⟩
  · intro rules' hsecond
    have hkey := ((hshares _ _ _ hfirst [] ({ project := ["blue"] }, "/q") rules').1 hsecond).2.1
    exact absurd hkey.1 (by decide)

end RuleCache

end ChainRunner.Watch
