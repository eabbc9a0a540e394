import ChainRunner.Manifest.Basic
import ChainRunner.Proofs.Chain.Parser
import ChainRunner.Proofs.Manifest.References
import ChainRunner.Proofs.NameMap
import ChainRunner.Proofs.Traversal

/-!
The names of a checked manifest, written into an expression.

The checks leave names that are words without a mark in front, so that an expression calls each of
them; but for the two brackets, which are passed over where they stand alone.
-/

namespace ChainRunner

open Chain Text

/-! ### What the checks leave -/

namespace Draft

variable {d : Draft} {n : String}

lemma check_eq_ok : d.check = .ok () ↔ d.scripts.isEmpty = false ∧ d.checkNames = .ok () ∧
    d.checkObserve = .ok () ∧ d.checkChains = .ok () := by
  unfold check
  cases d.scripts.isEmpty <;> cases d.checkNames <;> cases d.checkObserve <;>
    simp [bind, Except.bind]

lemma checkName_eq_ok : checkName n = .ok () ↔
    IsWord n.toList ∧ n.toList.head? ≠ some '+' ∧ n.toList.head? ≠ some '-' := by
  unfold checkName
  split
  · rename_i hnil
    exact iff_of_false (by simp) fun h => h.1.ne_nil hnil
  · rename_i c cs hcons
    have hword : IsWord n.toList ↔ ¬ n.toList.any isBlank :=
      ⟨fun h => by simpa using h.solid, fun h => ⟨by simp [hcons], by simpa using h⟩⟩
    rw [hword, hcons, List.head?_cons]
    split
    · simp [*]
    · split
      · rename_i hmark
        rcases hmark with rfl | rfl <;> simp
      · rename_i hblank hmark
        rw [not_or] at hmark
        simp [hblank, hmark]

lemma checkName_of_mem (h : d.checkNames = .ok ()) (hn : n ∈ d.scripts.keys ++ d.chains.keys) :
    checkName n = .ok () := by
  unfold checkNames at h
  cases hnames : (d.scripts.keys ++ d.chains.keys).forM checkName with
  | error e => simp [hnames, bind, Except.bind] at h
  | ok _ => exact forM_eq_ok.1 hnames n hn

end Draft

/-- The step is written as a bracket that stands alone. -/
def Step.IsBracket (s : Step) : Prop := s = .sequential "[" ∨ s = .sequential "]"

instance (s : Step) : Decidable s.IsBracket :=
  inferInstanceAs (Decidable (s = .sequential "[" ∨ s = .sequential "]"))

namespace Manifest

variable {m : Manifest} {n : String} {s : Step} {steps : List Step} {e : String}

def names (m : Manifest) : List String := m.scripts.keys ++ m.chains.keys

/-- The step names a script or chain of the manifest, in the foreground or in the background. -/
def Calls (m : Manifest) (s : Step) : Prop := ∃ n ∈ m.names, s.target? = some n

instance (m : Manifest) (s : Step) : Decidable (m.Calls s) :=
  inferInstanceAs (Decidable (∃ n ∈ m.names, s.target? = some n))

lemma resolve_of_mem (h : n ∈ m.names) : m.resolve n ≠ .unknown := by
  unfold resolve script? chain?
  rcases List.mem_append.1 h with h | h
  · obtain ⟨body, hbody⟩ := Option.isSome_iff_exists.1 (NameMap.contains_iff.2 h)
    simp [hbody]
  · obtain ⟨expr, hexpr⟩ := Option.isSome_iff_exists.1 (NameMap.contains_iff.2 h)
    cases m.scripts.get? n <;> simp [hexpr]

lemma isLegible_of_calls (h : m.Calls s) (hs : ¬ s.IsBracket) : s.IsLegible := by
  obtain ⟨n, hn, htarget⟩ := h
  obtain ⟨hword, hplus, hminus⟩ :=
    Draft.checkName_eq_ok.1 (Draft.checkName_of_mem (Draft.check_eq_ok.1 m.checked).2.1 hn)
  cases s with
  | sequential t =>
    cases htarget
    exact ⟨hword, hplus, hminus, by simpa [Step.IsBracket] using hs⟩
  | background t =>
    cases htarget
    exact ⟨hword, hplus⟩
  | pause => cases htarget

lemma parse_of_isBracket (h : s.IsBracket) : parse (renderStep s) = [] := by
  rcases h with rfl | rfl <;> decide

lemma parse_of_calls (h : ∀ s ∈ steps, m.Calls s) :
    (steps.flatMap fun s => parse (renderStep s)) = steps.filter (¬ ·.IsBracket) := by
  induction steps with
  | nil => rfl
  | cons s steps ih =>
    obtain ⟨hs, hsteps⟩ := List.forall_mem_cons.1 h
    rw [List.flatMap_cons, ih hsteps]
    by_cases hbracket : s.IsBracket
    · rw [parse_of_isBracket hbracket, List.filter_cons_of_neg (by simpa using hbracket)]
      rfl
    · rw [parse_renderStep (isLegible_of_calls hs hbracket),
        List.filter_cons_of_pos (by simpa using hbracket)]
      rfl

/-- **Every name of a checked manifest resolves, and every name but the brackets is called by an
expression that holds it.** Of the steps that are written with names of the manifest all are read
back in their order but those that name a bracket in the foreground, so that nothing gets lost
exactly if no script or chain is named by a bracket. -/
theorem parse_calls_iff (m : Manifest) :
    (∀ n ∈ m.names, m.resolve n ≠ .unknown) ∧
    (∀ steps e, (∀ s ∈ steps, m.Calls s) → Spells steps e →
      parse e = steps.filter (¬ ·.IsBracket)) ∧
    ((∀ steps e, (∀ s ∈ steps, m.Calls s) → Spells steps e → parse e = steps) ↔
      "[" ∉ m.names ∧ "]" ∉ m.names) := by
  have hread : ∀ steps e, (∀ s ∈ steps, m.Calls s) → Spells steps e →
      parse e = steps.filter (¬ ·.IsBracket) :=
    fun steps e hcalls hspells => (parse_of_spells hspells).trans (parse_of_calls hcalls)
  refine ⟨fun n => resolve_of_mem, hread, fun h => ?_,
    fun ⟨hopen, hclose⟩ steps e hcalls hspells => ?_⟩
  · -- a step that calls a bracket would be lost
    have hlost {n : String} (hbracket : (Step.sequential n).IsBracket) : n ∉ m.names := by
      intro hn
      have hcalls : ∀ s ∈ [Step.sequential n], m.Calls s :=
        List.forall_mem_singleton.2 ⟨n, hn, rfl⟩
      have hone := hread _ _ hcalls (spells_render _)
      rw [h _ _ hcalls (spells_render _)] at hone
      simp [hbracket] at hone
    exact ⟨hlost (.inl rfl), hlost (.inr rfl)⟩
  · rw [hread steps e hcalls hspells, List.filter_eq_self]
    intro s hs
    obtain ⟨n, hn, htarget⟩ := hcalls s hs
    by_contra hbracket
    have hbracket : s.IsBracket := by simpa using hbracket
    rcases hbracket with rfl | rfl <;> cases htarget
    · exact hopen hn
    · exact hclose hn

/-- A manifest with a script that is named by a bracket. -/
def bracketed : Manifest where
  scripts := NameMap.ofList [("[", "true"), ("a", "true")]
  chains := NameMap.ofList [("b", "a")]
  checked := Draft.check_eq_ok.2 ⟨rfl, rfl, rfl, Draft.checkChains_of_edges_eq_nil rfl rfl⟩

/-- The script is called in the background, and passed over in the foreground. -/
theorem parse_calls_iff_bracketed :
    (∀ s ∈ [.background "[", .sequential "a", .sequential "[", .background "b"],
      bracketed.Calls s) ∧
    parse "+[ a [ +b" = [.background "[", .sequential "a", .background "b"] ∧
    (∀ n ∈ ["[", "a", "b"], bracketed.resolve n ≠ .unknown) ∧
    ∃ steps e, (∀ s ∈ steps, bracketed.Calls s) ∧ Spells steps e ∧ parse e ≠ steps := by
  have hcalls : ∀ s ∈ [.background "[", .sequential "a", .sequential "[", .background "b"],
      bracketed.Calls s := by decide +kernel
  obtain ⟨hresolve, hread, hall⟩ := parse_calls_iff bracketed
  refine ⟨hcalls, hread _ _ hcalls (spells_render _), fun n hn => hresolve n ?_, ?_⟩
  · have hnames : bracketed.names = ["[", "a", "b"] := by decide +kernel
    rwa [hnames]
  · by_contra hnone
    have hkept : ∀ steps e, (∀ s ∈ steps, bracketed.Calls s) → Spells steps e →
        parse e = steps := by
      intro steps e hcalls hspells
      by_contra hlost
      exact hnone ⟨steps, e, hcalls, hspells, hlost⟩
    exact (hall.1 hkept).1 (by decide +kernel)

end Manifest

end ChainRunner
