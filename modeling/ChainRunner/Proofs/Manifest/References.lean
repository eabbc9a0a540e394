import ChainRunner.Manifest.Basic
import Mathlib.Data.List.Basic

/-!
The search for a chain that comes back to itself.
-/

namespace ChainRunner.References

/-- The walk from a name that leads nowhere. -/
lemma explore_leaf {next : String → List String} {x : String} (h : next x = [])
    (fresh : List String) :
    explore next fresh [x] = if x ∈ fresh then ([x], fresh.erase x) else ([], fresh) := by
  rw [explore]
  split <;> simp [h, explore]

lemma secondMet_of_edges_eq_nil {g : References} (h : g.edges = []) (fresh xs : List String) :
    g.secondMet fresh xs = none := by
  induction xs generalizing fresh with
  | nil => rfl
  | cons x xs ih =>
    have hleaf : g.predecessors x = [] := by simp [predecessors, h]
    rw [secondMet, explore_leaf hleaf]
    by_cases hx : x ∈ fresh
    · rw [if_pos hx]
      exact ih _
    · rw [if_neg hx]
      exact ih _

/-- Without references there is no circle. -/
theorem onCircle?_of_edges_eq_nil {g : References} (h : g.edges = []) : g.onCircle? = none :=
  secondMet_of_edges_eq_nil h ..

end ChainRunner.References

namespace ChainRunner.Draft

open References

lemma checkChains_of_edges_eq_nil {d : Draft} (hself : selfReference? d.chains = none)
    (h : (ofChains d.chains).edges = []) : d.checkChains = .ok () := by
  simp only [checkChains, hself, onCircle?_of_edges_eq_nil h]

end ChainRunner.Draft
