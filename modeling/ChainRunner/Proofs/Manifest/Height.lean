import ChainRunner.Proofs.Manifest.Circle
import ChainRunner.Proofs.Manifest.Names
import Mathlib.Data.Finset.Lattice.Fold
import Mathlib.Data.List.Perm.Subperm
import Mathlib.Order.Lattice.Nat

/-!
How deep the chains of a checked manifest are nested.

What a chain names stands behind it in the order of the search, so that the places that are left
bound the nesting below it, and below any expression that names it.
-/

namespace ChainRunner.Manifest

open References

/-- Some step of the expression `e` names the chain with the expression `e'`. -/
def Nests (m : Manifest) (e e' : String) : Prop :=
  ∃ step ∈ Chain.parse e, ∃ name, step.target? = some name ∧ m.resolve name = .chain e'

/-- So many places are left from the chain on. -/
def rank (m : Manifest) (name : String) : Nat :=
  (ofChains m.chains).order.length - (ofChains m.chains).order.idxOf name

/-- A bound on the nesting below an expression: the highest rank of the chains that it names. -/
def height (m : Manifest) (e : String) : Nat := (targets m.chains e).toFinset.sup m.rank

variable {m : Manifest} {e e' x y : String}

lemma check_chains (m : Manifest) : m.checkChains = .ok () :=
  (Draft.check_eq_ok.1 m.checked).2.2.2

lemma rank_lt_of_refers (h : Refers m.chains x y) : m.rank y < m.rank x := by
  have hlt := Draft.idxOf_lt_of_refers m.check_chains h
  have hy : y ∈ (ofChains m.chains).order :=
    (sorts_order (closed_ofChains m.chains)).mem_iff.2
      ((closed_ofChains m.chains).mem (mem_edges.2 h)).2
  have hlen := List.idxOf_lt_length_iff.2 hy
  unfold rank
  omega

lemma rank_le (m : Manifest) (x : String) : m.rank x ≤ m.chains.keys.length := by
  have hsorts := sorts_order (closed_ofChains m.chains)
  have hle : (ofChains m.chains).order.length ≤ m.chains.keys.length :=
    (hsorts.nodup.subperm fun _ hx => hsorts.mem_iff.1 hx).length_le
  exact Nat.le_trans (Nat.sub_le ..) hle

lemma contains_of_resolve (h : m.resolve x = .chain e) : m.chains.get? x = some e := by
  unfold resolve at h
  split at h
  · cases h
  · split at h <;> cases h
    assumption

theorem height_le (m : Manifest) (e : String) : m.height e ≤ m.chains.keys.length :=
  Finset.sup_le fun x _ => m.rank_le x

/-- What an expression names is nested less deep. -/
theorem height_lt_of_nests (h : m.Nests e e') : m.height e' < m.height e := by
  obtain ⟨step, hstep, name, ht, hm⟩ := h
  have hget := contains_of_resolve hm
  have hname : name ∈ targets m.chains e :=
    mem_targets.2 ⟨⟨step, hstep, ht⟩, by rw [NameMap.contains, hget]; rfl⟩
  have hrank : m.rank name ≤ m.height e := Finset.le_sup (List.mem_toFinset.2 hname)
  have hpos : 0 < m.rank name := by
    have hkey : name ∈ m.chains.keys :=
      List.mem_map.2 ⟨_, NameMap.get?_eq_some_iff.1 hget, rfl⟩
    exact Nat.sub_pos_of_lt
      (List.idxOf_lt_length_iff.2 ((sorts_order (closed_ofChains m.chains)).mem_iff.2 hkey))
  have hbelow : m.height e' ≤ m.rank name - 1 := Finset.sup_le fun y hy => by
    obtain ⟨hsteps, hcontains⟩ := mem_targets.1 (List.mem_toFinset.1 hy)
    have hlt : m.rank y < m.rank name := rank_lt_of_refers ⟨e', hget, hsteps, hcontains⟩
    omega
  omega

theorem wellFounded_nests (m : Manifest) : WellFounded fun e' e => m.Nests e e' :=
  Subrelation.wf height_lt_of_nests (measure m.height).wf

end ChainRunner.Manifest
