import ChainRunner.Manifest.Basic
import ChainRunner.Proofs.Manifest.Search
import ChainRunner.Proofs.NameMap

/-!
The verdict on the chains of a manifest: it is refused for a circle exactly when some chain comes
back to itself, and the chain that is named then does.

After the order of the search, a reference that leads backwards starts at a name that its end
leads to, for else its start would stand first.
-/

namespace ChainRunner

namespace References

open Relation

variable {g : References} {fresh order done rest : List String} {x y : String}

/-! ### The backward walks -/

lemma fst_explore_cons (next : String → List String) (stack : List String) (hx : x ∈ fresh) :
    ∃ met, (explore next fresh (x :: stack)).1 = x :: met := by
  rw [explore]
  exact ⟨_, by simp only [hx, if_true]; rfl⟩

/-- A backward walk meets its first name, and next the last one that leads to it. -/
lemma explore_of_mem (next : String → List String) (hx : x ∈ fresh) :
    ((next x).filter (· ∈ fresh.erase x) = [] ∧
        explore next fresh [x] = ([x], fresh.erase x)) ∨
      ∃ y met left, y ∈ next x ∧ y ∈ fresh.erase x ∧
        explore next fresh [x] = (x :: y :: met, left) := by
  rw [explore]
  simp only [hx, if_true]
  rcases List.eq_nil_or_concat ((next x).filter (· ∈ fresh.erase x)) with hnil | ⟨ys, y, hy⟩
  · refine .inl ⟨hnil, ?_⟩
    rw [hnil, List.reverse_nil, List.nil_append, explore]
  · have hin : y ∈ (next x).filter (· ∈ fresh.erase x) := by simp [hy]
    obtain ⟨hnext, hfresh⟩ := List.mem_filter.1 hin
    have hfresh : y ∈ fresh.erase x := of_decide_eq_true hfresh
    rw [hy, List.concat_eq_append, List.reverse_append, List.reverse_singleton,
      List.singleton_append, List.cons_append]
    obtain ⟨met, hmet⟩ := fst_explore_cons next (ys.reverse ++ []) hfresh
    exact .inr ⟨y, met, _, hnext, hfresh, Prod.ext (congrArg (x :: ·) hmet) rfl⟩

lemma mem_erase_head (hfresh : fresh.Nodup) (hmem : ∀ {z}, z ∈ fresh ↔ z ∈ x :: order)
    (hnew : x ∉ order) {z : String} : z ∈ fresh.erase x ↔ z ∈ order := by
  rw [hfresh.mem_erase_iff, hmem, List.mem_cons]
  constructor
  · rintro ⟨hne, heq | hz⟩
    · exact absurd heq hne
    · exact hz
  · exact fun hz => ⟨fun heq => hnew (heq ▸ hz), .inr hz⟩

/-- Where the backward walks meet a second name, they do so at the end of a reference whose start
has not come up yet. -/
lemma secondMet_eq_some (hfresh : fresh.Nodup) (hmem : ∀ {z}, z ∈ fresh ↔ z ∈ order)
    (horder : order.Nodup) (h : g.secondMet fresh order = some y) :
    ∃ done x rest, order = done ++ x :: rest ∧ (y, x) ∈ g.edges ∧ y ∈ rest := by
  induction order generalizing fresh with
  | nil => cases h
  | cons x order ih =>
    have hx : x ∈ fresh := hmem.2 List.mem_cons_self
    obtain ⟨hnew, hrest⟩ := List.nodup_cons.1 horder
    have hleft {z : String} : z ∈ fresh.erase x ↔ z ∈ order := mem_erase_head hfresh hmem hnew
    rw [secondMet] at h
    rcases explore_of_mem g.predecessors hx with ⟨-, hex⟩ | ⟨y', met, left, hy, hyf, hex⟩
    · rw [hex] at h
      obtain ⟨done, x', rest, rfl, hedge, hy⟩ := ih (hfresh.erase x) hleft hrest h
      exact ⟨x :: done, x', rest, rfl, hedge, hy⟩
    · rw [hex] at h
      cases h
      exact ⟨[], x, order, rfl, mem_predecessors.1 hy, hleft.1 hyf⟩

/-- Where they meet none, every reference starts at a name that has come up before. -/
lemma secondMet_eq_none (hfresh : fresh.Nodup) (hmem : ∀ {z}, z ∈ fresh ↔ z ∈ order)
    (horder : order.Nodup) (h : g.secondMet fresh order = none)
    (heq : order = done ++ x :: rest) (hedge : (y, x) ∈ g.edges) : y ∉ rest := by
  induction order generalizing fresh done with
  | nil => simp at heq
  | cons z order ih =>
    have hz : z ∈ fresh := hmem.2 List.mem_cons_self
    obtain ⟨hnew, hrest⟩ := List.nodup_cons.1 horder
    have hleft {w : String} : w ∈ fresh.erase z ↔ w ∈ order := mem_erase_head hfresh hmem hnew
    rw [secondMet] at h
    rcases explore_of_mem g.predecessors hz with ⟨hnil, hex⟩ | ⟨y', met, left, hy, hyf, hex⟩
    · rw [hex] at h
      cases done with
      | nil =>
        obtain ⟨rfl, rfl⟩ := List.cons.inj heq
        intro hy
        have hin : y ∈ (g.predecessors z).filter (· ∈ fresh.erase z) := by
          simpa [hedge] using hleft.2 hy
        rw [hnil] at hin
        cases hin
      | cons d done =>
        exact ih (hfresh.erase z) hleft hrest h (List.cons.inj heq).2
    · rw [hex] at h
      cases h

/-! ### Circles -/

/-- The name that the search comes upon leads back to itself. -/
theorem leads_of_onCircle? (hg : g.Closed) (h : g.onCircle? = some y) :
    TransGen (Leads g.successors) y y := by
  have hsorts := sorts_order hg
  obtain ⟨done, x, rest, heq, hedge, hy⟩ :=
    secondMet_eq_some hg.nodup hsorts.mem_iff.symm hsorts.nodup h
  obtain ⟨mid, post, rfl⟩ := List.append_of_mem hy
  have hsplit : g.order = (done ++ x :: mid) ++ y :: post := by simp [heq]
  have hfirst : x ∉ post := fun hx => by
    have hnodup := hsorts.nodup
    rw [hsplit] at hnodup
    have hdisj := (List.nodup_append.1 hnodup).2.2
    exact hdisj x (by simp) x (List.mem_cons_of_mem _ hx) rfl
  exact .head' (mem_successors.2 hedge)
    ((hsorts.after hsplit (mem_successors.2 hedge)).resolve_left hfirst)

/-- Where the search comes upon no name, and none names itself, all references lead forward. -/
theorem idxOf_lt_of_onCircle?_eq_none (hg : g.Closed) (hself : ∀ x, (x, x) ∉ g.edges)
    (h : g.onCircle? = none) (hedge : (x, y) ∈ g.edges) : g.order.idxOf x < g.order.idxOf y := by
  have hsorts := sorts_order hg
  obtain ⟨hx, hy⟩ := hg.mem hedge
  obtain ⟨done, rest, heq, hdone⟩ := List.eq_append_cons_of_mem (hsorts.mem_iff.2 hy)
  have hin : x ∈ done := by
    have hxin := hsorts.mem_iff.2 hx
    have hrest := secondMet_eq_none hg.nodup hsorts.mem_iff.symm hsorts.nodup h heq hedge
    rw [heq, List.mem_append, List.mem_cons] at hxin
    rcases hxin with hxin | rfl | hxin
    · exact hxin
    · exact absurd hedge (hself x)
    · exact absurd hxin hrest
  rw [heq, List.idxOf_append_of_mem hin, List.idxOf_append_of_notMem hdone, List.idxOf_cons_self]
  exact Nat.lt_of_lt_of_le (List.idxOf_lt_length_iff.2 hin) (Nat.le_add_right ..)

/-! ### Chains -/

/-- Some step of the chain `x`, whatever its mode and its batch, names the chain `y`. -/
def Refers (chains : NameMap String) (x y : String) : Prop :=
  ∃ expr, chains.get? x = some expr ∧ (∃ step ∈ Chain.parse expr, step.target? = some y) ∧
    chains.contains y = true

section

variable {chains : NameMap String}

lemma mem_targets {expr : String} : y ∈ targets chains expr ↔
    (∃ step ∈ Chain.parse expr, step.target? = some y) ∧ chains.contains y = true := by
  simp [targets]

@[simp] lemma mem_edges : (x, y) ∈ (ofChains chains).edges ↔ Refers chains x y := by
  simp only [ofChains, List.mem_eraseDups, List.mem_flatMap, List.mem_map, Prod.mk.injEq,
    mem_targets, Refers, NameMap.get?_eq_some_iff]
  constructor
  · rintro ⟨⟨name, expr⟩, he, t, ht, rfl, rfl⟩
    exact ⟨expr, he, ht⟩
  · rintro ⟨expr, he, ht⟩
    exact ⟨(x, expr), he, y, ht, rfl, rfl⟩

lemma leads_successors : Leads (ofChains chains).successors = Refers chains := by
  funext x y
  simp [Leads]

lemma closed_ofChains (chains : NameMap String) : (ofChains chains).Closed where
  nodup := chains.nodup_keys
  mem h := by
    obtain ⟨expr, hx, -, hy⟩ := mem_edges.1 h
    exact ⟨List.mem_map.2 ⟨_, NameMap.get?_eq_some_iff.1 hx, rfl⟩, NameMap.contains_iff.1 hy⟩

lemma refers_of_selfReference? (h : selfReference? chains = some x) : Refers chains x x := by
  obtain ⟨e, he, rfl⟩ := Option.map_eq_some_iff.1 h
  have hany := List.find?_some he
  obtain ⟨step, hstep, ht⟩ := List.any_eq_true.1 hany
  have hin := List.mem_of_find?_eq_some he
  exact ⟨e.2, NameMap.get?_eq_some_iff.2 hin, ⟨step, hstep, of_decide_eq_true ht⟩,
    NameMap.contains_iff.2 (List.mem_map_of_mem hin)⟩

lemma not_refers_self (h : selfReference? chains = none) : ¬Refers chains x x := by
  rintro ⟨expr, hx, ⟨step, hstep, ht⟩, -⟩
  have hnone := List.find?_eq_none.1 (Option.map_eq_none_iff.1 h) _ (NameMap.get?_eq_some_iff.1 hx)
  exact hnone (List.any_eq_true.2 ⟨step, hstep, decide_eq_true ht⟩)

end

end References

/-! ### Manifests -/

open Relation References

/-- The chain that an error names for coming back to itself. -/
def ManifestError.circular? : ManifestError → Option String
  | .selfReference n | .circle n => some n
  | _ => none

namespace Draft

variable {d : Draft} {e : ManifestError}

/-- References between the chains of a checked draft lead forward in the order of the search. -/
lemma idxOf_lt_of_refers (h : d.checkChains = .ok ()) {x y : String} (hxy : Refers d.chains x y) :
    (ofChains d.chains).order.idxOf x < (ofChains d.chains).order.idxOf y := by
  unfold checkChains at h
  split at h
  · cases h
  · rename_i hself
    split at h
    · cases h
    · rename_i hnone
      exact idxOf_lt_of_onCircle?_eq_none (closed_ofChains _)
        (fun x hx => not_refers_self hself (mem_edges.1 hx)) hnone (mem_edges.2 hxy)

lemma acyclic_of_checkChains (h : d.checkChains = .ok ()) (x : String) :
    ¬TransGen (Refers d.chains) x x := by
  have hlt {y z : String} (hyz : TransGen (Refers d.chains) y z) :
      (ofChains d.chains).order.idxOf y < (ofChains d.chains).order.idxOf z := by
    induction hyz with
    | single hyz => exact idxOf_lt_of_refers h hyz
    | tail _ hyz ih => exact Nat.lt_trans ih (idxOf_lt_of_refers h hyz)
  exact fun hx => Nat.lt_irrefl _ (hlt hx)

/-- Whatever is wrong with the chains is a circle, and the error names a chain on it. -/
lemma circular_of_checkChains (h : d.checkChains = .error e) :
    ∃ n, e.circular? = some n ∧ TransGen (Refers d.chains) n n := by
  unfold checkChains at h
  split at h
  · cases h
    exact ⟨_, rfl, .single (refers_of_selfReference? ‹_›)⟩
  · split at h <;> cases h
    exact ⟨_, rfl, leads_successors ▸ leads_of_onCircle? (closed_ofChains _) ‹_›⟩

lemma check_eq (hs : d.scripts.isEmpty = false) (hn : d.checkNames = .ok ())
    (ho : d.checkObserve = .ok ()) : d.check = d.checkChains := by
  simp only [check, hs, hn, ho]
  rfl

end Draft

lemma Manifest.ofDraft_eq_error {d : Draft} {e : ManifestError} :
    Manifest.ofDraft d = .error e ↔ d.check = .error e := by
  unfold ofDraft
  split <;> simp_all

/-- **The check for circles is exact**: a draft that passes the earlier checks is refused for a
circle if and only if some chain refers to itself through one or more references, and the chain
that the error names does. -/
theorem Manifest.refused_for_circle_iff {d : Draft} (hs : d.scripts.isEmpty = false)
    (hn : d.checkNames = .ok ()) (ho : d.checkObserve = .ok ()) :
    ((∃ e n, Manifest.ofDraft d = .error e ∧ e.circular? = some n) ↔
        ∃ x, TransGen (Refers d.chains) x x) ∧
      ∀ e n, Manifest.ofDraft d = .error e → e.circular? = some n →
        TransGen (Refers d.chains) n n := by
  simp only [ofDraft_eq_error, Draft.check_eq hs hn ho]
  refine ⟨⟨?_, ?_⟩, fun e n he hen => ?_⟩
  · rintro ⟨e, n, he, -⟩
    obtain ⟨n, -, hn⟩ := Draft.circular_of_checkChains he
    exact ⟨n, hn⟩
  · rintro ⟨x, hx⟩
    cases hcheck : d.checkChains with
    | ok _ => exact absurd hx (Draft.acyclic_of_checkChains hcheck x)
    | error e =>
      obtain ⟨n, hen, -⟩ := Draft.circular_of_checkChains hcheck
      exact ⟨e, n, rfl, hen⟩
  · obtain ⟨n', hen', hn'⟩ := Draft.circular_of_checkChains he
    rw [hen] at hen'
    cases hen'
    exact hn'

/-- Two chains that name each other, one of them in the background and after a pause. -/
def Draft.circular : Draft where
  scripts := NameMap.ofList [("s", "true")]
  chains := NameMap.ofList [("x", "s y"), ("y", "- +x")]

theorem Manifest.circular_refused :
    ∃ e n, Manifest.ofDraft Draft.circular = .error e ∧ e.circular? = some n ∧
      TransGen (Refers Draft.circular.chains) n n := by
  have hx : Refers Draft.circular.chains "x" "y" :=
    ⟨"s y", rfl, ⟨.sequential "y", by decide, rfl⟩, rfl⟩
  have hy : Refers Draft.circular.chains "y" "x" :=
    ⟨"- +x", rfl, ⟨.background "x", by decide, rfl⟩, rfl⟩
  obtain ⟨hiff, hnamed⟩ := refused_for_circle_iff (d := Draft.circular) rfl rfl rfl
  obtain ⟨e, n, he, hen⟩ := hiff.2 ⟨"x", .tail (.single hx) hy⟩
  exact ⟨e, n, he, hen, hnamed e n he hen⟩

end ChainRunner
