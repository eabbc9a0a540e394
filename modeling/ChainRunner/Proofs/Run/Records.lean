import ChainRunner.Proofs.Run.Processes

/-!
The records of the processes: what was started for an instance is on record with its script and
its command, under the display name of the instance or that name with a number.
-/

namespace ChainRunner.Run

/-- The name itself, or the name with a number from two on behind it. -/
def Titled (name title : String) : Prop := title = name ∨ ∃ n, 2 ≤ n ∧ title = s!"{name}#{n}"

lemma titled_of_unique {ns ns' : Names} {name title : String}
    (h : ns.unique name = (title, ns')) : Titled name title := by
  unfold Names.unique at h
  dsimp only at h
  split at h <;> cases h
  · exact .inl rfl
  · exact .inr ⟨_, by omega, rfl⟩

/-- Every process that was started is on record. -/
structure Recorded (c : Core) : Prop where
  length : c.launches.length = c.table.handles.length
  shows : ∀ {t : TaskId} {k : Nat} {p : ProcessId} {i : Instance} {name : String},
    .started t k (.process p i name) ∈ c.history →
      (∃ l, c.launches[p]? = some l ∧ l.Shows i name) ∧ Titled i.displayName name

namespace Recorded

variable {cfg : Setting} {c c' : Core} {ds : List Deed}

lemma frame (h : Recorded c) (hH : c'.history = c.history ++ ds)
    (hds : ∀ t k p i name, Deed.started t k (.process p i name) ∉ ds)
    (hl : c'.launches = c.launches)
    (hlen : c'.table.handles.length = c.table.handles.length) : Recorded c' where
  length := by rw [hl, hlen, h.length]
  shows hx := by
    rw [hH] at hx
    rw [hl]
    exact h.shows ((List.mem_append.1 hx).resolve_right (hds _ _ _ _ _))

/-- One more process is on record. -/
lemma launch (h : Recorded c) {t : TaskId} {k : Nat} {i : Instance} {name : String} {l : Launch}
    (hl : l.Shows i name) (ht : Titled i.displayName name)
    (hH : c'.history = c.history ++ [.started t k (.process c.table.handles.length i name)])
    (hlaunches : ∀ p, c'.launches[p]? =
      if p = c.table.handles.length then some l else c.launches[p]?)
    (hlen : c'.launches.length = c'.table.handles.length) : Recorded c' where
  length := hlen
  shows {t' k' p i' name'} hx := by
    rw [hH] at hx
    rw [hlaunches]
    rcases List.mem_append.1 hx with hx | hx
    · obtain ⟨⟨l', hl', hshows⟩, ht'⟩ := h.shows hx
      have hlt := (List.getElem?_eq_some_iff.1 hl').1
      rw [if_neg (Nat.ne_of_lt (h.length ▸ hlt))]
      exact ⟨⟨l', hl', hshows⟩, ht'⟩
    · cases List.mem_singleton.1 hx
      exact ⟨⟨l, if_pos rfl, hl⟩, ht⟩

lemma getElem?_concat (h : Recorded c) (l : Launch) (p : ProcessId) : (c.launches ++ [l])[p]? =
    if p = c.table.handles.length then some l else c.launches[p]? := by
  rw [← h.length]
  rcases Nat.lt_trichotomy p c.launches.length with hlt | rfl | hgt
  · rw [List.getElem?_append_left hlt, if_neg (Nat.ne_of_lt hlt)]
  · simp
  · rw [if_neg (Nat.ne_of_gt hgt), List.getElem?_eq_none (by simp; omega),
      List.getElem?_eq_none (Nat.le_of_lt hgt)]

theorem change (h : Recorded c) (hc : Change cfg c c') : Recorded c' := by
  cases hc with
  | launches name names now hs ha hb hn hl =>
    refine h.launch hl (titled_of_unique hn) rfl (h.getElem?_concat _) ?_
    dsimp only
    rw [List.length_append, ProcessTable.length_launch, h.length]
    rfl
  | @awaits self r audience i agenda name names now hs ha hb hn l hl =>
    let w := (c.tasks ++ keeperSlots cfg c.table.handles.length).length
    refine h.launch (l := { l with waiter := some w })
      ⟨hl.script, hl.name, hl.command, hl.background⟩ (titled_of_unique hn) rfl (fun p => ?_) ?_
    · dsimp only
      rw [List.getElem?_modify, h.getElem?_concat]
      by_cases hp : p = c.table.handles.length
      · simp [hp, w]
      · simp [hp, Ne.symm hp]
    · dsimp only
      rw [List.length_modify, List.length_append, ProcessTable.length_launch, h.length]
      rfl
  | fails why now hs hf he =>
    refine h.frame rfl (fun t k p i name hin => ?_) rfl (by simp)
    simpa using hf.mem_deeds hin
  | news hp follows =>
    exact h.frame (ite_concat ..) (by simp) rfl (by simp)
  | droppedCycle hs ht =>
    exact h.frame (ite_concat ..) (by simp) rfl rfl
  | quiet | settles | leaves | cycles | droppedRun =>
    exact h.frame (List.append_nil _).symm (by simp) rfl rfl
  | nests | misses | completes | breaks | locks | refused | drains | triggers | releases =>
    exact h.frame rfl (by simp) rfl rfl

theorem request (h : Recorded c) (hc : Request c c') : Recorded c' := by
  cases hc with
  | run | push => exact h.frame rfl (by simp) rfl rfl
  | cycles | cancel => exact h.frame (List.append_nil _).symm (by simp) rfl rfl
  | stop p now => exact h.frame (List.append_nil _).symm (by simp) rfl (by simp)

end Recorded

theorem Reachable.recorded {cfg : Setting} {s : State} (h : Reachable cfg s) :
    Recorded s.toCore :=
  Stable.reachable ⟨Recorded.change, Recorded.request⟩ ⟨rfl, by simp⟩ h

end ChainRunner.Run
