import ChainRunner.Proofs.Process.Interrupt
import ChainRunner.Proofs.Process.Table
import ChainRunner.Proofs.Runs

/-!
The registry of tracked processes while they end.

A call locks the registry and looks at the tracked handles one after the other; a process may end
between two looks, and when the registry is free again calls that stop processes still ask them one
after the other. Through all this no handle is forgotten whose process has not ended.
-/

namespace ChainRunner.ProcessTable

open Handle (Answer Interrupt)

/-- What a call of the registry is made for. -/
inductive Errand
  | track (id : Nat)
  | live
  | stopAll
deriving DecidableEq, Repr

inductive Reply
  | tracked
  | live (ids : List Nat)
  /-- How many processes were live, and what came of asking each to stop. -/
  | stopped (count : Nat) (asked : List (Nat × Answer))
deriving DecidableEq, Repr

/-- How far a call has come. -/
inductive Call
  /-- It waits for the registry. -/
  | waits (e : Errand)
  /-- It has the registry: the handles to look at, and those that had not ended. -/
  | looks (e : Errand) (rest kept : List Nat)
  /-- It asks the first of the rest to stop. -/
  | stops (count : Nat) (asked : List (Nat × Answer)) (i : Interrupt) (rest : List Nat)
  | returned (r : Reply)
deriving DecidableEq, Repr

inductive Act
  | adds (h : Handle)
  | changes (id : Nat)
  | calls (e : Errand)
  | locks (i : Nat)
  | looks (i id : Nat)
  | tracks (i id : Nat)
  /-- The live handles are known, and the registry is free. -/
  | lists (i : Nat)
  | asks (i id : Nat) (a : Interrupt.Access)
  | notes (i id : Nat)
  | returns (i : Nat)
deriving DecidableEq, Repr

/-- All handles, which call has the registry, and all calls ever made. -/
structure Shared where
  table : ProcessTable
  holder : Option Nat := none
  calls : List Call := []

/-- No handle is tracked yet. -/
def Shared.fresh (handles : List Handle) : Shared := { table := { handles } }

/-- What may happen next: something of a handle, a new call, or the next access of a call. -/
inductive Step (s : Shared) : Act → Shared → Prop
  | adds {h : Handle} : Step s (.adds h) { s with table := (s.table.add h).1 }
  | changes {id : Nat} {h h' : Handle} (hid : s.table.get? id = some h) (hf : h.Follows h') :
    Step s (.changes id) { s with table := s.table.update id fun _ => h' }
  | calls {e : Errand} (he : ∀ id, e = .track id → id < s.table.handles.length) :
    Step s (.calls e) { s with calls := s.calls ++ [.waits e] }
  | locks {i : Nat} {e : Errand} (hi : s.calls[i]? = some (.waits e)) (hfree : s.holder = none) :
    Step s (.locks i)
      ⟨s.table, some i, s.calls.set i (.looks e s.table.tracked [])⟩
  | looks {i id : Nat} {e : Errand} {rest kept : List Nat}
    (hi : s.calls[i]? = some (.looks e (id :: rest) kept)) :
    Step s (.looks i id) ⟨s.table, s.holder, s.calls.set i
      (.looks e rest (if s.table.hasEnded id then kept else kept ++ [id]))⟩
  | tracks {i id : Nat} {kept : List Nat} (hi : s.calls[i]? = some (.looks (.track id) [] kept)) :
    Step s (.tracks i id)
      ⟨{ s.table with tracked := kept ++ [id] }, none, s.calls.set i (.returned .tracked)⟩
  | lives {i : Nat} {kept : List Nat} (hi : s.calls[i]? = some (.looks .live [] kept)) :
    Step s (.lists i) ⟨s.table, none, s.calls.set i (.returned (.live kept))⟩
  | stops {i : Nat} {kept : List Nat} (hi : s.calls[i]? = some (.looks .stopAll [] kept)) :
    Step s (.lists i) ⟨s.table, none, s.calls.set i (.stops kept.length [] .called kept)⟩
  | asks {i id count : Nat} {asked : List (Nat × Answer)} {rest : List Nat} {c c' : Interrupt}
    {a : Interrupt.Access} {h h' : Handle}
    (hi : s.calls[i]? = some (.stops count asked c (id :: rest)))
    (hid : s.table.get? id = some h) (hg : c.Goes h a h' c') :
    Step s (.asks i id a) ⟨s.table.update id fun _ => h', s.holder,
      s.calls.set i (.stops count asked c' (id :: rest))⟩
  | notes {i id count : Nat} {asked : List (Nat × Answer)} {rest : List Nat} {a : Answer}
    (hi : s.calls[i]? = some (.stops count asked (.answered a) (id :: rest))) :
    Step s (.notes i id)
      ⟨s.table, s.holder, s.calls.set i (.stops count (asked ++ [(id, a)]) .called rest)⟩
  | returns {i count : Nat} {asked : List (Nat × Answer)}
    (hi : s.calls[i]? = some (.stops count asked .called [])) :
    Step s (.returns i) ⟨s.table, s.holder, s.calls.set i (.returned (.stopped count asked))⟩

/-- The handle that an act adds to the tracked ones. -/
def Act.tracked? : Act → Option Nat
  | .tracks _ id => some id
  | _ => none

/-- All handles ever tracked, in tracking order and as often as they were. -/
def everTracked (acts : List Act) : List Nat := acts.filterMap Act.tracked?

variable {gone gone' : Nat → Bool} {all kept rest ids : List Nat} {acts : List Act} {a : Act}
  {s s' : Shared} {t t' : ProcessTable} {i j id : Nat} {c : Call} {handles : List Handle}

@[simp] lemma everTracked_concat :
    everTracked (acts ++ [a]) = everTracked acts ++ a.tracked?.toList := by
  rw [everTracked, List.filterMap_append]
  cases h : a.tracked? <;> simp [everTracked, h]

/-! ### What is left of a list -/

/-- The second list is the first without some that were over. -/
inductive Sifted (gone : Nat → Bool) : List Nat → List Nat → Prop
  | nil : Sifted gone [] []
  | keeps {id : Nat} {all kept : List Nat} (h : Sifted gone all kept) :
    Sifted gone (id :: all) (id :: kept)
  | drops {id : Nat} {all kept : List Nat} (hid : gone id) (h : Sifted gone all kept) :
    Sifted gone (id :: all) kept

namespace Sifted

lemma refl (gone : Nat → Bool) (all : List Nat) : Sifted gone all all := by
  induction all with
  | nil => exact .nil
  | cons id all ih => exact ih.keeps

lemma mono (h : Sifted gone all kept) (hgone : ∀ id ∈ all, gone id → gone' id) :
    Sifted gone' all kept := by
  induction h with
  | nil => exact .nil
  | keeps _ ih => exact (ih fun id hid => hgone id (List.mem_cons_of_mem _ hid)).keeps
  | drops hid _ ih =>
    have hrest := ih fun id hid => hgone id (List.mem_cons_of_mem _ hid)
    exact .drops (hgone _ List.mem_cons_self hid) hrest

lemma append {all' kept' : List Nat} (h : Sifted gone all kept) (h' : Sifted gone all' kept') :
    Sifted gone (all ++ all') (kept ++ kept') := by
  induction h with
  | nil => exact h'
  | keeps _ ih => exact ih.keeps
  | drops hid _ ih => exact ih.drops hid

lemma trans {ids : List Nat} (h : Sifted gone all kept) (h' : Sifted gone kept ids) :
    Sifted gone all ids := by
  induction h generalizing ids with
  | nil => exact h'
  | keeps _ ih =>
    cases h' with
    | keeps h' => exact (ih h').keeps
    | drops hid h' => exact (ih h').drops hid
  | drops hid _ ih => exact (ih h').drops hid

lemma subset (h : Sifted gone all kept) : kept ⊆ all := by
  induction h with
  | nil => exact List.Subset.refl _
  | keeps _ ih => exact List.cons_subset_cons _ ih
  | drops _ _ ih => exact List.subset_cons_of_subset _ ih

/-- What is not over is all left. -/
lemma filter_eq (h : Sifted gone all kept) : kept.filter (!gone ·) = all.filter (!gone ·) := by
  induction h with
  | nil => rfl
  | keeps _ ih => simp only [List.filter_cons, ih]
  | drops hid _ ih => rw [List.filter_cons_of_neg (by simp [hid]), ih]

end Sifted

/-! ### What the calls have seen -/

/-- The table after some time: no handle is lost, and what is over stays so. -/
structure Grows (t t' : ProcessTable) : Prop where
  length : t.handles.length ≤ t'.handles.length
  hasEnded : ∀ id < t.handles.length, t.hasEnded id → t'.hasEnded id

lemma Grows.refl (t : ProcessTable) : t.Grows t := ⟨Nat.le_refl _, fun _ _ h => h⟩

lemma grows_add (t : ProcessTable) (h : Handle) : t.Grows (t.add h).1 := by
  refine ⟨by simp [add], fun id hid he => ?_⟩
  simpa [ProcessTable.hasEnded, get?, add, List.getElem?_append_left hid] using he

lemma grows_update {h h' : Handle} (hid : t.get? id = some h) (hf : h.hasEnded → h'.hasEnded) :
    t.Grows (t.update id fun _ => h') := by
  refine ⟨by simp, fun q _ he => ?_⟩
  by_cases hq : id = q
  · subst hq
    unfold ProcessTable.hasEnded at he ⊢
    rw [hid] at he
    rw [get?_update, if_pos rfl, hid]
    exact hf he
  · rwa [hasEnded_update_of_ne t hq]

/-- The call looked at the tracked handles, when those tracked before were tracked; what it left
out was over by then, and what it has was not over when the call looked at it. -/
def Listed (handles : List Handle) (acts : List Act) (i : Nat) (ids : List Nat) : Prop :=
  ∃ pre post t, acts = pre ++ .lists i :: post ∧ Runs Step (.fresh handles) pre t ∧
    Sifted t.table.hasEnded (everTracked pre) ids ∧
    ∀ id ∈ ids, DoneWhile Step (.fresh handles) (·.table.hasEnded id = false) (.looks i id) pre

/-- What has happened if that came of asking. -/
def Asked (acts : List Act) (t : ProcessTable) (i id : Nat) : Answer → Prop
  | .skipped => id < t.handles.length ∧ t.hasEnded id
  | .signalled pid => .asks i id (.signals pid true) ∈ acts
  | .requested => .asks i id .requests ∈ acts

/-- What a call that has come so far tells of the acts and of the handles. -/
def Call.Tells (handles : List Handle) (acts : List Act) (t : ProcessTable) (holder : Option Nat)
    (i : Nat) : Call → Prop
  | .waits e => ∀ id, e = .track id → id < t.handles.length
  | .looks e rest kept => holder = some i ∧ (∀ id, e = .track id → id < t.handles.length) ∧
    (∃ seen, t.tracked = seen ++ rest ∧ Sifted t.hasEnded seen kept) ∧
    ∀ id ∈ kept, DoneWhile Step (.fresh handles) (·.table.hasEnded id = false) (.looks i id) acts
  | .stops count asked c rest => count = asked.length + rest.length ∧
    Listed handles acts i (asked.map Prod.fst ++ rest) ∧
    (∀ p ∈ asked, Asked acts t i p.1 p.2) ∧
    ∀ a id rest', c = .answered a → rest = id :: rest' → Asked acts t i id a
  | .returned .tracked => True
  | .returned (.live ids) => Listed handles acts i ids
  | .returned (.stopped count asked) => count = asked.length ∧
    Listed handles acts i (asked.map Prod.fst) ∧ ∀ p ∈ asked, Asked acts t i p.1 p.2

lemma Listed.concat (h : Listed handles acts i ids) (a : Act) :
    Listed handles (acts ++ [a]) i ids := by
  obtain ⟨pre, post, t, rfl, hr, hs, hids⟩ := h
  exact ⟨pre, post ++ [a], t, by simp, hr, hs, hids⟩

lemma Asked.mono {answer : Answer} (h : Asked acts t i id answer) (hg : t.Grows t') (a : Act) :
    Asked (acts ++ [a]) t' i id answer := by
  cases answer with
  | skipped => exact ⟨Nat.lt_of_lt_of_le h.1 hg.length, hg.hasEnded id h.1 h.2⟩
  | signalled pid => exact List.mem_append_left _ h
  | requested => exact List.mem_append_left _ h

lemma Call.Tells.mono {holder holder' : Option Nat} (h : c.Tells handles acts t holder i)
    (hg : t.Grows t') (hexist : ∀ id ∈ t.tracked, id < t.handles.length)
    (hreg : holder = some i → holder' = holder ∧ t'.tracked = t.tracked) (a : Act) :
    c.Tells handles (acts ++ [a]) t' holder' i := by
  cases c with
  | waits e => exact fun id he => Nat.lt_of_lt_of_le (h id he) hg.length
  | looks e rest kept =>
    obtain ⟨hholder, he, ⟨seen, hseen, hsifted⟩, hkept⟩ := h
    obtain ⟨hsame, htracked⟩ := hreg hholder
    refine ⟨hsame.trans hholder, fun id h => Nat.lt_of_lt_of_le (he id h) hg.length,
      ⟨seen, htracked.trans hseen, hsifted.mono fun id hid => hg.hasEnded id ?_⟩,
      fun id hid => (hkept id hid).concat a⟩
    exact hexist id (hseen ▸ List.mem_append_left _ hid)
  | stops count asked c rest =>
    obtain ⟨hcount, hlisted, hasked, hlast⟩ := h
    exact ⟨hcount, hlisted.concat a, fun p hp => (hasked p hp).mono hg a,
      fun answer id rest' hc hrest => (hlast answer id rest' hc hrest).mono hg a⟩
  | returned r =>
    cases r with
    | tracked => trivial
    | live ids => exact h.concat a
    | stopped count asked =>
      obtain ⟨hcount, hlisted, hasked⟩ := h
      exact ⟨hcount, hlisted.concat a, fun p hp => (hasked p hp).mono hg a⟩

/-! ### Runs -/

/-- What holds at every moment: nothing but handles that are over is forgotten. -/
structure Holds (handles : List Handle) (acts : List Act) (s : Shared) : Prop where
  tracked : Sifted s.table.hasEnded (everTracked acts) s.table.tracked
  exist : ∀ id ∈ everTracked acts, id < s.table.handles.length
  tells : ∀ (i : Nat) (c : Call), s.calls[i]? = some c → c.Tells handles acts s.table s.holder i

lemma Holds.exist_tracked (h : Holds handles acts s) :
    ∀ id ∈ s.table.tracked, id < s.table.handles.length :=
  fun id hid => h.exist id (h.tracked.subset hid)

/-- An act that leaves the registry alone. -/
lemma Holds.grows (h : Holds handles acts s) (hg : s.table.Grows t')
    (htracked : t'.tracked = s.table.tracked) (ha : a.tracked? = none) {calls : List Call}
    (hcalls : ∀ (i : Nat) (c : Call), calls[i]? = some c → s.calls[i]? = some c ∨
      c.Tells handles (acts ++ [a]) t' s.holder i) :
    Holds handles (acts ++ [a]) ⟨t', s.holder, calls⟩ := by
  have hever : everTracked (acts ++ [a]) = everTracked acts := by simp [ha]
  refine ⟨?_, fun id hid => ?_, fun i c hi => ?_⟩
  · rw [hever, htracked]
    exact h.tracked.mono fun id hid => hg.hasEnded id (h.exist id hid)
  · exact Nat.lt_of_lt_of_le (h.exist id (hever ▸ hid)) hg.length
  · rcases hcalls i c hi with hi | hc
    · exact (h.tells i c hi).mono hg h.exist_tracked (fun _ => ⟨rfl, htracked⟩) a
    · exact hc

/-- An access of a call that has returned the registry. -/
lemma Holds.goes {c₀ : Call} (h : Holds handles acts s) (hg : s.table.Grows t')
    (htracked : t'.tracked = s.table.tracked) (ha : a.tracked? = none)
    (hi : s.calls[i]? = some c₀) (hc : c₀.Tells handles (acts ++ [a]) t' s.holder i →
      c.Tells handles (acts ++ [a]) t' s.holder i) :
    Holds handles (acts ++ [a]) ⟨t', s.holder, s.calls.set i c⟩ := by
  refine h.grows hg htracked ha fun j d hj => ?_
  rcases getElem?_of_set hj with hold | ⟨rfl, rfl⟩
  · exact .inl hold
  · exact .inr (hc ((h.tells i _ hi).mono hg h.exist_tracked (fun _ => ⟨rfl, htracked⟩) a))

/-- An act of a call that has the registry, or takes it while nobody else has it. -/
lemma Holds.registry (h : Holds handles acts s) (hi : ∀ j ≠ i, s.holder ≠ some j)
    {tracked : List Nat} {holder : Option Nat}
    (htracked : Sifted s.table.hasEnded (everTracked (acts ++ [a])) tracked)
    (hexist : ∀ id ∈ everTracked (acts ++ [a]), id < s.table.handles.length)
    (hc : c.Tells handles (acts ++ [a]) { s.table with tracked } holder i) :
    Holds handles (acts ++ [a]) ⟨{ s.table with tracked }, holder, s.calls.set i c⟩ := by
  refine ⟨htracked, hexist, fun j d hj => ?_⟩
  have hgrows : s.table.Grows { s.table with tracked } := ⟨Nat.le_refl _, fun _ _ he => he⟩
  by_cases hij : i = j
  · subst hij
    rw [List.getElem?_set, if_pos rfl] at hj
    split at hj
    · exact Option.some.inj hj ▸ hc
    · cases hj
  · rw [List.getElem?_set_ne hij] at hj
    exact (h.tells j d hj).mono hgrows h.exist_tracked
      (fun hholder => absurd hholder (hi j (Ne.symm hij))) a

/-- Whoever looks has the registry. -/
lemma Holds.holder {e : Errand} (h : Holds handles acts s)
    (hi : s.calls[i]? = some (.looks e rest kept)) : ∀ j ≠ i, s.holder ≠ some j := by
  intro j hj hholder
  have hown := (h.tells i _ hi).1
  rw [hown] at hholder
  exact hj (Option.some.inj hholder).symm

lemma Holds.locks {e : Errand} (h : Holds handles acts s) (hi : s.calls[i]? = some (.waits e))
    (hfree : s.holder = none) : Holds handles (acts ++ [.locks i])
      ⟨s.table, some i, s.calls.set i (.looks e s.table.tracked [])⟩ := by
  have hever : everTracked (acts ++ [.locks i]) = everTracked acts := by simp [Act.tracked?]
  refine h.registry (fun j _ => by simp [hfree]) (hever ▸ h.tracked) (hever ▸ h.exist) ?_
  exact ⟨rfl, h.tells i _ hi, ⟨[], rfl, .nil⟩, by simp⟩

lemma Holds.looks {e : Errand} (h : Holds handles acts s) (hr : Runs Step (.fresh handles) acts s)
    (hi : s.calls[i]? = some (.looks e (id :: rest) kept)) : Holds handles (acts ++ [.looks i id])
      ⟨s.table, s.holder, s.calls.set i
        (.looks e rest (if s.table.hasEnded id then kept else kept ++ [id]))⟩ := by
  have hever : everTracked (acts ++ [.looks i id]) = everTracked acts := by simp [Act.tracked?]
  refine h.registry (h.holder hi) (hever ▸ h.tracked) (hever ▸ h.exist) ?_
  obtain ⟨hholder, he, ⟨seen, hseen, hsifted⟩, hkept⟩ := h.tells i _ hi
  refine ⟨hholder, he, ⟨seen ++ [id], by simp [hseen], ?_⟩, fun q hq => ?_⟩
  · split
    · rename_i hended
      simpa using hsifted.append (.drops hended .nil)
    · exact hsifted.append (.refl _ [id])
  · split at hq
    · exact (hkept q hq).concat _
    · rename_i hlive
      rcases List.mem_append.1 hq with hq | hq
      · exact (hkept q hq).concat _
      · -- it was live at this very look, whatever becomes of it before the call returns
        obtain rfl := List.mem_singleton.1 hq
        exact hr.doneWhile (by simpa using hlive) _

/-- At the end of a pass the list is the tracked handles without some that are over. -/
lemma Holds.sifted {e : Errand} (h : Holds handles acts s)
    (hi : s.calls[i]? = some (.looks e [] kept)) :
    Sifted s.table.hasEnded s.table.tracked kept := by
  obtain ⟨-, -, ⟨seen, hseen, hsifted⟩, -⟩ := h.tells i _ hi
  rwa [hseen, List.append_nil]

lemma Holds.tracks (h : Holds handles acts s)
    (hi : s.calls[i]? = some (.looks (.track id) [] kept)) : Holds handles (acts ++ [.tracks i id])
      ⟨{ s.table with tracked := kept ++ [id] }, none, s.calls.set i (.returned .tracked)⟩ := by
  have hever : everTracked (acts ++ [.tracks i id]) = everTracked acts ++ [id] := by
    simp [Act.tracked?]
  refine h.registry (h.holder hi) ?_ ?_ trivial
  · rw [hever]
    exact (h.tracked.trans (h.sifted hi)).append (.refl _ [id])
  · rw [hever]
    intro q hq
    rcases List.mem_append.1 hq with hq | hq
    · exact h.exist q hq
    · exact List.mem_singleton.1 hq ▸ (h.tells i _ hi).2.1 id rfl

/-- The list of a call that is about to free the registry. -/
lemma Holds.listed {e : Errand} (h : Holds handles acts s) (hr : Runs Step (.fresh handles) acts s)
    (hi : s.calls[i]? = some (.looks e [] kept)) : Listed handles (acts ++ [.lists i]) i kept := by
  obtain ⟨-, -, -, hkept⟩ := h.tells i _ hi
  exact ⟨acts, [], s, rfl, hr, h.tracked.trans (h.sifted hi), hkept⟩

lemma Holds.lists {e : Errand} (h : Holds handles acts s)
    (hi : s.calls[i]? = some (.looks e [] kept))
    (hc : c.Tells handles (acts ++ [.lists i]) s.table none i) : Holds handles (acts ++ [.lists i])
      ⟨s.table, none, s.calls.set i c⟩ := by
  have hever : everTracked (acts ++ [.lists i]) = everTracked acts := by simp [Act.tracked?]
  exact h.registry (h.holder hi) (hever ▸ h.tracked) (hever ▸ h.exist) hc

section

variable {count : Nat} {asked : List (Nat × Answer)} {answer : Answer} {m m' : Interrupt}
  {access : Interrupt.Access} {h₀ h₁ : Handle}

/-- What came of asking has happened. -/
lemma asked_of_goes (hid : t.get? id = some h₀) (hg : m.Goes h₀ access h₁ m')
    (hm : m' = .answered answer) : Asked (acts ++ [.asks i id access]) t i id answer := by
  have hlt : id < t.handles.length := (List.getElem?_eq_some_iff.1 hid).1
  cases hg with
  | skips he =>
    obtain rfl := Interrupt.answered.inj hm
    refine ⟨hlt, ?_⟩
    rwa [ProcessTable.hasEnded, hid]
  | signals | requests =>
    obtain rfl := Interrupt.answered.inj hm
    exact List.mem_append_right _ (List.mem_singleton_self _)
  | passes | aims | misses | fails => cases hm

lemma Holds.asks (h : Holds handles acts s)
    (hi : s.calls[i]? = some (.stops count asked m (id :: rest)))
    (hid : s.table.get? id = some h₀) (hg : m.Goes h₀ access h₁ m') :
    Holds handles (acts ++ [.asks i id access]) ⟨s.table.update id fun _ => h₁, s.holder,
      s.calls.set i (.stops count asked m' (id :: rest))⟩ := by
  have hgrows : s.table.Grows (s.table.update id fun _ => h₁) := by
    refine grows_update hid fun he => ?_
    rcases hg.eq_or with rfl | rfl <;> exact he
  refine h.goes hgrows rfl rfl hi ?_
  rintro ⟨hcount, hlisted, hasked, -⟩
  refine ⟨hcount, hlisted, hasked, fun answer q rest' hm hq => ?_⟩
  obtain ⟨rfl, rfl⟩ := List.cons.inj hq
  -- of the answers only that of a process already over speaks of the table, which has moved on
  have hnow : Asked (acts ++ [.asks i id access]) s.table i id answer := asked_of_goes hid hg hm
  cases answer with
  | skipped => exact ⟨Nat.lt_of_lt_of_le hnow.1 hgrows.length, hgrows.hasEnded _ hnow.1 hnow.2⟩
  | signalled pid => exact hnow
  | requested => exact hnow

lemma Holds.notes (h : Holds handles acts s)
    (hi : s.calls[i]? = some (.stops count asked (.answered answer) (id :: rest))) :
    Holds handles (acts ++ [.notes i id])
      ⟨s.table, s.holder, s.calls.set i (.stops count (asked ++ [(id, answer)]) .called rest)⟩ := by
  refine h.goes (.refl _) rfl rfl hi ?_
  rintro ⟨hcount, hlisted, hasked, hlast⟩
  refine ⟨?_, ?_, fun p hp => ?_, fun a q rest' hm => nomatch hm⟩
  · simp only [List.length_append, List.length_cons, List.length_nil] at hcount ⊢
    omega
  · simpa using hlisted
  · rcases List.mem_append.1 hp with hp | hp
    · exact hasked p hp
    · obtain rfl := List.mem_singleton.1 hp
      exact hlast answer id rest rfl rfl

lemma Holds.returns (h : Holds handles acts s)
    (hi : s.calls[i]? = some (.stops count asked .called [])) :
    Holds handles (acts ++ [.returns i])
      ⟨s.table, s.holder, s.calls.set i (.returned (.stopped count asked))⟩ := by
  refine h.goes (.refl _) rfl rfl hi ?_
  rintro ⟨hcount, hlisted, hasked, -⟩
  exact ⟨by simpa using hcount, by simpa using hlisted, hasked⟩

end

lemma holds_fresh (handles : List Handle) : Holds handles [] (.fresh handles) := by
  refine ⟨.nil, by simp [everTracked], ?_⟩
  intro i c hi
  simp [Shared.fresh] at hi

/-- One step keeps what holds. -/
lemma Holds.step (h : Holds handles acts s) (hr : Runs Step (.fresh handles) acts s)
    (hs : Step s a s') : Holds handles (acts ++ [a]) s' := by
  cases hs with
  | adds => exact h.grows (grows_add _ _) rfl rfl fun _ _ hi => .inl hi
  | changes hid hf => exact h.grows (grows_update hid hf.hasEnded) rfl rfl fun _ _ hi => .inl hi
  | calls he =>
    refine h.grows (.refl _) rfl rfl fun j d hj => ?_
    rcases getElem?_of_concat hj with hj | rfl
    · exact .inl hj
    · exact .inr he
  | locks hi hfree => exact h.locks hi hfree
  | looks hi => exact h.looks hr hi
  | tracks hi => exact h.tracks hi
  | lives hi => exact h.lists hi (h.listed hr hi)
  | stops hi =>
    refine h.lists hi ⟨by simp, ?_, by simp, fun _ _ _ hm => nomatch hm⟩
    simpa using h.listed hr hi
  | asks hi hid hg => exact h.asks hi hid hg
  | notes hi => exact h.notes hi
  | returns hi => exact h.returns hi

lemma Holds.of_runs (h : Runs Step (.fresh handles) acts s) : Holds handles acts s := by
  induction h with
  | nil => exact holds_fresh handles
  | snoc hr hs ih => exact ih.step hr hs

/-! ### Calls that nothing disturbs -/

/-- What the call `i` does, where signals reach the processes that can be reached. -/
def Act.IsOf (i : Nat) (reachable : Nat → Bool) : Act → Prop
  | .locks j | .looks j _ | .tracks j _ | .lists j | .notes j _ | .returns j => j = i
  | .asks j _ a => j = i ∧ ∀ pid r, a = .signals pid r → r = reachable pid
  | .adds _ | .changes _ | .calls _ => False

/-- The call `i` alone leads from one state to the other. -/
def Alone (i : Nat) (reachable : Nat → Bool) (s s' : Shared) : Prop :=
  ∃ acts, Runs Step s acts s' ∧ ∀ a ∈ acts, a.IsOf i reachable

/-- What a whole call makes of the table and returns. -/
inductive Comes (t : ProcessTable) (reachable : Nat → Bool) : Errand → ProcessTable → Reply → Prop
  | track (id : Nat) : Comes t reachable (.track id) (t.track id) .tracked
  | live : Comes t reachable .live t (.live t.live)
  | stopAll {asked : List (Nat × Answer)} (hids : asked.map Prod.fst = t.live)
    (hasked : ∀ p ∈ asked, p.2 ≠ .skipped) :
    Comes t reachable .stopAll (t.stopAll reachable).1 (.stopped (t.stopAll reachable).2 asked)

section

variable {reachable : Nat → Bool} {s'' : Shared} {holder : Option Nat} {calls : List Call}
  {h₀ h₁ : Handle} {m m' : Interrupt} {count : Nat} {asked : List (Nat × Answer)} {e : Errand}

namespace Alone

lemma refl (s : Shared) : Alone i reachable s s := ⟨[], .nil, by simp⟩

lemma step (hs : Step s a s') (ha : a.IsOf i reachable) : Alone i reachable s s' :=
  ⟨[a], .one hs, by simpa using ha⟩

lemma trans (h : Alone i reachable s s') (h' : Alone i reachable s' s'') :
    Alone i reachable s s'' := by
  obtain ⟨acts, hr, hacts⟩ := h
  obtain ⟨acts', hr', hacts'⟩ := h'
  exact ⟨acts ++ acts', hr.trans hr', List.forall_mem_append.2 ⟨hacts, hacts'⟩⟩

end Alone

/-- A pass through the handles while nothing else happens. -/
lemma alone_pass (hi : i < calls.length) (holder : Option Nat) (e : Errand) (rest kept : List Nat) :
    Alone i reachable ⟨t, holder, calls.set i (.looks e rest kept)⟩
      ⟨t, holder, calls.set i (.looks e [] (kept ++ rest.filter (!t.hasEnded ·)))⟩ := by
  induction rest generalizing kept with
  | nil =>
    rw [List.filter_nil, List.append_nil]
    exact .refl _
  | cons id rest ih =>
    have hlook := Step.looks (s := ⟨t, holder, calls.set i (.looks e (id :: rest) kept)⟩)
      (List.getElem?_set_self hi)
    rw [List.set_set] at hlook
    refine (Alone.step hlook rfl).trans ?_
    by_cases hended : t.hasEnded id
    · rw [List.filter_cons_of_neg (by simp [hended]), if_pos hended]
      exact ih kept
    · rw [List.filter_cons_of_pos (by simpa using hended), if_neg hended]
      simpa using ih (kept ++ [id])

/-- One access after the other: how a process is asked to stop while nothing else happens. -/
lemma alone_asks (hi : i < calls.length) {rest : List Nat} (hid : t.get? id = some h₀)
    (hg : Relation.ReflTransGen (Interrupt.Alone reachable) (h₀, m) (h₁, m')) :
    Alone i reachable ⟨t, holder, calls.set i (.stops count asked m (id :: rest))⟩
      ⟨t.update id fun _ => h₁, holder, calls.set i (.stops count asked m' (id :: rest))⟩ := by
  generalize hlast : (h₁, m') = last at hg
  -- from the last access backwards: the table holds the handle as the accesses so far left it
  induction hg generalizing h₁ m' with
  | refl =>
    obtain ⟨rfl, rfl⟩ := Prod.mk.inj hlast
    rw [update_self hid]
    exact .refl _
  | @tail mid _ _ hone ih =>
    obtain ⟨hd, c⟩ := mid
    subst hlast
    obtain ⟨access, hgoes, hsignal⟩ := hone
    refine (ih rfl).trans ?_
    have hget : (t.update id fun _ => hd).get? id = some hd := by
      rw [get?_update, if_pos rfl, hid]
      rfl
    have hask := Step.asks (s := ⟨t.update id fun _ => hd, holder,
      calls.set i (.stops count asked c (id :: rest))⟩) (List.getElem?_set_self hi) hget hgoes
    rw [List.set_set, update_update] at hask
    exact .step hask ⟨rfl, hsignal⟩

/-- All that are live are asked one after the other. -/
lemma alone_stops (hi : i < calls.length) (reachable : Nat → Bool) (holder : Option Nat)
    (count : Nat) (asked : List (Nat × Answer)) (rest : List Nat)
    (hlive : ∀ id ∈ rest, t.hasEnded id = false) :
    ∃ more : List (Nat × Answer), more.map Prod.fst = rest ∧ (∀ p ∈ more, p.2 ≠ .skipped) ∧
      Alone i reachable ⟨t, holder, calls.set i (.stops count asked .called rest)⟩
        ⟨rest.foldl (fun t id => t.terminate reachable id) t, holder,
          calls.set i (.stops count (asked ++ more) .called [])⟩ := by
  induction rest generalizing t asked with
  | nil => exact ⟨[], rfl, by simp, by simpa using .refl _⟩
  | cons id rest ih =>
    obtain ⟨hid, hrest⟩ := List.forall_mem_cons.1 hlive
    obtain ⟨h, hget, hrunning⟩ := exists_of_hasEnded_eq_false hid
    have htable : (t.update id fun _ => (h.terminate reachable).1) = t.terminate reachable id :=
      update_congr fun x hx => by rw [Option.some.inj (hget.symm.trans hx)]
    have hask : Alone i reachable
        ⟨t, holder, calls.set i (.stops count asked .called (id :: rest))⟩
        ⟨t.terminate reachable id, holder, calls.set i
          (.stops count asked (.answered (Interrupt.answerOf h reachable)) (id :: rest))⟩ :=
      htable ▸ alone_asks hi hget (Interrupt.terminate_alone h reachable)
    have hnote := Step.notes (s := ⟨t.terminate reachable id, holder, calls.set i
      (.stops count asked (.answered (Interrupt.answerOf h reachable)) (id :: rest))⟩)
      (List.getElem?_set_self hi)
    rw [List.set_set] at hnote
    -- being asked to stop ends no process, so the rest are still live when their turn comes
    have hrest' : ∀ q ∈ rest, (t.terminate reachable id).hasEnded q = false := fun q hq =>
      (hasEnded_terminate t id q reachable).trans (hrest q hq)
    obtain ⟨more, hmore, hanswers, halone⟩ :=
      ih (asked ++ [(id, Interrupt.answerOf h reachable)]) hrest'
    refine ⟨(id, Interrupt.answerOf h reachable) :: more, by simp [hmore], ?_, ?_⟩
    · exact List.forall_mem_cons.2 ⟨Interrupt.answerOf_ne_skipped hrunning reachable, hanswers⟩
    · rw [List.append_cons]
      exact (hask.trans (.step hnote rfl)).trans halone

/-- A call that nothing disturbs does what the table does at once. -/
lemma alone_whole (hfree : s.holder = none) (hi : s.calls[i]? = some (.waits e)) :
    ∃ t r, Comes s.table reachable e t r ∧
      Alone i reachable s ⟨t, none, s.calls.set i (.returned r)⟩ := by
  have hlt : i < s.calls.length := (List.getElem?_eq_some_iff.1 hi).1
  -- the lock is free: it is taken, and the handles are sorted out under it
  have hlock : Alone i reachable s
      ⟨s.table, some i, s.calls.set i (.looks e [] s.table.live)⟩ :=
    (Alone.step (.locks hi hfree) rfl).trans (alone_pass hlt _ e s.table.tracked [])
  cases e with
  | track id =>
    have htrack := Step.tracks (s := ⟨s.table, some i, s.calls.set i (.looks (.track id) []
      s.table.live)⟩) (List.getElem?_set_self hlt)
    rw [List.set_set] at htrack
    exact ⟨_, _, .track id, hlock.trans (.step htrack rfl)⟩
  | live =>
    have hlist := Step.lives (s := ⟨s.table, some i, s.calls.set i (.looks .live []
      s.table.live)⟩) (List.getElem?_set_self hlt)
    rw [List.set_set] at hlist
    exact ⟨_, _, .live, hlock.trans (.step hlist rfl)⟩
  | stopAll =>
    have hlist := Step.stops (s := ⟨s.table, some i, s.calls.set i (.looks .stopAll []
      s.table.live)⟩) (List.getElem?_set_self hlt)
    rw [List.set_set] at hlist
    have hlive : ∀ id ∈ s.table.live, s.table.hasEnded id = false := fun id hid =>
      ((mem_live s.table id).1 hid).2
    obtain ⟨asked, hids, hanswers, hstop⟩ :=
      alone_stops hlt reachable none s.table.live.length [] s.table.live hlive
    rw [List.nil_append] at hstop
    have hreturn := Step.returns (s := ⟨s.table.terminateAll reachable, none, s.calls.set i
      (.stops s.table.live.length asked .called [])⟩) (List.getElem?_set_self hlt)
    rw [List.set_set] at hreturn
    exact ⟨_, _, .stopAll hids hanswers,
      ((hlock.trans (.step hlist rfl)).trans hstop).trans (.step hreturn rfl)⟩

end

/-- **The registry forgets no process that has not ended.** However looks, ends and new calls come
in between, the live processes are at every moment those ever tracked that have not ended, in
tracking order and as often as they were tracked. Tracking one more only forgets processes that
are over. A call returns what was tracked before it without some that were over, and no process
that was over when it looked; one that stops processes has asked each of these to stop, and counts
them. A call that is not disturbed is that of the table, which asks each live process to stop and
no other. -/
theorem tracked_complete (h : Runs Step (.fresh handles) acts s) :
    s.table.live = (everTracked acts).filter (!s.table.hasEnded ·) ∧
    (∀ i id s', Step s (.tracks i id) s' → ∃ kept, s'.table.tracked = kept ++ [id] ∧
      Sifted s.table.hasEnded s.table.tracked kept) ∧
    (∀ (i : Nat) ids, s.calls[i]? = some (.returned (.live ids)) → Listed handles acts i ids) ∧
    (∀ (i : Nat) count asked, s.calls[i]? = some (.returned (.stopped count asked)) →
      count = asked.length ∧ Listed handles acts i (asked.map Prod.fst) ∧
        ∀ p ∈ asked, Asked acts s.table i p.1 p.2) ∧
    (∀ (i : Nat) e reachable, s.holder = none → s.calls[i]? = some (.waits e) →
      ∃ t r, Comes s.table reachable e t r ∧
        Alone i reachable s ⟨t, none, s.calls.set i (.returned r)⟩) ∧
    ∀ reachable p, (s.table.stopAll reachable).1.get? p =
      if p ∈ s.table.live then (s.table.get? p).map fun h => (h.terminate reachable).1
      else s.table.get? p := by
  have hholds := Holds.of_runs h
  refine ⟨hholds.tracked.filter_eq, fun i id s' hs => ?_, fun i ids hi => hholds.tells i _ hi,
    fun i count asked hi => hholds.tells i _ hi,
    fun i e reachable hfree hi => alone_whole hfree hi,
    fun reachable p => get?_terminateAll s.table p reachable⟩
  cases hs with
  | @tracks _ _ kept hi => exact ⟨kept, rfl, hholds.sifted hi⟩

/-- Three processes, one of them in the background. -/
def threesome : List Handle :=
  [{ name := "a", background := false }, { name := "b", background := true },
    { name := "c", background := false }]

/-- The first of them, when it is over. -/
def ended : Handle := (threesome[0].finish 5 (some 0) false).1

/-- A process that ends just after it was looked at stays for one more call; then only the other
two are left, one in the foreground and one in the background, and both are asked to stop. -/
theorem tracked_complete_late : ∃ acts s, Runs Step (.fresh threesome) acts s ∧
    everTracked acts = [0, 1, 2] ∧ s.table.live = [1, 2] ∧
    ∃ t asked, Alone 3 (fun _ => false) s
      ⟨t, none, s.calls.set 3 (.returned (.stopped 2 asked))⟩ ∧ asked.map Prod.fst = [1, 2] := by
  have hcalls (s : Shared) (id : Nat) (hid : id < s.table.handles.length) :
      Step s (.calls (.track id)) { s with calls := s.calls ++ [.waits (.track id)] } := by
    refine .calls ?_
    rintro q ⟨⟩
    exact hid
  have hends : threesome[0].Follows ended := Handle.follows_finish _ 5 (some 0) false
  have hfirst : Runs Step (.fresh threesome) [.calls (.track 0), .locks 0, .tracks 0 0]
      ⟨⟨threesome, [0]⟩, none, [.returned .tracked]⟩ :=
    ((Runs.one (hcalls _ 0 (by decide))).snoc (.locks rfl rfl)).snoc (@Step.tracks _ 0 0 [] rfl)
  have hsecond : Runs Step ⟨⟨threesome, [0]⟩, none, [.returned .tracked]⟩
      [.calls (.track 1), .locks 1, .looks 1 0, .changes 0, .tracks 1 1]
      ⟨⟨threesome.set 0 ended, [0, 1]⟩, none, [.returned .tracked, .returned .tracked]⟩ :=
    ((((Runs.one (hcalls _ 1 (by decide))).snoc (.locks rfl rfl)).snoc (.looks rfl)).snoc
      (@Step.changes _ 0 _ _ rfl hends)).snoc (@Step.tracks _ 1 1 [0] rfl)
  have hthird : Runs Step
      ⟨⟨threesome.set 0 ended, [0, 1]⟩, none, [.returned .tracked, .returned .tracked]⟩
      [.calls (.track 2), .locks 2, .looks 2 0, .looks 2 1, .tracks 2 2, .calls .stopAll]
      ⟨⟨threesome.set 0 ended, [1, 2]⟩, none, [.returned .tracked, .returned .tracked,
        .returned .tracked, .waits .stopAll]⟩ :=
    (((((Runs.one (hcalls _ 2 (by decide))).snoc (.locks rfl rfl)).snoc (.looks rfl)).snoc
      (.looks rfl)).snoc (@Step.tracks _ 2 2 [1] rfl)).snoc (.calls nofun)
  have hrun := (hfirst.trans hsecond).trans hthird
  obtain ⟨hlive, -, -, -, halone, -⟩ := tracked_complete hrun
  obtain ⟨t, r, hcomes, hstop⟩ := halone 3 .stopAll (fun _ => false) rfl rfl
  have htwo := hlive.trans (by decide : _ = [1, 2])
  refine ⟨_, _, hrun, rfl, htwo, ?_⟩
  cases hcomes with
  | @stopAll asked hids hasked => exact ⟨_, asked, hstop, hids.trans htwo⟩

end ChainRunner.ProcessTable
