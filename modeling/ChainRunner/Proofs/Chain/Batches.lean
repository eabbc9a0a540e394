import Mathlib.Data.List.Induction
import Mathlib.Data.List.TakeWhile
import ChainRunner.Chain.Basic
import ChainRunner.Proofs.Interleaving
import ChainRunner.Proofs.Text.Words

/-!
How a chain is cut into batches.

The batches hold the steps of the chain in order, none is empty, and two steps with nothing but
pauses between them start together exactly if there is no pause. There is only one way to cut a
chain like this, so pauses that have nothing to wait for make no difference.
-/

namespace ChainRunner.Batch

variable {steps us vs : List Step} {b b' : Batch} {bs bs' pre : List Batch} {i : Nat}

/-- The steps that name something. -/
def unpaused (steps : List Step) : List Step := steps.filter (!·.isPause)

/-- All steps of some batches, in order. -/
def flat (bs : List Batch) : List Step := bs.flatMap Batch.steps

/-- Of all steps of the batches, those at the places `i` and `i + 1` are in the same batch. -/
def Together (bs : List Batch) (i : Nat) : Prop :=
  ∃ pre b post, bs = pre ++ b :: post ∧ (flat pre).length ≤ i ∧
    i + 1 < (flat pre).length + b.steps.length

/-- The batches of a chain that is cut at its pauses. -/
structure IsCut (steps : List Step) (bs : List Batch) : Prop where
  flat : flat bs = unpaused steps
  ne_nil : ∀ b ∈ bs, b.steps ≠ []
  /-- Two neighbours are in the same batch exactly if no pause stands between them. -/
  together : ∀ us s ps t vs, steps = us ++ s :: (ps ++ t :: vs) → s.isPause = false →
    t.isPause = false → (∀ p ∈ ps, p.isPause) →
      (Together bs (unpaused us).length ↔ ps = [])

@[simp] lemma flat_nil : flat [] = [] := rfl

@[simp] lemma flat_cons (b : Batch) (bs : List Batch) : flat (b :: bs) = b.steps ++ flat bs := rfl

@[simp] lemma flat_append (bs bs' : List Batch) : flat (bs ++ bs') = flat bs ++ flat bs' :=
  List.flatMap_append

@[simp] lemma unpaused_nil : unpaused [] = [] := rfl

@[simp] lemma unpaused_append (us vs : List Step) :
    unpaused (us ++ vs) = unpaused us ++ unpaused vs := List.filter_append ..

lemma unpaused_cons_pause {p : Step} (hp : p.isPause) (steps : List Step) :
    unpaused (p :: steps) = unpaused steps := List.filter_cons_of_neg (by simp [hp])

lemma unpaused_cons_step {s : Step} (hs : s.isPause = false) (steps : List Step) :
    unpaused (s :: steps) = s :: unpaused steps := List.filter_cons_of_pos (by simp [hs])

/-! ### Cutting -/

/-- A pause ends what comes before it. -/
lemma ofSteps_join {p : Step} (hp : p.isPause) (us vs : List Step) :
    ofSteps (us ++ p :: vs) = ofSteps us ++ ofSteps vs := by
  rw [ofSteps, List.splitOnP_append_cons us vs hp, List.filter_append, List.map_append]
  rfl

lemma ofSteps_of_unpaused (h : ∀ s ∈ steps, s.isPause = false) (hne : steps ≠ []) :
    ofSteps steps = [⟨steps⟩] := by
  have hwhole : steps.splitOnP Step.isPause = [steps] :=
    List.splitOnP_eq_singleton fun s hs => by simp [h s hs]
  simp [ofSteps, hwhole, hne]

lemma flatten_splitOnP (steps : List Step) :
    (steps.splitOnP Step.isPause).flatten = unpaused steps := by
  induction steps with
  | nil => rfl
  | cons s steps ih =>
    rw [List.splitOnP_cons_eq_if_modifyHead]
    split
    · rename_i hs
      rw [unpaused_cons_pause hs, List.flatten_cons, List.nil_append, ih]
    · rename_i hs
      obtain ⟨w, ws, hw⟩ := List.exists_cons_of_ne_nil (List.splitOnP_ne_nil Step.isPause steps)
      rw [unpaused_cons_step (by simpa using hs), ← ih, hw]
      rfl

lemma flat_ofSteps (steps : List Step) : flat (ofSteps steps) = unpaused steps := by
  rw [← flatten_splitOnP, flat, ofSteps, List.flatMap_map]
  induction steps.splitOnP Step.isPause with
  | nil => rfl
  | cons w ws ih =>
    rw [List.flatten_cons, ← ih]
    cases w <;> rfl

lemma mem_ofSteps (h : b ∈ ofSteps steps) :
    b.steps ≠ [] ∧ ∀ s ∈ b.steps, s.isPause = false := by
  obtain ⟨w, hw, rfl⟩ := List.mem_map.1 h
  obtain ⟨hin, hne⟩ := List.mem_filter.1 hw
  refine ⟨by simpa using hne, fun s hs => ?_⟩
  simpa using (Text.of_mem_splitOnP hin s hs).2

/-! ### Neighbours -/

/-- What stands before a place ends with the batches before it and the beginning of one more. -/
lemma exists_before (us : List Step) : ∃ us₁ us₂, (∀ s ∈ us₂, s.isPause = false) ∧
    unpaused us = unpaused us₁ ++ us₂ ∧
      ∀ rest, ofSteps (us ++ rest) = ofSteps us₁ ++ ofSteps (us₂ ++ rest) := by
  induction us using List.reverseRecOn with
  | nil => exact ⟨[], [], by simp, rfl, fun _ => rfl⟩
  | append_singleton us c ih =>
    by_cases hc : c.isPause
    · refine ⟨us, [], by simp, ?_, fun rest => ?_⟩
      · rw [unpaused_append, unpaused_cons_pause hc]
        rfl
      · rw [List.append_assoc, List.singleton_append, ofSteps_join hc, List.nil_append]
    · have hstep : c.isPause = false := by simpa using hc
      obtain ⟨us₁, us₂, hfree, hflat, hcut⟩ := ih
      refine ⟨us₁, us₂ ++ [c], ?_, ?_, fun rest => ?_⟩
      · simpa [or_imp, forall_and, hstep] using hfree
      · rw [unpaused_append, hflat, unpaused_cons_step hstep, List.append_assoc]
        rfl
      · rw [List.append_assoc, hcut, List.append_assoc]

/-- What stands behind a place goes on with the rest of one batch and the batches behind it. -/
lemma exists_behind (vs : List Step) : ∃ vs₁ vs₂, (∀ s ∈ vs₁, s.isPause = false) ∧
    ∀ front, front ≠ [] → (∀ s ∈ front, s.isPause = false) →
      ofSteps (front ++ vs) = ⟨front ++ vs₁⟩ :: ofSteps vs₂ := by
  induction vs with
  | nil =>
    refine ⟨[], [], by simp, fun front hne hfree => ?_⟩
    rw [List.append_nil, ofSteps_of_unpaused hfree hne]
    rfl
  | cons c vs ih =>
    by_cases hc : c.isPause
    · refine ⟨[], vs, by simp, fun front hne hfree => ?_⟩
      rw [ofSteps_join hc, ofSteps_of_unpaused hfree hne, List.append_nil]
      rfl
    · have hstep : c.isPause = false := by simpa using hc
      obtain ⟨vs₁, vs₂, hfree₁, hcut⟩ := ih
      refine ⟨c :: vs₁, vs₂, by simpa [hstep] using hfree₁, fun front hne hfree => ?_⟩
      have hnext := hcut (front ++ [c]) (by simp) (by simpa [or_imp, forall_and, hstep] using hfree)
      simpa using hnext

/-- Steps that stand next to each other start together. -/
lemma together_of_adjacent {s t : Step} (hs : s.isPause = false) (ht : t.isPause = false)
    (us vs : List Step) : Together (ofSteps (us ++ s :: t :: vs)) (unpaused us).length := by
  obtain ⟨us₁, us₂, hfree, hflat, hbefore⟩ := exists_before us
  obtain ⟨vs₁, vs₂, -, hbehind⟩ := exists_behind vs
  have hfront : ∀ c ∈ us₂ ++ [s, t], c.isPause = false := by
    simpa [or_imp, forall_and, hs, ht] using hfree
  have hmiddle := hbehind (us₂ ++ [s, t]) (by simp) hfront
  have hcut : ofSteps (us ++ s :: t :: vs) =
      ofSteps us₁ ++ ⟨us₂ ++ [s, t] ++ vs₁⟩ :: ofSteps vs₂ := by
    rw [hbefore, ← hmiddle, List.append_assoc]
    rfl
  refine ⟨ofSteps us₁, _, _, hcut, ?_, ?_⟩ <;>
  · rw [flat_ofSteps, hflat]
    simp only [List.length_append, List.length_cons]
    omega

/-- Nobody starts together with what comes behind the last step of a batch. -/
lemma not_together_of_cut (hbs : bs = pre ++ bs') (hlast : (flat pre).length = i + 1) :
    ¬ Together bs i := by
  rintro ⟨pre', b, post, hbs', hle, hlt⟩
  have hcover : pre ++ bs' = pre' ++ b :: post := hbs.symm.trans hbs'
  rcases List.append_eq_append_iff.1 hcover with ⟨mid, rfl, -⟩ | ⟨mid, rfl, hmid⟩
  · -- the batch begins behind the cut
    rw [flat_append, List.length_append] at hle
    omega
  · cases mid with
    | nil =>
      rw [List.append_nil] at hlast
      omega
    | cons c mid =>
      -- the batch ends before the cut
      obtain ⟨rfl, -⟩ := List.cons.inj hmid
      rw [flat_append, flat_cons, List.length_append, List.length_append] at hlast
      omega

lemma isCut_ofSteps (steps : List Step) : IsCut steps (ofSteps steps) := by
  refine ⟨flat_ofSteps steps, fun b hb => (mem_ofSteps hb).1, ?_⟩
  rintro us s ps t vs rfl hs ht hps
  constructor
  · intro h
    by_contra hne
    -- the first pause between the two closes the batch of the former
    obtain ⟨p, ps, rfl⟩ := List.exists_cons_of_ne_nil hne
    have hcut : ofSteps (us ++ s :: (p :: ps ++ t :: vs)) =
        ofSteps (us ++ [s]) ++ ofSteps (ps ++ t :: vs) := by
      rw [← ofSteps_join (hps p (by simp)), List.append_assoc]
      rfl
    refine not_together_of_cut hcut ?_ h
    rw [flat_ofSteps, unpaused_append, unpaused_cons_step hs]
    simp
  · rintro rfl
    exact together_of_adjacent hs ht us vs

/-! ### There is one way only -/

lemma together_cons (b : Batch) : Together (b :: bs) (b.steps.length + i) ↔ Together bs i := by
  constructor
  · rintro ⟨pre, c, post, hbs, hle, hlt⟩
    cases pre with
    | nil =>
      obtain ⟨rfl, -⟩ := List.cons.inj hbs
      simp only [flat_nil, List.length_nil] at hlt
      omega
    | cons d pre =>
      obtain ⟨rfl, rfl⟩ := List.cons.inj hbs
      simp only [flat_cons, List.length_append] at hle hlt
      exact ⟨pre, c, post, rfl, by omega, by omega⟩
  · rintro ⟨pre, c, post, rfl, hle, hlt⟩
    refine ⟨b :: pre, c, post, rfl, ?_, ?_⟩ <;>
    · simp only [flat_cons, List.length_append]
      omega

/-- The first batch goes no further if its last step starts without the one behind it. -/
lemma length_le_of_together (hne : b.steps ≠ [])
    (h : b.steps.length < b'.steps.length →
      Together (b' :: bs') (b.steps.length - 1) → Together (b :: bs) (b.steps.length - 1)) :
    b'.steps.length ≤ b.steps.length := by
  have hpos : 0 < b.steps.length := List.length_pos_iff.2 hne
  have hlast : b.steps.length = b.steps.length - 1 + 1 := by omega
  by_contra hlt
  have hb' : Together (b' :: bs') (b.steps.length - 1) :=
    ⟨[], b', bs', rfl, Nat.zero_le _, by simp only [flat_nil, List.length_nil]; omega⟩
  have hcut : b :: bs = [b] ++ bs := rfl
  refine not_together_of_cut hcut ?_ (h (by omega) hb')
  simpa using hlast

lemma eq_of_together (hflat : flat bs = flat bs') (hne : ∀ b ∈ bs, b.steps ≠ [])
    (hne' : ∀ b ∈ bs', b.steps ≠ [])
    (h : ∀ i, i + 1 < (flat bs).length → (Together bs i ↔ Together bs' i)) : bs = bs' := by
  induction bs generalizing bs' with
  | nil =>
    cases bs' with
    | nil => rfl
    | cons b' bs' => exact absurd (List.append_eq_nil_iff.1 hflat.symm).1 (hne' b' (by simp))
  | cons b bs ih =>
    cases bs' with
    | nil => exact absurd (List.append_eq_nil_iff.1 hflat).1 (hne b (by simp))
    | cons b' bs' =>
      have hb : b.steps ≠ [] := hne b (by simp)
      have hb' : b'.steps ≠ [] := hne' b' (by simp)
      have hsum : (flat (b :: bs)).length = b.steps.length + (flat bs).length := by simp
      have hsum' : (flat (b :: bs)).length = b'.steps.length + (flat bs').length := by simp [hflat]
      have hpos : 0 < b.steps.length := List.length_pos_iff.2 hb
      have hpos' : 0 < b'.steps.length := List.length_pos_iff.2 hb'
      have hlen : b.steps.length = b'.steps.length := by
        -- whichever first batch were longer would join two steps that the other one parts
        refine Nat.le_antisymm (length_le_of_together hb' fun hlt => (h _ ?_).1)
          (length_le_of_together hb fun hlt => (h _ ?_).2)
        · omega
        · omega
      obtain ⟨hsteps, hrest⟩ := List.append_inj hflat hlen
      have hbs : bs = bs' := by
        refine ih hrest (fun c hc => hne c (by simp [hc])) (fun c hc => hne' c (by simp [hc]))
          fun i hi => ?_
        have hshift : Together (b' :: bs') (b.steps.length + i) ↔ Together bs' i :=
          hlen ▸ together_cons b'
        rw [← hshift, ← together_cons b]
        exact h (b.steps.length + i) (by omega)
      obtain ⟨b⟩ := b
      obtain ⟨b'⟩ := b'
      obtain rfl : b = b' := hsteps
      rw [hbs]

/-- Every two steps that follow each other have only pauses between them. -/
lemma exists_neighbours (h : i + 1 < (unpaused steps).length) : ∃ us s ps t vs,
    steps = us ++ s :: (ps ++ t :: vs) ∧ s.isPause = false ∧ t.isPause = false ∧
      (∀ p ∈ ps, p.isPause) ∧ (unpaused us).length = i := by
  induction steps generalizing i with
  | nil => simp at h
  | cons c steps ih =>
    by_cases hc : c.isPause
    · rw [unpaused_cons_pause hc] at h
      obtain ⟨us, s, ps, t, vs, rfl, hs, ht, hps, rfl⟩ := ih h
      exact ⟨c :: us, s, ps, t, vs, rfl, hs, ht, hps, by rw [unpaused_cons_pause hc]⟩
    · have hstep : c.isPause = false := by simpa using hc
      rw [unpaused_cons_step hstep, List.length_cons] at h
      cases i with
      | zero =>
        -- the other one is the first step behind the pauses that follow
        have hne : steps.dropWhile Step.isPause ≠ [] := by
          intro hnil
          have hall := List.dropWhile_eq_nil_iff.1 hnil
          have hnone : unpaused steps = [] :=
            List.filter_eq_nil_iff.2 fun p hp => by simp [hall p hp]
          simp [hnone] at h
        obtain ⟨t, vs, hdrop⟩ := List.exists_cons_of_ne_nil hne
        have ht : t.isPause = false := by
          have hhead := List.head_dropWhile_not Step.isPause hne
          simpa [hdrop] using hhead
        refine ⟨[], c, steps.takeWhile Step.isPause, t, vs, ?_, hstep, ht,
          fun p hp => List.mem_takeWhile_imp hp, rfl⟩
        rw [← hdrop, List.takeWhile_append_dropWhile]
        rfl
      | succ i =>
        obtain ⟨us, s, ps, t, vs, rfl, hs, ht, hps, rfl⟩ := ih (Nat.lt_of_succ_lt_succ h)
        exact ⟨c :: us, s, ps, t, vs, rfl, hs, ht, hps, by rw [unpaused_cons_step hstep]; rfl⟩

lemma IsCut.eq (h : IsCut steps bs) (h' : IsCut steps bs') : bs = bs' := by
  refine eq_of_together (h.flat.trans h'.flat.symm) h.ne_nil h'.ne_nil fun i hi => ?_
  obtain ⟨us, s, ps, t, vs, hsteps, hs, ht, hps, rfl⟩ := exists_neighbours (h.flat ▸ hi)
  rw [h.together us s ps t vs hsteps hs ht hps, h'.together us s ps t vs hsteps hs ht hps]

/-! ### Inside a batch -/

/-- Sequential and background steps of a batch. -/
lemma interleaves_modes (h : ∀ s ∈ b.steps, s.isPause = false) :
    Interleaves b.sequential b.background b.steps := by
  have hbackground : b.background = b.steps.filter (!·.mode = .sequential) := by
    refine List.filter_congr fun s hs => ?_
    have hno := h s hs
    cases s with
    | pause => cases hno
    | sequential | background => rfl
  rw [hbackground]
  exact .filter _ _

/-- **Cutting a chain at its pauses.** The batches are the only ones with the steps of the chain in
order, none of them empty, and neighbours in one batch exactly if no pause stands between them. No
batch has a pause; its sequential and its background steps are all its steps, each once and in
order; and pauses at the beginning, at the end and behind another one change nothing. -/
theorem ofSteps_unique (steps : List Step) :
    (∀ bs, IsCut steps bs ↔ bs = ofSteps steps) ∧
      (∀ b ∈ ofSteps steps, (∀ s ∈ b.steps, s.isPause = false) ∧
        Interleaves b.sequential b.background b.steps) ∧
      ofSteps (.pause :: steps) = ofSteps steps ∧
      ofSteps (steps ++ [.pause]) = ofSteps steps ∧
      ∀ vs, ofSteps (steps ++ .pause :: .pause :: vs) = ofSteps (steps ++ .pause :: vs) := by
  have hlead (vs : List Step) : ofSteps (.pause :: vs) = ofSteps vs :=
    ofSteps_join (p := .pause) rfl [] vs
  refine ⟨fun bs => ⟨fun h => h.eq (isCut_ofSteps steps), ?_⟩, fun b hb => ?_, hlead steps, ?_,
    fun vs => ?_⟩
  · rintro rfl
    exact isCut_ofSteps steps
  · have hfree := (mem_ofSteps hb).2
    exact ⟨hfree, interleaves_modes hfree⟩
  · rw [ofSteps_join rfl]
    exact List.append_nil _
  · rw [ofSteps_join rfl, ofSteps_join rfl, hlead]

/-- `- a +bg b - - c` has two batches, with or without the pauses that nothing waits for. -/
theorem ofSteps_unique_padded :
    let first : List Step := [.sequential "a", .background "bg", .sequential "b"]
    (∀ bs, IsCut (.pause :: (first ++ .pause :: .pause :: [.sequential "c"])) bs ↔
      bs = [⟨first⟩, ⟨[.sequential "c"]⟩]) ∧
    ofSteps (first ++ .pause :: [.sequential "c"]) = [⟨first⟩, ⟨[.sequential "c"]⟩] ∧
    Interleaves [.sequential "a", .sequential "b"] [.background "bg"] first := by
  intro first
  obtain ⟨-, -, hlead, -⟩ := ofSteps_unique (first ++ .pause :: .pause :: [.sequential "c"])
  obtain ⟨-, -, -, -, hdouble⟩ := ofSteps_unique first
  obtain ⟨-, hmodes, -⟩ := ofSteps_unique (first ++ .pause :: [.sequential "c"])
  have hbatches : ofSteps (first ++ .pause :: [.sequential "c"]) =
      [⟨first⟩, ⟨[.sequential "c"]⟩] := rfl
  refine ⟨fun bs => ?_, hbatches, (hmodes ⟨first⟩ (by simp [hbatches])).2⟩
  have hpadded := (ofSteps_unique (.pause :: (first ++ .pause :: .pause :: [.sequential "c"]))).1 bs
  rw [hpadded, hlead, hdouble, hbatches]

end ChainRunner.Batch
