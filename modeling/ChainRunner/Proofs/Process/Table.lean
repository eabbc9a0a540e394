import ChainRunner.Process.Table
import ChainRunner.Proofs.Process.Handle
import Mathlib.Data.List.Basic

/-!
How the operations on the table of handles change who is over and who is live, and what becomes
of the handles in it.
-/

namespace ChainRunner

namespace Handle

@[simp] lemma hasEnded_start (h : Handle) (now : Nat) (pid : Option Nat) :
    (h.start now pid).hasEnded = h.hasEnded := rfl

@[simp] lemma hasEnded_terminate (h : Handle) (reachable : Nat → Bool) :
    (h.terminate reachable).1.hasEnded = h.hasEnded := by
  unfold terminate
  split
  · rfl
  · split <;> rfl

/-- To ask twice is to ask once. -/
lemma terminate_terminate (h : Handle) (reachable : Nat → Bool) :
    ((h.terminate reachable).1.terminate reachable).1 = (h.terminate reachable).1 := by
  by_cases he : h.hasEnded
  · simp [terminate, he]
  · cases hp : h.pid.filter reachable with
    | some pid => simp [terminate, he, hp]
    | none =>
      have he' : ({ h with killRequested := true } : Handle).hasEnded = h.hasEnded := rfl
      simp [terminate, he, he', hp]

end Handle

namespace ProcessTable

variable (t : ProcessTable) (p q : Nat)

@[simp] lemma length_update (f : Handle → Handle) :
    (t.update p f).handles.length = t.handles.length := by simp [update]

@[simp] lemma tracked_update (f : Handle → Handle) : (t.update p f).tracked = t.tracked := rfl

lemma get?_update (f : Handle → Handle) :
    (t.update p f).get? q = if p = q then (t.get? q).map f else t.get? q := by
  unfold update get?
  rw [List.getElem?_modify]
  cases t.handles[q]? <;> split <;> rfl

lemma hasEnded_update_of_ne {p q : Nat} (h : p ≠ q) (f : Handle → Handle) :
    (t.update p f).hasEnded q = t.hasEnded q := by
  simp [hasEnded, get?_update, h]

lemma hasEnded_update_of_lt {p : Nat} (h : p < t.handles.length) (f : Handle → Handle) :
    (t.update p f).hasEnded p = (f t.handles[p]).hasEnded := by
  unfold hasEnded
  rw [get?_update, if_pos rfl, get?, List.getElem?_eq_getElem h]
  rfl

/-- A change that keeps every end. -/
lemma hasEnded_update {f : Handle → Handle} (hf : ∀ h, (f h).hasEnded = h.hasEnded) :
    (t.update p f).hasEnded q = t.hasEnded q := by
  unfold hasEnded
  rw [get?_update]
  by_cases h : p = q <;> cases t.get? q <;> simp [h, hf]

@[simp] lemma hasEnded_terminate (reachable : Nat → Bool) :
    (t.terminate reachable p).hasEnded q = t.hasEnded q :=
  hasEnded_update t p q fun h => h.hasEnded_terminate reachable

@[simp] lemma length_terminate (reachable : Nat → Bool) :
    (t.terminate reachable p).handles.length = t.handles.length := length_update ..

@[simp] lemma tracked_terminate (reachable : Nat → Bool) :
    (t.terminate reachable p).tracked = t.tracked := rfl

@[simp] lemma length_terminateAll (reachable : Nat → Bool) :
    (t.terminateAll reachable).handles.length = t.handles.length := by
  unfold terminateAll
  generalize t.live = ids
  induction ids generalizing t with
  | nil => rfl
  | cons i ids ih => rw [List.foldl_cons, ih, length_terminate]

@[simp] lemma tracked_terminateAll (reachable : Nat → Bool) :
    (t.terminateAll reachable).tracked = t.tracked := by
  unfold terminateAll
  generalize t.live = ids
  induction ids generalizing t with
  | nil => rfl
  | cons i ids ih => rw [List.foldl_cons, ih, tracked_terminate]

@[simp] lemma hasEnded_terminateAll (reachable : Nat → Bool) :
    (t.terminateAll reachable).hasEnded q = t.hasEnded q := by
  unfold terminateAll
  generalize t.live = ids
  induction ids generalizing t with
  | nil => rfl
  | cons i ids ih => rw [List.foldl_cons, ih, hasEnded_terminate]

/-- Each live process is asked to stop, and no other. -/
lemma get?_terminateAll (reachable : Nat → Bool) : (t.terminateAll reachable).get? p =
    if p ∈ t.live then (t.get? p).map fun h => (h.terminate reachable).1 else t.get? p := by
  have hall (ids : List Nat) (t : ProcessTable) :
      (ids.foldl (fun t id => t.terminate reachable id) t).get? p =
        if p ∈ ids then (t.get? p).map fun h => (h.terminate reachable).1 else t.get? p := by
    induction ids generalizing t with
    | nil => rfl
    | cons i ids ih =>
      rw [List.foldl_cons, ih, terminate, get?_update]
      by_cases hi : i = p
      · subst hi
        cases t.get? i <;> simp [Handle.terminate_terminate]
      · simp [hi, Ne.symm hi]
  exact hall t.live t

lemma mem_live : p ∈ t.live ↔ p ∈ t.tracked ∧ t.hasEnded p = false := by simp [live]

/-! ### A new process -/

variable (h : Handle) (now : Nat)

lemma length_launch : (t.launch h now).handles.length = t.handles.length + 1 := by
  simp [launch, track, add]

lemma hasEnded_launch_of_ne {q : Nat} (hq : q ≠ t.handles.length) :
    (t.launch h now).hasEnded q = t.hasEnded q := by
  unfold launch
  rw [hasEnded_update_of_ne _ (Ne.symm hq)]
  unfold hasEnded get? track add
  rcases Nat.lt_or_gt_of_ne hq with hlt | hgt
  · simp only [List.getElem?_append_left hlt]
  · rw [List.getElem?_eq_none (by simp; omega), List.getElem?_eq_none (Nat.le_of_lt hgt)]

lemma hasEnded_launch_self (hh : h.hasEnded = false) :
    (t.launch h now).hasEnded t.handles.length = false := by
  unfold launch
  rw [hasEnded_update_of_lt _ (by simp [track, add])]
  simpa [track, add] using hh

lemma mem_live_launch (hh : h.hasEnded = false) :
    q ∈ (t.launch h now).live ↔ q ∈ t.live ∨ q = t.handles.length := by
  have hold (hlt : q ≠ t.handles.length) : (t.add h).1.hasEnded q = t.hasEnded q := by
    rw [← hasEnded_launch_of_ne t h now hlt, launch, hasEnded_update_of_ne _ (Ne.symm hlt)]
    rfl
  rw [mem_live, mem_live]
  by_cases hq : q = t.handles.length
  · subst hq
    have hself := hasEnded_launch_self t h now hh
    simp only [hself, or_true, and_true, iff_true]
    simp [launch, track]
  · rw [hasEnded_launch_of_ne t h now hq]
    simp only [launch, tracked_update, track, List.mem_append, List.mem_filter, hold hq,
      List.mem_singleton, hq, or_false]
    simp only [add, Bool.not_eq_true']
    tauto

lemma tracked_launch : (t.launch h now).tracked =
    t.tracked.filter (!(t.add h).1.hasEnded ·) ++ [t.handles.length] := rfl

/-- A new process is the last one of those that are live. -/
lemma live_launch (hh : h.hasEnded = false) (hn : t.handles.length ∉ t.tracked) :
    (t.launch h now).live = t.live ++ [t.handles.length] := by
  have hself := hasEnded_launch_self t h now hh
  have hadd (q : Nat) (hq : q ≠ t.handles.length) : (t.add h).1.hasEnded q = t.hasEnded q := by
    rw [← hasEnded_launch_of_ne t h now hq, launch, hasEnded_update_of_ne _ (Ne.symm hq)]
    rfl
  rw [live, tracked_launch, List.filter_append, List.filter_filter]
  congr 1
  · refine List.filter_congr fun q hq => ?_
    have hne : q ≠ t.handles.length := fun heq => hn (heq ▸ hq)
    rw [hasEnded_launch_of_ne t h now hne, hadd q hne, Bool.and_self]
  · simp [hself]

lemma get?_launch_of_lt {q : Nat} (hq : q < t.handles.length) :
    (t.launch h now).get? q = t.get? q := by
  rw [launch, get?_update, if_neg (Nat.ne_of_gt hq)]
  simp only [get?, track, add, List.getElem?_append_left hq]

lemma get?_launch_self : (t.launch h now).get? t.handles.length = some (h.start now none) := by
  rw [launch, get?_update, if_pos rfl]
  simp [get?, track, add]

/-! ### What becomes of the handles -/

/-- Every handle of the table has become the one with its number in another. -/
def Follows (t t' : ProcessTable) : Prop :=
  ∀ p h, t.get? p = some h → ∃ h', t'.get? p = some h' ∧ h.Follows h'

variable {t p} {t' t'' : ProcessTable}

namespace Follows

lemma refl (t : ProcessTable) : t.Follows t := fun _ h hp => ⟨h, hp, .refl h⟩

lemma trans (hf : t.Follows t') (hf' : t'.Follows t'') : t.Follows t'' := by
  intro p h hp
  obtain ⟨h', hp', hh⟩ := hf p h hp
  obtain ⟨h'', hp'', hh'⟩ := hf' p h' hp'
  exact ⟨h'', hp'', hh.trans hh'⟩

lemma update {f : Handle → Handle} (hf : ∀ h, t.get? p = some h → h.Follows (f h)) :
    t.Follows (t.update p f) := by
  intro q h hq
  rw [get?_update]
  by_cases hpq : p = q
  · subst q
    exact ⟨f h, by simp [hq], hf h hq⟩
  · exact ⟨h, by rw [if_neg hpq, hq], .refl h⟩

lemma terminate (p : Nat) (reachable : Nat → Bool) : t.Follows (t.terminate reachable p) :=
  update fun h _ => h.follows_terminate reachable

lemma terminateAll (reachable : Nat → Bool) : t.Follows (t.terminateAll reachable) := by
  unfold ProcessTable.terminateAll
  generalize t.live = ids
  induction ids generalizing t with
  | nil => exact .refl t
  | cons i ids ih => exact (terminate i reachable).trans ih

lemma launch (h : Handle) (now : Nat) : t.Follows (t.launch h now) := by
  intro q hq hget
  have hlt : q < t.handles.length := (List.getElem?_eq_some_iff.1 hget).1
  exact ⟨hq, by rw [get?_launch_of_lt t h now hlt, hget], .refl hq⟩

end Follows

/-! ### One handle after another -/

lemma update_congr {f g : Handle → Handle} (h : ∀ x, t.get? p = some x → f x = g x) :
    t.update p f = t.update p g := by
  have hlist : t.handles.modify p f = t.handles.modify p g := by
    refine List.ext_getElem? fun q => ?_
    rw [List.getElem?_modify, List.getElem?_modify]
    by_cases hq : p = q
    · subst hq
      cases hx : t.handles[p]? with
      | none => rfl
      | some x => simp [h x hx]
    · simp [hq]
  rw [update, update, hlist]

lemma update_self {h : Handle} (hp : t.get? p = some h) : (t.update p fun _ => h) = t := by
  rw [update_congr (g := fun x => x) fun x hx => Option.some.inj (hp.symm.trans hx)]
  exact congrArg (fun handles => { t with handles }) (List.modify_id ..)

lemma update_update (f g : Handle → Handle) :
    (t.update p f).update p g = t.update p fun h => g (f h) := by
  simp [update, List.modify_modify_eq, Function.comp_def]

lemma exists_of_hasEnded_eq_false (hp : t.hasEnded p = false) :
    ∃ h, t.get? p = some h ∧ h.hasEnded = false := by
  unfold hasEnded at hp
  cases h : t.get? p with
  | none => simp [h] at hp
  | some x => exact ⟨x, rfl, by simpa [h] using hp⟩

/-! ### Ends -/

/-- The process has ended, and it has failed or not. -/
def EndedWith (t : ProcessTable) (p : Nat) (failed : Bool) : Prop :=
  ∃ h, t.get? p = some h ∧ h.hasEnded = true ∧ h.failed = failed

lemma EndedWith.follows {failed : Bool} (h : t.EndedWith p failed) (hf : t.Follows t') :
    t'.EndedWith p failed := by
  obtain ⟨hd, hp, he, rfl⟩ := h
  obtain ⟨hd', hp', hh⟩ := hf p hd hp
  exact ⟨hd', hp', hh.hasEnded he, (hh.ended he).2.2⟩

/-- The process has ended and failed, and this is its code. -/
def FailedWith (t : ProcessTable) (p : Nat) (code : Option Int) : Prop :=
  ∃ h, t.get? p = some h ∧ h.hasEnded = true ∧ h.failed = true ∧ h.code = code

lemma FailedWith.follows {code : Option Int} (h : t.FailedWith p code) (hf : t.Follows t') :
    t'.FailedWith p code := by
  obtain ⟨hd, hp, he, hfailed, rfl⟩ := h
  obtain ⟨hd', hp', hh⟩ := hf p hd hp
  obtain ⟨-, hcode, hfailed'⟩ := hh.ended he
  exact ⟨hd', hp', hh.hasEnded he, hfailed'.trans hfailed, hcode⟩

end ProcessTable

end ChainRunner
