import ChainRunner.Proofs.Process.Scene

/-!
Signals to the id of a process that has left.

A call looks whether the handle has ended before it signals. But the handle ends only when the
streams are read to their ends, and that may be long after the status was taken and the id given
back: whoever the process has left behind may hold them open.
-/

namespace ChainRunner.Supervision

open Handle

variable {p pid i q : Nat} {s s' : Scene} {t : ProcessTable} {name : String}
  {background reached : Bool} {acts more : List Act} {a : Act} {h : Handle}

/-! ### One call goes on -/

/-- An access of a call that leaves the handle as it is. -/
lemma step_goes (pid : Nat) {c c' : Interrupt} {b : Interrupt.Access}
    (hh : s.table.get? p = some h) (hi : s.calls[i]? = some (.asks c)) (hg : c.Goes h b h c')
    (hr : ∀ reached, b = .signals pid reached → reached = true) :
    ∃ s', Step p pid s (.goes i b) s' ∧ s'.table.get? p = some h ∧
      s'.calls[i]? = some (.asks c') ∧ s'.child = s.child :=
  ⟨_, .goes hh hi hg fun reached hb _ => hr reached hb, get?_put hh h,
    List.getElem?_set_self (List.getElem?_eq_some_iff.1 hi).1, rfl⟩

/-- A call that has its aim signals, and somebody is reached. -/
lemma signals_of_aimed (hh : s.table.get? p = some h)
    (hi : s.calls[i]? = some (.asks (.aimed pid))) :
    ∃ s', Runs (Step p pid) s [.goes i (.signals pid true)] s' := by
  obtain ⟨s', hs, -⟩ := step_goes pid hh hi .signals (by simp)
  exact ⟨s', .one hs⟩

lemma signals_of_passed (hh : s.table.get? p = some h) (hp : h.pid = some pid)
    (hi : s.calls[i]? = some (.asks .passed)) :
    ∃ s', Runs (Step p pid) s [.goes i .reads, .goes i (.signals pid true)] s' := by
  obtain ⟨s₁, hs, hh₁, hi₁, -⟩ := step_goes pid hh hi (.aims hp) nofun
  obtain ⟨s', hr⟩ := signals_of_aimed hh₁ hi₁
  exact ⟨s', (Runs.one hs).trans hr⟩

/-- The acts of a new call that is not disturbed and signals. -/
def wholeCall (i pid : Nat) : List Act :=
  [.calls false, .goes i .asks, .goes i .reads, .goes i (.signals pid true)]

/-- As long as the handle has not ended, a whole call signals. -/
lemma signals_of_not_ended (hh : s.table.get? p = some h) (hp : h.pid = some pid)
    (he : ¬ h.hasEnded) : ∃ s', Runs (Step p pid) s (wholeCall s.calls.length pid) s' := by
  obtain ⟨s₁, hs, hh₁, hi₁, -⟩ := step_goes pid (i := s.calls.length)
    (s := { s with calls := s.calls ++ [.asks .called] }) hh (by simp) (.passes he) nofun
  obtain ⟨s', hr⟩ := signals_of_passed hh₁ hp hi₁
  exact ⟨s', ((Runs.one .calls).trans (.one hs)).trans hr⟩

/-! ### Which calls signal -/

/-- A call that has found the process not to be over, and has not signalled yet. -/
inductive Ask.IsPast : Ask → Prop
  | passed : IsPast (.asks .passed)
  | aimed (q : Nat) : IsPast (.asks (.aimed q))

/-- The call asked whether the process is over when it was not. -/
def AskedInTime (p pid : Nat) (s₀ : Scene) (i : Nat) (acts : List Act) : Prop :=
  DoneWhile (Step p pid) s₀ (fun s => s.table.hasEnded p = false) (.goes i .asks) acts

/-- Nobody comes past the check but by it, and only in time. -/
lemma askedInTime_of_isPast {s₀ : Scene} (h₀ : s₀.calls = []) {b : Ask}
    (hr : Runs (Step p pid) s₀ acts s) (hi : s.calls[i]? = some b) (hb : b.IsPast) :
    AskedInTime p pid s₀ i acts := by
  induction hr generalizing b with
  | nil => simp [h₀] at hi
  | @snoc acts s a s' hr hs ih =>
    rcases hs.call hi with hold | hnew | ⟨c, c', d, h, h', rfl, hh, hold, rfl, hg⟩
    · exact (ih hold hb).concat a
    · cases hnew <;> cases hb
    · cases hg with
      | passes he => exact hr.doneWhile ((hasEnded_eq hh).trans (Bool.eq_false_iff.2 he)) _
      | aims => exact (ih hold .passed).concat _
      | _ => cases hb

lemma aimed_of_signals (hs : Step p pid s (.goes i (.signals q reached)) s') :
    s.calls[i]? = some (.asks (.aimed q)) := by
  cases hs with
  | goes _ hi hg => cases hg <;> exact hi

/-! ### When no signal can come any more -/

/-- The handle has ended, and no call is past the check. -/
structure IsSettled (p : Nat) (s : Scene) : Prop where
  ended : s.table.hasEnded p
  asked : ∀ (i : Nat) (b : Ask), s.calls[i]? = some b → ¬ b.IsPast

lemma IsSettled.step (hh : Holds p pid s h) (hset : IsSettled p s) (hs : Step p pid s a s') :
    IsSettled p s' where
  ended := by
    obtain ⟨h', hl⟩ := hh.step hs
    rw [hasEnded_eq hl.holds.handle]
    exact hl.onward.ended ((hasEnded_eq hh.handle).symm.trans hset.ended)
  asked i b hi hb := by
    rcases hs.call hi with hold | hnew | ⟨c, c', d, g, g', rfl, hg, hold, rfl, hgo⟩
    · exact hset.asked i b hold hb
    · cases hnew <;> cases hb
    · cases hgo with
      | passes he => exact he ((hasEnded_eq hg).symm.trans hset.ended)
      | aims => exact hset.asked i _ hold .passed
      | _ => cases hb

lemma IsSettled.runs (hh : Holds p pid s h) (hset : IsSettled p s)
    (hr : Runs (Step p pid) s more s') : IsSettled p s' := by
  induction hr with
  | nil => exact hset
  | snoc hr hs ih =>
    obtain ⟨g, hl⟩ := hh.runs hr
    exact ih.step hl.holds hs

/-- Some call may still signal the id, and reach somebody. -/
def MaySignal (p pid : Nat) (s : Scene) : Prop :=
  ∃ more s' i, Runs (Step p pid) s more s' ∧ .goes i (.signals pid true) ∈ more

lemma IsSettled.not_signals (hh : Holds p pid s h) (hset : IsSettled p s)
    (hr : Runs (Step p pid) s more s') : .goes i (.signals q reached) ∉ more := by
  intro hmem
  obtain ⟨pre, post, u, v, -, hpre, hs, -⟩ := hr.exists_of_mem hmem
  exact (hset.runs hh hpre).asked i _ (aimed_of_signals hs) (.aimed q)

/-- The handle still has the id of a process whose status was taken. -/
lemma Holds.pid_of_reaped (hh : Holds p pid s h) (hc : s.child = .reaped) : h.pid = some pid := by
  have hphase := hh.phase
  rw [hc] at hphase
  exact hphase.of_reaped

lemma Holds.maySignal (hh : Holds p pid s h) (hc : s.child = .reaped) (hset : ¬ IsSettled p s) :
    MaySignal p pid s := by
  have hp := hh.pid_of_reaped hc
  by_cases he : h.hasEnded
  · -- some call came past the check before the handle ended
    obtain ⟨i, b, hi, hb⟩ : ∃ (i : Nat) (b : Ask), s.calls[i]? = some b ∧ b.IsPast := by
      by_contra hnone
      exact hset ⟨(hasEnded_eq hh.handle).trans he, fun i b hi hb => hnone ⟨i, b, hi, hb⟩⟩
    cases hb with
    | passed =>
      obtain ⟨s', hr⟩ := signals_of_passed hh.handle hp hi
      exact ⟨_, s', i, hr, by simp⟩
    | aimed q =>
      obtain ⟨rfl, -⟩ : q = pid ∧ h.pid = some pid := hh.fits i _ hi
      obtain ⟨s', hr⟩ := signals_of_aimed hh.handle hi
      exact ⟨_, s', i, hr, by simp⟩
  · obtain ⟨s', hr⟩ := signals_of_not_ended hh.handle hp he
    exact ⟨_, s', s.calls.length, hr, by simp [wholeCall]⟩

/-! ### After the status is taken -/

/-- **Signals to a process that may be gone.** A call signals only the id of the process, and only
if it asked while the handle had not ended. So the signals stop exactly when the handle has ended
and the calls that asked before are through, and not when the status is taken: as long as a stream
is open after that, a call that comes and is not disturbed signals an id which may be that of
somebody else. -/
theorem signals_after_reap
    (hr : Runs (Step t.handles.length pid) (.begin t name background) acts s) :
    (∀ pre post i q reached, acts = pre ++ .goes i (.signals q reached) :: post →
      q = pid ∧ AskedInTime t.handles.length pid (.begin t name background) i pre) ∧
    (IsSettled t.handles.length s → ∀ more s', Runs (Step t.handles.length pid) s more s' →
      ∀ i q reached, .goes i (.signals q reached) ∉ more) ∧
    (s.child = .reaped →
      (MaySignal t.handles.length pid s ↔ ¬ IsSettled t.handles.length s) ∧
      ∀ errors, s.watch.isOpen errors →
        ∃ s', Runs (Step t.handles.length pid) s (wholeCall s.calls.length pid) s') := by
  obtain ⟨h, hh⟩ := exists_holds hr
  refine ⟨fun pre post i q reached hacts => ?_, fun hset more s' hmore i q reached =>
    hset.not_signals hh hmore, fun hc => ⟨⟨?_, hh.maySignal hc⟩, fun errors ho => ?_⟩⟩
  · rw [hacts] at hr
    obtain ⟨u, hpre, hrest⟩ := hr.exists_of_append
    obtain ⟨v, hs, -⟩ := hrest.exists_of_cons
    obtain ⟨g, hg⟩ := exists_holds hpre
    have hi := aimed_of_signals hs
    exact ⟨(hg.fits i _ hi).1, askedInTime_of_isPast rfl hpre hi (.aimed q)⟩
  · rintro ⟨more, s', i, hmore, hmem⟩ hset
    exact hset.not_signals hh hmore hmem
  · refine signals_of_not_ended hh.handle (hh.pid_of_reaped hc) fun he => ?_
    rw [hh.closed hc he errors] at ho
    cases ho

/-- The process leaves at once, and one that it has left behind goes on to write. -/
theorem signals_after_reap_left_behind :
    ∃ pre post s, Runs (Step 0 7) (.begin {} "p" false)
      (pre ++ .goes 0 (.signals 7 true) :: post) s ∧ .reaps ∈ pre := by
  let p : Handle := { name := "p", background := false }
  let up : Scene := { Scene.begin {} "p" false with child := .alive }
  let marked : Scene := up.hear 0 p (.spawned 7)
  let reaped : Scene :=
    { marked with child := .reaped, watch := { marked.watch with stage := .exited (some 0) } }
  have hrun : Runs (Step 0 7) (.begin {} "p" false)
      [.spawns, .marks, .exits (some 0), .reaps, .wrote false [120]]
      (reaped.hear 0 (p.start 0 (some 7)) (.wrote false [120])) :=
    ((((Runs.nil.snoc (.spawns rfl)).snoc (t := up) (.marks rfl .alive rfl)).snoc
      (t := marked) (.exits rfl nofun)).snoc (.reaps rfl rfl)).snoc (t := reaped)
        (.wrote rfl ⟨nofun, nofun⟩ rfl)
  obtain ⟨-, -, hreaped⟩ := signals_after_reap (t := {}) hrun
  obtain ⟨s', hcall⟩ := (hreaped rfl).2 false rfl
  exact ⟨[.spawns, .marks, .exits (some 0), .reaps, .wrote false [120], .calls false,
    .goes 0 .asks, .goes 0 .reads], [], s', hrun.trans hcall, by simp⟩

end ChainRunner.Supervision
