import ChainRunner.Proofs.Rehearsal.Launcher

/-!
The launcher of simulated processes while nothing disturbs it.

A call that starts an instance and a task that plays one then do, access after access, what a
session does at once: the table of processes and the log come out the same.
-/

namespace ChainRunner

/-- A failure that is on record already adds nothing. -/
lemma Handle.finish_or (h : Handle) (now : Nat) (code : Option Int) (failed : Bool) :
    h.finish now code (failed || h.failed) = h.finish now code failed := by
  have hor : (h.failed || (failed || h.failed)) = (h.failed || failed) := by
    cases h.failed <;> simp
  simp [Handle.finish, hor]

lemma ProcessTable.Sifted.of_filter (gone : Nat → Bool) (all : List Nat) :
    Sifted gone all (all.filter (!gone ·)) := by
  induction all with
  | nil => exact .nil
  | cons id all ih =>
    by_cases hid : gone id
    · rw [List.filter_cons_of_neg (by simp [hid])]
      exact .drops hid ih
    · rw [List.filter_cons_of_pos (by simp [hid])]
      exact .keeps ih

namespace Rehearsal.Launcher

open Run
open ProcessTable (Sifted)

variable {s s' : Launcher} {x : State} {p : ProcessId} {h h₀ h' : Handle} {g g₀ g' : Progress}
  {l : Launch} {es es' : List Event} {a : Access} {acts : List Act}

/-- The acts lead to the table of processes and the log of a session. -/
def Plays (s : Launcher) (acts : List Act) (x : State) : Prop :=
  ∃ s', Runs Step s acts s' ∧ s'.table = x.table ∧ s'.log = x.log

/-- One access after others about the same instance. -/
lemma Step.again (hp : s.progress[p]? = some g₀) (hl : s.launches[p]? = some l)
    (hh : s.table.get? p = some h₀) (hg : Goes s.now p (s.behaviour l.script) h g a h' es' g') :
    Step (s.put p h es g) (.goes p a) (s.put p h' (es ++ es') g') := by
  have hlt : p < s.progress.length := (List.getElem?_eq_some_iff.1 hp).1
  have hstep : Step (s.put p h es g) (.goes p a) ((s.put p h es g).put p h' es' g') := by
    refine .goes (List.getElem?_set_self hlt) hl ?_ hg
    rw [put, ProcessTable.get?_update, if_pos rfl, hh]
    rfl
  simpa [put, ProcessTable.update_update] using hstep

/-! ### Ends -/

/-- What a task does when it knows how the process ends. -/
def closing (p : ProcessId) : List Act := [.goes p .logsEnd, .goes p .finishes]

/-- The accesses of a task when the delay has passed. -/
def ending (p : ProcessId) : List Act :=
  [.goes p .wakes, .goes p .marksStderr, .goes p .judges] ++ closing p

/-- The accesses of a task that is asked to kill its process. -/
def killing (p : ProcessId) : List Act := .goes p .takesKill :: closing p

/-- An end in the log and then in the handle is an end at once. -/
lemma plays_closing {code : Option Int} {failed killed : Bool} (hs : Holds s)
    (hh : s.table.get? p = some h₀) (he : h₀.hasEnded = false) (he' : h.hasEnded = false)
    (hfail : h.failed = true → failed = true)
    (hr : Runs Step s acts (s.put p h [] (.judged code failed killed))) :
    Plays s (acts ++ closing p)
      (s.toState.putHandle p (h.finish s.now code failed).1 killed) := by
  obtain ⟨g₀, hp⟩ := hs.exists_progress hh
  obtain ⟨l, hl⟩ := hs.exists_launch hh
  have hlog := hr.snoc (.again hp hl hh .logsEnd)
  have hfinish := hlog.snoc (.again hp hl hh .finishes)
  rw [List.append_assoc, List.append_assoc] at hfinish
  refine ⟨_, hfinish, ?_, ?_⟩
  · rw [State.toCore_putHandle]
    rfl
  · have hrun : s.table.hasEnded p = h₀.hasEnded := by rw [ProcessTable.hasEnded, hh]
    -- a session logs what the final handle says, the task what it is about to put down there
    obtain ⟨hcode, hfailed⟩ := Handle.told_finish he' hfail s.now
    rw [State.log_putHandle_of_ends _ (hrun.trans he) (Handle.hasEnded_finish ..), hcode, hfailed]
    rfl

/-- **An end that nothing disturbs is that of a session.** -/
theorem plays_ending {due : Nat} {t : Temper} (hs : Holds s)
    (hp : s.progress[p]? = some (.sleeping (some due) t)) (hdue : due ≤ s.now) :
    Plays s (ending p) (s.toState.endProcess p t.stderr t.code false) := by
  obtain ⟨h, hh⟩ := hs.exists_handle hp
  obtain ⟨l, hl⟩ := hs.exists_launch hh
  have he : h.hasEnded = false := (hs.fits p _ h hp hh).1
  have hwake : Runs Step s [.goes p .wakes] (s.put p h [] (.awake t)) :=
    .one (.goes hp hl hh (.wakes hdue))
  have hmark := hwake.snoc (.again hp hl hh .marksStderr)
  have hjudge := hmark.snoc (.again hp hl hh .judges)
  have hrun : (if t.stderr then h.markStderr else h).hasEnded = false := by
    split
    exacts [(h.hasEnded_markStderr).trans he, he]
  have hclose := plays_closing hs hh he hrun (fun hfail => by simp [hfail]) hjudge
  rw [Handle.finish_or] at hclose
  rw [State.endProcess, hh]
  exact hclose

/-- **A kill that nothing disturbs is an end of a session that leaves no code.** -/
theorem plays_killing {due : Option Nat} {t : Temper} (hs : Holds s)
    (hp : s.progress[p]? = some (.sleeping due t)) (hh : s.table.get? p = some h)
    (hk : h.killRequested = true) :
    Plays s (killing p) (s.toState.putHandle p (h.takeKill.1.finish s.now none true).1 true) := by
  obtain ⟨l, hl⟩ := hs.exists_launch hh
  have he : h.hasEnded = false := (hs.fits p _ h hp hh).1
  have hrun : h.takeKill.1.hasEnded = false := he
  exact plays_closing hs hh he hrun (fun _ => rfl) (.one (.goes hp hl hh (.takesKill hk)))

/-! ### Starts -/

/-- The accesses of a call that starts an instance and takes the number `p`. -/
def starting (p : ProcessId) (i : Instance) : List Act :=
  [.calls i, .goes p .looks, .tracks p, .goes p .marksUp, .goes p .logsStart, .goes p .spawns]

lemma put_self (hh : s.table.get? p = some h) :
    s.put p h [] g = { s with progress := s.progress.set p g } := by
  simp [put, ProcessTable.update_self hh]

/-- The launcher when a handle is tracked and no other ends meanwhile. -/
def track (s : Launcher) (p : ProcessId) (t : Temper) : Launcher :=
  { s with table := s.table.track p, progress := s.progress.set p (.tracked t) }

/-- The call from the look at the behaviour to the registry. -/
lemma runs_track {t : Temper} (hp : s.progress[p]? = some .called) (hl : s.launches[p]? = some l)
    (hh : s.table.get? p = some h) (hb : s.behaviour l.script = .process t.delay t.code t.stderr) :
    Runs Step s [.goes p .looks, .tracks p] (s.track p t) := by
  have hlook : Step s (.goes p .looks) (s.put p h [] (.known t)) := .goes hp hl hh (.looks hb)
  rw [put_self hh] at hlook
  have hlt : p < s.progress.length := (List.getElem?_eq_some_iff.1 hp).1
  have htrack := (Runs.one hlook).snoc (.tracks (List.getElem?_set_self hlt) (.of_filter ..))
  rwa [List.set_set] at htrack

/-- The call from the registry to its end. -/
lemma runs_spawn {t : Temper} (hp : s.progress[p]? = some (.tracked t))
    (hl : s.launches[p]? = some l) (hh : s.table.get? p = some h) :
    Runs Step s [.goes p .marksUp, .goes p .logsStart, .goes p .spawns]
      (s.put p (h.start s.now none) [.started s.now p] (.spawned t)) := by
  have hup : Runs Step s [.goes p .marksUp] (s.put p (h.start s.now none) [] (.up t)) :=
    .one (.goes hp hl hh .marksUp)
  have hlog := hup.snoc (.again hp hl hh .logsStart)
  exact hlog.snoc (.again hp hl hh .spawns)

/-- The launcher when an instance has been started and nothing else has happened meanwhile. -/
def up (s : Launcher) (i : Instance) (t : Temper) : Launcher :=
  let p := s.table.handles.length
  let h : Handle := { name := i.displayName, background := i.isBackground }
  ((s.call i).track p t).put p (h.start s.now none) [.started s.now p] (.spawned t)

lemma runs_up {i : Instance} {t : Temper} (hs : Holds s)
    (hb : s.behaviour i.script = .process t.delay t.code t.stderr) :
    Runs Step s (starting s.table.handles.length i) (s.up i t) := by
  have hp : (s.call i).progress[s.table.handles.length]? = some .called := by
    rw [← hs.progress]
    exact List.getElem?_concat_length
  have hl : (s.call i).launches[s.table.handles.length]? = some (s.launchOf i) := by
    rw [← hs.launches]
    exact List.getElem?_concat_length
  have hh : (s.call i).table.get? s.table.handles.length = some _ := List.getElem?_concat_length
  have hlt := (List.getElem?_eq_some_iff.1 hp).1
  have hspawn := runs_spawn (s := (s.call i).track _ t) (List.getElem?_set_self hlt) hl hh
  exact ((Runs.one .calls).trans (runs_track hp hl hh hb)).trans hspawn

/-- **A start that nothing disturbs is that of a session.** -/
theorem plays_starting {cfg : Setting} {i : Instance} {t : Temper} (hs : Holds s)
    (hb : s.behaviour i.script = .process t.delay t.code t.stderr)
    (hx : s.toState.launch cfg i = (x, some p)) : Plays s (starting p i) x := by
  obtain ⟨rfl, _, -, hcore⟩ := State.toCore_launch_some hx
  refine ⟨_, runs_up hs hb, ?_, (s.toState.log_launch_some hx).symm⟩
  rw [hcore]
  refine ProcessTable.update_congr fun h hh => ?_
  have hnew : (s.call i).table.get? s.table.handles.length = some _ := List.getElem?_concat_length
  obtain rfl := Option.some.inj (hnew.symm.trans hh)
  rfl

/-- Starts, ends and kills that nothing disturbs are those of a session. -/
structure AsSession (s : Launcher) : Prop where
  starts : ∀ cfg i (t : Temper) x p, s.behaviour i.script = .process t.delay t.code t.stderr →
    s.toState.launch cfg i = (x, some p) → Plays s (starting p i) x
  ends : ∀ (p : ProcessId) due (t : Temper), s.progress[p]? = some (.sleeping (some due) t) →
    due ≤ s.now → Plays s (ending p) (s.toState.endProcess p t.stderr t.code false)
  kills : ∀ (p : ProcessId) due t h, s.progress[p]? = some (.sleeping due t) →
    s.table.get? p = some h → h.killRequested = true →
      Plays s (killing p) (s.toState.putHandle p (h.takeKill.1.finish s.now none true).1 true)

lemma Holds.asSession (hs : Holds s) : AsSession s where
  starts _ _ _ _ _ := plays_starting hs
  ends _ _ _ := plays_ending hs
  kills _ _ _ _ := plays_killing hs

end Rehearsal.Launcher

end ChainRunner
