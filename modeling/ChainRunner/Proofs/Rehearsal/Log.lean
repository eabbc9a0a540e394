import ChainRunner.Proofs.Rehearsal.Undisturbed
import ChainRunner.Proofs.Run.Records
import ChainRunner.Proofs.Run.Stop

/-!
The log of simulated processes: what it can be relied on for, in whatever order delays pass, kills
are taken and new instances are started.
-/

namespace ChainRunner.Rehearsal.Launcher

open Run Relation

/-- What can be relied on when the launcher has come so far by the acts. -/
structure Reliable (acts : List Act) (s : Launcher) : Prop where
  accurate : Accurate s.toState
  /-- The instances are on record in the order of the calls. -/
  shows : List.Forall₂ (fun l i => l.Shows i i.displayName) s.launches (instances acts)
  /-- When a call has returned the start is in the log. -/
  started : ∀ p, .goes p .spawns ∈ acts → ∃ t, .started t p ∈ s.log
  /-- What makes a handle final finds the end in the log. -/
  ends : ∀ act s' p h, Step s act s' → s.table.hasEnded p = false → s'.table.get? p = some h →
    h.hasEnded = true → EndTold p h (eventsOf s.log p)
  /-- Whatever the launcher is called for from now on is told of behind the ends there are. -/
  later : ∀ more s' p q h, Runs Step s more s' → s.table.get? p = some h → h.hasEnded = true →
    s.table.handles.length ≤ q → AfterEnd s'.log p q

variable {s : Launcher} {acts : List Act} {other : Behaviour}

lemma Reliable.of_runs (h : Runs Step (.fresh other) acts s) : s.Reliable acts := by
  have hs := Holds.of_runs h
  exact {
    accurate := hs.accurate
    shows := shows_of_runs h
    started := fun p hp => started_of_runs h hp
    ends := fun act s' p h hstep hrun hp hh => hs.ends hstep hrun hp hh
    later := fun more s' p q h hmore hp hh hq =>
      hs.accurate.afterEnd (log_of_runs hmore) hp hh (hs.eventsOf_eq_nil hq) }

/-- **The log of simulated processes is trustworthy.** Whatever the behaviours are, in whatever
order calls start instances, delays pass and requests to kill are made and taken: the log has one
start for each instance whose call has returned, and at most one end, behind it. The end has the
code and the failure of the handle once that is final, and is in the log before; so what the
launcher is called for afterwards is told of behind it. The largest number of instances of a script
that the log gives is the largest number of those that were, at some point of it, started and not
ended. What is not disturbed goes as in a session, and the log of a session is as good. -/
theorem log_trustworthy :
    (∀ other acts s, Runs Step (.fresh other) acts s → s.Reliable acts ∧ AsSession s) ∧
    ∀ cfg s, Reachable cfg s →
      Accurate s ∧ (∀ p < s.launches.length, ∃ t, .started t p ∈ s.log) ∧
        ∀ s' p q h, ReflTransGen (Happens cfg) s s' → s.table.get? p = some h →
          h.hasEnded = true → s.table.handles.length ≤ q → AfterEnd s'.log p q := by
  refine ⟨fun other acts s h => ⟨.of_runs h, (Holds.of_runs h).asSession⟩,
    fun cfg s hs => ?_⟩
  have hchron := hs.chronicled
  refine ⟨hchron.accurate, fun p hp => hchron.started (hs.recorded.length ▸ hp),
    fun s' p q h hmore hp hh hq => ?_⟩
  exact hchron.accurate.afterEnd (log_of_happening hmore) hp hh (hchron.absent hq)

/-- It fails though its code is 0, because it writes to its error stream. -/
def noisy : Temper := ⟨some 5, some 0, true⟩

/-- It never ends if it is left alone. -/
def endless : Temper := ⟨none, none, false⟩

def front : Instance := ⟨"a", "a", "echo", .sequential⟩

def back : Instance := ⟨"b", "b", "sleep", .background⟩

/-- Two processes are up, the second one in the background. -/
def pair : Launcher :=
  let s := fresh (.process none none false)
  let s := { s with own := s.own.insert "a" (.process (some 5) (some 0) true) }
  (s.up front noisy).up back endless

lemma runs_pair : ∃ acts, Runs Step (fresh (.process none none false)) acts pair := by
  have hset : Runs Step (fresh (.process none none false))
    [.sets "a" (.process (some 5) (some 0) true)] _ := .one .sets
  have hfront := hset.trans (runs_up (t := noisy) (i := front) (Holds.of_runs hset) rfl)
  exact ⟨_, hfront.trans (runs_up (t := endless) (i := back) (Holds.of_runs hfront) rfl)⟩

/-- The first process is over; the end of the second one is in the log only. -/
def crossed : Launcher :=
  { pair with
    table := { pair.table with
      handles := [⟨"a", false, none, some 0, some 5, some 0, true, false⟩,
        ⟨"b", true, none, some 0, none, none, false, false⟩] }
    now := 5
    log := pair.log ++ [.ended 5 1 none true true, .ended 5 0 (some 0) true false]
    progress := [.finished, .told none true]
    asks := [(1, .answered .requested)] }

/-- While the delay of the first process passes the second one is asked to stop, and their tasks
go on in turn. -/
lemma runs_crossed : ∃ acts, Runs Step pair acts crossed := by
  have hsleep : Runs Step pair [.goes 0 .sleeps, .goes 1 .sleeps] _ :=
    (Runs.one (.goes rfl rfl rfl .sleeps)).snoc (.goes rfl rfl rfl .sleeps)
  have hcall := hsleep.snoc (.asks (p := 1) (by decide))
  have hpass := hcall.snoc (.stops (j := 0) rfl rfl (.passes (by decide)))
  have hmiss := hpass.snoc (.stops (j := 0) rfl rfl (.misses rfl))
  have hrequest := hmiss.snoc (.stops (j := 0) rfl rfl .requests)
  have hwait := hrequest.snoc (a := .passes 5) .passes
  have hwake := hwait.snoc (.goes (p := 0) rfl rfl rfl (.wakes (by decide)))
  have hkill := hwake.snoc (.goes (p := 1) rfl rfl rfl (.takesKill rfl))
  have hmark := hkill.snoc (.goes (p := 0) rfl rfl rfl .marksStderr)
  have hjudge := hmark.snoc (.goes (p := 0) rfl rfl rfl .judges)
  have hlog := (hjudge.snoc (.goes (p := 1) rfl rfl rfl .logsEnd)).snoc
    (.goes (p := 0) rfl rfl rfl .logsEnd)
  exact ⟨_, hlog.snoc (.goes (p := 0) rfl rfl rfl .finishes)⟩

/-- What is started when the first process is over comes behind its end, though another process
had not come to its own. A session stops one process after another has failed, and goes on. -/
theorem log_trustworthy_crossed :
    ((crossed.up front noisy).log = [.started 0 0, .started 0 1, .ended 5 1 none true true,
        .ended 5 0 (some 0) true false, .started 5 2] ∧
      AfterEnd (crossed.up front noisy).log 0 2 ∧
      (crossed.up front noisy).maxConcurrent "a" = 1 ∧
      Accurate (crossed.up front noisy).toState ∧ AsSession crossed) ∧
    AfterEnd State.resumed.log 0 2 ∧ ∃ t, .started t 2 ∈ State.resumed.log := by
  obtain ⟨hlauncher, hsession⟩ := log_trustworthy
  obtain ⟨acts, hpair⟩ := runs_pair
  obtain ⟨more, hcrossed⟩ := runs_crossed
  have hrun := hpair.trans hcrossed
  have hup := runs_up (t := noisy) (i := front) (Holds.of_runs hrun) rfl
  have hresumed : ReflTransGen (Happens .paused) .failed .resumed :=
    happens_of_evolves ((evolves_endProcess ..).trans (evolves_actAll _))
  obtain ⟨hreliable, hundisturbed⟩ := hlauncher _ _ _ hrun
  obtain ⟨-, -, hlater⟩ := hsession _ _ reachable_failed
  refine ⟨⟨rfl, ?_, rfl, ?_, hundisturbed⟩, ?_, ?_⟩
  · exact hreliable.later _ _ 0 2 _ hup rfl rfl (by decide)
  · exact (hlauncher _ _ _ (hrun.trans hup)).1.accurate
  · exact hlater _ 0 2 _ hresumed rfl rfl (by decide)
  · exact (hsession _ _ (reachable_failed.trans hresumed)).2.1 2 (by decide)

end ChainRunner.Rehearsal.Launcher
