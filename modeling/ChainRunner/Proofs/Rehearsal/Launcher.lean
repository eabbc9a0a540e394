import ChainRunner.Proofs.Process.Tracked
import ChainRunner.Proofs.Run.Chronicle

/-!
A launcher of simulated processes, access by access.

Calls that start instances, the tasks that play them and calls that ask them to stop go on side by
side. What they share is locked for one access, and between two accesses of one of them the others
may do anything. A call and a task that nothing disturbs do what a session does at once.
-/

namespace ChainRunner

namespace Handle

variable {h : Handle} {code : Option Int} {failed : Bool}

/-- The end is told as it is put down if it leaves no failure out. -/
lemma told_finish (he : h.hasEnded = false) (hf : h.failed = true → failed = true) (now : Nat) :
    (h.finish now code failed).1.code = code ∧ (h.finish now code failed).1.failed = failed := by
  have hor : (h.failed || failed) = failed := by
    cases hfailed : h.failed with
    | false => rfl
    | true => simp [hf hfailed]
  simp [finish, he, hor]

@[simp] lemma hasEnded_markStderr (h : Handle) : h.markStderr.hasEnded = h.hasEnded := by
  unfold markStderr
  split <;> rfl

end Handle

namespace Rehearsal

open Run
open Handle (Interrupt)
open ProcessTable (Sifted)

/-- What a process does if it is left alone: when it ends, with which code, and whether it writes
to its error stream before. -/
structure Temper where
  delay : Option Nat
  code : Option Int
  stderr : Bool
deriving DecidableEq, Repr

/-- How far an instance has come: the call that starts it, then the task that plays it. -/
inductive Progress
  | called
  /-- The behaviour of its script is known. -/
  | known (t : Temper)
  | tracked (t : Temper)
  /-- Its handle says that it is up. -/
  | up (t : Temper)
  /-- Its start is in the log. -/
  | logged (t : Temper)
  /-- The call has returned, and the task waits for its first turn. -/
  | spawned (t : Temper)
  | sleeping (due : Option Nat) (t : Temper)
  /-- The delay has passed. -/
  | awake (t : Temper)
  /-- What it writes to its error stream is marked. -/
  | marked (t : Temper)
  /-- It is known how it ends. -/
  | judged (code : Option Int) (failed killed : Bool)
  /-- Its end is in the log. -/
  | told (code : Option Int) (failed : Bool)
  /-- Its handle is final, and those who wait are still to be told. -/
  | finished
  | settled
deriving DecidableEq, Repr

/-- What is done at once about an instance. -/
inductive Access
  | looks
  | marksUp
  | logsStart
  | spawns
  | sleeps
  | wakes
  | marksStderr
  | judges
  | takesKill
  | logsEnd
  | finishes
  | tells
deriving DecidableEq, Repr

/-- The next access about the instance `p`, what it makes of the handle, and what it logs. A call
that finds that the launcher breaks down goes no further. A task that sleeps wakes when its delay
has passed or takes a request to kill it, whichever it sees. -/
inductive Goes (now : Nat) (p : ProcessId) (b : Behaviour) (h : Handle) :
    Progress → Access → Handle → List Event → Progress → Prop
  | looks {t : Temper} (hb : b = .process t.delay t.code t.stderr) :
    Goes now p b h .called .looks h [] (.known t)
  | marksUp {t : Temper} : Goes now p b h (.tracked t) .marksUp (h.start now none) [] (.up t)
  | logsStart {t : Temper} : Goes now p b h (.up t) .logsStart h [.started now p] (.logged t)
  | spawns {t : Temper} : Goes now p b h (.logged t) .spawns h [] (.spawned t)
  | sleeps {t : Temper} :
    Goes now p b h (.spawned t) .sleeps h [] (.sleeping (t.delay.map (now + ·)) t)
  | wakes {due : Nat} {t : Temper} (hd : due ≤ now) :
    Goes now p b h (.sleeping (some due) t) .wakes h [] (.awake t)
  | marksStderr {t : Temper} :
    Goes now p b h (.awake t) .marksStderr (if t.stderr then h.markStderr else h) [] (.marked t)
  | judges {t : Temper} :
    Goes now p b h (.marked t) .judges h []
      (.judged t.code (t.code != some 0 || h.failed) false)
  | takesKill {due : Option Nat} {t : Temper} (hk : h.killRequested) :
    Goes now p b h (.sleeping due t) .takesKill h.takeKill.1 [] (.judged none true true)
  | logsEnd {code : Option Int} {failed killed : Bool} :
    Goes now p b h (.judged code failed killed) .logsEnd h [.ended now p code failed killed]
      (.told code failed)
  | finishes {code : Option Int} {failed : Bool} :
    Goes now p b h (.told code failed) .finishes (h.finish now code failed).1 [] .finished
  | tells : Goes now p b h .finished .tells h [] .settled

/-- The launcher with all instances it was ever called for and all calls to stop them. -/
structure Launcher extends State where
  /-- The behaviour of the scripts that have none of their own. -/
  other : Behaviour
  own : NameMap Behaviour := .empty
  progress : List Progress := []
  asks : List (ProcessId × Interrupt) := []

namespace Launcher

def behaviour (s : Launcher) (script : String) : Behaviour := (s.own.get? script).getD s.other

/-- The launcher when an instance has come further, its handle has changed, and of it something is
logged. -/
def put (s : Launcher) (p : ProcessId) (h : Handle) (es : List Event) (g : Progress) : Launcher :=
  { s with
    table := s.table.update p fun _ => h
    log := s.log ++ es
    progress := s.progress.set p g }

/-- What is put on record for an instance. -/
def launchOf (s : Launcher) (i : Instance) : Launch where
  script := i.script
  name := i.displayName
  command := i.command
  background := i.isBackground
  earlier := s.launches.countP (·.script = i.script)

/-- The launcher when it is called for an instance: the instance takes the next number. -/
def call (s : Launcher) (i : Instance) : Launcher :=
  { s with
    table := (s.table.add { name := i.displayName, background := i.isBackground }).1
    launches := s.launches ++ [s.launchOf i]
    progress := s.progress ++ [.called] }

inductive Act
  | sets (script : String) (b : Behaviour)
  | calls (i : Instance)
  | tracks (p : ProcessId)
  | goes (p : ProcessId) (a : Access)
  | asks (p : ProcessId)
  | stops (j : Nat) (a : Interrupt.Access)
  | passes (time : Nat)

/-- What may happen next. While an instance is tracked other handles may end, so that some of those
that have ended may stay. -/
inductive Step (s : Launcher) : Act → Launcher → Prop
  | sets {script : String} {b : Behaviour} :
    Step s (.sets script b) { s with own := s.own.insert script b }
  | calls {i : Instance} : Step s (.calls i) (s.call i)
  | tracks {p : ProcessId} {t : Temper} {kept : List ProcessId}
    (hp : s.progress[p]? = some (.known t))
    (hk : Sifted s.table.hasEnded s.table.tracked kept) :
    Step s (.tracks p)
      { s with
        table := { s.table with tracked := kept ++ [p] }
        progress := s.progress.set p (.tracked t) }
  | goes {p : ProcessId} {g g' : Progress} {l : Launch} {h h' : Handle} {a : Access}
    {es : List Event} (hp : s.progress[p]? = some g) (hl : s.launches[p]? = some l)
    (hh : s.table.get? p = some h) (hg : Goes s.now p (s.behaviour l.script) h g a h' es g') :
    Step s (.goes p a) (s.put p h' es g')
  | asks {p : ProcessId} (hp : p < s.table.handles.length) :
    Step s (.asks p) { s with asks := s.asks ++ [(p, .called)] }
  | stops {j : Nat} {p : ProcessId} {c c' : Interrupt} {a : Interrupt.Access} {h h' : Handle}
    (hj : s.asks[j]? = some (p, c)) (hh : s.table.get? p = some h) (hg : c.Goes h a h' c') :
    Step s (.stops j a)
      { s with
        table := s.table.update p fun _ => h'
        asks := s.asks.set j (p, c') }
  | passes {time : Nat} : Step s (.passes time) { s with now := s.now + time }

/-- Nothing was started yet. -/
def fresh (other : Behaviour) : Launcher := { other }

end Launcher

/-! ### How far an instance has come -/

/-- What the handle and the events of an instance tell that has come so far. -/
def Progress.Fits (p : ProcessId) (h : Handle) (es : List Event) : Progress → Prop
  | .called | .known _ | .tracked _ | .up _ => h.hasEnded = false ∧ es = []
  | .logged _ | .spawned _ | .sleeping _ _ | .awake _ | .marked _ =>
    h.hasEnded = false ∧ ∃ t, es = [.started t p]
  | .judged _ failed _ => h.hasEnded = false ∧ (∃ t, es = [.started t p]) ∧ (h.failed → failed)
  | .told code failed => h.hasEnded = false ∧
    (∃ t t' killed, es = [.started t p, .ended t' p code failed killed]) ∧ (h.failed → failed)
  | .finished | .settled => h.hasEnded ∧ EndTold p h es

variable {now : Nat} {p q : ProcessId} {b : Behaviour} {h h' : Handle} {g g' : Progress}
  {a : Access} {es es' : List Event}

lemma Progress.Fits.story (hf : g.Fits p h es) : Story p es := by
  cases g with
  | called | known | tracked | up =>
    obtain ⟨-, rfl⟩ := hf
    exact .untold
  | logged | spawned | sleeping | awake | marked =>
    obtain ⟨-, t, rfl⟩ := hf
    exact .started t
  | judged =>
    obtain ⟨-, ⟨t, rfl⟩, -⟩ := hf
    exact .started t
  | told =>
    obtain ⟨-, ⟨t, t', killed, rfl⟩, -⟩ := hf
    exact .ended ..
  | finished | settled => exact hf.2.story

/-- A handle is final only when the end of the process is in the log. -/
lemma Progress.Fits.endTold (hf : g.Fits p h es) (hh : h.hasEnded = true) : EndTold p h es := by
  cases g with
  | finished | settled => exact hf.2
  | _ => simp [hf.1] at hh

/-- A request to stop is not told of. -/
lemma Progress.Fits.congr (hf : g.Fits p h es) (he : h'.hasEnded = h.hasEnded)
    (hc : h'.code = h.code) (hfail : h'.failed = h.failed) : g.Fits p h' es := by
  cases g <;> simpa only [Fits, EndTold, he, hc, hfail] using hf

/-- What is logged about an instance is told of it. -/
lemma Goes.process (hg : Goes now p b h g a h' es g') : ∀ e ∈ es, e.process = p := by
  cases hg <;> simp [Event.process]

lemma Goes.fits (hg : Goes now p b h g a h' es' g') (hf : g.Fits p h es) :
    g'.Fits p h' (es ++ es') := by
  cases hg with
  | looks | marksUp | spawns | sleeps | wakes => simpa [Progress.Fits] using hf
  | logsStart =>
    obtain ⟨he, rfl⟩ := hf
    exact ⟨he, now, rfl⟩
  | @marksStderr t =>
    rw [List.append_nil]
    refine ⟨?_, hf.2⟩
    split
    · rw [Handle.hasEnded_markStderr]
      exact hf.1
    · exact hf.1
  | judges =>
    rw [List.append_nil]
    exact ⟨hf.1, hf.2, fun hfail => by simp [hfail]⟩
  | takesKill =>
    rw [List.append_nil]
    exact ⟨hf.1, hf.2, fun _ => rfl⟩
  | @logsEnd code failed killed =>
    obtain ⟨he, ⟨t, rfl⟩, hfail⟩ := hf
    exact ⟨he, ⟨t, now, killed, rfl⟩, hfail⟩
  | @finishes code failed =>
    obtain ⟨he, ⟨t, t', killed, rfl⟩, hfail⟩ := hf
    -- the handle keeps a failure that it has, but the log then has it too
    obtain ⟨hcode, hfailed⟩ := Handle.told_finish he hfail now
    exact ⟨h.hasEnded_finish .., t, t', killed, by rw [hcode, hfailed, List.append_nil]⟩
  | tells => simpa [Progress.Fits] using hf

namespace Launcher

/-- What holds at every moment. -/
structure Holds (s : Launcher) : Prop where
  progress : s.progress.length = s.table.handles.length
  launches : s.launches.length = s.table.handles.length
  known : ∀ e ∈ s.log, e.process < s.table.handles.length
  fits : ∀ (p : ProcessId) (g : Progress) (h : Handle), s.progress[p]? = some g →
    s.table.get? p = some h → g.Fits p h (eventsOf s.log p)

variable {s s' t : Launcher} {act : Act} {acts : List Act} {other : Behaviour}

lemma holds_fresh (other : Behaviour) : Holds (.fresh other) :=
  ⟨rfl, rfl, by simp [fresh], by simp [fresh]⟩

namespace Holds

lemma eventsOf_eq_nil (hs : Holds s) (hp : s.table.handles.length ≤ p) :
    eventsOf s.log p = [] := by
  refine List.filter_eq_nil_iff.2 fun e he hq => ?_
  have hlt := hs.known e he
  rw [of_decide_eq_true hq] at hlt
  exact Nat.not_lt.2 hp hlt

/-- Where an instance stands that there is. -/
lemma exists_progress (hs : Holds s) (hh : s.table.get? p = some h) :
    ∃ g, s.progress[p]? = some g := by
  have hlt : p < s.progress.length := hs.progress ▸ (List.getElem?_eq_some_iff.1 hh).1
  exact ⟨_, List.getElem?_eq_getElem hlt⟩

lemma exists_handle (hs : Holds s) (hp : s.progress[p]? = some g) :
    ∃ h, s.table.get? p = some h := by
  have hlt : p < s.table.handles.length := hs.progress ▸ (List.getElem?_eq_some_iff.1 hp).1
  exact ⟨_, List.getElem?_eq_getElem hlt⟩

lemma exists_launch (hs : Holds s) (hh : s.table.get? p = some h) :
    ∃ l, s.launches[p]? = some l := by
  have hlt : p < s.launches.length := hs.launches ▸ (List.getElem?_eq_some_iff.1 hh).1
  exact ⟨_, List.getElem?_eq_getElem hlt⟩

lemma call (hs : Holds s) (i : Instance) : Holds (s.call i) := by
  refine ⟨?_, ?_, fun e he => ?_, fun p g h hp hget => ?_⟩
  · simp [Launcher.call, ProcessTable.add, hs.progress]
  · simp [Launcher.call, ProcessTable.add, hs.launches]
  · simpa [Launcher.call, ProcessTable.add] using Nat.lt_succ_of_lt (hs.known e he)
  · simp only [Launcher.call, ProcessTable.get?, ProcessTable.add] at hp hget
    rcases Nat.lt_or_ge p s.table.handles.length with hlt | hge
    · rw [List.getElem?_append_left (hs.progress ▸ hlt)] at hp
      rw [List.getElem?_append_left hlt] at hget
      exact hs.fits p g h hp hget
    · have hle := (List.getElem?_eq_some_iff.1 hget).1
      rw [List.length_append, List.length_singleton] at hle
      obtain rfl : p = s.table.handles.length := Nat.le_antisymm (Nat.le_of_lt_succ hle) hge
      rw [← hs.progress, List.getElem?_concat_length] at hp
      rw [List.getElem?_concat_length] at hget
      obtain rfl := Option.some.inj hp
      obtain rfl := Option.some.inj hget
      exact ⟨rfl, hs.eventsOf_eq_nil hge⟩

/-- An instance has come further, its handle has changed, and of it alone something is logged. -/
lemma goes (hs : Holds s) (hes : ∀ e ∈ es, e.process = p) (hh : s.table.get? p = some h)
    (hf : g'.Fits p h' (eventsOf s.log p ++ es)) : Holds (s.put p h' es g') := by
  have hlt : p < s.table.handles.length := (List.getElem?_eq_some_iff.1 hh).1
  refine ⟨?_, ?_, fun e he => ?_, fun q k x hq hx => ?_⟩
  · simpa [put] using hs.progress
  · simpa [put] using hs.launches
  · rw [put, ProcessTable.length_update]
    rcases List.mem_append.1 he with he | he
    · exact hs.known e he
    · exact hes e he ▸ hlt
  · rw [put, eventsOf_append_of_process hes]
    rw [put, ProcessTable.get?_update] at hx
    rw [put] at hq
    by_cases hpq : p = q
    · subst q
      rw [if_pos rfl, hh] at hx
      rw [List.getElem?_set_self (hs.progress ▸ hlt)] at hq
      obtain rfl := Option.some.inj hx
      obtain rfl := Option.some.inj hq
      rw [if_pos rfl]
      exact hf
    · rw [if_neg hpq] at hx ⊢
      rw [List.getElem?_set_ne hpq] at hq
      exact hs.fits q k x hq hx

/-- The handle of an instance has changed, but nothing that is told of. -/
lemma stops (hs : Holds s) (hh : s.table.get? p = some h) (he : h'.hasEnded = h.hasEnded)
    (hc : h'.code = h.code) (hfail : h'.failed = h.failed) (asks : List (ProcessId × Interrupt)) :
    Holds { s with table := s.table.update p fun _ => h', asks } := by
  refine ⟨?_, ?_, fun e he => ?_, fun q k x hq hx => ?_⟩
  · simpa using hs.progress
  · simpa using hs.launches
  · simpa using hs.known e he
  · rw [ProcessTable.get?_update] at hx
    split at hx
    · subst q
      rw [hh] at hx
      obtain rfl := Option.some.inj hx
      exact (hs.fits p k h hq hh).congr he hc hfail
    · exact hs.fits q k x hq hx

/-- **One step keeps what holds.** -/
theorem step (hs : Holds s) (hstep : Step s act s') : Holds s' := by
  cases hstep with
  | sets | asks | passes => exact ⟨hs.progress, hs.launches, hs.known, hs.fits⟩
  | calls => exact hs.call _
  | @tracks p t kept hp hk =>
    refine ⟨?_, hs.launches, hs.known, fun q g h hq hh => ?_⟩
    · simpa using hs.progress
    -- to be tracked changes no handle, and asks no more of it than that the behaviour is known
    · rcases getElem?_of_set hq with hq | ⟨rfl, rfl⟩
      · exact hs.fits q g h hq hh
      · exact hs.fits p (.known t) h hp hh
  | goes hp hl hh hg => exact hs.goes hg.process hh (hg.fits (hs.fits _ _ _ hp hh))
  | @stops j p c c' a h h' hj hh hg =>
    have hsame : h'.hasEnded = h.hasEnded ∧ h'.code = h.code ∧ h'.failed = h.failed := by
      rcases hg.eq_or with rfl | rfl <;> exact ⟨rfl, rfl, rfl⟩
    exact hs.stops hh hsame.1 hsame.2.1 hsame.2.2 _

theorem of_runs (h : Runs Step (.fresh other) acts s) : Holds s := by
  induction h with
  | nil => exact holds_fresh other
  | snoc _ hstep ih => exact ih.step hstep

end Holds

/-! ### What can be read off the log -/

lemma Holds.accurate (hs : Holds s) : Accurate s.toState := by
  refine accurate_of_wellTold (fun p => ?_) fun p h hp hh => ?_
  · rcases Nat.lt_or_ge p s.table.handles.length with hlt | hge
    · have hh : s.table.get? p = some s.table.handles[p] := List.getElem?_eq_getElem hlt
      obtain ⟨g, hg⟩ := hs.exists_progress hh
      exact (hs.fits p g _ hg hh).story
    · rw [hs.eventsOf_eq_nil hge]
      exact .untold
  · obtain ⟨g, hg⟩ := hs.exists_progress hp
    exact (hs.fits p g h hg hp).endTold hh

/-- What is done at once changes the handles or is logged, not both. -/
lemma Step.handles_or_log (hstep : Step s act s') :
    (∀ p, (s'.table.get? p).map Handle.hasEnded = (s.table.get? p).map Handle.hasEnded) ∨
      s'.log = s.log := by
  cases hstep with
  | goes hp hl hh hg =>
    cases hg with
    -- these two access the log, and leave the handle as it is
    | logsStart | logsEnd => exact .inl fun p => by simp [put, ProcessTable.update_self hh]
    | _ => exact .inr (List.append_nil _)
  | _ => exact .inr rfl

/-- Nothing is taken from the log. -/
lemma Step.grows (hs : Step s act s') : s.log <+: s'.log := by
  cases hs with
  | goes => exact List.prefix_append ..
  | _ => exact List.prefix_rfl

lemma log_of_runs (h : Runs Step s acts s') : s.log <+: s'.log := by
  induction h with
  | nil => exact List.prefix_rfl
  | snoc _ hs ih => exact ih.trans hs.grows

/-- **The end of a process is in the log before its handle is final.** -/
lemma Holds.ends (hs : Holds s) (hstep : Step s act s') (hrun : s.table.hasEnded p = false)
    (hp : s'.table.get? p = some h) (hh : h.hasEnded = true) : EndTold p h (eventsOf s.log p) := by
  rcases hstep.handles_or_log with htable | hlog
  · have hsame := htable p
    obtain ⟨k, hk, hke⟩ := ProcessTable.exists_of_hasEnded_eq_false hrun
    rw [hp, hk, Option.map_some, Option.map_some, hh, hke] at hsame
    cases hsame
  · rw [← hlog]
    exact (hs.step hstep).accurate.final p h hp hh

/-! ### The instances -/

def Act.instance? : Act → Option Instance
  | .calls i => some i
  | _ => none

/-- The instances that the launcher was called for, in order. -/
def instances (acts : List Act) : List Instance := acts.filterMap Act.instance?

lemma instances_concat : instances (acts ++ [act]) = instances acts ++ act.instance?.toList := by
  rw [instances, List.filterMap_append]
  cases h : act.instance? <;> simp [instances, h]

/-- Each instance is on record under the number of its call. -/
lemma shows_of_runs (h : Runs Step (.fresh other) acts s) :
    List.Forall₂ (fun l i => l.Shows i i.displayName) s.launches (instances acts) := by
  induction h with
  | nil => exact .nil
  | snoc _ hstep ih =>
    rw [instances_concat]
    cases hstep with
    | calls => exact List.rel_append ih (.cons ⟨rfl, rfl, rfl, rfl⟩ .nil)
    | _ => exact (List.append_nil _).symm ▸ ih

/-- The start of an instance is in the log when the call returns. -/
lemma started_of_runs (h : Runs Step (.fresh other) acts s) (hp : .goes p .spawns ∈ acts) :
    ∃ t, .started t p ∈ s.log := by
  obtain ⟨pre, post, x, x', rfl, hpre, hstep, hpost⟩ := h.exists_of_mem hp
  have hlog := hstep.grows.trans (log_of_runs hpost)
  cases hstep with
  | goes hprogress hl hh hg =>
    cases hg with
    | spawns =>
      obtain ⟨-, t, ht⟩ := (Holds.of_runs hpre).fits _ _ _ hprogress hh
      have hmem : .started t p ∈ eventsOf x.log p := by simp [ht]
      exact ⟨t, hlog.subset (mem_eventsOf.1 hmem).1⟩

end Launcher

end Rehearsal

end ChainRunner
