import ChainRunner.Proofs.Process.Interrupt
import ChainRunner.Proofs.Process.Outcome
import ChainRunner.Proofs.Process.Table
import ChainRunner.Proofs.Runs

/-!
One process with all that goes on around it.

The one who supervises it starts it, hears of it and finishes its handle; the process itself comes
up and leaves; and calls to stop it, or to stop all processes, come from all sides. Each of them
goes on by single steps, in any order.

A process that has left keeps its id until its status is taken. From then on the id may be that of
another process.
-/

namespace ChainRunner.Supervision

open Handle

/-- The process as the system sees it. -/
inductive Child
  | unborn
  /-- It could not be started. -/
  | stillborn
  | alive
  /-- It has left, and its status was not taken yet. -/
  | gone (code : Option Int)
  | reaped
deriving DecidableEq, Repr

/-- The process is there, and its id is its own. -/
inductive Child.IsUp : Child → Prop
  | alive : IsUp .alive
  | gone (code : Option Int) : IsUp (.gone code)

/-- A call to stop the process, or the part about it of a call to stop all. -/
inductive Ask
  /-- The processes are still to be listed. -/
  | listing
  | unlisted
  | asks (c : Interrupt)
deriving DecidableEq, Repr

structure Scene where
  table : ProcessTable
  watch : Supervision := {}
  child : Child := .unborn
  /-- The process was killed on request. -/
  killed : Bool := false
  calls : List Ask := []
  now : Nat := 0

/-- What changes in the table besides the handle `p`. -/
inductive Elsewhere (p : Nat) (t : ProcessTable) : ProcessTable → Prop
  | add (h : Handle) : Elsewhere p t (t.add h).1
  | track (q : Nat) : Elsewhere p t (t.track q)
  | update {q : Nat} (hq : q ≠ p) (f : Handle → Handle) : Elsewhere p t (t.update q f)

inductive Act
  | spawns
  | fails
  /-- The handle learns that the process is up. -/
  | marks
  /-- The handle learns that it is not. -/
  | givesUp
  | wrote (errors : Bool) (chunk : Text.Bytes)
  | closes (errors : Bool)
  | exits (code : Option Int)
  | reaps
  | kills
  /-- The handle is finished. -/
  | concludes
  | calls (all : Bool)
  | lists (i : Nat)
  | goes (i : Nat) (a : Interrupt.Access)
  | elsewhere
  | passes (time : Nat)

/-- The status is not known, or the streams are still read. -/
def IsHearing (s : Supervision) : Prop := s.stage ≠ .starting ∧ s.stage ≠ .done

/-- The scene when some news have come to the handle. -/
def Scene.hear (p : Nat) (s : Scene) (h : Handle) (n : News) : Scene :=
  { s with
    watch := (s.watch.step s.now h n).1
    table := s.table.update p fun _ => (s.watch.step s.now h n).2.1 }

/-- What may happen next to the process with the handle `p` and, once it is up, the id `pid`. The
status of a process and the end of its streams are heard before the handle is finished. A signal
reaches a process that is there. -/
inductive Step (p pid : Nat) (s : Scene) : Act → Scene → Prop
  | spawns (hc : s.child = .unborn) : Step p pid s .spawns { s with child := .alive }
  | fails (hc : s.child = .unborn) : Step p pid s .fails { s with child := .stillborn }
  | marks {h : Handle} (hh : s.table.get? p = some h) (hc : s.child.IsUp)
    (hw : s.watch.stage = .starting) : Step p pid s .marks (s.hear p h (.spawned pid))
  | givesUp {h : Handle} (hh : s.table.get? p = some h) (hc : s.child = .stillborn)
    (hw : s.watch.stage = .starting) : Step p pid s .givesUp (s.hear p h .notSpawned)
  | wrote {h : Handle} {errors : Bool} {chunk : Text.Bytes} (hh : s.table.get? p = some h)
    (hw : s.watch.IsHearing) (ho : s.watch.isOpen errors) :
    Step p pid s (.wrote errors chunk) (s.hear p h (.wrote errors chunk))
  | closes {errors : Bool} (hw : s.watch.IsHearing) (ho : s.watch.isOpen errors) :
    Step p pid s (.closes errors) { s with watch := s.watch.shut errors }
  | exits {code : Option Int} (hc : s.child = .alive) (hk : s.killed → code = none) :
    Step p pid s (.exits code) { s with child := .gone code }
  | reaps {code : Option Int} (hc : s.child = .gone code) (hw : s.watch.stage = .running) :
    Step p pid s .reaps
      { s with child := .reaped, watch := { s.watch with stage := .exited code } }
  | kills {h : Handle} (hh : s.table.get? p = some h) (hw : s.watch.stage = .running)
    (hk : s.killed = false) (hr : h.killRequested) :
    Step p pid s .kills
      { s with table := s.table.update p fun _ => h.takeKill.1, killed := true }
  | concludes {h : Handle} {code : Option Int} (hh : s.table.get? p = some h)
    (hw : s.watch.stage = .exited code) (ho : ∀ errors, s.watch.isOpen errors = false) :
    Step p pid s .concludes
      { s with
        watch := (conclude s.now s.watch h).1
        table := s.table.update p fun _ => (conclude s.now s.watch h).2 }
  | calls {all : Bool} :
    Step p pid s (.calls all)
      { s with calls := s.calls ++ [if all then .listing else .asks .called] }
  | lists {i : Nat} (hi : s.calls[i]? = some .listing) :
    Step p pid s (.lists i)
      { s with calls := s.calls.set i (if p ∈ s.table.live then .asks .called else .unlisted) }
  | goes {i : Nat} {c c' : Interrupt} {a : Interrupt.Access} {h h' : Handle}
    (hh : s.table.get? p = some h) (hi : s.calls[i]? = some (.asks c)) (hg : c.Goes h a h' c')
    (hr : ∀ reached, a = .signals pid reached → s.child.IsUp → reached = true) :
    Step p pid s (.goes i a)
      { s with
        table := s.table.update p fun _ => h', calls := s.calls.set i (.asks c') }
  | elsewhere {t : ProcessTable} (ht : Elsewhere p s.table t) :
    Step p pid s .elsewhere { s with table := t }
  | passes {time : Nat} : Step p pid s (.passes time) { s with now := s.now + time }

/-- A new handle is tracked before its process is started. -/
def Scene.begin (t : ProcessTable) (name : String) (background : Bool) : Scene :=
  { table := (t.add { name, background }).1.track t.handles.length }

/-! ### The steps are those of the supervision -/

section

variable {s : Supervision} {now : Nat} {h : Handle} {code : Option Int}

/-- News of the status and of the end of a stream conclude at once where nothing comes between. -/
lemma step_exited : s.step now h (.exited code) =
    ((conclude now { s with stage := .exited code } h).1,
      (conclude now { s with stage := .exited code } h).2, []) := rfl

lemma conclude_closed (hw : s.stage = .exited code) (ho : ∀ errors, s.isOpen errors = false) :
    conclude now s h = ({ s with stage := .done }, (h.finish now code (code != some 0)).1) := by
  have hout : s.outOpen = false := ho false
  have herr : s.errOpen = false := ho true
  simp [conclude, hw, hout, herr]

end

/-! ### How far the process and its handle have come -/

/-- What the handle knows of the process at each stage. -/
inductive Phase (pid : Nat) (h : Handle) : Child → Stage → Bool → Prop
  | unborn (hp : h.pid = none) (he : h.hasEnded = false) : Phase pid h .unborn .starting false
  | failing (hp : h.pid = none) (he : h.hasEnded = false) :
    Phase pid h .stillborn .starting false
  | failed (hp : h.pid = none) (he : h.hasEnded = true) (hf : h.failed = true) :
    Phase pid h .stillborn .done false
  | unmarked {c : Child} (hc : c.IsUp) (hp : h.pid = none) (he : h.hasEnded = false) :
    Phase pid h c .starting false
  | running {c : Child} {killed : Bool} (hc : c.IsUp) (hp : h.pid = some pid)
    (he : h.hasEnded = false) : Phase pid h c .running killed
  | draining {code : Option Int} {killed : Bool} (hp : h.pid = some pid)
    (he : h.hasEnded = false) : Phase pid h .reaped (.exited code) killed
  | finished {killed : Bool} (hp : h.pid = some pid) (he : h.hasEnded = true) :
    Phase pid h .reaped .done killed

variable {p pid : Nat} {h h' : Handle} {c : Child} {st : Stage} {k k' : Bool}

lemma Phase.congr (hphase : Phase pid h c st k) (hp : h'.pid = h.pid)
    (he : h'.hasEnded = h.hasEnded) (hf : h.failed → h'.failed) : Phase pid h' c st k := by
  cases hphase with
  | unborn hp' he' => exact .unborn (hp.trans hp') (he.trans he')
  | failing hp' he' => exact .failing (hp.trans hp') (he.trans he')
  | failed hp' he' hf' => exact .failed (hp.trans hp') (he.trans he') (hf hf')
  | unmarked hc hp' he' => exact .unmarked hc (hp.trans hp') (he.trans he')
  | running hc hp' he' => exact .running hc (hp.trans hp') (he.trans he')
  | draining hp' he' => exact .draining (hp.trans hp') (he.trans he')
  | finished hp' he' => exact .finished (hp.trans hp') (he.trans he')

lemma Phase.of_starting (hphase : Phase pid h c .starting k) :
    h.pid = none ∧ h.hasEnded = false ∧ k = false := by
  cases hphase <;> exact ⟨‹_›, ‹_›, rfl⟩

lemma Phase.of_running (hphase : Phase pid h c .running k) :
    c.IsUp ∧ h.pid = some pid ∧ h.hasEnded = false := by
  cases hphase with
  | running hc hp he => exact ⟨hc, hp, he⟩

lemma Phase.of_exited {code : Option Int} (hphase : Phase pid h c (.exited code) k) :
    c = .reaped ∧ h.pid = some pid ∧ h.hasEnded = false := by
  cases hphase with
  | draining hp he => exact ⟨rfl, hp, he⟩

/-- A process that is there is started and known, or still to be marked. -/
lemma Phase.of_isUp (hphase : Phase pid h c st k) (hc : c.IsUp) :
    h.hasEnded = false ∧ (st = .starting ∧ k = false ∨ st = .running) := by
  cases hphase with
  | unmarked _ _ he => exact ⟨he, .inl ⟨rfl, rfl⟩⟩
  | running _ _ he => exact ⟨he, .inr rfl⟩
  | _ => cases hc

lemma Phase.of_reaped (hphase : Phase pid h .reaped st k) : h.pid = some pid := by
  cases hphase with
  | unmarked hc | running hc => cases hc
  | draining hp | finished hp => exact hp

/-- A process that could not be started is over, or will be when the one who supervises gives it
up. -/
lemma Phase.of_stillborn (hphase : Phase pid h .stillborn st k) :
    st = .starting ∧ h.hasEnded = false ∨ h.hasEnded ∧ h.failed := by
  cases hphase with
  | failing _ he => exact .inl ⟨rfl, he⟩
  | failed _ he hf => exact .inr ⟨he, hf⟩
  | unmarked hc | running hc => cases hc

/-- What a call that has come so far tells of the handle. -/
def Ask.Fits (pid : Nat) (h : Handle) (killed : Bool) : Ask → Prop
  | .asks (.aimed q) | .asks (.answered (.signalled q)) => q = pid ∧ h.pid = some pid
  | .asks (.answered .skipped) | .unlisted => h.hasEnded
  | .asks (.answered .requested) => h.killRequested ∨ killed
  | _ => True

/-- Nothing that a call may rely on is taken back. -/
structure Onward (h h' : Handle) (k k' : Bool) : Prop where
  ended : h.hasEnded → h'.hasEnded
  pid : ∀ q, h.pid = some q → h'.pid = some q
  request : h.killRequested ∨ k → h'.killRequested ∨ k'

lemma Onward.refl (h : Handle) (k : Bool) : Onward h h k k := ⟨id, fun _ => id, id⟩

lemma Onward.trans {h'' : Handle} {k'' : Bool} (ho : Onward h h' k k')
    (ho' : Onward h' h'' k' k'') : Onward h h'' k k'' :=
  ⟨ho'.ended ∘ ho.ended, fun q => ho'.pid q ∘ ho.pid q, ho'.request ∘ ho.request⟩

lemma Ask.Fits.onward {a : Ask} (ha : a.Fits pid h k) (ho : Onward h h' k k') :
    a.Fits pid h' k' := by
  unfold Ask.Fits at ha ⊢
  split at ha
  · exact ⟨ha.1, ho.pid pid ha.2⟩
  · exact ⟨ha.1, ho.pid pid ha.2⟩
  · exact ho.ended ha
  · exact ho.ended ha
  · exact ho.request ha
  · trivial

/-- What holds of the scene and of the handle `p` in it. -/
structure Holds (p pid : Nat) (s : Scene) (h : Handle) : Prop where
  handle : s.table.get? p = some h
  phase : Phase pid h s.child s.watch.stage s.killed
  tracked : h.hasEnded = false → p ∈ s.table.tracked
  /-- A process that was up is over only when its streams are at their ends. -/
  closed : s.child = .reaped → h.hasEnded → ∀ errors, s.watch.isOpen errors = false
  fits : ∀ (i : Nat) (a : Ask), s.calls[i]? = some a → a.Fits pid h s.killed

variable {s s' : Scene} {a : Act} {t t' : ProcessTable}

lemma get?_put (hh : t.get? p = some h) (h' : Handle) :
    (t.update p fun _ => h').get? p = some h' := by
  rw [ProcessTable.get?_update, if_pos rfl, hh]
  rfl

/-- The scene goes on from `s` to `s'`, and its handle from `h` to `h'`. -/
structure Leads (p pid : Nat) (s : Scene) (h : Handle) (s' : Scene) (h' : Handle) : Prop where
  holds : Holds p pid s' h'
  onward : Onward h h' s.killed s'.killed

/-- The calls are left alone, and nothing is taken from the registry. -/
lemma Holds.move (hh : Holds p pid s h) (hget : s'.table.get? p = some h')
    (hphase : Phase pid h' s'.child s'.watch.stage s'.killed)
    (hon : Onward h h' s.killed s'.killed) (htracked : s'.table.tracked = s.table.tracked)
    (hclosed : s'.child = .reaped → h'.hasEnded → ∀ errors, s'.watch.isOpen errors = false)
    (hcalls : s'.calls = s.calls) : Leads p pid s h s' h' := by
  refine ⟨⟨hget, hphase, fun he => ?_, hclosed, fun i c hi => ?_⟩, hon⟩
  · rw [htracked]
    exact hh.tracked (Bool.eq_false_iff.2 fun he' => by simp [hon.ended he'] at he)
  · exact (hh.fits i c (hcalls ▸ hi)).onward hon

lemma hasEnded_eq (hh : t.get? p = some h) : t.hasEnded p = h.hasEnded := by
  rw [ProcessTable.hasEnded, hh]

/-- Elsewhere the handle stays as it is, and tracked as long as it has not ended. -/
lemma Elsewhere.spares (ht : Elsewhere p t t') (hh : t.get? p = some h) :
    t'.get? p = some h ∧ (h.hasEnded = false → p ∈ t.tracked → p ∈ t'.tracked) := by
  cases ht with
  | add g =>
    refine ⟨?_, fun _ => id⟩
    have hlt : p < t.handles.length := (List.getElem?_eq_some_iff.1 hh).1
    simpa only [ProcessTable.get?, ProcessTable.add, List.getElem?_append_left hlt] using hh
  | track q =>
    refine ⟨hh, fun he hp => ?_⟩
    have hended : t.hasEnded p = false := (hasEnded_eq hh).trans he
    exact List.mem_append_left _ (List.mem_filter.2 ⟨hp, by simp [hended]⟩)
  | update hq f =>
    rw [ProcessTable.get?_update, if_neg hq]
    exact ⟨hh, fun _ => id⟩

/-! ### One step -/

/-- News of what the process wrote leave the handle where it is, unless it fails. -/
lemma wrote_spec (w : Supervision) (now : Nat) (h : Handle) (errors : Bool) (chunk : Text.Bytes) :
    (w.step now h (.wrote errors chunk)).2.1.pid = h.pid ∧
      (w.step now h (.wrote errors chunk)).2.1.hasEnded = h.hasEnded ∧
      (w.step now h (.wrote errors chunk)).2.1.killRequested = h.killRequested ∧
      (h.failed → (w.step now h (.wrote errors chunk)).2.1.failed) := by
  have hmark : h.markStderr.pid = h.pid ∧ h.markStderr.killRequested = h.killRequested := by
    unfold Handle.markStderr
    split <;> exact ⟨rfl, rfl⟩
  refine ⟨?_, hasEnded_wrote .., ?_, (follows_step now w h _).failed⟩ <;>
  · cases errors with
    | false => rfl
    | true =>
      simp only [step]
      split
      · rfl
      · simp only [hmark]

lemma Holds.marks (hh : Holds p pid s h) (hc : s.child.IsUp) (hw : s.watch.stage = .starting) :
    Leads p pid s h (s.hear p h (.spawned pid)) (h.start s.now (some pid)) := by
  obtain ⟨hp, he, -⟩ := (hw ▸ hh.phase).of_starting
  refine hh.move (get?_put hh.handle _) (.running hc rfl he) ⟨id, by simp [hp], id⟩ rfl ?_ rfl
  intro _ hend
  rw [hasEnded_start, he] at hend
  cases hend

lemma Holds.givesUp (hh : Holds p pid s h) (hc : s.child = .stillborn)
    (hw : s.watch.stage = .starting) :
    Leads p pid s h (s.hear p h .notSpawned) (h.finish s.now none true).1 := by
  obtain ⟨hp, he, hk⟩ := (hw ▸ hh.phase).of_starting
  have hfin : (h.finish s.now none true).1.pid = h.pid ∧
      (h.finish s.now none true).1.failed = true ∧
      (h.finish s.now none true).1.killRequested = h.killRequested := by
    simp [Handle.finish, he]
  obtain ⟨hpid, hfailed, hrequest⟩ := hfin
  refine hh.move (get?_put hh.handle _) ?_ ?_ rfl ?_ rfl
  · change Phase pid _ s.child .done s.killed
    rw [hc, hk]
    exact .failed (hpid.trans hp) (h.hasEnded_finish ..) hfailed
  · exact ⟨fun _ => h.hasEnded_finish .., fun q hq => hpid.trans hq, fun hr => hrequest ▸ hr⟩
  · intro hreaped
    change s.child = .reaped at hreaped
    rw [hc] at hreaped
    cases hreaped

lemma Holds.wrote (hh : Holds p pid s h) (errors : Bool) (chunk : Text.Bytes) :
    Leads p pid s h (s.hear p h (.wrote errors chunk))
      (s.watch.step s.now h (.wrote errors chunk)).2.1 := by
  obtain ⟨hp, he, hr, hf⟩ := wrote_spec s.watch s.now h errors chunk
  refine hh.move (get?_put hh.handle _) ?_ ?_ rfl ?_ rfl
  · change Phase pid _ s.child (s.watch.step s.now h (.wrote errors chunk)).1.stage s.killed
    rw [stage_wrote]
    exact hh.phase.congr hp he hf
  · exact ⟨fun hend => he.trans hend, fun q hq => hp.trans hq, fun hr' => hr ▸ hr'⟩
  · intro hreaped hend e
    rw [he] at hend
    exact (isOpen_wrote ..).trans (hh.closed hreaped hend e)

lemma Holds.closes (hh : Holds p pid s h) (errors : Bool) :
    Leads p pid s h { s with watch := s.watch.shut errors } h := by
  refine hh.move hh.handle ?_ (.refl h _) rfl ?_ rfl
  · change Phase pid h s.child (s.watch.shut errors).stage s.killed
    rw [stage_shut]
    exact hh.phase
  · intro hreaped hend e
    change (s.watch.shut errors).isOpen e = false
    rw [isOpen_shut]
    split
    · rfl
    · exact hh.closed hreaped hend e

lemma Holds.exits (hh : Holds p pid s h) (hc : s.child = .alive) (code : Option Int) :
    Leads p pid s h { s with child := .gone code } h := by
  refine hh.move hh.handle ?_ (.refl h _) rfl nofun rfl
  have hphase := hh.phase
  rw [hc] at hphase
  change Phase pid h (.gone code) s.watch.stage s.killed
  generalize s.watch.stage = st, s.killed = k at hphase ⊢
  cases hphase with
  | unmarked _ hp he => exact .unmarked (.gone code) hp he
  | running _ hp he => exact .running (.gone code) hp he

lemma Holds.concludes {code : Option Int} (hh : Holds p pid s h)
    (hw : s.watch.stage = .exited code) (ho : ∀ errors, s.watch.isOpen errors = false) :
    Leads p pid s h
      { s with
        watch := (conclude s.now s.watch h).1
        table := s.table.update p fun _ => (conclude s.now s.watch h).2 }
      (h.finish s.now code (code != some 0)).1 := by
  obtain ⟨hc, hp, he⟩ := (hw ▸ hh.phase).of_exited
  have hfin : (h.finish s.now code (code != some 0)).1.pid = h.pid ∧
      (h.finish s.now code (code != some 0)).1.killRequested = h.killRequested := by
    simp [Handle.finish, he]
  rw [conclude_closed hw ho]
  refine hh.move (get?_put hh.handle _) ?_ ?_ rfl (fun _ _ => ho) rfl
  · change Phase pid _ s.child .done s.killed
    rw [hc]
    exact .finished (hfin.1.trans hp) (h.hasEnded_finish ..)
  · exact ⟨fun _ => h.hasEnded_finish .., fun q hq => hfin.1.trans hq,
      fun hr => hfin.2 ▸ hr⟩

lemma Holds.kills (hh : Holds p pid s h) (hw : s.watch.stage = .running) :
    Leads p pid s h
      { s with table := s.table.update p fun _ => h.takeKill.1, killed := true } h.takeKill.1 := by
  obtain ⟨hc, hp, he⟩ := (hw ▸ hh.phase).of_running
  refine hh.move (get?_put hh.handle _) ?_ ⟨id, fun _ => id, fun _ => .inr rfl⟩ rfl ?_ rfl
  · change Phase pid _ s.child s.watch.stage true
    rw [hw]
    exact .running hc hp he
  · exact fun hreaped hend => hh.closed hreaped hend

lemma Holds.calls (hh : Holds p pid s h) (all : Bool) :
    Leads p pid s h
      { s with calls := s.calls ++ [if all then .listing else .asks .called] } h := by
  refine ⟨⟨hh.handle, hh.phase, hh.tracked, hh.closed, fun i a hi => ?_⟩, .refl ..⟩
  rcases getElem?_of_concat hi with hi | rfl
  · exact hh.fits i a hi
  · cases all <;> trivial

/-- One of the calls has come further. -/
lemma fits_set {i : Nat} {a : Ask} (hfits : ∀ (j : Nat) (b : Ask), s.calls[j]? = some b →
    b.Fits pid h k) (ha : a.Fits pid h k) (j : Nat) (b : Ask)
    (hj : (s.calls.set i a)[j]? = some b) : b.Fits pid h k := by
  rcases getElem?_of_set hj with hj | ⟨rfl, rfl⟩
  · exact hfits j b hj
  · exact ha

/-- A process that is not listed is over: it is tracked until then. -/
lemma Holds.lists (hh : Holds p pid s h) (i : Nat) :
    Leads p pid s h
      { s with calls := s.calls.set i (if p ∈ s.table.live then .asks .called else .unlisted) }
      h := by
  refine ⟨⟨hh.handle, hh.phase, hh.tracked, hh.closed, fits_set hh.fits ?_⟩, .refl ..⟩
  split
  · trivial
  · rename_i hlive
    rw [ProcessTable.mem_live, hasEnded_eq hh.handle] at hlive
    by_contra hend
    have hend : h.hasEnded = false := Bool.eq_false_iff.2 hend
    exact hlive ⟨hh.tracked hend, hend⟩

/-- What the access of a call tells, and what it does to the handle. -/
lemma goes_spec {c c' : Interrupt} {b : Interrupt.Access} (hg : c.Goes h b h' c')
    (hc : Ask.Fits pid h k (.asks c)) (hp : ∀ q, h.pid = some q → q = pid) :
    h'.pid = h.pid ∧ h'.hasEnded = h.hasEnded ∧ h'.failed = h.failed ∧ Onward h h' k k ∧
      Ask.Fits pid h' k (.asks c') := by
  cases hg with
  | skips he => exact ⟨rfl, rfl, rfl, .refl h k, he⟩
  | passes | misses | fails => exact ⟨rfl, rfl, rfl, .refl h k, trivial⟩
  | aims hq =>
    obtain rfl := hp _ hq
    exact ⟨rfl, rfl, rfl, .refl h k, rfl, hq⟩
  | signals => exact ⟨rfl, rfl, rfl, .refl h k, hc⟩
  | requests => exact ⟨rfl, rfl, rfl, ⟨id, fun _ => id, fun _ => .inl rfl⟩, .inl rfl⟩

lemma Phase.pid_eq (hphase : Phase pid h c st k) (q : Nat) (hq : h.pid = some q) : q = pid := by
  cases hphase <;> simp_all

lemma Holds.goes {i : Nat} {c c' : Interrupt} {b : Interrupt.Access} (hh : Holds p pid s h)
    (hi : s.calls[i]? = some (.asks c)) (hg : c.Goes h b h' c') :
    Leads p pid s h
      { s with
        table := s.table.update p fun _ => h', calls := s.calls.set i (.asks c') } h' := by
  obtain ⟨hp, he, hf, hon, hc'⟩ := goes_spec hg (hh.fits i _ hi) hh.phase.pid_eq
  refine ⟨⟨get?_put hh.handle _, hh.phase.congr hp he (hf ▸ id), fun hend => ?_, ?_, ?_⟩, hon⟩
  · exact hh.tracked (he ▸ hend)
  · exact fun hreaped hend => hh.closed hreaped (he ▸ hend)
  · exact fits_set (fun j b hj => (hh.fits j b hj).onward hon) hc'

lemma Holds.elsewhere (hh : Holds p pid s h) (ht : Elsewhere p s.table t) :
    Leads p pid s h { s with table := t } h := by
  obtain ⟨hget, htracked⟩ := ht.spares hh.handle
  exact ⟨⟨hget, hh.phase, fun he => htracked he (hh.tracked he), hh.closed, hh.fits⟩, .refl ..⟩

lemma Holds.spawns (hh : Holds p pid s h) (hc : s.child = .unborn) :
    Leads p pid s h { s with child := .alive } h := by
  have hphase : Phase pid h .unborn s.watch.stage s.killed := hc ▸ hh.phase
  refine hh.move hh.handle ?_ (.refl ..) rfl nofun rfl
  change Phase pid h .alive s.watch.stage s.killed
  generalize s.watch.stage = st, s.killed = k at hphase ⊢
  cases hphase with
  | unborn hp he => exact .unmarked .alive hp he
  | unmarked hc | running hc => cases hc

lemma Holds.fails (hh : Holds p pid s h) (hc : s.child = .unborn) :
    Leads p pid s h { s with child := .stillborn } h := by
  have hphase : Phase pid h .unborn s.watch.stage s.killed := hc ▸ hh.phase
  refine hh.move hh.handle ?_ (.refl ..) rfl nofun rfl
  change Phase pid h .stillborn s.watch.stage s.killed
  generalize s.watch.stage = st, s.killed = k at hphase ⊢
  cases hphase with
  | unborn hp he => exact .failing hp he
  | unmarked hc | running hc => cases hc

lemma Holds.reaps (hh : Holds p pid s h) (hw : s.watch.stage = .running) (code : Option Int) :
    Leads p pid s h
      { s with child := .reaped, watch := { s.watch with stage := .exited code } } h := by
  obtain ⟨-, hp, he⟩ := (hw ▸ hh.phase).of_running
  refine hh.move hh.handle (.draining hp he) (.refl ..) rfl (fun _ hend => ?_) rfl
  rw [he] at hend
  cases hend

/-- **What one step leads to.** -/
theorem Holds.step (hh : Holds p pid s h) (hs : Step p pid s a s') :
    ∃ h', Leads p pid s h s' h' := by
  have hsame {g : Handle} (hg : s.table.get? p = some g) : g = h :=
    Option.some.inj (hg.symm.trans hh.handle)
  cases hs with
  | spawns hc => exact ⟨_, hh.spawns hc⟩
  | fails hc => exact ⟨_, hh.fails hc⟩
  | marks hg hc hw =>
    obtain rfl := hsame hg
    exact ⟨_, hh.marks hc hw⟩
  | givesUp hg hc hw =>
    obtain rfl := hsame hg
    exact ⟨_, hh.givesUp hc hw⟩
  | wrote hg =>
    obtain rfl := hsame hg
    exact ⟨_, hh.wrote _ _⟩
  | closes => exact ⟨_, hh.closes _⟩
  | exits hc => exact ⟨_, hh.exits hc _⟩
  | reaps _ hw => exact ⟨_, hh.reaps hw _⟩
  | kills hg hw =>
    obtain rfl := hsame hg
    exact ⟨_, hh.kills hw⟩
  | concludes hg hw ho =>
    obtain rfl := hsame hg
    exact ⟨_, hh.concludes hw ho⟩
  | calls => exact ⟨_, hh.calls _⟩
  | lists => exact ⟨_, hh.lists _⟩
  | goes hg hi hgo =>
    obtain rfl := hsame hg
    exact ⟨_, hh.goes hi hgo⟩
  | elsewhere ht => exact ⟨_, hh.elsewhere ht⟩
  | passes => exact ⟨h, ⟨hh.handle, hh.phase, hh.tracked, hh.closed, hh.fits⟩, .refl ..⟩

/-! ### One call -/

/-- A call that has just begun, or that has just been listed. -/
inductive Ask.IsNew : Ask → Prop
  | listing : IsNew .listing
  | unlisted : IsNew .unlisted
  | called : IsNew (.asks .called)

/-- A call that stands where it stands was there before, is new, or has just come there. -/
lemma Step.call {i : Nat} {b : Ask} (hs : Step p pid s a s') (hi : s'.calls[i]? = some b) :
    s.calls[i]? = some b ∨ b.IsNew ∨
      ∃ c c' d h h', a = .goes i d ∧ s.table.get? p = some h ∧ s.calls[i]? = some (.asks c) ∧
        b = .asks c' ∧ c.Goes h d h' c' := by
  cases hs with
  | @calls all =>
    rcases getElem?_of_concat hi with hi | rfl
    · exact .inl hi
    · cases all
      exacts [.inr (.inl .called), .inr (.inl .listing)]
  | lists =>
    rcases getElem?_of_set hi with hi | ⟨rfl, rfl⟩
    · exact .inl hi
    · split
      exacts [.inr (.inl .called), .inr (.inl .unlisted)]
  | @goes j c c' d h h' hh hj hg hr =>
    rcases getElem?_of_set hi with hi | ⟨rfl, rfl⟩
    · exact .inl hi
    · exact .inr (.inr ⟨c, c', d, h, h', rfl, hh, hj, rfl, hg⟩)
  | _ => exact .inl hi

/-! ### All steps -/

variable {name : String} {background : Bool} {acts : List Act}

lemma holds_begin (t : ProcessTable) (pid : Nat) (name : String) (background : Bool) :
    Holds t.handles.length pid (.begin t name background) { name, background } where
  handle := by simp [Scene.begin, ProcessTable.get?, ProcessTable.track, ProcessTable.add]
  phase := .unborn rfl rfl
  tracked _ := by simp [Scene.begin, ProcessTable.track]
  closed := nofun
  fits i a hi := by simp [Scene.begin] at hi

lemma Holds.runs (hh : Holds p pid s h) (hr : Runs (Step p pid) s acts s') :
    ∃ h', Leads p pid s h s' h' := by
  induction hr with
  | nil => exact ⟨h, hh, .refl ..⟩
  | snoc _ hs ih =>
    obtain ⟨g, hg⟩ := ih
    obtain ⟨h', hh'⟩ := hg.holds.step hs
    exact ⟨h', hh'.holds, hg.onward.trans hh'.onward⟩

/-- **What holds of every process**, from the moment its handle is tracked. -/
theorem exists_holds (hr : Runs (Step t.handles.length pid) (.begin t name background) acts s) :
    ∃ h, Holds t.handles.length pid s h := by
  obtain ⟨h, hh⟩ := (holds_begin t pid name background).runs hr
  exact ⟨h, hh.holds⟩

end ChainRunner.Supervision
