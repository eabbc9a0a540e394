import ChainRunner.Proofs.Process.Scene

/-!
No call to stop a process is lost while the process is there.

The handle is tracked before there is a process, so a call may find a process whose id is not known
yet, or none at all. Then a kill is requested, and the request waits in the handle.
-/

namespace ChainRunner.Supervision

open Handle

variable {p pid i q : Nat} {s s' s₀ : Scene} {t : ProcessTable} {name : String}
  {background : Bool} {acts more : List Act} {a : Act} {b : Ask} {h h' : Handle} {c : Child}
  {st : Stage} {k : Bool}

/-! ### A call comes through -/

inductive Ask.IsThrough : Ask → Prop
  | unlisted : IsThrough .unlisted
  | answered (a : Answer) : IsThrough (.asks (.answered a))

/-- At most so many accesses are still to come. -/
def Ask.left : Ask → Nat
  | .listing => 5
  | .asks .called => 4
  | .asks .passed => 3
  | .asks (.aimed _) => 2
  | .asks .missed => 1
  | .unlisted | .asks (.answered _) => 0

lemma left_lt {c c' : Interrupt} {d : Interrupt.Access} (hg : c.Goes h d h' c') :
    (Ask.asks c').left < (Ask.asks c).left := by
  cases hg <;> simp [Ask.left]

/-- The act is one of the call `i`. -/
def Act.IsOf (i : Nat) (a : Act) : Prop := a = .lists i ∨ ∃ d, a = .goes i d

lemma Holds.goesOn (hh : Holds p pid s h) (hi : s.calls[i]? = some b) (hb : ¬ b.IsThrough) :
    ∃ a s' b', a.IsOf i ∧ Step p pid s a s' ∧ s'.calls[i]? = some b' ∧ b'.left < b.left := by
  have hlt := (List.getElem?_eq_some_iff.1 hi).1
  cases b with
  | listing =>
    refine ⟨_, _, _, .inl rfl, .lists hi, List.getElem?_set_self hlt, ?_⟩
    split <;> decide
  | unlisted => exact absurd .unlisted hb
  | asks c =>
    rcases Interrupt.answered_or_goes h c true with ⟨a, rfl⟩ | ⟨d, h', c', hg, hd⟩
    · exact absurd (.answered a) hb
    · exact ⟨_, _, _, .inr ⟨d, rfl⟩, .goes hh.handle hi hg fun r hr _ => hd pid r hr,
        List.getElem?_set_self hlt, left_lt hg⟩

/-- A call comes through by its own accesses, whatever the others do. -/
lemma Holds.comesThrough (hh : Holds p pid s h) (hi : s.calls[i]? = some b) :
    ∃ more s' b', Runs (Step p pid) s more s' ∧ (∀ a ∈ more, a.IsOf i) ∧
      s'.calls[i]? = some b' ∧ b'.IsThrough := by
  induction hn : b.left using Nat.strongRecOn generalizing s h b with
  | _ n ih =>
    by_cases hb : b.IsThrough
    · exact ⟨[], s, b, .nil, nofun, hi, hb⟩
    · obtain ⟨a, s₁, b₁, ha, hs, hi₁, hlt⟩ := hh.goesOn hi hb
      obtain ⟨h₁, hl⟩ := hh.step hs
      obtain ⟨more, s', b', hr, hmore, hi', hb'⟩ := ih _ (hn ▸ hlt) hl.holds hi₁ rfl
      exact ⟨a :: more, s', b', (Runs.one hs).trans hr, List.forall_mem_cons.2 ⟨ha, hmore⟩,
        hi', hb'⟩

/-! ### What a call has come to -/

/-- What a call that is through has brought about. -/
inductive Kept (p pid : Nat) (s₀ : Scene) (acts : List Act) (s : Scene) (h : Handle) (i : Nat) :
    Ask → Prop
  /-- The process was there when it was signalled. -/
  | signalled (hd : DoneWhile (Step p pid) s₀ (·.child.IsUp) (.goes i (.signals pid true)) acts) :
    Kept p pid s₀ acts s h i (.asks (.answered (.signalled pid)))
  /-- The request waits, or the process was killed. -/
  | requested (hk : h.killRequested ∨ s.killed) :
    Kept p pid s₀ acts s h i (.asks (.answered .requested))
  /-- There is no process and will be none. -/
  | skipped (hc : s.child = .stillborn) (he : h.hasEnded) (hf : h.failed) :
    Kept p pid s₀ acts s h i (.asks (.answered .skipped))
  | unlisted (hc : s.child = .stillborn) (he : h.hasEnded) (hf : h.failed) :
    Kept p pid s₀ acts s h i .unlisted

/-- A process whose id is known is there until its status is taken. -/
lemma Phase.isUp (hphase : Phase pid h c st k) (hp : h.pid = some q) (hc : c ≠ .reaped) :
    c.IsUp := by
  cases hphase with
  | unborn hn | failing hn | failed hn => simp [hn] at hp
  | unmarked hup | running hup => exact hup
  | draining | finished => exact absurd rfl hc

lemma Phase.failed_of_ended (hphase : Phase pid h c st k) (he : h.hasEnded)
    (hc : c ≠ .reaped) : c = .stillborn ∧ h.failed := by
  cases hphase with
  | failed _ _ hf => exact ⟨rfl, hf⟩
  | finished => exact absurd rfl hc
  | unborn _ hn | failing _ hn | unmarked _ _ hn | running _ _ hn | draining _ hn =>
    simp [hn] at he

lemma Step.reaped (hs : Step p pid s a s') (hc : s.child = .reaped) : s'.child = .reaped := by
  cases hs with
  | spawns hc' | fails hc' | exits hc' => simp [hc] at hc'
  | reaps => rfl
  | _ => exact hc

lemma signalled_up (h₀ : s₀.calls = []) (hh₀ : Holds p pid s₀ h)
    (hr : Runs (Step p pid) s₀ acts s) (hc : s.child ≠ .reaped)
    (hi : s.calls[i]? = some (.asks (.answered (.signalled q)))) :
    q = pid ∧ DoneWhile (Step p pid) s₀ (·.child.IsUp) (.goes i (.signals pid true)) acts := by
  induction hr with
  | nil => simp [h₀] at hi
  | @snoc acts s a s' hr hs ih =>
    have hc : s.child ≠ .reaped := fun hreaped => hc (hs.reaped hreaped)
    rcases hs.call hi with hold | hnew | ⟨c, c', d, g, g', rfl, hg, hold, hc', hgo⟩
    · exact (ih hc hold).imp_right (·.concat a)
    · cases hnew
    · obtain rfl := Ask.asks.inj hc'
      cases hgo
      obtain ⟨h', hl⟩ := hh₀.runs hr
      obtain ⟨rfl, hp⟩ : q = pid ∧ h'.pid = some pid := hl.holds.fits i _ hold
      exact ⟨rfl, hr.doneWhile (hl.holds.phase.isUp hp hc) _⟩

lemma kept_of_isThrough (h₀ : s₀.calls = []) (hh₀ : Holds p pid s₀ h')
    (hr : Runs (Step p pid) s₀ acts s) (hh : Holds p pid s h) (hc : s.child ≠ .reaped)
    (hi : s.calls[i]? = some b) (hb : b.IsThrough) : Kept p pid s₀ acts s h i b := by
  have hfits := hh.fits i b hi
  cases hb with
  | unlisted =>
    obtain ⟨hborn, hf⟩ := hh.phase.failed_of_ended hfits hc
    exact .unlisted hborn hfits hf
  | answered answer =>
    cases answer with
    | skipped =>
      obtain ⟨hborn, hf⟩ := hh.phase.failed_of_ended hfits hc
      exact .skipped hborn hfits hf
    | signalled q =>
      obtain ⟨rfl, hd⟩ := signalled_up h₀ hh₀ hr hc hi
      exact .signalled hd
    | requested => exact .requested hfits

/-! ### What is left to the one who supervises -/

/-- Whether the process is up is told, and nothing is left to be killed. -/
def IsAtRest (p pid : Nat) (s : Scene) : Prop :=
  ∀ a s', Step p pid s a s' → a ≠ .marks ∧ a ≠ .givesUp ∧ a ≠ .kills

lemma Holds.killed_of_atRest (hh : Holds p pid s h) (hrest : IsAtRest p pid s)
    (hc : s.child.IsUp) (hk : h.killRequested) : s.killed := by
  rcases (hh.phase.of_isUp hc).2 with ⟨hw, -⟩ | hw
  · exact absurd rfl (hrest _ _ (.marks hh.handle hc hw)).1
  · by_contra hnot
    exact absurd rfl (hrest _ _ (.kills hh.handle hw (Bool.eq_false_iff.2 hnot) hk)).2.2

lemma Holds.failed_of_atRest (hh : Holds p pid s h) (hrest : IsAtRest p pid s)
    (hc : s.child = .stillborn) : h.hasEnded ∧ h.failed := by
  have hphase := hh.phase
  rw [hc] at hphase
  rcases hphase.of_stillborn with ⟨hw, -⟩ | hend
  · exact absurd rfl (hrest _ _ (.givesUp hh.handle hc hw)).2.1
  · exact hend

/-- Where a process may stand that was killed before it left. -/
inductive Dying (h : Handle) : Child → Stage → Prop
  | alive : Dying h .alive .running
  | gone : Dying h (.gone none) .running
  | draining : Dying h .reaped (.exited none)
  | finished (hc : h.code = none) (hf : h.failed) : Dying h .reaped .done

lemma Dying.not_unborn : ¬ Dying h .unborn st := nofun

lemma Dying.not_starting : ¬ Dying h c .starting := nofun

lemma Dying.leaves (hd : Dying h .alive st) : Dying h (.gone none) st := by
  cases hd
  exact .gone

lemma Dying.code_of_gone {code : Option Int} (hd : Dying h (.gone code) st) : code = none := by
  cases hd
  rfl

lemma Dying.of_exited {code : Option Int} (hd : Dying h c (.exited code)) :
    c = .reaped ∧ code = none := by
  cases hd
  exact ⟨rfl, rfl⟩

/-- The handle counts only when it is finished. -/
lemma Dying.congr (hd : Dying h c st) (ho : st = .done → h'.code = h.code ∧ h'.failed = h.failed) :
    Dying h' c st := by
  cases hd with
  | alive => exact .alive
  | gone => exact .gone
  | draining => exact .draining
  | finished hc hf => exact .finished ((ho rfl).1.trans hc) ((ho rfl).2.trans hf)

/-- The process was killed before it left. -/
structure IsDying (s : Scene) (h : Handle) : Prop where
  killed : s.killed
  dying : Dying h s.child s.watch.stage

lemma IsDying.step (hh : Holds p pid s h) (hd : IsDying s h) (hs : Step p pid s a s') :
    ∃ h', s'.table.get? p = some h' ∧ IsDying s' h' := by
  obtain ⟨hkilled, hdying⟩ := hd
  have hsame {g : Handle} (hg : s.table.get? p = some g) : g = h :=
    Option.some.inj (hg.symm.trans hh.handle)
  cases hs with
  | spawns hc | fails hc => exact absurd (hc ▸ hdying) Dying.not_unborn
  | marks _ _ hw | givesUp _ _ hw => exact absurd (hw ▸ hdying) Dying.not_starting
  | @wrote g errors chunk hg hw =>
    refine ⟨_, get?_put hh.handle _, hkilled, ?_⟩
    change Dying _ s.child (s.watch.step s.now g (.wrote errors chunk)).1.stage
    rw [stage_wrote]
    exact hdying.congr fun hdone => absurd hdone hw.2
  | @closes errors =>
    refine ⟨h, hh.handle, hkilled, ?_⟩
    change Dying h s.child (s.watch.shut errors).stage
    rw [stage_shut]
    exact hdying
  | exits hc hk =>
    -- a process that was killed leaves without a status
    obtain rfl := hk hkilled
    exact ⟨h, hh.handle, hkilled, (hc ▸ hdying : Dying h .alive _).leaves⟩
  | @reaps code hc _ =>
    obtain rfl : code = none := (hc ▸ hdying : Dying h (.gone code) _).code_of_gone
    exact ⟨h, hh.handle, hkilled, .draining⟩
  | kills _ _ hk => simp [hkilled] at hk
  | @concludes g code hg hw ho =>
    obtain rfl := hsame hg
    obtain ⟨hc, rfl⟩ := (hw ▸ hdying : Dying g _ (.exited code)).of_exited
    have he : g.hasEnded = false := (hw ▸ hh.phase).of_exited.2.2
    rw [conclude_closed hw ho]
    refine ⟨_, get?_put hh.handle _, hkilled, ?_⟩
    change Dying _ s.child .done
    rw [hc]
    exact .finished (by simp [Handle.finish, he]) (by simp [Handle.finish, he])
  | goes hg _ hgo =>
    obtain rfl := hsame hg
    refine ⟨_, get?_put hh.handle _, hkilled, hdying.congr fun _ => ?_⟩
    rcases hgo.eq_or with rfl | rfl <;> exact ⟨rfl, rfl⟩
  | elsewhere ht => exact ⟨h, (ht.spares hh.handle).1, hkilled, hdying⟩
  | calls | lists | passes => exact ⟨h, hh.handle, hkilled, hdying⟩

lemma IsDying.runs (hh : Holds p pid s h) (hd : IsDying s h) (hr : Runs (Step p pid) s more s') :
    ∃ h', Holds p pid s' h' ∧ IsDying s' h' := by
  induction hr with
  | nil => exact ⟨h, hh, hd⟩
  | snoc _ hs ih =>
    obtain ⟨g, hg, hd⟩ := ih
    obtain ⟨h', hl⟩ := hg.step hs
    obtain ⟨g', hg', hd'⟩ := hd.step hg hs
    obtain rfl := Option.some.inj (hg'.symm.trans hl.holds.handle)
    exact ⟨g', hl.holds, hd'⟩

/-- A process that is killed before it has left ends without a code, and fails. -/
lemma Holds.failed_of_killed (hh : Holds p pid s h) (hc : s.child = .alive) (hk : s.killed)
    (hr : Runs (Step p pid) s more s') :
    ∃ h', s'.table.get? p = some h' ∧ (h'.hasEnded → h'.code = none ∧ h'.failed) := by
  have hw : s.watch.stage = .running := by
    rcases (hh.phase.of_isUp (hc ▸ .alive)).2 with ⟨-, hnot⟩ | hw
    · simp [hk] at hnot
    · exact hw
  have hd : IsDying s h := ⟨hk, by rw [hc, hw]; exact .alive⟩
  obtain ⟨h', hh', -, hdying⟩ := hd.runs hh hr
  refine ⟨h', hh'.handle, fun he => ?_⟩
  have hphase := hh'.phase
  generalize s'.child = c, s'.watch.stage = st at hdying hphase
  cases hdying with
  | alive | gone => simp [hphase.of_running.2.2] at he
  | draining => simp [hphase.of_exited.2.2] at he
  | finished hcode hf => exact ⟨hcode, hf⟩

/-! ### Nothing is lost -/

/-- **No call to stop a process is lost while the process is there**, whenever it comes after the
handle is tracked. Every call comes through. Then the process was signalled when it was there, or a
kill is requested, or there is no process and its handle has failed. A request stays until the
process is killed. Whoever supervises the process has something to do as long as it waits, and as
long as the handle does not know that there is no process. A process killed before it has left
fails. -/
theorem stop_not_lost
    (hr : Runs (Step t.handles.length pid) (.begin t name background) acts s) :
    ∃ h, s.table.get? t.handles.length = some h ∧
      (∀ (i : Nat) b, s.calls[i]? = some b →
        ∃ more s' b', Runs (Step t.handles.length pid) s more s' ∧ (∀ a ∈ more, a.IsOf i) ∧
          s'.calls[i]? = some b' ∧ b'.IsThrough) ∧
      (s.child ≠ .reaped → ∀ (i : Nat) b, s.calls[i]? = some b → b.IsThrough →
        Kept t.handles.length pid (.begin t name background) acts s h i b) ∧
      (h.killRequested ∨ s.killed → ∀ more s', Runs (Step t.handles.length pid) s more s' →
        ∃ h', s'.table.get? t.handles.length = some h' ∧ (h'.killRequested ∨ s'.killed)) ∧
      (IsAtRest t.handles.length pid s →
        (s.child.IsUp → h.killRequested → s.killed) ∧
        (s.child = .stillborn → h.hasEnded ∧ h.failed)) ∧
      (s.child = .alive → s.killed → ∀ more s', Runs (Step t.handles.length pid) s more s' →
        ∃ h', s'.table.get? t.handles.length = some h' ∧
          (h'.hasEnded → h'.code = none ∧ h'.failed)) := by
  obtain ⟨h, hh⟩ := exists_holds hr
  refine ⟨h, hh.handle, fun i b hi => hh.comesThrough hi, fun hc i b hi hb => ?_,
    fun hk more s' hmore => ?_, fun hrest =>
    ⟨hh.killed_of_atRest hrest, hh.failed_of_atRest hrest⟩,
    fun hc hk more s' hmore => hh.failed_of_killed hc hk hmore⟩
  · exact kept_of_isThrough rfl (holds_begin t pid name background) hr hh hc hi hb
  · obtain ⟨h', hl⟩ := hh.runs hmore
    exact ⟨h', hl.holds.handle, hl.onward.request hk⟩

/-- A call asks before there is a process, and reads its id before the handle knows it. -/
theorem stop_not_lost_early :
    ∃ acts s h, Runs (Step 0 7) (.begin {} "p" false) (acts ++ [.kills]) s ∧ s.child = .alive ∧
      Kept 0 7 (.begin {} "p" false) (acts ++ [.kills]) s h 0 (.asks (.answered .requested)) ∧
      ∀ more s', Runs (Step 0 7) s more s' → ∃ h', s'.table.get? 0 = some h' ∧
        (h'.hasEnded → h'.code = none ∧ h'.failed) := by
  let p : Handle := { name := "p", background := false }
  let first : Scene := .begin {} "p" false
  let missed : Scene := { first with child := .alive, calls := [.asks .missed] }
  let marked : Scene := missed.hear 0 p (.spawned 7)
  let asked : Handle := { p.start 0 (some 7) with killRequested := true }
  let requested : Scene :=
    { marked with
      table := marked.table.update 0 fun _ => asked, calls := [.asks (.answered .requested)] }
  have hmissed : Runs (Step 0 7) first
      [.calls false, .goes 0 .asks, .spawns, .goes 0 .reads] missed :=
    (((Runs.nil.snoc .calls).snoc
      (t := { first with calls := [.asks .called] })
      (.goes (i := 0) (h := p) rfl rfl (.passes nofun) nofun)).snoc
      (t := { first with calls := [.asks .passed] }) (.spawns rfl)).snoc
      (t := { first with child := .alive, calls := [.asks .passed] })
      (.goes (i := 0) (h := p) rfl rfl (.misses rfl) nofun)
  have hrun : Runs (Step 0 7) first
      ([.calls false, .goes 0 .asks, .spawns, .goes 0 .reads, .marks, .goes 0 .requests] ++
        [.kills])
      { requested with
        table := requested.table.update 0 fun _ => asked.takeKill.1, killed := true } :=
    ((hmissed.snoc (.marks rfl .alive rfl)).snoc (t := marked)
      (.goes (i := 0) (h := p.start 0 (some 7)) rfl rfl .requests nofun)).snoc (t := requested)
      (.kills rfl rfl rfl rfl)
  obtain ⟨h, -, -, hkept, -, -, hkilled⟩ := stop_not_lost (t := {}) hrun
  exact ⟨_, _, h, hrun, rfl, hkept nofun 0 _ rfl (.answered _), hkilled rfl rfl⟩

end ChainRunner.Supervision
