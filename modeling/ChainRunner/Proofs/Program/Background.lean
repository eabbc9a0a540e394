import ChainRunner.Proofs.Program.Invocation
import ChainRunner.Proofs.Run.Rest

/-!
What an invocation without a directory to watch waits for before it is over.

It looks once which processes are live when its run has succeeded, and waits for these. A chain in
the background that has not completed by then may start more of them, and nothing waits for it.
-/

namespace ChainRunner.Program.Invocation

open Relation Execution Files Run

/-- The session of the invocation has made nothing but the one run. -/
structure Alone (m : Manifest) (v : Invocation) : Prop where
  unwatched : v.Unwatched
  setting : v.site.setting = { manifest := m }
  reachable : Reachable { manifest := m } v.site.state
  lone : Lone v.site.state.toCore

/-- The run has come to its end, so the next look ends the phase. -/
structure Succeeded (v : Invocation) : Prop where
  running : ∃ task, v.phase = .running task
  outcome : ∃ report, v.site.outcome? mainLabel = some (.run (.ok report))

section

variable {m : Manifest} {v v' u : Invocation}

lemma alone_opening {d : Disk} {cwd : Place} {args : CommandLine.Arguments} {path : String}
    {binaries : Binaries} (hw : args.watch = none) :
    Alone m (opening d cwd args path m binaries) where
  unwatched := ⟨hw, .inl ⟨_, rfl⟩⟩
  setting := rfl
  reachable := .asked .refl (.run ..)
  lone := lone_start ..

lemma Alone.evolves (h : Alone m v) (hg : ReflTransGen GoesOn v v') :
    ReflTransGen (Evolves { manifest := m }) v.site.state v'.site.state :=
  h.setting ▸ (h.unwatched.goesOn_all hg).2.evolves

lemma Alone.goesOn (h : Alone m v) (hg : ReflTransGen GoesOn v v') : Alone m v' where
  unwatched := (h.unwatched.goesOn_all hg).1
  setting := (h.unwatched.goesOn_all hg).2.setting.trans h.setting
  reachable := h.reachable.evolves (h.evolves hg)
  lone := h.lone.evolving (h.evolves hg)

lemma Alone.root (h : Alone m u) (hu : u.Succeeded) :
    ∃ report, Deed.completed 0 report ∈ u.site.state.history := by
  obtain ⟨report, hr⟩ := hu.outcome
  obtain ⟨earlier, later, hout, -⟩ := List.lookup_eq_some_iff.1 hr
  have hin : (mainLabel, Outcome.run (.ok report)) ∈ u.site.state.outcomes := by simp [hout]
  exact ⟨report, h.lone.answered hin⟩

/-- The look at a run that has succeeded. -/
lemma progress_of_succeeded (h : u.Unwatched) (hu : u.Succeeded) :
    u.progress.site.state = u.site.state ∧
      (u.progress.phase = .lingering u.site.state.table.live ∨
        (∃ n, u.progress.phase = .ended n) ∧ u.site.state.table.live = []) := by
  obtain ⟨task, hphase⟩ := hu.running
  obtain ⟨report, hr⟩ := hu.outcome
  have hr' : Site.outcome? { u.site with disk := { u.site.disk with touched := [] } } mainLabel =
      some (.run (.ok report)) := hr
  unfold progress
  rw [noteChanges_of_unwatched h]
  simp only [hphase, hr', h.watch]
  split
  · rename_i hnone
    exact ⟨rfl, .inr ⟨⟨_, rfl⟩, List.isEmpty_iff.1 hnone⟩⟩
  · exact ⟨by simp, .inl rfl⟩

/-- It waits for the processes `ps`, or it has seen that they have ended. -/
def Awaits (ps : List ProcessId) (v : Invocation) : Prop :=
  v.phase = .lingering ps ∨
    (∃ n, v.phase = .ended n) ∧ ∀ p ∈ ps, v.site.state.table.hasEnded p = true

lemma awaits_progress (h : u.Unwatched) (hu : u.Succeeded) :
    Awaits u.site.state.table.live u.progress := by
  obtain ⟨-, hphase | ⟨hphase, hnone⟩⟩ := progress_of_succeeded h hu
  · exact .inl hphase
  · exact .inr ⟨hphase, by simp [hnone]⟩

lemma Awaits.goesOn {ps : List ProcessId} (h : Awaits ps v) (hw : v.Unwatched)
    (hg : GoesOn v v') : Awaits ps v' := by
  cases hg with
  | moves hopen hc =>
    rcases h with h | ⟨⟨n, h⟩, -⟩
    · exact .inl h
    · simp [exit?, h] at hopen
  | waits now => exact h
  | looks =>
    unfold progress
    rw [noteChanges_of_unwatched hw]
    rcases h with h | ⟨⟨n, h⟩, hended⟩
    · simp only [h]
      split
      · rename_i hall
        exact .inr ⟨⟨_, rfl⟩, List.all_eq_true.1 hall⟩
      · exact .inl rfl
    · simp only [h]
      exact .inr ⟨⟨n, rfl⟩, hended⟩

lemma awaits_of_succeeded (h : Alone m u) (hu : u.Succeeded)
    (hg : ReflTransGen GoesOn u.progress v) : Awaits u.site.state.table.live v := by
  induction hg with
  | refl => exact awaits_progress h.unwatched hu
  | tail hg hstep ih =>
    exact ih.goesOn ((h.goesOn (.single (.looks u))).goesOn hg).unwatched hstep

/-- Whatever was up at the look has ended when the program is over. -/
lemma ended_of_succeeded (h : Alone m u) (hu : u.Succeeded) (hg : ReflTransGen GoesOn u.progress v)
    {n : Nat} (hv : v.exit? = some n) {p : ProcessId}
    (hp : p < u.site.state.table.handles.length) : .ended p ∈ v.site.state.history := by
  have hall : ReflTransGen GoesOn u v := .head (.looks u) hg
  have hgrows := history_of_evolving (h.evolves hall)
  have ha := h.reachable.accounted
  have hav := (h.goesOn hall).reachable.accounted
  by_cases he : u.site.state.table.hasEnded p = true
  · exact hgrows.subset (ha.ended.2 ⟨hp, he⟩)
  · have hlive := ha.live hp (Bool.eq_false_iff.2 he)
    obtain ⟨r, k, i, name, hx⟩ := ha.started.1 hp
    have hlt := hav.started.2 ⟨r, k, i, name, hgrows.subset hx⟩
    rcases awaits_of_succeeded h hu hg with hphase | ⟨-, hended⟩
    · simp [exit?, hphase] at hv
    · exact hav.ended.2 ⟨hlt, hended p hlive⟩

/-- If the chains in the background have completed by the look, nothing is left when the program
is over. -/
lemma exhausted_of_completed (h : Alone m u) (hu : u.Succeeded)
    (ha : Answered u.site.state.history) (hg : ReflTransGen GoesOn u.progress v) {n : Nat}
    (hv : v.exit? = some n) : Exhausted m v.site.state.history := by
  have hall : ReflTransGen GoesOn u v := .head (.looks u) hg
  have hrest := ha.atRest h.lone h.reachable.orderly h.reachable.concluded
  have hc := changes_of_evolving (h.evolves hall)
  have hgrows := history_of_evolving (h.evolves hall)
  have hv' := h.goesOn hall
  have hacc := hv'.reachable.accounted
  have hav : Answered v.site.state.history :=
    { root := ha.root.imp fun report hin => hgrows.subset hin
      background := fun hx =>
        (ha.background (hrest.started hc hx)).imp fun report hin => hgrows.subset hin }
  refine hav.exhausted hv'.lone hv'.reachable.orderly hacc hv'.reachable.concluded fun p hp => ?_
  obtain ⟨r, k, i, name, hx⟩ := hacc.started.1 hp
  have hlt := h.reachable.accounted.started.2 ⟨r, k, i, name, hrest.started hc hx⟩
  exact (hacc.ended.1 (ended_of_succeeded h hu hg hv hlt)).2

/-- The look at processes that have all ended. -/
lemma progress_of_ended (h : v.Unwatched) {ps : List ProcessId} (hphase : v.phase = .lingering ps)
    (hps : ∀ p ∈ ps, v.site.state.table.hasEnded p = true) :
    (∃ n, v.progress.exit? = some n) ∧ v.progress.site.state = v.site.state := by
  unfold progress
  rw [noteChanges_of_unwatched h]
  simp only [hphase, List.all_eq_true.2 hps, if_true]
  exact ⟨⟨_, rfl⟩, rfl⟩

/-- The program may be over before any run has gone on. -/
lemma exists_over (h : Alone m u) (hu : u.Succeeded) :
    ∃ v n, ReflTransGen GoesOn u.progress v ∧ v.exit? = some n ∧
      ∀ t report, .completed t report ∈ v.site.state.history →
        Deed.completed t report ∈ u.site.state.history := by
  obtain ⟨hstate, hphase | ⟨⟨n, hphase⟩, -⟩⟩ := progress_of_succeeded h.unwatched hu
  · obtain ⟨st, hst, hended, hsame⟩ : ∃ st,
        ReflTransGen (Evolves u.progress.site.setting) u.progress.site.state st ∧
          (∀ p ∈ u.site.state.table.live, st.table.hasEnded p = true) ∧
          ∀ t report, Deed.completed t report ∈ st.history →
            Deed.completed t report ∈ u.progress.site.state.history := exists_ended _
    have hmoves : GoesOn u.progress
        { u.progress with site := { u.progress.site with state := st } } :=
      .moves (by simp [exit?, hphase]) ⟨rfl, hst⟩
    have hun := (h.goesOn (.head (.looks u) (.single hmoves))).unwatched
    obtain ⟨⟨n, hn⟩, hsite⟩ := progress_of_ended hun hphase hended
    refine ⟨_, n, .head hmoves (.single (.looks _)), hn, fun t report hin => ?_⟩
    rw [hsite] at hin
    exact hstate ▸ hsame t report hin
  · exact ⟨u.progress, n, .refl, by simp [exit?, hphase], fun t report hin => hstate ▸ hin⟩

/-- **Waiting for the background**: when the run has succeeded, whatever has been started by then
has ended when the program is over. Nothing at all is left to do by then, in whichever order the
tasks act and the processes end, exactly if the chains that were started in the background have
already completed. -/
theorem exhausted_at_exit_iff {d : Disk} {cwd : Place} {args : CommandLine.Arguments}
    {path : String} {binaries : Binaries} (hw : args.watch = none)
    (hg : ReflTransGen GoesOn (opening d cwd args path m binaries) u) (hu : u.Succeeded) :
    (∀ v n, ReflTransGen GoesOn u.progress v → v.exit? = some n → ∀ r k p i name,
      .started r k (.process p i name) ∈ u.site.state.history →
        .ended p ∈ v.site.state.history) ∧
    ((∀ v n, ReflTransGen GoesOn u.progress v → v.exit? = some n →
        Exhausted m v.site.state.history) ↔
      ∀ r k t target name, .started r k (.chain t target .background name) ∈ u.site.state.history →
        ∃ report, Deed.completed t report ∈ u.site.state.history) := by
  have h : Alone m u := (alone_opening hw).goesOn hg
  refine ⟨fun v n hv hn r k p i name hx => ?_, fun hleft r k t target name hx => ?_,
    fun hbg v n hv hn => ?_⟩
  · exact ended_of_succeeded h hu hv hn (h.reachable.accounted.started.2 ⟨r, k, i, name, hx⟩)
  · obtain ⟨v, n, hv, hn, hsame⟩ := exists_over h hu
    have hgrows := history_of_evolving (h.evolves (.head (.looks u) hv))
    obtain ⟨expr, vars, -, hf⟩ := (hleft v n hv hn).chains (hgrows.subset hx)
    obtain ⟨report, hc⟩ := hf.finished.completed
    exact ⟨report, hsame t report hc⟩
  · exact exhausted_of_completed h hu ⟨h.root hu, fun hx => hbg _ _ _ _ _ hx⟩ hv hn

end

/-- The run of `+bg` has succeeded before the chain has got its turn. -/
def unheard : Invocation :=
  let v := opening {} [] { chain := ["+bg"] } "" Setting.paused.manifest .empty
  { v with site := { v.site with state := v.site.state.actAll .paused [0, 0, 0] } }

lemma goesOn_unheard : ReflTransGen GoesOn
    (opening {} [] { chain := ["+bg"] } "" Setting.paused.manifest .empty) unheard :=
  .single (.moves rfl ⟨rfl, evolves_actAll _⟩)

theorem not_exhausted_unheard : ¬∀ v n, ReflTransGen GoesOn unheard.progress v →
    v.exit? = some n → Exhausted Setting.paused.manifest v.site.state.history := by
  have hH : unheard.site.state.history =
      [.opened 0 "+bg" .empty true, .opened 1 "a - b" .empty false,
        .started 0 1 (.chain 1 "bg" .background "bg"), .completed 0 ⟨"+bg", false, []⟩] := rfl
  have hu : unheard.Succeeded := ⟨⟨0, rfl⟩, ⟨⟨"+bg", false, []⟩, rfl⟩⟩
  have hx : .started 0 1 (.chain 1 "bg" .background "bg") ∈ unheard.site.state.history := by
    simp [hH]
  intro hleft
  obtain ⟨report, hc⟩ := (exhausted_at_exit_iff rfl goesOn_unheard hu).2.1 hleft _ _ _ _ _ hx
  simp [hH] at hc

end ChainRunner.Program.Invocation
