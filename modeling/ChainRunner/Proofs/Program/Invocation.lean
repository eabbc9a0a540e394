import ChainRunner.Program.Invocation
import ChainRunner.Proofs.Execution.Site

/-!
How an invocation goes on that nobody interrupts: its session evolves, the tasks and the processes
in any order, and now and then it looks whether its phase is done.
-/

namespace ChainRunner.Program.Invocation

open Relation Execution Files

/-- One step of an invocation. -/
inductive GoesOn : Invocation → Invocation → Prop
  /-- Once the program is over nothing moves any more. -/
  | moves {v : Invocation} {site : Site} (h : v.exit? = none) (hc : v.site.Carries site) :
    GoesOn v { v with site }
  | looks (v : Invocation) : GoesOn v v.progress
  | waits (v : Invocation) (now : Nat) :
    GoesOn v { v with site := { v.site with state := { v.site.state with now } } }

variable {v v' : Invocation}

lemma goesOn_passN (t n : Nat) : ReflTransGen GoesOn v (passN t n v) := by
  induction n generalizing v with
  | zero => exact .refl
  | succ n ih =>
    unfold passN
    split
    · rename_i u hu
      split
      · have hopen : v.exit? = none := by
          by_contra hover
          have hover : v.isOver = true := Option.isSome_iff_ne_none.2 hover
          simp [nextMoment?, hover] at hu
        exact .head (.moves hopen (v.site.carries_passTo u)) (.head (.looks _) ih)
      · exact .refl
    · exact .refl

/-- To let time pass is one way to go on. -/
theorem goesOn_passTo (t : Nat) : ReflTransGen GoesOn v (v.passTo t) :=
  (goesOn_passN t _).tail (.waits _ _)

/-- So is to begin. -/
theorem goesOn_ofManifest {d : Disk} {cwd : Place} {args : CommandLine.Arguments} {path : String}
    {m : Manifest} {binaries : Binaries} (hrun : args.dryRun = false)
    (hscan : Binaries.scan (d.view [])
      (m.settings.binDirs.map (Path.join (projectDir path cwd.path))) = .ok binaries) :
    ReflTransGen GoesOn (opening d cwd args path m binaries) (ofManifest d cwd args path m) := by
  have hbegin : ofManifest d cwd args path m =
      { opening d cwd args path m binaries with
        site := (opening d cwd args path m binaries).site.react }.progress := by
    simp [ofManifest, hscan, hrun]
  rw [hbegin]
  exact .head (.moves rfl (Site.carries_react _)) (.single (.looks _))

/-! ### Without a directory to watch -/

@[simp] lemma args_say (l : Level) : (v.say l).args = v.args := by
  unfold say
  split <;> rfl

@[simp] lemma site_say (l : Level) : (v.say l).site = v.site := by
  unfold say
  split <;> rfl

/-- The invocation watches nothing and was not interrupted. -/
structure Unwatched (v : Invocation) : Prop where
  watch : v.args.watch = none
  phase : (∃ t, v.phase = .running t) ∨ (∃ ps, v.phase = .lingering ps) ∨ ∃ n, v.phase = .ended n

lemma noteChanges_of_unwatched (h : v.Unwatched) : v.noteChanges =
    { v with site := { v.site with disk := { v.site.disk with touched := [] } } } := by
  unfold noteChanges
  split
  · rename_i t scope hphase
    rcases h.phase with ⟨t, ht⟩ | ⟨ps, ht⟩ | ⟨n, ht⟩ <;> simp [hphase] at ht
  · rfl

/-- A look changes the phase at most. -/
lemma Unwatched.progress (h : v.Unwatched) :
    v.progress.Unwatched ∧ v.site.Carries v.progress.site := by
  unfold Invocation.progress
  rw [noteChanges_of_unwatched h]
  dsimp only
  split
  · split
    · exact ⟨⟨h.watch, .inr (.inr ⟨_, rfl⟩)⟩, Site.carries_of_state _ rfl rfl⟩
    · simp only [h.watch]
      split
      · exact ⟨⟨h.watch, .inr (.inr ⟨_, rfl⟩)⟩, Site.carries_of_state _ rfl rfl⟩
      · exact ⟨⟨by simpa using h.watch, .inr (.inl ⟨_, rfl⟩)⟩,
          Site.carries_of_state _ (by simp) (by simp)⟩
    · exact ⟨⟨h.watch, h.phase⟩, Site.carries_of_state _ rfl rfl⟩
  · split
    · exact ⟨⟨h.watch, .inr (.inr ⟨_, rfl⟩)⟩, Site.carries_of_state _ rfl rfl⟩
    · exact ⟨⟨h.watch, h.phase⟩, Site.carries_of_state _ rfl rfl⟩
  · rename_i ps deadline hphase
    rcases h.phase with ⟨t, ht⟩ | ⟨ps, ht⟩ | ⟨n, ht⟩ <;> simp [hphase] at ht
  · exact ⟨⟨h.watch, h.phase⟩, Site.carries_of_state _ rfl rfl⟩

lemma Unwatched.goesOn (h : v.Unwatched) (hg : GoesOn v v') :
    v'.Unwatched ∧ v.site.Carries v'.site := by
  cases hg with
  | moves hopen hc => exact ⟨⟨h.watch, h.phase⟩, hc⟩
  | looks => exact h.progress
  | waits now =>
    exact ⟨⟨h.watch, h.phase⟩, rfl, .single (.passes v.site.state.ready now ..)⟩

lemma Unwatched.goesOn_all (h : v.Unwatched) (hg : ReflTransGen GoesOn v v') :
    v'.Unwatched ∧ v.site.Carries v'.site := by
  induction hg with
  | refl => exact ⟨h, .refl _⟩
  | tail _ hstep ih =>
    obtain ⟨h', hc⟩ := ih.1.goesOn hstep
    exact ⟨h', ih.2.trans hc⟩

end ChainRunner.Program.Invocation
