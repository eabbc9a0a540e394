import ChainRunner.Process.Supervision

/-!
What can become of a handle. Nothing that is done to it changes its name or mends a process that
has failed, and nothing changes how the process ended once it has.
-/

namespace ChainRunner

namespace Handle

structure Follows (h h' : Handle) : Prop where
  name : h'.name = h.name
  background : h'.background = h.background
  failed : h.failed = true → h'.failed = true
  ended : h.hasEnded = true → h'.endedAt = h.endedAt ∧ h'.code = h.code ∧ h'.failed = h.failed

namespace Follows

variable {h h' h'' : Handle}

theorem refl (h : Handle) : h.Follows h := ⟨rfl, rfl, id, fun _ => ⟨rfl, rfl, rfl⟩⟩

theorem hasEnded (hf : h.Follows h') (he : h.hasEnded = true) : h'.hasEnded = true := by
  rw [Handle.hasEnded, (hf.ended he).1]
  exact he

theorem trans (hf : h.Follows h') (hf' : h'.Follows h'') : h.Follows h'' where
  name := hf'.name.trans hf.name
  background := hf'.background.trans hf.background
  failed := hf'.failed ∘ hf.failed
  ended he :=
    have a := hf.ended he
    have b := hf'.ended (hf.hasEnded he)
    ⟨b.1.trans a.1, b.2.1.trans a.2.1, b.2.2.trans a.2.2⟩

end Follows

theorem follows_start (h : Handle) (now : Nat) (pid : Option Nat) : h.Follows (h.start now pid) :=
  ⟨rfl, rfl, id, fun _ => ⟨rfl, rfl, rfl⟩⟩

theorem follows_markStderr (h : Handle) : h.Follows h.markStderr := by
  unfold markStderr
  split
  · exact .refl h
  · rename_i hn
    exact ⟨rfl, rfl, fun _ => rfl, fun he => by simp [he] at hn⟩

theorem follows_finish (h : Handle) (now : Nat) (code : Option Int) (failed : Bool) :
    h.Follows (h.finish now code failed).1 := by
  unfold finish
  split
  · exact .refl h
  · rename_i hn
    exact ⟨rfl, rfl, fun hf => by simp [hf], fun he => absurd he hn⟩

@[simp] theorem hasEnded_finish (h : Handle) (now : Nat) (code : Option Int) (failed : Bool) :
    (h.finish now code failed).1.hasEnded = true := by
  unfold finish
  split
  · assumption
  · rfl

theorem follows_takeKill (h : Handle) : h.Follows h.takeKill.1 :=
  ⟨rfl, rfl, id, fun _ => ⟨rfl, rfl, rfl⟩⟩

theorem follows_terminate (h : Handle) (reachable : Nat → Bool) :
    h.Follows (h.terminate reachable).1 := by
  unfold terminate
  split
  · exact .refl h
  · split
    · exact .refl h
    · exact ⟨rfl, rfl, id, fun _ => ⟨rfl, rfl, rfl⟩⟩

theorem hasEnded_of_outcome? {h : Handle} {o : Option Int × Bool} (ho : h.outcome? = some o) :
    h.hasEnded = true := by
  unfold outcome? at ho
  split at ho
  · assumption
  · cases ho

end Handle

namespace Supervision

theorem follows_conclude (now : Nat) (s : Supervision) (h : Handle) :
    h.Follows (conclude now s h).2 := by
  unfold conclude
  split
  · split
    · exact .refl h
    · exact h.follows_finish ..
  · exact .refl h

theorem follows_step (now : Nat) (s : Supervision) (h : Handle) (n : News) :
    h.Follows (s.step now h n).2.1 := by
  cases n with
  | spawned pid => exact h.follows_start ..
  | notSpawned => exact h.follows_finish ..
  | wrote toErrors chunk =>
    cases toErrors
    · exact .refl h
    · simp only [step]
      split
      · exact .refl h
      · exact h.follows_markStderr
  | closed errors => cases errors <;> exact follows_conclude ..
  | exited code => exact follows_conclude ..

/-- Whatever news there is of a process, its handle only follows. -/
theorem follows_run (now : Nat) (s : Supervision) (h : Handle) (news : List News) :
    h.Follows (s.run now h news).2.1 := by
  unfold run
  generalize ([] : List Line) = lines
  induction news generalizing s h lines with
  | nil => exact .refl h
  | cons n news ih => exact (follows_step now s h n).trans (ih ..)

end Supervision

end ChainRunner
