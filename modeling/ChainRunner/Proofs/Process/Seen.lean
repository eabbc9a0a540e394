import ChainRunner.Proofs.Process.Table

/-!
What is seen of a process by those who wait for it, and how the processes of a table grow old.
-/

namespace ChainRunner

namespace Handle

/-- What the foreground sees of a process. -/
def seen (h : Handle) : Bool × Bool × Option Int × Bool :=
  (h.background, h.hasEnded, h.code, h.failed)

variable {h h' : Handle} {now now' : Nat} {code : Option Int} {failed : Bool}

lemma hasEnded_of_seen (hs : h.seen = h'.seen) : h.hasEnded = h'.hasEnded :=
  congrArg (fun x => x.2.1) hs

@[simp] lemma seen_terminate (reachable : Nat → Bool) :
    (h.terminate reachable).1.seen = h.seen := by
  unfold terminate
  split
  · rfl
  · split <;> rfl

lemma seen_markStderr (hs : h.seen = h'.seen) : h.markStderr.seen = h'.markStderr.seen := by
  simp only [seen, Prod.mk.injEq] at hs
  obtain ⟨hb, he, hc, hf⟩ := hs
  unfold markStderr
  rw [hb, he]
  split
  · simp [seen, hb, he, hc, hf]
  · have he' : h.endedAt.isSome = h'.endedAt.isSome := he
    simp [seen, hasEnded, he', hc]

lemma seen_finish (hs : h.seen = h'.seen) :
    (h.finish now code failed).1.seen = (h'.finish now' code failed).1.seen := by
  have hall := hs
  simp only [seen, Prod.mk.injEq] at hs
  obtain ⟨hb, he, hc, hf⟩ := hs
  unfold finish
  rw [he]
  split
  · exact hall
  · simp [seen, hasEnded, hb, hf]

lemma outcome?_of_seen (hs : h.seen = h'.seen) : h.outcome? = h'.outcome? := by
  simp only [seen, Prod.mk.injEq] at hs
  obtain ⟨hb, he, hc, hf⟩ := hs
  rw [outcome?, outcome?, he, hc, hf]

end Handle

namespace ProcessTable

variable {t t' : ProcessTable} {p p' : Nat}

/-- The processes are the same, but some may have ended. -/
structure Ages (t t' : ProcessTable) : Prop where
  length : t'.handles.length = t.handles.length
  tracked : t'.tracked = t.tracked
  hasEnded : ∀ p, t.hasEnded p = true → t'.hasEnded p = true

lemma hasEnded_of_seen (hs : (t.get? p).map Handle.seen = (t'.get? p').map Handle.seen) :
    t.hasEnded p = t'.hasEnded p' := by
  have hof (t : ProcessTable) (p : Nat) :
      t.hasEnded p = (((t.get? p).map Handle.seen).map fun x => x.2.1).getD true := by
    unfold ProcessTable.hasEnded
    cases t.get? p <;> rfl
  rw [hof, hof, hs]

lemma Ages.filter_live (h : t.Ages t') (f : Nat → Bool) :
    t'.live.filter f = (t.live.filter f).filter (!t'.hasEnded ·) := by
  simp only [live, List.filter_filter, h.tracked]
  refine List.filter_congr fun q _ => ?_
  rcases hq : t.hasEnded q with _ | _
  · simp [Bool.and_comm]
  · simp [h.hasEnded q hq]

lemma Ages.terminate (t : ProcessTable) (p : Nat) (reachable : Nat → Bool) :
    t.Ages (t.terminate reachable p) := ⟨by simp, rfl, fun q hq => by simpa using hq⟩

lemma Ages.update {h : Handle} (hh : h.hasEnded = true) : t.Ages (t.update p fun _ => h) where
  length := by simp
  tracked := rfl
  hasEnded q hq := by
    unfold ProcessTable.hasEnded at hq ⊢
    rw [get?_update]
    by_cases heq : p = q
    · rw [if_pos heq]
      cases t.get? q <;> simp [hh]
    · rwa [if_neg heq]

end ProcessTable

end ChainRunner
