import Mathlib.Logic.Relation
import ChainRunner.Process.Handle

/-!
Asking a process to stop, access by access.

The state of a handle is locked for one access at a time, so the accesses of other calls, the end of
the process included, may come between those of one call.
-/

namespace ChainRunner.Handle

/-- What came of asking. -/
inductive Answer
  /-- The process was over. -/
  | skipped
  | signalled (pid : Nat)
  /-- There was nobody to signal, so a kill was requested. -/
  | requested
deriving DecidableEq, Repr

/-- How far a call has come. -/
inductive Interrupt
  | called
  /-- The process was not over. -/
  | passed
  | aimed (pid : Nat)
  | missed
  | answered (a : Answer)
deriving DecidableEq, Repr

namespace Interrupt

/-- What a call does at once. -/
inductive Access
  /-- Is the process over? -/
  | asks
  /-- Which process id does it have? -/
  | reads
  /-- The signal to a process id, and whether a process was there to get it. -/
  | signals (pid : Nat) (reached : Bool)
  | requests
deriving DecidableEq, Repr

variable {h h' : Handle} {c c' : Interrupt} {a : Access} {pid : Nat}

/-- The next access of a call, and what it makes of the handle and of the call. -/
inductive Goes (h : Handle) : Interrupt → Access → Handle → Interrupt → Prop
  | skips (he : h.hasEnded) : Goes h .called .asks h (.answered .skipped)
  | passes (he : ¬ h.hasEnded) : Goes h .called .asks h .passed
  | aims {pid : Nat} (hp : h.pid = some pid) : Goes h .passed .reads h (.aimed pid)
  | misses (hp : h.pid = none) : Goes h .passed .reads h .missed
  | signals {pid : Nat} :
    Goes h (.aimed pid) (.signals pid true) h (.answered (.signalled pid))
  | fails {pid : Nat} : Goes h (.aimed pid) (.signals pid false) h .missed
  | requests :
    Goes h .missed .requests { h with killRequested := true } (.answered .requested)

/-- An access changes nothing but the kill request. -/
lemma Goes.eq_or (hg : Goes h c a h' c') : h' = h ∨ h' = { h with killRequested := true } := by
  cases hg <;> simp

/-- A call has its answer, or it can go on. -/
lemma answered_or_goes (h : Handle) (c : Interrupt) (reached : Bool) :
    (∃ a, c = .answered a) ∨ ∃ a h' c', Goes h c a h' c' ∧
      ∀ pid r, a = .signals pid r → r = reached := by
  cases c with
  | called =>
    by_cases he : h.hasEnded
    · exact .inr ⟨_, _, _, .skips he, by simp⟩
    · exact .inr ⟨_, _, _, .passes he, by simp⟩
  | passed =>
    cases hp : h.pid with
    | none => exact .inr ⟨_, _, _, .misses hp, by simp⟩
    | some pid => exact .inr ⟨_, _, _, .aims hp, by simp⟩
  | aimed pid =>
    cases reached with
    | false => exact .inr ⟨_, _, _, .fails, by simp⟩
    | true => exact .inr ⟨_, _, _, .signals, by simp⟩
  | missed => exact .inr ⟨_, _, _, .requests, by simp⟩
  | answered a => exact .inl ⟨a, rfl⟩

/-! ### Undisturbed -/

/-- One access while nothing else happens. -/
def Alone (reachable : Nat → Bool) (s t : Handle × Interrupt) : Prop :=
  ∃ a, Goes s.1 s.2 a t.1 t.2 ∧ ∀ pid r, a = .signals pid r → r = reachable pid

/-- The answer of a call that is not disturbed. -/
def answerOf (h : Handle) (reachable : Nat → Bool) : Answer :=
  if h.hasEnded then .skipped
  else
    match (h.terminate reachable).2 with
    | some pid => .signalled pid
    | none => .requested

lemma answerOf_ne_skipped (he : h.hasEnded = false) (reachable : Nat → Bool) :
    answerOf h reachable ≠ .skipped := by
  unfold answerOf
  rw [if_neg (by simp [he])]
  split <;> simp

/-- **The accesses of one call, one after the other, are the whole call.** -/
theorem terminate_alone (h : Handle) (reachable : Nat → Bool) :
    Relation.ReflTransGen (Alone reachable) (h, .called)
      ((h.terminate reachable).1, .answered (answerOf h reachable)) := by
  by_cases he : h.hasEnded
  · have hskip : Alone reachable (h, .called) (h, .answered .skipped) := ⟨_, .skips he, by simp⟩
    simpa [Handle.terminate, answerOf, he] using .single hskip
  have hpass : Alone reachable (h, .called) (h, .passed) := ⟨_, .passes he, by simp⟩
  have hrequest : Alone reachable (h, .missed)
      ({ h with killRequested := true }, .answered .requested) := ⟨_, .requests, by simp⟩
  cases hp : h.pid with
  | none =>
    have hmiss : Alone reachable (h, .passed) (h, .missed) := ⟨_, .misses hp, by simp⟩
    simpa [Handle.terminate, answerOf, he, hp] using
      ((Relation.ReflTransGen.single hpass).tail hmiss).tail hrequest
  | some pid =>
    have haim : Alone reachable (h, .passed) (h, .aimed pid) := ⟨_, .aims hp, by simp⟩
    have haimed := (Relation.ReflTransGen.single hpass).tail haim
    by_cases hr : reachable pid
    · have hfilter : h.pid.filter reachable = some pid := by simp [hp, hr]
      have hsignal : Alone reachable (h, .aimed pid) (h, .answered (.signalled pid)) :=
        ⟨_, .signals, by simp [hr]⟩
      simpa [Handle.terminate, answerOf, he, hfilter] using haimed.tail hsignal
    · have hfilter : h.pid.filter reachable = none := by simp [hp, hr]
      have hfail : Alone reachable (h, .aimed pid) (h, .missed) := ⟨_, .fails, by simp [hr]⟩
      simpa [Handle.terminate, answerOf, he, hfilter] using (haimed.tail hfail).tail hrequest

end Interrupt

end ChainRunner.Handle
