import ChainRunner.Proofs.Process.Handle
import Mathlib.Data.List.Induction

/-!
Which processes fail: those that do not leave with the status 0, and those in the foreground that
write to their error stream before they are over.
-/

namespace ChainRunner.Supervision

/-- A supervision and its handle after some news, each with the time when it came. -/
def watch (s : Supervision) (h : Handle) (news : List (Nat × News)) : Supervision × Handle :=
  news.foldl (fun (s, h) (now, n) => ((s.step now h n).1, (s.step now h n).2.1)) (s, h)

/-- The handle of a process after some news of it. -/
def handleAfter (h : Handle) (news : List (Nat × News)) : Handle := (watch {} h news).2

/-- A foreground process has written to its error stream while it was not over. -/
def Stained (h : Handle) (news : List (Nat × News)) : Prop :=
  h.background = false ∧ ∃ pre now chunk post, news = pre ++ (now, .wrote true chunk) :: post ∧
    chunk ≠ [] ∧ (handleAfter h pre).hasEnded = false

section

variable {now : Nat} {h h' : Handle} {news : List (Nat × News)} {n : News}

lemma run_eq_watch (now : Nat) (s : Supervision) (h : Handle) (news : List News) :
    ((run now s h news).1, (run now s h news).2.1) = watch s h (news.map (now, ·)) := by
  unfold run watch
  generalize ([] : List Line) = lines
  induction news generalizing s h lines with
  | nil => rfl
  | cons n news ih => exact ih ..

lemma background_watch (s : Supervision) (h : Handle) (news : List (Nat × News)) :
    (watch s h news).2.background = h.background := by
  unfold watch
  induction news generalizing s h with
  | nil => rfl
  | cons n news ih => exact (ih ..).trans (follows_step n.1 s h n.2).background

/-- What some news do to a handle. -/
inductive Affects (now : Nat) (h : Handle) : News → Handle → Prop
  | keeps {n : News} {h' : Handle} (hn : ∀ chunk, n = .wrote true chunk → chunk = [])
    (hended : h'.endedAt = h.endedAt) (hcode : h'.code = h.code) (hfailed : h'.failed = h.failed) :
    Affects now h n h'
  | marks {chunk : Text.Bytes} (hne : chunk ≠ []) : Affects now h (.wrote true chunk) h.markStderr
  | finishes {n : News} (hn : ∀ chunk, n ≠ .wrote true chunk) (code : Option Int) :
    Affects now h n (h.finish now code (code != some 0)).1

lemma affects_conclude (s : Supervision) (h : Handle) (hn : ∀ chunk, n ≠ .wrote true chunk) :
    Affects now h n (conclude now s h).2 := by
  have hkeeps : Affects now h n h := .keeps (fun chunk heq => absurd heq (hn chunk)) rfl rfl rfl
  unfold conclude
  split
  · split
    · exact hkeeps
    · exact .finishes hn _
  · exact hkeeps

lemma affects_step (s : Supervision) (h : Handle) (n : News) :
    Affects now h n (s.step now h n).2.1 := by
  cases n with
  | spawned pid => exact .keeps (by simp) rfl rfl rfl
  | notSpawned => exact .finishes (by simp) none
  | wrote toErrors chunk =>
    cases toErrors with
    | false => exact .keeps (by simp) rfl rfl rfl
    | true =>
      simp only [step]
      split <;> rename_i hempty
      · exact .keeps (fun _ heq => by cases heq; exact List.isEmpty_iff.1 hempty) rfl rfl rfl
      · exact .marks fun hnil => hempty (List.isEmpty_iff.2 hnil)
  | closed errors => cases errors <;> exact affects_conclude _ h (by simp)
  | exited code => exact affects_conclude _ h (by simp)

lemma affects_handleAfter :
    Affects now (handleAfter h news) n (handleAfter h (news ++ [(now, n)])) := by
  have hstep : handleAfter h (news ++ [(now, n)]) =
      ((watch {} h news).1.step now (handleAfter h news) n).2.1 := by
    simp only [handleAfter, watch, List.foldl_append, List.foldl_cons, List.foldl_nil]
  rw [hstep]
  exact affects_step ..

lemma stained_concat : Stained h (news ++ [(now, n)]) ↔ Stained h news ∨
    h.background = false ∧ (∃ chunk, n = .wrote true chunk ∧ chunk ≠ []) ∧
      (handleAfter h news).hasEnded = false := by
  constructor
  · rintro ⟨hb, pre, now', chunk, post, heq, hne, hpre⟩
    rcases List.eq_nil_or_concat post with rfl | ⟨post, n', rfl⟩
    · obtain ⟨rfl, hn⟩ := List.append_inj' heq rfl
      cases hn
      exact .inr ⟨hb, ⟨chunk, rfl, hne⟩, hpre⟩
    · rw [List.concat_eq_append, ← List.cons_append, ← List.append_assoc] at heq
      obtain ⟨rfl, -⟩ := List.append_inj' heq rfl
      exact .inl ⟨hb, pre, now', chunk, post, rfl, hne, hpre⟩
  · rintro (⟨hb, pre, now', chunk, post, rfl, hne, hpre⟩ | ⟨hb, ⟨chunk, rfl, hne⟩, hpre⟩)
    · exact ⟨hb, pre, now', chunk, post ++ [(now, n)], by simp, hne, hpre⟩
    · exact ⟨hb, news, now, chunk, [], rfl, hne, hpre⟩

/-- Which processes fail. A process that could not be started, or that a signal has ended, has no
status. -/
theorem failed_iff (h : Handle) (hended : h.hasEnded = false) (hfailed : h.failed = false)
    (news : List (Nat × News)) : (handleAfter h news).failed = true ↔
      (handleAfter h news).hasEnded = true ∧ (handleAfter h news).code ≠ some 0 ∨
        Stained h news := by
  -- by induction over the news, the latest last
  induction news using List.reverseRecOn with
  | nil => simp [handleAfter, watch, hended, hfailed, Stained]
  | append_singleton news n ih =>
    obtain ⟨now, n⟩ := n
    have hbackground : (handleAfter h news).background = h.background := background_watch ..
    rw [stained_concat]
    have ha : Affects now (handleAfter h news) n (handleAfter h (news ++ [(now, n)])) :=
      affects_handleAfter
    generalize handleAfter h (news ++ [(now, n)]) = h' at ha ⊢
    generalize handleAfter h news = h₁ at ih hbackground ha ⊢
    cases ha with
    | keeps hn hended hcode hfailed =>
      have hnone : ¬∃ chunk, n = .wrote true chunk ∧ chunk ≠ [] :=
        fun ⟨chunk, heq, hne⟩ => hne (hn chunk heq)
      simp only [Handle.hasEnded, hended, hcode, hfailed, hnone, false_and, and_false, or_false]
      exact ih
    | @marks chunk hne =>
      -- what is written to the error stream counts in the foreground, before the end
      unfold Handle.markStderr
      split <;> rename_i hb
      · have hquiet : ¬(h.background = false ∧ h₁.hasEnded = false) := by
          rintro ⟨hb', he⟩
          simp [hbackground, hb', he] at hb
        rw [ih]
        grind
      · simp only [Bool.or_eq_true, not_or, Bool.not_eq_true] at hb
        simp [← hbackground, hb, hne]
    | finishes hn code =>
      have hnone : ¬∃ chunk, n = .wrote true chunk ∧ chunk ≠ [] :=
        fun ⟨chunk, heq, _⟩ => hn chunk heq
      simp only [hnone, false_and, and_false, or_false]
      unfold Handle.finish
      split <;> rename_i he
      · exact ih
      · have he : h₁.hasEnded = false := by simpa using he
        simp only [he, Bool.false_eq_true, false_and, false_or] at ih
        simp [Handle.hasEnded, ← ih, or_comm]

end

end ChainRunner.Supervision
