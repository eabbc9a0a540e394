import Mathlib.Data.List.TakeWhile
import ChainRunner.Proofs.Process.Handle
import ChainRunner.Proofs.Process.Interrupt
import ChainRunner.Proofs.Runs

/-!
The life of a handle that is shared by many callers.

Calls come from all sides and go on access by access, in any order. What the handle records is
decided by the accesses so far: by those that start it, by the first one that finishes it, and by
what was written to the error stream before that.
-/

namespace ChainRunner.Handle

/-- What a call returns. -/
inductive Reply
  | done
  /-- Whether it was the first to finish the process. -/
  | first (won : Bool)
  | saw (h : Handle)
deriving DecidableEq, Repr

/-- How far a call has come. -/
inductive Call
  | start (pid : Option Nat)
  | markStderr
  | finish (code : Option Int) (failed : Bool)
  /-- The process is finished, and those who wait are still to be told. -/
  | telling
  | terminate (i : Interrupt)
  | wait
  /-- A call that waited was told and has not looked yet. -/
  | looking
  | returned (r : Reply)
deriving DecidableEq, Repr

/-- A call none of which has happened yet. -/
inductive Call.IsNew : Call → Prop
  | start (pid : Option Nat) : IsNew (.start pid)
  | markStderr : IsNew .markStderr
  | finish (code : Option Int) (failed : Bool) : IsNew (.finish code failed)
  | terminate : IsNew (.terminate .called)
  | wait : IsNew .wait

/-- What a call does at once. -/
inductive Access
  | start (pid : Option Nat)
  | markStderr
  | finish (code : Option Int) (failed : Bool)
  | tell
  | terminate (a : Interrupt.Access)
  | hear
  | look
deriving DecidableEq, Repr

/-- A handle, whether its end was told, and all calls ever made. -/
structure Shared where
  handle : Handle
  told : Bool := false
  calls : List Call := []
  now : Nat := 0

inductive Act
  | calls (c : Call)
  | goes (i : Nat) (a : Access)
  | passes (time : Nat)
deriving DecidableEq, Repr

/-- The next access of a call, and what it makes of the handle, of the signal and of the call. -/
inductive Goes (now : Nat) (h : Handle) (told : Bool) :
    Call → Access → Handle → Bool → Call → Prop
  | start {pid : Option Nat} :
    Goes now h told (.start pid) (.start pid) (h.start now pid) told (.returned .done)
  | markStderr : Goes now h told .markStderr .markStderr h.markStderr told (.returned .done)
  | finishes {code : Option Int} {failed : Bool} (hf : (h.finish now code failed).2 = true) :
    Goes now h told (.finish code failed) (.finish code failed) (h.finish now code failed).1 told
      .telling
  | ignored {code : Option Int} {failed : Bool} (hf : (h.finish now code failed).2 = false) :
    Goes now h told (.finish code failed) (.finish code failed) (h.finish now code failed).1 told
      (.returned (.first false))
  | tells : Goes now h told .telling .tell h true (.returned (.first true))
  | terminate {i i' : Interrupt} {a : Interrupt.Access} {h' : Handle} (hi : i.Goes h a h' i') :
    Goes now h told (.terminate i) (.terminate a) h' told (.terminate i')
  | hears (ht : told = true) : Goes now h told .wait .hear h told .looking
  | looks : Goes now h told .looking .look h told (.returned (.saw h))

/-- What may happen next: a new call, an access of a call, or time passes. -/
inductive Step (s : Shared) : Act → Shared → Prop
  | calls {c : Call} (hc : c.IsNew) : Step s (.calls c) { s with calls := s.calls ++ [c] }
  | goes {i : Nat} {c c' : Call} {a : Access} {h' : Handle} {told' : Bool}
    (hi : s.calls[i]? = some c) (hg : Goes s.now s.handle s.told c a h' told' c') :
    Step s (.goes i a) { s with handle := h', told := told', calls := s.calls.set i c' }
  | passes {time : Nat} : Step s (.passes time) { s with now := s.now + time }

/-! ### What has happened -/

/-- The call that an act lets finish the process, with its arguments. -/
def Act.finish? : Act → Option (Nat × Option Int × Bool)
  | .goes i (.finish code failed) => some (i, code, failed)
  | _ => none

/-- The first finish: the call, its code and whether it says that the process failed. -/
def firstFinish (acts : List Act) : Option (Nat × Option Int × Bool) := acts.findSome? Act.finish?

/-- The acts before the first finish. -/
def beforeFinish (acts : List Act) : List Act := acts.takeWhile (·.finish?.isNone)

def Started (acts : List Act) : Prop := ∃ i pid, .goes i (.start pid) ∈ acts

/-- Something was written to the error stream. -/
def Marked (acts : List Act) : Prop := ∃ i, .goes i .markStderr ∈ acts

variable {acts : List Act} {a : Act} {i : Nat}

lemma firstFinish_concat : firstFinish (acts ++ [a]) = (firstFinish acts).or a.finish? := by
  cases h : a.finish? <;> simp [firstFinish, List.findSome?_append, h]

lemma beforeFinish_of_none (h : firstFinish acts = none) : beforeFinish acts = acts := by
  rw [firstFinish, List.findSome?_eq_none_iff] at h
  exact List.takeWhile_eq_self_iff.2 fun a ha => by simp [h a ha]

/-- What comes behind the first finish is not before it. -/
lemma beforeFinish_concat (h : (firstFinish acts).or a.finish? ≠ none) :
    beforeFinish (acts ++ [a]) = beforeFinish acts := by
  cases hf : firstFinish acts with
  | none =>
    have hall := beforeFinish_of_none hf
    rw [hf, Option.none_or] at h
    have hpos := List.takeWhile_eq_self_iff.1 hall
    rw [beforeFinish, List.takeWhile_append_of_pos hpos,
      List.takeWhile_cons_of_neg (by simpa using h), List.append_nil, hall]
  | some f =>
    obtain ⟨b, hb, hfb⟩ := List.exists_of_findSome?_eq_some hf
    rw [beforeFinish, beforeFinish, List.takeWhile_append, if_neg]
    intro hlen
    have hself := (List.takeWhile_sublist _).eq_of_length hlen
    have hpos := List.takeWhile_eq_self_iff.1 hself b hb
    simp [hfb] at hpos

lemma started_concat :
    Started (acts ++ [a]) ↔ Started acts ∨ ∃ i pid, a = .goes i (.start pid) := by
  simp [Started, exists_or, eq_comm]

lemma marked_concat : Marked (acts ++ [a]) ↔ Marked acts ∨ ∃ i, a = .goes i .markStderr := by
  simp [Marked, exists_or, eq_comm]

/-! ### What the handle records -/

/-- What comes of a handle: it follows, and its start stays. -/
structure Later (h h' : Handle) : Prop extends h.Follows h' where
  started : h.hasStarted → h'.startedAt = h.startedAt

variable {now : Nat} {h h' h'' : Handle} {told told' : Bool} {c c' : Call} {access : Access}

lemma Later.refl (h : Handle) : h.Later h := ⟨.refl h, fun _ => rfl⟩

lemma Later.hasStarted (hl : h.Later h') (hs : h.hasStarted) : h'.hasStarted := by
  rw [Handle.hasStarted, hl.started hs]
  exact hs

lemma Later.trans (hl : h.Later h') (hl' : h'.Later h'') : h.Later h'' :=
  ⟨hl.toFollows.trans hl'.toFollows,
    fun hs => (hl'.started (hl.hasStarted hs)).trans (hl.started hs)⟩

lemma startedAt_or (hs : h.hasStarted) : h.startedAt.or (some now) = h.startedAt := by
  rw [Handle.hasStarted] at hs
  exact Option.or_of_isSome hs

/-- Every access leaves a later handle. -/
lemma Goes.later (hg : Goes now h told c access h' told' c') : h.Later h' := by
  cases hg with
  | start => exact ⟨h.follows_start now _, startedAt_or⟩
  | markStderr =>
    refine ⟨h.follows_markStderr, fun _ => ?_⟩
    unfold Handle.markStderr
    split <;> rfl
  | finishes | ignored =>
    refine ⟨h.follows_finish now _ _, fun hs => ?_⟩
    unfold Handle.finish
    split
    · rfl
    · exact startedAt_or hs
  | terminate hi =>
    rcases hi.eq_or with rfl | rfl
    · exact .refl _
    · exact ⟨⟨rfl, rfl, id, fun _ => ⟨rfl, rfl, rfl⟩⟩, fun _ => rfl⟩
  | tells | hears | looks => exact .refl h

/-- What the handle records after some accesses. -/
structure Records (background : Bool) (acts : List Act) (h : Handle) (now : Nat) : Prop where
  mode : h.background = background
  started : h.hasStarted ↔ Started acts ∨ firstFinish acts ≠ none
  /-- Until it is finished it has no code, and fails by its error stream only. -/
  unfinished : firstFinish acts = none →
    h.hasEnded = false ∧ h.code = none ∧ (h.failed ↔ background = false ∧ Marked acts)
  finished : ∀ i code failed, firstFinish acts = some (i, code, failed) →
    h.hasEnded ∧ h.code = code ∧
      (h.failed ↔ failed ∨ background = false ∧ Marked (beforeFinish acts))
  /-- The start comes before the end. -/
  order : ∀ e, h.endedAt = some e → ∃ b, h.startedAt = some b ∧ b ≤ e
  clock : ∀ b, h.startedAt = some b → b ≤ now

lemma Records.hasEnded_iff {background : Bool} (hr : Records background acts h now) :
    h.hasEnded ↔ firstFinish acts ≠ none := by
  cases hf : firstFinish acts with
  | none => simp [(hr.unfinished hf).1]
  | some f =>
    obtain ⟨i, code, failed⟩ := f
    simp [(hr.finished i code failed hf).1]

lemma records_nil (name : String) (background : Bool) :
    Records background [] { name, background } now := by
  constructor <;> simp [Started, Marked, firstFinish, Handle.hasStarted, Handle.hasEnded]

/-- An act that neither starts, marks nor finishes leaves the record as it is. -/
lemma Records.keep {background : Bool} {now' : Nat} (hr : Records background acts h now)
    (hnow : now ≤ now') (hstart : ∀ i pid, a ≠ .goes i (.start pid))
    (hmark : ∀ i, a ≠ .goes i .markStderr) (hfinish : a.finish? = none)
    (hsame : h' = h ∨ h' = { h with killRequested := true }) :
    Records background (acts ++ [a]) h' now' := by
  have hfirst : firstFinish (acts ++ [a]) = firstFinish acts := by
    rw [firstFinish_concat, hfinish, Option.or_none]
  have hstarted : Started (acts ++ [a]) ↔ Started acts := by
    rw [started_concat, or_iff_left]
    rintro ⟨i, pid, rfl⟩
    exact hstart i pid rfl
  have hmarked : Marked (acts ++ [a]) ↔ Marked acts := by
    rw [marked_concat, or_iff_left]
    rintro ⟨i, rfl⟩
    exact hmark i rfl
  have hrec : Records background (acts ++ [a]) h now' := by
    refine ⟨hr.mode, ?_, fun hf => ?_, fun i code failed hf => ?_, hr.order,
      fun b hb => (hr.clock b hb).trans hnow⟩
    · rw [hstarted, hfirst]
      exact hr.started
    · rw [hmarked]
      exact hr.unfinished (hfirst ▸ hf)
    · rw [beforeFinish_concat (by rw [← firstFinish_concat, hf]; simp)]
      exact hr.finished i code failed (hfirst ▸ hf)
  rcases hsame with rfl | rfl
  · exact hrec
  · exact ⟨hrec.mode, hrec.started, hrec.unfinished, hrec.finished, hrec.order, hrec.clock⟩

section

variable {background : Bool} {i : Nat}

lemma Records.start (hr : Records background acts h now) (pid : Option Nat) :
    Records background (acts ++ [.goes i (.start pid)]) (h.start now pid) now := by
  have hfirst : firstFinish (acts ++ [.goes i (.start pid)]) = firstFinish acts := by
    rw [firstFinish_concat]
    simp [Act.finish?]
  have hmarked : Marked (acts ++ [.goes i (.start pid)]) ↔ Marked acts := by
    simp [marked_concat]
  refine ⟨hr.mode, ?_, fun hf => ?_, fun j code failed hf => ?_, fun e he => ?_, fun b hb => ?_⟩
  · have hstarted : Started (acts ++ [.goes i (.start pid)]) :=
      started_concat.2 (.inr ⟨i, pid, rfl⟩)
    simp [hstarted, Handle.start, Handle.hasStarted]
  · rw [hmarked]
    exact hr.unfinished (hfirst ▸ hf)
  · rw [beforeFinish_concat (by rw [← firstFinish_concat, hf]; simp)]
    exact hr.finished j code failed (hfirst ▸ hf)
  · obtain ⟨b, hb, hle⟩ := hr.order e he
    exact ⟨b, by simp [Handle.start, hb], hle⟩
  · cases hs : h.startedAt with
    | none =>
      obtain rfl : now = b := by simpa [Handle.start, hs] using hb
      exact Nat.le_refl _
    | some b' =>
      obtain rfl : b' = b := by simpa [Handle.start, hs] using hb
      exact hr.clock b' hs

lemma Records.markStderr (hr : Records background acts h now) :
    Records background (acts ++ [.goes i .markStderr]) h.markStderr now := by
  have hfirst : firstFinish (acts ++ [.goes i .markStderr]) = firstFinish acts := by
    rw [firstFinish_concat]
    simp [Act.finish?]
  have hstarted : Started (acts ++ [.goes i .markStderr]) ↔ Started acts := by
    simp [started_concat]
  have hmarked : Marked (acts ++ [.goes i .markStderr]) := marked_concat.2 (.inr ⟨i, rfl⟩)
  have hfields : h.markStderr.startedAt = h.startedAt ∧ h.markStderr.endedAt = h.endedAt ∧
      h.markStderr.code = h.code ∧ h.markStderr.background = h.background ∧
      h.markStderr.failed = (h.failed || !h.background && !h.hasEnded) := by
    unfold Handle.markStderr
    split <;> grind
  obtain ⟨hs, he, hc, hb, hfailed⟩ := hfields
  have hended : h.markStderr.hasEnded = h.hasEnded := by rw [Handle.hasEnded, he, Handle.hasEnded]
  refine ⟨hb.trans hr.mode, ?_, fun hf => ?_, fun j code failed hf => ?_, ?_, ?_⟩
  · rw [Handle.hasStarted, hs, hstarted, hfirst]
    exact hr.started
  · obtain ⟨hnot, hcode, hiff⟩ := hr.unfinished (hfirst ▸ hf)
    refine ⟨hended.trans hnot, hc.trans hcode, ?_⟩
    rw [hfailed, hnot, hr.mode]
    cases background <;> simp_all
  · obtain ⟨hover, hcode, hiff⟩ := hr.finished j code failed (hfirst ▸ hf)
    refine ⟨hended.trans hover, hc.trans hcode, ?_⟩
    rw [hfailed, hover, beforeFinish_concat (by rw [← firstFinish_concat, hf]; simp), ← hiff]
    simp
  · rw [he, hs]
    exact hr.order
  · rw [hs]
    exact hr.clock

lemma Records.finish (hr : Records background acts h now) (code : Option Int) (failed : Bool) :
    Records background (acts ++ [.goes i (.finish code failed)]) (h.finish now code failed).1
      now := by
  have hstarted : Started (acts ++ [.goes i (.finish code failed)]) ↔ Started acts := by
    simp [started_concat]
  have hmarked : Marked (acts ++ [.goes i (.finish code failed)]) ↔ Marked acts := by
    simp [marked_concat]
  have hsome : (firstFinish acts).or (Act.finish? (.goes i (.finish code failed))) ≠ none := by
    simp [Act.finish?]
  have hbefore := beforeFinish_concat hsome
  by_cases hend : h.hasEnded
  · -- a repeated finish changes nothing
    have hfirst : firstFinish (acts ++ [.goes i (.finish code failed)]) = firstFinish acts := by
      rw [firstFinish_concat, Option.or_of_isSome]
      exact Option.isSome_iff_ne_none.2 (hr.hasEnded_iff.1 hend)
    have hsame : (h.finish now code failed).1 = h := by simp [Handle.finish, hend]
    rw [hsame]
    refine ⟨hr.mode, ?_, fun hf => ?_, fun j c f hf => ?_, hr.order, hr.clock⟩
    · rw [hstarted, hfirst]
      exact hr.started
    · rw [hmarked]
      exact hr.unfinished (hfirst ▸ hf)
    · rw [hbefore]
      exact hr.finished j c f (hfirst ▸ hf)
  · have hnone : firstFinish acts = none := by
      by_contra hf
      exact hend (hr.hasEnded_iff.2 hf)
    have hfirst : firstFinish (acts ++ [.goes i (.finish code failed)]) =
        some (i, code, failed) := by
      rw [firstFinish_concat, hnone]
      rfl
    obtain ⟨-, -, hiff⟩ := hr.unfinished hnone
    have hfin : (h.finish now code failed).1 = { h with
        startedAt := h.startedAt.or (some now), endedAt := some now, code,
        failed := h.failed || failed } := by
      simp [Handle.finish, hend]
    rw [hfin]
    refine ⟨hr.mode, ?_, fun hf => ?_, fun j c f hf => ?_, fun e he => ?_, fun b hb => ?_⟩
    · simp [hfirst, Handle.hasStarted]
    · simp [hfirst] at hf
    · obtain ⟨rfl, rfl, rfl⟩ : i = j ∧ code = c ∧ failed = f := by simpa [hfirst] using hf
      rw [hbefore, beforeFinish_of_none hnone]
      refine ⟨rfl, rfl, ?_⟩
      rw [Bool.or_eq_true, hiff, or_comm]
    · obtain rfl : now = e := by simpa using he
      cases hs : h.startedAt with
      | none => exact ⟨now, rfl, Nat.le_refl _⟩
      | some b => exact ⟨b, rfl, hr.clock b hs⟩
    · cases hs : h.startedAt with
      | none =>
        obtain rfl : now = b := by simpa [hs] using hb
        exact Nat.le_refl _
      | some b' =>
        obtain rfl : b' = b := by simpa [hs] using hb
        exact hr.clock b' hs

lemma Records.goes (hr : Records background acts h now)
    (hg : Goes now h told c access h' told' c') :
    Records background (acts ++ [.goes i access]) h' now := by
  cases hg with
  | start => exact hr.start _
  | markStderr => exact hr.markStderr
  | finishes | ignored => exact hr.finish _ _
  | terminate hi => exact hr.keep (Nat.le_refl _) (by simp) (by simp) rfl hi.eq_or
  | tells | hears | looks => exact hr.keep (Nat.le_refl _) (by simp) (by simp) rfl (.inl rfl)

/-! ### What the calls return -/

/-- What a call that has come so far tells of the handle and of the acts. -/
def Call.Tells (acts : List Act) (h : Handle) (i : Nat) (c : Call) : Prop :=
  match c with
  | .telling | .returned (.first true) => ∃ code failed, firstFinish acts = some (i, code, failed)
  | .looking => firstFinish acts ≠ none
  | .returned (.saw seen) => seen.hasEnded ∧ seen.hasStarted ∧ seen.Later h
  | _ => True

lemma firstFinish_ne_none (hf : firstFinish acts ≠ none) : firstFinish (acts ++ [a]) ≠ none := by
  rw [firstFinish_concat]
  simp [hf]

lemma firstFinish_stays {f : Nat × Option Int × Bool} (hf : firstFinish acts = some f) :
    firstFinish (acts ++ [a]) = some f := by
  rw [firstFinish_concat, hf, Option.some_or]

lemma Call.Tells.mono (ht : c.Tells acts h i) (hl : h.Later h') : c.Tells (acts ++ [a]) h' i := by
  unfold Call.Tells at ht ⊢
  split at ht
  · obtain ⟨code, failed, hf⟩ := ht
    exact ⟨code, failed, firstFinish_stays hf⟩
  · obtain ⟨code, failed, hf⟩ := ht
    exact ⟨code, failed, firstFinish_stays hf⟩
  · exact firstFinish_ne_none ht
  · exact ⟨ht.1, ht.2.1, ht.2.2.trans hl⟩
  · trivial

/-- What the calls tell after some accesses, and which of them has finished the process. -/
structure Answers (acts : List Act) (s : Shared) : Prop where
  tells : ∀ (i : Nat) (c : Call), s.calls[i]? = some c → c.Tells acts s.handle i
  told : s.told → firstFinish acts ≠ none
  winner : ∀ (i : Nat) code failed, firstFinish acts = some (i, code, failed) →
    s.calls[i]? = some .telling ∨ s.calls[i]? = some (.returned (.first true))

variable {name : String} {s s' : Shared}

lemma answers_nil (h : Handle) : Answers [] { handle := h } := by
  constructor <;> simp [firstFinish]

lemma Answers.calls (ha : Answers acts s) (hc : c.IsNew) :
    Answers (acts ++ [.calls c]) { s with calls := s.calls ++ [c] } where
  tells i d hi := by
    rcases getElem?_of_concat hi with hi | rfl
    · exact (ha.tells i d hi).mono (.refl _)
    · cases hc <;> trivial
  told ht := firstFinish_ne_none (ha.told ht)
  winner i code failed hf := by
    rw [firstFinish_concat, show Act.finish? (.calls c) = none from rfl, Option.or_none] at hf
    refine (ha.winner i code failed hf).imp ?_ ?_ <;>
      exact fun hi => List.getElem?_append_left (List.getElem?_eq_some_iff.1 hi).1 ▸ hi

/-- The call that finishes is the first one to do so. -/
lemma Records.first (hr : Records background acts h now) {code : Option Int} {failed : Bool}
    (hf : (h.finish now code failed).2 = true) :
    firstFinish acts = none ∧
      firstFinish (acts ++ [.goes i (.finish code failed)]) = some (i, code, failed) := by
  have hend : ¬ h.hasEnded := by
    intro he
    simp [Handle.finish, he] at hf
  have hnone : firstFinish acts = none := by
    by_contra hne
    exact hend (hr.hasEnded_iff.2 hne)
  refine ⟨hnone, ?_⟩
  rw [firstFinish_concat, hnone]
  rfl

/-- What the access of a call lets it tell. -/
lemma Goes.leaves (hr : Records background acts h now) (htold : told → firstFinish acts ≠ none)
    (hc : c.Tells acts h i) (hg : Goes now h told c access h' told' c') :
    c'.Tells (acts ++ [.goes i access]) h' i := by
  cases hg with
  | start | markStderr | ignored | terminate => trivial
  | finishes hf => exact ⟨_, _, (hr.first hf).2⟩
  | tells =>
    obtain ⟨code, failed, hf⟩ := hc
    exact ⟨code, failed, firstFinish_stays hf⟩
  | hears ht => exact firstFinish_ne_none (htold ht)
  | looks =>
    have hend : h.hasEnded := hr.hasEnded_iff.2 hc
    obtain ⟨e, he⟩ := Option.isSome_iff_exists.1 hend
    obtain ⟨b, hb, -⟩ := hr.order e he
    exact ⟨hend, by simp [Handle.hasStarted, hb], .refl h⟩

/-- The first finish is an old one, or the call has just done it. -/
lemma Goes.first (hr : Records background acts h now) (hg : Goes now h told c access h' told' c')
    {f : Nat × Option Int × Bool} (hf : firstFinish (acts ++ [.goes i access]) = some f) :
    firstFinish acts = some f ∨ f.1 = i ∧ c' = .telling := by
  cases hg with
  | finishes hwon =>
    rw [(hr.first hwon).2] at hf
    exact .inr ⟨by rw [← Option.some.inj hf], rfl⟩
  | ignored hlost =>
    have hend : h.hasEnded := by
      by_contra he
      simp [Handle.finish, he] at hlost
    obtain ⟨g, hg⟩ := Option.ne_none_iff_exists'.1 (hr.hasEnded_iff.1 hend)
    rw [firstFinish_stays hg] at hf
    exact .inl (hg.trans hf)
  | _ =>
    rw [firstFinish_concat] at hf
    exact .inl (by simpa [Act.finish?] using hf)

lemma Answers.goes (hr : Records background acts s.handle s.now) (ha : Answers acts s)
    (hi : s.calls[i]? = some c) (hg : Goes s.now s.handle s.told c access h' told' c') :
    Answers (acts ++ [.goes i access])
      { s with handle := h', told := told', calls := s.calls.set i c' } where
  tells j d hj := by
    rcases getElem?_of_set hj with hj | ⟨rfl, rfl⟩
    · exact (ha.tells j d hj).mono hg.later
    · exact hg.leaves hr ha.told (ha.tells i c hi)
  told ht := by
    cases hg with
    | tells =>
      obtain ⟨code, failed, hf⟩ := ha.tells i _ hi
      rw [firstFinish_stays hf]
      simp
    | _ => exact firstFinish_ne_none (ha.told ht)
  winner j code failed hf := by
    have hset : (s.calls.set i c')[i]? = some c' :=
      List.getElem?_set_self (List.getElem?_eq_some_iff.1 hi).1
    rcases hg.first hr hf with hf | ⟨rfl, rfl⟩
    · by_cases hij : i = j
      · subst j
        -- the winner has told and returns, or has returned before and does not go
        rcases ha.winner i code failed hf with hw | hw <;> rw [hw] at hi <;> cases hi <;> cases hg
        exact .inr hset
      · simp only [List.getElem?_set_ne hij]
        exact ha.winner j code failed hf
    · exact .inl hset

lemma Answers.passes (ha : Answers acts s) (time : Nat) :
    Answers (acts ++ [.passes time]) { s with now := s.now + time } where
  tells i c hi := (ha.tells i c hi).mono (.refl _)
  told ht := firstFinish_ne_none (ha.told ht)
  winner i code failed hf := by
    rw [firstFinish_concat, show Act.finish? (.passes time) = none from rfl, Option.or_none] at hf
    exact ha.winner i code failed hf

/-! ### The life of a handle -/

lemma lived (h : Runs Step { handle := { name, background } } acts s) :
    Records background acts s.handle s.now ∧ Answers acts s := by
  induction h with
  | nil => exact ⟨records_nil name background, answers_nil _⟩
  | snoc _ hs ih =>
    obtain ⟨hr, ha⟩ := ih
    cases hs with
    | calls hc => exact ⟨hr.keep (Nat.le_refl _) (by simp) (by simp) rfl (.inl rfl), ha.calls hc⟩
    | goes hi hg => exact ⟨hr.goes hg, ha.goes hr hi hg⟩
    | passes =>
      exact ⟨hr.keep (Nat.le_add_right ..) (by simp) (by simp) rfl (.inl rfl), ha.passes _⟩

lemma later_of_runs {more : List Act} (h : Runs Step s more s') : s.handle.Later s'.handle := by
  induction h with
  | nil => exact .refl _
  | snoc _ hs ih =>
    refine ih.trans ?_
    cases hs with
    | goes _ hg => exact hg.later
    | calls | passes => exact .refl _

/-- The two handles agree on how and when the process started and ended. -/
def SameEnd (h h' : Handle) : Prop :=
  h'.startedAt = h.startedAt ∧ h'.endedAt = h.endedAt ∧ h'.code = h.code ∧ h'.failed = h.failed

lemma Later.sameEnd (hl : h.Later h') (hs : h.hasStarted) (he : h.hasEnded) : h.SameEnd h' :=
  ⟨hl.started hs, hl.ended he⟩

/-- **The life of a handle**, for all calls from all sides in any order. The one call that answers
that it has finished the process is the first to do so, and its code and what was written to the
error stream before it, in the foreground, decide how the process ended. Nothing changes that any
more, and it is what every call sees that has waited. Until then there is no code, a failure stays,
and the process is running from its first start on. -/
theorem lifecycle (h : Runs Step { handle := { name, background } } acts s) :
    (∀ i : Nat, s.calls[i]? = some (.returned (.first true)) →
      ∃ code failed, firstFinish acts = some (i, code, failed)) ∧
    (∀ (i : Nat) code failed, firstFinish acts = some (i, code, failed) →
      (s.calls[i]? = some .telling ∨ s.calls[i]? = some (.returned (.first true))) ∧
      s.handle.hasEnded ∧ s.handle.code = code ∧
      (s.handle.failed ↔ failed ∨ background = false ∧ Marked (beforeFinish acts))) ∧
    (∀ (i : Nat) seen, s.calls[i]? = some (.returned (.saw seen)) →
      firstFinish acts ≠ none ∧ seen.hasEnded ∧ seen.SameEnd s.handle) ∧
    (∀ more s', Runs Step s more s' → (s.handle.failed → s'.handle.failed) ∧
      (s.handle.hasEnded → s.handle.SameEnd s'.handle)) ∧
    (firstFinish acts = none → s.handle.code = none ∧
      (s.handle.failed ↔ background = false ∧ Marked acts)) ∧
    (s.handle.isRunning ↔ Started acts ∧ firstFinish acts = none) ∧
    (s.handle.hasEnded → ∃ b e, s.handle.startedAt = some b ∧ s.handle.endedAt = some e ∧
      b ≤ e) := by
  obtain ⟨hr, ha⟩ := lived h
  have htimes : s.handle.hasEnded → ∃ b e, s.handle.startedAt = some b ∧
      s.handle.endedAt = some e ∧ b ≤ e := by
    intro hend
    obtain ⟨e, he⟩ := Option.isSome_iff_exists.1 hend
    obtain ⟨b, hb, hle⟩ := hr.order e he
    exact ⟨b, e, hb, he, hle⟩
  refine ⟨fun i hi => ha.tells i _ hi, fun i code failed hf =>
    ⟨ha.winner i code failed hf, hr.finished i code failed hf⟩, fun i seen hi => ?_,
    fun more s' hmore => ?_, fun hf => (hr.unfinished hf).2, ?_, htimes⟩
  · obtain ⟨hend, hstarted, hlater⟩ := ha.tells i _ hi
    exact ⟨hr.hasEnded_iff.1 (hlater.hasEnded hend), hend, hlater.sameEnd hstarted hend⟩
  · have hlater := later_of_runs hmore
    refine ⟨hlater.failed, fun hend => hlater.sameEnd ?_ hend⟩
    obtain ⟨b, -, hb, -⟩ := htimes hend
    simp [Handle.hasStarted, hb]
  · have hended : s.handle.hasEnded = false ↔ firstFinish acts = none := by
      rw [← Bool.not_eq_true, hr.hasEnded_iff, not_not]
    rw [Handle.isRunning, Bool.and_eq_true, Bool.not_eq_true', hr.started, hended]
    exact ⟨fun ⟨hs, hf⟩ => ⟨hs.resolve_right (not_not.2 hf), hf⟩, fun ⟨hs, hf⟩ => ⟨.inl hs, hf⟩⟩

/-- Two calls finish a foreground process that has written to its error stream, and it is started
only when it is over. -/
theorem lifecycle_late_start :
    ∃ acts s, Runs Step { handle := { name := "p", background := false } } acts s ∧
      firstFinish acts = some (2, some 0, false) ∧
      s.calls[2]? = some (.returned (.first true)) ∧ s.handle.code = some 0 ∧ s.handle.failed ∧
      s.handle.startedAt = some 5 ∧
      ∃ seen, s.calls[0]? = some (.returned (.saw seen)) ∧ seen.SameEnd s.handle := by
  let p : Handle := { name := "p", background := false }
  let ended : Handle := (p.markStderr.finish 5 (some 0) false).1
  have hmarked : Runs Step { handle := p }
      [.calls .wait, .calls .markStderr, .goes 1 .markStderr, .passes 5]
      { handle := p.markStderr, calls := [.wait, .returned .done], now := 5 } :=
    (((Runs.nil.snoc (.calls .wait)).snoc (.calls .markStderr)).snoc
      (.goes (i := 1) rfl .markStderr)).snoc .passes
  have hfinished : Runs Step { handle := p }
      [.calls .wait, .calls .markStderr, .goes 1 .markStderr, .passes 5,
        .calls (.finish (some 0) false), .calls (.finish none true),
        .goes 2 (.finish (some 0) false), .goes 3 (.finish none true)]
      { handle := ended, now := 5,
        calls := [.wait, .returned .done, .telling, .returned (.first false)] } :=
    (((hmarked.snoc (.calls (.finish (some 0) false))).snoc
      (.calls (.finish none true))).snoc (.goes (i := 2) rfl (.finishes rfl))).snoc
        (.goes (i := 3) rfl (.ignored rfl))
  have hrun : Runs Step { handle := p }
      [.calls .wait, .calls .markStderr, .goes 1 .markStderr, .passes 5,
        .calls (.finish (some 0) false), .calls (.finish none true),
        .goes 2 (.finish (some 0) false), .goes 3 (.finish none true), .calls (.start (some 7)),
        .goes 4 (.start (some 7)), .goes 2 .tell, .goes 0 .hear, .goes 0 .look]
      { handle := ended.start 5 (some 7), told := true, now := 5,
        calls := [.returned (.saw (ended.start 5 (some 7))), .returned .done,
          .returned (.first true), .returned (.first false), .returned .done] } :=
    ((((hfinished.snoc (.calls (.start (some 7)))).snoc (.goes (i := 4) rfl .start)).snoc
      (.goes (i := 2) rfl .tells)).snoc (.goes (i := 0) rfl (.hears rfl))).snoc
        (.goes (i := 0) rfl .looks)
  obtain ⟨-, hfirst, hwaited, -⟩ := lifecycle hrun
  obtain ⟨-, -, hcode, hfailed⟩ := hfirst 2 (some 0) false rfl
  exact ⟨_, _, hrun, rfl, rfl, hcode, hfailed.2 (.inr ⟨rfl, 1, by decide⟩), rfl, _, rfl,
    (hwaited 0 _ rfl).2.2⟩

end

end ChainRunner.Handle
