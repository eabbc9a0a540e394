import ChainRunner.Run.Log
import Mathlib.Data.Finset.Card
import Mathlib.Data.List.Induction
import Mathlib.Order.Bounds.Basic

/-!
What a log says of each process, and how many instances of a script it shows at once.

A log is well told if it tells one story of each process: nothing, its start, or its start and
then its end. What is counted along such a log is how many processes are up.
-/

namespace ChainRunner.Run

/-- The events of one process, in order. -/
def eventsOf (log : List Event) (p : ProcessId) : List Event := log.filter (·.process = p)

/-- What a log may say of a process. -/
inductive Story (p : ProcessId) : List Event → Prop
  | untold : Story p []
  | started (t : Nat) : Story p [.started t p]
  | ended (t t' : Nat) (code : Option Int) (failed killed : Bool) :
    Story p [.started t p, .ended t' p code failed killed]

def WellTold (log : List Event) : Prop := ∀ p, Story p (eventsOf log p)

/-- The events of a process tell of its end what its handle does. -/
def EndTold (p : ProcessId) (h : Handle) (es : List Event) : Prop :=
  ∃ t t' killed, es = [.started t p, .ended t' p h.code h.failed killed]

/-- All that the log tells of `q` stands behind the end of `p`. -/
def AfterEnd (log : List Event) (p q : ProcessId) : Prop :=
  ∀ pre e post, log = pre ++ e :: post → e.process = q →
    ∃ d ∈ pre, d.process = p ∧ d.isStart = false

/-- The processes of a script that are up after some events: they have started, and not ended. -/
def State.upAfter (s : State) (script : String) (es : List Event) : Finset ProcessId :=
  (es.map Event.process).toFinset.filter fun p =>
    (s.launch? p).map Launch.script = some script ∧ ∀ e ∈ es, e.process = p → e.isStart

variable {s : State} {script : String} {log es : List Event} {e : Event} {p q : ProcessId}

lemma eventsOf_append : eventsOf (log ++ es) p = eventsOf log p ++ eventsOf es p :=
  List.filter_append ..

/-- More events of one process. -/
lemma eventsOf_append_of_process (h : ∀ e ∈ es, e.process = p) : eventsOf (log ++ es) q =
    if p = q then eventsOf log q ++ es else eventsOf log q := by
  rw [eventsOf_append]
  split
  · subst q
    rw [show eventsOf es p = es from List.filter_eq_self.2 (by simpa using h)]
  · rename_i hq
    have hnone : eventsOf es q = [] :=
      List.filter_eq_nil_iff.2 fun e he hq' => hq ((h e he).symm.trans (of_decide_eq_true hq'))
    rw [hnone, List.append_nil]

lemma eventsOf_concat : eventsOf (log ++ [e]) p =
    if e.process = p then eventsOf log p ++ [e] else eventsOf log p :=
  eventsOf_append_of_process (by simp)

lemma mem_eventsOf : e ∈ eventsOf log p ↔ e ∈ log ∧ e.process = p := by simp [eventsOf]

/-! ### Stories -/

/-- The last event of a story is a start with nothing before it, or an end with a start before
it. -/
lemma Story.of_concat (h : Story p (es ++ [e])) :
    es = [] ∧ e.isStart ∨ (∃ t, es = [.started t p]) ∧ e.isStart = false := by
  generalize hall : es ++ [e] = all at h
  cases h with
  | untold => simp at hall
  | started t =>
    obtain ⟨rfl, rfl⟩ := List.append_singleton_inj.1 (hall.trans (List.nil_append _).symm)
    exact .inl ⟨rfl, rfl⟩
  | ended t t' code failed killed =>
    have hsplit : es ++ [e] = [.started t p] ++ [.ended t' p code failed killed] := hall
    obtain ⟨rfl, rfl⟩ := List.append_singleton_inj.1 hsplit
    exact .inr ⟨⟨t, rfl⟩, rfl⟩

lemma Story.of_append_singleton (h : Story p (es ++ [e])) : Story p es := by
  rcases h.of_concat with ⟨rfl, -⟩ | ⟨⟨t, rfl⟩, -⟩
  exacts [.untold, .started t]

lemma WellTold.of_concat (h : WellTold (log ++ [e])) : WellTold log := by
  intro p
  have hp := h p
  rw [eventsOf_concat] at hp
  split at hp
  exacts [hp.of_append_singleton, hp]

/-- The last event of a well told log is the start of a process that the log did not know, or the
end of one that was up. -/
lemma WellTold.last (h : WellTold (log ++ [e])) :
    eventsOf log e.process = [] ∧ e.isStart ∨
      (∃ t, eventsOf log e.process = [.started t e.process]) ∧ e.isStart = false := by
  have hp := h e.process
  rw [eventsOf_concat, if_pos rfl] at hp
  exact hp.of_concat

lemma EndTold.story {h : Handle} (ht : EndTold p h es) : Story p es := by
  obtain ⟨t, t', killed, rfl⟩ := ht
  exact .ended ..

/-- What is not in the log when a process has ended comes after its end. -/
lemma AfterEnd.of_grown {h : Handle} {log' : List Event} (hlog : log <+: log')
    (ht : EndTold p h (eventsOf log p)) (hq : eventsOf log q = []) : AfterEnd log' p q := by
  obtain ⟨t, t', killed, he⟩ := ht
  have hend : Event.ended t' p h.code h.failed killed ∈ log :=
    (mem_eventsOf.1 (by rw [he]; simp)).1
  intro pre e post hsplit heq
  obtain ⟨more, rfl⟩ := hlog
  refine ⟨.ended t' p h.code h.failed killed, ?_, rfl, rfl⟩
  rcases List.append_eq_append_iff.1 hsplit with ⟨as, rfl, -⟩ | ⟨bs, rfl, hbs⟩
  · exact List.mem_append_left _ hend
  · cases bs with
    | nil => simpa using hend
    | cons b bs =>
      obtain ⟨rfl, -⟩ := List.cons.inj hbs
      exact absurd (mem_eventsOf.2 ⟨by simp, heq⟩) (List.eq_nil_iff_forall_not_mem.1 hq e)

/-! ### How many are up -/

lemma mem_upAfter : p ∈ s.upAfter script es ↔
    (s.launch? p).map Launch.script = some script ∧ eventsOf es p ≠ [] ∧
      ∀ e ∈ eventsOf es p, e.isStart := by
  have hne : eventsOf es p ≠ [] ↔ ∃ e ∈ es, e.process = p := by
    simp [eventsOf]
  simp only [State.upAfter, Finset.mem_filter, List.mem_toFinset, List.mem_map, mem_eventsOf, hne,
    and_imp]
  tauto

/-- A process of another script, or one of which nothing new is said. -/
lemma mem_upAfter_concat_of_ne (h : e.process ≠ p) :
    p ∈ s.upAfter script (es ++ [e]) ↔ p ∈ s.upAfter script es := by
  rw [mem_upAfter, mem_upAfter, eventsOf_concat, if_neg h]

lemma upAfter_of_other (h : s.scriptOf? e ≠ some script) :
    s.upAfter script (es ++ [e]) = s.upAfter script es := by
  ext p
  by_cases hp : e.process = p
  · subst hp
    have hnot : (s.launch? e.process).map Launch.script ≠ some script := h
    simp [mem_upAfter, hnot]
  · exact mem_upAfter_concat_of_ne hp

lemma upAfter_of_start (h : s.scriptOf? e = some script) (hlog : eventsOf es e.process = [])
    (he : e.isStart) :
    s.upAfter script (es ++ [e]) = insert e.process (s.upAfter script es) := by
  ext p
  by_cases hp : e.process = p
  · subst hp
    have hscript : (s.launch? e.process).map Launch.script = some script := h
    simp [mem_upAfter, eventsOf_concat, hscript, hlog, he]
  · rw [mem_upAfter_concat_of_ne hp, Finset.mem_insert, or_iff_right (Ne.symm hp)]

lemma upAfter_of_end (he : e.isStart = false) :
    s.upAfter script (es ++ [e]) = (s.upAfter script es).erase e.process := by
  ext p
  by_cases hp : e.process = p
  · subst hp
    simp [mem_upAfter, eventsOf_concat, he]
  · rw [mem_upAfter_concat_of_ne hp, Finset.mem_erase, and_iff_right (Ne.symm hp)]

/-- One more event counts its process in or out. -/
lemma card_upAfter_concat (h : WellTold (es ++ [e])) (hs : s.scriptOf? e = some script) :
    (s.upAfter script (es ++ [e])).card =
      if e.isStart then (s.upAfter script es).card + 1 else (s.upAfter script es).card - 1 := by
  rcases h.last with ⟨hnew, he⟩ | ⟨⟨t, hup⟩, he⟩
  · have hnot : e.process ∉ s.upAfter script es := by simp [mem_upAfter, hnew]
    rw [upAfter_of_start hs hnew he, Finset.card_insert_of_notMem hnot, if_pos he]
  · have hscript : (s.launch? e.process).map Launch.script = some script := hs
    have hmem : e.process ∈ s.upAfter script es := by
      simp [mem_upAfter, hscript, hup, Event.isStart]
    rw [upAfter_of_end he, Finset.card_erase_of_mem hmem, if_neg (by simp [he])]

lemma concurrency_concat : s.concurrency script (es ++ [e]) =
    if s.scriptOf? e = some script then
      (max (s.concurrency script es).1
          (if e.isStart then (s.concurrency script es).2 + 1 else (s.concurrency script es).2 - 1),
        if e.isStart then (s.concurrency script es).2 + 1 else (s.concurrency script es).2 - 1)
    else s.concurrency script es := by
  simp only [State.concurrency, List.foldl_append, List.foldl_cons, List.foldl_nil]

/-- Along a well told log the second number is how many are up. -/
lemma concurrency_snd (h : WellTold es) :
    (s.concurrency script es).2 = (s.upAfter script es).card := by
  induction es using List.reverseRecOn with
  | nil => rfl
  | append_singleton es e ih =>
    have hup := ih h.of_concat
    rw [concurrency_concat]
    by_cases hs : s.scriptOf? e = some script
    · rw [if_pos hs, card_upAfter_concat h hs, hup]
    · rw [if_neg hs, upAfter_of_other hs, hup]

/-- The points of a longer log are those of the shorter one and its end. -/
lemma range_take_concat {α β : Type} (f : List α → β) (xs : List α) (x : α) :
    Set.range (fun k => f ((xs ++ [x]).take k)) =
      insert (f (xs ++ [x])) (Set.range fun k => f (xs.take k)) := by
  ext y
  simp only [Set.mem_range, Set.mem_insert_iff]
  constructor
  · rintro ⟨k, rfl⟩
    rcases Nat.lt_or_ge xs.length k with hk | hk
    · have hall : (xs ++ [x]).length ≤ k := by rwa [List.length_append]
      exact .inl (by rw [List.take_of_length_le hall])
    · exact .inr ⟨k, by rw [List.take_append_of_le_length hk]⟩
  · rintro (rfl | ⟨k, rfl⟩)
    · exact ⟨(xs ++ [x]).length, by rw [List.take_length]⟩
    · refine ⟨min k xs.length, ?_⟩
      rw [List.take_append_of_le_length (Nat.min_le_right ..), ← List.take_eq_take_min]

/-- **The first number is the largest count at any point of a well told log.** -/
theorem isGreatest_concurrency (h : WellTold es) :
    IsGreatest (Set.range fun k => (s.upAfter script (es.take k)).card)
      (s.concurrency script es).1 := by
  induction es using List.reverseRecOn with
  | nil => simp [State.concurrency, State.upAfter]
  | append_singleton es e ih =>
    have hmost := ih h.of_concat
    rw [range_take_concat (fun es => (s.upAfter script es).card)]
    -- an event of another script adds a point at which as many are up as before it
    by_cases hs : s.scriptOf? e = some script
    · have hup : (s.concurrency script (es ++ [e])).2 = (s.upAfter script (es ++ [e])).card :=
        concurrency_snd h
      rw [concurrency_concat, if_pos hs] at hup ⊢
      rw [← hup, max_comm]
      exact hmost.insert _
    · rw [concurrency_concat, if_neg hs, upAfter_of_other hs, Set.insert_eq_of_mem]
      · exact hmost
      · exact ⟨es.length, congrArg (fun es => (s.upAfter script es).card) List.take_length⟩

end ChainRunner.Run
