import ChainRunner.Process.Supervision
import ChainRunner.Proofs.Interleaving

/-!
What is heard of a process that is up, from any time on until it is over.

Its streams come in chunks, each until it is closed, and at some time the process leaves: in any
order that keeps that of each stream. So what may come next depends on what has come.
-/

namespace ChainRunner.Supervision

open Text

/-- A stream in chunks, and its end. -/
def delivery (errors : Bool) (chunks : List Bytes) : List News :=
  chunks.map (.wrote errors) ++ [.closed errors]

/-- All that is heard of a process with these streams that leaves with `code`. -/
def Heard (out err : Bytes) (code : Option Int) (news : List News) : Prop :=
  ∃ outs errs streams, outs.flatten = out ∧ errs.flatten = err ∧
    Interleaves (delivery false outs) (delivery true errs) streams ∧
      Interleaves streams [.exited code] news

/-- The stream that some news are about. -/
def News.stream? : News → Option Bool
  | .wrote errors _ => some errors
  | .closed errors => some errors
  | _ => none

/-- What some news bring of a stream. -/
def News.bytes (errors : Bool) : News → Bytes
  | .wrote e chunk => if e = errors then chunk else []
  | _ => []

def written (errors : Bool) (news : List News) : Bytes := news.flatMap (News.bytes errors)

variable {out err : Bytes} {code : Option Int} {errors : Bool} {news seen late : List News}
  {n : News} {chunks : List Bytes}

lemma stream?_of_mem_delivery (hn : n ∈ delivery errors chunks) : n.stream? = some errors := by
  rcases List.mem_append.1 hn with hn | hn
  · obtain ⟨chunk, -, rfl⟩ := List.mem_map.1 hn
    rfl
  · obtain rfl := List.mem_singleton.1 hn
    rfl

lemma closed_notMem_of_delivery {us vs : List News} (h : delivery errors chunks = us ++ n :: vs) :
    .closed errors ∉ us := by
  have hinit : chunks.map (.wrote errors) = us ++ (n :: vs).dropLast := by
    rw [← List.dropLast_append_cons, ← h, delivery, List.dropLast_concat]
  intro hmem
  have hwrote : News.closed errors ∈ chunks.map (.wrote errors) :=
    hinit ▸ List.mem_append_left _ hmem
  simp at hwrote

lemma Heard.filter_stream (h : Heard out err code news) (errors : Bool) :
    ∃ chunks, chunks.flatten = (if errors then err else out) ∧
      news.filter (·.stream? = some errors) = delivery errors chunks := by
  obtain ⟨outs, errs, streams, rfl, rfl, hstreams, hnews⟩ := h
  have hfilter : news.filter (·.stream? = some errors) =
      streams.filter (·.stream? = some errors) := by
    simp only [← List.filterMap_eq_filter]
    exact hnews.filterMap_left (by simp [News.stream?, Option.guard])
  have hown {e : Bool} {chunks : List Bytes} :
      ∀ n ∈ delivery e chunks, decide (n.stream? = some e) = true :=
    fun n hn => by simp [stream?_of_mem_delivery hn]
  have hother {e : Bool} {chunks : List Bytes} :
      ∀ n ∈ delivery e chunks, decide (n.stream? = some !e) = false :=
    fun n hn => by simp [stream?_of_mem_delivery hn]
  cases errors with
  | false => exact ⟨outs, rfl, hfilter.trans (hstreams.filter_left hown hother)⟩
  | true => exact ⟨errs, rfl, hfilter.trans (hstreams.swap.filter_left hown hother)⟩

lemma Heard.filter_exit (h : Heard out err code news) :
    news.filter (·.stream? = none) = [.exited code] := by
  obtain ⟨outs, errs, streams, -, -, hstreams, hnews⟩ := h
  refine hnews.swap.filter_left (by simp [News.stream?]) fun n hn => ?_
  rcases hstreams.mem_iff.1 hn with hn | hn <;> simp [stream?_of_mem_delivery hn]

/-- What may be heard next. -/
structure Next (code : Option Int) (seen : List News) (n : News) : Prop where
  exits : n.stream? = none → n = .exited code ∧ .exited code ∉ seen
  isOpen : ∀ errors, n.stream? = some errors → .closed errors ∉ seen

lemma Heard.next (h : Heard out err code (seen ++ n :: late)) : Next code seen n where
  exits hn := by
    have hfilter := h.filter_exit
    rw [List.filter_append, List.filter_cons_of_pos (by simpa using hn)] at hfilter
    obtain ⟨hseen, hexit, -⟩ : seen.filter (·.stream? = none) = [] ∧ n = .exited code ∧
        late.filter (·.stream? = none) = [] := by
      simpa [List.append_eq_cons_iff] using hfilter
    refine ⟨hexit, fun hmem => ?_⟩
    simpa [News.stream?] using List.filter_eq_nil_iff.1 hseen _ hmem
  isOpen errors hn := by
    obtain ⟨chunks, -, hfilter⟩ := h.filter_stream errors
    rw [List.filter_append, List.filter_cons_of_pos (by simpa using hn)] at hfilter
    exact fun hmem => closed_notMem_of_delivery hfilter.symm
      (List.mem_filter.2 ⟨hmem, by simp [News.stream?]⟩)

/-- Everything has been heard: the process has left and its streams are closed. -/
def Complete (code : Option Int) (seen : List News) : Prop :=
  .exited code ∈ seen ∧ ∀ errors, .closed errors ∈ seen

instance (code : Option Int) (seen : List News) : Decidable (Complete code seen) :=
  decidable_of_iff (.exited code ∈ seen ∧ .closed false ∈ seen ∧ .closed true ∈ seen)
    (by rw [Complete, Bool.forall_bool])

lemma Heard.complete (h : Heard out err code news) : Complete code news := by
  refine ⟨List.mem_of_mem_filter (h.filter_exit ▸ List.mem_singleton_self _), fun errors => ?_⟩
  obtain ⟨chunks, -, hfilter⟩ := h.filter_stream errors
  have hmem : News.closed errors ∈ delivery errors chunks := by simp [delivery]
  exact List.mem_of_mem_filter (hfilter ▸ hmem)

lemma Next.not_complete (h : Next code seen n) : ¬ Complete code seen := by
  rintro ⟨hexit, hclosed⟩
  cases hn : n.stream? with
  | none => exact (h.exits hn).2 hexit
  | some errors => exact h.isOpen errors hn (hclosed errors)

/-- Nothing is heard once everything has been. -/
lemma Heard.complete_iff (h : Heard out err code news) (hs : seen <+: news) :
    Complete code seen ↔ seen = news := by
  refine ⟨fun hc => ?_, fun heq => heq ▸ h.complete⟩
  obtain ⟨late, rfl⟩ := hs
  cases late with
  | nil => simp
  | cons n late => exact absurd hc h.next.not_complete

lemma bytes_eq_nil (hn : n.stream? ≠ some errors) : n.bytes errors = [] := by
  cases n <;> simp_all [News.bytes, News.stream?]

lemma written_filter (errors : Bool) (news : List News) :
    written errors (news.filter (·.stream? = some errors)) = written errors news := by
  induction news with
  | nil => rfl
  | cons n news ih =>
    by_cases hn : n.stream? = some errors
    · rw [List.filter_cons_of_pos (by simpa using hn)]
      exact congrArg (News.bytes errors n ++ ·) ih
    · rw [List.filter_cons_of_neg (by simpa using hn), ih]
      simp [written, bytes_eq_nil hn]

lemma Heard.written_eq (h : Heard out err code news) (errors : Bool) :
    written errors news = if errors then err else out := by
  obtain ⟨chunks, hchunks, hfilter⟩ := h.filter_stream errors
  rw [← hchunks, ← written_filter, hfilter]
  simp [written, delivery, News.bytes, List.flatMap_map, List.flatMap_id']

lemma written_concat (errors : Bool) (seen : List News) (n : News) :
    written errors (seen ++ [n]) = written errors seen ++ n.bytes errors := by simp [written]

lemma written_eq_nil :
    written errors news = [] ↔ ∀ chunk, .wrote errors chunk ∈ news → chunk = [] := by
  simp only [written, List.flatMap_eq_nil_iff]
  constructor
  · intro hall chunk hmem
    simpa [News.bytes] using hall _ hmem
  · intro hall n hmem
    cases n with
    | wrote e chunk =>
      simp only [News.bytes, ite_eq_right_iff]
      rintro rfl
      exact hall chunk hmem
    | _ => rfl

end ChainRunner.Supervision
