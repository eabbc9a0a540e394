import ChainRunner.Proofs.Process.Capture
import ChainRunner.Proofs.Process.Heard
import ChainRunner.Proofs.Process.Supervision

/-!
How a process that is up comes to its end, and which lines it has written by then.

The handle is finished when the last of what is heard of the process has come and not before.
-/

namespace ChainRunner.Supervision

open Text

/-- A supervision and its handle after some news, each with its time, and the lines so far. -/
def follow (s : Supervision) (h : Handle) (news : List (Nat × News)) :
    Supervision × Handle × List Line :=
  news.foldl
    (fun (s, h, lines) (now, n) =>
      let r := s.step now h n
      (r.1, r.2.1, lines ++ r.2.2))
    (s, h, [])

/-- The lines written to one of the streams. -/
def linesOn (errors : Bool) (lines : List Line) : List String :=
  lines.filterMap fun l => if l.1 = errors then some l.2 else none

variable {h : Handle} {s : Supervision} {out err chunk : Bytes} {code : Option Int} {errors : Bool}
  {news seen : List News} {n : News} {now : Nat} {lines : List Line}

/-! ### One more of the news -/

def capture (s : Supervision) : Bool → Capture
  | false => s.out
  | true => s.err

def isOpen (s : Supervision) : Bool → Bool
  | false => s.outOpen
  | true => s.errOpen

/-- The supervision once one of the streams is at its end. -/
def shut (s : Supervision) : Bool → Supervision
  | false => { s with out := {}, outOpen := false }
  | true => { s with err := {}, errOpen := false }

section

variable (s : Supervision) (h : Handle) (errors e : Bool)

lemma step_closed : s.step now h (.closed errors) =
    ((conclude now (s.shut errors) h).1, (conclude now (s.shut errors) h).2,
      (s.capture errors).finish.map fun l => (errors, l)) := by
  cases errors <;> rfl

@[simp] lemma stage_shut : (s.shut errors).stage = s.stage := by cases errors <;> rfl

lemma isOpen_shut : (s.shut errors).isOpen e = if errors = e then false else s.isOpen e := by
  cases errors <;> cases e <;> rfl

lemma capture_shut (hne : errors ≠ e) : (s.shut errors).capture e = s.capture e := by
  cases errors <;> cases e <;> first | rfl | exact absurd rfl hne

@[simp] lemma stage_wrote : (s.step now h (.wrote errors chunk)).1.stage = s.stage := by
  cases errors <;> rfl

@[simp] lemma isOpen_wrote :
    (s.step now h (.wrote errors chunk)).1.isOpen e = s.isOpen e := by
  cases errors <;> cases e <;> rfl

lemma capture_wrote : (s.step now h (.wrote errors chunk)).1.capture e =
    if errors = e then ((s.capture e).feed chunk).1 else s.capture e := by
  cases errors <;> cases e <;> rfl

lemma lines_wrote : (s.step now h (.wrote errors chunk)).2.2 =
    ((s.capture errors).feed chunk).2.map fun l => (errors, l) := by
  cases errors <;> rfl

@[simp] lemma hasEnded_wrote :
    (s.step now h (.wrote errors chunk)).2.1.hasEnded = h.hasEnded := by
  cases errors with
  | false => rfl
  | true =>
    simp only [step, Handle.markStderr]
    split
    · rfl
    · split <;> rfl

end

/-- What has come of one stream. -/
def Reads (seen : List News) (s : Supervision) (lines : List Line) (errors : Bool) : Prop :=
  if .closed errors ∈ seen then
    s.isOpen errors = false ∧ linesOn errors lines = Capture.linesOf (written errors seen)
  else
    s.isOpen errors = true ∧
      Capture.Caught (written errors seen) (s.capture errors) (linesOn errors lines)

/-- Where a supervision stands that has met `seen`. -/
structure Tracks (code : Option Int) (seen : List News) (s : Supervision) (h : Handle)
    (lines : List Line) : Prop where
  stage : s.stage = if Complete code seen then .done
    else if .exited code ∈ seen then .exited code else .running
  reads : ∀ errors, Reads seen s lines errors
  ended : h.hasEnded ↔ Complete code seen
  code : Complete code seen → h.code = code

@[simp] lemma linesOn_append (errors : Bool) (ls ls' : List Line) :
    linesOn errors (ls ++ ls') = linesOn errors ls ++ linesOn errors ls' := by simp [linesOn]

lemma linesOn_map (errors e : Bool) (ls : List String) :
    linesOn e (ls.map fun l => (errors, l)) = if errors = e then ls else [] := by
  simp only [linesOn, List.filterMap_map, Function.comp_def]
  split <;> simp

/-- Nothing has come of the stream. -/
lemma Reads.keep {s' : Supervision} {lines' : List Line} (hr : Reads seen s lines errors)
    (hn : n.stream? ≠ some errors) (hopen : s'.isOpen errors = s.isOpen errors)
    (hcapture : s'.capture errors = s.capture errors)
    (hlines : linesOn errors lines' = []) : Reads (seen ++ [n]) s' (lines ++ lines') errors := by
  have hclosed : News.closed errors ∈ seen ++ [n] ↔ .closed errors ∈ seen := by
    simp only [List.mem_append, List.mem_singleton, or_iff_left_iff_imp]
    rintro rfl
    exact absurd rfl hn
  have hwritten : written errors (seen ++ [n]) = written errors seen := by
    rw [written_concat, bytes_eq_nil hn, List.append_nil]
  simpa only [Reads, hclosed, hwritten, hopen, hcapture, linesOn_append, hlines, List.append_nil]
    using hr

/-- A chunk of one of the streams. -/
lemma Reads.wrote (hr : ∀ e, Reads seen s lines e) (hopen : .closed errors ∉ seen) (e : Bool) :
    Reads (seen ++ [.wrote errors chunk]) (s.step now h (.wrote errors chunk)).1
      (lines ++ (s.step now h (.wrote errors chunk)).2.2) e := by
  rw [lines_wrote]
  by_cases he : errors = e
  · subst he
    have hr := hr errors
    have hopen' : News.closed errors ∉ seen ++ [.wrote errors chunk] := by simpa using hopen
    rw [Reads, if_neg hopen] at hr
    rw [Reads, if_neg hopen', isOpen_wrote, capture_wrote, written_concat, linesOn_append,
      linesOn_map]
    simp only [News.bytes, if_true]
    exact ⟨hr.1, hr.2.feed chunk⟩
  · refine (hr e).keep (by simpa [News.stream?] using he) (isOpen_wrote ..) ?_ ?_
    · rw [capture_wrote, if_neg he]
    · rw [linesOn_map, if_neg he]

/-- The end of one of the streams. -/
lemma Reads.closed (hr : ∀ e, Reads seen s lines e) (hopen : .closed errors ∉ seen) (e : Bool) :
    Reads (seen ++ [.closed errors]) (s.shut errors)
      (lines ++ (s.capture errors).finish.map fun l => (errors, l)) e := by
  by_cases he : errors = e
  · subst he
    have hr := hr errors
    rw [Reads, if_neg hopen] at hr
    have hwritten : written errors (seen ++ [.closed errors]) = written errors seen := by
      rw [written_concat]
      exact List.append_nil _
    rw [Reads, if_pos (by simp), hwritten, linesOn_append, linesOn_map, if_pos rfl]
    exact ⟨by rw [isOpen_shut, if_pos rfl], hr.2.finish⟩
  · refine (hr e).keep (by simpa [News.stream?] using he) ?_ (capture_shut s errors e he) ?_
    · rw [isOpen_shut, if_neg he]
    · rw [linesOn_map, if_neg he]

/-- The handle is finished once the process has left and its streams are closed. -/
lemma tracks_conclude
    (hstage : s.stage = if .exited code ∈ seen then .exited code else .running)
    (hreads : ∀ errors, Reads seen s lines errors) (hh : h.hasEnded = false) :
    Tracks code seen (conclude now s h).1 (conclude now s h).2 lines := by
  have hopen (e : Bool) : s.isOpen e = true ↔ .closed e ∉ seen := by
    have hr := hreads e
    unfold Reads at hr
    split at hr <;> simp_all
  have hout := hopen false
  have herr := hopen true
  simp only [isOpen] at hout herr
  by_cases hc : Complete code seen
  · have hconclude : conclude now s h =
        ({ s with stage := .done }, (h.finish now code (code != some 0)).1) := by
      simp [conclude, hstage, hc.1, hc.2, hout, herr]
    rw [hconclude]
    refine ⟨by simp [hc], hreads, by simp [hc], fun _ => ?_⟩
    simp [Handle.finish, hh]
  · have hconclude : conclude now s h = (s, h) := by
      by_cases hexit : News.exited code ∈ seen
      · have hsome : s.outOpen || s.errOpen := by
          simp only [Complete, hexit, true_and, Bool.forall_bool, not_and_or] at hc
          simpa [hout, herr] using hc
        simp [conclude, hstage, hexit, hsome]
      · simp [conclude, hstage, hexit]
    rw [hconclude]
    exact ⟨by rw [if_neg hc, hstage], hreads, by simp [hc, hh], fun h => absurd h hc⟩

lemma Tracks.step (ht : Tracks code seen s h lines) (hn : Next code seen n) (now : Nat) :
    Tracks code (seen ++ [n]) (s.step now h n).1 (s.step now h n).2.1
      (lines ++ (s.step now h n).2.2) := by
  have hgoing := hn.not_complete
  have hended : h.hasEnded = false := by simpa [hgoing] using ht.ended
  have hstage : s.stage = if .exited code ∈ seen then .exited code else .running := by
    simpa [hgoing] using ht.stage
  cases n with
  | spawned pid => cases (hn.exits rfl).1
  | notSpawned => cases (hn.exits rfl).1
  | wrote errors chunk =>
    have hgoing' : ¬ Complete code (seen ++ [.wrote errors chunk]) := by
      simpa [Complete] using hgoing
    refine ⟨?_, Reads.wrote ht.reads (hn.isOpen errors rfl), ?_, fun hc => absurd hc hgoing'⟩
    · simpa [hgoing'] using hstage
    · simpa [hgoing'] using hended
  | closed errors =>
    rw [step_closed]
    exact tracks_conclude (by simpa using hstage) (Reads.closed ht.reads (hn.isOpen errors rfl))
      hended
  | exited code' =>
    obtain ⟨heq, -⟩ := hn.exits rfl
    cases heq
    exact tracks_conclude (by simp) (fun e => (ht.reads e).keep (by simp [News.stream?])
      (by cases e <;> rfl) (by cases e <;> rfl) rfl) hended

/-! ### The whole of it -/

lemma run_eq_follow (now : Nat) (s : Supervision) (h : Handle) (news : List News) :
    run now s h news = follow s h (news.map (now, ·)) := by
  simp only [run, follow, List.foldl_map]

/-- What has become of a process that is up after some news of it. -/
def fromStart (h : Handle) (now pid : Nat) (news : List (Nat × News)) :
    Supervision × Handle × List Line := follow {} h ((now, .spawned pid) :: news)

lemma fromStart_concat (h : Handle) (now pid : Nat) (news : List (Nat × News)) (n : Nat × News) :
    fromStart h now pid (news ++ [n]) =
      (let r := fromStart h now pid news
      let r' := r.1.step n.1 r.2.1 n.2
      (r'.1, r'.2.1, r.2.2 ++ r'.2.2)) := by
  simp only [fromStart, follow, ← List.cons_append, List.foldl_append, List.foldl_cons,
    List.foldl_nil]

lemma handle_fromStart (h : Handle) (now pid : Nat) (news : List (Nat × News)) :
    handleAfter h ((now, .spawned pid) :: news) = (fromStart h now pid news).2.1 := by
  unfold handleAfter fromStart follow watch
  generalize ({} : Supervision) = s
  generalize ([] : List Line) = lines
  generalize (now, News.spawned pid) :: news = news
  induction news generalizing s h lines with
  | nil => rfl
  | cons n news ih => exact ih ..

lemma follows_fromStart (h : Handle) (now pid : Nat) (news late : List (Nat × News)) :
    (fromStart h now pid news).2.1.Follows (fromStart h now pid (news ++ late)).2.1 := by
  induction late using List.reverseRecOn with
  | nil => simpa using .refl _
  | append_singleton late n ih =>
    refine ih.trans ?_
    rw [← List.append_assoc, fromStart_concat]
    exact follows_step ..

variable {timed : List (Nat × News)} {pid : Nat}

/-- The process is up and nothing has been heard of it. -/
lemma tracks_spawned (hended : h.hasEnded = false) :
    Tracks code [] (({} : Supervision).step now h (.spawned pid)).1 (h.start now (some pid))
      [] where
  stage := by simp [step, Complete]
  reads errors := by
    rw [Reads, if_neg List.not_mem_nil]
    cases errors <;> exact ⟨rfl, Capture.caught_nil⟩
  ended := by
    have hnone : (h.start now (some pid)).hasEnded = h.hasEnded := rfl
    simp [hnone, hended, Complete]
  code hc := absurd hc.1 List.not_mem_nil

lemma Heard.tracks (hheard : Heard out err code news) (hended : h.hasEnded = false)
    (now pid : Nat) (hseen : timed.map Prod.snd <+: news) :
    Tracks code (timed.map Prod.snd) (fromStart h now pid timed).1 (fromStart h now pid timed).2.1
      (fromStart h now pid timed).2.2 := by
  induction timed using List.reverseRecOn with
  | nil => exact tracks_spawned hended
  | append_singleton timed n ih =>
    obtain ⟨late, hlate⟩ := hseen
    have hnews : news = timed.map Prod.snd ++ n.2 :: late := by simpa using hlate.symm
    have htracks := (ih ⟨n.2 :: late, hnews.symm⟩).step (hnews ▸ hheard).next n.1
    rw [fromStart_concat, List.map_append]
    exact htracks

lemma Heard.ended_iff (hheard : Heard out err code (timed.map Prod.snd))
    (hended : h.hasEnded = false) (now pid : Nat) {seen : List (Nat × News)}
    (hseen : seen <+: timed) :
    (fromStart h now pid seen).2.1.hasEnded ↔ seen = timed := by
  have hprefix : seen.map Prod.snd <+: timed.map Prod.snd := hseen.map Prod.snd
  rw [(hheard.tracks hended now pid hprefix).ended, hheard.complete_iff hprefix]
  refine ⟨fun heq => hseen.eq_of_length ?_, fun heq => heq ▸ rfl⟩
  simpa using congrArg List.length heq

/-- A process in the foreground that writes to its error stream does so before it is over. -/
lemma Heard.stained_iff (hheard : Heard out err code (timed.map Prod.snd))
    (hended : h.hasEnded = false) :
    Stained h ((now, .spawned pid) :: timed) ↔ h.background = false ∧ err ≠ [] := by
  have herr : err = [] ↔ ∀ chunk, .wrote true chunk ∈ timed.map Prod.snd → chunk = [] := by
    have hwritten : written true (timed.map Prod.snd) = err := hheard.written_eq true
    rw [← hwritten, written_eq_nil]
  refine and_congr_right fun _ => ?_
  rw [ne_eq, herr]
  constructor
  · rintro ⟨pre, at_, chunk, post, heq, hne, -⟩ hall
    have hmem : (at_, News.wrote true chunk) ∈ timed := by
      have hmem : (at_, News.wrote true chunk) ∈ (now, News.spawned pid) :: timed := by simp [heq]
      simpa using hmem
    exact hne (hall chunk (List.mem_map_of_mem hmem))
  · intro hsome
    push Not at hsome
    obtain ⟨chunk, hmem, hne⟩ := hsome
    obtain ⟨⟨at_, _⟩, hmem, rfl⟩ := List.mem_map.1 hmem
    obtain ⟨pre, post, rfl⟩ := List.append_of_mem hmem
    refine ⟨_ :: pre, at_, chunk, post, rfl, hne, ?_⟩
    have hnot : pre ≠ pre ++ (at_, News.wrote true chunk) :: post := by simp
    rw [handle_fromStart]
    simpa [hnot] using hheard.ended_iff hended now pid (List.prefix_append ..)

/-- **How a process ends**, however its streams and its exit are heard of. It is over when all has
been heard and not before; it fails by its status or, in the foreground, by a single byte of its
error stream; and by then the lines of both streams have been given. -/
theorem outcome_of_heard (h : Handle) (hended : h.hasEnded = false) (hfailed : h.failed = false)
    (out err : Bytes) (code : Option Int) (now pid : Nat) (news : List (Nat × News))
    (hheard : Heard out err code (news.map Prod.snd)) :
    (∀ seen, seen <+: news → ((fromStart h now pid seen).2.1.hasEnded ↔ seen = news)) ∧
    (∀ late, (fromStart h now pid (news ++ late)).2.1.outcome? =
      some (code, decide (code ≠ some 0 ∨ h.background = false ∧ err ≠ []))) ∧
    ∀ errors, linesOn errors (fromStart h now pid news).2.2 =
      Capture.linesOf (if errors then err else out) := by
  have htracks := hheard.tracks hended now pid List.prefix_rfl
  have hover : (fromStart h now pid news).2.1.hasEnded := htracks.ended.2 hheard.complete
  refine ⟨fun seen hseen => hheard.ended_iff hended now pid hseen, fun late => ?_, fun errors => ?_⟩
  · have hcode : (fromStart h now pid news).2.1.code = code := htracks.code hheard.complete
    have hfails : (fromStart h now pid news).2.1.failed =
        decide (code ≠ some 0 ∨ h.background = false ∧ err ≠ []) := by
      have hiff := failed_iff h hended hfailed ((now, .spawned pid) :: news)
      rw [handle_fromStart, hheard.stained_iff hended, hover, hcode] at hiff
      rw [Bool.eq_iff_iff, hiff, decide_eq_true_iff]
      simp
    have hfollows := follows_fromStart h now pid news late
    obtain ⟨-, hcode', hfails'⟩ := hfollows.ended hover
    rw [Handle.outcome?, if_pos (hfollows.hasEnded hover), hcode', hfails', hcode, hfails]
  · have hreads := htracks.reads errors
    rw [Reads, if_pos (hheard.complete.2 errors), hheard.written_eq] at hreads
    exact hreads.2

/-- A character comes in two chunks, and the error stream has its one byte when the process has
left. -/
theorem outcome_of_heard_late_error :
    (∀ late, (fromStart { name := "p", background := false } 0 7 ([(1, .wrote false [104, 195]),
        (2, .exited (some 0)), (3, .wrote false [169, 13, 10, 120]), (4, .wrote true [10]),
        (5, .closed true), (6, .closed false)] ++ late)).2.1.outcome? = some (some 0, true)) ∧
    linesOn false (fromStart { name := "p", background := false } 0 7
        [(1, .wrote false [104, 195]), (2, .exited (some 0)), (3, .wrote false [169, 13, 10, 120]),
        (4, .wrote true [10]), (5, .closed true), (6, .closed false)]).2.2 = ["hé", "x"] := by
  have hheard : Heard [104, 195, 169, 13, 10, 120] [10] (some 0)
      [.wrote false [104, 195], .exited (some 0), .wrote false [169, 13, 10, 120],
        .wrote true [10], .closed true, .closed false] :=
    ⟨[[104, 195], [169, 13, 10, 120]], [[10]], _, rfl, rfl,
      .left (.left (.right (.right (.left .nil)))),
      .left (.right (.left (.left (.left (.left .nil)))))⟩
  obtain ⟨-, houtcome, hlines⟩ := outcome_of_heard { name := "p", background := false } rfl rfl
    [104, 195, 169, 13, 10, 120] [10] (some 0) 0 7 [(1, .wrote false [104, 195]),
      (2, .exited (some 0)), (3, .wrote false [169, 13, 10, 120]), (4, .wrote true [10]),
      (5, .closed true), (6, .closed false)] hheard
  exact ⟨houtcome, (hlines false).trans (by decide +kernel)⟩

end ChainRunner.Supervision
