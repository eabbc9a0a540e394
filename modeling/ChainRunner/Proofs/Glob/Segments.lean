import ChainRunner.Proofs.Glob.Place
import ChainRunner.Proofs.Watch.Pattern

/-!
Globs segment by segment.

Globs may be joined by slashes, and a glob that is written with empty and `.` segments is one
without them as well: within a class such a segment stands behind a slash, and to start the next
range at that slash, or before it, is no harder than to start it behind.
-/

namespace ChainRunner.Glob.Place

open ChainRunner.Path Watch

variable {p p' q r : Place} {c : Char} {s t : List Char} {d : Nat} {segs : Segments}

/-! ### Globs within groups -/

/-- The place with more groups around it. -/
def within (k : Nat) : Place → Place
  | .text d => .text (d + k)
  | .escape d => .escape (d + k)
  | .opened d => .opened (d + k)
  | .negated d => .negated (d + k)
  | .members d lo pending => .members (d + k) lo pending

lemma next_within (k : Nat) (h : next p c = some q) : next (p.within k) c = some (q.within k) := by
  cases p <;> simp only [next, within] at h ⊢ <;> grind [within]

lemma walk_within (k : Nat) (h : walk p s = some q) : walk (p.within k) s = some (q.within k) := by
  induction s generalizing p with
  | nil => simpa using congrArg (Option.map (within k)) h
  | cons c s ih =>
    obtain ⟨r, hr, hs⟩ := Option.bind_eq_some_iff.1 h
    simp [next_within k hr, ih hs]

lemma walk_of_isGlob (h : IsGlob s) (d : Nat) : walk (.text d) s = some (.text d) := by
  simpa [within] using walk_within d (isGlob_iff.1 h)

lemma next_slash (d : Nat) : next (.text d) '/' = some (.text d) := by simp [next]

lemma isGlob_join (hs : IsGlob s) (ht : IsGlob t) : IsGlob (s ++ '/' :: t) := by
  rw [isGlob_iff, walk_append, isGlob_iff.1 hs]
  simpa [next_slash] using isGlob_iff.1 ht

lemma isGlob_nil : IsGlob [] := isGlob_iff.2 rfl

lemma isGlob_intercalate (h : ∀ seg ∈ segs, IsGlob seg) : IsGlob (['/'].intercalate segs) := by
  induction segs with
  | nil => exact isGlob_nil
  | cons x xs ih =>
    cases xs with
    | nil => simpa using h
    | cons y ys =>
      rw [List.intercalate_cons_cons, List.append_assoc]
      exact isGlob_join (h x (by simp)) (ih fun seg hs => h seg (by simp [hs]))

/-! ### What may follow -/

/-- What can be read from the second place can be read from the first. -/
inductive Le : Place → Place → Prop
  | refl (p : Place) : Le p p
  | members {d : Nat} {lo lo' : Char} {b : Bool} (h : lo ≤ lo') :
    Le (.members d lo b) (.members d lo' b)

lemma Le.trans (h : Le p q) (h' : Le q r) : Le p r := by
  cases h with
  | refl => exact h'
  | members h =>
    cases h' with
    | refl => exact .members h
    | members h' => exact .members (Char.le_trans h h')

lemma Le.eq_text (h : Le p (.text d)) : p = .text d := by cases h; rfl

lemma Le.next (h : Le p p') (hn : p'.next c = some q) : ∃ r, p.next c = some r ∧ Le r q := by
  cases h with
  | refl => exact ⟨q, hn, .refl _⟩
  | @members d lo lo' b hlo =>
    simp only [Place.next] at hn ⊢
    by_cases hc : c = ']'
    · exact ⟨q, by simpa [hc] using hn, .refl _⟩
    cases b with
    | true =>
      by_cases hlt : c < lo'
      · simp [hc, hlt] at hn
      · have hlt' : ¬ c < lo := fun h => hlt (Std.lt_of_lt_of_le h hlo)
        obtain rfl : _ = q := by simpa [hc, hlt] using hn
        exact ⟨_, by simp [hc, hlt'], .members hlo⟩
    | false =>
      by_cases hd : c = '-'
      · obtain rfl : _ = q := by simpa [hc, hd] using hn
        exact ⟨_, by simp [hd], .members hlo⟩
      · exact ⟨q, by simpa [hc, hd] using hn, .refl _⟩

lemma Le.walk (h : Le p p') (hw : p'.walk s = some q) : ∃ r, p.walk s = some r ∧ Le r q := by
  induction s generalizing p p' with
  | nil => exact ⟨p, rfl, by simpa [← Option.some.inj hw] using h⟩
  | cons c s ih =>
    obtain ⟨q', hq', hw⟩ := Option.bind_eq_some_iff.1 hw
    obtain ⟨r', hr', hle⟩ := h.next hq'
    obtain ⟨r, hr, hle⟩ := ih hle hw
    exact ⟨r, by simp [hr', hr], hle⟩

/-- Where a reader stands behind a slash. -/
def BehindSlash : Place → Prop
  | .text _ => True
  | .members _ lo pending => lo ≤ '/' ∧ pending = false
  | _ => False

lemma behindSlash_of_next (h : p.next '/' = some q) : BehindSlash q := by
  cases p with
  | members d lo b =>
    cases b with
    | true =>
      by_cases hlt : '/' < lo
      · simp [next, hlt] at h
      · obtain rfl : _ = q := by simpa [next, hlt] using h
        exact ⟨Char.not_lt.1 hlt, rfl⟩
    | false =>
      obtain rfl : _ = q := by simpa [next] using h
      exact ⟨Char.le_refl _, rfl⟩
  | _ =>
    obtain rfl : _ = q := by simpa [next] using h
    simp [BehindSlash]

lemma behindSlash_of_walk (h : p.walk (s ++ ['/']) = some q) : BehindSlash q := by
  rw [walk_append] at h
  obtain ⟨r, -, hr⟩ := Option.bind_eq_some_iff.1 h
  exact behindSlash_of_next (by simpa using hr)

/-- Nothing is lost with a segment that does not count. -/
lemma le_of_walk_skipped {seg : List Char} (hp : BehindSlash p) (hseg : counts seg = false)
    (h : p.walk (seg ++ ['/']) = some q) : Le p q := by
  have hseg : seg = [] ∨ seg = ['.'] := by simpa [counts, imp_iff_not_or] using hseg
  cases p with
  | text d =>
    obtain rfl : _ = q := by rcases hseg with rfl | rfl <;> simpa [next] using h
    exact .refl _
  | members d lo b =>
    obtain ⟨hlo, rfl⟩ := hp
    obtain rfl : _ = q := by rcases hseg with rfl | rfl <;> simpa [next] using h
    exact .members hlo
  | _ => exact hp.elim

/-- The segments, each before a slash. -/
def closed (segs : Segments) : List Char := segs.flatMap (· ++ ['/'])

lemma walk_closed_counts (hle : Le p p') (hp : BehindSlash p) (hp' : BehindSlash p')
    (h : p'.walk (closed segs) = some q) :
    ∃ r, p.walk (closed (segs.filter counts)) = some r ∧ Le r q := by
  induction segs generalizing p p' with
  | nil => exact ⟨p, rfl, by simpa [closed, ← Option.some.inj h] using hle⟩
  | cons x xs ih =>
    rw [closed, List.flatMap_cons, walk_append] at h
    obtain ⟨u', hu', h⟩ := Option.bind_eq_some_iff.1 h
    by_cases hx : counts x
    · obtain ⟨u, hu, hle⟩ := hle.walk hu'
      obtain ⟨r, hr, hrq⟩ := ih hle (behindSlash_of_walk hu) (behindSlash_of_walk hu') h
      refine ⟨r, ?_, hrq⟩
      rw [List.filter_cons_of_pos hx, closed, List.flatMap_cons, walk_append, hu]
      exact hr
    · have hskip := le_of_walk_skipped hp' (by simpa using hx) hu'
      rw [List.filter_cons_of_neg hx]
      exact ih (hle.trans hskip) hp (behindSlash_of_walk hu') h

lemma closed_eq (h : segs ≠ []) : closed segs = ['/'].intercalate segs ++ ['/'] := by
  induction segs with
  | nil => contradiction
  | cons x xs ih =>
    cases xs with
    | nil => simp [closed]
    | cons y ys =>
      rw [closed, List.flatMap_cons, ← closed, ih (by simp), List.intercalate_cons_cons]
      simp

lemma intercalate_concat (segs : Segments) (x : List Char) :
    ['/'].intercalate (segs ++ [x]) = closed segs ++ x := by
  cases segs with
  | nil => simp [closed]
  | cons y ys =>
    rw [intercalate_append (by simp) (by simp), closed_eq (by simp)]
    simp

lemma walk_closed (h : ∀ seg ∈ segs, IsGlob seg) (d : Nat) :
    walk (.text d) (closed segs) = some (.text d) := by
  induction segs with
  | nil => rfl
  | cons x xs ih =>
    rw [closed, List.flatMap_cons, ← closed, walk_append, walk_append,
      walk_of_isGlob (h x (by simp))]
    simpa [next_slash] using ih fun seg hs => h seg (by simp [hs])

/-! ### Without the segments that do not count -/

lemma eq_escape_of_walk (hs : '\\' ∉ s) (h : walk (.text d) s = some q) (e : Nat) :
    q ≠ .escape e := by
  rintro rfl
  rcases List.eq_nil_or_concat s with rfl | ⟨s, c, rfl⟩
  · simp at h
  · rw [List.concat_eq_append, walk_append] at h
    obtain ⟨p, -, hc⟩ := Option.bind_eq_some_iff.1 h
    have hc : c = '\\' := by
      simp only [walk_cons, walk_nil, Option.bind_eq_some_iff, Option.some.injEq] at hc
      obtain ⟨r, hn, rfl⟩ := hc
      cases p <;> simp only [next] at hn <;> grind
    simp [hc] at hs

/-- Before a slash outside of classes and escapes everything is closed. -/
lemma walk_of_walk_slash (hs : '\\' ∉ s) (h : walk (.text d) (s ++ ['/']) = some (.text 0)) :
    walk (.text d) s = some (.text 0) := by
  rw [walk_append] at h
  obtain ⟨p, hp, hn⟩ := Option.bind_eq_some_iff.1 h
  have hesc := eq_escape_of_walk hs hp
  have hn : p.next '/' = some (.text 0) := by simpa using hn
  cases p <;> simp only [next] at hn <;> grind

/-- A file below the text shows whether the text is a glob. -/
lemma isGlob_of_file (hs : '\\' ∉ s) (h : walk (.text 0) (s ++ ['/', 'x']) = some (.text 0)) :
    IsGlob s := by
  rw [← List.singleton_append, ← List.append_assoc, walk_append] at h
  obtain ⟨p, hp, hx⟩ := Option.bind_eq_some_iff.1 h
  have hslash := behindSlash_of_walk hp
  have hx : p.next 'x' = some (.text 0) := by simpa using hx
  have htext : p = .text 0 := by
    cases p with
    | text d => simpa [next] using hx
    | members d lo b =>
      obtain ⟨-, rfl⟩ := hslash
      simp [next] at hx
    | _ => exact hslash.elim
  exact isGlob_iff.2 (walk_of_walk_slash hs (htext ▸ hp))

/-- **A glob stays one without its empty and `.` segments.** -/
theorem isGlob_counts (hs : '\\' ∉ s) (h : IsGlob s) :
    IsGlob (['/'].intercalate ((segments s).filter counts)) := by
  by_cases hnil : (segments s).filter counts = []
  · rw [hnil]
    exact isGlob_nil
  have hclosed : walk (.text 0) (closed (segments s)) = some (.text 0) := by
    rw [closed_eq (by simp [segments]), intercalate_segments, walk_append, isGlob_iff.1 h]
    simp [next_slash]
  obtain ⟨r, hr, hle⟩ := walk_closed_counts (.refl _) (p := .text 0) trivial trivial hclosed
  rw [hle.eq_text, closed_eq hnil] at hr
  refine isGlob_iff.2 (walk_of_walk_slash (fun hb => ?_) hr)
  obtain ⟨u, v, hb⟩ := List.append_of_mem hb
  have hin := infix_of_infix_counts (w := ['\\']) (s := s) (by decide) (by simp)
    ⟨u, v, by rw [hb]; simp⟩
  exact hs (hin.subset (by simp))

end ChainRunner.Glob.Place
