import ChainRunner.Proofs.Run.Names

/-!
Display names across nesting.

Each run hands out its own names, and a chain nested in it begins anew. So what the processes
started for a run are called can be read off its expression, with every chain in it replaced by
its own plan; and nothing keeps two of them from being called the same.
-/

namespace ChainRunner.Run

/-! ### Names by plan -/

/-- What a planned member asks the registry for. -/
def Planned.asked? : Planned → Option String
  | .launch i => some i.displayName
  | .chain target _ => some target
  | .unknown target mode => if mode = .sequential then some target else none

/-- What asks for a name, with the name it gets. -/
def called (xs : List Planned) : List (Planned × String) :=
  (xs.filter (·.asked?.isSome)).zip (Names.handOut .empty (xs.filterMap Planned.asked?))

section

variable {xs ys : List Planned} {m : Manifest} {vars : Variables} {e e' target title : String}
  {mode : Mode}

lemma nests_of_called (hx : (.chain target mode, title) ∈ called (plan m e vars).flatten)
    (hm : m.resolve target = .chain e') : m.Nests e e' :=
  nests_of_planned (List.mem_filter.1 (List.of_mem_zip hx).1).1 hm

lemma handOut_prefix {asked more : List String} (h : asked <+: more) :
    Names.handOut .empty asked <+: Names.handOut .empty more := by
  obtain ⟨later, rfl⟩ := h
  induction later using List.reverseRecOn with
  | nil => simp
  | append_singleton later name ih =>
    rw [← List.append_assoc, handOut_concat]
    exact ih.trans (List.prefix_append ..)

/-- What asks later does not change the names of what has asked. -/
lemma called_mono (h : xs <+: ys) : called xs <+: called ys := by
  obtain ⟨later, rfl⟩ := h
  obtain ⟨names, hnames⟩ := handOut_prefix ((List.prefix_append xs later).filterMap Planned.asked?)
  unfold called
  rw [← hnames, List.filter_append, List.zip_append]
  · exact List.prefix_append ..
  · rw [length_handOut, List.length_filterMap_eq_countP, List.countP_eq_length_filter]

end

/-- The names of the instances that an expression comes to. -/
def titles (m : Manifest) (vars : Variables) (e : String) : List String :=
  (called (plan m e vars).flatten).attach.flatMap fun ⟨(x, title), _hx⟩ =>
    match x with
    | .launch _ => [title]
    | .chain target _ =>
      match _hm : m.resolve target with
      | .chain e' => titles m vars e'
      | _ => []
    | .unknown _ _ => []
termination_by m.height e
decreasing_by exact m.height_lt_of_nests (nests_of_called _hx _hm)

/-- The names of the instances that a planned member comes to, which is called `title` itself. -/
def Planned.titles (m : Manifest) (vars : Variables) (title : String) : Planned → List String
  | .launch _ => [title]
  | .chain target _ =>
    match m.resolve target with
    | .chain e => Run.titles m vars e
    | _ => []
  | .unknown _ _ => []

theorem titles_eq (m : Manifest) (vars : Variables) (e : String) :
    titles m vars e =
      (called (plan m e vars).flatten).flatMap fun a => a.1.titles m vars a.2 := by
  rw [titles]
  conv_rhs => rw [← List.attach_map_subtype_val (called _), List.flatMap_map]
  refine List.flatMap_congr fun ⟨⟨x, title⟩, hx⟩ _ => ?_
  cases x with
  | launch i => rfl
  | unknown target mode => rfl
  | chain target mode =>
    simp only [Planned.titles]
    split <;> simp_all

/-! ### The order of the starts -/

section

variable {m : Manifest} {H : List Deed} {t : TaskId} {e : String} {vars : Variables}

/-- What is batched by batch, each a prefix of its own and only the last one cut short, is a prefix
as a whole. -/
lemma flatMap_range_prefix {α β : Type} {f : Nat → List α} {g : α → β} {L : List (List β)}
    (h : ∀ j ps, L[j]? = some ps → (f j).map g <+: ps)
    (hfull : ∀ i j ps, i < j → f j ≠ [] → L[i]? = some ps → (f i).map g = ps) :
    ((List.range L.length).flatMap f).map g <+: L.flatten := by
  induction L generalizing f with
  | nil => exact List.nil_prefix
  | cons ps L ih =>
    rw [List.length_cons, List.range_succ_eq_map, List.flatMap_cons, List.flatMap_map,
      List.map_append, List.flatten_cons]
    have hrest := ih (f := fun j => f (j + 1)) (fun j => h (j + 1))
      fun i j ps hlt => hfull (i + 1) (j + 1) ps (Nat.succ_lt_succ hlt)
    by_cases hnil : ∀ j, f (j + 1) = []
    · have hnone : (List.range L.length).flatMap (fun j => f (j + 1)) = [] := by
        simp [hnil]
      rw [hnone, List.map_nil, List.append_nil]
      exact (h 0 ps rfl).trans (List.prefix_append ps L.flatten)
    · obtain ⟨j, hj⟩ := not_forall.1 hnil
      rw [hfull 0 (j + 1) ps (Nat.succ_pos j) hj rfl]
      exact (List.prefix_append_right_inj ps).2 hrest

lemma Ordered.map_startsOf (h : Ordered m H) (hu : OpenedAs H t e vars) :
    (startsOf H t).map Prod.snd = membersTo H t (plan m e vars).length := by
  rw [h.startsOf_eq_flatMap hu, List.map_flatMap]
  refine List.flatMap_congr fun j _ => ?_
  rw [List.map_map]
  exact List.map_id _

/-- What a run has started is what is planned first. -/
lemma Ordered.startsOf_prefix (h : Ordered m H) (hu : OpenedAs H t e vars) :
    ((startsOf H t).map Prod.snd).map Member.planned <+: (plan m e vars).flatten := by
  rw [h.map_startsOf hu]
  refine flatMap_range_prefix (fun j ps hps => h.members_prefix hu hps) ?_
  intro i j ps hlt hne hps
  obtain ⟨x, hx⟩ := List.exists_mem_of_ne_nil _ hne
  obtain ⟨pre, post, hH⟩ := List.append_of_mem (mem_membersOf.1 hx)
  have hfull := (h.inTurn hu hH).earlier (Nat.succ_lt_succ hlt) hps
  have hpre := h.members_prefix hu hps
  rw [hH, membersOf_append, List.map_append, hfull] at hpre ⊢
  exact hpre.eq_of_length_le (by simp)

/-- A run that has finished has started all that is planned. -/
lemma Finished.map_startsOf (h : Finished m H t e vars) (ho : Ordered m H)
    (hu : OpenedAs H t e vars) :
    ((startsOf H t).map Prod.snd).map Member.planned = (plan m e vars).flatten := by
  rw [ho.map_startsOf hu]
  exact flatMap_range_eq fun j ps hps => h.members hps

/-! ### Names of members -/

@[simp] lemma Member.asked?_planned (x : Member) : x.planned.asked? = x.asked? := by
  cases x <;> rfl

/-- The members that have asked for a name, with the names they are called by. -/
def namedBy (H : List Deed) (t : TaskId) : List (Member × String) :=
  (askersOf H t).zip (namesOf H t)

lemma askedBy_eq (H : List Deed) (t : TaskId) : askedBy H t =
    (((startsOf H t).map Prod.snd).map Member.planned).filterMap Planned.asked? := by
  rw [List.filterMap_map, askedBy, askersOf, List.filterMap_filter]
  refine List.filterMap_congr fun x _ => ?_
  cases hx : x.asked? <;> simp [hx]

lemma map_namedBy (H : List Deed) (t : TaskId) :
    (namedBy H t).map (Prod.map Member.planned id) =
      called (((startsOf H t).map Prod.snd).map Member.planned) := by
  have hplanned : (askersOf H t).map Member.planned =
      (((startsOf H t).map Prod.snd).map Member.planned).filter (·.asked?.isSome) := by
    rw [List.filter_map, askersOf]
    simp [Function.comp_def]
  rw [called, ← hplanned, ← askedBy_eq, List.zip_map_left]
  rfl

end

/-! ### The names of a family -/

/-- The process was started by the run or a chain nested below it, under this display name. -/
def StartedAs (H : List Deed) (root : TaskId) (p : ProcessId) (name : String) : Prop :=
  ∃ r k i, Family H root r ∧ .started r k (.process p i name) ∈ H

/-- The processes that a member comes to, with their display names. -/
def Member.Calls (H : List Deed) : Member → ProcessId → String → Prop
  | .process q _ name', p, name => p = q ∧ name = name'
  | .chain t _ _ _, p, name => StartedAs H t p name
  | .missing _ _, _, _ => False

section

variable {cfg : Setting} {s : State} {m : Manifest} {c : Core} {H : List Deed} {t : TaskId}
  {p : ProcessId} {x : Member} {name e : String} {vars : Variables} {flag : Bool}

lemma startedAs_iff : StartedAs H t p name ↔ ∃ k x, .started t k x ∈ H ∧ x.Calls H p name := by
  constructor
  · rintro ⟨r, k, i, hf, hx⟩
    rcases hf.cases_head with rfl | ⟨u, k', target, mode, name', hu, hf⟩
    · exact ⟨k, _, hx, rfl, rfl⟩
    · exact ⟨k', _, hu, r, k, i, hf, hx⟩
  · rintro ⟨k, x, hx, hp⟩
    cases x with
    | process q i name' =>
      obtain ⟨rfl, rfl⟩ := hp
      exact ⟨t, k, i, .root, hx⟩
    | chain u target mode name' =>
      obtain ⟨r, k', i, hf, hx'⟩ := hp
      exact ⟨r, k', i, .trans (.nested .root hx) hf, hx'⟩
    | missing => cases hp

lemma Member.Calls.includes (h : x.Calls H p name) : ∃ i, x.Includes H p i := by
  cases x with
  | process q i name' => exact ⟨i, h.1, rfl⟩
  | chain u target mode name' =>
    obtain ⟨r, k, i, hf, hx⟩ := h
    exact ⟨i, r, k, name, hf, hx⟩
  | missing => cases h

/-- Only what has a name calls something by one. -/
lemma Member.Calls.asked (h : x.Calls H p name) : x.asked?.isSome = true := by
  cases x with
  | missing => cases h
  | _ => rfl

lemma map_fst_namedBy (H : List Deed) (t : TaskId) : (namedBy H t).map Prod.fst = askersOf H t :=
  List.map_fst_zip (Nat.le_of_eq (length_namesOf H t).symm)

lemma mem_askersOf : x ∈ askersOf H t ↔ (∃ k, .started t k x ∈ H) ∧ x.asked?.isSome = true := by
  simp [askersOf, mem_startsOf]

lemma exists_started_of_mem_namedBy {a : Member × String} (ha : a ∈ namedBy H t) :
    ∃ k, .started t k a.1 ∈ H :=
  (mem_askersOf.1 (map_fst_namedBy H t ▸ List.mem_map_of_mem ha)).1

/-- What a run comes to its named members come to. -/
lemma startedAs_iff_namedBy :
    StartedAs H t p name ↔ ∃ a ∈ namedBy H t, a.1.Calls H p name := by
  rw [startedAs_iff]
  constructor
  · rintro ⟨k, x, hx, hp⟩
    have hasker : x ∈ askersOf H t := mem_askersOf.2 ⟨⟨k, hx⟩, hp.asked⟩
    rw [← map_fst_namedBy] at hasker
    obtain ⟨a, ha, rfl⟩ := List.mem_map.1 hasker
    exact ⟨a, ha, hp⟩
  · rintro ⟨a, ha, hp⟩
    obtain ⟨k, hx⟩ := exists_started_of_mem_namedBy ha
    exact ⟨k, a.1, hx, hp⟩

/-- The members that a run has named have their processes apart. -/
lemma Ordered.namedBy_pairwise (ho : Ordered m H) (hn : Numbered H) (hu : OpenedAs H t e vars) :
    (namedBy H t).Pairwise fun a b =>
      ∀ {p name name'}, a.1.Calls H p name → b.1.Calls H p name' → False := by
  have haskers : (askersOf H t).Pairwise fun x y => ∀ n ∈ x.number?, n ∉ y.number? := by
    rw [askersOf, ho.map_startsOf hu]
    exact (hn.membersTo_pairwise _).filter _
  rw [← map_fst_namedBy] at haskers
  refine (List.pairwise_map.1 haskers).imp_of_mem fun {a b} ha hb hne p _ _ hp hp' => ?_
  obtain ⟨k, hx⟩ := exists_started_of_mem_namedBy ha
  obtain ⟨k', hy⟩ := exists_started_of_mem_namedBy hb
  obtain ⟨i, hi⟩ := hp.includes
  obtain ⟨i', hi'⟩ := hp'.includes
  exact hn.includes_disjoint hx hy hne hi hi'

lemma flatMap_namedBy (m : Manifest) (vars : Variables) (H : List Deed) (t : TaskId) :
    ((namedBy H t).flatMap fun a => a.1.planned.titles m vars a.2) =
      (called (((startsOf H t).map Prod.snd).map Member.planned)).flatMap
        fun a => a.1.titles m vars a.2 := by
  rw [← map_namedBy, List.flatMap_map]
  rfl

/-- The processes started for a run bear the names that its expression comes to, each another one
of them; and once its family has completed, these are all of them. -/
lemma exists_lists_titles (ho : Orderly m c) (hd : Concluded m c) (hn : Numbered c.history)
    (hnamed : Named c) (hopen : .opened t e vars flag ∈ c.history) :
    ∃ ls, Lists (StartedAs c.history t)
      (∀ u, Family c.history t u → ∃ report, Deed.completed u report ∈ c.history)
      (titles m vars e) ls := by
  induction e using m.wellFounded_nests.induction generalizing t flag with
  | _ e ih =>
  have hu : OpenedAs c.history t e vars := ho.openedAs hopen
  have hmember (a : Member × String) (ha : a ∈ namedBy c.history t) :
      ∃ ls, Lists (a.1.Calls c.history) (a.1.Complete c.history)
        (a.1.planned.titles m vars a.2) ls := by
    obtain ⟨x, title⟩ := a
    obtain ⟨k, hx⟩ := exists_started_of_mem_namedBy ha
    cases x with
    | process q i name =>
      obtain rfl : name = title := hnamed.named ha rfl
      exact ⟨[(q, name)], List.nodup_singleton q, by simp [Member.Calls], .refl _, fun _ => rfl⟩
    | chain u target mode name =>
      obtain ⟨e', hm, hnests, hopen'⟩ := ho.nests hx hopen
      have htitles : (Planned.chain target mode).titles m vars title = titles m vars e' := by
        simp [Planned.titles, hm]
      rw [Member.planned, htitles]
      exact ih e' hnests hopen'
    | missing target mode => exact ⟨[], .nil, by simp [Member.Calls], .refl _, fun _ => rfl⟩
  choose! f hf using hmember
  rw [titles_eq]
  refine ⟨(namedBy c.history t).flatMap f, .flatMap startedAs_iff_namedBy
    (ho.ordered.namedBy_pairwise hn hu) hf ?_ fun hfull => ⟨?_, ?_⟩⟩
  · rw [flatMap_namedBy]
    exact (called_mono (ho.ordered.startsOf_prefix hu)).sublist.flatMap _
  · obtain ⟨report, hcompleted⟩ := hfull t .root
    rw [flatMap_namedBy,
      (hd.fulfilled ho hopen hcompleted).finished.map_startsOf ho.ordered hu]
  · intro a ha
    obtain ⟨k, hx⟩ := exists_started_of_mem_namedBy ha
    obtain ⟨x, title⟩ := a
    cases x with
    | chain u target mode name => exact fun r hr => hfull r (.trans (.nested .root hx) hr)
    | _ => trivial

/-- No two processes started for the run have the same name. -/
def NamedApart (H : List Deed) (root : TaskId) : Prop :=
  ∀ p q name, StartedAs H root p name → StartedAs H root q name → p = q

/-- **When the names of all the processes of a run tell them apart.** Whatever happens, the
processes started for a run, by itself or by a chain nested below it, are called by the names that
its expression comes to, each by another one of the list; and by all of them once the run and the
chains below it have completed. So if these differ, no two processes have the same name; and if
they do not, two have in the end. -/
theorem namedApart_iff (hs : Reachable cfg s) (hopen : .opened t e vars flag ∈ s.history) :
    (∃ ls : List (ProcessId × String), (ls.map Prod.fst).Nodup ∧
      (∀ p name, (p, name) ∈ ls ↔ StartedAs s.history t p name) ∧
      (ls.map Prod.snd).Sublist (titles cfg.manifest vars e)) ∧
    ((titles cfg.manifest vars e).Nodup → NamedApart s.history t) ∧
    ((∀ u, Family s.history t u → ∃ report, Deed.completed u report ∈ s.history) →
      (∃ ls : List (ProcessId × String), (ls.map Prod.fst).Nodup ∧
        (∀ p name, (p, name) ∈ ls ↔ StartedAs s.history t p name) ∧
        ls.map Prod.snd = titles cfg.manifest vars e) ∧
      (NamedApart s.history t ↔ (titles cfg.manifest vars e).Nodup)) := by
  obtain ⟨ls, hls⟩ := exists_lists_titles hs.orderly hs.concluded hs.numbered hs.named hopen
  have hpapart (hnodup : (ls.map Prod.snd).Nodup) : NamedApart s.history t := by
    intro p q name hp hq
    have heq := List.inj_on_of_nodup_map hnodup (hls.mem.2 hp) (hls.mem.2 hq) rfl
    exact congrArg Prod.fst heq
  refine ⟨⟨ls, hls.nodup, fun p name => hls.mem, hls.among⟩,
    fun hnodup => hpapart (hnodup.sublist hls.among), fun hall => ?_⟩
  have heq := hls.all hall
  refine ⟨⟨ls, hls.nodup, fun p name => hls.mem, heq⟩, fun hapart => ?_, fun hnodup => ?_⟩
  · rw [← heq, List.nodup_map_iff_inj_on (List.Nodup.of_map Prod.fst hls.nodup)]
    rintro ⟨p, name⟩ hp ⟨q, _⟩ hq rfl
    rw [hapart p q name (hls.mem.1 hp) (hls.mem.1 hq)]
  · exact hpapart (heq ▸ hnodup)

end

/-- The run of `a bg` once it and the chain `bg` have each started the script `a`. -/
def State.namesakes : State :=
  (({} : State).spawn (.run (.start "a bg" .empty true) (.caller "r"))).1.actAll .paused
    [0, 0, 0, 0, 2, 2, 2]

/-- Two processes of one run that are live at the same time and have the same name. -/
theorem namedApart_namesakes :
    StartedAs State.namesakes.history 0 0 "a" ∧ StartedAs State.namesakes.history 0 1 "a" ∧
    .ended 0 ∉ State.namesakes.history ∧ .ended 1 ∉ State.namesakes.history ∧
    ¬(titles Setting.paused.manifest .empty "a bg").Nodup := by
  have hs : Reachable .paused .namesakes :=
    (calm_run .paused "a bg" .empty true "r").reachable.evolves (evolves_actAll _)
  have hH : State.namesakes.history = [.opened 0 "a bg" .empty true,
      .started 0 1 (.process 0 ⟨"a", "a", "true", .sequential⟩ "a"),
      .opened 2 "a - b" .empty true, .started 0 1 (.chain 2 "bg" .sequential "bg"),
      .started 2 1 (.process 1 ⟨"a", "a", "true", .sequential⟩ "a")] := rfl
  have hopen : .opened 0 "a bg" .empty true ∈ State.namesakes.history := by simp [hH]
  have hfirst : StartedAs State.namesakes.history 0 0 "a" :=
    ⟨0, 1, ⟨"a", "a", "true", .sequential⟩, .root, by simp [hH]⟩
  have hchain : .started 0 1 (.chain 2 "bg" .sequential "bg") ∈ State.namesakes.history := by
    simp [hH]
  have hsecond : StartedAs State.namesakes.history 0 1 "a" :=
    ⟨2, 1, ⟨"a", "a", "true", .sequential⟩, .nested .root hchain, by simp [hH]⟩
  obtain ⟨-, hapart, -⟩ := namedApart_iff hs hopen
  exact ⟨hfirst, hsecond, by simp [hH], by simp [hH],
    fun hnodup => absurd (hapart hnodup 0 1 "a" hfirst hsecond) (by decide)⟩

end ChainRunner.Run
