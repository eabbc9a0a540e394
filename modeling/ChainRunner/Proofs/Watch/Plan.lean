import ChainRunner.Proofs.NameMap
import ChainRunner.Proofs.Traversal
import ChainRunner.Proofs.Variables.Basic
import ChainRunner.Proofs.Variables.Template
import ChainRunner.Watch.Rule

/-!
What changed paths trigger: the chains with a rule that matches, each with the values of its
matching rules and with the matched paths as files.
-/

namespace ChainRunner.Watch

variable {paths : List String} {rules : List Rule} {r : Rule} {c p v : String} {a : Axis}

namespace Rule

/-- The rule matches one of the paths. -/
def Hits (r : Rule) (paths : List String) : Prop := ∃ p ∈ paths, r.isMatch p = true

instance (r : Rule) (paths : List String) : Decidable (r.Hits paths) :=
  inferInstanceAs (Decidable (∃ p ∈ paths, r.isMatch p = true))

/-- What the rule adds to the values of its chain. -/
inductive Brings (r : Rule) (paths : List String) (a : Axis) (v : String) : Prop
  | own (h : r.Hits paths) (hv : v ∈ r.vars.values a) : Brings r paths a v
  | file (ha : a = .file) (hv : v ∈ paths) (hm : r.isMatch v = true) : Brings r paths a v

lemma filter_eq_nil : paths.filter r.isMatch = [] ↔ ¬ r.Hits paths := by
  simp [Hits, List.filter_eq_nil_iff]

lemma Brings.hits (h : r.Brings paths a v) : r.Hits paths := by
  cases h with
  | own h => exact h
  | file _ hv hm => exact ⟨v, hv, hm⟩

end Rule

lemma planDispatch_concat (paths : List String) (rules : List Rule) (r : Rule) :
    planDispatch paths (rules ++ [r]) =
      match paths.filter r.isMatch with
      | [] => planDispatch paths rules
      | hits => (planDispatch paths rules).modifyD r.chain .empty fun vs =>
          (vs.merge r.vars).pushAll .file hits := by
  rw [planDispatch, List.foldl_append]
  rfl

/-- The variables with which a chain is triggered; none at all if it is not. -/
def planned (paths : List String) (rules : List Rule) (c : String) : Variables :=
  ((planDispatch paths rules).get? c).getD .empty

lemma planned_of_mem {vars : Variables} (h : (c, vars) ∈ (planDispatch paths rules).entries) :
    planned paths rules c = vars := by
  rw [planned, NameMap.get?_eq_some_iff.2 h]
  rfl

/-- What one more rule adds. -/
lemma planned_concat (paths : List String) (rules : List Rule) (r : Rule) (c : String) :
    planned paths (rules ++ [r]) c =
      if c = r.chain ∧ r.Hits paths then
        ((planned paths rules c).merge r.vars).pushAll .file (paths.filter r.isMatch)
      else planned paths rules c := by
  unfold planned
  rw [planDispatch_concat]
  split
  · rename_i hnil
    rw [if_neg fun h => Rule.filter_eq_nil.1 hnil h.2]
  · rename_i hne
    have hhits : r.Hits paths := by_contra fun h => hne (Rule.filter_eq_nil.2 h)
    rw [NameMap.modifyD, NameMap.get?_insert]
    by_cases hc : c = r.chain
    · simp [hc, hhits]
    · simp [hc]

/-- **A chain is triggered exactly if a rule of it matches.** -/
theorem mem_keys_planDispatch :
    c ∈ (planDispatch paths rules).keys ↔ ∃ r ∈ rules, r.chain = c ∧ r.Hits paths := by
  induction rules using List.reverseRecOn with
  | nil => simp [planDispatch]
  | append_singleton rules r ih =>
    rw [planDispatch_concat]
    split
    · rename_i hnil
      have hout : ¬ r.Hits paths := Rule.filter_eq_nil.1 hnil
      simp [ih, or_and_right, exists_or, hout]
    · rename_i hne
      have hhits : r.Hits paths := by_contra fun h => hne (Rule.filter_eq_nil.2 h)
      rw [NameMap.modifyD, NameMap.mem_keys_insert, ih]
      simp [or_and_right, exists_or, hhits, or_comm, eq_comm]

lemma distinct_planned (paths : List String) (rules : List Rule) (c : String) :
    (planned paths rules c).Distinct := by
  induction rules using List.reverseRecOn with
  | nil => exact Variables.distinct_empty
  | append_singleton rules r ih =>
    rw [planned_concat]
    split
    · exact (ih.merge _).pushAll _ _
    · exact ih

/-- **A triggered chain gets what its matching rules bring, and nothing else.** -/
theorem mem_values_planned :
    v ∈ (planned paths rules c).values a ↔ ∃ r ∈ rules, r.chain = c ∧ r.Brings paths a v := by
  induction rules using List.reverseRecOn with
  | nil => simp [planned, planDispatch, NameMap.empty, NameMap.get?]
  | append_singleton rules r ih =>
    have hsplit : (∃ r' ∈ rules ++ [r], r'.chain = c ∧ r'.Brings paths a v) ↔
        (∃ r' ∈ rules, r'.chain = c ∧ r'.Brings paths a v) ∨
          r.chain = c ∧ r.Brings paths a v := by
      simp [or_and_right, exists_or]
    rw [hsplit, ← ih, planned_concat]
    split
    · rename_i h
      obtain ⟨rfl, hhits⟩ := h
      rw [Variables.mem_values_pushAll, Variables.mem_values_merge, List.mem_filter, or_assoc]
      refine or_congr_right ⟨?_, fun hb => ?_⟩
      · rintro (hv | ⟨ha, hv, hm⟩)
        · exact ⟨rfl, .own hhits hv⟩
        · exact ⟨rfl, .file ha hv hm⟩
      · cases hb.2 with
        | own _ hv => exact .inl hv
        | file ha hv hm => exact .inr ⟨ha, hv, hm⟩
    · rename_i h
      refine (or_iff_left fun hb => h ⟨hb.1.symm, hb.2.hits⟩).symm

/-! ### Rules of a watched directory carry no files -/

section

variable {active : Variables} {asg : Template.Assignment} {root chain raw : String}
  {axes : List Axis}

lemma fst_mem_of_combinations {e : Axis × String} (h : asg ∈ Template.combinations axes active)
    (he : e ∈ asg) : e.1 ∈ axes := by
  induction axes generalizing asg with
  | nil =>
    obtain rfl := List.mem_singleton.1 h
    cases he
  | cons b axes ih =>
    rw [Template.combinations_cons] at h
    split at h
    · exact List.mem_cons_of_mem _ (ih h he)
    · obtain ⟨x, -, rest, hrest, rfl⟩ : ∃ x ∈ active.values b,
          ∃ rest ∈ Template.combinations axes active, (b, x) :: rest = asg := by simpa using h
      rcases List.mem_cons.1 he with rfl | he
      · exact List.mem_cons_self
      · exact List.mem_cons_of_mem _ (ih hrest he)

lemma file_scope (h : ∀ e ∈ asg, e.1 ≠ .file) : (Rule.scope active asg).file = [] := by
  change (Rule.scope active asg).values .file = []
  unfold Rule.scope
  have hnone : (active.without .file).values .file = [] := rfl
  generalize active.without .file = vs at hnone
  induction asg generalizing vs with
  | nil => exact hnone
  | cons e asg ih =>
    refine ih (fun e' he => h e' (List.mem_cons_of_mem _ he)) _ ?_
    rw [Variables.values_set_of_ne (h e List.mem_cons_self).symm]
    exact hnone

/-- The rules of a pattern are compiled from what it gives with some choice of values. -/
lemma mem_ofPattern (h : Rule.ofPattern active root chain raw = .ok rules) (hr : r ∈ rules) :
    ∃ asg ∈ Template.combinations (Rule.axesOf (resolve root raw)) active,
      Rule.compile chain (Template.fill asg (resolve root raw)) (Rule.scope active asg) =
        .ok r := by
  simp only [Rule.ofPattern] at h
  split at h
  · cases h
    cases hr
  · exact mem_of_mapM h hr

lemma mem_ofObserve {observe : Observe} (h : Rule.ofObserve observe active root = .ok rules)
    (hr : r ∈ rules) : ∃ e ∈ observe.entries, ∃ raw ∈ e.2, ∃ rs,
      Rule.ofPattern active root e.1 raw = .ok rs ∧ r ∈ rs := by
  unfold Rule.ofObserve at h
  obtain ⟨lists, hlists, rfl⟩ : ∃ lists, (observe.entries.flatMap fun e =>
      e.2.map fun raw => (e.1, raw)).mapM (fun p => Rule.ofPattern active root p.1 p.2) =
        .ok lists ∧ lists.flatten = rules := by
    revert h
    cases List.mapM (fun p : String × String => Rule.ofPattern active root p.1 p.2)
        (observe.entries.flatMap fun e => e.2.map fun raw => (e.1, raw)) with
    | error e => exact fun h => by cases h
    | ok lists => exact fun h => ⟨lists, rfl, Except.ok.inj h⟩
  obtain ⟨rs, hrs, hr⟩ := List.mem_flatten.1 hr
  obtain ⟨p, hp, hrules⟩ := mem_of_mapM hlists hrs
  obtain ⟨e, he, hp⟩ := List.mem_flatMap.1 hp
  obtain ⟨raw, hraw, rfl⟩ := List.mem_map.1 hp
  exact ⟨e, he, raw, hraw, rs, hrules, hr⟩

/-- The rules of an observe table bring no files of their own. -/
lemma file_of_ofObserve {observe : Observe} (h : Rule.ofObserve observe active root = .ok rules)
    (hr : r ∈ rules) : r.vars.file = [] := by
  obtain ⟨e, -, raw, -, rs, hrs, hr⟩ := mem_ofObserve h hr
  obtain ⟨asg, hasg, hcompile⟩ := mem_ofPattern hrs hr
  have hvars : r.vars = Rule.scope active asg := by
    unfold Rule.compile at hcompile
    split at hcompile
    · cases hcompile
    · rw [← Except.ok.inj hcompile]
  rw [hvars]
  refine file_scope fun e he => ?_
  have hax := fst_mem_of_combinations hasg he
  simpa using (List.mem_filter.1 hax).2

end

/-! ### Plans of compiled rules -/

/-- The rule was compiled from some observe table. -/
def Rule.IsCompiled (r : Rule) : Prop :=
  ∃ observe active root rules, Rule.ofObserve observe active root = .ok rules ∧ r ∈ rules

lemma Rule.IsCompiled.file (h : r.IsCompiled) : r.vars.values .file = [] := by
  obtain ⟨observe, active, root, rules, hrules, hr⟩ := h
  exact file_of_ofObserve hrules hr

lemma Rule.isCompiled_of_ofObserve {observe : Observe} {active : Variables} {root : String}
    (h : Rule.ofObserve observe active root = .ok rules) : ∀ r ∈ rules, r.IsCompiled :=
  fun _ hr => ⟨observe, active, root, rules, h, hr⟩

/-- The files of a triggered chain are the paths that its rules match. -/
lemma mem_file_planned (h : ∀ r ∈ rules, r.IsCompiled) :
    p ∈ (planned paths rules c).file ↔
      p ∈ paths ∧ ∃ r ∈ rules, r.chain = c ∧ r.isMatch p = true := by
  change p ∈ (planned paths rules c).values .file ↔ _
  rw [mem_values_planned]
  constructor
  · rintro ⟨r, hr, hc, hb⟩
    cases hb with
    | own _ hv => simp [(h r hr).file] at hv
    | file _ hv hm => exact ⟨hv, r, hr, hc, hm⟩
  · rintro ⟨hv, r, hr, hc, hm⟩
    exact ⟨r, hr, hc, .file rfl hv hm⟩

/-- On the other axes it has what its rules carry that match. -/
lemma mem_values_planned_of_ne (ha : a ≠ .file) : v ∈ (planned paths rules c).values a ↔
    ∃ r ∈ rules, r.chain = c ∧ r.Hits paths ∧ v ∈ r.vars.values a := by
  rw [mem_values_planned]
  refine exists_congr fun r => and_congr_right fun _ => and_congr_right fun _ => ⟨?_, ?_⟩
  · rintro (⟨hhits, hv⟩ | ⟨hfile, -, -⟩)
    · exact ⟨hhits, hv⟩
    · exact absurd hfile ha
  · exact fun h => .own h.1 h.2

variable {paths' : List String}

lemma Rule.Hits.mono (h : r.Hits paths) (hsub : paths ⊆ paths') : r.Hits paths' :=
  h.imp fun _ hp => hp.imp_left (@hsub _)

lemma Rule.Brings.mono (h : r.Brings paths a v) (hsub : paths ⊆ paths') : r.Brings paths' a v := by
  cases h with
  | own h hv => exact .own (h.mono hsub) hv
  | file ha hv hm => exact .file ha (hsub hv) hm

lemma Rule.hits_append : r.Hits (paths ++ paths') ↔ r.Hits paths ∨ r.Hits paths' := by
  simp [Hits, or_and_right, exists_or]

lemma Rule.brings_append :
    r.Brings (paths ++ paths') a v ↔ r.Brings paths a v ∨ r.Brings paths' a v := by
  constructor
  · rintro (⟨h, hv⟩ | ⟨ha, hv, hm⟩)
    · exact (hits_append.1 h).imp (.own · hv) (.own · hv)
    · exact (List.mem_append.1 hv).imp (.file ha · hm) (.file ha · hm)
  · rintro (h | h)
    · exact h.mono (List.subset_append_left ..)
    · exact h.mono (List.subset_append_right ..)

/-- **The plan for changed paths is exact.** A chain is planned if one of its rules matches one of
the paths; its files are the paths that its rules match, and its other values those of its rules
that match, none of them twice. The order of paths and rules decides nothing but the order of the
values, so that two bursts planned as one trigger what each triggers alone. -/
theorem planDispatch_exact (hrules : ∀ r ∈ rules, r.IsCompiled) (paths : List String) :
    (∀ c, c ∈ (planDispatch paths rules).keys ↔
      ∃ r ∈ rules, r.chain = c ∧ ∃ p ∈ paths, r.isMatch p = true) ∧
    (∀ c vars, (planDispatch paths rules).get? c = some vars →
      (∀ a, (vars.values a).Nodup) ∧
      (∀ p, p ∈ vars.file ↔ p ∈ paths ∧ ∃ r ∈ rules, r.chain = c ∧ r.isMatch p = true) ∧
      ∀ a ≠ .file, ∀ v, v ∈ vars.values a ↔
        ∃ r ∈ rules, r.chain = c ∧ (∃ p ∈ paths, r.isMatch p = true) ∧ v ∈ r.vars.values a) ∧
    (∀ paths' rules', (∀ p, p ∈ paths' ↔ p ∈ paths) → (∀ r, r ∈ rules' ↔ r ∈ rules) →
      (planDispatch paths' rules').keys = (planDispatch paths rules).keys ∧
      ∀ c a v, v ∈ (planned paths' rules' c).values a ↔ v ∈ (planned paths rules c).values a) ∧
    ∀ paths' c,
      (c ∈ (planDispatch (paths ++ paths') rules).keys ↔
        c ∈ (planDispatch paths rules).keys ∨ c ∈ (planDispatch paths' rules).keys) ∧
      ∀ a v, v ∈ (planned (paths ++ paths') rules c).values a ↔
        v ∈ (planned paths rules c).values a ∨ v ∈ (planned paths' rules c).values a := by
  refine ⟨fun c => mem_keys_planDispatch, fun c vars hvars => ?_, fun paths' rules' hp hr => ?_,
    fun paths' c => ⟨?_, fun a v => ?_⟩⟩
  · obtain rfl : planned paths rules c = vars := by rw [planned, hvars, Option.getD_some]
    exact ⟨distinct_planned paths rules c, fun p => mem_file_planned hrules,
      fun a ha v => mem_values_planned_of_ne ha⟩
  · -- what triggers a rule depends on the set of the paths only
    have hsub : paths ⊆ paths' := fun p => (hp p).2
    have hsub' : paths' ⊆ paths := fun p => (hp p).1
    constructor
    · refine NameMap.keys_eq_of_mem_iff fun c => ?_
      simp only [mem_keys_planDispatch, hr]
      exact exists_congr fun r => and_congr_right fun _ => and_congr_right fun _ =>
        ⟨(·.mono hsub'), (·.mono hsub)⟩
    · intro c a v
      simp only [mem_values_planned, hr]
      exact exists_congr fun r => and_congr_right fun _ => and_congr_right fun _ =>
        ⟨(·.mono hsub'), (·.mono hsub)⟩
  · simp only [mem_keys_planDispatch, Rule.hits_append, and_or_left, exists_or]
  · simp only [mem_values_planned, Rule.brings_append, and_or_left, exists_or]

/-- A rule of one project and one of both, and a path that only the first of them matches. -/
theorem planDispatch_exact_scoped :
    ∃ rules, Rule.ofObserve (NameMap.ofList [("build", ["$PROJ/*.js", "lib/*.js"])])
        { project := ["red", "blue"] } "/p" = .ok rules ∧
      (∀ r ∈ rules, r.IsCompiled) ∧
      "build" ∈ (planDispatch ["/p/readme", "/p/red/a.js"] rules).keys ∧
      (∀ c a v, v ∈ (planned ["/p/red/a.js", "/p/readme"] rules.reverse c).values a ↔
        v ∈ (planned ["/p/readme", "/p/red/a.js"] rules c).values a) ∧
      planned ["/p/readme", "/p/red/a.js"] rules "build" =
        { project := ["red"], file := ["/p/red/a.js"] } := by
  have hcomputed : (Rule.ofObserve (NameMap.ofList [("build", ["$PROJ/*.js", "lib/*.js"])])
      { project := ["red", "blue"] } "/p").toOption.map (fun rules =>
        (rules.any fun r => r.chain = "build" ∧ r.Hits ["/p/readme", "/p/red/a.js"],
          planned ["/p/readme", "/p/red/a.js"] rules "build")) =
      some (true, { project := ["red"], file := ["/p/red/a.js"] }) := by decide +kernel
  cases hr : Rule.ofObserve (NameMap.ofList [("build", ["$PROJ/*.js", "lib/*.js"])])
      { project := ["red", "blue"] } "/p" with
  | error e => rw [hr] at hcomputed; cases hcomputed
  | ok rules =>
  rw [hr] at hcomputed
  obtain ⟨hany, hplanned⟩ := Prod.mk.inj (Option.some.inj hcomputed)
  have hrules := Rule.isCompiled_of_ofObserve hr
  obtain ⟨hkeys, -, horder, -⟩ := planDispatch_exact hrules ["/p/readme", "/p/red/a.js"]
  refine ⟨rules, rfl, hrules, (hkeys _).2 (by simpa [Rule.Hits] using hany), ?_, hplanned⟩
  exact (horder _ _ (by simp [or_comm]) (by simp)).2

end ChainRunner.Watch
