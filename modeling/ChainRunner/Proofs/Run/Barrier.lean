import ChainRunner.Proofs.Run.Processes
import ChainRunner.Proofs.Run.Track

/-!
The pause is a barrier: what comes after it starts when everything before it that is not in the
background is over, at every depth of nesting.
-/

namespace ChainRunner.Run

/-- The invariant of the barrier. -/
structure Orderly (m : Manifest) (c : Core) : Prop where
  runs : ∀ {t : TaskId} {r : Course} {audience : Audience},
    taskAt c.tasks t = some (.run r audience) → r.OnTrack m c.history c.tasks t
  ordered : Ordered m c.history
  opened_lt : ∀ {t : TaskId} {chain : String} {vars : Variables} {e : Bool},
    .opened t chain vars e ∈ c.history → t < c.tasks.length
  opened_run : ∀ {t : TaskId} {chain : String} {vars : Variables} {e : Bool} {task : Task},
    .opened t chain vars e ∈ c.history → taskAt c.tasks t = some task →
      ∃ r audience, task = .run r audience
  opened_unique : ∀ {t : TaskId} {chain chain' : String} {vars vars' : Variables} {e e' : Bool},
    .opened t chain vars e ∈ c.history → .opened t chain' vars' e' ∈ c.history →
      chain = chain' ∧ vars = vars' ∧ e = e'
  completed : ∀ {t : TaskId} {report : Report}, .completed t report ∈ c.history →
    t < c.tasks.length ∧ taskAt c.tasks t = none
  nested : ∀ {r t : TaskId} {k : Nat} {target name : String} {mode : Mode},
    .started r k (.chain t target mode name) ∈ c.history →
      ∃ expr chain vars e, m.resolve target = .chain expr ∧ .opened r chain vars e ∈ c.history ∧
        .opened t expr vars (e && mode ≠ .background) ∈ c.history

/-! ### Nothing disturbs the order -/

/-- Whether a deed says how far a run has come. -/
def Deed.ofRun : Deed → Bool
  | .opened .. | .started .. | .completed .. => true
  | _ => false

namespace Orderly

variable {cfg : Setting} {m : Manifest} {c c' : Core} {ds : List Deed}

lemma extend (h : Orderly m c) (hH : c'.history = c.history ++ ds) (hk : Keeps c.tasks c'.tasks)
    (hopened : ∀ {t chain vars e}, Deed.opened t chain vars e ∉ ds)
    (hordered : Ordered m c'.history)
    (hruns : ∀ {t r audience}, taskAt c'.tasks t = some (.run r audience) →
      r.OnTrack m c'.history c'.tasks t)
    (hcompleted : ∀ {t report}, .completed t report ∈ ds →
      t < c.tasks.length ∧ taskAt c'.tasks t = none)
    (hnested : ∀ {r t k target name mode}, .started r k (.chain t target mode name) ∈ ds →
      ∃ expr chain vars e, m.resolve target = .chain expr ∧ .opened r chain vars e ∈ c.history ∧
        .opened t expr vars (e && mode ≠ .background) ∈ c.history) :
    Orderly m c' := by
  have hold {t chain vars e} (ho : Deed.opened t chain vars e ∈ c'.history) :
      .opened t chain vars e ∈ c.history := by
    rw [hH] at ho
    exact (List.mem_append.1 ho).resolve_right hopened
  refine ⟨hruns, hordered, ?_, ?_, ?_, ?_, ?_⟩
  · intro t chain vars e ho
    exact Nat.lt_of_lt_of_le (h.opened_lt (hold ho)) hk.length_le
  · intro t chain vars e task ho ht
    obtain ⟨task', ht', hkin⟩ := hk.kin (h.opened_lt (hold ho)) ht
    obtain ⟨r, audience, rfl⟩ := h.opened_run (hold ho) ht'
    obtain ⟨r', rfl, -⟩ := hkin.of_run
    exact ⟨r', audience, rfl⟩
  · intro t chain chain' vars vars' e e' ho ho'
    exact h.opened_unique (hold ho) (hold ho')
  · intro t report hc
    rw [hH] at hc
    rcases List.mem_append.1 hc with hc | hc
    · obtain ⟨hlt, hnone⟩ := h.completed hc
      exact ⟨Nat.lt_of_lt_of_le hlt hk.length_le, hk.gone hlt hnone⟩
    · obtain ⟨hlt, hnone⟩ := hcompleted hc
      exact ⟨Nat.lt_of_lt_of_le hlt hk.length_le, hnone⟩
  · intro r t k target name mode hs
    rw [hH] at hs ⊢
    obtain ⟨expr, chain, vars, e, hm, hr, ht⟩ := (List.mem_append.1 hs).elim h.nested hnested
    exact ⟨expr, chain, vars, e, hm, List.mem_append_left _ hr, List.mem_append_left _ ht⟩

/-- A run that has completed is gone, so it starts nothing more. -/
lemma respects (h : Orderly m c)
    (hs : ∀ {t k x}, Deed.started t k x ∈ ds → ∃ task, taskAt c.tasks t = some task) :
    Respects c.history ds := by
  intro t report k x hc hx
  obtain ⟨task, ht⟩ := hs hx
  simp [(h.completed hc).2] at ht

/-- What happens to the other tasks, and deeds that are of no run, do not disturb the order. -/
lemma frame (h : Orderly m c) (hH : c'.history = c.history ++ ds) (hk : Keeps c.tasks c'.tasks)
    (hds : ∀ d ∈ ds, d.ofRun = false)
    (hruns : ∀ {t r audience}, taskAt c'.tasks t = some (.run r audience) →
      taskAt c.tasks t = some (.run r audience)) : Orderly m c' := by
  have hstart (t k x) : Deed.started t k x ∉ ds := fun hx => by simpa [Deed.ofRun] using hds _ hx
  refine h.extend hH hk (fun hx => by simpa [Deed.ofRun] using hds _ hx) ?_ ?_
    (fun hx => by simpa [Deed.ofRun] using hds _ hx) (fun hx => absurd hx (hstart _ _ _))
  · rw [hH]
    exact h.ordered.append hstart
  · intro t r audience ht
    rw [hH]
    exact (h.runs (hruns ht)).frame hk (Respects.of_no_start hstart) (hstart t)

lemma spawnRun (h : Orderly m c) (chain : String) (vars : Variables) (e : Bool)
    (audience : Audience) :
    Orderly m
      { c with
        tasks := c.tasks ++ [some ⟨.run (.start chain vars e) audience, false⟩]
        history := c.history ++ [.opened c.tasks.length chain vars e] } := by
  have hk : Keeps c.tasks (c.tasks ++ [some ⟨.run (.start chain vars e) audience, false⟩]) :=
    .append ..
  have hstart (t k x) : Deed.started t k x ∉ [Deed.opened c.tasks.length chain vars e] := by simp
  -- nothing can be said yet of a run with a new number
  have hfresh (k x) : Deed.started c.tasks.length k x ∉ c.history := fun hx => by
    obtain ⟨chain, vars, e, ho⟩ := h.ordered.opened hx
    exact Nat.lt_irrefl _ (h.opened_lt ho)
  have hsplit {t chain' vars' e'} (ho : Deed.opened t chain' vars' e' ∈
      c.history ++ [.opened c.tasks.length chain vars e]) :
      .opened t chain' vars' e' ∈ c.history ∧ t < c.tasks.length ∨
        t = c.tasks.length ∧ chain' = chain ∧ vars' = vars ∧ e' = e := by
    rcases List.mem_append.1 ho with ho | ho
    · exact .inl ⟨ho, h.opened_lt ho⟩
    · cases List.mem_singleton.1 ho
      exact .inr ⟨rfl, rfl, rfl, rfl⟩
  refine ⟨?_, h.ordered.append hstart, ?_, ?_, ?_, ?_, ?_⟩
  · intro t r audience' ht
    rcases run_of_spawn ht with ⟨rfl, rfl, rfl⟩ | ht
    · exact .start (by simp) fun k x hx => by simp [hfresh k x] at hx
    · exact (h.runs ht).frame hk (Respects.of_no_start hstart) (hstart t)
  · intro t chain' vars' e' ho
    rw [List.length_append, List.length_singleton]
    rcases hsplit ho with ⟨-, hlt⟩ | ⟨rfl, -⟩
    · exact Nat.lt_succ_of_lt hlt
    · exact Nat.lt_succ_self _
  · intro t chain' vars' e' task ho ht
    simp only [taskAt_concat] at ht
    rcases hsplit ho with ⟨ho, hlt⟩ | ⟨rfl, -⟩
    · rw [if_neg (Nat.ne_of_lt hlt)] at ht
      exact h.opened_run ho ht
    · rw [if_pos rfl] at ht
      cases ht
      exact ⟨_, _, rfl⟩
  · intro t chain' chain'' vars' vars'' e' e'' ho ho'
    rcases hsplit ho with ⟨ho, hlt⟩ | ⟨rfl, rfl, rfl, rfl⟩ <;>
      rcases hsplit ho' with ⟨ho', hlt'⟩ | ⟨heq, rfl, rfl, rfl⟩
    · exact h.opened_unique ho ho'
    · exact absurd hlt (heq ▸ Nat.lt_irrefl _)
    · exact absurd hlt' (Nat.lt_irrefl _)
    · exact ⟨rfl, rfl, rfl⟩
  · intro t report hc
    obtain ⟨hlt, hnone⟩ := h.completed (by simpa using hc)
    simp only [taskAt_concat, List.length_append, List.length_singleton]
    exact ⟨Nat.lt_succ_of_lt hlt, by rw [if_neg (Nat.ne_of_lt hlt)]; exact hnone⟩
  · intro r t k target name mode hs
    obtain ⟨expr, chain, vars, e, hm, hr, ht⟩ := h.nested (by simpa using hs)
    exact ⟨expr, chain, vars, e, hm, List.mem_append_left _ hr, List.mem_append_left _ ht⟩

lemma quiet (h : Orderly m c) {self : TaskId} {r r' : Course} {audience : Audience}
    (hs : taskAt c.tasks self = some (.run r audience)) (q : r.Quiet m r') :
    Orderly m { c with tasks := mapAt c.tasks self fun _ => .run r' audience } := by
  have hk : Keeps c.tasks (mapAt c.tasks self fun _ => .run r' audience) := .put hs (.quiet q _)
  have hnone (t k x) : Deed.started t k x ∉ ([] : List Deed) := List.not_mem_nil
  refine h.extend (List.append_nil _).symm hk List.not_mem_nil h.ordered ?_
    (fun hx => absurd hx List.not_mem_nil) (fun hx => absurd hx List.not_mem_nil)
  intro t r₁ audience₁ ht
  rw [← List.append_nil c.history]
  rw [taskAt_mapAt] at ht
  split at ht
  · subst t
    rw [hs] at ht
    cases ht
    exact ((h.runs hs).quiet q).frame hk (Respects.of_no_start hnone) (hnone self)
  · exact (h.runs ht).frame hk (Respects.of_no_start hnone) (hnone t)

lemma starts (h : Orderly m c) {self : TaskId} {r : Course} {audience : Audience} {x : Member}
    {agenda : List Errand} (names : Names) (entries : List Entry) (failed : Bool)
    (background : List ProcessId) {waiting : List TaskId}
    (hs : taskAt c.tasks self = some (.run r audience))
    (ha : agendaPlan m r.vars r.agenda = x.planned :: agendaPlan m r.vars agenda)
    (hw : r.waiting ⊆ waiting)
    (hx : Settled m (c.history ++ [.started self r.batch x]) r.vars x ∨
      ∃ w ∈ waiting, Watches c.tasks self w x)
    (hnested : ∀ {t target name mode}, x = .chain t target mode name →
      ∃ expr, m.resolve target = .chain expr ∧
        .opened t expr r.vars (r.exitOnError && mode ≠ .background) ∈ c.history) :
    Orderly m
      { c with
        tasks := mapAt c.tasks self fun _ =>
          .run { r with agenda, names, entries, failed, background, waiting } audience
        history := c.history ++ [.started self r.batch x] } := by
  have hk : Keeps c.tasks (mapAt c.tasks self fun _ =>
      .run { r with agenda, names, entries, failed, background, waiting } audience) :=
    .put hs (.run rfl rfl rfl)
  have hr : Respects c.history [.started self r.batch x] := h.respects fun hx => by
    cases List.mem_singleton.1 hx
    exact ⟨_, hs⟩
  refine h.extend rfl hk (by simp) ?_ ?_ (by simp) ?_
  · refine h.ordered.concat ?_
    rintro _ _ _ ⟨⟩
    exact ⟨_, _, (h.runs hs).turn ha⟩
  · intro t r₁ audience₁ ht
    rw [taskAt_mapAt] at ht
    split at ht
    · subst t
      rw [hs] at ht
      cases ht
      refine (h.runs hs).starts names entries failed background ha hr hk hw ?_
      exact hx.imp_right fun ⟨w, hin, hwx⟩ => ⟨w, hin, hwx.keep hk⟩
    · -- the other runs have not started anything
      rename_i hne
      refine (h.runs ht).frame hk hr fun k y hy => hne ?_
      cases List.mem_singleton.1 hy
      rfl
  · intro _ t k target name mode hx
    obtain ⟨rfl, rfl, heq⟩ := Deed.started.inj (List.mem_singleton.1 hx)
    obtain ⟨expr, hm, ho⟩ := hnested heq.symm
    exact ⟨expr, r.chain, r.vars, r.exitOnError, hm, (h.runs hs).opened, ho⟩

/-! A member is over -/

end Orderly

namespace Orderly

variable {m : Manifest} {c : Core}

/-- The task `self` is gone, and a run may have been told so by one of the arrivals `a`. -/
lemma tell (h : Orderly m c) {c' : Core} {ds : List Deed} (self : TaskId) (a : Arrival → Prop)
    (hH : c'.history = c.history ++ ds) (hk : Keeps c.tasks c'.tasks)
    (hds : ∀ d ∈ ds, d.ofRun = true → ∃ report, d = .completed self report)
    (hself : taskAt c'.tasks self = none) (hlt : self < c.tasks.length)
    (hruns : ∀ {t r' audience}, taskAt c'.tasks t = some (.run r' audience) →
      taskAt c.tasks t = some (.run r' audience) ∨
        ∃ r b, a b ∧ taskAt c.tasks t = some (.run r audience) ∧ r' = r.told self b)
    (ha : ∀ {b}, a b → (∃ why, b = .broken why) ∨ ∀ t r audience x,
      taskAt c.tasks t = some (.run r audience) → .started t r.batch x ∈ c.history →
        Watches c.tasks t self x → Settled m c'.history r.vars x) : Orderly m c' := by
  have hof {d : Deed} (hd : d ∈ ds) (hof : d.ofRun = true) : ∃ report, d = .completed self report :=
    hds d hd hof
  have hstart (t k x) : Deed.started t k x ∉ ds := fun hx => by
    obtain ⟨report, heq⟩ := hof hx rfl
    cases heq
  refine h.extend hH hk ?_ (hH ▸ h.ordered.append hstart) ?_ ?_
    (fun hx => absurd hx (hstart _ _ _))
  · intro t chain vars e ho
    obtain ⟨report, heq⟩ := hof ho rfl
    cases heq
  · intro t r' audience ht
    rw [hH]
    rcases hruns ht with hold | ⟨r, b, hb, hold, rfl⟩
    · exact (h.runs hold).frame hk (Respects.of_no_start hstart) (hstart t)
    · refine (h.runs hold).receive b hk (Respects.of_no_start hstart) (hstart t) ?_
      refine (ha hb).imp_right fun hsettled x hx hwx => ?_
      rw [← hH]
      exact hsettled t r audience x hold hx hwx
  · intro t report hc
    obtain ⟨report', heq⟩ := hof hc rfl
    cases heq
    exact ⟨hlt, hself⟩

/-- A run that completes has settled as a member. -/
lemma settled_of_completes (h : Orderly m c) {self owner : TaskId} {r r₀ : Course}
    {audience audience₀ : Audience} {x : Member} (report : Report)
    (hs : taskAt c.tasks self = some (.run r audience)) (ha : r.agenda = []) (hr : r.arrived = [])
    (hw : r.waiting = []) (hb : r.rest = []) (ho : taskAt c.tasks owner = some (.run r₀ audience₀))
    (hx : .started owner r₀.batch x ∈ c.history) (hwx : Watches c.tasks owner self x) :
    Settled m (c.history ++ [.completed self report]) r₀.vars x := by
  have hresp : Respects c.history [.completed self report] :=
    Respects.of_no_start fun t k y hy => by simp at hy
  cases x with
  | process p i name =>
    -- who watches a process is its waiter, and no run
    obtain ⟨n, hn⟩ := hwx.2 _ hs
    cases hn
  | missing target mode => exact .missing
  | chain run target mode name =>
    cases (hwx : self = run)
    obtain ⟨expr, chain, vars, e, hm, howner, hself⟩ := h.nested hx
    obtain ⟨-, rfl, -⟩ := h.opened_unique howner (h.runs ho).opened
    obtain ⟨rfl, hvars, -⟩ := h.opened_unique hself (h.runs hs).opened
    obtain ⟨hall, hmembers⟩ := (h.runs hs).done ha hr hw hb
    have hfinished : Finished m (c.history ++ [.completed self report]) self r.chain r₀.vars :=
      { opened := ⟨_, List.mem_append_left _ hself⟩
        completed := ⟨report, by simp⟩
        members := fun hps => by
          simpa [membersOf, List.filterMap_cons, Deed.member?] using hall (hvars ▸ hps) }
    refine .chain hm hfinished fun k y hy => ?_
    rw [hvars]
    exact (hmembers k y (by simpa using hy)).append hresp

/-- The waiter for a process is done when the process has ended. -/
lemma settled_of_ended (h : Orderly m c) {w owner : TaskId} {p : ProcessId} {name : String}
    {o : TaskId} {r₀ : Course} {x : Member} (hw : taskAt c.tasks w = some (.waiter p name o))
    (he : .ended p ∈ c.history)
    (hx : .started owner r₀.batch x ∈ c.history) (hwx : Watches c.tasks owner w x) :
    Settled m c.history r₀.vars x := by
  cases x with
  | process q i n =>
    obtain ⟨n', hn⟩ := hwx.2 _ hw
    cases hn
    exact .process fun _ => he
  | missing target mode => exact .missing
  | chain run target mode n =>
    cases (hwx : w = run)
    obtain ⟨expr, chain, vars, e, hm, howner, hself⟩ := h.nested hx
    obtain ⟨r, audience, hr⟩ := h.opened_run hself hw
    cases hr

/-- A run breaks off, and what it waits for is cancelled. -/
lemma breakOff (h : Orderly m c) {c' : Core} {ds : List Deed} {self : TaskId} (b : Break)
    (audience : Audience) (waiting : List TaskId) (hlt : self < c.tasks.length)
    (hH : c'.history = c.history ++ ds)
    (ht : c'.tasks = State.tellBreak self b audience ((cancelAt c.tasks waiting).set self none))
    (hds : ∀ d ∈ ds, d.ofRun = false) : Orderly m c' := by
  have hkeeps : Keeps c.tasks c'.tasks :=
    ht ▸ ((Keeps.cancel ..).trans (.set_none ..)).trans (.broken ..)
  refine h.tell self (· = .broken b.why) hH hkeeps (fun d hd hof => ?_) ?_ hlt ?_ ?_
  · simp [hds d hd] at hof
  · rw [ht]
    exact taskAt_tellBreak_eq_none (by simp)
  · intro t r' audience' hr
    rw [ht] at hr
    rcases (run_of_breaks hr).2 with hold | ⟨r₀, name, -, hold, rfl⟩
    · exact .inl hold
    · exact .inr ⟨r₀, _, rfl, hold, rfl⟩
  · exact fun heq => .inl ⟨_, heq⟩

/-- A step that names nothing has been started before it fails. -/
lemma fatal (h : Orderly m c) {self : TaskId} {r : Course} {audience : Audience} {ds : List Deed}
    {why : Failure} (hs : taskAt c.tasks self = some (.run r audience))
    (hf : r.Fatal m self ds why) :
    ∃ r₁, Orderly m
      { c with
        tasks := mapAt c.tasks self fun _ => .run r₁ audience
        history := c.history ++ ds } := by
  cases hf with
  | member ha hr =>
    refine ⟨r, h.frame rfl (.put hs (.refl _)) (by simp) fun {t r' audience'} ht => ?_⟩
    rw [taskAt_mapAt] at ht
    split at ht
    · subst t
      rw [hs] at ht
      exact hs.trans ht
    · exact ht
  | @missing step agenda target ha ht hm =>
    have hplan : agendaPlan m r.vars r.agenda =
        Member.planned (.missing target step.mode) :: agendaPlan m r.vars agenda := by
      rw [ha, agendaPlan_step, planStep_unknown ht hm]
      rfl
    exact ⟨_, h.starts r.names r.entries r.failed r.background hs hplan (List.Subset.refl _)
      (.inl .missing) (by simp)⟩

end Orderly

/-- The order is one of the history and the tasks. -/
lemma Orderly.of_eq {m : Manifest} {c c' : Core} (h : Orderly m c) (hH : c'.history = c.history)
    (ht : c'.tasks = c.tasks) : Orderly m c' :=
  h.frame (hH.trans (List.append_nil _).symm) (ht ▸ .refl _) (by simp) (ht ▸ id)

/-- Tasks that are no runs do not disturb the order. -/
lemma Orderly.launch {m : Manifest} {c : Core} (h : Orderly m c)
    (more : List (Option Slot)) (hmore : ∀ slot, some slot ∈ more → ∀ r a, slot.task ≠ .run r a) :
    Orderly m { c with tasks := c.tasks ++ more } :=
  h.frame (List.append_nil _).symm (.append ..) (by simp) (run_of_append hmore)

theorem Orderly.change {cfg : Setting} {c c' : Core} (h : Orderly cfg.manifest c)
    (hp : Accounted c) (hc : Change cfg c c') : Orderly cfg.manifest c' := by
  have hkeeps := hc.keeps
  cases hc with
  | quiet hs q => exact (h.quiet (taskAt_of_slotAt hs) q).of_eq rfl rfl
  | @launches self r audience i agenda name names now hs ha hb =>
    -- the tasks are added first, then the member is started: each alone keeps the order
    have hlaunched := h.launch (keeperSlots cfg c.table.handles.length) fun _ =>
      not_run_of_keeperSlots
    have hplan : agendaPlan cfg.manifest r.vars r.agenda =
        Member.planned (.process c.table.handles.length i name) ::
          agendaPlan cfg.manifest r.vars agenda := by rw [ha, agendaPlan_launch]; rfl
    have hstarts := hlaunched.starts names r.entries r.failed
      (r.background ++ [c.table.handles.length]) (taskAt_append (taskAt_of_slotAt hs)) hplan
      (List.Subset.refl _)
      (.inl (.process fun hf => by simp [hb] at hf)) (by simp)
    exact hstarts.of_eq rfl rfl
  | @awaits self r audience i agenda name names now hs ha hb =>
    have hlaunched := h.launch
      (keeperSlots cfg c.table.handles.length ++
        [some ⟨.waiter c.table.handles.length name self, false⟩]) fun _ => not_run_of_waiterSlots
    have hwatches : Watches
        (c.tasks ++ (keeperSlots cfg c.table.handles.length ++
          [some ⟨.waiter c.table.handles.length name self, false⟩])) self
        (c.tasks ++ keeperSlots cfg c.table.handles.length).length
        (.process c.table.handles.length i name) := by
      rw [← List.append_assoc]
      refine ⟨by simp, fun task htask => ⟨name, ?_⟩⟩
      rw [taskAt_concat, if_pos rfl] at htask
      exact (Option.some.inj htask).symm
    have hplan : agendaPlan cfg.manifest r.vars r.agenda =
        Member.planned (.process c.table.handles.length i name) ::
          agendaPlan cfg.manifest r.vars agenda := by rw [ha, agendaPlan_launch]; rfl
    have hstarts := hlaunched.starts names r.entries r.failed r.background
      (taskAt_append (taskAt_of_slotAt hs)) hplan (List.subset_append_left ..)
      (.inr ⟨_, List.mem_append_right _ (List.mem_singleton_self _), hwatches⟩) (by simp)
    refine hstarts.of_eq rfl ?_
    dsimp only
    rw [List.append_assoc]
  | @nests self r audience step agenda target expr name names hs ha ht hm =>
    -- here it is the nested run that is added first
    have hspawned := h.spawnRun expr r.vars (r.exitOnError && step.mode ≠ .background)
      (audienceOf self name step.mode)
    have hplan : agendaPlan cfg.manifest r.vars r.agenda =
        Member.planned (.chain c.tasks.length target step.mode name) ::
          agendaPlan cfg.manifest r.vars agenda := by
      simp [ha, planStep, ht, hm, Member.planned]
    rw [List.append_cons c.history]
    refine hspawned.starts names r.entries r.failed r.background
      (taskAt_append (taskAt_of_slotAt hs)) hplan (List.subset_append_left ..) ?_ ?_
    · by_cases hb : step.mode = .background
      · rw [hb]
        exact .inl .background
      · exact .inr ⟨c.tasks.length, by simp [hb], rfl⟩
    · intro t target' name' mode heq
      cases heq
      exact ⟨expr, hm, List.mem_append_right _ (List.mem_singleton_self _)⟩
  | @misses self r audience step agenda target names entries hs ha ht hm =>
    have hplan : agendaPlan cfg.manifest r.vars r.agenda =
        Member.planned (.missing target step.mode) :: agendaPlan cfg.manifest r.vars agenda := by
      simp [ha, planStep, ht, hm, Member.planned]
    have hstarts := h.starts names entries (r.failed || step.mode = .sequential) r.background
      (taskAt_of_slotAt hs) hplan (List.Subset.refl _) (.inl .missing) (by simp)
    exact hstarts.of_eq rfl rfl
  | @completes self r audience hs ha hr hw hb =>
    have hself := taskAt_of_slotAt hs
    refine h.tell self (fun b => ∃ name, b = .settled name (reportOf r c.table).failed none) rfl
      hkeeps (by simp) (taskAt_tellReport_eq_none (by simp)) (lt_of_taskAt hself) ?_ ?_
    · intro t r' audience' ht
      rcases run_of_completes ht with hold | ⟨r₀, name, -, hold, rfl⟩
      · exact .inl hold
      · exact .inr ⟨r₀, _, ⟨name, rfl⟩, hold, rfl⟩
    · rintro _ ⟨name, rfl⟩
      exact .inr fun t r₀ audience' x ht hx hwx =>
        h.settled_of_completes _ hself ha hr hw hb ht hx hwx
  | breaks hs hb => exact h.breakOff _ _ _ (lt_of_slotAt hs) rfl rfl (by simp [Deed.ofRun])
  | @fails self r audience ds why now hs hf he =>
    -- what was missing was started before the run breaks off
    obtain ⟨r₁, h₁⟩ := h.fatal (taskAt_of_slotAt hs) hf
    have hlt : self < _ := lt_of_slotAt hs
    refine h₁.breakOff (.failure why) audience r.waiting (by simpa using hlt)
      (List.append_assoc ..).symm ?_ (by simp [Deed.ofRun])
    dsimp only
    rw [set_cancelAt_mapAt]
  | @settles w p name owner hd failed code hw hget ho =>
    have hended : .ended p ∈ c.history := hp.ended.2
      ⟨(List.getElem?_eq_some_iff.1 hget).1, by
        simp [ProcessTable.hasEnded, hget, Handle.hasEnded_of_outcome? ho]⟩
    refine h.tell w (· = .settled name failed code) (List.append_nil _).symm hkeeps (by simp)
      (taskAt_mapAt_eq_none (by simp)) (lt_of_slotAt hw) ?_ ?_
    · intro t r' audience' ht
      rcases run_of_settles ht with hold | ⟨-, r₀, hold, rfl⟩
      · exact .inl hold
      · exact .inr ⟨r₀, _, rfl, hold, rfl⟩
    · exact fun _ => .inr fun t r₀ audience' x _ hx hwx =>
        h.settled_of_ended (taskAt_of_slotAt hw) hended hx hwx
  | leaves hs ht =>
    exact h.frame (List.append_nil _).symm hkeeps (by simp)
      (fun ht => (taskAt_of_set_none ht).2)
  | news hget follows =>
    exact h.frame (ite_concat ..) hkeeps (by simp +contextual [Deed.ofRun]) id
  | locks hs ht ht' hl =>
    exact h.frame rfl hkeeps (by simp [Deed.ofRun])
      (run_of_put (taskAt_of_slotAt hs) (by simp [ht']))
  | refused hs ht hl hcl =>
    exact h.frame rfl hkeeps (by simp [Deed.ofRun]) (run_of_closes (taskAt_of_slotAt hs) hcl)
  | drains hs ht ht' =>
    exact h.frame rfl hkeeps (by simp [Deed.ofRun])
      (run_of_put (taskAt_of_slotAt hs) (by rcases ht' with ht' | ht' <;> simp [ht']))
  | triggers chain vars hs ht => exact h.spawnRun chain vars false _
  | cycles hs ht ht' hk =>
    exact h.frame (List.append_nil _).symm hkeeps (by simp)
      (run_of_put (taskAt_of_slotAt hs) (by simp [ht']))
  | releases hs ht hcl =>
    exact h.frame rfl hkeeps (by simp [Deed.ofRun]) (run_of_closes (taskAt_of_slotAt hs) hcl)
  | droppedRun hs =>
    exact h.frame (List.append_nil _).symm hkeeps (by simp) fun ht => (taskAt_of_dropped ht).2
  | droppedCycle hs ht =>
    exact h.frame (ite_concat ..) hkeeps (by simp +contextual [Deed.ofRun]) fun ht =>
      (taskAt_of_dropped ht).2

theorem Orderly.request {m : Manifest} {c c' : Core} (h : Orderly m c) (hc : Request c c') :
    Orderly m c' := by
  have hkeeps := hc.keeps
  cases hc with
  | run chain vars exitOnError label => exact h.spawnRun chain vars exitOnError _
  | @cycles t ht =>
    exact h.frame (List.append_nil _).symm hkeeps (by simp)
      (run_of_spawnCycle (Option.isSome_of_eq_some ht))
  | push path => exact h.frame rfl hkeeps (by simp [Deed.ofRun]) id
  | stop p now => exact h.frame (List.append_nil _).symm hkeeps (by simp) id
  | cancel id => exact h.frame (List.append_nil _).symm hkeeps (by simp) fun ht => by simpa using ht

theorem orderly_stable (cfg : Setting) :
    Stable cfg fun c => Orderly cfg.manifest c ∧ Accounted c :=
  ⟨fun h hc => ⟨h.1.change h.2 hc, h.2.change hc⟩, fun h hc => ⟨h.1.request hc, h.2.request hc⟩⟩

lemma orderly_nil (m : Manifest) : Orderly m {} := by
  refine ⟨?_, ?_, ?_, ?_, ?_, ?_, ?_⟩ <;> simp [taskAt, slotAt, Ordered]

theorem Reachable.orderly {cfg : Setting} {s : State} (h : Reachable cfg s) :
    Orderly cfg.manifest s.toCore :=
  ((orderly_stable cfg).reachable ⟨orderly_nil _, accounted_nil⟩ h).1

/-- **The barrier**: when a run starts a member of its batch `i + 1`, counted from one, it goes
on with the plan of that batch, it has started everything planned for the earlier batches, and
all of it has settled: the processes that are not in the background have ended, and the chains
that are not in the background have completed, with all their members settled in turn. -/
theorem started_after_barrier {cfg : Setting} {s : State} (hs : Reachable cfg s)
    {pre post : List Deed} {r : TaskId} {k : Nat} {x : Member}
    (h : s.history = pre ++ .started r k x :: post) :
    (∃ chain vars e, Deed.opened r chain vars e ∈ pre) ∧
      ∀ chain vars e, Deed.opened r chain vars e ∈ s.history →
        (∃ i ps, k = i + 1 ∧ (plan cfg.manifest chain vars)[i]? = some ps ∧
          (membersOf pre r k).map Member.planned ++ [x.planned] <+: ps) ∧
        ∀ j ps, j + 1 < k → (plan cfg.manifest chain vars)[j]? = some ps →
          (membersOf pre r (j + 1)).map Member.planned = ps ∧
            ∀ y ∈ membersOf pre r (j + 1), Settled cfg.manifest pre vars y := by
  obtain ⟨chain, vars, hturn⟩ := hs.orderly.ordered _ _ _ _ _ h
  obtain ⟨e, he⟩ := hturn.opened
  refine ⟨⟨chain, vars, e, he⟩, fun chain' vars' e' he' => ?_⟩
  have hin : Deed.opened r chain vars e ∈ s.history := h ▸ List.mem_append_left _ he
  obtain ⟨rfl, rfl, -⟩ := hs.orderly.opened_unique hin he'
  exact ⟨hturn.planned, fun j ps hj hps =>
    ⟨hturn.earlier hj hps, fun y hy => hturn.settled hj (mem_membersOf.1 hy)⟩⟩

/-- The run of `a - a` once it has started its second batch. -/
def State.paused : State :=
  let s : State := (({} : State).spawn (.run (.start "a - a" .empty true) (.caller "r"))).1
  ((s.actAll .single [0, 0, 0]).endProcess 0 false (some 0) false).actAll .single [1, 0, 0, 0, 0, 0]

lemma reachable_paused : Reachable .single .paused :=
  (((Reachable.asked .refl (.run "a - a" .empty true "r")).evolves (evolves_actAll _)).evolves
    (evolves_endProcess ..)).evolves (evolves_actAll _)

theorem started_after_pause :
    Settled Setting.single.manifest
      [.opened 0 "a - a" .empty true,
        .started 0 1 (.process 0 ⟨"a", "a", "true", .sequential⟩ "a"), .ended 0]
      .empty (.process 0 ⟨"a", "a", "true", .sequential⟩ "a") := by
  have hH : State.paused.history =
      [.opened 0 "a - a" .empty true,
        .started 0 1 (.process 0 ⟨"a", "a", "true", .sequential⟩ "a"), .ended 0] ++
      .started 0 2 (.process 1 ⟨"a", "a", "true", .sequential⟩ "a#2") :: [] := rfl
  have hplan : (plan Setting.single.manifest "a - a" .empty)[0]? =
      some [.launch ⟨"a", "a", "true", .sequential⟩] := rfl
  have h := (started_after_barrier reachable_paused hH).2 "a - a" .empty true (by simp [hH])
  exact (h.2 0 _ (by decide) hplan).2 _ (by simp [mem_membersOf])

end ChainRunner.Run
