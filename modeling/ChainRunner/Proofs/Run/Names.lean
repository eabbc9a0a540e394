import ChainRunner.Proofs.Run.Requests
import Mathlib.Data.List.Perm.Subperm

/-!
Display names within one run: what its members are called, and when two are called the same.
-/

namespace ChainRunner.Run

/-- The registry of the run has seen all that it has asked for, and whatever bears a name of the
run bears one that was given, each for one request. -/
structure Course.Registered (c : Core) (t : TaskId) (r : Course) : Prop where
  counts : r.names.Counts (askedBy c.history t)
  holds : ∀ name, (r.holds c.table).count name + (signs c.tasks).count (t, name) ≤
    (namesOf c.history t).count name
  known : ∀ p ∈ r.background, p < c.table.handles.length

structure Named (c : Core) : Prop where
  registered : ∀ {t : TaskId} {r : Course} {audience : Audience},
    taskAt c.tasks t = some (.run r audience) → r.Registered c t
  named : ∀ {t : TaskId} {x : Member} {name title : String},
    (x, title) ∈ (askersOf c.history t).zip (namesOf c.history t) → x.name? = some name →
      name = title
  reported : ∀ {t : TaskId} {report : Report}, .completed t report ∈ c.history →
    (report.entries.map Entry.name).Subperm (namesOf c.history t)
  owned : ∀ sign ∈ signs c.tasks, sign.1 < c.tasks.length

/-- What becomes of the names of a run, while the history grows by `ds`. -/
inductive Course.Gets (c c' : Core) (ds : List Deed) (t : TaskId) (r' : Course) : Prop
  | moves {r : Course} {audience : Audience} (ht : taskAt c.tasks t = some (.run r audience))
    (hasked : askersOf ds t = []) (hnames : r'.names = r.names)
    (hbackground : r'.background = r.background)
    (hcount : ∀ name, (r'.holds c.table).count name + (signs c'.tasks).count (t, name) ≤
      (r.holds c.table).count name + (signs c.tasks).count (t, name)) : Gets c c' ds t r'
  | asks {r : Course} {audience : Audience} {x : Member} {ask title : String}
    (ht : taskAt c.tasks t = some (.run r audience)) (hx : askersOf ds t = [x])
    (ha : x.asked? = some ask) (hn : r.names.unique ask = (title, r'.names))
    (hbackground : ∀ p ∈ r'.background, p ∈ r.background ∨ p < c'.table.handles.length)
    (hcount : ∀ name, (r'.holds c'.table).count name + (signs c'.tasks).count (t, name) ≤
      (r.holds c'.table).count name + (signs c.tasks).count (t, name) + [title].count name) :
    Gets c c' ds t r'
  | fresh {chain : String} {vars : Variables} {e : Bool} (ht : t = c.tasks.length)
    (hr : r' = .start chain vars e) (hasked : askersOf ds t = [])
    (hcount : ∀ name, (signs c'.tasks).count (t, name) ≤ (signs c.tasks).count (t, name)) :
    Gets c c' ds t r'

/-- How the names of all runs move while the history grows by `ds`. -/
structure Hands (c c' : Core) (ds : List Deed) : Prop where
  history : c'.history = c.history ++ ds
  gets : ∀ {t : TaskId} {r' : Course} {audience : Audience},
    taskAt c'.tasks t = some (.run r' audience) → r'.Gets c c' ds t
  named : ∀ t, askersOf ds t = [] ∨ ∃ r audience x ask title, askersOf ds t = [x] ∧
    taskAt c.tasks t = some (.run r audience) ∧ x.asked? = some ask ∧
    (r.names.unique ask).1 = title ∧ ∀ name, x.name? = some name → name = title
  reported : ∀ {t : TaskId} {report : Report}, .completed t report ∈ ds →
    askersOf ds t = [] ∧ ∃ r audience, taskAt c.tasks t = some (.run r audience) ∧
      report.entries.map Entry.name = r.holds c.table
  owned : ∀ sign ∈ signs c'.tasks, sign ∈ signs c.tasks ∨ sign.1 < c.tasks.length
  follows : c.table.Follows c'.table
  handles : c.table.handles.length ≤ c'.table.handles.length
  tasks : c.tasks.length ≤ c'.tasks.length

section

variable {cfg : Setting} {m : Manifest} {c c' : Core} {ds : List Deed} {t self w : TaskId}
  {r r' : Course} {audience : Audience}

lemma Course.Gets.same (ht : taskAt c.tasks t = some (.run r audience))
    (hasked : askersOf ds t = [])
    (hsigns : ∀ name, (signs c'.tasks).count (t, name) ≤ (signs c.tasks).count (t, name)) :
    r.Gets c c' ds t :=
  .moves ht hasked rfl rfl fun name => Nat.add_le_add_left (hsigns name) _

/-- Nothing is started, and no more tasks have something to tell. -/
lemma Hands.frame (hm : Moves m c c') (hH : c'.history = c.history ++ ds)
    (hds : ∀ t, askersOf ds t = [])
    (hsigns : ∀ sign, (signs c'.tasks).count sign ≤ (signs c.tasks).count sign)
    (hgets : ∀ {t r' audience}, taskAt c'.tasks t = some (.run r' audience) →
      taskAt c.tasks t = some (.run r' audience) ∨ r'.Gets c c' ds t)
    (hreported : ∀ {t report}, .completed t report ∈ ds →
      ∃ r audience, taskAt c.tasks t = some (.run r audience) ∧
        report.entries.map Entry.name = r.holds c.table) : Hands c c' ds where
  history := hH
  gets hr := (hgets hr).elim (fun h => .same h (hds _) fun _ => hsigns _) id
  named t := .inl (hds t)
  reported hin := ⟨hds _, hreported hin⟩
  owned sign hsign := .inl (List.count_pos_iff.1
    (Nat.lt_of_lt_of_le (List.count_pos_iff.2 hsign) (hsigns sign)))
  follows := hm.follows
  handles := hm.length_le
  tasks := hm.keeps.length_le

/-- The run `self` has become `r₁` and asked for nothing. -/
lemma Hands.goes {r₁ : Course} (hm : Moves m c c') (hH : c'.history = c.history ++ ds)
    (hds : ∀ t, askersOf ds t = []) (hcompleted : ∀ t report, Deed.completed t report ∉ ds)
    (hs : taskAt c.tasks self = some (.run r audience))
    (htasks : c'.tasks = mapAt c.tasks self fun _ => .run r₁ audience)
    (hnames : r₁.names = r.names) (hbackground : r₁.background = r.background)
    (hholds : ∀ name, (r₁.holds c.table).count name ≤ (r.holds c.table).count name) :
    Hands c c' ds := by
  have hsigns : signs c'.tasks = signs c.tasks := by rw [htasks, signs_put _ hs]
  refine .frame hm hH hds (fun _ => by rw [hsigns]) (fun hr => ?_)
    fun hin => absurd hin (hcompleted _ _)
  rw [htasks, ← List.append_nil c.tasks] at hr
  refine (run_of_grow (by simp) hr).symm.imp_right ?_
  rintro ⟨rfl, rfl, rfl⟩
  refine .moves hs (hds _) hnames hbackground fun name => ?_
  rw [hsigns]
  exact Nat.add_le_add_right (hholds name) _

/-- A dispatch goes on. -/
lemma Hands.cycles {task task' : Task} (hm : Moves m c c') (hH : c'.history = c.history ++ ds)
    (hds : ∀ t, askersOf ds t = []) (hcompleted : ∀ t report, Deed.completed t report ∉ ds)
    (hs : taskAt c.tasks self = some task) (ht : task.cycle?.isSome = true)
    (ht' : task'.cycle?.isSome = true) (htasks : c'.tasks = mapAt c.tasks self fun _ => task') :
    Hands c c' ds := by
  refine .frame hm hH hds (fun _ => by rw [htasks, signs_cycles hs ht ht']) (fun hr => ?_)
    fun hin => absurd hin (hcompleted _ _)
  rw [htasks] at hr
  exact .inl (run_of_put hs ht' hr)

/-- The run `self` starts the member `x`, which asks for a name. -/
lemma Hands.takes {x : Member} {ask title : String} (hm : Moves m c c')
    (hH : c'.history = c.history ++ ds) (hs : taskAt c.tasks self = some (.run r audience))
    (hx : ∀ t, askersOf ds t = if t = self then [x] else []) (ha : x.asked? = some ask)
    (hn : (r.names.unique ask).1 = title) (hname : ∀ name, x.name? = some name → name = title)
    (hds : ∀ t report, Deed.completed t report ∉ ds)
    (hsigns : ∀ sign, (signs c'.tasks).count sign ≤
      (signs c.tasks).count sign + [(self, title)].count sign)
    (hgets : ∀ {t r' audience}, taskAt c'.tasks t = some (.run r' audience) →
      t ≠ self ∧ taskAt c.tasks t = some (.run r' audience) ∨ r'.Gets c c' ds t) :
    Hands c c' ds := by
  have hother {sign : TaskId × String} (h : sign.1 ≠ self) :
      (signs c'.tasks).count sign ≤ (signs c.tasks).count sign := by
    simpa only [count_sign_of_ne h, Nat.add_zero] using hsigns sign
  exact {
    history := hH
    gets := fun hr => (hgets hr).elim
      (fun ⟨hne, h⟩ => .same h (by rw [hx, if_neg hne]) fun _ => hother hne) id
    named := fun t => by
      by_cases ht : t = self
      · subst ht
        exact .inr ⟨r, audience, x, ask, title, by rw [hx, if_pos rfl], hs, ha, hn, hname⟩
      · exact .inl (by rw [hx, if_neg ht])
    reported := fun hin => absurd hin (hds _ _)
    owned := fun sign hsign => by
      by_cases hself : sign.1 = self
      · exact .inr (hself ▸ lt_of_taskAt hs)
      · exact .inl (List.count_pos_iff.1
          (Nat.lt_of_lt_of_le (List.count_pos_iff.2 hsign) (hother hself)))
    follows := hm.follows
    handles := hm.length_le
    tasks := hm.keeps.length_le }

/-- The run `self` has become `r₁` by starting the member `x`, and tasks were added for it. -/
lemma Hands.starts {x : Member} {ask title : String} {more : List (Option Slot)} {r₁ : Course}
    (hm : Moves m c c') (hH : c'.history = c.history ++ ds)
    (hs : taskAt c.tasks self = some (.run r audience))
    (htasks : c'.tasks = mapAt (c.tasks ++ more) self fun _ => .run r₁ audience)
    (hx : ∀ t, askersOf ds t = if t = self then [x] else []) (ha : x.asked? = some ask)
    (hn : r.names.unique ask = (title, r₁.names))
    (hname : ∀ name, x.name? = some name → name = title)
    (hds : ∀ t report, Deed.completed t report ∉ ds)
    (hmore : ∀ sign, (signs more).count sign ≤ [(self, title)].count sign)
    (hfresh : ∀ slot, some slot ∈ more → ∀ r a, slot.task = .run r a →
      more = [some slot] ∧ ∃ chain vars e, r = .start chain vars e)
    (hbackground : ∀ p ∈ r₁.background, p ∈ r.background ∨ p < c'.table.handles.length)
    (hholds : ∀ name, (r₁.holds c'.table).count name + (signs more).count (self, name) ≤
      (r.holds c'.table).count name + [title].count name) : Hands c c' ds := by
  have hsigns (sign : TaskId × String) : (signs c'.tasks).count sign =
      (signs c.tasks).count sign + (signs more).count sign := by
    rw [htasks, signs_grow hs, List.count_append]
  refine .takes hm hH hs hx ha (by rw [hn]) hname hds (fun sign => ?_) fun {t r' audience'} hr => ?_
  · rw [hsigns]
    exact Nat.add_le_add_left (hmore sign) _
  · rw [htasks, taskAt_mapAt] at hr
    split at hr
    · subst t
      obtain ⟨task, -, heq⟩ := Option.map_eq_some_iff.1 hr
      cases heq
      refine .inr (.asks hs (by rw [hx, if_pos rfl]) ha hn hbackground fun name => ?_)
      have := hholds name
      rw [hsigns]
      omega
    · -- another run was there before, or it is the one that was added
      rename_i hne
      rcases Nat.lt_or_ge t c.tasks.length with hlt | hge
      · rw [taskAt, slotAt, List.getElem?_append_left hlt] at hr
        exact .inl ⟨Ne.symm hne, hr⟩
      · obtain ⟨slot, hslot, heq⟩ := Option.map_eq_some_iff.1 hr
        obtain ⟨hsingle, chain, vars, e, hr'⟩ := hfresh slot (slot_of_append hge hslot) _ _ heq
        have hlt := lt_of_slotAt hslot
        rw [hsingle, List.length_append, List.length_singleton] at hlt
        have ht : t = c.tasks.length := Nat.le_antisymm (Nat.le_of_lt_succ hlt) hge
        refine .inr (.fresh ht hr' (by rw [hx, if_neg (Ne.symm hne)]) fun name => ?_)
        have hzero := hmore (t, name)
        rw [count_sign_of_ne (Ne.symm hne)] at hzero
        rw [hsigns]
        omega

/-- The end of a member is told under the name that its task bore. -/
lemma Course.Gets.told {slot : Slot} {b : Arrival} (ht : taskAt c.tasks t = some (.run r audience))
    (hasked : askersOf ds t = []) (hs : slotAt c.tasks w = some slot) (ids : List TaskId)
    (hsigns : signs c'.tasks = signs ((cancelAt c.tasks ids).set w none))
    (hsign : ∀ name, b.name? = some name → slot.task.sign? = some (t, name)) :
    (r.told w b).Gets c c' ds t := by
  refine .moves ht hasked rfl rfl fun name => ?_
  have hcount := count_signs_dropped hs ids (t, name)
  rw [← hsigns] at hcount
  simp only [Course.holds, Course.told, List.filterMap_append, List.count_append]
  cases hb : b.name? with
  | none =>
    simp only [List.filterMap_cons, hb, List.filterMap_nil, List.count_nil]
    omega
  | some title =>
    rw [hsign title hb] at hcount
    simp only [Option.toList_some, count_sign] at hcount
    simp only [List.filterMap_cons, hb, List.filterMap_nil]
    omega

section

variable {slot : Slot} {b : Break}

lemma count_signs_tellBreak_le (hs : slotAt c.tasks self = some slot)
    (htasks : c'.tasks =
      State.tellBreak self b audience ((cancelAt c.tasks r.waiting).set self none))
    (sign : TaskId × String) : (signs c'.tasks).count sign ≤ (signs c.tasks).count sign := by
  rw [htasks, signs_tellBreak]
  exact count_signs_dropped_le hs _ sign

/-- The run `self` breaks off: another run learns of it at most. -/
lemma gets_of_tellBreak {audience' : Audience} (hs : slotAt c.tasks self = some slot)
    (htasks : c'.tasks =
      State.tellBreak self b audience ((cancelAt c.tasks r.waiting).set self none))
    (hr : taskAt c'.tasks t = some (.run r' audience')) :
    t ≠ self ∧ (taskAt c.tasks t = some (.run r' audience') ∨
      (askersOf ds t = [] → r'.Gets c c' ds t)) := by
  have hsigns : signs c'.tasks = signs ((cancelAt c.tasks r.waiting).set self none) := by
    rw [htasks, signs_tellBreak]
  rw [htasks] at hr
  obtain ⟨hne, h | ⟨r₀, name, -, h, rfl⟩⟩ := run_of_breaks hr
  · exact ⟨hne, .inl h⟩
  · exact ⟨hne, .inr fun hasked => .told h hasked hs _ hsigns (by simp [Arrival.name?])⟩

lemma Hands.breakOff (hm : Moves m c c') (hH : c'.history = c.history ++ ds)
    (hds : ∀ t, askersOf ds t = []) (hcompleted : ∀ t report, Deed.completed t report ∉ ds)
    (hs : slotAt c.tasks self = some slot)
    (htasks : c'.tasks =
      State.tellBreak self b audience ((cancelAt c.tasks r.waiting).set self none)) :
    Hands c c' ds :=
  .frame hm hH hds (count_signs_tellBreak_le hs htasks)
    (fun hrun => (gets_of_tellBreak hs htasks hrun).2.imp_right fun h => h (hds _))
    fun hin => absurd hin (hcompleted _ _)

end

/-- A run is opened that has nobody to tell its name to. -/
lemma Hands.opens {chain : String} {vars : Variables} {e : Bool} (hm : Moves m c c')
    (htasks : c'.tasks = c.tasks ++ [some ⟨.run (.start chain vars e) audience, false⟩])
    (ha : (Task.run (.start chain vars e) audience).sign? = none)
    (hH : c'.history = c.history ++ [.opened c.tasks.length chain vars e]) :
    Hands c c' [.opened c.tasks.length chain vars e] := by
  have hsigns : signs c'.tasks = signs c.tasks := by
    rw [htasks, signs_append]
    simp [signs, ha]
  have hnone (t : TaskId) : askersOf [.opened c.tasks.length chain vars e] t = [] :=
    askersOf_eq_nil (by simp)
  refine .frame hm hH hnone (fun _ => by rw [hsigns]) (fun hr => ?_) (by simp)
  rw [htasks] at hr
  rcases run_of_spawn hr with ⟨hlen, rfl, rfl⟩ | hold
  · exact .inr (.fresh hlen rfl (hnone _) fun _ => by rw [hsigns])
  · exact .inl hold

theorem Change.hands (hc : Change cfg c c') : ∃ ds, Hands c c' ds := by
  have hm := hc.moves
  have hnil : ∀ t, askersOf ([] : List Deed) t = [] := fun _ => rfl
  have hother {ds : List Deed} (hds : ∀ t k x, Deed.started t k x ∉ ds) (t : TaskId) :
      askersOf ds t = [] := askersOf_eq_nil (hds t)
  cases hc with
  | quiet hs q =>
    exact ⟨[], .goes hm (List.append_nil _).symm hnil (by simp) (taskAt_of_slotAt hs) rfl
      (by cases q <;> rfl) (by cases q <;> rfl) q.count_holds_le⟩
  | @launches self r audience i agenda title names now hs ha hb hn hl =>
    -- nobody tells this name: the run holds it with its processes in the background
    refine ⟨_, .starts hm rfl (taskAt_of_slotAt hs) rfl
      (askersOf_started [] [] (by simp) rfl) rfl hn (fun _ h => (Option.some.inj h).symm)
      (by simp) (fun _ => ?_)
      (fun slot hslot r a h => absurd h (not_run_of_keeperSlots hslot r a)) ?_ fun name => ?_⟩
    · rw [signs_keeperSlots]
      exact Nat.zero_le _
    · simp only [List.mem_append, List.mem_singleton, ProcessTable.length_launch]
      rintro p (hp | rfl)
      · exact .inl hp
      · exact .inr (Nat.lt_succ_self _)
    · simp only [signs_keeperSlots, Course.holds, List.map_append, List.map_cons, List.map_nil,
        name_backgroundEntry_launch, List.count_append, List.count_nil]
      omega
  | @awaits self r audience i agenda title names now hs ha hb hn hl =>
    have hsigns : signs (keeperSlots cfg c.table.handles.length ++
        [some ⟨.waiter c.table.handles.length title self, false⟩]) = [(self, title)] := by
      rw [signs_append, signs_keeperSlots]
      rfl
    have hmore (r₁ : Course) : mapAt (c.tasks ++ keeperSlots cfg c.table.handles.length ++
        [some ⟨.waiter c.table.handles.length title self, false⟩]) self
          (fun _ => .run r₁ audience) =
          mapAt (c.tasks ++ (keeperSlots cfg c.table.handles.length ++
            [some ⟨.waiter c.table.handles.length title self, false⟩])) self fun _ =>
              .run r₁ audience := by rw [List.append_assoc]
    refine ⟨_, .starts hm rfl (taskAt_of_slotAt hs) (hmore _)
      (askersOf_started [] [] (by simp) rfl) rfl hn
      (fun _ h => (Option.some.inj h).symm) (by simp) (fun _ => by rw [hsigns])
      (fun slot hslot r a h => absurd h (not_run_of_waiterSlots hslot r a)) (fun _ => .inl)
      fun name => ?_⟩
    rw [hsigns, count_sign]
    exact Nat.le_refl _
  | @nests self r audience step agenda target expr title names hs ha ht hm' hn =>
    -- a chain in the background takes a name, too, that nobody tells
    have hmore (sign : TaskId × String) :
        (signs [some ⟨.run (r.nested expr step.mode) (audienceOf self title step.mode),
          false⟩]).count sign ≤ [(self, title)].count sign := by
      unfold audienceOf
      split
      · exact Nat.zero_le _
      · exact Nat.le_refl _
    refine ⟨_, .starts hm rfl (taskAt_of_slotAt hs) rfl
      (askersOf_started [_] [] (by simp) rfl) rfl hn (fun _ h => (Option.some.inj h).symm)
      (by simp) hmore
      (fun slot hslot r' a h => ?_) (fun _ => .inl)
      fun name => Nat.add_le_add_left (count_sign ▸ hmore (self, name)) _⟩
    cases List.mem_singleton.1 hslot
    cases h
    exact ⟨rfl, _, _, _, rfl⟩
  | @misses self r audience step agenda target names entries hs ha ht hm' hgo hn =>
    have hold := taskAt_of_slotAt hs
    by_cases hseq : step.mode = .sequential
    · rcases hu : r.names.unique target with ⟨title, names'⟩
      rw [if_pos hseq, hu] at hn
      obtain ⟨rfl, rfl⟩ := Prod.mk.inj hn
      have hask : (Member.missing target step.mode).asked? = some target := if_pos hseq
      have hmore (r₁ : Course) : mapAt c.tasks self (fun _ => .run r₁ audience) =
          mapAt (c.tasks ++ []) self fun _ => .run r₁ audience := by rw [List.append_nil]
      refine ⟨_, .starts hm rfl hold (hmore _)
        (askersOf_started [] [] (by simp) (by simp [hask])) hask hu (by simp [Member.name?])
        (by simp) (fun _ => Nat.zero_le _) (by simp) (fun _ => .inl) fun name => ?_⟩
      simp only [signs, List.filterMap_nil, Course.holds, List.map_append, List.map_cons,
        List.map_nil, List.count_append, List.count_nil]
      omega
    · rw [if_neg hseq] at hn
      obtain ⟨rfl, rfl⟩ := Prod.mk.inj hn
      have hnone : ∀ t, askersOf [.started self r.batch (.missing target step.mode)] t = [] := by
        simp [askersOf, startsOf, Member.asked?, hseq]
      exact ⟨_, .goes hm rfl hnone (by simp) hold rfl rfl rfl fun _ => Nat.le_refl _⟩
  | @completes self r audience hs ha hr hw hb =>
    have hnone : ∀ t, askersOf [.completed self (reportOf r c.table)] t = [] := hother (by simp)
    have hsigns : signs (State.tellReport self (reportOf r c.table) audience
        (c.tasks.set self none)) = signs (c.tasks.set self none) := signs_tellReport
    refine ⟨_, .frame hm rfl hnone (fun sign => ?_) (fun hrun => ?_) fun hin => ?_⟩
    · rw [hsigns]
      exact count_signs_dropped_le hs [] sign
    · rcases run_of_completes hrun with h | ⟨r₀, name, rfl, h, rfl⟩
      · exact .inl h
      · refine .inr (.told h (hnone _) hs [] hsigns fun _ hn => ?_)
        cases hn
        rfl
    · cases List.mem_singleton.1 hin
      exact ⟨r, audience, taskAt_of_slotAt hs, by simp [reportOf, Course.holds, hr]⟩
  | breaks hs hb => exact ⟨_, .breakOff hm rfl (hother (by simp)) (by simp) hs rfl⟩
  | @fails self r audience ds why now hs hf he =>
    cases hf with
    | member ha hr => exact ⟨_, .breakOff hm rfl (hother (by simp)) (by simp) hs rfl⟩
    | @missing step agenda target ha ht hm' hseq =>
      -- the step has its name although the run breaks off over it
      generalize Failure.unknownScript (r.names.unique target).1 = why at hm ⊢
      have hask : (Member.missing target step.mode).asked? = some target := if_pos hseq
      have hx : ∀ t, askersOf ([.started self r.batch (.missing target step.mode)] ++
          [.stopped self, .brokeOff self (.failure why)]) t = _ :=
        askersOf_started [] [.stopped self, .brokeOff self (.failure why)] (by simp)
          (by simp [hask])
      refine ⟨_, .takes hm rfl (taskAt_of_slotAt hs) hx hask rfl (by simp [Member.name?])
        (by simp) (fun sign => Nat.le_trans (count_signs_tellBreak_le hs rfl sign)
          (Nat.le_add_right ..)) fun hrun => ?_⟩
      obtain ⟨hne, hgets⟩ := gets_of_tellBreak hs rfl hrun
      exact hgets.imp (fun h => ⟨hne, h⟩) fun h => h (by rw [hx, if_neg hne])
  | settles failed code hw hp ho =>
    have hsigns (ts : List (Option Slot)) (owner w : TaskId) (b : Arrival) :
        signs (mapAt ts owner (Task.receive w b)) = signs ts := signs_mapAt (by simp)
    refine ⟨[], .frame hm (List.append_nil _).symm hnil (fun sign => ?_) (fun hrun => ?_)
      (by simp)⟩
    · rw [hsigns]
      exact count_signs_dropped_le hw [] sign
    · rcases run_of_settles hrun with h | ⟨rfl, r₀, h, rfl⟩
      · exact .inl h
      · refine .inr (.told h rfl hw [] (hsigns ..) fun _ hn => ?_)
        cases hn
        rfl
  | leaves hs ht' =>
    exact ⟨[], .frame hm (List.append_nil _).symm hnil (count_signs_dropped_le hs [])
      (fun hrun => .inl (taskAt_of_set_none hrun).2) (by simp)⟩
  | news hp follows =>
    exact ⟨_, .frame hm (ite_concat ..) (hother (by simp)) (fun _ => Nat.le_refl _) .inl (by simp)⟩
  | locks hs ht₀ ht' hl =>
    exact ⟨_, .cycles hm rfl (hother (by simp)) (by simp) (taskAt_of_slotAt hs) (by simp [ht₀])
      (by simp [ht']) rfl⟩
  | drains hs ht₀ ht' =>
    have ht' := ht'.elim (fun h => Option.isSome_of_eq_some h) Option.isSome_of_eq_some
    exact ⟨_, .cycles hm rfl (hother (by simp)) (by simp) (taskAt_of_slotAt hs) (by simp [ht₀])
      ht' rfl⟩
  | triggers chain vars hs ht₀ => exact ⟨_, .opens hm rfl rfl rfl⟩
  | cycles hs ht₀ ht' hk =>
    exact ⟨[], .cycles hm (List.append_nil _).symm hnil (by simp) (taskAt_of_slotAt hs)
      (by simp [ht₀]) (by simp [ht']) rfl⟩
  | refused hs ht₀ hl hcl | releases hs ht₀ hcl =>
    exact ⟨_, .frame hm rfl (hother (by simp)) (count_signs_closes hs (by simp [ht₀]) hcl)
      (fun hrun => .inl (run_of_closes (taskAt_of_slotAt hs) hcl hrun)) (by simp)⟩
  | droppedRun hs =>
    exact ⟨[], .frame hm (List.append_nil _).symm hnil (count_signs_dropped_le hs _)
      (fun hrun => .inl (taskAt_of_dropped hrun).2) (by simp)⟩
  | droppedCycle hs ht₀ =>
    exact ⟨_, .frame hm (ite_concat ..) (hother (by simp)) (count_signs_dropped_le hs _)
      (fun hrun => .inl (taskAt_of_dropped hrun).2) (by simp)⟩

theorem Request.hands (m : Manifest) (hc : Request c c') : ∃ ds, Hands c c' ds := by
  have hm : Moves m c c' := hc.moves
  have hnil : ∀ t, askersOf ([] : List Deed) t = [] := fun _ => rfl
  cases hc with
  | run => exact ⟨_, .opens hm rfl rfl rfl⟩
  | @cycles task ht =>
    have hsigns : signs (c.tasks ++ [some ⟨task, false⟩]) = signs c.tasks := by
      rw [signs_append]
      simp [signs, Task.sign?_of_cycle (Option.isSome_of_eq_some ht)]
    exact ⟨[], .frame hm (List.append_nil _).symm hnil (fun _ => by rw [hsigns])
      (fun hr => .inl (run_of_spawnCycle (Option.isSome_of_eq_some ht) hr)) (by simp)⟩
  | push =>
    exact ⟨_, .frame hm rfl (fun _ => askersOf_eq_nil (by simp)) (fun _ => Nat.le_refl _) .inl
      (by simp)⟩
  | stop =>
    exact ⟨[], .frame hm (List.append_nil _).symm hnil (fun _ => Nat.le_refl _) .inl (by simp)⟩
  | cancel =>
    exact ⟨[], .frame hm (List.append_nil _).symm hnil (fun _ => by rw [signs_cancelAt])
      (fun hr => .inl (by simpa using hr)) (by simp)⟩

end

namespace Named

variable {m : Manifest} {c c' : Core} {ds : List Deed} {t : TaskId} {r' : Course}

lemma registered_of_gets (h : Named c) (ho : Orderly m c) (hc : Hands c c' ds)
    (hr : r'.Gets c c' ds t) : r'.Registered c' t := by
  cases hr with
  | @moves r audience ht hasked hnames hbackground hcount =>
    have hreg := h.registered ht
    have hknown : ∀ p ∈ r'.background, p < c.table.handles.length := hbackground ▸ hreg.known
    refine ⟨?_, fun name => ?_, fun p hp => Nat.lt_of_lt_of_le (hknown p hp) hc.handles⟩
    · rw [hc.history, askedBy, askersOf_append, hasked, List.append_nil, hnames]
      exact hreg.counts
    · rw [hc.history, namesOf_of_no_asker hasked, holds_follows hc.follows hknown]
      exact Nat.le_trans (hcount name) (hreg.holds name)
  | @asks r audience x ask title ht hx ha hn hbackground hcount =>
    have hreg := h.registered ht
    obtain ⟨htitle, hcounts⟩ := hreg.counts.unique ask
    rw [hn] at htitle hcounts
    dsimp only at htitle
    refine ⟨?_, fun name => ?_, fun p hp => (hbackground p hp).elim
      (fun hold => Nat.lt_of_lt_of_le (hreg.known p hold) hc.handles) id⟩
    · rw [hc.history, askedBy_concat hx ha]
      exact hcounts
    · have hle := hcount name
      have hold := hreg.holds name
      rw [holds_follows hc.follows hreg.known] at hle
      rw [hc.history, namesOf_concat hx ha, List.count_append, ← htitle]
      omega
  | @fresh chain vars e ht hr hasked hcount =>
    have hnone : askersOf c.history t = [] := askersOf_eq_nil fun k x hx =>
      absurd (ho.lt_of_started hx) (ht ▸ Nat.lt_irrefl _)
    have hsigns (name : String) : (signs c'.tasks).count (t, name) = 0 := by
      refine Nat.le_zero.1 (Nat.le_trans (hcount name) (Nat.le_of_eq (List.count_eq_zero.2 ?_)))
      exact fun hin => absurd (h.owned _ hin) (ht ▸ Nat.lt_irrefl _)
    subst hr
    refine ⟨?_, fun name => ?_, by simp [Course.start]⟩
    · rw [hc.history, askedBy, askersOf_append, hnone, hasked]
      exact counts_empty
    · simp [hsigns, Course.holds, Course.start]

theorem step (h : Named c) (ho : Orderly m c) (hc : Hands c c' ds) : Named c' where
  registered hr := h.registered_of_gets ho hc (hc.gets hr)
  named {t y name title} hin hy := by
    rw [hc.history] at hin
    rcases hc.named t with hnone | ⟨r, audience, x, ask, title', hx, ht, ha, hn, hname⟩
    · rw [askersOf_append, hnone, List.append_nil, namesOf_of_no_asker hnone] at hin
      exact h.named hin hy
    · rw [askersOf_append, hx, namesOf_concat hx ha,
        List.zip_append (length_namesOf ..).symm, List.mem_append] at hin
      rcases hin with hin | hin
      · exact h.named hin hy
      · obtain ⟨rfl, rfl⟩ := Prod.mk.inj (List.mem_singleton.1 hin)
        rw [hname name hy, ← hn, ((h.registered ht).counts.unique ask).1]
  reported {t report} hin := by
    rw [hc.history] at hin ⊢
    rcases List.mem_append.1 hin with hold | hnew
    · refine (h.reported hold).trans (List.Sublist.subperm ?_)
      rcases hc.named t with hnone | ⟨r, audience, x, ask, title', hx, ht, ha, -⟩
      · rw [namesOf_of_no_asker hnone]
      · rw [namesOf_concat hx ha]
        exact List.sublist_append_left ..
    · obtain ⟨hnone, r, audience, ht, heq⟩ := hc.reported hnew
      rw [namesOf_of_no_asker hnone, heq]
      exact List.subperm_iff_count.2 fun name =>
        Nat.le_trans (Nat.le_add_right ..) ((h.registered ht).holds name)
  owned sign hsign :=
    Nat.lt_of_lt_of_le ((hc.owned sign hsign).elim (h.owned sign) id) hc.tasks

theorem stable (cfg : Setting) :
    Stable cfg fun c => (Orderly cfg.manifest c ∧ Accounted c) ∧ Named c where
  change h hc :=
    have ⟨_, hands⟩ := hc.hands
    ⟨(orderly_stable cfg).change h.1 hc, h.2.step h.1.1 hands⟩
  request h hc :=
    have ⟨_, hands⟩ := hc.hands cfg.manifest
    ⟨(orderly_stable cfg).request h.1 hc, h.2.step h.1.1 hands⟩

lemma empty : Named {} where
  registered h := by simp [taskAt, slotAt] at h
  named h := by simp [askersOf, startsOf] at h
  reported h := absurd h List.not_mem_nil
  owned _ h := absurd h List.not_mem_nil

end Named

variable {cfg : Setting} {s : State}

theorem Reachable.named (hs : Reachable cfg s) : Named s.toCore :=
  ((Named.stable cfg).reachable ⟨⟨orderly_nil _, accounted_nil⟩, .empty⟩ hs).2

/-- Where the names differ, each entry is found under its own. -/
lemma entry?_of_nodup {report : Report} {e : Entry}
    (h : (report.entries.map Entry.name).Nodup) (he : e ∈ report.entries) :
    report.entry? e.name = some e := by
  obtain ⟨e', hfind⟩ : ∃ e', report.entry? e.name = some e' :=
    Option.isSome_iff_exists.1 (List.find?_isSome.2 ⟨e, he, by simp⟩)
  have hname : e'.name = e.name := by simpa using List.find?_some hfind
  rw [hfind, List.inj_on_of_nodup_map h (List.mem_of_find?_eq_some hfind) he hname]

/-- **When display names tell instances apart.** The names that are handed out for a list of
requests differ exactly if nobody asks for a name with a number that another request gets. A run
calls each of its members by the name that was handed out for it, and reports on each of these
names once at most; where they differ, what it reports on a member is found under its name. -/
theorem names_distinct_iff (hs : Reachable cfg s) (t : TaskId) :
    (∀ asked, (Names.handOut .empty asked).Nodup ↔ Unambiguous asked) ∧
    List.Forall₂ (fun x title => ∀ name, x.name? = some name → name = title)
      (askersOf s.history t) (namesOf s.history t) ∧
    ((namesOf s.history t).Nodup ↔ Unambiguous (askedBy s.history t)) ∧
    ∀ report, .completed t report ∈ s.history →
      (report.entries.map Entry.name).Subperm (namesOf s.history t) ∧
      ((namesOf s.history t).Nodup →
        ∀ e ∈ report.entries, report.entry? e.name = some e) := by
  have hnamed := hs.named
  refine ⟨fun _ => nodup_handOut_iff, ?_, nodup_handOut_iff, fun report hx => ?_⟩
  · exact List.forall₂_iff_zip.2
      ⟨(length_namesOf ..).symm, fun hin _ hname => hnamed.named hin hname⟩
  · have hsub := hnamed.reported hx
    have ⟨names, hperm, hnames⟩ := hsub
    exact ⟨hsub, fun hnodup _ => entry?_of_nodup (hperm.nodup_iff.1 (hnodup.sublist hnames))⟩

/-- Two scripts, the second with the name that a second run of the first one gets. -/
def Setting.homonym : Setting where
  manifest :=
    { toDraft := { scripts := NameMap.ofList [("a", "true"), ("a#2", "false")] }, checked := rfl }

/-- The run of `a a a#2` once it has started all three. -/
def State.homonym : State :=
  (({} : State).spawn (.run (.start "a a a#2" .empty false) (.caller "r"))).1.actAll .homonym
    [0, 0, 0, 0, 0, 0, 0]

theorem names_distinct_homonym : Reachable .homonym .homonym ∧
    namesOf State.homonym.history 0 = ["a", "a#2", "a#2"] ∧
    ¬Unambiguous ["a", "a", "a#2"] := by
  have hs : Reachable .homonym .homonym :=
    (calm_run .homonym "a a a#2" .empty false "r").reachable.evolves (evolves_actAll _)
  have hH : State.homonym.history = [.opened 0 "a a a#2" .empty false,
      .started 0 1 (.process 0 ⟨"a", "a", "true", .sequential⟩ "a"),
      .started 0 1 (.process 1 ⟨"a", "a", "true", .sequential⟩ "a#2"),
      .started 0 1 (.process 2 ⟨"a#2", "a#2", "false", .sequential⟩ "a#2")] := rfl
  have hasked : askedBy State.homonym.history 0 = ["a", "a", "a#2"] := by rw [hH]; rfl
  have hnames : namesOf State.homonym.history 0 = ["a", "a#2", "a#2"] := by
    rw [namesOf, hasked]
    rfl
  obtain ⟨-, -, hiff, -⟩ := names_distinct_iff hs 0
  rw [hnames, hasked] at hiff
  exact ⟨hs, hnames, fun h => absurd (hiff.2 h) (by decide)⟩

end ChainRunner.Run
