import ChainRunner.Proofs.Run.DryRun
import ChainRunner.Proofs.Run.Registry

/-!
What a run asks the registry for, and what bears a name of the run: the entries of its report,
the ends it has been told of, its background instances, and the tasks that will tell it of an end.
-/

namespace ChainRunner.Run

/-- What a member asks the registry for. -/
def Member.asked? : Member → Option String
  | .process _ i _ => some i.displayName
  | .chain _ target _ _ => some target
  | .missing target mode => if mode = .sequential then some target else none

/-- The display name that a member is started under. -/
def Member.name? : Member → Option String
  | .process _ _ name => some name
  | .chain _ _ _ name => some name
  | .missing .. => none

/-- The members that the run `t` has asked a name for. -/
def askersOf (H : List Deed) (t : TaskId) : List Member :=
  ((startsOf H t).map Prod.snd).filter (·.asked?.isSome)

/-- What the run `t` has asked for. -/
def askedBy (H : List Deed) (t : TaskId) : List String := (askersOf H t).filterMap Member.asked?

/-- What the run `t` was given. -/
def namesOf (H : List Deed) (t : TaskId) : List String := Names.handOut .empty (askedBy H t)

/-- The run that a task has to tell of its end, and the name it does so under. -/
def Task.sign? : Task → Option (TaskId × String)
  | .waiter _ name owner => some (owner, name)
  | .run _ (.barrier owner name) => some (owner, name)
  | _ => none

def signs (ts : List (Option Slot)) : List (TaskId × String) :=
  ts.filterMap fun slot? => slot?.bind (·.task.sign?)

def Arrival.name? : Arrival → Option String
  | .settled name .. => some name
  | .broken _ => none

/-- The names that the run has learned of, and those of its background instances. -/
def Course.holds (r : Course) (table : ProcessTable) : List String :=
  r.entries.map Entry.name ++ r.arrived.filterMap Arrival.name? ++
    r.background.map fun p => (backgroundEntry table p).name

section

variable {ts ts' : List (Option Slot)} {t a w self : TaskId} {H ds : List Deed} {r : Course}
  {audience : Audience}

/-! ### Signs of tasks -/

lemma signs_append (more : List (Option Slot)) : signs (ts ++ more) = signs ts ++ signs more :=
  List.filterMap_append ..

lemma signs_modify {f : Slot → Slot}
    (hf : ∀ slot, slotAt ts a = some slot → (f slot).task.sign? = slot.task.sign?) :
    signs (ts.modify a (Option.map f)) = signs ts := by
  induction ts generalizing a with
  | nil => cases a <;> rfl
  | cons slot? ts ih =>
    cases a with
    | zero =>
      cases slot? with
      | none => rfl
      | some slot => simp only [signs, List.modify_zero_cons, List.filterMap_cons, Option.map_some,
          Option.bind_some, hf slot rfl]
    | succ a =>
      have h := ih fun slot hs => hf slot hs
      simp only [signs, List.modify_succ_cons, List.filterMap_cons] at h ⊢
      rw [h]

lemma signs_mapAt {f : Task → Task}
    (hf : ∀ task, taskAt ts a = some task → (f task).sign? = task.sign?) :
    signs (mapAt ts a f) = signs ts :=
  signs_modify fun slot hs => hf slot.task (by simp [taskAt, hs])

lemma signs_cancelAt (ts : List (Option Slot)) (ids : List TaskId) :
    signs (cancelAt ts ids) = signs ts := by
  unfold cancelAt
  induction ids generalizing ts with
  | nil => rfl
  | cons i ids ih =>
    rw [List.foldl_cons, ih]
    exact signs_modify fun _ _ => rfl

/-- The sign of a task goes with it. -/
lemma signs_set_none {slot : Slot} (hs : slotAt ts w = some slot) :
    (signs ts).Perm (slot.task.sign?.toList ++ signs (ts.set w none)) := by
  induction ts generalizing w with
  | nil => simp [slotAt] at hs
  | cons slot? ts ih =>
    cases w with
    | zero =>
      obtain rfl : slot? = some slot := by simpa [slotAt] using hs
      cases hsign : slot.task.sign? <;> simp [signs, hsign]
    | succ w =>
      have h := ih (w := w) hs
      cases hsign : slot?.bind (·.task.sign?) with
      | none => simpa [signs, hsign] using h
      | some sign =>
        simp only [signs, List.set_cons_succ, List.filterMap_cons, hsign] at h ⊢
        exact (h.cons sign).trans List.perm_middle.symm

@[simp] lemma Task.sign?_receive (v : TaskId) (b : Arrival) (task : Task) :
    (task.receive v b).sign? = task.sign? := by
  cases task with
  | run r audience => cases audience <;> rfl
  | _ => rfl

@[simp] lemma Task.sign?_receiveRun (v : TaskId) (r : Option Report) (task : Task) :
    (task.receiveRun v r).sign? = task.sign? := by
  cases task with
  | run r audience => cases audience <;> rfl
  | _ => rfl

lemma Task.sign?_of_cycle {task : Task} (h : task.cycle?.isSome = true) :
    task.sign? = none := by
  cases task <;> first | rfl | cases h

lemma Task.sign?_run (r r' : Course) (audience : Audience) :
    (Task.run r audience).sign? = (Task.run r' audience).sign? := by
  cases audience <;> rfl

lemma signs_keeperSlots {cfg : Setting} {p : ProcessId} : signs (keeperSlots cfg p) = [] := by
  unfold keeperSlots
  split <;> rfl

lemma signs_tellReport {self : TaskId} {report : Report} {audience : Audience} :
    signs (State.tellReport self report audience ts) = signs ts := by
  cases audience <;> first | rfl | exact signs_mapAt fun _ _ => by simp

lemma signs_tellBreak {self : TaskId} {b : Break} {audience : Audience} :
    signs (State.tellBreak self b audience ts) = signs ts := by
  cases audience <;> first | rfl | exact signs_mapAt fun _ _ => by simp

lemma signs_put (r₁ : Course)
    (h : taskAt ts self = some (.run r audience)) :
    signs (mapAt ts self fun _ => .run r₁ audience) = signs ts :=
  signs_mapAt fun task ht => by
    rw [h] at ht
    cases ht
    exact Task.sign?_run ..

lemma signs_grow {more : List (Option Slot)} {r₁ : Course}
    (h : taskAt ts self = some (.run r audience)) :
    signs (mapAt (ts ++ more) self fun _ => .run r₁ audience) = signs ts ++ signs more := by
  rw [signs_put _ (taskAt_append h), signs_append]

/-- The tasks without the task `w`, some of them cancelled. -/
lemma count_signs_dropped {slot : Slot} (hs : slotAt ts w = some slot)
    (ids : List TaskId) (sign : TaskId × String) :
    slot.task.sign?.toList.count sign + (signs ((cancelAt ts ids).set w none)).count sign =
      (signs ts).count sign := by
  have hcancel : slotAt (cancelAt ts ids) w =
      some { slot with cancelled := slot.cancelled || w ∈ ids } := by
    rw [slotAt_cancelAt, hs]
    rfl
  rw [← signs_cancelAt ts ids, (signs_set_none hcancel).count_eq, List.count_append]

lemma count_signs_dropped_le {slot : Slot} (hs : slotAt ts w = some slot)
    (ids : List TaskId) (sign : TaskId × String) :
    (signs ((cancelAt ts ids).set w none)).count sign ≤ (signs ts).count sign := by
  rw [← count_signs_dropped hs ids]
  exact Nat.le_add_left ..

lemma signs_cycles {task task' : Task}
    (h : taskAt ts self = some task) (ht : task.cycle?.isSome = true)
    (ht' : task'.cycle?.isSome = true) : signs (mapAt ts self fun _ => task') = signs ts :=
  signs_mapAt fun u hu => by
    rw [h] at hu
    cases hu
    rw [Task.sign?_of_cycle ht, Task.sign?_of_cycle ht']

lemma count_signs_closes {task : Task} {b : Bool}
    {os : List (String × Outcome)} (h : slotAt ts self = some ⟨task, b⟩)
    (ht : task.cycle?.isSome = true) (hc : Closes ts self ts' os) (sign : TaskId × String) :
    (signs ts').count sign ≤ (signs ts).count sign := by
  cases hc with
  | gone => exact count_signs_dropped_le h [] sign
  | again due => rw [signs_cycles (taskAt_of_slotAt h) ht rfl]

lemma count_sign {name title : String} : [(t, title)].count (t, name) = [title].count name := by
  by_cases h : title = name <;> simp [h]

lemma count_sign_of_ne {title : String} {sign : TaskId × String} (h : sign.1 ≠ self) :
    [(self, title)].count sign = 0 :=
  List.count_eq_zero.2 fun hin => h (by rw [List.mem_singleton.1 hin])

/-! ### Requests -/

lemma askersOf_append : askersOf (H ++ ds) t = askersOf H t ++ askersOf ds t := by
  simp [askersOf, startsOf_append]

lemma askersOf_eq_nil (h : ∀ k x, .started t k x ∉ ds) : askersOf ds t = [] := by
  have hs : startsOf ds t = [] :=
    List.eq_nil_iff_forall_not_mem.2 fun ⟨k, x⟩ hin => h k x (mem_startsOf.1 hin)
  simp [askersOf, hs]

lemma askedBy_concat {x : Member} {ask : String} (hx : askersOf ds t = [x])
    (ha : x.asked? = some ask) : askedBy (H ++ ds) t = askedBy H t ++ [ask] := by
  simp [askedBy, askersOf_append, hx, ha]

lemma namesOf_of_no_asker (h : askersOf ds t = []) : namesOf (H ++ ds) t = namesOf H t := by
  rw [namesOf, askedBy, askersOf_append, h, List.append_nil, namesOf, askedBy]

lemma namesOf_concat {x : Member} {ask : String} (hx : askersOf ds t = [x])
    (ha : x.asked? = some ask) :
    namesOf (H ++ ds) t = namesOf H t ++ [titleOf ask ((askedBy H t).count ask + 1)] := by
  rw [namesOf, askedBy_concat hx ha, handOut_concat, namesOf]

lemma length_handOut (ns : Names) (asked : List String) :
    (ns.handOut asked).length = asked.length := by
  induction asked generalizing ns with
  | nil => rfl
  | cons name rest ih => simp [Names.handOut, ih]

lemma length_namesOf (H : List Deed) (t : TaskId) :
    (namesOf H t).length = (askersOf H t).length := by
  rw [namesOf, length_handOut, askedBy, List.length_filterMap_eq_countP]
  exact List.countP_eq_length.2 fun x hx => (List.mem_filter.1 hx).2

lemma askersOf_started {k : Nat} {x : Member} (pre post : List Deed)
    (hpre : ∀ t k x, Deed.started t k x ∉ pre ++ post) (ha : x.asked?.isSome = true)
    (t : TaskId) :
    askersOf (pre ++ .started self k x :: post) t = if t = self then [x] else [] := by
  have hnil (ds : List Deed) (h : ∀ d ∈ ds, d ∈ pre ++ post) : startsOf ds t = [] :=
    List.eq_nil_iff_forall_not_mem.2 fun ⟨k, x⟩ hin => hpre t k x (h _ (mem_startsOf.1 hin))
  rw [List.append_cons, askersOf, startsOf_append, startsOf_append, hnil pre (by simp +contextual),
    hnil post (by simp +contextual)]
  by_cases ht : t = self
  · simp [startsOf, ht, ha]
  · simp [startsOf, ht, Ne.symm ht]

/-! ### What a run holds -/

lemma holds_follows {table table' : ProcessTable} {r : Course} (hf : table.Follows table')
    (hr : ∀ p ∈ r.background, p < table.handles.length) : r.holds table' = r.holds table := by
  unfold Course.holds
  congr 1
  refine List.map_congr_left fun p hp => ?_
  obtain ⟨h, hget⟩ : ∃ h, table.get? p = some h := ⟨_, List.getElem?_eq_getElem (hr p hp)⟩
  obtain ⟨h', hget', hh⟩ := hf p h hget
  simp [backgroundEntry, hget, hget', hh.name]

lemma Course.Quiet.count_holds_le {table : ProcessTable} {m : Manifest} {r r' : Course}
    (q : r.Quiet m r') (name : String) :
    (r'.holds table).count name ≤ (r.holds table).count name := by
  cases q with
  | enter entries ha harrived hgo he =>
    simp only [Course.holds, he, harrived, Arrival.name?, List.filterMap_cons, List.map_append,
      List.map_cons, List.map_nil, List.count_append, List.count_cons, List.count_nil]
    omega
  | skip | expand | begins => exact Nat.le_refl _

/-- A process that has just been launched shows its name. -/
lemma name_backgroundEntry_launch (table : ProcessTable) (h : Handle) (now : Nat) :
    (backgroundEntry (table.launch h now) table.handles.length).name = h.name := by
  rw [backgroundEntry, ProcessTable.get?_launch_self]
  rfl

end

end ChainRunner.Run
