import ChainRunner.Proofs.Run.Alike

/-!
Two sessions whose foregrounds are alike go on in lockstep: their processes of the foreground end
alike, and their tasks of the foreground act alike.
-/

namespace ChainRunner.Run

section

variable {cfg : Setting} {T T' Q Q' : Pairing} {root a a' w w' : TaskId} {p p' : ProcessId}
  {s s' s₁ s₁' : State} {task task' : Task} {r r' : Course} {ws : List TaskId}
  {bs : List ProcessId} {audience audience' : Audience}

namespace Alike

/-! ### Who is woken for a process -/

lemma relaunch {g g' : Launch → Launch} (h : Alike T Q root s s') (hp : (p, p') ∈ Q)
    (hg : ∀ {l l' : Launch}, l.Alike T l' → (g l).Alike T (g' l')) :
    Alike T Q root { s with launches := s.launches.modify p g }
      { s' with launches := s'.launches.modify p' g' } := by
  have hkept (L : List Launch) (g : Launch → Launch) {p q : ProcessId} (hpq : p ≠ q) :
      (L.modify p g)[q]? = L[q]? := by simp [hpq]
  refine { h with
    side := h.side.relaunch (by simp) fun q l hq hl => .inl ?_
    side' := h.side'.relaunch (by simp) fun q l hq hl => .inl ?_
    wakes := fun {q q'} hq => ?_ }
  · have hne : p ≠ q := fun heq => hq (heq ▸ Pairing.mem_left hp)
    rwa [hkept _ _ hne] at hl
  · have hne : p' ≠ q := fun heq => hq (heq ▸ Pairing.mem_right hp)
    rwa [hkept _ _ hne] at hl
  · have hold := h.wakes hq
    simp only [State.launch?] at hold ⊢
    by_cases heq : p = q
    · obtain rfl := heq
      obtain rfl := (h.processes.iff hp hq).1 rfl
      rw [List.getElem?_modify_eq, List.getElem?_modify_eq]
      generalize s.launches[p]? = o, s'.launches[p']? = o' at hold
      cases hold with
      | none => exact .none
      | some hold => exact .some (hg hold)
    · rw [hkept _ _ heq, hkept _ _ fun hn => heq ((h.processes.iff hp hq).2 hn)]
      exact hold

lemma setWaiter (h : Alike T Q root s s') (hp : (p, p') ∈ Q) (hw : (w, w') ∈ T) :
    Alike T Q root (s.setWaiter p w) (s'.setWaiter p' w') :=
  h.relaunch hp fun hl => ⟨.some hw, hl.keeper⟩

lemma setKeeper (h : Alike T Q root s s') (hp : (p, p') ∈ Q) (hw : (w, w') ∈ T) :
    Alike T Q root (s.setKeeper p w) (s'.setKeeper p' w') :=
  h.relaunch hp fun hl => ⟨hl.waiter, .some hw⟩

/-- The process gets its keeper, if processes have keepers. -/
lemma keep (cfg : Setting) (h : Alike T Q root s s') (hp : (p, p') ∈ Q) :
    ∃ T', T ⊆ T' ∧ Alike T' Q root (s.keep cfg p) (s'.keep cfg p') := by
  unfold State.keep
  split
  · exact ⟨_, List.subset_append_left .., (h.spawn (.keeper hp) (by simp)).setKeeper hp (by simp)⟩
  · exact ⟨T, List.Subset.refl _, h⟩

/-! ### What becomes of the processes -/

lemma table (h : Alike T Q root s s') (t t' : ProcessTable) (stops stops' : List (ProcessId × Nat))
    (ht : s.table.Ages t) (ht' : s'.table.Ages t')
    (hseen : ∀ {p p' : ProcessId}, (p, p') ∈ Q →
      (t.get? p).map Handle.seen = (t'.get? p').map Handle.seen)
    (hasked : ∀ e ∈ stops, e.1 < s.table.handles.length)
    (hasked' : ∀ e ∈ stops', e.1 < s'.table.handles.length)
    (hstops : ∀ {p p' : ProcessId}, (p, p') ∈ Q →
      (stops.lookup p).isSome = (stops'.lookup p').isSome) :
    Alike T Q root { s with table := t, stops } { s' with table := t', stops := stops' } :=
  { h with
    side := { h.side.table ht.length ht.tracked with asked := ht.length ▸ hasked }
    side' := { h.side'.table ht'.length ht'.tracked with asked := ht'.length ▸ hasked' }
    handles := hseen
    stops := hstops
    live := by
      rw [ht.filter_live, ht'.filter_live]
      exact h.live.filter fun hq => by rw [ProcessTable.hasEnded_of_seen (hseen hq)] }

lemma hasEnded_eq (h : Alike T Q root s s') (hp : (p, p') ∈ Q) :
    s.table.hasEnded p = s'.table.hasEnded p' := ProcessTable.hasEnded_of_seen (h.handles hp)

/-- Whoever waits for the process, or keeps it, is woken. -/
lemma wakeFor {g : Launch → Option TaskId} (h : Alike T Q root s s') (hp : (p, p') ∈ Q)
    (hg : ∀ {l l' : Launch}, l.Alike T l' →
      Option.Rel (fun t t' => (t, t') ∈ T) (g l) (g l')) :
    Alike T Q root (match (s.launch? p).bind g with | some w => s.wake w | none => s)
      (match (s'.launch? p').bind g with | some w => s'.wake w | none => s') := by
  have hrel : Option.Rel (fun t t' => (t, t') ∈ T) ((s.launch? p).bind g)
      ((s'.launch? p').bind g) := by
    have hwakes := h.wakes hp
    generalize s.launch? p = o, s'.launch? p' = o' at hwakes
    cases hwakes with
    | none => exact .none
    | some hl => exact hg hl
  generalize (s.launch? p).bind g = o, (s'.launch? p').bind g = o' at hrel
  cases hrel with
  | none => exact h
  | some hw => exact h.wake hw

lemma stop (h : Alike T Q root s s') (hp : (p, p') ∈ Q) :
    Alike T Q root (s.stop p) (s'.stop p') := by
  have hseen (t : ProcessTable) (p q : ProcessId) :
      ((t.terminate (fun _ => true) p).get? q).map Handle.seen = (t.get? q).map Handle.seen := by
    rw [ProcessTable.terminate, ProcessTable.get?_update]
    split
    · cases t.get? q <;> simp
    · rfl
  have hasked {s : State} {F : List TaskId} {P : List ProcessId} {p : ProcessId}
      (hs : Side F P root s.toCore) (hp : p ∈ P) :
      ∀ e ∈ s.stops ++ [(p, s.now)], e.1 < s.table.handles.length := by
    intro e he
    rcases List.mem_append.1 he with he | he
    · exact hs.asked e he
    · exact List.mem_singleton.1 he ▸ hs.processes p hp
  have htable := h.table _ _ (s.stops ++ [(p, s.now)]) (s'.stops ++ [(p', s'.now)])
    (.terminate s.table p fun _ => true) (.terminate s'.table p' fun _ => true)
    (fun hq => by rw [hseen, hseen]; exact h.handles hq)
    (hasked h.side (Pairing.mem_left hp)) (hasked h.side' (Pairing.mem_right hp))
    fun {q q'} hq => by
      have hold := h.stops hq
      have hiff := h.processes.iff hq hp
      simp only [State.stoppedAt?] at hold
      rw [List.lookup_append, List.lookup_append, Option.isSome_or, Option.isSome_or, hold]
      by_cases heq : q = p
      · simp [heq, hiff.1 heq]
      · have hb : (q == p) = false := by simpa using heq
        have hb' : (q' == p') = false := by simpa using fun hn => heq (hiff.2 hn)
        simp [List.lookup_cons, hb, hb']
  exact htable.wakeFor hp fun hl => hl.keeper

/-- Processes are asked to stop, and those of the foreground are the same on both sides. -/
lemma stops_foldl {ps ps' : List ProcessId} (h : Alike T Q root s s')
    (hps : Q.Lists (ps.filter (· ∈ Q.left)) (ps'.filter (· ∈ Q.right)))
    (hlt : ∀ p ∈ ps, p < s.table.handles.length) (hlt' : ∀ p ∈ ps', p < s'.table.handles.length) :
    Alike T Q root (ps.foldl State.stop s) (ps'.foldl State.stop s') := by
  generalize hl : ps.filter (· ∈ Q.left) = l at hps
  generalize hr : ps'.filter (· ∈ Q.right) = l' at hps
  induction hps generalizing s s' ps ps' with
  | nil =>
    rw [List.filter_eq_nil_iff] at hl hr
    exact h.spared (.stops h.side _ fun q hq => ⟨hlt q hq, by simpa using hl q hq⟩)
      (.stops h.side' _ fun q hq => ⟨hlt' q hq, by simpa using hr q hq⟩)
  | cons hp _ ih =>
    -- what stands before the two processes is in the background
    obtain ⟨pre, post, rfl, hpre, -, hl⟩ := List.filter_eq_cons_iff.1 hl
    obtain ⟨pre', post', rfl, hpre', -, hr⟩ := List.filter_eq_cons_iff.1 hr
    have hbefore := h.spared
      (.stops h.side pre fun q hq => ⟨hlt q (by simp [hq]), by simpa using hpre q hq⟩)
      (.stops h.side' pre' fun q hq => ⟨hlt' q (by simp [hq]), by simpa using hpre' q hq⟩)
    rw [List.foldl_append, List.foldl_append, List.foldl_cons, List.foldl_cons]
    refine ih (hbefore.stop hp) (fun q hq => ?_) (fun q hq => ?_) hl hr
    · simpa [length_stops] using hlt q (by simp [hq])
    · simpa [length_stops] using hlt' q (by simp [hq])

lemma stopAll (h : Alike T Q root s s') : Alike T Q root s.stopAll s'.stopAll :=
  h.stops_foldl h.live
    (fun p hp => h.side.tracked p ((s.table.mem_live p).1 hp).1)
    fun p hp => h.side'.tracked p ((s'.table.mem_live p).1 hp).1

lemma putHandle {hd hd' : Handle} (h : Alike T Q root s s') (hp : (p, p') ∈ Q)
    (hs : hd.seen = hd'.seen) (he : hd.hasEnded = true) (he' : hd'.hasEnded = true)
    (killed : Bool) : Alike T Q root (s.putHandle p hd killed) (s'.putHandle p' hd' killed) := by
  have htable := h.table (s.table.update p fun _ => hd) (s'.table.update p' fun _ => hd') _ _
    (.update he) (.update he')
    (fun {q q'} hq => by
      rw [ProcessTable.get?_update, ProcessTable.get?_update]
      have hold := h.handles hq
      by_cases heq : p = q
      · rw [if_pos heq, if_pos ((h.processes.iff hp hq).1 heq)]
        have hmap := congrArg (Option.map fun _ => hd.seen) hold
        simpa [Function.comp_def, hs] using hmap
      · rw [if_neg heq, if_neg fun hn => heq ((h.processes.iff hp hq).2 hn)]
        exact hold) h.side.asked h.side'.asked h.stops
  have hended := h.hasEnded_eq hp
  unfold State.putHandle
  dsimp only
  rw [he, he', ← hended]
  split
  · have hnote := htable.note (.ended p) (.ended p') (fun _ => rfl) fun _ => rfl
    exact wakeFor { hnote with } hp fun hl => hl.waiter
  · exact htable

/-- A process of the foreground ends in the same way in both sessions. -/
lemma endProcess (h : Alike T Q root s s') (hp : (p, p') ∈ Q) (stderr killed : Bool)
    (code : Option Int) :
    Alike T Q root (s.endProcess p stderr code killed) (s'.endProcess p' stderr code killed) := by
  have hseen := h.handles hp
  unfold State.endProcess
  rcases hget : s.table.get? p with _ | hd <;> rcases hget' : s'.table.get? p' with _ | hd' <;>
    rw [hget, hget'] at hseen
  · exact h
  · cases hseen
  · cases hseen
  · refine h.putHandle hp ?_ (Handle.hasEnded_finish ..) (Handle.hasEnded_finish ..) killed
    refine Handle.seen_finish ?_
    split
    · exact Handle.seen_markStderr (Option.some.inj hseen)
    · exact Option.some.inj hseen

end Alike

/-! ### The actions of a run -/

/-- Both tasks do the same. -/
inductive Verdict.Alike (T : Pairing) (root : TaskId) : Verdict → Verdict → Prop
  | goesOn {T' Q : Pairing} {s s' : State} {r r' : Course} {audience audience' : Audience}
    (hT : T ⊆ T') (h : Run.Alike T' Q root s s')
    (ht : (Task.run r audience).Alike T' Q (.run r' audience')) :
    Alike T root (.goes s (.run r audience)) (.goes s' (.run r' audience'))
  | rests : Alike T root .rests .rests
  | ends {T' Q : Pairing} {s s' : State} (h : Run.Alike T' Q root s s') :
    Alike T root (.over s) (.over s')

/-- What a run of the foreground finds in either session when it acts. -/
structure Onstage (T Q : Pairing) (root : TaskId) (s s' : State) (a a' : TaskId) (r : Course)
    (ws : List TaskId) (audience audience' : Audience) : Prop where
  alike : Alike T Q root s s'
  pair : (a, a') ∈ T
  run : a ∈ (Front.of root s.history).runs
  run' : a' ∈ (Front.of root s'.history).runs
  waiting : T.Lists r.waiting ws
  told : audience.Alike T audience'

lemma foreground_reportOf (r : Course) (t : ProcessTable) : (reportOf r t).foreground =
    ⟨r.chain, r.failed, r.entries.filter fun e => !e.background⟩ := by
  have hnone : (r.background.map (backgroundEntry t)).filter (fun e => !e.background) = [] := by
    rw [List.filter_eq_nil_iff]
    intro e he
    obtain ⟨p, -, rfl⟩ := List.mem_map.1 he
    unfold backgroundEntry
    split <;> simp
  rw [Report.foreground, reportOf, List.filter_append, hnone, List.append_nil]

namespace Alike

lemma conclude {report report' : Report} (h : Alike T Q root s s') (ha : (a, a') ∈ T)
    (hr : report.foreground = report'.foreground) (told : audience.Alike T audience') :
    Alike T Q root (s.conclude a report audience) (s'.conclude a' report' audience') := by
  cases told with
  | caller label => exact h.outcome (by rw [Outcome.foreground, Outcome.foreground, hr])
  | barrier name ho =>
    have hf : report.failed = report'.failed := congrArg (·.failed) hr
    unfold State.conclude
    rw [hf]
    exact h.arrive ho ha _

lemma breakOff (h : Alike T Q root s s') (ha : (a, a') ∈ T) (b : Break)
    (told : audience.Alike T audience') :
    Alike T Q root (s.breakOff a b audience) (s'.breakOff a' b audience') := by
  cases told with
  | caller label =>
    cases b with
    | failure why => exact h.outcome rfl
    | crash => exact h
  | barrier name ho => exact h.arrive ho ha _

lemma giveUp (h : Alike T Q root s s') (ha : (a, a') ∈ T) (hw : T.Lists r.waiting r'.waiting)
    (told : audience.Alike T audience') (b : Break) :
    (Course.giveUp s a audience r b).Alike T root (Course.giveUp s' a' audience' r' b) := by
  have hnote := h.note (.brokeOff a b) (.brokeOff a' b) (fun _ => rfl) fun _ => rfl
  exact .ends (((hnote.cancelAll hw).drop ha).breakOff ha b told)

lemma complete (h : Alike T Q root s s') (ha : (a, a') ∈ T) (told : audience.Alike T audience') :
    (Course.complete s a audience r).Alike T root
      (Course.complete s' a' audience' { r with waiting := ws, background := bs }) := by
  have hnote := (h.drop ha).note (.completed a (reportOf r s.table))
    (.completed a' (reportOf { r with waiting := ws, background := bs } s'.table))
    (fun _ => rfl) fun _ => rfl
  refine .ends (hnote.conclude ha ?_ told)
  rw [foreground_reportOf, foreground_reportOf]

lemma enter (h : Alike T Q root s s') (ha : (a, a') ∈ T) (hw : T.Lists r.waiting ws)
    (told : audience.Alike T audience') (name : String) (failed : Bool) (code : Option Int)
    (why : Failure) :
    (Course.enter s a audience r name failed code why).Alike T root
      (Course.enter s' a' audience' { r with waiting := ws, background := bs } name failed code
        why) := by
  unfold Course.enter
  dsimp only
  split
  · exact .goesOn (List.Subset.refl _) h (.run hw told)
  · split
    · have hstop := h.stopAll
      have hflag : Alike T Q root { s.stopAll with failure := true, complained := true }
          { s'.stopAll with failure := true, complained := true } :=
        { hstop with side := { hstop.side with }, side' := { hstop.side' with } }
      have hnote := hflag.note (.stopped a) (.stopped a') (fun _ => rfl) fun _ => rfl
      exact hnote.giveUp ha hw told _
    · have hflag : Alike T Q root { s with failure := true, warned := true }
          { s' with failure := true, warned := true } :=
        { h with side := { h.side with }, side' := { h.side' with } }
      exact .goesOn (List.Subset.refl _) hflag (.run hw told)

lemma enterArrival (h : Alike T Q root s s') (ha : (a, a') ∈ T) (hw : T.Lists r.waiting ws)
    (told : audience.Alike T audience') (b : Arrival) :
    (Course.enterArrival s a audience r b).Alike T root
      (Course.enterArrival s' a' audience' { r with waiting := ws, background := bs } b) := by
  cases b with
  | settled name failed code => exact h.enter ha hw told ..
  | broken why => exact h.giveUp ha hw told _

lemma missStep (h : Alike T Q root s s') (ha : (a, a') ∈ T) (hw : T.Lists r.waiting ws)
    (told : audience.Alike T audience') (target : String) (mode : Mode) :
    (Course.missStep s a audience r target mode).Alike T root
      (Course.missStep s' a' audience' { r with waiting := ws, background := bs } target mode) := by
  unfold Course.missStep
  dsimp only
  have hflag : Alike T Q root { s with complained := true } { s' with complained := true } :=
    { h with }
  have hnote := hflag.note (.started a r.batch (.missing target mode))
    (.started a' r.batch (.missing target mode)) (fun _ => rfl) fun _ => rfl
  split
  · refine hnote.enter ha ?_ told ..
    exact hw
  · exact .goesOn (List.Subset.refl _) hnote (.run hw told)

end Alike

namespace Onstage

/-- A chain in the background is started on either side, and it may get any numbers. -/
lemma startBehind (h : Onstage T Q root s s' a a' r ws audience audience') (c c' : Course)
    (hc : c.exitOnError = false) (hc' : c'.exitOnError = false) (hw : c.waiting = [])
    (hw' : c'.waiting = []) (k : Nat) (target name : String) :
    Alike T Q root
      ((s.spawn (.run c .nobody)).1.note
        (.started a k (.chain s.tasks.length target .background name)))
      ((s'.spawn (.run c' .nobody)).1.note
        (.started a' k (.chain s'.tasks.length target .background name))) := by
  have hspared {s : State} {F : List TaskId} {P : List ProcessId} {a : TaskId} {c : Course}
      (hs : Side F P root s.toCore) (hc : c.exitOnError = false) (hw : c.waiting = []) :
      Spared F P root s ((s.spawn (.run c .nobody)).1.note
        (.started a k (.chain s.tasks.length target .background name))) := by
    have hspawn : Spared F P root s (s.spawn (.run c .nobody)).1 :=
      .spawn hs (.run hc (by simp [hw]) (.inl rfl))
    exact hspawn.trans (.note hspawn.side (if_neg fun hn => hn.2 rfl))
  exact h.alike.spared (hspared h.alike.side hc hw) (hspared h.alike.side' hc' hw')

lemma startChain (h : Onstage T Q root s s' a a' r ws audience audience') (target expr : String)
    (mode : Mode) :
    (Course.startChain s a audience r target expr mode).Alike T root
      (Course.startChain s' a' audience' { r with waiting := ws, background := bs } target expr
        mode) := by
  unfold Course.startChain
  dsimp only
  generalize r.names.unique target = u
  obtain ⟨name, names⟩ := u
  by_cases hm : mode = .background
  · subst hm
    simp only [if_true]
    exact .goesOn (List.Subset.refl _)
      (h.startBehind _ _ (by simp [Course.nested, Course.start])
        (by simp [Course.nested, Course.start]) rfl rfl ..) (.run h.waiting h.told)
  · simp only [if_neg hm]
    have hT : T ⊆ T ++ [(s.tasks.length, s'.tasks.length)] := List.subset_append_left ..
    have hnew : (s.tasks.length, s'.tasks.length) ∈ T ++ [(s.tasks.length, s'.tasks.length)] := by
      simp
    refine .goesOn hT (h.alike.spawnRun h.run h.run' hm
      (.run (r := r.nested expr mode) .nil (.barrier name (hT h.pair)))) ?_
    exact .run ((h.waiting.mono hT).concat hnew) (h.told.mono hT)

lemma startInstance (hcfg : cfg.Sound) (h : Onstage T Q root s s' a a' r ws audience audience')
    (i : Instance) :
    (Course.startInstance cfg s a audience r i).Alike T root
      (Course.startInstance cfg s' a' audience' { r with waiting := ws, background := bs } i) := by
  unfold Course.startInstance
  dsimp only
  generalize r.names.unique i.displayName = u
  obtain ⟨name, names⟩ := u
  obtain ⟨s₁, hlaunch, hnote⟩ := State.launch_eq hcfg s { i with displayName := name }
    (.started a r.batch (.process s.table.handles.length i name)) h.alike.side.launched
  obtain ⟨s₁', hlaunch', hnote'⟩ := State.launch_eq hcfg s' { i with displayName := name }
    (.started a' r.batch (.process s'.table.handles.length i name)) h.alike.side'.launched
  rw [hlaunch, hlaunch']
  dsimp only
  rw [hnote, hnote']
  by_cases hi : i.isBackground = true
  · simp only [if_pos hi]
    have hlaunched := h.alike.spared
      (.launch (i := { i with displayName := name }) cfg h.alike.side
        (Front.after_background _ a r.batch s.table.handles.length name hi))
      (.launch (i := { i with displayName := name }) cfg h.alike.side'
        (Front.after_background _ a' r.batch s'.table.handles.length name hi))
    exact .goesOn (List.Subset.refl _) hlaunched (.run h.waiting h.told)
  · simp only [if_neg hi]
    have hp : (s.table.handles.length, s'.table.handles.length) ∈
        Q ++ [(s.table.handles.length, s'.table.handles.length)] := by simp
    have henrol := h.alike.enrol { i with displayName := name } i r.batch name h.run h.run'
      (by simpa using hi)
    obtain ⟨T₁, hT₁, hkeep⟩ := henrol.keep cfg hp
    generalize (s.enrol { i with displayName := name } _).keep cfg _ = s₂ at hkeep ⊢
    generalize (s'.enrol { i with displayName := name } _).keep cfg _ = s₂' at hkeep ⊢
    have hspawn := hkeep.spawn (.waiter name hp (hT₁ h.pair)) (by simp)
    have hT : T ⊆ T₁ ++ [(s₂.tasks.length, s₂'.tasks.length)] :=
      fun _ hin => List.mem_append_left _ (hT₁ hin)
    refine .goesOn hT (hspawn.setWaiter hp (by simp)) ?_
    exact .run ((h.waiting.mono hT).concat (by simp)) (h.told.mono hT)

lemma startStep (h : Onstage T Q root s s' a a' r ws audience audience') (step : Step) :
    (Course.startStep cfg s a audience r step).Alike T root
      (Course.startStep cfg s' a' audience' { r with waiting := ws, background := bs } step) := by
  unfold Course.startStep
  dsimp only
  split
  · exact .goesOn (List.Subset.refl _) h.alike (.run h.waiting h.told)
  · split
    · exact .goesOn (List.Subset.refl _) h.alike (.run h.waiting h.told)
    · exact h.startChain ..
    · exact h.alike.missStep h.pair h.waiting h.told ..

lemma act (hcfg : cfg.Sound) (h : Onstage T Q root s s' a a' r ws audience audience') :
    (r.act cfg s a audience).Alike T root
      (({ r with waiting := ws, background := bs } : Course).act cfg s' a' audience') := by
  have hempty : r.waiting.isEmpty = ws.isEmpty := by
    have hw := h.waiting
    generalize r.waiting = l at hw
    cases hw <;> rfl
  unfold Course.act
  dsimp only
  rw [← hempty]
  split
  · refine startInstance (Q := Q) hcfg ?_ _
    exact { h with }
  · refine startStep (Q := Q) ?_ _
    exact { h with }
  · refine h.alike.enterArrival h.pair ?_ h.told _
    exact h.waiting
  · split
    · split
      · exact h.alike.complete h.pair h.told
      · exact .goesOn (List.Subset.refl _) h.alike (.run h.waiting h.told)
    · exact .rests

end Onstage

/-! ### The turn of a task -/

lemma goOn_of_goes (h : s.act cfg a task = .goes s' task') :
    State.goOn cfg a s task = State.goOn cfg a (s'.setTask a task') task' := by
  rw [State.goOn]
  split <;> simp_all

lemma goOn_of_rests (h : s.act cfg a task = .rests) : State.goOn cfg a s task = s := by
  rw [State.goOn]
  split <;> simp_all

lemma goOn_of_over (h : s.act cfg a task = .over s') : State.goOn cfg a s task = s' := by
  rw [State.goOn]
  split <;> simp_all

namespace Alike

lemma outcome?_eq (h : Alike T Q root s s') (hp : (p, p') ∈ Q) :
    (s.table.get? p).bind Handle.outcome? = (s'.table.get? p').bind Handle.outcome? := by
  have hseen := h.handles hp
  rcases hget : s.table.get? p with _ | hd <;> rcases hget' : s'.table.get? p' with _ | hd' <;>
    rw [hget, hget'] at hseen
  · cases hseen
  · cases hseen
  · exact Handle.outcome?_of_seen (Option.some.inj hseen)

/-- Two tasks that are alike act alike. -/
lemma act (hcfg : cfg.Sound) (h : Alike T Q root s s') (ha : (a, a') ∈ T)
    (ht : taskAt s.tasks a = some task) (ht' : taskAt s'.tasks a' = some task')
    (htask : task.Alike T Q task') :
    (s.act cfg a task).Alike T root (s'.act cfg a' task') := by
  cases htask with
  | run waiting told =>
    have hrun := (h.side.runs _ _ _ ht).2 (Pairing.mem_left ha)
    have hrun' := (h.side'.runs _ _ _ ht').2 (Pairing.mem_right ha)
    exact Onstage.act hcfg ⟨h, ha, hrun, hrun', waiting, told⟩
  | waiter name hp told =>
    unfold State.act State.actOfWaiter
    dsimp only
    rw [h.outcome?_eq hp]
    split
    · exact .ends ((h.drop ha).arrive told ha _)
    · exact .rests
  | keeper hp =>
    unfold State.act State.actOfKeeper
    dsimp only
    rw [h.hasEnded_eq hp, h.stops hp]
    split
    · exact .ends (h.drop ha)
    · split
      · exact .ends ((h.drop ha).endProcess hp ..)
      · exact .rests

lemma goOn (hcfg : cfg.Sound) (h : Alike T Q root s s') (ha : (a, a') ∈ T)
    (ht : taskAt s.tasks a = some task) (ht' : taskAt s'.tasks a' = some task')
    (htask : task.Alike T Q task') :
    ∃ T' Q', Alike T' Q' root (State.goOn cfg a s task) (State.goOn cfg a' s' task') := by
  have hact := h.act hcfg ha ht ht' htask
  fun_induction State.goOn cfg a s task generalizing T Q s' task' with
  | case1 s task s₁ task₁ heq ih =>
    rw [heq] at hact
    generalize heq' : s'.act cfg a' task' = v at hact
    cases hact with
    | @goesOn T' Q' _ s₁' r₁ r₁' audience₁ audience₁' hT hs hnew =>
      have hl := taskAt_of_goes heq ht
      have hr := taskAt_of_goes heq' ht'
      obtain ⟨r, audience, rfl⟩ := run_of_goes heq
      obtain ⟨r', audience', rfl⟩ := run_of_goes heq'
      have hset := hs.setRun (hT ha) hnew ⟨r, audience, hl⟩ ⟨r', audience', hr⟩
      have hl' := taskAt_setTask hl (.run r₁ audience₁)
      have hr' := taskAt_setTask hr (.run r₁' audience₁')
      rw [goOn_of_goes heq']
      exact ih hset (hT ha) hl' hr' hnew (hset.act hcfg (hT ha) hl' hr' hnew)
  | case2 s task heq =>
    rw [heq] at hact
    generalize heq' : s'.act cfg a' task' = v at hact
    cases hact
    rw [goOn_of_rests heq']
    exact ⟨T, Q, h⟩
  | case3 s task s₁ heq =>
    rw [heq] at hact
    generalize heq' : s'.act cfg a' task' = v at hact
    cases hact with
    | ends hs =>
      rw [goOn_of_over heq']
      exact ⟨_, _, hs⟩

lemma discard (h : Alike T Q root s s') (ha : (a, a') ∈ T) (htask : task.Alike T Q task') :
    Alike T Q root (s.discard a task) (s'.discard a' task') := by
  cases htask with
  | run waiting told => exact (h.cancelAll waiting).drop ha
  | waiter name hp told => exact h.drop ha
  | keeper hp => exact h.drop ha

/-- A task of the foreground has its turn in either session. -/
theorem turn (hcfg : cfg.Sound) (h : Alike T Q root s s') (ha : (a, a') ∈ T) :
    ∃ T' Q', Alike T' Q' root (s.turn cfg a) (s'.turn cfg a') := by
  have hslot := h.slots ha
  unfold State.turn
  simp only [Core.slot?_eq]
  generalize hs : slotAt s.tasks a = o, hs' : slotAt s'.tasks a' = o' at hslot
  cases hslot with
  | none => exact ⟨T, Q, h⟩
  | @some slot slot' hslot =>
    obtain ⟨task, cancelled⟩ := slot
    obtain ⟨task', cancelled'⟩ := slot'
    obtain rfl : cancelled = cancelled' := hslot.cancelled
    cases cancelled with
    | true => exact ⟨T, Q, h.discard ha hslot.task⟩
    | false => exact h.goOn hcfg ha (taskAt_of_slotAt hs) (taskAt_of_slotAt hs') hslot.task

end Alike

end

end ChainRunner.Run
