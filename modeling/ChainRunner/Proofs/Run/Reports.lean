import ChainRunner.Proofs.Run.Aggregate
import ChainRunner.Proofs.Run.DryRun
import Mathlib.Data.List.Forall2

/-!
What the report of a run says: one entry for each member that the run answers for, batch by batch,
and then one for each of its background instances.

An entry is written when a member that is missing is started, or when one that has told of its end
is entered. Until then a member of the current batch is among those that have told, or the run
waits for it.
-/

namespace ChainRunner.Run

/-! ### Entries of members -/

instance : DecidablePred Member.Counts
  | .process _ i _ => inferInstanceAs (Decidable (i.isBackground = false))
  | .chain _ _ mode _ => inferInstanceAs (Decidable (mode ≠ .background))
  | .missing _ mode => inferInstanceAs (Decidable (mode = .sequential))

/-- What a report says of a member that is over: how it ended, if it is a process, and whether the
report of its own run had a failure, if it is a chain. -/
inductive Enters (c : Core) : Member → Entry → Prop
  | process {p : ProcessId} {i : Instance} {name : String} {h : Handle}
    (hp : c.table.get? p = some h) (he : h.hasEnded = true) :
    Enters c (.process p i name) ⟨name, false, true, h.failed, h.code⟩
  | chain {u : TaskId} {target name : String} {mode : Mode} {report : Report}
    (hx : .completed u report ∈ c.history) :
    Enters c (.chain u target mode name) ⟨name, false, true, report.failed, none⟩
  | missing {target name : String} {mode : Mode} (hn : Titled target name) :
    Enters c (.missing target mode) ⟨name, false, true, true, none⟩

/-- Once the arrival is entered, the report says so of the member. -/
def Member.ArrivesAs (c : Core) (x : Member) (a : Arrival) : Prop :=
  ∀ name failed code, a = .settled name failed code → Enters c x ⟨name, false, true, failed, code⟩

/-- The process and the display name of a background instance. -/
def Member.aside? : Member → Option (ProcessId × String)
  | .process p i name => if i.isBackground then some (p, name) else none
  | _ => none

/-- Of what was started, the members of a batch that the run answers for. -/
def countingIn (L : List (Nat × Member)) (k : Nat) : List Member :=
  (L.filter fun a => a.1 = k ∧ a.2.Counts).map Prod.snd

/-- Of what was started, the background instances in order. -/
def asideIn (L : List (Nat × Member)) : List (ProcessId × String) :=
  L.filterMap fun a => a.2.aside?

/-- The lists are related element by element, once the first one is rearranged. -/
def OneEach {α β : Type} (R : α → β → Prop) (xs : List α) (ys : List β) : Prop :=
  ∃ zs, zs.Perm xs ∧ List.Forall₂ R zs ys

/-- The process is this background instance. -/
def Core.Labels (c : Core) (a : ProcessId × String) (p : ProcessId) : Prop :=
  a.1 = p ∧ ∃ h, c.table.get? p = some h ∧ h.name = a.2

/-- Where the members of the current batch are: entered in `current`, arrived, or awaited. -/
def Course.Sorts (c : Core) (L : List (Nat × Member)) (t : TaskId) (r : Course)
    (current : List Entry) : Prop :=
  ∃ xs ys zs, (xs ++ ys ++ zs).Perm (countingIn L r.batch) ∧ List.Forall₂ (Enters c) xs current ∧
    List.Forall₂ (Member.ArrivesAs c) ys r.arrived ∧
    List.Forall₂ (fun x w => Watches c.tasks t w x) zs r.waiting

/-- How far the report of a run has come that has started the members `L`. -/
structure Course.Reporting (c : Core) (L : List (Nat × Member)) (t : TaskId) (r : Course) :
    Prop where
  entries : ∃ f current, r.entries = (List.range r.batch).flatMap f ++ current ∧
    (∀ j < r.batch, OneEach (Enters c) (countingIn L j) (f j)) ∧ r.Sorts c L t current
  background : List.Forall₂ c.Labels (asideIn L) r.background

/-- The report accounts for the first `n` batches of the members `L`: batch by batch it has one
entry for each member that the run answers for, and after these one for each background instance in
the order of `L`. -/
def Report.Accounts (c : Core) (L : List (Nat × Member)) (n : Nat) (report : Report) : Prop :=
  ∃ f rest, report.entries = (List.range n).flatMap f ++ rest ∧
    (∀ j < n, OneEach (Enters c) (countingIn L (j + 1)) (f j)) ∧
    List.Forall₂ (fun a e => e.background = true ∧ e.name = a.2) (asideIn L) rest

/-- Runs in progress are on their way to a report, and those that have completed have got there. -/
structure Reported (m : Manifest) (c : Core) : Prop where
  runs : ∀ {t : TaskId} {r : Course} {audience : Audience},
    taskAt c.tasks t = some (.run r audience) → r.Reporting c (startsOf c.history t) t
  completed : ∀ {t : TaskId} {report : Report}, .completed t report ∈ c.history →
    ∃ chain vars e, .opened t chain vars e ∈ c.history ∧
      report.Accounts c (startsOf c.history t) (plan m chain vars).length

/-! ### What a run writes -/

/-- What a run has to wait for, to enter and to remember when it has started the member. -/
inductive Begins (c : Core) (t : TaskId) :
    Member → List TaskId → List Entry → List ProcessId → Prop
  | aside {i : Instance} {name : String} {p : ProcessId} {h : Handle} (hb : i.isBackground = true)
    (hp : c.table.get? p = some h) (hn : h.name = name) :
    Begins c t (.process p i name) [] [] [p]
  | process {i : Instance} {name : String} {p : ProcessId} {w : TaskId}
    (hb : i.isBackground = false) (hs : taskAt c.tasks w = some (.waiter p name t)) :
    Begins c t (.process p i name) [w] [] []
  | detached {u : TaskId} {target name : String} {mode : Mode} (hb : mode = .background) :
    Begins c t (.chain u target mode name) [] [] []
  | chain {u : TaskId} {target name : String} {mode : Mode} (hb : mode ≠ .background) :
    Begins c t (.chain u target mode name) [u] [] []
  | missing {target name : String} {mode : Mode} (hm : mode = .sequential)
    (hn : Titled target name) :
    Begins c t (.missing target mode) [] [⟨name, false, true, true, none⟩] []
  | skipped {target : String} {mode : Mode} (hm : mode ≠ .sequential) :
    Begins c t (.missing target mode) [] [] []

/-- What a run was before a change from `c` to `c'`, and what it has started since. -/
inductive Course.Writes (m : Manifest) (c c' : Core) (t : TaskId) (r' : Course)
    (audience : Audience) : Prop
  | same (ht : taskAt c.tasks t = some (.run r' audience))
    (hs : startsOf c'.history t = startsOf c.history t)
  | quiet {r : Course} (ht : taskAt c.tasks t = some (.run r audience)) (q : r.Quiet m r')
    (hs : startsOf c'.history t = startsOf c.history t)
  | starts {r : Course} {x : Member} {ws : List TaskId} {es : List Entry} {ps : List ProcessId}
    (ht : taskAt c.tasks t = some (.run r audience))
    (hs : startsOf c'.history t = startsOf c.history t ++ [(r.batch, x)])
    (hx : Begins c' t x ws es ps) (hbatch : r'.batch = r.batch)
    (harrived : r'.arrived = r.arrived) (hwaiting : r'.waiting = r.waiting ++ ws)
    (hentries : r'.entries = r.entries ++ es) (hbackground : r'.background = r.background ++ ps)
  | told {r : Course} {v : TaskId} {b : Arrival} (ht : taskAt c.tasks t = some (.run r audience))
    (hr : r' = r.told v b) (hv : Tells c t v b) (gone : taskAt c'.tasks v = none)
    (hs : startsOf c'.history t = startsOf c.history t)
  | fresh {chain : String} {vars : Variables} {e : Bool} (ht : t = c.tasks.length)
    (hr : r' = .start chain vars e) (hs : startsOf c'.history t = startsOf c.history t)

section

variable {cfg : Setting} {m : Manifest} {c c' : Core} {t self : TaskId} {r r' : Course}
  {audience : Audience}

lemma startsOf_other {H ds : List Deed} (h : ∀ k x, .started t k x ∉ ds) :
    startsOf (H ++ ds) t = startsOf H t := by
  have hnil : startsOf ds t = [] :=
    List.eq_nil_iff_forall_not_mem.2 fun ⟨k, x⟩ hin => h k x (mem_startsOf.1 hin)
  rw [startsOf_append, hnil, List.append_nil]

theorem Change.writes (hc : Change cfg c c') (ht : taskAt c'.tasks t = some (.run r' audience)) :
    r'.Writes cfg.manifest c c' t audience := by
  have hother {ds : List Deed} (hds : ∀ k x, Deed.started t k x ∉ ds) :
      startsOf (c.history ++ ds) t = startsOf c.history t := startsOf_other hds
  have hown (ds : List Deed) {k : Nat} {x : Member} (hds : ∀ k x, Deed.started t k x ∉ ds) :
      startsOf (c.history ++ (ds ++ [.started t k x])) t = startsOf c.history t ++ [(k, x)] := by
    rw [← List.append_assoc, startsOf_append, hother hds]
    simp [startsOf]
  cases hc with
  | @quiet self r₀ r' a hs q =>
    rw [← List.append_nil c.tasks] at ht
    rcases taskAt_grow ht with ⟨rfl, rfl, rfl⟩ | ⟨-, hold⟩
    · exact .quiet (taskAt_of_slotAt hs) q rfl
    · exact .same (by simpa using hold) rfl
  | launches name names now hs ha hb =>
    rcases taskAt_grow ht with ⟨rfl, rfl, rfl⟩ | ⟨hne, hold⟩
    · exact .starts (taskAt_of_slotAt hs) (hown [] (by simp))
        (.aside hb (c.table.get?_launch_self _ _) rfl) rfl rfl (List.append_nil _).symm
        (List.append_nil _).symm rfl
    · exact .same (run_of_append (fun _ => not_run_of_keeperSlots) hold)
        (hother (by simp [hne]))
  | awaits name names now hs ha hb =>
    have hlt := lt_of_slotAt hs
    dsimp only at ht
    rw [List.append_assoc] at ht
    rcases taskAt_grow ht with ⟨rfl, rfl, rfl⟩ | ⟨hne, hold⟩
    · have hle : c.tasks.length ≤ (c.tasks ++ keeperSlots cfg c.table.handles.length).length := by
        simp
      refine .starts (taskAt_of_slotAt hs) (hown [] (by simp)) (.process hb ?_) rfl rfl rfl
        (List.append_nil _).symm (List.append_nil _).symm
      exact taskAt_of_slotAt
        (slotAt_mapAt_concat (Nat.lt_of_lt_of_le hlt hle) _ fun _ => .run _ audience)
    · exact .same (run_of_append (fun _ => not_run_of_waiterSlots) hold)
        (hother (by simp [hne]))
  | @nests self r audience' step agenda target expr name names hs ha ht' hm =>
    -- the new run may also be the one that is asked about
    rcases taskAt_grow ht with ⟨rfl, rfl, rfl⟩ | ⟨hne, hold⟩
    · have hstarts := @hown [.opened c.tasks.length expr r.vars
        (r.exitOnError && step.mode ≠ .background)] r.batch
        (.chain c.tasks.length target step.mode name) (by simp)
      by_cases hb : step.mode = .background
      · exact .starts (taskAt_of_slotAt hs) hstarts (.detached hb) rfl rfl (by simp [hb])
          (List.append_nil _).symm (List.append_nil _).symm
      · exact .starts (taskAt_of_slotAt hs) hstarts (.chain hb) rfl rfl (by simp [hb])
          (List.append_nil _).symm (List.append_nil _).symm
    · rcases run_of_spawn hold with ⟨hlen, rfl, -⟩ | hold
      · exact .fresh hlen rfl (hother (by simp [hne]))
      · exact .same hold (hother (by simp [hne]))
  | @misses self r audience' step agenda target names entries hs ha ht' hm hgo hn =>
    rw [← List.append_nil c.tasks] at ht
    rcases taskAt_grow ht with ⟨rfl, rfl, rfl⟩ | ⟨hne, hold⟩
    · by_cases hseq : step.mode = .sequential
      · rcases hu : r.names.unique target with ⟨title, names'⟩
        rw [if_pos hseq, hu] at hn
        obtain ⟨rfl, rfl⟩ := Prod.mk.inj hn
        exact .starts (taskAt_of_slotAt hs) (hown [] (by simp))
          (.missing hseq (titled_of_unique hu)) rfl rfl (List.append_nil _).symm rfl
          (List.append_nil _).symm
      · rw [if_neg hseq] at hn
        obtain ⟨rfl, rfl⟩ := Prod.mk.inj hn
        exact .starts (taskAt_of_slotAt hs) (hown [] (by simp)) (.skipped hseq) rfl rfl
          (List.append_nil _).symm (List.append_nil _).symm (List.append_nil _).symm
    · exact .same (by simpa using hold) (hother (by simp [hne]))
  | completes hs ha hr hw hb =>
    rcases run_of_completes ht with hold | ⟨r₀, name, rfl, hold, hr'⟩
    · exact .same hold (hother (by simp))
    · exact .told hold hr' (.completed hs ⟨ha, hr, hw, hb⟩) (taskAt_mapAt_eq_none (by simp))
        (hother (by simp))
  | breaks hs hb =>
    rcases (run_of_breaks ht).2 with hold | ⟨r₀, name, rfl, hold, hr'⟩
    · exact .same hold (hother (by simp))
    · exact .told hold hr' (.broken hs hb.not_isDone) (taskAt_mapAt_eq_none (by simp))
        (hother (by simp))
  | @fails self r audience' ds why now hs hf he =>
    -- what the run `self` has started is no matter of the run `t`
    obtain ⟨hne, hrun⟩ := run_of_breaks ht
    have hds : ∀ k x, Deed.started t k x ∉ ds ++ [.stopped self, .brokeOff self (.failure why)] :=
      fun k x hin => by
        obtain ⟨target, mode, heq⟩ | heq | heq := hf.mem_deeds hin
        · exact hne (Deed.started.inj heq).1
        all_goals cases heq
    rcases hrun with hold | ⟨r₀, name, rfl, hold, hr'⟩
    · exact .same hold (hother hds)
    · exact .told hold hr' (.broken hs hf.not_isDone) (taskAt_mapAt_eq_none (by simp))
        (hother hds)
  | settles failed code hw hp ho =>
    rcases run_of_settles ht with hold | ⟨rfl, r₀, hold, hr'⟩
    · exact .same hold rfl
    · exact .told hold hr' (.waiter hw hp ho) (taskAt_mapAt_eq_none (by simp)) rfl
  | leaves hs ht' => exact .same (taskAt_of_set_none ht).2 rfl
  | news hp follows =>
    refine .same ht ?_
    dsimp only
    split
    · exact hother (by simp)
    · rfl
  | locks hs ht₀ ht' hl =>
    exact .same (run_of_put (taskAt_of_slotAt hs) (by simp [ht']) ht) (hother (by simp))
  | refused hs ht₀ hl hcl | releases hs ht₀ hcl =>
    exact .same (run_of_closes (taskAt_of_slotAt hs) hcl ht) (hother (by simp))
  | drains hs ht₀ ht' =>
    exact .same (run_of_put (taskAt_of_slotAt hs) (by rcases ht' with ht' | ht' <;> simp [ht']) ht)
      (hother (by simp))
  | triggers chain vars hs ht₀ =>
    rcases run_of_spawn ht with ⟨hlen, rfl, -⟩ | hold
    · exact .fresh hlen rfl (hother (by simp))
    · exact .same hold (hother (by simp))
  | cycles hs ht₀ ht' hk =>
    exact .same (run_of_put (taskAt_of_slotAt hs) (by simp [ht']) ht) rfl
  | droppedRun hs => exact .same (taskAt_of_dropped ht).2 rfl
  | droppedCycle hs ht₀ =>
    refine .same (taskAt_of_dropped ht).2 ?_
    dsimp only
    split
    · exact hother (by simp)
    · rfl

theorem Request.writes (hc : Request c c') (ht : taskAt c'.tasks t = some (.run r' audience)) :
    r'.Writes m c c' t audience := by
  cases hc with
  | run =>
    rcases run_of_spawn ht with ⟨hlen, rfl, -⟩ | hold
    · exact .fresh hlen rfl (startsOf_other (by simp))
    · exact .same hold (startsOf_other (by simp))
  | cycles ht' => exact .same (run_of_spawnCycle (Option.isSome_of_eq_some ht') ht) rfl
  | push => exact .same ht (startsOf_other (by simp))
  | stop => exact .same ht rfl
  | cancel => exact .same (by simpa using ht) rfl

end

/-! ### One entry for each -/

section

variable {α β : Type} {R S : α → β → Prop} {xs : List α} {ys : List β} {y : β}

lemma OneEach.imp (hR : ∀ x y, R x y → S x y) (h : OneEach R xs ys) : OneEach S xs ys := by
  obtain ⟨zs, hperm, hzs⟩ := h
  exact ⟨zs, hperm, hzs.imp hR⟩

/-- What is related to an element can be taken out with it. -/
lemma exists_of_forall₂_erase [DecidableEq β] (h : List.Forall₂ R xs ys) (hy : y ∈ ys) :
    ∃ x zs, R x y ∧ xs.Perm (x :: zs) ∧ List.Forall₂ R zs (ys.erase y) := by
  induction h with
  | nil => cases hy
  | @cons x y' xs ys hxy hxs ih =>
    by_cases heq : y' = y
    · subst heq
      exact ⟨x, xs, hxy, .refl _, by simpa using hxs⟩
    · obtain ⟨x', zs, hx', hperm, hzs⟩ := ih ((List.mem_cons.1 hy).resolve_left (Ne.symm heq))
      refine ⟨x', x :: zs, hx', (hperm.cons x).trans (.swap x' x zs), ?_⟩
      rw [List.erase_cons_tail (by simpa using heq)]
      exact .cons hxy hzs

end

section

variable {L : List (Nat × Member)} {k j : Nat} {x : Member}

lemma countingIn_concat : countingIn (L ++ [(k, x)]) j =
    countingIn L j ++ if k = j ∧ x.Counts then [x] else [] := by
  by_cases h : k = j ∧ x.Counts <;> simp [countingIn, h]

lemma asideIn_concat : asideIn (L ++ [(k, x)]) = asideIn L ++ x.aside?.toList := by
  cases h : x.aside? <;> simp [asideIn, h]

lemma mem_countingIn : x ∈ countingIn L k ↔ (k, x) ∈ L ∧ x.Counts := by
  simp [countingIn]

/-- The batch after the first `n` ones is one more. -/
lemma exists_blocks {R : Member → Entry → Prop} {n : Nat} {f : Nat → List Entry}
    {current : List Entry} (hblocks : ∀ j < n, OneEach R (countingIn L j) (f j))
    (hcurrent : OneEach R (countingIn L n) current) :
    ∃ g, (List.range (n + 1)).flatMap g = (List.range n).flatMap f ++ current ∧
      ∀ j < n + 1, OneEach R (countingIn L j) (g j) := by
  refine ⟨fun j => if j = n then current else f j, ?_, fun j hj => ?_⟩
  · have hold : (List.range n).flatMap (fun j => if j = n then current else f j) =
        (List.range n).flatMap f :=
      List.flatMap_congr fun j hj => if_neg (Nat.ne_of_lt (List.mem_range.1 hj))
    simp [List.range_succ, hold]
  · rcases Nat.lt_or_eq_of_le (Nat.le_of_lt_succ hj) with hlt | rfl
    · simp only [Nat.ne_of_lt hlt, if_false]
      exact hblocks j hlt
    · simpa using hcurrent

end

/-! ### What is written stays true -/

section

variable {cfg : Setting} {m : Manifest} {c c' : Core} {L : List (Nat × Member)} {t : TaskId}
  {r r' : Course} {audience : Audience} {x : Member} {entry : Entry} {a : Arrival}

lemma Enters.move (h : Enters c x entry) (hc : Moves m c c') : Enters c' x entry := by
  cases h with
  | @process p i name h hp he =>
    obtain ⟨h', hp', hh⟩ := hc.follows p h hp
    obtain ⟨-, hcode, hfailed⟩ := hh.ended he
    rw [← hcode, ← hfailed]
    exact .process hp' (hh.hasEnded he)
  | chain hx => exact .chain (hc.grows.subset hx)
  | missing hn => exact .missing hn

lemma Member.ArrivesAs.move (h : x.ArrivesAs c a) (hc : Moves m c c') : x.ArrivesAs c' a :=
  fun name failed code ha => (h name failed code ha).move hc

lemma Core.Labels.move {b : ProcessId × String} {p : ProcessId} (h : c.Labels b p)
    (hc : Moves m c c') : c'.Labels b p := by
  obtain ⟨hp, h, hget, hname⟩ := h
  obtain ⟨h', hget', hh⟩ := hc.follows p h hget
  exact ⟨hp, h', hget', hh.name.trans hname⟩

lemma Course.Sorts.move {current : List Entry} (h : r.Sorts c L t current) (hc : Moves m c c') :
    r.Sorts c' L t current := by
  obtain ⟨xs, ys, zs, hperm, hxs, hys, hzs⟩ := h
  exact ⟨xs, ys, zs, hperm, hxs.imp fun _ _ h => h.move hc, hys.imp fun _ _ h => h.move hc,
    hzs.imp fun _ _ h => h.keep hc.keeps⟩

lemma Course.Reporting.move (h : r.Reporting c L t) (hc : Moves m c c') : r.Reporting c' L t where
  entries :=
    have ⟨f, current, hentries, hblocks, hsorts⟩ := h.entries
    ⟨f, current, hentries, fun j hj => (hblocks j hj).imp fun _ _ h => h.move hc, hsorts.move hc⟩
  background := h.background.imp fun _ _ h => h.move hc

lemma Report.Accounts.move {report : Report} {n : Nat} (h : report.Accounts c L n)
    (hc : Moves m c c') : report.Accounts c' L n :=
  have ⟨f, rest, hentries, hblocks, hrest⟩ := h
  ⟨f, rest, hentries, fun j hj => (hblocks j hj).imp fun _ _ h => h.move hc, hrest⟩

/-! ### Runs write one entry for each member -/

lemma reporting_start (c : Core) (t : TaskId) (chain : String) (vars : Variables) (e : Bool) :
    (Course.start chain vars e).Reporting c [] t where
  entries := ⟨fun _ => [], [], rfl, by simp [Course.start],
    [], [], [], .refl _, .nil, .nil, .nil⟩
  background := .nil

/-- A run that goes on quietly enters a member that has told of its end, or begins a batch when it
has entered all of the last one. -/
lemma Course.Reporting.quiet (h : r.Reporting c L t) (q : r.Quiet m r')
    (hnone : ∀ x, (r.batch + 1, x) ∉ L) : r'.Reporting c L t := by
  obtain ⟨⟨f, current, hentries, hblocks, xs, ys, zs, hperm, hxs, hys, hzs⟩, hbackground⟩ := h
  cases q with
  | skip => exact ⟨⟨f, current, hentries, hblocks, xs, ys, zs, hperm, hxs, hys, hzs⟩, hbackground⟩
  | expand =>
    exact ⟨⟨f, current, hentries, hblocks, xs, ys, zs, hperm, hxs, hys, hzs⟩, hbackground⟩
  | @enter name failed code arrived entries ha harrived hgo he =>
    -- the first arrival becomes the next entry of the batch
    rw [harrived] at hys
    cases hys with
    | @cons y _ ys _ hy hys =>
      refine ⟨⟨f, current ++ [⟨name, false, true, failed, code⟩], ?_, hblocks,
        xs ++ [y], ys, zs, by simpa using hperm, ?_, hys, hzs⟩, hbackground⟩
      · rw [he, hentries, List.append_assoc]
      · exact List.rel_append hxs (.cons (hy name failed code rfl) .nil)
  | @begins b rest ha harrived hwaiting hb =>
    -- all members of the batch are entered, and the next one has none yet
    rw [harrived] at hys
    rw [hwaiting] at hzs
    cases hys
    cases hzs
    have hcurrent : OneEach (Enters c) (countingIn L r.batch) current :=
      ⟨xs, by simpa using hperm, hxs⟩
    have hempty : countingIn L (r.batch + 1) = [] :=
      List.eq_nil_iff_forall_not_mem.2 fun x hx => hnone x (mem_countingIn.1 hx).1
    obtain ⟨g, hg, hblocks'⟩ := exists_blocks hblocks hcurrent
    refine ⟨⟨g, [], ?_, hblocks', [], [], [], ?_, .nil, ?_, ?_⟩, hbackground⟩
    · simp [hg, hentries]
    · simp [hempty]
    · simp [harrived]
    · simp [hwaiting]

/-- A member that is started is entered, awaited or remembered, if it is of any concern. -/
lemma Begins.sorts {ws : List TaskId} {es : List Entry} {ps : List ProcessId}
    (h : Begins c t x ws es ps) : ∃ xs zs, xs ++ zs = (if x.Counts then [x] else []) ∧
      List.Forall₂ (Enters c) xs es ∧ List.Forall₂ (fun x w => Watches c.tasks t w x) zs ws ∧
      List.Forall₂ c.Labels x.aside?.toList ps := by
  cases h with
  | @aside i name p h hb hp hn =>
    refine ⟨[], [], by simp [Member.Counts, hb], .nil, .nil, ?_⟩
    rw [Member.aside?, if_pos hb]
    exact .cons ⟨rfl, h, hp, hn⟩ .nil
  | @process i name p w hb hs =>
    have hwatches : Watches c.tasks t w (.process p i name) := by
      refine ⟨lt_of_taskAt hs, fun task ht => ⟨name, ?_⟩⟩
      rw [hs] at ht
      exact (Option.some.inj ht).symm
    refine ⟨[], [_], (if_pos hb).symm, .nil, .cons hwatches .nil, ?_⟩
    simp [Member.aside?, hb]
  | detached hb => exact ⟨[], [], by simp [Member.Counts, hb], .nil, .nil, .nil⟩
  | chain hb => exact ⟨[], [_], (if_pos hb).symm, .nil, .cons rfl .nil, .nil⟩
  | missing hm hn => exact ⟨[_], [], (if_pos hm).symm, .cons (.missing hn) .nil, .nil, .nil⟩
  | skipped hm => exact ⟨[], [], (if_neg hm).symm, .nil, .nil, .nil⟩

lemma Course.Reporting.starts {ws : List TaskId} {es : List Entry} {ps : List ProcessId}
    (h : r.Reporting c L t) (hx : Begins c t x ws es ps) (hbatch : r'.batch = r.batch)
    (harrived : r'.arrived = r.arrived) (hwaiting : r'.waiting = r.waiting ++ ws)
    (hentries : r'.entries = r.entries ++ es) (hbackground : r'.background = r.background ++ ps) :
    r'.Reporting c (L ++ [(r.batch, x)]) t := by
  obtain ⟨⟨f, current, hold, hblocks, xs, ys, zs, hperm, hxs, hys, hzs⟩, hasides⟩ := h
  obtain ⟨xs', zs', hcounts, hxs', hzs', hasides'⟩ := hx.sorts
  refine ⟨⟨f, current ++ es, ?_, fun j hj => ?_, xs ++ xs', ys, zs ++ zs', ?_,
    List.rel_append hxs hxs', ?_, ?_⟩, ?_⟩
  · rw [hentries, hold, hbatch, List.append_assoc]
  · rw [hbatch] at hj
    rw [countingIn_concat, if_neg fun h => Nat.ne_of_gt hj h.1, List.append_nil]
    exact hblocks j hj
  · have hcurrent : countingIn (L ++ [(r.batch, x)]) r'.batch =
        countingIn L r.batch ++ (xs' ++ zs') := by
      rw [hbatch, countingIn_concat, hcounts]
      simp
    rw [hcurrent, List.perm_iff_count]
    intro y
    have hcount := hperm.count_eq y
    simp only [List.count_append] at hcount ⊢
    omega
  · rwa [harrived]
  · rw [hwaiting]
    exact List.rel_append hzs hzs'
  · rw [asideIn_concat, hbackground]
    exact List.rel_append hasides hasides'

/-- A run knows how a member has ended that tells it so. -/
lemma arrivesAs_of_tells {v : TaskId} {k : Nat} (hk : Kept cfg.manifest c) (hc : Steps cfg c c')
    (hx : .started t k x ∈ c.history) (hw : Watches c.tasks t v x) (hv : Tells c t v a)
    (gone : taskAt c'.tasks v = none) : x.ArrivesAs c' a := by
  rintro title failed code rfl
  cases x with
  | process p i name =>
    cases hv with
    | @waiter _ _ h _ _ hs hp ho =>
      obtain ⟨name', heq⟩ := hw.2 _ (taskAt_of_slotAt hs)
      cases heq
      obtain ⟨k', i', hstarted, -⟩ := hk.attributed.waiter (taskAt_of_slotAt hs)
      obtain ⟨-, -, -, rfl⟩ := hk.numbered.process hx hstarted
      have hended : h.hasEnded = true ∧ h.code = code ∧ h.failed = failed := by
        simpa [Handle.outcome?] using ho
      obtain ⟨hended, rfl, rfl⟩ := hended
      exact (Enters.process hp hended).move hc.toMoves
    | completed hs =>
      obtain ⟨name', heq⟩ := hw.2 _ (taskAt_of_slotAt hs)
      cases heq
  | chain u target mode name =>
    obtain rfl := hw
    cases hv with
    | waiter hs =>
      obtain ⟨expr, chain, vars, e, -, -, hopen⟩ := hk.orderly.nested hx
      obtain ⟨r, audience, heq⟩ := hk.orderly.opened_run hopen (taskAt_of_slotAt hs)
      cases heq
    | completed hs hd =>
      obtain ⟨k', target', mode', hstarted, -⟩ := hk.attributed.nested (taskAt_of_slotAt hs)
      cases hk.numbered.eq_of_number hx hstarted rfl rfl
      obtain ⟨report, hreport, heq⟩ := reported_of_done hk.orderly hc hs hd gone
      rw [← heq]
      exact .chain hreport
  | missing => exact absurd hw id

/-- A run that is told of the end of a member awaits it no longer. -/
lemma Course.Reporting.told {v : TaskId} (h : r.Reporting c (startsOf c.history t) t)
    (hk : Kept cfg.manifest c) (hc : Steps cfg c c')
    (ht : taskAt c.tasks t = some (.run r audience))
    (hv : Tells c t v a) (gone : taskAt c'.tasks v = none) :
    (r.told v a).Reporting c' (startsOf c.history t) t := by
  obtain ⟨⟨f, current, hentries, hblocks, xs, ys, zs, hperm, hxs, hys, hzs⟩, hasides⟩ := h
  have hwaits : v ∈ r.waiting := by
    obtain ⟨r₀, audience₀, ht₀, hin⟩ := hk.tended.expects hv
    cases ht.symm.trans ht₀
    exact hin
  obtain ⟨z, zs', hz, hzperm, hzs'⟩ := exists_of_forall₂_erase hzs hwaits
  have hstarted : .started t r.batch z ∈ c.history := by
    have hin : z ∈ xs ++ ys ++ zs := List.mem_append_right _ (hzperm.mem_iff.2 List.mem_cons_self)
    exact mem_startsOf.1 (mem_countingIn.1 (hperm.mem_iff.1 hin)).1
  have harrives := arrivesAs_of_tells hk hc hstarted hz hv gone
  refine Course.Reporting.mk ⟨f, current, hentries, fun j hj => (hblocks j hj).imp fun _ _ h =>
    h.move hc.toMoves, xs, ys ++ [z], zs', ?_, hxs.imp fun _ _ h => h.move hc.toMoves, ?_,
    hzs'.imp fun _ _ h => h.keep hc.keeps⟩ (hasides.imp fun _ _ h => h.move hc.toMoves)
  · refine List.Perm.trans ?_ hperm
    have hz := hzperm.append_left (xs ++ ys)
    simpa using hz.symm
  · exact List.rel_append (hys.imp fun _ _ h => h.move hc.toMoves) (.cons harrives .nil)

/-- A run of which nothing is left reports on all that was planned. -/
lemma Course.Reporting.accounts (h : r.Reporting c L t) (hd : r.IsDone)
    (hzero : ∀ x, (0, x) ∉ L) : (reportOf r c.table).Accounts c L r.batch := by
  obtain ⟨-, harrived, hwaiting, -⟩ := hd
  obtain ⟨⟨f, current, hentries, hblocks, xs, ys, zs, hperm, hxs, hys, hzs⟩, hasides⟩ := h
  rw [harrived] at hys
  rw [hwaiting] at hzs
  cases hys
  cases hzs
  have hcurrent : OneEach (Enters c) (countingIn L r.batch) current :=
    ⟨xs, by simpa using hperm, hxs⟩
  obtain ⟨g, hg, hblocks'⟩ := exists_blocks hblocks hcurrent
  have hfirst : g 0 = [] := by
    obtain ⟨zs, hperm, hzs⟩ := hblocks' 0 (Nat.succ_pos _)
    have hempty : countingIn L 0 = [] :=
      List.eq_nil_iff_forall_not_mem.2 fun x hx => hzero x (mem_countingIn.1 hx).1
    rw [hempty, List.perm_nil] at hperm
    rw [hperm] at hzs
    exact List.forall₂_nil_left_iff.1 hzs
  refine ⟨fun j => g (j + 1), r.background.map (backgroundEntry c.table), ?_,
    fun j hj => hblocks' (j + 1) (Nat.succ_lt_succ hj), ?_⟩
  · rw [List.range_succ_eq_map, List.flatMap_cons, hfirst, List.flatMap_map] at hg
    rw [reportOf, hentries, ← hg]
    rfl
  · rw [List.forall₂_map_right_iff]
    refine hasides.imp fun a p hlabels => ?_
    obtain ⟨-, h, hp, hname⟩ := hlabels
    rw [backgroundEntry, hp]
    exact ⟨rfl, hname⟩

/-- A run that has not been opened has started nothing. -/
lemma Orderly.startsOf_eq_nil (ho : Orderly m c) : startsOf c.history c.tasks.length = [] :=
  List.eq_nil_iff_forall_not_mem.2 fun _ hx =>
    absurd (ho.lt_of_started (mem_startsOf.1 hx)) (Nat.lt_irrefl _)

lemma Course.Writes.reporting (hw : r'.Writes cfg.manifest c c' t audience)
    (h : Reported cfg.manifest c) (hk : Kept cfg.manifest c) (hc : Steps cfg c c') :
    r'.Reporting c' (startsOf c'.history t) t := by
  cases hw with
  | same ht hs =>
    rw [hs]
    exact (h.runs ht).move hc.toMoves
  | quiet ht q hs =>
    rw [hs]
    refine ((h.runs ht).move hc.toMoves).quiet q fun x hx => ?_
    exact Nat.not_succ_le_self _ ((hk.orderly.runs ht).within (mem_startsOf.1 hx)).2
  | starts ht hs hx hbatch harrived hwaiting hentries hbackground =>
    rw [hs]
    exact ((h.runs ht).move hc.toMoves).starts hx hbatch harrived hwaiting hentries hbackground
  | told ht hr hv gone hs =>
    rw [hs, hr]
    exact (h.runs ht).told hk hc ht hv gone
  | fresh ht hr hs =>
    rw [hs, hr, ht, hk.orderly.startsOf_eq_nil]
    exact reporting_start ..

/-- A run that has completed starts nothing more. -/
lemma Orderly.startsOf_completed (ho : Orderly m c) (hc : Moves m c c') {report : Report}
    (hx : .completed t report ∈ c.history) : startsOf c'.history t = startsOf c.history t := by
  obtain ⟨ds, hH, hds⟩ := hc.adds
  rw [hH]
  refine startsOf_other fun k x hin => ?_
  obtain ⟨⟨r, audience, rest, hs, -⟩, -⟩ := hds.starts hin
  cases (ho.completed hx).2.symm.trans (taskAt_of_slotAt hs)

theorem Reported.step (h : Reported cfg.manifest c) (hk : Kept cfg.manifest c) (hc : Steps cfg c c')
    (hw : ∀ {t r' audience}, taskAt c'.tasks t = some (.run r' audience) →
      r'.Writes cfg.manifest c c' t audience) : Reported cfg.manifest c' where
  runs ht := (hw ht).reporting h hk hc
  completed {t report} hx := by
    obtain ⟨ds, hH, hds⟩ := hc.adds
    have hin := hx
    rw [hH] at hin
    rcases List.mem_append.1 hin with hold | hnew
    · obtain ⟨chain, vars, e, ho, haccounts⟩ := h.completed hold
      refine ⟨chain, vars, e, hc.grows.subset ho, ?_⟩
      rw [hk.orderly.startsOf_completed hc.toMoves hold]
      exact haccounts.move hc.toMoves
    · obtain ⟨r, audience, hs, hd, rfl⟩ := hds.completes hnew
      have ht := taskAt_of_slotAt hs
      have htrack := hk.orderly.runs ht
      -- nothing is left on its agenda, so it starts nothing as it completes
      have hstarts : startsOf c'.history t = startsOf c.history t := by
        rw [hH]
        refine startsOf_other fun k x hstarted => ?_
        obtain ⟨⟨r₀, audience₀, rest, hs₀, hplan⟩, -⟩ := hds.starts hstarted
        cases hs.symm.trans hs₀
        simp [hd.1] at hplan
      have hbatch : r.batch = (plan cfg.manifest r.chain r.vars).length := by
        have hall : (Chain.batches r.chain).length ≤ r.batch := by
          rw [← List.drop_eq_nil_iff, ← htrack.rest, hd.2.2.2]
        simpa [plan] using Nat.le_antisymm htrack.bounded hall
      refine ⟨r.chain, r.vars, r.exitOnError, hc.grows.subset htrack.opened, ?_⟩
      rw [hstarts, ← hbatch]
      refine ((h.runs ht).accounts hd fun x hx => ?_).move hc.toMoves
      exact Nat.lt_irrefl 0 (htrack.within (mem_startsOf.1 hx)).1

theorem reported_steady (cfg : Setting) :
    Steady cfg fun c => Kept cfg.manifest c ∧ Reported cfg.manifest c where
  change h hc := ⟨(kept_steady cfg).change h.1 hc, h.2.step h.1 hc.steps hc.writes⟩
  request h hc hpre :=
    ⟨(kept_steady cfg).request h.1 hc hpre, h.2.step h.1 (hc.steps hpre) hc.writes⟩

lemma reported_nil (m : Manifest) : Reported m {} where
  runs ht := by simp [taskAt, slotAt] at ht
  completed hx := absurd hx List.not_mem_nil

theorem Calm.reported {s : State} (hs : Calm cfg s) : Reported cfg.manifest s.toCore :=
  ((reported_steady cfg).calm ⟨kept_nil _, reported_nil _⟩ hs).2

/-- **A report is complete.** As long as nobody drops tasks from outside and the launcher does not
break down, a run that does not exit on errors has reported once it is over. It has then started
just what its plan says, and its report accounts for all of it, whatever the order in which the
members told of their ends: each entry says how its member ended, no member is left out, and no
entry is about anything else. -/
theorem report_accounts (hcfg : cfg.Sound) {s : State} (hs : Calm cfg s) {e : String}
    {vars : Variables} (hopen : .opened t e vars false ∈ s.history) :
    (taskAt s.tasks t = none → ∃ report, .completed t report ∈ s.history) ∧
      ∀ report, .completed t report ∈ s.history →
        (startsOf s.history t).map (fun a => (a.1, a.2.planned)) =
            numbered (plan cfg.manifest e vars) ∧
          report.Accounts s.toCore (startsOf s.history t) (plan cfg.manifest e vars).length := by
  have hk := hs.kept
  refine ⟨(hs.lenient hcfg).completed hopen, fun report hx => ⟨?_, ?_⟩⟩
  · have hfulfilled := hk.concluded.fulfilled hk.orderly hopen hx
    exact hk.orderly.ordered.startsOf_eq (hk.orderly.openedAs hopen) hfulfilled.finished.members
  · obtain ⟨chain, vars', flag, hopen', haccounts⟩ := hs.reported.completed hx
    obtain ⟨rfl, rfl⟩ := hk.orderly.openedAs hopen hopen'
    exact haccounts

end

/-- The run of `+a f x - b`, where `f` fails and `x` names nothing, once it is over. -/
def State.accounted : State :=
  let s : State := (({} : State).spawn (.run (.start "+a f x - b" .empty false) (.caller "r"))).1
  let s := (s.actAll .paused [0, 0, 0, 0, 0, 0, 0]).endProcess 1 false (some 1) false
  let s := (s.actAll .paused [1, 0, 0, 0, 0, 0]).endProcess 2 false (some 0) false
  s.actAll .paused [2, 0, 0]

lemma calm_accounted : Calm .paused .accounted := by
  have h := calm_run .paused "+a f x - b" .empty false "r"
  have h := (h.evolves (evolves_actAll [0, 0, 0, 0, 0, 0, 0])).evolves
    (evolves_endProcess 1 false (some 1) false)
  have h := (h.evolves (evolves_actAll [1, 0, 0, 0, 0, 0])).evolves
    (evolves_endProcess 2 false (some 0) false)
  exact h.evolves (evolves_actAll [2, 0, 0])

/-- The process in the background is not waited for and has not ended yet. -/
theorem report_accounts_accounted :
    ∃ report, .completed 0 report ∈ State.accounted.history ∧
      report.Accounts State.accounted.toCore (startsOf State.accounted.history 0) 2 ∧
      report.entries = [⟨"x", false, true, true, none⟩, ⟨"f", false, true, true, some 1⟩,
        ⟨"b", false, true, false, some 0⟩, ⟨"a", true, false, false, none⟩] := by
  have hH : State.accounted.history =
      [.opened 0 "+a f x - b" .empty false,
        .started 0 1 (.process 0 ⟨"a", "a", "true", .background⟩ "a"),
        .started 0 1 (.process 1 ⟨"f", "f", "false", .sequential⟩ "f"),
        .started 0 1 (.missing "x" .sequential), .ended 1,
        .started 0 2 (.process 2 ⟨"b", "b", "true", .sequential⟩ "b"), .ended 2,
        .completed 0 ⟨"+a f x - b", true, [⟨"x", false, true, true, none⟩,
          ⟨"f", false, true, true, some 1⟩, ⟨"b", false, true, false, some 0⟩,
          ⟨"a", true, false, false, none⟩]⟩] := rfl
  have hplan : (plan Setting.paused.manifest "+a f x - b" .empty).length = 2 := rfl
  have hopen : .opened 0 "+a f x - b" .empty false ∈ State.accounted.history := by simp [hH]
  have h := report_accounts (fun _ _ => rfl) calm_accounted hopen
  obtain ⟨report, hx⟩ := h.1 rfl
  refine ⟨report, hx, hplan ▸ (h.2 report hx).2, ?_⟩
  simp only [hH, List.mem_cons, Deed.completed.injEq, reduceCtorEq, false_or, List.not_mem_nil,
    or_false, true_and] at hx
  rw [hx]

end ChainRunner.Run
