import ChainRunner.Proofs.Run.Aggregate

/-!
Which failure a run that gives up reports.

A run reports the first failure that arrives at it. A chain that has everything stopped tells the
run that waits for it in the same move, so whatever ends because of that stop tells of its end too
late to be the first one there. But it is only this run that is told at once: further out, the
failure has to climb from one run to the next, and a process that was stopped may well be faster.

So a stop is not what a reported process has ended of if it was made by a run that the failure has
come through, or by a chain that such a run encloses. If no chain of a run encloses another one,
there are no others.
-/

namespace ChainRunner.Run

/-- The run `t` has the chain `u` for a member that it waits for. -/
def Encloses (H : List Deed) (t u : TaskId) : Prop :=
  ∃ k target mode name, .started t k (.chain u target mode name) ∈ H ∧ mode ≠ .background

/-- The process was over before the run had everything stopped, if it ever has. -/
def EndedBefore (H : List Deed) (p : ProcessId) (f : TaskId) : Prop :=
  ∃ pre, pre <+: H ∧ .ended p ∈ pre ∧ .stopped f ∉ pre

/-- The process was over before the run, or a chain that it encloses, had everything stopped. -/
def Unstopped (H : List Deed) (p : ProcessId) (w : TaskId) : Prop :=
  EndedBefore H p w ∧ ∀ f, Encloses H w f → EndedBefore H p f

/-- The failure of the process, which is called `name` and has left this code, has come to the
run `t` from one run to the next. -/
inductive Culprit (c : Core) (p : ProcessId) (name : String) (code : Option Int) : TaskId → Prop
  | own {t : TaskId} {k : Nat} {i : Instance}
    (hx : .started t k (.process p i name) ∈ c.history) (hb : i.isBackground = false)
    (hf : c.table.FailedWith p code) (hu : Unstopped c.history p t) : Culprit c p name code t
  | climbs {t u : TaskId} (hx : Encloses c.history t u) (h : Culprit c p name code u)
    (hu : Unstopped c.history p t) : Culprit c p name code t

/-- Why a run that exits on errors gives up when it enters the arrival. -/
def Arrival.why? : Arrival → Option Failure
  | .settled name failed code => if failed then some (.stepFailed name code) else none
  | .broken why => some why

/-- Why a run that exits on errors will give up, as far as it has learned of a failure. -/
def Course.why? (r : Course) : Option Failure := r.arrived.findSome? Arrival.why?

/-- A run that broke off is gone for good, and has reported nothing. -/
structure Halted (c : Core) : Prop where
  lt : ∀ {t : TaskId} {b : Break}, .brokeOff t b ∈ c.history → t < c.tasks.length
  gone : ∀ {t : TaskId} {b : Break}, .brokeOff t b ∈ c.history → taskAt c.tasks t = none
  silent : ∀ {t : TaskId} {b : Break}, .brokeOff t b ∈ c.history →
    ∀ report, .completed t report ∉ c.history

/-- What is known of the runs and their failures when a step is to be blamed for one. -/
structure Informed (m : Manifest) (c : Core) : Prop where
  kept : Kept m c
  lenient : Lenient c
  blames : Blames c
  vigilant : Vigilant c
  stopped : ∀ t, .stopped t ∈ c.history → ∃ b, Deed.brokeOff t b ∈ c.history
  halted : Halted c

/-- Behind every failed step that a run reports, or is about to report, there is a process. -/
structure Founded (c : Core) : Prop where
  courses : ∀ {t : TaskId} {r : Course} {audience : Audience} {name : String} {code : Option Int},
    taskAt c.tasks t = some (.run r audience) → r.exitOnError = true →
      r.why? = some (.stepFailed name code) → ∃ p, Culprit c p name code t
  brokeOff : ∀ {t : TaskId} {name : String} {code : Option Int},
    .brokeOff t (.failure (.stepFailed name code)) ∈ c.history → ∃ p, Culprit c p name code t

section

variable {cfg : Setting} {m : Manifest} {c c' : Core} {t u v w : TaskId} {p : ProcessId}
  {name : String} {code : Option Int} {r : Course} {audience : Audience}

/-! ### Reasons -/

lemma Arrival.why?_eq_none {a : Arrival} : a.why? = none ↔ ¬a.IsFailure := by
  cases a <;> simp [Arrival.why?, Arrival.IsFailure]

lemma Course.why?_ne_none {a : Arrival} (ha : a ∈ r.arrived) (hf : a.IsFailure) :
    r.why? ≠ none := fun hnone =>
  Arrival.why?_eq_none.1 (List.findSome?_eq_none_iff.1 hnone a ha) hf

lemma Course.why?_told (r : Course) (v : TaskId) (a : Arrival) :
    (r.told v a).why? = r.why?.or a.why? := by
  simp [Course.why?, Course.told, List.findSome?_append]

lemma Course.why?_of_cons {a : Arrival} {arrived : List Arrival} {why : Failure}
    (hr : r.arrived = a :: arrived) (ha : a.why? = some why) : r.why? = some why := by
  rw [Course.why?, hr, List.findSome?_cons, ha]

lemma failedWith_of_outcome? {table : ProcessTable} {h : Handle} (hp : table.get? p = some h)
    (ho : h.outcome? = some (code, true)) : table.FailedWith p code := by
  have hended := Handle.hasEnded_of_outcome? ho
  obtain ⟨hcode, hfailed⟩ : h.code = code ∧ h.failed = true := by
    simpa [Handle.outcome?, hended] using ho
  exact ⟨h, hp, hended, hfailed, hcode⟩

/-! ### Runs that broke off -/

lemma GivesUp.course {b : Break} (h : GivesUp cfg c c' t b) :
    ∃ r audience, slotAt c.tasks t = some ⟨.run r audience, false⟩ ∧ ¬r.IsDone ∧
      taskAt c'.tasks t = none := by
  cases h with
  | breaks hs hb gone => exact ⟨_, _, hs, hb.not_isDone, gone⟩
  | fails hs he fatal hds gone => exact ⟨_, _, hs, fatal.not_isDone, gone⟩

lemma Halted.step (h : Halted c) (ho : Orderly cfg.manifest c) (hc : Weighs cfg c c') :
    Halted c' where
  lt hx := by
    rcases hc.givesUp hx with hold | hnew
    · exact Nat.lt_of_lt_of_le (h.lt hold) hc.keeps.length_le
    · obtain ⟨r, audience, hs, -⟩ := hnew.course
      exact Nat.lt_of_lt_of_le (lt_of_slotAt hs) hc.keeps.length_le
  gone hx := by
    rcases hc.givesUp hx with hold | hnew
    · exact hc.keeps.gone (h.lt hold) (h.gone hold)
    · obtain ⟨r, audience, -, -, gone⟩ := hnew.course
      exact gone
  silent {t b} hx report hreport := by
    obtain ⟨ds, hH, hds⟩ := hc.adds
    rw [hH] at hreport
    rcases hc.givesUp hx with hold | hnew <;> rcases List.mem_append.1 hreport with hin | hin
    · exact h.silent hold report hin
    · obtain ⟨r, audience, hs, -⟩ := hds.completes hin
      cases (h.gone hold).symm.trans (taskAt_of_slotAt hs)
    · obtain ⟨r, audience, hs, -⟩ := hnew.course
      cases (ho.completed hin).2.symm.trans (taskAt_of_slotAt hs)
    · obtain ⟨r, audience, hs, hu, -⟩ := hnew.course
      obtain ⟨r', audience', hs', hd, -⟩ := hds.completes hin
      cases hs.symm.trans hs'
      exact hu hd

/-! ### What was blamed stays so -/

lemma Culprit.ended (h : Culprit c p name code t) : .ended p ∈ c.history := by
  cases h with
  | own _ _ _ hu | climbs _ _ hu =>
    obtain ⟨⟨pre, hpre, hended, -⟩, -⟩ := hu
    exact hpre.subset hended

lemma EndedBefore.mono {H H' : List Deed} (hH : H <+: H') (h : EndedBefore H p w) :
    EndedBefore H' p w := by
  obtain ⟨pre, hpre, hended, hstop⟩ := h
  exact ⟨pre, hpre.trans hH, hended, hstop⟩

lemma Encloses.mono {H H' : List Deed} (hH : H <+: H') (h : Encloses H t u) : Encloses H' t u := by
  obtain ⟨k, target, mode, name, hx, hb⟩ := h
  exact ⟨k, target, mode, name, hH.subset hx, hb⟩

/-- What a run encloses it has enclosed before, or it is new. -/
lemma Encloses.move (h : Encloses c'.history t u) (hc : Moves m c c') :
    Encloses c.history t u ∨ u = c.tasks.length := by
  obtain ⟨k, target, mode, name, hx, hb⟩ := h
  exact (hc.starts hx).imp (fun hold => ⟨k, target, mode, name, hold, hb⟩) fun hnew => hnew.2

lemma Unstopped.move (h : Unstopped c.history p w) (hc : Moves m c c')
    (hlt : ∀ f, .stopped f ∈ c.history → f < c.tasks.length) : Unstopped c'.history p w := by
  obtain ⟨hown, hbelow⟩ := h
  refine ⟨hown.mono hc.grows, fun f hf => ?_⟩
  rcases hf.move hc with hold | rfl
  · exact (hbelow f hold).mono hc.grows
  · obtain ⟨pre, hpre, hended, -⟩ := hown
    refine ⟨pre, hpre.trans hc.grows, hended, fun hin => ?_⟩
    exact Nat.lt_irrefl _ (hlt _ (hpre.subset hin))

lemma Culprit.move (h : Culprit c p name code t) (hc : Moves m c c')
    (hlt : ∀ f, .stopped f ∈ c.history → f < c.tasks.length) : Culprit c' p name code t := by
  induction h with
  | own hx hb hf hu =>
    exact .own (hc.grows.subset hx) hb (hf.follows hc.follows) (hu.move hc hlt)
  | climbs hx _ hu ih => exact .climbs (hx.mono hc.grows) ih (hu.move hc hlt)

/-! ### The first failure that arrives -/

namespace Informed

lemma stopped_lt (h : Informed m c) (hx : .stopped t ∈ c.history) : t < c.tasks.length := by
  obtain ⟨b, hb⟩ := h.stopped t hx
  exact h.halted.lt hb

/-- As long as no failure has arrived at a run that exits on errors, neither it nor a chain that it
encloses has had everything stopped: such a chain would have told it so. -/
lemma unstopped (h : Informed m c) (ht : taskAt c.tasks t = some (.run r audience))
    (he : r.exitOnError = true) (hr : r.why? = none) (hp : .ended p ∈ c.history) :
    Unstopped c.history p t := by
  refine ⟨⟨c.history, List.prefix_rfl, hp, fun hx => ?_⟩,
    fun f hf => ⟨c.history, List.prefix_rfl, hp, fun hx => ?_⟩⟩
  · obtain ⟨b, hb⟩ := h.stopped t hx
    cases (h.halted.gone hb).symm.trans ht
  · obtain ⟨b, hb⟩ := h.stopped f hx
    obtain ⟨k, target, mode, name, hstarted, hmode⟩ := hf
    cases h.vigilant.sees hstarted hmode with
    | well hwell =>
      obtain ⟨report, hreport, -⟩ := hwell
      exact h.halted.silent hb report hreport
    | @awaits w hexpects hw =>
      obtain ⟨r', audience', ht', hin⟩ := hexpects
      obtain ⟨task, hs, -⟩ := h.kept.tended.member ht' hin
      cases (hw ▸ h.halted.gone hb).symm.trans (taskAt_of_slotAt hs)
    | minds hminds =>
      cases hminds with
      | known ht' hin ha =>
        cases ht.symm.trans ht'
        exact Course.why?_ne_none hin ha hr
      | failed ht' hfailed =>
        cases ht.symm.trans ht'
        cases (h.blames.strict ht he).symm.trans hfailed
      | ended _ hn => cases hn.symm.trans ht

end Informed

namespace Founded

/-- A run that breaks off with a failed step had learned of it. -/
lemma of_givesUp (h : Founded c) (hl : Lenient c)
    (hg : GivesUp cfg c c' t (.failure (.stepFailed name code))) :
    ∃ p, Culprit c p name code t := by
  cases hg with
  | @breaks r audience _ hs hb =>
    have ht := taskAt_of_slotAt hs
    cases hb with
    | @member why arrived ha hr =>
      have he : r.exitOnError = true := by
        by_contra hlenient
        exact hl.unbroken ht (by simpa using hlenient) _ (hr ▸ List.mem_cons_self)
      exact h.courses ht he (Course.why?_of_cons hr rfl)
  | fails hs he fatal =>
    cases fatal with
    | member ha hr => exact h.courses (taskAt_of_slotAt hs) he (Course.why?_of_cons hr rfl)

/-- The first failure that a run is told of is that of a process of its own, or has broken off a
chain that it encloses. -/
lemma of_tells {a : Arrival} (h : Founded c) (hi : Informed cfg.manifest c) (hc : Weighs cfg c c')
    (ht : taskAt c.tasks t = some (.run r audience)) (he : r.exitOnError = true)
    (hr : r.why? = none) (hv : Tells c t v a)
    (broke : ∀ why, a = .broken why → ∃ x : Break, .brokeOff v x ∈ c'.history ∧ x.why = why)
    (ha : a.why? = some (.stepFailed name code)) : ∃ p, Culprit c p name code t := by
  have hk := hi.kept
  cases hv with
  | @waiter p title h failed code' hs hp ho =>
    obtain ⟨k, i, hx, hb⟩ := hk.attributed.waiter (taskAt_of_slotAt hs)
    obtain ⟨rfl, rfl, rfl⟩ : failed = true ∧ title = name ∧ code' = code := by
      simpa [Arrival.why?] using ha
    have hlt : p < c.table.handles.length := (List.getElem?_eq_some_iff.1 hp).1
    have hover : c.table.hasEnded p = true := by
      simp [ProcessTable.hasEnded, hp, Handle.hasEnded_of_outcome? ho]
    have hclear := hi.unstopped ht he hr (hk.accounted.ended.2 ⟨hlt, hover⟩)
    exact ⟨p, .own hx hb (failedWith_of_outcome? hp ho) hclear⟩
  | @completed r' title hs hd =>
    -- the chain exits on errors as well, so it reports no failure
    obtain ⟨r₁, audience₁, ht₁, hin⟩ := (hk.tended.owned hs rfl).2.1 rfl
    cases ht.symm.trans ht₁
    obtain ⟨task, hs', -, hsuits⟩ := hk.tended.member ht hin
    cases hs.symm.trans hs'
    have hstrict := hi.blames.strict (taskAt_of_slotAt hs) (hsuits.trans he)
    simp [Arrival.why?, hstrict] at ha
  | @broken r' title why hs hu =>
    obtain ⟨x, hx, hwhy⟩ := broke why rfl
    cases ha
    obtain rfl : x = .failure (.stepFailed name code) := by
      cases x <;> cases hwhy
      rfl
    rcases hc.givesUp hx with hold | hnew
    · cases (hi.halted.gone hold).symm.trans (taskAt_of_slotAt hs)
    · obtain ⟨p, hp⟩ := h.of_givesUp hi.lenient hnew
      obtain ⟨k, target, mode, hstarted, hb⟩ := hk.attributed.nested (taskAt_of_slotAt hs)
      exact ⟨p, .climbs ⟨k, target, mode, title, hstarted, hb⟩ hp
        (hi.unstopped ht he hr hp.ended)⟩

/-- What a run will give up for is what it would have given up for before, or what it was told. -/
lemma of_origin {r' : Course} (h : Founded c) (hi : Informed cfg.manifest c)
    (hc : Weighs cfg c c') (ho : Origin cfg.manifest c c' t r' audience)
    (he : r'.exitOnError = true) (hr : r'.why? = some (.stepFailed name code)) :
    ∃ p, Culprit c p name code t := by
  cases ho with
  | same ht => exact h.courses ht he hr
  | @takes r e x ws ht ha hx hb hw like =>
    rw [like.exits] at he
    rw [Course.why?, like.arrived] at hr
    exact h.courses ht he hr
  | @quiet r ht q =>
    cases q with
    | skip | expand | begins => exact h.courses ht he hr
    | @enter title failed code' arrived entries ha harrived hgo =>
      have hwell : failed = false := by
        by_contra hbad
        have hlenient := hgo (by simpa using hbad)
        cases he.symm.trans hlenient
      refine h.courses ht he ?_
      rw [Course.why?, harrived, List.findSome?_cons, hwell]
      exact hr
  | @told r v a ht heq hv gone broke =>
    subst heq
    rw [Course.why?_told] at hr
    rcases hwhy : r.why? with _ | why
    · rw [hwhy, Option.none_or] at hr
      exact h.of_tells hi hc ht he hwhy hv broke hr
    · rw [hwhy, Option.some_or] at hr
      exact h.courses ht he (hwhy.trans hr)
  | fresh _ heq =>
    subst heq
    cases hr

lemma step (h : Founded c) (hi : Informed cfg.manifest c) (hc : Weighs cfg c c') :
    Founded c' := by
  have hmove {t : TaskId} {name : String} {code : Option Int}
      (hp : ∃ p, Culprit c p name code t) : ∃ p, Culprit c' p name code t := by
    obtain ⟨p, hp⟩ := hp
    exact ⟨p, hp.move hc.toMoves fun f => hi.stopped_lt⟩
  refine ⟨fun ht he hr => ?_, fun hx => ?_⟩
  · exact hmove (h.of_origin hi hc (hc.origin ht) he hr)
  · rcases hc.givesUp hx with hold | hnew
    · exact hmove (h.brokeOff hold)
    · exact hmove (h.of_givesUp hi.lenient hnew)

end Founded

lemma Informed.move (h : Informed cfg.manifest c) (hc : Weighs cfg c c')
    (hk : Kept cfg.manifest c' ∧ Lenient c') (hw : Blames c' ∧ Vigilant c')
    (hs : ∀ t, .stopped t ∈ c'.history → ∃ b, Deed.brokeOff t b ∈ c'.history) :
    Informed cfg.manifest c' :=
  ⟨hk.1, hk.2, hw.1, hw.2, hs, h.halted.step h.kept.orderly hc⟩

lemma founded_steady (hcfg : cfg.Sound) :
    Steady cfg fun c => Informed cfg.manifest c ∧ Founded c where
  change h hc := by
    have hbase := (weighed_steady hcfg).change
      ⟨⟨h.1.kept, h.1.lenient⟩, h.1.blames, h.1.vigilant⟩ hc
    exact ⟨h.1.move hc.weighs hbase.1 hbase.2 ((stopped_stable cfg).change h.1.stopped hc),
      h.2.step h.1 hc.weighs⟩
  request h hc hpre := by
    have hbase := (weighed_steady hcfg).request
      ⟨⟨h.1.kept, h.1.lenient⟩, h.1.blames, h.1.vigilant⟩ hc hpre
    exact ⟨h.1.move (hc.weighs hpre) hbase.1 hbase.2
      ((stopped_stable cfg).request h.1.stopped hc), h.2.step h.1 (hc.weighs hpre)⟩

lemma informed_nil (m : Manifest) : Informed m {} where
  kept := kept_nil m
  lenient := lenient_nil
  blames := blames_nil
  vigilant := ⟨fun hx => absurd hx List.not_mem_nil⟩
  stopped _ hx := absurd hx List.not_mem_nil
  halted := by refine ⟨?_, ?_, ?_⟩ <;> simp

lemma founded_nil : Founded {} := by refine ⟨?_, ?_⟩ <;> simp [taskAt, slotAt]

theorem Calm.founded {s : State} (hcfg : cfg.Sound) (hs : Calm cfg s) : Founded s.toCore :=
  ((founded_steady hcfg).calm ⟨informed_nil _, founded_nil⟩ hs).2

end

/-! ### What is reported -/

/-- The chain `f` is at least two levels below a run on the way from `t` to `u`, and not on this way
itself nor below a run that is further on. -/
def Remote (H : List Deed) (t u f : TaskId) : Prop :=
  ∃ w g, Foreground H t w ∧ Foreground H w u ∧ Encloses H w g ∧ Foreground H g f ∧ g ≠ f ∧
    ¬Foreground H g u

section

variable {cfg : Setting} {m : Manifest} {c : Core} {s : State} {H : List Deed} {t u v f : TaskId}
  {p : ProcessId} {name : String} {code : Option Int}

lemma Foreground.family (h : Foreground H t u) : Family H t u := by
  induction h with
  | root => exact .root
  | nested hx _ _ ih => exact .trans (.nested .root hx) ih

lemma Foreground.exists_encloses (h : Foreground H t u) (hne : t ≠ u) : ∃ v, Encloses H t v := by
  cases h with
  | root => exact absurd rfl hne
  | @nested _ v _ k target title mode hx hb _ => exact ⟨v, k, target, mode, title, hx, hb⟩

lemma Foreground.concat {k : Nat} {target title : String} {mode : Mode} (h : Foreground H t u)
    (hx : .started u k (.chain v target mode title) ∈ H) (hb : mode ≠ .background) :
    Foreground H t v := by
  induction h with
  | root => exact .nested hx hb .root
  | nested hx' hb' _ ih => exact .nested hx' hb' (ih hx)

/-- A run that exits on errors is in the foreground of all that it is below of. -/
lemma Family.foreground (ho : Orderly m c) (h : Family c.history t f) {e : String}
    {vars : Variables} (hopen : .opened f e vars true ∈ c.history) : Foreground c.history t f := by
  induction h generalizing e vars with
  | root => exact .root
  | @nested r u k target title mode _ hx ih =>
    obtain ⟨expr, chain, vars', flag, -, hparent, hopen'⟩ := ho.nested hx
    obtain ⟨-, -, hflag⟩ := ho.opened_unique hopen hopen'
    obtain ⟨rfl, hmode⟩ : flag = true ∧ mode ≠ .background := by simpa using hflag.symm
    exact (ih hparent).concat hx hmode

/-- Where the failure has come through, nobody has stopped the process who is not remote. -/
lemma Culprit.endedBefore (h : Culprit c p name code t) (hn : Numbered c.history) :
    ∃ u k i, Foreground c.history t u ∧ .started u k (.process p i name) ∈ c.history ∧
      i.isBackground = false ∧ c.table.FailedWith p code ∧
      ∀ f, Foreground c.history t f →
        EndedBefore c.history p f ∨ Remote c.history t u f := by
  -- by induction over the runs that the failure has come through, from the process upwards
  induction h with
  | @own t k i hx hb hf hu =>
    refine ⟨t, k, i, .root, hx, hb, hf, fun f hfore => ?_⟩
    cases hfore with
    | root => exact .inl hu.1
    | @nested _ g _ j target title mode hg hmode hfore =>
      have hin : Encloses c.history t g := ⟨j, target, mode, title, hg, hmode⟩
      by_cases hgf : g = f
      · exact .inl (hu.2 f (hgf ▸ hin))
      · refine .inr ⟨t, g, .root, .root, hin, hfore, hgf, fun hback => ?_⟩
        exact Nat.not_le_of_lt (hn.younger hg) (hn.le_of_family hback.family)
  | @climbs t v hx h hu ih =>
    obtain ⟨u, k, i, hv, hstarted, hb, hf, hbefore⟩ := ih
    obtain ⟨j, target, mode, title, hv', hmode⟩ := hx
    refine ⟨u, k, i, .nested hv' hmode hv, hstarted, hb, hf, fun f hfore => ?_⟩
    cases hfore with
    | root => exact .inl hu.1
    | @nested _ g _ j' target' title' mode' hg hmode' hfore =>
      by_cases hgv : g = v
      · subst hgv
        rcases hbefore f hfore with hearly | ⟨w, g', hw, hwu, hrest⟩
        · exact .inl hearly
        · exact .inr ⟨w, g', .nested hv' hmode hw, hwu, hrest⟩
      · have hin : Encloses c.history t g := ⟨j', target', mode', title', hg, hmode'⟩
        by_cases hgf : g = f
        · exact .inl (hu.2 f (hgf ▸ hin))
        · refine .inr ⟨t, g, .root, .nested hv' hmode hv, hin, hfore, hgf, fun hgu => hgv ?_⟩
          exact hn.disjoint hg hv' hgu.family hv.family

/-- **The reported failure is no casualty of a stop nearby.** As long as nobody drops tasks from
outside and the launcher does not break down, a run that gives up with a failed step names a process
that is not in the background of it or of a chain below it, has ended, and has failed with the code
that is reported. Whenever a run of the family had everything stopped, this process had ended
before, unless that run is remote: it would have to be two levels below a run that the failure has
come through. So the process has failed for reasons of its own if no chain of the run encloses
another one. -/
theorem reported_failure (hcfg : cfg.Sound) (hs : Calm cfg s)
    (hx : .brokeOff t (.failure (.stepFailed name code)) ∈ s.history) :
    ∃ u k p i, Foreground s.history t u ∧ .started u k (.process p i name) ∈ s.history ∧
      i.isBackground = false ∧ s.table.FailedWith p code ∧
      (∀ f, Family s.history t f → EndedBefore s.history p f ∨ Remote s.history t u f) ∧
      ((∀ v, Encloses s.history t v → ∀ f, ¬Encloses s.history v f) →
        ∀ f, Family s.history t f → EndedBefore s.history p f) := by
  obtain ⟨p, hp⟩ := (hs.founded hcfg).brokeOff hx
  obtain ⟨u, k, i, hu, hstarted, hb, hf, hbefore⟩ := hp.endedBefore hs.kept.numbered
  have hfamily (f : TaskId) (hfam : Family s.history t f) :
      EndedBefore s.history p f ∨ Remote s.history t u f := by
    by_cases hstop : .stopped f ∈ s.history
    · obtain ⟨b, hbroke⟩ := (stopped_stable cfg).reachable (by simp) hs.reachable f hstop
      obtain ⟨-, -, chain, vars, hopen⟩ := (hs.weighed hcfg).1.brokeOff hbroke
      exact hbefore f (hfam.foreground hs.kept.orderly hopen)
    · exact .inl ⟨s.history, List.prefix_rfl, hp.ended, hstop⟩
  refine ⟨u, k, p, i, hu, hstarted, hb, hf, hfamily, fun hflat f hfam => ?_⟩
  -- to be remote takes a chain within a chain of the run
  refine (hfamily f hfam).resolve_right ?_
  rintro ⟨w, g, hw, -, hwg, hgf, hne, -⟩
  obtain ⟨v, hgv⟩ := hgf.exists_encloses hne
  cases hw with
  | root => exact hflat g hwg v hgv
  | @nested _ v' _ j target title mode hv' hmode hw =>
    have hin : Encloses s.history t v' := ⟨j, target, mode, title, hv', hmode⟩
    cases hw with
    | root => exact hflat _ hin g hwg
    | nested hx' hb' => exact hflat _ hin _ ⟨_, _, _, _, hx', hb'⟩

end

/-- A chain in a chain. -/
def Setting.deepDraft : Draft where
  scripts := NameMap.ofList [("a", "true"), ("f", "false")]
  chains := NameMap.ofList [("c", "d"), ("d", "f")]

lemma checked_deepDraft : Setting.deepDraft.check = .ok () := by
  have hgraph : References.ofChains Setting.deepDraft.chains = ⟨["c", "d"], [("c", "d")]⟩ := rfl
  have hcircle : (References.ofChains Setting.deepDraft.chains).onCircle? = none := by
    rw [hgraph]
    simp [References.onCircle?, References.secondMet, References.order, References.explore,
      References.visit, References.successors, References.predecessors]
  have hchains : Setting.deepDraft.checkChains = .ok () := by
    simp only [Draft.checkChains, hcircle]
    rfl
  exact hchains

def Setting.deep : Setting where
  manifest := ⟨deepDraft, checked_deepDraft⟩

/-- The run of `a c`, where `f` fails two levels below it and has `a` stopped, which is the first to
tell. -/
def State.casualty : State :=
  let s : State := (({} : State).spawn (.run (.start "a c" .empty true) (.caller "r"))).1
  let s := (s.actAll .deep [0, 0, 0, 0, 2, 2, 3, 3, 3]).endProcess 1 false (some 1) false
  ((s.actAll .deep [4, 3]).endProcess 0 false none true).actAll .deep [1, 0]

lemma calm_casualty : Calm .deep .casualty := by
  have h := calm_run .deep "a c" .empty true "r"
  have h := (h.evolves (evolves_actAll [0, 0, 0, 0, 2, 2, 3, 3, 3])).evolves
    (evolves_endProcess 1 false (some 1) false)
  have h := (h.evolves (evolves_actAll [4, 3])).evolves (evolves_endProcess 0 false none true)
  exact h.evolves (evolves_actAll [1, 0])

/-- What is reported is `a`, although `f` is to blame. -/
theorem reported_failure_casualty :
    ∃ u k p i, .started u k (.process p i "a") ∈ State.casualty.history ∧
      State.casualty.table.FailedWith p none ∧ Remote State.casualty.history 0 u 3 ∧
      ¬EndedBefore State.casualty.history p 3 := by
  have hH : State.casualty.history =
      [.opened 0 "a c" .empty true, .started 0 1 (.process 0 ⟨"a", "a", "true", .sequential⟩ "a"),
        .opened 2 "d" .empty true, .started 0 1 (.chain 2 "c" .sequential "c"),
        .opened 3 "f" .empty true, .started 2 1 (.chain 3 "d" .sequential "d"),
        .started 3 1 (.process 1 ⟨"f", "f", "false", .sequential⟩ "f"), .ended 1, .stopped 3] ++
      [.brokeOff 3 (.failure (.stepFailed "f" (some 1))), .ended 0, .stopped 0,
        .brokeOff 0 (.failure (.stepFailed "a" none))] := rfl
  have hx : .brokeOff 0 (.failure (.stepFailed "a" none)) ∈ State.casualty.history := by simp [hH]
  obtain ⟨u, k, p, i, -, hstarted, -, hf, hbefore, -⟩ :=
    reported_failure (fun _ _ => rfl) calm_casualty hx
  obtain ⟨-, -, rfl, -⟩ : u = 0 ∧ k = 1 ∧ p = 0 ∧ i = ⟨"a", "a", "true", .sequential⟩ := by
    simpa [hH] using hstarted
  have hlate : ¬EndedBefore State.casualty.history 0 3 := by
    rintro ⟨pre, hpre, hended, hstop⟩
    rw [hH] at hpre
    rcases List.prefix_or_prefix_of_prefix hpre (List.prefix_append ..) with hle | hle
    · simpa using hle.subset hended
    · exact hstop (hle.subset (by simp))
  have hc : .started 0 1 (.chain 2 "c" .sequential "c") ∈ State.casualty.history := by simp [hH]
  have hd : .started 2 1 (.chain 3 "d" .sequential "d") ∈ State.casualty.history := by simp [hH]
  have hfamily : Family State.casualty.history 0 3 := .nested (.nested .root hc) hd
  exact ⟨u, k, 0, i, hstarted, hf, (hbefore 3 hfamily).resolve_left hlate, hlate⟩

end ChainRunner.Run
