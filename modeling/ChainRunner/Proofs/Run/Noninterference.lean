import ChainRunner.Proofs.Run.Lockstep
import Mathlib

/-!
What the background does has no influence on the foreground.

Two sessions run the same chain, and what they start to wait for ends in the same way. What they
start in the background may do as it likes in either of them.
-/

namespace ChainRunner.Run

open Relation

/-- A task of the foreground. -/
def Task.InFront (f : Front) (id : TaskId) : Task → Prop
  | .run _ _ => id ∈ f.runs
  | .waiter p _ _ => p ∈ f.processes
  | .keeper p => p ∈ f.processes
  | _ => False

namespace State

/-- The number is that of a task in the foreground of the run `root`. -/
def InFront (root : TaskId) (s : State) (id : TaskId) : Prop :=
  ∃ task, taskAt s.tasks id = some task ∧ task.InFront (Front.of root s.history) id

/-- No task of the foreground waits for its turn. -/
def AtRest (root : TaskId) (s : State) : Prop := ∀ id ∈ s.ready, ¬s.InFront root id

end State

/-- Something happens in the background: time passes, there is news of a process, or a task has
its turn. -/
inductive Backstage (cfg : Setting) (root : TaskId) : State → State → Prop
  | passes (s : State) (now clock : Nat) : Backstage cfg root s { s with now, clock }
  | news {s : State} {p : ProcessId} (hp : p ∉ (Front.of root s.history).processes)
    (h : Handle) (killed : Bool) : Backstage cfg root s (s.putHandle p h killed)
  | turn {s : State} {id : TaskId} {ready : List TaskId} (hr : s.ready = id :: ready)
    (hid : ¬s.InFront root id) : Backstage cfg root s (({ s with ready } : State).turn cfg id)

/-- How a process of the foreground ended. -/
structure Ending where
  /-- Its place among the processes of the foreground. -/
  place : Nat
  /-- The turns of the foreground since the end before; none if the foreground was at rest. -/
  moment : Option Nat
  stderr : Bool
  code : Option Int
  killed : Bool

/-- The run of a chain in a session of its own: how the processes of its foreground have ended, and
how many turns of the foreground there were since. -/
inductive Performance (cfg : Setting) (chain : String) (vars : Variables) (exitOnError : Bool)
    (label : String) : State → List Ending → Nat → Prop
  | opens {s : State}
    (hs : ReflTransGen (Backstage cfg 0)
      (({} : State).spawn (.run (.start chain vars exitOnError) (.caller label))).1 s) :
    Performance cfg chain vars exitOnError label s [] 0
  | turn {s s' : State} {es : List Ending} {n : Nat} {id : TaskId} {ready : List TaskId}
    (h : Performance cfg chain vars exitOnError label s es n) (hr : s.ready = id :: ready)
    (hid : s.InFront 0 id)
    (hs : ReflTransGen (Backstage cfg 0) (({ s with ready } : State).turn cfg id) s') :
    Performance cfg chain vars exitOnError label s' es (n + 1)
  | ends {s s' : State} {es : List Ending} {n : Nat} {p : ProcessId} (e : Ending)
    (h : Performance cfg chain vars exitOnError label s es n)
    (hp : (Front.of 0 s.history).processes[e.place]? = some p)
    (hm : e.moment = some n ∨ e.moment = none ∧ s.AtRest 0)
    (hs : ReflTransGen (Backstage cfg 0) (s.endProcess p e.stderr e.code e.killed) s') :
    Performance cfg chain vars exitOnError label s' (es ++ [e]) 0

section

variable {cfg : Setting} {T Q : Pairing} {root id : TaskId} {s s' s₁ s₁' : State}
  {task task' : Task} {F : List TaskId} {P : List ProcessId} {ready : List TaskId}
  {es : List Ending} {n n' : Nat} {chain label : String} {vars : Variables} {exitOnError : Bool}

/-! ### The tasks of the foreground -/

/-- The foreground is `F` and `P`. -/
lemma Side.inFront_iff (h : Side F P root s.toCore)
    (hF : ∀ t ∈ F, ∀ task, taskAt s.tasks t = some task →
      (∃ r audience, task = .run r audience) ∨ task.InFront (Front.of root s.history) t) :
    s.InFront root id ↔ id ∈ F ∧ (slotAt s.tasks id).isSome = true := by
  constructor
  · rintro ⟨task, ht, hin⟩
    obtain ⟨slot, hs, rfl⟩ := Option.map_eq_some_iff.1 ht
    refine ⟨?_, by rw [hs]; rfl⟩
    by_contra hid
    have hb := h.behind id slot hid hs
    generalize slot.task = task at ht hin hb
    cases hb with
    | run => exact hid ((h.runs _ _ _ ht).1 hin)
    | waiter hp => exact hp.out (h.front ▸ hin)
    | keeper hp => exact hp.out (h.front ▸ hin)
  · rintro ⟨hid, hs⟩
    obtain ⟨slot, hs⟩ := Option.isSome_iff_exists.1 hs
    have ht : taskAt s.tasks id = some slot.task := taskAt_of_slotAt hs
    refine ⟨slot.task, ht, ?_⟩
    rcases hF id hid _ ht with ⟨r, audience, heq⟩ | hin
    · rw [heq] at ht ⊢
      exact (h.runs _ _ _ ht).2 hid
    · exact hin

lemma Task.Alike.left {f : Front} (h : task.Alike T Q task') (hf : f.processes = Q.left)
    (id : TaskId) : (∃ r audience, task = .run r audience) ∨ task.InFront f id := by
  cases h with
  | run => exact .inl ⟨_, _, rfl⟩
  | waiter name hp => exact .inr (show _ ∈ f.processes from hf ▸ Pairing.mem_left hp)
  | keeper hp => exact .inr (show _ ∈ f.processes from hf ▸ Pairing.mem_left hp)

lemma readyIn_cons (hr : s.ready = id :: ready) : s.readyIn F =
    if id ∈ F ∧ (slotAt s.tasks id).isSome then id :: ({ s with ready } : State).readyIn F
    else ({ s with ready } : State).readyIn F := by
  simp [State.readyIn, hr, List.filter_cons]

namespace Alike

lemma inFront_iff (h : Alike T Q root s s') :
    s.InFront root id ↔ id ∈ T.left ∧ (slotAt s.tasks id).isSome = true := by
  refine h.side.inFront_iff fun t ht task htask => ?_
  obtain ⟨⟨t, t'⟩, hin, rfl⟩ := List.mem_map.1 ht
  obtain ⟨slot, hs, rfl⟩ := Option.map_eq_some_iff.1 htask
  have hslot := h.slots hin
  rw [hs] at hslot
  generalize slotAt s'.tasks t' = o at hslot
  cases hslot with
  | some hslot => exact hslot.task.left h.side.front t

lemma inFront_iff' (h : Alike T Q root s s') :
    s'.InFront root id ↔ id ∈ T.right ∧ (slotAt s'.tasks id).isSome = true :=
  Pairing.left_swap ▸ h.symm.inFront_iff

lemma atRest_iff (h : Alike T Q root s s') : s.AtRest root ↔ s'.AtRest root := by
  have hl : s.AtRest root ↔ s.readyIn T.left = [] := by
    simp [State.AtRest, State.readyIn, List.filter_eq_nil_iff, h.inFront_iff]
  have hr : s'.AtRest root ↔ s'.readyIn T.right = [] := by
    simp [State.AtRest, State.readyIn, List.filter_eq_nil_iff, h.inFront_iff']
  have hready := h.ready
  rw [hl, hr]
  generalize s.readyIn T.left = l, s'.readyIn T.right = l' at hready
  cases hready <;> simp

/-! ### What happens in the background of one session -/

end Alike

/-- The turn of a task that is gone is no turn at all. -/
lemma Side.aside (hcfg : cfg.Sound) (h : Side F P root s.toCore)
    (hin : ∀ {t : TaskId}, s.InFront root t ↔ t ∈ F ∧ (slotAt s.tasks t).isSome = true)
    (ha : Backstage cfg root s s₁) : Spared F P root s s₁ ∨
      ∃ t ready, s.ready = t :: ready ∧ slotAt s.tasks t = none ∧ s₁ = { s with ready } := by
  cases ha with
  | passes now clock => exact .inl ⟨{ h with }, { (Aloof.refl s : Aloof F P root s s) with }⟩
  | news hp hd killed => exact .inl (.putHandle h (h.front ▸ hp))
  | @turn t ready hr ht =>
    rcases hs : slotAt s.tasks t with _ | slot
    · refine .inr ⟨t, ready, hr, hs, ?_⟩
      unfold State.turn
      simp only [Core.slot?_eq, hs]
    · refine .inl (h.step hcfg hr fun hF => ht (hin.2 ⟨hF, by rw [hs]; rfl⟩))

namespace Alike

lemma aside (hcfg : cfg.Sound) (h : Alike T Q root s s') (ha : Backstage cfg root s s₁) :
    Alike T Q root s₁ s' := by
  rcases h.side.aside hcfg h.inFront_iff ha with hs | ⟨t, ready, hr, hs, rfl⟩
  · exact h.spared hs (.refl h.side')
  · exact { h with
      queued := fun v hv => h.queued v (hr ▸ List.mem_cons_of_mem _ hv)
      ready := by
        have hready := h.ready
        rw [readyIn_cons hr, if_neg (by simp [hs])] at hready
        exact hready }

lemma aside' (hcfg : cfg.Sound) (h : Alike T Q root s s') (ha : Backstage cfg root s' s₁) :
    Alike T Q root s s₁ := by
  simpa using (h.symm.aside hcfg ha).symm

lemma asides (hcfg : cfg.Sound) (h : Alike T Q root s s')
    (hl : ReflTransGen (Backstage cfg root) s s₁) (hr : ReflTransGen (Backstage cfg root) s' s₁') :
    Alike T Q root s₁ s₁' := by
  have hleft : Alike T Q root s₁ s' := by
    induction hl with
    | refl => exact h
    | tail _ ha ih => exact ih.aside hcfg ha
  induction hr with
  | refl => exact hleft
  | tail _ ha ih => exact ih.aside' hcfg ha

/-! ### What happens in the foreground of both -/

lemma frontTurn {id' : TaskId} {ready' : List TaskId} (hcfg : cfg.Sound) (h : Alike T Q root s s')
    (hr : s.ready = id :: ready) (hid : s.InFront root id) (hr' : s'.ready = id' :: ready')
    (hid' : s'.InFront root id') : ∃ T' Q', Alike T' Q' root
      (({ s with ready } : State).turn cfg id) (({ s' with ready := ready' } : State).turn cfg id')
      := by
  have hready := h.ready
  rw [readyIn_cons hr, if_pos (h.inFront_iff.1 hid), readyIn_cons hr',
    if_pos (h.inFront_iff'.1 hid')] at hready
  cases hready with
  | cons hpair hrest =>
    have hpop : Alike T Q root { s with ready } { s' with ready := ready' } :=
      { h with
        queued := fun v hv => h.queued v (hr ▸ List.mem_cons_of_mem _ hv)
        queued' := fun v hv => h.queued' v (hr' ▸ List.mem_cons_of_mem _ hv)
        ready := hrest }
    exact hpop.turn hcfg hpair

lemma frontEnd {p p' : ProcessId} {k : Nat} (h : Alike T Q root s s')
    (hp : (Front.of root s.history).processes[k]? = some p)
    (hp' : (Front.of root s'.history).processes[k]? = some p') : (p, p') ∈ Q := by
  rw [h.side.front, Pairing.left, List.getElem?_map] at hp
  rw [h.side'.front, Pairing.right, List.getElem?_map] at hp'
  obtain ⟨q, hq, rfl⟩ := Option.map_eq_some_iff.1 hp
  obtain ⟨q', hq', rfl⟩ := Option.map_eq_some_iff.1 hp'
  cases hq.symm.trans hq'
  exact List.mem_of_getElem? hq

end Alike

/-! ### Whole sessions -/

lemma side_opening (r : Course) (audience : Audience) :
    Side [0] [] 0 (({} : State).spawn (.run r audience)).1.toCore where
  tasks t ht := List.mem_singleton.1 ht ▸ Nat.zero_lt_one
  processes := by simp
  launched := rfl
  tracked p hp := absurd hp List.not_mem_nil
  asked e he := absurd he List.not_mem_nil
  behind t slot ht hs := by
    refine absurd (List.mem_singleton.2 ?_) ht
    exact Nat.lt_one_iff.1 (lt_of_slotAt hs)
  wakes p l _ hl := by cases hl
  runs t r' audience' ht := by
    have h0 : t = 0 := Nat.lt_one_iff.1 (lt_of_taskAt ht)
    exact iff_of_true (List.mem_singleton.2 h0) (List.mem_singleton.2 h0)
  opened t ht := by
    rw [List.mem_singleton.1 ht]
    exact Nat.zero_lt_one
  front := rfl

/-- The sessions are alike from the start. -/
lemma alike_opening (r : Course) (hw : r.waiting = []) (label : String) :
    Alike [(0, 0)] [] 0 (({} : State).spawn (.run r (.caller label))).1
      (({} : State).spawn (.run r (.caller label))).1 where
  side := side_opening r _
  side' := side_opening r _
  queued t ht := List.mem_singleton.1 ht ▸ Nat.zero_lt_one
  queued' t ht := List.mem_singleton.1 ht ▸ Nat.zero_lt_one
  tasks := ⟨fun ha hb => by
    cases List.mem_singleton.1 ha
    cases List.mem_singleton.1 hb
    exact iff_of_true rfl rfl⟩
  processes := ⟨fun ha => absurd ha List.not_mem_nil⟩
  slots {t t'} ht := by
    cases List.mem_singleton.1 ht
    have hcourse : (Task.run r (.caller label)).Alike [(0, 0)] []
        (.run { r with waiting := r.waiting, background := r.background } (.caller label)) :=
      .run (by rw [hw]; exact .nil) (.caller label)
    exact .some ⟨hcourse, rfl⟩
  handles hp := absurd hp List.not_mem_nil
  wakes hp := absurd hp List.not_mem_nil
  stops hp := absurd hp List.not_mem_nil
  live := .nil
  ready := .cons List.mem_cons_self .nil
  outcomes := rfl
  launches := rfl

lemma Performance.of_nil (h : Performance cfg chain vars exitOnError label s [] 0) :
    ReflTransGen (Backstage cfg 0)
      (({} : State).spawn (.run (.start chain vars exitOnError) (.caller label))).1 s := by
  generalize hes : ([] : List Ending) = es at h
  cases h with
  | opens hs => exact hs
  | ends => simp at hes

lemma Performance.of_concat {e : Ending}
    (h : Performance cfg chain vars exitOnError label s (es ++ [e]) 0) :
    ∃ s₀ n p, Performance cfg chain vars exitOnError label s₀ es n ∧
      (Front.of 0 s₀.history).processes[e.place]? = some p ∧
      (e.moment = some n ∨ e.moment = none ∧ s₀.AtRest 0) ∧
      ReflTransGen (Backstage cfg 0) (s₀.endProcess p e.stderr e.code e.killed) s := by
  generalize hes : es ++ [e] = es' at h
  cases h with
  | opens => simp at hes
  | ends e h hp hm hs =>
    obtain ⟨rfl, heq⟩ := List.append_inj' hes rfl
    cases List.singleton_inj.1 heq
    exact ⟨_, _, _, h, hp, hm, hs⟩

/-- Before a turn of the foreground it was not at rest. -/
lemma Performance.before {m : Nat} (h : Performance cfg chain vars exitOnError label s es n)
    (hm : m < n) : ∃ s₀, Performance cfg chain vars exitOnError label s₀ es m ∧ ¬s₀.AtRest 0 := by
  induction h with
  | opens => exact absurd hm (Nat.not_lt_zero m)
  | @turn s s' es n id ready h hr hid hs ih =>
    rcases Nat.lt_succ_iff_lt_or_eq.1 hm with hlt | rfl
    · exact ih hlt
    · exact ⟨s, h, fun hrest => hrest id (hr ▸ List.mem_cons_self) hid⟩
  | ends => exact absurd hm (Nat.not_lt_zero m)

/-! What the machine does next, and what ends next, makes a longer performance. -/

lemma Performance.aside (h : Performance cfg chain vars exitOnError label s es n)
    (ha : Backstage cfg 0 s s') : Performance cfg chain vars exitOnError label s' es n := by
  cases h with
  | opens hs => exact .opens (hs.tail ha)
  | turn h hr hid hs => exact h.turn hr hid (hs.tail ha)
  | ends e h hp hm hs => exact h.ends e hp hm (hs.tail ha)

lemma Performance.step (h : Performance cfg chain vars exitOnError label s es n)
    (hs : s.step? cfg = some s') : ∃ n', Performance cfg chain vars exitOnError label s' es n' := by
  unfold State.step? at hs
  split at hs
  · cases hs
  · rename_i id ready hr
    cases hs
    by_cases hid : s.InFront 0 id
    · exact ⟨n + 1, h.turn hr hid .refl⟩
    · exact ⟨n, h.aside (.turn hr hid)⟩

theorem Performance.settle (h : Performance cfg chain vars exitOnError label s es n) :
    ∃ n', Performance cfg chain vars exitOnError label (s.settle cfg) es n' := by
  unfold State.settle
  generalize s.turnBound cfg = k
  induction k generalizing s n with
  | zero => exact ⟨n, h⟩
  | succ k ih =>
    unfold State.stepN
    split
    · exact ⟨n, h⟩
    · obtain ⟨n', h'⟩ := h.step ‹_›
      exact ih h'

theorem Performance.endProcess (h : Performance cfg chain vars exitOnError label s es n)
    (p : ProcessId) (stderr killed : Bool) (code : Option Int) :
    ∃ es' n', Performance cfg chain vars exitOnError label
      (s.endProcess p stderr code killed) es' n' := by
  by_cases hp : p ∈ (Front.of 0 s.history).processes
  · obtain ⟨k, hk⟩ := List.mem_iff_getElem?.1 hp
    exact ⟨_, _, h.ends ⟨k, some n, stderr, code, killed⟩ hk (.inl rfl) .refl⟩
  · unfold State.endProcess
    split
    · exact ⟨es, n, h⟩
    · exact ⟨es, n, h.aside (.news hp _ _)⟩

/-- After these endings and so many turns of the foreground all sessions are alike. -/
def Agree (cfg : Setting) (chain : String) (vars : Variables) (exitOnError : Bool) (label : String)
    (es : List Ending) (n : Nat) : Prop :=
  ∀ {s s' : State}, Performance cfg chain vars exitOnError label s es n →
    Performance cfg chain vars exitOnError label s' es n → ∃ T Q, Alike T Q 0 s s'

namespace Agree

lemma opens (hcfg : cfg.Sound) : Agree cfg chain vars exitOnError label [] 0 := fun h h' =>
  ⟨_, _, (alike_opening _ rfl label).asides hcfg h.of_nil h'.of_nil⟩

lemma turn (hcfg : cfg.Sound) (hn : Agree cfg chain vars exitOnError label es n) :
    Agree cfg chain vars exitOnError label es (n + 1) := by
  intro s s' h h'
  cases h with
  | turn h hr hid hs =>
    cases h' with
    | turn h' hr' hid' hs' =>
      obtain ⟨T, Q, halike⟩ := hn h h'
      obtain ⟨T', Q', hturn⟩ := halike.frontTurn hcfg hr hid hr' hid'
      exact ⟨T', Q', hturn.asides hcfg hs hs'⟩

/-- The foreground comes to rest after the same number of turns. -/
lemma turns_eq (hall : ∀ n, Agree cfg chain vars exitOnError label es n)
    (h : Performance cfg chain vars exitOnError label s es n) (hr : s.AtRest 0)
    (h' : Performance cfg chain vars exitOnError label s' es n') (hr' : s'.AtRest 0) : n = n' := by
  rcases Nat.lt_trichotomy n n' with hlt | heq | hgt
  · obtain ⟨s₀, h₀, hbusy⟩ := h'.before hlt
    obtain ⟨T, Q, halike⟩ := hall n h h₀
    exact absurd (halike.atRest_iff.1 hr) hbusy
  · exact heq
  · obtain ⟨s₀, h₀, hbusy⟩ := h.before hgt
    obtain ⟨T, Q, halike⟩ := hall n' h₀ h'
    exact absurd (halike.atRest_iff.2 hr') hbusy

lemma ends {e : Ending} (hcfg : cfg.Sound)
    (hall : ∀ n, Agree cfg chain vars exitOnError label es n) :
    Agree cfg chain vars exitOnError label (es ++ [e]) 0 := by
  intro s s' h h'
  obtain ⟨s₀, n, p, h₀, hp, hm, hs⟩ := h.of_concat
  obtain ⟨s₀', n', p', h₀', hp', hm', hs'⟩ := h'.of_concat
  have hn : n = n' := by
    rcases hm with hm | ⟨hm, hr⟩ <;> rcases hm' with hm' | ⟨hm', hr'⟩ <;> rw [hm] at hm'
    · exact Option.some.inj hm'
    · cases hm'
    · cases hm'
    · exact turns_eq hall h₀ hr h₀' hr'
  subst hn
  obtain ⟨T, Q, halike⟩ := hall n h₀ h₀'
  exact ⟨T, Q, (halike.endProcess (halike.frontEnd hp hp') ..).asides hcfg hs hs'⟩

/-- By induction on the endings, and on the turns since the last one. -/
theorem all (hcfg : cfg.Sound) (es : List Ending) (n : Nat) :
    Agree cfg chain vars exitOnError label es n := by
  induction es using List.reverseRecOn generalizing n with
  | nil =>
    induction n with
    | zero => exact opens hcfg
    | succ n ih => exact turn hcfg ih
  | append_singleton es e ihes =>
    induction n with
    | zero => exact ends hcfg ihes
    | succ n ih => exact turn hcfg ih

end Agree

end

/-! ### A chain with a step in the background -/

namespace State

/-- The turn of the first task in the queue. -/
def next (cfg : Setting) (s : State) (id : TaskId) : State :=
  ({ s with ready := s.ready.tail } : State).turn cfg id

/-- The run of `+f a` after these turns. -/
def staged (ids : List TaskId) : State :=
  ids.foldl (next .paused) (({} : State).spawn (.run (.start "+f a" .empty true) (.caller "r"))).1

/-- Both scripts are up. The one in the background fails, or it stays up. -/
def troubled (fails : Bool) : State :=
  if fails then
    (staged [0, 1]).putHandle 0 ⟨"f", true, none, none, some 0, some 1, true, false⟩ false
  else staged [0, 1]

/-- The other script has ended well, and these turns were taken. -/
def performed (fails : Bool) (ids : List TaskId) : State :=
  ids.foldl (next .paused) ((troubled fails).endProcess 1 false (some 0) false)

end State

section

variable {cfg : Setting} {chain label : String} {vars : Variables} {exitOnError : Bool}
  {s s' : State} {es : List Ending} {n : Nat}

lemma Performance.next (h : Performance cfg chain vars exitOnError label s es n) (id : TaskId)
    (ready : List TaskId) (task : Task) (hr : s.ready = id :: ready)
    (ht : taskAt s.tasks id = some task) (hid : task.InFront (Front.of 0 s.history) id) :
    Performance cfg chain vars exitOnError label (s.next cfg id) es (n + 1) := by
  unfold State.next
  rw [hr]
  exact h.turn hr ⟨task, ht, hid⟩ .refl

lemma State.atRest_of_nil {root : TaskId} (h : s.ready = []) : s.AtRest root := by
  simp [AtRest, h]

end

lemma performance_staged : Performance .paused "+f a" .empty true "r" (.staged [0, 1]) [] 2 := by
  have hopens : Performance .paused "+f a" .empty true "r" (.staged []) [] 0 := .opens .refl
  have hrun : 0 ∈ (Front.of 0 (State.staged []).history).runs := List.mem_singleton_self 0
  have hstarts : Performance .paused "+f a" .empty true "r" (.staged [0]) [] 1 :=
    hopens.next 0 _ _ rfl rfl hrun
  have hprocesses : (Front.of 0 (State.staged [0]).history).processes = [1] := by cbv
  have hwaiter : 1 ∈ (Front.of 0 (State.staged [0]).history).processes := by simp [hprocesses]
  exact hstarts.next 1 [] (.waiter 1 "a" 0) (by cbv) (by cbv) hwaiter

lemma performance_troubled (fails : Bool) :
    Performance .paused "+f a" .empty true "r" (.troubled fails) [] 2 := by
  cases fails with
  | false => exact performance_staged
  | true =>
    have hprocesses : (Front.of 0 (State.staged [0, 1]).history).processes = [1] := by cbv
    exact performance_staged.aside (.news (p := 0) (by simp [hprocesses]) _ _)

lemma performance_performed (fails : Bool) :
    Performance .paused "+f a" .empty true "r" (.performed fails [1, 0])
      [⟨0, none, false, some 0, false⟩] 2 := by
  have hprocesses : (Front.of 0 (State.troubled fails).history).processes = [1] := by
    cases fails <;> cbv
  have hready : (State.troubled fails).ready = [] := by cases fails <;> cbv
  have hends : Performance .paused "+f a" .empty true "r" (.performed fails [])
      [⟨0, none, false, some 0, false⟩] 0 :=
    (performance_troubled fails).ends ⟨0, none, false, some 0, false⟩ (by rw [hprocesses]; rfl)
      (.inr ⟨rfl, State.atRest_of_nil hready⟩) .refl
  have hprocesses' : (Front.of 0 (State.performed fails []).history).processes = [1] := by
    cases fails <;> cbv
  have hwaiter : 1 ∈ (Front.of 0 (State.performed fails []).history).processes := by
    simp [hprocesses']
  have htells := hends.next 1 [] (.waiter 1 "a" 0)
    (by cases fails <;> cbv) (by cases fails <;> cbv) hwaiter
  have hrun : 0 ∈ (Front.of 0 (State.performed fails [1]).history).runs := by
    have hruns : (Front.of 0 (State.performed fails [1]).history).runs = [0] := by
      cases fails <;> cbv
    simp [hruns]
  have hcourse : taskAt (State.performed fails [1]).tasks 0 = some (.run
      { Course.start "+f a" .empty true with
        rest := [], batch := 1, names := ((Names.unique .empty "f").2.unique "a").2
        arrived := [.settled "a" false (some 0)], background := [0] } (.caller "r")) := by
    cases fails <;> cbv
  exact htells.next 0 [] _ (by cases fails <;> cbv) hcourse hrun

end ChainRunner.Run
