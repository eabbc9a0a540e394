import ChainRunner.Proofs.Run.Endings

/-!
The foreground and the background of a run.

The background are the processes that are started in background mode, the chains that are, and
all that is beneath these.
-/

namespace ChainRunner.Run

/-! ### The foreground of a run -/

/-- The runs in the foreground, and the processes that they have started to wait for, with their
display names. -/
structure Front where
  runs : List TaskId
  launches : List (ProcessId × Instance × String)

namespace Front

def after (f : Front) : Deed → Front
  | .started r _ (.process p i name) =>
    if r ∈ f.runs ∧ i.isBackground = false then
      { f with launches := f.launches ++ [(p, i, name)] }
    else f
  | .started r _ (.chain t _ mode _) =>
    if r ∈ f.runs ∧ mode ≠ .background then { f with runs := f.runs ++ [t] } else f
  | _ => f

/-- The foreground of the run `root` after the deeds `H`. -/
def of (root : TaskId) (H : List Deed) : Front := H.foldl after ⟨[root], []⟩

def processes (f : Front) : List ProcessId := f.launches.map Prod.fst

variable {root : TaskId} {H : List Deed} {d : Deed}

@[simp] lemma of_concat : of root (H ++ [d]) = (of root H).after d := by
  rw [of, List.foldl_concat]
  rfl

@[simp] lemma of_append_nil (ds : List Deed) (h : ∀ d ∈ ds, ∀ r k x, d ≠ .started r k x) :
    of root (H ++ ds) = of root H := by
  induction ds generalizing H with
  | nil => rw [List.append_nil]
  | cons d ds ih =>
    have hd : (of root H).after d = of root H := by
      have hne := h d List.mem_cons_self
      cases d <;> first | rfl | exact absurd rfl (hne _ _ _)
    rw [List.append_cons, ih fun d' hd' => h d' (List.mem_cons_of_mem _ hd'), of_concat, hd]

end Front

/-! ### Tasks and processes in the background -/

/-- The number has been given, and not to one of the foreground. -/
structure Outer (F : List Nat) (n w : Nat) : Prop where
  lt : w < n
  out : w ∉ F

/-- The task has to do with the background only: of `n` tasks those `F` are in the foreground, and
of `m` processes those `P`. -/
inductive Behind (F : List TaskId) (n : Nat) (P : List ProcessId) (m : Nat) : Task → Prop
  | run {r : Course} {audience : Audience} (exits : r.exitOnError = false)
    (waiting : ∀ w ∈ r.waiting, Outer F n w)
    (told : audience = .nobody ∨ ∃ owner name, audience = .barrier owner name ∧ Outer F n owner) :
    Behind F n P m (.run r audience)
  | waiter {p : ProcessId} {name : String} {owner : TaskId} (hp : Outer P m p)
    (told : Outer F n owner) : Behind F n P m (.waiter p name owner)
  | keeper {p : ProcessId} (hp : Outer P m p) : Behind F n P m (.keeper p)

/-- The tasks of the foreground of the run `root` are among the tasks `F`, its processes are the
processes `P`, and all the others are in the background. -/
structure Side (F : List TaskId) (P : List ProcessId) (root : TaskId) (c : Core) : Prop where
  tasks : ∀ t ∈ F, t < c.tasks.length
  processes : ∀ p ∈ P, p < c.table.handles.length
  launched : c.launches.length = c.table.handles.length
  tracked : ∀ p ∈ c.table.tracked, p < c.table.handles.length
  asked : ∀ e ∈ c.stops, e.1 < c.table.handles.length
  behind : ∀ t slot, t ∉ F → slotAt c.tasks t = some slot →
    Behind F c.tasks.length P c.table.handles.length slot.task
  wakes : ∀ p l, p ∉ P → c.launches[p]? = some l →
    (∀ w, l.waiter = some w → Outer F c.tasks.length w) ∧
      ∀ k, l.keeper = some k → Outer F c.tasks.length k
  runs : ∀ t r audience, taskAt c.tasks t = some (.run r audience) →
    (t ∈ (Front.of root c.history).runs ↔ t ∈ F)
  opened : ∀ t ∈ (Front.of root c.history).runs, t < c.tasks.length
  front : (Front.of root c.history).processes = P

section

variable {F F' : List TaskId} {P P' : List ProcessId} {root id : TaskId} {n n' m m' w : Nat}
  {task : Task} {c : Core} {f : Task → Task} {H : List Deed}

/-! Numbers below `n`, and `n` may come to them. -/

lemma mem_of_joined (hF : F' = F ∨ F' = F ++ [n]) : ∀ v < n, v ∈ F' → v ∈ F := by
  intro v hv hin
  rcases hF with rfl | rfl
  · exact hin
  · exact (List.mem_append.1 hin).resolve_right fun heq =>
      Nat.ne_of_lt hv (List.mem_singleton.1 heq)

lemma subset_of_joined (hF : F' = F ∨ F' = F ++ [n]) : F ⊆ F' := by
  rcases hF with rfl | rfl
  · exact List.Subset.refl _
  · exact List.subset_append_left ..

lemma lt_of_joined (hF : F' = F ∨ F' = F ++ [n]) (h : ∀ v ∈ F, v < n) : ∀ v ∈ F', v < n + 1 := by
  intro v hv
  by_cases hvn : v = n
  · exact hvn ▸ Nat.lt_succ_self _
  · rcases hF with rfl | rfl
    · exact Nat.lt_succ_of_lt (h v hv)
    · exact Nat.lt_succ_of_lt (h v (by simpa [hvn] using hv))

lemma Outer.mono (h : Outer F n w) (hn : n ≤ n') (hF : ∀ v < n, v ∈ F' → v ∈ F) : Outer F' n' w :=
  ⟨Nat.lt_of_lt_of_le h.lt hn, fun hw => h.out (hF w h.lt hw)⟩

lemma Behind.mono (h : Behind F n P m task) (hn : n ≤ n') (hF : ∀ v < n, v ∈ F' → v ∈ F)
    (hm : m ≤ m') (hP : ∀ q < m, q ∈ P' → q ∈ P) : Behind F' n' P' m' task := by
  cases h with
  | run exits waiting told =>
    refine .run exits (fun w hw => (waiting w hw).mono hn hF) (told.imp_right ?_)
    rintro ⟨owner, name, rfl, ho⟩
    exact ⟨owner, name, rfl, ho.mono hn hF⟩
  | waiter hp told => exact .waiter (hp.mono hm hP) (told.mono hn hF)
  | keeper hp => exact .keeper (hp.mono hm hP)

/-- A task in the background learns of the end of a task that it may wait for. -/
lemma Behind.receive (h : Behind F n P m task) (w : TaskId) (a : Arrival) :
    Behind F n P m (task.receive w a) := by
  cases h with
  | run exits waiting told =>
    exact .run exits (fun v hv => waiting v (List.mem_of_mem_erase hv)) told
  | waiter hp told => exact .waiter hp told
  | keeper hp => exact .keeper hp

namespace Side

lemma fresh (h : Side F P root c) : c.tasks.length ∉ F := fun hin =>
  Nat.lt_irrefl _ (h.tasks _ hin)

lemma fresh_process (h : Side F P root c) : c.table.handles.length ∉ P := fun hin =>
  Nat.lt_irrefl _ (h.processes _ hin)

lemma note (h : Side F P root c) (hH : Front.of root H = Front.of root c.history) :
    Side F P root { c with history := H } :=
  { h with
    runs := fun t r audience ht => by rw [hH]; exact h.runs t r audience ht
    opened := fun t ht => h.opened t (hH ▸ ht)
    front := by rw [hH]; exact h.front }

lemma map (h : Side F P root c)
    (hb : id ∉ F → ∀ task, taskAt c.tasks id = some task →
      Behind F c.tasks.length P c.table.handles.length task →
        Behind F c.tasks.length P c.table.handles.length (f task))
    (hf : ∀ task, taskAt c.tasks id = some task → ∀ r audience, f task = .run r audience →
      ∃ r' audience', task = .run r' audience') :
    Side F P root { c with tasks := mapAt c.tasks id f } where
  tasks t ht := by simpa using h.tasks t ht
  processes := h.processes
  launched := h.launched
  tracked := h.tracked
  asked := h.asked
  behind t slot ht hs := by
    simp only [length_mapAt]
    rw [slotAt_mapAt] at hs
    split at hs
    · subst id
      obtain ⟨slot, hold, rfl⟩ := Option.map_eq_some_iff.1 hs
      exact hb ht slot.task (taskAt_of_slotAt hold) (h.behind t slot ht hold)
    · exact h.behind t slot ht hs
  wakes p l hp hl := by simpa using h.wakes p l hp hl
  runs t r audience ht := by
    rw [taskAt_mapAt] at ht
    split at ht
    · subst id
      obtain ⟨task, ht, heq⟩ := Option.map_eq_some_iff.1 ht
      obtain ⟨r', audience', rfl⟩ := hf task ht r audience heq
      exact h.runs t r' audience' ht
    · exact h.runs t r audience ht
  opened t ht := by simpa using h.opened t ht
  front := h.front

lemma gone (h : Side F P root c) (id : TaskId) :
    Side F P root { c with tasks := c.tasks.set id none } where
  tasks t ht := by simpa using h.tasks t ht
  processes := h.processes
  launched := h.launched
  tracked := h.tracked
  asked := h.asked
  behind t slot ht hs := by
    simp only [List.length_set]
    rw [slotAt_set_none] at hs
    split at hs
    · cases hs
    · exact h.behind t slot ht hs
  wakes p l hp hl := by simpa using h.wakes p l hp hl
  runs t r audience ht := by
    rw [taskAt_set_none] at ht
    split at ht
    · cases ht
    · exact h.runs t r audience ht
  opened t ht := by simpa using h.opened t ht
  front := h.front

lemma cancel (h : Side F P root c) (ids : List TaskId) :
    Side F P root { c with tasks := cancelAt c.tasks ids } where
  tasks t ht := by simpa using h.tasks t ht
  processes := h.processes
  launched := h.launched
  tracked := h.tracked
  asked := h.asked
  behind t slot ht hs := by
    simp only [length_cancelAt]
    rw [slotAt_cancelAt] at hs
    obtain ⟨slot, hold, rfl⟩ := Option.map_eq_some_iff.1 hs
    exact h.behind t slot ht hold
  wakes p l hp hl := by simpa using h.wakes p l hp hl
  runs t r audience ht := h.runs t r audience (by simpa using ht)
  opened t ht := by simpa using h.opened t ht
  front := h.front

/-- One more task, in the background or in the foreground. -/
lemma grow (h : Side F P root c) (slot : Slot) (H : List Deed)
    (hF : F' = F ∨ F' = F ++ [c.tasks.length])
    (hb : c.tasks.length ∉ F' →
      Behind F (c.tasks.length + 1) P c.table.handles.length slot.task)
    (hruns : ∀ t, t ∈ (Front.of root H).runs ↔ t ∈ (Front.of root c.history).runs ∨
      t = c.tasks.length ∧ t ∈ F' ∧ ∃ r audience, slot.task = .run r audience)
    (hfront : (Front.of root H).processes = (Front.of root c.history).processes) :
    Side F' P root { c with tasks := c.tasks ++ [some slot], history := H } := by
  have hin : ∀ v < c.tasks.length, v ∈ F' → v ∈ F := mem_of_joined hF
  have hsub : F ⊆ F' := subset_of_joined hF
  have hlen : (c.tasks ++ [some slot]).length = c.tasks.length + 1 := by simp
  have hle : c.tasks.length ≤ c.tasks.length + 1 := Nat.le_succ _
  refine ⟨fun t ht => ?_, h.processes, h.launched, h.tracked, h.asked,
    fun t slot' ht hs => ?_, fun p l hp hl => ?_, fun t r audience ht => ?_, fun t ht => ?_,
    hfront.trans h.front⟩
  · rw [hlen]
    exact lt_of_joined hF h.tasks t ht
  · rw [hlen]
    rw [slotAt_concat] at hs
    split at hs
    · subst t
      cases hs
      obtain rfl : F' = F := hF.resolve_right fun heq => ht (by simp [heq])
      exact hb ht
    · exact (h.behind t slot' (fun hold => ht (hsub hold)) hs).mono hle hin (Nat.le_refl _)
        fun _ _ => id
  · rw [hlen]
    obtain ⟨hw, hk⟩ := h.wakes p l hp hl
    exact ⟨fun w heq => (hw w heq).mono hle hin, fun k heq => (hk k heq).mono hle hin⟩
  · rw [taskAt_concat] at ht
    rw [hruns]
    split at ht
    · subst t
      have hold : c.tasks.length ∉ (Front.of root c.history).runs := fun hin =>
        Nat.lt_irrefl _ (h.opened _ hin)
      have hrun : slot.task = .run r audience := Option.some.inj ht
      rw [or_iff_right hold]
      exact ⟨fun hn => hn.2.1, fun hin => ⟨rfl, hin, r, audience, hrun⟩⟩
    · rename_i hne
      rw [or_iff_left fun hn => hne hn.1, h.runs t r audience ht]
      exact ⟨fun hold => hsub hold, hin t (lt_of_taskAt ht)⟩
  · rw [hlen]
    rcases (hruns t).1 ht with hold | ⟨rfl, -⟩
    · exact Nat.lt_succ_of_lt (h.opened t hold)
    · exact Nat.lt_succ_self _

/-- One more process, in the background or in the foreground. -/
lemma process (h : Side F P root c) (hd : Handle) (now : Nat) (l : Launch) (H : List Deed)
    (hw : l.waiter = none) (hk : l.keeper = none)
    (hP : P' = P ∨ P' = P ++ [c.table.handles.length])
    (hruns : (Front.of root H).runs = (Front.of root c.history).runs)
    (hfront : (Front.of root H).processes = P') :
    Side F P' root
      { c with table := c.table.launch hd now, launches := c.launches ++ [l], history := H } := by
  have hlen := ProcessTable.length_launch c.table hd now
  refine ⟨h.tasks, fun p hp => ?_, ?_, fun p hp => ?_,
    fun e he => hlen ▸ Nat.lt_succ_of_lt (h.asked e he), fun t slot ht hs => ?_,
    fun p l' hp hl => ?_, fun t r audience ht => ?_, fun t ht => h.opened t (hruns ▸ ht), hfront⟩
  · rw [hlen]
    exact lt_of_joined hP h.processes p hp
  · rw [hlen, List.length_append, h.launched]
    rfl
  · rw [hlen]
    rw [ProcessTable.tracked_launch, List.mem_append, List.mem_filter, List.mem_singleton] at hp
    rcases hp with ⟨hp, -⟩ | rfl
    · exact Nat.lt_succ_of_lt (h.tracked p hp)
    · exact Nat.lt_succ_self _
  · exact (h.behind t slot ht hs).mono (Nat.le_refl _) (fun _ _ => id)
      (Nat.le_trans (Nat.le_succ _) (Nat.le_of_eq hlen.symm)) (mem_of_joined hP)
  · rcases Nat.lt_or_ge p c.launches.length with hlt | hge
    · rw [List.getElem?_append_left hlt] at hl
      exact h.wakes p l' (fun hold => hp (subset_of_joined hP hold)) hl
    · have hl' : l' = l :=
        List.mem_singleton.1 (List.mem_of_getElem? (List.getElem?_append_right hge ▸ hl))
      subst hl'
      simp [hw, hk]
  · rw [hruns]
    exact h.runs t r audience ht

/-- Who is woken for a process in the background is in the background. -/
lemma relaunch (h : Side F P root c) {L : List Launch} (hlen : L.length = c.launches.length)
    (hL : ∀ p l, p ∉ P → L[p]? = some l → c.launches[p]? = some l ∨
      (∀ w, l.waiter = some w → Outer F c.tasks.length w) ∧
        ∀ k, l.keeper = some k → Outer F c.tasks.length k) :
    Side F P root { c with launches := L } :=
  { h with
    launched := hlen.trans h.launched
    wakes := fun p l hp hl => (hL p l hp hl).elim (h.wakes p l hp) id }

lemma table (h : Side F P root c) {t : ProcessTable}
    (hlen : t.handles.length = c.table.handles.length) (htr : t.tracked = c.table.tracked) :
    Side F P root { c with table := t } where
  tasks := h.tasks
  processes p hp := hlen ▸ h.processes p hp
  launched := h.launched.trans hlen.symm
  tracked p hp := hlen ▸ h.tracked p (htr ▸ hp)
  asked e he := hlen ▸ h.asked e he
  behind t slot ht hs := hlen ▸ h.behind t slot ht hs
  wakes := h.wakes
  runs := h.runs
  opened := h.opened
  front := h.front

end Side

end

/-! ### Starting a process -/

lemma modify_concat {α : Type} (xs : List α) (x : α) (f : α → α) :
    (xs ++ [x]).modify xs.length f = xs ++ [f x] := by
  induction xs with
  | nil => rfl
  | cons y xs ih => rw [List.cons_append, List.length_cons, List.modify_succ_cons, ih]; rfl

namespace State

/-- A process is started, and the history says so. -/
def enrol (s : State) (i : Instance) (d : Deed) : State :=
  let earlier := (s.attempts.get? i.script).getD 0
  { s with
    attempts := s.attempts.insert i.script (earlier + 1)
    table := s.table.launch { name := i.displayName, background := i.isBackground } s.now
    log := s.log ++ [Event.started s.now s.table.handles.length]
    launches := s.launches ++ [{
      script := i.script, name := i.displayName, command := i.command,
      background := i.isBackground, earlier }]
    history := s.history ++ [d] }

def setKeeper (s : State) (p : ProcessId) (k : TaskId) : State :=
  { s with launches := s.launches.modify p fun l => { l with keeper := some k } }

/-- The keeper of a process is spawned once the process has started. -/
def keep (cfg : Setting) (s : State) (p : ProcessId) : State :=
  if cfg.keepers then (s.spawn (.keeper p)).1.setKeeper p s.tasks.length else s

lemma length_enrol (s : State) (i : Instance) (d : Deed) :
    (s.enrol i d).table.handles.length = s.table.handles.length + 1 := s.table.length_launch _ _

@[simp] lemma table_keep (cfg : Setting) (s : State) (p : ProcessId) :
    (s.keep cfg p).table = s.table := by
  unfold keep
  split <;> rfl

/-- A launch that works starts the next process, which gets its keeper. -/
lemma launch_eq {cfg : Setting} (hcfg : cfg.Sound) (s : State) (i : Instance) (d : Deed)
    (hl : s.launches.length = s.table.handles.length) :
    ∃ s', s.launch cfg i = (s', some s.table.handles.length) ∧
      s'.note d = (s.enrol i d).keep cfg s.table.handles.length := by
  have hworks : ¬cfg.breaksDown i.script ((s.attempts.get? i.script).getD 0) = true := by
    rw [hcfg]
    exact Bool.false_ne_true
  simp only [launch, keep, if_neg hworks]
  by_cases hk : cfg.keepers = true
  · refine ⟨_, by rw [if_pos hk], ?_⟩
    simp [hk, note, enrol, spawn, setKeeper, openingOf, ← hl, modify_concat]
  · refine ⟨_, by rw [if_neg hk], ?_⟩
    simp [hk, note, enrol]

end State

lemma Side.enrol {F : List TaskId} {P P' : List ProcessId} {root : TaskId} {s : State}
    {i : Instance} {d : Deed} (h : Side F P root s.toCore)
    (hP : P' = P ∨ P' = P ++ [s.table.handles.length])
    (hruns : (Front.of root (s.history ++ [d])).runs = (Front.of root s.history).runs)
    (hfront : (Front.of root (s.history ++ [d])).processes = P') :
    Side F P' root (s.enrol i d).toCore :=
  h.process _ _ _ _ rfl rfl hP hruns hfront

end ChainRunner.Run
