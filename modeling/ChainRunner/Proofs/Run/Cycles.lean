import ChainRunner.Proofs.Run.Tasks
import ChainRunner.Proofs.Watch.Pending
import Mathlib.Data.List.Induction

/-!
Dispatch cycles that share one lock and one queue.

The history tells who has the lock and which paths are queued; every deed of a cycle agrees with
that, and so do the tasks and the queue themselves.
-/

namespace ChainRunner.Run

/-- The task that has the lock after the deeds `H`. -/
def holder (H : List Deed) : Option TaskId :=
  H.foldl
    (fun o d =>
      match d with
      | .locked t => some t
      | .unlocked _ => none
      | _ => o)
    none

/-- The paths that were pushed and not drained after the deeds `H`. -/
def queuedPaths (H : List Deed) : List String :=
  H.foldl
    (fun q d =>
      match d with
      | .pushed path => q ++ [Watch.toSlash path]
      | .drained .. => []
      | _ => q)
    []

/-- What a deed of a cycle asks for: the lock is taken when it is free and given back by who has
it, a drain takes what is queued, and who returns has not got the lock. -/
def Deed.allowed (H : List Deed) : Deed → Prop
  | .locked _ => holder H = none
  | .unlocked t => holder H = some t
  | .drained t ps => holder H = some t ∧ ∀ p, p ∈ ps ↔ p ∈ queuedPaths H
  | .returned t => holder H ≠ some t
  | _ => True

def Lawful (H : List Deed) : Prop := ∀ pre d post, H = pre ++ d :: post → d.allowed pre

section

variable {H pre mid : List Deed} {d : Deed} {t t' : TaskId} {p path : String}

@[simp] lemma holder_concat : holder (H ++ [d]) =
    match d with
    | .locked t => some t
    | .unlocked _ => none
    | _ => holder H := by
  unfold holder
  rw [List.foldl_concat]

@[simp] lemma queuedPaths_concat : queuedPaths (H ++ [d]) =
    match d with
    | .pushed path => queuedPaths H ++ [Watch.toSlash path]
    | .drained .. => []
    | _ => queuedPaths H := by
  unfold queuedPaths
  rw [List.foldl_concat]

lemma Lawful.concat (h : Lawful H) (hd : d.allowed H) : Lawful (H ++ [d]) := by
  intro pre d' post heq
  rcases concat_eq_append_cons heq with ⟨rfl, rfl⟩ | ⟨post', -, hold⟩
  · exact hd
  · exact h _ _ _ hold

lemma Lawful.of_append {post : List Deed} (h : Lawful (H ++ post)) : Lawful H := by
  rintro pre d post' rfl
  exact h pre d (post' ++ post) (by simp)

/-- Who has taken the lock has it until it gives it back. -/
lemma Lawful.holder_kept (h : Lawful (pre ++ .locked t :: mid)) (hm : .unlocked t ∉ mid) :
    holder (pre ++ .locked t :: mid) = some t := by
  induction mid using List.reverseRecOn with
  | nil => simp
  | append_singleton mid d ih =>
    rw [← List.cons_append, ← List.append_assoc] at h ⊢
    have hheld := ih h.of_append fun hin => hm (List.mem_append_left _ hin)
    have hd := h (pre ++ .locked t :: mid) d [] rfl
    rw [holder_concat]
    cases d with
    | locked t' => rw [Deed.allowed, hheld] at hd; cases hd
    | unlocked t' =>
      rw [Deed.allowed, hheld] at hd
      cases hd
      exact absurd (List.mem_append_right _ (List.mem_singleton_self _)) hm
    | _ => exact hheld

/-- Who has the lock has taken it, and nobody has given it back since. -/
lemma exists_locked_of_holder (h : holder H = some t) :
    ∃ pre post, H = pre ++ .locked t :: post ∧ ∀ t', Deed.unlocked t' ∉ post := by
  induction H using List.reverseRecOn with
  | nil => cases h
  | append_singleton H d ih =>
    have hstep (hold : holder H = some t) (hd : ∀ t', d ≠ .unlocked t') : ∃ pre post,
        H ++ [d] = pre ++ .locked t :: post ∧ ∀ t', Deed.unlocked t' ∉ post := by
      obtain ⟨pre, post, rfl, hpost⟩ := ih hold
      refine ⟨pre, post ++ [d], by simp, fun t' hin => ?_⟩
      rcases List.mem_append.1 hin with hin | hin
      · exact hpost t' hin
      · exact hd t' (List.mem_singleton.1 hin).symm
    rw [holder_concat] at h
    cases d with
    | locked t' =>
      cases h
      exact ⟨H, [], rfl, by simp⟩
    | unlocked t' => cases h
    | _ => exact hstep h (by simp)

lemma mem_queuedPaths_of_pushed (hm : ∀ t ps, Deed.drained t ps ∉ mid) :
    Watch.toSlash path ∈ queuedPaths (pre ++ .pushed path :: mid) := by
  induction mid using List.reverseRecOn with
  | nil => simp
  | append_singleton mid d ih =>
    have hold := ih fun t ps hin => hm t ps (List.mem_append_left _ hin)
    rw [← List.cons_append, ← List.append_assoc, queuedPaths_concat]
    cases d with
    | pushed path' => exact List.mem_append_left _ hold
    | drained t ps => exact absurd (List.mem_append_right _ (List.mem_singleton_self _)) (hm t ps)
    | _ => exact hold

lemma exists_pushed_of_mem_queuedPaths {ps : List String}
    (h : p ∈ queuedPaths (pre ++ .drained t ps :: mid)) :
    ∃ path, Watch.toSlash path = p ∧ .pushed path ∈ mid := by
  induction mid using List.reverseRecOn with
  | nil => simp at h
  | append_singleton mid d ih =>
    have hstep (hold : p ∈ queuedPaths (pre ++ .drained t ps :: mid)) :
        ∃ path, Watch.toSlash path = p ∧ .pushed path ∈ mid ++ [d] := by
      obtain ⟨path, hp, hin⟩ := ih hold
      exact ⟨path, hp, List.mem_append_left _ hin⟩
    rw [← List.cons_append, ← List.append_assoc, queuedPaths_concat] at h
    cases d with
    | pushed path =>
      rcases List.mem_append.1 h with h | h
      · exact hstep h
      · exact ⟨path, (List.mem_singleton.1 h).symm, by simp⟩
    | drained t ps => cases h
    | _ => exact hstep h

end

/-! ### Who has the lock -/

def Task.holds (t : Task) : Bool := t.cycle?.any Cycle.holdsLock

/-- The task at a number has the lock. -/
def holdsAt (ts : List (Option Slot)) (id : TaskId) : Bool := (taskAt ts id).any Task.holds

section

variable {ts ts' : List (Option Slot)} {a id : TaskId} {t t' : Task}

lemma holds_receive (w : TaskId) (b : Arrival) : (t.receive w b).holds = t.holds := by
  cases t <;> rfl

lemma holds_receiveRun (w : TaskId) (r : Option Report) : (t.receiveRun w r).holds = t.holds := by
  rcases t with _ | _ | ⟨label, k⟩ | ⟨due, k⟩ | _ <;> first | rfl | (cases k <;> rfl)

lemma holds_of_cycle {k : Cycle} (h : t.cycle? = some k) : t.holds = k.holdsLock := by
  simp [Task.holds, h]

lemma holdsAt_of_taskAt (h : taskAt ts id = some t) : holdsAt ts id = t.holds := by
  simp [holdsAt, h]

lemma holdsAt_mapAt {f : Task → Task} (hf : ∀ t, (f t).holds = t.holds) :
    holdsAt (mapAt ts a f) id = holdsAt ts id := by
  unfold holdsAt
  rw [taskAt_mapAt]
  split
  · rcases taskAt ts id with _ | t
    · rfl
    · exact hf t
  · rfl

lemma holdsAt_put (h : taskAt ts a = some t) : holdsAt (mapAt ts a fun _ => t') id =
    if a = id then t'.holds else holdsAt ts id := by
  unfold holdsAt
  rw [taskAt_mapAt]
  split
  · subst id
    simp [h]
  · rfl

@[simp] lemma holdsAt_cancelAt (ids : List TaskId) :
    holdsAt (cancelAt ts ids) id = holdsAt ts id := by simp [holdsAt]

@[simp] lemma holdsAt_set_none :
    holdsAt (ts.set a none) id = if a = id then false else holdsAt ts id := by
  unfold holdsAt
  rw [taskAt_set_none]
  split <;> rfl

lemma holdsAt_append {more : List (Option Slot)}
    (hmore : ∀ slot, some slot ∈ more → slot.task.holds = false) :
    holdsAt (ts ++ more) id = holdsAt ts id := by
  unfold holdsAt taskAt slotAt
  rcases Nat.lt_or_ge id ts.length with hlt | hge
  · rw [List.getElem?_append_left hlt]
  · rw [List.getElem?_append_right hge, List.getElem?_eq_none hge]
    rcases hm : more[id - ts.length]? with _ | _ | slot
    · rfl
    · rfl
    · exact hmore slot (List.mem_of_getElem? hm)

lemma holdsAt_tellReport (self : TaskId) (report : Report) (audience : Audience) :
    holdsAt (State.tellReport self report audience ts) id = holdsAt ts id := by
  cases audience with
  | barrier owner name => exact holdsAt_mapAt fun t => holds_receive _ _
  | cycle owner => exact holdsAt_mapAt fun t => holds_receiveRun _ _
  | caller label => rfl
  | nobody => rfl

lemma holdsAt_tellBreak (self : TaskId) (b : Break) (audience : Audience) :
    holdsAt (State.tellBreak self b audience ts) id = holdsAt ts id := by
  cases audience with
  | barrier owner name => exact holdsAt_mapAt fun t => holds_receive _ _
  | cycle owner => exact holdsAt_mapAt fun t => holds_receiveRun _ _
  | caller label => rfl
  | nobody => rfl

lemma holdsAt_closes {os : List (String × Outcome)} (h : taskAt ts a = some t)
    (hc : Closes ts a ts' os) :
    holdsAt ts' id = if a = id then false else holdsAt ts id := by
  cases hc with
  | gone => exact holdsAt_set_none
  | again due => exact holdsAt_put h

lemma holdsAt_same (h : taskAt ts a = some t) (ht : t'.holds = t.holds) :
    holdsAt (mapAt ts a fun _ => t') id = holdsAt ts id := by
  rw [holdsAt_put h]
  split
  · subst id
    rw [holdsAt_of_taskAt h, ht]
  · rfl

/-- A task that has not got the lock becomes another such while the list grows. -/
lemma holdsAt_grow {more : List (Option Slot)} (h : taskAt ts a = some t) (ht : t'.holds = t.holds)
    (hmore : ∀ slot, some slot ∈ more → slot.task.holds = false) :
    holdsAt (mapAt (ts ++ more) a fun _ => t') id = holdsAt ts id := by
  rw [holdsAt_same (taskAt_append h) ht, holdsAt_append hmore]

lemma holdsAt_gone (h : holdsAt ts a = false) : holdsAt (ts.set a none) id = holdsAt ts id := by
  rw [holdsAt_set_none]
  split
  · subst id
    exact h.symm
  · rfl

lemma holdsAt_dropped {ids : List TaskId} (h : holdsAt ts a = false) :
    holdsAt ((cancelAt ts ids).set a none) id = holdsAt ts id := by
  rw [holdsAt_gone (by rw [holdsAt_cancelAt, h]), holdsAt_cancelAt]

end

/-- The invariant of the lock and the queue. -/
structure Guarded (c : Core) : Prop where
  holds : ∀ t, holdsAt c.tasks t = true ↔ holder c.history = some t
  locked : c.pending.locked = (holder c.history).isSome
  queued : ∀ p, p ∈ c.pending.toList ↔ p ∈ queuedPaths c.history
  lawful : Lawful c.history

/-- Whether a deed is about the lock or the queue. -/
def Deed.ofCycle : Deed → Bool
  | .pushed _ | .locked _ | .drained .. | .unlocked _ | .returned _ => true
  | _ => false

namespace Guarded

variable {cfg : Setting} {c c' : Core} {ds : List Deed}

/-- What others do touches neither the lock nor the queue. -/
lemma frame (h : Guarded c) (hH : c'.history = c.history ++ ds)
    (hds : ∀ d ∈ ds, d.ofCycle = false) (hp : c'.pending = c.pending)
    (ht : ∀ t, holdsAt c'.tasks t = holdsAt c.tasks t) : Guarded c' := by
  have hsame : holder c'.history = holder c.history ∧
      queuedPaths c'.history = queuedPaths c.history ∧ Lawful c'.history := by
    rw [hH]
    clear hH
    induction ds using List.reverseRecOn with
    | nil => simpa using h.lawful
    | append_singleton ds d ih =>
      obtain ⟨hholder, hqueued, hlawful⟩ := ih fun d hd => hds d (List.mem_append_left _ hd)
      have hd := hds d (List.mem_append_right _ (List.mem_singleton_self _))
      rw [← List.append_assoc, holder_concat, queuedPaths_concat]
      cases d <;> first | (cases hd; done) | exact ⟨hholder, hqueued, hlawful.concat trivial⟩
  obtain ⟨hholder, hqueued, hlawful⟩ := hsame
  refine ⟨fun t => ?_, ?_, fun p => ?_, hlawful⟩
  · rw [ht, hholder]
    exact h.holds t
  · rw [hp, hholder]
    exact h.locked
  · rw [hp, hqueued]
    exact h.queued p

lemma holder_eq (h : Guarded c) {self : TaskId} {t : Task} (hs : taskAt c.tasks self = some t)
    (ht : t.holds = true) : holder c.history = some self :=
  (h.holds self).1 (by rw [holdsAt_of_taskAt hs, ht])

lemma holder_ne (h : Guarded c) {self : TaskId} {t : Task} (hs : taskAt c.tasks self = some t)
    (ht : t.holds = false) : holder c.history ≠ some self := fun heq => by
  have hheld := (h.holds self).2 heq
  rw [holdsAt_of_taskAt hs, ht] at hheld
  cases hheld

/-- Once the holder has given the lock back nobody has it. -/
lemma holds_none (h : Guarded c) {self t : TaskId} (hheld : holder c.history = some self) :
    (if self = t then false else holdsAt c.tasks t) = false := by
  split
  · rfl
  · rename_i hne
    refine Bool.eq_false_iff.2 fun ht => hne ?_
    rw [(h.holds t).1 ht] at hheld
    exact (Option.some.inj hheld).symm

theorem change (h : Guarded c) (hc : Change cfg c c') : Guarded c' := by
  cases hc with
  | quiet hs q =>
    exact h.frame (List.append_nil _).symm (by simp) rfl fun t =>
      holdsAt_same (taskAt_of_slotAt hs) rfl
  | launches name names now hs ha hb =>
    exact h.frame rfl (by simp [Deed.ofCycle]) rfl fun t =>
      holdsAt_grow (taskAt_of_slotAt hs) rfl (forall_keeperSlots rfl)
  | awaits name names now hs ha hb =>
    refine h.frame rfl (by simp [Deed.ofCycle]) rfl fun t => ?_
    rw [List.append_assoc]
    exact holdsAt_grow (taskAt_of_slotAt hs) rfl (forall_waiterSlots rfl rfl)
  | nests name names hs ha ht hm =>
    exact h.frame rfl (by simp [Deed.ofCycle]) rfl fun t =>
      holdsAt_grow (taskAt_of_slotAt hs) rfl (forall_slot_singleton rfl)
  | misses names entries hs ha ht hm =>
    exact h.frame rfl (by simp [Deed.ofCycle]) rfl fun t =>
      holdsAt_same (taskAt_of_slotAt hs) rfl
  | completes hs ha hr hw hb =>
    refine h.frame rfl (by simp [Deed.ofCycle]) rfl fun t => ?_
    rw [holdsAt_tellReport, holdsAt_gone (holdsAt_of_taskAt (taskAt_of_slotAt hs))]
  | breaks hs hb =>
    refine h.frame rfl (by simp [Deed.ofCycle]) rfl fun t => ?_
    rw [holdsAt_tellBreak, holdsAt_dropped (holdsAt_of_taskAt (taskAt_of_slotAt hs))]
  | fails why now hs hf he =>
    refine h.frame rfl (fun d hd => ?_) rfl fun t => ?_
    · obtain ⟨target, mode, rfl⟩ | rfl | rfl := hf.mem_deeds hd <;> rfl
    · rw [holdsAt_tellBreak, holdsAt_dropped (holdsAt_of_taskAt (taskAt_of_slotAt hs))]
  | settles failed code hw hp he =>
    refine h.frame (List.append_nil _).symm (by simp) rfl fun t => ?_
    rw [holdsAt_mapAt fun t => holds_receive _ _,
      holdsAt_gone (holdsAt_of_taskAt (taskAt_of_slotAt hw))]
  | leaves hs ht =>
    refine h.frame (List.append_nil _).symm (by simp) rfl fun t => ?_
    refine holdsAt_gone (holdsAt_of_taskAt (taskAt_of_slotAt hs) |>.trans ?_)
    rcases ht with ⟨-, p, name, owner, rfl⟩ | ⟨p, rfl⟩ <;> rfl
  | @news p hd hd' hp follows =>
    exact h.frame (ite_concat ..) (by simp +contextual [Deed.ofCycle]) rfl fun t => rfl
  | @locks self t t' hs ht ht' hl =>
    have hfree : holder c.history = none := by simpa [hl] using h.locked.symm
    have hnone (t : TaskId) : holdsAt c.tasks t = false :=
      Bool.eq_false_iff.2 fun ht => by simpa [hfree] using (h.holds t).1 ht
    refine ⟨fun t' => ?_, by rw [holder_concat]; rfl,
      fun p => by rw [queuedPaths_concat]; exact h.queued p, h.lawful.concat hfree⟩
    rw [holdsAt_put (taskAt_of_slotAt hs), hnone, holds_of_cycle ht']
    simp [Cycle.holdsLock]
  | @refused self t ts os hs ht hl hcl =>
    -- the task had not got the lock, so its return gives nothing back
    have hself := taskAt_of_slotAt hs
    have hk : t.holds = false := holds_of_cycle ht
    refine ⟨fun t' => ?_, by simpa using h.locked, fun p => by simpa using h.queued p,
      h.lawful.concat (h.holder_ne hself hk)⟩
    rw [holdsAt_closes hself hcl, holder_concat, ← h.holds t']
    split
    · subst t'
      rw [holdsAt_of_taskAt hself, hk]
    · rfl
  | @drains self t t' hs ht ht' =>
    have hself := taskAt_of_slotAt hs
    have hk : t.holds = true := holds_of_cycle ht
    have hk' : t'.holds = true := by
      rcases ht' with ht' | ht' <;> exact holds_of_cycle ht'
    refine ⟨fun t' => ?_, by simpa using h.locked, fun p => by simp [Watch.Pending.toList],
      h.lawful.concat ⟨h.holder_eq hself hk, h.queued⟩⟩
    rw [holdsAt_same hself (hk'.trans hk.symm), holder_concat]
    exact h.holds t'
  | triggers chain vars hs ht =>
    exact h.frame rfl (by simp [Deed.ofCycle]) rfl fun t =>
      holdsAt_append (forall_slot_singleton rfl)
  | @cycles self t t' k k' hs ht ht' hk =>
    refine h.frame (List.append_nil _).symm (by simp) rfl fun t =>
      holdsAt_same (taskAt_of_slotAt hs) ?_
    rw [holds_of_cycle ht, holds_of_cycle ht', hk.1, hk.2.1]
  | @releases self t r ts os hs ht hcl =>
    -- two deeds, one after the other: the lock is given back, then the cycle returns
    have hself := taskAt_of_slotAt hs
    have hheld := h.holder_eq hself (holds_of_cycle ht)
    have hlawful : Lawful (c.history ++ [.unlocked self] ++ [.returned self]) :=
      (h.lawful.concat (d := .unlocked self) hheld).concat (by simp [Deed.allowed])
    rw [List.append_cons]
    refine ⟨fun t' => ?_, by rw [holder_concat, holder_concat]; rfl,
      fun p => by rw [queuedPaths_concat, queuedPaths_concat]; exact h.queued p, hlawful⟩
    rw [holdsAt_closes hself hcl, h.holds_none hheld, holder_concat, holder_concat]
    simp
  | droppedRun hs =>
    exact h.frame (List.append_nil _).symm (by simp) rfl fun t =>
      holdsAt_dropped (holdsAt_of_taskAt (taskAt_of_slotAt hs))
  | @droppedCycle self t k hs ht =>
    have hself := taskAt_of_slotAt hs
    have hk := holds_of_cycle ht
    cases hl : k.holdsLock with
    | false =>
      exact h.frame (List.append_nil _).symm (by simp) rfl fun t' =>
        holdsAt_dropped (by rw [holdsAt_of_taskAt hself, hk, hl])
    | true =>
      -- a cycle that is dropped with the lock gives it back
      have hheld := h.holder_eq hself (hk.trans hl)
      simp only [if_true]
      refine ⟨fun t' => ?_, by rw [holder_concat]; rfl,
        fun p => by rw [queuedPaths_concat]; exact h.queued p,
        h.lawful.concat (d := .unlocked self) hheld⟩
      rw [holdsAt_set_none, holdsAt_cancelAt, h.holds_none hheld, holder_concat]
      simp

theorem request (h : Guarded c) (hc : Request c c') : Guarded c' := by
  cases hc with
  | run chain vars exitOnError label =>
    exact h.frame rfl (by simp [Deed.ofCycle]) rfl fun t =>
      holdsAt_append (forall_slot_singleton rfl)
  | cycles ht =>
    exact h.frame (List.append_nil _).symm (by simp) rfl fun t =>
      holdsAt_append (forall_slot_singleton (holds_of_cycle ht))
  | push path =>
    refine ⟨fun t => ?_, ?_, fun p => ?_, h.lawful.concat trivial⟩
    · rw [holder_concat]
      exact h.holds t
    · rw [holder_concat]
      exact h.locked
    · rw [queuedPaths_concat, Watch.Pending.mem_toList_push, h.queued, List.mem_append,
        List.mem_singleton, or_comm]
  | stop p now => exact h.frame (List.append_nil _).symm (by simp) rfl fun t => rfl
  | cancel id =>
    exact h.frame (List.append_nil _).symm (by simp) rfl fun t => holdsAt_cancelAt _

end Guarded

theorem guarded_stable (cfg : Setting) : Stable cfg Guarded := ⟨Guarded.change, Guarded.request⟩

theorem Reachable.guarded {cfg : Setting} {s : State} (h : Reachable cfg s) : Guarded s.toCore := by
  refine (guarded_stable cfg).reachable ⟨?_, rfl, ?_, ?_⟩ h
  · simp [holdsAt, taskAt, slotAt, holder]
  · intro p
    rfl
  · intro pre d post heq
    simp at heq

/-- **One cycle at a time, and no path lost or taken twice.** Two cycles never have the lock at
once, only the cycle that has it gives it back, and a cycle that has taken it has given it back
when it returns. A pushed path is queued until the first drain, and that drain takes it; for
another drain to take it, it must be pushed again in between. -/
theorem dispatch_protocol {cfg : Setting} {s : State} (hs : Reachable cfg s) :
    (s.pending.locked = true ↔ ∃ (pre post : List Deed) (t : TaskId),
      s.history = pre ++ Deed.locked t :: post ∧ Deed.unlocked t ∉ post) ∧
    (∀ (pre mid post : List Deed) (t t' : TaskId),
      s.history = pre ++ Deed.locked t :: mid ++ Deed.locked t' :: post → Deed.unlocked t ∈ mid) ∧
    (∀ (pre post : List Deed) (t : TaskId), s.history = pre ++ Deed.unlocked t :: post →
      ∃ pre' mid, pre = pre' ++ Deed.locked t :: mid ∧ ∀ t', Deed.unlocked t' ∉ mid) ∧
    (∀ (pre mid post : List Deed) (t : TaskId),
      s.history = pre ++ Deed.locked t :: mid ++ Deed.returned t :: post → Deed.unlocked t ∈ mid) ∧
    (∀ (pre post : List Deed) (path : String), s.history = pre ++ Deed.pushed path :: post →
      (∀ t ps, Deed.drained t ps ∉ post) → Watch.toSlash path ∈ s.pending.toList) ∧
    (∀ (pre mid post : List Deed) (path : String) (t : TaskId) (ps : List String),
      s.history = pre ++ Deed.pushed path :: mid ++ Deed.drained t ps :: post →
        (∀ t ps, Deed.drained t ps ∉ mid) → Watch.toSlash path ∈ ps) ∧
    ∀ (pre mid post : List Deed) (t t' : TaskId) (ps ps' : List String) (p : String),
      s.history = pre ++ Deed.drained t ps :: mid ++ Deed.drained t' ps' :: post →
        p ∈ ps → p ∈ ps' → ∃ path, Watch.toSlash path = p ∧ Deed.pushed path ∈ mid := by
  have h := hs.guarded
  have hkept {pre mid : List Deed} {t : TaskId} (post : List Deed)
      (hH : s.history = pre ++ .locked t :: mid ++ post) (hm : .unlocked t ∉ mid) :
      holder (pre ++ .locked t :: mid) = some t :=
    (hH ▸ h.lawful : Lawful (pre ++ .locked t :: mid ++ post)).of_append.holder_kept hm
  refine ⟨⟨fun hl => ?_, ?_⟩, ?_, ?_, ?_, ?_, ?_, ?_⟩
  · obtain ⟨t, ht⟩ := Option.isSome_iff_exists.1 (h.locked.symm.trans hl)
    obtain ⟨pre, post, hH, hpost⟩ := exists_locked_of_holder ht
    exact ⟨pre, post, t, hH, hpost t⟩
  · rintro ⟨pre, post, t, hH, hpost⟩
    rw [h.locked, hH, hkept [] (by simpa using hH) hpost]
    rfl
  · intro pre mid post t t' hH
    by_contra hm
    have hfree : holder _ = none := h.lawful _ _ _ hH
    rw [hkept _ hH hm] at hfree
    cases hfree
  · intro pre post t hH
    exact exists_locked_of_holder (h.lawful _ _ _ hH)
  · intro pre mid post t hH
    by_contra hm
    exact h.lawful _ _ _ hH (hkept _ hH hm)
  · intro pre post path hH hpost
    rw [h.queued, hH]
    exact mem_queuedPaths_of_pushed hpost
  · intro pre mid post path t ps hH hm
    exact ((h.lawful _ _ _ hH).2 _).2 (mem_queuedPaths_of_pushed hm)
  · intro pre mid post t t' ps ps' p hH _ hp
    exact exists_pushed_of_mem_queuedPaths (((h.lawful _ _ _ hH).2 p).1 hp)

/-- Two ticks at once, with a path in the queue. -/
def State.contended : State :=
  let s : State := ((({} : State).push "src\\a").spawn (.tick "first" .idle)).1
  (s.spawn (.tick "second" .idle)).1.actAll .single [0, 1]

lemma reachable_contended : Reachable .single .contended :=
  (((Reachable.asked .refl (.push "src\\a")).asked (.tick "first")).asked (.tick "second")).evolves
    (evolves_actAll _)

theorem dispatch_protocol_contended :
    State.contended.pending.locked = true ∧ "src/a" ∈ State.contended.pending.toList := by
  have hH : State.contended.history = [.pushed "src\\a", .locked 0, .returned 1] := rfl
  obtain ⟨hlock, -, -, -, hqueued, -, -⟩ := dispatch_protocol reachable_contended
  refine ⟨hlock.2 ⟨[.pushed "src\\a"], [.returned 1], 0, hH, by simp⟩, ?_⟩
  have h := hqueued [] [.locked 0, .returned 1] "src\\a" hH (by simp)
  rwa [show Watch.toSlash "src\\a" = "src/a" from rfl] at h

end ChainRunner.Run
