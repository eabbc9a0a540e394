import ChainRunner.Proofs.Run.Tasks

/-!
The processes of a session: each was started by a run, the history tells which have ended, and a
fatal failure leaves none behind that was up.
-/

namespace ChainRunner.Run

/-- The process has ended, or it was asked to stop. -/
def Core.SpokenTo (c : Core) (p : ProcessId) : Prop :=
  c.table.hasEnded p = true ∨ ∃ time, (p, time) ∈ c.stops

/-- The table of processes agrees with the history. -/
structure Accounted (c : Core) : Prop where
  live : ∀ {p : ProcessId}, p < c.table.handles.length → c.table.hasEnded p = false →
    p ∈ c.table.live
  ended : ∀ {p : ProcessId}, .ended p ∈ c.history ↔
    p < c.table.handles.length ∧ c.table.hasEnded p = true
  started : ∀ {p : ProcessId}, p < c.table.handles.length ↔
    ∃ r k i name, .started r k (.process p i name) ∈ c.history
  stopped : ∀ {pre post : List Deed} {f : TaskId}, c.history = pre ++ .stopped f :: post →
    ∀ {r k p i name}, .started r k (.process p i name) ∈ pre → c.SpokenTo p

/-- Whether a deed is about processes. -/
def Deed.ofProcess : Deed → Bool
  | .started _ _ (.process ..) | .ended _ | .stopped _ => true
  | _ => false

namespace Accounted

variable {cfg : Setting} {c c' : Core} {ds : List Deed} {d : Deed}

/-- Deeds that are not about processes, while the processes stay as they are. -/
lemma frame (h : Accounted c) (hH : c'.history = c.history ++ ds)
    (hds : ∀ d ∈ ds, d.ofProcess = false)
    (hlen : c'.table.handles.length = c.table.handles.length)
    (hend : ∀ p, c'.table.hasEnded p = c.table.hasEnded p)
    (htr : c'.table.tracked = c.table.tracked) (hstops : c.stops ⊆ c'.stops) : Accounted c' := by
  have hmem {e : Deed} (he : e.ofProcess = true) : e ∈ c'.history ↔ e ∈ c.history := by
    rw [hH, List.mem_append]
    exact or_iff_left fun hin => by simp [hds e hin] at he
  refine ⟨fun {p} => ?_, fun {p} => ?_, fun {p} => ?_, fun {pre post f} heq {r k p i name} hp => ?_⟩
  · rw [hlen, hend, ProcessTable.mem_live, htr, hend, ← ProcessTable.mem_live]
    exact h.live
  · rw [hmem rfl, hlen, hend]
    exact h.ended
  · rw [hlen, h.started]
    simp only [hmem (e := .started _ _ (.process p _ _)) rfl]
  · rw [hH] at heq
    obtain ⟨post', heq⟩ := eq_append_cons_of_not_mem heq fun hin => by cases hds _ hin
    refine (h.stopped heq hp).imp (fun he => ?_) fun ⟨time, ht⟩ => ⟨time, hstops ht⟩
    rw [hend]
    exact he

/-- A run starts a process. -/
lemma launch (h : Accounted c) (name : String) (background : Bool) (now : Nat) (r : TaskId)
    (k : Nat) (i : Instance) (display : String)
    (ht : c'.table = c.table.launch { name, background } now) (hs : c'.stops = c.stops)
    (hH : c'.history =
      c.history ++ [.started r k (.process c.table.handles.length i display)]) : Accounted c' := by
  have hlen : c'.table.handles.length = c.table.handles.length + 1 := by
    rw [ht, ProcessTable.length_launch]
  -- only the new process is not as before, and it has not ended
  have hold {p : ProcessId} (hp : p ≠ c.table.handles.length) :
      c'.table.hasEnded p = c.table.hasEnded p := by
    rw [ht, ProcessTable.hasEnded_launch_of_ne _ _ _ hp]
  have hnew : c'.table.hasEnded c.table.handles.length = false := by
    rw [ht, ProcessTable.hasEnded_launch_self _ _ _ rfl]
  refine ⟨fun {p} hp he => ?_, fun {p} => ?_, fun {p} => ?_,
    fun {pre post f} heq {r k p i name} hp => ?_⟩
  · rw [ht, ProcessTable.mem_live_launch _ _ _ _ rfl]
    rcases Nat.lt_or_eq_of_le (Nat.le_of_lt_succ (hlen ▸ hp)) with hlt | heq
    · rw [hold (Nat.ne_of_lt hlt)] at he
      exact .inl (h.live hlt he)
    · exact .inr heq
  · rw [hH, List.mem_append, h.ended, hlen]
    by_cases hp : p = c.table.handles.length
    · subst p
      simp [hnew]
    · rw [hold hp, Nat.lt_succ_iff_lt_or_eq]
      simp [hp]
  · rw [hlen, Nat.lt_succ_iff_lt_or_eq, h.started]
    simp only [hH, List.mem_append, List.mem_singleton, Deed.started.injEq, Member.process.injEq]
    constructor
    · rintro (⟨r', k', i', n', hin⟩ | rfl)
      · exact ⟨r', k', i', n', .inl hin⟩
      · exact ⟨r, k, i, display, .inr ⟨rfl, rfl, rfl, rfl, rfl⟩⟩
    · rintro ⟨r', k', i', n', hin | ⟨-, -, rfl, -, -⟩⟩
      · exact .inl ⟨r', k', i', n', hin⟩
      · exact .inr rfl
  · rw [hH] at heq
    obtain ⟨post', heq⟩ := eq_append_cons_of_not_mem heq (by simp)
    have hlt : p < c.table.handles.length :=
      h.started.2 ⟨_, _, _, _, heq ▸ List.mem_append_left _ hp⟩
    refine (h.stopped heq hp).imp (fun he => ?_) fun ht => hs ▸ ht
    rw [hold (Nat.ne_of_lt hlt)]
    exact he

/-- There is news of a process. -/
lemma news (h : Accounted c) {p : ProcessId} {hd hd' : Handle} (hp : c.table.get? p = some hd)
    (follows : hd.Follows hd') :
    Accounted
      { c with
        table := c.table.update p fun _ => hd'
        history := if hd'.hasEnded && !c.table.hasEnded p then c.history ++ [.ended p]
          else c.history } := by
  have hlt : p < c.table.handles.length := (List.getElem?_eq_some_iff.1 hp).1
  have hself : (c.table.update p fun _ => hd').hasEnded p = hd'.hasEnded :=
    c.table.hasEnded_update_of_lt hlt _
  have hkept (he : c.table.hasEnded p = true) : hd'.hasEnded = true := by
    refine follows.hasEnded ?_
    simpa [ProcessTable.hasEnded, hp] using he
  have hold {q : ProcessId} (hq : p ≠ q) :
      (c.table.update p fun _ => hd').hasEnded q = c.table.hasEnded q :=
    c.table.hasEnded_update_of_ne hq _
  rw [ite_concat]
  refine ⟨fun {q} hq he => ?_, fun {q} => ?_, fun {q} => ?_,
    fun {pre post f} heq {r k q i name} hq => ?_⟩
  · rw [ProcessTable.mem_live, ProcessTable.tracked_update]
    refine ⟨?_, he⟩
    have hbefore : c.table.hasEnded q = false := by
      by_cases hpq : p = q
      · subst q
        refine Bool.eq_false_iff.2 fun ht => ?_
        rw [hself, hkept ht] at he
        cases he
      · rwa [hold hpq] at he
    exact ((c.table.mem_live q).1 (h.live (by simpa using hq) hbefore)).1
  · rw [List.mem_append, h.ended, ProcessTable.length_update]
    by_cases hpq : p = q
    · subst q
      rw [hself]
      cases hn : hd'.hasEnded <;> cases ho : c.table.hasEnded p <;> simp_all
    · rw [hold hpq]
      refine or_iff_left ?_
      split
      · simpa using Ne.symm hpq
      · simp
  · rw [ProcessTable.length_update, h.started]
    simp only [List.mem_append]
    refine exists_congr fun r => exists_congr fun k => exists_congr fun i => ?_
    refine exists_congr fun n => ?_
    refine (or_iff_left ?_).symm
    split <;> simp
  · obtain ⟨post', heq⟩ := eq_append_cons_of_not_mem heq (by split <;> simp)
    refine (h.stopped heq hq).imp (fun he => ?_) id
    by_cases hpq : p = q
    · subst q
      exact hself.trans (hkept he)
    · exact (hold hpq).trans he

/-- A fatal failure asks every process to stop that is up. -/
lemma stop (h : Accounted c) {f : TaskId} (b : Break) (now : Nat)
    (ht : c'.table = c.table.terminateAll fun _ => true)
    (hs : c'.stops = c.stops ++ c.table.live.map fun p => (p, now))
    (hds : ∀ d ∈ ds, d.ofProcess = false)
    (hH : c'.history = c.history ++ (ds ++ [.stopped f, .brokeOff f b])) : Accounted c' := by
  have hlen : c'.table.handles.length = c.table.handles.length := by simp [ht]
  have hend (p : ProcessId) : c'.table.hasEnded p = c.table.hasEnded p := by simp [ht]
  have hmem {e : Deed} (he : e.ofProcess = true) (hne : e ≠ .stopped f) :
      e ∈ c'.history ↔ e ∈ c.history := by
    rw [hH, List.mem_append]
    refine or_iff_left fun hin => ?_
    rcases List.mem_append.1 hin with hin | hin
    · simp [hds e hin] at he
    · simp only [List.mem_cons, List.not_mem_nil, or_false] at hin
      rcases hin with rfl | rfl
      · exact hne rfl
      · cases he
  refine ⟨fun {p} hp he => ?_, fun {p} => ?_, fun {p} => ?_,
    fun {pre post g} heq {r k p i name} hp => ?_⟩
  · rw [ProcessTable.mem_live, ht, ProcessTable.tracked_terminateAll,
      ProcessTable.hasEnded_terminateAll, ← ProcessTable.mem_live]
    exact h.live (hlen ▸ hp) (hend p ▸ he)
  · rw [hmem rfl (by simp), hlen, hend]
    exact h.ended
  · rw [hlen, h.started]
    simp only [hmem (e := .started _ _ (.process p _ _)) rfl (by simp)]
  · have hlt : p < c.table.handles.length := h.started.2
      ⟨r, k, i, name, (hmem rfl (by simp)).1 (heq ▸ List.mem_append_left _ hp)⟩
    unfold Core.SpokenTo
    rw [hend, hs]
    by_cases he : c.table.hasEnded p = true
    · exact .inl he
    · refine .inr ⟨now, List.mem_append_right _ (List.mem_map.2 ⟨p, ?_, rfl⟩)⟩
      exact h.live hlt (by simpa using he)

theorem change (h : Accounted c) (hc : Change cfg c c') : Accounted c' := by
  cases hc with
  | launches name names now hs ha hb => exact h.launch name true now _ _ _ name rfl rfl rfl
  | awaits name names now hs ha hb => exact h.launch name false now _ _ _ name rfl rfl rfl
  | fails why now hs hf he =>
    refine h.stop _ now rfl rfl (fun d hd => ?_) rfl
    obtain ⟨target, mode, rfl⟩ := hf.eq_of_mem hd
    rfl
  | news hp follows => exact h.news hp follows
  | quiet hs q =>
    exact h.frame (List.append_nil _).symm (by simp) rfl (fun _ => rfl) rfl (List.Subset.refl _)
  | settles failed code hw hp he =>
    exact h.frame (List.append_nil _).symm (by simp) rfl (fun _ => rfl) rfl (List.Subset.refl _)
  | leaves hs ht =>
    exact h.frame (List.append_nil _).symm (by simp) rfl (fun _ => rfl) rfl (List.Subset.refl _)
  | cycles hs ht ht' hk =>
    exact h.frame (List.append_nil _).symm (by simp) rfl (fun _ => rfl) rfl (List.Subset.refl _)
  | droppedRun hs =>
    exact h.frame (List.append_nil _).symm (by simp) rfl (fun _ => rfl) rfl (List.Subset.refl _)
  | droppedCycle hs ht =>
    refine h.frame (ite_concat ..) (fun d hd => ?_) rfl (fun _ => rfl) rfl (List.Subset.refl _)
    split at hd
    · cases List.mem_singleton.1 hd
      rfl
    · cases hd
  | nests | misses | completes | breaks | locks | refused | drains | triggers | releases =>
    exact h.frame rfl (by simp [Deed.ofProcess]) rfl (fun _ => rfl) rfl (List.Subset.refl _)

theorem request (h : Accounted c) (hc : Request c c') : Accounted c' := by
  cases hc with
  | run | push =>
    exact h.frame rfl (by simp [Deed.ofProcess]) rfl (fun _ => rfl) rfl (List.Subset.refl _)
  | cycles | cancel =>
    exact h.frame (List.append_nil _).symm (by simp) rfl (fun _ => rfl) rfl (List.Subset.refl _)
  | stop p now =>
    exact h.frame (List.append_nil _).symm (by simp) (by simp) (by simp) rfl
      (List.subset_append_left ..)

end Accounted

theorem accounted_stable (cfg : Setting) : Stable cfg Accounted :=
  ⟨Accounted.change, Accounted.request⟩

lemma accounted_nil : Accounted {} := by refine ⟨?_, ?_, ?_, ?_⟩ <;> simp

theorem Reachable.accounted {cfg : Setting} {s : State} (h : Reachable cfg s) :
    Accounted s.toCore := (accounted_stable cfg).reachable accounted_nil h

end ChainRunner.Run
