import ChainRunner.Execution.Site
import ChainRunner.Proofs.Run.Happens

/-!
Whatever processes do on a site, its session evolves: a site is one way for the tasks to take
turns and for the processes to end.
-/

namespace ChainRunner.Execution.Site

open Relation Run

/-- The session of the site has evolved, and what it is about has stayed. -/
structure Carries (s s' : Site) : Prop where
  setting : s'.setting = s.setting
  evolves : ReflTransGen (Evolves s.setting) s.state s'.state

namespace Carries

variable {s s' s'' : Site}

lemma refl (s : Site) : s.Carries s := ⟨rfl, .refl⟩

lemma trans (h : s.Carries s') (h' : s'.Carries s'') : s.Carries s'' :=
  ⟨h'.setting.trans h.setting, h.evolves.trans (h.setting ▸ h'.evolves)⟩

end Carries

variable (s : Site)

lemma evolves_judge {cfg : Setting} (h : Handle) (st : State) : Evolves cfg st (judge h st) := by
  unfold judge
  split
  · exact .passes st.ready st.now st.clock st.warned true
  · split
    · exact .passes st.ready st.now st.clock _ st.complained
    · exact .passes st.ready st.now st.clock st.warned _

lemma carries_inform (p : ProcessId) (news : List Supervision.News) (killed : Bool) :
    s.Carries (s.inform p news killed) := by
  unfold inform
  split
  · rename_i j h hj hp
    refine ⟨rfl, ?_⟩
    have hfollows := Supervision.follows_run s.state.now j.watch h news
    generalize j.watch.run s.state.now h news = r at hfollows ⊢
    obtain ⟨watch, h', lines⟩ := r
    dsimp only
    have hput : ReflTransGen (Evolves s.setting) s.state
        { s.state.putHandle p h' killed with
          warned := (s.state.putHandle p h' killed).warned || lines.any (·.1) } :=
      .tail (.single (.news killed hp hfollows)) (.passes ..)
    split
    · exact hput.tail (evolves_judge ..)
    · exact hput
  · exact .refl s

/-- Whatever becomes of the disk and the processes, the session stays. -/
lemma carries_of_state {s' : Site} (hs : s'.setting = s.setting) (hst : s'.state = s.state) :
    s.Carries s' := ⟨hs, hst ▸ .refl⟩

lemma carries_goOn (p : ProcessId) : s.Carries (s.goOn p) := by
  unfold goOn
  split
  · exact .refl s
  · rename_i j hj
    refine Carries.trans ?_ (carries_inform _ p _ false)
    exact carries_of_state s rfl rfl

lemma carries_begin (l : Launch) : s.Carries (s.begin l) := by
  unfold begin
  dsimp only
  split
  · refine Carries.trans ?_ (carries_inform _ _ _ false)
    exact carries_of_state s rfl rfl
  · refine Carries.trans ?_ (carries_inform _ _ _ false)
    exact carries_of_state s rfl rfl

/-- To take the request for a kill is no end. -/
lemma putHandle_takeKill {st : State} {p : ProcessId} {h : Handle} (hp : st.table.get? p = some h) :
    st.putHandle p h.takeKill.1 false =
      { st with table := st.table.update p fun _ => h.takeKill.1 } := by
  have hends : h.takeKill.1.hasEnded = st.table.hasEnded p := by
    simp [ProcessTable.hasEnded, hp, Handle.takeKill, Handle.hasEnded]
  unfold State.putHandle
  dsimp only
  rw [hends, Bool.and_not_self]
  rfl

lemma carries_passOn (p : ProcessId) : s.Carries (s.passOn p) := by
  unfold passOn
  split
  · rename_i j h hj hp
    have hput : Evolves s.setting s.state
        { s.state with table := s.state.table.update p fun _ => h.takeKill.1 } := by
      rw [← putHandle_takeKill hp]
      exact .news false hp h.follows_takeKill
    have htold : ReflTransGen (Evolves s.setting) s.state
        { s.state with
          table := s.state.table.update p fun _ => h.takeKill.1
          warned := s.state.warned || h.takeKill.2 } := .tail (.single hput) (.passes ..)
    refine Carries.trans ?_ (carries_inform _ p _ _)
    exact ⟨rfl, htold⟩
  · exact carries_of_state s rfl rfl

lemma carries_round {s' : Site} (h : s.round? = some s') : s.Carries s' := by
  unfold round? at h
  split at h
  · cases h
    exact ⟨rfl, evolves_settle⟩
  · split at h
    · cases h
      exact carries_begin ..
    · split at h
      · cases h
        exact carries_passOn ..
      · obtain ⟨p, -, rfl⟩ := Option.map_eq_some_iff.1 h
        exact carries_goOn ..

lemma carries_roundN (n : Nat) : s.Carries (roundN n s) := by
  induction n generalizing s with
  | zero => exact .refl s
  | succ n ih =>
    unfold roundN
    split
    · exact .refl s
    · exact (carries_round s ‹_›).trans (ih _)

theorem carries_react : s.Carries s.react := carries_roundN ..

theorem carries_passTo (t : Nat) : s.Carries (s.passTo t) := by
  have hnow : Evolves s.setting s.state { s.state with now := max s.state.now t } :=
    .passes s.state.ready _ s.state.clock s.state.warned s.state.complained
  have hpast : ReflTransGen (Evolves s.setting) s.state
      (({ s.state with now := max s.state.now t } : State).passTo (max s.state.now t / 1000)) :=
    .head hnow (evolves_passTo _)
  refine Carries.trans ?_ (carries_react _)
  exact ⟨rfl, hpast⟩

end ChainRunner.Execution.Site
