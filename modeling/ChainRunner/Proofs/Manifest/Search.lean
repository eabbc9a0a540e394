import ChainRunner.Proofs.Manifest.References
import Mathlib.Logic.Relation

/-!
The walk along the references lists a name before those it leads to, unless they lead back to it.

A name on the stack is open once it has been discovered, until it is finished. Whatever stands
above an open name can be reached from it, so that an open name met again closes a circle.
-/

namespace ChainRunner.References

open Relation

/-- The name `x` refers to the name `y`. -/
def Leads (next : String → List String) (x y : String) : Prop := y ∈ next x

/-- What holds of a walk over the names `V` at any time. -/
structure Walk (next : String → List String) (V fresh finished stack : List String) : Prop where
  freshNodup : fresh.Nodup
  finishedNodup : finished.Nodup
  disjoint : ∀ {x : String}, x ∈ finished → x ∉ fresh
  within : ∀ {x : String}, x ∈ finished ∨ x ∈ stack → x ∈ V
  discovered : ∀ {x : String}, x ∈ V → x ∉ fresh → x ∈ finished ∨ x ∈ stack
  above : ∀ {pre post : List String} {x y : String}, stack = pre ++ x :: post → x ∉ pre →
    x ∉ fresh → x ∉ finished → y ∈ pre → ReflTransGen (Leads next) x y
  below : ∀ {pre post : List String} {x y : String}, stack = pre ++ x :: post → x ∉ pre →
    x ∉ fresh → x ∉ finished → y ∈ next x → y ∈ fresh → y ∈ pre
  after : ∀ {pre post : List String} {x y : String}, finished = pre ++ x :: post → y ∈ next x →
    y ∈ post ∨ ReflTransGen (Leads next) y x

namespace Walk

variable {next : String → List String} {V fresh finished stack rest : List String} {x y : String}

/-- Where an open name stands below the top of the stack. -/
lemma split_cons {pre post : List String} {z : String} (h : x :: rest = pre ++ z :: post)
    (hne : z ≠ x) : ∃ pre', pre = x :: pre' ∧ rest = pre' ++ z :: post := by
  cases pre with
  | nil => exact absurd (List.cons.inj h).1.symm hne
  | cons a pre' =>
    obtain ⟨rfl, hrest⟩ := List.cons.inj h
    exact ⟨pre', rfl, hrest⟩

/-- Where an open name stands once names that are not open were put above the top `x`: it is the
top that was, or stands below it. -/
lemma split_append {new pre post : List String} {z : String}
    (h : new ++ x :: rest = pre ++ z :: post) (hx : x ∉ new) (hnew : z ∉ new) (hpre : z ∉ pre) :
    (z = x ∧ pre = new) ∨
      z ≠ x ∧ ∃ pre', pre = new ++ x :: pre' ∧ x :: rest = x :: pre' ++ z :: post := by
  rcases List.append_eq_append_iff.1 h with ⟨as, rfl, has⟩ | ⟨bs, rfl, hbs⟩
  · by_cases hzx : z = x
    · subst hzx
      cases as with
      | nil => exact .inl ⟨rfl, List.append_nil _⟩
      | cons a as =>
        obtain ⟨rfl, -⟩ := List.cons.inj has
        exact absurd (List.mem_append_right _ List.mem_cons_self) hpre
    · obtain ⟨pre', rfl, hrest⟩ := split_cons has hzx
      exact .inr ⟨hzx, pre', rfl, by rw [hrest]; rfl⟩
  · cases bs with
    | nil =>
      obtain ⟨rfl, -⟩ := List.cons.inj hbs
      exact .inl ⟨rfl, (List.append_nil _).symm⟩
    | cons b bs =>
      obtain ⟨rfl, -⟩ := List.cons.inj hbs
      exact absurd (List.mem_append_right _ List.mem_cons_self) hnew

/-- The top of the stack is discovered, and what it leads to is put above it. -/
lemma discover (h : Walk next V fresh finished (x :: rest)) (hV : ∀ y ∈ next x, y ∈ V)
    (hx : x ∈ fresh) :
    Walk next V (fresh.erase x) finished
      (((next x).filter (· ∈ fresh.erase x)).reverse ++ x :: rest) := by
  have hself : x ∉ fresh.erase x := fun hin => (h.freshNodup.mem_erase_iff.1 hin).1 rfl
  have hold {z : String} (hz : z ∉ fresh.erase x) (hne : z ≠ x) : z ∉ fresh :=
    fun hin => hz (h.freshNodup.mem_erase_iff.2 ⟨hne, hin⟩)
  have hmem {z : String} : z ∈ ((next x).filter (· ∈ fresh.erase x)).reverse ↔
      z ∈ next x ∧ z ∈ fresh.erase x := by simp
  -- what was put on the stack is not discovered yet
  have hopen {pre post : List String} {z : String}
      (heq : ((next x).filter (· ∈ fresh.erase x)).reverse ++ x :: rest = pre ++ z :: post)
      (hz : z ∉ pre) (hfresh : z ∉ fresh.erase x) :=
    split_append heq (fun hin => hself (hmem.1 hin).2) (fun hin => hfresh (hmem.1 hin).2) hz
  refine
    { freshNodup := h.freshNodup.erase x
      finishedNodup := h.finishedNodup
      disjoint := fun hz hin => h.disjoint hz (List.mem_of_mem_erase hin)
      within := ?_, discovered := ?_, above := ?_, below := ?_, after := h.after }
  · rintro z (hz | hz)
    · exact h.within (.inl hz)
    · rcases List.mem_append.1 hz with hz | hz
      · exact hV z (hmem.1 hz).1
      · exact h.within (.inr hz)
  · intro z hz hfresh
    by_cases hzx : z = x
    · exact .inr (List.mem_append_right _ (hzx ▸ List.mem_cons_self))
    · exact (h.discovered hz (hold hfresh hzx)).imp_right (List.mem_append_right _)
  · intro pre post z y heq hz hfresh hfin hy
    rcases hopen heq hz hfresh with ⟨rfl, rfl⟩ | ⟨hzx, pre', rfl, heq'⟩
    · exact .single (hmem.1 hy).1
    · have hz' : z ∉ x :: pre' := fun hin => hz (List.mem_append_right _ hin)
      have hreach {w : String} (hw : w ∈ x :: pre') : ReflTransGen (Leads next) z w :=
        h.above heq' hz' (hold hfresh hzx) hfin hw
      rcases List.mem_append.1 hy with hy | hy
      · exact (hreach List.mem_cons_self).tail (hmem.1 hy).1
      · exact hreach hy
  · intro pre post z y heq hz hfresh hfin hy hyf
    rcases hopen heq hz hfresh with ⟨rfl, rfl⟩ | ⟨hzx, pre', rfl, heq'⟩
    · exact hmem.2 ⟨hy, hyf⟩
    · have hz' : z ∉ x :: pre' := fun hin => hz (List.mem_append_right _ hin)
      exact List.mem_append_right _
        (h.below heq' hz' (hold hfresh hzx) hfin hy (List.mem_of_mem_erase hyf))

/-- The top of the stack is taken off when nothing it leads to is left to discover. -/
lemma leave (h : Walk next V fresh finished (x :: rest)) (hV : ∀ y ∈ next x, y ∈ V)
    (hx : x ∉ fresh) :
    Walk next V fresh (if x ∈ finished then finished else x :: finished) rest := by
  have hfin {z : String} :
      z ∈ (if x ∈ finished then finished else x :: finished) ↔ z = x ∨ z ∈ finished := by
    split
    · rename_i hin
      exact ⟨.inr, fun hz => hz.elim (fun heq => heq ▸ hin) id⟩
    · exact List.mem_cons
  refine
    { freshNodup := h.freshNodup
      finishedNodup := ?_, disjoint := ?_, within := ?_, discovered := ?_, above := ?_
      below := ?_, after := ?_ }
  · split
    · exact h.finishedNodup
    · exact List.nodup_cons.2 ⟨‹_›, h.finishedNodup⟩
  · intro z hz
    rcases hfin.1 hz with rfl | hz
    · exact hx
    · exact h.disjoint hz
  · rintro z (hz | hz)
    · rcases hfin.1 hz with rfl | hz
      · exact h.within (.inr List.mem_cons_self)
      · exact h.within (.inl hz)
    · exact h.within (.inr (List.mem_cons_of_mem _ hz))
  · intro z hz hfresh
    rcases h.discovered hz hfresh with hz | hz
    · exact .inl (hfin.2 (.inr hz))
    · exact (List.mem_cons.1 hz).imp (fun heq => hfin.2 (.inl heq)) id
  · intro pre post z y heq hz hfresh hn hy
    obtain ⟨hne, hn⟩ := not_or.1 (mt hfin.2 hn)
    have heq' : x :: rest = (x :: pre) ++ z :: post := by rw [heq]; rfl
    exact h.above heq' (by simp [hne, hz]) hfresh hn (List.mem_cons_of_mem _ hy)
  · intro pre post z y heq hz hfresh hn hy hyf
    obtain ⟨hne, hn⟩ := not_or.1 (mt hfin.2 hn)
    have heq' : x :: rest = (x :: pre) ++ z :: post := by rw [heq]; rfl
    refine (List.mem_cons.1 (h.below heq' (by simp [hne, hz]) hfresh hn hy hyf)).resolve_left ?_
    rintro rfl
    exact hx hyf
  · intro pre post z y heq hy
    by_cases hxf : x ∈ finished
    · rw [if_pos hxf] at heq
      exact h.after heq hy
    · rw [if_neg hxf] at heq
      cases pre with
      | cons a pre => exact h.after (List.cons.inj heq).2 hy
      | nil =>
        obtain ⟨rfl, rfl⟩ := List.cons.inj heq
        have hyfresh : y ∉ fresh := fun hyf =>
          List.not_mem_nil (h.below (List.nil_append _).symm List.not_mem_nil hx hxf hy hyf)
        by_cases hyfin : y ∈ finished
        · exact .inl hyfin
        · -- what is neither fresh nor finished is open, and stands below `x`
          refine .inr ?_
          by_cases hyx : y = x
          · exact hyx ▸ .refl
          · obtain hyin | hyin := h.discovered (hV y hy) hyfresh
            · exact absurd hyin hyfin
            · obtain ⟨as, bs, has, hyas⟩ := List.eq_append_cons_of_mem hyin
              obtain ⟨as', rfl, -⟩ := split_cons has hyx
              exact h.above has hyas hyfresh hyfin List.mem_cons_self

/-- A walk that is over has finished what it has discovered, and can begin anew. -/
lemma begin (h : Walk next V fresh finished []) (hx : x ∈ fresh) (hxV : x ∈ V) :
    Walk next V fresh finished [x] := by
  have hself {pre post : List String} {z : String} (heq : [x] = pre ++ z :: post)
      (hz : z ∉ fresh) : False := by
    have hin : z ∈ [x] := heq ▸ List.mem_append_right _ List.mem_cons_self
    exact hz (List.mem_singleton.1 hin ▸ hx)
  refine { h with within := ?_, discovered := ?_, above := ?_, below := ?_ }
  · rintro z (hz | hz)
    · exact h.within (.inl hz)
    · exact List.mem_singleton.1 hz ▸ hxV
  · exact fun hz hfresh => (h.discovered hz hfresh).imp_right fun hn => absurd hn List.not_mem_nil
  · exact fun heq _ hz => (hself heq hz).elim
  · exact fun heq _ hz => (hself heq hz).elim

/-- The walk comes to an end, and nothing that stood on the stack is left to discover. -/
theorem visit (hV : ∀ x ∈ V, ∀ y ∈ next x, y ∈ V) (h : Walk next V fresh finished stack) :
    Walk next V (visit next fresh finished stack).fresh (visit next fresh finished stack).finished
        [] ∧
      ∀ y ∈ (References.visit next fresh finished stack).fresh, y ∈ fresh ∧ y ∉ stack := by
  fun_induction References.visit next fresh finished stack with
  | case1 fresh finished => exact ⟨h, fun y hy => ⟨hy, List.not_mem_nil⟩⟩
  | case2 fresh finished x rest hx fresh' ih =>
    obtain ⟨hwalk, hleft⟩ := ih (h.discover (hV x (h.within (.inr List.mem_cons_self))) hx)
    refine ⟨hwalk, fun y hy => ?_⟩
    obtain ⟨hyf, hys⟩ := hleft y hy
    exact ⟨List.mem_of_mem_erase hyf, fun hin => hys (List.mem_append_right _ hin)⟩
  | case3 fresh finished x rest hx ih =>
    obtain ⟨hwalk, hleft⟩ := ih (h.leave (hV x (h.within (.inr List.mem_cons_self))) hx)
    refine ⟨hwalk, fun y hy => ?_⟩
    obtain ⟨hyf, hyr⟩ := hleft y hy
    exact ⟨hyf, fun hin => (List.mem_cons.1 hin).elim (fun heq => hx (heq ▸ hyf)) hyr⟩

end Walk

/-! ### The order -/

/-- The names are listed once each, and each stands before those it leads to, unless they lead
back to it. -/
structure Sorts (next : String → List String) (V order : List String) : Prop where
  nodup : order.Nodup
  mem_iff : ∀ {x : String}, x ∈ order ↔ x ∈ V
  after : ∀ {pre post : List String} {x y : String}, order = pre ++ x :: post → y ∈ next x →
    y ∈ post ∨ ReflTransGen (Leads next) y x

section

variable {next : String → List String} {V : List String}

lemma walk_start (hV : V.Nodup) : Walk next V V [] [] where
  freshNodup := hV
  finishedNodup := .nil
  disjoint h := absurd h List.not_mem_nil
  within h := by simp at h
  discovered hx hn := absurd hx hn
  above heq := by simp at heq
  below heq := by simp at heq
  after heq := by simp at heq

/-- After the walks from some names none of these is left to discover. -/
lemma walk_fold (hV : ∀ x ∈ V, ∀ y ∈ next x, y ∈ V) {xs : List String} (hxs : ∀ x ∈ xs, x ∈ V)
    (st : Search) (h : Walk next V st.fresh st.finished []) :
    let st' := xs.foldl
      (fun st x => if x ∈ st.fresh then visit next st.fresh st.finished [x] else st) st
    Walk next V st'.fresh st'.finished [] ∧ ∀ y ∈ st'.fresh, y ∈ st.fresh ∧ y ∉ xs := by
  -- one name after the other: the stack is empty in between, so each walk begins anew
  induction xs generalizing st with
  | nil => exact ⟨h, fun y hy => ⟨hy, List.not_mem_nil⟩⟩
  | cons x xs ih =>
    have hrest : ∀ x ∈ xs, x ∈ V := fun y hy => hxs y (List.mem_cons_of_mem _ hy)
    rw [List.foldl_cons]
    split
    · rename_i hx
      obtain ⟨hwalk, hleft⟩ := (h.begin hx (hxs x List.mem_cons_self)).visit hV
      obtain ⟨hwalk', hleft'⟩ := ih hrest _ hwalk
      refine ⟨hwalk', fun y hy => ?_⟩
      obtain ⟨hy, hyxs⟩ := hleft' y hy
      obtain ⟨hyf, hyx⟩ := hleft y hy
      exact ⟨hyf, by simp_all⟩
    · rename_i hx
      obtain ⟨hwalk, hleft⟩ := ih hrest st h
      refine ⟨hwalk, fun y hy => ?_⟩
      obtain ⟨hy, hyxs⟩ := hleft y hy
      refine ⟨hy, fun hin => ?_⟩
      rcases List.mem_cons.1 hin with rfl | hin
      · exact hx hy
      · exact hyxs hin

/-- References lead from names to names. -/
structure Closed (g : References) : Prop where
  nodup : g.names.Nodup
  mem : ∀ {x y : String}, (x, y) ∈ g.edges → x ∈ g.names ∧ y ∈ g.names

variable {g : References}

@[simp] lemma mem_successors {x y : String} : y ∈ g.successors x ↔ (x, y) ∈ g.edges := by
  simp [successors]

@[simp] lemma mem_predecessors {x y : String} : y ∈ g.predecessors x ↔ (y, x) ∈ g.edges := by
  simp [predecessors]

theorem sorts_order (hg : g.Closed) : Sorts g.successors g.names g.order := by
  have hV (x : String) (_ : x ∈ g.names) (y : String) (hy : y ∈ g.successors x) : y ∈ g.names :=
    (hg.mem (mem_successors.1 hy)).2
  obtain ⟨hwalk, hleft⟩ := walk_fold hV (fun x hx => hx) ⟨g.names, []⟩ (walk_start hg.nodup)
  refine ⟨hwalk.finishedNodup, ⟨fun hx => hwalk.within (.inl hx), fun hx => ?_⟩, hwalk.after⟩
  exact (hwalk.discovered hx fun hfresh => (hleft _ hfresh).2 hx).resolve_right List.not_mem_nil

end

end ChainRunner.References
