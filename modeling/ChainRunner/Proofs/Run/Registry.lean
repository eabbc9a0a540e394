import ChainRunner.Proofs.NameMap
import ChainRunner.Run.Names
import Mathlib.Data.List.Nodup

/-!
The registry of display names.

A name is handed out as it is the first time and with a number behind it later, so two requests
get the same name only if somebody asks for a name that ends in such a number.
-/

namespace ChainRunner.Run

/-- What the request number `k` for a name gets. -/
def titleOf (name : String) (k : Nat) : String := if k = 1 then name else s!"{name}#{k}"

/-- The names that are handed out for requests, one after the other. -/
def Names.handOut (ns : Names) : List String → List String
  | [] => []
  | name :: rest => (ns.unique name).1 :: (ns.unique name).2.handOut rest

/-- The registry has seen these requests. -/
def Names.Counts (ns : Names) (asked : List String) : Prop :=
  ∀ name, (NameMap.get? ns name).getD 0 = asked.count name

/-- Requests with their numbers, after those of `before`. -/
def requests (before : List String) : List String → List (String × Nat)
  | [] => []
  | name :: rest => (name, before.count name + 1) :: requests (before ++ [name]) rest

section

variable {ns : Names} {before asked : List String} {name other : String} {k l : Nat}

lemma counts_empty : Names.Counts .empty [] := fun _ => rfl

lemma Names.Counts.unique (h : ns.Counts before) (name : String) :
    (ns.unique name).1 = titleOf name (before.count name + 1) ∧
      (ns.unique name).2.Counts (before ++ [name]) := by
  unfold Names.unique
  rw [h name]
  refine ⟨rfl, fun other => ?_⟩
  rw [NameMap.get?_insert, List.count_append, ← h other]
  by_cases ho : other = name
  · simp [ho, h name]
  · simp [ho, Ne.symm ho]

lemma handOut_eq (h : ns.Counts before) :
    ns.handOut asked = (requests before asked).map fun p => titleOf p.1 p.2 := by
  induction asked generalizing ns before with
  | nil => rfl
  | cons name rest ih =>
    obtain ⟨htitle, hcounts⟩ := h.unique name
    rw [Names.handOut, requests, List.map_cons, ih hcounts, htitle]

/-- One more request gets the next number. -/
lemma handOut_concat (asked : List String) (name : String) :
    Names.handOut .empty (asked ++ [name]) =
      Names.handOut .empty asked ++ [titleOf name (asked.count name + 1)] := by
  have hrequests (before : List String) : requests before (asked ++ [name]) =
      requests before asked ++ [(name, (before ++ asked).count name + 1)] := by
    induction asked generalizing before with
    | nil => simp [requests]
    | cons other rest ih => simp [requests, ih]
  rw [handOut_eq counts_empty, handOut_eq counts_empty, hrequests, List.map_append]
  rfl

lemma mem_requests : (name, k) ∈ requests before asked ↔
    before.count name < k ∧ k ≤ (before ++ asked).count name := by
  induction asked generalizing before with
  | nil =>
    simp only [requests, List.not_mem_nil, List.append_nil, false_iff]
    omega
  | cons other rest ih =>
    rw [requests, List.mem_cons, ih, List.append_assoc, List.singleton_append, Prod.mk.injEq]
    by_cases h : name = other
    · subst h
      simp
      omega
    · simp [h, Ne.symm h]

lemma nodup_requests : (requests before asked).Nodup := by
  induction asked generalizing before with
  | nil => exact .nil
  | cons name rest ih =>
    refine List.nodup_cons.2 ⟨fun h => ?_, ih⟩
    have hlt := (mem_requests.1 h).1
    simp at hlt

/-- Two names with numbers are the same only if they are made of the same. -/
lemma title_inj (h : s!"{name}#{k}" = s!"{other}#{l}") : name = other ∧ k = l := by
  have hdigits (n : Nat) : '#' ∉ Nat.toDigits 10 n := fun hin =>
    absurd (Nat.isDigit_of_mem_toDigits (by decide) (by decide) hin) (by decide)
  have hlist : name.toList ++ '#' :: Nat.toDigits 10 k =
      other.toList ++ '#' :: Nat.toDigits 10 l := by
    have h : name ++ "#" ++ k.repr = other ++ "#" ++ l.repr := h
    have h := congrArg String.toList h
    simp only [String.toList_append, List.append_assoc, Nat.repr_eq_ofList_toDigits,
      String.toList_ofList] at h
    exact h
  have hend (hn : name.toList = other.toList) (hk : Nat.toDigits 10 k = Nat.toDigits 10 l) :
      name = other ∧ k = l := by
    refine ⟨String.toList_inj.1 hn, ?_⟩
    have h := congrArg (fun ds => Nat.ofDigitChars 10 ds 0) hk
    simpa only [Nat.ofDigitChars_ten_toDigits] using h
  -- the last `#` is the one before the number
  rcases List.append_eq_append_iff.1 hlist with
    ⟨_ | ⟨c, as⟩, ho, hk⟩ | ⟨_ | ⟨c, as⟩, hn, hl⟩
  · exact hend (by simpa using ho.symm) (List.cons.inj hk).2
  · exact absurd ((List.cons.inj hk).2 ▸ by simp) (hdigits k)
  · exact hend (by simpa using hn) (List.cons.inj hl).2.symm
  · exact absurd ((List.cons.inj hl).2 ▸ by simp) (hdigits l)

/-- Nobody asks for a name that a later request for another one gets. -/
def Unambiguous (asked : List String) : Prop :=
  ∀ name k, 2 ≤ k → k ≤ asked.count name → s!"{name}#{k}" ∉ asked

theorem nodup_handOut_iff : (Names.handOut .empty asked).Nodup ↔ Unambiguous asked := by
  have hmem {name : String} {k : Nat} :
      (name, k) ∈ requests [] asked ↔ 0 < k ∧ k ≤ asked.count name := by simp [mem_requests]
  rw [handOut_eq counts_empty, List.nodup_map_iff_inj_on nodup_requests]
  constructor
  · intro h name k hk hcount hin
    have hfirst : (s!"{name}#{k}", 1) ∈ requests [] asked :=
      hmem.2 ⟨Nat.one_pos, List.count_pos_iff.2 hin⟩
    have heq := h _ (hmem.2 ⟨by omega, hcount⟩) _ hfirst (by simp [titleOf]; omega)
    have := congrArg Prod.snd heq
    simp only at this
    omega
  · rintro h ⟨name, k⟩ hk ⟨other, l⟩ hl heq
    obtain ⟨hk0, hk⟩ := hmem.1 hk
    obtain ⟨hl0, hl⟩ := hmem.1 hl
    -- a name with a number is not one of those that were asked for
    have hfresh {name other : String} {k : Nat} (hk : 2 ≤ k ∧ k ≤ asked.count name)
        (hl : 0 < asked.count other) : s!"{name}#{k}" ≠ other := by
      rintro rfl
      exact h name k hk.1 hk.2 (List.count_pos_iff.1 hl)
    simp only [titleOf] at heq
    split at heq <;> split at heq
    · simp_all
    · exact absurd heq.symm (hfresh ⟨by omega, hl⟩ (by omega))
    · exact absurd heq (hfresh ⟨by omega, hk⟩ (by omega))
    · obtain ⟨rfl, rfl⟩ := title_inj heq
      rfl

end

end ChainRunner.Run
