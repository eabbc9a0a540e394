import ChainRunner.Binaries
import ChainRunner.Proofs.Shell.Quoting

/-!
What the shell reads of a command whose first word was replaced by a path.

Only a space makes the path stand in quotes, and nothing in it is escaped. So the shell reads the
path itself if there is no space and no special character in it, or if there is a space and nothing
that double quotes let through.
-/

namespace ChainRunner.Binaries

open Shell Shell.Quoting Text

variable {lookup : String → Option String} {command path : String} {head rest : List Char}

/-! ### The first word -/

/-- A text with its first word and what stands behind it, as blanks divide them. -/
structure Splits (s head rest : List Char) : Prop where
  eq : trimStart s = head ++ rest
  solid : ∀ c ∈ head, ¬ isBlank c
  stops : ∀ c ∈ rest.head?, isBlank c

instance (s head rest : List Char) : Decidable (Splits s head rest) :=
  decidable_of_iff
    (trimStart s = head ++ rest ∧ head.all (!isBlank ·) ∧ rest.head?.all isBlank)
    ⟨fun h => ⟨h.1, by simpa using h.2.1, by simpa [Option.all_eq_true] using h.2.2⟩,
      fun h => ⟨h.eq, by simpa using h.solid, by simpa [Option.all_eq_true] using h.stops⟩⟩

lemma exists_splits (s : List Char) : ∃ head rest, Splits s head rest := by
  refine ⟨(trimStart s).takeWhile (!isBlank ·), (trimStart s).dropWhile (!isBlank ·),
    List.takeWhile_append_dropWhile.symm, fun c hc => ?_, fun c hc => ?_⟩
  · simpa using List.mem_takeWhile_imp hc
  · rw [← List.find?_eq_head?_dropWhile_not] at hc
    exact List.find?_some hc

lemma Splits.takeWhile_eq {s : List Char} (h : Splits s head rest) :
    (trimStart s).takeWhile (!isBlank ·) = head := by
  have hrest : rest.takeWhile (!isBlank ·) = [] := by
    cases rest with
    | nil => rfl
    | cons c rest => simp [h.stops c rfl]
  rw [h.eq, List.takeWhile_append_of_pos (by simpa using h.solid), hrest, List.append_nil]

lemma Splits.dropWhile_eq {s : List Char} (h : Splits s head rest) :
    (trimStart s).dropWhile (!isBlank ·) = rest := by
  rw [h.eq, List.dropWhile_append_of_pos (by simpa using h.solid)]
  cases rest with
  | nil => rfl
  | cons c rest => simp [h.stops c rfl]

lemma resolveCommand_of_none (h : Splits command.toList head rest)
    (hnone : lookup (String.ofList head) = none) : resolveCommand lookup command = command := by
  simp only [resolveCommand, h.takeWhile_eq, hnone]

lemma resolveCommand_of_some (h : Splits command.toList head rest)
    (hsome : lookup (String.ofList head) = some path) : (resolveCommand lookup command).toList =
      if ' ' ∈ path.toList then '"' :: (path.toList ++ '"' :: rest) else path.toList ++ rest := by
  simp only [resolveCommand, h.takeWhile_eq, h.dropWhile_eq, hsome, List.contains_iff_mem]
  split <;> simp

/-! ### What is read -/

/-- The path is read as it is where it is put. -/
def Survives (path : List Char) : Prop := if ' ' ∈ path then isInert path = true else IsPlain path

instance (path : List Char) : Decidable (Survives path) :=
  inferInstanceAs (Decidable (if ' ' ∈ path then isInert path = true else IsPlain path))

lemma firstWord_resolveCommand (h : Splits command.toList head rest)
    (hsome : lookup (String.ofList head) = some path) :
    firstWord (resolveCommand lookup command).toList = some (path.toList, rest) ↔
      Survives path.toList ∧ Ends rest := by
  rw [resolveCommand_of_some h hsome, Survives]
  split
  · exact firstWord_quoted_iff
  · exact firstWord_iff

/-- **What is started is the path, if the shell reads it.** A command is not changed if its first
word has no path. If it has one, the shell reads this path as the first word of the new command and
leaves what stood behind the old one exactly if the path survives and the shell ends a word where
the first one ended: a path in quotes may have no character that is read there, one without quotes
none that is read anywhere. Then the command starts with a word that gives nothing but the path. -/
theorem resolveCommand_reads (lookup : String → Option String) (command : String) :
    (∃ head rest, Splits command.toList head rest) ∧
    ∀ head rest, Splits command.toList head rest →
      (lookup (String.ofList head) = none → resolveCommand lookup command = command) ∧
      ∀ path, lookup (String.ofList head) = some path →
        (firstWord (resolveCommand lookup command).toList = some (path.toList, rest) ↔
          Survives path.toList ∧ Ends rest) ∧
        (Survives path.toList ∧ Ends rest → ∃ w,
          tokens (resolveCommand lookup command) = .word w :: tokens (String.ofList rest) ∧
          ∀ s : State, s.fields w = [path]) := by
  refine ⟨exists_splits _, fun head rest h => ⟨resolveCommand_of_none h, fun path hsome => ?_⟩⟩
  have hiff := firstWord_resolveCommand h hsome
  refine ⟨hiff, fun hsurvives => ?_⟩
  obtain ⟨w, hlexed, hfields⟩ := lexed_of_firstWord (hiff.2 hsurvives)
  rw [← tokens_ofList, ← tokens_ofList, String.ofList_toList] at hlexed
  exact ⟨w, hlexed, fun s => by rw [hfields, String.ofList_toList]⟩

/-- Two tools that lie in directories with unusual names. -/
def tools (h : String) : Option String :=
  if h = "tool" then some "lib$1/tool" else if h = "tsc" then some "/it's my lib/tsc" else none

/-- Without a space the shell puts a parameter into the path; with one an apostrophe is harmless. -/
theorem resolveCommand_reads_parameter :
    firstWord (resolveCommand tools "tool x").toList ≠ some ("lib$1/tool".toList, " x".toList) ∧
    firstWord (resolveCommand tools " tsc -p src").toList =
      some ("/it's my lib/tsc".toList, " -p src".toList) ∧
    (∃ w, tokens (resolveCommand tools " tsc -p src") = .word w :: tokens " -p src" ∧
      ∀ s : State, s.fields w = ["/it's my lib/tsc"]) ∧
    resolveCommand tools "echo tsc" = "echo tsc" := by
  have htool : Splits "tool x".toList "tool".toList " x".toList := by decide +kernel
  have htsc : Splits " tsc -p src".toList "tsc".toList " -p src".toList := by decide +kernel
  have hecho : Splits "echo tsc".toList "echo".toList " tsc".toList := by decide +kernel
  have hplain := (((resolveCommand_reads tools "tool x").2 _ _ htool).2 "lib$1/tool"
    (by decide +kernel)).1
  have hquoted := ((resolveCommand_reads tools " tsc -p src").2 _ _ htsc).2 "/it's my lib/tsc"
    (by decide +kernel)
  have hsurvives : Survives "/it's my lib/tsc".toList ∧ Ends " -p src".toList := by decide +kernel
  refine ⟨fun h => ?_, hquoted.1.2 hsurvives, hquoted.2 hsurvives, ?_⟩
  · have hno : ¬ Survives "lib$1/tool".toList := by decide +kernel
    exact hno (hplain.1 h).1
  · exact ((resolveCommand_reads tools "echo tsc").2 _ _ hecho).1 (by decide +kernel)

end ChainRunner.Binaries
