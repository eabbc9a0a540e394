import Mathlib.Data.List.TakeWhile
import ChainRunner.Program.Surroundings
import ChainRunner.Proofs.Program.Background
import ChainRunner.Proofs.Text.Offsets

/-!
What can break a program that watches a directory.

Every text is cut between two characters, whatever characters they are. Only an interval of no
length breaks the loop that makes the dispatch cycles, and no check of a manifest rules it out.
-/

namespace ChainRunner

open Text

/-! ### Cuts at byte offsets -/

/-- The directory part of a pattern, cut off at byte offsets. -/
def Watch.literalDir? (pattern : List Char) : Option (List Char) :=
  match findOffset? isMeta pattern with
  | none => some pattern
  | some i => do
    let (stem, _) ← cutAt? pattern i
    match findLastOffset? (· == '/') stem with
    | none => some ['.']
    | some 0 => some ['/']
    | some j => (cutAt? stem j).map Prod.fst

lemma Watch.literalDir?_eq (pattern : String) :
    literalDir? pattern.toList = some (literalDir pattern).toList := by
  unfold literalDir? literalDir
  rw [findOffset?_eq]
  by_cases hmeta : pattern.toList.any isMeta
  · rw [if_pos hmeta, if_pos hmeta]
    set stem := pattern.toList.takeWhile (!isMeta ·)
    have hcut : cutAt? pattern.toList (String.utf8Len stem) =
        some (stem, pattern.toList.dropWhile (!isMeta ·)) :=
      cutAt?_eq_some.2 ⟨List.takeWhile_append_dropWhile.symm, rfl⟩
    simp only [hcut, bind, Option.bind_some]
    cases hdrop : stem.reverse.dropWhile (· != '/') with
    | nil =>
      have hnone : findLastOffset? (· == '/') stem = none :=
        findLastOffset?_eq_none.2 (by simpa using List.dropWhile_eq_nil_iff.1 hdrop)
      rw [hnone]
      rfl
    | cons c dir =>
      -- up to the last slash of the stem, where both cut it
      set after := stem.reverse.takeWhile (· != '/') with hafter
      have hc : c = '/' := by
        have hhead := List.head?_dropWhile_not (· != '/') stem.reverse
        rw [hdrop] at hhead
        simpa using hhead
      have hstem : stem = dir.reverse ++ '/' :: after.reverse := by
        rw [← hc, ← stem.reverse_reverse, ← List.takeWhile_append_dropWhile (l := stem.reverse),
          hdrop, ← hafter]
        simp
      have hlast : findLastOffset? (· == '/') stem = some (String.utf8Len dir.reverse) := by
        rw [hstem]
        refine findLastOffset?_append rfl fun x hx => ?_
        simpa using List.mem_takeWhile_imp (List.mem_reverse.1 hx)
      have hcut : cutAt? stem (String.utf8Len dir.reverse) =
          some (dir.reverse, '/' :: after.reverse) := cutAt?_eq_some.2 ⟨hstem, rfl⟩
      rw [hlast, hc]
      cases dir with
      | nil => rfl
      | cons d dir =>
        have hne : String.utf8Len (d :: dir).reverse ≠ 0 := by
          simp [Nat.ne_of_gt d.utf8Size_pos]
        split
        · cases ‹some _ = none›
        · exact absurd (Option.some.inj ‹_›) hne
        · obtain rfl := Option.some.inj ‹some _ = some _›
          rw [hcut]
          simp
  · rw [if_neg hmeta, if_neg hmeta]

/-- The bytes behind the first one are only looked at if they are whole characters. -/
lemma Watch.slice?_drive_iff {s : List Char} : slice? s 1 3 = some [':', '/'] ↔
    ∃ c rest, s = c :: ':' :: '/' :: rest ∧ c.toNat < 0x80 := by
  rw [slice?_eq_some]
  constructor
  · rintro ⟨l, rest, rfl, hl, -⟩
    match l with
    | [] => cases hl
    | [c] => exact ⟨c, rest, rfl, toNat_lt_iff.2 (by simpa using hl.symm)⟩
    | c :: d :: l =>
      have := c.utf8Size_pos
      have := d.utf8Size_pos
      simp only [String.utf8Len_cons] at hl
      omega
  · rintro ⟨c, rest, rfl, hc⟩
    have hsize : String.utf8Len [c] = 1 := by simp [toNat_lt_iff.1 hc]
    exact ⟨[c], rest, rfl, hsize.symm, by rw [String.utf8Len_append, hsize]; rfl⟩

lemma Watch.startsAtRoot_eq (s : List Char) :
    startsAtRoot s = (s.head? == some '/' || slice? s 1 3 == some [':', '/']) := by
  rw [Bool.eq_iff_iff, Bool.or_eq_true, beq_iff_eq, beq_iff_eq, slice?_drive_iff]
  unfold startsAtRoot
  split
  · simp
  · simp_all
  · rename_i hroot hdrive
    refine iff_of_false Bool.false_ne_true ?_
    rintro (hhead | ⟨c, rest, heq, -⟩)
    · obtain ⟨rest, heq⟩ := List.head?_eq_some_iff.1 hhead
      exact hroot rest heq
    · exact hdrive c rest heq

/-- A command with its first word, cut off at a byte offset, replaced by the path found for it. -/
def Binaries.resolveCommand? (lookup : String → Option String) (command : String) :
    Option String := do
  let body := trimStart command.toList
  let (head, rest) ← cutAt? body ((findOffset? isBlank body).getD (String.utf8Len body))
  return match lookup (String.ofList head) with
    | some path =>
      if path.toList.contains ' ' then "\"" ++ path ++ "\"" ++ String.ofList rest
      else path ++ String.ofList rest
    | none => command

lemma Binaries.resolveCommand?_eq (lookup : String → Option String) (command : String) :
    resolveCommand? lookup command = some (resolveCommand lookup command) := by
  set body := trimStart command.toList with hbody
  have hend : (findOffset? isBlank body).getD (String.utf8Len body) =
      String.utf8Len (body.takeWhile (!isBlank ·)) := by
    rw [findOffset?_eq]
    by_cases h : body.any isBlank
    · rw [if_pos h, Option.getD_some]
    · rw [if_neg h, Option.getD_none, List.takeWhile_eq_self_iff.2 (by simpa using h)]
  have hcut : cutAt? body (String.utf8Len (body.takeWhile (!isBlank ·))) =
      some (body.takeWhile (!isBlank ·), body.dropWhile (!isBlank ·)) :=
    cutAt?_eq_some.2 ⟨List.takeWhile_append_dropWhile.symm, rfl⟩
  simp only [resolveCommand?, ← hbody, hend, hcut, bind, Option.bind_some]
  rfl

namespace Files.Disk

variable {d d' : Disk}

/-! ### What is found on a disk -/

lemma walk_congr (h : d.nodes = d'.nodes) (last : Bool) (hops : Nat) (here : Place)
    (todo : List String) : d.walk last hops here todo = d'.walk last hops here todo := by
  have hnode (p : Place) : d'.node? p = d.node? p := by simp only [node?, h]
  fun_induction d.walk last hops here todo with
  | case1 => rw [walk]
  | case5 _ _ _ _ hdir hskip hup hfind hall =>
    rw [walk, hnode, if_neg hdir, if_neg hskip, if_neg hup, hnode, hfind]
    exact (if_pos hall).symm
  | _ =>
    rw [walk.eq_def d']
    simp_all

lemma find_congr (h : d.nodes = d'.nodes) (cwd : Place) (path : String) :
    d.find cwd path = d'.find cwd path := by
  simp only [find, locate, walk_congr h, node?, h]

lemma view_congr (h : d.nodes = d'.nodes) (cwd : Place) : d.view cwd = d'.view cwd := by
  simp only [view, find_congr h, children, h]

end Files.Disk

namespace Program.Invocation

open Relation Execution Files Run

/-! ### What happens to an invocation -/

/-- One step of an invocation, or something that happens to it: files change, a path is pushed, or
it is interrupted. -/
inductive Lives : Invocation → Invocation → Prop
  | goesOn {v v' : Invocation} (h : GoesOn v v') : Lives v v'
  | disk (v : Invocation) (disk : Disk) : Lives v { v with site := { v.site with disk } }
  | push (v : Invocation) (path : String) :
    Lives v { v with site := { v.site with state := v.site.state.push path } }
  | interrupt (v : Invocation) : Lives v v.interrupt

variable {v v' u : Invocation} {dir : String}

lemma lives_of_goesOn (h : ReflTransGen GoesOn v v') : ReflTransGen Lives v v' :=
  ReflTransGen.mono (fun _ _ => Lives.goesOn) _ _ h

lemma lives_awaitN (p : Invocation → Bool) (n : Nat) : ReflTransGen Lives v (Act.awaitN p n v) := by
  induction n generalizing v with
  | zero => exact .refl
  | succ n ih =>
    unfold Act.awaitN
    split
    · exact .refl
    · exact (lives_of_goesOn (goesOn_passTo _)).trans ih

lemma lives_emptyN (base : Place) (path : String) (p : Invocation → Bool) (n : Nat) :
    ReflTransGen Lives v (Act.emptyN base path p n v) := by
  induction n generalizing v with
  | zero => exact .refl
  | succ n ih =>
    have honce : ReflTransGen Lives v (Act.emptyOnce base path v) := by
      unfold Act.emptyOnce
      split
      · exact .head (.disk _ _) (.single (.goesOn (.looks _)))
      · exact .refl
    unfold Act.emptyN
    dsimp only
    split
    · exact honce.trans (lives_awaitN _ _)
    · exact (honce.trans (lives_awaitN _ _)).trans ih

/-- Whatever is done around an invocation happens to it in such steps. -/
theorem lives_perform (base : Place) (act : Act) : ReflTransGen Lives v (act.perform base v).1 := by
  cases act with
  | await path content => exact lives_awaitN _ _
  | pause ms => exact lives_of_goesOn (goesOn_passTo _)
  | awaitEnd ms => exact lives_of_goesOn (goesOn_passTo _)
  | empty path goal => exact lives_emptyN _ _ _ _
  | interrupt => exact .single (.interrupt v)

/-! ### The look at a run that has succeeded -/

/-- What is to be watched below `dir` can be found. -/
def Found (v : Invocation) (dir : String) : Prop :=
  ∃ root rules, compileWatch v.site.disk v.cwd dir v.site.setting.manifest.observe v.vars =
      .ok (root, rules) ∧
    (v.args.polling → ∃ files, polledFiles v.site.disk rules = .ok files)

/-- The run has succeeded, and now a directory is to be watched that can be. -/
structure AtWatch (v : Invocation) : Prop where
  succeeded : v.Succeeded
  found : ∃ dir, v.args.watch = some dir ∧ v.Found dir

/-- What stays as it is in an invocation. -/
structure Same (v v' : Invocation) : Prop where
  args : v'.args = v.args
  manifest : v'.site.setting.manifest = v.site.setting.manifest

/-- What comes of the attempt to watch what lies below `dir`. -/
inductive Watched (v : Invocation) (dir : String) (v' : Invocation) : Prop
  | failed (hfound : ¬v.Found dir) (h : v'.exit? = some 1)
  | broken (hfound : v.Found dir) (hms : v.site.setting.manifest.settings.watchPollMs = 0)
    (h : v'.exit? = some brokenExit)
  | begun (hfound : v.Found dir) (hms : v.site.setting.manifest.settings.watchPollMs ≠ 0)
    (h : ∃ task scope, v'.phase = .watching task scope)
    (hinterval : v'.site.setting.interval = v.site.setting.manifest.settings.watchPollMs)

lemma found_iff {root : String} {rules : List Watch.Rule}
    (h : compileWatch v.site.disk v.cwd dir v.site.setting.manifest.observe v.vars =
      .ok (root, rules)) : v.Found dir ↔
      (v.args.polling → ∃ files, polledFiles v.site.disk rules = .ok files) := by
  constructor
  · rintro ⟨_, _, h', hfiles⟩
    obtain ⟨rfl, rfl⟩ := Prod.mk.inj (Except.ok.inj (h.symm.trans h'))
    exact hfiles
  · exact fun hfiles => ⟨root, rules, h, hfiles⟩

lemma watched (v : Invocation) (dir : String) :
    Same v (v.watch dir) ∧ Watched v dir (v.watch dir) := by
  cases hcompile : compileWatch v.site.disk v.cwd dir v.site.setting.manifest.observe v.vars with
  | error e =>
    have heq : v.watch dir = v.fail (.watch e) := by simp only [watch, hcompile]
    rw [heq]
    exact ⟨⟨rfl, rfl⟩, .failed (fun ⟨_, _, h, _⟩ => by simp [hcompile] at h) rfl⟩
  | ok found =>
    obtain ⟨root, rules⟩ := found
    -- the warning for a table without rules changes what is written only
    set w := if rules.isEmpty then v.say .warn else v with hw
    have hargs : w.args = v.args := by rw [hw]; split <;> simp
    have hsite : w.site = v.site := by rw [hw]; split <;> simp
    cases hpolled : (if v.args.polling then (polledFiles v.site.disk rules).map some
        else .ok none : Except String (Option (List (String × Place)))) with
    | error e =>
      have heq : v.watch dir = w.fail (.unlisted e) := by
        simp only [watch, hcompile, ← hw, hargs, hsite, hpolled]
      have hfound : ¬v.Found dir := by
        rw [found_iff hcompile]
        intro hfiles
        split at hpolled
        · obtain ⟨files, hfiles⟩ := hfiles ‹_›
          rw [hfiles] at hpolled
          cases hpolled
        · cases hpolled
      rw [heq]
      exact ⟨⟨hargs, congrArg (·.setting.manifest) hsite⟩, .failed hfound rfl⟩
    | ok polled =>
      have hfound : v.Found dir := by
        refine (found_iff hcompile).2 fun hpolling => ?_
        rw [if_pos hpolling] at hpolled
        cases hfiles : polledFiles v.site.disk rules with
        | error e => simp [hfiles, Except.map] at hpolled
        | ok files => exact ⟨files, rfl⟩
      by_cases hms : v.site.setting.manifest.settings.watchPollMs = 0
      · have heq : v.watch dir = { w with phase := .ended brokenExit } := by
          simp only [watch, hcompile, ← hw, hargs, hsite, hpolled, hms, if_true]
        rw [heq]
        exact ⟨⟨hargs, congrArg (·.setting.manifest) hsite⟩, .broken hfound hms rfl⟩
      · obtain ⟨site, task, scope, hsetting, heq⟩ : ∃ site task scope,
            site.setting = { v.site.setting with
              rules, interval := v.site.setting.manifest.settings.watchPollMs } ∧
            v.watch dir = { w with site, phase := .watching task scope } := by
          simp only [watch, hcompile, ← hw, hargs, hsite, hpolled, if_neg hms]
          exact ⟨_, _, _, (Site.carries_react _).setting, rfl⟩
        rw [heq]
        exact ⟨⟨hargs, by simp only [hsetting]⟩,
          .begun hfound hms ⟨task, scope, rfl⟩ (by simp only [hsetting])⟩

/-! ### What no look and no step changes -/

lemma foldl_push_outcomes (ps : List String) (st : State) :
    (ps.foldl State.push st).outcomes = st.outcomes := by
  induction ps generalizing st with
  | nil => rfl
  | cons p ps ih => exact ih _

lemma noteChanges_eq (v : Invocation) : ∃ st disk, v.noteChanges =
    { v with site := { v.site with state := st, disk } } ∧ st.outcomes = v.site.state.outcomes ∧
      disk.nodes = v.site.disk.nodes := by
  unfold noteChanges
  dsimp only
  split
  · exact ⟨_, _, rfl, foldl_push_outcomes _ _, rfl⟩
  · exact ⟨_, _, rfl, rfl, rfl⟩

lemma same_noteChanges (v : Invocation) : v.noteChanges.args = v.args ∧
    v.noteChanges.phase = v.phase ∧ v.noteChanges.site.setting = v.site.setting ∧
      v.noteChanges.site.outcome? mainLabel = v.site.outcome? mainLabel := by
  obtain ⟨st, disk, heq, hout, -⟩ := v.noteChanges_eq
  rw [heq]
  exact ⟨rfl, rfl, rfl, congrArg (List.lookup mainLabel) hout⟩

lemma found_noteChanges : v.noteChanges.Found dir ↔ v.Found dir := by
  obtain ⟨st, disk, heq, -, hnodes⟩ := v.noteChanges_eq
  rw [heq]
  simp only [Found, compileWatch, realPath, polledFiles, Disk.find_congr hnodes,
    Disk.view_congr hnodes]

/-- The phases that a look leads to if it does not begin to watch. -/
inductive Looked (v : Invocation) : Phase → Prop
  | stays : Looked v v.phase
  | lingers (ps : List ProcessId) : Looked v (.lingering ps)
  | ends {n : Nat} (hn : n ≠ brokenExit) : Looked v (.ended n)

lemma looked_leave {w : Invocation} : Looked v w.leave.phase := by
  refine .ends ?_
  split <;> decide

/-- A look begins to watch, or leaves everything but the phase as it is. -/
lemma progress_cases (v : Invocation) :
    (∃ dir, v.Succeeded ∧ v.args.watch = some dir ∧ v.progress = v.noteChanges.watch dir) ∨
      v.progress.args = v.args ∧ v.progress.site.setting = v.site.setting ∧
        Looked v v.progress.phase := by
  obtain ⟨hargs, hphase, hsetting, hout⟩ := v.same_noteChanges
  unfold progress
  dsimp only
  rw [hphase, hout, hargs]
  split
  · rename_i task hrunning
    split
    · exact .inr ⟨hargs, hsetting, .ends (by decide)⟩
    · rename_i report hok
      split
      · rename_i dir hwatch
        exact .inl ⟨dir, ⟨⟨task, hrunning⟩, report, hok⟩, hwatch, rfl⟩
      · split
        · exact .inr ⟨hargs, hsetting, looked_leave⟩
        · exact .inr ⟨by simpa using hargs, by simpa using hsetting, .lingers _⟩
    · exact .inr ⟨hargs, hsetting, hphase ▸ .stays⟩
  · split
    · exact .inr ⟨hargs, hsetting, looked_leave⟩
    · exact .inr ⟨hargs, hsetting, hphase ▸ .stays⟩
  · split
    · exact .inr ⟨hargs, hsetting, looked_leave⟩
    · split
      · exact .inr ⟨by simpa [leave] using hargs, by simpa [leave] using hsetting, looked_leave⟩
      · exact .inr ⟨hargs, hsetting, hphase ▸ .stays⟩
  · exact .inr ⟨hargs, hsetting, hphase ▸ .stays⟩

@[simp] lemma setting_act (s : Site) (f : State → State) : (s.act f).setting = s.setting :=
  (Site.carries_react _).setting

/-- To be interrupted is to close and to look. -/
lemma interrupt_cases (v : Invocation) : v.interrupt = v ∨
    ∃ (w : Invocation) (ps : List ProcessId) (deadline : Nat),
      w.phase = .closing ps deadline ∧ w.args = v.args ∧
      w.site.setting = v.site.setting ∧ v.interrupt = w.progress := by
  unfold interrupt
  dsimp only
  split
  · exact .inr ⟨_, _, _, rfl, by simp, by simp, rfl⟩
  · exact .inr ⟨_, _, _, rfl, by simp, by simp, rfl⟩
  · exact .inr ⟨_, _, _, rfl, by simp, by simp, rfl⟩
  · exact .inl rfl

/-! ### What breaks -/

variable {m : Manifest}

lemma progress_of_ended_eq {n : Nat} (h : v.exit? = some n) : v.progress.exit? = some n := by
  have hphase : v.phase = .ended n := by
    unfold exit? at h
    split at h <;> simp_all
  unfold progress
  dsimp only
  rw [v.same_noteChanges.2.1, hphase]
  simp only [exit?, v.same_noteChanges.2.1, hphase]

lemma AtWatch.progress (h : v.AtWatch) : ∃ dir, v.noteChanges.Found dir ∧
    v.progress = v.noteChanges.watch dir := by
  obtain ⟨⟨⟨task, hphase⟩, report, hout⟩, dir, hdir, hfound⟩ := h
  obtain ⟨hargs, hphase', -, hout'⟩ := v.same_noteChanges
  refine ⟨dir, found_noteChanges.2 hfound, ?_⟩
  unfold Invocation.progress
  dsimp only
  rw [hphase', hout', hargs]
  simp only [hphase, hout, hdir]

/-- A look breaks the program exactly if it would begin to watch with an interval of no length. -/
lemma exit?_progress : v.progress.exit? = some brokenExit ↔ v.exit? = some brokenExit ∨
    v.AtWatch ∧ v.site.setting.manifest.settings.watchPollMs = 0 := by
  have hms : v.noteChanges.site.setting.manifest = v.site.setting.manifest :=
    congrArg Setting.manifest v.same_noteChanges.2.2.1
  constructor
  · intro h
    obtain ⟨dir, hsucceeded, hdir, heq⟩ | ⟨-, -, hlooked⟩ := v.progress_cases
    · rw [heq] at h
      cases (v.noteChanges.watched dir).2 with
      | failed _ hexit => cases hexit.symm.trans h
      | broken hfound hzero =>
        exact .inr ⟨⟨hsucceeded, dir, hdir, found_noteChanges.1 hfound⟩, hms ▸ hzero⟩
      | begun _ _ hphase =>
        obtain ⟨task, scope, hphase⟩ := hphase
        simp [exit?, hphase] at h
    · left
      unfold exit? at h ⊢
      generalize v.progress.phase = phase at h hlooked
      cases hlooked with
      | stays => exact h
      | lingers => cases h
      | ends hn => exact absurd (Option.some.inj h) hn
  · rintro (h | ⟨hat, hzero⟩)
    · exact progress_of_ended_eq h
    · obtain ⟨dir, hfound, heq⟩ := hat.progress
      rw [heq]
      cases (v.noteChanges.watched dir).2 with
      | failed hno => exact absurd hfound hno
      | broken _ _ hexit => exact hexit
      | begun _ hms' => exact absurd (hms ▸ hzero) hms'

/-- The manifest stays, and where dispatch cycles are made there is time between them. -/
structure Sane (m : Manifest) (v : Invocation) : Prop where
  manifest : v.site.setting.manifest = m
  interval : ∀ task scope, v.phase = .watching task scope →
    v.site.setting.interval = m.settings.watchPollMs ∧ m.settings.watchPollMs ≠ 0

lemma Sane.progress (h : Sane m v) : Sane m v.progress := by
  have hsetting := v.same_noteChanges.2.2.1
  obtain ⟨dir, -, -, heq⟩ | ⟨-, hset, hlooked⟩ := v.progress_cases
  · obtain ⟨hsame, hwatched⟩ := v.noteChanges.watched dir
    rw [heq]
    refine ⟨by rw [hsame.manifest, hsetting, h.manifest], fun task scope hphase => ?_⟩
    cases hwatched with
    | failed _ hexit => simp [exit?, hphase] at hexit
    | broken _ _ hexit => simp [exit?, hphase] at hexit
    | begun _ hms _ hinterval =>
      rw [hsetting, h.manifest] at hms hinterval
      exact ⟨hinterval, hms⟩
  · refine ⟨by rw [hset, h.manifest], fun task scope hphase => ?_⟩
    rw [hset]
    generalize hp : v.progress.phase = phase at hlooked hphase
    cases hlooked with
    | stays => exact h.interval task scope hphase
    | lingers => cases hphase
    | ends => cases hphase

lemma Sane.interrupt (h : Sane m v) : Sane m v.interrupt := by
  obtain heq | ⟨w, ps, deadline, hphase, -, hset, heq⟩ := v.interrupt_cases
  · rwa [heq]
  · have hw : Sane m w := ⟨by rw [hset, h.manifest], fun task scope hp => by simp [hphase] at hp⟩
    rw [heq]
    exact hw.progress

lemma Sane.lives (h : Sane m v) (hl : Lives v v') : Sane m v' := by
  cases hl with
  | goesOn hg =>
    cases hg with
    | moves _ hc =>
      exact ⟨by rw [hc.setting, h.manifest], fun task scope hp => by
        rw [hc.setting]
        exact h.interval task scope hp⟩
    | looks => exact h.progress
    | waits => exact ⟨h.manifest, h.interval⟩
  | disk => exact ⟨h.manifest, h.interval⟩
  | push => exact ⟨h.manifest, h.interval⟩
  | interrupt => exact h.interrupt

/-- A step breaks the program only if it is the look that would begin to watch. -/
lemma Lives.exit? (hl : Lives v v') (h : v'.exit? = some brokenExit) :
    v.exit? = some brokenExit ∨ v' = v.progress ∧ v.AtWatch ∧
      v.site.setting.manifest.settings.watchPollMs = 0 := by
  cases hl with
  | goesOn hg =>
    cases hg with
    | moves => exact .inl h
    | looks => exact (exit?_progress.1 h).imp_right fun hat => ⟨rfl, hat⟩
    | waits => exact .inl h
  | disk => exact .inl h
  | push => exact .inl h
  | interrupt =>
    obtain heq | ⟨w, ps, deadline, hphase, -, -, heq⟩ := v.interrupt_cases
    · exact .inl (heq ▸ h)
    · rw [heq, exit?_progress] at h
      obtain h | ⟨hat, -⟩ := h
      · simp [Invocation.exit?, hphase] at h
      · obtain ⟨task, hrunning⟩ := hat.succeeded.running
        cases hphase.symm.trans hrunning

/-- The program is over once and for all. -/
lemma Lives.over {n : Nat} (hl : Lives v v') (h : v.exit? = some n) : v'.exit? = some n := by
  cases hl with
  | goesOn hg =>
    cases hg with
    | moves hopen => cases hopen.symm.trans h
    | looks => exact progress_of_ended_eq h
    | waits => exact h
  | disk => exact h
  | push => exact h
  | interrupt =>
    have heq : v.interrupt = v := by
      unfold Invocation.exit? at h
      unfold Invocation.interrupt
      split at h
      · simp_all
      · cases h
    rwa [heq]

lemma over_all {n : Nat} (hl : ReflTransGen Lives v v') (h : v.exit? = some n) :
    v'.exit? = some n := by
  induction hl with
  | refl => exact h
  | tail _ hl ih => exact hl.over ih

/-- **What breaks a program that watches**: nothing but an interval of no length, and that does
whenever dispatch cycles are to begin. No text is ever cut within a character. -/
theorem broken_iff {d : Disk} {cwd : Place} {args : CommandLine.Arguments} {path : String}
    {binaries : Binaries} (h : ReflTransGen Lives (opening d cwd args path m binaries) v) :
    (v.exit? = some brokenExit ↔ m.settings.watchPollMs = 0 ∧
      ∃ u, ReflTransGen Lives (opening d cwd args path m binaries) u ∧ u.AtWatch ∧
        ReflTransGen Lives u.progress v) ∧
    (∀ task scope, v.phase = .watching task scope →
      v.site.setting.interval = m.settings.watchPollMs ∧ m.settings.watchPollMs ≠ 0) ∧
    (∀ pattern : String, Watch.literalDir? pattern.toList =
      some (Watch.literalDir pattern).toList) ∧
    (∀ path : List Char, Watch.startsAtRoot path =
      (path.head? == some '/' || slice? path 1 3 == some [':', '/'])) ∧
    ∀ lookup command, Binaries.resolveCommand? lookup command =
      some (Binaries.resolveCommand lookup command) := by
  have hsane {u : Invocation} (hu : ReflTransGen Lives (opening d cwd args path m binaries) u) :
      Sane m u := by
    induction hu with
    | refl => exact ⟨rfl, fun task scope hphase => by cases hphase⟩
    | tail _ hl ih => exact ih.lives hl
  refine ⟨⟨fun hexit => ?_, fun ⟨hzero, u, hu, hat, hv⟩ => ?_⟩, (hsane h).interval,
    Watch.literalDir?_eq, Watch.startsAtRoot_eq, Binaries.resolveCommand?_eq⟩
  · induction h with
    | refl => cases hexit
    | tail hu hl ih =>
      obtain hold | ⟨rfl, hat, hzero⟩ := hl.exit? hexit
      · obtain ⟨hzero, w, hw, hat, hrest⟩ := ih hold
        exact ⟨hzero, w, hw, hat, hrest.tail hl⟩
      · exact ⟨(hsane hu).manifest ▸ hzero, _, hu, hat, .refl⟩
  · exact over_all hv (exit?_progress.2 (.inr ⟨hat, by rw [(hsane hu).manifest, hzero]⟩))

/-- Dispatch cycles without any time between them. -/
def restlessDraft : Draft where
  scripts := NameMap.ofList [("a", "true")]
  settings := { watchPollMs := 0 }

lemma checked_restlessDraft : restlessDraft.check = .ok () := by
  have hchains : restlessDraft.checkChains = .ok () := Draft.checkChains_of_edges_eq_nil rfl rfl
  exact hchains

def restless : Manifest := ⟨restlessDraft, checked_restlessDraft⟩

lemma ofDraft_restlessDraft : Manifest.ofDraft restlessDraft = .ok restless := by
  unfold Manifest.ofDraft
  split
  · rfl
  · rename_i h
    cases checked_restlessDraft.symm.trans h

def restlessStart : Invocation :=
  opening {} [] { chain := ["+a"], watch := some "/" } "" restless .empty

/-- The run of `+a` has succeeded, and the root is to be watched. -/
def restlessRun : Invocation :=
  { restlessStart with site := { restlessStart.site with
      state := restlessStart.site.state.actAll { manifest := restless } [0, 0, 0, 0] } }

lemma locate_root : Disk.locate {} [] "/" true = .ok [] := by
  have hnames : Disk.names "/" = ["", ""] := by rfl
  have habs : Path.isAbsolute "/" = true := by decide +kernel
  rw [Disk.locate, hnames, habs]
  simp [Disk.walk, Disk.node?]

lemma atWatch_restlessRun : restlessRun.AtWatch where
  succeeded := ⟨⟨0, rfl⟩, ⟨_, rfl⟩⟩
  found := by
    refine ⟨"/", rfl, "/", [], ?_, fun h => by cases h⟩
    have hroot : Path.join (Place.path []) "/" = "/" := by decide +kernel
    have hfind : Disk.find {} [] "/" = .ok ([], .dir) := by
      simp only [Disk.find, locate_root, bind, Except.bind]
      rfl
    have hreal : realPath {} [] (Path.join (Place.path []) "/") = .ok "/" := by
      simp only [realPath, hroot, hfind]
      rfl
    change compileWatch {} [] "/" .empty restlessStart.vars = _
    simp only [compileWatch, hreal, bind, Except.bind]
    rfl

lemma lives_restlessRun : ReflTransGen Lives restlessStart restlessRun :=
  .single (.goesOn (.moves rfl ⟨rfl, evolves_actAll _⟩))

/-- A manifest that passes every check breaks the program. -/
theorem broken_iff_restless : Manifest.ofDraft restlessDraft = .ok restless ∧
    ReflTransGen Lives restlessStart restlessRun.progress ∧
    restlessRun.progress.exit? = some brokenExit := by
  have hlives : ReflTransGen Lives restlessStart restlessRun.progress :=
    lives_restlessRun.tail (.goesOn (.looks _))
  exact ⟨ofDraft_restlessDraft, hlives,
    (broken_iff hlives).1.2 ⟨rfl, restlessRun, lives_restlessRun, atWatch_restlessRun, .refl⟩⟩

end Program.Invocation

end ChainRunner
