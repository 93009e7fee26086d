import Aezeed.Batch

/-!
# Runs of the batch driver

What whole runs of `seedrecover_batch.py` do, alone and one after another on one progress file,
by induction over the passes of the loop (`batchLoop_cons_cases`) and then over the runs. What
holds depends on what else happens to the progress file, so each result states what it needs of
the environment:

* when other writers append whole lines and every write succeeds, the file a run leaves reads
  back as the lines it started with followed by new ones, among them one line per call of
  `btcrseed.main`, in call order (`batchLoop_view`); alone, it is exactly those entries
  (`batchRun_progress`);
* when reads and writes succeed and other writers append whole lines, no call follows one that
  found a seed, in the same run or a later one (`runFamily_found_last`);
* alone, from a file that records no match, a run never stops at a recorded match: its exit
  status is 1 exactly when the last call that did not raise returned `None`
  (`batchRun_retval`), and without `--batch-skip-completed` workers whose ID lists hold every
  residue once pass every counted line exactly once between them (`runFamily_workers_perm`);
* with `--batch-skip-completed` and full reads of the file at the start of each run, a seed that
  `btcrseed.main` checks is passed at most once (`runFamily_skip_count`), and workers that cover
  every residue pass exactly the seeds the progress file does not yet record as completed
  (`runFamily_skip_covers`), as long as the seeds hold no tab: `batch_tab_seed_lost` shows a
  seed with a tab.

A file that does not end a line joins its last line to the first entry appended to it, an
`OSError` can hide a recorded match or a completed seed from a reader, and a failed write leaves
no entry: these are the conditions the results carry.
-/

namespace Aezeed.Batch

/-- The seeds passed to `btcrseed.main` over a sequence of runs, in order. -/
def familyCalls (sts : List BatchState) : List Text := (sts.map (·.calls)).flatten

/-- A progress-file line written for a call on `s`: its status and `s`, then fields that hold
no line break. -/
def EntryFor (main : Text → MainResult) (s line : Text) : Prop :=
  ∃ extra, (∀ f ∈ extra, LineFree f) ∧ line = progressEntry (main s).status s extra

def runLines (cfg : BatchConfig) (batchFile : Text) : List Text :=
  if cfg.reverse then (fileLines batchFile).reverse else fileLines batchFile

def runStart (cfg : BatchConfig) (env : RunEnv) (progress : Text) : BatchState :=
  ⟨0, if cfg.skipCompleted then loadCompletedSeeds progress env.loadLimit else fun _ => false,
    progress, [], 0⟩

@[simp] theorem calls_runStart (cfg : BatchConfig) (env : RunEnv) (progress : Text) :
    (runStart cfg env progress).calls = [] := rfl

@[simp] theorem progress_runStart (cfg : BatchConfig) (env : RunEnv) (progress : Text) :
    (runStart cfg env progress).progress = progress := rfl

theorem batchRun_eq (cfg : BatchConfig) (main : Text → MainResult) (env : RunEnv)
    (batchFile progress : Text) :
    batchRun cfg main env batchFile progress =
      batchLoop cfg main env.pass (runLines cfg batchFile) (runStart cfg env progress) :=
  rfl

theorem runFamily_cons (main : Text → MainResult) (batchFile : Text) (cfg : BatchConfig)
    (env : RunEnv) (runs : List (BatchConfig × RunEnv)) (progress : Text) :
    runFamily main batchFile ((cfg, env) :: runs) progress =
      batchRun cfg main env batchFile progress ::
        runFamily main batchFile runs (batchRun cfg main env batchFile progress).progress :=
  rfl

theorem familyCalls_cons (st : BatchState) (sts : List BatchState) :
    familyCalls (st :: sts) = st.calls ++ familyCalls sts := rfl

theorem seedLines_reverse (lines : List Text) :
    seedLines lines.reverse = (seedLines lines).reverse := by
  simp [seedLines]

theorem mem_seedLines_rev {rev : Bool} {lines : List Text} {s : Text} :
    s ∈ seedLines (if rev then lines.reverse else lines) ↔ s ∈ seedLines lines := by
  cases rev <;> simp [seedLines_reverse]

theorem mem_seedLines_runLines {cfg : BatchConfig} {batchFile s : Text} :
    s ∈ seedLines (runLines cfg batchFile) ↔ s ∈ seedLines (fileLines batchFile) :=
  mem_seedLines_rev

theorem lineFree_of_mem_seedLines_runLines {cfg : BatchConfig} {batchFile s : Text}
    (hs : s ∈ seedLines (runLines cfg batchFile)) : LineFree s :=
  lineFree_of_mem_seedLines (mem_seedLines_runLines.1 hs)

theorem PassEnv.quiet_conditions :
    PassEnv.quiet.Alone ∧ PassEnv.quiet.WholeLines ∧ PassEnv.quiet.OneLineEntry ∧
      PassEnv.quiet.readLimit = none ∧ PassEnv.quiet.writes = true :=
  ⟨⟨rfl, rfl⟩, ⟨.inl rfl, .inl rfl⟩, fun _ h => absurd h (List.not_mem_nil _), rfl, rfl⟩

theorem PassEnv.Alone.wholeLines {p : PassEnv} (h : p.Alone) : p.WholeLines :=
  ⟨.inl h.1, .inl h.2⟩

/-! ## Calls -/

theorem mem_dropLast_cons {s x : Text} {l : List Text} (h : x ∈ (s :: l).dropLast) :
    x = s ∨ x ∈ l.dropLast := by
  cases l with
  | nil => simp at h
  | cons c l =>
    rw [List.dropLast_cons_of_ne_nil (List.cons_ne_nil c l)] at h
    exact List.mem_cons.1 h

/-- No call of a run follows one that found a seed, and a run whose first pass reads a recorded
match makes none. -/
theorem batchLoop_found_last (cfg : BatchConfig) (main : Text → MainResult) (lines : List Text) :
    ∀ (env : Nat → PassEnv) (st : BatchState), ∃ l,
      (batchLoop cfg main env lines st).calls = st.calls ++ l ∧
      (∀ s ∈ l.dropLast, main s ≠ .found) ∧
      (progressContainsMatch (st.progress ++ (env 0).appendedBefore) (env 0).readLimit = true →
        l = []) := by
  induction lines with
  | nil => exact fun _ _ => ⟨[], by simp [batchLoop], by simp, fun _ => rfl⟩
  | cons line rest ih =>
    intro env st
    rcases Bool.eq_false_or_eq_true (progressContainsMatch (st.progress ++ (env 0).appendedBefore)
      (env 0).readLimit) with hm | hm
    · exact ⟨[], by simp [batchLoop_cons_of_recorded cfg main env line rest st hm], by simp,
        fun _ => rfl⟩
    have hnostop : progressContainsMatch (st.progress ++ (env 0).appendedBefore)
        (env 0).readLimit = true → ∀ l : List Text, l = [] := by simp [hm]
    rcases batchLoop_cons_cases cfg main env line rest st hm with ⟨-, h⟩ | ⟨-, -, h⟩ |
      ⟨-, -, -, h⟩
    · obtain ⟨l, hl, hlast, -⟩ := ih (fun n => env (n + 1)) (st.visit (env 0))
      exact ⟨l, by rw [h, hl]; rfl, hlast, fun h => hnostop h l⟩
    · obtain ⟨l, hl, hlast, -⟩ := ih (fun n => env (n + 1)) { st.visit (env 0) with seedIndex := _ }
      exact ⟨l, by rw [h, hl]; rfl, hlast, fun h => hnostop h l⟩
    · rw [h]
      split_ifs with hfound
      · exact ⟨[seedOf line], by simp, by simp, fun h => hnostop h _⟩
      · obtain ⟨l, hl, hlast, -⟩ := ih (fun n => env (n + 1))
          ((st.visit (env 0)).called cfg main (env 0) (seedOf line))
        refine ⟨seedOf line :: l, by simp [hl], fun s hs => ?_, fun h => hnostop h _⟩
        rcases mem_dropLast_cons hs with rfl | hs
        · exact hfound
        · exact hlast s hs

/-! ## The file a run leaves -/

/-- The entry a `MATCHED` call appends starts a line that starts with `MATCHED<TAB>`, whatever
its fields hold. -/
theorem any_isMatchLine_progressEntry_found (seed : Text) (extra : List Text) :
    (fileLines (progressEntry MainResult.found.status seed extra)).any isMatchLine = true := by
  obtain ⟨l, ls, h⟩ := List.exists_cons_of_ne_nil (splitLines_ne_nil
    (mt translateNewlines_eq_nil_iff.1 (List.append_ne_nil_of_right_ne_nil
      (List.intercalate ['\t'] (seed :: extra)) (List.cons_ne_nil '\n' []))))
  have htr : translateNewlines (progressEntry MainResult.found.status seed extra) =
      "MATCHED\t".toList ++
        translateNewlines (List.intercalate ['\t'] (seed :: extra) ++ ['\n']) := by
    rw [progressEntry_eq, ← List.singleton_append, ← List.append_assoc,
      translateNewlines_append _ _ (by simp [MainResult.status])]
    rfl
  rw [fileLines, htr, splitLines_append_of_not_mem (by decide) h]
  simp [isMatchLine]

theorem fileLines_visit {F : Text} (hF : EndsLine F) {p : PassEnv} (hp : p.WholeLines) :
    EndsLine (F ++ p.appendedBefore ++ p.appendedAfter) ∧
      fileLines (F ++ p.appendedBefore ++ p.appendedAfter) =
        fileLines F ++ (fileLines p.appendedBefore ++ fileLines p.appendedAfter) :=
  ⟨(hF.append hp.1).append hp.2, by
    rw [fileLines_append (hF.append hp.1), fileLines_append hF, List.append_assoc]⟩

theorem fileLines_append_progressEntry {F : Text} (hF : EndsLine F) (status seed : Text)
    (extra : List Text) :
    EndsLine (F ++ progressEntry status seed extra) ∧
      fileLines (F ++ progressEntry status seed extra) =
        fileLines F ++ fileLines (progressEntry status seed extra) :=
  ⟨hF.append (endsLine_append_newline _), fileLines_append hF _⟩

theorem entryFor_fileLines (main : Text → MainResult) {s : Text} (hs : LineFree s)
    {p : PassEnv} (hp : p.OneLineEntry) :
    fileLines (progressEntry (main s).status s p.extraFields) =
        [progressEntry (main s).status s p.extraFields] ∧
      EntryFor main s (progressEntry (main s).status s p.extraFields) :=
  ⟨fileLines_progressEntry _ hs hp, p.extraFields, hp, rfl⟩

/-- When other writers append whole lines and every write succeeds, a run that starts from a
file ending a line leaves one that reads back as the lines it started with followed by new ones.
A call that found a seed leaves a line starting with `MATCHED<TAB>` among them. When the entries
are one line each, they are among the new lines, one per call in call order; alone, they are
the new lines. -/
theorem batchLoop_view (cfg : BatchConfig) (main : Text → MainResult) (lines : List Text)
    (hseeds : ∀ s ∈ seedLines lines, LineFree s) :
    ∀ (env : Nat → PassEnv) (st : BatchState), (∀ n, (env n).writes = true ∧ (env n).WholeLines) →
      EndsLine st.progress → ∃ l new,
        (batchLoop cfg main env lines st).calls = st.calls ++ l ∧
        EndsLine (batchLoop cfg main env lines st).progress ∧
        fileLines (batchLoop cfg main env lines st).progress = fileLines st.progress ++ new ∧
        ((∃ s ∈ l, main s = .found) → new.any isMatchLine = true) ∧
        ((∀ n, (env n).OneLineEntry) → ∃ ours, List.Forall₂ (EntryFor main) l ours ∧
          ours.Sublist new ∧ ((∀ n, (env n).Alone) → ours = new)) := by
  induction lines with
  | nil => exact fun _ st _ hF => ⟨[], [], by simp [batchLoop], hF, by simp [batchLoop], by simp,
      fun _ => ⟨[], .nil, List.nil_sublist _, fun _ => rfl⟩⟩
  | cons line rest ih =>
    intro env st henv hF
    obtain ⟨hF', hview⟩ := fileLines_visit hF (henv 0).2
    generalize hpre : fileLines (env 0).appendedBefore ++ fileLines (env 0).appendedAfter = pre
      at hview
    have hnone : (∀ n, (env n).Alone) → pre = [] := fun h => by
      rw [← hpre, (h 0).1, (h 0).2]
      rfl
    have hrest : ∀ s ∈ seedLines rest, LineFree s := fun s hs => hseeds s (by
      rcases Bool.eq_false_or_eq_true (isSkippedLine line) with h | h
      · exact seedLines_cons_of_skipped h rest ▸ hs
      · exact seedLines_cons h rest ▸ List.mem_cons_of_mem _ hs)
    have ih' := fun st' (hend : EndsLine st'.progress) =>
      ih hrest (fun n => env (n + 1)) st' (fun n => henv (n + 1)) hend
    -- a pass that hands the file on after the foreign lines of the pass
    have hon : ∀ st', st'.progress = (st.visit (env 0)).progress → ∃ l new,
        (batchLoop cfg main (fun n => env (n + 1)) rest st').calls = st'.calls ++ l ∧
        EndsLine (batchLoop cfg main (fun n => env (n + 1)) rest st').progress ∧
        fileLines (batchLoop cfg main (fun n => env (n + 1)) rest st').progress =
          fileLines st.progress ++ new ∧
        ((∃ s ∈ l, main s = .found) → new.any isMatchLine = true) ∧
        ((∀ n, (env n).OneLineEntry) → ∃ ours, List.Forall₂ (EntryFor main) l ours ∧
          ours.Sublist new ∧ ((∀ n, (env n).Alone) → ours = new)) := by
      intro st' hp
      obtain ⟨l, new, hl, hend, hv, hfound, hours⟩ := ih' st' (hp ▸ hF')
      refine ⟨l, pre ++ new, hl, hend, by rw [hv, hp, progress_visit, hview, List.append_assoc],
        fun h => by simp [hfound h], fun hone => ?_⟩
      obtain ⟨ours, hF2, hsub, halone⟩ := hours fun n => hone (n + 1)
      exact ⟨ours, hF2, hsub.trans (List.sublist_append_right _ _), fun h => by
        rw [halone fun n => h (n + 1), hnone h, List.nil_append]⟩
    rcases Bool.eq_false_or_eq_true (progressContainsMatch (st.progress ++ (env 0).appendedBefore)
      (env 0).readLimit) with hm | hm
    · rw [batchLoop_cons_of_recorded cfg main env line rest st hm]
      exact ⟨[], pre, by simp, hF', hview, by simp,
        fun _ => ⟨[], .nil, List.nil_sublist _, fun h => (hnone h).symm⟩⟩
    rcases batchLoop_cons_cases cfg main env line rest st hm with ⟨-, h⟩ | ⟨-, -, h⟩ |
      ⟨hs, -, -, h⟩
    · rw [h]
      exact hon _ rfl
    · rw [h]
      exact hon _ rfl
    -- a call: its entry follows the pass's foreign lines
    have hseed : LineFree (seedOf line) :=
      hseeds _ (seedLines_cons hs rest ▸ List.mem_cons_self _ _)
    have hcall := progress_called (st.visit (env 0)) cfg main (env 0) (seedOf line)
    rw [if_pos (henv 0).1, progress_visit] at hcall
    obtain ⟨hF2, hview2⟩ := fileLines_append_progressEntry hF' ((main (seedOf line)).status)
      (seedOf line) (env 0).extraFields
    rw [← hcall, hview, List.append_assoc] at hview2
    rw [← hcall] at hF2
    rw [h]
    split_ifs with hfound
    · refine ⟨[seedOf line], pre ++ fileLines (progressEntry (main (seedOf line)).status
        (seedOf line) (env 0).extraFields), by simp, hF2, hview2, fun _ => ?_, fun hone => ?_⟩
      · rw [List.any_append, hfound, any_isMatchLine_progressEntry_found, Bool.or_true]
      · obtain ⟨hlines, hentry⟩ := entryFor_fileLines main hseed (hone 0)
        exact ⟨_, .cons hentry .nil, hlines ▸ List.sublist_append_right _ _, fun h => by
          rw [hnone h, List.nil_append, hlines]⟩
    · obtain ⟨l, new, hl, hend, hv, hfl, hours⟩ := ih' _ hF2
      refine ⟨seedOf line :: l, pre ++ (fileLines (progressEntry (main (seedOf line)).status
        (seedOf line) (env 0).extraFields) ++ new), by simp [hl], hend,
        by rw [hv, hview2, List.append_assoc, List.append_assoc], ?_, fun hone => ?_⟩
      · rintro ⟨s, hs, hsf⟩
        rcases List.mem_cons.1 hs with rfl | hs
        · exact absurd hsf hfound
        · simp [hfl ⟨s, hs, hsf⟩]
      · obtain ⟨hlines, hentry⟩ := entryFor_fileLines main hseed (hone 0)
        obtain ⟨ours, hF3, hsub, halone⟩ := hours fun n => hone (n + 1)
        refine ⟨_ :: ours, .cons hentry hF3, ?_, fun h => ?_⟩
        · rw [hlines]
          exact (hsub.cons₂ _).trans (List.sublist_append_right _ _)
        · rw [hnone h, List.nil_append, hlines, halone fun n => h (n + 1)]
          rfl

/-- Alone, a run from a file that ends a line leaves that file followed by one line per call
of `btcrseed.main`, in call order: the entry `_append_progress` wrote for that call, with its
status and seed. -/
theorem batchRun_progress (cfg : BatchConfig) (main : Text → MainResult) (env : RunEnv)
    (batchFile progress : Text)
    (henv : ∀ n, (env.pass n).Alone ∧ (env.pass n).writes = true ∧ (env.pass n).OneLineEntry)
    (hprog : EndsLine progress) :
    ∃ new, fileLines (batchRun cfg main env batchFile progress).progress =
        fileLines progress ++ new ∧
      List.Forall₂ (EntryFor main) (batchRun cfg main env batchFile progress).calls new := by
  obtain ⟨l, new, hl, -, hview, -, hours⟩ := batchLoop_view cfg main (runLines cfg batchFile)
    (fun _ hs => lineFree_of_mem_seedLines_runLines hs) env.pass (runStart cfg env progress)
    (fun n => ⟨(henv n).2.1, (henv n).1.wholeLines⟩) hprog
  obtain ⟨ours, hF, -, halone⟩ := hours fun n => (henv n).2.2
  rw [batchRun_eq, hl, calls_runStart, List.nil_append]
  exact ⟨new, hview, halone (fun n => (henv n).1) ▸ hF⟩

theorem batchRun_progress_two_lines :
    (∀ n, (RunEnv.quiet.pass n).Alone ∧ (RunEnv.quiet.pass n).writes = true ∧
        (RunEnv.quiet.pass n).OneLineEntry) ∧ EndsLine "CHECKED\tz\n".toList ∧
      ∃ new, fileLines (batchRun ⟨none, 0, false, false⟩ (fun _ => .notFound) .quiet
          "a\nb\n".toList "CHECKED\tz\n".toList).progress = fileLines "CHECKED\tz\n".toList ++ new ∧
        List.Forall₂ (EntryFor fun _ => .notFound) (batchRun ⟨none, 0, false, false⟩
          (fun _ => .notFound) .quiet "a\nb\n".toList "CHECKED\tz\n".toList).calls new :=
  have henv : ∀ n, (RunEnv.quiet.pass n).Alone ∧ (RunEnv.quiet.pass n).writes = true ∧
      (RunEnv.quiet.pass n).OneLineEntry := fun _ =>
    ⟨PassEnv.quiet_conditions.1, PassEnv.quiet_conditions.2.2.2.2, PassEnv.quiet_conditions.2.2.1⟩
  ⟨henv, by decide, batchRun_progress _ _ _ _ _ henv (by decide)⟩

/-! ## Runs that find no match recorded -/

theorem unrecorded_of_alone {F : Text} (hF : progressContainsMatch F none = false) {p : PassEnv}
    (hp : p.Alone) : progressContainsMatch (F ++ p.appendedBefore) p.readLimit = false := by
  rw [hp.1, List.append_nil, Bool.eq_false_iff]
  intro h
  rw [progressContainsMatch_of_readUpTo h] at hF
  exact Bool.noConfusion hF

theorem progress_visit_of_alone (st : BatchState) {p : PassEnv} (hp : p.Alone) :
    (st.visit p).progress = st.progress := by
  rw [progress_visit, hp.1, hp.2, List.append_nil, List.append_nil]

theorem unrecorded_called {st : BatchState} (hF : progressContainsMatch st.progress none = false)
    (cfg : BatchConfig) (main : Text → MainResult) {p : PassEnv} (hp : p.OneLineEntry)
    {seed : Text} (hseed : LineFree seed) (hr : main seed ≠ .found) :
    progressContainsMatch (st.called cfg main p seed).progress none = false := by
  rw [progress_called]
  split_ifs
  · exact progressContainsMatch_append_progressEntry hF hr hseed hp
  · exact hF

/-- The `retval` a call of `btcrseed.main` leaves: an exception keeps the previous one, `None`
sets 1, and a sentence, empty or not, sets 0. -/
def MainResult.retval : MainResult → Nat → Nat
  | .raised, r => r
  | .none, _ => 1
  | .notFound, _ => 0
  | .found, _ => 0

/-- When every read and write succeeds and other writers append whole lines, over any sequence
of runs on one progress file that ends a line, `btcrseed.main` is never called after a call that
found a seed, and not at all once the file records a match. -/
theorem runFamily_found_last (main : Text → MainResult) (batchFile : Text) :
    ∀ (runs : List (BatchConfig × RunEnv)) (progress : Text),
      (∀ run ∈ runs, ∀ n, (run.2.pass n).readLimit = none ∧ (run.2.pass n).writes = true ∧
        (run.2.pass n).WholeLines) → EndsLine progress →
      (∀ s ∈ (familyCalls (runFamily main batchFile runs progress)).dropLast, main s ≠ .found) ∧
      (progressContainsMatch progress none = true →
        familyCalls (runFamily main batchFile runs progress) = [])
  | [], _, _, _ => ⟨by simp [runFamily, familyCalls], fun _ => rfl⟩
  | (cfg, env) :: runs, progress, hruns, hprog => by
    have henv := hruns _ (List.mem_cons_self _ _)
    obtain ⟨l, hl, hlast, hstop⟩ := batchLoop_found_last cfg main (runLines cfg batchFile) env.pass
      (runStart cfg env progress)
    obtain ⟨l', new, hl', hend, hview, hfound, -⟩ := batchLoop_view cfg main
      (runLines cfg batchFile) (fun _ hs => lineFree_of_mem_seedLines_runLines hs) env.pass
      (runStart cfg env progress) (fun n => (henv n).2) hprog
    rw [hl, List.append_cancel_left_eq] at hl'
    subst hl'
    rw [← batchRun_eq] at hl hend hview
    obtain ⟨ihlast, ihstop⟩ := runFamily_found_last main batchFile runs _
      (fun run h => hruns run (List.mem_cons_of_mem _ h)) hend
    have hmatch : new.any isMatchLine = true →
        progressContainsMatch (batchRun cfg main env batchFile progress).progress none = true :=
      fun h => by simp [progressContainsMatch, readUpTo, hview, h]
    rw [runFamily_cons, familyCalls_cons, hl, calls_runStart, List.nil_append]
    generalize familyCalls (runFamily main batchFile runs _) = rest at ihlast ihstop ⊢
    refine ⟨fun s hs hsf => ?_, fun hm => ?_⟩
    · by_cases hrest : rest = []
      · subst hrest
        exact hlast s (by simpa using hs) hsf
      rw [List.dropLast_append_of_ne_nil _ hrest, List.mem_append] at hs
      rcases hs with hs | hs
      · exact hrest (ihstop (hmatch (hfound ⟨s, hs, hsf⟩)))
      · exact ihlast s hs hsf
    · have h0 : progressContainsMatch (progress ++ (env.pass 0).appendedBefore)
          (env.pass 0).readLimit = true := by
        rw [(henv 0).1, progressContainsMatch_append hprog, hm, Bool.true_or]
      rw [hstop h0, ihstop (by simp_all [progressContainsMatch, readUpTo])]
      rfl

theorem runFamily_found_last_two_runs :
    (∀ run ∈ [((⟨none, 0, false, false⟩ : BatchConfig), RunEnv.quiet),
        (⟨none, 0, false, false⟩, RunEnv.quiet)], ∀ n, (run.2.pass n).readLimit = none ∧
          (run.2.pass n).writes = true ∧ (run.2.pass n).WholeLines) ∧ EndsLine [] ∧
      (∀ s ∈ (familyCalls (runFamily (fun _ => .found) "a\nb\n".toList
          [(⟨none, 0, false, false⟩, .quiet), (⟨none, 0, false, false⟩, .quiet)] [])).dropLast,
          (fun _ => MainResult.found) s ≠ .found) ∧
        (progressContainsMatch [] none = true → familyCalls (runFamily (fun _ => .found)
          "a\nb\n".toList [(⟨none, 0, false, false⟩, .quiet), (⟨none, 0, false, false⟩, .quiet)]
          []) = []) :=
  have hruns : ∀ run ∈ [((⟨none, 0, false, false⟩ : BatchConfig), RunEnv.quiet),
      (⟨none, 0, false, false⟩, RunEnv.quiet)], ∀ n, (run.2.pass n).readLimit = none ∧
        (run.2.pass n).writes = true ∧ (run.2.pass n).WholeLines := by
    simp only [List.mem_cons, List.mem_singleton, List.not_mem_nil, or_false]
    rintro run (rfl | rfl) n <;> exact ⟨PassEnv.quiet_conditions.2.2.2.1,
      PassEnv.quiet_conditions.2.2.2.2, PassEnv.quiet_conditions.2.1⟩
  ⟨hruns, .inl rfl, runFamily_found_last _ _ _ [] hruns (.inl rfl)⟩

/-! ## Workers -/

theorem completed_called (st : BatchState) (cfg : BatchConfig) (main : Text → MainResult)
    (p : PassEnv) (seed s : Text) :
    (st.called cfg main p seed).completed s =
      (cfg.skipCompleted && decide ((main seed).status ∈ successStatuses) && decide (s = seed) ||
        st.completed s) := by
  simp only [BatchState.called]
  cases main seed <;>
    simp [BatchState.record, BatchState.complete, BatchState.append, MainResult.status,
      successStatuses] <;> split_ifs <;> simp_all

theorem ownedSeeds_sublist (cfg : BatchConfig) : ∀ (i : Nat) (seeds : List Text),
    (ownedSeeds cfg i seeds).Sublist seeds
  | _, [] => .slnil
  | i, s :: seeds => by
    rw [ownedSeeds]
    split_ifs
    · exact (ownedSeeds_sublist cfg (i + 1) seeds).cons s
    · exact (ownedSeeds_sublist cfg (i + 1) seeds).cons₂ s

theorem getElem_mem_ownedSeeds (cfg : BatchConfig) : ∀ (i : Nat) (seeds : List Text) (k : Nat)
    (hk : k < seeds.length), cfg.foreign (i + k) = false → seeds[k] ∈ ownedSeeds cfg i seeds
  | _, [], _, hk, _ => absurd hk (Nat.not_lt_zero _)
  | i, s :: seeds, 0, _, hf => by
    rw [Nat.add_zero] at hf
    simp [ownedSeeds, hf]
  | i, s :: seeds, k + 1, hk, hf => by
    rw [ownedSeeds]
    have h := getElem_mem_ownedSeeds cfg (i + 1) seeds k (by simpa using hk)
      (by rw [← hf]; congr 1; omega)
    split_ifs <;> simp [h]

theorem mem_seedLines_of_calls (cfg : BatchConfig) (main : Text → MainResult) (env : RunEnv)
    (batchFile progress : Text) {s : Text}
    (hs : s ∈ (batchRun cfg main env batchFile progress).calls) :
    s ∈ seedLines (fileLines batchFile) := by
  obtain ⟨l, hl, hsub⟩ := calls_sublist_ownedSeeds cfg main (runLines cfg batchFile) env.pass
    (runStart cfg env progress)
  rw [← batchRun_eq, calls_runStart, List.nil_append] at hl
  exact mem_seedLines_runLines.1 ((hsub.trans (ownedSeeds_sublist cfg 0 _)).subset (hl ▸ hs))

/-- With `--batch-skip-completed`, a run passes no seed that was completed when it started, and
passes a seed that `btcrseed.main` reports as checked at most once. -/
theorem batchLoop_skip_calls (cfg : BatchConfig) (hskip : cfg.skipCompleted = true)
    (main : Text → MainResult) (lines : List Text) :
    ∀ (env : Nat → PassEnv) (st : BatchState), ∃ l,
      (batchLoop cfg main env lines st).calls = st.calls ++ l ∧
      (∀ s ∈ l, st.completed s = false) ∧
      (∀ s, (main s).status ∈ successStatuses → l.count s ≤ 1) := by
  induction lines with
  | nil => exact fun _ st => ⟨[], by simp [batchLoop], by simp, by simp⟩
  | cons line rest ih =>
    intro env st
    rcases Bool.eq_false_or_eq_true (progressContainsMatch (st.progress ++ (env 0).appendedBefore)
      (env 0).readLimit) with hm | hm
    · exact ⟨[], by simp [batchLoop_cons_of_recorded cfg main env line rest st hm], by simp,
        by simp⟩
    rcases batchLoop_cons_cases cfg main env line rest st hm with ⟨-, h⟩ | ⟨-, -, h⟩ |
      ⟨-, hc, -, h⟩
    · rw [h]
      exact ih _ _
    · rw [h]
      exact ih _ _
    have hseed : st.completed (seedOf line) = false := by simpa [hskip] using hc
    rw [h]
    split_ifs with hfound
    · exact ⟨[seedOf line], by simp, by simpa using hseed, fun s _ => List.count_le_length _ _⟩
    obtain ⟨l, hcalls, hnew, hcount⟩ := ih (fun n => env (n + 1))
      ((st.visit (env 0)).called cfg main (env 0) (seedOf line))
    refine ⟨seedOf line :: l, by simp [hcalls], ?_, fun s hs => ?_⟩
    · rintro s (_ | ⟨_, hs⟩)
      · exact hseed
      · have := hnew s hs
        rw [completed_called] at this
        exact (Bool.or_eq_false_iff.1 this).2
    · rw [List.count_cons]
      by_cases hsl : s = seedOf line
      · subst hsl
        have hnot : seedOf line ∉ l := fun hl => by
          simpa [completed_called, hskip, hs] using hnew _ hl
        simp [List.count_eq_zero_of_not_mem hnot]
      · simpa [Ne.symm hsl] using hcount s hs

theorem exists_mem_of_forall₂_left {R : Text → Text → Prop} {l m : List Text}
    (h : List.Forall₂ R l m) {a : Text} (ha : a ∈ l) : ∃ b ∈ m, R a b := by
  induction h with
  | nil => exact absurd ha (List.not_mem_nil _)
  | cons hab _ ih =>
    rcases List.mem_cons.1 ha with rfl | ha
    · exact ⟨_, List.mem_cons_self _ _, hab⟩
    · obtain ⟨b, hb, h⟩ := ih ha
      exact ⟨b, List.mem_cons_of_mem _ hb, h⟩

theorem exists_mem_of_forall₂_right {R : Text → Text → Prop} {l m : List Text}
    (h : List.Forall₂ R l m) {b : Text} (hb : b ∈ m) : ∃ a ∈ l, R a b := by
  induction h with
  | nil => exact absurd hb (List.not_mem_nil _)
  | cons hab _ ih =>
    rcases List.mem_cons.1 hb with rfl | hb
    · exact ⟨_, List.mem_cons_self _ _, hab⟩
    · obtain ⟨a, ha, h⟩ := ih hb
      exact ⟨a, List.mem_cons_of_mem _ ha, h⟩

theorem statusSeed_of_entryFor {main : Text → MainResult} {s line : Text}
    (h : EntryFor main s line) (hs : LineFree s) (htab : '\t' ∉ s) :
    statusSeed? line = some ((main s).status, s) := by
  obtain ⟨extra, hextra, rfl⟩ := h
  obtain ⟨h1, h2⟩ := statusSeed_progressEntry (main s) hs.1 (fun f hf => (hextra f hf).1)
  rw [h1, h2.2 htab]

theorem loadCompletedSeeds_of_view {F F' : Text} {new : List Text}
    (hview : fileLines F' = fileLines F ++ new) {s : Text}
    (h : loadCompletedSeeds F none s = true) : loadCompletedSeeds F' none s = true := by
  obtain ⟨hs, line, hline, rest⟩ := (loadCompletedSeeds_iff _ _ _).1 h
  exact (loadCompletedSeeds_iff _ _ _).2 ⟨hs, line, by
    simpa only [readUpTo, hview] using List.mem_append_left _ hline, rest⟩

/-- Among lines appended after the lines of a file, the entries of calls on seeds without a tab
are read as completing exactly the seeds of the calls that succeeded. -/
theorem loadCompletedSeeds_entries {main : Text → MainResult} {F F' : Text} {l ours : List Text}
    (hview : fileLines F' = fileLines F ++ ours) (hours : List.Forall₂ (EntryFor main) l ours)
    (hl : ∀ c ∈ l, LineFree c ∧ '\t' ∉ c) (s : Text) :
    loadCompletedSeeds F' none s = true ↔ loadCompletedSeeds F none s = true ∨
      (s ≠ [] ∧ s ∈ l ∧ (main s).status ∈ successStatuses) := by
  simp only [loadCompletedSeeds_iff, readUpTo, hview, List.mem_append]
  constructor
  · rintro ⟨hs, line, hline | hline, status, hst, h⟩
    · exact .inl ⟨hs, line, hline, status, hst, h⟩
    · obtain ⟨c, hc, hentry⟩ := exists_mem_of_forall₂_right hours hline
      rw [statusSeed_of_entryFor hentry (hl c hc).1 (hl c hc).2, Option.some.injEq,
        Prod.mk.injEq] at h
      obtain ⟨rfl, rfl⟩ := h
      exact .inr ⟨hs, hc, hst⟩
  · rintro (⟨hs, line, hline, status, hst, h⟩ | ⟨hs, hsl, hst⟩)
    · exact ⟨hs, line, .inl hline, status, hst, h⟩
    · obtain ⟨line, hline, hentry⟩ := exists_mem_of_forall₂_left hours hsl
      exact ⟨hs, line, .inr hline, _, hst,
        statusSeed_of_entryFor hentry (hl s hsl).1 (hl s hsl).2⟩

/-- With `--batch-skip-completed`, alone, with entries of one line, from a file that records no
match, while nothing is found, every line a run owns has its seed passed to `btcrseed.main` or
was completed when the run started. -/
theorem batchLoop_skip_covers (cfg : BatchConfig) (hskip : cfg.skipCompleted = true)
    (main : Text → MainResult) (lines : List Text) (hseeds : ∀ s ∈ seedLines lines, LineFree s)
    (hmain : ∀ s ∈ seedLines lines, main s ≠ .found) :
    ∀ (env : Nat → PassEnv) (st : BatchState), (∀ n, (env n).Alone ∧ (env n).OneLineEntry) →
      progressContainsMatch st.progress none = false →
      ∀ s ∈ ownedSeeds cfg st.seedIndex (seedLines lines),
        s ∈ (batchLoop cfg main env lines st).calls ∨ st.completed s = true := by
  induction lines with
  | nil => simp [seedLines, ownedSeeds]
  | cons line rest ih =>
    intro env st henv hF s hs
    have hF' : progressContainsMatch (st.visit (env 0)).progress none = false := by
      rw [progress_visit_of_alone st (henv 0).1]
      exact hF
    rcases batchLoop_cons_cases cfg main env line rest st (unrecorded_of_alone hF (henv 0).1) with
      ⟨hsk, h⟩ | ⟨hsk, hc, h⟩ | ⟨hsk, -, hf, h⟩
    · rw [seedLines_cons_of_skipped hsk] at hseeds hmain hs
      rw [h]
      exact ih hseeds hmain _ _ (fun n => henv (n + 1)) hF' s hs
    · rw [seedLines_cons hsk] at hseeds hmain hs
      have ih := ih (fun s h => hseeds s (List.mem_cons_of_mem _ h))
        (fun s h => hmain s (List.mem_cons_of_mem _ h)) (fun n => env (n + 1))
        { st.visit (env 0) with seedIndex := st.seedIndex + 1 } (fun n => henv (n + 1)) hF'
      rw [h]
      rw [ownedSeeds] at hs
      split_ifs at hs with hf
      · exact ih s hs
      · rcases List.mem_cons.1 hs with rfl | hs
        · exact .inr (by simpa [hf, hskip] using hc)
        · exact ih s hs
    · rw [seedLines_cons hsk] at hseeds hmain hs
      rw [ownedSeeds, if_neg (show ¬cfg.foreign st.seedIndex = true by simp [hf])] at hs
      have hline := hmain _ (List.mem_cons_self _ _)
      rw [h, if_neg hline]
      obtain ⟨l, hcalls, -⟩ := batchLoop_found_last cfg main rest (fun n => env (n + 1))
        ((st.visit (env 0)).called cfg main (env 0) (seedOf line))
      rw [hcalls]
      rcases List.mem_cons.1 hs with rfl | hs
      · exact .inl (by simp)
      rcases ih (fun s h => hseeds s (List.mem_cons_of_mem _ h))
        (fun s h => hmain s (List.mem_cons_of_mem _ h)) _ _ (fun n => henv (n + 1))
        (unrecorded_called hF' cfg main (henv 0).2 (hseeds _ (List.mem_cons_self _ _)) hline) s
        (by simpa using hs) with hin | hdone
      · rw [hcalls] at hin
        exact .inl hin
      · rw [completed_called] at hdone
        by_cases hsl : s = seedOf line
        · exact .inl (by simp [hsl])
        · exact .inr (by simpa [hsl] using hdone)

/-- Runs with `--batch-skip-completed` that read the whole progress file at their start, when
every write succeeds and other writers append whole lines, pass only seeds of the batch file that
the file they started from does not record as completed. -/
theorem familyCalls_skip_sound (main : Text → MainResult) (batchFile : Text) :
    ∀ (runs : List (BatchConfig × RunEnv)) (progress : Text),
      (∀ run ∈ runs, run.1.skipCompleted = true ∧ run.2.loadLimit = none ∧
        ∀ n, (run.2.pass n).writes = true ∧ (run.2.pass n).WholeLines) → EndsLine progress →
      ∀ s ∈ familyCalls (runFamily main batchFile runs progress),
        s ∈ seedLines (fileLines batchFile) ∧ loadCompletedSeeds progress none s = false
  | [], _, _, _ => by simp [runFamily, familyCalls]
  | (cfg, env) :: runs, progress, hruns, hprog => by
    obtain ⟨hskip, hload, henv⟩ := hruns _ (List.mem_cons_self _ _)
    dsimp only at hskip hload
    obtain ⟨l, hl, hnew, -⟩ := batchLoop_skip_calls cfg hskip main (runLines cfg batchFile)
      env.pass (runStart cfg env progress)
    obtain ⟨-, new, -, hend, hview, -, -⟩ := batchLoop_view cfg main (runLines cfg batchFile)
      (fun _ hs => lineFree_of_mem_seedLines_runLines hs) env.pass (runStart cfg env progress)
      henv hprog
    rw [← batchRun_eq, calls_runStart, List.nil_append] at hl
    rw [← batchRun_eq] at hend hview
    simp only [runStart, hskip, hload, if_true] at hnew
    have ih := familyCalls_skip_sound main batchFile runs _
      (fun run h => hruns run (List.mem_cons_of_mem _ h)) hend
    intro s hs
    rw [runFamily_cons, familyCalls_cons, List.mem_append] at hs
    rcases hs with hs | hs
    · exact ⟨mem_seedLines_of_calls cfg main env batchFile progress hs, hnew s (hl ▸ hs)⟩
    · obtain ⟨hsl, hdone⟩ := ih s hs
      refine ⟨hsl, Bool.eq_false_iff.2 fun h => ?_⟩
      rw [loadCompletedSeeds_of_view hview h] at hdone
      exact Bool.noConfusion hdone

theorem unrecorded_of_view {main : Text → MainResult} {F F' : Text} {l ours : List Text}
    (hF : progressContainsMatch F none = false) (hview : fileLines F' = fileLines F ++ ours)
    (hours : List.Forall₂ (EntryFor main) l ours) (hl : ∀ c ∈ l, main c ≠ .found) :
    progressContainsMatch F' none = false := by
  simp only [progressContainsMatch, readUpTo, hview, List.any_append] at hF ⊢
  rw [hF, Bool.false_or, List.any_eq_false]
  intro line hline
  obtain ⟨c, hc, extra, -, rfl⟩ := exists_mem_of_forall₂_right hours hline
  simpa using isMatchLine_append_progressEntry (x := []) rfl (hl c hc) c extra

/-- Runs with `--batch-skip-completed` over a batch file whose seeds hold no tab, each alone with
entries of one line and every write succeeding, from a file that ends a line and records no
match, while nothing is found, pass every seed of a line one of them owns unless the file they
started from records it as completed. -/
theorem familyCalls_skip_covers (main : Text → MainResult) (batchFile : Text) (rev : Bool)
    (hmain : ∀ s ∈ seedLines (fileLines batchFile), main s ≠ .found)
    (hseeds : ∀ s ∈ seedLines (fileLines batchFile), '\t' ∉ s) :
    ∀ (runs : List (BatchConfig × RunEnv)) (progress : Text),
      (∀ run ∈ runs, run.1.skipCompleted = true ∧ run.1.reverse = rev ∧ run.2.loadLimit = none ∧
        ∀ n, (run.2.pass n).Alone ∧ (run.2.pass n).writes = true ∧ (run.2.pass n).OneLineEntry) →
      progressContainsMatch progress none = false → EndsLine progress →
      ∀ s, (∃ run ∈ runs, s ∈ ownedSeeds run.1 0
          (seedLines (if rev then (fileLines batchFile).reverse else fileLines batchFile))) →
        loadCompletedSeeds progress none s = false →
        s ∈ familyCalls (runFamily main batchFile runs progress)
  | [], _, _, _, _, _, ⟨_, hc, _⟩, _ => absurd hc (List.not_mem_nil _)
  | (cfg, env) :: runs, progress, hruns, hprog, hend, s, ⟨run, hrun, hown⟩, hfresh => by
    obtain ⟨hskip, hrev, hload, henv⟩ := hruns _ (List.mem_cons_self _ _)
    dsimp only at hskip hrev hload
    have hcov := batchLoop_skip_covers cfg hskip main (runLines cfg batchFile)
      (fun _ hs => lineFree_of_mem_seedLines_runLines hs)
      (fun s hs => hmain s (mem_seedLines_runLines.1 hs)) env.pass (runStart cfg env progress)
      (fun n => ⟨(henv n).1, (henv n).2.2⟩) hprog
    rw [← batchRun_eq] at hcov
    simp only [runStart, hskip, hload, if_true] at hcov
    rw [runFamily_cons, familyCalls_cons, List.mem_append]
    by_cases hin : s ∈ (batchRun cfg main env batchFile progress).calls
    · exact .inl hin
    refine .inr ?_
    rcases List.mem_cons.1 hrun with rfl | hrun
    · exact absurd ((hcov s (by rw [runLines, hrev]; exact hown)).resolve_left hin)
        (by simp [hfresh])
    obtain ⟨l, new, hl, hend', hview, -, hours⟩ := batchLoop_view cfg main (runLines cfg batchFile)
      (fun _ hs => lineFree_of_mem_seedLines_runLines hs) env.pass (runStart cfg env progress)
      (fun n => ⟨(henv n).2.1, (henv n).1.wholeLines⟩) hend
    obtain ⟨ours, hF, -, halone⟩ := hours fun n => (henv n).2.2
    rw [← halone fun n => (henv n).1] at hview
    rw [← batchRun_eq, calls_runStart, List.nil_append] at hl
    rw [← batchRun_eq] at hend' hview
    have hls : ∀ c ∈ l, c ∈ seedLines (fileLines batchFile) := fun c hc =>
      mem_seedLines_of_calls cfg main env batchFile progress (hl ▸ hc)
    refine familyCalls_skip_covers main batchFile rev hmain hseeds runs _
      (fun r h => hruns r (List.mem_cons_of_mem _ h))
      (unrecorded_of_view hprog hview hF fun c hc => hmain c (hls c hc)) hend' s
      ⟨run, hrun, hown⟩ ?_
    rw [Bool.eq_false_iff, Ne, loadCompletedSeeds_entries hview hF
      (fun c hc => ⟨lineFree_of_mem_seedLines (hls c hc), hseeds c (hls c hc)⟩)]
    rintro (h | ⟨-, h, -⟩)
    · simp [hfresh] at h
    · exact hin (hl ▸ h)

/-- With `--batch-skip-completed`, workers `IDS/TOTAL` whose ID lists cover every residue below
`TOTAL`, run one after another over a batch file whose seeds hold no tab, each alone, reading the
whole progress file at its start, with every write succeeding and entries of one line, pass to
`btcrseed.main` exactly the seeds of the batch file that the progress file does not record as
completed, as long as nothing is found and the file ends a line and records no match. -/
theorem runFamily_skip_covers (main : Text → MainResult) (batchFile progress : Text) {T : Nat}
    (hT : 0 < T) (rev : Bool) (runs : List (List Nat × RunEnv))
    (hcover : ∀ r < T, ∃ run ∈ runs, r ∈ run.1)
    (henv : ∀ run ∈ runs, run.2.loadLimit = none ∧
      ∀ n, (run.2.pass n).Alone ∧ (run.2.pass n).writes = true ∧ (run.2.pass n).OneLineEntry)
    (hmain : ∀ s ∈ seedLines (fileLines batchFile), main s ≠ .found)
    (hseeds : ∀ s ∈ seedLines (fileLines batchFile), '\t' ∉ s)
    (hprog : progressContainsMatch progress none = false) (hend : EndsLine progress) (s : Text) :
    s ∈ familyCalls (runFamily main batchFile
        (runs.map fun run => (⟨some run.1, T, rev, true⟩, run.2)) progress) ↔
      s ∈ seedLines (fileLines batchFile) ∧ loadCompletedSeeds progress none s = false := by
  refine ⟨familyCalls_skip_sound main batchFile _ progress ?_ hend s, fun ⟨hs, hfresh⟩ => ?_⟩
  · simp only [List.mem_map]
    rintro _ ⟨run, hrun, rfl⟩
    exact ⟨rfl, (henv run hrun).1, fun n =>
      ⟨((henv run hrun).2 n).2.1, ((henv run hrun).2 n).1.wholeLines⟩⟩
  refine familyCalls_skip_covers main batchFile rev hmain hseeds _ progress ?_ hprog hend s ?_
    hfresh
  · simp only [List.mem_map]
    rintro _ ⟨run, hrun, rfl⟩
    exact ⟨rfl, rfl, henv run hrun⟩
  obtain ⟨k, hk, rfl⟩ := List.getElem_of_mem (mem_seedLines_rev.2 hs : s ∈ seedLines
    (if rev then (fileLines batchFile).reverse else fileLines batchFile))
  obtain ⟨run, hrun, hr⟩ := hcover (k % T) (Nat.mod_lt k hT)
  exact ⟨(⟨some run.1, T, rev, true⟩, run.2), List.mem_map_of_mem _ hrun,
    getElem_mem_ownedSeeds _ 0 _ k hk (by simp [BatchConfig.foreign, hr])⟩

theorem runFamily_skip_covers_two_workers :
    0 < 2 ∧ (∀ r < 2, ∃ run ∈ [([0], RunEnv.quiet), ([1], RunEnv.quiet)], r ∈ run.1) ∧
      (∀ run ∈ [([0], RunEnv.quiet), ([1], RunEnv.quiet)], run.2.loadLimit = none ∧
        ∀ n, (run.2.pass n).Alone ∧ (run.2.pass n).writes = true ∧
          (run.2.pass n).OneLineEntry) ∧
      (∀ s ∈ seedLines (fileLines "a\nb\n".toList), (fun _ => MainResult.notFound) s ≠ .found) ∧
      (∀ s ∈ seedLines (fileLines "a\nb\n".toList), '\t' ∉ s) ∧
      progressContainsMatch (progressEntry "CHECKED".toList "a".toList []) none = false ∧
      EndsLine (progressEntry "CHECKED".toList "a".toList []) ∧
      ("b".toList ∈ familyCalls (runFamily (fun _ => .notFound) "a\nb\n".toList
          ([([0], RunEnv.quiet), ([1], RunEnv.quiet)].map fun run =>
            (⟨some run.1, 2, false, true⟩, run.2))
          (progressEntry "CHECKED".toList "a".toList [])) ↔
        "b".toList ∈ seedLines (fileLines "a\nb\n".toList) ∧
          loadCompletedSeeds (progressEntry "CHECKED".toList "a".toList []) none "b".toList =
            false) :=
  have henv : ∀ run ∈ [([0], RunEnv.quiet), ([1], RunEnv.quiet)], run.2.loadLimit = none ∧
      ∀ n, (run.2.pass n).Alone ∧ (run.2.pass n).writes = true ∧
        (run.2.pass n).OneLineEntry := by
    simp only [List.mem_cons, List.mem_singleton, List.not_mem_nil, or_false]
    rintro run (rfl | rfl) <;> exact ⟨rfl, fun _ => ⟨PassEnv.quiet_conditions.1,
      PassEnv.quiet_conditions.2.2.2.2, PassEnv.quiet_conditions.2.2.1⟩⟩
  ⟨by decide, by decide, henv, by decide, by decide, by decide, by decide,
    runFamily_skip_covers _ _ _ (by decide) false _ (by decide) henv (by decide) (by decide)
      (by decide) (by decide) _⟩

end Aezeed.Batch
