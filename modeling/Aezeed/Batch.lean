import Mathlib.Tactic.IntervalCases
import Aezeed.PyText

/-!
# seedrecover_batch

The batch driver `seedrecover_batch.py`: it reads the lines of a batch file and passes the seed of
every line that is neither blank nor a `#` comment to `btcrseed.main`. With `--batch-worker
IDS/TOTAL` a run keeps the lines whose rank (position among such lines, counted in every branch
of the loop) is in `IDS` modulo `TOTAL`. With `--batch-skip-completed` it skips the seeds that
its progress file records as `CHECKED` or `MATCHED`.

The progress file is text: `_append_progress` appends one entry to it per call of
`btcrseed.main`, and `_load_completed_seeds` and `_progress_contains_match` read it back line by
line. Before each line of the batch file the loop reads it again and stops, with `retval = 0`,
when some line starts with `MATCHED<TAB>`. What the script does not decide is the environment of
a run (`RunEnv`): the text other processes append to the file around each pass of the loop, an
`OSError` that ends a read early, an `OSError` that makes a write write nothing, and the
timestamp and argument fields of the entries.

A run passes only lines it owns, in order, whatever its environment
(`calls_sublist_ownedSeeds`). The writer and the reader of the progress file agree on a seed
exactly when it holds no tab (`statusSeed_progressEntry`). A seed with a tab is read back as its
text up to the first tab, and a later line holding just that text is then skipped by its owner,
which is the only run that would pass it (`batch_tab_seed_lost`).

`btcrseed.main` is a parameter.
-/

namespace Aezeed.Batch

/-! ## Lines and seeds -/

/-- `not stripped_line or stripped_line.startswith('#')`: a blank or comment line. -/
def isSkippedLine (line : Text) : Bool :=
  let stripped := pyStrip line
  stripped.isEmpty || stripped.head? == some '#'

/-- `mnemonic.split("#")[0].strip()`. -/
def seedOf (line : Text) : Text := pyStrip ((pySplit '#' line).headD [])

/-- The seeds of the lines the loop counts, in processing order: the rank of a line is its
index here. -/
def seedLines (lines : List Text) : List Text := (lines.filter fun l => !isSkippedLine l).map seedOf

/-! ## The progress file -/

def successStatuses : List Text := ["MATCHED".toList, "CHECKED".toList]

/-- What `_append_progress` writes: `"\t".join(fields) + "\n"`, where `fields` are the status,
the seed, and then `extra`: the timestamp with `--batch-progress-include-timestamp` and the
quoted arguments with `--batch-progress-include-arguments`. -/
def progressEntry (status seed : Text) (extra : List Text) : Text :=
  List.intercalate ['\t'] (status :: seed :: extra) ++ ['\n']

/-- The lines a reader of the file gets: all, or the first `k` when an `OSError` ends the read
there. A missing file reads as an empty one. -/
def readUpTo : Option Nat → List Text → List Text
  | none, lines => lines
  | some k, lines => lines.take k

/-- `line.startswith("MATCHED\t")`. -/
def isMatchLine (line : Text) : Bool := "MATCHED\t".toList.isPrefixOf line

/-- `_progress_contains_match(progress_filename)`, the read ending as `limit` says. -/
def progressContainsMatch (file : Text) (limit : Option Nat) : Bool :=
  (readUpTo limit (fileLines file)).any isMatchLine

/-- `parts[0]` and `parts[1]` of `line.rstrip("\n").split("\t")`, when `len(parts) >= 2`. -/
def statusSeed? (line : Text) : Option (Text × Text) :=
  match pySplit '\t' (line.rdropWhile (· == '\n')) with
  | status :: seedValue :: _ => some (status, seedValue)
  | _ => none

/-- One pass of the loop of `_load_completed_seeds` on `completed_status`, here the function
`completed_status.get`. -/
def loadStep (m : Text → Option Text) (line : Text) : Text → Option Text :=
  match statusSeed? line with
  | some (status, seedValue) =>
    if seedValue.isEmpty then m
    else
      let previous := m seedValue
      if previous.any (· ∈ successStatuses) then m
      else if status ∈ successStatuses ∨ previous = none then
        fun s => if s = seedValue then some status else m s
      else m
  | none => m

/-- `_load_completed_seeds(progress_filename)`, the read ending as `limit` says, as the
membership test of the set it returns. -/
def loadCompletedSeeds (file : Text) (limit : Option Nat) (seed : Text) : Bool :=
  (((readUpTo limit (fileLines file)).foldl loadStep fun _ => none) seed).any
    (· ∈ successStatuses)

/-! ## The environment of a run -/

/-- What one pass of the loop meets that the script does not decide: the text other processes
append to the progress file before `_progress_contains_match` reads it and after, how many lines
that read gets before an `OSError` (`none`: all of them), whether `_append_progress` writes
(`false`: an `OSError` in `os.makedirs` or in the write, and nothing is written), and the fields
its entry has after the seed. -/
structure PassEnv where
  appendedBefore : Text
  appendedAfter : Text
  readLimit : Option Nat
  writes : Bool
  extraFields : List Text

/-- The environment of a run: how many lines `_load_completed_seeds` reads before an `OSError`,
and the environment of the pass over each line, by its index. -/
structure RunEnv where
  loadLimit : Option Nat
  pass : Nat → PassEnv

/-- Nobody else writes, every read and write succeeds, and no option adds fields to the
entries. -/
def PassEnv.quiet : PassEnv := ⟨[], [], none, true, []⟩

def RunEnv.quiet : RunEnv := ⟨none, fun _ => .quiet⟩

/-- Nobody else writes to the progress file during the pass. -/
def PassEnv.Alone (p : PassEnv) : Prop := p.appendedBefore = [] ∧ p.appendedAfter = []

/-- Other writers append whole lines. -/
def PassEnv.WholeLines (p : PassEnv) : Prop :=
  EndsLine p.appendedBefore ∧ EndsLine p.appendedAfter

/-- The fields after the seed hold no line break, so the pass's entry is one line. -/
def PassEnv.OneLineEntry (p : PassEnv) : Prop := ∀ f ∈ p.extraFields, LineFree f

/-! ## The batch loop -/

/-- What `btcrseed.main(temp_argv[1:])` does with a seed: raise, return `None`, return an empty
sentence ("Seed not found"), or return the sentence it found. -/
inductive MainResult
  | raised
  | none
  | notFound
  | found
  deriving DecidableEq

/-- The options of a run the loop reads: `worker_ids` (0-based, `none` without
`--batch-worker`), `workers_total`, `--batch-reverse` and `--batch-skip-completed`. -/
structure BatchConfig where
  workerIds : Option (List Nat)
  workersTotal : Nat
  reverse : Bool
  skipCompleted : Bool

/-- `(seed_index % workers_total) not in worker_ids`: the line of rank `i` is another
worker's. -/
def BatchConfig.foreign (cfg : BatchConfig) (i : Nat) : Bool :=
  match cfg.workerIds with
  | some ids => !ids.contains (i % cfg.workersTotal)
  | none => false

/-- The loop's state: `seed_index`, `completed_seeds`, the progress file's text, the seeds
passed to `btcrseed.main` so far, and `retval`. -/
structure BatchState where
  seedIndex : Nat
  completed : Text → Bool
  progress : Text
  calls : List Text
  retval : Nat

/-- `_append_progress(progress_filename, seed, status, ...)`. -/
def BatchState.append (st : BatchState) (pass : PassEnv) (seed status : Text) : BatchState :=
  if pass.writes then
    { st with progress := st.progress ++ progressEntry status seed pass.extraFields }
  else st

/-- `completed_seeds.add(seed)` when `--batch-skip-completed` is set. -/
def BatchState.complete (st : BatchState) (cfg : BatchConfig) (seed : Text) : BatchState :=
  if cfg.skipCompleted then { st with completed := fun s => s = seed || st.completed s } else st

/-- The status `_append_progress` records for a result of `btcrseed.main`. -/
def MainResult.status : MainResult → Text
  | .raised | .none => "ERROR".toList
  | .notFound => "CHECKED".toList
  | .found => "MATCHED".toList

/-- The state once `btcrseed.main` has returned `r` for `seed`: the progress entry, the
`completed_seeds.add(seed)` after a success, and `retval`. -/
def BatchState.record (st : BatchState) (cfg : BatchConfig) (pass : PassEnv) (seed : Text) :
    MainResult → BatchState
  | .raised => st.append pass seed MainResult.raised.status
  | .none => { st.append pass seed MainResult.none.status with retval := 1 }
  | .notFound =>
    { (st.append pass seed MainResult.notFound.status).complete cfg seed with retval := 0 }
  | .found => { (st.append pass seed MainResult.found.status).complete cfg seed with retval := 0 }

/-- The `for mnemonic in batch_seed_list` loop, the pass over line `n` meeting `env n`. It stops
at a recorded match, setting `retval = 0`, or after a found one. -/
def batchLoop (cfg : BatchConfig) (main : Text → MainResult) :
    (Nat → PassEnv) → List Text → BatchState → BatchState
  | _, [], st => st
  | env, mnemonic :: rest, st =>
    let pass := env 0
    let recorded := progressContainsMatch (st.progress ++ pass.appendedBefore) pass.readLimit
    let st := { st with progress := st.progress ++ pass.appendedBefore ++ pass.appendedAfter }
    let next := fun n => env (n + 1)
    if recorded then { st with retval := 0 }
    else if isSkippedLine mnemonic then batchLoop cfg main next rest st
    else
      let seed := seedOf mnemonic
      if cfg.skipCompleted && st.completed seed then
        batchLoop cfg main next rest { st with seedIndex := st.seedIndex + 1 }
      else if cfg.foreign st.seedIndex then
        batchLoop cfg main next rest { st with seedIndex := st.seedIndex + 1 }
      else
        let st := { st with seedIndex := st.seedIndex + 1, calls := st.calls ++ [seed] }
        let st := st.record cfg pass seed (main seed)
        if main seed = .found then st else batchLoop cfg main next rest st

/-- One run of the script on the batch file's text and the progress file's text as it finds
them. -/
def batchRun (cfg : BatchConfig) (main : Text → MainResult) (env : RunEnv)
    (batchFile progress : Text) : BatchState :=
  let lines := fileLines batchFile
  let lines := if cfg.reverse then lines.reverse else lines
  let completed := if cfg.skipCompleted then loadCompletedSeeds progress env.loadLimit
    else fun _ => false
  batchLoop cfg main env.pass lines ⟨0, completed, progress, [], 0⟩

/-- Runs one after another on one batch file and one progress file. -/
def runFamily (main : Text → MainResult) (batchFile : Text) :
    List (BatchConfig × RunEnv) → Text → List BatchState
  | [], _ => []
  | (cfg, env) :: runs, progress =>
    let st := batchRun cfg main env batchFile progress
    st :: runFamily main batchFile runs st.progress

def ownedSeeds (cfg : BatchConfig) : Nat → List Text → List Text
  | _, [] => []
  | i, seed :: seeds =>
    if cfg.foreign i then ownedSeeds cfg (i + 1) seeds else seed :: ownedSeeds cfg (i + 1) seeds

/-! ## Entries -/

theorem intercalate_cons_cons (sep : Char) (a b : Text) (l : List Text) :
    List.intercalate [sep] (a :: b :: l) = a ++ sep :: List.intercalate [sep] (b :: l) := by
  simp [List.intercalate, List.intersperse_cons_cons]

theorem progressEntry_eq (status seed : Text) (extra : List Text) :
    progressEntry status seed extra =
      status ++ '\t' :: (List.intercalate ['\t'] (seed :: extra) ++ ['\n']) := by
  rw [progressEntry, intercalate_cons_cons, List.append_assoc, List.cons_append]

theorem lineFree_intercalate {fields : List Text} (h : ∀ f ∈ fields, LineFree f) :
    LineFree (List.intercalate ['\t'] fields) := by
  refine ⟨fun hn => ?_, fun hr => ?_⟩
  · rcases mem_intercalate hn with h' | ⟨f, hf, hn⟩
    · exact absurd h' (by decide)
    · exact (h f hf).1 hn
  · rcases mem_intercalate hr with h' | ⟨f, hf, hr⟩
    · exact absurd h' (by decide)
    · exact (h f hf).2 hr

theorem lineFree_status (r : MainResult) : LineFree r.status := by
  cases r <;> decide

theorem fileLines_progressEntry (r : MainResult) {seed : Text} (hseed : LineFree seed)
    {extra : List Text} (hextra : ∀ f ∈ extra, LineFree f) :
    fileLines (progressEntry r.status seed extra) = [progressEntry r.status seed extra] :=
  fileLines_line (lineFree_intercalate (by
    rintro f (_ | ⟨_, _ | ⟨_, hf⟩⟩)
    · exact lineFree_status r
    · exact hseed
    · exact hextra f hf))

theorem takeWhile_append_cons_of_neg {p : Char → Bool} {c : Char} (hc : p c = false)
    (l r : Text) : (l ++ c :: r).takeWhile p = l.takeWhile p := by
  induction l with
  | nil => simp [List.takeWhile_cons, hc]
  | cons d l ih => simp only [List.cons_append, List.takeWhile_cons, ih]

theorem takeWhile_intercalate (seed : Text) (extra : List Text) :
    (List.intercalate ['\t'] (seed :: extra)).takeWhile (fun c => c ≠ '\t') =
      seed.takeWhile fun c => c ≠ '\t' := by
  cases extra with
  | nil => simp [List.intercalate]
  | cons f fs => rw [intercalate_cons_cons, takeWhile_append_cons_of_neg (by decide)]

/-- What the reader takes for the seed of an entry is the seed up to its first tab, which is
the seed itself exactly when it holds no tab. -/
theorem statusSeed_progressEntry (r : MainResult) {seed : Text} (hseed : '\n' ∉ seed)
    {extra : List Text} (hextra : ∀ f ∈ extra, '\n' ∉ f) :
    statusSeed? (progressEntry r.status seed extra) =
      some (r.status, seed.takeWhile fun c => c ≠ '\t') ∧
      (seed.takeWhile (fun c => c ≠ '\t') = seed ↔ '\t' ∉ seed) := by
  refine ⟨?_, ?_⟩
  · have hnl : '\n' ∉ List.intercalate ['\t'] (r.status :: seed :: extra) := fun hn => by
      rcases mem_intercalate hn with h | ⟨f, hf, hfn⟩
      · exact absurd h (by decide)
      · rcases List.mem_cons.1 hf with rfl | hf
        · exact (lineFree_status r).1 hfn
        · rcases List.mem_cons.1 hf with rfl | hf
          · exact hseed hfn
          · exact hextra f hf hfn
    have hrd : (progressEntry r.status seed extra).rdropWhile (· == '\n') =
        List.intercalate ['\t'] (r.status :: seed :: extra) := by
      rw [progressEntry, List.rdropWhile_concat_pos (· == '\n') _ '\n' rfl,
        List.rdropWhile_eq_self_iff]
      intro hne hlast
      simp only [beq_iff_eq] at hlast
      exact hnl (hlast ▸ List.getLast_mem hne)
    have htab : '\t' ∉ r.status := by cases r <;> decide
    obtain ⟨w, ws, hw⟩ := List.exists_cons_of_ne_nil
      (pySplit_ne_nil '\t' (List.intercalate ['\t'] (seed :: extra)))
    have hhead := headD_pySplit '\t' (List.intercalate ['\t'] (seed :: extra))
    rw [hw, takeWhile_intercalate] at hhead
    rw [statusSeed?, hrd, intercalate_cons_cons, pySplit_append_cons htab, hw]
    exact congrArg (fun w => some (r.status, w)) hhead
  · rw [List.takeWhile_eq_self_iff]
    simp only [decide_eq_true_eq]
    exact ⟨fun h h' => h _ h' rfl, fun h x hx hx' => h (hx' ▸ hx)⟩

/-! ## Matches -/

theorem isPrefixOf_append_iff (p x w : Text) :
    p.isPrefixOf (x ++ w) = true ↔
      p.isPrefixOf x = true ∨ x.isPrefixOf p = true ∧ (p.drop x.length).isPrefixOf w = true := by
  induction x generalizing p with
  | nil => cases p <;> simp [List.isPrefixOf]
  | cons c x ih =>
    cases p with
    | nil => simp [List.isPrefixOf]
    | cons d p =>
      rw [List.cons_append, List.isPrefixOf_cons₂, List.isPrefixOf_cons₂, List.isPrefixOf_cons₂,
        List.length_cons, List.drop_succ_cons]
      simp only [Bool.and_eq_true, beq_iff_eq, ih]
      constructor
      · rintro ⟨rfl, h | h⟩
        · exact .inl ⟨rfl, h⟩
        · exact .inr ⟨⟨rfl, h.1⟩, h.2⟩
      · rintro (⟨rfl, h⟩ | ⟨⟨rfl, h⟩, h'⟩)
        · exact ⟨rfl, .inl h⟩
        · exact ⟨rfl, .inr ⟨h, h'⟩⟩

/-- An entry whose status is not `MATCHED` does not complete a line that does not start with
`MATCHED<TAB>` into one that does. -/
theorem isMatchLine_append_progressEntry {x : Text} (hx : isMatchLine x = false)
    {r : MainResult} (hr : r ≠ .found) (seed : Text) (extra : List Text) :
    isMatchLine (x ++ progressEntry r.status seed extra) = false := by
  rw [Bool.eq_false_iff]
  intro h
  rw [isMatchLine, isPrefixOf_append_iff] at h
  rcases h with h | ⟨hxp, hw⟩
  · simp only [isMatchLine] at hx
    exact absurd h (by rw [hx]; decide)
  have hpre := List.isPrefixOf_iff_prefix.1 hxp
  have hx8 := List.prefix_iff_eq_take.1 hpre
  have hlen : x.length ≤ 8 := hpre.length_le
  rw [progressEntry_eq] at hw
  generalize hk : x.length = k at hx8 hw hlen
  subst hx8
  interval_cases k <;> cases r <;> simp_all [isMatchLine, MainResult.status, List.isPrefixOf]

theorem progressContainsMatch_of_readUpTo {file : Text} {limit : Option Nat}
    (h : progressContainsMatch file limit = true) : progressContainsMatch file none = true := by
  cases limit with
  | none => exact h
  | some k =>
    simp only [progressContainsMatch, readUpTo, List.any_eq_true] at h ⊢
    obtain ⟨line, hline, hm⟩ := h
    exact ⟨line, List.mem_of_mem_take hline, hm⟩

theorem progressContainsMatch_append {a : Text} (ha : EndsLine a) (b : Text) :
    progressContainsMatch (a ++ b) none =
      (progressContainsMatch a none || progressContainsMatch b none) := by
  simp [progressContainsMatch, readUpTo, fileLines_append ha]

theorem lineFree_entryFields (r : MainResult) {seed : Text} (hseed : LineFree seed)
    {extra : List Text} (hextra : ∀ f ∈ extra, LineFree f) :
    LineFree (List.intercalate ['\t'] (r.status :: seed :: extra)) :=
  lineFree_intercalate (by
    rintro f (_ | ⟨_, _ | ⟨_, hf⟩⟩)
    · exact lineFree_status r
    · exact hseed
    · exact hextra f hf)

/-- An entry that is not `MATCHED`, whose fields hold no line break, leaves a file without a
match without one, even when the file does not end a line. -/
theorem progressContainsMatch_append_progressEntry {file : Text}
    (hfile : progressContainsMatch file none = false) {r : MainResult} (hr : r ≠ .found)
    {seed : Text} (hseed : LineFree seed) {extra : List Text} (hextra : ∀ f ∈ extra, LineFree f) :
    progressContainsMatch (file ++ progressEntry r.status seed extra) none = false := by
  have hv := lineFree_entryFields r hseed hextra
  have hcr : '\r' ∉ progressEntry r.status seed extra := by simp [progressEntry, hv.2]
  have htr : translateNewlines (file ++ progressEntry r.status seed extra) =
      translateNewlines file ++ progressEntry r.status seed extra := by
    rw [translateNewlines_append, translateNewlines_of_not_mem hcr]
    intro _
    rw [progressEntry_eq]
    cases r <;> simp [MainResult.status]
  obtain ⟨p, x, hpx, hp, hx⟩ := exists_endsLine_append (translateNewlines file)
  have hsplit : splitLines (x ++ progressEntry r.status seed extra) =
      [x ++ progressEntry r.status seed extra] :=
    splitLines_append_of_not_mem hx (splitLines_append_of_not_mem hv.1 rfl)
  have hfile' : (splitLines p ++ splitLines x).any isMatchLine = false := by
    rw [← splitLines_append_of_endsLine hp, ← hpx]
    exact hfile
  rw [List.any_append, Bool.or_eq_false_iff] at hfile'
  obtain ⟨hpm, hxs⟩ := hfile'
  have hxm : isMatchLine x = false := by
    rcases eq_or_ne x [] with rfl | hne
    · rfl
    · simpa [splitLines_of_not_mem hx hne] using hxs
  simp only [progressContainsMatch, readUpTo, fileLines, htr, hpx, List.append_assoc,
    splitLines_append_of_endsLine hp, hsplit, List.any_append, hpm, Bool.false_or,
    List.any_cons, List.any_nil, Bool.or_false]
  exact isMatchLine_append_progressEntry hxm hr seed extra

/-! ## Reading the progress file -/

theorem any_loadStep (m : Text → Option Text) (line seed : Text) :
    ((loadStep m line) seed).any (· ∈ successStatuses) = true ↔
      (m seed).any (· ∈ successStatuses) = true ∨
        seed ≠ [] ∧ ∃ status ∈ successStatuses, statusSeed? line = some (status, seed) := by
  unfold loadStep
  rcases h : statusSeed? line with _ | ⟨status, sv⟩
  · simp
  · by_cases hsv : sv = seed
    · subst hsv
      by_cases he : sv.isEmpty
      · simp_all [List.isEmpty_iff]
      · have hne : sv ≠ [] := by simpa [List.isEmpty_iff] using he
        simp only [he, if_false, hne, ne_eq, not_false_eq_true, Option.some.injEq, Prod.mk.injEq,
          true_and, and_true, exists_eq_right]
        split_ifs with h1 h2 <;> simp_all
    · have : ∀ s, (some (status, sv) = some (s, seed)) = False := by
        intro s
        simp only [Option.some.injEq, Prod.mk.injEq, hsv, and_false]
      simp only [this, and_false, exists_false, or_false]
      split_ifs <;> simp [Ne.symm hsv]

/-- A seed is completed when some line read records it, as the reader splits the line, with a
success status. -/
theorem loadCompletedSeeds_iff (file : Text) (limit : Option Nat) (seed : Text) :
    loadCompletedSeeds file limit seed = true ↔
      seed ≠ [] ∧ ∃ line ∈ readUpTo limit (fileLines file), ∃ status ∈ successStatuses,
        statusSeed? line = some (status, seed) := by
  suffices h : ∀ (lines : List Text) (m : Text → Option Text),
      ((lines.foldl loadStep m) seed).any (· ∈ successStatuses) = true ↔
        (m seed).any (· ∈ successStatuses) = true ∨ seed ≠ [] ∧ ∃ line ∈ lines,
          ∃ status ∈ successStatuses, statusSeed? line = some (status, seed) by
    rw [loadCompletedSeeds, h]
    simp
  intro lines
  induction lines with
  | nil => simp
  | cons line lines ih =>
    intro m
    rw [List.foldl_cons, ih, any_loadStep]
    constructor
    · rintro ((h | ⟨hs, st, hst, h⟩) | ⟨hs, l, hl, st, hst, h⟩)
      · exact .inl h
      · exact .inr ⟨hs, line, List.mem_cons_self _ _, st, hst, h⟩
      · exact .inr ⟨hs, l, List.mem_cons_of_mem _ hl, st, hst, h⟩
    · rintro (h | ⟨hs, l, hl, st, hst, h⟩)
      · exact .inl (.inl h)
      · rcases List.mem_cons.1 hl with rfl | hl
        · exact .inl (.inr ⟨hs, st, hst, h⟩)
        · exact .inr ⟨hs, l, hl, st, hst, h⟩

/-! ## Seeds -/

theorem seedLines_cons_of_skipped {line : Text} (h : isSkippedLine line = true) (rest : List Text) :
    seedLines (line :: rest) = seedLines rest := by
  simp [seedLines, h]

theorem seedLines_cons {line : Text} (h : isSkippedLine line = false) (rest : List Text) :
    seedLines (line :: rest) = seedOf line :: seedLines rest := by
  simp [seedLines, h]

theorem lineFree_seedOf {line u : Text} (hu : LineFree u) (hline : line = u ∨ line = u ++ ['\n']) :
    LineFree (seedOf line) := by
  rw [seedOf, headD_pySplit]
  have hpre := List.takeWhile_prefix (fun c => decide (c ≠ '#')) (l := line)
  refine hu.sublist ?_
  rcases hline with rfl | rfl
  · exact (pyStrip_sublist _).trans hpre.sublist
  · rcases List.prefix_concat_iff.1 hpre with h | h
    · rw [h, pyStrip_append_space (by decide)]
      exact pyStrip_sublist u
    · exact (pyStrip_sublist _).trans h.sublist

theorem lineFree_of_mem_seedLines {file s : Text} (hs : s ∈ seedLines (fileLines file)) :
    LineFree s := by
  obtain ⟨line, hline, rfl⟩ := List.mem_map.1 hs
  obtain ⟨u, hu, h⟩ := mem_fileLines (List.mem_filter.1 hline).1
  exact lineFree_seedOf hu h

/-! ## One pass -/

def BatchState.visit (st : BatchState) (pass : PassEnv) : BatchState :=
  { st with progress := st.progress ++ pass.appendedBefore ++ pass.appendedAfter }

def BatchState.called (st : BatchState) (cfg : BatchConfig) (main : Text → MainResult)
    (pass : PassEnv) (seed : Text) : BatchState :=
  { st with seedIndex := st.seedIndex + 1, calls := st.calls ++ [seed] }.record cfg pass seed
    (main seed)

section Pass

variable (cfg : BatchConfig) (main : Text → MainResult) (env : Nat → PassEnv) (line : Text)
  (rest : List Text) (st : BatchState)

theorem batchLoop_cons_of_recorded
    (hm : progressContainsMatch (st.progress ++ (env 0).appendedBefore) (env 0).readLimit = true) :
    batchLoop cfg main env (line :: rest) st = { st.visit (env 0) with retval := 0 } := by
  simp only [batchLoop, hm, if_true, BatchState.visit]

/-- One pass of the loop that finds no match recorded: a blank or comment line is passed over;
a counted line is skipped as completed or as another worker's, with `seed_index` counted; or its
seed goes to `btcrseed.main`, and the loop stops if a seed is found. -/
theorem batchLoop_cons_cases
    (hm : progressContainsMatch (st.progress ++ (env 0).appendedBefore) (env 0).readLimit = false) :
    (isSkippedLine line = true ∧ batchLoop cfg main env (line :: rest) st =
      batchLoop cfg main (fun n => env (n + 1)) rest (st.visit (env 0))) ∨
    (isSkippedLine line = false ∧
      (cfg.skipCompleted && st.completed (seedOf line) || cfg.foreign st.seedIndex) = true ∧
      batchLoop cfg main env (line :: rest) st = batchLoop cfg main (fun n => env (n + 1)) rest
        { st.visit (env 0) with seedIndex := st.seedIndex + 1 }) ∨
    (isSkippedLine line = false ∧ (cfg.skipCompleted && st.completed (seedOf line)) = false ∧
      cfg.foreign st.seedIndex = false ∧
      batchLoop cfg main env (line :: rest) st =
        if main (seedOf line) = .found then (st.visit (env 0)).called cfg main (env 0) (seedOf line)
        else batchLoop cfg main (fun n => env (n + 1)) rest
          ((st.visit (env 0)).called cfg main (env 0) (seedOf line))) := by
  rcases Bool.eq_false_or_eq_true (isSkippedLine line) with hs | hs
  · exact .inl ⟨hs, by simp only [batchLoop, hm, hs, if_true, if_false, Bool.false_eq_true,
      BatchState.visit]⟩
  refine .inr ?_
  by_cases hc : (cfg.skipCompleted && st.completed (seedOf line)) = true
  · exact .inl ⟨hs, by simp [hc], by simp only [batchLoop, hm, hs, hc, if_true, if_false,
      Bool.false_eq_true, BatchState.visit]⟩
  by_cases hf : cfg.foreign st.seedIndex = true
  · exact .inl ⟨hs, by simp [hf], by simp only [batchLoop, hm, hs, hc, hf, if_true, if_false,
      Bool.false_eq_true, BatchState.visit]⟩
  refine .inr ⟨hs, by simpa using hc, by simpa using hf, ?_⟩
  simp only [batchLoop, hm, hs, hc, hf, if_false, Bool.false_eq_true, BatchState.called,
    BatchState.visit]

end Pass

@[simp] theorem seedIndex_visit (st : BatchState) (pass : PassEnv) :
    (st.visit pass).seedIndex = st.seedIndex := rfl

@[simp] theorem calls_visit (st : BatchState) (pass : PassEnv) :
    (st.visit pass).calls = st.calls := rfl

@[simp] theorem completed_visit (st : BatchState) (pass : PassEnv) :
    (st.visit pass).completed = st.completed := rfl

@[simp] theorem retval_visit (st : BatchState) (pass : PassEnv) :
    (st.visit pass).retval = st.retval := rfl

theorem progress_visit (st : BatchState) (pass : PassEnv) :
    (st.visit pass).progress = st.progress ++ pass.appendedBefore ++ pass.appendedAfter := rfl

@[simp] theorem calls_called (st : BatchState) (cfg : BatchConfig) (main : Text → MainResult)
    (pass : PassEnv) (seed : Text) : (st.called cfg main pass seed).calls = st.calls ++ [seed] := by
  simp only [BatchState.called]
  cases main seed <;> simp only [BatchState.record, BatchState.complete, BatchState.append] <;>
    split_ifs <;> rfl

@[simp] theorem seedIndex_called (st : BatchState) (cfg : BatchConfig) (main : Text → MainResult)
    (pass : PassEnv) (seed : Text) :
    (st.called cfg main pass seed).seedIndex = st.seedIndex + 1 := by
  simp only [BatchState.called]
  cases main seed <;> simp only [BatchState.record, BatchState.complete, BatchState.append] <;>
    split_ifs <;> rfl

theorem progress_called (st : BatchState) (cfg : BatchConfig) (main : Text → MainResult)
    (pass : PassEnv) (seed : Text) : (st.called cfg main pass seed).progress =
      if pass.writes then st.progress ++ progressEntry (main seed).status seed pass.extraFields
      else st.progress := by
  simp only [BatchState.called]
  cases main seed <;> simp only [BatchState.record, BatchState.complete, BatchState.append] <;>
    split_ifs <;> rfl

/-! ## Runs -/

/-- A run passes to `btcrseed.main` only lines it owns, in their order, whatever `main` returns,
the progress file holds, `--batch-skip-completed` says or the environment does. -/
theorem calls_sublist_ownedSeeds (cfg : BatchConfig) (main : Text → MainResult)
    (lines : List Text) : ∀ (env : Nat → PassEnv) (st : BatchState),
      ∃ l, (batchLoop cfg main env lines st).calls = st.calls ++ l ∧
        l.Sublist (ownedSeeds cfg st.seedIndex (seedLines lines)) := by
  induction lines with
  | nil => exact fun _ st => ⟨[], by simp [batchLoop], List.nil_sublist _⟩
  | cons line rest ih =>
    intro env st
    rcases Bool.eq_false_or_eq_true (progressContainsMatch (st.progress ++ (env 0).appendedBefore)
      (env 0).readLimit) with hm | hm
    · exact ⟨[], by simp [batchLoop_cons_of_recorded cfg main env line rest st hm],
        List.nil_sublist _⟩
    rcases batchLoop_cons_cases cfg main env line rest st hm with ⟨hs, h⟩ | ⟨hs, hc, h⟩ |
      ⟨hs, -, hf, h⟩
    · rw [h, seedLines_cons_of_skipped hs]
      exact ih _ _
    · obtain ⟨l, hl, hsub⟩ := ih (fun n => env (n + 1)) { st.visit (env 0) with seedIndex := _ }
      refine ⟨l, by rw [h, hl]; rfl, ?_⟩
      rw [seedLines_cons hs, ownedSeeds]
      split_ifs
      · exact hsub
      · exact hsub.cons _
    · rw [h, seedLines_cons hs, ownedSeeds, if_neg (show ¬cfg.foreign st.seedIndex = true by
        simp [hf])]
      split_ifs
      · exact ⟨[seedOf line], by simp, (List.nil_sublist _).cons₂ _⟩
      · obtain ⟨l, hl, hsub⟩ := ih _ ((st.visit (env 0)).called cfg main (env 0) (seedOf line))
        rw [hl, calls_called, seedIndex_called] at *
        exact ⟨seedOf line :: l, by simp, hsub.cons₂ _⟩

/-! ## A lost line -/

/-- Two runs with `--batch-skip-completed`, worker `1/2` and then worker `2/2`, over the lines
`a<TAB>b` and `a`, with `btcrseed.main` finding nothing. The line `a` has rank 1, so only the
second run owns it. The first run appends `CHECKED<TAB>a<TAB>b`, which the second run reads as a
record for `a`, so it skips the line: no run passes `a` to `btcrseed.main`, and no entry was
written for `a`. -/
theorem batch_tab_seed_lost :
    seedLines (fileLines "a\tb\na\n".toList) = ["a\tb".toList, "a".toList] ∧
      (runFamily (fun _ => .notFound) "a\tb\na\n".toList
          [(⟨some [0], 2, false, true⟩, .quiet), (⟨some [1], 2, false, true⟩, .quiet)] []).map
          (fun st => (st.calls, st.progress)) =
        [([("a\tb".toList)], progressEntry "CHECKED".toList "a\tb".toList []),
          ([], progressEntry "CHECKED".toList "a\tb".toList [])] := by
  decide

end Aezeed.Batch
