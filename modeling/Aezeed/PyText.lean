import Mathlib.Data.List.Basic
import Mathlib.Data.List.DropRight

/-!
# Python text

The parts of Python's `str` and of text files that the batch driver relies on, on text as a list
of characters: `str.isspace`, `strip`, `rstrip("\n")` and `split` with a one-character separator,
and how a file opened in text mode is read back (`readlines()`, `for line in file`): `\r\n` and a
lone `\r` are read as `\n`, and each line keeps its `\n`.

Text that ends a line is read back line by line whatever is appended to it (`fileLines_append`);
text without a line break, written with a `\n` after it, is read back as that one line
(`fileLines_line`). Appended to text that does not end a line, the first appended line is read
as the end of the file's last line (`splitLines_append_of_not_mem`).
-/

namespace Aezeed.Batch

/-- A Python `str`, as its characters. -/
abbrev Text := List Char

/-- `c.isspace()`: the characters `str.strip()` removes. -/
def pyIsSpace (c : Char) : Bool :=
  let n := c.toNat
  (9 ≤ n && n ≤ 13) || (28 ≤ n && n ≤ 32) || n == 0x85 || n == 0xA0 || n == 0x1680 ||
    (0x2000 ≤ n && n ≤ 0x200A) || n == 0x2028 || n == 0x2029 || n == 0x202F || n == 0x205F ||
    n == 0x3000

def pyStrip (s : Text) : Text := ((s.dropWhile pyIsSpace).reverse.dropWhile pyIsSpace).reverse

/-- `s.split(sep)` for a one-character `sep`. -/
def pySplit (sep : Char) : Text → List Text
  | [] => [[]]
  | c :: cs =>
    if c = sep then [] :: pySplit sep cs
    else match pySplit sep cs with
      | w :: ws => (c :: w) :: ws
      | [] => [[c]]

/-! ## Text files -/

/-- Universal newlines: a file opened in text mode reads `\r\n` and a lone `\r` as `\n`. -/
def translateNewlines : Text → Text
  | [] => []
  | '\r' :: '\n' :: rest => '\n' :: translateNewlines rest
  | '\r' :: rest => '\n' :: translateNewlines rest
  | c :: rest => c :: translateNewlines rest

/-- Text cut after each `\n`, which stays at the end of its line; a last line without one is
kept as it is. -/
def splitLines : Text → List Text
  | [] => []
  | c :: rest =>
    if c = '\n' then ['\n'] :: splitLines rest
    else match splitLines rest with
      | [] => [[c]]
      | line :: lines => (c :: line) :: lines

/-- The lines of a file opened in text mode, as `readlines()` returns them and
`for line in file` yields them. -/
def fileLines (file : Text) : List Text := splitLines (translateNewlines file)

/-- Empty, or ending with `\n`: what is written next starts a line. -/
def EndsLine (t : Text) : Prop := t = [] ∨ t.getLast? = some '\n'

/-- Without `\n` or `\r`: the text is read back within one line. -/
def LineFree (t : Text) : Prop := '\n' ∉ t ∧ '\r' ∉ t

instance (t : Text) : Decidable (EndsLine t) := inferInstanceAs (Decidable (_ ∨ _))

instance (t : Text) : Decidable (LineFree t) := inferInstanceAs (Decidable (_ ∧ _))

/-! ## Splitting -/

theorem pySplit_append_cons {sep : Char} {a : Text} (ha : sep ∉ a) (b : Text) :
    pySplit sep (a ++ sep :: b) = a :: pySplit sep b := by
  induction a with
  | nil => simp [pySplit]
  | cons c cs ih =>
    have hc : c ≠ sep := fun h => ha (h ▸ List.mem_cons_self c cs)
    rw [List.cons_append, pySplit, if_neg hc, ih fun h => ha (List.mem_cons_of_mem c h)]

theorem headD_pySplit (sep : Char) (a : Text) :
    (pySplit sep a).headD [] = a.takeWhile fun c => c ≠ sep := by
  induction a with
  | nil => rfl
  | cons c cs ih =>
    rw [pySplit, List.takeWhile_cons]
    by_cases hc : c = sep
    · simp [hc]
    · rw [if_neg hc]
      revert ih
      cases pySplit sep cs <;> simp [hc]

theorem pySplit_ne_nil (sep : Char) (a : Text) : pySplit sep a ≠ [] := by
  cases a with
  | nil => simp [pySplit]
  | cons c cs =>
    rw [pySplit]
    split_ifs
    · simp
    · split <;> simp

theorem mem_intercalate {sep c : Char} {ds : List Text} (h : c ∈ List.intercalate [sep] ds) :
    c = sep ∨ ∃ d ∈ ds, c ∈ d := by
  induction ds with
  | nil => simp [List.intercalate] at h
  | cons d ds ih =>
    cases ds with
    | nil => exact .inr ⟨d, List.mem_singleton_self d, by simpa [List.intercalate] using h⟩
    | cons d' ds =>
      simp only [List.intercalate, List.intersperse_cons_cons, List.flatten_cons, List.mem_append,
        List.mem_singleton] at h
      rcases h with h | h | h
      · exact .inr ⟨d, List.mem_cons_self _ _, h⟩
      · exact .inl h
      · rcases ih h with h | ⟨e, he, hc⟩
        · exact .inl h
        · exact .inr ⟨e, List.mem_cons_of_mem _ he, hc⟩

/-! ## Stripping -/

theorem pyStrip_sublist (s : Text) : (pyStrip s).Sublist s := by
  have h := (List.dropWhile_sublist pyIsSpace (l := (s.dropWhile pyIsSpace).reverse))
  rw [← List.reverse_sublist, List.reverse_reverse] at h
  exact h.trans (List.dropWhile_sublist _)

theorem pyStrip_append_space {c : Char} (hc : pyIsSpace c = true) (s : Text) :
    pyStrip (s ++ [c]) = pyStrip s := by
  unfold pyStrip
  rw [List.dropWhile_append]
  split_ifs with h
  · simp [List.isEmpty_iff.1 h, hc]
  · simp [hc]

theorem endsLine_cons {c : Char} {t : Text} :
    EndsLine (c :: t) ↔ t = [] ∧ c = '\n' ∨ t ≠ [] ∧ EndsLine t := by
  cases t <;> simp [EndsLine, List.getLast?_cons_cons]

theorem EndsLine.append {a b : Text} (ha : EndsLine a) (hb : EndsLine b) : EndsLine (a ++ b) := by
  rcases hb with rfl | hb
  · simpa using ha
  · exact .inr (by simp [List.getLast?_append, hb])

theorem endsLine_append_newline (t : Text) : EndsLine (t ++ ['\n']) := .inr (by simp)

theorem EndsLine.of_cons {c : Char} {t : Text} (h : EndsLine (c :: t)) : EndsLine t :=
  (endsLine_cons.1 h).elim (fun h => .inl h.1) And.right

theorem EndsLine.newline_cons {t : Text} (h : EndsLine t) : EndsLine ('\n' :: t) :=
  endsLine_cons.2 ((eq_or_ne t []).elim (fun ht => .inl ⟨ht, rfl⟩) fun ht => .inr ⟨ht, h⟩)

theorem LineFree.sublist {t u : Text} (ht : LineFree t) (h : u.Sublist t) : LineFree u :=
  ⟨fun hn => ht.1 (h.subset hn), fun hr => ht.2 (h.subset hr)⟩

/-! ## Reading text back as lines -/

/-- Universal newlines act on each part of a text alone, unless the first part ends with `\r`
and the second starts with `\n`. -/
theorem translateNewlines_append (a b : Text) (h : a.getLast? = some '\r' → b.head? ≠ some '\n') :
    translateNewlines (a ++ b) = translateNewlines a ++ translateNewlines b := by
  induction a using translateNewlines.induct with
  | case1 => rfl
  | case2 rest ih =>
    rw [List.cons_append, List.cons_append, translateNewlines, translateNewlines,
      ih fun hl => h (by simp [List.getLast?_cons, hl])]
    rfl
  | case3 rest hrest ih =>
    have hb : ∀ r, rest ++ b = '\n' :: r → False := by
      cases rest with
      | nil => exact fun r hr => h rfl (by rw [← List.nil_append b, hr]; rfl)
      | cons c rest => simpa using hrest rest
    rw [List.cons_append, translateNewlines.eq_3 _ hb, translateNewlines.eq_3 _ hrest,
      ih fun hl => h (by simp [List.getLast?_cons, hl])]
    rfl
  | case4 c rest h1 hc ih =>
    rw [List.cons_append, translateNewlines.eq_4 _ _ (fun _ h' => absurd h' hc) hc,
      translateNewlines.eq_4 _ _ h1 hc, ih fun hl => h (by simp [List.getLast?_cons, hl])]
    rfl

theorem cr_not_mem_translateNewlines (t : Text) : '\r' ∉ translateNewlines t := by
  induction t using translateNewlines.induct with
  | case1 => simp [translateNewlines]
  | case2 rest ih => simpa [translateNewlines] using ih
  | case3 rest hrest ih => simpa [translateNewlines.eq_3 _ hrest] using ih
  | case4 c rest h1 hc ih =>
    rw [translateNewlines.eq_4 _ _ h1 hc, List.mem_cons, not_or]
    exact ⟨fun h => hc h.symm, ih⟩

theorem translateNewlines_of_not_mem {t : Text} (h : '\r' ∉ t) : translateNewlines t = t := by
  induction t with
  | nil => rfl
  | cons c t ih =>
    have hc : c ≠ '\r' := fun hc => h (hc ▸ List.mem_cons_self c t)
    rw [translateNewlines.eq_4 _ _ (fun _ h' => absurd h' hc) hc,
      ih fun h' => h (List.mem_cons_of_mem c h')]

theorem translateNewlines_eq_nil_iff {t : Text} : translateNewlines t = [] ↔ t = [] := by
  induction t using translateNewlines.induct with
  | case1 => simp [translateNewlines]
  | case2 rest _ => simp [translateNewlines]
  | case3 rest hrest _ => simp [translateNewlines.eq_3 _ hrest]
  | case4 c rest h1 hc _ => simp [translateNewlines.eq_4 _ _ h1 hc]

theorem endsLine_translateNewlines {t : Text} (ht : EndsLine t) :
    EndsLine (translateNewlines t) := by
  induction t using translateNewlines.induct with
  | case1 => exact ht
  | case2 rest ih =>
    rw [translateNewlines]
    exact (ih ht.of_cons.of_cons).newline_cons
  | case3 rest hrest ih =>
    rw [translateNewlines.eq_3 _ hrest]
    exact (ih ht.of_cons).newline_cons
  | case4 c rest h1 hc ih =>
    rw [translateNewlines.eq_4 _ _ h1 hc]
    rcases endsLine_cons.1 ht with ⟨rfl, rfl⟩ | ⟨hne, hr⟩
    · exact endsLine_cons.2 (.inl ⟨rfl, rfl⟩)
    · exact endsLine_cons.2 (.inr ⟨mt translateNewlines_eq_nil_iff.1 hne, ih hr⟩)

theorem splitLines_ne_nil {t : Text} (ht : t ≠ []) : splitLines t ≠ [] := by
  obtain ⟨c, t, rfl⟩ := List.exists_cons_of_ne_nil ht
  rw [splitLines]
  split_ifs
  · simp
  · split <;> simp

theorem splitLines_append_of_endsLine {a : Text} (ha : EndsLine a) (b : Text) :
    splitLines (a ++ b) = splitLines a ++ splitLines b := by
  induction a with
  | nil => rfl
  | cons c a ih =>
    rcases endsLine_cons.1 ha with ⟨rfl, rfl⟩ | ⟨hne, ha⟩
    · simp [splitLines]
    · rw [List.cons_append, splitLines, splitLines, ih ha]
      split_ifs
      · rfl
      · obtain ⟨l, ls, h⟩ := List.exists_cons_of_ne_nil (splitLines_ne_nil hne)
        rw [h]
        rfl

theorem splitLines_append_of_not_mem {x : Text} (hx : '\n' ∉ x) {y l : Text} {ls : List Text}
    (hy : splitLines y = l :: ls) : splitLines (x ++ y) = (x ++ l) :: ls := by
  induction x with
  | nil => exact hy
  | cons c x ih =>
    have hc : c ≠ '\n' := fun h => hx (h ▸ List.mem_cons_self c x)
    rw [List.cons_append, splitLines, if_neg hc, ih fun h => hx (List.mem_cons_of_mem c h)]
    rfl

theorem splitLines_of_not_mem {x : Text} (hx : '\n' ∉ x) (hne : x ≠ []) : splitLines x = [x] := by
  induction x with
  | nil => exact absurd rfl hne
  | cons c x ih =>
    have hc : c ≠ '\n' := fun h => hx (h ▸ List.mem_cons_self c x)
    rw [splitLines, if_neg hc]
    rcases eq_or_ne x [] with rfl | hx'
    · rfl
    · rw [ih (fun h => hx (List.mem_cons_of_mem c h)) hx']

theorem exists_endsLine_append (t : Text) : ∃ p x, t = p ++ x ∧ EndsLine p ∧ '\n' ∉ x := by
  induction t with
  | nil => exact ⟨[], [], rfl, .inl rfl, List.not_mem_nil _⟩
  | cons c t ih =>
    obtain ⟨p, x, rfl, hp, hx⟩ := ih
    rcases eq_or_ne p [] with rfl | hne
    · by_cases hc : c = '\n'
      · exact ⟨[c], x, rfl, endsLine_cons.2 (.inl ⟨rfl, hc⟩), hx⟩
      · exact ⟨[], c :: x, rfl, .inl rfl, by simp [hx, Ne.symm hc]⟩
    · exact ⟨c :: p, x, rfl, endsLine_cons.2 (.inr ⟨hne, hp⟩), hx⟩

theorem mem_splitLines {t : Text} (ht : '\r' ∉ t) {l : Text} (hl : l ∈ splitLines t) :
    ∃ u, LineFree u ∧ (l = u ∨ l = u ++ ['\n']) := by
  induction t generalizing l with
  | nil => simp [splitLines] at hl
  | cons c t ih =>
    have hcr : c ≠ '\r' := fun h => ht (h ▸ List.mem_cons_self c t)
    have htl : '\r' ∉ t := fun h => ht (List.mem_cons_of_mem c h)
    rw [splitLines] at hl
    split_ifs at hl with hc
    · rcases List.mem_cons.1 hl with rfl | hl
      · exact ⟨[], ⟨List.not_mem_nil _, List.not_mem_nil _⟩, .inr rfl⟩
      · exact ih htl hl
    · rcases h : splitLines t with _ | ⟨line, lines⟩ <;> rw [h] at hl
      · rw [List.mem_singleton.1 hl]
        exact ⟨[c], by simp [LineFree, Ne.symm hc, Ne.symm hcr], .inl rfl⟩
      · rcases List.mem_cons.1 hl with rfl | hl
        · obtain ⟨u, hu, hlu⟩ := ih htl (h ▸ List.mem_cons_self line lines)
          exact ⟨c :: u, by simpa [LineFree, Ne.symm hc, Ne.symm hcr] using hu,
            hlu.imp (congrArg _) (congrArg _)⟩
        · exact ih htl (h ▸ List.mem_cons_of_mem line hl)

/-- Text that ends a line is read back line by line, whatever is appended to it. -/
theorem fileLines_append {a : Text} (ha : EndsLine a) (b : Text) :
    fileLines (a ++ b) = fileLines a ++ fileLines b := by
  have hr : a.getLast? = some '\r' → b.head? ≠ some '\n' := fun hl => by
    rcases ha with rfl | ha
    · simp at hl
    · simp [ha] at hl
  rw [fileLines, translateNewlines_append a b hr,
    splitLines_append_of_endsLine (endsLine_translateNewlines ha)]
  rfl

/-- Text without a line break, written with `\n` after it, is read back as one line. -/
theorem fileLines_line {x : Text} (hx : LineFree x) : fileLines (x ++ ['\n']) = [x ++ ['\n']] := by
  rw [fileLines, translateNewlines_of_not_mem (by simp [hx.2]),
    splitLines_append_of_not_mem hx.1 (rfl : splitLines ['\n'] = [['\n']])]
  rfl

theorem mem_fileLines {t l : Text} (hl : l ∈ fileLines t) :
    ∃ u, LineFree u ∧ (l = u ∨ l = u ++ ['\n']) :=
  mem_splitLines (cr_not_mem_translateNewlines t) hl

end Aezeed.Batch
