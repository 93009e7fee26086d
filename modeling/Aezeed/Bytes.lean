import Mathlib.Data.BitVec
import Mathlib.Logic.Function.Iterate
import Mathlib.Algebra.BigOperators.Fin
import Mathlib.Tactic.Ring
import Mathlib.Tactic.Positivity
import Mathlib.Tactic.Linarith
import Mathlib.Tactic.IntervalCases

/-!
# Byte strings

Python `bytes` and `bytearray` values are lists of 8-bit words. A slice `a[i:j]` is a copy and a
slice assignment `a[i:j] = v` splices `v` in; `int.from_bytes(_, "big")` and
`int.to_bytes(_, "big")` are the big-endian conversions, here instances of big-endian digit
strings in an arbitrary base, which the mnemonic codec also uses for its 11-bit word groups.
-/

namespace Aezeed

abbrev Bytes := List (BitVec 8)

/-- `a[i:j]`, a fresh copy of the bytes between `i` and `j`. -/
def slice (a : Bytes) (i j : Nat) : Bytes := (a.drop i).take (j - i)

/-- `a[i:j] = v`, which replaces the bytes between `i` and `j` by `v`. -/
def setSlice (a : Bytes) (i j : Nat) (v : Bytes) : Bytes := a.take i ++ v ++ a.drop j

theorem setSlice_zero (a : Bytes) (j : Nat) (v : Bytes) : setSlice a 0 j v = v ++ a.drop j := by
  simp [setSlice]

@[simp] theorem length_slice (a : Bytes) (i j : Nat) :
    (slice a i j).length = min (j - i) (a.length - i) := by
  simp [slice]

theorem length_setSlice {a v : Bytes} {i j : Nat} (hij : i ≤ j) (hj : j ≤ a.length)
    (hv : v.length = j - i) : (setSlice a i j v).length = a.length := by
  simp only [setSlice, List.length_append, List.length_take, List.length_drop]
  omega

theorem take_setSlice {a v : Bytes} {i j : Nat} (hij : i ≤ j) (hi : i ≤ a.length)
    (hv : v.length = j - i) : (setSlice a i j v).take j = a.take i ++ v := by
  rw [setSlice, List.take_left' (by simp [hi, hv]; omega)]

theorem drop_setSlice {a v : Bytes} {i j : Nat} (k : Nat) (hij : i ≤ j) (hi : i ≤ a.length)
    (hv : v.length = j - i) (hk : j ≤ k) : (setSlice a i j v).drop k = a.drop k := by
  have ht : (a.take i).length = i := by simp [hi]
  rw [setSlice, List.append_assoc, List.drop_append_eq_append_drop, ht,
    List.drop_eq_nil_of_le (by omega), List.nil_append, List.drop_append_eq_append_drop,
    List.drop_eq_nil_of_le (by omega), List.nil_append, List.drop_drop]
  congr 1
  omega

/-! ## Big-endian digit strings -/

def ofDigitsBE (b : Nat) (ds : List Nat) : Nat := ds.foldl (fun acc d => acc * b + d) 0

/-- The `len` lowest base-`b` digits of `n`, most significant first. -/
def digitsBE (b : Nat) : Nat → Nat → List Nat
  | 0, _ => []
  | len + 1, n => n / b ^ len % b :: digitsBE b len n

section Digits

variable {b : Nat}

@[simp] theorem length_digitsBE (len n : Nat) : (digitsBE b len n).length = len := by
  induction len with
  | zero => rfl
  | succ len ih => rw [digitsBE, List.length_cons, ih]

theorem foldl_ofDigitsBE (ds : List Nat) (acc : Nat) :
    ds.foldl (fun acc d => acc * b + d) acc = acc * b ^ ds.length + ofDigitsBE b ds := by
  induction ds generalizing acc with
  | nil => simp [ofDigitsBE]
  | cons d ds ih =>
    simp only [ofDigitsBE, List.foldl_cons, List.length_cons] at *
    rw [ih, ih (0 * b + d)]
    ring

@[simp] theorem ofDigitsBE_nil : ofDigitsBE b [] = 0 := rfl

theorem ofDigitsBE_cons (d : Nat) (ds : List Nat) :
    ofDigitsBE b (d :: ds) = d * b ^ ds.length + ofDigitsBE b ds := by
  rw [ofDigitsBE, List.foldl_cons, foldl_ofDigitsBE]
  simp

theorem ofDigitsBE_append (ds es : List Nat) :
    ofDigitsBE b (ds ++ es) = ofDigitsBE b ds * b ^ es.length + ofDigitsBE b es := by
  rw [ofDigitsBE, List.foldl_append]
  exact foldl_ofDigitsBE es _

theorem ofDigitsBE_lt {ds : List Nat} (hds : ∀ d ∈ ds, d < b) : ofDigitsBE b ds < b ^ ds.length := by
  induction ds with
  | nil => simp
  | cons d ds ih =>
    rw [ofDigitsBE_cons, List.length_cons, pow_succ']
    have hd : d + 1 ≤ b := hds d (List.mem_cons_self d ds)
    have := ih fun e he => hds e (List.mem_cons_of_mem d he)
    nlinarith

theorem digitsBE_lt (len n : Nat) (hb : 0 < b) : ∀ d ∈ digitsBE b len n, d < b := by
  induction len with
  | zero => simp [digitsBE]
  | succ len ih =>
    intro d hd
    rw [digitsBE, List.mem_cons] at hd
    rcases hd with rfl | hd
    · exact Nat.mod_lt _ hb
    · exact ih d hd

theorem ofDigitsBE_digitsBE (len n : Nat) : ofDigitsBE b (digitsBE b len n) = n % b ^ len := by
  induction len with
  | zero => simp [digitsBE, Nat.mod_one]
  | succ len ih =>
    rw [digitsBE, ofDigitsBE_cons, ih, length_digitsBE, Nat.mod_pow_succ]
    ring

theorem digitsBE_mod (len n : Nat) : digitsBE b len (n % b ^ len) = digitsBE b len n := by
  induction len generalizing n with
  | zero => rfl
  | succ len ih =>
    have hdiv : n % b ^ (len + 1) / b ^ len % b = n / b ^ len % b := by
      rcases Nat.eq_zero_or_pos (b ^ len) with h0 | hpos
      · simp [h0]
      · rw [Nat.mod_pow_succ, Nat.add_mul_div_left _ _ hpos,
          Nat.div_eq_of_lt (Nat.mod_lt _ hpos), Nat.zero_add, Nat.mod_mod]
    have hmod : n % b ^ (len + 1) % b ^ len = n % b ^ len :=
      Nat.mod_mod_of_dvd n (pow_dvd_pow b (Nat.le_succ len))
    rw [digitsBE, digitsBE, ← ih (n % b ^ (len + 1)), hmod, ih, hdiv]

theorem digitsBE_ofDigitsBE {ds : List Nat} (hds : ∀ d ∈ ds, d < b) :
    digitsBE b ds.length (ofDigitsBE b ds) = ds := by
  induction ds with
  | nil => rfl
  | cons d ds ih =>
    have hd : d < b := hds d (List.mem_cons_self d ds)
    have hlt := ofDigitsBE_lt fun e he => hds e (List.mem_cons_of_mem d he)
    have hpos : 0 < b ^ ds.length := by
      have : 0 < b := by omega
      positivity
    have hhead : (d * b ^ ds.length + ofDigitsBE b ds) / b ^ ds.length = d := by
      rw [Nat.add_comm, Nat.add_mul_div_right _ _ hpos, Nat.div_eq_of_lt hlt, Nat.zero_add]
    have htail : (d * b ^ ds.length + ofDigitsBE b ds) % b ^ ds.length = ofDigitsBE b ds := by
      rw [Nat.add_comm, Nat.add_mul_mod_self_right, Nat.mod_eq_of_lt hlt]
    rw [List.length_cons, digitsBE, ofDigitsBE_cons, ← digitsBE_mod, htail,
      ih fun e he => hds e (List.mem_cons_of_mem d he), hhead, Nat.mod_eq_of_lt hd]

theorem digitsBE_eq_ofFn (len n : Nat) :
    digitsBE b len n = List.ofFn fun i : Fin len => n / b ^ (len - 1 - i) % b := by
  induction len with
  | zero => rfl
  | succ len ih =>
    rw [digitsBE, ih, List.ofFn_succ]
    simp only [Fin.val_zero, Fin.val_succ, Nat.add_sub_cancel, Nat.sub_zero]
    congr 2
    funext i
    congr 3
    omega

theorem ofDigitsBE_ofFn {n : Nat} (f : Fin n → Nat) :
    ofDigitsBE b (List.ofFn f) = ∑ i : Fin n, f i * b ^ (n - 1 - i) := by
  induction n with
  | zero => simp
  | succ n ih =>
    rw [List.ofFn_succ', List.concat_eq_append, ofDigitsBE_append, ih, Fin.sum_univ_castSucc,
      List.length_singleton, ofDigitsBE_cons, List.length_nil, Finset.sum_mul]
    simp only [pow_zero, mul_one, ofDigitsBE_nil, add_zero, Fin.coe_castSucc, Fin.val_last,
      Nat.add_sub_cancel, Nat.sub_self]
    congr 1
    refine Finset.sum_congr rfl fun i _ => ?_
    rw [pow_one, mul_assoc, ← pow_succ]
    congr 2
    have := i.isLt
    omega

end Digits

/-! ## Bytes as big-endian numbers -/

/-- `int.from_bytes(a, "big")`. -/
def fromBytesBE (a : Bytes) : Nat := ofDigitsBE 256 (a.map BitVec.toNat)

/-- `n.to_bytes(len, "big")`, which the source only calls with `n < 256 ^ len`. -/
def toBytesBE (len n : Nat) : Bytes := (digitsBE 256 len n).map (BitVec.ofNat 8)

theorem toNat_byte_ofNat (n : Nat) : (BitVec.ofNat 8 n).toNat = n % 256 := BitVec.toNat_ofNat n 8

@[simp] theorem length_toBytesBE (len n : Nat) : (toBytesBE len n).length = len := by
  simp [toBytesBE]

@[simp] theorem fromBytesBE_nil : fromBytesBE [] = 0 := rfl

theorem fromBytesBE_append (a c : Bytes) :
    fromBytesBE (a ++ c) = fromBytesBE a * 256 ^ c.length + fromBytesBE c := by
  simp [fromBytesBE, ofDigitsBE_append]

theorem fromBytesBE_lt (a : Bytes) : fromBytesBE a < 256 ^ a.length := by
  simpa [fromBytesBE] using ofDigitsBE_lt
    (show ∀ d ∈ a.map BitVec.toNat, d < 256 by simpa using fun x _ => x.isLt)

theorem map_toNat_toBytesBE (len n : Nat) :
    (toBytesBE len n).map BitVec.toNat = digitsBE 256 len n := by
  rw [toBytesBE, List.map_map]
  conv_rhs => rw [← List.map_id (digitsBE 256 len n)]
  refine List.map_congr_left fun d hd => ?_
  simp [Nat.mod_eq_of_lt (digitsBE_lt len n (by norm_num) d hd)]

theorem fromBytesBE_toBytesBE (len n : Nat) : fromBytesBE (toBytesBE len n) = n % 256 ^ len := by
  rw [fromBytesBE, map_toNat_toBytesBE, ofDigitsBE_digitsBE]

theorem toBytesBE_fromBytesBE (a : Bytes) : toBytesBE a.length (fromBytesBE a) = a := by
  have h := digitsBE_ofDigitsBE
    (show ∀ d ∈ a.map BitVec.toNat, d < 256 by simpa using fun x _ => x.isLt)
  rw [List.length_map] at h
  rw [toBytesBE, fromBytesBE, h, List.map_map]
  conv_rhs => rw [← List.map_id a]
  exact List.map_congr_left fun x _ => by simp

theorem fromBytesBE_inj {a b : Bytes} (hab : a.length = b.length)
    (h : fromBytesBE a = fromBytesBE b) : a = b := by
  rw [← toBytesBE_fromBytesBE a, ← toBytesBE_fromBytesBE b, h, hab]

theorem fromBytesBE_take_drop (a : Bytes) (j : Nat) :
    fromBytesBE (a.take j) = fromBytesBE a / 2 ^ (8 * (a.length - j)) ∧
      fromBytesBE (a.drop j) = fromBytesBE a % 2 ^ (8 * (a.length - j)) := by
  have h := fromBytesBE_append (a.take j) (a.drop j)
  have hlt := fromBytesBE_lt (a.drop j)
  rw [List.take_append_drop] at h
  rw [List.length_drop, show (256 : Nat) = 2 ^ 8 from rfl, ← pow_mul] at h hlt
  rw [h, Nat.mul_comm, Nat.mul_add_div (by positivity), Nat.div_eq_of_lt hlt, Nat.add_zero,
    Nat.mul_add_mod, Nat.mod_eq_of_lt hlt]
  exact ⟨rfl, rfl⟩

theorem take_eq_of_testBit {a b : Bytes} (hab : a.length = b.length) (j : Nat)
    (h : ∀ i, 8 * (a.length - j) ≤ i → (fromBytesBE a).testBit i = (fromBytesBE b).testBit i) :
    a.take j = b.take j := by
  refine fromBytesBE_inj (by simp [hab]) ?_
  rw [(fromBytesBE_take_drop a j).1, (fromBytesBE_take_drop b j).1, ← hab]
  refine Nat.eq_of_testBit_eq fun i => ?_
  rw [← Nat.shiftRight_eq_div_pow, ← Nat.shiftRight_eq_div_pow, Nat.testBit_shiftRight,
    Nat.testBit_shiftRight]
  exact h _ (by omega)

theorem drop_eq_of_testBit {a b : Bytes} (hab : a.length = b.length) (j : Nat)
    (h : ∀ i, i < 8 * (a.length - j) → (fromBytesBE a).testBit i = (fromBytesBE b).testBit i) :
    a.drop j = b.drop j := by
  refine fromBytesBE_inj (by simp [hab]) ?_
  rw [(fromBytesBE_take_drop a j).2, (fromBytesBE_take_drop b j).2, ← hab]
  refine Nat.eq_of_testBit_eq fun i => ?_
  rw [Nat.testBit_mod_two_pow, Nat.testBit_mod_two_pow]
  by_cases hi : i < 8 * (a.length - j)
  · rw [h i hi]
  · simp [hi]

end Aezeed
