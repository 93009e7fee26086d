import Aezeed.Bytes
import Mathlib.Data.List.GetD

/-!
# CRC-32C

`_crc32c_table` and `_crc32c`: the reflected CRC-32C, one byte at a time through a
256-entry table. The table-driven loop agrees with the bit-serial definition on every byte
string (`crc32c_eq_crc32cBitwise`), and the register update is linear over xor, which is what
the checksum argument of the mnemonic codec rests on.
-/

namespace Aezeed

def crc32cPoly : BitVec 32 := 0x82F63B78#32

/-- One pass of the inner loop of `_crc32c_table`. -/
def tableShift (crc : BitVec 32) : BitVec 32 :=
  if crc &&& 1#32 ≠ 0#32 then (crc >>> 1) ^^^ crc32cPoly else crc >>> 1

/-- `_crc32c_table`. Entry `i` is eight shifts of `i`; the closing `& 0xFFFFFFFF` is the identity
on a 32-bit register and is left out. -/
def crc32cTable : List (BitVec 32) :=
  (List.range 256).map fun i => tableShift^[8] (BitVec.ofNat 32 i)

/-- The body of the loop of `_crc32c`. -/
def crc32cUpdate (crc : BitVec 32) (b : BitVec 8) : BitVec 32 :=
  crc32cTable.getD ((crc ^^^ b.setWidth 32) &&& 0xFF#32).toNat 0 ^^^ (crc >>> 8)

/-- `_crc32c`. Python's `(~crc) & 0xFFFFFFFF` is the 32-bit complement. -/
def crc32c (data : Bytes) : BitVec 32 :=
  ~~~(data.foldl crc32cUpdate 0xFFFFFFFF#32)

/-! ## The bit-serial definition -/

/-- One bit of the reflected CRC: shift right, adding the polynomial when the bit shifted out
was set. -/
def bitShift (crc : BitVec 32) : BitVec 32 :=
  (crc >>> 1) ^^^ (if crc.getLsbD 0 then crc32cPoly else 0#32)

/-- The bit-serial CRC-32C: each byte is xored into the low bits of the register, followed by
eight one-bit shifts; the result is complemented. -/
def crc32cBitwise (data : Bytes) : BitVec 32 :=
  ~~~(data.foldl (fun crc b => bitShift^[8] (crc ^^^ b.setWidth 32)) 0xFFFFFFFF#32)

theorem and_one_ne_zero_iff (crc : BitVec 32) : crc &&& 1#32 ≠ 0#32 ↔ crc.getLsbD 0 = true := by
  constructor
  · intro h
    by_contra h'
    apply h
    apply BitVec.eq_of_getLsbD_eq
    intro ⟨i, hi⟩
    rcases i with _ | i
    · simpa using h'
    · simp [BitVec.getLsbD_one]
  · intro h h0
    simpa [h] using congrArg (fun x => BitVec.getLsbD x 0) h0

theorem tableShift_eq_bitShift : tableShift = bitShift := by
  funext crc
  rw [tableShift, bitShift]
  by_cases hb : crc.getLsbD 0
  · rw [if_pos ((and_one_ne_zero_iff crc).2 hb), if_pos hb]
  · rw [if_neg (mt (and_one_ne_zero_iff crc).1 hb), if_neg hb, BitVec.xor_zero]

theorem getLsbD_0xFF (i : Nat) : (0xFF#32).getLsbD i = decide (i < 8) := by
  rw [show 0xFF#32 = BitVec.ofNat 32 (2 ^ 8 - 1) from rfl, BitVec.getLsbD_ofNat,
    Nat.testBit_two_pow_sub_one]
  by_cases h : i < 8 <;> simp [h]
  omega

theorem bitShift_xor (x y : BitVec 32) : bitShift (x ^^^ y) = bitShift x ^^^ bitShift y := by
  have hpoly : ∀ a b : Bool, (if Bool.xor a b = true then crc32cPoly else 0#32) =
      (if a = true then crc32cPoly else 0#32) ^^^ (if b = true then crc32cPoly else 0#32) := by
    decide
  rw [bitShift, BitVec.getLsbD_xor, hpoly, BitVec.ushiftRight_xor_distrib, bitShift, bitShift]
  ac_rfl

theorem iterate_bitShift_xor (k : Nat) (x y : BitVec 32) :
    bitShift^[k] (x ^^^ y) = bitShift^[k] x ^^^ bitShift^[k] y := by
  induction k generalizing x y with
  | zero => rfl
  | succ k ih => simp only [Function.iterate_succ_apply, bitShift_xor, ih]

theorem iterate_bitShift_of_low_zero (k : Nat) (x : BitVec 32)
    (hx : ∀ i < k, x.getLsbD i = false) : bitShift^[k] x = x >>> k := by
  induction k generalizing x with
  | zero => simp
  | succ k ih =>
    have h0 : bitShift x = x >>> 1 := by simp [bitShift, hx 0 (Nat.succ_pos k)]
    have hlow : ∀ i < k, (x >>> 1).getLsbD i = false := fun i hi => by
      rw [BitVec.getLsbD_ushiftRight]
      exact hx (1 + i) (by omega)
    rw [Function.iterate_succ_apply, h0, ih _ hlow, ← BitVec.shiftRight_add, Nat.add_comm]

theorem crc32cTable_getD (v : BitVec 32) :
    crc32cTable.getD (v &&& 0xFF#32).toNat 0 = bitShift^[8] (v &&& 0xFF#32) := by
  have hlt : (v &&& 0xFF#32).toNat < 256 := by
    rw [BitVec.toNat_and]
    exact Nat.lt_of_le_of_lt Nat.and_le_right (by decide)
  rw [crc32cTable, List.getD_eq_getElem?_getD, List.getElem?_map, List.getElem?_range hlt,
    Option.map_some', Option.getD_some, tableShift_eq_bitShift]
  congr 1
  apply BitVec.eq_of_toNat_eq
  rw [BitVec.toNat_ofNat, Nat.mod_eq_of_lt (by omega)]

/-- The table lookup of `_crc32c` is eight bit-serial shifts of the register with the byte xored
in. -/
theorem crc32cUpdate_eq (crc : BitVec 32) (b : BitVec 8) :
    crc32cUpdate crc b = bitShift^[8] (crc ^^^ b.setWidth 32) := by
  have hsplit : crc ^^^ b.setWidth 32 =
      ((crc ^^^ b.setWidth 32) &&& 0xFF#32) ^^^ ((crc >>> 8) <<< 8) := by
    apply BitVec.eq_of_getLsbD_eq
    intro ⟨i, hi⟩
    simp only [BitVec.getLsbD_xor, BitVec.getLsbD_and, getLsbD_0xFF, BitVec.getLsbD_shiftLeft,
      BitVec.getLsbD_ushiftRight, BitVec.getLsbD_setWidth]
    by_cases h8 : i < 8
    · simp [hi, h8]
    · have hb : b.getLsbD i = false := BitVec.getLsbD_ge b i (by omega)
      have hi' : 8 + (i - 8) = i := by omega
      simp [hi, h8, hb, hi']
  have hhigh : bitShift^[8] ((crc >>> 8) <<< 8) = crc >>> 8 := by
    rw [iterate_bitShift_of_low_zero _ _ fun i hi => by simp [BitVec.getLsbD_shiftLeft, hi]]
    apply BitVec.eq_of_getLsbD_eq
    intro ⟨i, hi⟩
    simp only [BitVec.getLsbD_shiftLeft, BitVec.getLsbD_ushiftRight]
    by_cases h : 8 + i < 32
    · simp [h, show 8 + i - 8 = i by omega]
    · simp [h, BitVec.getLsbD_ge crc (8 + i) (by omega)]
  rw [hsplit, iterate_bitShift_xor, hhigh, ← crc32cTable_getD, crc32cUpdate]

/-- The table-driven `_crc32c` is the bit-serial reflected CRC-32C on every byte string. -/
theorem crc32c_eq_crc32cBitwise (data : Bytes) : crc32c data = crc32cBitwise data := by
  have h : crc32cUpdate = fun crc b => bitShift^[8] (crc ^^^ b.setWidth 32) :=
    funext fun crc => funext (crc32cUpdate_eq crc)
  rw [crc32c, crc32cBitwise, h]

/-! ## Burst errors

The one-bit shift is injective, so a byte step is injective in the register; on a window of at
most four bytes the register takes eight shifts per byte of the register with the window's word
xored in. Two byte strings of one length that differ only inside such a window therefore have
different CRCs (`crc32c_ne_of_window`).
-/

theorem xor_right_cancel {w : Nat} {a b c : BitVec w} (h : a ^^^ c = b ^^^ c) : a = b := by
  simpa [BitVec.xor_assoc] using congrArg (· ^^^ c) h

theorem getLsbD_bitShift_31 (x : BitVec 32) : (bitShift x).getLsbD 31 = x.getLsbD 0 := by
  cases h : x.getLsbD 0 <;> simp [bitShift, h, crc32cPoly]

theorem bitShift_injective : Function.Injective bitShift := by
  intro x y h
  have h0 : x.getLsbD 0 = y.getLsbD 0 := by rw [← getLsbD_bitShift_31, h, getLsbD_bitShift_31]
  have h1 : x >>> 1 = y >>> 1 := by
    rw [bitShift, bitShift, h0] at h
    exact xor_right_cancel h
  apply BitVec.eq_of_getLsbD_eq
  intro ⟨i, hi⟩
  rcases i with _ | i
  · exact h0
  · simpa [Nat.add_comm] using congrArg (fun z => z.getLsbD i) h1


/-- Up to four bytes as one register word, byte `i` in bits `8i` to `8i + 7`: the order in which
the reflected CRC consumes them. -/
def leWord : Bytes → BitVec 32
  | [] => 0#32
  | b :: l => b.setWidth 32 ^^^ (leWord l <<< 8)

theorem getLsbD_leWord_of_le (l : Bytes) (i : Nat) (hi : 8 * l.length ≤ i) :
    (leWord l).getLsbD i = false := by
  induction l generalizing i with
  | nil => simp [leWord]
  | cons b l ih =>
    simp only [List.length_cons] at hi
    simp [leWord, BitVec.getLsbD_shiftLeft, BitVec.getLsbD_ge b i (by omega), ih (i - 8) (by omega)]

theorem iterate_bitShift_shiftLeft (x : BitVec 32) (hx : ∀ i, 24 ≤ i → x.getLsbD i = false) :
    bitShift^[8] (x <<< 8) = x := by
  rw [iterate_bitShift_of_low_zero 8 _ fun i hi => by simp [BitVec.getLsbD_shiftLeft, hi]]
  apply BitVec.eq_of_getLsbD_eq
  intro ⟨i, hi⟩
  simp only [BitVec.getLsbD_ushiftRight, BitVec.getLsbD_shiftLeft]
  by_cases h : i < 24
  · simp [show 8 + i < 32 by omega, show 8 + i - 8 = i by omega]
  · simp [show ¬ 8 + i < 32 by omega, hx i (by omega)]

theorem foldl_crc32cUpdate_window (l : Bytes) (hl : l.length ≤ 4) (crc : BitVec 32) :
    l.foldl crc32cUpdate crc = bitShift^[8 * l.length] (crc ^^^ leWord l) := by
  induction l generalizing crc with
  | nil => simp [leWord]
  | cons b l ih =>
    simp only [List.length_cons] at hl
    rw [List.foldl_cons, ih (by omega), crc32cUpdate_eq, List.length_cons, Nat.mul_succ,
      Function.iterate_add_apply, leWord, ← BitVec.xor_assoc,
      iterate_bitShift_xor 8 (crc ^^^ b.setWidth 32) (leWord l <<< 8),
      iterate_bitShift_shiftLeft _ fun i hi => getLsbD_leWord_of_le l i (by omega)]

theorem leWord_inj {u v : Bytes} (hlen : u.length = v.length) (hu : u.length ≤ 4)
    (h : leWord u = leWord v) : u = v := by
  induction u generalizing v with
  | nil =>
    cases v with
    | nil => rfl
    | cons => simp at hlen
  | cons a u ih =>
    cases v with
    | nil => simp at hlen
    | cons b v =>
      simp only [List.length_cons] at hlen hu
      have hbit : ∀ i, (leWord (a :: u)).getLsbD i = (leWord (b :: v)).getLsbD i := by
        rw [h]; exact fun _ => rfl
      have hab : a = b := BitVec.eq_of_getLsbD_eq fun ⟨i, hi⟩ => by
        simpa [leWord, BitVec.getLsbD_shiftLeft, hi, show i < 32 by omega] using hbit i
      have huv : leWord u = leWord v := BitVec.eq_of_getLsbD_eq fun ⟨i, hi⟩ => by
        by_cases h24 : i < 24
        · simpa [leWord, BitVec.getLsbD_shiftLeft, BitVec.getLsbD_ge a (i + 8) (by omega),
            BitVec.getLsbD_ge b (i + 8) (by omega), show i + 8 < 32 by omega] using hbit (i + 8)
        · rw [getLsbD_leWord_of_le u i (by omega), getLsbD_leWord_of_le v i (by omega)]
      rw [hab, ih (by omega) (by omega) huv]

theorem foldl_crc32cUpdate_injective (r : Bytes) : Function.Injective fun crc => r.foldl crc32cUpdate crc := by
  induction r with
  | nil => exact fun _ _ h => h
  | cons b r ih =>
    intro x y h
    have hxy := ih h
    rw [crc32cUpdate_eq, crc32cUpdate_eq] at hxy
    exact xor_right_cancel (bitShift_injective.iterate 8 hxy)

/-- CRC-32C tells apart any two byte strings of one length that differ only inside a window of
at most four consecutive bytes. -/
theorem crc32c_ne_of_window {a b : Bytes} (hlen : a.length = b.length) {j e : Nat} (hje : j ≤ e)
    (hw : e ≤ j + 4) (htake : a.take j = b.take j) (hdrop : a.drop e = b.drop e) (hne : a ≠ b) :
    crc32c a ≠ crc32c b := by
  have split : ∀ c : Bytes, c = c.take j ++ (c.drop j).take (e - j) ++ c.drop e := fun c => by
    have hd : c.drop e = (c.drop j).drop (e - j) := by rw [List.drop_drop]; congr 1; omega
    rw [hd, List.append_assoc, List.take_append_drop, List.take_append_drop]
  intro hcrc
  rw [split a, split b, crc32c, crc32c, List.foldl_append, List.foldl_append, List.foldl_append,
    List.foldl_append, htake, hdrop] at hcrc
  have hsplit := And.intro (split a) (split b)
  generalize hu : (a.drop j).take (e - j) = u at hcrc hsplit
  generalize hv : (b.drop j).take (e - j) = v at hcrc hsplit
  have huv : u.length = v.length := by rw [← hu, ← hv]; simp [hlen]
  have hu4 : u.length ≤ 4 := by rw [← hu]; simp; omega
  have hR := foldl_crc32cUpdate_injective _ (by simpa using congrArg (fun x => ~~~x) hcrc)
  rw [foldl_crc32cUpdate_window u hu4, foldl_crc32cUpdate_window v (huv ▸ hu4), huv] at hR
  have hw : leWord u = leWord v := by
    have := bitShift_injective.iterate _ hR
    rw [BitVec.xor_comm, BitVec.xor_comm _ (leWord v)] at this
    exact xor_right_cancel this
  exact hne (by rw [hsplit.1, hsplit.2, htake, hdrop, leWord_inj huv hu4 hw])

/-- Flipping the last bit of the input flips bit 0 of the CRC: eight shifts of `1` leave bit 0
set (the table entry `_CRC32C_TABLE[1]` is odd). -/
theorem getLsbD_crc32c_flip (p : Bytes) (x : BitVec 8) :
    (crc32c (p ++ [x ^^^ 1#8])).getLsbD 0 = !(crc32c (p ++ [x])).getLsbD 0 := by
  have h1 : (bitShift^[8] 1#32).getLsbD 0 = true := by decide
  have hx : (x ^^^ 1#8).setWidth 32 = x.setWidth 32 ^^^ 1#32 := by
    apply BitVec.eq_of_getLsbD_eq
    intro ⟨i, hi⟩
    simp [BitVec.getLsbD_one, hi]
  simp only [crc32c, List.foldl_append, List.foldl_cons, List.foldl_nil, crc32cUpdate_eq, hx,
    ← BitVec.xor_assoc, iterate_bitShift_xor _ _ 1#32, BitVec.getLsbD_not, BitVec.getLsbD_xor, h1]
  simp


/-! ## Bursts of up to 32 bits

The reflected CRC reads its input one bit at a time, byte after byte and each byte from its
least significant bit (`crc32c_eq_foldl_crcBit`). On a window of at most 32 bits the register
takes one shift per bit with the window's bits xored in as one word (`foldl_crcBit_window`), so
as for byte windows, two byte strings of one length whose differing bits lie within 32
consecutive positions of that order have different CRCs (`crc32c_ne_of_burst`).
-/

section Window

variable {σ α : Type} (f : σ → α → σ)

theorem foldl_injective_of_step (hinj : ∀ x, Function.Injective fun s => f s x) (l : List α) :
    Function.Injective fun s => l.foldl f s := by
  induction l with
  | nil => exact fun _ _ h => h
  | cons x l ih => exact fun s t h => hinj x (ih h)

/-- A step that is injective in its state, and whose state after a window of at most `w` inputs
determines the window, tells apart any two input lists of one length that differ only inside
such a window. -/
theorem foldl_ne_of_window (hinj : ∀ x, Function.Injective fun s => f s x) {w : Nat}
    (hwin : ∀ s (u v : List α), u.length = v.length → u.length ≤ w →
      u.foldl f s = v.foldl f s → u = v)
    {A B : List α} (hlen : A.length = B.length) {i e : Nat} (hie : i ≤ e) (hw : e ≤ i + w)
    (htake : A.take i = B.take i) (hdrop : A.drop e = B.drop e) (hne : A ≠ B) (s : σ) :
    A.foldl f s ≠ B.foldl f s := by
  have split : ∀ c : List α, c = c.take i ++ (c.drop i).take (e - i) ++ c.drop e := fun c => by
    have hd : c.drop e = (c.drop i).drop (e - i) := by rw [List.drop_drop]; congr 1; omega
    rw [hd, List.append_assoc, List.take_append_drop, List.take_append_drop]
  intro h
  rw [split A, split B, List.foldl_append, List.foldl_append, List.foldl_append,
    List.foldl_append, htake, hdrop] at h
  have hmid := hwin _ _ _ (by simp [hlen]) (by simp; omega) (foldl_injective_of_step f hinj _ h)
  exact hne (by rw [split A, split B, htake, hdrop, hmid])

theorem take_eq_of_getD {A B : List α} {d : α} (hAB : A.length = B.length) {n : Nat}
    (h : ∀ q < n, A.getD q d = B.getD q d) : A.take n = B.take n := by
  refine List.ext_getElem (by simp [hAB]) fun q h1 h2 => ?_
  simp only [List.length_take] at h1 h2
  have := h q (by omega)
  rw [List.getD_eq_getElem _ _ (by omega), List.getD_eq_getElem _ _ (by omega)] at this
  simpa using this

theorem drop_eq_of_getD {A B : List α} {d : α} (hAB : A.length = B.length) {n : Nat}
    (h : ∀ q, n ≤ q → A.getD q d = B.getD q d) : A.drop n = B.drop n := by
  refine List.ext_getElem (by simp [hAB]) fun q h1 h2 => ?_
  simp only [List.length_drop] at h1 h2
  have := h (n + q) (by omega)
  rw [List.getD_eq_getElem _ _ (by omega), List.getD_eq_getElem _ _ (by omega)] at this
  simpa using this

end Window

def crcBit (crc : BitVec 32) (x : Bool) : BitVec 32 := bitShift (crc ^^^ if x then 1#32 else 0#32)

/-- The bits of a byte in the order the reflected CRC reads them, least significant first. -/
def lsbBits (b : BitVec 8) : List Bool := (List.range 8).map b.getLsbD

def bitWord : List Bool → BitVec 32
  | [] => 0#32
  | x :: l => (if x then 1#32 else 0#32) ^^^ (bitWord l <<< 1)

theorem getLsbD_bitWord (l : List Bool) : ∀ i < 32, (bitWord l).getLsbD i = l.getD i false := by
  induction l with
  | nil => simp [bitWord]
  | cons x l ih =>
    intro i hi
    cases i with
    | zero => cases x <;> simp [bitWord, BitVec.getLsbD_shiftLeft]
    | succ i => cases x <;> simp [bitWord, BitVec.getLsbD_shiftLeft, hi, ih i (by omega)]

theorem bitShift_shiftLeft_one (x : BitVec 32) (hx : x.getLsbD 31 = false) :
    bitShift (x <<< 1) = x := by
  apply BitVec.eq_of_getLsbD_eq
  intro ⟨i, hi⟩
  by_cases h : i < 31
  · simp [bitShift, BitVec.getLsbD_shiftLeft, show 1 + i < 32 by omega]
  · obtain rfl : i = 31 := by omega
    simp [bitShift, BitVec.getLsbD_shiftLeft, hx]

theorem foldl_crcBit_window (l : List Bool) (hl : l.length ≤ 32) (crc : BitVec 32) :
    l.foldl crcBit crc = bitShift^[l.length] (crc ^^^ bitWord l) := by
  induction l generalizing crc with
  | nil => simp [bitWord]
  | cons x l ih =>
    simp only [List.length_cons] at hl
    have h31 : (bitWord l).getLsbD 31 = false := by
      rw [getLsbD_bitWord l 31 (by norm_num), List.getD_eq_default _ _ (by omega)]
    rw [List.foldl_cons, ih (by omega), List.length_cons, Function.iterate_succ_apply, bitWord,
      ← BitVec.xor_assoc, bitShift_xor, bitShift_shiftLeft_one _ h31]
    rfl

theorem bitWord_inj {u v : List Bool} (huv : u.length = v.length) (hu : u.length ≤ 32)
    (h : bitWord u = bitWord v) : u = v := by
  refine List.ext_getElem huv fun i hi hv => ?_
  have := getLsbD_bitWord u i (by omega)
  rwa [h, getLsbD_bitWord v i (by omega), List.getD_eq_getElem _ _ hv,
    List.getD_eq_getElem _ _ hi, eq_comm] at this

theorem crcBit_injective (x : Bool) : Function.Injective fun crc => crcBit crc x :=
  fun _ _ h => xor_right_cancel (bitShift_injective h)

theorem bitWord_lsbBits (b : BitVec 8) : bitWord (lsbBits b) = b.setWidth 32 := by
  apply BitVec.eq_of_getLsbD_eq
  intro ⟨i, hi⟩
  rw [getLsbD_bitWord _ i hi, List.getD_eq_getElem?_getD]
  by_cases h : i < 8
  · simp [lsbBits, h, hi]
  · rw [lsbBits, List.getElem?_map, List.getElem?_eq_none (by simp; omega)]
    simp [BitVec.getLsbD_ge b i (by omega)]

theorem crc32cUpdate_eq_foldl_crcBit (crc : BitVec 32) (b : BitVec 8) :
    crc32cUpdate crc b = (lsbBits b).foldl crcBit crc := by
  rw [foldl_crcBit_window _ (by simp [lsbBits]), bitWord_lsbBits, crc32cUpdate_eq]
  simp [lsbBits]

/-- `_crc32c` as the bit-serial register over the input's bits, byte after byte and each byte
from its least significant bit. -/
theorem crc32c_eq_foldl_crcBit (data : Bytes) :
    crc32c data = ~~~((data.flatMap lsbBits).foldl crcBit 0xFFFFFFFF#32) := by
  suffices h : ∀ crc, data.foldl crc32cUpdate crc = (data.flatMap lsbBits).foldl crcBit crc by
    rw [crc32c, h]
  induction data with
  | nil => exact fun _ => rfl
  | cons b data ih =>
    intro crc
    rw [List.foldl_cons, ih, List.flatMap_cons, List.foldl_append, crc32cUpdate_eq_foldl_crcBit]

theorem length_flatMap_lsbBits (data : Bytes) : (data.flatMap lsbBits).length = 8 * data.length := by
  induction data with
  | nil => rfl
  | cons b data ih => simp [lsbBits, ih]; ring

theorem getD_flatMap_lsbBits (data : Bytes) :
    ∀ k j, j < 8 → (data.flatMap lsbBits).getD (8 * k + j) false = (data.getD k 0).getLsbD j := by
  induction data with
  | nil => simp
  | cons b data ih =>
    intro k j hj
    have hb : (lsbBits b).length = 8 := by simp [lsbBits]
    rw [List.flatMap_cons]
    cases k with
    | zero =>
      rw [List.getD_append _ _ _ _ (by omega)]
      simp [lsbBits, List.getD_eq_getElem?_getD, hj]
    | succ k =>
      rw [List.getD_append_right _ _ _ _ (by omega), hb, show 8 * (k + 1) + j - 8 = 8 * k + j by
        omega, ih k j hj]
      simp

/-- CRC-32C detects every error burst of at most 32 bits: two byte strings of one length whose
differing bits, numbered in the order the CRC reads them (bit `j` of byte `k` is number
`8k + j`), lie within 32 consecutive numbers have different CRCs. -/
theorem crc32c_ne_of_burst {a b : Bytes} (hlen : a.length = b.length) (hne : a ≠ b) (p : Nat)
    (hburst : ∀ k j, j < 8 → (a.getD k 0).getLsbD j ≠ (b.getD k 0).getLsbD j →
      p ≤ 8 * k + j ∧ 8 * k + j < p + 32) :
    crc32c a ≠ crc32c b := by
  have hAB : (a.flatMap lsbBits).length = (b.flatMap lsbBits).length := by
    rw [length_flatMap_lsbBits, length_flatMap_lsbBits, hlen]
  have hsame : ∀ q, (q < p ∨ p + 32 ≤ q) →
      (a.flatMap lsbBits).getD q false = (b.flatMap lsbBits).getD q false := fun q hq => by
    by_contra hq'
    have h := hburst (q / 8) (q % 8) (Nat.mod_lt _ (by norm_num))
    rw [← getD_flatMap_lsbBits a _ _ (Nat.mod_lt _ (by norm_num)),
      ← getD_flatMap_lsbBits b _ _ (Nat.mod_lt _ (by norm_num)), Nat.div_add_mod] at h
    have := h hq'
    omega
  have hne' : a.flatMap lsbBits ≠ b.flatMap lsbBits := fun h => hne <|
    List.ext_getElem hlen fun k hka hkb => BitVec.eq_of_getLsbD_eq fun ⟨j, hj⟩ => by
      have := congrArg (fun L => L.getD (8 * k + j) false) h
      simp only [getD_flatMap_lsbBits _ _ _ hj] at this
      rwa [List.getD_eq_getElem _ _ hka, List.getD_eq_getElem _ _ hkb] at this
  intro hcrc
  rw [crc32c_eq_foldl_crcBit, crc32c_eq_foldl_crcBit] at hcrc
  refine foldl_ne_of_window crcBit crcBit_injective (w := 32) (fun s u v huv hu h => ?_) hAB
    (Nat.le_add_right p 32) le_rfl (take_eq_of_getD hAB fun q hq => hsame q (.inl hq))
    (drop_eq_of_getD hAB fun q hq => hsame q (.inr hq)) hne' _
    (by simpa using congrArg (~~~ ·) hcrc)
  rw [foldl_crcBit_window u hu, foldl_crcBit_window v (huv ▸ hu), huv] at h
  have := bitShift_injective.iterate _ h
  rw [BitVec.xor_comm, BitVec.xor_comm s] at this
  exact bitWord_inj huv hu (xor_right_cancel this)

theorem crc32c_ne_of_burst_one_bit :
    [1#8].length = [0#8].length ∧ [1#8] ≠ [0#8] ∧
      (∀ k j, j < 8 → ([1#8].getD k 0).getLsbD j ≠ ([0#8].getD k 0).getLsbD j →
        0 ≤ 8 * k + j ∧ 8 * k + j < 0 + 32) ∧
      crc32c [1#8] ≠ crc32c [0#8] :=
  have hb : ∀ k j, j < 8 → ([1#8].getD k 0).getLsbD j ≠ ([0#8].getD k 0).getLsbD j →
      0 ≤ 8 * k + j ∧ 8 * k + j < 0 + 32 := fun k j hj h => by
    rcases k with _ | k
    · omega
    · simp at h
  ⟨rfl, by decide, hb, crc32c_ne_of_burst rfl (by decide) 0 hb⟩


end Aezeed
