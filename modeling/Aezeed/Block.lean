import Aezeed.Bytes
import Mathlib.Data.Nat.Bitwise

/-!
# Blocks and GF(2^128)

`_mk_block`, `_xor_bytes1x16`, `_xor_bytes4x16`, `_double_block`, `_mult_block` and
`_one_zero_pad`. Read as the 128-bit integer `int.from_bytes(_, "big")`, a block is a polynomial
over GF(2) whose coefficient of `z^k` is bit `k`; on that reading `_double_block` is
multiplication by `z` modulo `z^128 + z^7 + z^2 + z + 1` and `_mult_block(x, s)` is the field
product `x * s` (`multBlock_eq_gfMulBlock`).
-/

namespace Aezeed

/-- `_mk_block()`, a fresh zero block; `ZERO_BLOCK` is one of them. -/
def mkBlock : Bytes := List.replicate 16 0

/-- `_xor_bytes1x16(a, b, dst)`: the sixteen bytes it writes into `dst`. -/
def xorBytes1x16 (a b : Bytes) : Bytes := List.zipWith (· ^^^ ·) (a.take 16) (b.take 16)

def xorBytes4x16 (a b c d : Bytes) : Bytes := xorBytes1x16 (xorBytes1x16 (xorBytes1x16 a b) c) d

/-- `_double_block(p)`. Pass `i` of the loop reads `p[i + 1]` before pass `i + 1` overwrites it,
so every output byte is computed from the original block. -/
def doubleBlock (p : Bytes) : Bytes :=
  (List.range 15).map (fun i => (p.getD i 0 <<< 1) ||| (p.getD (i + 1) 0 >>> 7)) ++
    [((p.getD 15 0 <<< 1) &&& 0xFE#8) ^^^ (if p.getD 0 0 &&& 0x80#8 ≠ 0#8 then 0x87#8 else 0#8)]

/-- The `while x` loop of `_mult_block`, on `x`, `t` and `r`. -/
def multLoop (x : Nat) (t r : Bytes) : Bytes :=
  if x = 0 then r
  else multLoop (x >>> 1) (doubleBlock t) (if x &&& 1 ≠ 0 then xorBytes1x16 r t else r)
termination_by x
decreasing_by rw [Nat.shiftRight_eq_div_pow]; omega

/-- `_mult_block(x, src, dst)`: the block it leaves in `dst`. -/
def multBlock (x : Nat) (src : Bytes) : Bytes := multLoop x src mkBlock

/-- `_one_zero_pad(src, size, dst)` on a 16-byte `dst`: the first `size` bytes of `src`, then
`0x80`, then zeros. -/
def oneZeroPad (src : Bytes) (size : Nat) : Bytes :=
  let dst := mkBlock
  let dst := if size ≠ 0 then setSlice dst 0 size (src.take size) else dst
  dst.set size 0x80#8

/-! ## GF(2^128) -/

/-- Multiplication by `z` in GF(2^128) = GF(2)[z]/(z^128 + z^7 + z^2 + z + 1), on the integer
whose bit `k` is the coefficient of `z^k`. -/
def mulZ (s : Nat) : Nat := (2 * s) % 2 ^ 128 ^^^ (if s.testBit 127 then 0x87 else 0)

/-- The product `x * s` in GF(2^128), with `x` read as the polynomial whose coefficient of `z^k`
is bit `k` of `x`, evaluated by Horner's rule from the top bit of `x` down. -/
def gfMul (x s : Nat) : Nat :=
  if x = 0 then 0 else mulZ (gfMul (x / 2) s) ^^^ (if x % 2 = 1 then s else 0)
termination_by x

def gfMulBlock (x : Nat) (s : Bytes) : Bytes := toBytesBE 16 (gfMul x (fromBytesBE s))

/-! ## Bytes and bits -/

theorem getD_eq_getElem? (a : Bytes) (i : Nat) : a.getD i 0 = a[i]?.getD 0 :=
  List.getD_eq_getElem?_getD a i 0

theorem testBit_fromBytesBE (a : Bytes) (k : Nat) :
    (fromBytesBE a).testBit k = (a.reverse[k / 8]?.getD 0).getLsbD (k % 8) := by
  induction a using List.reverseRecOn generalizing k with
  | nil => simp [Nat.zero_testBit]
  | append_singleton a b ih =>
    rw [fromBytesBE_append, List.length_singleton, pow_one, Nat.mul_comm,
      show fromBytesBE [b] = b.toNat by simp [fromBytesBE, ofDigitsBE],
      show (256 : Nat) = 2 ^ 8 from rfl, Nat.testBit_mul_pow_two_add _ b.isLt, List.reverse_append,
      List.reverse_singleton, List.singleton_append]
    by_cases hk : k < 8
    · simp [hk, Nat.div_eq_of_lt hk, Nat.mod_eq_of_lt hk, BitVec.testBit_toNat]
    · have hdiv : k / 8 = (k - 8) / 8 + 1 := by omega
      have hmod : k % 8 = (k - 8) % 8 := by omega
      rw [if_neg hk, ih, hdiv, hmod, List.getElem?_cons_succ]

theorem testBit_fromBytesBE_eq (a : Bytes) (k : Nat) :
    (fromBytesBE a).testBit k =
      (decide (k < 8 * a.length) && (a.getD (a.length - 1 - k / 8) 0).getLsbD (k % 8)) := by
  rw [testBit_fromBytesBE]
  by_cases hk : k < 8 * a.length
  · rw [List.getElem?_reverse (by omega), ← getD_eq_getElem?]
    simp [hk]
  · rw [List.getElem?_eq_none (by simp; omega)]
    simp [hk]

theorem testBit_mulZ (s k : Nat) :
    (mulZ s).testBit k =
      ((decide (k < 128) && (decide (1 ≤ k) && s.testBit (k - 1))) ^^
        (s.testBit 127 && (0x87 : Nat).testBit k)) := by
  rw [mulZ, Nat.testBit_xor, Nat.testBit_mod_two_pow, show 2 * s = 2 ^ 1 * s by ring,
    Nat.testBit_mul_pow_two]
  cases s.testBit 127 <;> simp [Nat.zero_testBit]

@[simp] theorem length_doubleBlock (p : Bytes) : (doubleBlock p).length = 16 := by
  simp [doubleBlock]

theorem getD_doubleBlock_of_lt (p : Bytes) {n : Nat} (hn : n < 15) :
    (doubleBlock p).getD n 0 = (p.getD n 0 <<< 1) ||| (p.getD (n + 1) 0 >>> 7) := by
  simp [getD_eq_getElem? (doubleBlock p), doubleBlock, List.getElem?_append_left, hn]

theorem getD_doubleBlock_15 (p : Bytes) :
    (doubleBlock p).getD 15 0 = ((p.getD 15 0 <<< 1) &&& 0xFE#8) ^^^
      (if p.getD 0 0 &&& 0x80#8 ≠ 0#8 then 0x87#8 else 0#8) := by
  simp [getD_eq_getElem? (doubleBlock p), doubleBlock, List.getElem?_append_right]

theorem getLsbD_shl_or_shr (a b : BitVec 8) {j : Nat} (hj : j < 8) :
    ((a <<< 1) ||| (b >>> 7)).getLsbD j = if j = 0 then b.getLsbD 7 else a.getLsbD (j - 1) := by
  interval_cases j <;> simp [BitVec.getLsbD_shiftLeft, BitVec.getLsbD_ge]

theorem and_0x80_ne_zero_iff (a : BitVec 8) : (a &&& 0x80#8 ≠ 0#8) ↔ a.getLsbD 7 = true := by
  constructor
  · intro h
    by_contra h'
    apply h
    apply BitVec.eq_of_getLsbD_eq
    intro ⟨i, hi⟩
    interval_cases i <;> simp_all
  · intro h h0
    simpa [h] using congrArg (fun x => BitVec.getLsbD x 7) h0

theorem testBit_0x87_of_ge {k : Nat} (hk : 8 ≤ k) : (0x87 : Nat).testBit k = false :=
  Nat.testBit_lt_two_pow (lt_of_lt_of_le (by norm_num) (Nat.pow_le_pow_right (by norm_num) hk))

/-- `_double_block` is multiplication by `z`. -/
theorem fromBytesBE_doubleBlock (p : Bytes) (hp : p.length = 16) :
    fromBytesBE (doubleBlock p) = mulZ (fromBytesBE p) := by
  apply Nat.eq_of_testBit_eq
  intro k
  simp only [testBit_mulZ, testBit_fromBytesBE_eq, length_doubleBlock, hp]
  by_cases hk : k < 128
  · have hj : k % 8 < 8 := Nat.mod_lt _ (by norm_num)
    by_cases h8 : k < 8
    · rw [Nat.div_eq_of_lt h8, Nat.sub_zero, getD_doubleBlock_15,
        Nat.div_eq_of_lt (by omega : k - 1 < 8), Nat.mod_eq_of_lt h8]
      rw [show 16 - 1 - 127 / 8 = 0 by norm_num, show 16 - 1 - 0 = 15 by norm_num]
      simp only [and_0x80_ne_zero_iff]
      generalize p.getD 0 0 = b0
      generalize p.getD 15 0 = b15
      cases b0.getLsbD 7 <;> interval_cases k <;> simp [BitVec.getLsbD_shiftLeft, Nat.testBit]
    · rw [getD_doubleBlock_of_lt _ (by omega), getLsbD_shl_or_shr _ _ hj,
        testBit_0x87_of_ge (by omega)]
      by_cases hj0 : k % 8 = 0
      · have e1 : (k - 1) / 8 = k / 8 - 1 := by omega
        have e2 : (k - 1) % 8 = 7 := by omega
        rw [if_pos hj0, e1, e2, show 16 - 1 - (k / 8 - 1) = 16 - 1 - k / 8 + 1 by omega]
        simp [hk, show 1 ≤ k by omega, show k - 1 < 128 by omega]
      · have e1 : (k - 1) / 8 = k / 8 := by omega
        have e2 : (k - 1) % 8 = k % 8 - 1 := by omega
        rw [if_neg hj0, e1, e2]
        simp [hk, show 1 ≤ k by omega, show k - 1 < 128 by omega]
  · simp [hk, testBit_0x87_of_ge (by omega : 8 ≤ k)]

@[simp] theorem length_xorBytes1x16 (a b : Bytes) (ha : a.length = 16) (hb : b.length = 16) :
    (xorBytes1x16 a b).length = 16 := by
  simp [xorBytes1x16, ha, hb]

theorem length_xorBytes1x16_le (a b : Bytes) : (xorBytes1x16 a b).length ≤ 16 := by
  simp [xorBytes1x16]

theorem getD_xorBytes1x16 (a b : Bytes) {i : Nat} (hi : i < 16) (ha : i < a.length)
    (hb : i < b.length) : (xorBytes1x16 a b).getD i 0 = a.getD i 0 ^^^ b.getD i 0 := by
  rw [getD_eq_getElem?, xorBytes1x16, List.getElem?_zipWith, List.getElem?_take, if_pos hi,
    List.getElem?_take, if_pos hi, List.getElem?_eq_getElem ha, List.getElem?_eq_getElem hb]
  simp [getD_eq_getElem?, List.getElem?_eq_getElem ha, List.getElem?_eq_getElem hb]

theorem fromBytesBE_xorBytes1x16 (a b : Bytes) (ha : a.length = 16) (hb : b.length = 16) :
    fromBytesBE (xorBytes1x16 a b) = fromBytesBE a ^^^ fromBytesBE b := by
  apply Nat.eq_of_testBit_eq
  intro k
  simp only [Nat.testBit_xor, testBit_fromBytesBE_eq, length_xorBytes1x16 a b ha hb, ha, hb]
  by_cases hk : k < 8 * 16
  · rw [getD_xorBytes1x16 a b (by omega) (by omega) (by omega), BitVec.getLsbD_xor]
    simp [hk]
  · simp [hk]

theorem xorBytes1x16_assoc {a b c : Bytes} (ha : a.length = 16) (hb : b.length = 16)
    (hc : c.length = 16) :
    xorBytes1x16 (xorBytes1x16 a b) c = xorBytes1x16 a (xorBytes1x16 b c) := by
  refine fromBytesBE_inj (by simp [ha, hb, hc]) ?_
  simp only [fromBytesBE_xorBytes1x16 _ _ (length_xorBytes1x16 _ _ ha hb) hc,
    fromBytesBE_xorBytes1x16 _ _ ha (length_xorBytes1x16 _ _ hb hc),
    fromBytesBE_xorBytes1x16 _ _ ha hb, fromBytesBE_xorBytes1x16 _ _ hb hc, Nat.xor_assoc]

theorem mkBlock_xorBytes1x16 {a : Bytes} (ha : a.length = 16) : xorBytes1x16 mkBlock a = a := by
  refine fromBytesBE_inj (by simp [ha, mkBlock]) ?_
  rw [fromBytesBE_xorBytes1x16 mkBlock a rfl ha, show fromBytesBE mkBlock = 0 from rfl, Nat.zero_xor]

theorem mulZ_xor (a b : Nat) : mulZ (a ^^^ b) = mulZ a ^^^ mulZ b := by
  apply Nat.eq_of_testBit_eq
  intro k
  simp only [testBit_mulZ, Nat.testBit_xor]
  generalize decide (k < 128) = c1
  generalize decide (1 ≤ k) = c2
  generalize (0x87 : Nat).testBit k = d
  generalize a.testBit (k - 1) = x1
  generalize b.testBit (k - 1) = y1
  generalize a.testBit 127 = x2
  generalize b.testBit 127 = y2
  revert c1 c2 d x1 y1 x2 y2
  decide

@[simp] theorem mulZ_zero : mulZ 0 = 0 := rfl

theorem mulZ_lt (s : Nat) : mulZ s < 2 ^ 128 := by
  rw [mulZ]
  apply Nat.xor_lt_two_pow (Nat.mod_lt _ (by positivity))
  split_ifs <;> norm_num

theorem gfMul_zero (s : Nat) : gfMul 0 s = 0 := by
  rw [gfMul, if_pos rfl]

theorem gfMul_of_ne_zero {x : Nat} (hx : x ≠ 0) (s : Nat) :
    gfMul x s = mulZ (gfMul (x / 2) s) ^^^ (if x % 2 = 1 then s else 0) := by
  rw [gfMul, if_neg hx]

theorem gfMul_lt (x : Nat) {s : Nat} (hs : s < 2 ^ 128) : gfMul x s < 2 ^ 128 := by
  rcases Nat.eq_zero_or_pos x with rfl | hx
  · rw [gfMul_zero]
    positivity
  · rw [gfMul_of_ne_zero hx.ne']
    exact Nat.xor_lt_two_pow (mulZ_lt _) (by split_ifs <;> omega)

theorem gfMul_mulZ (x s : Nat) : gfMul x (mulZ s) = mulZ (gfMul x s) := by
  induction x using Nat.strong_induction_on with
  | _ x ih =>
    rcases Nat.eq_zero_or_pos x with rfl | hx
    · simp [gfMul_zero]
    · rw [gfMul_of_ne_zero hx.ne', gfMul_of_ne_zero hx.ne', ih (x / 2) (by omega), mulZ_xor]
      split_ifs <;> simp

theorem and_one_ne_zero_iff_mod (x : Nat) : x &&& 1 ≠ 0 ↔ x % 2 = 1 := by
  rw [Nat.and_one_is_mod]
  omega

theorem multLoop_of_ne_zero {x : Nat} (hx : x ≠ 0) (t r : Bytes) :
    multLoop x t r =
      multLoop (x / 2) (doubleBlock t) (if x % 2 = 1 then xorBytes1x16 r t else r) := by
  rw [multLoop, if_neg hx, Nat.shiftRight_eq_div_pow, pow_one]
  simp only [and_one_ne_zero_iff_mod]

theorem length_multLoop (x : Nat) (t r : Bytes) (ht : t.length = 16) (hr : r.length = 16) :
    (multLoop x t r).length = 16 := by
  induction x using Nat.strong_induction_on generalizing t r with
  | _ x ih =>
    rcases Nat.eq_zero_or_pos x with rfl | hx
    · rw [multLoop, if_pos rfl]
      exact hr
    · rw [multLoop_of_ne_zero hx.ne']
      exact ih _ (by omega) _ _ (length_doubleBlock t) (by split_ifs <;> simp [ht, hr])

/-- The `while x` loop accumulates `x * t` into `r`. -/
theorem fromBytesBE_multLoop (x : Nat) (t r : Bytes) (ht : t.length = 16) (hr : r.length = 16) :
    fromBytesBE (multLoop x t r) = fromBytesBE r ^^^ gfMul x (fromBytesBE t) := by
  induction x using Nat.strong_induction_on generalizing t r with
  | _ x ih =>
    rcases Nat.eq_zero_or_pos x with rfl | hx
    · rw [multLoop, if_pos rfl, gfMul_zero, Nat.xor_zero]
    · have hr' : (if x % 2 = 1 then xorBytes1x16 r t else r).length = 16 := by
        split_ifs <;> simp [ht, hr]
      rw [multLoop_of_ne_zero hx.ne', ih _ (by omega) _ _ (length_doubleBlock t) hr',
        fromBytesBE_doubleBlock t ht, gfMul_mulZ, gfMul_of_ne_zero hx.ne']
      by_cases hodd : x % 2 = 1
      · rw [if_pos hodd, if_pos hodd, fromBytesBE_xorBytes1x16 r t hr ht]
        ac_rfl
      · rw [if_neg hodd, if_neg hodd, Nat.xor_zero]

/-- `_mult_block(x, s)` is the GF(2^128) product `x * s`. -/
theorem multBlock_eq_gfMulBlock (x : Nat) (s : Bytes) (hs : s.length = 16) :
    multBlock x s = gfMulBlock x s := by
  have hlen := length_multLoop x s mkBlock hs rfl
  rw [← toBytesBE_fromBytesBE (multBlock x s), multBlock, hlen, fromBytesBE_multLoop x s mkBlock hs rfl,
    show fromBytesBE mkBlock = 0 by rfl, Nat.zero_xor, gfMulBlock]

/-! ## Products by integers -/

theorem gfMul_eq (x s : Nat) :
    gfMul x s = mulZ (gfMul (x / 2) s) ^^^ (if x % 2 = 1 then s else 0) := by
  rcases Nat.eq_zero_or_pos x with rfl | hx
  · simp [gfMul_zero]
  · exact gfMul_of_ne_zero hx.ne' s

theorem ite_xor_mod_two (a b s : Nat) :
    (if (a ^^^ b) % 2 = 1 then s else 0) =
      (if a % 2 = 1 then s else 0) ^^^ (if b % 2 = 1 then s else 0) := by
  have hmod := @Nat.xor_mod_two_eq a b
  by_cases h1 : a % 2 = 1 <;> by_cases h2 : b % 2 = 1
  · rw [if_neg (by omega), if_pos h1, if_pos h2, Nat.xor_self]
  · rw [if_pos (by omega), if_pos h1, if_neg h2, Nat.xor_zero]
  · rw [if_pos (by omega), if_neg h1, if_pos h2, Nat.zero_xor]
  · rw [if_neg (by omega), if_neg h1, if_neg h2, Nat.xor_zero]

theorem gfMul_xor (a b s : Nat) : gfMul (a ^^^ b) s = gfMul a s ^^^ gfMul b s := by
  induction a using Nat.strong_induction_on generalizing b with
  | _ a ih =>
    rcases Nat.eq_zero_or_pos a with rfl | ha
    · simp [gfMul_zero]
    rw [gfMul_eq (a ^^^ b), gfMul_eq a, gfMul_eq b, Nat.xor_div_two, ih (a / 2) (by omega),
      mulZ_xor, ite_xor_mod_two]
    ac_rfl

@[simp] theorem gfMul_one (s : Nat) : gfMul 1 s = s := by
  rw [gfMul_eq]
  simp [gfMul_zero]

theorem gfMul_two_mul (a s : Nat) : gfMul (2 * a) s = mulZ (gfMul a s) := by
  rw [gfMul_eq]
  simp [show 2 * a / 2 = a by omega]

/-! ## Blocks as field elements -/

theorem eq_of_fromBytesBE_eq {a b : Bytes} (ha : a.length = 16) (hb : b.length = 16)
    (h : fromBytesBE a = fromBytesBE b) : a = b :=
  fromBytesBE_inj (ha.trans hb.symm) h

@[simp] theorem length_gfMulBlock (x : Nat) (s : Bytes) : (gfMulBlock x s).length = 16 := by
  simp [gfMulBlock]

theorem fromBytesBE_gfMulBlock (x : Nat) (s : Bytes) (hs : s.length = 16) :
    fromBytesBE (gfMulBlock x s) = gfMul x (fromBytesBE s) := by
  rw [gfMulBlock, fromBytesBE_toBytesBE, Nat.mod_eq_of_lt]
  have := gfMul_lt x (lt_of_lt_of_eq (fromBytesBE_lt s) (by rw [hs]; norm_num))
  norm_num at this ⊢
  exact this

theorem gfMulBlock_one (s : Bytes) (hs : s.length = 16) : gfMulBlock 1 s = s :=
  eq_of_fromBytesBE_eq (by simp) hs (by rw [fromBytesBE_gfMulBlock 1 s hs, gfMul_one])

theorem gfMulBlock_zero (s : Bytes) : gfMulBlock 0 s = mkBlock := by
  rw [gfMulBlock, gfMul_zero]
  rfl

theorem multBlock_gfMulBlock (a : Nat) (s : Bytes) (hs : s.length = 16) :
    multBlock 2 (gfMulBlock a s) = gfMulBlock (2 * a) s := by
  rw [multBlock_eq_gfMulBlock _ _ (by simp)]
  refine eq_of_fromBytesBE_eq (by simp) (by simp) ?_
  rw [fromBytesBE_gfMulBlock _ _ (by simp), fromBytesBE_gfMulBlock _ _ hs,
    fromBytesBE_gfMulBlock _ _ hs, show (2 : Nat) = 2 * 1 from rfl, gfMul_two_mul, gfMul_one,
    gfMul_two_mul]

theorem doubleBlock_gfMulBlock (a : Nat) (s : Bytes) (hs : s.length = 16) :
    doubleBlock (gfMulBlock a s) = gfMulBlock (2 * a) s := by
  refine eq_of_fromBytesBE_eq (by simp) (by simp) ?_
  rw [fromBytesBE_doubleBlock _ (by simp), fromBytesBE_gfMulBlock _ _ hs,
    fromBytesBE_gfMulBlock _ _ hs, gfMul_two_mul]

theorem gfMulBlock_two_pow (c : Nat) (s : Bytes) (hs : s.length = 16) :
    gfMulBlock (2 ^ c) s = doubleBlock^[c] s := by
  induction c with
  | zero => exact gfMulBlock_one s hs
  | succ c ih =>
    rw [Function.iterate_succ_apply', ← ih, pow_succ, mul_comm, doubleBlock_gfMulBlock _ _ hs]

theorem multBlock_two (s : Bytes) (hs : s.length = 16) : multBlock 2 s = doubleBlock s := by
  rw [multBlock_eq_gfMulBlock 2 s hs, show 2 = 2 ^ 1 from rfl, gfMulBlock_two_pow 1 s hs,
    Function.iterate_one]

theorem xorBytes1x16_gfMulBlock (a b : Nat) (s : Bytes) (hs : s.length = 16) :
    xorBytes1x16 (gfMulBlock a s) (gfMulBlock b s) = gfMulBlock (a ^^^ b) s := by
  refine eq_of_fromBytesBE_eq (by simp) (by simp) ?_
  rw [fromBytesBE_xorBytes1x16 _ _ (by simp) (by simp), fromBytesBE_gfMulBlock _ _ hs,
    fromBytesBE_gfMulBlock _ _ hs, fromBytesBE_gfMulBlock _ _ hs, gfMul_xor]

end Aezeed
