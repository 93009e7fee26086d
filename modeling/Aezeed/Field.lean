import Aezeed.Block

/-!
# The field GF(2^128)

The polynomial reading of the block operations, stated apart from the code. A number is a
polynomial over GF(2) whose coefficient of `z^k` is bit `k`; `clmul` multiplies two of them,
`gfModulus` is `z^128 + z^7 + z^2 + z + 1`, and `IsGfProduct x s r` says that `r` is `x * s` in
GF(2)[z]/(gfModulus): a polynomial of degree below 128 that differs from `clmul x s` by a multiple
of the modulus. `gfMul` computes it (`isGfProduct_gfMul`), so `_mult_block` and `_double_block`
are the field operations.
-/

namespace Aezeed

/-- The product of two GF(2)-polynomials: the sum, over the bits `k` of `a`, of `b * z^k`. -/
def clmul (a b : Nat) : Nat :=
  if a = 0 then 0 else (if a % 2 = 1 then b else 0) ^^^ clmul (a / 2) (2 * b)
termination_by a

/-- `z^128 + z^7 + z^2 + z + 1`. -/
def gfModulus : Nat := 2 ^ 128 ^^^ 0x87

/-- `r` is the product `x * s` in GF(2^128) = GF(2)[z]/(z^128 + z^7 + z^2 + z + 1). -/
def IsGfProduct (x s r : Nat) : Prop := r < 2 ^ 128 ∧ ∃ q, clmul x s = r ^^^ clmul q gfModulus

/-- The block `b` is `x * s`, both read as `int.from_bytes(_, "big")`. -/
def IsGfBlock (x : Nat) (s b : Bytes) : Prop :=
  b.length = 16 ∧ IsGfProduct x (fromBytesBE s) (fromBytesBE b)

/-! ## Polynomial products -/

theorem two_mul_xor (a b : Nat) : 2 * (a ^^^ b) = 2 * a ^^^ 2 * b := by
  have h2 : ∀ n : Nat, 2 * n = 2 ^ 1 * n := fun n => rfl
  apply Nat.eq_of_testBit_eq
  intro i
  rw [h2, h2 a, h2 b, Nat.testBit_xor, Nat.testBit_mul_pow_two, Nat.testBit_mul_pow_two,
    Nat.testBit_mul_pow_two, Nat.testBit_xor]
  cases decide (i ≥ 1) <;> simp

@[simp] theorem clmul_zero_left (b : Nat) : clmul 0 b = 0 := by
  rw [clmul, if_pos rfl]

theorem clmul_eq (a b : Nat) :
    clmul a b = (if a % 2 = 1 then b else 0) ^^^ clmul (a / 2) (2 * b) := by
  rcases Nat.eq_zero_or_pos a with rfl | ha
  · simp
  · rw [clmul, if_neg ha.ne']

@[simp] theorem clmul_one_left (b : Nat) : clmul 1 b = b := by
  rw [clmul_eq]
  simp

theorem clmul_two_mul_right (a b : Nat) : clmul a (2 * b) = 2 * clmul a b := by
  induction a using Nat.strong_induction_on generalizing b with
  | _ a ih =>
    rcases Nat.eq_zero_or_pos a with rfl | ha
    · simp
    rw [clmul_eq, clmul_eq a b, ih (a / 2) (by omega), two_mul_xor]
    split_ifs <;> rfl

/-- Horner's rule: `a * b = z * ((a / 2) * b) + (a mod 2) * b`. -/
theorem clmul_eq_horner (a b : Nat) :
    clmul a b = (if a % 2 = 1 then b else 0) ^^^ 2 * clmul (a / 2) b := by
  rw [clmul_eq, clmul_two_mul_right]

theorem clmul_two_mul_left (a b : Nat) : clmul (2 * a) b = 2 * clmul a b := by
  rw [clmul_eq_horner]
  simp [show 2 * a / 2 = a by omega]

theorem clmul_xor_left (a a' b : Nat) : clmul (a ^^^ a') b = clmul a b ^^^ clmul a' b := by
  induction a using Nat.strong_induction_on generalizing a' with
  | _ a ih =>
    rcases Nat.eq_zero_or_pos a with rfl | ha
    · simp
    rw [clmul_eq_horner (a ^^^ a'), clmul_eq_horner a, clmul_eq_horner a', Nat.xor_div_two,
      ih (a / 2) (by omega), two_mul_xor, ite_xor_mod_two]
    ac_rfl

/-! ## `gfMul` is the field product -/

/-- Doubling a reduced polynomial either stays reduced or overflows into `z^128`, which
`mulZ` replaces by `z^7 + z^2 + z + 1`. -/
theorem two_mul_eq_mulZ_xor {g : Nat} (hg : g < 2 ^ 128) :
    2 * g = mulZ g ^^^ clmul (if g.testBit 127 then 1 else 0) gfModulus := by
  apply Nat.eq_of_testBit_eq
  intro k
  have hgk : ∀ j, 128 ≤ j → g.testBit j = false := fun j hj =>
    Nat.testBit_lt_two_pow (lt_of_lt_of_le hg (Nat.pow_le_pow_right (by norm_num) hj))
  rw [show (2 : Nat) * g = 2 ^ 1 * g from rfl, Nat.testBit_mul_pow_two, Nat.testBit_xor,
    testBit_mulZ]
  cases hb : g.testBit 127
  · rcases Nat.lt_or_ge k 128 with hk | hk
    · simp [hk, Bool.and_comm]
    · have hk1 : g.testBit (k - 1) = false := by
        rcases Nat.eq_or_lt_of_le hk with rfl | hk'
        · exact hb
        · exact hgk _ (by omega)
      simp [show ¬k < 128 by omega, hk1]
  · simp only [if_true, clmul_one_left, gfModulus, Nat.testBit_xor, Nat.testBit_two_pow]
    rcases Nat.lt_trichotomy k 128 with hk | rfl | hk
    · simp [hk, show 128 ≠ k by omega, Bool.and_comm]
    · simp [hb]
    · simp [show ¬k < 128 by omega, show 128 ≠ k by omega, hgk (k - 1) (by omega),
        testBit_0x87_of_ge (by omega : 8 ≤ k)]

theorem clmul_quotient_step (x s : Nat) {g q : Nat} (hg : g < 2 ^ 128)
    (hq : clmul (x / 2) s = g ^^^ clmul q gfModulus) :
    clmul x s = (mulZ g ^^^ (if x % 2 = 1 then s else 0)) ^^^
      clmul ((if g.testBit 127 then 1 else 0) ^^^ 2 * q) gfModulus := by
  rw [clmul_eq_horner, hq, two_mul_xor, two_mul_eq_mulZ_xor hg, ← clmul_two_mul_left,
    clmul_xor_left]
  ac_rfl

/-- `gfMul x s` is the product `x * s` in GF(2^128). -/
theorem isGfProduct_gfMul (x : Nat) {s : Nat} (hs : s < 2 ^ 128) :
    IsGfProduct x s (gfMul x s) := by
  refine ⟨gfMul_lt x hs, ?_⟩
  induction x using Nat.strong_induction_on with
  | _ x ih =>
    rcases Nat.eq_zero_or_pos x with rfl | hx
    · exact ⟨0, by simp [gfMul_zero]⟩
    obtain ⟨q, hq⟩ := ih (x / 2) (by omega)
    rw [gfMul_eq]
    exact ⟨_, clmul_quotient_step x s (gfMul_lt _ hs) hq⟩

theorem gfMul_xor_right (x s t : Nat) : gfMul x (s ^^^ t) = gfMul x s ^^^ gfMul x t := by
  induction x using Nat.strong_induction_on with
  | _ x ih =>
    rcases Nat.eq_zero_or_pos x with rfl | hx
    · simp [gfMul_zero]
    rw [gfMul_eq, gfMul_eq x s, gfMul_eq x t, ih (x / 2) (by omega), mulZ_xor]
    split_ifs
    · ac_rfl
    · simp

/-! ## Blocks -/

theorem fromBytesBE_lt_of_length {s : Bytes} (hs : s.length = 16) : fromBytesBE s < 2 ^ 128 :=
  lt_of_lt_of_eq (fromBytesBE_lt s) (by rw [hs]; norm_num)

theorem isGfBlock_gfMulBlock (x : Nat) {s : Bytes} (hs : s.length = 16) :
    IsGfBlock x s (gfMulBlock x s) := by
  refine ⟨length_gfMulBlock x s, ?_⟩
  rw [fromBytesBE_gfMulBlock x s hs]
  exact isGfProduct_gfMul x (fromBytesBE_lt_of_length hs)

@[simp] theorem gfMulBlock_mkBlock (x : Nat) : gfMulBlock x mkBlock = mkBlock := by
  have h := gfMul_xor_right x 0 0
  rw [Nat.xor_self, Nat.xor_self] at h
  rw [gfMulBlock, show fromBytesBE mkBlock = 0 from rfl, h]
  rfl

theorem multBlock_xorBytes1x16 (x : Nat) {s t : Bytes} (hs : s.length = 16) (ht : t.length = 16) :
    multBlock x (xorBytes1x16 s t) = xorBytes1x16 (multBlock x s) (multBlock x t) := by
  have hst := length_xorBytes1x16 s t hs ht
  rw [multBlock_eq_gfMulBlock _ _ hst, multBlock_eq_gfMulBlock _ _ hs,
    multBlock_eq_gfMulBlock _ _ ht]
  refine eq_of_fromBytesBE_eq (by simp) (by simp) ?_
  rw [fromBytesBE_xorBytes1x16 _ _ (by simp) (by simp), fromBytesBE_gfMulBlock _ _ hst,
    fromBytesBE_gfMulBlock _ _ hs, fromBytesBE_gfMulBlock _ _ ht, fromBytesBE_xorBytes1x16 _ _ hs ht,
    gfMul_xor_right]

/-- `_mult_block(x, s)` is the GF(2^128) product `x * s`; `_double_block(s)` is `z * s`; both are
additive in `s`, and `_mult_block` is additive in `x`. -/
theorem multBlock_field_product (x : Nat) (s : Bytes) (hs : s.length = 16) :
    (multBlock x s).length = 16 ∧ IsGfProduct x (fromBytesBE s) (fromBytesBE (multBlock x s)) ∧
      IsGfProduct 2 (fromBytesBE s) (fromBytesBE (doubleBlock s)) ∧
      (∀ t : Bytes, t.length = 16 →
        multBlock x (xorBytes1x16 s t) = xorBytes1x16 (multBlock x s) (multBlock x t) ∧
          doubleBlock (xorBytes1x16 s t) = xorBytes1x16 (doubleBlock s) (doubleBlock t)) ∧
      ∀ y : Nat, multBlock (x ^^^ y) s = xorBytes1x16 (multBlock x s) (multBlock y s) := by
  have hprod : ∀ x, IsGfProduct x (fromBytesBE s) (fromBytesBE (multBlock x s)) := fun x => by
    rw [multBlock_eq_gfMulBlock x s hs, fromBytesBE_gfMulBlock x s hs]
    exact isGfProduct_gfMul x (fromBytesBE_lt_of_length hs)
  refine ⟨by rw [multBlock_eq_gfMulBlock x s hs]; simp, hprod x, ?_, fun t ht => ?_, fun y => ?_⟩
  · rw [← multBlock_two s hs]
    exact hprod 2
  · have hst := length_xorBytes1x16 s t hs ht
    rw [← multBlock_two _ hst, ← multBlock_two s hs, ← multBlock_two t ht]
    exact ⟨multBlock_xorBytes1x16 x hs ht, multBlock_xorBytes1x16 2 hs ht⟩
  · rw [multBlock_eq_gfMulBlock _ _ hs, multBlock_eq_gfMulBlock _ _ hs,
      multBlock_eq_gfMulBlock _ _ hs, xorBytes1x16_gfMulBlock _ _ _ hs]

theorem multBlock_field_product_three :
    (multBlock 3 (List.replicate 16 0xFF#8)).length = 16 ∧
      IsGfProduct 3 (fromBytesBE (List.replicate 16 0xFF#8))
        (fromBytesBE (multBlock 3 (List.replicate 16 0xFF#8))) ∧
      IsGfProduct 2 (fromBytesBE (List.replicate 16 0xFF#8))
        (fromBytesBE (doubleBlock (List.replicate 16 0xFF#8))) ∧
      (∀ t : Bytes, t.length = 16 →
        multBlock 3 (xorBytes1x16 (List.replicate 16 0xFF#8) t) =
            xorBytes1x16 (multBlock 3 (List.replicate 16 0xFF#8)) (multBlock 3 t) ∧
          doubleBlock (xorBytes1x16 (List.replicate 16 0xFF#8) t) =
            xorBytes1x16 (doubleBlock (List.replicate 16 0xFF#8)) (doubleBlock t)) ∧
      ∀ y : Nat, multBlock (3 ^^^ y) (List.replicate 16 0xFF#8) =
        xorBytes1x16 (multBlock 3 (List.replicate 16 0xFF#8)) (multBlock y (List.replicate 16 0xFF#8)) :=
  multBlock_field_product 3 _ (List.length_replicate 16 _)

end Aezeed
