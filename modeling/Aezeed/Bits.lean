import Aezeed.Block

/-!
# Bit strings

AEZ-tiny is specified on bit strings: an `n`-byte block is cut into two halves of `4n` bits
each, which for odd `n` is not a byte boundary. Bits are taken most significant first, from the
first byte on.
-/

namespace Aezeed

/-- The bits of a byte, most significant first. -/
def byteBits (b : BitVec 8) : List Bool := List.ofFn fun i : Fin 8 => b.getMsbD i

/-- The byte whose bits, most significant first, are the first eight of `bs`. -/
def bitsByte (bs : List Bool) : BitVec 8 :=
  BitVec.ofNat 8 ((bs.take 8).foldl (fun acc x => 2 * acc + x.toNat) 0)

def bytesToBits (a : Bytes) : List Bool := a.flatMap byteBits

def bitsToBytes (bs : List Bool) : Bytes :=
  (List.range (bs.length / 8)).map fun i => bitsByte (bs.drop (8 * i))

@[simp] theorem length_byteBits (b : BitVec 8) : (byteBits b).length = 8 := by simp [byteBits]

/-! ## Bits and bytes round trip -/

theorem foldl_bits (l : List Bool) (acc : Nat) :
    l.foldl (fun acc x => 2 * acc + x.toNat) acc =
      acc * 2 ^ l.length + l.foldl (fun acc x => 2 * acc + x.toNat) 0 := by
  induction l generalizing acc with
  | nil => simp
  | cons x l ih =>
    rw [List.foldl_cons, List.foldl_cons, ih, ih (2 * 0 + x.toNat), List.length_cons, pow_succ]
    ring

theorem toNat_testBit (n i : Nat) : (n.testBit i).toNat = n / 2 ^ i % 2 := by
  rw [Nat.testBit_to_div_mod]
  rcases Nat.mod_two_eq_zero_or_one (n / 2 ^ i) with h | h <;> simp [h]

theorem foldl_ofFn_testBit (n w : Nat) :
    (List.ofFn fun i : Fin w => n.testBit (w - 1 - i)).foldl (fun acc x => 2 * acc + x.toNat) 0 =
      n % 2 ^ w := by
  induction w with
  | zero => simp [Nat.mod_one]
  | succ w ih =>
    have htail : (List.ofFn fun i : Fin w => n.testBit (w - (i.val + 1))) =
        List.ofFn fun i : Fin w => n.testBit (w - 1 - i) := by
      congr 1; funext i; congr 1; omega
    rw [List.ofFn_succ, List.foldl_cons, foldl_bits]
    simp only [Fin.val_zero, Fin.val_succ, Nat.add_sub_cancel, Nat.sub_zero, htail, ih,
      List.length_ofFn, Nat.mod_pow_succ, toNat_testBit]
    ring

theorem bitsByte_byteBits : ∀ b : BitVec 8, bitsByte (byteBits b) = b := by
  intro b
  have hbits : byteBits b = List.ofFn fun i : Fin 8 => b.toNat.testBit (8 - 1 - i) := by
    simp [byteBits, BitVec.getMsbD, BitVec.getLsbD]
  apply BitVec.eq_of_toNat_eq
  rw [bitsByte, hbits, List.take_of_length_le (by simp), foldl_ofFn_testBit, BitVec.toNat_ofNat,
    Nat.mod_mod, Nat.mod_eq_of_lt b.isLt]

@[simp] theorem bytesToBits_nil : bytesToBits [] = [] := rfl

@[simp] theorem bytesToBits_cons (b : BitVec 8) (a : Bytes) :
    bytesToBits (b :: a) = byteBits b ++ bytesToBits a := rfl

@[simp] theorem bytesToBits_append (a c : Bytes) :
    bytesToBits (a ++ c) = bytesToBits a ++ bytesToBits c := List.flatMap_append a c byteBits

@[simp] theorem length_bytesToBits (a : Bytes) : (bytesToBits a).length = 8 * a.length := by
  induction a with
  | nil => rfl
  | cons b a ih => simp [ih]; ring

theorem bytesToBits_take (a : Bytes) (q : Nat) :
    (bytesToBits a).take (8 * q) = bytesToBits (a.take q) := by
  induction a generalizing q with
  | nil => simp
  | cons b a ih =>
    cases q with
    | zero => simp
    | succ q =>
      rw [bytesToBits_cons, show 8 * (q + 1) = 8 + 8 * q by ring, List.take_append_eq_append_take,
        List.take_of_length_le (by simp), length_byteBits, Nat.add_sub_cancel_left, ih]
      rfl

theorem bytesToBits_drop (a : Bytes) (q : Nat) :
    (bytesToBits a).drop (8 * q) = bytesToBits (a.drop q) := by
  induction a generalizing q with
  | nil => simp
  | cons b a ih =>
    cases q with
    | zero => simp
    | succ q =>
      rw [bytesToBits_cons, show 8 * (q + 1) = 8 + 8 * q by ring, List.drop_append_eq_append_drop,
        List.drop_of_length_le (by simp), length_byteBits, Nat.add_sub_cancel_left, ih]
      rfl

theorem bitsToBytes_append_of_length (bs cs : List Bool) (hb : bs.length = 8) :
    bitsToBytes (bs ++ cs) = bitsByte bs :: bitsToBytes cs := by
  rw [bitsToBytes, List.length_append, hb, show (8 + cs.length) / 8 = cs.length / 8 + 1 by omega,
    List.range_succ_eq_map, List.map_cons, List.map_map, bitsToBytes]
  simp only [Nat.mul_zero, List.drop_zero, Function.comp_def, Nat.mul_succ, ← Nat.add_assoc]
  congr 1
  · simp [bitsByte, List.take_append_eq_append_take, hb, List.take_of_length_le (le_of_eq hb)]
  · refine List.map_congr_left fun i _ => ?_
    rw [show 8 * i + 8 = bs.length + 8 * i by omega, ← List.drop_drop, List.drop_left]

theorem bitsToBytes_bytesToBits (a : Bytes) : bitsToBytes (bytesToBits a) = a := by
  induction a with
  | nil => rfl
  | cons b a ih =>
    rw [bytesToBits_cons, bitsToBytes_append_of_length _ _ (length_byteBits b), ih,
      bitsByte_byteBits]

@[simp] theorem length_bitsToBytes (bs : List Bool) : (bitsToBytes bs).length = bs.length / 8 := by
  simp [bitsToBytes]

/-! ## Xor -/

theorem byteBits_xor (a b : BitVec 8) :
    byteBits (a ^^^ b) = List.zipWith Bool.xor (byteBits a) (byteBits b) := by
  simp only [byteBits, BitVec.getMsbD_xor, List.ofFn_succ, Fin.isValue, Fin.val_zero, Fin.val_succ,
    zero_add, Nat.reduceAdd, Fin.val_eq_zero, List.ofFn_zero, List.zipWith_cons_cons,
    List.zipWith_same, bne_self_eq_false, List.map_nil]

theorem bytesToBits_zipWith_xor (a b : Bytes) (h : a.length = b.length) :
    bytesToBits (List.zipWith (· ^^^ ·) a b) =
      List.zipWith Bool.xor (bytesToBits a) (bytesToBits b) := by
  induction a generalizing b with
  | nil => simp
  | cons x a ih =>
    cases b with
    | nil => simp at h
    | cons y b =>
      simp only [List.zipWith_cons_cons, bytesToBits_cons, byteBits_xor]
      rw [List.zipWith_append _ _ _ _ _ (by simp), ih b (by simpa using h)]

/-! ## Nibbles -/

theorem byteBits_shl4_or_shr4 (a b : BitVec 8) :
    byteBits ((a <<< 4) ||| (b >>> 4)) = (byteBits a).drop 4 ++ (byteBits b).take 4 := by
  simp only [byteBits, BitVec.getMsbD_or, BitVec.getMsbD_shiftLeft, BitVec.getMsbD_ushiftRight,
    Fin.is_lt, decide_True, Bool.true_and, List.ofFn_succ, Fin.isValue, Fin.val_zero, zero_add,
    Nat.ofNat_pos, Bool.not_true, zero_le, Nat.sub_eq_zero_of_le, Bool.false_and, Bool.or_false,
    Fin.val_succ, Nat.reduceSubDiff, Nat.reduceAdd, Nat.one_lt_ofNat, Nat.reduceLT, Nat.lt_add_one,
    le_add_iff_nonneg_left, BitVec.getMsbD_ge, add_tsub_cancel_right, Bool.false_or,
    lt_self_iff_false, decide_False, Bool.not_false, Fin.val_eq_zero, List.ofFn_zero,
    List.drop_succ_cons, List.drop_zero, List.take_succ_cons, List.take_zero, List.cons_append,
    List.nil_append, List.singleton_append]

theorem byteBits_shl4 (a : BitVec 8) :
    byteBits (a <<< 4) = (byteBits a).drop 4 ++ [false, false, false, false] := by
  simp only [byteBits, BitVec.getMsbD_shiftLeft, List.ofFn_succ, Fin.isValue, Fin.val_zero,
    zero_add, Fin.val_succ, Nat.reduceAdd, le_add_iff_nonneg_left, zero_le, BitVec.getMsbD_ge,
    List.ofFn_zero, Fin.val_eq_zero, List.drop_succ_cons, List.drop_zero, List.cons_append,
    List.nil_append, List.singleton_append]

theorem byteBits_high_nibbles (a b : BitVec 8) :
    byteBits (((a >>> 4) &&& 0x0F#8) ||| (b &&& 0xF0#8)) = (byteBits b).take 4 ++ (byteBits a).take 4 := by
  simp only [byteBits, BitVec.getMsbD_or, BitVec.getMsbD_and, BitVec.getMsbD_ushiftRight, Fin.is_lt,
    decide_True, Bool.true_and, List.ofFn_succ, Fin.isValue, Fin.val_zero, Nat.ofNat_pos,
    Bool.not_true, zero_le, Nat.sub_eq_zero_of_le, Bool.false_and, BitVec.reduceGetMsb,
    Bool.and_self, Bool.and_true, Bool.false_or, Fin.val_succ, Nat.reduceSubDiff, zero_add,
    Nat.one_lt_ofNat, Nat.reduceAdd, Nat.reduceLT, Nat.lt_add_one, add_tsub_cancel_right,
    lt_self_iff_false, decide_False, Bool.not_false, Bool.and_false, Bool.or_false, Fin.val_eq_zero,
    List.ofFn_zero, List.take_succ_cons, List.take_zero, List.cons_append, List.nil_append,
    List.singleton_append]

theorem byteBits_pad_nibble (a : BitVec 8) :
    byteBits ((a &&& 0xF0#8) ||| 0x08#8) = (byteBits a).take 4 ++ [true, false, false, false] := by
  simp only [byteBits, BitVec.getMsbD_or, BitVec.getMsbD_and, List.ofFn_succ, Fin.isValue,
    Fin.val_zero, BitVec.reduceGetMsb, Bool.and_true, Bool.or_false, Fin.val_succ, zero_add,
    Nat.reduceAdd, Bool.and_false, Bool.or_true, Bool.or_self, Fin.val_eq_zero, List.ofFn_zero,
    List.take_succ_cons, List.take_zero, List.cons_append, List.nil_append, List.singleton_append]

end Aezeed
