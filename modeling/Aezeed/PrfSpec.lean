import Aezeed.Hash

/-!
# aez-prf against the AEZ definition

AEZ defines the authenticator-only ciphertext as the first `tau` bytes of the stream
`AES10(L[3], delta xor be128(0)) ‖ AES10(L[3], delta xor be128(1)) ‖ ...` (`prfStream`).
`aez_prf` produces it with a 16-byte counter block that a byte loop increments from byte 15
down, carrying into the byte before whenever a byte wraps to zero. That loop is `+1` modulo
`2^128` (`ctrIncrement_toBytesBE`), and the last, partial block is cut, not padded.
-/

namespace Aezeed

/-- Block `b` of the AEZ PRF stream: `AES10(L[3], delta xor be128(b))`. -/
def AEZState.prfBlock (st : AEZState) (delta : Bytes) (b : Nat) : Bytes :=
  st.aes.aes10 (st.L.getD 3 mkBlock) (xorBytes1x16 delta (toBytesBE 16 (b % 2 ^ 128)))

def AEZState.prfStream (st : AEZState) (delta : Bytes) (n : Nat) : Bytes :=
  ((List.range n).map (st.prfBlock delta)).flatten

/-! ## The counter -/

theorem toNat_add_one_byte (c : BitVec 8) : (c + 1).toNat = (c.toNat + 1) % 256 := by
  simp [BitVec.toNat_add]

theorem add_one_eq_zero_iff_byte (c : BitVec 8) : c + 1 = 0 ↔ c.toNat = 255 := by
  rw [BitVec.toNat_eq, toNat_add_one_byte]
  show (c.toNat + 1) % 256 = 0 ↔ _
  omega

theorem fromBytesBE_concat (p : Bytes) (c : BitVec 8) :
    fromBytesBE (p ++ [c]) = fromBytesBE p * 256 + c.toNat := by
  simp [fromBytesBE_append, fromBytesBE, ofDigitsBE]

theorem getD_append_cons {q : Bytes} {n : Nat} (hq : q.length = n) (x : BitVec 8) (s : Bytes) :
    (q ++ x :: s).getD n 0 = x := by
  rw [List.getD_eq_getElem?_getD, List.getElem?_append_right (by omega), hq, Nat.sub_self]
  simp

theorem set_append_cons {q : Bytes} {n : Nat} (hq : q.length = n) (x y : BitVec 8) (s : Bytes) :
    (q ++ x :: s).set n y = q ++ y :: s := by
  rw [List.set_append_right _ _ (by omega), hq, Nat.sub_self]
  rfl

/-- The carry loop from byte `idx` down adds one to the number in bytes `0..idx`, modulo
`256 ^ (idx + 1)`, and leaves the bytes after `idx` alone. -/
theorem ctrIncrement_append (idx : Nat) :
    ∀ p s : Bytes, p.length = idx + 1 → ∃ p' : Bytes, ctrIncrement (p ++ s) idx = p' ++ s ∧
      p'.length = idx + 1 ∧ fromBytesBE p' = (fromBytesBE p + 1) % 256 ^ (idx + 1) := by
  induction idx with
  | zero =>
    intro p s hp
    obtain ⟨c, rfl⟩ := List.length_eq_one.mp hp
    refine ⟨[c + 1], rfl, rfl, ?_⟩
    simp [fromBytesBE, ofDigitsBE, toNat_add_one_byte]
  | succ idx ih =>
    intro p s hp
    obtain ⟨q, c, rfl⟩ : ∃ q c, p = q ++ [c] :=
      ⟨p.dropLast, p.getLast (List.ne_nil_of_length_pos (by omega)),
        (List.dropLast_append_getLast _).symm⟩
    have hq : q.length = idx + 1 := by simpa using hp
    have hF : fromBytesBE q + 1 ≤ 256 ^ (idx + 1) := hq ▸ fromBytesBE_lt q
    have hstep : ctrIncrement (q ++ [c] ++ s) (idx + 1) =
        if c + 1 ≠ 0 then q ++ (c + 1) :: s else ctrIncrement (q ++ (c + 1) :: s) idx := by
      simp only [ctrIncrement, List.append_assoc, List.singleton_append]
      rw [getD_append_cons hq, set_append_cons hq, getD_append_cons hq]
    rw [hstep, fromBytesBE_concat, pow_succ 256 (idx + 1)]
    by_cases hc1 : c + 1 = 0
    · have hc255 := (add_one_eq_zero_iff_byte c).1 hc1
      obtain ⟨q', hq', hlen, hval⟩ := ih q ((c + 1) :: s) hq
      rw [if_neg (not_not.mpr hc1), hq']
      refine ⟨q' ++ [0], by rw [hc1, List.append_assoc, List.singleton_append], by simp [hlen], ?_⟩
      rw [fromBytesBE_concat, hval, hc255, show fromBytesBE q * 256 + 255 + 1 =
        (fromBytesBE q + 1) * 256 by ring, Nat.mul_mod_mul_right]
      simp
    · have hc255 : c.toNat + 1 < 256 := by
        rw [add_one_eq_zero_iff_byte] at hc1
        omega
      rw [if_pos hc1]
      refine ⟨q ++ [c + 1], by simp, by simp [hq], ?_⟩
      rw [fromBytesBE_concat, toNat_add_one_byte, Nat.mod_eq_of_lt hc255, Nat.mod_eq_of_lt (by omega)]
      ring

/-- The sixteen-byte counter steps from `be128(b)` to `be128(b + 1)`. -/
theorem ctrIncrement_toBytesBE (b : Nat) :
    ctrIncrement (toBytesBE 16 b) 15 = toBytesBE 16 (b + 1) := by
  obtain ⟨p', h, hlen, hval⟩ := ctrIncrement_append 15 (toBytesBE 16 b) [] (by simp)
  rw [List.append_nil, List.append_nil] at h
  rw [h]
  refine fromBytesBE_inj (by simp [hlen]) ?_
  rw [hval, fromBytesBE_toBytesBE, fromBytesBE_toBytesBE, Nat.add_mod, Nat.mod_mod,
    ← Nat.add_mod]

/-! ## The block loop -/

theorem toBytesBE_mod_two_pow (b : Nat) : toBytesBE 16 (b % 2 ^ 128) = toBytesBE 16 b := by
  rw [toBytesBE, show 2 ^ 128 = 256 ^ 16 by norm_num, digitsBE_mod, toBytesBE]

theorem length_prfStreamFrom (st : AEZState) (delta : Bytes) (b n : Nat) :
    ((List.range' b n).map (st.prfBlock delta)).flatten.length = 16 * n := by
  induction n generalizing b with
  | zero => rfl
  | succ n ih =>
    rw [List.range'_succ, List.map_cons, List.flatten_cons, List.length_append, ih]
    simp [AEZState.prfBlock]
    ring

/-- `count` passes of the `while remaining >= BLOCK_SIZE` loop from counter `be128(b)` write
blocks `b .. b + count - 1` of the stream at `off` and leave the counter at `be128(b + count)`. -/
theorem prfBlocks_spec (st : AEZState) (delta : Bytes) (count : Nat) :
    ∀ (b : Nat) (dst : Bytes) (off : Nat), off + 16 * count ≤ dst.length →
      st.prfBlocks delta count (toBytesBE 16 b) dst off =
        (toBytesBE 16 (b + count), dst.take off ++
          ((List.range' b count).map (st.prfBlock delta)).flatten ++ dst.drop (off + 16 * count)) := by
  induction count with
  | zero => intro b dst off _; simp [AEZState.prfBlocks]
  | succ count ih =>
    intro b dst off hlen
    have hblock : st.aes.aes10 (st.L.getD 3 mkBlock) (xorBytes1x16 delta (toBytesBE 16 b)) =
        st.prfBlock delta b := by
      rw [AEZState.prfBlock, toBytesBE_mod_two_pow]
    have hB : (st.prfBlock delta b).length = off + 16 - off := by simp [AEZState.prfBlock]
    have hdst : (setSlice dst off (off + 16) (st.prfBlock delta b)).length = dst.length :=
      length_setSlice (by omega) (by omega) hB
    rw [AEZState.prfBlocks, hblock, ctrIncrement_toBytesBE,
      ih (b + 1) _ (off + 16) (by rw [hdst]; omega), take_setSlice (by omega) (by omega) hB,
      drop_setSlice _ (by omega) (by omega) hB (by omega), List.range'_succ, List.map_cons,
      List.flatten_cons, show b + 1 + count = b + (count + 1) by omega,
      show off + 16 + 16 * count = off + 16 * (count + 1) by ring]
    simp only [List.append_assoc]

/-- `aez_prf(delta, tau, dst)` on a `dst` of `tau` bytes leaves in it the first `tau` bytes of
the AEZ PRF stream, and its carry loop is `+1` on the 128-bit big-endian counter. -/
theorem aezPrf_eq_prfStream (st : AEZState) (delta : Bytes) (tau : Nat) (dst : Bytes)
    (hdst : dst.length = tau) (n : Nat) (hn : tau ≤ 16 * n) :
    st.aezPrf delta tau dst = (st.prfStream delta n).take tau ∧
      ∀ b, ctrIncrement (toBytesBE 16 b) 15 = toBytesBE 16 (b + 1) := by
  refine ⟨?_, ctrIncrement_toBytesBE⟩
  set c := tau / 16
  set F := ((List.range' 0 c).map (st.prfBlock delta)).flatten
  have hlen : F.length = 16 * c := length_prfStreamFrom st delta 0 c
  have hstream : st.prfStream delta n =
      F ++ ((List.range' c (n - c)).map (st.prfBlock delta)).flatten := by
    have h := List.range'_append 0 c (n - c) 1
    rw [Nat.sub_add_cancel (by omega), Nat.zero_add, Nat.one_mul] at h
    rw [AEZState.prfStream, List.range_eq_range', ← h, List.map_append, List.flatten_append]
  have hloop : st.prfBlocks delta c mkBlock dst 0 = (toBytesBE 16 c, F ++ dst.drop (16 * c)) := by
    rw [show (mkBlock : Bytes) = toBytesBE 16 0 from rfl]
    simpa using prfBlocks_spec st delta c 0 dst 0 (by omega)
  have hprf : st.aezPrf delta tau dst = F ++ (st.prfBlock delta c).take (tau - 16 * c) := by
    simp only [AEZState.aezPrf, hloop]
    split_ifs with hR
    · rw [setSlice, List.take_left' hlen, List.drop_eq_nil_of_le (by simp only [List.length_append, List.length_drop, hlen, hdst]; omega),
        List.append_nil, AEZState.prfBlock, toBytesBE_mod_two_pow]
    · rw [List.drop_eq_nil_of_le (by omega), show tau - 16 * c = 0 by omega, List.take_zero]
  rw [hprf, hstream, List.take_append_eq_append_take, List.take_of_length_le
    (show F.length ≤ tau by omega), hlen]
  congr 1
  by_cases hR : tau - 16 * c = 0
  · rw [hR, List.take_zero, List.take_zero]
  · obtain ⟨k, hk⟩ : ∃ k, n - c = k + 1 := ⟨n - c - 1, by omega⟩
    have hlenB : (st.prfBlock delta c).length = 16 := by simp [AEZState.prfBlock]
    rw [hk, List.range'_succ, List.map_cons, List.flatten_cons, List.take_append_eq_append_take,
      hlenB, show tau - 16 * c - 16 = 0 by omega, List.take_zero, List.append_nil]

theorem aezPrf_eq_prfStream_twenty :
    (List.replicate 20 (0 : BitVec 8)).length = 20 ∧ 20 ≤ 16 * 2 ∧
      ((AEZState.init ⟨fun _ size => List.replicate size 0, fun _ _ => List.length_replicate _ _⟩
          ((List.range 48).map (BitVec.ofNat 8))).aezPrf mkBlock 20 (List.replicate 20 0) =
        ((AEZState.init ⟨fun _ size => List.replicate size 0, fun _ _ => List.length_replicate _ _⟩
          ((List.range 48).map (BitVec.ofNat 8))).prfStream mkBlock 2).take 20 ∧
        ∀ b, ctrIncrement (toBytesBE 16 b) 15 = toBytesBE 16 (b + 1)) :=
  ⟨List.length_replicate 20 0, by decide,
    aezPrf_eq_prfStream _ mkBlock 20 (List.replicate 20 0) (List.length_replicate 20 0) 2 (by decide)⟩

end Aezeed
