import Aezeed.Hash

/-!
# aez-hash is the AEZ v5 tweakable hash

The specification: `E(j, i, X) = AES4(X xor j J xor 2^⌈i/8⌉ I xor (i mod 8) L)` with the
products in GF(2^128); `H(j, T)` xors `E(j, l, T_l)` over the full blocks `T_l` of `T` and
`E(j, 0, pad(T_*))` over its padded partial block (or the padded empty string); the hash of
`(N, A_0, ..., A_(m-1), tau)` is `E(3, 1, be128(tau)) xor H(4, N) xor H(5, A_0) xor ...`.
`aezHash_eq_aezHashSpec` says that `aez_hash` of an initialised state computes it: the walk over
each string doubles `I_tmp` after every eighth block, as `2^⌈i/8⌉` asks.
-/

namespace Aezeed

def xorBlocks (bs : List Bytes) : Bytes := bs.foldl xorBytes1x16 mkBlock

/-- `E(j, i, X) = rounds(X xor j * J xor 2^⌈i/8⌉ * I xor (i mod 8) * L, 4)`. -/
def aezE (aes : AESRound) (I J L : Bytes) (j i : Nat) (X : Bytes) : Bytes :=
  aes.rounds (xorBytes4x16 X (gfMulBlock j J) (gfMulBlock (2 ^ ((i + 7) / 8)) I)
    (gfMulBlock (i % 8) L)) 4

/-- `H(j, T)`: `E(j, l, T[16(l-1)..16l))` for the full blocks, `l = 1, 2, ...`, and
`E(j, 0, one_zero_pad(rest))` when a partial block is left or `T` is empty. -/
def aezH (aes : AESRound) (I J L : Bytes) (j : Nat) (T : Bytes) : Bytes :=
  let q := T.length / 16
  let full := (List.range q).map fun l => aezE aes I J L j (l + 1) (slice T (16 * l) (16 * l + 16))
  let last := if T.length % 16 ≠ 0 ∨ T = [] then
      [aezE aes I J L j 0 (oneZeroPad (T.drop (16 * q)) (T.length % 16))]
    else []
  xorBlocks (full ++ last)

/-- The AEZ v5 hash `E(3, 1, be128(tau)) xor H(4, N) xor H(5, A_0) xor ... xor H(4 + m, A_(m-1))`,
a missing nonce hashing as the empty string. -/
def aezHashSpec (aes : AESRound) (I J L : Bytes) (nonce : Option Bytes) (ad : List Bytes)
    (tau : Nat) : Bytes :=
  xorBlocks (aezE aes I J L 3 1 (toBytesBE 16 tau) :: aezH aes I J L 4 (nonce.getD []) ::
    ad.mapIdx fun k A => aezH aes I J L (5 + k) A)

/-! ## Block values -/

def xorValues (bs : List Bytes) : Nat := bs.foldl (fun acc b => acc ^^^ fromBytesBE b) 0

theorem foldl_xor_fromBytesBE (a : Nat) (bs : List Bytes) :
    bs.foldl (fun acc b => acc ^^^ fromBytesBE b) a = a ^^^ xorValues bs := by
  induction bs generalizing a with
  | nil => simp [xorValues]
  | cons b bs ih =>
    simp only [List.foldl_cons, xorValues, Nat.zero_xor] at ih ⊢
    rw [ih, ih (fromBytesBE b), Nat.xor_assoc]

@[simp] theorem xorValues_nil : xorValues [] = 0 := rfl

theorem xorValues_cons (b : Bytes) (bs : List Bytes) :
    xorValues (b :: bs) = fromBytesBE b ^^^ xorValues bs := by
  rw [xorValues, List.foldl_cons, Nat.zero_xor, foldl_xor_fromBytesBE]

theorem xorValues_append (bs cs : List Bytes) :
    xorValues (bs ++ cs) = xorValues bs ^^^ xorValues cs := by
  rw [xorValues, List.foldl_append, foldl_xor_fromBytesBE]
  rfl

theorem xorBlocks_spec (bs : List Bytes) (h : ∀ b ∈ bs, b.length = 16) :
    (xorBlocks bs).length = 16 ∧ fromBytesBE (xorBlocks bs) = xorValues bs := by
  suffices ∀ a, a.length = 16 → (bs.foldl xorBytes1x16 a).length = 16 ∧
      fromBytesBE (bs.foldl xorBytes1x16 a) = fromBytesBE a ^^^ xorValues bs from
    (this mkBlock rfl).imp id fun h' => h'.trans (Nat.zero_xor _)
  induction bs with
  | nil => simp
  | cons b bs ih =>
    intro a ha
    have hb := h b (by simp)
    obtain ⟨hl, hv⟩ := ih (fun c hc => h c (by simp [hc])) (xorBytes1x16 a b)
      (length_xorBytes1x16 a b ha hb)
    refine ⟨hl, ?_⟩
    rw [List.foldl_cons, hv, fromBytesBE_xorBytes1x16 a b ha hb, xorValues_cons, Nat.xor_assoc]

@[simp] theorem length_aezE (aes : AESRound) (I J L : Bytes) (j i : Nat) (X : Bytes) :
    (aezE aes I J L j i X).length = 16 :=
  length_rounds _ _ _ (length_xorBytes1x16_le _ _)

theorem fromBytesBE_xorBytes4x16 (a b c d : Bytes) (ha : a.length = 16) (hb : b.length = 16)
    (hc : c.length = 16) (hd : d.length = 16) :
    fromBytesBE (xorBytes4x16 a b c d) =
      fromBytesBE a ^^^ fromBytesBE b ^^^ fromBytesBE c ^^^ fromBytesBE d := by
  have hab := length_xorBytes1x16 a b ha hb
  have habc := length_xorBytes1x16 _ c hab hc
  rw [xorBytes4x16, fromBytesBE_xorBytes1x16 _ _ habc hd, fromBytesBE_xorBytes1x16 _ _ hab hc,
    fromBytesBE_xorBytes1x16 _ _ ha hb]

theorem length_xorBytes4x16 (a b c d : Bytes) (ha : a.length = 16) (hb : b.length = 16)
    (hc : c.length = 16) (hd : d.length = 16) : (xorBytes4x16 a b c d).length = 16 :=
  length_xorBytes1x16 _ _ (length_xorBytes1x16 _ _ (length_xorBytes1x16 _ _ ha hb) hc) hd

/-- `AES4(j J, 2^⌈i/8⌉ I, (i mod 8) L, X)` is `E(j, i, X)`: the four blocks are xored in another
order. -/
theorem aes4_eq_aezE (aes : AESRound) (I J L X : Bytes) (j i : Nat) (hX : X.length = 16) :
    aes.aes4 (gfMulBlock j J) (gfMulBlock (2 ^ ((i + 7) / 8)) I) (gfMulBlock (i % 8) L) X =
      aezE aes I J L j i X := by
  rw [AESRound.aes4, aezE]
  congr 1
  refine eq_of_fromBytesBE_eq (length_xorBytes4x16 _ _ _ _ (by simp) (by simp) (by simp) hX)
    (length_xorBytes4x16 _ _ _ _ hX (by simp) (by simp) (by simp)) ?_
  rw [fromBytesBE_xorBytes4x16 _ _ _ _ (by simp) (by simp) (by simp) hX,
    fromBytesBE_xorBytes4x16 _ _ _ _ hX (by simp) (by simp) (by simp)]
  ac_rfl

@[simp] theorem length_aezH (aes : AESRound) (I J L : Bytes) (j : Nat) (T : Bytes) :
    (aezH aes I J L j T).length = 16 := by
  refine (xorBlocks_spec _ fun b hb => ?_).1
  simp only [List.mem_append, List.mem_map] at hb
  split_ifs at hb <;> aesop

/-! ## The walk over one string -/

theorem hashTail_eq_oneZeroPad (s : Bytes) (offset n : Nat) (hn : n ≤ (s.drop offset).length) :
    (if ¬s.isEmpty then setSlice mkBlock 0 n (slice s offset (offset + n)) else mkBlock).set n
      0x80#8 = oneZeroPad (s.drop offset) n := by
  cases s with
  | nil =>
    obtain rfl : n = 0 := by simpa using hn
    rfl
  | cons x s =>
    have hslice : slice (x :: s) offset (offset + n) = ((x :: s).drop offset).take n := by
      simp [slice]
    rw [oneZeroPad, if_pos (by simp), hslice]
    by_cases h0 : n = 0
    · subst h0
      simp [setSlice]
    · rw [if_pos h0]


section Derived

variable (st : AEZState) (I J L : Bytes) (hD : st.Derived I J L)
include hD

/-- The `I_tmp` of block `i + 1`: doubled after block `i` exactly when `i` is a multiple of 8. -/
theorem iTmp_step (i : Nat) :
    (if i % 8 = 0 then doubleBlock (gfMulBlock (2 ^ ((i + 7) / 8)) I)
      else gfMulBlock (2 ^ ((i + 7) / 8)) I) = gfMulBlock (2 ^ ((i + 1 + 7) / 8)) I := by
  split_ifs with h
  · rw [doubleBlock_gfMulBlock _ _ hD.length_I, show (i + 1 + 7) / 8 = (i + 7) / 8 + 1 by omega,
      pow_succ, mul_comm]
  · rw [show (i + 1 + 7) / 8 = (i + 7) / 8 by omega]

theorem hashBlocks_spec (jj : Nat) (s : Bytes) (count : Nat) :
    ∀ (sum : Bytes) (i offset : Nat), sum.length = 16 → 1 ≤ i → offset = 16 * (i - 1) →
      offset + 16 * count ≤ s.length →
      (st.hashBlocks (gfMulBlock jj J) s count sum (gfMulBlock (2 ^ ((i + 7) / 8)) I)
          offset i).length = 16 ∧
        fromBytesBE (st.hashBlocks (gfMulBlock jj J) s count sum
          (gfMulBlock (2 ^ ((i + 7) / 8)) I) offset i) =
        fromBytesBE sum ^^^ xorValues ((List.range count).map fun t =>
          aezE st.aes I J L jj (i + t) (slice s (offset + 16 * t) (offset + 16 * t + 16))) := by
  induction count with
  | zero => exact fun sum _ _ hsum _ _ _ => ⟨hsum, by simp [AEZState.hashBlocks]⟩
  | succ count ih =>
    intro sum i offset hsum hi hoff hs
    have hblock : (slice s offset (offset + 16)).length = 16 := by
      simp [slice]
      omega
    have htmp : setSlice mkBlock 0 16 (slice s offset (offset + 16)) = slice s offset (offset + 16) := by
      rw [setSlice_zero, List.drop_of_length_le (by rfl), List.append_nil]
    have hE := aes4_eq_aezE st.aes I J L _ jj i hblock
    have hsum' := length_xorBytes1x16 sum _ hsum
      (length_aezE st.aes I J L jj i (slice s offset (offset + 16)))
    obtain ⟨hl, hv⟩ := ih _ (i + 1) (offset + 16) hsum' (by omega) (by omega) (by omega)
    simp only [AEZState.hashBlocks, htmp, hD.getD_L (i % 8) (by omega), hE, iTmp_step st I J L hD]
    refine ⟨hl, ?_⟩
    rw [hv, fromBytesBE_xorBytes1x16 _ _ hsum (by simp), List.range_succ_eq_map, List.map_cons,
      xorValues_cons, List.map_map, Nat.xor_assoc]
    have hmap : ∀ t ∈ List.range count,
        ((fun t => aezE st.aes I J L jj (i + t) (slice s (offset + 16 * t) (offset + 16 * t + 16))) ∘
          Nat.succ) t =
        aezE st.aes I J L jj (i + 1 + t) (slice s (offset + 16 + 16 * t) (offset + 16 + 16 * t + 16)) :=
      fun t _ => by
        rw [Function.comp_apply, Nat.succ_eq_add_one, show i + (t + 1) = i + 1 + t by omega,
          show offset + 16 * (t + 1) = offset + 16 + 16 * t by omega]
    rw [List.map_congr_left hmap]
    simp only [Nat.add_zero, Nat.mul_zero]

theorem hashString_spec (jj : Nat) (s sum : Bytes) (hsum : sum.length = 16) :
    (st.hashString (gfMulBlock jj J) s sum).length = 16 ∧
      fromBytesBE (st.hashString (gfMulBlock jj J) s sum) =
        fromBytesBE sum ^^^ fromBytesBE (aezH st.aes I J L jj s) := by
  have hI1 : st.I.getD 1 mkBlock = gfMulBlock (2 ^ ((1 + 7) / 8)) I := hD.getD_I 1 (by omega)
  have hI0 : st.I.getD 0 mkBlock = gfMulBlock (2 ^ ((0 + 7) / 8)) I := hD.getD_I 0 (by omega)
  have hL0 : st.L.getD 0 mkBlock = gfMulBlock (0 % 8) L := hD.getD_L 0 (by omega)
  obtain ⟨hl, hv⟩ := hashBlocks_spec st I J L hD jj s (s.length / 16) sum 1 0 hsum le_rfl
    (by simp) (by omega)
  have hfull : ((List.range (s.length / 16)).map fun t =>
      aezE st.aes I J L jj (1 + t) (slice s (0 + 16 * t) (0 + 16 * t + 16))) =
      (List.range (s.length / 16)).map fun l =>
        aezE st.aes I J L jj (l + 1) (slice s (16 * l) (16 * l + 16)) :=
    List.map_congr_left fun t _ => by rw [Nat.zero_add, Nat.add_comm 1 t]
  have hpad : (oneZeroPad (s.drop (16 * (s.length / 16))) (s.length % 16)).length = 16 := by
    simp [oneZeroPad, setSlice, mkBlock]
    split_ifs <;> simp
    omega
  simp only [AEZState.hashString, hI1, hI0, hL0, aezH, show s.length - 16 * (s.length / 16) =
    s.length % 16 by omega]
  rw [hashTail_eq_oneZeroPad s _ _ (by simp; omega), aes4_eq_aezE _ I J L _ jj 0 hpad, ← hfull]
  generalize hE : aezE st.aes I J L jj 0 (oneZeroPad (s.drop (16 * (s.length / 16))) (s.length % 16)) = E
  have hE16 : E.length = 16 := hE ▸ length_aezE _ _ _ _ _ _ _
  generalize hF : (List.range (s.length / 16)).map (fun t =>
    aezE st.aes I J L jj (1 + t) (slice s (0 + 16 * t) (0 + 16 * t + 16))) = F at hv
  have hF16 : ∀ b ∈ F, b.length = 16 := by
    rw [← hF]
    simp
  have hcond : (s.length % 16 > 0 ∨ s.isEmpty = true) ↔ (s.length % 16 ≠ 0 ∨ s = []) := by
    simp [Nat.pos_iff_ne_zero]
  by_cases hc : s.length % 16 ≠ 0 ∨ s = []
  · rw [if_pos (hcond.2 hc), if_pos hc]
    obtain ⟨-, hX⟩ := xorBlocks_spec (F ++ [E]) (by simpa [or_imp, forall_and, hE16] using hF16)
    refine ⟨length_xorBytes1x16 _ _ hl hE16, ?_⟩
    rw [fromBytesBE_xorBytes1x16 _ _ hl hE16, hv, hX, xorValues_append, xorValues_cons,
      xorValues_nil, Nat.xor_zero, Nat.xor_assoc]
  · rw [if_neg (mt hcond.1 hc), if_neg hc, List.append_nil]
    obtain ⟨-, hX⟩ := xorBlocks_spec F hF16
    exact ⟨hl, by rw [hv, hX]⟩

theorem hashAd_spec (ad : List Bytes) :
    ∀ (k : Nat) (sum : Bytes), sum.length = 16 →
      (st.hashAd k ad sum).length = 16 ∧
        fromBytesBE (st.hashAd k ad sum) = fromBytesBE sum ^^^
          xorValues (ad.mapIdx fun i A => aezH st.aes I J L (5 + (k + i)) A) := by
  have hJ0 : st.J.getD 0 mkBlock = J := by
    rw [hD.getD_J 0 (by omega), pow_zero, gfMulBlock_one J hD.length_J]
  induction ad with
  | nil => exact fun k sum hsum => ⟨hsum, by simp [AEZState.hashAd]⟩
  | cons A ad ih =>
    intro k sum hsum
    have hj : multBlock (5 + k) (st.J.getD 0 mkBlock) = gfMulBlock (5 + k) J := by
      rw [hJ0, multBlock_eq_gfMulBlock _ _ hD.length_J]
    obtain ⟨hl, hv⟩ := hashString_spec st I J L hD (5 + k) A sum hsum
    obtain ⟨hl', hv'⟩ := ih (k + 1) _ hl
    simp only [AEZState.hashAd, hj]
    refine ⟨hl', ?_⟩
    rw [hv', hv, List.mapIdx_cons, xorValues_cons, Nat.xor_assoc]
    simp only [Nat.add_zero, Nat.add_assoc, Nat.add_comm 1]

theorem length_aezHash (nonce : Option Bytes) (ad : List Bytes) (tau : Nat) :
    (st.aezHash nonce ad tau).length = 16 := by
  have hJ2 : st.J.getD 2 mkBlock = gfMulBlock 4 J := hD.getD_J 2 (by omega)
  simp only [AEZState.aezHash, hJ2]
  exact (hashAd_spec st I J L hD ad 0 _ (hashString_spec st I J L hD 4 _ _ (length_aes4 ..)).1).1

/-- On a state derived from `I`, `J`, `L`, `aez_hash` is the AEZ v5 hash. -/
theorem aezHash_derived (nonce : Option Bytes) (ad : List Bytes) (tau : Nat) (htau : tau < 2 ^ 32) :
    st.aezHash nonce ad tau = aezHashSpec st.aes I J L nonce ad tau := by
  have hbuf : setSlice mkBlock 12 16 (toBytesBE 4 (tau % 2 ^ 32)) = toBytesBE 16 tau := by
    refine eq_of_fromBytesBE_eq (by simp [setSlice, mkBlock]) (by simp) ?_
    have h0 : fromBytesBE (mkBlock.take 12) = 0 := rfl
    have h1 : mkBlock.drop 16 = [] := rfl
    rw [fromBytesBE_toBytesBE, Nat.mod_eq_of_lt (by omega), setSlice, fromBytesBE_append,
      fromBytesBE_append, fromBytesBE_toBytesBE, Nat.mod_eq_of_lt (by omega),
      Nat.mod_eq_of_lt (by omega), h0, h1]
    simp
  have hjTmp : xorBytes1x16 (st.J.getD 0 mkBlock) (st.J.getD 1 mkBlock) = gfMulBlock 3 J := by
    rw [hD.getD_J 0 (by omega), hD.getD_J 1 (by omega), xorBytes1x16_gfMulBlock _ _ _ hD.length_J]
    rfl
  have hI1 : st.I.getD 1 mkBlock = gfMulBlock (2 ^ ((1 + 7) / 8)) I := hD.getD_I 1 (by omega)
  have hL1 : st.L.getD 1 mkBlock = gfMulBlock (1 % 8) L := hD.getD_L 1 (by omega)
  have hJ2 : st.J.getD 2 mkBlock = gfMulBlock 4 J := hD.getD_J 2 (by omega)
  have hE := aes4_eq_aezE st.aes I J L (toBytesBE 16 tau) 3 1 (by simp)
  obtain ⟨hl, hv⟩ := hashString_spec st I J L hD 4 (nonce.getD []) _ (length_aezE st.aes I J L 3 1
    (toBytesBE 16 tau))
  obtain ⟨hl', hv'⟩ := hashAd_spec st I J L hD ad 0 _ hl
  obtain ⟨hsl, hsv⟩ := xorBlocks_spec (aezE st.aes I J L 3 1 (toBytesBE 16 tau) ::
    aezH st.aes I J L 4 (nonce.getD []) :: ad.mapIdx fun k A => aezH st.aes I J L (5 + k) A)
    (by simp only [List.mem_cons, List.mem_mapIdx]; rintro b (rfl | rfl | ⟨i, hi, rfl⟩) <;> simp)
  simp only [AEZState.aezHash, hbuf, hjTmp, hI1, hL1, hJ2, hE]
  refine eq_of_fromBytesBE_eq hl' hsl ?_
  rw [hv', hv, aezHashSpec, hsv, xorValues_cons, xorValues_cons]
  simp only [Nat.zero_add, Nat.xor_assoc]

end Derived

/-- `aez_hash` of the state initialised with any key is the AEZ v5 hash under the three thirds
`I`, `J`, `L` of the extracted key. -/
theorem aezHash_eq_aezHashSpec (blake2b : Blake2b) (key : Bytes) (nonce : Option Bytes)
    (ad : List Bytes) (tau : Nat) (htau : tau < 2 ^ 32) :
    (AEZState.init blake2b key).aezHash nonce ad tau =
      aezHashSpec (AESRound.new (extractKey blake2b key)) (slice (extractKey blake2b key) 0 16)
        (slice (extractKey blake2b key) 16 32) (slice (extractKey blake2b key) 32 48) nonce ad tau :=
  aezHash_derived _ _ _ _ (init_derived blake2b key) nonce ad tau htau

theorem aezHash_eq_aezHashSpec_tau32 :
    (AEZState.init ⟨fun _ size => List.replicate size 0, fun _ _ => List.length_replicate _ _⟩
        (List.replicate 48 7)).aezHash none [[0]] 32 =
      aezHashSpec (AESRound.new (List.replicate 48 7)) (slice (List.replicate 48 7) 0 16)
        (slice (List.replicate 48 7) 16 32) (slice (List.replicate 48 7) 32 48) none [[0]] 32 :=
  aezHash_eq_aezHashSpec _ (List.replicate 48 7) none [[0]] 32 (by norm_num)

end Aezeed
