import Aezeed.Tiny

/-!
# aez-tiny on bit strings

The bit-level AEZ-tiny Feistel: an `n`-byte block is the bit string `L || R` with halves of
`h = 4n` bits, the round function is the first `h` bits of `AES4(0, I1, L[idx], delta xor
(X || 1 || 0^(127-h)) xor be128(c))`, and blocks shorter than 16 bytes have their first bit
whitened. `aezTiny_eq_tinySpec` says the byte-level `aez_tiny`, nibble shifts and all, computes
exactly this; the Feistel structure then makes the two directions inverse to each other for any
round function.
-/

namespace Aezeed

/-! ## Slices and nibble loops -/

theorem drop_set_self (a : Bytes) (k : Nat) (v : BitVec 8) (hk : k < a.length) :
    (a.set k v).drop k = v :: a.drop (k + 1) := by
  rw [List.drop_eq_getElem_cons (by simpa using hk), List.getElem_set_self,
    List.drop_set_of_lt _ _ (Nat.lt_succ_self k)]

theorem foldl_set_range {f : Bytes → Nat → BitVec 8} (R : Bytes) (q : Nat)
    (hf : ∀ R' k, k < q → (∀ i, k ≤ i → R'.getD i 0 = R.getD i 0) → f R' k = f R k)
    (hq : q ≤ R.length) :
    (List.range q).foldl (fun R k => R.set k (f R k)) R =
      (List.range q).map (f R) ++ R.drop q := by
  induction q with
  | zero => simp
  | succ q ih =>
    have hfq : ∀ R' k, k < q → (∀ i, k ≤ i → R'.getD i 0 = R.getD i 0) → f R' k = f R k :=
      fun R' k hk => hf R' k (by omega)
    rw [List.range_succ, List.foldl_append, ih hfq (by omega), List.foldl_cons, List.foldl_nil,
      List.map_append, List.map_singleton, List.append_assoc, List.singleton_append]
    have hlen : ((List.range q).map (f R)).length = q := by simp
    rw [hf _ q (Nat.lt_succ_self q) fun i hi => by
      rw [getD_eq_getElem?, getD_eq_getElem?, List.getElem?_append_right (by omega),
        List.getElem?_drop, hlen]
      congr 2
      omega]
    rw [List.set_append_right _ _ (by omega), hlen, Nat.sub_self]
    congr 1
    rw [List.drop_eq_getElem_cons (by omega : q < R.length)]
    rfl

theorem foldl_set_desc {f : Bytes → Nat → BitVec 8} (lo m : Nat) (buf : Bytes)
    (hf : ∀ B k, k < lo + m → (∀ i, i ≤ k → B.getD i 0 = buf.getD i 0) → f B k = f buf k)
    (hm : lo + m ≤ buf.length) :
    ((List.range m).map fun t => lo + m - 1 - t).foldl (fun B k => B.set k (f B k)) buf =
      buf.take lo ++ (List.range m).map (fun t => f buf (lo + t)) ++ buf.drop (lo + m) := by
  induction m generalizing buf with
  | zero => simp
  | succ m ih =>
    let buf' := buf.set (lo + m) (f buf (lo + m))
    have hagree : ∀ i, i < lo + m → buf'.getD i 0 = buf.getD i 0 := fun i hi => by
      simp only [buf', getD_eq_getElem?, List.getElem?_set_ne (Nat.ne_of_gt hi)]
    have hf' : ∀ B k, k < lo + m → (∀ i, i ≤ k → B.getD i 0 = buf'.getD i 0) → f B k = f buf' k :=
      fun B k hk hB => by
        rw [hf B k (by omega) fun i hi => (hB i hi).trans (hagree i (by omega)),
          hf buf' k (by omega) fun i hi => hagree i (by omega)]
    have hlist : (List.range (m + 1)).map (fun t => lo + (m + 1) - 1 - t) =
        (lo + m) :: (List.range m).map (fun t => lo + m - 1 - t) := by
      rw [List.range_succ_eq_map, List.map_cons, List.map_map]
      congr 1
      refine List.map_congr_left fun t _ => ?_
      simp only [Function.comp_apply]
      omega
    rw [hlist, List.foldl_cons, ih buf' hf' (by simp [buf']; omega)]
    have hmap : (List.range m).map (fun t => f buf' (lo + t)) =
        (List.range m).map (fun t => f buf (lo + t)) :=
      List.map_congr_left fun t ht =>
        hf buf' _ (by simp at ht; omega) fun i hi => hagree i (by simp at ht; omega)
    rw [hmap, List.set_take, List.set_eq_of_length_le (by simp), drop_set_self _ _ _ (by omega),
      List.range_succ]
    simp [Nat.add_assoc]

/-- The bytes `(a[k] << 4) | (a[k + 1] >> 4)` for `k < m`, which both nibble loops of `aez_tiny`
compute: the bits of `a` moved four places towards the front. -/
def nibblePairs (a : Bytes) (m : Nat) : Bytes :=
  (List.range m).map fun k => (a.getD k 0 <<< 4) ||| (a.getD (k + 1) 0 >>> 4)

theorem nibblePairs_cons_cons (x y : BitVec 8) (a : Bytes) (m : Nat) :
    nibblePairs (x :: y :: a) (m + 1) = ((x <<< 4) ||| (y >>> 4)) :: nibblePairs (y :: a) m := by
  simp [nibblePairs, List.range_succ_eq_map]

theorem bytesToBits_nibblePairs (a : Bytes) (m : Nat) (hm : m < a.length) :
    bytesToBits (nibblePairs a m) = ((bytesToBits a).drop 4).take (8 * m) := by
  induction m generalizing a with
  | zero => simp [nibblePairs]
  | succ m ih =>
    match a, hm with
    | x :: y :: a, hm =>
      have hx : 4 ≤ (byteBits x).length := by simp
      have hy : 4 ≤ (byteBits y).length := by simp
      rw [nibblePairs_cons_cons, bytesToBits_cons, byteBits_shl4_or_shr4,
        ih _ (by simp at hm ⊢; omega), bytesToBits_cons, bytesToBits_cons,
        List.drop_append_of_le_length hx,
        show 8 * (m + 1) = ((byteBits x).drop 4).length + (4 + 8 * m) by simp; ring,
        List.take_append, List.take_add, bytesToBits_cons, List.take_append_of_le_length hy,
        List.append_assoc]

theorem nibbleShiftUp_eq (R : Bytes) (q : Nat) (hq : q < R.length) :
    nibbleShiftUp R q = nibblePairs R q ++ (R.getD q 0 <<< 4) :: R.drop (q + 1) := by
  have hfold := foldl_set_range (f := fun R k => (R.getD k 0 <<< 4) ||| (R.getD (k + 1) 0 >>> 4))
    R q (fun R' k _ hR' => by dsimp only; rw [hR' k le_rfl, hR' (k + 1) (by omega)]) hq.le
  have hlen : (nibblePairs R q).length = q := by simp [nibblePairs]
  have hq' : (nibblePairs R q ++ R.drop q).getD q 0 = R.getD q 0 := by
    rw [getD_eq_getElem?, List.getElem?_append_right (by omega), hlen, Nat.sub_self,
      List.getElem?_drop, Nat.add_zero, getD_eq_getElem?]
  simp only [nibbleShiftUp, hfold]
  rw [← nibblePairs, hq', List.set_append_right _ _ (by omega), hlen, Nat.sub_self,
    List.drop_eq_getElem_cons hq]
  rfl

theorem nibbleShiftDown_eq (buf : Bytes) (n q : Nat) (hq : q < n) (hn : n ≤ buf.length) :
    nibbleShiftDown buf n q = buf.take (q + 1) ++ nibblePairs (buf.drop q) (n - 1 - q) ++
      buf.drop n := by
  have hfold := foldl_set_desc (f := fun B k => (B.getD k 0 >>> 4) ||| (B.getD (k - 1) 0 <<< 4))
    (q + 1) (n - 1 - q) buf
    (fun B k _ hB => by dsimp only; rw [hB k le_rfl, hB (k - 1) (by omega)]) (by omega)
  have hlist : (List.range (n - 1 - q)).map (fun t => n - 1 - t) =
      (List.range (n - 1 - q)).map (fun t => q + 1 + (n - 1 - q) - 1 - t) :=
    List.map_congr_left fun t _ => by omega
  rw [nibbleShiftDown, hlist, hfold, show q + 1 + (n - 1 - q) = n by omega]
  congr 2
  refine List.map_congr_left fun t _ => ?_
  simp only [getD_eq_getElem?, List.getElem?_drop, show q + 1 + t - 1 = q + t by omega,
    show q + (t + 1) = q + 1 + t by omega, BitVec.or_comm]

theorem nibblePairs_append (a rest : Bytes) (m : Nat) (ha : m < a.length) :
    nibblePairs (a ++ rest) m = nibblePairs a m :=
  List.map_congr_left fun k hk => by
    simp only [List.mem_range] at hk
    simp only [getD_eq_getElem?, List.getElem?_append_left (by omega : k < a.length),
      List.getElem?_append_left (by omega : k + 1 < a.length)]

theorem nibbleShiftUp_append (a rest : Bytes) (q : Nat) (ha : a.length = q + 1) :
    nibbleShiftUp (a ++ rest) q = nibblePairs a q ++ (a.getD q 0 <<< 4) :: rest := by
  have hget : (a ++ rest).getD q 0 = a.getD q 0 := by
    simp only [getD_eq_getElem?, List.getElem?_append_left (by omega : q < a.length)]
  rw [nibbleShiftUp_eq _ _ (by simp; omega), nibblePairs_append _ _ _ (by omega), hget,
    List.drop_append_of_le_length (by omega), List.drop_of_length_le (by omega), List.nil_append]

/-! ## Bits at half-byte positions -/

theorem take_bytesToBits_append {a : Bytes} {k : Nat} (b : Bytes) (hk : k ≤ 8 * a.length) :
    (bytesToBits (a ++ b)).take k = (bytesToBits a).take k := by
  rw [bytesToBits_append, List.take_append_of_le_length (by simpa using hk)]

theorem take_bytesToBits_half (a : Bytes) (q : Nat) (hq : q < a.length) :
    (bytesToBits a).take (8 * q + 4) = bytesToBits (a.take q) ++ (byteBits (a.getD q 0)).take 4 := by
  rw [List.take_add, bytesToBits_take, bytesToBits_drop, List.drop_eq_getElem_cons hq,
    bytesToBits_cons, List.take_append_of_le_length (by simp), getD_eq_getElem?,
    List.getElem?_eq_getElem hq]
  rfl

theorem bytesToBits_nibblePairs_shl (a : Bytes) (m : Nat) (ha : a.length = m + 1) :
    bytesToBits (nibblePairs a m ++ [a.getD m 0 <<< 4]) =
      (bytesToBits a).drop 4 ++ [false, false, false, false] := by
  have hlast : ((bytesToBits a).drop 4).drop (8 * m) = (byteBits (a.getD m 0)).drop 4 := by
    have hnil : a.drop (m + 1) = [] := List.drop_of_length_le (by omega)
    rw [List.drop_drop, show 4 + 8 * m = 8 * m + 4 by ring, ← List.drop_drop, bytesToBits_drop,
      List.drop_eq_getElem_cons (by omega : m < a.length), hnil, bytesToBits_cons, bytesToBits_nil, List.append_nil, getD_eq_getElem?,
      List.getElem?_eq_getElem (by omega : m < a.length)]
    rfl
  rw [bytesToBits_append, bytesToBits_nibblePairs a m (by omega), bytesToBits_cons,
    bytesToBits_nil, List.append_nil, byteBits_shl4, ← hlast, ← List.append_assoc,
    List.take_append_drop]

def flipFirst (b : Bool) : List Bool → List Bool
  | [] => []
  | x :: xs => Bool.xor x b :: xs

theorem flipFirst_take (b : Bool) (l : List Bool) (k : Nat) :
    flipFirst b (l.take k) = (flipFirst b l).take k := by
  cases l <;> cases k <;> rfl

theorem flipFirst_append (b : Bool) {l : List Bool} (hl : l ≠ []) (l' : List Bool) :
    flipFirst b (l ++ l') = flipFirst b l ++ l' := by
  cases l with
  | nil => exact absurd rfl hl
  | cons x xs => rfl

theorem flipFirst_flipFirst (b : Bool) (l : List Bool) : flipFirst b (flipFirst b l) = l := by
  cases l <;> simp [flipFirst]

theorem byteBits_xor_and_0x80 (x t : BitVec 8) :
    byteBits (x ^^^ (t &&& 0x80#8)) = flipFirst (t.getMsbD 0) (byteBits x) := by
  simp only [byteBits, BitVec.getMsbD_xor, BitVec.getMsbD_and, List.ofFn_succ, Fin.isValue,
    Fin.val_zero, BitVec.reduceGetMsb, Bool.and_true, Fin.val_succ, zero_add, Bool.and_false,
    Bool.bne_false, Nat.reduceAdd, Fin.val_eq_zero, List.ofFn_zero, flipFirst]

/-! ## The bit-level specification -/

/-- `X || 1 || 0^(127 - h)` as a 16-byte block. -/
def padHalf (h : Nat) (X : List Bool) : Bytes :=
  bitsToBytes (X ++ true :: List.replicate (127 - h) false)

def xorBits (a b : List Bool) : List Bool := List.zipWith Bool.xor a b

/-- The round function `F(X, c)`: the first `h` bits of
`AES4(0, I1, L[idx], delta xor (X || 1 || 0^(127-h)) xor be128(c))`. -/
def AEZState.tinyRound (st : AEZState) (delta : Bytes) (h idx : Nat) (X : List Bool) (c : Nat) :
    List Bool :=
  (bytesToBits (st.aes.aes4 mkBlock (st.I.getD 1 mkBlock) (st.L.getD idx mkBlock)
    (xorBytes1x16 (xorBytes1x16 delta (padHalf h X)) (toBytesBE 16 c)))).take h

/-- Feistel rounds on the halves `(L, R)`: for each counter pair `(a, b)`, `L ^= F(R, a)` and
then `R ^= F(L, b)`. -/
def feistel (F : List Bool → Nat → List Bool) :
    List (Nat × Nat) → List Bool × List Bool → List Bool × List Bool
  | [], LR => LR
  | (a, b) :: cs, (L, R) =>
    let L := xorBits L (F R a)
    feistel F cs (L, xorBits R (F L b))

/-- The counter pairs `(0, 1), (2, 3), ..., (k - 2, k - 1)` of enciphering. -/
def encCounters (k : Nat) : List (Nat × Nat) :=
  (List.range (k / 2)).map fun t => (2 * t, 2 * t + 1)

/-- The counter pairs `(k - 1, k - 2), ..., (1, 0)` of deciphering. -/
def decCounters (k : Nat) : List (Nat × Nat) :=
  (List.range (k / 2)).map fun t => (k - 1 - 2 * t, k - 2 - 2 * t)

/-- The number of rounds: 24, 16, 10 and 8 for `n = 1`, `n = 2`, `3 ≤ n ≤ 15` and `n ≥ 16`. -/
def tinyRoundCount (n : Nat) : Nat :=
  if n = 1 then 24 else if n = 2 then 16 else if n < 16 then 10 else 8

/-- The tweak block of the round function: `L[7]` below 16 bytes and `L[6]` from there on. -/
def tinyIdx (n : Nat) : Nat := if n < 16 then 7 else 6

/-- The whitening bit of a block `B` of `8n` bits: the first bit of
`AES4(0, I1, L3, delta xor (B zero-padded to 16 bytes with its first bit set))`. -/
def AEZState.tinyWhiten (st : AEZState) (delta : Bytes) (B : List Bool) : Bool :=
  (bytesToBits (st.aes.aes4 mkBlock (st.I.getD 1 mkBlock) (st.L.getD 3 mkBlock)
    (xorBytes1x16 delta
      (bitsToBytes (true :: B.tail ++ List.replicate (128 - B.length) false))))).headD false

/-- The Feistel rounds of AEZ-tiny on an `8n`-bit string `M` with halves of `h = 4n` bits: the
rounds run on `(L, R)` and the result is `R || L`. -/
def AEZState.tinyFeistel (st : AEZState) (delta : Bytes) (n : Nat) (cs : List (Nat × Nat))
    (M : List Bool) : List Bool :=
  let LR := feistel (st.tinyRound delta (4 * n) (tinyIdx n)) cs (M.take (4 * n), M.drop (4 * n))
  LR.2 ++ LR.1

/-- Below 16 bytes, the first bit flipped by the whitening bit of the block. -/
def AEZState.tinyWhitenStep (st : AEZState) (delta : Bytes) (n : Nat) (B : List Bool) :
    List Bool :=
  if n < 16 then flipFirst (st.tinyWhiten delta B) B else B

/-- AEZ-tiny on an `8n`-bit string `M`: enciphering for `d = 0` (rounds, then whitening) and
deciphering otherwise (whitening, then the rounds with the counters backwards). -/
def AEZState.tinySpec (st : AEZState) (delta : Bytes) (M : List Bool) (d : Nat) : List Bool :=
  let n := M.length / 8
  if d = 0 then
    st.tinyWhitenStep delta n (st.tinyFeistel delta n (encCounters (tinyRoundCount n)) M)
  else
    st.tinyFeistel delta n (decCounters (tinyRoundCount n)) (st.tinyWhitenStep delta n M)

theorem tinySpec_zero (st : AEZState) (delta : Bytes) (M : List Bool) :
    st.tinySpec delta M 0 = st.tinyWhitenStep delta (M.length / 8)
      (st.tinyFeistel delta (M.length / 8) (encCounters (tinyRoundCount (M.length / 8))) M) := rfl

theorem tinySpec_one (st : AEZState) (delta : Bytes) (M : List Bool) :
    st.tinySpec delta M 1 = st.tinyFeistel delta (M.length / 8)
      (decCounters (tinyRoundCount (M.length / 8))) (st.tinyWhitenStep delta (M.length / 8) M) :=
  rfl

theorem tinyParams_eq (n : Nat) : tinyParams n = (tinyRoundCount n, tinyIdx n) := by
  unfold tinyParams tinyRoundCount tinyIdx
  split_ifs <;> first | rfl | omega

/-! ## The code's halves hold the specification's -/

/-- A 16-byte half of `aez_tiny` holding the `h`-bit half `X` of the specification in its first
`h` bits. -/
def HalfHolds (h : Nat) (H : Bytes) (X : List Bool) : Prop :=
  H.length = 16 ∧ (bytesToBits H).take h = X

theorem tinyHalves_holds (data : Bytes) (hn1 : 1 ≤ data.length) (hn : data.length < 32) :
    HalfHolds (4 * data.length) (tinyHalves data).1 ((bytesToBits data).take (4 * data.length)) ∧
      HalfHolds (4 * data.length) (tinyHalves data).2
        ((bytesToBits data).drop (4 * data.length)) := by
  have hmk : mkBlock.length = 16 := rfl
  refine ⟨⟨by simp [tinyHalves, setSlice_zero, hmk]; omega, ?_⟩, ?_⟩
  · simp only [tinyHalves, setSlice_zero]
    rw [take_bytesToBits_append _ (by simp; omega), ← bytesToBits_take, List.take_take,
      min_eq_left (by omega)]
  obtain ⟨q, hq | hq⟩ := Nat.even_or_odd' data.length
  · have hodd : ¬(data.length &&& 1 ≠ 0) := by rw [and_one_ne_zero_iff_mod]; omega
    have hslice : slice data q (q + q) = data.drop q := by
      rw [slice, List.take_of_length_le (by simp; omega)]
    simp only [tinyHalves, setSlice_zero, if_neg hodd, show data.length / 2 = q by omega,
      show (data.length + 1) / 2 = q by omega, hslice]
    refine ⟨by simp [hmk]; omega, ?_⟩
    rw [take_bytesToBits_append _ (by simp; omega), List.take_of_length_le (by simp; omega),
      hq, show 4 * (2 * q) = 8 * q by ring, bytesToBits_drop]
  · have hodd : data.length &&& 1 ≠ 0 := by rw [and_one_ne_zero_iff_mod]; omega
    have hslice : slice data q (q + (q + 1)) = data.drop q := by
      rw [slice, List.take_of_length_le (by simp; omega)]
    have hshift := nibbleShiftUp_append (data.drop q) (mkBlock.drop (q + 1)) q (by simp; omega)
    simp only [tinyHalves, setSlice_zero, if_pos hodd, show data.length / 2 = q by omega,
      show (data.length + 1) / 2 = q + 1 by omega, hslice, hshift]
    refine ⟨by simp [hmk, nibblePairs]; omega, ?_⟩
    rw [← List.singleton_append, ← List.append_assoc, bytesToBits_append,
      bytesToBits_nibblePairs_shl _ _ (by simp; omega), List.append_assoc,
      List.take_append_of_le_length (by simp; omega), List.take_of_length_le (by simp; omega),
      ← bytesToBits_drop, List.drop_drop, hq]
    congr 1
    ring

theorem bytesToBits_replicate_zero (k : Nat) :
    bytesToBits (List.replicate k 0) = List.replicate (8 * k) false := by
  induction k with
  | zero => rfl
  | succ k ih =>
    rw [List.replicate_succ, bytesToBits_cons, ih, show 8 * (k + 1) = 8 + 8 * k by ring,
      List.replicate_add]
    rfl

/-- The half `X` of `aez_tiny` padded as the round loop pads it: its first `n / 2` bytes, the
middle byte with the domain bit, and zeros. -/
def tinyPad (X : Bytes) (n : Nat) : Bytes :=
  X.take (n / 2) ++
    (if n % 2 = 1 then (X.getD (n / 2) 0 &&& 0xF0#8) ||| 0x08#8 else 0x80#8) ::
      List.replicate (15 - n / 2) 0

theorem length_tinyPad (X : Bytes) (n : Nat) (hX : X.length = 16) (hn : n ≤ 31) :
    (tinyPad X n).length = 16 := by
  simp [tinyPad, hX]
  omega

theorem padHalf_eq_tinyPad (X : Bytes) (n : Nat) (hX : X.length = 16) (hn1 : 1 ≤ n)
    (hn : n ≤ 31) : padHalf (4 * n) ((bytesToBits X).take (4 * n)) = tinyPad X n := by
  rw [padHalf, ← bitsToBytes_bytesToBits (tinyPad X n)]
  congr 1
  obtain ⟨q, rfl | rfl⟩ := Nat.even_or_odd' n
  · have hpad : true :: List.replicate (127 - 8 * q) false =
        byteBits 0x80#8 ++ bytesToBits (List.replicate (15 - q) 0) := by
      rw [bytesToBits_replicate_zero, show 127 - 8 * q = 7 + 8 * (15 - q) by omega,
        List.replicate_add]
      rfl
    rw [show 4 * (2 * q) = 8 * q by ring, bytesToBits_take, hpad, tinyPad]
    simp [show 2 * q / 2 = q by omega]
  · have hpad : (byteBits (X.getD q 0)).take 4 ++ true :: List.replicate (127 - (8 * q + 4)) false =
        byteBits ((X.getD q 0 &&& 0xF0#8) ||| 0x08#8) ++ bytesToBits (List.replicate (15 - q) 0) := by
      rw [byteBits_pad_nibble, bytesToBits_replicate_zero,
        show 127 - (8 * q + 4) = 3 + 8 * (15 - q) by omega, List.replicate_add]
      simp
    rw [show 4 * (2 * q + 1) = 8 * q + 4 by ring, take_bytesToBits_half _ _ (by omega),
      List.append_assoc, hpad, tinyPad]
    simp [show (2 * q + 1) / 2 = q by omega, show (2 * q + 1) % 2 = 1 by omega]

theorem tinyPad_layout (buf X : Bytes) (n : Nat) (hX : X.length = 16) (hn : n ≤ 31) :
    let B := X.take ((n + 1) / 2) ++ (List.replicate 16 0 ++ buf.drop 16).drop ((n + 1) / 2)
    B.set (n / 2) ((B.getD (n / 2) 0 &&& (tinyMaskPad n).1) ||| (tinyMaskPad n).2) =
      tinyPad X n ++ buf.drop 16 := by
  intro B
  have hdrop : ∀ k, k ≤ 16 → (List.replicate 16 (0 : BitVec 8) ++ buf.drop 16).drop k =
      List.replicate (16 - k) 0 ++ buf.drop 16 := fun k hk => by
    rw [List.drop_append_of_le_length (by simpa using hk), List.drop_replicate]
  obtain ⟨q, rfl | rfl⟩ := Nat.even_or_odd' n
  · have hB : B = X.take q ++ 0 :: (List.replicate (15 - q) 0 ++ buf.drop 16) := by
      have hz : List.replicate (16 - q) (0 : BitVec 8) = 0 :: List.replicate (15 - q) 0 := by
        rw [show 16 - q = 15 - q + 1 by omega, List.replicate_succ]
      show X.take ((2 * q + 1) / 2) ++ _ = _
      rw [show (2 * q + 1) / 2 = q by omega, hdrop q (by omega), hz, List.cons_append]
    have hmp : tinyMaskPad (2 * q) = (0x00#8, 0x80#8) := by
      simp [tinyMaskPad, and_one_ne_zero_iff_mod]
    have hlen : (X.take q).length = q := by simp; omega
    rw [hB, show 2 * q / 2 = q by omega, hmp, List.set_append_right _ _ (by omega), hlen,
      Nat.sub_self, tinyPad]
    simp [show 2 * q / 2 = q by omega]
  · have hB : B = X.take q ++ X.getD q 0 :: (List.replicate (15 - q) 0 ++ buf.drop 16) := by
      show X.take ((2 * q + 1 + 1) / 2) ++ _ = _
      rw [show (2 * q + 1 + 1) / 2 = q + 1 by omega, hdrop (q + 1) (by omega),
        show 16 - (q + 1) = 15 - q by omega, ← List.take_concat_get' X q (by omega),
        getD_eq_getElem?, List.getElem?_eq_getElem (by omega : q < X.length), List.append_assoc,
        List.singleton_append]
      rfl
    have hmp : tinyMaskPad (2 * q + 1) = (0xF0#8, 0x08#8) := by
      rw [tinyMaskPad, if_pos (by rw [and_one_ne_zero_iff_mod]; omega)]
    have hlen : (X.take q).length = q := by simp; omega
    have hget : B.getD q 0 = X.getD q 0 := by
      rw [hB, getD_eq_getElem?, List.getElem?_append_right (by omega), hlen, Nat.sub_self]
      simp
    rw [show (2 * q + 1) / 2 = q by omega, hget, hB, hmp, List.set_append_right _ _ (by omega),
      hlen, Nat.sub_self, tinyPad]
    simp [show (2 * q + 1) / 2 = q by omega, show (2 * q + 1) % 2 = 1 by omega]

theorem tinyBuf_eq (buf X delta : Bytes) (n : Nat) (j : Int) (hX : X.length = 16)
    (hdelta : delta.length = 16) (hn : n ≤ 31) :
    tinyBuf buf X delta ((n + 1) / 2) (n / 2) (tinyMaskPad n).1 (tinyMaskPad n).2 j =
      (xorBytes1x16 (tinyPad X n) delta).set 15
        ((xorBytes1x16 (tinyPad X n) delta).getD 15 0 ^^^ BitVec.ofInt 8 j) ++ buf.drop 16 := by
  have hpad := length_tinyPad X n hX hn
  have hblk : (xorBytes1x16 (tinyPad X n) delta).length = 16 := length_xorBytes1x16 _ _ hpad hdelta
  simp only [tinyBuf, setSlice_zero]
  rw [tinyPad_layout buf X n hX hn, List.take_left' hpad, List.drop_left' hpad,
    List.set_append_left _ _ (by omega), getD_eq_getElem?, getD_eq_getElem?,
    List.getElem?_append_left (by omega)]

theorem toBytesBE_16_of_lt (c : Nat) (hc : c < 256) :
    toBytesBE 16 c = List.replicate 15 0 ++ [BitVec.ofNat 8 c] := by
  have hdig : ∀ len, digitsBE 256 (len + 1) c = List.replicate len 0 ++ [c] := by
    intro len
    induction len with
    | zero => simp [digitsBE, Nat.mod_eq_of_lt hc]
    | succ len ih =>
      rw [digitsBE, ih, Nat.div_eq_of_lt (lt_of_lt_of_le hc (Nat.le_self_pow (by omega) 256)),
        List.replicate_succ, List.cons_append, Nat.zero_mod]
  rw [toBytesBE, hdig 15]
  simp

theorem set15_eq_xorBytes1x16 (blk : Bytes) (c : Int) (hblk : blk.length = 16) (hc0 : 0 ≤ c)
    (hc : c < 256) :
    blk.set 15 (blk.getD 15 0 ^^^ BitVec.ofInt 8 c) = xorBytes1x16 blk (toBytesBE 16 c.toNat) := by
  obtain ⟨c, rfl⟩ := Int.eq_ofNat_of_zero_le hc0
  rw [Int.toNat_ofNat, BitVec.ofInt_natCast, toBytesBE_16_of_lt c (by omega), xorBytes1x16,
    List.take_of_length_le (by omega), List.take_of_length_le (by simp)]
  refine List.ext_getElem (by simp [hblk]) fun i h1 h2 => ?_
  simp only [List.getElem_set, List.getElem_zipWith, getD_eq_getElem?,
    List.getElem?_eq_getElem (by omega : 15 < blk.length), Option.getD_some]
  split_ifs with hi
  · subst hi
    simp
  · rw [List.getElem_append_left (by simp at h1 ⊢; omega), List.getElem_replicate]
    exact BitVec.xor_zero.symm

theorem xorBytes1x16_comm (a b : Bytes) : xorBytes1x16 a b = xorBytes1x16 b a := by
  rw [xorBytes1x16, xorBytes1x16, List.zipWith_comm]
  simp only [BitVec.xor_comm]

theorem HalfHolds.xor {h : Nat} {Y T : Bytes} {Yb : List Bool} (hY : HalfHolds h Y Yb)
    (hT : T.length = 16) :
    HalfHolds h (xorBytes1x16 Y T) (xorBits Yb ((bytesToBits T).take h)) := by
  obtain ⟨hY16, hYb⟩ := hY
  refine ⟨length_xorBytes1x16 _ _ hY16 hT, ?_⟩
  have hYt : Y.take 16 = Y := List.take_of_length_le (by omega)
  have hTt : T.take 16 = T := List.take_of_length_le (by omega)
  rw [xorBytes1x16, hYt, hTt, bytesToBits_zipWith_xor _ _ (by omega), List.take_zipWith, hYb,
    xorBits]

theorem length_tinyAes4 (st : AEZState) (idx : Nat) (src : Bytes) :
    (st.tinyAes4 idx src).length = 16 :=
  length_aes4 _ _ _ _ _

/-- One half-round of `aez_tiny`: the buffer built from the half `X` and counter `c` feeds
`AES4`, whose output xored into the other half `Y` is `Y ^= F(X, c)` on the bits. -/
theorem tinyHalfRound_holds (st : AEZState) (delta buf X Y : Bytes) (n idx : Nat)
    (Xb Yb : List Bool) (c : Int) (hdelta : delta.length = 16) (hbuf : buf.length = 32)
    (hn1 : 1 ≤ n) (hn : n ≤ 31) (hX : HalfHolds (4 * n) X Xb) (hY : HalfHolds (4 * n) Y Yb)
    (hc0 : 0 ≤ c) (hc : c < 256) :
    let buf' := tinyBuf buf X delta ((n + 1) / 2) (n / 2) (tinyMaskPad n).1 (tinyMaskPad n).2 c
    buf'.length = 32 ∧ HalfHolds (4 * n) (xorBytes1x16 Y (st.tinyAes4 idx (buf'.take 16)))
      (xorBits Yb (st.tinyRound delta (4 * n) idx Xb c.toNat)) := by
  have hpad := length_tinyPad X n hX.1 hn
  have hblk : (xorBytes1x16 (tinyPad X n) delta).length = 16 := length_xorBytes1x16 _ _ hpad hdelta
  have hset : ((xorBytes1x16 (tinyPad X n) delta).set 15
      ((xorBytes1x16 (tinyPad X n) delta).getD 15 0 ^^^ BitVec.ofInt 8 c)).length = 16 := by
    simp [hblk]
  simp only [tinyBuf_eq buf X delta n c hX.1 hdelta hn]
  refine ⟨by simp [hblk]; omega, ?_⟩
  rw [List.take_left' hset, set15_eq_xorBytes1x16 _ c hblk hc0 hc, xorBytes1x16_comm _ delta,
    ← padHalf_eq_tinyPad X n hX.1 hn1 hn, hX.2]
  exact hY.xor (length_tinyAes4 _ _ _)

/-- The counter pairs `(j, j + step), (j + 2 step, j + 3 step), ...` of `m` passes of the round
loop of `aez_tiny`. -/
def counterPairs (j step : Int) (m : Nat) : List (Nat × Nat) :=
  (List.range m).map fun t : Nat =>
    ((j + step * (2 * (t : Int))).toNat, (j + step * (2 * (t : Int)) + step).toNat)

theorem counterPairs_succ (j step : Int) (m : Nat) :
    counterPairs j step (m + 1) =
      (j.toNat, (j + step).toNat) :: counterPairs (j + step * 2) step m := by
  simp only [counterPairs, List.range_succ_eq_map, List.map_cons, List.map_map]
  congr 1
  · simp
  · refine List.map_congr_left fun t _ => ?_
    simp only [Function.comp_apply, Nat.succ_eq_add_one, Nat.cast_add, Nat.cast_one]
    rw [show j + step * (2 * (t + 1)) = j + step * 2 + step * (2 * t) by ring]

/-- The round loop of `aez_tiny` runs the Feistel rounds of the specification on the halves it
holds, with the counter pairs its `j` and `step` walk through. -/
theorem tinyRounds_holds (st : AEZState) (delta : Bytes) (n idx : Nat) (step : Int)
    (hdelta : delta.length = 16) (hn1 : 1 ≤ n) (hn : n ≤ 31) (m : Nat) :
    ∀ (buf L R : Bytes) (j : Int) (Lb Rb : List Bool), buf.length = 32 →
      HalfHolds (4 * n) L Lb → HalfHolds (4 * n) R Rb →
      (∀ t : Nat, t < 2 * m → 0 ≤ j + step * t ∧ j + step * t < 256) →
      let r := st.tinyRounds delta ((n + 1) / 2) (n / 2) idx (tinyMaskPad n).1 (tinyMaskPad n).2
        step m buf L R j
      let LR := feistel (st.tinyRound delta (4 * n) idx) (counterPairs j step m) (Lb, Rb)
      r.1.length = 32 ∧ HalfHolds (4 * n) r.2.1 LR.1 ∧ HalfHolds (4 * n) r.2.2 LR.2 := by
  induction m with
  | zero => exact fun buf L R j Lb Rb hbuf hL hR _ => ⟨hbuf, hL, hR⟩
  | succ m ih =>
    intro buf L R j Lb Rb hbuf hL hR hj
    have hj0 := hj 0 (by omega)
    have hj1 := hj 1 (by omega)
    simp only [Nat.cast_zero, mul_zero, add_zero, Nat.cast_one, mul_one] at hj0 hj1
    obtain ⟨hb1, hL1⟩ := tinyHalfRound_holds st delta buf R L n idx Rb Lb j hdelta hbuf hn1 hn
      hR hL hj0.1 hj0.2
    obtain ⟨hb2, hR1⟩ := tinyHalfRound_holds st delta _ _ R n idx _ Rb (j + step) hdelta hb1 hn1 hn
      hL1 hR hj1.1 hj1.2
    have hrest := ih _ _ _ (j + step * 2) _ _ hb2 hL1 hR1 fun t ht => by
      have := hj (t + 2) (by omega)
      push_cast at this
      constructor <;> linarith [this.1, this.2]
    simpa only [AEZState.tinyRounds, counterPairs_succ, feistel] using hrest

theorem encCounters_eq (k : Nat) : encCounters k = counterPairs 0 1 (k / 2) :=
  List.map_congr_left fun t _ => by
    simp only [Prod.mk.injEq]
    omega

theorem decCounters_eq (k : Nat) (hk : k % 2 = 0) :
    decCounters k = counterPairs ((k : Int) - 1) (-1) (k / 2) :=
  List.map_congr_left fun t ht => by
    simp only [List.mem_range] at ht
    simp only [Prod.mk.injEq]
    omega

theorem tinyJoin_even (buf L R : Bytes) (q : Nat) (hR16 : R.length = 16) (hn : 2 * q ≤ 31) :
    tinyJoin buf L R (2 * q) = R.take q ++ L.take q ++ buf.drop (2 * q) := by
  have hodd : ¬(2 * q &&& 1 ≠ 0) := by rw [and_one_ne_zero_iff_mod]; omega
  have hRq : (R.take q).length = q := by simp; omega
  simp only [tinyJoin, if_neg hodd, show 2 * q / 2 = q by omega,
    show (2 * q + 1) / 2 = q by omega, setSlice, List.take_zero, List.nil_append,
    List.take_left' hRq, List.drop_append_eq_append_drop, hRq, List.drop_drop,
    List.drop_of_length_le (show (R.take q).length ≤ q + q by omega)]
  rw [show q + (q + q - q) = 2 * q by omega]

theorem tinyJoin_odd (buf L R : Bytes) (q : Nat) (hL16 : L.length = 16)
    (hR16 : R.length = 16) (hn : 2 * q + 1 ≤ 31) :
    tinyJoin buf L R (2 * q + 1) =
      R.take q ++ (((L.getD 0 0 >>> 4) &&& 0x0F#8) ||| (R.getD q 0 &&& 0xF0#8)) ::
        (nibblePairs L q ++ buf.drop (2 * q + 1)) := by
  have hodd : 2 * q + 1 &&& 1 ≠ 0 := by rw [and_one_ne_zero_iff_mod]; omega
  have hRq : (R.take q).length = q := by simp; omega
  have hLq : (L.take (q + 1)).length = q + 1 := by simp; omega
  have hB2 : setSlice (setSlice buf 0 q (R.take q)) q (q + (q + 1)) (L.take (q + 1)) =
      R.take q ++ (L.take (q + 1) ++ buf.drop (2 * q + 1)) := by
    simp only [setSlice, List.take_zero, List.nil_append, List.take_left' hRq,
      List.drop_append_eq_append_drop, hRq, List.drop_drop,
      List.drop_of_length_le (show (R.take q).length ≤ q + (q + 1) by omega), List.append_assoc]
    rw [show q + (q + (q + 1) - q) = 2 * q + 1 by omega]
  have htake : (R.take q ++ (L.take (q + 1) ++ buf.drop (2 * q + 1))).take (q + 1) =
      R.take q ++ [L.getD 0 0] := by
    rw [List.take_append_eq_append_take, List.take_of_length_le (by omega), hRq,
      show q + 1 - q = 1 by omega, List.take_append_of_le_length (by omega), List.take_take]
    cases L with
    | nil => simp at hL16
    | cons x L => simp
  have hdropn : (R.take q ++ (L.take (q + 1) ++ buf.drop (2 * q + 1))).drop (2 * q + 1) =
      buf.drop (2 * q + 1) := by
    rw [← List.append_assoc, List.drop_left' (by simp; omega)]
  have hpairs : nibblePairs (L.take (q + 1) ++ buf.drop (2 * q + 1)) q = nibblePairs L q := by
    rw [nibblePairs_append _ _ _ (by omega), ← nibblePairs_append _ (L.drop (q + 1)) _ (by omega),
      List.take_append_drop]
  simp only [tinyJoin, if_pos hodd, show (2 * q + 1) / 2 = q by omega,
    show (2 * q + 1 + 1) / 2 = q + 1 by omega, hB2]
  rw [nibbleShiftDown_eq _ _ _ (by omega) (by simp; omega), htake, List.drop_left' hRq, hdropn,
    show 2 * q + 1 - 1 - q = q by omega, hpairs, List.append_assoc, List.append_assoc,
    List.set_append_right _ _ (by omega), hRq, Nat.sub_self]
  rfl

/-- Joining the halves back, nibble shift included, lays out `R || L` bit by bit. -/
theorem tinyJoin_holds (buf L R : Bytes) (n : Nat) (Lb Rb : List Bool) (hbuf : buf.length = 32)
    (hn1 : 1 ≤ n) (hn : n ≤ 31) (hL : HalfHolds (4 * n) L Lb) (hR : HalfHolds (4 * n) R Rb) :
    (tinyJoin buf L R n).length = 32 ∧ bytesToBits ((tinyJoin buf L R n).take n) = Rb ++ Lb := by
  obtain ⟨hL16, rfl⟩ := hL
  obtain ⟨hR16, rfl⟩ := hR
  obtain ⟨q, rfl | rfl⟩ := Nat.even_or_odd' n
  · rw [tinyJoin_even buf L R q hR16 hn]
    refine ⟨by simp; omega, ?_⟩
    rw [List.take_left' (by simp; omega), bytesToBits_append, show 4 * (2 * q) = 8 * q by ring,
      bytesToBits_take, bytesToBits_take]
  · rw [tinyJoin_odd buf L R q hL16 hR16 hn]
    refine ⟨by simp [nibblePairs]; omega, ?_⟩
    have hL4 : (bytesToBits L).take 4 = (byteBits (L.getD 0 0)).take 4 := by
      simpa using take_bytesToBits_half L 0 (by omega)
    rw [← List.cons_append, ← List.append_assoc, List.take_left' (by simp [nibblePairs]; omega),
      bytesToBits_append, bytesToBits_cons, byteBits_high_nibbles,
      bytesToBits_nibblePairs L q (by omega), show 4 * (2 * q + 1) = 8 * q + 4 by ring,
      take_bytesToBits_half R q (by omega), show 8 * q + 4 = 4 + 8 * q by ring, List.take_add, hL4]
    simp only [List.append_assoc]

/-! ## Whitening -/

theorem byteBits_or_0x80 (x : BitVec 8) : byteBits (x ||| 0x80#8) = true :: (byteBits x).tail := by
  simp only [byteBits, BitVec.getMsbD_or, List.ofFn_succ, Fin.isValue, Fin.val_zero,
    BitVec.reduceGetMsb, Bool.or_true, Fin.val_succ, zero_add, Bool.or_false, Nat.reduceAdd,
    Fin.val_eq_zero, List.ofFn_zero, List.tail_cons]

theorem headD_bytesToBits (T : Bytes) (hT : T.length = 16) :
    (bytesToBits T).headD false = (T.getD 0 0).getMsbD 0 := by
  cases T with
  | nil => simp at hT
  | cons t T => simp [byteBits, List.ofFn_succ]

theorem whitenBuf_take (delta D rest : Bytes) (hdelta : delta.length = 16) (hD1 : 1 ≤ D.length)
    (hD : D.length ≤ 16) :
    (whitenBuf delta (D ++ List.replicate (16 - D.length) 0 ++ rest)).take 16 =
      xorBytes1x16 delta (bitsToBytes
        (true :: (bytesToBits D).tail ++ List.replicate (128 - (bytesToBits D).length) false)) := by
  obtain _ | ⟨x, D⟩ := D
  · simp at hD1
  simp only [List.length_cons] at hD
  have hblk : ((x ||| 0x80#8) :: (D ++ List.replicate (16 - (D.length + 1)) 0)).length = 16 := by
    simp
    omega
  have hbits : true :: (bytesToBits (x :: D)).tail ++
      List.replicate (128 - (bytesToBits (x :: D)).length) false =
      bytesToBits ((x ||| 0x80#8) :: (D ++ List.replicate (16 - (D.length + 1)) 0)) := by
    rw [bytesToBits_cons, bytesToBits_cons, byteBits_or_0x80, bytesToBits_append,
      bytesToBits_replicate_zero, List.tail_append_of_ne_nil (by simp [byteBits])]
    simp only [List.length_append, length_byteBits, length_bytesToBits, List.cons_append,
      List.append_assoc, show 128 - (8 + 8 * D.length) = 8 * (16 - (D.length + 1)) by omega]
  have hx : (x :: D ++ List.replicate (16 - (D.length + 1)) 0 ++ rest).getD 0 0 = x := rfl
  simp only [whitenBuf, setSlice_zero, hx, hbits, bitsToBytes_bytesToBits, List.length_cons]
  rw [List.cons_append, List.cons_append, List.set_cons_zero, ← List.cons_append,
    List.take_left' hblk, List.take_left' (length_xorBytes1x16 _ _ hdelta hblk)]

theorem whitenBit_flip (st : AEZState) (delta D rest : Bytes) (x : BitVec 8)
    (hdelta : delta.length = 16) (hD1 : 1 ≤ D.length) (hD : D.length ≤ 16) :
    byteBits (x ^^^ st.whitenBit (whitenBuf delta (D ++ List.replicate (16 - D.length) 0 ++ rest))) =
      flipFirst (st.tinyWhiten delta (bytesToBits D)) (byteBits x) := by
  rw [AEZState.whitenBit, byteBits_xor_and_0x80, whitenBuf_take delta D rest hdelta hD1 hD,
    AEZState.tinyWhiten, headD_bytesToBits _ (length_aes4 _ _ _ _ _)]
  rfl

theorem bytesToBits_set_zero {b : Bool} (l : Bytes) (v : BitVec 8) (hl : l ≠ [])
    (hv : byteBits v = flipFirst b (byteBits (l.getD 0 0))) :
    bytesToBits (l.set 0 v) = flipFirst b (bytesToBits l) := by
  cases l with
  | nil => exact absurd rfl hl
  | cons x l =>
    simp only [List.set_cons_zero, bytesToBits_cons, hv]
    exact (flipFirst_append b (by simp [byteBits]) _).symm

/-! ## Refinement -/

theorem length_whitenBuf (delta buf : Bytes) (hdelta : delta.length = 16) (hbuf : 16 ≤ buf.length) :
    (whitenBuf delta buf).length = buf.length := by
  simp [whitenBuf, setSlice_zero, xorBytes1x16, hdelta]
  omega

/-- Deciphering below 16 bytes whitens the first bit of the left half with the whitening bit of
the input. -/
theorem tinyInput_holds (st : AEZState) (delta data L : Bytes) (Lb : List Bool)
    (hdelta : delta.length = 16) (hn1 : 1 ≤ data.length) (hn : data.length < 16)
    (hL : HalfHolds (4 * data.length) L Lb) :
    let buf := whitenBuf delta
      (setSlice (setSlice (List.replicate 32 0) 0 16 (List.replicate 16 0)) 0 data.length data)
    HalfHolds (4 * data.length) (L.set 0 (L.getD 0 0 ^^^ st.whitenBit buf))
      (flipFirst (st.tinyWhiten delta (bytesToBits data)) Lb) := by
  obtain ⟨hL16, rfl⟩ := hL
  have hbuf : setSlice (setSlice (List.replicate 32 0) 0 16 (List.replicate 16 0)) 0 data.length
      data = data ++ List.replicate (16 - data.length) 0 ++ List.replicate 16 0 := by
    simp only [setSlice_zero, List.drop_append_of_le_length (by simp; omega : data.length ≤
      (List.replicate 16 (0 : BitVec 8)).length), List.drop_replicate, List.append_assoc]
  refine ⟨by simp [hL16], ?_⟩
  rw [hbuf, bytesToBits_set_zero _ _ (List.ne_nil_of_length_pos (by omega))
    (whitenBit_flip st delta _ _ _ hdelta hn1 (by omega)), ← flipFirst_take]

theorem tinyRoundCount_even (n : Nat) :
    tinyRoundCount n % 2 = 0 ∧ 2 ≤ tinyRoundCount n ∧ tinyRoundCount n ≤ 24 := by
  unfold tinyRoundCount
  split_ifs <;> omega

theorem drop_flipFirst (b : Bool) (l : List Bool) {k : Nat} (hk : 1 ≤ k) :
    (flipFirst b l).drop k = l.drop k := by
  cases l with
  | nil => rfl
  | cons x l =>
    obtain ⟨k, rfl⟩ : ∃ k', k = k' + 1 := ⟨k - 1, by omega⟩
    rfl

/-- Writing the joined buffer into `dst` and, when enciphering below 16 bytes, whitening its
first bit. -/
theorem tinyOutput_bits (st : AEZState) (delta J dst : Bytes) (n : Nat) (hdelta : delta.length = 16)
    (hJ : J.length = 32) (hn1 : 1 ≤ n) (hn : n < 16) :
    let dst := setSlice dst 0 n (J.take n)
    let buf := whitenBuf delta (setSlice J n 16 (List.replicate (16 - n) 0))
    bytesToBits ((dst.set 0 (dst.getD 0 0 ^^^ st.whitenBit buf)).take n) =
      flipFirst (st.tinyWhiten delta (bytesToBits (J.take n))) (bytesToBits (J.take n)) := by
  have hJn : (J.take n).length = n := by simp; omega
  have hne : J.take n ≠ [] := List.ne_nil_of_length_pos (by omega)
  have hbuf : setSlice J n 16 (List.replicate (16 - n) 0) =
      J.take n ++ List.replicate (16 - (J.take n).length) 0 ++ J.drop 16 := by
    rw [hJn, setSlice]
  have hget : (J.take n ++ dst.drop n).getD 0 0 = (J.take n).getD 0 0 := by
    simp only [getD_eq_getElem?, List.getElem?_append_left (by omega : 0 < (J.take n).length)]
  simp only [setSlice_zero, hbuf, hget]
  rw [List.set_append_left _ _ (by omega), List.take_left' (by simp; omega)]
  exact bytesToBits_set_zero _ _ hne
    (whitenBit_flip st delta _ _ _ hdelta (by omega) (by omega))

theorem tinyRoundsJoin_holds (st : AEZState) (delta : Bytes) (n idx : Nat) (step : Int)
    (hdelta : delta.length = 16) (hn1 : 1 ≤ n) (hn : n ≤ 31) (m : Nat) (buf L R : Bytes) (j : Int)
    (Lb Rb : List Bool) (hbuf : buf.length = 32) (hL : HalfHolds (4 * n) L Lb)
    (hR : HalfHolds (4 * n) R Rb) (hj : ∀ t : Nat, t < 2 * m → 0 ≤ j + step * t ∧ j + step * t < 256) :
    let r := st.tinyRounds delta ((n + 1) / 2) (n / 2) idx (tinyMaskPad n).1 (tinyMaskPad n).2
      step m buf L R j
    let LR := feistel (st.tinyRound delta (4 * n) idx) (counterPairs j step m) (Lb, Rb)
    (tinyJoin r.1 r.2.1 r.2.2 n).length = 32 ∧
      bytesToBits ((tinyJoin r.1 r.2.1 r.2.2 n).take n) = LR.2 ++ LR.1 := by
  obtain ⟨hb, hLr, hRr⟩ := tinyRounds_holds st delta n idx step hdelta hn1 hn m buf L R j Lb Rb
    hbuf hL hR hj
  exact tinyJoin_holds _ _ _ n _ _ hb hn1 hn hLr hRr

/-- The buffer `aez_tiny` writes out holds, in its first `n` bytes, the Feistel result of the
specification: on the input for enciphering, on the whitened input for deciphering. -/
theorem tinyCore_holds (st : AEZState) (delta data : Bytes) (d : Nat) (hdelta : delta.length = 16)
    (hn1 : 1 ≤ data.length) (hn : data.length ≤ 31) :
    (st.tinyCore delta data d).length = 32 ∧
      bytesToBits ((st.tinyCore delta data d).take data.length) =
        if d = 0 then
          st.tinyFeistel delta data.length (encCounters (tinyRoundCount data.length))
            (bytesToBits data)
        else
          st.tinyFeistel delta data.length (decCounters (tinyRoundCount data.length))
            (st.tinyWhitenStep delta data.length (bytesToBits data)) := by
  obtain ⟨hL, hR⟩ := tinyHalves_holds data hn1 (by omega)
  obtain ⟨hk2, hk, hk24⟩ := tinyRoundCount_even data.length
  by_cases hd : d = 0
  · subst hd
    simp only [AEZState.tinyCore, tinyParams_eq, AEZState.tinyFeistel, ne_eq, not_true_eq_false,
      false_and, if_false, if_true, encCounters_eq]
    exact tinyRoundsJoin_holds st delta _ _ 1 hdelta hn1 hn _ _ _ _ 0 _ _ (by simp) hL hR
      fun t ht => by omega
  · have hbound : ∀ t : Nat, t < 2 * (tinyRoundCount data.length / 2) →
        0 ≤ (tinyRoundCount data.length : Int) - 1 + -1 * t ∧
          (tinyRoundCount data.length : Int) - 1 + -1 * t < 256 := fun t ht => by omega
    simp only [AEZState.tinyCore, tinyParams_eq, AEZState.tinyFeistel, AEZState.tinyWhitenStep,
      ne_eq, hd, not_false_eq_true, true_and, if_true, if_false, decCounters_eq _ hk2]
    split_ifs with h16
    · have hset : (setSlice (setSlice (List.replicate 32 (0 : BitVec 8)) 0 16
          (List.replicate 16 0)) 0 data.length data).length = 32 := by
        simp [setSlice]
        omega
      refine tinyRoundsJoin_holds st delta _ _ (-1) hdelta hn1 hn _ _ _ _ _ _ _
        (by rw [length_whitenBuf _ _ hdelta (by omega), hset]) ?_ ?_ hbound
      · rw [← flipFirst_take]
        exact tinyInput_holds st delta data _ _ hdelta hn1 h16 hL
      · rw [drop_flipFirst _ _ (by omega)]
        exact hR
    · exact tinyRoundsJoin_holds st delta _ _ (-1) hdelta hn1 hn _ _ _ _ _ _ _ (by simp) hL hR
        hbound

/-- `aez_tiny` computes the bit-level AEZ-tiny of its input in the first `n` bytes of `dst`, in
both directions. -/
theorem aezTiny_eq_tinySpec (st : AEZState) (delta data dst : Bytes) (d : Nat) (hd : d ≤ 1)
    (hdelta : delta.length = 16) (hn1 : 1 ≤ data.length) (hn : data.length ≤ 31) :
    bytesToBits ((st.aezTiny delta data d dst).take data.length) =
      st.tinySpec delta (bytesToBits data) d := by
  obtain ⟨hJ, hbits⟩ := tinyCore_holds st delta data d hdelta hn1 hn
  have hlen : (bytesToBits data).length / 8 = data.length := by simp
  obtain rfl | rfl : d = 0 ∨ d = 1 := by omega
  · rw [if_pos rfl] at hbits
    rw [tinySpec_zero, hlen, AEZState.tinyWhitenStep, ← hbits]
    simp only [AEZState.aezTiny, and_true]
    split_ifs with h16
    · exact tinyOutput_bits st delta _ dst _ hdelta hJ hn1 h16
    · rw [setSlice_zero, List.take_left' (by simp; omega)]
  · rw [if_neg one_ne_zero] at hbits
    rw [tinySpec_one, hlen, ← hbits]
    simp only [AEZState.aezTiny, one_ne_zero, and_false, if_false]
    rw [setSlice_zero, List.take_left' (by simp; omega)]

theorem length_aezTiny (st : AEZState) (delta data dst : Bytes) (d : Nat)
    (hdelta : delta.length = 16) (hn1 : 1 ≤ data.length) (hn : data.length ≤ 31)
    (hdst : data.length ≤ dst.length) : (st.aezTiny delta data d dst).length = dst.length := by
  have hJ := (tinyCore_holds st delta data d hdelta hn1 hn).1
  simp only [AEZState.aezTiny]
  split_ifs <;> simp [setSlice_zero] <;> omega

theorem aezTiny_eq_tinySpec_one_byte :
    bytesToBits (((AEZState.init ⟨fun _ size => List.replicate size 0,
        fun _ _ => List.length_replicate _ _⟩ ((List.range 48).map (BitVec.ofNat 8))).aezTiny
          mkBlock [0x2A#8] 0 [0]).take 1) =
      (AEZState.init ⟨fun _ size => List.replicate size 0, fun _ _ => List.length_replicate _ _⟩
        ((List.range 48).map (BitVec.ofNat 8))).tinySpec mkBlock (bytesToBits [0x2A#8]) 0 :=
  aezTiny_eq_tinySpec _ mkBlock [0x2A#8] [0] 0 (by decide) rfl (by decide) (by decide)

/-! ## Inverse -/

@[simp] theorem length_xorBits (a b : List Bool) : (xorBits a b).length = min a.length b.length := by
  simp [xorBits]

theorem xorBits_xorBits_cancel (a b : List Bool) (h : a.length ≤ b.length) :
    xorBits (xorBits a b) b = a := by
  induction a generalizing b with
  | nil => rfl
  | cons x a ih =>
    cases b with
    | nil => simp at h
    | cons y b =>
      simp only [xorBits, List.zipWith_cons_cons, Bool.xor_assoc, Bool.xor_self, Bool.xor_false]
      exact congrArg _ (ih b (by simpa using h))

theorem feistel_append (F : List Bool → Nat → List Bool) (cs ds : List (Nat × Nat))
    (LR : List Bool × List Bool) : feistel F (cs ++ ds) LR = feistel F ds (feistel F cs LR) := by
  induction cs generalizing LR with
  | nil => rfl
  | cons c cs ih =>
    obtain ⟨a, b⟩ := c
    obtain ⟨L, R⟩ := LR
    exact ih _

section Feistel

variable (F : List Bool → Nat → List Bool) (h : Nat) (hF : ∀ X c, (F X c).length = h)
include hF

theorem feistel_length (cs : List (Nat × Nat)) (L R : List Bool) (hL : L.length = h)
    (hR : R.length = h) :
    (feistel F cs (L, R)).1.length = h ∧ (feistel F cs (L, R)).2.length = h := by
  induction cs generalizing L R with
  | nil => exact ⟨hL, hR⟩
  | cons c cs ih =>
    obtain ⟨a, b⟩ := c
    exact ih _ _ (by simp [hL, hF]) (by simp [hR, hF])

/-- Running the rounds backwards, each pair with its counters swapped, on the swapped output
gives back the swapped input, whatever the round function. -/
theorem feistel_reverse_swap (cs : List (Nat × Nat)) (L R : List Bool) (hL : L.length = h)
    (hR : R.length = h) :
    feistel F (cs.reverse.map Prod.swap)
      ((feistel F cs (L, R)).2, (feistel F cs (L, R)).1) = (R, L) := by
  induction cs generalizing L R with
  | nil => rfl
  | cons c cs ih =>
    obtain ⟨a, b⟩ := c
    have hL1 : (xorBits L (F R a)).length = h := by simp [hL, hF]
    have hR1 : (xorBits R (F (xorBits L (F R a)) b)).length = h := by simp [hR, hF]
    rw [List.reverse_cons, List.map_append, feistel_append]
    simp only [feistel]
    rw [ih _ _ hL1 hR1]
    simp only [List.map_cons, List.map_nil, Prod.swap_prod_mk, feistel]
    rw [xorBits_xorBits_cancel _ _ (by rw [hR, hF]), xorBits_xorBits_cancel _ _ (by rw [hL, hF])]

end Feistel

theorem decCounters_eq_reverse (k : Nat) (hk : k % 2 = 0) :
    decCounters k = (encCounters k).reverse.map Prod.swap := by
  refine List.ext_getElem (by simp [decCounters, encCounters]) fun i h1 h2 => ?_
  simp only [decCounters, encCounters, List.getElem_map, List.getElem_reverse, List.getElem_range,
    List.length_map, List.length_range, Prod.swap_prod_mk, Prod.mk.injEq]
  simp only [decCounters, List.length_map, List.length_range] at h1
  omega

theorem encCounters_eq_reverse (k : Nat) (hk : k % 2 = 0) :
    encCounters k = (decCounters k).reverse.map Prod.swap := by
  simp [decCounters_eq_reverse k hk, List.map_reverse, List.map_map]

theorem length_tinyRound (st : AEZState) (delta : Bytes) (n idx : Nat) (hn : n ≤ 31)
    (X : List Bool) (c : Nat) : (st.tinyRound delta (4 * n) idx X c).length = 4 * n := by
  simp [AEZState.tinyRound]
  omega

theorem tinyWhiten_flipFirst (st : AEZState) (delta : Bytes) (b : Bool) (B : List Bool) :
    st.tinyWhiten delta (flipFirst b B) = st.tinyWhiten delta B := by
  cases B <;> rfl

theorem length_flipFirst (b : Bool) (l : List Bool) : (flipFirst b l).length = l.length := by
  cases l <;> rfl

theorem length_tinyWhitenStep (st : AEZState) (delta : Bytes) (n : Nat) (M : List Bool) :
    (st.tinyWhitenStep delta n M).length = M.length := by
  unfold AEZState.tinyWhitenStep
  split_ifs <;> simp [length_flipFirst]

theorem tinyWhitenStep_involutive (st : AEZState) (delta : Bytes) (n : Nat) (M : List Bool) :
    st.tinyWhitenStep delta n (st.tinyWhitenStep delta n M) = M := by
  unfold AEZState.tinyWhitenStep
  split_ifs
  · rw [tinyWhiten_flipFirst, flipFirst_flipFirst]
  · rfl

section Inverse

variable (st : AEZState) (delta : Bytes) (M : List Bool) (n : Nat) (hM : M.length = 8 * n)
  (hn : n ≤ 31)
include hM hn

theorem length_tinyFeistel (cs : List (Nat × Nat)) :
    (st.tinyFeistel delta n cs M).length = 8 * n := by
  have hF := feistel_length _ _ (length_tinyRound st delta n (tinyIdx n) hn) cs
    (M.take (4 * n)) (M.drop (4 * n)) (by simp; omega) (by simp; omega)
  simp only [AEZState.tinyFeistel, List.length_append, hF.1, hF.2]
  omega

theorem tinyFeistel_reverse_swap (cs : List (Nat × Nat)) :
    st.tinyFeistel delta n (cs.reverse.map Prod.swap) (st.tinyFeistel delta n cs M) = M := by
  have hF := length_tinyRound st delta n (tinyIdx n) hn
  have hlen := feistel_length _ _ hF cs (M.take (4 * n)) (M.drop (4 * n)) (by simp; omega)
    (by simp; omega)
  simp only [AEZState.tinyFeistel]
  rw [List.take_left' hlen.2, List.drop_left' hlen.2,
    feistel_reverse_swap _ _ hF cs _ _ (by simp; omega) (by simp; omega)]
  exact List.take_append_drop _ _

end Inverse

/-- On every `8n`-bit string, `1 ≤ n ≤ 31`, deciphering undoes enciphering and enciphering undoes
deciphering. -/
theorem tinySpec_inverse (st : AEZState) (delta : Bytes) (M : List Bool) (hM : M.length % 8 = 0)
    (hn : M.length ≤ 248) :
    st.tinySpec delta (st.tinySpec delta M 0) 1 = M ∧
      st.tinySpec delta (st.tinySpec delta M 1) 0 = M := by
  obtain ⟨n, hMn⟩ : ∃ n, M.length = 8 * n := ⟨M.length / 8, by omega⟩
  have hn8 : M.length / 8 = n := by omega
  have hk := (tinyRoundCount_even n).1
  have hn' : n ≤ 31 := by omega
  have hW := length_tinyWhitenStep st delta n M
  have hE := length_tinyFeistel st delta M n hMn hn' (encCounters (tinyRoundCount n))
  have hD := length_tinyFeistel st delta _ n (hW.trans hMn) hn' (decCounters (tinyRoundCount n))
  constructor
  · rw [tinySpec_zero, hn8, tinySpec_one, length_tinyWhitenStep, hE,
      show 8 * n / 8 = n by omega, tinyWhitenStep_involutive, decCounters_eq_reverse _ hk,
      tinyFeistel_reverse_swap _ _ _ n hMn hn']
  · rw [tinySpec_one, hn8, tinySpec_zero, hD, show 8 * n / 8 = n by omega,
      encCounters_eq_reverse _ hk, tinyFeistel_reverse_swap _ _ _ n (hW.trans hMn) hn',
      tinyWhitenStep_involutive]

theorem bytesToBits_injective {a b : Bytes} (h : bytesToBits a = bytesToBits b) : a = b := by
  rw [← bitsToBytes_bytesToBits a, h, bitsToBytes_bytesToBits]

/-- The byte-level `aez_tiny` in the two directions, each writing into a buffer of the message's
length, are inverse permutations of the messages of 1 to 31 bytes. -/
theorem aezTiny_inverse (st : AEZState) (delta m dst dst' : Bytes) (hdelta : delta.length = 16)
    (hn1 : 1 ≤ m.length) (hn : m.length ≤ 31) (hdst : dst.length = m.length)
    (hdst' : dst'.length = m.length) :
    st.aezTiny delta (st.aezTiny delta m 0 dst) 1 dst' = m ∧
      st.aezTiny delta (st.aezTiny delta m 1 dst) 0 dst' = m := by
  have hM : (bytesToBits m).length % 8 = 0 := by simp
  have hM' : (bytesToBits m).length ≤ 248 := by simp; omega
  have hround : ∀ d e, d ≤ 1 → e ≤ 1 →
      st.tinySpec delta (st.tinySpec delta (bytesToBits m) d) e = bytesToBits m →
      st.aezTiny delta (st.aezTiny delta m d dst) e dst' = m := by
    intro d e hd he hspec
    have hc := length_aezTiny st delta m dst d hdelta hn1 hn (by omega)
    have hcbits := aezTiny_eq_tinySpec st delta m dst d hd hdelta hn1 hn
    rw [← hdst, List.take_of_length_le (by omega)] at hcbits
    have hr := aezTiny_eq_tinySpec st delta (st.aezTiny delta m d dst) dst' e he hdelta
      (by omega) (by omega)
    rw [hc, hdst, ← hdst', List.take_of_length_le (by rw [length_aezTiny _ _ _ _ _ hdelta
      (by omega) (by omega) (by omega)]), hcbits, hspec] at hr
    exact bytesToBits_injective hr
  exact ⟨hround 0 1 (by omega) le_rfl (tinySpec_inverse st delta _ hM hM').1,
    hround 1 0 le_rfl (by omega) (tinySpec_inverse st delta _ hM hM').2⟩

end Aezeed
