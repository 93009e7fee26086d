import Aezeed.AesRound

/-!
# The AES round on the byte state

AES specifies its round on the 4×4 byte state, bytes `4c..4c+3` forming column `c`, as
`AddRoundKey ∘ MixColumns ∘ ShiftRows ∘ SubBytes`, the S-box being the inverse in GF(2^8)
followed by an affine map. `_AESRound.rounds` computes the round on the four big-endian
state words, with the table `TE0` of MixColumns' first matrix column times `S(x)` and its byte
rotations `TE1`..`TE3`. `te0_eq_map` and `te_rotateRight` check the 1024 table entries against
the S-box; with them one pass of the round loop on the state words is one AES round on the
state bytes (`roundStep_stateWords`), and `rounds` is `r` AES rounds under the round-key words
`keys[4k..4k+4)` (`rounds_eq_aesRounds`). Over the schedules that `__init__` builds, AES10 and
AES4 are ten and four AES rounds under the thirds of the key (`aes10_eq_cipherRounds`,
`aes4_eq_cipherRounds`).
-/

namespace Aezeed

/-! ## GF(2^8) and the S-box -/

/-- `xtime` on a byte value: times `{02}` modulo `x^8 + x^4 + x^3 + x + 1`. -/
def xtime (b : Nat) : Nat := if b < 128 then 2 * b else (2 * b - 256) ^^^ 0x1B

/-- The product in GF(2^8) of `a` and the low `k` bits of `b`: the sum of `xtime^i a` over
the set bits `i` of `b`. -/
def gf8MulBits : Nat → Nat → Nat → Nat
  | 0, _, _ => 0
  | k + 1, a, b => (if b % 2 = 1 then a else 0) ^^^ gf8MulBits k (xtime a) (b / 2)

def gf8Mul (a b : Nat) : Nat := gf8MulBits 8 a b

example : gf8Mul 0x57 0x83 = 0xC1 := by decide

/-- The multiplicative inverse in GF(2^8), `x^254`, which sends `{00}` to `{00}`; the
power along the addition chain `1, 2, 3, 6, 12, 15, 30, 60, 120, 240, 252, 254`. -/
def gf8Inv (x : Nat) : Nat :=
  let x2 := gf8Mul x x
  let x3 := gf8Mul x2 x
  let x6 := gf8Mul x3 x3
  let x12 := gf8Mul x6 x6
  let x15 := gf8Mul x12 x3
  let x30 := gf8Mul x15 x15
  let x60 := gf8Mul x30 x30
  let x120 := gf8Mul x60 x60
  let x240 := gf8Mul x120 x120
  let x252 := gf8Mul x240 x12
  gf8Mul x252 x2

def rotl8 (b k : Nat) : Nat := (b <<< k) % 256 ||| b >>> (8 - k)

/-- The affine map of the S-box, `b'_i = b_i ⊕ b_(i+4) ⊕ b_(i+5) ⊕ b_(i+6) ⊕ b_(i+7) ⊕ c_i` with
`c = {63}`: bit `i` of `rotl8 b k` is `b_(i-k)`. -/
def affine (b : Nat) : Nat := b ^^^ rotl8 b 1 ^^^ rotl8 b 2 ^^^ rotl8 b 3 ^^^ rotl8 b 4 ^^^ 0x63

def sbox (x : Nat) : Nat := affine (gf8Inv x)

example : sbox 0x53 = 0xED := by decide

/-! ## The round on the state bytes -/

def xtimeByte (b : BitVec 8) : BitVec 8 := BitVec.ofNat 8 (xtime b.toNat)

def subByte (b : BitVec 8) : BitVec 8 := BitVec.ofNat 8 (sbox b.toNat)

def subBytes (st : Bytes) : Bytes := st.map subByte

/-- `ShiftRows`: row `r` turns left by `r`, so byte `r + 4c` takes byte
`r + 4((c + r) mod 4)`. -/
def shiftRows (st : Bytes) : Bytes :=
  (List.range 16).map fun i => st.getD (i % 4 + 4 * ((i / 4 + i % 4) % 4)) 0

def mixColumn (s0 s1 s2 s3 : BitVec 8) : Bytes :=
  [xtimeByte s0 ^^^ (xtimeByte s1 ^^^ s1) ^^^ s2 ^^^ s3,
    s0 ^^^ xtimeByte s1 ^^^ (xtimeByte s2 ^^^ s2) ^^^ s3,
    s0 ^^^ s1 ^^^ xtimeByte s2 ^^^ (xtimeByte s3 ^^^ s3),
    (xtimeByte s0 ^^^ s0) ^^^ s1 ^^^ s2 ^^^ xtimeByte s3]

def mixColumns : Bytes → Bytes
  | s0 :: s1 :: s2 :: s3 :: rest => mixColumn s0 s1 s2 s3 ++ mixColumns rest
  | _ => []

/-- Round key `k`: the big-endian words `keys[4k..4k+4)`. -/
def roundKey (keys : List (BitVec 32)) (k : Nat) : Bytes :=
  ((List.range 4).map fun j => toBytesBE 4 (keys.getD (4 * k + j) 0).toNat).flatten

def addRoundKey (st key : Bytes) : Bytes := List.zipWith (· ^^^ ·) st key

def aesRound (keys : List (BitVec 32)) (st : Bytes) (k : Nat) : Bytes :=
  addRoundKey (mixColumns (shiftRows (subBytes st))) (roundKey keys k)

def aesRounds (keys : List (BitVec 32)) (block : Bytes) (r : Nat) : Bytes :=
  (List.range r).foldl (aesRound keys) block

theorem shiftRows_bytes (a0 a1 a2 a3 a4 a5 a6 a7 a8 a9 a10 a11 a12 a13 a14 a15 : BitVec 8) :
    shiftRows [a0, a1, a2, a3, a4, a5, a6, a7, a8, a9, a10, a11, a12, a13, a14, a15] =
      [a0, a5, a10, a15, a4, a9, a14, a3, a8, a13, a2, a7, a12, a1, a6, a11] := rfl

theorem length_mixColumns (st : Bytes) : (mixColumns st).length = st.length / 4 * 4 := by
  induction st using mixColumns.induct with
  | case1 s0 s1 s2 s3 rest ih =>
    simp only [mixColumns, mixColumn, List.length_append, List.length_cons, List.length_nil, ih]
    omega
  | case2 st h =>
    rw [mixColumns.eq_2 st h]
    match st, h with
    | [], _ | [_], _ | [_, _], _ | [_, _, _], _ => simp
    | _ :: _ :: _ :: _ :: rest, h => exact (h _ _ _ _ rest rfl).elim

theorem length_roundKey (keys : List (BitVec 32)) (k : Nat) : (roundKey keys k).length = 16 := rfl

@[simp] theorem length_aesRound (keys : List (BitVec 32)) (st : Bytes) (k : Nat) :
    (aesRound keys st k).length = 16 := by
  rw [aesRound, addRoundKey, List.length_zipWith, length_mixColumns, length_roundKey]
  simp [shiftRows]

theorem length_aesRounds (keys : List (BitVec 32)) {block : Bytes} (hblock : block.length = 16)
    (r : Nat) : (aesRounds keys block r).length = 16 := by
  rw [aesRounds]
  generalize List.range r = ks
  induction ks generalizing block with
  | nil => exact hblock
  | cons k ks ih => exact ih (length_aesRound keys block k)

/-! ## Words and bytes -/

theorem toNat_append_byte {w : Nat} (x : BitVec w) (b : BitVec 8) :
    (x ++ b).toNat = x.toNat * 256 + b.toNat := by
  rw [BitVec.toNat_append, Nat.shiftLeft_eq, Nat.mul_comm, ← Nat.mul_add_lt_is_or b.isLt]

theorem toNat_append_bytes (a b c d : BitVec 8) :
    (a ++ b ++ c ++ d).toNat = fromBytesBE [a, b, c, d] := by
  simp only [toNat_append_byte, fromBytesBE, ofDigitsBE, List.map, List.foldl]
  omega

theorem ofNat_fromBytesBE_bytes (a b c d : BitVec 8) :
    BitVec.ofNat 32 (fromBytesBE [a, b, c, d]) = a ++ b ++ c ++ d := by
  rw [← toNat_append_bytes, BitVec.ofNat_toNat, BitVec.setWidth_eq]

theorem toBytesBE_append_bytes (a b c d : BitVec 8) :
    toBytesBE 4 (a ++ b ++ c ++ d).toNat = [a, b, c, d] := by
  rw [toNat_append_bytes]
  exact toBytesBE_fromBytesBE [a, b, c, d]

theorem eq_append_toBytesBE (w : BitVec 32) :
    ∃ a b c d : BitVec 8, toBytesBE 4 w.toNat = [a, b, c, d] ∧ w = a ++ b ++ c ++ d := by
  match h : toBytesBE 4 w.toNat, length_toBytesBE 4 w.toNat with
  | [a, b, c, d], _ =>
    refine ⟨a, b, c, d, rfl, ?_⟩
    rw [← ofNat_fromBytesBE_bytes, ← h, fromBytesBE_toBytesBE,
      Nat.mod_eq_of_lt (w.isLt.trans_eq (by norm_num)), BitVec.ofNat_toNat, BitVec.setWidth_eq]

theorem uint8_append_bytes (a b c d : BitVec 8) :
    uint8 ((a ++ b ++ c ++ d) >>> 24) = a.toNat ∧ uint8 ((a ++ b ++ c ++ d) >>> 16) = b.toNat ∧
      uint8 ((a ++ b ++ c ++ d) >>> 8) = c.toNat ∧ uint8 (a ++ b ++ c ++ d) = d.toNat := by
  have h : ∀ x : BitVec 32, uint8 x = x.toNat % 256 := fun x => by
    rw [uint8, BitVec.toNat_and, show (0xFF#32).toNat = 2 ^ 8 - 1 from rfl,
      Nat.and_pow_two_sub_one_eq_mod]
  simp only [h, BitVec.toNat_ushiftRight, Nat.shiftRight_eq_div_pow, toNat_append_byte]
  have := a.isLt; have := b.isLt; have := c.isLt; have := d.isLt
  omega

theorem xor_append_bytes (a b c d e f g h : BitVec 8) :
    (a ++ b ++ c ++ d : BitVec 32) ^^^ (e ++ f ++ g ++ h : BitVec 32) =
      (a ^^^ e) ++ (b ^^^ f) ++ (c ^^^ g) ++ (d ^^^ h) :=
  BitVec.xor_append.trans (congrArg (· ++ _) (BitVec.xor_append.trans
    (congrArg (· ++ _) BitVec.xor_append)))

theorem toNat_rotateRight (x : BitVec 32) {r : Nat} (hr : r < 32) :
    (x.rotateRight r).toNat = 2 ^ (32 - r) * (x.toNat % 2 ^ r) + x.toNat / 2 ^ r := by
  have hsplit : 2 ^ 32 = 2 ^ r * 2 ^ (32 - r) := by rw [← Nat.pow_add]; congr 1; omega
  have hlow : x.toNat * 2 ^ (32 - r) % 2 ^ 32 = 2 ^ (32 - r) * (x.toNat % 2 ^ r) := by
    rw [hsplit, Nat.mul_mod_mul_right, Nat.mul_comm]
  have hhigh : x.toNat / 2 ^ r < 2 ^ (32 - r) := by
    rw [Nat.div_lt_iff_lt_mul (Nat.two_pow_pos _), Nat.mul_comm, ← hsplit]
    exact x.isLt
  rw [BitVec.rotateRight, Nat.mod_eq_of_lt hr, BitVec.rotateRightAux, BitVec.toNat_or,
    BitVec.toNat_ushiftRight, BitVec.toNat_shiftLeft, Nat.shiftLeft_eq, Nat.shiftRight_eq_div_pow,
    Nat.lor_comm, hlow, ← Nat.mul_add_lt_is_or hhigh]

theorem rotateRight_append_bytes (a b c d : BitVec 8) :
    (a ++ b ++ c ++ d).rotateRight 8 = d ++ a ++ b ++ c ∧
      (a ++ b ++ c ++ d).rotateRight 16 = c ++ d ++ a ++ b ∧
      (a ++ b ++ c ++ d).rotateRight 24 = b ++ c ++ d ++ a := by
  have := a.isLt; have := b.isLt; have := c.isLt; have := d.isLt
  refine ⟨?_, ?_, ?_⟩ <;> apply BitVec.eq_of_toNat_eq <;>
    rw [toNat_rotateRight _ (by norm_num)] <;> simp only [toNat_append_byte] <;> omega

/-! ## The tables -/

/-- MixColumns' first matrix column `({02}, {01}, {01}, {03})` times `s`, as a big-endian word. -/
def teWord (s : BitVec 8) : BitVec 32 := xtimeByte s ++ s ++ s ++ (xtimeByte s ^^^ s)

set_option maxRecDepth 10000 in
/-- `TE0[x]` is MixColumns' first column times `S(x)`, for all 256 bytes `x`. -/
theorem te0_eq_map : te0 = (List.range 256).map fun n => teWord (subByte (BitVec.ofNat 8 n)) := by
  decide

set_option maxRecDepth 10000 in
theorem te_rotateRight : te1 = te0.map (·.rotateRight 8) ∧ te2 = te0.map (·.rotateRight 16) ∧
    te3 = te0.map (·.rotateRight 24) := by
  decide

theorem getD_map_of_lt {α β : Type} {l : List α} {n : Nat} (h : n < l.length) (f : α → β)
    (d : β) (d' : α) : (l.map f).getD n d = f (l.getD n d') := by
  rw [List.getD_eq_getElem _ _ (by simpa using h), List.getD_eq_getElem _ _ h, List.getElem_map]

theorem toNat_lt_length_te0 (x : BitVec 8) : x.toNat < te0.length := by
  rw [te0_eq_map, List.length_map, List.length_range]
  exact x.isLt

theorem te0_getD (x : BitVec 8) : te0.getD x.toNat 0 = teWord (subByte x) := by
  have hx : x.toNat < (List.range 256).length := by simpa using x.isLt
  rw [te0_eq_map, getD_map_of_lt hx _ 0 0, List.getD_eq_getElem _ _ hx, List.getElem_range,
    BitVec.ofNat_toNat, BitVec.setWidth_eq]

/-- The four tables at a byte `x`, as bytes of `s = S(x)`: `TE0[x] = ({02}s, s, s, {03}s)` and
`TE1`..`TE3` its rotations. -/
theorem te_getD (x : BitVec 8) :
    te0.getD x.toNat 0 = xtimeByte (subByte x) ++ subByte x ++ subByte x ++
        (xtimeByte (subByte x) ^^^ subByte x) ∧
      te1.getD x.toNat 0 = (xtimeByte (subByte x) ^^^ subByte x) ++ xtimeByte (subByte x) ++
        subByte x ++ subByte x ∧
      te2.getD x.toNat 0 = subByte x ++ (xtimeByte (subByte x) ^^^ subByte x) ++
        xtimeByte (subByte x) ++ subByte x ∧
      te3.getD x.toNat 0 = subByte x ++ subByte x ++ (xtimeByte (subByte x) ^^^ subByte x) ++
        xtimeByte (subByte x) := by
  have hx := toNat_lt_length_te0 x
  obtain ⟨h1, h2, h3⟩ := te_rotateRight
  rw [h1, h2, h3, getD_map_of_lt hx _ 0 0, getD_map_of_lt hx _ 0 0, getD_map_of_lt hx _ 0 0,
    te0_getD, teWord]
  exact ⟨rfl, rotateRight_append_bytes ..⟩

/-! ## One pass of the round loop -/

/-- The state words `s0, s1, s2, s3` that `rounds` reads from a block. -/
def stateWords (block : Bytes) : BitVec 32 × BitVec 32 × BitVec 32 × BitVec 32 :=
  (readUint32BE block 0, readUint32BE block 4, readUint32BE block 8, readUint32BE block 12)

def writeWords (block : Bytes) : BitVec 32 × BitVec 32 × BitVec 32 × BitVec 32 → Bytes
  | (s0, s1, s2, s3) =>
    writeUint32BE (writeUint32BE (writeUint32BE (writeUint32BE block 0 s0) 4 s1) 8 s2) 12 s3

theorem rounds_eq_writeWords (aes : AESRound) (block : Bytes) (rounds : Nat) :
    aes.rounds block rounds = writeWords block ((List.range rounds).foldl
      (roundStep (if rounds = 4 then aes.aes4Key else aes.aes10Key)) (stateWords block)) := rfl

theorem stateWords_bytes (a0 a1 a2 a3 a4 a5 a6 a7 a8 a9 a10 a11 a12 a13 a14 a15 : BitVec 8) :
    stateWords [a0, a1, a2, a3, a4, a5, a6, a7, a8, a9, a10, a11, a12, a13, a14, a15] =
      (a0 ++ a1 ++ a2 ++ a3, a4 ++ a5 ++ a6 ++ a7, a8 ++ a9 ++ a10 ++ a11,
        a12 ++ a13 ++ a14 ++ a15) := by
  show (BitVec.ofNat 32 (fromBytesBE [a0, a1, a2, a3]), BitVec.ofNat 32 (fromBytesBE [a4, a5, a6, a7]),
    BitVec.ofNat 32 (fromBytesBE [a8, a9, a10, a11]),
    BitVec.ofNat 32 (fromBytesBE [a12, a13, a14, a15])) = _
  simp only [ofNat_fromBytesBE_bytes]

/-- One pass of the loop of `rounds` on the state words of a 16-byte state is one AES round on
the state. -/
theorem roundStep_stateWords (keys : List (BitVec 32)) (st : Bytes) (hst : st.length = 16)
    (k : Nat) : roundStep keys (stateWords st) k = stateWords (aesRound keys st k) := by
  match st, hst with
  | [a0, a1, a2, a3, a4, a5, a6, a7, a8, a9, a10, a11, a12, a13, a14, a15], _ =>
  obtain ⟨k0, k1, k2, k3, hk0, hw0⟩ := eq_append_toBytesBE (keys.getD (4 * k) 0)
  obtain ⟨k4, k5, k6, k7, hk1, hw1⟩ := eq_append_toBytesBE (keys.getD (4 * k + 1) 0)
  obtain ⟨k8, k9, k10, k11, hk2, hw2⟩ := eq_append_toBytesBE (keys.getD (4 * k + 2) 0)
  obtain ⟨k12, k13, k14, k15, hk3, hw3⟩ := eq_append_toBytesBE (keys.getD (4 * k + 3) 0)
  have hkey : roundKey keys k =
      [k0, k1, k2, k3, k4, k5, k6, k7, k8, k9, k10, k11, k12, k13, k14, k15] := by
    rw [show roundKey keys k = toBytesBE 4 (keys.getD (4 * k) 0).toNat ++
      (toBytesBE 4 (keys.getD (4 * k + 1) 0).toNat ++ (toBytesBE 4 (keys.getD (4 * k + 2) 0).toNat ++
        (toBytesBE 4 (keys.getD (4 * k + 3) 0).toNat ++ []))) from rfl, hk0, hk1, hk2, hk3]
    rfl
  rw [aesRound, hkey, subBytes]
  simp only [List.map_cons, List.map_nil]
  rw [shiftRows_bytes]
  simp only [mixColumns, mixColumn,
    List.cons_append, List.nil_append, addRoundKey, List.zipWith_cons_cons, List.zipWith_nil_left,
    stateWords_bytes, roundStep, uint8_append_bytes, te_getD, Nat.mul_comm k 4, hw0, hw1, hw2, hw3,
    xor_append_bytes]

/-! ## The round loop -/

theorem foldl_roundStep (keys : List (BitVec 32)) (ks : List Nat) :
    ∀ st : Bytes, st.length = 16 →
      ks.foldl (roundStep keys) (stateWords st) = stateWords (ks.foldl (aesRound keys) st) := by
  induction ks with
  | nil => intro st _; rfl
  | cons k ks ih =>
    intro st hst
    rw [List.foldl_cons, List.foldl_cons, roundStep_stateWords keys st hst k,
      ih _ (length_aesRound keys st k)]

theorem writeWords_stateWords {block st : Bytes} (hblock : block.length = 16)
    (hst : st.length = 16) : writeWords block (stateWords st) = st := by
  match st, hst, block, hblock with
  | [a0, a1, a2, a3, a4, a5, a6, a7, a8, a9, a10, a11, a12, a13, a14, a15], _,
    [_, _, _, _, _, _, _, _, _, _, _, _, _, _, _, _], _ =>
    simp only [stateWords_bytes, writeWords, writeUint32BE, toBytesBE_append_bytes]
    rfl

/-- `_AESRound.rounds(block, r)` on a 16-byte block is `r` AES rounds under the round keys
`keys[4k..4k+4)` of the schedule it picks, for every key the schedules are built from; and the
tables are `TE0[x] = ({02}S(x), S(x), S(x), {03}S(x))` and its rotations right by 8, 16 and 24
bits. -/
theorem rounds_eq_aesRounds (key block : Bytes) (hblock : block.length = 16) (r : Nat) :
    (AESRound.new key).rounds block r = aesRounds
        (if r = 4 then (AESRound.new key).aes4Key else (AESRound.new key).aes10Key) block r ∧
      ∀ x : BitVec 8, te0.getD x.toNat 0 = teWord (subByte x) ∧
        te1.getD x.toNat 0 = (te0.getD x.toNat 0).rotateRight 8 ∧
        te2.getD x.toNat 0 = (te0.getD x.toNat 0).rotateRight 16 ∧
        te3.getD x.toNat 0 = (te0.getD x.toNat 0).rotateRight 24 := by
  refine ⟨?_, fun x => ?_⟩
  · rw [rounds_eq_writeWords, foldl_roundStep _ _ block hblock]
    exact writeWords_stateWords hblock (length_aesRounds _ hblock r)
  · have hx := toNat_lt_length_te0 x
    obtain ⟨h1, h2, h3⟩ := te_rotateRight
    rw [h1, h2, h3, getD_map_of_lt hx _ 0 0, getD_map_of_lt hx _ 0 0, getD_map_of_lt hx _ 0 0]
    exact ⟨te0_getD x, rfl, rfl, rfl⟩

theorem rounds_eq_aesRounds_zero_key :
    (List.replicate 16 (0 : BitVec 8)).length = 16 ∧
      ((AESRound.new (List.replicate 48 0)).rounds (List.replicate 16 0) 10 = aesRounds
          (if 10 = 4 then (AESRound.new (List.replicate 48 0)).aes4Key
            else (AESRound.new (List.replicate 48 0)).aes10Key) (List.replicate 16 0) 10 ∧
        ∀ x : BitVec 8, te0.getD x.toNat 0 = teWord (subByte x) ∧
          te1.getD x.toNat 0 = (te0.getD x.toNat 0).rotateRight 8 ∧
          te2.getD x.toNat 0 = (te0.getD x.toNat 0).rotateRight 16 ∧
          te3.getD x.toNat 0 = (te0.getD x.toNat 0).rotateRight 24) :=
  ⟨List.length_replicate 16 0,
    rounds_eq_aesRounds (List.replicate 48 0) _ (List.length_replicate 16 0) 10⟩

/-! ## The schedules of `_AESRound.__init__`

`_AEZState.init` builds the schedules from the 48 extracted key bytes, whose thirds it keeps as
`I[0]`, `J[0]` and `L[1]`. AES10 runs its rounds under `I, J, L, I, J, L, I, J, L, I` and AES4
under `J, I, L` and the zero block (`aes10_eq_cipherRounds`, `aes4_eq_cipherRounds`). -/

theorem slice_append_slice (a : Bytes) {i j k : Nat} (hij : i ≤ j) (hjk : j ≤ k) :
    slice a i j ++ slice a j k = slice a i k := by
  rw [slice, slice, slice, show k - i = (j - i) + (k - j) by omega, List.take_add, List.drop_drop,
    Nat.add_sub_cancel' hij]

theorem toBytesBE_readUint32BE {key : Bytes} {off : Nat} (h : off + 4 ≤ key.length) :
    toBytesBE 4 (readUint32BE key off).toNat = slice key off (off + 4) := by
  have hlen : (slice key off (off + 4)).length = 4 := by simp; omega
  have hlt : fromBytesBE (slice key off (off + 4)) < 2 ^ 32 := by
    have := fromBytesBE_lt (slice key off (off + 4))
    rw [hlen] at this
    simpa using this
  have h4 := toBytesBE_fromBytesBE (slice key off (off + 4))
  rw [hlen] at h4
  rw [readUint32BE, BitVec.toNat_ofNat, Nat.mod_eq_of_lt hlt, h4]

theorem roundKey_eq_slice {keys : List (BitVec 32)} {k : Nat} {key : Bytes} {off : Nat}
    (hoff : off + 16 ≤ key.length)
    (h : ∀ j < 4, keys.getD (4 * k + j) 0 = readUint32BE key (off + 4 * j)) :
    roundKey keys k = slice key off (off + 16) := by
  rw [show roundKey keys k = toBytesBE 4 (keys.getD (4 * k + 0) 0).toNat ++
      (toBytesBE 4 (keys.getD (4 * k + 1) 0).toNat ++ (toBytesBE 4 (keys.getD (4 * k + 2) 0).toNat ++
        (toBytesBE 4 (keys.getD (4 * k + 3) 0).toNat ++ []))) from rfl,
    h 0 (by omega), h 1 (by omega), h 2 (by omega), h 3 (by omega),
    toBytesBE_readUint32BE (by omega), toBytesBE_readUint32BE (by omega),
    toBytesBE_readUint32BE (by omega), toBytesBE_readUint32BE (by omega), List.append_nil,
    slice_append_slice _ (by omega) (by omega), slice_append_slice _ (by omega) (by omega),
    slice_append_slice _ (by omega) (by omega)]
  congr 1

theorem getD_words (key : Bytes) {i : Nat} (hi : i < 12) :
    ((List.range 12).map fun i => readUint32BE key (4 * i)).getD i 0 = readUint32BE key (4 * i) := by
  rw [List.getD_eq_getElem _ _ (by simpa using hi), List.getElem_map, List.getElem_range]

theorem getD_aes10Key (key : Bytes) {i : Nat} (hi : i < 40) :
    (AESRound.new key).aes10Key.getD i 0 = readUint32BE key (4 * (i % 12)) := by
  have hw : ((List.range 12).map fun i => readUint32BE key (4 * i)).length = 12 := by simp
  rw [← getD_words key (Nat.mod_lt i (by norm_num))]
  simp only [AESRound.new]
  rcases (by omega : i < 12 ∨ (12 ≤ i ∧ i < 24) ∨ (24 ≤ i ∧ i < 36) ∨ 36 ≤ i) with h | h | h | h
  · rw [List.getD_append _ _ _ _ (by simp; omega), List.getD_append _ _ _ _ (by simp; omega),
      List.getD_append _ _ _ _ (by simp; omega), Nat.mod_eq_of_lt h]
  · rw [List.getD_append _ _ _ _ (by simp; omega), List.getD_append _ _ _ _ (by simp; omega),
      List.getD_append_right _ _ _ _ (by omega), hw]
    congr 1; omega
  · rw [List.getD_append _ _ _ _ (by simp; omega), List.getD_append_right _ _ _ _ (by simp; omega)]
    simp only [List.length_append, hw]
    congr 1; omega
  · rw [List.getD_append_right _ _ _ _ (by simp; omega)]
    simp only [List.length_append, hw]
    rw [List.getD_eq_getElem?_getD, List.getD_eq_getElem?_getD,
      List.getElem?_take_of_lt (by omega)]
    congr 2; omega

/-- Round `k < 10` of AES10 uses third `k mod 3` of the key: `I, J, L, I, J, L, I, J, L, I`. -/
theorem roundKey_aes10Key (key : Bytes) (hkey : key.length = 48) {k : Nat} (hk : k < 10) :
    roundKey (AESRound.new key).aes10Key k = slice key (16 * (k % 3)) (16 * (k % 3) + 16) := by
  refine roundKey_eq_slice (by omega) fun j hj => ?_
  rw [getD_aes10Key key (by omega)]
  congr 1
  omega

/-- The rounds of AES4 use `J`, `I`, `L` and a zero block. -/
theorem roundKey_aes4Key (key : Bytes) (hkey : key.length = 48) :
    roundKey (AESRound.new key).aes4Key 0 = slice key 16 32 ∧
      roundKey (AESRound.new key).aes4Key 1 = slice key 0 16 ∧
      roundKey (AESRound.new key).aes4Key 2 = slice key 32 48 ∧
      roundKey (AESRound.new key).aes4Key 3 = mkBlock := by
  refine ⟨roundKey_eq_slice (by omega) fun j hj => ?_, roundKey_eq_slice (by omega) fun j hj => ?_,
    roundKey_eq_slice (by omega) fun j hj => ?_, by with_unfolding_all rfl⟩ <;>
    interval_cases j <;> rfl

def cipherRounds (rks : List Bytes) (block : Bytes) : Bytes :=
  rks.foldl (fun st rk => addRoundKey (mixColumns (shiftRows (subBytes st))) rk) block

theorem aesRounds_eq_cipherRounds (keys : List (BitVec 32)) (block : Bytes) (r : Nat) :
    aesRounds keys block r = cipherRounds ((List.range r).map (roundKey keys)) block := by
  rw [aesRounds, cipherRounds, List.foldl_map]
  rfl

theorem rounds_eq_cipherRounds (aes : AESRound) {block : Bytes} (hblock : block.length = 16)
    (r : Nat) : aes.rounds block r = cipherRounds ((List.range r).map
      (roundKey (if r = 4 then aes.aes4Key else aes.aes10Key))) block := by
  rw [rounds_eq_writeWords, foldl_roundStep _ _ _ hblock, ← aesRounds_eq_cipherRounds]
  exact writeWords_stateWords hblock (length_aesRounds _ hblock r)

/-- `AES10(L, X)` is ten AES rounds on `X ⊕ L` under the thirds `I, J, L` of the key in turn. -/
theorem aes10_eq_cipherRounds {key l src : Bytes} (hkey : key.length = 48) (hl : l.length = 16)
    (hsrc : src.length = 16) :
    (AESRound.new key).aes10 l src = cipherRounds ((List.range 10).map fun k =>
      slice key (16 * (k % 3)) (16 * (k % 3) + 16)) (xorBytes1x16 src l) := by
  rw [AESRound.aes10, rounds_eq_cipherRounds _ (length_xorBytes1x16 _ _ hsrc hl), if_neg (by decide)]
  congr 1
  exact List.map_congr_left fun k hk => roundKey_aes10Key key hkey (List.mem_range.1 hk)

theorem aes10_eq_cipherRounds_zero :
    (List.replicate 48 (0 : BitVec 8)).length = 48 ∧ (List.replicate 16 (0 : BitVec 8)).length = 16 ∧
      (AESRound.new (List.replicate 48 0)).aes10 (List.replicate 16 0) (List.replicate 16 0) =
        cipherRounds ((List.range 10).map fun k => slice (List.replicate 48 0) (16 * (k % 3))
          (16 * (k % 3) + 16)) (xorBytes1x16 (List.replicate 16 0) (List.replicate 16 0)) :=
  ⟨List.length_replicate _ _, List.length_replicate _ _,
    aes10_eq_cipherRounds (List.length_replicate _ _) (List.length_replicate _ _)
      (List.length_replicate _ _)⟩

/-- `AES4(J, I, L, X)` is four AES rounds on `X ⊕ J ⊕ I ⊕ L` under the key thirds `J, I, L` and
a zero round key. -/
theorem aes4_eq_cipherRounds {key j i l src : Bytes} (hkey : key.length = 48) (hj : j.length = 16)
    (hi : i.length = 16) (hl : l.length = 16) (hsrc : src.length = 16) :
    (AESRound.new key).aes4 j i l src = cipherRounds
      [slice key 16 32, slice key 0 16, slice key 32 48, mkBlock] (xorBytes4x16 j i l src) := by
  have hblock : (xorBytes4x16 j i l src).length = 16 :=
    length_xorBytes1x16 _ _ (length_xorBytes1x16 _ _ (length_xorBytes1x16 _ _ hj hi) hl) hsrc
  obtain ⟨h0, h1, h2, h3⟩ := roundKey_aes4Key key hkey
  rw [AESRound.aes4, rounds_eq_cipherRounds _ hblock, if_pos rfl]
  simp only [List.range_succ, List.range_zero, List.nil_append, List.cons_append, List.map_cons,
    List.map_nil, h0, h1, h2, h3]

theorem aes4_eq_cipherRounds_zero :
    (List.replicate 48 (0 : BitVec 8)).length = 48 ∧ (List.replicate 16 (0 : BitVec 8)).length = 16 ∧
      (AESRound.new (List.replicate 48 0)).aes4 (List.replicate 16 0) (List.replicate 16 0)
          (List.replicate 16 0) (List.replicate 16 0) =
        cipherRounds [slice (List.replicate 48 0) 16 32, slice (List.replicate 48 0) 0 16,
          slice (List.replicate 48 0) 32 48, mkBlock] (xorBytes4x16 (List.replicate 16 0)
          (List.replicate 16 0) (List.replicate 16 0) (List.replicate 16 0)) :=
  ⟨List.length_replicate _ _, List.length_replicate _ _,
    aes4_eq_cipherRounds (List.length_replicate _ _) (List.length_replicate _ _)
      (List.length_replicate _ _) (List.length_replicate _ _) (List.length_replicate _ _)⟩

end Aezeed
