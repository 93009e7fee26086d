import Aezeed.State

/-!
# aez-hash and aez-prf

`_AEZState.aez_hash`, the tweakable hash of a nonce and a list of associated-data strings, and
`_AEZState.aez_prf`, the counter-mode stream that an authenticator-only ciphertext consists of.
The nonce and every associated-data string go through the same block walk; only its tweak block
differs (`J[2]` for the nonce, `(5 + k) * J[0]` for string `k`).
-/

namespace Aezeed

/-- The `while n_bytes >= BLOCK_SIZE` loop of `aez_hash` over a string `s`, run `count` times:
block `i` (counted from 1) is encrypted by `AES4(j, I_tmp, L[i % 8], block)` into the sum, and
`I_tmp` doubles after every eighth block. -/
def AEZState.hashBlocks (st : AEZState) (j s : Bytes) :
    Nat → (sum iTmp : Bytes) → (offset i : Nat) → Bytes
  | 0, sum, _, _, _ => sum
  | count + 1, sum, iTmp, offset, i =>
    let block := slice s offset (offset + 16)
    let tmp := setSlice mkBlock 0 16 block
    let buf := st.aes.aes4 j iTmp (st.L.getD (i % 8) mkBlock) tmp
    let sum := xorBytes1x16 sum buf
    let iTmp := if i % 8 = 0 then doubleBlock iTmp else iTmp
    st.hashBlocks j s count sum iTmp (offset + 16) (i + 1)

/-- One string of `aez_hash` (the nonce, or a piece of associated data) with tweak block `j`
added into `sum`: its full blocks, then, if a partial block is left or the string is empty, the
`0x80`-padded rest through `AES4(j, I[0], L[0], buf)`. -/
def AEZState.hashString (st : AEZState) (j s sum : Bytes) : Bytes :=
  let empty := s.isEmpty
  let count := s.length / 16
  let sum := st.hashBlocks j s count sum (st.I.getD 1 mkBlock) 0 1
  let offset := 16 * count
  let nBytes := s.length - offset
  if nBytes > 0 ∨ empty then
    let buf := mkBlock
    let buf := if ¬empty then setSlice buf 0 nBytes (slice s offset (offset + nBytes)) else buf
    let buf := buf.set nBytes 0x80#8
    xorBytes1x16 sum (st.aes.aes4 j (st.I.getD 0 mkBlock) (st.L.getD 0 mkBlock) buf)
  else sum

/-- The `for k, piece in enumerate(ad)` loop of `aez_hash`, from piece number `k` on. -/
def AEZState.hashAd (st : AEZState) : Nat → List Bytes → Bytes → Bytes
  | _, [], sum => sum
  | k, piece :: ad, sum =>
    st.hashAd (k + 1) ad (st.hashString (multBlock (5 + k) (st.J.getD 0 mkBlock)) piece sum)

/-- `_AEZState.aez_hash(nonce, ad, tau)`, with `none` for `nonce=None`. -/
def AEZState.aezHash (st : AEZState) (nonce : Option Bytes) (ad : List Bytes) (tau : Nat) :
    Bytes :=
  let buf := setSlice mkBlock 12 16 (toBytesBE 4 (tau % 2 ^ 32))
  let jTmp := xorBytes1x16 (st.J.getD 0 mkBlock) (st.J.getD 1 mkBlock)
  let sum := st.aes.aes4 jTmp (st.I.getD 1 mkBlock) (st.L.getD 1 mkBlock) buf
  let sum := st.hashString (st.J.getD 2 mkBlock) (nonce.getD []) sum
  st.hashAd 0 ad sum

/-- The `for idx in range(15, -1, -1)` loop of `aez_prf` from byte `idx` down: the big-endian
increment of the counter block. -/
def ctrIncrement (ctr : Bytes) : Nat → Bytes
  | 0 => ctr.set 0 (ctr.getD 0 0 + 1)
  | idx + 1 =>
    let ctr := ctr.set (idx + 1) (ctr.getD (idx + 1) 0 + 1)
    if ctr.getD (idx + 1) 0 ≠ 0 then ctr else ctrIncrement ctr idx

/-- The `while remaining >= BLOCK_SIZE` loop of `aez_prf`, run `count` times: block `AES10(L[3],
delta xor ctr)` goes to `dst[off:off + 16]` and the counter steps. -/
def AEZState.prfBlocks (st : AEZState) (delta : Bytes) :
    Nat → (ctr dst : Bytes) → (off : Nat) → Bytes × Bytes
  | 0, ctr, dst, _ => (ctr, dst)
  | count + 1, ctr, dst, off =>
    let buf := st.aes.aes10 (st.L.getD 3 mkBlock) (xorBytes1x16 delta ctr)
    let dst := setSlice dst off (off + 16) buf
    st.prfBlocks delta count (ctrIncrement ctr 15) dst (off + 16)

/-- `_AEZState.aez_prf(delta, tau, dst)`: the contents of `dst` afterwards. -/
def AEZState.aezPrf (st : AEZState) (delta : Bytes) (tau : Nat) (dst : Bytes) : Bytes :=
  let count := tau / 16
  let (ctr, dst) := st.prfBlocks delta count mkBlock dst 0
  let off := 16 * count
  let remaining := tau - off
  if remaining > 0 then
    let buf := st.aes.aes10 (st.L.getD 3 mkBlock) (xorBytes1x16 delta ctr)
    setSlice dst off (off + remaining) (buf.take remaining)
  else dst

theorem length_prfBlocks (st : AEZState) (delta : Bytes) (count : Nat) :
    ∀ (ctr dst : Bytes) (off : Nat), off + 16 * count ≤ dst.length →
      (st.prfBlocks delta count ctr dst off).2.length = dst.length := by
  induction count with
  | zero => intro _ _ _ _; rfl
  | succ count ih =>
    intro ctr dst off hlen
    have hset := length_setSlice (a := dst) (show off ≤ off + 16 by omega) (by omega)
      (v := st.aes.aes10 (st.L.getD 3 mkBlock) (xorBytes1x16 delta ctr)) (by simp)
    rw [AEZState.prfBlocks, ih _ _ _ (by omega), hset]

/-- `aez_prf(delta, tau, dst)` writes inside a `dst` of at least `tau` bytes. -/
theorem length_aezPrf (st : AEZState) (delta : Bytes) {tau : Nat} {dst : Bytes}
    (htau : tau ≤ dst.length) : (st.aezPrf delta tau dst).length = dst.length := by
  have hblocks := length_prfBlocks st delta (tau / 16) mkBlock dst 0 (by omega)
  simp only [AEZState.aezPrf]
  generalize st.prfBlocks delta (tau / 16) mkBlock dst 0 = r at hblocks
  obtain ⟨ctr, dst'⟩ := r
  dsimp only at hblocks ⊢
  split_ifs
  · exact (length_setSlice (by omega) (by omega) (by simp; omega)).trans hblocks
  · exact hblocks

end Aezeed
