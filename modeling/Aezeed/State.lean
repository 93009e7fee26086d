import Aezeed.AesRound

/-!
# The AEZ state

`_extract_key` and `_AEZState.init`: the tweak blocks `I`, `J`, `L` and the AES round keys,
all derived from the 48-byte extracted key. `hashlib.blake2b` is a parameter of the model: only
its call `blake2b(key, digest_size=48)` is used.
-/

namespace Aezeed

abbrev extractedKeySize : Nat := 48

/-- `hashlib.blake2b(data, digest_size=size).digest()`: any function that returns a digest of
`size` bytes. -/
structure Blake2b where
  digest : Bytes → Nat → Bytes
  length_digest : ∀ data size, (digest data size).length = size

def extractKey (blake2b : Blake2b) (key : Bytes) : Bytes :=
  if key.length = extractedKeySize then key else blake2b.digest key extractedKeySize

theorem length_extractKey (blake2b : Blake2b) (key : Bytes) :
    (extractKey blake2b key).length = 48 := by
  unfold extractKey
  split_ifs with h
  · exact h
  · exact blake2b.length_digest _ _

/-- An `_AEZState` once `init` has run. Its `aes` field is set, so the `assert self.aes is not
None` that opens every method below holds. -/
structure AEZState where
  I : List Bytes
  J : List Bytes
  L : List Bytes
  aes : AESRound

/-- `_AEZState()` followed by `reset()` and `init(key)`: construction and `reset` leave every
block zero, and `init` overwrites all of them but `L[0]`. -/
def AEZState.init (blake2b : Blake2b) (key : Bytes) : AEZState :=
  let extracted := extractKey blake2b key
  let i0 := slice extracted 0 16
  let j0 := slice extracted 16 32
  let j1 := multBlock 2 j0
  let l1 := slice extracted 32 48
  let l2 := multBlock 2 l1
  let l3 := xorBytes1x16 l2 l1
  let l4 := multBlock 2 l2
  let l6 := multBlock 2 l3
  { I := [i0, multBlock 2 i0]
    J := [j0, j1, multBlock 2 j1]
    L := [mkBlock, l1, l2, l3, l4, xorBytes1x16 l4 l1, l6, xorBytes1x16 l6 l1]
    aes := AESRound.new extracted }

/-- The blocks of a state derived from the key thirds `I`, `J`, `L`: `I[k] = (k + 1) * I`,
`J[k] = 2^k * J` and `L[k] = k * L` in GF(2^128). -/
structure AEZState.Derived (st : AEZState) (I J L : Bytes) : Prop where
  length_I : I.length = 16
  length_J : J.length = 16
  length_L : L.length = 16
  getD_I : ∀ k < 2, st.I.getD k mkBlock = gfMulBlock (k + 1) I
  getD_J : ∀ k < 3, st.J.getD k mkBlock = gfMulBlock (2 ^ k) J
  getD_L : ∀ k < 8, st.L.getD k mkBlock = gfMulBlock k L

theorem length_slice_extractKey (blake2b : Blake2b) (key : Bytes) (i : Nat) (hi : i ≤ 32) :
    (slice (extractKey blake2b key) i (i + 16)).length = 16 := by
  simp [slice, length_extractKey]
  omega

/-- `init` derives every block of the state from the three thirds of the extracted key. -/
theorem init_derived (blake2b : Blake2b) (key : Bytes) :
    (AEZState.init blake2b key).Derived (slice (extractKey blake2b key) 0 16)
      (slice (extractKey blake2b key) 16 32) (slice (extractKey blake2b key) 32 48) := by
  have hI := length_slice_extractKey blake2b key 0 (by omega)
  have hJ := length_slice_extractKey blake2b key 16 (by omega)
  have hL := length_slice_extractKey blake2b key 32 (by omega)
  simp only [AEZState.init]
  generalize slice (extractKey blake2b key) 0 16 = I at hI ⊢
  generalize slice (extractKey blake2b key) 16 32 = J at hJ ⊢
  generalize slice (extractKey blake2b key) 32 48 = L at hL ⊢
  have hxor : ∀ a, xorBytes1x16 (gfMulBlock a L) L = gfMulBlock (a ^^^ 1) L := fun a => by
    have h := xorBytes1x16_gfMulBlock a 1 L hL
    rwa [gfMulBlock_one L hL] at h
  simp only [multBlock_eq_gfMulBlock 2 _ hI, multBlock_eq_gfMulBlock 2 _ hJ,
    multBlock_eq_gfMulBlock 2 _ hL, multBlock_gfMulBlock _ _ hJ, multBlock_gfMulBlock _ _ hL,
    hxor]
  refine ⟨hI, hJ, hL, fun k hk => ?_, fun k hk => ?_, fun k hk => ?_⟩ <;> interval_cases k <;>
    simp [gfMulBlock_one _ hI, gfMulBlock_one _ hJ, gfMulBlock_one _ hL, gfMulBlock_zero]

end Aezeed
