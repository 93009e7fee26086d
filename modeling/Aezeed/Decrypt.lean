import Aezeed.CoreSpec
import Aezeed.TinySpec
import Aezeed.HashSpec

/-!
# aez decryption

`_aez_decrypt(key, ad_list, tau, ciphertext)` initialises the state with the key, hashes the
associated data into `delta`, and then either compares the ciphertext with the `aez_prf` stream
(when it is `tau` bytes long) or deciphers it into a zero buffer, checks that the last `tau`
bytes came out zero and returns the rest.

On messages of fewer than 32 bytes `encipher` and `decipher` undo each other
(`decipher_encipher_of_lt`), and on every ciphertext shorter than 32 bytes and at least as long
as the tag decryption accepts exactly the encryptions of the plaintexts it returns
(`aezDecrypt_eq_some_iff`, from `aezDecrypt_tiny_iff` and `aezDecrypt_prf_iff`). On the
`aez_core` path `aez_core` never
writes the last `32 + len % 32` bytes of the buffer, so every ciphertext of 32 bytes or more whose
tag lies there is accepted (`aezDecrypt_accepts_core`).
-/

namespace Aezeed

/-- `mismatch |= f(i)` for `i in range(tau)`, from `mismatch = 0`. -/
def mismatchOr (tau : Nat) (f : Nat → BitVec 8) : BitVec 8 :=
  (List.range tau).foldl (fun mismatch i => mismatch ||| f i) 0

/-- `_aez_decrypt(key, ad_list, tau, ciphertext)`, with `none` for `None`. For a ciphertext
shorter than `tau` the source reads `x` at negative indices, from its end; the model reads zeros
there. -/
def aezDecrypt (blake2b : Blake2b) (key : Bytes) (ad : List Bytes) (tau : Nat)
    (ciphertext : Bytes) : Option Bytes :=
  let st := AEZState.init blake2b key
  let delta := st.aezHash none ad (tau * 8)
  let x := List.replicate ciphertext.length 0
  if ciphertext.length = tau then
    let x := st.aezPrf delta tau x
    if mismatchOr tau (fun i => x.getD i 0 ^^^ ciphertext.getD i 0) ≠ 0 then none else some []
  else
    let x := st.decipher delta ciphertext x
    if mismatchOr tau (fun i => x.getD (ciphertext.length - tau + i) 0) ≠ 0 then none
    else some (x.take (ciphertext.length - tau))

/-- `C` is the AEZ encryption of `P` under `(key, ad, tau)`, with `delta = aez_hash(None, ad,
8 * tau)`: for `|C| = tau`, `P` is empty and `C` is the `aez_prf` stream; otherwise `C` is what
`encipher` writes for `P || 0^tau` into a fresh zero buffer. -/
def AezEncrypts (blake2b : Blake2b) (key : Bytes) (ad : List Bytes) (tau : Nat) (P C : Bytes) :
    Prop :=
  let st := AEZState.init blake2b key
  let delta := st.aezHash none ad (8 * tau)
  (C.length = tau ∧ P = [] ∧ C = st.aezPrf delta tau (List.replicate tau 0)) ∨
    (tau < C.length ∧ P.length = C.length - tau ∧
      st.encipher delta (P ++ List.replicate tau 0) (List.replicate C.length 0) = C)

theorem or_eq_zero_iff (a b : BitVec 8) : a ||| b = 0 ↔ a = 0 ∧ b = 0 := by
  refine ⟨fun h => ?_, fun h => by rw [h.1, h.2]; rfl⟩
  have hbit : ∀ i, a.getLsbD i = false ∧ b.getLsbD i = false := fun i => by
    simpa using congrArg (BitVec.getLsbD · i) h
  exact ⟨BitVec.eq_of_getLsbD_eq fun i => by simp [(hbit i).1],
    BitVec.eq_of_getLsbD_eq fun i => by simp [(hbit i).2]⟩

theorem mismatchOr_eq_zero_iff (tau : Nat) (f : Nat → BitVec 8) :
    mismatchOr tau f = 0 ↔ ∀ i < tau, f i = 0 := by
  induction tau with
  | zero => simp [mismatchOr]
  | succ tau ih =>
    rw [mismatchOr, List.range_succ, List.foldl_append, ← mismatchOr, List.foldl_cons,
      List.foldl_nil, or_eq_zero_iff, ih]
    constructor
    · rintro ⟨h, h'⟩ i hi
      rcases Nat.lt_succ_iff_lt_or_eq.1 hi with hi | rfl
      exacts [h i hi, h']
    · exact fun h => ⟨fun i hi => h i (by omega), h tau (by omega)⟩

theorem getD_eq_zero_iff_drop {x : Bytes} {n tau : Nat} (hx : x.length = n) (htau : tau ≤ n) :
    (∀ i < tau, x.getD (n - tau + i) 0 = 0) ↔ x.drop (n - tau) = List.replicate tau 0 := by
  rw [List.eq_replicate_iff, List.length_drop, hx]
  simp only [List.mem_iff_getElem, List.getElem_drop, List.length_drop, hx]
  constructor
  · refine fun h => ⟨by omega, ?_⟩
    rintro b ⟨i, hi, rfl⟩
    have hi' := h i (by omega)
    rwa [List.getD_eq_getElem?_getD, List.getElem?_eq_getElem (by omega), Option.getD_some] at hi'
  · rintro ⟨-, h⟩ i hi
    rw [List.getD_eq_getElem?_getD, List.getElem?_eq_getElem (by omega), Option.getD_some]
    exact h _ ⟨i, by omega, rfl⟩

theorem length_delta (blake2b : Blake2b) (key : Bytes) (ad : List Bytes) (tau : Nat) :
    ((AEZState.init blake2b key).aezHash none ad tau).length = 16 :=
  length_aezHash _ _ _ _ (init_derived blake2b key) none ad tau

/-- Off the `aez_prf` branch, decryption deciphers into a zero buffer and accepts when the last
`tau` bytes come out zero. -/
theorem aezDecrypt_of_lt (blake2b : Blake2b) (key : Bytes) (ad : List Bytes) (tau : Nat)
    (C : Bytes) (htau : tau < C.length)
    (hx : ((AEZState.init blake2b key).decipher ((AEZState.init blake2b key).aezHash none ad
      (tau * 8)) C (List.replicate C.length 0)).length = C.length) :
    aezDecrypt blake2b key ad tau C =
      let x := (AEZState.init blake2b key).decipher ((AEZState.init blake2b key).aezHash none ad
        (tau * 8)) C (List.replicate C.length 0)
      if x.drop (C.length - tau) = List.replicate tau 0 then some (x.take (C.length - tau))
      else none := by
  simp only [aezDecrypt, if_neg (show C.length ≠ tau by omega), ne_eq, mismatchOr_eq_zero_iff,
    getD_eq_zero_iff_drop hx htau.le, ite_not]

/-- On the `aez_tiny` path, ciphertexts longer than the tag and shorter than 32 bytes,
decryption returns `P` exactly when the ciphertext is the encryption of `P`. -/
theorem aezDecrypt_tiny_iff (blake2b : Blake2b) (key : Bytes) (ad : List Bytes) (tau : Nat)
    (C P : Bytes) (htau : tau < C.length) (hC : C.length < 32) :
    aezDecrypt blake2b key ad tau C = some P ↔ AezEncrypts blake2b key ad tau P C := by
  have hdelta := length_delta blake2b key ad (tau * 8)
  have hx : ((AEZState.init blake2b key).decipher ((AEZState.init blake2b key).aezHash none ad
      (tau * 8)) C (List.replicate C.length 0)).length = C.length := by
    rw [decipher_of_lt _ _ _ _ (by omega) hC, length_aezTiny _ _ _ _ _ hdelta (by omega)
      (by omega) (by simp), List.length_replicate]
  rw [aezDecrypt_of_lt _ _ _ _ _ htau hx, AezEncrypts, Nat.mul_comm 8 tau]
  revert hx hdelta
  generalize AEZState.init blake2b key = st
  generalize st.aezHash none ad (tau * 8) = delta
  intro hdelta hx
  have hinv := fun m (hm1 : 1 ≤ m.length) (hm : m.length ≤ 31) (hmC : m.length = C.length) =>
    aezTiny_inverse st delta m (List.replicate C.length 0) (List.replicate C.length 0) hdelta hm1
      hm (by simp [hmC]) (by simp [hmC])
  rw [decipher_of_lt _ _ _ _ (by omega) hC] at hx ⊢
  simp only [show C.length ≠ tau by omega, false_and, false_or, htau, true_and]
  constructor
  · intro h
    by_cases hz : (st.aezTiny delta C 1 (List.replicate C.length 0)).drop (C.length - tau) =
        List.replicate tau 0
    · rw [if_pos hz, Option.some.injEq] at h
      subst h
      refine ⟨by rw [List.length_take, hx]; omega, ?_⟩
      rw [← hz, List.take_append_drop, encipher_of_lt _ _ _ _ (by omega) (by omega)]
      exact (hinv C (by omega) (by omega) rfl).2
    · rw [if_neg hz] at h
      cases h
  · rintro ⟨hP, henc⟩
    have hM : (P ++ List.replicate tau 0).length = C.length := by simp [hP]; omega
    rw [encipher_of_lt _ _ _ _ (by omega) (by omega)] at henc
    have hxM := (hinv _ (by omega) (by omega) hM).1
    rw [henc] at hxM
    rw [hxM, List.drop_left' hP, List.take_left' hP, if_pos rfl]

/-- On messages of 1 to 31 bytes, the `aez_tiny` path, `encipher` and `decipher` undo each other,
each writing into a buffer of the message's length. -/
theorem decipher_encipher_of_lt (st : AEZState) (delta m dst dst' : Bytes)
    (hdelta : delta.length = 16) (hm1 : 1 ≤ m.length) (hm : m.length < 32)
    (hdst : dst.length = m.length) (hdst' : dst'.length = m.length) :
    st.decipher delta (st.encipher delta m dst) dst' = m ∧
      st.encipher delta (st.decipher delta m dst) dst' = m := by
  have hlen : ∀ d, (st.aezTiny delta m d dst).length = m.length := fun d =>
    (length_aezTiny st delta m dst d hdelta hm1 (by omega) hdst.ge).trans hdst
  obtain ⟨h01, h10⟩ := aezTiny_inverse st delta m dst dst' hdelta hm1 (by omega) hdst hdst'
  rw [encipher_of_lt _ _ _ _ hm1 hm, decipher_of_lt _ _ _ _ hm1 hm,
    decipher_of_lt _ _ _ _ (by rw [hlen]; exact hm1) (by rw [hlen]; exact hm),
    encipher_of_lt _ _ _ _ (by rw [hlen]; exact hm1) (by rw [hlen]; exact hm)]
  exact ⟨h01, h10⟩

theorem decipher_encipher_of_lt_zero_state :
    (List.replicate 16 (0 : BitVec 8)).length = 16 ∧ 1 ≤ [(1 : BitVec 8)].length ∧
      [(1 : BitVec 8)].length < 32 ∧ [(0 : BitVec 8)].length = [(1 : BitVec 8)].length ∧
      [(0 : BitVec 8)].length = [(1 : BitVec 8)].length ∧
      ((AEZState.init ⟨fun _ size => List.replicate size 0, fun _ _ => List.length_replicate _ _⟩
          ((List.range 48).map (BitVec.ofNat 8))).decipher (List.replicate 16 0)
          ((AEZState.init ⟨fun _ size => List.replicate size 0,
            fun _ _ => List.length_replicate _ _⟩ ((List.range 48).map (BitVec.ofNat 8))).encipher
              (List.replicate 16 0) [1] [0]) [0] = [1] ∧
        (AEZState.init ⟨fun _ size => List.replicate size 0, fun _ _ => List.length_replicate _ _⟩
          ((List.range 48).map (BitVec.ofNat 8))).encipher (List.replicate 16 0)
          ((AEZState.init ⟨fun _ size => List.replicate size 0,
            fun _ _ => List.length_replicate _ _⟩ ((List.range 48).map (BitVec.ofNat 8))).decipher
              (List.replicate 16 0) [1] [0]) [0] = [1]) :=
  ⟨by decide, by decide, by decide, rfl, rfl, decipher_encipher_of_lt _ _ [1] [0] [0]
    (by decide) (by decide) (by decide) rfl rfl⟩

theorem xor_eq_zero_iff {w : Nat} (a b : BitVec w) : a ^^^ b = 0 ↔ a = b :=
  ⟨fun h => by simpa [BitVec.xor_assoc] using congrArg (· ^^^ b) h,
    fun h => h ▸ BitVec.xor_self⟩

theorem getD_xor_eq_zero_iff {x y : Bytes} (hxy : x.length = y.length) :
    (∀ i < y.length, x.getD i 0 ^^^ y.getD i 0 = 0) ↔ x = y := by
  refine ⟨fun h => List.ext_getElem hxy fun i hx hy => ?_, fun h i _ => by
    rw [h, xor_eq_zero_iff]⟩
  have := (xor_eq_zero_iff _ _).1 (h i hy)
  rwa [List.getD_eq_getElem _ _ hx, List.getD_eq_getElem _ _ hy] at this

/-- On the `aez_prf` branch, a ciphertext exactly as long as the tag, decryption returns the
empty plaintext exactly when the ciphertext is the `aez_prf` stream. -/
theorem aezDecrypt_prf_iff (blake2b : Blake2b) (key : Bytes) (ad : List Bytes) (C P : Bytes) :
    aezDecrypt blake2b key ad C.length C = some P ↔ AezEncrypts blake2b key ad C.length P C := by
  have hx := length_aezPrf (AEZState.init blake2b key)
    ((AEZState.init blake2b key).aezHash none ad (C.length * 8))
    (le_of_eq (List.length_replicate C.length (0 : BitVec 8)).symm)
  rw [List.length_replicate] at hx
  simp only [aezDecrypt, AezEncrypts, Nat.mul_comm 8, if_true, lt_irrefl, false_and, or_false,
    true_and, ne_eq, mismatchOr_eq_zero_iff, ite_not]
  generalize (AEZState.init blake2b key).aezPrf _ _ _ = x at hx ⊢
  by_cases h : x = C
  · rw [if_pos ((getD_xor_eq_zero_iff hx).2 h), h]
    exact ⟨fun h' => ⟨(Option.some.inj h').symm, rfl⟩, fun h' => by rw [h'.1]⟩
  · rw [if_neg (mt (getD_xor_eq_zero_iff hx).1 h)]
    exact ⟨fun h' => absurd h' (by simp), fun h' => absurd h'.2.symm h⟩

/-- Decryption is correct on every ciphertext shorter than 32 bytes and at least as long as the
tag: it returns `P` exactly when the ciphertext is the AEZ encryption of `P`. -/
theorem aezDecrypt_eq_some_iff (blake2b : Blake2b) (key : Bytes) (ad : List Bytes) (tau : Nat)
    (C P : Bytes) (htau : tau ≤ C.length) (hC : C.length < 32) :
    aezDecrypt blake2b key ad tau C = some P ↔ AezEncrypts blake2b key ad tau P C := by
  rcases htau.lt_or_eq with h | rfl
  · exact aezDecrypt_tiny_iff blake2b key ad tau C P h hC
  · exact aezDecrypt_prf_iff blake2b key ad C P

theorem aezDecrypt_eq_some_iff_four :
    4 ≤ (List.replicate 23 (0 : BitVec 8)).length ∧ (List.replicate 23 (0 : BitVec 8)).length < 32 ∧
      (aezDecrypt ⟨fun _ size => List.replicate size 0, fun _ _ => List.length_replicate _ _⟩
          (List.replicate 48 7) [[0]] 4 (List.replicate 23 0) = some (List.replicate 19 0) ↔
        AezEncrypts ⟨fun _ size => List.replicate size 0, fun _ _ => List.length_replicate _ _⟩
          (List.replicate 48 7) [[0]] 4 (List.replicate 19 0) (List.replicate 23 0)) :=
  ⟨by decide, by decide, aezDecrypt_eq_some_iff _ _ _ 4 _ _ (by decide) (by decide)⟩

/-- Every ciphertext of 32 bytes or more whose tag lies in its last `32 + |C| mod 32` bytes is
accepted, and it is the encryption of some plaintext only if those bytes are all zero. -/
theorem aezDecrypt_accepts_core (blake2b : Blake2b) (key : Bytes) (ad : List Bytes) (tau : Nat)
    (C : Bytes) (hC : 32 ≤ C.length) (htau : tau ≤ C.length % 32 + 32) (hne : tau < C.length) :
    aezDecrypt blake2b key ad tau C ≠ none ∧
      ∀ P, AezEncrypts blake2b key ad tau P C →
        C.drop (C.length - C.length % 32 - 32) = List.replicate (C.length % 32 + 32) 0 := by
  constructor
  · have hz : ∀ (st : AEZState) (delta : Bytes),
        (st.decipher delta C (List.replicate C.length 0)).length = C.length ∧
          (st.decipher delta C (List.replicate C.length 0)).drop (C.length - tau) =
            List.replicate tau 0 := by
      intro st delta
      have hd := drop_aezCore st delta C (List.replicate C.length 0) 1 hC (by simp)
      rw [decipher_of_le _ _ _ _ hC, length_aezCore _ _ _ _ _ (by simp), List.length_replicate,
        show C.length - tau = (C.length - C.length % 32 - 32) + (C.length % 32 + 32 - tau) by
        omega, ← List.drop_drop, hd, List.drop_replicate, List.drop_replicate]
      exact ⟨rfl, by congr 1; omega⟩
    rw [aezDecrypt_of_lt _ _ _ _ _ hne (hz _ _).1]
    dsimp only
    rw [if_pos (hz _ _).2]
    exact Option.some_ne_none _
  · rintro P (⟨h, -⟩ | ⟨-, hP, henc⟩)
    · omega
    have hlen : (P ++ List.replicate tau 0).length = C.length := by simp [hP]; omega
    rw [encipher_of_le _ _ _ _ (by omega)] at henc
    have hd := drop_aezCore (AEZState.init blake2b key)
      ((AEZState.init blake2b key).aezHash none ad (8 * tau)) (P ++ List.replicate tau 0)
      (List.replicate C.length 0) 0 (by omega) (by rw [hlen, List.length_replicate])
    rw [henc, hlen, List.drop_replicate] at hd
    rw [hd]
    congr 1
    omega

theorem aezDecrypt_accepts_core_ff :
    32 ≤ (List.replicate 32 (0xFF#8)).length ∧ 4 ≤ (List.replicate 32 (0xFF#8)).length % 32 + 32 ∧
      4 < (List.replicate 32 (0xFF#8)).length ∧
      aezDecrypt ⟨fun _ size => List.replicate size 0, fun _ _ => List.length_replicate _ _⟩
          (List.replicate 48 7) [[0]] 4 (List.replicate 32 0xFF#8) ≠ none ∧
      ∀ P, AezEncrypts ⟨fun _ size => List.replicate size 0, fun _ _ => List.length_replicate _ _⟩
          (List.replicate 48 7) [[0]] 4 P (List.replicate 32 0xFF#8) →
        (List.replicate 32 (0xFF#8)).drop 0 = List.replicate 32 0 :=
  ⟨by decide, by decide, by decide,
    aezDecrypt_accepts_core _ (List.replicate 48 7) [[0]] 4 _ (by decide) (by decide) (by decide)⟩

end Aezeed
