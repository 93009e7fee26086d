import Aezeed.Decrypt
import Aezeed.Mnemonic

/-!
# Decoding a mnemonic

`decode_mnemonic(words, passphrase, word_to_index)` packs the 24 words into the 33-byte envelope
`version || ciphertext || salt || checksum`, checks the version byte and the CRC-32C checksum,
derives the key from `"aezeed" + passphrase` and the salt by scrypt, and decrypts the 23-byte
ciphertext with `version || salt` as associated data and a 4-byte tag. scrypt and BLAKE2b are
parameters of the model: arbitrary functions.

For a word table that maps 2048 words one-to-one onto `[0, 2048)`, decoding returns a seed
exactly on the words of its LND encoding (`decodeMnemonic_eq_ok_iff`): the version and checksum
checks pin the envelope's frame, and on 23 bytes decryption is the inverse of `aez_tiny`.
-/

namespace Aezeed

def defaultPassphrase : String := "aezeed"

structure DecipheredCipherSeed where
  entropy : Bytes
  salt : Bytes
  internalVersion : Nat
  birthday : Nat
  deriving DecidableEq, Repr

/-- `s.encode("utf-8")`. -/
def utf8Encode (s : String) : Bytes := s.toUTF8.data.toList.map fun b => BitVec.ofNat 8 b.toNat

/-- `_encode_ad(version, salt)`: `bytes([version]) + salt`. -/
def encodeAd (version : BitVec 8) (salt : Bytes) : Bytes := version :: salt

/-- `decode_mnemonic` from the envelope `cipher_bytes` on: the version and checksum checks, the
key derivation `hashlib.scrypt(pass_bytes, salt=salt, n=32768, r=8, p=1, dklen=32)`, here the
function `scrypt` of the password and the salt, and the decryption. -/
def decodeCipherBytes (scrypt : Bytes → Bytes → Bytes) (blake2b : Blake2b) (cipherBytes : Bytes)
    (passphrase : String) : Except AezeedError DecipheredCipherSeed :=
  let version := cipherBytes.getD 0 0
  if version.toNat ≠ cipherSeedVersion then .error (.invalidMnemonic "unsupported aezeed version")
  else
    let checksum := fromBytesBE (cipherBytes.drop (cipherBytes.length - 4))
    let computed := (crc32c (cipherBytes.take (encipheredCipherSeedSize - 4))).toNat
    if checksum ≠ computed then .error (.invalidMnemonic "checksum mismatch")
    else
      let salt := slice cipherBytes (encipheredCipherSeedSize - 4 - saltSize)
        (encipheredCipherSeedSize - 4)
      let ciphertext := slice cipherBytes 1 (encipheredCipherSeedSize - 4 - saltSize)
      let key := scrypt (utf8Encode (defaultPassphrase ++ passphrase)) salt
      let ad := encodeAd version salt
      match aezDecrypt blake2b key [ad] cipherTextExpansion ciphertext with
      | none => .error (.invalidPassphrase "invalid passphrase")
      | some plaintext =>
        if plaintext.length ≠ decipheredCipherSeedSize then
          .error (.invalidPassphrase "invalid passphrase")
        else
          .ok { entropy := plaintext.drop 3, salt := salt,
                internalVersion := (plaintext.getD 0 0).toNat,
                birthday := fromBytesBE (slice plaintext 1 3) }

/-- `decode_mnemonic(words, passphrase, word_to_index)`. A `passphrase` of `None` behaves as the
empty string. -/
def decodeMnemonic (scrypt : Bytes → Bytes → Bytes) (blake2b : Blake2b) (words : List String)
    (passphrase : String) (wordToIndex : String → Option Nat) :
    Except AezeedError DecipheredCipherSeed :=
  match mnemonicToBytes words wordToIndex with
  | .error e => .error e
  | .ok cipherBytes => decodeCipherBytes scrypt blake2b cipherBytes passphrase

/-! ## The LND encoding -/

/-- A word list: `word_to_index` maps its 2048 words one-to-one onto `[0, 2048)` and knows no
other word. -/
structure WordTable where
  word : Fin 2048 → String
  wordToIndex : String → Option Nat
  wordToIndex_word : ∀ k, wordToIndex (word k) = some k
  word_of_wordToIndex : ∀ w k, wordToIndex w = some k → ∃ h : k < 2048, word ⟨k, h⟩ = w

/-- The LND envelope of the seed `(v, b, e, s)` under passphrase `p`: `0x00 || C || s ||
be32(crc32c(0x00 || C || s))`, with `C` the encipherment of `v || be16(b) || e || 0^4` on the
state keyed by `scrypt("aezeed" + p, s)`, under `delta = aez_hash(None, [0x00 || s], 32)`. -/
def lndEnvelope (scrypt : Bytes → Bytes → Bytes) (blake2b : Blake2b) (passphrase : String)
    (v b : Nat) (e s : Bytes) : Bytes :=
  let st := AEZState.init blake2b (scrypt (utf8Encode (defaultPassphrase ++ passphrase)) s)
  let delta := st.aezHash none [0 :: s] 32
  let C := st.encipher delta (BitVec.ofNat 8 v :: toBytesBE 2 b ++ e ++ List.replicate 4 0)
    (List.replicate 23 0)
  let body := 0 :: C ++ s
  body ++ toBytesBE 4 (crc32c body).toNat

/-- The 24 words of the LND encoding: the successive 11-bit groups of the envelope. -/
def lndWords (table : WordTable) (scrypt : Bytes → Bytes → Bytes) (blake2b : Blake2b)
    (passphrase : String) (v b : Nat) (e s : Bytes) : List String :=
  List.ofFn fun w => table.word (unpackIndices (lndEnvelope scrypt blake2b passphrase v b e s) w)

/-! ## Decoding the LND envelope -/

theorem length_lndCiphertext (blake2b : Blake2b) (key s : Bytes) (M : Bytes) (hM : M.length = 23) :
    ((AEZState.init blake2b key).encipher ((AEZState.init blake2b key).aezHash none [0 :: s] 32) M
      (List.replicate 23 0)).length = 23 := by
  rw [encipher_of_lt _ _ _ _ (by omega) (by omega), length_aezTiny _ _ _ _ _ (length_delta _ _ _ _)
    (by omega) (by omega) (by simp [hM]), List.length_replicate]

/-- The seed fields as `decode_mnemonic` reads them back from the 19-byte plaintext
`v || be16(b) || e`. -/
theorem seed_fields (v b : Nat) (e : Bytes) (hv : v < 256) (hb : b < 2 ^ 16) :
    (BitVec.ofNat 8 v :: toBytesBE 2 b ++ e).drop 3 = e ∧
      ((BitVec.ofNat 8 v :: toBytesBE 2 b ++ e).getD 0 0).toNat = v ∧
      fromBytesBE (slice (BitVec.ofNat 8 v :: toBytesBE 2 b ++ e) 1 3) = b := by
  refine ⟨List.drop_left' (by simp), by simp [Nat.mod_eq_of_lt hv], ?_⟩
  rw [slice, List.cons_append, List.drop_one, List.tail_cons, List.take_left' (by simp),
    fromBytesBE_toBytesBE, Nat.mod_eq_of_lt (by omega)]

theorem decodeCipherBytes_lndEnvelope (scrypt : Bytes → Bytes → Bytes) (blake2b : Blake2b)
    (passphrase : String) (v b : Nat) (e s : Bytes) (he : e.length = 16) (hs : s.length = 5)
    (hv : v < 256) (hb : b < 2 ^ 16) :
    decodeCipherBytes scrypt blake2b (lndEnvelope scrypt blake2b passphrase v b e s) passphrase =
      .ok ⟨e, s, v, b⟩ := by
  have hM : (BitVec.ofNat 8 v :: toBytesBE 2 b ++ e ++ List.replicate 4 0).length = 23 := by
    simp [he]
  simp only [lndEnvelope]
  generalize hK : scrypt (utf8Encode (defaultPassphrase ++ passphrase)) s = K
  have hC := length_lndCiphertext blake2b K s _ hM
  generalize hCdef : (AEZState.init blake2b K).encipher ((AEZState.init blake2b K).aezHash none
    [0 :: s] 32) (BitVec.ofNat 8 v :: toBytesBE 2 b ++ e ++ List.replicate 4 0)
    (List.replicate 23 0) = C at hC
  generalize hT : toBytesBE 4 (crc32c (0 :: C ++ s)).toNat = T
  have hbody : (0 :: C ++ s).length = 29 := by simp [hC, hs]
  have hlen : (0 :: C ++ s ++ T).length = 33 := by simp [hC, hs, ← hT]
  have hsalt : slice (0 :: C ++ s ++ T) 24 29 = s := by
    rw [slice, List.append_assoc, List.drop_left' (by simp [hC]), List.take_left' hs]
  have hct : slice (0 :: C ++ s ++ T) 1 24 = C := by
    rw [slice, List.append_assoc, List.cons_append, List.drop_one, List.tail_cons,
      List.take_left' hC]
  have hchk : fromBytesBE (T) = (crc32c (0 :: C ++ s)).toNat := by
    rw [← hT, fromBytesBE_toBytesBE, Nat.mod_eq_of_lt (by simpa using (crc32c _).isLt)]
  have hP : aezDecrypt blake2b K [encodeAd 0 s] 4 C =
      some (BitVec.ofNat 8 v :: toBytesBE 2 b ++ e) := by
    refine (aezDecrypt_tiny_iff blake2b K _ 4 C _ (by omega) (by omega)).2
      (.inr ⟨by omega, by simp [he, hC], ?_⟩)
    rw [hC, ← hCdef]
    rfl
  obtain ⟨h1, h2, h3⟩ := seed_fields v b e hv hb
  have hv0 : (0 :: C ++ s ++ T).getD 0 0 = 0 := rfl
  simp only [decodeCipherBytes, encipheredCipherSeedSize, saltSize, cipherTextExpansion,
    decipheredCipherSeedSize, cipherSeedVersion, hlen, hv0, List.drop_left' hbody,
    List.take_left' hbody, hchk, hsalt, hct, hK, hP, h1, h2, h3]
  simp [he]

theorem take_envelope (cb : Bytes) (hcb : cb.length = 33) :
    cb.take 29 = (cb.getD 0 0 :: slice cb 1 24) ++ slice cb 24 29 := by
  obtain ⟨a, rest, rfl⟩ : ∃ a rest, cb = a :: rest := by
    cases cb with
    | nil => simp at hcb
    | cons a rest => exact ⟨a, rest, rfl⟩
  simp only [slice, List.take_succ_cons, List.getD_cons_zero, List.drop_one, List.tail_cons,
    List.cons_append, List.drop_succ_cons]
  rw [show (28 : Nat) = 23 + 5 from rfl, List.take_add]
  rfl

theorem seed_fields_eq (P : Bytes) (hP : P.length = 19) :
    BitVec.ofNat 8 (P.getD 0 0).toNat :: toBytesBE 2 (fromBytesBE (slice P 1 3)) ++ P.drop 3 = P := by
  obtain ⟨a, rest, rfl⟩ : ∃ a rest, P = a :: rest := by
    cases P with
    | nil => simp at hP
    | cons a rest => exact ⟨a, rest, rfl⟩
  have h2 : (rest.take 2).length = 2 := by simp at hP ⊢; omega
  simp only [slice, List.getD_cons_zero, BitVec.ofNat_toNat, BitVec.setWidth_eq, List.drop_one,
    List.tail_cons, List.drop_succ_cons, List.cons_append, show 3 - 1 = 2 from rfl]
  have hb := toBytesBE_fromBytesBE (rest.take 2)
  rw [h2] at hb
  rw [List.drop_zero, hb, List.take_append_drop]

theorem lndEnvelope_of_decodeCipherBytes (scrypt : Bytes → Bytes → Bytes) (blake2b : Blake2b)
    (passphrase : String) (cb : Bytes) (hcb : cb.length = 33) (e s : Bytes) (v b : Nat)
    (h : decodeCipherBytes scrypt blake2b cb passphrase = .ok ⟨e, s, v, b⟩) :
    cb = lndEnvelope scrypt blake2b passphrase v b e s := by
  simp only [decodeCipherBytes, encipheredCipherSeedSize, saltSize, cipherTextExpansion,
    decipheredCipherSeedSize, cipherSeedVersion, hcb] at h
  split_ifs at h with hver hchk
  simp only [show 33 - 4 = 29 from rfl, show 33 - 4 - 5 = 24 from rfl, ne_eq, not_not] at hchk h hver
  split at h
  · cases h
  rename_i P hP
  split_ifs at h with hlen
  simp only [Except.ok.injEq, DecipheredCipherSeed.mk.injEq] at h
  obtain ⟨rfl, rfl, rfl, rfl⟩ := h
  have hv0 : cb.getD 0 0 = 0 := BitVec.eq_of_toNat_eq hver
  rw [hv0] at hP
  rcases (aezDecrypt_tiny_iff blake2b _ _ 4 _ P (by simp [hcb]) (by simp [hcb])).1 hP with
    ⟨h, -⟩ | ⟨-, -, henc⟩
  · simp [hcb] at h
  rw [← seed_fields_eq P hlen, show (slice cb 1 24).length = 23 by simp [hcb],
    show encodeAd 0 (slice cb 24 29) = 0 :: slice cb 24 29 from rfl,
    show 8 * 4 = 32 from rfl] at henc
  have h4 : (cb.drop 29).length = 4 := by simp [hcb]
  have hdrop : cb.drop 29 = toBytesBE 4 (crc32c (cb.take 29)).toNat := by
    rw [← hchk, ← h4, toBytesBE_fromBytesBE]
  conv_lhs => rw [← List.take_append_drop 29 cb, hdrop, take_envelope cb hcb, hv0]
  simp only [lndEnvelope, henc]

/-- With a word table, `mnemonic_to_bytes` succeeds only on the words that spell the 11-bit groups
of the envelope it returns. -/
theorem mnemonicToBytes_table (table : WordTable) (words : List String) (cb : Bytes)
    (h : mnemonicToBytes words table.wordToIndex = .ok cb) :
    cb.length = 33 ∧ words = List.ofFn fun w => table.word (unpackIndices cb w) := by
  obtain ⟨hlen, hknown⟩ := mnemonicToBytes_ok words _ h
  have hidx : ∀ j : Fin 24, ∃ k : Fin 2048, table.word k = words.get ⟨j, by omega⟩ := by
    intro j
    obtain ⟨k, hk⟩ := Option.isSome_iff_exists.1 (hknown _ (List.get_mem _ _ _))
    obtain ⟨hk', hw⟩ := table.word_of_wordToIndex _ _ hk
    exact ⟨⟨k, hk'⟩, hw⟩
  choose idx hidx using hidx
  have hwords : words = List.ofFn fun j => table.word (idx j) :=
    List.ext_get (by simp [hlen]) fun n _ h2 => by
      rw [List.get_ofFn]
      exact (hidx ⟨n, by simpa using h2⟩).symm
  have hmap : words.map table.wordToIndex = List.ofFn fun j => some (idx j : Nat) := by
    rw [hwords, List.map_ofFn]
    exact congrArg List.ofFn (funext fun j => table.wordToIndex_word (idx j))
  rw [mnemonicToBytes_ofFn words _ idx hmap, Except.ok.injEq] at h
  subst h
  exact ⟨(packIndices idx).2, by rw [unpackIndices_packIndices]; exact hwords⟩

theorem mnemonicToBytes_ofFn_unpackIndices (table : WordTable) (E : Bytes) (hE : E.length = 33) :
    mnemonicToBytes (List.ofFn fun w => table.word (unpackIndices E w)) table.wordToIndex =
      .ok E := by
  rw [mnemonicToBytes_ofFn _ _ (unpackIndices E), packIndices_unpackIndices E hE]
  rw [List.map_ofFn]
  exact congrArg List.ofFn (funext fun j => table.wordToIndex_word _)

theorem length_lndEnvelope (scrypt : Bytes → Bytes → Bytes) (blake2b : Blake2b)
    (passphrase : String) (v b : Nat) (e s : Bytes) (he : e.length = 16) (hs : s.length = 5) :
    (lndEnvelope scrypt blake2b passphrase v b e s).length = 33 := by
  simp only [lndEnvelope, List.length_append, List.length_cons, length_toBytesBE, hs,
    length_lndCiphertext _ _ _ _ (by simp [he] : (BitVec.ofNat 8 v :: toBytesBE 2 b ++ e ++
      List.replicate 4 0).length = 23)]

/-- For a word table that maps 2048 words one-to-one onto `[0, 2048)`, with scrypt and BLAKE2b
arbitrary: `decode_mnemonic` returns the seed `(e, s, v, b)` exactly on the 24 words of its LND
encoding under the passphrase. -/
theorem decodeMnemonic_eq_ok_iff (scrypt : Bytes → Bytes → Bytes) (blake2b : Blake2b)
    (table : WordTable) (words : List String) (passphrase : String) (e s : Bytes) (v b : Nat)
    (he : e.length = 16) (hs : s.length = 5) (hv : v < 256) (hb : b < 2 ^ 16) :
    decodeMnemonic scrypt blake2b words passphrase table.wordToIndex = .ok ⟨e, s, v, b⟩ ↔
      words = lndWords table scrypt blake2b passphrase v b e s := by
  constructor
  · intro h
    unfold decodeMnemonic at h
    split at h
    · cases h
    · rename_i cb hcb
      obtain ⟨hlen, hwords⟩ := mnemonicToBytes_table table words cb hcb
      rw [hwords, lndEnvelope_of_decodeCipherBytes scrypt blake2b passphrase cb hlen e s v b h]
      rfl
  · rintro rfl
    rw [decodeMnemonic, lndWords, mnemonicToBytes_ofFn_unpackIndices table _
      (length_lndEnvelope scrypt blake2b passphrase v b e s he hs)]
    exact decodeCipherBytes_lndEnvelope scrypt blake2b passphrase v b e s he hs hv hb

/-- A word table in which the word of index `k` is `k` letters `a`. -/
def unaryTable : WordTable where
  word k := String.mk (List.replicate k 'a')
  wordToIndex w := if w.length < 2048 ∧ w.data = List.replicate w.length 'a' then some w.length
    else none
  wordToIndex_word k := by simp [String.length]
  word_of_wordToIndex w k h := by
    dsimp only at h
    split at h
    · rename_i hw
      cases h
      exact ⟨hw.1, String.ext hw.2.symm⟩
    · cases h

theorem decodeMnemonic_eq_ok_iff_zero_seed :
    (List.replicate 16 (0 : BitVec 8)).length = 16 ∧ (List.replicate 5 (0 : BitVec 8)).length = 5 ∧
      0 < 256 ∧ 0 < 2 ^ 16 ∧
      (decodeMnemonic (fun _ _ => List.replicate 32 0)
        ⟨fun _ size => List.replicate size 0, fun _ _ => List.length_replicate _ _⟩
        (lndWords unaryTable (fun _ _ => List.replicate 32 0)
          ⟨fun _ size => List.replicate size 0, fun _ _ => List.length_replicate _ _⟩ "" 0 0
          (List.replicate 16 0) (List.replicate 5 0)) ""
        unaryTable.wordToIndex = .ok ⟨List.replicate 16 0, List.replicate 5 0, 0, 0⟩ ↔
      lndWords unaryTable (fun _ _ => List.replicate 32 0)
          ⟨fun _ size => List.replicate size 0, fun _ _ => List.length_replicate _ _⟩ "" 0 0
          (List.replicate 16 0) (List.replicate 5 0) =
        lndWords unaryTable (fun _ _ => List.replicate 32 0)
          ⟨fun _ size => List.replicate size 0, fun _ _ => List.length_replicate _ _⟩ "" 0 0
          (List.replicate 16 0) (List.replicate 5 0)) :=
  ⟨by decide, by decide, by decide, by decide, decodeMnemonic_eq_ok_iff _ _ unaryTable _ "" _ _ 0 0
    (by decide) (by decide) (by decide) (by decide)⟩

end Aezeed
