import Aezeed.Decode

/-!
# Validating a mnemonic

`validate_mnemonic` accepts 24 known words whose envelope starts with version 0 and ends in the
big-endian CRC-32C of its first 29 bytes. Putting another index in word `q` changes the 264-bit
envelope only in that word's eleven bits, bits `11 * (23 - q)` to `11 * (24 - q) - 1` counted
from the least significant. Words 0 to 20 lie inside the 29 checked bytes, a burst of at most
three bytes that the CRC always detects (`crc32c_ne_of_window`). Word 21 covers the last checked
bit and the top ten bits of the checksum: flipping that bit flips bit 0 of the CRC, which the
stored checksum keeps. Words 22 and 23 change only the stored checksum. So no valid mnemonic has
a valid neighbour one word away, and `decode_mnemonic` rejects the neighbour at its checksum
check, before the key derivation.

Conversely `validate_mnemonic` answers exactly whether `decode_mnemonic` gets past its word,
version and checksum checks, whatever scrypt, BLAKE2b and the passphrase. Past them decoding
fails only with `InvalidPassphraseError`, exactly when the ciphertext encrypts no plaintext under
the passphrase's key.
-/

namespace Aezeed

theorem validateMnemonic_eq_true_iff (words : List String) (wordToIndex : String → Option Nat) :
    validateMnemonic words wordToIndex = true ↔ ∃ E, mnemonicToBytes words wordToIndex = .ok E ∧
      (E.getD 0 0).toNat = cipherSeedVersion ∧
      fromBytesBE (E.drop (E.length - 4)) = (crc32c (E.take 29)).toNat := by
  unfold validateMnemonic
  split <;> rename_i h <;> simp [h, encipheredCipherSeedSize]

/-- Words that `mnemonic_to_bytes` accepts and `validate_mnemonic` rejects make `decode_mnemonic`
raise `InvalidMnemonicError` at its version or checksum check, whatever scrypt, BLAKE2b and the
passphrase: the key derivation is never reached. -/
theorem decodeMnemonic_of_validateMnemonic_eq_false {words : List String}
    {wordToIndex : String → Option Nat} {E : Bytes}
    (hE : mnemonicToBytes words wordToIndex = .ok E)
    (hv : validateMnemonic words wordToIndex = false) (scrypt : Bytes → Bytes → Bytes)
    (blake2b : Blake2b) (passphrase : String) :
    ∃ msg, decodeMnemonic scrypt blake2b words passphrase wordToIndex =
      .error (.invalidMnemonic msg) := by
  rw [validateMnemonic, hE] at hv
  rw [decodeMnemonic, hE]
  dsimp only at hv ⊢
  rw [decodeCipherBytes]
  by_cases hver : (E.getD 0 0).toNat ≠ cipherSeedVersion
  · exact ⟨_, if_pos hver⟩
  · rw [if_neg hver] at hv ⊢
    exact ⟨_, if_pos (by simpa using hv)⟩

/-- `mnemonic_to_bytes` raises only `InvalidMnemonicError`. -/
theorem mnemonicToBytes_error_invalidMnemonic {words : List String}
    {wordToIndex : String → Option Nat} {e : AezeedError}
    (h : mnemonicToBytes words wordToIndex = .error e) : ∃ msg, e = .invalidMnemonic msg := by
  rw [mnemonicToBytes] at h
  split_ifs at h
  · cases h
    exact ⟨_, rfl⟩
  · obtain ⟨-, -, -, -, -, -, rfl⟩ := (packWords_eq_error _ _ _ _ _ _ _).1 h
    exact ⟨_, rfl⟩

/-- `validate_mnemonic` accepts exactly the words on which `decode_mnemonic` raises no
`InvalidMnemonicError`, whatever scrypt, BLAKE2b and the passphrase: both make the same word,
version and checksum checks, and past them decoding fails only with `InvalidPassphraseError`. -/
theorem validateMnemonic_eq_true_iff_decode (scrypt : Bytes → Bytes → Bytes) (blake2b : Blake2b)
    (words : List String) (passphrase : String) (wordToIndex : String → Option Nat) :
    validateMnemonic words wordToIndex = true ↔
      ∀ msg, decodeMnemonic scrypt blake2b words passphrase wordToIndex ≠
        .error (.invalidMnemonic msg) := by
  constructor
  · intro hv msg
    obtain ⟨E, hE, hver, hck⟩ := (validateMnemonic_eq_true_iff words wordToIndex).1 hv
    rw [decodeMnemonic, hE]
    dsimp only
    rw [decodeCipherBytes, if_neg (not_not.2 hver)]
    dsimp only
    rw [if_neg (not_not.2 (show _ = (crc32c (E.take (encipheredCipherSeedSize - 4))).toNat
      from hck))]
    split
    · simp
    · split_ifs <;> simp
  · intro h
    rcases Bool.eq_false_or_eq_true (validateMnemonic words wordToIndex) with hv | hv
    · exact hv
    cases hE : mnemonicToBytes words wordToIndex with
    | error e =>
      obtain ⟨msg, rfl⟩ := mnemonicToBytes_error_invalidMnemonic hE
      exact absurd (by rw [decodeMnemonic, hE]) (h msg)
    | ok E =>
      obtain ⟨msg, hmsg⟩ := decodeMnemonic_of_validateMnemonic_eq_false hE hv scrypt blake2b
        passphrase
      exact absurd hmsg (h msg)

/-- `decode_mnemonic` raises `InvalidPassphraseError` exactly on the words `validate_mnemonic`
accepts whose ciphertext encrypts no plaintext under the key scrypt derives from the passphrase,
and always with the message "invalid passphrase": once decryption succeeds, the plaintext
length check never fails. -/
theorem decodeMnemonic_eq_invalidPassphrase_iff (scrypt : Bytes → Bytes → Bytes) (blake2b : Blake2b)
    (words : List String) (passphrase : String) (wordToIndex : String → Option Nat) (msg : String) :
    decodeMnemonic scrypt blake2b words passphrase wordToIndex = .error (.invalidPassphrase msg) ↔
      validateMnemonic words wordToIndex = true ∧ msg = "invalid passphrase" ∧
        ∃ E, mnemonicToBytes words wordToIndex = .ok E ∧
          ∀ P, ¬AezEncrypts blake2b (scrypt (utf8Encode (defaultPassphrase ++ passphrase))
            (slice E 24 29)) [encodeAd 0 (slice E 24 29)] cipherTextExpansion P (slice E 1 24) := by
  cases hE : mnemonicToBytes words wordToIndex with
  | error e =>
    obtain ⟨m, rfl⟩ := mnemonicToBytes_error_invalidMnemonic hE
    simp [decodeMnemonic, hE]
  | ok E =>
    have hlen := length_of_mnemonicToBytes_ok hE
    rcases Bool.eq_false_or_eq_true (validateMnemonic words wordToIndex) with hv | hv
    · obtain ⟨E', hE', hver, hck⟩ := (validateMnemonic_eq_true_iff words wordToIndex).1 hv
      obtain rfl : E = E' := Except.ok.inj (hE.symm.trans hE')
      have hv0 : E.getD 0 0 = 0 := BitVec.eq_of_toNat_eq hver
      have htiny := fun P => aezDecrypt_tiny_iff blake2b
        (scrypt (utf8Encode (defaultPassphrase ++ passphrase)) (slice E 24 29))
        [encodeAd 0 (slice E 24 29)] 4 (slice E 1 24) P (by simp [hlen]) (by simp [hlen])
      rw [decodeMnemonic, hE]
      dsimp only
      rw [decodeCipherBytes, if_neg (not_not.2 hver)]
      dsimp only
      rw [if_neg (not_not.2 (show _ = (crc32c (E.take (encipheredCipherSeedSize - 4))).toNat
        from hck)), hv0]
      simp only [encipheredCipherSeedSize, saltSize, cipherTextExpansion, decipheredCipherSeedSize,
        Nat.reduceSub, hv, Except.ok.injEq, exists_eq_left', true_and]
      split
      · rename_i hnone
        simp only [Except.error.injEq, AezeedError.invalidPassphrase.injEq]
        refine ⟨fun h => ⟨h.symm, fun P hP => ?_⟩, fun h => h.1.symm⟩
        exact Option.noConfusion (hnone.symm.trans ((htiny P).2 hP))
      · rename_i P hP
        have hP19 : P.length = 19 := by
          rcases (htiny P).1 hP with ⟨h, -⟩ | ⟨-, h, -⟩
          · simp [hlen] at h
          · simpa [hlen] using h
        rw [if_neg (not_not.2 hP19)]
        exact ⟨fun h => Except.noConfusion h, fun h => absurd ((htiny P).1 hP) (h.2 P)⟩
    · obtain ⟨m, hm⟩ := decodeMnemonic_of_validateMnemonic_eq_false hE hv scrypt blake2b passphrase
      simp [hm, hv]

/-! ## One changed word breaks the checksum -/

section Envelope

variable {E E' : Bytes}

/-- Two envelopes with valid checksums and the same 29 checked bytes are equal. -/
theorem eq_of_take_eq (hE : E.length = 33) (hE' : E'.length = 33)
    (hc : fromBytesBE (E.drop 29) = (crc32c (E.take 29)).toNat)
    (hc' : fromBytesBE (E'.drop 29) = (crc32c (E'.take 29)).toNat)
    (h : E.take 29 = E'.take 29) : E = E' := by
  have hd : E.drop 29 = E'.drop 29 := fromBytesBE_inj (by simp [hE, hE']) (by rw [hc, hc', h])
  rw [← List.take_append_drop 29 E, h, hd, List.take_append_drop]

/-- Words 0 to 20 lie inside the 29 checked bytes, within three consecutive bytes. -/
theorem crc32c_ne_of_word_le (hE : E.length = 33) (hE' : E'.length = 33) {q : Nat} (hq : q ≤ 20)
    (hagree : ∀ i, i < 11 * (23 - q) ∨ 11 * (24 - q) ≤ i →
      (fromBytesBE E).testBit i = (fromBytesBE E').testBit i)
    (hne : E.take 29 ≠ E'.take 29) : crc32c (E.take 29) ≠ crc32c (E'.take 29) := by
  have hlen : E.length = E'.length := hE.trans hE'.symm
  refine crc32c_ne_of_window (by simp [hE, hE']) (j := 30 - 11 * (23 - q) / 8)
    (e := 33 - 11 * (23 - q) / 8) (by omega) (by omega) ?_ ?_ hne
  · rw [List.take_take, List.take_take]
    exact take_eq_of_testBit hlen _ fun i hi => hagree i (.inr (by rw [hE] at hi; omega))
  · rw [List.drop_take, List.drop_take,
      drop_eq_of_testBit hlen _ fun i hi => hagree i (.inl (by rw [hE] at hi; omega))]

theorem eq_xor_one_of_ne {x y : BitVec 8} (hne : x ≠ y)
    (hhigh : ∀ i, 1 ≤ i → i < 8 → x.getLsbD i = y.getLsbD i) : y = x ^^^ 1#8 := by
  have h0 : y.getLsbD 0 = !x.getLsbD 0 := by
    by_contra h
    refine hne (BitVec.eq_of_getLsbD_eq fun ⟨i, hi⟩ => ?_)
    rcases i with _ | i
    · cases hx : x.getLsbD 0 <;> simp_all
    · exact hhigh (i + 1) (by omega) hi
  apply BitVec.eq_of_getLsbD_eq
  intro ⟨i, hi⟩
  rcases i with _ | i
  · simp [h0]
  · simp [BitVec.getLsbD_one, hhigh (i + 1) (by omega) hi]

theorem take_29_eq (F : Bytes) (hF : F.length = 33) : F.take 29 = F.take 28 ++ [F.getD 28 0] := by
  rw [List.take_succ, List.getElem?_eq_getElem (by omega), Option.toList_some,
    List.getD_eq_getElem?_getD, List.getElem?_eq_getElem (by omega), Option.getD_some]

theorem getLsbD_getD_28 (F : Bytes) (hF : F.length = 33) (i : Nat) (hi : i < 8) :
    (F.getD 28 0).getLsbD i = (fromBytesBE F).testBit (32 + i) := by
  rw [testBit_fromBytesBE_eq, hF, show 33 - 1 - (32 + i) / 8 = 28 by omega,
    show (32 + i) % 8 = i by omega]
  simp [show 32 + i < 8 * 33 by omega]

theorem testBit_checksum_zero (F : Bytes) (hF : F.length = 33) :
    (fromBytesBE (F.drop 29)).testBit 0 = (fromBytesBE F).testBit 0 := by
  rw [(fromBytesBE_take_drop F 29).2, Nat.testBit_mod_two_pow, hF]
  rfl

/-- Word 21 covers the last checked bit and the top ten bits of the checksum. A change of that
bit flips bit 0 of the CRC, while bit 0 of the stored checksum stays. -/
theorem checksum_ne_of_word_21 (hE : E.length = 33) (hE' : E'.length = 33)
    (hagree : ∀ i, i < 22 ∨ 33 ≤ i → (fromBytesBE E).testBit i = (fromBytesBE E').testBit i)
    (hne : E.take 29 ≠ E'.take 29)
    (hc : fromBytesBE (E.drop 29) = (crc32c (E.take 29)).toNat) :
    fromBytesBE (E'.drop 29) ≠ (crc32c (E'.take 29)).toNat := by
  have hlen : E.length = E'.length := hE.trans hE'.symm
  have h28 : E.take 28 = E'.take 28 :=
    take_eq_of_testBit hlen 28 fun i hi => hagree i (.inr (by rw [hE] at hi; omega))
  have hhigh : ∀ i, 1 ≤ i → i < 8 → (E.getD 28 0).getLsbD i = (E'.getD 28 0).getLsbD i :=
    fun i h1 h8 => by
      rw [getLsbD_getD_28 E hE i h8, getLsbD_getD_28 E' hE' i h8, hagree _ (.inr (by omega))]
  have hflip : E'.getD 28 0 = E.getD 28 0 ^^^ 1#8 := eq_xor_one_of_ne (fun h => hne (by
    rw [take_29_eq E hE, take_29_eq E' hE', h28, h])) hhigh
  intro hc'
  have hcrc := getLsbD_crc32c_flip (E.take 28) (E.getD 28 0)
  rw [← hflip, ← take_29_eq E hE, h28, ← take_29_eq E' hE'] at hcrc
  have hb := testBit_checksum_zero E hE
  have hb' := testBit_checksum_zero E' hE'
  rw [hc, hagree 0 (.inl (by omega))] at hb
  rw [hc', ← hb] at hb'
  exact Bool.not_ne_self _ (hcrc.symm.trans hb')

/-- A change confined to the eleven bits of word `q` of a valid envelope never leaves its
checksum valid. -/
theorem checksum_ne_of_word (hE : E.length = 33) (hE' : E'.length = 33) {q : Nat} (hq : q < 24)
    (hagree : ∀ i, i < 11 * (23 - q) ∨ 11 * (24 - q) ≤ i →
      (fromBytesBE E).testBit i = (fromBytesBE E').testBit i)
    (hne : E ≠ E') (hc : fromBytesBE (E.drop 29) = (crc32c (E.take 29)).toNat) :
    fromBytesBE (E'.drop 29) ≠ (crc32c (E'.take 29)).toNat := by
  have hlen : E.length = E'.length := hE.trans hE'.symm
  intro hc'
  have h29 : E.take 29 ≠ E'.take 29 := fun h => hne (eq_of_take_eq hE hE' hc hc' h)
  rcases (show q ≤ 20 ∨ q = 21 ∨ 22 ≤ q by omega) with hq20 | rfl | hq22
  · have hd : E.drop 29 = E'.drop 29 :=
      drop_eq_of_testBit hlen 29 fun i hi => hagree i (.inl (by rw [hE] at hi; omega))
    exact crc32c_ne_of_word_le hE hE' hq20 hagree h29
      (BitVec.eq_of_toNat_eq (by rw [← hc, ← hc', hd]))
  · exact checksum_ne_of_word_21 hE hE' hagree h29 hc hc'
  · exact h29 (take_eq_of_testBit hlen 29 fun i hi => hagree i (.inr (by rw [hE] at hi; omega)))

end Envelope

theorem wordIndices_of_known {wordToIndex : String → Option Nat}
    (hrange : ∀ w k, wordToIndex w = some k → k < 2048) {words : List String}
    (hknown : ∀ v ∈ words, (wordToIndex v).isSome) :
    words.map wordToIndex = (words.map fun v => (wordToIndex v).getD 0).map some ∧
      ∀ d ∈ words.map fun v => (wordToIndex v).getD 0, d < 2048 := by
  constructor
  · rw [List.map_map]
    refine List.map_congr_left fun v hv => ?_
    obtain ⟨m, hm⟩ := Option.isSome_iff_exists.1 (hknown v hv)
    simp [hm]
  · intro d hd
    obtain ⟨v, hv, rfl⟩ := List.mem_map.1 hd
    obtain ⟨m, hm⟩ := Option.isSome_iff_exists.1 (hknown v hv)
    rw [hm]
    exact hrange v m hm

theorem ofDigitsBE_set {ds : List Nat} (hds : ∀ d ∈ ds, d < 2048) (hlen : ds.length = 24)
    {q k : Nat} (hq : q < 24) (hk : k < 2048) :
    (∀ i, i < 11 * (23 - q) ∨ 11 * (24 - q) ≤ i →
      (ofDigitsBE 2048 ds).testBit i = (ofDigitsBE 2048 (ds.set q k)).testBit i) ∧
    (ofDigitsBE 2048 ds = ofDigitsBE 2048 (ds.set q k) → ds.getD q 0 = k) := by
  have hqd : q < ds.length := by omega
  have hds' : ∀ d ∈ ds.set q k, d < 2048 := fun d hd =>
    (List.mem_or_eq_of_mem_set hd).elim (hds d) fun h => h ▸ hk
  have hsplit : ds = ds.take q ++ ds[q] :: ds.drop (q + 1) := by
    rw [← List.drop_eq_getElem_cons hqd, List.take_append_drop]
  have hsplitk : ds.set q k = ds.take q ++ k :: ds.drop (q + 1) := by
    rw [List.set_eq_take_append_cons_drop, if_pos hqd]
  constructor
  · intro i hi
    have hpost : (ds.drop (q + 1)).length = 23 - q := by simp [hlen]
    have h := testBit_ofDigitsBE_digit (ds.take q) (ds.drop (q + 1)) (hds _ (List.getElem_mem hqd))
      hk (fun x hx => hds x (List.mem_of_mem_drop hx)) i (by rw [hpost]; omega)
    rwa [← hsplit, ← hsplitk] at h
  · intro hN
    have hdk : ds = ds.set q k := by
      have h := digitsBE_ofDigitsBE hds'
      rwa [List.length_set, ← hN, digitsBE_ofDigitsBE hds] at h
    rw [hsplitk] at hdk
    conv_lhs at hdk => rw [hsplit]
    rw [List.getD_eq_getElem _ _ hqd]
    exact (List.cons.inj (List.append_cancel_left hdk)).1

/-- Replacing word `q` of a valid mnemonic by a known word of another index leaves a mnemonic
that `validate_mnemonic` rejects and on which `decode_mnemonic` raises `InvalidMnemonicError`,
whatever scrypt, BLAKE2b and the passphrase. Of the word table it needs only that its indices
are below 2048. -/
theorem validateMnemonic_set_eq_false (wordToIndex : String → Option Nat)
    (hrange : ∀ w k, wordToIndex w = some k → k < 2048) (words : List String)
    (hvalid : validateMnemonic words wordToIndex = true) (q : Nat) (hq : q < 24) (w : String)
    (hw : (wordToIndex w).isSome) (hne : wordToIndex w ≠ wordToIndex (words.getD q "")) :
    validateMnemonic (words.set q w) wordToIndex = false ∧
      ∀ scrypt blake2b passphrase, ∃ msg,
        decodeMnemonic scrypt blake2b (words.set q w) passphrase wordToIndex =
          .error (.invalidMnemonic msg) := by
  obtain ⟨E, hE, -, hc⟩ := (validateMnemonic_eq_true_iff words wordToIndex).1 hvalid
  obtain ⟨hlen, hknown⟩ := mnemonicToBytes_ok words wordToIndex hE
  obtain ⟨k, hk⟩ := Option.isSome_iff_exists.1 hw
  obtain ⟨hmap, hds⟩ := wordIndices_of_known hrange hknown
  -- the indices of the words, and of the words with word `q` replaced
  set ds := words.map fun v => (wordToIndex v).getD 0
  have hdlen : ds.length = 24 := by simp [ds, hlen]
  have hmap' : (words.set q w).map wordToIndex = (ds.set q k).map some := by
    rw [List.map_set, List.map_set, hmap, hk]
  have hds' : ∀ d ∈ ds.set q k, d < 2048 := fun d hd =>
    (List.mem_or_eq_of_mem_set hd).elim (hds d) fun h => h ▸ hrange w k hk
  obtain ⟨E0, hE0, hlen0, hN⟩ := mnemonicToBytes_digits words wordToIndex ds hmap hds hdlen
  obtain rfl : E = E0 := by rw [hE] at hE0; exact Except.ok.inj hE0
  obtain ⟨E', hE', hlen', hN'⟩ := mnemonicToBytes_digits _ wordToIndex (ds.set q k) hmap' hds'
    (by simp [hdlen])
  -- the envelopes differ, and only in the eleven bits of word `q`
  obtain ⟨hagree, hset⟩ := ofDigitsBE_set hds hdlen hq (hrange w k hk)
  have hword : wordToIndex (words.getD q "") = some (ds.getD q 0) := by
    have := congrArg (fun l => l.getD q none) hmap
    simpa [hlen, hq, hdlen] using this
  have hne' : E ≠ E' := fun hEE => hne (by rw [hk, hword, hset (by rw [← hN, ← hN', hEE])])
  have hbad : validateMnemonic (words.set q w) wordToIndex = false := by
    cases hv : validateMnemonic (words.set q w) wordToIndex with
    | false => rfl
    | true =>
      obtain ⟨E'', hE'', -, hc'⟩ := (validateMnemonic_eq_true_iff _ _).1 hv
      rw [hE'] at hE''
      cases hE''
      rw [hlen0] at hc
      rw [hlen'] at hc'
      exact absurd hc' (checksum_ne_of_word hlen0 hlen' hq (by rw [hN, hN']; exact hagree) hne' hc)
  exact ⟨hbad, decodeMnemonic_of_validateMnemonic_eq_false hE' hbad⟩

/-- A word table for tests: the one-character words whose code point is below 2048. -/
def charTable (w : String) : Option Nat :=
  match w.data with
  | [c] => if c.toNat < 2048 then some c.toNat else none
  | _ => none

theorem charTable_lt (w : String) (k : Nat) (h : charTable w = some k) : k < 2048 := by
  unfold charTable at h
  split at h
  · split_ifs at h with hc
    cases h
    exact hc
  · cases h

/-- The 24 words of the envelope with 29 zero bytes and its checksum. -/
def zeroBodyWords : List String :=
  (List.replicate 21 0 ++ [303, 2010, 568]).map fun k => String.mk [Char.ofNat k]

set_option maxRecDepth 8000 in
theorem validateMnemonic_set_eq_false_zero_body :
    (∀ w k, charTable w = some k → k < 2048) ∧ validateMnemonic zeroBodyWords charTable = true ∧
      0 < 24 ∧ (charTable (String.mk [Char.ofNat 1])).isSome ∧
      charTable (String.mk [Char.ofNat 1]) ≠ charTable (zeroBodyWords.getD 0 "") ∧
      (validateMnemonic (zeroBodyWords.set 0 (String.mk [Char.ofNat 1])) charTable = false ∧
        ∀ scrypt blake2b passphrase, ∃ msg, decodeMnemonic scrypt blake2b
          (zeroBodyWords.set 0 (String.mk [Char.ofNat 1])) passphrase charTable =
            .error (.invalidMnemonic msg)) :=
  ⟨charTable_lt, by decide, by decide, by decide, by decide,
    validateMnemonic_set_eq_false charTable charTable_lt zeroBodyWords (by decide) 0 (by decide)
      _ (by decide) (by decide)⟩

end Aezeed
