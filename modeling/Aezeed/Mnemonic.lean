import Aezeed.Crc32c

/-!
# Mnemonic packing

`mnemonic_to_bytes` packs 24 word indices, 11 bits each with the first word most significant,
into the 33-byte enciphered cipher-seed envelope. The loop keeps a small bit buffer; its
invariant `PackInv` says that the bytes emitted so far followed by the buffered bits spell the
indices read so far. `validate_mnemonic` then checks the version byte and the CRC-32C of the
first 29 bytes against the last four.

The packing fails on a word count other than 24, and otherwise exactly at the first word the
table does not know, whose text its message carries (`packWords_eq_error`).
-/

namespace Aezeed

abbrev encipheredCipherSeedSize : Nat := 33
abbrev decipheredCipherSeedSize : Nat := 19
abbrev saltSize : Nat := 5
abbrev cipherTextExpansion : Nat := 4
abbrev bitsPerWord : Nat := 11
abbrev cipherSeedVersion : Nat := 0

/-- `InvalidMnemonicError` and `InvalidPassphraseError`, each with its message. -/
inductive AezeedError where
  | invalidMnemonic (msg : String)
  | invalidPassphrase (msg : String)
  deriving DecidableEq, Repr

/-- The `while bit_len >= 8` loop of `mnemonic_to_bytes`, on `bits`, `bit_len`, `out` and `pos`:
while a whole byte is buffered, its top eight bits go to `out[pos]`. -/
def emitBytes : Nat → Nat → Bytes → Nat → Nat × Nat × Bytes × Nat
  | bits, bitLen + 8, out, pos =>
    emitBytes (if bitLen ≠ 0 then bits &&& ((1 <<< bitLen) - 1) else 0) bitLen
      (out.set pos (BitVec.ofNat 8 ((bits >>> bitLen) &&& 0xFF))) (pos + 1)
  | bits, bitLen, out, pos => (bits, bitLen, out, pos)

/-- The `for word in words` loop of `mnemonic_to_bytes`. -/
def packWords (wordToIndex : String → Option Nat) :
    List String → Nat → Nat → Bytes → Nat → Except AezeedError Bytes
  | [], _, _, out, _ => .ok out
  | word :: words, bits, bitLen, out, pos =>
    match wordToIndex word with
    | none => .error (.invalidMnemonic ("unknown word: " ++ word))
    | some idx =>
      let (bits, bitLen, out, pos) :=
        emitBytes ((bits <<< bitsPerWord) ||| idx) (bitLen + bitsPerWord) out pos
      packWords wordToIndex words bits bitLen out pos

/-- `mnemonic_to_bytes`; the word table `word_to_index` is a partial map from words to
indices. -/
def mnemonicToBytes (words : List String) (wordToIndex : String → Option Nat) :
    Except AezeedError Bytes :=
  if words.length ≠ 24 then .error (.invalidMnemonic "aezeed mnemonics must have 24 words")
  else packWords wordToIndex words 0 0 (List.replicate encipheredCipherSeedSize 0) 0

def validateMnemonic (words : List String) (wordToIndex : String → Option Nat) : Bool :=
  match mnemonicToBytes words wordToIndex with
  | .error _ => false
  | .ok cipherBytes =>
    if (cipherBytes.getD 0 0).toNat ≠ cipherSeedVersion then false
    else
      let expected := fromBytesBE (cipherBytes.drop (cipherBytes.length - 4))
      let computed := (crc32c (cipherBytes.take (encipheredCipherSeedSize - 4))).toNat
      expected = computed

/-! ## The packing invariant -/

/-- The bytes before `pos` followed by the low `bitLen` bits of `bits` spell `acc`. -/
structure PackInv (acc bits bitLen : Nat) (out : Bytes) (pos : Nat) : Prop where
  length_out : out.length = 33
  bits_lt : bits < 2 ^ bitLen
  value : fromBytesBE (out.take pos) * 2 ^ bitLen + bits = acc

theorem fromBytesBE_take_set {out : Bytes} {pos : Nat} (hpos : pos < out.length) (b : BitVec 8) :
    fromBytesBE ((out.set pos b).take (pos + 1)) = fromBytesBE (out.take pos) * 256 + b.toNat := by
  rw [List.set_eq_take_append_cons_drop, if_pos hpos, List.take_append_eq_append_take,
    List.take_of_length_le (by simp), List.length_take, Nat.min_eq_left hpos.le,
    Nat.add_sub_cancel_left, List.take_one, List.head?_cons, Option.toList_some,
    fromBytesBE_append]
  simp [fromBytesBE, ofDigitsBE]

theorem PackInv.emit {acc bits n : Nat} {out : Bytes} {pos : Nat} (h : PackInv acc bits (n + 8) out pos)
    (hpos : pos < 33) :
    PackInv acc (if n ≠ 0 then bits &&& ((1 <<< n) - 1) else 0) n
      (out.set pos (BitVec.ofNat 8 ((bits >>> n) &&& 0xFF))) (pos + 1) := by
  have hlow : (if n ≠ 0 then bits &&& ((1 <<< n) - 1) else 0) = bits % 2 ^ n := by
    split_ifs with hn
    · rw [Nat.one_shiftLeft, Nat.and_pow_two_sub_one_eq_mod]
    · rw [show n = 0 by omega, pow_zero, Nat.mod_one]
  have hhigh : bits / 2 ^ n < 256 := by
    have hlt := h.bits_lt
    rw [pow_add] at hlt
    rw [Nat.div_lt_iff_lt_mul (by positivity)]
    omega
  have hbyte : (BitVec.ofNat 8 ((bits >>> n) &&& 0xFF)).toNat = bits / 2 ^ n := by
    rw [toNat_byte_ofNat, Nat.shiftRight_eq_div_pow, show 0xFF = 2 ^ 8 - 1 from rfl,
      Nat.and_pow_two_sub_one_eq_mod, Nat.mod_mod, Nat.mod_eq_of_lt hhigh]
  refine ⟨by simp [h.length_out], hlow ▸ Nat.mod_lt _ (by positivity), ?_⟩
  rw [fromBytesBE_take_set (h.length_out ▸ hpos), hbyte, hlow, ← h.value, pow_add]
  have := Nat.div_add_mod bits (2 ^ n)
  nlinarith

/-- The inner loop empties the buffer down to `bit_len % 8` bits, one byte per pass. -/
theorem emitBytes_spec (bits bitLen : Nat) (out : Bytes) (pos acc : Nat)
    (h : PackInv acc bits bitLen out pos) (hpos : pos + bitLen / 8 ≤ 33) :
    ∃ bits' out', emitBytes bits bitLen out pos = (bits', bitLen % 8, out', pos + bitLen / 8) ∧
      PackInv acc bits' (bitLen % 8) out' (pos + bitLen / 8) := by
  induction bits, bitLen, out, pos using emitBytes.induct with
  | case1 bits n out pos ih =>
    have e : n.succ.succ.succ.succ.succ.succ.succ.succ = n + 8 := rfl
    rw [e] at h hpos ⊢
    obtain ⟨bits', out', heq, hinv⟩ := ih (h.emit (by omega)) (by omega)
    have e1 : (n + 8) % 8 = n % 8 := by omega
    have e2 : pos + (n + 8) / 8 = pos + 1 + n / 8 := by omega
    rw [e1, e2, emitBytes, heq]
    exact ⟨bits', out', rfl, hinv⟩
  | case2 bits n out pos hn =>
    have hlt : n < 8 := by
      by_contra hge
      exact hn (n - 8) (by omega)
    refine ⟨bits, out, ?_, ?_⟩
    · rw [emitBytes.eq_def]
      split
      · exact absurd rfl (hn _)
      · simp [Nat.mod_eq_of_lt hlt, Nat.div_eq_of_lt hlt]
    · simpa [Nat.mod_eq_of_lt hlt, Nat.div_eq_of_lt hlt] using h

theorem PackInv.push {acc bits bitLen : Nat} {out : Bytes} {pos : Nat}
    (h : PackInv acc bits bitLen out pos) {idx : Nat} (hidx : idx < 2 ^ 11) :
    PackInv (acc * 2 ^ 11 + idx) ((bits <<< bitsPerWord) ||| idx) (bitLen + bitsPerWord) out pos := by
  have hor : (bits <<< bitsPerWord) ||| idx = 2 ^ 11 * bits + idx := by
    rw [Nat.shiftLeft_eq, Nat.mul_comm, Nat.mul_add_lt_is_or hidx]
  have hlt := h.bits_lt
  refine ⟨h.length_out, ?_, ?_⟩
  · rw [hor, pow_add, show bitsPerWord = 11 from rfl]
    nlinarith
  · rw [hor, pow_add, ← h.value]
    ring

/-- The word loop: after the remaining words, the 33 bytes spell all the indices. -/
theorem packWords_spec (wordToIndex : String → Option Nat) (words : List String) :
    ∀ (idxs : List Nat) (bits bitLen : Nat) (out : Bytes) (pos acc : Nat),
      words.map wordToIndex = idxs.map some → (∀ i ∈ idxs, i < 2 ^ 11) →
      PackInv acc bits bitLen out pos → bitLen < 8 →
      8 * pos + bitLen + 11 * words.length = 264 →
      ∃ out', packWords wordToIndex words bits bitLen out pos = .ok out' ∧ out'.length = 33 ∧
        fromBytesBE out' = acc * 2048 ^ words.length + ofDigitsBE 2048 idxs := by
  induction words with
  | nil =>
    intro idxs bits bitLen out pos acc hmap _ h hlt hcount
    have hidxs : idxs = [] := by cases idxs <;> simp_all
    obtain ⟨rfl, rfl⟩ : pos = 33 ∧ bitLen = 0 := by simp at hcount; omega
    have hbits : bits = 0 := by simpa using h.bits_lt
    refine ⟨out, rfl, h.length_out, ?_⟩
    have hval := h.value
    rw [List.take_of_length_le (by rw [h.length_out]), hbits] at hval
    simp [hidxs, ← hval]
  | cons word words ih =>
    intro idxs bits bitLen out pos acc hmap hidx h hlt hcount
    obtain ⟨i, is, rfl⟩ : ∃ i is, idxs = i :: is := by
      cases idxs with
      | nil => simp at hmap
      | cons i is => exact ⟨i, is, rfl⟩
    simp only [List.map_cons, List.cons.injEq] at hmap
    have hi : i < 2 ^ 11 := hidx i (List.mem_cons_self i is)
    simp only [List.length_cons] at hcount
    obtain ⟨bits', out', hemit, hinv⟩ := emitBytes_spec _ _ out pos _ (h.push hi)
      (by simp only [bitsPerWord]; omega)
    obtain ⟨out'', hrun, hlen, hval⟩ := ih is bits' _ out' _ _ hmap.2
      (fun j hj => hidx j (List.mem_cons_of_mem i hj)) hinv (Nat.mod_lt _ (by norm_num))
      (by simp only [bitsPerWord]; omega)
    refine ⟨out'', ?_, hlen, ?_⟩
    · rw [packWords, hmap.1]
      simp only [hemit]
      exact hrun
    · have hlen : words.length = is.length := by simpa using congrArg List.length hmap.2
      rw [hval, ofDigitsBE_cons, List.length_cons, pow_succ, hlen]
      ring

/-- The packing of `mnemonic_to_bytes` as a function of the word indices: the 33-byte
big-endian encoding of the number whose 11-bit groups are the indices. -/
def packIndices (idx : Fin 24 → Fin 2048) : {E : Bytes // E.length = 33} :=
  ⟨toBytesBE 33 (∑ w : Fin 24, (idx w : Nat) * 2 ^ (11 * (23 - (w : Nat)))), length_toBytesBE _ _⟩

theorem sum_indices_eq_ofDigitsBE (idx : Fin 24 → Fin 2048) :
    ∑ w : Fin 24, (idx w : Nat) * 2 ^ (11 * (23 - (w : Nat))) =
      ofDigitsBE 2048 (List.ofFn fun w => (idx w : Nat)) := by
  rw [ofDigitsBE_ofFn]
  refine Finset.sum_congr rfl fun w _ => ?_
  rw [pow_mul]
  rfl

/-- The word indices an envelope spells: its successive 11-bit groups. -/
def unpackIndices (E : Bytes) (w : Fin 24) : Fin 2048 :=
  ⟨fromBytesBE E / 2 ^ (11 * (23 - (w : Nat))) % 2048, Nat.mod_lt _ (by norm_num)⟩

theorem ofFn_unpackIndices (E : Bytes) :
    (List.ofFn fun w => (unpackIndices E w : Nat)) = digitsBE 2048 24 (fromBytesBE E) := by
  rw [digitsBE_eq_ofFn]
  congr
  funext w
  show fromBytesBE E / 2 ^ (11 * (23 - (w : Nat))) % 2048 = _
  rw [pow_mul, show (2 : Nat) ^ 11 = 2048 by norm_num]

theorem envelope_pow : (256 : Nat) ^ 33 = 2048 ^ 24 := by norm_num

theorem ofFn_indices_lt (idx : Fin 24 → Fin 2048) :
    ∀ d ∈ List.ofFn fun w => (idx w : Nat), d < 2048 := fun d hd => by
  obtain ⟨w, rfl⟩ := (List.mem_ofFn _ _).1 hd
  exact (idx w).isLt

theorem ofDigitsBE_indices_lt (idx : Fin 24 → Fin 2048) :
    ofDigitsBE 2048 (List.ofFn fun w => (idx w : Nat)) < 256 ^ 33 := by
  have h := ofDigitsBE_lt (ofFn_indices_lt idx)
  rwa [List.length_ofFn, ← envelope_pow] at h

theorem packIndices_val (idx : Fin 24 → Fin 2048) :
    (packIndices idx).1 = toBytesBE 33 (ofDigitsBE 2048 (List.ofFn fun w => (idx w : Nat))) :=
  congrArg (toBytesBE 33) (sum_indices_eq_ofDigitsBE idx)

theorem fromBytesBE_packIndices (idx : Fin 24 → Fin 2048) :
    fromBytesBE (packIndices idx).1 = ofDigitsBE 2048 (List.ofFn fun w => (idx w : Nat)) := by
  rw [packIndices_val, fromBytesBE_toBytesBE, Nat.mod_eq_of_lt (ofDigitsBE_indices_lt idx)]

theorem unpackIndices_packIndices (idx : Fin 24 → Fin 2048) :
    unpackIndices (packIndices idx).1 = idx := by
  have hdig : (List.ofFn fun w => (unpackIndices (packIndices idx).1 w : Nat)) =
      List.ofFn fun w => (idx w : Nat) := by
    have h := digitsBE_ofDigitsBE (ofFn_indices_lt idx)
    rw [List.length_ofFn] at h
    rw [ofFn_unpackIndices, fromBytesBE_packIndices, h]
  funext w
  exact Fin.val_injective (congrFun (List.ofFn_injective hdig) w)

theorem packIndices_unpackIndices (E : Bytes) (hE : E.length = 33) :
    (packIndices (unpackIndices E)).1 = E := by
  have hE' : fromBytesBE E < 2048 ^ 24 := by
    have h := fromBytesBE_lt E
    rwa [hE, envelope_pow] at h
  rw [packIndices_val, ofFn_unpackIndices, ofDigitsBE_digitsBE, Nat.mod_eq_of_lt hE']
  conv_lhs => rw [← hE]
  exact toBytesBE_fromBytesBE E

theorem packIndices_bijective : Function.Bijective packIndices :=
  ⟨fun a b hab => by rw [← unpackIndices_packIndices a, hab, unpackIndices_packIndices],
    fun E => ⟨unpackIndices E.1, Subtype.ext (packIndices_unpackIndices E.1 E.2)⟩⟩

theorem testBit_ofDigitsBE_digit (pre post : List Nat) {d d' : Nat} (hd : d < 2048)
    (hd' : d' < 2048) (hpost : ∀ x ∈ post, x < 2048) (i : Nat)
    (hi : i < 11 * post.length ∨ 11 * post.length + 11 ≤ i) :
    (ofDigitsBE 2048 (pre ++ d :: post)).testBit i =
      (ofDigitsBE 2048 (pre ++ d' :: post)).testBit i := by
  have h2048 : (2048 : Nat) = 2 ^ 11 := rfl
  have hform : ∀ x, ofDigitsBE 2048 (pre ++ x :: post) =
      2 ^ (11 * post.length) * (2 ^ 11 * ofDigitsBE 2048 pre + x) + ofDigitsBE 2048 post := by
    intro x
    rw [ofDigitsBE_append, ofDigitsBE_cons, List.length_cons, pow_succ, h2048, ← pow_mul]
    ring
  have hL : ofDigitsBE 2048 post < 2 ^ (11 * post.length) := by
    have := ofDigitsBE_lt hpost
    rwa [h2048, ← pow_mul] at this
  rw [hform, hform, Nat.testBit_mul_pow_two_add _ hL, Nat.testBit_mul_pow_two_add _ hL]
  rcases hi with hi | hi
  · simp only [hi, if_true]
  · have hn : ¬ i < 11 * post.length := by omega
    have hn' : ¬ i - 11 * post.length < 11 := by omega
    rw [if_neg hn, if_neg hn, Nat.testBit_mul_pow_two_add _ (h2048 ▸ hd),
      Nat.testBit_mul_pow_two_add _ (h2048 ▸ hd'), if_neg hn', if_neg hn']

/-- On words the table knows, with indices `ds` below 2048, 24 of them, `mnemonic_to_bytes`
returns a 33-byte envelope whose number has the indices as its base-2048 digits. -/
theorem mnemonicToBytes_digits (words : List String) (wordToIndex : String → Option Nat)
    (ds : List Nat) (hmap : words.map wordToIndex = ds.map some) (hds : ∀ d ∈ ds, d < 2048)
    (hlen : ds.length = 24) :
    ∃ E, mnemonicToBytes words wordToIndex = .ok E ∧ E.length = 33 ∧
      fromBytesBE E = ofDigitsBE 2048 ds := by
  have hwords : words.length = 24 := by simpa [hlen] using congrArg List.length hmap
  obtain ⟨E, hrun, hE, hval⟩ := packWords_spec wordToIndex words ds 0 0
    (List.replicate encipheredCipherSeedSize 0) 0 0 hmap hds ⟨by simp, by norm_num, rfl⟩
    (by norm_num) (by omega)
  rw [Nat.zero_mul, Nat.zero_add] at hval
  exact ⟨E, by rw [mnemonicToBytes, if_neg (by omega), hrun], hE, hval⟩

/-- On 24 words with indices in `[0, 2048)`, `mnemonic_to_bytes` returns the packing of the
indices. -/
theorem mnemonicToBytes_ofFn (words : List String) (wordToIndex : String → Option Nat)
    (idx : Fin 24 → Fin 2048)
    (hwords : words.map wordToIndex = List.ofFn fun w => some (idx w : Nat)) :
    mnemonicToBytes words wordToIndex = .ok (packIndices idx).1 := by
  have hmap : words.map wordToIndex = (List.ofFn fun w => (idx w : Nat)).map some := by
    rw [hwords, List.map_ofFn]
    rfl
  obtain ⟨E, hrun, hE, hval⟩ := mnemonicToBytes_digits words wordToIndex _ hmap
    (ofFn_indices_lt idx) (List.length_ofFn _)
  rw [← fromBytesBE_packIndices] at hval
  rw [hrun, fromBytesBE_inj (hE.trans (packIndices idx).2.symm) hval]

theorem packWords_ok_known (wordToIndex : String → Option Nat) (words : List String) :
    ∀ (bits bitLen : Nat) (out : Bytes) (pos : Nat) (out' : Bytes),
      packWords wordToIndex words bits bitLen out pos = .ok out' →
      ∀ w ∈ words, (wordToIndex w).isSome := by
  induction words with
  | nil => simp
  | cons word words ih =>
    intro bits bitLen out pos out' h w hw
    cases hword : wordToIndex word with
    | none => simp [packWords, hword] at h
    | some idx =>
      rcases List.mem_cons.1 hw with rfl | hw
      · simp [hword]
      · simp only [packWords, hword] at h
        exact ih _ _ _ _ _ h w hw

theorem length_emitBytes (bits bitLen : Nat) (out : Bytes) (pos : Nat) :
    (emitBytes bits bitLen out pos).2.2.1.length = out.length := by
  induction bits, bitLen, out, pos using emitBytes.induct with
  | case1 bits n out pos ih => rw [emitBytes, ih, List.length_set]
  | case2 bits n out pos hn =>
    rw [emitBytes.eq_def]
    split
    · exact absurd rfl (hn _)
    · rfl

theorem length_packWords (wordToIndex : String → Option Nat) (words : List String) :
    ∀ (bits bitLen : Nat) (out : Bytes) (pos : Nat) (out' : Bytes),
      packWords wordToIndex words bits bitLen out pos = .ok out' → out'.length = out.length := by
  induction words with
  | nil =>
    intro _ _ out _ out' h
    cases h
    rfl
  | cons word words ih =>
    intro bits bitLen out pos out' h
    rw [packWords] at h
    split at h
    · cases h
    · exact (ih _ _ _ _ _ h).trans (by simp [length_emitBytes])

/-- The envelope `mnemonic_to_bytes` returns has 33 bytes, whatever the indices. -/
theorem length_of_mnemonicToBytes_ok {words : List String} {wordToIndex : String → Option Nat}
    {cipherBytes : Bytes} (h : mnemonicToBytes words wordToIndex = .ok cipherBytes) :
    cipherBytes.length = 33 := by
  rw [mnemonicToBytes] at h
  split_ifs at h
  exact (length_packWords _ _ _ _ _ _ _ h).trans (List.length_replicate _ _)

theorem mnemonicToBytes_ok (words : List String) (wordToIndex : String → Option Nat)
    {cipherBytes : Bytes} (h : mnemonicToBytes words wordToIndex = .ok cipherBytes) :
    words.length = 24 ∧ ∀ w ∈ words, (wordToIndex w).isSome := by
  rw [mnemonicToBytes] at h
  split_ifs at h with hlen
  exact ⟨by omega, packWords_ok_known _ _ _ _ _ _ _ h⟩

/-- The word loop fails exactly at the first word the table does not know, and names it. -/
theorem packWords_eq_error (wordToIndex : String → Option Nat) (words : List String) :
    ∀ (bits bitLen : Nat) (out : Bytes) (pos : Nat) (e : AezeedError),
      packWords wordToIndex words bits bitLen out pos = .error e ↔
        ∃ pre w post, words = pre ++ w :: post ∧ (∀ u ∈ pre, (wordToIndex u).isSome) ∧
          wordToIndex w = none ∧ e = .invalidMnemonic ("unknown word: " ++ w) := by
  induction words with
  | nil => simp [packWords]
  | cons word words ih =>
    intro bits bitLen out pos e
    cases hword : wordToIndex word with
    | none =>
      simp only [packWords, hword, Except.error.injEq]
      constructor
      · rintro rfl
        exact ⟨[], word, words, rfl, by simp, hword, rfl⟩
      · rintro ⟨pre, w, post, hsplit, hpre, hw, rfl⟩
        cases pre with
        | nil => cases hsplit; rfl
        | cons u pre =>
          cases hsplit
          simp [hword] at hpre
    | some idx =>
      simp only [packWords, hword, ih]
      constructor
      · rintro ⟨pre, w, post, rfl, hpre, hw, rfl⟩
        exact ⟨word :: pre, w, post, rfl, by simpa [hword] using hpre, hw, rfl⟩
      · rintro ⟨pre, w, post, hsplit, hpre, hw, rfl⟩
        cases pre with
        | nil =>
          cases hsplit
          simp [hword] at hw
        | cons u pre =>
          cases hsplit
          exact ⟨pre, w, post, rfl, fun u hu => hpre u (List.mem_cons_of_mem _ hu), hw, rfl⟩

/-- `mnemonic_to_bytes` raises exactly two errors: on a word count other than 24, and on 24 words
of which one is unknown, naming the first unknown word. -/
theorem mnemonicToBytes_eq_error_iff (words : List String) (wordToIndex : String → Option Nat)
    (e : AezeedError) :
    mnemonicToBytes words wordToIndex = .error e ↔
      (words.length ≠ 24 ∧ e = .invalidMnemonic "aezeed mnemonics must have 24 words") ∨
        (words.length = 24 ∧ ∃ pre w post, words = pre ++ w :: post ∧
          (∀ u ∈ pre, (wordToIndex u).isSome) ∧ wordToIndex w = none ∧
          e = .invalidMnemonic ("unknown word: " ++ w)) := by
  rw [mnemonicToBytes]
  split_ifs with hlen
  · simp only [Except.error.injEq, hlen, ne_eq, not_false_eq_true, true_and, false_and, or_false]
    exact eq_comm
  · simp only [packWords_eq_error, hlen, false_and, false_or, true_and]
    exact ⟨fun h => ⟨by omega, h⟩, fun h => h.2⟩

/-- `mnemonic_to_bytes` on 24 words with indices in `[0, 2048)` is the big-endian packing of the
indices, 11 bits each; the packing is a bijection onto 33-byte strings. -/
theorem mnemonicToBytes_eq_packIndices (words : List String) (wordToIndex : String → Option Nat)
    (idx : Fin 24 → Fin 2048)
    (hwords : words.map wordToIndex = List.ofFn fun w => some (idx w : Nat)) :
    mnemonicToBytes words wordToIndex = .ok (packIndices idx).1 ∧
      Function.Bijective packIndices :=
  ⟨mnemonicToBytes_ofFn words wordToIndex idx hwords, packIndices_bijective⟩

theorem mnemonicToBytes_letter_words :
    (List.ofFn fun w : Fin 24 => String.singleton (Char.ofNat (97 + w.val))).map
        (fun word => match word.data with
          | [c] => some (2047 - 85 * (c.toNat - 97))
          | _ => none) =
        List.ofFn (fun w : Fin 24 => some ((Fin.ofNat (2047 - 85 * w.val) : Fin 2048) : Nat)) ∧
      mnemonicToBytes (List.ofFn fun w : Fin 24 => String.singleton (Char.ofNat (97 + w.val)))
          (fun word => match word.data with
            | [c] => some (2047 - 85 * (c.toNat - 97))
            | _ => none) =
        .ok (packIndices fun w => Fin.ofNat (2047 - 85 * w.val)).1 ∧
      Function.Bijective packIndices :=
  have h : (List.ofFn fun w : Fin 24 => String.singleton (Char.ofNat (97 + w.val))).map
      (fun word => match word.data with
        | [c] => some (2047 - 85 * (c.toNat - 97))
        | _ => none) =
      List.ofFn (fun w : Fin 24 => some ((Fin.ofNat (2047 - 85 * w.val) : Fin 2048) : Nat)) := by
    decide
  ⟨h, mnemonicToBytes_eq_packIndices _ _ _ h⟩

end Aezeed
