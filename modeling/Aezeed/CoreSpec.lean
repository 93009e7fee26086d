import Aezeed.Core

/-!
# What aez-core writes

Only the two passes of `aez_core` write into `dst`, and each writes the 32-byte pairs it works
on and nothing after them (`pass1Loop_frame`, `pass2Loop_frame`). So `aez_core` leaves the
fragment and the final 32 bytes of `dst` as it found them (`drop_aezCore`), and on the fresh zero
buffers `_aez_decrypt` hands it, deciphering what was enciphered gives zeros there.

The passes step `i` before they test `i % 8 == 0`, so `I_tmp` doubles after pairs 7, 15, ...:
pair `i` runs with `2^(i / 8 + 1) * I` (`coreSchedule`), where AEZ's `E^(j,i)`, and
`aez_hash` with it, use `2^⌈i/8⌉ * I` (`aezSchedule`). `pass1With` is pass 1 with the I-block of
each pair taken from a schedule; the code's pass 1 is the one on `coreSchedule`
(`aezCorePass1_eq_pass1With`).
-/

namespace Aezeed

theorem setSlice_pair_frame (output : Bytes) (offset : Nat) {f s : Bytes} (hf : f.length = 16)
    (hs : s.length = 16) (ho : offset + 32 ≤ output.length) :
    (setSlice (setSlice output offset (offset + 16) f) (offset + 16) (offset + 32) s).length =
        output.length ∧
      ∀ n, (setSlice (setSlice output offset (offset + 16) f) (offset + 16) (offset + 32) s).drop
        (offset + 32 + n) = output.drop (offset + 32 + n) := by
  have h1 : (setSlice output offset (offset + 16) f).length = output.length :=
    length_setSlice (by omega) (by omega) (by omega)
  refine ⟨(length_setSlice (by omega) (by omega) (by omega)).trans h1, fun n => ?_⟩
  rw [drop_setSlice _ (by omega) (by omega) (by omega) (by omega),
    drop_setSlice _ (by omega) (by omega) (by omega) (by omega)]

theorem length_pass1Pair (st : AEZState) (iTmp : Bytes) (i : Nat) {in1 in2 : Bytes}
    (h1 : in1.length = 16) (h2 : in2.length = 16) :
    (st.pass1Pair iTmp i in1 in2).1.length = 16 ∧ (st.pass1Pair iTmp i in1 in2).2.length = 16 := by
  simp [AEZState.pass1Pair, h1, h2]

theorem length_pass2Pair (st : AEZState) (S iTmp : Bytes) (i : Nat) {a b : Bytes}
    (ha : a.length = 16) (hb : b.length = 16) :
    (st.pass2Pair S iTmp i a b).2.1.length = 16 ∧ (st.pass2Pair S iTmp i a b).2.2.length = 16 := by
  simp [AEZState.pass2Pair, ha, hb]

theorem pass1Loop_frame (st : AEZState) (input : Bytes) (count : Nat) :
    ∀ (output : Bytes) (offset : Nat), offset + 32 * count ≤ input.length →
      offset + 32 * count ≤ output.length → ∀ X iTmp i,
      (st.pass1Loop input count output X iTmp offset i).1.length = output.length ∧
        (st.pass1Loop input count output X iTmp offset i).1.drop (offset + 32 * count) =
          output.drop (offset + 32 * count) := by
  induction count with
  | zero => exact fun _ _ _ _ _ _ _ => ⟨rfl, rfl⟩
  | succ count ih =>
    intro output offset hin hout X iTmp i
    simp only [AEZState.pass1Loop]
    set p := st.pass1Pair iTmp i (slice input offset (offset + 16))
      (slice input (offset + 16) (offset + 32))
    have hp : p.1.length = 16 ∧ p.2.length = 16 :=
      length_pass1Pair st iTmp i (by simp; omega) (by simp; omega)
    obtain ⟨hl, hd⟩ := setSlice_pair_frame output offset hp.1 hp.2 (by omega)
    have hih := ih (setSlice (setSlice output offset (offset + 16) p.1) (offset + 16)
      (offset + 32) p.2) (offset + 32) (by omega) (by rw [hl]; omega)
    refine ⟨(hih _ _ _).1.trans hl, ?_⟩
    rw [show offset + 32 * (count + 1) = offset + 32 + 32 * count by ring, (hih _ _ _).2, hd]

theorem pass2Loop_frame (st : AEZState) (S : Bytes) (count : Nat) :
    ∀ (output : Bytes) (offset : Nat), offset + 32 * count ≤ output.length → ∀ Y iTmp i,
      (st.pass2Loop S count output Y iTmp offset i).1.length = output.length ∧
        (st.pass2Loop S count output Y iTmp offset i).1.drop (offset + 32 * count) =
          output.drop (offset + 32 * count) := by
  induction count with
  | zero => exact fun _ _ _ _ _ _ => ⟨rfl, rfl⟩
  | succ count ih =>
    intro output offset hout Y iTmp i
    simp only [AEZState.pass2Loop]
    set p := st.pass2Pair S iTmp i (slice output offset (offset + 16))
      (slice output (offset + 16) (offset + 32))
    have hp : p.2.1.length = 16 ∧ p.2.2.length = 16 :=
      length_pass2Pair st S iTmp i (by simp; omega) (by simp; omega)
    obtain ⟨hl, hd⟩ := setSlice_pair_frame output offset hp.1 hp.2 (by omega)
    have hih := ih (setSlice (setSlice output offset (offset + 16) p.2.1) (offset + 16)
      (offset + 32) p.2.2) (offset + 32) (by rw [hl]; omega)
    refine ⟨(hih _ _ _).1.trans hl, ?_⟩
    rw [show offset + 32 * (count + 1) = offset + 32 + 32 * count by ring, (hih _ _ _).2, hd]

theorem isEmpty_eq_false {data : Bytes} (h : 1 ≤ data.length) : data.isEmpty = false := by
  cases data with
  | nil => simp at h
  | cons => rfl

theorem encipher_of_le (st : AEZState) (delta data dst : Bytes) (h : 32 ≤ data.length) :
    st.encipher delta data dst = st.aezCore delta data 0 dst := by
  rw [AEZState.encipher, isEmpty_eq_false (by omega), if_neg (by simp), if_neg (by omega)]

theorem decipher_of_le (st : AEZState) (delta data dst : Bytes) (h : 32 ≤ data.length) :
    st.decipher delta data dst = st.aezCore delta data 1 dst := by
  rw [AEZState.decipher, isEmpty_eq_false (by omega), if_neg (by simp), if_neg (by omega)]

theorem encipher_of_lt (st : AEZState) (delta data dst : Bytes) (h1 : 1 ≤ data.length)
    (h : data.length < 32) : st.encipher delta data dst = st.aezTiny delta data 0 dst := by
  rw [AEZState.encipher, isEmpty_eq_false h1, if_neg (by simp), if_pos h]

theorem decipher_of_lt (st : AEZState) (delta data dst : Bytes) (h1 : 1 ≤ data.length)
    (h : data.length < 32) : st.decipher delta data dst = st.aezTiny delta data 1 dst := by
  rw [AEZState.decipher, isEmpty_eq_false h1, if_neg (by simp), if_pos h]

theorem length_aezCore (st : AEZState) (delta data dst : Bytes) (d : Nat)
    (hdst : data.length ≤ dst.length) : (st.aezCore delta data d dst).length = dst.length := by
  simp only [AEZState.aezCore, AEZState.aezCoreRun]
  split_ifs with h64
  · have h1 := pass1Loop_frame st data ((data.length - 32) / 32) dst 0 (by omega) (by omega)
    simp only [AEZState.aezCorePass1, AEZState.aezCorePass2]
    rw [(pass2Loop_frame st _ _ _ 0 (by rw [(h1 _ _ _).1]; omega) _ _ _).1, (h1 _ _ _).1]
  · rfl

/-- `aez_core` writes nothing from `initial_bytes = len - len % 32 - 32` on: the fragment and the
final 32 bytes of `dst` are what they were. -/
theorem drop_aezCore (st : AEZState) (delta data dst : Bytes) (d : Nat) (hn : 32 ≤ data.length)
    (hdst : data.length ≤ dst.length) :
    (st.aezCore delta data d dst).drop (data.length - data.length % 32 - 32) =
      dst.drop (data.length - data.length % 32 - 32) := by
  have hinit : data.length - data.length % 32 - 32 = 0 + 32 * ((data.length - 32) / 32) := by
    omega
  simp only [AEZState.aezCore, AEZState.aezCoreRun]
  split_ifs with h64
  · have h1 := pass1Loop_frame st data ((data.length - 32) / 32) dst 0 (by omega) (by omega)
    simp only [AEZState.aezCorePass1, AEZState.aezCorePass2]
    rw [hinit, (pass2Loop_frame st _ _ _ 0 (by rw [(h1 _ _ _).1]; omega) _ _ _).2, (h1 _ _ _).2]
  · rfl

/-- On the fresh zero buffers `_aez_decrypt` uses, deciphering what `encipher` made of a message
of 32 bytes or more gives zeros in its last `32 + len % 32` bytes: the round trip fails for every
such message that does not end in that many zero bytes. -/
theorem decipher_encipher_ne (st : AEZState) (delta m : Bytes) (hm : 32 ≤ m.length)
    (htail : m.drop (m.length - m.length % 32 - 32) ≠ List.replicate (m.length % 32 + 32) 0) :
    st.decipher delta (st.encipher delta m (List.replicate m.length 0))
      (List.replicate m.length 0) ≠ m := by
  intro h
  have hc : (st.encipher delta m (List.replicate m.length 0)).length = m.length := by
    rw [encipher_of_le _ _ _ _ hm, length_aezCore _ _ _ _ _ (by simp), List.length_replicate]
  set c := st.encipher delta m (List.replicate m.length 0)
  have hd := drop_aezCore st delta c (List.replicate m.length 0) 1 (by omega) (by simp [hc])
  rw [← decipher_of_le _ _ _ _ (by omega), h, hc, List.drop_replicate] at hd
  exact htail (hd.trans (by congr 1; omega))

theorem decipher_encipher_ne_ones :
    32 ≤ (List.replicate 32 (1#8)).length ∧
      (List.replicate 32 (1#8)).drop 0 ≠ List.replicate 32 0 ∧
      (AEZState.init ⟨fun _ size => List.replicate size 0, fun _ _ => List.length_replicate _ _⟩
          ((List.range 48).map (BitVec.ofNat 8))).decipher mkBlock
          ((AEZState.init ⟨fun _ size => List.replicate size 0,
            fun _ _ => List.length_replicate _ _⟩ ((List.range 48).map (BitVec.ofNat 8))).encipher
              mkBlock (List.replicate 32 1) (List.replicate 32 0)) (List.replicate 32 0) ≠
        List.replicate 32 1 :=
  ⟨by decide, by decide, decipher_encipher_ne _ _ _ (by decide) (by decide)⟩

/-! ## The I-block schedule of the passes -/

/-- Pass 1 with the I-block of pair `i` taken from `sched i` instead of a running `I_tmp`. -/
def AEZState.pass1With (st : AEZState) (input : Bytes) (sched : Nat → Bytes) :
    Nat → (output X : Bytes) → (offset i : Nat) → Bytes × Bytes
  | 0, output, X, _, _ => (output, X)
  | count + 1, output, X, offset, i =>
    let out := st.pass1Pair (sched i) i (slice input offset (offset + 16))
      (slice input (offset + 16) (offset + 32))
    st.pass1With input sched count
      (setSlice (setSlice output offset (offset + 16) out.1) (offset + 16) (offset + 32) out.2)
      (xorBytes1x16 out.2 X) (offset + 32) (i + 1)

section Schedule

variable (st : AEZState) (sched : Nat → Bytes)
  (hsched : ∀ i, sched (i + 1) = if (i + 1) % 8 = 0 then doubleBlock (sched i) else sched i)
include hsched

/-- A loop whose `I_tmp` starts at `sched i` runs pass 1 on `sched`, as long as `sched` steps as
`I_tmp` does. -/
theorem pass1Loop_eq_pass1With (input : Bytes) (count : Nat) :
    ∀ output X offset i, st.pass1Loop input count output X (sched i) offset i =
      st.pass1With input sched count output X offset i := by
  induction count with
  | zero => intros; rfl
  | succ count ih =>
    intro output X offset i
    simp only [AEZState.pass1Loop, AEZState.pass1With, ← hsched, ih]

end Schedule

/-- The I-block the passes of `aez_core` use for pair `i`: `2^(i / 8 + 1) * I`. -/
def coreSchedule (I : Bytes) (i : Nat) : Bytes := gfMulBlock (2 ^ (i / 8 + 1)) I

/-- The I-block of AEZ's `E^(j,i)` for `i ≥ 1`: `2^⌈i/8⌉ * I`. -/
def aezSchedule (I : Bytes) (i : Nat) : Bytes := gfMulBlock (2 ^ ((i + 7) / 8)) I

theorem coreSchedule_succ {I : Bytes} (hI : I.length = 16) (i : Nat) :
    coreSchedule I (i + 1) =
      if (i + 1) % 8 = 0 then doubleBlock (coreSchedule I i) else coreSchedule I i := by
  rw [coreSchedule, coreSchedule]
  split_ifs with h
  · rw [doubleBlock_gfMulBlock _ _ hI, show (i + 1) / 8 + 1 = i / 8 + 1 + 1 by omega, pow_succ,
      mul_comm]
  · rw [show (i + 1) / 8 = i / 8 by omega]

section Derived

variable {st : AEZState} {I J L : Bytes} (hD : st.Derived I J L)
include hD

theorem getD_I_one : st.I.getD 1 mkBlock = coreSchedule I 1 := hD.getD_I 1 (by omega)

/-- `aez_core_pass1` runs pair `i` with I-block `2^(i / 8 + 1) * I`. -/
theorem aezCorePass1_eq_pass1With (input output X : Bytes) :
    st.aezCorePass1 input output X =
      st.pass1With input (coreSchedule I) ((input.length - 32) / 32) output X 0 1 := by
  rw [AEZState.aezCorePass1, getD_I_one hD,
    pass1Loop_eq_pass1With st _ (coreSchedule_succ hD.length_I)]

end Derived

set_option maxRecDepth 20000 in
/-- On the key whose `I` third is `0^15 || 01` and whose other thirds are zero, the first block
pass 1 writes for pair 8 of a 288-byte zero message is not the one AEZ's schedule gives: the code
runs that pair with `4 * I` where `E^(1,8)` has `2 * I`. -/
theorem aezCorePass1_ne_aezSchedule (blake2b : Blake2b) :
    slice ((AEZState.init blake2b (List.replicate 15 0 ++ [1#8] ++ List.replicate 32 0)).aezCorePass1
        (List.replicate 288 0) (List.replicate 288 0) mkBlock).1 224 240 ≠
      slice ((AEZState.init blake2b (List.replicate 15 0 ++ [1#8] ++ List.replicate 32 0)).pass1With
        (List.replicate 288 0) (aezSchedule (List.replicate 15 0 ++ [1#8])) 8
        (List.replicate 288 0) mkBlock 0 1).1 224 240 := by
  have hk : extractKey blake2b (List.replicate 15 0 ++ [1#8] ++ List.replicate 32 0) =
      List.replicate 15 0 ++ [1#8] ++ List.replicate 32 0 := if_pos rfl
  have hc : coreSchedule (slice (List.replicate 15 0 ++ [1#8] ++ List.replicate 32 0) 0 16) =
      fun i => doubleBlock^[i / 8 + 1] (List.replicate 15 0 ++ [1#8]) :=
    funext fun i => gfMulBlock_two_pow _ _ rfl
  have ha : aezSchedule (List.replicate 15 0 ++ [1#8]) =
      fun i => doubleBlock^[(i + 7) / 8] (List.replicate 15 0 ++ [1#8]) :=
    funext fun i => gfMulBlock_two_pow _ _ rfl
  rw [aezCorePass1_eq_pass1With (init_derived blake2b _), hk, hc, ha]
  simp (disch := simp) only [AEZState.init, hk, multBlock_two]
  decide

end Aezeed
