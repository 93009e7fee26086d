import Aezeed.CoreSpec

/-!
# The fragment terms of aez-core

When the message length `n` is not a multiple of 32, `aez_core` absorbs the `f = n % 32`
fragment bytes before the final 32 into `X` on its way in and absorbs the fragment it produces
into `Y` on its way out. AEZ uses one function `G` for both (`fragmentG`), and that symmetry
makes decipher's `X` equal encipher's `Y`.

From 16 fragment bytes on, the code keeps `G` on the `Y` side, but applies it to the fragment
held in its copy `dst_fragment` (`coreFragmentY_of_ge`), which never reaches `dst`: there the
fragment keeps what `dst` held before (`slice_aezCore_fragment`). On the `X` side the first
block it encrypts is `tail[16:32]` and not the fragment's first 16 bytes
(`coreFragmentX_of_ge`). `aezCore_fragment_terms_ne` puts the three together on one input.
-/

namespace Aezeed

/-- AEZ's fragment function `G(u)` on a fragment of `f` bytes: `AES4(0, I[1], L[4], u[0..16)) xor
AES4(0, I[1], L[5], one_zero_pad(u[16..f), f - 16))` for `f ≥ 16`, and `AES4(0, I[1], L[4],
one_zero_pad(u, f))` below. -/
def AEZState.fragmentG (st : AEZState) (u : Bytes) (f : Nat) : Bytes :=
  if f ≥ 16 then
    xorBytes1x16 (st.aes.aes4 mkBlock (st.I.getD 1 mkBlock) (st.L.getD 4 mkBlock) (u.take 16))
      (st.aes.aes4 mkBlock (st.I.getD 1 mkBlock) (st.L.getD 5 mkBlock)
        (oneZeroPad (u.drop 16) (f - 16)))
  else st.aes.aes4 mkBlock (st.I.getD 1 mkBlock) (st.L.getD 4 mkBlock) (oneZeroPad u f)

/-! ## Padding -/

/-- The `if size:` of `_one_zero_pad` changes nothing: an empty splice is no splice. -/
theorem oneZeroPad_eq (src : Bytes) (size : Nat) :
    oneZeroPad src size = (setSlice (List.replicate 16 0) 0 size (src.take size)).set size 0x80#8 := by
  rw [oneZeroPad]
  split_ifs with h
  · rfl
  · simp [not_not.mp h, setSlice, mkBlock]

theorem oneZeroPad_take (src : Bytes) (size : Nat) :
    oneZeroPad (src.take size) size = oneZeroPad src size := by
  rw [oneZeroPad_eq, oneZeroPad_eq, List.take_take, min_self]

/-! ## The `X` side -/

/-- From 16 fragment bytes on, the block the `X` side encrypts under `L[4]` is `tail[16:32]`:
the code absorbs `G(tail[16:32] ‖ tail[16:f])`, not `G(tail[0:f])`. -/
theorem coreFragmentX_of_ge (st : AEZState) {tail X : Bytes} {f : Nat} (h16 : 16 ≤ f)
    (htail : 32 ≤ tail.length) (hX : X.length = 16) :
    st.coreFragmentX tail f X =
      xorBytes1x16 X (st.fragmentG (slice tail 16 32 ++ slice tail 16 f) f) := by
  have hs : (slice tail 16 32).length = 16 := by simp; omega
  have hpad : oneZeroPad (slice tail 16 f) (f - 16) = oneZeroPad (tail.drop 16) (f - 16) :=
    oneZeroPad_take _ _
  rw [AEZState.coreFragmentX, if_pos h16, AEZState.fragmentG, if_pos h16, List.take_left' hs,
    List.drop_left' hs, setSlice_zero, show mkBlock.drop 16 = [] from rfl, List.append_nil, hpad]
  exact xorBytes1x16_assoc hX (length_aes4 ..) (length_aes4 ..)

/-! ## The `Y` side -/

theorem take_setSlice_of_le {a v : Bytes} {i j : Nat} (hi : i ≤ a.length) :
    (setSlice a i j v).take i = a.take i := by
  rw [setSlice, List.append_assoc, List.take_left' (by simp [hi])]

/-- The `Y` side absorbs `G` of the fragment as its copy `dst_fragment` holds it. -/
theorem coreFragmentY_of_ge (st : AEZState) {S inputFragment dstFragment Y : Bytes} {f : Nat}
    (h16 : 16 ≤ f) (hin : 16 ≤ inputFragment.length) (hY : Y.length = 16) :
    (st.coreFragmentY S inputFragment dstFragment f Y).2 = xorBytes1x16 Y
      (st.fragmentG ((st.coreFragmentY S inputFragment dstFragment f Y).1.take f) f) := by
  simp only [AEZState.coreFragmentY, if_pos h16, AEZState.fragmentG]
  generalize hb : xorBytes1x16 (inputFragment.take 16) (st.aes.aes10 (st.L.getD 4 mkBlock) S) = b
  have hbl : b.length = 16 := by
    rw [← hb]
    simp only [xorBytes1x16, List.length_zipWith, List.length_take, length_aes10]
    omega
  have hd : (setSlice dstFragment 0 16 b).length ≥ 16 := by
    simp only [setSlice, List.length_append, hbl]
    omega
  have hfirst : ∀ v, ((setSlice (setSlice dstFragment 0 16 b) 16 (16 + (f - 16)) v).take f).take 16 =
      b := fun v => by
    rw [List.take_take, show min 16 f = 16 by omega, take_setSlice_of_le hd, setSlice,
      List.take_zero, List.nil_append, List.take_left' hbl]
  rw [hfirst, oneZeroPad_eq, List.drop_take, List.take_take, min_self,
    xorBytes1x16_assoc hY (length_aes4 ..) (length_aes4 ..)]
  simp only [slice, show 16 + (f - 16) - 16 = f - 16 by omega]

/-- `aez_core` leaves the fragment of `dst` as it found it. -/
theorem slice_aezCore_fragment (st : AEZState) (delta data dst : Bytes) (d : Nat)
    (hn : 32 ≤ data.length) (hdst : data.length ≤ dst.length) :
    slice (st.aezCore delta data d dst) (data.length - 32 - data.length % 32) (data.length - 32) =
      slice dst (data.length - 32 - data.length % 32) (data.length - 32) := by
  have h := drop_aezCore st delta data dst d hn hdst
  rw [show data.length - data.length % 32 - 32 = data.length - 32 - data.length % 32 by omega] at h
  rw [slice, h, slice]

/-! ## A failing input -/

theorem length_fragmentG (st : AEZState) (u : Bytes) (f : Nat) :
    (st.fragmentG u f).length = 16 := by
  unfold AEZState.fragmentG
  split_ifs
  · exact length_xorBytes1x16 _ _ (length_aes4 ..) (length_aes4 ..)
  · exact length_aes4 ..

set_option maxRecDepth 20000 in
/-- On the all-zero key, the message `0^16 ‖ 1^32` (one 16-byte fragment, no initial pairs) and a
zero `dst`, `X` and `Y` are exactly the two fragment terms, and neither is the term AEZ has
there: `X` is not `G` of the input fragment `0^16`, and `Y` is not `G` of the 16 bytes `aez_core`
leaves in `dst` there. -/
theorem aezCore_fragment_terms_ne (blake2b : Blake2b) :
    ((AEZState.init blake2b (List.replicate 48 0)).aezCoreRun mkBlock
        (List.replicate 16 0 ++ List.replicate 32 1) 0 (List.replicate 48 0)).X ≠
      (AEZState.init blake2b (List.replicate 48 0)).fragmentG
        (slice (List.replicate 16 0 ++ List.replicate 32 1) 0 16) 16 ∧
    ((AEZState.init blake2b (List.replicate 48 0)).aezCoreRun mkBlock
        (List.replicate 16 0 ++ List.replicate 32 1) 0 (List.replicate 48 0)).Y ≠
      (AEZState.init blake2b (List.replicate 48 0)).fragmentG
        (slice ((AEZState.init blake2b (List.replicate 48 0)).aezCore mkBlock
          (List.replicate 16 0 ++ List.replicate 32 1) 0 (List.replicate 48 0)) 0 16) 16 := by
  generalize hst : AEZState.init blake2b (List.replicate 48 0) = st
  generalize hdata : (List.replicate 16 0 ++ List.replicate 32 1 : Bytes) = data
  have hlen : data.length = 48 := by rw [← hdata]; rfl
  -- the `X` side absorbs `G(tail[16:32])`, the `Y` side `G` of the copy `dst_fragment`
  have hX : (st.aezCoreRun mkBlock data 0 (List.replicate 48 0)).X =
      st.fragmentG (slice data 16 32 ++ slice data 16 16) 16 := by
    rw [show (st.aezCoreRun mkBlock data 0 (List.replicate 48 0)).X =
        st.coreFragmentX data 16 mkBlock by simp [AEZState.aezCoreRun, hlen],
      coreFragmentX_of_ge st (X := mkBlock) le_rfl (by rw [hlen]; decide) rfl,
      mkBlock_xorBytes1x16 (length_fragmentG ..)]
  have hY : (st.aezCoreRun mkBlock data 0 (List.replicate 48 0)).Y =
      st.fragmentG ((st.aezCoreRun mkBlock data 0 (List.replicate 48 0)).fragment.take 16) 16 := by
    have hfr := @coreFragmentY_of_ge st (st.aezCoreRun mkBlock data 0 (List.replicate 48 0)).S data
      (List.replicate 48 0) mkBlock 16 le_rfl (by rw [hlen]; decide) rfl
    rw [mkBlock_xorBytes1x16 (length_fragmentG ..)] at hfr
    simpa [AEZState.aezCoreRun, hlen] using hfr
  -- `dst` keeps its zero bytes where the fragment goes
  have hfrag := slice_aezCore_fragment st mkBlock data (List.replicate 48 0) 0
    (by rw [hlen]; decide) (by simp [hlen])
  rw [hlen] at hfrag
  rw [hX, hY, hfrag, ← hst, ← hdata]
  have hk : extractKey blake2b (List.replicate 48 0) = List.replicate 48 0 := if_pos rfl
  simp (disch := simp) only [AEZState.init, hk, multBlock_two]
  decide

end Aezeed
