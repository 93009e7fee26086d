import Aezeed.State
import Aezeed.Bits

/-!
# aez-tiny

`_AEZState.aez_tiny`, the Feistel cipher for messages of 1 to 31 bytes, written as the source
writes it: the 16-byte halves `L` and `R`, the 32-byte scratch buffer `buf`, the nibble shifts
for odd lengths and the whitening of the first bit for lengths below 16.
-/

namespace Aezeed

/-- `rounds` and `idx_param` as `aez_tiny` chooses them from the input length. -/
def tinyParams (inBytes : Nat) : Nat × Nat :=
  if inBytes = 1 then (24, 7)
  else if inBytes = 2 then (16, 7)
  else if inBytes < 16 then (10, 7)
  else (8, 6)

/-- `(mask, pad)`: `(0xF0, 0x08)` for odd lengths, where the domain bit lands in the low nibble
of the middle byte, and `(0x00, 0x80)` otherwise. -/
def tinyMaskPad (inBytes : Nat) : BitVec 8 × BitVec 8 :=
  if inBytes &&& 1 ≠ 0 then (0xF0#8, 0x08#8) else (0x00#8, 0x80#8)

/-- The loop `R[k] = ((R[k] << 4) | (R[k + 1] >> 4)) & 0xFF` for `k < half`, followed by
`R[half] = (R[half] << 4) & 0xFF`. -/
def nibbleShiftUp (R : Bytes) (half : Nat) : Bytes :=
  let R := (List.range half).foldl
    (fun R k => R.set k ((R.getD k 0 <<< 4) ||| (R.getD (k + 1) 0 >>> 4))) R
  R.set half (R.getD half 0 <<< 4)

/-- The loop `buf[k] = ((buf[k] >> 4) | (buf[k - 1] << 4)) & 0xFF` for `k` from
`in_bytes - 1` down to `half + 1`. -/
def nibbleShiftDown (buf : Bytes) (inBytes half : Nat) : Bytes :=
  ((List.range (inBytes - 1 - half)).map fun t => inBytes - 1 - t).foldl
    (fun buf k => buf.set k ((buf.getD k 0 >>> 4) ||| (buf.getD (k - 1) 0 <<< 4))) buf

/-- The buffer a half-round of `aez_tiny` hands to `AES4` in `buf[:16]`: the first `left_len`
bytes of `X`, the byte at `mid_index` masked and padded, `delta` xored in, and the counter `j`
xored into byte 15. -/
def tinyBuf (buf X delta : Bytes) (leftLen mid : Nat) (mask pad : BitVec 8) (j : Int) : Bytes :=
  let buf := setSlice buf 0 16 (List.replicate 16 0)
  let buf := setSlice buf 0 leftLen (X.take leftLen)
  let buf := buf.set mid ((buf.getD mid 0 &&& mask) ||| pad)
  let buf := setSlice buf 0 16 (xorBytes1x16 (buf.take 16) delta)
  buf.set 15 (buf.getD 15 0 ^^^ BitVec.ofInt 8 j)

/-- `AES4(ZERO_BLOCK, I[1], L[idx], src)`, the tweaked block cipher of aez-tiny. -/
def AEZState.tinyAes4 (st : AEZState) (idx : Nat) (src : Bytes) : Bytes :=
  st.aes.aes4 mkBlock (st.I.getD 1 mkBlock) (st.L.getD idx mkBlock) src

/-- The `for _ in range(rounds // 2)` loop of `aez_tiny`, on `buf`, `L`, `R` and `j`. -/
def AEZState.tinyRounds (st : AEZState) (delta : Bytes) (leftLen mid idx : Nat)
    (mask pad : BitVec 8) (step : Int) : Nat → Bytes → Bytes → Bytes → Int → Bytes × Bytes × Bytes
  | 0, buf, L, R, _ => (buf, L, R)
  | n + 1, buf, L, R, j =>
    let buf := tinyBuf buf R delta leftLen mid mask pad j
    let L := xorBytes1x16 L (st.tinyAes4 idx (buf.take 16))
    let buf := tinyBuf buf L delta leftLen mid mask pad (j + step)
    let R := xorBytes1x16 R (st.tinyAes4 idx (buf.take 16))
    st.tinyRounds delta leftLen mid idx mask pad step n buf L R (j + step * 2)

/-- `buf[0] |= 0x80` then `buf[:16] = delta ^ buf[:16]`, the block whose encryption whitens the
first bit for `in_bytes < 16`. -/
def whitenBuf (delta buf : Bytes) : Bytes :=
  let buf := buf.set 0 (buf.getD 0 0 ||| 0x80#8)
  setSlice buf 0 16 (xorBytes1x16 delta (buf.take 16))

/-- `AES4(ZERO_BLOCK, I[1], L[3], buf[:16], tmp)` and then `tmp[0] & 0x80`. -/
def AEZState.whitenBit (st : AEZState) (buf : Bytes) : BitVec 8 :=
  (st.tinyAes4 3 (buf.take 16)).getD 0 0 &&& 0x80#8

/-- The halves as `aez_tiny` loads them: `L[:left_len] = data[:left_len]` and
`R[:left_len] = data[right_start:right_start + left_len]`, then for odd lengths the nibble shift
that starts `R` on a byte boundary. -/
def tinyHalves (data : Bytes) : Bytes × Bytes :=
  let inBytes := data.length
  let leftLen := (inBytes + 1) / 2
  let rightStart := inBytes / 2
  let L := setSlice mkBlock 0 leftLen (data.take leftLen)
  let R := setSlice mkBlock 0 leftLen (slice data rightStart (rightStart + leftLen))
  (L, if inBytes &&& 1 ≠ 0 then nibbleShiftUp R (inBytes / 2) else R)

/-- `buf[:half] = R[:half]` and `buf[half:half + left_len] = L[:left_len]`, then for odd lengths
the nibble shift that closes the gap between the two halves. -/
def tinyJoin (buf L R : Bytes) (inBytes : Nat) : Bytes :=
  let half := inBytes / 2
  let leftLen := (inBytes + 1) / 2
  let buf := setSlice buf 0 half (R.take half)
  let buf := setSlice buf half (half + leftLen) (L.take leftLen)
  if inBytes &&& 1 ≠ 0 then
    let buf := nibbleShiftDown buf inBytes half
    buf.set half (((L.getD 0 0 >>> 4) &&& 0x0F#8) ||| (R.getD half 0 &&& 0xF0#8))
  else buf

/-- The buffer `buf` of `aez_tiny` once the halves are loaded, the input whitened (deciphering
below 16 bytes), the rounds run and the halves joined back: its first `in_bytes` bytes are the
result before the output whitening. -/
def AEZState.tinyCore (st : AEZState) (delta data : Bytes) (direction : Nat) : Bytes :=
  let inBytes := data.length
  let buf : Bytes := List.replicate 32 0
  let rounds := (tinyParams inBytes).1
  let idxParam := (tinyParams inBytes).2
  let mask := (tinyMaskPad inBytes).1
  let pad := (tinyMaskPad inBytes).2
  let leftLen := (inBytes + 1) / 2
  let L := (tinyHalves data).1
  let R := (tinyHalves data).2
  let whiten := direction ≠ 0 ∧ inBytes < 16
  let buf := if whiten then
      whitenBuf delta (setSlice (setSlice buf 0 16 (List.replicate 16 0)) 0 inBytes data)
    else buf
  let L := if whiten then L.set 0 (L.getD 0 0 ^^^ st.whitenBit buf) else L
  let j : Int := if direction ≠ 0 then rounds - 1 else 0
  let step : Int := if direction ≠ 0 then -1 else 1
  let r := st.tinyRounds delta leftLen (inBytes / 2) idxParam mask pad step (rounds / 2) buf L R j
  tinyJoin r.1 r.2.1 r.2.2 inBytes

/-- `_AEZState.aez_tiny(delta, data, direction, dst)`: the contents of `dst` afterwards. -/
def AEZState.aezTiny (st : AEZState) (delta data : Bytes) (direction : Nat) (dst : Bytes) :
    Bytes :=
  let inBytes := data.length
  let buf := st.tinyCore delta data direction
  let dst := setSlice dst 0 inBytes (buf.take inBytes)
  if inBytes < 16 ∧ direction = 0 then
    let buf := whitenBuf delta (setSlice buf inBytes 16 (List.replicate (16 - inBytes) 0))
    dst.set 0 (dst.getD 0 0 ^^^ st.whitenBit buf)
  else dst

end Aezeed
