import Aezeed.Tiny

/-!
# aez-core

`_AEZState.aez_core`, the cipher for messages of 32 bytes or more, with its two passes
`aez_core_pass1` and `aez_core_pass2` over the initial 32-byte pairs, and the dispatch
`encipher` / `decipher` between it and `aez_tiny`.

`aez_core` reaches the fragment and the final 32 bytes of `dst` through `dst[a:]` and
`dst[a:b]`, and in Python such a slice of a bytearray is a new bytearray. Its writes to
`dst_fragment` and `dst_tail` land in those copies, so of everything it computes only the two
passes reach `dst`. `CoreRun` keeps the copies as values of their own.

The model reads every block it slices out of `dst` or the input as the source does; on a `dst`
shorter than the input, where the source raises `IndexError`, the blocks come out short.
-/

namespace Aezeed

/-- Pair `i` of `aez_core_pass1` (counted from 1), input blocks `(in1, in2)`, through `I_tmp`:
`first_out = in1 xor AES4(J[0], I_tmp, L[i % 8], in2)` and `second_out = in2 xor AES4(0, I[0],
L[0], first_out)`. -/
def AEZState.pass1Pair (st : AEZState) (iTmp : Bytes) (i : Nat) (in1 in2 : Bytes) :
    Bytes × Bytes :=
  let tmp := st.aes.aes4 (st.J.getD 0 mkBlock) iTmp (st.L.getD (i % 8) mkBlock) in2
  let firstOut := xorBytes1x16 in1 tmp
  let tmp := st.aes.aes4 mkBlock (st.I.getD 0 mkBlock) (st.L.getD 0 mkBlock) firstOut
  (firstOut, xorBytes1x16 in2 tmp)

/-- The `while remaining >= 64` loop of `aez_core_pass1`, run `count` times from byte `offset`:
both blocks of the pair go to `output`, `second_out` is xored into `X`, and `I_tmp` doubles
once `i`, already stepped, is a multiple of 8. -/
def AEZState.pass1Loop (st : AEZState) (input : Bytes) :
    Nat → (output X iTmp : Bytes) → (offset i : Nat) → Bytes × Bytes
  | 0, output, X, _, _, _ => (output, X)
  | count + 1, output, X, iTmp, offset, i =>
    let out := st.pass1Pair iTmp i (slice input offset (offset + 16))
      (slice input (offset + 16) (offset + 32))
    let output := setSlice output offset (offset + 16) out.1
    let output := setSlice output (offset + 16) (offset + 32) out.2
    let X := xorBytes1x16 out.2 X
    let i := i + 1
    let iTmp := if i % 8 = 0 then doubleBlock iTmp else iTmp
    st.pass1Loop input count output X iTmp (offset + 32) i

/-- `_AEZState.aez_core_pass1(input_bytes, output, X)`: `output` and `X` afterwards. The loop
runs while `remaining >= 64`, with `remaining` counting down from `len(input_bytes)` by 32, that
is `(len(input_bytes) - 32) // 32` times. -/
def AEZState.aezCorePass1 (st : AEZState) (input output X : Bytes) : Bytes × Bytes :=
  st.pass1Loop input ((input.length - 32) / 32) output X (st.I.getD 1 mkBlock) 0 1

/-- Pair `i` of `aez_core_pass2`, `(first_out, second_out)` as pass 1 left them, through
`I_tmp`: both blocks take `AES4(J[1], I_tmp, L[i % 8], S)`, then two more `AES4` calls mix them.
The result is the block xored into `Y` and the two blocks written back, swapped. -/
def AEZState.pass2Pair (st : AEZState) (S iTmp : Bytes) (i : Nat) (firstOut secondOut : Bytes) :
    Bytes × Bytes × Bytes :=
  let tmp := st.aes.aes4 (st.J.getD 1 mkBlock) iTmp (st.L.getD (i % 8) mkBlock) S
  let firstOut := xorBytes1x16 firstOut tmp
  let secondOut := xorBytes1x16 secondOut tmp
  let yTerm := firstOut
  let tmp := st.aes.aes4 mkBlock (st.I.getD 0 mkBlock) (st.L.getD 0 mkBlock) secondOut
  let firstOut := xorBytes1x16 firstOut tmp
  let tmp := st.aes.aes4 (st.J.getD 0 mkBlock) iTmp (st.L.getD (i % 8) mkBlock) firstOut
  (yTerm, xorBytes1x16 secondOut tmp, firstOut)

/-- The `while remaining >= 64` loop of `aez_core_pass2`, run `count` times from byte `offset`
over the pairs pass 1 left in `output`. -/
def AEZState.pass2Loop (st : AEZState) (S : Bytes) :
    Nat → (output Y iTmp : Bytes) → (offset i : Nat) → Bytes × Bytes
  | 0, output, Y, _, _, _ => (output, Y)
  | count + 1, output, Y, iTmp, offset, i =>
    let out := st.pass2Pair S iTmp i (slice output offset (offset + 16))
      (slice output (offset + 16) (offset + 32))
    let Y := xorBytes1x16 out.1 Y
    let output := setSlice output offset (offset + 16) out.2.1
    let output := setSlice output (offset + 16) (offset + 32) out.2.2
    let i := i + 1
    let iTmp := if i % 8 = 0 then doubleBlock iTmp else iTmp
    st.pass2Loop S count output Y iTmp (offset + 32) i

/-- `_AEZState.aez_core_pass2(input_bytes, output, Y, S)`: `output` and `Y` afterwards. The
input is read only for its length. -/
def AEZState.aezCorePass2 (st : AEZState) (input output Y S : Bytes) : Bytes × Bytes :=
  st.pass2Loop S ((input.length - 32) / 32) output Y (st.I.getD 1 mkBlock) 0 1

/-- The `Finish X` step of `aez_core`: the fragment at the head of `tail = input_bytes[
initial_bytes:]` is absorbed into `X`. For a fragment of 16 bytes or more the block handed to
`AES4(0, I[1], L[4], ..)` is `tail[16:32]`, and the padded rest is `tail[16:]`. -/
def AEZState.coreFragmentX (st : AEZState) (tail : Bytes) (fragBytes : Nat) (X : Bytes) :
    Bytes :=
  if fragBytes ≥ 16 then
    let buf := setSlice mkBlock 0 16 (slice tail 16 32)
    let X := xorBytes1x16 X (st.aes.aes4 mkBlock (st.I.getD 1 mkBlock) (st.L.getD 4 mkBlock) buf)
    let padded := oneZeroPad (tail.drop 16) (fragBytes - 16)
    xorBytes1x16 X (st.aes.aes4 mkBlock (st.I.getD 1 mkBlock) (st.L.getD 5 mkBlock) padded)
  else if fragBytes > 0 then
    let padded := oneZeroPad tail fragBytes
    xorBytes1x16 X (st.aes.aes4 mkBlock (st.I.getD 1 mkBlock) (st.L.getD 4 mkBlock) padded)
  else X

/-- The first pass over the final 32 input bytes: `first_dst = X xor block1 xor delta xor
AES4(0, I[1], L[(1 + d) % 8], block2)` and `second_dst = block2 xor AES10(L[(1 + d) % 8],
first_dst)`. -/
def AEZState.coreTailPair (st : AEZState) (delta X inputTail : Bytes) (direction : Nat) :
    Bytes × Bytes :=
  let block1 := setSlice mkBlock 0 16 (inputTail.take 16)
  let block2 := setSlice mkBlock 0 16 (slice inputTail 16 32)
  let l := st.L.getD ((1 + direction) % 8) mkBlock
  let tmp := st.aes.aes4 mkBlock (st.I.getD 1 mkBlock) l block2
  let firstDst := xorBytes4x16 X block1 delta tmp
  let secondDst := xorBytes1x16 block2 (st.aes.aes10 l firstDst)
  (firstDst, secondDst)

/-- The loop `for idx in range(n): buf[idx] ^= fragment[idx]`. -/
def xorPrefix (buf fragment : Bytes) (n : Nat) : Bytes :=
  (List.range n).foldl (fun buf idx => buf.set idx (buf.getD idx 0 ^^^ fragment.getD idx 0)) buf

/-- The `Finish Y` step of `aez_core`: the fragment is encrypted under `AES10(L[4], S)` (and
`AES10(L[5], S)` past 16 bytes) into the copy `dst_fragment`, and what that copy then holds is
absorbed into `Y`. The result is the copy and `Y`. -/
def AEZState.coreFragmentY (st : AEZState) (S inputFragment dstFragment : Bytes)
    (fragBytes : Nat) (Y : Bytes) : Bytes × Bytes :=
  if fragBytes ≥ 16 then
    let tmpBlock := st.aes.aes10 (st.L.getD 4 mkBlock) S
    let block := xorBytes1x16 (inputFragment.take 16) tmpBlock
    let dstFragment := setSlice dstFragment 0 16 block
    let Y := xorBytes1x16 Y (st.aes.aes4 mkBlock (st.I.getD 1 mkBlock) (st.L.getD 4 mkBlock) block)
    let remaining := fragBytes - 16
    let tmpBlock := st.aes.aes10 (st.L.getD 5 mkBlock) S
    let fragment := slice inputFragment 16 (16 + remaining)
    let buf := xorPrefix tmpBlock fragment remaining
    let dstFragment := setSlice dstFragment 16 (16 + remaining) (buf.take remaining)
    let buf := setSlice (List.replicate 16 0) 0 remaining (slice dstFragment 16 (16 + remaining))
    let buf := buf.set remaining 0x80#8
    let Y := xorBytes1x16 Y (st.aes.aes4 mkBlock (st.I.getD 1 mkBlock) (st.L.getD 5 mkBlock) buf)
    (dstFragment, Y)
  else if fragBytes > 0 then
    let tmpBlock := st.aes.aes10 (st.L.getD 4 mkBlock) S
    let fragment := inputFragment.take fragBytes
    let buf := xorPrefix tmpBlock fragment fragBytes
    let dstFragment := setSlice dstFragment 0 fragBytes (buf.take fragBytes)
    let buf := setSlice (List.replicate 16 0) 0 fragBytes (dstFragment.take fragBytes)
    let buf := buf.set fragBytes 0x80#8
    let Y := xorBytes1x16 Y (st.aes.aes4 mkBlock (st.I.getD 1 mkBlock) (st.L.getD 4 mkBlock) buf)
    (dstFragment, Y)
  else (dstFragment, Y)

/-- The last pass over the final 32 bytes, on the copy `dst_tail`: its first half takes
`AES10(L[(2 - d) % 8], second half)`, its second half `AES4(0, I[1], L[(2 - d) % 8], first
half) xor delta xor Y`, and the halves are swapped. -/
def AEZState.coreFinalTail (st : AEZState) (delta Y dstTail : Bytes) (direction : Nat) :
    Bytes :=
  let l := st.L.getD ((2 - direction) % 8) mkBlock
  let secondHalf := slice dstTail 16 32
  let firstHalf := xorBytes1x16 (dstTail.take 16) (st.aes.aes10 l secondHalf)
  let dstTail := setSlice dstTail 0 16 firstHalf
  let tmp := st.aes.aes4 mkBlock (st.I.getD 1 mkBlock) l firstHalf
  let combined := xorBytes4x16 tmp (slice dstTail 16 32) delta Y
  let dstTail := setSlice dstTail 16 32 combined
  let tmpCopy := dstTail.take 16
  let dstTail := setSlice dstTail 0 16 combined
  setSlice dstTail 16 32 tmpCopy

/-- Everything one run of `aez_core` computes: the blocks `X`, `S` and `Y`, the copies
`dst_fragment` and `dst_tail` as its last writes leave them, and `dst` itself. -/
structure CoreRun where
  X : Bytes
  S : Bytes
  Y : Bytes
  fragment : Bytes
  tail : Bytes
  dst : Bytes

/-- `_AEZState.aez_core(delta, data, direction, dst)`, step by step. -/
def AEZState.aezCoreRun (st : AEZState) (delta data : Bytes) (direction : Nat) (dst : Bytes) :
    CoreRun :=
  let inBytes := data.length
  let fragBytes := inBytes % 32
  let initialBytes := inBytes - fragBytes - 32
  let p1 := if inBytes ≥ 64 then st.aezCorePass1 data dst mkBlock else (dst, mkBlock)
  let X := st.coreFragmentX (data.drop initialBytes) fragBytes p1.2
  let pair := st.coreTailPair delta X (slice data (inBytes - 32) inBytes) direction
  let S := xorBytes1x16 pair.1 pair.2
  let p2 := if inBytes ≥ 64 then st.aezCorePass2 data p1.1 mkBlock S else (p1.1, mkBlock)
  let frag := st.coreFragmentY S (data.drop initialBytes) (p2.1.drop initialBytes) fragBytes p2.2
  let tail := st.coreFinalTail delta frag.2 (slice p2.1 (inBytes - 32) inBytes) direction
  { X := X, S := S, Y := frag.2, fragment := frag.1, tail := tail, dst := p2.1 }

/-- `_AEZState.aez_core(delta, data, direction, dst)`: the contents of `dst` afterwards. -/
def AEZState.aezCore (st : AEZState) (delta data : Bytes) (direction : Nat) (dst : Bytes) :
    Bytes :=
  (st.aezCoreRun delta data direction dst).dst

/-- `_AEZState.encipher(delta, data, dst)`: the contents of `dst` afterwards. -/
def AEZState.encipher (st : AEZState) (delta data dst : Bytes) : Bytes :=
  if data.isEmpty then dst
  else if data.length < 32 then st.aezTiny delta data 0 dst
  else st.aezCore delta data 0 dst

/-- `_AEZState.decipher(delta, data, dst)`: the contents of `dst` afterwards. -/
def AEZState.decipher (st : AEZState) (delta data dst : Bytes) : Bytes :=
  if data.isEmpty then dst
  else if data.length < 32 then st.aezTiny delta data 1 dst
  else st.aezCore delta data 1 dst

end Aezeed
