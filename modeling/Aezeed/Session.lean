import Aezeed.Core
import Aezeed.Hash
import Aezeed.Field

/-!
# The `_AEZState` object

An `_AEZState` between method calls, and what `reset`, `init` and the four queries `aez_hash`,
`aez_prf`, `encipher` and `decipher` do to it. `reset` zeroes every block in place and `init`
overwrites the blocks one statement at a time. The queries write only to their local blocks and
to `dst`: every `AES4` and `AES10` call writes its own `dst` argument, and `I_tmp` starts as a
copy of `I[1]`, never as `I[1]` itself. So a query leaves the object as it was.

The abstract model is the key of the last `init` since construction or the last `reset`: the
blocks are always the GF(2^128) tables `I[k] = (k + 1) * I`, `J[k] = 2^k * J`, `L[k] = k * L`
of that key's thirds, or of zero blocks when there is none (`blocks_run`). Once `init(key)` has
run since the last `reset`, the object holds that key's round keys too (`aes_run`), so it answers
every query as the model's `AEZState.init blake2b key`, the state `_aez_decrypt` works on
(`answer_run_new`).
-/

namespace Aezeed

/-- A call of `aez_hash`, `aez_prf`, `encipher` or `decipher`, with its arguments. -/
inductive AEZQuery
  | aezHash (nonce : Option Bytes) (ad : List Bytes) (tau : Nat)
  | aezPrf (delta : Bytes) (tau : Nat) (dst : Bytes)
  | encipher (delta data dst : Bytes)
  | decipher (delta data dst : Bytes)

/-- What a query returns (`aez_hash`) or leaves in its `dst` (the others). -/
def AEZState.answer (st : AEZState) : AEZQuery → Bytes
  | .aezHash nonce ad tau => st.aezHash nonce ad tau
  | .aezPrf delta tau dst => st.aezPrf delta tau dst
  | .encipher delta data dst => st.encipher delta data dst
  | .decipher delta data dst => st.decipher delta data dst

inductive AEZCall
  | reset
  | init (key : Bytes)
  | query (q : AEZQuery)

/-- An `_AEZState` object between calls: its blocks, and its `_AESRound` once `init` has made
one (`none` after construction). -/
structure AEZObject where
  I : List Bytes
  J : List Bytes
  L : List Bytes
  aes : Option AESRound

namespace AEZObject

def new : AEZObject :=
  ⟨List.replicate 2 mkBlock, List.replicate 3 mkBlock, List.replicate 8 mkBlock, none⟩

/-- `buf[i] = 0` for every `i in range(len(buf))`. -/
def zeroBlock (buf : Bytes) : Bytes := buf.map fun _ => 0

def reset (o : AEZObject) : AEZObject :=
  ⟨o.I.map zeroBlock, o.J.map zeroBlock, o.L.map zeroBlock, o.aes.map AESRound.reset⟩

/-- `init(key)`: each statement overwrites one block in place, in the source's order; `L[0]`
is not written. -/
def init (blake2b : Blake2b) (o : AEZObject) (key : Bytes) : AEZObject :=
  let extracted := extractKey blake2b key
  let I := o.I.set 0 (slice extracted 0 16)
  let I := I.set 1 (multBlock 2 (I.getD 0 mkBlock))
  let J := o.J.set 0 (slice extracted 16 32)
  let J := J.set 1 (multBlock 2 (J.getD 0 mkBlock))
  let J := J.set 2 (multBlock 2 (J.getD 1 mkBlock))
  let L := o.L.set 1 (slice extracted 32 48)
  let L := L.set 2 (multBlock 2 (L.getD 1 mkBlock))
  let L := L.set 3 (xorBytes1x16 (L.getD 2 mkBlock) (L.getD 1 mkBlock))
  let L := L.set 4 (multBlock 2 (L.getD 2 mkBlock))
  let L := L.set 5 (xorBytes1x16 (L.getD 4 mkBlock) (L.getD 1 mkBlock))
  let L := L.set 6 (multBlock 2 (L.getD 3 mkBlock))
  let L := L.set 7 (xorBytes1x16 (L.getD 6 mkBlock) (L.getD 1 mkBlock))
  ⟨I, J, L, some (AESRound.new extracted)⟩

/-- A query on the object: `none` when it stops at `assert self.aes is not None`, which
`encipher` and `decipher` reach only for nonempty data. -/
def answer (o : AEZObject) (q : AEZQuery) : Option Bytes :=
  match o.aes, q with
  | some aes, q => some ((⟨o.I, o.J, o.L, aes⟩ : AEZState).answer q)
  | none, .encipher _ [] dst => some dst
  | none, .decipher _ [] dst => some dst
  | none, _ => none

def step (blake2b : Blake2b) (o : AEZObject) : AEZCall → AEZObject
  | .reset => o.reset
  | .init key => o.init blake2b key
  | .query _ => o

def run (blake2b : Blake2b) (o : AEZObject) (calls : List AEZCall) : AEZObject :=
  calls.foldl (step blake2b) o

def blocks (o : AEZObject) : List Bytes × List Bytes × List Bytes := (o.I, o.J, o.L)

end AEZObject

/-! ## The abstract model -/

/-- The key of the last `init`, after a call; `reset` forgets it. -/
def currentKey : Option Bytes → AEZCall → Option Bytes
  | _, .reset => none
  | _, .init key => some key
  | k, .query _ => k

/-- The GF(2^128) tables `I[k] = (k + 1) * I`, `J[k] = 2^k * J` and `L[k] = k * L`. -/
def gfTables (I J L : Bytes) : List Bytes × List Bytes × List Bytes :=
  ((List.range 2).map fun k => gfMulBlock (k + 1) I,
    (List.range 3).map fun k => gfMulBlock (2 ^ k) J,
    (List.range 8).map fun k => gfMulBlock k L)

/-- The thirds `I`, `J`, `L` of the extracted key, or zero blocks when there is no key. -/
def keyThirds (blake2b : Blake2b) : Option Bytes → Bytes × Bytes × Bytes
  | none => (mkBlock, mkBlock, mkBlock)
  | some key =>
    let extracted := extractKey blake2b key
    (slice extracted 0 16, slice extracted 16 32, slice extracted 32 48)

/-- The blocks an object holds when `k` is its current key. -/
def keyBlocks (blake2b : Blake2b) (k : Option Bytes) : List Bytes × List Bytes × List Bytes :=
  gfTables (keyThirds blake2b k).1 (keyThirds blake2b k).2.1 (keyThirds blake2b k).2.2

/-! ## Tables -/

theorem eq_map_range_of_getD {l : List Bytes} {n : Nat} (hl : l.length = n) (f : Nat → Bytes)
    (h : ∀ k < n, l.getD k mkBlock = f k) : l = (List.range n).map f := by
  refine List.ext_getElem (by simp [hl]) fun k h1 h2 => ?_
  rw [List.getElem_map, List.getElem_range, ← h k (by omega), List.getD_eq_getElem _ _ h1]

theorem init_eq_gfTables (blake2b : Blake2b) (key : Bytes) :
    ((AEZState.init blake2b key).I, (AEZState.init blake2b key).J, (AEZState.init blake2b key).L) =
      keyBlocks blake2b (some key) := by
  have h := init_derived blake2b key
  simp only [keyBlocks, keyThirds, gfTables, Prod.mk.injEq]
  exact ⟨eq_map_range_of_getD rfl _ h.getD_I, eq_map_range_of_getD rfl _ h.getD_J,
    eq_map_range_of_getD rfl _ h.getD_L⟩

theorem keyBlocks_none (blake2b : Blake2b) :
    keyBlocks blake2b none =
      (List.replicate 2 mkBlock, List.replicate 3 mkBlock, List.replicate 8 mkBlock) := by
  simp only [keyBlocks, keyThirds, gfTables, gfMulBlock_mkBlock]
  rfl

theorem length_mem_keyBlocks (blake2b : Blake2b) (k : Option Bytes) (b : Bytes)
    (hb : b ∈ (keyBlocks blake2b k).1 ∨ b ∈ (keyBlocks blake2b k).2.1 ∨
      b ∈ (keyBlocks blake2b k).2.2) : b.length = 16 := by
  simp only [keyBlocks, gfTables, List.mem_map] at hb
  rcases hb with ⟨_, _, rfl⟩ | ⟨_, _, rfl⟩ | ⟨_, _, rfl⟩ <;> exact length_gfMulBlock _ _

/-! ## Steps and runs -/

namespace AEZObject

theorem zeroBlock_of_length {b : Bytes} (hb : b.length = 16) : zeroBlock b = mkBlock := by
  rw [zeroBlock, List.map_const', hb]
  rfl

theorem map_zeroBlock {l : List Bytes} (hl : ∀ b ∈ l, b.length = 16) :
    l.map zeroBlock = List.replicate l.length mkBlock := by
  rw [List.map_congr_left fun b hb => zeroBlock_of_length (hl b hb), List.map_const']

theorem blocks_eq_iff (o : AEZObject) (t : List Bytes × List Bytes × List Bytes) :
    o.blocks = t ↔ o.I = t.1 ∧ o.J = t.2.1 ∧ o.L = t.2.2 := by
  simp only [blocks, Prod.ext_iff]

theorem blocks_reset (blake2b : Blake2b) {o : AEZObject} {k : Option Bytes}
    (ho : o.blocks = keyBlocks blake2b k) : o.reset.blocks = keyBlocks blake2b none := by
  have hlen := length_mem_keyBlocks blake2b k
  obtain ⟨hI, hJ, hL⟩ := (blocks_eq_iff o _).mp ho
  simp only [reset, blocks, keyBlocks_none, Prod.mk.injEq]
  rw [map_zeroBlock (hI ▸ fun b hb => hlen b (.inl hb)),
    map_zeroBlock (hJ ▸ fun b hb => hlen b (.inr (.inl hb))),
    map_zeroBlock (hL ▸ fun b hb => hlen b (.inr (.inr hb))), hI, hJ, hL]
  simp [keyBlocks, gfTables]

/-- `init` writes every block but `L[0]`, so on blocks of the right shape with `L[0]` zero it
builds what `init` builds on a fresh state. -/
theorem blocks_init (blake2b : Blake2b) (key : Bytes) {o : AEZObject}
    {i0 i1 j0 j1 j2 l1 l2 l3 l4 l5 l6 l7 : Bytes} (hI : o.I = [i0, i1]) (hJ : o.J = [j0, j1, j2])
    (hL : o.L = [mkBlock, l1, l2, l3, l4, l5, l6, l7]) :
    (o.init blake2b key).blocks = keyBlocks blake2b (some key) := by
  rw [← init_eq_gfTables]
  simp only [init, blocks, AEZState.init, hI, hJ, hL, List.set_cons_zero, List.set_cons_succ,
    List.getD_cons_zero, List.getD_cons_succ]

theorem blocks_eq_keyBlocks_shape (blake2b : Blake2b) {o : AEZObject} {k : Option Bytes}
    (ho : o.blocks = keyBlocks blake2b k) :
    ∃ i0 i1 j0 j1 j2 l1 l2 l3 l4 l5 l6 l7 : Bytes, o.I = [i0, i1] ∧ o.J = [j0, j1, j2] ∧
      o.L = [mkBlock, l1, l2, l3, l4, l5, l6, l7] := by
  obtain ⟨hI, hJ, hL⟩ := (blocks_eq_iff o _).mp ho
  rw [hI, hJ, hL]
  simp only [keyBlocks, gfTables]
  simp only [List.range_succ, List.range_zero, List.nil_append, List.singleton_append,
    List.map_cons, List.map_nil, List.cons_append, gfMulBlock_zero]
  exact ⟨_, _, _, _, _, _, _, _, _, _, _, _, rfl, rfl, rfl⟩

/-- One call moves the blocks along with the abstract key. -/
theorem blocks_step (blake2b : Blake2b) {o : AEZObject} {k : Option Bytes}
    (ho : o.blocks = keyBlocks blake2b k) (c : AEZCall) :
    (o.step blake2b c).blocks = keyBlocks blake2b (currentKey k c) := by
  cases c with
  | reset => exact blocks_reset blake2b ho
  | init key =>
    obtain ⟨_, _, _, _, _, _, _, _, _, _, _, _, hI, hJ, hL⟩ := blocks_eq_keyBlocks_shape blake2b ho
    exact blocks_init blake2b key hI hJ hL
  | query q => exact ho

/-- Over any sequence of calls, the blocks are the tables of the current key. -/
theorem blocks_run (blake2b : Blake2b) (calls : List AEZCall) :
    ∀ {o : AEZObject} {k : Option Bytes}, o.blocks = keyBlocks blake2b k →
      (o.run blake2b calls).blocks = keyBlocks blake2b (calls.foldl currentKey k) := by
  induction calls with
  | nil => exact id
  | cons c calls ih => exact fun ho => ih (blocks_step blake2b ho c)

theorem blocks_new (blake2b : Blake2b) : new.blocks = keyBlocks blake2b none :=
  (keyBlocks_none blake2b).symm

theorem run_queries (blake2b : Blake2b) (o : AEZObject) (qs : List AEZQuery) :
    o.run blake2b (qs.map .query) = o := by
  induction qs with
  | nil => rfl
  | cons q qs ih => exact ih

theorem aes_step (blake2b : Blake2b) {o : AEZObject} {k : Option Bytes}
    (ho : ∀ key, k = some key → o.aes = some (AESRound.new (extractKey blake2b key)))
    (c : AEZCall) (key : Bytes) (hc : currentKey k c = some key) :
    (o.step blake2b c).aes = some (AESRound.new (extractKey blake2b key)) := by
  cases c with
  | reset => cases hc
  | init key' => cases hc; rfl
  | query q => exact ho key hc

theorem aes_run (blake2b : Blake2b) (calls : List AEZCall) :
    ∀ {o : AEZObject} {k : Option Bytes},
      (∀ key, k = some key → o.aes = some (AESRound.new (extractKey blake2b key))) →
      ∀ key, calls.foldl currentKey k = some key →
        (o.run blake2b calls).aes = some (AESRound.new (extractKey blake2b key)) := by
  induction calls with
  | nil => exact id
  | cons c calls ih => exact fun ho => ih (aes_step blake2b ho c)

/-- The object refines the model's `AEZState.init`: from construction, whatever calls came
before, an object whose last `reset` or `init` was `init(key)` answers every query as
`AEZState.init blake2b key` does. -/
theorem answer_run_new (blake2b : Blake2b) (calls : List AEZCall) {key : Bytes}
    (hkey : calls.foldl currentKey none = some key) (q : AEZQuery) :
    (new.run blake2b calls).answer q = some ((AEZState.init blake2b key).answer q) := by
  have hb := blocks_run blake2b calls (blocks_new blake2b)
  rw [hkey, ← init_eq_gfTables] at hb
  obtain ⟨hI, hJ, hL⟩ := (blocks_eq_iff _ _).mp hb
  have ha := aes_run blake2b calls (o := new) (fun _ h => Option.noConfusion h) key hkey
  simp only [answer, ha, hI, hJ, hL]
  rfl

theorem answer_run_new_reinit :
    [AEZCall.init [1], .query (.aezHash none [] 0), .reset, .init []].foldl currentKey none =
        some [] ∧
      (new.run ⟨fun _ size => List.replicate size 0, fun _ _ => List.length_replicate _ _⟩
          [.init [1], .query (.aezHash none [] 0), .reset, .init []]).answer
          (.aezHash none [] 0) =
        some ((AEZState.init ⟨fun _ size => List.replicate size 0,
          fun _ _ => List.length_replicate _ _⟩ []).answer (.aezHash none [] 0)) :=
  ⟨rfl, answer_run_new _ _ (by rfl) _⟩

end AEZObject

/-- After construction, `reset` and `init(key)`, the blocks are `I[0] = I`, `I[1] = 2 * I`,
`J[k] = 2^k * J` and `L[i] = i * L` in GF(2^128), with `I`, `J`, `L` the thirds of the extracted
key, and any sequence of queries leaves them unchanged. -/
theorem init_blocks_invariant (blake2b : Blake2b) (key : Bytes) (qs : List AEZQuery) :
    let o := AEZObject.new.run blake2b [.reset, .init key]
    let I := slice (extractKey blake2b key) 0 16
    let J := slice (extractKey blake2b key) 16 32
    let L := slice (extractKey blake2b key) 32 48
    (o.run blake2b (qs.map .query)).blocks = o.blocks ∧
      o.I.length = 2 ∧ o.J.length = 3 ∧ o.L.length = 8 ∧
      o.I.getD 0 mkBlock = I ∧ IsGfBlock 2 I (o.I.getD 1 mkBlock) ∧
      o.J.getD 0 mkBlock = J ∧ IsGfBlock 2 J (o.J.getD 1 mkBlock) ∧
      IsGfBlock 4 J (o.J.getD 2 mkBlock) ∧
      o.L.getD 0 mkBlock = mkBlock ∧ ∀ i < 8, IsGfBlock i L (o.L.getD i mkBlock) := by
  intro o I J L
  have hI := length_slice_extractKey blake2b key 0 (by omega)
  have hJ := length_slice_extractKey blake2b key 16 (by omega)
  have hL := length_slice_extractKey blake2b key 32 (by omega)
  have ho : o.blocks = gfTables I J L :=
    AEZObject.blocks_run blake2b [.reset, .init key] (AEZObject.blocks_new blake2b)
  obtain ⟨hoI, hoJ, hoL⟩ := (AEZObject.blocks_eq_iff o _).mp ho
  simp only [gfTables] at hoI hoJ hoL
  refine ⟨by rw [AEZObject.run_queries], by simp [hoI], by simp [hoJ], by simp [hoL], ?_, ?_, ?_, ?_,
    ?_, ?_, fun i hi => ?_⟩
  · simp [hoI, gfMulBlock_one _ hI]
  · simpa [hoI] using isGfBlock_gfMulBlock 2 hI
  · simp [hoJ, gfMulBlock_one _ hJ]
  · simpa [hoJ] using isGfBlock_gfMulBlock 2 hJ
  · simpa [hoJ] using isGfBlock_gfMulBlock 4 hJ
  · simp [hoL, gfMulBlock_zero]
  · rw [hoL, List.getD_eq_getElem _ _ (by simpa using hi)]
    simpa using isGfBlock_gfMulBlock i hL

end Aezeed
