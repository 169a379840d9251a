import Webycash.Compute.Threads
/-!
# The wgpu backend (`server/src/compute/wgpu_compute.rs`)

The host pads every input and writes all blocks into one buffer of big-endian words, with the word
offset and the number of blocks of each; a thread only loads and compresses. The buffers are made once
and keep what earlier dispatches left, so the rest of each is arbitrary. A write that does not fit is
refused by the device.

| here | there |
| --- | --- |
| `padded`, `sha256PadInputs` | wgpu_compute.rs:257 |
| `kernel`                    | `sha256_batch` (wgpu_compute.rs:401) |
| `Buffer`, `Device`, `Gpu`   | the buffers (wgpu_compute.rs:113), the order in which a launch runs its threads |
| `sha256Chunk`, `sha256Batch`| `gpu_sha256_batch` (wgpu_compute.rs:165) |
-/

namespace Webycash.Compute

/-- `usize::div_ceil`. -/
def divCeil (a b : Nat) : Nat := (a + b - 1) / b

/-- `slice::chunks`. -/
def chunks {α : Type} (size : Nat) (l : List α) : List (List α) :=
  if _h : l = [] ∨ size = 0 then [] else l.take size :: chunks size (l.drop size)
termination_by l.length
decreasing_by
  have : l.length ≠ 0 := fun hl => _h (.inl (List.eq_nil_of_length_eq_zero hl))
  rw [List.length_drop]
  omega

/-- `u32::from_be_bytes`. -/
def fromBeBytes (a b c d : UInt8) : UInt32 :=
  UInt32.ofNat (a.toNat * 2 ^ 24 + b.toNat * 2 ^ 16 + c.toNat * 2 ^ 8 + d.toNat)

/-- `chunks_exact(4)` as words. -/
def beWords : List UInt8 → List UInt32
  | a :: b :: c :: d :: l => fromBeBytes a b c d :: beWords l
  | _ => []

/-- `u64::to_be_bytes`. -/
def toBeBytes (x : UInt64) : List UInt8 := (List.range 8).map fun i => UInt8.ofNat (x.toNat / 2 ^ (56 - 8 * i) % 256)

namespace Wgpu

def maxHashesPerDispatch : Nat := 65536
def maxInputBytes : Nat := maxHashesPerDispatch * 256
def outputWordsPerHash : Nat := 8

/-! ## Padding on the host -/

def blocksOf (input : List UInt8) : Nat := divCeil (input.length + 9) 64

/-- Data, `0x80`, zeros up to the last eight bytes, the bit length. -/
def padded (input : List UInt8) : List UInt8 :=
  let paddedLen := blocksOf input * 64
  (input ++ 0x80 :: List.replicate paddedLen 0).take (paddedLen - 8) ++ toBeBytes (UInt64.ofNat input.length * 8)

def padWords (input : List UInt8) : List UInt32 := beWords (padded input)

/-- `[word_offset, num_blocks]` for every input. -/
def metaData : UInt32 → List (List UInt8) → List UInt32
  | _, [] => []
  | wordOffset, input :: inputs =>
    let numBlocks := UInt32.ofNat (blocksOf input)
    wordOffset :: numBlocks :: metaData (wordOffset + numBlocks * 16) inputs

def sha256PadInputs (inputs : List (List UInt8)) : List UInt32 × List UInt32 :=
  (inputs.flatMap padWords, metaData 0 inputs)

/-! ## The kernel -/

def kernel (inputData offsetsLens : List UInt32) (idx : UInt32) : Regs :=
  let wordOffset := offsetsLens.getD (idx * 2).toNat 0
  let numBlocks := offsetsLens.getD (idx * 2 + 1).toNat 0
  (List.range numBlocks.toNat).foldl (fun h blk =>
    compressBlock Wgsl.primitives h ((List.range 16).map fun k =>
      inputData.getD (wordOffset + UInt32.ofNat blk * 16 + UInt32.ofNat k).toNat 0)) .initial

/-! ## The device -/

/-- A buffer of a fixed number of words. -/
structure Buffer (size : Nat) where
  words : List UInt32
  length_words : words.length = size

/-- `write_buffer` at offset 0. -/
def Buffer.write {size : Nat} (buf : Buffer size) (data : List UInt32) : Option (Buffer size) :=
  if h : data.length ≤ size then
    some ⟨data ++ buf.words.drop data.length, by rw [List.length_append, List.length_drop, buf.length_words]; omega⟩
  else none

/-- `copy_buffer_to_buffer` of the first words. -/
def Buffer.copy {size : Nat} (buf : Buffer size) (n : Nat) : Option (List UInt32) :=
  if n ≤ size then some (buf.words.take n) else none

def Buffer.dispatch {size : Nat} (buf : Buffer size) (kernel : UInt32 → Regs) (count : UInt32)
    (order : List Nat) : Buffer size :=
  ⟨launch kernel count order buf.words, by rw [length_launch, buf.length_words]⟩

structure Device where
  inputData : Buffer (maxInputBytes / 4)
  offsetsLens : Buffer (maxHashesPerDispatch * 2)
  output : Buffer (maxHashesPerDispatch * outputWordsPerHash)

/-- Wavefronts of 64 on AMD, else 256 for occupancy. -/
def workgroupSizeOf (vendor : Nat) : Nat := if vendor = 0x1002 then 64 else 256

/-- `order k ids`: in which order the threads of dispatch `k` run. -/
structure Gpu where
  vendor : Nat
  order : Nat → List Nat → List Nat
  perm : ∀ k ids, (order k ids).Perm ids

variable (gpu : Gpu)

/-- The threads of a dispatch: whole workgroups. -/
def Gpu.threads (k n : Nat) : List Nat :=
  gpu.order k (List.range (divCeil n (workgroupSizeOf gpu.vendor) * workgroupSizeOf gpu.vendor))

/-- One dispatch and the reading of its results. `none` is a write or a copy that does not fit. -/
def Gpu.sha256Chunk (k : Nat) (dev : Device) (chunk : List (List UInt8)) : Option (List (List UInt8) × Device) := do
  let (allWords, metaData) := sha256PadInputs chunk
  let inputData ← dev.inputData.write allWords
  let offsetsLens ← dev.offsetsLens.write metaData
  let output := dev.output.dispatch (kernel inputData.words offsetsLens.words) (UInt32.ofNat chunk.length)
    (gpu.threads k chunk.length)
  let staging ← output.copy (chunk.length * outputWordsPerHash)
  return (readHashes chunk.length staging, ⟨inputData, offsetsLens, output⟩)

/-- The dispatches, one after another. -/
def Gpu.sha256Chunks : Nat → Device → List (List (List UInt8)) → Option (List (List UInt8))
  | _, _, [] => some []
  | k, dev, chunk :: rest => do
    let (results, dev) ← gpu.sha256Chunk k dev chunk
    let others ← Gpu.sha256Chunks (k + 1) dev rest
    return results ++ others

def Gpu.sha256Batch (dev : Device) (inputs : List (List UInt8)) : Option (List (List UInt8)) :=
  gpu.sha256Chunks 0 dev (chunks maxHashesPerDispatch inputs)

/-! ## The host pads as SHA-256 does -/

theorem map_beWords : ∀ l : List UInt8, (beWords l).map UInt32.toNat = Sha256.words l
  | a :: b :: c :: d :: l => by
    have ha := a.toNat_lt
    have hb := b.toNat_lt
    have hc := c.toNat_lt
    have hd := d.toNat_lt
    rw [beWords, List.map_cons, map_beWords l, Sha256.words, fromBeBytes, UInt32.toNat_ofNat_of_lt']
    show _ < 4294967296
    omega
  | [] => by simp [beWords, Sha256.words]
  | [_] => by simp [beWords, Sha256.words]
  | [_, _] => by simp [beWords, Sha256.words]
  | [_, _, _] => by simp [beWords, Sha256.words]

theorem blocksOf_eq (input : List UInt8) : blocksOf input = Sha256.numBlocks input.length := by
  unfold blocksOf divCeil Sha256.numBlocks
  rfl

theorem padded_eq {input : List UInt8} (h : input.length < 2305843009213693952) : padded input = Sha256.pad input := by
  have hbits : (UInt64.ofNat input.length * 8).toNat = input.length * 8 := by
    rw [UInt64.toNat_mul, UInt64.toNat_ofNat_of_lt' (by show input.length < 18446744073709551616; omega)]
    exact Nat.mod_eq_of_lt (by show input.length * 8 < 18446744073709551616; omega)
  have hbody := Sha256.length_body input
  have hpos : 0 < Sha256.numBlocks input.length := by
    unfold Sha256.numBlocks
    omega
  simp only [Sha256.body, List.length_append, List.length_cons, List.length_replicate] at hbody
  have htake : (input ++ 0x80 :: List.replicate (Sha256.numBlocks input.length * 64) 0).take
    (Sha256.numBlocks input.length * 64 - 8) = Sha256.body input := by
    rw [List.take_append, List.take_of_length_le (by omega),
      show Sha256.numBlocks input.length * 64 - 8 - input.length =
      (119 - input.length % 64) % 64 + 1 by omega, List.take_succ_cons, List.take_replicate, Nat.min_eq_left (by omega)]
    rfl
  rw [Sha256.pad_eq, padded, blocksOf_eq, htake, toBeBytes, hbits]
  rfl

theorem map_padWords {input : List UInt8} (h : input.length < 2305843009213693952) :
    (padWords input).map UInt32.toNat = Sha256.words (Sha256.pad input) := by
  rw [padWords, map_beWords, padded_eq h]

theorem length_padded (input : List UInt8) : (padded input).length = blocksOf input * 64 := by
  have hbytes : (toBeBytes (UInt64.ofNat input.length * 8)).length = 8 := rfl
  have hpos : 0 < blocksOf input := by
    unfold blocksOf divCeil
    omega
  rw [padded, List.length_append, hbytes, List.length_take, List.length_append, List.length_cons, List.length_replicate]
  omega

theorem length_beWords : ∀ l : List UInt8, (beWords l).length = l.length / 4
  | a :: b :: c :: d :: l => by
    rw [beWords, List.length_cons, length_beWords l]
    simp only [List.length_cons]
    omega
  | [] => by simp [beWords]
  | [_] => by simp [beWords]
  | [_, _] => by simp [beWords]
  | [_, _, _] => by simp [beWords]

theorem length_padWords (input : List UInt8) : (padWords input).length = 16 * Sha256.numBlocks input.length := by
  rw [padWords, length_beWords, length_padded, blocksOf_eq]
  omega

/-! ## One thread -/

/-- The assertion on the number of words. -/
theorem length_allWords : ∀ inputs : List (List UInt8), (inputs.flatMap padWords).length * 4 = paddedSize inputs
  | [] => rfl
  | input :: inputs => by
    have ih := length_allWords inputs
    rw [paddedSize_cons, ← ih, List.flatMap_cons, List.length_append, length_padWords]
    omega

theorem length_metaData : ∀ (inputs : List (List UInt8)) (offset : UInt32), (metaData offset inputs).length =
    inputs.length * 2
  | [], _ => rfl
  | input :: inputs, offset => by
    rw [metaData, List.length_cons, List.length_cons, length_metaData inputs, List.length_cons]
    omega

/-- The entries of input `i`: where its words begin, and how many blocks it has. -/
theorem getD_metaData : ∀ (inputs : List (List UInt8)) (offset : UInt32) (i : Nat) (hi : i < inputs.length),
    (metaData offset inputs).getD (i * 2) 0 = offset + UInt32.ofNat (startOf padWords inputs i) ∧
      (metaData offset inputs).getD (i * 2 + 1) 0 = UInt32.ofNat (blocksOf inputs[i])
  | input :: inputs, offset, 0, _ => by
    refine ⟨?_, rfl⟩
    rw [startOf_zero]
    exact (UInt32.add_zero offset).symm
  | input :: inputs, offset, i + 1, hi => by
    obtain ⟨hstart, hblocks⟩ := getD_metaData inputs (offset + UInt32.ofNat (blocksOf input) * 16) i
      (Nat.lt_of_succ_lt_succ hi)
    have hfirst := length_padWords input
    rw [show (i + 1) * 2 = i * 2 + 1 + 1 by omega, metaData,
      List.getD_cons_succ, List.getD_cons_succ, List.getD_cons_succ, List.getD_cons_succ]
    refine ⟨?_, hblocks⟩
    rw [hstart, startOf_cons, hfirst, blocksOf_eq, UInt32.ofNat_add, UInt32.ofNat_mul, UInt32.add_assoc,
      UInt32.mul_comm (UInt32.ofNat 16)]
    rfl

/-- **Thread `i` computes the hash of input `i`**, whatever stands behind the written part of the buffers. -/
theorem kernel_bytes {inputs : List (List UInt8)} (hsize : paddedSize inputs ≤ maxInputBytes)
    (rest rest' : List UInt32) {i : Nat} (hi : i < inputs.length) (hn : inputs.length ≤ maxHashesPerDispatch) :
    (kernel (inputs.flatMap padWords ++ rest) (metaData 0 inputs ++ rest') (UInt32.ofNat i)).state.bytes =
      Sha256.digest inputs[i] := by
  have hmax : maxInputBytes = 16777216 := rfl
  have hcount : maxHashesPerDispatch = 65536 := rfl
  have hshort : ∀ input ∈ inputs, input.length < 2305843009213693952 := by
    intro input hmem
    have := length_lt_of_paddedSize hsize hmem
    omega
  have htotal := length_allWords inputs
  have hwithin := startOf_add_le padWords inputs i hi
  rw [length_padWords] at hwithin
  obtain ⟨hstart, hblocks⟩ := getD_metaData inputs 0 i hi
  have hmeta := length_metaData inputs 0
  have hidx : (UInt32.ofNat i * 2).toNat = i * 2 := by
    rw [UInt32.toNat_mul, UInt32.toNat_ofNat_of_lt' (by show i < 4294967296; omega)]
    exact Nat.mod_eq_of_lt (by show i * 2 < 4294967296; omega)
  have hidx' : (UInt32.ofNat i * 2 + 1).toNat = i * 2 + 1 := by
    rw [UInt32.toNat_add, hidx]
    exact Nat.mod_eq_of_lt (by show i * 2 + 1 < 4294967296; omega)
  have hnum : (UInt32.ofNat (blocksOf inputs[i])).toNat = Sha256.numBlocks inputs[i].length := by
    rw [blocksOf_eq, UInt32.toNat_ofNat_of_lt' (by show _ < 4294967296; omega)]
  unfold kernel
  rw [hidx, hidx', List.getD_append _ _ _ _ (by omega), List.getD_append _ _ _ _ (by omega), hstart, hblocks]
  dsimp only
  rw [hnum]
  refine bytes_of_blocks Wgsl.sound fun b hb k hk => ?_
  have hslot : (0 + UInt32.ofNat (startOf padWords inputs i) + UInt32.ofNat b * 16 + UInt32.ofNat k).toNat =
      startOf padWords inputs i + (16 * b + k) := by
    rw [UInt32.zero_add, show (16 : UInt32) = UInt32.ofNat 16 from rfl, ← UInt32.ofNat_mul, ← UInt32.ofNat_add,
      ← UInt32.ofNat_add,
      UInt32.toNat_ofNat_of_lt' (by show _ < 4294967296; omega)]
    omega
  rw [hslot, List.getD_append _ _ _ _ (by omega), getD_flatMap padWords 0 inputs i _ hi
    (by rw [length_padWords]; omega), ← getD_map_toNat, map_padWords (hshort _ (List.getElem_mem hi))]

/-! ## The whole batch -/

theorem mem_threads {k n i : Nat} (hi : i < n) : i ∈ gpu.threads k n := by
  rw [Gpu.threads, (gpu.perm _ _).mem_iff, List.mem_range, divCeil, workgroupSizeOf]
  split <;> omega

theorem lt_of_mem_threads {k n i : Nat} (hn : n ≤ maxHashesPerDispatch) (hi : i ∈ gpu.threads k n) :
    i < 4294967296 := by
  rw [Gpu.threads, (gpu.perm _ _).mem_iff, List.mem_range, divCeil, workgroupSizeOf] at hi
  have hcount : maxHashesPerDispatch = 65536 := rfl
  split at hi <;> omega

/-- What fits is written in front of what was there. -/
theorem Buffer.write_eq {size : Nat} (buf : Buffer size) {data : List UInt32} (h : data.length ≤ size) :
    ∃ buf' : Buffer size, buf.write data = some buf' ∧ buf'.words = data ++ buf.words.drop data.length :=
  ⟨_, dif_pos h, rfl⟩

theorem sha256Chunk_eq (k : Nat) (dev : Device) {chunk : List (List UInt8)} (hsize : paddedSize chunk ≤ maxInputBytes)
    (hn : chunk.length ≤ maxHashesPerDispatch) :
    ∃ dev', gpu.sha256Chunk k dev chunk = some (chunk.map Sha256.digest, dev') := by
  have hmax : maxInputBytes = 16777216 := rfl
  have hcount : maxHashesPerDispatch = 65536 := rfl
  have hwords : (chunk.flatMap padWords).length ≤ maxInputBytes / 4 := by
    have htotal := length_allWords chunk
    omega
  obtain ⟨inputData, hinput, hinputWords⟩ := dev.inputData.write_eq hwords
  obtain ⟨offsetsLens, hoffsets, hoffsetsWords⟩ := dev.offsetsLens.write_eq
    (show (metaData 0 chunk).length ≤ maxHashesPerDispatch * 2 by rw [length_metaData]; omega)
  have hfits : chunk.length * 8 ≤ maxHashesPerDispatch * outputWordsPerHash := Nat.mul_le_mul_right 8 hn
  have hread : readHashes chunk.length ((launch (kernel inputData.words offsetsLens.words) (UInt32.ofNat chunk.length)
      (gpu.threads k chunk.length) dev.output.words).take (chunk.length * 8)) = chunk.map Sha256.digest := by
    rw [readHashes_launch (by omega) (by rw [dev.output.length_words]; exact hfits) (fun i => lt_of_mem_threads gpu hn)
      fun i => mem_threads gpu, hinputWords, hoffsetsWords]
    refine List.ext_getElem (by rw [List.length_map, List.length_map, List.length_range]) fun i hi _ => ?_
    rw [List.length_map, List.length_range] at hi
    rw [List.getElem_map, List.getElem_map, List.getElem_range]
    exact kernel_bytes hsize _ _ hi hn
  refine ⟨⟨inputData, offsetsLens, dev.output.dispatch (kernel inputData.words offsetsLens.words)
    (UInt32.ofNat chunk.length) (gpu.threads k chunk.length)⟩, ?_⟩
  simp only [Gpu.sha256Chunk, sha256PadInputs, hinput, hoffsets, Buffer.copy, Option.bind_eq_bind, Option.bind_some]
  rw [if_pos (show chunk.length * outputWordsPerHash ≤ _ from hfits)]
  exact congrArg some (Prod.ext hread rfl)

/-- The chunks in order are the inputs, none longer than the size. -/
theorem chunks_spec {α : Type} {size : Nat} (hsize : 0 < size) (l : List α) :
    (chunks size l).flatten = l ∧ ∀ c ∈ chunks size l, c.length ≤ size := by
  unfold chunks
  by_cases h : l = [] ∨ size = 0
  · rw [dif_pos h]
    exact ⟨(h.resolve_right (by omega)).symm, by simp⟩
  · rw [dif_neg h]
    have hpos : 0 < l.length := List.length_pos_iff.2 fun hl => h (.inl hl)
    obtain ⟨hflat, hle⟩ := chunks_spec hsize (l.drop size)
    refine ⟨by rw [List.flatten_cons, hflat, List.take_append_drop], ?_⟩
    rw [List.forall_mem_cons]
    exact ⟨List.length_take_le _ _, hle⟩
termination_by l.length
decreasing_by
  rw [List.length_drop]
  omega

theorem sha256Chunks_eq : ∀ {cs : List (List (List UInt8))} {k : Nat} {dev : Device},
    (∀ c ∈ cs, paddedSize c ≤ maxInputBytes ∧ c.length ≤ maxHashesPerDispatch) →
    gpu.sha256Chunks k dev cs = some (cs.flatten.map Sha256.digest)
  | [], _, _, _ => rfl
  | c :: cs, k, dev, h => by
    obtain ⟨dev', hfirst⟩ := sha256Chunk_eq gpu k dev (h c List.mem_cons_self).1 (h c List.mem_cons_self).2
    have hrest : gpu.sha256Chunks (k + 1) dev' cs = some (cs.flatten.map Sha256.digest) :=
      sha256Chunks_eq fun x hx => h x (List.mem_cons_of_mem _ hx)
    rw [List.flatten_cons, List.map_append, Gpu.sha256Chunks, hfirst]
    simp only [Option.bind_eq_bind, Option.bind_some, hrest]
    rfl

/-- **A batch gives the hash of every input**, where each dispatch fits the input buffer. -/
theorem sha256Batch_eq (dev : Device) {inputs : List (List UInt8)}
    (h : ∀ chunk ∈ chunks maxHashesPerDispatch inputs, paddedSize chunk ≤ maxInputBytes) :
    gpu.sha256Batch dev inputs = some (inputs.map Sha256.digest) := by
  obtain ⟨hflat, hle⟩ := chunks_spec (show 0 < maxHashesPerDispatch by decide) inputs
  rw [Gpu.sha256Batch, sha256Chunks_eq gpu fun c hc => ⟨h c hc, hle c hc⟩, hflat]

end Wgpu

end Webycash.Compute
