import Webycash.Compute.Threads
/-!
# The CUDA backend (`server/src/compute/cuda.rs`)

The inputs go to the device as they are, in one buffer; a thread pads its own while it loads. All
indices of the kernel are 32-bit: `len + 9 + 63` and the position in the last block stay below `2 ^ 32`
exactly because the padded input does.

| here | there |
| --- | --- |
| `messageByte`, `loadWord`, `kernel` | `sha256_batch` (cuda.rs:57), the loads at cuda.rs:86 |
| `offsets`, `sha256Batch`            | `sha256_batch` of the backend (cuda.rs:180) |
-/

namespace Webycash.Compute.Cuda

/-! ## The kernel -/

def messageByte (data : List UInt8) (len p : UInt32) : UInt8 :=
  if p < len then data.getD p.toNat 0 else if p = len then 0x80 else 0

/-- `val = (val << 8) | byte`. -/
def shiftIn (val : UInt32) (byte : UInt8) : UInt32 := (val <<< 8) ||| byte.toUInt32

/-- Word `i` of a block; the last two of the final block are the length. -/
def loadWord (data : List UInt8) (len numBlocks : UInt32) (bitLen : UInt64) (block : UInt32) (i : Nat) : UInt32 :=
  let pos := block * 64 + UInt32.ofNat i * 4
  let val := (List.range 4).foldl (fun val b => shiftIn val (messageByte data len (pos + UInt32.ofNat b))) 0
  if block = numBlocks - 1 then
    if i = 14 then (bitLen >>> 32).toUInt32 else if i = 15 then bitLen.toUInt32 else val
  else val

def kernel (allData : List UInt8) (offsets lengths : List UInt32) (idx : UInt32) : Regs :=
  let data := allData.drop (offsets.getD idx.toNat 0).toNat
  let len := lengths.getD idx.toNat 0
  let numBlocks := (len + 9 + 63) / 64
  let bitLen := len.toUInt64 * 8
  (List.range numBlocks.toNat).foldl (fun h block =>
    compressBlock primitives h ((List.range 16).map (loadWord data len numBlocks bitLen (UInt32.ofNat block)))) .initial

/-! ## The host -/

def offsets : UInt32 → List (List UInt8) → List UInt32
  | _, [] => []
  | acc, v :: inputs => acc :: offsets (acc + UInt32.ofNat v.length) inputs

def lengths (inputs : List (List UInt8)) : List UInt32 := inputs.map fun v => UInt32.ofNat v.length

/-- The order in which a launch runs its threads. -/
structure Gpu where
  order : List Nat → List Nat
  perm : ∀ ids, (order ids).Perm ids

/-- 256 threads a block. -/
def Gpu.threads (gpu : Gpu) (n : Nat) : List Nat := gpu.order (List.range ((n + 255) / 256 * 256))

def Gpu.sha256Batch (gpu : Gpu) (inputs : List (List UInt8)) : List (List UInt8) :=
  let n := inputs.length
  readHashes n (launch (kernel inputs.flatten (offsets 0 inputs) (lengths inputs)) (UInt32.ofNat n) (gpu.threads n)
    (List.replicate (n * 8) 0))

/-! ## The kernel pads as SHA-256 does -/

section

variable {msg : List UInt8} (hsize : Sha256.numBlocks msg.length * 64 ≤ 4294967295)
include hsize

theorem toNat_len : (UInt32.ofNat msg.length).toNat = msg.length := by
  refine UInt32.toNat_ofNat_of_lt' ?_
  show msg.length < 4294967296
  unfold Sha256.numBlocks at hsize
  omega

theorem messageByte_eq {data : List UInt8} (hdata : ∀ p < msg.length, data.getD p 0 = msg.getD p 0) (p : UInt32) :
    messageByte data (UInt32.ofNat msg.length) p = (Sha256.body msg).getD p.toNat 0 := by
  have hlen := toNat_len hsize
  have hlt : p < UInt32.ofNat msg.length ↔ p.toNat < msg.length := by rw [UInt32.lt_iff_toNat_lt, hlen]
  have heq : p = UInt32.ofNat msg.length ↔ p.toNat = msg.length := by rw [← UInt32.toNat_inj, hlen]
  rw [messageByte, Sha256.getD_body]
  by_cases hp : p.toNat < msg.length
  · rw [if_pos (hlt.2 hp), if_pos hp, hdata _ hp]
  · rw [if_neg (mt hlt.1 hp), if_neg hp]
    by_cases hm : p.toNat = msg.length
    · rw [if_pos (heq.2 hm), if_pos hm]
    · rw [if_neg (mt heq.1 hm), if_neg hm]

/-- `(len + 9 + 63) / 64` does not overflow. -/
theorem toNat_numBlocks : ((UInt32.ofNat msg.length + 9 + 63) / 64).toNat = Sha256.numBlocks msg.length := by
  have hlen := toNat_len hsize
  unfold Sha256.numBlocks at hsize
  have h₁ : (UInt32.ofNat msg.length + 9).toNat = msg.length + 9 := by
    rw [UInt32.toNat_add, hlen]
    exact Nat.mod_eq_of_lt (by show msg.length + 9 < 4294967296; omega)
  have h₂ : (UInt32.ofNat msg.length + 9 + 63).toNat = msg.length + 9 + 63 := by
    rw [UInt32.toNat_add, h₁]
    exact Nat.mod_eq_of_lt (by show msg.length + 9 + 63 < 4294967296; omega)
  rw [UInt32.toNat_div, h₂]
  rfl

theorem toNat_bitLen : ((UInt32.ofNat msg.length).toUInt64 * 8).toNat = msg.length * 8 := by
  have hlen := toNat_len hsize
  rw [UInt64.toNat_mul, UInt32.toNat_toUInt64, hlen]
  unfold Sha256.numBlocks at hsize
  exact Nat.mod_eq_of_lt (by show msg.length * 8 < 18446744073709551616; omega)

end

/-- A byte is shifted in below three others at most. -/
theorem toNat_shiftIn {val : UInt32} (byte : UInt8) (h : val.toNat < 16777216) :
    (shiftIn val byte).toNat = val.toNat * 256 + byte.toNat := by
  have hbyte : byte.toNat < 2 ^ 8 := byte.toNat_lt
  have hshift : (val <<< 8).toNat = val.toNat <<< 8 := by
    rw [UInt32.toNat_shiftLeft]
    refine Nat.mod_eq_of_lt ?_
    show val.toNat <<< 8 < 2 ^ 32
    rw [Nat.shiftLeft_eq]
    omega
  rw [shiftIn, UInt32.toNat_or, hshift, UInt8.toNat_toUInt32, ← Nat.shiftLeft_add_eq_or_of_lt hbyte, Nat.shiftLeft_eq]

theorem toNat_shiftIn_four (x y z t : UInt8) : (shiftIn (shiftIn (shiftIn (shiftIn 0 x) y) z) t).toNat =
    x.toNat * 2 ^ 24 + y.toNat * 2 ^ 16 + z.toNat * 2 ^ 8 + t.toNat := by
  have hx := x.toNat_lt
  have hy := y.toNat_lt
  have hz := z.toNat_lt
  have h₁ : (shiftIn 0 x).toNat = x.toNat := by
    rw [toNat_shiftIn x (by decide)]
    exact Nat.zero_add _
  have h₂ : (shiftIn (shiftIn 0 x) y).toNat = x.toNat * 256 + y.toNat := by rw [toNat_shiftIn y (by omega), h₁]
  have h₃ : (shiftIn (shiftIn (shiftIn 0 x) y) z).toNat = (x.toNat * 256 + y.toNat) * 256 + z.toNat := by
    rw [toNat_shiftIn z (by omega), h₂]
  rw [toNat_shiftIn t (by omega), h₃]
  omega

/-- **The word a thread loads is that of the padded message.** -/
theorem loadWord_eq {msg data : List UInt8} (hsize : Sha256.numBlocks msg.length * 64 ≤ 4294967295)
    (hdata : ∀ p < msg.length, data.getD p 0 = msg.getD p 0) {b i : Nat}
    (hb : b < Sha256.numBlocks msg.length) (hi : i < 16) :
    (loadWord data (UInt32.ofNat msg.length) ((UInt32.ofNat msg.length + 9 + 63) / 64)
      ((UInt32.ofNat msg.length).toUInt64 * 8)
      (UInt32.ofNat b) i).toNat = (Sha256.words (Sha256.pad msg)).getD (16 * b + i) 0 := by
  have hblock : (UInt32.ofNat b).toNat = b := UInt32.toNat_ofNat_of_lt' (by show b < 4294967296; omega)
  have hpos : ∀ k < 4, (UInt32.ofNat b * 64 + UInt32.ofNat i * 4 + UInt32.ofNat k).toNat = 4 * (16 * b + i) + k := by
    intro k hk
    rw [show (64 : UInt32) = UInt32.ofNat 64 from rfl, show (4 : UInt32) = UInt32.ofNat 4 from rfl,
      ← UInt32.ofNat_mul,
      ← UInt32.ofNat_mul, ← UInt32.ofNat_add, ← UInt32.ofNat_add,
        UInt32.toNat_ofNat_of_lt' (by show _ < 4294967296; omega)]
    omega
  have hval : ((List.range 4).foldl (fun val k => shiftIn val (messageByte data (UInt32.ofNat msg.length)
      (UInt32.ofNat b * 64 + UInt32.ofNat i * 4 + UInt32.ofNat k))) 0).toNat =
      ((Sha256.body msg).getD (4 * (16 * b + i)) 0).toNat * 2 ^ 24 +
        ((Sha256.body msg).getD (4 * (16 * b + i) + 1) 0).toNat * 2 ^ 16 +
        ((Sha256.body msg).getD (4 * (16 * b + i) + 2) 0).toNat * 2 ^ 8 +
          ((Sha256.body msg).getD (4 * (16 * b + i) + 3) 0).toNat := by
    simp only [messageByte_eq hsize hdata]
    refine (toNat_shiftIn_four _ _ _ _).trans ?_
    rw [hpos 0 (by omega), hpos 1 (by omega), hpos 2 (by omega), hpos 3 (by omega)]
    rfl
  have hlast : UInt32.ofNat b = (UInt32.ofNat msg.length + 9 + 63) / 64 - 1 ↔
      b = Sha256.numBlocks msg.length - 1 := by
    have hone : ((UInt32.ofNat msg.length + 9 + 63) / 64 - 1).toNat = Sha256.numBlocks msg.length - 1 := by
      rw [UInt32.toNat_sub_of_le _ _ (UInt32.le_iff_toNat_le.2
        (by rw [toNat_numBlocks hsize]; exact Nat.lt_of_le_of_lt (Nat.zero_le _) hb)),
        toNat_numBlocks hsize]
      rfl
    rw [← UInt32.toNat_inj, hblock, hone]
  have hbody := Sha256.length_body msg
  have hwords : (Sha256.words (Sha256.body msg)).length = 16 * Sha256.numBlocks msg.length - 2 := by
    rw [Sha256.length_words]
    omega
  have hbits := toNat_bitLen hsize
  unfold loadWord
  rw [Sha256.words_pad]
  by_cases hend : b = Sha256.numBlocks msg.length - 1 ∧ 14 ≤ i
  · -- the length
    rw [if_pos (hlast.2 hend.1), List.getD_append_right _ _ _ _ (by omega), hwords]
    by_cases h14 : i = 14
    · rw [if_pos h14, show 16 * b + i - (16 * Sha256.numBlocks msg.length - 2) = 0 by omega, UInt64.toNat_toUInt32,
        UInt64.toNat_shiftRight, hbits, Nat.shiftRight_eq_div_pow]
      rfl
    · rw [if_neg h14, if_pos (by omega), show 16 * b + i - (16 * Sha256.numBlocks msg.length - 2) = 1 by omega,
        UInt64.toNat_toUInt32, hbits]
      rfl
  · rw [List.getD_append _ _ _ _ (by omega), Sha256.getD_words _ _ (by omega), ← hval]
    by_cases hb' : b = Sha256.numBlocks msg.length - 1
    · rw [if_pos (hlast.2 hb'), if_neg (by omega), if_neg (by omega)]
    · rw [if_neg (mt hlast.1 hb')]

/-! ## The whole batch -/

/-- Input `i` begins where those before it end. -/
theorem getD_offsets : ∀ (inputs : List (List UInt8)) (acc : UInt32) (i : Nat), i < inputs.length →
    (offsets acc inputs).getD i 0 = acc + UInt32.ofNat (startOf id inputs i)
  | v :: inputs, acc, 0, _ => by
    rw [startOf_zero]
    exact (UInt32.add_zero acc).symm
  | v :: inputs, acc, i + 1, hi => by
    rw [offsets, List.getD_cons_succ, getD_offsets inputs _ i (Nat.lt_of_succ_lt_succ hi), startOf_cons,
      UInt32.ofNat_add,
      UInt32.add_assoc]
    rfl

theorem length_flatten_le : ∀ inputs : List (List UInt8), inputs.flatten.length ≤ paddedSize inputs
  | [] => Nat.le_refl 0
  | v :: inputs => by
    have ih := length_flatten_le inputs
    rw [List.flatten_cons, List.length_append, paddedSize_cons, Sha256.numBlocks]
    omega

theorem length_mul_le : ∀ inputs : List (List UInt8), inputs.length * 64 ≤ paddedSize inputs
  | [] => Nat.le_refl 0
  | v :: inputs => by
    have ih := length_mul_le inputs
    rw [List.length_cons, paddedSize_cons, Sha256.numBlocks]
    omega

/-- **Thread `i` computes the hash of input `i`.** -/
theorem kernel_bytes {inputs : List (List UInt8)} (hsize : paddedSize inputs ≤ 4294967295) {i : Nat}
    (hi : i < inputs.length) :
    (kernel inputs.flatten (offsets 0 inputs) (lengths inputs) (UInt32.ofNat i)).state.bytes =
      Sha256.digest inputs[i] := by
  have hcount := length_mul_le inputs
  have htotal := length_flatten_le inputs
  have hwithin := startOf_add_le id inputs i hi
  rw [List.flatMap_id, id_eq] at hwithin
  have hblocks : Sha256.numBlocks inputs[i].length * 64 ≤ paddedSize inputs :=
    List.le_sum_of_mem (List.mem_map_of_mem (List.getElem_mem hi))
  have hidx : (UInt32.ofNat i).toNat = i := UInt32.toNat_ofNat_of_lt' (by show i < 4294967296; omega)
  have hlen : (lengths inputs).getD i 0 = UInt32.ofNat inputs[i].length := by
    rw [lengths, List.getD_eq_getElem _ _ (by rwa [List.length_map]), List.getElem_map]
  have hstart : ((offsets 0 inputs).getD i 0).toNat = startOf id inputs i := by
    rw [getD_offsets inputs 0 i hi, UInt32.zero_add, UInt32.toNat_ofNat_of_lt' (by show _ < 4294967296; omega)]
  have hdata : ∀ p < inputs[i].length, (inputs.flatten.drop (startOf id inputs i)).getD p 0 = inputs[i].getD p 0 := by
    intro p hp
    rw [List.getD_eq_getElem?_getD, List.getElem?_drop, ← List.getD_eq_getElem?_getD, ← List.flatMap_id]
    exact getD_flatMap id 0 inputs i p hi hp
  unfold kernel
  rw [hidx, hlen, hstart]
  dsimp only
  rw [toNat_numBlocks (hblocks.trans hsize)]
  exact bytes_of_blocks sound fun b hb k hk => loadWord_eq (hblocks.trans hsize) hdata hb hk

/-- **A batch gives the hash of every input**, where the padded inputs fit 32-bit positions. -/
theorem sha256Batch_eq (gpu : Gpu) {inputs : List (List UInt8)} (hsize : paddedSize inputs ≤ 4294967295) :
    gpu.sha256Batch inputs = inputs.map Sha256.digest := by
  have hcount := length_mul_le inputs
  have hmem : ∀ i, i ∈ gpu.threads inputs.length ↔ i < (inputs.length + 255) / 256 * 256 := fun i => by
    rw [Gpu.threads, (gpu.perm _).mem_iff, List.mem_range]
  have hout : (launch (kernel inputs.flatten (offsets 0 inputs) (lengths inputs)) (UInt32.ofNat inputs.length)
      (gpu.threads inputs.length) (List.replicate (inputs.length * 8) 0)).length = inputs.length * 8 := by
    rw [length_launch, List.length_replicate]
  have hread : readHashes inputs.length ((launch (kernel inputs.flatten (offsets 0 inputs) (lengths inputs))
      (UInt32.ofNat inputs.length) (gpu.threads inputs.length) (List.replicate (inputs.length * 8) 0)).take
        (inputs.length * 8)) =
      (List.range inputs.length).map fun i =>
        (kernel inputs.flatten (offsets 0 inputs) (lengths inputs) (UInt32.ofNat i)).state.bytes := by
    refine readHashes_launch (by omega) (by rw [List.length_replicate]) (fun i hi => ?_) fun i hi =>
      (hmem i).2 (by omega)
    have := (hmem i).1 hi
    omega
  rw [List.take_of_length_le (by rw [hout])] at hread
  rw [Gpu.sha256Batch, hread]
  refine List.ext_getElem (by rw [List.length_map, List.length_map, List.length_range]) fun i hi _ => ?_
  rw [List.length_map, List.length_range] at hi
  rw [List.getElem_map, List.getElem_map, List.getElem_range]
  exact kernel_bytes hsize hi

end Webycash.Compute.Cuda
