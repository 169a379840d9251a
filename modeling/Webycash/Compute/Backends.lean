import Webycash.Compute.Cuda
import Webycash.Compute.Wgpu
import Webycash.Server.Gate
/-!
# The compute backends (`server/src/compute`)

Three backends answer the same trait. `gpu_hashing_equals_sha256` says that each GPU backend gives the
SHA-256 of every input, in order, and so judges proofs of work and derives public hashes as the CPU does.

| here | there |
| --- | --- |
| `ComputeBackend`, `PowResult`  | compute/mod.rs:40, compute/mod.rs:26 |
| `leadingZeroBits`              | compute/mod.rs:90 and cpu.rs:77, the text of mining/src/lib.rs:126 |
| `cpuBackend`                   | cpu.rs:15 |
| `verifyPowOn`, `derivePublicHashOn` | the two methods the GPU backends share (wgpu_compute.rs:331, cuda.rs:235) |
-/

namespace Webycash.Compute

structure PowResult where
  valid : Bool
  leadingZeros : Nat

/-- `none` is a dispatch the device refuses. -/
structure ComputeBackend where
  sha256Batch : List (List UInt8) → Option (List (List UInt8))
  verifyPowBatch : List (String × Nat) → Option (List PowResult)
  derivePublicHashBatch : List String → Option (List String)

/-- The count of a digest is exact in the `u32` of the source (`toNat_count_digest`). -/
def judge (hash : List UInt8) (difficulty : Nat) : PowResult :=
  let zeros := leadingZeroBits hash
  ⟨difficulty ≤ zeros, zeros⟩

def cpuBackend : ComputeBackend where
  sha256Batch inputs := some (inputs.map Sha256.digest)
  verifyPowBatch inputs := some (inputs.map fun p => judge (Sha256.digest (asBytes p.1)) p.2)
  derivePublicHashBatch secrets := some (secrets.map fun secret => Hex.encode (Sha256.digest (asBytes secret)))

section

variable (sha256Batch : List (List UInt8) → Option (List (List UInt8)))

def verifyPowOn (inputs : List (String × Nat)) : Option (List PowResult) := do
  let hashes ← sha256Batch (inputs.map fun p => asBytes p.1)
  return (hashes.zip inputs).map fun p => judge p.1 p.2.2

def derivePublicHashOn (secrets : List String) : Option (List String) := do
  let hashes ← sha256Batch (secrets.map asBytes)
  return hashes.map Hex.encode

end

def wgpuBackend (gpu : Wgpu.Gpu) (dev : Wgpu.Device) : ComputeBackend :=
  ⟨gpu.sha256Batch dev, verifyPowOn (gpu.sha256Batch dev), derivePublicHashOn (gpu.sha256Batch dev)⟩

def cudaBackend (gpu : Cuda.Gpu) : ComputeBackend :=
  let sha256Batch := fun inputs => some (gpu.sha256Batch inputs)
  ⟨sha256Batch, verifyPowOn sha256Batch, derivePublicHashOn sha256Batch⟩

/-! ## What fits -/

/-- Every dispatch fits the input buffer. -/
def Wgpu.Fits (inputs : List (List UInt8)) : Prop :=
  ∀ chunk ∈ chunks maxHashesPerDispatch inputs, paddedSize chunk ≤ maxInputBytes

/-- Every padded position is a `u32`. For one input that is a length below `2 ^ 32 - 72`. -/
def Cuda.Fits (inputs : List (List UInt8)) : Prop := paddedSize inputs ≤ 4294967295

theorem Cuda.fits_singleton (input : List UInt8) : Cuda.Fits [input] ↔ input.length < 4294967296 - 72 := by
  have hsize : paddedSize [input] = (input.length + 72) / 64 * 64 := Nat.add_zero _
  rw [Cuda.Fits, hsize]
  omega

/-- On inputs that fit, the backend hashes as SHA-256 and answers as the CPU. -/
structure ComputeBackend.Faithful (backend : ComputeBackend) (Fits : List (List UInt8) → Prop) : Prop where
  hash : ∀ inputs, Fits inputs → backend.sha256Batch inputs = some (inputs.map Sha256.digest)
  pow : ∀ inputs : List (String × Nat), Fits (inputs.map fun p => asBytes p.1) →
    backend.verifyPowBatch inputs = cpuBackend.verifyPowBatch inputs
  publicHash : ∀ secrets : List String, Fits (secrets.map asBytes) →
    backend.derivePublicHashBatch secrets = cpuBackend.derivePublicHashBatch secrets

theorem faithful_of_hash {sha256Batch : List (List UInt8) → Option (List (List UInt8))}
    {Fits : List (List UInt8) → Prop}
    (h : ∀ inputs, Fits inputs → sha256Batch inputs = some (inputs.map Sha256.digest)) :
    ComputeBackend.Faithful ⟨sha256Batch, verifyPowOn sha256Batch, derivePublicHashOn sha256Batch⟩ Fits where
  hash := h
  pow inputs hfits := by
    show (sha256Batch (inputs.map fun p => asBytes p.1)).bind _ = _
    rw [h _ hfits, Option.bind_some]
    refine congrArg some ?_
    clear hfits
    induction inputs with
    | nil => rfl
    | cons p inputs ih => exact congrArg (_ :: ·) ih
  publicHash secrets hfits := by
    show (sha256Batch (secrets.map asBytes)).bind _ = _
    rw [h _ hfits, Option.bind_some]
    refine congrArg some ?_
    rw [List.map_map, List.map_map]
    rfl

theorem paddedSize_le_of_flatten : ∀ {cs : List (List (List UInt8))} {c : List (List UInt8)}, c ∈ cs →
    paddedSize c ≤ paddedSize cs.flatten
  | d :: cs, c, h => by
    have happend : paddedSize (d ++ cs.flatten) = paddedSize d + paddedSize cs.flatten := by
      rw [paddedSize, List.map_append, List.sum_append]
      rfl
    rw [List.flatten_cons, happend]
    rcases List.mem_cons.1 h with rfl | h
    · exact Nat.le_add_right _ _
    · exact (paddedSize_le_of_flatten h).trans (Nat.le_add_left _ _)

/-- What fits one buffer fits both backends. -/
theorem fits_of_paddedSize {inputs : List (List UInt8)} (h : paddedSize inputs ≤ Wgpu.maxInputBytes) :
    Wgpu.Fits inputs ∧ Cuda.Fits inputs := by
  refine ⟨fun chunk hchunk => ?_, h.trans (by decide)⟩
  have hle := paddedSize_le_of_flatten hchunk
  rw [(Wgpu.chunks_spec (by decide) inputs).1] at hle
  exact hle.trans h

/-- **GPU hashing is SHA-256.** Whatever earlier dispatches left in the buffers and in whatever order the
threads run. -/
theorem gpu_hashing_equals_sha256 (wgpu : Wgpu.Gpu) (dev : Wgpu.Device) (cuda : Cuda.Gpu) :
    (wgpuBackend wgpu dev).Faithful Wgpu.Fits ∧ (cudaBackend cuda).Faithful Cuda.Fits ∧
      ∀ inputs, paddedSize inputs ≤ Wgpu.maxInputBytes → Wgpu.Fits inputs ∧ Cuda.Fits inputs :=
  ⟨faithful_of_hash fun _ h => Wgpu.sha256Batch_eq wgpu dev h,
    faithful_of_hash fun _ h => congrArg some (Cuda.sha256Batch_eq cuda h), fun _ => fits_of_paddedSize⟩

namespace Sample

/-- The threads run in the order of their numbers. -/
def cuda : Cuda.Gpu := ⟨fun ids => ids, fun ids => .refl ids⟩

/-- An AMD card that runs the last thread first. -/
def wgpu : Wgpu.Gpu := ⟨0x1002, fun _ ids => ids.reverse, fun _ ids => ids.reverse_perm⟩

def zeros (size : Nat) : Wgpu.Buffer size := ⟨List.replicate size 0, List.length_replicate⟩

def dev : Wgpu.Device := ⟨zeros _, zeros _, zeros _⟩

def messages : List (List UInt8) := [asBytes "abc", [], List.replicate 64 97]

end Sample

/-- Two short messages and one of two blocks. -/
theorem gpu_hashing_equals_sha256_messages :
    let hashes := some ["ba7816bf8f01cfea414140de5dae2223b00361a396177a9cb410ff61f20015ad",
      "e3b0c44298fc1c149afbf4c8996fb92427ae41e4649b934ca495991b7852b855",
      "ffe054fe7ae0cb6dc65c3af9b61d5209f439851db43d0ba5997337df154668eb"]
    ((wgpuBackend Sample.wgpu Sample.dev).sha256Batch Sample.messages).map (List.map Hex.encode) = hashes ∧
      ((cudaBackend Sample.cuda).sha256Batch Sample.messages).map (List.map Hex.encode) = hashes := by
  obtain ⟨hwgpu, hcuda, hfits⟩ := gpu_hashing_equals_sha256 Sample.wgpu Sample.dev Sample.cuda
  have hsize : paddedSize Sample.messages ≤ Wgpu.maxInputBytes := by decide
  obtain ⟨hfitsWgpu, hfitsCuda⟩ := hfits Sample.messages hsize
  rw [hwgpu.hash _ hfitsWgpu, hcuda.hash _ hfitsCuda]
  exact ⟨by decide +kernel, by decide +kernel⟩

end Webycash.Compute
