import Webycash.Compute.Backends
/-!
# What a dispatch writes and the buffers it writes to

The input buffer has room for four blocks an input, but inputs are counted, not measured: a window of
65536 inputs is one dispatch whatever they are long. `dispatches_fit_iff` says for which inputs no write
goes past the end, and that then no index leaves what was uploaded. (The third write, of the parameters,
is four words to a buffer of four.)

| here | there |
| --- | --- |
| `wordOffset`, `numBlocks` | the two loads at the head of `sha256_batch` (wgpu_compute.rs:406) |
| `ChunkFits`               | `gpu_sha256_batch` (wgpu_compute.rs:173), `sha256_pad_inputs` (wgpu_compute.rs:297) |
-/

namespace Webycash.Compute.Wgpu

section

variable (chunk : List (List UInt8))

def wordOffset (i : Nat) : UInt32 := (sha256PadInputs chunk).2.getD (i * 2) 0
def numBlocks (i : Nat) : UInt32 := (sha256PadInputs chunk).2.getD (i * 2 + 1) 0

/-- One dispatch within its buffers. -/
structure ChunkFits : Prop where
  data : (sha256PadInputs chunk).1.length * 4 ≤ maxInputBytes
  pairs : (sha256PadInputs chunk).2.length ≤ maxHashesPerDispatch * 2
  /-- The running offset after input `i`: no wrap, and not past the words. -/
  offset : ∀ i < chunk.length,
    (wordOffset chunk i + numBlocks chunk i * 16).toNat =
      (wordOffset chunk i).toNat + (numBlocks chunk i).toNat * 16 ∧
      (wordOffset chunk i + numBlocks chunk i * 16).toNat ≤ (sha256PadInputs chunk).1.length
  /-- What the kernel loads of block `blk`. -/
  loads : ∀ i < chunk.length, ∀ blk < (numBlocks chunk i).toNat, ∀ w < 16,
    (wordOffset chunk i + UInt32.ofNat blk * 16 + UInt32.ofNat w).toNat < (sha256PadInputs chunk).1.length

end

/-- Every dispatch of a batch fits, and no device refuses one. -/
structure Buffered (inputs : List (List UInt8)) : Prop where
  chunks : ∀ chunk ∈ chunks maxHashesPerDispatch inputs, ChunkFits chunk
  written : ∀ (gpu : Gpu) (dev : Device), (gpu.sha256Batch dev inputs).isSome

/-- Four blocks an input on average, in each window of 65536 inputs. -/
def FewBlocks (inputs : List (List UInt8)) : Prop :=
  ∀ k, (((inputs.drop (k * 65536)).take 65536).map fun input => (input.length + 72) / 64).sum ≤ 262144

/-! ## One dispatch -/

theorem toNat_slot {offset a b : Nat} (h : offset + a * 16 + b < 4294967296) :
    (UInt32.ofNat offset + UInt32.ofNat a * 16 + UInt32.ofNat b).toNat = offset + a * 16 + b := by
  rw [show (16 : UInt32) = UInt32.ofNat 16 from rfl, ← UInt32.ofNat_mul, ← UInt32.ofNat_add, ← UInt32.ofNat_add,
    UInt32.toNat_ofNat_of_lt' (by show _ < 4294967296; omega)]

theorem chunkFits_iff {chunk : List (List UInt8)} (hn : chunk.length ≤ maxHashesPerDispatch) :
    ChunkFits chunk ↔ paddedSize chunk ≤ maxInputBytes := by
  have hmax : maxInputBytes = 16777216 := rfl
  have htotal : (sha256PadInputs chunk).1.length * 4 = paddedSize chunk := length_allWords chunk
  refine ⟨fun h => htotal ▸ h.data, fun hsize => ?_⟩
  -- the pair of input `i`, and that its words end within those of all
  have hpair : ∀ i < chunk.length, ∃ start blocks, wordOffset chunk i = UInt32.ofNat start ∧
      numBlocks chunk i = UInt32.ofNat blocks ∧ start + blocks * 16 ≤ (sha256PadInputs chunk).1.length := by
    intro i hi
    obtain ⟨hstart, hblocks⟩ := getD_metaData chunk 0 i hi
    have hwithin := startOf_add_le padWords chunk i hi
    rw [length_padWords, ← blocksOf_eq] at hwithin
    refine ⟨_, _, hstart.trans (UInt32.zero_add _), hblocks, ?_⟩
    show startOf padWords chunk i + blocksOf chunk[i] * 16 ≤ (chunk.flatMap padWords).length
    omega
  refine ⟨htotal ▸ hsize, ?_, ?_, ?_⟩
  · show (metaData 0 chunk).length ≤ _
    rw [length_metaData]
    omega
  · intro i hi
    obtain ⟨start, blocks, hstart, hblocks, hend⟩ := hpair i hi
    have hslot := toNat_slot (show start + blocks * 16 + 0 < 4294967296 by omega)
    rw [show UInt32.ofNat 0 = 0 from rfl, UInt32.add_zero] at hslot
    rw [hstart, hblocks, hslot, UInt32.toNat_ofNat_of_lt' (by show _ < 4294967296; omega),
      UInt32.toNat_ofNat_of_lt' (by show _ < 4294967296; omega)]
    exact ⟨rfl, hend⟩
  · intro i hi blk hblk w hw
    obtain ⟨start, blocks, hstart, hblocks, hend⟩ := hpair i hi
    rw [hblocks, UInt32.toNat_ofNat_of_lt' (by show _ < 4294967296; omega)] at hblk
    rw [hstart, toNat_slot (by omega)]
    omega

theorem ChunkFits.length_lt {chunk : List (List UInt8)} (h : ChunkFits chunk) {input : List UInt8}
    (hmem : input ∈ chunk) :
    input.length < maxInputBytes := by
  have hsize : paddedSize chunk ≤ maxInputBytes := length_allWords chunk ▸ h.data
  exact length_lt_of_paddedSize hsize hmem

/-! ## The dispatches of a batch -/

/-- A chunk is a window of the inputs. -/
theorem mem_chunks {α : Type} {size : Nat} (hsize : 0 < size) (l c : List α) :
    c ∈ chunks size l ↔ ∃ k, k * size < l.length ∧ c = (l.drop (k * size)).take size := by
  unfold chunks
  by_cases h : l = [] ∨ size = 0
  · rw [dif_pos h, h.resolve_right (by omega)]
    exact ⟨(fun hmem => by cases hmem), fun ⟨_, hk, _⟩ => absurd hk (Nat.not_lt_zero _)⟩
  · rw [dif_neg h]
    have hpos : 0 < l.length := List.length_pos_iff.2 fun hl => h (.inl hl)
    have ih := mem_chunks hsize (l.drop size) c
    rw [List.mem_cons, ih]
    constructor
    · rintro (rfl | ⟨k, hk, rfl⟩)
      · exact ⟨0, by omega, by rw [Nat.zero_mul, List.drop_zero]⟩
      · rw [List.length_drop] at hk
        exact ⟨k + 1, by rw [Nat.succ_mul]; omega, by rw [List.drop_drop, Nat.succ_mul, Nat.add_comm]⟩
    · rintro ⟨k, hk, rfl⟩
      cases k with
      | zero => exact .inl (by rw [Nat.zero_mul, List.drop_zero])
      | succ k =>
        rw [Nat.succ_mul] at hk
        exact .inr ⟨k, by rw [List.length_drop]; omega, by rw [List.drop_drop, Nat.succ_mul, Nat.add_comm]⟩
termination_by l.length
decreasing_by
  rw [List.length_drop]
  omega

theorem paddedSize_eq (inputs : List (List UInt8)) :
    paddedSize inputs = (inputs.map fun input => (input.length + 72) / 64).sum * 64 := by
  induction inputs with
  | nil => rfl
  | cons input inputs ih =>
    rw [paddedSize_cons, ih, List.map_cons, List.sum_cons, Sha256.numBlocks]
    omega

theorem fits_iff (inputs : List (List UInt8)) : Fits inputs ↔ FewBlocks inputs := by
  have hwindow : ∀ c : List (List UInt8), paddedSize c ≤ maxInputBytes ↔
      (c.map fun input => (input.length + 72) / 64).sum ≤ 262144 := by
    intro c
    rw [paddedSize_eq]
    show _ ≤ 16777216 ↔ _
    omega
  have hchunk := mem_chunks (show 0 < maxHashesPerDispatch by decide) inputs
  refine ⟨fun h k => ?_, fun h chunk hmem => ?_⟩
  · by_cases hk : k * 65536 < inputs.length
    · exact (hwindow _).1 (h _ ((hchunk _).2 ⟨k, hk, rfl⟩))
    · rw [List.drop_eq_nil_of_le (by omega)]
      exact Nat.zero_le _
  · obtain ⟨k, _, rfl⟩ := (hchunk chunk).1 hmem
    exact (hwindow _).2 (h k)

/-- A dispatch that does not fit is refused by every device. -/
theorem sha256Chunk_none (gpu : Gpu) (k : Nat) (dev : Device) {chunk : List (List UInt8)}
    (h : maxInputBytes < paddedSize chunk) :
    gpu.sha256Chunk k dev chunk = none := by
  have hwrite : dev.inputData.write (chunk.flatMap padWords) = none := by
    have htotal := length_allWords chunk
    have hmax : maxInputBytes = 16777216 := rfl
    refine dif_neg ?_
    omega
  simp only [Gpu.sha256Chunk, sha256PadInputs, hwrite, Option.bind_eq_bind, Option.bind_none]

theorem sha256Chunks_isSome_iff (gpu : Gpu) : ∀ {cs : List (List (List UInt8))} (k : Nat) (dev : Device),
    (∀ c ∈ cs, c.length ≤ maxHashesPerDispatch) →
    ((gpu.sha256Chunks k dev cs).isSome ↔ ∀ c ∈ cs, paddedSize c ≤ maxInputBytes)
  | [], _, _, _ => ⟨(fun _ c hc => by cases hc), fun _ => rfl⟩
  | c :: cs, k, dev, hn => by
    rw [List.forall_mem_cons]
    by_cases hsize : paddedSize c ≤ maxInputBytes
    · obtain ⟨dev', hfirst⟩ := sha256Chunk_eq gpu k dev hsize (hn c List.mem_cons_self)
      have ih := sha256Chunks_isSome_iff gpu (k + 1) dev' fun x hx => hn x (List.mem_cons_of_mem _ hx)
      rw [← ih, Gpu.sha256Chunks, hfirst]
      simp only [Option.bind_eq_bind, Option.bind_some, hsize, true_and]
      cases gpu.sha256Chunks (k + 1) dev' cs <;> rfl
    · rw [Gpu.sha256Chunks, sha256Chunk_none gpu k dev (by omega)]
      simp [hsize]

/-- A batch is hashed exactly where every dispatch fits. -/
theorem sha256Batch_isSome_iff (gpu : Gpu) (dev : Device) (inputs : List (List UInt8)) :
    (gpu.sha256Batch dev inputs).isSome ↔ FewBlocks inputs := by
  have hle := (chunks_spec (show 0 < maxHashesPerDispatch by decide) inputs).2
  rw [← fits_iff]
  exact sha256Chunks_isSome_iff gpu 0 dev hle

/-- **The dispatches of a batch fit their buffers** exactly where no window of 65536 inputs pads to more than
`2 ^ 18` blocks. -/
theorem dispatches_fit_iff (inputs : List (List UInt8)) : Buffered inputs ↔ FewBlocks inputs := by
  have hle := (chunks_spec (show 0 < maxHashesPerDispatch by decide) inputs).2
  refine ⟨fun h => (fits_iff inputs).1 fun chunk hmem => (chunkFits_iff (hle chunk hmem)).1 (h.chunks chunk hmem),
    fun h => ?_⟩
  exact ⟨fun chunk hmem => (chunkFits_iff (hle chunk hmem)).2 ((fits_iff inputs).2 h chunk hmem),
    fun gpu dev => (sha256Batch_isSome_iff gpu dev inputs).2 h⟩

/-- One input of `2 ^ 24` bytes: its padding is written past the end. -/
theorem one_long_input_overflows : ¬ Buffered [List.replicate 16777216 0] := by
  intro h
  have hmem : [List.replicate 16777216 0] ∈ chunks maxHashesPerDispatch [List.replicate 16777216 (0 : UInt8)] :=
    (mem_chunks (by decide) _ _).2 ⟨0, Nat.zero_lt_one,
      (List.take_of_length_le (Nat.succ_le_succ (Nat.zero_le _))).symm⟩
  have hlt := (h.chunks _ hmem).length_lt (List.mem_singleton.2 rfl)
  rw [List.length_replicate] at hlt
  exact absurd hlt (by decide)

/-- Inputs of up to 247 bytes take four blocks, so batches of them always fit. -/
theorem fewBlocks_of_short {inputs : List (List UInt8)} (h : ∀ input ∈ inputs, input.length ≤ 247) :
    FewBlocks inputs := by
  intro k
  have hwindow : ∀ l : List (List UInt8), (∀ input ∈ l, input.length ≤ 247) →
      (l.map fun input => (input.length + 72) / 64).sum ≤ l.length * 4 := by
    intro l hl
    induction l with
    | nil => exact Nat.le_refl _
    | cons input l ih =>
      have hfirst := hl input List.mem_cons_self
      have hrest := ih fun x hx => hl x (List.mem_cons_of_mem _ hx)
      rw [List.map_cons, List.sum_cons, List.length_cons]
      omega
  have hsum := hwindow ((inputs.drop (k * 65536)).take 65536) fun x hx =>
    h x (List.mem_of_mem_drop (List.mem_of_mem_take hx))
  have hlen := List.length_take_le 65536 (inputs.drop (k * 65536))
  omega

end Webycash.Compute.Wgpu
