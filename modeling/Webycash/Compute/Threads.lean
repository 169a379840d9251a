import Mathlib.Algebra.Order.BigOperators.Group.List
import Mathlib.Algebra.Order.Group.Nat
import Webycash.Compute.Kernel
/-!
# Threads, their output and what the host reads back

Both kernels run one thread an input, in no order the host controls: thread `idx` writes its eight
registers at `8 * idx` of the output and nothing else, and threads past the count write nothing. So in
whatever order they run, what is read back is what each computes (`readHashes_launch`). Inputs go to the
device as one array with the start of each (`getD_flatMap`).
-/

namespace Webycash.Compute

/-! ## Packed inputs -/

/-- Where the part of input `i` begins when those of all are put one behind another. -/
def startOf {α β : Type} (f : α → List β) (l : List α) (i : Nat) : Nat :=
  ((l.take i).map fun a => (f a).length).sum

theorem startOf_zero {α β : Type} (f : α → List β) (l : List α) : startOf f l 0 = 0 := by
  rw [startOf, List.take_zero]; rfl

theorem startOf_cons {α β : Type} (f : α → List β) (a : α) (l : List α) (i : Nat) :
    startOf f (a :: l) (i + 1) = (f a).length + startOf f l i := by
  rw [startOf, List.take_succ_cons, List.map_cons, List.sum_cons]
  rfl

theorem getD_flatMap {α β : Type} (f : α → List β) (d : β) : ∀ (l : List α) (i t : Nat) (hi : i < l.length),
    t < (f l[i]).length → (l.flatMap f).getD (startOf f l i + t) d = (f l[i]).getD t d
  | a :: l, 0, t, _, ht => by
    rw [startOf_zero, Nat.zero_add, List.flatMap_cons]
    exact List.getD_append _ _ _ _ ht
  | a :: l, i + 1, t, hi, ht => by
    rw [startOf_cons, List.flatMap_cons, Nat.add_assoc, List.getD_append_right _ _ _ _ (Nat.le_add_right _ _),
      Nat.add_sub_cancel_left]
    exact getD_flatMap f d l i t (Nat.lt_of_succ_lt_succ hi) ht

/-- The part of input `i` ends before the end. -/
theorem startOf_add_le {α β : Type} (f : α → List β) : ∀ (l : List α) (i : Nat) (hi : i < l.length),
    startOf f l i + (f l[i]).length ≤ (l.flatMap f).length
  | a :: l, 0, _ => by
    rw [startOf_zero, Nat.zero_add, List.flatMap_cons, List.length_append]
    exact Nat.le_add_right _ _
  | a :: l, i + 1, hi => by
    have ih := startOf_add_le f l i (Nat.lt_of_succ_lt_succ hi)
    rw [startOf_cons, List.flatMap_cons, List.length_append, List.getElem_cons_succ]
    omega

/-- Bytes of the padded inputs. -/
def paddedSize (inputs : List (List UInt8)) : Nat := (inputs.map fun input => Sha256.numBlocks input.length * 64).sum

theorem paddedSize_cons (input : List UInt8) (inputs : List (List UInt8)) :
    paddedSize (input :: inputs) = Sha256.numBlocks input.length * 64 + paddedSize inputs := by
  rw [paddedSize, List.map_cons, List.sum_cons]
  rfl

theorem length_lt_of_paddedSize {inputs : List (List UInt8)} {n : Nat} (h : paddedSize inputs ≤ n)
    {input : List UInt8} (hmem : input ∈ inputs) : input.length < n := by
  have hle : Sha256.numBlocks input.length * 64 ≤ paddedSize inputs := List.le_sum_of_mem (List.mem_map_of_mem hmem)
  rw [Sha256.numBlocks] at hle
  omega

/-! ## Threads -/

def Regs.toList (r : Regs) : List UInt32 := [r.a, r.b, r.c, r.d, r.e, r.f, r.g, r.h]

/-- The eight stores at the end of a kernel. -/
def store (output : List UInt32) (o : UInt32) (r : Regs) : List UInt32 :=
  (List.range 8).foldl (fun output k => output.set (o + UInt32.ofNat k).toNat (r.toList.getD k 0)) output

def thread (kernel : UInt32 → Regs) (count : UInt32) (output : List UInt32) (idx : UInt32) : List UInt32 :=
  if count ≤ idx then output else store output (idx * 8) (kernel idx)

/-- The threads of a launch, in the order they happen to run. -/
def launch (kernel : UInt32 → Regs) (count : UInt32) (order : List Nat) (output : List UInt32) : List UInt32 :=
  order.foldl (fun output i => thread kernel count output (UInt32.ofNat i)) output

/-- `words[i * 8 ..]` as bytes, the hash of input `i`. -/
def readHash (words : List UInt32) (i : Nat) : List UInt8 :=
  (List.range 8).flatMap fun w => Sha256.wordBytes (words.getD (i * 8 + w) 0).toNat

def readHashes (n : Nat) (words : List UInt32) : List (List UInt8) := (List.range n).map (readHash words)

theorem length_store (output : List UInt32) (o : UInt32) (r : Regs) : (store output o r).length = output.length :=
  List.foldlRecOn (motive := fun out : List UInt32 => out.length = output.length) _ _ rfl fun out hout k _ => by
    rw [List.length_set, hout]

theorem length_launch (kernel : UInt32 → Regs) (count : UInt32) (order : List Nat) (output : List UInt32) :
    (launch kernel count order output).length = output.length := by
  refine List.foldlRecOn (motive := fun out : List UInt32 => out.length = output.length) order _ rfl
    fun out hout i _ => ?_
  unfold thread
  split
  · exact hout
  · rw [length_store, hout]

/-! ## What is read back -/

theorem getD_set {output : List UInt32} {j k : Nat} {v : UInt32} (hk : k < output.length) :
    (output.set k v).getD j 0 = if j = k then v else output.getD j 0 := by
  by_cases hjk : j = k
  · rw [if_pos hjk, hjk, List.getD_eq_getElem _ _ (by rwa [List.length_set]), List.getElem_set_self]
  · rw [if_neg hjk, List.getD_eq_getElem?_getD, List.getElem?_set_ne (Ne.symm hjk), ← List.getD_eq_getElem?_getD]

/-- The first `n` stores. -/
theorem getD_stores (output : List UInt32) (o : UInt32) (vs : List UInt32) (j : Nat) :
    ∀ n, o.toNat + n ≤ output.length →
    o.toNat + n ≤ 4294967296 → n ≤ 4294967295 →
    ((List.range n).foldl (fun output k => output.set (o + UInt32.ofNat k).toNat (vs.getD k 0)) output).length =
      output.length ∧
      ((List.range n).foldl (fun output k => output.set (o + UInt32.ofNat k).toNat (vs.getD k 0)) output).getD j 0 =
        if o.toNat ≤ j ∧ j < o.toNat + n then vs.getD (j - o.toNat) 0 else output.getD j 0
  | 0, _, _, _ => ⟨rfl, by rw [if_neg (by omega)]; rfl⟩
  | n + 1, hlen, hsize, hn => by
    obtain ⟨ihlen, ih⟩ := getD_stores output o vs j n (by omega) (by omega) (by omega)
    have hslot : (o + UInt32.ofNat n).toNat = o.toNat + n := by
      rw [UInt32.toNat_add, UInt32.toNat_ofNat_of_lt' (by show n < 4294967296; omega)]
      exact Nat.mod_eq_of_lt (by show o.toNat + n < 4294967296; omega)
    rw [List.range_succ, List.foldl_append, List.foldl_cons, List.foldl_nil, hslot]
    refine ⟨by rw [List.length_set, ihlen], ?_⟩
    rw [getD_set (by rw [ihlen]; omega), ih]
    by_cases hj : j = o.toNat + n
    · rw [if_pos hj, if_pos (by omega), hj, Nat.add_sub_cancel_left]
    · rw [if_neg hj]
      by_cases hin : o.toNat ≤ j ∧ j < o.toNat + n
      · rw [if_pos hin, if_pos (by omega)]
      · rw [if_neg hin, if_neg (by omega)]

section

variable {kernel : UInt32 → Regs} {n : Nat}

/-- What a thread writes: its own eight words. -/
theorem thread_spec {output : List UInt32} {i : Nat} (hn : n * 8 ≤ 4294967295) (hlen : n * 8 ≤ output.length)
    (hi : i < 4294967296) :
    (thread kernel (UInt32.ofNat n) output (UInt32.ofNat i)).length = output.length ∧
      ∀ j, (thread kernel (UInt32.ofNat n) output (UInt32.ofNat i)).getD j 0 =
        if i < n ∧ i * 8 ≤ j ∧ j < i * 8 + 8 then (kernel (UInt32.ofNat i)).toList.getD (j - i * 8) 0
        else output.getD j 0 := by
  have hcount : UInt32.ofNat n ≤ UInt32.ofNat i ↔ n ≤ i := by
    rw [UInt32.le_iff_toNat_le, UInt32.toNat_ofNat_of_lt' (by show n < 4294967296; omega), UInt32.toNat_ofNat_of_lt' hi]
  unfold thread
  by_cases hlt : n ≤ i
  · rw [if_pos (hcount.2 hlt)]
    exact ⟨rfl, fun j => by rw [if_neg (by omega)]⟩
  · rw [if_neg (mt hcount.1 hlt)]
    have hbase : (UInt32.ofNat i * 8).toNat = i * 8 := by
      rw [UInt32.toNat_mul, UInt32.toNat_ofNat_of_lt' hi]
      exact Nat.mod_eq_of_lt (by show i * 8 < 4294967296; omega)
    have hstores := fun j => getD_stores output (UInt32.ofNat i * 8) (kernel (UInt32.ofNat i)).toList j 8
      (by omega) (by omega) (by omega)
    refine ⟨(hstores 0).1, fun j => ?_⟩
    rw [store, (hstores j).2, hbase]
    by_cases hj : i * 8 ≤ j ∧ j < i * 8 + 8
    · rw [if_pos hj, if_pos ⟨Nat.lt_of_not_le hlt, hj⟩]
    · rw [if_neg hj, if_neg fun h => hj h.2]

/-- The words of thread `i` are in place. -/
def Stored (kernel : UInt32 → Regs) (i : Nat) (output : List UInt32) : Prop :=
  ∀ k < 8, output.getD (i * 8 + k) 0 = (kernel (UInt32.ofNat i)).toList.getD k 0

theorem Stored.thread {output : List UInt32} {i j : Nat} (hn : n * 8 ≤ 4294967295) (hlen : n * 8 ≤ output.length)
    (hj : j < 4294967296) (hi : i < n) (h : i = j ∨ Stored kernel i output) :
    Stored kernel i (thread kernel (UInt32.ofNat n) output (UInt32.ofNat j)) := by
  intro k hk
  rw [(thread_spec hn hlen hj).2]
  by_cases hij : i = j
  · rw [if_pos (by omega), hij, Nat.add_sub_cancel_left]
  · rw [if_neg (by omega)]
    exact h.elim (fun heq => absurd heq hij) fun hstored => hstored k hk

/-- **In whatever order the threads run, each leaves its words**, by induction on those that are to run. -/
theorem stored_launch {i : Nat} (hn : n * 8 ≤ 4294967295) (hi : i < n) :
    ∀ {order : List Nat} {output : List UInt32},
    n * 8 ≤ output.length → (∀ j ∈ order, j < 4294967296) → (i ∈ order ∨ Stored kernel i output) →
    Stored kernel i (launch kernel (UInt32.ofNat n) order output)
  | [], _, _, _, h => h.elim (fun hmem => by cases hmem) id
  | j :: order, output, hlen, horder, h => by
    have hj : j < 4294967296 := horder j List.mem_cons_self
    have hkeep : (thread kernel (UInt32.ofNat n) output (UInt32.ofNat j)).length = output.length :=
      (thread_spec hn hlen hj).1
    show Stored kernel i (launch kernel (UInt32.ofNat n) order
      (Compute.thread kernel (UInt32.ofNat n) output (UInt32.ofNat j)))
    refine stored_launch hn hi (by rw [hkeep]; exact hlen) (fun k hk => horder k (List.mem_cons_of_mem _ hk)) ?_
    by_cases hmem : i ∈ order
    · exact .inl hmem
    · refine .inr (Stored.thread hn hlen hj hi (h.imp (fun hcons => ?_) id))
      exact (List.mem_cons.1 hcons).elim id fun hin => absurd hin hmem

theorem bytes_eq (r : Regs) : ((List.range 8).flatMap fun w => Sha256.wordBytes (r.toList.getD w 0).toNat) =
    r.state.bytes := rfl

/-- **The host reads what each thread computed.** -/
theorem readHashes_launch {order : List Nat} {output : List UInt32} (hn : n * 8 ≤ 4294967295)
    (hlen : n * 8 ≤ output.length) (horder : ∀ i ∈ order, i < 4294967296) (hall : ∀ i < n, i ∈ order) :
    readHashes n ((launch kernel (UInt32.ofNat n) order output).take (n * 8)) =
      (List.range n).map fun i => (kernel (UInt32.ofNat i)).state.bytes := by
  refine List.map_congr_left fun i hi => ?_
  have hin : i < n := List.mem_range.1 hi
  have hstored : Stored kernel i (launch kernel (UInt32.ofNat n) order output) :=
    stored_launch hn hin hlen horder (.inl (hall i hin))
  rw [← bytes_eq, readHash]
  refine congrArg List.flatten (List.map_congr_left fun w hw => ?_)
  have hslot : i * 8 + w < n * 8 := by
    have := List.mem_range.1 hw
    omega
  rw [← hstored w (List.mem_range.1 hw), List.getD_eq_getElem?_getD, List.getElem?_take_of_lt hslot,
    ← List.getD_eq_getElem?_getD]

end

end Webycash.Compute
