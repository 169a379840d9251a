import Mathlib.Algebra.Ring.Nat
import Mathlib.Algebra.Order.Group.Nat
import Mathlib.Data.List.Nodup
import Mathlib.Algebra.Order.BigOperators.Group.List
/-!
# Cutting a flattened list with one stride

A writer lays out blocks one after another, a reader cuts the result into pieces of a fixed
size `n`. `slice n i l` is the `i`-th piece, `Aligned n ls` the block lengths for which the
reader sees the writer's blocks. `slice_flatten` says that alignment is enough and
`aligned_of_covers` that nothing less is: if every piece is at least as long as its block,
the blocks are aligned, because the pieces have no room to spare.
-/

namespace Stride

variable {α : Type}

/-- The `i`-th piece of `n` elements, short or empty past the end. -/
def slice (n i : Nat) (l : List α) : List α := (l.drop (i * n)).take n

@[simp] theorem slice_zero (n : Nat) (l : List α) : slice n 0 l = l.take n := by simp [slice]

theorem slice_succ (n i : Nat) (l : List α) : slice n (i + 1) l = slice n i (l.drop n) := by
  simp only [slice, List.drop_drop]
  congr 2
  rw [Nat.succ_mul, Nat.add_comm]

theorem mem_of_mem_slice {n i : Nat} {l : List α} {a : α} (h : a ∈ slice n i l) : a ∈ l :=
  List.mem_of_mem_drop (List.mem_of_mem_take h)

/-- Every block but the last has `n` elements and the last at most `n`. -/
def Aligned (n : Nat) : List (List α) → Prop
  | [] => True
  | [l] => l.length ≤ n
  | l :: l' :: ls => l.length = n ∧ Aligned n (l' :: ls)

instance decidableAligned (n : Nat) : ∀ ls : List (List α), Decidable (Aligned n ls)
  | [] => isTrue trivial
  | [l] => inferInstanceAs (Decidable (l.length ≤ n))
  | _ :: l' :: ls => @instDecidableAnd _ _ _ (decidableAligned n (l' :: ls))

theorem aligned_of_forall_length {n : Nat} : ∀ {ls : List (List α)}, (∀ l ∈ ls, l.length = n) → Aligned n ls
  | [], _ => trivial
  | [l], h => Nat.le_of_eq (h l (by simp))
  | l :: l' :: ls, h => ⟨h l (by simp), aligned_of_forall_length fun m hm => h m (List.mem_cons_of_mem _ hm)⟩

/-- **Aligned blocks are read back.** -/
theorem slice_flatten {n : Nat} :
    ∀ {ls : List (List α)}, Aligned n ls → ∀ (i : Nat) (hi : i < ls.length), slice n i ls.flatten = ls[i]
  | [], _, i, hi => absurd hi (Nat.not_lt_zero i)
  | [l], h, i, hi => by
    obtain rfl : i = 0 := by simpa using hi
    simpa using List.take_of_length_le h
  | _ :: l' :: ls, ⟨hl, _⟩, 0, _ => by simp [← hl]
  | l :: l' :: ls, ⟨hl, h⟩, i + 1, hi => by
    rw [List.flatten_cons, slice_succ, ← hl, List.drop_left, hl]
    exact slice_flatten h i (by simpa using hi)

/-- The pieces do not overlap, so together they are no longer than the list. -/
theorem sum_length_slices_le (n : Nat) : ∀ (k : Nat) (l : List α),
    ((List.range k).map fun i => (slice n i l).length).sum ≤ l.length
  | 0, l => by simp
  | k + 1, l => by
    rw [List.range_succ_eq_map, List.map_cons, List.map_map, List.sum_cons]
    have ih := sum_length_slices_le n k (l.drop n)
    have hs : (List.range k).map ((fun i => (slice n i l).length) ∘ Nat.succ) =
        (List.range k).map fun i => (slice n i (l.drop n)).length :=
      List.map_congr_left fun i _ => by simp [slice_succ]
    rw [hs]
    simp only [slice_zero, List.length_take, List.length_drop] at ih ⊢
    omega

theorem sum_length_eq_flatten (ls : List (List α)) :
    ((List.range ls.length).map fun i => (ls[i]?.getD []).length).sum = ls.flatten.length := by
  induction ls with
  | nil => simp
  | cons l ls ih =>
    rw [List.length_cons, List.range_succ_eq_map, List.map_cons, List.map_map, List.sum_cons,
      List.flatten_cons, List.length_append, ← ih]
    rfl

/-- Two families of numbers with one pointwise below the other and the sums the other way
round are equal. -/
theorem eq_of_sum_le {f g : Nat → Nat} : ∀ {k : Nat}, (∀ i < k, f i ≤ g i) →
    ((List.range k).map g).sum ≤ ((List.range k).map f).sum → ∀ i < k, f i = g i
  | 0, _, _, i, hi => absurd hi (Nat.not_lt_zero i)
  | k + 1, hle, hsum, i, hi => by
    have hmono : ((List.range k).map f).sum ≤ ((List.range k).map g).sum :=
      List.sum_le_sum fun i hi => hle i (Nat.lt_succ_of_lt (List.mem_range.1 hi))
    simp only [List.range_succ, List.map_append, List.sum_append, List.map_cons, List.map_nil,
      List.sum_cons, List.sum_nil] at hsum
    have hk := hle k (Nat.lt_succ_self k)
    rcases Nat.lt_succ_iff_lt_or_eq.1 hi with hi | rfl
    · exact eq_of_sum_le (fun i hi => hle i (Nat.lt_succ_of_lt hi)) (by omega) i hi
    · omega

/-- The block lengths the reader's pieces impose, with no empty block. -/
theorem aligned_of_lengths {n : Nat} : ∀ {ls : List (List α)}, (∀ l ∈ ls, l ≠ []) →
    (∀ (i : Nat) (hi : i < ls.length), ls[i].length = (slice n i ls.flatten).length) → Aligned n ls
  | [], _, _ => trivial
  | [l], _, h => by
    have h0 := h 0 (by simp)
    simp only [List.getElem_cons_zero, List.flatten_cons, List.flatten_nil, List.append_nil, slice_zero,
      List.length_take] at h0
    exact (by omega : l.length ≤ n)
  | l :: l' :: ls, hne, h => by
    have hl' : 0 < l'.length := List.length_pos_iff.2 (hne l' (by simp))
    have h0 := h 0 (by simp)
    simp only [List.getElem_cons_zero, List.flatten_cons, slice_zero, List.length_take,
      List.length_append] at h0
    have hl : l.length = n := by omega
    refine ⟨hl, aligned_of_lengths (fun m hm => hne m (List.mem_cons_of_mem _ hm)) fun i hi => ?_⟩
    have hi' := h (i + 1) (by simpa using hi)
    rw [List.flatten_cons, slice_succ] at hi'
    simpa [← hl] using hi'

/-- **Nothing but alignment is read back.** Pieces at least as long as their non-empty
blocks force the layout. -/
theorem aligned_of_covers {n : Nat} {ls : List (List α)} (hne : ∀ l ∈ ls, l ≠ [])
    (h : ∀ (i : Nat) (hi : i < ls.length), ls[i].length ≤ (slice n i ls.flatten).length) : Aligned n ls := by
  refine aligned_of_lengths hne fun i hi => ?_
  have heq := eq_of_sum_le (f := fun i => (ls[i]?.getD []).length) (g := fun i => (slice n i ls.flatten).length)
    (k := ls.length) (fun i hi => by simpa [List.getElem?_eq_getElem hi] using h i hi)
    (by rw [sum_length_eq_flatten]; exact sum_length_slices_le n _ _) i hi
  simpa [List.getElem?_eq_getElem hi] using heq

/-! ## Chunks -/

/-- Pieces of `n` from the front, at most `fuel` of them. -/
def chunksFuel (n : Nat) : Nat → List α → List (List α)
  | 0, _ => []
  | _ + 1, [] => []
  | fuel + 1, a :: l => (a :: l).take n :: chunksFuel n fuel ((a :: l).drop n)

/-- `slice::chunks(n)`. -/
def chunks (n : Nat) (l : List α) : List (List α) := chunksFuel n l.length l

theorem flatten_chunksFuel {n : Nat} (hn : 0 < n) : ∀ (fuel : Nat) (l : List α), l.length ≤ fuel →
    (chunksFuel n fuel l).flatten = l
  | 0, l, h => by simp [chunksFuel, List.eq_nil_of_length_eq_zero (Nat.le_zero.1 h)]
  | _ + 1, [], _ => rfl
  | fuel + 1, a :: l, h => by
    rw [chunksFuel, List.flatten_cons, flatten_chunksFuel hn fuel, List.take_append_drop]
    simp only [List.length_drop, List.length_cons] at h ⊢
    omega

/-- The chunks are the list, in order. -/
theorem flatten_chunks {n : Nat} (hn : 0 < n) (l : List α) : (chunks n l).flatten = l :=
  flatten_chunksFuel hn _ l (Nat.le_refl _)

/-- In a list without repetitions an element does not occur before its position. -/
theorem getElem_notMem_take {l : List α} (hn : l.Nodup) {m : Nat} (hm : m < l.length) : l[m] ∉ l.take m := by
  intro h
  obtain ⟨j, hj, e⟩ := List.mem_take_iff_getElem.1 h
  have := (List.Nodup.getElem_inj_iff hn).1 e
  omega

/-! ## Pairs written as two elements each -/

/-- Every pair as two consecutive elements. -/
def flattenPairs (l : List (α × α)) : List α := l.flatMap fun p => [p.1, p.2]

/-- Read consecutive elements as pairs; `none` when one is left over. -/
def pairUp : List α → Option (List (α × α))
  | [] => some []
  | [_] => none
  | a :: b :: l => (pairUp l).map ((a, b) :: ·)

@[simp] theorem pairUp_flattenPairs (l : List (α × α)) : pairUp (flattenPairs l) = some l := by
  induction l with
  | nil => rfl
  | cons p l ih =>
    show (pairUp (flattenPairs l)).map ((p.1, p.2) :: ·) = _
    rw [ih]
    rfl

theorem flattenPairs_flatMap {β : Type} (f : β → List (α × α)) (l : List β) :
    l.flatMap (fun b => flattenPairs (f b)) = flattenPairs (l.flatMap f) := by
  simp [flattenPairs, List.flatMap_assoc]

theorem drop_flattenPairs : ∀ (k : Nat) (l : List (α × α)),
    (flattenPairs l).drop (2 * k) = flattenPairs (l.drop k)
  | 0, _ => by simp
  | _ + 1, [] => by simp [flattenPairs]
  | k + 1, p :: l => by
    rw [Nat.mul_succ, List.drop_succ_cons, ← drop_flattenPairs k l]
    rfl

theorem take_flattenPairs : ∀ (k : Nat) (l : List (α × α)),
    (flattenPairs l).take (2 * k) = flattenPairs (l.take k)
  | 0, _ => by simp [flattenPairs]
  | _ + 1, [] => by simp [flattenPairs]
  | k + 1, p :: l => by
    rw [Nat.mul_succ, List.take_succ_cons]
    show p.1 :: p.2 :: (flattenPairs l).take (2 * k) = _
    rw [take_flattenPairs k l]
    rfl

/-- A piece of the flat list at twice the stride is the piece of pairs. -/
theorem slice_flattenPairs (n i : Nat) (l : List (α × α)) :
    ((flattenPairs l).drop (i * n * 2)).take (n * 2) = flattenPairs (slice n i l) := by
  rw [Nat.mul_comm (i * n) 2, Nat.mul_comm n 2, drop_flattenPairs, take_flattenPairs]
  rfl

end Stride
