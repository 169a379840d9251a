import Mathlib.Data.List.Perm.Subperm
import Mathlib.Data.List.Sort
import Mathlib.Order.Basic
/-!
# The newest entries of two indexes

Two indexes are in descending order and each is cut at `n` entries before they are merged; entries of the
second index that are in the first one too are dropped. The merge is sorted and cut again. What was cut off
early has `n` entries at least as new before it in the merge (`le_rank_merge`), so the result is as long as if
nothing had been cut, and lacks nothing that is newer than what it contains (`length_newest`,
`mem_newest_of_newer`).
-/

namespace Newest

variable {α τ : Type} [LinearOrder τ] {time : α → τ} {l A B M U : List α} {n : Nat} {t t' : τ} {s u x : α}

/-- Newest first. -/
def Descending (time : α → τ) (l : List α) : Prop := l.Pairwise fun a b => time b ≤ time a

/-- The number of entries that are no older. -/
def rank (time : α → τ) (t : τ) (l : List α) : Nat := l.countP fun x => decide (t ≤ time x)

def newerFirst (time : α → τ) (a b : α) : Bool := decide (time b ≤ time a)

/-- Sorted, newest first, and cut. -/
def newest (time : α → τ) (n : Nat) (l : List α) : List α := (l.mergeSort (newerFirst time)).take n

theorem descending_mergeSort (time : α → τ) (l : List α) : Descending time (l.mergeSort (newerFirst time)) := by
  refine (List.pairwise_mergeSort ?_ ?_ l).imp of_decide_eq_true
  · intro a b c hab hbc
    exact decide_eq_true (le_trans (of_decide_eq_true hbc) (of_decide_eq_true hab))
  · intro a b
    exact Bool.or_eq_true_iff.2 ((le_total (time b) (time a)).imp decide_eq_true decide_eq_true)

theorem descending_newest : Descending time (newest time n l) :=
  List.Pairwise.sublist (List.take_sublist _ _) (descending_mergeSort time l)

theorem mem_of_mem_newest (h : x ∈ newest time n l) : x ∈ l := List.mem_mergeSort.1 (List.mem_of_mem_take h)

theorem nodup_newest (h : l.Nodup) : (newest time n l).Nodup :=
  List.Nodup.sublist (List.take_sublist _ _) ((List.mergeSort_perm _ _).nodup_iff.2 h)

/-! ## Ranks -/

theorem rank_le_length : rank time t l ≤ l.length := List.countP_le_length

theorem rank_mono (h : t ≤ t') : rank time t' l ≤ rank time t l :=
  List.countP_mono_left fun _ _ hx => decide_eq_true (le_trans h (of_decide_eq_true hx))

theorem rank_append : rank time t (A ++ B) = rank time t A + rank time t B := List.countP_append

/-- What is cut off has `n` entries before it. -/
theorem le_rank_take (hl : Descending time l) (hx : x ∈ l) (hcut : x ∉ l.take n) :
    n ≤ rank time (time x) (l.take n) := by
  rw [← List.take_append_drop n l, List.mem_append] at hx
  have hdrop := hx.resolve_left hcut
  rw [← List.take_append_drop n l] at hl
  have hbefore := (List.pairwise_append.1 hl).2.2
  have hlen : (l.take n).length = n := by
    have hpos := List.length_pos_of_mem hdrop
    rw [List.length_drop] at hpos
    rw [List.length_take]
    omega
  have hall : rank time (time x) (l.take n) = (l.take n).length :=
    List.countP_eq_length.2 fun a ha => decide_eq_true (hbefore a ha x hdrop)
  rw [hall, hlen]

/-- Fewer than `n` entries are newer than one of the first `n`. -/
theorem countP_newer_lt (hl : Descending time l) (hs : s ∈ l.take n) :
    l.countP (fun x => decide (time s < time x)) < n := by
  obtain ⟨p, q, hpq⟩ := List.append_of_mem hs
  have hlen : p.length < n := by
    have htake := congrArg List.length hpq
    rw [List.length_append, List.length_cons, List.length_take] at htake
    omega
  have hcut : l = p ++ s :: (q ++ l.drop n) := by
    conv_lhs => rw [← List.take_append_drop n l, hpq]
    simp
  have hbehind : (s :: (q ++ l.drop n)).countP (fun x => decide (time s < time x)) = 0 := by
    rw [hcut] at hl
    have hs' := List.pairwise_cons.1 (List.pairwise_append.1 hl).2.1
    refine List.countP_eq_zero.2 fun x hx => ?_
    rw [decide_eq_true_eq, not_lt]
    rcases List.mem_cons.1 hx with rfl | hx
    · exact le_rfl
    · exact hs'.1 x hx
  rw [hcut, List.countP_append, hbehind]
  exact lt_of_le_of_lt List.countP_le_length hlen

/-- What is newer than one of the first `n` is one of them. -/
theorem mem_take_of_newer (hl : Descending time l) (hs : s ∈ l.take n) (hx : x ∈ l) (hlt : time s < time x) :
    x ∈ l.take n := by
  by_contra hcut
  rw [← List.take_append_drop n l] at hl hx
  have hdrop := (List.mem_append.1 hx).resolve_left hcut
  exact absurd hlt (not_lt.2 ((List.pairwise_append.1 hl).2.2 s hs x hdrop))

/-! ## The merge -/

/-- Both indexes cut, and the second one without what it shares with the first. -/
def merge (n : Nat) (shared : α → Bool) (B A : List α) : List α := B.take n ++ (A.take n).filter fun a => !shared a

/-- **What the merge lacks** has `n` entries before it. -/
theorem le_rank_merge {shared : α → Bool} (hB : Descending time B) (hA : Descending time A) (hnodup : A.Nodup)
    (hshared : ∀ a ∈ A, shared a = true → a ∈ B) (hu : u ∈ B ++ A.filter fun a => !shared a)
    (hcut : u ∉ merge n shared B A) :
    n ≤ rank time (time u) (merge n shared B A) := by
  rw [merge, List.mem_append, not_or] at hcut
  rw [merge, rank_append]
  rcases List.mem_append.1 hu with hu | hu
  · exact le_trans (le_rank_take hB hu hcut.1) (Nat.le_add_right _ _)
  · obtain ⟨hu, hown⟩ := List.mem_filter.1 hu
    have hcutA : u ∉ A.take n := fun h => hcut.2 (List.mem_filter.2 ⟨h, hown⟩)
    by_cases hall : ∀ a ∈ A.take n, shared a = true → a ∈ B.take n
    · -- the entries of the second index before `u` are all in the merge, on one side or the other
      have hrank := le_rank_take hA hu hcutA
      have hsplit : rank time (time u) (A.take n) =
          rank time (time u) ((A.take n).filter shared) + rank time (time u) ((A.take n).filter fun a => !shared a) :=
        List.countP_eq_countP_filter_add _ _ _
      have hsub : rank time (time u) ((A.take n).filter shared) ≤ rank time (time u) (B.take n) := by
        refine List.Subperm.countP_le _ (List.subperm_of_subset ?_ fun a ha => ?_)
        · exact (hnodup.sublist (List.take_sublist _ _)).filter _
        · obtain ⟨ha, hsh⟩ := List.mem_filter.1 ha
          exact hall a ha hsh
      omega
    · push Not at hall
      obtain ⟨x, hx, hsh, hxB⟩ := hall
      have hrank := le_rank_take hB (hshared x (List.mem_of_mem_take hx) hsh) hxB
      have hux : time u ≤ time x := by
        rw [← List.take_append_drop n A] at hA hu
        exact (List.pairwise_append.1 hA).2.2 x hx u ((List.mem_append.1 hu).resolve_left hcutA)
      exact le_trans hrank (le_trans (rank_mono hux) (Nat.le_add_right _ _))

/-- **What a merge of cut indexes lacks** has `n` entries before it, when the merge has what was not cut off. -/
theorem le_rank_of_take (hl : Descending time l) (hnodup : l.Nodup) (hsub : l.take n ⊆ M) (hu : u ∈ l)
    (hcut : u ∉ M) :
    n ≤ rank time (time u) M := by
  refine le_trans (le_rank_take hl hu fun h => hcut (hsub h)) ?_
  exact List.Subperm.countP_le _ (List.subperm_of_subset (hnodup.sublist (List.take_sublist _ _)) hsub)

/-- Nothing is lost in length. -/
theorem length_newest (hU : U.Nodup) (hM : M.Nodup) (hsub : M ⊆ U)
    (hrank : ∀ u ∈ U, u ∉ M → n ≤ rank time (time u) M) : (newest time n M).length = min n U.length := by
  rw [newest, List.length_take, List.length_mergeSort]
  have hle : M.length ≤ U.length := (List.subperm_of_subset hM hsub).length_le
  by_cases hall : U ⊆ M
  · have hge : U.length ≤ M.length := (List.subperm_of_subset hU hall).length_le
    omega
  · obtain ⟨u, hu, hcut⟩ := Set.not_subset.1 hall
    have hlen := le_trans (hrank u hu hcut) rank_le_length
    omega

/-- And nothing that is newer than what is there. -/
theorem mem_newest_of_newer (hrank : ∀ u ∈ U, u ∉ M → n ≤ rank time (time u) M)
    (hs : s ∈ newest time n M) (hu : u ∈ U) (hlt : time s < time u) : u ∈ newest time n M := by
  have hdesc := descending_mergeSort time M
  by_cases hM : u ∈ M
  · exact mem_take_of_newer hdesc hs (List.mem_mergeSort.2 hM) hlt
  · have hfew := countP_newer_lt hdesc hs
    rw [(List.mergeSort_perm M (newerFirst time)).countP_eq] at hfew
    have hmany : rank time (time u) M ≤ M.countP fun x => decide (time s < time x) :=
      List.countP_mono_left fun x _ hx => decide_eq_true (lt_of_lt_of_le hlt (of_decide_eq_true hx))
    exact absurd (hrank u hu hM) (not_le.2 (lt_of_le_of_lt hmany hfew))

end Newest
