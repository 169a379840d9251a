import Webycash.Lib.FMap
/-!
# Transfers between the keys of a map

Every entry of a map has a weight. A transfer empties the keys of one list and gives weight to
the keys of another, all other keys stay; `Transfer.total` is the balance.
-/

namespace FMap

variable {κ ν : Type} [DecidableEq κ] {w : κ → ν → Int} {m m' : FMap κ ν} {ins : List κ}
  {outs : List (κ × Int)}

/-- From `m` to `m'`: the weight of `ins` is gone, each key of `outs` has its new weight. -/
structure Transfer (w : κ → ν → Int) (m m' : FMap κ ν) (ins : List κ) (outs : List (κ × Int)) : Prop where
  nodup : (outs.map Prod.fst).Nodup
  disjoint : ∀ k ∈ ins, k ∉ outs.map Prod.fst
  emptied : ∀ k ∈ ins, weight w m' k = 0
  free : ∀ p ∈ outs, weight w m p.1 = 0
  made : ∀ p ∈ outs, weight w m' p.1 = p.2
  frame : ∀ k, k ∉ ins → k ∉ outs.map Prod.fst → m'.lookup k = m.lookup k

/-- What the distinct keys of a list weigh together. -/
def weightOf (w : κ → ν → Int) (m : FMap κ ν) (ks : List κ) : Int := ∑ k ∈ ks.toFinset, weight w m k

@[simp] theorem weightOf_nil : weightOf w m [] = 0 := by simp [weightOf]

/-- **The balance of a transfer.** -/
theorem Transfer.total (h : Transfer w m m' ins outs) :
    total w m' + weightOf w m ins = total w m + (outs.map Prod.snd).sum := by
  have hdisj : Disjoint ins.toFinset (outs.map Prod.fst).toFinset :=
    Finset.disjoint_left.2 fun k hk hk' => h.disjoint k (List.mem_toFinset.1 hk) (List.mem_toFinset.1 hk')
  have hagree : ∀ k, k ∉ ins.toFinset ∪ (outs.map Prod.fst).toFinset → m'.lookup k = m.lookup k := by
    intro k hk
    simp only [Finset.mem_union, List.mem_toFinset, not_or] at hk
    exact h.frame k hk.1 hk.2
  have hacc := total_add_of_agree w hagree
  rw [Finset.sum_union hdisj, Finset.sum_union hdisj] at hacc
  have hfree : ∑ k ∈ (outs.map Prod.fst).toFinset, weight w m k = 0 := Finset.sum_eq_zero fun k hk => by
    obtain ⟨p, hp, rfl⟩ := List.mem_map.1 (List.mem_toFinset.1 hk)
    exact h.free p hp
  have hemptied : ∑ k ∈ ins.toFinset, weight w m' k = 0 :=
    Finset.sum_eq_zero fun k hk => h.emptied k (List.mem_toFinset.1 hk)
  have hmade : ∑ k ∈ (outs.map Prod.fst).toFinset, weight w m' k = (outs.map Prod.snd).sum := by
    rw [List.sum_toFinset _ h.nodup, List.map_map]
    exact congrArg List.sum (List.map_congr_left h.made)
  rw [hfree, hemptied, hmade, Int.add_zero, Int.zero_add] at hacc
  exact hacc

theorem Transfer.total_made (h : Transfer w m m' [] outs) :
    FMap.total w m' = FMap.total w m + (outs.map Prod.snd).sum := by
  simpa using h.total

theorem Transfer.total_emptied (h : Transfer w m m' ins []) : FMap.total w m' + weightOf w m ins = FMap.total w m := by
  simpa using h.total

/-- Fresh entries for fresh keys. -/
theorem transfer_putAll {l : List (κ × ν)} (hnd : (l.map Prod.fst).Nodup) (hfree : ∀ p ∈ l, weight w m p.1 = 0) :
    Transfer w m (putAll m l) [] (l.map fun p => (p.1, w p.1 p.2)) := by
  have hkeys : (l.map fun p => (p.1, w p.1 p.2)).map Prod.fst = l.map Prod.fst := by
    rw [List.map_map]
    rfl
  refine ⟨by rwa [hkeys], by simp, by simp, ?_, ?_, ?_⟩
  · intro q hq
    obtain ⟨p, hp, rfl⟩ := List.mem_map.1 hq
    exact hfree p hp
  · intro q hq
    obtain ⟨p, hp, rfl⟩ := List.mem_map.1 hq
    simp [weight, lookup_putAll_of_mem hnd hp]
  · intro k _ hk
    rw [hkeys] at hk
    exact lookup_putAll_of_notMem hk m

end FMap
