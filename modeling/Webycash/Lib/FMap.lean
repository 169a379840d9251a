import Mathlib.Algebra.Ring.Int.Defs
import Mathlib.Algebra.Ring.Nat
import Mathlib.Data.Finmap
import Mathlib.Algebra.BigOperators.Group.Finset.Basic
import Mathlib.Algebra.BigOperators.Group.Finset.Piecewise
/-!
# Finite maps written by lists of puts, and sums over them

`FMap κ ν` is Mathlib's non-dependent `Finmap`. `putAll m l` applies a list of puts from
left to right, so a later put of the same key wins (`lookup_putAll`, `lastPut`). `total w m`
adds up a weight over the bindings; `total_add_of_agree` is the accounting rule every
conservation argument rests on: two maps that agree off a finite set of keys differ in
total by exactly what they differ on that set.
-/

abbrev FMap (κ ν : Type) := Finmap fun _ : κ => ν

namespace FMap

variable {κ ν : Type} [DecidableEq κ]

theorem lookup_insert_ite (m : FMap κ ν) (k j : κ) (v : ν) :
    (m.insert k v).lookup j = if j = k then some v else m.lookup j := by
  by_cases h : j = k
  · subst h; simp
  · simp [h, Finmap.lookup_insert_of_ne _ h]

/-- Put every pair of `l`, in order. -/
def putAll (m : FMap κ ν) (l : List (κ × ν)) : FMap κ ν :=
  l.foldl (fun m p => m.insert p.1 p.2) m

@[simp] theorem putAll_nil (m : FMap κ ν) : putAll m [] = m := rfl

@[simp] theorem putAll_cons (m : FMap κ ν) (p : κ × ν) (l : List (κ × ν)) :
    putAll m (p :: l) = putAll (m.insert p.1 p.2) l := rfl

theorem putAll_append (m : FMap κ ν) (l₁ l₂ : List (κ × ν)) :
    putAll m (l₁ ++ l₂) = putAll (putAll m l₁) l₂ := by
  simp [putAll, List.foldl_append]

/-- The value the last put of `k` in `l` leaves, if there is one. -/
def lastPut : List (κ × ν) → κ → Option ν
  | [], _ => none
  | p :: l, k => (lastPut l k).or (if k = p.1 then some p.2 else none)

theorem lookup_putAll (l : List (κ × ν)) :
    ∀ (m : FMap κ ν) (k : κ), (putAll m l).lookup k = (lastPut l k).or (m.lookup k) := by
  induction l with
  | nil => intro m k; simp [lastPut]
  | cons p l ih =>
    intro m k
    rw [putAll_cons, ih, lookup_insert_ite, lastPut]
    cases lastPut l k <;> by_cases hk : k = p.1 <;> simp [hk]

theorem lastPut_eq_none_iff {l : List (κ × ν)} {k : κ} : lastPut l k = none ↔ k ∉ l.map Prod.fst := by
  induction l with
  | nil => simp [lastPut]
  | cons p l ih =>
    simp only [lastPut, Option.or_eq_none_iff, ih, List.map_cons, List.mem_cons, not_or]
    by_cases hk : k = p.1 <;> simp [hk]

theorem lastPut_mem {l : List (κ × ν)} {k : κ} {v : ν} (h : lastPut l k = some v) : (k, v) ∈ l := by
  induction l with
  | nil => simp [lastPut] at h
  | cons p l ih =>
    simp only [lastPut, Option.or_eq_some_iff] at h
    rcases h with h | ⟨-, h⟩
    · exact List.mem_cons_of_mem _ (ih h)
    · by_cases hk : k = p.1
      · simp only [hk, if_true, Option.some.injEq] at h
        subst hk h
        exact List.mem_cons_self
      · simp [hk] at h

theorem lastPut_map {μ : Type} (f : ν → μ) (k : κ) : ∀ l : List (κ × ν),
    lastPut (l.map fun p => (p.1, f p.2)) k = (lastPut l k).map f
  | [] => rfl
  | p :: l => by
    rw [List.map_cons, lastPut, lastPut, lastPut_map f k l]
    cases lastPut l k <;> by_cases hk : k = p.1 <;> simp [hk]

/-- With distinct keys the listed value is the one that stays. -/
theorem lastPut_of_mem {l : List (κ × ν)} (hn : (l.map Prod.fst).Nodup) {k : κ} {v : ν} (h : (k, v) ∈ l) :
    lastPut l k = some v := by
  induction l with
  | nil => simp at h
  | cons p l ih =>
    simp only [List.map_cons, List.nodup_cons] at hn
    rcases List.mem_cons.1 h with rfl | h
    · simp [lastPut, lastPut_eq_none_iff.2 hn.1]
    · simp [lastPut, ih hn.2 h]

/-- Dropping the puts of one key drops exactly that key. -/
theorem lastPut_filter_ne (a : κ) : ∀ (l : List (κ × ν)) (k : κ),
    lastPut (l.filter fun p => decide (p.1 ≠ a)) k = if k = a then none else lastPut l k
  | [], k => by simp [lastPut]
  | p :: l, k => by
    have ih := lastPut_filter_ne a l k
    by_cases hp : p.1 = a
    · rw [List.filter_cons_of_neg (by simp [hp]), ih]
      by_cases hk : k = a
      · simp [hk]
      · simp [hk, lastPut, hp]
    · rw [List.filter_cons_of_pos (by simp [hp]), lastPut, ih]
      by_cases hk : k = a
      · simp [hk, Ne.symm hp]
      · simp [hk, lastPut]

/-- Putting one key first and the others of a list after it is putting the list. -/
theorem putAll_insert_filter {l : List (κ × ν)} {a : κ} {v : ν} (hn : (l.map Prod.fst).Nodup) (h : (a, v) ∈ l)
    (m : FMap κ ν) : putAll (m.insert a v) (l.filter fun p => decide (p.1 ≠ a)) = putAll m l := by
  refine Finmap.ext_lookup fun k => ?_
  rw [lookup_putAll, lookup_putAll, lookup_insert_ite, lastPut_filter_ne]
  by_cases hk : k = a
  · simp [hk, lastPut_of_mem hn h]
  · simp [hk]

theorem lookup_putAll_of_notMem {l : List (κ × ν)} {k : κ} (h : k ∉ l.map Prod.fst) (m : FMap κ ν) :
    (putAll m l).lookup k = m.lookup k := by
  simp [lookup_putAll, lastPut_eq_none_iff.2 h]

theorem lookup_putAll_of_mem {l : List (κ × ν)} (hn : (l.map Prod.fst).Nodup) {k : κ} {v : ν}
    (h : (k, v) ∈ l) (m : FMap κ ν) : (putAll m l).lookup k = some v := by
  simp [lookup_putAll, lastPut_of_mem hn h]

/-- Puts whose keys are all put again later leave nothing behind. -/
theorem putAll_putAll_of_subset {l₁ l₂ : List (κ × ν)} (h : l₁.map Prod.fst ⊆ l₂.map Prod.fst)
    (m : FMap κ ν) :
    putAll (putAll m l₁) l₂ = putAll m l₂ := by
  refine Finmap.ext_lookup fun k => ?_
  rw [lookup_putAll, lookup_putAll, lookup_putAll]
  cases hk : lastPut l₂ k with
  | some v => simp
  | none =>
    have hk₁ : lastPut l₁ k = none := lastPut_eq_none_iff.2 fun hm => lastPut_eq_none_iff.1 hk (h hm)
    simp [hk₁]

theorem mem_putAll {l : List (κ × ν)} {m : FMap κ ν} {k : κ} :
    k ∈ putAll m l ↔ k ∈ m ∨ k ∈ l.map Prod.fst := by
  induction l generalizing m with
  | nil => simp
  | cons p l ih =>
    rw [putAll_cons, ih, Finmap.mem_insert, List.map_cons, List.mem_cons]
    tauto

/-- The map a list of pairs builds from nothing. -/
def ofPairs (l : List (κ × ν)) : FMap κ ν := putAll ∅ l

theorem lookup_ofPairs (l : List (κ × ν)) (k : κ) : (ofPairs l).lookup k = lastPut l k := by
  simp [ofPairs, lookup_putAll]

/-- Reordering pairs with distinct keys builds the same map. -/
theorem ofPairs_perm {l₁ l₂ : List (κ × ν)} (hp : l₁.Perm l₂) (hn : (l₁.map Prod.fst).Nodup) :
    ofPairs l₁ = ofPairs l₂ := by
  have hn₂ : (l₂.map Prod.fst).Nodup := (hp.map Prod.fst).nodup_iff.1 hn
  refine Finmap.ext_lookup fun k => ?_
  rw [lookup_ofPairs, lookup_ofPairs]
  by_cases hk : k ∈ l₁.map Prod.fst
  · obtain ⟨⟨_, v⟩, hm, rfl⟩ := List.mem_map.1 hk
    rw [lastPut_of_mem hn hm, lastPut_of_mem hn₂ (hp.mem_iff.1 hm)]
  · rw [lastPut_eq_none_iff.2 hk, lastPut_eq_none_iff.2 (fun h => hk ((hp.map Prod.fst).mem_iff.2 h))]

theorem keys_ofPairs (l : List (κ × ν)) : (ofPairs l).keys = (l.map Prod.fst).toFinset := by
  ext k
  rw [Finmap.mem_keys, ofPairs, mem_putAll, List.mem_toFinset]
  simp only [Finmap.notMem_empty, false_or]

/-- A list of `n` pairs binds at most `n` keys, and exactly `n` when the keys are distinct. -/
theorem card_keys_ofPairs_le (l : List (κ × ν)) : (ofPairs l).keys.card ≤ l.length := by
  rw [keys_ofPairs]
  exact (List.toFinset_card_le _).trans_eq (List.length_map _)

theorem card_keys_ofPairs {l : List (κ × ν)} (hn : (l.map Prod.fst).Nodup) :
    (ofPairs l).keys.card = l.length := by
  rw [keys_ofPairs, List.toFinset_card_of_nodup hn, List.length_map]

/-! ## Mapping values -/

/-- Apply `f` to every value. -/
def mapVals {μ : Type} (f : ν → μ) (m : FMap κ ν) : FMap κ μ :=
  m.liftOn (fun a => AList.toFinmap ⟨a.entries.map fun s => ⟨s.1, f s.2⟩,
    List.NodupKeys.map₂ (fun _ => f) _ a.nodupKeys⟩)
    fun _ _ h => AList.toFinmap_eq.2 (h.map _)

theorem lookup_mapVals {μ : Type} (f : ν → μ) (m : FMap κ ν) (k : κ) :
    (mapVals f m).lookup k = (m.lookup k).map f := by
  induction m using Finmap.induction_on with
  | H a => exact List.dlookup_map₂ (f := fun _ => f) k

/-! ## Sums -/

/-- What `k` contributes: `w k v` when bound to `v`, nothing when unbound. -/
def weight (w : κ → ν → Int) (m : FMap κ ν) (k : κ) : Int := ((m.lookup k).map (w k)).getD 0

def total (w : κ → ν → Int) (m : FMap κ ν) : Int := ∑ k ∈ m.keys, weight w m k

theorem weight_of_notMem {w : κ → ν → Int} {m : FMap κ ν} {k : κ} (h : k ∉ m) : weight w m k = 0 := by
  simp [weight, Finmap.lookup_eq_none.2 h]

/-- The sum may range over any finite set that covers the keys. -/
theorem total_eq_sum_of_subset (w : κ → ν → Int) {m : FMap κ ν} {s : Finset κ} (h : m.keys ⊆ s) :
    total w m = ∑ k ∈ s, weight w m k :=
  Finset.sum_subset h fun _ _ hk => weight_of_notMem fun hm => hk (Finmap.mem_keys.2 hm)

/-- **Accounting rule.** Maps that agree off `t` differ in total by what they differ on `t`. -/
theorem total_add_of_agree (w : κ → ν → Int) {m m' : FMap κ ν} {t : Finset κ}
    (h : ∀ k, k ∉ t → m'.lookup k = m.lookup k) :
    total w m' + ∑ k ∈ t, weight w m k = total w m + ∑ k ∈ t, weight w m' k := by
  have hs : ∀ n : FMap κ ν, n.keys ⊆ m.keys ∪ m'.keys ∪ t → total w n =
      ∑ k ∈ (m.keys ∪ m'.keys ∪ t) \ t, weight w n k + ∑ k ∈ t, weight w n k := fun n hn => by
    rw [total_eq_sum_of_subset w hn, Finset.sum_sdiff Finset.subset_union_right]
  have hm : m.keys ⊆ m.keys ∪ m'.keys ∪ t := Finset.subset_union_left.trans Finset.subset_union_left
  have hm' : m'.keys ⊆ m.keys ∪ m'.keys ∪ t := Finset.subset_union_right.trans Finset.subset_union_left
  have hoff : ∑ k ∈ (m.keys ∪ m'.keys ∪ t) \ t, weight w m' k =
      ∑ k ∈ (m.keys ∪ m'.keys ∪ t) \ t, weight w m k :=
    Finset.sum_congr rfl fun k hk => by rw [weight, weight, h k (Finset.mem_sdiff.1 hk).2]
  rw [hs m hm, hs m' hm', hoff]
  omega

end FMap
