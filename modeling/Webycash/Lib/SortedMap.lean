import Mathlib.Algebra.Ring.Int.Defs
import Mathlib.Algebra.Ring.Nat
import Mathlib.Algebra.BigOperators.Group.List.Basic
import Mathlib.Data.List.Sort
/-!
# Maps in key order

A map is the list of its entries sorted by key. `collect` inserts a list of entries from left to
right, so a later entry replaces an earlier one; collecting a reversed list keeps the first value
of every key. `values_collectFirst` says which values are left, `sum_eq_firsts_add_repeats` what
the others were worth.
-/

namespace SortedMap

section

variable {κ ν : Type} [DecidableEq κ] [LE κ] [DecidableLE κ]

def insert (k : κ) (v : ν) (m : List (κ × ν)) : List (κ × ν) :=
  (m.filter fun p => p.1 ≠ k).orderedInsert (fun a b => a.1 ≤ b.1) (k, v)

def collect (l : List (κ × ν)) : List (κ × ν) := l.foldl (fun m p => insert p.1 p.2 m) []

def values (m : List (κ × ν)) : List ν := m.map Prod.snd

theorem insert_perm (k : κ) (v : ν) (m : List (κ × ν)) :
    (insert k v m).Perm ((k, v) :: m.filter fun p => p.1 ≠ k) :=
  List.perm_orderedInsert _ _ _

theorem mem_insert {k : κ} {v : ν} {m : List (κ × ν)} {p : κ × ν} : p ∈ insert k v m ↔
    p = (k, v) ∨ (p ∈ m ∧ p.1 ≠ k) := by
  rw [(insert_perm k v m).mem_iff, List.mem_cons, List.mem_filter, decide_eq_true_eq]

end

section

variable {κ ν : Type} [LinearOrder κ] {m : List (κ × ν)}

/-- In key order, each key once. -/
def Sorted (m : List (κ × ν)) : Prop := m.Pairwise fun p q => p.1 < q.1

def put (k : κ) (v : ν) (m : List (κ × ν)) : List (κ × ν) := insert k v m

theorem mem_put {k : κ} {v : ν} {p : κ × ν} : p ∈ put k v m ↔ p = (k, v) ∨ (p ∈ m ∧ p.1 ≠ k) :=
  mem_insert

theorem Sorted.put (h : Sorted m) (k : κ) (v : ν) : Sorted (put k v m) := by
  have hfilter : (m.filter fun p => p.1 ≠ k).Pairwise fun p q => p.1 < q.1 := h.filter _
  have : Std.Total fun p q : κ × ν => p.1 ≤ q.1 := ⟨fun p q => le_total p.1 q.1⟩
  have : IsTrans (κ × ν) fun p q => p.1 ≤ q.1 := ⟨fun _ _ _ h h' => le_trans h h'⟩
  have hle : (SortedMap.insert k v m).Pairwise fun p q => p.1 ≤ q.1 :=
    List.Pairwise.orderedInsert _ _ (hfilter.imp fun h => h.le)
  have hkeys : ((SortedMap.insert k v m).map Prod.fst).Nodup := by
    rw [((insert_perm k v m).map Prod.fst).nodup_iff, List.map_cons, List.nodup_cons]
    refine ⟨fun hmem => ?_, (List.pairwise_map.2 (hfilter.imp fun h => h.ne))⟩
    obtain ⟨p, hp, hpk⟩ := List.mem_map.1 hmem
    exact (of_decide_eq_true (List.mem_filter.1 hp).2) hpk
  exact (hle.and (List.pairwise_map.1 hkeys)).imp fun h => lt_of_le_of_ne h.1 h.2

/-- A key has one value. -/
theorem Sorted.unique {m : List (κ × ν)} (h : Sorted m) {k : κ} {v v' : ν} (hv : (k, v) ∈ m)
    (hv' : (k, v') ∈ m) : v = v' := by
  have hinj := List.inj_on_of_nodup_map (l := m) (f := Prod.fst) (List.pairwise_map.2 (h.imp fun h => h.ne))
  exact congrArg Prod.snd (hinj hv hv' rfl)

/-- The entry that is found for a key is the one that is there. -/
theorem Sorted.find?_eq {m : List (κ × ν)} (h : Sorted m) {k : κ} {v : ν}
    [∀ p : κ × ν, Decidable (p.1 = k)] (hv : (k, v) ∈ m) :
    (m.find? fun p => p.1 = k) = some (k, v) := by
  cases hfind : m.find? fun p => p.1 = k with
  | none => exact absurd (decide_eq_true rfl) (List.find?_eq_none.1 hfind _ hv)
  | some p =>
    have hkey : p.1 = k := by simpa using List.find?_some hfind
    obtain ⟨k', v'⟩ := p
    obtain rfl : k' = k := hkey
    rw [h.unique (List.mem_of_find?_eq_some hfind) hv]

end

section

variable {κ ν : Type} [DecidableEq κ] (key : ν → κ)

/-- The values whose key is not in `seen` and does not occur before them. -/
def firsts : List κ → List ν → List ν
  | _, [] => []
  | seen, v :: vs => if key v ∈ seen then firsts seen vs else v :: firsts (key v :: seen) vs

/-- The other values. -/
def repeats : List κ → List ν → List ν
  | _, [] => []
  | seen, v :: vs => if key v ∈ seen then v :: repeats seen vs else repeats (key v :: seen) vs

theorem sum_eq_firsts_add_repeats (w : ν → Int) (vs : List ν) : ∀ seen : List κ,
    (vs.map w).sum = ((firsts key seen vs).map w).sum + ((repeats key seen vs).map w).sum := by
  induction vs with
  | nil => simp [firsts, repeats]
  | cons v vs ih =>
    intro seen
    by_cases hk : key v ∈ seen
    · have := ih seen
      simp only [firsts, repeats, hk, if_true, List.map_cons, List.sum_cons]
      omega
    · have := ih (key v :: seen)
      simp only [firsts, repeats, hk, if_false, List.map_cons, List.sum_cons]
      omega

theorem repeats_map {μ : Type} (f : μ → ν) (us : List μ) : ∀ seen : List κ,
    repeats key seen (us.map f) = (repeats (fun u => key (f u)) seen us).map f := by
  induction us with
  | nil => simp [repeats]
  | cons u us ih =>
    intro seen
    by_cases hk : key (f u) ∈ seen
    · simp [repeats, hk, ih]
    · simp [repeats, hk, ih]

theorem firsts_fresh (vs : List ν) : ∀ seen : List κ, (∀ v ∈ firsts key seen vs, key v ∉ seen) ∧
    ((firsts key seen vs).map key).Nodup := by
  induction vs with
  | nil => simp [firsts]
  | cons v vs ih =>
    intro seen
    by_cases hk : key v ∈ seen
    · simpa only [firsts, hk, if_true] using ih seen
    · obtain ⟨hnew, hnd⟩ := ih (key v :: seen)
      simp only [firsts, hk, if_false, List.map_cons, List.nodup_cons, List.mem_cons, forall_eq_or_imp]
      refine ⟨⟨id, fun u hu hmem => hnew u hu (List.mem_cons_of_mem _ hmem)⟩, fun hmem => ?_, hnd⟩
      obtain ⟨u, hu, he⟩ := List.mem_map.1 hmem
      exact hnew u hu (he ▸ List.mem_cons_self)

/-- Where the values are their own keys. -/
theorem mem_firsts_self {κ : Type} [DecidableEq κ] {k : κ} (ks : List κ) : ∀ seen : List κ,
    k ∈ firsts (fun k => k) seen ks ↔ k ∈ ks ∧ k ∉ seen := by
  induction ks with
  | nil => simp [firsts]
  | cons k' ks ih =>
    intro seen
    by_cases hk : k' ∈ seen
    · rw [firsts, if_pos hk, ih seen, List.mem_cons]
      refine ⟨fun h => ⟨.inr h.1, h.2⟩, fun h => ⟨h.1.resolve_left fun he => h.2 (he ▸ hk), h.2⟩⟩
    · rw [firsts, if_neg hk, List.mem_cons, ih, List.mem_cons, List.mem_cons]
      by_cases he : k = k'
      · simp [he, hk]
      · simp [he]

theorem firsts_ne_nil {vs : List ν} (h : vs ≠ []) : firsts key [] vs ≠ [] := by
  cases vs with
  | nil => exact absurd rfl h
  | cons v vs => simp [firsts]

variable [LE κ] [DecidableLE κ]

/-- The map that keeps the first value of every key. -/
def collectFirst (vs : List ν) : List (κ × ν) := collect (vs.reverse.map fun v => (key v, v))

theorem collectFirst_cons (v : ν) (vs : List ν) :
    collectFirst key (v :: vs) = insert (key v) v (collectFirst key vs) := by
  simp only [collectFirst, collect, List.reverse_cons, List.map_append, List.foldl_append, List.map_cons, List.map_nil,
    List.foldl_cons, List.foldl_nil]

/-- Outside of `seen`, the map holds the first values. -/
theorem filter_collectFirst_perm (vs : List ν) : ∀ seen : List κ,
    ((collectFirst key vs).filter fun p => p.1 ∉ seen).Perm ((firsts key seen vs).map fun v => (key v, v)) := by
  induction vs with
  | nil => intro seen; exact .refl _
  | cons v vs ih =>
    intro seen
    rw [collectFirst_cons]
    refine ((insert_perm _ _ _).filter _).trans ?_
    by_cases hk : key v ∈ seen
    · -- the new entry is hidden, and so is the one it replaces
      simp only [firsts, hk, if_true]
      refine List.Perm.trans ?_ (ih seen)
      rw [List.filter_cons_of_neg (by simpa using hk), List.filter_filter]
      refine .of_eq (List.filter_congr fun p _ => ?_)
      by_cases hp : p.1 = key v
      · simp [hp, hk]
      · simp [hp]
    · simp only [firsts, hk, if_false, List.map_cons]
      rw [List.filter_cons_of_pos (by simpa using hk), List.filter_filter]
      refine List.Perm.cons _ (List.Perm.trans (.of_eq (List.filter_congr fun p _ => ?_)) (ih (key v :: seen)))
      by_cases hp : p.1 = key v
      · simp [hp]
      · simp [hp]

/-- **The first value of every key is left.** -/
theorem values_collectFirst (vs : List ν) : (values (collectFirst key vs)).Perm (firsts key [] vs) := by
  have hperm := (filter_collectFirst_perm key vs []).map Prod.snd
  simpa [values, Function.comp_def] using hperm

end

end SortedMap
