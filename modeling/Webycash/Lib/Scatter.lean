import Mathlib.Data.List.Nodup
import Mathlib.Data.List.Perm.Basic
/-!
# Putting elements back in their places

Elements that leave a list with their indices, are worked on in any order and are put back one by
one end up as the list they came from (`scatter_of_perm`): each index is put once, so the order of
the puts does not count.
-/

namespace Scatter

variable {α : Type} {l l' : List α} {puts : List (Nat × α)} {i : Nat} {a : α}

/-- Put every element at its index, in the order of the list. -/
def scatter (l : List α) (puts : List (Nat × α)) : List α := puts.foldl (fun acc p => acc.set p.1 p.2) l

@[simp] theorem scatter_cons (l : List α) (p : Nat × α) (puts : List (Nat × α)) :
    scatter l (p :: puts) = scatter (l.set p.1 p.2) puts := rfl

theorem scatter_append (l : List α) (puts puts' : List (Nat × α)) :
    scatter l (puts ++ puts') = scatter (scatter l puts) puts' :=
  List.foldl_append

theorem length_scatter : ∀ (puts : List (Nat × α)) (l : List α), (scatter l puts).length = l.length
  | [], _ => rfl
  | p :: puts, l => by rw [scatter_cons, length_scatter puts, List.length_set]

theorem getElem?_scatter_of_notMem : ∀ {puts : List (Nat × α)} {l : List α}, i ∉ puts.map Prod.fst →
    (scatter l puts)[i]? = l[i]?
  | [], _, _ => rfl
  | p :: puts, l, h => by
    rw [List.map_cons, List.mem_cons, not_or] at h
    rw [scatter_cons, getElem?_scatter_of_notMem h.2, List.getElem?_set_ne (Ne.symm h.1)]

/-- Where each index is put once, the element put there stays. -/
theorem getElem?_scatter_of_mem : ∀ {puts : List (Nat × α)} {l : List α}, (puts.map Prod.fst).Nodup →
    (i, a) ∈ puts → i < l.length →
    (scatter l puts)[i]? = some a
  | [], _, _, hmem, _ => nomatch hmem
  | p :: puts, l, hnd, hmem, hi => by
    rw [List.map_cons, List.nodup_cons] at hnd
    rw [scatter_cons]
    rcases List.mem_cons.1 hmem with rfl | hmem
    · rw [getElem?_scatter_of_notMem hnd.1, List.getElem?_set_self hi]
    · exact getElem?_scatter_of_mem hnd.2 hmem (by rwa [List.length_set])

/-- The elements of a list with their indices. -/
def places (l : List α) : List (Nat × α) := l.zipIdx.map Prod.swap

theorem map_fst_places (l : List α) : (places l).map Prod.fst = List.range l.length := by
  rw [places, List.map_map, List.range_eq_range', ← List.zipIdx_map_snd 0 l]
  rfl

theorem mem_places : (i, a) ∈ places l ↔ l[i]? = some a := by
  rw [places, List.mem_map]
  constructor
  · rintro ⟨⟨b, j⟩, hmem, he⟩
    cases he
    exact List.mk_mem_zipIdx_iff_getElem?.1 hmem
  · exact fun h => ⟨(a, i), List.mk_mem_zipIdx_iff_getElem?.2 h, rfl⟩

/-- **Back in their places**, whatever the order. -/
theorem scatter_of_perm (hp : puts.Perm (places l')) (hlen : l.length = l'.length) : scatter l puts = l' := by
  refine List.ext_getElem? fun i => ?_
  have hnd : (puts.map Prod.fst).Nodup := by
    rw [(hp.map Prod.fst).nodup_iff, map_fst_places]
    exact List.nodup_range
  by_cases hi : i < l'.length
  · rw [List.getElem?_eq_getElem hi]
    refine getElem?_scatter_of_mem hnd (hp.mem_iff.2 (mem_places.2 (List.getElem?_eq_getElem hi))) (by rwa [hlen])
  · rw [List.getElem?_eq_none (Nat.not_lt.1 hi), List.getElem?_eq_none]
    rw [length_scatter, hlen]
    exact Nat.not_lt.1 hi

end Scatter
