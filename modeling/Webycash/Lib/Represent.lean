import Webycash.Lib.FMap
/-!
# Maps that represent maps

`Represents W m n`: the two maps have the same keys, and what `m` holds under a key stands for what
`n` holds there. `Exchanges` says by its lookups what a write does to a map: the values under some
keys pass through a function, some entries are put. Writes that correspond keep the relation.
-/

namespace FMap

variable {κ ν μ α : Type} [DecidableEq κ] {W : κ → ν → μ → Prop} {m m' : FMap κ ν}
  {n n' : FMap κ μ} {k : κ} {x : ν} {y : μ}

def Represents (W : κ → ν → μ → Prop) (m : FMap κ ν) (n : FMap κ μ) : Prop :=
  ∀ k, Option.Rel (W k) (m.lookup k) (n.lookup k)

theorem Represents.empty : Represents W (∅ : FMap κ ν) (∅ : FMap κ μ) := fun _ => .none

theorem Represents.lookup_eq_none (h : Represents W m n) : m.lookup k = none ↔ n.lookup k = none := by
  have hk := h k
  generalize m.lookup k = a at hk
  generalize n.lookup k = b at hk
  cases hk <;> simp

theorem Represents.of_some (h : Represents W m n) (hk : m.lookup k = some x) :
    ∃ y, n.lookup k = some y ∧ W k x y := by
  have hrel := h k
  rw [hk] at hrel
  generalize n.lookup k = b at hrel
  cases hrel with
  | some hw => exact ⟨_, rfl, hw⟩

theorem Represents.to_some (h : Represents W m n) (hk : n.lookup k = some y) :
    ∃ x, m.lookup k = some x ∧ W k x y := by
  have hrel := h k
  rw [hk] at hrel
  generalize m.lookup k = a at hrel
  cases hrel with
  | some hw => exact ⟨_, rfl, hw⟩

/-- What can be read off either map. -/
theorem Represents.map_eq {β : Type} {f : ν → β} {g : μ → β} (h : Represents W m n)
    (hw : ∀ x y, W k x y → f x = g y) :
    (m.lookup k).map f = (n.lookup k).map g := by
  have hk := h k
  generalize m.lookup k = a at hk
  generalize n.lookup k = b at hk
  cases hk with
  | none => rfl
  | some hxy => rw [Option.map_some, Option.map_some, hw _ _ hxy]

/-- The values under some keys pass through `f`. -/
def through (f : ν → ν) (ks : List κ) (m : FMap κ ν) : FMap κ ν :=
  ks.foldl (fun m k => (m.lookup k).elim m fun v => m.insert k (f v)) m

theorem lookup_through {f : ν → ν} {ks : List κ} (hnd : ks.Nodup) (m : FMap κ ν) (j : κ) :
    (through f ks m).lookup j = if j ∈ ks then (m.lookup j).map f else m.lookup j := by
  induction ks generalizing m with
  | nil => simp [through]
  | cons k ks ih =>
    obtain ⟨hk, hks⟩ := List.nodup_cons.1 hnd
    have hone : ((m.lookup k).elim m fun v => m.insert k (f v)).lookup j = if j = k then (m.lookup j).map f
        else m.lookup j := by
      cases hv : m.lookup k with
      | none =>
        by_cases hj : j = k
        · subst hj
          simp [hv]
        · simp [hj]
      | some v =>
        rw [Option.elim_some, lookup_insert_ite]
        by_cases hj : j = k
        · subst hj
          simp [hv]
        · simp [hj]
    rw [through, List.foldl_cons, ← through, ih hks, hone]
    by_cases hj : j = k
    · simp [hj, hk]
    · simp [hj]

/-- The values under `ins` pass through `f`, and then the entries of `puts` are put. -/
def Exchanges (f : ν → ν) (ins : List κ) (puts : List (κ × ν)) (m m' : FMap κ ν) : Prop :=
  ∀ k, m'.lookup k = (lastPut puts k).or (if k ∈ ins then (m.lookup k).map f else m.lookup k)

theorem exchanges_putAll (f : ν → ν) (puts : List (κ × ν)) (m : FMap κ ν) :
    Exchanges f [] puts m (putAll m puts) := by
  intro k
  rw [lookup_putAll]
  simp

theorem exchanges_through {f : ν → ν} {ins : List κ} (hnd : ins.Nodup) (puts : List (κ × ν)) (m : FMap κ ν) :
    Exchanges f ins puts m (putAll (through f ins m) puts) := by
  intro k
  rw [lookup_putAll, lookup_through hnd]

theorem exchanges_insert {f : ν → ν} (hk : m.lookup k = some x) : Exchanges f [k] [] m (m.insert k (f x)) := by
  intro j
  rw [lookup_insert_ite]
  by_cases hj : j = k
  · subst hj
    simp [lastPut, hk]
  · simp [lastPut, hj]

/-- **Corresponding writes keep the representation.** -/
theorem Represents.exchanges {f : ν → ν} {g : μ → μ} {ins : List κ} {l : List α} {key : α → κ}
    {v : α → ν} {w : α → μ}
    (h : Represents W m n) (hf : ∀ k ∈ ins, ∀ x y, n.lookup k = some y → W k x y → W k (f x) (g y))
    (hl : ∀ a ∈ l, W (key a) (v a) (w a)) (hm : Exchanges f ins (l.map fun a => (key a, v a)) m m')
    (hn : Exchanges g ins (l.map fun a => (key a, w a)) n n') :
    Represents W m' n' := by
  intro k
  rw [hm k, hn k]
  have hput : ∀ {β : Type} (u : α → β), lastPut (l.map fun a => (key a, u a)) k =
      (lastPut (l.map fun a => (key a, a)) k).map u := by
    intro β u
    rw [← lastPut_map, List.map_map]
    rfl
  rw [hput v, hput w]
  cases hlast : lastPut (l.map fun a => (key a, a)) k with
  | some a =>
    obtain ⟨a', ha', he⟩ := List.mem_map.1 (lastPut_mem hlast)
    obtain ⟨hkey, rfl⟩ := Prod.mk.inj he
    exact .some (hkey ▸ hl a' ha')
  | none =>
    simp only [Option.map_none, Option.none_or]
    by_cases hin : k ∈ ins
    · rw [if_pos hin, if_pos hin]
      cases hy : n.lookup k with
      | none =>
        rw [h.lookup_eq_none.2 hy]
        exact .none
      | some y =>
        obtain ⟨x, hx, hw⟩ := h.to_some hy
        rw [hx]
        exact .some (hf k hin x y hy hw)
    · rw [if_neg hin, if_neg hin]
      exact h k

end FMap
