import Mathlib.Data.List.Basic
/-!
# The hash of the last link

Each link of a chain names the hash of the link before it, the first link the root. Whoever keeps the hash of the
last link keeps all of them: a chain that ends in the same hash has the same links, body for body, or two of the
links have different bodies and one hash (`bodies_eq_or_collide`). The chains are read from their ends.
-/

namespace HashChain

variable {L B H : Type} (body : L → B) (prior : L → H) (hash : B → H) (root : H)

/-- The hash of the last link, the root when there is none; the last link comes first. -/
def tip : List L → H
  | [] => root
  | e :: _ => hash (body e)

/-- Every link names the hash of the one before it. -/
def Back : List L → Prop
  | [] => True
  | e :: es => prior e = tip body hash root es ∧ Back es

/-- A link of each, with two bodies and one hash. -/
def Collide (es es' : List L) : Prop := ∃ e ∈ es, ∃ e' ∈ es', body e ≠ body e' ∧
    hash (body e) = hash (body e')

variable {body prior hash root}

theorem Collide.cons {e e' : L} {es es' : List L} (h : Collide body hash es es') :
    Collide body hash (e :: es) (e' :: es') := by
  obtain ⟨x, hx, y, hy, hxy⟩ := h
  exact ⟨x, List.mem_cons_of_mem _ hx, y, List.mem_cons_of_mem _ hy, hxy⟩

/-- **The last hash commits to the whole chain**, where a body says what its link names and no body hashes to
the root. -/
theorem bodies_eq_or_collide (hprior : ∀ e e', body e = body e' → prior e = prior e')
    (hroot : ∀ e, hash (body e) ≠ root) :
    ∀ {es es' : List L}, Back body prior hash root es → Back body prior hash root es' →
      tip body hash root es = tip body hash root es' → es.map body = es'.map body ∨ Collide body hash es es'
  | [], [], _, _, _ => .inl rfl
  | [], e' :: _, _, _, h => absurd h.symm (hroot e')
  | e :: _, [], _, _, h => absurd h (hroot e)
  | e :: es, e' :: es', hes, hes', h => by
    by_cases hbody : body e = body e'
    · -- the last bodies are one, so they name one hash, in which the rest of both chains ends
      have hrest : tip body hash root es = tip body hash root es' := by
        rw [← hes.1, ← hes'.1]
        exact hprior e e' hbody
      refine (bodies_eq_or_collide hprior hroot hes.2 hes'.2 hrest).imp (fun hmap => ?_) Collide.cons
      rw [List.map_cons, List.map_cons, hbody, hmap]
    · exact .inr ⟨e, List.mem_cons_self, e', List.mem_cons_self, hbody, h⟩

end HashChain
