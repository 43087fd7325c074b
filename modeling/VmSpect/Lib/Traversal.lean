import Mathlib

/-!
# Breadth-first traversals

A traversal takes a node from the front of a queue, emits what the node has to say and puts the
node's children at the end of the queue. `Walk` relates a queue to all that is emitted until it is
empty. It emits exactly what the nodes below the queue emit (`Walk.mem_iff`), and nothing twice when
every node emits into a region of its own (`Walk.nodup`).
-/

namespace Traversal

variable {N β : Type*}

/-- What is emitted until the queue is empty. -/
inductive Walk (children : N → List N) (emit : N → List β) : List N → List β → Prop where
  | nil : Walk children emit [] []
  | cons {n : N} {rest : List N} {out : List β} (h : Walk children emit (rest ++ children n) out) :
      Walk children emit (n :: rest) (emit n ++ out)

/-- A node is below another one when it is reached by going from nodes to their children. -/
def Below (children : N → List N) : N → N → Prop :=
  Relation.ReflTransGen fun n c => c ∈ children n

variable {children : N → List N} {emit : N → List β}

/-- Below a node are the node itself and what is below its children. -/
theorem below_iff {n d : N} :
    Below children n d ↔ n = d ∨ ∃ c ∈ children n, Below children c d := by
  unfold Below
  rw [Relation.ReflTransGen.cases_head_iff]

/-- A traversal emits exactly what the nodes below its queue emit. -/
theorem Walk.mem_iff {queue : List N} {out : List β} (h : Walk children emit queue out) (x : β) :
    x ∈ out ↔ ∃ n ∈ queue, ∃ d, Below children n d ∧ x ∈ emit d := by
  induction h with
  | nil => simp
  | @cons n rest out _ ih =>
    rw [List.mem_append, ih]
    constructor
    · rintro (hx | ⟨c, hc, d, hd, hx⟩)
      · exact ⟨n, List.mem_cons_self, n, .refl, hx⟩
      · rcases List.mem_append.mp hc with hc | hc
        · exact ⟨c, List.mem_cons_of_mem n hc, d, hd, hx⟩
        · exact ⟨n, List.mem_cons_self, d, below_iff.mpr (Or.inr ⟨c, hc, hd⟩), hx⟩
    · rintro ⟨c, hc, d, hd, hx⟩
      rcases List.mem_cons.mp hc with rfl | hc
      · rcases below_iff.mp hd with rfl | ⟨k, hk, hd⟩
        · exact Or.inl hx
        · exact Or.inr ⟨k, List.mem_append_right rest hk, d, hd, hx⟩
      · exact Or.inr ⟨c, List.mem_append_left _ hc, d, hd, hx⟩

/-- A node that emits into a region of its own: what it emits is there once, its children are such
nodes, and their regions are parts of it, apart from each other and from what the node emits. -/
structure Separated (children : N → List N) (emit : N → List β) (good : N → Prop)
    (region : N → Set β) : Prop where
  emit_nodup : ∀ n, good n → (emit n).Nodup
  emit_region : ∀ n, good n → ∀ x ∈ emit n, x ∈ region n
  good_child : ∀ n, good n → ∀ c ∈ children n, good c
  child_region : ∀ n, good n → ∀ c ∈ children n, region c ⊆ region n
  children_disjoint : ∀ n, good n →
    (children n).Pairwise fun c d => Disjoint (region c) (region d)
  emit_disjoint : ∀ n, good n → ∀ c ∈ children n, ∀ x ∈ emit n, x ∉ region c

/-- A traversal of separated nodes emits nothing twice, and only into the regions of its queue. -/
theorem Walk.nodup {good : N → Prop} {region : N → Set β}
    (hsep : Separated children emit good region) {queue : List N} {out : List β}
    (h : Walk children emit queue out) (hgood : ∀ n ∈ queue, good n)
    (hqueue : queue.Pairwise fun c d => Disjoint (region c) (region d)) :
    out.Nodup ∧ ∀ x ∈ out, ∃ n ∈ queue, x ∈ region n := by
  induction h with
  | nil => exact ⟨List.nodup_nil, fun x hx => by cases hx⟩
  | @cons n rest out _ ih =>
    have hn := hgood n List.mem_cons_self
    obtain ⟨hrest, hpair⟩ := List.pairwise_cons.mp hqueue
    -- The children of the node are apart from the rest of the queue, since the node is.
    have hqueue' : (rest ++ children n).Pairwise fun c d => Disjoint (region c) (region d) := by
      refine List.pairwise_append.mpr ⟨hpair, hsep.children_disjoint n hn, ?_⟩
      intro r hr c hc
      exact ((hrest r hr).mono_left (hsep.child_region n hn c hc)).symm
    obtain ⟨hnodup, hplaces⟩ := ih (fun c hc => by
      rcases List.mem_append.mp hc with hc | hc
      · exact hgood c (List.mem_cons_of_mem n hc)
      · exact hsep.good_child n hn c hc) hqueue'
    constructor
    · refine List.nodup_append.mpr ⟨hsep.emit_nodup n hn, hnodup, ?_⟩
      rintro x hx y hy rfl
      obtain ⟨c, hc, hxc⟩ := hplaces x hy
      rcases List.mem_append.mp hc with hc | hc
      · exact Set.disjoint_left.mp (hrest c hc) (hsep.emit_region n hn x hx) hxc
      · exact hsep.emit_disjoint n hn c hc x hx hxc
    · intro x hx
      rcases List.mem_append.mp hx with hx | hx
      · exact ⟨n, List.mem_cons_self, hsep.emit_region n hn x hx⟩
      · obtain ⟨c, hc, hxc⟩ := hplaces x hx
        rcases List.mem_append.mp hc with hc | hc
        · exact ⟨c, List.mem_cons_of_mem n hc, hxc⟩
        · exact ⟨n, List.mem_cons_self, hsep.child_region n hn c hc hxc⟩

end Traversal
