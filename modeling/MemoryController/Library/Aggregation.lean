import Mathlib

/-!
Counts that are summed up along a tree. Every node has something of its own and a total that
it reports to its parent; what it holds has left its total, but the parent has not been told.
-/

set_option autoImplicit false

namespace Aggregation

variable {Node Count : Type}

structure Counts (Node Count : Type) where
  own : Node → Count
  total : Node → Count
  held : Node → Count

section Owes

variable [Fintype Node] [DecidableEq Node] [AddCommGroup Count] (top : Node)
  (parent : Node → Node)

def children (p : Node) : Finset Node :=
  Finset.univ.filter (fun n => n ≠ top ∧ parent n = p)

/-- What the children of a node have reported to it. -/
def reported (c : Counts Node Count) (p : Node) : Count :=
  ∑ n ∈ children top parent p, (c.total n + c.held n)

/-- `debt p` is still missing from the total of `p`. -/
def Owes (c : Counts Node Count) (debt : Node → Count) : Prop :=
  ∀ p, c.total p + debt p = c.own p + reported top parent c p

/-- No node owes anything. -/
def Balanced (c : Counts Node Count) : Prop := Owes top parent c (fun _ => 0)

variable {top parent}

/-- A change at one node leaves the rest of a debt there, and a debt of its parent. -/
theorem Owes.change {c c' : Counts Node Count} {debt : Node → Count} (h : Owes top parent c debt)
    (n : Node) (u x y : Count) (hown : ∀ p, c'.own p = c.own p + if p = n then u else 0)
    (htotal : ∀ p, c'.total p = c.total p + if p = n then x else 0)
    (hheld : ∀ p, c'.held p = c.held p + if p = n then y else 0) :
    Owes top parent c' (fun p => debt p + (if p = n then u-x else 0) +
      if n ∈ children top parent p then x+y else 0) := by
  intro p
  have hr : reported top parent c' p =
      reported top parent c p + if n ∈ children top parent p then x+y else 0 := by
    unfold reported
    rw [← Finset.sum_ite_eq' (children top parent p) n (fun _ => x+y),
      ← Finset.sum_add_distrib]
    refine Finset.sum_congr rfl (fun m _ => ?_)
    rw [htotal,hheld]
    split <;> abel
  have hp := h p
  rw [htotal,hown,hr]
  simp only
  generalize (if n ∈ children top parent p then x+y else 0) = z
  by_cases hn : p = n
  · simp only [hn,if_true] at hp ⊢
    calc c.total n + x + (debt n + (u-x) + z)
        = (c.total n + debt n) + (u+z) := by abel
      _ = c.own n + u + (reported top parent c n + z) := by rw [hp]; abel
  · simp only [hn,if_false,add_zero]
    rw [← add_assoc,hp,add_assoc]

/-- A set of nodes that has a root `n` and with every node its children. -/
def Subtree (top : Node) (parent : Node → Node) (s : Finset Node) (n : Node) : Prop :=
  n ∈ s ∧ ∀ m, m ≠ top ∧ parent m ∈ s ↔ m ∈ s ∧ m ≠ n

/-- The total of a node is all that the nodes below it own and hold, and what it owns. -/
theorem Balanced.total {c : Counts Node Count} (h : Balanced top parent c) {s : Finset Node}
    {n : Node} (hs : Subtree top parent s n) :
    c.total n = ∑ m ∈ s, c.own m + ∑ m ∈ s.erase n, c.held m := by
  have hsum : ∑ p ∈ s, c.total p = ∑ p ∈ s, c.own p + ∑ p ∈ s, reported top parent c p := by
    rw [← Finset.sum_add_distrib]
    refine Finset.sum_congr rfl (fun p _ => ?_)
    have hp := h p
    simpa using hp
  have hrep : ∑ p ∈ s, reported top parent c p =
      ∑ m ∈ s.erase n, (c.total m + c.held m) := by
    unfold reported
    rw [← Finset.sum_biUnion]
    · refine Finset.sum_congr ?_ (fun _ _ => rfl)
      ext m
      have hm := hs.2 m
      simp only [Finset.mem_biUnion,children,Finset.mem_filter,Finset.mem_univ,true_and,
        Finset.mem_erase]
      constructor
      · rintro ⟨p,hp,ht,rfl⟩
        exact (hm.mp ⟨ht,hp⟩).symm
      · intro he
        obtain ⟨ht,hp⟩ := hm.mpr he.symm
        exact ⟨parent m,hp,ht,rfl⟩
    · intro p _ q _ hpq
      refine Finset.disjoint_left.mpr ?_
      intro m hm hm'
      simp only [children,Finset.mem_filter,Finset.mem_univ,true_and] at hm hm'
      exact hpq (hm.2.symm.trans hm'.2)
  rw [hrep,Finset.sum_add_distrib,← Finset.add_sum_erase s c.total hs.1] at hsum
  have hc : c.total n + ∑ m ∈ s.erase n, c.total m =
      (∑ m ∈ s, c.own m + ∑ m ∈ s.erase n, c.held m) + ∑ m ∈ s.erase n, c.total m := by
    rw [hsum]
    abel
  exact add_right_cancel hc

end Owes

end Aggregation
