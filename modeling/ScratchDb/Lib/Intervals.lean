import Mathlib.Algebra.BigOperators.Fin
import Mathlib.Algebra.Order.BigOperators.Group.Finset
import Mathlib.Order.Interval.Finset.Nat
import Mathlib.Tactic.Ring

/-!
# Disjoint intervals

Intervals of natural numbers that do not overlap, and what they take up.
-/

namespace Intervals

/-- The intervals of these lengths from `i` and from `j` on do not overlap. -/
def Apart (i m j n : Nat) : Prop := i + m ≤ j ∨ j + n ≤ i

theorem Apart.symm {i m j n : Nat} (h : Apart i m j n) : Apart j n i m := Or.symm h

theorem Apart.disjoint {i m j n : Nat} (h : Apart i m j n) :
    Disjoint (Finset.Ico i (i + m)) (Finset.Ico j (j + n)) := by
  rw [Finset.disjoint_left]
  intro k hk hk'
  rw [Finset.mem_Ico] at hk hk'
  rcases h with h | h <;> omega

/-- Intervals that lie apart within another are together no longer than it. -/
theorem sum_length_le {α : Type*} {l : List α} {start length : α → Nat} {a b : Nat}
    (hin : ∀ x ∈ l, a ≤ start x ∧ start x + length x ≤ b)
    (hapart : l.Pairwise fun x y => Apart (start x) (length x) (start y) (length y)) :
    (l.map length).sum ≤ b - a := by
  let interval (i : Fin l.length) := Finset.Ico (start l[i]) (start l[i] + length l[i])
  have hdisjoint : ∀ i ∈ Finset.univ, ∀ j ∈ Finset.univ, i ≠ j →
      Disjoint (interval i) (interval j) := by
    intro i _ j _ hne
    rcases lt_or_gt_of_ne hne with h | h
    · exact (List.pairwise_iff_getElem.mp hapart i j i.2 j.2 h).disjoint
    · exact (List.pairwise_iff_getElem.mp hapart j i j.2 i.2 h).disjoint.symm
  have hsubset : Finset.univ.biUnion interval ⊆ Finset.Ico a b := by
    intro k hk
    obtain ⟨i, -, hi⟩ := Finset.mem_biUnion.mp hk
    have hbounds := hin l[i] (List.getElem_mem i.2)
    rw [Finset.mem_Ico] at hi ⊢
    omega
  calc (l.map length).sum = ∑ i : Fin l.length, length l[i] :=
        (Fin.sum_univ_fun_getElem l length).symm
    _ = ∑ i : Fin l.length, (interval i).card :=
        Finset.sum_congr rfl fun i _ => by rw [Nat.card_Ico, Nat.add_sub_cancel_left]
    _ = (Finset.univ.biUnion interval).card := (Finset.card_biUnion hdisjoint).symm
    _ ≤ (Finset.Ico a b).card := Finset.card_le_card hsubset
    _ = b - a := Nat.card_Ico a b

end Intervals
