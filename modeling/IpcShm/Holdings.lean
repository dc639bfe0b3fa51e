import Mathlib.Algebra.BigOperators.Group.Finset.Basic
import Mathlib.Algebra.Order.Group.Multiset
import Mathlib.Algebra.Order.Sub.Basic

/-!
# Who holds what

A ledger lists what is held, and the holders are a family. The books balance if
the list is what the holders hold, each thing as often as it is held. One holder
taking something, or giving back all it has, keeps them balanced; and once no
holder has anything, nothing is on the list.
-/

namespace Holdings

variable {α : Type} {n i : ℕ} {f g : ℕ → List α} {l : List α}

/-- **The books balance**: the list is what the first `n` holders hold. -/
def Balanced (n : ℕ) (f : ℕ → List α) (l : List α) : Prop :=
  (l : Multiset α) = ∑ i ∈ Finset.range n, (f i : Multiset α)

/-- Two families that differ in one holder. -/
theorem sum_add_of_others (hi : i < n) (h : ∀ j, j ≠ i → g j = f j) :
    ∑ j ∈ Finset.range n, (g j : Multiset α) + f i =
      ∑ j ∈ Finset.range n, (f j : Multiset α) + g i := by
  have hmem : i ∈ Finset.range n := Finset.mem_range.mpr hi
  have herase : ∑ j ∈ (Finset.range n).erase i, (g j : Multiset α) =
      ∑ j ∈ (Finset.range n).erase i, (f j : Multiset α) :=
    Finset.sum_congr rfl (fun j hj => congrArg _ (h j (Finset.ne_of_mem_erase hj)))
  rw [← Finset.sum_erase_add _ _ hmem, ← Finset.sum_erase_add _ (fun j => (f j : Multiset α)) hmem,
    herase, add_right_comm]

theorem Balanced.congr (h : Balanced n f l) (hg : ∀ j, g j = f j) : Balanced n g l :=
  (funext hg : g = f) ▸ h

/-- A holder that had nothing takes something. -/
theorem Balanced.take (h : Balanced n f l) (hi : i < n) (hothers : ∀ j, j ≠ i → g j = f j)
    (hnone : f i = []) : Balanced n g (g i ++ l) := by
  have hsum := sum_add_of_others hi hothers
  rw [hnone, Multiset.coe_nil, add_zero, ← h] at hsum
  rw [Balanced, hsum, add_comm, Multiset.coe_add]

/-- A holder gives back all it has. -/
theorem Balanced.give [beq : BEq α] [LawfulBEq α] (h : Balanced n f l) (hi : i < n)
    (hothers : ∀ j, j ≠ i → g j = f j) (hnone : g i = []) : Balanced n g (l.diff (f i)) := by
  -- multisets are subtracted with the decision of an equality
  let _ : DecidableEq α := instDecidableEqOfLawfulBEq
  rw [lawful_beq_subsingleton beq instBEqOfDecidableEq]
  have hsum := sum_add_of_others hi hothers
  rw [hnone, Multiset.coe_nil, add_zero, ← h] at hsum
  rw [Balanced, ← Multiset.coe_sub, ← hsum, add_tsub_cancel_right]

/-- Nothing is on the list if no holder has anything. -/
theorem balanced_nil (hf : ∀ i < n, f i = []) : Balanced n f [] := by
  refine (Finset.sum_eq_zero (fun i hi => ?_)).symm
  rw [hf i (Finset.mem_range.mp hi), Multiset.coe_nil]

theorem Balanced.eq_nil (h : Balanced n f l) (hf : ∀ i < n, f i = []) : l = [] :=
  (Multiset.coe_eq_zero l).mp (h.trans (balanced_nil hf).symm)

end Holdings
