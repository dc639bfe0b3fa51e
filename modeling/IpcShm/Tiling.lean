import Mathlib.Tactic.Common
import Mathlib.Data.List.Basic
import Mathlib.Algebra.Order.BigOperators.Group.Finset
import Mathlib.Algebra.Order.Ring.Nat

/-!
# Consecutive regions

A list of address ranges that follow one another without a gap. Such ranges
are disjoint and lie between the two ends, which is what one wants to know of
a layout; that they are consecutive is what one can compute with.
-/

/-- A range of `size` addresses from `addr` on. -/
structure Region where
  addr : ℕ
  size : ℕ
  deriving DecidableEq, Repr

namespace Region

/-- The `n` addresses from `a` on lie in the region. -/
def Contains (r : Region) (a n : ℕ) : Prop := r.addr ≤ a ∧ a + n ≤ r.addr + r.size

/-- None of the `n` addresses from `a` on lies in the region. -/
def Apart (r : Region) (a n : ℕ) : Prop := a + n ≤ r.addr ∨ r.addr + r.size ≤ a

/-- What lies in one of two regions that follow each other is apart from the
other. -/
theorem Contains.apart {r r' : Region} {a n : ℕ} (h : r.Contains a n)
    (hrr : r.addr + r.size ≤ r'.addr ∨ r'.addr + r'.size ≤ r.addr) : r'.Apart a n := by
  obtain ⟨h₁, h₂⟩ := h
  exact hrr.imp (fun h => Nat.le_trans h₂ h) (fun h => Nat.le_trans h h₁)

/-- The region elsewhere. -/
def shift (d : ℕ) (r : Region) : Region := { r with addr := d + r.addr }

/-- **Regions that follow one another** from `a` to `b`. -/
def Consecutive : ℕ → List Region → ℕ → Prop
  | a, [], b => a = b
  | a, r :: rs, b => r.addr = a ∧ Consecutive (a + r.size) rs b

variable {a b c d : ℕ} {r : Region} {rs rs' : List Region}

theorem Consecutive.append (h : Consecutive a rs b) (h' : Consecutive b rs' c) :
    Consecutive a (rs ++ rs') c := by
  induction rs generalizing a with
  | nil =>
    obtain rfl : a = b := h
    exact h'
  | cons r rs ih => exact ⟨h.1, ih h.2⟩

theorem Consecutive.le (h : Consecutive a rs b) : a ≤ b := by
  induction rs generalizing a with
  | nil => exact Nat.le_of_eq h
  | cons r rs ih =>
    have := ih h.2
    omega

/-- **Consecutive regions lie between the ends.** -/
theorem Consecutive.bounds (h : Consecutive a rs b) (hr : r ∈ rs) :
    a ≤ r.addr ∧ r.addr + r.size ≤ b := by
  induction rs generalizing a with
  | nil => exact absurd hr (by simp)
  | cons r' rs ih =>
    obtain ⟨haddr, hrest⟩ := h
    rcases List.mem_cons.mp hr with rfl | hr
    · exact ⟨Nat.le_of_eq haddr.symm, by have := hrest.le; omega⟩
    · have := ih hrest hr
      omega

/-- **Consecutive regions are disjoint**, each before the next. -/
theorem Consecutive.pairwise (h : Consecutive a rs b) :
    rs.Pairwise (fun r r' => r.addr + r.size ≤ r'.addr) := by
  induction rs generalizing a with
  | nil => exact List.Pairwise.nil
  | cons r rs ih =>
    obtain ⟨haddr, hrest⟩ := h
    refine List.Pairwise.cons (fun r' hr' => ?_) (ih hrest)
    rw [haddr]
    exact (hrest.bounds hr').1

/-- The sizes add up to the distance of the ends. -/
theorem Consecutive.sum_size (h : Consecutive a rs b) : a + (rs.map size).sum = b := by
  induction rs generalizing a with
  | nil => exact h
  | cons r rs ih =>
    have := ih h.2
    rw [List.map_cons, List.sum_cons]
    omega

/-- Consecutive regions elsewhere. -/
theorem Consecutive.shift (h : Consecutive a rs b) (d : ℕ) :
    Consecutive (d + a) (rs.map (Region.shift d)) (d + b) := by
  induction rs generalizing a with
  | nil => exact congrArg (d + ·) h
  | cons r rs ih =>
    refine ⟨congrArg (d + ·) h.1, ?_⟩
    rw [Nat.add_assoc]
    exact ih h.2

end Region
