import Mathlib.Tactic.Common
import Mathlib.Algebra.Order.Group.Nat
import Mathlib.Data.List.Basic
import Mathlib.Data.Nat.ModEq

/-!
# Positions on a cycle

A ring of `M` slots keeps two indexes below `M`, and what they mean is the
number of times each was advanced: a producer that started at `a` and
advanced `p` times stands at `(a + p) % M`. The counts are what one reasons
with and the residues are what the ring stores. This file translates: while
the counts stay within one turn of each other, residues determine them
(`Cyclic.inj`), and the distance of the residues is the difference of the
counts (`Cyclic.dist_eq`).
-/

namespace Cyclic

variable {M a i j : ℕ}

/-- **Within one turn, equal residues are equal counts.** -/
theorem inj (hij : i ≤ j) (hj : j < i + M) (h : (a + i) % M = (a + j) % M) :
    i = j := by
  have hmod : j - i ≡ 0 [MOD M] := by
    have h' : (a + j) - (a + i) ≡ 0 [MOD M] :=
      (Nat.modEq_iff_dvd' (by omega)).mp h |>.modEq_zero_nat
    rwa [Nat.add_sub_add_left] at h'
  have hz : j - i = 0 := by
    have hlt : j - i < M := by omega
    have := hmod.eq_of_lt_of_lt hlt (by omega)
    exact this
  omega

theorem ne (hij : i < j) (hj : j < i + M) : (a + i) % M ≠ (a + j) % M :=
  fun h => absurd (inj (Nat.le_of_lt hij) hj h) (by omega)

/-- Advancing the residue advances the count. -/
theorem succ (M a i : ℕ) : ((a + i) % M + 1) % M = (a + (i + 1)) % M := by
  rw [Nat.mod_add_mod, Nat.add_assoc]

/-- The distance from the residue `r` forward to the residue `w`. -/
def dist (M w r : ℕ) : ℕ := (w + M - r) % M

theorem dist_lt (hM : 0 < M) (w r : ℕ) : dist M w r < M := Nat.mod_lt _ hM

/-- **The distance of residues is the difference of counts**, within one
turn. -/
theorem dist_eq (hij : i ≤ j) (hj : j < i + M) :
    dist M ((a + j) % M) ((a + i) % M) = j - i := by
  have hM : 0 < M := by omega
  have hr : (a + i) % M < M := Nat.mod_lt _ hM
  have hd : (a + j) % M = ((a + i) % M + (j - i)) % M := by
    rw [Nat.mod_add_mod]
    congr 1
    omega
  rw [dist, hd]
  rcases Nat.lt_or_ge ((a + i) % M + (j - i)) M with hlt | hge
  · rw [Nat.mod_eq_of_lt hlt,
      show (a + i) % M + (j - i) + M - (a + i) % M = (j - i) + M by omega,
      Nat.add_mod_right, Nat.mod_eq_of_lt (by omega)]
  · rw [Nat.mod_eq_sub_mod hge,
      Nat.mod_eq_of_lt (show (a + i) % M + (j - i) - M < M by omega),
      show (a + i) % M + (j - i) - M + M - (a + i) % M = j - i by omega,
      Nat.mod_eq_of_lt (by omega)]

/-- Equal positions are at distance zero. -/
theorem dist_self (M w : ℕ) : dist M w w = 0 := by
  rw [dist, show w + M - w = M by omega, Nat.mod_self]

/-- Distance zero is equality. -/
theorem dist_eq_zero {w r : ℕ} (hw : w < M) (hr : r < M) (h : dist M w r = 0) :
    w = r := by
  unfold dist at h
  rcases Nat.lt_or_ge w r with hlt | hge
  · rw [Nat.mod_eq_of_lt (by omega)] at h
    omega
  · rw [show w + M - r = (w - r) + M by omega, Nat.add_mod_right,
      Nat.mod_eq_of_lt (by omega)] at h
    omega

/-- Going the distance from `r` arrives at `w`. -/
theorem add_dist {w r : ℕ} (hw : w < M) (hr : r < M) : (r + dist M w r) % M = w := by
  unfold dist
  rcases Nat.lt_or_ge w r with hlt | hge
  · rw [Nat.mod_eq_of_lt (show w + M - r < M by omega),
      show r + (w + M - r) = w + M by omega, Nat.add_mod_right, Nat.mod_eq_of_lt hw]
  · rw [show w + M - r = (w - r) + M by omega, Nat.add_mod_right,
      Nat.mod_eq_of_lt (show w - r < M by omega),
      show r + (w - r) = w by omega, Nat.mod_eq_of_lt hw]

/-- The distance when the near end advances. -/
theorem dist_succ_right {w r : ℕ} (hw : w < M) (hr : r < M) (hne : r ≠ w) :
    dist M w ((r + 1) % M) + 1 = dist M w r := by
  unfold dist
  rcases Nat.lt_or_ge (r + 1) M with hlt | hge
  · rw [Nat.mod_eq_of_lt hlt]
    rcases Nat.lt_or_gt_of_ne hne with h | h
    · rw [show w + M - (r + 1) = (w - r - 1) + M by omega, show w + M - r = (w - r) + M by omega,
        Nat.add_mod_right, Nat.add_mod_right, Nat.mod_eq_of_lt (show w - r - 1 < M by omega),
        Nat.mod_eq_of_lt (show w - r < M by omega)]
      omega
    · rw [Nat.mod_eq_of_lt (show w + M - (r + 1) < M by omega),
        Nat.mod_eq_of_lt (show w + M - r < M by omega)]
      omega
  · obtain rfl : r + 1 = M := by omega
    rw [Nat.mod_self, Nat.sub_zero, Nat.add_mod_right, Nat.mod_eq_of_lt hw,
      Nat.mod_eq_of_lt (show w + (r + 1) - r < r + 1 by omega)]
    omega

/-- The distance when the far end advances, short of a full turn. -/
theorem dist_succ_left {w r : ℕ} (hw : w < M) (hr : r < M) (hlt : dist M w r + 1 < M) :
    dist M ((w + 1) % M) r = dist M w r + 1 := by
  have hw' : (r + dist M w r) % M = w := add_dist hw hr
  have hstep : (w + 1) % M = (r + (dist M w r + 1)) % M := by
    conv_lhs => rw [← hw']
    exact succ M r (dist M w r)
  have hd := dist_eq (a := r) (Nat.zero_le (dist M w r + 1)) (show _ < 0 + M by omega)
  rw [show (r + 0) % M = r from Nat.mod_eq_of_lt hr, ← hstep] at hd
  exact hd

end Cyclic
