import Mathlib.Tactic.Common
import Mathlib.Algebra.Order.Group.Nat

/-!
# Pages

A process sees memory through a table of pages of `2 ^ s` bytes: a virtual page
is mapped to a physical frame, or not at all. An address is a page and an
offset in it, and translation keeps the offset. Everything here is arithmetic
of quotients and remainders by the page size, in machine words of 64 bits of
which the page size is a divisor.
-/

/-- A page table: the frame of each virtual page that has one. -/
abbrev PageTable := ℕ → Option ℕ

namespace PageTable

/-- **The physical address of a virtual one.** -/
def translate (pt : PageTable) (s a : ℕ) : Option ℕ :=
  (pt (a / 2 ^ s)).map (fun frame => frame * 2 ^ s + a % 2 ^ s)

/-- The table with one page mapped. -/
def map (pt : PageTable) (page frame : ℕ) : PageTable := Function.update pt page (some frame)

/-- The table with `n` pages unmapped. -/
def unmap (pt : PageTable) (page n : ℕ) : PageTable :=
  fun p => if page ≤ p ∧ p < page + n then none else pt p

/-- None of `n` pages is mapped. -/
def Vacant (pt : PageTable) (page n : ℕ) : Prop := ∀ j < n, pt (page + j) = none

instance (pt : PageTable) (page n : ℕ) : Decidable (pt.Vacant page n) :=
  inferInstanceAs (Decidable (∀ j < n, pt (page + j) = none))

@[simp] theorem map_self (pt : PageTable) (page frame : ℕ) :
    pt.map page frame page = some frame := Function.update_self _ _ _

theorem map_of_ne (pt : PageTable) {page p : ℕ} (frame : ℕ) (h : p ≠ page) :
    pt.map page frame p = pt p := Function.update_of_ne h _ _

end PageTable

/-- The number of pages that hold `n` bytes. -/
def numPages (s n : ℕ) : ℕ := (n + 2 ^ s - 1) / 2 ^ s

theorem le_numPages_mul (s n : ℕ) : n ≤ numPages s n * 2 ^ s := by
  have hpos : 0 < 2 ^ s := Nat.two_pow_pos s
  have hdiv := Nat.div_add_mod (n + 2 ^ s - 1) (2 ^ s)
  have hmod := Nat.mod_lt (n + 2 ^ s - 1) hpos
  rw [numPages, Nat.mul_comm]
  omega

section Words

variable {s : ℕ} (hs : s ≤ 64)

include hs

/-- A word is a frame number and an offset. -/
theorem word_eq : 2 ^ 64 = 2 ^ s * 2 ^ (64 - s) := by
  rw [← pow_add]
  congr 1
  omega

/-- **The frame of a page of a range** that starts anywhere in a page. -/
theorem frame_of_word (a j : ℕ) :
    (a + j * 2 ^ s) % 2 ^ 64 / 2 ^ s = (a / 2 ^ s + j) % 2 ^ (64 - s) := by
  have hpos : 0 < 2 ^ s := Nat.two_pow_pos s
  rw [word_eq hs, Nat.mod_mul_right_div_self, Nat.add_mul_div_right _ _ hpos]

/-- **A byte of a frame**, counted from the start of the first page. -/
theorem word_of_frame (a x : ℕ) :
    (a + x / 2 ^ s) % 2 ^ (64 - s) * 2 ^ s + x % 2 ^ s = (a * 2 ^ s + x) % 2 ^ 64 := by
  have hpos : 0 < 2 ^ s := Nat.two_pow_pos s
  rw [word_eq hs, Nat.mod_mul, Nat.mul_add_mod_self_right, Nat.add_comm (a * 2 ^ s) x,
    Nat.add_mul_div_right _ _ hpos, Nat.add_comm (x / 2 ^ s) a, Nat.mul_comm (2 ^ s), Nat.add_comm]

end Words
