import Mathlib.Tactic.Common
import Mathlib.Algebra.Order.Group.Nat
import Mathlib.Data.List.Basic

/-!
# Byte-addressed memory

Memory as a machine has it: a byte at every address, words made of
consecutive bytes in little-endian order, and copies of byte blocks. Words of
different widths live in the same bytes, so what a store leaves alone has to
be proved, and it is proved once, here: an access whose bytes a store does
not touch is unchanged (`load_write_of_disjoint`), and a word just stored is
read back modulo its width (`load_store_self`).
-/

/-- A memory: the byte at each address. -/
abbrev ByteMem := ℕ → UInt8

/-! ## Words as byte lists -/

/-- The little-endian value of a byte list. -/
def leVal : List UInt8 → ℕ
  | [] => 0
  | b :: bs => b.toNat + 256 * leVal bs

/-- The `n` little-endian bytes of a value, high bits dropped. -/
def leBytes : ℕ → ℕ → List UInt8
  | 0, _ => []
  | n + 1, v => UInt8.ofNat v :: leBytes n (v / 256)

@[simp] theorem leBytes_length (n v : ℕ) : (leBytes n v).length = n := by
  induction n generalizing v with
  | zero => rfl
  | succ n ih => simp [leBytes, ih]

theorem leVal_lt (bs : List UInt8) : leVal bs < 256 ^ bs.length := by
  induction bs with
  | nil => simp [leVal]
  | cons b bs ih =>
    have hb : b.toNat < 256 := b.toNat_lt
    rw [leVal, List.length_cons, pow_succ]
    omega

/-- **Encoding then decoding** drops exactly the bits beyond the width. -/
theorem leVal_leBytes (n v : ℕ) : leVal (leBytes n v) = v % 256 ^ n := by
  induction n generalizing v with
  | zero => simp [leBytes, leVal, Nat.mod_one]
  | succ n ih =>
    have hb : (UInt8.ofNat v).toNat = v % 256 := by simp
    rw [leBytes, leVal, ih, hb, pow_succ', Nat.mod_mul]

namespace ByteMem

variable (m : ByteMem)

/-! ## Blocks -/

/-- The `n` bytes from address `a` on. -/
def read (a n : ℕ) : List UInt8 := (List.range n).map (fun i => m (a + i))

/-- The memory with the block `bs` put at address `a`. -/
def write (a : ℕ) (bs : List UInt8) : ByteMem :=
  fun x => if a ≤ x ∧ x < a + bs.length then bs.getD (x - a) 0 else m x

@[simp] theorem read_length (a n : ℕ) : (m.read a n).length = n := by
  simp [read]

@[simp] theorem read_getElem (a n i : ℕ) (hi : i < (m.read a n).length) :
    (m.read a n)[i] = m (a + i) := by
  simp [read]

variable {a : ℕ}

theorem read_congr {m m' : ByteMem} {n : ℕ} (h : ∀ i, i < n → m (a + i) = m' (a + i)) :
    m.read a n = m'.read a n := by
  unfold read
  exact List.map_congr_left (fun i hi => h i (List.mem_range.mp hi))

/-- A write leaves every other byte alone. -/
theorem write_of_not_mem {x : ℕ} {bs : List UInt8} (h : x < a ∨ a + bs.length ≤ x) :
    m.write a bs x = m x := by
  rw [write, if_neg (by omega)]

theorem write_of_mem {i : ℕ} {bs : List UInt8} (h : i < bs.length) :
    m.write a bs (a + i) = bs[i] := by
  rw [write, if_pos (by omega), Nat.add_sub_cancel_left,
    List.getD_eq_getElem?_getD, List.getElem?_eq_getElem h]
  rfl

/-- **A block just written is read back.** -/
theorem read_write_self (a : ℕ) (bs : List UInt8) :
    (m.write a bs).read a bs.length = bs := by
  refine List.ext_getElem (by simp) (fun i h₁ h₂ => ?_)
  rw [read_getElem, write_of_mem m h₂]

/-- **A block a write does not touch is unchanged.** -/
theorem read_write_of_disjoint {b n : ℕ} {bs : List UInt8} (h : b + n ≤ a ∨ a + bs.length ≤ b) :
    (m.write a bs).read b n = m.read b n :=
  read_congr (fun i hi => write_of_not_mem m (by omega))

/-! ## Words -/

/-- The word of `n` bytes at address `a`. -/
def load (n a : ℕ) : ℕ := leVal (m.read a n)

/-- The memory with the word `v` of `n` bytes stored at address `a`. -/
def store (n a v : ℕ) : ByteMem := m.write a (leBytes n v)

theorem load_lt (n a : ℕ) : m.load n a < 256 ^ n := by
  have h := leVal_lt (m.read a n)
  rwa [read_length] at h

theorem load_congr {m m' : ByteMem} {n : ℕ} (h : ∀ i, i < n → m (a + i) = m' (a + i)) :
    m.load n a = m'.load n a :=
  congrArg leVal (read_congr h)

/-- **A word just stored is read back**, modulo its width. -/
theorem load_store_self (n a v : ℕ) :
    (m.store n a v).load n a = v % 256 ^ n := by
  have h := read_write_self m a (leBytes n v)
  rw [leBytes_length] at h
  rw [load, store, h, leVal_leBytes]

theorem load_store_self_of_lt {n v : ℕ} (h : v < 256 ^ n) : (m.store n a v).load n a = v := by
  rw [load_store_self, Nat.mod_eq_of_lt h]

/-- **A word a block write does not touch is unchanged.** -/
theorem load_write_of_disjoint {b n : ℕ} {bs : List UInt8} (h : b + n ≤ a ∨ a + bs.length ≤ b) :
    (m.write a bs).load n b = m.load n b :=
  congrArg leVal (read_write_of_disjoint m h)

theorem load_store_of_disjoint {b n k v : ℕ} (h : b + n ≤ a ∨ a + k ≤ b) :
    (m.store k a v).load n b = m.load n b :=
  load_write_of_disjoint m (by rwa [leBytes_length])

theorem read_store_of_disjoint {b n k v : ℕ} (h : b + n ≤ a ∨ a + k ≤ b) :
    (m.store k a v).read b n = m.read b n :=
  read_write_of_disjoint m (by rwa [leBytes_length])

/-- A store leaves every other byte alone. -/
theorem store_of_not_mem {x k v : ℕ} (h : x < a ∨ a + k ≤ x) : m.store k a v x = m x :=
  write_of_not_mem m (by rwa [leBytes_length])

/-- Cleared memory holds zero. -/
theorem load_cleared (n a : ℕ) : ByteMem.load (fun _ => 0) n a = 0 := by
  have hzero : ∀ l : List ℕ, leVal (l.map (fun _ => 0)) = 0 := by
    intro l
    induction l with
    | nil => rfl
    | cons x l ih =>
      rw [List.map_cons, leVal, ih]
      rfl
  exact hzero (List.range n)

end ByteMem
