import IpcShm.Transfer

/-!
# Two peers and their windows

Two peers share two windows of memory of one size. Each calls one of them its
local window and the other the remote one, and each sees them at addresses of
its own. What is behind an address is therefore a question for the mapping of
the peer that uses it: `ShmMap.locate` says which window, and at which
offset. Addresses differ between the peers and offsets do not, so everything
said about the contents of the windows is said in offsets.

An access outside both windows has no answer, and neither has an operation C
leaves undefined: a program that makes one does not run (`Program.run` gives
`none`). The OS and HW layers are taken to succeed here, with the mapping as
the result of `ipc_os_init`.
-/

/-- The two peers. -/
inductive Side where
  | a
  | b
  deriving DecidableEq, Repr

/-- The other peer. -/
def Side.other : Side → Side
  | .a => .b
  | .b => .a

@[simp] theorem Side.other_other (s : Side) : s.other.other = s := by
  cases s <;> rfl

@[simp] theorem Side.other_ne (s : Side) : s.other ≠ s := by
  cases s <;> decide

@[simp] theorem Side.ne_other (s : Side) : s ≠ s.other := by
  cases s <;> decide

/-- A side is one of two. -/
theorem Side.eq_or_eq_other (s t : Side) : t = s ∨ t = s.other := by
  cases s <;> cases t <;> decide

/-- The contents of both windows, by owner and offset. -/
abbrev Shm := Side → ByteMem

/-- **A peer's mapping of the two windows**: disjoint address ranges, away
from `NULL` and from the end of the address space. -/
structure ShmMap where
  localShm : ℕ
  remoteShm : ℕ
  size : ℕ
  localShm_pos : 0 < localShm
  remoteShm_pos : 0 < remoteShm
  localShm_lt : localShm + size < 2 ^ 64
  remoteShm_lt : remoteShm + size < 2 ^ 64
  disjoint : localShm + size ≤ remoteShm ∨ remoteShm + size ≤ localShm

namespace ShmMap

variable (μ : ShmMap)

/-- The addresses as the OS layer reports them. -/
def os : IpcOs := { localShm := μ.localShm, remoteShm := μ.remoteShm }

/-- **The window and offset behind `n` bytes at address `a`**, `true` for the
local window. -/
def locate (a n : ℕ) : Option (Bool × ℕ) :=
  if μ.localShm ≤ a ∧ a + n ≤ μ.localShm + μ.size then some (true, a - μ.localShm)
  else if μ.remoteShm ≤ a ∧ a + n ≤ μ.remoteShm + μ.size then
    some (false, a - μ.remoteShm)
  else none

theorem locate_localShm {off n : ℕ} (h : off + n ≤ μ.size) :
    μ.locate (μ.localShm + off) n = some (true, off) := by
  rw [locate, if_pos (by omega), Nat.add_sub_cancel_left]

theorem locate_remoteShm {off n : ℕ} (h : off + n ≤ μ.size) (hn : 0 < n) :
    μ.locate (μ.remoteShm + off) n = some (false, off) := by
  have hd := μ.disjoint
  rw [locate, if_neg (by omega), if_pos (by omega), Nat.add_sub_cancel_left]

end ShmMap

/-- Two windows of a page each, at different addresses for the two peers. -/
def twoWindows : Side → ShmMap
  | .a => { localShm := 0x1000, remoteShm := 0x2000, size := 0x1000, localShm_pos := by decide,
            remoteShm_pos := by decide, localShm_lt := by decide, remoteShm_lt := by decide,
            disjoint := by decide }
  | .b => { localShm := 0x8000, remoteShm := 0x4000, size := 0x1000, localShm_pos := by decide,
            remoteShm_pos := by decide, localShm_lt := by decide, remoteShm_lt := by decide,
            disjoint := by decide }

/-- The owner of a window, as seen by a peer. -/
def Side.owner (s : Side) (isLocal : Bool) : Side := if isLocal then s else s.other

/-- The windows with one of them replaced. -/
def Shm.set (shm : Shm) (s : Side) (m : ByteMem) : Shm := Function.update shm s m

@[simp] theorem Shm.set_self (shm : Shm) (s : Side) (m : ByteMem) :
    shm.set s m s = m := by
  rw [set, Function.update_self]

@[simp] theorem Shm.set_other (shm : Shm) (s : Side) (m : ByteMem) :
    shm.set s m s.other = shm s.other := by
  rw [set, Function.update_of_ne (Side.other_ne s)]

@[simp] theorem Shm.set_other_self (shm : Shm) (s : Side) (m : ByteMem) :
    shm.set s.other m s = shm s := by
  rw [set, Function.update_of_ne (Side.ne_other s)]

@[simp] theorem Shm.set_set (shm : Shm) (s : Side) (m m' : ByteMem) :
    (shm.set s m).set s m' = shm.set s m' := Function.update_idem ..

@[simp] theorem Shm.set_eq_self (shm : Shm) (s : Side) : shm.set s (shm s) = shm :=
  Function.update_eq_self s shm

/-- **How requests of the peer `s` are answered** from the contents of the
windows. -/
def memHandle (μ : ShmMap) (s : Side) : (o : Op) → Shm → Option (o.Ret × Shm)
  | .load n a, shm => (μ.locate a n).map (fun w => ((shm (s.owner w.1)).load n w.2, shm))
  | .store n a v, shm =>
    (μ.locate a n).map (fun w =>
      ((), shm.set (s.owner w.1) ((shm (s.owner w.1)).store n w.2 v)))
  | .memcpyFrom a n, shm =>
    (μ.locate a n).map (fun w => ((shm (s.owner w.1)).read w.2 n, shm))
  | .memcpyTo a bs, shm =>
    (μ.locate a bs.length).map (fun w =>
      ((), shm.set (s.owner w.1) ((shm (s.owner w.1)).write w.2 bs)))
  | .poolsOutOfBounds _, _ => none
  | .undefinedBehaviour, _ => none
  | .ipcHwInit _ _, shm => some (0, shm)
  | .ipcHwFree _, shm => some ((), shm)
  | .ipcHwIrqEnable _, shm => some ((), shm)
  | .ipcHwIrqDisable _, shm => some ((), shm)
  | .ipcHwIrqNotify _, shm => some ((), shm)
  | .ipcOsInit _ _, shm => some ((0, μ.os), shm)
  | .ipcOsFree _, shm => some ((), shm)
  | .rxCb _ _ _ _ _ _, shm => some ((), shm)
  | .rxCbUnmanaged _ _ _ _ _, shm => some ((), shm)

section Access

variable {μ : ShmMap} {s : Side} {shm : Shm} {off n : ℕ}

theorem memHandle_load_local (h : off + n ≤ μ.size) :
    memHandle μ s (.load n (μ.localShm + off)) shm = some ((shm s).load n off, shm) := by
  rw [memHandle, μ.locate_localShm h]
  rfl

theorem memHandle_load_remote (h : off + n ≤ μ.size) (hn : 0 < n) :
    memHandle μ s (.load n (μ.remoteShm + off)) shm
      = some ((shm s.other).load n off, shm) := by
  rw [memHandle, μ.locate_remoteShm h hn]
  rfl

theorem memHandle_store_local {v : ℕ} (h : off + n ≤ μ.size) :
    memHandle μ s (.store n (μ.localShm + off) v) shm
      = some ((), shm.set s ((shm s).store n off v)) := by
  rw [memHandle, μ.locate_localShm h]
  rfl

theorem memHandle_memcpyFrom_remote (h : off + n ≤ μ.size) (hn : 0 < n) :
    memHandle μ s (.memcpyFrom (μ.remoteShm + off) n) shm
      = some ((shm s.other).read off n, shm) := by
  rw [memHandle, μ.locate_remoteShm h hn]
  rfl

theorem memHandle_memcpyTo_local {bs : List UInt8} (h : off + bs.length ≤ μ.size) :
    memHandle μ s (.memcpyTo (μ.localShm + off) bs) shm
      = some ((), shm.set s ((shm s).write off bs)) := by
  rw [memHandle, μ.locate_localShm h]
  rfl

end Access

/-! ## Rings in a window -/

namespace ByteMem

variable (m : ByteMem)

/-- The sentinel of the ring at an offset. -/
def sentinel (off : ℕ) : ℕ := m.load 8 off

/-- Its write index. -/
def writeIdx (off : ℕ) : ℕ := m.load 4 (off + 8)

/-- Its read index – of the elements popped from the *other* window's
ring. -/
def readIdx (off : ℕ) : ℕ := m.load 4 (off + 12)

/-- One of its slots. -/
def slot (off elemSize i : ℕ) : List UInt8 := m.read (off + 16 + i * elemSize) elemSize

variable {m} {off E i j b v : ℕ} {bs : List UInt8}

theorem readIdx_lt (m : ByteMem) (off : ℕ) : m.readIdx off < 2 ^ 32 := load_lt m 4 (off + 12)

@[simp] theorem slot_length : (m.slot off E i).length = E := read_length m _ E

theorem slot_getElem (h : j < (m.slot off E i).length) :
    (m.slot off E i)[j] = m (off + 16 + i * E + j) := read_getElem m _ E j h

/-! A store to one field of a ring is seen in that field and in no other. -/

@[simp] theorem sentinel_store_sentinel (h : v < 2 ^ 64) :
    (m.store 8 off v).sentinel off = v := load_store_self_of_lt m (by omega)

@[simp] theorem writeIdx_store_sentinel :
    (m.store 8 off v).writeIdx off = m.writeIdx off := load_store_of_disjoint m (by omega)

@[simp] theorem readIdx_store_sentinel :
    (m.store 8 off v).readIdx off = m.readIdx off := load_store_of_disjoint m (by omega)

@[simp] theorem slot_store_sentinel :
    (m.store 8 off v).slot off E j = m.slot off E j := read_store_of_disjoint m (by omega)

@[simp] theorem sentinel_store_write :
    (m.store 4 (off + 8) v).sentinel off = m.sentinel off := load_store_of_disjoint m (by omega)

@[simp] theorem writeIdx_store_write (h : v < 2 ^ 32) :
    (m.store 4 (off + 8) v).writeIdx off = v := load_store_self_of_lt m (by omega)

@[simp] theorem readIdx_store_write :
    (m.store 4 (off + 8) v).readIdx off = m.readIdx off := load_store_of_disjoint m (by omega)

@[simp] theorem slot_store_write :
    (m.store 4 (off + 8) v).slot off E j = m.slot off E j := read_store_of_disjoint m (by omega)

@[simp] theorem sentinel_store_read :
    (m.store 4 (off + 12) v).sentinel off = m.sentinel off := load_store_of_disjoint m (by omega)

@[simp] theorem writeIdx_store_read :
    (m.store 4 (off + 12) v).writeIdx off = m.writeIdx off := load_store_of_disjoint m (by omega)

@[simp] theorem readIdx_store_read (h : v < 2 ^ 32) :
    (m.store 4 (off + 12) v).readIdx off = v := load_store_self_of_lt m (by omega)

@[simp] theorem slot_store_read :
    (m.store 4 (off + 12) v).slot off E j = m.slot off E j := read_store_of_disjoint m (by omega)

@[simp] theorem sentinel_write_slot :
    (m.write (off + 16 + b) bs).sentinel off = m.sentinel off :=
  load_write_of_disjoint m (by omega)

@[simp] theorem writeIdx_write_slot :
    (m.write (off + 16 + b) bs).writeIdx off = m.writeIdx off :=
  load_write_of_disjoint m (by omega)

@[simp] theorem readIdx_write_slot :
    (m.write (off + 16 + b) bs).readIdx off = m.readIdx off :=
  load_write_of_disjoint m (by omega)

/-- Distinct slots do not overlap. -/
theorem slot_disjoint (hij : i ≠ j) (h : b ≤ E) :
    j * E + E ≤ i * E ∨ i * E + b ≤ j * E := by
  rcases Nat.lt_or_gt_of_ne hij with hlt | hlt
  · have := Nat.mul_le_mul_right E (show i + 1 ≤ j from hlt)
    rw [Nat.add_mul, Nat.one_mul] at this
    omega
  · have := Nat.mul_le_mul_right E (show j + 1 ≤ i from hlt)
    rw [Nat.add_mul, Nat.one_mul] at this
    omega

/-- **A write within one slot** leaves the others alone. -/
theorem slot_write_of_ne (hij : i ≠ j) (h : b + bs.length ≤ E) :
    (m.write (off + 16 + i * E + b) bs).slot off E j = m.slot off E j := by
  have := slot_disjoint hij h
  exact read_write_of_disjoint m (by omega)

theorem slot_write_self (h : bs.length = E) :
    (m.write (off + 16 + i * E) bs).slot off E i = bs := by
  subst h
  exact read_write_self m _ bs

end ByteMem

/-- **A queue mapped at an offset**: its push ring there in the local window,
its pop ring at the same offset in the remote one, both whole. -/
structure IpcQueue.At (q : IpcQueue) (μ : ShmMap) (off : ℕ) : Prop where
  pushRing_eq : q.pushRing = μ.localShm + off
  popRing_eq : q.popRing = μ.remoteShm + off
  elemNum_lt : q.elemNum < 2 ^ 16
  elemSize_pos : 0 < q.elemSize
  elemSize_lt : q.elemSize < 2 ^ 8
  fits : off + 16 + q.elemNum * q.elemSize ≤ μ.size

namespace IpcQueue.At

variable {q : IpcQueue} {μ : ShmMap} {off : ℕ} {s : Side} {shm : Shm}

theorem pushRing_ne (h : q.At μ off) : q.pushRing ≠ 0 := by
  have := μ.localShm_pos
  rw [h.pushRing_eq]
  omega

theorem popRing_ne (h : q.At μ off) : q.popRing ≠ 0 := by
  have := μ.remoteShm_pos
  rw [h.popRing_eq]
  omega

/-- No ring pointer is `NULL`. -/
theorem not_null (h : q.At μ off) : ¬(q.pushRing = 0 ∨ q.popRing = 0) :=
  not_or.mpr ⟨h.pushRing_ne, h.popRing_ne⟩

/-- A slot lies in the ring. -/
theorem slot_fits (h : q.At μ off) {i : ℕ} (hi : i < q.elemNum) :
    off + 16 + i * q.elemSize + q.elemSize ≤ μ.size := by
  have hmul : (i + 1) * q.elemSize ≤ q.elemNum * q.elemSize :=
    Nat.mul_le_mul_right _ hi
  have := h.fits
  rw [Nat.add_mul, Nat.one_mul] at hmul
  omega

/-- The byte offset of a slot does not wrap. -/
theorem u32_slot (h : q.At μ off) {i : ℕ} (hi : i < q.elemNum) :
    u32 (i * q.elemSize) = i * q.elemSize := by
  have hle : i * q.elemSize ≤ 2 ^ 16 * 2 ^ 8 :=
    Nat.mul_le_mul (by have := h.elemNum_lt; omega) (by have := h.elemSize_lt; omega)
  exact u32_of_lt (by omega)

theorem u32_succ (h : q.At μ off) {i : ℕ} (hi : i < q.elemNum) : u32 (i + 1) = i + 1 :=
  u32_of_lt (by have := h.elemNum_lt; omega)

theorem load_pushSentinel (h : q.At μ off) :
    memHandle μ s (.load 8 q.pushRing) shm = some ((shm s).sentinel off, shm) := by
  rw [h.pushRing_eq]
  exact memHandle_load_local (by have := h.fits; omega)

theorem load_popSentinel (h : q.At μ off) :
    memHandle μ s (.load 8 q.popRing) shm = some ((shm s.other).sentinel off, shm) := by
  rw [h.popRing_eq]
  exact memHandle_load_remote (by have := h.fits; omega) (by omega)

theorem load_pushWrite (h : q.At μ off) :
    memHandle μ s (.load 4 (q.pushRing + 8)) shm = some ((shm s).writeIdx off, shm) := by
  rw [h.pushRing_eq, Nat.add_assoc]
  exact memHandle_load_local (by have := h.fits; omega)

theorem load_popWrite (h : q.At μ off) :
    memHandle μ s (.load 4 (q.popRing + 8)) shm
      = some ((shm s.other).writeIdx off, shm) := by
  rw [h.popRing_eq, Nat.add_assoc]
  exact memHandle_load_remote (by have := h.fits; omega) (by omega)

theorem load_pushRead (h : q.At μ off) :
    memHandle μ s (.load 4 (q.pushRing + 12)) shm = some ((shm s).readIdx off, shm) := by
  rw [h.pushRing_eq, Nat.add_assoc]
  exact memHandle_load_local (by have := h.fits; omega)

theorem load_popRead (h : q.At μ off) :
    memHandle μ s (.load 4 (q.popRing + 12)) shm
      = some ((shm s.other).readIdx off, shm) := by
  rw [h.popRing_eq, Nat.add_assoc]
  exact memHandle_load_remote (by have := h.fits; omega) (by omega)

theorem store_pushSentinel (h : q.At μ off) {v : ℕ} :
    memHandle μ s (.store 8 q.pushRing v) shm
      = some ((), shm.set s ((shm s).store 8 off v)) := by
  rw [h.pushRing_eq]
  exact memHandle_store_local (by have := h.fits; omega)

theorem store_pushWrite (h : q.At μ off) {v : ℕ} :
    memHandle μ s (.store 4 (q.pushRing + 8) v) shm
      = some ((), shm.set s ((shm s).store 4 (off + 8) v)) := by
  rw [h.pushRing_eq, Nat.add_assoc]
  exact memHandle_store_local (by have := h.fits; omega)

theorem store_pushRead (h : q.At μ off) {v : ℕ} :
    memHandle μ s (.store 4 (q.pushRing + 12) v) shm
      = some ((), shm.set s ((shm s).store 4 (off + 12) v)) := by
  rw [h.pushRing_eq, Nat.add_assoc]
  exact memHandle_store_local (by have := h.fits; omega)

theorem memcpyFrom_slot (h : q.At μ off) {i : ℕ} (hi : i < q.elemNum) :
    memHandle μ s (.memcpyFrom (q.popRing + 16 + u32 (i * q.elemSize)) q.elemSize) shm
      = some ((shm s.other).slot off q.elemSize i, shm) := by
  have hf := h.slot_fits hi
  rw [h.u32_slot hi, h.popRing_eq,
    show μ.remoteShm + off + 16 + i * q.elemSize
      = μ.remoteShm + (off + 16 + i * q.elemSize) by omega]
  exact memHandle_memcpyFrom_remote hf h.elemSize_pos

theorem memcpyTo_slot (h : q.At μ off) {i : ℕ} (hi : i < q.elemNum)
    {bs : List UInt8} (hbs : bs.length ≤ q.elemSize) :
    memHandle μ s (.memcpyTo (q.pushRing + 16 + u32 (i * q.elemSize)) bs) shm
      = some ((), shm.set s ((shm s).write (off + 16 + i * q.elemSize) bs)) := by
  have hf := h.slot_fits hi
  rw [h.u32_slot hi, h.pushRing_eq,
    show μ.localShm + off + 16 + i * q.elemSize
      = μ.localShm + (off + 16 + i * q.elemSize) by omega]
  exact memHandle_memcpyTo_local (by omega)

end IpcQueue.At
