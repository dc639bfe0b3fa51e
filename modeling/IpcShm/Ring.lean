import IpcShm.Window
import IpcShm.Cyclic

/-!
# What a ring holds

One direction of a queue is spread over two windows: the slots and the write
index lie with the pusher, the read index with the popper. `RingHolds` says
which elements the direction holds, oldest first. It is the abstract view of
the queue: a push appends, a pop removes the head, and the two index tests of
the source are the tests for a full and for an empty queue.

The last part runs `ipc_queue_push`, `ipc_queue_pop` and
`ipc_queue_check_integrity` as single steps on this view.
-/

/-- **The elements a direction of a queue holds**: `out` is the window of the
pusher, `back` the window of the popper, `N` the capacity. -/
structure RingHolds (off N E : ℕ) (out back : ByteMem) (xs : List (List UInt8)) : Prop where
  read_lt : back.readIdx off < N + 1
  length_le : xs.length ≤ N
  write_eq : out.writeIdx off = (back.readIdx off + xs.length) % (N + 1)
  slots : ∀ j (hj : j < xs.length),
    out.slot off E ((back.readIdx off + j) % (N + 1)) = xs[j]

/-- **The slots between the indexes**, oldest first. -/
def ringContents (off N E : ℕ) (out back : ByteMem) : List (List UInt8) :=
  (List.range (Cyclic.dist (N + 1) (out.writeIdx off) (back.readIdx off))).map
    (fun j => out.slot off E ((back.readIdx off + j) % (N + 1)))

namespace RingHolds

variable {off N E : ℕ} {out back : ByteMem} {xs : List (List UInt8)}

/-- Equal indexes in range: nothing is held. -/
theorem empty (hr : back.readIdx off < N + 1) (h : out.writeIdx off = back.readIdx off) :
    RingHolds off N E out back [] where
  read_lt := hr
  length_le := Nat.zero_le N
  write_eq := by rw [h, List.length_nil, Nat.add_zero, Nat.mod_eq_of_lt hr]
  slots := fun j hj => absurd hj (Nat.not_lt_zero j)

theorem write_lt (h : RingHolds off N E out back xs) : out.writeIdx off < N + 1 := by
  rw [h.write_eq]
  exact Nat.mod_lt _ (Nat.succ_pos N)

/-- Any two indexes in range delimit some elements. -/
theorem exists_of_lt (hw : out.writeIdx off < N + 1) (hr : back.readIdx off < N + 1) :
    ∃ xs, RingHolds off N E out back xs := by
  have hd : Cyclic.dist (N + 1) (out.writeIdx off) (back.readIdx off) < N + 1 :=
    Cyclic.dist_lt (Nat.succ_pos N) _ _
  refine ⟨ringContents off N E out back, hr, ?_, ?_, fun j hj => ?_⟩
  · rw [ringContents, List.length_map, List.length_range]
    omega
  · rw [ringContents, List.length_map, List.length_range, Cyclic.add_dist hw hr]
  · simp only [ringContents, List.getElem_map, List.getElem_range]

/-- The view is read off the windows. -/
theorem contents (h : RingHolds off N E out back xs) : ringContents off N E out back = xs := by
  have hlen := h.length_le
  have hdist : Cyclic.dist (N + 1) (out.writeIdx off) (back.readIdx off) = xs.length := by
    have hd := Cyclic.dist_eq (M := N + 1) (a := back.readIdx off) (Nat.zero_le xs.length)
      (by omega)
    have h0 : (back.readIdx off + 0) % (N + 1) = back.readIdx off := Nat.mod_eq_of_lt h.read_lt
    rwa [← h.write_eq, h0, Nat.sub_zero] at hd
  refine List.ext_getElem ?_ (fun j hj hj' => ?_)
  · rw [ringContents, List.length_map, List.length_range, hdist]
  · simp only [ringContents, List.getElem_map, List.getElem_range]
    exact h.slots j hj'

/-- The view depends on the fields of the direction only. -/
theorem congr (h : RingHolds off N E out back xs) {out' back' : ByteMem}
    (hw : out'.writeIdx off = out.writeIdx off)
    (hs : ∀ j, j < N + 1 → out'.slot off E j = out.slot off E j)
    (hr : back'.readIdx off = back.readIdx off) : RingHolds off N E out' back' xs where
  read_lt := by rw [hr]; exact h.read_lt
  length_le := h.length_le
  write_eq := by rw [hw, hr]; exact h.write_eq
  slots := fun j hj => by
    rw [hr, hs _ (Nat.mod_lt _ (Nat.succ_pos N))]
    exact h.slots j hj

/-- **The slot at the write index is free.** -/
theorem write_ne_slot (h : RingHolds off N E out back xs) {j : ℕ} (hj : j < xs.length) :
    out.writeIdx off ≠ (back.readIdx off + j) % (N + 1) := by
  have hN := h.length_le
  rw [h.write_eq]
  exact (Cyclic.ne hj (by omega)).symm

/-- **The test for a full ring.** -/
theorem full_iff (h : RingHolds off N E out back xs) :
    (out.writeIdx off + 1) % (N + 1) = back.readIdx off ↔ xs.length = N := by
  have hN := h.length_le
  have hr := h.read_lt
  rw [h.write_eq, Cyclic.succ]
  constructor
  · intro heq
    by_contra hne
    have h0 : (back.readIdx off + 0) % (N + 1) = back.readIdx off := Nat.mod_eq_of_lt hr
    have := Cyclic.inj (show 0 ≤ xs.length + 1 by omega) (by omega) (h0.trans heq.symm)
    omega
  · intro heq
    rw [heq, Nat.add_mod_right, Nat.mod_eq_of_lt hr]

/-- **The test for an empty ring**, also for a write index loaded earlier. -/
theorem empty_iff {r n : ℕ} (hr : r < N + 1) (hn : n ≤ N) :
    r = (r + n) % (N + 1) ↔ n = 0 := by
  constructor
  · intro heq
    have h0 : (r + 0) % (N + 1) = r := Nat.mod_eq_of_lt hr
    have := Cyclic.inj (Nat.zero_le n) (by omega) (h0.trans heq)
    omega
  · intro heq
    rw [heq, Nat.add_zero, Nat.mod_eq_of_lt hr]

/-- The head is in the slot at the read index. -/
theorem head_slot {x : List UInt8} (h : RingHolds off N E out back (x :: xs)) :
    out.slot off E (back.readIdx off) = x := by
  have hs := h.slots 0 (by simp)
  rwa [Nat.add_zero, Nat.mod_eq_of_lt h.read_lt] at hs

/-- Writing into the slot at the write index disturbs nothing held. -/
theorem write_free (h : RingHolds off N E out back xs) {b : ℕ} {bs : List UInt8}
    (hb : b + bs.length ≤ E) :
    RingHolds off N E (out.write (off + 16 + out.writeIdx off * E + b) bs) back xs where
  read_lt := h.read_lt
  length_le := h.length_le
  write_eq := by
    rw [Nat.add_assoc, ByteMem.writeIdx_write_slot]
    exact h.write_eq
  slots := fun j hj => by
    rw [ByteMem.slot_write_of_ne (h.write_ne_slot hj) hb]
    exact h.slots j hj

/-- **Publishing** the slot at the write index appends it. -/
theorem publish (h : RingHolds off N E out back xs) (hlen : xs.length < N) (hN : N < 2 ^ 16)
    {x : List UInt8} (hx : out.slot off E (out.writeIdx off) = x) :
    RingHolds off N E (out.store 4 (off + 8) ((out.writeIdx off + 1) % (N + 1))) back
      (xs ++ [x]) where
  read_lt := h.read_lt
  length_le := by rw [List.length_append, List.length_singleton]; omega
  write_eq := by
    have hlt : (out.writeIdx off + 1) % (N + 1) < N + 1 := Nat.mod_lt _ (Nat.succ_pos N)
    rw [ByteMem.writeIdx_store_write (by omega), h.write_eq, Cyclic.succ,
      List.length_append, List.length_singleton]
  slots := fun j hj => by
    rw [ByteMem.slot_store_write]
    rcases Nat.lt_or_ge j xs.length with hj' | hj'
    · rw [h.slots j hj', List.getElem_append_left hj']
    · have : j = xs.length := by
        rw [List.length_append, List.length_singleton] at hj
        omega
      subst this
      rw [← h.write_eq, hx, List.getElem_append_right (Nat.le_refl _)]
      simp

/-- **Advancing** the read index removes the head. -/
theorem advance {x : List UInt8} (h : RingHolds off N E out back (x :: xs)) (hN : N < 2 ^ 16) :
    RingHolds off N E out (back.store 4 (off + 12) ((back.readIdx off + 1) % (N + 1))) xs := by
  have hlt : (back.readIdx off + 1) % (N + 1) < N + 1 := Nat.mod_lt _ (Nat.succ_pos N)
  have hlen := h.length_le
  rw [List.length_cons] at hlen
  refine ⟨?_, by omega, ?_, fun j hj => ?_⟩
  · rw [ByteMem.readIdx_store_read (by omega)]
    exact hlt
  · rw [ByteMem.readIdx_store_read (by omega), h.write_eq, Nat.mod_add_mod, List.length_cons]
    congr 1
    omega
  · have hs := h.slots (j + 1) (by rw [List.length_cons]; omega)
    rw [List.getElem_cons_succ] at hs
    rw [ByteMem.readIdx_store_read (by omega), Nat.mod_add_mod, ← hs]
    congr 2
    omega

end RingHolds

/-! ## Whole operations -/

/-- A window after `ipc_queue_push`. -/
def ByteMem.pushBack (m : ByteMem) (off M E : ℕ) (x : List UInt8) : ByteMem :=
  (m.write (off + 16 + m.writeIdx off * E) x).store 4 (off + 8) ((m.writeIdx off + 1) % M)

/-- A window after `ipc_queue_pop`: the popper's own. -/
def ByteMem.popFront (m : ByteMem) (off M : ℕ) : ByteMem :=
  m.store 4 (off + 12) ((m.readIdx off + 1) % M)

namespace ByteMem

variable {m : ByteMem} {off M E : ℕ} {x : List UInt8}

@[simp] theorem sentinel_pushBack : (m.pushBack off M E x).sentinel off = m.sentinel off := by
  rw [pushBack, sentinel_store_write, sentinel_write_slot]

@[simp] theorem readIdx_pushBack : (m.pushBack off M E x).readIdx off = m.readIdx off := by
  rw [pushBack, readIdx_store_write, readIdx_write_slot]

theorem writeIdx_pushBack (h : 0 < M) (hM : M < 2 ^ 32) :
    (m.pushBack off M E x).writeIdx off = (m.writeIdx off + 1) % M := by
  have := Nat.mod_lt (m.writeIdx off + 1) h
  rw [pushBack, writeIdx_store_write (by omega)]

@[simp] theorem sentinel_popFront : (m.popFront off M).sentinel off = m.sentinel off :=
  sentinel_store_read

@[simp] theorem writeIdx_popFront : (m.popFront off M).writeIdx off = m.writeIdx off :=
  writeIdx_store_read

theorem readIdx_popFront (h : 0 < M) (hM : M < 2 ^ 32) :
    (m.popFront off M).readIdx off = (m.readIdx off + 1) % M := by
  have := Nat.mod_lt (m.readIdx off + 1) h
  exact readIdx_store_read (by omega)

end ByteMem

section Operations

variable {off N E : ℕ} {out back : ByteMem} {xs : List (List UInt8)} {x : List UInt8}

theorem RingHolds.pushBack (h : RingHolds off N E out back xs) (hlen : xs.length < N)
    (hN : N < 2 ^ 16) (hx : x.length = E) :
    RingHolds off N E (out.pushBack off (N + 1) E x) back (xs ++ [x]) := by
  have hw := h.write_free (show 0 + x.length ≤ E by omega)
  rw [Nat.add_zero] at hw
  have hwi : (out.write (off + 16 + out.writeIdx off * E) x).writeIdx off = out.writeIdx off :=
    ByteMem.writeIdx_write_slot
  have hp := hw.publish hlen hN (x := x) (by rw [hwi, ByteMem.slot_write_self hx])
  rwa [hwi] at hp

theorem RingHolds.popFront (h : RingHolds off N E out back (x :: xs)) (hN : N < 2 ^ 16) :
    RingHolds off N E out (back.popFront off (N + 1)) xs := h.advance hN

/-- A push leaves everything outside its ring alone. -/
theorem ByteMem.pushBack_of_not_mem {m : ByteMem} {M a : ℕ} (hw : m.writeIdx off < M)
    (hx : x.length = E) (ha : a < off + 8 ∨ off + 16 + M * E ≤ a ∨ off + 12 ≤ a ∧ a < off + 16) :
    m.pushBack off M E x a = m a := by
  have hmul : (m.writeIdx off + 1) * E ≤ M * E := Nat.mul_le_mul_right E hw
  rw [Nat.add_mul, Nat.one_mul] at hmul
  rw [pushBack, store_of_not_mem _ (by omega), write_of_not_mem _ (by omega)]

/-- A pop writes the read index only. -/
theorem ByteMem.popFront_of_not_mem {m : ByteMem} {M a : ℕ}
    (ha : a < off + 12 ∨ off + 16 ≤ a) : m.popFront off M a = m a :=
  store_of_not_mem _ (by omega)

variable {q : IpcQueue} {μ : ShmMap} {s : Side} {shm : Shm}

/-- **`ipc_queue_push` with room** appends. -/
theorem ipcQueuePush_run (h : q.At μ off) (hM : q.elemNum = N + 1)
    (hr : RingHolds off N q.elemSize (shm s) (shm s.other) xs) (hlen : xs.length < N)
    (hx : x.length = q.elemSize) :
    (ipcQueuePush q x).run (memHandle μ s) shm
      = some (0, shm.set s ((shm s).pushBack off q.elemNum q.elemSize x)) := by
  have hw := hr.write_lt
  have hrd := hr.read_lt
  have hfull : ¬((shm s).writeIdx off + 1) % (N + 1) = (shm s.other).readIdx off :=
    fun hc => absurd (hr.full_iff.mp hc) (by omega)
  rw [ipcQueuePush, if_neg h.not_null, load32_bind, Program.run_op_of h.load_pushWrite,
    load32_bind, Program.run_op_of h.load_popRead, if_neg (by omega),
    remU_of_pos (by omega), h.u32_succ (by omega), Program.pure_bind,
    if_neg (by rwa [hM]), memcpyTo_bind,
    List.take_of_length_le (by omega),
    Program.run_op_of (h.memcpyTo_slot (by omega) (by omega)), store32_bind,
    Program.run_op_of h.store_pushWrite]
  simp only [Shm.set_self, Shm.set_set]
  rfl

/-- **`ipc_queue_push` on a full ring** fails and changes nothing. -/
theorem ipcQueuePush_run_full (h : q.At μ off) (hM : q.elemNum = N + 1)
    (hr : RingHolds off N q.elemSize (shm s) (shm s.other) xs) (hlen : xs.length = N) :
    (ipcQueuePush q x).run (memHandle μ s) shm = some (-ENOMEM, shm) := by
  have hw := hr.write_lt
  have hrd := hr.read_lt
  rw [ipcQueuePush, if_neg h.not_null, load32_bind, Program.run_op_of h.load_pushWrite,
    load32_bind, Program.run_op_of h.load_popRead, if_neg (by omega),
    remU_of_pos (by omega), h.u32_succ (by omega), Program.pure_bind,
    if_pos (by rw [hM]; exact hr.full_iff.mpr hlen)]
  rfl

/-- Both sentinels mark the queue initialized. -/
def Shm.Done (shm : Shm) (off : ℕ) : Prop :=
  ∀ s, (shm s).sentinel off = ipcQueueInitDone

theorem ipcQueueCheckIntegrity_run (h : q.At μ off) (hd : shm.Done off) :
    (ipcQueueCheckIntegrity q).run (memHandle μ s) shm = some (0, shm) := by
  rw [ipcQueueCheckIntegrity, load64_bind, Program.run_op_of h.load_popSentinel,
    if_pos (hd s.other).symm, load64_bind, Program.run_op_of h.load_pushSentinel,
    if_pos (hd s).symm]
  rfl

/-- **`ipc_queue_pop` on a ring with a head** returns and removes it. -/
theorem ipcQueuePop_run (h : q.At μ off) (hM : q.elemNum = N + 1) (hd : shm.Done off)
    (hr : RingHolds off N q.elemSize (shm s.other) (shm s) (x :: xs)) :
    (ipcQueuePop q).run (memHandle μ s) shm
      = some ((0, x), shm.set s ((shm s).popFront off q.elemNum)) := by
  have hw := hr.write_lt
  have hrd := hr.read_lt
  have hlen := hr.length_le
  have hne : ¬(shm s).readIdx off = (shm s.other).writeIdx off := by
    rw [hr.write_eq, RingHolds.empty_iff hrd hlen]
    simp
  rw [ipcQueuePop, if_neg h.not_null, load32_bind, Program.run_op_of h.load_popWrite,
    load32_bind, Program.run_op_of h.load_pushRead,
    Program.run_bind_of (ipcQueueCheckIntegrity_run h hd), if_neg (by omega), if_neg hne,
    memcpyFrom_bind, Program.run_op_of (h.memcpyFrom_slot (by omega)),
    remU_of_pos (by omega), h.u32_succ (by omega), Program.pure_bind, store32_bind,
    Program.run_op_of h.store_pushRead, hr.head_slot]
  rfl

/-- **`ipc_queue_pop` on an empty ring** fails and changes nothing. -/
theorem ipcQueuePop_run_empty (h : q.At μ off) (hM : q.elemNum = N + 1) (hd : shm.Done off)
    (hr : RingHolds off N q.elemSize (shm s.other) (shm s) []) :
    (ipcQueuePop q).run (memHandle μ s) shm = some ((-ENOBUFS, []), shm) := by
  have hw := hr.write_lt
  have hrd := hr.read_lt
  have heq : (shm s).readIdx off = (shm s.other).writeIdx off := by
    rw [hr.write_eq]
    exact (RingHolds.empty_iff hrd (Nat.zero_le N)).mpr rfl
  rw [ipcQueuePop, if_neg h.not_null, load32_bind, Program.run_op_of h.load_popWrite,
    load32_bind, Program.run_op_of h.load_pushRead,
    Program.run_bind_of (ipcQueueCheckIntegrity_run h hd), if_neg (by omega), if_pos heq]
  rfl

end Operations
