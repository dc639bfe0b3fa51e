import IpcShm.Window

/-!
# What a queue starts with

`ipc_queue_init` takes the indexes of a ring from memory that another core
writes. This module follows one call for every argument and every contents of
the two rings, which may lie anywhere in the windows, and says when the
indexes are those of a ring of the size asked for.

The call itself checks less than its documentation says. It adds one to a
size of 16 bits, so that a queue of 65535 elements becomes one of none; it
adopts the remote read index as it is; and it reduces the remote write index
to the size of the ring where it should report it. With a size that does not
wrap and indexes in range none of this matters, and these are the only calls
of which that can be said (`ipcQueueInit_valid_iff`).
-/

/-- The arguments `ipc_queue_init` does not reject. -/
def IpcQueueData.Accepted (data : IpcQueueData) : Prop :=
  data.pushAddr ≠ 0 ∧ data.popAddr ≠ 0 ∧ data.elemNum ≠ 0 ∧ data.elemSize ≠ 0 ∧
    data.elemSize % 8 = 0

instance (data : IpcQueueData) : Decidable data.Accepted :=
  inferInstanceAs (Decidable (_ ∧ _))

/-- The queue `ipc_queue_init` sets up, whatever it returns. -/
def IpcQueueData.queue (data : IpcQueueData) : IpcQueue :=
  { elemSize := data.elemSize, elemNum := u16 (data.elemNum + 1),
    pushRing := data.pushAddr, popRing := data.popAddr }

/-- The control data of both rings of a queue lies in the windows, at an offset
of its own in each. -/
structure IpcQueue.HeadersAt (q : IpcQueue) (μ : ShmMap) (off remoteOff : ℕ) : Prop where
  pushRing_eq : q.pushRing = μ.localShm + off
  popRing_eq : q.popRing = μ.remoteShm + remoteOff
  fits : off + sizeofIpcRing ≤ μ.size
  remote_fits : remoteOff + sizeofIpcRing ≤ μ.size

theorem IpcQueue.At.headersAt {q : IpcQueue} {μ : ShmMap} {off : ℕ} (h : q.At μ off) :
    q.HeadersAt μ off off := by
  have hsize : sizeofIpcRing = 16 := rfl
  have hfits := h.fits
  exact ⟨h.pushRing_eq, h.popRing_eq, by omega, by omega⟩

/-- The write index a ring starts with. -/
def startWrite (remote : ByteMem) (remoteOff : ℕ) : ℕ :=
  if remote.sentinel remoteOff = ipcQueueInitDone then remote.readIdx remoteOff else 0

/-- The read index a ring of `elemNum` slots starts with. -/
def startRead (ty : IpcShmQueueType) (remote : ByteMem) (remoteOff elemNum : ℕ) : ℕ :=
  if remote.sentinel remoteOff = ipcQueueInitDone then
    adoptedRead ty (remote.writeIdx remoteOff) % elemNum
  else 0

/-- A memory with the control data of a ring put in place. -/
def ByteMem.withHeader (m : ByteMem) (off sentinel write read : ℕ) : ByteMem :=
  ((m.store 8 off sentinel).store 4 (off + 8) write).store 4 (off + 12) read

section Header

variable (m : ByteMem) {off sentinel write read : ℕ}

theorem ByteMem.sentinel_withHeader (h : sentinel < 2 ^ 64) :
    (m.withHeader off sentinel write read).sentinel off = sentinel := by
  rw [withHeader, sentinel_store_read, sentinel_store_write, sentinel_store_sentinel h]

theorem ByteMem.writeIdx_withHeader (h : write < 2 ^ 32) :
    (m.withHeader off sentinel write read).writeIdx off = write := by
  rw [withHeader, writeIdx_store_read, writeIdx_store_write h]

theorem ByteMem.readIdx_withHeader (h : read < 2 ^ 32) :
    (m.withHeader off sentinel write read).readIdx off = read := by
  rw [withHeader, readIdx_store_read h]

end Header

theorem startWrite_lt (remote : ByteMem) (off : ℕ) : startWrite remote off < 2 ^ 32 := by
  unfold startWrite
  split
  · exact ByteMem.readIdx_lt remote off
  · decide

theorem startRead_lt (ty : IpcShmQueueType) (remote : ByteMem) (off : ℕ) {M : ℕ} (hM : 0 < M) :
    startRead ty remote off M < M := by
  unfold startRead
  split
  · exact Nat.mod_lt _ hM
  · exact hM

section Init

variable {μ : ShmMap} {s : Side} {off remoteOff : ℕ}

theorem IpcQueue.HeadersAt.load_popSentinel {q : IpcQueue} (h : q.HeadersAt μ off remoteOff)
    (shm : Shm) :
    memHandle μ s (.load 8 q.popRing) shm = some ((shm s.other).sentinel remoteOff, shm) := by
  have hsize : sizeofIpcRing = 16 := rfl
  have hfit := h.remote_fits
  rw [h.popRing_eq]
  exact memHandle_load_remote (by omega) (by omega)

/-- Against an initialized ring: what is left to do once the write index is
adopted. -/
theorem ipcQueueSyncIndex_done {q : IpcQueue} (h : q.HeadersAt μ off remoteOff)
    (ty : IpcShmQueueType) {shm : Shm}
    (hdone : (shm s.other).sentinel remoteOff = ipcQueueInitDone) :
    (ipcQueueSyncIndex q ty).run (memHandle μ s) shm
      = (remU (adoptedRead ty ((shm s.other).writeIdx remoteOff)) q.elemNum >>= fun next =>
          store32 (q.pushRing + 12) next >>= fun _ => .pure 0).run (memHandle μ s)
        (shm.set s (((shm s).store 8 off ipcQueueInitInProgress).store 4 (off + 8)
          ((shm s.other).readIdx remoteOff))) := by
  have hsize : sizeofIpcRing = 16 := rfl
  have hfit := h.fits
  have hfit' := h.remote_fits
  rw [ipcQueueSyncIndex, load64_bind, Program.run_op_of (h.load_popSentinel shm), hdone,
    if_neg (by decide), store64_bind, h.pushRing_eq,
    Program.run_op_of (memHandle_store_local (by omega)), load64_bind,
    Program.run_op_of (h.load_popSentinel _), Shm.set_other, hdone, if_pos rfl, h.popRing_eq,
    load32_bind, Nat.add_assoc, Program.run_op_of (memHandle_load_remote (by omega) (by omega)),
    store32_bind, Nat.add_assoc, Program.run_op_of (memHandle_store_local (by omega)),
    load32_bind, Nat.add_assoc, Program.run_op_of (memHandle_load_remote (by omega) (by omega))]
  simp only [Shm.set_other, Shm.set_self, Shm.set_set]
  rfl

/-- Without a slot there is no index to adopt: the remainder is by zero. -/
theorem ipcQueueSyncIndex_no_slot {q : IpcQueue} (h : q.HeadersAt μ off remoteOff)
    (ty : IpcShmQueueType) {shm : Shm}
    (hdone : (shm s.other).sentinel remoteOff = ipcQueueInitDone) (hzero : q.elemNum = 0) :
    (ipcQueueSyncIndex q ty).run (memHandle μ s) shm = none := by
  rw [ipcQueueSyncIndex_done h ty hdone, hzero]
  rfl

/-- **`ipc_queue_sync_index` against any remote ring**: nothing is written
while the other peer is initializing, and the indexes are placed otherwise. -/
theorem ipcQueueSyncIndex_eq {q : IpcQueue} (h : q.HeadersAt μ off remoteOff)
    (ty : IpcShmQueueType) (shm : Shm)
    (hpos : (shm s.other).sentinel remoteOff = ipcQueueInitDone → 0 < q.elemNum) :
    (ipcQueueSyncIndex q ty).run (memHandle μ s) shm
      = some (if (shm s.other).sentinel remoteOff = ipcQueueInitInProgress then (-EAGAIN, shm)
          else (0, shm.set s ((shm s).withHeader off ipcQueueInitInProgress
            (startWrite (shm s.other) remoteOff)
            (startRead ty (shm s.other) remoteOff q.elemNum)))) := by
  have hsize : sizeofIpcRing = 16 := rfl
  have hfit := h.fits
  by_cases hdone : (shm s.other).sentinel remoteOff = ipcQueueInitDone
  · rw [ipcQueueSyncIndex_done h ty hdone, remU_of_pos (hpos hdone), Program.pure_bind,
      store32_bind, h.pushRing_eq, Nat.add_assoc,
      Program.run_op_of (memHandle_store_local (by omega)), startWrite, startRead, if_pos hdone,
      if_pos hdone, hdone, if_neg (by decide), Shm.set_self, Shm.set_set]
    rfl
  · rw [ipcQueueSyncIndex, load64_bind, Program.run_op_of (h.load_popSentinel shm)]
    split
    · rfl
    rw [store64_bind, h.pushRing_eq, Program.run_op_of (memHandle_store_local (by omega)),
      load64_bind, Program.run_op_of (h.load_popSentinel _), Shm.set_other, if_neg hdone,
      store32_bind, Nat.add_assoc, Program.run_op_of (memHandle_store_local (by omega)),
      store32_bind, Nat.add_assoc, Program.run_op_of (memHandle_store_local (by omega)),
      startWrite, startRead, if_neg hdone, if_neg hdone]
    simp only [Shm.set_self, Shm.set_set]
    rfl

variable {data : IpcQueueData} {q : IpcQueue} {shm : Shm}

theorem ipcQueueInit_rejected (h : ¬data.Accepted) :
    (ipcQueueInit q data).run (memHandle μ s) shm = some ((-EINVAL, q), shm) := by
  rw [ipcQueueInit, if_pos]
  · rfl
  · unfold IpcQueueData.Accepted at h
    tauto

/-- An accepted call leaves the rest to `ipc_queue_sync_index`. -/
theorem ipcQueueInit_accepted (h : data.Accepted) :
    ipcQueueInit q data
      = ipcQueueSyncIndex data.queue data.queueType >>= fun err => .pure (err, data.queue) := by
  rw [ipcQueueInit, if_neg]
  · rfl
  · unfold IpcQueueData.Accepted at h
    tauto

/-- **A call that returns 0** has placed the indexes. -/
theorem ipcQueueInit_synced (hacc : data.Accepted) (h : data.queue.HeadersAt μ off remoteOff)
    (hidle : (shm s.other).sentinel remoteOff ≠ ipcQueueInitInProgress)
    (hpos : 0 < data.queue.elemNum) :
    (ipcQueueInit q data).run (memHandle μ s) shm
      = some ((0, data.queue), shm.set s ((shm s).withHeader off ipcQueueInitInProgress
          (startWrite (shm s.other) remoteOff)
          (startRead data.queueType (shm s.other) remoteOff data.queue.elemNum))) := by
  have hsync := ipcQueueSyncIndex_eq (s := s) h data.queueType shm (fun _ => hpos)
  rw [if_neg hidle] at hsync
  rw [ipcQueueInit_accepted hacc, Program.run_bind_of hsync]
  rfl

/-- The remote indexes are indexes of a ring for `n` elements. -/
def ByteMem.IndexesIn (m : ByteMem) (off n : ℕ) : Prop :=
  m.readIdx off < n + 1 ∧ m.writeIdx off < n + 1

instance (m : ByteMem) (off n : ℕ) : Decidable (m.IndexesIn off n) :=
  inferInstanceAs (Decidable (_ ∧ _))

/-- **What the call relies on and does not check**: once it looks at the remote
ring, the size has room for one more element, and the indexes to adopt are
indexes of a ring of that size. -/
def IpcQueueData.Adopts (data : IpcQueueData) (remote : ByteMem) (remoteOff : ℕ) : Prop :=
  data.Accepted → remote.sentinel remoteOff ≠ ipcQueueInitInProgress →
    data.elemNum + 1 < 2 ^ 16 ∧
      (remote.sentinel remoteOff = ipcQueueInitDone → remote.IndexesIn remoteOff data.elemNum)

/-- **What initialization of a queue is to do**, for arguments `data` and
contents `shm` of both windows. It runs to its end, so no remainder is taken by
zero; a queue it returns has one slot more than elements and both indexes of
its ring are slots; and indexes of an initialized remote ring that are out of
range are reported. -/
def InitializesQueue (μ : ShmMap) (s : Side) (data : IpcQueueData) (off remoteOff : ℕ)
    (q : IpcQueue) (shm : Shm) : Prop :=
  ∃ err q' shm', (ipcQueueInit q data).run (memHandle μ s) shm = some ((err, q'), shm') ∧
    (err = 0 → q'.pushRing = data.pushAddr ∧ q'.elemNum = data.elemNum + 1 ∧
      (shm' s).writeIdx off < q'.elemNum ∧ (shm' s).readIdx off < q'.elemNum) ∧
    ((shm s.other).sentinel remoteOff = ipcQueueInitDone →
      ¬(shm s.other).IndexesIn remoteOff data.elemNum → err = -EINVAL)

theorem initializesQueue_rejected (h : ¬data.Accepted) :
    InitializesQueue μ s data off remoteOff q shm :=
  ⟨_, _, _, ipcQueueInit_rejected h, fun he => absurd he (by decide), fun _ _ => rfl⟩

theorem initializesQueue_busy (hacc : data.Accepted) (h : data.queue.HeadersAt μ off remoteOff)
    (hbusy : (shm s.other).sentinel remoteOff = ipcQueueInitInProgress) :
    InitializesQueue μ s data off remoteOff q shm := by
  have hdone : (shm s.other).sentinel remoteOff ≠ ipcQueueInitDone := by
    rw [hbusy]
    decide
  have hsync := ipcQueueSyncIndex_eq (s := s) h data.queueType shm (fun he => absurd he hdone)
  rw [if_pos hbusy] at hsync
  refine ⟨-EAGAIN, data.queue, shm, ?_, fun he => absurd he (by decide),
    fun he => absurd he hdone⟩
  rw [ipcQueueInit_accepted hacc, Program.run_bind_of hsync]
  rfl

theorem initializesQueue_synced (hacc : data.Accepted) (h : data.queue.HeadersAt μ off remoteOff)
    (hidle : (shm s.other).sentinel remoteOff ≠ ipcQueueInitInProgress)
    (hsize : data.elemNum + 1 < 2 ^ 16)
    (hin : (shm s.other).sentinel remoteOff = ipcQueueInitDone →
      (shm s.other).IndexesIn remoteOff data.elemNum) :
    InitializesQueue μ s data off remoteOff q shm := by
  have hnum : data.queue.elemNum = data.elemNum + 1 := u16_of_lt hsize
  have hrun := ipcQueueInit_synced (q := q) (s := s) hacc h hidle (hnum ▸ Nat.succ_pos _)
  rw [hnum] at hrun
  have hwrite : startWrite (shm s.other) remoteOff < data.elemNum + 1 := by
    unfold startWrite
    split
    · rename_i hdone
      exact (hin hdone).1
    · exact Nat.succ_pos _
  have hread : startRead data.queueType (shm s.other) remoteOff (data.elemNum + 1)
      < data.elemNum + 1 := startRead_lt _ _ _ (Nat.succ_pos _)
  refine ⟨0, data.queue, _, hrun, fun _ => ⟨rfl, hnum, ?_, ?_⟩,
    fun hdone he => absurd (hin hdone) he⟩
  · rw [Shm.set_self, ByteMem.writeIdx_withHeader _ (startWrite_lt _ _), hnum]
    exact hwrite
  · rw [Shm.set_self, ByteMem.readIdx_withHeader _ (by omega), hnum]
    exact hread

/-- A size that wraps is either zero, and then nothing may be adopted, or not
the size asked for. -/
theorem InitializesQueue.size_lt (hacc : data.Accepted)
    (h : data.queue.HeadersAt μ off remoteOff)
    (hidle : (shm s.other).sentinel remoteOff ≠ ipcQueueInitInProgress)
    (hok : InitializesQueue μ s data off remoteOff q shm) : data.elemNum + 1 < 2 ^ 16 := by
  obtain ⟨err, q', shm', hrun, hzero, -⟩ := hok
  rw [ipcQueueInit_accepted hacc] at hrun
  obtain ⟨err', shm₁, hsync, hret⟩ := Program.run_bind_eq_some.mp hrun
  obtain ⟨he, rfl⟩ := Prod.mk.inj (Option.some.inj hret)
  obtain ⟨rfl, rfl⟩ := Prod.mk.inj he
  have hpos : (shm s.other).sentinel remoteOff = ipcQueueInitDone → 0 < data.queue.elemNum := by
    intro hdone
    refine Nat.pos_of_ne_zero (fun hno => ?_)
    rw [ipcQueueSyncIndex_no_slot h data.queueType hdone hno] at hsync
    exact nomatch hsync
  rw [ipcQueueSyncIndex_eq h data.queueType shm hpos, if_neg hidle] at hsync
  obtain ⟨rfl, -⟩ := Prod.mk.inj (Option.some.inj hsync)
  have hnum : (data.elemNum + 1) % 2 ^ 16 = data.elemNum + 1 := (hzero rfl).2.1
  rw [← hnum]
  exact Nat.mod_lt _ (by decide)

/-- **Initialization of a queue does what it is to do exactly when** what it
relies on and does not check holds, for all arguments, whatever is in the two
rings and wherever they lie. -/
theorem ipcQueueInit_valid_iff (hmap : data.Accepted → data.queue.HeadersAt μ off remoteOff)
    (q : IpcQueue) (shm : Shm) :
    InitializesQueue μ s data off remoteOff q shm ↔ data.Adopts (shm s.other) remoteOff := by
  constructor
  · intro hok hacc hidle
    have hsize := hok.size_lt hacc (hmap hacc) hidle
    have hnum : data.queue.elemNum = data.elemNum + 1 := u16_of_lt hsize
    refine ⟨hsize, fun hdone => ?_⟩
    -- the call succeeds, so it did not report the indexes
    by_contra hout
    obtain ⟨err, q', shm', hrun, -, hreport⟩ := hok
    rw [ipcQueueInit_synced hacc (hmap hacc) hidle (hnum ▸ Nat.succ_pos _)] at hrun
    obtain ⟨he, -⟩ := Prod.mk.inj (Option.some.inj hrun)
    obtain ⟨rfl, -⟩ := Prod.mk.inj he
    exact absurd (hreport hdone hout) (by decide)
  · intro had
    by_cases hacc : data.Accepted
    swap
    · exact initializesQueue_rejected hacc
    by_cases hbusy : (shm s.other).sentinel remoteOff = ipcQueueInitInProgress
    · exact initializesQueue_busy hacc (hmap hacc) hbusy
    · obtain ⟨hsize, hin⟩ := had hacc hbusy
      exact initializesQueue_synced hacc (hmap hacc) hbusy hsize hin

end Init

/-- The two windows as the first peer finds them: its own cleared, and a ring at
the start of the other. -/
def facing (sentinel write read : ℕ) : Shm
  | .a => fun _ => 0
  | .b => ByteMem.withHeader (fun _ => 0) 0 sentinel write read

/-- A channel queue at the start of both windows of the first peer. -/
def channelData (elemNum : ℕ) : IpcQueueData :=
  { elemSize := 8, elemNum := elemNum, queueType := .channelQueue,
    pushAddr := 0x1000, popAddr := 0x2000 }

theorem channelData_headersAt (n : ℕ) : (channelData n).queue.HeadersAt (twoWindows .a) 0 0 :=
  ⟨rfl, rfl, by decide, by decide⟩

section Facing

variable {sentinel write read : ℕ}

theorem facing_sentinel (h : sentinel < 2 ^ 64) :
    (facing sentinel write read .b).sentinel 0 = sentinel := ByteMem.sentinel_withHeader _ h

theorem facing_writeIdx (h : write < 2 ^ 32) :
    (facing sentinel write read .b).writeIdx 0 = write := ByteMem.writeIdx_withHeader _ h

theorem facing_readIdx (h : read < 2 ^ 32) :
    (facing sentinel write read .b).readIdx 0 = read := ByteMem.readIdx_withHeader _ h

end Facing

/-- A queue for three elements takes over from a peer that has popped two and
pushed three. -/
theorem ipcQueueInit_valid_three :
    InitializesQueue (twoWindows .a) .a (channelData 3) 0 0 {} (facing ipcQueueInitDone 3 2) := by
  have hread : (facing ipcQueueInitDone 3 2 .b).readIdx 0 = 2 := facing_readIdx (by decide)
  have hwrite : (facing ipcQueueInitDone 3 2 .b).writeIdx 0 = 3 := facing_writeIdx (by decide)
  have hin : (facing ipcQueueInitDone 3 2 .b).IndexesIn 0 3 := ⟨by omega, by omega⟩
  exact (ipcQueueInit_valid_iff (fun _ => channelData_headersAt 3) {} _).mpr
    (fun _ _ => ⟨by decide, fun _ => hin⟩)

/-- Calls for three elements against a ring with a read index, and with a write
index, that no ring of that size has; and a call for 65535 elements. The first
two succeed, the first with that index, and the third takes a remainder by
zero. -/
theorem ipcQueueInit_unchecked :
    (∃ q' shm', (ipcQueueInit {} (channelData 3)).run (memHandle (twoWindows .a) .a)
        (facing ipcQueueInitDone 3 1000) = some ((0, q'), shm') ∧
      q'.elemNum = 4 ∧ (shm' .a).writeIdx 0 = 1000) ∧
    (∃ q' shm', (ipcQueueInit {} (channelData 3)).run (memHandle (twoWindows .a) .a)
        (facing ipcQueueInitDone 1000 0) = some ((0, q'), shm')) ∧
    (ipcQueueInit {} (channelData 65535)).run (memHandle (twoWindows .a) .a)
      (facing ipcQueueInitDone 0 0) = none := by
  have hdone : ∀ write read, (facing ipcQueueInitDone write read .b).sentinel 0
      = ipcQueueInitDone := fun _ _ => facing_sentinel (by decide)
  have hidle : ∀ write read, (facing ipcQueueInitDone write read .b).sentinel 0
      ≠ ipcQueueInitInProgress := fun w r => by rw [hdone]; decide
  refine ⟨⟨_, _, ipcQueueInit_synced (s := .a) (by decide) (channelData_headersAt 3)
    (hidle 3 1000) (by decide), by decide, ?_⟩, ⟨_, _, ipcQueueInit_synced (s := .a) (by decide)
    (channelData_headersAt 3) (hidle 1000 0) (by decide)⟩, ?_⟩
  · rw [Shm.set_self, ByteMem.writeIdx_withHeader _ (startWrite_lt _ _), startWrite]
    exact (if_pos (hdone 3 1000)).trans (facing_readIdx (by decide))
  · rw [ipcQueueInit_accepted (by decide), Program.run_bind, ipcQueueSyncIndex_no_slot (s := .a)
      (channelData_headersAt 65535) _ (hdone 0 0) (by decide)]
    rfl
