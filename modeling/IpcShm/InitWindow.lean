import IpcShm.InitBounds

/-!
# Where initialization stores

`ipc_shm_init_instance` places the channels one after the other and compares
ends with the end of the window, some of them too late and some not at all.
Which configurations keep it in the window depends on how far it gets: a channel
that is refused for want of a callback hides all the channels after it, however
large they are, and the cleanup of a failed call follows pointers that an
earlier call left behind.

This module computes the exact condition. Each function of the driver gets
three facts, over all replies its loads may have: an equivalence that says when
all its stores lie in the window, what it can leave behind, and that it can get
on and can fail. The loops over pools and channels then turn the equivalences
of their rounds into one about the rounds that are *reached*, with the addresses
and sizes as the driver computes them, wrapped where it wraps them.

The condition is exact, so that it also covers what looks like an error: a
configuration that does not fit stays in the window if it is refused early
enough.
-/

/-! ## Programs that stay in the window -/

/-- **All stores of a program lie in the window**, with any replies. -/
def StaysIn (μ : ShmMap) {α : Type} (p : Drv α) : Prop :=
  p.Always (Env μ) (Quiet (InWindow μ)) (fun _ => True)

section Requests

variable {μ : ShmMap} {α β : Type} {a n : ℕ}

theorem staysIn_pure (x : α) : StaysIn μ (.pure x) := trivial

theorem staysIn_bind {p : Drv α} {f : α → Drv β} :
    StaysIn μ (p >>= f) ↔ StaysIn μ p ∧ ∀ x, p.Returns (Env μ) x → StaysIn μ (f x) :=
  Program.always_bind_returns p f _

theorem staysIn_load64 {f : ℕ → Drv α} :
    StaysIn μ (load64 a >>= f) ↔ ∀ v, v < 256 ^ 8 → StaysIn μ (f v) :=
  ⟨fun h v hv => h.2 v hv, fun h => ⟨trivial, fun v hv => h v hv⟩⟩

theorem staysIn_load32 {f : ℕ → Drv α} :
    StaysIn μ (load32 a >>= f) ↔ ∀ v, v < 256 ^ 4 → StaysIn μ (f v) :=
  ⟨fun h v hv => h.2 v hv, fun h => ⟨trivial, fun v hv => h v hv⟩⟩

theorem staysIn_store64 {v : ℕ} {f : Unit → Drv α} :
    StaysIn μ (store64 a v >>= f) ↔ InWindow μ a 8 ∧ StaysIn μ (f ()) :=
  ⟨fun h => ⟨h.1, h.2 () trivial⟩, fun h => ⟨h.1, fun _ _ => h.2⟩⟩

theorem staysIn_store32 {v : ℕ} {f : Unit → Drv α} :
    StaysIn μ (store32 a v >>= f) ↔ InWindow μ a 4 ∧ StaysIn μ (f ()) :=
  ⟨fun h => ⟨h.1, h.2 () trivial⟩, fun h => ⟨h.1, fun _ _ => h.2⟩⟩

theorem staysIn_memcpyTo {bs : List UInt8} {f : Unit → Drv α} :
    StaysIn μ (memcpyTo a bs >>= f) ↔ InWindow μ a bs.length ∧ StaysIn μ (f ()) :=
  ⟨fun h => ⟨h.1, h.2 () trivial⟩, fun h => ⟨h.1, fun _ _ => h.2⟩⟩

/-- A block in the window, part by part. -/
theorem InWindow.part {k i : ℕ} (h : InWindow μ a k) (hi : i + n ≤ k) : InWindow μ (a + i) n :=
  ⟨Nat.le_trans h.1 (Nat.le_add_right a i), Nat.le_trans (by omega) h.2⟩

theorem InWindow.start {k : ℕ} (h : InWindow μ a k) (hn : n ≤ k) : InWindow μ a n :=
  ⟨h.1, Nat.le_trans (by omega) h.2⟩

/-- The start and the end of a block are in the window only if all of it is. -/
theorem InWindow.span {i k l : ℕ} (h : InWindow μ a n) (h' : InWindow μ (a + i) k)
    (hl : i + k = l) : InWindow μ a l :=
  ⟨h.1, Nat.le_trans (by omega) h'.2⟩

end Requests

/-! ## Loops that end early -/

/-- **`S` holds of the rounds that are reached**, of a loop of `n` rounds from
`k` on that goes on after the rounds of which `P` holds. -/
def AlongLoop (P S : ℕ → Prop) (k n : ℕ) : Prop :=
  ∀ i, k ≤ i → i < k + n → (∀ j, k ≤ j → j < i → P j) → S i

section Loops

variable {P S S' : ℕ → Prop} {k n : ℕ}

theorem alongLoop_zero : AlongLoop P S k 0 :=
  fun _ hlo hhi => absurd hhi (Nat.not_lt.mpr hlo)

theorem alongLoop_succ :
    AlongLoop P S k (n + 1) ↔ S k ∧ (P k → AlongLoop P S (k + 1) n) := by
  constructor
  · intro h
    refine ⟨h k (Nat.le_refl k) (by omega) (fun j h1 h2 => absurd h2 (Nat.not_lt.mpr h1)),
      fun hk i hlo hhi hprev => h i (by omega) (by omega) (fun j h1 h2 => ?_)⟩
    rcases Nat.eq_or_lt_of_le h1 with rfl | hlt
    · exact hk
    · exact hprev j hlt h2
  · rintro ⟨hfirst, hrest⟩ i hlo hhi hprev
    rcases Nat.eq_or_lt_of_le hlo with rfl | hlt
    · exact hfirst
    · exact hrest (hprev k (Nat.le_refl k) hlt) i hlt (by omega)
        (fun j h1 h2 => hprev j (by omega) h2)

theorem AlongLoop.imp (h : AlongLoop P S k n) (hS : ∀ i, k ≤ i → S i → S' i) :
    AlongLoop P S' k n :=
  fun i hlo hhi hprev => hS i hlo (h i hlo hhi hprev)

/-- A loop that always goes on reaches all its rounds. -/
theorem forall_from_succ : (∀ i, k ≤ i → i < k + (n + 1) → S i) ↔
    S k ∧ ∀ i, k + 1 ≤ i → i < k + 1 + n → S i := by
  constructor
  · exact fun h => ⟨h k (Nat.le_refl k) (by omega), fun i hlo hhi => h i (by omega) (by omega)⟩
  · rintro ⟨hfirst, hrest⟩ i hlo hhi
    rcases Nat.eq_or_lt_of_le hlo with rfl | hlt
    · exact hfirst
    · exact hrest i hlt (by omega)

end Loops

/-! ## Queues -/

section Queues

variable {μ : ShmMap} {q : IpcQueue} {data : IpcQueueData}

/-- **`ipc_queue_sync_index`** stores the header of its ring. -/
theorem ipcQueueSyncIndex_staysIn (ty : IpcShmQueueType) (hnum : 0 < q.elemNum) :
    StaysIn μ (ipcQueueSyncIndex q ty) ↔ InWindow μ q.pushRing 16 := by
  unfold ipcQueueSyncIndex
  constructor
  · -- the remote sentinel reads clear both times
    intro h
    replace h := staysIn_load64.mp h 0 (by decide)
    rw [if_neg (by decide)] at h
    obtain ⟨hfirst, h⟩ := staysIn_store64.mp h
    replace h := staysIn_load64.mp h 0 (by decide)
    rw [if_neg (by decide)] at h
    obtain ⟨-, h⟩ := staysIn_store32.mp h
    exact hfirst.span (staysIn_store32.mp h).1 rfl
  · intro h
    refine always_load64 (fun v => ?_)
    split
    · trivial
    refine always_store64 (h.start (by decide)) (always_load64 (fun v => ?_))
    split
    · exact always_load32 (fun r _ => always_store32 (h.part (by decide)) (always_load32 (fun w _ =>
        always_remU hnum (always_store32 (h.part (by decide)) trivial))))
    · exact always_store32 (h.part (by decide)) (always_store32 (h.part (by decide)) trivial)

/-- The parameters of the queue are accepted. -/
def IpcQueueData.Opens (data : IpcQueueData) : Prop :=
  data.pushAddr ≠ 0 ∧ data.popAddr ≠ 0 ∧ data.elemNum ≠ 0

/-- The queue that is mapped then. -/
def IpcQueueData.mapped (data : IpcQueueData) : IpcQueue where
  elemSize := data.elemSize
  elemNum := u16 (data.elemNum + 1)
  pushRing := data.pushAddr
  popRing := data.popAddr

theorem ipcQueueInit_of_opens (hsize : data.elemSize = sizeofIpcShmBd) (h : data.Opens) :
    ipcQueueInit q data = do
      let err ← ipcQueueSyncIndex data.mapped data.queueType
      return (err, data.mapped) := by
  obtain ⟨hpush, hpop, hnum⟩ := h
  unfold ipcQueueInit
  rw [hsize, if_neg (by unfold sizeofIpcShmBd; omega), ← hsize]
  rfl

theorem ipcQueueInit_of_not_opens (hsize : data.elemSize = sizeofIpcShmBd) (h : ¬data.Opens) :
    ipcQueueInit q data = .pure (-EINVAL, q) := by
  unfold IpcQueueData.Opens at h
  unfold ipcQueueInit
  rw [hsize]
  exact if_pos (by tauto)

/-- **`ipc_queue_init`** stores the header of the ring of a queue that it
opens. -/
theorem ipcQueueInit_staysIn (hsize : data.elemSize = sizeofIpcShmBd)
    (hnum : data.elemNum + 1 < 2 ^ 16) :
    StaysIn μ (ipcQueueInit q data) ↔ (data.Opens → InWindow μ data.pushAddr 16) := by
  by_cases h : data.Opens
  · have hpos : 0 < data.mapped.elemNum := by
      show 0 < u16 (data.elemNum + 1)
      rw [u16_of_lt hnum]
      exact Nat.succ_pos _
    rw [ipcQueueInit_of_opens hsize h, staysIn_bind, ipcQueueSyncIndex_staysIn _ hpos]
    exact ⟨fun hs _ => hs.1, fun hs => ⟨hs h, fun _ _ => staysIn_pure _⟩⟩
  · rw [ipcQueueInit_of_not_opens hsize h]
    exact iff_of_true (staysIn_pure _) (fun h' => absurd h' h)

/-- It leaves the queue alone, or maps it. -/
theorem ipcQueueInit_outcome (hsize : data.elemSize = sizeofIpcShmBd) {r : ℤ × IpcQueue}
    (h : (ipcQueueInit q data).Returns (Env μ) r) :
    ¬data.Opens ∧ r = (-EINVAL, q) ∨ data.Opens ∧ r.2 = data.mapped := by
  by_cases hopen : data.Opens
  · rw [ipcQueueInit_of_opens hsize hopen] at h
    obtain ⟨err, -, rfl⟩ := Program.returns_bind.mp h
    exact Or.inr ⟨hopen, rfl⟩
  · rw [ipcQueueInit_of_not_opens hsize hopen] at h
    exact Or.inl ⟨hopen, h.symm⟩

/-- The remote may be initializing the queue. -/
theorem ipcQueueInit_again (hsize : data.elemSize = sizeofIpcShmBd) (h : data.Opens) :
    (ipcQueueInit q data).Returns (Env μ) (-EAGAIN, data.mapped) := by
  have hlt : ipcQueueInitInProgress < 256 ^ 8 := by decide
  rw [ipcQueueInit_of_opens hsize h]
  exact Program.Returns.bind (a := -EAGAIN) ⟨ipcQueueInitInProgress, hlt, rfl⟩ rfl

/-- The queue of a channel, marked initialized. -/
theorem initChannelQueue_staysIn (hsize : data.elemSize = sizeofIpcShmBd)
    (hnum : data.elemNum + 1 < 2 ^ 16) :
    StaysIn μ (initChannelQueue q data) ↔ (data.Opens → InWindow μ data.pushAddr 16) := by
  unfold initChannelQueue
  rw [staysIn_bind, ipcQueueInit_staysIn hsize hnum]
  refine ⟨fun h => h.1, fun h => ⟨h, fun r hr => ?_⟩⟩
  obtain ⟨err, q'⟩ := r
  dsimp only
  split
  · exact staysIn_pure _
  · rename_i he
    obtain ⟨-, heq⟩ | ⟨hopen, rfl⟩ := ipcQueueInit_outcome hsize hr
    · exact absurd (Prod.mk.inj heq).1 (by rw [not_not.mp he]; decide)
    · exact staysIn_store64.mpr ⟨(h hopen).start (by decide), staysIn_pure _⟩

theorem initChannelQueue_outcome (hsize : data.elemSize = sizeofIpcShmBd) {r : ℤ × IpcQueue}
    (h : (initChannelQueue q data).Returns (Env μ) r) :
    ¬data.Opens ∧ r = (-EINVAL, q) ∨ data.Opens ∧ r.2 = data.mapped := by
  unfold initChannelQueue at h
  obtain ⟨⟨err, q'⟩, hinit, hrest⟩ := Program.returns_bind.mp h
  dsimp only at hrest
  split at hrest
  · obtain rfl : (err, q') = r := hrest
    exact ipcQueueInit_outcome hsize hinit
  · rename_i he
    obtain ⟨u, -, hret⟩ := hrest
    obtain rfl : (0, q') = r := hret
    obtain ⟨-, heq⟩ | hopen := ipcQueueInit_outcome hsize hinit
    · exact absurd (Prod.mk.inj heq).1 (by rw [not_not.mp he]; decide)
    · exact Or.inr hopen

theorem initChannelQueue_again (hsize : data.elemSize = sizeofIpcShmBd) (h : data.Opens) :
    (initChannelQueue q data).Returns (Env μ) (-EAGAIN, data.mapped) :=
  (ipcQueueInit_again hsize h).bind rfl

theorem initChannelQueue_returns (hsize : data.elemSize = sizeofIpcShmBd) (h : data.Opens) :
    (initChannelQueue q data).Returns (Env μ) (0, data.mapped) := by
  have hinit : (ipcQueueInit q data).Returns (Env μ) (0, data.mapped) :=
    ipcQueueInit_returns h.1 h.2.1 h.2.2 (by rw [hsize]; decide) (by rw [hsize]; decide)
  exact hinit.bind ⟨(), trivial, rfl⟩

/-- **`ipc_queue_push`** stores in any slot of the ring, as the indexes say. -/
theorem ipcQueuePush_staysIn {bs : List UInt8} (hpush : q.pushRing ≠ 0) (hpop : q.popRing ≠ 0)
    (hsize : q.elemSize = 8) (htwo : 2 ≤ q.elemNum) (hlt : q.elemNum < 2 ^ 16)
    (hlen : bs.length = 8) (hhead : InWindow μ q.pushRing 16) :
    StaysIn μ (ipcQueuePush q bs) ↔ InWindow μ q.pushRing (16 + q.elemNum * 8) := by
  have htake : (bs.take 8).length = 8 := by rw [List.length_take, hlen, Nat.min_self]
  unfold ipcQueuePush
  rw [if_neg (not_or.mpr ⟨hpush, hpop⟩), hsize]
  constructor
  · -- the write index is the last one
    intro h
    replace h := staysIn_load32.mp h (q.elemNum - 1) (by omega)
    replace h := staysIn_load32.mp h 1 (by decide)
    rw [if_neg (by omega), remU_of_pos (by omega), Program.pure_bind,
      show u32 (q.elemNum - 1 + 1) % q.elemNum = 0 by
        rw [Nat.sub_add_cancel (by omega), u32_of_lt (by omega), Nat.mod_self],
      if_neg (by decide)] at h
    have hslot := (staysIn_memcpyTo.mp h).1
    rw [htake, u32_of_lt (by omega), Nat.add_assoc] at hslot
    exact hhead.span hslot (by omega)
  · intro h
    refine always_load32 (fun write _ => always_load32 (fun read _ => ?_))
    split
    · trivial
    rename_i hidx
    refine always_remU (by omega) ?_
    split
    · trivial
    refine staysIn_memcpyTo.mpr ⟨?_, staysIn_store32.mpr ⟨hhead.part (by decide), staysIn_pure _⟩⟩
    rw [htake, u32_of_lt (by omega), Nat.add_assoc]
    exact h.part (by omega)

/-- The loop populating a pool queue, if there is anything to push. -/
theorem pushFreeBds_staysIn (hpush : q.pushRing ≠ 0) (hpop : q.popRing ≠ 0)
    (hsize : q.elemSize = 8) (htwo : 2 ≤ q.elemNum) (hlt : q.elemNum < 2 ^ 16)
    (hhead : InWindow μ q.pushRing 16) (poolId : ℕ) {n : ℕ} (hn : 0 < n) (bufId : ℕ) :
    StaysIn μ (pushFreeBds q poolId n bufId) ↔ InWindow μ q.pushRing (16 + q.elemNum * 8) := by
  have hone : ∀ bd : IpcShmBd, StaysIn μ (ipcQueuePush q bd.encode) ↔
      InWindow μ q.pushRing (16 + q.elemNum * 8) := fun bd =>
    ipcQueuePush_staysIn hpush hpop hsize htwo hlt bd.encode_length hhead
  constructor
  · intro h
    obtain ⟨n, rfl⟩ := Nat.exists_eq_add_of_lt hn
    rw [Nat.zero_add, pushFreeBds, staysIn_bind] at h
    exact (hone _).mp h.1
  · intro h
    clear hn
    induction n generalizing bufId with
    | zero => exact staysIn_pure _
    | succ n ih =>
      rw [pushFreeBds, staysIn_bind]
      refine ⟨(hone _).mpr h, fun err _ => ?_⟩
      split
      · exact staysIn_pure _
      · exact ih (bufId + 1)

end Queues

/-! ## Pools -/

/-- The size that the driver computes for a pool. -/
def IpcShmPoolCfg.size32 (p : IpcShmPoolCfg) : ℕ :=
  u32 (ringBytes p.numBufs.toNat + u32 (p.bufSize.toNat * p.numBufs.toNat))

/-- The ring of the pool is opened: the number of buffers is accepted, and the
addresses are not `NULL`. -/
def IpcShmPoolCfg.Opens (p : IpcShmPoolCfg) (addr : IpcShmPoolAddr) : Prop :=
  1 ≤ p.numBufs.toNat ∧ p.numBufs.toNat ≤ ipcShmMaxBufsPerPool ∧
    addr.localPoolShm ≠ 0 ∧ addr.remotePoolShm ≠ 0

/-- **Where a pool is written**: the header of its ring, if it is opened, and
the ring, if the pool is let through. -/
def IpcShmPoolCfg.StaysIn (p : IpcShmPoolCfg) (μ : ShmMap) (addr : IpcShmPoolAddr) : Prop :=
  p.Opens addr → InWindow μ addr.localPoolShm 16 ∧
    (p.LetThrough μ addr → InWindow μ addr.localPoolShm (ringBytes p.numBufs.toNat))

/-- The addresses behind `n` bytes. -/
def IpcShmPoolAddr.plus (addr : IpcShmPoolAddr) (n : ℕ) : IpcShmPoolAddr where
  localPoolShm := u64 (addr.localPoolShm + n)
  remotePoolShm := u64 (addr.remotePoolShm + n)

/-- The addresses of the pools of a channel, the first of which is at
`addr`. -/
def poolCursor (pools : ℕ → IpcShmPoolCfg) (addr : IpcShmPoolAddr) : ℕ → IpcShmPoolAddr
  | 0 => addr
  | p + 1 => (poolCursor pools addr p).plus (pools p).size32

section Pools

variable {μ : ShmMap} {p : IpcShmPoolCfg} {addr : IpcShmPoolAddr} {pool : IpcShmPool}
  {poolId : ℕ}

theorem IpcShmPoolCfg.letThrough_iff : p.LetThrough μ addr ↔
    p.Opens addr ∧ ¬u64 (μ.os.localShm + μ.size) < u64 (addr.localPoolShm + p.size32) := by
  rw [show u64 (μ.os.localShm + μ.size) = μ.localShm + μ.size from u64_of_lt μ.localShm_lt,
    Nat.not_lt]
  unfold LetThrough Opens size32
  simp only [and_assoc]

theorem IpcShmPoolCfg.LetThrough.opens (h : p.LetThrough μ addr) : p.Opens addr :=
  (IpcShmPoolCfg.letThrough_iff.mp h).1

/-- The queue data of a pool. -/
def poolData (p : IpcShmPoolCfg) (addr : IpcShmPoolAddr) : IpcQueueData where
  elemSize := sizeofIpcShmBd
  elemNum := p.numBufs.toNat
  queueType := .poolQueue
  pushAddr := addr.localPoolShm
  popAddr := addr.remotePoolShm

theorem poolData_opens (hmax : p.numBufs.toNat ≤ ipcShmMaxBufsPerPool) :
    (poolData p addr).Opens ↔ p.Opens addr := by
  constructor
  · rintro ⟨hl, hr, hn⟩
    exact ⟨Nat.pos_of_ne_zero hn, hmax, hl, hr⟩
  · rintro ⟨hn, -, hl, hr⟩
    exact ⟨hl, hr, Nat.ne_of_gt hn⟩

theorem poolData_elemNum (addr : IpcShmPoolAddr) (hmax : p.numBufs.toNat ≤ ipcShmMaxBufsPerPool) :
    (poolData p addr).elemNum + 1 < 2 ^ 16 :=
  Nat.lt_of_le_of_lt (Nat.succ_le_succ hmax) (by decide)

/-- Populating the ring of a pool that is opened. -/
theorem pushPoolBds_staysIn (poolId : ℕ) (hopen : p.Opens addr)
    (hhead : InWindow μ addr.localPoolShm 16) :
    StaysIn μ (pushFreeBds (poolData p addr).mapped poolId p.numBufs.toNat 0) ↔
      InWindow μ addr.localPoolShm (ringBytes p.numBufs.toNat) := by
  obtain ⟨hpos, hmax, hl, hr⟩ := hopen
  have hnum : (poolData p addr).mapped.elemNum = p.numBufs.toNat + 1 :=
    u16_of_lt (poolData_elemNum addr hmax)
  have hlt := poolData_elemNum addr hmax
  have h := pushFreeBds_staysIn (μ := μ) (q := (poolData p addr).mapped) hl hr rfl (by omega)
    (by rw [hnum]; exact hlt) hhead poolId hpos 0
  rwa [hnum] at h

/-- **`ipc_buf_pool_init`** stores the header of the ring before it compares the
end of the pool with the end of the window, and the ring after that. -/
theorem ipcBufPoolInit_staysIn :
    StaysIn μ (ipcBufPoolInit μ.os μ.size pool poolId addr p) ↔ p.StaysIn μ addr := by
  unfold ipcBufPoolInit
  by_cases hmax : ipcShmMaxBufsPerPool < p.numBufs.toNat
  · rw [if_pos hmax]
    exact iff_of_true (staysIn_pure _) (fun h => absurd h.2.1 (Nat.not_le.mpr hmax))
  rw [if_neg hmax]
  replace hmax := Nat.not_lt.mp hmax
  have hq : StaysIn μ (ipcQueueInit pool.bdQueue (poolData p addr)) ↔
      (p.Opens addr → InWindow μ addr.localPoolShm 16) :=
    (ipcQueueInit_staysIn rfl (poolData_elemNum addr hmax)).trans
      (imp_congr_left (poolData_opens hmax))
  rw [staysIn_bind]
  constructor
  · rintro ⟨hinit, hrest⟩ hopen
    have hhead := hq.mp hinit hopen
    refine ⟨hhead, fun hlet => (pushPoolBds_staysIn poolId hopen hhead).mp ?_⟩
    have hready : (ipcQueueInit pool.bdQueue (poolData p addr)).Returns (Env μ)
        (0, (poolData p addr).mapped) :=
      ipcQueueInit_returns hopen.2.2.1 hopen.2.2.2 (Nat.ne_of_gt hopen.1)
        (show sizeofIpcShmBd ≠ 0 by decide) (show sizeofIpcShmBd % 8 = 0 by decide)
    replace hrest := hrest _ hready
    dsimp only at hrest
    rw [if_neg (not_not.mpr rfl), show ipcQueueMemSize (poolData p addr).mapped = _ from
      poolQueue_memSize hmax _ _, ← IpcShmPoolCfg.size32,
      if_neg (IpcShmPoolCfg.letThrough_iff.mp hlet).2] at hrest
    exact (staysIn_bind.mp hrest).1
  · intro h
    refine ⟨hq.mpr (fun hopen => (h hopen).1), ?_⟩
    rintro ⟨err, q⟩ hr
    dsimp only
    split
    · exact staysIn_pure _
    rename_i he
    obtain ⟨-, heq⟩ | ⟨hopen, hmap⟩ := ipcQueueInit_outcome
      (show (poolData p addr).elemSize = sizeofIpcShmBd from rfl) hr
    · exact absurd (Prod.mk.inj heq).1 (by rw [not_not.mp he]; decide)
    obtain rfl : q = (poolData p addr).mapped := hmap
    rw [poolData_opens hmax] at hopen
    rw [show ipcQueueMemSize (poolData p addr).mapped = _ from poolQueue_memSize hmax _ _]
    split
    · exact staysIn_pure _
    rename_i hcheck
    have hring := (h hopen).2 (IpcShmPoolCfg.letThrough_iff.mpr ⟨hopen, hcheck⟩)
    rw [staysIn_bind]
    refine ⟨(pushPoolBds_staysIn poolId hopen (h hopen).1).mpr hring, fun err' _ => ?_⟩
    split
    · exact staysIn_pure _
    · exact staysIn_store64.mpr ⟨(h hopen).1.start (by decide), staysIn_pure _⟩

/-- The pointer that it leaves, and the size of a pool that is accepted. -/
theorem ipcBufPoolInit_outcome {r : ℤ × IpcShmPool}
    (h : (ipcBufPoolInit μ.os μ.size pool poolId addr p).Returns (Env μ) r) :
    (r.2.bdQueue.pushRing = pool.bdQueue.pushRing ∨
        p.Opens addr ∧ r.2.bdQueue.pushRing = addr.localPoolShm) ∧
      (r.1 = 0 → p.LetThrough μ addr ∧ r.2.bdQueue.pushRing = addr.localPoolShm ∧
        r.2.shmSize = p.size32) := by
  unfold ipcBufPoolInit at h
  split at h
  · obtain rfl : (-EINVAL, pool) = r := h
    exact ⟨Or.inl rfl, fun h0 => absurd h0 (show -EINVAL ≠ 0 by decide)⟩
  rename_i hmax
  replace hmax := Nat.not_lt.mp hmax
  obtain ⟨⟨err, q⟩, hinit, hrest⟩ := Program.returns_bind.mp h
  have hq := ipcQueueInit_outcome (show (poolData p addr).elemSize = sizeofIpcShmBd from rfl) hinit
  rw [poolData_opens hmax] at hq
  dsimp only at hrest
  split at hrest
  · rename_i he
    obtain rfl := hrest
    refine ⟨?_, fun h0 => absurd h0 he⟩
    rcases hq with ⟨-, heq⟩ | ⟨hopen, hmap⟩
    · exact Or.inl (congrArg IpcQueue.pushRing (Prod.mk.inj heq).2)
    · exact Or.inr ⟨hopen, congrArg IpcQueue.pushRing hmap⟩
  rename_i he
  obtain ⟨-, heq⟩ | ⟨hopen, hmap⟩ := hq
  · exact absurd (Prod.mk.inj heq).1 (by rw [not_not.mp he]; decide)
  obtain rfl : q = (poolData p addr).mapped := hmap
  rw [show ipcQueueMemSize (poolData p addr).mapped = _ from poolQueue_memSize hmax _ _,
    ← IpcShmPoolCfg.size32] at hrest
  split at hrest
  · obtain rfl := hrest
    exact ⟨Or.inr ⟨hopen, rfl⟩, fun h0 => absurd h0 (show -ENOMEM ≠ 0 by decide)⟩
  rename_i hcheck
  obtain ⟨err', -, hrest⟩ := Program.returns_bind.mp hrest
  split at hrest
  · rename_i he'
    obtain rfl := hrest
    exact ⟨Or.inr ⟨hopen, rfl⟩, fun h0 => absurd h0 he'⟩
  · obtain ⟨u, -, hret⟩ := hrest
    obtain rfl := hret
    exact ⟨Or.inr ⟨hopen, rfl⟩, fun _ =>
      ⟨IpcShmPoolCfg.letThrough_iff.mpr ⟨hopen, hcheck⟩, rfl, rfl⟩⟩

variable {pools : ℕ → IpcShmPoolCfg} {chan : IpcManagedChannel} {n k : ℕ}

/-- The pools from `k` on, as far as they are reached. -/
def PoolsStayIn (μ : ShmMap) (pools : ℕ → IpcShmPoolCfg) (addr : IpcShmPoolAddr) (k n : ℕ) : Prop :=
  AlongLoop (fun q => (pools q).LetThrough μ (poolCursor pools addr q))
    (fun q => (pools q).StaysIn μ (poolCursor pools addr q)) k n

theorem poolsStayIn_succ : PoolsStayIn μ pools addr k (n + 1) ↔
    (pools k).StaysIn μ (poolCursor pools addr k) ∧
      ((pools k).LetThrough μ (poolCursor pools addr k) →
        PoolsStayIn μ pools addr (k + 1) n) := alongLoop_succ

/-- **The loop over the pools** stores in those that are reached. -/
theorem initPools_staysIn :
    StaysIn μ (initPools μ.os μ.size pools n k (poolCursor pools addr k) chan) ↔
      PoolsStayIn μ pools addr k n := by
  induction n generalizing k chan with
  | zero => exact iff_of_true (staysIn_pure _) alongLoop_zero
  | succ n ih =>
    rw [initPools, staysIn_bind, ipcBufPoolInit_staysIn, poolsStayIn_succ]
    refine and_congr_right (fun _ => ⟨fun h hlet => ?_, fun h r hr => ?_⟩)
    · obtain ⟨pool, hret⟩ := hlet.returns (chan.pools k) k
      have hsize := ((ipcBufPoolInit_outcome hret).2 rfl).2.2
      have hrest := h _ hret
      dsimp only at hrest hsize
      rw [if_neg (not_not.mpr rfl), hsize] at hrest
      exact ih.mp hrest
    · obtain ⟨err, pool⟩ := r
      dsimp only
      split
      · exact staysIn_pure _
      · rename_i he
        obtain ⟨hlet, -, hsize⟩ := (ipcBufPoolInit_outcome hr).2 (not_not.mp he)
        dsimp only at hsize
        rw [hsize]
        exact ih.mpr (h hlet)

/-- What the loop leaves, if it stays in the window: the pointer of a pool is
what it was or points to a header in the window. -/
structure PoolsOutcome (μ : ShmMap) (pools : ℕ → IpcShmPoolCfg) (addr : IpcShmPoolAddr)
    (k n : ℕ) (chan : IpcManagedChannel) (r : ℤ × IpcManagedChannel) : Prop where
  bdQueue_eq : r.2.bdQueue = chan.bdQueue
  numPools_eq : r.2.numPools = chan.numPools
  pool_eq : ∀ q, q < k → r.2.pools q = chan.pools q
  pushRing : ∀ q, (r.2.pools q).bdQueue.pushRing = (chan.pools q).bdQueue.pushRing ∨
    InWindow μ (r.2.pools q).bdQueue.pushRing 16
  passed : r.1 = 0 → ∀ q, k ≤ q → q < k + n →
    (pools q).LetThrough μ (poolCursor pools addr q) ∧ (r.2.pools q).shmSize = (pools q).size32 ∧
      InWindow μ (r.2.pools q).bdQueue.pushRing 16

theorem initPools_outcome (hstay : PoolsStayIn μ pools addr k n) {r : ℤ × IpcManagedChannel}
    (h : (initPools μ.os μ.size pools n k (poolCursor pools addr k) chan).Returns (Env μ) r) :
    PoolsOutcome μ pools addr k n chan r := by
  induction n generalizing k chan with
  | zero =>
    obtain rfl := h
    exact ⟨rfl, rfl, fun _ _ => rfl, fun _ => Or.inl rfl, fun _ q hlo hhi => absurd hhi (by omega)⟩
  | succ n ih =>
    obtain ⟨hfirst, hnext⟩ := poolsStayIn_succ.mp hstay
    rw [initPools] at h
    obtain ⟨⟨err, pool⟩, hpool, hrest⟩ := Program.returns_bind.mp h
    obtain ⟨hptr, hok⟩ := ipcBufPoolInit_outcome hpool
    dsimp only at hptr hok hrest
    have hself : (chan.setPool k pool).pools k = pool := Function.update_self ..
    have hother : ∀ q, q ≠ k → (chan.setPool k pool).pools q = chan.pools q := fun q hq =>
      Function.update_of_ne hq _ _
    have hptr' : ∀ q, ((chan.setPool k pool).pools q).bdQueue.pushRing
          = (chan.pools q).bdQueue.pushRing ∨
        InWindow μ ((chan.setPool k pool).pools q).bdQueue.pushRing 16 := by
      intro q
      by_cases hq : q = k
      · subst hq
        rw [hself]
        rcases hptr with heq | ⟨hopen, heq⟩
        · exact Or.inl heq
        · rw [heq]
          exact Or.inr (hfirst hopen).1
      · exact Or.inl (by rw [hother q hq])
    split at hrest
    · rename_i he
      obtain rfl := hrest
      exact ⟨rfl, rfl, fun q hq => hother q (Nat.ne_of_lt hq), hptr', fun h0 => absurd h0 he⟩
    · rename_i he
      obtain ⟨hlet, hring, hsize⟩ := hok (not_not.mp he)
      rw [hsize] at hrest
      have hout := ih (hnext hlet) hrest
      refine ⟨hout.bdQueue_eq, hout.numPools_eq, fun q hq => ?_, fun q => ?_,
        fun h0 q hlo hhi => ?_⟩
      · rw [hout.pool_eq q (by omega), hother q (Nat.ne_of_lt hq)]
      · rcases hout.pushRing q with heq | hin
        · rw [heq]
          exact hptr' q
        · exact Or.inr hin
      · rcases Nat.eq_or_lt_of_le hlo with rfl | hlt
        · rw [hout.pool_eq k (by omega), hself, hring]
          exact ⟨hlet, hsize, (hfirst hlet.opens).1⟩
        · exact hout.passed h0 q hlt (by omega)

theorem initPools_returns (chan : IpcManagedChannel) (hlet : ∀ q, k ≤ q → q < k + n →
      (pools q).LetThrough μ (poolCursor pools addr q)) :
    ∃ chan', (initPools μ.os μ.size pools n k (poolCursor pools addr k) chan).Returns (Env μ)
      (0, chan') := by
  induction n generalizing k chan with
  | zero => exact ⟨chan, rfl⟩
  | succ n ih =>
    obtain ⟨pool, hret⟩ := (hlet k (Nat.le_refl k) (by omega)).returns (chan.pools k) k
    have hsize := ((ipcBufPoolInit_outcome hret).2 rfl).2.2
    obtain ⟨chan', hrest⟩ := ih (k := k + 1) (chan.setPool k pool)
      (fun q hlo hhi => hlet q (by omega) (by omega))
    refine ⟨chan', ?_⟩
    rw [initPools]
    refine hret.bind ?_
    dsimp only at hsize ⊢
    rw [if_neg (not_not.mpr rfl), hsize]
    exact hrest

end Pools

/-! ## Managed channels -/

/-- The cleanup of a failed initialization finds the pointer of the queue `NULL`
or pointing to a header in the window. -/
def IpcQueue.ClearsIn (q : IpcQueue) (μ : ShmMap) : Prop :=
  q.pushRing = 0 ∨ InWindow μ q.pushRing 16

/-- The cleanup of a managed channel stays in the window. Of a channel without a
queue the pools are not looked at. -/
def IpcManagedChannel.ClearsIn (c : IpcManagedChannel) (μ : ShmMap) : Prop :=
  c.bdQueue.ClearsIn μ ∧
    (c.bdQueue.pushRing ≠ 0 → ∀ p, p < c.numPools → (c.pools p).bdQueue.ClearsIn μ)

namespace IpcShmManagedCfg

variable (m : IpcShmManagedCfg) (μ : ShmMap) (addr : IpcShmPoolAddr)

/-- The pools that are configured. -/
def poolCfg : ℕ → IpcShmPoolCfg := m.pools.getD (fun _ => ⟨0, 0⟩)

/-- The buffers are counted: there are a callback and pools, and not too many. -/
def Counts : Prop := m.rxCb ≠ 0 ∧ m.pools ≠ none ∧ m.numPools.toNat ≤ ipcShmMaxPools

/-- The number of buffers, or `0` where the pools are refused. -/
def bufs : ℕ := totalBufs m.poolCfg m.numPools.toNat 0 0 0

/-- The ring of the channel is opened. -/
def Opens : Prop :=
  m.Counts ∧ m.bufs ≠ 0 ∧ addr.localPoolShm ≠ 0 ∧ addr.remotePoolShm ≠ 0

/-- The addresses behind the ring. -/
def firstPool : IpcShmPoolAddr := addr.plus (ringBytes m.bufs)

/-- The check of the end of the ring passes. -/
def RingFits : Prop := (m.firstPool addr).localPoolShm ≤ μ.localShm + μ.size

/-- **The channel can be accepted**: its ring is opened, and all checks of ends
pass. -/
def Passes : Prop :=
  m.Opens addr ∧ m.RingFits μ addr ∧ ∀ p, p < m.numPools.toNat →
    (m.poolCfg p).LetThrough μ (poolCursor m.poolCfg (m.firstPool addr) p)

/-- **Where a managed channel is written**: the header of its ring, if it is
opened, and the pools that are reached. -/
def StaysIn : Prop :=
  m.Opens addr → InWindow μ addr.localPoolShm 16 ∧
    (m.RingFits μ addr → PoolsStayIn μ m.poolCfg (m.firstPool addr) 0 m.numPools.toNat)

/-- The parameters that counting the buffers saves. -/
def saved (chan : IpcManagedChannel) : IpcManagedChannel :=
  { chan with rxCb := m.rxCb, cbArg := m.cbArg, numPools := m.numPools.toNat }

/-- **The pointers of a channel that fails**, which the cleanup follows: all the
old ones, if it was not opened, and otherwise the old ones of the pools. -/
def LeavesClear (chan : IpcManagedChannel) : Prop :=
  (¬m.Counts → chan.ClearsIn μ) ∧
  (m.Counts → ¬m.Opens addr → (m.saved chan).ClearsIn μ) ∧
  (m.Opens addr → ∀ p, p < m.numPools.toNat → (chan.pools p).bdQueue.ClearsIn μ)

/-- The size that the driver computes for the channel. -/
def size32 : ℕ :=
  (List.range m.numPools.toNat).foldl (fun size p => u32 (size + (m.poolCfg p).size32))
    (ringBytes m.bufs)

/-- The queue data of a channel. -/
def queueData : IpcQueueData where
  elemSize := sizeofIpcShmBd
  elemNum := u16 m.bufs
  queueType := .channelQueue
  pushAddr := addr.localPoolShm
  popAddr := addr.remotePoolShm

end IpcShmManagedCfg

section Managed

variable {μ : ShmMap} {addr : IpcShmPoolAddr} {m : IpcShmManagedCfg} {chan : IpcManagedChannel}

theorem IpcShmManagedCfg.bufs_lt (h : m.bufs ≠ 0) :
    u16 m.bufs = m.bufs ∧ m.bufs + 1 < 2 ^ 16 := by
  obtain ⟨heq, hle, hu⟩ := totalBufs_of_ne h
  have heq : m.bufs = bufsOf m.poolCfg m.numPools.toNat := heq
  rw [heq]
  exact ⟨hu, Nat.lt_of_le_of_lt (Nat.succ_le_succ hle) (by decide)⟩

theorem IpcShmManagedCfg.queueData_opens (addr : IpcShmPoolAddr) (hcounts : m.Counts)
    (hbufs : m.bufs ≠ 0) :
    (m.queueData addr).Opens ↔ m.Opens addr := by
  unfold IpcQueueData.Opens queueData Opens
  dsimp only
  rw [(IpcShmManagedCfg.bufs_lt hbufs).1]
  tauto

theorem managedChannelInit_of_not_counts (h : ¬m.Counts) (a b : ℕ) :
    managedChannelInit μ.os μ.size chan a b m = .pure (-EINVAL, chan) := by
  unfold managedChannelInit
  by_cases hcb : m.rxCb = 0
  · exact if_pos hcb
  rw [if_neg hcb]
  cases hpools : m.pools with
  | none => rfl
  | some pools =>
    exact if_pos (Nat.lt_of_not_le (fun hle => h ⟨hcb, by rw [hpools]; exact nofun, hle⟩))

/-- What `managed_channel_init` does once the buffers are counted. -/
def initCounted (μ : ShmMap) (m : IpcShmManagedCfg) (addr : IpcShmPoolAddr)
    (chan : IpcManagedChannel) : Drv (ℤ × IpcManagedChannel) := do
  let (err, q) ← initChannelQueue chan.bdQueue (m.queueData addr)
  if err ≠ 0 then
    return (err, { m.saved chan with bdQueue := q })
  else if u64 (μ.os.localShm + μ.size) < (addr.plus (ipcQueueMemSize q)).localPoolShm then
    return (-ENOMEM, { m.saved chan with bdQueue := q })
  else
    initPools μ.os μ.size m.poolCfg m.numPools.toNat 0 (addr.plus (ipcQueueMemSize q))
      { m.saved chan with bdQueue := q }

theorem managedChannelInit_of_counts (h : m.Counts) :
    managedChannelInit μ.os μ.size chan addr.localPoolShm addr.remotePoolShm m
      = if m.bufs = 0 then .pure (-EINVAL, m.saved chan) else initCounted μ m addr chan := by
  obtain ⟨hcb, hpools, hnum⟩ := h
  obtain ⟨pools, hpools⟩ := Option.ne_none_iff_exists'.mp hpools
  have hcfg : m.poolCfg = pools := by rw [IpcShmManagedCfg.poolCfg, hpools]; rfl
  unfold managedChannelInit initCounted IpcShmManagedCfg.queueData IpcShmManagedCfg.bufs
  rw [if_neg hcb, hpools]
  dsimp only
  rw [if_neg (Nat.not_lt.mpr hnum), hcfg]
  rfl

/-- The memory of the ring. -/
theorem IpcShmManagedCfg.memSize_eq (addr : IpcShmPoolAddr) (hbufs : m.bufs ≠ 0) :
    ipcQueueMemSize (m.queueData addr).mapped = ringBytes m.bufs := by
  obtain ⟨hu, hlt⟩ := IpcShmManagedCfg.bufs_lt hbufs
  show u32 (16 + u32 (u16 (u16 m.bufs + 1) * 8)) = 16 + (m.bufs + 1) * 8
  rw [hu, u16_of_lt hlt, u32_of_lt (show (m.bufs + 1) * 8 < 2 ^ 32 by omega), u32_of_lt (by omega)]

theorem IpcShmManagedCfg.ringFits_iff : m.RingFits μ addr ↔
    ¬u64 (μ.os.localShm + μ.size) < (addr.plus (ringBytes m.bufs)).localPoolShm := by
  rw [show u64 (μ.os.localShm + μ.size) = μ.localShm + μ.size from u64_of_lt μ.localShm_lt,
    Nat.not_lt]
  rfl

/-- **`managed_channel_init`** stores the header of the ring before it compares
the end of the ring with the end of the window. -/
theorem managedChannelInit_staysIn :
    StaysIn μ (managedChannelInit μ.os μ.size chan addr.localPoolShm addr.remotePoolShm m) ↔
      m.StaysIn μ addr := by
  by_cases hcounts : m.Counts
  case neg =>
    rw [managedChannelInit_of_not_counts hcounts]
    exact iff_of_true (staysIn_pure _) (fun h => absurd h.1 hcounts)
  rw [managedChannelInit_of_counts hcounts]
  by_cases hbufs : m.bufs = 0
  · rw [if_pos hbufs]
    exact iff_of_true (staysIn_pure _) (fun h => absurd hbufs h.2.1)
  rw [if_neg hbufs]
  obtain ⟨hu, hlt⟩ := IpcShmManagedCfg.bufs_lt hbufs
  have hnum : (m.queueData addr).elemNum + 1 < 2 ^ 16 := by
    show u16 m.bufs + 1 < 2 ^ 16
    rwa [hu]
  have hopens := IpcShmManagedCfg.queueData_opens addr hcounts hbufs
  have hmem := IpcShmManagedCfg.memSize_eq addr hbufs
  unfold initCounted IpcShmManagedCfg.StaysIn
  rw [staysIn_bind, initChannelQueue_staysIn rfl hnum, hopens]
  constructor
  · rintro ⟨hinit, hrest⟩ hopen
    refine ⟨hinit hopen, fun hfits => ?_⟩
    replace hrest := hrest _ (initChannelQueue_returns rfl (hopens.mpr hopen))
    dsimp only at hrest
    rw [if_neg (not_not.mpr rfl), hmem, if_neg (IpcShmManagedCfg.ringFits_iff.mp hfits)] at hrest
    exact initPools_staysIn.mp hrest
  · intro h
    refine ⟨fun hopen => (h hopen).1, ?_⟩
    rintro ⟨err, q⟩ hr
    dsimp only
    split
    · exact staysIn_pure _
    rename_i he
    obtain ⟨-, heq⟩ | ⟨hopen, hmap⟩ := initChannelQueue_outcome rfl hr
    · exact absurd (Prod.mk.inj heq).1 (by rw [not_not.mp he]; decide)
    obtain rfl : q = (m.queueData addr).mapped := hmap
    rw [hmem]
    split
    · exact staysIn_pure _
    · rename_i hcheck
      exact initPools_staysIn.mpr
        ((h (hopens.mp hopen)).2 (IpcShmManagedCfg.ringFits_iff.mpr hcheck))

/-- **What `managed_channel_init` leaves**, if it stays in the window. -/
theorem managedChannelInit_outcome (hstay : m.StaysIn μ addr) {r : ℤ × IpcManagedChannel}
    (h : (managedChannelInit μ.os μ.size chan addr.localPoolShm addr.remotePoolShm m).Returns
      (Env μ) r) :
    (m.LeavesClear μ addr chan → r.2.ClearsIn μ) ∧
      (r.1 = 0 → m.Passes μ addr ∧ r.2.ClearsIn μ ∧
        r.2.bdQueue = (m.queueData addr).mapped ∧ r.2.numPools = m.numPools.toNat ∧
        ∀ p, p < m.numPools.toNat → (r.2.pools p).shmSize = (m.poolCfg p).size32) := by
  have hinval : -EINVAL ≠ 0 := by decide
  by_cases hcounts : m.Counts
  case neg =>
    rw [managedChannelInit_of_not_counts hcounts] at h
    obtain rfl := h
    exact ⟨fun hl => hl.1 hcounts, fun h0 => absurd h0 hinval⟩
  rw [managedChannelInit_of_counts hcounts] at h
  by_cases hbufs : m.bufs = 0
  · rw [if_pos hbufs] at h
    obtain rfl := h
    exact ⟨fun hl => hl.2.1 hcounts (fun ho => ho.2.1 hbufs), fun h0 => absurd h0 hinval⟩
  rw [if_neg hbufs] at h
  have hopens := IpcShmManagedCfg.queueData_opens addr hcounts hbufs
  have hmem := IpcShmManagedCfg.memSize_eq addr hbufs
  unfold initCounted at h
  obtain ⟨⟨err, q⟩, hinit, hrest⟩ := Program.returns_bind.mp h
  have hq := initChannelQueue_outcome rfl hinit
  rw [hopens] at hq
  obtain ⟨hopen, heq⟩ | ⟨hopen, hmap⟩ := hq
  · -- the addresses are refused
    obtain ⟨rfl, rfl⟩ := Prod.mk.inj heq
    dsimp only at hrest
    rw [if_pos hinval] at hrest
    obtain rfl := hrest
    exact ⟨fun hl => hl.2.1 hcounts hopen, fun h0 => absurd h0 hinval⟩
  obtain rfl : q = (m.queueData addr).mapped := hmap
  obtain ⟨hhead, hpools⟩ := hstay hopen
  -- from here on the ring of the channel is in the window, whatever becomes of the pools
  have hclears : ∀ c : IpcManagedChannel, c.bdQueue = (m.queueData addr).mapped →
      c.numPools = m.numPools.toNat →
      (∀ p, p < m.numPools.toNat → (c.pools p).bdQueue.ClearsIn μ) → c.ClearsIn μ := by
    intro c hc hn hps
    refine ⟨Or.inr ?_, fun _ p hp => hps p (hn ▸ hp)⟩
    rw [hc]
    exact hhead
  dsimp only at hrest
  split at hrest
  · rename_i he
    obtain rfl := hrest
    exact ⟨fun hl => hclears _ rfl rfl (hl.2.2 hopen), fun h0 => absurd h0 he⟩
  rw [hmem] at hrest
  split at hrest
  · obtain rfl := hrest
    exact ⟨fun hl => hclears _ rfl rfl (hl.2.2 hopen),
      fun h0 => absurd h0 (show -ENOMEM ≠ 0 by decide)⟩
  rename_i hcheck
  have hfits := IpcShmManagedCfg.ringFits_iff.mpr hcheck
  have hout := initPools_outcome (hpools hfits) hrest
  refine ⟨fun hl => hclears _ hout.bdQueue_eq hout.numPools_eq (fun p hp => ?_), fun h0 => ?_⟩
  · rcases hout.pushRing p with heq | hin
    · have hold := hl.2.2 hopen p hp
      unfold IpcQueue.ClearsIn at hold ⊢
      rwa [heq]
    · exact Or.inr hin
  · have hpass := fun p (hp : p < m.numPools.toNat) =>
      hout.passed h0 p (Nat.zero_le p) (by omega)
    exact ⟨⟨hopen, hfits, fun p hp => (hpass p hp).1⟩,
      hclears _ hout.bdQueue_eq hout.numPools_eq (fun p hp => Or.inr (hpass p hp).2.2),
      hout.bdQueue_eq, hout.numPools_eq, fun p hp => (hpass p hp).2.1⟩

/-- **A managed channel can fail at once**, and leave the pointers that were
there. -/
theorem managedChannelInit_fails (m : IpcShmManagedCfg) (chan : IpcManagedChannel) :
    ∃ err chan', err ≠ 0 ∧
      (managedChannelInit μ.os μ.size chan addr.localPoolShm addr.remotePoolShm m).Returns (Env μ)
        (err, chan') ∧ (chan'.ClearsIn μ → m.LeavesClear μ addr chan) := by
  have hinval : -EINVAL ≠ 0 := by decide
  by_cases hcounts : m.Counts
  case neg =>
    rw [managedChannelInit_of_not_counts hcounts]
    exact ⟨_, _, hinval, rfl, fun hc => ⟨fun _ => hc, fun h => absurd h hcounts,
      fun h => absurd h.1 hcounts⟩⟩
  rw [managedChannelInit_of_counts hcounts]
  by_cases hbufs : m.bufs = 0
  · rw [if_pos hbufs]
    exact ⟨_, _, hinval, rfl, fun hc => ⟨fun h => absurd hcounts h, fun _ _ => hc,
      fun h => absurd hbufs h.2.1⟩⟩
  rw [if_neg hbufs]
  have hopens := IpcShmManagedCfg.queueData_opens addr hcounts hbufs
  unfold initCounted
  by_cases hopen : m.Opens addr
  · -- the remote is initializing the ring
    refine ⟨_, _, (show -EAGAIN ≠ 0 by decide),
      (initChannelQueue_again rfl (hopens.mpr hopen)).bind rfl,
      fun hc => ⟨fun h => absurd hcounts h, fun _ h => absurd hopen h,
        fun _ p hp => hc.2 hopen.2.2.1 p hp⟩⟩
  · have hret : (initChannelQueue chan.bdQueue (m.queueData addr)).Returns (Env μ)
        (-EINVAL, chan.bdQueue) := by
      unfold initChannelQueue
      rw [ipcQueueInit_of_not_opens rfl (fun h => hopen (hopens.mp h))]
      exact rfl
    exact ⟨_, _, hinval, hret.bind rfl, fun hc => ⟨fun h => absurd hcounts h, fun _ _ => hc,
      fun h => absurd h hopen⟩⟩

/-- A managed channel that passes the checks can be accepted. -/
theorem IpcShmManagedCfg.Passes.returns (h : m.Passes μ addr) (chan : IpcManagedChannel) :
    ∃ chan', (managedChannelInit μ.os μ.size chan addr.localPoolShm addr.remotePoolShm m).Returns
      (Env μ) (0, chan') := by
  obtain ⟨hopen, hfits, hpools⟩ := h
  obtain ⟨chan', hret⟩ := initPools_returns (k := 0) (n := m.numPools.toNat)
    { m.saved chan with bdQueue := (m.queueData addr).mapped }
    (fun q _ hq => hpools q (by omega))
  refine ⟨chan', ?_⟩
  rw [managedChannelInit_of_counts hopen.1, if_neg hopen.2.1]
  unfold initCounted
  refine (initChannelQueue_returns rfl
    ((IpcShmManagedCfg.queueData_opens addr hopen.1 hopen.2.1).mpr hopen)).bind ?_
  dsimp only
  rw [if_neg (not_not.mpr rfl), IpcShmManagedCfg.memSize_eq addr hopen.2.1,
    if_neg (IpcShmManagedCfg.ringFits_iff.mp hfits)]
  exact hret

end Managed

/-! ## Unmanaged channels -/

namespace IpcShmUnmanagedCfg

variable (u : IpcShmUnmanagedCfg) (μ : ShmMap) (addr : IpcShmPoolAddr)

/-- The channel is opened: there is a callback, and the memory is not too
large. The window is not looked at. -/
def Opens : Prop := u.rxCb ≠ 0 ∧ u.size.toNat ≤ ipcShmMaxUmngSize

/-- **Where an unmanaged channel is written**: the sentinel and the two
counters. -/
def StaysIn : Prop := u.Opens → InWindow μ addr.localPoolShm 12

/-- The channel that is mapped then. -/
def mapped (chan : IpcShmChannel) : IpcShmChannel :=
  { chan with
    umng := { size := u.size.toNat, rxCb := u.rxCb, cbArg := u.cbArg }
    mng := { chan.mng with bdQueue := { chan.mng.bdQueue with
      pushRing := addr.localPoolShm, popRing := addr.remotePoolShm } } }

/-- The size that the driver computes for the channel. -/
def size32 : ℕ := u32 (sizeofIpcChannelUmem + u.size.toNat)

end IpcShmUnmanagedCfg

section Unmanaged

variable {μ : ShmMap} {addr : IpcShmPoolAddr} {u : IpcShmUnmanagedCfg} {chan : IpcShmChannel}

theorem unmanagedChannelInit_of_not_opens (h : ¬u.Opens) (a b : ℕ) :
    unmanagedChannelInit chan a b u = .pure (-EINVAL, chan) := by
  unfold IpcShmUnmanagedCfg.Opens at h
  exact if_pos (by omega)

/-- **`unmanaged_channel_init`** stores the header of a channel that it opens. -/
theorem unmanagedChannelInit_staysIn :
    StaysIn μ (unmanagedChannelInit chan addr.localPoolShm addr.remotePoolShm u) ↔
      u.StaysIn μ addr := by
  by_cases hopen : u.Opens
  case neg =>
    rw [unmanagedChannelInit_of_not_opens hopen]
    exact iff_of_true (staysIn_pure _) (fun h => absurd h hopen)
  have hargs : ¬(u.rxCb = 0 ∨ ipcShmMaxUmngSize < u.size.toNat) :=
    not_or.mpr ⟨hopen.1, Nat.not_lt.mpr hopen.2⟩
  unfold unmanagedChannelInit
  rw [if_neg hargs]
  constructor
  · -- the remote sentinel reads clear both times
    intro h _
    replace h := staysIn_load32.mp h 0 (by decide)
    rw [if_neg (by decide)] at h
    obtain ⟨hfirst, h⟩ := staysIn_store32.mp h
    replace h := staysIn_load32.mp h 0 (by decide)
    rw [if_neg (by decide)] at h
    obtain ⟨-, h⟩ := staysIn_store32.mp h
    exact hfirst.span (staysIn_store32.mp h).1 rfl
  · intro h
    have hin := h hopen
    refine always_load32 (fun v _ => ?_)
    split
    · trivial
    refine always_store32 (hin.start (by decide)) (always_load32 (fun v _ => ?_))
    split
    · exact always_load32 (fun _ _ => always_store32 (hin.part (by decide)) (always_load32
        (fun _ _ => always_store32 (hin.part (by decide))
          (always_store32 (hin.start (by decide)) trivial))))
    · exact always_store32 (hin.part (by decide)) (always_store32 (hin.part (by decide))
        (always_store32 (hin.start (by decide)) trivial))

/-- It leaves the channel alone, or maps it. -/
theorem unmanagedChannelInit_outcome {r : ℤ × IpcShmChannel}
    (h : (unmanagedChannelInit chan addr.localPoolShm addr.remotePoolShm u).Returns (Env μ) r) :
    ¬u.Opens ∧ r = (-EINVAL, chan) ∨ u.Opens ∧ r.2 = u.mapped addr chan := by
  by_cases hopen : u.Opens
  case neg =>
    rw [unmanagedChannelInit_of_not_opens hopen] at h
    exact Or.inl ⟨hopen, h.symm⟩
  refine Or.inr ⟨hopen, ?_⟩
  unfold unmanagedChannelInit at h
  rw [if_neg (not_or.mpr ⟨hopen.1, Nat.not_lt.mpr hopen.2⟩)] at h
  obtain ⟨v, -, h⟩ := Program.returns_bind.mp h
  split at h
  · obtain rfl := h
    rfl
  obtain ⟨_, -, h⟩ := Program.returns_bind.mp h
  obtain ⟨w, -, h⟩ := Program.returns_bind.mp h
  split at h
  · obtain ⟨_, -, h⟩ := Program.returns_bind.mp h
    obtain ⟨_, -, h⟩ := Program.returns_bind.mp h
    obtain ⟨_, -, h⟩ := Program.returns_bind.mp h
    obtain ⟨_, -, h⟩ := Program.returns_bind.mp h
    obtain ⟨_, -, h⟩ := Program.returns_bind.mp h
    obtain rfl := h
    rfl
  · obtain ⟨_, -, h⟩ := Program.returns_bind.mp h
    obtain ⟨_, -, h⟩ := Program.returns_bind.mp h
    obtain ⟨_, -, h⟩ := Program.returns_bind.mp h
    obtain rfl := h
    rfl

/-- The remote may be initializing the channel, or have it cleared. -/
theorem IpcShmUnmanagedCfg.Opens.returns (h : u.Opens) (chan : IpcShmChannel) :
    (unmanagedChannelInit chan addr.localPoolShm addr.remotePoolShm u).Returns (Env μ)
        (-EAGAIN, u.mapped addr chan) ∧
      (unmanagedChannelInit chan addr.localPoolShm addr.remotePoolShm u).Returns (Env μ)
        (0, u.mapped addr chan) := by
  have hlt : ipcShmUchanInitInProgress < 256 ^ 4 := by decide
  unfold unmanagedChannelInit
  rw [if_neg (not_or.mpr ⟨h.1, Nat.not_lt.mpr h.2⟩)]
  exact ⟨⟨ipcShmUchanInitInProgress, hlt, rfl⟩, ⟨0, env_load_zero _ _ _, (), trivial, 0,
    env_load_zero _ _ _, (), trivial, (), trivial, (), trivial, rfl⟩⟩

end Unmanaged

/-! ## The cleanup -/

/-- The cleanup of a channel, read as one of the given type, stays in the
window. -/
def IpcShmChannel.ClearsIn (chan : IpcShmChannel) (μ : ShmMap) : IpcShmChannelType → Prop
  | .managed => chan.mng.ClearsIn μ
  | .unmanaged => chan.localMem = 0 ∨ InWindow μ chan.localMem 12
  | .invalid => True

section Cleanup

variable {μ : ShmMap} {q : IpcQueue} {a n k : ℕ}

theorem ringIsLive_staysIn : StaysIn μ (ringIsLive a) := by
  refine always_load64 (fun v => ?_)
  split
  · trivial
  · exact always_load64 (fun _ => trivial)

/-- What is left in memory may look like a ring, or not. -/
theorem ringIsLive_returns (live : Bool) : (ringIsLive a).Returns (Env μ) live := by
  have hdone : ipcQueueInitDone < 256 ^ 8 := by decide
  cases live with
  | true => exact ⟨ipcQueueInitDone, hdone, rfl⟩
  | false => exact ⟨0, env_load_zero _ _ _, 0, env_load_zero _ _ _, rfl⟩

theorem ipcQueueFree_staysIn : StaysIn μ (ipcQueueFree q) ↔ q.ClearsIn μ := by
  unfold ipcQueueFree IpcQueue.ClearsIn
  by_cases hq : q.pushRing = 0
  · rw [if_pos hq]
    exact iff_of_true (staysIn_pure _) (Or.inl hq)
  rw [if_neg hq, staysIn_bind, or_iff_right hq]
  constructor
  · rintro ⟨-, h⟩
    obtain ⟨hfirst, h⟩ := staysIn_store64.mp (h true (ringIsLive_returns true))
    obtain ⟨-, h⟩ := staysIn_store32.mp h
    exact hfirst.span (staysIn_store32.mp h).1 rfl
  · intro h
    refine ⟨ringIsLive_staysIn, fun live _ => ?_⟩
    cases live with
    | false => exact staysIn_pure _
    | true =>
      exact always_store64 (h.start (by decide)) (always_store32 (h.part (by decide))
        (always_store32 (h.part (by decide)) trivial))

/-- The loop freeing the pools. -/
theorem freePools_staysIn {c : IpcManagedChannel} : StaysIn μ (freePools n k c) ↔
    ∀ p, k ≤ p → p < k + n → (c.pools p).bdQueue.ClearsIn μ := by
  induction n generalizing k c with
  | zero => exact iff_of_true (staysIn_pure _) (fun p hlo hhi => absurd hhi (Nat.not_lt.mpr hlo))
  | succ n ih =>
    rw [freePools, forall_from_succ]
    split
    · rename_i hp
      rw [ih]
      exact (and_iff_right (Or.inl hp)).symm
    rw [staysIn_bind]
    constructor
    · rintro ⟨-, h⟩
      have hlive := h true (ringIsLive_returns true)
      exact ⟨ipcQueueFree_staysIn.mp (staysIn_bind.mp hlive).1,
        ih.mp (h false (ringIsLive_returns false))⟩
    · rintro ⟨hfirst, hrest⟩
      refine ⟨ringIsLive_staysIn, fun live _ => ?_⟩
      cases live with
      | false => exact ih.mpr hrest
      | true =>
        refine staysIn_bind.mpr ⟨ipcQueueFree_staysIn.mpr hfirst, fun q' _ => ih.mpr ?_⟩
        intro p hlo hhi
        rw [show (c.setPool k _).pools p = c.pools p from Function.update_of_ne (by omega) _ _]
        exact hrest p hlo hhi

theorem ipcShmFreeManagedChannel_staysIn {c : IpcManagedChannel} (hc : c.bdQueue.pushRing ≠ 0) :
    StaysIn μ (ipcShmFreeManagedChannel c) ↔ c.ClearsIn μ := by
  unfold ipcShmFreeManagedChannel
  rw [staysIn_bind]
  constructor
  · rintro ⟨-, h⟩
    obtain ⟨hq, h⟩ := staysIn_bind.mp (h true (ringIsLive_returns true))
    have hkeep : (ipcQueueFree c.bdQueue).Returns (Env μ) { c.bdQueue with pushRing := 0 } := by
      rw [ipcQueueFree, if_neg hc]
      exact (ringIsLive_returns false).bind rfl
    have hpools := freePools_staysIn.mp (h _ hkeep)
    exact ⟨ipcQueueFree_staysIn.mp hq, fun _ p hp => hpools p (Nat.zero_le p) (by omega)⟩
  · rintro ⟨hq, hpools⟩
    refine ⟨ringIsLive_staysIn, fun live _ => ?_⟩
    cases live with
    | false => exact staysIn_pure _
    | true =>
      exact staysIn_bind.mpr ⟨ipcQueueFree_staysIn.mpr hq, fun q' _ =>
        freePools_staysIn.mpr (fun p _ hp => hpools hc p (by omega))⟩

/-- **`ipc_shm_free_channel`** follows the pointers of the channel. -/
theorem ipcShmFreeChannel_staysIn {chan : IpcShmChannel} {type : IpcShmChannelType} :
    StaysIn μ (ipcShmFreeChannel chan type) ↔ chan.ClearsIn μ type := by
  cases type with
  | managed =>
    unfold ipcShmFreeChannel IpcShmChannel.ClearsIn
    dsimp only
    by_cases hc : chan.mng.bdQueue.pushRing = 0
    · rw [if_neg (not_not.mpr hc)]
      exact iff_of_true (staysIn_pure _) ⟨Or.inl hc, fun h => absurd hc h⟩
    · rw [if_pos hc, staysIn_bind, ipcShmFreeManagedChannel_staysIn hc]
      exact and_iff_left (fun _ _ => staysIn_pure _)
  | unmanaged =>
    unfold ipcShmFreeChannel IpcShmChannel.ClearsIn
    dsimp only
    by_cases hc : chan.localMem = 0
    · rw [if_neg (not_not.mpr hc)]
      exact iff_of_true (staysIn_pure _) (Or.inl hc)
    rw [if_pos hc, or_iff_right hc]
    constructor
    · intro h
      obtain ⟨hfirst, h⟩ := staysIn_store32.mp h
      obtain ⟨-, h⟩ := staysIn_store32.mp h
      exact hfirst.span (staysIn_store32.mp h).1 rfl
    · exact fun h => always_store32 (h.start (by decide)) (always_store32 (h.part (by decide))
        (always_store32 (h.part (by decide)) trivial))
  | invalid => exact iff_of_true (staysIn_pure _) trivial

theorem ipcShmFreeChannel_returns (chan : IpcShmChannel) (type : IpcShmChannelType) :
    ∃ chan', (ipcShmFreeChannel chan type).Returns (Env μ) chan' := by
  unfold ipcShmFreeChannel
  cases type with
  | managed =>
    dsimp only
    split
    · exact ⟨_, Program.Returns.bind (a := chan.mng) ((ringIsLive_returns false).bind rfl) rfl⟩
    · exact ⟨_, rfl⟩
  | unmanaged =>
    dsimp only
    split
    · exact ⟨_, (), trivial, (), trivial, (), trivial, rfl⟩
    · exact ⟨_, rfl⟩
  | invalid => exact ⟨_, rfl⟩

theorem freeChannels_staysIn {type : ℕ → IpcShmChannelType} {priv : IpcShmPriv} :
    StaysIn μ (freeChannels type n k priv) ↔
      ∀ c, k ≤ c → c < k + n → (priv.channels c).ClearsIn μ (type c) := by
  induction n generalizing k priv with
  | zero => exact iff_of_true (staysIn_pure _) (fun c hlo hhi => absurd hhi (Nat.not_lt.mpr hlo))
  | succ n ih =>
    have hother : ∀ (chan : IpcShmChannel) (c : ℕ), k + 1 ≤ c →
        (priv.setChannel k chan).channels c = priv.channels c := fun chan c hlo =>
      Function.update_of_ne (by omega) _ _
    rw [freeChannels, forall_from_succ, staysIn_bind, ipcShmFreeChannel_staysIn]
    refine and_congr_right (fun _ => ⟨fun h c hlo hhi => ?_, fun h chan _ => ?_⟩)
    · obtain ⟨chan, hret⟩ := ipcShmFreeChannel_returns (μ := μ) (priv.channels k) (type k)
      rw [← hother chan c hlo]
      exact ih.mp (h chan hret) c hlo hhi
    · refine ih.mpr (fun c hlo hhi => ?_)
      rw [hother chan c hlo]
      exact h c hlo hhi

/-- **The cleanup of a failed initialization** follows the pointers of all
channels that are configured, also of those that were not reached. -/
theorem freeConfiguredChannels_staysIn {cfg : IpcShmCfg} {priv : IpcShmPriv} :
    StaysIn μ (freeConfiguredChannels cfg.channels priv) ↔
      ∀ c, c < priv.numChannels → (priv.channels c).ClearsIn μ (cfg.chan c).type := by
  unfold freeConfiguredChannels IpcShmCfg.chan
  cases cfg.channels with
  | none => exact iff_of_true (staysIn_pure _) (fun _ _ => trivial)
  | some f =>
    dsimp only
    rw [freeChannels_staysIn, Nat.zero_add]
    exact ⟨fun h c hc => h c (Nat.zero_le c) hc, fun h c _ hc => h c hc⟩

end Cleanup

/-! ## Channels -/

namespace IpcShmChannelCfg

variable (μ : ShmMap) (addr : IpcShmPoolAddr)

/-- **Where a channel is written.** -/
def StaysIn : IpcShmChannelCfg → Prop
  | .managed m => m.StaysIn μ addr
  | .unmanaged u => u.StaysIn μ addr
  | .invalid => True

/-- **The channel can be accepted.** -/
def Passes : IpcShmChannelCfg → Prop
  | .managed m => m.Passes μ addr
  | .unmanaged u => u.Opens
  | .invalid => False

/-- The pointers of a channel that fails, which the cleanup follows. -/
def LeavesClear (chan : IpcShmChannel) : IpcShmChannelCfg → Prop
  | .managed m => m.LeavesClear μ addr chan.mng
  | .unmanaged u => ¬u.Opens → chan.ClearsIn μ .unmanaged
  | .invalid => True

/-- The size that the driver computes for a channel. -/
def size32 : IpcShmChannelCfg → ℕ
  | .managed m => m.size32
  | .unmanaged u => u.size32
  | .invalid => 0

end IpcShmChannelCfg

section Channels

variable {μ : ShmMap} {addr : IpcShmPoolAddr} {chan : IpcShmChannel} {chanId : ℕ}
  {o : Option IpcShmChannelCfg}

/-- **`ipc_shm_init_channels`** stores what its type asks for. Where there is no
configuration, nothing is stored. -/
theorem ipcShmInitChannels_staysIn :
    StaysIn μ (ipcShmInitChannels μ.os μ.size chan chanId addr.localPoolShm addr.remotePoolShm o) ↔
      (o.getD .invalid).StaysIn μ addr := by
  cases o with
  | none => exact iff_of_true (staysIn_pure _) trivial
  | some cfg =>
    cases cfg with
    | managed m =>
      exact staysIn_bind.trans ((and_iff_left (fun _ _ => staysIn_pure _)).trans
        managedChannelInit_staysIn)
    | unmanaged u => exact unmanagedChannelInit_staysIn
    | invalid => exact iff_of_true (staysIn_pure _) trivial

/-- **What `ipc_shm_init_channels` leaves**, if it stays in the window. -/
structure ChannelLeft (cfg : IpcShmChannelCfg) (μ : ShmMap) (addr : IpcShmPoolAddr)
    (chan : IpcShmChannel) (r : ℤ × IpcShmChannel) : Prop where
  clears : cfg.LeavesClear μ addr chan → r.2.ClearsIn μ cfg.type
  passes : r.1 = 0 → cfg.Passes μ addr
  size_eq : r.1 = 0 → getChanMemmapSize r.2 = cfg.size32
  localMem_eq : r.1 = 0 → ∀ u, cfg = .unmanaged u → r.2.localMem = addr.localPoolShm
  accepted : r.1 = 0 → r.2.ClearsIn μ cfg.type

theorem ipcShmInitChannels_outcome (hstay : (o.getD .invalid).StaysIn μ addr)
    {r : ℤ × IpcShmChannel} (h : (ipcShmInitChannels μ.os μ.size chan chanId addr.localPoolShm
      addr.remotePoolShm o).Returns (Env μ) r) :
    ChannelLeft (o.getD .invalid) μ addr chan r := by
  have hinval : -EINVAL ≠ 0 := by decide
  cases o with
  | none =>
    obtain rfl := h
    exact ⟨fun _ => trivial, fun h0 => absurd h0 hinval, fun h0 => absurd h0 hinval,
      fun h0 => absurd h0 hinval, fun h0 => absurd h0 hinval⟩
  | some cfg =>
    cases cfg with
    | managed m =>
      obtain ⟨⟨err, mng⟩, hinit, hret⟩ := Program.returns_bind.mp h
      obtain rfl := hret
      obtain ⟨hfail, hok⟩ := managedChannelInit_outcome hstay hinit
      refine ⟨hfail, fun h0 => (hok h0).1, fun h0 => ?_, fun _ u hu => (nomatch hu),
        fun h0 => (hok h0).2.1⟩
      obtain ⟨hpass, -, hq, hnum, hpools⟩ := hok h0
      have hq : mng.bdQueue = (m.queueData addr).mapped := hq
      have hnum : mng.numPools = m.numPools.toNat := hnum
      show (List.range mng.numPools).foldl (fun size p => u32 (size + (mng.pools p).shmSize))
        (ipcQueueMemSize mng.bdQueue) = m.size32
      rw [hnum, hq, IpcShmManagedCfg.memSize_eq addr hpass.1.2.1]
      exact List.foldl_ext _ _ _ (fun size p hp => by rw [hpools p (List.mem_range.mp hp)])
    | unmanaged u =>
      obtain ⟨hopen, rfl⟩ | ⟨hopen, hmap⟩ := unmanagedChannelInit_outcome h
      · exact ⟨fun hl => hl hopen, fun h0 => absurd h0 hinval, fun h0 => absurd h0 hinval,
          fun h0 => absurd h0 hinval, fun h0 => absurd h0 hinval⟩
      · obtain ⟨err, chan'⟩ := r
        obtain rfl := hmap
        exact ⟨fun _ => Or.inr (hstay hopen), fun _ => hopen, fun _ => rfl, fun _ _ _ => rfl,
          fun _ => Or.inr (hstay hopen)⟩
    | invalid =>
      obtain rfl := h
      exact ⟨fun _ => trivial, fun h0 => absurd h0 hinval, fun h0 => absurd h0 hinval,
        fun h0 => absurd h0 hinval, fun h0 => absurd h0 hinval⟩

/-- **Every channel can fail**, and leave the pointers that were there. -/
theorem ipcShmInitChannels_fails (o : Option IpcShmChannelCfg) (chan : IpcShmChannel)
    (chanId : ℕ) :
    ∃ err chan', err ≠ 0 ∧
      (ipcShmInitChannels μ.os μ.size chan chanId addr.localPoolShm addr.remotePoolShm o).Returns
        (Env μ) (err, chan') ∧
      (chan'.ClearsIn μ (o.getD .invalid).type → (o.getD .invalid).LeavesClear μ addr chan) := by
  have hinval : -EINVAL ≠ 0 := by decide
  cases o with
  | none => exact ⟨_, _, hinval, rfl, fun _ => trivial⟩
  | some cfg =>
    cases cfg with
    | managed m =>
      obtain ⟨err, mng, he, hret, hclear⟩ := managedChannelInit_fails m chan.mng
      exact ⟨err, _, he, hret.bind rfl, hclear⟩
    | unmanaged u =>
      by_cases hopen : u.Opens
      · exact ⟨_, _, (show -EAGAIN ≠ 0 by decide), (hopen.returns _).1,
          fun _ h => absurd hopen h⟩
      · refine ⟨-EINVAL, { chan with id := chanId, type := .unmanaged }, hinval, ?_,
          fun hc _ => hc⟩
        unfold ipcShmInitChannels
        dsimp only
        rw [unmanagedChannelInit_of_not_opens hopen]
        exact rfl
    | invalid => exact ⟨_, _, hinval, rfl, fun _ => trivial⟩

/-- A channel that passes can be accepted. -/
theorem ipcShmInitChannels_passes (h : (o.getD .invalid).Passes μ addr) (chan : IpcShmChannel)
    (chanId : ℕ) :
    ∃ chan', (ipcShmInitChannels μ.os μ.size chan chanId addr.localPoolShm addr.remotePoolShm
      o).Returns (Env μ) (0, chan') := by
  cases o with
  | none => exact h.elim
  | some cfg =>
    cases cfg with
    | managed m =>
      obtain ⟨mng, hret⟩ := IpcShmManagedCfg.Passes.returns h chan.mng
      exact ⟨_, hret.bind rfl⟩
    | unmanaged u => exact ⟨_, (IpcShmUnmanagedCfg.Opens.returns h _).2⟩
    | invalid => exact h.elim

end Channels
/-! ## The loop over the channels -/

namespace IpcShmCfg

variable (cfg : IpcShmCfg) (μ : ShmMap)

/-- **The addresses of the channels**, as the driver computes them. -/
def cursor : ℕ → IpcShmPoolAddr
  | 0 => IpcShmPoolAddr.plus ⟨μ.localShm, μ.remoteShm⟩ sizeofIpcShmGlobal
  | c + 1 => (cursor c).plus (cfg.chan c).size32

/-- **The channel can be reached**: all channels before it can be accepted. -/
def Reaches (c : ℕ) : Prop := ∀ c', c' < c → (cfg.chan c').Passes μ (cfg.cursor μ c')

end IpcShmCfg

section Walk

variable {μ : ShmMap} {cfg : IpcShmCfg} {priv : IpcShmPriv} {n k : ℕ}

/-- The channels from `k` on. -/
def initFrom (μ : ShmMap) (cfg : IpcShmCfg) (n k : ℕ) (priv : IpcShmPriv) :
    Drv (ℤ × IpcShmPriv) :=
  initChannels μ.os cfg.channels n k (cfg.cursor μ k).localPoolShm (cfg.cursor μ k).remotePoolShm
    priv

/-- One round of the loop. -/
theorem initFrom_succ (hsize : priv.shmSize = μ.size) (n k : ℕ) :
    initFrom μ cfg (n + 1) k priv
      = (ipcShmInitChannels μ.os μ.size (priv.channels k) k (cfg.cursor μ k).localPoolShm
          (cfg.cursor μ k).remotePoolShm (cfg.channels.map (fun f => f k)) >>= fun r =>
        if r.1 ≠ 0 then .pure (r.1, priv.setChannel k r.2)
        else initChannels μ.os cfg.channels n (k + 1)
          ((cfg.cursor μ k).plus (getChanMemmapSize r.2)).localPoolShm
          ((cfg.cursor μ k).plus (getChanMemmapSize r.2)).remotePoolShm
          (priv.setChannel k r.2)) := by
  rw [initFrom, initChannels, hsize]
  rfl

theorem IpcShmCfg.chan_eq_getD (cfg : IpcShmCfg) (c : ℕ) :
    (cfg.channels.map (fun f => f c)).getD .invalid = cfg.chan c := by
  unfold chan
  cases cfg.channels with
  | none => rfl
  | some f => rfl

theorem channels_setChannel_of_ne (priv : IpcShmPriv) (chan : IpcShmChannel) {c : ℕ} (hc : c ≠ k) :
    (priv.setChannel k chan).channels c = priv.channels c := Function.update_of_ne hc _ _

/-- After an accepted channel the loop is at the next one. -/
theorem initFrom_next {chan : IpcShmChannel} (h : getChanMemmapSize chan = (cfg.chan k).size32) :
    initChannels μ.os cfg.channels n (k + 1)
        ((cfg.cursor μ k).plus (getChanMemmapSize chan)).localPoolShm
        ((cfg.cursor μ k).plus (getChanMemmapSize chan)).remotePoolShm (priv.setChannel k chan)
      = initFrom μ cfg n (k + 1) (priv.setChannel k chan) := by
  rw [h]
  rfl

/-- **The loop over the channels** stores in those that are reached. -/
theorem initFrom_staysIn (hsize : priv.shmSize = μ.size) : StaysIn μ (initFrom μ cfg n k priv) ↔
    AlongLoop (fun c => (cfg.chan c).Passes μ (cfg.cursor μ c))
      (fun c => (cfg.chan c).StaysIn μ (cfg.cursor μ c)) k n := by
  induction n generalizing k priv with
  | zero => exact iff_of_true (staysIn_pure _) alongLoop_zero
  | succ n ih =>
    rw [initFrom_succ hsize, staysIn_bind, ipcShmInitChannels_staysIn, cfg.chan_eq_getD,
      alongLoop_succ]
    have hkeep : ∀ chan, (priv.setChannel k chan).shmSize = μ.size := fun _ => hsize
    refine and_congr_right (fun hstay => ?_)
    rw [← cfg.chan_eq_getD] at hstay
    constructor
    · intro h hpass
      rw [← cfg.chan_eq_getD] at hpass
      obtain ⟨chan, hret⟩ := ipcShmInitChannels_passes hpass (priv.channels k) k
      have hleft := ipcShmInitChannels_outcome hstay hret
      rw [cfg.chan_eq_getD] at hleft
      have hrest := h _ hret
      rw [if_neg (not_not.mpr rfl), initFrom_next (hleft.size_eq rfl)] at hrest
      exact (ih (hkeep chan)).mp hrest
    · intro h r hr
      have hleft := ipcShmInitChannels_outcome hstay hr
      rw [cfg.chan_eq_getD] at hleft
      split
      · exact staysIn_pure _
      · rename_i he
        rw [initFrom_next (hleft.size_eq (not_not.mp he))]
        exact (ih (hkeep r.2)).mpr (h (hleft.passes (not_not.mp he)))

/-- **What the loop leaves**, if it stays in the window. A channel can be cleaned
up, or it was not reached and is as it was. -/
structure ChannelsLeft (cfg : IpcShmCfg) (μ : ShmMap) (n k : ℕ) (priv : IpcShmPriv)
    (r : ℤ × IpcShmPriv) : Prop where
  numChannels_eq : r.2.numChannels = priv.numChannels
  global_eq : r.2.global = priv.global
  before : ∀ c, c < k → r.2.channels c = priv.channels c
  clears : ∀ c, k ≤ c → c < k + n → (r.2.channels c).ClearsIn μ (cfg.chan c).type ∨
    k < c ∧ r.2.channels c = priv.channels c
  passes : r.1 = 0 → ∀ c, k ≤ c → c < k + n → (cfg.chan c).Passes μ (cfg.cursor μ c)
  localMem_eq : r.1 = 0 → ∀ c, k ≤ c → c < k + n → ∀ u, cfg.chan c = .unmanaged u →
    (r.2.channels c).localMem = (cfg.cursor μ c).localPoolShm

theorem initFrom_outcome (hsize : priv.shmSize = μ.size)
    (hstay : AlongLoop (fun c => (cfg.chan c).Passes μ (cfg.cursor μ c))
      (fun c => (cfg.chan c).StaysIn μ (cfg.cursor μ c)) k n)
    (hclear : AlongLoop (fun c => (cfg.chan c).Passes μ (cfg.cursor μ c))
      (fun c => (cfg.chan c).LeavesClear μ (cfg.cursor μ c) (priv.channels c)) k n)
    {r : ℤ × IpcShmPriv} (h : (initFrom μ cfg n k priv).Returns (Env μ) r) :
    ChannelsLeft cfg μ n k priv r := by
  induction n generalizing k priv with
  | zero =>
    obtain rfl := h
    exact ⟨rfl, rfl, fun _ _ => rfl, fun c hlo hhi => absurd hhi (Nat.not_lt.mpr hlo),
      fun _ c hlo hhi => absurd hhi (Nat.not_lt.mpr hlo),
      fun _ c hlo hhi => absurd hhi (Nat.not_lt.mpr hlo)⟩
  | succ n ih =>
    obtain ⟨hfirst, hnext⟩ := alongLoop_succ.mp hstay
    obtain ⟨hfail, hnextFail⟩ := alongLoop_succ.mp hclear
    rw [initFrom_succ hsize] at h
    obtain ⟨⟨err, chan⟩, hchan, hrest⟩ := Program.returns_bind.mp h
    rw [← cfg.chan_eq_getD] at hfirst
    have hleft := ipcShmInitChannels_outcome hfirst hchan
    rw [cfg.chan_eq_getD] at hleft
    dsimp only at hrest
    have hkeep : (priv.setChannel k chan).shmSize = μ.size := hsize
    have hself : (priv.setChannel k chan).channels k = chan := Function.update_self ..
    have hother := fun c (hc : c ≠ k) => channels_setChannel_of_ne priv chan hc
    by_cases he : err = 0
    case neg =>
      rw [if_pos he] at hrest
      obtain rfl := hrest
      refine ⟨rfl, rfl, fun c hc => hother c (Nat.ne_of_lt hc), fun c hlo hhi => ?_,
        fun h0 => absurd h0 he, fun h0 => absurd h0 he⟩
      rcases Nat.eq_or_lt_of_le hlo with rfl | hlt
      · refine Or.inl ?_
        rw [hself]
        exact hleft.clears hfail
      · exact Or.inr ⟨hlt, hother c (Nat.ne_of_gt hlt)⟩
    rw [if_neg (not_not.mpr he), initFrom_next (hleft.size_eq he)] at hrest
    have hpass := hleft.passes he
    have hout := ih hkeep (hnext hpass) ((hnextFail hpass).imp (fun c hlo hc => by
      rwa [hother c (by omega)])) hrest
    have hk : r.2.channels k = chan := (hout.before k (Nat.lt_succ_self k)).trans hself
    refine ⟨hout.numChannels_eq, hout.global_eq, fun c hc => ?_, fun c hlo hhi => ?_,
      fun h0 c hlo hhi => ?_, fun h0 c hlo hhi u hu => ?_⟩
    · rw [hout.before c (by omega), hother c (Nat.ne_of_lt hc)]
    · rcases Nat.eq_or_lt_of_le hlo with rfl | hlt
      · rw [hk]
        exact Or.inl (hleft.accepted he)
      · rcases hout.clears c hlt (by omega) with hc | ⟨-, hc⟩
        · exact Or.inl hc
        · exact Or.inr ⟨hlt, hc.trans (hother c (Nat.ne_of_gt hlt))⟩
    · rcases Nat.eq_or_lt_of_le hlo with rfl | hlt
      · exact hpass
      · exact hout.passes h0 c hlt (by omega)
    · rcases Nat.eq_or_lt_of_le hlo with rfl | hlt
      · rw [hk]
        exact hleft.localMem_eq he u hu
      · exact hout.localMem_eq h0 c hlt (by omega) u hu

/-- **A channel that is reached can fail**, and the ones after it are as they
were. -/
theorem initFrom_fails (hsize : priv.shmSize = μ.size)
    (hstay : AlongLoop (fun c => (cfg.chan c).Passes μ (cfg.cursor μ c))
      (fun c => (cfg.chan c).StaysIn μ (cfg.cursor μ c)) k n)
    {c : ℕ} (hlo : k ≤ c) (hhi : c < k + n)
    (hprev : ∀ c', k ≤ c' → c' < c → (cfg.chan c').Passes μ (cfg.cursor μ c')) :
    ∃ err priv', err ≠ 0 ∧ (initFrom μ cfg n k priv).Returns (Env μ) (err, priv') ∧
      priv'.numChannels = priv.numChannels ∧
      ((priv'.channels c).ClearsIn μ (cfg.chan c).type →
        (cfg.chan c).LeavesClear μ (cfg.cursor μ c) (priv.channels c)) ∧
      ∀ c', c < c' → priv'.channels c' = priv.channels c' := by
  induction n generalizing k priv with
  | zero => exact absurd hhi (Nat.not_lt.mpr hlo)
  | succ n ih =>
    obtain ⟨hfirst, hnext⟩ := alongLoop_succ.mp hstay
    rw [initFrom_succ hsize]
    rcases Nat.eq_or_lt_of_le hlo with rfl | hlt
    · obtain ⟨err, chan, he, hret, hclear⟩ := ipcShmInitChannels_fails
        (cfg.channels.map (fun f => f k)) (priv.channels k) k
      rw [cfg.chan_eq_getD] at hclear
      refine ⟨err, priv.setChannel k chan, he, hret.bind ?_, rfl, fun hc => hclear ?_, fun c' hc' =>
        channels_setChannel_of_ne priv chan (Nat.ne_of_gt hc')⟩
      · dsimp only
        rw [if_pos he]
        exact rfl
      · rwa [show (priv.setChannel k chan).channels k = chan from Function.update_self ..] at hc
    · have hpass := hprev k (Nat.le_refl k) hlt
      rw [← cfg.chan_eq_getD] at hfirst hpass
      obtain ⟨chan, hret⟩ := ipcShmInitChannels_passes hpass (priv.channels k) k
      have hleft := ipcShmInitChannels_outcome hfirst hret
      rw [cfg.chan_eq_getD] at hleft
      have hkeep : (priv.setChannel k chan).shmSize = μ.size := hsize
      obtain ⟨err, priv', he, hrest, hnum, hclear, hafter⟩ := ih hkeep (hnext (hleft.passes rfl))
        hlt (by omega) (fun c' h1 h2 => hprev c' (by omega) h2)
      have hother := fun c (hc : c ≠ k) => channels_setChannel_of_ne priv chan hc
      rw [hother c (Nat.ne_of_gt hlt)] at hclear
      refine ⟨err, priv', he, hret.bind ?_, hnum, hclear, fun c' hc' => ?_⟩
      · dsimp only
        rw [if_neg (not_not.mpr rfl), initFrom_next (hleft.size_eq rfl)]
        exact hrest
      · rw [hafter c' hc', hother c' (by omega)]

/-- If all channels pass, the loop can succeed. -/
theorem initFrom_passes (hsize : priv.shmSize = μ.size)
    (hstay : AlongLoop (fun c => (cfg.chan c).Passes μ (cfg.cursor μ c))
      (fun c => (cfg.chan c).StaysIn μ (cfg.cursor μ c)) k n)
    (hpass : ∀ c, k ≤ c → c < k + n → (cfg.chan c).Passes μ (cfg.cursor μ c)) :
    ∃ priv', (initFrom μ cfg n k priv).Returns (Env μ) (0, priv') := by
  induction n generalizing k priv with
  | zero => exact ⟨priv, rfl⟩
  | succ n ih =>
    obtain ⟨hfirst, hnext⟩ := alongLoop_succ.mp hstay
    obtain ⟨hk, hrest⟩ := forall_from_succ.mp hpass
    have hk' := hk
    rw [← cfg.chan_eq_getD] at hfirst hk
    obtain ⟨chan, hret⟩ := ipcShmInitChannels_passes hk (priv.channels k) k
    have hleft := ipcShmInitChannels_outcome hfirst hret
    rw [cfg.chan_eq_getD] at hleft
    have hkeep : (priv.setChannel k chan).shmSize = μ.size := hsize
    obtain ⟨priv', hend⟩ := ih hkeep (hnext hk') hrest
    refine ⟨priv', ?_⟩
    rw [initFrom_succ hsize]
    refine hret.bind ?_
    dsimp only
    rw [if_neg (not_not.mpr rfl), initFrom_next (hleft.size_eq rfl)]
    exact hend

end Walk

/-! ## Exact sizes -/

section Sizes

variable {μ : ShmMap} {addr : IpcShmPoolAddr}

theorem IpcShmPoolCfg.size32_of_lt {p : IpcShmPoolCfg} (h : p.extent < 2 ^ 32) :
    p.size32 = p.extent := by
  have hext : p.extent = ringBytes p.numBufs.toNat + p.numBufs.toNat * p.bufSize.toNat := rfl
  rw [hext] at h ⊢
  rw [size32, Nat.mul_comm p.bufSize.toNat, u32_of_lt (n := _ * _) (by omega), u32_of_lt h]

/-- The sizes of the channels that pass are exact, if the exact ones fit in 32
bits. -/
theorem IpcShmChannelCfg.Passes.size32_of_lt {cfg : IpcShmChannelCfg} (h : cfg.Passes μ addr)
    (hlt : cfg.extent < 2 ^ 32) : cfg.size32 = cfg.extent := by
  cases cfg with
  | managed m =>
    obtain ⟨pools, hpools⟩ := Option.ne_none_iff_exists'.mp h.1.1.2.1
    have hcfg : m.poolCfg = pools := by rw [IpcShmManagedCfg.poolCfg, hpools]; rfl
    have hbufs : m.bufs = bufsOf pools m.numPools.toNat := by
      rw [IpcShmManagedCfg.bufs, (totalBufs_of_ne h.1.2.1).1, hcfg]
    have hext : extent (.managed m) = poolOff pools m.numPools.toNat m.numPools.toNat := by
      rw [extent, hpools]
    rw [hext] at hlt ⊢
    show (List.range m.numPools.toNat).foldl _ _ = _
    rw [hcfg, hbufs]
    -- every sum on the way is below the last one
    have hstep : ∀ j, j ≤ m.numPools.toNat →
        (List.range j).foldl (fun size p => u32 (size + (pools p).size32))
          (ringBytes (bufsOf pools m.numPools.toNat)) = poolOff pools m.numPools.toNat j := by
      intro j hj
      induction j with
      | zero => exact (poolOff_zero pools _).symm
      | succ j ih =>
        have hle := poolOff_add_extent_le pools m.numPools.toNat hj
        rw [List.range_succ, List.foldl_append, ih (by omega), List.foldl_cons, List.foldl_nil,
          IpcShmPoolCfg.size32_of_lt (by omega), u32_of_lt (by omega), poolOff_succ]
    exact hstep _ (Nat.le_refl _)
  | unmanaged u => exact u32_of_lt hlt
  | invalid => rfl

/-- If the channels fit, the addresses are the offsets of the layout. -/
theorem IpcShmCfg.cursor_of_fits {cfg : IpcShmCfg} (hfit : cfg.footprint ≤ μ.size)
    (hsize : μ.size < 2 ^ 32) {c : ℕ} (hc : c ≤ cfg.numChannels.toNat) (hr : cfg.Reaches μ c) :
    (cfg.cursor μ c).localPoolShm = μ.localShm + cfg.chanOff c := by
  have hwin := μ.localShm_lt
  have hoff : ∀ c', c' ≤ cfg.numChannels.toNat → cfg.chanOff c' ≤ μ.size := fun c' h =>
    Nat.le_trans (cfg.chanOff_mono h) hfit
  induction c with
  | zero =>
    have hzero := hoff 0 (Nat.zero_le _)
    have heq : cfg.chanOff 0 = sizeofIpcShmGlobal := rfl
    show u64 (μ.localShm + sizeofIpcShmGlobal) = μ.localShm + cfg.chanOff 0
    rw [u64_of_lt (by omega), heq]
  | succ c ih =>
    have hnext := hoff (c + 1) hc
    rw [cfg.chanOff_succ] at hnext ⊢
    show u64 ((cfg.cursor μ c).localPoolShm + (cfg.chan c).size32) = _
    rw [ih (by omega) (fun c' h => hr c' (by omega)),
      (hr c (Nat.lt_succ_self c)).size32_of_lt (by omega), u64_of_lt (by omega), Nat.add_assoc]

end Sizes

/-! ## The instance -/

/-- The configuration is refused at the entry. -/
def IpcShmCfg.Refused (cfg : IpcShmCfg) : Prop :=
  (cfg.localShmAddr = 0 ∨ cfg.remoteShmAddr = 0) ∨
    cfg.numChannels.toNat < 1 ∨ ipcShmMaxChannels < cfg.numChannels.toNat

/-- **Where an instance is written**, with the pointers that an earlier
initialization left in its channels.

The header is written first. Each channel that is reached is written, and may
fail there. The cleanup then follows the pointers of all channels, the old ones
included, where they were not replaced. If all channels pass, they have to
fit. -/
structure IpcShmCfg.StaysIn (cfg : IpcShmCfg) (μ : ShmMap) (old : ℕ → IpcShmChannel) : Prop where
  header : sizeofIpcShmGlobal ≤ μ.size
  reached : ∀ c, c < cfg.numChannels.toNat → cfg.Reaches μ c →
    (cfg.chan c).StaysIn μ (cfg.cursor μ c)
  failed : ∀ c, c < cfg.numChannels.toNat → cfg.Reaches μ c →
    (cfg.chan c).LeavesClear μ (cfg.cursor μ c) (old c)
  unreached : ∀ c, 0 < c → c < cfg.numChannels.toNat → (old c).ClearsIn μ (cfg.chan c).type
  fits : cfg.Reaches μ cfg.numChannels.toNat → cfg.footprint ≤ μ.size

/-- **The channels of an accepted instance fit**, and the unmanaged ones lie in
the window. -/
def IpcShmPriv.FitsIn (priv : IpcShmPriv) (cfg : IpcShmCfg) (μ : ShmMap) : Prop :=
  cfg.footprint ≤ cfg.shmSize.toNat ∧
    ∀ c, c < cfg.numChannels.toNat → ∀ u, cfg.chan c = .unmanaged u →
      InWindow μ (priv.channels c).localMem (sizeofIpcChannelUmem + u.size.toNat)

section Instance

variable {μ : ShmMap} {cfg : IpcShmCfg} {inst : ℕ} {d : Driver} {priv : IpcShmPriv}

/-- The private data once the windows are mapped. -/
def IpcShmPriv.mappedAt (priv : IpcShmPriv) (cfg : IpcShmCfg) (μ : ShmMap) : IpcShmPriv :=
  { priv.started cfg with global := μ.localShm }

/-- The loop over the channels is at the first one, behind the header. -/
theorem initMapped_eq : initMapped d inst cfg μ.os (priv.mappedAt cfg μ) = do
    store64 μ.localShm ipcShmStateClear
    let r ← initFrom μ cfg cfg.numChannels.toNat 0 (priv.mappedAt cfg μ)
    if r.1 ≠ 0 then
      let priv ← freeConfiguredChannels cfg.channels { r.2 with global := 0 }
      ipcOsFree inst
      ipcHwFree inst
      return (r.1, d.setPriv inst priv)
    else
      ipcHwIrqEnable inst
      store64 r.2.global ipcShmStateReady
      return (0, d.setPriv inst r.2) := rfl

theorem IpcShmCfg.StaysIn.of_always (hμ : μ.size = cfg.shmSize.toNat)
    (h : (initMapped d inst cfg μ.os (priv.mappedAt cfg μ)).Always (Env μ) (Quiet (InWindow μ))
      (fun r => r.1 = 0 → (r.2.priv inst).FitsIn cfg μ)) :
    cfg.StaysIn μ priv.channels := by
  rw [initMapped_eq] at h
  obtain ⟨⟨hhdr, -⟩, h⟩ := (Program.always_bind_returns _ _ _).mp h
  obtain ⟨hloop, hafter⟩ := (Program.always_bind_returns _ _ _).mp (h () ⟨(), trivial, rfl⟩)
  have hsize : (priv.mappedAt cfg μ).shmSize = μ.size := hμ.symm
  have hstay := (initFrom_staysIn hsize).mp hloop
  -- the run in which channel `c` fails
  have hfails : ∀ c, c < cfg.numChannels.toNat → cfg.Reaches μ c →
      (cfg.chan c).LeavesClear μ (cfg.cursor μ c) (priv.channels c) ∧
        ∀ c', c < c' → c' < cfg.numChannels.toNat →
          (priv.channels c').ClearsIn μ (cfg.chan c').type := by
    intro c hc hr
    obtain ⟨err, priv', he, hret, hnum', hclear, hsame⟩ := initFrom_fails hsize hstay
      (Nat.zero_le c) (by omega) (fun c' _ h => hr c' h)
    have hend := hafter _ hret
    dsimp only at hend
    rw [if_pos he] at hend
    have hfree := freeConfiguredChannels_staysIn.mp ((Program.always_bind_returns _ _ _).mp hend).1
    replace hfree : ∀ c', c' < cfg.numChannels.toNat →
        (priv'.channels c').ClearsIn μ (cfg.chan c').type := fun c' hc' =>
      hfree c' (Nat.lt_of_lt_of_eq hc' hnum'.symm)
    refine ⟨hclear (hfree c hc), fun c' hlt hc' => ?_⟩
    rw [show priv.channels c' = priv'.channels c' from (hsame c' hlt).symm]
    exact hfree c' hc'
  refine ⟨?_, fun c hc hr => hstay c (Nat.zero_le c) (by omega) (fun c' _ h => hr c' h),
    fun c hc hr => (hfails c hc hr).1, fun c hpos hc => ?_, fun hr => ?_⟩
  · have hend : μ.localShm + 8 ≤ μ.localShm + μ.size := hhdr.2
    exact Nat.le_of_add_le_add_left hend
  · exact (hfails 0 (by omega) (fun c' h => absurd h (Nat.not_lt_zero c'))).2 c hpos hc
  · obtain ⟨priv', hret⟩ := initFrom_passes hsize hstay (fun c _ h => hr c (by omega))
    have hend := hafter _ hret
    dsimp only at hend
    rw [if_neg (not_not.mpr rfl)] at hend
    have hfit := (hend.2 () trivial).2 () trivial rfl
    exact hμ ▸ hfit.1

theorem IpcShmCfg.StaysIn.always (hμ : μ.size = cfg.shmSize.toNat)
    (h : cfg.StaysIn μ priv.channels) :
    (initMapped d inst cfg μ.os (priv.mappedAt cfg μ)).Always (Env μ) (Quiet (InWindow μ))
      (fun r => r.1 = 0 → (r.2.priv inst).FitsIn cfg μ) := by
  have hhdr : InWindow μ μ.localShm 8 :=
    ⟨Nat.le_refl _, Nat.add_le_add_left h.header μ.localShm⟩
  have hstay : AlongLoop (fun c => (cfg.chan c).Passes μ (cfg.cursor μ c))
      (fun c => (cfg.chan c).StaysIn μ (cfg.cursor μ c)) 0 cfg.numChannels.toNat :=
    fun c _ hc hprev => h.reached c (by omega) (fun c' hlt => hprev c' (Nat.zero_le c') hlt)
  have hfail : AlongLoop (fun c => (cfg.chan c).Passes μ (cfg.cursor μ c))
      (fun c => (cfg.chan c).LeavesClear μ (cfg.cursor μ c) (priv.channels c)) 0
      cfg.numChannels.toNat :=
    fun c _ hc hprev => h.failed c (by omega) (fun c' hlt => hprev c' (Nat.zero_le c') hlt)
  have hsize : (priv.mappedAt cfg μ).shmSize = μ.size := hμ.symm
  rw [initMapped_eq]
  refine always_store64 hhdr ((Program.always_bind_returns _ _ _).mpr
    ⟨(initFrom_staysIn hsize).mpr hstay, ?_⟩)
  rintro ⟨err, priv'⟩ hret
  have hleft := initFrom_outcome hsize hstay hfail hret
  dsimp only
  split
  · rename_i he
    refine (Program.always_bind_returns _ _ _).mpr ⟨freeConfiguredChannels_staysIn.mpr ?_,
      fun priv'' _ => ⟨trivial, fun _ _ => ⟨trivial, fun _ _ h0 => absurd h0 he⟩⟩⟩
    intro c hc
    replace hc : c < cfg.numChannels.toNat := Nat.lt_of_lt_of_eq hc hleft.numChannels_eq
    rcases hleft.clears c (Nat.zero_le c) (by omega) with hclear | ⟨hpos, heq⟩
    · exact hclear
    · show (priv'.channels c).ClearsIn μ _
      rw [show priv'.channels c = priv.channels c from heq]
      exact h.unreached c hpos hc
  · rename_i he
    have he : err = 0 := not_not.mp he
    have hg : priv'.global = μ.localShm := hleft.global_eq
    refine ⟨trivial, fun _ _ => always_store64 (hg ▸ hhdr) (fun _ => ?_)⟩
    have hpass := hleft.passes he
    have hfit := h.fits (fun c hc => hpass c (Nat.zero_le c) (by omega))
    have hlt : μ.size < 2 ^ 32 := hμ ▸ cfg.shmSize.toNat_lt
    rw [show ((d.setPriv inst priv').priv inst) = priv' from Function.update_self ..]
    refine ⟨hμ ▸ hfit, fun c hc u hu => ?_⟩
    have hend := (cfg.chanOff_add_extent_le hc).trans hfit
    rw [hu, IpcShmChannelCfg.extent] at hend
    rw [show (priv'.channels c).localMem = _ from
        hleft.localMem_eq he c (Nat.zero_le c) (by omega) u hu,
      IpcShmCfg.cursor_of_fits hfit hlt (Nat.le_of_lt hc)
        (fun c' h' => hpass c' (Nat.zero_le c') (by omega))]
    refine ⟨Nat.le_add_right _ _, ?_⟩
    show μ.localShm + cfg.chanOff c + (sizeofIpcChannelUmem + u.size.toNat) ≤ μ.localShm + μ.size
    omega

/-- The instance may be found free. -/
theorem ipcInstanceIsFree_returns (hinst : inst < ipcShmMaxInstances) :
    (ipcInstanceIsFree d inst).Returns (Env μ) .free := by
  unfold ipcInstanceIsFree
  rw [if_neg (Nat.not_le.mpr hinst)]
  split
  · exact rfl
  · exact ⟨0, env_load_zero _ _ _, rfl⟩

end Instance

/-- **When initialization stays in its window.** Whatever is read on the way,
every store of `ipc_shm_init_instance` lies in
`[local_shm, local_shm + shm_size)`, whether the call succeeds or fails, and
the channels of an accepted instance fit – if and only if the configuration is
refused at the entry, or the instance exists and what the driver writes,
channel by channel as far as its own checks let it go, lies in the window. -/
theorem init_stays_in_window (cfg : IpcShmCfg) (μ : ShmMap) (d : Driver) (inst : ℕ)
    (hμ : μ.size = cfg.shmSize.toNat) :
    (ipcShmInitInstance d inst (some cfg)).Always (Env μ) (Quiet (InWindow μ))
      (fun r => r.1 = 0 → (r.2.priv inst).FitsIn cfg μ) ↔
    cfg.Refused ∨ inst < ipcShmMaxInstances ∧ cfg.StaysIn μ (d.priv inst).channels := by
  have hinval : -EINVAL ≠ 0 := by decide
  have hfree := ipcInstanceIsFree_always (μ := μ) (P := InWindow μ) (fun _ h => h) d inst
  unfold ipcShmInitInstance
  by_cases href : cfg.Refused
  · refine iff_of_true (hfree.bind (fun st _ => ?_)) (Or.inl href)
    split
    · exact fun h0 => absurd h0 hinval
    dsimp only
    split
    · exact fun h0 => absurd h0 hinval
    rename_i haddr
    rw [if_pos (href.resolve_left haddr)]
    exact fun h0 => absurd h0 hinval
  obtain ⟨haddr, hcount⟩ := not_or.mp href
  rw [or_iff_right href]
  by_cases hinst : inst < ipcShmMaxInstances
  case neg =>
    refine iff_of_false (fun h => ?_) (fun h => hinst h.1)
    rw [show ipcInstanceIsFree d inst = .pure .error from if_pos (Nat.not_lt.mp hinst),
      Program.pure_bind, if_neg (by decide)] at h
    dsimp only at h
    rw [if_neg haddr, if_neg hcount, if_pos (Nat.not_lt.mp hinst)] at h
    exact h.1
  rw [and_iff_right hinst]
  -- the private data of the instance, once the windows are mapped
  have hpriv : ∀ p : IpcShmPriv, ((d.setPriv inst p).setOs inst μ.os).priv inst = p := fun p =>
    Function.update_self ..
  constructor
  · intro h
    replace h := ((Program.always_bind_returns _ _ _).mp h).2 _ (ipcInstanceIsFree_returns hinst)
    rw [if_neg (by decide)] at h
    dsimp only at h
    rw [if_neg haddr, if_neg hcount, if_neg (Nat.not_le.mpr hinst)] at h
    replace h := ((Program.always_bind_returns _ _ _).mp h).2 0 ⟨0, trivial, rfl⟩
    rw [if_neg (not_not.mpr rfl)] at h
    replace h := ((Program.always_bind_returns _ _ _).mp h).2 (0, μ.os) ⟨_, fun _ => rfl, rfl⟩
    dsimp only at h
    rw [if_neg (not_not.mpr rfl), hpriv] at h
    exact IpcShmCfg.StaysIn.of_always hμ h
  · intro h
    refine hfree.bind (fun st _ => ?_)
    split
    · exact fun h0 => absurd h0 hinval
    dsimp only
    rw [if_neg haddr, if_neg hcount, if_neg (Nat.not_le.mpr hinst)]
    refine ⟨trivial, fun (err : ℤ) _ => ?_⟩
    show Program.Always _ _ _ (if err ≠ 0 then _ else _)
    split
    · rename_i he
      exact fun h0 => absurd h0 he
    refine ⟨trivial, ?_⟩
    rintro ⟨err', os⟩ hos
    show Program.Always _ _ _ (if err' ≠ 0 then _ else _)
    split
    · rename_i he
      exact ⟨trivial, fun _ _ h0 => absurd h0 he⟩
    rename_i he
    obtain rfl : os = μ.os := hos (not_not.mp he)
    rw [hpriv]
    exact IpcShmCfg.StaysIn.always hμ h

/-- A buffer of 8 KiB in a window of 4 KiB is refused, with all stores in the
window. -/
theorem init_stays_in_window_large :
    (ipcShmInitInstance {} 0 (some (onePoolCfg 0x1000 0x2000))).Always (Env (twoWindows .a))
      (Quiet (InWindow (twoWindows .a))) (fun r => r.1 ≠ 0) := by
  have hpool : ¬IpcShmPoolCfg.LetThrough ⟨1, 0x2000⟩ (twoWindows .a) ⟨0x1028, 0x2028⟩ :=
    fun h => absurd h.2.2.2.2 (by decide)
  have hstart : (onePoolCfg 0x1000 0x2000).cursor (twoWindows .a) 0 = ⟨0x1008, 0x2008⟩ := rfl
  have hfoot : ¬(onePoolCfg 0x1000 0x2000).footprint
      ≤ (onePoolCfg 0x1000 0x2000).shmSize.toNat := by
    decide +kernel
  refine ((init_stays_in_window _ _ {} 0 (by decide)).mpr (Or.inr ⟨by decide, by decide,
    fun c hc _ => ?_, fun c hc _ => ?_, fun c hpos hc => ?_, fun hr => ?_⟩)).mono (fun _ h => h)
    (fun r hr h0 => hfoot (hr h0).1)
  · obtain rfl : c = 0 := Nat.lt_one_iff.mp hc
    rw [hstart]
    refine fun _ => ⟨by decide, fun _ p _ hp _ _ => ?_⟩
    obtain rfl : p = 0 := Nat.lt_one_iff.mp hp
    exact ⟨by decide +kernel, fun h => absurd h hpool⟩
  · have hclear : IpcManagedChannel.ClearsIn {} (twoWindows .a) :=
      ⟨Or.inl rfl, fun h => absurd rfl h⟩
    exact ⟨fun _ => hclear, fun _ _ => ⟨Or.inl rfl, fun h => absurd rfl h⟩,
      fun _ p _ => Or.inl rfl⟩
  · exact absurd hc (Nat.not_lt.mpr hpos)
  · have hpass := hr 0 (by decide)
    rw [hstart] at hpass
    exact absurd (hpass.2.2 0 (by decide)) hpool
