import IpcShm.Layout

/-!
# Initialization arrives at the layout

Every function that initializes or frees a part of an instance, with any
replies from memory and from the HW layer: where it stores, and what the
private data is afterwards. The two go together. A store is in bounds because
the pointer it goes through was computed from the layout, and the pointers
are in place because nothing on the way wrapped.

Queues are either unmapped or in their place (`IpcQueue.Placed`) whatever
happens. After a successful initialization they are all in their place.
-/

/-- **What the environment may reply.** Words and blocks have the size asked
for and are otherwise arbitrary; a successful `ipc_os_init` maps the two
windows. -/
def Env (μ : ShmMap) : (o : Op) → o.Ret → Prop
  | .load n _, v => v < 256 ^ n
  | .memcpyFrom _ n, bs => bs.length = n
  | .ipcOsInit _ _, r => r.1 = 0 → r.2 = μ.os
  | _, _ => True

theorem env_load {μ : ShmMap} {n a v : ℕ} : Env μ (.load n a) v ↔ v < 256 ^ n := Iff.rfl

/-- Memory may be cleared. -/
theorem env_load_zero (μ : ShmMap) (n a : ℕ) : Env μ (.load n a) (0 : ℕ) :=
  Nat.pow_pos (Nat.succ_pos 255)

/-- **Stores go where `P` allows**, nothing undefined is done, and nobody
outside the driver is called but the OS and HW layers. -/
def Quiet (P : ℕ → ℕ → Prop) : Op → Prop
  | .store n a _ => P a n
  | .memcpyTo a bs => P a bs.length
  | .undefinedBehaviour => False
  | .poolsOutOfBounds _ => False
  | .rxCb _ _ _ _ _ _ => False
  | .rxCbUnmanaged _ _ _ _ _ => False
  | _ => True

section Requests

variable {μ : ShmMap} {P : ℕ → ℕ → Prop} {α : Type} {Q : α → Prop}

/-! One rule for each request. -/

theorem always_load32 {a : ℕ} {f : ℕ → Drv α}
    (h : ∀ v, v < 2 ^ 32 → (f v).Always (Env μ) (Quiet P) Q) :
    (load32 a >>= f).Always (Env μ) (Quiet P) Q := by
  refine ⟨trivial, fun v hv => h v ?_⟩
  rw [env_load] at hv
  omega

theorem always_load64 {a : ℕ} {f : ℕ → Drv α}
    (h : ∀ v, (f v).Always (Env μ) (Quiet P) Q) :
    (load64 a >>= f).Always (Env μ) (Quiet P) Q := ⟨trivial, fun v _ => h v⟩

theorem always_store32 {a v : ℕ} {f : Unit → Drv α} (hP : P a 4)
    (h : (f ()).Always (Env μ) (Quiet P) Q) :
    (store32 a v >>= f).Always (Env μ) (Quiet P) Q := ⟨hP, fun _ _ => h⟩

theorem always_store64 {a v : ℕ} {f : Unit → Drv α} (hP : P a 8)
    (h : (f ()).Always (Env μ) (Quiet P) Q) :
    (store64 a v >>= f).Always (Env μ) (Quiet P) Q := ⟨hP, fun _ _ => h⟩

theorem always_memcpyFrom {a n : ℕ} {f : List UInt8 → Drv α}
    (h : ∀ bs, bs.length = n → (f bs).Always (Env μ) (Quiet P) Q) :
    (memcpyFrom a n >>= f).Always (Env μ) (Quiet P) Q := ⟨trivial, h⟩

theorem always_memcpyTo {a : ℕ} {bs : List UInt8} {f : Unit → Drv α} (hP : P a bs.length)
    (h : (f ()).Always (Env μ) (Quiet P) Q) :
    (memcpyTo a bs >>= f).Always (Env μ) (Quiet P) Q := ⟨hP, fun _ _ => h⟩

theorem always_remU {a b : ℕ} {f : ℕ → Drv α} (hb : 0 < b)
    (h : (f (a % b)).Always (Env μ) (Quiet P) Q) :
    (remU a b >>= f).Always (Env μ) (Quiet P) Q := by
  rw [remU_of_pos hb]
  exact h

end Requests

/-- A queue that is unmapped or in its place. -/
def IpcQueue.Placed (q : IpcQueue) (os : IpcOs) (off n : ℕ) : Prop :=
  q.pushRing = 0 ∨ q = laidQueue os off n

/-- The data a queue is initialized with to be in its place. -/
def laidData (os : IpcOs) (off n : ℕ) (ty : IpcShmQueueType) : IpcQueueData where
  elemSize := sizeofIpcShmBd
  elemNum := n
  queueType := ty
  pushAddr := os.localShm + off
  popAddr := os.remoteShm + off

section Queues

variable {μ : ShmMap} {P : ℕ → ℕ → Prop} {off n : ℕ} {q : IpcQueue}

/-- Stores into a ring at `off` for `n` elements are allowed. -/
def RingAllowed (μ : ShmMap) (P : ℕ → ℕ → Prop) (off n : ℕ) : Prop :=
  ∀ a k, Region.Contains { addr := μ.localShm + off, size := ringBytes n } a k → P a k

theorem RingAllowed.slot (h : RingAllowed μ P off n) {i k : ℕ} (hi : i < n + 1) (hk : k ≤ 8) :
    P (μ.localShm + off + 16 + i * 8) k :=
  h _ _ ⟨by simp only; omega, by simp only [ringBytes]; omega⟩

/-- The sixteen bytes of a header at address `a` may be stored to. Rings and
unmanaged channels both start with one. -/
def HeaderAllowed (P : ℕ → ℕ → Prop) (a : ℕ) : Prop :=
  ∀ i k, i + k ≤ 16 → P (a + i) k

theorem HeaderAllowed.sentinel {a : ℕ} (h : HeaderAllowed P a) : P a 8 :=
  h 0 8 (by decide)

theorem HeaderAllowed.write {a : ℕ} (h : HeaderAllowed P a) : P (a + 8) 4 := h 8 4 (by decide)

theorem HeaderAllowed.read {a : ℕ} (h : HeaderAllowed P a) : P (a + 12) 4 :=
  h 12 4 (Nat.le_refl _)

theorem RingAllowed.header (h : RingAllowed μ P off n) : HeaderAllowed P (μ.localShm + off) :=
  fun _ _ hik => h _ _ ⟨Nat.le_add_right _ _, by simp only [ringBytes]; omega⟩

/-- **A queue that can be freed**: it is unmapped, or the header it points to
may be stored to. -/
def IpcQueue.Freeable (q : IpcQueue) (P : ℕ → ℕ → Prop) : Prop :=
  q.pushRing = 0 ∨ HeaderAllowed P q.pushRing

theorem IpcQueue.Placed.freeable (hq : q.Placed μ.os off n)
    (hP : HeaderAllowed P (μ.localShm + off)) : q.Freeable P := by
  rcases hq with h | rfl
  · exact Or.inl h
  · exact Or.inr hP

/-- A queue that was freed, or left alone. -/
def IpcQueue.Freed (q q' : IpcQueue) : Prop := q' = q ∨ q'.pushRing = 0

variable {q' : IpcQueue}

theorem IpcQueue.Freed.trans {q'' : IpcQueue} (h : q.Freed q') (h' : q'.Freed q'') :
    q.Freed q'' := by
  rcases h' with rfl | h'
  · exact h
  · exact Or.inr h'

theorem IpcQueue.Freed.placed {os : IpcOs} (h : q.Freed q') (hq : q.Placed os off n) :
    q'.Placed os off n := by
  rcases h with rfl | h
  · exact hq
  · exact Or.inl h

theorem IpcQueue.Freed.freeable (h : q.Freed q') (hq : q.Freeable P) : q'.Freeable P := by
  rcases h with rfl | h
  · exact hq
  · exact Or.inl h

/-- **`ipc_queue_check_integrity`** only loads. -/
theorem ipcQueueCheckIntegrity_always (q : IpcQueue) :
    (ipcQueueCheckIntegrity q).Always (Env μ) (Quiet P) (fun _ => True) := by
  unfold ipcQueueCheckIntegrity
  refine always_load64 (fun v => ?_)
  split
  · refine always_load64 (fun v => ?_)
    split <;> trivial
  · trivial

/-- **`ipc_queue_push`** stores in its ring. -/
theorem ipcQueuePush_always (hq : q.Placed μ.os off n) (hn : n ≤ ipcShmMaxBufsPerChannel)
    (hP : RingAllowed μ P off n) {buf : List UInt8} (hbuf : buf.length ≤ 8) :
    (ipcQueuePush q buf).Always (Env μ) (Quiet P) (fun _ => True) := by
  unfold ipcShmMaxBufsPerChannel at hn
  unfold ipcQueuePush
  split
  · trivial
  · rename_i hnull
    obtain rfl := hq.resolve_left (fun h => hnull (Or.inl h))
    refine always_load32 (fun w _ => always_load32 (fun r _ => ?_))
    split
    · trivial
    · rename_i hidx
      have hw : w < n + 1 := by
        have : ¬n + 1 ≤ w := fun h => hidx (Or.inr h)
        omega
      refine always_remU (Nat.succ_pos n) ?_
      split
      · trivial
      · have hslot : u32 (w * (laidQueue μ.os off n).elemSize) = w * 8 :=
          u32_of_lt (show w * 8 < 2 ^ 32 by omega)
        rw [hslot]
        refine always_memcpyTo (hP.slot hw ?_) (always_store32 hP.header.write trivial)
        rw [List.length_take]
        omega

/-- **`ipc_queue_pop`** stores its read index; what it returns has the size of
an element. -/
theorem ipcQueuePop_always (hq : q.Placed μ.os off n) (hP : RingAllowed μ P off n) :
    (ipcQueuePop q).Always (Env μ) (Quiet P) (fun r => r.1 = 0 → r.2.length = 8) := by
  have hinval : -EINVAL ≠ 0 := by decide
  have hnobufs : -ENOBUFS ≠ 0 := by decide
  unfold ipcQueuePop
  split
  · exact fun h => absurd h hinval
  · rename_i hnull
    obtain rfl := hq.resolve_left (fun h => hnull (Or.inl h))
    refine always_load32 (fun w _ => always_load32 (fun r _ =>
      (ipcQueueCheckIntegrity_always _).bind (fun err _ => ?_)))
    split
    · exact fun h => absurd h hinval
    · split
      · exact fun h => absurd h hnobufs
      · exact always_memcpyFrom (fun bs hbs =>
          always_remU (Nat.succ_pos n) (always_store32 hP.header.read (fun _ => hbs)))

/-- **`ipc_queue_sync_index`** stores in the header of its ring. -/
theorem ipcQueueSyncIndex_always (ty : IpcShmQueueType)
    (hP : HeaderAllowed P (μ.localShm + off)) :
    (ipcQueueSyncIndex (laidQueue μ.os off n) ty).Always (Env μ) (Quiet P)
      (fun _ => True) := by
  unfold ipcQueueSyncIndex
  refine always_load64 (fun v => ?_)
  split
  · trivial
  · refine always_store64 hP.sentinel (always_load64 (fun v => ?_))
    split
    · exact always_load32 (fun r _ => always_store32 hP.write (always_load32 (fun w _ =>
        always_remU (Nat.succ_pos n) (always_store32 hP.read trivial))))
    · exact always_store32 hP.write (always_store32 hP.read trivial)

/-- The queue that `ipc_queue_init` maps from these data. -/
theorem laidQueue_of_data (os : IpcOs) (ty : IpcShmQueueType) (hn : n ≤ ipcShmMaxBufsPerChannel) :
    ({ elemSize := (laidData os off n ty).elemSize
       elemNum := u16 ((laidData os off n ty).elemNum + 1)
       pushRing := (laidData os off n ty).pushAddr
       popRing := (laidData os off n ty).popAddr } : IpcQueue) = laidQueue os off n := by
  unfold ipcShmMaxBufsPerChannel at hn
  show IpcQueue.mk sizeofIpcShmBd (u16 (n + 1)) _ _ = _
  rw [u16_of_lt (by omega)]
  rfl

/-- **`ipc_queue_init`** leaves the queue alone or puts it in its place. -/
theorem ipcQueueInit_always (q : IpcQueue) (ty : IpcShmQueueType)
    (hn : n ≤ ipcShmMaxBufsPerChannel) (hP : HeaderAllowed P (μ.localShm + off)) :
    (ipcQueueInit q (laidData μ.os off n ty)).Always (Env μ) (Quiet P)
      (fun r => (r.2 = q ∨ r.2 = laidQueue μ.os off n) ∧
        (r.1 = 0 → 0 < n ∧ r.2 = laidQueue μ.os off n)) := by
  unfold ipcQueueInit
  split
  · exact ⟨Or.inl rfl, fun h => absurd h (show -EINVAL ≠ 0 by decide)⟩
  · rename_i hdata
    have hn0 : 0 < n := by
      have : ¬n = 0 := fun h => hdata (Or.inr (Or.inr (Or.inl h)))
      omega
    rw [laidQueue_of_data μ.os ty hn]
    exact (ipcQueueSyncIndex_always ty hP).bind (fun err _ => ⟨Or.inr rfl, fun _ => ⟨hn0, rfl⟩⟩)

/-- A queue in its place is placed, and so is one that was. -/
theorem IpcQueue.Placed.of_init (hq : q.Placed μ.os off n)
    (h : q' = q ∨ q' = laidQueue μ.os off n) :
    q'.Placed μ.os off n := by
  rcases h with rfl | rfl
  · exact hq
  · exact Or.inr rfl

theorem IpcQueue.Freeable.of_init (hq : q.Freeable P) (h : q' = q ∨ q' = laidQueue μ.os off n)
    (hP : HeaderAllowed P (μ.localShm + off)) : q'.Freeable P := by
  rcases h with rfl | rfl
  · exact hq
  · exact Or.inr hP

/-- The loop populating a pool queue stores in its ring. -/
theorem pushFreeBds_always (hq : q.Placed μ.os off n) (hn : n ≤ ipcShmMaxBufsPerChannel)
    (hP : RingAllowed μ P off n) (poolId k bufId : ℕ) :
    (pushFreeBds q poolId k bufId).Always (Env μ) (Quiet P) (fun _ => True) := by
  induction k generalizing bufId with
  | zero => trivial
  | succ k ih =>
    rw [pushFreeBds]
    refine (ipcQueuePush_always hq hn hP (by rw [IpcShmBd.encode_length])).bind (fun err _ => ?_)
    split
    · trivial
    · exact ih (bufId + 1)

theorem ringIsLive_always (a : ℕ) :
    (ringIsLive a).Always (Env μ) (Quiet P) (fun _ => True) := by
  unfold ringIsLive
  refine always_load64 (fun v => ?_)
  split
  · trivial
  · exact always_load64 (fun v => trivial)

/-- **`ipc_queue_free`** stores in the header of its ring and unmaps it. -/
theorem ipcQueueFree_always (hq : q.Freeable P) :
    (ipcQueueFree q).Always (Env μ) (Quiet P) (fun q' => q'.pushRing = 0) := by
  unfold ipcQueueFree
  split
  · rename_i h0
    exact h0
  · rename_i h0
    have hP := hq.resolve_left h0
    refine (ringIsLive_always _).bind (fun live _ => ?_)
    split
    · exact always_store64 hP.sentinel (always_store32 hP.write (always_store32 hP.read rfl))
    · exact rfl

end Queues

/-! ## Pools -/

theorem ipcQueueMemSize_laid {os : IpcOs} {off n : ℕ} (hn : n ≤ ipcShmMaxBufsPerChannel) :
    ipcQueueMemSize (laidQueue os off n) = ringBytes n := by
  unfold ipcShmMaxBufsPerChannel at hn
  show u32 (16 + u32 ((n + 1) * 8)) = 16 + (n + 1) * 8
  rw [u32_of_lt (n := (n + 1) * 8) (by omega), u32_of_lt (by omega)]

section Pools

variable {μ : ShmMap} {P : ℕ → ℕ → Prop} {off : ℕ}

/-- The addresses of a pool in its place. -/
def laidPoolAddr (os : IpcOs) (off : ℕ) : IpcShmPoolAddr where
  localPoolShm := os.localShm + off
  remotePoolShm := os.remoteShm + off

/-- **A pool at `off` that the initialization handles exactly**: its size and
its end do not wrap, its header may be stored to, and so may its ring if the
pool fits. -/
structure PoolChecked (μ : ShmMap) (P : ℕ → ℕ → Prop) (off : ℕ) (p : IpcShmPoolCfg) : Prop where
  extent_lt : p.extent < 2 ^ 32
  local_lt : μ.localShm + off + p.extent < 2 ^ 64
  remote_lt : μ.remoteShm + off + p.extent < 2 ^ 64
  header : HeaderAllowed P (μ.localShm + off)
  ring : off + p.extent ≤ μ.size → RingAllowed μ P off p.numBufs.toNat

theorem PoolChecked.of_fit {p : IpcShmPoolCfg} (hsize : μ.size < 2 ^ 32)
    (hfit : off + p.extent ≤ μ.size) (hP : RingAllowed μ P off p.numBufs.toNat) :
    PoolChecked μ P off p := by
  have hl := μ.localShm_lt
  have hr := μ.remoteShm_lt
  exact ⟨by omega, by omega, by omega, hP.header, fun _ => hP⟩

/-- The size the code computes for the pool is exact. -/
theorem PoolChecked.shmSize {p : IpcShmPoolCfg} (hp : PoolChecked μ P off p) :
    u32 (ringBytes p.numBufs.toNat + u32 (p.bufSize.toNat * p.numBufs.toNat)) = p.extent := by
  have hbuf : u32 (p.bufSize.toNat * p.numBufs.toNat) = p.bufBytes := by
    rw [IpcShmPoolCfg.bufBytes, Nat.mul_comm]
    exact u32_of_lt ((Nat.le_add_left p.bufBytes _).trans_lt hp.extent_lt)
  rw [hbuf]
  exact u32_of_lt hp.extent_lt

/-- A pool that passes the check of the code fits. -/
theorem PoolChecked.fits {p : IpcShmPoolCfg} (hp : PoolChecked μ P off p)
    (hcheck : ¬u64 (μ.localShm + μ.size) < u64 (μ.localShm + off
      + u32 (ringBytes p.numBufs.toNat + u32 (p.bufSize.toNat * p.numBufs.toNat)))) :
    off + p.extent ≤ μ.size := by
  rw [hp.shmSize, u64_of_lt μ.localShm_lt, u64_of_lt hp.local_lt] at hcheck
  omega

/-- **`ipc_buf_pool_init`** puts a pool in its place, if it fits. -/
theorem ipcBufPoolInit_always {pool : IpcShmPool} {p : IpcShmPoolCfg} (poolId : ℕ)
    (hp : PoolChecked μ P off p) :
    (ipcBufPoolInit μ.os μ.size pool poolId (laidPoolAddr μ.os off) p).Always (Env μ) (Quiet P)
      (fun r => (r.2.bdQueue = pool.bdQueue ∨ r.2.bdQueue = laidQueue μ.os off p.numBufs.toNat) ∧
        (r.1 = 0 → r.2.Laid μ.os off p ∧ off + p.extent ≤ μ.size)) := by
  have hend := hp.local_lt
  have hrend := hp.remote_lt
  unfold ipcBufPoolInit
  split
  · exact ⟨Or.inl rfl, fun h => absurd h (show -EINVAL ≠ 0 by decide)⟩
  · rename_i hle
    have hle : p.numBufs.toNat ≤ ipcShmMaxBufsPerPool := Nat.not_lt.mp hle
    have hn : p.numBufs.toNat ≤ ipcShmMaxBufsPerChannel :=
      Nat.le_trans hle (show 4096 ≤ 0xFFFF - 1 by decide)
    refine (ipcQueueInit_always _ .poolQueue hn hp.header).bind ?_
    rintro ⟨err, q⟩ ⟨hcase, hok⟩
    dsimp only
    split
    · rename_i he
      exact ⟨hcase, fun h0 => absurd h0 he⟩
    · rename_i he
      obtain ⟨hpos, rfl⟩ := hok (not_not.mp he)
      rw [ipcQueueMemSize_laid hn]
      have hext : ringBytes p.numBufs.toNat ≤ p.extent := Nat.le_add_right _ _
      have hloc : u64 (μ.os.localShm + off + ringBytes p.numBufs.toNat)
          = μ.os.localShm + off + ringBytes p.numBufs.toNat :=
        u64_of_lt (show μ.localShm + off + ringBytes p.numBufs.toNat < 2 ^ 64 by omega)
      have hrem : u64 (μ.os.remoteShm + off + ringBytes p.numBufs.toNat)
          = μ.os.remoteShm + off + ringBytes p.numBufs.toNat :=
        u64_of_lt (show μ.remoteShm + off + ringBytes p.numBufs.toNat < 2 ^ 64 by omega)
      split
      · exact ⟨Or.inr rfl, fun h => absurd h (show -ENOMEM ≠ 0 by decide)⟩
      · rename_i hcheck
        have hfit : off + p.extent ≤ μ.size := hp.fits hcheck
        have hP := hp.ring hfit
        refine (pushFreeBds_always (Or.inr rfl) hn hP _ _ _).bind (fun err _ => ?_)
        split
        · rename_i he'
          exact ⟨Or.inr rfl, fun h0 => absurd h0 he'⟩
        · exact always_store64 hp.header.sentinel ⟨Or.inr rfl, fun _ =>
            ⟨⟨rfl, rfl, hp.shmSize, rfl, hloc, hrem, hpos, hle⟩, hfit⟩⟩

/-- The pools of a channel at `off`, placed. -/
def PoolsPlaced (os : IpcOs) (off n : ℕ) (pools : ℕ → IpcShmPoolCfg)
    (mchan : IpcManagedChannel) : Prop :=
  ∀ p, p < n → (mchan.pools p).bdQueue.Placed os (off + poolOff pools n p) (pools p).numBufs.toNat

/-- What the loop over the pools leaves alone. -/
structure IpcManagedChannel.SameHeader (c c' : IpcManagedChannel) : Prop where
  bdQueue_eq : c'.bdQueue = c.bdQueue
  numPools_eq : c'.numPools = c.numPools
  rxCb_eq : c'.rxCb = c.rxCb
  cbArg_eq : c'.cbArg = c.cbArg

/-- The pool after a pool in its place. -/
theorem laidPoolAddr_next {pools : ℕ → IpcShmPoolCfg} {n p : ℕ} {pool : IpcShmPool}
    (hpool : pool.Laid μ.os (off + poolOff pools n p) (pools p))
    (hfit : off + poolOff pools n p + (pools p).extent ≤ μ.size) :
    (⟨u64 ((laidPoolAddr μ.os (off + poolOff pools n p)).localPoolShm + pool.shmSize),
      u64 ((laidPoolAddr μ.os (off + poolOff pools n p)).remotePoolShm + pool.shmSize)⟩ :
        IpcShmPoolAddr)
      = laidPoolAddr μ.os (off + poolOff pools n (p + 1)) := by
  have hl := μ.localShm_lt
  have hr := μ.remoteShm_lt
  show IpcShmPoolAddr.mk (u64 (μ.localShm + (off + poolOff pools n p) + pool.shmSize))
    (u64 (μ.remoteShm + (off + poolOff pools n p) + pool.shmSize)) = _
  rw [poolOff_succ, hpool.shmSize_eq, u64_of_lt (by omega), u64_of_lt (by omega)]
  simp only [Nat.add_assoc]
  rfl

/-- The pools follow the channel queue. -/
theorem laidPoolAddr_first {pools : ℕ → IpcShmPoolCfg} {n : ℕ}
    (hfit : off + ringBytes (bufsOf pools n) ≤ μ.size) :
    (⟨u64 (μ.localShm + off + ringBytes (bufsOf pools n)),
      u64 (μ.remoteShm + off + ringBytes (bufsOf pools n))⟩ : IpcShmPoolAddr)
      = laidPoolAddr μ.os (off + poolOff pools n 0) := by
  have hl := μ.localShm_lt
  have hr := μ.remoteShm_lt
  rw [poolOff_zero, u64_of_lt (by omega), u64_of_lt (by omega), Nat.add_assoc, Nat.add_assoc]
  rfl

/-- **The loop over the pools**: `k` of the `n` pools are left, those before
are in their place. -/
theorem initPools_always {pools : ℕ → IpcShmPoolCfg} {n k poolId : ℕ}
    {mchan : IpcManagedChannel} (hk : poolId + k = n)
    (hstart : off + poolOff pools n poolId ≤ μ.size)
    (hlaid : ∀ p, p < poolId → (mchan.pools p).Laid μ.os (off + poolOff pools n p) (pools p))
    (hP : ∀ p, p < n → off + poolOff pools n p ≤ μ.size →
      PoolChecked μ P (off + poolOff pools n p) (pools p)) :
    (initPools μ.os μ.size pools k poolId (laidPoolAddr μ.os (off + poolOff pools n poolId))
        mchan).Always (Env μ) (Quiet P)
      (fun r => mchan.SameHeader r.2 ∧
        (PoolsPlaced μ.os off n pools mchan → PoolsPlaced μ.os off n pools r.2) ∧
        ((∀ p, (mchan.pools p).bdQueue.Freeable P) → ∀ p, (r.2.pools p).bdQueue.Freeable P) ∧
        (r.1 = 0 → (∀ p, p < n → (r.2.pools p).Laid μ.os (off + poolOff pools n p) (pools p)) ∧
          off + poolOff pools n n ≤ μ.size)) := by
  induction k generalizing poolId mchan with
  | zero =>
    obtain rfl : poolId = n := by omega
    exact ⟨⟨rfl, rfl, rfl, rfl⟩, fun h => h, fun h => h, fun _ => ⟨hlaid, hstart⟩⟩
  | succ k ih =>
    have hlt : poolId < n := by omega
    have hchk := hP poolId hlt hstart
    rw [initPools]
    refine (ipcBufPoolInit_always poolId hchk).bind ?_
    rintro ⟨err, pool⟩ ⟨hcase, hok⟩
    dsimp only
    have hpl' : PoolsPlaced μ.os off n pools mchan →
        PoolsPlaced μ.os off n pools (mchan.setPool poolId pool) := by
      intro hpl p hp
      by_cases heq : p = poolId
      · subst heq
        simp only [IpcManagedChannel.setPool, Function.update_self]
        exact (hpl p hp).of_init hcase
      · simp only [IpcManagedChannel.setPool, Function.update_of_ne heq]
        exact hpl p hp
    have hfr : (∀ p, (mchan.pools p).bdQueue.Freeable P) →
        ∀ p, ((mchan.setPool poolId pool).pools p).bdQueue.Freeable P := by
      intro hfr p
      by_cases heq : p = poolId
      · subst heq
        simp only [IpcManagedChannel.setPool, Function.update_self]
        exact (hfr p).of_init hcase hchk.header
      · simp only [IpcManagedChannel.setPool, Function.update_of_ne heq]
        exact hfr p
    split
    · rename_i he
      exact ⟨⟨rfl, rfl, rfl, rfl⟩, hpl', hfr, fun h0 => absurd h0 he⟩
    · rename_i he
      obtain ⟨hpool, hfit⟩ := hok (not_not.mp he)
      rw [laidPoolAddr_next hpool hfit]
      have hnext : off + poolOff pools n (poolId + 1) ≤ μ.size := by
        rw [poolOff_succ, ← Nat.add_assoc]
        exact hfit
      refine (ih (by omega) hnext (fun p hp => ?_)).mono (fun _ h => h) (fun r hr => ?_)
      · by_cases heq : p = poolId
        · subst heq
          simp only [IpcManagedChannel.setPool, Function.update_self]
          exact hpool
        · simp only [IpcManagedChannel.setPool, Function.update_of_ne heq]
          exact hlaid p (by omega)
      · exact ⟨⟨hr.1.bdQueue_eq, hr.1.numPools_eq, hr.1.rxCb_eq, hr.1.cbArg_eq⟩,
          fun hpl => hr.2.1 (hpl' hpl), fun h => hr.2.2.1 (hfr h), hr.2.2.2⟩

/-- The loop freeing pool queues stores in their headers. -/
theorem freePools_always {k poolId : ℕ} {mchan : IpcManagedChannel}
    (hP : ∀ p, p < poolId + k → (mchan.pools p).bdQueue.Freeable P) :
    (freePools k poolId mchan).Always (Env μ) (Quiet P)
      (fun r => mchan.SameHeader r ∧ ∀ p, (mchan.pools p).bdQueue.Freed (r.pools p).bdQueue) := by
  induction k generalizing poolId mchan with
  | zero => exact ⟨⟨rfl, rfl, rfl, rfl⟩, fun p => Or.inl rfl⟩
  | succ k ih =>
    have hnext : poolId + 1 + k = poolId + (k + 1) := by omega
    rw [← hnext] at hP
    rw [freePools]
    split
    · exact ih hP
    · refine (ringIsLive_always _).bind (fun live _ => ?_)
      split
      · refine (ipcQueueFree_always (hP poolId (by omega))).bind (fun q hq => ?_)
        have hset : ∀ p, (mchan.pools p).bdQueue.Freed
            ((mchan.setPool poolId { mchan.pools poolId with bdQueue := q }).pools p).bdQueue := by
          intro p
          by_cases heq : p = poolId
          · subst heq
            simp only [IpcManagedChannel.setPool, Function.update_self]
            exact Or.inr hq
          · simp only [IpcManagedChannel.setPool, Function.update_of_ne heq]
            exact Or.inl rfl
        refine (ih (fun p hp => (hset p).freeable (hP p hp))).mono (fun _ h => h) (fun r hr => ?_)
        exact ⟨⟨hr.1.bdQueue_eq, hr.1.numPools_eq, hr.1.rxCb_eq, hr.1.cbArg_eq⟩,
          fun p => (hset p).trans (hr.2 p)⟩
      · exact ih hP

end Pools

/-! ## Channels -/

/-- An access to the control regions of a channel, from the base of a
window. -/
def IpcShmChannelCfg.InCtrl (cc : IpcShmChannelCfg) (base off a k : ℕ) : Prop :=
  ∃ r ∈ cc.ctrl off, (r.shift base).Contains a k

section Channels

variable {μ : ShmMap} {P : ℕ → ℕ → Prop} {off : ℕ} {m : IpcShmManagedCfg}
  {pools : ℕ → IpcShmPoolCfg}

theorem ringAllowed_channel (hpools : m.pools = some pools)
    (hP : ∀ a k, (IpcShmChannelCfg.managed m).InCtrl μ.localShm off a k → P a k) :
    RingAllowed μ P off (bufsOf pools m.numPools.toNat) := by
  intro a k h
  refine hP a k ⟨{ addr := off, size := ringBytes (bufsOf pools m.numPools.toNat) }, ?_, h⟩
  rw [IpcShmChannelCfg.ctrl, hpools]
  exact List.mem_cons_self

theorem headerAllowed {u : IpcShmUnmanagedCfg}
    (hP : ∀ a k, (IpcShmChannelCfg.unmanaged u).InCtrl μ.localShm off a k → P a k) :
    HeaderAllowed P (μ.localShm + off) := by
  intro i k hik
  refine hP _ _ ⟨{ addr := off, size := sizeofIpcChannelUmem }, List.mem_singleton.mpr rfl, ?_⟩
  exact ⟨Nat.le_add_right _ _,
    show μ.localShm + off + i + k ≤ μ.localShm + off + 16 by omega⟩

theorem ringAllowed_pool (hpools : m.pools = some pools)
    (hP : ∀ a k, (IpcShmChannelCfg.managed m).InCtrl μ.localShm off a k → P a k) (p : ℕ)
    (hp : p < m.numPools.toNat) :
    RingAllowed μ P (off + poolOff pools m.numPools.toNat p) (pools p).numBufs.toNat := by
  intro a k h
  refine hP a k ⟨{ addr := off + poolOff pools m.numPools.toNat p
                   size := ringBytes (pools p).numBufs.toNat }, ?_, h⟩
  rw [IpcShmChannelCfg.ctrl, hpools]
  exact List.mem_cons_of_mem _ (List.mem_map.mpr ⟨p, List.mem_range.mpr hp, rfl⟩)

/-- The queues of a managed channel, placed. A channel whose queue is mapped
has no more pools than configured; of another one the number is not looked
at. -/
def IpcManagedChannel.Placed (mchan : IpcManagedChannel) (os : IpcOs) (off : ℕ)
    (m : IpcShmManagedCfg) : Prop :=
  (mchan.bdQueue.pushRing ≠ 0 → mchan.numPools ≤ m.numPools.toNat) ∧
    match m.pools with
    | none => mchan.bdQueue.pushRing = 0
    | some pools => mchan.bdQueue.Placed os off (bufsOf pools m.numPools.toNat) ∧
        PoolsPlaced os off m.numPools.toNat pools mchan

/-- **A channel whose queues are unmapped or in their place.** -/
def IpcShmChannel.Placed (chan : IpcShmChannel) (os : IpcOs) (off : ℕ) :
    IpcShmChannelCfg → Prop
  | .managed m => chan.mng.Placed os off m
  | .unmanaged _ => chan.localMem = 0 ∨ chan.localMem = os.localShm + off
  | .invalid => True

variable {mchan c : IpcManagedChannel} {chan : IpcShmChannel} {cc : IpcShmChannelCfg}

/-- A channel in its place is placed. -/
theorem IpcManagedChannel.Laid.placed {os : IpcOs} (h : mchan.Laid os off m pools) :
    mchan.Placed os off m := by
  refine ⟨fun _ => Nat.le_of_eq h.numPools_eq, ?_⟩
  rw [h.pools_eq]
  exact ⟨Or.inr h.bdQueue_eq, fun p hp => Or.inr (h.pool p hp).bdQueue_eq⟩

theorem IpcShmChannel.Laid.placed {os : IpcOs} (h : chan.Laid os off cc) :
    chan.Placed os off cc := by
  cases cc with
  | managed m =>
    obtain ⟨-, pools, hl⟩ := h
    exact hl.placed
  | unmanaged u => exact Or.inr h.2.localMem_eq
  | invalid => exact False.elim h

/-- All queues of a channel can be freed, those of pools it does not use
included. -/
def IpcManagedChannel.Freeable (mchan : IpcManagedChannel) (P : ℕ → ℕ → Prop) : Prop :=
  mchan.bdQueue.Freeable P ∧ ∀ p, (mchan.pools p).bdQueue.Freeable P

/-- **What freeing a channel as one of a type needs.** The pools of a channel
whose queue is unmapped are not looked at. -/
def IpcShmChannel.FreeableAs (chan : IpcShmChannel) (P : ℕ → ℕ → Prop) :
    IpcShmChannelType → Prop
  | .managed => chan.mng.bdQueue.Freeable P ∧ (chan.mng.bdQueue.pushRing ≠ 0 →
      ∀ p, p < chan.mng.numPools → (chan.mng.pools p).bdQueue.Freeable P)
  | .unmanaged => chan.mng.bdQueue.Freeable P
  | .invalid => True

/-- **A channel some of whose queues were freed.** -/
structure IpcManagedChannel.Freed (c c' : IpcManagedChannel) : Prop where
  numPools_eq : c'.numPools = c.numPools
  bdQueue : c.bdQueue.Freed c'.bdQueue
  pool : ∀ p, (c.pools p).bdQueue.Freed (c'.pools p).bdQueue

theorem IpcManagedChannel.Freed.refl (c : IpcManagedChannel) : c.Freed c :=
  ⟨rfl, Or.inl rfl, fun _ => Or.inl rfl⟩

theorem IpcManagedChannel.Freed.trans {c' c'' : IpcManagedChannel} (h : c.Freed c')
    (h' : c'.Freed c'') : c.Freed c'' :=
  ⟨h'.numPools_eq.trans h.numPools_eq, h.bdQueue.trans h'.bdQueue,
    fun p => (h.pool p).trans (h'.pool p)⟩

theorem IpcManagedChannel.Freed.placed {c' : IpcManagedChannel} {os : IpcOs} (h : c.Freed c')
    (hc : c.Placed os off m) : c'.Placed os off m := by
  unfold IpcManagedChannel.Placed at *
  refine ⟨fun hne => h.numPools_eq.trans_le (hc.1 ?_), ?_⟩
  · rcases h.bdQueue with heq | h0
    · rwa [heq] at hne
    · exact absurd h0 hne
  cases hpools : m.pools with
  | none =>
    have h0 : c.bdQueue.pushRing = 0 := by
      have := hc.2
      rwa [hpools] at this
    rcases h.bdQueue with heq | h0'
    · exact heq ▸ h0
    · exact h0'
  | some pools =>
    have hq : c.bdQueue.Placed os off (bufsOf pools m.numPools.toNat) ∧
        PoolsPlaced os off m.numPools.toNat pools c := by
      have := hc.2
      rwa [hpools] at this
    exact ⟨h.bdQueue.placed hq.1, fun p hp => (h.pool p).placed (hq.2 p hp)⟩

theorem IpcShmChannel.Placed.freed {chan' : IpcShmChannel} {os : IpcOs}
    (hpl : chan.Placed os off cc) (h : chan.mng.Freed chan'.mng) : chan'.Placed os off cc := by
  cases cc with
  | managed m => exact h.placed hpl
  | unmanaged u =>
    have hpl : chan.mng.bdQueue.pushRing = 0 ∨ chan.mng.bdQueue.pushRing = os.localShm + off := hpl
    show chan'.mng.bdQueue.pushRing = 0 ∨ chan'.mng.bdQueue.pushRing = os.localShm + off
    rcases h.bdQueue with heq | h0
    · rwa [heq]
    · exact Or.inl h0
  | invalid => trivial

/-- The buffers of a channel are counted, or the count is `0`. -/
theorem totalBufs_eq (pools : ℕ → IpcShmPoolCfg) (n poolId prev : ℕ)
    (hle : bufsOf pools poolId ≤ ipcShmMaxBufsPerChannel)
    (h : totalBufs pools n poolId prev (bufsOf pools poolId) ≠ 0) :
    totalBufs pools n poolId prev (bufsOf pools poolId) = bufsOf pools (poolId + n) ∧
      bufsOf pools (poolId + n) ≤ ipcShmMaxBufsPerChannel := by
  unfold ipcShmMaxBufsPerChannel at hle ⊢
  induction n generalizing poolId prev with
  | zero => exact ⟨rfl, hle⟩
  | succ n ih =>
    have hlt := (pools poolId).numBufs.toNat_lt
    have hu : u32 (bufsOf pools poolId + (pools poolId).numBufs.toNat)
        = bufsOf pools (poolId + 1) := by
      rw [bufsOf_succ, u32_of_lt (by omega)]
    rw [totalBufs, hu] at h ⊢
    split at h
    · exact absurd rfl h
    · rename_i h₁
      rw [if_neg h₁]
      split at h
      · exact absurd rfl h
      · rename_i h₂
        rw [if_neg h₂]
        unfold ipcShmMaxBufsPerChannel at h₂
        rw [show poolId + (n + 1) = poolId + 1 + n by omega]
        exact ih (poolId + 1) _ (by omega) h

/-- A count that is not zero is the number of buffers, and fits `elem_num`. -/
theorem totalBufs_of_ne {pools : ℕ → IpcShmPoolCfg} {n : ℕ} (h : totalBufs pools n 0 0 0 ≠ 0) :
    totalBufs pools n 0 0 0 = bufsOf pools n ∧ bufsOf pools n ≤ ipcShmMaxBufsPerChannel ∧
      u16 (bufsOf pools n) = bufsOf pools n := by
  obtain ⟨heq, hle⟩ := totalBufs_eq pools n 0 0 (Nat.zero_le _) h
  rw [Nat.zero_add] at heq hle
  refine ⟨heq, hle, u16_of_lt ?_⟩
  unfold ipcShmMaxBufsPerChannel at hle
  omega

/-- **The pools of a channel are sorted by buffer size.** -/
def AscendingPools (pools : ℕ → IpcShmPoolCfg) (n : ℕ) : Prop :=
  ∀ i j, i ≤ j → j < n → (pools i).bufSize.toNat ≤ (pools j).bufSize.toNat

/-- A count other than `0` is that of sorted pools: the loop looks at adjacent
pools only. -/
theorem totalBufs_ascending (pools : ℕ → IpcShmPoolCfg) (n poolId prev total : ℕ)
    (hprev : ∀ i, i < poolId → (pools i).bufSize.toNat ≤ prev)
    (hasc : AscendingPools pools poolId)
    (h : totalBufs pools n poolId prev total ≠ 0) : AscendingPools pools (poolId + n) := by
  induction n generalizing poolId prev total with
  | zero => exact hasc
  | succ n ih =>
    rw [totalBufs] at h
    split at h
    · exact absurd rfl h
    · rename_i hle
      split at h
      · exact absurd rfl h
      · have hlast : ∀ i, i < poolId + 1 → (pools i).bufSize.toNat ≤ (pools poolId).bufSize.toNat :=
          fun i hi => by
            rcases Nat.eq_or_lt_of_le (Nat.lt_succ_iff.mp hi) with rfl | hlt
            · exact Nat.le_refl _
            · exact (hprev i hlt).trans (Nat.not_lt.mp hle)
        rw [show poolId + (n + 1) = poolId + 1 + n by omega]
        refine ih (poolId + 1) _ _ hlast (fun i j hij hj => ?_) h
        rcases Nat.eq_or_lt_of_le (Nat.lt_succ_iff.mp hj) with rfl | hlt
        · exact hlast i (Nat.lt_succ_of_le hij)
        · exact hasc i j hij hlt

/-- **The queue of a managed channel** is initialized in its place. -/
theorem initChannelQueue_always {n : ℕ} (q : IpcQueue) (hn : n ≤ ipcShmMaxBufsPerChannel)
    (hP : HeaderAllowed P (μ.localShm + off)) :
    (initChannelQueue q (laidData μ.os off n .channelQueue)).Always (Env μ) (Quiet P)
      (fun r => (r.2 = q ∨ r.2 = laidQueue μ.os off n) ∧
        (r.1 = 0 → 0 < n ∧ r.2 = laidQueue μ.os off n)) := by
  unfold initChannelQueue
  refine (ipcQueueInit_always q .channelQueue hn hP).bind ?_
  rintro ⟨err, q'⟩ ⟨hcase, hok⟩
  dsimp only
  split
  · exact ⟨hcase, hok⟩
  · rename_i he
    obtain ⟨hpos, rfl⟩ := hok (not_not.mp he)
    exact always_store64 hP.sentinel ⟨hcase, fun _ => ⟨hpos, rfl⟩⟩

theorem IpcManagedChannel.placed_iff {os : IpcOs} (hpools : m.pools = some pools) :
    mchan.Placed os off m ↔
      (mchan.bdQueue.pushRing ≠ 0 → mchan.numPools ≤ m.numPools.toNat) ∧
      mchan.bdQueue.Placed os off (bufsOf pools m.numPools.toNat) ∧
      PoolsPlaced os off m.numPools.toNat pools mchan := by
  unfold IpcManagedChannel.Placed
  rw [hpools]

/-- **A managed channel at `off` that the initialization handles exactly**: the
end of its ring does not wrap, and its pools are handled exactly as far as
they start in the window. -/
structure ManagedChecked (μ : ShmMap) (P : ℕ → ℕ → Prop) (off : ℕ) (m : IpcShmManagedCfg)
    (pools : ℕ → IpcShmPoolCfg) : Prop where
  header : HeaderAllowed P (μ.localShm + off)
  local_lt : bufsOf pools m.numPools.toNat ≤ ipcShmMaxBufsPerChannel →
    μ.localShm + off + ringBytes (bufsOf pools m.numPools.toNat) < 2 ^ 64
  pool : ∀ p, p < m.numPools.toNat → off + poolOff pools m.numPools.toNat p ≤ μ.size →
    PoolChecked μ P (off + poolOff pools m.numPools.toNat p) (pools p)

/-- A ring that passes the check of the code fits. -/
theorem ManagedChecked.fits (hP : ManagedChecked μ P off m pools)
    (hle : bufsOf pools m.numPools.toNat ≤ ipcShmMaxBufsPerChannel)
    (hcheck : ¬u64 (μ.localShm + μ.size)
      < u64 (μ.localShm + off + ringBytes (bufsOf pools m.numPools.toNat))) :
    off + ringBytes (bufsOf pools m.numPools.toNat) ≤ μ.size := by
  rw [u64_of_lt μ.localShm_lt, u64_of_lt (hP.local_lt hle)] at hcheck
  omega

/-- **What `managed_channel_init` leaves.** -/
structure ManagedOutcome (μ : ShmMap) (P : ℕ → ℕ → Prop) (off : ℕ) (m : IpcShmManagedCfg)
    (mchan : IpcManagedChannel) (r : ℤ × IpcManagedChannel) : Prop where
  placed : mchan.Placed μ.os off m → r.2.Placed μ.os off m
  freeable : mchan.Freeable P → r.2.Freeable P
  ready : r.1 = 0 → ∃ pools, r.2.Laid μ.os off m pools ∧
    off + poolOff pools m.numPools.toNat m.numPools.toNat ≤ μ.size ∧
    AscendingPools pools m.numPools.toNat

/-- Anything that keeps the queues, or puts the channel queue in its place,
fails well. -/
theorem ManagedOutcome.failed {err : ℤ} (he : err ≠ 0) (hpools : m.pools = some pools)
    (hnum : c.numPools = m.numPools.toNat)
    (hq : c.bdQueue = mchan.bdQueue ∨
      c.bdQueue = laidQueue μ.os off (bufsOf pools m.numPools.toNat))
    (hps : c.pools = mchan.pools) (hP : HeaderAllowed P (μ.localShm + off)) :
    ManagedOutcome μ P off m mchan (err, c) where
  placed := fun hpl => by
    obtain ⟨-, hq', hps'⟩ := (IpcManagedChannel.placed_iff hpools).mp hpl
    refine (IpcManagedChannel.placed_iff hpools).mpr
      ⟨fun _ => Nat.le_of_eq hnum, hq'.of_init hq, fun p hp => ?_⟩
    rw [hps]
    exact hps' p hp
  freeable := fun h => ⟨h.1.of_init hq hP, fun p => by
    rw [hps]
    exact h.2 p⟩
  ready := fun h => absurd h he

/-- What `managed_channel_init` does once the queue of the channel is
initialized. -/
theorem managedChannelPools_always (hpools : m.pools = some pools)
    (hnp : m.numPools.toNat ≤ ipcShmMaxPools) (hpos : 0 < bufsOf pools m.numPools.toNat)
    (hle : bufsOf pools m.numPools.toNat ≤ ipcShmMaxBufsPerChannel)
    (hasc : AscendingPools pools m.numPools.toNat)
    (hring : off + ringBytes (bufsOf pools m.numPools.toNat) ≤ μ.size)
    (hq : c.bdQueue = laidQueue μ.os off (bufsOf pools m.numPools.toNat))
    (hnum : c.numPools = m.numPools.toNat) (hcb : c.rxCb = m.rxCb) (harg : c.cbArg = m.cbArg)
    (hps : c.pools = mchan.pools) (hP : ManagedChecked μ P off m pools) :
    (initPools μ.os μ.size pools m.numPools.toNat 0
        { localPoolShm := u64 (μ.localShm + off + ringBytes (bufsOf pools m.numPools.toNat))
          remotePoolShm := u64 (μ.remoteShm + off + ringBytes (bufsOf pools m.numPools.toNat)) }
        c).Always (Env μ) (Quiet P) (ManagedOutcome μ P off m mchan) := by
  rw [laidPoolAddr_first hring]
  refine (initPools_always (Nat.zero_add _) (by rw [poolOff_zero]; exact hring)
    (fun p hp => absurd hp (Nat.not_lt_zero p)) hP.pool).mono (fun _ h => h) ?_
  rintro ⟨err, c'⟩ ⟨hsame, hpl, hfr, hok⟩
  have hq' : c'.bdQueue = laidQueue μ.os off (bufsOf pools m.numPools.toNat) :=
    hsame.bdQueue_eq.trans hq
  have hnum' : c'.numPools = m.numPools.toNat := hsame.numPools_eq.trans hnum
  refine ⟨fun h => (IpcManagedChannel.placed_iff hpools).mpr
      ⟨fun _ => Nat.le_of_eq hnum', Or.inr hq', hpl ?_⟩,
    fun h => ⟨?_, hfr (by rw [hps]; exact h.2)⟩,
    fun h0 => ⟨pools, ⟨hpools, hnum', hnp, hsame.rxCb_eq.trans hcb, hsame.cbArg_eq.trans harg,
      hpos, hle, hq', (hok h0).1⟩, (hok h0).2, hasc⟩⟩
  · intro p hp
    rw [hps]
    exact ((IpcManagedChannel.placed_iff hpools).mp h).2.2 p hp
  · exact Or.inr (hq' ▸ hP.header)

/-- **`managed_channel_init`** puts a managed channel in its place, if it
fits. -/
theorem managedChannelInit_always
    (hP : ∀ pools, m.pools = some pools → ManagedChecked μ P off m pools) :
    (managedChannelInit μ.os μ.size mchan (μ.localShm + off) (μ.remoteShm + off) m).Always
      (Env μ) (Quiet P) (ManagedOutcome μ P off m mchan) := by
  have hinval : -EINVAL ≠ 0 := by decide
  have hnomem : -ENOMEM ≠ 0 := by decide
  have hsame : ManagedOutcome μ P off m mchan (-EINVAL, mchan) :=
    ⟨fun h => h, fun h => h, fun h => absurd h hinval⟩
  unfold managedChannelInit
  split
  · exact hsame
  · cases hpools : m.pools with
    | none => exact hsame
    | some pools =>
      have hP := hP pools hpools
      dsimp only [ipcGetTotalBufPerChan]
      split
      · exact hsame
      · rename_i hnp
        split
        · exact .failed hinval hpools rfl (Or.inl rfl) rfl hP.header
        · rename_i htot
          obtain ⟨heq, hle, hu⟩ := totalBufs_of_ne htot
          have hasc := totalBufs_ascending pools m.numPools.toNat 0 0 0
            (fun i hi => absurd hi (Nat.not_lt_zero i))
            (fun i j _ hj => absurd hj (Nat.not_lt_zero j)) htot
          rw [Nat.zero_add] at hasc
          rw [heq, hu]
          refine (initChannelQueue_always _ hle hP.header).bind ?_
          rintro ⟨err, q⟩ ⟨hcase, hok⟩
          dsimp only
          split
          · rename_i he
            exact .failed he hpools rfl hcase rfl hP.header
          · rename_i he
            obtain ⟨hpos, rfl⟩ := hok (not_not.mp he)
            rw [ipcQueueMemSize_laid hle]
            split
            · exact .failed hnomem hpools rfl hcase rfl hP.header
            · rename_i hcheck
              exact managedChannelPools_always hpools (Nat.not_lt.mp hnp) hpos hle hasc
                (hP.fits hle hcheck) rfl rfl rfl rfl rfl hP

/-- **`unmanaged_channel_init`** puts an unmanaged channel in its place. -/
theorem unmanagedChannelInit_always (chan : IpcShmChannel) {u : IpcShmUnmanagedCfg}
    (hP : HeaderAllowed P (μ.localShm + off)) :
    (unmanagedChannelInit chan (μ.localShm + off) (μ.remoteShm + off) u).Always
      (Env μ) (Quiet P)
      (fun r => r.2.type = chan.type ∧ r.2.id = chan.id ∧
        (r.2.localMem = chan.localMem ∨ r.2.localMem = μ.localShm + off) ∧
        (∀ p, r.2.mng.pools p = chan.mng.pools p) ∧
        (r.1 = 0 → r.2.UnmanagedLaid μ.os off u)) := by
  have h0 : P (μ.localShm + off) 4 := hP 0 4 (by decide)
  have h4 : P (μ.localShm + off + 4) 4 := hP 4 4 (by decide)
  have h8 : P (μ.localShm + off + 8) 4 := hP 8 4 (by decide)
  unfold unmanagedChannelInit
  split
  · exact ⟨rfl, rfl, Or.inl rfl, fun _ => rfl, fun h => absurd h (show -EINVAL ≠ 0 by decide)⟩
  · rename_i hcfg
    have hsz : u.size.toNat ≤ ipcShmMaxUmngSize :=
      Nat.not_lt.mp (fun h => hcfg (Or.inr h))
    refine always_load32 (fun v _ => ?_)
    split
    · exact ⟨rfl, rfl, Or.inr rfl, fun _ => rfl, fun h => absurd h (show -EAGAIN ≠ 0 by decide)⟩
    · refine always_store32 h0 (always_load32 (fun v _ => ?_))
      split
      · exact always_load32 (fun _ _ => always_store32 h4 (always_load32 (fun _ _ =>
          always_store32 h8 (always_store32 h0
            ⟨rfl, rfl, Or.inr rfl, fun _ => rfl, fun _ => ⟨rfl, rfl, rfl, rfl, rfl, hsz⟩⟩))))
      · exact always_store32 h4 (always_store32 h8 (always_store32 h0
          ⟨rfl, rfl, Or.inr rfl, fun _ => rfl, fun _ => ⟨rfl, rfl, rfl, rfl, rfl, hsz⟩⟩))

/-- **A channel at `off` that the initialization handles exactly.** Unmanaged
channels are not checked against the window at all. -/
def ChannelChecked (μ : ShmMap) (P : ℕ → ℕ → Prop) (off : ℕ) : IpcShmChannelCfg → Prop
  | .managed m => ∀ pools, m.pools = some pools → ManagedChecked μ P off m pools
  | .unmanaged u => HeaderAllowed P (μ.localShm + off) ∧
      off + (IpcShmChannelCfg.unmanaged u).extent ≤ μ.size
  | .invalid => True

theorem ChannelChecked.of_fit (hsize : μ.size < 2 ^ 32) (hfit : off + cc.extent ≤ μ.size)
    (hP : ∀ a k, cc.InCtrl μ.localShm off a k → P a k) : ChannelChecked μ P off cc := by
  cases cc with
  | managed m =>
    intro pools hpools
    rw [IpcShmChannelCfg.extent, hpools] at hfit
    dsimp only at hfit
    have hring := poolOff_mono pools m.numPools.toNat (Nat.zero_le m.numPools.toNat)
    rw [poolOff_zero] at hring
    have hl := μ.localShm_lt
    refine ⟨(ringAllowed_channel hpools hP).header, fun _ => by omega, fun p hp _ => ?_⟩
    have hend := poolOff_add_extent_le pools m.numPools.toNat hp
    exact .of_fit hsize (by omega) (ringAllowed_pool hpools hP p hp)
  | unmanaged u => exact ⟨headerAllowed hP, hfit⟩
  | invalid => trivial

/-- The pools of a channel are sorted by buffer size, if it has any. -/
def IpcShmChannelCfg.Ascending : IpcShmChannelCfg → Prop
  | .managed m => ∀ pools, m.pools = some pools → AscendingPools pools m.numPools.toNat
  | _ => True

/-- **What `ipc_shm_init_channels` leaves.** -/
structure ChannelOutcome (μ : ShmMap) (P : ℕ → ℕ → Prop) (off c : ℕ) (cc : IpcShmChannelCfg)
    (chan : IpcShmChannel) (r : ℤ × IpcShmChannel) : Prop where
  placed : chan.Placed μ.os off cc → r.2.Placed μ.os off cc
  freeable : chan.mng.Freeable P → r.2.mng.Freeable P
  ready : r.1 = 0 → r.2.id = c ∧ r.2.Laid μ.os off cc
  fits : r.1 = 0 → off + cc.extent ≤ μ.size ∧ cc.Ascending

/-- **`ipc_shm_init_channels`** puts one channel in its place, if it fits. -/
theorem ipcShmInitChannels_always (c : ℕ) (hP : ChannelChecked μ P off cc) :
    (ipcShmInitChannels μ.os μ.size chan c (μ.localShm + off) (μ.remoteShm + off)
        (some cc)).Always (Env μ) (Quiet P) (ChannelOutcome μ P off c cc chan) := by
  unfold ipcShmInitChannels
  cases cc with
  | managed m =>
    refine (managedChannelInit_always hP).bind ?_
    rintro ⟨err, mng⟩ hout
    refine ⟨hout.placed, hout.freeable, fun h0 => ⟨rfl, rfl, ?_⟩, fun h0 => ?_⟩
    · obtain ⟨pools, hl, -⟩ := hout.ready h0
      exact ⟨pools, hl⟩
    · obtain ⟨pools, hl, hfit, hasc⟩ := hout.ready h0
      rw [IpcShmChannelCfg.extent, hl.pools_eq]
      refine ⟨hfit, fun pools' hpools' => ?_⟩
      rw [hl.pools_eq] at hpools'
      exact Option.some.inj hpools' ▸ hasc
  | unmanaged u =>
    refine (unmanagedChannelInit_always { chan with id := c, type := .unmanaged } hP.1).mono
      (fun _ h => h) ?_
    rintro ⟨err, chan'⟩ ⟨htype, hid, hcase, hps, hok⟩
    have hcase : chan'.mng.bdQueue.pushRing = chan.mng.bdQueue.pushRing ∨
      chan'.mng.bdQueue.pushRing = μ.localShm + off := hcase
    refine ⟨fun hpl => ?_, fun hfr => ⟨?_, fun p => ?_⟩, fun h0 => ⟨hid, htype, hok h0⟩,
      fun _ => ⟨hP.2, trivial⟩⟩
    · rcases hcase with h | h
      · exact hpl.imp (fun h0 => h.trans h0) (fun h0 => h.trans h0)
      · exact Or.inr h
    · show chan'.mng.bdQueue.pushRing = 0 ∨ HeaderAllowed P chan'.mng.bdQueue.pushRing
      rcases hcase with h | h
      · rw [h]
        exact hfr.1
      · rw [h]
        exact Or.inr hP.1
    · show (chan'.mng.pools p).bdQueue.Freeable P
      rw [hps p]
      exact hfr.2 p
  | invalid =>
    have hinval : -EINVAL ≠ 0 := by decide
    exact ⟨fun _ => trivial, fun h => h, fun h => absurd h hinval, fun h => absurd h hinval⟩

/-- A placed channel can be freed as one of its type. -/
theorem IpcShmChannel.Placed.freeableAs (hpl : chan.Placed μ.os off cc)
    (hP : ∀ a k, cc.InCtrl μ.localShm off a k → P a k) : chan.FreeableAs P cc.type := by
  cases cc with
  | managed m =>
    cases hpools : m.pools with
    | none =>
      have h0 : chan.mng.bdQueue.pushRing = 0 := by
        have h := hpl.2
        rwa [hpools] at h
      exact ⟨Or.inl h0, fun hne => absurd h0 hne⟩
    | some pools =>
      obtain ⟨hnum, hq, hps⟩ := (IpcManagedChannel.placed_iff hpools).mp hpl
      refine ⟨hq.freeable (ringAllowed_channel hpools hP).header, fun hne p hp => ?_⟩
      have hp' := hp.trans_le (hnum hne)
      exact (hps p hp').freeable (ringAllowed_pool hpools hP p hp').header
  | unmanaged u =>
    rcases hpl with h | h
    · exact Or.inl h
    · have h : chan.mng.bdQueue.pushRing = μ.localShm + off := h
      show chan.mng.bdQueue.pushRing = 0 ∨ HeaderAllowed P chan.mng.bdQueue.pushRing
      rw [h]
      exact Or.inr (headerAllowed hP)
  | invalid => trivial

/-- **`ipc_shm_free_channel`** stores in the headers of the channel and frees
queues, nothing else. -/
theorem ipcShmFreeChannel_always {type : IpcShmChannelType} (hP : chan.FreeableAs P type) :
    (ipcShmFreeChannel chan type).Always (Env μ) (Quiet P) (fun r => chan.mng.Freed r.mng) := by
  unfold ipcShmFreeChannel
  cases type with
  | managed =>
    dsimp only
    split
    · rename_i hne
      unfold ipcShmFreeManagedChannel
      refine Program.Always.bind (P := fun mng => chan.mng.Freed mng) ?_ (fun mng h => h)
      refine (ringIsLive_always _).bind (fun live _ => ?_)
      split
      · refine (ipcQueueFree_always hP.1).bind (fun q hq => ?_)
        have hps : ∀ p, p < 0 + chan.mng.numPools →
            (({ chan.mng with bdQueue := q } : IpcManagedChannel).pools p).bdQueue.Freeable P :=
          fun p hp => hP.2 hne p (by omega)
        refine (freePools_always hps).mono (fun _ h => h) (fun r hr => ?_)
        exact ⟨hr.1.numPools_eq, Or.inr (hr.1.bdQueue_eq ▸ hq), hr.2⟩
      · exact .refl _
    · exact .refl _
  | unmanaged =>
    dsimp only
    split
    · rename_i hne
      have hP : HeaderAllowed P chan.localMem := hP.resolve_left hne
      exact always_store32 (hP 0 4 (by decide)) (always_store32 (hP 4 4 (by decide))
        (always_store32 (hP 8 4 (by decide)) ⟨rfl, Or.inr rfl, fun _ => Or.inl rfl⟩))
    · exact .refl _
  | invalid => exact .refl _

end Channels
