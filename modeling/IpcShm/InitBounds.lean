import IpcShm.Interference

/-!
# What initialization checks

The sizes of a configuration are natural numbers here and 32-bit words in the
driver, and the driver compares the end of a pool with the end of the window
only after it has written the header of the pool's ring. This module says how
far that goes.

For one pool, the size the driver stores is the exact one if and only if the
exact one fits in 32 bits, among the pools that are let through. That is not
checked: `num_bufs * buf_size` is computed in `uint32_t`, and a product of
`2 ^ 32` is taken for an empty area.

For a whole instance, a configuration is *checked* if no header straddles the
end of the window; its channels need not fit. The header of the instance and the
unmanaged channels are not checked against the window, and the header of a ring
is written before its check – so a header that starts where the window ends is
written behind it.
-/

/-! ## The size of a pool -/

/-- The queue that `ipc_queue_init` leaves on success. -/
theorem ipcQueueInit_ready (q : IpcQueue) (data : IpcQueueData) :
    (ipcQueueInit q data).Always (fun _ _ => True) (fun _ => True)
      (fun r => r.1 = 0 → data.pushAddr ≠ 0 ∧ data.popAddr ≠ 0 ∧ data.elemNum ≠ 0 ∧
        r.2 = ⟨data.elemSize, u16 (data.elemNum + 1), data.pushAddr, data.popAddr⟩) := by
  unfold ipcQueueInit
  split
  · exact fun h => absurd h (show -EINVAL ≠ 0 by decide)
  · rename_i hargs
    simp only [not_or] at hargs
    exact (Program.Always.trivial _).bind
      (fun _ _ _ => ⟨hargs.1, hargs.2.1, hargs.2.2.1, rfl⟩)

/-- The memory of the queue of a pool. -/
theorem poolQueue_memSize {n : ℕ} (hn : n ≤ ipcShmMaxBufsPerPool) (a b : ℕ) :
    ipcQueueMemSize ⟨sizeofIpcShmBd, u16 (n + 1), a, b⟩ = ringBytes n := by
  unfold ipcShmMaxBufsPerPool at hn
  show u32 (16 + u32 (u16 (n + 1) * 8)) = 16 + (n + 1) * 8
  rw [u16_of_lt (by omega), u32_of_lt (show (n + 1) * 8 < 2 ^ 32 by omega), u32_of_lt (by omega)]

/-- **What `ipc_buf_pool_init` computes and compares**, with any replies. The
size is a sum and a product of 32-bit words. -/
theorem ipcBufPoolInit_computes (os : IpcOs) (shmSize : ℕ) (pool : IpcShmPool) (poolId : ℕ)
    (addr : IpcShmPoolAddr) (p : IpcShmPoolCfg) :
    (ipcBufPoolInit os shmSize pool poolId addr p).Always (fun _ _ => True) (fun _ => True)
      (fun r => r.1 = 0 → 1 ≤ p.numBufs.toNat ∧ p.numBufs.toNat ≤ ipcShmMaxBufsPerPool ∧
        addr.localPoolShm ≠ 0 ∧ addr.remotePoolShm ≠ 0 ∧
        r.2.numBufs = p.numBufs.toNat ∧ r.2.bufSize = p.bufSize.toNat ∧
        r.2.shmSize = u32 (ringBytes p.numBufs.toNat + u32 (p.bufSize.toNat * p.numBufs.toNat)) ∧
        r.2.localPoolAddr = u64 (addr.localPoolShm + ringBytes p.numBufs.toNat) ∧
        r.2.remotePoolAddr = u64 (addr.remotePoolShm + ringBytes p.numBufs.toNat) ∧
        u64 (addr.localPoolShm + r.2.shmSize) ≤ u64 (os.localShm + shmSize)) := by
  unfold ipcBufPoolInit
  split
  · exact fun h => absurd h (show -EINVAL ≠ 0 by decide)
  rename_i hle
  have hle : p.numBufs.toNat ≤ ipcShmMaxBufsPerPool := Nat.not_lt.mp hle
  refine (ipcQueueInit_ready _ _).bind ?_
  rintro ⟨err, q⟩ hq
  dsimp only
  split
  · rename_i he
    exact fun h0 => absurd h0 he
  rename_i he
  obtain ⟨hlocal, hremote, hpos, rfl⟩ := hq (not_not.mp he)
  rw [poolQueue_memSize hle]
  split
  · exact fun h => absurd h (show -ENOMEM ≠ 0 by decide)
  rename_i hcheck
  refine (Program.Always.trivial _).bind (fun err' _ => ?_)
  split
  · rename_i he'
    exact fun h0 => absurd h0 he'
  · exact ⟨trivial, fun _ _ _ => ⟨Nat.pos_of_ne_zero hpos, hle, hlocal, hremote, rfl, rfl, rfl,
      rfl, rfl, Nat.not_lt.mp hcheck⟩⟩

/-- **The pool is let through**, at the given addresses: the number of buffers
is accepted, the addresses are not `NULL`, and the check of the end passes, on
the size as `ipc_buf_pool_init` computes it. -/
def IpcShmPoolCfg.LetThrough (p : IpcShmPoolCfg) (μ : ShmMap) (addr : IpcShmPoolAddr) : Prop :=
  1 ≤ p.numBufs.toNat ∧ p.numBufs.toNat ≤ ipcShmMaxBufsPerPool ∧
    addr.localPoolShm ≠ 0 ∧ addr.remotePoolShm ≠ 0 ∧
    u64 (addr.localPoolShm
      + u32 (ringBytes p.numBufs.toNat + u32 (p.bufSize.toNat * p.numBufs.toNat)))
      ≤ μ.localShm + μ.size

/-- **The sizes of a pool are exact**: the size stored is the exact one and ends
in the window, no product of a buffer number and the buffer size wraps, and
every buffer ends before the next pool starts – seen from the remote as well,
where the pool does not end beyond the address space there. -/
structure IpcShmPool.SizedExactly (pool : IpcShmPool) (μ : ShmMap) (addr : IpcShmPoolAddr)
    (p : IpcShmPoolCfg) : Prop where
  shmSize_eq : pool.shmSize
    = 16 + (p.numBufs.toNat + 1) * 8 + p.numBufs.toNat * p.bufSize.toNat
  fits : addr.localPoolShm + pool.shmSize ≤ μ.localShm + μ.size
  area_eq : u32 (pool.numBufs * pool.bufSize) = p.numBufs.toNat * p.bufSize.toNat
  index_eq : ∀ bufId, bufId < p.numBufs.toNat →
    u32 (bufId * pool.bufSize) = bufId * p.bufSize.toNat
  localBuf : ∀ bufId, bufId < p.numBufs.toNat → addr.localPoolShm ≤ pool.localPoolAddr ∧
    pool.localPoolAddr + bufId * p.bufSize.toNat + p.bufSize.toNat
      ≤ addr.localPoolShm + pool.shmSize
  remoteBuf : addr.remotePoolShm + p.extent < 2 ^ 64 → ∀ bufId, bufId < p.numBufs.toNat →
    addr.remotePoolShm ≤ pool.remotePoolAddr ∧
    pool.remotePoolAddr + bufId * p.bufSize.toNat + p.bufSize.toNat
      ≤ addr.remotePoolShm + pool.shmSize

section PoolSize

variable {μ : ShmMap} {addr : IpcShmPoolAddr} {p : IpcShmPoolCfg}

/-- The queue is set up, if the remote has not initialized it. -/
theorem ipcQueueInit_returns {q : IpcQueue} {data : IpcQueueData} (hpush : data.pushAddr ≠ 0)
    (hpop : data.popAddr ≠ 0) (hnum : data.elemNum ≠ 0) (hsize : data.elemSize ≠ 0)
    (hmod : data.elemSize % 8 = 0) :
    (ipcQueueInit q data).Returns (Env μ)
      (0, ⟨data.elemSize, u16 (data.elemNum + 1), data.pushAddr, data.popAddr⟩) := by
  rw [ipcQueueInit, if_neg (by tauto)]
  exact ⟨0, env_load_zero _ _ _, (), trivial, 0, env_load_zero _ _ _, (), trivial, (), trivial, rfl⟩

/-- A queue of one element can be pushed into at any index it has, if the
remote has popped everything. -/
theorem ipcQueuePush_returns {q : IpcQueue} (hpush : q.pushRing ≠ 0) (hpop : q.popRing ≠ 0)
    (write : ℕ) (hwrite : write + 1 < q.elemNum) (hnum : q.elemNum < 2 ^ 16) (bs : List UInt8) :
    (ipcQueuePush q bs).Returns (Env μ) 0 := by
  have hnext : u32 (write + 1) % q.elemNum = write + 1 := by
    rw [u32_of_lt (by omega), Nat.mod_eq_of_lt hwrite]
  rw [ipcQueuePush, if_neg (not_or.mpr ⟨hpush, hpop⟩), load32_bind]
  refine ⟨write, show write < 256 ^ 4 by omega, ?_⟩
  dsimp only
  rw [load32_bind]
  refine ⟨0, env_load_zero _ _ _, ?_⟩
  dsimp only
  rw [if_neg (by omega), remU_of_pos (by omega), Program.pure_bind, hnext, if_neg (by omega)]
  exact ⟨(), trivial, (), trivial, rfl⟩

theorem pushFreeBds_returns {q : IpcQueue} (hpush : q.pushRing ≠ 0) (hpop : q.popRing ≠ 0)
    (hnum : q.elemNum < 2 ^ 16) (poolId : ℕ) {n bufId : ℕ} (hn : bufId + n < q.elemNum) :
    (pushFreeBds q poolId n bufId).Returns (Env μ) 0 := by
  induction n generalizing bufId with
  | zero => exact rfl
  | succ n ih =>
    refine (ipcQueuePush_returns hpush hpop bufId (by omega) hnum _).bind ?_
    exact ih (by omega)

/-- **A pool that is let through can be accepted**: it is in memory the remote
has not initialized. -/
theorem IpcShmPoolCfg.LetThrough.returns (h : p.LetThrough μ addr) (pool : IpcShmPool)
    (poolId : ℕ) :
    ∃ pool', (ipcBufPoolInit μ.os μ.size pool poolId addr p).Returns (Env μ) (0, pool') := by
  obtain ⟨hpos, hmax, hlocal, hremote, hfit⟩ := h
  have hnum : u16 (p.numBufs.toNat + 1) = p.numBufs.toNat + 1 := by
    unfold ipcShmMaxBufsPerPool at hmax
    exact u16_of_lt (by omega)
  rw [ipcBufPoolInit, if_neg (Nat.not_lt.mpr hmax)]
  refine Exists.imp (fun _ h => Program.Returns.bind (ipcQueueInit_returns hlocal hremote
    (show p.numBufs.toNat ≠ 0 by omega) (show sizeofIpcShmBd ≠ 0 by decide)
    (show sizeofIpcShmBd % 8 = 0 by decide)) h) ?_
  dsimp only
  have hfits : ¬u64 (μ.os.localShm + μ.size) < u64 (addr.localPoolShm
      + u32 (ringBytes p.numBufs.toNat + u32 (p.bufSize.toNat * p.numBufs.toNat))) :=
    Nat.not_lt.mpr (hfit.trans (Nat.le_of_eq (u64_of_lt μ.localShm_lt).symm))
  rw [if_neg (not_not.mpr rfl), poolQueue_memSize hmax, if_neg hfits]
  refine ⟨_, (pushFreeBds_returns hlocal hremote ?_ poolId ?_).bind ⟨(), trivial, rfl⟩⟩
  · unfold ipcShmMaxBufsPerPool at hmax
    dsimp only
    omega
  · dsimp only
    omega

variable {pool pool' : IpcShmPool} {poolId : ℕ}

/-- An accepted pool was let through, with what was computed. -/
theorem computed_of_returns
    (hret : (ipcBufPoolInit μ.os μ.size pool poolId addr p).Returns (Env μ) (0, pool')) :
    p.LetThrough μ addr ∧ pool'.numBufs = p.numBufs.toNat ∧ pool'.bufSize = p.bufSize.toNat ∧
      pool'.shmSize = u32 (ringBytes p.numBufs.toNat + u32 (p.bufSize.toNat * p.numBufs.toNat)) ∧
      pool'.localPoolAddr = u64 (addr.localPoolShm + ringBytes p.numBufs.toNat) ∧
      pool'.remotePoolAddr = u64 (addr.remotePoolShm + ringBytes p.numBufs.toNat) := by
  obtain ⟨hpos, hmax, hlocal, hremote, hnum, hsz, hshm, hloc, hrem, hcheck⟩ :=
    ((ipcBufPoolInit_computes μ.os μ.size pool poolId addr p).restrict
      (fun _ _ _ => trivial)).of_returns hret rfl
  rw [hshm, show u64 (μ.os.localShm + μ.size) = μ.localShm + μ.size from
    u64_of_lt μ.localShm_lt] at hcheck
  exact ⟨⟨hpos, hmax, hlocal, hremote, hcheck⟩, hnum, hsz, hshm, hloc, hrem⟩

/-- An exact size is one of 32 bits, and a pool in the window ends in the
address space. -/
theorem IpcShmPool.SizedExactly.extent_lt (h : pool'.SizedExactly μ addr p)
    (hret : (ipcBufPoolInit μ.os μ.size pool poolId addr p).Returns (Env μ) (0, pool')) :
    p.extent < 2 ^ 32 ∧ addr.localPoolShm + p.extent < 2 ^ 64 := by
  obtain ⟨-, -, -, hshm, -, -⟩ := computed_of_returns hret
  have hext : pool'.shmSize = p.extent := h.shmSize_eq
  have hfits := h.fits
  have hwin : μ.localShm + μ.size < 2 ^ 64 := μ.localShm_lt
  rw [hext] at hshm hfits
  refine ⟨?_, by omega⟩
  rw [hshm]
  exact Nat.mod_lt _ (by decide)

/-- **The sizes of an accepted pool are exact**, if the exact size fits in 32
bits and ends in the address space. -/
theorem sizedExactly_of_returns (hext : p.extent < 2 ^ 32)
    (hend : addr.localPoolShm + p.extent < 2 ^ 64)
    (hret : (ipcBufPoolInit μ.os μ.size pool poolId addr p).Returns (Env μ) (0, pool')) :
    pool'.SizedExactly μ addr p := by
  obtain ⟨⟨-, -, -, -, hcheck⟩, hnum, hsz, hshm, hloc, hrem⟩ := computed_of_returns hret
  have hring : ringBytes p.numBufs.toNat = 16 + (p.numBufs.toNat + 1) * 8 := rfl
  have hextent : p.extent = 16 + (p.numBufs.toNat + 1) * 8 + p.numBufs.toNat * p.bufSize.toNat :=
    rfl
  rw [hextent] at hext hend
  rw [Nat.mul_comm p.bufSize.toNat, hring, u32_of_lt (n := p.numBufs.toNat * p.bufSize.toNat)
    (by omega), u32_of_lt hext] at hshm hcheck
  rw [hring, u64_of_lt (by omega)] at hloc
  rw [u64_of_lt (by omega), ← hshm] at hcheck
  -- the buffer after this one starts where this one ends
  have hnext : ∀ bufId, bufId < p.numBufs.toNat →
      bufId * p.bufSize.toNat + p.bufSize.toNat ≤ p.numBufs.toNat * p.bufSize.toNat := by
    intro bufId hbuf
    rw [← Nat.succ_mul]
    exact Nat.mul_le_mul_right _ hbuf
  refine ⟨hshm, hcheck, ?_, fun bufId hbuf => ?_, fun bufId hbuf => ?_, fun hrend bufId hbuf => ?_⟩
  · rw [hnum, hsz]
    exact u32_of_lt (by omega)
  · have hle := hnext bufId hbuf
    rw [hsz]
    exact u32_of_lt (by omega)
  · have hle := hnext bufId hbuf
    exact ⟨by omega, by omega⟩
  · have hle := hnext bufId hbuf
    rw [hring, u64_of_lt (by omega)] at hrem
    exact ⟨by omega, by omega⟩

end PoolSize

/-- **When the sizes of accepted pools are exact.** Among the pools that are let
through, those whose exact size fits in 32 bits and ends in the address space,
and no others. -/
theorem ipcBufPoolInit_exact (μ : ShmMap) (pool : IpcShmPool) (poolId : ℕ)
    (addr : IpcShmPoolAddr) (p : IpcShmPoolCfg) :
    (∀ pool', (ipcBufPoolInit μ.os μ.size pool poolId addr p).Returns (Env μ) (0, pool') →
      pool'.SizedExactly μ addr p) ↔
    (p.LetThrough μ addr → p.extent < 2 ^ 32 ∧ addr.localPoolShm + p.extent < 2 ^ 64) := by
  constructor
  · intro h hlet
    obtain ⟨pool', hret⟩ := hlet.returns pool poolId
    exact (h pool' hret).extent_lt hret
  · intro h pool' hret
    obtain ⟨hext, hend⟩ := h (computed_of_returns hret).1
    exact sizedExactly_of_returns hext hend hret

/-- A pool of two buffers of 16 bytes, initialized in cleared memory. -/
theorem ipcBufPoolInit_exact_small : ∃ pool' : IpcShmPool, pool'.shmSize = 72 ∧
    ∀ bufId, bufId < 2 → pool'.localPoolAddr + bufId * 16 + 16 ≤ 0x1008 + pool'.shmSize := by
  have hrun : ((ipcBufPoolInit (twoWindows .a).os 0x1000 {} 0 ⟨0x1008, 0x2008⟩ ⟨2, 16⟩).run
      (memHandle (twoWindows .a) .a) (fun _ _ => 0)).map (fun r => r.1.1) = some 0 := by
    decide +kernel
  obtain ⟨⟨⟨err, pool'⟩, shm⟩, hrun, rfl⟩ := Option.map_eq_some_iff.mp hrun
  have hexact := (ipcBufPoolInit_exact (twoWindows .a) {} 0 ⟨0x1008, 0x2008⟩ ⟨2, 16⟩).mpr
    (fun _ => ⟨by decide, by decide⟩) pool' (Program.returns_of_run env_of_memHandle hrun)
  exact ⟨pool', hexact.shmSize_eq, fun bufId h => (hexact.localBuf bufId h).2⟩

/-- **A wrapped size is accepted.** Two buffers of `2 ^ 31` bytes in a window of
4 KiB: the product is `0` in 32 bits, and the pool is taken to end after its
ring. -/
theorem ipcBufPoolInit_wraps :
    ((ipcBufPoolInit (twoWindows .a).os 0x1000 {} 0 ⟨0x1008, 0x2008⟩ ⟨2, 0x80000000⟩).run
      (memHandle (twoWindows .a) .a) (fun _ _ => 0)).map (fun r => (r.1.1, r.1.2.shmSize))
      = some (0, 40) ∧
    16 + (2 + 1) * 8 + 2 * 0x80000000 = 40 + 2 ^ 32 := by
  decide +kernel

/-! ## The window of an instance -/

/-- A store to `k` bytes at `a` lies in the local window. -/
def InWindow (μ : ShmMap) (a k : ℕ) : Prop :=
  Region.Contains { addr := μ.localShm, size := μ.size } a k

instance (μ : ShmMap) (a k : ℕ) : Decidable (InWindow μ a k) :=
  inferInstanceAs (Decidable (μ.localShm ≤ a ∧ a + k ≤ μ.localShm + μ.size))

/-- **What initialization takes for granted of a configuration.** Nothing here
asks the channels to fit: only that none of the headers the driver does not
check, or checks too late, straddles the end of the window. -/
structure IpcShmCfg.Checked (cfg : IpcShmCfg) (μ : ShmMap) : Prop where
  header : sizeofIpcShmGlobal ≤ μ.size
  local_end : μ.localShm + μ.size + 2 ^ 32 ≤ 2 ^ 64
  remote_end : μ.remoteShm + μ.size + 2 ^ 32 ≤ 2 ^ 64
  channelRing : ∀ c, c < cfg.numChannels.toNat → ∀ m, cfg.chan c = .managed m →
    cfg.chanOff c ≤ μ.size → cfg.chanOff c + 16 ≤ μ.size
  poolRing : ∀ c, c < cfg.numChannels.toNat → ∀ m, cfg.chan c = .managed m →
    ∀ pools, m.pools = some pools → ∀ p, p < m.numPools.toNat →
    cfg.chanOff c + poolOff pools m.numPools.toNat p ≤ μ.size →
    cfg.chanOff c + poolOff pools m.numPools.toNat p + 16 ≤ μ.size
  poolSize : ∀ c, c < cfg.numChannels.toNat → ∀ m, cfg.chan c = .managed m →
    ∀ pools, m.pools = some pools → ∀ p, p < m.numPools.toNat → (pools p).extent < 2 ^ 32
  unmanaged : ∀ c, c < cfg.numChannels.toNat → ∀ u, cfg.chan c = .unmanaged u →
    cfg.chanOff c ≤ μ.size → cfg.chanOff c + (cfg.chan c).extent ≤ μ.size

section Window

variable {μ : ShmMap} {cfg : IpcShmCfg}

theorem InWindow.header {off : ℕ} (h : off + 16 ≤ μ.size) :
    HeaderAllowed (InWindow μ) (μ.localShm + off) := by
  intro i k hik
  exact ⟨show μ.localShm ≤ μ.localShm + off + i by omega,
    show μ.localShm + off + i + k ≤ μ.localShm + μ.size by omega⟩

theorem InWindow.ring {off n : ℕ} (h : off + ringBytes n ≤ μ.size) :
    RingAllowed μ (InWindow μ) off n := by
  rintro a k ⟨hlo, hhi⟩
  have hlo : μ.localShm + off ≤ a := hlo
  have hhi : a + k ≤ μ.localShm + off + ringBytes n := hhi
  exact ⟨show μ.localShm ≤ a by omega, show a + k ≤ μ.localShm + μ.size by omega⟩

/-- The header of an unmanaged channel, or of a ring, of a checked
configuration lies in the window if it starts there. -/
theorem IpcShmCfg.Checked.channels (h : cfg.Checked μ) :
    ChannelsChecked μ (InWindow μ) cfg := by
  intro c hc hstart
  have hlend := h.local_end
  have hrend := h.remote_end
  cases hm : cfg.chan c with
  | managed m =>
    intro pools hpools
    refine ⟨InWindow.header (h.channelRing c hc m hm hstart), fun hle => ?_, fun p hp hin => ?_⟩
    · have hring : ringBytes (bufsOf pools m.numPools.toNat)
          = 16 + (bufsOf pools m.numPools.toNat + 1) * 8 := rfl
      unfold ipcShmMaxBufsPerChannel at hle
      omega
    · have hext := h.poolSize c hc m hm pools hpools p hp
      have hring : ringBytes (pools p).numBufs.toNat ≤ (pools p).extent := Nat.le_add_right _ _
      exact ⟨hext, by omega, by omega,
        InWindow.header (h.poolRing c hc m hm pools hpools p hp hin),
        fun hfit => InWindow.ring (by omega)⟩
  | unmanaged u =>
    have hend := h.unmanaged c hc u hm hstart
    rw [hm] at hend
    refine ⟨InWindow.header ?_, hend⟩
    rw [IpcShmChannelCfg.extent, sizeofIpcChannelUmem] at hend
    omega
  | invalid => trivial

end Window

/-- A channel with one pool of one buffer. -/
def onePoolCfg (shmSize bufSize : UInt32) : IpcShmCfg where
  localShmAddr := 0x34000000
  remoteShmAddr := 0x34001000
  shmSize := shmSize
  interCoreTxIrq := 2
  interCoreRxIrq := 1
  numChannels := 1
  channels := some (fun _ => .managed
    { numPools := 1, pools := some (fun _ => ⟨1, bufSize⟩), rxCb := 0x100, cbArg := 0 })

theorem onePoolCfg_checked : (onePoolCfg 0x1000 0x2000).Checked (twoWindows .a) := by
  have hchan : ∀ c, c < 1 → (onePoolCfg 0x1000 0x2000).chanOff c = 8 := by decide +kernel
  have hpool : ∀ p, p < 1 → poolOff (fun _ => ⟨1, 0x2000⟩) 1 p = 32 := by decide +kernel
  refine ⟨by decide, by decide, by decide, fun c hc _ _ _ => ?_, ?_, ?_, fun c _ u hu => ?_⟩
  · rw [hchan c hc]
    decide
  · rintro c hc _ ⟨⟩ _ ⟨⟩ p hp -
    rw [hchan c hc, show poolOff _ (UInt8.toNat 1) p = 32 from hpool p hp]
    decide
  · rintro c hc _ ⟨⟩ _ ⟨⟩ p hp
    show IpcShmPoolCfg.extent ⟨1, 0x2000⟩ < 2 ^ 32
    decide
  · exact nomatch hu

/-- One unmanaged channel in a window that holds the header of the instance
only. -/
def headerOnlyCfg : IpcShmCfg :=
  { onePoolCfg 8 16 with channels := some (fun _ => .unmanaged ⟨64, 0x200, 0⟩) }

/-- **Stores behind the window**, whose size is 8 here. The unmanaged channel is
accepted, and its sentinel is at offset 8. The managed channel is rejected
after the words of its ring at offset 8, ones before, have been written. -/
theorem init_leaves_window :
    headerOnlyCfg.shmSize.toNat = 8 ∧ (onePoolCfg 8 16).shmSize.toNat = 8 ∧
    ((ipcShmInitInstance {} 0 (some headerOnlyCfg)).run (memHandle (twoWindows .a) .a)
        (fun _ _ => 0)).map (fun r => (r.1.1, (r.2 .a).load 4 8)) = some (0, ipcUchanInitDone) ∧
    ((ipcShmInitInstance {} 0 (some (onePoolCfg 8 16))).run (memHandle (twoWindows .a) .a)
        (fun _ _ => 1)).map (fun r => (r.1.1, r.2 .a 8, r.2 .a 24)) = some (-ENOMEM, 0, 1) := by
  decide +kernel
