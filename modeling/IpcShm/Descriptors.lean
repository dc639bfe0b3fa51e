import IpcShm.ArgumentChecks
import IpcShm.InitBounds

/-!
# What a received descriptor can do

A descriptor comes out of the other peer's memory and can be any eight bytes.
Before a buffer is handed out the driver computes its address and checks that
a buffer of that size at that address lies in the window it should lie in.
That is all it checks. The index of the pool is used as it is; the index of
the buffer may exceed the number of buffers of the pool, as long as the
address stays in the window; and the size of the data is passed on as it was
read.

What can be read where is a parameter here: `D a bs` says that the eight
bytes `bs` may be found at the address `a`, each time it is read. The driver
hands out well-formed buffers only, whatever else is in memory, if and only
if the descriptors that may be popped are safe (`descriptors_checked`).
-/

/-! ## Well-formed buffers -/

/-- **A well-formed delivery** of a managed channel: a buffer of one of its
pools, with no more data than fits. -/
def WellFormedRx (mchan : IpcManagedChannel) : Op → Prop
  | .rxCb _ _ _ _ buf size => ∃ p < mchan.numPools, ∃ i < (mchan.pools p).numBufs,
      buf = (mchan.pools p).remotePoolAddr + i * (mchan.pools p).bufSize
        ∧ size ≤ (mchan.pools p).bufSize
  | .poolsOutOfBounds _ => False
  | _ => True

instance (mchan : IpcManagedChannel) : DecidablePred (WellFormedRx mchan)
  | .rxCb _ _ _ _ buf size =>
    inferInstanceAs (Decidable (∃ p < mchan.numPools, ∃ i < (mchan.pools p).numBufs,
      buf = (mchan.pools p).remotePoolAddr + i * (mchan.pools p).bufSize
        ∧ size ≤ (mchan.pools p).bufSize))
  | .poolsOutOfBounds _ => .isFalse id
  | .load _ _ => .isTrue trivial
  | .store _ _ _ => .isTrue trivial
  | .memcpyFrom _ _ => .isTrue trivial
  | .memcpyTo _ _ => .isTrue trivial
  | .undefinedBehaviour => .isTrue trivial
  | .ipcHwInit _ _ => .isTrue trivial
  | .ipcHwFree _ => .isTrue trivial
  | .ipcHwIrqEnable _ => .isTrue trivial
  | .ipcHwIrqDisable _ => .isTrue trivial
  | .ipcHwIrqNotify _ => .isTrue trivial
  | .ipcOsInit _ _ => .isTrue trivial
  | .ipcOsFree _ => .isTrue trivial
  | .rxCbUnmanaged _ _ _ _ _ => .isTrue trivial

/-- The data of a managed channel. -/
abbrev Driver.mng (d : Driver) (inst c : ℕ) : IpcManagedChannel := ((d.priv inst).channels c).mng

/-- The private data with other pools in one channel. -/
def Driver.withPools (d : Driver) (inst c : ℕ) (pools : ℕ → IpcShmPool) : Driver :=
  d.setPriv inst ((d.priv inst).setChannel c
    { (d.priv inst).channels c with mng := { d.mng inst c with pools := pools } })

theorem Driver.withPools_chan (d : Driver) (inst c : ℕ) (pools : ℕ → IpcShmPool) :
    ((d.withPools inst c pools).priv inst).channels c
      = { (d.priv inst).channels c with mng := { d.mng inst c with pools := pools } } := by
  simp only [withPools, setPriv, IpcShmPriv.setChannel, Function.update_self]

theorem Driver.withPools_shmSize (d : Driver) (inst c : ℕ) (pools : ℕ → IpcShmPool) :
    ((d.withPools inst c pools).priv inst).shmSize = (d.priv inst).shmSize := by
  simp only [withPools, setPriv, IpcShmPriv.setChannel, Function.update_self]

/-- **The memory that is read**: words are arbitrary, and a block read at an
address is one of those `D` gives for it. -/
def EnvAt (μ : ShmMap) (D : ℕ → List UInt8 → Prop) (o : Op) (r : o.Ret) : Prop :=
  Env μ o r ∧ match o, r with
    | .memcpyFrom a _, bs => D a bs
    | _, _ => True

/-- **Reception is well-formed**: `ipc_channel_rx` calls back with well-formed
buffers only, and reads only the pools that the channel has – with anything in
place of the others, it cannot be told apart. -/
def Driver.RxWellFormed (d : Driver) (μ : ShmMap) (D : ℕ → List UInt8 → Prop) (inst c : ℕ) :
    Prop :=
  ∀ budget, (ipcChannelRx d inst c budget).Always (EnvAt μ D) (WellFormedRx (d.mng inst c))
      (fun _ => True) ∧
    ∀ pools, (∀ p, p < (d.mng inst c).numPools → pools p = (d.mng inst c).pools p) →
      (ipcChannelRx d inst c budget).Agrees (EnvAt μ D)
        (ipcChannelRx (d.withPools inst c pools) inst c budget)

/-- **Acquisition is well-formed**: `ipc_shm_acquire_buf` returns `NULL` or the
address of a buffer of the pool that it popped from last. -/
def Driver.AcquireWellFormed (d : Driver) (μ : ShmMap) (D : ℕ → List UInt8 → Prop)
    (inst c : ℕ) : Prop :=
  ∀ memSize tr buf, (ipcShmAcquireBuf d inst c memSize).Trace tr buf →
    (∀ e ∈ tr, EnvAt μ D e.1 e.2) → buf ≠ 0 →
    ∃ p, p < (d.mng inst c).numPools ∧
      (∃ before pop bs, tr = before ++ pop ∧
        (ipcQueuePop ((d.mng inst c).pools p).bdQueue).Trace pop (0, bs)) ∧
      ∃ i, i < ((d.mng inst c).pools p).numBufs ∧
        buf = ((d.mng inst c).pools p).localPoolAddr + i * ((d.mng inst c).pools p).bufSize

/-! ## Safe descriptors -/

/-- **The descriptors that may be popped** from a queue: those that may be in a
slot of the remote ring. -/
def IpcQueue.MayPop (q : IpcQueue) (D : ℕ → List UInt8 → Prop) (bd : IpcShmBd) : Prop :=
  ∃ r bs, r < q.elemNum ∧ bs.length = 8 ∧ D (q.popRing + 16 + 8 * r) bs ∧
    IpcShmBd.decode bs = bd

/-- The address that the driver computes for a buffer of a pool, in the remote
or in the local window. -/
def IpcShmPool.bufAddr (pool : IpcShmPool) (remote : Bool) (bufId : ℕ) : ℕ :=
  u64 (pool.addr remote + u32 (bufId * pool.bufSize))

/-- The check that it makes of the address. -/
def IpcShmPool.Inside (pool : IpcShmPool) (μ : ShmMap) (remote : Bool) (bufId : ℕ) : Prop :=
  μ.os.base remote ≤ pool.bufAddr remote bufId ∧
    u64 (pool.bufAddr remote bufId + pool.bufSize) ≤ u64 (μ.os.base remote + μ.size)

/-- **A descriptor that is safe to receive**: it names a pool of the channel,
and its buffer is outside the window or starts where one of the channel's
starts that holds the data. -/
structure IpcManagedChannel.RxSafe (mchan : IpcManagedChannel) (μ : ShmMap) (bd : IpcShmBd) :
    Prop where
  nonneg : 0 ≤ bd.poolId
  pool_lt : bd.poolId < mchan.numPools
  buffer : (mchan.pools bd.poolId.toNat).Inside μ true bd.bufId →
    ∃ p < mchan.numPools, ∃ i < (mchan.pools p).numBufs,
      (mchan.pools bd.poolId.toNat).remotePoolAddr
            + u32 (bd.bufId * (mchan.pools bd.poolId.toNat).bufSize)
          = (mchan.pools p).remotePoolAddr + i * (mchan.pools p).bufSize ∧
        bd.dataSize ≤ (mchan.pools p).bufSize

/-- **A descriptor that is safe to acquire** from a pool: its buffer is outside
the window or one of the pool. -/
def IpcShmPool.AcquireSafe (pool : IpcShmPool) (μ : ShmMap) (bd : IpcShmBd) : Prop :=
  pool.Inside μ false bd.bufId →
    ∃ i < pool.numBufs, u32 (bd.bufId * pool.bufSize) = i * pool.bufSize

section Layout

variable {μ : ShmMap} {pool : IpcShmPool} {off bufId : ℕ} {p : IpcShmPoolCfg}

/-- An address that passes the check did not wrap around. -/
theorem IpcShmPool.Laid.bufAddr_eq (hl : pool.Laid μ.os off p) (hsize : μ.size < 2 ^ 32)
    (hfit : off + p.extent ≤ μ.size) {remote : Bool} (hin : pool.Inside μ remote bufId) :
    pool.bufAddr remote bufId = pool.addr remote + u32 (bufId * pool.bufSize) := by
  have hx := u32_lt (bufId * pool.bufSize)
  have haddr := hl.addr_eq remote
  have hring : ringBytes p.numBufs.toNat ≤ p.extent := Nat.le_add_right _ _
  have hbase : μ.os.base remote + μ.size < 2 ^ 64 := by
    cases remote with
    | false => exact μ.localShm_lt
    | true => exact μ.remoteShm_lt
  have hge := hin.1
  unfold bufAddr at hge ⊢
  refine u64_of_lt ?_
  unfold u64 at hge
  omega

/-- A buffer of the pool starts at a multiple of the size that does not wrap
around. -/
theorem IpcShmPool.Laid.u32_mul (hl : pool.Laid μ.os off p) (hsize : μ.size < 2 ^ 32)
    (hfit : off + p.extent ≤ μ.size) (hi : bufId < pool.numBufs) :
    u32 (bufId * pool.bufSize) = bufId * pool.bufSize := by
  have hmul : bufId * pool.bufSize ≤ p.bufBytes := by
    rw [hl.numBufs_eq] at hi
    rw [hl.bufSize_eq]
    exact Nat.mul_le_mul_right _ (Nat.le_of_lt hi)
  have hext : p.bufBytes ≤ p.extent := Nat.le_add_left _ _
  exact u32_of_lt (by omega)

/-- What acquisition makes of a descriptor. -/
theorem acquiredAddr_cases (μ : ShmMap) (pool : IpcShmPool) (bd : IpcShmBd) :
    pool.Inside μ false bd.bufId ∧
        acquiredAddr μ.os μ.size pool bd = pool.bufAddr false bd.bufId ∨
      ¬pool.Inside μ false bd.bufId ∧ acquiredAddr μ.os μ.size pool bd = 0 := by
  by_cases hin : pool.Inside μ false bd.bufId
  · exact Or.inl ⟨hin, if_neg (not_or.mpr ⟨Nat.not_lt.mpr hin.1, Nat.not_lt.mpr hin.2⟩)⟩
  · refine Or.inr ⟨hin, if_pos ?_⟩
    by_contra hno
    exact hin ⟨Nat.not_lt.mp (not_or.mp hno).1, Nat.not_lt.mp (not_or.mp hno).2⟩

/-- A queue of descriptors that has its rings. -/
structure IpcQueue.HoldsBds (q : IpcQueue) : Prop where
  pushRing_ne : q.pushRing ≠ 0
  popRing_ne : q.popRing ≠ 0
  elemSize_eq : q.elemSize = 8
  two_le : 2 ≤ q.elemNum
  elemNum_lt : q.elemNum < 2 ^ 29

/-- **A managed channel of an initialized instance**, as far as it matters what
becomes of descriptors. -/
structure Driver.ManagedUp (d : Driver) (μ : ShmMap) (inst c : ℕ) : Prop where
  inst_lt : inst < ipcShmMaxInstances
  global_ne : (d.priv inst).global ≠ 0
  os_eq : d.os inst = μ.os
  shmSize_eq : (d.priv inst).shmSize = μ.size
  has : d.HasChannel inst c .managed
  numPools_le : (d.mng inst c).numPools ≤ ipcShmMaxPools
  queue : (d.mng inst c).bdQueue.HoldsBds
  poolQueue : ∀ p, p < (d.mng inst c).numPools → ((d.mng inst c).pools p).bdQueue.HoldsBds
  bufAddr_eq : ∀ p, p < (d.mng inst c).numPools → ∀ remote bufId,
    ((d.mng inst c).pools p).Inside μ remote bufId →
    ((d.mng inst c).pools p).bufAddr remote bufId
      = ((d.mng inst c).pools p).addr remote + u32 (bufId * ((d.mng inst c).pools p).bufSize)
  u32_mul : ∀ p, p < (d.mng inst c).numPools → ∀ i, i < ((d.mng inst c).pools p).numBufs →
    u32 (i * ((d.mng inst c).pools p).bufSize) = i * ((d.mng inst c).pools p).bufSize
  pushRing_inj : ∀ p, p < (d.mng inst c).numPools → ∀ q, q < (d.mng inst c).numPools →
    ((d.mng inst c).pools p).bdQueue.pushRing = ((d.mng inst c).pools q).bdQueue.pushRing → p = q

theorem laidQueue_holdsBds (μ : ShmMap) {off n : ℕ} (hpos : 0 < n)
    (hn : n ≤ ipcShmMaxBufsPerChannel) : (laidQueue μ.os off n).HoldsBds where
  pushRing_ne := Nat.ne_of_gt (Nat.add_pos_left μ.localShm_pos off)
  popRing_ne := Nat.ne_of_gt (Nat.add_pos_left μ.remoteShm_pos off)
  elemSize_eq := rfl
  two_le := Nat.succ_le_succ hpos
  elemNum_lt := Nat.lt_of_le_of_lt (Nat.succ_le_succ hn) (by decide)

/-- A pool of a channel in its place lies in the window. -/
theorem IpcManagedChannel.Laid.pool_fits {mchan : IpcManagedChannel} {os : IpcOs}
    {m : IpcShmManagedCfg} {pools : ℕ → IpcShmPoolCfg} {off size : ℕ}
    (h : mchan.Laid os off m pools) (hfit : off + (IpcShmChannelCfg.managed m).extent ≤ size)
    {p : ℕ} (hp : p < m.numPools.toNat) :
    off + poolOff pools m.numPools.toNat p + (pools p).extent ≤ size := by
  have hend := poolOff_add_extent_le pools m.numPools.toNat hp
  rw [IpcShmChannelCfg.extent, h.pools_eq] at hfit
  dsimp only at hfit
  omega

/-- The channels of an initialized instance are such. -/
theorem managedUp_of_init {cfg : IpcShmCfg} {d d' : Driver} {inst c : ℕ}
    (hμ : μ.size = cfg.shmSize.toNat) (hfit : cfg.footprint ≤ μ.size)
    (hinit : (ipcShmInitInstance d inst (some cfg)).Returns (Env μ) (0, d'))
    (hc : c < cfg.numChannels.toNat) (ht : ((d'.priv inst).channels c).type = .managed) :
    d'.ManagedUp μ inst c := by
  obtain ⟨hos, hl⟩ := ipcShmInitInstance_laid hμ hfit hinit
  obtain ⟨m, pools, hm, hlm⟩ := hl.managed hc ht
  have hsize : μ.size < 2 ^ 32 := by
    rw [hμ]
    exact cfg.shmSize.toNat_lt
  have hnum : (d'.mng inst c).numPools = m.numPools.toNat := hlm.numPools_eq
  have hend := cfg.chanOff_add_extent_le hc
  rw [hm] at hend
  have hpfit := fun p hp => hlm.pool_fits (p := p) (Nat.le_trans hend hfit) hp
  refine ⟨(ipcShmInitInstance_accepted hinit).1, ?_, hos, hl.shmSize_eq.trans hμ.symm,
    ⟨Int.natCast_nonneg c, ?_, ht⟩, hnum ▸ hlm.numPools_le, ?_, fun p hp => ?_,
    fun p hp remote bufId => ?_, fun p hp i => ?_, fun p hp q hq heq => ?_⟩
  · rw [hl.global_eq]
    exact Nat.ne_of_gt μ.localShm_pos
  · rw [hl.numChannels_eq]
    exact Int.ofNat_lt.mpr hc
  · rw [Driver.mng, hlm.bdQueue_eq]
    exact laidQueue_holdsBds μ hlm.total_pos hlm.total_le
  · rw [hnum] at hp
    rw [(hlm.pool p hp).bdQueue_eq]
    exact laidQueue_holdsBds μ (hlm.pool p hp).numBufs_pos
      (Nat.le_trans (hlm.pool p hp).numBufs_le (by decide))
  · rw [hnum] at hp
    exact (hlm.pool p hp).bufAddr_eq hsize (hpfit p hp)
  · rw [hnum] at hp
    exact (hlm.pool p hp).u32_mul hsize (hpfit p hp)
  · -- the rings of two pools are apart
    rw [hnum] at hp hq
    rw [(hlm.pool p hp).bdQueue_eq, (hlm.pool q hq).bdQueue_eq] at heq
    have hoff : poolOff pools m.numPools.toNat p = poolOff pools m.numPools.toNat q := by
      have heq : μ.localShm + _ = μ.localShm + _ := heq
      omega
    have hpos : ∀ p, 0 < (pools p).extent := fun p =>
      Nat.lt_of_lt_of_le (by rw [ringBytes]; omega) (Nat.le_add_right _ _)
    rcases Nat.lt_trichotomy p q with hlt | rfl | hlt
    · have := poolOff_add_extent_le pools m.numPools.toNat hlt
      have := hpos p
      omega
    · rfl
    · have := poolOff_add_extent_le pools m.numPools.toNat hlt
      have := hpos q
      omega

end Layout

section Pop

variable {μ : ShmMap} {D : ℕ → List UInt8 → Prop} {q : IpcQueue}

theorem WellFormedRx.of_isLoad {o : Op} (h : o.IsLoad) (mchan : IpcManagedChannel) :
    WellFormedRx mchan o := by
  cases o <;> first | exact h.elim | trivial

/-- What is popped may be popped. -/
theorem ipcQueuePop_mayPop (hq : q.HoldsBds) (mchan : IpcManagedChannel) :
    (ipcQueuePop q).Always (EnvAt μ D) (WellFormedRx mchan)
      (fun r => r.1 = 0 → q.MayPop D (IpcShmBd.decode r.2)) := by
  have hnum := hq.elemNum_lt
  have hinval : -EINVAL ≠ 0 := by decide
  have hcheck : (ipcQueueCheckIntegrity q).Always (EnvAt μ D) (WellFormedRx mchan)
      (fun _ => True) := ((ipcQueueCheckIntegrity_loads q).restrict (fun _ _ _ => trivial)).mono
    (fun _ h => WellFormedRx.of_isLoad h mchan) (fun _ h => h)
  unfold ipcQueuePop
  split
  · exact fun h => absurd h hinval
  rw [load32_bind]
  refine ⟨trivial, fun (write : ℕ) _ => ?_⟩
  dsimp only
  rw [load32_bind]
  refine ⟨trivial, fun (read : ℕ) _ => hcheck.bind (fun err _ => ?_)⟩
  split
  · exact fun h => absurd h hinval
  rename_i hidx
  have hread : read < q.elemNum := Nat.not_le.mp (not_or.mp (not_or.mp hidx).2).1
  split
  · exact fun h => absurd h (show -ENOBUFS ≠ 0 by decide)
  rw [memcpyFrom_bind, hq.elemSize_eq, u32_of_lt (show read * 8 < 2 ^ 32 by omega),
    Nat.mul_comm read]
  refine ⟨trivial, fun bs hbs => ?_⟩
  dsimp only
  rw [remU_of_pos (Nat.zero_lt_of_lt hread)]
  exact ⟨trivial, fun _ _ _ => ⟨read, bs, hread, hbs.1, hbs.2, rfl⟩⟩

/-- Words may be anything of their size. -/
theorem envAt_load (n a v : ℕ) (h : v < 256 ^ n) : EnvAt μ D (.load n a) v := ⟨h, trivial⟩

/-- What may be popped is popped, from a ring that holds it. -/
theorem IpcQueue.MayPop.returns (hq : q.HoldsBds) {bd : IpcShmBd} (h : q.MayPop D bd) :
    ∃ bs, IpcShmBd.decode bs = bd ∧ (ipcQueuePop q).Returns (EnvAt μ D) (0, bs) := by
  obtain ⟨r, bs, hr, hlen, hD, hbd⟩ := h
  refine ⟨bs, hbd, ?_⟩
  have hnum := hq.elemNum_lt
  have htwo := hq.two_le
  -- the write index is the other one of the first two, or the first one
  obtain ⟨w, hw, hne⟩ : ∃ w, w < q.elemNum ∧ r ≠ w := by
    by_cases h0 : r = 0
    · exact ⟨1, by omega, by omega⟩
    · exact ⟨0, by omega, h0⟩
  rw [ipcQueuePop, if_neg (not_or.mpr ⟨hq.pushRing_ne, hq.popRing_ne⟩), load32_bind]
  refine ⟨w, envAt_load _ _ _ (by omega), ?_⟩
  dsimp only
  rw [load32_bind]
  refine ⟨r, envAt_load _ _ _ (by omega),
    (ipcQueueCheckIntegrity_returns envAt_load q).bind ?_⟩
  rw [if_neg (by omega), if_neg hne, hq.elemSize_eq, u32_of_lt (show r * 8 < 2 ^ 32 by omega),
    Nat.mul_comm r, remU_of_pos (by omega)]
  exact ⟨bs, ⟨hlen, hD⟩, (), ⟨trivial, trivial⟩, rfl⟩

/-- Nothing is popped from a ring that is not initialized. -/
theorem ipcQueuePop_returns_inval : (ipcQueuePop q).Returns (EnvAt μ D) (-EINVAL, []) := by
  have hcheck : (ipcQueueCheckIntegrity q).Returns (EnvAt μ D) (-EINVAL) :=
    ⟨0, ⟨env_load_zero _ _ _, trivial⟩, rfl⟩
  unfold ipcQueuePop
  split
  · exact rfl
  · refine ⟨0, ⟨env_load_zero _ _ _, trivial⟩, 0, ⟨env_load_zero _ _ _, trivial⟩, hcheck.bind ?_⟩
    rw [if_pos (Or.inl (by decide))]
    exact rfl

theorem popBd_mayPop (hq : q.HoldsBds) (mchan : IpcManagedChannel) :
    (popBd q).Always (EnvAt μ D) (WellFormedRx mchan)
      (fun msg => ∀ bd, msg = some bd → q.MayPop D bd) := by
  unfold popBd
  refine (ipcQueuePop_mayPop hq mchan).bind ?_
  rintro ⟨err, bs⟩ hbs
  dsimp only
  split
  · exact fun _ h => nomatch h
  · rename_i he
    intro bd h
    obtain rfl := Option.some.inj h
    exact hbs (not_not.mp he)

theorem IpcQueue.MayPop.popBd_returns (hq : q.HoldsBds) {bd : IpcShmBd} (h : q.MayPop D bd) :
    (popBd q).Returns (EnvAt μ D) (some bd) := by
  obtain ⟨bs, rfl, hpop⟩ := h.returns (μ := μ) hq
  exact hpop.bind rfl

end Pop

/-! ## Reception -/

section Rx

variable {μ : ShmMap} {D : ℕ → List UInt8 → Prop} {d : Driver} {inst c : ℕ}

/-- Handling a descriptor whose pool is in the array. -/
theorem handleBd_of_index (hos : d.os inst = μ.os) (hsize : (d.priv inst).shmSize = μ.size)
    {bd : IpcShmBd} (h0 : 0 ≤ bd.poolId) (h4 : bd.poolId < ipcShmMaxPools) :
    ((d.mng inst c).pools bd.poolId.toNat).Inside μ true bd.bufId ∧
        handleBd d inst c bd = .op (.rxCb (d.mng inst c).rxCb (d.mng inst c).cbArg inst
          ((d.priv inst).channels c).id
          (((d.mng inst c).pools bd.poolId.toNat).bufAddr true bd.bufId) bd.dataSize) .pure ∨
      ¬((d.mng inst c).pools bd.poolId.toNat).Inside μ true bd.bufId ∧
        handleBd d inst c bd = .pure () := by
  unfold handleBd
  dsimp only
  rw [IpcManagedChannel.poolAt, if_pos ⟨h0, h4⟩, Program.pure_bind, hos, hsize]
  by_cases hin : ((d.mng inst c).pools bd.poolId.toNat).Inside μ true bd.bufId
  · exact Or.inl ⟨hin, if_pos hin⟩
  · exact Or.inr ⟨hin, if_neg hin⟩

/-- A descriptor of a pool that is not replaced. -/
theorem handleBd_withPools {pools : ℕ → IpcShmPool} {bd : IpcShmBd}
    (h : pools bd.poolId.toNat = (d.mng inst c).pools bd.poolId.toNat) :
    handleBd (d.withPools inst c pools) inst c bd = handleBd d inst c bd := by
  unfold handleBd IpcManagedChannel.poolAt
  rw [d.withPools_shmSize, d.withPools_chan]
  dsimp only
  rw [h]
  rfl

theorem ipcChannelRx_managed (ht : ((d.priv inst).channels c).type = .managed) (budget : ℕ) :
    ipcChannelRx d inst c budget
      = drainChannel (popBd (d.mng inst c).bdQueue) (handleBd d inst c) budget 0 :=
  if_neg (fun h => by rw [ht] at h; cases h)

theorem ipcChannelRx_withPools (ht : ((d.priv inst).channels c).type = .managed)
    (pools : ℕ → IpcShmPool) (budget : ℕ) :
    ipcChannelRx (d.withPools inst c pools) inst c budget
      = drainChannel (popBd (d.mng inst c).bdQueue) (handleBd (d.withPools inst c pools) inst c)
        budget 0 := by
  rw [ipcChannelRx_managed (by rw [d.withPools_chan]; exact ht), Driver.mng, d.withPools_chan]

/-- Draining a channel with handlers that are the same on what may be taken. -/
theorem drainChannel_agrees {E : (o : Op) → o.Ret → Prop} {G : Op → Prop} {Q : IpcShmBd → Prop}
    {pop : Drv (Option IpcShmBd)} {handle handle' : IpcShmBd → Drv Unit}
    (hpop : pop.Always E G (fun msg => ∀ bd, msg = some bd → Q bd))
    (hhandle : ∀ bd, Q bd → handle' bd = handle bd) (n work : ℕ) :
    (drainChannel pop handle n work).Agrees E (drainChannel pop handle' n work) := by
  induction n generalizing work with
  | zero => exact .refl _
  | succ n ih =>
    rw [drainChannel, drainChannel]
    refine .bind hpop (fun msg hmsg => ?_)
    cases msg with
    | none => exact .refl _
    | some bd =>
      dsimp only
      rw [hhandle bd (hmsg bd rfl)]
      exact .bind (Program.Always.trivial (handle bd)) (fun _ _ => ih (work + 1))

/-- A pool may pass the check or not. -/
theorem IpcShmPool.exists_inside_iff (μ : ShmMap) (bufId : ℕ) (P : Prop) :
    ∃ pool : IpcShmPool, pool.Inside μ true bufId ↔ P := by
  have hlt := μ.remoteShm_lt
  have hshm : u64 μ.remoteShm = μ.remoteShm := u64_of_lt (by omega)
  by_cases hP : P
  · refine ⟨{ remotePoolAddr := μ.remoteShm }, iff_of_true ?_ hP⟩
    have hbuf : IpcShmPool.bufAddr { remotePoolAddr := μ.remoteShm } true bufId = μ.remoteShm :=
      hshm
    refine ⟨Nat.le_of_eq hbuf.symm, ?_⟩
    rw [hbuf, u64_of_lt (show μ.os.base true + μ.size < 2 ^ 64 from hlt)]
    exact Nat.le_trans (Nat.le_of_eq hshm) (Nat.le_add_right _ _)
  · exact ⟨{}, iff_of_false (fun h => Nat.not_le.mpr μ.remoteShm_pos h.1) hP⟩

/-- **Reception of safe descriptors** is well-formed. -/
theorem rxWellFormed_of_safe (hup : d.ManagedUp μ inst c)
    (hsafe : ∀ bd, (d.mng inst c).bdQueue.MayPop D bd → (d.mng inst c).RxSafe μ bd) :
    d.RxWellFormed μ D inst c := by
  have hpop := popBd_mayPop (μ := μ) (D := D) hup.queue (d.mng inst c)
  have hpools := hup.numPools_le
  have ht : ((d.priv inst).channels c).type = .managed := hup.has.2.2
  intro budget
  rw [ipcChannelRx_managed ht]
  constructor
  · refine (drainChannel_always hpop (fun bd hbd => ?_) budget 0).mono (fun _ h => h)
      (fun _ _ => trivial)
    obtain ⟨h0, hlt, hbuf⟩ := hsafe bd hbd
    obtain ⟨hin, heq⟩ | ⟨-, heq⟩ :=
      handleBd_of_index (c := c) hup.os_eq hup.shmSize_eq h0 (by omega)
    · rw [heq, hup.bufAddr_eq _ (by omega) _ _ hin]
      exact ⟨hbuf hin, fun _ _ => trivial⟩
    · rw [heq]
      trivial
  · intro pools hagree
    rw [ipcChannelRx_withPools ht]
    refine drainChannel_agrees hpop (fun bd hbd => ?_) budget 0
    have hs := hsafe bd hbd
    have hlt := hs.pool_lt
    have h0 := hs.nonneg
    exact handleBd_withPools (hagree _ (by omega))

/-- **A descriptor that may be popped is safe**, if reception is well-formed. -/
theorem rxSafe_of_wellFormed (hup : d.ManagedUp μ inst c) (hwf : d.RxWellFormed μ D inst c)
    {bd : IpcShmBd} (hbd : (d.mng inst c).bdQueue.MayPop D bd) :
    (d.mng inst c).RxSafe μ bd := by
  have hpop := hbd.popBd_returns (μ := μ) hup.queue
  have ht : ((d.priv inst).channels c).type = .managed := hup.has.2.2
  obtain ⟨hall, hagree⟩ := hwf 1
  rw [ipcChannelRx_managed ht, drainChannel] at hall
  replace hall := hall.after hpop
  dsimp only at hall
  rw [Program.always_bind] at hall
  -- the descriptor names an entry of the array
  have hidx : 0 ≤ bd.poolId ∧ bd.poolId < ipcShmMaxPools := by
    by_contra hout
    unfold handleBd IpcManagedChannel.poolAt at hall
    dsimp only at hall
    rw [if_neg hout] at hall
    exact hall.1
  have hcases := handleBd_of_index (c := c) hup.os_eq hup.shmSize_eq hidx.1 hidx.2
  have hlt : bd.poolId < (d.mng inst c).numPools := by
    -- an entry that the channel does not use could be one for which the check ends otherwise
    by_contra hge
    obtain ⟨pool, hpool⟩ := IpcShmPool.exists_inside_iff μ bd.bufId
      (¬((d.mng inst c).pools bd.poolId.toNat).Inside μ true bd.bufId)
    obtain ⟨pools, hbelow, rfl⟩ : ∃ pools : ℕ → IpcShmPool,
        (∀ p, p < (d.mng inst c).numPools → pools p = (d.mng inst c).pools p) ∧
          pools bd.poolId.toNat = pool :=
      ⟨Function.update _ _ pool, fun p hp => Function.update_of_ne (by omega) _ _,
        Function.update_self _ _ _⟩
    have hsame := hagree pools hbelow
    rw [ipcChannelRx_managed ht, ipcChannelRx_withPools ht, drainChannel, drainChannel] at hsame
    replace hsame := hsame.after hpop
    have hcases' := handleBd_of_index (d := d.withPools inst c pools) (c := c) hup.os_eq
      ((d.withPools_shmSize _ _ _).trans hup.shmSize_eq) hidx.1 hidx.2
    rw [Driver.mng, d.withPools_chan] at hcases'
    dsimp only at hsame hcases'
    rw [hpool] at hcases'
    obtain ⟨hin, heq⟩ | ⟨hout, heq⟩ := hcases <;> obtain ⟨hin', heq'⟩ | ⟨hout', heq'⟩ := hcases'
    · exact hin' hin
    · rw [heq, heq'] at hsame
      cases hsame
    · rw [heq, heq'] at hsame
      cases hsame
    · exact hout' hout
  refine ⟨hidx.1, hlt, fun hin => ?_⟩
  obtain ⟨-, heq⟩ | ⟨hout, -⟩ := hcases
  · rw [heq, hup.bufAddr_eq _ (by omega) _ _ hin] at hall
    exact hall.1
  · exact absurd hin hout

end Rx

/-! ## Acquisition -/

section Acquire

variable {μ : ShmMap} {D : ℕ → List UInt8 → Prop} {d : Driver} {inst c : ℕ}

/-- A pop that succeeds ends with the store of the new read index. -/
theorem ipcQueuePop_trace_last {q : IpcQueue} {tr : List Exchange} {bs : List UInt8}
    (h : (ipcQueuePop q).Trace tr (0, bs)) :
    ∃ before v, tr = before ++ [⟨.store 4 (q.pushRing + 12) v, ()⟩] := by
  have hinval : -EINVAL ≠ 0 := by decide
  have hall : (ipcQueuePop q).wp (Program.recording (fun _ => True)) (fun r tr => r.1 = 0 →
      ∃ before v, tr = before ++ [⟨.store 4 (q.pushRing + 12) v, ()⟩]) [] := by
    unfold ipcQueuePop
    split
    · exact fun h => absurd h hinval
    rw [load32_bind]
    refine ⟨trivial, fun (write : ℕ) => ?_⟩
    dsimp only
    rw [load32_bind]
    refine ⟨trivial, fun (read : ℕ) => ?_⟩
    dsimp only
    rw [Program.wp_bind, Program.wp_recording_iff]
    refine ⟨Program.Always.trivial _, fun tr' err _ => ?_⟩
    split
    · exact fun h => absurd h hinval
    rename_i hidx
    split
    · exact fun h => absurd h (show -ENOBUFS ≠ 0 by decide)
    have hread : read < q.elemNum := Nat.not_le.mp (not_or.mp (not_or.mp hidx).2).1
    rw [memcpyFrom_bind]
    refine ⟨trivial, fun bs => ?_⟩
    dsimp only
    rw [remU_of_pos (Nat.zero_lt_of_lt hread)]
    exact ⟨trivial, fun _ _ => ⟨_, _, rfl⟩⟩
  exact ((Program.wp_recording_iff _).mp hall).2 tr (0, bs) h rfl

/-- What the search for a buffer finds was popped last, from the pool that it
comes with. -/
theorem acquireFrom_trace {chan : IpcManagedChannel} {memSize n p : ℕ} {tr : List Exchange}
    {pool : IpcShmPool} {bd : IpcShmBd}
    (h : (acquireFrom chan memSize n p).Trace tr (some (pool, bd))) :
    ∃ q before pop bs, q < p + n ∧ pool = chan.pools q ∧ memSize ≤ pool.bufSize ∧
      tr = before ++ pop ∧ (ipcQueuePop pool.bdQueue).Trace pop (0, bs) ∧
      IpcShmBd.decode bs = bd := by
  induction n generalizing p tr with
  | zero => exact absurd h.2 (fun h => nomatch h)
  | succ n ih =>
    rw [acquireFrom] at h
    split at h
    · obtain ⟨q, before, pop, bs, hq, hrest⟩ := ih h
      exact ⟨q, before, pop, bs, by omega, hrest⟩
    · rename_i hsize
      obtain ⟨tr₁, tr₂, ⟨err, bs⟩, rfl, hpop, hrest⟩ := Program.trace_bind.mp h
      dsimp only at hrest
      split at hrest
      · rename_i he
        obtain ⟨rfl, hres⟩ := hrest
        obtain ⟨rfl, rfl⟩ := Prod.mk.inj (Option.some.inj hres)
        subst he
        exact ⟨p, [], tr₁, bs, by omega, rfl, Nat.not_lt.mp hsize, by rw [List.append_nil]; rfl,
          hpop, rfl⟩
      · obtain ⟨q, before, pop, bs', hq, hpool, hmem, rfl, hend⟩ := ih hrest
        exact ⟨q, tr₁ ++ before, pop, bs', by omega, hpool, hmem,
          (List.append_assoc _ _ _).symm, hend⟩

/-- The search finds what is popped from a pool with large enough buffers, if
the pools before it have nothing to give. -/
theorem acquireFrom_finds {chan : IpcManagedChannel} {memSize n p q : ℕ} (hp : p ≤ q)
    (hq : q < p + n) (hsize : memSize ≤ (chan.pools q).bufSize) {pop : List Exchange}
    {bs : List UInt8} (hpop : (ipcQueuePop (chan.pools q).bdQueue).Trace pop (0, bs)) :
    ∃ before, (∀ e ∈ before, EnvAt μ D e.1 e.2) ∧
      (acquireFrom chan memSize n p).Trace (before ++ pop)
        (some (chan.pools q, IpcShmBd.decode bs)) := by
  induction n generalizing p with
  | zero => omega
  | succ n ih =>
    rw [acquireFrom]
    rcases Nat.eq_or_lt_of_le hp with rfl | hlt
    · refine ⟨[], fun _ h => absurd h (List.not_mem_nil), ?_⟩
      rw [if_neg (Nat.not_lt.mpr hsize)]
      exact Program.trace_bind.mpr ⟨pop, [], (0, bs), by rw [List.append_nil]; rfl, hpop, rfl, rfl⟩
    · obtain ⟨before, henv, htr⟩ := ih hlt (by omega)
      split
      · exact ⟨before, henv, htr⟩
      · obtain ⟨tr, hfail, hE⟩ := (ipcQueuePop_returns_inval (μ := μ) (D := D)).exists_trace
        refine ⟨tr ++ before, ?_, ?_⟩
        · intro e he
          rcases List.mem_append.mp he with he | he
          · exact hE e he
          · exact henv e he
        · rw [List.append_assoc]
          exact Program.trace_bind.mpr ⟨tr, before ++ pop, _, rfl, hfail, htr⟩

/-- What is acquired was popped last, and is the buffer of the descriptor. -/
theorem ipcShmAcquireBuf_trace (hup : d.ManagedUp μ inst c) {memSize buf : ℕ}
    {tr : List Exchange} (htr : (ipcShmAcquireBuf d inst c memSize).Trace tr buf)
    (hne : buf ≠ 0) :
    ∃ p before pop bs, p < (d.mng inst c).numPools ∧ 0 < ((d.mng inst c).pools p).bufSize ∧
      tr = before ++ pop ∧ (ipcQueuePop ((d.mng inst c).pools p).bdQueue).Trace pop (0, bs) ∧
      buf = acquiredAddr μ.os μ.size ((d.mng inst c).pools p) (IpcShmBd.decode bs) := by
  unfold ipcShmAcquireBuf at htr
  obtain ⟨ready, tr₁, r, rfl, -, htr⟩ := Program.trace_bind.mp htr
  split at htr
  · exact absurd htr.2.symm hne
  rw [getManagedChan_of_has hup.has] at htr
  dsimp only at htr
  split at htr
  · exact absurd htr.2.symm hne
  obtain ⟨check, tr₂, err, rfl, -, htr⟩ := Program.trace_bind.mp htr
  split at htr
  · exact absurd htr.2.symm hne
  obtain ⟨search, tr₃, found, rfl, hfound, htr⟩ := Program.trace_bind.mp htr
  cases found with
  | none => exact absurd htr.2.symm hne
  | some found =>
    obtain ⟨pool, bd⟩ := found
    obtain ⟨rfl, rfl⟩ := htr
    obtain ⟨p, before, pop, bs, hp, rfl, hle, rfl, hpop, rfl⟩ := acquireFrom_trace hfound
    refine ⟨p, ready ++ (check ++ before), pop, bs, by rwa [Nat.zero_add] at hp, ?_, ?_, hpop, ?_⟩
    · exact Nat.lt_of_lt_of_le (by omega) hle
    · simp only [List.append_assoc, List.append_nil]
    · rw [hup.os_eq, hup.shmSize_eq]

/-- **Acquisition of safe descriptors** is well-formed. -/
theorem acquireWellFormed_of_safe (hup : d.ManagedUp μ inst c)
    (hsafe : ∀ p, p < (d.mng inst c).numPools → 0 < ((d.mng inst c).pools p).bufSize →
      ∀ bd, ((d.mng inst c).pools p).bdQueue.MayPop D bd →
        ((d.mng inst c).pools p).AcquireSafe μ bd) :
    d.AcquireWellFormed μ D inst c := by
  intro memSize tr buf htr henv hne
  obtain ⟨p, before, pop, bs, hp, hpos, rfl, hpop, rfl⟩ := ipcShmAcquireBuf_trace hup htr hne
  have hmay : ((d.mng inst c).pools p).bdQueue.MayPop D (IpcShmBd.decode bs) :=
    (ipcQueuePop_mayPop (hup.poolQueue p hp) (d.mng inst c)).of_returns
      (Program.returns_of_trace hpop (fun e he => henv e (List.mem_append_right _ he))) rfl
  refine ⟨p, hp, ⟨before, pop, bs, rfl, hpop⟩, ?_⟩
  obtain ⟨hin, haddr⟩ | ⟨-, haddr⟩ :=
    acquiredAddr_cases μ ((d.mng inst c).pools p) (IpcShmBd.decode bs)
  · obtain ⟨i, hi, heq⟩ := hsafe p hp hpos _ hmay hin
    refine ⟨i, hi, ?_⟩
    rw [haddr, hup.bufAddr_eq p hp _ _ hin, heq]
    rfl
  · exact absurd haddr hne

/-- **A descriptor that may be popped is safe**, if acquisition is
well-formed. -/
theorem acquireSafe_of_wellFormed (hup : d.ManagedUp μ inst c)
    (hwf : d.AcquireWellFormed μ D inst c) {p : ℕ} (hp : p < (d.mng inst c).numPools)
    (hpos : 0 < ((d.mng inst c).pools p).bufSize) {bd : IpcShmBd}
    (hbd : ((d.mng inst c).pools p).bdQueue.MayPop D bd) :
    ((d.mng inst c).pools p).AcquireSafe μ bd := by
  obtain ⟨bs, rfl, hpop⟩ := hbd.returns (μ := μ) (hup.poolQueue p hp)
  obtain ⟨ready, hready, hready'⟩ := (ipcShmIsRemoteReady_returns
    (envAt_load (μ := μ) (D := D)) hup.inst_lt hup.global_ne).exists_trace
  obtain ⟨check, hcheck, hcheck'⟩ := (ipcCheckMchanIntegrity_returns
    (envAt_load (μ := μ) (D := D)) (d.mng inst c)).exists_trace
  obtain ⟨pop, hpop, hpop'⟩ := hpop.exists_trace
  obtain ⟨before, hbefore, hsearch⟩ := acquireFrom_finds (μ := μ) (D := D) (Nat.zero_le p)
    (by rwa [Nat.zero_add]) (Nat.le_refl _) hpop
  -- a request of exactly the size of the buffers, which the pool is the first one to meet
  have htr : (ipcShmAcquireBuf d inst c ((d.mng inst c).pools p).bufSize).Trace
      (ready ++ (check ++ (before ++ pop)))
      (acquiredAddr μ.os μ.size ((d.mng inst c).pools p) (IpcShmBd.decode bs)) := by
    unfold ipcShmAcquireBuf
    refine Program.trace_bind.mpr ⟨ready, _, 0, rfl, hready, ?_⟩
    rw [if_neg (by decide), getManagedChan_of_has hup.has]
    dsimp only
    rw [if_neg (Nat.ne_of_gt hpos)]
    refine Program.trace_bind.mpr ⟨check, _, 0, rfl, hcheck, ?_⟩
    rw [if_neg (by decide)]
    refine Program.trace_bind.mpr ⟨before ++ pop, [], _, by rw [List.append_nil], hsearch, ?_⟩
    rw [← hup.os_eq, ← hup.shmSize_eq]
    exact ⟨rfl, rfl⟩
  have henv : ∀ e ∈ ready ++ (check ++ (before ++ pop)), EnvAt μ D e.1 e.2 := by
    intro e he
    simp only [List.mem_append] at he
    rcases he with he | he | he | he
    · exact hready' e he
    · exact hcheck' e he
    · exact hbefore e he
    · exact hpop' e he
  intro hin
  obtain ⟨-, haddr⟩ | ⟨hout, -⟩ :=
    acquiredAddr_cases μ ((d.mng inst c).pools p) (IpcShmBd.decode bs)
  · have hne : acquiredAddr μ.os μ.size ((d.mng inst c).pools p) (IpcShmBd.decode bs) ≠ 0 := by
      rw [haddr]
      exact Nat.ne_of_gt (Nat.lt_of_lt_of_le μ.localShm_pos hin.1)
    obtain ⟨q, hq, ⟨before', pop', bs', heq, hpopq⟩, i, hi, hbuf⟩ := hwf _ _ _ htr henv hne
    -- both pops end with a store of a read index, so they are pops from the same pool
    obtain ⟨x, v, rfl⟩ := ipcQueuePop_trace_last hpop
    obtain ⟨y, w, rfl⟩ := ipcQueuePop_trace_last hpopq
    simp only [← List.append_assoc] at heq
    have hlast : ((d.mng inst c).pools p).bdQueue.pushRing
        = ((d.mng inst c).pools q).bdQueue.pushRing ∧ v = w := by
      simpa using (List.append_inj' heq rfl).2
    obtain rfl := hup.pushRing_inj p hp q hq hlast.1
    rw [haddr, hup.bufAddr_eq p hp _ _ hin] at hbuf
    exact ⟨i, hi, Nat.add_left_cancel hbuf⟩
  · exact absurd hin hout

end Acquire

/-! ## Descriptors of buffers that there are -/

section Buffers

variable {μ : ShmMap} {d : Driver} {inst c : ℕ}

theorem Driver.ManagedUp.rxSafe_of_buffer (hup : d.ManagedUp μ inst c) {bd : IpcShmBd}
    (h0 : 0 ≤ bd.poolId) (hlt : bd.poolId < (d.mng inst c).numPools)
    (hbuf : bd.bufId < ((d.mng inst c).pools bd.poolId.toNat).numBufs)
    (hdata : bd.dataSize ≤ ((d.mng inst c).pools bd.poolId.toNat).bufSize) :
    (d.mng inst c).RxSafe μ bd where
  nonneg := h0
  pool_lt := hlt
  buffer _ := ⟨bd.poolId.toNat, by omega, bd.bufId, hbuf, by
    rw [hup.u32_mul _ (by omega) _ hbuf], hdata⟩

theorem Driver.ManagedUp.acquireSafe_of_buffer (hup : d.ManagedUp μ inst c) {p : ℕ}
    (hp : p < (d.mng inst c).numPools) {bd : IpcShmBd}
    (hbuf : bd.bufId < ((d.mng inst c).pools p).numBufs) :
    ((d.mng inst c).pools p).AcquireSafe μ bd :=
  fun _ => ⟨bd.bufId, hbuf, hup.u32_mul p hp _ hbuf⟩

/-- A descriptor of the first buffer of one of two pools, with at most 16 bytes
of data. -/
def FirstBuffer (bd : IpcShmBd) : Prop :=
  0 ≤ bd.poolId ∧ bd.poolId < 2 ∧ bd.bufId = 0 ∧ bd.dataSize ≤ 16

end Buffers

/-- **Received descriptors.** On an initialized instance, the buffers that are
handed out are well-formed, whatever the indexes and sentinels in memory are,
if and only if the descriptors that can be popped are safe: those in the remote
ring of the channel to receive, and those in the remote rings of its pools to
acquire, where a pool of buffers of no size is never looked at. -/
theorem descriptors_checked {μ : ShmMap} {cfg : IpcShmCfg} {inst : ℕ} {d d' : Driver}
    (hμ : μ.size = cfg.shmSize.toNat) (hfit : cfg.footprint ≤ cfg.shmSize.toNat)
    (hinit : (ipcShmInitInstance d inst (some cfg)).Returns (Env μ) (0, d')) {c : ℕ}
    (hc : c < cfg.numChannels.toNat) (ht : ((d'.priv inst).channels c).type = .managed)
    (D : ℕ → List UInt8 → Prop) :
    d'.RxWellFormed μ D inst c ∧ d'.AcquireWellFormed μ D inst c ↔
      (∀ bd, (d'.mng inst c).bdQueue.MayPop D bd → (d'.mng inst c).RxSafe μ bd) ∧
      ∀ p, p < (d'.mng inst c).numPools → 0 < ((d'.mng inst c).pools p).bufSize →
        ∀ bd, ((d'.mng inst c).pools p).bdQueue.MayPop D bd →
          ((d'.mng inst c).pools p).AcquireSafe μ bd := by
  have hup := managedUp_of_init hμ (by rwa [hμ]) hinit hc ht
  constructor
  · rintro ⟨hrx, hacq⟩
    exact ⟨fun bd hbd => rxSafe_of_wellFormed hup hrx hbd,
      fun p hp hpos bd hbd => acquireSafe_of_wellFormed hup hacq hp hpos hbd⟩
  · rintro ⟨hrx, hacq⟩
    exact ⟨rxWellFormed_of_safe hup hrx, acquireWellFormed_of_safe hup hacq⟩

/-- The sample configuration, with nothing but descriptors of the first buffer
of one of the pools in memory, for data that either of them holds. -/
theorem descriptors_checked_sample : ∃ d' : Driver,
    (ipcShmInitInstance {} 0 (some sampleCfg)).Returns (Env (twoWindows .a)) (0, d') ∧
    d'.RxWellFormed (twoWindows .a) (fun _ bs => FirstBuffer (IpcShmBd.decode bs)) 0 0 ∧
    d'.AcquireWellFormed (twoWindows .a) (fun _ bs => FirstBuffer (IpcShmBd.decode bs)) 0 0 := by
  have hrun : ((ipcShmInitInstance {} 0 (some sampleCfg)).run (memHandle (twoWindows .a) .a)
      (fun _ _ => 0)).map (fun r => (r.1.1, ((r.1.2.priv 0).channels 0).type,
        (r.1.2.mng 0 0).numPools, decide (∀ p < (2 : ℕ), 0 < ((r.1.2.mng 0 0).pools p).numBufs ∧
          16 ≤ ((r.1.2.mng 0 0).pools p).bufSize))) = some (0, .managed, 2, true) := by
    decide +kernel
  obtain ⟨⟨⟨err, d'⟩, shm⟩, hinit, hr⟩ := Option.map_eq_some_iff.mp hrun
  simp only [Prod.mk.injEq, decide_eq_true_eq] at hr
  obtain ⟨rfl, htype, hnum, hpools⟩ := hr
  have hret := Program.returns_of_run env_of_memHandle hinit
  have hup := managedUp_of_init (c := 0) rfl (by decide +kernel) hret (by decide) htype
  refine ⟨d', hret, (descriptors_checked (c := 0) rfl (by decide +kernel) hret (by decide) htype
    _).mpr ⟨?_, ?_⟩⟩
  · rintro bd ⟨r, bs, -, -, ⟨h0, h2, hbuf, hdata⟩, rfl⟩
    have hp := hpools (IpcShmBd.decode bs).poolId.toNat (by omega)
    refine hup.rxSafe_of_buffer h0 (by rw [hnum]; exact h2) ?_ (Nat.le_trans hdata hp.2)
    rw [hbuf]
    exact hp.1
  · rintro p hp - bd ⟨r, bs, -, -, ⟨-, -, hbuf, -⟩, rfl⟩
    rw [hnum] at hp
    refine hup.acquireSafe_of_buffer (by rw [hnum]; exact hp) ?_
    rw [hbuf]
    exact (hpools p hp).1

/-- Stops in front of a delivery, or in front of a look outside the array of
pools. -/
def handsOut : Op → Bool
  | .rxCb _ _ _ _ _ _ => true
  | .poolsOutOfBounds _ => true
  | _ => false

/-- Remote memory for the sample configuration: all is initialized, and one
descriptor is both in the ring of channel 0 and in the ring of its pool 0. -/
def rogueRings (bd : IpcShmBd) : ByteMem :=
  let done := ((ByteMem.store (fun _ => 0) 8 0 ipcShmStateReady).store 8 8 ipcQueueInitDone)
    |>.store 8 56 ipcQueueInitDone |>.store 8 128 ipcQueueInitDone
  (done.store 4 16 1 |>.store 4 64 1 |>.write 24 bd.encode).write 72 bd.encode

/-- The request in front of which reception of the descriptor stops. -/
def deliveryOf (d : Driver) (shm : Shm) (bd : IpcShmBd) : Option Op :=
  ((ipcChannelRx d 0 0 1).advance (memHandle (twoWindows .a) .a) handsOut
    (shm.set .b (rogueRings bd))).bind (fun r => match r.1 with
      | .op o _ => some o
      | .pure _ => none)

/-- **The driver hands out malformed buffers**: it looks for a pool 7; it
delivers buffer 3 of pool 1, which has one buffer, with more data than the
buffers of the pool hold; and it lets buffer 5 of pool 0 be acquired, which has
two. -/
theorem descriptors_unchecked : ∃ (d' : Driver) (shm : Shm),
    (ipcShmInitInstance {} 0 (some sampleCfg)).run (memHandle (twoWindows .a) .a)
      (fun _ _ => 0) = some ((0, d'), shm) ∧
    (∀ bd ∈ ([⟨7, 0, 16⟩, ⟨1, 3, 0xFFFF⟩] : List IpcShmBd), ∃ o, deliveryOf d' shm bd = some o ∧
      ¬WellFormedRx (d'.mng 0 0) o) ∧
    ∃ buf shm', (ipcShmAcquireBuf d' 0 0 16).run (memHandle (twoWindows .a) .a)
        (shm.set .b (rogueRings ⟨0, 5, 0⟩)) = some (buf, shm') ∧ buf ≠ 0 ∧
      ∀ p < (d'.mng 0 0).numPools, ∀ i < ((d'.mng 0 0).pools p).numBufs,
        buf ≠ ((d'.mng 0 0).pools p).localPoolAddr + i * ((d'.mng 0 0).pools p).bufSize := by
  have hrun : ((ipcShmInitInstance {} 0 (some sampleCfg)).run (memHandle (twoWindows .a) .a)
      (fun _ _ => 0)).map (fun r => (r.1.1,
        ([⟨7, 0, 16⟩, ⟨1, 3, 0xFFFF⟩] : List IpcShmBd).map (fun bd =>
          (deliveryOf r.1.2 r.2 bd).elim false (fun o => !decide (WellFormedRx (r.1.2.mng 0 0) o))),
        ((ipcShmAcquireBuf r.1.2 0 0 16).run (memHandle (twoWindows .a) .a)
          (r.2.set .b (rogueRings ⟨0, 5, 0⟩))).elim false (fun s => decide (s.1 ≠ 0 ∧
            ∀ p < (r.1.2.mng 0 0).numPools, ∀ i < ((r.1.2.mng 0 0).pools p).numBufs,
              s.1 ≠ ((r.1.2.mng 0 0).pools p).localPoolAddr
                + i * ((r.1.2.mng 0 0).pools p).bufSize))))
      = some (0, [true, true], true) := by
    decide +kernel
  obtain ⟨⟨⟨err, d'⟩, shm⟩, hinit, hr⟩ := Option.map_eq_some_iff.mp hrun
  obtain ⟨rfl, hr⟩ := Prod.mk.inj hr
  obtain ⟨hrx, hacq⟩ := Prod.mk.inj hr
  dsimp only at hrx hacq
  refine ⟨d', shm, hinit, fun bd hbd => ?_, ?_⟩
  · have hbad := List.eq_of_mem_replicate (n := 2) (a := true)
      (show _ ∈ [true, true] from hrx ▸ List.mem_map_of_mem hbd)
    cases ho : deliveryOf d' shm bd with
    | none =>
      rw [ho] at hbad
      exact Bool.noConfusion hbad
    | some o =>
      rw [ho] at hbad
      exact ⟨o, rfl, by simpa using hbad⟩
  · cases ha : (ipcShmAcquireBuf d' 0 0 16).run (memHandle (twoWindows .a) .a)
      (shm.set .b (rogueRings ⟨0, 5, 0⟩)) with
    | none =>
      rw [ha] at hacq
      exact Bool.noConfusion hacq
    | some s =>
      rw [ha] at hacq
      exact ⟨s.1, s.2, rfl, of_decide_eq_true hacq⟩
