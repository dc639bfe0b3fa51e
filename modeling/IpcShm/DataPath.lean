import IpcShm.InstanceLayout
import IpcShm.RxLoop

/-!
# The data path, whatever is in memory

The functions that acquire, transmit, receive and release, on an instance in
its layout and with any replies: loads may answer anything, twice the same
load something else each time. Where the functions store is decided by the
pointers of the private data and by indexes they have checked. What they
return or hand to the application is made of what they read, and the specs
say so: which pool a descriptor was popped from, and which address was
computed from it.
-/

/-! ## Channels of an instance in its place -/

section Lookup

variable {priv : IpcShmPriv} {os : IpcOs} {cfg : IpcShmCfg} {c : ℕ}

/-- A managed channel of an instance in its place. -/
theorem IpcShmPriv.Laid.managed (h : priv.Laid os cfg) (hc : c < cfg.numChannels.toNat)
    (ht : (priv.channels c).type = .managed) :
    ∃ m pools, cfg.chan c = .managed m ∧
      (priv.channels c).mng.Laid os (cfg.chanOff c) m pools := by
  have hl := h.chan c hc
  cases hcc : cfg.chan c with
  | managed m =>
    rw [hcc] at hl
    obtain ⟨-, pools, hl⟩ := hl
    exact ⟨m, pools, rfl, hl⟩
  | unmanaged u =>
    rw [hcc] at hl
    exact absurd (hl.1.symm.trans ht) (by decide)
  | invalid =>
    rw [hcc] at hl
    exact False.elim hl

/-- An unmanaged channel of an instance in its place. -/
theorem IpcShmPriv.Laid.unmanaged (h : priv.Laid os cfg) (hc : c < cfg.numChannels.toNat)
    (ht : (priv.channels c).type = .unmanaged) :
    ∃ u, cfg.chan c = .unmanaged u ∧ (priv.channels c).UnmanagedLaid os (cfg.chanOff c) u := by
  have hl := h.chan c hc
  cases hcc : cfg.chan c with
  | managed m =>
    rw [hcc] at hl
    exact absurd (hl.1.symm.trans ht) (by decide)
  | unmanaged u =>
    rw [hcc] at hl
    exact ⟨u, rfl, hl.2⟩
  | invalid =>
    rw [hcc] at hl
    exact False.elim hl

/-- The types of the channels are the configured ones. -/
theorem IpcShmPriv.Laid.type_eq (h : priv.Laid os cfg) (hc : c < cfg.numChannels.toNat) :
    (priv.channels c).type = (cfg.chan c).type := by
  have hl := h.chan c hc
  cases hcc : cfg.chan c with
  | managed m =>
    rw [hcc] at hl
    exact hl.1
  | unmanaged u =>
    rw [hcc] at hl
    exact hl.1
  | invalid =>
    rw [hcc] at hl
    exact False.elim hl

variable {d : Driver} {inst : ℕ}

theorem getChannel_eq_some {chan : IpcShmChannel} (h : getChannel d inst c = some chan) :
    c < (d.priv inst).numChannels ∧ chan = (d.priv inst).channels c := by
  unfold getChannel at h
  split at h
  · exact nomatch h
  · exact ⟨Nat.not_le.mp ‹_›, (Option.some.inj h).symm⟩

theorem getManagedChan_eq_some {mchan : IpcManagedChannel}
    (h : getManagedChan d inst c = some mchan) :
    c < (d.priv inst).numChannels ∧ ((d.priv inst).channels c).type = .managed ∧
      mchan = ((d.priv inst).channels c).mng := by
  unfold getManagedChan at h
  cases hch : getChannel d inst c with
  | none => rw [hch] at h; exact nomatch h
  | some chan =>
    obtain ⟨hlt, rfl⟩ := getChannel_eq_some hch
    rw [hch] at h
    dsimp only at h
    split at h
    · exact nomatch h
    · exact ⟨hlt, not_not.mp ‹_›, (Option.some.inj h).symm⟩

theorem getUnmanagedChan_eq_some {chan : IpcShmChannel}
    (h : getUnmanagedChan d inst c = some chan) :
    c < (d.priv inst).numChannels ∧ ((d.priv inst).channels c).type = .unmanaged ∧
      chan = (d.priv inst).channels c := by
  unfold getUnmanagedChan at h
  cases hch : getChannel d inst c with
  | none => rw [hch] at h; exact nomatch h
  | some chan =>
    obtain ⟨hlt, rfl⟩ := getChannel_eq_some hch
    rw [hch] at h
    dsimp only at h
    split at h
    · exact nomatch h
    · exact ⟨hlt, not_not.mp ‹_›, (Option.some.inj h).symm⟩

end Lookup

/-- `pools[i]` with an index in range. -/
theorem IpcManagedChannel.poolAt_of_lt (mchan : IpcManagedChannel) {p : ℕ}
    (hp : p < ipcShmMaxPools) : mchan.poolAt p = .pure (mchan.pools p) := by
  have hin : (0 : ℤ) ≤ (p : ℤ) ∧ (p : ℤ) < (ipcShmMaxPools : ℕ) := by omega
  rw [poolAt, if_pos hin, Int.toNat_natCast]

/-- Either no pool owns the buffer, or the pool found does. -/
theorem findPoolFrom_cases (pools : ℕ → IpcShmPool) (buf : ℕ) (remote : Bool) (n p : ℕ) :
    findPoolFrom pools buf remote n p = -EINVAL ∨
      ∃ q : ℕ, p ≤ q ∧ q < p + n ∧ findPoolFrom pools buf remote n p = q ∧
        (pools q).addr remote ≤ buf ∧
        buf < u64 ((pools q).addr remote + u32 ((pools q).numBufs * (pools q).bufSize)) := by
  induction n generalizing p with
  | zero => exact Or.inl rfl
  | succ n ih =>
    rw [findPoolFrom]
    split
    · rename_i h
      exact Or.inr ⟨p, Nat.le_refl p, by omega, rfl, h.1, h.2⟩
    · refine (ih (p + 1)).imp id (fun ⟨q, h₁, h₂, h₃⟩ => ⟨q, by omega, by omega, h₃⟩)

/-- A pool that owns a buffer has buffers of some size, so nothing is divided
by zero. -/
theorem bufSize_pos_of_owns {pool : IpcShmPool} {remote : Bool} {buf : ℕ}
    (hle : pool.addr remote ≤ buf)
    (hlt : buf < u64 (pool.addr remote + u32 (pool.numBufs * pool.bufSize))) :
    0 < pool.bufSize := by
  refine Nat.pos_of_ne_zero (fun h0 => ?_)
  rw [h0, Nat.mul_zero] at hlt
  have h := Nat.mod_le (pool.addr remote + u32 0) (2 ^ 64)
  have h0' : u32 0 = 0 := rfl
  unfold u64 at hlt
  omega

section Requests

variable {μ : ShmMap} {P : ℕ → ℕ → Prop}

theorem always_divU {a b : ℕ} {α : Type} {Q : α → Prop} {f : ℕ → Drv α} (hb : 0 < b)
    (h : (f (a / b)).Always (Env μ) (Quiet P) Q) :
    (divU a b >>= f).Always (Env μ) (Quiet P) Q := by
  rw [divU_of_pos hb]
  exact h

/-- **`ipc_shm_is_remote_ready`** only loads, and succeeds only on an
initialized instance. -/
theorem ipcShmIsRemoteReady_always (d : Driver) (inst : ℕ) :
    (ipcShmIsRemoteReady d inst).Always (Env μ) (Quiet P)
      (fun err => err = 0 → inst < ipcShmMaxInstances ∧ (d.priv inst).global ≠ 0) := by
  unfold ipcShmIsRemoteReady
  refine (ipcInstanceIsFree_always (fun _ h => h) d inst).bind (fun st hst => ?_)
  split
  · exact fun h => absurd h (show -EINVAL ≠ 0 by decide)
  · rename_i hused
    refine always_load64 (fun v => ?_)
    split
    · exact fun h => absurd h (show -EAGAIN ≠ 0 by decide)
    · exact fun _ => hst (not_not.mp hused)

theorem checkPoolsIntegrity_always (pools : ℕ → IpcShmPool) (n p : ℕ) :
    (checkPoolsIntegrity pools n p).Always (Env μ) (Quiet P) (fun _ => True) := by
  induction n generalizing p with
  | zero => trivial
  | succ n ih =>
    rw [checkPoolsIntegrity]
    refine (ipcQueueCheckIntegrity_always _).bind (fun err _ => ?_)
    split
    · trivial
    · exact ih (p + 1)

theorem ipcCheckMchanIntegrity_always (mchan : IpcManagedChannel) :
    (ipcCheckMchanIntegrity mchan).Always (Env μ) (Quiet P) (fun _ => True) := by
  unfold ipcCheckMchanIntegrity
  refine (ipcQueueCheckIntegrity_always _).bind (fun err _ => ?_)
  split
  · exact checkPoolsIntegrity_always ..
  · trivial

theorem ipcCheckUchanIntegrity_always (uchan : IpcShmChannel) :
    (ipcCheckUchanIntegrity uchan).Always (Env μ) (Quiet P) (fun _ => True) := by
  unfold ipcCheckUchanIntegrity
  refine always_load32 (fun v _ => ?_)
  split
  · refine always_load32 (fun v _ => ?_)
    split <;> trivial
  · trivial

theorem ipcCheckUchanLocalIntegrity_always (uchan : IpcShmChannel) :
    (ipcCheckUchanLocalIntegrity uchan).Always (Env μ) (Quiet P) (fun _ => True) := by
  unfold ipcCheckUchanLocalIntegrity
  refine always_load32 (fun v _ => ?_)
  split <;> trivial

/-- **An environment whose blocks are descriptors satisfying `D`.** -/
structure Feeds (μ : ShmMap) (D : IpcShmBd → Prop) (E : (o : Op) → o.Ret → Prop) : Prop where
  env : ∀ o r, E o r → Env μ o r
  bd : ∀ a n bs, E (.memcpyFrom a n) bs → D (IpcShmBd.decode bs)

theorem feeds_env (μ : ShmMap) : Feeds μ (fun _ => True) (Env μ) :=
  ⟨fun _ _ h => h, fun _ _ _ _ => trivial⟩

/-- What is popped is a block that was read. -/
theorem ipcQueuePop_block {D : IpcShmBd → Prop} {E : (o : Op) → o.Ret → Prop} (hE : Feeds μ D E)
    (q : IpcQueue) :
    (ipcQueuePop q).Always E (fun _ => True) (fun r => r.1 = 0 → D (IpcShmBd.decode r.2)) := by
  have hinval : -EINVAL ≠ 0 := by decide
  have hnobufs : -ENOBUFS ≠ 0 := by decide
  unfold ipcQueuePop
  split
  · exact fun h => absurd h hinval
  refine (Program.Always.trivial _).bind (fun w _ => ?_)
  refine (Program.Always.trivial _).bind (fun r _ => ?_)
  refine (Program.Always.trivial _).bind (fun err _ => ?_)
  split
  · exact fun h => absurd h hinval
  split
  · exact fun h => absurd h hnobufs
  rw [memcpyFrom_bind]
  refine ⟨trivial, fun bs hbs => (Program.Always.trivial _).bind (fun next _ => ?_)⟩
  exact ⟨trivial, fun _ _ _ => hE.bd _ _ bs hbs⟩

/-- **`ipc_queue_pop`** of a queue in its place, and what it pops. -/
theorem ipcQueuePop_feeds {D : IpcShmBd → Prop} {E : (o : Op) → o.Ret → Prop} (hE : Feeds μ D E)
    {off n : ℕ} {q : IpcQueue} (hq : q.Placed μ.os off n) (hP : RingAllowed μ P off n) :
    (ipcQueuePop q).Always E (Quiet P) (fun r => r.1 = 0 → D (IpcShmBd.decode r.2)) :=
  (((ipcQueuePop_always hq hP).restrict hE.env).and (ipcQueuePop_block hE q)).mono
    (fun _ h => h.1) (fun _ h => h.2)

end Requests

/-! ## Managed channels -/

section Managed

variable {μ : ShmMap} {P : ℕ → ℕ → Prop} {off : ℕ} {m : IpcShmManagedCfg}
  {pools : ℕ → IpcShmPoolCfg} {mchan : IpcManagedChannel} {D : IpcShmBd → Prop}
  {E : (o : Op) → o.Ret → Prop}

/-- **The search for a free buffer** stores in the rings of the pools, and
finds a descriptor in one of them that is large enough. -/
theorem acquireFrom_always (hE : Feeds μ D E) (hl : mchan.Laid μ.os off m pools)
    (hP : ∀ a k, (IpcShmChannelCfg.managed m).InCtrl μ.localShm off a k → P a k)
    (memSize : ℕ) {n p : ℕ} (hn : p + n ≤ m.numPools.toNat) :
    (acquireFrom mchan memSize n p).Always E (Quiet P)
      (fun r => ∀ pool bd, r = some (pool, bd) →
        ∃ q, q < m.numPools.toNat ∧ pool = mchan.pools q ∧ memSize ≤ pool.bufSize ∧ D bd) := by
  induction n generalizing p with
  | zero => exact fun _ _ h => nomatch h
  | succ n ih =>
    have hp : p < m.numPools.toNat := by omega
    rw [acquireFrom]
    split
    · exact ih (by omega)
    · rename_i hsize
      refine (ipcQueuePop_feeds hE (Or.inr (hl.pool p hp).bdQueue_eq)
        (ringAllowed_pool hl.pools_eq hP p hp)).bind ?_
      rintro ⟨err, bs⟩ hbs
      dsimp only
      split
      · rename_i he
        intro pool bd h
        obtain ⟨rfl, rfl⟩ := Prod.mk.inj (Option.some.inj h)
        exact ⟨p, hp, rfl, Nat.not_lt.mp hsize, hbs he⟩
      · exact ih (by omega)

/-- Pushing a descriptor to the channel. -/
theorem pushBd_channel_always (hl : mchan.Laid μ.os off m pools)
    (hP : ∀ a k, (IpcShmChannelCfg.managed m).InCtrl μ.localShm off a k → P a k) (bd : IpcShmBd) :
    (ipcQueuePush mchan.bdQueue bd.encode).Always (Env μ) (Quiet P) (fun _ => True) :=
  ipcQueuePush_always (Or.inr hl.bdQueue_eq) hl.total_le (ringAllowed_channel hl.pools_eq hP)
    (by rw [IpcShmBd.encode_length])

/-- Pushing a descriptor to the release ring of a pool. -/
theorem pushBd_pool_always (hl : mchan.Laid μ.os off m pools)
    (hP : ∀ a k, (IpcShmChannelCfg.managed m).InCtrl μ.localShm off a k → P a k) {p : ℕ}
    (hp : p < m.numPools.toNat) (bd : IpcShmBd) :
    (ipcQueuePush (mchan.pools p).bdQueue bd.encode).Always (Env μ) (Quiet P) (fun _ => True) := by
  refine ipcQueuePush_always (Or.inr (hl.pool p hp).bdQueue_eq) ?_
    (ringAllowed_pool hl.pools_eq hP p hp) (by rw [IpcShmBd.encode_length])
  exact Nat.le_trans (hl.pool p hp).numBufs_le (show 4096 ≤ 0xFFFF - 1 by decide)

/-- **`popBd`** stores the read index of the channel's ring. -/
theorem popBd_always (hE : Feeds μ D E) (hl : mchan.Laid μ.os off m pools)
    (hP : ∀ a k, (IpcShmChannelCfg.managed m).InCtrl μ.localShm off a k → P a k) :
    (popBd mchan.bdQueue).Always E (Quiet P) (fun r => ∀ bd, r = some bd → D bd) := by
  unfold popBd
  refine (ipcQueuePop_feeds hE (Or.inr hl.bdQueue_eq) (ringAllowed_channel hl.pools_eq hP)).bind ?_
  rintro ⟨err, bs⟩ hbs
  dsimp only
  split
  · exact fun _ h => nomatch h
  · rename_i he
    intro bd h
    obtain rfl := Option.some.inj h
    exact hbs (not_not.mp he)

end Managed

/-! ## The calls -/

section Calls

variable {μ : ShmMap} {P : ℕ → ℕ → Prop} {cfg : IpcShmCfg} {d : Driver} {inst c : ℕ}
  {D : IpcShmBd → Prop} {E : (o : Op) → o.Ret → Prop}

/-- Stores into the control regions of one channel are allowed, if there is
such a channel. -/
def ChannelAllowed (μ : ShmMap) (P : ℕ → ℕ → Prop) (cfg : IpcShmCfg) (c : ℕ) : Prop :=
  c < cfg.numChannels.toNat → ∀ a k, (cfg.chan c).InCtrl μ.localShm (cfg.chanOff c) a k → P a k

/-- **An instance that, if it is mapped at all, is in its place.** -/
def Driver.Mapped (d : Driver) (μ : ShmMap) (cfg : IpcShmCfg) (inst : ℕ) : Prop :=
  (d.priv inst).global ≠ 0 → d.os inst = μ.os ∧ (d.priv inst).Laid μ.os cfg

/-- A managed channel found in a mapped instance. -/
theorem Driver.Mapped.managed {mchan : IpcManagedChannel} (h : d.Mapped μ cfg inst)
    (hg : (d.priv inst).global ≠ 0) (hfound : getManagedChan d inst c = some mchan)
    (hP : ChannelAllowed μ P cfg c) :
    ∃ m pools, cfg.chan c = .managed m ∧ mchan = ((d.priv inst).channels c).mng ∧
      mchan.Laid μ.os (cfg.chanOff c) m pools ∧
      ∀ a k, (IpcShmChannelCfg.managed m).InCtrl μ.localShm (cfg.chanOff c) a k → P a k := by
  obtain ⟨-, hl⟩ := h hg
  obtain ⟨hlt, ht, rfl⟩ := getManagedChan_eq_some hfound
  rw [hl.numChannels_eq] at hlt
  obtain ⟨m, pools, hm, hlm⟩ := hl.managed hlt ht
  refine ⟨m, pools, hm, rfl, hlm, ?_⟩
  have := hP hlt
  rwa [hm] at this

/-- **`ipc_shm_acquire_buf`** stores in the rings of its channel; what it
returns is `NULL` or computed from a descriptor of one of the pools. -/
theorem ipcShmAcquireBuf_always (hE : Feeds μ D E) (h : d.Mapped μ cfg inst)
    (hP : ChannelAllowed μ P cfg c) (memSize : ℕ) :
    (ipcShmAcquireBuf d inst c memSize).Always E (Quiet P)
      (fun buf => buf ≠ 0 → ∃ m p bd, cfg.chan c = .managed m ∧ p < m.numPools.toNat ∧
        memSize ≤ (((d.priv inst).channels c).mng.pools p).bufSize ∧ D bd ∧
        buf = acquiredAddr (d.os inst) (d.priv inst).shmSize
          (((d.priv inst).channels c).mng.pools p) bd) := by
  unfold ipcShmAcquireBuf
  refine ((ipcShmIsRemoteReady_always d inst).restrict hE.env).bind (fun ready hready => ?_)
  split
  · exact fun h => absurd rfl h
  rename_i hr
  obtain ⟨-, hg⟩ := hready (not_not.mp hr)
  cases hfound : getManagedChan d inst c with
  | none => exact fun h => absurd rfl h
  | some mchan =>
    obtain ⟨m, pools, hm, hmchan, hlm, hP⟩ := h.managed hg hfound hP
    dsimp only
    split
    · exact fun h => absurd rfl h
    refine ((ipcCheckMchanIntegrity_always mchan).restrict hE.env).bind (fun err _ => ?_)
    split
    · exact fun h => absurd rfl h
    have hn : 0 + mchan.numPools ≤ m.numPools.toNat := by rw [hlm.numPools_eq]; omega
    refine (acquireFrom_always hE hlm hP memSize hn).bind (fun found hfound => ?_)
    cases found with
    | none => exact fun h => absurd rfl h
    | some r =>
      obtain ⟨pool, bd⟩ := r
      obtain ⟨p, hp, rfl, hsize, hbd⟩ := hfound _ _ rfl
      subst hmchan
      exact fun _ => ⟨m, p, bd, hm, hp, hsize, hbd, rfl⟩

/-- **`ipc_shm_release_buf`** stores in the rings of its channel. -/
theorem ipcShmReleaseBuf_always (h : d.Mapped μ cfg inst) (hP : ChannelAllowed μ P cfg c)
    (buf : ℕ) :
    (ipcShmReleaseBuf d inst c buf).Always (Env μ) (Quiet P) (fun _ => True) := by
  unfold ipcShmReleaseBuf
  refine (ipcInstanceIsFree_always (fun _ h => h) d inst).bind (fun st hst => ?_)
  split
  · trivial
  rename_i hused
  obtain ⟨-, hg⟩ := hst (not_not.mp hused)
  cases hfound : getManagedChan d inst c with
  | none => trivial
  | some mchan =>
    obtain ⟨m, pools, -, -, hlm, hP⟩ := h.managed hg hfound hP
    dsimp only
    split
    · trivial
    refine (ipcCheckMchanIntegrity_always mchan).bind (fun err _ => ?_)
    split
    · trivial
    split
    · trivial
    rename_i hpool
    obtain hf | ⟨q, -, hq, hf, hle, hlt⟩ := findPoolFrom_cases mchan.pools buf true mchan.numPools 0
    · exact absurd hf hpool
    · unfold findPoolForBuf
      rw [hlm.numPools_eq] at hq hf ⊢
      rw [hf]
      exact always_divU (bufSize_pos_of_owns hle hlt)
        (pushBd_pool_always hlm hP (by omega) _)

/-- **`ipc_shm_tx`** stores in the rings of its channel. -/
theorem ipcShmTx_always {chanId : ℤ} (h : d.Mapped μ cfg inst)
    (hP : ChannelAllowed μ P cfg (chanId % 2 ^ 8).toNat) (buf size : ℕ) :
    (ipcShmTx d inst chanId buf size).Always (Env μ) (Quiet P) (fun _ => True) := by
  unfold ipcShmTx
  refine (ipcShmIsRemoteReady_always d inst).bind (fun ready hready => ?_)
  split
  · trivial
  rename_i hr
  obtain ⟨-, hg⟩ := hready (not_not.mp hr)
  cases hfound : getManagedChan d inst (chanId % 2 ^ 8).toNat with
  | none => trivial
  | some mchan =>
    obtain ⟨m, pools, -, -, hlm, hP⟩ := h.managed hg hfound hP
    dsimp only
    split
    · trivial
    refine (ipcCheckMchanIntegrity_always mchan).bind (fun err _ => ?_)
    split
    · trivial
    split
    · trivial
    rename_i hpool
    obtain hf | ⟨q, -, hq, hf, hle, hlt⟩ :=
      findPoolFrom_cases mchan.pools buf false mchan.numPools 0
    · exact absurd hf hpool
    · unfold findPoolForBuf
      rw [hf]
      refine always_divU (bufSize_pos_of_owns hle hlt)
        ((pushBd_channel_always hlm hP _).bind (fun err _ => ?_))
      split
      · trivial
      · exact ⟨trivial, fun _ _ => trivial⟩

/-- **`ipc_shm_unmanaged_acquire`** only loads. -/
theorem ipcShmUnmanagedAcquire_always (d : Driver) (inst c : ℕ) :
    (ipcShmUnmanagedAcquire d inst c).Always (Env μ) (Quiet P) (fun _ => True) := by
  unfold ipcShmUnmanagedAcquire
  refine (ipcInstanceIsFree_always (fun _ h => h) d inst).bind (fun st hst => ?_)
  split
  · trivial
  cases getUnmanagedChan d inst c with
  | none => trivial
  | some chan =>
    refine (ipcCheckUchanLocalIntegrity_always chan).bind (fun err _ => ?_)
    split <;> trivial

/-- An unmanaged channel of a mapped instance. -/
theorem IpcShmPriv.Laid.header_allowed (hl : (d.priv inst).Laid μ.os cfg)
    (hlt : c < cfg.numChannels.toNat) (ht : ((d.priv inst).channels c).type = .unmanaged)
    (hP : ChannelAllowed μ P cfg c) {i : ℕ} (hi : i ≤ 12) :
    P (((d.priv inst).channels c).localMem + i) 4 := by
  obtain ⟨u, hu, hlu⟩ := hl.unmanaged hlt ht
  have hP := hP hlt
  rw [hu] at hP
  rw [hlu.localMem_eq]
  exact headerAllowed hP i 4 (by omega)

/-- **`ipc_shm_unmanaged_tx`** stores in the header of its channel. -/
theorem ipcShmUnmanagedTx_always (h : d.Mapped μ cfg inst) (hP : ChannelAllowed μ P cfg c) :
    (ipcShmUnmanagedTx d inst c).Always (Env μ) (Quiet P) (fun _ => True) := by
  unfold ipcShmUnmanagedTx
  refine (ipcShmIsRemoteReady_always d inst).bind (fun ready hready => ?_)
  split
  · trivial
  rename_i hr
  obtain ⟨-, hg⟩ := hready (not_not.mp hr)
  cases hfound : getUnmanagedChan d inst c with
  | none => trivial
  | some chan =>
    obtain ⟨hlt, ht, rfl⟩ := getUnmanagedChan_eq_some hfound
    obtain ⟨-, hl⟩ := h hg
    rw [hl.numChannels_eq] at hlt
    refine (ipcCheckUchanIntegrity_always _).bind (fun err _ => ?_)
    split
    · trivial
    · exact always_load32 (fun v _ => always_store32 (hl.header_allowed hlt ht hP (by omega))
        ⟨trivial, fun _ _ => trivial⟩)

/-- **`ipc_channel_rx`**: stores in the ring or in the header of its channel,
and what `G` says of the callbacks and of descriptors handled is up to the
caller. -/
theorem ipcChannelRx_always {G : Op → Prop} (hG : ∀ o, Quiet P o → G o) (hE : Feeds μ D E)
    (hl : (d.priv inst).Laid μ.os cfg) (hlt : c < cfg.numChannels.toNat)
    (hP : ChannelAllowed μ P cfg c)
    (hcb : ((d.priv inst).channels c).type = .unmanaged →
      G (.rxCbUnmanaged ((d.priv inst).channels c).umng.rxCb ((d.priv inst).channels c).umng.cbArg
        inst ((d.priv inst).channels c).id
        (((d.priv inst).channels c).remoteMem + sizeofIpcChannelUmem)))
    (hbd : ((d.priv inst).channels c).type = .managed → ∀ bd : IpcShmBd, D bd →
      (handleBd d inst c bd).Always E G (fun _ => True)) (budget : ℕ) :
    (ipcChannelRx d inst c budget).Always E G (fun w => w ≤ budget) := by
  unfold ipcChannelRx
  dsimp only
  split
  · rename_i ht
    refine (((ipcCheckUchanIntegrity_always _).restrict hE.env).mono hG (fun _ h => h)).bind
      (fun err _ => ?_)
    split
    · rw [load32_bind]
      refine ⟨hG _ trivial, fun v _ => ?_⟩
      dsimp only
      rw [load32_bind]
      refine ⟨hG _ trivial, fun v' _ => ?_⟩
      dsimp only
      split
      · exact ⟨hG _ (hl.header_allowed hlt ht hP (by omega)), fun _ _ =>
          ⟨hcb ht, fun _ _ => Nat.le_refl budget⟩⟩
      · exact Nat.zero_le budget
    · exact Nat.zero_le budget
  · rename_i ht
    have hmng : ((d.priv inst).channels c).type = .managed := by
      have hty := hl.type_eq hlt
      have hlc := hl.chan c hlt
      cases hcc : cfg.chan c with
      | managed m => rw [hty, hcc]; rfl
      | unmanaged u => rw [hty, hcc] at ht; exact absurd rfl ht
      | invalid => rw [hcc] at hlc; exact False.elim hlc
    obtain ⟨m, pools, hm, hlm⟩ := hl.managed hlt hmng
    have hP := hP hlt
    rw [hm] at hP
    refine (drainChannel_always ((popBd_always hE hlm hP).mono hG (fun _ h => h)) (hbd hmng)
      budget 0).mono (fun _ h => h) (fun w hw => ?_)
    omega

/-- **`ipc_shm_rx`** does what its channels do, and returns. -/
theorem ipcShmRx_always {G : Op → Prop} (hG : ∀ o, Quiet P o → G o) (h : d.Mapped μ cfg inst)
    (hnum : (d.priv inst).global ≠ 0 → 1 ≤ cfg.numChannels.toNat) {budget : ℕ}
    (hbudget : budget < 2 ^ 31)
    (hrx : (d.priv inst).global ≠ 0 → ∀ c, c < cfg.numChannels.toNat → ∀ budget,
      (ipcChannelRx d inst c budget).Always (Env μ) G (fun w => w ≤ budget)) :
    (ipcShmRx d inst budget).Always (Env μ) G (fun _ => True) := by
  unfold ipcShmRx
  refine (ipcInstanceIsFree_always hG d inst).bind (fun st hst => ?_)
  split
  · trivial
  rename_i hused
  obtain ⟨-, hg⟩ := hst (not_not.mp hused)
  obtain ⟨-, hl⟩ := h hg
  rw [hl.numChannels_eq, Program.always_iff_wp]
  have hnum' := cfg.numChannels.toNat_lt
  refine rxRounds_wp (I := fun _ => True) Program.monotone_always (fun c hc budget _ _ => ?_)
    (hnum hg) _ (by omega) trivial
  have := hrx hg c hc budget
  rw [Program.always_iff_wp] at this
  exact Program.wp_mono Program.monotone_always _ (fun w _ hw => ⟨hw, trivial⟩) this

end Calls
