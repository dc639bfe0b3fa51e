import IpcShm.InitMemory

/-!
# Two peers on one memory

The two ends of an instance: their configurations, of one shape, and their
maps of the two windows. The windows are read as lanes – for each peer and
each channel the buffers that are free and the messages on their way –
(`Peers.Rep`), and the calls of the data path are functions of the lanes: an
acquire takes the first free buffer of a pool, a transmission appends a
message, a release appends a free buffer. Each call has one specification,
and says everything the call can do to the lanes.
-/

/-! ## Configurations of one shape -/

theorem IpcShmChannelCfg.SameShape.exists_managed {m : IpcShmManagedCfg} {cc : IpcShmChannelCfg}
    (h : (IpcShmChannelCfg.managed m).SameShape cc) :
    ∃ m', cc = .managed m' ∧ m.numPools = m'.numPools := by
  cases h with
  | managed hn => exact ⟨_, rfl, hn⟩

namespace IpcShmCfg.Symmetric

variable {cfg cfg' : IpcShmCfg} {id : QueueId} {c p : ℕ}

theorem hasQueue (h : cfg.Symmetric cfg') (hid : cfg.HasQueue id) : cfg'.HasQueue id := by
  cases id with
  | chan c =>
    obtain ⟨hc, m, hm⟩ := hid
    have hshape := h.chan c hc
    rw [hm] at hshape
    obtain ⟨m', hm', -⟩ := hshape.exists_managed
    rw [h.numChannels_eq] at hc
    exact ⟨hc, m', hm'⟩
  | pool c p =>
    obtain ⟨hc, m, hm, hp⟩ := hid
    have hshape := h.chan c hc
    rw [hm] at hshape
    obtain ⟨m', hm', hn⟩ := hshape.exists_managed
    rw [h.numChannels_eq] at hc
    rw [hn] at hp
    exact ⟨hc, m', hm', hp⟩

theorem numPools_eq (h : cfg.Symmetric cfg') (hc : c < cfg.numChannels.toNat) :
    (cfg.chan c).numPools = (cfg'.chan c).numPools := by
  have hshape := h.chan c hc
  revert hshape
  generalize cfg.chan c = cc, cfg'.chan c = cc'
  intro hshape
  cases hshape with
  | managed hn => exact congrArg UInt8.toNat hn
  | unmanaged => rfl

theorem pool_eq (h : cfg.Symmetric cfg') (hc : c < cfg.numChannels.toNat)
    (hp : p < (cfg.chan c).numPools) : cfg.pool c p = cfg'.pool c p := by
  have hshape := h.chan c hc
  unfold IpcShmCfg.pool
  revert hshape hp
  generalize cfg.chan c = cc, cfg'.chan c = cc'
  intro hp hshape
  cases hshape with
  | managed hn hpools hpools' heq =>
    unfold IpcShmChannelCfg.poolCfg
    dsimp only
    rw [hpools, hpools']
    exact heq p hp
  | unmanaged => rfl

theorem queueCap_eq (h : cfg.Symmetric cfg') (hid : cfg.HasQueue id) :
    cfg.queueCap id = cfg'.queueCap id := by
  cases id with
  | chan c =>
    rw [IpcShmCfg.queueCap, IpcShmCfg.queueCap, ← h.numPools_eq hid.1]
    exact bufsOf_congr (fun p hp => h.pool_eq hid.1 hp)
  | pool c p => rw [IpcShmCfg.queueCap, IpcShmCfg.queueCap, h.pool_eq hid.1 hid.pool_lt]

theorem poolAt_eq (h : cfg.Symmetric cfg') (hid : cfg.HasQueue (.pool c p)) :
    cfg.poolAt c p = cfg'.poolAt c p := by
  rw [IpcShmCfg.poolAt, IpcShmCfg.poolAt, h.chanOff_eq (Nat.le_of_lt hid.1),
    ← h.numPools_eq hid.1]
  exact congrArg _ (poolOff_congr (fun p hp => h.pool_eq hid.1 hp) (Nat.le_of_lt hid.pool_lt))

theorem queueOff_eq (h : cfg.Symmetric cfg') (hid : cfg.HasQueue id) :
    cfg.queueOff id = cfg'.queueOff id := by
  cases id with
  | chan c => exact h.chanOff_eq (Nat.le_of_lt hid.1)
  | pool c p => exact h.poolAt_eq hid

theorem bufStart_eq (h : cfg.Symmetric cfg') (hid : cfg.HasQueue (.pool c p)) :
    cfg.bufStart c p = cfg'.bufStart c p := by
  rw [IpcShmCfg.bufStart, IpcShmCfg.bufStart, h.poolAt_eq hid,
    h.pool_eq hid.1 hid.pool_lt]

theorem refl_left (h : cfg.Symmetric cfg') : cfg.Symmetric cfg := by
  refine ⟨rfl, rfl, fun c hc => ?_⟩
  have hshape := h.chan c hc
  revert hshape
  generalize cfg.chan c = cc, cfg'.chan c = cc'
  intro hshape
  cases hshape with
  | managed _ hpools => exact .managed rfl hpools hpools (fun _ _ => rfl)
  | unmanaged => exact .unmanaged rfl

theorem poolsGiven (h : cfg.Symmetric cfg') : cfg.PoolsGiven := by
  intro c hc m hm
  have hshape := h.chan c hc
  rw [hm] at hshape
  generalize cfg'.chan c = cc' at hshape
  cases hshape with
  | managed _ hpools => exact ⟨_, hpools⟩

end IpcShmCfg.Symmetric

/-! ## The peers -/

/-- **Two peers**: configurations of one shape whose layout fits, and where
each of them maps the two windows. -/
structure Peers where
  cfg : Side → IpcShmCfg
  μ : Side → ShmMap
  inst : Side → ℕ
  symmetric : ∀ s, (cfg s).Symmetric (cfg s.other)
  size_eq : ∀ s, (μ s).size = (cfg s).shmSize.toNat
  fits : ∀ s, (cfg s).footprint ≤ (cfg s).shmSize.toNat

namespace Peers

variable (P : Peers)

/-- The configuration the shape is read from. -/
def shape : IpcShmCfg := P.cfg .a

/-- The queue is one of the instance. -/
def Has (id : QueueId) : Prop := P.shape.HasQueue id

/-- The number of channels. -/
def numChannels : ℕ := P.shape.numChannels.toNat

/-- The number of pools of a channel. -/
def numPools (c : ℕ) : ℕ := (P.shape.chan c).numPools

/-- The number of buffers of a pool. -/
def numBufs (c p : ℕ) : ℕ := (P.shape.pool c p).numBufs.toNat

/-- The size of the buffers of a pool. -/
def bufSize (c p : ℕ) : ℕ := (P.shape.pool c p).bufSize.toNat

/-- The offset of a queue. -/
def off (id : QueueId) : ℕ := P.shape.queueOff id

/-- The capacity of a queue. -/
def cap (id : QueueId) : ℕ := P.shape.queueCap id

/-- The buffer is one of the channel. -/
def HasBuf (c : ℕ) (x : BufId) : Prop := P.Has (.pool c x.1) ∧ x.2 < P.numBufs c x.1

/-- **The address of one of its buffers**, for a peer. -/
def localBuf (s : Side) (c : ℕ) (x : BufId) : ℕ := (P.μ s).localShm + P.shape.bufOff c x

/-- **The address of a buffer of the other peer.** -/
def remoteBuf (s : Side) (c : ℕ) (x : BufId) : ℕ := (P.μ s).remoteShm + P.shape.bufOff c x

/-- What the driver of a peer knows when its instance is initialized. -/
structure Up (s : Side) (d : Driver) : Prop where
  inst_lt : P.inst s < ipcShmMaxInstances
  os_eq : d.os (P.inst s) = (P.μ s).os
  laid : (d.priv (P.inst s)).Laid (P.μ s).os (P.cfg s)

variable {P} {s : Side} {d : Driver} {id : QueueId} {c p : ℕ}

theorem shape_symmetric (P : Peers) (s : Side) : P.shape.Symmetric (P.cfg s) := by
  cases s with
  | a => exact (P.symmetric .a).refl_left
  | b => exact P.symmetric .a

theorem poolsGiven (P : Peers) : P.shape.PoolsGiven := (P.symmetric .a).poolsGiven

theorem fits_window (P : Peers) (s : Side) : P.shape.footprint ≤ (P.μ s).size := by
  rw [P.size_eq s, ← (P.shape_symmetric s).shmSize_eq]
  exact P.fits .a

theorem size_lt (P : Peers) (s : Side) : (P.μ s).size < 2 ^ 32 := by
  rw [P.size_eq s]
  exact (P.cfg s).shmSize.toNat_lt

/-- A queue lies after the header and in the window. -/
theorem off_bounds (hid : P.Has id) (s : Side) :
    8 ≤ P.off id ∧ P.off id + ringBytes (P.cap id) ≤ (P.μ s).size := by
  obtain ⟨h₁, h₂⟩ := P.shape.queue_bounds P.poolsGiven hid
  exact ⟨h₁, h₂.trans (P.fits_window s)⟩

/-- A buffer lies in the window. -/
theorem buf_fits {x : BufId} (hx : P.HasBuf c x) (s : Side) :
    P.shape.bufOff c x + P.bufSize c x.1 ≤ (P.μ s).size :=
  (P.shape.bufOff_fits P.poolsGiven hx.1 hx.2).trans (P.fits_window s)

/-- No buffer is at the start of the window. -/
theorem bufOff_pos {x : BufId} (hx : P.HasBuf c x) : 0 < P.shape.bufOff c x := by
  obtain ⟨-, -, hlow, -⟩ := P.shape.layout_bounds hx.1.chan.1
    (IpcShmCfg.bufs_mem_layout P.poolsGiven hx.1)
  have hstart : P.shape.bufStart c x.1 ≤ P.shape.bufOff c x := Nat.le_add_right _ _
  exact Nat.lt_of_lt_of_le (Nat.lt_of_lt_of_le (by decide) hlow) hstart

/-! ### The driver of a peer, in terms of the shape -/

namespace Up

theorem numChannels_eq (h : P.Up s d) : (d.priv (P.inst s)).numChannels = P.numChannels := by
  rw [h.laid.numChannels_eq, Peers.numChannels, (P.shape_symmetric s).numChannels_eq]

theorem global_eq (h : P.Up s d) : (d.priv (P.inst s)).global = (P.μ s).localShm :=
  h.laid.global_eq

theorem shmSize_eq (h : P.Up s d) : (d.priv (P.inst s)).shmSize = (P.μ s).size := by
  rw [h.laid.shmSize_eq, P.size_eq]

theorem lt_of_shape (h : P.Up s d) (hc : c < P.numChannels) :
    c < (P.cfg s).numChannels.toNat := by
  rw [← h.laid.numChannels_eq, h.numChannels_eq]
  exact hc

/-- The private data of a managed channel. -/
theorem managed (h : P.Up s d) (hid : P.Has (.chan c)) :
    ((d.priv (P.inst s)).channels c).type = .managed ∧ ∃ m pools,
      (P.cfg s).chan c = .managed m ∧
      ((d.priv (P.inst s)).channels c).mng.Laid (P.μ s).os ((P.cfg s).chanOff c) m pools := by
  obtain ⟨hc, m, hm⟩ := (P.shape_symmetric s).hasQueue hid
  have hl := h.laid.chan c hc
  rw [hm] at hl
  obtain ⟨ht, pools, hl⟩ := hl
  exact ⟨ht, m, pools, hm, hl⟩

/-- The private data of a pool. -/
theorem pool (h : P.Up s d) (hid : P.Has (.pool c p)) :
    (((d.priv (P.inst s)).channels c).mng.pools p).Laid (P.μ s).os (P.shape.poolAt c p)
      (P.shape.pool c p) := by
  have hch : P.Has (.chan c) := hid.chan
  obtain ⟨-, m, pools, hm, hl⟩ := h.managed hch
  have hsym := P.shape_symmetric s
  have hp : p < m.numPools.toNat := by
    have := (hsym.hasQueue hid).pool_lt
    rwa [IpcShmCfg.numPools_eq hm] at this
  have hpool := hl.pool p hp
  rw [hsym.poolAt_eq hid, hsym.pool_eq hid.1 hid.pool_lt, IpcShmCfg.poolAt,
    IpcShmCfg.pool_eq hm hl.pools_eq, IpcShmCfg.numPools_eq hm]
  exact hpool

theorem numPools_eq (h : P.Up s d) (hid : P.Has (.chan c)) :
    ((d.priv (P.inst s)).channels c).mng.numPools = P.numPools c := by
  obtain ⟨-, m, pools, hm, hl⟩ := h.managed hid
  rw [hl.numPools_eq, Peers.numPools, (P.shape_symmetric s).numPools_eq hid.1,
    IpcShmCfg.numPools_eq hm]

theorem numPools_le (h : P.Up s d) (hid : P.Has (.chan c)) : P.numPools c ≤ ipcShmMaxPools := by
  obtain ⟨-, m, pools, hm, hl⟩ := h.managed hid
  rw [← h.numPools_eq hid, hl.numPools_eq]
  exact hl.numPools_le

theorem cap_le (h : P.Up s d) (hid : P.Has id) : P.cap id ≤ ipcShmMaxBufsPerChannel := by
  cases id with
  | chan c =>
    obtain ⟨-, m, pools, hm, hl⟩ := h.managed hid
    have hcap : P.cap (.chan c) = bufsOf pools m.numPools.toNat := by
      rw [Peers.cap, (P.shape_symmetric s).queueCap_eq hid, IpcShmCfg.queueCap,
        IpcShmCfg.pool_eq hm hl.pools_eq, IpcShmCfg.numPools_eq hm]
    rw [hcap]
    exact hl.total_le
  | pool c p => exact (h.pool hid).numBufs_le.trans (by decide)

theorem queue_eq (h : P.Up s d) (hid : P.Has id) :
    (d.priv (P.inst s)).queue id = laidQueue (P.μ s).os (P.off id) (P.cap id) := by
  have hsym := P.shape_symmetric s
  cases id with
  | chan c =>
    obtain ⟨-, m, pools, hm, hl⟩ := h.managed hid
    rw [IpcShmPriv.queue, hl.bdQueue_eq, Peers.off, Peers.cap, hsym.queueOff_eq hid,
      hsym.queueCap_eq hid, IpcShmCfg.queueCap, IpcShmCfg.pool_eq hm hl.pools_eq,
      IpcShmCfg.numPools_eq hm]
    rfl
  | pool c p => exact (h.pool hid).bdQueue_eq

/-- **Every queue is in its place.** -/
theorem queue_at (h : P.Up s d) (hid : P.Has id) :
    ((d.priv (P.inst s)).queue id).At (P.μ s) (P.off id) := by
  rw [h.queue_eq hid]
  exact laidQueue_at _ (h.cap_le hid) (off_bounds hid s).2

theorem elemNum_eq (h : P.Up s d) (hid : P.Has id) :
    ((d.priv (P.inst s)).queue id).elemNum = P.cap id + 1 := by
  rw [h.queue_eq hid]
  rfl

theorem elemSize_eq (h : P.Up s d) (hid : P.Has id) :
    ((d.priv (P.inst s)).queue id).elemSize = 8 := by
  rw [h.queue_eq hid]
  rfl

theorem cap_lt (h : P.Up s d) (hid : P.Has id) : P.cap id < 2 ^ 16 :=
  Nat.lt_of_le_of_lt (h.cap_le hid) (by decide)

end Up

/-- An instance and a peer configured like it. -/
def mirror (cfg : IpcShmCfg) (μ : ShmMap) (inst : ℕ) (hsym : cfg.Symmetric cfg)
    (hμ : μ.size = cfg.shmSize.toNat) (hfit : cfg.footprint ≤ cfg.shmSize.toNat) : Peers where
  cfg := fun _ => cfg
  μ := fun _ => μ
  inst := fun _ => inst
  symmetric := fun _ => hsym
  size_eq := fun _ => hμ
  fits := fun _ => hfit

end Peers

/-- An accepted configuration is symmetric to itself. -/
theorem IpcShmPriv.Laid.symmetric {priv : IpcShmPriv} {os : IpcOs} {cfg : IpcShmCfg}
    (h : priv.Laid os cfg) : cfg.Symmetric cfg where
  shmSize_eq := rfl
  numChannels_eq := rfl
  chan := fun c hc => by
    have hl := h.chan c hc
    cases hch : cfg.chan c with
    | managed m =>
      rw [hch] at hl
      obtain ⟨-, pools, hm⟩ := hl
      exact .managed rfl hm.pools_eq hm.pools_eq (fun _ _ => rfl)
    | unmanaged u => exact .unmanaged rfl
    | invalid =>
      rw [hch] at hl
      exact False.elim hl

/-- Two peers with the sample configuration. -/
def samplePeers : Peers where
  cfg := fun _ => sampleCfg
  μ := twoWindows
  inst := fun _ => 0
  symmetric := fun _ => sampleCfg_symmetric
  size_eq := fun s => by cases s <;> rfl
  fits := fun _ => by decide

/-! ## Lanes in memory -/

/-- The lanes of all channels, by the peer that sends. -/
abbrev Lanes := Side → ℕ → Lane

/-- The lanes with one replaced. -/
def Lanes.set (L : Lanes) (s : Side) (c : ℕ) (l : Lane) : Lanes :=
  fun s' c' => if s' = s ∧ c' = c then l else L s' c'

@[simp] theorem Lanes.set_self (L : Lanes) (s : Side) (c : ℕ) (l : Lane) : L.set s c l s c = l :=
  if_pos ⟨rfl, rfl⟩

theorem Lanes.set_of_ne {L : Lanes} {s s' : Side} {c c' : ℕ} {l : Lane}
    (h : ¬(s' = s ∧ c' = c)) : L.set s c l s' c' = L s' c' := if_neg h

/-- The descriptor of a message. -/
def Message.bytes (msg : Message) : List UInt8 := bdBytes msg.buf msg.size

@[simp] theorem Message.bytes_length (msg : Message) : msg.bytes.length = 8 := bdBytes_length _ _

/-- **The queues that carry lanes.** A peer pushes its messages, and the free
buffers of the other peer. -/
def Lanes.queues (L : Lanes) (s : Side) : QueueId → List (List UInt8)
  | .chan c => (L s c).transit.map Message.bytes
  | .pool c p => ((L s.other c).free p).map (fun i => bdBytes (p, i) 0)

section Queues

variable {L : Lanes} {s s' : Side} {c p : ℕ} {id : QueueId}

/-- A change of the messages on their way. -/
theorem Lanes.queues_transit {xs : List Message} :
    (L.set s c { L s c with transit := xs }).queues s' id
      = Queues.set L.queues s (.chan c) (xs.map Message.bytes) s' id := by
  cases id with
  | chan c' =>
    by_cases h : s' = s ∧ c' = c
    · obtain ⟨rfl, rfl⟩ := h
      simp only [queues, set_self, Queues.set, and_self, if_true]
    · have hne : ¬(s' = s ∧ QueueId.chan c' = .chan c) := fun hc => h ⟨hc.1, QueueId.chan.inj hc.2⟩
      simp only [queues, set_of_ne h, Queues.set, if_neg hne]
  | pool c' p =>
    have hne : ¬(s' = s ∧ QueueId.pool c' p = .chan c) := fun hc => QueueId.noConfusion hc.2
    by_cases h : s'.other = s ∧ c' = c
    · obtain ⟨rfl, rfl⟩ := h
      simp only [queues, set_self, Queues.set, if_neg hne]
    · simp only [queues, set_of_ne h, Queues.set, if_neg hne]

/-- A change of the free buffers of one pool. -/
theorem Lanes.queues_free {xs : List ℕ} :
    (L.set s c { L s c with free := Function.update (L s c).free p xs }).queues s' id
      = Queues.set L.queues s.other (.pool c p) (xs.map (fun i => bdBytes (p, i) 0)) s' id := by
  cases id with
  | chan c' =>
    have hne : ¬(s' = s.other ∧ QueueId.chan c' = .pool c p) := fun hc => nomatch hc.2
    by_cases h : s' = s ∧ c' = c
    · obtain ⟨rfl, rfl⟩ := h
      simp only [queues, set_self, Queues.set, if_neg hne]
    · simp only [queues, set_of_ne h, Queues.set, if_neg hne]
  | pool c' p' =>
    by_cases h : s'.other = s ∧ c' = c
    · obtain ⟨rfl, rfl⟩ := h
      by_cases hp : p' = p
      · subst hp
        simp only [queues, set_self, Queues.set, Side.other_other, and_self, if_true,
          Function.update_self]
      · have hne : ¬(s' = s'.other.other ∧ QueueId.pool c' p' = .pool c' p) :=
          fun hc => hp (QueueId.pool.inj hc.2).2
        simp only [queues, set_self, Queues.set, if_neg hne, Function.update_of_ne hp]
    · have hne : ¬(s' = s.other ∧ QueueId.pool c' p' = .pool c p) := fun hc =>
        h ⟨by rw [hc.1, Side.other_other], (QueueId.pool.inj hc.2).1⟩
      simp only [queues, set_of_ne h, Queues.set, if_neg hne]

end Queues

namespace Peers

variable (P : Peers)

/-- The buffers of a lane are buffers of the channel. -/
structure LaneOk (c : ℕ) (l : Lane) : Prop where
  free : ∀ p, P.Has (.pool c p) → ∀ i ∈ l.free p, i < P.numBufs c p
  transit : ∀ msg ∈ l.transit, P.HasBuf c msg.buf ∧ msg.size < 2 ^ 32

/-- **The windows carry the lanes**: both instances are ready, every ring is
initialized, and the rings hold what the lanes say. -/
structure Rep (shm : Shm) (L : Lanes) : Prop where
  ready : ∀ s, (shm s).load 8 0 = ipcShmStateReady
  done : ∀ id, P.Has id → shm.Done (P.off id)
  holds : QueuesHold P.shape shm L.queues
  valid : ∀ s c, P.Has (.chan c) → P.LaneOk c (L s c)

variable {P} {shm shm' : Shm} {L : Lanes} {s : Side} {id : QueueId} {c p : ℕ} {m : ByteMem}
  {x : List UInt8}

/-- **A push stays in its ring.** -/
theorem pushBack_frame (hid : P.Has id) (hw : m.writeIdx (P.off id) < P.cap id + 1)
    (hx : x.length = 8) :
    (m.pushBack (P.off id) (P.cap id + 1) 8 x).load 8 0 = m.load 8 0 ∧
      ∀ id', P.Has id' →
        (m.pushBack (P.off id) (P.cap id + 1) 8 x).sentinel (P.off id')
          = m.sentinel (P.off id') := by
  refine ⟨ByteMem.load_congr (fun i hi => ?_), fun id' hid' => ?_⟩
  · have := (P.shape.queue_bounds P.poolsGiven hid).1
    refine ByteMem.pushBack_of_not_mem hw hx (Or.inl ?_)
    show 0 + i < P.shape.queueOff id + 8
    omega
  · by_cases he : id' = id
    · subst he
      exact ByteMem.sentinel_pushBack
    · exact (ByteMem.sameOn_pushBack hw hx
        (P.shape.queue_apart P.poolsGiven hid hid' (Ne.symm he))).sentinel

/-- **A pop stays in its ring.** -/
theorem popFront_frame (hid : P.Has id) (M : ℕ) :
    (m.popFront (P.off id) M).load 8 0 = m.load 8 0 ∧
      ∀ id', P.Has id' →
        (m.popFront (P.off id) M).sentinel (P.off id') = m.sentinel (P.off id') := by
  refine ⟨ByteMem.load_congr (fun i hi => ?_), fun id' hid' => ?_⟩
  · have := (P.shape.queue_bounds P.poolsGiven hid).1
    exact ByteMem.popFront_of_not_mem (Or.inl (by show 0 + i < P.shape.queueOff id + 12; omega))
  · by_cases he : id' = id
    · subst he
      exact ByteMem.sentinel_popFront
    · exact (ByteMem.sameOn_popFront
        (P.shape.queue_apart P.poolsGiven hid hid' (Ne.symm he))).sentinel

namespace Rep

/-- A store that keeps the header and the sentinels. -/
theorem set (h : P.Rep shm L) {L' : Lanes} (hhead : m.load 8 0 = (shm s).load 8 0)
    (hsent : ∀ id, P.Has id → m.sentinel (P.off id) = (shm s).sentinel (P.off id))
    (hholds : QueuesHold P.shape (shm.set s m) L'.queues)
    (hvalid : ∀ s c, P.Has (.chan c) → P.LaneOk c (L' s c)) : P.Rep (shm.set s m) L' where
  ready := fun t => by
    rcases Side.eq_or_eq_other s t with rfl | rfl
    · rw [Shm.set_self, hhead]
      exact h.ready _
    · rw [Shm.set_other]
      exact h.ready _
  done := fun id hid t => by
    rcases Side.eq_or_eq_other s t with rfl | rfl
    · rw [Shm.set_self, hsent id hid]
      exact h.done id hid _
    · rw [Shm.set_other]
      exact h.done id hid _
  holds := hholds
  valid := hvalid

theorem valid_set (h : P.Rep shm L) {l : Lane} (hl : P.Has (.chan c) → P.LaneOk c l) :
    ∀ s' c', P.Has (.chan c') → P.LaneOk c' (L.set s c l s' c') := by
  intro s' c' hid
  by_cases he : s' = s ∧ c' = c
  · obtain ⟨rfl, rfl⟩ := he
    rw [Lanes.set_self]
    exact hl hid
  · rw [Lanes.set_of_ne he]
    exact h.valid s' c' hid

/-- **A message is pushed.** -/
theorem send (h : P.Rep shm L) (hid : P.Has (.chan c)) (hcap : P.cap (.chan c) < 2 ^ 16)
    (hlen : (L s c).transit.length < P.cap (.chan c)) {msg : Message}
    (hmsg : P.HasBuf c msg.buf) (hsize : msg.size < 2 ^ 32) :
    P.Rep (shm.set s ((shm s).pushBack (P.off (.chan c)) (P.cap (.chan c) + 1) 8 msg.bytes))
      (L.set s c ((L s c).send msg)) := by
  obtain ⟨hhead, hsent⟩ := pushBack_frame hid (h.holds _ hid s).write_lt msg.bytes_length
  refine h.set hhead hsent ?_ (h.valid_set (fun hid => ?_))
  · have hlen' : (L.queues s (.chan c)).length < P.shape.queueCap (.chan c) := by
      rw [Lanes.queues, List.length_map]
      exact hlen
    refine (h.holds.push P.poolsGiven hid hcap hlen' msg.bytes_length).congr (fun id _ s' => ?_)
    refine Lanes.queues_transit.trans ?_
    rw [List.map_append, List.map_singleton]
    rfl
  · have hok := h.valid s c hid
    refine ⟨hok.free, fun m hm => ?_⟩
    rcases List.mem_append.mp hm with hm | hm
    · exact hok.transit m hm
    · rw [List.mem_singleton.mp hm]
      exact ⟨hmsg, hsize⟩

/-- **A message is popped.** -/
theorem receive (h : P.Rep shm L) (hid : P.Has (.chan c)) (hcap : P.cap (.chan c) < 2 ^ 16)
    {msg : Message} {rest : List Message} (ht : (L s.other c).transit = msg :: rest) :
    P.Rep (shm.set s ((shm s).popFront (P.off (.chan c)) (P.cap (.chan c) + 1)))
      (L.set s.other c ((L s.other c).receive rest)) := by
  obtain ⟨hhead, hsent⟩ := popFront_frame hid (P.cap (.chan c) + 1)
  refine h.set hhead hsent ?_ (h.valid_set (fun hid => ?_))
  · have hq : L.queues s.other (.chan c) = msg.bytes :: rest.map Message.bytes := by
      rw [Lanes.queues, ht, List.map_cons]
    exact (h.holds.pop P.poolsGiven hid hcap hq).congr (fun id _ s' => Lanes.queues_transit)
  · have hok := h.valid s.other c hid
    refine ⟨hok.free, fun m hm => hok.transit m ?_⟩
    rw [ht]
    exact List.mem_cons_of_mem _ hm

/-- **A free buffer is popped.** -/
theorem acquire (h : P.Rep shm L) (hid : P.Has (.pool c p)) (hcap : P.cap (.pool c p) < 2 ^ 16)
    {i : ℕ} {rest : List ℕ} (hf : (L s c).free p = i :: rest) :
    P.Rep (shm.set s ((shm s).popFront (P.off (.pool c p)) (P.cap (.pool c p) + 1)))
      (L.set s c ((L s c).acquire p rest)) := by
  obtain ⟨hhead, hsent⟩ := popFront_frame hid (P.cap (.pool c p) + 1)
  refine h.set hhead hsent ?_ (h.valid_set (fun hch => ?_))
  · have hq : L.queues s.other (.pool c p)
        = bdBytes (p, i) 0 :: rest.map (fun i => bdBytes (p, i) 0) := by
      rw [Lanes.queues, Side.other_other, hf, List.map_cons]
    exact (h.holds.pop P.poolsGiven hid hcap hq).congr (fun id _ s' => Lanes.queues_free)
  · have hok := h.valid s c hch
    refine ⟨fun p' hp' j hj => hok.free p' hp' j ?_, hok.transit⟩
    by_cases he : p' = p
    · subst he
      simp only [Lane.acquire, Function.update_self] at hj
      rw [hf]
      exact List.mem_cons_of_mem _ hj
    · simp only [Lane.acquire, Function.update_of_ne he] at hj
      exact hj

/-- **A free buffer is pushed.** -/
theorem release (h : P.Rep shm L) {x : BufId} (hx : P.HasBuf c x)
    (hcap : P.cap (.pool c x.1) < 2 ^ 16)
    (hlen : ((L s.other c).free x.1).length < P.numBufs c x.1) :
    P.Rep (shm.set s ((shm s).pushBack (P.off (.pool c x.1)) (P.cap (.pool c x.1) + 1) 8
        (bdBytes x 0))) (L.set s.other c ((L s.other c).release x)) := by
  obtain ⟨hhead, hsent⟩ := pushBack_frame hx.1 (h.holds _ hx.1 s).write_lt (bdBytes_length x 0)
  refine h.set hhead hsent ?_ (h.valid_set (fun hch => ?_))
  · have hlen' : (L.queues s (.pool c x.1)).length < P.shape.queueCap (.pool c x.1) := by
      rw [Lanes.queues, List.length_map]
      exact hlen
    refine (h.holds.push P.poolsGiven hx.1 hcap hlen' (bdBytes_length x 0)).congr
      (fun id _ s' => ?_)
    refine Lanes.queues_free.trans ?_
    rw [List.map_append, List.map_singleton, Side.other_other]
    rfl
  · have hok := h.valid s.other c hch
    refine ⟨fun p' hp' j hj => ?_, hok.transit⟩
    by_cases he : p' = x.1
    · subst he
      simp only [Lane.release, Function.update_self] at hj
      rcases List.mem_append.mp hj with hj | hj
      · exact hok.free _ hp' j hj
      · rw [List.mem_singleton.mp hj]
        exact hx.2
    · simp only [Lane.release, Function.update_of_ne he] at hj
      exact hok.free _ hp' j hj

end Rep

end Peers
