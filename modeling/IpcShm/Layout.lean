import IpcShm.Window
import IpcShm.Tiling
import Mathlib.Algebra.BigOperators.Group.Finset.Basic
import Mathlib.Algebra.Order.BigOperators.Group.Finset

/-!
# The exact layout of an instance

Where a configuration puts its channels and pools, computed from the
configuration alone and in natural numbers: the global header, then for each
channel its ring and for each of its pools a ring and the buffers, or the
header and memory of an unmanaged channel. Nothing wraps here. The driver
computes the same offsets in 32 bits, in three different places, and on
pointers; that it arrives at this layout is proved where it is initialized.

`Laid` says of the private data of an instance that every pointer in it is
where the layout wants it.
-/

open Finset

/-- The bytes of a ring for `n` elements and the free slot. -/
def ringBytes (n : ℕ) : ℕ := 16 + (n + 1) * 8

/-- The bytes of the buffers of a pool. -/
def IpcShmPoolCfg.bufBytes (p : IpcShmPoolCfg) : ℕ := p.numBufs.toNat * p.bufSize.toNat

/-- The bytes of a pool: its ring and its buffers. -/
def IpcShmPoolCfg.extent (p : IpcShmPoolCfg) : ℕ := ringBytes p.numBufs.toNat + p.bufBytes

/-- The buffers of the first `n` pools. -/
def bufsOf (pools : ℕ → IpcShmPoolCfg) (n : ℕ) : ℕ := ∑ i ∈ range n, (pools i).numBufs.toNat

/-- The offset of pool `p` in its channel, `n` being the number of pools. -/
def poolOff (pools : ℕ → IpcShmPoolCfg) (n p : ℕ) : ℕ :=
  ringBytes (bufsOf pools n) + ∑ i ∈ range p, (pools i).extent

/-- **The bytes of a channel.** -/
def IpcShmChannelCfg.extent : IpcShmChannelCfg → ℕ
  | .managed m =>
    match m.pools with
    | none => 0
    | some pools => poolOff pools m.numPools.toNat m.numPools.toNat
  | .unmanaged u => sizeofIpcChannelUmem + u.size.toNat
  | .invalid => 0

/-- The parameters of a channel. -/
def IpcShmCfg.chan (cfg : IpcShmCfg) (c : ℕ) : IpcShmChannelCfg :=
  match cfg.channels with
  | none => .invalid
  | some f => f c

/-- **The offset of a channel.** -/
def IpcShmCfg.chanOff (cfg : IpcShmCfg) (c : ℕ) : ℕ :=
  sizeofIpcShmGlobal + ∑ i ∈ range c, (cfg.chan i).extent

/-- **The bytes of an instance.** -/
def IpcShmCfg.footprint (cfg : IpcShmCfg) : ℕ := cfg.chanOff cfg.numChannels.toNat

theorem bufsOf_succ (pools : ℕ → IpcShmPoolCfg) (n : ℕ) :
    bufsOf pools (n + 1) = bufsOf pools n + (pools n).numBufs.toNat := sum_range_succ _ n

theorem poolOff_succ (pools : ℕ → IpcShmPoolCfg) (n p : ℕ) :
    poolOff pools n (p + 1) = poolOff pools n p + (pools p).extent := by
  rw [poolOff, sum_range_succ, ← Nat.add_assoc]
  rfl

theorem poolOff_zero (pools : ℕ → IpcShmPoolCfg) (n : ℕ) :
    poolOff pools n 0 = ringBytes (bufsOf pools n) := by
  rw [poolOff, range_zero, sum_empty, Nat.add_zero]

theorem poolOff_mono (pools : ℕ → IpcShmPoolCfg) (n : ℕ) {p p' : ℕ} (h : p ≤ p') :
    poolOff pools n p ≤ poolOff pools n p' :=
  Nat.add_le_add_left (sum_le_sum_of_subset (range_mono h)) _

/-- A pool ends before the next pools. -/
theorem poolOff_add_extent_le (pools : ℕ → IpcShmPoolCfg) (n : ℕ) {p p' : ℕ} (h : p < p') :
    poolOff pools n p + (pools p).extent ≤ poolOff pools n p' := by
  rw [← poolOff_succ]
  exact poolOff_mono pools n h

theorem IpcShmCfg.chanOff_succ (cfg : IpcShmCfg) (c : ℕ) :
    cfg.chanOff (c + 1) = cfg.chanOff c + (cfg.chan c).extent := by
  rw [chanOff, sum_range_succ, ← Nat.add_assoc]
  rfl

theorem IpcShmCfg.chanOff_mono (cfg : IpcShmCfg) {c c' : ℕ} (h : c ≤ c') :
    cfg.chanOff c ≤ cfg.chanOff c' :=
  Nat.add_le_add_left (sum_le_sum_of_subset (range_mono h)) _

/-- A channel ends before the next channels. -/
theorem IpcShmCfg.chanOff_add_extent_le (cfg : IpcShmCfg) {c c' : ℕ} (h : c < c') :
    cfg.chanOff c + (cfg.chan c).extent ≤ cfg.chanOff c' := by
  rw [← chanOff_succ]
  exact cfg.chanOff_mono h

/-- The regions of a pool at `off`. -/
def IpcShmPoolCfg.layout (p : IpcShmPoolCfg) (off : ℕ) : List Region :=
  [{ addr := off, size := ringBytes p.numBufs.toNat },
    { addr := off + ringBytes p.numBufs.toNat, size := p.bufBytes }]

/-- The regions of a channel at `off`. -/
def IpcShmChannelCfg.layout (off : ℕ) : IpcShmChannelCfg → List Region
  | .managed m =>
    match m.pools with
    | none => []
    | some pools =>
      { addr := off, size := ringBytes (bufsOf pools m.numPools.toNat) }
        :: (List.range m.numPools.toNat).flatMap (fun p =>
          (pools p).layout (off + poolOff pools m.numPools.toNat p))
  | .unmanaged u =>
    [{ addr := off, size := sizeofIpcChannelUmem },
      { addr := off + sizeofIpcChannelUmem, size := u.size.toNat }]
  | .invalid => []

/-- **The regions of an instance**, in offsets. -/
def IpcShmCfg.layout (cfg : IpcShmCfg) : List Region :=
  { addr := 0, size := sizeofIpcShmGlobal }
    :: (List.range cfg.numChannels.toNat).flatMap (fun c => (cfg.chan c).layout (cfg.chanOff c))

theorem IpcShmPoolCfg.layout_consecutive (p : IpcShmPoolCfg) (off : ℕ) :
    Region.Consecutive off (p.layout off) (off + p.extent) :=
  ⟨rfl, rfl, Nat.add_assoc _ _ _⟩

/-- The first `k` pools follow the ring of the channel. -/
theorem pools_consecutive (pools : ℕ → IpcShmPoolCfg) (off n k : ℕ) :
    Region.Consecutive (off + poolOff pools n 0)
      ((List.range k).flatMap (fun p => (pools p).layout (off + poolOff pools n p)))
      (off + poolOff pools n k) := by
  induction k with
  | zero => exact rfl
  | succ k ih =>
    rw [List.range_succ, List.flatMap_append, List.flatMap_singleton, poolOff_succ,
      ← Nat.add_assoc]
    exact ih.append ((pools k).layout_consecutive _)

/-- **A channel fills its extent.** -/
theorem IpcShmChannelCfg.layout_consecutive (cc : IpcShmChannelCfg) (off : ℕ) :
    Region.Consecutive off (cc.layout off) (off + cc.extent) := by
  cases cc with
  | managed m =>
    rw [layout, extent]
    cases m.pools with
    | none => exact rfl
    | some pools =>
      have hp := pools_consecutive pools off m.numPools.toNat m.numPools.toNat
      rw [poolOff_zero] at hp
      exact ⟨rfl, hp⟩
  | unmanaged u => exact ⟨rfl, rfl, Nat.add_assoc _ _ _⟩
  | invalid => exact rfl

/-- The first `k` channels follow the global header. -/
theorem IpcShmCfg.channels_consecutive (cfg : IpcShmCfg) (k : ℕ) :
    Region.Consecutive sizeofIpcShmGlobal
      ((List.range k).flatMap (fun c => (cfg.chan c).layout (cfg.chanOff c))) (cfg.chanOff k) := by
  induction k with
  | zero => exact rfl
  | succ k ih =>
    rw [List.range_succ, List.flatMap_append, List.flatMap_singleton, cfg.chanOff_succ]
    exact ih.append ((cfg.chan k).layout_consecutive _)

/-- **An instance fills its footprint.** -/
theorem IpcShmCfg.layout_consecutive (cfg : IpcShmCfg) :
    Region.Consecutive 0 cfg.layout cfg.footprint :=
  ⟨rfl, by rw [Nat.zero_add]; exact cfg.channels_consecutive _⟩

/-! ## Control and payload -/

/-- The regions of a channel the driver itself writes: its rings, or the
header of an unmanaged channel. -/
def IpcShmChannelCfg.ctrl (off : ℕ) : IpcShmChannelCfg → List Region
  | .managed m =>
    match m.pools with
    | none => []
    | some pools =>
      { addr := off, size := ringBytes (bufsOf pools m.numPools.toNat) }
        :: (List.range m.numPools.toNat).map (fun p =>
          { addr := off + poolOff pools m.numPools.toNat p
            size := ringBytes (pools p).numBufs.toNat })
  | .unmanaged _ => [{ addr := off, size := sizeofIpcChannelUmem }]
  | .invalid => []

/-- The regions of a channel the application writes: the buffers of its pools,
or the memory of an unmanaged channel. -/
def IpcShmChannelCfg.payload (off : ℕ) : IpcShmChannelCfg → List Region
  | .managed m =>
    match m.pools with
    | none => []
    | some pools => (List.range m.numPools.toNat).map (fun p =>
        { addr := off + poolOff pools m.numPools.toNat p + ringBytes (pools p).numBufs.toNat
          size := (pools p).bufBytes })
  | .unmanaged u => [{ addr := off + sizeofIpcChannelUmem, size := u.size.toNat }]
  | .invalid => []

section Control

variable {cc : IpcShmChannelCfg} {off : ℕ} {r r' : Region}

theorem IpcShmChannelCfg.mem_layout_of_ctrl (hr : r ∈ cc.ctrl off) : r ∈ cc.layout off := by
  cases cc with
  | managed m =>
    rw [ctrl] at hr
    rw [layout]
    cases hpools : m.pools with
    | none => rw [hpools] at hr; exact hr
    | some pools =>
      rw [hpools] at hr
      rcases List.mem_cons.mp hr with rfl | hr
      · exact List.mem_cons_self
      · obtain ⟨p, hp, rfl⟩ := List.mem_map.mp hr
        exact List.mem_cons_of_mem _ (List.mem_flatMap.mpr ⟨p, hp, List.mem_cons_self⟩)
  | unmanaged u =>
    obtain rfl := List.mem_singleton.mp hr
    exact List.mem_cons_self
  | invalid => exact hr

theorem IpcShmChannelCfg.mem_layout_of_payload (hr : r ∈ cc.payload off) : r ∈ cc.layout off := by
  cases cc with
  | managed m =>
    rw [payload] at hr
    rw [layout]
    cases hpools : m.pools with
    | none => rw [hpools] at hr; exact hr
    | some pools =>
      rw [hpools] at hr
      obtain ⟨p, hp, rfl⟩ := List.mem_map.mp hr
      exact List.mem_cons_of_mem _ (List.mem_flatMap.mpr
        ⟨p, hp, List.mem_cons_of_mem _ List.mem_cons_self⟩)
  | unmanaged u =>
    obtain rfl := List.mem_singleton.mp hr
    exact List.mem_cons_of_mem _ List.mem_cons_self
  | invalid => exact hr

/-- In one channel, the rings are apart from the buffers. -/
theorem IpcShmChannelCfg.ctrl_apart_payload (hr : r ∈ cc.ctrl off) (hr' : r' ∈ cc.payload off) :
    r.addr + r.size ≤ r'.addr ∨ r'.addr + r'.size ≤ r.addr := by
  cases cc with
  | managed m =>
    rw [ctrl] at hr
    rw [payload] at hr'
    cases hpools : m.pools with
    | none => rw [hpools] at hr; exact absurd hr (by simp)
    | some pools =>
      rw [hpools] at hr hr'
      obtain ⟨p', -, rfl⟩ := List.mem_map.mp hr'
      rcases List.mem_cons.mp hr with rfl | hr
      · have := poolOff_mono pools m.numPools.toNat (Nat.zero_le p')
        rw [poolOff_zero] at this
        exact Or.inl (by dsimp only; omega)
      · obtain ⟨p, -, rfl⟩ := List.mem_map.mp hr
        dsimp only
        rcases Nat.lt_trichotomy p p' with hlt | rfl | hlt
        · have := poolOff_add_extent_le pools m.numPools.toNat hlt
          unfold IpcShmPoolCfg.extent at this
          omega
        · omega
        · have := poolOff_add_extent_le pools m.numPools.toNat hlt
          unfold IpcShmPoolCfg.extent at this
          omega
  | unmanaged u =>
    obtain rfl := List.mem_singleton.mp hr
    obtain rfl := List.mem_singleton.mp hr'
    exact Or.inl (Nat.le_refl _)
  | invalid => exact absurd hr (by simp [ctrl])

variable {cfg : IpcShmCfg} {c c' : ℕ}

/-- The regions of a channel lie after the header and inside the footprint. -/
theorem IpcShmCfg.layout_bounds (hc : c < cfg.numChannels.toNat)
    (hr : r ∈ (cfg.chan c).layout (cfg.chanOff c)) :
    cfg.chanOff c ≤ r.addr ∧ r.addr + r.size ≤ cfg.chanOff (c + 1) ∧
      sizeofIpcShmGlobal ≤ r.addr ∧ r.addr + r.size ≤ cfg.footprint := by
  have hb := ((cfg.chan c).layout_consecutive (cfg.chanOff c)).bounds hr
  rw [← cfg.chanOff_succ] at hb
  have h0 : sizeofIpcShmGlobal ≤ cfg.chanOff c := Nat.le_add_right _ _
  have hend : cfg.chanOff (c + 1) ≤ cfg.footprint := cfg.chanOff_mono hc
  exact ⟨hb.1, hb.2, Nat.le_trans h0 hb.1, Nat.le_trans hb.2 hend⟩

/-- The regions of different channels do not meet. -/
theorem IpcShmCfg.layout_apart (hc : c < cfg.numChannels.toNat) (hc' : c' < cfg.numChannels.toNat)
    (hne : c' ≠ c) (hr : r ∈ (cfg.chan c).layout (cfg.chanOff c))
    (hr' : r' ∈ (cfg.chan c').layout (cfg.chanOff c')) :
    r.addr + r.size ≤ r'.addr ∨ r'.addr + r'.size ≤ r.addr := by
  obtain ⟨h₁, h₂, -⟩ := cfg.layout_bounds hc hr
  obtain ⟨h₁', h₂', -⟩ := cfg.layout_bounds hc' hr'
  rcases Nat.lt_or_gt_of_ne hne with hlt | hlt
  · have := cfg.chanOff_mono (show c' + 1 ≤ c from hlt)
    omega
  · have := cfg.chanOff_mono (show c + 1 ≤ c' from hlt)
    omega

end Control

/-! ## Private data in its place -/

/-- The queue at an offset of the windows. -/
def laidQueue (os : IpcOs) (off n : ℕ) : IpcQueue where
  elemSize := sizeofIpcShmBd
  elemNum := n + 1
  pushRing := os.localShm + off
  popRing := os.remoteShm + off

theorem laidQueue_at (μ : ShmMap) {off n : ℕ} (hn : n ≤ ipcShmMaxBufsPerChannel)
    (hfit : off + ringBytes n ≤ μ.size) : (laidQueue μ.os off n).At μ off where
  pushRing_eq := rfl
  popRing_eq := rfl
  elemNum_lt := by
    show n + 1 < 2 ^ 16
    unfold ipcShmMaxBufsPerChannel at hn
    omega
  elemSize_pos := by
    show 0 < sizeofIpcShmBd
    decide
  elemSize_lt := by
    show sizeofIpcShmBd < 2 ^ 8
    decide
  fits := by
    show off + 16 + (n + 1) * sizeofIpcShmBd ≤ μ.size
    unfold ringBytes at hfit
    unfold sizeofIpcShmBd
    omega

/-- **A pool in its place**, its ring at `off`. -/
structure IpcShmPool.Laid (pool : IpcShmPool) (os : IpcOs) (off : ℕ) (p : IpcShmPoolCfg) :
    Prop where
  numBufs_eq : pool.numBufs = p.numBufs.toNat
  bufSize_eq : pool.bufSize = p.bufSize.toNat
  shmSize_eq : pool.shmSize = p.extent
  bdQueue_eq : pool.bdQueue = laidQueue os off p.numBufs.toNat
  localPoolAddr_eq : pool.localPoolAddr = os.localShm + off + ringBytes p.numBufs.toNat
  remotePoolAddr_eq : pool.remotePoolAddr = os.remoteShm + off + ringBytes p.numBufs.toNat
  numBufs_pos : 0 < p.numBufs.toNat
  numBufs_le : p.numBufs.toNat ≤ ipcShmMaxBufsPerPool

/-- **A managed channel in its place**, its ring at `off`. -/
structure IpcManagedChannel.Laid (mchan : IpcManagedChannel) (os : IpcOs) (off : ℕ)
    (m : IpcShmManagedCfg) (pools : ℕ → IpcShmPoolCfg) : Prop where
  pools_eq : m.pools = some pools
  numPools_eq : mchan.numPools = m.numPools.toNat
  numPools_le : m.numPools.toNat ≤ ipcShmMaxPools
  rxCb_eq : mchan.rxCb = m.rxCb
  cbArg_eq : mchan.cbArg = m.cbArg
  total_pos : 0 < bufsOf pools m.numPools.toNat
  total_le : bufsOf pools m.numPools.toNat ≤ ipcShmMaxBufsPerChannel
  bdQueue_eq : mchan.bdQueue = laidQueue os off (bufsOf pools m.numPools.toNat)
  pool : ∀ p, p < m.numPools.toNat →
    (mchan.pools p).Laid os (off + poolOff pools m.numPools.toNat p) (pools p)

/-- **An unmanaged channel in its place.** -/
structure IpcShmChannel.UnmanagedLaid (chan : IpcShmChannel) (os : IpcOs) (off : ℕ)
    (u : IpcShmUnmanagedCfg) : Prop where
  localMem_eq : chan.localMem = os.localShm + off
  remoteMem_eq : chan.remoteMem = os.remoteShm + off
  size_eq : chan.umng.size = u.size.toNat
  rxCb_eq : chan.umng.rxCb = u.rxCb
  cbArg_eq : chan.umng.cbArg = u.cbArg
  size_le : u.size.toNat ≤ ipcShmMaxUmngSize

/-- **A channel in its place**, at `off`. -/
def IpcShmChannel.Laid (chan : IpcShmChannel) (os : IpcOs) (off : ℕ) :
    IpcShmChannelCfg → Prop
  | .managed m => chan.type = .managed ∧ ∃ pools, chan.mng.Laid os off m pools
  | .unmanaged u => chan.type = .unmanaged ∧ chan.UnmanagedLaid os off u
  | .invalid => False

/-- **The private data of an initialized instance.** -/
structure IpcShmPriv.Laid (priv : IpcShmPriv) (os : IpcOs) (cfg : IpcShmCfg) : Prop where
  shmSize_eq : priv.shmSize = cfg.shmSize.toNat
  numChannels_eq : priv.numChannels = cfg.numChannels.toNat
  global_eq : priv.global = os.localShm
  id_eq : ∀ c, c < cfg.numChannels.toNat → (priv.channels c).id = c
  chan : ∀ c, c < cfg.numChannels.toNat →
    (priv.channels c).Laid os (cfg.chanOff c) (cfg.chan c)

/-! ## The regions of an instance

Read off the private data, with the sizes the driver works with. -/

/-- The ring of a queue, in the local or in the remote window. -/
def IpcQueue.region (q : IpcQueue) (remote : Bool) : Region :=
  { addr := if remote then q.popRing else q.pushRing
    size := sizeofIpcRing + q.elemNum * q.elemSize }

/-- The ring and the buffers of a pool. -/
def IpcShmPool.regions (pool : IpcShmPool) (remote : Bool) : List Region :=
  [pool.bdQueue.region remote, { addr := pool.addr remote, size := pool.numBufs * pool.bufSize }]

/-- The regions of a channel. -/
def IpcShmChannel.regions (chan : IpcShmChannel) (remote : Bool) : List Region :=
  if chan.type = .unmanaged then
    let mem := if remote then chan.remoteMem else chan.localMem
    [{ addr := mem, size := sizeofIpcChannelUmem },
      { addr := mem + sizeofIpcChannelUmem, size := chan.umng.size }]
  else
    chan.mng.bdQueue.region remote
      :: (List.range chan.mng.numPools).flatMap (fun p => (chan.mng.pools p).regions remote)

/-- **The regions of an instance**: the global header, then those of each
channel. -/
def IpcShmPriv.regions (priv : IpcShmPriv) (os : IpcOs) (remote : Bool) : List Region :=
  { addr := if remote then os.remoteShm else priv.global, size := sizeofIpcShmGlobal }
    :: (List.range priv.numChannels).flatMap (fun c => (priv.channels c).regions remote)

/-- The base of a window. -/
def IpcOs.base (os : IpcOs) (remote : Bool) : ℕ := if remote then os.remoteShm else os.localShm

section Regions

variable {os : IpcOs} {off n : ℕ}

theorem laidQueue_region (remote : Bool) :
    (laidQueue os off n).region remote
      = { addr := os.base remote + off, size := ringBytes n } := by
  cases remote <;> rfl

theorem IpcShmPool.Laid.addr_eq {pool : IpcShmPool} {p : IpcShmPoolCfg}
    (h : pool.Laid os off p) (remote : Bool) :
    pool.addr remote = os.base remote + off + ringBytes p.numBufs.toNat := by
  cases remote
  · exact h.localPoolAddr_eq
  · exact h.remotePoolAddr_eq

/-- The regions of a pool in its place. -/
theorem IpcShmPool.Laid.regions_eq {pool : IpcShmPool} {p : IpcShmPoolCfg}
    (h : pool.Laid os off p) (remote : Bool) :
    pool.regions remote = (p.layout off).map (Region.shift (os.base remote)) := by
  rw [regions, h.bdQueue_eq, laidQueue_region, h.addr_eq, h.numBufs_eq, h.bufSize_eq,
    Nat.add_assoc]
  rfl

/-- The regions of a channel in its place. -/
theorem IpcShmChannel.Laid.regions_eq {chan : IpcShmChannel} {cc : IpcShmChannelCfg}
    (h : chan.Laid os off cc) (remote : Bool) :
    chan.regions remote = (cc.layout off).map (Region.shift (os.base remote)) := by
  cases cc with
  | managed m =>
    obtain ⟨htype, pools, hl⟩ := h
    rw [regions, htype, if_neg (by decide), hl.bdQueue_eq, laidQueue_region, hl.numPools_eq,
      IpcShmChannelCfg.layout, hl.pools_eq, List.map_cons, List.map_flatMap]
    refine congrArg (_ :: ·) (List.flatMap_congr (fun p hp => ?_))
    exact (hl.pool p (List.mem_range.mp hp)).regions_eq remote
  | unmanaged u =>
    obtain ⟨htype, hl⟩ := h
    rw [regions, htype, if_pos rfl, hl.localMem_eq, hl.remoteMem_eq, hl.size_eq]
    cases remote <;> simp [IpcShmChannelCfg.layout, Region.shift, IpcOs.base, Nat.add_assoc]
  | invalid => exact False.elim h

/-- **The regions of an instance in its place**, in either window: the layout
of its configuration from the base of the window. -/
theorem IpcShmPriv.Laid.regions_eq {priv : IpcShmPriv} {cfg : IpcShmCfg}
    (h : priv.Laid os cfg) (remote : Bool) :
    priv.regions os remote = cfg.layout.map (Region.shift (os.base remote)) := by
  rw [regions, h.global_eq, h.numChannels_eq, IpcShmCfg.layout, List.map_cons,
    List.map_flatMap]
  refine congrArg (_ :: ·) (List.flatMap_congr (fun c hc => ?_))
  exact (h.chan c (List.mem_range.mp hc)).regions_eq remote

end Regions
