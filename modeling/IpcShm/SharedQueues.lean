import IpcShm.Ring
import IpcShm.InstanceLayout
import IpcShm.Traffic

/-!
# Shared memory as a family of queues

The rings of an instance lie apart from one another, so the two windows can be
read as a family of queues: for each queue of the configuration and each peer
the elements that peer has pushed and the other has not popped yet. A push and
a pop change one member of the family (`QueuesHold.push`, `QueuesHold.pop`),
and a store anywhere else changes none.

A pool ring also remembers elements that were popped: its slots are one more
than its elements, so the last elements pushed are all still there
(`RingHistory`). Nothing reads them until the other peer initializes again.
-/

/-! ## Offsets and capacities -/

/-- The number of pools. -/
def IpcShmChannelCfg.numPools : IpcShmChannelCfg → ℕ
  | .managed m => m.numPools.toNat
  | _ => 0

/-- The parameters of a pool. -/
def IpcShmChannelCfg.poolCfg : IpcShmChannelCfg → ℕ → IpcShmPoolCfg
  | .managed m =>
    match m.pools with
    | none => fun _ => ⟨0, 0⟩
    | some pools => pools
  | _ => fun _ => ⟨0, 0⟩

/-- The channel a queue belongs to. -/
def QueueId.chanId : QueueId → ℕ
  | .chan c => c
  | .pool c _ => c

namespace IpcShmCfg

variable (cfg : IpcShmCfg)

/-- The parameters of a pool. -/
def pool (c p : ℕ) : IpcShmPoolCfg := (cfg.chan c).poolCfg p

/-- The offset of a pool. -/
def poolAt (c p : ℕ) : ℕ := cfg.chanOff c + poolOff (cfg.pool c) (cfg.chan c).numPools p

/-- **The offset of a queue.** -/
def queueOff : QueueId → ℕ
  | .chan c => cfg.chanOff c
  | .pool c p => cfg.poolAt c p

/-- **The capacity of a queue**: all buffers of the channel, or of the pool. -/
def queueCap : QueueId → ℕ
  | .chan c => bufsOf (cfg.pool c) (cfg.chan c).numPools
  | .pool c p => (cfg.pool c p).numBufs.toNat

/-- The offset of the buffers of a pool. -/
def bufStart (c p : ℕ) : ℕ := cfg.poolAt c p + ringBytes (cfg.pool c p).numBufs.toNat

/-- **The offset of a buffer.** -/
def bufOff (c : ℕ) (x : BufId) : ℕ := cfg.bufStart c x.1 + x.2 * (cfg.pool c x.1).bufSize.toNat

/-- The array of pools of every managed channel is given. -/
def PoolsGiven : Prop :=
  ∀ c, c < cfg.numChannels.toNat → ∀ m, cfg.chan c = .managed m → ∃ pools, m.pools = some pools

/-- The ring of a queue. -/
def queueRegion (id : QueueId) : Region :=
  { addr := cfg.queueOff id, size := ringBytes (cfg.queueCap id) }

variable {cfg}

theorem HasQueue.chan {id : QueueId} (h : cfg.HasQueue id) : cfg.HasQueue (.chan id.chanId) := by
  cases id with
  | chan c => exact h
  | pool c p =>
    obtain ⟨hc, m, hm, -⟩ := h
    exact ⟨hc, m, hm⟩

theorem HasQueue.pool_lt {c p : ℕ} (h : cfg.HasQueue (.pool c p)) : p < (cfg.chan c).numPools := by
  obtain ⟨-, m, hm, hp⟩ := h
  rw [hm]
  exact hp

theorem HasQueue.pool {c p : ℕ} (h : cfg.HasQueue (.chan c)) (hp : p < (cfg.chan c).numPools) :
    cfg.HasQueue (.pool c p) := by
  obtain ⟨hc, m, hm⟩ := h
  rw [hm] at hp
  exact ⟨hc, m, hm, hp⟩

/-- The ring of a queue is one of the control regions of its channel. -/
theorem queueRegion_mem_ctrl (hg : cfg.PoolsGiven) {id : QueueId} (hid : cfg.HasQueue id) :
    cfg.queueRegion id ∈ (cfg.chan id.chanId).ctrl (cfg.chanOff id.chanId) := by
  obtain ⟨hc, m, hm⟩ := hid.chan
  obtain ⟨pools, hpools⟩ := hg _ hc m hm
  rw [hm, IpcShmChannelCfg.ctrl, hpools]
  cases id with
  | chan c =>
    have hm : cfg.chan c = .managed m := hm
    refine List.mem_cons.mpr (Or.inl ?_)
    rw [queueRegion, queueOff, queueCap]
    unfold IpcShmCfg.pool IpcShmChannelCfg.poolCfg IpcShmChannelCfg.numPools
    rw [hm]
    dsimp only
    rw [hpools]
    rfl
  | pool c p =>
    have hm : cfg.chan c = .managed m := hm
    have hp := hid.pool_lt
    rw [hm] at hp
    refine List.mem_cons_of_mem _ (List.mem_map.mpr ⟨p, List.mem_range.mpr hp, ?_⟩)
    rw [queueRegion, queueOff, queueCap, poolAt]
    unfold IpcShmCfg.pool IpcShmChannelCfg.poolCfg IpcShmChannelCfg.numPools
    rw [hm]
    dsimp only
    rw [hpools]
    rfl

theorem queueRegion_mem_layout (hg : cfg.PoolsGiven) {id : QueueId} (hid : cfg.HasQueue id) :
    cfg.queueRegion id ∈ (cfg.chan id.chanId).layout (cfg.chanOff id.chanId) :=
  IpcShmChannelCfg.mem_layout_of_ctrl (queueRegion_mem_ctrl hg hid)

/-- A queue lies after the header and inside the footprint. -/
theorem queue_bounds (hg : cfg.PoolsGiven) {id : QueueId} (hid : cfg.HasQueue id) :
    8 ≤ cfg.queueOff id ∧ cfg.queueOff id + ringBytes (cfg.queueCap id) ≤ cfg.footprint := by
  obtain ⟨hc, -⟩ := hid.chan
  obtain ⟨-, -, hlow, hhigh⟩ := cfg.layout_bounds hc (queueRegion_mem_layout hg hid)
  exact ⟨hlow, hhigh⟩

/-- **Different queues lie apart.** -/
theorem queue_apart (hg : cfg.PoolsGiven) {id id' : QueueId} (hid : cfg.HasQueue id)
    (hid' : cfg.HasQueue id') (hne : id ≠ id') :
    cfg.queueOff id + ringBytes (cfg.queueCap id) ≤ cfg.queueOff id' ∨
      cfg.queueOff id' + ringBytes (cfg.queueCap id') ≤ cfg.queueOff id := by
  by_cases hc : id'.chanId = id.chanId
  · have hext : ∀ c p, ringBytes (cfg.pool c p).numBufs.toNat ≤ (cfg.pool c p).extent :=
      fun c p => Nat.le_add_right _ _
    cases id with
    | chan c =>
      cases id' with
      | chan c' => exact absurd (congrArg QueueId.chan hc.symm) hne
      | pool c' p' =>
        obtain rfl : c' = c := hc
        have h0 := poolOff_mono (cfg.pool c') (cfg.chan c').numPools (Nat.zero_le p')
        rw [poolOff_zero] at h0
        exact Or.inl (Nat.add_le_add_left h0 _)
    | pool c p =>
      cases id' with
      | chan c' =>
        obtain rfl : c' = c := hc
        have h0 := poolOff_mono (cfg.pool c') (cfg.chan c').numPools (Nat.zero_le p)
        rw [poolOff_zero] at h0
        exact Or.inr (Nat.add_le_add_left h0 _)
      | pool c' p' =>
        obtain rfl : c' = c := hc
        have hpp : p ≠ p' := fun h => hne (by rw [h])
        have he := hext c' p
        have he' := hext c' p'
        simp only [queueOff, queueCap, poolAt]
        rcases Nat.lt_or_gt_of_ne hpp with hlt | hlt
        · have := poolOff_add_extent_le (cfg.pool c') (cfg.chan c').numPools hlt
          omega
        · have := poolOff_add_extent_le (cfg.pool c') (cfg.chan c').numPools hlt
          omega
  · exact cfg.layout_apart hid.chan.1 hid'.chan.1 hc (queueRegion_mem_layout hg hid)
      (queueRegion_mem_layout hg hid')

/-! ## Buffers -/

/-- The buffers of a pool are one of the payload regions of its channel. -/
theorem bufs_mem_payload (hg : cfg.PoolsGiven) {c p : ℕ} (hid : cfg.HasQueue (.pool c p)) :
    { addr := cfg.bufStart c p, size := (cfg.pool c p).bufBytes : Region }
      ∈ (cfg.chan c).payload (cfg.chanOff c) := by
  obtain ⟨hc, m, hm, hp⟩ := hid
  obtain ⟨pools, hpools⟩ := hg _ hc m hm
  rw [hm, IpcShmChannelCfg.payload, hpools]
  refine List.mem_map.mpr ⟨p, List.mem_range.mpr hp, ?_⟩
  unfold bufStart poolAt IpcShmCfg.pool IpcShmChannelCfg.poolCfg IpcShmChannelCfg.numPools
  rw [hm]
  dsimp only
  rw [hpools]

theorem bufs_mem_layout (hg : cfg.PoolsGiven) {c p : ℕ} (hid : cfg.HasQueue (.pool c p)) :
    { addr := cfg.bufStart c p, size := (cfg.pool c p).bufBytes : Region }
      ∈ (cfg.chan c).layout (cfg.chanOff c) :=
  IpcShmChannelCfg.mem_layout_of_payload (bufs_mem_payload hg hid)

/-- The buffers of a pool end where the pool ends. -/
theorem bufStart_add (cfg : IpcShmCfg) (c p : ℕ) :
    cfg.bufStart c p + (cfg.pool c p).bufBytes = cfg.poolAt c p + (cfg.pool c p).extent :=
  Nat.add_assoc _ _ _

/-- A buffer lies in the buffers of its pool. -/
theorem bufOff_add_le {c : ℕ} {x : BufId} (hx : x.2 < (cfg.pool c x.1).numBufs.toNat) :
    cfg.bufOff c x + (cfg.pool c x.1).bufSize.toNat
      ≤ cfg.bufStart c x.1 + (cfg.pool c x.1).bufBytes := by
  have hmul := Nat.mul_le_mul_right (cfg.pool c x.1).bufSize.toNat (show x.2 + 1 ≤ _ from hx)
  rw [Nat.add_mul, Nat.one_mul] at hmul
  unfold bufOff IpcShmPoolCfg.bufBytes
  omega

/-- A buffer lies inside the footprint. -/
theorem bufOff_fits (hg : cfg.PoolsGiven) {c : ℕ} {x : BufId} (hid : cfg.HasQueue (.pool c x.1))
    (hx : x.2 < (cfg.pool c x.1).numBufs.toNat) :
    cfg.bufOff c x + (cfg.pool c x.1).bufSize.toNat ≤ cfg.footprint := by
  obtain ⟨-, -, -, hhigh⟩ := cfg.layout_bounds hid.chan.1 (bufs_mem_layout hg hid)
  exact Nat.le_trans (bufOff_add_le hx) hhigh

/-- **The buffers of different pools lie apart.** -/
theorem bufs_apart (hg : cfg.PoolsGiven) {c c' p p' : ℕ} (hid : cfg.HasQueue (.pool c p))
    (hid' : cfg.HasQueue (.pool c' p')) (hne : (c, p) ≠ (c', p')) :
    cfg.bufStart c p + (cfg.pool c p).bufBytes < cfg.bufStart c' p' ∨
      cfg.bufStart c' p' + (cfg.pool c' p').bufBytes < cfg.bufStart c p := by
  have hring : ∀ n, 0 < ringBytes n := fun n =>
    Nat.lt_of_lt_of_le (show 0 < 16 by decide) (Nat.le_add_right 16 _)
  have h₁ := hring (cfg.pool c p).numBufs.toNat
  have h₂ := hring (cfg.pool c' p').numBufs.toNat
  by_cases hc : c' = c
  · subst hc
    have hpp : p ≠ p' := fun h => hne (by rw [h])
    rw [bufStart_add, bufStart_add]
    simp only [bufStart, poolAt]
    rcases Nat.lt_or_gt_of_ne hpp with hlt | hlt
    · have := poolOff_add_extent_le (cfg.pool c') (cfg.chan c').numPools hlt
      omega
    · have := poolOff_add_extent_le (cfg.pool c') (cfg.chan c').numPools hlt
      omega
  · -- the rings of the pools tell on which side of each other the channels are
    obtain ⟨-, hb, -⟩ := cfg.layout_bounds hid.chan.1 (bufs_mem_layout hg hid)
    obtain ⟨-, hb', -⟩ := cfg.layout_bounds hid'.chan.1 (bufs_mem_layout hg hid')
    obtain ⟨hq, -⟩ := cfg.layout_bounds hid.chan.1 (queueRegion_mem_layout hg hid)
    obtain ⟨hq', -⟩ := cfg.layout_bounds hid'.chan.1 (queueRegion_mem_layout hg hid')
    have hq : cfg.chanOff c ≤ cfg.poolAt c p := hq
    have hq' : cfg.chanOff c' ≤ cfg.poolAt c' p' := hq'
    have hb : cfg.bufStart c p + (cfg.pool c p).bufBytes ≤ cfg.chanOff (c + 1) := hb
    have hb' : cfg.bufStart c' p' + (cfg.pool c' p').bufBytes ≤ cfg.chanOff (c' + 1) := hb'
    have hs : cfg.bufStart c p = cfg.poolAt c p + ringBytes (cfg.pool c p).numBufs.toNat := rfl
    have hs' : cfg.bufStart c' p' = cfg.poolAt c' p' + ringBytes (cfg.pool c' p').numBufs.toNat :=
      rfl
    rcases Nat.lt_or_gt_of_ne hc with hlt | hlt
    · have := cfg.chanOff_mono (show c' + 1 ≤ c from hlt)
      omega
    · have := cfg.chanOff_mono (show c + 1 ≤ c' from hlt)
      omega

/-- The pool of a buffer is known by its offset. -/
theorem bufOff_pool (hg : cfg.PoolsGiven) {c c' p : ℕ} {x : BufId}
    (hid : cfg.HasQueue (.pool c x.1)) (hid' : cfg.HasQueue (.pool c' p))
    (hx : x.2 < (cfg.pool c x.1).numBufs.toNat) (hle : cfg.bufStart c' p ≤ cfg.bufOff c x)
    (hlt : cfg.bufOff c x ≤ cfg.bufStart c' p + (cfg.pool c' p).bufBytes) :
    (c, x.1) = (c', p) := by
  have hin := bufOff_add_le hx
  have hstart : cfg.bufStart c x.1 ≤ cfg.bufOff c x := Nat.le_add_right _ _
  by_contra hne
  rcases bufs_apart hg hid hid' hne with h | h <;> omega

/-- **A buffer is known by its offset**, unless buffers have no size. -/
theorem bufOff_inj (hg : cfg.PoolsGiven) {c c' : ℕ} {x x' : BufId}
    (hid : cfg.HasQueue (.pool c x.1)) (hid' : cfg.HasQueue (.pool c' x'.1))
    (hx : x.2 < (cfg.pool c x.1).numBufs.toNat) (hx' : x'.2 < (cfg.pool c' x'.1).numBufs.toNat)
    (hpos : 0 < (cfg.pool c' x'.1).bufSize.toNat) (h : cfg.bufOff c x = cfg.bufOff c' x') :
    c = c' ∧ x = x' := by
  have hin' := bufOff_add_le hx'
  have hstart : cfg.bufStart c' x'.1 ≤ cfg.bufOff c' x' := Nat.le_add_right _ _
  obtain ⟨rfl, hp⟩ := Prod.mk.inj (bufOff_pool hg hid hid' hx (by omega) (by omega))
  refine ⟨rfl, Prod.ext hp ?_⟩
  unfold bufOff at h
  rw [hp] at h
  exact Nat.eq_of_mul_eq_mul_right hpos (Nat.add_left_cancel h)

end IpcShmCfg

/-- Only a configuration that gives its pools is accepted. -/
theorem IpcShmPriv.Laid.poolsGiven {priv : IpcShmPriv} {os : IpcOs} {cfg : IpcShmCfg}
    (h : priv.Laid os cfg) : cfg.PoolsGiven := fun c hc m hm => by
  have hl := h.chan c hc
  rw [hm] at hl
  obtain ⟨-, pools, hl⟩ := hl
  exact ⟨pools, hl.pools_eq⟩

/-! ## Rings and the rest of memory -/

/-- Two memories agree on `n` bytes from `off` on. -/
def ByteMem.SameOn (m m' : ByteMem) (off n : ℕ) : Prop := ∀ a, off ≤ a → a < off + n → m' a = m a

namespace ByteMem

variable {m m' : ByteMem} {off N j : ℕ}

theorem SameOn.refl (m : ByteMem) (off n : ℕ) : m.SameOn m off n := fun _ _ _ => rfl

theorem SameOn.sentinel (h : m.SameOn m' off (ringBytes N)) : m'.sentinel off = m.sentinel off :=
  load_congr (fun i hi => h _ (Nat.le_add_right _ _) (by unfold ringBytes; omega))

theorem SameOn.writeIdx (h : m.SameOn m' off (ringBytes N)) : m'.writeIdx off = m.writeIdx off :=
  load_congr (fun i hi => h _ (by omega) (by unfold ringBytes; omega))

theorem SameOn.readIdx (h : m.SameOn m' off (ringBytes N)) : m'.readIdx off = m.readIdx off :=
  load_congr (fun i hi => h _ (by omega) (by unfold ringBytes; omega))

theorem SameOn.slot (h : m.SameOn m' off (ringBytes N)) (hj : j < N + 1) :
    m'.slot off 8 j = m.slot off 8 j :=
  read_congr (fun i hi => h _ (by omega) (by unfold ringBytes; omega))

/-- A push into one ring is not seen in another. -/
theorem sameOn_pushBack {off' N' : ℕ} {x : List UInt8} (hw : m.writeIdx off < N + 1)
    (hx : x.length = 8)
    (hap : off + ringBytes N ≤ off' ∨ off' + ringBytes N' ≤ off) :
    m.SameOn (m.pushBack off (N + 1) 8 x) off' (ringBytes N') := by
  intro a hlo hhi
  unfold ringBytes at hap hhi
  exact pushBack_of_not_mem hw hx (by omega)

/-- A pop from one ring is not seen in another. -/
theorem sameOn_popFront {off' N' M : ℕ}
    (hap : off + ringBytes N ≤ off' ∨ off' + ringBytes N' ≤ off) :
    m.SameOn (m.popFront off M) off' (ringBytes N') := by
  intro a hlo hhi
  unfold ringBytes at hap hhi
  exact popFront_of_not_mem (by omega)

end ByteMem

theorem RingHolds.frame {off N : ℕ} {out back out' back' : ByteMem} {xs : List (List UInt8)}
    (h : RingHolds off N 8 out back xs) (ho : out.SameOn out' off (ringBytes N))
    (hb : back.SameOn back' off (ringBytes N)) : RingHolds off N 8 out' back' xs :=
  h.congr ho.writeIdx (fun _ hj => ho.slot hj) hb.readIdx

/-- **The last elements pushed into a ring**, popped or not: they are in the
slots behind the write index. -/
structure RingHistory (off N : ℕ) (m : ByteMem) (xs : List (List UInt8)) : Prop where
  write_lt : m.writeIdx off < N + 1
  length_ge : N ≤ xs.length
  slots : ∀ j, j < N →
    xs[xs.length - N + j]? = some (m.slot off 8 ((m.writeIdx off + 1 + j) % (N + 1)))

namespace RingHistory

variable {off N : ℕ} {m m' : ByteMem} {xs : List (List UInt8)} {x : List UInt8}

theorem frame (h : RingHistory off N m xs) (hs : m.SameOn m' off (ringBytes N)) :
    RingHistory off N m' xs where
  write_lt := by rw [hs.writeIdx]; exact h.write_lt
  length_ge := h.length_ge
  slots := fun j hj => by
    rw [hs.writeIdx, hs.slot (Nat.mod_lt _ (Nat.succ_pos N))]
    exact h.slots j hj

theorem popFront (h : RingHistory off N m xs) (M : ℕ) :
    RingHistory off N (m.popFront off M) xs where
  write_lt := by rw [ByteMem.writeIdx_popFront]; exact h.write_lt
  length_ge := h.length_ge
  slots := fun j hj => by
    rw [ByteMem.writeIdx_popFront, ByteMem.popFront, ByteMem.slot_store_read]
    exact h.slots j hj

theorem pushBack (h : RingHistory off N m xs) (hN : N < 2 ^ 16) (hx : x.length = 8) :
    RingHistory off N (m.pushBack off (N + 1) 8 x) (xs ++ [x]) := by
  have hwrite : (m.pushBack off (N + 1) 8 x).writeIdx off = (m.writeIdx off + 1) % (N + 1) :=
    ByteMem.writeIdx_pushBack (Nat.succ_pos N) (by omega)
  have hw := h.write_lt
  have hlen := h.length_ge
  refine ⟨?_, by rw [List.length_append, List.length_singleton]; omega, fun j hj => ?_⟩
  · rw [hwrite]
    exact Nat.mod_lt _ (Nat.succ_pos N)
  · have hidx : ((m.writeIdx off + 1) % (N + 1) + 1 + j) % (N + 1)
        = (m.writeIdx off + 1 + (j + 1)) % (N + 1) := by
      rw [Nat.add_assoc, Nat.mod_add_mod]
      congr 1
      omega
    rw [hwrite, hidx, ByteMem.pushBack, ByteMem.slot_store_write, List.length_append,
      List.length_singleton]
    rcases Nat.lt_or_ge (j + 1) N with hlt | hge
    · have hne : m.writeIdx off ≠ (m.writeIdx off + 1 + (j + 1)) % (N + 1) := by
        have hcyc := Cyclic.ne (M := N + 1) (a := m.writeIdx off) (show 0 < 1 + (j + 1) by omega)
          (by omega)
        rw [Nat.add_zero, Nat.mod_eq_of_lt hw, ← Nat.add_assoc] at hcyc
        exact hcyc
      have hslot : (m.write (off + 16 + m.writeIdx off * 8 + 0) x).slot off 8
          ((m.writeIdx off + 1 + (j + 1)) % (N + 1)) = m.slot off 8 _ :=
        ByteMem.slot_write_of_ne hne (by omega)
      rw [Nat.add_zero] at hslot
      rw [hslot, ← h.slots (j + 1) hlt, List.getElem?_append_left (by omega)]
      congr 1
      omega
    · obtain rfl : N = j + 1 := by omega
      have hback : (m.writeIdx off + 1 + (j + 1)) % (j + 1 + 1) = m.writeIdx off := by
        rw [Nat.add_assoc, Nat.add_comm 1 (j + 1), Nat.add_mod_right, Nat.mod_eq_of_lt hw]
      rw [hback, ByteMem.slot_write_self hx,
        List.getElem?_append_right (by omega),
        show xs.length + 1 - (j + 1) + j - xs.length = 0 by omega]
      rfl

/-- A full ring holds the last elements pushed. -/
theorem of_full {out back : ByteMem} (h : RingHolds off N 8 out back xs) (hlen : xs.length = N) :
    RingHistory off N out xs where
  write_lt := h.write_lt
  length_ge := Nat.le_of_eq hlen.symm
  slots := fun j hj => by
    have hr := h.read_lt
    have hidx : (out.writeIdx off + 1 + j) % (N + 1) = (back.readIdx off + j) % (N + 1) := by
      rw [h.write_eq, hlen, Nat.add_assoc, Nat.mod_add_mod,
        show back.readIdx off + N + (1 + j) = back.readIdx off + j + (N + 1) by omega,
        Nat.add_mod_right]
    rw [hidx, h.slots j (by omega), show xs.length - N + j = j by omega,
      List.getElem?_eq_getElem]

/-- **A reader one behind the write index sees the last elements pushed**, all
of them. -/
theorem reread (h : RingHistory off N m xs) {back : ByteMem}
    (hr : back.readIdx off = (m.writeIdx off + 1) % (N + 1)) :
    RingHolds off N 8 m back (xs.drop (xs.length - N)) := by
  have hw := h.write_lt
  have hlen := h.length_ge
  have hdrop : (xs.drop (xs.length - N)).length = N := by
    rw [List.length_drop]
    omega
  refine ⟨?_, Nat.le_of_eq hdrop, ?_, fun j hj => ?_⟩
  · rw [hr]
    exact Nat.mod_lt _ (Nat.succ_pos N)
  · rw [hr, hdrop, Nat.mod_add_mod, Nat.add_assoc, Nat.add_comm 1 N, Nat.add_mod_right,
      Nat.mod_eq_of_lt hw]
  · rw [hdrop] at hj
    have hs := h.slots j hj
    rw [hr, Nat.mod_add_mod]
    refine Option.some.inj ?_
    rw [← hs, ← List.getElem?_eq_getElem, List.getElem?_drop]

end RingHistory

/-! ## The family -/

/-- The elements of every queue, by the peer that pushed them. -/
abbrev Queues := Side → QueueId → List (List UInt8)

/-- The family with one queue replaced. -/
def Queues.set (q : Queues) (s : Side) (id : QueueId) (xs : List (List UInt8)) : Queues :=
  fun s' id' => if s' = s ∧ id' = id then xs else q s' id'

/-- **What the windows hold**, queue by queue. -/
def QueuesHold (cfg : IpcShmCfg) (shm : Shm) (q : Queues) : Prop :=
  ∀ id, cfg.HasQueue id → ∀ s,
    RingHolds (cfg.queueOff id) (cfg.queueCap id) 8 (shm s) (shm s.other) (q s id)

namespace QueuesHold

variable {cfg : IpcShmCfg} {shm shm' : Shm} {q q' : Queues} {id : QueueId} {s : Side}
  {x : List UInt8} {xs : List (List UInt8)}

theorem congr (h : QueuesHold cfg shm q) (hq : ∀ id, cfg.HasQueue id → ∀ s, q' s id = q s id) :
    QueuesHold cfg shm q' := fun id hid s => by
  rw [hq id hid s]
  exact h id hid s

/-- A change outside the rings. -/
theorem frame (h : QueuesHold cfg shm q)
    (hs : ∀ id, cfg.HasQueue id → ∀ s,
      (shm s).SameOn (shm' s) (cfg.queueOff id) (ringBytes (cfg.queueCap id))) :
    QueuesHold cfg shm' q := fun id hid s =>
  (h id hid s).frame (hs id hid s) (hs id hid s.other)

/-- **A push** appends to one queue. -/
theorem push (h : QueuesHold cfg shm q) (hg : cfg.PoolsGiven) (hid : cfg.HasQueue id)
    (hcap : cfg.queueCap id < 2 ^ 16) (hlen : (q s id).length < cfg.queueCap id)
    (hx : x.length = 8) :
    QueuesHold cfg (shm.set s ((shm s).pushBack (cfg.queueOff id) (cfg.queueCap id + 1) 8 x))
      (q.set s id (q s id ++ [x])) := by
  intro id' hid' s'
  by_cases hii : id' = id
  · subst hii
    rcases Side.eq_or_eq_other s s' with rfl | rfl
    · rw [Shm.set_self, Shm.set_other, Queues.set, if_pos ⟨rfl, rfl⟩]
      exact (h id' hid s').pushBack hlen hcap hx
    · rw [Side.other_other, Shm.set_self, Shm.set_other, Queues.set,
        if_neg (fun hc => absurd hc.1 (Side.other_ne s))]
      have hr := h id' hid s.other
      rw [Side.other_other] at hr
      exact hr.congr rfl (fun _ _ => rfl) ByteMem.readIdx_pushBack
  · have hsame : ∀ t, (shm t).SameOn
        (shm.set s ((shm s).pushBack (cfg.queueOff id) (cfg.queueCap id + 1) 8 x) t)
        (cfg.queueOff id') (ringBytes (cfg.queueCap id')) := by
      intro t
      rcases Side.eq_or_eq_other s t with rfl | rfl
      · rw [Shm.set_self]
        exact ByteMem.sameOn_pushBack (h id hid t).write_lt hx
          (IpcShmCfg.queue_apart hg hid hid' (Ne.symm hii))
      · rw [Shm.set_other]
        exact ByteMem.SameOn.refl _ _ _
    rw [Queues.set, if_neg (fun hc => hii hc.2)]
    exact (h id' hid' s').frame (hsame s') (hsame s'.other)

/-- **A pop** removes the head of one queue of the other peer. -/
theorem pop (h : QueuesHold cfg shm q) (hg : cfg.PoolsGiven) (hid : cfg.HasQueue id)
    (hcap : cfg.queueCap id < 2 ^ 16) (hq : q s.other id = x :: xs) :
    QueuesHold cfg (shm.set s ((shm s).popFront (cfg.queueOff id) (cfg.queueCap id + 1)))
      (q.set s.other id xs) := by
  intro id' hid' s'
  by_cases hii : id' = id
  · subst hii
    rcases Side.eq_or_eq_other s s' with rfl | rfl
    · rw [Shm.set_self, Shm.set_other, Queues.set,
        if_neg (fun hc => absurd hc.1 (Side.ne_other s'))]
      exact (h id' hid s').congr ByteMem.writeIdx_popFront
        (fun _ _ => ByteMem.slot_store_read) rfl
    · rw [Side.other_other, Shm.set_self, Shm.set_other, Queues.set, if_pos ⟨rfl, rfl⟩]
      have hr := h id' hid s.other
      rw [Side.other_other, hq] at hr
      exact hr.popFront hcap
  · have hsame : ∀ t, (shm t).SameOn
        (shm.set s ((shm s).popFront (cfg.queueOff id) (cfg.queueCap id + 1)) t)
        (cfg.queueOff id') (ringBytes (cfg.queueCap id')) := by
      intro t
      rcases Side.eq_or_eq_other s t with rfl | rfl
      · rw [Shm.set_self]
        exact ByteMem.sameOn_popFront (IpcShmCfg.queue_apart hg hid hid' (Ne.symm hii))
      · rw [Shm.set_other]
        exact ByteMem.SameOn.refl _ _ _
    rw [Queues.set, if_neg (fun hc => hii hc.2)]
    exact (h id' hid' s').frame (hsame s') (hsame s'.other)

end QueuesHold
