import IpcShm.HostMemory

/-!
# What an initialization leaves in memory

The functions of the initialization, from the ring to the instance, on a host
with the windows mapped. Each is described by what it leaves behind, whether
it succeeds or fails, for nothing but that decides whether a cleanup can undo
it:

* every queue it points to has a live ring in its place (`HeldAt`);
* memory below the offset it worked at is as before, and outside the headers
  of these rings no byte pattern that starts a sentinel appeared (`Gained`);
* on the way it looked at the remote window below the end of its own part
  only (`LookedBelow`), so that each ring after it is looked at for the first
  time.

The first of these needs the condition that `Host.Careful` states: the remote
ring is not found `IN_PROGRESS` when `ipc_queue_sync_index` looks first. The
two loops, over the pools of a channel and over the channels, get a lemma for
the iteration that ends the loop (`stop`) and one for the iteration before the
rest (`cons`).
-/

/-- The sentinel of a ring is `DONE` or `IN_PROGRESS`. -/
def RingLive (m : ByteMem) (a : ℕ) : Prop :=
  m.sentinel a = ipcQueueInitDone ∨ m.sentinel a = ipcQueueInitInProgress

/-- Live rings stay live while their sentinel is left alone. -/
theorem RingLive.frame {m m' : ByteMem} {a : ℕ} (h : RingLive m a)
    (hf : ∀ x, a ≤ x → x < a + 8 → m' x = m x) : RingLive m' a := by
  have hload : m'.sentinel a = m.sentinel a :=
    ByteMem.load_congr (fun i hi => hf (a + i) (Nat.le_add_right a i) (by omega))
  unfold RingLive
  rw [hload]
  exact h

/-- Everything looked at so far lies below the offset `x`. -/
def LookedBelow (μ : HostMap) (x : ℕ) (h : Host) : Prop :=
  ∀ b ∈ h.looked, b < μ.remoteShm + x

/-- **A header was written**, `len` bytes at the offset `off`. -/
structure HeaderSet (μ : HostMap) (off len : ℕ) (h h' : Host) : Prop where
  map_eq : h'.map = h.map
  frame : ∀ a, ¬Within (μ.phys + off) len a → h'.mem a = h.mem a
  looked : LookedBelow μ off h → LookedBelow μ (off + len) h'

section Queues

variable {μ : HostMap} {h : Host} {off len n : ℕ}

theorem inWindow_header (hoff : off + len ≤ μ.size) {i k : ℕ} (hk : i + k ≤ len) :
    InWindow μ.toShmMap (μ.localShm + off + i) k := by
  refine ⟨show μ.localShm ≤ _ by omega, show _ ≤ μ.localShm + μ.size by omega⟩

theorem inRemote_header (hoff : off + len ≤ μ.size) {i k : ℕ} (hk : i + k ≤ len) :
    InRemote μ.toShmMap (μ.remoteShm + off + i) k := by
  refine ⟨show μ.remoteShm ≤ _ by omega, show _ ≤ μ.remoteShm + μ.size by omega⟩

theorem HeaderSet.refl : HeaderSet μ off len h h :=
  ⟨rfl, fun _ _ => rfl, fun hl b hb => (hl b hb).trans_le (by omega)⟩

variable {α : Type} {Q : α → Host → Prop} {h₁ : Host}

/-- A store to the header, with what follows. -/
theorem HeaderSet.wp_store (hs : HeaderSet μ off len h h₁) (hμ : h.map = some μ)
    (hoff : off + len ≤ μ.size) {i k v : ℕ} (hk : i + k ≤ len) {f : Unit → Drv α}
    (hf : ∀ h₂, HeaderSet μ off len h h₂ → h₂.mem = h₁.mem.store k (μ.phys + off + i) v →
      HostWp (f ()) Q h₂) :
    HostWp ((.op (.store k (μ.localShm + off + i) v) .pure : Drv Unit) >>= f) Q h₁ := by
  refine HostWp.store (hs.map_eq.trans hμ) (inWindow_header hoff hk) (fun h₂ hmap hlook hmem => ?_)
  rw [μ.addr_add] at hmem
  refine hf h₂ ⟨hmap.trans hs.map_eq, fun a ha => ?_, fun hl => ?_⟩ hmem
  · unfold Within at ha
    rw [hmem, ByteMem.store_of_not_mem _ (by omega)]
    exact hs.frame a ha
  · unfold LookedBelow
    rw [hlook]
    exact hs.looked hl

/-- A look at the header of the remote, with what follows. -/
theorem HeaderSet.wp_look (hs : HeaderSet μ off len h h₁) (hμ : h.map = some μ)
    (hoff : off + len ≤ μ.size) {i k : ℕ} (hk : i + k ≤ len) (hpos : 0 < k) {f : ℕ → Drv α}
    (hf : ∀ v h₂, HeaderSet μ off len h h₂ → h₂.mem = h₁.mem →
      (k = 8 → μ.remoteShm + off + i ∉ h₁.looked → v ≠ ipcQueueInitInProgress) →
      HostWp (f v) Q h₂) :
    HostWp ((.op (.load k (μ.remoteShm + off + i)) .pure : Drv ℕ) >>= f) Q h₁ := by
  refine HostWp.load_remote (hs.map_eq.trans hμ) (inRemote_header hoff hk) hpos
    (fun v h₂ hv hmap hmem hlook => hf v h₂
      ⟨hmap.trans hs.map_eq, fun a ha => ?_, fun hl b hb => ?_⟩ hmem hv)
  · rw [hmem]
    exact hs.frame a ha
  rw [hlook] at hb
  rcases List.mem_cons.mp hb with rfl | hb
  · omega
  · exact hs.looked hl b hb

/-- **`ipc_queue_sync_index`** leaves its ring live, unless the remote ring is
being initialized when it looks the first time. -/
theorem ipcQueueSyncIndex_host (hμ : h.map = some μ) (ty : IpcShmQueueType)
    (hoff : off + 16 ≤ μ.size) (hl : LookedBelow μ off h) :
    HostWp (ipcQueueSyncIndex (laidQueue μ.os off n) ty)
      (fun err h' => err = 0 ∧ HeaderSet μ off 16 h h' ∧ RingLive h'.mem (μ.phys + off)) h := by
  unfold ipcQueueSyncIndex
  refine HeaderSet.refl.wp_look hμ hoff (i := 0) (by decide) (by decide) (fun v h₁ hs₁ _ hv => ?_)
  have hne : v ≠ ipcQueueInitInProgress := hv rfl (fun hb => Nat.lt_irrefl _ (hl _ hb))
  rw [if_neg hne]
  refine hs₁.wp_store hμ hoff (i := 0) (by decide) (fun h₂ hs₂ hm₂ => ?_)
  have hlive₂ : h₂.mem.sentinel (μ.phys + off) = ipcQueueInitInProgress := by
    rw [hm₂]
    exact ByteMem.sentinel_store_sentinel (by decide)
  -- both ways on store the two indexes only
  have hindexes : ∀ (r : ℕ) (h₃ : Host), HeaderSet μ off 16 h h₃ → h₃.mem.sentinel (μ.phys + off)
      = ipcQueueInitInProgress → HostWp (store32 (μ.localShm + off + 12) r >>= fun _ => .pure 0)
        (fun err h' => err = (0 : ℤ) ∧ HeaderSet μ off 16 h h' ∧ RingLive h'.mem (μ.phys + off))
        h₃ := by
    intro r h₃ hs₃ hlive
    refine hs₃.wp_store hμ hoff (by decide) (fun h₄ hs₄ hm₄ => ⟨rfl, hs₄, Or.inr ?_⟩)
    rw [hm₄, ByteMem.sentinel_store_read]
    exact hlive
  refine hs₂.wp_look hμ hoff (i := 0) (by decide) (by decide) (fun v h₃ hs₃ hm₃ _ => ?_)
  have hlive₃ : h₃.mem.sentinel (μ.phys + off) = ipcQueueInitInProgress := hm₃ ▸ hlive₂
  split
  · refine hs₃.wp_look hμ hoff (by decide) (by decide) (fun r h₄ hs₄ hm₄ _ => ?_)
    refine hs₄.wp_store hμ hoff (by decide) (fun h₅ hs₅ hm₅ => ?_)
    refine hs₅.wp_look hμ hoff (by decide) (by decide) (fun w h₆ hs₆ hm₆ _ => ?_)
    refine HostWp.remU (Nat.succ_pos n) (hindexes _ h₆ hs₆ ?_)
    rw [hm₆, hm₅, ByteMem.sentinel_store_write, hm₄]
    exact hlive₃
  · refine hs₃.wp_store hμ hoff (by decide) (fun h₄ hs₄ hm₄ => ?_)
    refine hindexes 0 h₄ hs₄ ?_
    rw [hm₄, ByteMem.sentinel_store_write]
    exact hlive₃

/-- **`ipc_queue_init`** rejects its arguments, or leaves a live ring. -/
theorem ipcQueueInit_host (hμ : h.map = some μ) (q : IpcQueue) (ty : IpcShmQueueType)
    (hn : n ≤ ipcShmMaxBufsPerChannel) (hoff : off + 16 ≤ μ.size) (hl : LookedBelow μ off h) :
    HostWp (ipcQueueInit q (laidData μ.os off n ty))
      (fun r h' => (r.1 ≠ 0 ∧ r.2 = q ∧ h' = h) ∨
        (r.1 = 0 ∧ r.2 = laidQueue μ.os off n ∧ HeaderSet μ off 16 h h' ∧
          RingLive h'.mem (μ.phys + off))) h := by
  unfold ipcQueueInit
  split
  · exact Or.inl ⟨show -EINVAL ≠ 0 by decide, rfl, rfl⟩
  · rw [laidQueue_of_data μ.os ty hn]
    exact (ipcQueueSyncIndex_host hμ ty hoff hl).bind
      (fun err h' ⟨herr, hs, hlive⟩ => Or.inr ⟨herr, rfl, hs, hlive⟩)

/-- A ring was written to, in a part of its body that the header does not
reach; memory stays calm. -/
structure RingFilled (μ : HostMap) (off n : ℕ) (h h' : Host) : Prop where
  map_eq : h'.map = h.map
  frame : ∀ a, ¬Within (μ.phys + off) (ringBytes n) a → h'.mem a = h.mem a
  sentinel : h'.mem.sentinel (μ.phys + off) = h.mem.sentinel (μ.phys + off)
  looked : LookedBelow μ (off + 16) h → LookedBelow μ (off + 16) h'
  calm : ∀ H : ℕ → Prop, (∀ a, Within (μ.phys + off) 16 a → H a) → Calm H h.mem → Calm H h'.mem

theorem RingFilled.refl : RingFilled μ off n h h :=
  ⟨rfl, fun _ _ => rfl, rfl, fun h => h, fun _ _ h => h⟩

theorem RingFilled.trans {h' h'' : Host} (hf : RingFilled μ off n h h')
    (hf' : RingFilled μ off n h' h'') : RingFilled μ off n h h'' :=
  ⟨hf'.map_eq.trans hf.map_eq, fun a ha => (hf'.frame a ha).trans (hf.frame a ha),
    hf'.sentinel.trans hf.sentinel, fun hl => hf'.looked (hf.looked hl),
    fun H hH hc => hf'.calm H hH (hf.calm H hH hc)⟩

/-- A slot was filled and the index advanced. -/
theorem RingFilled.of_slot {h' : Host} (hmap : h'.map = h.map) (hlook : h'.looked = h.looked)
    {w : ℕ} (next : ℕ) {buf : List UInt8} (hw : w < n + 1) (hlen : buf.length = 8) (hbuf : Tame buf)
    (hmem : h'.mem
      = (h.mem.write (μ.phys + off + 16 + w * 8) buf).store 4 (μ.phys + off + 8) next) :
    RingFilled μ off n h h' where
  map_eq := hmap
  frame := by
    intro a ha
    unfold Within ringBytes at ha
    rw [hmem, ByteMem.store_of_not_mem _ (by omega), ByteMem.write_of_not_mem _ (by omega)]
  sentinel := by rw [hmem, ByteMem.sentinel_store_write, ByteMem.sentinel_write_slot]
  looked := by
    intro hl
    unfold LookedBelow
    rw [hlook]
    exact hl
  calm := by
    intro H hH hc
    rw [hmem]
    -- the descriptor is tame, and the index lies in the header
    refine (hc.write (a := μ.phys + off + 16 + w * 8) hbuf).of_bytes (fun a => ?_)
    by_cases hHa : H a
    · exact Or.inl hHa
    · have hout : ¬Within (μ.phys + off) 16 a := fun h => hHa (hH a h)
      unfold Within at hout
      exact Or.inr (Or.inr ⟨hHa, ByteMem.store_of_not_mem _ (by omega)⟩)

/-- **`ipc_queue_push`** of a descriptor of a free buffer. -/
theorem ipcQueuePush_host (hμ : h.map = some μ) (hn : n ≤ ipcShmMaxBufsPerChannel)
    (hoff : off + ringBytes n ≤ μ.size) {buf : List UInt8} (hlen : buf.length = 8)
    (hbuf : Tame buf) :
    HostWp (ipcQueuePush (laidQueue μ.os off n) buf) (fun _ h' => RingFilled μ off n h h') h := by
  unfold ipcShmMaxBufsPerChannel at hn
  have hbytes : ringBytes n = 16 + (n + 1) * 8 := rfl
  unfold ipcQueuePush
  split
  · exact RingFilled.refl
  refine HostWp.load_local hμ (inWindow_header hoff (by omega)) (by decide) (fun w _ => ?_)
  refine HostWp.load_remote hμ (inRemote_header hoff (by omega)) (by decide)
    (fun r h₁ _ hmap₁ hmem₁ hlook₁ => ?_)
  have hfill₁ : RingFilled μ off n h h₁ := by
    refine ⟨hmap₁, fun a _ => by rw [hmem₁], by rw [hmem₁], fun hl b hb => ?_,
      fun _ _ hc => by rw [hmem₁]; exact hc⟩
    rw [hlook₁] at hb
    rcases List.mem_cons.mp hb with rfl | hb
    · show μ.remoteShm + off + 12 < μ.remoteShm + (off + 16)
      omega
    · exact hl b hb
  split
  · exact hfill₁
  · rename_i hidx
    have hlt : w < n + 1 := Nat.not_le.mp (fun h => hidx (Or.inr h))
    refine HostWp.remU (Nat.succ_pos n) ?_
    split
    · exact hfill₁
    · have hslot : u32 (w * (laidQueue μ.os off n).elemSize) = w * 8 :=
        u32_of_lt (show w * 8 < 2 ^ 32 by omega)
      have htake : buf.take (laidQueue μ.os off n).elemSize = buf :=
        List.take_of_length_le (show buf.length ≤ 8 by omega)
      rw [hslot, htake]
      refine HostWp.memcpyTo (hmap₁.trans hμ)
        ⟨show μ.localShm ≤ μ.localShm + off + 16 + w * 8 by omega,
          show μ.localShm + off + 16 + w * 8 + buf.length ≤ μ.localShm + μ.size by omega⟩
        (fun h₂ hmap₂ hlook₂ hmem₂ => ?_)
      refine HostWp.store (hmap₂.trans (hmap₁.trans hμ)) (inWindow_header hoff (by omega))
        (fun h₃ hmap₃ hlook₃ hmem₃ => hfill₁.trans ?_)
      have hslots : μ.addr (μ.localShm + off + 16 + w * 8) = μ.phys + off + 16 + w * 8 := by
        rw [show μ.localShm + off + 16 + w * 8 = μ.localShm + off + (16 + w * 8) by omega,
          μ.addr_add, Nat.add_assoc (μ.phys + off)]
      refine RingFilled.of_slot (hmap₃.trans hmap₂) (hlook₃.trans hlook₂)
        (u32 (w + 1) % (n + 1)) hlt hlen hbuf (hmem₃.trans ?_)
      rw [hmem₂]
      exact congrArg₂ (fun a b => (h₁.mem.write a buf).store 4 b _) hslots (μ.addr_add off 8)

/-- The loop that populates a pool queue. -/
theorem pushFreeBds_host (hμ : h.map = some μ) (hn : n ≤ ipcShmMaxBufsPerPool)
    (hoff : off + ringBytes n ≤ μ.size) {poolId k bufId : ℕ} (hp : poolId < ipcShmMaxPools)
    (hk : bufId + k = n) :
    HostWp (pushFreeBds (laidQueue μ.os off n) poolId k bufId)
      (fun _ h' => RingFilled μ off n h h') h := by
  unfold ipcShmMaxBufsPerPool at hn
  unfold ipcShmMaxPools at hp
  induction k generalizing bufId h with
  | zero => exact RingFilled.refl
  | succ k ih =>
    rw [pushFreeBds]
    refine (ipcQueuePush_host hμ (hn.trans (by decide)) hoff (IpcShmBd.encode_length _)
      (tame_bd (by omega) (by omega))).bind (fun err h₁ hfill => ?_)
    split
    · exact hfill
    · exact (ih (hfill.map_eq.trans hμ) (by omega)).mono (fun _ h' hrest => hfill.trans hrest)

end Queues

/-! ## What a channel holds -/

/-- **A part of a call that works from the offset `x` on**, and outside `S`
leaves memory calm. -/
structure Gained (μ : HostMap) (x : ℕ) (S : ℕ → Prop) (h h' : Host) : Prop where
  map_eq : h'.map = h.map
  below : ∀ a, a < μ.phys + x → h'.mem a = h.mem a
  calm : ∀ H : ℕ → Prop, (∀ a, S a → H a) → Calm H h.mem → Calm H h'.mem

section Gained

variable {μ : HostMap} {h h' h'' : Host} {x y off len n : ℕ} {S T : ℕ → Prop}

theorem Gained.refl : Gained μ x S h h := ⟨rfl, fun _ _ => rfl, fun _ _ hc => hc⟩

theorem Gained.trans (hg : Gained μ x S h h') (hg' : Gained μ y T h' h'') (hxy : x ≤ y) :
    Gained μ x (fun a => S a ∨ T a) h h'' :=
  ⟨hg'.map_eq.trans hg.map_eq,
    fun a ha => (hg'.below a (by omega)).trans (hg.below a ha),
    fun H hH hc => hg'.calm H (fun a ha => hH a (Or.inr ha))
      (hg.calm H (fun a ha => hH a (Or.inl ha)) hc)⟩

theorem Gained.mono (hg : Gained μ x S h h') (hST : ∀ a, S a → T a) : Gained μ x T h h' :=
  ⟨hg.map_eq, hg.below, fun H hH hc => hg.calm H (fun a ha => hH a (hST a ha)) hc⟩

theorem HeaderSet.gained (hs : HeaderSet μ off len h h') :
    Gained μ off (Within (μ.phys + off) len) h h' := by
  refine ⟨hs.map_eq, fun a ha => hs.frame a (fun hw => ?_), fun H hH hc => ?_⟩
  · exact absurd hw.1 (Nat.not_le.mpr ha)
  · refine hc.of_bytes (fun a => ?_)
    by_cases hHa : H a
    · exact Or.inl hHa
    · exact Or.inr (Or.inr ⟨hHa, hs.frame a (fun hw => hHa (hH a hw))⟩)

theorem RingFilled.gained (hf : RingFilled μ off n h h') :
    Gained μ off (Within (μ.phys + off) 16) h h' :=
  ⟨hf.map_eq, fun a ha => hf.frame a (fun hw => absurd hw.1 (Nat.not_le.mpr ha)), hf.calm⟩

end Gained

/-- **The place of a queue that may have been initialized**: it has no ring, or
a live one at the offset `off`. -/
def IpcQueue.HeldAt (q : IpcQueue) (μ : HostMap) (m : ByteMem) (off : ℕ) : Prop :=
  q.pushRing = 0 ∨
    (q.pushRing = μ.localShm + off ∧ off + 16 ≤ μ.size ∧ RingLive m (μ.phys + off))

/-- The addresses of the header of a queue, if it has a ring. -/
def IpcQueue.header (q : IpcQueue) (μ : HostMap) (a : ℕ) : Prop :=
  q.pushRing ≠ 0 ∧ Within (μ.addr q.pushRing) 16 a

/-- The channel has no ring, nor has any of its pools. -/
def IpcManagedChannel.Null (mchan : IpcManagedChannel) : Prop :=
  mchan.bdQueue.pushRing = 0 ∧ ∀ p, (mchan.pools p).bdQueue.pushRing = 0

/-- **What a managed channel at `off` holds**: nothing, or a live ring, with
live rings of some of its pools. -/
def IpcManagedChannel.HeldAt (mchan : IpcManagedChannel) (μ : HostMap) (m : ByteMem) (off : ℕ)
    (cfg : IpcShmManagedCfg) : Prop :=
  mchan.Null ∨ ∃ pools, cfg.pools = some pools ∧ mchan.numPools = cfg.numPools.toNat ∧
    mchan.bdQueue.pushRing ≠ 0 ∧ mchan.bdQueue.HeldAt μ m off ∧
    (∀ p, p < mchan.numPools →
      (mchan.pools p).bdQueue.HeldAt μ m (off + poolOff pools mchan.numPools p)) ∧
    ∀ p, mchan.numPools ≤ p → (mchan.pools p).bdQueue.pushRing = 0

/-- The addresses of the headers of a managed channel. -/
def IpcManagedChannel.headers (mchan : IpcManagedChannel) (μ : HostMap) (a : ℕ) : Prop :=
  mchan.bdQueue.header μ a ∨ ∃ p, p < mchan.numPools ∧ (mchan.pools p).bdQueue.header μ a

/-- **What a channel at `off` holds.** -/
def IpcShmChannel.HeldAt (chan : IpcShmChannel) (μ : HostMap) (m : ByteMem) (off : ℕ) :
    IpcShmChannelCfg → Prop
  | .managed cfg => chan.mng.HeldAt μ m off cfg
  | .unmanaged _ =>
    (chan.localMem = 0 ∨ (chan.localMem = μ.localShm + off ∧ off + 12 ≤ μ.size)) ∧
      ∀ p, (chan.mng.pools p).bdQueue.pushRing = 0
  | .invalid => chan.mng.Null

/-- The addresses of the headers of a channel, read as one of the given
type. -/
def IpcShmChannel.headers (chan : IpcShmChannel) (μ : HostMap) : IpcShmChannelType → ℕ → Prop
  | .managed, a => chan.mng.headers μ a
  | .unmanaged, a => chan.localMem ≠ 0 ∧ Within (μ.addr chan.localMem) 12 a
  | .invalid, _ => False

theorem sixteen_le_extent (p : IpcShmPoolCfg) : 16 ≤ p.extent := by
  unfold IpcShmPoolCfg.extent ringBytes
  omega

theorem sixteen_le_poolOff (pools : ℕ → IpcShmPoolCfg) (n p : ℕ) : 16 ≤ poolOff pools n p := by
  unfold poolOff ringBytes
  omega

section Held

variable {μ : HostMap} {m m' : ByteMem} {off : ℕ}

/-- Queues are held while their headers are left alone. -/
theorem IpcQueue.HeldAt.frame {q : IpcQueue} (hq : q.HeldAt μ m off)
    (hf : ∀ a, Within (μ.phys + off) 16 a → m' a = m a) : q.HeldAt μ m' off := by
  refine hq.imp_right (fun ⟨hpush, hfit, hlive⟩ => ⟨hpush, hfit, hlive.frame (fun a h1 h2 => ?_)⟩)
  exact hf a ⟨h1, by omega⟩

theorem IpcQueue.HeldAt.header_within {q : IpcQueue} (hq : q.HeldAt μ m off) {a : ℕ}
    (ha : q.header μ a) : Within (μ.phys + off) 16 a := by
  rcases hq with h0 | ⟨hpush, -, -⟩
  · exact absurd h0 ha.1
  · have hw := ha.2
    rw [hpush, μ.addr_eq] at hw
    exact hw

theorem IpcManagedChannel.HeldAt.frame {mchan : IpcManagedChannel} {cfg : IpcShmManagedCfg}
    (hm : mchan.HeldAt μ m off cfg)
    (hf : ∀ a, Within (μ.phys + off) (IpcShmChannelCfg.managed cfg).extent a → m' a = m a) :
    mchan.HeldAt μ m' off cfg := by
  refine hm.imp_right ?_
  rintro ⟨pools, hpools, hnum, hpush, hq, hheld, hafter⟩
  have hext : (IpcShmChannelCfg.managed cfg).extent
      = poolOff pools mchan.numPools mchan.numPools := by
    rw [IpcShmChannelCfg.extent, hpools, hnum]
  rw [hext] at hf
  refine ⟨pools, hpools, hnum, hpush, hq.frame (fun a ha => hf a ?_),
    fun p hp => (hheld p hp).frame (fun a ha => hf a ?_), hafter⟩
  · exact ha.of_le (Nat.le_refl _) (Nat.add_le_add_left (sixteen_le_poolOff _ _ _) _)
  · have hend := poolOff_add_extent_le pools mchan.numPools hp
    have hlen := sixteen_le_extent (pools p)
    exact ha.of_le (by omega) (by omega)

theorem IpcManagedChannel.HeldAt.headers_within {mchan : IpcManagedChannel}
    {cfg : IpcShmManagedCfg} (hm : mchan.HeldAt μ m off cfg) {a : ℕ} (ha : mchan.headers μ a) :
    Within (μ.phys + off) (IpcShmChannelCfg.managed cfg).extent a := by
  rcases hm with hnull | ⟨pools, hpools, hnum, -, hq, hheld, -⟩
  · rcases ha with ha | ⟨p, -, ha⟩
    · exact absurd hnull.1 ha.1
    · exact absurd (hnull.2 p) ha.1
  · have hext : (IpcShmChannelCfg.managed cfg).extent
        = poolOff pools mchan.numPools mchan.numPools := by
      rw [IpcShmChannelCfg.extent, hpools, hnum]
    rw [hext]
    rcases ha with ha | ⟨p, hp, ha⟩
    · exact (hq.header_within ha).of_le (Nat.le_refl _)
        (Nat.add_le_add_left (sixteen_le_poolOff _ _ _) _)
    · have hend := poolOff_add_extent_le pools mchan.numPools hp
      have hlen := sixteen_le_extent (pools p)
      exact ((hheld p hp).header_within ha).of_le (by omega) (by omega)

/-- Channels are held while their part of the window is left alone. -/
theorem IpcShmChannel.HeldAt.frame {chan : IpcShmChannel} {cc : IpcShmChannelCfg}
    (hc : chan.HeldAt μ m off cc) (hf : ∀ a, Within (μ.phys + off) cc.extent a → m' a = m a) :
    chan.HeldAt μ m' off cc := by
  cases cc with
  | managed cfg => exact IpcManagedChannel.HeldAt.frame hc hf
  | unmanaged cfg => exact hc
  | invalid => exact hc

theorem IpcShmChannel.HeldAt.headers_within {chan : IpcShmChannel} {cc : IpcShmChannelCfg}
    (hc : chan.HeldAt μ m off cc) {a : ℕ} (ha : chan.headers μ cc.type a) :
    Within (μ.phys + off) cc.extent a := by
  cases cc with
  | managed cfg => exact IpcManagedChannel.HeldAt.headers_within hc ha
  | unmanaged cfg =>
    rcases hc.1 with h0 | ⟨hmem, -⟩
    · exact absurd h0 ha.1
    · have hw := ha.2
      rw [hmem, μ.addr_eq] at hw
      have hext : (IpcShmChannelCfg.unmanaged cfg).extent = 16 + cfg.size.toNat := rfl
      exact hw.of_le (Nat.le_refl _) (by omega)
  | invalid => exact ha.elim

theorem laidQueue_header {n a : ℕ} (hpos : 0 < off) :
    (laidQueue μ.os off n).header μ a ↔ Within (μ.phys + off) 16 a := by
  have hpush : (laidQueue μ.os off n).pushRing = μ.localShm + off := rfl
  unfold IpcQueue.header
  rw [hpush, μ.addr_eq]
  exact and_iff_right (by omega)

theorem HeaderAllowed.fits {μ : ShmMap} (h : HeaderAllowed (InWindow μ) (μ.localShm + off)) :
    off + 16 ≤ μ.size := by
  have hw : μ.localShm + off + 0 + 16 ≤ μ.localShm + μ.size := (h 0 16 (Nat.le_refl 16)).2
  omega

end Held

/-! ## Initialization -/

section Init

variable {μ : HostMap} {h : Host} {off : ℕ}

/-- **What the initialization of a queue at `off` leaves.** -/
structure QueueGained (μ : HostMap) (off : ℕ) (q : IpcQueue) (h h' : Host) : Prop where
  held : q.HeldAt μ h'.mem off
  gained : Gained μ off (q.header μ) h h'
  looked : LookedBelow μ (off + 16) h'

theorem QueueGained.null {q : IpcQueue} (hq : q.pushRing = 0) (hl : LookedBelow μ off h) :
    QueueGained μ off q h h :=
  ⟨Or.inl hq, .refl, fun b hb => (hl b hb).trans_le (by omega)⟩

/-- A queue in its place whose header was written last. -/
theorem QueueGained.laid {n : ℕ} {h' : Host} (hpos : 0 < off) (hfit : off + 16 ≤ μ.size)
    (hg : Gained μ off (Within (μ.phys + off) 16) h h') (hlive : RingLive h'.mem (μ.phys + off))
    (hl : LookedBelow μ (off + 16) h') : QueueGained μ off (laidQueue μ.os off n) h h' :=
  ⟨Or.inr ⟨rfl, hfit, hlive⟩, hg.mono (fun _ ha => (laidQueue_header hpos).mpr ha), hl⟩

/-- The sentinel is stored last. -/
theorem store_done_host {h₁ : Host} {α : Type} {Q : α → Host → Prop} {f : Unit → Drv α}
    (hμ : h₁.map = some μ) (hfit : off + 16 ≤ μ.size)
    (hg : Gained μ off (Within (μ.phys + off) 16) h h₁) (hl : LookedBelow μ (off + 16) h₁)
    (hf : ∀ h₂, Gained μ off (Within (μ.phys + off) 16) h h₂ → RingLive h₂.mem (μ.phys + off) →
      LookedBelow μ (off + 16) h₂ → HostWp (f ()) Q h₂) :
    HostWp (store64 (μ.localShm + off) ipcQueueInitDone >>= f) Q h₁ := by
  refine HostWp.store hμ (inWindow_header hfit (i := 0) (by decide)) (fun h₂ hmap hlook hmem => ?_)
  rw [μ.addr_eq] at hmem
  have hset : HeaderSet μ off 16 h₁ h₂ := by
    refine ⟨hmap, fun a ha => ?_, fun hl b hb => ?_⟩
    · unfold Within at ha
      rw [hmem, ByteMem.store_of_not_mem _ (by omega)]
    · rw [hlook] at hb
      exact (hl b hb).trans_le (by omega)
  refine hf h₂ ((hg.trans hset.gained (Nat.le_refl off)).mono (fun a ha => ha.elim id id))
    (Or.inl ?_) (fun b hb => hl b (hlook ▸ hb))
  rw [hmem]
  exact ByteMem.sentinel_store_sentinel (by decide)

/-- **`ipc_buf_pool_init`** at the offset `off`. -/
theorem ipcBufPoolInit_host (hμ : h.map = some μ) {pool : IpcShmPool} {p : IpcShmPoolCfg}
    {poolId : ℕ} (hid : poolId < ipcShmMaxPools) (hpos : 0 < off)
    (hp : PoolChecked μ.toShmMap (InWindow μ.toShmMap) off p)
    (hnull : pool.bdQueue.pushRing = 0) (hl : LookedBelow μ off h) :
    HostWp (ipcBufPoolInit μ.os μ.size pool poolId (laidPoolAddr μ.os off) p)
      (fun r h' => QueueGained μ off r.2.bdQueue h h') h := by
  have hfit := hp.header.fits
  unfold ipcBufPoolInit
  split
  · exact .null hnull hl
  · rename_i hle
    have hle : p.numBufs.toNat ≤ ipcShmMaxBufsPerPool := Nat.not_lt.mp hle
    have hn : p.numBufs.toNat ≤ ipcShmMaxBufsPerChannel :=
      Nat.le_trans hle (show 4096 ≤ 0xFFFF - 1 by decide)
    refine (ipcQueueInit_host hμ _ .poolQueue hn hfit hl).bind ?_
    rintro ⟨err, q⟩ h₁ (⟨he, rfl, rfl⟩ | ⟨he, rfl, hset, hlive⟩)
    · dsimp only at he ⊢
      rw [if_pos he]
      exact .null hnull hl
    · dsimp only at he hset hlive ⊢
      rw [if_neg (not_not.mpr he), ipcQueueMemSize_laid hn]
      have hl₁ := hset.looked hl
      split
      · exact .laid hpos hfit hset.gained hlive hl₁
      · rename_i hcheck
        have hring : off + ringBytes p.numBufs.toNat ≤ μ.size :=
          (Nat.add_le_add_left (Nat.le_add_right _ _) off).trans (hp.fits hcheck)
        refine (pushFreeBds_host (hset.map_eq.trans hμ) hle hring hid (Nat.zero_add _)).bind
          (fun err h₂ hfill => ?_)
        have hg₂ : Gained μ off (Within (μ.phys + off) 16) h h₂ :=
          (hset.gained.trans hfill.gained (Nat.le_refl off)).mono (fun a ha => ha.elim id id)
        split
        · refine .laid hpos hfit hg₂ ?_ (hfill.looked hl₁)
          unfold RingLive
          rw [hfill.sentinel]
          exact hlive
        · exact store_done_host (hfill.map_eq.trans (hset.map_eq.trans hμ)) hfit hg₂
            (hfill.looked hl₁) (fun h₃ hg₃ hlive₃ hl₃ => .laid hpos hfit hg₃ hlive₃ hl₃)

/-- **What the loop over the pools from `poolId` on leaves**, in a channel at
`off` with `n` pools. -/
structure PoolsGained (μ : HostMap) (off n poolId : ℕ) (pools : ℕ → IpcShmPoolCfg)
    (mchan mchan' : IpcManagedChannel) (h h' : Host) : Prop where
  same : mchan.SameHeader mchan'
  before : ∀ p, p < poolId → mchan'.pools p = mchan.pools p
  after : ∀ p, n ≤ p → (mchan'.pools p).bdQueue.pushRing = 0
  held : ∀ p, poolId ≤ p → p < n →
    (mchan'.pools p).bdQueue.HeldAt μ h'.mem (off + poolOff pools n p)
  gained : Gained μ (off + poolOff pools n poolId)
    (fun a => ∃ p, poolId ≤ p ∧ p < n ∧ (mchan'.pools p).bdQueue.header μ a) h h'

variable {pools : ℕ → IpcShmPoolCfg} {mchan : IpcManagedChannel} {chan : IpcShmChannel}

/-- The loop stops at the pool it has just initialized. -/
theorem PoolsGained.stop {n poolId : ℕ} {pool : IpcShmPool} {h' : Host} (hlt : poolId < n)
    (hnull : ∀ p, poolId ≤ p → (mchan.pools p).bdQueue.pushRing = 0)
    (hg : QueueGained μ (off + poolOff pools n poolId) pool.bdQueue h h') :
    PoolsGained μ off n poolId pools mchan (mchan.setPool poolId pool) h h' where
  same := ⟨rfl, rfl, rfl, rfl⟩
  before := fun p hp => Function.update_of_ne (Nat.ne_of_lt hp) _ _
  after := fun p hp => by
    simp only [IpcManagedChannel.setPool, Function.update_of_ne (show p ≠ poolId by omega)]
    exact hnull p (by omega)
  held := fun p hp _ => by
    by_cases heq : p = poolId
    · subst heq
      simp only [IpcManagedChannel.setPool, Function.update_self]
      exact hg.held
    · simp only [IpcManagedChannel.setPool, Function.update_of_ne heq]
      exact Or.inl (hnull p hp)
  gained := hg.gained.mono (fun a ha => ⟨poolId, Nat.le_refl _, hlt, by
    simp only [IpcManagedChannel.setPool, Function.update_self]
    exact ha⟩)

/-- One pool, then the pools after it. -/
theorem PoolsGained.cons {n poolId : ℕ} {mchan' : IpcManagedChannel} {pool : IpcShmPool}
    {h₁ h' : Host} (hlt : poolId < n)
    (hg : QueueGained μ (off + poolOff pools n poolId) pool.bdQueue h h₁)
    (hrest : PoolsGained μ off n (poolId + 1) pools (mchan.setPool poolId pool) mchan' h₁ h') :
    PoolsGained μ off n poolId pools mchan mchan' h h' := by
  have hnext : off + poolOff pools n poolId + 16 ≤ off + poolOff pools n (poolId + 1) := by
    have hext := sixteen_le_extent (pools poolId)
    rw [poolOff_succ]
    omega
  have hpool : mchan'.pools poolId = pool :=
    (hrest.before poolId (Nat.lt_succ_self _)).trans (Function.update_self ..)
  refine ⟨⟨hrest.same.bdQueue_eq, hrest.same.numPools_eq, hrest.same.rxCb_eq, hrest.same.cbArg_eq⟩,
    fun p hp => (hrest.before p (by omega)).trans (Function.update_of_ne (Nat.ne_of_lt hp) _ _),
    hrest.after, fun p hp hpn => ?_, ?_⟩
  · by_cases heq : p = poolId
    · subst heq
      rw [hpool]
      exact hg.held.frame (fun a ha => hrest.gained.below a (by have := ha.2; omega))
    · exact hrest.held p (by omega) hpn
  · refine (hg.gained.trans hrest.gained (by omega)).mono (fun a ha => ?_)
    rcases ha with ha | ⟨p, hp, hpn, ha⟩
    · exact ⟨poolId, Nat.le_refl _, hlt, hpool ▸ ha⟩
    · exact ⟨p, by omega, hpn, ha⟩

/-- **The loop over the pools.** -/
theorem initPools_host {n k poolId : ℕ} (hμ : h.map = some μ) (hk : poolId + k = n)
    (hn : n ≤ ipcShmMaxPools) (hstart : off + poolOff pools n poolId ≤ μ.size)
    (hP : ∀ p, p < n → off + poolOff pools n p ≤ μ.size →
      PoolChecked μ.toShmMap (InWindow μ.toShmMap) (off + poolOff pools n p) (pools p))
    (hnull : ∀ p, poolId ≤ p → (mchan.pools p).bdQueue.pushRing = 0)
    (hl : LookedBelow μ (off + poolOff pools n poolId) h) :
    HostWp (initPools μ.os μ.size pools k poolId
        (laidPoolAddr μ.os (off + poolOff pools n poolId)) mchan)
      (fun r h' => PoolsGained μ off n poolId pools mchan r.2 h h' ∧
        (r.1 = 0 → LookedBelow μ (off + poolOff pools n n) h')) h := by
  induction k generalizing poolId mchan h with
  | zero =>
    obtain rfl : poolId = n := by omega
    exact ⟨⟨⟨rfl, rfl, rfl, rfl⟩, fun _ _ => rfl, hnull,
      fun p hp hpn => absurd hpn (Nat.not_lt.mpr hp), .refl⟩, fun _ => hl⟩
  | succ k ih =>
    have hlt : poolId < n := by omega
    have hchk := hP poolId hlt hstart
    have hpos : 0 < off + poolOff pools n poolId := by
      have := sixteen_le_poolOff pools n poolId
      omega
    rw [initPools]
    refine ((ipcBufPoolInit_host hμ (by omega) hpos hchk (hnull poolId (Nat.le_refl _))
      hl).and_always (ipcBufPoolInit_always poolId hchk)).bind ?_
    rintro ⟨err, pool⟩ h₁ ⟨hg, hcase, hok⟩
    dsimp only at hg hok ⊢
    split
    · rename_i he
      exact ⟨.stop hlt hnull hg, fun h0 => absurd h0 he⟩
    · rename_i he
      obtain ⟨hpool, hfit⟩ := hok (not_not.mp he)
      have hnext : off + poolOff pools n (poolId + 1) ≤ μ.size := by
        rw [poolOff_succ, ← Nat.add_assoc]
        exact hfit
      have hl₁ : LookedBelow μ (off + poolOff pools n (poolId + 1)) h₁ := by
        intro b hb
        have hlt := hg.looked b hb
        have hext := sixteen_le_extent (pools poolId)
        rw [poolOff_succ]
        omega
      rw [laidPoolAddr_next hpool hfit]
      refine (ih (hg.gained.map_eq.trans hμ) (by omega) hnext (fun p hp => ?_) hl₁).mono
        (fun r h' hr => ⟨.cons hlt hg hr.1, hr.2⟩)
      simp only [IpcManagedChannel.setPool, Function.update_of_ne (show p ≠ poolId by omega)]
      exact hnull p (by omega)

/-- The queue of a managed channel. -/
theorem initChannelQueue_host {n : ℕ} (hμ : h.map = some μ) (q : IpcQueue)
    (hn : n ≤ ipcShmMaxBufsPerChannel) (hfit : off + 16 ≤ μ.size) (hl : LookedBelow μ off h) :
    HostWp (initChannelQueue q (laidData μ.os off n .channelQueue))
      (fun r h' => (r.1 ≠ 0 ∧ r.2 = q ∧ h' = h) ∨
        (r.1 = 0 ∧ r.2 = laidQueue μ.os off n ∧ Gained μ off (Within (μ.phys + off) 16) h h' ∧
          RingLive h'.mem (μ.phys + off) ∧ LookedBelow μ (off + 16) h')) h := by
  unfold initChannelQueue
  refine (ipcQueueInit_host hμ q .channelQueue hn hfit hl).bind ?_
  rintro ⟨err, q'⟩ h₁ (⟨he, rfl, rfl⟩ | ⟨he, rfl, hset, -⟩)
  · dsimp only at he ⊢
    rw [if_pos he]
    exact Or.inl ⟨he, rfl, rfl⟩
  · dsimp only at he ⊢
    rw [if_neg (not_not.mpr he)]
    exact store_done_host (hset.map_eq.trans hμ) hfit hset.gained (hset.looked hl)
      (fun h₂ hg hlive hl₂ => Or.inr ⟨rfl, rfl, hg, hlive, hl₂⟩)

/-- **What the initialization of a managed channel leaves.** -/
structure ManagedGained (μ : HostMap) (off : ℕ) (cfg : IpcShmManagedCfg)
    (mchan : IpcManagedChannel) (h h' : Host) : Prop where
  held : mchan.HeldAt μ h'.mem off cfg
  gained : Gained μ off (mchan.headers μ) h h'

theorem ManagedGained.null {cfg : IpcShmManagedCfg} (hnull : mchan.Null) :
    ManagedGained μ off cfg mchan h h :=
  ⟨Or.inl hnull, .refl⟩

/-- A channel whose queue is in its place, with the pools the loop left. -/
theorem ManagedGained.of_pools {cfg : IpcShmManagedCfg} {n : ℕ} {h₁ h' : Host}
    (hpools : cfg.pools = some pools) (hnum : mchan.numPools = cfg.numPools.toNat) (hpos : 0 < off)
    (hq : mchan.bdQueue = laidQueue μ.os off n) (hfit : off + 16 ≤ μ.size)
    (hg : Gained μ off (Within (μ.phys + off) 16) h h₁) (hlive : RingLive h₁.mem (μ.phys + off))
    (hrest : Gained μ (off + poolOff pools mchan.numPools 0)
      (fun a => ∃ p, 0 ≤ p ∧ p < mchan.numPools ∧ (mchan.pools p).bdQueue.header μ a) h₁ h')
    (hheld : ∀ p, 0 ≤ p → p < mchan.numPools →
      (mchan.pools p).bdQueue.HeldAt μ h'.mem (off + poolOff pools mchan.numPools p))
    (hafter : ∀ p, mchan.numPools ≤ p → (mchan.pools p).bdQueue.pushRing = 0) :
    ManagedGained μ off cfg mchan h h' := by
  have hfirst : off + 16 ≤ off + poolOff pools mchan.numPools 0 :=
    Nat.add_le_add_left (sixteen_le_poolOff _ _ _) off
  have hpush : mchan.bdQueue.pushRing ≠ 0 := by
    rw [hq]
    show μ.localShm + off ≠ 0
    omega
  refine ⟨Or.inr ⟨pools, hpools, hnum, hpush, Or.inr ⟨by rw [hq]; rfl, hfit, ?_⟩,
    fun p hp => hheld p (Nat.zero_le p) hp, hafter⟩, ?_⟩
  · exact hlive.frame (fun a _ ha => hrest.below a (by omega))
  · refine (hg.trans hrest (by omega)).mono (fun a ha => ?_)
    rcases ha with ha | ⟨p, -, hp, ha⟩
    · exact Or.inl (by rw [hq]; exact (laidQueue_header hpos).mpr ha)
    · exact Or.inr ⟨p, hp, ha⟩

/-- **`managed_channel_init`** at the offset `off`, with nothing held before. -/
theorem managedChannelInit_host {m : IpcShmManagedCfg} (hμ : h.map = some μ) (hpos : 0 < off)
    (hP : ∀ pools, m.pools = some pools →
      ManagedChecked μ.toShmMap (InWindow μ.toShmMap) off m pools)
    (hnull : mchan.Null) (hl : LookedBelow μ off h) :
    HostWp (managedChannelInit μ.os μ.size mchan (μ.localShm + off) (μ.remoteShm + off) m)
      (fun r h' => ManagedGained μ off m r.2 h h' ∧
        (r.1 = 0 → LookedBelow μ (off + (IpcShmChannelCfg.managed m).extent) h')) h := by
  have hinval : -EINVAL ≠ 0 := by decide
  have hnomem : -ENOMEM ≠ 0 := by decide
  unfold managedChannelInit
  split
  · exact ⟨.null hnull, fun h0 => absurd h0 hinval⟩
  · cases hpools : m.pools with
    | none => exact ⟨.null hnull, fun h0 => absurd h0 hinval⟩
    | some pools =>
      have hP := hP pools hpools
      dsimp only [ipcGetTotalBufPerChan]
      split
      · exact ⟨.null hnull, fun h0 => absurd h0 hinval⟩
      · rename_i hnp
        split
        · exact ⟨.null hnull, fun h0 => absurd h0 hinval⟩
        · rename_i htot
          obtain ⟨heq, hle, hu⟩ := totalBufs_of_ne htot
          rw [heq, hu]
          refine (initChannelQueue_host hμ _ hle hP.header.fits hl).bind ?_
          rintro ⟨err, q⟩ h₁ (⟨he, rfl, rfl⟩ | ⟨he, rfl, hg, hlive, hl₁⟩)
          · dsimp only at he ⊢
            rw [if_pos he]
            exact ⟨.null hnull, fun h0 => absurd h0 he⟩
          · dsimp only at he hg hlive ⊢
            rw [if_neg (not_not.mpr he), ipcQueueMemSize_laid hle]
            split
            · refine ⟨.of_pools hpools rfl hpos rfl hP.header.fits hg hlive .refl
                (fun p _ _ => Or.inl (hnull.2 p)) (fun p _ => hnull.2 p),
                fun h0 => absurd h0 hnomem⟩
            · rename_i hcheck
              have hring := hP.fits hle hcheck
              have hl₁ : LookedBelow μ (off + poolOff pools m.numPools.toNat 0) h₁ := by
                intro b hb
                have hsixteen := sixteen_le_poolOff pools m.numPools.toNat 0
                exact (hl₁ b hb).trans_le (by omega)
              show HostWp (initPools μ.os μ.size pools m.numPools.toNat 0
                ⟨u64 (μ.localShm + off + ringBytes (bufsOf pools m.numPools.toNat)),
                  u64 (μ.remoteShm + off + ringBytes (bufsOf pools m.numPools.toNat))⟩ _) _ _
              rw [laidPoolAddr_first hring]
              refine (initPools_host (hg.map_eq.trans hμ) (Nat.zero_add _) (Nat.not_lt.mp hnp)
                (by rw [poolOff_zero]; exact hring) hP.pool ?_ hl₁).mono ?_
              · exact fun p _ => hnull.2 p
              rintro ⟨err, c⟩ h' ⟨hps, hlook⟩
              have hnum : c.numPools = m.numPools.toNat := hps.same.numPools_eq
              refine ⟨.of_pools hpools hnum hpos hps.same.bdQueue_eq hP.header.fits hg hlive
                ?_ ?_ ?_, fun h0 => ?_⟩
              · rw [hnum]
                exact hps.gained
              · rw [hnum]
                exact hps.held
              · rw [hnum]
                exact hps.after
              · rw [IpcShmChannelCfg.extent, hpools]
                exact hlook h0

/-- **What the initialization of a channel leaves.** -/
structure ChannelGained (μ : HostMap) (off : ℕ) (cc : IpcShmChannelCfg) (chan : IpcShmChannel)
    (h h' : Host) : Prop where
  held : chan.HeldAt μ h'.mem off cc
  gained : Gained μ off (chan.headers μ cc.type) h h'

theorem IpcManagedChannel.Null.heldAt {m : ByteMem} (hnull : chan.mng.Null)
    (cc : IpcShmChannelCfg) :
    chan.HeldAt μ m off cc := by
  cases cc with
  | managed cfg => exact Or.inl hnull
  | unmanaged cfg => exact ⟨Or.inl hnull.1, hnull.2⟩
  | invalid => exact hnull

theorem ChannelGained.null (hnull : chan.mng.Null) (cc : IpcShmChannelCfg) :
    ChannelGained μ off cc chan h h :=
  ⟨hnull.heldAt cc, .refl⟩

/-- **`unmanaged_channel_init`** at the offset `off`. It gives up on a remote
that is being initialized, with its pointers set and memory as it was. -/
theorem unmanagedChannelInit_host {u : IpcShmUnmanagedCfg} (hμ : h.map = some μ) (hpos : 0 < off)
    (hfit : off + 12 ≤ μ.size) (hnull : chan.mng.Null) (hl : LookedBelow μ off h) :
    HostWp (unmanagedChannelInit chan (μ.localShm + off) (μ.remoteShm + off) u)
      (fun r h' => ChannelGained μ off (.unmanaged u) r.2 h h' ∧ LookedBelow μ (off + 12) h')
      h := by
  -- the pointers are set and the header, if anything, was written
  have hset : ∀ (c : IpcShmChannel) (h' : Host), c.localMem = μ.localShm + off →
      c.mng.pools = chan.mng.pools → HeaderSet μ off 12 h h' →
      ChannelGained μ off (.unmanaged u) c h h' ∧ LookedBelow μ (off + 12) h' := by
    intro c h' hmem hps hs
    refine ⟨⟨⟨Or.inr ⟨hmem, hfit⟩, fun p => by rw [hps]; exact hnull.2 p⟩,
      hs.gained.mono (fun a ha => ⟨by rw [hmem]; omega, ?_⟩)⟩, hs.looked hl⟩
    rw [hmem, μ.addr_eq]
    exact ha
  unfold unmanagedChannelInit
  split
  · exact ⟨.null hnull _, fun b hb => (hl b hb).trans_le (by omega)⟩
  refine HeaderSet.refl.wp_look hμ hfit (i := 0) (by decide) (by decide) (fun v h₁ hs₁ _ _ => ?_)
  split
  · exact hset _ h₁ rfl rfl hs₁
  refine hs₁.wp_store hμ hfit (i := 0) (by decide) (fun h₂ hs₂ _ => ?_)
  refine hs₂.wp_look hμ hfit (i := 0) (by decide) (by decide) (fun v h₃ hs₃ _ _ => ?_)
  split
  · refine hs₃.wp_look hμ hfit (by decide) (by decide) (fun r h₄ hs₄ _ _ => ?_)
    refine hs₄.wp_store hμ hfit (by decide) (fun h₅ hs₅ _ => ?_)
    refine hs₅.wp_look hμ hfit (by decide) (by decide) (fun t h₆ hs₆ _ _ => ?_)
    refine hs₆.wp_store hμ hfit (by decide) (fun h₇ hs₇ _ => ?_)
    exact hs₇.wp_store hμ hfit (i := 0) (by decide) (fun h₈ hs₈ _ => hset _ h₈ rfl rfl hs₈)
  · refine hs₃.wp_store hμ hfit (by decide) (fun h₄ hs₄ _ => ?_)
    refine hs₄.wp_store hμ hfit (by decide) (fun h₅ hs₅ _ => ?_)
    exact hs₅.wp_store hμ hfit (i := 0) (by decide) (fun h₆ hs₆ _ => hset _ h₆ rfl rfl hs₆)

/-- **`ipc_shm_init_channels`** at the offset `off`, with nothing held before. -/
theorem ipcShmInitChannels_host {cc : IpcShmChannelCfg} (hμ : h.map = some μ) (c : ℕ)
    (hpos : 0 < off) (hP : ChannelChecked μ.toShmMap (InWindow μ.toShmMap) off cc)
    (hnull : chan.mng.Null) (hl : LookedBelow μ off h) :
    HostWp (ipcShmInitChannels μ.os μ.size chan c (μ.localShm + off) (μ.remoteShm + off) (some cc))
      (fun r h' => ChannelGained μ off cc r.2 h h' ∧
        (r.1 = 0 → LookedBelow μ (off + cc.extent) h')) h := by
  have hnull' : ∀ type, ({ chan with id := c, type := type } : IpcShmChannel).mng.Null :=
    fun _ => hnull
  unfold ipcShmInitChannels
  cases cc with
  | managed m =>
    exact (managedChannelInit_host hμ hpos hP hnull hl).bind
      (fun r h' ⟨hg, hlook⟩ => ⟨⟨hg.held, hg.gained⟩, hlook⟩)
  | unmanaged u =>
    have hext : (IpcShmChannelCfg.unmanaged u).extent = 16 + u.size.toNat := rfl
    have hfit := hP.2
    refine (unmanagedChannelInit_host hμ hpos (by omega) (hnull' _) hl).mono
      (fun r h' ⟨hg, hlook⟩ => ⟨hg, fun _ b hb => (hlook b hb).trans_le (by omega)⟩)
  | invalid => exact ⟨.null (hnull' _) _, fun h0 => absurd h0 (show -EINVAL ≠ 0 by decide)⟩

/-- The same in its place in the loop. -/
theorem initChannel_host {cfg : IpcShmCfg} {c : ℕ} (hμ : h.map = some μ)
    (hc : c < cfg.numChannels.toNat) (hstart : cfg.chanOff c ≤ μ.size)
    (hP : ChannelsChecked μ.toShmMap (InWindow μ.toShmMap) cfg) (hnull : chan.mng.Null)
    (hl : LookedBelow μ (cfg.chanOff c) h) :
    HostWp (ipcShmInitChannels μ.os μ.size chan c (μ.localShm + cfg.chanOff c)
        (μ.remoteShm + cfg.chanOff c) (cfg.channels.map (fun f => f c)))
      (fun r h' => ChannelGained μ (cfg.chanOff c) (cfg.chan c) r.2 h h' ∧
        (r.1 = 0 → LookedBelow μ (cfg.chanOff (c + 1)) h')) h := by
  have hpos : 0 < cfg.chanOff c := by
    unfold IpcShmCfg.chanOff sizeofIpcShmGlobal
    omega
  have hP := hP c hc hstart
  rw [cfg.chanOff_succ]
  generalize cfg.chanOff c = off at *
  unfold IpcShmCfg.chan at *
  cases hch : cfg.channels with
  | none => exact ⟨.null hnull _, fun h0 => absurd h0 (show -EINVAL ≠ 0 by decide)⟩
  | some f =>
    rw [hch] at hP
    exact ipcShmInitChannels_host hμ c hpos hP hnull hl

/-- **What the loop over the channels from `c` on leaves.** -/
structure ChannelsGained (μ : HostMap) (cfg : IpcShmCfg) (c : ℕ) (priv priv' : IpcShmPriv)
    (h h' : Host) : Prop where
  same : priv.SameHeader priv'
  before : ∀ c', c' < c → priv'.channels c' = priv.channels c'
  after : ∀ c', cfg.numChannels.toNat ≤ c' → (priv'.channels c').mng.Null
  held : ∀ c', c ≤ c' → c' < cfg.numChannels.toNat →
    (priv'.channels c').HeldAt μ h'.mem (cfg.chanOff c') (cfg.chan c')
  gained : Gained μ (cfg.chanOff c) (fun a => ∃ c', c ≤ c' ∧ c' < cfg.numChannels.toNat ∧
    (priv'.channels c').headers μ (cfg.chan c').type a) h h'

/-- The loop stops at the channel it has just initialized. -/
theorem ChannelsGained.stop {cfg : IpcShmCfg} {c : ℕ} {priv : IpcShmPriv} {h' : Host}
    (hlt : c < cfg.numChannels.toNat) (hnull : ∀ c', c ≤ c' → (priv.channels c').mng.Null)
    (hg : ChannelGained μ (cfg.chanOff c) (cfg.chan c) chan h h') :
    ChannelsGained μ cfg c priv (priv.setChannel c chan) h h' where
  same := ⟨rfl, rfl, rfl⟩
  before := fun c' hc' => Function.update_of_ne (Nat.ne_of_lt hc') _ _
  after := fun c' hc' => by
    simp only [IpcShmPriv.setChannel, Function.update_of_ne (show c' ≠ c by omega)]
    exact hnull c' (by omega)
  held := fun c' hc' _ => by
    by_cases heq : c' = c
    · subst heq
      simp only [IpcShmPriv.setChannel, Function.update_self]
      exact hg.held
    · simp only [IpcShmPriv.setChannel, Function.update_of_ne heq]
      exact (hnull c' hc').heldAt _
  gained := hg.gained.mono (fun a ha => ⟨c, Nat.le_refl _, hlt, by
    simp only [IpcShmPriv.setChannel, Function.update_self]
    exact ha⟩)

/-- One channel, then the channels after it. -/
theorem ChannelsGained.cons {cfg : IpcShmCfg} {c : ℕ} {priv priv' : IpcShmPriv} {h₁ h' : Host}
    (hlt : c < cfg.numChannels.toNat) (hg : ChannelGained μ (cfg.chanOff c) (cfg.chan c) chan h h₁)
    (hrest : ChannelsGained μ cfg (c + 1) (priv.setChannel c chan) priv' h₁ h') :
    ChannelsGained μ cfg c priv priv' h h' := by
  have hnext := cfg.chanOff_succ c
  have hchan : priv'.channels c = chan :=
    (hrest.before c (Nat.lt_succ_self _)).trans (Function.update_self ..)
  refine ⟨⟨hrest.same.shmSize_eq, hrest.same.numChannels_eq, hrest.same.global_eq⟩,
    fun c' hc' => (hrest.before c' (by omega)).trans (Function.update_of_ne (Nat.ne_of_lt hc') _ _),
    hrest.after, fun c' hc' hlt' => ?_, ?_⟩
  · by_cases heq : c' = c
    · subst heq
      rw [hchan]
      exact hg.held.frame (fun a ha => hrest.gained.below a (by have := ha.2; omega))
    · exact hrest.held c' (by omega) hlt'
  · refine (hg.gained.trans hrest.gained (by omega)).mono (fun a ha => ?_)
    rcases ha with ha | ⟨c', hc', hlt', ha⟩
    · exact ⟨c, Nat.le_refl _, hlt, hchan ▸ ha⟩
    · exact ⟨c', by omega, hlt', ha⟩

/-- **The loop over the channels.** -/
theorem initChannels_host {cfg : IpcShmCfg} {k c : ℕ} {priv : IpcShmPriv} (hμ : h.map = some μ)
    (hk : c + k = cfg.numChannels.toNat) (hsize : μ.size < 2 ^ 32) (hshm : priv.shmSize = μ.size)
    (hstart : cfg.chanOff c ≤ μ.size)
    (hP : ChannelsChecked μ.toShmMap (InWindow μ.toShmMap) cfg)
    (hnull : ∀ c', c ≤ c' → (priv.channels c').mng.Null) (hl : LookedBelow μ (cfg.chanOff c) h) :
    HostWp (initChannels μ.os cfg.channels k c (μ.localShm + cfg.chanOff c)
        (μ.remoteShm + cfg.chanOff c) priv)
      (fun r h' => ChannelsGained μ cfg c priv r.2 h h') h := by
  induction k generalizing c priv h with
  | zero =>
    obtain rfl : c = cfg.numChannels.toNat := by omega
    exact ⟨⟨rfl, rfl, rfl⟩, fun _ _ => rfl, hnull,
      fun c' hc' hlt => absurd hlt (Nat.not_lt.mpr hc'), .refl⟩
  | succ k ih =>
    have hlt : c < cfg.numChannels.toNat := by omega
    rw [initChannels, hshm]
    refine ((initChannel_host hμ hlt hstart hP (hnull c (Nat.le_refl c)) hl).and_always
      (initChannel_always hlt _ hstart hP)).bind ?_
    rintro ⟨err, chan⟩ h₁ ⟨⟨hg, hlook⟩, hout⟩
    dsimp only at hg hlook ⊢
    split
    · exact .stop hlt hnull hg
    · rename_i he
      obtain ⟨hid, hlaid⟩ := hout.ready (not_not.mp he)
      have hnext : cfg.chanOff (c + 1) ≤ μ.size := by
        rw [cfg.chanOff_succ]
        exact (hout.fits (not_not.mp he)).1
      obtain ⟨hl₁, hr₁⟩ := chanAddr_next hlaid hsize hnext
      rw [hl₁, hr₁]
      have hshm' : (priv.setChannel c chan).shmSize = μ.size := hshm
      refine (ih (hg.gained.map_eq.trans hμ) (by omega) hshm' hnext (fun c' hc' => ?_)
        (hlook (not_not.mp he))).mono (fun r h' hrest => .cons hlt hg hrest)
      simp only [IpcShmPriv.setChannel, Function.update_of_ne (show c' ≠ c by omega)]
      exact hnull c' (by omega)

end Init
