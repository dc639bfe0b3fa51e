import IpcShm.SharedQueues
import IpcShm.Interference
import IpcShm.QueueInit

/-!
# What initialization leaves in memory

A call of `ipc_shm_init_instance` that runs alone and succeeds, seen in the
window it writes. Every ring of the instance is marked initialized. The write
index is the read index of the other peer, so that what is pushed from now on
is what the other peer pops next: nothing yet for a channel, all buffers for a
pool. The read index is placed behind whatever the other peer has pushed to a
channel, and at the oldest slot of a pool.

The other window is not written, and the own one only in the rings and
headers of the channels: that is known from where the program may store
(`frame_of_quiet`), and does not have to be followed along the run.
-/

/-- The bytes of the descriptor of a buffer. -/
def bdBytes (x : BufId) (size : ℕ) : List UInt8 :=
  IpcShmBd.encode { poolId := x.1, bufId := x.2, dataSize := size }

@[simp] theorem bdBytes_length (x : BufId) (size : ℕ) : (bdBytes x size).length = 8 :=
  IpcShmBd.encode_length _

/-! ## Frames from stores -/

section Frame

variable {μ : ShmMap} {s : Side} {P : ℕ → ℕ → Prop}

/-- Everything stored through `P` lies in the local window. -/
def StaysLocal (μ : ShmMap) (P : ℕ → ℕ → Prop) : Prop :=
  ∀ a k, P a k → μ.localShm ≤ a ∧ a + k ≤ μ.localShm + μ.size

/-- No store through `P` touches the byte at offset `b`. -/
def Untouched (μ : ShmMap) (P : ℕ → ℕ → Prop) (b : ℕ) : Prop :=
  ∀ a k, P a k → μ.localShm + b < a ∨ a + k ≤ μ.localShm + b

theorem memHandle_frame (hP : StaysLocal μ P) {o : Op} (ho : Quiet P o) {shm shm' : Shm}
    {r : o.Ret} (hr : memHandle μ s o shm = some (r, shm')) :
    shm' s.other = shm s.other ∧ ∀ b, Untouched μ P b → shm' s b = shm s b := by
  have hlocate : ∀ a k, P a k → μ.locate a k = some (true, a - μ.localShm) := fun a k h => by
    rw [ShmMap.locate, if_pos (hP a k h)]
  cases o with
  | store n a v =>
    rw [memHandle, hlocate a n ho] at hr
    obtain ⟨-, rfl⟩ := Prod.mk.inj (Option.some.inj hr)
    obtain ⟨h₁, h₂⟩ := hP a n ho
    refine ⟨Shm.set_other .., fun b hb => ?_⟩
    show shm.set s _ s b = _
    rw [Shm.set_self]
    exact ByteMem.store_of_not_mem _ (by have := hb a n ho; omega)
  | memcpyTo a bs =>
    rw [memHandle, hlocate a bs.length ho] at hr
    obtain ⟨-, rfl⟩ := Prod.mk.inj (Option.some.inj hr)
    obtain ⟨h₁, h₂⟩ := hP a bs.length ho
    refine ⟨Shm.set_other .., fun b hb => ?_⟩
    show shm.set s _ s b = _
    rw [Shm.set_self]
    exact ByteMem.write_of_not_mem _ (by have := hb a bs.length ho; omega)
  | load n a =>
    obtain ⟨w, -, hw⟩ := Option.map_eq_some_iff.mp hr
    obtain ⟨-, rfl⟩ := Prod.mk.inj hw
    exact ⟨rfl, fun _ _ => rfl⟩
  | memcpyFrom a n =>
    obtain ⟨w, -, hw⟩ := Option.map_eq_some_iff.mp hr
    obtain ⟨-, rfl⟩ := Prod.mk.inj hw
    exact ⟨rfl, fun _ _ => rfl⟩
  | poolsOutOfBounds i => exact False.elim ho
  | undefinedBehaviour => exact False.elim ho
  | rxCb _ _ _ _ _ _ => exact False.elim ho
  | rxCbUnmanaged _ _ _ _ _ => exact False.elim ho
  | ipcHwInit _ _ | ipcHwFree _ | ipcHwIrqEnable _ | ipcHwIrqDisable _ | ipcHwIrqNotify _
  | ipcOsInit _ _ | ipcOsFree _ =>
    obtain ⟨-, rfl⟩ := Prod.mk.inj (Option.some.inj hr)
    exact ⟨rfl, fun _ _ => rfl⟩

/-- **A program leaves alone what it may not store to**, and the other window
altogether. -/
theorem frame_of_quiet {α : Type} {p : Drv α} {Q : α → Prop} (hP : StaysLocal μ P)
    (hp : p.Always (Env μ) (Quiet P) Q) {shm shm' : Shm} {r : α}
    (hrun : p.run (memHandle μ s) shm = some (r, shm')) :
    shm' s.other = shm s.other ∧ ∀ b, Untouched μ P b → shm' s b = shm s b := by
  induction p generalizing shm with
  | pure a =>
    obtain ⟨-, rfl⟩ := Prod.mk.inj (Option.some.inj hrun)
    exact ⟨rfl, fun _ _ => rfl⟩
  | op o k ih =>
    obtain ⟨⟨r₁, shm₁⟩, hr, hrun⟩ := Option.bind_eq_some_iff.mp hrun
    obtain ⟨ho, hb⟩ := memHandle_frame hP hp.1 hr
    obtain ⟨ho', hb'⟩ := ih r₁ (hp.2 r₁ (env_of_memHandle o shm r₁ shm₁ hr)) hrun
    exact ⟨ho'.trans ho, fun b hub => (hb' b hub).trans (hb b hub)⟩

/-- The ring at an offset of the window. -/
def InRing (μ : ShmMap) (off N a k : ℕ) : Prop :=
  Region.Contains { addr := μ.localShm + off, size := ringBytes N } a k

theorem staysLocal_inRing {off N : ℕ} (hfit : off + ringBytes N ≤ μ.size) :
    StaysLocal μ (InRing μ off N) := by
  intro a k h
  have h₁ : μ.localShm + off ≤ a := h.1
  have h₂ : a + k ≤ μ.localShm + off + ringBytes N := h.2
  omega

/-- Stores into one ring leave the others alone. -/
theorem untouched_inRing {off N off' N' b : ℕ}
    (hap : off + ringBytes N ≤ off' ∨ off' + ringBytes N' ≤ off) (hlo : off' ≤ b)
    (hhi : b < off' + ringBytes N') : Untouched μ (InRing μ off N) b := by
  intro a k h
  have h₁ : μ.localShm + off ≤ a := h.1
  have h₂ : a + k ≤ μ.localShm + off + ringBytes N := h.2
  omega

end Frame

/-! ## One ring -/

/-- The read index a queue starts with. -/
def newRead (ty : IpcShmQueueType) (remote : ByteMem) (off N : ℕ) : ℕ :=
  if remote.sentinel off = ipcQueueInitDone then
    adoptedRead ty (remote.writeIdx off) % (N + 1)
  else 0

/-- The ring of a peer one can initialize against: initialized, or cleared. -/
structure Adoptable (off N : ℕ) (remote : ByteMem) : Prop where
  read_lt : remote.readIdx off < N + 1
  start : remote.sentinel off = ipcQueueInitDone ∨ remote.readIdx off = 0

theorem Adoptable.cleared (off N : ℕ) : Adoptable off N (fun _ => 0) where
  read_lt := by
    rw [ByteMem.readIdx, ByteMem.load_cleared]
    exact Nat.succ_pos N
  start := Or.inr (ByteMem.load_cleared _ _)

/-- **A ring after its initialization**, holding `xs` for the other peer. -/
structure RingReset (off N : ℕ) (ty : IpcShmQueueType) (xs : List (List UInt8))
    (remote m : ByteMem) : Prop where
  done : m.sentinel off = ipcQueueInitDone
  holds : RingHolds off N 8 m remote xs
  read_eq : m.readIdx off = newRead ty remote off N

theorem RingReset.frame {off N : ℕ} {ty : IpcShmQueueType} {xs : List (List UInt8)}
    {remote m m' : ByteMem} (h : RingReset off N ty xs remote m)
    (hs : m.SameOn m' off (ringBytes N)) : RingReset off N ty xs remote m' :=
  ⟨hs.sentinel.trans h.done, h.holds.frame hs (ByteMem.SameOn.refl _ _ _),
    hs.readIdx.trans h.read_eq⟩

/-- An error is not a success. -/
theorem run_error_ne {α : Type} {μ : ShmMap} {s : Side} {shm shm' : Shm} {err : ℤ} {x x' : α}
    (he : err ≠ 0) :
    ¬(Program.pure (err, x) : Drv (ℤ × α)).run (memHandle μ s) shm = some ((0, x'), shm') :=
  fun h => he (Prod.mk.inj (Prod.mk.inj (Option.some.inj h)).1).1

section OneRing

variable {μ : ShmMap} {s : Side} {q : IpcQueue} {off N : ℕ} {shm shm' : Shm}
  {ty : IpcShmQueueType}

/-- **`ipc_queue_sync_index`** takes over the indexes of the other peer. -/
theorem ipcQueueSyncIndex_run (h : q.At μ off) (hM : q.elemNum = N + 1)
    (had : Adoptable off N (shm s.other))
    (hrun : (ipcQueueSyncIndex q ty).run (memHandle μ s) shm = some (0, shm')) :
    shm' s.other = shm s.other ∧ (shm' s).writeIdx off = (shm s.other).readIdx off ∧
      (shm' s).readIdx off = newRead ty (shm s.other) off N := by
  have hN := h.elemNum_lt
  rw [ipcQueueSyncIndex_eq h.headersAt ty shm (fun _ => by omega)] at hrun
  split at hrun
  · obtain ⟨he, -⟩ := Prod.mk.inj (Option.some.inj hrun)
    exact absurd he (by decide)
  obtain ⟨-, rfl⟩ := Prod.mk.inj (Option.some.inj hrun)
  have hread : startRead ty (shm s.other) off q.elemNum = newRead ty (shm s.other) off N := by
    rw [hM]
    rfl
  have hwrite : startWrite (shm s.other) off = (shm s.other).readIdx off := by
    unfold startWrite
    split
    · rfl
    · rename_i hdone
      exact (had.start.resolve_left hdone).symm
  have hlt : startRead ty (shm s.other) off q.elemNum < q.elemNum :=
    startRead_lt ty _ off (by omega)
  refine ⟨Shm.set_other _ _ _, ?_, ?_⟩
  · rw [Shm.set_self, ByteMem.writeIdx_withHeader _ (startWrite_lt _ _), hwrite]
  · rw [Shm.set_self, ByteMem.readIdx_withHeader _ (by omega), hread]

/-- **`ipc_queue_init`** empties the direction the queue pushes to. -/
theorem ipcQueueInit_run (hn : N ≤ ipcShmMaxBufsPerChannel) (hfit : off + ringBytes N ≤ μ.size)
    (had : Adoptable off N (shm s.other)) {q' : IpcQueue}
    (hrun : (ipcQueueInit q (laidData μ.os off N ty)).run (memHandle μ s) shm
      = some ((0, q'), shm')) :
    q' = laidQueue μ.os off N ∧ shm' s.other = shm s.other ∧
      RingHolds off N 8 (shm' s) (shm s.other) [] ∧
      (shm' s).readIdx off = newRead ty (shm s.other) off N := by
  have hq : q' = laidQueue μ.os off N :=
    (((ipcQueueInit_always (P := fun _ _ => True) q ty hn (fun _ _ _ => trivial)).of_returns
      (Program.returns_of_run env_of_memHandle hrun)).2 rfl).2
  unfold ipcQueueInit at hrun
  split at hrun
  · exact absurd hrun (run_error_ne (by decide))
  obtain ⟨err, shm₁, hsync, hrest⟩ := Program.run_bind_eq_some.mp hrun
  obtain ⟨he, rfl⟩ := Prod.mk.inj (Option.some.inj hrest)
  obtain ⟨rfl, rfl⟩ := Prod.mk.inj he
  rw [hq] at hsync
  obtain ⟨ho, hw, hr⟩ := ipcQueueSyncIndex_run (laidQueue_at μ hn hfit) rfl had hsync
  exact ⟨hq, ho, RingHolds.empty had.read_lt hw, hr⟩

/-- **The loop populating a pool queue**: `b` descriptors are there, `k` more
are pushed. -/
theorem pushFreeBds_run (h : q.At μ off) (hM : q.elemNum = N + 1) (hE : q.elemSize = 8)
    (poolId : ℕ) {k b : ℕ} (hk : b + k ≤ N)
    (hr : RingHolds off N 8 (shm s) (shm s.other)
      ((List.range b).map (fun i => bdBytes (poolId, i) 0))) :
    ∃ shm', (pushFreeBds q poolId k b).run (memHandle μ s) shm = some (0, shm') ∧
      shm' s.other = shm s.other ∧
      RingHolds off N 8 (shm' s) (shm s.other)
        ((List.range (b + k)).map (fun i => bdBytes (poolId, i) 0)) ∧
      (shm' s).readIdx off = (shm s).readIdx off := by
  have hN := h.elemNum_lt
  induction k generalizing b shm with
  | zero => exact ⟨shm, rfl, rfl, hr, rfl⟩
  | succ k ih =>
    have hlen : ((List.range b).map (fun i => bdBytes (poolId, i) 0)).length < N := by
      rw [List.length_map, List.length_range]
      omega
    have hx : (bdBytes (poolId, b) 0).length = q.elemSize := by rw [bdBytes_length, hE]
    have hpush := ipcQueuePush_run h hM (by rw [hE]; exact hr) hlen hx
    set m := (shm s).pushBack off q.elemNum q.elemSize (bdBytes (poolId, b) 0) with hm
    have hr' : RingHolds off N 8 (shm.set s m s) (shm.set s m s.other)
        ((List.range (b + 1)).map (fun i => bdBytes (poolId, i) 0)) := by
      rw [List.range_succ, List.map_append, List.map_singleton, Shm.set_self, Shm.set_other, hm,
        hM, hE]
      exact hr.pushBack hlen (by omega) (bdBytes_length (poolId, b) 0)
    obtain ⟨shm', hrun, ho, hr'', hread⟩ := ih (show b + 1 + k ≤ N by omega) hr'
    rw [Shm.set_other] at ho hr''
    refine ⟨shm', ?_, ho, ?_, ?_⟩
    · rw [pushFreeBds]
      exact (Program.run_bind_of hpush).trans hrun
    · rw [show b + 1 + k = b + (k + 1) by omega] at hr''
      exact hr''
    · rw [hread, Shm.set_self, hm, ByteMem.readIdx_pushBack]

/-- **`ipc_buf_pool_init`** leaves the descriptors of all buffers. -/
theorem ipcBufPoolInit_run {pool pool' : IpcShmPool} {p : IpcShmPoolCfg} {poolId : ℕ}
    (hfit : off + p.extent ≤ μ.size) (had : Adoptable off p.numBufs.toNat (shm s.other))
    (hrun : (ipcBufPoolInit μ.os μ.size pool poolId (laidPoolAddr μ.os off) p).run
      (memHandle μ s) shm = some ((0, pool'), shm')) :
    RingReset off p.numBufs.toNat .poolQueue
      ((List.range p.numBufs.toNat).map (fun i => bdBytes (poolId, i) 0))
      (shm s.other) (shm' s) := by
  unfold ipcBufPoolInit at hrun
  split at hrun
  · exact absurd hrun (run_error_ne (by decide))
  rename_i hmax
  have hn : p.numBufs.toNat ≤ ipcShmMaxBufsPerChannel :=
    (Nat.le_of_not_lt hmax).trans (by decide)
  have hring : off + ringBytes p.numBufs.toNat ≤ μ.size :=
    (Nat.add_le_add_left (Nat.le_add_right _ _) off).trans hfit
  obtain ⟨⟨err, q⟩, shm₁, hq, hrun⟩ := Program.run_bind_eq_some.mp hrun
  dsimp only at hrun
  split at hrun
  · rename_i hne
    exact absurd hrun (run_error_ne hne)
  rename_i hz
  obtain rfl : err = 0 := not_not.mp hz
  obtain ⟨rfl, ho, hempty, hread⟩ := ipcQueueInit_run hn hring had hq
  split at hrun
  · exact absurd hrun (run_error_ne (by decide))
  have hat := laidQueue_at μ hn hring
  rw [← ho] at hempty
  obtain ⟨shm₂, hpush, -, hholds, hread₂⟩ :=
    pushFreeBds_run hat rfl rfl poolId (Nat.le_of_eq (Nat.zero_add p.numBufs.toNat)) hempty
  rw [Nat.zero_add] at hholds
  rw [Program.run_bind_of hpush, if_neg (by decide), store64_bind,
    Program.run_op_of hat.store_pushSentinel] at hrun
  obtain ⟨-, rfl⟩ := Prod.mk.inj (Option.some.inj hrun)
  refine ⟨?_, ?_, ?_⟩
  · rw [Shm.set_self]
    exact ByteMem.sentinel_store_sentinel (by decide)
  · rw [Shm.set_self, ← ho]
    exact hholds.congr ByteMem.writeIdx_store_sentinel (fun _ _ => ByteMem.slot_store_sentinel) rfl
  · rw [Shm.set_self, ByteMem.readIdx_store_sentinel, hread₂, hread]

/-- **The initialization of a channel queue** leaves it empty. -/
theorem initChannelQueue_run {q' : IpcQueue} (hn : N ≤ ipcShmMaxBufsPerChannel)
    (hfit : off + ringBytes N ≤ μ.size) (had : Adoptable off N (shm s.other))
    (hrun : (initChannelQueue q (laidData μ.os off N .channelQueue)).run (memHandle μ s) shm
      = some ((0, q'), shm')) :
    RingReset off N .channelQueue [] (shm s.other) (shm' s) := by
  obtain ⟨⟨err, q₁⟩, shm₁, hq, hrun⟩ := Program.run_bind_eq_some.mp hrun
  dsimp only at hrun
  split at hrun
  · rename_i hne
    exact absurd hrun (run_error_ne hne)
  rename_i hz
  obtain rfl : err = 0 := not_not.mp hz
  obtain ⟨rfl, -, hempty, hread⟩ := ipcQueueInit_run hn hfit had hq
  rw [store64_bind, Program.run_op_of (laidQueue_at μ hn hfit).store_pushSentinel] at hrun
  obtain ⟨-, rfl⟩ := Prod.mk.inj (Option.some.inj hrun)
  refine ⟨?_, ?_, ?_⟩
  · rw [Shm.set_self]
    exact ByteMem.sentinel_store_sentinel (by decide)
  · rw [Shm.set_self]
    exact hempty.congr ByteMem.writeIdx_store_sentinel (fun _ _ => ByteMem.slot_store_sentinel) rfl
  · rw [Shm.set_self, ByteMem.readIdx_store_sentinel, hread]

end OneRing

/-! ## All rings -/

/-- The kind of a queue. -/
def QueueId.type : QueueId → IpcShmQueueType
  | .chan _ => .channelQueue
  | .pool _ _ => .poolQueue

/-- What initialization puts into a queue: nothing, or all buffers. -/
def IpcShmCfg.initial (cfg : IpcShmCfg) : QueueId → List (List UInt8)
  | .chan _ => []
  | .pool c p => (List.range (cfg.queueCap (.pool c p))).map (fun i => bdBytes (p, i) 0)

/-- **The rings of `S` are initialized**, and nothing happens to the others. -/
structure Resets (cfg : IpcShmCfg) (s : Side) (S : QueueId → Prop) (shm shm' : Shm) : Prop where
  other : shm' s.other = shm s.other
  reset : ∀ id, cfg.HasQueue id → S id →
    RingReset (cfg.queueOff id) (cfg.queueCap id) id.type (cfg.initial id) (shm s.other) (shm' s)
  frame : ∀ id, cfg.HasQueue id → ¬S id →
    (shm s).SameOn (shm' s) (cfg.queueOff id) (ringBytes (cfg.queueCap id))

namespace Resets

variable {cfg : IpcShmCfg} {s : Side} {S S' : QueueId → Prop} {shm shm₁ shm' : Shm}

theorem trans (h : Resets cfg s S shm shm₁) (h' : Resets cfg s S' shm₁ shm') :
    Resets cfg s (fun id => S id ∨ S' id) shm shm' where
  other := h'.other.trans h.other
  reset := fun id hid hS => by
    by_cases hS' : S' id
    · rw [← h.other]
      exact h'.reset id hid hS'
    · exact (h.reset id hid (hS.resolve_right hS')).frame (h'.frame id hid hS')
  frame := fun id hid hS a ha ha' =>
    (h'.frame id hid (fun h => hS (Or.inr h)) a ha ha').trans
      (h.frame id hid (fun h => hS (Or.inl h)) a ha ha')

theorem congr (h : Resets cfg s S shm shm') (hS : ∀ id, cfg.HasQueue id → (S' id ↔ S id)) :
    Resets cfg s S' shm shm' where
  other := h.other
  reset := fun id hid hs => h.reset id hid ((hS id hid).mp hs)
  frame := fun id hid hs => h.frame id hid (fun h => hs ((hS id hid).mpr h))

theorem refl (hS : ∀ id, cfg.HasQueue id → ¬S id) : Resets cfg s S shm shm where
  other := rfl
  reset := fun id hid hs => absurd hs (hS id hid)
  frame := fun _ _ _ => ByteMem.SameOn.refl _ _ _

variable {μ : ShmMap} {α : Type} {p : Drv α} {Q : α → Prop} {r : α}

/-- One ring is initialized by a program that stores in that ring. -/
theorem single (hg : cfg.PoolsGiven) (hfit : cfg.footprint ≤ μ.size) {id : QueueId}
    (hid : cfg.HasQueue id)
    (hp : p.Always (Env μ) (Quiet (InRing μ (cfg.queueOff id) (cfg.queueCap id))) Q)
    (hrun : p.run (memHandle μ s) shm = some (r, shm'))
    (hreset : RingReset (cfg.queueOff id) (cfg.queueCap id) id.type (cfg.initial id)
      (shm s.other) (shm' s)) :
    Resets cfg s (fun id' => id' = id) shm shm' := by
  obtain ⟨ho, hb⟩ := frame_of_quiet
    (staysLocal_inRing ((cfg.queue_bounds hg hid).2.trans hfit)) hp hrun
  refine ⟨ho, fun id' _ he => ?_, fun id' hid' hne a ha ha' => hb a ?_⟩
  · rw [he]
    exact hreset
  · exact untouched_inRing (cfg.queue_apart hg hid hid' (Ne.symm hne)) ha ha'

end Resets

section Channel

variable {cfg : IpcShmCfg} {μ : ShmMap} {s : Side} {c : ℕ} {m : IpcShmManagedCfg}
  {pools : ℕ → IpcShmPoolCfg} {shm shm' : Shm}

theorem IpcShmCfg.pool_eq (hm : cfg.chan c = .managed m) (hpools : m.pools = some pools) :
    cfg.pool c = pools := by
  funext p
  rw [IpcShmCfg.pool, hm, IpcShmChannelCfg.poolCfg, hpools]

theorem IpcShmCfg.numPools_eq (hm : cfg.chan c = .managed m) :
    (cfg.chan c).numPools = m.numPools.toNat := by
  rw [hm, IpcShmChannelCfg.numPools]

/-- All rings of an instance can be initialized against. -/
def AllAdoptable (cfg : IpcShmCfg) (remote : ByteMem) : Prop :=
  ∀ id, cfg.HasQueue id → Adoptable (cfg.queueOff id) (cfg.queueCap id) remote

/-- **The loop over the pools** initializes the rings of the pools from
`poolId` on. -/
theorem initPools_run (hg : cfg.PoolsGiven) (hfit : cfg.footprint ≤ μ.size)
    (hsize : μ.size < 2 ^ 32) (hc : c < cfg.numChannels.toNat) (hm : cfg.chan c = .managed m)
    (hpools : m.pools = some pools) {k poolId : ℕ} (hk : poolId + k = m.numPools.toNat)
    {mchan mchan' : IpcManagedChannel} (had : AllAdoptable cfg (shm s.other))
    (hrun : (initPools μ.os μ.size pools k poolId
        (laidPoolAddr μ.os (cfg.chanOff c + poolOff pools m.numPools.toNat poolId)) mchan).run
      (memHandle μ s) shm = some ((0, mchan'), shm')) :
    Resets cfg s (fun id => ∃ p, poolId ≤ p ∧ id = .pool c p) shm shm' := by
  induction k generalizing poolId mchan shm with
  | zero =>
    obtain ⟨-, rfl⟩ := Prod.mk.inj (Option.some.inj hrun)
    refine Resets.refl ?_
    rintro id hid ⟨p, hp, rfl⟩
    have hlt := hid.pool_lt
    rw [IpcShmCfg.numPools_eq hm] at hlt
    omega
  | succ k ih =>
    have hlt : poolId < m.numPools.toNat := by omega
    have hid : cfg.HasQueue (.pool c poolId) := ⟨hc, m, hm, hlt⟩
    have hoff : cfg.queueOff (.pool c poolId)
        = cfg.chanOff c + poolOff pools m.numPools.toNat poolId := by
      rw [IpcShmCfg.queueOff, IpcShmCfg.poolAt, IpcShmCfg.pool_eq hm hpools,
        IpcShmCfg.numPools_eq hm]
    have hcap : cfg.queueCap (.pool c poolId) = (pools poolId).numBufs.toNat := by
      rw [IpcShmCfg.queueCap, IpcShmCfg.pool_eq hm hpools]
    have hend : cfg.chanOff c + poolOff pools m.numPools.toNat poolId + (pools poolId).extent
        ≤ μ.size := by
      have h₁ := poolOff_add_extent_le pools m.numPools.toNat hlt
      have h₂ := cfg.chanOff_add_extent_le hc
      rw [hm, IpcShmChannelCfg.extent, hpools] at h₂
      unfold IpcShmCfg.footprint at hfit
      dsimp only at h₂
      omega
    obtain ⟨⟨err, pool⟩, shm₁, hpool, hrun⟩ := Program.run_bind_eq_some.mp hrun
    dsimp only at hrun
    split at hrun
    · rename_i hne
      exact absurd hrun (run_error_ne hne)
    rename_i hz
    obtain rfl : err = 0 := not_not.mp hz
    have hP : RingAllowed μ
        (InRing μ (cfg.queueOff (.pool c poolId)) (cfg.queueCap (.pool c poolId)))
        (cfg.chanOff c + poolOff pools m.numPools.toNat poolId) (pools poolId).numBufs.toNat := by
      rw [hoff, hcap]
      exact fun _ _ h => h
    have hlaid := ((ipcBufPoolInit_always poolId (.of_fit hsize hend hP)).of_returns
      (Program.returns_of_run env_of_memHandle hpool)).2 rfl |>.1
    have had' := had _ hid
    rw [hoff, hcap] at had'
    have hreset := ipcBufPoolInit_run hend had' hpool
    rw [← hoff, ← hcap] at hreset
    have hfirst : Resets cfg s (fun id => id = .pool c poolId) shm shm₁ :=
      Resets.single hg hfit hid (ipcBufPoolInit_always poolId (.of_fit hsize hend hP)) hpool hreset
    rw [laidPoolAddr_next hlaid hend] at hrun
    refine (hfirst.trans (ih (by omega) (by rw [hfirst.other]; exact had) hrun)).congr ?_
    refine fun id _ => ⟨?_, ?_⟩
    · rintro ⟨p, hp, rfl⟩
      rcases Nat.eq_or_lt_of_le hp with rfl | hlt
      · exact Or.inl rfl
      · exact Or.inr ⟨p, hlt, rfl⟩
    · rintro (rfl | ⟨p, hp, rfl⟩)
      · exact ⟨poolId, Nat.le_refl _, rfl⟩
      · exact ⟨p, by omega, rfl⟩

/-- **`managed_channel_init`** initializes the rings of its channel. -/
theorem managedChannelInit_run (hg : cfg.PoolsGiven) (hfit : cfg.footprint ≤ μ.size)
    (hsize : μ.size < 2 ^ 32) (hc : c < cfg.numChannels.toNat) (hm : cfg.chan c = .managed m)
    {mchan mchan' : IpcManagedChannel} (had : AllAdoptable cfg (shm s.other))
    (hrun : (managedChannelInit μ.os μ.size mchan (μ.localShm + cfg.chanOff c)
        (μ.remoteShm + cfg.chanOff c) m).run (memHandle μ s) shm = some ((0, mchan'), shm')) :
    Resets cfg s (fun id => id.chanId = c) shm shm' := by
  obtain ⟨pools, hpools⟩ := hg c hc m hm
  have hid : cfg.HasQueue (.chan c) := ⟨hc, m, hm⟩
  have hcap : cfg.queueCap (.chan c) = bufsOf pools m.numPools.toNat := by
    rw [IpcShmCfg.queueCap, IpcShmCfg.pool_eq hm hpools, IpcShmCfg.numPools_eq hm]
  have hring := (cfg.queue_bounds hg hid).2.trans hfit
  rw [hcap] at hring
  have hring : cfg.chanOff c + ringBytes (bufsOf pools m.numPools.toNat) ≤ μ.size := hring
  unfold managedChannelInit at hrun
  split at hrun
  · exact absurd hrun (run_error_ne (by decide))
  rw [hpools] at hrun
  dsimp only [ipcGetTotalBufPerChan] at hrun
  split at hrun
  · exact absurd hrun (run_error_ne (by decide))
  split at hrun
  · exact absurd hrun (run_error_ne (by decide))
  rename_i htot
  obtain ⟨heq, hle⟩ := totalBufs_eq pools m.numPools.toNat 0 0 (Nat.zero_le _) htot
  rw [Nat.zero_add] at heq hle
  have heq : totalBufs pools m.numPools.toNat 0 0 0 = bufsOf pools m.numPools.toNat := heq
  have hu : u16 (bufsOf pools m.numPools.toNat) = bufsOf pools m.numPools.toNat := by
    unfold ipcShmMaxBufsPerChannel at hle
    exact u16_of_lt (by omega)
  rw [heq, hu] at hrun
  obtain ⟨⟨err, q⟩, shm₁, hq, hrun⟩ := Program.run_bind_eq_some.mp hrun
  dsimp only at hrun
  split at hrun
  · rename_i hne
    exact absurd hrun (run_error_ne hne)
  rename_i hz
  obtain rfl : err = 0 := not_not.mp hz
  have hP : RingAllowed μ (InRing μ (cfg.queueOff (.chan c)) (cfg.queueCap (.chan c)))
      (cfg.chanOff c) (bufsOf pools m.numPools.toNat) := by
    rw [hcap]
    exact fun _ _ h => h
  obtain ⟨-, rfl⟩ := ((initChannelQueue_always _ hle hP.header).of_returns
    (Program.returns_of_run env_of_memHandle hq)).2 rfl
  have had' := had _ hid
  rw [hcap] at had'
  have hreset := initChannelQueue_run hle hring had' hq
  rw [← hcap] at hreset
  have hfirst : Resets cfg s (fun id => id = .chan c) shm shm₁ :=
    Resets.single hg hfit hid (initChannelQueue_always _ hle hP.header) hq hreset
  split at hrun
  · exact absurd hrun (run_error_ne (by decide))
  rw [ipcQueueMemSize_laid hle, laidPoolAddr_first hring] at hrun
  refine (hfirst.trans (initPools_run hg hfit hsize hc hm hpools (Nat.zero_add _)
    (by rw [hfirst.other]; exact had) hrun)).congr ?_
  intro id _
  cases id with
  | chan c' =>
    refine ⟨fun h => Or.inl (congrArg QueueId.chan h), ?_⟩
    rintro (h | ⟨p, -, h⟩)
    · exact QueueId.chan.inj h
    · cases h
  | pool c' p' =>
    refine ⟨fun h => Or.inr ⟨p', Nat.zero_le _, congrArg (QueueId.pool · p') h⟩, ?_⟩
    rintro (h | ⟨p, -, h⟩)
    · cases h
    · exact (QueueId.pool.inj h).1

theorem staysLocal_inCtrl (hfit : cfg.footprint ≤ μ.size) (hc : c < cfg.numChannels.toNat) :
    StaysLocal μ ((cfg.chan c).InCtrl μ.localShm (cfg.chanOff c)) := by
  rintro a k ⟨r, hr, h₁, h₂⟩
  obtain ⟨-, -, -, hend⟩ := cfg.layout_bounds hc (IpcShmChannelCfg.mem_layout_of_ctrl hr)
  have h₁ : μ.localShm + r.addr ≤ a := h₁
  have h₂ : a + k ≤ μ.localShm + r.addr + r.size := h₂
  omega

/-- Stores into the control regions of a channel leave the rings of the others
alone. -/
theorem untouched_inCtrl (hg : cfg.PoolsGiven) (hc : c < cfg.numChannels.toNat) {id : QueueId}
    (hid : cfg.HasQueue id) (hne : id.chanId ≠ c) {b : ℕ} (hlo : cfg.queueOff id ≤ b)
    (hhi : b < cfg.queueOff id + ringBytes (cfg.queueCap id)) :
    Untouched μ ((cfg.chan c).InCtrl μ.localShm (cfg.chanOff c)) b := by
  rintro a k ⟨r, hr, h₁, h₂⟩
  have hap : r.addr + r.size ≤ cfg.queueOff id ∨
      cfg.queueOff id + ringBytes (cfg.queueCap id) ≤ r.addr :=
    cfg.layout_apart hc hid.chan.1 hne (IpcShmChannelCfg.mem_layout_of_ctrl hr)
      (IpcShmCfg.queueRegion_mem_layout hg hid)
  have h₁ : μ.localShm + r.addr ≤ a := h₁
  have h₂ : a + k ≤ μ.localShm + r.addr + r.size := h₂
  omega

/-- **`ipc_shm_init_channels`** initializes the rings of its channel. -/
theorem ipcShmInitChannels_run (hg : cfg.PoolsGiven) (hfit : cfg.footprint ≤ μ.size)
    (hsize : μ.size < 2 ^ 32) (hc : c < cfg.numChannels.toNat) {chan chan' : IpcShmChannel}
    (had : AllAdoptable cfg (shm s.other))
    (hrun : (ipcShmInitChannels μ.os μ.size chan c (μ.localShm + cfg.chanOff c)
        (μ.remoteShm + cfg.chanOff c) (some (cfg.chan c))).run (memHandle μ s) shm
      = some ((0, chan'), shm')) :
    Resets cfg s (fun id => id.chanId = c) shm shm' := by
  cases hm : cfg.chan c with
  | managed m =>
    rw [hm] at hrun
    obtain ⟨⟨err, mng⟩, shm₁, hmng, hrun⟩ := Program.run_bind_eq_some.mp hrun
    obtain ⟨he, rfl⟩ := Prod.mk.inj (Option.some.inj hrun)
    obtain ⟨rfl, -⟩ := Prod.mk.inj he
    exact managedChannelInit_run hg hfit hsize hc hm had hmng
  | unmanaged u =>
    rw [hm] at hrun
    obtain ⟨ho, hb⟩ := frame_of_quiet (staysLocal_inCtrl hfit hc)
      (unmanagedChannelInit_always _ (headerAllowed (fun _ _ h => by rw [hm]; exact h))) hrun
    refine ⟨ho, fun id hid he => ?_,
      fun id hid hne a ha ha' => hb a (untouched_inCtrl hg hc hid hne ha ha')⟩
    obtain ⟨-, m, hm'⟩ := hid.chan
    rw [he, hm] at hm'
    exact nomatch hm'
  | invalid =>
    rw [hm] at hrun
    exact absurd hrun (run_error_ne (by decide))

end Channel

section Instance

variable {cfg : IpcShmCfg} {μ : ShmMap} {s : Side} {shm shm' : Shm}

/-- A program that stores nothing leaves memory as it is. -/
theorem eq_of_quiet {α : Type} {p : Drv α} {Q : α → Prop}
    (hp : p.Always (Env μ) (Quiet (fun _ _ => False)) Q) {r : α}
    (hrun : p.run (memHandle μ s) shm = some (r, shm')) : shm' = shm := by
  obtain ⟨ho, hb⟩ := frame_of_quiet (fun _ _ h => h.elim) hp hrun
  funext t
  rcases Side.eq_or_eq_other s t with rfl | rfl
  · exact funext (fun b => hb b (fun _ _ h => h.elim))
  · exact ho

theorem memHandle_store_header {v : ℕ} (h : 8 ≤ μ.size) :
    memHandle μ s (.store 8 μ.localShm v) shm
      = some ((), shm.set s ((shm s).store 8 0 v)) := by
  have hst : memHandle μ s (.store 8 (μ.localShm + 0) v) shm = _ :=
    memHandle_store_local (by omega)
  exact hst

/-- The header lies before all rings. -/
theorem Resets.storeHeader (hg : cfg.PoolsGiven) (v : ℕ) :
    Resets cfg s (fun _ => False) shm (shm.set s ((shm s).store 8 0 v)) where
  other := Shm.set_other ..
  reset := fun _ _ h => h.elim
  frame := fun id hid _ a ha _ => by
    rw [Shm.set_self]
    exact ByteMem.store_of_not_mem _ (by have := (cfg.queue_bounds hg hid).1; omega)

/-- **The loop over the channels** initializes the rings of the channels from
`c` on. -/
theorem initChannels_run (hg : cfg.PoolsGiven) (hfit : cfg.footprint ≤ μ.size)
    (hsize : μ.size < 2 ^ 32) {k c : ℕ} {priv priv' : IpcShmPriv}
    (hk : c + k = cfg.numChannels.toNat) (hshm : priv.shmSize = μ.size)
    (had : AllAdoptable cfg (shm s.other))
    (hrun : (initChannels μ.os cfg.channels k c (μ.localShm + cfg.chanOff c)
        (μ.remoteShm + cfg.chanOff c) priv).run (memHandle μ s) shm = some ((0, priv'), shm')) :
    Resets cfg s (fun id => c ≤ id.chanId) shm shm' := by
  induction k generalizing c priv shm with
  | zero =>
    obtain ⟨-, rfl⟩ := Prod.mk.inj (Option.some.inj hrun)
    refine Resets.refl (fun id hid hle => ?_)
    have := hid.chan.1
    omega
  | succ k ih =>
    have hlt : c < cfg.numChannels.toNat := by omega
    have hend : cfg.chanOff (c + 1) ≤ μ.size := (cfg.chanOff_mono hlt).trans hfit
    rw [initChannels, hshm] at hrun
    obtain ⟨⟨err, chan⟩, shm₁, hchan, hrun⟩ := Program.run_bind_eq_some.mp hrun
    dsimp only at hrun
    split at hrun
    · rename_i hne
      exact absurd hrun (run_error_ne hne)
    rename_i hz
    obtain rfl : err = 0 := not_not.mp hz
    have hchk : ChannelsChecked μ (fun _ _ => True) cfg :=
      ChannelsAllowed.checked (fun _ _ _ _ _ => trivial) hsize hfit
    obtain ⟨-, hl⟩ := ((initChannel_always hlt _ ((cfg.chanOff_mono hlt.le).trans hfit)
      hchk).of_returns (Program.returns_of_run env_of_memHandle hchan)).ready rfl
    obtain ⟨hl₁, hr₁⟩ := chanAddr_next hl hsize hend
    rw [hl₁, hr₁] at hrun
    have hsome : cfg.channels.map (fun f => f c) = some (cfg.chan c) := by
      unfold IpcShmCfg.chan
      cases hch : cfg.channels with
      | none =>
        rw [hch] at hchan
        exact absurd hchan (run_error_ne (by decide))
      | some f => rfl
    rw [hsome] at hchan
    have hfirst := ipcShmInitChannels_run hg hfit hsize hlt had hchan
    have hshm' : (priv.setChannel c chan).shmSize = μ.size := hshm
    refine (hfirst.trans (ih (by omega) hshm' (by rw [hfirst.other]; exact had) hrun)).congr ?_
    exact fun id _ => by omega

/-- **`ipc_shm_init_instance`** initializes every ring and marks the instance
ready. -/
theorem ipcShmInitInstance_run (hμ : μ.size = cfg.shmSize.toNat) (hfit : cfg.footprint ≤ μ.size)
    {d d' : Driver} {inst : ℕ} (had : AllAdoptable cfg (shm s.other))
    (hrun : (ipcShmInitInstance d inst (some cfg)).run (memHandle μ s) shm
      = some ((0, d'), shm')) :
    Resets cfg s (fun _ => True) shm shm' ∧ (shm' s).load 8 0 = ipcShmStateReady := by
  have hsize : μ.size < 2 ^ 32 := by
    rw [hμ]
    exact cfg.shmSize.toNat_lt
  have hg : cfg.PoolsGiven :=
    (ipcShmInitInstance_laid hμ hfit (Program.returns_of_run env_of_memHandle hrun)).2.poolsGiven
  have hhead : sizeofIpcShmGlobal = cfg.chanOff 0 := by simp [IpcShmCfg.chanOff]
  have hle : cfg.chanOff 0 ≤ cfg.footprint := cfg.chanOff_mono (Nat.zero_le _)
  have h8 : 8 ≤ μ.size := (Nat.le_of_eq hhead).trans (hle.trans hfit)
  have hl0 : μ.localShm + cfg.chanOff 0 < 2 ^ 64 := by
    have := μ.localShm_lt
    omega
  have hr0 : μ.remoteShm + cfg.chanOff 0 < 2 ^ 64 := by
    have := μ.remoteShm_lt
    omega
  obtain ⟨st, shm₁, hst, hrest⟩ := Program.run_bind_eq_some.mp hrun
  rw [eq_of_quiet (ipcInstanceIsFree_always (fun _ h => h) d inst) hst] at hrest
  split at hrest
  · exact absurd hrest (run_error_ne (by decide))
  dsimp only at hrest
  split at hrest
  · exact absurd hrest (run_error_ne (by decide))
  split at hrest
  · exact absurd hrest (run_error_ne (by decide))
  split at hrest
  · cases hrest
  rw [ipcHwInit_bind, Program.run_op_of rfl, if_neg (not_not.mpr rfl), ipcOsInit_bind,
    Program.run_op_of rfl] at hrest
  dsimp only at hrest
  rw [if_neg (not_not.mpr rfl), store64_bind, show μ.os.localShm = μ.localShm from rfl,
    Program.run_op_of (memHandle_store_header h8)] at hrest
  simp only [Driver.setOs, Driver.setPriv, Function.update_self] at hrest
  rw [hhead, u64_of_lt hl0,
    u64_of_lt (show μ.os.remoteShm + cfg.chanOff 0 < 2 ^ 64 from hr0)] at hrest
  obtain ⟨⟨err, priv⟩, shm₂, hchans, hrest⟩ := Program.run_bind_eq_some.mp hrest
  dsimp only at hrest
  split at hrest
  · rename_i hne
    obtain ⟨p, shm₃, -, hrest⟩ := Program.run_bind_eq_some.mp hrest
    rw [ipcOsFree_bind, Program.run_op_of rfl, ipcHwFree_bind, Program.run_op_of rfl] at hrest
    exact absurd hrest (run_error_ne hne)
  rename_i hz
  obtain rfl : err = 0 := not_not.mp hz
  have hchk : ChannelsChecked μ (fun _ _ => True) cfg :=
    ChannelsAllowed.checked (fun _ _ _ _ _ => trivial) hsize hfit
  have hsame := ((initChannels_always (Nat.zero_add _) hsize hμ.symm (hle.trans hfit)
    (fun c' hc' => absurd hc' (Nat.not_lt_zero c'))
    (fun c' hc' => absurd hc' (Nat.not_lt_zero c')) hchk).of_returns
      (Program.returns_of_run env_of_memHandle hchans)).same
  have hglobal : priv.global = μ.localShm := hsame.global_eq
  rw [ipcHwIrqEnable_bind, Program.run_op_of rfl, hglobal, store64_bind,
    Program.run_op_of (memHandle_store_header h8)] at hrest
  obtain ⟨-, rfl⟩ := Prod.mk.inj (Option.some.inj hrest)
  refine ⟨?_, ?_⟩
  · have hclear : Resets cfg s (fun _ => False) shm _ := Resets.storeHeader hg ipcShmStateClear
    have hall := initChannels_run hg hfit hsize (Nat.zero_add _) hμ.symm
      (by rw [hclear.other]; exact had) hchans
    refine ((hclear.trans hall).trans (Resets.storeHeader hg ipcShmStateReady)).congr ?_
    exact fun id _ => iff_of_true trivial (Or.inl (Or.inr (Nat.zero_le _)))
  · rw [Shm.set_self]
    exact ByteMem.load_store_self_of_lt _ (by decide)

end Instance

/-! ## Freeing -/

section Free

variable {cfg : IpcShmCfg} {μ : ShmMap} {s : Side} {c off : ℕ} {shm shm' : Shm}

/-- Whether a mapped instance is in use is up to its header. -/
theorem ipcInstanceIsFree_run {d : Driver} {inst : ℕ} (hl : (d.priv inst).Laid μ.os cfg)
    (hinst : inst < ipcShmMaxInstances) (h8 : 8 ≤ μ.size) :
    (ipcInstanceIsFree d inst).run (memHandle μ s) shm
      = some (if (shm s).load 8 0 = ipcShmStateClear then .free else .used, shm) := by
  have hload : memHandle μ s (.load 8 (μ.localShm + 0)) shm = some ((shm s).load 8 0, shm) :=
    memHandle_load_local (by omega)
  rw [Nat.add_zero] at hload
  have hglobal : (d.priv inst).global = μ.localShm := hl.global_eq
  rw [ipcInstanceIsFree, if_neg (Nat.not_le.mpr hinst), hglobal,
    if_neg (Nat.pos_iff_ne_zero.mp μ.localShm_pos), load64_bind, Program.run_op_of hload]
  split <;> rfl

theorem ipcInstanceIsFree_run_used {d : Driver} {inst : ℕ} (hl : (d.priv inst).Laid μ.os cfg)
    (hinst : inst < ipcShmMaxInstances) (h8 : 8 ≤ μ.size)
    (hused : (shm s).load 8 0 ≠ ipcShmStateClear) :
    (ipcInstanceIsFree d inst).run (memHandle μ s) shm = some (.used, shm) := by
  rw [ipcInstanceIsFree_run hl hinst h8, if_neg hused]

theorem ringIsLive_run {q : IpcQueue} (h : q.At μ off)
    (hd : (shm s).sentinel off = ipcQueueInitDone) :
    (ringIsLive q.pushRing).run (memHandle μ s) shm = some (true, shm) := by
  rw [ringIsLive, load64_bind, Program.run_op_of h.load_pushSentinel, if_pos hd]
  rfl

/-- **`ipc_queue_free`** clears the sentinel of a live ring. -/
theorem ipcQueueFree_run {q : IpcQueue} (h : q.At μ off)
    (hd : (shm s).sentinel off = ipcQueueInitDone) :
    ∃ q' shm', (ipcQueueFree q).run (memHandle μ s) shm = some (q', shm') ∧
      (shm' s).sentinel off = 0 := by
  rw [ipcQueueFree, if_neg h.pushRing_ne, Program.run_bind_of (ringIsLive_run h hd), if_pos rfl,
    store64_bind, Program.run_op_of h.store_pushSentinel, store32_bind,
    Program.run_op_of h.store_pushWrite, store32_bind, Program.run_op_of h.store_pushRead]
  refine ⟨_, _, rfl, ?_⟩
  simp only [Shm.set_self, ByteMem.sentinel_store_read, ByteMem.sentinel_store_write]
  exact ByteMem.sentinel_store_sentinel (by decide)

/-- **`ipc_shm_free_channel`** clears the sentinel of its channel queue. -/
theorem ipcShmFreeChannel_run (hg : cfg.PoolsGiven) (hfit : cfg.footprint ≤ μ.size)
    (hid : cfg.HasQueue (.chan c)) {chan chan' : IpcShmChannel}
    (hl : chan.Laid μ.os (cfg.chanOff c) (cfg.chan c))
    (hd : (shm s).sentinel (cfg.chanOff c) = ipcQueueInitDone)
    (hrun : (ipcShmFreeChannel chan (cfg.chan c).type).run (memHandle μ s) shm
      = some (chan', shm')) :
    (shm' s).sentinel (cfg.chanOff c) = 0 := by
  have hpl := hl.placed
  obtain ⟨hc, m, hm⟩ := id hid
  rw [hm] at hl hpl hrun
  obtain ⟨-, pools, hl⟩ := hl
  have hring := (cfg.queue_bounds hg hid).2.trans hfit
  have hcap : cfg.queueCap (.chan c) = bufsOf pools m.numPools.toNat := by
    rw [IpcShmCfg.queueCap, IpcShmCfg.pool_eq hm hl.pools_eq, IpcShmCfg.numPools_eq hm]
  have hat : chan.mng.bdQueue.At μ (cfg.chanOff c) := by
    rw [hl.bdQueue_eq, ← hcap]
    exact laidQueue_at μ (by rw [hcap]; exact hl.total_le) hring
  unfold ipcShmFreeChannel at hrun
  dsimp only [IpcShmChannelCfg.type] at hrun
  rw [if_pos hat.pushRing_ne] at hrun
  obtain ⟨mng, shm₁, hmng, hrun⟩ := Program.run_bind_eq_some.mp hrun
  obtain ⟨-, rfl⟩ := Prod.mk.inj (Option.some.inj hrun)
  obtain ⟨q', shm₂, hfree, hclear⟩ := ipcQueueFree_run hat hd
  rw [ipcShmFreeManagedChannel, Program.run_bind_of (ringIsLive_run hat hd), if_pos rfl,
    Program.run_bind_of hfree] at hmng
  -- the pools are freed in their own rings
  obtain ⟨hnum, -, hps⟩ := (IpcManagedChannel.placed_iff hl.pools_eq).mp hpl
  replace hnum := hnum hat.pushRing_ne
  have hps' : PoolsPlaced μ.os (cfg.chanOff c) m.numPools.toNat pools
    { chan.mng with bdQueue := q' } := hps
  have hid' : ∀ p, p < m.numPools.toNat → cfg.HasQueue (.pool c p) := fun p hp => ⟨hc, m, hm, hp⟩
  have hin : ∀ p, p < m.numPools.toNat →
      cfg.queueOff (.pool c p) = cfg.chanOff c + poolOff pools m.numPools.toNat p ∧
        cfg.queueCap (.pool c p) = (pools p).numBufs.toNat := fun p _ => by
    rw [IpcShmCfg.queueOff, IpcShmCfg.poolAt, IpcShmCfg.queueCap,
      IpcShmCfg.pool_eq hm hl.pools_eq, IpcShmCfg.numPools_eq hm]
    exact ⟨rfl, rfl⟩
  obtain ⟨-, hb⟩ := frame_of_quiet
    (P := fun a k => ∃ p, p < m.numPools.toNat ∧
      InRing μ (cfg.queueOff (.pool c p)) (cfg.queueCap (.pool c p)) a k)
    (by
      rintro a k ⟨p, hp, h⟩
      exact staysLocal_inRing ((cfg.queue_bounds hg (hid' p hp)).2.trans hfit) a k h)
    (freePools_always (fun p hp => (hps' p (by omega)).freeable
      (RingAllowed.header (fun a k h => ⟨p, by omega, by
        rw [(hin p (by omega)).1, (hin p (by omega)).2]; exact h⟩)))) hmng
  have hsame : (shm₂ s).SameOn (shm₁ s) (cfg.queueOff (.chan c))
      (ringBytes (cfg.queueCap (.chan c))) := by
    refine fun b hlo hhi => hb b ?_
    rintro a k ⟨p, hp, h⟩
    exact untouched_inRing (cfg.queue_apart hg (hid' p hp) hid QueueId.noConfusion) hlo hhi a k h
  exact hsame.sentinel.trans hclear

/-- **The loop freeing channels** clears the sentinels of the channels from `c`
on. -/
theorem freeChannels_run (hg : cfg.PoolsGiven) (hfit : cfg.footprint ≤ μ.size)
    {type : ℕ → IpcShmChannelType}
    (htype : ∀ c, c < cfg.numChannels.toNat → type c = (cfg.chan c).type) {k : ℕ}
    {priv priv' : IpcShmPriv} (hk : c + k = cfg.numChannels.toNat)
    (hl : ∀ c', c ≤ c' → c' < cfg.numChannels.toNat →
      (priv.channels c').Laid μ.os (cfg.chanOff c') (cfg.chan c'))
    (hd : ∀ c', c ≤ c' → cfg.HasQueue (.chan c') →
      (shm s).sentinel (cfg.chanOff c') = ipcQueueInitDone)
    (hrun : (freeChannels type k c priv).run (memHandle μ s) shm = some (priv', shm')) :
    ∀ c', cfg.HasQueue (.chan c') → (shm' s).sentinel (cfg.chanOff c')
      = if c ≤ c' then 0 else (shm s).sentinel (cfg.chanOff c') := by
  induction k generalizing c priv shm with
  | zero =>
    obtain ⟨-, rfl⟩ := Prod.mk.inj (Option.some.inj hrun)
    intro c' hid
    have := hid.1
    rw [if_neg (by omega)]
  | succ k ih =>
    have hc : c < cfg.numChannels.toNat := by omega
    rw [freeChannels, htype c hc] at hrun
    obtain ⟨chan, shm₁, hchan, hrun⟩ := Program.run_bind_eq_some.mp hrun
    have hlc := hl c (Nat.le_refl c) hc
    obtain ⟨-, hb⟩ := frame_of_quiet (staysLocal_inCtrl hfit hc)
      (ipcShmFreeChannel_always (hlc.placed.freeableAs (fun _ _ h => h))) hchan
    have hframe : ∀ c', c' ≠ c → cfg.HasQueue (.chan c') →
        (shm₁ s).sentinel (cfg.chanOff c') = (shm s).sentinel (cfg.chanOff c') :=
      fun c' hne hid => ByteMem.SameOn.sentinel (N := cfg.queueCap (.chan c')) (fun b hlo hhi =>
        hb b (untouched_inCtrl hg hc hid hne hlo hhi))
    have hrest := ih (by omega) (fun c' hle hlt => ?_) (fun c' hle hid => ?_) hrun
    · intro c' hid
      rw [hrest c' hid]
      rcases Nat.lt_trichotomy c' c with hlt | rfl | hgt
      · rw [if_neg (by omega), if_neg (by omega), hframe c' (by omega) hid]
      · rw [if_neg (by omega), if_pos (Nat.le_refl _)]
        exact ipcShmFreeChannel_run hg hfit hid hlc (hd _ (Nat.le_refl _) hid) hchan
      · rw [if_pos (by omega), if_pos (by omega)]
    · have hne : c' ≠ c := by omega
      simp only [IpcShmPriv.setChannel, Function.update_of_ne hne]
      exact hl c' (by omega) hlt
    · rw [hframe c' (by omega) hid]
      exact hd c' (by omega) hid

/-- **`ipc_shm_free_instance`** clears the header and the sentinels of the
channel queues, and forgets the instance. -/
theorem ipcShmFreeInstance_run (hfit : cfg.footprint ≤ μ.size) {d d' : Driver} {inst : ℕ}
    (hl : (d.priv inst).Laid μ.os cfg) (hinst : inst < ipcShmMaxInstances)
    (hready : (shm s).load 8 0 = ipcShmStateReady)
    (hd : ∀ c, cfg.HasQueue (.chan c) → (shm s).sentinel (cfg.chanOff c) = ipcQueueInitDone)
    (hrun : (ipcShmFreeInstance d inst).run (memHandle μ s) shm = some (d', shm')) :
    shm' s.other = shm s.other ∧ (shm' s).load 8 0 = ipcShmStateClear ∧
      (∀ c, cfg.HasQueue (.chan c) → (shm' s).sentinel (cfg.chanOff c) = 0) ∧
      (d'.priv inst).global = 0 := by
  have hg := hl.poolsGiven
  have h8 : 8 ≤ μ.size := by
    have hle : cfg.chanOff 0 ≤ cfg.footprint := cfg.chanOff_mono (Nat.zero_le _)
    have hhead : cfg.chanOff 0 = 8 := by simp [IpcShmCfg.chanOff, sizeofIpcShmGlobal]
    omega
  have hused : (shm s).load 8 0 ≠ ipcShmStateClear := by
    rw [hready]
    decide
  rw [ipcShmFreeInstance, Program.run_bind_of (ipcInstanceIsFree_run_used hl hinst h8 hused),
    if_neg (not_not.mpr rfl)] at hrun
  dsimp only at hrun
  rw [hl.global_eq, store64_bind, show μ.os.localShm = μ.localShm from rfl,
    Program.run_op_of (memHandle_store_header h8), ipcHwIrqDisable_bind,
    Program.run_op_of rfl] at hrun
  obtain ⟨priv, shm₁, hfree, hrun⟩ := Program.run_bind_eq_some.mp hrun
  rw [ipcOsFree_bind, Program.run_op_of rfl, ipcHwFree_bind, Program.run_op_of rfl] at hrun
  obtain ⟨rfl, rfl⟩ := Prod.mk.inj (Option.some.inj hrun)
  have hk : 0 + (d.priv inst).numChannels = cfg.numChannels.toNat := by
    rw [Nat.zero_add, hl.numChannels_eq]
  have htype : ∀ c, c < cfg.numChannels.toNat →
      ((d.priv inst).channels c).type = (cfg.chan c).type := fun c hc => hl.type_eq hc
  have hplaced : IpcShmPriv.Placed { d.priv inst with global := 0 } μ.os cfg := hl.placed
  have hhdr : Resets cfg s (fun _ => False) shm _ := Resets.storeHeader hg ipcShmStateClear
  have hall : ChannelsAllowed μ (fun a k => ∃ c, c < cfg.numChannels.toNat ∧
      (cfg.chan c).InCtrl μ.localShm (cfg.chanOff c) a k) cfg := fun c hc a k h => ⟨c, hc, h⟩
  have hfreeable : ∀ c, 0 ≤ c → c < 0 + (d.priv inst).numChannels →
      (({ d.priv inst with global := 0 } : IpcShmPriv).channels c).FreeableAs
        (fun a k => ∃ c, c < cfg.numChannels.toNat ∧
          (cfg.chan c).InCtrl μ.localShm (cfg.chanOff c) a k)
        ((d.priv inst).channels c).type := fun c _ hc => by
    rw [hk] at hc
    rw [htype c hc]
    exact hplaced.freeableAs hall hc
  have halw : (freeChannels _ _ _ _).Always (Env μ) (Quiet _) _ := freeChannels_always hfreeable
  have hlocal : StaysLocal μ (fun a k => ∃ c, c < cfg.numChannels.toNat ∧
      (cfg.chan c).InCtrl μ.localShm (cfg.chanOff c) a k) := by
    rintro a k ⟨c, hc, h⟩
    exact staysLocal_inCtrl hfit hc a k h
  obtain ⟨ho, hb⟩ := frame_of_quiet hlocal halw hfree
  refine ⟨ho.trans hhdr.other, ?_, ?_, ?_⟩
  · have hsame : ∀ i, i < 8 → shm₁ s (0 + i)
        = (shm.set s ((shm s).store 8 0 ipcShmStateClear)) s (0 + i) := by
      refine fun i hi => hb _ (fun a k => ?_)
      rintro ⟨c, hc, r, hr, h₁, -⟩
      have hlow := (cfg.layout_bounds hc (IpcShmChannelCfg.mem_layout_of_ctrl hr)).2.2.1
      have h₁ : μ.localShm + r.addr ≤ a := h₁
      have hlow : 8 ≤ r.addr := hlow
      omega
    rw [ByteMem.load_congr hsame, Shm.set_self]
    exact ByteMem.load_store_self_of_lt _ (by decide)
  · intro c hid
    have hl' : ∀ c', 0 ≤ c' → c' < cfg.numChannels.toNat →
        (({ d.priv inst with global := 0 } : IpcShmPriv).channels c').Laid μ.os (cfg.chanOff c')
          (cfg.chan c') := fun c' _ hc' => hl.chan c' hc'
    have hrest := freeChannels_run hg hfit htype hk hl' (fun c' _ hid' => ?_) hfree c hid
    · rw [hrest, if_pos (Nat.zero_le c)]
    · exact ((hhdr.frame (.chan c') hid' (fun h => h)).sentinel).trans (hd c' hid')
  · have hsame := (halw.of_returns (Program.returns_of_run env_of_memHandle hfree)).1
    show (Function.update d.priv inst priv inst).global = 0
    rw [Function.update_self]
    exact hsame.global_eq

end Free
