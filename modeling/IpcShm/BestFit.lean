import IpcShm.RoundTrip

/-!
# Acquiring the smallest buffer that fits

`ipc_shm_acquire_buf` walks over the pools of a channel and takes the head of
the first ring that is not empty, among the pools whose buffers are large
enough. Nothing in the walk compares the sizes of two pools. That the buffer
is the smallest one that fits is due to another function: the initialization
refuses a channel whose pools are not sorted by size (`AscendingPools`).

The walk pops before it knows that the buffer lies in the window, so a
descriptor could be lost. In a well-formed channel it is not: a descriptor
that names a buffer of its pool names one inside the window.
-/

/-- **A well-formed channel** on side `s`: its queues are marked initialized on
both sides, and the acquire ring of each pool holds descriptors of buffers of
the pool. -/
structure IpcShmCfg.WellFormed (cfg : IpcShmCfg) (s : Side) (shm : Shm) (c : ℕ)
    (xs : ℕ → List (List UInt8)) : Prop where
  done : ∀ id, cfg.HasQueue id → id.chanId = c → shm.Done (cfg.queueOff id)
  holds : ∀ p, cfg.HasQueue (.pool c p) →
    RingHolds (cfg.queueOff (.pool c p)) (cfg.queueCap (.pool c p)) 8 (shm s.other) (shm s) (xs p)
  named : ∀ p, cfg.HasQueue (.pool c p) → ∀ x ∈ xs p,
    (IpcShmBd.decode x).bufId < (cfg.pool c p).numBufs.toNat

/-- The pools of a managed channel that was accepted are sorted. -/
theorem IpcShmCfg.Accepted.bufSize_le {cfg : IpcShmCfg} {size c : ℕ} (h : cfg.Accepted size)
    (hg : cfg.PoolsGiven) {p q : ℕ} (hpq : p ≤ q) (hq : cfg.HasQueue (.pool c q)) :
    (cfg.pool c p).bufSize.toNat ≤ (cfg.pool c q).bufSize.toNat := by
  obtain ⟨hc, m, hm, hlt⟩ := hq
  obtain ⟨pools, hpools⟩ := hg c hc m hm
  have hasc := h.ascending c hc
  rw [hm] at hasc
  rw [IpcShmCfg.pool_eq hm hpools]
  exact hasc pools hpools p q hpq hlt

section Pop

variable {cfg : IpcShmCfg} {s : Side} {shm : Shm} {c p : ℕ} {xs : ℕ → List (List UInt8)}
  {x : List UInt8} {rest : List (List UInt8)}

/-- **Popping the head of one ring** leaves the channel well formed, with the
other rings as they were. -/
theorem IpcShmCfg.WellFormed.pop (h : cfg.WellFormed s shm c xs) (hg : cfg.PoolsGiven)
    (hid : cfg.HasQueue (.pool c p)) (hcap : cfg.queueCap (.pool c p) < 2 ^ 16)
    (hx : xs p = x :: rest) :
    cfg.WellFormed s (shm.set s ((shm s).popFront (cfg.queueOff (.pool c p))
      (cfg.queueCap (.pool c p) + 1))) c (Function.update xs p rest) where
  done := by
    intro id hid' hc t
    have hframe : ((shm s).popFront (cfg.queueOff (.pool c p))
        (cfg.queueCap (.pool c p) + 1)).sentinel (cfg.queueOff id)
          = (shm s).sentinel (cfg.queueOff id) := by
      by_cases heq : id = .pool c p
      · rw [heq, ByteMem.sentinel_popFront]
      · exact (ByteMem.sameOn_popFront (cfg.queue_apart hg hid hid' (Ne.symm heq))).sentinel
    rcases Side.eq_or_eq_other s t with rfl | rfl
    · rw [Shm.set_self, hframe]
      exact h.done id hid' hc _
    · rw [Shm.set_other]
      exact h.done id hid' hc _
  holds := by
    intro q hq
    rw [Shm.set_self, Shm.set_other]
    by_cases heq : q = p
    · subst heq
      rw [Function.update_self]
      have hring := h.holds q hq
      rw [hx] at hring
      exact hring.popFront hcap
    · rw [Function.update_of_ne heq]
      have hne : QueueId.pool c p ≠ .pool c q := fun h => heq (QueueId.pool.inj h).2.symm
      exact (h.holds q hq).frame (ByteMem.SameOn.refl _ _ _)
        (ByteMem.sameOn_popFront (cfg.queue_apart hg hid hq hne))
  named := by
    intro q hq y hy
    by_cases heq : q = p
    · subst heq
      rw [Function.update_self] at hy
      exact h.named q hq y (hx ▸ List.mem_cons_of_mem x hy)
    · rw [Function.update_of_ne heq] at hy
      exact h.named q hq y hy

end Pop

namespace Peers

variable {P : Peers} {s : Side} {d : Driver} {shm : Shm} {c memSize : ℕ}

/-- **An acquire is the walk over the pools**, once its checks have passed. -/
theorem ipcShmAcquireBuf_walk (hup : P.Up s d) (hused : (shm s).load 8 0 ≠ ipcShmStateClear)
    (hready : (shm s.other).load 8 0 = ipcShmStateReady) (hid : P.Has (.chan c))
    (hdone : P.ChannelDone shm c) (hsize : 1 ≤ memSize)
    {found : Option (IpcShmPool × IpcShmBd)} {shm' : Shm}
    (hrun : (acquireFrom ((d.priv (P.inst s)).channels c).mng memSize
      ((d.priv (P.inst s)).channels c).mng.numPools 0).run (memHandle (P.μ s) s) shm
        = some (found, shm')) :
    (ipcShmAcquireBuf d (P.inst s) c memSize).run (memHandle (P.μ s) s) shm
      = some (found.elim 0 (fun r => acquiredAddr (d.os (P.inst s)) (d.priv (P.inst s)).shmSize
          r.1 r.2), shm') := by
  have hget : getManagedChan d (P.inst s) c = some ((d.priv (P.inst s)).channels c).mng := by
    have hlt : ¬(d.priv (P.inst s)).numChannels ≤ c := by
      rw [hup.numChannels_eq]
      exact Nat.not_le.mpr hid.1
    unfold getManagedChan getChannel
    rw [if_neg hlt]
    exact if_neg (not_not.mpr (hup.managed hid).1)
  rw [ipcShmAcquireBuf, Program.run_bind_of (isRemoteReady_run hup hused hready),
    if_neg (not_not.mpr rfl), hget]
  dsimp only
  rw [if_neg (by omega), Program.run_bind_of (ipcCheckMchanIntegrity_run hup hdone hid),
    if_neg (not_not.mpr rfl), Program.run_bind_of hrun]
  cases found <;> rfl

end Peers

/-- **Best fit.** On an instance in use whose configuration was accepted and
fits, with a ready remote, for a well-formed channel: an acquire returns `NULL`
exactly if all pools with large enough buffers are empty, and then it changes
nothing. Otherwise it returns the buffer at the head of a pool that no other
non-empty pool with large enough buffers undercuts, and pops that head: of all
memory, only the read index of that ring changes. -/
theorem ipcShmAcquireBuf_bestFit (cfg : IpcShmCfg) (μ : ShmMap) (s : Side) (d₀ d : Driver)
    (inst : ℕ) (hμ : μ.size = cfg.shmSize.toNat) (hfit : cfg.footprint ≤ cfg.shmSize.toNat)
    (hacc : (ipcShmInitInstance d₀ inst (some cfg)).Returns (Env μ) (0, d)) (shm : Shm)
    (hused : (shm s).load 8 0 ≠ ipcShmStateClear)
    (hready : (shm s.other).load 8 0 = ipcShmStateReady) (c : ℕ) (hc : cfg.HasQueue (.chan c))
    (xs : ℕ → List (List UInt8)) (hwf : cfg.WellFormed s shm c xs) (memSize : ℕ)
    (hsize : 1 ≤ memSize) :
    ∃ r shm', (ipcShmAcquireBuf d inst c memSize).run (memHandle μ s) shm = some (r, shm') ∧
      (r = 0 ↔ ∀ p, cfg.HasQueue (.pool c p) → memSize ≤ (cfg.pool c p).bufSize.toNat →
        xs p = []) ∧
      (r = 0 → shm' = shm) ∧
      (r ≠ 0 → ∃ p x rest, cfg.HasQueue (.pool c p) ∧ memSize ≤ (cfg.pool c p).bufSize.toNat ∧
        xs p = x :: rest ∧
        (∀ q, cfg.HasQueue (.pool c q) → memSize ≤ (cfg.pool c q).bufSize.toNat → xs q ≠ [] →
          (cfg.pool c p).bufSize.toNat ≤ (cfg.pool c q).bufSize.toNat) ∧
        r = μ.localShm + cfg.bufOff c (p, (IpcShmBd.decode x).bufId) ∧
        cfg.WellFormed s shm' c (Function.update xs p rest) ∧
        shm' s.other = shm s.other ∧
        ∀ a, a < cfg.queueOff (.pool c p) + 12 ∨ cfg.queueOff (.pool c p) + 16 ≤ a →
          shm' s a = shm s a) := by
  obtain ⟨⟨hos, hl⟩, hsorted⟩ := ipcShmInitInstance_ready hμ (hμ ▸ hfit) hacc
  let P : Peers := Peers.mirror cfg μ inst hl.symmetric hμ hfit
  have hup : P.Up s d := ⟨(ipcShmInitInstance_accepted hacc).1, hos, hl⟩
  have hnum : ((d.priv inst).channels c).mng.numPools = P.numPools c := hup.numPools_eq hc
  have hhas : ∀ q, q < 0 + ((d.priv inst).channels c).mng.numPools ↔ P.Has (.pool c q) := by
    intro q
    rw [Nat.zero_add, hnum]
    exact ⟨fun h => hc.pool h, fun h => h.pool_lt⟩
  rcases Peers.acquireFrom_first hup hwf.done hwf.holds memSize _ 0 (fun q => (hhas q).mp) with
    ⟨hall, hrun⟩ | ⟨p, x, rest, hp, hle, hx, hbefore, hrun⟩
  · refine ⟨0, shm, Peers.ipcShmAcquireBuf_walk hup hused hready hc hwf.done hsize hrun,
      iff_of_true rfl (fun q hq => hall q (Nat.zero_le q) ((hhas q).mpr hq)), fun _ => rfl,
      fun h => absurd rfl h⟩
  · have hidp : P.Has (.pool c p) := (hhas p).mp hp
    have hbuf : P.HasBuf c (p, (IpcShmBd.decode x).bufId) :=
      ⟨hidp, hwf.named p hidp x (hx ▸ List.mem_cons_self)⟩
    have haddr : acquiredAddr (d.os inst) (d.priv inst).shmSize
        (((d.priv inst).channels c).mng.pools p) (IpcShmBd.decode x)
          = P.localBuf s c (p, (IpcShmBd.decode x).bufId) := Peers.acquiredAddr_eq hup hbuf rfl
    have hne : P.localBuf s c (p, (IpcShmBd.decode x).bufId) ≠ 0 := by
      have := μ.localShm_pos
      show μ.localShm + _ ≠ 0
      omega
    refine ⟨P.localBuf s c (p, (IpcShmBd.decode x).bufId), P.popped shm s (.pool c p), ?_,
      iff_of_false hne (fun h => ?_), fun h => absurd h hne, fun _ => ⟨p, x, rest, hidp, hle, hx,
        fun q hq hqle hqne => ?_, rfl, hwf.pop hl.poolsGiven hidp (hup.cap_lt hidp) hx,
        Shm.set_other .., fun a ha => ?_⟩⟩
    · refine (Peers.ipcShmAcquireBuf_walk hup hused hready hc hwf.done hsize hrun).trans ?_
      exact congrArg (fun a => some (a, P.popped shm s (.pool c p))) haddr
    · exact List.cons_ne_nil x rest (hx ▸ h p hidp hle)
    · -- a smaller pool that fits comes before, and was found empty
      by_cases hlt : q < p
      · exact absurd (hbefore q (Nat.zero_le q) hlt hqle) hqne
      · exact hsorted.bufSize_le hl.poolsGiven (Nat.not_lt.mp hlt) hq
    · show (shm.set s _) s a = shm s a
      rw [Shm.set_self]
      exact ByteMem.popFront_of_not_mem ha

/-- Side `a` of two peers that initialized the sample configuration in cleared
memory, side `b` first. -/
def bothReady : Option (Driver × Shm) :=
  ((ipcShmInitInstance {} 0 (some sampleCfg)).run (memHandle (twoWindows .b) .b)
      (fun _ _ => 0)).bind fun b =>
    ((ipcShmInitInstance {} 0 (some sampleCfg)).run (memHandle (twoWindows .a) .a) b.2).bind
      fun a => if a.1.1 = 0 then some (a.1.2, a.2) else none

/-- The free buffers of the sample configuration. -/
def sampleFree (p : ℕ) : List (List UInt8) :=
  if p = 0 then [bdBytes (0, 0) 0, bdBytes (0, 1) 0] else [bdBytes (1, 0) 0]

theorem sampleCfg_pool {p : ℕ} (h : sampleCfg.HasQueue (.pool 0 p)) : p = 0 ∨ p = 1 := by
  obtain ⟨-, m, hm, hp⟩ := h
  cases hm
  have hlt : p < 2 := hp
  omega

/-- Both peers ready: the rings of the sample configuration hold all buffers. -/
theorem bothReady_wellFormed : ∃ d shm, bothReady = some (d, shm) ∧
    (shm .a).load 8 0 = ipcShmStateReady ∧ (shm .b).load 8 0 = ipcShmStateReady ∧
    sampleCfg.WellFormed .a shm 0 sampleFree := by
  have hmem : bothReady.map (fun r => ([Side.a, Side.b].map fun t =>
      ((r.2 t).load 8 0, [8, 56, 128].map (r.2 t).sentinel),
      [56, 128].map fun o => ((r.2 .b).writeIdx o, (r.2 .a).readIdx o),
      [(r.2 .b).slot 56 8 0, (r.2 .b).slot 56 8 1, (r.2 .b).slot 128 8 0]))
    = some ([Side.a, Side.b].map fun _ =>
      (ipcShmStateReady, [ipcQueueInitDone, ipcQueueInitDone, ipcQueueInitDone]),
      [(2, 0), (1, 0)], [bdBytes (0, 0) 0, bdBytes (0, 1) 0, bdBytes (1, 0) 0]) := by
    decide +kernel
  obtain ⟨⟨d, shm⟩, hboth, hvals⟩ := Option.map_eq_some_iff.mp hmem
  simp only [List.map_cons, List.map_nil, Prod.mk.injEq, List.cons.injEq, and_true] at hvals
  obtain ⟨⟨⟨hsa, ha₀, ha₁, ha₂⟩, hsb, hb₀, hb₁, hb₂⟩, ⟨⟨hw₁, hr₁⟩, hw₂, hr₂⟩, hx₀, hx₁, hx₂⟩ :=
    hvals
  refine ⟨d, shm, hboth, hsa, hsb, fun id hid hc t => ?_, fun p hp => ?_, fun p hp x hx => ?_⟩
  · cases id with
    | chan c =>
      cases (show c = 0 from hc)
      cases t
      · exact ha₀
      · exact hb₀
    | pool c p =>
      cases (show c = 0 from hc)
      rcases sampleCfg_pool hid with rfl | rfl <;> cases t
      · exact ha₁
      · exact hb₁
      · exact ha₂
      · exact hb₂
  · rcases sampleCfg_pool hp with rfl | rfl
    · show RingHolds 56 2 8 (shm .b) (shm .a) [bdBytes (0, 0) 0, bdBytes (0, 1) 0]
      refine ⟨by omega, le_rfl, by rw [hw₁, hr₁]; rfl, fun j hj => ?_⟩
      rw [hr₁]
      match j, hj with
      | 0, _ => exact hx₀
      | 1, _ => exact hx₁
    · show RingHolds 128 1 8 (shm .b) (shm .a) [bdBytes (1, 0) 0]
      refine ⟨by omega, le_rfl, by rw [hw₂, hr₂]; rfl, fun j hj => ?_⟩
      rw [hr₂]
      match j, hj with
      | 0, _ => exact hx₂
  · rcases sampleCfg_pool hp with rfl | rfl
    · exact (by decide : ∀ x ∈ sampleFree 0, (IpcShmBd.decode x).bufId < 2) x hx
    · exact (by decide : ∀ x ∈ sampleFree 1, (IpcShmBd.decode x).bufId < 1) x hx

/-- Twenty bytes: the buffers of the first pool are too small, the one of the
second pool is at offset `0xa0`. -/
theorem ipcShmAcquireBuf_bestFit_bothReady : ∃ d shm shm', bothReady = some (d, shm) ∧
    (ipcShmAcquireBuf d 0 0 20).run (memHandle (twoWindows .a) .a) shm = some (0x10a0, shm') ∧
    sampleCfg.WellFormed .a shm' 0 (Function.update sampleFree 1 []) := by
  obtain ⟨d, shm, hboth, hsa, hsb, hwf⟩ := bothReady_wellFormed
  obtain ⟨b, hb, hab⟩ := Option.bind_eq_some_iff.mp hboth
  obtain ⟨⟨⟨err, d₁⟩, shm₁⟩, ha, hab⟩ := Option.bind_eq_some_iff.mp hab
  obtain ⟨hzero, hab⟩ := (Option.ite_none_right_eq_some).mp hab
  obtain ⟨rfl, rfl⟩ : d₁ = d ∧ shm₁ = shm := Prod.mk.inj (Option.some.inj hab)
  obtain rfl : err = 0 := hzero
  have h1 : sampleCfg.HasQueue (.pool 0 1) := ⟨by decide, _, rfl, by decide⟩
  obtain ⟨r, shm', hrun, hnull, -, hbest⟩ := ipcShmAcquireBuf_bestFit sampleCfg (twoWindows .a)
    .a {} d₁ 0 rfl (by decide) (Program.returns_of_run env_of_memHandle ha) shm₁
    (by rw [hsa]; decide) hsb 0
    ⟨by decide, _, rfl⟩ sampleFree hwf 20 (by decide)
  have hne : r ≠ 0 := fun h => absurd (hnull.mp h 1 h1 (by decide)) (by decide)
  obtain ⟨p, x, rest, hp, hle, hx, -, hr, hwf', -⟩ := hbest hne
  refine ⟨d₁, shm₁, shm', hboth, ?_, ?_⟩
  all_goals rcases sampleCfg_pool hp with rfl | rfl
  · exact absurd hle (by decide)
  · cases hx
    rw [hrun, hr]
    rfl
  · exact absurd hle (by decide)
  · cases hx
    exact hwf'
