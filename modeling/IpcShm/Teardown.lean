import IpcShm.HostInit

/-!
# Clean teardown

`ipc_shm_init_instance` can fail at any channel and at any pool, and cleans up
after itself with the functions that `ipc_shm_free_instance` frees an instance
with. Neither remembers how far the initialization came: what is to be undone
is read off the pointers in the private data and off the sentinels in shared
memory. `ipc_shm_free_managed_channel` touches a ring only if its sentinel
says that the ring is initialized or being initialized.

That is right as long as every ring with a pointer to it is live
(`IpcQueue.HeldAt`). Then a release wipes exactly the headers that are pointed
to (`ChannelsWiped`), nothing is left, and the next attempt starts from what
the first one started from. `clean_teardown` is this as an invariant of
arbitrary sequences of calls.

## Where it fails

`ipc_queue_init` sets `push_ring` and then asks the remote: if that is
`IN_PROGRESS` the call returns `-EAGAIN` with the pointer set and the local
sentinel untouched. The cleanup finds a ring that is not live and leaves it,
pointer and all, although its purpose is to free every channel; the mapping is
given up, and the pointer into it stays (`init_leaves_pointer`). An unmanaged
channel, whose cleanup asks for the pointer only, does not have this flaw.

An attempt on an instance that is in use is refused before any of this and
leaves the instance in use.
-/

/-- **Memory was wiped at `S`** and is as before elsewhere. -/
structure Wiped (S : ℕ → Prop) (h h' : Host) : Prop where
  map_eq : h'.map = h.map
  wiped : ∀ a, S a → h'.mem a = 0
  frame : ∀ a, ¬S a → h'.mem a = h.mem a

section Wiped

variable {S T : ℕ → Prop} {h h' h'' : Host}

theorem Wiped.refl (hS : ∀ a, ¬S a) : Wiped S h h :=
  ⟨rfl, fun a ha => absurd ha (hS a), fun _ _ => rfl⟩

theorem Wiped.trans (hw : Wiped S h h') (hw' : Wiped T h' h'') :
    Wiped (fun a => S a ∨ T a) h h'' := by
  refine ⟨hw'.map_eq.trans hw.map_eq, fun a ha => ?_, fun a ha => ?_⟩
  · by_cases hT : T a
    · exact hw'.wiped a hT
    · rw [hw'.frame a hT]
      exact hw.wiped a (ha.resolve_right hT)
  · rw [hw'.frame a (fun hT => ha (Or.inr hT)), hw.frame a (fun hS => ha (Or.inl hS))]

theorem Wiped.congr (hw : Wiped S h h') (hST : ∀ a, S a ↔ T a) : Wiped T h h' :=
  ⟨hw.map_eq, fun a ha => hw.wiped a ((hST a).mpr ha),
    fun a ha => hw.frame a (fun hS => ha ((hST a).mp hS))⟩

/-- Wiping what was excluded leaves calm memory. -/
theorem Wiped.calm {H : ℕ → Prop} (hw : Wiped S h h') (hc : Calm H h.mem)
    (hHS : ∀ a, H a → S a) : Calm (fun _ => False) h'.mem := by
  refine hc.of_bytes (fun a => Or.inr ?_)
  by_cases hS : S a
  · rw [hw.wiped a hS]
    exact Or.inl (by decide)
  · exact Or.inr ⟨fun hH => hS (hHS a hH), hw.frame a hS⟩

end Wiped

theorem leBytes_zero (n i : ℕ) : (leBytes n 0).getD i 0 = 0 := by
  induction n generalizing i with
  | zero => rfl
  | succ n ih =>
    cases i with
    | zero => rfl
    | succ i => exact ih i

/-- A store of zero wipes. -/
theorem ByteMem.store_zero (m : ByteMem) {k a x : ℕ} (h : Within a k x) : m.store k a 0 x = 0 := by
  unfold ByteMem.store ByteMem.write
  rw [leBytes_length, if_pos (show a ≤ x ∧ x < a + k from h)]
  exact leBytes_zero k (x - a)

section Release

variable {μ : HostMap} {h : Host} {off : ℕ}

/-- A store of zero to a header, with what follows. -/
theorem wipe_host {α : Type} {Q : α → Host → Prop} {len i k : ℕ} {f : Unit → Drv α}
    (hμ : h.map = some μ) (hfit : off + len ≤ μ.size) (hk : i + k ≤ len)
    (hf : ∀ h', Wiped (Within (μ.phys + off + i) k) h h' → HostWp (f ()) Q h') :
    HostWp ((.op (.store k (μ.localShm + off + i) 0) .pure : Drv Unit) >>= f) Q h := by
  refine HostWp.store hμ (inWindow_header hfit hk) (fun h' hmap _ hmem => hf h' ?_)
  rw [μ.addr_add] at hmem
  refine ⟨hmap, fun a ha => ?_, fun a ha => ?_⟩
  · rw [hmem]
    exact ByteMem.store_zero _ ha
  · unfold Within at ha
    rw [hmem, ByteMem.store_of_not_mem _ (by omega)]

theorem ringIsLive_host (hμ : h.map = some μ) (hfit : off + 16 ≤ μ.size)
    (hlive : RingLive h.mem (μ.phys + off)) :
    HostWp (ringIsLive (μ.localShm + off)) (fun b h' => b = true ∧ h' = h) h := by
  have hin : InWindow μ.toShmMap (μ.localShm + off) 8 := inWindow_header hfit (i := 0) (by decide)
  unfold ringIsLive
  refine HostWp.load_local hμ hin (by decide) (fun v hv => ?_)
  rw [μ.addr_eq] at hv
  split
  · exact ⟨rfl, rfl⟩
  · rename_i hne
    refine HostWp.load_local hμ hin (by decide) (fun v' hv' => ⟨decide_eq_true ?_, rfl⟩)
    rw [μ.addr_eq] at hv'
    exact hv'.trans (hlive.resolve_left (fun hd => hne (hv.trans hd)))

/-- **`ipc_queue_free`** wipes the header of a queue that is held, and forgets
its ring. -/
theorem ipcQueueFree_host {q : IpcQueue} (hμ : h.map = some μ) (hq : q.HeldAt μ h.mem off) :
    HostWp (ipcQueueFree q) (fun q' h' => q'.pushRing = 0 ∧ Wiped (q.header μ) h h') h := by
  unfold ipcQueueFree
  split
  · rename_i h0
    exact ⟨h0, .refl (fun _ ha => ha.1 h0)⟩
  · rename_i hne
    obtain ⟨hpush, hfit, hlive⟩ := hq.resolve_left hne
    have hheader : ∀ a, q.header μ a ↔ Within (μ.phys + off) 16 a := by
      intro a
      unfold IpcQueue.header
      rw [hpush, μ.addr_eq]
      exact and_iff_right (hpush ▸ hne)
    rw [hpush]
    refine (ringIsLive_host hμ hfit hlive).bind ?_
    rintro b h₀ ⟨rfl, rfl⟩
    rw [if_pos rfl]
    refine wipe_host hμ hfit (i := 0) (by decide) (fun h₁ hw₁ => ?_)
    refine wipe_host (hw₁.map_eq.trans hμ) hfit (by decide) (fun h₂ hw₂ => ?_)
    refine wipe_host (hw₂.map_eq.trans (hw₁.map_eq.trans hμ)) hfit (by decide)
      (fun h₃ hw₃ => ⟨rfl, ((hw₁.trans hw₂).trans hw₃).congr (fun a => ?_)⟩)
    rw [hheader]
    unfold Within
    omega

/-- **What the loop freeing `k` pools from `poolId` on leaves.** -/
structure PoolsWiped (μ : HostMap) (k poolId : ℕ) (mchan mchan' : IpcManagedChannel)
    (h h' : Host) : Prop where
  same : mchan.SameHeader mchan'
  freed : ∀ p, poolId ≤ p → p < poolId + k → (mchan'.pools p).bdQueue.pushRing = 0
  other : ∀ p, p < poolId ∨ poolId + k ≤ p → mchan'.pools p = mchan.pools p
  wiped : Wiped (fun a => ∃ p, poolId ≤ p ∧ p < poolId + k ∧ (mchan.pools p).bdQueue.header μ a)
    h h'

/-- One pool, then the pools after it. -/
theorem PoolsWiped.cons {k poolId : ℕ} {mchan c mchan' : IpcManagedChannel} {h₁ h' : Host}
    (hsame : mchan.SameHeader c) (hfreed : (c.pools poolId).bdQueue.pushRing = 0)
    (hother : ∀ p, p ≠ poolId → c.pools p = mchan.pools p)
    (hw : Wiped ((mchan.pools poolId).bdQueue.header μ) h h₁)
    (hrest : PoolsWiped μ k (poolId + 1) c mchan' h₁ h') :
    PoolsWiped μ (k + 1) poolId mchan mchan' h h' := by
  refine ⟨⟨hrest.same.bdQueue_eq.trans hsame.bdQueue_eq,
      hrest.same.numPools_eq.trans hsame.numPools_eq, hrest.same.rxCb_eq.trans hsame.rxCb_eq,
      hrest.same.cbArg_eq.trans hsame.cbArg_eq⟩,
    fun p hlo hhi => ?_, fun p hp => ?_, (hw.trans hrest.wiped).congr (fun a => ⟨?_, ?_⟩)⟩
  · by_cases heq : p = poolId
    · subst heq
      rw [hrest.other p (Or.inl (Nat.lt_succ_self p))]
      exact hfreed
    · exact hrest.freed p (by omega) (by omega)
  · rw [hrest.other p (by omega)]
    exact hother p (by omega)
  · rintro (ha | ⟨p, hlo, hhi, ha⟩)
    · exact ⟨poolId, Nat.le_refl _, by omega, ha⟩
    · rw [hother p (by omega)] at ha
      exact ⟨p, by omega, by omega, ha⟩
  · rintro ⟨p, hlo, hhi, ha⟩
    by_cases heq : p = poolId
    · subst heq
      exact Or.inl ha
    · refine Or.inr ⟨p, by omega, by omega, ?_⟩
      rw [hother p heq]
      exact ha

/-- **The loop freeing the pools**, each held at its own offset. -/
theorem freePools_host {k poolId : ℕ} {mchan : IpcManagedChannel} {o : ℕ → ℕ}
    (hμ : h.map = some μ) (ho : ∀ p p', p < p' → o p + 16 ≤ o p')
    (hheld : ∀ p, poolId ≤ p → p < poolId + k → (mchan.pools p).bdQueue.HeldAt μ h.mem (o p)) :
    HostWp (freePools k poolId mchan) (fun r h' => PoolsWiped μ k poolId mchan r h h') h := by
  induction k generalizing poolId mchan h with
  | zero =>
    exact ⟨⟨rfl, rfl, rfl, rfl⟩, fun p hlo hhi => absurd hhi (Nat.not_lt.mpr hlo), fun _ _ => rfl,
      .refl (fun a ha => ha.elim (fun _ hp => absurd hp.2.1 (Nat.not_lt.mpr hp.1)))⟩
  | succ k ih =>
    have hq := hheld poolId (Nat.le_refl _) (by omega)
    rw [freePools]
    split
    · rename_i h0
      refine (ih hμ (fun p hlo hhi => hheld p (by omega) (by omega))).mono (fun r h' hrest =>
        .cons ⟨rfl, rfl, rfl, rfl⟩ h0 (fun _ _ => rfl) (.refl (fun a ha => ha.1 h0)) hrest)
    · rename_i hne
      obtain ⟨hpush, hfit, hlive⟩ := hq.resolve_left hne
      have hring := ringIsLive_host hμ hfit hlive
      rw [← hpush] at hring
      refine hring.bind ?_
      rintro b h₀ ⟨rfl, rfl⟩
      dsimp only
      rw [if_pos rfl]
      refine (ipcQueueFree_host hμ hq).bind ?_
      rintro q h₁ ⟨hnull, hw⟩
      have hsub := fun a => hq.header_within (a := a)
      have hset : ∀ p, poolId + 1 ≤ p → p < poolId + 1 + k →
          ((mchan.setPool poolId { mchan.pools poolId with bdQueue := q }).pools p).bdQueue.HeldAt
            μ h₁.mem (o p) := by
        intro p hlo hhi
        simp only [IpcManagedChannel.setPool, Function.update_of_ne (show p ≠ poolId by omega)]
        refine (hheld p (by omega) (by omega)).frame (fun a ha => hw.frame a (fun hin => ?_))
        have hgap := ho poolId p (by omega)
        have h1 := (hsub a hin).2
        have h2 := ha.1
        omega
      refine (ih (hw.map_eq.trans hμ) hset).mono (fun r h' hrest =>
        .cons (c := mchan.setPool poolId { mchan.pools poolId with bdQueue := q })
          ⟨rfl, rfl, rfl, rfl⟩ ?_ (fun p hp => Function.update_of_ne hp _ _) hw hrest)
      simp only [IpcManagedChannel.setPool, Function.update_self]
      exact hnull

/-- **`ipc_shm_free_managed_channel`** wipes all headers of a channel that is
held. -/
theorem ipcShmFreeManagedChannel_host {mchan : IpcManagedChannel} {cfg : IpcShmManagedCfg}
    (hμ : h.map = some μ) (hm : mchan.HeldAt μ h.mem off cfg)
    (hpush : mchan.bdQueue.pushRing ≠ 0) :
    HostWp (ipcShmFreeManagedChannel mchan)
      (fun r h' => r.Null ∧ Wiped (mchan.headers μ) h h') h := by
  obtain ⟨pools, -, -, -, hq, hheld, hafter⟩ := hm.resolve_left (fun hnull => hpush hnull.1)
  obtain ⟨hat, hfit, hlive⟩ := hq.resolve_left hpush
  have hring := ringIsLive_host hμ hfit hlive
  rw [← hat] at hring
  unfold ipcShmFreeManagedChannel
  refine hring.bind ?_
  rintro b h₀ ⟨rfl, rfl⟩
  rw [if_pos rfl]
  refine (ipcQueueFree_host hμ hq).bind (fun q h₁ ⟨hnull, hw⟩ => ?_)
  have hgap : ∀ p p', p < p' →
      off + poolOff pools mchan.numPools p + 16 ≤ off + poolOff pools mchan.numPools p' := by
    intro p p' hlt
    have hend := poolOff_add_extent_le pools mchan.numPools hlt
    have hext := sixteen_le_extent (pools p)
    omega
  refine (freePools_host (hw.map_eq.trans hμ) hgap (fun p _ hp => ?_)).mono
    (fun r h' hps => ⟨⟨?_, fun p => ?_⟩, (hw.trans hps.wiped).congr (fun a => ?_)⟩)
  · refine (hheld p (by omega)).frame (fun a ha => hw.frame a (fun hin => ?_))
    have h1 := (hq.header_within hin).2
    have h2 := ha.1
    have h3 := sixteen_le_poolOff pools mchan.numPools p
    omega
  · rw [hps.same.bdQueue_eq]
    exact hnull
  · by_cases hp : p < mchan.numPools
    · exact hps.freed p (Nat.zero_le p) (by omega)
    · rw [hps.other p (by omega)]
      exact hafter p (by omega)
  · refine or_congr_right ⟨fun ⟨p, _, hp, ha⟩ => ⟨p, by omega, ha⟩,
      fun ⟨p, hp, ha⟩ => ⟨p, Nat.zero_le p, by omega, ha⟩⟩

/-- **`ipc_shm_free_channel`** of a channel that is held. -/
theorem ipcShmFreeChannel_host {chan : IpcShmChannel} {cc : IpcShmChannelCfg}
    (hμ : h.map = some μ) (hc : chan.HeldAt μ h.mem off cc) :
    HostWp (ipcShmFreeChannel chan cc.type)
      (fun r h' => r.mng.Null ∧ Wiped (chan.headers μ cc.type) h h') h := by
  unfold ipcShmFreeChannel
  cases cc with
  | managed m =>
    dsimp only [IpcShmChannelCfg.type]
    split
    · rename_i hpush
      exact (ipcShmFreeManagedChannel_host hμ hc hpush).bind (fun _ _ hr => hr)
    · rename_i h0
      have h0 : chan.mng.bdQueue.pushRing = 0 := not_not.mp h0
      have hnull : chan.mng.Null := by
        rcases hc with hnull | ⟨_, _, _, hpush, _⟩
        · exact hnull
        · exact absurd h0 hpush
      refine ⟨hnull, .refl (fun a ha => ?_)⟩
      rcases ha with ha | ⟨p, -, ha⟩
      · exact ha.1 h0
      · exact ha.1 (hnull.2 p)
  | unmanaged u =>
    dsimp only [IpcShmChannelCfg.type]
    split
    · rename_i hne
      obtain ⟨hmem, hfit⟩ := hc.1.resolve_left hne
      have hheader : ∀ a, chan.headers μ .unmanaged a ↔ Within (μ.phys + off) 12 a := by
        intro a
        show _ ∧ _ ↔ _
        rw [hmem, μ.addr_eq]
        exact and_iff_right (hmem ▸ hne)
      rw [hmem]
      refine wipe_host hμ hfit (i := 0) (by decide) (fun h₁ hw₁ => ?_)
      refine wipe_host (hw₁.map_eq.trans hμ) hfit (by decide) (fun h₂ hw₂ => ?_)
      refine wipe_host (hw₂.map_eq.trans (hw₁.map_eq.trans hμ)) hfit (by decide)
        (fun h₃ hw₃ => ⟨⟨rfl, hc.2⟩, ((hw₁.trans hw₂).trans hw₃).congr (fun a => ?_)⟩)
      rw [hheader]
      unfold Within
      omega
    · rename_i h0
      exact ⟨⟨not_not.mp h0, hc.2⟩, .refl (fun a ha => h0 ha.1)⟩
  | invalid => exact ⟨hc, .refl (fun a ha => ha)⟩

/-- **What the loop freeing `k` channels from `c` on leaves.** -/
structure ChannelsWiped (μ : HostMap) (type : ℕ → IpcShmChannelType) (k c : ℕ)
    (priv priv' : IpcShmPriv) (h h' : Host) : Prop where
  same : priv.SameHeader priv'
  freed : ∀ c', c ≤ c' → c' < c + k → (priv'.channels c').mng.Null
  other : ∀ c', c' < c ∨ c + k ≤ c' → priv'.channels c' = priv.channels c'
  wiped : Wiped (fun a => ∃ c', c ≤ c' ∧ c' < c + k ∧ (priv.channels c').headers μ (type c') a) h h'

/-- One channel, then the channels after it. -/
theorem ChannelsWiped.cons {type : ℕ → IpcShmChannelType} {k c : ℕ} {priv priv' : IpcShmPriv}
    {chan : IpcShmChannel} {h₁ h' : Host} (hnull : chan.mng.Null)
    (hw : Wiped ((priv.channels c).headers μ (type c)) h h₁)
    (hrest : ChannelsWiped μ type k (c + 1) (priv.setChannel c chan) priv' h₁ h') :
    ChannelsWiped μ type (k + 1) c priv priv' h h' := by
  have hother : ∀ c', c' ≠ c → (priv.setChannel c chan).channels c' = priv.channels c' :=
    fun c' hne => Function.update_of_ne hne _ _
  refine ⟨⟨hrest.same.shmSize_eq, hrest.same.numChannels_eq, hrest.same.global_eq⟩,
    fun c' hlo hhi => ?_, fun c' hc' => ?_, (hw.trans hrest.wiped).congr (fun a => ⟨?_, ?_⟩)⟩
  · by_cases heq : c' = c
    · subst heq
      rw [hrest.other c' (Or.inl (Nat.lt_succ_self c'))]
      simp only [IpcShmPriv.setChannel, Function.update_self]
      exact hnull
    · exact hrest.freed c' (by omega) (by omega)
  · rw [hrest.other c' (by omega)]
    exact hother c' (by omega)
  · rintro (ha | ⟨c', hlo, hhi, ha⟩)
    · exact ⟨c, Nat.le_refl _, by omega, ha⟩
    · rw [hother c' (by omega)] at ha
      exact ⟨c', by omega, by omega, ha⟩
  · rintro ⟨c', hlo, hhi, ha⟩
    by_cases heq : c' = c
    · subst heq
      exact Or.inl ha
    · refine Or.inr ⟨c', by omega, by omega, ?_⟩
      rw [hother c' heq]
      exact ha

/-- **The loop freeing the channels**, each held in its part of the window. -/
theorem freeChannels_host {cfg : IpcShmCfg} {type : ℕ → IpcShmChannelType} {k c : ℕ}
    {priv : IpcShmPriv} (hμ : h.map = some μ)
    (htype : ∀ c', c ≤ c' → c' < c + k → type c' = (cfg.chan c').type)
    (hheld : ∀ c', c ≤ c' → c' < c + k →
      (priv.channels c').HeldAt μ h.mem (cfg.chanOff c') (cfg.chan c')) :
    HostWp (freeChannels type k c priv) (fun r h' => ChannelsWiped μ type k c priv r h h') h := by
  induction k generalizing c priv h with
  | zero =>
    exact ⟨⟨rfl, rfl, rfl⟩, fun c' hlo hhi => absurd hhi (Nat.not_lt.mpr hlo), fun _ _ => rfl,
      .refl (fun a ha => ha.elim (fun _ hc => absurd hc.2.1 (Nat.not_lt.mpr hc.1)))⟩
  | succ k ih =>
    have hc := hheld c (Nat.le_refl _) (by omega)
    have hty := htype c (Nat.le_refl _) (by omega)
    rw [freeChannels, hty]
    refine (ipcShmFreeChannel_host hμ hc).bind ?_
    rintro chan h₁ ⟨hnull, hw⟩
    have hset : ∀ c', c + 1 ≤ c' → c' < c + 1 + k → ((priv.setChannel c chan).channels c').HeldAt
        μ h₁.mem (cfg.chanOff c') (cfg.chan c') := by
      intro c' hlo hhi
      simp only [IpcShmPriv.setChannel, Function.update_of_ne (show c' ≠ c by omega)]
      refine (hheld c' (by omega) (by omega)).frame (fun a ha => hw.frame a (fun hin => ?_))
      have h1 := (hc.headers_within hin).2
      have h2 := ha.1
      have h3 := cfg.chanOff_add_extent_le (show c < c' by omega)
      omega
    exact (ih (hw.map_eq.trans hμ) (fun c' hlo hhi => htype c' (by omega) (by omega)) hset).mono
      (fun r h' hrest => .cons hnull (hty ▸ hw) hrest)

end Release

/-! ## Calls -/

/-- **An instance that is free**: it points nowhere, and no sentinel is left in
memory. -/
structure Idle (d : Driver) (inst : ℕ) (h : Host) : Prop where
  global_eq : (d.priv inst).global = 0
  null : ∀ c, ((d.priv inst).channels c).mng.Null
  calm : Calm (fun _ => False) h.mem

/-- **An instance in use** with the configuration `cfg`: every channel holds
what it points to, and outside the headers memory is calm. -/
structure InUse (d : Driver) (inst : ℕ) (h : Host) (μ : HostMap) (cfg : IpcShmCfg) : Prop where
  map_eq : h.map = some μ
  size_le : sizeofIpcShmGlobal ≤ μ.size
  global_eq : (d.priv inst).global = μ.localShm
  ready : h.mem.load 8 μ.phys = ipcShmStateReady
  numChannels_eq : (d.priv inst).numChannels = cfg.numChannels.toNat
  type_eq : ∀ c, c < cfg.numChannels.toNat →
    ((d.priv inst).channels c).type = (cfg.chan c).type
  held : ∀ c, c < cfg.numChannels.toNat →
    ((d.priv inst).channels c).HeldAt μ h.mem (cfg.chanOff c) (cfg.chan c)
  after : ∀ c, cfg.numChannels.toNat ≤ c → ((d.priv inst).channels c).mng.Null
  calm : Calm (fun a => Within μ.phys 8 a ∨ ∃ c, c < cfg.numChannels.toNat ∧
    ((d.priv inst).channels c).headers μ (cfg.chan c).type a) h.mem

section Calls

variable {d : Driver} {inst : ℕ} {h : Host} {μ : HostMap} {cfg : IpcShmCfg}

/-- A store to the state word, with what follows. -/
theorem CallWp.store_state {α : Type} {Q : α → Host → Prop} {v : ℕ} {f : Unit → Drv α}
    (hμ : h.map = some μ) (hsize : sizeofIpcShmGlobal ≤ μ.size)
    (hf : ∀ h', h'.map = h.map → h'.looked = h.looked → h'.mem = h.mem.store 8 μ.phys v →
      CallWp (f ()) Q h') :
    CallWp (store64 μ.localShm v >>= f) Q h := by
  have hin : InWindow μ.toShmMap μ.localShm 8 :=
    ⟨Nat.le_refl _, Nat.add_le_add_left hsize μ.localShm⟩
  refine ⟨⟨μ, hμ, hin⟩, ?_⟩
  rintro r h' ⟨⟨μ', hμ', rfl⟩, -⟩
  obtain rfl : μ = μ' := Option.some.inj (hμ.symm.trans hμ')
  refine hf _ rfl rfl ?_
  rw [show μ.addr μ.localShm = μ.phys from μ.addr_eq 0]

theorem chanOff_pos (cfg : IpcShmCfg) (c : ℕ) : sizeofIpcShmGlobal ≤ cfg.chanOff c :=
  Nat.le_add_right _ _

/-- The channels lie after the state word. -/
theorem not_within_state {c a : ℕ} (hw : Within (μ.phys + cfg.chanOff c) (cfg.chan c).extent a) :
    ¬Within μ.phys 8 a := by
  have hpos : 8 ≤ cfg.chanOff c := chanOff_pos cfg c
  unfold Within at hw ⊢
  omega

/-- What the loop over all channels added to calm memory. -/
theorem ChannelsGained.calm {priv priv' : IpcShmPriv} {h' : Host}
    (hg : ChannelsGained μ cfg 0 priv priv' h h') (hcalm : Calm (fun _ => False) h.mem) :
    Calm (fun a => ∃ c, c < cfg.numChannels.toNat ∧
      (priv'.channels c).headers μ (cfg.chan c).type a) h'.mem := by
  refine hg.gained.calm _ (fun a ⟨c, _, hc, ha⟩ => ⟨c, hc, ha⟩) ?_
  exact hcalm.of_bytes (fun a => Or.inr (Or.inr ⟨not_false, rfl⟩))

/-- **The cleanup of a failed initialization** undoes what the loop over the
channels did. -/
theorem freeConfiguredChannels_host {priv priv' : IpcShmPriv} {h₀ : Host}
    (hμ : h.map = some μ) (hg : ChannelsGained μ cfg 0 priv priv' h₀ h)
    (hnum : priv'.numChannels = cfg.numChannels.toNat) (hcalm : Calm (fun _ => False) h₀.mem) :
    HostWp (freeConfiguredChannels cfg.channels { priv' with global := 0 })
      (fun p h' => p.global = 0 ∧ (∀ c, (p.channels c).mng.Null) ∧
        Calm (fun _ => False) h'.mem) h := by
  have hheld := fun c (hc : c < cfg.numChannels.toNat) => hg.held c (Nat.zero_le c) hc
  have hcalm' := hg.calm hcalm
  cases hch : cfg.channels with
  | none =>
    -- without a table of channels every one of them is refused
    have hinv : ∀ c, cfg.chan c = .invalid := fun c => by rw [IpcShmCfg.chan, hch]
    refine ⟨rfl, fun c => ?_, hcalm'.of_bytes (fun a => Or.inr (Or.inr ⟨?_, rfl⟩))⟩
    · by_cases hc : c < cfg.numChannels.toNat
      · have hnull := hheld c hc
        rw [hinv c] at hnull
        exact hnull
      · exact hg.after c (Nat.not_lt.mp hc)
    · rintro ⟨c, -, ha⟩
      rw [hinv c] at ha
      exact ha
  | some f =>
    have htype : ∀ c', (f c').type = (cfg.chan c').type := fun c' => by rw [IpcShmCfg.chan, hch]
    show HostWp (freeChannels (fun c => (f c).type) priv'.numChannels 0 _) _ _
    rw [hnum]
    refine (freeChannels_host hμ (fun c' _ _ => htype c') (fun c' _ hc' => ?_)).mono
      (fun p h' hw => ⟨hw.same.global_eq, fun c => ?_, hw.wiped.calm hcalm' ?_⟩)
    · exact hheld c' (by omega)
    · by_cases hc : c < cfg.numChannels.toNat
      · exact hw.freed c (Nat.zero_le c) (by omega)
      · rw [hw.other c (by omega)]
        exact hg.after c (Nat.not_lt.mp hc)
    · rintro a ⟨c, hc, ha⟩
      refine ⟨c, Nat.zero_le c, by omega, ?_⟩
      dsimp only
      rw [htype c]
      exact ha

/-- The instance after its channels are in place and the state is `READY`. -/
theorem InUse.of_channels {priv priv' : IpcShmPriv} {h₀ h' : Host} (hμ : h.map = some μ)
    (hsize : sizeofIpcShmGlobal ≤ μ.size) (hg : ChannelsGained μ cfg 0 priv priv' h₀ h)
    (hlaid : ∀ c, c < cfg.numChannels.toNat → priv'.LaidAt μ.os cfg c)
    (hglobal : priv'.global = μ.localShm) (hnum : priv'.numChannels = cfg.numChannels.toNat)
    (hcalm : Calm (fun _ => False) h₀.mem) (hmap : h'.map = h.map)
    (hmem : h'.mem = h.mem.store 8 μ.phys ipcShmStateReady) (hpriv : d.priv inst = priv') :
    InUse d inst h' μ cfg := by
  have hstate : ∀ a, ¬Within μ.phys 8 a → h'.mem a = h.mem a := by
    intro a ha
    unfold Within at ha
    rw [hmem, ByteMem.store_of_not_mem _ (by omega)]
  subst hpriv
  refine ⟨hmap.trans hμ, hsize, hglobal, ?_, hnum, fun c hc => ?_, fun c hc => ?_,
    hg.after, ?_⟩
  · rw [hmem]
    exact ByteMem.load_store_self_of_lt _ (by decide)
  · have hl := (hlaid c hc).2
    generalize cfg.chan c = cc at hl ⊢
    cases cc with
    | managed m => exact hl.1
    | unmanaged u => exact hl.1
    | invalid => exact hl.elim
  · exact (hg.held c (Nat.zero_le c) hc).frame (fun a ha => hstate a (not_within_state ha))
  · refine (hg.calm hcalm).of_bytes (fun a => ?_)
    by_cases h8 : Within μ.phys 8 a
    · exact Or.inl (Or.inl h8)
    · by_cases hS : ∃ c, c < cfg.numChannels.toNat ∧
          ((d.priv inst).channels c).headers μ (cfg.chan c).type a
      · exact Or.inl (Or.inr hS)
      · exact Or.inr (Or.inr ⟨hS, hstate a h8⟩)

/-- **What an attempt to initialize leaves**: an instance that is free, or one
in use. -/
def Attempted (inst : ℕ) (r : ℤ × Driver) (h : Host) : Prop :=
  (r.1 ≠ 0 ∧ Idle r.2 inst h) ∨ (r.1 = 0 ∧ ∃ μ cfg, InUse r.2 inst h μ cfg)

theorem initMapped_host {priv : IpcShmPriv} (hμ : h.map = some μ)
    (hsize : μ.size = cfg.shmSize.toNat) (hchk : cfg.Checked μ.toShmMap)
    (hshm : priv.shmSize = cfg.shmSize.toNat) (hnum : priv.numChannels = cfg.numChannels.toNat)
    (hglobal : priv.global = μ.localShm) (hnull : ∀ c, (priv.channels c).mng.Null)
    (hcalm : Calm (fun _ => False) h.mem) (hlook : h.looked = []) :
    CallWp (initMapped d inst cfg μ.os priv) (Attempted inst) h := by
  have hoff : sizeofIpcShmGlobal = cfg.chanOff 0 := by simp [IpcShmCfg.chanOff]
  have hhead := hchk.header
  rw [hoff] at hhead
  have hl0 : μ.os.localShm + cfg.chanOff 0 < 2 ^ 64 := by
    show μ.localShm + cfg.chanOff 0 < 2 ^ 64
    have := μ.localShm_lt
    omega
  have hr0 : μ.os.remoteShm + cfg.chanOff 0 < 2 ^ 64 := by
    show μ.remoteShm + cfg.chanOff 0 < 2 ^ 64
    have := μ.remoteShm_lt
    omega
  have hlt : μ.size < 2 ^ 32 := by
    rw [hsize]
    exact cfg.shmSize.toNat_lt
  unfold initMapped
  rw [hoff, u64_of_lt hl0, u64_of_lt hr0, hnum]
  refine CallWp.store_state hμ hchk.header (fun h₁ hmap₁ hlook₁ hmem₁ => ?_)
  have hμ₁ := hmap₁.trans hμ
  have hcalm₁ : Calm (fun _ => False) h₁.mem := by
    refine hcalm.of_bytes (fun a => Or.inr ?_)
    rw [hmem₁]
    by_cases h8 : Within μ.phys 8 a
    · rw [show ipcShmStateClear = 0 from rfl, ByteMem.store_zero _ h8]
      exact Or.inl (by decide)
    · unfold Within at h8
      exact Or.inr ⟨not_false, ByteMem.store_of_not_mem _ (by omega)⟩
  have hl₁ : LookedBelow μ (cfg.chanOff 0) h₁ := fun b hb => by
    rw [hlook₁, hlook] at hb
    exact absurd hb List.not_mem_nil
  refine CallWp.bind ((initChannels_host hμ₁ (Nat.zero_add _) hlt (hshm.trans hsize.symm) hhead
    hchk.channels (fun c _ => hnull c) hl₁).and_always (initChannels_always (Nat.zero_add _) hlt
      (hshm.trans hsize.symm) hhead (fun c' hc' => absurd hc' (Nat.not_lt_zero c'))
      (fun c' hc' => absurd hc' (Nat.not_lt_zero c')) hchk.channels)).call ?_
  rintro ⟨err, priv'⟩ h₂ ⟨hg, hout⟩
  have hμ₂ := hg.gained.map_eq.trans hμ₁
  have hnum' := hg.same.numChannels_eq.trans hnum
  dsimp only at hg hnum' ⊢
  split
  · rename_i he
    refine CallWp.bind (freeConfiguredChannels_host hμ₂ hg hnum' hcalm₁).call ?_
    rintro p h₃ ⟨hp0, hpnull, hcalm₃⟩
    refine ⟨trivial, ?_⟩
    rintro r h₄ ⟨rfl, -⟩
    refine ⟨trivial, ?_⟩
    rintro r h₅ ⟨rfl, -⟩
    have hpriv : (d.setPriv inst p).priv inst = p := Function.update_self ..
    refine Or.inl ⟨he, ?_, fun c => ?_, hcalm₃⟩
    · rw [hpriv]
      exact hp0
    · rw [hpriv]
      exact hpnull c
  · rename_i he
    refine ⟨trivial, ?_⟩
    rintro r h₃ ⟨rfl, -⟩
    have hglobal' : priv'.global = μ.localShm := hg.same.global_eq.trans hglobal
    rw [hglobal']
    refine CallWp.store_state hμ₂ hchk.header (fun h₄ hmap₄ _ hmem₄ => Or.inr ⟨rfl, μ, cfg, ?_⟩)
    exact .of_channels hμ₂ hchk.header hg (hout.ready (not_not.mp he)) hglobal' hnum' hcalm₁ hmap₄
      hmem₄ (Function.update_self ..)

theorem ipcInstanceIsFree_null (hinst : inst < ipcShmMaxInstances)
    (hnull : (d.priv inst).global = 0) : ipcInstanceIsFree d inst = .pure .free := by
  unfold ipcInstanceIsFree
  rw [if_neg (Nat.not_le.mpr hinst), if_pos hnull]
  rfl

/-- **`ipc_shm_init_instance` of an instance that is free.** -/
theorem ipcShmInitInstance_idle (hinst : inst < ipcShmMaxInstances) (hidle : Idle d inst h)
    (hlook : h.looked = []) (cfg : Option IpcShmCfg) :
    CallWp (ipcShmInitInstance d inst cfg) (Attempted inst) h := by
  have hrefused : Attempted inst (-EINVAL, d) h := Or.inl ⟨show -EINVAL ≠ 0 by decide, hidle⟩
  have hne : IpcShmInstanceState.free ≠ .used := by decide
  unfold ipcShmInitInstance
  rw [ipcInstanceIsFree_null hinst hidle.global_eq, Program.pure_bind, if_neg hne]
  cases cfg with
  | none => exact hrefused
  | some cfg =>
    dsimp only
    split
    · exact hrefused
    split
    · exact hrefused
    rw [if_neg (Nat.not_le.mpr hinst)]
    -- up to here nothing but the sizes has changed in the private data
    have hstarted : ∀ d' : Driver, d'.priv inst = (d.priv inst).started cfg → Idle d' inst h := by
      intro d' hd'
      exact ⟨by rw [hd']; exact hidle.global_eq, by rw [hd']; exact hidle.null, hidle.calm⟩
    rw [ipcHwInit_bind]
    refine ⟨trivial, ?_⟩
    rintro err h₁ ⟨rfl, -⟩
    dsimp only
    split
    · rename_i he
      exact Or.inl ⟨he, hstarted _ (Function.update_self ..)⟩
    rw [ipcOsInit_bind]
    refine ⟨trivial, ?_⟩
    rintro ⟨err, os⟩ h₁ ⟨hans, hcare⟩
    dsimp only
    rcases hans with ⟨he, rfl⟩ | ⟨he, μ, hsize, -, hos, rfl⟩
    · dsimp only at he
      rw [if_pos he]
      refine ⟨trivial, ?_⟩
      rintro r h₂ ⟨rfl, -⟩
      exact Or.inl ⟨he, hstarted _ (Function.update_self ..)⟩
    · dsimp only at he hos
      rw [if_neg (not_not.mpr he), hos]
      have hpriv : (((d.setPriv inst { d.priv inst with
          shmSize := cfg.shmSize.toNat
          numChannels := cfg.numChannels.toNat }).setOs inst μ.os).priv inst)
          = (d.priv inst).started cfg := Function.update_self ..
      rw [hpriv]
      show CallWp (initMapped _ inst cfg μ.os
        { (d.priv inst).started cfg with global := μ.localShm }) _ _
      exact initMapped_host rfl hsize (hcare he μ rfl) rfl rfl rfl hidle.null hidle.calm hlook

/-- An instance in use is recognized as such. -/
theorem ipcInstanceIsFree_inUse (hinst : inst < ipcShmMaxInstances) (hu : InUse d inst h μ cfg) :
    HostWp (ipcInstanceIsFree d inst) (fun st h' => st = .used ∧ h' = h) h := by
  have hne : (d.priv inst).global ≠ 0 := by
    rw [hu.global_eq]
    exact Nat.ne_of_gt μ.localShm_pos
  have hin : InWindow μ.toShmMap μ.localShm 8 :=
    ⟨Nat.le_refl _, Nat.add_le_add_left hu.size_le μ.localShm⟩
  unfold ipcInstanceIsFree
  rw [if_neg (Nat.not_le.mpr hinst), if_neg hne, hu.global_eq]
  refine HostWp.load_local hu.map_eq hin (by decide) (fun v hv => ?_)
  rw [show μ.addr μ.localShm = μ.phys from μ.addr_eq 0, hu.ready] at hv
  rw [hv, if_neg (by decide)]
  exact ⟨rfl, rfl⟩

/-- **`ipc_shm_init_instance` of an instance in use** is refused. -/
theorem ipcShmInitInstance_inUse (hinst : inst < ipcShmMaxInstances) (hu : InUse d inst h μ cfg)
    (cfg' : Option IpcShmCfg) :
    CallWp (ipcShmInitInstance d inst cfg') (fun r h' => r = (-EINVAL, d) ∧ h' = h) h := by
  unfold ipcShmInitInstance
  refine CallWp.bind (ipcInstanceIsFree_inUse hinst hu).call ?_
  rintro st h₁ ⟨rfl, rfl⟩
  rw [if_pos rfl]
  exact ⟨rfl, rfl⟩

/-- **`ipc_shm_free_instance` of an instance that is free** does nothing. -/
theorem ipcShmFreeInstance_idle (hinst : inst < ipcShmMaxInstances) (hidle : Idle d inst h) :
    CallWp (ipcShmFreeInstance d inst) (fun d' h' => Idle d' inst h') h := by
  unfold ipcShmFreeInstance
  rw [ipcInstanceIsFree_null hinst hidle.global_eq]
  exact hidle

/-- **`ipc_shm_free_instance` of an instance in use.** -/
theorem ipcShmFreeInstance_inUse (hinst : inst < ipcShmMaxInstances) (hu : InUse d inst h μ cfg) :
    CallWp (ipcShmFreeInstance d inst) (fun d' h' => Idle d' inst h') h := by
  unfold ipcShmFreeInstance
  refine CallWp.bind (ipcInstanceIsFree_inUse hinst hu).call ?_
  rintro st h₀ ⟨rfl, rfl⟩
  rw [if_neg (not_not.mpr rfl)]
  dsimp only
  rw [hu.global_eq]
  refine CallWp.store_state hu.map_eq hu.size_le (fun h₁ hmap₁ _ hmem₁ => ?_)
  have hframe : ∀ a, ¬Within μ.phys 8 a → h₁.mem a = h₀.mem a := by
    intro a ha
    unfold Within at ha
    rw [hmem₁, ByteMem.store_of_not_mem _ (by omega)]
  rw [ipcHwIrqDisable_bind]
  refine ⟨trivial, ?_⟩
  rintro r h₂ ⟨heq, -⟩
  obtain rfl : h₁ = h₂ := heq.symm
  dsimp only
  rw [hu.numChannels_eq]
  have hheld : ∀ c, 0 ≤ c → c < 0 + cfg.numChannels.toNat →
      ((d.priv inst).channels c).HeldAt μ h₁.mem (cfg.chanOff c) (cfg.chan c) :=
    fun c _ hc => (hu.held c (by omega)).frame (fun a ha => hframe a (not_within_state ha))
  have hcalm : Calm (fun a => ∃ c, 0 ≤ c ∧ c < 0 + cfg.numChannels.toNat ∧
      ((d.priv inst).channels c).headers μ ((d.priv inst).channels c).type a) h₁.mem := by
    refine hu.calm.of_bytes (fun a => ?_)
    by_cases h8 : Within μ.phys 8 a
    · rw [hmem₁, show ipcShmStateClear = 0 from rfl, ByteMem.store_zero _ h8]
      exact Or.inr (Or.inl (by decide))
    · by_cases hS : ∃ c, c < cfg.numChannels.toNat ∧
          ((d.priv inst).channels c).headers μ (cfg.chan c).type a
      · obtain ⟨c, hc, ha⟩ := hS
        rw [← hu.type_eq c hc] at ha
        exact Or.inl ⟨c, Nat.zero_le c, by omega, ha⟩
      · exact Or.inr (Or.inr ⟨fun h => h.elim h8 hS, hframe a h8⟩)
  refine CallWp.bind (freeChannels_host (hmap₁.trans hu.map_eq)
    (fun c _ hc => hu.type_eq c (by omega)) ?_).call ?_
  · exact hheld
  rintro p h₃ hw
  rw [ipcOsFree_bind]
  refine ⟨trivial, ?_⟩
  rintro r h₄ ⟨rfl, -⟩
  rw [ipcHwFree_bind]
  refine ⟨trivial, ?_⟩
  rintro r h₅ ⟨rfl, -⟩
  have hpriv : (d.setPriv inst p).priv inst = p := Function.update_self ..
  refine ⟨?_, fun c => ?_, hw.wiped.calm hcalm (fun a ha => ha)⟩
  · rw [hpriv]
    exact hw.same.global_eq
  rw [hpriv]
  by_cases hc : c < cfg.numChannels.toNat
  · exact hw.freed c (Nat.zero_le c) (by omega)
  · rw [hw.other c (by omega)]
    exact hu.after c (Nat.not_lt.mp hc)

end Calls

/-! ## Sequences of calls -/

/-- **The host and the driver**, between two calls. `used` says that an attempt
to initialize the instance has succeeded since it was last freed. -/
structure HostSys where
  host : Host
  drv : Driver := {}
  used : Bool := false

/-- The host as a call finds it. -/
def HostSys.entered (σ : HostSys) : Host := { σ.host with looked := [] }

/-- **One call on the instance**, answered as `A` allows. -/
inductive HostSys.Step (A : (o : Op) → Host → o.Ret → Host → Prop) (inst : ℕ) :
    HostSys → HostSys → Prop
  | init {σ : HostSys} {cfg : Option IpcShmCfg} {err : ℤ} {d : Driver} {h : Host} :
    (ipcShmInitInstance σ.drv inst cfg).Exec A σ.entered (err, d) h →
    HostSys.Step A inst σ { host := h, drv := d, used := if err = 0 then true else σ.used }
  | free {σ : HostSys} {d : Driver} {h : Host} :
    (ipcShmFreeInstance σ.drv inst).Exec A σ.entered d h →
    HostSys.Step A inst σ { host := h, drv := d, used := false }

/-- **What a teardown leaves.** No address in memory could be taken for the
header of a ring or of an unmanaged channel, and no pointer is left. -/
structure HostSys.Clean (σ : HostSys) (inst : ℕ) : Prop where
  /-- The instance is free. -/
  global : (σ.drv.priv inst).global = 0
  ring : ∀ a, σ.host.mem.load 8 a ≠ ipcQueueInitDone ∧
    σ.host.mem.load 8 a ≠ ipcQueueInitInProgress
  uchan : ∀ a, σ.host.mem.load 4 a ≠ ipcUchanInitDone ∧
    σ.host.mem.load 4 a ≠ ipcShmUchanInitInProgress
  channelRing : ∀ c, ((σ.drv.priv inst).channels c).mng.bdQueue.pushRing = 0
  poolRing : ∀ c p, (((σ.drv.priv inst).channels c).mng.pools p).bdQueue.pushRing = 0
  localMem : ∀ c, ((σ.drv.priv inst).channels c).localMem = 0

section Runs

variable {inst : ℕ} {σ τ : HostSys}

theorem Idle.clean (h : Idle σ.drv inst σ.host) : σ.Clean inst where
  global := h.global_eq
  ring := fun a => ⟨h.calm.load_ne (by decide) (by decide) a,
    h.calm.load_ne (by decide) (by decide) a⟩
  uchan := fun a => ⟨h.calm.load_ne (by decide) (by decide) a,
    h.calm.load_ne (by decide) (by decide) a⟩
  channelRing := fun c => (h.null c).1
  poolRing := fun c p => (h.null c).2 p
  localMem := fun c => (h.null c).1

/-- **The invariant**: an instance is free, or in use. -/
def HostSys.Inv (inst : ℕ) (σ : HostSys) : Prop :=
  if σ.used then ∃ μ cfg, InUse σ.drv inst σ.host μ cfg else Idle σ.drv inst σ.host

theorem HostSys.Inv.idle (h : σ.Inv inst) (hu : σ.used = false) : Idle σ.drv inst σ.host := by
  unfold HostSys.Inv at h
  rwa [hu, if_neg (by decide)] at h

theorem HostSys.Inv.inUse (h : σ.Inv inst) (hu : σ.used = true) :
    ∃ μ cfg, InUse σ.drv inst σ.host μ cfg := by
  unfold HostSys.Inv at h
  rwa [hu, if_pos rfl] at h

/-- Every call keeps the invariant and stays in the mapping. -/
theorem HostSys.Inv.init (h : σ.Inv inst) (hinst : inst < ipcShmMaxInstances)
    (cfg : Option IpcShmCfg) :
    CallWp (ipcShmInitInstance σ.drv inst cfg) (fun r h' => HostSys.Inv inst
      { host := h', drv := r.2, used := if r.1 = 0 then true else σ.used }) σ.entered := by
  cases hu : σ.used with
  | false =>
    have hidle := h.idle hu
    have hent : Idle σ.drv inst σ.entered := ⟨hidle.global_eq, hidle.null, hidle.calm⟩
    refine (ipcShmInitInstance_idle hinst hent rfl cfg).mono ?_
    rintro ⟨err, d⟩ h' (⟨he, hi⟩ | ⟨he, hu'⟩)
    · have he : err ≠ 0 := he
      simp only [HostSys.Inv, if_neg he]
      exact hi
    · have he : err = 0 := he
      simp only [HostSys.Inv, if_pos he]
      exact hu'
  | true =>
    obtain ⟨μ, cfg₀, hin⟩ := h.inUse hu
    have hent : InUse σ.drv inst σ.entered μ cfg₀ :=
      ⟨hin.map_eq, hin.size_le, hin.global_eq, hin.ready, hin.numChannels_eq, hin.type_eq, hin.held,
        hin.after, hin.calm⟩
    refine (ipcShmInitInstance_inUse hinst hent cfg).mono ?_
    rintro r h' ⟨rfl, rfl⟩
    simp only [HostSys.Inv, ite_self]
    exact ⟨μ, cfg₀, hent⟩

theorem HostSys.Inv.free (h : σ.Inv inst) (hinst : inst < ipcShmMaxInstances) :
    CallWp (ipcShmFreeInstance σ.drv inst)
      (fun d h' => HostSys.Inv inst { host := h', drv := d, used := false }) σ.entered := by
  cases hu : σ.used with
  | false =>
    have hidle := h.idle hu
    exact ipcShmFreeInstance_idle hinst ⟨hidle.global_eq, hidle.null, hidle.calm⟩
  | true =>
    obtain ⟨μ, cfg, hin⟩ := h.inUse hu
    have hent : InUse σ.drv inst σ.entered μ cfg :=
      ⟨hin.map_eq, hin.size_le, hin.global_eq, hin.ready, hin.numChannels_eq, hin.type_eq, hin.held,
        hin.after, hin.calm⟩
    exact ipcShmFreeInstance_inUse hinst hent

theorem HostSys.Step.inv (hinst : inst < ipcShmMaxInstances) (hσ : σ.Inv inst)
    (hs : HostSys.Step Host.AnswersCarefully inst σ τ) : τ.Inv inst := by
  cases hs with
  | init hexec => exact hexec.of_wp (hσ.init hinst _)
  | free hexec => exact hexec.of_wp (hσ.free hinst)

end Runs

/-- A host that starts up: shared memory is cleared, nothing is mapped, and the
private data is that of static storage. -/
def startup : HostSys := { host := { mem := fun _ => 0 } }

theorem startup_inv (inst : ℕ) : startup.Inv inst :=
  ⟨rfl, fun _ => ⟨rfl, fun _ => rfl⟩, fun _ => Or.inl (Or.inr (show 0 < 16 by decide))⟩

/-- **Clean teardown.** In every sequence of attempts to initialize an instance
and of releases, in which no attempt finds the ring it is about to initialize
`IN_PROGRESS` on the remote side, and the mapped windows hold the headers of
the configuration: whenever the instance is not in use it is free, points
nowhere, and no sentinel is left; and no call, then or later, leaves the
mapping there is. -/
theorem clean_teardown {inst : ℕ} (hinst : inst < ipcShmMaxInstances) {σ : HostSys}
    (hrun : Relation.ReflTransGen (HostSys.Step Host.AnswersCarefully inst) startup σ) :
    (σ.used = false → σ.Clean inst) ∧
    (∀ cfg, CallWp (ipcShmInitInstance σ.drv inst cfg) (fun _ _ => True) σ.entered) ∧
    CallWp (ipcShmFreeInstance σ.drv inst) (fun _ _ => True) σ.entered := by
  have hinv : σ.Inv inst := by
    induction hrun with
    | refl => exact startup_inv inst
    | tail _ hs ih => exact hs.inv hinst ih
  exact ⟨fun hu => (hinv.idle hu).clean,
    fun cfg => (hinv.init hinst cfg).mono (fun _ _ _ => trivial),
    (hinv.free hinst).mono (fun _ _ _ => trivial)⟩

/-! ## A host that can be run -/

instance (μ : ShmMap) (a k : ℕ) : Decidable (InRemote μ a k) :=
  inferInstanceAs (Decidable (μ.remoteShm ≤ a ∧ a + k ≤ μ.remoteShm + μ.size))

/-- **A host that answers**, with `remote` in the remote window and the mapping
`μ` for a configuration that names the memory behind it. -/
def hostHandle (μ : HostMap) (remote : ByteMem) : (o : Op) → Host → Option (o.Ret × Host)
  | .load n a, h => h.map.bind (fun μ =>
      if InWindow μ.toShmMap a n then some (h.mem.load n (μ.addr a), h)
      else if InRemote μ.toShmMap a n then
        some (remote.load n (a - μ.remoteShm), { h with looked := a :: h.looked })
      else none)
  | .store n a v, h => h.map.bind (fun μ =>
      if InWindow μ.toShmMap a n then
        some ((), { h with mem := h.mem.store n (μ.addr a) v })
      else none)
  | .memcpyFrom a n, h => h.map.bind (fun μ =>
      if InRemote μ.toShmMap a n then
        some (remote.read (a - μ.remoteShm) n, h)
      else none)
  | .memcpyTo a bs, h => h.map.bind (fun μ =>
      if InWindow μ.toShmMap a bs.length then
        some ((), { h with mem := h.mem.write (μ.addr a) bs })
      else none)
  | .poolsOutOfBounds _, _ => none
  | .undefinedBehaviour, _ => none
  | .ipcHwInit _ _, h => some (0, h)
  | .ipcHwFree _, h => some ((), h)
  | .ipcHwIrqEnable _, h => some ((), h)
  | .ipcHwIrqDisable _, h => some ((), h)
  | .ipcHwIrqNotify _, h => some ((), h)
  | .ipcOsInit _ cfg, h =>
    if μ.size = cfg.shmSize.toNat ∧ μ.phys = cfg.localShmAddr then
      some ((0, μ.os), { h with map := some μ })
    else some ((-ENOMEM, {}), h)
  | .ipcOsFree _, h => some ((), { h with map := none })
  | .rxCb _ _ _ _ _ _, h => some ((), h)
  | .rxCbUnmanaged _ _ _ _ _, h => some ((), h)

section Handle

variable (μ : HostMap) (remote : ByteMem)

/-- It answers as a host may. -/
theorem answers_of_hostHandle (o : Op) (h : Host) (r : o.Ret) (h' : Host)
    (ha : hostHandle μ remote o h = some (r, h')) : h.Answers o r h' := by
  cases o with
  | load n a =>
    obtain ⟨μ', hμ', ha⟩ := Option.bind_eq_some_iff.mp ha
    split at ha
    · rename_i hin
      obtain ⟨rfl, rfl⟩ := Prod.mk.inj (Option.some.inj ha)
      exact ⟨μ', hμ', Or.inl ⟨hin, rfl, rfl⟩⟩
    · split at ha
      · rename_i hin
        obtain ⟨rfl, rfl⟩ := Prod.mk.inj (Option.some.inj ha)
        exact ⟨μ', hμ', Or.inr ⟨hin, ByteMem.load_lt _ _ _, rfl⟩⟩
      · exact nomatch ha
  | store n a v =>
    obtain ⟨μ', hμ', ha⟩ := Option.bind_eq_some_iff.mp ha
    split at ha
    · obtain ⟨rfl, rfl⟩ := Prod.mk.inj (Option.some.inj ha)
      exact ⟨μ', hμ', rfl⟩
    · exact nomatch ha
  | memcpyFrom a n =>
    obtain ⟨μ', hμ', ha⟩ := Option.bind_eq_some_iff.mp ha
    split at ha
    · obtain ⟨rfl, rfl⟩ := Prod.mk.inj (Option.some.inj ha)
      exact ⟨ByteMem.read_length _ _ _, rfl⟩
    · exact nomatch ha
  | memcpyTo a bs =>
    obtain ⟨μ', hμ', ha⟩ := Option.bind_eq_some_iff.mp ha
    split at ha
    · obtain ⟨rfl, rfl⟩ := Prod.mk.inj (Option.some.inj ha)
      exact ⟨μ', hμ', rfl⟩
    · exact nomatch ha
  | ipcOsInit inst cfg =>
    rw [hostHandle] at ha
    split at ha
    · rename_i hcfg
      obtain ⟨rfl, rfl⟩ := Prod.mk.inj (Option.some.inj ha)
      exact Or.inr ⟨rfl, μ, hcfg.1, hcfg.2, rfl, rfl⟩
    · obtain ⟨rfl, rfl⟩ := Prod.mk.inj (Option.some.inj ha)
      exact Or.inl ⟨show -ENOMEM ≠ 0 by decide, rfl⟩
  | poolsOutOfBounds i => exact nomatch ha
  | undefinedBehaviour => exact nomatch ha
  | _ =>
    obtain ⟨rfl, rfl⟩ := Prod.mk.inj (Option.some.inj ha)
    rfl

/-- It answers whatever the host survives. -/
theorem hostHandle_of_safe (o : Op) (h : Host) (hs : h.Safe o) :
    ∃ r h', hostHandle μ remote o h = some (r, h') ∧ h.Answers o r h' := by
  suffices hsome : ∃ r, hostHandle μ remote o h = some r by
    obtain ⟨⟨r, h'⟩, hr⟩ := hsome
    exact ⟨r, h', hr, answers_of_hostHandle μ remote o h r h' hr⟩
  cases o with
  | load n a =>
    obtain ⟨μ', hμ', hin⟩ := hs
    rw [hostHandle, hμ', Option.bind_some]
    split
    · exact ⟨_, rfl⟩
    · rename_i hout
      rw [if_pos (hin.resolve_left hout)]
      exact ⟨_, rfl⟩
  | store n a v =>
    obtain ⟨μ', hμ', hin⟩ := hs
    rw [hostHandle, hμ', Option.bind_some, if_pos hin]
    exact ⟨_, rfl⟩
  | memcpyFrom a n =>
    obtain ⟨μ', hμ', hin⟩ := hs
    rw [hostHandle, hμ', Option.bind_some, if_pos hin]
    exact ⟨_, rfl⟩
  | memcpyTo a bs =>
    obtain ⟨μ', hμ', hin⟩ := hs
    rw [hostHandle, hμ', Option.bind_some, if_pos hin]
    exact ⟨_, rfl⟩
  | poolsOutOfBounds i => exact hs.elim
  | undefinedBehaviour => exact hs.elim
  | ipcOsInit inst cfg =>
    rw [hostHandle]
    split
    · exact ⟨_, rfl⟩
    · exact ⟨_, rfl⟩
  | _ => exact ⟨_, rfl⟩

end Handle

/-- The windows of one peer, over the memory `onePoolCfg` names. -/
def onePoolMap (s : Side) : HostMap := { twoWindows s with phys := 0x34000000 }

/-- A managed channel without a callback. -/
def noCallbackCfg : IpcShmCfg :=
  { onePoolCfg 0x1000 16 with channels := some (fun _ => .managed
      { numPools := 1, pools := some (fun _ => ⟨1, 16⟩), rxCb := 0, cbArg := 0 }) }

/-- The host with a remote side that is cleared, once the windows are mapped. -/
def clearedHandle (μ : HostMap) : (o : Op) → Host → Option (o.Ret × Host)
  | .ipcOsInit _ _, _ => none
  | o, h => hostHandle μ (fun _ => 0) o h

theorem carefully_of_clearedHandle {μ : HostMap} (o : Op) (h : Host) (r : o.Ret) (h' : Host)
    (ha : clearedHandle μ o h = some (r, h')) : h.AnswersCarefully o r h' := by
  cases o with
  | load n a =>
    have ha : hostHandle μ (fun _ => 0) (.load n a) h = some (r, h') := ha
    refine ⟨answers_of_hostHandle μ (fun _ => 0) _ h r h' ha, fun μ' hμ' h8 hin _ => ?_⟩
    rw [hostHandle, hμ', Option.bind_some, if_neg (InRemote.not_inWindow (by omega) hin),
      if_pos hin] at ha
    have hr : ByteMem.load (fun _ => 0) n (a - μ'.remoteShm) = r :=
      (Prod.mk.inj (Option.some.inj ha)).1
    subst h8
    rw [← hr, ByteMem.load_cleared]
    exact show (0 : ℕ) ≠ ipcQueueInitInProgress by decide
  | ipcOsInit inst cfg => exact nomatch ha
  | _ => exact ⟨answers_of_hostHandle μ (fun _ => 0) _ h r h' ha, trivial⟩

/-- An attempt that gets as far as the channels. -/
theorem exec_initMapped {A : (o : Op) → Host → o.Ret → Host → Prop} {d : Driver} {inst : ℕ}
    {cfg : IpcShmCfg} {os : IpcOs} {h h₁ h₂ : Host} {r : ℤ × Driver}
    (hinst : inst < ipcShmMaxInstances) (hfree : (d.priv inst).global = 0)
    (haddr : ¬(cfg.localShmAddr = 0 ∨ cfg.remoteShmAddr = 0))
    (hnum : ¬(cfg.numChannels.toNat < 1 ∨ ipcShmMaxChannels < cfg.numChannels.toNat))
    (hhw : A (.ipcHwInit inst cfg) h 0 h) (hos : A (.ipcOsInit inst cfg) h (0, os) h₁)
    (hrest : (initMapped ((d.setPriv inst ((d.priv inst).started cfg)).setOs inst os) inst cfg os
      { (d.priv inst).started cfg with global := os.localShm }).Exec A h₁ r h₂) :
    (ipcShmInitInstance d inst (some cfg)).Exec A h r h₂ := by
  have hne : IpcShmInstanceState.free ≠ .used := by decide
  unfold ipcShmInitInstance
  rw [ipcInstanceIsFree_null hinst hfree, Program.pure_bind, if_neg hne]
  dsimp only
  rw [if_neg haddr, if_neg hnum, if_neg (Nat.not_le.mpr hinst), ipcHwInit_bind]
  refine ⟨0, h, hhw, ?_⟩
  dsimp only
  rw [if_neg (not_not.mpr rfl), ipcOsInit_bind]
  refine ⟨(0, os), h₁, hos, ?_⟩
  dsimp only
  rw [if_neg (not_not.mpr rfl)]
  have hpriv : (((d.setPriv inst { d.priv inst with
      shmSize := cfg.shmSize.toNat
      numChannels := cfg.numChannels.toNat }).setOs inst os).priv inst)
      = (d.priv inst).started cfg := Function.update_self ..
  rw [hpriv]
  exact hrest

/-- An attempt that finds no room for its pool, after it has initialized the
ring of the channel and that of the pool, leaves nothing behind. -/
theorem clean_teardown_no_room : ∃ σ : HostSys,
    HostSys.Step Host.AnswersCarefully 0 startup σ ∧ σ.used = false ∧ σ.Clean 0 := by
  let μ := onePoolMap .a
  let cfg := onePoolCfg 0x1000 0x2000
  have hrun : ((initMapped ((Driver.setPriv {} 0 (IpcShmPriv.started {} cfg)).setOs 0 μ.os) 0 cfg
      μ.os { IpcShmPriv.started {} cfg with global := μ.os.localShm }).run (clearedHandle μ)
      { startup.entered with map := some μ }).map (fun r => r.1.1) = some (-ENOMEM) := by
    decide +kernel
  obtain ⟨⟨⟨err, d⟩, h⟩, hrun, rfl⟩ := Option.map_eq_some_iff.mp hrun
  have hos : startup.entered.AnswersCarefully (.ipcOsInit 0 cfg) (0, μ.os)
      { startup.entered with map := some μ } :=
    ⟨Or.inr ⟨rfl, μ, by decide, by decide, rfl, rfl⟩,
      fun _ μ' hμ' => Option.some.inj hμ' ▸ onePoolCfg_checked⟩
  have hstep : HostSys.Step Host.AnswersCarefully 0 startup ⟨h, d, false⟩ :=
    HostSys.Step.init (exec_initMapped (by decide) rfl (by decide) (by decide) ⟨rfl, trivial⟩ hos
      (Program.exec_of_run carefully_of_clearedHandle hrun))
  exact ⟨_, hstep, rfl, (clean_teardown (by decide) (.single hstep)).1 rfl⟩

/-- A remote side that is initializing the ring at the offset 8. -/
def initializing : ByteMem := ByteMem.store (fun _ => 0) 8 8 ipcQueueInitInProgress

/-- **A pointer is left behind.** The remote is initializing the ring of the
channel when the first attempt looks: it gives up with `-EAGAIN`, the ring it
has not touched is not live, and so the cleanup leaves `push_ring` as it is.
The next attempt, mapped elsewhere, is refused for want of a callback, and its
cleanup follows that pointer out of the mapping. -/
theorem init_leaves_pointer : ∃ σ : HostSys,
    HostSys.Step Host.Answers 0 startup σ ∧ σ.used = false ∧
    ((σ.drv.priv 0).channels 0).mng.bdQueue.pushRing ≠ 0 ∧
    ¬(ipcShmInitInstance σ.drv 0 (some noCallbackCfg)).wp
      (Program.demonic Host.Safe Host.Answers) (fun _ _ => True) σ.entered := by
  have hrun : ((ipcShmInitInstance {} 0 (some (onePoolCfg 0x1000 16))).run
      (hostHandle (onePoolMap .a) initializing) startup.entered).map
      (fun r => (r.1.1, ((r.1.2.priv 0).channels 0).mng.bdQueue.pushRing,
        ((ipcShmInitInstance r.1.2 0 (some noCallbackCfg)).run
          (hostHandle (onePoolMap .b) (fun _ => 0)) { r.2 with looked := [] }).isSome))
      = some (-EAGAIN, 0x1008, false) := by decide +kernel
  obtain ⟨⟨⟨err, d⟩, h⟩, hrun, hr⟩ := Option.map_eq_some_iff.mp hrun
  obtain ⟨rfl, hr⟩ := Prod.mk.inj hr
  obtain ⟨hpush, hnone⟩ := Prod.mk.inj hr
  have hexec : (ipcShmInitInstance startup.drv 0 (some (onePoolCfg 0x1000 16))).Exec Host.Answers
      startup.entered (-EAGAIN, d) h := Program.exec_of_run (answers_of_hostHandle _ _) hrun
  refine ⟨⟨h, d, false⟩, .init hexec, rfl, ?_, fun hwp => ?_⟩
  · show ((d.priv 0).channels 0).mng.bdQueue.pushRing ≠ 0
    rw [hpush]
    decide
  · obtain ⟨r, t, hsome, -⟩ := Program.run_of_wp (hostHandle_of_safe (onePoolMap .b) fun _ => 0) hwp
    dsimp only at hnone
    rw [show ({ h with looked := [] } : Host) = HostSys.entered ⟨h, d, false⟩ from rfl,
      hsome] at hnone
    exact nomatch hnone
