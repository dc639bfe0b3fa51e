import IpcShm.Placement

/-!
# The layout two peers agree on

`ipc_shm_init_instance` walks over its channels with two pointers, one into
each window, and moves both by what `get_chan_memmap_size` says the channel
takes. Whatever it finds in memory, an accepted configuration ends up exactly
in its layout, provided the layout fits.

Everything then follows from the layout being a list of consecutive regions.
The same list, shifted, describes the remote window, so a ring of one peer is
where the other peer looks for it as soon as the two configurations have the
same shape.
-/

section ChannelSize

variable {os : IpcOs} {off : ℕ}

/-- The size of a managed channel, pool by pool. -/
theorem foldl_shmSize {mchan : IpcManagedChannel} {m : IpcShmManagedCfg}
    {pools : ℕ → IpcShmPoolCfg} (h : mchan.Laid os off m pools)
    (hlt : poolOff pools m.numPools.toNat m.numPools.toNat < 2 ^ 32) {k : ℕ}
    (hk : k ≤ m.numPools.toNat) :
    (List.range k).foldl (fun size p => u32 (size + (mchan.pools p).shmSize))
        (ringBytes (bufsOf pools m.numPools.toNat))
      = poolOff pools m.numPools.toNat k := by
  induction k with
  | zero => exact (poolOff_zero pools _).symm
  | succ k ih =>
    have hle := poolOff_mono pools m.numPools.toNat hk
    rw [poolOff_succ] at hle ⊢
    rw [List.range_succ, List.foldl_append, ih (Nat.le_of_succ_le hk), List.foldl_cons,
      List.foldl_nil, (h.pool k hk).shmSize_eq, u32_of_lt (by omega)]

/-- **`get_chan_memmap_size`** is the extent of the channel. -/
theorem getChanMemmapSize_laid {chan : IpcShmChannel} {cc : IpcShmChannelCfg}
    (h : chan.Laid os off cc) (hlt : cc.extent < 2 ^ 32) :
    getChanMemmapSize chan = cc.extent := by
  unfold getChanMemmapSize
  cases cc with
  | managed m =>
    obtain ⟨htype, pools, hl⟩ := h
    rw [IpcShmChannelCfg.extent, hl.pools_eq] at hlt ⊢
    rw [htype, if_neg (by decide), hl.bdQueue_eq, ipcQueueMemSize_laid hl.total_le, hl.numPools_eq]
    exact foldl_shmSize hl hlt (Nat.le_refl _)
  | unmanaged u =>
    obtain ⟨htype, hl⟩ := h
    rw [htype, if_pos rfl, hl.size_eq]
    exact u32_of_lt hlt
  | invalid => exact False.elim h

end ChannelSize

/-! ## Initializing an instance -/

/-- What the loop over the channels leaves alone. -/
structure IpcShmPriv.SameHeader (p p' : IpcShmPriv) : Prop where
  shmSize_eq : p'.shmSize = p.shmSize
  numChannels_eq : p'.numChannels = p.numChannels
  global_eq : p'.global = p.global

/-- The channels of an instance, placed. -/
def IpcShmPriv.Placed (priv : IpcShmPriv) (os : IpcOs) (cfg : IpcShmCfg) : Prop :=
  ∀ c, c < cfg.numChannels.toNat → (priv.channels c).Placed os (cfg.chanOff c) (cfg.chan c)

/-- A channel of the instance in its place, with its id. -/
def IpcShmPriv.LaidAt (priv : IpcShmPriv) (os : IpcOs) (cfg : IpcShmCfg) (c : ℕ) : Prop :=
  (priv.channels c).id = c ∧ (priv.channels c).Laid os (cfg.chanOff c) (cfg.chan c)

theorem IpcShmPriv.Laid.placed {priv : IpcShmPriv} {os : IpcOs} {cfg : IpcShmCfg}
    (h : priv.Laid os cfg) : priv.Placed os cfg := fun c hc => (h.chan c hc).placed

theorem IpcShmPriv.Placed.setChannel {priv : IpcShmPriv} {os : IpcOs} {cfg : IpcShmCfg} {c : ℕ}
    {chan : IpcShmChannel} (h : priv.Placed os cfg)
    (hc : chan.Placed os (cfg.chanOff c) (cfg.chan c)) :
    (priv.setChannel c chan).Placed os cfg := by
  intro c' hc'
  by_cases heq : c' = c
  · subst heq
    simp only [IpcShmPriv.setChannel, Function.update_self]
    exact hc
  · simp only [IpcShmPriv.setChannel, Function.update_of_ne heq]
    exact h c' hc'

section Instance

variable {μ : ShmMap} {P : ℕ → ℕ → Prop} {cfg : IpcShmCfg}

/-- Stores into the control regions of every channel are allowed. -/
def ChannelsAllowed (μ : ShmMap) (P : ℕ → ℕ → Prop) (cfg : IpcShmCfg) : Prop :=
  ∀ c, c < cfg.numChannels.toNat → ∀ a k,
    (cfg.chan c).InCtrl μ.localShm (cfg.chanOff c) a k → P a k

/-- **The channels that the initialization handles exactly** as far as they
start in the window: it does not get to the others. -/
def ChannelsChecked (μ : ShmMap) (P : ℕ → ℕ → Prop) (cfg : IpcShmCfg) : Prop :=
  ∀ c, c < cfg.numChannels.toNat → cfg.chanOff c ≤ μ.size →
    ChannelChecked μ P (cfg.chanOff c) (cfg.chan c)

theorem ChannelsAllowed.checked (hP : ChannelsAllowed μ P cfg) (hsize : μ.size < 2 ^ 32)
    (hfit : cfg.footprint ≤ μ.size) : ChannelsChecked μ P cfg :=
  fun c hc _ => .of_fit hsize ((cfg.chanOff_add_extent_le hc).trans hfit) (hP c hc)

/-- All queues of all channels can be freed. -/
def IpcShmPriv.Freeable (priv : IpcShmPriv) (P : ℕ → ℕ → Prop) : Prop :=
  ∀ c, (priv.channels c).mng.Freeable P

variable {priv : IpcShmPriv}

theorem IpcShmPriv.Freeable.setChannel {c : ℕ} {chan : IpcShmChannel} (h : priv.Freeable P)
    (hc : chan.mng.Freeable P) : (priv.setChannel c chan).Freeable P := by
  intro c'
  by_cases heq : c' = c
  · subst heq
    simp only [IpcShmPriv.setChannel, Function.update_self]
    exact hc
  · simp only [IpcShmPriv.setChannel, Function.update_of_ne heq]
    exact h c'

/-- `ipc_shm_init_channels` in its place in the loop. -/
theorem initChannel_always {c : ℕ} (hc : c < cfg.numChannels.toNat) (chan : IpcShmChannel)
    (hstart : cfg.chanOff c ≤ μ.size) (hP : ChannelsChecked μ P cfg) :
    (ipcShmInitChannels μ.os μ.size chan c (μ.localShm + cfg.chanOff c)
        (μ.remoteShm + cfg.chanOff c) (cfg.channels.map (fun f => f c))).Always (Env μ) (Quiet P)
      (ChannelOutcome μ P (cfg.chanOff c) c (cfg.chan c) chan) := by
  have hP := hP c hc hstart
  unfold IpcShmCfg.chan at *
  cases hch : cfg.channels with
  | none =>
    have hinval : -EINVAL ≠ 0 := by decide
    exact ⟨fun h => h, fun h => h, fun h => absurd h hinval, fun h => absurd h hinval⟩
  | some f =>
    rw [hch] at hP
    exact ipcShmInitChannels_always c hP

/-- The channel after a channel in its place. -/
theorem chanAddr_next {c : ℕ} {chan : IpcShmChannel}
    (hl : chan.Laid μ.os (cfg.chanOff c) (cfg.chan c)) (hsize : μ.size < 2 ^ 32)
    (hfit : cfg.chanOff (c + 1) ≤ μ.size) :
    u64 (μ.localShm + cfg.chanOff c + getChanMemmapSize chan)
        = μ.localShm + cfg.chanOff (c + 1) ∧
      u64 (μ.remoteShm + cfg.chanOff c + getChanMemmapSize chan)
        = μ.remoteShm + cfg.chanOff (c + 1) := by
  have hloc := μ.localShm_lt
  have hrem := μ.remoteShm_lt
  rw [cfg.chanOff_succ] at hfit
  have hext : (cfg.chan c).extent < 2 ^ 32 := by omega
  rw [getChanMemmapSize_laid hl hext, cfg.chanOff_succ, u64_of_lt (by omega),
    u64_of_lt (by omega), Nat.add_assoc, Nat.add_assoc]
  exact ⟨rfl, rfl⟩

/-- **What an accepted configuration is known to be**: its channels fit the
window and their pools are sorted. -/
structure IpcShmCfg.Accepted (cfg : IpcShmCfg) (size : ℕ) : Prop where
  fits : cfg.footprint ≤ size
  ascending : ∀ c, c < cfg.numChannels.toNat → (cfg.chan c).Ascending

/-- **What the loop over the channels leaves.** -/
structure ChannelsOutcome (μ : ShmMap) (P : ℕ → ℕ → Prop) (cfg : IpcShmCfg) (priv : IpcShmPriv)
    (r : ℤ × IpcShmPriv) : Prop where
  same : priv.SameHeader r.2
  placed : priv.Placed μ.os cfg → r.2.Placed μ.os cfg
  freeable : priv.Freeable P → r.2.Freeable P
  ready : r.1 = 0 → ∀ c, c < cfg.numChannels.toNat → r.2.LaidAt μ.os cfg c
  accepted : r.1 = 0 → cfg.Accepted μ.size

/-- **The loop over the channels**: `k` channels are left, those before are in
their place. -/
theorem initChannels_always {k c : ℕ} (hk : c + k = cfg.numChannels.toNat) (hsize : μ.size < 2 ^ 32)
    (hshm : priv.shmSize = μ.size) (hstart : cfg.chanOff c ≤ μ.size)
    (hlaid : ∀ c', c' < c → priv.LaidAt μ.os cfg c') (hasc : ∀ c', c' < c → (cfg.chan c').Ascending)
    (hP : ChannelsChecked μ P cfg) :
    (initChannels μ.os cfg.channels k c (μ.localShm + cfg.chanOff c)
        (μ.remoteShm + cfg.chanOff c) priv).Always (Env μ) (Quiet P)
      (ChannelsOutcome μ P cfg priv) := by
  induction k generalizing c priv with
  | zero =>
    obtain rfl : c = cfg.numChannels.toNat := by omega
    exact ⟨⟨rfl, rfl, rfl⟩, fun h => h, fun h => h, fun _ => hlaid, fun _ => ⟨hstart, hasc⟩⟩
  | succ k ih =>
    have hlt : c < cfg.numChannels.toNat := by omega
    rw [initChannels, hshm]
    refine (initChannel_always hlt _ hstart hP).bind ?_
    rintro ⟨err, chan⟩ hout
    dsimp only
    have hplaced : priv.Placed μ.os cfg → (priv.setChannel c chan).Placed μ.os cfg :=
      fun h => h.setChannel (hout.placed (h c hlt))
    have hfree : priv.Freeable P → (priv.setChannel c chan).Freeable P :=
      fun h => h.setChannel (hout.freeable (h c))
    split
    · rename_i he
      exact ⟨⟨rfl, rfl, rfl⟩, hplaced, hfree, fun h0 => absurd h0 he, fun h0 => absurd h0 he⟩
    · rename_i he
      obtain ⟨hid, hl⟩ := hout.ready (not_not.mp he)
      obtain ⟨hfit, hsorted⟩ := hout.fits (not_not.mp he)
      have hnext : cfg.chanOff (c + 1) ≤ μ.size := by
        rw [cfg.chanOff_succ]
        exact hfit
      obtain ⟨hl₁, hr₁⟩ := chanAddr_next hl hsize hnext
      rw [hl₁, hr₁]
      have hshm' : (priv.setChannel c chan).shmSize = μ.size := hshm
      refine (ih (show c + 1 + k = _ by omega) hshm' hnext (fun c' hc' => ?_)
        (fun c' hc' => ?_)).mono (fun _ h => h) (fun r hr => ?_)
      · by_cases heq : c' = c
        · subst heq
          simp only [IpcShmPriv.LaidAt, IpcShmPriv.setChannel, Function.update_self]
          exact ⟨hid, hl⟩
        · simp only [IpcShmPriv.LaidAt, IpcShmPriv.setChannel, Function.update_of_ne heq]
          exact hlaid c' (by omega)
      · rcases Nat.eq_or_lt_of_le (Nat.lt_succ_iff.mp hc') with rfl | hlt'
        · exact hsorted
        · exact hasc c' hlt'
      · exact ⟨⟨hr.same.shmSize_eq, hr.same.numChannels_eq, hr.same.global_eq⟩,
          fun h => hr.placed (hplaced h), fun h => hr.freeable (hfree h), hr.ready, hr.accepted⟩

/-- The private data as `ipc_shm_init_instance` starts it. -/
def IpcShmPriv.started (priv : IpcShmPriv) (cfg : IpcShmCfg) : IpcShmPriv :=
  { priv with shmSize := cfg.shmSize.toNat, numChannels := cfg.numChannels.toNat }

/-- The part of `ipc_shm_init_instance` that runs with the windows mapped. -/
def initMapped (d : Driver) (inst : ℕ) (cfg : IpcShmCfg) (os : IpcOs) (priv : IpcShmPriv) :
    Drv (ℤ × Driver) := do
  store64 os.localShm ipcShmStateClear
  let (err, priv) ← initChannels os cfg.channels priv.numChannels 0
    (u64 (os.localShm + sizeofIpcShmGlobal)) (u64 (os.remoteShm + sizeofIpcShmGlobal)) priv
  if err ≠ 0 then
    let priv ← freeConfiguredChannels cfg.channels { priv with global := 0 }
    ipcOsFree inst
    ipcHwFree inst
    return (err, d.setPriv inst priv)
  else
    ipcHwIrqEnable inst
    store64 priv.global ipcShmStateReady
    return (0, d.setPriv inst priv)

/-- **The outcomes of `ipc_shm_init_instance`**, with what `F` says of private
data that the cleanup of a failed initialization has been over. -/
inductive InitOutcome (μ : ShmMap) (cfg : IpcShmCfg) (inst : ℕ) (F : IpcShmPriv → Prop)
    (d : Driver) : ℤ × Driver → Prop where
  /-- The call is refused. -/
  | refused {err : ℤ} : err ≠ 0 → InitOutcome μ cfg inst F d (err, d)
  /-- The HW or the OS layer fails. -/
  | unmapped {err : ℤ} {d' : Driver} : err ≠ 0 → d'.os inst = d.os inst →
      d'.priv inst = (d.priv inst).started cfg → InitOutcome μ cfg inst F d (err, d')
  /-- A channel fails, and all of them are freed. -/
  | undone {err : ℤ} {d' : Driver} : err ≠ 0 → d'.os inst = μ.os → F (d'.priv inst) →
      InitOutcome μ cfg inst F d (err, d')
  /-- Every channel is in its place. -/
  | ready {d' : Driver} : d'.os inst = μ.os → (d'.priv inst).Laid μ.os cfg →
      InitOutcome μ cfg inst F d (0, d')

theorem ipcInstanceIsFree_always {G : Op → Prop} (hG : ∀ o, Quiet P o → G o) (d : Driver)
    (inst : ℕ) :
    (ipcInstanceIsFree d inst).Always (Env μ) G
      (fun st => st = .used → inst < ipcShmMaxInstances ∧ (d.priv inst).global ≠ 0) := by
  unfold ipcInstanceIsFree
  split
  · exact fun h => nomatch h
  · rename_i hlt
    split
    · exact fun h => nomatch h
    · rename_i hg
      rw [load64_bind]
      refine ⟨hG _ trivial, fun v _ => ?_⟩
      dsimp only
      split
      · exact fun h => nomatch h
      · exact fun _ => ⟨Nat.not_le.mp hlt, hg⟩

/-- **`ipc_shm_init_instance`**, with any replies, from any private data. What
is said of the requests of the cleanup is up to the caller: it follows the
pointers it finds. -/
theorem ipcShmInitInstance_checked {G : Op → Prop} {F : IpcShmPriv → Prop} {d : Driver} {inst : ℕ}
    (hμ : μ.size = cfg.shmSize.toNat) (hhead : sizeofIpcShmGlobal ≤ μ.size)
    (hG : ∀ o, Quiet P o → G o) (hP : ChannelsChecked μ P cfg) (hhdr : P μ.localShm 8)
    (hinst : inst < ipcShmMaxInstances ∨ G .undefinedBehaviour)
    (hfree : ∀ p : IpcShmPriv, ((d.priv inst).Placed μ.os cfg → p.Placed μ.os cfg) →
      ((d.priv inst).Freeable P → p.Freeable P) →
      p.global = 0 → p.shmSize = cfg.shmSize.toNat → p.numChannels = cfg.numChannels.toNat →
      (freeConfiguredChannels cfg.channels p).Always (Env μ) G F) :
    (ipcShmInitInstance d inst (some cfg)).Always (Env μ) G
      (fun r => InitOutcome μ cfg inst F d r ∧ (r.1 = 0 → cfg.Accepted μ.size ∧
        ((d.priv inst).Freeable P → (r.2.priv inst).Freeable P))) := by
  have hsize : μ.size < 2 ^ 32 := by
    rw [hμ]
    exact cfg.shmSize.toNat_lt
  have hoff : sizeofIpcShmGlobal = cfg.chanOff 0 := by simp [IpcShmCfg.chanOff]
  rw [hoff] at hhead
  have hl0 : μ.localShm + cfg.chanOff 0 < 2 ^ 64 := by
    have := μ.localShm_lt
    omega
  have hr0 : μ.remoteShm + cfg.chanOff 0 < 2 ^ 64 := by
    have := μ.remoteShm_lt
    omega
  have hinval : -EINVAL ≠ 0 := by decide
  unfold ipcShmInitInstance
  refine (ipcInstanceIsFree_always hG d inst).bind (fun st _ => ?_)
  split
  · exact ⟨.refused hinval, fun h => absurd h hinval⟩
  dsimp only
  split
  · exact ⟨.refused hinval, fun h => absurd h hinval⟩
  split
  · exact ⟨.refused hinval, fun h => absurd h hinval⟩
  split
  · rename_i hout
    exact ⟨hinst.resolve_left (Nat.not_lt.mpr hout), fun r => Empty.elim r⟩
  rw [ipcHwInit_bind]
  refine ⟨hG _ trivial, fun err _ => ?_⟩
  dsimp only
  split
  · rename_i he
    exact ⟨.unmapped he rfl (Function.update_self ..), fun h => absurd h he⟩
  rw [ipcOsInit_bind]
  refine ⟨hG _ trivial, fun osr hos => ?_⟩
  obtain ⟨err, os⟩ := osr
  dsimp only
  split
  · rename_i he
    exact ⟨hG _ trivial, fun _ _ =>
      ⟨.unmapped he rfl (Function.update_self ..), fun h => absurd h he⟩⟩
  rename_i he
  obtain rfl : os = μ.os := hos (not_not.mp he)
  rw [store64_bind]
  refine ⟨hG _ hhdr, fun _ _ => ?_⟩
  simp only [Driver.setOs, Driver.setPriv, Function.update_self]
  rw [hoff, u64_of_lt (show μ.os.localShm + cfg.chanOff 0 < 2 ^ 64 from hl0),
    u64_of_lt (show μ.os.remoteShm + cfg.chanOff 0 < 2 ^ 64 from hr0)]
  refine ((initChannels_always (Nat.zero_add _) hsize hμ.symm hhead
    (fun c' hc' => absurd hc' (Nat.not_lt_zero c'))
    (fun c' hc' => absurd hc' (Nat.not_lt_zero c')) hP).mono hG (fun r hr => hr)).bind ?_
  rintro ⟨err, priv⟩ hout
  dsimp only
  split
  · rename_i he'
    refine (hfree { priv with global := 0 } hout.placed hout.freeable rfl hout.same.shmSize_eq
      hout.same.numChannels_eq).bind (fun p hp => ⟨hG _ trivial, fun _ _ => ⟨hG _ trivial,
        fun _ _ => ⟨.undone he' (Function.update_self ..) ?_, fun h => absurd h he'⟩⟩⟩)
    simp only [Function.update_self]
    exact hp
  · rename_i he'
    have hlaid := hout.ready (not_not.mp he')
    refine ⟨hG _ trivial, fun _ _ => ⟨hG _ ?_, fun _ _ =>
      ⟨.ready (Function.update_self ..) ?_, fun _ => ⟨hout.accepted (not_not.mp he'), ?_⟩⟩⟩⟩
    · rw [hout.same.global_eq]
      exact hhdr
    · simp only [Function.update_self]
      exact ⟨hout.same.shmSize_eq, hout.same.numChannels_eq, hout.same.global_eq,
        fun c hc => (hlaid c hc).1, fun c hc => (hlaid c hc).2⟩
    · simp only [Function.update_self]
      exact hout.freeable

/-- `ipc_shm_init_instance` where all channels fit. -/
theorem ipcShmInitInstance_always {G : Op → Prop} {F : IpcShmPriv → Prop} {d : Driver} {inst : ℕ}
    (hμ : μ.size = cfg.shmSize.toNat) (hfit : cfg.footprint ≤ μ.size)
    (hG : ∀ o, Quiet P o → G o) (hP : ChannelsAllowed μ P cfg) (hhdr : P μ.localShm 8)
    (hinst : inst < ipcShmMaxInstances ∨ G .undefinedBehaviour)
    (hfree : ∀ p : IpcShmPriv, ((d.priv inst).Placed μ.os cfg → p.Placed μ.os cfg) →
      p.global = 0 → p.shmSize = cfg.shmSize.toNat → p.numChannels = cfg.numChannels.toNat →
      (freeConfiguredChannels cfg.channels p).Always (Env μ) G F) :
    (ipcShmInitInstance d inst (some cfg)).Always (Env μ) G (InitOutcome μ cfg inst F d) := by
  have hsize : μ.size < 2 ^ 32 := by
    rw [hμ]
    exact cfg.shmSize.toNat_lt
  have hhead : sizeofIpcShmGlobal ≤ cfg.footprint := Nat.le_add_right _ _
  exact (ipcShmInitInstance_checked hμ (hhead.trans hfit) hG (hP.checked hsize hfit) hhdr hinst
    (fun p hpl _ => hfree p hpl)).mono (fun _ h => h) (fun _ h => h.1)

/-- The loop freeing the channels. -/
theorem freeChannels_always {type : ℕ → IpcShmChannelType} {k c : ℕ}
    (hP : ∀ c', c ≤ c' → c' < c + k → (priv.channels c').FreeableAs P (type c')) :
    (freeChannels type k c priv).Always (Env μ) (Quiet P)
      (fun p => priv.SameHeader p ∧
        ∀ c', (priv.channels c').mng.Freed (p.channels c').mng) := by
  induction k generalizing c priv with
  | zero => exact ⟨⟨rfl, rfl, rfl⟩, fun _ => .refl _⟩
  | succ k ih =>
    rw [freeChannels]
    refine (ipcShmFreeChannel_always (hP c (Nat.le_refl c) (by omega))).bind (fun chan hchan => ?_)
    have hrest : ∀ c', c + 1 ≤ c' → c' < c + 1 + k →
        ((priv.setChannel c chan).channels c').FreeableAs P (type c') := fun c' hlo hhi => by
      simp only [IpcShmPriv.setChannel, Function.update_of_ne (show c' ≠ c by omega)]
      exact hP c' (by omega) (by omega)
    refine (ih hrest).mono (fun _ h => h) ?_
    rintro p ⟨hsame, hfreed⟩
    refine ⟨⟨hsame.shmSize_eq, hsame.numChannels_eq, hsame.global_eq⟩, fun c' => ?_⟩
    have hc' := hfreed c'
    by_cases heq : c' = c
    · subst heq
      simp only [IpcShmPriv.setChannel, Function.update_self] at hc'
      exact hchan.trans hc'
    · simp only [IpcShmPriv.setChannel, Function.update_of_ne heq] at hc'
      exact hc'

/-- The cleanup of a failed initialization. -/
theorem freeConfiguredChannels_always
    (hP : ∀ c, c < priv.numChannels → (priv.channels c).FreeableAs P (cfg.chan c).type) :
    (freeConfiguredChannels cfg.channels priv).Always (Env μ) (Quiet P)
      (fun p => priv.SameHeader p ∧
        ∀ c, (priv.channels c).mng.Freed (p.channels c).mng) := by
  unfold freeConfiguredChannels
  cases hch : cfg.channels with
  | none => exact ⟨⟨rfl, rfl, rfl⟩, fun _ => .refl _⟩
  | some f =>
    refine freeChannels_always (fun c _ hc => ?_)
    have h := hP c (by omega)
    rwa [IpcShmCfg.chan, hch] at h

/-- Placed channels can be freed. -/
theorem IpcShmPriv.Placed.freeableAs (h : priv.Placed μ.os cfg) (hP : ChannelsAllowed μ P cfg)
    {c : ℕ} (hc : c < cfg.numChannels.toNat) : (priv.channels c).FreeableAs P (cfg.chan c).type :=
  (h c hc).freeableAs (hP c hc)

theorem IpcShmPriv.Placed.freed {p : IpcShmPriv} {os : IpcOs} (h : priv.Placed os cfg)
    (hf : ∀ c, (priv.channels c).mng.Freed (p.channels c).mng) : p.Placed os cfg :=
  fun c hc => (h c hc).freed (hf c)

end Instance

/-! ## Agreement of the peers -/

/-- **Channels of one shape**: the parameters both peers must give alike. -/
inductive IpcShmChannelCfg.SameShape : IpcShmChannelCfg → IpcShmChannelCfg → Prop where
  | managed {m m' : IpcShmManagedCfg} {pools pools' : ℕ → IpcShmPoolCfg} :
      m.numPools = m'.numPools → m.pools = some pools → m'.pools = some pools' →
      (∀ p, p < m.numPools.toNat → pools p = pools' p) → SameShape (.managed m) (.managed m')
  | unmanaged {u u' : IpcShmUnmanagedCfg} : u.size = u'.size →
      SameShape (.unmanaged u) (.unmanaged u')

/-- **Symmetric configurations**: the same channels in the same order, in
windows of one size. Addresses, interrupts and callbacks are each peer's
own. -/
structure IpcShmCfg.Symmetric (cfg cfg' : IpcShmCfg) : Prop where
  shmSize_eq : cfg.shmSize = cfg'.shmSize
  numChannels_eq : cfg.numChannels = cfg'.numChannels
  chan : ∀ c, c < cfg.numChannels.toNat → (cfg.chan c).SameShape (cfg'.chan c)

/-- The queues of an instance: that of a channel, and those of its pools. -/
inductive QueueId where
  | chan (c : ℕ)
  | pool (c p : ℕ)
  deriving DecidableEq

/-- The queue of the given name. -/
def IpcShmPriv.queue (priv : IpcShmPriv) : QueueId → IpcQueue
  | .chan c => (priv.channels c).mng.bdQueue
  | .pool c p => ((priv.channels c).mng.pools p).bdQueue

/-- The name is that of a queue of a managed channel. -/
def IpcShmCfg.HasQueue (cfg : IpcShmCfg) : QueueId → Prop
  | .chan c => c < cfg.numChannels.toNat ∧ ∃ m, cfg.chan c = .managed m
  | .pool c p => c < cfg.numChannels.toNat ∧ ∃ m, cfg.chan c = .managed m ∧ p < m.numPools.toNat

/-- **Two ends of one queue**: each pushes where the other pops, at one offset
of the window, into a ring of the same slots. -/
structure IpcQueue.Faces (q : IpcQueue) (os : IpcOs) (q' : IpcQueue) (os' : IpcOs) : Prop where
  push : ∃ off, q.pushRing = os.localShm + off ∧ q'.popRing = os'.remoteShm + off
  pop : ∃ off, q.popRing = os.remoteShm + off ∧ q'.pushRing = os'.localShm + off
  elemNum_eq : q.elemNum = q'.elemNum
  elemSize_eq : q.elemSize = q'.elemSize

theorem laidQueue_faces (os os' : IpcOs) (off n : ℕ) :
    (laidQueue os off n).Faces os (laidQueue os' off n) os' :=
  ⟨⟨off, rfl, rfl⟩, ⟨off, rfl, rfl⟩, rfl, rfl⟩

section Agreement

theorem bufsOf_congr {pools pools' : ℕ → IpcShmPoolCfg} {n : ℕ}
    (h : ∀ p, p < n → pools p = pools' p) : bufsOf pools n = bufsOf pools' n :=
  Finset.sum_congr rfl (fun p hp => by rw [h p (Finset.mem_range.mp hp)])

theorem poolOff_congr {pools pools' : ℕ → IpcShmPoolCfg} {n k : ℕ}
    (h : ∀ p, p < n → pools p = pools' p) (hk : k ≤ n) :
    poolOff pools n k = poolOff pools' n k := by
  rw [poolOff, poolOff, bufsOf_congr h]
  refine congrArg (ringBytes (bufsOf pools' n) + ·) (Finset.sum_congr rfl (fun p hp => ?_))
  rw [h p (Nat.lt_of_lt_of_le (Finset.mem_range.mp hp) hk)]

theorem IpcShmChannelCfg.SameShape.extent_eq {cc cc' : IpcShmChannelCfg}
    (h : cc.SameShape cc') : cc.extent = cc'.extent := by
  cases h with
  | managed hn hp hp' hpools =>
    rw [extent, extent, hp, hp', ← hn]
    exact poolOff_congr hpools (Nat.le_refl _)
  | unmanaged hu => rw [extent, extent, hu]

/-- The channels of symmetric configurations are at the same offsets. -/
theorem IpcShmCfg.Symmetric.chanOff_eq {cfg cfg' : IpcShmCfg} (h : cfg.Symmetric cfg') {c : ℕ}
    (hc : c ≤ cfg.numChannels.toNat) : cfg.chanOff c = cfg'.chanOff c := by
  refine congrArg (sizeofIpcShmGlobal + ·) (Finset.sum_congr rfl (fun i hi => ?_))
  exact (h.chan i (Nat.lt_of_lt_of_le (Finset.mem_range.mp hi) hc)).extent_eq

variable {priv priv' : IpcShmPriv} {os os' : IpcOs} {cfg cfg' : IpcShmCfg}

/-- **The queues of two peers in their places face each other.** -/
theorem IpcShmPriv.Laid.faces (h : priv.Laid os cfg) (h' : priv'.Laid os' cfg')
    (hsym : cfg.Symmetric cfg') {id : QueueId} (hid : cfg.HasQueue id) :
    (priv.queue id).Faces os (priv'.queue id) os' := by
  -- what is known of the channel of the queue, on both sides
  have hchan : ∀ {c m}, c < cfg.numChannels.toNat → cfg.chan c = .managed m →
      ∃ m' pools pools', m.numPools = m'.numPools ∧
        (∀ p, p < m.numPools.toNat → pools p = pools' p) ∧
        (priv.channels c).mng.Laid os (cfg.chanOff c) m pools ∧
        (priv'.channels c).mng.Laid os' (cfg.chanOff c) m' pools' := by
    intro c m hc hm
    have hl := h.chan c hc
    have hl' := h'.chan c (hsym.numChannels_eq ▸ hc)
    have hs := hsym.chan c hc
    rw [hm] at hl hs
    rw [← hsym.chanOff_eq (Nat.le_of_lt hc)] at hl'
    generalize cfg'.chan c = cc' at hl' hs
    cases hs with
    | managed hn hp hp' hpools =>
      obtain ⟨-, pools₁, hl⟩ := hl
      obtain ⟨-, pools₁', hl'⟩ := hl'
      obtain rfl := Option.some.inj (hp.symm.trans hl.pools_eq)
      obtain rfl := Option.some.inj (hp'.symm.trans hl'.pools_eq)
      exact ⟨_, _, _, hn, hpools, hl, hl'⟩
  cases id with
  | chan c =>
    obtain ⟨hc, m, hm⟩ := hid
    obtain ⟨m', pools, pools', hn, hpools, hl, hl'⟩ := hchan hc hm
    rw [queue, queue, hl.bdQueue_eq, hl'.bdQueue_eq, ← hn, bufsOf_congr hpools]
    exact laidQueue_faces ..
  | pool c p =>
    obtain ⟨hc, m, hm, hp⟩ := hid
    obtain ⟨m', pools, pools', hn, hpools, hl, hl'⟩ := hchan hc hm
    rw [queue, queue, (hl.pool p hp).bdQueue_eq, (hl'.pool p (hn ▸ hp)).bdQueue_eq, ← hn,
      poolOff_congr hpools (Nat.le_of_lt hp), hpools p hp]
    exact laidQueue_faces ..

/-- **The private data tiles both windows** according to the configuration. -/
structure IpcShmPriv.Tiles (priv : IpcShmPriv) (os : IpcOs) (cfg : IpcShmCfg) : Prop where
  /-- Every region has one offset, from the base of either window. -/
  regions_eq : ∀ remote, priv.regions os remote = cfg.layout.map (Region.shift (os.base remote))
  /-- The regions follow one another from the base on. -/
  consecutive : ∀ remote, Region.Consecutive (os.base remote) (priv.regions os remote)
    (os.base remote + cfg.footprint)
  disjoint : ∀ remote,
    (priv.regions os remote).Pairwise (fun r r' => r.addr + r.size ≤ r'.addr)
  contained : ∀ remote, ∀ r ∈ priv.regions os remote,
    os.base remote ≤ r.addr ∧ r.addr + r.size ≤ os.base remote + cfg.shmSize.toNat
  /-- `get_chan_memmap_size` is what the channel maps. -/
  memmap : ∀ c, c < priv.numChannels → ∀ remote,
    getChanMemmapSize (priv.channels c) = (((priv.channels c).regions remote).map Region.size).sum

theorem IpcShmPriv.Laid.tiles (h : priv.Laid os cfg)
    (hfit : cfg.footprint ≤ cfg.shmSize.toNat) : priv.Tiles os cfg := by
  have hcons : ∀ remote, Region.Consecutive (os.base remote) (priv.regions os remote)
      (os.base remote + cfg.footprint) := by
    intro remote
    rw [h.regions_eq]
    exact cfg.layout_consecutive.shift _
  refine ⟨h.regions_eq, hcons, fun remote => (hcons remote).pairwise, fun remote r hr => ?_, ?_⟩
  · have := (hcons remote).bounds hr
    omega
  · intro c hc remote
    rw [h.numChannels_eq] at hc
    have hend := cfg.chanOff_add_extent_le hc
    have hlt := cfg.shmSize.toNat_lt
    unfold IpcShmCfg.footprint at hfit
    have hext : (cfg.chan c).extent < 2 ^ 32 := by omega
    have hsum := (((cfg.chan c).layout_consecutive (cfg.chanOff c)).shift
      (os.base remote)).sum_size
    rw [getChanMemmapSize_laid (h.chan c hc) hext, (h.chan c hc).regions_eq remote]
    omega

end Agreement

/-- **An accepted configuration is in its place**, whatever was read on the
way, and its pools are sorted. -/
theorem ipcShmInitInstance_ready {μ : ShmMap} {cfg : IpcShmCfg} {d d' : Driver} {inst : ℕ}
    (hμ : μ.size = cfg.shmSize.toNat) (hfit : cfg.footprint ≤ μ.size)
    (h : (ipcShmInitInstance d inst (some cfg)).Returns (Env μ) (0, d')) :
    (d'.os inst = μ.os ∧ (d'.priv inst).Laid μ.os cfg) ∧ cfg.Accepted μ.size := by
  have hsize : μ.size < 2 ^ 32 := by
    rw [hμ]
    exact cfg.shmSize.toNat_lt
  have hhead : sizeofIpcShmGlobal ≤ cfg.footprint := Nat.le_add_right _ _
  have hchk : ChannelsChecked μ (fun _ _ => True) cfg :=
    ChannelsAllowed.checked (fun _ _ _ _ _ => trivial) hsize hfit
  obtain ⟨hout, hacc⟩ := (ipcShmInitInstance_checked (G := fun _ => True) (F := fun _ => True)
    (d := d) hμ (hhead.trans hfit) (fun _ _ => trivial) hchk trivial (Or.inr trivial)
    (fun _ _ _ _ _ _ => Program.Always.trivial _)).of_returns h
  refine ⟨?_, (hacc rfl).1⟩
  cases hout with
  | refused he => exact absurd rfl he
  | unmapped he => exact absurd rfl he
  | undone he => exact absurd rfl he
  | ready hos hl => exact ⟨hos, hl⟩

theorem ipcShmInitInstance_laid {μ : ShmMap} {cfg : IpcShmCfg} {d d' : Driver} {inst : ℕ}
    (hμ : μ.size = cfg.shmSize.toNat) (hfit : cfg.footprint ≤ μ.size)
    (h : (ipcShmInitInstance d inst (some cfg)).Returns (Env μ) (0, d')) :
    d'.os inst = μ.os ∧ (d'.priv inst).Laid μ.os cfg := (ipcShmInitInstance_ready hμ hfit h).1

/-- **Layout.** Whatever the two peers read while they initialize, an accepted
configuration whose footprint fits is laid out in its order, without gaps or
overlaps, inside either window; and where the configurations are symmetric,
every queue of one peer faces the same queue of the other. -/
theorem init_lays_out (cfg : Side → IpcShmCfg) (μ : Side → ShmMap) (d d' : Side → Driver)
    (inst : Side → ℕ) (hμ : ∀ s, (μ s).size = (cfg s).shmSize.toNat)
    (hfit : ∀ s, (cfg s).footprint ≤ (cfg s).shmSize.toNat)
    (hacc : ∀ s, (ipcShmInitInstance (d s) (inst s) (some (cfg s))).Returns (Env (μ s))
      (0, d' s)) :
    (∀ s, (d' s).os (inst s) = (μ s).os ∧
      ((d' s).priv (inst s)).Tiles (μ s).os (cfg s)) ∧
    ∀ s, (cfg s).Symmetric (cfg s.other) → ∀ id, (cfg s).HasQueue id →
      (((d' s).priv (inst s)).queue id).Faces (μ s).os
        (((d' s.other).priv (inst s.other)).queue id) (μ s.other).os := by
  have hlaid : ∀ s, (d' s).os (inst s) = (μ s).os ∧
      ((d' s).priv (inst s)).Laid (μ s).os (cfg s) := fun s =>
    ipcShmInitInstance_laid (hμ s) (by rw [hμ s]; exact hfit s) (hacc s)
  refine ⟨fun s => ⟨(hlaid s).1, (hlaid s).2.tiles (hfit s)⟩, fun s hsym id hid => ?_⟩
  exact (hlaid s).2.faces (hlaid s.other).2 hsym hid

/-- Memory answers as the environment may. -/
theorem env_of_memHandle {μ : ShmMap} {s : Side} (o : Op) (shm : Shm) (r : o.Ret) (shm' : Shm)
    (h : memHandle μ s o shm = some (r, shm')) : Env μ o r := by
  cases o with
  | load n a =>
    obtain ⟨w, -, hw⟩ := Option.map_eq_some_iff.mp h
    obtain ⟨rfl, -⟩ := Prod.mk.inj hw
    exact ByteMem.load_lt _ n _
  | memcpyFrom a n =>
    obtain ⟨w, -, hw⟩ := Option.map_eq_some_iff.mp h
    obtain ⟨rfl, -⟩ := Prod.mk.inj hw
    exact ByteMem.read_length _ _ n
  | ipcOsInit inst cfg =>
    obtain ⟨rfl, -⟩ := Prod.mk.inj (Option.some.inj h)
    exact fun _ => rfl
  | _ => trivial

/-- A managed channel of two pools and an unmanaged channel. -/
def sampleCfg : IpcShmCfg where
  localShmAddr := 0x34000000
  remoteShmAddr := 0x34001000
  shmSize := 0x1000
  interCoreTxIrq := 2
  interCoreRxIrq := 1
  numChannels := 2
  channels := some (fun c =>
    if c = 0 then
      .managed { numPools := 2
                 pools := some (fun p => if p = 0 then ⟨2, 16⟩ else ⟨1, 32⟩)
                 rxCb := 0x100, cbArg := 0 }
    else .unmanaged { size := 64, rxCb := 0x200, cbArg := 0 })

theorem sampleCfg_symmetric : sampleCfg.Symmetric sampleCfg := by
  refine ⟨rfl, rfl, fun c _ => ?_⟩
  have hc : sampleCfg.chan c = if c = 0 then _ else _ := rfl
  rw [hc]
  split
  · exact .managed rfl rfl rfl (fun _ _ => rfl)
  · exact .unmanaged rfl

/-- The sample configuration is accepted in cleared memory. -/
theorem sampleCfg_init (s : Side) : ∃ d' shm, (ipcShmInitInstance {} 0 (some sampleCfg)).run
    (memHandle (twoWindows s) s) (fun _ _ => 0) = some ((0, d'), shm) := by
  have h : ((ipcShmInitInstance {} 0 (some sampleCfg)).run
      (memHandle (twoWindows s) s) (fun _ _ => 0)).map (fun r => r.1.1) = some 0 := by
    cases s <;> decide +kernel
  obtain ⟨⟨⟨err, d'⟩, shm⟩, hr, rfl⟩ := Option.map_eq_some_iff.mp h
  exact ⟨d', shm, hr⟩

/-- Both peers initialize the sample configuration in cleared memory. -/
theorem init_lays_out_sample :
    sampleCfg.footprint = 0x110 ∧ ∃ d' : Side → Driver, ∀ s,
      ((d' s).priv 0).Tiles (twoWindows s).os sampleCfg ∧
        ∀ id, sampleCfg.HasQueue id →
          (((d' s).priv 0).queue id).Faces (twoWindows s).os
            (((d' s.other).priv 0).queue id) (twoWindows s.other).os := by
  have hfoot : sampleCfg.footprint = 0x110 := by decide +kernel
  choose d' shm hd using sampleCfg_init
  have hlay := init_lays_out (fun _ => sampleCfg) twoWindows (fun _ => {}) d' (fun _ => 0)
    (fun s => by cases s <;> rfl) (fun _ => by rw [hfoot]; decide)
    (fun s => Program.returns_of_run env_of_memHandle (hd s))
  exact ⟨hfoot, d', fun s => ⟨(hlay.1 s).2, hlay.2 s sampleCfg_symmetric⟩⟩
