import IpcShm.DataPath
import Mathlib.Logic.Relation

/-!
# Freedom from interference

The driver writes shared memory in few places: the header of the instance,
the rings of managed channels and the headers of unmanaged ones. This module
follows one instance through any sequence of API calls, with anything in
memory, and says where the stores of each call go.

A call works with the pointers earlier calls left in the private data. While
the instance is in use they are those of the initialization that succeeded.
A failed initialization can leave pointers behind as well, and the cleanup
after the next one follows them again – into another mapping, if that one was
made with other windows or another configuration. Nothing in the driver keeps
them from pointing into the remote window then, where the cleanup stores
through them (`cleanup_stores_remote`). As long as every attempt finds the
pointers that were left `NULL` or in their place, all stores are confined
(`stores_confined`).
-/

/-! ## Stores -/

/-- **Stores go where `P` allows**, and nothing undefined is done. -/
def StoresIn (P : ℕ → ℕ → Prop) : Op → Prop
  | .store n a _ => P a n
  | .memcpyTo a bs => P a bs.length
  | .undefinedBehaviour => False
  | _ => True

theorem StoresIn.of_quiet {P : ℕ → ℕ → Prop} (o : Op) (h : Quiet P o) : StoresIn P o := by
  cases o with
  | store n a v => exact h
  | memcpyTo a bs => exact h
  | undefinedBehaviour => exact h
  | _ => trivial

/-- **A store of the instance header**: in the local window, apart from every
channel. -/
structure HeaderStore (μ : ShmMap) (cfg : IpcShmCfg) (a k : ℕ) : Prop where
  inHeader : Region.Contains { addr := μ.localShm, size := sizeofIpcShmGlobal } a k
  inLocal : Region.Contains { addr := μ.localShm, size := μ.size } a k
  notRemote : Region.Apart { addr := μ.remoteShm, size := μ.size } a k
  notChannel : ∀ c, c < cfg.numChannels.toNat → ∀ r ∈ (cfg.chan c).layout (cfg.chanOff c),
    (r.shift μ.localShm).Apart a k

/-- **A store of channel `c`**: in one of its rings or in its header, hence in
the local window, and apart from the remote window, from the instance header,
from every region of another channel and from every payload. -/
structure ChannelStore (μ : ShmMap) (cfg : IpcShmCfg) (c a k : ℕ) : Prop where
  inCtrl : (cfg.chan c).InCtrl μ.localShm (cfg.chanOff c) a k
  inLocal : Region.Contains { addr := μ.localShm, size := μ.size } a k
  notRemote : Region.Apart { addr := μ.remoteShm, size := μ.size } a k
  notHeader : Region.Apart { addr := μ.localShm, size := sizeofIpcShmGlobal } a k
  notOther : ∀ c', c' < cfg.numChannels.toNat → c' ≠ c →
    ∀ r ∈ (cfg.chan c').layout (cfg.chanOff c'), (r.shift μ.localShm).Apart a k
  notPayload : ∀ c', c' < cfg.numChannels.toNat →
    ∀ r ∈ (cfg.chan c').payload (cfg.chanOff c'), (r.shift μ.localShm).Apart a k

/-- A store of the instance: of its header or of one of its channels. -/
def InstanceStore (μ : ShmMap) (cfg : IpcShmCfg) (a k : ℕ) : Prop :=
  HeaderStore μ cfg a k ∨ ∃ c, c < cfg.numChannels.toNat ∧ ChannelStore μ cfg c a k

section Regions

variable {μ : ShmMap} {cfg : IpcShmCfg} {c a k : ℕ}

theorem ShmMap.apart_remote (μ : ShmMap)
    (h : Region.Contains { addr := μ.localShm, size := μ.size } a k) :
    Region.Apart { addr := μ.remoteShm, size := μ.size } a k :=
  h.apart (show μ.localShm + μ.size ≤ μ.remoteShm ∨ μ.remoteShm + μ.size ≤ μ.localShm
    from μ.disjoint)

/-- **A store in the rings or in the header of a channel** is one of that
channel. -/
theorem channelStore_of_inCtrl (hfit : cfg.footprint ≤ μ.size) (hc : c < cfg.numChannels.toNat)
    (h : (cfg.chan c).InCtrl μ.localShm (cfg.chanOff c) a k) : ChannelStore μ cfg c a k := by
  obtain ⟨r, hr, hcont⟩ := h
  have hlay := IpcShmChannelCfg.mem_layout_of_ctrl hr
  obtain ⟨-, -, hlow, hhigh⟩ := cfg.layout_bounds hc hlay
  have hcont' : μ.localShm + r.addr ≤ a ∧ a + k ≤ μ.localShm + r.addr + r.size := hcont
  have hlocal : Region.Contains { addr := μ.localShm, size := μ.size } a k :=
    ⟨show μ.localShm ≤ a by omega, show a + k ≤ μ.localShm + μ.size by omega⟩
  have hapart : ∀ r' : Region, r.addr + r.size ≤ r'.addr ∨ r'.addr + r'.size ≤ r.addr →
      (r'.shift μ.localShm).Apart a k := by
    intro r' hrr
    refine hcont.apart ?_
    show μ.localShm + r.addr + r.size ≤ μ.localShm + r'.addr
      ∨ μ.localShm + r'.addr + r'.size ≤ μ.localShm + r.addr
    omega
  refine ⟨⟨r, hr, hcont⟩, hlocal, μ.apart_remote hlocal, ?_, fun c' hc' hne r' hr' => ?_,
    fun c' hc' r' hr' => ?_⟩
  · exact Or.inr (show μ.localShm + sizeofIpcShmGlobal ≤ a by omega)
  · exact hapart r' (cfg.layout_apart hc hc' hne hlay hr')
  · by_cases hne : c' = c
    · subst hne
      exact hapart r' (IpcShmChannelCfg.ctrl_apart_payload hr hr')
    · exact hapart r' (cfg.layout_apart hc hc' hne hlay
        (IpcShmChannelCfg.mem_layout_of_payload hr'))

/-- The header of the instance. -/
theorem headerStore (hfit : cfg.footprint ≤ μ.size) : HeaderStore μ cfg μ.localShm 8 := by
  have h0 : sizeofIpcShmGlobal ≤ cfg.footprint := Nat.le_add_right _ _
  unfold sizeofIpcShmGlobal at h0
  have hlocal : Region.Contains { addr := μ.localShm, size := μ.size } μ.localShm 8 :=
    ⟨Nat.le_refl _, show μ.localShm + 8 ≤ μ.localShm + μ.size by omega⟩
  refine ⟨⟨Nat.le_refl _, Nat.le_refl _⟩, hlocal, μ.apart_remote hlocal, fun c hc r hr => ?_⟩
  obtain ⟨-, -, hlow, -⟩ := cfg.layout_bounds hc hr
  unfold sizeofIpcShmGlobal at hlow
  exact Or.inl (show μ.localShm + 8 ≤ μ.localShm + r.addr by omega)

end Regions

/-! ## The calls of the API -/

/-- **A mapping and a configuration that fits it.** Every initialization can
come with its own: the OS layer maps the windows anew each time. -/
structure ShmSetup where
  μ : ShmMap
  cfg : IpcShmCfg
  size_eq : μ.size = cfg.shmSize.toNat
  fits : cfg.footprint ≤ cfg.shmSize.toNat

/-- The state between two calls: the driver's data, and the setup that the
instance was initialized with last. -/
structure ApiState where
  driver : Driver
  setup : ShmSetup

/-- A call of the API on one instance. -/
inductive ApiCall where
  | initInstance (S : ShmSetup)
  | freeInstance
  | isRemoteReady
  | acquireBuf (chanId memSize : ℕ)
  | releaseBuf (chanId buf : ℕ)
  | tx (chanId : ℤ) (buf size : ℕ)
  | unmanagedAcquire (chanId : ℕ)
  | unmanagedTx (chanId : ℕ)
  /-- The softirq handler, with the budget an `int` can give it. -/
  | rx (budget : Fin (2 ^ 31))

/-- **The program of a call**, returning the state after it. -/
def ApiCall.prog (inst : ℕ) (s : ApiState) : ApiCall → Drv ApiState
  | .initInstance S => do
    let (err, d) ← ipcShmInitInstance s.driver inst (some S.cfg)
    return { driver := d, setup := if err = 0 then S else s.setup }
  | .freeInstance => do
    let d ← ipcShmFreeInstance s.driver inst
    return { s with driver := d }
  | .isRemoteReady => do
    let _ ← ipcShmIsRemoteReady s.driver inst
    return s
  | .acquireBuf chanId memSize => do
    let _ ← ipcShmAcquireBuf s.driver inst chanId memSize
    return s
  | .releaseBuf chanId buf => do
    let _ ← ipcShmReleaseBuf s.driver inst chanId buf
    return s
  | .tx chanId buf size => do
    let _ ← ipcShmTx s.driver inst chanId buf size
    return s
  | .unmanagedAcquire chanId => do
    let _ ← ipcShmUnmanagedAcquire s.driver inst chanId
    return s
  | .unmanagedTx chanId => do
    let _ ← ipcShmUnmanagedTx s.driver inst chanId
    return s
  | .rx budget => do
    let _ ← ipcShmRx s.driver inst budget
    return s

/-- The setup a call works in. -/
def ApiCall.setup (s : ApiState) : ApiCall → ShmSetup
  | .initInstance S => S
  | _ => s.setup

/-- **Where a call may store.** Calls on a channel store in that channel. -/
def ApiCall.MayStore (S : ShmSetup) : ApiCall → ℕ → ℕ → Prop
  | .initInstance _ => InstanceStore S.μ S.cfg
  | .freeInstance => InstanceStore S.μ S.cfg
  | .isRemoteReady => fun _ _ => False
  | .acquireBuf chanId _ => ChannelStore S.μ S.cfg chanId
  | .releaseBuf chanId _ => ChannelStore S.μ S.cfg chanId
  | .tx chanId _ _ => ChannelStore S.μ S.cfg (chanId % 2 ^ 8).toNat
  | .unmanagedAcquire _ => fun _ _ => False
  | .unmanagedTx chanId => ChannelStore S.μ S.cfg chanId
  | .rx _ => fun a k => ∃ c, c < S.cfg.numChannels.toNat ∧ ChannelStore S.μ S.cfg c a k

/-- **What a call may read**: anything, except that the local header of an
instance in use does not read clear. Only the driver writes it. -/
def ApiState.Reads (s : ApiState) (inst : ℕ) (μ : ShmMap) (o : Op) (r : o.Ret) : Prop :=
  Env μ o r ∧ match o, r with
    | .load 8 a, v => a = (s.driver.priv inst).global → a ≠ 0 → v ≠ ipcShmStateClear
    | _, _ => True

/-- **One call**, with any replies. -/
def ApiStep (inst : ℕ) (s : ApiState) (call : ApiCall) (s' : ApiState) : Prop :=
  (call.prog inst s).Returns (s.Reads inst (call.setup s).μ) s'

/-- **The pointers that an initialization of a free instance finds** in the
private data are `NULL`, or point to where it puts what they point to. -/
def ApiCall.FindsPlaced (inst : ℕ) (s : ApiState) : ApiCall → Prop
  | .initInstance S => (s.driver.priv inst).global = 0 →
      (s.driver.priv inst).Placed S.μ.os S.cfg
  | _ => True

/-- **The invariant of the driver**: an instance in use is in the layout of its
setup, which has channels. -/
structure ApiState.Sound (s : ApiState) (inst : ℕ) : Prop where
  mapped : s.driver.Mapped s.setup.μ s.setup.cfg inst
  numChannels : (s.driver.priv inst).global ≠ 0 → 1 ≤ s.setup.cfg.numChannels.toNat

section Sound

variable {μ : ShmMap} {cfg : IpcShmCfg} {inst : ℕ} {d : Driver}

theorem channelsAllowed (hfit : cfg.footprint ≤ μ.size) :
    ChannelsAllowed μ (InstanceStore μ cfg) cfg :=
  fun c hc _ _ h => Or.inr ⟨c, hc, channelStore_of_inCtrl hfit hc h⟩

theorem channelAllowed (hfit : cfg.footprint ≤ μ.size) (c : ℕ) :
    ChannelAllowed μ (ChannelStore μ cfg c) cfg c :=
  fun hc _ _ h => channelStore_of_inCtrl hfit hc h

/-- **`ipc_shm_init_instance`** of a free instance whose pointers are placed
stores in the instance, and leaves them placed. -/
theorem ipcShmInitInstance_placed {S : ShmSetup} (hinst : inst < ipcShmMaxInstances)
    (hg : (d.priv inst).global = 0) (hpl : (d.priv inst).Placed S.μ.os S.cfg) :
    (ipcShmInitInstance d inst (some S.cfg)).Always (Env S.μ) (StoresIn (InstanceStore S.μ S.cfg))
      (fun r => (r.2.priv inst).Placed S.μ.os S.cfg ∧
        (r.1 = 0 → r.2.os inst = S.μ.os ∧ (r.2.priv inst).Laid S.μ.os S.cfg) ∧
        (r.1 ≠ 0 → (r.2.priv inst).global = 0)) := by
  have hfit : S.cfg.footprint ≤ S.μ.size := S.size_eq ▸ S.fits
  refine (ipcShmInitInstance_always (F := fun p => p.global = 0 ∧ p.Placed S.μ.os S.cfg) S.size_eq
    hfit StoresIn.of_quiet (channelsAllowed hfit) (Or.inl (headerStore hfit)) (Or.inl hinst)
    (fun p hpl' hg' _ hnum => ?_)).mono (fun _ h => h) (fun r hr => ?_)
  · refine (freeConfiguredChannels_always (fun c hc => (hpl' hpl).freeableAs
      (channelsAllowed hfit) (hnum ▸ hc))).mono StoresIn.of_quiet (fun p' hp' => ?_)
    exact ⟨hp'.1.global_eq.trans hg', (hpl' hpl).freed hp'.2⟩
  · cases hr with
    | refused he => exact ⟨hpl, fun h0 => absurd h0 he, fun _ => hg⟩
    | unmapped he _ hp =>
      rw [hp]
      exact ⟨hpl, fun h0 => absurd h0 he, fun _ => hg⟩
    | undone he _ hp => exact ⟨hp.2, fun h0 => absurd h0 he, fun _ => hp.1⟩
    | ready hos hl => exact ⟨hl.placed, fun _ => ⟨hos, hl⟩, fun hne => absurd rfl hne⟩

/-- What a successful initialization has checked. -/
theorem ipcShmInitInstance_checks :
    (ipcShmInitInstance d inst (some cfg)).Always (Env μ) (fun _ => True)
      (fun r => r.1 = 0 → inst < ipcShmMaxInstances ∧ 1 ≤ cfg.numChannels.toNat ∧
        cfg.numChannels.toNat ≤ ipcShmMaxChannels) := by
  have hinval : -EINVAL ≠ 0 := by decide
  unfold ipcShmInitInstance
  refine (Program.Always.trivial _).bind (fun st _ => ?_)
  split
  · exact fun h0 => absurd h0 hinval
  dsimp only
  split
  · exact fun h0 => absurd h0 hinval
  split
  · exact fun h0 => absurd h0 hinval
  rename_i hn
  split
  · exact ⟨trivial, fun r => nomatch r⟩
  · rename_i hi
    obtain ⟨hn1, hn8⟩ := not_or.mp hn
    exact (Program.Always.trivial _).mono (fun _ h => h)
      (fun _ _ _ => ⟨Nat.not_le.mp hi, Nat.not_lt.mp hn1, Nat.not_lt.mp hn8⟩)

theorem ipcShmInitInstance_accepted {d' : Driver}
    (h : (ipcShmInitInstance d inst (some cfg)).Returns (Env μ) (0, d')) :
    inst < ipcShmMaxInstances ∧ 1 ≤ cfg.numChannels.toNat ∧
      cfg.numChannels.toNat ≤ ipcShmMaxChannels := ipcShmInitInstance_checks.of_returns h rfl

variable {s : ApiState}

/-- **An instance in use** is seen to be in use. -/
theorem ipcInstanceIsFree_up (hinst : inst < ipcShmMaxInstances)
    (hg : (s.driver.priv inst).global ≠ 0) {P : ℕ → ℕ → Prop} :
    (ipcInstanceIsFree s.driver inst).Always (s.Reads inst μ) (StoresIn P)
      (fun st => st = .used) := by
  rw [ipcInstanceIsFree, if_neg (Nat.not_le.mpr hinst), if_neg hg, load64_bind]
  refine ⟨trivial, fun (v : ℕ) hv => ?_⟩
  dsimp only
  rw [if_neg (hv.2 rfl hg)]
  exact rfl

/-- **`ipc_shm_init_instance`** keeps the invariant and stores in the instance,
if the pointers it finds are placed. -/
theorem ApiState.Sound.init (h : s.Sound inst) (hinst : inst < ipcShmMaxInstances) {S : ShmSetup}
    (hpl : (s.driver.priv inst).global = 0 → (s.driver.priv inst).Placed S.μ.os S.cfg) :
    ((ApiCall.initInstance S).prog inst s).Always (s.Reads inst S.μ)
      (StoresIn (InstanceStore S.μ S.cfg)) (fun s' => s'.Sound inst) := by
  rw [ApiCall.prog]
  by_cases hg : (s.driver.priv inst).global = 0
  · refine (((ipcShmInitInstance_placed hinst hg (hpl hg)).and
      ipcShmInitInstance_checks).restrict (fun _ _ hr => hr.1)).mono (fun _ hG => hG.1)
      (fun _ hr => hr) |>.bind ?_
    rintro ⟨err, d⟩ ⟨⟨-, hok, hfail⟩, hchecks⟩
    dsimp only at hok hfail hchecks ⊢
    by_cases he : err = 0
    · rw [if_pos he]
      exact ⟨fun _ => hok he, fun _ => (hchecks he).2.1⟩
    · exact ⟨fun hne => absurd (hfail he) hne, fun hne => absurd (hfail he) hne⟩
  · -- the call is refused
    unfold ipcShmInitInstance
    rw [Program.bind_assoc']
    refine (ipcInstanceIsFree_up hinst hg).bind (fun st hst => ?_)
    rw [if_pos hst]
    exact h

/-- **`ipc_shm_free_instance`** keeps the invariant and stores in the
instance. -/
theorem ApiState.Sound.free (h : s.Sound inst) :
    (ipcShmFreeInstance s.driver inst).Always (Env s.setup.μ)
      (Quiet (InstanceStore s.setup.μ s.setup.cfg))
      (fun d' => ApiState.Sound { s with driver := d' } inst) := by
  have hfit : s.setup.cfg.footprint ≤ s.setup.μ.size := s.setup.size_eq ▸ s.setup.fits
  unfold ipcShmFreeInstance
  refine (ipcInstanceIsFree_always (fun _ h => h) s.driver inst).bind (fun st hst => ?_)
  split
  · exact h
  rename_i hused
  obtain ⟨-, hg⟩ := hst (not_not.mp hused)
  obtain ⟨-, hl⟩ := h.mapped hg
  refine always_store64 ?_ ⟨trivial, fun _ _ => ?_⟩
  · rw [hl.global_eq]
    exact Or.inl (headerStore hfit)
  have hplaced : IpcShmPriv.Placed { s.driver.priv inst with global := 0 } s.setup.μ.os
      s.setup.cfg := hl.placed
  refine (freeChannels_always (fun c _ hc => ?_)).bind (fun p hp => ?_)
  · have hc : c < s.setup.cfg.numChannels.toNat := by
      rw [← hl.numChannels_eq]
      exact Nat.zero_add (s.driver.priv inst).numChannels ▸ hc
    rw [hl.type_eq hc]
    exact hplaced.freeableAs (channelsAllowed hfit) hc
  refine ⟨trivial, fun _ _ => ⟨trivial, fun _ _ => ?_⟩⟩
  have hclear : ((s.driver.setPriv inst p).priv inst).global = 0 := by
    rw [show (s.driver.setPriv inst p).priv inst = p from Function.update_self ..]
    exact hp.1.global_eq
  exact ⟨fun hg' => absurd hclear hg', fun hg' => absurd hclear hg'⟩

/-- Callbacks and out-of-range reads store nothing. -/
theorem handleBd_storesIn {P : ℕ → ℕ → Prop} (c : ℕ) (bd : IpcShmBd) :
    (handleBd d inst c bd).Always (Env μ) (StoresIn P) (fun _ => True) := by
  unfold handleBd IpcManagedChannel.poolAt
  dsimp only
  split
  · show Program.Always _ _ _ (if _ then _ else _)
    split
    · exact ⟨trivial, fun _ _ => trivial⟩
    · trivial
  · refine ⟨trivial, fun pool _ => ?_⟩
    show Program.Always _ _ _ (if _ then _ else _)
    split
    · exact ⟨trivial, fun _ _ => trivial⟩
    · trivial

/-- **`ipc_channel_rx`** stores in its channel. -/
theorem ipcChannelRx_storesIn (hl : (d.priv inst).Laid μ.os cfg) (hfit : cfg.footprint ≤ μ.size)
    {c : ℕ} (hc : c < cfg.numChannels.toNat) (budget : ℕ) :
    (ipcChannelRx d inst c budget).Always (Env μ) (StoresIn (ChannelStore μ cfg c))
      (fun w => w ≤ budget) :=
  ipcChannelRx_always StoresIn.of_quiet (feeds_env μ) hl hc (channelAllowed hfit c)
    (fun _ => trivial) (fun _ bd _ => handleBd_storesIn c bd) budget

theorem StoresIn.mono {P P' : ℕ → ℕ → Prop} (h : ∀ a n, P a n → P' a n) (o : Op)
    (ho : StoresIn P o) : StoresIn P' o := by
  cases o with
  | store n a v => exact h a n ho
  | memcpyTo a bs => exact h a bs.length ho
  | undefinedBehaviour => exact ho
  | _ => trivial

/-- **Every call** keeps the invariant and stores where it may. -/
theorem ApiState.Sound.call (h : s.Sound inst) (hinst : inst < ipcShmMaxInstances) (call : ApiCall)
    (hpl : call.FindsPlaced inst s) :
    (call.prog inst s).Always (s.Reads inst (call.setup s).μ)
      (StoresIn (call.MayStore (call.setup s))) (fun s' => s'.Sound inst) := by
  have hfit : s.setup.cfg.footprint ≤ s.setup.μ.size := s.setup.size_eq ▸ s.setup.fits
  -- the calls other than initialization work with the pointers of the setup
  have hquiet : ∀ {α : Type} {p : Drv α} {P : ℕ → ℕ → Prop} {Q : α → Prop},
      p.Always (Env s.setup.μ) (Quiet P) Q →
      (p >>= fun _ => Program.pure s).Always (s.Reads inst s.setup.μ) (StoresIn P)
        (fun s' => s'.Sound inst) := fun hp =>
    ((hp.restrict (fun _ _ hr => hr.1)).mono StoresIn.of_quiet (fun _ hr => hr)).bind (fun _ _ => h)
  cases call with
  | initInstance S => exact h.init hinst hpl
  | freeInstance =>
    exact (h.free.restrict (fun _ _ hr => hr.1)).mono StoresIn.of_quiet (fun _ hr => hr) |>.bind
      (fun _ hr => hr)
  | isRemoteReady => exact hquiet (ipcShmIsRemoteReady_always s.driver inst)
  | acquireBuf c n =>
    exact hquiet (ipcShmAcquireBuf_always (feeds_env _) h.mapped (channelAllowed hfit c) n)
  | releaseBuf c buf =>
    exact hquiet (ipcShmReleaseBuf_always h.mapped (channelAllowed hfit c) buf)
  | tx c buf size =>
    exact hquiet (ipcShmTx_always h.mapped (channelAllowed hfit _) buf size)
  | unmanagedAcquire c => exact hquiet (ipcShmUnmanagedAcquire_always s.driver inst c)
  | unmanagedTx c => exact hquiet (ipcShmUnmanagedTx_always h.mapped (channelAllowed hfit c))
  | rx budget =>
    refine ((ipcShmRx_always (P := fun _ _ => False) (G := StoresIn _)
      (fun o ho => StoresIn.mono (fun _ _ hf => False.elim hf) o (StoresIn.of_quiet o ho)) h.mapped
      h.numChannels budget.isLt (fun hg c hc b => ?_)).restrict (fun _ _ hr => hr.1)).bind
      (fun _ _ => h)
    exact (ipcChannelRx_storesIn (h.mapped hg).2 hfit hc b).mono
      (StoresIn.mono (fun _ _ hs => ⟨c, hc, hs⟩)) (fun _ hw => hw)

/-- The pointers that static storage starts with. -/
theorem Driver.placed_initial (os : IpcOs) (cfg : IpcShmCfg) :
    ((({} : Driver).priv inst).Placed os cfg) := by
  intro c _
  cases cfg.chan c with
  | managed m =>
    refine ⟨fun _ => Nat.zero_le _, ?_⟩
    cases m.pools with
    | none => rfl
    | some pools => exact ⟨Or.inl rfl, fun _ _ => Or.inl rfl⟩
  | unmanaged u => exact Or.inl rfl
  | invalid => trivial

end Sound

/-- **Stores of a driver in some state.** -/
structure ApiState.Confined (s : ApiState) (inst : ℕ) : Prop where
  /-- Every API call stores where it may. -/
  call : ∀ call : ApiCall, call.FindsPlaced inst s →
    (call.prog inst s).Always (s.Reads inst (call.setup s).μ)
      (StoresIn (call.MayStore (call.setup s))) (fun _ => True)
  /-- `ipc_channel_rx` stores in its channel. -/
  channelRx : (s.driver.priv inst).global ≠ 0 → ∀ c, c < s.setup.cfg.numChannels.toNat →
    ∀ budget, (ipcChannelRx s.driver inst c budget).Always (Env s.setup.μ)
      (StoresIn (ChannelStore s.setup.μ s.setup.cfg c)) (fun _ => True)
  /-- `ipc_shm_init_channels` stores in its channel. -/
  initChannel : ∀ (S : ShmSetup) c, c < S.cfg.numChannels.toNat →
    (ipcShmInitChannels S.μ.os S.μ.size ((s.driver.priv inst).channels c) c
      (S.μ.localShm + S.cfg.chanOff c) (S.μ.remoteShm + S.cfg.chanOff c)
      (S.cfg.channels.map (fun f => f c))).Always (Env S.μ)
      (StoresIn (ChannelStore S.μ S.cfg c)) (fun _ => True)
  /-- `ipc_shm_free_channel` stores in its channel, if its pointers are placed. -/
  freeChannel : ∀ S : ShmSetup, (s.driver.priv inst).Placed S.μ.os S.cfg →
    ∀ c, c < S.cfg.numChannels.toNat →
      (ipcShmFreeChannel ((s.driver.priv inst).channels c) (S.cfg.chan c).type).Always (Env S.μ)
        (StoresIn (ChannelStore S.μ S.cfg c)) (fun _ => True)

/-- **Freedom from interference.** Take any sequence of calls on an instance,
each initialization with its own mapping and its own configuration that fits
it, and whatever the loads return. If each initialization of the free instance
finds the pointers in its private data `NULL` or in place, then every store of
every call lies in the local window: in the instance header or in the rings and
headers of the channels, and for a call on a channel in those of that
channel. -/
theorem stores_confined {inst : ℕ} (hinst : inst < ipcShmMaxInstances) {S : ShmSetup} {s : ApiState}
    (hrun : Relation.ReflTransGen
      (fun s s' => ∃ call : ApiCall, call.FindsPlaced inst s ∧ ApiStep inst s call s')
      { driver := {}, setup := S } s) :
    s.Confined inst := by
  have hsound : s.Sound inst := by
    induction hrun with
    | refl => exact ⟨fun hg => absurd rfl hg, fun hg => absurd rfl hg⟩
    | tail _ hstep ih =>
      obtain ⟨call, hpl, hcall⟩ := hstep
      exact (ih.call hinst call hpl).of_returns hcall
  refine ⟨fun call hpl => ?_, fun hg c hc budget => ?_, fun S c hc => ?_, fun S hpl c hc => ?_⟩
  · exact (hsound.call hinst call hpl).mono (fun _ h => h) (fun _ _ => trivial)
  · exact (ipcChannelRx_storesIn (hsound.mapped hg).2 (s.setup.size_eq ▸ s.setup.fits) hc
      budget).mono (fun _ h => h) (fun _ _ => trivial)
  · have hfit : S.cfg.footprint ≤ S.μ.size := S.size_eq ▸ S.fits
    have hsize : S.μ.size < 2 ^ 32 := by
      rw [S.size_eq]
      exact S.cfg.shmSize.toNat_lt
    have hend := S.cfg.chanOff_add_extent_le hc
    cases hch : S.cfg.channels with
    | none => trivial
    | some f =>
      have hchan : S.cfg.chan c = f c := by rw [IpcShmCfg.chan, hch]
      have hall : ∀ a k, (f c).InCtrl S.μ.localShm (S.cfg.chanOff c) a k →
          ChannelStore S.μ S.cfg c a k := hchan ▸ channelAllowed hfit c hc
      rw [hchan] at hend
      exact (ipcShmInitChannels_always c (.of_fit hsize (Nat.le_trans hend hfit) hall)).mono
        StoresIn.of_quiet (fun _ _ => trivial)
  · exact (ipcShmFreeChannel_always
      ((hpl c hc).freeableAs (channelAllowed (S.size_eq ▸ S.fits) c hc))).mono
      StoresIn.of_quiet (fun _ _ => trivial)

/-! ## Two attempts -/

/-- While the instance is free, anything may be read. -/
theorem ApiState.reads_of_free {s : ApiState} {inst : ℕ} (hg : (s.driver.priv inst).global = 0)
    {μ : ShmMap} {o : Op} {r : o.Ret} (h : Env μ o r) : s.Reads inst μ o r := by
  refine ⟨h, ?_⟩
  split
  · exact fun ha hne => absurd (ha.trans hg) hne
  · trivial

theorem ApiState.reads_of_memHandle {s : ApiState} {inst : ℕ}
    (hg : (s.driver.priv inst).global = 0) {μ : ShmMap} {side : Side} (o : Op) (shm : Shm)
    (r : o.Ret) (shm' : Shm) (h : memHandle μ side o shm = some (r, shm')) : s.Reads inst μ o r :=
  reads_of_free hg (env_of_memHandle o shm r shm' h)

/-- The sample configuration in the first pair of windows. -/
def firstSetup : ShmSetup where
  μ := twoWindows .a
  cfg := sampleCfg
  size_eq := rfl
  fits := by decide +kernel

/-- The sample configuration, mapped elsewhere: the remote window is where the
local one was. -/
def remappedSetup : ShmSetup where
  μ := { localShm := 0x3000, remoteShm := 0x1000, size := 0x1000, localShm_pos := by decide,
         remoteShm_pos := (twoWindows .a).localShm_pos, localShm_lt := by decide,
         remoteShm_lt := (twoWindows .a).localShm_lt, disjoint := by decide }
  cfg := sampleCfg
  size_eq := rfl
  fits := by decide +kernel

/-- The state before the first call. -/
def freshState : ApiState where
  driver := {}
  setup := firstSetup

/-- The remote window while the other peer is initializing its pool 1. -/
def poolOneBusy : Shm :=
  Shm.set (fun _ _ => 0) .b (ByteMem.store (fun _ => 0) 8 128 ipcQueueInitInProgress)

/-- The remote window while the other peer is initializing its pool 0, with its
pool 1 done. -/
def poolZeroBusy : Shm :=
  Shm.set (fun _ _ => 0) .b
    ((ByteMem.store (fun _ => 0) 8 56 ipcQueueInitInProgress).store 8 128 ipcQueueInitDone)

/-- An attempt that fails with `-EAGAIN` and another one that succeeds, both in
the first setup: the pointer to the ring of pool 1 that the first one leaves is
in its place for the second one. -/
theorem stores_confined_retried : ∃ s₁ s₂ : ApiState,
    ApiStep 0 freshState (.initInstance firstSetup) s₁ ∧
    (((s₁.driver.priv 0).channels 0).mng.pools 1).bdQueue.pushRing = 0x1080 ∧
    ApiStep 0 s₁ (.initInstance firstSetup) s₂ ∧
    (s₂.driver.priv 0).global = 0x1000 ∧ s₂.Confined 0 := by
  have hrun : (((ApiCall.initInstance firstSetup).prog 0 freshState).run
      (memHandle (twoWindows .a) .a) poolOneBusy).bind (fun r =>
        (((ApiCall.initInstance firstSetup).prog 0 r.1).run
          (memHandle (twoWindows .a) .a) (fun _ _ => 0)).map (fun r' =>
            ((r.1.driver.priv 0).global,
              (((r.1.driver.priv 0).channels 0).mng.pools 1).bdQueue.pushRing,
              (r'.1.driver.priv 0).global))) = some (0, 0x1080, 0x1000) := by
    decide +kernel
  obtain ⟨⟨s₁, shm₁⟩, hfirst, hrun⟩ := Option.bind_eq_some_iff.mp hrun
  obtain ⟨⟨s₂, shm₂⟩, hsecond, hfields⟩ := Option.map_eq_some_iff.mp hrun
  simp only [Prod.mk.injEq] at hfields
  obtain ⟨hg₁, hring, hg₂⟩ := hfields
  have hpl₀ : (({} : Driver).priv 0).Placed (twoWindows .a).os sampleCfg :=
    Driver.placed_initial _ _
  have hstep₁ : ApiStep 0 freshState (.initInstance firstSetup) s₁ :=
    Program.returns_of_run (ApiState.reads_of_memHandle rfl) hfirst
  have hstep₂ : ApiStep 0 s₁ (.initInstance firstSetup) s₂ :=
    Program.returns_of_run (ApiState.reads_of_memHandle hg₁) hsecond
  have hpl₁ : (s₁.driver.priv 0).Placed firstSetup.μ.os firstSetup.cfg := by
    rw [ApiCall.prog] at hfirst
    obtain ⟨r, shm, hinit, hret⟩ := Program.run_bind_eq_some.mp hfirst
    obtain ⟨rfl, -⟩ := Prod.mk.inj (Option.some.inj hret)
    exact ((ipcShmInitInstance_placed (S := firstSetup) (by decide) rfl hpl₀).of_returns
      (Program.returns_of_run env_of_memHandle hinit)).1
  exact ⟨s₁, s₂, hstep₁, hring, hstep₂, hg₂, stores_confined (S := firstSetup) (by decide)
    (.tail (.single ⟨.initInstance firstSetup, fun _ => hpl₀, hstep₁⟩)
      ⟨.initInstance firstSetup, fun _ => hpl₁, hstep₂⟩)⟩

/-- Stops in front of a store at `0x1080`. -/
def storesStale : Op → Bool
  | .store _ a _ => a = 0x1080
  | _ => false

/-- The store in front of which a program has stopped. -/
def pendingStore {α : Type} : Drv α → Option (ℕ × ℕ)
  | .op (.store n a _) _ => some (n, a)
  | _ => none

theorem pendingStore_eq_some {α : Type} {p : Drv α} {n a : ℕ} (h : pendingStore p = some (n, a)) :
    ∃ v k, p = .op (.store n a v) k := by
  unfold pendingStore at h
  split at h
  · obtain ⟨rfl, rfl⟩ := Prod.mk.inj (Option.some.inj h)
    exact ⟨_, _, rfl⟩
  · exact nomatch h

/-- **The cleanup of a failed initialization stores in the remote window.** The
first attempt gives up at pool 1 and leaves the pointer to its ring, `0x1080`.
In the mapping of the second attempt that address is in the remote window,
where the other peer's ring of pool 1 is. This attempt gives up at pool 0, and
its cleanup finds that ring live and clears it. -/
theorem cleanup_stores_remote : ∃ s : ApiState,
    Relation.ReflTransGen (fun s s' => ∃ call : ApiCall, ApiStep 0 s call s') freshState s ∧
    ¬((ApiCall.initInstance remappedSetup).prog 0 s).Always (s.Reads 0 remappedSetup.μ)
      (StoresIn (Region.Apart { addr := remappedSetup.μ.remoteShm, size := remappedSetup.μ.size }))
      (fun _ => True) := by
  have hrun : (((ApiCall.initInstance firstSetup).prog 0 freshState).run
      (memHandle (twoWindows .a) .a) poolOneBusy).bind (fun r =>
        (((ApiCall.initInstance remappedSetup).prog 0 r.1).advance
          (memHandle remappedSetup.μ .a) storesStale poolZeroBusy).map (fun r' =>
            ((r.1.driver.priv 0).global, pendingStore r'.1))) = some (0, some (8, 0x1080)) := by
    decide +kernel
  obtain ⟨⟨s, shm⟩, hfirst, hrun⟩ := Option.bind_eq_some_iff.mp hrun
  obtain ⟨⟨p, shm'⟩, hadv, hstop⟩ := Option.map_eq_some_iff.mp hrun
  obtain ⟨hg, hstop⟩ := Prod.mk.inj hstop
  obtain ⟨v, k, rfl⟩ := pendingStore_eq_some hstop
  have hstep : ApiStep 0 freshState (.initInstance firstSetup) s :=
    Program.returns_of_run (ApiState.reads_of_memHandle rfl) hfirst
  refine ⟨s, .single ⟨_, hstep⟩, fun hall => ?_⟩
  have hstore : Region.Apart { addr := 0x1000, size := 0x1000 } 0x1080 8 :=
    hall.of_advance (ApiState.reads_of_memHandle hg) hadv
  rcases hstore with h | h
  · exact absurd h (by decide)
  · exact absurd h (by decide)
