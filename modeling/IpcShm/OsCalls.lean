import IpcShm.Transfer

/-!
# Where the driver calls the system

The driver proper works on shared memory, and calls the OS and HW layers in a
few places only: at the start and at the end of an initialization and of a
release, and to notify the remote after a transmission. Everything in between
loads and stores. `InMemory` says so of a program, whatever it reads and with no
assumption on its arguments, so that a statement about the system has only the
few calls to look at. `Accesses` says more: nothing C leaves undefined is met on
the way.
-/

/-- A request that is answered by memory, or by the application. -/
def Op.IsMemory : Op → Prop
  | .ipcHwInit _ _ | .ipcHwFree _ | .ipcHwIrqEnable _ | .ipcHwIrqDisable _ | .ipcHwIrqNotify _
  | .ipcOsInit _ _ | .ipcOsFree _ => False
  | _ => True

/-- A load or a store. -/
def Op.IsAccess : Op → Prop
  | .load _ _ | .store _ _ _ | .memcpyFrom _ _ | .memcpyTo _ _ => True
  | _ => False

theorem Op.IsAccess.isMemory {o : Op} (h : o.IsAccess) : o.IsMemory := by
  cases o <;> trivial

/-- A program that only loads and stores, and so runs to its end. -/
def Accesses {α : Type} (p : Drv α) : Prop :=
  p.Always (fun _ _ => True) Op.IsAccess (fun _ => True)

/-- A program that does not call the system. -/
def InMemory {α : Type} (p : Drv α) : Prop :=
  p.Always (fun _ _ => True) Op.IsMemory (fun _ => True)

section Rules

variable {α β : Type}

theorem Accesses.inMemory {p : Drv α} (hp : Accesses p) : InMemory p :=
  Program.Always.mono hp (fun _ h => h.isMemory) (fun _ h => h)

theorem accesses_pure (a : α) : Accesses (pure a : Drv α) := trivial

theorem Accesses.bind {p : Drv α} {f : α → Drv β} (hp : Accesses p) (hf : ∀ a, Accesses (f a)) :
    Accesses (p >>= f) := Program.Always.bind hp (fun a _ => hf a)

theorem accesses_load32 (a : ℕ) : Accesses (load32 a) := ⟨trivial, fun _ _ => trivial⟩

theorem accesses_load64 (a : ℕ) : Accesses (load64 a) := ⟨trivial, fun _ _ => trivial⟩

theorem accesses_store32 (a v : ℕ) : Accesses (store32 a v) := ⟨trivial, fun _ _ => trivial⟩

theorem accesses_store64 (a v : ℕ) : Accesses (store64 a v) := ⟨trivial, fun _ _ => trivial⟩

theorem inMemory_pure (a : α) : InMemory (pure a : Drv α) := trivial

theorem InMemory.bind {p : Drv α} {f : α → Drv β} (hp : InMemory p) (hf : ∀ a, InMemory (f a)) :
    InMemory (p >>= f) := Program.Always.bind hp (fun a _ => hf a)

theorem inMemory_load32 (a : ℕ) : InMemory (load32 a) := (accesses_load32 a).inMemory

theorem inMemory_load64 (a : ℕ) : InMemory (load64 a) := (accesses_load64 a).inMemory

theorem inMemory_store32 (a v : ℕ) : InMemory (store32 a v) := (accesses_store32 a v).inMemory

theorem inMemory_store64 (a v : ℕ) : InMemory (store64 a v) := (accesses_store64 a v).inMemory

theorem inMemory_memcpyTo (a : ℕ) (bs : List UInt8) : InMemory (memcpyTo a bs) :=
  ⟨trivial, fun _ _ => trivial⟩

theorem inMemory_undefinedBehaviour : InMemory (undefinedBehaviour : Drv α) :=
  ⟨trivial, fun e => nomatch e⟩

theorem inMemory_remU (a b : ℕ) : InMemory (remU a b) := by
  unfold remU
  split
  · exact inMemory_undefinedBehaviour
  · exact inMemory_pure _

theorem inMemory_divU (a b : ℕ) : InMemory (divU a b) := by
  unfold divU
  split
  · exact inMemory_undefinedBehaviour
  · exact inMemory_pure _

end Rules

/-! ## Queues -/

theorem accesses_ipcQueueCheckIntegrity (q : IpcQueue) : Accesses (ipcQueueCheckIntegrity q) := by
  unfold ipcQueueCheckIntegrity
  refine (accesses_load64 _).bind (fun pop => ?_)
  split
  · refine (accesses_load64 _).bind (fun push => ?_)
    split <;> exact accesses_pure _
  · exact accesses_pure _

theorem inMemory_ipcQueuePush (q : IpcQueue) (buf : List UInt8) :
    InMemory (ipcQueuePush q buf) := by
  unfold ipcQueuePush
  split
  · exact inMemory_pure _
  refine (inMemory_load32 _).bind (fun write => (inMemory_load32 _).bind (fun read => ?_))
  split
  · exact inMemory_pure _
  refine (inMemory_remU _ _).bind (fun next => ?_)
  split
  · exact inMemory_pure _
  exact (inMemory_memcpyTo _ _).bind (fun _ => (inMemory_store32 _ _).bind
    (fun _ => inMemory_pure _))

theorem inMemory_ipcQueueSyncIndex (q : IpcQueue) (ty : IpcShmQueueType) :
    InMemory (ipcQueueSyncIndex q ty) := by
  unfold ipcQueueSyncIndex
  refine (inMemory_load64 _).bind (fun first => ?_)
  split
  · exact inMemory_pure _
  refine (inMemory_store64 _ _).bind (fun _ => (inMemory_load64 _).bind (fun second => ?_))
  split
  · exact (inMemory_load32 _).bind (fun _ => (inMemory_store32 _ _).bind (fun _ =>
      (inMemory_load32 _).bind (fun _ => (inMemory_remU _ _).bind (fun _ =>
        (inMemory_store32 _ _).bind (fun _ => inMemory_pure _)))))
  · exact (inMemory_store32 _ _).bind (fun _ => (inMemory_store32 _ _).bind
      (fun _ => inMemory_pure _))

theorem inMemory_ipcQueueInit (q : IpcQueue) (data : IpcQueueData) :
    InMemory (ipcQueueInit q data) := by
  unfold ipcQueueInit
  split
  · exact inMemory_pure _
  · exact (inMemory_ipcQueueSyncIndex _ _).bind (fun _ => inMemory_pure _)

theorem accesses_ringIsLive (a : ℕ) : Accesses (ringIsLive a) := by
  unfold ringIsLive
  refine (accesses_load64 _).bind (fun sentinel => ?_)
  split
  · exact accesses_pure _
  · exact (accesses_load64 _).bind (fun _ => accesses_pure _)

theorem accesses_ipcQueueFree (q : IpcQueue) : Accesses (ipcQueueFree q) := by
  unfold ipcQueueFree
  split
  · exact accesses_pure _
  refine (accesses_ringIsLive _).bind (fun live => ?_)
  split
  · exact (accesses_store64 _ _).bind (fun _ => (accesses_store32 _ _).bind (fun _ =>
      (accesses_store32 _ _).bind (fun _ => accesses_pure _)))
  · exact accesses_pure _

/-! ## Initialization of channels -/

theorem inMemory_pushFreeBds (q : IpcQueue) (poolId n bufId : ℕ) :
    InMemory (pushFreeBds q poolId n bufId) := by
  induction n generalizing bufId with
  | zero => exact inMemory_pure _
  | succ n ih =>
    refine (inMemory_ipcQueuePush _ _).bind (fun err => ?_)
    split
    · exact inMemory_pure _
    · exact ih _

theorem inMemory_ipcBufPoolInit (os : IpcOs) (shmSize : ℕ) (pool : IpcShmPool) (poolId : ℕ)
    (addr : IpcShmPoolAddr) (cfg : IpcShmPoolCfg) :
    InMemory (ipcBufPoolInit os shmSize pool poolId addr cfg) := by
  unfold ipcBufPoolInit
  split
  · exact inMemory_pure _
  refine (inMemory_ipcQueueInit _ _).bind (fun res => ?_)
  dsimp only
  split
  · exact inMemory_pure _
  split
  · exact inMemory_pure _
  refine (inMemory_pushFreeBds _ _ _ _).bind (fun err => ?_)
  split
  · exact inMemory_pure _
  · exact (inMemory_store64 _ _).bind (fun _ => inMemory_pure _)

theorem inMemory_initPools (os : IpcOs) (shmSize : ℕ) (pools : ℕ → IpcShmPoolCfg) (n poolId : ℕ)
    (addr : IpcShmPoolAddr) (chan : IpcManagedChannel) :
    InMemory (initPools os shmSize pools n poolId addr chan) := by
  induction n generalizing poolId addr chan with
  | zero => exact inMemory_pure _
  | succ n ih =>
    refine (inMemory_ipcBufPoolInit _ _ _ _ _ _).bind (fun res => ?_)
    dsimp only
    split
    · exact inMemory_pure _
    · exact ih _ _ _

theorem inMemory_initChannelQueue (q : IpcQueue) (data : IpcQueueData) :
    InMemory (initChannelQueue q data) := by
  unfold initChannelQueue
  refine (inMemory_ipcQueueInit _ _).bind (fun res => ?_)
  dsimp only
  split
  · exact inMemory_pure _
  · exact (inMemory_store64 _ _).bind (fun _ => inMemory_pure _)

theorem inMemory_managedChannelInit (os : IpcOs) (shmSize : ℕ) (chan : IpcManagedChannel)
    (localShm remoteShm : ℕ) (cfg : IpcShmManagedCfg) :
    InMemory (managedChannelInit os shmSize chan localShm remoteShm cfg) := by
  unfold managedChannelInit
  split
  · exact inMemory_pure _
  cases cfg.pools with
  | none => exact inMemory_pure _
  | some pools =>
    dsimp only
    split
    · exact inMemory_pure _
    split
    · exact inMemory_pure _
    refine (inMemory_initChannelQueue _ _).bind (fun res => ?_)
    split
    · exact inMemory_pure _
    split
    · exact inMemory_pure _
    · exact inMemory_initPools _ _ _ _ _ _ _

theorem inMemory_unmanagedChannelInit (chan : IpcShmChannel) (localShm remoteShm : ℕ)
    (cfg : IpcShmUnmanagedCfg) : InMemory (unmanagedChannelInit chan localShm remoteShm cfg) := by
  unfold unmanagedChannelInit
  split
  · exact inMemory_pure _
  refine (inMemory_load32 _).bind (fun first => ?_)
  split
  · exact inMemory_pure _
  refine (inMemory_store32 _ _).bind (fun _ => (inMemory_load32 _).bind (fun second => ?_))
  split
  · exact (inMemory_load32 _).bind (fun _ => (inMemory_store32 _ _).bind (fun _ =>
      (inMemory_load32 _).bind (fun _ => (inMemory_store32 _ _).bind (fun _ =>
        (inMemory_store32 _ _).bind (fun _ => inMemory_pure _)))))
  · exact (inMemory_store32 _ _).bind (fun _ => (inMemory_store32 _ _).bind (fun _ =>
      (inMemory_store32 _ _).bind (fun _ => inMemory_pure _)))

theorem inMemory_ipcShmInitChannels (os : IpcOs) (shmSize : ℕ) (chan : IpcShmChannel)
    (chanId localShm remoteShm : ℕ) (cfg : Option IpcShmChannelCfg) :
    InMemory (ipcShmInitChannels os shmSize chan chanId localShm remoteShm cfg) := by
  unfold ipcShmInitChannels
  cases cfg with
  | none => exact inMemory_pure _
  | some cfg =>
    cases cfg with
    | managed mcfg =>
      exact (inMemory_managedChannelInit _ _ _ _ _ _).bind (fun _ => inMemory_pure _)
    | unmanaged ucfg => exact inMemory_unmanagedChannelInit _ _ _ _
    | invalid => exact inMemory_pure _

/-- **The channels of an instance are initialized in memory.** -/
theorem inMemory_initChannels (os : IpcOs) (channels : Option (ℕ → IpcShmChannelCfg))
    (n chanId localShm remoteShm : ℕ) (priv : IpcShmPriv) :
    InMemory (initChannels os channels n chanId localShm remoteShm priv) := by
  induction n generalizing chanId localShm remoteShm priv with
  | zero => exact inMemory_pure _
  | succ n ih =>
    refine (inMemory_ipcShmInitChannels _ _ _ _ _ _ _).bind (fun res => ?_)
    dsimp only
    split
    · exact inMemory_pure _
    · exact ih _ _ _ _

/-! ## Release of channels -/

theorem accesses_freePools (n poolId : ℕ) (mchan : IpcManagedChannel) :
    Accesses (freePools n poolId mchan) := by
  induction n generalizing poolId mchan with
  | zero => exact accesses_pure _
  | succ n ih =>
    unfold freePools
    split
    · exact ih _ _
    refine (accesses_ringIsLive _).bind (fun live => ?_)
    split
    · exact (accesses_ipcQueueFree _).bind (fun _ => ih _ _)
    · exact ih _ _

theorem accesses_ipcShmFreeManagedChannel (mchan : IpcManagedChannel) :
    Accesses (ipcShmFreeManagedChannel mchan) := by
  unfold ipcShmFreeManagedChannel
  refine (accesses_ringIsLive _).bind (fun live => ?_)
  split
  · exact (accesses_ipcQueueFree _).bind (fun _ => accesses_freePools _ _ _)
  · exact accesses_pure _

theorem accesses_ipcShmFreeChannel (chan : IpcShmChannel) (type : IpcShmChannelType) :
    Accesses (ipcShmFreeChannel chan type) := by
  unfold ipcShmFreeChannel
  cases type with
  | managed =>
    dsimp only
    split
    · exact (accesses_ipcShmFreeManagedChannel _).bind (fun _ => accesses_pure _)
    · exact accesses_pure _
  | unmanaged =>
    dsimp only
    split
    · exact (accesses_store32 _ _).bind (fun _ => (accesses_store32 _ _).bind (fun _ =>
        (accesses_store32 _ _).bind (fun _ => accesses_pure _)))
    · exact accesses_pure _
  | invalid => exact accesses_pure _

/-- **The channels of an instance are freed in memory.** -/
theorem accesses_freeChannels (type : ℕ → IpcShmChannelType) (n chanId : ℕ) (priv : IpcShmPriv) :
    Accesses (freeChannels type n chanId priv) := by
  induction n generalizing chanId priv with
  | zero => exact accesses_pure _
  | succ n ih => exact (accesses_ipcShmFreeChannel _ _).bind (fun _ => ih _ _)

theorem accesses_freeConfiguredChannels (channels : Option (ℕ → IpcShmChannelCfg))
    (priv : IpcShmPriv) : Accesses (freeConfiguredChannels channels priv) := by
  unfold freeConfiguredChannels
  cases channels with
  | none => exact accesses_pure _
  | some channels => exact accesses_freeChannels _ _ _ _

/-! ## The header of an instance

Channels come and go without the header: where the instance is, and how many
channels it has. -/

section Header

variable {E : (o : Op) → o.Ret → Prop}

theorem initChannels_header (os : IpcOs) (channels : Option (ℕ → IpcShmChannelCfg))
    (n chanId localShm remoteShm : ℕ) (priv : IpcShmPriv) :
    (initChannels os channels n chanId localShm remoteShm priv).Always E (fun _ => True)
      (fun res => res.2.numChannels = priv.numChannels ∧ res.2.global = priv.global) := by
  induction n generalizing chanId localShm remoteShm priv with
  | zero => exact ⟨rfl, rfl⟩
  | succ n ih =>
    rw [initChannels]
    refine (Program.Always.trivial _).bind (fun res _ => ?_)
    dsimp only
    split
    · exact ⟨rfl, rfl⟩
    · exact ih _ _ _ (priv.setChannel chanId res.2)

theorem freeChannels_header (type : ℕ → IpcShmChannelType) (n chanId : ℕ) (priv : IpcShmPriv) :
    (freeChannels type n chanId priv).Always E (fun _ => True)
      (fun res => res.numChannels = priv.numChannels ∧ res.global = priv.global) := by
  induction n generalizing chanId priv with
  | zero => exact ⟨rfl, rfl⟩
  | succ n ih =>
    rw [freeChannels]
    exact (Program.Always.trivial _).bind (fun chan _ => ih _ (priv.setChannel chanId chan))

theorem freeConfiguredChannels_header (channels : Option (ℕ → IpcShmChannelCfg))
    (priv : IpcShmPriv) :
    (freeConfiguredChannels channels priv).Always E (fun _ => True)
      (fun res => res.numChannels = priv.numChannels ∧ res.global = priv.global) := by
  cases channels with
  | none => exact ⟨rfl, rfl⟩
  | some channels => exact freeChannels_header _ _ _ _

end Header

/-! ## Checks of an instance and of its channels -/

theorem accesses_ipcInstanceIsFree (d : Driver) (inst : ℕ) :
    Accesses (ipcInstanceIsFree d inst) := by
  unfold ipcInstanceIsFree
  split
  · exact accesses_pure _
  split
  · exact accesses_pure _
  refine (accesses_load64 _).bind (fun state => ?_)
  split <;> exact accesses_pure _

theorem accesses_ipcShmIsRemoteReady (d : Driver) (inst : ℕ) :
    Accesses (ipcShmIsRemoteReady d inst) := by
  unfold ipcShmIsRemoteReady
  refine (accesses_ipcInstanceIsFree d inst).bind (fun state => ?_)
  split
  · exact accesses_pure _
  refine (accesses_load64 _).bind (fun remote => ?_)
  split <;> exact accesses_pure _

theorem accesses_checkPoolsIntegrity (pools : ℕ → IpcShmPool) (n poolId : ℕ) :
    Accesses (checkPoolsIntegrity pools n poolId) := by
  induction n generalizing poolId with
  | zero => exact accesses_pure _
  | succ n ih =>
    refine (accesses_ipcQueueCheckIntegrity _).bind (fun err => ?_)
    split
    · exact accesses_pure _
    · exact ih _

theorem accesses_ipcCheckMchanIntegrity (mchan : IpcManagedChannel) :
    Accesses (ipcCheckMchanIntegrity mchan) := by
  unfold ipcCheckMchanIntegrity
  refine (accesses_ipcQueueCheckIntegrity _).bind (fun err => ?_)
  split
  · exact accesses_checkPoolsIntegrity _ _ _
  · exact accesses_pure _

theorem accesses_ipcCheckUchanIntegrity (uchan : IpcShmChannel) :
    Accesses (ipcCheckUchanIntegrity uchan) := by
  unfold ipcCheckUchanIntegrity
  refine (accesses_load32 _).bind (fun mine => ?_)
  split
  · refine (accesses_load32 _).bind (fun theirs => ?_)
    split <;> exact accesses_pure _
  · exact accesses_pure _

/-! ## Executions -/

/-- A program that only loads and stores is executed to its end. -/
theorem Accesses.exists_exec {α σ : Type} {A : (o : Op) → σ → o.Ret → σ → Prop}
    (hA : ∀ o s, o.IsAccess → ∃ r, A o s r s) {p : Drv α} (hp : Accesses p) (s : σ) :
    ∃ a, p.Exec A s a s := by
  induction p with
  | pure a => exact ⟨a, rfl, rfl⟩
  | op o k ih =>
    obtain ⟨r, hr⟩ := hA o s hp.1
    obtain ⟨a, h⟩ := ih r (hp.2 r trivial)
    exact ⟨a, r, s, hr, h⟩

/-- **A program in memory leaves the system alone**, if memory does. -/
theorem InMemory.exec_eq {α σ : Type} {A : (o : Op) → σ → o.Ret → σ → Prop}
    (hA : ∀ o s r s', o.IsMemory → A o s r s' → s' = s) {p : Drv α} (hp : InMemory p) {s t : σ}
    {a : α} (h : p.Exec A s a t) : t = s :=
  (h.of_always hp (I := fun u => u = s) rfl
    (fun o _ r s' ho hI hr => ⟨trivial, (hA o _ r s' ho hr).trans hI⟩)).2
