import IpcShm.DataPath
import IpcShm.Reception

/-!
# Calls with invalid arguments

Nine functions make up the interface of the driver, and each of them checks
its instance and channel id itself, through `ipc_instance_is_free` and the
channel lookups. This module says what a call with an invalid id does: it
probes whether the instance is in use – at most two loads – and fails. The
program of such a call is the same for all drivers that agree on the four
instances and their eight channels, so no element behind the arrays is looked
at, and the driver it returns is the one it was given.

Two calls do not check what they are given. `ipc_shm_init_instance` compares
the three-valued answer of `ipc_instance_is_free` with `USED` only, so an
instance id out of range goes through with any acceptable configuration, and
the private data is written behind the array. `ipc_shm_tx` takes the channel
id as an `int` and hands it on as a `uint8_t`, so 256 names channel 0. The
calls that slip through are exactly these (`arguments_checked`): a
transmission under such an id is still rejected if channel 0 could not send
the buffer either.
-/

/-- **The functions of the interface**, with their arguments other than the
instance. -/
inductive EntryPoint where
  | initInstance (cfg : Option IpcShmCfg)
  | freeInstance
  | acquireBuf (chanId memSize : ℕ)
  | releaseBuf (chanId buf : ℕ)
  | tx (chanId : ℤ) (buf size : ℕ)
  | unmanagedAcquire (chanId : ℕ)
  | unmanagedTx (chanId : ℕ)
  | isRemoteReady
  | pollChannels

/-- What a call returns. -/
inductive ApiResult where
  | code (err : ℤ)
  | pointer (addr : ℕ)
  | unit
  deriving DecidableEq

/-- The caller is told of a failure: by a negative code or by `NULL`. -/
def ApiResult.Failed : ApiResult → Prop
  | .code err => err < 0
  | .pointer addr => addr = 0
  | .unit => True

namespace EntryPoint

/-- **The program of a call**, with what the OS layer keeps for the reception
of each instance. -/
def prog (rx : ℕ → IpcOsRx) (d : Driver) (inst : ℕ) : EntryPoint → Drv (ApiResult × Driver)
  | .initInstance cfg => do
    let (err, d) ← ipcShmInitInstance d inst cfg
    return (.code err, d)
  | .freeInstance => do
    let d ← ipcShmFreeInstance d inst
    return (.unit, d)
  | .acquireBuf chanId memSize => do
    let buf ← ipcShmAcquireBuf d inst chanId memSize
    return (.pointer buf, d)
  | .releaseBuf chanId buf => do
    let err ← ipcShmReleaseBuf d inst chanId buf
    return (.code err, d)
  | .tx chanId buf size => do
    let err ← ipcShmTx d inst chanId buf size
    return (.code err, d)
  | .unmanagedAcquire chanId => do
    let mem ← ipcShmUnmanagedAcquire d inst chanId
    return (.pointer mem, d)
  | .unmanagedTx chanId => do
    let err ← ipcShmUnmanagedTx d inst chanId
    return (.code err, d)
  | .isRemoteReady => do
    let err ← ipcShmIsRemoteReady d inst
    return (.code err, d)
  | .pollChannels => do
    let err ← ipcShmPollChannels (rx inst) d inst
    return (.code err, d)

/-- What a call returns for invalid arguments. -/
def failure : EntryPoint → ApiResult
  | .freeInstance => .unit
  | .acquireBuf _ _ => .pointer 0
  | .unmanagedAcquire _ => .pointer 0
  | _ => .code (-EINVAL)

/-- The channel argument, with the type the channel must have. -/
def channel : EntryPoint → Option (ℤ × IpcShmChannelType)
  | .acquireBuf chanId _ => some (chanId, .managed)
  | .releaseBuf chanId _ => some (chanId, .managed)
  | .tx chanId _ _ => some (chanId, .managed)
  | .unmanagedAcquire chanId => some (chanId, .unmanaged)
  | .unmanagedTx chanId => some (chanId, .unmanaged)
  | _ => none

end EntryPoint

/-- The instance has a channel of this id and type. -/
def Driver.HasChannel (d : Driver) (inst : ℕ) (chanId : ℤ) (type : IpcShmChannelType) : Prop :=
  0 ≤ chanId ∧ chanId < (d.priv inst).numChannels ∧
    ((d.priv inst).channels chanId.toNat).type = type

namespace EntryPoint

/-- **Invalid arguments**: the instance id is out of range, or the channel id
is, or it names a channel of the other kind. -/
def Invalid (d : Driver) (inst : ℕ) (call : EntryPoint) : Prop :=
  ipcShmMaxInstances ≤ inst ∨
    ∃ chanId type, call.channel = some (chanId, type) ∧ ¬d.HasChannel inst chanId type

/-- The part of a call before its arguments have been checked. -/
def probe (d : Driver) (inst : ℕ) : EntryPoint → Drv Unit
  | .acquireBuf _ _ => ipcShmIsRemoteReady d inst >>= fun _ => return ()
  | .tx _ _ _ => ipcShmIsRemoteReady d inst >>= fun _ => return ()
  | .unmanagedTx _ => ipcShmIsRemoteReady d inst >>= fun _ => return ()
  | .isRemoteReady => ipcShmIsRemoteReady d inst >>= fun _ => return ()
  | _ => ipcInstanceIsFree d inst >>= fun _ => return ()

end EntryPoint

/-- The channel can send the buffer: it is in one of its pools, and there is a
ring with room for an element to push it into. -/
def IpcManagedChannel.Sends (chan : IpcManagedChannel) (buf size : ℕ) : Prop :=
  buf ≠ 0 ∧ size ≠ 0 ∧ findPoolForBuf chan buf false ≠ -EINVAL ∧
    chan.bdQueue.pushRing ≠ 0 ∧ chan.bdQueue.popRing ≠ 0 ∧ 2 ≤ chan.bdQueue.elemNum

instance decidable_sends (chan : IpcManagedChannel) (buf size : ℕ) :
    Decidable (chan.Sends buf size) := by
  unfold IpcManagedChannel.Sends
  infer_instance

/-- **The calls that slip through.** `ipc_shm_init_instance` finds out about an
instance id out of range only if it refuses the configuration. `ipc_shm_tx`
looks up the lowest byte of its channel id, and goes on with the channel that
it finds there. -/
def EntryPoint.Slips (d : Driver) (inst : ℕ) : EntryPoint → Prop
  | .initInstance cfg => ipcShmMaxInstances ≤ inst ∧ ∃ c, cfg = some c ∧
      c.localShmAddr ≠ 0 ∧ c.remoteShmAddr ≠ 0 ∧
      1 ≤ c.numChannels.toNat ∧ c.numChannels.toNat ≤ ipcShmMaxChannels
  | .tx chanId buf size => inst < ipcShmMaxInstances ∧ (d.priv inst).global ≠ 0 ∧
      ¬d.HasChannel inst chanId .managed ∧
      ∃ chan, getManagedChan d inst (chanId % 2 ^ 8).toNat = some chan ∧ chan.Sends buf size
  | _ => False

/-- The request only loads from shared memory. -/
def Op.IsLoad : Op → Prop
  | .load _ _ => True
  | .memcpyFrom _ _ => True
  | _ => False

/-! ## Lookups -/

section Lookups

variable {d : Driver} {inst : ℕ} {c : ℕ}

theorem ipcInstanceIsFree_out (h : ipcShmMaxInstances ≤ inst) :
    ipcInstanceIsFree d inst = .pure .error := if_pos h

theorem ipcShmIsRemoteReady_out (h : ipcShmMaxInstances ≤ inst) :
    ipcShmIsRemoteReady d inst = .pure (-EINVAL) := by
  rw [ipcShmIsRemoteReady, ipcInstanceIsFree_out h]
  rfl

/-- An instance in use has its header. -/
theorem ipcInstanceIsFree_used :
    (ipcInstanceIsFree d inst).Always (fun _ _ => True) Op.IsLoad
      (fun st => st = .used → (d.priv inst).global ≠ 0) := by
  unfold ipcInstanceIsFree
  split
  · exact fun h => nomatch h
  split
  · exact fun h => nomatch h
  rename_i hg
  rw [load64_bind]
  refine ⟨trivial, fun v _ => ?_⟩
  dsimp only
  split
  · exact fun h => nomatch h
  · exact fun _ => hg

theorem ipcShmIsRemoteReady_used :
    (ipcShmIsRemoteReady d inst).Always (fun _ _ => True) Op.IsLoad
      (fun ready => ready = 0 → (d.priv inst).global ≠ 0) := by
  unfold ipcShmIsRemoteReady
  refine ipcInstanceIsFree_used.bind (fun st hst => ?_)
  split
  · exact fun h => absurd h (show -EINVAL ≠ 0 by decide)
  rename_i hused
  have hg := hst (not_not.mp hused)
  rw [load64_bind]
  refine ⟨trivial, fun v _ => ?_⟩
  dsimp only
  split
  · exact fun _ => hg
  · exact fun _ => hg

theorem getManagedChan_none (h : ¬d.HasChannel inst c .managed) :
    getManagedChan d inst c = none := by
  unfold getManagedChan getChannel
  by_cases hc : (d.priv inst).numChannels ≤ c
  · rw [if_pos hc]
  · rw [if_neg hc]
    refine if_pos (fun ht => h ⟨Int.natCast_nonneg c, ?_, ?_⟩)
    · exact Int.ofNat_lt.mpr (Nat.not_le.mp hc)
    · rw [Int.toNat_natCast]
      exact ht

theorem getManagedChan_of_has (h : d.HasChannel inst c .managed) :
    getManagedChan d inst c = some ((d.priv inst).channels c).mng := by
  obtain ⟨-, hlt, htype⟩ := h
  rw [Int.toNat_natCast] at htype
  unfold getManagedChan getChannel
  rw [if_neg (by omega)]
  exact if_neg (not_not.mpr htype)

theorem getUnmanagedChan_none (h : ¬d.HasChannel inst c .unmanaged) :
    getUnmanagedChan d inst c = none := by
  unfold getUnmanagedChan getChannel
  by_cases hc : (d.priv inst).numChannels ≤ c
  · rw [if_pos hc]
  · rw [if_neg hc]
    refine if_pos (fun ht => h ⟨Int.natCast_nonneg c, ?_, ?_⟩)
    · exact Int.ofNat_lt.mpr (Nat.not_le.mp hc)
    · rw [Int.toNat_natCast]
      exact ht

/-! Whether a call stops at the probe or behind it, it returns the same. -/

theorem ready_bind_const {β γ : Type} {f : ℤ → Drv β} {g : β → Drv γ} (b : β)
    (h0 : (d.priv inst).global ≠ 0 → f 0 = .pure b) (hne : ∀ r, r ≠ 0 → f r = .pure b) :
    (ipcShmIsRemoteReady d inst >>= f >>= g)
      = (ipcShmIsRemoteReady d inst >>= fun _ => return ()) >>= fun _ => g b := by
  rw [Program.bind_assoc', Program.bind_assoc']
  refine Program.Always.bind_congr
    (ipcShmIsRemoteReady_used.mono (fun _ _ => trivial) (fun r hr => ?_))
  by_cases hz : r = 0
  · rw [hz, h0 (hr hz)]
    rfl
  · rw [hne r hz]
    rfl

theorem used_bind_const {β γ : Type} {f : IpcShmInstanceState → Drv β} {g : β → Drv γ} (b : β)
    (h0 : (d.priv inst).global ≠ 0 → f .used = .pure b)
    (hne : ∀ st, st ≠ .used → f st = .pure b) :
    (ipcInstanceIsFree d inst >>= f >>= g)
      = (ipcInstanceIsFree d inst >>= fun _ => return ()) >>= fun _ => g b := by
  rw [Program.bind_assoc', Program.bind_assoc']
  refine Program.Always.bind_congr
    (ipcInstanceIsFree_used.mono (fun _ _ => trivial) (fun st hst => ?_))
  by_cases hz : st = .used
  · rw [hz, h0 (hst hz)]
    rfl
  · rw [hne st hz]
    rfl

end Lookups

/-! ## Rejection -/

namespace EntryPoint

/-- The channel that is looked up. -/
def lookup : EntryPoint → Option (ℕ × IpcShmChannelType)
  | .acquireBuf chanId _ => some (chanId, .managed)
  | .releaseBuf chanId _ => some (chanId, .managed)
  | .tx chanId _ _ => some ((chanId % 2 ^ 8).toNat, .managed)
  | .unmanagedAcquire chanId => some (chanId, .unmanaged)
  | .unmanagedTx chanId => some (chanId, .unmanaged)
  | _ => none

/-- The lookup of an instance in use finds no channel. -/
def Misses (d : Driver) (inst : ℕ) (call : EntryPoint) : Prop :=
  ∃ c type, call.lookup = some (c, type) ∧
    ((d.priv inst).global ≠ 0 → ¬d.HasChannel inst c type)

variable {rx : ℕ → IpcOsRx} {d : Driver} {inst : ℕ} {call : EntryPoint}

/-- **An instance id out of range**: the call is a probe and a failure, with
the driver as it was. -/
theorem prog_of_out (h : ipcShmMaxInstances ≤ inst) (hslips : ¬call.Slips d inst) :
    call.prog rx d inst = call.probe d inst >>= fun _ => .pure (call.failure, d) := by
  cases call with
  | initInstance cfg =>
    simp only [prog, probe, failure, ipcShmInitInstance, ipcInstanceIsFree_out h,
      Program.pure_bind, Program.pure_eq]
    rw [if_neg (by decide)]
    cases cfg with
    | none => rfl
    | some c =>
      dsimp only
      split
      · rfl
      · rename_i haddr
        obtain ⟨hl, hr⟩ := not_or.mp haddr
        split
        · rfl
        · rename_i hnum
          obtain ⟨h1, h8⟩ := not_or.mp hnum
          exact absurd ⟨h, c, rfl, hl, hr, Nat.not_lt.mp h1, Nat.not_lt.mp h8⟩ hslips
  | freeInstance =>
    simp only [prog, probe, failure, ipcShmFreeInstance, ipcInstanceIsFree_out h]; rfl
  | acquireBuf _ _ => simp only [prog, probe, ipcShmAcquireBuf, ipcShmIsRemoteReady_out h]; rfl
  | releaseBuf _ _ => simp only [prog, probe, ipcShmReleaseBuf, ipcInstanceIsFree_out h]; rfl
  | tx _ _ _ => simp only [prog, probe, ipcShmTx, ipcShmIsRemoteReady_out h]; rfl
  | unmanagedAcquire _ =>
    simp only [prog, probe, ipcShmUnmanagedAcquire, ipcInstanceIsFree_out h]; rfl
  | unmanagedTx _ => simp only [prog, probe, ipcShmUnmanagedTx, ipcShmIsRemoteReady_out h]; rfl
  | isRemoteReady => simp only [prog, probe, ipcShmIsRemoteReady_out h]; rfl
  | pollChannels => simp only [prog, probe, ipcShmPollChannels, ipcInstanceIsFree_out h]; rfl

/-- **A lookup that misses**: the call is a probe and a failure, with the driver
as it was. -/
theorem prog_of_misses (h : call.Misses d inst) :
    call.prog rx d inst = call.probe d inst >>= fun _ => .pure (call.failure, d) := by
  obtain ⟨c, type, hc, hmiss⟩ := h
  cases call with
  | acquireBuf chanId memSize =>
    obtain ⟨rfl, rfl⟩ := Prod.mk.inj (Option.some.inj hc)
    refine ready_bind_const 0 (fun hg => ?_) (fun r hr => if_pos hr)
    rw [getManagedChan_none (hmiss hg)]
    rfl
  | releaseBuf chanId buf =>
    obtain ⟨rfl, rfl⟩ := Prod.mk.inj (Option.some.inj hc)
    refine used_bind_const (-EINVAL) (fun hg => ?_) (fun st hst => if_pos hst)
    rw [getManagedChan_none (hmiss hg)]
    rfl
  | tx chanId buf size =>
    obtain ⟨rfl, rfl⟩ := Prod.mk.inj (Option.some.inj hc)
    refine ready_bind_const (-EINVAL) (fun hg => ?_) (fun r hr => if_pos hr)
    rw [getManagedChan_none (hmiss hg)]
    rfl
  | unmanagedAcquire chanId =>
    obtain ⟨rfl, rfl⟩ := Prod.mk.inj (Option.some.inj hc)
    refine used_bind_const 0 (fun hg => ?_) (fun st hst => if_pos hst)
    rw [getUnmanagedChan_none (hmiss hg)]
    rfl
  | unmanagedTx chanId =>
    obtain ⟨rfl, rfl⟩ := Prod.mk.inj (Option.some.inj hc)
    refine ready_bind_const (-EINVAL) (fun hg => ?_) (fun r hr => if_pos hr)
    rw [getUnmanagedChan_none (hmiss hg)]
    rfl
  | initInstance _ => exact nomatch hc
  | freeInstance => exact nomatch hc
  | isRemoteReady => exact nomatch hc
  | pollChannels => exact nomatch hc

/-- An invalid channel argument is missed by the lookup, unless it is one of
`ipc_shm_tx` and its lowest byte is valid. -/
theorem misses_of_invalid {chanId : ℤ} {type : IpcShmChannelType}
    (hc : call.channel = some (chanId, type)) (hno : ¬d.HasChannel inst chanId type) :
    call.Misses d inst ∨ ∃ id buf size, call = .tx id buf size ∧ (d.priv inst).global ≠ 0 ∧
      ¬d.HasChannel inst id .managed ∧
      d.HasChannel inst ((id % 2 ^ 8).toNat : ℕ) .managed := by
  cases call with
  | tx id buf size =>
    obtain ⟨rfl, rfl⟩ := Prod.mk.inj (Option.some.inj hc)
    by_cases hm : (d.priv inst).global ≠ 0 → ¬d.HasChannel inst ((id % 2 ^ 8).toNat : ℕ) .managed
    · exact Or.inl ⟨_, _, rfl, hm⟩
    · obtain ⟨hg, hhas⟩ := Classical.not_imp.mp hm
      exact Or.inr ⟨id, buf, size, rfl, hg, hno, not_not.mp hhas⟩
  | acquireBuf _ _ =>
    obtain ⟨rfl, rfl⟩ := Prod.mk.inj (Option.some.inj hc)
    exact Or.inl ⟨_, _, rfl, fun _ => hno⟩
  | releaseBuf _ _ =>
    obtain ⟨rfl, rfl⟩ := Prod.mk.inj (Option.some.inj hc)
    exact Or.inl ⟨_, _, rfl, fun _ => hno⟩
  | unmanagedAcquire _ =>
    obtain ⟨rfl, rfl⟩ := Prod.mk.inj (Option.some.inj hc)
    exact Or.inl ⟨_, _, rfl, fun _ => hno⟩
  | unmanagedTx _ =>
    obtain ⟨rfl, rfl⟩ := Prod.mk.inj (Option.some.inj hc)
    exact Or.inl ⟨_, _, rfl, fun _ => hno⟩
  | initInstance _ => exact nomatch hc
  | freeInstance => exact nomatch hc
  | isRemoteReady => exact nomatch hc
  | pollChannels => exact nomatch hc

/-- The probe only loads. -/
theorem probe_always (d : Driver) (inst : ℕ) (call : EntryPoint) :
    (call.probe d inst).Always (fun _ _ => True) Op.IsLoad (fun _ => True) := by
  unfold probe
  split
  all_goals first
    | exact ipcShmIsRemoteReady_used.bind (fun _ _ => trivial)
    | exact ipcInstanceIsFree_used.bind (fun _ _ => trivial)

theorem failure_failed (call : EntryPoint) : call.failure.Failed := by
  cases call <;> first | trivial | exact rfl | exact (show -EINVAL < 0 by decide)

end EntryPoint

/-- **Drivers that agree in range**: on the instances there are, and on the
channels there are in them. -/
structure Driver.AgreeInRange (d d' : Driver) : Prop where
  os : ∀ i, i < ipcShmMaxInstances → d'.os i = d.os i
  global : ∀ i, i < ipcShmMaxInstances → (d'.priv i).global = (d.priv i).global
  numChannels : ∀ i, i < ipcShmMaxInstances → (d'.priv i).numChannels = (d.priv i).numChannels
  channels : ∀ i, i < ipcShmMaxInstances → ∀ c, c < ipcShmMaxChannels →
    (d'.priv i).channels c = (d.priv i).channels c

section Agree

variable {d d' : Driver} {inst : ℕ} {call : EntryPoint}

theorem Driver.AgreeInRange.isFree (h : d.AgreeInRange d') :
    ipcInstanceIsFree d' inst = ipcInstanceIsFree d inst := by
  by_cases hi : ipcShmMaxInstances ≤ inst
  · rw [ipcInstanceIsFree_out hi, ipcInstanceIsFree_out hi]
  · unfold ipcInstanceIsFree
    rw [h.global inst (Nat.not_le.mp hi)]

theorem Driver.AgreeInRange.isRemoteReady (h : d.AgreeInRange d') :
    ipcShmIsRemoteReady d' inst = ipcShmIsRemoteReady d inst := by
  by_cases hi : ipcShmMaxInstances ≤ inst
  · rw [ipcShmIsRemoteReady_out hi, ipcShmIsRemoteReady_out hi]
  · unfold ipcShmIsRemoteReady
    rw [h.isFree, h.os inst (Nat.not_le.mp hi)]

theorem Driver.AgreeInRange.probe (h : d.AgreeInRange d') :
    call.probe d' inst = call.probe d inst := by
  cases call <;> simp only [EntryPoint.probe, h.isFree, h.isRemoteReady]

/-- A lookup misses in all drivers that agree in range. -/
theorem EntryPoint.Misses.agree (hm : call.Misses d inst) (h : d.AgreeInRange d')
    (hd : d.Configured) (hinst : inst < ipcShmMaxInstances) : call.Misses d' inst := by
  obtain ⟨c, type, hc, hmiss⟩ := hm
  refine ⟨c, type, hc, fun hg hhas => ?_⟩
  rw [h.global inst hinst] at hg
  obtain ⟨h0, hlt, htype⟩ := hhas
  rw [h.numChannels inst hinst] at hlt
  have hnum := (hd inst hg).2
  rw [h.channels inst hinst _ (by omega)] at htype
  exact hmiss hg ⟨h0, hlt, htype⟩

/-- A channel of an instance in use is found alike in all drivers that agree in
range. -/
theorem Driver.AgreeInRange.managedChan (h : d.AgreeInRange d') (hd : d.Configured)
    (hinst : inst < ipcShmMaxInstances) (hg : (d.priv inst).global ≠ 0) (c : ℕ) :
    getManagedChan d' inst c = getManagedChan d inst c := by
  have hnum := (hd inst hg).2
  unfold getManagedChan getChannel
  rw [h.numChannels inst hinst]
  by_cases hc : (d.priv inst).numChannels ≤ c
  · rw [if_pos hc, if_pos hc]
  · rw [if_neg hc, if_neg hc, h.channels inst hinst c (by omega)]

theorem Driver.AgreeInRange.transmit (h : d.AgreeInRange d') (hd : d.Configured)
    (hinst : inst < ipcShmMaxInstances) (chanId : ℤ) (buf size : ℕ) :
    ipcShmTx d' inst chanId buf size = ipcShmTx d inst chanId buf size := by
  unfold ipcShmTx
  rw [h.isRemoteReady]
  refine Program.Always.bind_congr
    (ipcShmIsRemoteReady_used.mono (fun _ _ => trivial) (fun r hr => ?_))
  by_cases hz : r = 0
  · rw [h.managedChan hd hinst (hr hz)]
  · rw [if_pos hz, if_pos hz]

end Agree

/-! ## Transmissions under another channel's id -/

section Tx

variable {d : Driver} {inst : ℕ} {chan : IpcManagedChannel}

theorem ipcQueueCheckIntegrity_loads (q : IpcQueue) :
    (ipcQueueCheckIntegrity q).Always (fun _ _ => True) Op.IsLoad (fun _ => True) := by
  unfold ipcQueueCheckIntegrity
  rw [load64_bind]
  refine ⟨trivial, fun v _ => ?_⟩
  dsimp only
  split
  · rw [load64_bind]
    refine ⟨trivial, fun w _ => ?_⟩
    dsimp only
    split <;> trivial
  · trivial

theorem ipcCheckMchanIntegrity_loads (chan : IpcManagedChannel) :
    (ipcCheckMchanIntegrity chan).Always (fun _ _ => True) Op.IsLoad (fun _ => True) := by
  have hpools : ∀ n p, (checkPoolsIntegrity chan.pools n p).Always (fun _ _ => True) Op.IsLoad
      (fun _ => True) := by
    intro n
    induction n with
    | zero => exact fun _ => trivial
    | succ n ih =>
      intro p
      rw [checkPoolsIntegrity]
      refine (ipcQueueCheckIntegrity_loads _).bind (fun err _ => ?_)
      split
      · trivial
      · exact ih (p + 1)
  unfold ipcCheckMchanIntegrity
  refine (ipcQueueCheckIntegrity_loads _).bind (fun err _ => ?_)
  split
  · exact hpools _ _
  · trivial

/-- A ring of no or of one slot is never pushed into. -/
theorem ipcQueuePush_fails {q : IpcQueue} (hq : q.pushRing = 0 ∨ q.popRing = 0 ∨ q.elemNum < 2)
    (bs : List UInt8) :
    (ipcQueuePush q bs).Always (fun _ _ => True) Op.IsLoad (fun err => err < 0) := by
  unfold ipcQueuePush
  split
  · exact (show -EINVAL < 0 by decide)
  rename_i hrings
  rw [load32_bind]
  refine ⟨trivial, fun (write : ℕ) _ => ?_⟩
  dsimp only
  rw [load32_bind]
  refine ⟨trivial, fun (read : ℕ) _ => ?_⟩
  dsimp only
  split
  · exact (show -EINVAL < 0 by decide)
  rename_i hidx
  -- both indexes are in range, so there is one slot, and both are zero
  obtain ⟨hpush, hpop⟩ := not_or.mp hrings
  obtain ⟨hread, hwrite⟩ := not_or.mp hidx
  have hnum := (hq.resolve_left hpush).resolve_left hpop
  have hone : q.elemNum = 1 := by omega
  obtain rfl : read = 0 := by omega
  rw [hone, remU_of_pos Nat.one_pos]
  change Program.Always _ _ _ (if u32 (write + 1) % 1 = 0 then _ else _)
  rw [if_pos (Nat.mod_one _)]
  exact (show -ENOMEM < 0 by decide)

/-- **A buffer that the channel cannot send** is not sent. -/
theorem ipcShmTx_fails {chanId : ℤ} {buf size : ℕ}
    (hchan : getManagedChan d inst (chanId % 2 ^ 8).toNat = some chan)
    (hno : ¬chan.Sends buf size) :
    (ipcShmTx d inst chanId buf size).Always (fun _ _ => True) Op.IsLoad (fun err => err < 0) := by
  have hinval : -EINVAL < 0 := by decide
  unfold ipcShmTx
  refine (ipcShmIsRemoteReady_used (d := d)).bind (fun ready _ => ?_)
  split
  · exact hinval
  rw [hchan]
  dsimp only
  split
  · exact hinval
  rename_i hbuf
  refine (ipcCheckMchanIntegrity_loads chan).bind (fun err _ => ?_)
  split
  · exact hinval
  split
  · exact hinval
  rename_i hpool
  obtain hf | ⟨q, -, -, hf, hle, hlt⟩ := findPoolFrom_cases chan.pools buf false chan.numPools 0
  · exact absurd hf hpool
  have hpos := bufSize_pos_of_owns hle hlt
  have hring : chan.bdQueue.pushRing = 0 ∨ chan.bdQueue.popRing = 0 ∨ chan.bdQueue.elemNum < 2 := by
    by_contra hring
    obtain ⟨hbuf, hsize⟩ := not_or.mp hbuf
    exact hno ⟨hbuf, hsize, hpool, by tauto, by tauto, by omega⟩
  rw [show (findPoolForBuf chan buf false).toNat = q by
    rw [findPoolForBuf, hf, Int.toNat_natCast], divU_of_pos hpos]
  refine (ipcQueuePush_fails hring _).bind (fun err herr => ?_)
  rw [if_pos (show err ≠ 0 by omega)]
  exact herr

/-! The checks let a call pass if the words they read may be anything. -/

theorem ipcQueueCheckIntegrity_returns {E : (o : Op) → o.Ret → Prop}
    (hE : ∀ n a (v : ℕ), v < 256 ^ n → E (.load n a) v) (q : IpcQueue) :
    (ipcQueueCheckIntegrity q).Returns E 0 :=
  ⟨ipcQueueInitDone, hE _ _ _ (by decide), ipcQueueInitDone, hE _ _ _ (by decide), rfl⟩

theorem ipcCheckMchanIntegrity_returns {E : (o : Op) → o.Ret → Prop}
    (hE : ∀ n a (v : ℕ), v < 256 ^ n → E (.load n a) v) (chan : IpcManagedChannel) :
    (ipcCheckMchanIntegrity chan).Returns E 0 := by
  have hpools : ∀ n p, (checkPoolsIntegrity chan.pools n p).Returns E 0 := by
    intro n
    induction n with
    | zero => exact fun _ => rfl
    | succ n ih => exact fun p => (ipcQueueCheckIntegrity_returns hE _).bind (ih (p + 1))
  exact (ipcQueueCheckIntegrity_returns hE _).bind (hpools _ _)

theorem ipcShmIsRemoteReady_returns {E : (o : Op) → o.Ret → Prop}
    (hE : ∀ n a (v : ℕ), v < 256 ^ n → E (.load n a) v) (hinst : inst < ipcShmMaxInstances)
    (hg : (d.priv inst).global ≠ 0) :
    (ipcShmIsRemoteReady d inst).Returns E 0 := by
  have hused : (ipcInstanceIsFree d inst).Returns E .used := by
    rw [ipcInstanceIsFree, if_neg (Nat.not_le.mpr hinst), if_neg hg]
    exact ⟨ipcShmStateReady, hE _ _ _ (by decide), rfl⟩
  exact hused.bind ⟨ipcShmStateReady, hE _ _ _ (by decide), rfl⟩

/-- **A buffer that the channel can send** is written to its ring, if all
queues are initialized and this one is empty. -/
theorem ipcShmTx_stores {chanId : ℤ} {buf size : ℕ} {Q : ℤ → Prop}
    (hinst : inst < ipcShmMaxInstances) (hg : (d.priv inst).global ≠ 0)
    (hchan : getManagedChan d inst (chanId % 2 ^ 8).toNat = some chan)
    (hsends : chan.Sends buf size) :
    ¬(ipcShmTx d inst chanId buf size).Always (fun _ _ => True) Op.IsLoad Q := by
  obtain ⟨hbuf, hsize, hpool, hpush, hpop, hnum⟩ := hsends
  intro h
  unfold ipcShmTx at h
  replace h := h.after (ipcShmIsRemoteReady_returns (fun _ _ _ _ => trivial) hinst hg)
  rw [if_neg (by decide), hchan] at h
  dsimp only at h
  rw [if_neg (by tauto)] at h
  replace h := h.after (ipcCheckMchanIntegrity_returns (fun _ _ _ _ => trivial) chan)
  rw [if_neg (by decide), if_neg hpool] at h
  obtain hf | ⟨q, -, -, hf, hle, hlt⟩ := findPoolFrom_cases chan.pools buf false chan.numPools 0
  · exact hpool hf
  rw [show (findPoolForBuf chan buf false).toNat = q by
    rw [findPoolForBuf, hf, Int.toNat_natCast], divU_of_pos (bufSize_pos_of_owns hle hlt),
    Program.pure_bind] at h
  replace h := ((Program.always_bind _ _ _).mp h)
  -- the ring is empty at index 0, and has a second slot
  rw [ipcQueuePush, if_neg (by tauto), load32_bind] at h
  replace h := h.2 0 trivial
  dsimp only at h
  rw [load32_bind] at h
  replace h := h.2 0 trivial
  dsimp only at h
  rw [if_neg (by omega), remU_of_pos (by omega), Program.pure_bind] at h
  rw [if_neg (by rw [show u32 (0 + 1) = 1 from rfl, Nat.mod_eq_of_lt hnum]; exact one_ne_zero)] at h
  exact h.1

end Tx

/-! ## The calls that are rejected -/

section Rejected

variable {rx : ℕ → IpcOsRx} {d : Driver} {inst : ℕ} {call : EntryPoint}

/-- **The call is rejected**: it only loads, reports failure and returns the
driver it was given; and it makes the same requests with every driver that
agrees with this one on the instances and channels in range. -/
def EntryPoint.Rejected (rx : ℕ → IpcOsRx) (d : Driver) (inst : ℕ) (call : EntryPoint) : Prop :=
  (call.prog rx d inst).Always (fun _ _ => True) Op.IsLoad
      (fun r => r.1.Failed ∧ r.2 = d) ∧
    ∀ rx' d', d.AgreeInRange d' →
      call.prog rx' d' inst = call.prog rx d inst >>= fun r => .pure (r.1, d')

/-- A call that is a probe and a failure, for all drivers that agree in range,
is rejected. -/
theorem EntryPoint.rejected_of_probe
    (h : ∀ rx' d', d.AgreeInRange d' →
      call.prog rx' d' inst = call.probe d' inst >>= fun _ => .pure (call.failure, d')) :
    call.Rejected rx d inst := by
  have hself := h rx d ⟨fun _ _ => rfl, fun _ _ => rfl, fun _ _ => rfl, fun _ _ _ _ => rfl⟩
  refine ⟨?_, fun rx' d' hd' => ?_⟩
  · rw [hself]
    exact (call.probe_always d inst).bind (fun _ _ => ⟨call.failure_failed, rfl⟩)
  · rw [h rx' d' hd', hself, hd'.probe, Program.bind_assoc']
    rfl

/-- A transmission under a channel's id, of a buffer this channel cannot send,
is rejected. -/
theorem EntryPoint.rejected_tx (hd : d.Configured) (hinst : inst < ipcShmMaxInstances)
    {chan : IpcManagedChannel} {chanId : ℤ} {buf size : ℕ}
    (hchan : getManagedChan d inst (chanId % 2 ^ 8).toNat = some chan)
    (hno : ¬chan.Sends buf size) : (EntryPoint.tx chanId buf size).Rejected rx d inst := by
  refine ⟨(ipcShmTx_fails hchan hno).bind (fun _ herr => ⟨herr, rfl⟩), fun rx' d' h => ?_⟩
  simp only [prog]
  rw [h.transmit hd hinst, Program.bind_assoc']
  rfl

/-- A call that slips through has invalid arguments, and is not rejected. -/
theorem EntryPoint.Slips.not_rejected (h : call.Slips d inst) :
    call.Invalid d inst ∧ ¬call.Rejected rx d inst := by
  cases call with
  | initInstance cfg =>
    obtain ⟨hinst, c, rfl, hl, hr, h1, h8⟩ := h
    refine ⟨Or.inl hinst, fun hrej => ?_⟩
    have hprog := hrej.1
    simp only [prog, ipcShmInitInstance, ipcInstanceIsFree_out hinst, Program.pure_bind] at hprog
    rw [if_neg (by decide), if_neg (by tauto), if_neg (by omega), if_pos hinst] at hprog
    exact hprog.1
  | tx chanId buf size =>
    obtain ⟨hinst, hg, hno, chan, hchan, hsends⟩ := h
    refine ⟨Or.inr ⟨chanId, .managed, rfl, hno⟩, fun hrej => ?_⟩
    exact ipcShmTx_stores hinst hg hchan hsends ((Program.always_bind _ _ _).mp hrej.1)
  | freeInstance => exact h.elim
  | acquireBuf _ _ => exact h.elim
  | releaseBuf _ _ => exact h.elim
  | unmanagedAcquire _ => exact h.elim
  | unmanagedTx _ => exact h.elim
  | isRemoteReady => exact h.elim
  | pollChannels => exact h.elim

end Rejected

/-- **Invalid arguments are rejected, except by the calls that slip through.**
In every state that calls lead to, a call with an instance or channel id out of
range, or with a channel of the wrong kind, is rejected if and only if it is
not one of those. -/
theorem arguments_checked (rx : ℕ → IpcOsRx) (d : Driver) (inst : ℕ) (call : EntryPoint)
    (hd : d.Reached) :
    (call.Invalid d inst → call.Rejected rx d inst) ↔ ¬call.Slips d inst := by
  refine ⟨fun h hslips => ?_, fun hslips hinv => ?_⟩
  · have hno : call.Invalid d inst ∧ ¬call.Rejected rx d inst := hslips.not_rejected
    exact hno.2 (h hno.1)
  by_cases hi : ipcShmMaxInstances ≤ inst
  · refine EntryPoint.rejected_of_probe (fun _ _ _ => EntryPoint.prog_of_out hi ?_)
    -- no transmission slips through here, and an initialization does with any driver
    cases call with
    | initInstance cfg => exact hslips
    | tx chanId buf size => exact fun h => Nat.not_lt.mpr hi h.1
    | _ => exact not_false
  · have hinst := Nat.not_le.mp hi
    obtain ⟨chanId, type, hc, hno⟩ := hinv.resolve_left hi
    obtain hm | ⟨id, buf, size, rfl, hg, hno, hhas⟩ := EntryPoint.misses_of_invalid hc hno
    · exact EntryPoint.rejected_of_probe (fun _ _ h =>
        EntryPoint.prog_of_misses (hm.agree h hd.configured hinst))
    · have hchan := getManagedChan_of_has hhas
      exact EntryPoint.rejected_tx hd.configured hinst hchan
        (fun hsends => hslips ⟨hinst, hg, hno, _, hchan, hsends⟩)

/-- An instance in use with messages waiting. A call for unmanaged channels on
the managed channel 0 is rejected, and so are transmissions on channel 300, and
on channel 256 of a buffer of no pool. A transmission on channel 256 of the
first buffer of channel 0 is not. -/
theorem arguments_checked_waitingThree : ∃ d shm, waitingThree sampleCfg = some (d, shm) ∧
    (EntryPoint.unmanagedTx 0).Rejected (fun _ => ⟨0, true⟩) d 0 ∧
    (EntryPoint.tx 300 0x8060 16).Rejected (fun _ => ⟨0, true⟩) d 0 ∧
    (EntryPoint.tx 256 0x1000 16).Rejected (fun _ => ⟨0, true⟩) d 0 ∧
    ¬(EntryPoint.tx 256 0x8060 16).Rejected (fun _ => ⟨0, true⟩) d 0 := by
  have hrun : ((waitingThree sampleCfg).map fun r =>
      (decide ((r.1.priv 0).global = 0), (r.1.priv 0).numChannels,
        decide (((r.1.priv 0).channels 0).type = .managed),
        decide (findPoolForBuf ((r.1.priv 0).channels 0).mng 0x1000 false = -EINVAL),
        decide (((r.1.priv 0).channels 0).mng.Sends 0x8060 16)))
      = some (false, 2, true, true, true) := by
    decide +kernel
  obtain ⟨⟨d, shm⟩, hwait, hval⟩ := Option.map_eq_some_iff.mp hrun
  simp only [Prod.mk.injEq, decide_eq_true_eq, decide_eq_false_iff_not] at hval
  obtain ⟨hg, hnum, htype, hfound, hsends⟩ := hval
  have hd := waitingThree_reached hwait
  have hhas : d.HasChannel 0 (0 : ℕ) .managed := ⟨le_rfl, by rw [hnum]; decide, htype⟩
  have hout : ∀ chanId : ℤ, 2 ≤ chanId → ¬d.HasChannel 0 chanId .managed :=
    fun chanId hle h => by have := h.2.1; omega
  refine ⟨d, shm, hwait, ?_, ?_, ?_, fun hrej => ?_⟩
  · refine (arguments_checked _ d 0 _ hd).mpr not_false
      (Or.inr ⟨_, _, rfl, fun h => ?_⟩)
    exact nomatch htype.symm.trans h.2.2
  · refine (arguments_checked _ d 0 _ hd).mpr (fun h => ?_)
      (Or.inr ⟨_, _, rfl, hout 300 (by decide)⟩)
    obtain ⟨-, -, -, chan, hchan, -⟩ := h
    exact nomatch (getManagedChan_none (c := 44) (hout 44 (by decide))).symm.trans hchan
  · refine (arguments_checked _ d 0 _ hd).mpr (fun h => ?_)
      (Or.inr ⟨_, _, rfl, hout 256 (by decide)⟩)
    obtain ⟨-, -, -, chan, hchan, -, -, hpool, -⟩ := h
    obtain rfl := Option.some.inj ((getManagedChan_of_has hhas).symm.trans hchan)
    exact hpool hfound
  · refine (arguments_checked _ d 0 _ hd).mp (fun _ => hrej) ?_
    exact ⟨by decide, hg, hout 256 (by decide), _, getManagedChan_of_has hhas, hsends⟩

/-- **Unchecked arguments.** With an acceptable configuration, instance 4 leads
to a write behind the array of private data. A transmission on channel 256 of
an instance with two channels succeeds: it goes to channel 0. -/
theorem arguments_unchecked :
    (∃ k, ipcShmInitInstance {} 4 (some sampleCfg) = .op .undefinedBehaviour k) ∧
    (((ipcShmInitInstance {} 0 (some sampleCfg)).run (memHandle (twoWindows .b) .b)
        (fun _ _ => 0)).bind fun b =>
      ((ipcShmInitInstance {} 0 (some sampleCfg)).run (memHandle (twoWindows .a) .a) b.2).bind
        fun a =>
      ((ipcShmAcquireBuf a.1.2 0 0 16).run (memHandle (twoWindows .a) .a) a.2).bind fun buf =>
      ((ipcShmTx a.1.2 0 256 buf.1 16).run (memHandle (twoWindows .a) .a) buf.2).map fun tx =>
        ((a.1.2.priv 0).numChannels, tx.1)) = some (2, 0) :=
  ⟨⟨_, rfl⟩, by decide +kernel⟩
