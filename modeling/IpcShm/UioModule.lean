import Mathlib.Data.List.Nodup
import IpcShm.Types

/-!
# The UIO kernel module

For a driver in user space the interrupts stay in the kernel: the module
`ipc-shm-uio` registers one UIO device per instance and takes requests through
a character device. Which instances are registered is kept in `irq_num_init`,
an interrupt number or `IPC_IRQ_NONE` for each, and in a state that is set by a
registration and not reset by anything but the removal of the module.

Initialization writes `irq_num_init` before it registers the device, and does
not take it back when the registration fails. From then on the instance counts
as registered: the same request is refused, because the search for duplicates
finds the entry of the instance itself. It does not look at the entry it
overwrites either, so an instance that is asked to change its interrupt is
registered a second time. As long as neither happens, the table says exactly
what is registered (`uio_registrations`).

What the kernel answers – `ipc_hw_init`, `platform_get_irq`,
`uio_register_device` – is given with each request, and any answer may come.
-/

/-- What user space sends along with a request. -/
structure IpcUioCdevData where
  inst : ℕ
  cfg : IpcShmCfg

/-- The requests of the character device. A request that copies its argument
from user space may fail to. -/
inductive IpcIoc where
  | init (data : Option IpcUioCdevData)
  | free (data : Option IpcUioCdevData)
  | mmapLocal (physAddr : ℕ)
  | mmapRemote (physAddr : ℕ)
  | other

/-- The command of a request, as the device remembers it. -/
inductive IpcIocCmd where
  | init
  | free
  | mmapLocal
  | mmapRemote
  | other
  deriving DecidableEq, Repr

def IpcIoc.cmd : IpcIoc → IpcIocCmd
  | .init _ => .init
  | .free _ => .free
  | .mmapLocal _ => .mmapLocal
  | .mmapRemote _ => .mmapRemote
  | .other => .other

/-- What the kernel answers in the course of a request. -/
structure UioReplies where
  ipcHwInit : ℤ := 0
  platformGetIrq : ℤ
  uioRegisterDevice : ℤ := 0

/-- The data of the module, and the UIO devices the kernel has registered for
it: for which instance, and with which interrupt. -/
structure UioModule where
  irqNumInit : ℕ → ℤ
  state : ℕ → IpcOsState
  cmd : IpcIocCmd
  physAddr : ℕ
  devices : List (ℕ × ℤ)

namespace UioModule

/-- The module once its platform device is probed. -/
def probed : UioModule where
  irqNumInit := fun _ => ipcIrqNone
  state := fun _ => .disabled
  cmd := .other
  physAddr := 0
  devices := []

variable (m : UioModule)

/-- `uio_register_device`, when it succeeds. -/
def uioRegisterDevice (inst : ℕ) (irq : ℤ) : UioModule :=
  { m with devices := (inst, irq) :: m.devices }

/-- `uio_unregister_device`. -/
def uioUnregisterDevice (inst : ℕ) : UioModule :=
  { m with devices := m.devices.eraseP (fun d => d.1 = inst) }

/-- The search for an instance that has the interrupt already. -/
def duplicateIrq (irq : ℤ) : Bool :=
  (List.range ipcShmMaxInstances).any (fun i => irq = m.irqNumInit i)

/-- Initializes the HW of an instance and registers its UIO device. -/
def ipcUioInit (r : UioReplies) (data : IpcUioCdevData) : ℤ × UioModule :=
  if r.ipcHwInit ≠ 0 then
    (r.ipcHwInit, m)
  else if data.cfg.interCoreRxIrq = ipcIrqNone then
    (0, m)
  else if r.platformGetIrq < 0 then
    (r.platformGetIrq, m)
  else if m.duplicateIrq r.platformGetIrq then
    (-EFAULT, m)
  else
    let m := { m with irqNumInit := Function.update m.irqNumInit data.inst r.platformGetIrq }
    if r.uioRegisterDevice ≠ 0 then
      (r.uioRegisterDevice, m)
    else
      let m := m.uioRegisterDevice data.inst (m.irqNumInit data.inst)
      (0, { m with state := Function.update m.state data.inst .enabled })

variable {m} in
/-- Whether an instance can be registered depends on the table only. -/
theorem ipcUioInit_congr (m' : UioModule) (h : m'.irqNumInit = m.irqNumInit) (r : UioReplies)
    (data : IpcUioCdevData) : (m'.ipcUioInit r data).1 = (m.ipcUioInit r data).1 := by
  unfold ipcUioInit duplicateIrq
  rw [h]
  split_ifs <;> rfl

/-- Unregisters the UIO device of an instance. -/
def ipcUioFree (data : IpcUioCdevData) : ℤ × UioModule :=
  if data.inst < ipcShmMaxInstances ∧ m.state data.inst = .enabled
      ∧ m.irqNumInit data.inst ≠ ipcIrqNone then
    let m := m.uioUnregisterDevice data.inst
    (0, { m with irqNumInit := Function.update m.irqNumInit data.inst ipcIrqNone })
  else
    (-EINVAL, m)

/-- Responds to a request from user space. -/
def ipcCdevIoctl (r : UioReplies) (req : IpcIoc) : ℤ × UioModule :=
  let m := { m with cmd := req.cmd }
  match req with
  | .init none => (-EFAULT, m)
  | .init (some data) =>
    if ipcShmMaxInstances ≤ data.inst then (-EINVAL, m) else m.ipcUioInit r data
  | .free none => (-EFAULT, m)
  | .free (some data) =>
    if ipcShmMaxInstances ≤ data.inst then (-EINVAL, m) else m.ipcUioFree data
  | .mmapLocal physAddr => (0, { m with physAddr := physAddr })
  | .mmapRemote physAddr => (0, { m with physAddr := physAddr })
  | .other => (-EINVAL, m)

/-- The loop of `ipc_shm_uio_remove` over the instances. -/
def removeFrom : ℕ → ℕ → UioModule → UioModule
  | 0, _, m => m
  | n + 1, i, m =>
    if m.state i = .enabled then
      let m := { m with state := Function.update m.state i .disabled }
      if m.irqNumInit i = ipcIrqNone then removeFrom n (i + 1) m
      else removeFrom n (i + 1) (m.uioUnregisterDevice i)
    else removeFrom n (i + 1) m

/-- Removes the module: unregisters what is registered. -/
def ipcShmUioRemove : UioModule := removeFrom ipcShmMaxInstances 0 m

/-! ## What is registered -/

/-- The number of UIO devices registered for an instance. -/
def registrations (inst : ℕ) : ℕ := m.devices.countP (fun d => d.1 = inst)

/-- **The table says what is registered.** -/
structure Registered : Prop where
  /-- An instance has an interrupt exactly when it has one device. -/
  irq_iff : ∀ i, i < ipcShmMaxInstances →
    (m.irqNumInit i ≠ ipcIrqNone ↔ m.registrations i = 1)
  /-- No instance has two. -/
  once : ∀ i, m.registrations i ≤ 1
  /-- No two devices share an interrupt. -/
  irq_inj : ∀ d ∈ m.devices, ∀ d' ∈ m.devices, d.2 = d'.2 → d.1 = d'.1

/-- The entries of the table are those of the devices: each device has the
interrupt its instance is entered with, no two instances are entered with the
same, and a device is there for every entry. -/
structure Inv : Prop where
  entered : ∀ d ∈ m.devices, d.1 < ipcShmMaxInstances ∧ m.irqNumInit d.1 = d.2 ∧
    d.2 ≠ ipcIrqNone ∧ m.state d.1 = .enabled
  nodup : (m.devices.map Prod.fst).Nodup
  device : ∀ i, i < ipcShmMaxInstances → m.irqNumInit i ≠ ipcIrqNone →
    i ∈ m.devices.map Prod.fst
  inj : ∀ i j, i < ipcShmMaxInstances → j < ipcShmMaxInstances →
    m.irqNumInit i ≠ ipcIrqNone → m.irqNumInit i = m.irqNumInit j → i = j

theorem probed_inv : probed.Inv where
  entered := fun _ hd => absurd hd List.not_mem_nil
  nodup := List.nodup_nil
  device := fun _ _ h => absurd rfl h
  inj := fun _ _ _ _ h => absurd rfl h

variable {m}

theorem registrations_eq (m : UioModule) (i : ℕ) :
    m.registrations i = (m.devices.map Prod.fst).count i := by
  rw [registrations, List.count, List.countP_map]
  exact List.countP_congr (fun d _ => by simp)

theorem Inv.registered (h : m.Inv) : m.Registered where
  irq_iff := by
    intro i hi
    rw [registrations_eq]
    constructor
    · intro hne
      exact List.count_eq_one_of_mem h.nodup (h.device i hi hne)
    · intro hone
      obtain ⟨d, hd, rfl⟩ :=
        List.mem_map.mp (List.count_pos_iff.mp (by rw [hone]; exact Nat.one_pos))
      obtain ⟨-, heq, hne, -⟩ := h.entered d hd
      rwa [heq]
  once := by
    intro i
    rw [registrations_eq]
    exact List.nodup_iff_count_le_one.mp h.nodup i
  irq_inj := by
    intro d hd d' hd' heq
    obtain ⟨hlt, hirq, hne, -⟩ := h.entered d hd
    obtain ⟨hlt', hirq', -, -⟩ := h.entered d' hd'
    refine h.inj d.1 d'.1 hlt hlt' (hirq.symm ▸ hne) ?_
    rw [hirq, hirq', heq]

/-- Only the tables and the devices matter. -/
theorem Inv.congr {m' : UioModule} (h : m.Inv) (hirq : m'.irqNumInit = m.irqNumInit)
    (hstate : m'.state = m.state) (hdev : m'.devices = m.devices) : m'.Inv where
  entered := by
    rw [hirq, hstate, hdev]
    exact h.entered
  nodup := by
    rw [hdev]
    exact h.nodup
  device := by
    rw [hirq, hdev]
    exact h.device
  inj := by
    rw [hirq]
    exact h.inj

/-! ## Requests -/

/-- The request gets as far as the entry in the table. -/
def Enters (m : UioModule) (r : UioReplies) (data : IpcUioCdevData) : Prop :=
  r.ipcHwInit = 0 ∧ data.cfg.interCoreRxIrq ≠ ipcIrqNone ∧ 0 ≤ r.platformGetIrq ∧
    m.duplicateIrq r.platformGetIrq = false

instance (m : UioModule) (r : UioReplies) (data : IpcUioCdevData) :
    Decidable (m.Enters r data) := inferInstanceAs (Decidable (_ ∧ _))

/-- The module with an instance entered and its device registered. -/
def registering (m : UioModule) (inst : ℕ) (irq : ℤ) : UioModule :=
  { m with irqNumInit := Function.update m.irqNumInit inst irq,
           state := Function.update m.state inst .enabled,
           devices := (inst, irq) :: m.devices }

theorem ipcUioInit_of_not_enters {r : UioReplies} {data : IpcUioCdevData}
    (h : ¬m.Enters r data) : (m.ipcUioInit r data).2 = m := by
  unfold ipcUioInit
  split
  · rfl
  split
  · rfl
  split
  · rfl
  split
  · rfl
  · rename_i hhw hrx hirq hdup
    exact absurd ⟨not_not.mp hhw, hrx, Int.not_lt.mp hirq, Bool.eq_false_iff.mpr hdup⟩ h

theorem ipcUioInit_of_enters {r : UioReplies} {data : IpcUioCdevData} (h : m.Enters r data)
    (hreg : r.uioRegisterDevice = 0) :
    m.ipcUioInit r data = (0, m.registering data.inst r.platformGetIrq) := by
  obtain ⟨hhw, hrx, hirq, hdup⟩ := h
  rw [ipcUioInit, if_neg (not_not.mpr hhw), if_neg hrx, if_neg (Int.not_lt.mpr hirq), hdup,
    if_neg Bool.false_ne_true]
  dsimp only
  rw [if_neg (not_not.mpr hreg), Function.update_self]
  rfl

/-- **What a request relies on and does not check**: the entry it writes is not
in use, and the registration that follows succeeds. -/
def Careful (m : UioModule) (a : UioReplies × IpcIoc) : Prop :=
  match a.2 with
  | .init (some data) => data.inst < ipcShmMaxInstances → m.Enters a.1 data →
      m.irqNumInit data.inst = ipcIrqNone ∧ a.1.uioRegisterDevice = 0
  | _ => True

instance (m : UioModule) (a : UioReplies × IpcIoc) : Decidable (m.Careful a) := by
  unfold Careful
  split <;> infer_instance

theorem ne_of_duplicateIrq {irq : ℤ} (h : m.duplicateIrq irq = false) {i : ℕ}
    (hi : i < ipcShmMaxInstances) : m.irqNumInit i ≠ irq := by
  intro heq
  refine Bool.false_ne_true (h.symm.trans ?_)
  exact List.any_eq_true.mpr ⟨i, List.mem_range.mpr hi, decide_eq_true heq.symm⟩

/-- **Registering keeps the table in step.** -/
theorem Inv.registering (h : m.Inv) {inst : ℕ} {irq : ℤ} (hi : inst < ipcShmMaxInstances)
    (hnone : m.irqNumInit inst = ipcIrqNone) (hirq : 0 ≤ irq)
    (hdup : m.duplicateIrq irq = false) : (m.registering inst irq).Inv := by
  have hne : irq ≠ ipcIrqNone := by
    rintro rfl
    exact absurd hirq (by decide)
  have hfresh : inst ∉ m.devices.map Prod.fst := by
    intro hmem
    obtain ⟨d, hd, rfl⟩ := List.mem_map.mp hmem
    obtain ⟨-, heq, hd2, -⟩ := h.entered d hd
    exact hd2 (heq.symm.trans hnone)
  have hother : ∀ j, j ≠ inst → (m.registering inst irq).irqNumInit j = m.irqNumInit j :=
    fun j hj => Function.update_of_ne hj _ _
  have hself : (m.registering inst irq).irqNumInit inst = irq := Function.update_self _ _ _
  refine ⟨?_, List.nodup_cons.mpr ⟨hfresh, h.nodup⟩, ?_, ?_⟩
  · intro d hd
    rcases List.mem_cons.mp hd with rfl | hd
    · exact ⟨hi, hself, hne, Function.update_self _ _ _⟩
    · obtain ⟨hlt, heq, hd2, hst⟩ := h.entered d hd
      have hdi : d.1 ≠ inst := fun he => hfresh (he ▸ List.mem_map_of_mem hd)
      exact ⟨hlt, (hother _ hdi).trans heq, hd2, (Function.update_of_ne hdi _ _).trans hst⟩
  · intro j hj hjne
    by_cases hji : j = inst
    · exact hji ▸ List.mem_cons_self
    · rw [hother j hji] at hjne
      exact List.mem_cons_of_mem _ (h.device j hj hjne)
  · intro j k hj hk hjne hjk
    by_cases hji : j = inst
    · by_cases hki : k = inst
      · rw [hji, hki]
      · rw [hji, hself, hother k hki] at hjk
        exact absurd hjk.symm (ne_of_duplicateIrq hdup hk)
    · rw [hother j hji] at hjne hjk
      by_cases hki : k = inst
      · rw [hki, hself] at hjk
        exact absurd hjk (ne_of_duplicateIrq hdup hj)
      · rw [hother k hki] at hjk
        exact h.inj j k hj hk hjne hjk

theorem Inv.ipcUioInit (h : m.Inv) {r : UioReplies} {data : IpcUioCdevData}
    (hi : data.inst < ipcShmMaxInstances)
    (hc : m.Enters r data → m.irqNumInit data.inst = ipcIrqNone ∧ r.uioRegisterDevice = 0) :
    (m.ipcUioInit r data).2.Inv ∧
      ((m.ipcUioInit r data).1 ≠ 0 → (m.ipcUioInit r data).2.irqNumInit = m.irqNumInit) := by
  by_cases he : m.Enters r data
  · obtain ⟨hnone, hreg⟩ := hc he
    rw [ipcUioInit_of_enters he hreg]
    exact ⟨h.registering hi hnone he.2.2.1 he.2.2.2, fun hne => absurd rfl hne⟩
  · rw [ipcUioInit_of_not_enters he]
    exact ⟨h, fun _ => rfl⟩

/-- The devices of the others. -/
theorem map_fst_unregister (m : UioModule) (inst : ℕ) :
    (m.uioUnregisterDevice inst).devices.map Prod.fst = (m.devices.map Prod.fst).erase inst := by
  rw [List.erase_eq_eraseP', List.eraseP_map]
  show (m.devices.eraseP _).map Prod.fst = _
  congr 2

/-- **Unregistering keeps the table in step.** -/
theorem Inv.ipcUioFree (h : m.Inv) (data : IpcUioCdevData) : (m.ipcUioFree data).2.Inv := by
  unfold UioModule.ipcUioFree
  split
  swap
  · exact h
  set i := data.inst
  have hmem : ∀ j, j ∈ (m.uioUnregisterDevice i).devices.map Prod.fst ↔
      j ≠ i ∧ j ∈ m.devices.map Prod.fst := by
    intro j
    rw [map_fst_unregister]
    exact h.nodup.mem_erase_iff
  have hupd : ∀ j, j ≠ i → Function.update m.irqNumInit i ipcIrqNone j = m.irqNumInit j :=
    fun j hj => Function.update_of_ne hj _ _
  refine ⟨?_, ?_, ?_, ?_⟩
  · intro d hd
    have hdi : d.1 ≠ i := ((hmem d.1).mp (List.mem_map_of_mem hd)).1
    obtain ⟨hlt, heq, hd2, hst⟩ := h.entered d (List.mem_of_mem_eraseP hd)
    exact ⟨hlt, (hupd _ hdi).trans heq, hd2, hst⟩
  · show ((m.uioUnregisterDevice i).devices.map Prod.fst).Nodup
    rw [map_fst_unregister]
    exact h.nodup.erase i
  · intro j hj hjne
    have hji : j ≠ i := by
      rintro rfl
      exact hjne (Function.update_self _ _ _)
    have hjne' : m.irqNumInit j ≠ ipcIrqNone := fun he => hjne ((hupd j hji).trans he)
    exact (hmem j).mpr ⟨hji, h.device j hj hjne'⟩
  · intro j k hj hk hjne hjk
    have hji : j ≠ i := by
      rintro rfl
      exact hjne (Function.update_self _ _ _)
    have hjne' : m.irqNumInit j ≠ ipcIrqNone := fun he => hjne ((hupd j hji).trans he)
    have hki : k ≠ i := by
      rintro rfl
      exact hjne (hjk.trans (Function.update_self _ _ _))
    have hjk' : m.irqNumInit j = m.irqNumInit k := by
      rw [← hupd j hji, ← hupd k hki]
      exact hjk
    exact h.inj j k hj hk hjne' hjk'

/-- One request, with the answers of the kernel. -/
def step (m : UioModule) (a : UioReplies × IpcIoc) : Option UioModule :=
  some (m.ipcCdevIoctl a.1 a.2).2

/-- **A careful request keeps the table in step**, and if it is an initialization
that fails, leaves it as it was. -/
theorem Inv.ioctl (h : m.Inv) {r : UioReplies} {req : IpcIoc} (hc : m.Careful (r, req)) :
    (m.ipcCdevIoctl r req).2.Inv ∧
      ∀ data, req = .init data → (m.ipcCdevIoctl r req).1 ≠ 0 →
        (m.ipcCdevIoctl r req).2.irqNumInit = m.irqNumInit := by
  have hcmd : { m with cmd := req.cmd }.Inv := h.congr rfl rfl rfl
  cases req with
  | init data =>
    cases data with
    | none => exact ⟨hcmd, fun _ _ _ => rfl⟩
    | some data =>
      unfold ipcCdevIoctl
      dsimp only
      split
      · exact ⟨hcmd, fun _ _ _ => rfl⟩
      rename_i hi
      rw [Nat.not_le] at hi
      obtain ⟨hinv, hsame⟩ := hcmd.ipcUioInit hi (hc hi)
      exact ⟨hinv, fun _ _ hne => hsame hne⟩
  | free data =>
    refine ⟨?_, fun _ hreq => nomatch hreq⟩
    cases data with
    | none => exact hcmd
    | some data =>
      unfold ipcCdevIoctl
      dsimp only
      split
      · exact hcmd
      · exact hcmd.ipcUioFree data
  | mmapLocal physAddr => exact ⟨h.congr rfl rfl rfl, fun _ hreq => nomatch hreq⟩
  | mmapRemote physAddr => exact ⟨h.congr rfl rfl rfl, fun _ hreq => nomatch hreq⟩
  | other => exact ⟨hcmd, fun _ hreq => nomatch hreq⟩

/-- **The registrations of the module.** In every run of careful requests, after
every request, the table says what is registered; and one more initialization
that fails leaves it as it is. -/
theorem uio_registrations {m : UioModule}
    (hr : Steps.Reach (Steps.guarded Careful step) probed m) :
    m.Registered ∧ ∀ r data, m.Careful (r, .init data) →
      (m.ipcCdevIoctl r (.init data)).1 ≠ 0 →
      (m.ipcCdevIoctl r (.init data)).2.irqNumInit = m.irqNumInit := by
  have hinv : m.Inv := by
    refine hr.invariant_guarded probed_inv (fun u a v hu hc hs => ?_)
    obtain rfl := Option.some.inj hs
    exact (hu.ioctl hc).1
  exact ⟨hinv.registered, fun r data hc => (hinv.ioctl hc).2 data rfl⟩

/-- A request of an instance for the interrupts 1 and 0. -/
def initData (inst : ℕ) : IpcUioCdevData where
  inst := inst
  cfg := { localShmAddr := 0x1000, remoteShmAddr := 0x2000, shmSize := 0x1000,
           interCoreTxIrq := 1, interCoreRxIrq := 0, numChannels := 1, channels := none }

/-- Two instances are registered, and the first is freed and registered again
with another interrupt. -/
def registerTwice : List (UioReplies × IpcIoc) :=
  [({ platformGetIrq := 33 }, .init (some (initData 0))),
   ({ platformGetIrq := 34 }, .init (some (initData 1))),
   ({ platformGetIrq := 0 }, .free (some (initData 0))),
   ({ platformGetIrq := 35 }, .init (some (initData 0)))]

theorem uio_registrations_twice : ∃ m,
    Steps.Reach (Steps.guarded Careful step) probed m ∧ m.devices = [(0, 35), (1, 34)] ∧
      m.Registered := by
  have hrun : (Steps.runActs (Steps.guarded Careful step) registerTwice probed).map
      (fun m => m.devices) = some [(0, 35), (1, 34)] := by
    decide +kernel
  obtain ⟨m, hm, hdev⟩ := Option.map_eq_some_iff.mp hrun
  have hreach := Steps.reach_of_runActs hm
  exact ⟨m, hreach, hdev, (uio_registrations hreach).1⟩

/-- **A registration that fails stays entered**: the table shows an interrupt
for an instance without a device, and the same request is refused. And an
instance that is asked for another interrupt is registered twice. -/
theorem uio_registrations_fail :
    (∃ m, Steps.Reach step probed m ∧ m.irqNumInit 0 = 33 ∧ m.registrations 0 = 0 ∧
      (m.ipcCdevIoctl { platformGetIrq := 33 } (.init (some (initData 0)))).1 = -EFAULT) ∧
    ∃ m, Steps.Reach step probed m ∧ m.registrations 0 = 2 := by
  have hfail : (Steps.runActs step
      [({ platformGetIrq := 33, uioRegisterDevice := -EINVAL }, .init (some (initData 0)))]
      probed).map (fun m => (m.irqNumInit 0, m.registrations 0,
        (m.ipcCdevIoctl { platformGetIrq := 33 } (.init (some (initData 0)))).1))
      = some (33, 0, -EFAULT) := by
    decide +kernel
  have htwice : (Steps.runActs step
      [({ platformGetIrq := 33 }, .init (some (initData 0))),
       ({ platformGetIrq := 34 }, .init (some (initData 0)))] probed).map
      (fun m => m.registrations 0) = some 2 := by
    decide +kernel
  obtain ⟨m, hm, hval⟩ := Option.map_eq_some_iff.mp hfail
  simp only [Prod.mk.injEq] at hval
  obtain ⟨hirq, hreg, hretry⟩ := hval
  obtain ⟨m', hm', htwo⟩ := Option.map_eq_some_iff.mp htwice
  exact ⟨⟨m, Steps.reach_of_runActs hm, hirq, hreg, hretry⟩,
    m', Steps.reach_of_runActs hm', htwo⟩

/-! ## Removal of the module -/

/-- The instances still to be looked at are in step with their devices. -/
def Pending (m : UioModule) (i : ℕ) : Prop :=
  (m.devices.map Prod.fst).Nodup ∧ ∀ d ∈ m.devices, i ≤ d.1 ∧ d.1 < ipcShmMaxInstances ∧
    m.irqNumInit d.1 ≠ ipcIrqNone ∧ m.state d.1 = .enabled

theorem Pending.next {i : ℕ} (h : m.Pending i)
    (hi : ∀ d ∈ m.devices, d.1 ≠ i) : m.Pending (i + 1) :=
  ⟨h.1, fun d hd => by
    obtain ⟨hle, hrest⟩ := h.2 d hd
    have := hi d hd
    exact ⟨by omega, hrest⟩⟩

theorem Pending.removeFrom {n i : ℕ} (h : m.Pending i) (hn : i + n = ipcShmMaxInstances) :
    (UioModule.removeFrom n i m).devices = [] := by
  induction n generalizing i m with
  | zero =>
    refine List.eq_nil_iff_forall_not_mem.mpr (fun d hd => ?_)
    obtain ⟨hle, hlt, -, -⟩ := h.2 d hd
    omega
  | succ n ih =>
    unfold UioModule.removeFrom
    have hn' : i + 1 + n = ipcShmMaxInstances := by omega
    have hstate : ∀ j, j ≠ i → Function.update m.state i .disabled j = m.state j :=
      fun j hj => Function.update_of_ne hj _ _
    split
    · dsimp only
      split
      · -- enabled, and freed since
        rename_i hnone
        have hi : ∀ d ∈ m.devices, d.1 ≠ i := by
          rintro d hd rfl
          exact (h.2 d hd).2.2.1 hnone
        refine ih ⟨h.1, fun d hd => ?_⟩ hn'
        obtain ⟨hle, hlt, hirq, hst⟩ := (h.next hi).2 d hd
        exact ⟨hle, hlt, hirq, (hstate d.1 (hi d hd)).trans hst⟩
      · refine ih ⟨?_, fun d hd => ?_⟩ hn'
        · rw [map_fst_unregister]
          exact h.1.erase i
        · have hdi : d.1 ≠ i := by
            have hmem := List.mem_map_of_mem (f := Prod.fst) hd
            rw [map_fst_unregister] at hmem
            exact (h.1.mem_erase_iff.mp hmem).1
          obtain ⟨hle, hlt, hirq, hst⟩ := h.2 d (List.mem_of_mem_eraseP hd)
          exact ⟨by omega, hlt, hirq, (hstate d.1 hdi).trans hst⟩
    · rename_i hdis
      refine ih (h.next ?_) hn'
      rintro d hd rfl
      exact hdis (h.2 d hd).2.2.2

/-- **Removing the module leaves no device registered**, if its table is in
step. -/
theorem Inv.ipcShmUioRemove (h : m.Inv) : m.ipcShmUioRemove.devices = [] := by
  refine Pending.removeFrom (n := ipcShmMaxInstances) (i := 0) ⟨h.nodup, fun d hd => ?_⟩
    (Nat.zero_add _)
  obtain ⟨hlt, heq, hne, hst⟩ := h.entered d hd
  exact ⟨Nat.zero_le _, hlt, heq.symm ▸ hne, hst⟩

end UioModule
