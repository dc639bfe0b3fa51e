import IpcShm.Types

/-!
# The OS layer in the kernel

In the kernel the driver takes what it needs from the system directly: the two
physical regions of an instance are reserved and mapped, and the handler of its
receive interrupt is registered. One handler serves all instances, with one
registration per interrupt number, so `ipc_os_init` registers a number only if
no other instance carries it, and `ipc_os_free` gives it up under the same
condition. What an instance carries is compared whatever its state is.

The system is a ledger of what the driver has taken from it. The outcome of
every call to it is given with the call of the layer it is made in. An address
`ioremap` hands out is one that is not in use; an outcome that says otherwise
counts as a refusal. An error is an `int` until `ipc_os_init` returns it, and an
`int8_t` then: a `request_irq` that fails with a multiple of 256 is reported as a
success.
-/

/-- An `int` that was given an unsigned word of 32 bits. -/
def asInt (n : ℕ) : ℤ := if n < 2 ^ 31 then n else n - 2 ^ 32

/-- An `int` returned as an `int8_t`. -/
def asInt8 (z : ℤ) : ℤ := z.bmod (2 ^ 8)

/-- An `int` passed as a `resource_size_t`. -/
def asResourceSize (z : ℤ) : ℕ := (z % 2 ^ 64).toNat

theorem asResourceSize_asInt {n : ℕ} (h : n < 2 ^ 31) : asResourceSize (asInt n) = n := by
  rw [asInt, if_pos h, asResourceSize]
  omega

/-- Beyond, the sign is extended. -/
theorem asResourceSize_asInt_ne {n : ℕ} (h : 2 ^ 31 ≤ n) (hn : n < 2 ^ 32) :
    asResourceSize (asInt n) ≠ n := by
  rw [asInt, if_neg (by omega), asResourceSize]
  omega

/-- What the system keeps for the driver: reserved regions with their length,
virtual addresses of live mappings, and interrupt numbers the handler is
registered for. -/
structure KernelLedger where
  regions : List (ℕ × ℕ) := []
  mappings : List ℕ := []
  irqs : List ℤ := []
  deriving DecidableEq, Repr

/-- OS specific private data of an instance. -/
structure KernelInstance where
  /-- An `int`, unlike the size it is given. -/
  shmSize : ℤ := 0
  localPhysShm : ℕ := 0
  remotePhysShm : ℕ := 0
  localVirtShm : ℕ := 0
  remoteVirtShm : ℕ := 0
  irqNum : ℤ := 0
  state : IpcOsState := .disabled
  deriving DecidableEq, Repr

/-- The private data of the layer, the ledger of the system, and the interrupts
`free_irq` was called for that were not registered. -/
structure KernelOs where
  id : ℕ → KernelInstance := fun _ => {}
  ledger : KernelLedger := {}
  strayFrees : List ℤ := []

/-- The outcomes of the calls to the system in `ipc_os_init`. An address of zero
is `NULL`. -/
structure KernelInitReplies where
  requestLocal : Bool := true
  ioremapLocal : ℕ
  requestRemote : Bool := true
  ioremapRemote : ℕ
  ofFindCompatibleNode : Bool := true
  ofIrqGet : ℤ
  /-- Zero, or an error number: any other `int`. -/
  requestIrq : ℤ := 0

namespace KernelOs

variable (w : KernelOs)

/-! ## Calls to the system -/

/-- A region is reserved. -/
def reserve (addr size : ℕ) : KernelOs :=
  { w with ledger := { w.ledger with regions := (addr, size) :: w.ledger.regions } }

def requestMemRegion (reply : Bool) (addr size : ℕ) : Bool × KernelOs :=
  if reply then (true, w.reserve addr size) else (false, w)

def releaseMemRegion (addr size : ℕ) : KernelOs :=
  { w with ledger := { w.ledger with regions := w.ledger.regions.erase (addr, size) } }

/-- A mapping is live. -/
def remap (virt : ℕ) : KernelOs :=
  { w with ledger := { w.ledger with mappings := virt :: w.ledger.mappings } }

/-- An address `ioremap` can hand out. -/
def Unused (virt : ℕ) : Prop := virt ≠ 0 ∧ virt ∉ w.ledger.mappings

instance (virt : ℕ) : Decidable (w.Unused virt) := inferInstanceAs (Decidable (_ ∧ _))

/-- `ioremap`: the virtual address, or zero. -/
def ioremap (reply : ℕ) : ℕ × KernelOs :=
  if w.Unused reply then (reply, w.remap reply) else (0, w)

def iounmap (addr : ℕ) : KernelOs :=
  { w with ledger := { w.ledger with mappings := w.ledger.mappings.erase addr } }

def requestIrq (reply irq : ℤ) : ℤ × KernelOs :=
  if reply = 0 then
    (0, { w with ledger := { w.ledger with irqs := irq :: w.ledger.irqs } })
  else (reply, w)

def freeIrq (irq : ℤ) : KernelOs :=
  { w with
    ledger := { w.ledger with irqs := w.ledger.irqs.erase irq }
    strayFrees := if irq ∈ w.ledger.irqs then w.strayFrees else irq :: w.strayFrees }

/-! ## The layer -/

/-- The data of one instance changed. -/
def setId (inst : ℕ) (p : KernelInstance) : KernelOs :=
  { w with id := Function.update w.id inst p }

/-- An instance carries an interrupt number. -/
def setIrqNum (inst : ℕ) (irq : ℤ) : KernelOs := w.setId inst { w.id inst with irqNum := irq }

/-- An instance is enabled. -/
def enable (inst : ℕ) : KernelOs := w.setId inst { w.id inst with state := .enabled }

/-- Looks the interrupt of an instance up in the device tree. -/
def getIrqNumber (r : KernelInitReplies) (inst : ℕ) : ℤ × KernelOs :=
  if r.ofFindCompatibleNode = false then
    (- ENXIO, w)
  else
    let w := w.setIrqNum inst r.ofIrqGet
    if r.ofIrqGet ≤ 0 then (-EINVAL, w) else (0, w)

/-- Another instance carries the number. -/
def sharesIrq (inst : ℕ) (irq : ℤ) : Bool :=
  (List.range ipcShmMaxInstances).any (fun i => i ≠ inst ∧ (w.id i).irqNum = irq)

/-- Registers the handler for the number of an instance, unless it has none or
another instance carries it. -/
def registerIrq (r : KernelInitReplies) (inst : ℕ) : ℤ × KernelOs :=
  if w.sharesIrq inst (w.id inst).irqNum then
    (0, w.enable inst)
  else if (w.id inst).irqNum ≠ ipcIrqNone then
    let (err, w) := w.requestIrq r.requestIrq (w.id inst).irqNum
    if err ≠ 0 then (err, w) else (0, w.enable inst)
  else
    (0, w.enable inst)

/-- The interrupt of an instance. -/
def initIrq (r : KernelInitReplies) (inst : ℕ) (cfg : IpcShmCfg) : ℤ × KernelOs :=
  if cfg.interCoreRxIrq = ipcIrqNone then
    (w.setIrqNum inst ipcIrqNone).registerIrq r inst
  else
    let (err, w) := w.getIrqNumber r inst
    if err ≠ 0 then (err, w) else w.registerIrq r inst

/-! The error labels of `ipc_os_init`. What they unmap are the physical
addresses. -/

def errReleaseLocalRegion (cfg : IpcShmCfg) : KernelOs :=
  w.releaseMemRegion cfg.localShmAddr cfg.shmSize.toNat

def errUnmapLocalShm (cfg : IpcShmCfg) : KernelOs :=
  (w.iounmap cfg.localShmAddr).errReleaseLocalRegion cfg

def errReleaseRemoteRegion (cfg : IpcShmCfg) : KernelOs :=
  (w.releaseMemRegion cfg.remoteShmAddr cfg.shmSize.toNat).errUnmapLocalShm cfg

def errUnmapRemoteShm (cfg : IpcShmCfg) : KernelOs :=
  (w.iounmap cfg.remoteShmAddr).errReleaseRemoteRegion cfg

/-- What `ipc_os_init` does once an instance has its windows. -/
def initMapped (r : KernelInitReplies) (inst : ℕ) (cfg : IpcShmCfg) : ℤ × KernelOs :=
  let w := w.setId inst { w.id inst with
    shmSize := asInt cfg.shmSize.toNat
    localPhysShm := cfg.localShmAddr
    remotePhysShm := cfg.remoteShmAddr }
  let (err, w) := w.initIrq r inst cfg
  if err ≠ 0 then (err, w.errUnmapRemoteShm cfg) else (0, w)

/-- The remote window, and what follows. -/
def initRemote (r : KernelInitReplies) (inst : ℕ) (cfg : IpcShmCfg) : ℤ × KernelOs :=
  let (ok, w) := w.requestMemRegion r.requestRemote cfg.remoteShmAddr cfg.shmSize.toNat
  if ok = false then
    (-EADDRINUSE, w.errUnmapLocalShm cfg)
  else
    let (virt, w) := w.ioremap r.ioremapRemote
    let w := w.setId inst { w.id inst with remoteVirtShm := virt }
    if virt = 0 then (-ENOMEM, w.errReleaseRemoteRegion cfg) else w.initMapped r inst cfg

/-- The local window, and what follows. -/
def initLocal (r : KernelInitReplies) (inst : ℕ) (cfg : IpcShmCfg) : ℤ × KernelOs :=
  let (ok, w) := w.requestMemRegion r.requestLocal cfg.localShmAddr cfg.shmSize.toNat
  if ok = false then
    (-EADDRINUSE, w)
  else
    let (virt, w) := w.ioremap r.ioremapLocal
    let w := w.setId inst { w.id inst with localVirtShm := virt }
    if virt = 0 then (-ENOMEM, w.errReleaseLocalRegion cfg) else w.initRemote r inst cfg

/-- Initializes the OS layer for an instance. What goes wrong is an `int`, what
is returned an `int8_t`. -/
def ipcOsInit (r : KernelInitReplies) (inst : ℕ) (cfg : IpcShmCfg) (rxCb : Bool) :
    ℤ × KernelOs :=
  if rxCb = false then (-EINVAL, w)
  else if ipcShmMaxInstances < inst then (-EINVAL, w)
  else
    let (err, w) := w.initLocal r inst cfg
    (asInt8 err, w)

/-- Gives up the interrupt of an instance that has one, and its registration if
no other instance carries it. -/
def releaseIrq (inst : ℕ) : KernelOs :=
  let irq := (w.id inst).irqNum
  if irq = ipcIrqNone then
    w
  else
    let w := if w.sharesIrq inst irq = false ∧ irq ≠ 0 then w.freeIrq irq else w
    w.setIrqNum inst 0

/-- Frees the OS layer of an instance. -/
def ipcOsFree (inst : ℕ) : KernelOs :=
  let w := w.setId inst { w.id inst with state := .disabled }
  let w := w.releaseIrq inst
  let p := w.id inst
  let w := w.iounmap p.remoteVirtShm
  let w := w.releaseMemRegion p.remotePhysShm (asResourceSize p.shmSize)
  let w := w.iounmap p.localVirtShm
  w.releaseMemRegion p.localPhysShm (asResourceSize p.shmSize)

@[simp] theorem setId_self (inst : ℕ) (p : KernelInstance) : (w.setId inst p).id inst = p :=
  Function.update_self _ _ _

theorem setId_of_ne {inst j : ℕ} (p : KernelInstance) (h : j ≠ inst) :
    (w.setId inst p).id j = w.id j := Function.update_of_ne h _ _

/-! ## The outcomes of an initialization -/

section Outcomes

variable {w} {r : KernelInitReplies} {inst : ℕ} {cfg : IpcShmCfg}

theorem initRemote_refused (h : r.requestRemote = false) :
    w.initRemote r inst cfg = (-EADDRINUSE, w.errUnmapLocalShm cfg) := by
  rw [initRemote, requestMemRegion, if_neg (by rw [h]; decide)]
  rfl

theorem initRemote_unmapped (h : r.requestRemote = true) (hv : ¬w.Unused r.ioremapRemote) :
    w.initRemote r inst cfg = (-ENOMEM,
      ((w.reserve cfg.remoteShmAddr cfg.shmSize.toNat).setId inst
        { w.id inst with remoteVirtShm := 0 }).errReleaseRemoteRegion cfg) := by
  have hmap : (w.reserve cfg.remoteShmAddr cfg.shmSize.toNat).ioremap r.ioremapRemote = (0, _) :=
    if_neg hv
  rw [initRemote, requestMemRegion, if_pos h]
  dsimp only
  rw [if_neg (by decide), hmap]
  rfl

theorem initRemote_mapped (h : r.requestRemote = true) (hv : w.Unused r.ioremapRemote) :
    w.initRemote r inst cfg =
      (((w.reserve cfg.remoteShmAddr cfg.shmSize.toNat).remap r.ioremapRemote).setId inst
        { w.id inst with remoteVirtShm := r.ioremapRemote }).initMapped r inst cfg := by
  have hmap : (w.reserve cfg.remoteShmAddr cfg.shmSize.toNat).ioremap r.ioremapRemote
      = (r.ioremapRemote, _) := if_pos hv
  rw [initRemote, requestMemRegion, if_pos h]
  dsimp only
  rw [if_neg (by decide), hmap]
  exact if_neg hv.1

theorem initLocal_refused (h : r.requestLocal = false) :
    w.initLocal r inst cfg = (-EADDRINUSE, w) := by
  rw [initLocal, requestMemRegion, if_neg (by rw [h]; decide)]
  rfl

theorem initLocal_unmapped (h : r.requestLocal = true) (hv : ¬w.Unused r.ioremapLocal) :
    w.initLocal r inst cfg = (-ENOMEM,
      ((w.reserve cfg.localShmAddr cfg.shmSize.toNat).setId inst
        { w.id inst with localVirtShm := 0 }).errReleaseLocalRegion cfg) := by
  have hmap : (w.reserve cfg.localShmAddr cfg.shmSize.toNat).ioremap r.ioremapLocal = (0, _) :=
    if_neg hv
  rw [initLocal, requestMemRegion, if_pos h]
  dsimp only
  rw [if_neg (by decide), hmap]
  rfl

theorem initLocal_mapped (h : r.requestLocal = true) (hv : w.Unused r.ioremapLocal) :
    w.initLocal r inst cfg =
      (((w.reserve cfg.localShmAddr cfg.shmSize.toNat).remap r.ioremapLocal).setId inst
        { w.id inst with localVirtShm := r.ioremapLocal }).initRemote r inst cfg := by
  have hmap : (w.reserve cfg.localShmAddr cfg.shmSize.toNat).ioremap r.ioremapLocal
      = (r.ioremapLocal, _) := if_pos hv
  rw [initLocal, requestMemRegion, if_pos h]
  dsimp only
  rw [if_neg (by decide), hmap]
  exact if_neg hv.1

end Outcomes

end KernelOs
