import IpcShm.Types

/-!
# The interrupt controller

The inter-core interrupts of the processor are raised, cleared and routed
through the registers of one block, the MSCM. The HW layer of the driver maps
the block, once for each instance, checks that the cores and interrupts an
instance is configured with exist, and keeps what it needs to reach the
registers. Four functions then do all the work: the routing of the receive
interrupt is switched on or off, a pending interrupt is cleared, and the
remote's is raised.

Routing and pending interrupts are kept apart by the hardware: an interrupt that
arrives while its routing is off stays pending.
-/

/-- The registers of the block: the number of the processor that reads them, the
configuration with its lock, the routing of each peripheral interrupt, and the
pending interrupts of each core, by sender. The lock bit of a routing register
has no effect here: the source defines it but neither tests nor sets it, and a
register that something else has locked is not modelled. -/
structure Mscm where
  cpxnum : UInt32 := 0
  ircpcfg : UInt32 := 0
  irsprc : ℕ → UInt16 := fun _ => 0
  isr : ℕ → ℕ → UInt32 := fun _ _ => 0

/-- `IPC_MSCM_IRCPCFG_LOCK`. -/
def ipcMscmIrcpcfgLock : UInt32 := 0x80000000

/-- `IPC_MSCM_IRCPCFG_A53_TR`. -/
def ipcMscmIrcpcfgA53Tr : UInt32 := 0x0F

/-- `IPC_MSCM_IRSPRCn_GIC500`. -/
def ipcMscmIrsprcGic500 : UInt16 := 0x1

/-- Platform specific private data of an instance. -/
structure HwInstance where
  msiTxIrq : ℕ := 0
  msiRxIrq : ℕ := 0
  spiIndex : ℕ := 0
  mscmTxIrq : ℤ := 0
  mscmRxIrq : ℤ := 0
  remoteCore : ℕ := 0
  localCore : ℕ := 0
  /-- Where the block is mapped. -/
  ipcMscm : ℕ := 0

/-- The data of the HW layer, and the block. -/
structure KernelHw where
  priv : ℕ → HwInstance := fun _ => {}
  mscm : Mscm := {}

/-! ## Configuration -/

/-- The processor index of an A53 core. -/
def ipcA53 : IpcShmCoreIndex → Option ℕ
  | .index0 => some 0
  | .index1 => some 1
  | .index2 => some 2
  | .index3 => some 3
  | _ => none

/-- And of an M7 core. -/
def ipcM7 : IpcShmCoreIndex → Option ℕ
  | .index0 => some 4
  | .index1 => some 5
  | .index2 => some 6
  | _ => none

/-- The index of the local core, `IPC_DEFAULT_LOCAL_CORE` by default. -/
def localCoreIdx (core : IpcShmLocalCore) : Option ℕ :=
  match core.type with
  | .a53 => ipcA53 core.index
  | .default => some 0
  | _ => none

/-- The index of the remote core, `IPC_DEFAULT_REMOTE_CORE` by default. -/
def remoteCoreIdx (core : IpcShmRemoteCore) : Option ℕ :=
  match core.type with
  | .a53 => ipcA53 core.index
  | .m7 => ipcM7 core.index
  | .default => some 4
  | _ => none

/-- The trusted cores are A53 cores, and the local one is among them. -/
def TrustedOk (trusted : UInt32) (localCore : ℕ) : Prop :=
  ¬(trusted = 0 ∨ trusted &&& ~~~ipcMscmIrcpcfgA53Tr ≠ 0 ∨
    (1 <<< UInt32.ofNat localCore) &&& ~~~trusted ≠ 0)

instance (trusted : UInt32) (localCore : ℕ) : Decidable (TrustedOk trusted localCore) :=
  inferInstanceAs (Decidable (¬(_ ∨ _ ∨ _)))

/-- The interrupts and the cores of an instance are different ones. -/
def CoresOk (mscm : Mscm) (cfg : IpcShmCfg) (localCore remoteCore : ℕ) : Prop :=
  ¬((cfg.interCoreTxIrq ≠ ipcIrqNone ∧ cfg.interCoreTxIrq = cfg.interCoreRxIrq) ∨
    remoteCore = mscm.cpxnum.toNat ∨ remoteCore = localCore)

instance (mscm : Mscm) (cfg : IpcShmCfg) (localCore remoteCore : ℕ) :
    Decidable (CoresOk mscm cfg localCore remoteCore) :=
  inferInstanceAs (Decidable (¬((_ ∧ _) ∨ _ ∨ _)))

/-- The MSI index of an interrupt, if it changes it. -/
def msiIndex (irq : ℤ) : Option (Option ℕ) :=
  if irq = ipcIrqNone then some none
  else if irq = 0 then some (some 0)
  else if irq = 1 then some (some 1)
  else if irq = 2 then some (some 2)
  else none

namespace KernelHw

variable (h : KernelHw)

/-- The data of one instance changed. -/
def setPriv (inst : ℕ) (p : HwInstance) : KernelHw :=
  { h with priv := Function.update h.priv inst p }

/-! ## Interrupts -/

/-- The routing of the receive interrupt of an instance, rewritten. -/
def route (inst : ℕ) (f : UInt16 → UInt16) : KernelHw :=
  if (h.priv inst).mscmRxIrq ≠ ipcIrqNone then
    let i := (h.priv inst).spiIndex
    { h with mscm := { h.mscm with
        irsprc := Function.update h.mscm.irsprc i (f (h.mscm.irsprc i)) } }
  else h

/-- Enables notifications from remote. -/
def ipcHwIrqEnable (inst : ℕ) : KernelHw := h.route inst (· ||| ipcMscmIrsprcGic500)

/-- Disables notifications from remote. -/
def ipcHwIrqDisable (inst : ℕ) : KernelHw := h.route inst (· &&& ~~~ipcMscmIrsprcGic500)

/-- Notifies remote that data is available: the interrupt becomes pending there,
from this processor. -/
def ipcHwIrqNotify (inst : ℕ) : KernelHw :=
  let p := h.priv inst
  if p.mscmTxIrq ≠ ipcIrqNone then
    { h with mscm := { h.mscm with
      isr := Function.update h.mscm.isr p.remoteCore
        (Function.update (h.mscm.isr p.remoteCore) p.msiTxIrq
          (h.mscm.isr p.remoteCore p.msiTxIrq ||| 1 <<< h.mscm.cpxnum)) } }
  else h

/-- Clears the notification of available data, on the targeted core. -/
def ipcHwIrqClear (inst : ℕ) : KernelHw :=
  let p := h.priv inst
  if p.mscmRxIrq ≠ ipcIrqNone then
    { h with mscm := { h.mscm with
      isr := Function.update h.mscm.isr p.localCore
        (Function.update (h.mscm.isr p.localCore) p.msiRxIrq
          (h.mscm.isr p.localCore p.msiRxIrq &&& ~~~(1 <<< UInt32.ofNat p.remoteCore))) } }
  else h

/-! ## Initialization -/

/-- What is kept of the interrupts of an instance. -/
def withIrqs (p : HwInstance) (cfg : IpcShmCfg) (tx rx : Option ℕ) (localCore remoteCore : ℕ) :
    HwInstance :=
  { p with
    msiTxIrq := tx.getD p.msiTxIrq
    msiRxIrq := rx.getD p.msiRxIrq
    spiIndex := (rx.map (· + 1)).getD p.spiIndex
    mscmTxIrq := cfg.interCoreTxIrq
    mscmRxIrq := cfg.interCoreRxIrq
    localCore := localCore
    remoteCore := remoteCore }

/-- Enables the local trusted cores, unless the configuration is locked. -/
def enableTrusted (trusted : UInt32) : ℤ × KernelHw :=
  if h.mscm.ircpcfg &&& ipcMscmIrcpcfgLock ≠ 0 then
    (-EACCES, h)
  else
    (0, { h with mscm := { h.mscm with ircpcfg := h.mscm.ircpcfg ||| trusted } })

/-- `_ipc_hw_init`: platform specific initialization, with the block mapped at an
address. The MSI index of an interrupt is written where the interrupt is
checked. -/
def ipcHwInitAt (inst : ℕ) (cfg : IpcShmCfg) (periphAddr : ℕ) : ℤ × KernelHw :=
  if periphAddr = 0 then
    (-EINVAL, h)
  else
    let h := h.setPriv inst { h.priv inst with ipcMscm := periphAddr }
    match localCoreIdx cfg.localCore with
    | none => (-EINVAL, h)
    | some localCore =>
      if ¬TrustedOk cfg.localCore.trusted localCore then
        (-EINVAL, h)
      else
        match remoteCoreIdx cfg.remoteCore with
        | none => (-EINVAL, h)
        | some remoteCore =>
          if ¬CoresOk h.mscm cfg localCore remoteCore then
            (-EINVAL, h)
          else
            match msiIndex cfg.interCoreTxIrq with
            | none => (-EINVAL, h)
            | some tx =>
              let h := h.setPriv inst
                { h.priv inst with msiTxIrq := tx.getD (h.priv inst).msiTxIrq }
              match msiIndex cfg.interCoreRxIrq with
              | none => (-EINVAL, h)
              | some rx =>
                let h := h.setPriv inst
                  (withIrqs (h.priv inst) cfg tx rx localCore remoteCore)
                (h.ipcHwIrqDisable inst).enableTrusted cfg.localCore.trusted

/-- **What the HW layer accepts.** -/
def Accepts (mscm : Mscm) (cfg : IpcShmCfg) : Prop :=
  ∃ localCore ∈ localCoreIdx cfg.localCore, TrustedOk cfg.localCore.trusted localCore ∧
  ∃ remoteCore ∈ remoteCoreIdx cfg.remoteCore, CoresOk mscm cfg localCore remoteCore ∧
  (msiIndex cfg.interCoreTxIrq).isSome = true ∧ (msiIndex cfg.interCoreRxIrq).isSome = true ∧
  mscm.ircpcfg &&& ipcMscmIrcpcfgLock = 0

instance (mscm : Mscm) (cfg : IpcShmCfg) : Decidable (Accepts mscm cfg) :=
  inferInstanceAs (Decidable (∃ localCore ∈ localCoreIdx cfg.localCore, _ ∧
    ∃ remoteCore ∈ remoteCoreIdx cfg.remoteCore, _ ∧ _ ∧ _ ∧ _))

variable {h}

theorem route_ircpcfg (inst : ℕ) (f : UInt16 → UInt16) :
    (h.route inst f).mscm.ircpcfg = h.mscm.ircpcfg := by
  unfold route
  split <;> rfl

theorem route_priv (inst : ℕ) (f : UInt16 → UInt16) : (h.route inst f).priv = h.priv := by
  unfold route
  split <;> rfl

theorem ipcHwIrqNotify_priv (inst : ℕ) : (h.ipcHwIrqNotify inst).priv = h.priv := by
  unfold ipcHwIrqNotify
  dsimp only
  split <;> rfl

theorem ipcHwIrqClear_priv (inst : ℕ) : (h.ipcHwIrqClear inst).priv = h.priv := by
  unfold ipcHwIrqClear
  dsimp only
  split <;> rfl

theorem enableTrusted_iff (trusted : UInt32) :
    (h.enableTrusted trusted).1 = 0 ↔ h.mscm.ircpcfg &&& ipcMscmIrcpcfgLock = 0 := by
  unfold enableTrusted
  split
  · rename_i hlock
    exact ⟨fun hz => absurd hz (show -EACCES ≠ 0 by decide), fun hz => absurd hz hlock⟩
  · rename_i hlock
    exact ⟨fun _ => not_not.mp hlock, fun _ => rfl⟩

/-- A check that is made, and the rest of an initialization. -/
theorem check_iff {c P : Prop} [Decidable c] {x y : ℤ × KernelHw} (hx : x.1 ≠ 0)
    (hy : c → (y.1 = 0 ↔ P)) : (if ¬c then x else y).1 = 0 ↔ c ∧ P := by
  by_cases hc : c
  · rw [if_neg (not_not.mpr hc), hy hc]
    exact (and_iff_right hc).symm
  · rw [if_pos hc]
    exact ⟨fun hz => absurd hz hx, fun hcp => absurd hcp.1 hc⟩

/-- The initialization succeeds exactly for what is accepted. -/
theorem ipcHwInitAt_iff {inst : ℕ} {cfg : IpcShmCfg} {addr : ℕ} (haddr : addr ≠ 0) :
    (h.ipcHwInitAt inst cfg addr).1 = 0 ↔ Accepts h.mscm cfg := by
  have hinval : -EINVAL ≠ 0 := by decide
  unfold ipcHwInitAt Accepts
  rw [if_neg haddr]
  dsimp only
  cases localCoreIdx cfg.localCore with
  | none => exact ⟨fun hz => absurd hz hinval, fun ⟨_, hc, _⟩ => nomatch hc⟩
  | some localCore =>
    simp only [Option.mem_def, Option.some.injEq, exists_eq_left']
    refine check_iff hinval (fun _ => ?_)
    cases remoteCoreIdx cfg.remoteCore with
    | none => exact ⟨fun hz => absurd hz hinval, fun ⟨_, hc, _⟩ => nomatch hc⟩
    | some remoteCore =>
      simp only [Option.some.injEq, exists_eq_left']
      refine check_iff hinval (fun _ => ?_)
      cases msiIndex cfg.interCoreTxIrq with
      | none => exact ⟨fun hz => absurd hz hinval, fun hc => nomatch hc.1⟩
      | some tx =>
        cases msiIndex cfg.interCoreRxIrq with
        | none => exact ⟨fun hz => absurd hz hinval, fun hc => nomatch hc.2.1⟩
        | some rx =>
          rw [enableTrusted_iff, ipcHwIrqDisable, route_ircpcfg]
          exact ⟨fun hz => ⟨rfl, rfl, hz⟩, fun hc => hc.2.2⟩

theorem enableTrusted_priv (trusted : UInt32) : (h.enableTrusted trusted).2.priv = h.priv := by
  unfold enableTrusted
  split <;> rfl

theorem setPriv_self (inst : ℕ) (p : HwInstance) : (h.setPriv inst p).priv inst = p :=
  Function.update_self _ _ _

/-- The address of the block is kept, whatever else happens. -/
theorem ipcHwInitAt_ipcMscm {inst : ℕ} {cfg : IpcShmCfg} {addr : ℕ} (haddr : addr ≠ 0) :
    ((h.ipcHwInitAt inst cfg addr).2.priv inst).ipcMscm = addr := by
  have hself : ((h.setPriv inst { h.priv inst with ipcMscm := addr }).priv inst).ipcMscm
      = addr := by
    rw [setPriv_self]
  unfold ipcHwInitAt
  rw [if_neg haddr]
  dsimp only
  cases localCoreIdx cfg.localCore with
  | none => exact hself
  | some localCore =>
    dsimp only
    split
    · exact hself
    cases remoteCoreIdx cfg.remoteCore with
    | none => exact hself
    | some remoteCore =>
      dsimp only
      split
      · exact hself
      cases msiIndex cfg.interCoreTxIrq with
      | none => exact hself
      | some tx =>
        dsimp only
        cases msiIndex cfg.interCoreRxIrq with
        | none =>
          dsimp only
          rw [setPriv_self]
          exact hself
        | some rx =>
          dsimp only
          rw [enableTrusted_priv, ipcHwIrqDisable, route_priv, setPriv_self, withIrqs, setPriv_self]
          exact hself

end KernelHw
