import Mathlib.Order.Interval.Finset.Nat
import IpcShm.Holdings
import IpcShm.Reception
import IpcShm.Rollback

/-!
# Instances that come and go

`ipc_shm_init` brings the instances of a configuration up one after the other and
stops at the first that fails; `ipc_shm_free` brings down all that are in use.
Between the two an application may bring single instances up and down in any
order, and each of these calls takes from the system or gives back: two regions,
three mappings, and an interrupt that instances may share.

None of it is recorded in one place. The driver proper keeps where the state of
an instance is, the OS layer the windows and the interrupt, the HW layer the
controller, and a release finds what it gives back in what the three kept. So
the invariant says that the three agree: the instances the driver takes to be in
use are those the OS layer has enabled, and everything on the ledger of the
system is held by one of them (`Kept`). One call of a layer changes what one
instance holds, the loops add such calls up, and after `ipc_shm_free` the ledger
is empty, whatever was called before.

What is left out of a run are the initializations `Rollback` is about, which fail
and cannot give back what they took or do not report it, and those that enter an
interrupt number another instance left behind.
-/

/-! ## All instances -/

/-- Parameters of the instances. -/
structure IpcShmInstancesCfg where
  numInstances : UInt8
  shmCfg : Option (ℕ → IpcShmCfg)

/-- The loop of `ipc_shm_init`. -/
def initInstances (shmCfg : Option (ℕ → IpcShmCfg)) : ℕ → ℕ → Driver → Drv (ℤ × Driver)
  | 0, _, d => return (0, d)
  | n + 1, inst, d => do
    let state ← ipcInstanceIsFree d inst
    if state = .used then
      -- an instance that is initialized is skipped
      initInstances shmCfg n (inst + 1) d
    else if shmCfg.isNone ∧ inst ≠ 0 then
      -- the address of an element of an array there is not
      undefinedBehaviour
    else
      let (err, d) ← ipcShmInitInstance d inst (shmCfg.map (fun c => c inst))
      if err ≠ 0 then
        return (err, d)
      else
        initInstances shmCfg n (inst + 1) d

/-- Initializes the instances of a configuration, in order. -/
def ipcShmInit (d : Driver) (cfg : Option IpcShmInstancesCfg) : Drv (ℤ × Driver) :=
  match cfg with
  | none => return (-EINVAL, d)
  | some cfg =>
    if ipcShmMaxInstances < cfg.numInstances.toNat ∨ cfg.numInstances.toNat = 0 then
      return (-EINVAL, d)
    else
      initInstances cfg.shmCfg cfg.numInstances.toNat 0 d

/-- The loop of `ipc_shm_free`. -/
def freeInstances : ℕ → ℕ → Driver → Drv Driver
  | 0, _, d => return d
  | n + 1, inst, d => do
    let state ← ipcInstanceIsFree d inst
    if state = .used then
      let d ← ipcShmFreeInstance d inst
      freeInstances n (inst + 1) d
    else
      freeInstances n (inst + 1) d

/-- Deinitializes all instances. -/
def ipcShmFree (d : Driver) : Drv Driver := freeInstances ipcShmMaxInstances 0 d

/-! ## One call of the OS layer -/

namespace IrqTable

variable {t : IrqTable} {r : KernelInitReplies} {inst : ℕ} {cfg : IpcShmCfg}

/-- An instance whose interrupt cannot be used stays as it was. -/
theorem state_initMapped_of_fails (h : t.Fails r inst cfg) :
    (t.initMapped r inst cfg).state = t.state := by
  rw [initMapped_of_fails h]
  split
  · rfl
  · rfl

theorem state_free : (t.free inst).state = Function.update t.state inst .disabled := by
  unfold free
  dsimp only
  split
  · rfl
  split
  · rfl
  · rfl

/-- A release registers nothing. -/
theorem mem_of_mem_free {irq : ℤ} (h : irq ∈ (t.free inst).irqs) : irq ∈ t.irqs := by
  unfold free at h
  dsimp only at h
  split at h
  · exact h
  split at h
  · exact List.mem_of_mem_erase h
  · exact h

end IrqTable

namespace KernelOs

/-- What two states keep of the other instances is the same. -/
def SameOthers (inst : ℕ) (w w' : KernelOs) : Prop := ∀ j, j ≠ inst → w'.id j = w.id j

section SameOthers

variable {w w' w'' : KernelOs} {r : KernelInitReplies} {inst : ℕ} {cfg : IpcShmCfg}

theorem SameOthers.refl : SameOthers inst w w := fun _ _ => rfl

theorem SameOthers.trans (h : SameOthers inst w w') (h' : SameOthers inst w' w'') :
    SameOthers inst w w'' := fun j hj => (h' j hj).trans (h j hj)

theorem sameOthers_setId (p : KernelInstance) : SameOthers inst w (w.setId inst p) :=
  fun _ hj => setId_of_ne w p hj

theorem sameOthers_registerIrq : SameOthers inst w (w.registerIrq r inst).2 := by
  by_cases hreg : w.sharesIrq inst (w.id inst).irqNum = false ∧ (w.id inst).irqNum ≠ ipcIrqNone
  · by_cases hok : r.requestIrq = 0
    · rw [registerIrq_granted hreg.1 hreg.2 hok]
      exact sameOthers_setId _
    · rw [registerIrq_refused hreg.1 hreg.2 hok]
      exact .refl
  · rw [registerIrq_unneeded hreg]
    exact sameOthers_setId _

theorem sameOthers_initIrq : SameOthers inst w (w.initIrq r inst cfg).2 := by
  by_cases hrx : cfg.interCoreRxIrq = ipcIrqNone
  · rw [initIrq_none hrx]
    exact (sameOthers_setId _).trans sameOthers_registerIrq
  by_cases hnode : r.ofFindCompatibleNode = false
  · rw [initIrq_missing hrx hnode]
    exact .refl
  rw [Bool.not_eq_false] at hnode
  by_cases hle : r.ofIrqGet ≤ 0
  · rw [initIrq_invalid hrx hnode hle]
    exact sameOthers_setId _
  · rw [initIrq_found hrx hnode (by omega)]
    exact (sameOthers_setId _).trans sameOthers_registerIrq

theorem sameOthers_initMapped : SameOthers inst w (w.initMapped r inst cfg).2 := by
  unfold initMapped
  dsimp only
  set v := w.setId inst _
  have hv : SameOthers inst w (v.initIrq r inst cfg).2 :=
    (sameOthers_setId _).trans sameOthers_initIrq
  split
  · exact hv
  · exact hv

theorem sameOthers_initRemote : SameOthers inst w (w.initRemote r inst cfg).2 := by
  by_cases hok : r.requestRemote = true
  · by_cases hv : w.Unused r.ioremapRemote
    · rw [initRemote_mapped hok hv]
      exact (sameOthers_setId _).trans sameOthers_initMapped
    · rw [initRemote_unmapped hok hv]
      exact sameOthers_setId _
  · rw [initRemote_refused (Bool.eq_false_iff.mpr hok)]
    exact .refl

theorem sameOthers_ipcOsInit : SameOthers inst w (w.ipcOsInit r inst cfg true).2 := by
  unfold ipcOsInit
  rw [if_neg (by decide)]
  split
  · exact .refl
  by_cases hok : r.requestLocal = true
  · by_cases hv : w.Unused r.ioremapLocal
    · rw [initLocal_mapped hok hv]
      exact (sameOthers_setId _).trans sameOthers_initRemote
    · rw [initLocal_unmapped hok hv]
      exact sameOthers_setId _
  · rw [initLocal_refused (Bool.eq_false_iff.mpr hok)]
    exact .refl

theorem sameOthers_ipcOsFree : SameOthers inst w (w.ipcOsFree inst) := by
  have hdisabled : SameOthers inst w (w.setId inst { w.id inst with state := .disabled }) :=
    sameOthers_setId _
  refine hdisabled.trans (show SameOthers inst _ (releaseIrq _ inst) from ?_)
  unfold releaseIrq
  dsimp only
  split
  · exact .refl
  · split
    · exact sameOthers_setId _
    · exact sameOthers_setId _

end SameOthers

variable {w : KernelOs} {r : KernelInitReplies} {inst : ℕ} {cfg : IpcShmCfg}

/-- An initialization that succeeds had its windows mapped, and an interrupt it
can use, unless it does not report that it failed. -/
theorem mapped_of_ipcOsInit (hinst : inst < ipcShmMaxInstances)
    (hreported : ¬w.irqTable.Unreported r inst cfg) (h : (w.ipcOsInit r inst cfg true).1 = 0) :
    w.WindowsMapped r ∧ ¬w.irqTable.Fails r inst cfg := by
  by_cases hlocal : w.Maps r.requestLocal r.ioremapLocal
  swap
  · exact absurd h (ipcOsInit_no_local hinst hlocal).1
  by_cases hremote : (w.remap r.ioremapLocal).Maps r.requestRemote r.ioremapRemote
  swap
  · exact absurd h (ipcOsInit_no_remote hinst hlocal hremote).1
  refine ⟨⟨hlocal, hremote⟩, fun hirq => hreported ?_⟩
  exact (ipcOsInit_no_irq hinst ⟨hlocal, hremote⟩ hirq).1.mp h

/-- One that fails enables no instance. -/
theorem state_ipcOsInit_of_ne (hinst : inst < ipcShmMaxInstances)
    (h : (w.ipcOsInit r inst cfg true).1 ≠ 0) :
    (w.ipcOsInit r inst cfg true).2.irqTable.state = w.irqTable.state := by
  rw [irqTable_ipcOsInit _ _ hinst]
  split
  · rename_i hgo
    refine IrqTable.state_initMapped_of_fails (by_contra (fun hfails => ?_))
    exact h (ipcOsFree_ipcOsInit hinst hgo.2 hfails).1
  · rfl

/-- **What a successful initialization takes**, and records. -/
structure TakesWindows (r : KernelInitReplies) (inst : ℕ) (cfg : IpcShmCfg) (w w' : KernelOs) :
    Prop where
  regions : w'.ledger.regions = (cfg.remoteShmAddr, cfg.shmSize.toNat) ::
    (cfg.localShmAddr, cfg.shmSize.toNat) :: w.ledger.regions
  mappings : w'.ledger.mappings = r.ioremapRemote :: r.ioremapLocal :: w.ledger.mappings
  shmSize : (w'.id inst).shmSize = asInt cfg.shmSize.toNat
  localPhysShm : (w'.id inst).localPhysShm = cfg.localShmAddr
  remotePhysShm : (w'.id inst).remotePhysShm = cfg.remoteShmAddr
  localVirtShm : (w'.id inst).localVirtShm = r.ioremapLocal
  remoteVirtShm : (w'.id inst).remoteVirtShm = r.ioremapRemote

theorem takesWindows_ipcOsInit (hinst : inst < ipcShmMaxInstances) (hwindows : w.WindowsMapped r)
    (h : ¬w.irqTable.Fails r inst cfg) :
    TakesWindows r inst cfg w (w.ipcOsInit r inst cfg true).2 := by
  obtain ⟨u, hu, htable, hledger, hlocal, hremote⟩ := @initLocal_windowsMapped w r inst cfg hwindows
  rw [ipcOsInit_eq_initLocal hinst, hu]
  obtain ⟨-, hregions, hmappings⟩ := initMapped_of_not_fails (w := u) (by rwa [htable])
  obtain ⟨hsize, hlocalPhys, hremotePhys, hlocalVirt, hremoteVirt⟩ := @id_initMapped u r inst cfg
  rw [hledger] at hregions hmappings
  exact ⟨hregions, hmappings, hsize, hlocalPhys, hremotePhys, hlocalVirt.trans hlocal,
    hremoteVirt.trans hremote⟩

end KernelOs

/-! ## The system -/

/-- An initialization of the HW layer is about one instance. -/
theorem KernelHw.ipcHwInitAt_of_ne {h : KernelHw} {inst j : ℕ} {cfg : IpcShmCfg} {addr : ℕ}
    (hj : j ≠ inst) : (h.ipcHwInitAt inst cfg addr).2.priv j = h.priv j := by
  have hset : ∀ (h : KernelHw) (p : HwInstance), (h.setPriv inst p).priv j = h.priv j :=
    fun _ _ => Function.update_of_ne hj _ _
  unfold ipcHwInitAt
  split
  · rfl
  dsimp only
  cases localCoreIdx cfg.localCore with
  | none => exact hset _ _
  | some localCore =>
    dsimp only
    split
    · exact hset _ _
    cases remoteCoreIdx cfg.remoteCore with
    | none => exact hset _ _
    | some remoteCore =>
      dsimp only
      split
      · exact hset _ _
      cases msiIndex cfg.interCoreTxIrq with
      | none => exact hset _ _
      | some tx =>
        dsimp only
        cases msiIndex cfg.interCoreRxIrq with
        | none =>
          dsimp only
          rw [hset, hset]
        | some rx =>
          dsimp only
          rw [enableTrusted_priv, ipcHwIrqDisable, route_priv, hset, hset, hset]

namespace KernelSys

section Holdings

variable (s : KernelSys)

/-- The instances that are in use. -/
def inUse : Finset ℕ :=
  (Finset.range ipcShmMaxInstances).filter (fun i => (s.os.id i).state = .enabled)

/-- The regions an instance in use holds, -/
def regionsOf (i : ℕ) : List (ℕ × ℕ) :=
  if (s.os.id i).state = .enabled then
    [((s.os.id i).remotePhysShm, asResourceSize (s.os.id i).shmSize),
      ((s.os.id i).localPhysShm, asResourceSize (s.os.id i).shmSize)]
  else []

/-- and its mappings: the two windows, and the controller. -/
def mappingsOf (i : ℕ) : List ℕ :=
  if (s.os.id i).state = .enabled then
    [(s.os.id i).remoteVirtShm, (s.os.id i).localVirtShm, (s.hw.priv i).ipcMscm]
  else []

/-- **Everything on the ledger is held by an instance in use.** -/
structure Accounted : Prop where
  regions : Holdings.Balanced ipcShmMaxInstances s.regionsOf s.os.ledger.regions
  mappings : Holdings.Balanced ipcShmMaxInstances s.mappingsOf s.os.ledger.mappings
  irqTable : s.os.irqTable.Inv
  irqs_pos : ∀ irq ∈ s.os.ledger.irqs, 0 < irq
  /-- An instance in use has an interrupt that can be freed, and a window. -/
  usable : ∀ i ∈ s.inUse, ((s.os.id i).irqNum = ipcIrqNone ∨ 0 < (s.os.id i).irqNum) ∧
    (s.os.id i).localVirtShm ≠ 0

/-- What two states keep of the other instances is the same. -/
structure SameOthers (inst : ℕ) (s s' : KernelSys) : Prop where
  os : KernelOs.SameOthers inst s.os s'.os
  hw : ∀ j, j ≠ inst → s'.hw.priv j = s.hw.priv j

end Holdings

variable {s s' s'' : KernelSys} {r : InstanceReplies} {inst : ℕ} {cfg : IpcShmCfg}

theorem mem_inUse {i : ℕ} :
    i ∈ s.inUse ↔ i < ipcShmMaxInstances ∧ (s.os.id i).state = .enabled := by
  rw [inUse, Finset.mem_filter, Finset.mem_range]

/-- An instance that is not in use holds nothing. -/
theorem regionsOf_disabled {i : ℕ} (h : (s.os.id i).state = .disabled) : s.regionsOf i = [] :=
  if_neg (by rw [h]; decide)

theorem mappingsOf_disabled {i : ℕ} (h : (s.os.id i).state = .disabled) : s.mappingsOf i = [] :=
  if_neg (by rw [h]; decide)

theorem state_of_notMem_inUse {i : ℕ} (hi : i < ipcShmMaxInstances) (h : i ∉ s.inUse) :
    (s.os.id i).state = .disabled :=
  (IrqTable.state_eq_enabled_or (t := s.os.irqTable) i).resolve_left
    (fun hs => h (mem_inUse.mpr ⟨hi, hs⟩))

theorem SameOthers.refl : SameOthers inst s s := ⟨fun _ _ => rfl, fun _ _ => rfl⟩

theorem SameOthers.trans (h : SameOthers inst s s') (h' : SameOthers inst s' s'') :
    SameOthers inst s s'' :=
  ⟨h.os.trans h'.os, fun j hj => (h'.hw j hj).trans (h.hw j hj)⟩

theorem SameOthers.regionsOf (h : SameOthers inst s s') (j : ℕ) (hj : j ≠ inst) :
    s'.regionsOf j = s.regionsOf j := by
  unfold KernelSys.regionsOf
  rw [h.os j hj]

theorem SameOthers.mappingsOf (h : SameOthers inst s s') (j : ℕ) (hj : j ≠ inst) :
    s'.mappingsOf j = s.mappingsOf j := by
  unfold KernelSys.mappingsOf
  rw [h.os j hj, h.hw j hj]

theorem SameOthers.inUse_insert (h : SameOthers inst s s') (hinst : inst < ipcShmMaxInstances)
    (hs : (s'.os.id inst).state = .enabled) : s'.inUse = insert inst s.inUse := by
  ext i
  rw [Finset.mem_insert, mem_inUse, mem_inUse]
  by_cases hi : i = inst
  · subst hi
    exact iff_of_true ⟨hinst, hs⟩ (Or.inl rfl)
  · rw [h.os i hi, or_iff_right hi]

theorem SameOthers.inUse_erase (h : SameOthers inst s s')
    (hs : (s'.os.id inst).state = .disabled) : s'.inUse = s.inUse.erase inst := by
  ext i
  rw [Finset.mem_erase, mem_inUse, mem_inUse]
  by_cases hi : i = inst
  · subst hi
    refine iff_of_false (fun hc => ?_) (fun hc => hc.1 rfl)
    rw [hs] at hc
    exact absurd hc.2 (by decide)
  · rw [h.os i hi, and_iff_right hi]

/-- A release is about one instance, -/
theorem sameOthers_ipcOsFree : SameOthers inst s (s.ipcOsFree inst) :=
  ⟨KernelOs.sameOthers_ipcOsFree, fun j _ => by rw [ipcOsFree_priv]⟩

theorem sameOthers_ipcHwFree : SameOthers inst s (s.ipcHwFree inst) :=
  ⟨fun _ _ => rfl, fun j _ => congrFun (KernelHw.ipcHwIrqClear_priv inst) j⟩

/-- and so is an initialization. -/
theorem sameOthers_ipcHwInit (mapIntc : ℕ) :
    SameOthers inst s (s.ipcHwInit mapIntc inst cfg).2 := by
  by_cases hc : s.os.Unused mapIntc
  · rw [ipcHwInit_mapped hc]
    exact ⟨fun _ _ => rfl, fun j hj => KernelHw.ipcHwInitAt_of_ne hj⟩
  · rw [ipcHwInit_unmapped hc]
    exact ⟨fun _ _ => rfl, fun _ _ => rfl⟩

theorem sameOthers_ipcOsInit (r : KernelInitReplies) :
    SameOthers inst s (s.ipcOsInit r inst cfg).2 :=
  ⟨KernelOs.sameOthers_ipcOsInit, fun _ _ => rfl⟩

theorem sameOthers_ipcHwIrqEnable :
    SameOthers inst s { s with hw := s.hw.ipcHwIrqEnable inst } :=
  ⟨fun _ _ => rfl, fun j _ => congrFun (KernelHw.route_priv _ _) j⟩

theorem sameOthers_ipcHwIrqDisable :
    SameOthers inst s { s with hw := s.hw.ipcHwIrqDisable inst } :=
  ⟨fun _ _ => rfl, fun j _ => congrFun (KernelHw.route_priv _ _) j⟩

/-! ### Release -/

theorem accounted_of_hw {h : KernelHw} (ha : s.Accounted) (hpriv : h.priv = s.hw.priv) :
    ({ s with hw := h } : KernelSys).Accounted where
  regions := ha.regions
  mappings := ha.mappings.congr (fun j => by unfold mappingsOf; rw [hpriv])
  irqTable := ha.irqTable
  irqs_pos := ha.irqs_pos
  usable := ha.usable

/-- **A release gives back what the instance holds.** -/
theorem Accounted.free (ha : s.Accounted) (hinst : inst ∈ s.inUse) :
    ((s.ipcOsFree inst).ipcHwFree inst).Accounted ∧
      ((s.ipcOsFree inst).ipcHwFree inst).inUse = s.inUse.erase inst := by
  obtain ⟨hlt, hs⟩ := mem_inUse.mp hinst
  set t := (s.ipcOsFree inst).ipcHwFree inst with ht
  have hothers : SameOthers inst s t := sameOthers_ipcOsFree.trans sameOthers_ipcHwFree
  have hos : t.os = (s.os.ipcOsFree inst).iounmap (s.hw.priv inst).ipcMscm :=
    ipcHwFree_os (by rw [ipcOsFree_priv])
  have htable : t.os.irqTable = s.os.irqTable.free inst := by
    rw [hos]
    exact s.os.irqTable_ipcOsFree inst
  have hdisabled : (t.os.id inst).state = .disabled := by
    have hstate := congrFun (congrArg IrqTable.state htable) inst
    rw [IrqTable.state_free, Function.update_self] at hstate
    exact hstate
  have hinUse := hothers.inUse_erase hdisabled
  refine ⟨⟨?_, ?_, ?_, ?_, ?_⟩, hinUse⟩
  · have hgive := ha.regions.give hlt hothers.regionsOf (regionsOf_disabled hdisabled)
    rw [regionsOf, if_pos hs, List.diff_cons, List.diff_cons, List.diff_nil] at hgive
    rw [hos]
    show Holdings.Balanced _ _ (s.os.ipcOsFree inst).ledger.regions
    rw [KernelOs.ledger_ipcOsFree]
    exact hgive
  · have hgive := ha.mappings.give hlt hothers.mappingsOf (mappingsOf_disabled hdisabled)
    rw [mappingsOf, if_pos hs, List.diff_cons, List.diff_cons, List.diff_cons,
      List.diff_nil] at hgive
    rw [hos]
    show Holdings.Balanced _ _ ((s.os.ipcOsFree inst).ledger.mappings.erase _)
    rw [KernelOs.ledger_ipcOsFree]
    exact hgive
  · rw [htable]
    refine ha.irqTable.free hlt hs ?_
    rcases (ha.usable inst hinst).1 with hnum | hpos
    · exact Or.inr (Or.inl hnum)
    · exact Or.inl hpos.le
  · intro irq hirq
    refine ha.irqs_pos irq ?_
    have hirqs : t.os.ledger.irqs = (s.os.irqTable.free inst).irqs :=
      congrArg IrqTable.irqs htable
    rw [hirqs] at hirq
    exact IrqTable.mem_of_mem_free hirq
  · intro i hi
    rw [hinUse, Finset.mem_erase] at hi
    rw [hothers.os i hi.1]
    exact ha.usable i hi.2

/-! ### Initialization -/

section Init

variable {s₁ s₂ : KernelSys} {e : ℤ} {os : IpcOs}

/-- Once the controller is mapped, the HW layer does not fail. -/
theorem Recoverable.ipcHwInit (hr : Recoverable r inst cfg s)
    (hhw : s.ipcHwInit r.mapIntc inst cfg = (e, s₁)) :
    (e ≠ 0 ∧ s₁ = s) ∨ e = 0 ∧ s.os.Unused r.mapIntc ∧ s₁.os = s.os.remap r.mapIntc ∧
      (s₁.hw.priv inst).ipcMscm = r.mapIntc := by
  by_cases hc : s.os.Unused r.mapIntc
  · rw [ipcHwInit_mapped hc] at hhw
    obtain ⟨rfl, rfl⟩ := Prod.mk.inj hhw
    exact Or.inr ⟨(KernelHw.ipcHwInitAt_iff hc.1).mpr (hr hc).1, hc, rfl,
      KernelHw.ipcHwInitAt_ipcMscm hc.1⟩
  · rw [ipcHwInit_unmapped hc] at hhw
    obtain ⟨rfl, rfl⟩ := Prod.mk.inj hhw
    exact Or.inl ⟨by decide, rfl⟩

/-- What an initialization of the OS layer leaves. -/
theorem ipcOsInit_inv {r : KernelInitReplies} (h : s.ipcOsInit r inst cfg = ((e, os), s')) :
    (s.os.ipcOsInit r inst cfg true).1 = e ∧ os.localShm = (s'.os.id inst).localVirtShm ∧
      s'.os = (s.os.ipcOsInit r inst cfg true).2 ∧ s'.hw = s.hw := by
  unfold ipcOsInit at h
  generalize s.os.ipcOsInit r inst cfg true = res at h ⊢
  cases h
  exact ⟨rfl, rfl, rfl, rfl⟩

theorem sameOthers_init (hhw : s.ipcHwInit r.mapIntc inst cfg = (0, s₁))
    (hos : s₁.ipcOsInit r.os inst cfg = ((e, os), s₂)) : SameOthers inst s s₂ := by
  have h₁ : SameOthers inst s (s.ipcHwInit r.mapIntc inst cfg).2 := sameOthers_ipcHwInit _
  have h₂ : SameOthers inst s₁ (s₁.ipcOsInit r.os inst cfg).2 := sameOthers_ipcOsInit _
  rw [hhw] at h₁
  rw [hos] at h₂
  exact h₁.trans h₂

/-- **An initialization takes what the instance then holds.** -/
theorem Accounted.init (ha : s.Accounted) (hlt : inst < ipcShmMaxInstances)
    (hfree : inst ∉ s.inUse) (hr : Recoverable r inst cfg s)
    (hhw : s.ipcHwInit r.mapIntc inst cfg = (0, s₁))
    (hirq : s₁.os.Careful (.init r.os inst cfg true))
    (hreported : ¬s₁.os.irqTable.Unreported r.os inst cfg)
    (hos : s₁.ipcOsInit r.os inst cfg = ((0, os), s₂)) :
    s₂.Accounted ∧ s₂.inUse = insert inst s.inUse ∧
      os.localShm = (s₂.os.id inst).localVirtShm := by
  obtain ⟨hne, -⟩ | ⟨-, hc, hos₁, hmscm⟩ := hr.ipcHwInit hhw
  · exact absurd rfl hne
  have hothers : SameOthers inst s s₂ := sameOthers_init hhw hos
  obtain ⟨hok, hlocal, hos₂, hhw₂⟩ := ipcOsInit_inv hos
  rw [hos₁] at hok hos₂ hreported
  obtain ⟨hwindows, hfails⟩ := KernelOs.mapped_of_ipcOsInit hlt hreported hok
  have htakes := KernelOs.takesWindows_ipcOsInit hlt hwindows hfails
  replace hfails : ¬s.os.irqTable.Fails r.os inst cfg := hfails
  have htable : s₂.os.irqTable = s.os.irqTable.initMapped r.os inst cfg := by
    rw [hos₂, KernelOs.irqTable_ipcOsInit _ _ hlt, if_pos ⟨rfl, hwindows⟩]
    rfl
  rw [← hos₂] at htakes
  have hsize : cfg.shmSize.toNat < 2 ^ 31 := by
    have hrest := (hr hc).2 hwindows.1
    rw [if_pos hwindows, if_neg (fun hlost => hfails hlost.1), if_neg hfails] at hrest
    exact hrest
  obtain ⟨henters, irq, hirqNum, hnum, hirqs⟩ := IrqTable.initMapped_of_not_fails hfails
  have henabled : (s₂.os.id inst).state = .enabled := by
    have hstate := congrFun (congrArg IrqTable.state htable) inst
    rw [henters, Function.update_self] at hstate
    exact hstate
  have hinUse := hothers.inUse_insert hlt henabled
  have hdisabled := state_of_notMem_inUse hlt hfree
  refine ⟨⟨?_, ?_, ?_, ?_, ?_⟩, hinUse, hlocal⟩
  · have htake := ha.regions.take hlt hothers.regionsOf (regionsOf_disabled hdisabled)
    rw [regionsOf, if_pos henabled, htakes.remotePhysShm, htakes.localPhysShm, htakes.shmSize,
      asResourceSize_asInt hsize] at htake
    rw [htakes.regions]
    exact htake
  · have htake := ha.mappings.take hlt hothers.mappingsOf (mappingsOf_disabled hdisabled)
    rw [mappingsOf, if_pos henabled, htakes.remoteVirtShm, htakes.localVirtShm, hhw₂,
      hmscm] at htake
    rw [htakes.mappings]
    exact htake
  · rw [hos₂, ← hos₁]
    exact KernelOs.step_inv (hos₁ ▸ ha.irqTable) hirq (if_pos hlt)
  · intro n hn
    have hlist : s₂.os.ledger.irqs = _ := (congrArg IrqTable.irqs htable).trans hirqs
    rw [hlist] at hn
    split at hn
    · rename_i hnew
      rcases List.mem_cons.mp hn with rfl | hn
      · exact hirqNum.resolve_left hnew.2
      · exact ha.irqs_pos n hn
    · exact ha.irqs_pos n hn
  · intro i hi
    rw [hinUse, Finset.mem_insert] at hi
    by_cases hne : i = inst
    · subst hne
      have hself : (s₂.os.id i).irqNum = irq := by
        have hirqNum := congrFun ((congrArg IrqTable.irqNum htable).trans hnum) i
        rwa [Function.update_self] at hirqNum
      rw [hself, htakes.localVirtShm]
      exact ⟨hirqNum, hwindows.1.2.1⟩
    · rw [hothers.os i hne]
      exact ha.usable i (hi.resolve_left hne)

/-- **One that fails in the OS layer takes nothing.** -/
theorem Accounted.osFailed (ha : s.Accounted) (hlt : inst < ipcShmMaxInstances)
    (hfree : inst ∉ s.inUse) (hr : Recoverable r inst cfg s)
    (hhw : s.ipcHwInit r.mapIntc inst cfg = (0, s₁))
    (hirq : s₁.os.Careful (.init r.os inst cfg true))
    (hos : s₁.ipcOsInit r.os inst cfg = ((e, os), s₂)) (he : e ≠ 0) :
    (s₂.ipcHwFree inst).Accounted ∧ (s₂.ipcHwFree inst).inUse = s.inUse := by
  obtain ⟨hne, -⟩ | ⟨-, hc, hos₁, hmscm⟩ := hr.ipcHwInit hhw
  · exact absurd rfl hne
  have hfailed : failed r inst cfg s = s₂.ipcHwFree inst := by
    rw [failed, hhw]
    dsimp only
    rw [if_neg (not_not.mpr rfl), hos]
    exact if_pos he
  have hledger := (ledger_failed_iff hlt).mpr hr
  rw [hfailed] at hledger
  have hothers : SameOthers inst s (s₂.ipcHwFree inst) :=
    (sameOthers_init hhw hos).trans sameOthers_ipcHwFree
  obtain ⟨herr, -, hos₂, -⟩ := ipcOsInit_inv hos
  have hinv : s₂.os.irqTable.Inv := by
    rw [hos₂]
    exact KernelOs.step_inv (hos₁ ▸ ha.irqTable) hirq (if_pos hlt)
  have hdisabled := state_of_notMem_inUse hlt hfree
  have hstate : ((s₂.ipcHwFree inst).os.id inst).state = .disabled := by
    have hkept := KernelOs.state_ipcOsInit_of_ne hlt (herr.trans_ne he)
    rw [← hos₂, hos₁] at hkept
    exact (congrFun hkept inst).trans hdisabled
  have hinUse : (s₂.ipcHwFree inst).inUse = s.inUse := by
    rw [hothers.inUse_erase hstate, Finset.erase_eq_of_notMem hfree]
  have hregions : ∀ j, (s₂.ipcHwFree inst).regionsOf j = s.regionsOf j := by
    intro j
    by_cases hj : j = inst
    · rw [hj, regionsOf_disabled hstate, regionsOf_disabled hdisabled]
    · exact hothers.regionsOf j hj
  have hmappings : ∀ j, (s₂.ipcHwFree inst).mappingsOf j = s.mappingsOf j := by
    intro j
    by_cases hj : j = inst
    · rw [hj, mappingsOf_disabled hstate, mappingsOf_disabled hdisabled]
    · exact hothers.mappingsOf j hj
  refine ⟨⟨?_, ?_, hinv, ?_, ?_⟩, hinUse⟩
  · rw [hledger]
    exact ha.regions.congr hregions
  · rw [hledger]
    exact ha.mappings.congr hmappings
  · rw [hledger]
    exact ha.irqs_pos
  · intro i hi
    rw [hinUse] at hi
    rw [hothers.os i (fun hne => hfree (hne ▸ hi))]
    exact ha.usable i hi

end Init

/-! ## The driver -/

/-- **The driver knows which instances are in use**, and everything on the ledger
is theirs. -/
structure Kept (d : Driver) (s : KernelSys) : Prop extends Accounted s where
  global : ∀ i < ipcShmMaxInstances,
    (d.priv i).global = if i ∈ s.inUse then (s.os.id i).localVirtShm else 0

/-- The outcomes a request is answered with, if it is an initialization. -/
def repliesTo (r : ℕ → InstanceReplies) : Op → InstanceReplies
  | .ipcHwInit inst _ | .ipcOsInit inst _ => r inst
  | _ => r 0

/-- **What is asked of a run.** An initialization is recoverable, enters an
interrupt number only where it may be entered, and reports that it failed. The
state of an instance in use is written by the driver only, and no call is made
while it initializes the instance or frees it. -/
def Undisturbed (r : ℕ → InstanceReplies) : (o : Op) → KernelSys → o.Ret → Prop
  | .ipcHwInit inst cfg, s, _ => Recoverable (r inst) inst cfg s
  | .ipcOsInit inst cfg, s, _ => s.os.Careful (.init (r inst).os inst cfg true) ∧
    ¬s.os.irqTable.Unreported (r inst).os inst cfg
  | .load n a, s, v =>
    n = 8 → ∀ i ∈ s.inUse, a = (s.os.id i).localVirtShm → v ≠ ipcShmStateClear
  | _, _, _ => True

/-- How the system answers the driver in a run. -/
def serves (r : ℕ → InstanceReplies) (o : Op) (s : KernelSys) (ret : o.Ret) (s' : KernelSys) :
    Prop :=
  answers (repliesTo r o) o s ret s' ∧ Undisturbed r o s ret

/-- A request a release may make. -/
def ofRelease : Op → KernelSys → Prop
  | .ipcHwIrqDisable _, _ | .ipcOsFree _, _ | .ipcHwFree _, _ => True
  | o, _ => o.IsAccess

section Driver

variable {r : ℕ → InstanceReplies} {d : Driver}

theorem serves_memory (o : Op) (ret : o.Ret) (t : KernelSys) (ho : o.IsMemory)
    (h : serves r o s ret t) : True ∧ t = s :=
  ⟨trivial, answers_memory o s ret t ho h.1⟩

theorem ofRelease_of_isAccess (o : Op) (ho : o.IsAccess) : ofRelease o s := by
  cases o <;> trivial

/-- A release can always be served. -/
theorem exists_serves (o : Op) (s : KernelSys) (ho : ofRelease o s) :
    ∃ ret s', serves r o s ret s' := by
  have hready : ipcShmStateReady < 2 ^ (8 * 8) := by decide
  have hclear : ipcShmStateReady ≠ ipcShmStateClear := by decide
  cases o with
  | load n a =>
    by_cases hn : n = 8
    · subst hn
      exact ⟨ipcShmStateReady, s, ⟨hready, rfl⟩, fun _ _ _ _ => hclear⟩
    · exact ⟨0, s, ⟨Nat.two_pow_pos _, rfl⟩, fun h => absurd h hn⟩
  | memcpyFrom a n => exact ⟨List.replicate n 0, s, ⟨List.length_replicate, rfl⟩, trivial⟩
  | store n a v => exact ⟨(), s, rfl, trivial⟩
  | memcpyTo a bs => exact ⟨(), s, rfl, trivial⟩
  | ipcHwIrqDisable i => exact ⟨(), _, rfl, trivial⟩
  | ipcOsFree i => exact ⟨(), _, rfl, trivial⟩
  | ipcHwFree i => exact ⟨(), _, rfl, trivial⟩
  | _ => exact ho.elim

/-- A call about one instance. -/
theorem Kept.setPriv {p : IpcShmPriv} (hk : Kept d s) (ha : s'.Accounted)
    (hothers : SameOthers inst s s')
    (hp : p.global = if inst ∈ s'.inUse then (s'.os.id inst).localVirtShm else 0) :
    Kept (d.setPriv inst p) s' := by
  refine ⟨ha, fun i hi => ?_⟩
  by_cases hne : i = inst
  · subst hne
    rw [← hp]
    exact congrArg IpcShmPriv.global (Function.update_self _ _ _)
  · have hiff : i ∈ s'.inUse ↔ i ∈ s.inUse := by rw [mem_inUse, mem_inUse, hothers.os i hne]
    have hpriv : (d.setPriv inst p).priv i = d.priv i := Function.update_of_ne hne _ _
    rw [hpriv, hk.global i hi, hothers.os i hne]
    exact (if_congr hiff rfl rfl).symm

theorem Kept.congr {d' : Driver} (hk : Kept d s) (hpriv : d'.priv = d.priv) : Kept d' s :=
  ⟨hk.toAccounted, fun i hi => by rw [hpriv, hk.global i hi]⟩

/-- An instance is found in use exactly if it is. -/
theorem ipcInstanceIsFree_wp (hk : Kept d s) (inst : ℕ) :
    (ipcInstanceIsFree d inst).wp (Program.demonic ofRelease (serves r))
      (fun state t => (state = .used ↔ inst ∈ s.inUse) ∧ t = s) s := by
  unfold ipcInstanceIsFree
  split
  · rename_i hge
    exact ⟨iff_of_false (by decide) (fun hc => by have := (mem_inUse.mp hc).1; omega), rfl⟩
  rename_i hlt
  have hglobal := hk.global inst (by omega)
  split
  · rename_i hzero
    refine ⟨iff_of_false (by decide) (fun hc => ?_), rfl⟩
    rw [if_pos hc, hzero] at hglobal
    exact (hk.usable inst hc).2 hglobal.symm
  rename_i hne
  have hin : inst ∈ s.inUse := by
    by_contra hno
    rw [if_neg hno] at hglobal
    exact hne hglobal
  rw [if_pos hin] at hglobal
  rw [load64_bind]
  refine ⟨trivial, fun v t hv => ?_⟩
  obtain ⟨⟨-, rfl⟩, hclear⟩ := hv
  dsimp only
  rw [if_neg (hclear rfl inst hin hglobal)]
  exact ⟨iff_of_true rfl hin, rfl⟩

/-- **A release leaves the other instances in use**, and gives back what the
instance held. -/
theorem ipcShmFreeInstance_wp (hk : Kept d s) (inst : ℕ) :
    (ipcShmFreeInstance d inst).wp (Program.demonic ofRelease (serves r))
      (fun d' t => Kept d' t ∧ t.inUse = s.inUse.erase inst) s := by
  unfold ipcShmFreeInstance
  rw [Program.wp_bind]
  refine Program.wp_mono Program.monotone_demonic _ ?_ (ipcInstanceIsFree_wp hk inst)
  rintro state t ⟨hstate, rfl⟩
  split
  · rename_i hno
    exact ⟨hk, (Finset.erase_eq_of_notMem (fun hin => hno (hstate.mpr hin))).symm⟩
  rename_i hused
  have hin := hstate.mp (not_not.mp hused)
  dsimp only
  rw [store64_bind]
  refine ⟨trivial, fun _ s₁ h₁ => ?_⟩
  obtain ⟨rfl, -⟩ : s₁ = t ∧ True := h₁
  rw [ipcHwIrqDisable_bind]
  refine ⟨trivial, fun _ s₂ h₂ => ?_⟩
  obtain ⟨rfl, -⟩ : s₂ = { s₁ with hw := s₁.hw.ipcHwIrqDisable inst } ∧ True := h₂
  -- the channels are freed in memory
  dsimp only
  rw [Program.wp_bind]
  refine Program.wp_mono Program.monotone_demonic _ ?_
    ((Program.Always.and (accesses_freeChannels _ _ _ _) (freeChannels_header _ _ _ _)).wp_still
      (fun o ho => ofRelease_of_isAccess o ho.1)
      (fun o ret u ho hu => serves_memory o ret u ho.1.isMemory hu))
  rintro priv s₃ ⟨⟨-, -, hglobal⟩, rfl⟩
  rw [ipcOsFree_bind]
  refine ⟨trivial, fun _ s₄ h₄ => ?_⟩
  obtain ⟨rfl, -⟩ : s₄ = KernelSys.ipcOsFree _ inst ∧ True := h₄
  dsimp only
  rw [ipcHwFree_bind]
  refine ⟨trivial, fun _ s₅ h₅ => ?_⟩
  obtain ⟨rfl, -⟩ : s₅ = KernelSys.ipcHwFree _ inst ∧ True := h₅
  have hdisabled : SameOthers inst s₁ { s₁ with hw := s₁.hw.ipcHwIrqDisable inst } :=
    sameOthers_ipcHwIrqDisable
  have haccounted : ({ s₁ with hw := s₁.hw.ipcHwIrqDisable inst } : KernelSys).Accounted :=
    accounted_of_hw hk.toAccounted (KernelHw.route_priv _ _)
  obtain ⟨ha, hinUse⟩ := haccounted.free hin
  refine ⟨hk.setPriv ha (hdisabled.trans (sameOthers_ipcOsFree.trans sameOthers_ipcHwFree)) ?_,
    hinUse⟩
  rw [hinUse, if_neg (Finset.notMem_erase inst _)]
  exact hglobal

/-- **An initialization leaves the other instances in use**, and the instance is
in use after it exactly if it succeeds. -/
theorem ipcShmInitInstance_wp (hk : Kept d s) (inst : ℕ) (cfg : Option IpcShmCfg) :
    (ipcShmInitInstance d inst cfg).wp (Program.demonic (fun _ _ => True) (serves r))
      (fun res t => Kept res.2 t ∧
        t.inUse = if res.1 = 0 then insert inst s.inUse else s.inUse) s := by
  have hinval : -EINVAL ≠ 0 := by decide
  unfold ipcShmInitInstance
  rw [Program.wp_bind]
  refine Program.wp_mono Program.monotone_demonic _ ?_
    (Program.wp_demonic_mono (fun _ _ _ => trivial) (ipcInstanceIsFree_wp hk inst))
  rintro state t ⟨hstate, rfl⟩
  split
  · exact ⟨hk, (if_neg hinval).symm⟩
  rename_i hfree
  rw [hstate] at hfree
  cases cfg with
  | none => exact ⟨hk, (if_neg hinval).symm⟩
  | some cfg =>
  dsimp only
  split
  · exact ⟨hk, (if_neg hinval).symm⟩
  split
  · exact ⟨hk, (if_neg hinval).symm⟩
  split
  · exact ⟨trivial, fun e => nomatch e⟩
  rename_i hge
  have hlt : inst < ipcShmMaxInstances := by omega
  rw [ipcHwInit_bind]
  refine ⟨trivial, fun e₁ s₁ h₁ => ?_⟩
  obtain ⟨hhw, hr⟩ : t.ipcHwInit (r inst).mapIntc inst cfg = (e₁, s₁) ∧
    Recoverable (r inst) inst cfg t := h₁
  dsimp only
  split
  · -- the controller could not be mapped
    rename_i he₁
    obtain ⟨-, rfl⟩ | ⟨hok, -⟩ := hr.ipcHwInit hhw
    · exact ⟨hk.setPriv hk.toAccounted .refl (hk.global inst hlt), (if_neg he₁).symm⟩
    · exact absurd hok he₁
  rename_i he₁
  rw [not_not.mp he₁] at hhw
  rw [ipcOsInit_bind]
  refine ⟨trivial, fun res s₂ h₂ => ?_⟩
  obtain ⟨e₂, os⟩ := res
  obtain ⟨hos, hirq, hreported⟩ : s₁.ipcOsInit (r inst).os inst cfg = ((e₂, os), s₂) ∧
    s₁.os.Careful (.init (r inst).os inst cfg true) ∧
    ¬s₁.os.irqTable.Unreported (r inst).os inst cfg := h₂
  dsimp only
  split
  · rename_i he₂
    rw [ipcHwFree_bind]
    refine ⟨trivial, fun _ s₃ h₃ => ?_⟩
    obtain ⟨rfl, -⟩ : s₃ = s₂.ipcHwFree inst ∧ True := h₃
    obtain ⟨ha, hinUse⟩ := hk.toAccounted.osFailed hlt hfree hr hhw hirq hos he₂
    refine ⟨hk.setPriv ha ((sameOthers_init hhw hos).trans sameOthers_ipcHwFree) ?_,
      hinUse.trans (if_neg he₂).symm⟩
    rw [hinUse, if_neg hfree]
    exact (hk.global inst hlt).trans (if_neg hfree)
  rename_i he₂
  rw [not_not.mp he₂] at hos
  obtain ⟨ha, hinUse, hlocal⟩ := hk.toAccounted.init hlt hfree hr hhw hirq hreported hos
  have hin : inst ∈ s₂.inUse := by
    rw [hinUse]
    exact Finset.mem_insert_self _ _
  -- the channels are initialized in memory
  rw [store64_bind]
  refine ⟨trivial, fun _ s₃ h₃ => ?_⟩
  obtain ⟨rfl, -⟩ : s₃ = s₂ ∧ True := h₃
  dsimp only
  rw [Program.wp_bind]
  refine Program.wp_mono Program.monotone_demonic _ ?_
    ((Program.Always.and (inMemory_initChannels _ _ _ _ _ _ _)
      (initChannels_header _ _ _ _ _ _ _)).wp_still (fun _ _ => trivial)
      (fun o ret u ho hu => serves_memory o ret u ho.1 hu))
  rintro ⟨e₃, priv⟩ s₄ ⟨⟨-, -, hglobal⟩, rfl⟩
  dsimp only at hglobal ⊢
  split
  · rename_i he₃
    rw [Program.wp_bind]
    refine Program.wp_mono Program.monotone_demonic _ ?_
      ((Program.Always.and (accesses_freeConfiguredChannels _ _)
        (freeConfiguredChannels_header _ _)).wp_still (fun _ _ => trivial)
        (fun o ret u ho hu => serves_memory o ret u ho.1.isMemory hu))
    rintro priv' s₅ ⟨⟨-, -, hzero⟩, rfl⟩
    rw [ipcOsFree_bind]
    refine ⟨trivial, fun _ s₆ h₆ => ?_⟩
    obtain ⟨rfl, -⟩ : s₆ = s₅.ipcOsFree inst ∧ True := h₆
    dsimp only
    rw [ipcHwFree_bind]
    refine ⟨trivial, fun _ s₇ h₇ => ?_⟩
    obtain ⟨rfl, -⟩ : s₇ = (s₅.ipcOsFree inst).ipcHwFree inst ∧ True := h₇
    obtain ⟨ha', hinUse'⟩ := ha.free hin
    have hback : ((s₅.ipcOsFree inst).ipcHwFree inst).inUse = t.inUse := by
      rw [hinUse', hinUse, Finset.erase_insert hfree]
    refine ⟨Kept.congr (hk.setPriv (p := priv') ha' ((sameOthers_init hhw hos).trans
      (sameOthers_ipcOsFree.trans sameOthers_ipcHwFree)) ?_) (Function.update_idem _ _ _),
      hback.trans (if_neg he₃).symm⟩
    rw [hback, if_neg hfree]
    exact hzero
  · rename_i he₃
    rw [ipcHwIrqEnable_bind]
    refine ⟨trivial, fun _ s₅ h₅ => ?_⟩
    obtain ⟨rfl, -⟩ : s₅ = { s₄ with hw := s₄.hw.ipcHwIrqEnable inst } ∧ True := h₅
    dsimp only
    rw [store64_bind]
    refine ⟨trivial, fun _ s₆ h₆ => ?_⟩
    obtain ⟨rfl, -⟩ : s₆ = { s₄ with hw := s₄.hw.ipcHwIrqEnable inst } ∧ True := h₆
    refine ⟨Kept.congr (hk.setPriv (p := priv) (accounted_of_hw ha (KernelHw.route_priv _ _))
      ((sameOthers_init hhw hos).trans sameOthers_ipcHwIrqEnable) ?_) (Function.update_idem _ _ _),
      hinUse.trans (if_pos rfl).symm⟩
    refine hglobal.trans (hlocal.trans (if_pos hin).symm)

/-! The loops over the instances: what one call does, added up. -/

theorem freeInstances_wp (n inst : ℕ) (hk : Kept d s) :
    (freeInstances n inst d).wp (Program.demonic ofRelease (serves r))
      (fun d' t => Kept d' t ∧ t.inUse = s.inUse \ Finset.Ico inst (inst + n)) s := by
  induction n generalizing inst d s with
  | zero =>
    refine ⟨hk, ?_⟩
    rw [Nat.add_zero, Finset.Ico_self, Finset.sdiff_empty]
  | succ n ih =>
    have hsplit : s.inUse \ Finset.Ico inst (inst + (n + 1)) =
        s.inUse.erase inst \ Finset.Ico (inst + 1) (inst + 1 + n) := by
      ext i
      rw [Finset.mem_sdiff, Finset.mem_sdiff, Finset.mem_erase, Finset.mem_Ico, Finset.mem_Ico]
      grind
    unfold freeInstances
    rw [Program.wp_bind]
    refine Program.wp_mono Program.monotone_demonic _ ?_ (ipcInstanceIsFree_wp hk inst)
    rintro state t ⟨hstate, rfl⟩
    rw [hsplit]
    split
    · rw [Program.wp_bind]
      refine Program.wp_mono Program.monotone_demonic _ ?_ (ipcShmFreeInstance_wp hk inst)
      rintro d' t' ⟨hk', hinUse⟩
      rw [← hinUse]
      exact ih (inst + 1) hk'
    · rename_i hno
      rw [Finset.erase_eq_of_notMem (fun hin => hno (hstate.mpr hin))]
      exact ih (inst + 1) hk

theorem initInstances_wp (shmCfg : Option (ℕ → IpcShmCfg)) (n inst : ℕ) (hk : Kept d s) :
    (initInstances shmCfg n inst d).wp (Program.demonic (fun _ _ => True) (serves r))
      (fun res t => Kept res.2 t ∧
        (res.1 = 0 → t.inUse = s.inUse ∪ Finset.Ico inst (inst + n)) ∧
        (res.1 ≠ 0 → ∃ k ∈ Finset.Ico inst (inst + n), k ∉ s.inUse ∧
          t.inUse = s.inUse ∪ Finset.Ico inst k)) s := by
  induction n generalizing inst d s with
  | zero =>
    refine ⟨hk, fun _ => ?_, fun hne => absurd rfl hne⟩
    rw [Nat.add_zero, Finset.Ico_self, Finset.union_empty]
  | succ n ih =>
    -- once the instance is in use the loop goes on
    have hnext : ∀ {d' : Driver} {t : KernelSys}, Kept d' t → t.inUse = insert inst s.inUse →
        (initInstances shmCfg n (inst + 1) d').wp (Program.demonic (fun _ _ => True) (serves r))
          (fun res t => Kept res.2 t ∧
            (res.1 = 0 → t.inUse = s.inUse ∪ Finset.Ico inst (inst + (n + 1))) ∧
            (res.1 ≠ 0 → ∃ k ∈ Finset.Ico inst (inst + (n + 1)), k ∉ s.inUse ∧
              t.inUse = s.inUse ∪ Finset.Ico inst k)) t := by
      intro d' t hk' hinUse
      have hgrow : ∀ k, inst < k →
          t.inUse ∪ Finset.Ico (inst + 1) k = s.inUse ∪ Finset.Ico inst k := by
        intro k hlt
        rw [hinUse]
        ext i
        rw [Finset.mem_union, Finset.mem_union, Finset.mem_insert, Finset.mem_Ico, Finset.mem_Ico]
        grind
      refine Program.wp_mono Program.monotone_demonic _ ?_ (ih (inst + 1) hk')
      rintro res u ⟨hk'', hok, herr⟩
      refine ⟨hk'', fun hz => ?_, fun hne => ?_⟩
      · rw [hok hz, hgrow _ (by omega), Nat.add_assoc, Nat.add_comm 1 n]
      · obtain ⟨k, hmem, hk, hu⟩ := herr hne
        rw [Finset.mem_Ico] at hmem
        rw [hinUse, Finset.mem_insert, not_or] at hk
        exact ⟨k, Finset.mem_Ico.mpr ⟨by omega, by omega⟩, hk.2, hu.trans (hgrow k (by omega))⟩
    unfold initInstances
    rw [Program.wp_bind]
    refine Program.wp_mono Program.monotone_demonic _ ?_
      (Program.wp_demonic_mono (fun _ _ _ => trivial) (ipcInstanceIsFree_wp hk inst))
    rintro state t ⟨hstate, rfl⟩
    split
    · rename_i hused
      exact hnext hk (Finset.insert_eq_of_mem (hstate.mp hused)).symm
    rename_i hfree
    split
    · exact ⟨trivial, fun e => nomatch e⟩
    rw [Program.wp_bind]
    refine Program.wp_mono Program.monotone_demonic _ ?_ (ipcShmInitInstance_wp hk inst _)
    rintro ⟨err, d'⟩ u ⟨hk', hinUse⟩
    dsimp only at hk' hinUse ⊢
    split
    · rename_i hne
      rw [if_neg hne] at hinUse
      refine ⟨hk', fun hz => absurd hz hne, fun _ => ⟨inst, ?_, ?_, ?_⟩⟩
      · exact Finset.mem_Ico.mpr ⟨le_rfl, by omega⟩
      · exact fun hin => hfree (hstate.mpr hin)
      · rw [hinUse, Finset.Ico_self, Finset.union_empty]
    · rename_i hz
      rw [if_pos (not_not.mp hz)] at hinUse
      exact hnext hk' hinUse

end Driver

/-! ## Runs -/

/-- The calls that bring instances up and down, each with any arguments, any
outcomes of what it asks the system for and any content of the shared memory. -/
inductive Step : Driver × KernelSys → Driver × KernelSys → Prop where
  | initInstance {r d s inst cfg err d' s'}
      (h : (ipcShmInitInstance d inst cfg).Exec (serves r) s (err, d') s') : Step (d, s) (d', s')
  | init {r d s cfg err d' s'}
      (h : (ipcShmInit d cfg).Exec (serves r) s (err, d') s') : Step (d, s) (d', s')
  | freeInstance {r d s inst d' s'}
      (h : (ipcShmFreeInstance d inst).Exec (serves r) s d' s') : Step (d, s) (d', s')
  | free {r d s d' s'} (h : (ipcShmFree d).Exec (serves r) s d' s') : Step (d, s) (d', s')

/-- A state after any such calls, from a driver that was just loaded, with any
content of the controller. -/
def Reached (hw : KernelHw) (d : Driver) (s : KernelSys) : Prop :=
  Relation.ReflTransGen Step ({}, { hw := hw }) (d, s)

section Runs

variable {r : ℕ → InstanceReplies} {hw : KernelHw} {d d' : Driver}

theorem ipcShmInit_wp (hk : Kept d s) (cfg : Option IpcShmInstancesCfg) :
    (ipcShmInit d cfg).wp (Program.demonic (fun _ _ => True) (serves r))
      (fun res t => Kept res.2 t) s := by
  unfold ipcShmInit
  cases cfg with
  | none => exact hk
  | some cfg =>
    dsimp only
    split
    · exact hk
    · exact Program.wp_mono Program.monotone_demonic _ (fun _ _ h => h.1)
        (initInstances_wp _ _ _ hk)

theorem Kept.step {p q : Driver × KernelSys} (hk : Kept p.1 p.2) (hstep : Step p q) :
    Kept q.1 q.2 := by
  cases hstep with
  | initInstance h => exact (h.of_wp (ipcShmInitInstance_wp hk _ _)).1
  | init h => exact h.of_wp (ipcShmInit_wp hk _)
  | freeInstance h => exact (h.of_wp (ipcShmFreeInstance_wp hk _)).1
  | free h => exact (h.of_wp (freeInstances_wp _ _ hk)).1

theorem kept_initial : Kept {} { hw := hw } where
  regions := Holdings.balanced_nil (fun _ _ => rfl)
  mappings := Holdings.balanced_nil (fun _ _ => rfl)
  irqTable := by
    refine ⟨⟨fun irq _ hc => ?_, fun _ _ _ => rfl, rfl⟩, fun i _ _ hpos => ?_⟩
    · obtain ⟨i, -, hs, -⟩ := hc
      cases hs
    · exact absurd hpos (Int.lt_irrefl 0)
  irqs_pos := fun _ hirq => absurd hirq List.not_mem_nil
  usable := fun i hi => by
    have hs := (mem_inUse.mp hi).2
    cases hs
  global := fun i _ => (if_neg (fun hi => by
    have hs := (mem_inUse.mp hi).2
    cases hs)).symm

theorem Reached.kept (h : Reached hw d s) : Kept d s := by
  have hall : ∀ q, Relation.ReflTransGen Step ({}, { hw := hw }) q → Kept q.1 q.2 := by
    intro q hq
    induction hq with
    | refl => exact kept_initial
    | tail _ hstep ih => exact ih.step hstep
  exact hall _ h

instance instDecidableRecoverable (r : InstanceReplies) (inst : ℕ) (cfg : IpcShmCfg)
    (s : KernelSys) : Decidable (Recoverable r inst cfg s) :=
  inferInstanceAs (Decidable (s.os.Unused r.mapIntc → KernelHw.Accepts s.hw.mscm cfg ∧
    ((s.os.remap r.mapIntc).Maps r.os.requestLocal r.os.ioremapLocal →
      if (s.os.remap r.mapIntc).WindowsMapped r.os then
        if s.os.irqTable.Unreported r.os inst cfg then (_ ∧ _) ∧ (_ ∧ _) ∧ _
        else if s.os.irqTable.Fails r.os inst cfg then _ ∨ _ else _
      else _)))

/-- One way to serve a run. -/
def serve (r : ℕ → InstanceReplies) : (o : Op) → KernelSys → Option (o.Ret × KernelSys)
  | .ipcHwInit inst cfg, s =>
    if Recoverable (r inst) inst cfg s then some (s.ipcHwInit (r inst).mapIntc inst cfg) else none
  | .ipcOsInit inst cfg, s =>
    if s.os.Careful (.init (r inst).os inst cfg true) ∧
      ¬s.os.irqTable.Unreported (r inst).os inst cfg then some (s.ipcOsInit (r inst).os inst cfg)
    else none
  | .ipcHwFree inst, s => some ((), s.ipcHwFree inst)
  | .ipcHwIrqEnable inst, s => some ((), { s with hw := s.hw.ipcHwIrqEnable inst })
  | .ipcHwIrqDisable inst, s => some ((), { s with hw := s.hw.ipcHwIrqDisable inst })
  | .ipcOsFree inst, s => some ((), s.ipcOsFree inst)
  | .load n _, s => some (if n = 8 then ipcShmStateReady else 0, s)
  | .store _ _ _, s => some ((), s)
  | _, _ => none

theorem serves_of_serve {r : ℕ → InstanceReplies} (o : Op) (s : KernelSys) (ret : o.Ret)
    (s' : KernelSys) (h : serve r o s = some (ret, s')) : serves r o s ret s' := by
  cases o with
  | ipcHwInit inst cfg =>
    rw [serve, Option.ite_none_right_eq_some] at h
    exact ⟨Option.some.inj h.2, h.1⟩
  | ipcOsInit inst cfg =>
    rw [serve, Option.ite_none_right_eq_some] at h
    exact ⟨Option.some.inj h.2, h.1⟩
  | load n a =>
    obtain ⟨rfl, rfl⟩ := Prod.mk.inj (Option.some.inj h)
    by_cases hn : n = 8
    · subst hn
      have hready : ipcShmStateReady < 2 ^ (8 * 8) := by decide
      have hclear : ipcShmStateReady ≠ ipcShmStateClear := by decide
      exact ⟨⟨hready, rfl⟩, fun _ _ _ _ => hclear⟩
    · rw [if_neg hn]
      exact ⟨⟨Nat.two_pow_pos _, rfl⟩, fun h => absurd h hn⟩
  | ipcHwFree | ipcHwIrqEnable | ipcHwIrqDisable | ipcOsFree | store =>
    obtain ⟨-, rfl⟩ := Prod.mk.inj (Option.some.inj h)
    exact ⟨rfl, trivial⟩
  | _ => cases h

/-- Three instances with one channel each. -/
def threeInstances : IpcShmInstancesCfg where
  numInstances := 3
  shmCfg := some (fun i => { initCfg with
    localShmAddr := 0x34000000 + i * 0x200000
    remoteShmAddr := 0x34100000 + i * 0x200000
    channels := some (fun _ => .unmanaged { size := 64, rxCb := 1, cbArg := 0 }) })

/-- The first two share an interrupt, and the third does not get the controller. -/
def twoServed (i : ℕ) : InstanceReplies where
  mapIntc := if i = 2 then 0 else 0x90000000 + i * 0x1000
  os := KernelOs.granted i 33

theorem exists_threeInstances : ∃ err d s, err ≠ 0 ∧
    (ipcShmInit {} (some threeInstances)).Exec (serves twoServed) {} (err, d) s ∧
    s.inUse = {0, 1} ∧ s.os.ledger.irqs = [33] := by
  have hrun : ((ipcShmInit {} (some threeInstances)).run (serve twoServed) {}).map
      (fun x => (x.1.1, x.2.inUse, x.2.os.ledger.irqs)) = some (-22, {0, 1}, [33]) := by
    decide +kernel
  obtain ⟨⟨⟨err, d⟩, s⟩, hx, hres⟩ := Option.map_eq_some_iff.mp hrun
  obtain ⟨rfl, hres⟩ := Prod.mk.inj hres
  obtain ⟨hinUse, hirqs⟩ := Prod.mk.inj hres
  exact ⟨-22, d, s, by decide, Program.exec_of_run serves_of_serve hx, hinUse, hirqs⟩

/-- **The books are kept over every run.** At every point the regions and mappings
on the ledger are those of the instances in use, every interrupt number one of
them carries is registered once and no other is, and the driver proper finds
exactly these instances in use. -/
theorem resources_accounted (h : Reached hw d s) :
    Holdings.Balanced ipcShmMaxInstances s.regionsOf s.os.ledger.regions ∧
    Holdings.Balanced ipcShmMaxInstances s.mappingsOf s.os.ledger.mappings ∧
    s.os.irqTable.Bookkept ∧
    ∀ i < ipcShmMaxInstances, ((d.priv i).global ≠ 0 ↔ (s.os.id i).state = .enabled) := by
  have hk := h.kept
  refine ⟨hk.regions, hk.mappings, hk.irqTable.toBookkept, fun i hi => ?_⟩
  rw [hk.global i hi]
  by_cases hin : i ∈ s.inUse
  · rw [if_pos hin]
    exact iff_of_true (hk.usable i hin).2 (mem_inUse.mp hin).2
  · rw [if_neg hin]
    exact iff_of_false (not_not.mpr rfl) (fun hs => hin (mem_inUse.mpr ⟨hi, hs⟩))

theorem resources_accounted_three : ∃ d s, Reached {} d s ∧ s.inUse = {0, 1} ∧
    Holdings.Balanced ipcShmMaxInstances s.mappingsOf s.os.ledger.mappings := by
  obtain ⟨err, d, s, -, hexec, hinUse, -⟩ := exists_threeInstances
  have hreached : Reached {} d s := .single (.init hexec)
  exact ⟨d, s, hreached, hinUse, (resources_accounted hreached).2.1⟩

/-- **`ipc_shm_free` returns, and gives everything back**: after any run no
instance is in use, the ledger is empty, and no interrupt was given up that was
not registered. -/
theorem free_returns_everything (h : Reached hw d s) :
    (∃ d' s', (ipcShmFree d).Exec (serves r) s d' s') ∧
    ∀ d' s', (ipcShmFree d).Exec (serves r) s d' s' →
      s'.os.ledger = {} ∧ s'.os.strayFrees = [] ∧
      ∀ i < ipcShmMaxInstances, (d'.priv i).global = 0 ∧ (s'.os.id i).state = .disabled := by
  have hwp := freeInstances_wp (r := r) ipcShmMaxInstances 0 h.kept
  refine ⟨?_, fun d' s' hexec => ?_⟩
  · obtain ⟨d', s', hexec, -⟩ := Program.exists_exec_of_wp exists_serves hwp
    exact ⟨d', s', hexec⟩
  obtain ⟨hk, hinUse⟩ := hexec.of_wp hwp
  have hnone : ∀ i < ipcShmMaxInstances, i ∉ s'.inUse := by
    intro i hi
    rw [hinUse, Finset.mem_sdiff, Finset.mem_Ico]
    omega
  have hstate := fun i hi => state_of_notMem_inUse (s := s') hi (hnone i hi)
  have hirqs : s'.os.ledger.irqs = [] := by
    refine List.eq_nil_iff_forall_not_mem.mpr (fun irq hirq => ?_)
    have hzero := hk.irqTable.unregistered irq (hk.irqs_pos irq hirq) ?_
    · exact List.count_eq_zero.mp hzero hirq
    · rintro ⟨i, hi, hs, -⟩
      exact hnone i hi (mem_inUse.mpr ⟨hi, hs⟩)
  have hregions := hk.regions.eq_nil (fun i hi => regionsOf_disabled (hstate i hi))
  have hmappings := hk.mappings.eq_nil (fun i hi => mappingsOf_disabled (hstate i hi))
  refine ⟨?_, hk.irqTable.strayFrees, fun i hi => ⟨?_, hstate i hi⟩⟩
  · cases hledger : s'.os.ledger
    rw [hledger] at hirqs hregions hmappings
    dsimp only at hirqs hregions hmappings
    rw [hirqs, hregions, hmappings]
  · rw [hk.global i hi, if_neg (hnone i hi)]

theorem free_returns_everything_three : ∃ d s, Reached {} d s ∧ s.os.ledger.irqs = [33] ∧
    ∃ d' s', (ipcShmFree d).Exec (serves twoServed) s d' s' ∧ s'.os.ledger = {} := by
  obtain ⟨err, d, s, -, hexec, -, hirqs⟩ := exists_threeInstances
  have hreached : Reached {} d s := .single (.init hexec)
  obtain ⟨⟨d', s', hfree⟩, hall⟩ := free_returns_everything (r := twoServed) hreached
  exact ⟨d, s, hreached, hirqs, d', s', hfree, (hall d' s' hfree).1⟩

/-- **`ipc_shm_init` brings the instances up in order** and does not bring them
down again: if it succeeds all of them are in use, and if it fails it does so at
an instance that was not in use, with all before it in use and the others as
they were. -/
theorem init_in_order (h : Reached hw d s) {cfg : IpcShmInstancesCfg} {err : ℤ}
    (hnum : 1 ≤ cfg.numInstances.toNat ∧ cfg.numInstances.toNat ≤ ipcShmMaxInstances)
    (hexec : (ipcShmInit d (some cfg)).Exec (serves r) s (err, d') s') :
    (err = 0 → s'.inUse = s.inUse ∪ Finset.range cfg.numInstances.toNat) ∧
    (err ≠ 0 → ∃ k < cfg.numInstances.toNat, k ∉ s.inUse ∧
      s'.inUse = s.inUse ∪ Finset.range k) := by
  unfold ipcShmInit at hexec
  dsimp only at hexec
  rw [if_neg (not_or.mpr ⟨by omega, by omega⟩)] at hexec
  obtain ⟨-, hok, herr⟩ := hexec.of_wp (initInstances_wp _ _ _ h.kept)
  simp only [Finset.range_eq_Ico, Nat.zero_add] at hok herr ⊢
  refine ⟨hok, fun hne => ?_⟩
  obtain ⟨k, hmem, hk⟩ := herr hne
  exact ⟨k, (Finset.mem_Ico.mp hmem).2, hk⟩

theorem init_in_order_three : ∃ err d s, err ≠ 0 ∧
    (ipcShmInit {} (some threeInstances)).Exec (serves twoServed) {} (err, d) s ∧
    ∃ k < 3, s.inUse = Finset.range k := by
  obtain ⟨err, d, s, herr, hexec, -, -⟩ := exists_threeInstances
  have hstart : Reached {} {} {} := .refl
  obtain ⟨k, hk, -, hinUse⟩ := (init_in_order hstart ⟨by decide, by decide⟩ hexec).2 herr
  refine ⟨err, d, s, herr, hexec, k, hk, hinUse.trans ?_⟩
  exact Finset.empty_union _

end Runs

end KernelSys
