import IpcShm.OsCalls
import IpcShm.Interrupts
import IpcShm.Controller

/-!
# Initializations that fail

An initialization takes from the system as it goes: the mapping of the
interrupt controller, two regions and two mappings, and the registration of an
interrupt. When it fails it has to give back what it took, and a ledger of the
system tells whether it did.

It does not in three places. The HW layer maps the controller and then checks
the configuration, and a check that fails leaves the mapping. The error path of
the OS layer unmaps the physical addresses of the windows instead of the virtual
ones. And the OS layer keeps the size of the windows in an `int`, so that the
regions of a window of 2 GiB or more are released with a size they were not
reserved with.

A fourth needs a `request_irq` that fails with a multiple of 256. The OS layer
returns its error as an `int8_t`, and this one is zero: the driver goes on, and
when a channel fails it releases the instance a second time, with whatever
others hold at the same addresses and under the same number.

`init_rollback_iff` says that these are all: for each configuration and each
outcome of the calls to the system, a failed initialization leaves the ledger as
it was exactly if none of them is met.
-/

/-! ## What the OS layer leaves -/

/-- **The interrupt of an instance cannot be used**: it is not in the device tree,
or the handler cannot be registered for it. -/
def IrqTable.Fails (t : IrqTable) (r : KernelInitReplies) (inst : ℕ) (cfg : IpcShmCfg) : Prop :=
  cfg.interCoreRxIrq ≠ ipcIrqNone ∧
    (r.ofFindCompatibleNode = false ∨ r.ofIrqGet ≤ 0 ∨
      (¬t.Shared inst r.ofIrqGet ∧ r.requestIrq ≠ 0))

instance (t : IrqTable) (r : KernelInitReplies) (inst : ℕ) (cfg : IpcShmCfg) :
    Decidable (t.Fails r inst cfg) := inferInstanceAs (Decidable (_ ∧ (_ ∨ _ ∨ _)))

/-- **And it is reported as a success**: the registration fails, with an error
number that an `int8_t` does not tell from zero. -/
def IrqTable.Unreported (t : IrqTable) (r : KernelInitReplies) (inst : ℕ) (cfg : IpcShmCfg) :
    Prop :=
  t.Fails r inst cfg ∧ r.ofFindCompatibleNode = true ∧ 0 < r.ofIrqGet ∧ asInt8 r.requestIrq = 0

instance (t : IrqTable) (r : KernelInitReplies) (inst : ℕ) (cfg : IpcShmCfg) :
    Decidable (t.Unreported r inst cfg) := inferInstanceAs (Decidable (_ ∧ _ ∧ _ ∧ _))

namespace IrqTable

variable {t : IrqTable} {r : KernelInitReplies} {inst : ℕ} {cfg : IpcShmCfg}

/-- What an initialization whose interrupt can be used does: the instance is
enabled, and a number is entered, and registered unless there is none or another
instance carries it. -/
theorem initMapped_of_not_fails (h : ¬t.Fails r inst cfg) :
    (t.initMapped r inst cfg).state = Function.update t.state inst .enabled ∧
    ∃ irq, (irq = ipcIrqNone ∨ 0 < irq) ∧ (t.initMapped r inst cfg).irqNum =
        Function.update t.irqNum inst irq ∧
      (t.initMapped r inst cfg).irqs =
        if ¬t.Shared inst irq ∧ irq ≠ ipcIrqNone then irq :: t.irqs else t.irqs := by
  unfold initMapped KernelOs.irqWritten
  by_cases hrx : cfg.interCoreRxIrq = ipcIrqNone
  · rw [if_pos hrx]
    dsimp only
    rw [decide_eq_true (Or.inl hrx), init, if_neg (by decide)]
    have hno : ¬(¬t.Shared inst ipcIrqNone ∧ ipcIrqNone ≠ ipcIrqNone) := fun hc => hc.2 rfl
    split
    · exact ⟨rfl, ipcIrqNone, Or.inl rfl, rfl, (if_neg hno).symm⟩
    · rw [if_pos rfl]
      exact ⟨rfl, ipcIrqNone, Or.inl rfl, rfl, (if_neg hno).symm⟩
  have husable : ¬(r.ofFindCompatibleNode = false ∨ r.ofIrqGet ≤ 0 ∨
      (¬t.Shared inst r.ofIrqGet ∧ r.requestIrq ≠ 0)) := fun hf => h ⟨hrx, hf⟩
  rw [not_or, not_or, Bool.not_eq_false, not_le] at husable
  obtain ⟨hnode, hpos, hreg⟩ := husable
  have hnone : r.ofIrqGet ≠ ipcIrqNone := by
    have hneg : ipcIrqNone < 0 := by decide
    omega
  rw [if_neg hrx, if_pos hnode]
  dsimp only
  rw [decide_eq_true (Or.inr hpos), init, if_neg (by decide)]
  by_cases hshared : t.Shared inst r.ofIrqGet
  · rw [if_pos hshared]
    exact ⟨rfl, r.ofIrqGet, Or.inr hpos, rfl, (if_neg (fun hc => hc.1 hshared)).symm⟩
  · have hok : r.requestIrq = 0 := not_not.mp (fun hne => hreg ⟨hshared, hne⟩)
    rw [if_neg hshared, if_neg hnone, if_pos hok]
    exact ⟨rfl, r.ofIrqGet, Or.inr hpos, rfl, (if_pos ⟨hshared, hnone⟩).symm⟩

/-- A number that cannot be used is entered, and nothing else is done with it: -/
theorem initMapped_of_fails (h : t.Fails r inst cfg) :
    t.initMapped r inst cfg =
      if r.ofFindCompatibleNode = true then t.enter inst r.ofIrqGet else t := by
  obtain ⟨hrx, hf⟩ := h
  unfold initMapped KernelOs.irqWritten
  rw [if_neg hrx]
  by_cases hnode : r.ofFindCompatibleNode = true
  swap
  · rw [if_neg hnode, if_neg hnode]
  rw [if_pos hnode, if_pos hnode]
  dsimp only
  unfold init
  split
  · rfl
  rename_i husable
  have hpos : 0 < r.ofIrqGet :=
    (of_decide_eq_true (Bool.not_eq_false _ ▸ husable)).resolve_left hrx
  have hnone : r.ofIrqGet ≠ ipcIrqNone := by
    have hneg : ipcIrqNone < 0 := by decide
    omega
  obtain ⟨hshared, hreq⟩ := (hf.resolve_left (by rw [hnode]; decide)).resolve_left (by omega)
  rw [if_neg hshared, if_neg hnone, if_neg hreq]

/-- it is not registered, -/
theorem irqs_initMapped_of_fails (h : t.Fails r inst cfg) :
    (t.initMapped r inst cfg).irqs = t.irqs := by
  rw [initMapped_of_fails h]
  split
  · rfl
  · rfl

/-- but given up with an instance that is released all the same, -/
theorem irqs_free_initMapped_of_unreported (h : t.Unreported r inst cfg) :
    ((t.initMapped r inst cfg).free inst).irqs = t.irqs.erase r.ofIrqGet := by
  obtain ⟨hfails, hnode, hpos, -⟩ := h
  have hnone : ipcIrqNone < 0 := by decide
  have hshared : ¬t.Shared inst r.ofIrqGet :=
    ((hfails.2.resolve_left (by rw [hnode]; decide)).resolve_left (by omega)).1
  have hself : (t.enter inst r.ofIrqGet).irqNum inst = r.ofIrqGet := Function.update_self _ _ _
  rw [initMapped_of_fails hfails, if_pos hnode]
  unfold free
  dsimp only
  rw [hself, if_neg (by omega),
    if_pos ⟨fun hc => hshared (KernelOs.shared_enter.mp hc), by omega⟩]
  rfl

/-- and one that can is given up with the instance. -/
theorem irqs_free_initMapped (h : ¬t.Fails r inst cfg) :
    ((t.initMapped r inst cfg).free inst).irqs = t.irqs := by
  obtain ⟨-, irq, hirq, hnum, hirqs⟩ := initMapped_of_not_fails h
  have hself : (t.initMapped r inst cfg).irqNum inst = irq := by
    rw [hnum, Function.update_self]
  have hshared : (t.initMapped r inst cfg).Shared inst irq ↔ t.Shared inst irq := by
    unfold Shared
    refine exists_congr (fun j => and_congr_right (fun _ => and_congr_right (fun hne => ?_)))
    rw [hnum, Function.update_of_ne hne]
  unfold free
  dsimp only
  rw [hself]
  by_cases hnone : irq = ipcIrqNone
  · rw [if_pos hnone, hirqs, if_neg (fun hc => hc.2 hnone)]
  rw [if_neg hnone]
  have hpos : irq ≠ 0 := by
    have := hirq.resolve_left hnone
    omega
  by_cases hs : t.Shared inst irq
  · rw [if_neg (fun hc => hc.1 (hshared.mpr hs))]
    show (t.initMapped r inst cfg).irqs = t.irqs
    rw [hirqs, if_neg (fun hc => hc.1 hs)]
  · rw [if_pos ⟨fun hc => hs (hshared.mp hc), hpos⟩]
    show (t.initMapped r inst cfg).irqs.erase irq = t.irqs
    rw [hirqs, if_pos ⟨hs, hnone⟩, List.erase_cons_head]

end IrqTable

namespace KernelOs

/-! The outcomes of the interrupt's part of an initialization. -/

section Outcomes

variable {w : KernelOs} {r : KernelInitReplies} {inst : ℕ} {cfg : IpcShmCfg}

theorem registerIrq_unneeded
    (h : ¬(w.sharesIrq inst (w.id inst).irqNum = false ∧ (w.id inst).irqNum ≠ ipcIrqNone)) :
    w.registerIrq r inst = (0, w.enable inst) := by
  unfold registerIrq
  split
  · rfl
  rename_i hs
  rw [if_neg (fun hne => h ⟨Bool.eq_false_iff.mpr hs, hne⟩)]

theorem registerIrq_granted (hs : w.sharesIrq inst (w.id inst).irqNum = false)
    (hn : (w.id inst).irqNum ≠ ipcIrqNone) (h : r.requestIrq = 0) :
    w.registerIrq r inst = (0, (w.requestIrq 0 (w.id inst).irqNum).2.enable inst) := by
  rw [registerIrq, if_neg (by rw [hs]; decide), if_pos hn, h]
  rfl

theorem registerIrq_refused (hs : w.sharesIrq inst (w.id inst).irqNum = false)
    (hn : (w.id inst).irqNum ≠ ipcIrqNone) (h : r.requestIrq ≠ 0) :
    w.registerIrq r inst = (r.requestIrq, w) := by
  rw [registerIrq, if_neg (by rw [hs]; decide), if_pos hn, requestIrq, if_neg h]
  dsimp only
  rw [if_pos h]

theorem initIrq_none (h : cfg.interCoreRxIrq = ipcIrqNone) :
    w.initIrq r inst cfg = (w.setIrqNum inst ipcIrqNone).registerIrq r inst := by
  rw [initIrq, if_pos h]

theorem initIrq_missing (h : cfg.interCoreRxIrq ≠ ipcIrqNone)
    (hnode : r.ofFindCompatibleNode = false) : w.initIrq r inst cfg = (- ENXIO, w) := by
  rw [initIrq, if_neg h, getIrqNumber, if_pos hnode]
  rfl

theorem initIrq_invalid (h : cfg.interCoreRxIrq ≠ ipcIrqNone)
    (hnode : r.ofFindCompatibleNode = true) (hle : r.ofIrqGet ≤ 0) :
    w.initIrq r inst cfg = (-EINVAL, w.setIrqNum inst r.ofIrqGet) := by
  rw [initIrq, if_neg h, getIrqNumber, if_neg (by rw [hnode]; decide), if_pos hle]
  rfl

theorem initIrq_found (h : cfg.interCoreRxIrq ≠ ipcIrqNone)
    (hnode : r.ofFindCompatibleNode = true) (hpos : 0 < r.ofIrqGet) :
    w.initIrq r inst cfg = (w.setIrqNum inst r.ofIrqGet).registerIrq r inst := by
  rw [initIrq, if_neg h, getIrqNumber, if_neg (by rw [hnode]; decide), if_neg (by omega)]
  rfl

end Outcomes

/-- The regions and mappings of two states, and what they keep of those of an
instance, are the same. -/
structure SameWindows (inst : ℕ) (w w' : KernelOs) : Prop where
  regions : w'.ledger.regions = w.ledger.regions
  mappings : w'.ledger.mappings = w.ledger.mappings
  shmSize : (w'.id inst).shmSize = (w.id inst).shmSize
  localPhysShm : (w'.id inst).localPhysShm = (w.id inst).localPhysShm
  remotePhysShm : (w'.id inst).remotePhysShm = (w.id inst).remotePhysShm
  localVirtShm : (w'.id inst).localVirtShm = (w.id inst).localVirtShm
  remoteVirtShm : (w'.id inst).remoteVirtShm = (w.id inst).remoteVirtShm

section SameWindows

variable {w w' w'' : KernelOs} {inst : ℕ}

theorem SameWindows.refl : SameWindows inst w w := ⟨rfl, rfl, rfl, rfl, rfl, rfl, rfl⟩

theorem SameWindows.trans (h : SameWindows inst w w') (h' : SameWindows inst w' w'') :
    SameWindows inst w w'' where
  regions := h'.regions.trans h.regions
  mappings := h'.mappings.trans h.mappings
  shmSize := h'.shmSize.trans h.shmSize
  localPhysShm := h'.localPhysShm.trans h.localPhysShm
  remotePhysShm := h'.remotePhysShm.trans h.remotePhysShm
  localVirtShm := h'.localVirtShm.trans h.localVirtShm
  remoteVirtShm := h'.remoteVirtShm.trans h.remoteVirtShm

/-- The number and the state of an instance are not among them. -/
theorem sameWindows_setId (irq : ℤ) (state : IpcOsState) :
    SameWindows inst w (w.setId inst { w.id inst with irqNum := irq, state := state }) := by
  constructor <;> first | rfl | rw [setId_self]

theorem sameWindows_setIrqNum (irq : ℤ) : SameWindows inst w (w.setIrqNum inst irq) :=
  sameWindows_setId irq (w.id inst).state

theorem sameWindows_enable : SameWindows inst w (w.enable inst) :=
  sameWindows_setId (w.id inst).irqNum .enabled

theorem sameWindows_requestIrq (reply irq : ℤ) :
    SameWindows inst w (w.requestIrq reply irq).2 := by
  unfold requestIrq
  split
  · exact ⟨rfl, rfl, rfl, rfl, rfl, rfl, rfl⟩
  · exact .refl

theorem sameWindows_registerIrq (r : KernelInitReplies) :
    SameWindows inst w (w.registerIrq r inst).2 := by
  by_cases hreg : w.sharesIrq inst (w.id inst).irqNum = false ∧ (w.id inst).irqNum ≠ ipcIrqNone
  · by_cases hok : r.requestIrq = 0
    · rw [registerIrq_granted hreg.1 hreg.2 hok]
      exact (sameWindows_requestIrq _ _).trans sameWindows_enable
    · rw [registerIrq_refused hreg.1 hreg.2 hok]
      exact .refl
  · rw [registerIrq_unneeded hreg]
    exact sameWindows_enable

theorem sameWindows_initIrq (r : KernelInitReplies) (cfg : IpcShmCfg) :
    SameWindows inst w (w.initIrq r inst cfg).2 := by
  by_cases hrx : cfg.interCoreRxIrq = ipcIrqNone
  · rw [initIrq_none hrx]
    exact (sameWindows_setIrqNum _).trans (sameWindows_registerIrq r)
  by_cases hnode : r.ofFindCompatibleNode = false
  · rw [initIrq_missing hrx hnode]
    exact .refl
  rw [Bool.not_eq_false] at hnode
  by_cases hle : r.ofIrqGet ≤ 0
  · rw [initIrq_invalid hrx hnode hle]
    exact sameWindows_setIrqNum _
  · rw [initIrq_found hrx hnode (by omega)]
    exact (sameWindows_setIrqNum _).trans (sameWindows_registerIrq r)

theorem sameWindows_releaseIrq : SameWindows inst w (w.releaseIrq inst) := by
  unfold releaseIrq
  dsimp only
  split
  · exact .refl
  refine SameWindows.trans ?_ (sameWindows_setIrqNum 0)
  split
  · exact ⟨rfl, rfl, rfl, rfl, rfl, rfl, rfl⟩
  · exact .refl

end SameWindows

variable {w : KernelOs} {r : KernelInitReplies} {inst : ℕ} {cfg : IpcShmCfg}

/-- What a registration returns is zero if it is not needed, -/
theorem registerIrq_fst (irq : ℤ) :
    ((w.setIrqNum inst irq).registerIrq r inst).1 =
      if ¬w.irqTable.Shared inst irq ∧ irq ≠ ipcIrqNone then r.requestIrq else 0 := by
  have hnum : ((w.setIrqNum inst irq).id inst).irqNum = irq := by
    rw [setIrqNum, setId_self]
  have hshares : (w.setIrqNum inst irq).sharesIrq inst irq = false ↔
      ¬w.irqTable.Shared inst irq := by
    rw [← Bool.not_eq_true, sharesIrq_iff, irqTable_enter, shared_enter]
  split
  · rename_i hneeded
    obtain ⟨hs, hn⟩ := hneeded
    rw [← hshares] at hs
    rw [← hnum] at hn
    by_cases hok : r.requestIrq = 0
    · rw [registerIrq_granted (by rw [hnum, hs]) hn hok, hok]
    · rw [registerIrq_refused (by rw [hnum, hs]) hn hok]
  · rename_i hneeded
    rw [registerIrq_unneeded (by rwa [hnum, hshares])]

/-- and what the interrupt's part returns is the error of the call that failed. -/
theorem initIrq_fst :
    (w.initIrq r inst cfg).1 =
      if w.irqTable.Fails r inst cfg then
        if r.ofFindCompatibleNode = false then - ENXIO
        else if r.ofIrqGet ≤ 0 then -EINVAL
        else r.requestIrq
      else 0 := by
  by_cases hrx : cfg.interCoreRxIrq = ipcIrqNone
  · have hgood : ¬w.irqTable.Fails r inst cfg := fun hc => hc.1 hrx
    rw [initIrq_none hrx, registerIrq_fst, if_neg (fun hc => hc.2 rfl), if_neg hgood]
  by_cases hnode : r.ofFindCompatibleNode = false
  · have hbad : w.irqTable.Fails r inst cfg := ⟨hrx, Or.inl hnode⟩
    rw [initIrq_missing hrx hnode, if_pos hbad, if_pos hnode]
  rw [if_neg hnode]
  rw [Bool.not_eq_false] at hnode
  by_cases hle : r.ofIrqGet ≤ 0
  · have hbad : w.irqTable.Fails r inst cfg := ⟨hrx, Or.inr (Or.inl hle)⟩
    rw [initIrq_invalid hrx hnode hle, if_pos hbad, if_pos hle]
  have hnone : r.ofIrqGet ≠ ipcIrqNone := by
    have hneg : ipcIrqNone < 0 := by decide
    omega
  have hiff : w.irqTable.Fails r inst cfg ↔
      ¬w.irqTable.Shared inst r.ofIrqGet ∧ r.requestIrq ≠ 0 := by
    refine ⟨fun hc => ?_, fun hc => ⟨hrx, Or.inr (Or.inr hc)⟩⟩
    exact (hc.2.resolve_left (by rw [hnode]; decide)).resolve_left hle
  rw [initIrq_found hrx hnode (by omega), registerIrq_fst, if_neg hle]
  by_cases hs : w.irqTable.Shared inst r.ofIrqGet
  · rw [if_neg (fun hc => hc.1 hs), if_neg (fun hc => (hiff.mp hc).1 hs)]
  rw [if_pos ⟨hs, hnone⟩]
  by_cases hok : r.requestIrq = 0
  · rw [hok, ite_self]
  · rw [if_pos (hiff.mpr ⟨hs, hok⟩)]

/-- So it is an error if the interrupt cannot be used, -/
theorem initIrq_fails_iff : (w.initIrq r inst cfg).1 ≠ 0 ↔ w.irqTable.Fails r inst cfg := by
  rw [initIrq_fst]
  split
  · rename_i h
    refine iff_of_true ?_ h
    split
    · exact show - ENXIO ≠ 0 by decide
    · rename_i hnode
      split
      · exact show -EINVAL ≠ 0 by decide
      · rename_i hpos
        exact ((h.2.resolve_left hnode).resolve_left hpos).2
  · rename_i h
    exact iff_of_false (not_not.mpr rfl) h

/-- and one that the `int8_t` keeps, unless the failure is not reported. -/
theorem asInt8_initIrq_iff (h : w.irqTable.Fails r inst cfg) :
    asInt8 (w.initIrq r inst cfg).1 = 0 ↔ w.irqTable.Unreported r inst cfg := by
  unfold IrqTable.Unreported
  rw [initIrq_fst, if_pos h, and_iff_right h]
  split
  · rename_i hnode
    exact iff_of_false (by decide) (fun hc => absurd (hnode.symm.trans hc.1) (by decide))
  rename_i hnode
  rw [and_iff_right (Bool.not_eq_false _ ▸ hnode)]
  split
  · rename_i hle
    exact iff_of_false (by decide) (fun hc => absurd hc.1 (by omega))
  · rename_i hpos
    exact (and_iff_right (by omega)).symm

/-- A release gives up the windows that are kept for the instance. -/
theorem ledger_ipcOsFree (inst : ℕ) :
    (w.ipcOsFree inst).ledger =
      { regions := (w.ledger.regions.erase
          ((w.id inst).remotePhysShm, asResourceSize (w.id inst).shmSize)).erase
          ((w.id inst).localPhysShm, asResourceSize (w.id inst).shmSize)
        mappings := (w.ledger.mappings.erase (w.id inst).remoteVirtShm).erase
          (w.id inst).localVirtShm
        irqs := (w.irqTable.free inst).irqs } := by
  have hsame : SameWindows inst w
      ((w.setId inst { w.id inst with state := .disabled }).releaseIrq inst) :=
    (sameWindows_setId (w.id inst).irqNum .disabled).trans sameWindows_releaseIrq
  have hirqs : (w.ipcOsFree inst).ledger.irqs = (w.irqTable.free inst).irqs :=
    congrArg IrqTable.irqs (w.irqTable_ipcOsFree inst)
  rw [← hirqs]
  unfold ipcOsFree iounmap releaseMemRegion
  dsimp only
  rw [hsame.regions, hsame.mappings, hsame.shmSize, hsame.localPhysShm, hsame.remotePhysShm,
    hsame.localVirtShm, hsame.remoteVirtShm]

section InitMapped

/-- What is kept of an instance with its windows mapped. -/
theorem id_initMapped :
    let p := (w.initMapped r inst cfg).2.id inst
    p.shmSize = asInt cfg.shmSize.toNat ∧ p.localPhysShm = cfg.localShmAddr ∧
      p.remotePhysShm = cfg.remoteShmAddr ∧ p.localVirtShm = (w.id inst).localVirtShm ∧
      p.remoteVirtShm = (w.id inst).remoteVirtShm := by
  unfold initMapped
  dsimp only
  set w₁ := w.setId inst { w.id inst with
    shmSize := asInt cfg.shmSize.toNat
    localPhysShm := cfg.localShmAddr
    remotePhysShm := cfg.remoteShmAddr } with hw₁
  have hsame : SameWindows inst w₁ (w₁.initIrq r inst cfg).2 := sameWindows_initIrq r cfg
  have hkept : ∀ w' : KernelOs, w'.id = (w₁.initIrq r inst cfg).2.id →
      (w'.id inst).shmSize = asInt cfg.shmSize.toNat ∧
      (w'.id inst).localPhysShm = cfg.localShmAddr ∧
      (w'.id inst).remotePhysShm = cfg.remoteShmAddr ∧
      (w'.id inst).localVirtShm = (w.id inst).localVirtShm ∧
      (w'.id inst).remoteVirtShm = (w.id inst).remoteVirtShm := by
    intro w' hw'
    rw [hw', hsame.shmSize, hsame.localPhysShm, hsame.remotePhysShm, hsame.localVirtShm,
      hsame.remoteVirtShm, hw₁, setId_self]
    exact ⟨rfl, rfl, rfl, rfl, rfl⟩
  split
  · exact hkept _ rfl
  · exact hkept _ rfl

/-- So its release gives up the windows with the sizes an `int` kept. -/
theorem ledger_ipcOsFree_initMapped :
    ((w.initMapped r inst cfg).2.ipcOsFree inst).ledger =
      { regions := ((w.initMapped r inst cfg).2.ledger.regions.erase
          (cfg.remoteShmAddr, asResourceSize (asInt cfg.shmSize.toNat))).erase
          (cfg.localShmAddr, asResourceSize (asInt cfg.shmSize.toNat))
        mappings := ((w.initMapped r inst cfg).2.ledger.mappings.erase
          (w.id inst).remoteVirtShm).erase (w.id inst).localVirtShm
        irqs := ((w.irqTable.initMapped r inst cfg).free inst).irqs } := by
  obtain ⟨hsize, hlocal, hremote, hlocalVirt, hremoteVirt⟩ := @id_initMapped w r inst cfg
  rw [ledger_ipcOsFree, irqTable_initMapped, hsize, hlocal, hremote, hlocalVirt, hremoteVirt]

/-- With its windows mapped, an instance whose interrupt cannot be used unmaps
the physical addresses. -/
theorem initMapped_fails (h : w.irqTable.Fails r inst cfg) :
    (asInt8 (w.initMapped r inst cfg).1 = 0 ↔ w.irqTable.Unreported r inst cfg) ∧
    (w.initMapped r inst cfg).2.ledger =
      { regions := (w.ledger.regions.erase (cfg.remoteShmAddr, cfg.shmSize.toNat)).erase
          (cfg.localShmAddr, cfg.shmSize.toNat)
        mappings := (w.ledger.mappings.erase cfg.remoteShmAddr).erase cfg.localShmAddr
        irqs := w.ledger.irqs } := by
  have hirqs : (w.initMapped r inst cfg).2.ledger.irqs = w.ledger.irqs := by
    have htable := congrArg IrqTable.irqs (w.irqTable_initMapped r inst cfg)
    rw [IrqTable.irqs_initMapped_of_fails h] at htable
    exact htable
  rw [← hirqs]
  unfold initMapped
  dsimp only
  set w₁ := w.setId inst { w.id inst with
    shmSize := asInt cfg.shmSize.toNat
    localPhysShm := cfg.localShmAddr
    remotePhysShm := cfg.remoteShmAddr } with hw₁
  have htable : w₁.irqTable = w.irqTable := irqTable_setId_of_eq w rfl rfl
  have hsame : SameWindows inst w₁ (w₁.initIrq r inst cfg).2 := sameWindows_initIrq r cfg
  rw [if_pos (initIrq_fails_iff.mpr (htable ▸ h))]
  refine ⟨(asInt8_initIrq_iff (htable ▸ h)).trans (htable ▸ Iff.rfl), ?_⟩
  unfold errUnmapRemoteShm errReleaseRemoteRegion errUnmapLocalShm errReleaseLocalRegion
    iounmap releaseMemRegion
  dsimp only
  rw [hsame.regions, hsame.mappings]
  rfl

/-- One whose interrupt can be used keeps them. -/
theorem initMapped_of_not_fails (h : ¬w.irqTable.Fails r inst cfg) :
    (w.initMapped r inst cfg).1 = 0 ∧
      (w.initMapped r inst cfg).2.ledger.regions = w.ledger.regions ∧
      (w.initMapped r inst cfg).2.ledger.mappings = w.ledger.mappings := by
  unfold initMapped
  dsimp only
  set w₁ := w.setId inst { w.id inst with
    shmSize := asInt cfg.shmSize.toNat
    localPhysShm := cfg.localShmAddr
    remotePhysShm := cfg.remoteShmAddr } with hw₁
  have htable : w₁.irqTable = w.irqTable := irqTable_setId_of_eq w rfl rfl
  have hsame : SameWindows inst w₁ (w₁.initIrq r inst cfg).2 := sameWindows_initIrq r cfg
  have herr : (w₁.initIrq r inst cfg).1 = 0 :=
    not_not.mp (fun hne => h (htable ▸ initIrq_fails_iff.mp hne))
  rw [if_neg (not_not.mpr herr)]
  exact ⟨rfl, hsame.regions, hsame.mappings⟩

end InitMapped

/-- Without the remote window the physical address of the local one is unmapped. -/
theorem initRemote_no_window (h : ¬w.Maps r.requestRemote r.ioremapRemote) :
    asInt8 (w.initRemote r inst cfg).1 ≠ 0 ∧ (w.initRemote r inst cfg).2.ledger =
      ⟨w.ledger.regions.erase (cfg.localShmAddr, cfg.shmSize.toNat),
        w.ledger.mappings.erase cfg.localShmAddr, w.ledger.irqs⟩ := by
  by_cases hok : r.requestRemote = true
  · rw [initRemote_unmapped hok (fun hv => h ⟨hok, hv⟩)]
    refine ⟨show asInt8 (-ENOMEM) ≠ 0 by decide, ?_⟩
    show KernelLedger.mk ((List.erase (_ :: w.ledger.regions) _).erase _) _ _ = _
    rw [List.erase_cons_head]
    rfl
  · rw [initRemote_refused (Bool.eq_false_iff.mpr hok)]
    exact ⟨show asInt8 (-EADDRINUSE) ≠ 0 by decide, rfl⟩

/-- **With both windows mapped** an initialization goes on from a state in which
the instance has them and the table is as it was. -/
theorem initLocal_windowsMapped (h : w.WindowsMapped r) :
    ∃ u : KernelOs, w.initLocal r inst cfg = u.initMapped r inst cfg ∧
      u.irqTable = w.irqTable ∧
      u.ledger = { w.ledger with
        regions := (cfg.remoteShmAddr, cfg.shmSize.toNat) ::
          (cfg.localShmAddr, cfg.shmSize.toNat) :: w.ledger.regions
        mappings := r.ioremapRemote :: r.ioremapLocal :: w.ledger.mappings } ∧
      (u.id inst).localVirtShm = r.ioremapLocal ∧
      (u.id inst).remoteVirtShm = r.ioremapRemote := by
  obtain ⟨hlocal, hremote⟩ := h
  rw [initLocal_mapped hlocal.1 hlocal.2]
  set v := KernelOs.setId _ inst _ with hv
  have hmaps : v.Maps r.requestRemote r.ioremapRemote := hremote
  rw [initRemote_mapped hmaps.1 hmaps.2]
  set u := KernelOs.setId _ inst _ with hu
  have htable : v.irqTable = w.irqTable := irqTable_setId_of_eq _ rfl rfl
  have htable' : u.irqTable = v.irqTable := irqTable_setId_of_eq _ rfl rfl
  refine ⟨u, rfl, htable'.trans htable, rfl, ?_, ?_⟩
  · rw [hu, setId_self, hv, setId_self]
  · rw [hu, setId_self]

theorem ledger_iounmap_iff {addr : ℕ} {ledger : KernelLedger} :
    (w.iounmap addr).ledger = ledger ↔ w.ledger.regions = ledger.regions ∧
      w.ledger.mappings.erase addr = ledger.mappings ∧ w.ledger.irqs = ledger.irqs := by
  cases ledger
  exact KernelLedger.mk.injEq .. ▸ Iff.rfl

section IpcOsInit

variable (hinst : inst < ipcShmMaxInstances)

include hinst

theorem ipcOsInit_eq_initLocal : w.ipcOsInit r inst cfg true =
    (asInt8 (w.initLocal r inst cfg).1, (w.initLocal r inst cfg).2) := by
  rw [ipcOsInit, if_neg (by decide), if_neg (Nat.not_lt.mpr hinst.le)]

/-! What an initialization leaves, by how far it gets: without the local window,
without the remote one, without the interrupt, and to its end. -/

theorem ipcOsInit_no_local (h : ¬w.Maps r.requestLocal r.ioremapLocal) :
    (w.ipcOsInit r inst cfg true).1 ≠ 0 ∧
      (w.ipcOsInit r inst cfg true).2.ledger = w.ledger := by
  rw [ipcOsInit_eq_initLocal hinst]
  by_cases hok : r.requestLocal = true
  · rw [initLocal_unmapped hok (fun hv => h ⟨hok, hv⟩)]
    refine ⟨show asInt8 (-ENOMEM) ≠ 0 by decide, ?_⟩
    show KernelLedger.mk (List.erase (_ :: w.ledger.regions) _) _ _ = _
    rw [List.erase_cons_head]
    rfl
  · rw [initLocal_refused (Bool.eq_false_iff.mpr hok)]
    exact ⟨show asInt8 (-EADDRINUSE) ≠ 0 by decide, rfl⟩

theorem ipcOsInit_no_remote (hlocal : w.Maps r.requestLocal r.ioremapLocal)
    (h : ¬(w.remap r.ioremapLocal).Maps r.requestRemote r.ioremapRemote) :
    (w.ipcOsInit r inst cfg true).1 ≠ 0 ∧ (w.ipcOsInit r inst cfg true).2.ledger =
      { w.ledger with
        mappings := (r.ioremapLocal :: w.ledger.mappings).erase cfg.localShmAddr } := by
  rw [ipcOsInit_eq_initLocal hinst, initLocal_mapped hlocal.1 hlocal.2]
  set v := KernelOs.setId _ inst _
  have hremote := @initRemote_no_window v r inst cfg h
  refine ⟨hremote.1, hremote.2.trans ?_⟩
  show KernelLedger.mk (List.erase (_ :: w.ledger.regions) _) _ _ = _
  rw [List.erase_cons_head]
  rfl

theorem ipcOsInit_no_irq (hwindows : w.WindowsMapped r) (h : w.irqTable.Fails r inst cfg) :
    ((w.ipcOsInit r inst cfg true).1 = 0 ↔ w.irqTable.Unreported r inst cfg) ∧
    (w.ipcOsInit r inst cfg true).2.ledger =
      { w.ledger with
        mappings := ((r.ioremapRemote :: r.ioremapLocal :: w.ledger.mappings).erase
          cfg.remoteShmAddr).erase cfg.localShmAddr } := by
  obtain ⟨u, hu, htable, hledger, -⟩ := @initLocal_windowsMapped w r inst cfg hwindows
  rw [ipcOsInit_eq_initLocal hinst, hu]
  rw [← htable] at h ⊢
  obtain ⟨hreported, hleft⟩ := initMapped_fails h
  refine ⟨hreported, hleft.trans ?_⟩
  rw [hledger]
  dsimp only
  rw [List.erase_cons_head, List.erase_cons_head]

theorem ipcOsFree_ipcOsInit (hwindows : w.WindowsMapped r) (h : ¬w.irqTable.Fails r inst cfg) :
    (w.ipcOsInit r inst cfg true).1 = 0 ∧
      ((w.ipcOsInit r inst cfg true).2.ipcOsFree inst).ledger =
        { w.ledger with
          regions := (((cfg.remoteShmAddr, cfg.shmSize.toNat) ::
            (cfg.localShmAddr, cfg.shmSize.toNat) :: w.ledger.regions).erase
            (cfg.remoteShmAddr, asResourceSize (asInt cfg.shmSize.toNat))).erase
            (cfg.localShmAddr, asResourceSize (asInt cfg.shmSize.toNat)) } := by
  obtain ⟨u, hu, htable, hledger, hlocal, hremote⟩ := @initLocal_windowsMapped w r inst cfg hwindows
  rw [ipcOsInit_eq_initLocal hinst, hu]
  rw [← htable] at h
  obtain ⟨hok, hregions, hmappings⟩ := initMapped_of_not_fails h
  refine ⟨by rw [hok]; rfl, ?_⟩
  rw [ledger_ipcOsFree_initMapped, hregions, hmappings, hlocal, hremote,
    IrqTable.irqs_free_initMapped h, htable, hledger]
  dsimp only
  rw [List.erase_cons_head, List.erase_cons_head]
  rfl

/-- An instance that could not be registered and is taken to be is released a
second time. -/
theorem ipcOsFree_ipcOsInit_unreported (hwindows : w.WindowsMapped r)
    (h : w.irqTable.Unreported r inst cfg) :
    ((w.ipcOsInit r inst cfg true).2.ipcOsFree inst).ledger =
      { regions := (w.ledger.regions.erase
          (cfg.remoteShmAddr, asResourceSize (asInt cfg.shmSize.toNat))).erase
          (cfg.localShmAddr, asResourceSize (asInt cfg.shmSize.toNat))
        mappings := (w.ledger.mappings.erase cfg.remoteShmAddr).erase cfg.localShmAddr
        irqs := w.ledger.irqs.erase r.ofIrqGet } := by
  obtain ⟨u, hu, htable, hledger, hlocal, hremote⟩ := @initLocal_windowsMapped w r inst cfg hwindows
  rw [ipcOsInit_eq_initLocal hinst, hu]
  rw [← htable] at h
  dsimp only
  rw [ledger_ipcOsFree_initMapped, (initMapped_fails h.1).2, hlocal, hremote,
    IrqTable.irqs_free_initMapped_of_unreported h, htable, hledger]
  dsimp only
  rw [List.erase_cons_head, List.erase_cons_head,
    List.erase_comm cfg.localShmAddr r.ioremapRemote,
    List.erase_comm cfg.remoteShmAddr r.ioremapRemote, List.erase_cons_head,
    List.erase_comm cfg.localShmAddr r.ioremapLocal,
    List.erase_comm cfg.remoteShmAddr r.ioremapLocal, List.erase_cons_head]
  rfl

end IpcOsInit

end KernelOs

/-- The OS and the HW layer together. -/
structure KernelSys where
  os : KernelOs := {}
  hw : KernelHw := {}

/-- The outcomes of the calls to the system in `ipc_shm_init_instance`. The
address of the controller is zero if its node is not in the device tree, has no
address, or cannot be mapped. -/
structure InstanceReplies where
  mapIntc : ℕ
  os : KernelInitReplies

namespace KernelSys

variable (s : KernelSys)

/-- Maps the controller, and initializes the HW layer with it. -/
def ipcHwInit (mapIntc inst : ℕ) (cfg : IpcShmCfg) : ℤ × KernelSys :=
  let (addr, os) := s.os.ioremap mapIntc
  let (err, hw) := s.hw.ipcHwInitAt inst cfg addr
  (err, { os := os, hw := hw })

/-- Clears the interrupt and unmaps the controller. -/
def ipcHwFree (inst : ℕ) : KernelSys :=
  let hw := s.hw.ipcHwIrqClear inst
  { os := s.os.iounmap (hw.priv inst).ipcMscm, hw := hw }

/-- The OS layer, with the addresses of the windows. -/
def ipcOsInit (r : KernelInitReplies) (inst : ℕ) (cfg : IpcShmCfg) : (ℤ × IpcOs) × KernelSys :=
  let (err, os) := s.os.ipcOsInit r inst cfg true
  ((err, { localShm := (os.id inst).localVirtShm, remoteShm := (os.id inst).remoteVirtShm }),
    { s with os := os })

/-- Releases the OS layer. Notifications are disabled with the last instance that
carries the interrupt. -/
def ipcOsFree (inst : ℕ) : KernelSys where
  os := s.os.ipcOsFree inst
  hw :=
    let irq := (s.os.id inst).irqNum
    if irq ≠ ipcIrqNone ∧ s.os.sharesIrq inst irq = false then s.hw.ipcHwIrqDisable inst
    else s.hw

/-- **How the system answers the driver.** The calls of the OS and HW layers have
the given outcomes; memory holds anything. -/
def answers (r : InstanceReplies) : (o : Op) → KernelSys → o.Ret → KernelSys → Prop
  | .ipcHwInit inst cfg, s, ret, s' => s.ipcHwInit r.mapIntc inst cfg = (ret, s')
  | .ipcHwFree inst, s, _, s' => s' = s.ipcHwFree inst
  | .ipcHwIrqEnable inst, s, _, s' => s' = { s with hw := s.hw.ipcHwIrqEnable inst }
  | .ipcHwIrqDisable inst, s, _, s' => s' = { s with hw := s.hw.ipcHwIrqDisable inst }
  | .ipcHwIrqNotify inst, s, _, s' => s' = { s with hw := s.hw.ipcHwIrqNotify inst }
  | .ipcOsInit inst cfg, s, ret, s' => s.ipcOsInit r.os inst cfg = (ret, s')
  | .ipcOsFree inst, s, _, s' => s' = s.ipcOsFree inst
  | .load n _, s, v, s' => v < 2 ^ (8 * n) ∧ s' = s
  | .memcpyFrom _ n, s, bs, s' => bs.length = n ∧ s' = s
  | .store _ _ _, s, _, s' => s' = s
  | .memcpyTo _ _, s, _, s' => s' = s
  | .poolsOutOfBounds _, s, _, s' => s' = s
  | .undefinedBehaviour, _, _, _ => False
  | .rxCb _ _ _ _ _ _, s, _, s' => s' = s
  | .rxCbUnmanaged _ _ _ _ _, s, _, s' => s' = s

variable {s} {r : InstanceReplies}

theorem answers_memory (o : Op) (s : KernelSys) (ret : o.Ret) (s' : KernelSys)
    (ho : o.IsMemory) (h : answers r o s ret s') : s' = s := by
  cases o with
  | load n a => exact h.2
  | memcpyFrom a n => exact h.2
  | undefinedBehaviour => exact h.elim
  | ipcHwInit | ipcHwFree | ipcHwIrqEnable | ipcHwIrqDisable | ipcHwIrqNotify | ipcOsInit
  | ipcOsFree => exact ho.elim
  | store | memcpyTo | poolsOutOfBounds | rxCb | rxCbUnmanaged => exact h

theorem answers_load {n v : ℕ} (h : v < 2 ^ (8 * n)) (a : ℕ) : answers r (.load n a) s v s :=
  ⟨h, rfl⟩

theorem answers_access (o : Op) (s : KernelSys) (ho : o.IsAccess) :
    ∃ ret, answers r o s ret s := by
  cases o with
  | load n a => exact ⟨0, Nat.two_pow_pos _, rfl⟩
  | memcpyFrom a n => exact ⟨List.replicate n 0, List.length_replicate, rfl⟩
  | store n a v => exact ⟨(), rfl⟩
  | memcpyTo a bs => exact ⟨(), rfl⟩
  | _ => exact ho.elim

/-! ## The programs -/

/-- What is checked before the system is called. -/
def Attempts (inst : ℕ) (cfg : IpcShmCfg) : Prop :=
  inst < ipcShmMaxInstances ∧ cfg.localShmAddr ≠ 0 ∧ cfg.remoteShmAddr ≠ 0 ∧
    1 ≤ cfg.numChannels.toNat ∧ cfg.numChannels.toNat ≤ ipcShmMaxChannels

instance (inst : ℕ) (cfg : IpcShmCfg) : Decidable (Attempts inst cfg) :=
  inferInstanceAs (Decidable (_ ∧ _ ∧ _ ∧ _ ∧ _))

/-- **What a failed initialization leaves**, from the point where it calls the
system on: after the HW layer failed, after the OS layer did, or after the
channels did. -/
def failed (r : InstanceReplies) (inst : ℕ) (cfg : IpcShmCfg) (s : KernelSys) : KernelSys :=
  let (err, s) := s.ipcHwInit r.mapIntc inst cfg
  if err ≠ 0 then s
  else
    let ((err, _), s) := s.ipcOsInit r.os inst cfg
    if err ≠ 0 then s.ipcHwFree inst else (s.ipcOsFree inst).ipcHwFree inst

/-- A failed initialization did not get to the system, or leaves that. -/
theorem failed_of_exec {d d' : Driver} {inst : ℕ} {cfg : IpcShmCfg} {s' : KernelSys} {err : ℤ}
    (h : (ipcShmInitInstance d inst (some cfg)).Exec (answers r) s (err, d') s')
    (herr : err ≠ 0) : s' = s ∨ Attempts inst cfg ∧ s' = failed r inst cfg s := by
  unfold ipcShmInitInstance at h
  obtain ⟨state, u, hstate, h'⟩ := (Program.exec_bind _ _).mp h
  obtain rfl := (accesses_ipcInstanceIsFree d inst).inMemory.exec_eq answers_memory hstate
  clear h
  split at h'
  · exact Or.inl h'.2.symm
  dsimp only at h'
  split at h'
  · exact Or.inl h'.2.symm
  rename_i haddr
  split at h'
  · exact Or.inl h'.2.symm
  rename_i hchan
  split at h'
  · obtain ⟨e, -⟩ := h'
    exact nomatch e
  rename_i hinst
  rw [not_or] at haddr hchan
  refine Or.inr ⟨⟨by omega, haddr.1, haddr.2, by omega, by omega⟩, ?_⟩
  unfold failed
  rw [ipcHwInit_bind] at h'
  obtain ⟨e₁, s₁, hhw, h₁⟩ := h'
  rw [show u.ipcHwInit r.mapIntc inst cfg = (e₁, s₁) from hhw]
  dsimp only at h₁ ⊢
  split at h₁
  · rename_i he
    obtain ⟨-, rfl⟩ := h₁
    rw [if_pos he]
  rename_i he
  rw [if_neg he]
  rw [ipcOsInit_bind] at h₁
  obtain ⟨⟨e₂, os⟩, s₂, hos, h₂⟩ := h₁
  rw [show s₁.ipcOsInit r.os inst cfg = ((e₂, os), s₂) from hos]
  dsimp only at h₂ ⊢
  split at h₂
  · rename_i he₂
    rw [ipcHwFree_bind] at h₂
    obtain ⟨_, s₃, hfree, -, rfl⟩ := h₂
    rw [if_pos he₂]
    exact hfree
  rename_i he₂
  rw [if_neg he₂]
  rw [store64_bind] at h₂
  obtain ⟨_, s₃, hstore, h₃⟩ := h₂
  obtain rfl : s₃ = s₂ := hstore
  obtain ⟨⟨e₃, priv⟩, u₃, hchannels, h₄⟩ := (Program.exec_bind _ _).mp h₃
  obtain rfl := (inMemory_initChannels _ _ _ _ _ _ _).exec_eq answers_memory hchannels
  dsimp only at h₄
  split at h₄
  · obtain ⟨priv', u₄, hfree, h₅⟩ := (Program.exec_bind _ _).mp h₄
    obtain rfl := (accesses_freeConfiguredChannels _ _).inMemory.exec_eq answers_memory hfree
    rw [ipcOsFree_bind] at h₅
    obtain ⟨_, s₅, hos₅, h₅⟩ := h₅
    obtain rfl : s₅ = _ := hos₅
    rw [ipcHwFree_bind] at h₅
    obtain ⟨_, s₆, hhw₆, -, rfl⟩ := h₅
    exact hhw₆
  · rw [ipcHwIrqEnable_bind] at h₄
    obtain ⟨_, s₄, -, h₅⟩ := h₄
    rw [store64_bind] at h₅
    obtain ⟨_, s₅, -, h₆⟩ := h₅
    exact absurd (congrArg Prod.fst h₆.1).symm herr

/-! ## Executions that fail -/

/-- Some execution of a program returns an error, and leaves the system in `t`. -/
def CanFail {α : Type} (r : InstanceReplies) (s : KernelSys) (p : Drv (ℤ × α)) (t : KernelSys) :
    Prop :=
  ∃ err a, err ≠ 0 ∧ p.Exec (answers r) s (err, a) t

section CanFail

variable {α β : Type} {t u : KernelSys}

theorem canFail_pure {err : ℤ} (herr : err ≠ 0) (a : α) :
    CanFail r s (pure (err, a) : Drv (ℤ × α)) s := ⟨err, a, herr, rfl, rfl⟩

/-- It fails after an answer, -/
theorem CanFail.op {o : Op} {v : o.Ret} {k : o.Ret → Drv (ℤ × α)} (hv : answers r o s v u)
    (hk : CanFail r u (k v) t) : CanFail r s (Program.op o k) t := by
  obtain ⟨err, a, herr, hk⟩ := hk
  exact ⟨err, a, herr, v, u, hv, hk⟩

/-- after a first part that returned, -/
theorem CanFail.after {p : Drv β} {f : β → Drv (ℤ × α)} {b : β}
    (hp : p.Exec (answers r) s b u) (hf : CanFail r u (f b) t) : CanFail r s (p >>= f) t := by
  obtain ⟨err, a, herr, hf⟩ := hf
  exact ⟨err, a, herr, (Program.exec_bind p f).mpr ⟨b, u, hp, hf⟩⟩

/-- and with a first part that fails, if it passes the error on. -/
theorem CanFail.bind {p : Drv (ℤ × α)} {f : ℤ × α → Drv (ℤ × β)} (hp : CanFail r s p u)
    (hf : ∀ err a, err ≠ 0 → CanFail r u (f (err, a)) t) : CanFail r s (p >>= f) t := by
  obtain ⟨err, a, herr, hp⟩ := hp
  exact (hf err a herr).after hp

end CanFail

/-! Whatever the configuration, the first channel fails if the remote is just
initializing its own. -/

theorem canFail_ipcQueueInit (q : IpcQueue) (data : IpcQueueData) :
    CanFail r s (ipcQueueInit q data) s := by
  have hagain : -EAGAIN ≠ 0 := by decide
  unfold ipcQueueInit
  split
  · exact canFail_pure (by decide) _
  have hsync : ∀ q queueType, (ipcQueueSyncIndex q queueType).Exec (answers r) s (-EAGAIN) s := by
    intro q queueType
    unfold ipcQueueSyncIndex
    rw [load64_bind]
    refine ⟨ipcQueueInitInProgress, s, answers_load (n := 8) (by decide) _, ?_⟩
    dsimp only
    rw [if_pos rfl]
    exact ⟨rfl, rfl⟩
  exact (canFail_pure hagain _).after (hsync _ _)

theorem canFail_initChannelQueue (q : IpcQueue) (data : IpcQueueData) :
    CanFail r s (initChannelQueue q data) s := by
  unfold initChannelQueue
  refine (canFail_ipcQueueInit q data).bind (fun err q herr => ?_)
  dsimp only
  rw [if_pos herr]
  exact canFail_pure herr q

theorem canFail_managedChannelInit (os : IpcOs) (shmSize : ℕ) (chan : IpcManagedChannel)
    (localShm remoteShm : ℕ) (cfg : IpcShmManagedCfg) :
    CanFail r s (managedChannelInit os shmSize chan localShm remoteShm cfg) s := by
  have hinval : -EINVAL ≠ 0 := by decide
  unfold managedChannelInit
  split
  · exact canFail_pure hinval _
  cases cfg.pools with
  | none => exact canFail_pure hinval _
  | some pools =>
    dsimp only
    split
    · exact canFail_pure hinval _
    split
    · exact canFail_pure hinval _
    refine (canFail_initChannelQueue _ _).bind (fun err q herr => ?_)
    rw [if_pos herr]
    exact canFail_pure herr _

theorem canFail_unmanagedChannelInit (chan : IpcShmChannel) (localShm remoteShm : ℕ)
    (cfg : IpcShmUnmanagedCfg) :
    CanFail r s (unmanagedChannelInit chan localShm remoteShm cfg) s := by
  unfold unmanagedChannelInit
  split
  · exact canFail_pure (by decide) _
  rw [load32_bind]
  refine CanFail.op (answers_load (n := 4) (v := ipcShmUchanInitInProgress) (by decide) _) ?_
  dsimp only
  rw [if_pos rfl]
  exact canFail_pure (by decide) _

theorem canFail_ipcShmInitChannels (os : IpcOs) (shmSize : ℕ) (chan : IpcShmChannel)
    (chanId localShm remoteShm : ℕ) (cfg : Option IpcShmChannelCfg) :
    CanFail r s (ipcShmInitChannels os shmSize chan chanId localShm remoteShm cfg) s := by
  unfold ipcShmInitChannels
  cases cfg with
  | none => exact canFail_pure (by decide) _
  | some cfg =>
    cases cfg with
    | managed mcfg =>
      exact (canFail_managedChannelInit _ _ _ _ _ _).bind (fun err _ herr => canFail_pure herr _)
    | unmanaged ucfg => exact canFail_unmanagedChannelInit _ _ _ _
    | invalid => exact canFail_pure (by decide) _

theorem canFail_initChannels (os : IpcOs) (channels : Option (ℕ → IpcShmChannelCfg)) {n : ℕ}
    (hn : 1 ≤ n) (chanId localShm remoteShm : ℕ) (priv : IpcShmPriv) :
    CanFail r s (initChannels os channels n chanId localShm remoteShm priv) s := by
  obtain ⟨n, rfl⟩ := Nat.exists_eq_add_of_le' hn
  unfold initChannels
  refine (canFail_ipcShmInitChannels _ _ _ _ _ _ _).bind (fun err chan herr => ?_)
  dsimp only
  rw [if_pos herr]
  exact canFail_pure herr _

/-- **An initialization that gets to the system can fail there**, from any state
of the driver. -/
theorem canFail_ipcShmInitInstance (d : Driver) {inst : ℕ} {cfg : IpcShmCfg}
    (ha : Attempts inst cfg) :
    CanFail r s (ipcShmInitInstance d inst (some cfg)) (failed r inst cfg s) := by
  obtain ⟨hinst, hlocal, hremote, hmin, hmax⟩ := ha
  have hfree : (ipcInstanceIsFree d inst).Exec (answers r) s .free s := by
    unfold ipcInstanceIsFree
    rw [if_neg (by omega)]
    split
    · exact ⟨rfl, rfl⟩
    · rw [load64_bind]
      refine ⟨ipcShmStateClear, s, answers_load (n := 8) (by decide) _, ?_⟩
      dsimp only
      rw [if_pos rfl]
      exact ⟨rfl, rfl⟩
  refine CanFail.after hfree ?_
  dsimp only
  rw [if_neg (by decide), if_neg (not_or.mpr ⟨hlocal, hremote⟩),
    if_neg (not_or.mpr ⟨by omega, by omega⟩), if_neg (by omega)]
  unfold failed
  rw [ipcHwInit_bind]
  rcases hhw : s.ipcHwInit r.mapIntc inst cfg with ⟨e₁, s₁⟩
  refine CanFail.op (o := .ipcHwInit inst cfg) (v := e₁) hhw ?_
  dsimp only
  split
  · rename_i he₁
    exact canFail_pure he₁ _
  rw [ipcOsInit_bind]
  rcases hos : s₁.ipcOsInit r.os inst cfg with ⟨⟨e₂, os⟩, s₂⟩
  refine CanFail.op (o := .ipcOsInit inst cfg) (v := (e₂, os)) hos ?_
  dsimp only
  split
  · rename_i he₂
    rw [ipcHwFree_bind]
    exact CanFail.op (v := ()) rfl (canFail_pure he₂ _)
  -- the channels fail, are freed, and the layers are released
  rw [store64_bind]
  refine CanFail.op (v := ()) (u := s₂) rfl ((canFail_initChannels _ _ ?_ _ _ _ _).bind ?_)
  · rw [show ((d.setPriv inst _).setOs inst os).priv inst = _ from Function.update_self _ _ _]
    exact hmin
  intro e₃ priv he₃
  dsimp only
  rw [if_pos he₃]
  obtain ⟨priv', hfreed⟩ := (accesses_freeConfiguredChannels cfg.channels
    { priv with global := 0 }).exists_exec (A := answers r) answers_access s₂
  refine CanFail.after hfreed ?_
  rw [ipcOsFree_bind]
  refine CanFail.op (v := ()) rfl ?_
  rw [ipcHwFree_bind]
  exact CanFail.op (v := ()) rfl (canFail_pure he₃ _)

/-! ## The ledger -/

/-- What is on a list and is not removed from it keeps the list from being one
it is not on. -/
theorem ne_of_mem_erase {l m : List ℕ} {a b : ℕ} (ha : a ∈ l) (hne : a ≠ b) (hm : a ∉ m) :
    l.erase b ≠ m := fun heq => hm (heq ▸ (List.mem_erase_of_ne hne).mpr ha)

section Ledger

variable {inst : ℕ} {cfg : IpcShmCfg}

theorem ipcHwInit_unmapped {mapIntc : ℕ} (h : ¬s.os.Unused mapIntc) :
    s.ipcHwInit mapIntc inst cfg = (-EINVAL, s) := by
  rw [ipcHwInit, KernelOs.ioremap, if_neg h]
  rfl

theorem ipcHwInit_mapped {mapIntc : ℕ} (h : s.os.Unused mapIntc) :
    s.ipcHwInit mapIntc inst cfg = ((s.hw.ipcHwInitAt inst cfg mapIntc).1,
      ⟨s.os.remap mapIntc, (s.hw.ipcHwInitAt inst cfg mapIntc).2⟩) := by
  rw [ipcHwInit, KernelOs.ioremap, if_pos h]

/-- The release of the HW layer unmaps the controller. -/
theorem ipcHwFree_os {addr : ℕ} (h : (s.hw.priv inst).ipcMscm = addr) :
    (s.ipcHwFree inst).os = s.os.iounmap addr := by
  show s.os.iounmap ((s.hw.ipcHwIrqClear inst).priv inst).ipcMscm = _
  rw [KernelHw.ipcHwIrqClear_priv, h]

theorem ipcOsFree_priv : ((s.ipcOsFree inst).hw).priv = s.hw.priv := by
  unfold ipcOsFree
  dsimp only
  split
  · exact KernelHw.route_priv _ _
  · rfl

/-- What is left if the HW layer does not get the controller, if it does not
accept the configuration, -/
theorem failed_of_unmapped (h : ¬s.os.Unused r.mapIntc) : failed r inst cfg s = s := by
  rw [failed, ipcHwInit_unmapped h]
  rfl

theorem failed_of_not_accepts (h : s.os.Unused r.mapIntc)
    (ha : ¬KernelHw.Accepts s.hw.mscm cfg) :
    (failed r inst cfg s).os = s.os.remap r.mapIntc := by
  rw [failed, ipcHwInit_mapped h]
  dsimp only
  rw [if_pos (fun herr => ha ((KernelHw.ipcHwInitAt_iff h.1).mp herr))]

/-- and if it does: what the OS layer leaves, without the controller. -/
theorem failed_of_accepts (h : s.os.Unused r.mapIntc) (ha : KernelHw.Accepts s.hw.mscm cfg) :
    (failed r inst cfg s).os =
      (if ((s.os.remap r.mapIntc).ipcOsInit r.os inst cfg true).1 ≠ 0
        then ((s.os.remap r.mapIntc).ipcOsInit r.os inst cfg true).2
        else ((s.os.remap r.mapIntc).ipcOsInit r.os inst cfg true).2.ipcOsFree inst).iounmap
        r.mapIntc := by
  have hmscm : ((s.hw.ipcHwInitAt inst cfg r.mapIntc).2.priv inst).ipcMscm = r.mapIntc :=
    KernelHw.ipcHwInitAt_ipcMscm h.1
  rw [failed, ipcHwInit_mapped h]
  dsimp only
  rw [if_neg (not_not.mpr ((KernelHw.ipcHwInitAt_iff h.1).mpr ha))]
  unfold ipcOsInit
  dsimp only
  split
  · exact ipcHwFree_os hmscm
  · exact ipcHwFree_os (by rw [ipcOsFree_priv]; exact hmscm)

/-- **The initializations that give back what they took if they fail.** Once the
controller is mapped the HW layer has to accept the configuration. Once the
local window is mapped as well, a failure of the OS layer has to find the virtual
addresses where it unmaps the physical ones, and a failure of the channels the
size of the windows in an `int`. After a failure that is not reported nothing
may be held that the second release gives up. -/
def Recoverable (r : InstanceReplies) (inst : ℕ) (cfg : IpcShmCfg) (s : KernelSys) : Prop :=
  s.os.Unused r.mapIntc →
    KernelHw.Accepts s.hw.mscm cfg ∧
    ((s.os.remap r.mapIntc).Maps r.os.requestLocal r.os.ioremapLocal →
      if (s.os.remap r.mapIntc).WindowsMapped r.os then
        if s.os.irqTable.Unreported r.os inst cfg then
          ((cfg.remoteShmAddr, asResourceSize (asInt cfg.shmSize.toNat)) ∉ s.os.ledger.regions ∧
            (cfg.localShmAddr, asResourceSize (asInt cfg.shmSize.toNat)) ∉ s.os.ledger.regions) ∧
          (cfg.remoteShmAddr ∉ s.os.ledger.mappings ∧ cfg.localShmAddr ∉ s.os.ledger.mappings) ∧
          r.os.ofIrqGet ∉ s.os.ledger.irqs
        else if s.os.irqTable.Fails r.os inst cfg then
          (cfg.remoteShmAddr = r.os.ioremapRemote ∧ cfg.localShmAddr = r.os.ioremapLocal) ∨
            (cfg.remoteShmAddr = r.os.ioremapLocal ∧ cfg.localShmAddr = r.os.ioremapRemote)
        else cfg.shmSize.toNat < 2 ^ 31
      else cfg.localShmAddr = r.os.ioremapLocal)

/-- One mapping is gone after an address is unmapped if this is the address, -/
theorem unmapped_iff {m : List ℕ} {c l a : ℕ} (hl : l ∉ c :: m) :
    ((l :: c :: m).erase a).erase c = m ↔ a = l := by
  obtain ⟨hlc, hlm⟩ := not_or.mp (List.mem_cons.not.mp hl)
  constructor
  · intro heq
    by_contra hne
    exact ne_of_mem_erase ((List.mem_erase_of_ne (Ne.symm hne)).mpr List.mem_cons_self) hlc hlm heq
  · rintro rfl
    rw [List.erase_cons_head, List.erase_cons_head]

/-- and two after two addresses are, if these are the two. -/
theorem both_unmapped_iff {m : List ℕ} {c l q a b : ℕ} (hl : l ∉ c :: m) (hq : q ∉ l :: c :: m) :
    (((q :: l :: c :: m).erase b).erase a).erase c = m ↔
      (b = q ∧ a = l) ∨ (b = l ∧ a = q) := by
  obtain ⟨hql, hqm⟩ := not_or.mp (List.mem_cons.not.mp hq)
  by_cases hbq : b = q
  · rw [hbq, List.erase_cons_head, unmapped_iff hl]
    exact ⟨fun h => Or.inl ⟨rfl, h⟩, fun h => h.elim And.right (fun h => absurd h.1 hql)⟩
  by_cases hbl : b = l
  · rw [List.erase_cons_tail (show ¬(q == b) = true by rwa [beq_iff_eq, eq_comm]), hbl,
      List.erase_cons_head, unmapped_iff hqm]
    exact ⟨fun h => Or.inr ⟨rfl, h⟩, fun h => h.elim (fun h => absurd h.1.symm hql) And.right⟩
  -- neither is gone, and one address is left to unmap
  refine iff_of_false (fun heq => ?_) (fun h => h.elim (fun h => hbq h.1) (fun h => hbl h.1))
  obtain ⟨hlc, hlm⟩ := not_or.mp (List.mem_cons.not.mp hl)
  obtain ⟨hqc, hqm⟩ := not_or.mp (List.mem_cons.not.mp hqm)
  have hkept : ∀ x ∈ q :: l :: c :: m, b ≠ x → a ≠ x → x ≠ c → x ∉ m → False :=
    fun x hx hb ha hxc hxm => ne_of_mem_erase ((List.mem_erase_of_ne ha.symm).mpr
      ((List.mem_erase_of_ne hb.symm).mpr hx)) hxc hxm heq
  by_cases haq : a = q
  · exact hkept l (by simp) hbl (fun h => hql (haq.symm.trans h)) hlc hlm
  · exact hkept q (by simp) hbq haq hqc hqm

/-- Two regions are released if they are released with their size. -/
theorem released_iff {m : List (ℕ × ℕ)} {a b size : ℕ} (hsize : size < 2 ^ 32) :
    ((((b, size) :: (a, size) :: m).erase (b, asResourceSize (asInt size))).erase
      (a, asResourceSize (asInt size))) = m ↔ size < 2 ^ 31 := by
  constructor
  · intro heq
    by_contra hlarge
    have hne : ∀ x y : ℕ, (x, size) ≠ (y, asResourceSize (asInt size)) := fun x y h =>
      asResourceSize_asInt_ne (by omega) hsize (Prod.mk.inj h).2.symm
    have hcount := congrArg (List.count (b, size)) heq
    rw [List.count_erase_of_ne (hne _ _), List.count_erase_of_ne (hne _ _),
      List.count_cons_self, List.count_cons] at hcount
    omega
  · intro hsmall
    rw [asResourceSize_asInt hsmall, List.erase_cons_head, List.erase_cons_head]

/-- A list is as it was after two removals if neither was on it. -/
theorem erase_erase_eq_iff {α : Type} [BEq α] [LawfulBEq α] {m : List α} {a b : α} :
    (m.erase b).erase a = m ↔ b ∉ m ∧ a ∉ m := by
  constructor
  · intro heq
    have hb : m.erase b = m := by
      refine List.erase_sublist.eq_of_length_le ?_
      calc m.length = ((m.erase b).erase a).length := by rw [heq]
        _ ≤ (m.erase b).length := List.erase_sublist.length_le
    rw [hb] at heq
    exact ⟨List.erase_eq_self_iff.mp hb, List.erase_eq_self_iff.mp heq⟩
  · rintro ⟨hb, ha⟩
    rw [List.erase_eq_self_iff.mpr hb, List.erase_eq_self_iff.mpr ha]

/-- **What a failed initialization leaves is what there was**, if it is
recoverable and only then. -/
theorem ledger_failed_iff (hinst : inst < ipcShmMaxInstances) :
    (failed r inst cfg s).os.ledger = s.os.ledger ↔ Recoverable r inst cfg s := by
  unfold Recoverable
  by_cases hc : s.os.Unused r.mapIntc
  swap
  · rw [failed_of_unmapped hc]
    exact iff_of_true rfl (fun h => absurd h hc)
  rw [forall_prop_of_true hc]
  by_cases ha : KernelHw.Accepts s.hw.mscm cfg
  swap
  · rw [failed_of_not_accepts hc ha]
    refine iff_of_false (fun heq => ?_) (fun h => ha h.1)
    exact List.cons_ne_self _ _ (congrArg KernelLedger.mappings heq)
  rw [failed_of_accepts hc ha, and_iff_right ha]
  set w := s.os.remap r.mapIntc
  by_cases hlocal : w.Maps r.os.requestLocal r.os.ioremapLocal
  swap
  · obtain ⟨herr, hledger⟩ := @KernelOs.ipcOsInit_no_local w r.os inst cfg hinst hlocal
    rw [if_pos herr, KernelOs.ledger_iounmap_iff, hledger]
    exact iff_of_true ⟨rfl, List.erase_cons_head _ _, rfl⟩ (fun h => absurd h hlocal)
  rw [forall_prop_of_true hlocal]
  by_cases hwindows : w.WindowsMapped r.os
  swap
  · have hremote : ¬(w.remap r.os.ioremapLocal).Maps r.os.requestRemote r.os.ioremapRemote :=
      fun h => hwindows ⟨hlocal, h⟩
    obtain ⟨herr, hledger⟩ := @KernelOs.ipcOsInit_no_remote w r.os inst cfg hinst hlocal hremote
    rw [if_pos herr, if_neg hwindows, KernelOs.ledger_iounmap_iff, hledger]
    exact (and_iff_right rfl).trans ((and_iff_left rfl).trans (unmapped_iff hlocal.2.2))
  rw [if_pos hwindows]
  by_cases hlost : s.os.irqTable.Unreported r.os inst cfg
  · have hok := (KernelOs.ipcOsInit_no_irq hinst hwindows hlost.1).1.mpr hlost
    have hledger := KernelOs.ipcOsFree_ipcOsInit_unreported hinst hwindows hlost
    rw [if_neg (not_not.mpr hok), if_pos hlost, KernelOs.ledger_iounmap_iff, hledger]
    refine and_congr erase_erase_eq_iff (and_congr ?_ List.erase_eq_self_iff)
    show (((r.mapIntc :: s.os.ledger.mappings).erase _).erase _).erase r.mapIntc = _ ↔ _
    rw [List.erase_comm _ r.mapIntc, List.erase_comm _ r.mapIntc, List.erase_cons_head,
      erase_erase_eq_iff]
  rw [if_neg hlost]
  by_cases hirq : s.os.irqTable.Fails r.os inst cfg
  · obtain ⟨hreported, hledger⟩ := KernelOs.ipcOsInit_no_irq hinst hwindows hirq
    rw [if_pos (fun hz => hlost (hreported.mp hz)), if_pos hirq, KernelOs.ledger_iounmap_iff,
      hledger]
    exact (and_iff_right rfl).trans ((and_iff_left rfl).trans
      (both_unmapped_iff hlocal.2.2 hwindows.2.2.2))
  · obtain ⟨hok, hledger⟩ := KernelOs.ipcOsFree_ipcOsInit hinst hwindows hirq
    rw [if_neg (not_not.mpr hok), if_neg hirq, KernelOs.ledger_iounmap_iff, hledger]
    refine (and_iff_left ⟨List.erase_cons_head _ _, rfl⟩).trans (released_iff ?_)
    exact cfg.shmSize.toNat_lt

/-- **A failed initialization leaves the ledger as it was, if it is recoverable
and only then**: for every configuration, every outcome of the calls to the
system and every content of the shared memory. -/
theorem init_rollback_iff (r : InstanceReplies) (d : Driver) (inst : ℕ) (cfg : Option IpcShmCfg)
    (s : KernelSys) :
    (∀ err d' s', (ipcShmInitInstance d inst cfg).Exec (answers r) s (err, d') s' → err ≠ 0 →
        s'.os.ledger = s.os.ledger) ↔
      ∀ c ∈ cfg, Attempts inst c → Recoverable r inst c s := by
  cases cfg with
  | none =>
    refine iff_of_true (fun err d' s' h herr => ?_) (fun c hc => nomatch hc)
    unfold ipcShmInitInstance at h
    obtain ⟨state, u, hstate, h'⟩ := (Program.exec_bind _ _).mp h
    obtain rfl := (accesses_ipcInstanceIsFree d inst).inMemory.exec_eq answers_memory hstate
    clear h
    split at h'
    · rw [h'.2]
    · rw [h'.2]
  | some cfg =>
    simp only [Option.mem_def, Option.some.injEq, forall_eq']
    constructor
    · intro h ha
      obtain ⟨err, d', herr, hexec⟩ := canFail_ipcShmInitInstance (r := r) (s := s) d ha
      exact (ledger_failed_iff ha.1).mp (h err d' _ hexec herr)
    · intro h err d' s' hexec herr
      rcases failed_of_exec hexec herr with rfl | ⟨ha, rfl⟩
      · rfl
      · exact (ledger_failed_iff ha.1).mpr (h ha)

end Ledger

/-- An instance on the first core, with the interrupts 2 and 1. -/
def initCfg : IpcShmCfg :=
  { KernelOs.initCfg with localCore := { type := .a53, index := .index0, trusted := 1 } }

def granted : InstanceReplies where
  mapIntc := 0x90000000
  os := KernelOs.granted 0 33

/-- **What failed initializations leave**: the controller if the mask of trusted
cores is empty, the local window if the remote region is taken, both windows if
there is no handler, and both regions of 2 GiB if a channel fails. -/
theorem init_rollback_leaks :
    (∃ err d' s', (ipcShmInitInstance {} 0 (some KernelOs.initCfg)).Exec (answers granted) {}
      (err, d') s' ∧ err ≠ 0 ∧ s'.os.ledger = { mappings := [0x90000000] }) ∧
    (∃ err d' s', (ipcShmInitInstance {} 0 (some initCfg)).Exec
      (answers { granted with os := { KernelOs.granted 0 33 with requestRemote := false } }) {}
      (err, d') s' ∧ err ≠ 0 ∧ s'.os.ledger = { mappings := [0x80000000] }) ∧
    (∃ err d' s', (ipcShmInitInstance {} 0 (some initCfg)).Exec
      (answers { granted with os := { KernelOs.granted 0 33 with ofFindCompatibleNode := false } })
      {} (err, d') s' ∧ err ≠ 0 ∧ s'.os.ledger = { mappings := [0x80008000, 0x80000000] }) ∧
    ∃ err d' s', (ipcShmInitInstance {} 0 (some { initCfg with shmSize := 0x80000000 })).Exec
      (answers granted) {} (err, d') s' ∧ err ≠ 0 ∧ s'.os.ledger =
        { regions := [(0x34100000, 0x80000000), (0x34000000, 0x80000000)] } := by
  have hfails : ∀ (r : InstanceReplies) (cfg : IpcShmCfg) (ledger : KernelLedger),
      Attempts 0 cfg → (failed r 0 cfg {}).os.ledger = ledger →
      ∃ err d' s', (ipcShmInitInstance {} 0 (some cfg)).Exec (answers r) {} (err, d') s' ∧
        err ≠ 0 ∧ s'.os.ledger = ledger := by
    intro r cfg ledger ha hledger
    obtain ⟨err, d', herr, hexec⟩ := canFail_ipcShmInitInstance (r := r) (s := {}) {} ha
    exact ⟨err, d', _, hexec, herr, hledger⟩
  refine ⟨?_, ?_, ?_, ?_⟩
  · exact hfails _ _ _ (by decide) (by decide +kernel)
  · exact hfails _ _ _ (by decide) (by decide +kernel)
  · exact hfails _ _ _ (by decide) (by decide +kernel)
  · exact hfails _ _ _ (by decide) (by decide +kernel)

end KernelSys
