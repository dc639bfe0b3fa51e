import IpcShm.IrqReception
import Mathlib.Logic.Relation

/-!
# The remote and the interrupt controller

What the remote does to an instance that is served by interrupt: it pushes
messages, and makes their notifications, each of which sets a status bit of the
interrupt controller. The bit is one for all channels of an instance. It stays
until the interrupt is cleared, and is of use only while the interrupt is routed
to the processor.

A push and its notification are two steps, with anything in between. A message is
told of once its notification is made; it is in its ring until reception takes it
out. The two systems that take messages out, the kernel driver and the library in
user space, have these steps in common.
-/

/-! ## The controller -/

theorem UInt32.or_and_ne_zero {x c : UInt32} (b : UInt32) (h : x &&& c ≠ 0) :
    (x ||| b) &&& c ≠ 0 := by
  rw [Ne, ← UInt32.toBitVec_inj] at h ⊢
  show (x.toBitVec ||| b.toBitVec) &&& c.toBitVec ≠ 0#32
  rw [BitVec.and_or_distrib_right, Ne, BitVec.or_eq_zero_iff]
  exact fun h' => h h'.1

theorem UInt16.or_and_ne_zero {x c : UInt16} (b : UInt16) (h : x &&& c ≠ 0) :
    (x ||| b) &&& c ≠ 0 := by
  rw [Ne, ← UInt16.toBitVec_inj] at h ⊢
  show (x.toBitVec ||| b.toBitVec) &&& c.toBitVec ≠ 0#16
  rw [BitVec.and_or_distrib_right, Ne, BitVec.or_eq_zero_iff]
  exact fun h' => h h'.1

theorem UInt16.and_not_and_self (x g : UInt16) : x &&& ~~~g &&& g = 0 := by
  rw [UInt16.and_assoc, UInt16.not_and_self, UInt16.and_zero]

theorem UInt32.and_not_and_self (x b : UInt32) : x &&& ~~~b &&& b = 0 := by
  rw [UInt32.and_assoc, UInt32.not_and_self, UInt32.and_zero]

theorem UInt32.one_shiftLeft_ne_zero (k : UInt32) : (1 : UInt32) <<< k ≠ 0 := by
  intro h
  have hk : 2 ^ (k.toNat % 32) < 2 ^ 32 :=
    Nat.pow_lt_pow_right (by decide) (Nat.mod_lt _ (by decide))
  have h' := congrArg UInt32.toNat h
  rw [UInt32.toNat_shiftLeft, Nat.shiftLeft_eq, UInt32.toNat_one, Nat.one_mul,
    Nat.mod_eq_of_lt hk] at h'
  exact absurd h' (Nat.two_pow_pos _).ne'

namespace KernelHw

variable (h : KernelHw)

/-- The status bit of the receive interrupt of an instance. -/
def statusBit (i : ℕ) : UInt32 := 1 <<< UInt32.ofNat (h.priv i).remoteCore

/-- **The interrupt of an instance is pending**: its status bit is set. -/
def Pending (i : ℕ) : Prop :=
  h.mscm.isr (h.priv i).localCore (h.priv i).msiRxIrq &&& h.statusBit i ≠ 0

/-- **It is routed to the processor.** -/
def Routed (i : ℕ) : Prop := h.mscm.irsprc (h.priv i).spiIndex &&& ipcMscmIrsprcGic500 ≠ 0

/-- Bits are set in a status register. -/
def pend (core msi : ℕ) (bits : UInt32) : KernelHw :=
  { h with mscm := { h.mscm with
    isr := Function.update h.mscm.isr core
      (Function.update (h.mscm.isr core) msi (h.mscm.isr core msi ||| bits)) } }

/-- The remote of an instance notifies: the status bit is set. -/
def raise (i : ℕ) : KernelHw := h.pend (h.priv i).localCore (h.priv i).msiRxIrq (h.statusBit i)

variable {h} {i j : ℕ}

theorem pending_raise_self : (h.raise i).Pending i := by
  unfold Pending raise pend
  simp only [Function.update_self]
  have hbit : h.statusBit i &&& h.statusBit i ≠ 0 := by
    rw [UInt32.and_self]
    exact UInt32.one_shiftLeft_ne_zero _
  rw [UInt32.or_comm]
  exact UInt32.or_and_ne_zero _ hbit

/-- The bits that are set stay. -/
theorem Pending.pend {core msi : ℕ} {bits : UInt32} (hj : h.Pending j) :
    (h.pend core msi bits).Pending j := by
  show (h.pend core msi bits).mscm.isr (h.priv j).localCore (h.priv j).msiRxIrq &&&
    h.statusBit j ≠ 0
  unfold KernelHw.pend
  dsimp only
  by_cases hc : (h.priv j).localCore = core
  · rw [hc, Function.update_self]
    by_cases hm : (h.priv j).msiRxIrq = msi
    · rw [hm, Function.update_self]
      refine UInt32.or_and_ne_zero _ ?_
      rw [← hc, ← hm]
      exact hj
    · rw [Function.update_of_ne hm, ← hc]
      exact hj
  · rw [Function.update_of_ne hc]
    exact hj

/-- The interrupts of the remote are set like those of this side. -/
theorem ipcHwIrqNotify_eq (h : KernelHw) (i : ℕ) : h.ipcHwIrqNotify i = h ∨
    ∃ core msi bits, h.ipcHwIrqNotify i = h.pend core msi bits := by
  unfold ipcHwIrqNotify
  dsimp only
  split
  · exact Or.inr ⟨_, _, _, rfl⟩
  · exact Or.inl rfl

theorem pending_route {f : UInt16 → UInt16} : (h.route i f).Pending j ↔ h.Pending j := by
  unfold route
  split <;> exact Iff.rfl

theorem routed_enable_self (hi : (h.priv i).mscmRxIrq ≠ ipcIrqNone) :
    (h.ipcHwIrqEnable i).Routed i := by
  unfold Routed ipcHwIrqEnable route
  rw [if_pos hi]
  dsimp only
  rw [Function.update_self, UInt16.or_comm]
  exact UInt16.or_and_ne_zero _ (by decide)

/-- Enabling one routing disables none. -/
theorem Routed.enable (hj : h.Routed j) : (h.ipcHwIrqEnable i).Routed j := by
  unfold ipcHwIrqEnable route
  split
  · show Function.update h.mscm.irsprc (h.priv i).spiIndex _ (h.priv j).spiIndex &&& _ ≠ 0
    by_cases hs : (h.priv j).spiIndex = (h.priv i).spiIndex
    · rw [hs, Function.update_self]
      refine UInt16.or_and_ne_zero _ ?_
      rw [← hs]
      exact hj
    · rw [Function.update_of_ne hs]
      exact hj
  · exact hj

theorem routed_clear : (h.ipcHwIrqClear i).Routed j ↔ h.Routed j := by
  unfold ipcHwIrqClear
  dsimp only
  split <;> exact Iff.rfl

/-- Masking does what it says. -/
theorem not_routed_disable_self (hi : (h.priv i).mscmRxIrq ≠ ipcIrqNone) :
    ¬(h.ipcHwIrqDisable i).Routed i := by
  unfold Routed ipcHwIrqDisable route
  rw [if_pos hi]
  dsimp only
  rw [Function.update_self, UInt16.and_not_and_self]
  exact not_not.mpr rfl

/-- Masking one interrupt unmasks none. -/
theorem Routed.of_disable (hj : (h.ipcHwIrqDisable i).Routed j) : h.Routed j := by
  unfold ipcHwIrqDisable route at hj
  split at hj
  · replace hj : Function.update h.mscm.irsprc (h.priv i).spiIndex _ (h.priv j).spiIndex
        &&& _ ≠ 0 := hj
    by_cases hs : (h.priv j).spiIndex = (h.priv i).spiIndex
    · rw [hs, Function.update_self, UInt16.and_not_and_self] at hj
      exact absurd rfl hj
    · rwa [Function.update_of_ne hs] at hj
  · exact hj

/-- Clearing does what it says. -/
theorem not_pending_clear_self (hi : (h.priv i).mscmRxIrq ≠ ipcIrqNone) :
    ¬(h.ipcHwIrqClear i).Pending i := by
  unfold Pending ipcHwIrqClear statusBit
  dsimp only
  rw [if_pos hi]
  dsimp only
  rw [Function.update_self, Function.update_self, UInt32.and_not_and_self]
  exact not_not.mpr rfl

/-- Clearing sets no bit. -/
theorem Pending.of_clear (hj : (h.ipcHwIrqClear i).Pending j) : h.Pending j := by
  unfold ipcHwIrqClear at hj
  dsimp only at hj
  split at hj
  · replace hj : Function.update h.mscm.isr (h.priv i).localCore _ (h.priv j).localCore
        (h.priv j).msiRxIrq &&& h.statusBit j ≠ 0 := hj
    by_cases hc : (h.priv j).localCore = (h.priv i).localCore
    · rw [hc, Function.update_self] at hj
      by_cases hm : (h.priv j).msiRxIrq = (h.priv i).msiRxIrq
      · rw [hm, Function.update_self, UInt32.and_assoc, UInt32.and_comm (~~~_),
          ← UInt32.and_assoc] at hj
        unfold Pending
        rw [hc, hm]
        exact fun h0 => hj (by rw [h0, UInt32.zero_and])
      · rw [Function.update_of_ne hm, ← hc] at hj
        exact hj
    · rw [Function.update_of_ne hc] at hj
      exact hj
  · exact hj

end KernelHw

/-! ## What the remote does -/

/-- **What is shared with the remote**: memory and the interrupt controller, and
what the remote has done so far. -/
structure RxState where
  mem : ByteMem
  mscm : Mscm
  /-- The number of messages the remote has pushed into a channel. -/
  pushed : ℕ → ℕ → ℕ
  /-- Those it has made the notification of, by instance, channel and number. -/
  told : List (ℕ × ℕ × ℕ)

namespace IrqInstances

variable (K : IrqInstances)

/-- The HW layer with some state of the registers. -/
def hwOf (mscm : Mscm) : KernelHw := { priv := K.hw, mscm := mscm }

/-- **A message is still in the ring**: the ring holds the last ones pushed. -/
def InRing (τ : RxState) (i c k : ℕ) : Prop :=
  k < τ.pushed i c ∧ τ.pushed i c ≤ k + K.waiting i c τ.mem

/-- The write index of one channel moved on. -/
def pushWrite (i c : ℕ) (m : ByteMem) (j c' : ℕ) : ℕ :=
  if j = i ∧ c' = c then (K.writeIdx i c m + 1) % (K.queue i c).elemNum else K.writeIdx j c' m

/-- **What happens around reception.** -/
inductive Around (τ : RxState) : RxState → Prop where
  /-- The remote pushes a message into a ring that is not full. -/
  | push {i c : ℕ} {mem : ByteMem} (hc : K.Managed i c)
      (hfull : K.waiting i c τ.mem + 1 < (K.queue i c).elemNum)
      (hmem : K.Moves τ.mem mem (fun j c' => K.readIdx j c' τ.mem) (K.pushWrite i c τ.mem)) :
      Around τ { τ with
        mem := mem
        pushed := fun j c' => if j = i ∧ c' = c then τ.pushed i c + 1 else τ.pushed j c' }
  /-- It makes the notification of a message it pushed. -/
  | notify {i c k : ℕ} (hc : K.Managed i c) (hk : k < τ.pushed i c) :
      Around τ { τ with
        mscm := ((K.hwOf τ.mscm).raise i).mscm
        told := (i, c, k) :: τ.told }
  /-- A notification without a message, of an unmanaged channel. -/
  | raise {i : ℕ} (hi : K.Serves i) :
      Around τ { τ with mscm := ((K.hwOf τ.mscm).raise i).mscm }
  /-- Anybody writes to memory, except to the marks and indexes of the queues. -/
  | write {mem : ByteMem}
      (hmem : K.Moves τ.mem mem (fun i c => K.readIdx i c τ.mem)
        (fun i c => K.writeIdx i c τ.mem)) :
      Around τ { τ with mem := mem }
  /-- The remote is notified of a message that is sent to it. -/
  | tx {i : ℕ} : Around τ { τ with mscm := ((K.hwOf τ.mscm).ipcHwIrqNotify i).mscm }

variable {K} {i c : ℕ} {m m' : ByteMem} {τ τ' : RxState}

/-- A message is pushed. -/
theorem Standing.push (h : K.Standing m) (hc : K.Managed i c)
    (hfull : K.waiting i c m + 1 < (K.queue i c).elemNum)
    (hm : K.Moves m m' (fun j c' => K.readIdx j c' m) (K.pushWrite i c m)) :
    K.Later m m' ∧ ∀ j c', K.Managed j c' →
      K.waiting j c' m' = K.waiting j c' m + if j = i ∧ c' = c then 1 else 0 := by
  have hwait : ∀ j c', K.Managed j c' →
      K.waiting j c' m' = K.waiting j c' m + if j = i ∧ c' = c then 1 else 0 := fun j c' hj => by
    rw [waiting, hm.read j c' hj, hm.write j c' hj, pushWrite]
    split
    · rename_i heq
      obtain ⟨rfl, rfl⟩ := heq
      exact Cyclic.dist_succ_left (h.write_lt j c' hc) (h.read_lt j c' hc) hfull
    · rfl
  refine ⟨⟨h.moves hm h.read_lt (fun j c' hj => ?_), hm.read, fun j c' hj => ?_⟩, hwait⟩
  · rw [pushWrite]
    split
    · rename_i heq
      obtain ⟨rfl, rfl⟩ := heq
      exact Nat.mod_lt _ hc.elemNum_pos
    · exact h.write_lt j c' hj
  · rw [hwait j c' hj]
    exact Nat.le_add_right _ _

/-! ### What it leaves -/

variable (K) in
/-- The instances stand, and only messages that were pushed are notified. -/
structure Sound (τ : RxState) : Prop where
  standing : K.Standing τ.mem
  told : ∀ i c k, (i, c, k) ∈ τ.told → k < τ.pushed i c

/-- Nothing is taken out of a ring. -/
theorem Around.later (hs : K.Around τ τ') (h : K.Standing τ.mem) : K.Later τ.mem τ'.mem := by
  cases hs with
  | push hc hfull hmem => exact (h.push hc hfull hmem).1
  | write hmem => exact (h.still hmem (fun _ _ _ => rfl)).1
  | notify _ _ => exact h.later
  | raise _ => exact h.later
  | tx => exact h.later

theorem Around.sound (hs : K.Around τ τ') (h : K.Sound τ) : K.Sound τ' := by
  refine ⟨(hs.later h.standing).standing, ?_⟩
  cases hs with
  | push hc hfull hmem =>
    intro j c' k hk
    have hlt := h.told j c' k hk
    dsimp only
    split
    · rename_i heq
      obtain ⟨rfl, rfl⟩ := heq
      exact Nat.lt_succ_of_lt hlt
    · exact hlt
  | notify hc hk =>
    intro j c' k' hk'
    rcases List.mem_cons.mp hk' with heq | hk'
    · cases heq
      exact hk
    · exact h.told j c' k' hk'
  | write _ => exact h.told
  | raise _ => exact h.told
  | tx => exact h.told

/-- The bits of the controller are set, not cleared. -/
theorem Around.hw (hs : K.Around τ τ') {now : KernelHw → Prop}
    (hpend : ∀ hw core msi bits, now hw → now (hw.pend core msi bits))
    (h : now (K.hwOf τ.mscm)) : now (K.hwOf τ'.mscm) := by
  cases hs with
  | push _ _ _ => exact h
  | write _ => exact h
  | notify _ _ => exact hpend _ _ _ _ h
  | raise _ => exact hpend _ _ _ _ h
  | @tx i =>
    show now { priv := K.hw, mscm := ((K.hwOf τ.mscm).ipcHwIrqNotify i).mscm }
    rcases (K.hwOf τ.mscm).ipcHwIrqNotify_eq i with heq | ⟨core, msi, bits, heq⟩
    · rw [heq]
      exact h
    · rw [heq]
      exact hpend _ _ _ _ h

/-- **A message that is notified and in its ring** was so before, or has just been
notified. -/
theorem Around.notified (hs : K.Around τ τ') (h : K.Sound τ) (hc : K.Managed i c) {k : ℕ}
    (htold : (i, c, k) ∈ τ'.told) (hring : K.InRing τ' i c k) :
    ((i, c, k) ∈ τ.told ∧ K.InRing τ i c k) ∨ (K.hwOf τ'.mscm).Pending i := by
  cases hs with
  | push hc' hfull hmem =>
    refine Or.inl ⟨htold, h.told i c k htold, ?_⟩
    have hle := hring.2
    have hwait := (h.standing.push hc' hfull hmem).2 i c hc
    dsimp only at hle
    rw [hwait] at hle
    split at hle
    · rename_i heq
      obtain ⟨rfl, rfl⟩ := heq
      omega
    · exact hle
  | notify hc' hk =>
    rcases List.mem_cons.mp htold with heq | htold
    · cases heq
      exact Or.inr KernelHw.pending_raise_self
    · exact Or.inl ⟨htold, hring⟩
  | write hmem =>
    refine Or.inl ⟨htold, hring.1, ?_⟩
    have hle := hring.2
    dsimp only at hle
    rwa [(h.standing.still hmem (fun _ _ _ => rfl)).2 i c hc] at hle
  | raise _ => exact Or.inl ⟨htold, hring⟩
  | tx => exact Or.inl ⟨htold, hring⟩

/-- Reception makes no ring longer. -/
theorem InRing.of_waiting_le {mem : ByteMem} {mscm : Mscm} {k : ℕ}
    (h : K.InRing { τ with mem := mem, mscm := mscm } i c k)
    (hle : K.waiting i c mem ≤ K.waiting i c τ.mem) : K.InRing τ i c k :=
  ⟨h.1, h.2.trans (Nat.add_le_add_left hle k)⟩

end IrqInstances

/-! ## Four instances -/

/-- The windows of four instances. -/
def fourMaps (i : ℕ) : ShmMap where
  localShm := 0x10000 * (i % 4 + 1)
  remoteShm := 0x10000 * (i % 4 + 1) + 0x1000
  size := 0x1000
  localShm_pos := by omega
  remoteShm_pos := by omega
  localShm_lt := by omega
  remoteShm_lt := by omega
  disjoint := by omega

/-- The sample configuration is accepted for each. -/
theorem sampleCfg_init_four (i : ℕ) (hi : i < ipcShmMaxInstances) :
    ∃ d : Driver, (d.priv i).Laid (fourMaps i).os sampleCfg := by
  have h : ∀ i < ipcShmMaxInstances, ((ipcShmInitInstance {} i (some sampleCfg)).run
      (memHandle (fourMaps i) .a) (fun _ _ => 0)).map (fun r => r.1.1) = some 0 := by
    decide +kernel
  obtain ⟨⟨⟨err, d⟩, shm⟩, hrun, rfl⟩ := Option.map_eq_some_iff.mp (h i hi)
  exact ⟨d, (ipcShmInitInstance_laid rfl (by show sampleCfg.footprint ≤ 0x1000; decide +kernel)
    (Program.returns_of_run env_of_memHandle hrun)).2⟩

/-- Initialized instances of the sample configuration, as many as are wanted. -/
theorem exists_fourInstances (Serves : ℕ → Prop) (hw : ℕ → HwInstance)
    (hlt : ∀ i, Serves i → i < ipcShmMaxInstances)
    (hne : ∀ i, Serves i → (hw i).mscmRxIrq ≠ ipcIrqNone) :
    ∃ K : IrqInstances,
      K.Serves = Serves ∧ K.hw = hw ∧ K.μ = fourMaps ∧ K.cfg = fun _ => sampleCfg := by
  choose d hd using sampleCfg_init_four
  refine ⟨{ d := { priv := fun i => if h : i < ipcShmMaxInstances then (d i h).priv i else {} }
            Serves := Serves
            serves_lt := hlt
            hw := hw
            cfg := fun _ => sampleCfg
            μ := fourMaps
            laid := fun i hi => ?_
            fits := fun i _ => ?_
            numChannels_pos := fun _ _ => by decide
            mscmRxIrq_ne := hne
            apart := fun i j hi hj hne => ?_ }, rfl, rfl, rfl, rfl⟩
  · dsimp only
    rw [dif_pos (hlt i hi)]
    exact hd i (hlt i hi)
  · show sampleCfg.footprint ≤ 0x1000
    decide +kernel
  · have hi : i < 4 := hlt i hi
    have hj : j < 4 := hlt j hj
    simp only [ShmMap.Apart, fourMaps, List.mem_cons, List.not_mem_nil, or_false, forall_eq_or_imp,
      forall_eq]
    omega

/-- Every window marked in use, with one queue that is initialized and empty. -/
def fourMem : ByteMem := fun a =>
  if a % 0x1000 < 8 then (leBytes 8 ipcShmStateReady).getD (a % 0x1000) 0
  else if a % 0x1000 < 16 then (leBytes 8 ipcQueueInitDone).getD (a % 0x1000 - 8) 0
  else 0

/-- Nothing has been notified. -/
def fourState : RxState where
  mem := fourMem
  mscm := { irsprc := fun _ => ipcMscmIrsprcGic500 }
  pushed := fun _ _ => 0
  told := []

theorem fourMem_words : ∀ i < ipcShmMaxInstances,
    fourMem.load 8 (fourMaps i).localShm = ipcShmStateReady ∧
    fourMem.load 8 ((fourMaps i).localShm + 8) = ipcQueueInitDone ∧
    fourMem.load 8 ((fourMaps i).remoteShm + 8) = ipcQueueInitDone ∧
    fourMem.load 4 ((fourMaps i).localShm + 20) = 0 ∧
    fourMem.load 4 ((fourMaps i).remoteShm + 16) = 0 := by
  decide +kernel

/-- The one managed channel of the sample configuration. -/
theorem sampleCfg_hasQueue {c : ℕ} (h : sampleCfg.HasQueue (.chan c)) : c = 0 := by
  obtain ⟨-, m, hm⟩ := h
  by_contra hne
  simp [sampleCfg, IpcShmCfg.chan, hne] at hm

/-- Instances of the sample configuration, one window after the other. -/
structure IrqInstances.Four (K : IrqInstances) : Prop where
  zero : K.Serves 0
  maps : K.μ = fourMaps
  cfg : K.cfg = fun _ => sampleCfg

namespace IrqInstances.Four

variable {K : IrqInstances} (hK : K.Four) {i c : ℕ}

include hK

theorem managed_zero : K.Managed 0 0 := by
  refine ⟨hK.zero, ?_⟩
  rw [hK.cfg]
  exact ⟨by decide, _, rfl⟩

theorem eq_zero (h : K.Managed i c) : c = 0 := by
  have hq := h.2
  rw [hK.cfg] at hq
  exact sampleCfg_hasQueue hq

theorem pushRing (h : K.Managed i 0) : (K.queue i 0).pushRing = (fourMaps i).localShm + 8 := by
  have hoff : sampleCfg.chanOff 0 = 8 := by decide +kernel
  rw [h.pushRing_eq, IrqInstances.ctrl, hK.cfg, hK.maps, hoff]

theorem popRing (h : K.Managed i 0) : (K.queue i 0).popRing = (fourMaps i).remoteShm + 8 := by
  have hoff : sampleCfg.chanOff 0 = 8 := by decide +kernel
  rw [h.popRing_eq, hK.cfg, hK.maps, hoff]

theorem global (hi : K.Serves i) : (K.d.priv i).global = (fourMaps i).localShm := by
  rw [(K.laid i hi).global_eq, hK.maps]
  rfl

theorem readIdx (h : K.Managed i 0) : K.readIdx i 0 fourMem = 0 := by
  rw [IrqInstances.readIdx, hK.pushRing h]
  exact (fourMem_words i (K.serves_lt i h.1)).2.2.2.1

theorem writeIdx (h : K.Managed i 0) : K.writeIdx i 0 fourMem = 0 := by
  rw [IrqInstances.writeIdx, hK.popRing h]
  exact (fourMem_words i (K.serves_lt i h.1)).2.2.2.2

theorem standing : K.Standing fourMem := by
  refine ⟨fun i hi => ?_, fun i c h => ?_, fun i c h => ?_, fun i c h => ?_, fun i c h => ?_⟩
  · rw [hK.global hi, (fourMem_words i (K.serves_lt i hi)).1]
    decide
  all_goals obtain rfl := hK.eq_zero h
  · rw [hK.popRing h]
    exact (fourMem_words i (K.serves_lt i h.1)).2.2.1
  · rw [hK.pushRing h]
    exact (fourMem_words i (K.serves_lt i h.1)).2.1
  · rw [hK.readIdx h]
    exact h.elemNum_pos
  · rw [hK.writeIdx h]
    exact h.elemNum_pos

/-- The remote of the first instance stores its write index. -/
theorem moves : K.Moves fourMem (fourMem.store 4 ((K.queue 0 0).popRing + 8) 1)
    (fun j c' => K.readIdx j c' fourMem) (K.pushWrite 0 0 fourMem) := by
  have hbase : ∀ i, (fourMaps i).localShm = 0x10000 * (i % 4 + 1) ∧
      (fourMaps i).remoteShm = 0x10000 * (i % 4 + 1) + 0x1000 := fun i => ⟨rfl, rfl⟩
  have hb₀ := hbase 0
  have h₀ := hK.managed_zero
  rw [hK.popRing h₀]
  refine ⟨fun i hi => ?_, fun i c h => ?_, fun i c h => ?_, fun i c h => ?_, fun i c h => ?_⟩
  · have hb := hbase i
    rw [hK.global hi]
    exact ByteMem.load_store_of_disjoint _ (by omega)
  all_goals
    obtain rfl := hK.eq_zero h
    have hb := hbase i
    have hi : i < 4 := (K.serves_lt i h.1)
  · rw [hK.popRing h]
    exact ByteMem.load_store_of_disjoint _ (by omega)
  · rw [hK.pushRing h]
    exact ByteMem.load_store_of_disjoint _ (by omega)
  · rw [IrqInstances.readIdx, hK.pushRing h, IrqInstances.readIdx, hK.pushRing h]
    exact ByteMem.load_store_of_disjoint _ (by omega)
  · rw [IrqInstances.pushWrite, hK.writeIdx h₀]
    split
    · rename_i heq
      obtain ⟨rfl, -⟩ := heq
      rw [IrqInstances.writeIdx, hK.popRing h₀, ByteMem.load_store_self_of_lt _ (by decide),
        Nat.mod_eq_of_lt h₀.one_lt_elemNum]
    · rename_i hne
      have hne : i ≠ 0 := fun h0 => hne ⟨h0, rfl⟩
      rw [IrqInstances.writeIdx, hK.popRing h, IrqInstances.writeIdx, hK.popRing h]
      exact ByteMem.load_store_of_disjoint _ (by omega)

/-- A message for the first of the instances is pushed and notified. It is alone in
its ring. -/
theorem exists_notified : ∃ τ : RxState, Relation.ReflTransGen K.Around fourState τ ∧
    (0, 0, 0) ∈ τ.told ∧ K.InRing τ 0 0 0 ∧ K.waiting 0 0 τ.mem = 1 := by
  have h₀ := hK.managed_zero
  have hwait : K.waiting 0 0 fourMem = 0 := by
    rw [IrqInstances.waiting, hK.writeIdx h₀, hK.readIdx h₀, Cyclic.dist_self]
  have hfull : K.waiting 0 0 fourMem + 1 < (K.queue 0 0).elemNum := by
    rw [hwait]
    exact h₀.one_lt_elemNum
  have hpushed : K.Around fourState _ := .push h₀ hfull hK.moves
  have hone := (hK.standing.push h₀ hfull hK.moves).2 0 0 h₀
  rw [hwait, if_pos ⟨rfl, rfl⟩] at hone
  refine ⟨_, (Relation.ReflTransGen.single hpushed).tail (.notify h₀ (k := 0) Nat.one_pos),
    List.mem_cons_self, ⟨Nat.one_pos, ?_⟩, hone⟩
  show 1 ≤ 0 + K.waiting 0 0 _
  rw [hone]

end IrqInstances.Four
