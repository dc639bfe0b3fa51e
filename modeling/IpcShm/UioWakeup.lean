import IpcShm.SoftIrq
import IpcShm.UioLibrary

/-!
# No message waits unnoticed in user space

With the driver in user space the kernel keeps only the interrupt handlers, one
for the UIO device of each instance. A handler masks and clears the notifications
of its instance, and the kernel counts an event of the device. A thread of the
library reads the device: that blocks until there are events it has not seen, and
takes note of all of them. The thread then receives until a call returns less
than the budget, has the notifications enabled by a command, and reads again.

Compared with the tasklet there is a thread for each instance, all of them run at
the same time, and each handler clears for one instance only. What makes this
work is that no two devices have the same interrupt (`UioModule.Registered`): the
handler of one instance does not clear the status bit of another, whose thread
would not be woken. And a thread relies on nobody else taking messages out of the
rings of its own instance only (`IrqInstances.only`).

`uio_no_lost_wakeup` says of every state that a message that was notified and is
in its ring has something to rely on: the status bit, a handler of its instance,
an event the thread has not seen, or a call of reception that has yet to find the
channel empty or to use up its budget, in which case the thread calls again.
`uio_interrupt_taken` adds that the interrupt is routed when the thread sleeps
with no event left and no handler in progress. So the thread never sleeps on a
message that was notified.
-/

/-! ## The two sides of the device -/

/-- The hardirq handler of a device, for the instance of the device. -/
def ipcShmUioHandler (inst : ℕ) : Irq Unit := do
  Irq.ofDrv (ipcHwIrqDisable inst)
  Irq.ipcHwIrqClear inst

/-- The number of a command. -/
def IpcUioCmd.code : IpcUioCmd → ℤ
  | .disable => 1
  | .enable => 2
  | .trigger => 3

/-- What the kernel does with a number that is written to the device. -/
def KernelHw.ipcShmUioIrqcontrol (h : KernelHw) (inst : ℕ) (cmd : ℤ) : KernelHw :=
  if cmd = IpcUioCmd.disable.code then h.ipcHwIrqDisable inst
  else if cmd = IpcUioCmd.enable.code then h.ipcHwIrqEnable inst
  else if cmd = IpcUioCmd.trigger.code then h.ipcHwIrqNotify inst
  else h

/-- Where a thread of the library is in its loop. -/
inductive UioThread where
  /-- In `read`. -/
  | sleeping
  /-- In a call of reception, with what is left of it. -/
  | receiving (rx : Drv ℕ)
  /-- Before the command to enable notifications. -/
  | enabling

/-- The thread calls reception. -/
def UioThread.calls (d : Driver) (inst : ℕ) : UioThread :=
  .receiving (ipcShmRx d inst ipcSoftirqBudget)

/-- The end of the inner loop: `work >= budget`, both of type `int`. -/
def UioThread.returned (d : Driver) (inst work : ℕ) : UioThread :=
  if (ipcSoftirqBudget : ℤ) ≤ asInt work then .calls d inst else .enabling

/-! ## The system -/

/-- **The instances of the library**, each with a device of the kernel module. The
interrupt of a device is the one the kernel has for the interrupt of the
instance. -/
structure UioInstances extends IrqInstances where
  kmod : UioModule
  registered : kmod.Registered
  platformGetIrq : ℤ → ℤ
  device : ∀ i, Serves i → (i, platformGetIrq (hw i).mscmRxIrq) ∈ kmod.devices
  msi : ∀ i, Serves i → msiIndex (hw i).mscmRxIrq = some (some (hw i).msiRxIrq)
  spi : ∀ i, Serves i → (hw i).spiIndex = (hw i).msiRxIrq + 1

/-- **The state of the library and the kernel module.** -/
structure UioSys extends RxState where
  /-- The handlers in progress, by instance, each with what it has left to do. -/
  handlers : List (ℕ × Irq Unit)
  /-- The number of events of a device. -/
  event : ℕ → ℕ
  /-- How many of them its reader has seen. -/
  seen : ℕ → ℕ
  thread : ℕ → UioThread

namespace UioInstances

variable (K : UioInstances)

/-- **What can happen.** -/
inductive Step (σ : UioSys) : UioSys → Prop where
  | around {τ : RxState} (hs : K.Around σ.toRxState τ) : Step σ { σ with toRxState := τ }
  /-- An interrupt that is pending and routed is taken. -/
  | interrupt {i : ℕ} (hi : K.Serves i) (hp : (K.hwOf σ.mscm).Pending i)
      (hr : (K.hwOf σ.mscm).Routed i) :
      Step σ { σ with handlers := (i, ipcShmUioHandler i) :: σ.handlers }
  /-- A handler makes a request. -/
  | handler {before after : List (ℕ × Irq Unit)} {i : ℕ} {o : IrqOp} {k : o.Ret → Irq Unit}
      {r : o.Ret} {mem : ByteMem} (hp : σ.handlers = before ++ (i, .op o k) :: after)
      (hr : o.Answers σ.mem r mem) :
      Step σ { σ with
        mem := mem
        mscm := (o.onHw (K.hwOf σ.mscm)).mscm
        handlers := before ++ (i, k r) :: after }
  /-- A handler returns, and the event is counted. -/
  | handlerReturn {before after : List (ℕ × Irq Unit)} {i : ℕ}
      (hp : σ.handlers = before ++ (i, .pure ()) :: after) :
      Step σ { σ with
        handlers := before ++ after
        event := Function.update σ.event i (σ.event i + 1) }
  /-- The thread has read the device. -/
  | read {i : ℕ} (hi : K.Serves i) (ht : σ.thread i = .sleeping) (he : σ.event i ≠ σ.seen i) :
      Step σ { σ with
        seen := Function.update σ.seen i (σ.event i)
        thread := Function.update σ.thread i (.calls K.d i) }
  /-- Reading failed, which the thread does not notice. -/
  | readFails {i : ℕ} (hi : K.Serves i) (ht : σ.thread i = .sleeping) :
      Step σ { σ with thread := Function.update σ.thread i (.calls K.d i) }
  /-- Reception makes a request. -/
  | receive {i : ℕ} {o : Op} {k : o.Ret → Drv ℕ} {r : o.Ret} {mem : ByteMem} (hi : K.Serves i)
      (ht : σ.thread i = .receiving (.op o k)) (hr : o.Answers σ.mem r mem) :
      Step σ { σ with
        mem := mem
        mscm := (o.onHw (K.hwOf σ.mscm)).mscm
        thread := Function.update σ.thread i (.receiving (k r)) }
  | receiveReturn {i work : ℕ} (hi : K.Serves i) (ht : σ.thread i = .receiving (.pure work)) :
      Step σ { σ with thread := Function.update σ.thread i (.returned K.d i work) }
  /-- The thread writes the command. -/
  | enable {i : ℕ} (hi : K.Serves i) (ht : σ.thread i = .enabling) :
      Step σ { σ with
        mscm := ((K.hwOf σ.mscm).ipcShmUioIrqcontrol i IpcUioCmd.enable.code).mscm
        thread := Function.update σ.thread i .sleeping }

/-- **The state in which all is set up**: the instances stand, their interrupts
are routed, the threads wait, and nothing was notified. -/
structure Start (σ : UioSys) : Prop where
  standing : K.Standing σ.mem
  routed : ∀ i, K.Serves i → (K.hwOf σ.mscm).Routed i
  handlers : σ.handlers = []
  seen_le : ∀ i, σ.seen i ≤ σ.event i
  thread : ∀ i, σ.thread i = .sleeping
  told : σ.told = []

end UioInstances

/-! ## One interrupt for each instance -/

/-- The MSI index is the number of the interrupt. -/
theorem eq_of_msiIndex {irq : ℤ} {n : ℕ} (h : msiIndex irq = some (some n)) : irq = n := by
  unfold msiIndex at h
  split_ifs at h with h₀ h₁ h₂ h₃ <;> cases h
  · exact h₁
  · exact h₂
  · exact h₃

namespace KernelHw

variable {h : KernelHw} {i j : ℕ}

/-- Clearing for one instance leaves the status bits of an other interrupt. -/
theorem Pending.clear (hj : h.Pending j) (hne : (h.priv j).msiRxIrq ≠ (h.priv i).msiRxIrq) :
    (h.ipcHwIrqClear i).Pending j := by
  unfold ipcHwIrqClear
  dsimp only
  split
  · show Function.update h.mscm.isr (h.priv i).localCore _ (h.priv j).localCore
      (h.priv j).msiRxIrq &&& h.statusBit j ≠ 0
    by_cases hc : (h.priv j).localCore = (h.priv i).localCore
    · rw [hc, Function.update_self, Function.update_of_ne hne, ← hc]
      exact hj
    · rw [Function.update_of_ne hc]
      exact hj
  · exact hj

theorem Routed.disable (hj : h.Routed j) (hne : (h.priv j).spiIndex ≠ (h.priv i).spiIndex) :
    (h.ipcHwIrqDisable i).Routed j := by
  unfold ipcHwIrqDisable route
  split
  · show Function.update h.mscm.irsprc (h.priv i).spiIndex _ (h.priv j).spiIndex &&& _ ≠ 0
    rw [Function.update_of_ne hne]
    exact hj
  · exact hj

end KernelHw

namespace UioInstances

variable {K : UioInstances} {i j : ℕ}

/-- **No two instances have the same interrupt**, because no two devices have. -/
theorem msi_inj (hi : K.Serves i) (hj : K.Serves j)
    (h : (K.hw i).msiRxIrq = (K.hw j).msiRxIrq) : i = j := by
  have hirq : (K.hw i).mscmRxIrq = (K.hw j).mscmRxIrq := by
    rw [eq_of_msiIndex (K.msi i hi), eq_of_msiIndex (K.msi j hj), h]
  exact K.registered.irq_inj _ (K.device i hi) _ (K.device j hj) (congrArg K.platformGetIrq hirq)

theorem spi_inj (hi : K.Serves i) (hj : K.Serves j)
    (h : (K.hw i).spiIndex = (K.hw j).spiIndex) : i = j := by
  have h₁ := K.spi i hi
  have h₂ := K.spi j hj
  exact msi_inj hi hj (by omega)

end UioInstances

/-! ## One thread among the others -/

namespace IrqInstances

variable (K : IrqInstances)

/-- **One instance alone**: what its thread is concerned with. -/
def only (i : ℕ) : IrqInstances where
  d := K.d
  Serves := fun j => j = i ∧ K.Serves j
  serves_lt := fun j hj => K.serves_lt j hj.2
  hw := K.hw
  cfg := K.cfg
  μ := K.μ
  laid := fun j hj => K.laid j hj.2
  fits := fun j hj => K.fits j hj.2
  numChannels_pos := fun j hj => K.numChannels_pos j hj.2
  mscmRxIrq_ne := fun j hj => K.mscmRxIrq_ne j hj.2
  apart := fun j j' hj hj' => K.apart j j' hj.2 hj'.2

variable {K} {i j c : ℕ} {m m' : ByteMem}

theorem Managed.of_only (h : (K.only i).Managed j c) : j = i ∧ K.Managed j c :=
  ⟨h.1.1, h.1.2, h.2⟩

theorem Managed.only (h : K.Managed i c) : (K.only i).Managed i c := ⟨⟨rfl, h.1⟩, h.2⟩

theorem Standing.only (h : K.Standing m) : (K.only i).Standing m where
  used := fun j hj => h.used j hj.2
  popDone := fun j c hc => h.popDone j c hc.of_only.2
  pushDone := fun j c hc => h.pushDone j c hc.of_only.2
  read_lt := fun j c hc => h.read_lt j c hc.of_only.2
  write_lt := fun j c hc => h.write_lt j c hc.of_only.2

theorem Later.only (h : K.Later m m') : (K.only i).Later m m' where
  standing := h.standing.only
  read_eq := fun j c hc => h.read_eq j c hc.of_only.2
  waiting_le := fun j c hc => h.waiting_le j c hc.of_only.2

theorem Asks.of_only {o : Op} (h : (K.only i).Asks o m) : K.Asks o m := by
  cases o with
  | store n a v =>
    obtain ⟨rfl, ⟨j, c, hc, ha, hne, hv⟩ | ⟨j, c, hc, hu, ha⟩⟩ := h
    · exact ⟨rfl, Or.inl ⟨j, c, hc.of_only.2, ha, hne, hv⟩⟩
    · refine ⟨rfl, Or.inr ⟨j, c, ⟨hc.1.2, hc.2⟩, fun hm => hu ?_, ha⟩⟩
      exact ⟨hc.1, hm.2⟩
  | _ => exact h

/-- **What a thread does is no concern of the others**: it takes messages out of
the rings of its own instance only. -/
theorem Standing.later_other {o : Op} {r : o.Ret} (h : K.Standing m) (ha : (K.only i).Asks o m)
    (hr : o.Answers m r m') (hne : j ≠ i) : (K.only j).Later m m' := by
  have hsame : m' = m → (K.only j).Later m m' := by
    rintro rfl
    exact h.only.later
  cases o with
  | store n a v =>
    obtain ⟨rfl, ⟨i', c, hc, rfl, hidx, rfl⟩ | ⟨i', c, hc, hu, rfl⟩⟩ := ha
    · obtain ⟨rfl, hk⟩ := hc.of_only
      obtain ⟨hm', -, hrest⟩ := h.pop hk hidx hr
      have hothers : ∀ j' c', (K.only j).Managed j' c' →
          K.readIdx j' c' m' = K.readIdx j' c' m ∧ K.waiting j' c' m' = K.waiting j' c' m := by
        intro j' c' hj
        obtain ⟨rfl, hk'⟩ := hj.of_only
        exact hrest j' c' hk' (fun heq => hne heq.1)
      exact ⟨hm'.only, fun j' c' hj => (hothers j' c' hj).1,
        fun j' c' hj => Nat.le_of_eq (hothers j' c' hj).2.symm⟩
    · have hu : ¬K.Managed i' c := fun hm => hu ⟨hc.1, hm.2⟩
      exact (h.umem ⟨hc.1.2, hc.2⟩ hu hr).1.only
  | load n a => exact hsame hr.2
  | memcpyFrom a n => exact hsame hr.2
  | poolsOutOfBounds _ => exact hsame hr
  | rxCb _ _ _ _ _ _ => exact hsame hr
  | rxCbUnmanaged _ _ _ _ _ => exact hsame hr
  | ipcHwIrqEnable _ => exact hsame hr
  | _ => exact False.elim ha

variable (K) in
/-- What is left of a call of reception, among the others, returns with `Q` unless
an exchange meets `stop` before. -/
def Receiving (i : ℕ) (stop : (o : Op) → ByteMem → o.Ret → Prop) (Q : ℕ → Prop) (rx : Drv ℕ)
    (m : ByteMem) : Prop :=
  Program.Among (K.only i).Meanwhile (K.only i).Asks Op.Answers stop rx (fun w _ => Q w) m

variable {stop : (o : Op) → ByteMem → o.Ret → Prop}

/-- A call from its start. -/
theorem receiving_start (hi : K.Serves i) (hm : K.Standing m) {Q : ℕ → Prop}
    (hQ : ∀ w < 2 ^ 31, (∀ c, K.Managed i c → K.StopsEmpty stop i c → ipcSoftirqBudget ≤ w) →
      Q w) : K.Receiving i stop Q (ipcShmRx K.d i ipcSoftirqBudget) m := by
  intro m' hlater
  exact Program.wp_mono monotone_drvReading _
    (fun w _ h => hQ w h.2.1 (fun c hc => h.2.2 c hc.only))
    (ipcShmRx_wp (K := K.only i) ⟨rfl, hi⟩ (hlater hm.only).standing)

end IrqInstances

namespace UioInstances

open IrqInstances

variable (K : UioInstances)

/-! ## The invariant -/

/-- A handler is in progress for an instance: all it asks for is to mask and to
clear the notifications of that instance. -/
def Handling (i : ℕ) (p : Irq Unit) : Prop :=
  p.Always (fun _ _ => True) (fun o => o = .drv (.ipcHwIrqDisable i) ∨ o = .ipcHwIrqClear i)
    (fun _ => True)

/-- **What always holds**: the instances stand, handlers and threads are in the
middle of their programs, and no more events are seen than there were. -/
structure Inv (σ : UioSys) : Prop extends K.Sound σ.toRxState where
  handlers : ∀ h ∈ σ.handlers, K.Serves h.1 ∧ Handling h.1 h.2
  seen_le : ∀ i, σ.seen i ≤ σ.event i
  rx : ∀ i p, K.Serves i → σ.thread i = .receiving p →
    K.Receiving i (fun _ _ _ => False) (fun w => w < 2 ^ 31) p σ.mem

variable {K} {i j c : ℕ} {σ σ' : UioSys}

theorem ipcShmUioHandler_handling (i : ℕ) : Handling i (ipcShmUioHandler i) :=
  ⟨Or.inl rfl, fun _ _ => ⟨Or.inr rfl, fun _ _ => trivial⟩⟩

theorem Handling.answers {o : IrqOp} {k : o.Ret → Irq Unit} {r : o.Ret} {m m' : ByteMem}
    (h : Handling i (.op o k)) (hr : o.Answers m r m') : m' = m ∧ Handling i (k r) := by
  obtain ⟨rfl | rfl, hk⟩ := h
  · exact ⟨hr, hk r trivial⟩
  · exact ⟨hr, hk r trivial⟩

theorem Start.inv (h : K.Start σ) : K.Inv σ where
  standing := h.standing
  told := fun i c k hk => by
    rw [h.told] at hk
    exact absurd hk List.not_mem_nil
  handlers := fun p hp => by
    rw [h.handlers] at hp
    exact absurd hp List.not_mem_nil
  seen_le := h.seen_le
  rx := fun i p _ hp => by
    rw [h.thread i] at hp
    cases hp

/-- The threads other than the one that acts. -/
theorem Inv.rx_update (h : K.Inv σ) {m' : ByteMem} {t : UioThread}
    (hlater : ∀ j, K.Serves j → j ≠ i → (K.only j).Later σ.mem m')
    (ht : ∀ p, t = .receiving p → K.Receiving i (fun _ _ _ => False) (fun w => w < 2 ^ 31) p m')
    (j : ℕ) (p : Drv ℕ) (hj : K.Serves j) (hp : Function.update σ.thread i t j = .receiving p) :
    K.Receiving j (fun _ _ _ => False) (fun w => w < 2 ^ 31) p m' := by
  by_cases hji : j = i
  · subst hji
    rw [Function.update_self] at hp
    exact ht p hp
  · rw [Function.update_of_ne hji] at hp
    exact (h.rx j p hj hp).stable meanwhile_trans (fun _ => hlater j hj hji)

theorem Inv.rx_calls (h : K.Inv σ) (hi : K.Serves i) (p : Drv ℕ)
    (hp : UioThread.calls K.d i = .receiving p) :
    K.Receiving i (fun _ _ _ => False) (fun w => w < 2 ^ 31) p σ.mem := by
  cases hp
  exact receiving_start hi h.standing (fun w hw _ => hw)

/-- **A step keeps it.** -/
theorem Inv.step (h : K.Inv σ) (hs : K.Step σ σ') : K.Inv σ' := by
  cases hs with
  | around hs =>
    exact ⟨hs.sound h.toSound, h.handlers, h.seen_le, fun i p hi hp =>
      (h.rx i p hi hp).stable meanwhile_trans (fun _ => (hs.later h.standing).only)⟩
  | interrupt hi hp hr =>
    refine ⟨h.toSound, fun p hp => ?_, h.seen_le, h.rx⟩
    rcases List.mem_cons.mp hp with rfl | hp
    · exact ⟨hi, ipcShmUioHandler_handling _⟩
    · exact h.handlers p hp
  | @handler before after i o k r mem hp hr =>
    have hh := h.handlers (i, .op o k) (by rw [hp]; simp)
    obtain ⟨rfl, hk⟩ := hh.2.answers hr
    refine ⟨⟨h.standing, h.told⟩, fun p hp' => ?_, h.seen_le, h.rx⟩
    rw [List.mem_append, List.mem_cons] at hp'
    rcases hp' with hp' | rfl | hp'
    · exact h.handlers p (by rw [hp]; exact List.mem_append_left _ hp')
    · exact ⟨hh.1, hk⟩
    · exact h.handlers p (by rw [hp]; exact List.mem_append_right _ (List.mem_cons_of_mem _ hp'))
  | @handlerReturn before after i hp =>
    refine ⟨h.toSound, fun p hp' => h.handlers p ?_, fun j => ?_, h.rx⟩
    · rw [hp]
      rcases List.mem_append.mp hp' with hp' | hp'
      · exact List.mem_append_left _ hp'
      · exact List.mem_append_right _ (List.mem_cons_of_mem _ hp')
    · have hle := h.seen_le j
      dsimp only
      by_cases hj : j = i
      · subst hj
        rw [Function.update_self]
        exact Nat.le_succ_of_le hle
      · rwa [Function.update_of_ne hj]
  | @read i hi ht he =>
    refine ⟨h.toSound, h.handlers, fun j => ?_,
      h.rx_update (fun _ _ _ => h.standing.only.later) (h.rx_calls hi)⟩
    dsimp only
    by_cases hj : j = i
    · subst hj
      rw [Function.update_self]
    · rw [Function.update_of_ne hj]
      exact h.seen_le j
  | readFails hi ht =>
    exact ⟨h.toSound, h.handlers, h.seen_le,
      h.rx_update (fun _ _ _ => h.standing.only.later) (h.rx_calls hi)⟩
  | @receive i o k r mem hi ht hr =>
    have hrun := h.rx i _ hi ht
    have hask := hrun.request meanwhile_refl
    refine ⟨⟨(h.standing.answers hask.of_only hr).1, h.told⟩, h.handlers, h.seen_le,
      h.rx_update (fun j _ hji => h.standing.later_other hask hr hji) (fun p hp => ?_)⟩
    cases hp
    exact (hrun.reply meanwhile_refl hr).resolve_left id
  | @receiveReturn i work hi ht =>
    refine ⟨h.toSound, h.handlers, h.seen_le,
      h.rx_update (fun _ _ _ => h.standing.only.later) (fun p hp => ?_)⟩
    unfold UioThread.returned at hp
    split at hp
    · exact h.rx_calls hi p hp
    · cases hp
  | enable hi ht =>
    refine ⟨⟨h.standing, h.told⟩, h.handlers, h.seen_le,
      h.rx_update (fun _ _ _ => h.standing.only.later) (fun p hp => ?_)⟩
    cases hp

/-! ## What is sure stays sure -/

variable (K) in
/-- Something is already the case or is sure to be made good by the thread of an
instance: by a handler that will count an event, by an event that will wake the
thread, or by a thread that is awake and about to. -/
inductive Sure (i : ℕ) (now : KernelHw → Prop) (about : UioThread → ByteMem → Prop)
    (σ : UioSys) : Prop where
  | now (h : now (K.hwOf σ.mscm))
  | handler {p : Irq Unit} (hp : (i, p) ∈ σ.handlers)
  | event (h : σ.event i ≠ σ.seen i)
  | awake (h : about (σ.thread i) σ.mem)

/-- Where nothing is in progress for an instance, what is sure is already the
case. -/
theorem Sure.now_of_idle {now : KernelHw → Prop} {about : UioThread → ByteMem → Prop}
    (h : K.Sure i now about σ) (hidle : ∀ p, (i, p) ∉ σ.handlers) (hseen : σ.event i = σ.seen i)
    (hsleep : ¬about (σ.thread i) σ.mem) : now (K.hwOf σ.mscm) := by
  cases h with
  | now h => exact h
  | handler hp => exact absurd hp (hidle _)
  | event h => exact absurd hseen h
  | awake h => exact absurd h hsleep

variable (K) in
/-- **What the thread of an instance is about to do is followed through its
loop**, to where it is done. -/
structure Follows (i : ℕ) (now : KernelHw → Prop) (about : UioThread → ByteMem → Prop)
    (done : ByteMem → Prop) : Prop where
  pend : ∀ hw core msi bits, now hw → now (hw.pend core msi bits)
  enable : ∀ hw j, now hw → now (hw.ipcHwIrqEnable j)
  /-- Handlers of other instances do not touch it. -/
  disable : ∀ mscm j, K.Serves j → j ≠ i → now (K.hwOf mscm) →
    now ((K.hwOf mscm).ipcHwIrqDisable j)
  clear : ∀ mscm j, K.Serves j → j ≠ i → now (K.hwOf mscm) → now ((K.hwOf mscm).ipcHwIrqClear j)
  later : ∀ t m m', about t m → (K.only i).Later m m' → about t m'
  calls : ∀ m, K.Standing m → about (.calls K.d i) m
  receive : ∀ (o : Op) (k : o.Ret → Drv ℕ) r m m', about (.receiving (.op o k)) m →
    o.Answers m r m' → about (.receiving (k r)) m' ∨ done m'
  returned : ∀ work m, K.Standing m → work < 2 ^ 31 → about (.receiving (.pure work)) m →
    about (.returned K.d i work) m
  /-- When the thread has not got to it in its turn, enabling does it. -/
  enabled : ∀ m mscm, about .enabling m → now ((K.hwOf mscm).ipcHwIrqEnable i)

variable {now : KernelHw → Prop} {about : UioThread → ByteMem → Prop} {done : ByteMem → Prop}

/-- The thread does something else, or not the thread. -/
theorem Sure.persist (h : K.Sure i now about σ)
    (hnow : now (K.hwOf σ.mscm) → now (K.hwOf σ'.mscm))
    (hhandler : ∀ p, (i, p) ∈ σ.handlers → ∃ p', (i, p') ∈ σ'.handlers)
    (hevent : σ.event i ≠ σ.seen i → σ'.event i ≠ σ'.seen i)
    (hawake : about (σ.thread i) σ.mem → about (σ'.thread i) σ'.mem) : K.Sure i now about σ' := by
  cases h with
  | now h => exact .now (hnow h)
  | handler hp =>
    obtain ⟨p', hp'⟩ := hhandler _ hp
    exact .handler hp'
  | event h => exact .event (hevent h)
  | awake h => exact .awake (hawake h)

/-- The registers after a command to enable. -/
theorem hwOf_irqcontrol (mscm : Mscm) (i : ℕ) :
    K.hwOf ((K.hwOf mscm).ipcShmUioIrqcontrol i IpcUioCmd.enable.code).mscm
      = (K.hwOf mscm).ipcHwIrqEnable i :=
  hwOf_onHw (.drv (.ipcHwIrqEnable i)) mscm

/-- **A step leaves sure what was sure**, unless it was done. -/
theorem Sure.step (h : K.Sure i now about σ) (hinv : K.Inv σ) (hi : K.Serves i)
    (hf : K.Follows i now about done) (hs : K.Step σ σ') :
    K.Sure i now about σ' ∨ done σ'.mem := by
  have hother : ∀ {j : ℕ} {t : UioThread}, j ≠ i → Function.update σ.thread j t i = σ.thread i :=
    fun hji => Function.update_of_ne (Ne.symm hji) _ _
  cases hs with
  | around hs =>
    exact Or.inl (h.persist (hs.hw hf.pend) (fun p hp => ⟨p, hp⟩) id
      (fun ha => hf.later _ _ _ ha (hs.later hinv.standing).only))
  | interrupt _ _ _ =>
    exact Or.inl (h.persist id (fun p hp => ⟨p, List.mem_cons_of_mem _ hp⟩) id id)
  | @handler before after j o k r mem hp hr =>
    have hh : K.Serves j ∧ Handling j (.op o k) :=
      hinv.handlers (j, .op o k) (by rw [hp]; simp)
    obtain ⟨rfl, -⟩ := hh.2.answers hr
    refine Or.inl ?_
    by_cases hji : j = i
    · subst hji
      exact .handler (List.mem_append_right _ List.mem_cons_self)
    · refine h.persist (fun hn => ?_) (fun p hp' => ⟨p, ?_⟩) id id
      · show now (K.hwOf (o.onHw (K.hwOf σ.mscm)).mscm)
        rw [hwOf_onHw]
        rcases hh.2.1 with rfl | rfl
        · exact hf.disable _ j hh.1 hji hn
        · exact hf.clear _ j hh.1 hji hn
      · -- the handler that is relied on is an other one
        rw [hp, List.mem_append, List.mem_cons] at hp'
        rcases hp' with hp' | heq | hp'
        · exact List.mem_append_left _ hp'
        · exact absurd (congrArg Prod.fst heq).symm hji
        · exact List.mem_append_right _ (List.mem_cons_of_mem _ hp')
  | @handlerReturn before after j hp =>
    refine Or.inl ?_
    by_cases hji : j = i
    · subst hji
      refine .event ?_
      have := hinv.seen_le j
      dsimp only
      rw [Function.update_self]
      omega
    · refine h.persist id (fun p hp' => ⟨p, ?_⟩) (fun he => ?_) id
      · rw [hp, List.mem_append, List.mem_cons] at hp'
        rcases hp' with hp' | heq | hp'
        · exact List.mem_append_left _ hp'
        · exact absurd (congrArg Prod.fst heq).symm hji
        · exact List.mem_append_right _ hp'
      · dsimp only
        rwa [Function.update_of_ne (Ne.symm hji)]
  | @read j hj ht he =>
    refine Or.inl ?_
    by_cases hji : j = i
    · subst hji
      refine .awake ?_
      dsimp only
      rw [Function.update_self]
      exact hf.calls _ hinv.standing
    · refine h.persist id (fun p hp => ⟨p, hp⟩) (fun he => ?_) (fun ha => ?_)
      · dsimp only
        rwa [Function.update_of_ne (Ne.symm hji)]
      · dsimp only
        rwa [hother hji]
  | @readFails j hj ht =>
    refine Or.inl ?_
    by_cases hji : j = i
    · subst hji
      refine .awake ?_
      dsimp only
      rw [Function.update_self]
      exact hf.calls _ hinv.standing
    · refine h.persist id (fun p hp => ⟨p, hp⟩) id (fun ha => ?_)
      dsimp only
      rwa [hother hji]
  | @receive j o k r mem hj ht hr =>
    have hask := (hinv.rx j _ hj ht).request meanwhile_refl
    have hnow : now (K.hwOf σ.mscm) → now (K.hwOf (o.onHw (K.hwOf σ.mscm)).mscm) := fun hn => by
      show now (K.hwOf ((IrqOp.drv o).onHw (K.hwOf σ.mscm)).mscm)
      rw [hwOf_onHw]
      exact IrqAsks.onHw (show K.IrqAsks (.drv o) σ.mem from hask.of_only) (hf.enable _) hn
    by_cases hji : j = i
    · subst hji
      cases h with
      | now h => exact Or.inl (.now (hnow h))
      | handler hp => exact Or.inl (.handler hp)
      | event h => exact Or.inl (.event h)
      | awake h =>
        rw [ht] at h
        refine (hf.receive o k r _ _ h hr).imp_left (fun ha => .awake ?_)
        dsimp only
        rwa [Function.update_self]
    · refine Or.inl (h.persist hnow (fun p hp => ⟨p, hp⟩) id (fun ha => ?_))
      dsimp only
      rw [hother hji]
      exact hf.later _ _ _ ha (hinv.standing.later_other hask hr (Ne.symm hji))
  | @receiveReturn j work hj ht =>
    refine Or.inl (h.persist id (fun p hp => ⟨p, hp⟩) id (fun ha => ?_))
    dsimp only
    by_cases hji : j = i
    · subst hji
      rw [Function.update_self]
      rw [ht] at ha
      exact hf.returned work _ hinv.standing ((hinv.rx j _ hj ht).result meanwhile_refl) ha
    · rwa [hother hji]
  | @enable j hj ht =>
    refine Or.inl ?_
    by_cases hji : j = i
    · subst hji
      cases h with
      | now h =>
        refine .now ?_
        dsimp only
        rw [hwOf_irqcontrol]
        exact hf.enable _ j h
      | handler hp => exact .handler hp
      | event h => exact .event h
      | awake h =>
        rw [ht] at h
        refine .now ?_
        dsimp only
        rw [hwOf_irqcontrol]
        exact hf.enabled _ _ h
    · refine h.persist (fun hn => ?_) (fun p hp => ⟨p, hp⟩) id (fun ha => ?_)
      · dsimp only
        rw [hwOf_irqcontrol]
        exact hf.enable _ j hn
      · dsimp only
        rwa [hother hji]

/-! ## Routing -/

/-- A thread that is awake will enable the notifications of its instance. -/
theorem follows_routed (hi : K.Serves i) :
    K.Follows i (fun hw => hw.Routed i) (fun t _ => t ≠ .sleeping) (fun _ => False) where
  pend := fun _ _ _ _ h => h
  enable := fun _ _ h => h.enable
  disable := fun _ _ hj hji h => h.disable (fun heq => hji (spi_inj hi hj heq).symm)
  clear := fun _ _ _ _ h => KernelHw.routed_clear.mpr h
  later := fun _ _ _ h _ => h
  calls := fun _ _ h => by cases h
  receive := fun _ _ _ _ _ _ _ => Or.inl (fun h => by cases h)
  returned := fun work _ _ _ _ h => by
    unfold UioThread.returned at h
    split at h <;> cases h
  enabled := fun _ _ _ => KernelHw.routed_enable_self (K.mscmRxIrq_ne i hi)

theorem sure_routed {σ₀ : UioSys} (h₀ : K.Start σ₀) (hr : Relation.ReflTransGen K.Step σ₀ σ)
    (hi : K.Serves i) :
    K.Inv σ ∧ K.Sure i (fun hw => hw.Routed i) (fun t _ => t ≠ .sleeping) σ := by
  induction hr with
  | refl => exact ⟨h₀.inv, .now (h₀.routed i hi)⟩
  | tail _ hs ih =>
    exact ⟨ih.1.step hs, (ih.2.step ih.1 hi (follows_routed hi) hs).resolve_right id⟩

/-! ## Messages -/

variable (K) in
/-- **A thread attends to a channel**: its call of reception has yet to find the
channel empty, or to use up the budget, after which it calls again. -/
def Attends (i c : ℕ) (t : UioThread) (m : ByteMem) : Prop :=
  ∃ rx, t = .receiving rx ∧
    K.Receiving i (K.FindsEmpty i c) (fun w => (ipcSoftirqBudget : ℤ) ≤ asInt w) rx m

theorem not_attends_sleeping {m : ByteMem} : ¬K.Attends i c .sleeping m := by
  rintro ⟨_, ⟨⟩, -⟩

theorem attends_calls (hc : K.Managed i c) {m : ByteMem} (hm : K.Standing m) :
    K.Attends i c (.calls K.d i) m := by
  refine ⟨_, rfl, receiving_start hc.1 hm (fun w hw hbudget => ?_)⟩
  have hle := hbudget c hc stopsEmpty_findsEmpty
  unfold asInt
  rw [if_pos hw]
  omega

theorem follows_pending (hc : K.Managed i c) :
    K.Follows i (fun hw => hw.Pending i) (K.Attends i c) (fun m => K.waiting i c m = 0) where
  pend := fun _ _ _ _ h => h.pend
  enable := fun _ _ h => KernelHw.pending_route.mpr h
  disable := fun _ _ _ _ h => KernelHw.pending_route.mpr h
  clear := fun _ _ hj hji h => h.clear (fun heq => hji (msi_inj hc.1 hj heq).symm)
  later := by
    rintro _ m m' ⟨rx, rfl, h⟩ hlater
    exact ⟨rx, rfl, h.stable meanwhile_trans (fun _ => hlater)⟩
  calls := fun _ hm => attends_calls hc hm
  receive := by
    rintro o k r m m' ⟨_, ⟨⟩, h⟩ hr
    rcases h.reply meanwhile_refl hr with hempty | hrest
    · exact Or.inr (hempty.waiting_eq_zero hr)
    · exact Or.inl ⟨_, rfl, hrest⟩
  returned := by
    rintro work m hm - ⟨_, ⟨⟩, h⟩
    have hbudget : (ipcSoftirqBudget : ℤ) ≤ asInt work := h.result meanwhile_refl
    rw [UioThread.returned, if_pos hbudget]
    exact attends_calls hc hm
  enabled := by
    rintro m mscm ⟨_, ⟨⟩, -⟩

/-- **A message that is notified and in its ring after a step** was so before, or
was notified by the step. -/
theorem Step.notified (hs : K.Step σ σ') (hinv : K.Inv σ) (hc : K.Managed i c) {k : ℕ}
    (htold : (i, c, k) ∈ σ'.told) (hring : K.InRing σ'.toRxState i c k) :
    ((i, c, k) ∈ σ.told ∧ K.InRing σ.toRxState i c k) ∨ (K.hwOf σ'.mscm).Pending i := by
  cases hs with
  | around hs => exact hs.notified hinv.toSound hc htold hring
  | @handler before after j o k' r mem hp hr =>
    have hh := hinv.handlers (j, .op o k') (by rw [hp]; simp)
    obtain ⟨rfl, -⟩ := hh.2.answers hr
    exact Or.inl ⟨htold, hring⟩
  | @receive j o k' r mem hj ht hr =>
    have hask := (hinv.rx j _ hj ht).request meanwhile_refl
    exact Or.inl ⟨htold,
      hring.of_waiting_le ((hinv.standing.answers hask.of_only hr).2 i c hc)⟩
  | _ => exact Or.inl ⟨htold, hring⟩

theorem sure_pending {σ₀ : UioSys} (h₀ : K.Start σ₀) (hr : Relation.ReflTransGen K.Step σ₀ σ)
    (hc : K.Managed i c) : K.Inv σ ∧ ∀ k, (i, c, k) ∈ σ.told → K.InRing σ.toRxState i c k →
      K.Sure i (fun hw => hw.Pending i) (K.Attends i c) σ := by
  induction hr with
  | refl =>
    refine ⟨h₀.inv, fun k hk => ?_⟩
    rw [h₀.told] at hk
    exact absurd hk List.not_mem_nil
  | tail _ hs ih =>
    obtain ⟨hinv, hsure⟩ := ih
    refine ⟨hinv.step hs, fun k htold hring => ?_⟩
    rcases hs.notified hinv hc htold hring with ⟨htold', hring'⟩ | hpending
    · rcases (hsure k htold' hring').step hinv hc.1 (follows_pending hc) hs with h | hempty
      · exact h
      · have hlt := hring.1
        have hle := hring.2
        omega
    · exact .now hpending

/-- **No lost wake-up in user space.** In every reachable state, for a message of
an instance that was notified and is still in its ring, the status bit of the
instance is set, or a handler of the instance is in progress, or its device has an
event that was not seen, or its thread is in a call of reception that has yet to
find the channel empty or to use up its budget. -/
theorem uio_no_lost_wakeup {σ₀ : UioSys} (h₀ : K.Start σ₀)
    (hr : Relation.ReflTransGen K.Step σ₀ σ) {k : ℕ} (hc : K.Managed i c)
    (htold : (i, c, k) ∈ σ.told) (hring : K.InRing σ.toRxState i c k) :
    (K.hwOf σ.mscm).Pending i ∨ (∃ p, (i, p) ∈ σ.handlers) ∨ σ.event i ≠ σ.seen i ∨
      K.Attends i c (σ.thread i) σ.mem := by
  cases (sure_pending h₀ hr hc).2 k htold hring with
  | now h => exact Or.inl h
  | handler hp => exact Or.inr (Or.inl ⟨_, hp⟩)
  | event h => exact Or.inr (Or.inr (Or.inl h))
  | awake h => exact Or.inr (Or.inr (Or.inr h))

/-- **The thread never sleeps on a message.** Where the thread of an instance
sleeps with no event left and no handler of the instance in progress, the
interrupt of a message that was notified and is in its ring is pending and routed,
and so can be taken. -/
theorem uio_interrupt_taken {σ₀ : UioSys} (h₀ : K.Start σ₀)
    (hr : Relation.ReflTransGen K.Step σ₀ σ) {k : ℕ} (hc : K.Managed i c)
    (htold : (i, c, k) ∈ σ.told) (hring : K.InRing σ.toRxState i c k)
    (hsleep : σ.thread i = .sleeping) (hseen : σ.event i = σ.seen i)
    (hidle : ∀ p, (i, p) ∉ σ.handlers) :
    (K.hwOf σ.mscm).Pending i ∧ (K.hwOf σ.mscm).Routed i := by
  constructor
  · refine ((sure_pending h₀ hr hc).2 k htold hring).now_of_idle hidle hseen ?_
    rw [hsleep]
    exact not_attends_sleeping
  · exact (sure_routed h₀ hr hc.1).2.now_of_idle hidle hseen (fun h => h hsleep)

end UioInstances

/-! ## An interrupt up to the thread -/

namespace UioInstances

open IrqInstances

variable {K : UioInstances} {i : ℕ} {σ : UioSys}

/-- The only handler makes a request to the controller. -/
theorem Step.request {o : IrqOp} {k : o.Ret → Irq Unit} {r : o.Ret}
    (hp : σ.handlers = [(i, .op o k)]) (hans : o.Answers σ.mem r σ.mem) :
    K.Step σ { σ with mscm := (o.onHw (K.hwOf σ.mscm)).mscm, handlers := [(i, k r)] } :=
  @Step.handler K σ [] [] i o k r σ.mem hp hans

/-- **From the interrupt to the thread**: the handler of an instance masks and
clears its notifications, and the event wakes its thread. -/
theorem reach_awake (hi : K.Serves i) (hpending : (K.hwOf σ.mscm).Pending i)
    (hrouted : (K.hwOf σ.mscm).Routed i) (hidle : σ.handlers = []) (hsleep : σ.thread i = .sleeping)
    (hseen : σ.seen i ≤ σ.event i) :
    Relation.ReflTransGen K.Step σ { σ with
      mscm := ((K.hwOf σ.mscm).acknowledge i).mscm
      handlers := []
      event := Function.update σ.event i (σ.event i + 1)
      seen := Function.update σ.seen i (σ.event i + 1)
      thread := Function.update σ.thread i (.calls K.d i) } := by
  have htaken : K.Step σ { σ with handlers := [(i, ipcShmUioHandler i)] } := by
    have hs := Step.interrupt hi hpending hrouted
    rwa [hidle] at hs
  have hmask : K.Step { σ with handlers := [(i, ipcShmUioHandler i)] } { σ with
      mscm := ((K.hwOf σ.mscm).ipcHwIrqDisable i).mscm
      handlers := [(i, Irq.ipcHwIrqClear i)] } :=
    Step.request (σ := { σ with handlers := [(i, ipcShmUioHandler i)] })
      (o := .drv (.ipcHwIrqDisable i)) (k := fun _ => Irq.ipcHwIrqClear i) (r := ()) rfl rfl
  have hclear := Step.request (K := K) (σ := { σ with
    mscm := ((K.hwOf σ.mscm).ipcHwIrqDisable i).mscm
    handlers := [(i, Irq.ipcHwIrqClear i)] }) (o := .ipcHwIrqClear i) (r := ()) rfl rfl
  dsimp only at hclear
  rw [show K.hwOf ((K.hwOf σ.mscm).ipcHwIrqDisable i).mscm = _ from
    hwOf_onHw (.drv (.ipcHwIrqDisable i)) _] at hclear
  have hreturn : K.Step { σ with
      mscm := ((K.hwOf σ.mscm).acknowledge i).mscm, handlers := [(i, .pure ())] } { σ with
      mscm := ((K.hwOf σ.mscm).acknowledge i).mscm
      handlers := []
      event := Function.update σ.event i (σ.event i + 1) } :=
    @Step.handlerReturn K _ [] [] i rfl
  have hread := Step.read (K := K) (σ := { σ with
    mscm := ((K.hwOf σ.mscm).acknowledge i).mscm
    handlers := []
    event := Function.update σ.event i (σ.event i + 1) }) hi hsleep (by
      dsimp only
      rw [Function.update_self]
      omega)
  dsimp only at hread
  rw [Function.update_self] at hread
  exact ((((Relation.ReflTransGen.single htaken).tail hmask).tail hclear).tail hreturn).tail hread

end UioInstances

/-! ## Three devices -/

/-- The devices of three instances, one for each interrupt there is. -/
def threeDevices : UioModule :=
  ((UioModule.probed.registering 0 33).registering 1 34).registering 2 35

theorem threeDevices_registered : threeDevices.Registered := by
  have h₀ : (UioModule.probed.registering 0 33).Inv :=
    UioModule.probed_inv.registering (by decide) (by decide) (by decide) (by decide)
  have h₁ : ((UioModule.probed.registering 0 33).registering 1 34).Inv :=
    h₀.registering (by decide) (by decide) (by decide) (by decide)
  have h₂ : threeDevices.Inv :=
    h₁.registering (by decide) (by decide) (by decide) (by decide)
  exact h₂.registered

/-- Three initialized instances, each with an interrupt of its own. -/
theorem exists_threeUio : ∃ K : UioInstances, K.Four ∧ K.Serves 1 := by
  obtain ⟨K, hs, hhw, hμ, hcfg⟩ := exists_fourInstances (· < 3)
    (fun i => { msiRxIrq := i, spiIndex := i + 1, mscmRxIrq := i, remoteCore := 4 })
    (fun i hi => Nat.lt_succ_of_lt hi) (fun i _ => by unfold ipcIrqNone; dsimp only; omega)
  have hirq : ∀ i, K.Serves i → i = 0 ∨ i = 1 ∨ i = 2 := fun i hi => by
    rw [hs] at hi
    omega
  refine ⟨{ K with
    kmod := threeDevices
    registered := threeDevices_registered
    platformGetIrq := fun irq => 33 + irq
    device := fun i hi => ?_
    msi := fun i hi => ?_
    spi := fun i hi => by rw [hhw] }, ⟨?_, hμ, hcfg⟩, ?_⟩
  · rw [hhw]
    rcases hirq i hi with rfl | rfl | rfl <;> decide
  · rw [hhw]
    rcases hirq i hi with rfl | rfl | rfl <;> decide
  · show K.Serves 0
    rw [hs]
    decide
  · show K.Serves 1
    rw [hs]
    decide

/-- All threads sleep. -/
def threeAsleep : UioSys where
  toRxState := fourState
  handlers := []
  event := fun _ => 0
  seen := fun _ => 0
  thread := fun _ => .sleeping

namespace UioInstances

variable {K : UioInstances} (hK : K.Four)

include hK

theorem threeAsleep_start : K.Start threeAsleep :=
  ⟨hK.standing, fun _ _ => show ipcMscmIrsprcGic500 &&& ipcMscmIrsprcGic500 ≠ 0 by decide,
    rfl, fun _ => Nat.le_refl _, fun _ => rfl, rfl⟩

/-- A message for the first of the instances is pushed and notified, and nothing
else happens. -/
theorem exists_notified : ∃ τ : RxState,
    Relation.ReflTransGen K.Step threeAsleep { threeAsleep with toRxState := τ } ∧
    (0, 0, 0) ∈ τ.told ∧ K.InRing τ 0 0 0 := by
  obtain ⟨τ, hr, htold, hring, -⟩ := hK.exists_notified
  exact ⟨τ, hr.lift (fun τ => { threeAsleep with toRxState := τ }) (fun _ _ hs => .around hs),
    htold, hring⟩

end UioInstances

/-- The interrupt of the message is taken, and its thread is awake. The status bit
is cleared, the routing is off, and every event was seen. -/
theorem uio_no_lost_wakeup_three : ∃ (K : UioInstances) (σ : UioSys),
    K.Start threeAsleep ∧ Relation.ReflTransGen K.Step threeAsleep σ ∧ (0, 0, 0) ∈ σ.told ∧
    K.InRing σ.toRxState 0 0 0 ∧ ¬(K.hwOf σ.mscm).Pending 0 ∧ ¬(K.hwOf σ.mscm).Routed 0 ∧
    σ.handlers = [] ∧ σ.event 0 = σ.seen 0 ∧ K.Attends 0 0 (σ.thread 0) σ.mem := by
  obtain ⟨K, hK, -⟩ := exists_threeUio
  obtain ⟨τ, hr, htold, hring⟩ := UioInstances.exists_notified hK
  have h₀ := UioInstances.threeAsleep_start hK
  have hne := K.mscmRxIrq_ne 0 hK.zero
  have hpending := ((UioInstances.sure_pending h₀ hr hK.managed_zero).2 0 htold hring).now_of_idle
    (fun _ => List.not_mem_nil) rfl UioInstances.not_attends_sleeping
  have hrouted := (UioInstances.sure_routed h₀ hr hK.zero).2.now_of_idle
    (fun _ => List.not_mem_nil) rfl (fun h => h rfl)
  have hawake := hr.trans
    (UioInstances.reach_awake hK.zero hpending hrouted rfl rfl (Nat.le_refl 0))
  have hclear : ¬((K.hwOf ((K.hwOf τ.mscm).acknowledge 0).mscm).Pending 0) := by
    rw [IrqInstances.hwOf_acknowledge]
    exact KernelHw.not_pending_acknowledge hne
  refine ⟨K, _, h₀, hawake, htold, hring, hclear, ?_, rfl, rfl, ?_⟩
  · rw [IrqInstances.hwOf_acknowledge]
    exact KernelHw.not_routed_acknowledge hne
  · rcases UioInstances.uio_no_lost_wakeup h₀ hawake hK.managed_zero htold hring
      with h | ⟨p, hp⟩ | h | h
    · exact absurd h hclear
    · exact absurd hp List.not_mem_nil
    · exact absurd rfl h
    · exact h

/-- Another instance was notified as well. Its interrupt was taken, its thread is
awake and its routing is off, which does not concern the message. -/
theorem uio_interrupt_taken_three : ∃ (K : UioInstances) (σ : UioSys),
    K.Start threeAsleep ∧ Relation.ReflTransGen K.Step threeAsleep σ ∧ (0, 0, 0) ∈ σ.told ∧
    K.InRing σ.toRxState 0 0 0 ∧ σ.thread 0 = .sleeping ∧ σ.thread 1 = .calls K.d 1 ∧
    ¬(K.hwOf σ.mscm).Routed 1 ∧ (K.hwOf σ.mscm).Pending 0 ∧ (K.hwOf σ.mscm).Routed 0 := by
  obtain ⟨K, hK, h1⟩ := exists_threeUio
  obtain ⟨τ, hr, htold, hring⟩ := UioInstances.exists_notified hK
  have h₀ := UioInstances.threeAsleep_start hK
  have hraise := hr.tail (.around (.raise h1))
  have hrouted := (UioInstances.sure_routed h₀ hraise h1).2.now_of_idle
    (fun _ => List.not_mem_nil) rfl (fun h => h rfl)
  have hawake := hraise.trans (UioInstances.reach_awake h1 KernelHw.pending_raise_self hrouted rfl
    rfl (Nat.le_refl 0))
  refine ⟨K, _, h₀, hawake, htold, hring, rfl, rfl, ?_,
    UioInstances.uio_interrupt_taken h₀ hawake hK.managed_zero htold hring rfl rfl
      (fun _ => List.not_mem_nil)⟩
  rw [IrqInstances.hwOf_acknowledge]
  exact KernelHw.not_routed_acknowledge (K.mscmRxIrq_ne 1 h1)
