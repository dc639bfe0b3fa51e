import IpcShm.RemoteSide
import IpcShm.KernelOs

/-!
# The interrupt handler and the tasklet of the kernel driver

An interrupt only masks and clears the notifications of all instances and
schedules a tasklet. The tasklet receives for one instance after the other,
each with the same budget, and either schedules itself again, where the budget
was used up, or not; it unmasks the notifications of the instance in both
cases. Nothing tells the handler which instance was notified, and nothing tells
the tasklet which channel.

The two functions are programs over the requests of the driver and two of their
own. The result about the tasklet is `softirqFrom_wp`: in the turn of an instance
every channel of it is found empty, or the tasklet is scheduled again.
-/

/-- **What the interrupt code asks of its environment.** -/
inductive IrqOp where
  /-- A request of the driver. -/
  | drv (o : Op)
  | ipcHwIrqClear (inst : ℕ)
  /-- `tasklet_schedule`, in the turn of an instance or by the handler. The turn
  is noted for the reader, the request is the same. -/
  | taskletSchedule (turn : Option ℕ)

/-- The type of the reply. -/
@[reducible] def IrqOp.Ret : IrqOp → Type
  | .drv o => o.Ret
  | .ipcHwIrqClear _ => Unit
  | .taskletSchedule _ => Unit

/-- A program of the interrupt code. -/
abbrev Irq := Program IrqOp IrqOp.Ret

/-- A call of the driver. -/
def Irq.ofDrv {α : Type} (p : Drv α) : Irq α := p.embed .drv (fun _ r => r)

def Irq.ipcHwIrqClear (inst : ℕ) : Irq Unit := .op (.ipcHwIrqClear inst) .pure

def Irq.taskletSchedule (turn : Option ℕ) : Irq Unit := .op (.taskletSchedule turn) .pure

/-! ## The two functions -/

/-- The instance is passed over: it is not in use, or has no interrupt. -/
def KernelOs.Skips (os : KernelOs) (i : ℕ) : Prop :=
  (os.id i).state = .disabled ∨ (os.id i).irqNum = ipcIrqNone

instance (os : KernelOs) (i : ℕ) : Decidable (os.Skips i) :=
  inferInstanceAs (Decidable (_ ∨ _))

/-- `work >= budget`: an `int` that was given a `uint32_t`, against an `unsigned
long`. -/
def UsedBudget (work : ℕ) : Prop := ipcSoftirqBudget ≤ (asInt work % 2 ^ 64).toNat

instance (work : ℕ) : Decidable (UsedBudget work) :=
  inferInstanceAs (Decidable (_ ≤ _))

/-- The turn of an instance. Its notifications are enabled twice where the budget
was not used up. -/
def softirqTurn (d : Driver) (i : ℕ) : Irq Unit := do
  let work ← Irq.ofDrv (ipcShmRx d i ipcSoftirqBudget)
  if UsedBudget work then
    Irq.taskletSchedule (some i)
  else
    Irq.ofDrv (ipcHwIrqEnable i)
  Irq.ofDrv (ipcHwIrqEnable i)

/-- The loop of the tasklet: `n` instances left from `i` on. -/
def softirqFrom (os : KernelOs) (d : Driver) : ℕ → ℕ → Irq Unit
  | 0, _ => return ()
  | n + 1, i => do
    if os.Skips i then
      softirqFrom os d n (i + 1)
    else
      softirqTurn d i
      softirqFrom os d n (i + 1)

/-- The tasklet. -/
def ipcShmSoftirq (os : KernelOs) (d : Driver) : Irq Unit :=
  softirqFrom os d ipcShmMaxInstances 0

/-- The loop of the interrupt handler. -/
def hardirqFrom (os : KernelOs) : ℕ → ℕ → Irq Unit
  | 0, _ => return ()
  | n + 1, i => do
    if os.Skips i then
      hardirqFrom os n (i + 1)
    else
      Irq.ofDrv (ipcHwIrqDisable i)
      Irq.ipcHwIrqClear i
      hardirqFrom os n (i + 1)

/-- **The interrupt handler.** -/
def ipcShmHardirq (os : KernelOs) : Irq Unit := do
  hardirqFrom os ipcShmMaxInstances 0
  Irq.taskletSchedule none

/-! ## The environment of the tasklet -/

/-- The instance is served by interrupt. -/
def KernelOs.Serves (os : KernelOs) (i : ℕ) : Prop := i < ipcShmMaxInstances ∧ ¬os.Skips i

instance (os : KernelOs) (i : ℕ) : Decidable (os.Serves i) :=
  inferInstanceAs (Decidable (_ ∧ _))

/-- **The instances of the kernel driver**, as its OS layer knows them. -/
structure TaskletInstances extends IrqInstances where
  os : KernelOs
  serves_iff : ∀ i, Serves i ↔ os.Serves i

/-- Memory answers the calls of the driver. -/
def IrqOp.Answers : (o : IrqOp) → ByteMem → o.Ret → ByteMem → Prop
  | .drv o, m, r, m' => o.Answers m r m'
  | _, m, _, m' => m' = m

/-- And the controller is changed by those that are for it. -/
def Op.onHw : Op → KernelHw → KernelHw
  | .ipcHwIrqEnable i, h => h.ipcHwIrqEnable i
  | .ipcHwIrqDisable i, h => h.ipcHwIrqDisable i
  | .ipcHwIrqNotify i, h => h.ipcHwIrqNotify i
  | _, h => h

def IrqOp.onHw : IrqOp → KernelHw → KernelHw
  | .drv o, h => o.onHw h
  | .ipcHwIrqClear i, h => h.ipcHwIrqClear i
  | .taskletSchedule _, h => h

theorem IrqOp.onHw_priv (o : IrqOp) (h : KernelHw) : (o.onHw h).priv = h.priv := by
  unfold onHw
  split
  · unfold Op.onHw
    split
    · exact KernelHw.route_priv _ _
    · exact KernelHw.route_priv _ _
    · exact KernelHw.ipcHwIrqNotify_priv _
    · rfl
  · exact KernelHw.ipcHwIrqClear_priv _
  · rfl

/-- **What the interrupt handlers do about an instance**: its notifications are
masked and cleared. -/
def KernelHw.acknowledge (h : KernelHw) (i : ℕ) : KernelHw :=
  (h.ipcHwIrqDisable i).ipcHwIrqClear i

namespace KernelHw

variable {h : KernelHw} {i j : ℕ}

theorem not_routed_acknowledge (hi : (h.priv i).mscmRxIrq ≠ ipcIrqNone) :
    ¬(h.acknowledge i).Routed i :=
  fun hr => not_routed_disable_self hi (routed_clear.mp hr)

theorem not_pending_acknowledge (hi : (h.priv i).mscmRxIrq ≠ ipcIrqNone) :
    ¬(h.acknowledge i).Pending i :=
  not_pending_clear_self (by rw [ipcHwIrqDisable, route_priv]; exact hi)

theorem Routed.of_acknowledge (hj : (h.acknowledge i).Routed j) : h.Routed j :=
  (routed_clear.mp hj).of_disable

theorem Pending.of_acknowledge (hj : (h.acknowledge i).Pending j) : h.Pending j :=
  pending_route.mp hj.of_clear

end KernelHw

namespace IrqInstances

variable (K : IrqInstances)

/-- What the tasklet asks for. -/
def IrqAsks : IrqOp → ByteMem → Prop
  | .drv o, m => K.Asks o m
  | .taskletSchedule _, _ => True
  | .ipcHwIrqClear _, _ => False

/-- The tasklet among the others, until an exchange meets `stop`. -/
def reading (stop : (o : IrqOp) → ByteMem → o.Ret → Prop) :
    (o : IrqOp) → (o.Ret → ByteMem → Prop) → ByteMem → Prop :=
  Program.awaiting K.IrqAsks (Program.interfered K.Meanwhile IrqOp.Answers) stop

/-- `stop` is met in the turn of an instance: where its notifications are enabled,
or where the tasklet is scheduled because of it as well as where one of its
channels is found empty. -/
def StopsTurn (stop : (o : IrqOp) → ByteMem → o.Ret → Prop) (i : ℕ) : Prop :=
  (∀ m, stop (.drv (.ipcHwIrqEnable i)) m ()) ∨
    ((∀ m, stop (.taskletSchedule (some i)) m ()) ∧
      ∃ c, K.Managed i c ∧ K.StopsEmpty (fun o => stop (.drv o)) i c)

variable {K} {stop : (o : IrqOp) → ByteMem → o.Ret → Prop} {α : Type} {i c : ℕ} {m m' : ByteMem}

theorem monotone_reading : Program.MonotoneReading (K.reading stop) := Program.monotone_awaiting

theorem wp_ofDrv (p : Drv α) (Q : α → ByteMem → Prop) :
    (Irq.ofDrv p).wp (K.reading stop) Q = p.wp (K.drvReading (fun o => stop (.drv o))) Q :=
  Program.wp_embed p Q

theorem Standing.irqAnswers {o : IrqOp} {r : o.Ret} (h : K.Standing m) (ha : K.IrqAsks o m)
    (hr : o.Answers m r m') :
    K.Standing m' ∧ ∀ i c, K.Managed i c → K.waiting i c m' ≤ K.waiting i c m := by
  cases o with
  | drv o => exact h.answers ha hr
  | taskletSchedule _ =>
    obtain rfl : m' = m := hr
    exact ⟨h, fun _ _ _ => Nat.le_refl _⟩
  | ipcHwIrqClear _ => exact False.elim ha

/-- The controller as the HW layer left it. -/
theorem hwOf_onHw (o : IrqOp) (mscm : Mscm) :
    K.hwOf (o.onHw (K.hwOf mscm)).mscm = o.onHw (K.hwOf mscm) := by
  have hpriv : (o.onHw (K.hwOf mscm)).priv = K.hw := o.onHw_priv (K.hwOf mscm)
  show KernelHw.mk K.hw (o.onHw (K.hwOf mscm)).mscm = o.onHw (K.hwOf mscm)
  rw [← hpriv]

theorem hwOf_acknowledge (mscm : Mscm) (i : ℕ) :
    K.hwOf ((K.hwOf mscm).acknowledge i).mscm = (K.hwOf mscm).acknowledge i := by
  have hmask := hwOf_onHw (K := K) (.drv (.ipcHwIrqDisable i)) mscm
  have hclear := hwOf_onHw (K := K) (.ipcHwIrqClear i) ((K.hwOf mscm).ipcHwIrqDisable i).mscm
  rw [show K.hwOf ((K.hwOf mscm).ipcHwIrqDisable i).mscm = _ from hmask] at hclear
  exact hclear

/-- Of the controller it is only asked to enable notifications. -/
theorem IrqAsks.onHw {o : IrqOp} (ha : K.IrqAsks o m) {now : KernelHw → Prop} {hw : KernelHw}
    (henable : ∀ i, now hw → now (hw.ipcHwIrqEnable i)) (h : now hw) : now (o.onHw hw) := by
  cases o with
  | drv o =>
    cases o with
    | ipcHwIrqEnable i => exact henable i h
    | ipcHwIrqDisable _ => exact False.elim ha
    | ipcHwIrqNotify _ => exact False.elim ha
    | _ => exact h
  | ipcHwIrqClear _ => exact False.elim ha
  | taskletSchedule _ => exact h

/-! ## The tasklet -/

theorem usedBudget_iff {w : ℕ} (hw : w < 2 ^ 31) : UsedBudget w ↔ ipcSoftirqBudget ≤ w := by
  unfold UsedBudget asInt
  rw [if_pos hw]
  omega

/-- A request of the tasklet itself. -/
theorem wp_request {o : IrqOp} {k : o.Ret → Irq α} {Q : α → ByteMem → Prop} (hm : K.Standing m)
    (hask : K.IrqAsks o m) (hans : ∀ r m', o.Answers m r m' → m' = m)
    (hk : ∀ r m', K.Standing m' → stop o m r ∨ (k r).wp (K.reading stop) Q m') :
    (Program.op o k).wp (K.reading stop) Q m := by
  refine ⟨hask, ?_⟩
  rintro r m' ⟨m₁, hr, hlater⟩
  obtain rfl := hans r m₁ hr
  exact hk r m' (hlater hm).standing

/-- **The turn of an instance** is got through only if it does not stop there. -/
theorem softirqTurn_wp (hi : K.Serves i) (hm : K.Standing m) :
    (softirqTurn K.d i).wp (K.reading stop)
      (fun _ m' => K.Standing m' ∧ ¬K.StopsTurn stop i) m := by
  -- with the budget used up or not, the last request is to enable
  have hend : ∀ m', K.Standing m' → (¬(∀ m, stop (.drv (.ipcHwIrqEnable i)) m ()) →
      ¬K.StopsTurn stop i) → (Irq.ofDrv (ipcHwIrqEnable i)).wp (K.reading stop)
        (fun _ m'' => K.Standing m'' ∧ ¬K.StopsTurn stop i) m' := fun m' hm' hno => by
    refine wp_request hm' trivial (fun _ _ h => h) (fun _ m'' hm'' => ?_)
    by_cases hen : ∀ m, stop (.drv (.ipcHwIrqEnable i)) m ()
    · exact Or.inl (hen m')
    · exact Or.inr ⟨hm'', hno hen⟩
  rw [softirqTurn, Program.wp_bind, wp_ofDrv]
  refine Program.wp_mono monotone_drvReading _ (fun w m₁ h₁ => ?_) (ipcShmRx_wp hi hm)
  obtain ⟨hm₁, hw, hused⟩ := h₁
  by_cases hbudget : UsedBudget w
  · rw [if_pos hbudget]
    refine wp_request hm₁ trivial (fun _ _ h => h) (fun _ m₂ hm₂ => ?_)
    by_cases hsch : ∀ m, stop (.taskletSchedule (some i)) m ()
    · exact Or.inl (hsch m₁)
    · refine Or.inr (hend m₂ hm₂ (fun hen => ?_))
      rintro (h | ⟨h, -⟩)
      · exact hen h
      · exact hsch h
  · rw [if_neg hbudget]
    refine wp_request hm₁ trivial (fun _ _ h => h) (fun _ m₂ hm₂ => Or.inr ?_)
    refine hend m₂ hm₂ (fun hen => ?_)
    rintro (h | ⟨-, c, hc, hstop⟩)
    · exact hen h
    · exact hbudget ((usedBudget_iff hw).mpr (hused c hc hstop))

end IrqInstances

namespace TaskletInstances

open IrqInstances

variable {K : TaskletInstances} {stop : (o : IrqOp) → ByteMem → o.Ret → Prop} {m : ByteMem}

/-- **The tasklet gets through the instances**, unless it stops in the turn of
one. -/
theorem softirqFrom_wp (n i : ℕ) (hn : i + n = ipcShmMaxInstances) (hm : K.Standing m) :
    (softirqFrom K.os K.d n i).wp (K.reading stop)
      (fun _ m' => K.Standing m' ∧
        ∀ j, i ≤ j → K.Serves j → ¬K.StopsTurn stop j) m := by
  induction n generalizing i m with
  | zero => exact ⟨hm, fun j hj hs => absurd (K.serves_lt j hs) (by omega)⟩
  | succ n ih =>
    rw [softirqFrom]
    split
    · rename_i hskip
      refine Program.wp_mono monotone_reading _ (fun _ m' hm' => ⟨hm'.1, fun j hj hs => ?_⟩)
        (ih (i + 1) (by omega) hm)
      rcases Nat.lt_or_eq_of_le hj with h | rfl
      · exact hm'.2 j h hs
      · exact absurd hskip ((K.serves_iff _).mp hs).2
    · rename_i hskip
      have hi : K.Serves i := (K.serves_iff i).mpr ⟨by omega, hskip⟩
      rw [Program.wp_bind]
      refine Program.wp_mono monotone_reading _ (fun _ m₁ h₁ => ?_) (softirqTurn_wp hi hm)
      refine Program.wp_mono monotone_reading _ (fun _ m' hm' => ⟨hm'.1, fun j hj hs => ?_⟩)
        (ih (i + 1) (by omega) h₁.1)
      rcases Nat.lt_or_eq_of_le hj with h | rfl
      · exact hm'.2 j h hs
      · exact h₁.2

end TaskletInstances
