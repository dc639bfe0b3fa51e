import IpcShm.SoftIrq

/-!
# No message waits unnoticed

A message that was pushed and notified is taken out of its ring by the tasklet,
and the tasklet runs only when it is scheduled. On the way a notification is a
status bit, then a handler that cleared the bit and has not scheduled yet, then
the mark that the tasklet is scheduled, then a run of the tasklet. The status
bits and the mark are shared: one mark for all instances, and a status bit for
all channels of an instance, or of two instances that are configured alike. The
handler clears what it was not called for, a message can arrive while the
tasklet is past its channel, and interrupts come on several processors.

The system below interleaves all of it, one request of the handler or of the
tasklet at a time. `no_lost_wakeup` says that in every state a message that was
notified and is still in its ring has one of the four to rely on. Of a run of
the tasklet that means more than that it goes on: what is left of it finds the
channel empty, or schedules the tasklet once more, whatever happens meanwhile
(`IrqInstances.Attends`).

A status bit is of use only while its interrupt is routed to the processor.
`routing_restored` says the same of the routing: where it is off, a handler is
before its schedule, or the tasklet is scheduled, or what is left of its run
enables it.
-/

/-! ## The system -/

/-- It schedules the tasklet. -/
def IrqOp.schedules : IrqOp → Bool
  | .taskletSchedule _ => true
  | _ => false

/-- **The state of the kernel driver and what surrounds it.** -/
structure WakeSys extends RxState where
  /-- The interrupt handlers in progress, each with what it has left to do. -/
  hardirqs : List (Irq Unit)
  /-- The tasklet is scheduled. -/
  scheduled : Bool
  /-- What a running tasklet has left to do. -/
  softirq : Option (Irq Unit)

namespace TaskletInstances

variable (K : TaskletInstances)

/-- A request takes effect. -/
def perform (σ : WakeSys) (o : IrqOp) (mem : ByteMem) : WakeSys :=
  { σ with
    mem := mem
    mscm := (o.onHw (K.hwOf σ.mscm)).mscm
    scheduled := σ.scheduled || o.schedules }

/-- **What can happen.** -/
inductive Step (σ : WakeSys) : WakeSys → Prop where
  | around {τ : RxState} (hs : K.Around σ.toRxState τ) : Step σ { σ with toRxState := τ }
  /-- An interrupt that is pending and routed is taken. -/
  | interrupt {i : ℕ} (hi : K.Serves i) (hp : (K.hwOf σ.mscm).Pending i)
      (hr : (K.hwOf σ.mscm).Routed i) :
      Step σ { σ with hardirqs := ipcShmHardirq K.os :: σ.hardirqs }
  /-- A handler makes a request. -/
  | hardirq {before after : List (Irq Unit)} {o : IrqOp} {k : o.Ret → Irq Unit} {r : o.Ret}
      {mem : ByteMem} (hp : σ.hardirqs = before ++ .op o k :: after)
      (hr : o.Answers σ.mem r mem) :
      Step σ { K.perform σ o mem with hardirqs := before ++ k r :: after }
  /-- A handler returns. -/
  | hardirqReturn {before after : List (Irq Unit)}
      (hp : σ.hardirqs = before ++ .pure () :: after) :
      Step σ { σ with hardirqs := before ++ after }
  /-- The tasklet is started, and not scheduled any more. -/
  | softirqStart (hs : σ.scheduled = true) (ht : σ.softirq = none) :
      Step σ { σ with scheduled := false, softirq := some (ipcShmSoftirq K.os K.d) }
  /-- The tasklet makes a request. -/
  | softirq {o : IrqOp} {k : o.Ret → Irq Unit} {r : o.Ret} {mem : ByteMem}
      (hp : σ.softirq = some (.op o k)) (hr : o.Answers σ.mem r mem) :
      Step σ { K.perform σ o mem with softirq := some (k r) }
  | softirqReturn (hp : σ.softirq = some (.pure ())) : Step σ { σ with softirq := none }

/-- **The state in which all is set up**: the instances stand, their interrupts
are routed, and nothing was notified. -/
structure Start (σ : WakeSys) : Prop where
  standing : K.Standing σ.mem
  routed : ∀ i, K.Serves i → (K.hwOf σ.mscm).Routed i
  hardirqs : σ.hardirqs = []
  softirq : σ.softirq = none
  told : σ.told = []

/-! ## What is in progress -/

end TaskletInstances

/-- A handler touches the controller before its schedule only. -/
def HandlerAsks : IrqOp → Bool → Prop
  | .drv (.ipcHwIrqDisable _), done => done = false
  | .ipcHwIrqClear _, done => done = false
  | .taskletSchedule _, _ => True
  | _, _ => False

/-- **A handler in progress**, which has made its schedule or not: it returns
having made it. -/
def Handler (done : Bool) (p : Irq Unit) : Prop :=
  p.wp (Program.demonic HandlerAsks (fun o done _ done' => done' = (done || o.schedules)))
    (fun _ done => done = true) done

theorem Handler.request {done : Bool} {o : IrqOp} {k : o.Ret → Irq Unit}
    (h : Handler done (.op o k)) : HandlerAsks o done := h.1

theorem Handler.reply {done : Bool} {o : IrqOp} {k : o.Ret → Irq Unit}
    (h : Handler done (.op o k)) (r : o.Ret) : Handler (done || o.schedules) (k r) :=
  h.2 r _ rfl

theorem not_handler_pure : ¬Handler false (.pure ()) := Bool.false_ne_true

theorem hardirqFrom_handler (os : KernelOs) (n i : ℕ) {f : Unit → Irq Unit}
    (hf : Handler false (f ())) : Handler false (hardirqFrom os n i >>= f) := by
  induction n generalizing i with
  | zero => exact hf
  | succ n ih =>
    rw [hardirqFrom]
    split
    · exact ih (i + 1)
    · refine ⟨rfl, ?_⟩
      rintro _ _ rfl
      refine ⟨rfl, ?_⟩
      rintro _ _ rfl
      exact ih (i + 1)

/-- **The handler, when it is called**, has its schedule to make. -/
theorem ipcShmHardirq_handler (os : KernelOs) : Handler false (ipcShmHardirq os) := by
  refine hardirqFrom_handler os _ _ ⟨trivial, ?_⟩
  rintro _ _ rfl
  exact rfl

namespace TaskletInstances

open IrqInstances

variable (K : TaskletInstances)

/-- A channel is settled: it is looked at and found empty, or the tasklet is
scheduled because the budget of its instance was used up. -/
def Settles (i c : ℕ) : (o : IrqOp) → ByteMem → o.Ret → Prop
  | .drv o, m, r => K.FindsEmpty i c o m r
  | .taskletSchedule turn, _, _ => turn = some i
  | _, _, _ => False

/-- **A run of the tasklet attends to a channel**: whatever happens meanwhile, it
has yet to find the channel empty or to schedule the tasklet because of its
instance. -/
def Attends (i c : ℕ) (p : Irq Unit) (m : ByteMem) : Prop :=
  Program.Among K.Meanwhile K.IrqAsks IrqOp.Answers (K.Settles i c) p (fun _ _ => False) m

/-- **A run of the tasklet restores the routing** of an instance: it has yet to
enable its notifications. -/
def Enables (i : ℕ) (p : Irq Unit) (m : ByteMem) : Prop :=
  Program.Among K.Meanwhile K.IrqAsks IrqOp.Answers (fun o _ _ => o = .drv (.ipcHwIrqEnable i)) p
    (fun _ _ => False) m

/-- Something is already the case or is sure to be made good: by a handler before
its schedule, by the tasklet that is scheduled, or by one that is running. -/
inductive Sure (now : KernelHw → Prop) (stop : (o : IrqOp) → ByteMem → o.Ret → Prop)
    (σ : WakeSys) : Prop where
  | now (h : now (K.hwOf σ.mscm))
  | scheduled (h : σ.scheduled = true)
  | handler {p : Irq Unit} (hp : p ∈ σ.hardirqs) (h : Handler false p)
  | running {p : Irq Unit} (hp : σ.softirq = some p)
      (h : Program.Among K.Meanwhile K.IrqAsks IrqOp.Answers stop p (fun _ _ => False) σ.mem)

variable {K} {i c : ℕ} {m m' : ByteMem} {σ σ' : WakeSys} {now : KernelHw → Prop}
  {stop : (o : IrqOp) → ByteMem → o.Ret → Prop}

/-- What the tasklet does from its start: it stops in the turn of some instance. -/
theorem among_start (hm : K.Standing m) (hi : K.Serves i) (hstop : K.StopsTurn stop i) :
    Program.Among K.Meanwhile K.IrqAsks IrqOp.Answers stop (ipcShmSoftirq K.os K.d)
      (fun _ _ => False) m := by
  intro m' hlater
  exact Program.wp_mono monotone_reading _ (fun _ _ h => h.2 i (Nat.zero_le i) hi hstop)
    (softirqFrom_wp ipcShmMaxInstances 0 (Nat.zero_add _) (hlater hm).standing)

/-- A managed channel is settled in the turn of its instance. -/
theorem stopsTurn_settles (hc : K.Managed i c) : K.StopsTurn (K.Settles i c) i :=
  Or.inr ⟨fun _ => rfl, c, hc, stopsEmpty_findsEmpty⟩

theorem stopsTurn_enable (i : ℕ) :
    K.StopsTurn (fun o _ _ => o = .drv (.ipcHwIrqEnable i)) i :=
  Or.inl (fun _ => rfl)

/-! ## The invariant -/

variable (K) in
/-- **What always holds**: the instances stand, and handlers and tasklet are in
the middle of their programs. -/
structure Inv (σ : WakeSys) : Prop extends K.Sound σ.toRxState where
  handlers : ∀ p ∈ σ.hardirqs, ∃ done, Handler done p
  runs : ∀ p, σ.softirq = some p →
    Program.Among K.Meanwhile K.IrqAsks IrqOp.Answers (fun _ _ _ => False) p (fun _ _ => True)
      σ.mem

/-- The requests of a handler leave memory alone. -/
theorem Inv.handler_mem (h : K.Inv σ) {o : IrqOp} {k : o.Ret → Irq Unit} {r : o.Ret}
    (hp : .op o k ∈ σ.hardirqs) (hr : o.Answers σ.mem r m') : m' = σ.mem := by
  obtain ⟨done, hdone⟩ := h.handlers _ hp
  have hask := hdone.request
  cases o with
  | drv o =>
    cases o with
    | ipcHwIrqDisable _ => exact hr
    | _ => exact False.elim hask
  | taskletSchedule _ => exact hr
  | ipcHwIrqClear _ => exact hr

theorem Start.inv (h : K.Start σ) : K.Inv σ where
  standing := h.standing
  told := fun i c k hk => by
    rw [h.told] at hk
    exact absurd hk List.not_mem_nil
  handlers := fun p hp => by
    rw [h.hardirqs] at hp
    exact absurd hp List.not_mem_nil
  runs := fun p hp => by
    rw [h.softirq] at hp
    exact absurd hp (Option.some_ne_none p).symm

/-- **A step keeps it.** -/
theorem Inv.step (h : K.Inv σ) (hs : K.Step σ σ') : K.Inv σ' := by
  cases hs with
  | around hs =>
    exact ⟨hs.sound h.toSound, h.handlers, fun p hp =>
      (h.runs p hp).stable meanwhile_trans hs.later⟩
  | interrupt hi hp hr =>
    refine ⟨h.toSound, fun p hp => ?_, h.runs⟩
    rcases List.mem_cons.mp hp with rfl | hp
    · exact ⟨false, ipcShmHardirq_handler K.os⟩
    · exact h.handlers p hp
  | @hardirq before after o k r mem hp hr =>
    have hmem : .op o k ∈ σ.hardirqs := by rw [hp]; simp
    obtain rfl := h.handler_mem hmem hr
    refine ⟨⟨h.standing, h.told⟩, fun p hp' => ?_, h.runs⟩
    obtain ⟨done, hdone⟩ := h.handlers _ hmem
    rcases List.mem_append.mp hp' with hp' | hp'
    · exact h.handlers p (by rw [hp]; exact List.mem_append_left _ hp')
    · rcases List.mem_cons.mp hp' with rfl | hp'
      · exact ⟨_, hdone.reply r⟩
      · exact h.handlers p (by rw [hp]; exact List.mem_append_right _ (List.mem_cons_of_mem _ hp'))
  | @hardirqReturn before after hp =>
    refine ⟨h.toSound, fun p hp' => h.handlers p ?_, h.runs⟩
    rw [hp]
    rcases List.mem_append.mp hp' with hp' | hp'
    · exact List.mem_append_left _ hp'
    · exact List.mem_append_right _ (List.mem_cons_of_mem _ hp')
  | softirqStart hs ht =>
    refine ⟨h.toSound, h.handlers, fun p hp => ?_⟩
    obtain rfl := Option.some.inj hp
    intro m' hlater
    exact Program.wp_mono monotone_reading _ (fun _ _ _ => trivial)
      (softirqFrom_wp ipcShmMaxInstances 0 (Nat.zero_add _) (hlater h.standing).standing)
  | @softirq o k r mem hp hr =>
    have hrun := h.runs _ hp
    refine ⟨⟨(h.standing.irqAnswers (hrun.request meanwhile_refl) hr).1, h.told⟩, h.handlers,
      fun p hp' => ?_⟩
    obtain rfl := Option.some.inj hp'
    exact (hrun.reply meanwhile_refl hr).resolve_left id
  | softirqReturn hp =>
    exact ⟨h.toSound, h.handlers, fun p hp' => absurd hp' (Option.some_ne_none p).symm⟩

/-! ## What is sure stays sure -/

/-- The others go on. -/
theorem Sure.persist (h : K.Sure now stop σ) (hnow : now (K.hwOf σ.mscm) → now (K.hwOf σ'.mscm))
    (hsched : σ.scheduled = true → σ'.scheduled = true)
    (hhard : ∀ p, Handler false p → p ∈ σ.hardirqs → p ∈ σ'.hardirqs)
    (hsoft : σ'.softirq = σ.softirq) (hmem : K.Meanwhile σ.mem σ'.mem) : K.Sure now stop σ' := by
  cases h with
  | now h => exact .now (hnow h)
  | scheduled h => exact .scheduled (hsched h)
  | handler hp h => exact .handler (hhard _ h hp) h
  | running hp h => exact .running (hsoft.trans hp) (h.stable meanwhile_trans hmem)

/-- **A handler makes everything sure**: it touches the controller before its
schedule only, and then the tasklet is scheduled. -/
theorem Inv.sure_of_hardirq (h : K.Inv σ) {before after : List (Irq Unit)} {o : IrqOp}
    {k : o.Ret → Irq Unit} {r : o.Ret} {mem : ByteMem}
    (hp : σ.hardirqs = before ++ .op o k :: after) :
    K.Sure now stop { K.perform σ o mem with hardirqs := before ++ k r :: after } := by
  obtain ⟨done, hdone⟩ := h.handlers (.op o k) (by rw [hp]; simp)
  have hmem : k r ∈ before ++ k r :: after := by simp
  have hask := hdone.request
  have hreply := hdone.reply r
  cases o with
  | drv o =>
    cases o with
    | ipcHwIrqDisable _ =>
      obtain rfl : done = false := hask
      exact .handler hmem hreply
    | _ => exact False.elim hask
  | ipcHwIrqClear _ =>
    obtain rfl : done = false := hask
    exact .handler hmem hreply
  | taskletSchedule _ => exact .scheduled (Bool.or_true _)

/-- **A step leaves sure what was sure**, unless it is the exchange of the tasklet
that was waited for. -/
theorem Sure.step (h : K.Sure now stop σ) (hinv : K.Inv σ)
    (hpend : ∀ hw core msi bits, now hw → now (hw.pend core msi bits))
    (henable : ∀ hw i, now hw → now (hw.ipcHwIrqEnable i)) (hi : K.Serves i)
    (hturn : K.StopsTurn stop i) (hs : K.Step σ σ') :
    K.Sure now stop σ' ∨ ∃ o k r mem, σ.softirq = some (.op o k) ∧ o.Answers σ.mem r mem ∧
      stop o σ.mem r ∧ σ' = { K.perform σ o mem with softirq := some (k r) } := by
  cases hs with
  | around hs =>
    exact Or.inl (h.persist (hs.hw hpend) (fun hn => hn) (fun _ _ hp => hp) rfl hs.later)
  | interrupt hi' hp hr =>
    exact Or.inl (h.persist (fun hn => hn) (fun hn => hn)
      (fun _ _ hp => List.mem_cons_of_mem _ hp) rfl (meanwhile_refl _))
  | hardirq hp hr => exact Or.inl (hinv.sure_of_hardirq hp)
  | @hardirqReturn before after hp =>
    refine Or.inl (h.persist (fun hn => hn) (fun hn => hn) (fun p hb hp' => ?_) rfl
      (meanwhile_refl _))
    -- the one that returned has made its schedule
    rw [hp, List.mem_append, List.mem_cons] at hp'
    rcases hp' with hp' | rfl | hp'
    · exact List.mem_append_left _ hp'
    · exact absurd hb not_handler_pure
    · exact List.mem_append_right _ hp'
  | softirqStart _ ht => exact Or.inl (.running rfl (among_start hinv.standing hi hturn))
  | @softirq o k r mem hp hr =>
    have hask := (hinv.runs _ hp).request meanwhile_refl
    cases h with
    | now h =>
      refine Or.inl (.now ?_)
      show now (K.hwOf (o.onHw (K.hwOf σ.mscm)).mscm)
      rw [hwOf_onHw]
      exact hask.onHw (henable _) h
    | scheduled h => exact Or.inl (.scheduled (by show (σ.scheduled || _) = true; rw [h]; rfl))
    | handler hp' h => exact Or.inl (.handler hp' h)
    | running hp' h =>
      obtain rfl := Option.some.inj (hp'.symm.trans hp)
      rcases h.reply meanwhile_refl hr with hstop | hrest
      · exact Or.inr ⟨o, k, r, mem, hp, hr, hstop, rfl⟩
      · exact Or.inl (.running rfl hrest)
  | softirqReturn hp =>
    refine Or.inl ?_
    cases h with
    | now h => exact .now h
    | scheduled h => exact .scheduled h
    | handler hp' h => exact .handler hp' h
    | running hp' h =>
      obtain rfl := Option.some.inj (hp'.symm.trans hp)
      exact False.elim (h.result meanwhile_refl)

/-! ## Routing -/

/-- In every reachable state the routing of an instance is sure. -/
theorem sure_routed {σ₀ : WakeSys} (h₀ : K.Start σ₀) (hr : Relation.ReflTransGen K.Step σ₀ σ)
    (hi : K.Serves i) :
    K.Inv σ ∧ K.Sure (fun hw => hw.Routed i) (fun o _ _ => o = .drv (.ipcHwIrqEnable i)) σ := by
  induction hr with
  | refl => exact ⟨h₀.inv, .now (h₀.routed i hi)⟩
  | @tail τ _ _ hs ih =>
    obtain ⟨hinv, hsure⟩ := ih
    refine ⟨hinv.step hs, ?_⟩
    rcases hsure.step hinv (fun _ _ _ _ h => h) (fun _ _ h => h.enable) hi (stopsTurn_enable i) hs
      with h | ⟨o, k, r, mem, hp, -, rfl, rfl⟩
    · exact h
    · refine .now ?_
      show (K.hwOf ((IrqOp.drv (.ipcHwIrqEnable i)).onHw (K.hwOf τ.mscm)).mscm).Routed i
      rw [hwOf_onHw]
      exact KernelHw.routed_enable_self (K.mscmRxIrq_ne i hi)

/-- **The routing is restored.** In every reachable state the notifications of an
instance are routed, or a handler has its schedule to make, or the tasklet is
scheduled, or it is running and has yet to enable them. -/
theorem routing_restored {σ₀ : WakeSys} (h₀ : K.Start σ₀)
    (hr : Relation.ReflTransGen K.Step σ₀ σ) (hi : K.Serves i) :
    (K.hwOf σ.mscm).Routed i ∨ σ.scheduled = true ∨ (∃ p ∈ σ.hardirqs, Handler false p) ∨
      ∃ p, σ.softirq = some p ∧ K.Enables i p σ.mem := by
  cases (sure_routed h₀ hr hi).2 with
  | now h => exact Or.inl h
  | scheduled h => exact Or.inr (Or.inl h)
  | handler hp h => exact Or.inr (Or.inr (Or.inl ⟨_, hp, h⟩))
  | running hp h => exact Or.inr (Or.inr (Or.inr ⟨_, hp, h⟩))

/-! ## Messages -/

/-- A channel that is settled has no message in its ring, or the tasklet is
scheduled. -/
theorem Settles.perform {o : IrqOp} {r : o.Ret} {mem : ByteMem} (h : K.Settles i c o σ.mem r)
    (hr : o.Answers σ.mem r mem) :
    K.waiting i c mem = 0 ∨ (K.perform σ o mem).scheduled = true := by
  cases o with
  | drv o => exact Or.inl (FindsEmpty.waiting_eq_zero h hr)
  | taskletSchedule _ => exact Or.inr (Bool.or_true _)
  | ipcHwIrqClear _ => exact False.elim h

/-- **A message that is notified and in its ring after a step** was so before, or
was notified by the step. -/
theorem Step.notified (hs : K.Step σ σ') (hinv : K.Inv σ) (hc : K.Managed i c) {k : ℕ}
    (htold : (i, c, k) ∈ σ'.told) (hring : K.InRing σ'.toRxState i c k) :
    ((i, c, k) ∈ σ.told ∧ K.InRing σ.toRxState i c k) ∨ (K.hwOf σ'.mscm).Pending i := by
  cases hs with
  | around hs => exact hs.notified hinv.toSound hc htold hring
  | @hardirq before after o k' r mem hp hr =>
    have hmem : .op o k' ∈ σ.hardirqs := by rw [hp]; simp
    obtain rfl := hinv.handler_mem hmem hr
    exact Or.inl ⟨htold, hring⟩
  | softirq hp hr =>
    have hask := (hinv.runs _ hp).request meanwhile_refl
    exact Or.inl ⟨htold, hring.of_waiting_le ((hinv.standing.irqAnswers hask hr).2 i c hc)⟩
  | _ => exact Or.inl ⟨htold, hring⟩

/-- In every reachable state a message that was notified and is in its ring is
sure to be attended to. -/
theorem sure_pending {σ₀ : WakeSys} (h₀ : K.Start σ₀) (hr : Relation.ReflTransGen K.Step σ₀ σ)
    (hc : K.Managed i c) :
    K.Inv σ ∧ ∀ k, (i, c, k) ∈ σ.told → K.InRing σ.toRxState i c k →
      K.Sure (fun hw => hw.Pending i) (K.Settles i c) σ := by
  induction hr with
  | refl =>
    refine ⟨h₀.inv, fun k hk => ?_⟩
    rw [h₀.told] at hk
    exact absurd hk List.not_mem_nil
  | tail _ hs ih =>
    obtain ⟨hinv, hsure⟩ := ih
    refine ⟨hinv.step hs, fun k htold hring => ?_⟩
    rcases hs.notified hinv hc htold hring with ⟨htold', hring'⟩ | hpending
    · rcases (hsure k htold' hring').step hinv (fun _ _ _ _ h => h.pend)
        (fun _ _ h => KernelHw.pending_route.mpr h) hc.1 (stopsTurn_settles hc) hs
        with h | ⟨o, k', r, mem, hp, hans, hstop, rfl⟩
      · exact h
      · rcases hstop.perform hans with hempty | hsched
        · exact absurd hring.2 (by have := hring.1; show ¬(_ ≤ k + K.waiting i c mem); omega)
        · exact .scheduled hsched
    · exact .now hpending

/-- **No lost wake-up.** In every reachable state, for a message of an instance
that was notified and is still in its ring, the status bit of the instance is
set, or the tasklet is scheduled, or a handler is in progress before its
schedule, or the tasklet is running and has yet to find the channel empty or to
schedule itself because it used up the budget of the instance. -/
theorem no_lost_wakeup {σ₀ : WakeSys} (h₀ : K.Start σ₀)
    (hr : Relation.ReflTransGen K.Step σ₀ σ) {k : ℕ} (hc : K.Managed i c)
    (htold : (i, c, k) ∈ σ.told) (hring : K.InRing σ.toRxState i c k) :
    (K.hwOf σ.mscm).Pending i ∨ σ.scheduled = true ∨ (∃ p ∈ σ.hardirqs, Handler false p) ∨
      ∃ p, σ.softirq = some p ∧ K.Attends i c p σ.mem := by
  cases (sure_pending h₀ hr hc).2 k htold hring with
  | now h => exact Or.inl h
  | scheduled h => exact Or.inr (Or.inl h)
  | handler hp h => exact Or.inr (Or.inr (Or.inl ⟨_, hp, h⟩))
  | running hp h => exact Or.inr (Or.inr (Or.inr ⟨_, hp, h⟩))

end TaskletInstances

/-! ## A handler to its end -/

namespace TaskletInstances

open IrqInstances

variable {K : TaskletInstances} {σ : WakeSys}

/-- Where nothing is in progress, what is sure is already the case. -/
theorem Sure.now_of_idle {now : KernelHw → Prop} {stop : (o : IrqOp) → ByteMem → o.Ret → Prop}
    (h : K.Sure now stop σ) (hhard : σ.hardirqs = []) (hsched : σ.scheduled = false)
    (hsoft : σ.softirq = none) : now (K.hwOf σ.mscm) := by
  cases h with
  | now h => exact h
  | scheduled h => exact absurd (hsched.symm.trans h) Bool.false_ne_true
  | handler hp _ => exact absurd (hhard ▸ hp) List.not_mem_nil
  | running hp _ => exact absurd (hsoft.symm.trans hp) (Option.some_ne_none _).symm

/-- A handler that is alone makes a request to the controller. -/
theorem Step.request {o : IrqOp} {k : o.Ret → Irq Unit} {r : o.Ret} (hp : σ.hardirqs = [.op o k])
    (hans : o.Answers σ.mem r σ.mem) (ho : o.schedules = false) :
    K.Step σ { σ with mscm := (o.onHw (K.hwOf σ.mscm)).mscm, hardirqs := [k r] } := by
  have hs := @Step.hardirq K σ [] [] o k r σ.mem hp hans
  unfold perform at hs
  rwa [ho, Bool.or_false] at hs

/-- It masks and clears the notifications of an instance. -/
theorem reach_acknowledge {i : ℕ} {rest : Irq Unit} (hσ : σ.hardirqs
      = [.op (.drv (.ipcHwIrqDisable i)) (fun _ => .op (.ipcHwIrqClear i) (fun _ => rest))]) :
    Relation.ReflTransGen K.Step σ
      { σ with mscm := ((K.hwOf σ.mscm).acknowledge i).mscm, hardirqs := [rest] } := by
  have hmask : K.Step σ { σ with
      mscm := ((K.hwOf σ.mscm).ipcHwIrqDisable i).mscm
      hardirqs := [.op (.ipcHwIrqClear i) (fun _ => rest)] } :=
    Step.request (o := .drv (.ipcHwIrqDisable i)) (r := ()) hσ rfl rfl
  have hclear := Step.request (K := K) (σ := { σ with
    mscm := ((K.hwOf σ.mscm).ipcHwIrqDisable i).mscm
    hardirqs := [.op (.ipcHwIrqClear i) (fun _ => rest)] }) (r := ()) rfl rfl rfl
  dsimp only at hclear
  rw [show K.hwOf ((K.hwOf σ.mscm).ipcHwIrqDisable i).mscm = _ from
    hwOf_onHw (.drv (.ipcHwIrqDisable i)) _] at hclear
  exact (Relation.ReflTransGen.single hmask).tail hclear

/-- **The loop of the handler**, up to what comes after it: the instances it
passes are masked and cleared. -/
theorem hardirqFrom_reach (n i : ℕ) {f : Unit → Irq Unit}
    (hσ : σ.hardirqs = [hardirqFrom K.os n i >>= f]) :
    ∃ mscm, Relation.ReflTransGen K.Step σ { σ with mscm := mscm, hardirqs := [f ()] } ∧
      ∀ j, i ≤ j → j < i + n → K.Serves j →
        ¬(K.hwOf mscm).Routed j ∧ ¬(K.hwOf mscm).Pending j := by
  suffices h : ∃ mscm,
      Relation.ReflTransGen K.Step σ { σ with mscm := mscm, hardirqs := [f ()] } ∧
      (∀ j, (K.hwOf mscm).Routed j → (K.hwOf σ.mscm).Routed j) ∧
      (∀ j, (K.hwOf mscm).Pending j → (K.hwOf σ.mscm).Pending j) ∧
      ∀ j, i ≤ j → j < i + n → K.Serves j →
        ¬(K.hwOf mscm).Routed j ∧ ¬(K.hwOf mscm).Pending j by
    obtain ⟨mscm, hr, -, -, hoff⟩ := h
    exact ⟨mscm, hr, hoff⟩
  induction n generalizing i σ with
  | zero =>
    refine ⟨σ.mscm, ?_, fun _ h => h, fun _ h => h, fun j hlo hhi => absurd hhi (by omega)⟩
    have heq : { σ with hardirqs := [f ()] } = σ := by
      rw [show [f ()] = σ.hardirqs from hσ.symm]
    rw [heq]
  | succ n ih =>
    rw [hardirqFrom] at hσ
    by_cases hskip : K.os.Skips i
    · rw [if_pos hskip] at hσ
      obtain ⟨mscm, hr, hrouted, hpending, hoff⟩ := ih (i + 1) hσ
      refine ⟨mscm, hr, hrouted, hpending, fun j hlo hhi hj => hoff j ?_ (by omega) hj⟩
      rcases Nat.eq_or_lt_of_le hlo with rfl | hlt
      · exact absurd hskip ((K.serves_iff i).mp hj).2
      · exact hlt
    · rw [if_neg hskip] at hσ
      have hack : Relation.ReflTransGen K.Step σ { σ with
          mscm := ((K.hwOf σ.mscm).acknowledge i).mscm
          hardirqs := [hardirqFrom K.os n (i + 1) >>= f] } := reach_acknowledge hσ
      obtain ⟨mscm, hr, hrouted, hpending, hoff⟩ := ih (i + 1) (σ := { σ with
        mscm := ((K.hwOf σ.mscm).acknowledge i).mscm
        hardirqs := [hardirqFrom K.os n (i + 1) >>= f] }) rfl
      dsimp only at hrouted hpending
      rw [hwOf_acknowledge] at hrouted hpending
      refine ⟨mscm, hack.trans hr, fun j h => (hrouted j h).of_acknowledge,
        fun j h => (hpending j h).of_acknowledge, fun j hlo hhi hj => ?_⟩
      rcases Nat.eq_or_lt_of_le hlo with rfl | hlt
      · have hne := K.mscmRxIrq_ne i hj
        exact ⟨fun h => KernelHw.not_routed_acknowledge hne (hrouted i h),
          fun h => KernelHw.not_pending_acknowledge hne (hpending i h)⟩
      · exact hoff j hlt (by omega) hj

end TaskletInstances

/-! ## Four instances -/

/-- All of them are enabled, with one interrupt. -/
def fourOs : KernelOs := { id := fun _ => { irqNum := 51, state := .enabled } }

theorem fourOs_serves {i : ℕ} (hi : i < ipcShmMaxInstances) : fourOs.Serves i :=
  ⟨hi, fun h => h.elim (fun h => absurd h (show IpcOsState.enabled ≠ .disabled by decide))
    (fun h => absurd h (show (51 : ℤ) ≠ ipcIrqNone by decide))⟩

/-- Four initialized instances that share an interrupt. -/
theorem exists_fourTasklet : ∃ K : TaskletInstances, K.os = fourOs ∧ K.Four := by
  obtain ⟨K, hs, -, hμ, hcfg⟩ := exists_fourInstances fourOs.Serves
    (fun _ => { msiRxIrq := 1, spiIndex := 2, mscmRxIrq := 1, remoteCore := 4 })
    (fun _ h => h.1) (fun _ _ => by decide)
  refine ⟨{ K with os := fourOs, serves_iff := fun i => by rw [hs] }, rfl, ?_, hμ, hcfg⟩
  show K.Serves 0
  rw [hs]
  exact fourOs_serves (by decide)

/-- Nothing is going on. -/
def fourIdle : WakeSys where
  toRxState := fourState
  hardirqs := []
  scheduled := false
  softirq := none

namespace TaskletInstances

variable {K : TaskletInstances} (hK : K.Four)

include hK

theorem fourIdle_start : K.Start fourIdle :=
  ⟨hK.standing, fun _ _ => show ipcMscmIrsprcGic500 &&& ipcMscmIrsprcGic500 ≠ 0 by decide,
    rfl, rfl, rfl⟩

theorem exists_notified : ∃ σ : WakeSys, Relation.ReflTransGen K.Step fourIdle σ ∧
    (0, 0, 0) ∈ σ.told ∧ K.InRing σ.toRxState 0 0 0 ∧ σ.hardirqs = [] ∧ σ.scheduled = false ∧
    σ.softirq = none := by
  obtain ⟨τ, hr, htold, hring, -⟩ := hK.exists_notified
  exact ⟨{ fourIdle with toRxState := τ },
    hr.lift (fun τ => { fourIdle with toRxState := τ }) (fun _ _ hs => .around hs), htold, hring,
    rfl, rfl, rfl⟩

/-- The interrupt of the message is taken, the handler runs to its end, and the
tasklet is started. The status bit is cleared then, and the routing is off. -/
theorem exists_taken : ∃ σ : WakeSys, Relation.ReflTransGen K.Step fourIdle σ ∧
    (0, 0, 0) ∈ σ.told ∧ K.InRing σ.toRxState 0 0 0 ∧ σ.hardirqs = [] ∧ σ.scheduled = false ∧
    ¬(K.hwOf σ.mscm).Pending 0 ∧ ¬(K.hwOf σ.mscm).Routed 0 := by
  obtain ⟨σ, hr, htold, hring, hhard, hsched, hsoft⟩ := exists_notified hK
  have h₀ := fourIdle_start hK
  have hpending : (K.hwOf σ.mscm).Pending 0 :=
    ((sure_pending h₀ hr hK.managed_zero).2 0 htold hring).now_of_idle hhard hsched hsoft
  have hrouted : (K.hwOf σ.mscm).Routed 0 :=
    (sure_routed h₀ hr hK.zero).2.now_of_idle hhard hsched hsoft
  have htaken : K.Step σ { σ with hardirqs := [ipcShmHardirq K.os] } := by
    have hs := Step.interrupt hK.zero hpending hrouted
    rwa [hhard] at hs
  obtain ⟨mscm, hhandler, hoff⟩ := hardirqFrom_reach ipcShmMaxInstances 0
    (σ := { σ with hardirqs := [ipcShmHardirq K.os] }) (f := fun _ => Irq.taskletSchedule none) rfl
  obtain ⟨hnot, hclear⟩ := hoff 0 (Nat.le_refl 0) (by decide) hK.zero
  -- the schedule, the return of the handler and the start of the tasklet
  let σ₁ : WakeSys := { σ with mscm := mscm, hardirqs := [Irq.taskletSchedule none] }
  have hschedule : K.Step σ₁ { K.perform σ₁ (.taskletSchedule none) σ.mem with
      hardirqs := [.pure ()] } :=
    @Step.hardirq K σ₁ [] [] (.taskletSchedule none) _ () σ.mem rfl rfl
  have hreturn : K.Step { K.perform σ₁ (.taskletSchedule none) σ.mem with
      hardirqs := [.pure ()] } { K.perform σ₁ (.taskletSchedule none) σ.mem with hardirqs := [] } :=
    @Step.hardirqReturn K _ [] [] rfl
  have hstart := Step.softirqStart (K := K)
    (σ := { K.perform σ₁ (.taskletSchedule none) σ.mem with hardirqs := [] }) (Bool.or_true _) hsoft
  refine ⟨_, ((((hr.tail htaken).trans hhandler).tail hschedule).tail hreturn).tail hstart,
    htold, hring, rfl, rfl, hclear, hnot⟩

end TaskletInstances

/-- The routing is off while the tasklet is running, which has yet to restore
it. -/
theorem routing_restored_four : ∃ (K : TaskletInstances) (σ : WakeSys),
    K.Start fourIdle ∧ Relation.ReflTransGen K.Step fourIdle σ ∧ K.Serves 0 ∧
    ¬(K.hwOf σ.mscm).Routed 0 ∧ ∃ p, σ.softirq = some p ∧ K.Enables 0 p σ.mem := by
  obtain ⟨K, -, hK⟩ := exists_fourTasklet
  obtain ⟨σ, hr, -, -, hhard, hsched, -, hnot⟩ := TaskletInstances.exists_taken hK
  have h₀ := TaskletInstances.fourIdle_start hK
  refine ⟨K, σ, h₀, hr, hK.zero, hnot, ?_⟩
  rcases TaskletInstances.routing_restored h₀ hr hK.zero with h | h | ⟨p, hp, -⟩ | h
  · exact absurd h hnot
  · exact absurd (hsched.symm.trans h) Bool.false_ne_true
  · exact absurd (hhard ▸ hp) List.not_mem_nil
  · exact h

/-- The status bit is cleared and the message is still in its ring, and the
running tasklet attends to it. -/
theorem no_lost_wakeup_four : ∃ (K : TaskletInstances) (σ : WakeSys),
    K.Start fourIdle ∧ Relation.ReflTransGen K.Step fourIdle σ ∧ (0, 0, 0) ∈ σ.told ∧
    K.InRing σ.toRxState 0 0 0 ∧ ¬(K.hwOf σ.mscm).Pending 0 ∧
    ∃ p, σ.softirq = some p ∧ K.Attends 0 0 p σ.mem := by
  obtain ⟨K, -, hK⟩ := exists_fourTasklet
  obtain ⟨σ, hr, htold, hring, hhard, hsched, hclear, -⟩ := TaskletInstances.exists_taken hK
  have h₀ := TaskletInstances.fourIdle_start hK
  refine ⟨K, σ, h₀, hr, htold, hring, hclear, ?_⟩
  rcases TaskletInstances.no_lost_wakeup h₀ hr hK.managed_zero htold hring
    with h | h | ⟨p, hp, -⟩ | h
  · exact absurd h hclear
  · exact absurd (hsched.symm.trans h) Bool.false_ne_true
  · exact absurd (hhard ▸ hp) List.not_mem_nil
  · exact h
