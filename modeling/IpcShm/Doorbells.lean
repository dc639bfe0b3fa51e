import Mathlib.Data.Set.Insert
import IpcShm.Program
import IpcShm.Controller

/-!
# Doorbells

What the HW layer of a platform is for can be said without its registers. Every
core has bells, one for each interrupt line and each core that may ring it. An
instance is set up with the line it is notified on, the line it notifies its
remote on, and the two cores. It rings a bell of the remote core, silences its
own, and its own line is let through to the processor or not. Nothing here
depends on which register a line is kept in, and instances meet only where they
are set up with the same line.

The layers of the platforms differ in the registers a line has, and in the checks
they make. `HwLayer.Implements` is what has to be shown of a layer, one field for
each of its functions; `HwLayer.Implements.simulates` then follows for every order
of calls, with whatever the other cores do to the registers in between: the calls
do to the bells what they should, and the registers show the bells.
-/

/-! ## Bits -/

theorem UInt32.toBitVec_bit {s : ℕ} (hs : s < 32) :
    ((1 : UInt32) <<< UInt32.ofNat s).toBitVec = BitVec.twoPow 32 s := by
  have hmod : (BitVec.ofNat 32 s % 32).toNat = s := by
    rw [BitVec.toNat_umod, BitVec.toNat_ofNat, Nat.mod_eq_of_lt (show s < 2 ^ 32 by omega)]
    exact Nat.mod_eq_of_lt hs
  rw [UInt32.toBitVec_shiftLeft, UInt32.toBitVec_ofNat', BitVec.shiftLeft_eq', hmod,
    BitVec.twoPow_eq]
  rfl

theorem UInt32.and_bit_ne_zero_iff {x : UInt32} {s : ℕ} (hs : s < 32) :
    x &&& (1 <<< UInt32.ofNat s) ≠ 0 ↔ x.toBitVec.getLsbD s = true := by
  rw [Ne, ← UInt32.toBitVec_inj, UInt32.toBitVec_and, UInt32.toBitVec_bit hs, BitVec.and_twoPow]
  split
  · rename_i hbit
    refine iff_of_true (fun h => ?_) hbit
    have hself : (BitVec.twoPow 32 s).getLsbD s = false := by rw [h]; exact BitVec.getLsbD_zero
    rw [BitVec.getLsbD_twoPow, decide_eq_true hs, decide_eq_true rfl] at hself
    exact absurd hself (by decide)
  · rename_i hbit
    exact iff_of_false (fun h => h rfl) hbit

/-- A bit is set. -/
theorem UInt32.or_bit_and_bit {x : UInt32} {s t : ℕ} (hs : s < 32) (ht : t < 32) :
    (x ||| 1 <<< UInt32.ofNat s) &&& (1 <<< UInt32.ofNat t) ≠ 0 ↔
      t = s ∨ x &&& (1 <<< UInt32.ofNat t) ≠ 0 := by
  rw [and_bit_ne_zero_iff ht, and_bit_ne_zero_iff ht, UInt32.toBitVec_or, UInt32.toBitVec_bit hs,
    BitVec.getLsbD_or, BitVec.getLsbD_twoPow, Bool.or_eq_true, Bool.and_eq_true,
    decide_eq_true_iff, decide_eq_true_iff, or_comm]
  exact or_congr_left ⟨fun h => h.2.symm, fun h => ⟨hs, h.symm⟩⟩

/-- And cleared. -/
theorem UInt32.and_not_bit_and_bit {x : UInt32} {s t : ℕ} (hs : s < 32) (ht : t < 32) :
    (x &&& ~~~(1 <<< UInt32.ofNat s)) &&& (1 <<< UInt32.ofNat t) ≠ 0 ↔
      t ≠ s ∧ x &&& (1 <<< UInt32.ofNat t) ≠ 0 := by
  rw [and_bit_ne_zero_iff ht, and_bit_ne_zero_iff ht, UInt32.toBitVec_and, UInt32.toBitVec_not,
    UInt32.toBitVec_bit hs, BitVec.getLsbD_and, BitVec.getLsbD_not, BitVec.getLsbD_twoPow,
    Bool.and_eq_true, Bool.and_eq_true, decide_eq_true hs, Bool.true_and, decide_eq_true ht,
    Bool.not_eq_true', decide_eq_false_iff_not, and_comm]
  exact and_congr_left (fun _ => ⟨fun h e => h.2 e.symm, fun h => ⟨rfl, fun e => h e.symm⟩⟩)

/-! ## Registers -/

namespace Mscm

variable (r : Mscm)

/-- A peripheral interrupt is routed to the processor. -/
def Routes (i : ℕ) : Prop := r.irsprc i &&& ipcMscmIrsprcGic500 ≠ 0

/-- An interrupt of a core is pending, from a sender. -/
def Rings (core msi sender : ℕ) : Prop := r.isr core msi &&& (1 <<< UInt32.ofNat sender) ≠ 0

/-- A routing register is rewritten. -/
def reroute (i : ℕ) (f : UInt16 → UInt16) : Mscm :=
  { r with irsprc := Function.update r.irsprc i (f (r.irsprc i)) }

/-- And a status register. -/
def restate (core msi : ℕ) (f : UInt32 → UInt32) : Mscm :=
  { r with
    isr := Function.update r.isr core
      (Function.update (r.isr core) msi (f (r.isr core msi))) }

variable {r} {i j core core' msi msi' s t : ℕ}

theorem routes_or : (r.reroute i (· ||| ipcMscmIrsprcGic500)).Routes j ↔ j = i ∨ r.Routes j := by
  unfold Routes reroute
  dsimp only
  by_cases hj : j = i
  · subst hj
    rw [Function.update_self]
    refine iff_of_true (fun h => ?_) (Or.inl rfl)
    rw [← UInt16.toBitVec_inj] at h
    have h0 := congrArg (fun b => b.getLsbD 0) h
    revert h0
    generalize r.irsprc j = x
    show ((x.toBitVec ||| 1#16) &&& 1#16).getLsbD 0 ≠ false
    rw [BitVec.getLsbD_and, BitVec.getLsbD_or]
    cases x.toBitVec.getLsbD 0 <;> decide
  · rw [Function.update_of_ne hj]
    exact ⟨Or.inr, fun h => h.resolve_left hj⟩

theorem routes_and_not :
    (r.reroute i (· &&& ~~~ipcMscmIrsprcGic500)).Routes j ↔ j ≠ i ∧ r.Routes j := by
  unfold Routes reroute
  dsimp only
  by_cases hj : j = i
  · subst hj
    rw [Function.update_self]
    refine iff_of_false (fun h => h ?_) (fun h => h.1 rfl)
    rw [UInt16.and_assoc]
    exact UInt16.and_zero
  · rw [Function.update_of_ne hj]
    exact ⟨fun h => ⟨hj, h⟩, fun h => h.2⟩

/-- A status register is one of a core and an interrupt. -/
theorem isr_restate (f : UInt32 → UInt32) :
    (r.restate core msi f).isr core' msi' =
      if core' = core ∧ msi' = msi then f (r.isr core' msi') else r.isr core' msi' := by
  unfold restate
  dsimp only
  by_cases hc : core' = core
  · subst hc
    rw [Function.update_self]
    by_cases hm : msi' = msi
    · subst hm
      rw [Function.update_self, if_pos ⟨rfl, rfl⟩]
    · rw [Function.update_of_ne hm, if_neg (fun h => hm h.2)]
  · rw [Function.update_of_ne hc, if_neg (fun h => hc h.1)]

theorem rings_or (hs : s < 32) (ht : t < 32) :
    (r.restate core msi (· ||| 1 <<< UInt32.ofNat s)).Rings core' msi' t ↔
      (core' = core ∧ msi' = msi ∧ t = s) ∨ r.Rings core' msi' t := by
  unfold Rings
  rw [isr_restate]
  split
  · rename_i h
    rw [UInt32.or_bit_and_bit hs ht]
    exact or_congr_left ⟨fun e => ⟨h.1, h.2, e⟩, fun e => e.2.2⟩
  · rename_i h
    exact ⟨Or.inr, fun h' => h'.resolve_left (fun e => h ⟨e.1, e.2.1⟩)⟩

theorem rings_and_not (hs : s < 32) (ht : t < 32) :
    (r.restate core msi (· &&& ~~~(1 <<< UInt32.ofNat s))).Rings core' msi' t ↔
      ¬(core' = core ∧ msi' = msi ∧ t = s) ∧ r.Rings core' msi' t := by
  unfold Rings
  rw [isr_restate]
  split
  · rename_i h
    rw [UInt32.and_not_bit_and_bit hs ht]
    exact and_congr_left (fun _ => ⟨fun e e' => e e'.2.2, fun e e' => e ⟨h.1, h.2, e'⟩⟩)
  · rename_i h
    exact ⟨fun h' => ⟨fun e => h ⟨e.1, e.2.1⟩, h'⟩, fun h' => h'.2⟩

end Mscm

/-! ## The bells -/

/-- **How an instance is set up**: the line it notifies its remote on and the line
it is notified on, where it has them, and the two cores. -/
structure Setup where
  tx : Option ℕ
  rx : Option ℕ
  localCore : ℕ
  remoteCore : ℕ

/-- The interrupt that is configured for a line. -/
def irqOf : Option ℕ → ℤ
  | none => ipcIrqNone
  | some l => l

theorem irqOf_none_iff {o : Option ℕ} : irqOf o = ipcIrqNone ↔ o = none := by
  cases o with
  | none => exact iff_of_true rfl rfl
  | some l =>
    refine iff_of_false (fun h => ?_) (Option.some_ne_none l)
    have : (l : ℤ) = -1 := h
    omega

theorem eq_none_of_irqOf {irq : ℤ} {o : Option ℕ} (h : irq = irqOf o) (ho : o = none) :
    irq = ipcIrqNone := by
  rw [h]
  exact irqOf_none_iff.mpr ho

theorem ne_none_of_irqOf {irq : ℤ} {o : Option ℕ} {l : ℕ} (h : irq = irqOf o) (ho : o = some l) :
    irq ≠ ipcIrqNone := by
  rw [h, Ne, irqOf_none_iff, ho]
  exact Option.some_ne_none l

/-- The bell an instance silences. -/
def Setup.ownBell (c : Setup) : Set (ℕ × ℕ × ℕ) :=
  {b | ∃ l ∈ c.rx, b = (c.localCore, l, c.remoteCore)}

/-- The bell it rings, from the core it runs on. -/
def Setup.remoteBell (c : Setup) (self : ℕ) : Set (ℕ × ℕ × ℕ) :=
  {b | ∃ l ∈ c.tx, b = (c.remoteCore, l, self)}

/-- **The bells**, and the instances that are set up. -/
structure Doorbells where
  setUp : ℕ → Option Setup
  /-- The lines that are let through. -/
  routed : Set ℕ
  /-- The bells that ring: of which core, on which line, and who rang. -/
  rung : Set (ℕ × ℕ × ℕ)
  /-- The core the driver runs on. -/
  self : ℕ

/-- **Where the lines of a platform are**: the status register of each and its
routing register, different ones for different lines and inside the block. And how
its cores are numbered. -/
structure Lines where
  count : ℕ
  msi : ℕ → ℕ
  spi : ℕ → ℕ
  localCore : IpcShmLocalCore → Option ℕ
  remoteCore : IpcShmRemoteCore → Option ℕ
  cpCount : ℕ
  irqCount : ℕ
  irsprcCount : ℕ
  cpCount_le : cpCount ≤ 32
  msi_lt : ∀ l < count, msi l < irqCount
  spi_lt : ∀ l < count, spi l < irsprcCount
  msi_inj : ∀ l < count, ∀ l' < count, msi l = msi l' → l = l'
  spi_inj : ∀ l < count, ∀ l' < count, spi l = spi l' → l = l'
  localCore_lt : ∀ core, ∀ n ∈ localCore core, n < cpCount
  remoteCore_lt : ∀ core, ∀ n ∈ remoteCore core, n < cpCount

/-- **The setup of a configuration**, with lines and cores that exist. -/
structure Lines.SetUp (P : Lines) (cfg : IpcShmCfg) (c : Setup) : Prop where
  tx : cfg.interCoreTxIrq = irqOf c.tx
  rx : cfg.interCoreRxIrq = irqOf c.rx
  localCore : P.localCore cfg.localCore = some c.localCore
  remoteCore : P.remoteCore cfg.remoteCore = some c.remoteCore
  tx_lt : ∀ l ∈ c.tx, l < P.count
  rx_lt : ∀ l ∈ c.rx, l < P.count

/-- What is asked of a HW layer, or happens around it. -/
inductive HwCall where
  | init (inst : ℕ) (cfg : IpcShmCfg)
  | initFails (inst : ℕ)
  | free (inst : ℕ)
  | enable (inst : ℕ)
  | disable (inst : ℕ)
  | notify (inst : ℕ)
  | clear (inst : ℕ)
  | others

/-- **What is done to the bells.** -/
inductive Doorbells.Step (P : Lines) (d : Doorbells) : HwCall → Doorbells → Prop where
  /-- An instance is set up, with its line off. -/
  | init {inst : ℕ} {cfg : IpcShmCfg} {c : Setup} (hc : P.SetUp cfg c) :
      Step P d (.init inst cfg) { d with
        setUp := Function.update d.setUp inst (some c)
        routed := d.routed \ {l | l ∈ c.rx} }
  /-- That fails, and may have turned a line off. The instance is not to be used
  any more. -/
  | initFails {inst : ℕ} (rx : Option ℕ) :
      Step P d (.initFails inst) { d with
        setUp := Function.update d.setUp inst none
        routed := d.routed \ {l | l ∈ rx} }
  | free {inst : ℕ} {c : Setup} (hc : d.setUp inst = some c) :
      Step P d (.free inst) { d with
        setUp := Function.update d.setUp inst none
        rung := d.rung \ c.ownBell }
  | enable {inst : ℕ} {c : Setup} (hc : d.setUp inst = some c) :
      Step P d (.enable inst) { d with routed := d.routed ∪ {l | l ∈ c.rx} }
  | disable {inst : ℕ} {c : Setup} (hc : d.setUp inst = some c) :
      Step P d (.disable inst) { d with routed := d.routed \ {l | l ∈ c.rx} }
  | notify {inst : ℕ} {c : Setup} (hc : d.setUp inst = some c) :
      Step P d (.notify inst) { d with rung := d.rung ∪ c.remoteBell d.self }
  | clear {inst : ℕ} {c : Setup} (hc : d.setUp inst = some c) :
      Step P d (.clear inst) { d with rung := d.rung \ c.ownBell }
  /-- The driver goes on on another core. -/
  | migrate (core : ℕ) : Step P d .others { d with self := core }
  /-- Other cores ring bells, -/
  | ring {b : ℕ × ℕ × ℕ} : Step P d .others { d with rung := d.rung ∪ {b} }
  /-- and silence theirs. -/
  | silence {b : ℕ × ℕ × ℕ} : Step P d .others { d with rung := d.rung \ {b} }
  | idle : Step P d .others d

/-! ### Lines apart -/

/-- The calls that are made for an instance in use. -/
def HwCall.InUse : HwCall → Prop
  | .free _ => True
  | .enable _ => True
  | .disable _ => True
  | .notify _ => True
  | .clear _ => True
  | _ => False

namespace Doorbells

variable {P : Lines} {d d' : Doorbells} {l : ℕ}

/-- No instance is set up with a line. -/
def Unused (d : Doorbells) (l : ℕ) : Prop := ∀ inst, ∀ c ∈ d.setUp inst, l ∉ c.tx ∧ l ∉ c.rx

/-- A line is let through as before, and its bells ring as before. -/
structure SameOn (l : ℕ) (d d' : Doorbells) : Prop where
  routed : l ∈ d'.routed ↔ l ∈ d.routed
  rung : ∀ core s, (core, l, s) ∈ d'.rung ↔ (core, l, s) ∈ d.rung

/-- The bells of an instance are on its lines. -/
theorem not_mem_ownBell {c : Setup} (hl : l ∉ c.rx) (core s : ℕ) : (core, l, s) ∉ c.ownBell := by
  rintro ⟨k, hk, heq⟩
  have hline : l = k := congrArg (fun b : ℕ × ℕ × ℕ => b.2.1) heq
  exact hl (hline ▸ hk)

theorem not_mem_remoteBell {c : Setup} (hl : l ∉ c.tx) (self core s : ℕ) :
    (core, l, s) ∉ c.remoteBell self := by
  rintro ⟨k, hk, heq⟩
  have hline : l = k := congrArg (fun b : ℕ × ℕ × ℕ => b.2.1) heq
  exact hl (hline ▸ hk)

/-- **A call leaves a line alone** that no instance has. -/
theorem Unused.step {a : HwCall} (h : d.Unused l) (ha : a.InUse) (hs : d.Step P a d') :
    d'.Unused l ∧ SameOn l d d' := by
  cases hs with
  -- a failed initialization may turn any line off, and others may ring any bell
  | init => exact ha.elim
  | initFails => exact ha.elim
  | migrate => exact ha.elim
  | ring => exact ha.elim
  | silence => exact ha.elim
  | idle => exact ha.elim
  | @free inst c hc =>
    refine ⟨fun j c' hc' => ?_, Iff.rfl, fun core s => ?_⟩
    · dsimp only at hc'
      by_cases hj : j = inst
      · rw [hj, Function.update_self] at hc'
        exact absurd hc' (Option.not_mem_none c')
      · rw [Function.update_of_ne hj] at hc'
        exact h j c' hc'
    · have hbell := not_mem_ownBell (h inst c hc).2 core s
      exact ⟨fun e => e.1, fun e => ⟨e, hbell⟩⟩
  | @enable inst c hc =>
    exact ⟨h, ⟨fun e => e.resolve_right (h inst c hc).2, Or.inl⟩, fun _ _ => Iff.rfl⟩
  | @disable inst c hc =>
    exact ⟨h, ⟨fun e => e.1, fun e => ⟨e, (h inst c hc).2⟩⟩, fun _ _ => Iff.rfl⟩
  | @notify inst c hc =>
    refine ⟨h, Iff.rfl, fun core s => ?_⟩
    have hbell := not_mem_remoteBell (h inst c hc).1 d.self core s
    exact ⟨fun e => e.resolve_right hbell, Or.inl⟩
  | @clear inst c hc =>
    refine ⟨h, Iff.rfl, fun core s => ?_⟩
    have hbell := not_mem_ownBell (h inst c hc).2 core s
    exact ⟨fun e => e.1, fun e => ⟨e, hbell⟩⟩

/-- And so do any calls. -/
theorem Unused.runs {calls : List HwCall} (h : d.Unused l) (hr : Steps.Runs (Step P) d calls d')
    (hcalls : ∀ a ∈ calls, a.InUse) : d'.Unused l ∧ SameOn l d d' := by
  induction hr with
  | refl => exact ⟨h, Iff.rfl, fun _ _ => Iff.rfl⟩
  | tail _ hs ih =>
    obtain ⟨hun, hsame⟩ := ih (fun a ha => hcalls a (List.mem_append_left _ ha))
    obtain ⟨hun', hsame'⟩ :=
      hun.step (hcalls _ (List.mem_append_right _ (List.mem_singleton_self _))) hs
    exact ⟨hun', hsame'.routed.trans hsame.routed,
      fun core s => (hsame'.rung core s).trans (hsame.rung core s)⟩

end Doorbells

/-! ## The registers of a platform -/

namespace Lines

variable (P : Lines)

/-- The line of an instance is let through or not, where it has one. -/
def route (rx : Option ℕ) (f : UInt16 → UInt16) (r : Mscm) : Mscm :=
  match rx with
  | none => r
  | some l => r.reroute (P.spi l) f

/-- And the status of a line is changed. -/
def status (line : Option ℕ) (core : ℕ) (f : UInt32 → UInt32) (r : Mscm) : Mscm :=
  match line with
  | none => r
  | some l => r.restate core (P.msi l) f

/-- **What others do to the registers**: the driver goes on on another core, bells
are rung and silenced, interrupts are routed to other cores, and the
configuration is changed. -/
inductive Others (r : Mscm) : Mscm → Prop where
  | migrate {core : ℕ} (h : core < P.cpCount) : Others r { r with cpxnum := UInt32.ofNat core }
  | ring {core l sender : ℕ} (hc : core < P.cpCount) (hl : l < P.count) (hs : sender < P.cpCount) :
      Others r (r.restate core (P.msi l) (· ||| 1 <<< UInt32.ofNat sender))
  | silence {core l sender : ℕ} (hc : core < P.cpCount) (hl : l < P.count)
      (hs : sender < P.cpCount) :
      Others r (r.restate core (P.msi l) (· &&& ~~~(1 <<< UInt32.ofNat sender)))
  | steer {i : ℕ} {f : UInt16 → UInt16} (hi : i < P.irsprcCount)
      (hf : ∀ x, f x &&& ipcMscmIrsprcGic500 = x &&& ipcMscmIrsprcGic500) :
      Others r (r.reroute i f)
  | configure (x : UInt32) : Others r { r with ircpcfg := x }

/-- **The registers show the bells.** Everything outside the block is as it was. -/
structure Shows (r₀ r : Mscm) (d : Doorbells) : Prop where
  routed : ∀ l < P.count, l ∈ d.routed ↔ r.Routes (P.spi l)
  rung : ∀ core, ∀ l < P.count, ∀ s < P.cpCount,
    (core, l, s) ∈ d.rung ↔ r.Rings core (P.msi l) s
  self : r.cpxnum = UInt32.ofNat d.self
  self_lt : d.self < P.cpCount
  irsprc : ∀ i, P.irsprcCount ≤ i → r.irsprc i = r₀.irsprc i
  isr : ∀ core msi, P.cpCount ≤ core ∨ P.irqCount ≤ msi → r.isr core msi = r₀.isr core msi

/-- The bells the registers show, with no instance set up. -/
def initial (r : Mscm) : Doorbells where
  setUp := fun _ => none
  routed := {l | r.Routes (P.spi l)}
  rung := {b | r.Rings b.1 (P.msi b.2.1) b.2.2}
  self := r.cpxnum.toNat

variable {P} {r₀ r : Mscm} {d : Doorbells} {rx : Option ℕ} {core sender : ℕ} {cfg : IpcShmCfg}

theorem shows_initial (h : r.cpxnum.toNat < P.cpCount) : P.Shows r r (P.initial r) where
  routed := fun _ _ => Iff.rfl
  rung := fun _ _ _ _ _ => Iff.rfl
  self := UInt32.ofNat_toNat.symm
  self_lt := h
  irsprc := fun _ _ => rfl
  isr := fun _ _ _ => rfl

/-- A routing register inside the block is rewritten. -/
theorem Shows.reroute (h : P.Shows r₀ r d) {i : ℕ} {f : UInt16 → UInt16} {routed : Set ℕ}
    (hi : i < P.irsprcCount)
    (hr : ∀ l < P.count, l ∈ routed ↔ (r.reroute i f).Routes (P.spi l)) :
    P.Shows r₀ (r.reroute i f) { d with routed := routed } where
  routed := hr
  rung := h.rung
  self := h.self
  self_lt := h.self_lt
  irsprc := fun j hj => (Function.update_of_ne (by omega) _ _).trans (h.irsprc j hj)
  isr := h.isr

/-- A line is let through, -/
theorem Shows.routeOn (h : P.Shows r₀ r d) {k : ℕ} (hk : k < P.count) :
    P.Shows r₀ (r.reroute (P.spi k) (· ||| ipcMscmIrsprcGic500))
      { d with routed := d.routed ∪ {k} } := by
  refine h.reroute (P.spi_lt k hk) (fun l hl => ?_)
  rw [Mscm.routes_or, or_comm]
  refine or_congr (h.routed l hl) ⟨fun e => ?_, P.spi_inj l hl k hk⟩
  rw [Set.mem_singleton_iff.mp e]

/-- or not. -/
theorem Shows.routeOff (h : P.Shows r₀ r d) {k : ℕ} (hk : k < P.count) :
    P.Shows r₀ (r.reroute (P.spi k) (· &&& ~~~ipcMscmIrsprcGic500))
      { d with routed := d.routed \ {k} } := by
  refine h.reroute (P.spi_lt k hk) (fun l hl => ?_)
  rw [Mscm.routes_and_not, and_comm]
  refine and_congr (h.routed l hl) (not_congr ⟨fun e => ?_, P.spi_inj l hl k hk⟩)
  rw [Set.mem_singleton_iff.mp e]

/-- A status register inside the block is changed. -/
theorem Shows.restate (h : P.Shows r₀ r d) {l : ℕ} {f : UInt32 → UInt32}
    {rung : Set (ℕ × ℕ × ℕ)} (hc : core < P.cpCount) (hl : l < P.count)
    (hr : ∀ core', ∀ l' < P.count, ∀ s < P.cpCount,
      (core', l', s) ∈ rung ↔ (r.restate core (P.msi l) f).Rings core' (P.msi l') s) :
    P.Shows r₀ (r.restate core (P.msi l) f) { d with rung := rung } where
  routed := h.routed
  rung := hr
  self := h.self
  self_lt := h.self_lt
  irsprc := h.irsprc
  isr := fun core' msi' hout => by
    have hlt := P.msi_lt l hl
    rw [Mscm.isr_restate, if_neg (by omega)]
    exact h.isr core' msi' hout

/-- The status register of a line tells the line. -/
theorem bell_iff {l l' core' s : ℕ} (hl : l < P.count) (hl' : l' < P.count) :
    core' = core ∧ P.msi l' = P.msi l ∧ s = sender ↔ (core', l', s) = (core, l, sender) := by
  rw [Prod.mk.injEq, Prod.mk.injEq]
  refine and_congr_right (fun _ => and_congr_left (fun _ => ⟨P.msi_inj l' hl' l hl, fun e => ?_⟩))
  rw [e]

/-- A bell rings, -/
theorem Shows.ring (h : P.Shows r₀ r d) {k : ℕ} (hk : k < P.count) (hc : core < P.cpCount)
    (hs : sender < P.cpCount) :
    P.Shows r₀ (r.restate core (P.msi k) (· ||| 1 <<< UInt32.ofNat sender))
      { d with rung := d.rung ∪ {(core, k, sender)} } := by
  have hle := P.cpCount_le
  refine h.restate hc hk (fun core' l hl s hs' => ?_)
  rw [Mscm.rings_or (by omega) (by omega), bell_iff hk hl, or_comm]
  exact or_congr (h.rung core' l hl s hs') Iff.rfl

/-- or not any more. -/
theorem Shows.silence (h : P.Shows r₀ r d) {k : ℕ} (hk : k < P.count) (hc : core < P.cpCount)
    (hs : sender < P.cpCount) :
    P.Shows r₀ (r.restate core (P.msi k) (· &&& ~~~(1 <<< UInt32.ofNat sender)))
      { d with rung := d.rung \ {(core, k, sender)} } := by
  have hle := P.cpCount_le
  refine h.restate hc hk (fun core' l hl s hs' => ?_)
  rw [Mscm.rings_and_not (by omega) (by omega), bell_iff hk hl, and_comm]
  exact and_congr (h.rung core' l hl s hs') (not_congr Iff.rfl)

/-! An instance may have no line. -/

theorem lines_none : {l : ℕ | l ∈ (none : Option ℕ)} = ∅ := by simp

theorem lines_some (k : ℕ) : {l : ℕ | l ∈ some k} = {k} := by
  ext l
  exact ⟨fun e => (Option.some.inj e).symm, fun e => congrArg some (Eq.symm e)⟩

theorem bells_none (f : ℕ → ℕ × ℕ × ℕ) : {b | ∃ l ∈ (none : Option ℕ), b = f l} = ∅ := by simp

theorem bells_some (f : ℕ → ℕ × ℕ × ℕ) (k : ℕ) : {b | ∃ l ∈ some k, b = f l} = {f k} := by simp

theorem Shows.enable (h : P.Shows r₀ r d) (hrx : ∀ l ∈ rx, l < P.count) :
    P.Shows r₀ (P.route rx (· ||| ipcMscmIrsprcGic500) r)
      { d with routed := d.routed ∪ {l | l ∈ rx} } := by
  cases rx with
  | none =>
    rw [lines_none, Set.union_empty]
    exact h
  | some k =>
    rw [lines_some]
    exact h.routeOn (hrx k rfl)

theorem Shows.disable (h : P.Shows r₀ r d) (hrx : ∀ l ∈ rx, l < P.count) :
    P.Shows r₀ (P.route rx (· &&& ~~~ipcMscmIrsprcGic500) r)
      { d with routed := d.routed \ {l | l ∈ rx} } := by
  cases rx with
  | none =>
    rw [lines_none, Set.sdiff_empty]
    exact h
  | some k =>
    rw [lines_some]
    exact h.routeOff (hrx k rfl)

theorem Shows.notify (h : P.Shows r₀ r d) {c : Setup} (hc : P.SetUp cfg c) :
    P.Shows r₀ (P.status c.tx c.remoteCore (· ||| 1 <<< r.cpxnum) r)
      { d with rung := d.rung ∪ c.remoteBell d.self } := by
  have hlt := hc.tx_lt
  unfold Setup.remoteBell
  rw [h.self]
  cases htx : c.tx with
  | none =>
    rw [bells_none, Set.union_empty]
    exact h
  | some k =>
    rw [bells_some]
    exact h.ring (hlt k htx) (P.remoteCore_lt _ _ hc.remoteCore) h.self_lt

theorem Shows.clear (h : P.Shows r₀ r d) {c : Setup} (hc : P.SetUp cfg c) :
    P.Shows r₀ (P.status c.rx c.localCore (· &&& ~~~(1 <<< UInt32.ofNat c.remoteCore)) r)
      { d with rung := d.rung \ c.ownBell } := by
  have hlt := hc.rx_lt
  unfold Setup.ownBell
  cases hrx : c.rx with
  | none =>
    rw [bells_none, Set.sdiff_empty]
    exact h
  | some k =>
    rw [bells_some]
    exact h.silence (hlt k hrx) (P.localCore_lt _ _ hc.localCore)
      (P.remoteCore_lt _ _ hc.remoteCore)

/-- The configuration register is no part of it. -/
theorem Shows.configure (h : P.Shows r₀ r d) (x : UInt32) :
    P.Shows r₀ { r with ircpcfg := x } d :=
  ⟨h.routed, h.rung, h.self, h.self_lt, h.irsprc, h.isr⟩

/-- Nor is what the instances are set up with. -/
theorem Shows.setUp (h : P.Shows r₀ r d) (f : ℕ → Option Setup) :
    P.Shows r₀ r { d with setUp := f } :=
  ⟨h.routed, h.rung, h.self, h.self_lt, h.irsprc, h.isr⟩

/-- **What others do** is done to the bells. -/
theorem Shows.others {r' : Mscm} (h : P.Shows r₀ r d) (ho : P.Others r r') :
    ∃ d', d.Step P .others d' ∧ d'.setUp = d.setUp ∧ P.Shows r₀ r' d' := by
  cases ho with
  | @migrate core hcore =>
    exact ⟨_, .migrate core, rfl, h.routed, h.rung, rfl, hcore, h.irsprc, h.isr⟩
  | ring hc hl hs => exact ⟨_, .ring, rfl, h.ring hl hc hs⟩
  | silence hc hl hs => exact ⟨_, .silence, rfl, h.silence hl hc hs⟩
  | @steer i f hi hf =>
    refine ⟨d, .idle, rfl, h.reroute hi (fun l hl => (h.routed l hl).trans ?_)⟩
    unfold Mscm.Routes Mscm.reroute
    dsimp only
    by_cases heq : P.spi l = i
    · rw [heq, Function.update_self, hf]
    · rw [Function.update_of_ne heq]
  | configure x => exact ⟨d, .idle, rfl, h.configure x⟩

end Lines

/-! ## Layers -/

/-- **The HW layer of a platform**, as the other layers use it: its data together
with the registers, and its functions. -/
structure HwLayer where
  State : Type
  mscm : State → Mscm
  setMscm : Mscm → State → State
  ipcHwInitAt : State → ℕ → IpcShmCfg → ℕ → ℤ × State
  ipcHwIrqEnable : State → ℕ → State
  ipcHwIrqDisable : State → ℕ → State
  ipcHwIrqNotify : State → ℕ → State
  ipcHwIrqClear : State → ℕ → State

/-- A layer in use, with the configurations of the instances that were initialized
and not freed. -/
structure HwLayer.Sys (L : HwLayer) where
  hw : L.State
  cfg : ℕ → Option IpcShmCfg

namespace HwLayer

variable (L : HwLayer) (P : Lines)

/-- **What can happen.** Any instance may be initialized at any time, with any
configuration. The other functions are called for instances in use, and freeing
one clears its notification. -/
inductive Step (σ : L.Sys) : HwCall → L.Sys → Prop where
  | init {inst addr : ℕ} {cfg : IpcShmCfg} (h : (L.ipcHwInitAt σ.hw inst cfg addr).1 = 0) :
      Step σ (.init inst cfg)
        ⟨(L.ipcHwInitAt σ.hw inst cfg addr).2, Function.update σ.cfg inst (some cfg)⟩
  | initFails {inst addr : ℕ} {cfg : IpcShmCfg} (h : (L.ipcHwInitAt σ.hw inst cfg addr).1 ≠ 0) :
      Step σ (.initFails inst)
        ⟨(L.ipcHwInitAt σ.hw inst cfg addr).2, Function.update σ.cfg inst none⟩
  | free {inst : ℕ} {cfg : IpcShmCfg} (h : σ.cfg inst = some cfg) :
      Step σ (.free inst) ⟨L.ipcHwIrqClear σ.hw inst, Function.update σ.cfg inst none⟩
  | enable {inst : ℕ} {cfg : IpcShmCfg} (h : σ.cfg inst = some cfg) :
      Step σ (.enable inst) ⟨L.ipcHwIrqEnable σ.hw inst, σ.cfg⟩
  | disable {inst : ℕ} {cfg : IpcShmCfg} (h : σ.cfg inst = some cfg) :
      Step σ (.disable inst) ⟨L.ipcHwIrqDisable σ.hw inst, σ.cfg⟩
  | notify {inst : ℕ} {cfg : IpcShmCfg} (h : σ.cfg inst = some cfg) :
      Step σ (.notify inst) ⟨L.ipcHwIrqNotify σ.hw inst, σ.cfg⟩
  | clear {inst : ℕ} {cfg : IpcShmCfg} (h : σ.cfg inst = some cfg) :
      Step σ (.clear inst) ⟨L.ipcHwIrqClear σ.hw inst, σ.cfg⟩
  | others {r : Mscm} (h : P.Others (L.mscm σ.hw) r) :
      Step σ .others ⟨L.setMscm r σ.hw, σ.cfg⟩

/-- **What has to be shown of a layer**, where `Keeps` tells that its data are those
of an instance set up in a way: what each function does to the registers, and that
it leaves the data of the instances alone that it is not about. -/
structure Implements (Keeps : L.State → ℕ → Setup → Prop) : Prop where
  setMscm : ∀ s r, L.mscm (L.setMscm r s) = r ∧
    ∀ j c, Keeps s j c → Keeps (L.setMscm r s) j c
  init : ∀ s inst cfg addr, (L.ipcHwInitAt s inst cfg addr).1 = 0 → ∃ c x, P.SetUp cfg c ∧
    Keeps (L.ipcHwInitAt s inst cfg addr).2 inst c ∧
    L.mscm (L.ipcHwInitAt s inst cfg addr).2 =
      { P.route c.rx (· &&& ~~~ipcMscmIrsprcGic500) (L.mscm s) with ircpcfg := x }
  initFails : ∀ s inst cfg addr, (L.ipcHwInitAt s inst cfg addr).1 ≠ 0 →
    ∃ rx : Option ℕ, (∀ l ∈ rx, l < P.count) ∧ L.mscm (L.ipcHwInitAt s inst cfg addr).2 =
      P.route rx (· &&& ~~~ipcMscmIrsprcGic500) (L.mscm s)
  init_of_ne : ∀ s inst cfg addr j c, j ≠ inst → Keeps s j c →
    Keeps (L.ipcHwInitAt s inst cfg addr).2 j c
  enable : ∀ s inst c, Keeps s inst c →
    L.mscm (L.ipcHwIrqEnable s inst) = P.route c.rx (· ||| ipcMscmIrsprcGic500) (L.mscm s) ∧
    ∀ j c, Keeps s j c → Keeps (L.ipcHwIrqEnable s inst) j c
  disable : ∀ s inst c, Keeps s inst c →
    L.mscm (L.ipcHwIrqDisable s inst) =
      P.route c.rx (· &&& ~~~ipcMscmIrsprcGic500) (L.mscm s) ∧
    ∀ j c, Keeps s j c → Keeps (L.ipcHwIrqDisable s inst) j c
  notify : ∀ s inst c, Keeps s inst c →
    L.mscm (L.ipcHwIrqNotify s inst) =
      P.status c.tx c.remoteCore (· ||| 1 <<< (L.mscm s).cpxnum) (L.mscm s) ∧
    ∀ j c, Keeps s j c → Keeps (L.ipcHwIrqNotify s inst) j c
  clear : ∀ s inst c, Keeps s inst c →
    L.mscm (L.ipcHwIrqClear s inst) =
      P.status c.rx c.localCore (· &&& ~~~(1 <<< UInt32.ofNat c.remoteCore)) (L.mscm s) ∧
    ∀ j c, Keeps s j c → Keeps (L.ipcHwIrqClear s inst) j c

variable {L P} {Keeps : L.State → ℕ → Setup → Prop} {r₀ : Mscm} {σ σ' : L.Sys} {d : Doorbells}

variable (P Keeps r₀) in
/-- **A state of a layer shows a state of the bells.** -/
structure Refines (σ : L.Sys) (d : Doorbells) : Prop where
  shows : P.Shows r₀ (L.mscm σ.hw) d
  keeps : ∀ inst, ∀ cfg ∈ σ.cfg inst, ∃ c, d.setUp inst = some c ∧ P.SetUp cfg c ∧
    Keeps σ.hw inst c
  unused : ∀ inst, σ.cfg inst = none → d.setUp inst = none

/-- A function that is called for an instance in use. -/
theorem Refines.call {hw : L.State} {d' : Doorbells} (h : Refines P Keeps r₀ σ d)
    (hshows : P.Shows r₀ (L.mscm hw) d') (hset : d'.setUp = d.setUp)
    (hkeeps : ∀ j c, Keeps σ.hw j c → Keeps hw j c) : Refines P Keeps r₀ ⟨hw, σ.cfg⟩ d' := by
  refine ⟨hshows, fun j cfg hj => ?_, fun j hj => ?_⟩
  · obtain ⟨c, hc, hv, hk⟩ := h.keeps j cfg hj
    exact ⟨c, by rw [hset]; exact hc, hv, hkeeps j c hk⟩
  · rw [hset]
    exact h.unused j hj

/-- An instance that is not used any more. -/
theorem Refines.drop {hw : L.State} {d' : Doorbells} {inst : ℕ} (h : Refines P Keeps r₀ σ d)
    (hshows : P.Shows r₀ (L.mscm hw) d')
    (hset : d'.setUp = Function.update d.setUp inst none)
    (hkeeps : ∀ j c, j ≠ inst → Keeps σ.hw j c → Keeps hw j c) :
    Refines P Keeps r₀ ⟨hw, Function.update σ.cfg inst none⟩ d' := by
  refine ⟨hshows, fun j cfg hj => ?_, fun j hj => ?_⟩
  all_goals
    rw [hset]
    dsimp only at hj
    by_cases heq : j = inst
  · rw [heq, Function.update_self] at hj
    exact absurd hj (Option.not_mem_none cfg)
  · rw [Function.update_of_ne heq] at hj ⊢
    obtain ⟨c, hc, hv, hk⟩ := h.keeps j cfg hj
    exact ⟨c, hc, hv, hkeeps j c heq hk⟩
  · rw [heq, Function.update_self]
  · rw [Function.update_of_ne heq] at hj ⊢
    exact h.unused j hj

/-- **One step of the layer is one of the bells.** -/
theorem Implements.step (hL : L.Implements P Keeps) {a : HwCall} (h : Refines P Keeps r₀ σ d)
    (hs : L.Step P σ a σ') : ∃ d', d.Step P a d' ∧ Refines P Keeps r₀ σ' d' := by
  cases hs with
  | @init inst addr cfg h0 =>
    obtain ⟨c, x, hv, hk, hr⟩ := hL.init σ.hw inst cfg addr h0
    refine ⟨_, .init hv, ?_, fun j cfg' hj => ?_, fun j hj => ?_⟩
    · rw [hr]
      exact ((h.shows.disable hv.rx_lt).configure x).setUp _
    all_goals
      dsimp only at hj ⊢
      by_cases heq : j = inst
    · subst heq
      rw [Function.update_self] at hj ⊢
      obtain rfl := Option.some.inj hj
      exact ⟨c, rfl, hv, hk⟩
    · rw [Function.update_of_ne heq] at hj ⊢
      obtain ⟨c', hc', hv', hk'⟩ := h.keeps j cfg' hj
      exact ⟨c', hc', hv', hL.init_of_ne σ.hw inst cfg addr j c' heq hk'⟩
    · rw [heq, Function.update_self] at hj
      exact absurd hj (Option.some_ne_none cfg)
    · rw [Function.update_of_ne heq] at hj ⊢
      exact h.unused j hj
  | @initFails inst addr cfg h0 =>
    obtain ⟨rx, hrx, hr⟩ := hL.initFails σ.hw inst cfg addr h0
    refine ⟨_, .initFails rx, h.drop ?_ rfl (hL.init_of_ne σ.hw inst cfg addr)⟩
    rw [hr]
    exact (h.shows.disable hrx).setUp _
  | @free inst cfg hused =>
    obtain ⟨c, hc, hv, hk⟩ := h.keeps inst cfg hused
    obtain ⟨hr, hkeeps⟩ := hL.clear σ.hw inst c hk
    refine ⟨_, .free hc, h.drop ?_ rfl (fun j c _ => hkeeps j c)⟩
    rw [hr]
    exact (h.shows.clear hv).setUp _
  | @enable inst cfg hused =>
    obtain ⟨c, hc, hv, hk⟩ := h.keeps inst cfg hused
    obtain ⟨hr, hkeeps⟩ := hL.enable σ.hw inst c hk
    exact ⟨_, .enable hc, h.call (by rw [hr]; exact h.shows.enable hv.rx_lt) rfl hkeeps⟩
  | @disable inst cfg hused =>
    obtain ⟨c, hc, hv, hk⟩ := h.keeps inst cfg hused
    obtain ⟨hr, hkeeps⟩ := hL.disable σ.hw inst c hk
    exact ⟨_, .disable hc, h.call (by rw [hr]; exact h.shows.disable hv.rx_lt) rfl hkeeps⟩
  | @notify inst cfg hused =>
    obtain ⟨c, hc, hv, hk⟩ := h.keeps inst cfg hused
    obtain ⟨hr, hkeeps⟩ := hL.notify σ.hw inst c hk
    exact ⟨_, .notify hc, h.call (by rw [hr]; exact h.shows.notify hv) rfl hkeeps⟩
  | @clear inst cfg hused =>
    obtain ⟨c, hc, hv, hk⟩ := h.keeps inst cfg hused
    obtain ⟨hr, hkeeps⟩ := hL.clear σ.hw inst c hk
    exact ⟨_, .clear hc, h.call (by rw [hr]; exact h.shows.clear hv) rfl hkeeps⟩
  | others ho =>
    obtain ⟨d', hd, hset, hshows⟩ := h.shows.others ho
    obtain ⟨hr, hkeeps⟩ := hL.setMscm σ.hw _
    exact ⟨d', hd, h.call (by rw [hr]; exact hshows) hset hkeeps⟩

/-- A layer with no instance in use. -/
def idle (s : L.State) : L.Sys := ⟨s, fun _ => none⟩

/-- **Any order of calls**, from registers that may be anything. -/
theorem Implements.simulates (hL : L.Implements P Keeps) {s : L.State} {calls : List HwCall}
    (h0 : (L.mscm s).cpxnum.toNat < P.cpCount)
    (hr : Steps.Runs (L.Step P) (idle s) calls σ) :
    ∃ d, Steps.Runs (Doorbells.Step P) (P.initial (L.mscm s)) calls d ∧
      Refines P Keeps (L.mscm s) σ d := by
  have h : Refines P Keeps (L.mscm s) (idle s) (P.initial (L.mscm s)) :=
    ⟨Lines.shows_initial h0, fun _ _ hno => absurd hno (Option.not_mem_none _), fun _ _ => rfl⟩
  exact hr.simulates (I := Refines P Keeps (L.mscm s)) h (fun _ _ _ _ h hs => hL.step h hs)

/-- **The line of nobody** is shown by the registers as before, after any calls. -/
theorem Implements.apart (hL : L.Implements P Keeps) {calls : List HwCall} {l : ℕ}
    (h : Refines P Keeps r₀ σ d) (hl : l < P.count)
    (hno : ∀ inst, ∀ cfg ∈ σ.cfg inst, cfg.interCoreTxIrq ≠ l ∧ cfg.interCoreRxIrq ≠ l)
    (hr : Steps.Runs (L.Step P) σ calls σ') (hcalls : ∀ a ∈ calls, a.InUse) :
    ((L.mscm σ'.hw).Routes (P.spi l) ↔ (L.mscm σ.hw).Routes (P.spi l)) ∧
    ∀ core, ∀ s < P.cpCount,
      (L.mscm σ'.hw).Rings core (P.msi l) s ↔ (L.mscm σ.hw).Rings core (P.msi l) s := by
  have hun : d.Unused l := by
    intro inst c hc
    cases hcfg : σ.cfg inst with
    | none =>
      rw [h.unused inst hcfg] at hc
      exact absurd hc (Option.not_mem_none c)
    | some cfg =>
      obtain ⟨c', hc', hv, -⟩ := h.keeps inst cfg hcfg
      obtain rfl := Option.some.inj (hc'.symm.trans hc)
      obtain ⟨htx, hrx⟩ := hno inst cfg hcfg
      refine ⟨fun hmem => htx ?_, fun hmem => hrx ?_⟩
      · rw [hv.tx, Option.mem_def.mp hmem]
        rfl
      · rw [hv.rx, Option.mem_def.mp hmem]
        rfl
  obtain ⟨d', hd, h'⟩ :=
    hr.simulates (I := Refines P Keeps r₀) h (fun _ _ _ _ h hs => hL.step h hs)
  obtain ⟨-, hsame⟩ := hun.runs hd hcalls
  refine ⟨?_, fun core s hs => ?_⟩
  · rw [← h'.shows.routed l hl, hsame.routed, h.shows.routed l hl]
  · rw [← h'.shows.rung core l hl s hs, hsame.rung, h.shows.rung core l hl s hs]

end HwLayer
