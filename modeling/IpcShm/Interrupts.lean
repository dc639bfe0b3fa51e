import IpcShm.Program
import IpcShm.KernelOs

/-!
# Interrupt numbers and the handler

All instances share one handler, registered once per interrupt number. The
layer has no count of the instances a registration serves: whether a number is
registered is read off the numbers the other instances carry. That is right as
long as an instance carries a number only while it is enabled, and the error
path of `ipc_os_init` breaks it. The number is written before `request_irq` is
called, and stays there when the call fails. The next instance that gets the
same number finds it carried, and is enabled without a handler.

`IrqTable` is what matters of the layer here, and a call acts on it as a call of
`IrqTable.init` or `IrqTable.free` does (`irqTable_ipcOsInit`,
`irqTable_ipcOsFree`). The invariant says that a number is registered once while
an enabled instance carries it and not otherwise, and that the number of an
instance that is not enabled is carried by no other.
-/

/-- The numbers the instances carry, their states, and what is registered. -/
@[ext]
structure IrqTable where
  irqNum : ℕ → ℤ
  state : ℕ → IpcOsState
  irqs : List ℤ
  strayFrees : List ℤ

namespace IrqTable

variable (t : IrqTable)

/-- Another instance carries the number. -/
def Shared (inst : ℕ) (irq : ℤ) : Prop :=
  ∃ j < ipcShmMaxInstances, j ≠ inst ∧ t.irqNum j = irq

instance (inst : ℕ) (irq : ℤ) : Decidable (t.Shared inst irq) :=
  inferInstanceAs (Decidable (∃ j < ipcShmMaxInstances, j ≠ inst ∧ t.irqNum j = irq))

/-- An instance carries a number, whatever its state. -/
def enter (inst : ℕ) (irq : ℤ) : IrqTable :=
  { t with irqNum := Function.update t.irqNum inst irq }

def enable (inst : ℕ) : IrqTable := { t with state := Function.update t.state inst .enabled }

def register (irq : ℤ) : IrqTable := { t with irqs := irq :: t.irqs }

/-- An initialization that gets to the interrupt: the number is entered, and
unless it is not `usable` the instance is enabled, with a registration if the
number needs one and can get it. -/
def init (inst : ℕ) (irq : ℤ) (usable : Bool) (requestIrq : ℤ) : IrqTable :=
  let t' := t.enter inst irq
  if usable = false then t'
  else if t.Shared inst irq then t'.enable inst
  else if irq = ipcIrqNone then t'.enable inst
  else if requestIrq = 0 then (t'.register irq).enable inst
  else t'

/-- A registration given up. -/
def freeIrq (irq : ℤ) : IrqTable :=
  { t with
    irqs := t.irqs.erase irq
    strayFrees := if irq ∈ t.irqs then t.strayFrees else irq :: t.strayFrees }

/-- The release of an instance. -/
def free (inst : ℕ) : IrqTable :=
  let t := { t with state := Function.update t.state inst .disabled }
  let irq := t.irqNum inst
  if irq = ipcIrqNone then t
  else
    let t := if ¬t.Shared inst irq ∧ irq ≠ 0 then t.freeIrq irq else t
    t.enter inst 0

/-! ## The invariant -/

/-- An enabled instance carries the number. -/
def Carried (irq : ℤ) : Prop :=
  ∃ i < ipcShmMaxInstances, t.state i = .enabled ∧ t.irqNum i = irq

/-- **A number is registered once while an enabled instance carries it and not
otherwise**, and nothing was given up that was not registered. -/
structure Bookkept : Prop where
  registered : ∀ irq, 0 < irq → t.Carried irq → t.irqs.count irq = 1
  unregistered : ∀ irq, 0 < irq → ¬t.Carried irq → t.irqs.count irq = 0
  strayFrees : t.strayFrees = []

/-- The invariant of a run. -/
structure Inv : Prop extends Bookkept t where
  /-- The number of an instance that is not enabled is its own. -/
  alone : ∀ i < ipcShmMaxInstances, t.state i = .disabled → 0 < t.irqNum i →
    ∀ j < ipcShmMaxInstances, j ≠ i → t.irqNum j ≠ t.irqNum i

/-- No instance that is not enabled carries the number. -/
def NotStale (inst : ℕ) (irq : ℤ) : Prop :=
  ∀ j < ipcShmMaxInstances, j ≠ inst → t.state j = .disabled → t.irqNum j ≠ irq

instance (inst : ℕ) (irq : ℤ) : Decidable (t.NotStale inst irq) :=
  inferInstanceAs (Decidable (∀ j < ipcShmMaxInstances, j ≠ inst → t.state j = .disabled →
    t.irqNum j ≠ irq))

/-- An instance that is enabled already keeps its number without a second
registration, or leaves one that others carry for one that is registered. -/
def HandsOver (inst : ℕ) (irq requestIrq : ℤ) : Prop :=
  (irq = t.irqNum inst → irq ≤ 0 ∨ t.Shared inst irq ∨ requestIrq ≠ 0) ∧
  (irq ≠ t.irqNum inst →
    (t.irqNum inst ≤ 0 ∨ t.Shared inst (t.irqNum inst)) ∧
    (irq ≤ 0 ∨ t.Shared inst irq ∨ requestIrq = 0))

instance (inst : ℕ) (irq requestIrq : ℤ) : Decidable (t.HandsOver inst irq requestIrq) :=
  inferInstanceAs (Decidable ((_ → _ ∨ _ ∨ _) ∧ (_ → (_ ∨ _) ∧ (_ ∨ _ ∨ _))))

/-- **A number that may be entered.** -/
def Enterable (inst : ℕ) (irq requestIrq : ℤ) : Prop :=
  (0 < irq → t.NotStale inst irq) ∧
  (t.state inst = .enabled → t.HandsOver inst irq requestIrq)

instance (inst : ℕ) (irq requestIrq : ℤ) : Decidable (t.Enterable inst irq requestIrq) :=
  inferInstanceAs (Decidable ((_ → _) ∧ (_ → _)))

/-- **An instance that may be freed**: its number is not an error number that
`free_irq` would be called with. -/
def Freeable (inst : ℕ) : Prop :=
  0 ≤ t.irqNum inst ∨ t.irqNum inst = ipcIrqNone ∨ t.Shared inst (t.irqNum inst)

instance (inst : ℕ) : Decidable (t.Freeable inst) :=
  inferInstanceAs (Decidable (_ ∨ _ ∨ _))

variable {t} {inst : ℕ} {irq requestIrq : ℤ}

theorem state_eq_enabled_or (i : ℕ) : t.state i = .enabled ∨ t.state i = .disabled := by
  cases t.state i with
  | enabled => exact Or.inl rfl
  | disabled => exact Or.inr rfl

/-- An instance that shares a number is enabled. -/
theorem Inv.state_of_shared (h : t.Inv) (hinst : inst < ipcShmMaxInstances)
    (hpos : 0 < t.irqNum inst) {j : ℕ} (hj : j < ipcShmMaxInstances) (hne : j ≠ inst)
    (heq : t.irqNum j = t.irqNum inst) : t.state j = .enabled := by
  rcases state_eq_enabled_or (t := t) j with he | hd
  · exact he
  · exact absurd heq.symm (h.alone j hj hd (heq ▸ hpos) inst hinst hne.symm)

/-- An enabled instance other than the given one carries the number. -/
def CarriedByOther (t : IrqTable) (inst : ℕ) (irq : ℤ) : Prop :=
  ∃ j < ipcShmMaxInstances, j ≠ inst ∧ t.state j = .enabled ∧ t.irqNum j = irq

theorem CarriedByOther.carried (h : t.CarriedByOther inst irq) : t.Carried irq := by
  obtain ⟨j, hj, -, hs, hn⟩ := h
  exact ⟨j, hj, hs, hn⟩

theorem CarriedByOther.shared (h : t.CarriedByOther inst irq) : t.Shared inst irq := by
  obtain ⟨j, hj, hne, -, hn⟩ := h
  exact ⟨j, hj, hne, hn⟩

/-- **What an instance leaves, others still carry.** -/
theorem Inv.carriedByOther (h : t.Inv) (hinst : inst < ipcShmMaxInstances) (hpos : 0 < irq)
    (hc : t.Carried irq)
    (hleft : t.state inst = .enabled → t.irqNum inst = irq → t.Shared inst irq) :
    t.CarriedByOther inst irq := by
  obtain ⟨i, hi, hs, hn⟩ := hc
  by_cases hne : i = inst
  · subst hne
    obtain ⟨j, hj, hji, hnj⟩ := hleft hs hn
    exact ⟨j, hj, hji, h.state_of_shared hi (hn ▸ hpos) hj hji (hnj.trans hn.symm), hnj⟩
  · exact ⟨i, hi, hne, hs, hn⟩

/-! ## One call -/

/-- **The invariant after a call that changes one instance**, said through what
the other instances carry: every number is registered once if the instance
carries it in the end or another does, and not otherwise. -/
theorem inv_of_others {t' : IrqTable} (h : t.Inv)
    (hirq : ∀ j, j ≠ inst → t'.irqNum j = t.irqNum j)
    (hstate : ∀ j, j ≠ inst → t'.state j = t.state j)
    (hreg : ∀ n, 0 < n → (t'.state inst = .enabled ∧ t'.irqNum inst = n ∨ t.CarriedByOther inst n) →
      t'.irqs.count n = 1)
    (hunreg : ∀ n, 0 < n → ¬(t'.state inst = .enabled ∧ t'.irqNum inst = n) →
      ¬t.CarriedByOther inst n → t'.irqs.count n = 0)
    (hstray : t'.strayFrees = [])
    (hother : 0 < t'.irqNum inst → t.NotStale inst (t'.irqNum inst))
    (hown : t'.state inst = .disabled → 0 < t'.irqNum inst → ¬t.Shared inst (t'.irqNum inst))
    (hinst : inst < ipcShmMaxInstances) : t'.Inv := by
  have hcarried : ∀ n, t'.Carried n ↔
      (t'.state inst = .enabled ∧ t'.irqNum inst = n) ∨ t.CarriedByOther inst n := by
    intro n
    constructor
    · rintro ⟨i, hi, hs, hn⟩
      by_cases hne : i = inst
      · subst hne
        exact Or.inl ⟨hs, hn⟩
      · exact Or.inr ⟨i, hi, hne, (hstate i hne) ▸ hs, (hirq i hne) ▸ hn⟩
    · rintro (⟨hs, hn⟩ | ⟨i, hi, hne, hs, hn⟩)
      · exact ⟨inst, hinst, hs, hn⟩
      · exact ⟨i, hi, (hstate i hne).trans hs, (hirq i hne).trans hn⟩
  refine ⟨⟨fun n hpos hc => hreg n hpos ((hcarried n).mp hc), fun n hpos hc => ?_, hstray⟩, ?_⟩
  · rw [hcarried, not_or] at hc
    exact hunreg n hpos hc.1 hc.2
  · intro i hi hs hpos j hj hji
    by_cases hne : i = inst
    · subst hne
      intro heq
      exact hown hs hpos ⟨j, hj, hji, (hirq j hji).symm.trans heq⟩
    · rw [hstate i hne] at hs
      rw [hirq i hne] at hpos ⊢
      by_cases hj' : j = inst
      · subst hj'
        intro heq
        exact hother (heq ▸ hpos) i hi hne hs heq.symm
      · rw [hirq j hj']
        exact h.alone i hi hs hpos j hj hji

/-- **A number is entered**, with or without enabling the instance. The other
numbers keep their registrations, and this one has one exactly if it is needed. -/
theorem Inv.entered {t' : IrqTable} (h : t.Inv) (hinst : inst < ipcShmMaxInstances)
    (hc : t.Enterable inst irq requestIrq) (hnum : t'.irqNum = Function.update t.irqNum inst irq)
    (hstate : ∀ j, j ≠ inst → t'.state j = t.state j)
    (hirqs : ∀ n, n ≠ irq → t'.irqs.count n = t.irqs.count n)
    (hstray : t'.strayFrees = t.strayFrees)
    (hown : 0 < irq →
      t'.irqs.count irq = 1 ∧ t'.state inst = .enabled ∨
      t'.irqs.count irq = 0 ∧ t'.state inst = .disabled ∧ ¬t.Shared inst irq) : t'.Inv := by
  obtain ⟨hstale, hover⟩ := hc
  have hself : t'.irqNum inst = irq := by rw [hnum, Function.update_self]
  -- what the instance leaves is carried by another
  have hleft : ∀ n, 0 < n → n ≠ irq → t.Carried n → t.CarriedByOther inst n := by
    intro n hpos hne hn
    refine h.carriedByOther hinst hpos hn (fun hs heq => ?_)
    obtain ⟨hshared, -⟩ := (hover hs).2 (fun hirq => hne (heq ▸ hirq.symm))
    rw [heq] at hshared
    exact hshared.resolve_left (by omega)
  refine inv_of_others h (fun j hj => by rw [hnum, Function.update_of_ne hj]) hstate
    (fun n hpos hn => ?_) (fun n hpos hn hother => ?_) (hstray.trans h.strayFrees)
    (fun hpos => ?_) (fun hs hpos => ?_) hinst
  · by_cases hne : n = irq
    · subst hne
      rcases hown hpos with ⟨hone, -⟩ | ⟨-, hd, hshared⟩
      · exact hone
      · rcases hn with ⟨he, -⟩ | hn
        · rw [hd] at he
          exact nomatch he
        · exact absurd hn.shared hshared
    · rcases hn with ⟨-, heq⟩ | hn
      · exact absurd (heq.symm.trans hself) hne
      · rw [hirqs n hne]
        exact h.registered n hpos hn.carried
  · by_cases hne : n = irq
    · subst hne
      rcases hown hpos with ⟨-, he⟩ | ⟨hzero, -, -⟩
      · exact absurd ⟨he, hself⟩ hn
      · exact hzero
    · rw [hirqs n hne]
      exact h.unregistered n hpos (fun hc => hother (hleft n hpos hne hc))
  · rw [hself] at hpos ⊢
    exact hstale hpos
  · rw [hself] at hpos ⊢
    rcases hown hpos with ⟨-, he⟩ | ⟨-, -, hshared⟩
    · rw [hs] at he
      exact nomatch he
    · exact hshared

/-- **An initialization keeps the books.** -/
theorem Inv.init (h : t.Inv) (hinst : inst < ipcShmMaxInstances) {usable : Bool}
    (hc : t.Enterable inst irq requestIrq) (husable : usable = true → irq = ipcIrqNone ∨ 0 < irq)
    (hunusable : usable = false → irq ≤ 0) : (t.init inst irq usable requestIrq).Inv := by
  have henabled : ∀ j, j ≠ inst → Function.update t.state inst .enabled j = t.state j :=
    fun j hj => Function.update_of_ne hj _ _
  have hstate : Function.update t.state inst .enabled inst = .enabled := Function.update_self _ _ _
  -- a number no other instance carries is not registered, unless the instance has it
  have hfresh : 0 < irq → ¬t.Shared inst irq →
      (t.state inst = .enabled → irq ≠ t.irqNum inst) → t.irqs.count irq = 0 := by
    intro hpos hshared hown
    refine h.unregistered irq hpos ?_
    rintro ⟨i, hi, hs, hn⟩
    by_cases hne : i = inst
    · subst hne
      exact hown hs hn.symm
    · exact hshared ⟨i, hi, hne, hn⟩
  unfold IrqTable.init
  dsimp only
  split
  · rename_i hu
    have hle := hunusable hu
    exact h.entered hinst hc rfl (fun _ _ => rfl) (fun _ _ => rfl) rfl (fun hpos => by omega)
  rename_i hu
  have huse := husable (Bool.eq_true_of_not_eq_false hu)
  split
  · -- another instance carries it, and is enabled
    rename_i hshared
    refine h.entered hinst hc rfl henabled (fun _ _ => rfl) rfl (fun hpos => Or.inl ⟨?_, hstate⟩)
    obtain ⟨j, hj, hji, hnj⟩ := hshared
    have hsj := (state_eq_enabled_or (t := t) j).resolve_right
      (fun hd => hc.1 hpos j hj hji hd hnj)
    exact h.registered irq hpos ⟨j, hj, hsj, hnj⟩
  rename_i hshared
  split
  · rename_i hnone
    have hneg : ipcIrqNone < 0 := by decide
    exact h.entered hinst hc rfl henabled (fun _ _ => rfl) rfl (fun hpos => by omega)
  rename_i hsome
  have hpos := huse.resolve_left hsome
  split
  · -- a new registration
    rename_i hok
    refine h.entered hinst hc rfl henabled (fun n hne => List.count_cons_of_ne (Ne.symm hne)) rfl
      (fun _ => Or.inl ⟨?_, hstate⟩)
    have hzero := hfresh hpos hshared (fun hs heq => ?_)
    · refine List.count_cons_self.trans ?_
      rw [show (t.enter inst irq).irqs = t.irqs from rfl, hzero]
    · rcases (hc.2 hs).1 heq with hle | hsh | hno
      · omega
      · exact hshared hsh
      · exact hno hok
  · -- the registration is refused
    rename_i hrefused
    refine h.entered hinst hc rfl (fun _ _ => rfl) (fun _ _ => rfl) rfl (fun _ => ?_)
    rcases state_eq_enabled_or (t := t) inst with he | hd
    · left
      by_cases heq : irq = t.irqNum inst
      · exact ⟨h.registered irq hpos ⟨inst, hinst, he, heq.symm⟩, he⟩
      · rcases ((hc.2 he).2 heq).2 with hle | hsh | hok
        · omega
        · exact absurd hsh hshared
        · exact absurd hok hrefused
    · right
      exact ⟨hfresh hpos hshared (fun he => by rw [hd] at he; exact nomatch he), hd, hshared⟩

/-- **So does a release.** -/
theorem Inv.free (h : t.Inv) (hinst : inst < ipcShmMaxInstances) (he : t.state inst = .enabled)
    (hc : t.Freeable inst) : (t.free inst).Inv := by
  have hdisabled : ∀ j, j ≠ inst → Function.update t.state inst .disabled j = t.state j :=
    fun j hj => Function.update_of_ne hj _ _
  have hstate : Function.update t.state inst .disabled inst = .disabled :=
    Function.update_self _ _ _
  have hnot : ∀ n, ¬(Function.update t.state inst .disabled inst = .enabled ∧ n) := by
    rintro n ⟨hs, -⟩
    rw [hstate] at hs
    exact nomatch hs
  have hzero : ∀ j, j ≠ inst → Function.update t.irqNum inst 0 j = t.irqNum j :=
    fun j hj => Function.update_of_ne hj _ _
  have hnever : ¬0 < Function.update t.irqNum inst 0 inst := by
    rw [Function.update_self]
    decide
  -- the other numbers are carried by others, if at all
  have hleft : ∀ n, 0 < n → (t.irqNum inst = n → t.Shared inst n) → ¬t.CarriedByOther inst n →
      t.irqs.count n = 0 :=
    fun n hpos hown hn => h.unregistered n hpos
      (fun hcar => hn (h.carriedByOther hinst hpos hcar (fun _ heq => hown heq)))
  unfold IrqTable.free
  dsimp only
  split
  · rename_i hnone
    have hneg : ipcIrqNone < 0 := by decide
    refine inv_of_others h (fun _ _ => rfl) hdisabled (fun n hpos hn => ?_) (fun n hpos _ hn => ?_)
      h.strayFrees (fun hpos => ?_) (fun _ hpos => ?_) hinst
    · exact h.registered n hpos (hn.resolve_left (hnot _)).carried
    · exact hleft n hpos (fun heq => by omega) hn
    · exact absurd hpos (by rw [show _ = ipcIrqNone from hnone]; decide)
    · exact absurd hpos (by rw [show _ = ipcIrqNone from hnone]; decide)
  rename_i hsome
  split
  · -- the registration is given up with the last instance that carries the number
    rename_i hlast
    obtain ⟨hshared, hne0⟩ : ¬t.Shared inst (t.irqNum inst) ∧ t.irqNum inst ≠ 0 := hlast
    have hge : 0 ≤ t.irqNum inst :=
      hc.resolve_right (fun hor => hor.elim hsome hshared)
    have hone := h.registered (t.irqNum inst) (by omega) ⟨inst, hinst, he, rfl⟩
    have hmem : t.irqNum inst ∈ t.irqs := List.count_pos_iff.mp (by omega)
    refine inv_of_others h hzero hdisabled (fun n hpos hn => ?_) (fun n hpos _ hn => ?_)
      ((if_pos hmem).trans h.strayFrees) (fun hpos => ?_) (fun _ hpos => ?_) hinst
    · have hn := hn.resolve_left (hnot _)
      have hne : n ≠ t.irqNum inst := fun heq => hshared (heq ▸ hn.shared)
      exact (List.count_erase_of_ne hne).trans (h.registered n hpos hn.carried)
    · by_cases hne : n = t.irqNum inst
      · subst hne
        exact List.count_erase_self.trans (by rw [hone])
      · exact (List.count_erase_of_ne hne).trans
          (hleft n hpos (fun heq => absurd heq.symm hne) hn)
    · exact absurd hpos hnever
    · exact absurd hpos hnever
  · rename_i hkeep
    have hkeep : ¬(¬t.Shared inst (t.irqNum inst) ∧ t.irqNum inst ≠ 0) := hkeep
    refine inv_of_others h hzero hdisabled (fun n hpos hn => ?_) (fun n hpos _ hn => ?_)
      h.strayFrees (fun hpos => ?_) (fun _ hpos => ?_) hinst
    · exact h.registered n hpos (hn.resolve_left (hnot _)).carried
    · refine hleft n hpos (fun heq => ?_) hn
      by_contra hshared
      exact hkeep ⟨heq.symm ▸ hshared, by omega⟩
    · exact absurd hpos hnever
    · exact absurd hpos hnever

end IrqTable

/-! ## The layer acts on the table -/

namespace KernelOs

variable (w : KernelOs)

/-- What matters of the layer here. -/
def irqTable : IrqTable where
  irqNum := KernelInstance.irqNum ∘ w.id
  state := KernelInstance.state ∘ w.id
  irqs := w.ledger.irqs
  strayFrees := w.strayFrees

theorem irqTable_setId (inst : ℕ) (p : KernelInstance) :
    (w.setId inst p).irqTable = ⟨Function.update w.irqTable.irqNum inst p.irqNum,
      Function.update w.irqTable.state inst p.state, w.ledger.irqs, w.strayFrees⟩ := by
  unfold irqTable setId
  congr 1
  · exact Function.comp_update KernelInstance.irqNum w.id inst p
  · exact Function.comp_update KernelInstance.state w.id inst p

/-- Recording the windows is not seen. -/
theorem irqTable_setId_of_eq {inst : ℕ} {p : KernelInstance}
    (hirq : p.irqNum = (w.id inst).irqNum) (hstate : p.state = (w.id inst).state) :
    (w.setId inst p).irqTable = w.irqTable := by
  rw [irqTable_setId, hirq, hstate]
  exact congrArg₂ (fun f g => IrqTable.mk f g w.ledger.irqs w.strayFrees)
    (Function.update_eq_self inst w.irqTable.irqNum) (Function.update_eq_self inst w.irqTable.state)

theorem irqTable_enable (inst : ℕ) :
    (w.enable inst).irqTable = w.irqTable.enable inst := by
  rw [enable, irqTable_setId]
  exact congrArg (fun f => IrqTable.mk f _ w.ledger.irqs w.strayFrees)
    (Function.update_eq_self inst w.irqTable.irqNum)

theorem irqTable_enter (inst : ℕ) (irq : ℤ) :
    (w.setIrqNum inst irq).irqTable = w.irqTable.enter inst irq := by
  rw [setIrqNum, irqTable_setId]
  exact congrArg (fun f => IrqTable.mk _ f w.ledger.irqs w.strayFrees)
    (Function.update_eq_self inst w.irqTable.state)

theorem sharesIrq_iff (inst : ℕ) (irq : ℤ) :
    w.sharesIrq inst irq = true ↔ w.irqTable.Shared inst irq := by
  rw [sharesIrq, List.any_eq_true]
  simp only [List.mem_range, decide_eq_true_eq]
  rfl

/-- The number of the instance itself does not count. -/
theorem shared_enter {t : IrqTable} {inst : ℕ} {irq n : ℤ} :
    (t.enter inst irq).Shared inst n ↔ t.Shared inst n := by
  unfold IrqTable.Shared
  refine exists_congr (fun j => and_congr_right (fun _ => and_congr_right (fun hne => ?_)))
  rw [show (t.enter inst irq).irqNum j = t.irqNum j from Function.update_of_ne hne _ _]

theorem irqTable_registerIrq (r : KernelInitReplies) (inst : ℕ) (irq : ℤ) :
    ((w.setIrqNum inst irq).registerIrq r inst).2.irqTable
      = w.irqTable.init inst irq true r.requestIrq := by
  have henter := w.irqTable_enter inst irq
  have hnum : ((w.setIrqNum inst irq).id inst).irqNum = irq := by
    rw [setIrqNum, setId_self]
  set w' := w.setIrqNum inst irq
  unfold registerIrq IrqTable.init
  dsimp only
  rw [hnum, if_neg (show ¬true = false by decide)]
  by_cases hshared : w.irqTable.Shared inst irq
  · have hshares : w'.sharesIrq inst irq = true := by
      rw [sharesIrq_iff, henter, shared_enter]
      exact hshared
    rw [if_pos hshares, if_pos hshared, irqTable_enable, henter]
  · have hshares : ¬w'.sharesIrq inst irq = true := by
      rw [sharesIrq_iff, henter, shared_enter]
      exact hshared
    rw [if_neg hshares, if_neg hshared]
    by_cases hnone : irq = ipcIrqNone
    · rw [if_neg (not_not.mpr hnone), if_pos hnone, irqTable_enable, henter]
    · rw [if_pos hnone, if_neg hnone]
      unfold requestIrq
      by_cases hok : r.requestIrq = 0
      · rw [if_pos hok, if_pos hok]
        dsimp only
        rw [if_neg (not_not.mpr rfl), irqTable_enable, ← henter]
        rfl
      · rw [if_neg hok, if_neg hok]
        dsimp only
        rw [if_pos hok, henter]

/-- **The number an initialization writes** once an instance has its windows, if
it gets that far. -/
def irqWritten (r : KernelInitReplies) (cfg : IpcShmCfg) : Option ℤ :=
  if cfg.interCoreRxIrq = ipcIrqNone then some ipcIrqNone
  else if r.ofFindCompatibleNode = true then some r.ofIrqGet
  else none

end KernelOs

/-- What an initialization does to the table once the instance has its windows. -/
def IrqTable.initMapped (t : IrqTable) (r : KernelInitReplies) (inst : ℕ) (cfg : IpcShmCfg) :
    IrqTable :=
  match KernelOs.irqWritten r cfg with
  | none => t
  | some irq => t.init inst irq (decide (cfg.interCoreRxIrq = ipcIrqNone ∨ 0 < irq)) r.requestIrq

theorem IrqTable.Inv.initMapped {t : IrqTable} (h : t.Inv) {inst : ℕ}
    (hinst : inst < ipcShmMaxInstances) {r : KernelInitReplies} {cfg : IpcShmCfg}
    (hc : ∀ irq ∈ KernelOs.irqWritten r cfg, t.Enterable inst irq r.requestIrq) :
    (t.initMapped r inst cfg).Inv := by
  unfold IrqTable.initMapped
  cases hw : KernelOs.irqWritten r cfg with
  | none => exact h
  | some irq =>
    refine h.init hinst (hc irq hw) (fun hu => ?_) (fun hu => ?_)
    · refine (of_decide_eq_true hu).imp_left (fun hrx => ?_)
      rw [KernelOs.irqWritten, if_pos hrx] at hw
      exact (Option.some.inj hw).symm
    · have hno := of_decide_eq_false hu
      omega

namespace KernelOs

variable (w : KernelOs)

theorem irqTable_initIrq (r : KernelInitReplies) (inst : ℕ) (cfg : IpcShmCfg) :
    (w.initIrq r inst cfg).2.irqTable = w.irqTable.initMapped r inst cfg := by
  unfold initIrq IrqTable.initMapped irqWritten
  by_cases hrx : cfg.interCoreRxIrq = ipcIrqNone
  · rw [if_pos hrx, if_pos hrx]
    dsimp only
    rw [decide_eq_true (Or.inl hrx)]
    exact w.irqTable_registerIrq r inst ipcIrqNone
  rw [if_neg hrx, if_neg hrx]
  unfold getIrqNumber
  by_cases hnode : r.ofFindCompatibleNode = true
  · rw [if_pos hnode, if_neg (by rw [hnode]; decide)]
    dsimp only
    by_cases hle : r.ofIrqGet ≤ 0
    · rw [if_pos hle]
      dsimp only
      rw [if_pos (by decide), irqTable_enter, decide_eq_false (not_or.mpr ⟨hrx, by omega⟩)]
      rfl
    · rw [if_neg hle]
      dsimp only
      rw [if_neg (not_not.mpr rfl), decide_eq_true (Or.inr (by omega))]
      exact w.irqTable_registerIrq r inst r.ofIrqGet
  · rw [if_neg hnode, if_pos (Bool.eq_false_iff.mpr hnode)]
    rfl

theorem irqTable_initMapped (r : KernelInitReplies) (inst : ℕ) (cfg : IpcShmCfg) :
    (w.initMapped r inst cfg).2.irqTable = w.irqTable.initMapped r inst cfg := by
  unfold initMapped
  dsimp only
  set w' := w.setId inst { w.id inst with
    shmSize := asInt cfg.shmSize.toNat
    localPhysShm := cfg.localShmAddr
    remotePhysShm := cfg.remoteShmAddr }
  have hsame : w'.irqTable = w.irqTable := irqTable_setId_of_eq w rfl rfl
  rw [← hsame, ← irqTable_initIrq]
  -- the error labels do not touch the interrupts
  split
  · rfl
  · rfl

/-- A window is reserved and mapped. -/
def Maps (request : Bool) (virt : ℕ) : Prop := request = true ∧ w.Unused virt

instance (request : Bool) (virt : ℕ) : Decidable (w.Maps request virt) :=
  inferInstanceAs (Decidable (_ ∧ _))

theorem irqTable_initRemote (r : KernelInitReplies) (inst : ℕ) (cfg : IpcShmCfg) :
    (w.initRemote r inst cfg).2.irqTable =
      if w.Maps r.requestRemote r.ioremapRemote then w.irqTable.initMapped r inst cfg
      else w.irqTable := by
  split
  · rename_i hmaps
    rw [initRemote_mapped hmaps.1 hmaps.2, irqTable_initMapped]
    exact congrArg (fun t => IrqTable.initMapped t r inst cfg) (irqTable_setId_of_eq _ rfl rfl)
  · rename_i hno
    by_cases hok : r.requestRemote = true
    · rw [initRemote_unmapped hok (fun hv => hno ⟨hok, hv⟩)]
      exact irqTable_setId_of_eq _ rfl rfl
    · rw [initRemote_refused (Bool.eq_false_iff.mpr hok)]
      rfl

/-- Both windows are. -/
def WindowsMapped (r : KernelInitReplies) : Prop :=
  w.Maps r.requestLocal r.ioremapLocal ∧
    (w.remap r.ioremapLocal).Maps r.requestRemote r.ioremapRemote

instance (r : KernelInitReplies) : Decidable (w.WindowsMapped r) :=
  inferInstanceAs (Decidable (_ ∧ _))

theorem irqTable_initLocal (r : KernelInitReplies) (inst : ℕ) (cfg : IpcShmCfg) :
    (w.initLocal r inst cfg).2.irqTable =
      if w.WindowsMapped r then w.irqTable.initMapped r inst cfg else w.irqTable := by
  by_cases hlocal : w.Maps r.requestLocal r.ioremapLocal
  · have hsame : ∀ v : KernelOs, v.irqTable = w.irqTable →
        (v.Maps r.requestRemote r.ioremapRemote ↔ w.WindowsMapped r) →
        (if v.Maps r.requestRemote r.ioremapRemote then v.irqTable.initMapped r inst cfg
          else v.irqTable) =
        if w.WindowsMapped r then w.irqTable.initMapped r inst cfg else w.irqTable := by
      intro v hv hiff
      rw [hv]
      exact if_congr hiff rfl rfl
    rw [initLocal_mapped hlocal.1 hlocal.2, irqTable_initRemote]
    exact hsame _ (irqTable_setId_of_eq _ rfl rfl) (and_iff_right hlocal).symm
  · rw [if_neg (fun h => hlocal h.1)]
    by_cases hok : r.requestLocal = true
    · rw [initLocal_unmapped hok (fun hv => hlocal ⟨hok, hv⟩)]
      exact irqTable_setId_of_eq _ rfl rfl
    · rw [initLocal_refused (Bool.eq_false_iff.mpr hok)]

/-- **An initialization acts on the table.** -/
theorem irqTable_ipcOsInit (r : KernelInitReplies) {inst : ℕ} (hinst : inst < ipcShmMaxInstances)
    (cfg : IpcShmCfg) (rxCb : Bool) :
    (w.ipcOsInit r inst cfg rxCb).2.irqTable =
      if rxCb = true ∧ w.WindowsMapped r then w.irqTable.initMapped r inst cfg
      else w.irqTable := by
  unfold ipcOsInit
  cases rxCb with
  | false => rfl
  | true =>
    rw [if_neg (by decide), if_neg (Nat.not_lt.mpr hinst.le), irqTable_initLocal]
    exact if_congr (by tauto) rfl rfl

theorem irqTable_disable (inst : ℕ) :
    (w.setId inst { w.id inst with state := .disabled }).irqTable =
      { w.irqTable with state := Function.update w.irqTable.state inst .disabled } := by
  rw [irqTable_setId]
  exact congrArg (fun f => IrqTable.mk f _ w.ledger.irqs w.strayFrees)
    (Function.update_eq_self inst w.irqTable.irqNum)

theorem irqTable_releaseIrq (inst : ℕ) :
    (w.releaseIrq inst).irqTable =
      if w.irqTable.irqNum inst = ipcIrqNone then w.irqTable
      else (if ¬w.irqTable.Shared inst (w.irqTable.irqNum inst) ∧ w.irqTable.irqNum inst ≠ 0
        then w.irqTable.freeIrq (w.irqTable.irqNum inst) else w.irqTable).enter inst 0 := by
  have hiff : (w.sharesIrq inst (w.id inst).irqNum = false ∧ (w.id inst).irqNum ≠ 0) ↔
      (¬w.irqTable.Shared inst (w.irqTable.irqNum inst) ∧ w.irqTable.irqNum inst ≠ 0) := by
    rw [← sharesIrq_iff, Bool.not_eq_true]
    rfl
  unfold releaseIrq
  dsimp only
  by_cases hnone : (w.id inst).irqNum = ipcIrqNone
  · rw [if_pos hnone]
    exact (if_pos hnone).symm
  · rw [if_neg hnone, irqTable_enter]
    refine Eq.trans ?_ (if_neg hnone).symm
    congr 1
    by_cases hlast : w.sharesIrq inst (w.id inst).irqNum = false ∧ (w.id inst).irqNum ≠ 0
    · rw [if_pos hlast, if_pos (hiff.mp hlast)]
      rfl
    · rw [if_neg hlast, if_neg (fun h => hlast (hiff.mpr h))]

/-- **So does a release.** -/
theorem irqTable_ipcOsFree (inst : ℕ) : (w.ipcOsFree inst).irqTable = w.irqTable.free inst := by
  show ((w.setId inst { w.id inst with state := .disabled }).releaseIrq inst).irqTable = _
  rw [irqTable_releaseIrq, irqTable_disable]
  rfl

/-! ## Runs -/

/-- The calls of the layer. -/
inductive Call where
  | init (r : KernelInitReplies) (inst : ℕ) (cfg : IpcShmCfg) (rxCb : Bool)
  | free (inst : ℕ)

/-- One call, on an instance there is; only an instance that was initialized,
and is enabled since, is freed. -/
def step : Call → Option KernelOs
  | .init r inst cfg rxCb =>
    if inst < ipcShmMaxInstances then some (w.ipcOsInit r inst cfg rxCb).2 else none
  | .free inst =>
    if inst < ipcShmMaxInstances ∧ (w.id inst).state = .enabled then some (w.ipcOsFree inst)
    else none

/-- **Calls that keep the books**: a number is entered only where it may be, and an
instance is not freed with an error number. -/
def Careful : Call → Prop
  | .init r inst cfg rxCb => rxCb = true → w.WindowsMapped r →
    ∀ irq ∈ irqWritten r cfg, w.irqTable.Enterable inst irq r.requestIrq
  | .free inst => w.irqTable.Freeable inst

instance (a : Call) : Decidable (w.Careful a) :=
  match a with
  | .init r _ cfg _ => inferInstanceAs (Decidable (_ → _ → ∀ irq ∈ irqWritten r cfg, _))
  | .free inst => inferInstanceAs (Decidable (w.irqTable.Freeable inst))

variable {w}

/-- **One call.** -/
theorem step_inv {w' : KernelOs} {a : Call} (h : w.irqTable.Inv) (hc : w.Careful a)
    (hstep : w.step a = some w') : w'.irqTable.Inv := by
  cases a with
  | init r inst cfg rxCb =>
    rw [step, Option.ite_none_right_eq_some] at hstep
    obtain ⟨hinst, hw'⟩ := hstep
    obtain rfl := Option.some.inj hw'
    rw [irqTable_ipcOsInit w r hinst]
    split
    · rename_i hgo
      exact h.initMapped hinst (hc hgo.1 hgo.2)
    · exact h
  | free inst =>
    rw [step, Option.ite_none_right_eq_some] at hstep
    obtain ⟨⟨hinst, hs⟩, hw'⟩ := hstep
    obtain rfl := Option.some.inj hw'
    rw [irqTable_ipcOsFree]
    exact h.free hinst hs hc

/-- **The handler over a run.** Any sequence of initializations and frees of any
instances, with any interrupt numbers and any outcome of every call to the
system, starting with no number carried and nothing registered: as long as the
calls keep the books, each number is registered once while an enabled instance
carries it and not otherwise, and `free_irq` is called for registered numbers
only. -/
theorem interrupt_bookkeeping {ledger : KernelLedger} (hirqs : ledger.irqs = [])
    (h : Steps.Reach (Steps.guarded Careful step) { ledger := ledger } w) :
    w.irqTable.Bookkept := by
  have h0 : ({ ledger := ledger } : KernelOs).irqTable.Inv := by
    refine ⟨⟨fun irq hpos hc => ?_, fun irq _ _ => ?_, rfl⟩, fun i _ _ hpos => ?_⟩
    · obtain ⟨i, -, hs, -⟩ := hc
      exact nomatch hs
    · show ledger.irqs.count irq = 0
      rw [hirqs]
      rfl
    · exact absurd hpos (Int.lt_irrefl 0)
  have hinv : w.irqTable.Inv :=
    h.invariant_guarded (I := fun w => w.irqTable.Inv) h0
      (fun _ _ _ hI hP hstep => step_inv hI hP hstep)
  exact hinv.toBookkept

/-- An instance with the interrupts 2 and 1. -/
def initCfg : IpcShmCfg where
  localShmAddr := 0x34000000
  remoteShmAddr := 0x34100000
  shmSize := 0x1000
  interCoreTxIrq := 2
  interCoreRxIrq := 1
  numChannels := 1
  channels := none

/-- The outcomes of an initialization that is given the number `irq`. -/
def granted (i : ℕ) (irq : ℤ) : KernelInitReplies where
  ioremapLocal := 0x80000000 + i * 0x10000
  ioremapRemote := 0x80008000 + i * 0x10000
  ofIrqGet := irq

/-- Two instances share a number, a third has its own, and the first is freed. -/
def sharedNumber : List Call :=
  [.init (granted 0 33) 0 initCfg true, .init (granted 1 33) 1 initCfg true,
   .init (granted 2 34) 2 initCfg true, .free 0]

theorem interrupt_bookkeeping_shared : ∃ w,
    Steps.Reach (Steps.guarded Careful step) {} w ∧ w.ledger.irqs = [34, 33] ∧
      w.irqTable.Bookkept := by
  have hrun : (Steps.runActs (Steps.guarded Careful step) sharedNumber {}).map
      (fun w => w.ledger.irqs) = some [34, 33] := by
    decide +kernel
  obtain ⟨w, hw, hirqs⟩ := Option.map_eq_some_iff.mp hrun
  have hreach := Steps.reach_of_runActs hw
  exact ⟨w, hreach, hirqs, interrupt_bookkeeping rfl hreach⟩

/-- **A number that could not be registered stays.** The registration fails for
instance 1, and instance 0 is then enabled with the same number and no
handler. And an instance that is initialized again and gets an error number is
freed with it. -/
theorem interrupt_bookkeeping_stale :
    (∃ w, Steps.Reach step {} w ∧ (w.id 0).state = .enabled ∧ (w.id 0).irqNum = 33 ∧
      w.ledger.irqs = []) ∧
    ∃ w, Steps.Reach step {} w ∧ w.strayFrees = [-22] := by
  have hstale : (Steps.runActs step
      [.init { granted 1 33 with requestIrq := -16 } 1 initCfg true,
       .init (granted 0 33) 0 initCfg true] {}).map
      (fun w => ((w.id 0).state, (w.id 0).irqNum, w.ledger.irqs)) = some (.enabled, 33, []) := by
    decide +kernel
  have hstray : (Steps.runActs step
      [.init (granted 0 33) 0 initCfg true, .init (granted 1 (-22)) 0 initCfg true, .free 0] {}).map
      (fun w => w.strayFrees) = some [-22] := by
    decide +kernel
  obtain ⟨w, hw, hval⟩ := Option.map_eq_some_iff.mp hstale
  simp only [Prod.mk.injEq] at hval
  obtain ⟨w', hw', hval'⟩ := Option.map_eq_some_iff.mp hstray
  exact ⟨⟨w, Steps.reach_of_runActs hw, hval⟩, w', Steps.reach_of_runActs hw', hval'⟩

end KernelOs
