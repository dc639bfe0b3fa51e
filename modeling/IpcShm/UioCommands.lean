import Mathlib.Logic.Relation
import IpcShm.OsCalls
import IpcShm.UioDevices

/-!
# Commands of the driver in user space

The driver enables the notifications of an instance at the end of its
initialization, disables them when it is freed, and notifies the remote of a
transmission. In user space each of these is a command to the UIO device of the
instance, and so is the one by which a thread enables its interrupt again after
it has looked at the channels.

The driver looks at an instance before it uses it. As long as every instance is
configured with a receive interrupt, what it takes for an instance in use is one
whose device is open, and this is kept by every call, whatever memory holds and
wherever a thread writes a command in between (`commands_reach_device`). Without
a receive interrupt no device is opened and the commands are written all the
same, to whatever file has the descriptor (`commands_go_astray`).

The state word of an instance is written by the driver alone, so it does not
read `IPC_SHM_STATE_CLEAR` while the instance is in use.
-/

/-- The driver in user space, with its OS layer. -/
structure UioDriver where
  drv : Driver := {}
  os : UioOs := {}

/-- The outcomes of the calls to the system in a call of the driver. What is sent
to the module when an instance is freed has only the instance set, and `data` is
what happens to lie there. -/
structure DriverReplies where
  init : UioInitReplies
  ioctlFree : Bool := true
  data : IpcShmCfg

namespace UioOs

variable {w w' w'' : UioOs} {inst : ℕ}

/-- A thread that runs enables the interrupt of its instance. -/
def Tick (w w' : UioOs) : Prop :=
  ∃ id inst, w.threads id = some inst ∧ w' = w.ipcHwIrqEnable inst

/-- **Nothing but commands happened.** -/
structure Later (w w' : UioOs) : Prop where
  wired : w'.Wired
  id : w'.id = w.id
  sent : w.sent <:+ w'.sent

theorem Later.trans (h : Later w w') (h' : Later w' w'') : Later w w'' :=
  ⟨h'.wired, h'.id.trans h.id, h.sent.trans h'.sent⟩

theorem Wired.later (h : w.Wired) : Later w w := ⟨h, rfl, List.suffix_rfl⟩

/-- The device of an instance that is enabled. -/
theorem Wired.device (h : w.Wired) (he : (w.id inst).state = .enabled) :
    w.files (w.id inst).uioFd = some (.uio inst) := (h.enabled inst he).2.2

theorem Wired.later_send (h : w.Wired) (he : (w.id inst).state = .enabled) (cmd : IpcUioCmd) :
    Later w (w.ipcSendUioCmd inst cmd) :=
  ⟨h.send (h.device he) cmd, rfl, List.suffix_cons _ _⟩

theorem Wired.later_ticks (h : w.Wired) (ht : Relation.ReflTransGen Tick w w') : Later w w' := by
  induction ht with
  | refl => exact h.later
  | tail _ htick ih =>
    obtain ⟨id, j, hid, rfl⟩ := htick
    exact ih.trans (ih.wired.later_send (ih.wired.threads id j hid).1 .enable)

/-- A command to trigger the remote's interrupt went to the device. -/
def Triggers (inst : ℕ) (w w' : UioOs) : Prop :=
  ∃ cmds, w'.sent = cmds ++ w.sent ∧ ⟨inst, .trigger, some (.uio inst)⟩ ∈ cmds

end UioOs

namespace UioDriver

open UioOs (Tick Later Triggers Wired)

/-- How the library answers the driver. Memory holds anything, except for the
state words of the instances in use. -/
def replies (s : ℕ) (d : Driver) (r : DriverReplies) : (o : Op) → UioOs → o.Ret → UioOs → Prop
  | .ipcHwInit _ _, w, ret, w' => ret = 0 ∧ w' = w
  | .ipcHwFree _, w, _, w' => w' = w
  | .ipcHwIrqEnable inst, w, _, w' => w' = w.ipcHwIrqEnable inst
  | .ipcHwIrqDisable inst, w, _, w' => w' = w.ipcHwIrqDisable inst
  | .ipcHwIrqNotify inst, w, _, w' => w' = w.ipcHwIrqNotify inst
  | .ipcOsInit inst cfg, w, ret, w' =>
    ret = ((w.ipcOsInit s r.init inst cfg true).1,
      { localShm := (w'.id inst).localVirtShm, remoteShm := (w'.id inst).remoteVirtShm }) ∧
    w' = (w.ipcOsInit s r.init inst cfg true).2
  | .ipcOsFree inst, w, _, w' => w.ipcOsFree s r.ioctlFree r.data inst = some w'
  | .load n a, w, v, w' =>
    (v < 2 ^ (8 * n) ∧ ∀ j < ipcShmMaxInstances, (d.priv j).global = a → a ≠ 0 → n = 8 →
      v ≠ ipcShmStateClear) ∧ w' = w
  | .memcpyFrom _ n, w, bs, w' => bs.length = n ∧ w' = w
  | .store _ _ _, w, _, w' => w' = w
  | .memcpyTo _ _, w, _, w' => w' = w
  | .poolsOutOfBounds _, w, _, w' => w' = w
  | .undefinedBehaviour, _, _, _ => False
  | .rxCb _ _ _ _ _ _, w, _, w' => w' = w
  | .rxCbUnmanaged _ _ _ _ _, w, _, w' => w' = w

/-- **How the driver is answered**, with the threads running. -/
def answers (s : ℕ) (d : Driver) (r : DriverReplies) (o : Op) (w : UioOs) (ret : o.Ret)
    (w' : UioOs) : Prop :=
  ∃ v, Relation.ReflTransGen Tick w v ∧ replies s d r o v ret w'

variable {s : ℕ} {d : Driver} {r : DriverReplies} {w w' w'' : UioOs} {inst : ℕ}

theorem replies_memory {o : Op} {ret : o.Ret} (ho : o.IsMemory) (h : replies s d r o w ret w') :
    w' = w := by
  cases o with
  | load n a => exact h.2
  | memcpyFrom a n => exact h.2
  | undefinedBehaviour => exact h.elim
  | ipcHwInit | ipcHwFree | ipcHwIrqEnable | ipcHwIrqDisable | ipcHwIrqNotify | ipcOsInit
  | ipcOsFree => exact ho.elim
  | store | memcpyTo | poolsOutOfBounds | rxCb | rxCbUnmanaged => exact h

/-- Programs in memory do nothing else. -/
theorem later_of_inMemory {α : Type} {p : Drv α} {a : α} (h : w.Wired) (hp : InMemory p)
    (hexec : p.Exec (answers s d r) w a w') : Later w w' := by
  refine (hexec.of_always hp (I := Later w) h.later ?_).2
  rintro o v ret v' ho hv ⟨u, ht, hr⟩
  obtain rfl := replies_memory ho hr
  exact ⟨trivial, hv.trans (hv.wired.later_ticks ht)⟩

/-- **What the driver takes for an instance in use is one with its state word
there.** -/
theorem exec_ipcInstanceIsFree {state : IpcShmInstanceState} (h : w.Wired)
    (hexec : (ipcInstanceIsFree d inst).Exec (answers s d r) w state w') :
    Later w w' ∧ (state = .used ↔ inst < ipcShmMaxInstances ∧ (d.priv inst).global ≠ 0) := by
  refine ⟨later_of_inMemory h (accesses_ipcInstanceIsFree d inst).inMemory hexec, ?_⟩
  unfold ipcInstanceIsFree at hexec
  split at hexec
  · rename_i hinst
    rw [← hexec.1]
    exact iff_of_false (fun he => nomatch he) (fun hc => Nat.not_lt.mpr hinst hc.1)
  split at hexec
  · rename_i hglobal
    rw [← hexec.1]
    exact iff_of_false (fun he => nomatch he) (fun hc => hc.2 hglobal)
  rename_i hinst hglobal
  rw [load64_bind] at hexec
  obtain ⟨word, v, ⟨u, -, hword, -⟩, hexec⟩ := hexec
  dsimp only at hexec
  rw [if_neg (hword.2 inst (Nat.not_le.mp hinst) rfl hglobal rfl)] at hexec
  rw [← hexec.1]
  exact iff_of_true rfl ⟨Nat.not_le.mp hinst, hglobal⟩

/-- **An instance in use is enabled**, and the other way round. -/
structure InUse (d : Driver) (w : UioOs) : Prop where
  wired : w.Wired
  used : ∀ j < ipcShmMaxInstances, (d.priv j).global ≠ 0 ↔ (w.id j).state = .enabled

theorem InUse.later (h : InUse d w) (hl : Later w w') : InUse d w' :=
  ⟨hl.wired, fun j hj => hl.id ▸ h.used j hj⟩

/-! ## Transmission -/

/-- **The end of a transmission.** -/
theorem exec_notify {err : ℤ} (hl : Later w w') (he : (w'.id inst).state = .enabled)
    (hexec : (do ipcHwIrqNotify inst; return 0 : Drv ℤ).Exec (answers s d r) w' err w'') :
    Later w w'' ∧ Triggers inst w w'' := by
  rw [ipcHwIrqNotify_bind] at hexec
  obtain ⟨_, v, ⟨u, ht, rfl⟩, -, rfl⟩ := hexec
  have hu := hl.wired.later_ticks ht
  have heu : (u.id inst).state = .enabled := by rw [hu.id, he]
  have hsend := hu.wired.later_send heu .trigger
  obtain ⟨cmds, hcmds⟩ := (hl.trans hu).sent
  refine ⟨(hl.trans hu).trans hsend, ⟨inst, .trigger, some (.uio inst)⟩ :: cmds, ?_,
    List.mem_cons_self⟩
  show ⟨inst, .trigger, u.files (u.id inst).uioFd⟩ :: u.sent = _
  rw [hu.wired.device heu, ← hcmds, List.cons_append]

/-- A transmission starts with the remote being ready. -/
theorem exec_ipcShmIsRemoteReady {ready : ℤ} (h : w.Wired)
    (hexec : (ipcShmIsRemoteReady d inst).Exec (answers s d r) w ready w') :
    Later w w' ∧ (ready = 0 → inst < ipcShmMaxInstances ∧ (d.priv inst).global ≠ 0) := by
  refine ⟨later_of_inMemory h (accesses_ipcShmIsRemoteReady d inst).inMemory hexec, ?_⟩
  unfold ipcShmIsRemoteReady at hexec
  obtain ⟨state, v, hstate, hexec'⟩ := (Program.exec_bind _ _).mp hexec
  obtain ⟨-, hused⟩ := exec_ipcInstanceIsFree h hstate
  clear hexec
  split at hexec'
  · intro hready
    exact absurd (hexec'.1.trans hready) (show -EINVAL ≠ 0 by decide)
  · rename_i hne
    exact fun _ => hused.mp (not_not.mp hne)

/-- An instance in use, a while later. -/
theorem InUse.enabled (h : InUse d w) (hl : Later w w')
    (hused : inst < ipcShmMaxInstances ∧ (d.priv inst).global ≠ 0) :
    (w'.id inst).state = .enabled := by
  rw [hl.id]
  exact (h.used inst hused.1).mp hused.2

/-- **A transmission** triggers the remote's interrupt if it succeeds. -/
theorem exec_ipcShmTx (h : InUse d w) {chanId : ℤ} {buf size : ℕ} {err : ℤ}
    (hexec : (ipcShmTx d inst chanId buf size).Exec (answers s d r) w err w') :
    Later w w' ∧ (err = 0 → Triggers inst w w') := by
  unfold ipcShmTx at hexec
  obtain ⟨ready, w₁, hready, hexec₁⟩ := (Program.exec_bind _ _).mp hexec
  clear hexec
  obtain ⟨h₁, hused⟩ := exec_ipcShmIsRemoteReady h.wired hready
  -- a call that gives up sends nothing
  have hfails : ∀ {v e}, Later w v → e ≠ 0 →
      (pure e : Drv ℤ).Exec (answers s d r) v err w' →
      Later w w' ∧ (err = 0 → Triggers inst w w') := by
    rintro v e hv he ⟨rfl, rfl⟩
    exact ⟨hv, fun h0 => absurd h0 he⟩
  have hinval : -EINVAL ≠ 0 := by decide
  split at hexec₁
  · exact hfails h₁ hinval hexec₁
  rename_i hok
  split at hexec₁
  · exact hfails h₁ hinval hexec₁
  split at hexec₁
  · exact hfails h₁ hinval hexec₁
  obtain ⟨check, w₂, hcheck, hexec₂⟩ := (Program.exec_bind _ _).mp hexec₁
  clear hexec₁
  have h₂ := h₁.trans (later_of_inMemory h₁.wired
    (accesses_ipcCheckMchanIntegrity _).inMemory hcheck)
  split at hexec₂
  · exact hfails h₂ hinval hexec₂
  dsimp only at hexec₂
  split at hexec₂
  · exact hfails h₂ hinval hexec₂
  obtain ⟨bufId, w₃, hdiv, hexec₃⟩ := (Program.exec_bind _ _).mp hexec₂
  have h₃ := h₂.trans (later_of_inMemory h₂.wired (inMemory_divU _ _) hdiv)
  obtain ⟨push, w₄, hpush, hexec₄⟩ := (Program.exec_bind _ _).mp hexec₃
  have h₄ := h₃.trans (later_of_inMemory h₃.wired (inMemory_ipcQueuePush _ _) hpush)
  clear hexec₂ hexec₃
  split at hexec₄
  · rename_i herr
    exact hfails h₄ herr hexec₄
  · have hsent := exec_notify h₄ (h.enabled h₄ (hused (not_not.mp hok))) hexec₄
    exact ⟨hsent.1, fun _ => hsent.2⟩

theorem exec_ipcShmUnmanagedTx (h : InUse d w) {chanId : ℕ} {err : ℤ}
    (hexec : (ipcShmUnmanagedTx d inst chanId).Exec (answers s d r) w err w') :
    Later w w' ∧ (err = 0 → Triggers inst w w') := by
  unfold ipcShmUnmanagedTx at hexec
  obtain ⟨ready, w₁, hready, hexec₁⟩ := (Program.exec_bind _ _).mp hexec
  clear hexec
  obtain ⟨h₁, hused⟩ := exec_ipcShmIsRemoteReady h.wired hready
  have hfails : ∀ {v}, Later w v → (pure (-EINVAL) : Drv ℤ).Exec (answers s d r) v err w' →
      Later w w' ∧ (err = 0 → Triggers inst w w') := by
    rintro v hv ⟨rfl, rfl⟩
    exact ⟨hv, fun h0 => absurd h0 (by decide)⟩
  split at hexec₁
  · exact hfails h₁ hexec₁
  rename_i hok
  split at hexec₁
  · exact hfails h₁ hexec₁
  obtain ⟨check, w₂, hcheck, hexec₂⟩ := (Program.exec_bind _ _).mp hexec₁
  clear hexec₁
  have h₂ := h₁.trans (later_of_inMemory h₁.wired
    (accesses_ipcCheckUchanIntegrity _).inMemory hcheck)
  split at hexec₂
  · exact hfails h₂ hexec₂
  obtain ⟨txCount, w₃, hload, hexec₃⟩ := (Program.exec_bind _ _).mp hexec₂
  have h₃ := h₂.trans (later_of_inMemory h₂.wired (inMemory_load32 _) hload)
  obtain ⟨_, w₄, hstore, hexec₄⟩ := (Program.exec_bind _ _).mp hexec₃
  have h₄ := h₃.trans (later_of_inMemory h₃.wired (inMemory_store32 _ _) hstore)
  have hsent := exec_notify h₄ (h.enabled h₄ (hused (not_not.mp hok))) hexec₄
  exact ⟨hsent.1, fun _ => hsent.2⟩

/-! ## Release and initialization -/

/-- A result every reply leads to is the result of an execution. -/
theorem of_exec {α : Type} {p : Drv α} {Q : α → Prop} {a : α}
    (hexec : p.Exec (answers s d r) w a w')
    (hp : p.Always (fun _ _ => True) (fun _ => True) Q) : Q a :=
  (hexec.of_always hp (I := fun _ => True) trivial (fun _ _ _ _ _ _ _ => ⟨trivial, trivial⟩)).1

/-- The driver with the data of one instance changed, and its state in step. -/
theorem InUse.setPriv (h : InUse d w) (hw : w'.Wired)
    (hother : ∀ j, j ≠ inst → w'.id j = w.id j) {priv : IpcShmPriv}
    (hinst : priv.global ≠ 0 ↔ (w'.id inst).state = .enabled) (d' : Driver)
    (hd' : ∀ j, j ≠ inst → d'.priv j = d.priv j) : InUse (d'.setPriv inst priv) w' := by
  refine ⟨hw, fun j hj => ?_⟩
  by_cases hne : j = inst
  · subst hne
    rw [show (d'.setPriv j priv).priv j = priv from Function.update_self _ _ _]
    exact hinst
  · rw [show (d'.setPriv inst priv).priv j = d'.priv j from Function.update_of_ne hne _ _,
      hd' j hne, hother j hne]
    exact h.used j hj

/-- **Freeing an instance.** -/
theorem exec_ipcShmFreeInstance (h : InUse d w) {d' : Driver}
    (hexec : (ipcShmFreeInstance d inst).Exec (answers s d r) w d' w') :
    InUse d' w' ∧ w.sent <:+ w'.sent := by
  unfold ipcShmFreeInstance at hexec
  obtain ⟨state, w₁, hstate, hexec₁⟩ := (Program.exec_bind _ _).mp hexec
  clear hexec
  obtain ⟨h₁, hused⟩ := exec_ipcInstanceIsFree h.wired hstate
  split at hexec₁
  · obtain ⟨rfl, rfl⟩ := hexec₁
    exact ⟨h.later h₁, h₁.sent⟩
  rename_i hne
  have hu := hused.mp (not_not.mp hne)
  dsimp only at hexec₁
  obtain ⟨_, w₂, hstore, hexec₂⟩ := (Program.exec_bind _ _).mp hexec₁
  have h₂ := h₁.trans (later_of_inMemory h₁.wired (inMemory_store64 _ _) hstore)
  rw [ipcHwIrqDisable_bind] at hexec₂
  obtain ⟨_, w₃, ⟨u₃, ht₃, rfl⟩, hexec₃⟩ := hexec₂
  have hu₃ := h₂.trans (h₂.wired.later_ticks ht₃)
  have h₃ := hu₃.trans (hu₃.wired.later_send (h.enabled hu₃ hu) .disable)
  obtain ⟨priv, w₄, hfree, hexec₄⟩ := (Program.exec_bind _ _).mp hexec₃
  have h₄ := h₃.trans (later_of_inMemory h₃.wired (accesses_freeChannels _ _ _ _).inMemory hfree)
  obtain ⟨-, hglobal⟩ := of_exec hfree (freeChannels_header _ _ _ _)
  rw [ipcOsFree_bind] at hexec₄
  obtain ⟨_, w₅, ⟨u₅, ht₅, hos⟩, hexec₅⟩ := hexec₄
  have hu₅ := h₄.trans (h₄.wired.later_ticks ht₅)
  obtain ⟨hwired, hother, hdis, hsent⟩ := hu₅.wired.ipcOsFree (h.enabled hu₅ hu) hos
  rw [ipcHwFree_bind] at hexec₅
  obtain ⟨_, w₆, ⟨u₆, ht₆, rfl⟩, rfl, rfl⟩ := hexec₅
  have h₆ := hwired.later_ticks ht₆
  refine ⟨?_, (hu₅.sent.trans hsent).trans h₆.sent⟩
  refine h.setPriv h₆.wired (fun j hj => ?_) ?_ d (fun _ _ => rfl)
  · rw [h₆.id, hother j hj, hu₅.id]
  · rw [hglobal, h₆.id, hdis]
    exact iff_of_false (fun h0 => h0 rfl) (fun he => nomatch he)

/-- **Initializing an instance with a receive interrupt.** -/
theorem exec_ipcShmInitInstance (h : InUse d w) {cfg : Option IpcShmCfg} {d' : Driver} {err : ℤ}
    (hrx : ∀ c ∈ cfg, c.interCoreRxIrq ≠ ipcIrqNone)
    (hexec : (ipcShmInitInstance d inst cfg).Exec (answers s d r) w (err, d') w') :
    InUse d' w' ∧ w.sent <:+ w'.sent := by
  unfold ipcShmInitInstance at hexec
  obtain ⟨state, w₁, hstate, hexec₁⟩ := (Program.exec_bind _ _).mp hexec
  clear hexec
  obtain ⟨h₁, hused⟩ := exec_ipcInstanceIsFree h.wired hstate
  have hsame : ∀ {e}, (pure (e, d) : Drv (ℤ × Driver)).Exec (answers s d r) w₁ (err, d') w' →
      InUse d' w' ∧ w.sent <:+ w'.sent := by
    rintro e ⟨he, rfl⟩
    obtain ⟨-, rfl⟩ := Prod.mk.inj he
    exact ⟨h.later h₁, h₁.sent⟩
  split at hexec₁
  · exact hsame hexec₁
  rename_i hfree
  cases cfg with
  | none => exact hsame hexec₁
  | some cfg =>
  dsimp only at hexec₁
  split at hexec₁
  · exact hsame hexec₁
  split at hexec₁
  · exact hsame hexec₁
  split at hexec₁
  · obtain ⟨e, -⟩ := hexec₁
    exact nomatch e
  rename_i hlt
  have hinst : inst < ipcShmMaxInstances := Nat.not_le.mp hlt
  have hglobal : (d.priv inst).global = 0 := not_not.mp (fun hne => hfree (hused.mpr ⟨hinst, hne⟩))
  have hdis : (w.id inst).state = .disabled := by
    cases hs : (w.id inst).state with
    | disabled => rfl
    | enabled => exact absurd hglobal ((h.used inst hinst).mpr hs)
  -- the HW layer does nothing, and the OS layer opens and starts everything or nothing
  rw [ipcHwInit_bind] at hexec₁
  obtain ⟨_, w₂, ⟨u₂, ht₂, rfl, rfl⟩, hexec₂⟩ := hexec₁
  have h₂ := h₁.trans (h₁.wired.later_ticks ht₂)
  dsimp only at hexec₂
  rw [if_neg (not_not.mpr rfl), ipcOsInit_bind] at hexec₂
  obtain ⟨_, w₃, ⟨u₃, ht₃, rfl, rfl⟩, hexec₃⟩ := hexec₂
  have hu₃ := h₂.trans (h₂.wired.later_ticks ht₃)
  obtain ⟨hwired, hsent, hother, hok, hfails⟩ := hu₃.wired.ipcOsInit (s := s) (r := r.init)
    hinst (by rw [hu₃.id, hdis]) (hrx cfg rfl)
  generalize u₃.ipcOsInit s r.init inst cfg true = res at *
  obtain ⟨e₃, v₃⟩ := res
  dsimp only at hwired hsent hother hok hfails hexec₃
  have hsent₃ : w.sent <:+ v₃.sent := by
    rw [hsent]
    exact hu₃.sent
  have hother₃ : ∀ j, j ≠ inst → v₃.id j = w.id j := fun j hj => by rw [hother j hj, hu₃.id]
  split at hexec₃
  · rename_i he₃
    rw [ipcHwFree_bind] at hexec₃
    obtain ⟨_, w₄, ⟨u₄, ht₄, rfl⟩, hres, rfl⟩ := hexec₃
    obtain ⟨-, rfl⟩ := Prod.mk.inj hres
    have h₄ := hwired.later_ticks ht₄
    refine ⟨h.setPriv h₄.wired (fun j hj => ?_) ?_ d (fun _ _ => rfl),
      hsent₃.trans h₄.sent⟩
    · rw [h₄.id, hother₃ j hj]
    · rw [h₄.id, hfails he₃]
      exact iff_of_false (not_not.mpr hglobal) (fun he => nomatch he)
  rename_i he₃
  obtain ⟨hen, hvirt⟩ := hok (not_not.mp he₃)
  obtain ⟨_, w₄, hstore, hexec₄⟩ := (Program.exec_bind _ _).mp hexec₃
  have h₄ := later_of_inMemory hwired (inMemory_store64 _ _) hstore
  obtain ⟨⟨e₅, priv⟩, w₅, hchannels, hexec₅⟩ := (Program.exec_bind _ _).mp hexec₄
  have h₅ := h₄.trans (later_of_inMemory h₄.wired (inMemory_initChannels _ _ _ _ _ _ _) hchannels)
  obtain ⟨-, hpriv⟩ := of_exec hchannels (initChannels_header _ _ _ _ _ _ _)
  clear hexec₃ hexec₄
  dsimp only at hexec₅ hpriv
  have hen₅ : (w₅.id inst).state = .enabled := by rw [h₅.id, hen]
  split at hexec₅
  · obtain ⟨priv', w₆, hfreed, hexec₆⟩ := (Program.exec_bind _ _).mp hexec₅
    have h₆ := later_of_inMemory h₅.wired (accesses_freeConfiguredChannels _ _).inMemory hfreed
    obtain ⟨-, hpriv'⟩ := of_exec hfreed (freeConfiguredChannels_header _ _)
    rw [ipcOsFree_bind] at hexec₆
    obtain ⟨_, w₇, ⟨u₇, ht₇, hos⟩, hexec₇⟩ := hexec₆
    have hu₇ := h₆.trans (h₆.wired.later_ticks ht₇)
    obtain ⟨hwired₇, hother₇, hdis₇, hsent₇⟩ :=
      hu₇.wired.ipcOsFree (by rw [hu₇.id, hen₅]) hos
    rw [ipcHwFree_bind] at hexec₇
    obtain ⟨_, w₈, ⟨u₈, ht₈, rfl⟩, hres, rfl⟩ := hexec₇
    obtain ⟨-, rfl⟩ := Prod.mk.inj hres
    have h₈ := hwired₇.later_ticks ht₈
    refine ⟨h.setPriv h₈.wired (fun j hj => ?_) ?_ _ (fun j hj => ?_),
      (((hsent₃.trans h₅.sent).trans hu₇.sent).trans hsent₇).trans h₈.sent⟩
    · rw [h₈.id, hother₇ j hj, hu₇.id, h₅.id, hother₃ j hj]
    · rw [hpriv', h₈.id, hdis₇]
      exact iff_of_false (fun h0 => h0 rfl) (fun he => nomatch he)
    · exact Function.update_of_ne hj _ _
  · rw [ipcHwIrqEnable_bind] at hexec₅
    obtain ⟨_, w₆, ⟨u₆, ht₆, rfl⟩, hexec₆⟩ := hexec₅
    have hu₆ := h₅.trans (h₅.wired.later_ticks ht₆)
    have h₆ := hu₆.trans (hu₆.wired.later_send (by rw [hu₆.id, hen]) .enable)
    obtain ⟨_, w₇, hstore₇, hexec₇⟩ := (Program.exec_bind _ _).mp hexec₆
    have h₇ := h₆.trans (later_of_inMemory h₆.wired (inMemory_store64 _ _) hstore₇)
    obtain ⟨hres, rfl⟩ := hexec₇
    obtain ⟨-, rfl⟩ := Prod.mk.inj hres
    refine ⟨h.setPriv h₇.wired (fun j hj => ?_) ?_ _ (fun j hj => ?_),
      hsent₃.trans h₇.sent⟩
    · rw [h₇.id, hother₃ j hj]
    · rw [hpriv, h₇.id, hen]
      exact iff_of_true hvirt rfl
    · exact Function.update_of_ne hj _ _

/-! ## Runs -/

/-- The calls of the driver, and a thread that enables its interrupt. -/
inductive Call where
  | init (inst : ℕ) (cfg : Option IpcShmCfg)
  | tx (inst : ℕ) (chanId : ℤ) (buf size : ℕ)
  | unmanagedTx (inst chanId : ℕ)
  | free (inst : ℕ)
  | softirq

/-- One call, with what it returns. -/
def Step (s : ℕ) (r : DriverReplies) (x : UioDriver) : Call → ℤ → UioDriver → Prop
  | .init inst cfg, err, x' =>
    (ipcShmInitInstance x.drv inst cfg).Exec (answers s x.drv r) x.os (err, x'.drv) x'.os
  | .tx inst chanId buf size, err, x' =>
    (ipcShmTx x.drv inst chanId buf size).Exec (answers s x.drv r) x.os err x'.os ∧ x'.drv = x.drv
  | .unmanagedTx inst chanId, err, x' =>
    (ipcShmUnmanagedTx x.drv inst chanId).Exec (answers s x.drv r) x.os err x'.os ∧ x'.drv = x.drv
  | .free inst, err, x' =>
    (ipcShmFreeInstance x.drv inst).Exec (answers s x.drv r) x.os x'.drv x'.os ∧ err = 0
  | .softirq, err, x' => Tick x.os x'.os ∧ x'.drv = x.drv ∧ err = 0

/-- **Instances are configured with a receive interrupt.** -/
def HasRxIrq : Call → Prop
  | .init _ cfg => ∀ c ∈ cfg, c.interCoreRxIrq ≠ ipcIrqNone
  | _ => True

instance : DecidablePred HasRxIrq
  | .init _ cfg => inferInstanceAs (Decidable (∀ c ∈ cfg, c.interCoreRxIrq ≠ ipcIrqNone))
  | .tx _ _ _ _ | .unmanagedTx _ _ | .free _ | .softirq => .isTrue trivial

/-- What a sequence of calls that meet a condition leads to. -/
def Reach (s : ℕ) (P : Call → Prop) : UioDriver → UioDriver → Prop :=
  Relation.ReflTransGen (fun x x' => ∃ r c err, P c ∧ Step s r x c err x')

/-- **One call.** -/
theorem step_inUse {x x' : UioDriver} {c : Call} {err : ℤ} (h : InUse x.drv x.os)
    (hc : HasRxIrq c) (hstep : Step s r x c err x') : InUse x'.drv x'.os := by
  cases c with
  | init inst cfg => exact (exec_ipcShmInitInstance h hc hstep).1
  | tx inst chanId buf size =>
    obtain ⟨hexec, hd⟩ := hstep
    rw [hd]
    exact h.later (exec_ipcShmTx h hexec).1
  | unmanagedTx inst chanId =>
    obtain ⟨hexec, hd⟩ := hstep
    rw [hd]
    exact h.later (exec_ipcShmUnmanagedTx h hexec).1
  | free inst => exact (exec_ipcShmFreeInstance h hstep.1).1
  | softirq =>
    obtain ⟨htick, hd, -⟩ := hstep
    rw [hd]
    exact h.later (h.wired.later_ticks (.single htick))

theorem inUse_of_reach {files : ℤ → Option UioFile} {x : UioDriver}
    (h : Reach s HasRxIrq { os := { files := files } } x) : InUse x.drv x.os := by
  induction h with
  | refl =>
    refine ⟨UioOs.wired_of_disabled (fun ho => nomatch ho) (fun j he => nomatch he)
      (fun j => show (0 : ℤ) ≠ ipcIrqNone by decide) (fun id => rfl) (fun c hc => nomatch hc),
      fun j _ => iff_of_false (fun h0 => h0 rfl) (fun he => nomatch he)⟩
  | tail _ hstep ih =>
    obtain ⟨r, c, err, hc, hstep⟩ := hstep
    exact step_inUse ih hc hstep

/-- **Every command reaches the device of its instance.** In any sequence of calls,
from a process with any files open, with any outcome of the calls to the system
and any content of the shared memory, and whenever threads run: if every instance
is configured with a receive interrupt, every command is written to a descriptor
that is open as the UIO device of the instance, and every transmission that
succeeds triggers the remote's interrupt there. -/
theorem commands_reach_device {files : ℤ → Option UioFile} {x : UioDriver}
    (h : Reach s HasRxIrq { os := { files := files } } x) :
    (∀ c ∈ x.os.sent, c.file = some (.uio c.inst)) ∧
    ∀ r x' inst,
      (∀ chanId buf size, Step s r x (.tx inst chanId buf size) 0 x' →
        Triggers inst x.os x'.os) ∧
      ∀ chanId, Step s r x (.unmanagedTx inst chanId) 0 x' → Triggers inst x.os x'.os := by
  have hinv := inUse_of_reach h
  refine ⟨hinv.wired.sent, fun r x' inst => ⟨fun chanId buf size hstep => ?_,
    fun chanId hstep => ?_⟩⟩
  · exact (exec_ipcShmTx hinv hstep.1).2 rfl
  · exact (exec_ipcShmUnmanagedTx hinv hstep.1).2 rfl

/-! Runs are computed with a memory in which every state word reads ready and
every channel of the remote is initialized. -/

def answering (s : ℕ) (r : DriverReplies) : (o : Op) → UioOs → Option (o.Ret × UioOs)
  | .load n _, w => if n = 8 then some (ipcShmStateReady, w)
    else if n = 4 then some (ipcUchanInitDone, w) else none
  | .store _ _ _, w => some ((), w)
  | .ipcHwInit _ _, w => some (0, w)
  | .ipcHwFree _, w => some ((), w)
  | .ipcHwIrqEnable inst, w => some ((), w.ipcHwIrqEnable inst)
  | .ipcHwIrqDisable inst, w => some ((), w.ipcHwIrqDisable inst)
  | .ipcHwIrqNotify inst, w => some ((), w.ipcHwIrqNotify inst)
  | .ipcOsInit inst cfg, w =>
    let (err, w) := w.ipcOsInit s r.init inst cfg true
    some ((err,
      { localShm := (w.id inst).localVirtShm, remoteShm := (w.id inst).remoteVirtShm }), w)
  | .ipcOsFree inst, w => (w.ipcOsFree s r.ioctlFree r.data inst).map (fun w => ((), w))
  | _, _ => none

theorem answers_of_answering (d : Driver) (o : Op) (w : UioOs) (ret : o.Ret) (w' : UioOs)
    (h : answering s r o w = some (ret, w')) : answers s d r o w ret w' := by
  refine ⟨w, .refl, ?_⟩
  cases o with
  | load n a =>
    change (if n = 8 then some (ipcShmStateReady, w)
      else if n = 4 then some (ipcUchanInitDone, w) else none) = _ at h
    split at h
    · rename_i hn
      subst hn
      obtain ⟨rfl, rfl⟩ := Prod.mk.inj (Option.some.inj h)
      have hready : ipcShmStateReady < 2 ^ (8 * 8) ∧ ipcShmStateReady ≠ ipcShmStateClear := by
        decide
      exact ⟨⟨hready.1, fun _ _ _ _ _ => hready.2⟩, rfl⟩
    split at h
    · rename_i h8 hn
      subst hn
      obtain ⟨rfl, rfl⟩ := Prod.mk.inj (Option.some.inj h)
      have hdone : ipcUchanInitDone < 2 ^ (8 * 4) := by decide
      exact ⟨⟨hdone, fun _ _ _ _ h8' => absurd h8' h8⟩, rfl⟩
    · exact nomatch h
  | store n a v => exact (Prod.mk.inj (Option.some.inj h)).2.symm
  | ipcHwInit inst cfg =>
    obtain ⟨rfl, rfl⟩ := Prod.mk.inj (Option.some.inj h)
    exact ⟨rfl, rfl⟩
  | ipcHwFree inst => exact (Prod.mk.inj (Option.some.inj h)).2.symm
  | ipcHwIrqEnable inst => exact (Prod.mk.inj (Option.some.inj h)).2.symm
  | ipcHwIrqDisable inst => exact (Prod.mk.inj (Option.some.inj h)).2.symm
  | ipcHwIrqNotify inst => exact (Prod.mk.inj (Option.some.inj h)).2.symm
  | ipcOsInit inst cfg =>
    obtain ⟨rfl, rfl⟩ := Prod.mk.inj (Option.some.inj h)
    exact ⟨rfl, rfl⟩
  | ipcOsFree inst =>
    obtain ⟨v, hv, heq⟩ := Option.map_eq_some_iff.mp h
    obtain ⟨-, rfl⟩ := Prod.mk.inj heq
    exact hv
  | memcpyFrom | memcpyTo | poolsOutOfBounds | undefinedBehaviour | rxCb | rxCbUnmanaged =>
    exact nomatch h

/-- A call as it is computed. -/
def call (s : ℕ) (r : DriverReplies) (x : UioDriver) : Call → Option (ℤ × UioDriver)
  | .init inst cfg =>
    ((ipcShmInitInstance x.drv inst cfg).run (answering s r) x.os).map
      (fun res => (res.1.1, ⟨res.1.2, res.2⟩))
  | .tx inst chanId buf size =>
    ((ipcShmTx x.drv inst chanId buf size).run (answering s r) x.os).map
      (fun res => (res.1, ⟨x.drv, res.2⟩))
  | .unmanagedTx inst chanId =>
    ((ipcShmUnmanagedTx x.drv inst chanId).run (answering s r) x.os).map
      (fun res => (res.1, ⟨x.drv, res.2⟩))
  | .free inst =>
    ((ipcShmFreeInstance x.drv inst).run (answering s r) x.os).map (fun res => (0, ⟨res.1, res.2⟩))
  | .softirq => none

theorem step_of_call {x x' : UioDriver} {c : Call} {err : ℤ}
    (h : call s r x c = some (err, x')) : Step s r x c err x' := by
  cases c with
  | init inst cfg =>
    obtain ⟨⟨⟨e, d'⟩, w'⟩, hrun, heq⟩ := Option.map_eq_some_iff.mp h
    obtain ⟨rfl, rfl⟩ := Prod.mk.inj heq
    exact Program.exec_of_run (answers_of_answering x.drv) hrun
  | tx inst chanId buf size =>
    obtain ⟨⟨e, w'⟩, hrun, heq⟩ := Option.map_eq_some_iff.mp h
    obtain ⟨rfl, rfl⟩ := Prod.mk.inj heq
    exact ⟨Program.exec_of_run (answers_of_answering x.drv) hrun, rfl⟩
  | unmanagedTx inst chanId =>
    obtain ⟨⟨e, w'⟩, hrun, heq⟩ := Option.map_eq_some_iff.mp h
    obtain ⟨rfl, rfl⟩ := Prod.mk.inj heq
    exact ⟨Program.exec_of_run (answers_of_answering x.drv) hrun, rfl⟩
  | free inst =>
    obtain ⟨⟨d', w'⟩, hrun, heq⟩ := Option.map_eq_some_iff.mp h
    obtain ⟨rfl, rfl⟩ := Prod.mk.inj heq
    exact ⟨Program.exec_of_run (answers_of_answering x.drv) hrun, rfl⟩
  | softirq => exact nomatch h

/-- A sequence of calls, each with the outcomes of its calls to the system. -/
def runCalls (s : ℕ) (cs : List (DriverReplies × Call)) (x : UioDriver) : Option UioDriver :=
  Steps.runActs (fun x rc => (call s rc.1 x rc.2).map Prod.snd) cs x

theorem reach_of_runCalls {P : Call → Prop} {cs : List (DriverReplies × Call)} {x x' : UioDriver}
    (hP : ∀ rc ∈ cs, P rc.2) (h : runCalls s cs x = some x') : Reach s P x x' := by
  induction cs generalizing x with
  | nil =>
    obtain rfl := Option.some.inj h
    exact .refl
  | cons rc cs ih =>
    obtain ⟨y, hy, hrest⟩ := Option.bind_eq_some_iff.mp h
    obtain ⟨⟨err, z⟩, hcall, rfl⟩ := Option.map_eq_some_iff.mp hy
    exact .head ⟨rc.1, rc.2, err, hP rc List.mem_cons_self, step_of_call hcall⟩
      (ih (fun rc' h' => hP rc' (List.mem_cons_of_mem _ h')) hrest)

/-- One unmanaged channel. -/
def initCfg : IpcShmCfg :=
  { UioOs.initCfg with
    channels := some (fun _ => .unmanaged { size := 64, rxCb := 1, cbArg := 0 }) }

def granted (i : ℕ) : DriverReplies where
  init := UioOs.granted i
  data := initCfg

def start : UioDriver := { os := UioOs.start }

/-- Two instances are initialized, and instance 0 transmits and is freed. -/
def twoInstances : List (DriverReplies × Call) :=
  [(granted 0, .init 0 (some initCfg)), (granted 1, .init 1 (some initCfg)),
   (granted 0, .unmanagedTx 0 0), (granted 0, .free 0)]

theorem commands_reach_device_two : ∃ x x', Reach 12 HasRxIrq start x ∧
    x.os.sent.map (fun c => (c.inst, c.cmd)) =
      [(0, .disable), (0, .disable), (0, .trigger), (1, .enable), (0, .enable)] ∧
    (∀ c ∈ x.os.sent, c.file = some (.uio c.inst)) ∧
    Step 12 (granted 1) x (.unmanagedTx 1 0) 0 x' ∧ Triggers 1 x.os x'.os := by
  have hrun : (runCalls 12 twoInstances start).map
      (fun x => (x.os.sent.map (fun c => (c.inst, c.cmd)),
        (call 12 (granted 1) x (.unmanagedTx 1 0)).map Prod.fst)) =
      some ([(0, .disable), (0, .disable), (0, .trigger), (1, .enable), (0, .enable)], some 0) := by
    decide +kernel
  obtain ⟨x, hx, hval⟩ := Option.map_eq_some_iff.mp hrun
  obtain ⟨hsent, htx⟩ := Prod.mk.inj hval
  obtain ⟨⟨err, x'⟩, hcall, rfl⟩ := Option.map_eq_some_iff.mp htx
  have hreach : Reach 12 HasRxIrq start x := reach_of_runCalls (by decide) hx
  obtain ⟨hfile, htriggers⟩ := commands_reach_device hreach
  have hstep := step_of_call hcall
  exact ⟨x, x', hreach, hsent, hfile, hstep, (htriggers _ x' 1).2 0 hstep⟩

/-- **Commands go astray** if instance 0 has no receive interrupt: to the standard
input, if it never had one; and to the device of instance 1, if that got the
descriptor instance 0 had before. -/
theorem commands_go_astray :
    (∃ x, Reach 12 (fun _ => True) start x ∧
      x.os.sent = [⟨0, .trigger, some .other⟩, ⟨0, .enable, some .other⟩]) ∧
    ∃ x, Reach 12 (fun _ => True) start x ∧
      ⟨0, .enable, some (.uio 1)⟩ ∈ x.os.sent := by
  have hstdin : (runCalls 12 [(granted 0, .init 0 (some { initCfg with
      interCoreRxIrq := ipcIrqNone })), (granted 0, .unmanagedTx 0 0)] start).map
      (fun x => x.os.sent) = some [⟨0, .trigger, some .other⟩, ⟨0, .enable, some .other⟩] := by
    decide +kernel
  have hother : (runCalls 12 [(granted 0, .init 0 (some initCfg)),
      (granted 2, .init 2 (some initCfg)), (granted 0, .free 0),
      ({ granted 1 with init := { UioOs.granted 1 with openUio := some 5 } },
        .init 1 (some initCfg)),
      (granted 0, .init 0 (some { initCfg with interCoreRxIrq := ipcIrqNone }))] start).map
      (fun x => decide (⟨0, .enable, some (.uio 1)⟩ ∈ x.os.sent)) = some true := by
    decide +kernel
  obtain ⟨x, hx, hsent⟩ := Option.map_eq_some_iff.mp hstdin
  obtain ⟨y, hy, hmem⟩ := Option.map_eq_some_iff.mp hother
  exact ⟨⟨x, reach_of_runCalls (fun _ _ => trivial) hx, hsent⟩,
    y, reach_of_runCalls (fun _ _ => trivial) hy, of_decide_eq_true hmem⟩

end UioDriver
