import IpcShm.UserWindows

/-!
# The devices of the library

In user space notifications are enabled, disabled and sent by commands that are
written to the UIO device of an instance, through a descriptor `uio_fd` the OS
layer keeps. The device is opened at the end of `ipc_os_init`, together with a
thread that waits on it, and closed in `ipc_os_free`.

If the instance has a receive interrupt. If it has not, `ipc_os_init` returns
before, and `uio_fd` is whatever it was: zero, the standard input, if the
instance was never initialized, or a descriptor that was closed with the last
release and that another file may have got since.

As long as every instance has a receive interrupt, the library is `Wired`: the
descriptor of an instance that is enabled is open as its own device, and so is
that of every thread that runs. An initialization of an instance that is not
enabled keeps that (`Wired.ipcOsInit`), however it ends, and so does a release of
one that is (`Wired.ipcOsFree`). Nothing that is shared by the instances is taken
for a device on the way, since descriptors are only closed by those who opened
them.
-/

namespace UioOs

variable {s : ℕ} {w w' : UioOs} {inst : ℕ} {r : UioInitReplies} {cfg : IpcShmCfg}

/-! ## Devices that are open -/

/-- **Every instance that is enabled has its device open**, and every thread that
runs serves one that is. Every command went to the device of its instance. -/
structure Wired (w : UioOs) : Prop where
  opened : w.isFilesOpened = true →
    w.files w.ipcCdevFd = some .ipcCdev ∧ w.files w.ipcUioModuleFd = some .ipcUioModule
  enabled : ∀ j, (w.id j).state = .enabled →
    j < ipcShmMaxInstances ∧ w.isFilesOpened = true ∧ w.files (w.id j).uioFd = some (.uio j)
  irqNum : ∀ j, (w.id j).irqNum ≠ ipcIrqNone
  threads : ∀ id j, w.threads id = some j →
    (w.id j).state = .enabled ∧ (w.id j).irqThreadId = id
  sent : ∀ c ∈ w.sent, c.file = some (.uio c.inst)

/-- With no instance enabled there is little to say. -/
theorem wired_of_disabled (hopened : w.isFilesOpened = true →
      w.files w.ipcCdevFd = some .ipcCdev ∧ w.files w.ipcUioModuleFd = some .ipcUioModule)
    (hstate : ∀ j, (w.id j).state ≠ .enabled) (hirq : ∀ j, (w.id j).irqNum ≠ ipcIrqNone)
    (hthreads : ∀ id, w.threads id = none) (hsent : ∀ c ∈ w.sent, c.file = some (.uio c.inst)) :
    w.Wired where
  opened := hopened
  enabled := fun j hj => absurd hj (hstate j)
  irqNum := hirq
  threads := fun id _ hid => nomatch (hthreads id).symm.trans hid
  sent := hsent

theorem Wired.threads_eq_none (h : w.Wired) (hstate : ∀ j, (w.id j).state ≠ .enabled) (id : ℕ) :
    w.threads id = none := by
  cases hid : w.threads id with
  | none => rfl
  | some j => exact absurd (h.threads id j hid).1 (hstate j)

/-- A command to a device that is open. -/
theorem Wired.send (h : w.Wired) (hfile : w.files (w.id inst).uioFd = some (.uio inst))
    (cmd : IpcUioCmd) : (w.ipcSendUioCmd inst cmd).Wired where
  opened := h.opened
  enabled := h.enabled
  irqNum := h.irqNum
  threads := h.threads
  sent := by
    intro c hc
    rcases List.mem_cons.mp hc with rfl | hc
    · exact hfile
    · exact h.sent c hc

/-! ## Initialization -/

/-- Opening the shared files adds files, as long as there are none. -/
theorem Wired.ipcOsModuleInit (h : w.Wired) (r : UioInitReplies) :
    (w.ipcOsModuleInit r).2.Wired ∧ (w.ipcOsModuleInit r).2.id = w.id ∧
      (w.ipcOsModuleInit r).2.sent = w.sent ∧
      ((w.ipcOsModuleInit r).1 = 0 → (w.ipcOsModuleInit r).2.isFilesOpened = true) := by
  by_cases hopened : w.isFilesOpened = true
  · rw [UioOs.ipcOsModuleInit, if_pos hopened]
    exact ⟨h, rfl, rfl, fun _ => hopened⟩
  have hstate : ∀ j, (w.id j).state ≠ .enabled := fun j hj => hopened (h.enabled j hj).2.1
  have hthreads := h.threads_eq_none hstate
  -- whatever is opened, nobody uses it yet
  have hfails : ∀ v : UioOs, v.isFilesOpened = w.isFilesOpened → v.id = w.id →
      v.threads = w.threads → v.sent = w.sent → v.Wired := by
    intro v hv hid ht hs
    refine wired_of_disabled (fun hv' => absurd (hv ▸ hv') hopened) ?_ ?_ ?_ ?_
    · rw [hid]; exact hstate
    · rw [hid]; exact h.irqNum
    · rw [ht]; exact hthreads
    · rw [hs]; exact h.sent
  have hnodev : ¬(-ENODEV = 0) := by decide
  rw [UioOs.ipcOsModuleInit, if_neg hopened]
  rcases openFile_cases w r.openModule .ipcUioModule with he | ⟨fd, hfd, he⟩
  · rw [he]
    exact ⟨hfails _ rfl rfl rfl rfl, rfl, rfl, fun h0 => absurd h0 hnodev⟩
  rw [he]
  dsimp only
  rw [if_neg (by omega)]
  unfold finitModule
  split
  · dsimp only
    rw [if_neg (by decide)]
    rcases openFile_cases _ r.openCdev .ipcCdev with he' | ⟨fd', hfd', he'⟩
    · rw [he']
      exact ⟨hfails _ rfl rfl rfl rfl, rfl, rfl, fun h0 => absurd h0 hnodev⟩
    · rw [he']
      dsimp only
      rw [if_neg (by omega)]
      have hne : (fd : ℤ) ≠ fd' := by
        intro heq
        have hfd' : Function.update w.files (fd : ℤ) (some .ipcUioModule) fd' = none := hfd'
        rw [← heq, Function.update_self] at hfd'
        exact absurd hfd' (Option.some_ne_none _)
      refine ⟨wired_of_disabled (fun _ => ⟨?_, ?_⟩) hstate h.irqNum hthreads h.sent, rfl, rfl,
        fun _ => rfl⟩
      · exact Function.update_self _ _ _
      · exact (Function.update_of_ne hne _ _).trans (Function.update_self _ _ _)
  · dsimp only
    rw [if_pos rfl]
    exact ⟨hfails _ rfl rfl rfl rfl, rfl, rfl, fun h0 => absurd h0 hnodev⟩

/-- Calls that open and start nothing, for an instance that is not in use. -/
theorem Wired.prepared {kmod : Option UioModule} {pages : PageTable} {p : UioInstance} (h : w.Wired)
    (hdis : (w.id inst).state = .disabled) (hstate : p.state = .disabled)
    (hirq : p.irqNum ≠ ipcIrqNone) :
    ({ w with kmod := kmod, pages := pages }.setId inst p).Wired where
  opened := h.opened
  enabled := by
    intro j hj
    by_cases hne : j = inst
    · subst hne
      rw [setId_self, hstate] at hj
      exact nomatch hj
    · rw [setId_of_ne _ _ hne] at hj ⊢
      exact h.enabled j hj
  irqNum := by
    intro j
    by_cases hne : j = inst
    · rw [hne, setId_self]
      exact hirq
    · rw [setId_of_ne _ _ hne]
      exact h.irqNum j
  threads := by
    intro id j hid
    obtain ⟨henabled, hthread⟩ := h.threads id j hid
    have hne : j ≠ inst := by
      rintro rfl
      exact nomatch hdis.symm.trans henabled
    rw [setId_of_ne _ _ hne]
    exact ⟨henabled, hthread⟩
  sent := h.sent

/-- What is left of calls that fail, once a device they opened is closed: the
module, the pages and the data of the instance. -/
theorem InitLocal.undone {label : InitLabel} {err : ℤ}
    (h : InitLocal inst cfg w (some (label, err), w')) :
    ∃ kmod pages p,
      (if label = InitLabel.errCloseUioDev then w'.close (w'.id inst).uioFd else w')
        = { w with kmod := kmod, pages := pages }.setId inst p ∧
      p.state = (w.id inst).state ∧
      (p.irqNum = (w.id inst).irqNum ∨ p.irqNum = cfg.interCoreRxIrq) := by
  cases h with
  | @unmapped kmod pages p _ _ _ hp _ hlabel =>
    exact ⟨kmod, pages, p, if_neg hlabel, hp.state, Or.inl hp.irqNum⟩
  | @mapped _ pages p _ _ hp h =>
    cases h with
    | @refused kmod _ uioFd =>
      refine ⟨kmod, pages, { p with irqNum := cfg.interCoreRxIrq, uioFd := uioFd }, ?_, hp.state,
        Or.inr rfl⟩
      rw [if_neg (by decide)]
      simp only [setId, Function.update_idem, Function.update_self]
    | @opened kmod fd _ _ _ hfree =>
      refine ⟨kmod, pages, { p with irqNum := cfg.interCoreRxIrq, uioFd := fd }, ?_, hp.state,
        Or.inr rfl⟩
      -- the descriptor was not in use
      have hclosed : Function.update w.files (fd : ℤ) none = w.files :=
        Function.update_eq_self_iff.mpr hfree.symm
      rw [if_pos rfl]
      simp only [close, setId, Function.update_idem, Function.update_self, hclosed]

/-- And what there is after all of them, for an instance with an interrupt: its
device on a new descriptor, and a new thread. -/
theorem InitLocal.completed (hrx : cfg.interCoreRxIrq ≠ ipcIrqNone)
    (h : InitLocal inst cfg w (none, w')) :
    ∃ (kmod : Option UioModule) (pages : PageTable) (fd id : ℕ) (p : UioInstance),
      w.files fd = none ∧ w' = { w with
        kmod := kmod
        pages := pages
        files := Function.update w.files fd (some (.uio inst))
        threads := Function.update w.threads id (some inst) }.setId inst p ∧
      p.irqNum = cfg.interCoreRxIrq ∧ p.uioFd = fd ∧ p.irqThreadId = id := by
  cases h with
  | @mapped _ pages p _ _ _ h =>
    cases h with
    | silent _ hnone => exact absurd hnone hrx
    | @started kmod fd id _ hfree _ _ =>
      refine ⟨kmod, pages, fd, id,
        { p with irqNum := cfg.interCoreRxIrq, uioFd := fd, irqThreadId := id }, hfree, ?_,
        rfl, rfl, rfl⟩
      simp only [setId, Function.update_idem, Function.update_self]

theorem InitUio.localVirtShm {res : Option (InitLabel × ℤ) × UioOs} (h : InitUio inst cfg w res) :
    (res.2.id inst).localVirtShm = (w.id inst).localVirtShm := by
  cases h with
  | refused | silent | opened | started => rw [setId_self]

/-- The local window of an instance that has everything is not at address zero. -/
theorem initLocal_localVirtShm (h : (w.initLocal s r inst cfg).1 = none) :
    ((w.initLocal s r inst cfg).2.id inst).localVirtShm ≠ 0 := by
  unfold initLocal at h ⊢
  dsimp only at h ⊢
  split at h
  · exact nomatch h
  rename_i hlocal
  rw [if_neg hlocal]
  obtain ⟨-, map, hfree, -, hid⟩ := mapShm_mapped (Or.inl rfl) (not_not.mp hlocal)
  unfold initRemote at h ⊢
  dsimp only at h ⊢
  split at h
  · exact nomatch h
  rename_i hremote
  rw [if_neg hremote]
  obtain ⟨-, map', -, -, hid'⟩ := mapShm_mapped (Or.inr rfl) (not_not.mp hremote)
  rw [(initUio_cases _ r inst cfg).localVirtShm, hid', hid]
  exact Nat.ne_of_gt (Nat.add_pos_left hfree.1 _)

theorem Wired.disabled_of_not_any (h : w.Wired) (hany : ¬w.anyEnabled = true) (j : ℕ) :
    (w.id j).state ≠ .enabled := fun hj =>
  hany (List.any_eq_true.mpr ⟨j, List.mem_range.mpr (h.enabled j hj).1, decide_eq_true hj⟩)

/-- **The error path.** What is shared is closed once no instance uses it. -/
theorem Wired.errCloseIpcDev (h : w.Wired) (hdis : (w.id inst).state = .disabled) :
    (w.errCloseIpcDev inst).Wired ∧ (w.errCloseIpcDev inst).sent = w.sent ∧
      (w.errCloseIpcDev inst).id = w.id := by
  have hid : (w.setId inst { w.id inst with state := .disabled }).id = w.id := by
    rw [← hdis]
    exact Function.update_eq_self inst w.id
  have h₁ : (w.setId inst { w.id inst with state := .disabled }).Wired :=
    h.prepared hdis rfl (h.irqNum inst)
  unfold UioOs.errCloseIpcDev
  dsimp only
  set w₁ := w.setId inst { w.id inst with state := .disabled }
  by_cases hany : w₁.anyEnabled = true
  · rw [if_pos hany]
    exact ⟨h₁, rfl, hid⟩
  rw [if_neg hany]
  have hstate := h₁.disabled_of_not_any hany
  have hclosed : ∀ v : UioOs, v.isFilesOpened = false → v.id = w₁.id → v.threads = w₁.threads →
      v.sent = w₁.sent → v.Wired ∧ v.sent = w.sent ∧ v.id = w.id := by
    intro v hv hvid ht hs
    refine ⟨wired_of_disabled (fun hv' => nomatch hv.symm.trans hv') ?_ ?_ ?_ ?_, hs,
      hvid.trans hid⟩
    · rw [hvid]; exact hstate
    · rw [hvid]; exact h₁.irqNum
    · rw [ht]; exact h₁.threads_eq_none hstate
    · rw [hs]; exact h₁.sent
  split
  · split <;> exact hclosed _ rfl rfl rfl rfl
  · split <;> exact hclosed _ rfl rfl rfl rfl

/-- **A device that is opened and served** is that of an instance in use. -/
theorem Wired.enable {kmod : Option UioModule} {pages : PageTable} {fd id : ℕ} {p : UioInstance}
    (h : w.Wired) (hinst : inst < ipcShmMaxInstances) (hopen : w.isFilesOpened = true)
    (hdis : (w.id inst).state = .disabled) (hfree : w.files fd = none)
    (hirq : p.irqNum ≠ ipcIrqNone) (hfd : p.uioFd = fd) (hid : p.irqThreadId = id)
    (hstate : p.state = .enabled) :
    ({ w with
      kmod := kmod
      pages := pages
      files := Function.update w.files fd (some (.uio inst))
      threads := Function.update w.threads id (some inst) }.setId inst p).Wired := by
  have hkept : ∀ fd' f, w.files fd' = some f →
      Function.update w.files (fd : ℤ) (some (.uio inst)) fd' = some f := by
    intro fd' f hf
    rw [Function.update_of_ne, hf]
    rintro rfl
    exact nomatch hfree.symm.trans hf
  refine ⟨fun _ => (h.opened hopen).imp (hkept _ _) (hkept _ _), fun j hj => ?_, fun j => ?_,
    fun id' j hid' => ?_, h.sent⟩
  · by_cases hne : j = inst
    · subst hne
      rw [setId_self, hfd]
      exact ⟨hinst, hopen, Function.update_self _ _ _⟩
    · rw [setId_of_ne _ _ hne] at hj ⊢
      obtain ⟨hlt, -, hfile⟩ := h.enabled j hj
      exact ⟨hlt, hopen, hkept _ _ hfile⟩
  · by_cases hne : j = inst
    · rw [hne, setId_self]
      exact hirq
    · rw [setId_of_ne _ _ hne]
      exact h.irqNum j
  · have hid' : Function.update w.threads id (some inst) id' = some j := hid'
    by_cases hthread : id' = id
    · rw [hthread, Function.update_self] at hid'
      obtain rfl := Option.some.inj hid'
      rw [setId_self, hthread]
      exact ⟨hstate, hid⟩
    · rw [Function.update_of_ne hthread] at hid'
      obtain ⟨henabled, hold⟩ := h.threads id' j hid'
      have hne : j ≠ inst := by
        rintro rfl
        exact nomatch hdis.symm.trans henabled
      rw [setId_of_ne _ _ hne]
      exact ⟨henabled, hold⟩

/-- **What an initialization does** for an instance that is not in use. -/
structure Initializes (inst : ℕ) (w : UioOs) (res : ℤ × UioOs) : Prop where
  wired : res.2.Wired
  sent : res.2.sent = w.sent
  other : ∀ j, j ≠ inst → res.2.id j = w.id j
  succeeds : res.1 = 0 → (res.2.id inst).state = .enabled ∧ (res.2.id inst).localVirtShm ≠ 0
  fails : res.1 ≠ 0 → (res.2.id inst).state = .disabled

/-- The error path, after calls that did not all succeed. -/
theorem Wired.unwind (h : w.Wired) (hdis : (w.id inst).state = .disabled)
    (hrx : cfg.interCoreRxIrq ≠ ipcIrqNone) {label : InitLabel} {err : ℤ}
    (hres : InitLocal inst cfg w (some (label, err), w')) :
    Initializes inst w (err, w'.unwind s inst label) := by
  obtain ⟨kmod, pages, p, hundone, hstate, hirq⟩ := hres.undone
  obtain ⟨pages', hunwind⟩ := unwind_cases s w' inst label
  have hirq : p.irqNum ≠ ipcIrqNone := by
    rcases hirq with he | he
    · rw [he]
      exact h.irqNum inst
    · rw [he]
      exact hrx
  have hw : ({ w with kmod := kmod, pages := pages' }.setId inst p).Wired :=
    h.prepared hdis (hstate.trans hdis) hirq
  obtain ⟨hwired, hsent, hid⟩ := hw.errCloseIpcDev (by rw [setId_self, hstate, hdis])
  rw [hunwind, hundone]
  refine ⟨hwired, hsent, fun j hj => ?_, fun h0 => absurd h0 hres.err_ne, fun _ => ?_⟩
  · exact (congrFun hid j).trans (setId_of_ne _ _ hj)
  · refine (congrArg UioInstance.state (congrFun hid inst)).trans ?_
    rw [setId_self, hstate, hdis]

/-- **Initializing an instance that is not in use.** -/
theorem Wired.initInstance (h : w.Wired) (hinst : inst < ipcShmMaxInstances)
    (hopen : w.isFilesOpened = true) (hdis : (w.id inst).state = .disabled)
    (hrx : cfg.interCoreRxIrq ≠ ipcIrqNone) :
    Initializes inst w (w.initInstance s r inst cfg) := by
  have hcases := initLocal_cases s w r inst cfg
  have hvirt := @initLocal_localVirtShm s w inst r cfg
  unfold UioOs.initInstance
  rcases hres : w.initLocal s r inst cfg with ⟨_ | ⟨label, err⟩, w'⟩
  · rw [hres] at hcases hvirt
    obtain ⟨kmod, pages, fd, id, p, hfree, rfl, hirq, hfd, hid⟩ := hcases.completed hrx
    have hwired := @Wired.enable w inst kmod pages fd id { p with state := .enabled } h hinst hopen
      hdis hfree (hirq ▸ hrx) hfd hid rfl
    have hvirt := hvirt rfl
    rw [setId_self] at hvirt
    dsimp only
    rw [setId_self, setId_setId]
    refine ⟨hwired, rfl, fun j hj => setId_of_ne _ _ hj, fun _ => ?_, fun h0 => absurd rfl h0⟩
    rw [setId_self]
    exact ⟨rfl, hvirt⟩
  · rw [hres] at hcases
    exact h.unwind hdis hrx hcases

theorem Wired.ipcOsInit (h : w.Wired) (hinst : inst < ipcShmMaxInstances)
    (hdis : (w.id inst).state = .disabled) (hrx : cfg.interCoreRxIrq ≠ ipcIrqNone) :
    Initializes inst w (w.ipcOsInit s r inst cfg true) := by
  unfold UioOs.ipcOsInit
  rw [if_neg (by decide)]
  dsimp only
  set w₁ := w.setId inst { w.id inst with shmSize := cfg.shmSize.toNat } with hw₁
  have h₁ : w₁.Wired := h.prepared hdis hdis (h.irqNum inst)
  have hdis₁ : (w₁.id inst).state = .disabled := by rw [hw₁, setId_self, hdis]
  have hother₁ : ∀ j, j ≠ inst → w₁.id j = w.id j := fun j hj => w.setId_of_ne _ hj
  obtain ⟨h₂, hid, hsent, hopen⟩ := h₁.ipcOsModuleInit r
  split
  · rename_i herr
    refine ⟨h₂, hsent, fun j hj => ?_, fun h0 => absurd h0 herr, fun _ => ?_⟩
    · rw [hid, hother₁ j hj]
    · rw [hid, hdis₁]
  · rename_i hok
    have hdis₂ : ((w₁.ipcOsModuleInit r).2.id inst).state = .disabled := by rw [hid, hdis₁]
    obtain ⟨hw, hs, hother, hz, hnz⟩ :=
      h₂.initInstance (s := s) (r := r) hinst (hopen (not_not.mp hok)) hdis₂ hrx
    refine ⟨hw, hs.trans hsent, fun j hj => ?_, hz, hnz⟩
    rw [hother j hj, hid, hother₁ j hj]

/-! ## Release -/

/-- **An instance is stopped**: after a last command its device is closed and its
thread has ended. -/
theorem Wired.stop (h : w.Wired) (he : (w.id inst).state = .enabled)
    (kmod : Option UioModule) (pages : PageTable) :
    ({ w with
      kmod := kmod
      pages := pages
      files := Function.update w.files (w.id inst).uioFd none
      threads := Function.update w.threads (w.id inst).irqThreadId none
      sent := ⟨inst, .disable, w.files (w.id inst).uioFd⟩ :: w.sent }.setId inst
        { w.id inst with state := .disabled }).Wired := by
  obtain ⟨-, -, hfile⟩ := h.enabled inst he
  have hkept : ∀ fd f, w.files fd = some f → f ≠ .uio inst →
      Function.update w.files (w.id inst).uioFd none fd = some f := by
    intro fd f hf hne
    rw [Function.update_of_ne, hf]
    rintro rfl
    exact hne (Option.some.inj (hf.symm.trans hfile))
  refine ⟨fun hopen => ?_, fun j hj => ?_, fun j => ?_, fun id j hid => ?_, fun c hc => ?_⟩
  · exact (h.opened hopen).imp (fun hf => hkept _ _ hf (fun heq => nomatch heq))
      (fun hf => hkept _ _ hf (fun heq => nomatch heq))
  · have hne : j ≠ inst := by
      rintro rfl
      rw [setId_self] at hj
      exact nomatch hj
    rw [setId_of_ne _ _ hne] at hj ⊢
    obtain ⟨hlt, hopen, hf⟩ := h.enabled j hj
    exact ⟨hlt, hopen, hkept _ _ hf (fun heq => hne (UioFile.uio.inj heq))⟩
  · by_cases hne : j = inst
    · rw [hne, setId_self]
      exact h.irqNum inst
    · rw [setId_of_ne _ _ hne]
      exact h.irqNum j
  · have hid : Function.update w.threads (w.id inst).irqThreadId none id = some j := hid
    by_cases hthread : id = (w.id inst).irqThreadId
    · rw [hthread, Function.update_self] at hid
      exact nomatch hid
    · rw [Function.update_of_ne hthread] at hid
      obtain ⟨hstate, hid'⟩ := h.threads id j hid
      have hne : j ≠ inst := by
        rintro rfl
        exact hthread hid'.symm
      rw [setId_of_ne _ _ hne]
      exact ⟨hstate, hid'⟩
  · rcases List.mem_cons.mp hc with rfl | hc
    · exact hfile
    · exact h.sent c hc

theorem Wired.closeShared (h : w.Wired) :
    w.closeShared.Wired ∧ w.closeShared.id = w.id ∧ w.closeShared.sent = w.sent := by
  unfold UioOs.closeShared
  by_cases hany : w.anyEnabled = true
  · rw [if_pos hany]
    exact ⟨h, rfl, rfl⟩
  rw [if_neg hany]
  have hstate := h.disabled_of_not_any hany
  exact ⟨wired_of_disabled (fun hopen => nomatch hopen) hstate h.irqNum
    (h.threads_eq_none hstate) h.sent, rfl, rfl⟩

/-- **Releasing an instance that is in use.** -/
theorem Wired.ipcOsFree (h : w.Wired) (he : (w.id inst).state = .enabled) {ioctlFree : Bool}
    {data : IpcShmCfg} (hrun : w.ipcOsFree s ioctlFree data inst = some w') :
    w'.Wired ∧ (∀ j, j ≠ inst → w'.id j = w.id j) ∧ (w'.id inst).state = .disabled ∧
      w.sent <:+ w'.sent := by
  unfold UioOs.ipcOsFree at hrun
  obtain ⟨w₂, hstop, rfl⟩ := Option.map_eq_some_iff.mp hrun
  rcases stopRx_cases hstop with ⟨hnone, -⟩ | ⟨-, -, kmod, -, rfl⟩
  · rw [setId_self] at hnone
    exact absurd hnone (h.irqNum inst)
  rw [setId_self]
  dsimp only
  obtain ⟨hw, hid, hsent⟩ := Wired.closeShared (h.stop he kmod _)
  refine ⟨hw, fun j hj => ?_, ?_, ?_⟩
  · exact (congrFun hid j).trans (setId_of_ne _ _ hj)
  · exact (congrArg UioInstance.state (congrFun hid inst)).trans (by rw [setId_self])
  · exact (congrArg (w.sent <:+ ·) hsent).mpr (List.suffix_cons _ _)

end UioOs
