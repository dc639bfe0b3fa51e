import IpcShm.UserMapping

/-!
# The library in user space

In user space the OS layer of the driver is a library. It loads the module
`ipc-shm-uio`, opens its character device, asks for the two windows of an
instance to be mapped and for its UIO device to be registered, opens that
device and starts a thread that waits on it. The module and the character
device are shared by all instances: the first initialization sets them up, and
whichever call leaves no instance enabled is to give them up again.

Two of the calls that do so forget something. `ipc_os_free` closes the
character device and unloads the module, and leaves the file of the module
open. The error path of `ipc_os_init` closes both files and leaves the module
loaded, and the next initialization is then refused, because a module cannot be
loaded twice; the same happens when the character device cannot be opened. The
runs without such a call keep everything in step (`library_resources`).

The outcome of every call to the system is given with the call of the library
it is made in. A descriptor, a thread or an area of memory the system hands out
is one that is not in use; an outcome that says otherwise counts as a refusal.
-/

/-- A file of the process. -/
inductive UioFile where
  | ipcUioModule
  | ipcCdev
  | uio (inst : ℕ)
  | other
  deriving DecidableEq, Repr

/-- `IPC_UIO_DISABLE_CMD`, `IPC_UIO_ENABLE_CMD` and `IPC_UIO_TRIGGER_CMD`. -/
inductive IpcUioCmd where
  | disable
  | enable
  | trigger
  deriving DecidableEq, Repr

/-- A command as it was written: for which instance, and to which file. -/
structure SentCmd where
  inst : ℕ
  cmd : IpcUioCmd
  file : Option UioFile
  deriving DecidableEq, Repr

/-- OS specific private data of an instance. -/
structure UioInstance where
  state : IpcOsState := .disabled
  irqNum : ℤ := 0
  uioFd : ℤ := 0
  localVirtShm : ℕ := 0
  remoteVirtShm : ℕ := 0
  localShmMap : ℕ := 0
  remoteShmMap : ℕ := 0
  localShmOffset : ℕ := 0
  remoteShmOffset : ℕ := 0
  shmSize : ℕ := 0
  irqThreadId : ℕ := 0

/-- The OS specific private data of the library, and what the system holds for
the process: its open files, the module if it is loaded, its threads with the
instance each serves, its pages, and the commands it has written to UIO
devices, the latest first. -/
structure UioOs where
  isFilesOpened : Bool := false
  ipcCdevFd : ℤ := 0
  ipcUioModuleFd : ℤ := 0
  id : ℕ → UioInstance := fun _ => {}
  files : ℤ → Option UioFile := fun _ => none
  kmod : Option UioModule := none
  threads : ℕ → Option ℕ := fun _ => none
  pages : PageTable := fun _ => none
  sent : List SentCmd := []

/-- The outcomes of the calls to the system in `ipc_os_init`. -/
structure UioInitReplies where
  openModule : Option ℕ
  finitModule : Bool := true
  openCdev : Option ℕ
  ioctlMmapLocal : Bool := true
  mmapLocal : UioModule.MmapReply
  ioctlMmapRemote : Bool := true
  mmapRemote : UioModule.MmapReply
  ioctlInit : Bool := true
  /-- The answers the module gets from the kernel. -/
  uio : UioReplies
  getUioDevName : Bool := true
  openUio : Option ℕ
  pthreadAttrInit : ℤ := 0
  pthreadAttrSetschedpolicy : ℤ := 0
  pthreadAttrSetschedparam : ℤ := 0
  pthreadCreate : Option ℕ

namespace UioOs

-- the page size of the system is `2 ^ s`
variable (s : ℕ) (w : UioOs)

/-! ## Calls to the system -/

/-- `open`: the descriptor, or -1. -/
def openFile (reply : Option ℕ) (file : UioFile) : ℤ × UioOs :=
  match reply with
  | none => (-1, w)
  | some fd =>
    if w.files fd = none then
      (fd, { w with files := Function.update w.files fd (some file) })
    else (-1, w)

def close (fd : ℤ) : UioOs := { w with files := Function.update w.files fd none }

/-- `finit_module`, refused for a module that is loaded. -/
def finitModule (reply : Bool) : Bool × UioOs :=
  if reply ∧ w.kmod = none then (true, { w with kmod := some .probed }) else (false, w)

def deleteModule : UioOs := { w with kmod := none }

/-- `ioctl` on the character device. It may fail whatever the device answers. -/
def ioctl (reply : Bool) (uio : UioReplies) (req : IpcIoc) : ℤ × UioOs :=
  match w.files w.ipcCdevFd, w.kmod with
  | some .ipcCdev, some m =>
    let (err, m) := m.ipcCdevIoctl uio req
    (if reply then err else -1, { w with kmod := some m })
  | _, _ => (-1, w)

/-- `mmap` of the character device. -/
def mmap (reply : UioModule.MmapReply) (len : ℕ) : Option ℕ × UioOs :=
  match w.files w.ipcCdevFd, w.kmod with
  | some .ipcCdev, some m =>
    let (addr, pt) := m.mmap s len reply w.pages
    (addr, { w with pages := pt })
  | _, _ => (none, w)

def munmap (addr len : ℕ) : UioOs :=
  { w with pages := w.pages.unmap (addr / 2 ^ s) (numPages s len) }

/-- `pthread_create` of the Rx thread of an instance: its id, or none. -/
def pthreadCreate (reply : Option ℕ) (inst : ℕ) : Option ℕ × UioOs :=
  match reply with
  | none => (none, w)
  | some id =>
    if id ≠ 0 ∧ w.threads id = none then
      (some id, { w with threads := Function.update w.threads id (some inst) })
    else (none, w)

/-! ## The library -/

/-- The data of one instance changed. -/
def setId (inst : ℕ) (p : UioInstance) : UioOs := { w with id := Function.update w.id inst p }

/-- Writes a command to the UIO device of an instance. -/
def ipcSendUioCmd (inst : ℕ) (cmd : IpcUioCmd) : UioOs :=
  { w with sent := { inst := inst, cmd := cmd, file := w.files (w.id inst).uioFd } :: w.sent }

def ipcHwIrqEnable (inst : ℕ) : UioOs := w.ipcSendUioCmd inst .enable

def ipcHwIrqDisable (inst : ℕ) : UioOs := w.ipcSendUioCmd inst .disable

def ipcHwIrqNotify (inst : ℕ) : UioOs := w.ipcSendUioCmd inst .trigger

/-- Opens the files and loads the module, unless that is done. -/
def ipcOsModuleInit (r : UioInitReplies) : ℤ × UioOs :=
  if w.isFilesOpened then
    (0, w)
  else
    let (fd, w) := w.openFile r.openModule .ipcUioModule
    let w := { w with ipcUioModuleFd := fd }
    if fd = -1 then
      (-ENODEV, w)
    else
      let (ok, w) := w.finitModule r.finitModule
      if ok = false then
        (-ENODEV, w.close w.ipcUioModuleFd)
      else
        let (fd, w) := w.openFile r.openCdev .ipcCdev
        let w := { w with ipcCdevFd := fd }
        if fd = -1 then
          (-ENODEV, w.close w.ipcUioModuleFd)
        else
          (0, { w with isFilesOpened := true })

/-- Starts the Rx thread of an instance. -/
def ipcOsSoftirqInit (r : UioInitReplies) (inst : ℕ) : ℤ × UioOs :=
  if r.pthreadAttrInit ≠ 0 then (r.pthreadAttrInit, w)
  else if r.pthreadAttrSetschedpolicy ≠ 0 then (r.pthreadAttrSetschedpolicy, w)
  else if r.pthreadAttrSetschedparam ≠ 0 then (r.pthreadAttrSetschedparam, w)
  else
    match w.pthreadCreate r.pthreadCreate inst with
    | (none, w) => (EAGAIN, w)
    | (some id, w) => (0, w.setId inst { w.id inst with irqThreadId := id })

/-- The error labels of `ipc_os_init`. -/
inductive InitLabel where
  | errCloseIpcDev
  | errUnmapLocalShm
  | errUnmapRemoteShm
  | errCloseUioDev
  deriving DecidableEq, Repr

/-- What `ipc_os_init` does once an instance has its windows: registers its UIO
device, opens it and starts the thread. -/
def initUio (r : UioInitReplies) (inst : ℕ) (cfg : IpcShmCfg) :
    Option (InitLabel × ℤ) × UioOs :=
  let w := w.setId inst { w.id inst with irqNum := cfg.interCoreRxIrq }
  let (err, w) := w.ioctl r.ioctlInit r.uio (.init (some { inst := inst, cfg := cfg }))
  if err < 0 then
    (some (.errUnmapRemoteShm, -EINVAL), w)
  else if cfg.interCoreRxIrq = ipcIrqNone then
    (none, w)
  else if r.getUioDevName = false then
    (some (.errUnmapRemoteShm, -ENOENT), w)
  else
    let (fd, w) := w.openFile r.openUio (.uio inst)
    let w := w.setId inst { w.id inst with uioFd := fd }
    if fd = -1 then
      (some (.errUnmapRemoteShm, -ENODEV), w)
    else
      let (err, w) := w.ipcOsSoftirqInit r inst
      if err ≠ 0 then (some (.errCloseUioDev, err), w) else (none, w)

/-- `MAP_FAILED`. -/
def mapFailed : ℕ := 2 ^ 64 - 1

/-- What is recorded of the local window: the offset of the shared memory in its
page, and where the page is mapped. -/
def recordLocal (offset : ℕ) (map : Option ℕ) (p : UioInstance) : UioInstance :=
  match map with
  | none => { p with localShmOffset := offset, localShmMap := mapFailed }
  | some map =>
    { p with localShmOffset := offset, localShmMap := map, localVirtShm := map + offset }

/-- And of the remote one. -/
def recordRemote (offset : ℕ) (map : Option ℕ) (p : UioInstance) : UioInstance :=
  match map with
  | none => { p with remoteShmOffset := offset, remoteShmMap := mapFailed }
  | some map =>
    { p with remoteShmOffset := offset, remoteShmMap := map, remoteVirtShm := map + offset }

/-- Maps a window: a request that leaves its physical address with the module,
and an `mmap` of the whole pages it lies in. -/
def mapShm (ioctlReply : Bool) (uio : UioReplies) (req : IpcIoc)
    (mmapReply : UioModule.MmapReply) (shmAddr shmSize : ℕ)
    (record : ℕ → Option ℕ → UioInstance → UioInstance) (inst : ℕ) : ℤ × UioOs :=
  let (err, w) := w.ioctl ioctlReply uio req
  if err < 0 then
    (-EINVAL, w)
  else
    -- the address is truncated to a page, or `mmap` would fail
    let pagePhysAddr := shmAddr / 2 ^ s * 2 ^ s
    let offset := shmAddr - pagePhysAddr
    let (map, w) := w.mmap s mmapReply (offset + shmSize)
    let w := w.setId inst (record offset map (w.id inst))
    if map = none then (-ENOMEM, w) else (0, w)

/-- The remote window, and what follows. -/
def initRemote (r : UioInitReplies) (inst : ℕ) (cfg : IpcShmCfg) :
    Option (InitLabel × ℤ) × UioOs :=
  let (err, w) := w.mapShm s r.ioctlMmapRemote r.uio (.mmapRemote cfg.remoteShmAddr)
    r.mmapRemote cfg.remoteShmAddr cfg.shmSize.toNat recordRemote inst
  if err ≠ 0 then (some (.errUnmapLocalShm, err), w) else w.initUio r inst cfg

/-- The local window, and what follows. -/
def initLocal (r : UioInitReplies) (inst : ℕ) (cfg : IpcShmCfg) :
    Option (InitLabel × ℤ) × UioOs :=
  let (err, w) := w.mapShm s r.ioctlMmapLocal r.uio (.mmapLocal cfg.localShmAddr)
    r.mmapLocal cfg.localShmAddr cfg.shmSize.toNat recordLocal inst
  if err ≠ 0 then (some (.errCloseIpcDev, err), w) else w.initRemote s r inst cfg

/-- Some instance is enabled: the loops over `state`. -/
def anyEnabled : Bool :=
  (List.range ipcShmMaxInstances).any (fun i => (w.id i).state = .enabled)

def errCloseIpcDev (inst : ℕ) : UioOs :=
  let w := w.setId inst { w.id inst with state := .disabled }
  if w.anyEnabled then w
  else
    let w := { w with isFilesOpened := false }
    let w := if 0 ≤ w.ipcCdevFd then w.close w.ipcCdevFd else w
    if 0 ≤ w.ipcUioModuleFd then w.close w.ipcUioModuleFd else w

def errUnmapLocalShm (inst : ℕ) : UioOs :=
  let p := w.id inst
  (w.munmap s p.localShmMap (p.localShmOffset + p.shmSize)).errCloseIpcDev inst

def errUnmapRemoteShm (inst : ℕ) : UioOs :=
  let p := w.id inst
  (w.munmap s p.remoteShmMap (p.remoteShmOffset + p.shmSize)).errUnmapLocalShm s inst

def errCloseUioDev (inst : ℕ) : UioOs := (w.close (w.id inst).uioFd).errUnmapRemoteShm s inst

/-- Where a label leads. -/
def unwind (inst : ℕ) : InitLabel → UioOs
  | .errCloseIpcDev => w.errCloseIpcDev inst
  | .errUnmapLocalShm => w.errUnmapLocalShm s inst
  | .errUnmapRemoteShm => w.errUnmapRemoteShm s inst
  | .errCloseUioDev => w.errCloseUioDev s inst

/-- All calls for the instance itself, given up if one fails. -/
def initInstance (r : UioInitReplies) (inst : ℕ) (cfg : IpcShmCfg) : ℤ × UioOs :=
  match w.initLocal s r inst cfg with
  | (some (label, err), w) => (err, w.unwind s inst label)
  | (none, w) => (0, w.setId inst { w.id inst with state := .enabled })

/-- Initializes the OS layer for an instance. -/
def ipcOsInit (r : UioInitReplies) (inst : ℕ) (cfg : IpcShmCfg) (rxCb : Bool) : ℤ × UioOs :=
  if rxCb = false then
    (-EINVAL, w)
  else
    let w := w.setId inst { w.id inst with shmSize := cfg.shmSize.toNat }
    let (err, w) := w.ipcOsModuleInit r
    if err ≠ 0 then (err, w) else w.initInstance s r inst cfg

/-- Stops the interrupts of an instance that has one: its thread, its UIO device
and its descriptor. The data sent with the request has only its instance set,
and `cfg` is what happens to lie there. Cancelling a thread that has ended is
undefined. -/
def stopRx (ioctlFree : Bool) (cfg : IpcShmCfg) (inst : ℕ) : Option UioOs :=
  if (w.id inst).irqNum = ipcIrqNone then
    some w
  else
    let w := w.ipcHwIrqDisable inst
    let id := (w.id inst).irqThreadId
    if w.threads id = none then
      none
    else
      let w := { w with threads := Function.update w.threads id none }
      let (_, w) := w.ioctl ioctlFree { platformGetIrq := 0 }
        (.free (some { inst := inst, cfg := cfg }))
      some (w.close (w.id inst).uioFd)

/-- Gives up what all instances share, unless one is enabled. -/
def closeShared : UioOs :=
  if w.anyEnabled then w
  else
    let w := w.close w.ipcCdevFd
    let w := { w with isFilesOpened := false }
    w.deleteModule

/-- Frees the OS layer of an instance. -/
def ipcOsFree (ioctlFree : Bool) (cfg : IpcShmCfg) (inst : ℕ) : Option UioOs :=
  let w := w.setId inst { w.id inst with state := .disabled }
  (w.stopRx ioctlFree cfg inst).map (fun w =>
    let p := w.id inst
    let w := w.munmap s p.remoteShmMap (p.remoteShmOffset + p.shmSize)
    let w := w.munmap s p.localShmMap (p.localShmOffset + p.shmSize)
    w.closeShared)

@[simp] theorem setId_self (inst : ℕ) (p : UioInstance) : (w.setId inst p).id inst = p :=
  Function.update_self _ _ _

theorem setId_of_ne {inst j : ℕ} (p : UioInstance) (h : j ≠ inst) :
    (w.setId inst p).id j = w.id j := Function.update_of_ne h _ _

theorem setId_setId (inst : ℕ) (p q : UioInstance) :
    (w.setId inst p).setId inst q = w.setId inst q := by
  unfold setId
  dsimp only
  rw [Function.update_idem]

theorem setId_id (inst : ℕ) : w.setId inst (w.id inst) = w := by
  unfold setId
  rw [Function.update_eq_self]

/-! ## What the calls do

One lemma for each function says which state it leaves, as a change of the state
it found. What is said of an initialization or of a release below is read off
these. -/

section Outcomes

variable {s w} {w' : UioOs} {inst : ℕ}

/-- A request changes the module only, and does not unload it. -/
theorem ioctl_cases (w : UioOs) (reply : Bool) (uio : UioReplies) (req : IpcIoc) :
    ∃ kmod, kmod.isSome = w.kmod.isSome ∧ (w.ioctl reply uio req).2 = { w with kmod := kmod } := by
  unfold ioctl
  split
  · rename_i m _ hm
    exact ⟨_, by rw [hm]; rfl, rfl⟩
  · exact ⟨w.kmod, rfl, rfl⟩

/-- `mmap` changes the pages only. -/
theorem mmap_cases (s : ℕ) (w : UioOs) (reply : UioModule.MmapReply) (len : ℕ) :
    ∃ pages, (w.mmap s reply len).2 = { w with pages := pages } := by
  unfold mmap
  split
  · exact ⟨_, rfl⟩
  · exact ⟨w.pages, rfl⟩

/-- `open` gives a descriptor that was not in use, or none. -/
theorem openFile_cases (w : UioOs) (reply : Option ℕ) (file : UioFile) :
    w.openFile reply file = (-1, w) ∨
      ∃ fd : ℕ, w.files fd = none ∧ w.openFile reply file
        = ((fd : ℤ), { w with files := Function.update w.files fd (some file) }) := by
  unfold openFile
  split
  · exact Or.inl rfl
  · rename_i fd
    split
    · rename_i hfd
      exact Or.inr ⟨fd, hfd, rfl⟩
    · exact Or.inl rfl

/-- The Rx thread is started, and is a new one, or cannot be. -/
theorem ipcOsSoftirqInit_cases (w : UioOs) (r : UioInitReplies) (inst : ℕ) :
    (∃ err, err ≠ 0 ∧ w.ipcOsSoftirqInit r inst = (err, w)) ∨
      ∃ id, id ≠ 0 ∧ w.threads id = none ∧ w.ipcOsSoftirqInit r inst =
        (0, { w with threads := Function.update w.threads id (some inst) }.setId inst
          { w.id inst with irqThreadId := id }) := by
  unfold ipcOsSoftirqInit
  split
  · rename_i herr
    exact Or.inl ⟨_, herr, rfl⟩
  split
  · rename_i herr
    exact Or.inl ⟨_, herr, rfl⟩
  split
  · rename_i herr
    exact Or.inl ⟨_, herr, rfl⟩
  unfold pthreadCreate
  cases r.pthreadCreate with
  | none => exact Or.inl ⟨EAGAIN, by decide, rfl⟩
  | some id =>
    dsimp only
    by_cases hid : id ≠ 0 ∧ w.threads id = none
    · rw [if_pos hid]
      exact Or.inr ⟨id, hid.1, hid.2, rfl⟩
    · rw [if_neg hid]
      exact Or.inl ⟨EAGAIN, by decide, rfl⟩

/-- Two records of an instance agree on all but its windows. -/
structure SameDevice (p q : UioInstance) : Prop where
  state : q.state = p.state
  irqNum : q.irqNum = p.irqNum
  uioFd : q.uioFd = p.uioFd
  irqThreadId : q.irqThreadId = p.irqThreadId

theorem SameDevice.trans {p q q' : UioInstance} (h : SameDevice p q) (h' : SameDevice q q') :
    SameDevice p q' where
  state := h'.state.trans h.state
  irqNum := h'.irqNum.trans h.irqNum
  uioFd := h'.uioFd.trans h.uioFd
  irqThreadId := h'.irqThreadId.trans h.irqThreadId

theorem recordLocal_sameDevice (offset : ℕ) (map : Option ℕ) (p : UioInstance) :
    SameDevice p (recordLocal offset map p) := by
  cases map <;> exact ⟨rfl, rfl, rfl, rfl⟩

theorem recordRemote_sameDevice (offset : ℕ) (map : Option ℕ) (p : UioInstance) :
    SameDevice p (recordRemote offset map p) := by
  cases map <;> exact ⟨rfl, rfl, rfl, rfl⟩

/-- Mapping a window changes the module, the pages and what is recorded of the
windows. -/
theorem mapShm_cases (s : ℕ) (w : UioOs) (ioctlReply : Bool) (uio : UioReplies) (req : IpcIoc)
    (mmapReply : UioModule.MmapReply) (shmAddr shmSize : ℕ)
    {record : ℕ → Option ℕ → UioInstance → UioInstance}
    (hrec : ∀ offset map p, SameDevice p (record offset map p)) (inst : ℕ) :
    ∃ kmod pages p, kmod.isSome = w.kmod.isSome ∧ SameDevice (w.id inst) p ∧
      (w.mapShm s ioctlReply uio req mmapReply shmAddr shmSize record inst).2
        = { w with kmod := kmod, pages := pages }.setId inst p := by
  obtain ⟨kmod, hkmod, hioctl⟩ := w.ioctl_cases ioctlReply uio req
  unfold mapShm
  dsimp only
  rw [hioctl]
  split
  · exact ⟨kmod, w.pages, w.id inst, hkmod, ⟨rfl, rfl, rfl, rfl⟩, (setId_id _ inst).symm⟩
  obtain ⟨pages, hmmap⟩ := mmap_cases s { w with kmod := kmod } mmapReply
    (shmAddr - shmAddr / 2 ^ s * 2 ^ s + shmSize)
  rw [hmmap]
  split
  · exact ⟨kmod, pages, _, hkmod, hrec _ _ _, rfl⟩
  · exact ⟨kmod, pages, _, hkmod, hrec _ _ _, rfl⟩

/-- **How the calls for the device of an instance end.** Its number is recorded and
the module asked. Then there is no device, none is needed, it is open without a
thread, or it is open and served. -/
inductive InitUio (inst : ℕ) (cfg : IpcShmCfg) (w : UioOs) :
    Option (InitLabel × ℤ) × UioOs → Prop where
  | refused {kmod : Option UioModule} {err uioFd : ℤ} (hkmod : kmod.isSome = w.kmod.isSome)
      (herr : err ≠ 0) (hfd : uioFd = (w.id inst).uioFd ∨ uioFd = -1) :
      InitUio inst cfg w (some (.errUnmapRemoteShm, err), { w with kmod := kmod }.setId inst
        { w.id inst with irqNum := cfg.interCoreRxIrq, uioFd := uioFd })
  | silent {kmod : Option UioModule} (hkmod : kmod.isSome = w.kmod.isSome)
      (hrx : cfg.interCoreRxIrq = ipcIrqNone) :
      InitUio inst cfg w (none, { w with kmod := kmod }.setId inst
        { w.id inst with irqNum := cfg.interCoreRxIrq })
  | opened {kmod : Option UioModule} {fd : ℕ} {err : ℤ} (hkmod : kmod.isSome = w.kmod.isSome)
      (herr : err ≠ 0) (hfree : w.files fd = none) :
      InitUio inst cfg w (some (.errCloseUioDev, err),
        { w with
          kmod := kmod
          files := Function.update w.files fd (some (.uio inst)) }.setId inst
        { w.id inst with irqNum := cfg.interCoreRxIrq, uioFd := fd })
  | started {kmod : Option UioModule} {fd id : ℕ} (hkmod : kmod.isSome = w.kmod.isSome)
      (hfree : w.files fd = none) (hid : id ≠ 0) (hthread : w.threads id = none) :
      InitUio inst cfg w (none,
        { w with
          kmod := kmod
          files := Function.update w.files fd (some (.uio inst))
          threads := Function.update w.threads id (some inst) }.setId inst
        { w.id inst with irqNum := cfg.interCoreRxIrq, uioFd := fd, irqThreadId := id })

theorem initUio_cases (w : UioOs) (r : UioInitReplies) (inst : ℕ) (cfg : IpcShmCfg) :
    InitUio inst cfg w (w.initUio r inst cfg) := by
  obtain ⟨kmod, hkmod, hioctl⟩ :=
    (w.setId inst { w.id inst with irqNum := cfg.interCoreRxIrq }).ioctl_cases r.ioctlInit r.uio
      (.init (some { inst := inst, cfg := cfg }))
  have hkmod : kmod.isSome = w.kmod.isSome := hkmod
  unfold initUio
  dsimp only
  rw [hioctl]
  split
  · exact @InitUio.refused inst cfg w kmod (-EINVAL) _ hkmod (by decide) (Or.inl rfl)
  split
  · rename_i hrx
    exact @InitUio.silent inst cfg w kmod hkmod hrx
  split
  · exact @InitUio.refused inst cfg w kmod (- ENOENT) _ hkmod (by decide) (Or.inl rfl)
  -- from here on only the record of the instance is written again
  rcases openFile_cases { w.setId inst { w.id inst with irqNum := cfg.interCoreRxIrq } with
    kmod := kmod } r.openUio (.uio inst) with he | ⟨fd, hfree, he⟩
  · rw [he]
    dsimp only
    rw [if_pos rfl]
    have h := @InitUio.refused inst cfg w kmod (-ENODEV) (-1) hkmod (by decide) (Or.inr rfl)
    simpa only [setId, Function.update_idem, Function.update_self] using h
  rw [he]
  dsimp only
  rw [if_neg (by omega)]
  rcases ipcOsSoftirqInit_cases _ r inst with ⟨err, herr, hs⟩ | ⟨id, hid, hthread, hs⟩
  · rw [hs]
    dsimp only
    rw [if_pos herr]
    have h := @InitUio.opened inst cfg w kmod fd err hkmod herr hfree
    simpa only [setId, Function.update_idem, Function.update_self] using h
  · rw [hs]
    dsimp only
    rw [if_neg (not_not.mpr rfl)]
    have h := @InitUio.started inst cfg w kmod fd id hkmod hfree hid hthread
    simpa only [setId, Function.update_idem, Function.update_self] using h

/-- **How the calls for an instance end**: without its windows, or with them and as
those for its device do. -/
inductive InitLocal (inst : ℕ) (cfg : IpcShmCfg) (w : UioOs) :
    Option (InitLabel × ℤ) × UioOs → Prop where
  | unmapped {kmod : Option UioModule} {pages : PageTable} {p : UioInstance} {label : InitLabel}
      {err : ℤ} (hkmod : kmod.isSome = w.kmod.isSome) (hp : SameDevice (w.id inst) p)
      (herr : err ≠ 0) (hlabel : label ≠ .errCloseUioDev) :
      InitLocal inst cfg w (some (label, err), { w with kmod := kmod, pages := pages }.setId inst p)
  | mapped {kmod : Option UioModule} {pages : PageTable} {p : UioInstance}
      {res : Option (InitLabel × ℤ) × UioOs} (hkmod : kmod.isSome = w.kmod.isSome)
      (hp : SameDevice (w.id inst) p)
      (h : InitUio inst cfg ({ w with kmod := kmod, pages := pages }.setId inst p) res) :
      InitLocal inst cfg w res

theorem initLocal_cases (s : ℕ) (w : UioOs) (r : UioInitReplies) (inst : ℕ) (cfg : IpcShmCfg) :
    InitLocal inst cfg w (w.initLocal s r inst cfg) := by
  obtain ⟨kmod, pages, p, hkmod, hp, he⟩ := mapShm_cases s w r.ioctlMmapLocal r.uio
    (.mmapLocal cfg.localShmAddr) r.mmapLocal cfg.localShmAddr cfg.shmSize.toNat
    recordLocal_sameDevice inst
  unfold initLocal
  dsimp only
  rw [he]
  split
  · rename_i herr
    exact .unmapped hkmod hp herr (by decide)
  obtain ⟨kmod', pages', p', hkmod', hp', he'⟩ := mapShm_cases s
    ({ w with kmod := kmod, pages := pages }.setId inst p) r.ioctlMmapRemote r.uio
    (.mmapRemote cfg.remoteShmAddr) r.mmapRemote cfg.remoteShmAddr cfg.shmSize.toNat
    recordRemote_sameDevice inst
  have hstate : { UioOs.setId { w with kmod := kmod, pages := pages } inst p with
      kmod := kmod', pages := pages' }.setId inst p'
        = ({ w with kmod := kmod', pages := pages' } : UioOs).setId inst p' := by
    simp only [setId, Function.update_idem]
  rw [setId_self] at hp'
  rw [hstate] at he'
  unfold initRemote
  dsimp only
  rw [he']
  split
  · rename_i herr
    exact .unmapped (hkmod'.trans hkmod) (hp.trans hp') herr (by decide)
  · exact .mapped (hkmod'.trans hkmod) (hp.trans hp') (initUio_cases _ r inst cfg)

theorem InitUio.other {cfg : IpcShmCfg} {res : Option (InitLabel × ℤ) × UioOs}
    (h : InitUio inst cfg w res) {j : ℕ} (hj : j ≠ inst) : res.2.id j = w.id j := by
  cases h with
  | refused | silent | opened | started => exact setId_of_ne _ _ hj

/-- The other instances are left alone, -/
theorem InitLocal.other {cfg : IpcShmCfg} {res : Option (InitLabel × ℤ) × UioOs}
    (h : InitLocal inst cfg w res) {j : ℕ} (hj : j ≠ inst) : res.2.id j = w.id j := by
  cases h with
  | unmapped => exact setId_of_ne _ _ hj
  | mapped _ _ h => exact (h.other hj).trans (setId_of_ne _ _ hj)

/-- and a call that fails ends the initialization with an error. -/
theorem InitLocal.err_ne {cfg : IpcShmCfg} {label : InitLabel} {err : ℤ}
    (h : InitLocal inst cfg w (some (label, err), w')) : err ≠ 0 := by
  cases h with
  | unmapped _ _ herr => exact herr
  | mapped _ _ h =>
    cases h with
    | refused _ herr => exact herr
    | opened _ herr => exact herr

/-- The error labels unmap what was mapped and come to the first of them; the
last closes the device before. -/
theorem unwind_cases (s : ℕ) (w : UioOs) (inst : ℕ) (label : InitLabel) :
    ∃ pages, w.unwind s inst label =
      ({ if label = InitLabel.errCloseUioDev then w.close (w.id inst).uioFd else w with
        pages := pages }).errCloseIpcDev inst := by
  cases label <;> exact ⟨_, rfl⟩

/-- Stopping an instance does nothing if it has no interrupt. Otherwise its thread
ends and its device is closed, after a last command. -/
theorem stopRx_cases {ioctlFree : Bool} {cfg : IpcShmCfg}
    (hrun : w.stopRx ioctlFree cfg inst = some w') :
    (w.id inst).irqNum = ipcIrqNone ∧ w' = w ∨
      (w.id inst).irqNum ≠ ipcIrqNone ∧ w.threads (w.id inst).irqThreadId ≠ none ∧
        ∃ kmod, kmod.isSome = w.kmod.isSome ∧ w' = { w with
          kmod := kmod
          files := Function.update w.files (w.id inst).uioFd none
          threads := Function.update w.threads (w.id inst).irqThreadId none
          sent := ⟨inst, .disable, w.files (w.id inst).uioFd⟩ :: w.sent } := by
  unfold stopRx at hrun
  split at hrun
  · rename_i hirq
    exact Or.inl ⟨hirq, (Option.some.inj hrun).symm⟩
  rename_i hirq
  dsimp only at hrun
  split at hrun
  · exact nomatch hrun
  rename_i hthread
  obtain ⟨kmod, hkmod, hioctl⟩ := ioctl_cases { w.ipcHwIrqDisable inst with
    threads := Function.update w.threads (w.id inst).irqThreadId none } ioctlFree
    { platformGetIrq := 0 } (.free (some { inst := inst, cfg := cfg }))
  have hclose : w' = (fun v : UioOs => v.close (v.id inst).uioFd) (UioOs.ioctl
      { w.ipcHwIrqDisable inst with
        threads := Function.update w.threads (w.id inst).irqThreadId none } ioctlFree
      { platformGetIrq := 0 } (.free (some { inst := inst, cfg := cfg }))).2 :=
    (Option.some.inj hrun).symm
  rw [hioctl] at hclose
  exact Or.inr ⟨hirq, hthread, kmod, hkmod, hclose⟩

end Outcomes

/-! ## Initializations that go through -/

section Completes

variable {s w} {m : UioModule} {inst : ℕ}

/-- The character device is open, and a module answers its requests. -/
structure Served (w : UioOs) (m : UioModule) : Prop where
  cdev : w.files w.ipcCdevFd = some .ipcCdev
  kmod : w.kmod = some m

theorem Served.ioctl (h : w.Served m) (reply : Bool) (uio : UioReplies) (req : IpcIoc) :
    w.ioctl reply uio req = (if reply then (m.ipcCdevIoctl uio req).1 else -1,
      { w with kmod := some (m.ipcCdevIoctl uio req).2 }) := by
  rw [UioOs.ioctl, h.cdev, h.kmod]

theorem Served.mmap (h : w.Served m) (reply : UioModule.MmapReply) (len : ℕ) :
    w.mmap s reply len = ((m.mmap s len reply w.pages).1,
      { w with pages := (m.mmap s len reply w.pages).2 }) := by
  rw [UioOs.mmap, h.cdev, h.kmod]

/-- A request is answered by a module, or refused. -/
theorem served_or (w : UioOs) (reply : Bool) (uio : UioReplies) (req : IpcIoc) :
    (∃ m, w.Served m) ∨ w.ioctl reply uio req = (-1, w) := by
  unfold UioOs.ioctl
  split
  · rename_i m hf hm
    exact Or.inl ⟨m, hf, hm⟩
  · exact Or.inr rfl

/-- The whole pages a window lies in: their length, counted up to its end. -/
def windowLen (s shmAddr shmSize : ℕ) : ℕ := shmAddr - shmAddr / 2 ^ s * 2 ^ s + shmSize

variable (s inst) in
/-- **A window is mapped.** The pages of an area the kernel chooses get the frames
of the physical window, nothing else is mapped or unmapped, and the place is
recorded. It fails only with the kernel. -/
theorem Served.mapShm (h : w.Served m) (req : IpcIoc) {shmAddr : ℕ}
    (hreq : req = .mmapLocal shmAddr ∨ req = .mmapRemote shmAddr) (reply : Bool)
    (uio : UioReplies) (mr : UioModule.MmapReply) (shmSize : ℕ)
    (record : ℕ → Option ℕ → UioInstance → UioInstance) :
    let len := windowLen s shmAddr shmSize
    let res := w.mapShm s reply uio req mr shmAddr shmSize record inst
    (reply = true → mr.Grants s len w.pages →
      res.1 = 0 ∧ res.2.Served (m.mapping req shmAddr)) ∧
    (res.1 = 0 → ∃ addr, mr.addr = some addr ∧
      UioModule.AreaFree s addr (numPages s len * 2 ^ s) w.pages ∧
      (m.mapping req shmAddr).MapsUpTo s (addr / 2 ^ s) (numPages s len) w.pages
        res.2.pages ∧
      res.2.id inst = record (shmAddr - shmAddr / 2 ^ s * 2 ^ s) (some addr) (w.id inst)) := by
  have hioctl : m.ipcCdevIoctl uio req = (0, m.mapping req shmAddr) := by
    rcases hreq with rfl | rfl <;> rfl
  have hcmd : (m.mapping req shmAddr).cmd = .mmapLocal ∨
      (m.mapping req shmAddr).cmd = .mmapRemote := by
    rcases hreq with rfl | rfl
    · exact Or.inl rfl
    · exact Or.inr rfl
  obtain ⟨hgrant, hmaps⟩ := UioModule.mmap_spec s (windowLen s shmAddr shmSize) mr w.pages hcmd
  dsimp only
  rw [UioOs.mapShm, h.ioctl, hioctl]
  dsimp only
  cases reply with
  | false => exact ⟨fun hf => (nomatch hf), fun hf => absurd hf (show -EINVAL ≠ 0 by decide)⟩
  | true =>
    have hserved : Served { w with kmod := some (m.mapping req shmAddr) }
        (m.mapping req shmAddr) := ⟨h.cdev, rfl⟩
    rw [if_pos rfl, if_neg (Int.lt_irrefl 0), hserved.mmap]
    dsimp only
    rw [windowLen] at hgrant hmaps
    constructor
    · intro _ hg
      have hsome := hgrant hg
      have hne : mr.addr ≠ none := by
        intro hnone
        rw [windowLen, UioModule.MmapReply.Grants, hnone] at hg
        exact hg
      rw [if_neg (by rw [hsome]; exact hne)]
      exact ⟨rfl, h.cdev, rfl⟩
    · intro hok
      split at hok
      · exact absurd hok (show -ENOMEM ≠ 0 by decide)
      rename_i hsome
      obtain ⟨addr, haddr⟩ := Option.ne_none_iff_exists'.mp hsome
      rw [if_neg hsome]
      obtain ⟨hr, hfree, hmap⟩ := hmaps addr haddr
      refine ⟨addr, hr, hfree, hmap, ?_⟩
      rw [setId_self, haddr]

/-- `open` hands out a descriptor that is neither in use nor taken before. -/
def Opens (w : UioOs) (taken : List ℕ) (reply : Option ℕ) : Prop :=
  ∃ fd ∈ reply, w.files fd = none ∧ fd ∉ taken

instance (w : UioOs) (taken : List ℕ) (reply : Option ℕ) : Decidable (w.Opens taken reply) :=
  inferInstanceAs (Decidable (∃ fd ∈ reply, w.files (fd : ℕ) = none ∧ fd ∉ taken))

/-- The UIO device is found and opened, and its thread started. -/
def DeviceStarts (w : UioOs) (taken : List ℕ) (r : UioInitReplies) : Prop :=
  r.getUioDevName = true ∧ w.Opens taken r.openUio ∧ r.pthreadAttrInit = 0 ∧
    r.pthreadAttrSetschedpolicy = 0 ∧ r.pthreadAttrSetschedparam = 0 ∧
    ∃ id ∈ r.pthreadCreate, id ≠ 0 ∧ w.threads id = none

instance (w : UioOs) (taken : List ℕ) (r : UioInitReplies) : Decidable (w.DeviceStarts taken r) :=
  inferInstanceAs (Decidable (_ ∧ _ ∧ _ ∧ _ ∧ _ ∧ ∃ id ∈ r.pthreadCreate, _))

/-- There is room for both windows, apart from each other. -/
def WindowsGranted (s : ℕ) (w : UioOs) (r : UioInitReplies) (cfg : IpcShmCfg) : Prop :=
  let size := cfg.shmSize.toNat
  r.mmapLocal.Grants s (windowLen s cfg.localShmAddr size) w.pages ∧
  r.mmapRemote.Grants s (windowLen s cfg.remoteShmAddr size) w.pages ∧
  ∀ a ∈ r.mmapLocal.addr, ∀ b ∈ r.mmapRemote.addr,
    a / 2 ^ s + numPages s (windowLen s cfg.localShmAddr size) ≤ b / 2 ^ s ∨
    b / 2 ^ s + numPages s (windowLen s cfg.remoteShmAddr size) ≤ a / 2 ^ s

instance (s : ℕ) (w : UioOs) (r : UioInitReplies) (cfg : IpcShmCfg) :
    Decidable (w.WindowsGranted s r cfg) :=
  inferInstanceAs (Decidable (_ ∧ _ ∧ ∀ a ∈ r.mmapLocal.addr, ∀ b ∈ r.mmapRemote.addr, _))

/-- **No call of an initialization fails** once the module is there: the requests,
the mappings, and the device and the thread of an instance that has an
interrupt. -/
def Completes (s : ℕ) (w : UioOs) (m : UioModule) (taken : List ℕ) (r : UioInitReplies)
    (inst : ℕ) (cfg : IpcShmCfg) : Prop :=
  r.ioctlMmapLocal = true ∧ r.ioctlMmapRemote = true ∧ r.ioctlInit = true ∧
  w.WindowsGranted s r cfg ∧
  0 ≤ (m.ipcUioInit r.uio { inst := inst, cfg := cfg }).1 ∧
  (cfg.interCoreRxIrq = ipcIrqNone ∨ w.DeviceStarts taken r)

instance (s : ℕ) (w : UioOs) (m : UioModule) (taken : List ℕ) (r : UioInitReplies) (inst : ℕ)
    (cfg : IpcShmCfg) : Decidable (w.Completes s m taken r inst cfg) :=
  inferInstanceAs (Decidable (_ ∧ _ ∧ _ ∧ _ ∧ _ ∧ _))

theorem Opens.openFile {reply : Option ℕ} (h : w.Opens [] reply) (file : UioFile) :
    ∃ fd : ℕ, reply = some fd ∧ w.files fd = none ∧ w.openFile reply file
      = ((fd : ℤ), { w with files := Function.update w.files fd (some file) }) := by
  obtain ⟨fd, rfl, hfd, -⟩ := h
  exact ⟨fd, rfl, hfd, if_pos hfd⟩

variable {r : UioInitReplies}

/-- The thread is started. -/
theorem ipcOsSoftirqInit_starts (h₁ : r.pthreadAttrInit = 0) (h₂ : r.pthreadAttrSetschedpolicy = 0)
    (h₃ : r.pthreadAttrSetschedparam = 0)
    (h₄ : ∃ id ∈ r.pthreadCreate, id ≠ 0 ∧ w.threads id = none) :
    (w.ipcOsSoftirqInit r inst).1 = 0 := by
  obtain ⟨id, hid, hfree⟩ := h₄
  rw [ipcOsSoftirqInit, if_neg (not_not.mpr h₁), if_neg (not_not.mpr h₂), if_neg (not_not.mpr h₃),
    show r.pthreadCreate = some id from hid, pthreadCreate, if_pos hfree]

theorem Served.initUio (h : w.Served m) (hinst : inst < ipcShmMaxInstances) {cfg : IpcShmCfg}
    (hioctl : r.ioctlInit = true) (hinit : 0 ≤ (m.ipcUioInit r.uio { inst := inst, cfg := cfg }).1)
    (hdev : cfg.interCoreRxIrq = ipcIrqNone ∨ w.DeviceStarts [] r) :
    (w.initUio r inst cfg).1 = none := by
  have hserved : (w.setId inst { w.id inst with irqNum := cfg.interCoreRxIrq }).Served m :=
    ⟨h.cdev, h.kmod⟩
  have hreq : m.ipcCdevIoctl r.uio (.init (some { inst := inst, cfg := cfg }))
      = UioModule.ipcUioInit { m with cmd := .init } r.uio { inst := inst, cfg := cfg } :=
    if_neg (Nat.not_le.mpr hinst)
  have hcongr := UioModule.ipcUioInit_congr (m := m) { m with cmd := .init } rfl r.uio
    { inst := inst, cfg := cfg }
  rw [UioOs.initUio]
  dsimp only
  rw [hserved.ioctl, hioctl, hreq]
  dsimp only
  rw [if_pos rfl, hcongr, if_neg (Int.not_lt.mpr hinit)]
  split
  · rfl
  rename_i hrx
  obtain ⟨hname, hopens, h₁, h₂, h₃, h₄⟩ := hdev.resolve_left hrx
  rw [if_neg (by rw [hname]; decide)]
  obtain ⟨fd, -, -, hopen⟩ := Opens.openFile (w := { w.setId inst _ with kmod := _ }) hopens
    (.uio inst)
  rw [hopen]
  dsimp only
  rw [if_neg (by omega)]
  split
  · rename_i herr
    exact (herr (ipcOsSoftirqInit_starts h₁ h₂ h₃ h₄)).elim
  · rfl

/-- **With the module there, an initialization whose calls succeed goes through.** -/
theorem Served.initLocal (h : w.Served m) (hinst : inst < ipcShmMaxInstances) {cfg : IpcShmCfg}
    (hc : w.Completes s m [] r inst cfg) : (w.initLocal s r inst cfg).1 = none := by
  obtain ⟨hlocal, hremote, hioctl, ⟨hgl, hgr, hapart⟩, hinit, hdev⟩ := hc
  obtain ⟨hok, hmaps⟩ := h.mapShm s inst (.mmapLocal cfg.localShmAddr) (Or.inl rfl)
    r.ioctlMmapLocal r.uio r.mmapLocal cfg.shmSize.toNat recordLocal
  obtain ⟨kmod, pages, p, -, -, he⟩ := mapShm_cases s w r.ioctlMmapLocal r.uio
    (.mmapLocal cfg.localShmAddr) r.mmapLocal cfg.localShmAddr cfg.shmSize.toNat
    recordLocal_sameDevice inst
  obtain ⟨hzero, hserved⟩ := hok hlocal hgl
  obtain ⟨addr, haddr, -, hmap, -⟩ := hmaps hzero
  rw [UioOs.initLocal]
  dsimp only
  rw [if_neg (not_not.mpr hzero)]
  set w₁ := (w.mapShm s r.ioctlMmapLocal r.uio (.mmapLocal cfg.localShmAddr) r.mmapLocal
    cfg.localShmAddr cfg.shmSize.toNat recordLocal inst).2
  have hgr := hgr.after hmap (fun b hb => hapart addr haddr b hb)
  obtain ⟨hok', -⟩ := hserved.mapShm s inst (.mmapRemote cfg.remoteShmAddr) (Or.inr rfl)
    r.ioctlMmapRemote r.uio r.mmapRemote
    cfg.shmSize.toNat recordRemote
  obtain ⟨kmod', pages', p', -, -, he'⟩ := mapShm_cases s w₁ r.ioctlMmapRemote r.uio
    (.mmapRemote cfg.remoteShmAddr) r.mmapRemote cfg.remoteShmAddr cfg.shmSize.toNat
    recordRemote_sameDevice inst
  obtain ⟨hzero', hserved'⟩ := hok' hremote hgr
  rw [UioOs.initRemote]
  dsimp only
  rw [if_neg (not_not.mpr hzero')]
  refine hserved'.initUio hinst hioctl ?_ ?_
  · rwa [UioModule.ipcUioInit_mapping, UioModule.ipcUioInit_mapping]
  rw [he', he]
  exact hdev

/-- The files are opened and the module is loaded. -/
def Loads (w : UioOs) (r : UioInitReplies) : Prop :=
  w.Opens [] r.openModule ∧ r.finitModule = true ∧ w.kmod = none ∧
    w.Opens r.openModule.toList r.openCdev

instance (w : UioOs) (r : UioInitReplies) : Decidable (w.Loads r) :=
  inferInstanceAs (Decidable (_ ∧ _ ∧ _ ∧ _))

/-- The library with the files opened and the module loaded. -/
def loaded (w : UioOs) (fd fd' : ℕ) : UioOs :=
  { w with
    isFilesOpened := true
    ipcCdevFd := fd'
    ipcUioModuleFd := fd
    kmod := some .probed
    files := Function.update (Function.update w.files fd (some .ipcUioModule)) fd'
      (some .ipcCdev) }

theorem Loads.ipcOsModuleInit (h : w.Loads r) (hno : w.isFilesOpened = false) :
    ∃ fd fd' : ℕ, r.openModule = some fd ∧ r.openCdev = some fd' ∧ w.files fd = none ∧
      w.files fd' = none ∧ fd' ≠ fd ∧ w.ipcOsModuleInit r = (0, w.loaded fd fd') := by
  obtain ⟨hopen, hfinit, hkmod, fd', hfd', hfree', hne⟩ := h
  obtain ⟨fd, hfd, hfree, hmodule⟩ := hopen.openFile .ipcUioModule
  have hne : fd' ≠ fd := by
    rw [hfd] at hne
    exact fun he => hne (List.mem_singleton.mpr he)
  refine ⟨fd, fd', hfd, hfd', hfree, hfree', hne, ?_⟩
  have hstill : Function.update w.files (fd : ℤ) (some .ipcUioModule) fd' = none := by
    rw [Function.update_of_ne (by omega), hfree']
  rw [UioOs.ipcOsModuleInit, if_neg (by rw [hno]; decide), hmodule]
  dsimp only
  have hloads : ∀ v : UioOs, v.kmod = none →
      v.finitModule r.finitModule = (true, { v with kmod := some .probed }) :=
    fun v hv => if_pos ⟨hfinit, hv⟩
  rw [if_neg (by omega), hloads]
  · dsimp only
    rw [if_neg (by decide), show r.openCdev = some fd' from hfd', openFile, if_pos hstill]
    dsimp only
    rw [if_neg (by omega)]
    rfl
  · exact hkmod

theorem openFile_or_opens (w : UioOs) (reply : Option ℕ) (file : UioFile) :
    w.openFile reply file = (-1, w) ∨ w.Opens [] reply := by
  unfold openFile
  cases reply with
  | none => exact Or.inl rfl
  | some fd =>
    by_cases hfd : w.files fd = none
    · exact Or.inr ⟨fd, rfl, hfd, List.not_mem_nil⟩
    · exact Or.inl (if_neg hfd)

/-- The calls that succeed with two descriptors taken succeed once they are. -/
theorem Completes.loaded {fd fd' : ℕ} {cfg : IpcShmCfg} (h : w.Completes s m [fd, fd'] r inst cfg) :
    (w.loaded fd fd').Completes s m [] r inst cfg := by
  obtain ⟨hlocal, hremote, hioctl, hgrant, hinit, hdev⟩ := h
  refine ⟨hlocal, hremote, hioctl, hgrant, hinit, hdev.imp_right ?_⟩
  rintro ⟨hname, ⟨fd₁, hfd₁, hfree, hnot⟩, hrest⟩
  simp only [List.mem_cons, List.not_mem_nil, or_false, not_or] at hnot
  refine ⟨hname, ⟨fd₁, hfd₁, ?_, List.not_mem_nil⟩, hrest⟩
  show Function.update (Function.update w.files _ _) _ _ _ = none
  rw [Function.update_of_ne (by omega), Function.update_of_ne (by omega), hfree]

end Completes

/-! ## The files and the module over a run -/

section Resources

variable {s w} {inst : ℕ}

/-- No call has gone through yet: nothing of the library is open or loaded. -/
structure Closed (w : UioOs) : Prop where
  isFilesOpened : w.isFilesOpened = false
  kmod : w.kmod = none
  files : ∀ fd f, w.files fd = some f → f = .other ∧ 0 ≤ fd
  state : ∀ i, (w.id i).state = .disabled
  irqThreadId : ∀ i, (w.id i).irqThreadId = 0
  threads : w.threads 0 = none

/-- What all instances share is there. No instance that has a thread takes the
character device for its UIO device. -/
structure Loaded (w : UioOs) : Prop where
  isFilesOpened : w.isFilesOpened = true
  kmod : w.kmod.isSome = true
  cdev : w.files w.ipcCdevFd = some .ipcCdev
  files : ∀ fd f, w.files fd = some f → 0 ≤ fd
  uioFd : ∀ i, (w.id i).irqThreadId ≠ 0 → (w.id i).uioFd ≠ w.ipcCdevFd
  threads : w.threads 0 = none

/-- And some instance is enabled. -/
structure Opened (w : UioOs) : Prop extends Loaded w where
  enabled : ∃ i, i < ipcShmMaxInstances ∧ (w.id i).state = .enabled

/-- Some instance other than the given one is enabled. -/
def OtherEnabled (w : UioOs) (inst : ℕ) : Prop :=
  ∃ i < ipcShmMaxInstances, i ≠ inst ∧ (w.id i).state = .enabled

instance (w : UioOs) (inst : ℕ) : Decidable (w.OtherEnabled inst) :=
  inferInstanceAs (Decidable (∃ i < ipcShmMaxInstances, i ≠ inst ∧ (w.id i).state = .enabled))

theorem OtherEnabled.anyEnabled (h : w.OtherEnabled inst) : w.anyEnabled = true := by
  obtain ⟨i, hi, -, he⟩ := h
  exact List.any_eq_true.mpr ⟨i, List.mem_range.mpr hi, decide_eq_true he⟩

theorem OtherEnabled.congr {w' : UioOs} (h : w.OtherEnabled inst)
    (hid : ∀ j, j ≠ inst → w'.id j = w.id j) : w'.OtherEnabled inst := by
  obtain ⟨i, hi, hne, he⟩ := h
  exact ⟨i, hi, hne, by rw [hid i hne, he]⟩

/-- Then the error labels do not give up what is shared. -/
theorem OtherEnabled.errCloseIpcDev (h : w.OtherEnabled inst) :
    w.errCloseIpcDev inst = w.setId inst { w.id inst with state := .disabled } :=
  if_pos (h.congr (fun _ hj => w.setId_of_ne _ hj)).anyEnabled

theorem Loaded.ne_cdev (h : w.Loaded) {fd : ℤ} (hfd : w.files fd = none) : fd ≠ w.ipcCdevFd := by
  rintro rfl
  rw [h.cdev] at hfd
  exact nomatch hfd

/-- **What is shared stays** whatever else changes, as long as the character device
is open, and is not what an instance with a thread takes for its own. -/
theorem Loaded.update {kmod : Option UioModule} {pages : PageTable} {files : ℤ → Option UioFile}
    {threads : ℕ → Option ℕ} {p : UioInstance} (h : w.Loaded)
    (hkmod : kmod.isSome = w.kmod.isSome)
    (hfiles : files w.ipcCdevFd = some .ipcCdev ∧ ∀ fd f, files fd = some f → 0 ≤ fd)
    (hthreads : threads 0 = none) (hfd : p.irqThreadId ≠ 0 → p.uioFd ≠ w.ipcCdevFd) :
    ({ w with kmod := kmod, pages := pages, files := files, threads := threads }.setId inst
      p).Loaded where
  isFilesOpened := h.isFilesOpened
  kmod := hkmod.trans h.kmod
  cdev := hfiles.1
  files := hfiles.2
  uioFd := by
    intro i hid
    by_cases hne : i = inst
    · subst hne
      rw [setId_self] at hid ⊢
      exact hfd hid
    · rw [setId_of_ne _ _ hne] at hid ⊢
      exact h.uioFd i hid
  threads := hthreads

theorem Loaded.setId (h : w.Loaded) {p : UioInstance} (hfd : p.uioFd = (w.id inst).uioFd)
    (hid : p.irqThreadId = (w.id inst).irqThreadId) : (w.setId inst p).Loaded :=
  h.update rfl ⟨h.cdev, h.files⟩ h.threads (fun hi => hfd ▸ h.uioFd inst (hid ▸ hi))

/-- A file is opened, -/
theorem Loaded.files_open (h : w.Loaded) {fd : ℕ} (hfree : w.files fd = none) (file : UioFile) :
    Function.update w.files (fd : ℤ) (some file) w.ipcCdevFd = some .ipcCdev ∧
      ∀ fd' f, Function.update w.files (fd : ℤ) (some file) fd' = some f → 0 ≤ fd' := by
  refine ⟨(Function.update_of_ne (h.ne_cdev hfree).symm _ _).trans h.cdev, fun fd' f hf => ?_⟩
  by_cases hne : fd' = fd
  · omega
  · rw [Function.update_of_ne hne] at hf
    exact h.files fd' f hf

/-- or one that is not the character device is closed. -/
theorem Loaded.files_close (h : w.Loaded) {fd : ℤ} (hne : fd ≠ w.ipcCdevFd) :
    Function.update w.files fd none w.ipcCdevFd = some .ipcCdev ∧
      ∀ fd' f, Function.update w.files fd none fd' = some f → 0 ≤ fd' := by
  refine ⟨(Function.update_of_ne hne.symm _ _).trans h.cdev, fun fd' f hf => ?_⟩
  by_cases hfd : fd' = fd
  · rw [hfd, Function.update_self] at hf
    exact nomatch hf
  · rw [Function.update_of_ne hfd] at hf
    exact h.files fd' f hf

variable {cfg : IpcShmCfg} {r : UioInitReplies}

/-- The calls of an initialization keep what is shared, however they end. -/
theorem Loaded.initUio {res : Option (InitLabel × ℤ) × UioOs} (h : w.Loaded)
    (hres : InitUio inst cfg w res) : res.2.Loaded := by
  have hcdev := h.files _ _ h.cdev
  cases hres with
  | refused hkmod _ hfd =>
    refine h.update hkmod ⟨h.cdev, h.files⟩ h.threads (fun hid => ?_)
    rcases hfd with rfl | rfl
    · exact h.uioFd inst hid
    · show -1 ≠ w.ipcCdevFd
      omega
  | silent hkmod _ => exact h.update hkmod ⟨h.cdev, h.files⟩ h.threads (h.uioFd inst)
  | opened hkmod _ hfree =>
    exact h.update hkmod (h.files_open hfree _) h.threads (fun _ => h.ne_cdev hfree)
  | started hkmod hfree hid _ =>
    exact h.update hkmod (h.files_open hfree _)
      ((Function.update_of_ne hid.symm _ _).trans h.threads) (fun _ => h.ne_cdev hfree)

theorem Loaded.initLocal {res : Option (InitLabel × ℤ) × UioOs} (h : w.Loaded)
    (hres : InitLocal inst cfg w res) : res.2.Loaded := by
  have hprepared : ∀ {kmod : Option UioModule} {pages : PageTable} {p : UioInstance},
      kmod.isSome = w.kmod.isSome → SameDevice (w.id inst) p →
      ({ w with kmod := kmod, pages := pages }.setId inst p).Loaded := by
    intro kmod pages p hkmod hp
    refine h.update hkmod ⟨h.cdev, h.files⟩ h.threads (fun hid => ?_)
    rw [hp.irqThreadId] at hid
    rw [hp.uioFd]
    exact h.uioFd inst hid
  cases hres with
  | unmapped hkmod hp _ _ => exact hprepared hkmod hp
  | mapped hkmod hp hres => exact (hprepared hkmod hp).initUio hres

/-- A UIO device that is given up was opened by the same call. -/
theorem Loaded.closes_own {err : ℤ} {w' : UioOs} (h : w.Loaded)
    (hres : InitLocal inst cfg w (some (.errCloseUioDev, err), w')) :
    (w'.id inst).uioFd ≠ w'.ipcCdevFd := by
  cases hres with
  | unmapped _ _ _ hlabel => exact absurd rfl hlabel
  | mapped _ _ hres =>
    cases hres with
    | opened _ _ hfree =>
      rw [setId_self]
      exact h.ne_cdev hfree

/-- **The error path while another instance is enabled.** -/
theorem Loaded.unwind (h : w.Loaded) (hother : w.OtherEnabled inst) {label : InitLabel}
    (hown : label = .errCloseUioDev → (w.id inst).uioFd ≠ w.ipcCdevFd) :
    (w.unwind s inst label).Opened := by
  obtain ⟨pages, hunwind⟩ := unwind_cases s w inst label
  have hlast : ∀ v : UioOs, v.id = w.id → v.errCloseIpcDev inst =
      v.setId inst { v.id inst with state := .disabled } :=
    fun _ hv => (hother.congr (fun j _ => congrFun hv j)).errCloseIpcDev
  obtain ⟨i, hi, hne, henabled⟩ := hother
  have hstill : ∀ (v : UioOs) p, v.id = w.id → ((v.setId inst p).id i).state = .enabled := by
    intro v p hv
    rw [setId_of_ne v p hne, hv, henabled]
  rw [hunwind]
  by_cases hlabel : label = .errCloseUioDev
  · rw [if_pos hlabel, hlast]
    · refine ⟨h.update rfl (h.files_close (hown hlabel)) h.threads (h.uioFd inst), i, hi, ?_⟩
      exact hstill { w.close (w.id inst).uioFd with pages := pages } _ rfl
    · rfl
  · rw [if_neg hlabel, hlast]
    · refine ⟨h.update rfl ⟨h.cdev, h.files⟩ h.threads (h.uioFd inst), i, hi, ?_⟩
      exact hstill { w with pages := pages } _ rfl
    · rfl

/-- **Freeing an instance while another is enabled.** Its device is not the
character device, since a thread is stopped with it. -/
theorem Opened.ipcOsFree (h : w.Opened) (hother : w.OtherEnabled inst) {b : Bool} {w' : UioOs}
    (hrun : w.ipcOsFree s b cfg inst = some w') : w'.Opened := by
  unfold UioOs.ipcOsFree at hrun
  obtain ⟨w₂, hstop, rfl⟩ := Option.map_eq_some_iff.mp hrun
  obtain ⟨hloaded, hid⟩ : (∀ pages, ({ w₂ with pages := pages } : UioOs).Loaded) ∧
      ∀ j, j ≠ inst → w₂.id j = w.id j := by
    rcases stopRx_cases hstop with ⟨-, rfl⟩ | ⟨-, hthread, kmod, hkmod, rfl⟩
    · refine ⟨fun pages => ?_, fun j hj => w.setId_of_ne _ hj⟩
      exact @Loaded.update w inst w.kmod pages w.files w.threads
        { w.id inst with state := .disabled } h.toLoaded rfl ⟨h.cdev, h.files⟩ h.threads
        (h.uioFd inst)
    · rw [setId_self] at hthread ⊢
      refine ⟨fun pages => ?_, fun j hj => w.setId_of_ne _ hj⟩
      have hfd : (w.id inst).uioFd ≠ w.ipcCdevFd :=
        h.uioFd inst (fun h0 => hthread (h0 ▸ h.threads))
      have hthreads : Function.update w.threads (w.id inst).irqThreadId none 0 = none := by
        by_cases h0 : 0 = (w.id inst).irqThreadId
        · rw [h0, Function.update_self]
        · rw [Function.update_of_ne h0, h.threads]
      have hl := @Loaded.update w inst kmod pages _ _ { w.id inst with state := .disabled }
        h.toLoaded hkmod (h.files_close hfd) hthreads (h.uioFd inst)
      exact ⟨hl.isFilesOpened, hl.kmod, hl.cdev, hl.files, hl.uioFd, hl.threads⟩
  have hshared : ∀ v : UioOs, v.OtherEnabled inst → v.closeShared = v :=
    fun v hv => if_pos hv.anyEnabled
  dsimp only
  rw [hshared]
  swap
  · exact hother.congr hid
  obtain ⟨i, hi, hne, henabled⟩ := hother
  exact ⟨hloaded _, i, hi, (congrArg UioInstance.state (hid i hne)).trans henabled⟩

/-- The files cannot be opened, or the module cannot be loaded. -/
theorem Closed.ipcOsModuleInit (h : w.Closed)
    (hr : ¬(w.Opens [] r.openModule ∧ r.finitModule = true)) :
    (w.ipcOsModuleInit r).1 ≠ 0 ∧ (w.ipcOsModuleInit r).2.Closed := by
  rw [UioOs.ipcOsModuleInit, if_neg (by rw [h.isFilesOpened]; decide)]
  rcases openFile_or_opens w r.openModule .ipcUioModule with hfail | hopens
  · rw [hfail]
    dsimp only
    rw [if_pos rfl]
    exact ⟨show -ENODEV ≠ 0 by decide, h.isFilesOpened, h.kmod, h.files, h.state, h.irqThreadId,
      h.threads⟩
  · obtain ⟨fd, -, hfree, hopen⟩ := hopens.openFile .ipcUioModule
    have hrefused : ∀ v : UioOs, v.finitModule r.finitModule = (false, v) :=
      fun v => if_neg (fun hok => hr ⟨hopens, hok.1⟩)
    rw [hopen]
    dsimp only
    rw [if_neg (by omega), hrefused]
    dsimp only
    rw [if_pos rfl]
    -- closing the file gives back the files there were
    refine ⟨show -ENODEV ≠ 0 by decide, h.isFilesOpened, h.kmod, fun fd' f hf => ?_, h.state,
      h.irqThreadId, h.threads⟩
    have hf : Function.update (Function.update w.files (fd : ℤ) (some UioFile.ipcUioModule)) fd none
        fd' = some f := hf
    rw [Function.update_idem, ← hfree, Function.update_eq_self] at hf
    exact h.files fd' f hf

theorem Closed.loaded (h : w.Closed) {fd fd' : ℕ} : (w.loaded fd fd').Loaded where
  isFilesOpened := rfl
  kmod := rfl
  cdev := Function.update_self _ _ _
  files := by
    intro fd₁ f hf
    by_cases h₁ : fd₁ = fd'
    · omega
    by_cases h₂ : fd₁ = fd
    · omega
    have hf : Function.update (Function.update w.files _ _) _ _ fd₁ = some f := hf
    rw [Function.update_of_ne h₁, Function.update_of_ne h₂] at hf
    exact (h.files fd₁ f hf).2
  uioFd := fun i hid => absurd (h.irqThreadId i) hid
  threads := h.threads

/-- **Initializing an instance with the module there.** If a call fails while no
other instance is enabled, the module is left behind. -/
theorem Loaded.initInstance (h : w.Loaded) (hinst : inst < ipcShmMaxInstances) {m : UioModule}
    (hm : w.kmod = some m) (hc : ¬w.OtherEnabled inst → w.Completes s m [] r inst cfg) :
    (w.initInstance s r inst cfg).2.Opened := by
  have hcases := initLocal_cases s w r inst cfg
  have hdone : w.Completes s m [] r inst cfg → (w.initLocal s r inst cfg).1 = none :=
    (Served.mk h.cdev hm).initLocal hinst
  have hloaded := h.initLocal hcases
  unfold UioOs.initInstance
  rcases hres : w.initLocal s r inst cfg with ⟨_ | ⟨label, err⟩, w'⟩
  · rw [hres] at hloaded
    exact ⟨hloaded.setId rfl rfl, inst, hinst, by rw [setId_self]⟩
  · rw [hres] at hdone hcases hloaded
    by_cases hother : w.OtherEnabled inst
    · refine hloaded.unwind (hother.congr (fun j hj => hcases.other hj)) (fun hlabel => ?_)
      subst hlabel
      exact h.closes_own hcases
    · exact nomatch hdone (hc hother)

/-- The calls of the library. -/
inductive Call where
  | init (r : UioInitReplies) (inst : ℕ) (cfg : IpcShmCfg) (rxCb : Bool)
  | free (ioctlFree : Bool) (cfg : IpcShmCfg) (inst : ℕ)

/-- One call, on an instance there is. -/
def step (s : ℕ) (w : UioOs) : Call → Option UioOs
  | .init r inst cfg rxCb =>
    if inst < ipcShmMaxInstances then some (w.ipcOsInit s r inst cfg rxCb).2 else none
  | .free ioctlFree cfg inst =>
    if inst < ipcShmMaxInstances then w.ipcOsFree s ioctlFree cfg inst else none

/-- The descriptors an initialization opens first. -/
def firstOpened (w : UioOs) (r : UioInitReplies) : List ℕ :=
  if w.isFilesOpened then [] else r.openModule.toList ++ r.openCdev.toList

/-- **Calls that give up nothing shared.** Once the module is loaded the character
device opens, no call of an initialization fails unless another instance is
enabled, and an instance is freed only while another is enabled. -/
def Careful (s : ℕ) (w : UioOs) : Call → Prop
  | .init r inst cfg rxCb => rxCb = true →
    (w.isFilesOpened = false → w.Opens [] r.openModule → r.finitModule = true →
      w.Opens r.openModule.toList r.openCdev) ∧
    ((w.isFilesOpened = false → w.Opens [] r.openModule ∧ r.finitModule = true) →
      ¬w.OtherEnabled inst →
      w.Completes s (w.kmod.getD .probed) (w.firstOpened r) r inst cfg)
  | .free _ _ inst => w.OtherEnabled inst

instance (s : ℕ) (w : UioOs) (a : Call) : Decidable (w.Careful s a) :=
  match a with
  | .init _ _ _ _ => inferInstanceAs (Decidable (_ → _ ∧ (_ → _ → _)))
  | .free _ _ inst => inferInstanceAs (Decidable (w.OtherEnabled inst))

theorem Closed.ipcOsInit (h : w.Closed) (hinst : inst < ipcShmMaxInstances) {rxCb : Bool}
    (hc : w.Careful s (.init r inst cfg rxCb)) :
    (w.ipcOsInit s r inst cfg rxCb).2.Closed ∨ (w.ipcOsInit s r inst cfg rxCb).2.Opened := by
  unfold UioOs.ipcOsInit
  cases rxCb with
  | false => exact Or.inl h
  | true =>
    rw [if_neg (by decide)]
    dsimp only
    set w₁ := w.setId inst { w.id inst with shmSize := cfg.shmSize.toNat } with hw₁
    have hid : ∀ i, (w₁.id i).state = .disabled ∧ (w₁.id i).irqThreadId = 0 := by
      intro i
      by_cases hi : i = inst
      · subst hi
        rw [hw₁, setId_self]
        exact ⟨h.state i, h.irqThreadId i⟩
      · rw [hw₁, setId_of_ne _ _ hi]
        exact ⟨h.state i, h.irqThreadId i⟩
    have h₁ : w₁.Closed := ⟨h.isFilesOpened, h.kmod, h.files, fun i => (hid i).1,
      fun i => (hid i).2, h.threads⟩
    obtain ⟨hcdev, hcompletes⟩ := hc rfl
    by_cases hload : w.Opens [] r.openModule ∧ r.finitModule = true
    · have hloads : w₁.Loads r := ⟨hload.1, hload.2, h.kmod, hcdev h.isFilesOpened hload.1 hload.2⟩
      obtain ⟨fd, fd', hfd, hfd', -, -, -, hinit⟩ := hloads.ipcOsModuleInit h₁.isFilesOpened
      rw [hinit]
      dsimp only
      rw [if_neg (not_not.mpr rfl)]
      have hother : ¬w.OtherEnabled inst := by
        rintro ⟨i, -, -, hi⟩
        rw [h.state i] at hi
        exact nomatch hi
      have hcompletes := hcompletes (fun _ => hload) hother
      rw [h.kmod, firstOpened, if_neg (by rw [h.isFilesOpened]; decide), hfd, hfd'] at hcompletes
      exact Or.inr (h₁.loaded.initInstance hinst rfl
        (fun _ => Completes.loaded (w := w₁) hcompletes))
    · left
      have hfails := h₁.ipcOsModuleInit (r := r) hload
      rw [if_pos hfails.1]
      exact hfails.2

theorem Opened.ipcOsInit (h : w.Opened) (hinst : inst < ipcShmMaxInstances) {rxCb : Bool}
    (hc : w.Careful s (.init r inst cfg rxCb)) : (w.ipcOsInit s r inst cfg rxCb).2.Opened := by
  unfold UioOs.ipcOsInit
  cases rxCb with
  | false => exact h
  | true =>
    rw [if_neg (by decide)]
    dsimp only
    set w₁ := w.setId inst { w.id inst with shmSize := cfg.shmSize.toNat } with hw₁
    have h₁ : w₁.Loaded := h.toLoaded.setId rfl rfl
    have hdone : w₁.ipcOsModuleInit r = (0, w₁) := if_pos h.isFilesOpened
    obtain ⟨-, hcompletes⟩ := hc rfl
    obtain ⟨m, hm⟩ := Option.isSome_iff_exists.mp h.kmod
    rw [hdone]
    dsimp only
    rw [if_neg (not_not.mpr rfl)]
    refine h₁.initInstance hinst hm (fun hother => ?_)
    have hcompletes := hcompletes
      (fun hno => by rw [h.isFilesOpened] at hno; exact nomatch hno)
      (fun ho => hother (ho.congr (fun j hj => w.setId_of_ne _ hj)))
    rw [hm, firstOpened, if_pos h.isFilesOpened] at hcompletes
    exact hcompletes

/-- **One call.** -/
theorem step_keeps {w' : UioOs} {a : Call} (h : w.Closed ∨ w.Opened) (hc : w.Careful s a)
    (hstep : w.step s a = some w') : w'.Closed ∨ w'.Opened := by
  cases a with
  | init r inst cfg rxCb =>
    rw [step, Option.ite_none_right_eq_some] at hstep
    obtain ⟨hinst, hw'⟩ := hstep
    obtain rfl := Option.some.inj hw'
    rcases h with hclosed | hopened
    · exact hclosed.ipcOsInit hinst hc
    · exact Or.inr (hopened.ipcOsInit hinst hc)
  | free ioctlFree cfg inst =>
    rw [step, Option.ite_none_right_eq_some] at hstep
    obtain ⟨-, hrun⟩ := hstep
    rcases h with hclosed | hopened
    · obtain ⟨i, -, -, hi⟩ : w.OtherEnabled inst := hc
      rw [hclosed.state i] at hi
      exact nomatch hi
    · exact Or.inr (hopened.ipcOsFree hc hrun)

/-- **What the library holds.** The files count as opened exactly while the module
is loaded and the character device is open. When no instance is enabled the
module is not loaded and no file of the library is open. -/
structure Resources (w : UioOs) : Prop where
  opened_iff : w.isFilesOpened = true ↔
    w.kmod.isSome = true ∧ ∃ fd, w.files fd = some .ipcCdev
  released : (∀ i < ipcShmMaxInstances, (w.id i).state = .disabled) →
    w.kmod = none ∧ ∀ fd f, w.files fd = some f → f = .other
  /-- So an initialization that has to load the module can. -/
  unloaded : w.isFilesOpened = false → w.kmod = none

theorem Closed.resources (h : w.Closed) : w.Resources where
  opened_iff := by
    rw [h.isFilesOpened, h.kmod]
    exact ⟨fun hf => (nomatch hf), fun hf => (nomatch hf.1)⟩
  released := fun _ => ⟨h.kmod, fun fd f hf => (h.files fd f hf).1⟩
  unloaded := fun _ => h.kmod

theorem Opened.resources (h : w.Opened) : w.Resources where
  opened_iff := ⟨fun _ => ⟨h.kmod, _, h.cdev⟩, fun _ => h.isFilesOpened⟩
  released := by
    intro hall
    obtain ⟨i, hi, he⟩ := h.enabled
    rw [hall i hi] at he
    exact nomatch he
  unloaded := fun hno => by
    rw [h.isFilesOpened] at hno
    exact nomatch hno

/-- **The library over a run.** Any sequence of initializations and frees, of any
instances and with any outcome of every call to the system, starting with
nothing of the library open: as long as no call loses track of what is shared,
the files and the module are in step after each. -/
theorem library_resources {w₀ : UioOs} (h0 : w₀.Closed)
    (h : Steps.Reach (Steps.guarded (Careful s) (step s)) w₀ w) : w.Resources := by
  have hinv : w.Closed ∨ w.Opened :=
    h.invariant_guarded (I := fun w => w.Closed ∨ w.Opened) (Or.inl h0)
      (fun _ _ _ hI hP hstep => step_keeps hI hP hstep)
  exact hinv.elim Closed.resources Opened.resources

/-- A process with its standard files open, before it uses the library. -/
def start : UioOs := { files := fun fd => if 0 ≤ fd ∧ fd < 3 then some .other else none }

theorem start_closed : start.Closed where
  isFilesOpened := rfl
  kmod := rfl
  files := by
    intro fd f hf
    by_cases hfd : 0 ≤ fd ∧ fd < 3
    · exact ⟨(Option.some.inj ((if_pos hfd).symm.trans hf)).symm, hfd.1⟩
    · exact nomatch (if_neg hfd).symm.trans hf
  state := fun _ => rfl
  irqThreadId := fun _ => rfl
  threads := rfl

/-- Two windows of one page each, one of them not at the start of a page. -/
def initCfg : IpcShmCfg where
  localShmAddr := 0x34000040
  remoteShmAddr := 0x34100000
  shmSize := 0x800
  interCoreTxIrq := 2
  interCoreRxIrq := 1
  numChannels := 1
  channels := none

/-- The outcomes of an initialization that succeeds, with the instance `i`. -/
def granted (i : ℕ) : UioInitReplies where
  openModule := some 3
  openCdev := some 4
  mmapLocal := { addr := some (0x70000000 + i * 0x10000) }
  mmapRemote := { addr := some (0x70008000 + i * 0x10000) }
  uio := { platformGetIrq := 33 + i }
  openUio := some (5 + i)
  pthreadCreate := some (i + 1)

/-- Two instances are initialized, a third finds no room for its second window,
and the first is freed. -/
def threeInstances : List Call :=
  [.init (granted 0) 0 initCfg true, .init (granted 1) 1 initCfg true,
   .init { granted 2 with mmapRemote := { addr := none } } 2 initCfg true,
   .free true initCfg 0]

theorem library_resources_three : ∃ w,
    Steps.Reach (Steps.guarded (Careful 12) (step 12)) start w ∧ w.isFilesOpened = true ∧
      (w.id 0).state = .disabled ∧ (w.id 1).state = .enabled ∧ w.Resources := by
  have hrun : (Steps.runActs (Steps.guarded (Careful 12) (step 12)) threeInstances start).map
      (fun w => (w.isFilesOpened, (w.id 0).state, (w.id 1).state))
      = some (true, .disabled, .enabled) := by
    decide +kernel
  obtain ⟨w, hw, hval⟩ := Option.map_eq_some_iff.mp hrun
  simp only [Prod.mk.injEq] at hval
  obtain ⟨hopened, hzero, hone⟩ := hval
  have hreach := Steps.reach_of_runActs hw
  exact ⟨w, hreach, hopened, hzero, hone, library_resources start_closed hreach⟩

/-- **What is shared gets lost.** When the only instance is freed, the file of the
module stays open. When the first initialization fails, the module stays loaded,
and the next one is refused although every file opens. -/
theorem library_resources_lost :
    (∃ w, Steps.Reach (step 12) start w ∧ (∀ i < ipcShmMaxInstances, (w.id i).state = .disabled) ∧
      w.files 3 = some .ipcUioModule) ∧
    ∃ w, Steps.Reach (step 12) start w ∧ (∀ i < ipcShmMaxInstances, (w.id i).state = .disabled) ∧
      w.isFilesOpened = false ∧ w.kmod.isSome = true ∧
      (w.ipcOsInit 12 (granted 0) 0 initCfg true).1 = -ENODEV := by
  have hfree : (Steps.runActs (step 12)
      [.init (granted 0) 0 initCfg true, .free true initCfg 0] start).map
      (fun w => (decide (∀ i < ipcShmMaxInstances, (w.id i).state = .disabled), w.files 3))
      = some (true, some .ipcUioModule) := by
    decide +kernel
  have hfail : (Steps.runActs (step 12)
      [.init { granted 0 with mmapRemote := { addr := none } } 0 initCfg true] start).map
      (fun w => (decide (∀ i < ipcShmMaxInstances, (w.id i).state = .disabled), w.isFilesOpened,
        w.kmod.isSome, (w.ipcOsInit 12 (granted 0) 0 initCfg true).1))
      = some (true, false, true, -ENODEV) := by
    decide +kernel
  obtain ⟨w, hw, hval⟩ := Option.map_eq_some_iff.mp hfree
  simp only [Prod.mk.injEq, decide_eq_true_eq] at hval
  obtain ⟨w', hw', hval'⟩ := Option.map_eq_some_iff.mp hfail
  simp only [Prod.mk.injEq, decide_eq_true_eq] at hval'
  exact ⟨⟨w, Steps.reach_of_runActs hw, hval⟩, w', Steps.reach_of_runActs hw', hval'⟩

end Resources

end UioOs
