import IpcShm.Interleaving
import IpcShm.Ring

/-!
# The steps of initializing and freeing a queue

Two peers initialize the queue they share without a lock: each looks at the
other's sentinel, marks its own ring, looks again, and then either adopts the
other's indexes or starts from zero. This file says what a single memory step
of that code can do (`InitMove`, `FreeMove`), as `PushMove` does for a push.

A channel queue and a pool queue are initialized by different functions of
the source. What they do to the queue is the same program with a different
number of descriptors pushed before the queue is marked: none for a channel
queue, one for each buffer for a pool queue.
-/

/-- **One queue of an instance and its initialization by both peers.** The
parameters after `numBufs` are those of `ipc_buf_pool_init` that have no
counterpart for a channel queue. -/
structure HandshakeCfg where
  μ : Side → ShmMap
  /-- Offset of the ring in the windows. -/
  off : ℕ
  kind : IpcShmQueueType
  /-- Number of elements of the queue. -/
  numBufs : UInt16
  os : Side → IpcOs
  shmSize : Side → ℕ
  poolId : ℕ
  bufSize : UInt32
  numBufs_pos : 0 < numBufs.toNat
  numBufs_le : numBufs.toNat ≤ ipcShmMaxBufsPerChannel
  pool_le : kind = .poolQueue → numBufs.toNat ≤ ipcShmMaxBufsPerPool
  fits : ∀ s, off + 16 + (numBufs.toNat + 1) * 8 ≤ (μ s).size

namespace HandshakeCfg

variable (c : HandshakeCfg) (s : Side)

/-- The queue a peer maps. -/
def queue : IpcQueue where
  elemSize := sizeofIpcShmBd
  elemNum := c.numBufs.toNat + 1
  pushRing := (c.μ s).localShm + c.off
  popRing := (c.μ s).remoteShm + c.off

theorem queue_at : (c.queue s).At (c.μ s) c.off where
  pushRing_eq := rfl
  popRing_eq := rfl
  elemNum_lt := by
    have := c.numBufs_le
    unfold queue ipcShmMaxBufsPerChannel at *
    dsimp only
    omega
  elemSize_pos := show 0 < sizeofIpcShmBd by decide
  elemSize_lt := show sizeofIpcShmBd < 2 ^ 8 by decide
  fits := c.fits s

/-- **What a peer runs to initialize the queue**: the queue part of
`managed_channel_init`, or `ipc_buf_pool_init`. -/
def initProg (q : IpcQueue) : Drv (ℤ × IpcQueue) :=
  match c.kind with
  | .channelQueue => initChannelQueue q
      { elemSize := sizeofIpcShmBd, elemNum := c.numBufs.toNat, queueType := .channelQueue,
        pushAddr := (c.μ s).localShm + c.off, popAddr := (c.μ s).remoteShm + c.off }
  | .poolQueue => do
    let r ← ipcBufPoolInit (c.os s) (c.shmSize s) { bdQueue := q } c.poolId
      { localPoolShm := (c.μ s).localShm + c.off, remotePoolShm := (c.μ s).remoteShm + c.off }
      { numBufs := c.numBufs, bufSize := c.bufSize }
    return (r.1, r.2.bdQueue)

/-- The number of descriptors pushed before the queue is marked. -/
def count : ℕ :=
  match c.kind with
  | .channelQueue => 0
  | .poolQueue => c.numBufs.toNat

theorem count_le : c.count ≤ c.numBufs.toNat := by
  unfold count
  split
  · exact Nat.zero_le _
  · exact Nat.le_refl _

/-- Whether the initialization gets past the fit check of
`ipc_buf_pool_init`. -/
def fitsPool : Bool :=
  match c.kind with
  | .channelQueue => true
  | .poolQueue =>
    let queueMemSize := ipcQueueMemSize (c.queue s)
    decide (¬u64 ((c.os s).localShm + c.shmSize s)
      < u64 ((c.μ s).localShm + c.off
          + u32 (queueMemSize + u32 (c.bufSize.toNat * c.numBufs.toNat))))

/-! ## The program in pieces -/

/-- The descriptor of a free buffer. -/
def freeBd (bufId : ℕ) : List UInt8 :=
  IpcShmBd.encode { poolId := c.poolId, bufId := bufId, dataSize := 0 }

/-- Marking the queue initialized, after the population. -/
def finishProg (err : ℤ) : Drv (ℤ × IpcQueue) :=
  if err ≠ 0 then .pure (err, c.queue s)
  else .op (.store 8 (c.queue s).pushRing ipcQueueInitDone) (fun _ => .pure (0, c.queue s))

/-- What follows a push of the population, with `left` more to come. -/
def populateNext (bufId left : ℕ) (err : ℤ) : Drv (ℤ × IpcQueue) :=
  (if err ≠ 0 then .pure err else pushFreeBds (c.queue s) c.poolId left bufId) >>= c.finishProg s

/-- What follows the synchronization of the indexes. -/
def syncNext (err : ℤ) : Drv (ℤ × IpcQueue) :=
  if err ≠ 0 then .pure (err, c.queue s)
  else if c.fitsPool s then pushFreeBds (c.queue s) c.poolId c.count 0 >>= c.finishProg s
  else .pure (-ENOMEM, c.queue s)

theorem u16_succ : u16 (c.numBufs.toNat + 1) = c.numBufs.toNat + 1 := by
  have := c.numBufs_le
  unfold ipcShmMaxBufsPerChannel at this
  exact u16_of_lt (by omega)

/-- **Both initializations are one program.** -/
theorem initProg_eq (q : IpcQueue) :
    c.initProg s q = ipcQueueSyncIndex (c.queue s) c.kind >>= c.syncNext s := by
  have hpos := c.numBufs_pos
  have hl := (c.μ s).localShm_pos
  have hr := (c.μ s).remoteShm_pos
  cases hk : c.kind with
  | channelQueue =>
    have hfit : c.fitsPool s = true := by rw [fitsPool, hk]
    have hcount : c.count = 0 := by rw [count, hk]
    simp only [initProg, hk]
    rw [initChannelQueue, ipcQueueInit, if_neg (by simp only [sizeofIpcShmBd]; omega),
      c.u16_succ]
    simp only [bind_assoc, pure_bind]
    refine congrArg (fun k => ipcQueueSyncIndex (c.queue s) .channelQueue >>= k)
      (funext fun err => ?_)
    rw [syncNext, hfit, hcount, if_pos rfl]
    rfl
  | poolQueue =>
    have hle := c.pool_le hk
    have hcount : c.count = c.numBufs.toNat := by rw [count, hk]
    simp only [initProg, hk]
    have hdata : ¬((c.μ s).localShm + c.off = 0 ∨ (c.μ s).remoteShm + c.off = 0
        ∨ c.numBufs.toNat = 0 ∨ sizeofIpcShmBd = 0 ∨ sizeofIpcShmBd % 8 ≠ 0) := by
      simp only [sizeofIpcShmBd]
      omega
    unfold ipcBufPoolInit
    rw [if_neg (Nat.not_lt.mpr hle)]
    simp only [ipcQueueInit, if_neg hdata, c.u16_succ, bind_assoc, pure_bind]
    refine congrArg (fun k => ipcQueueSyncIndex (c.queue s) .poolQueue >>= k)
      (funext fun err => ?_)
    rw [syncNext, hcount]
    by_cases he : err ≠ 0
    · rw [if_pos he, if_pos he]
      rfl
    · rw [if_neg he, if_neg he]
      simp only [fitsPool, hk, decide_eq_true_eq]
      by_cases hf : u64 ((c.os s).localShm + c.shmSize s)
          < u64 ((c.μ s).localShm + c.off
            + u32 (ipcQueueMemSize (c.queue s) + u32 (c.bufSize.toNat * c.numBufs.toNat)))
      · rw [if_neg (not_not.mpr hf)]
        exact congrArg (· >>= _) (if_pos hf)
      · rw [if_pos hf]
        refine (congrArg (· >>= _) (if_neg hf)).trans ?_
        rw [bind_assoc]
        refine congrArg (fun k => pushFreeBds _ _ _ _ >>= k) (funext fun err => ?_)
        rw [finishProg]
        by_cases he : err ≠ 0
        · rw [if_pos he, if_pos he]
          rfl
        · rw [if_neg he, if_neg he]
          rfl

end HandshakeCfg

section Sync

variable {α : Type} (q : IpcQueue) (ty : IpcShmQueueType) (k : ℤ → Drv α)

/-! The branches of `ipc_queue_sync_index`, last request first. -/

def syncZeroRead : Drv α := .op (.store 4 (q.pushRing + 12) 0) (fun _ => k 0)

def syncZeroWrite : Drv α := .op (.store 4 (q.pushRing + 8) 0) (fun _ => syncZeroRead q k)

def syncAdoptStore (v : ℕ) : Drv α := .op (.store 4 (q.pushRing + 12) v) (fun _ => k 0)

def syncAdoptLoad : Drv α :=
  .op (.load 4 (q.popRing + 8)) (fun w => syncAdoptStore q k (adoptedRead ty w % q.elemNum))

def syncAdoptWrite (r : ℕ) : Drv α :=
  .op (.store 4 (q.pushRing + 8) r) (fun _ => syncAdoptLoad q ty k)

def syncAdoptRead : Drv α := .op (.load 4 (q.popRing + 12)) (syncAdoptWrite q ty k)

def syncCheck : Drv α :=
  .op (.load 8 q.popRing) (fun v =>
    if v = ipcQueueInitDone then syncAdoptRead q ty k else syncZeroWrite q k)

def syncMark : Drv α :=
  .op (.store 8 q.pushRing ipcQueueInitInProgress) (fun _ => syncCheck q ty k)

theorem ipcQueueSyncIndex_bind (h : 0 < q.elemNum) :
    (ipcQueueSyncIndex q ty >>= k)
      = .op (.load 8 q.popRing) (fun v =>
          if v = ipcQueueInitInProgress then k (-EAGAIN) else syncMark q ty k) := by
  rw [ipcQueueSyncIndex, load64_bind, Program.op_bind]
  refine congrArg (Program.op _) (funext fun v => ?_)
  by_cases hv : v = ipcQueueInitInProgress
  · rw [if_pos hv, if_pos hv]
    rfl
  · rw [if_neg hv, if_neg hv]
    rw [store64_bind, Program.op_bind, syncMark]
    refine congrArg (Program.op _) (funext fun _ => ?_)
    rw [load64_bind, Program.op_bind, syncCheck]
    refine congrArg (Program.op _) (funext fun v => ?_)
    by_cases hd : v = ipcQueueInitDone
    · rw [if_pos hd, if_pos hd]
      simp only [load32_bind, store32_bind, Program.op_bind, remU_of_pos h, Program.pure_bind]
      rfl
    · rw [if_neg hd, if_neg hd]
      rfl

end Sync

/-! ## Initialization, step by step -/

/-- Where a thread stands inside the initialization of a queue. -/
inductive InitPc where
  /-- About to load the remote sentinel the first time. -/
  | check1
  /-- About to mark the ring `IN_PROGRESS`. -/
  | mark
  /-- About to load the remote sentinel the second time. -/
  | check2
  | adoptRead
  | adoptWrite (r : ℕ)
  | adoptLoad
  | adoptStore (v : ℕ)
  | zeroWrite
  | zeroRead
  /-- Pushing the descriptor of buffer `bufId`, with `left` more to come. -/
  | populate (bufId left : ℕ) (pc : PushPc)
  /-- About to mark the ring `DONE`. -/
  | finish

/-- The points from which `n` descriptors remain to be pushed. -/
def InitPc.populateFrom (bufId : ℕ) : ℕ → InitPc
  | 0 => .finish
  | n + 1 => .populate bufId n .start

namespace HandshakeCfg

variable (c : HandshakeCfg) (s : Side)

/-- The thread at a point of the initialization. -/
def initThread : InitPc → Thread (ℤ × IpcQueue)
  | .check1 => .run (ipcQueueSyncIndex (c.queue s) c.kind >>= c.syncNext s)
  | .mark => .run (syncMark (c.queue s) c.kind (c.syncNext s))
  | .check2 => .run (syncCheck (c.queue s) c.kind (c.syncNext s))
  | .adoptRead => .run (syncAdoptRead (c.queue s) c.kind (c.syncNext s))
  | .adoptWrite r => .run (syncAdoptWrite (c.queue s) c.kind (c.syncNext s) r)
  | .adoptLoad => .run (syncAdoptLoad (c.queue s) c.kind (c.syncNext s))
  | .adoptStore v => .run (syncAdoptStore (c.queue s) (c.syncNext s) v)
  | .zeroWrite => .run (syncZeroWrite (c.queue s) (c.syncNext s))
  | .zeroRead => .run (syncZeroRead (c.queue s) (c.syncNext s))
  | .populate bufId left pc =>
    pc.thread (c.queue s) (c.freeBd bufId) (c.populateNext s (bufId + 1) left)
  | .finish => .run (c.finishProg s 0)

/-- The thread a move leads to. -/
def initThreadOf : InitPc ⊕ ℤ → Thread (ℤ × IpcQueue)
  | .inl pc => c.initThread s pc
  | .inr err => .run (.pure (err, c.queue s))

/-- Where the initialization is after the indexes are synchronized. -/
def afterSync : InitPc ⊕ ℤ :=
  if c.fitsPool s then .inl (.populateFrom 0 c.count) else .inr (-ENOMEM)

theorem afterSync_inl {pc : InitPc} (h : c.afterSync s = .inl pc) :
    pc = .populateFrom 0 c.count := by
  unfold afterSync at h
  split at h
  · exact (Sum.inl.inj h).symm
  · exact absurd h (by simp)

theorem afterSync_inr {err : ℤ} (h : c.afterSync s = .inr err) : err = -ENOMEM := by
  unfold afterSync at h
  split at h
  · exact absurd h (by simp)
  · exact (Sum.inr.inj h).symm

/-- **What a step of the initialization of a queue does.** -/
inductive InitMove (i : ℕ) (shm : Shm) : InitPc → InitPc ⊕ ℤ → Shm → Prop where
  | busy (h : (shm s.other).sentinel c.off = ipcQueueInitInProgress) :
      InitMove i shm .check1 (.inr (-EAGAIN)) shm
  | check1 (h : (shm s.other).sentinel c.off ≠ ipcQueueInitInProgress) :
      InitMove i shm .check1 (.inl .mark) shm
  | mark : InitMove i shm .mark (.inl .check2)
      (shm.set s ((shm s).store 8 c.off ipcQueueInitInProgress))
  | live (h : (shm s.other).sentinel c.off = ipcQueueInitDone) :
      InitMove i shm .check2 (.inl .adoptRead) shm
  | fresh (h : (shm s.other).sentinel c.off ≠ ipcQueueInitDone) :
      InitMove i shm .check2 (.inl .zeroWrite) shm
  | adoptRead : InitMove i shm .adoptRead
      (.inl (.adoptWrite ((shm s.other).readIdx c.off))) shm
  | adoptWrite {r : ℕ} : InitMove i shm (.adoptWrite r) (.inl .adoptLoad)
      (shm.set s ((shm s).store 4 (c.off + 8) r))
  | adoptLoad : InitMove i shm .adoptLoad
      (.inl (.adoptStore (adoptedRead c.kind ((shm s.other).writeIdx c.off)
        % (c.numBufs.toNat + 1)))) shm
  | adoptStore {v : ℕ} {out : InitPc ⊕ ℤ} (h : c.afterSync s = out) :
      InitMove i shm (.adoptStore v) out (shm.set s ((shm s).store 4 (c.off + 12) v))
  | zeroWrite : InitMove i shm .zeroWrite (.inl .zeroRead)
      (shm.set s ((shm s).store 4 (c.off + 8) 0))
  | zeroRead {out : InitPc ⊕ ℤ} (h : c.afterSync s = out) :
      InitMove i shm .zeroRead out (shm.set s ((shm s).store 4 (c.off + 12) 0))
  | push {bufId left : ℕ} {pc pc' : PushPc} {shm' : Shm}
      (h : PushMove (c.queue s) (c.freeBd bufId) c.off s i shm pc (.inl pc') shm') :
      InitMove i shm (.populate bufId left pc) (.inl (.populate bufId left pc')) shm'
  | pushed {bufId left : ℕ} {pc : PushPc} {shm' : Shm}
      (h : PushMove (c.queue s) (c.freeBd bufId) c.off s i shm pc (.inr 0) shm') :
      InitMove i shm (.populate bufId left pc) (.inl (.populateFrom (bufId + 1) left)) shm'
  | pushFailed {bufId left : ℕ} {pc : PushPc} {err : ℤ} {shm' : Shm} (he : err ≠ 0)
      (h : PushMove (c.queue s) (c.freeBd bufId) c.off s i shm pc (.inr err) shm') :
      InitMove i shm (.populate bufId left pc) (.inr err) shm'
  | finish : InitMove i shm .finish (.inr 0)
      (shm.set s ((shm s).store 8 c.off ipcQueueInitDone))

theorem initThread_populateFrom (bufId n : ℕ) :
    c.initThread s (.populateFrom bufId n)
      = .run (pushFreeBds (c.queue s) c.poolId n bufId >>= c.finishProg s) := by
  cases n with
  | zero => rfl
  | succ n =>
    show Thread.run (ipcQueuePush (c.queue s) (c.freeBd bufId)
      >>= c.populateNext s (bufId + 1) n) = _
    rw [pushFreeBds, bind_assoc]
    rfl

theorem syncNext_zero :
    Thread.run (c.syncNext s 0) = c.initThreadOf s (c.afterSync s) := by
  rw [syncNext, if_neg (by decide), afterSync]
  split
  · exact (c.initThread_populateFrom s 0 c.count).symm
  · rfl

theorem populateNext_zero (bufId left : ℕ) :
    Thread.run (c.populateNext s bufId left 0) = c.initThread s (.populateFrom bufId left) := by
  rw [initThread_populateFrom, populateNext, if_neg (by decide)]

theorem populateNext_error (bufId left : ℕ) {err : ℤ} (h : err ≠ 0) :
    Thread.run (c.populateNext s bufId left err) = c.initThreadOf s (.inr err) := by
  rw [populateNext, if_pos h, Program.pure_bind, finishProg, if_pos h]
  rfl

theorem freeBd_length (bufId : ℕ) : (c.freeBd bufId).length = (c.queue s).elemSize :=
  IpcShmBd.encode_length _

/-- The points of an initialization whose pushes stay in the ring. -/
def InitOk : InitPc → Prop
  | .populate _ _ pc => pc.Ok (c.queue s)
  | _ => True

/-- **The moves are all an initialization can do.** -/
theorem initMove_of_step {pc : InitPc} (hpc : c.InitOk s pc) {i : ℕ} {shm shm' : Shm}
    {th : Thread (ℤ × IpcQueue)}
    (hs : Thread.step (c.μ s) s i (c.initThread s pc) shm = some (th, shm')) :
    ∃ out, c.InitMove s i shm pc out shm' ∧ th = c.initThreadOf s out := by
  have h := c.queue_at s
  cases pc with
  | check1 =>
    rw [initThread, ipcQueueSyncIndex_bind _ _ _ (Nat.succ_pos _),
      Thread.step_load h.load_popSentinel] at hs
    obtain ⟨rfl, rfl⟩ := Prod.mk.inj (Option.some.inj hs)
    by_cases hv : (shm s.other).sentinel c.off = ipcQueueInitInProgress
    · exact ⟨_, .busy hv, by rw [if_pos hv]; rfl⟩
    · exact ⟨_, .check1 hv, by rw [if_neg hv]; rfl⟩
  | mark =>
    rw [initThread, syncMark, Thread.step_store h.store_pushSentinel] at hs
    obtain ⟨rfl, rfl⟩ := Prod.mk.inj (Option.some.inj hs)
    exact ⟨_, .mark, rfl⟩
  | check2 =>
    rw [initThread, syncCheck, Thread.step_load h.load_popSentinel] at hs
    obtain ⟨rfl, rfl⟩ := Prod.mk.inj (Option.some.inj hs)
    by_cases hv : (shm s.other).sentinel c.off = ipcQueueInitDone
    · exact ⟨_, .live hv, by rw [if_pos hv]; rfl⟩
    · exact ⟨_, .fresh hv, by rw [if_neg hv]; rfl⟩
  | adoptRead =>
    rw [initThread, syncAdoptRead, Thread.step_load h.load_popRead] at hs
    obtain ⟨rfl, rfl⟩ := Prod.mk.inj (Option.some.inj hs)
    exact ⟨_, .adoptRead, rfl⟩
  | adoptWrite r =>
    rw [initThread, syncAdoptWrite, Thread.step_store h.store_pushWrite] at hs
    obtain ⟨rfl, rfl⟩ := Prod.mk.inj (Option.some.inj hs)
    exact ⟨_, .adoptWrite, rfl⟩
  | adoptLoad =>
    rw [initThread, syncAdoptLoad, Thread.step_load h.load_popWrite] at hs
    obtain ⟨rfl, rfl⟩ := Prod.mk.inj (Option.some.inj hs)
    exact ⟨_, .adoptLoad, rfl⟩
  | adoptStore v =>
    rw [initThread, syncAdoptStore, Thread.step_store h.store_pushRead] at hs
    obtain ⟨rfl, rfl⟩ := Prod.mk.inj (Option.some.inj hs)
    exact ⟨_, .adoptStore rfl, c.syncNext_zero s⟩
  | zeroWrite =>
    rw [initThread, syncZeroWrite, Thread.step_store h.store_pushWrite] at hs
    obtain ⟨rfl, rfl⟩ := Prod.mk.inj (Option.some.inj hs)
    exact ⟨_, .zeroWrite, rfl⟩
  | zeroRead =>
    rw [initThread, syncZeroRead, Thread.step_store h.store_pushRead] at hs
    obtain ⟨rfl, rfl⟩ := Prod.mk.inj (Option.some.inj hs)
    exact ⟨_, .zeroRead rfl, c.syncNext_zero s⟩
  | populate bufId left pc =>
    obtain ⟨out, hm, rfl⟩ := pushMove_of_step h (c.freeBd_length s bufId) hpc hs
    cases out with
    | inl pc' => exact ⟨_, .push hm, rfl⟩
    | inr err =>
      by_cases he : err = 0
      · subst he
        exact ⟨_, .pushed hm, c.populateNext_zero s (bufId + 1) left⟩
      · exact ⟨_, .pushFailed he hm, c.populateNext_error s (bufId + 1) left he⟩
  | finish =>
    rw [initThread, finishProg, if_neg (by decide),
      Thread.step_store h.store_pushSentinel] at hs
    obtain ⟨rfl, rfl⟩ := Prod.mk.inj (Option.some.inj hs)
    exact ⟨_, .finish, rfl⟩

/-! ## Release, step by step -/

/-- Where a thread stands inside `ipc_queue_free`. -/
inductive FreePc where
  /-- About to load its sentinel, to compare with `DONE`. -/
  | load1
  /-- About to load it again, to compare with `IN_PROGRESS`. -/
  | load2
  | clearSentinel
  | clearWrite
  | clearRead

/-- The queue after it was cleared. -/
def freedQueue : IpcQueue := { c.queue s with elemNum := 0, elemSize := 0, pushRing := 0 }

/-- The queue after there was nothing to clear. -/
def droppedQueue : IpcQueue := { c.queue s with pushRing := 0 }

def freeClearRead : Drv IpcQueue :=
  .op (.store 4 ((c.queue s).pushRing + 12) 0) (fun _ => .pure (c.freedQueue s))

def freeClearWrite : Drv IpcQueue :=
  .op (.store 4 ((c.queue s).pushRing + 8) 0) (fun _ => c.freeClearRead s)

def freeClearSentinel : Drv IpcQueue :=
  .op (.store 8 (c.queue s).pushRing 0) (fun _ => c.freeClearWrite s)

def freeLoad2 : Drv IpcQueue :=
  .op (.load 8 (c.queue s).pushRing) (fun v =>
    if v = ipcQueueInitInProgress then c.freeClearSentinel s
    else .pure (c.droppedQueue s))

/-- The thread at a point of the release. -/
def freeThread : FreePc → Thread IpcQueue
  | .load1 => .run (ipcQueueFree (c.queue s))
  | .load2 => .run (c.freeLoad2 s)
  | .clearSentinel => .run (c.freeClearSentinel s)
  | .clearWrite => .run (c.freeClearWrite s)
  | .clearRead => .run (c.freeClearRead s)

/-- The thread a move leads to. -/
def freeThreadOf : FreePc ⊕ IpcQueue → Thread IpcQueue
  | .inl pc => c.freeThread s pc
  | .inr q => .run (.pure q)

/-- **What a step of `ipc_queue_free` does.** -/
inductive FreeMove (shm : Shm) : FreePc → FreePc ⊕ IpcQueue → Shm → Prop where
  | done (h : (shm s).sentinel c.off = ipcQueueInitDone) :
      FreeMove shm .load1 (.inl .clearSentinel) shm
  | notDone (h : (shm s).sentinel c.off ≠ ipcQueueInitDone) :
      FreeMove shm .load1 (.inl .load2) shm
  | inProgress (h : (shm s).sentinel c.off = ipcQueueInitInProgress) :
      FreeMove shm .load2 (.inl .clearSentinel) shm
  | nothing (h : (shm s).sentinel c.off ≠ ipcQueueInitInProgress) :
      FreeMove shm .load2 (.inr (c.droppedQueue s)) shm
  | clearSentinel : FreeMove shm .clearSentinel (.inl .clearWrite)
      (shm.set s ((shm s).store 8 c.off 0))
  | clearWrite : FreeMove shm .clearWrite (.inl .clearRead)
      (shm.set s ((shm s).store 4 (c.off + 8) 0))
  | clearRead : FreeMove shm .clearRead (.inr (c.freedQueue s))
      (shm.set s ((shm s).store 4 (c.off + 12) 0))

theorem ipcQueueFree_queue :
    ipcQueueFree (c.queue s)
      = .op (.load 8 (c.queue s).pushRing) (fun v =>
          if v = ipcQueueInitDone then c.freeClearSentinel s else c.freeLoad2 s) := by
  rw [ipcQueueFree, if_neg (c.queue_at s).pushRing_ne, ringIsLive, load64_bind,
    Program.op_bind]
  refine congrArg (Program.op _) (funext fun v => ?_)
  by_cases hv : v = ipcQueueInitDone
  · rw [if_pos hv, if_pos hv]
    rfl
  · rw [if_neg hv, if_neg hv, load64_bind, Program.op_bind]
    refine congrArg (Program.op _) (funext fun v => ?_)
    by_cases hp : v = ipcQueueInitInProgress
    · rw [if_pos hp]
      simp only [Program.pure_eq, Program.pure_bind, decide_eq_true hp, if_true]
      rfl
    · rw [if_neg hp]
      simp only [Program.pure_eq, Program.pure_bind, decide_eq_false hp]
      rfl

/-- **The moves are all a release can do.** -/
theorem freeMove_of_step {pc : FreePc} {i : ℕ} {shm shm' : Shm} {th : Thread IpcQueue}
    (hs : Thread.step (c.μ s) s i (c.freeThread s pc) shm = some (th, shm')) :
    ∃ out, c.FreeMove s shm pc out shm' ∧ th = c.freeThreadOf s out := by
  have h := c.queue_at s
  cases pc with
  | load1 =>
    rw [freeThread, ipcQueueFree_queue, Thread.step_load h.load_pushSentinel] at hs
    obtain ⟨rfl, rfl⟩ := Prod.mk.inj (Option.some.inj hs)
    by_cases hv : (shm s).sentinel c.off = ipcQueueInitDone
    · exact ⟨_, .done hv, by rw [if_pos hv]; rfl⟩
    · exact ⟨_, .notDone hv, by rw [if_neg hv]; rfl⟩
  | load2 =>
    rw [freeThread, freeLoad2, Thread.step_load h.load_pushSentinel] at hs
    obtain ⟨rfl, rfl⟩ := Prod.mk.inj (Option.some.inj hs)
    by_cases hv : (shm s).sentinel c.off = ipcQueueInitInProgress
    · exact ⟨_, .inProgress hv, by rw [if_pos hv]; rfl⟩
    · exact ⟨_, .nothing hv, by rw [if_neg hv]; rfl⟩
  | clearSentinel =>
    rw [freeThread, freeClearSentinel, Thread.step_store h.store_pushSentinel] at hs
    obtain ⟨rfl, rfl⟩ := Prod.mk.inj (Option.some.inj hs)
    exact ⟨_, .clearSentinel, rfl⟩
  | clearWrite =>
    rw [freeThread, freeClearWrite, Thread.step_store h.store_pushWrite] at hs
    obtain ⟨rfl, rfl⟩ := Prod.mk.inj (Option.some.inj hs)
    exact ⟨_, .clearWrite, rfl⟩
  | clearRead =>
    rw [freeThread, freeClearRead, Thread.step_store h.store_pushRead] at hs
    obtain ⟨rfl, rfl⟩ := Prod.mk.inj (Option.some.inj hs)
    exact ⟨_, .clearRead, rfl⟩

end HandshakeCfg
