import IpcShm.Types

/-!
# The dual-ring queue

The functions of `ipc-queue.c`, one definition each. A queue pushes into a
ring in local memory and pops from a ring in remote memory; the read indexes
of the two rings are swapped, so that popping does not write remote memory
either. Every load and store of a ring field is a request of its own, in the
order the source makes them: other cores may act between any two of them.

The fields of a ring at address `p` are the words at `p` (sentinel), `p + 8`
(write index) and `p + 12` (read index), and its data starts at `p + 16`.
-/

/-- Both rings carry the sentinel of an initialized queue. -/
def ipcQueueCheckIntegrity (q : IpcQueue) : Drv ℤ := do
  let popSentinel ← load64 q.popRing
  if ipcQueueInitDone = popSentinel then
    let pushSentinel ← load64 q.pushRing
    if ipcQueueInitDone = pushSentinel then
      return 0
    else
      return -EINVAL
  else
    return -EINVAL

/-- Removes an element from the queue; the bytes of the element come with a
successful return. -/
def ipcQueuePop (q : IpcQueue) : Drv (ℤ × List UInt8) := do
  if q.pushRing = 0 ∨ q.popRing = 0 then
    return (-EINVAL, [])
  else
    let write ← load32 (q.popRing + 8)
    let read ← load32 (q.pushRing + 12)
    let err ← ipcQueueCheckIntegrity q
    if err ≠ 0 ∨ q.elemNum ≤ read ∨ q.elemNum ≤ write then
      return (-EINVAL, [])
    else if read = write then
      return (-ENOBUFS, [])
    else
      let buf ← memcpyFrom (q.popRing + 16 + u32 (read * q.elemSize)) q.elemSize
      let next ← remU (u32 (read + 1)) q.elemNum
      store32 (q.pushRing + 12) next
      return (0, buf)

/-- Pushes an element into the queue. -/
def ipcQueuePush (q : IpcQueue) (buf : List UInt8) : Drv ℤ := do
  if q.pushRing = 0 ∨ q.popRing = 0 then
    return -EINVAL
  else
    let write ← load32 (q.pushRing + 8)
    let read ← load32 (q.popRing + 12)
    if q.elemNum ≤ read ∨ q.elemNum ≤ write then
      return -EINVAL
    else
      let next ← remU (u32 (write + 1)) q.elemNum
      if next = read then
        return -ENOMEM
      else
        memcpyTo (q.pushRing + 16 + u32 (write * q.elemSize)) (buf.take q.elemSize)
        store32 (q.pushRing + 8) next
        return 0

/-- What a queue takes its read index from, modulo its size: a channel queue
starts empty, a pool queue one past the slot it would be full at. -/
def adoptedRead : IpcShmQueueType → ℕ → ℕ
  | .channelQueue, write => write
  | .poolQueue, write => u32 (write + 1)

/-- Synchronizes the indexes of the local ring with remote memory: adopts the
remote's if it is initialized, else starts from zero. -/
def ipcQueueSyncIndex (q : IpcQueue) (queueType : IpcShmQueueType) : Drv ℤ := do
  let sentinel ← load64 q.popRing
  if sentinel = ipcQueueInitInProgress then
    return -EAGAIN
  else
    store64 q.pushRing ipcQueueInitInProgress
    let sentinel ← load64 q.popRing
    if sentinel = ipcQueueInitDone then
      let read ← load32 (q.popRing + 12)
      store32 (q.pushRing + 8) read
      let write ← load32 (q.popRing + 8)
      let next ← remU (adoptedRead queueType write) q.elemNum
      store32 (q.pushRing + 12) next
      return 0
    else
      store32 (q.pushRing + 8) 0
      store32 (q.pushRing + 12) 0
      return 0

/-- Initializes a queue and maps its rings. One element is added to its size,
in the 16 bits of `elem_num`, so that a full ring differs from an empty
one. -/
def ipcQueueInit (q : IpcQueue) (data : IpcQueueData) : Drv (ℤ × IpcQueue) := do
  if data.pushAddr = 0 ∨ data.popAddr = 0 ∨ data.elemNum = 0 ∨ data.elemSize = 0
      ∨ data.elemSize % 8 ≠ 0 then
    return (-EINVAL, q)
  else
    let q : IpcQueue :=
      { elemSize := data.elemSize, elemNum := u16 (data.elemNum + 1),
        pushRing := data.pushAddr, popRing := data.popAddr }
    let err ← ipcQueueSyncIndex q data.queueType
    return (err, q)

/-- The test `sentinel == IPC_QUEUE_INIT_DONE || sentinel ==
IPC_QUEUE_INIT_IN_PROGRESS` on the ring at `a`, which loads the sentinel once
for each side of the disjunction. -/
def ringIsLive (a : ℕ) : Drv Bool := do
  let sentinel ← load64 a
  if sentinel = ipcQueueInitDone then
    return true
  else
    let sentinel ← load64 a
    return decide (sentinel = ipcQueueInitInProgress)

/-- Clears the local ring of a queue that is initialized or initializing, and
forgets the ring. -/
def ipcQueueFree (q : IpcQueue) : Drv IpcQueue := do
  if q.pushRing = 0 then
    return q
  else
    let live ← ringIsLive q.pushRing
    if live then
      store64 q.pushRing 0
      store32 (q.pushRing + 8) 0
      store32 (q.pushRing + 12) 0
      return { q with elemNum := 0, elemSize := 0, pushRing := 0 }
    else
      return { q with pushRing := 0 }

/-- The footprint of a queue in local memory: ring control data and ring. -/
def ipcQueueMemSize (q : IpcQueue) : ℕ :=
  u32 (sizeofIpcRing + u32 (q.elemNum * q.elemSize))
