import IpcShm.Instance

/-!
# Buffers in transit

The data path of `ipc-shm.c`: acquiring a buffer, transmitting it, receiving
it and releasing it, and the counter exchange of unmanaged channels. None of
these functions changes the private data of the instance; what they change is
shared memory.

The receive loops are written over an arbitrary set of requests. What a
channel's receive function does is a parameter of the fair scheduling around
it (`rxRounds`), and where the messages come from is a parameter of the loop
that drains a managed channel (`drainChannel`).
-/

/-- Subtraction of addresses. -/
def subU64 (a b : ℕ) : ℕ := (a + 2 ^ 64 - b) % 2 ^ 64

/-! ## Readiness and integrity -/

/-- Whether the remote is initialized. -/
def ipcShmIsRemoteReady (d : Driver) (inst : ℕ) : Drv ℤ := do
  let state ← ipcInstanceIsFree d inst
  if state ≠ .used then
    return -EINVAL
  else
    let remoteState ← load64 (d.os inst).remoteShm
    if remoteState ≠ ipcShmStateReady then
      return -EAGAIN
    else
      return 0

/-- Integrity of an unmanaged channel: both headers are marked
initialized. -/
def ipcCheckUchanIntegrity (uchan : IpcShmChannel) : Drv ℤ := do
  let localSentinel ← load32 uchan.localMem
  if localSentinel = ipcUchanInitDone then
    let remoteSentinel ← load32 uchan.remoteMem
    if remoteSentinel = ipcUchanInitDone then
      return 0
    else
      return -EINVAL
  else
    return -EINVAL

/-- Integrity of the local header of an unmanaged channel. -/
def ipcCheckUchanLocalIntegrity (uchan : IpcShmChannel) : Drv ℤ := do
  let localSentinel ← load32 uchan.localMem
  if localSentinel = ipcUchanInitDone then
    return 0
  else
    return -EINVAL

/-- The loop checking the queues of the pools. -/
def checkPoolsIntegrity (pools : ℕ → IpcShmPool) : ℕ → ℕ → Drv ℤ
  | 0, _ => return 0
  | n + 1, poolId => do
    let err ← ipcQueueCheckIntegrity (pools poolId).bdQueue
    if err ≠ 0 then
      return -EINVAL
    else
      checkPoolsIntegrity pools n (poolId + 1)

/-- Integrity of a managed channel: of its queue and of the queues of all its
pools. -/
def ipcCheckMchanIntegrity (mchan : IpcManagedChannel) : Drv ℤ := do
  let err ← ipcQueueCheckIntegrity mchan.bdQueue
  if err = 0 then
    checkPoolsIntegrity mchan.pools mchan.numPools 0
  else
    return -EINVAL

/-! ## Acquire, transmit, release -/

/-- The loop looking for the first non-empty pool that accommodates the
requested size; pops its head descriptor. -/
def acquireFrom (chan : IpcManagedChannel) (memSize : ℕ) :
    ℕ → ℕ → Drv (Option (IpcShmPool × IpcShmBd))
  | 0, _ => return none
  | n + 1, poolId => do
    if (chan.pools poolId).bufSize < memSize then
      acquireFrom chan memSize n (poolId + 1)
    else
      let (err, bs) ← ipcQueuePop (chan.pools poolId).bdQueue
      if err = 0 then
        return some (chan.pools poolId, IpcShmBd.decode bs)
      else
        acquireFrom chan memSize n (poolId + 1)

/-- The address of the buffer a popped descriptor names in local memory, or
`NULL` where the buffer is not in the local window. -/
def acquiredAddr (os : IpcOs) (shmSize : ℕ) (pool : IpcShmPool) (bd : IpcShmBd) : ℕ :=
  let bufAddr := u64 (pool.localPoolAddr + u32 (bd.bufId * pool.bufSize))
  if bufAddr < os.localShm ∨ u64 (os.localShm + shmSize) < u64 (bufAddr + pool.bufSize) then
    0
  else
    bufAddr

/-- Requests a buffer for the given channel; `0` where there is none. -/
def ipcShmAcquireBuf (d : Driver) (inst chanId memSize : ℕ) : Drv ℕ := do
  let ready ← ipcShmIsRemoteReady d inst
  if ready ≠ 0 then
    return 0
  else
    match getManagedChan d inst chanId with
    | none => return 0
    | some chan =>
      if memSize = 0 then
        return 0
      else
        let err ← ipcCheckMchanIntegrity chan
        if err ≠ 0 then
          return 0
        else
          let found ← acquireFrom chan memSize chan.numPools 0
          match found with
          | none => return 0
          | some (pool, bd) =>
            return acquiredAddr (d.os inst) (d.priv inst).shmSize pool bd

/-- The address of a pool's buffers on one side. -/
def IpcShmPool.addr (pool : IpcShmPool) (remote : Bool) : ℕ :=
  if remote then pool.remotePoolAddr else pool.localPoolAddr

/-- The loop of `find_pool_for_buf`. -/
def findPoolFrom (pools : ℕ → IpcShmPool) (buf : ℕ) (remote : Bool) : ℕ → ℕ → ℤ
  | 0, _ => -EINVAL
  | n + 1, poolId =>
    let pool := pools poolId
    let addr := pool.addr remote
    let poolSize := u32 (pool.numBufs * pool.bufSize)
    if addr ≤ buf ∧ buf < u64 (addr + poolSize) then poolId
    else findPoolFrom pools buf remote n (poolId + 1)

/-- Finds the pool that owns the specified buffer. -/
def findPoolForBuf (chan : IpcManagedChannel) (buf : ℕ) (remote : Bool) : ℤ :=
  findPoolFrom chan.pools buf remote chan.numPools 0

/-- Releases a received buffer. -/
def ipcShmReleaseBuf (d : Driver) (inst chanId buf : ℕ) : Drv ℤ := do
  let state ← ipcInstanceIsFree d inst
  if state ≠ .used then
    return -EINVAL
  else
    match getManagedChan d inst chanId with
    | none => return -EINVAL
    | some chan =>
      if buf = 0 then
        return -EINVAL
      else
        let err ← ipcCheckMchanIntegrity chan
        if err ≠ 0 then
          return -EINVAL
        else
          let poolId := findPoolForBuf chan buf true
          if poolId = -EINVAL then
            return -EINVAL
          else
            let pool := chan.pools poolId.toNat
            let bufId ← divU (subU64 buf pool.remotePoolAddr) pool.bufSize
            let bd : IpcShmBd := { poolId := poolId, bufId := u16 bufId, dataSize := 0 }
            ipcQueuePush pool.bdQueue bd.encode

/-- Sends a buffer on the given channel and notifies the remote. The channel
id is an `int` that the channel lookup takes as a `uint8_t`. -/
def ipcShmTx (d : Driver) (inst : ℕ) (chanId : ℤ) (buf size : ℕ) : Drv ℤ := do
  let ready ← ipcShmIsRemoteReady d inst
  if ready ≠ 0 then
    return -EINVAL
  else
    match getManagedChan d inst (chanId % 2 ^ 8).toNat with
    | none => return -EINVAL
    | some chan =>
      if buf = 0 ∨ size = 0 then
        return -EINVAL
      else
        let err ← ipcCheckMchanIntegrity chan
        if err ≠ 0 then
          return -EINVAL
        else
          let poolId := findPoolForBuf chan buf false
          if poolId = -EINVAL then
            return -EINVAL
          else
            let pool := chan.pools poolId.toNat
            let bufId ← divU (subU64 buf pool.localPoolAddr) pool.bufSize
            let bd : IpcShmBd := { poolId := poolId, bufId := u16 bufId, dataSize := size }
            let err ← ipcQueuePush chan.bdQueue bd.encode
            if err ≠ 0 then
              return err
            else
              ipcHwIrqNotify inst
              return 0

/-- Acquires the local memory of an unmanaged channel. -/
def ipcShmUnmanagedAcquire (d : Driver) (inst chanId : ℕ) : Drv ℕ := do
  let state ← ipcInstanceIsFree d inst
  if state ≠ .used then
    return 0
  else
    match getUnmanagedChan d inst chanId with
    | none => return 0
    | some chan =>
      let err ← ipcCheckUchanLocalIntegrity chan
      if err ≠ 0 then
        return 0
      else
        return chan.localMem + sizeofIpcChannelUmem

/-- Notifies the remote that data has been written in an unmanaged
channel. -/
def ipcShmUnmanagedTx (d : Driver) (inst chanId : ℕ) : Drv ℤ := do
  let ready ← ipcShmIsRemoteReady d inst
  if ready ≠ 0 then
    return -EINVAL
  else
    match getUnmanagedChan d inst chanId with
    | none => return -EINVAL
    | some chan =>
      let err ← ipcCheckUchanIntegrity chan
      if err ≠ 0 then
        return -EINVAL
      else
        let txCount ← load32 (chan.localMem + 4)
        store32 (chan.localMem + 4) (u32 (txCount + 1))
        ipcHwIrqNotify inst
        return 0

/-! ## Receive -/

section Loops

variable {O : Type} {R : O → Type} {β : Type}

/-- The loop that drains a managed channel: at most `n` more messages, `work`
done so far. -/
def drainChannel (pop : Program O R (Option β)) (handle : β → Program O R Unit) :
    ℕ → ℕ → Program O R ℕ
  | 0, work => return work
  | n + 1, work => do
    let msg ← pop
    match msg with
    | none => return work
    | some m =>
      handle m
      drainChannel pop handle n (work + 1)

/-- One round over the channels: `n` channels left from `chanId` on, each
with the same budget. -/
def rxRound (chanRx : ℕ → ℕ → Program O R ℕ) (chanBudget : ℕ) :
    ℕ → ℕ → ℕ → Bool → Program O R (ℕ × Bool)
  | 0, _, work, moreWork => return (work, moreWork)
  | n + 1, chanId, work, moreWork => do
    let chanWork ← chanRx chanId chanBudget
    rxRound chanRx chanBudget n (chanId + 1) (u32 (work + chanWork))
      (moreWork || decide (chanWork = chanBudget))

/-- The budget of a channel in a round: an equal share of what is left, and
at least one message. -/
def chanBudget (budget work numChans : ℕ) : ℕ :=
  if (budget - work) / numChans = 0 then 1 else (budget - work) / numChans

/-- **The fair channel handling algorithm**: rounds over all channels while
there is budget left and some channel used up its share. Each such round
does work, so `budget + 1` rounds are enough; running out of rounds, like a
division by zero channels, is the program `stuck`. -/
def rxRounds (stuck : Program O R ℕ) (chanRx : ℕ → ℕ → Program O R ℕ)
    (numChans budget : ℕ) : ℕ → ℕ → Bool → Program O R ℕ
  | 0, _, _ => stuck
  | fuel + 1, work, moreWork => do
    if work < budget ∧ moreWork = true then
      if numChans = 0 then
        stuck
      else
        let r ← rxRound chanRx (chanBudget budget work numChans) numChans 0 work false
        rxRounds stuck chanRx numChans budget fuel r.1 r.2
    else
      return work

end Loops

/-- `pools[i]`, with whatever lies there where the index is out of range. -/
def IpcManagedChannel.poolAt (mchan : IpcManagedChannel) (i : ℤ) : Drv IpcShmPool :=
  if 0 ≤ i ∧ i < ipcShmMaxPools then .pure (mchan.pools i.toNat)
  else .op (.poolsOutOfBounds i) .pure

/-- Hands a received descriptor to the application, if the buffer it names is
in the remote window. -/
def handleBd (d : Driver) (inst chanId : ℕ) (bd : IpcShmBd) : Drv Unit := do
  let chan := (d.priv inst).channels chanId
  let pool ← chan.mng.poolAt bd.poolId
  let bufAddr := u64 (pool.remotePoolAddr + u32 (bd.bufId * pool.bufSize))
  if (d.os inst).remoteShm ≤ bufAddr
      ∧ u64 (bufAddr + pool.bufSize) ≤ u64 ((d.os inst).remoteShm + (d.priv inst).shmSize) then
    .op (.rxCb chan.mng.rxCb chan.mng.cbArg inst chan.id bufAddr bd.dataSize) .pure
  else
    return ()

/-- Pops the next descriptor of a channel. -/
def popBd (q : IpcQueue) : Drv (Option IpcShmBd) := do
  let (err, bs) ← ipcQueuePop q
  if err ≠ 0 then
    return none
  else
    return some (IpcShmBd.decode bs)

/-- Handles Rx for a single channel. -/
def ipcChannelRx (d : Driver) (inst chanId budget : ℕ) : Drv ℕ := do
  let chan := (d.priv inst).channels chanId
  if chan.type = .unmanaged then
    let err ← ipcCheckUchanIntegrity chan
    if err = 0 then
      let remoteTxCount ← load32 (chan.remoteMem + 4)
      let seen ← load32 (chan.localMem + 8)
      if remoteTxCount ≠ seen then
        store32 (chan.localMem + 8) remoteTxCount
        .op (.rxCbUnmanaged chan.umng.rxCb chan.umng.cbArg inst chan.id
          (chan.remoteMem + sizeofIpcChannelUmem)) (fun _ => .pure budget)
      else
        return 0
    else
      return 0
  else
    drainChannel (popBd chan.mng.bdQueue) (handleBd d inst chanId) budget 0

/-- The Rx handler of an instance. -/
def ipcShmRx (d : Driver) (inst budget : ℕ) : Drv ℕ := do
  let state ← ipcInstanceIsFree d inst
  if state ≠ .used then
    return 0
  else
    rxRounds undefinedBehaviour (ipcChannelRx d inst) (d.priv inst).numChannels budget
      (budget + 1) 0 true

/-! ## Polling -/

/-- The budget of one reception, of the softirq and of a poll alike. -/
def ipcSoftirqBudget : ℕ := 128

/-- What the OS layer keeps of an instance for its reception. -/
structure IpcOsRx where
  /-- The interrupt number, `IPC_IRQ_NONE` where the instance is polled. -/
  irqNum : ℤ
  /-- Whether the Rx handler is registered. -/
  rxCb : Bool

/-- What a successful `ipc_os_init` leaves, with the interrupt number it
found for the instance. -/
def ipcOsInitRx (cfg : IpcShmCfg) (irq : ℤ) : IpcOsRx where
  irqNum := if cfg.interCoreRxIrq = ipcIrqNone then ipcIrqNone else irq
  rxCb := true

/-- Invokes the Rx handler of an instance that has no interrupt. The handler
returns a `uint32_t`, this function an `int8_t`. -/
def ipcOsPollChannels (rx : IpcOsRx) (d : Driver) (inst : ℕ) : Drv ℤ := do
  if rx.irqNum = ipcIrqNone then
    if rx.rxCb then
      let work ← ipcShmRx d inst ipcSoftirqBudget
      return int8OfNat work
    else
      return -EINVAL
  else
    return -EOPNOTSUPP

/-- Polls the channels of an instance for messages to process. -/
def ipcShmPollChannels (rx : IpcOsRx) (d : Driver) (inst : ℕ) : Drv ℤ := do
  let state ← ipcInstanceIsFree d inst
  if state ≠ .used then
    return -EINVAL
  else
    let remoteState ← load64 (d.os inst).remoteShm
    if remoteState ≠ ipcShmStateReady then
      return -EAGAIN
    else
      ipcOsPollChannels rx d inst
