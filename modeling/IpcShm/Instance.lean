import IpcShm.Queue

/-!
# Instances: initialization and release

The part of `ipc-shm.c` that builds and tears down an instance. An instance
lays its channels out one after the other in its window, after the global
header; a managed channel is a ring followed by its pools, each a ring
followed by its buffers, and an unmanaged channel is a control header
followed by its memory. Both peers compute the same offsets from symmetric
configurations, each from the base its own OS layer mapped.

Functions that fill a structure through a pointer take the structure and
return it. Loops over an index recurse on the number of iterations left.
-/

/-- `enum ipc_shm_instance_state`. -/
inductive IpcShmInstanceState where
  | used
  | free
  | error
  deriving DecidableEq, Repr

/-- Determines whether the instance is used or not. -/
def ipcInstanceIsFree (d : Driver) (inst : ℕ) : Drv IpcShmInstanceState := do
  if ipcShmMaxInstances ≤ inst then
    return .error
  else if (d.priv inst).global = 0 then
    return .free
  else
    let state ← load64 (d.priv inst).global
    if state = ipcShmStateClear then
      return .free
    else
      return .used

/-- Channel lookup with validation of the channel id. -/
def getChannel (d : Driver) (inst chanId : ℕ) : Option IpcShmChannel :=
  if (d.priv inst).numChannels ≤ chanId then none
  else some ((d.priv inst).channels chanId)

/-- Managed channel lookup with validation. -/
def getManagedChan (d : Driver) (inst chanId : ℕ) : Option IpcManagedChannel :=
  match getChannel d inst chanId with
  | none => none
  | some chan => if chan.type ≠ .managed then none else some chan.mng

/-- Unmanaged channel lookup with validation. -/
def getUnmanagedChan (d : Driver) (inst chanId : ℕ) : Option IpcShmChannel :=
  match getChannel d inst chanId with
  | none => none
  | some chan => if chan.type ≠ .unmanaged then none else some chan

/-! ## Initialization of pools and channels -/

/-- The loop that populates a pool queue: `n` more descriptors from `bufId`
on. -/
def pushFreeBds (q : IpcQueue) (poolId : ℕ) : ℕ → ℕ → Drv ℤ
  | 0, _ => return 0
  | n + 1, bufId => do
    let bd : IpcShmBd := { poolId := poolId, bufId := bufId, dataSize := 0 }
    let err ← ipcQueuePush q bd.encode
    if err ≠ 0 then
      return err
    else
      pushFreeBds q poolId n (bufId + 1)

/-- Initializes a buffer pool. Local IPC initializes the release ring with
descriptors pointing to remote buffers, since only it may write there. -/
def ipcBufPoolInit (os : IpcOs) (shmSize : ℕ) (pool : IpcShmPool) (poolId : ℕ)
    (mngPool : IpcShmPoolAddr) (cfg : IpcShmPoolCfg) : Drv (ℤ × IpcShmPool) := do
  if ipcShmMaxBufsPerPool < cfg.numBufs.toNat then
    return (-EINVAL, pool)
  else
    let pool := { pool with numBufs := cfg.numBufs.toNat, bufSize := cfg.bufSize.toNat }
    let (err, q) ← ipcQueueInit pool.bdQueue
      { elemSize := sizeofIpcShmBd, elemNum := cfg.numBufs.toNat,
        queueType := .poolQueue, pushAddr := mngPool.localPoolShm,
        popAddr := mngPool.remotePoolShm }
    let pool := { pool with bdQueue := q }
    if err ≠ 0 then
      return (err, pool)
    else
      let queueMemSize := ipcQueueMemSize q
      let pool := { pool with
        localPoolAddr := u64 (mngPool.localPoolShm + queueMemSize)
        remotePoolAddr := u64 (mngPool.remotePoolShm + queueMemSize)
        shmSize := u32 (queueMemSize + u32 (cfg.bufSize.toNat * cfg.numBufs.toNat)) }
      -- the fit check comes after the queue header is written
      if u64 (os.localShm + shmSize) < u64 (mngPool.localPoolShm + pool.shmSize) then
        return (-ENOMEM, pool)
      else
        let err ← pushFreeBds q poolId pool.numBufs 0
        if err ≠ 0 then
          return (err, pool)
        else
          store64 q.pushRing ipcQueueInitDone
          return (0, pool)

/-- The loop counting the buffers of a channel: `0` where the pools are not
sorted by buffer size or the total is too large. -/
def totalBufs (pools : ℕ → IpcShmPoolCfg) : ℕ → ℕ → ℕ → ℕ → ℕ
  | 0, _, _, total => total
  | n + 1, poolId, prevBufSize, total =>
    if (pools poolId).bufSize.toNat < prevBufSize then 0
    else if ipcShmMaxBufsPerChannel < u32 (total + (pools poolId).numBufs.toNat) then 0
    else
      totalBufs pools n (poolId + 1) (pools poolId).bufSize.toNat
        (u32 (total + (pools poolId).numBufs.toNat))

/-- Total number of buffers of a managed channel; saves the channel
parameters. -/
def ipcGetTotalBufPerChan (chan : IpcManagedChannel) (cfg : IpcShmManagedCfg)
    (pools : ℕ → IpcShmPoolCfg) : ℕ × IpcManagedChannel :=
  (totalBufs pools cfg.numPools.toNat 0 0 0,
    { chan with rxCb := cfg.rxCb, cbArg := cfg.cbArg, numPools := cfg.numPools.toNat })

/-- The loop initializing the pools of a channel one after the other. -/
def initPools (os : IpcOs) (shmSize : ℕ) (pools : ℕ → IpcShmPoolCfg) :
    ℕ → ℕ → IpcShmPoolAddr → IpcManagedChannel → Drv (ℤ × IpcManagedChannel)
  | 0, _, _, chan => return (0, chan)
  | n + 1, poolId, addr, chan => do
    let (err, pool) ← ipcBufPoolInit os shmSize (chan.pools poolId) poolId addr
      (pools poolId)
    let chan := chan.setPool poolId pool
    if err ≠ 0 then
      return (err, chan)
    else
      initPools os shmSize pools n (poolId + 1)
        { localPoolShm := u64 (addr.localPoolShm + pool.shmSize)
          remotePoolShm := u64 (addr.remotePoolShm + pool.shmSize) } chan

/-- Initializes the queue of a managed channel and marks it initialized. -/
def initChannelQueue (q : IpcQueue) (data : IpcQueueData) : Drv (ℤ × IpcQueue) := do
  let (err, q) ← ipcQueueInit q data
  if err ≠ 0 then
    return (err, q)
  else
    store64 q.pushRing ipcQueueInitDone
    return (0, q)

/-- Initializes a managed channel at the given addresses. -/
def managedChannelInit (os : IpcOs) (shmSize : ℕ) (chan : IpcManagedChannel)
    (localShm remoteShm : ℕ) (cfg : IpcShmManagedCfg) :
    Drv (ℤ × IpcManagedChannel) := do
  if cfg.rxCb = 0 then
    return (-EINVAL, chan)
  else
    match cfg.pools with
    | none => return (-EINVAL, chan)
    | some pools =>
      if ipcShmMaxPools < cfg.numPools.toNat then
        return (-EINVAL, chan)
      else
        let (total, chan) := ipcGetTotalBufPerChan chan cfg pools
        if total = 0 then
          return (-EINVAL, chan)
        else
          let (err, q) ← initChannelQueue chan.bdQueue
            { elemSize := sizeofIpcShmBd, elemNum := u16 total,
              queueType := .channelQueue, pushAddr := localShm,
              popAddr := remoteShm }
          let chan := { chan with bdQueue := q }
          if err ≠ 0 then
            return (err, chan)
          else
            let queueMemSize := ipcQueueMemSize q
            let addr : IpcShmPoolAddr :=
              { localPoolShm := u64 (localShm + queueMemSize)
                remotePoolShm := u64 (remoteShm + queueMemSize) }
            if u64 (os.localShm + shmSize) < addr.localPoolShm then
              return (-ENOMEM, chan)
            else
              initPools os shmSize pools chan.numPools 0 addr chan

/-- Initializes an unmanaged channel at the given addresses. -/
def unmanagedChannelInit (chan : IpcShmChannel) (localShm remoteShm : ℕ)
    (cfg : IpcShmUnmanagedCfg) : Drv (ℤ × IpcShmChannel) := do
  if cfg.rxCb = 0 ∨ ipcShmMaxUmngSize < cfg.size.toNat then
    return (-EINVAL, chan)
  else
    let chan := { chan with
      umng := { size := cfg.size.toNat, rxCb := cfg.rxCb, cbArg := cfg.cbArg }
      mng := { chan.mng with
        bdQueue := { chan.mng.bdQueue with pushRing := localShm, popRing := remoteShm } } }
    let sentinel ← load32 remoteShm
    if sentinel = ipcShmUchanInitInProgress then
      return (-EAGAIN, chan)
    else
      store32 localShm ipcShmUchanInitInProgress
      let sentinel ← load32 remoteShm
      if sentinel = ipcUchanInitDone then
        let remoteTxCount ← load32 (remoteShm + 8)
        store32 (localShm + 4) remoteTxCount
        let txCount ← load32 (remoteShm + 4)
        store32 (localShm + 8) txCount
        store32 localShm ipcUchanInitDone
        return (0, chan)
      else
        store32 (localShm + 4) 0
        store32 (localShm + 8) 0
        store32 localShm ipcUchanInitDone
        return (0, chan)

/-- Initializes one channel. -/
def ipcShmInitChannels (os : IpcOs) (shmSize : ℕ) (chan : IpcShmChannel)
    (chanId localShm remoteShm : ℕ) (cfg : Option IpcShmChannelCfg) :
    Drv (ℤ × IpcShmChannel) := do
  match cfg with
  | none => return (-EINVAL, chan)
  | some cfg =>
    let chan := { chan with id := chanId, type := cfg.type }
    match cfg with
    | .managed mcfg =>
      let (err, mng) ← managedChannelInit os shmSize chan.mng localShm remoteShm mcfg
      return (err, { chan with mng := mng })
    | .unmanaged ucfg => unmanagedChannelInit chan localShm remoteShm ucfg
    | .invalid => return (-EINVAL, chan)

/-- Local memory a channel maps. -/
def getChanMemmapSize (chan : IpcShmChannel) : ℕ :=
  if chan.type = .unmanaged then u32 (sizeofIpcChannelUmem + chan.umng.size)
  else
    (List.range chan.mng.numPools).foldl
      (fun size poolId => u32 (size + (chan.mng.pools poolId).shmSize))
      (ipcQueueMemSize chan.mng.bdQueue)

/-! ## Release of channels -/

/-- The loop freeing the pool queues of a managed channel. -/
def freePools : ℕ → ℕ → IpcManagedChannel → Drv IpcManagedChannel
  | 0, _, mchan => return mchan
  | n + 1, poolId, mchan => do
    if (mchan.pools poolId).bdQueue.pushRing = 0 then
      freePools n (poolId + 1) mchan
    else
      let live ← ringIsLive (mchan.pools poolId).bdQueue.pushRing
      if live then
        let q ← ipcQueueFree (mchan.pools poolId).bdQueue
        freePools n (poolId + 1)
          (mchan.setPool poolId { mchan.pools poolId with bdQueue := q })
      else
        freePools n (poolId + 1) mchan

/-- Frees a managed channel: its queue and, if that was live, the queues of
its pools. -/
def ipcShmFreeManagedChannel (mchan : IpcManagedChannel) : Drv IpcManagedChannel := do
  let live ← ringIsLive mchan.bdQueue.pushRing
  if live then
    let q ← ipcQueueFree mchan.bdQueue
    freePools mchan.numPools 0 { mchan with bdQueue := q }
  else
    return mchan

/-- Frees a channel, read as a channel of the given type. -/
def ipcShmFreeChannel (chan : IpcShmChannel) (type : IpcShmChannelType) :
    Drv IpcShmChannel := do
  match type with
  | .managed =>
    if chan.mng.bdQueue.pushRing ≠ 0 then
      let mng ← ipcShmFreeManagedChannel chan.mng
      return { chan with mng := mng }
    else
      return chan
  | .unmanaged =>
    if chan.localMem ≠ 0 then
      store32 chan.localMem 0
      store32 (chan.localMem + 4) 0
      store32 (chan.localMem + 8) 0
      return { chan with
        mng := { chan.mng with bdQueue := { chan.mng.bdQueue with pushRing := 0 } } }
    else
      return chan
  | .invalid => return chan

/-- The loop freeing the channels of an instance, with the types a
configuration or the channels themselves give. -/
def freeChannels (type : ℕ → IpcShmChannelType) :
    ℕ → ℕ → IpcShmPriv → Drv IpcShmPriv
  | 0, _, priv => return priv
  | n + 1, chanId, priv => do
    let chan ← ipcShmFreeChannel (priv.channels chanId) (type chanId)
    freeChannels type n (chanId + 1) (priv.setChannel chanId chan)

/-- The cleanup of a failed initialization: every channel of the instance is
freed, read as the type its configuration gives it. -/
def freeConfiguredChannels (channels : Option (ℕ → IpcShmChannelCfg))
    (priv : IpcShmPriv) : Drv IpcShmPriv :=
  match channels with
  | none => return priv
  | some channels =>
    freeChannels (fun chanId => (channels chanId).type) priv.numChannels 0 priv

/-! ## Instances -/

/-- The loop initializing the channels of an instance. -/
def initChannels (os : IpcOs) (channels : Option (ℕ → IpcShmChannelCfg)) :
    ℕ → ℕ → ℕ → ℕ → IpcShmPriv → Drv (ℤ × IpcShmPriv)
  | 0, _, _, _, priv => return (0, priv)
  | n + 1, chanId, localChanShm, remoteChanShm, priv => do
    let (err, chan) ← ipcShmInitChannels os priv.shmSize (priv.channels chanId) chanId
      localChanShm remoteChanShm (channels.map (fun c => c chanId))
    let priv := priv.setChannel chanId chan
    if err ≠ 0 then
      return (err, priv)
    else
      let chanSize := getChanMemmapSize chan
      initChannels os channels n (chanId + 1) (u64 (localChanShm + chanSize))
        (u64 (remoteChanShm + chanSize)) priv

/-- Initializes one instance. -/
def ipcShmInitInstance (d : Driver) (inst : ℕ) (cfg : Option IpcShmCfg) :
    Drv (ℤ × Driver) := do
  let state ← ipcInstanceIsFree d inst
  if state = .used then
    return (-EINVAL, d)
  else
    match cfg with
    | none => return (-EINVAL, d)
    | some cfg =>
      if cfg.localShmAddr = 0 ∨ cfg.remoteShmAddr = 0 then
        return (-EINVAL, d)
      else if cfg.numChannels.toNat < 1 ∨ ipcShmMaxChannels < cfg.numChannels.toNat then
        return (-EINVAL, d)
      else if ipcShmMaxInstances ≤ inst then
        -- ipc_shm_priv_data[instance] is written without a bounds check
        undefinedBehaviour
      else
        let d := d.setPriv inst { d.priv inst with
          shmSize := cfg.shmSize.toNat, numChannels := cfg.numChannels.toNat }
        let err ← ipcHwInit inst cfg
        if err ≠ 0 then
          return (err, d)
        else
          let (err, os) ← ipcOsInit inst cfg
          if err ≠ 0 then
            ipcHwFree inst
            return (err, d)
          else
            let d := d.setOs inst os
            let priv := { d.priv inst with global := os.localShm }
            store64 os.localShm ipcShmStateClear
            let (err, priv) ← initChannels os cfg.channels priv.numChannels 0
              (u64 (os.localShm + sizeofIpcShmGlobal))
              (u64 (os.remoteShm + sizeofIpcShmGlobal)) priv
            if err ≠ 0 then
              let priv ← freeConfiguredChannels cfg.channels { priv with global := 0 }
              ipcOsFree inst
              ipcHwFree inst
              return (err, d.setPriv inst priv)
            else
              ipcHwIrqEnable inst
              store64 priv.global ipcShmStateReady
              return (0, d.setPriv inst priv)

/-- Deinitializes one instance. -/
def ipcShmFreeInstance (d : Driver) (inst : ℕ) : Drv Driver := do
  let state ← ipcInstanceIsFree d inst
  if state ≠ .used then
    return d
  else
    let priv := d.priv inst
    store64 priv.global ipcShmStateClear
    let priv := { priv with global := 0 }
    ipcHwIrqDisable inst
    let priv ← freeChannels (fun chanId => (priv.channels chanId).type)
      priv.numChannels 0 priv
    ipcOsFree inst
    ipcHwFree inst
    return d.setPriv inst priv
