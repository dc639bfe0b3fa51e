import Mathlib.Algebra.Order.BigOperators.Group.Finset
import Mathlib.Algebra.Order.Ring.Nat
import Mathlib.Data.UInt
import IpcShm.Program
import IpcShm.ByteMem

/-!
# Types and requests of the driver

The data of `ipc-types.h`, `ipc-queue.h` and `ipc-shm.c`, and the requests
the driver makes of what lies outside it: words and blocks of shared memory,
the OS and HW layers, the receive callbacks of the application.

Configuration fields have the fixed-width types of the source, so a
configuration that the source could not hold cannot be written. Driver data
and memory words are natural numbers, and arithmetic that the source does in
a fixed width says so: `u16`, `u32` and `u64` are the truncations of C's
unsigned conversions. A pointer is an address, with `0` for `NULL`, and a
pointer to a configuration array is an optional array.

The managed and unmanaged members of a channel share a `union`. Of the words
they share only the two pointers are ever read through one member after
having been written through the other, so those are stored once: the
`local_mem` and `remote_mem` of an unmanaged channel *are* the `push_ring`
and `pop_ring` of the managed one.
-/

/-! ## Machine arithmetic -/

/-- Conversion to `uint16_t`. -/
def u16 (n : ℕ) : ℕ := n % 2 ^ 16

/-- Conversion to `uint32_t`. -/
def u32 (n : ℕ) : ℕ := n % 2 ^ 32

/-- Conversion to `uintptr_t`. -/
def u64 (n : ℕ) : ℕ := n % 2 ^ 64

theorem u16_of_lt {n : ℕ} (h : n < 2 ^ 16) : u16 n = n := Nat.mod_eq_of_lt h

theorem u32_of_lt {n : ℕ} (h : n < 2 ^ 32) : u32 n = n := Nat.mod_eq_of_lt h

theorem u64_of_lt {n : ℕ} (h : n < 2 ^ 64) : u64 n = n := Nat.mod_eq_of_lt h

theorem u32_lt (n : ℕ) : u32 n < 2 ^ 32 := Nat.mod_lt _ (by decide)

/-! ## Error codes and constants -/

def ENOENT : ℤ := 2
def ENXIO : ℤ := 6
def EAGAIN : ℤ := 11
def ENOMEM : ℤ := 12
def EACCES : ℤ := 13
def EFAULT : ℤ := 14
def ENODEV : ℤ := 19
def EINVAL : ℤ := 22
def EOPNOTSUPP : ℤ := 95
def EADDRINUSE : ℤ := 98
def ENOBUFS : ℤ := 105

/-- Maximum number of total buffers per channel. -/
def ipcShmMaxBufsPerChannel : ℕ := 0xFFFF - 1

/-- Maximum unmanaged channel size. -/
def ipcShmMaxUmngSize : ℕ := 0xFFFF

/-- The queue is initializing. -/
def ipcQueueInitInProgress : ℕ := 0x54494E4946435049

/-- The queue is initialized. -/
def ipcQueueInitDone : ℕ := 0x474E495246435049

/-- The driver is initialized. -/
def ipcShmStateReady : ℕ := 0x3252455646435049
def ipcShmStateClear : ℕ := 0

/-- The unmanaged channel is initializing. -/
def ipcShmUchanInitInProgress : ℕ := 0x54494E49

/-- The unmanaged channel is initialized. -/
def ipcUchanInitDone : ℕ := 0x55435049

def ipcIrqNone : ℤ := -1
def ipcShmMaxChannels : ℕ := 8
def ipcShmMaxPools : ℕ := 4
def ipcShmMaxBufsPerPool : ℕ := 4096
def ipcShmMaxInstances : ℕ := 4

/-- `sizeof(struct ipc_ring)`: a 64-bit sentinel at offset 0, the write index
at 8 and the read index at 12, then the data. -/
def sizeofIpcRing : ℕ := 16

/-- `sizeof(struct ipc_channel_umem)`: a 32-bit sentinel at offset 0, the Tx
counter at 4, the copy of the remote's at 8 and four reserved bytes, then the
channel memory. -/
def sizeofIpcChannelUmem : ℕ := 16

/-- `sizeof(struct ipc_shm_global)`. -/
def sizeofIpcShmGlobal : ℕ := 8

/-- `sizeof(struct ipc_shm_bd)`. -/
def sizeofIpcShmBd : ℕ := 8

/-! ## Configuration -/

/-- `enum ipc_shm_channel_type`, with the values it does not name. -/
inductive IpcShmChannelType where
  | managed
  | unmanaged
  | invalid
  deriving DecidableEq, Repr

/-- `enum ipc_shm_queue_type`. -/
inductive IpcShmQueueType where
  | channelQueue
  | poolQueue
  deriving DecidableEq, Repr

/-- Memory buffer pool parameters. -/
structure IpcShmPoolCfg where
  numBufs : UInt16
  bufSize : UInt32
  deriving DecidableEq, Repr

/-- Managed channel parameters. -/
structure IpcShmManagedCfg where
  numPools : UInt8
  /-- The array of pool parameters. -/
  pools : Option (ℕ → IpcShmPoolCfg)
  rxCb : ℕ
  cbArg : ℕ

/-- Unmanaged channel parameters. -/
structure IpcShmUnmanagedCfg where
  size : UInt32
  rxCb : ℕ
  cbArg : ℕ

/-- Channel parameters: the type tag with the union member it selects. -/
inductive IpcShmChannelCfg where
  | managed (cfg : IpcShmManagedCfg)
  | unmanaged (cfg : IpcShmUnmanagedCfg)
  | invalid

/-- The type tag. -/
def IpcShmChannelCfg.type : IpcShmChannelCfg → IpcShmChannelType
  | .managed _ => .managed
  | .unmanaged _ => .unmanaged
  | .invalid => .invalid

/-- `enum ipc_shm_core_type`, with the values it does not name. -/
inductive IpcShmCoreType where
  | default
  | a53
  | m7
  | m4
  | z7
  | z4
  | z2
  | r52
  | m33
  | bbe32
  | kq8
  | invalid
  deriving DecidableEq, Repr

/-- `enum ipc_shm_core_index`, with the values it does not name. -/
inductive IpcShmCoreIndex where
  | index0
  | index1
  | index2
  | index3
  | index4
  | index5
  | index6
  | index7
  | invalid
  deriving DecidableEq, Repr

/-- The core a remote interrupt is triggered on. -/
structure IpcShmRemoteCore where
  type : IpcShmCoreType
  index : IpcShmCoreIndex
  deriving DecidableEq, Repr

/-- The core targeted by the remote's interrupt, and the mask of trusted
cores. -/
structure IpcShmLocalCore where
  type : IpcShmCoreType
  index : IpcShmCoreIndex
  trusted : UInt32
  deriving DecidableEq, Repr

/-- The parameters of an instance. The core and interrupt parameters are
only passed on to the HW layer. -/
structure IpcShmCfg where
  localShmAddr : ℕ
  remoteShmAddr : ℕ
  shmSize : UInt32
  interCoreTxIrq : ℤ
  interCoreRxIrq : ℤ
  localCore : IpcShmLocalCore := { type := .default, index := .index0, trusted := 0 }
  remoteCore : IpcShmRemoteCore := { type := .default, index := .index0 }
  numChannels : UInt8
  /-- The array of channel parameters. -/
  channels : Option (ℕ → IpcShmChannelCfg)

/-! ## Driver data -/

/-- A dual-ring queue: `pushRing` is mapped in local shared memory, `popRing`
in the remote's. -/
structure IpcQueue where
  elemSize : ℕ := 0
  elemNum : ℕ := 0
  pushRing : ℕ := 0
  popRing : ℕ := 0
  deriving DecidableEq, Repr

/-- The data a queue is initialized with. -/
structure IpcQueueData where
  elemSize : ℕ
  elemNum : ℕ
  queueType : IpcShmQueueType
  pushAddr : ℕ
  popAddr : ℕ

/-- A buffer descriptor: which buffer of which pool, and how much data is in
it. The pool index is signed in the source. -/
structure IpcShmBd where
  poolId : ℤ
  bufId : ℕ
  dataSize : ℕ
  deriving DecidableEq, Repr

/-- Addresses of a pool in local and in remote memory. -/
structure IpcShmPoolAddr where
  localPoolShm : ℕ
  remotePoolShm : ℕ

/-- A buffer pool. -/
structure IpcShmPool where
  numBufs : ℕ := 0
  bufSize : ℕ := 0
  shmSize : ℕ := 0
  localPoolAddr : ℕ := 0
  remotePoolAddr : ℕ := 0
  bdQueue : IpcQueue := {}
  deriving DecidableEq, Repr

/-- A managed channel. -/
structure IpcManagedChannel where
  bdQueue : IpcQueue := {}
  numPools : ℕ := 0
  pools : ℕ → IpcShmPool := fun _ => {}
  rxCb : ℕ := 0
  cbArg : ℕ := 0

/-- An unmanaged channel, without the two pointers it shares with
`IpcManagedChannel`. -/
structure IpcUnmanagedChannel where
  size : ℕ := 0
  rxCb : ℕ := 0
  cbArg : ℕ := 0

/-- A channel. -/
structure IpcShmChannel where
  id : ℕ := 0
  type : IpcShmChannelType := .managed
  mng : IpcManagedChannel := {}
  umng : IpcUnmanagedChannel := {}

/-- The `local_mem` of an unmanaged channel, in the bytes of `push_ring`. -/
def IpcShmChannel.localMem (c : IpcShmChannel) : ℕ := c.mng.bdQueue.pushRing

/-- The `remote_mem` of an unmanaged channel, in the bytes of `pop_ring`. -/
def IpcShmChannel.remoteMem (c : IpcShmChannel) : ℕ := c.mng.bdQueue.popRing

/-- Private data of an instance, as static storage starts it. -/
structure IpcShmPriv where
  shmSize : ℕ := 0
  numChannels : ℕ := 0
  channels : ℕ → IpcShmChannel := fun _ => {}
  /-- Address of the global data in local shared memory. -/
  global : ℕ := 0

/-- What the OS layer answers to `ipc_os_get_local_shm` and
`ipc_os_get_remote_shm` after a successful `ipc_os_init`. -/
structure IpcOs where
  localShm : ℕ := 0
  remoteShm : ℕ := 0
  deriving DecidableEq, Repr

/-- Whether the OS layer has an instance initialized: `IPC_SHM_INSTANCE_DISABLED`
and `IPC_SHM_INSTANCE_ENABLED`. -/
inductive IpcOsState where
  | disabled
  | enabled
  deriving DecidableEq, Repr

/-- The driver's static data: per instance, its private data and the
addresses its windows are mapped at. -/
structure Driver where
  priv : ℕ → IpcShmPriv := fun _ => {}
  os : ℕ → IpcOs := fun _ => {}

/-- The driver with the private data of one instance replaced. -/
def Driver.setPriv (d : Driver) (inst : ℕ) (p : IpcShmPriv) : Driver :=
  { d with priv := Function.update d.priv inst p }

/-- The driver with the mapping of one instance replaced. -/
def Driver.setOs (d : Driver) (inst : ℕ) (o : IpcOs) : Driver :=
  { d with os := Function.update d.os inst o }

/-- Private data with one channel replaced. -/
def IpcShmPriv.setChannel (p : IpcShmPriv) (chanId : ℕ) (c : IpcShmChannel) :
    IpcShmPriv :=
  { p with channels := Function.update p.channels chanId c }

/-- A managed channel with one pool replaced. -/
def IpcManagedChannel.setPool (c : IpcManagedChannel) (poolId : ℕ)
    (p : IpcShmPool) : IpcManagedChannel :=
  { c with pools := Function.update c.pools poolId p }

/-! ## Buffer descriptors in memory -/

/-- A 16-bit pattern read as `int16_t`. -/
def int16OfNat (n : ℕ) : ℤ := if n < 2 ^ 15 then n else (n : ℤ) - 2 ^ 16

/-- Conversion of an unsigned value to `int8_t`. -/
def int8OfNat (n : ℕ) : ℤ :=
  if n % 2 ^ 8 < 2 ^ 7 then ((n % 2 ^ 8 : ℕ) : ℤ) else ((n % 2 ^ 8 : ℕ) : ℤ) - 2 ^ 8

/-- The 16-bit pattern of an `int16_t`. -/
def natOfInt16 (z : ℤ) : ℕ := (z % 2 ^ 16).toNat

/-- The eight bytes of a descriptor: `pool_id`, `buf_id`, `data_size`. -/
def IpcShmBd.encode (bd : IpcShmBd) : List UInt8 :=
  leBytes 2 (natOfInt16 bd.poolId) ++ leBytes 2 bd.bufId ++ leBytes 4 bd.dataSize

/-- The descriptor eight bytes stand for. -/
def IpcShmBd.decode (bs : List UInt8) : IpcShmBd where
  poolId := int16OfNat (leVal (bs.take 2))
  bufId := leVal ((bs.drop 2).take 2)
  dataSize := leVal (bs.drop 4)

@[simp] theorem IpcShmBd.encode_length (bd : IpcShmBd) : bd.encode.length = 8 := by
  simp [encode]

/-- A descriptor that fits its fields. -/
structure IpcShmBd.Fits (bd : IpcShmBd) : Prop where
  poolId_ge : -2 ^ 15 ≤ bd.poolId
  poolId_lt : bd.poolId < 2 ^ 15
  bufId_lt : bd.bufId < 2 ^ 16
  dataSize_lt : bd.dataSize < 2 ^ 32

theorem int16OfNat_natOfInt16 {z : ℤ} (h₁ : -2 ^ 15 ≤ z) (h₂ : z < 2 ^ 15) :
    int16OfNat (natOfInt16 z) = z := by
  unfold int16OfNat natOfInt16
  split <;> omega

/-- **A descriptor written to memory is read back.** -/
theorem IpcShmBd.decode_encode {bd : IpcShmBd} (h : bd.Fits) :
    decode bd.encode = bd := by
  have hp : natOfInt16 bd.poolId < 256 ^ 2 := by
    unfold natOfInt16
    omega
  have hb : bd.bufId < 256 ^ 2 := by have := h.bufId_lt; omega
  have hs : bd.dataSize < 256 ^ 4 := by have := h.dataSize_lt; omega
  have h2 : bd.encode.take 2 = leBytes 2 (natOfInt16 bd.poolId) := by
    rw [encode, List.append_assoc, List.take_left' (leBytes_length 2 _)]
  have h2' : bd.encode.drop 2 = leBytes 2 bd.bufId ++ leBytes 4 bd.dataSize := by
    rw [encode, List.append_assoc, List.drop_left' (leBytes_length 2 _)]
  have h4 : bd.encode.drop 4 = leBytes 4 bd.dataSize := by
    rw [encode, List.drop_left' (by simp)]
  unfold decode
  rw [h2, h2', h4, List.take_left' (leBytes_length 2 _), leVal_leBytes,
    leVal_leBytes, leVal_leBytes, Nat.mod_eq_of_lt hp, Nat.mod_eq_of_lt hb,
    Nat.mod_eq_of_lt hs, int16OfNat_natOfInt16 h.poolId_ge h.poolId_lt]

/-! ## Requests -/

/-- **What the driver asks of its environment.** -/
inductive Op where
  /-- A word of `n` bytes at address `a`. -/
  | load (n a : ℕ)
  /-- Store the word `v` of `n` bytes at address `a`. -/
  | store (n a v : ℕ)
  /-- `memcpy` out of shared memory. -/
  | memcpyFrom (a n : ℕ)
  /-- `memcpy` into shared memory. -/
  | memcpyTo (a : ℕ) (bs : List UInt8)
  /-- A read of `pools[i]` outside the array: whatever lies there. -/
  | poolsOutOfBounds (i : ℤ)
  /-- An operation C leaves undefined: a division by zero, a write outside
  an array, an access through `NULL`. -/
  | undefinedBehaviour
  | ipcHwInit (inst : ℕ) (cfg : IpcShmCfg)
  | ipcHwFree (inst : ℕ)
  | ipcHwIrqEnable (inst : ℕ)
  | ipcHwIrqDisable (inst : ℕ)
  | ipcHwIrqNotify (inst : ℕ)
  | ipcOsInit (inst : ℕ) (cfg : IpcShmCfg)
  | ipcOsFree (inst : ℕ)
  /-- The receive callback of a managed channel. -/
  | rxCb (cb cbArg inst chanId buf size : ℕ)
  /-- The receive callback of an unmanaged channel. -/
  | rxCbUnmanaged (cb cbArg inst chanId mem : ℕ)

/-- The type of the reply to a request. `ipc_os_init` answers with its error
code and the addresses it mapped. -/
@[reducible] def Op.Ret : Op → Type
  | .load _ _ => ℕ
  | .store _ _ _ => Unit
  | .memcpyFrom _ _ => List UInt8
  | .memcpyTo _ _ => Unit
  | .poolsOutOfBounds _ => IpcShmPool
  | .undefinedBehaviour => Empty
  | .ipcHwInit _ _ => ℤ
  | .ipcHwFree _ => Unit
  | .ipcHwIrqEnable _ => Unit
  | .ipcHwIrqDisable _ => Unit
  | .ipcHwIrqNotify _ => Unit
  | .ipcOsInit _ _ => ℤ × IpcOs
  | .ipcOsFree _ => Unit
  | .rxCb _ _ _ _ _ _ => Unit
  | .rxCbUnmanaged _ _ _ _ _ => Unit

/-- A driver program. -/
abbrev Drv := Program Op Op.Ret

/-- A `volatile uint32_t` load. -/
def load32 (a : ℕ) : Drv ℕ := .op (.load 4 a) .pure

/-- A `uint64_t` load. -/
def load64 (a : ℕ) : Drv ℕ := .op (.load 8 a) .pure

def store32 (a v : ℕ) : Drv Unit := .op (.store 4 a v) .pure

def store64 (a v : ℕ) : Drv Unit := .op (.store 8 a v) .pure

/-- `memcpy` of a block out of shared memory. -/
def memcpyFrom (a n : ℕ) : Drv (List UInt8) := .op (.memcpyFrom a n) .pure

/-- `memcpy` of a block into shared memory. -/
def memcpyTo (a : ℕ) (bs : List UInt8) : Drv Unit := .op (.memcpyTo a bs) .pure

def ipcHwInit (inst : ℕ) (cfg : IpcShmCfg) : Drv ℤ := .op (.ipcHwInit inst cfg) .pure

def ipcHwFree (inst : ℕ) : Drv Unit := .op (.ipcHwFree inst) .pure

def ipcHwIrqEnable (inst : ℕ) : Drv Unit := .op (.ipcHwIrqEnable inst) .pure

def ipcHwIrqDisable (inst : ℕ) : Drv Unit := .op (.ipcHwIrqDisable inst) .pure

def ipcHwIrqNotify (inst : ℕ) : Drv Unit := .op (.ipcHwIrqNotify inst) .pure

def ipcOsInit (inst : ℕ) (cfg : IpcShmCfg) : Drv (ℤ × IpcOs) :=
  .op (.ipcOsInit inst cfg) .pure

def ipcOsFree (inst : ℕ) : Drv Unit := .op (.ipcOsFree inst) .pure

/-- Undefined behaviour, from which no program continues. -/
def undefinedBehaviour {α : Type} : Drv α :=
  .op .undefinedBehaviour (fun e => nomatch e)

/-- `a % b` on unsigned operands. -/
def remU (a b : ℕ) : Drv ℕ :=
  if b = 0 then undefinedBehaviour else .pure (a % b)

/-- `a / b` on unsigned operands. -/
def divU (a b : ℕ) : Drv ℕ :=
  if b = 0 then undefinedBehaviour else .pure (a / b)

section Requests

variable {α : Type}

@[simp] theorem load32_bind (a : ℕ) (f : ℕ → Drv α) :
    (load32 a >>= f) = .op (.load 4 a) f := rfl

@[simp] theorem load64_bind (a : ℕ) (f : ℕ → Drv α) :
    (load64 a >>= f) = .op (.load 8 a) f := rfl

@[simp] theorem store32_bind (a v : ℕ) (f : Unit → Drv α) :
    (store32 a v >>= f) = .op (.store 4 a v) f := rfl

@[simp] theorem store64_bind (a v : ℕ) (f : Unit → Drv α) :
    (store64 a v >>= f) = .op (.store 8 a v) f := rfl

@[simp] theorem memcpyFrom_bind (a n : ℕ) (f : List UInt8 → Drv α) :
    (memcpyFrom a n >>= f) = .op (.memcpyFrom a n) f := rfl

@[simp] theorem memcpyTo_bind (a : ℕ) (bs : List UInt8) (f : Unit → Drv α) :
    (memcpyTo a bs >>= f) = .op (.memcpyTo a bs) f := rfl

@[simp] theorem ipcHwInit_bind (inst : ℕ) (cfg : IpcShmCfg) (f : ℤ → Drv α) :
    (ipcHwInit inst cfg >>= f) = .op (.ipcHwInit inst cfg) f := rfl

@[simp] theorem ipcHwFree_bind (inst : ℕ) (f : Unit → Drv α) :
    (ipcHwFree inst >>= f) = .op (.ipcHwFree inst) f := rfl

@[simp] theorem ipcHwIrqEnable_bind (inst : ℕ) (f : Unit → Drv α) :
    (ipcHwIrqEnable inst >>= f) = .op (.ipcHwIrqEnable inst) f := rfl

@[simp] theorem ipcHwIrqDisable_bind (inst : ℕ) (f : Unit → Drv α) :
    (ipcHwIrqDisable inst >>= f) = .op (.ipcHwIrqDisable inst) f := rfl

@[simp] theorem ipcHwIrqNotify_bind (inst : ℕ) (f : Unit → Drv α) :
    (ipcHwIrqNotify inst >>= f) = .op (.ipcHwIrqNotify inst) f := rfl

@[simp] theorem ipcOsInit_bind (inst : ℕ) (cfg : IpcShmCfg)
    (f : ℤ × IpcOs → Drv α) :
    (ipcOsInit inst cfg >>= f) = .op (.ipcOsInit inst cfg) f := rfl

@[simp] theorem ipcOsFree_bind (inst : ℕ) (f : Unit → Drv α) :
    (ipcOsFree inst >>= f) = .op (.ipcOsFree inst) f := rfl

theorem remU_of_pos {a b : ℕ} (h : 0 < b) : remU a b = .pure (a % b) :=
  if_neg (by omega)

theorem divU_of_pos {a b : ℕ} (h : 0 < b) : divU a b = .pure (a / b) :=
  if_neg (by omega)

end Requests
