import IpcShm.Interleaving
import IpcShm.DataPath

/-!
# The steps of initializing and freeing an unmanaged channel

An unmanaged channel has no queue. Each peer has a header with a sentinel and
two counters: how often it transmitted, and how often it saw the other
transmit. The header is initialized by the same kind of handshake as a queue:
look at the other's sentinel, mark one's own, look again, then either take
over the counters of the other, crosswise, or start from zero.

This file says what a single memory step of that code can do (`UchanMove`,
`UchanFreeMove`), and what a whole transmission and a whole check do
(`ipcShmUnmanagedTx_uchan`, `ipcChannelRx_uchan`).
-/

/-! ## The header in memory -/

namespace ByteMem

variable (m : ByteMem)

/-- The sentinel of an unmanaged channel. -/
def uchanSentinel (off : ℕ) : ℕ := m.load 4 off

/-- Its `tx_count`. -/
def txCount (off : ℕ) : ℕ := m.load 4 (off + 4)

/-- Its `remote_tx_count`. -/
def remoteTxCount (off : ℕ) : ℕ := m.load 4 (off + 8)

variable {m} {off v : ℕ}

theorem txCount_lt (m : ByteMem) (off : ℕ) : m.txCount off < 2 ^ 32 := load_lt m 4 (off + 4)

theorem remoteTxCount_lt (m : ByteMem) (off : ℕ) : m.remoteTxCount off < 2 ^ 32 :=
  load_lt m 4 (off + 8)

@[simp] theorem uchanSentinel_store_sentinel (h : v < 2 ^ 32) :
    (m.store 4 off v).uchanSentinel off = v := load_store_self_of_lt m (by omega)

@[simp] theorem txCount_store_sentinel :
    (m.store 4 off v).txCount off = m.txCount off := load_store_of_disjoint m (by omega)

@[simp] theorem remoteTxCount_store_sentinel :
    (m.store 4 off v).remoteTxCount off = m.remoteTxCount off :=
  load_store_of_disjoint m (by omega)

@[simp] theorem uchanSentinel_store_tx :
    (m.store 4 (off + 4) v).uchanSentinel off = m.uchanSentinel off :=
  load_store_of_disjoint m (by omega)

@[simp] theorem txCount_store_tx (h : v < 2 ^ 32) : (m.store 4 (off + 4) v).txCount off = v :=
  load_store_self_of_lt m (by omega)

@[simp] theorem remoteTxCount_store_tx :
    (m.store 4 (off + 4) v).remoteTxCount off = m.remoteTxCount off :=
  load_store_of_disjoint m (by omega)

@[simp] theorem uchanSentinel_store_remoteTx :
    (m.store 4 (off + 8) v).uchanSentinel off = m.uchanSentinel off :=
  load_store_of_disjoint m (by omega)

@[simp] theorem txCount_store_remoteTx :
    (m.store 4 (off + 8) v).txCount off = m.txCount off := load_store_of_disjoint m (by omega)

@[simp] theorem remoteTxCount_store_remoteTx (h : v < 2 ^ 32) :
    (m.store 4 (off + 8) v).remoteTxCount off = v := load_store_self_of_lt m (by omega)

end ByteMem

/-- **One unmanaged channel of two peers**, with the rest of their private
data. -/
structure UchanCfg where
  μ : Side → ShmMap
  /-- Offset of the header in the windows. -/
  off : ℕ
  inst : Side → ℕ
  chanId : Side → ℕ
  /-- What a peer keeps besides the channel. -/
  base : Side → Driver
  /-- The header comes after the state of the instance. -/
  header_le : sizeofIpcShmGlobal ≤ off
  fits : ∀ s, off + sizeofIpcChannelUmem ≤ (μ s).size

namespace UchanCfg

variable (c : UchanCfg) (s : Side)

/-- The private data of a peer that is up, with this channel. -/
def driver (chan : IpcShmChannel) : Driver :=
  ((c.base s).setOs (c.inst s) (c.μ s).os).setPriv (c.inst s)
    { ((c.base s).priv (c.inst s)).setChannel (c.chanId s) chan with
      global := (c.μ s).localShm }

/-- What a peer runs to initialize the channel. -/
def initProg (chan : IpcShmChannel) (cfg : IpcShmUnmanagedCfg) : Drv (ℤ × IpcShmChannel) :=
  ipcShmInitChannels (c.μ s).os (c.μ s).size chan (c.chanId s) ((c.μ s).localShm + c.off)
    ((c.μ s).remoteShm + c.off) (some (.unmanaged cfg))

/-- **The channel is mapped** where the windows have it. -/
structure At (chan : IpcShmChannel) : Prop where
  type_eq : chan.type = .unmanaged
  local_eq : chan.localMem = (c.μ s).localShm + c.off
  remote_eq : chan.remoteMem = (c.μ s).remoteShm + c.off

namespace At

variable {c s} {chan : IpcShmChannel} {shm : Shm} (h : c.At s chan)
include h

theorem localMem_ne : chan.localMem ≠ 0 := by
  have := (c.μ s).localShm_pos
  rw [h.local_eq]
  omega

theorem load_local {k : ℕ} (hk : k + 4 ≤ sizeofIpcChannelUmem) :
    memHandle (c.μ s) s (.load 4 (chan.localMem + k)) shm
      = some ((shm s).load 4 (c.off + k), shm) := by
  have := c.fits s
  rw [h.local_eq, Nat.add_assoc]
  exact memHandle_load_local (by omega)

theorem load_remote {k : ℕ} (hk : k + 4 ≤ sizeofIpcChannelUmem) :
    memHandle (c.μ s) s (.load 4 (chan.remoteMem + k)) shm
      = some ((shm s.other).load 4 (c.off + k), shm) := by
  have := c.fits s
  rw [h.remote_eq, Nat.add_assoc]
  exact memHandle_load_remote (by omega) (by decide)

theorem store_local {k v : ℕ} (hk : k + 4 ≤ sizeofIpcChannelUmem) :
    memHandle (c.μ s) s (.store 4 (chan.localMem + k) v) shm
      = some ((), shm.set s ((shm s).store 4 (c.off + k) v)) := by
  have := c.fits s
  rw [h.local_eq, Nat.add_assoc]
  exact memHandle_store_local (by omega)

theorem load_localSentinel : memHandle (c.μ s) s (.load 4 chan.localMem) shm
    = some ((shm s).uchanSentinel c.off, shm) :=
  h.load_local (k := 0) (by decide)

theorem load_remoteSentinel : memHandle (c.μ s) s (.load 4 chan.remoteMem) shm
    = some ((shm s.other).uchanSentinel c.off, shm) :=
  h.load_remote (k := 0) (by decide)

theorem load_remoteTx : memHandle (c.μ s) s (.load 4 (chan.remoteMem + 4)) shm
    = some ((shm s.other).txCount c.off, shm) :=
  h.load_remote (by decide)

theorem load_remoteSeen : memHandle (c.μ s) s (.load 4 (chan.remoteMem + 8)) shm
    = some ((shm s.other).remoteTxCount c.off, shm) :=
  h.load_remote (by decide)

theorem load_localTx : memHandle (c.μ s) s (.load 4 (chan.localMem + 4)) shm
    = some ((shm s).txCount c.off, shm) :=
  h.load_local (by decide)

theorem load_localSeen : memHandle (c.μ s) s (.load 4 (chan.localMem + 8)) shm
    = some ((shm s).remoteTxCount c.off, shm) :=
  h.load_local (by decide)

theorem store_sentinel {v : ℕ} : memHandle (c.μ s) s (.store 4 chan.localMem v) shm
    = some ((), shm.set s ((shm s).store 4 c.off v)) :=
  h.store_local (k := 0) (by decide)

end At

end UchanCfg

/-! ## Inside the initialization -/

/-- Where a peer stands inside `unmanaged_channel_init`. -/
inductive UchanPc where
  /-- About to load the remote sentinel the first time. -/
  | check1
  /-- About to mark its header `IN_PROGRESS`. -/
  | mark
  /-- About to load the remote sentinel the second time. -/
  | check2
  /-- About to load the remote `remote_tx_count`. -/
  | loadTx
  | storeTx (v : ℕ)
  /-- About to load the remote `tx_count`. -/
  | loadSeen
  | storeSeen (v : ℕ)
  | zeroTx
  | zeroSeen
  /-- About to mark its header `DONE`, with the counters of the other or with
  zeros. -/
  | finish (adopted : Bool)

namespace UchanPc

variable (chan : IpcShmChannel)

def finishProg : Drv (ℤ × IpcShmChannel) :=
  .op (.store 4 chan.localMem ipcUchanInitDone) (fun _ => .pure (0, chan))

def storeSeenProg (v : ℕ) : Drv (ℤ × IpcShmChannel) :=
  .op (.store 4 (chan.localMem + 8) v) (fun _ => finishProg chan)

def loadSeenProg : Drv (ℤ × IpcShmChannel) :=
  .op (.load 4 (chan.remoteMem + 4)) (storeSeenProg chan)

def storeTxProg (v : ℕ) : Drv (ℤ × IpcShmChannel) :=
  .op (.store 4 (chan.localMem + 4) v) (fun _ => loadSeenProg chan)

def loadTxProg : Drv (ℤ × IpcShmChannel) :=
  .op (.load 4 (chan.remoteMem + 8)) (storeTxProg chan)

def zeroTxProg : Drv (ℤ × IpcShmChannel) :=
  .op (.store 4 (chan.localMem + 4) 0) (fun _ => storeSeenProg chan 0)

def check2Prog : Drv (ℤ × IpcShmChannel) :=
  .op (.load 4 chan.remoteMem) (fun v =>
    if v = ipcUchanInitDone then loadTxProg chan else zeroTxProg chan)

def markProg : Drv (ℤ × IpcShmChannel) :=
  .op (.store 4 chan.localMem ipcShmUchanInitInProgress) (fun _ => check2Prog chan)

def check1Prog : Drv (ℤ × IpcShmChannel) :=
  .op (.load 4 chan.remoteMem) (fun v =>
    if v = ipcShmUchanInitInProgress then .pure (-EAGAIN, chan) else markProg chan)

/-- What is left to run at each point. -/
def prog : UchanPc → Drv (ℤ × IpcShmChannel)
  | .check1 => check1Prog chan
  | .mark => markProg chan
  | .check2 => check2Prog chan
  | .loadTx => loadTxProg chan
  | .storeTx v => storeTxProg chan v
  | .loadSeen => loadSeenProg chan
  | .storeSeen v => storeSeenProg chan v
  | .zeroTx => zeroTxProg chan
  | .zeroSeen => storeSeenProg chan 0
  | .finish _ => finishProg chan

/-- The thread a move leads to. -/
def threadOf : UchanPc ⊕ ℤ → Thread (ℤ × IpcShmChannel)
  | .inl pc => .run (pc.prog chan)
  | .inr err => .run (.pure (err, chan))

end UchanPc

namespace UchanCfg

variable (c : UchanCfg) (s : Side)

/-- The initialization either rejects its arguments, or starts with the
channel mapped. -/
theorem initProg_cases (chan : IpcShmChannel) (cfg : IpcShmUnmanagedCfg) :
    (∃ chan', chan'.localMem = chan.localMem ∧
      c.initProg s chan cfg = .pure (-EINVAL, chan')) ∨
    ∃ chan', c.At s chan' ∧ c.initProg s chan cfg = UchanPc.check1.prog chan' := by
  by_cases h : cfg.rxCb = 0 ∨ ipcShmMaxUmngSize < cfg.size.toNat
  · refine Or.inl ⟨{ chan with id := c.chanId s, type := .unmanaged }, rfl, ?_⟩
    show unmanagedChannelInit _ _ _ _ = _
    rw [unmanagedChannelInit, if_pos h]
    rfl
  · refine Or.inr ⟨{ chan with
      id := c.chanId s
      type := .unmanaged
      umng := { size := cfg.size.toNat, rxCb := cfg.rxCb, cbArg := cfg.cbArg }
      mng := { chan.mng with
        bdQueue := { chan.mng.bdQueue with
          pushRing := (c.μ s).localShm + c.off
          popRing := (c.μ s).remoteShm + c.off } } }, ⟨rfl, rfl, rfl⟩, ?_⟩
    show unmanagedChannelInit _ _ _ _ = _
    rw [unmanagedChannelInit, if_neg h]
    rfl

/-- **What a step inside the initialization does.** -/
inductive Move (shm : Shm) : UchanPc → UchanPc ⊕ ℤ → Shm → Prop where
  | busy (h : (shm s.other).uchanSentinel c.off = ipcShmUchanInitInProgress) :
      Move shm .check1 (.inr (-EAGAIN)) shm
  | check1 (h : (shm s.other).uchanSentinel c.off ≠ ipcShmUchanInitInProgress) :
      Move shm .check1 (.inl .mark) shm
  | mark : Move shm .mark (.inl .check2)
      (shm.set s ((shm s).store 4 c.off ipcShmUchanInitInProgress))
  | live (h : (shm s.other).uchanSentinel c.off = ipcUchanInitDone) :
      Move shm .check2 (.inl .loadTx) shm
  | fresh (h : (shm s.other).uchanSentinel c.off ≠ ipcUchanInitDone) :
      Move shm .check2 (.inl .zeroTx) shm
  | loadTx : Move shm .loadTx (.inl (.storeTx ((shm s.other).remoteTxCount c.off))) shm
  | storeTx {v : ℕ} : Move shm (.storeTx v) (.inl .loadSeen)
      (shm.set s ((shm s).store 4 (c.off + 4) v))
  | loadSeen : Move shm .loadSeen (.inl (.storeSeen ((shm s.other).txCount c.off))) shm
  | storeSeen {v : ℕ} : Move shm (.storeSeen v) (.inl (.finish true))
      (shm.set s ((shm s).store 4 (c.off + 8) v))
  | zeroTx : Move shm .zeroTx (.inl .zeroSeen) (shm.set s ((shm s).store 4 (c.off + 4) 0))
  | zeroSeen : Move shm .zeroSeen (.inl (.finish false))
      (shm.set s ((shm s).store 4 (c.off + 8) 0))
  | finish {adopted : Bool} : Move shm (.finish adopted) (.inr 0)
      (shm.set s ((shm s).store 4 c.off ipcUchanInitDone))

variable {c s}

/-- **The moves are all an initialization can do.** -/
theorem move_of_step {chan : IpcShmChannel} (hat : c.At s chan) {pc : UchanPc} {i : ℕ}
    {shm shm' : Shm} {th : Thread (ℤ × IpcShmChannel)}
    (hs : Thread.step (c.μ s) s i (.run (pc.prog chan)) shm = some (th, shm')) :
    ∃ out, c.Move s shm pc out shm' ∧ th = UchanPc.threadOf chan out := by
  cases pc with
  | check1 =>
    rw [UchanPc.prog, UchanPc.check1Prog, Thread.step_load hat.load_remoteSentinel] at hs
    cases hs
    split
    · exact ⟨_, .busy ‹_›, rfl⟩
    · exact ⟨_, .check1 ‹_›, rfl⟩
  | mark =>
    rw [UchanPc.prog, UchanPc.markProg, Thread.step_store hat.store_sentinel] at hs
    cases hs
    exact ⟨_, .mark, rfl⟩
  | check2 =>
    rw [UchanPc.prog, UchanPc.check2Prog, Thread.step_load hat.load_remoteSentinel] at hs
    cases hs
    split
    · exact ⟨_, .live ‹_›, rfl⟩
    · exact ⟨_, .fresh ‹_›, rfl⟩
  | loadTx =>
    rw [UchanPc.prog, UchanPc.loadTxProg, Thread.step_load hat.load_remoteSeen] at hs
    cases hs
    exact ⟨_, .loadTx, rfl⟩
  | storeTx v =>
    rw [UchanPc.prog, UchanPc.storeTxProg, Thread.step_store (hat.store_local (by decide))] at hs
    cases hs
    exact ⟨_, .storeTx, rfl⟩
  | loadSeen =>
    rw [UchanPc.prog, UchanPc.loadSeenProg, Thread.step_load hat.load_remoteTx] at hs
    cases hs
    exact ⟨_, .loadSeen, rfl⟩
  | storeSeen v =>
    rw [UchanPc.prog, UchanPc.storeSeenProg,
      Thread.step_store (hat.store_local (by decide))] at hs
    cases hs
    exact ⟨_, .storeSeen, rfl⟩
  | zeroTx =>
    rw [UchanPc.prog, UchanPc.zeroTxProg, Thread.step_store (hat.store_local (by decide))] at hs
    cases hs
    exact ⟨_, .zeroTx, rfl⟩
  | zeroSeen =>
    rw [UchanPc.prog, UchanPc.storeSeenProg,
      Thread.step_store (hat.store_local (by decide))] at hs
    cases hs
    exact ⟨_, .zeroSeen, rfl⟩
  | finish adopted =>
    rw [UchanPc.prog, UchanPc.finishProg, Thread.step_store hat.store_sentinel] at hs
    cases hs
    exact ⟨_, .finish, rfl⟩

end UchanCfg

/-! ## Inside the release -/

/-- Where a peer stands inside `ipc_shm_free_channel`. -/
inductive UchanFreePc where
  | clearSentinel
  | clearTx
  | clearSeen

namespace UchanFreePc

variable (chan : IpcShmChannel)

/-- The channel after its release. -/
def freed : IpcShmChannel :=
  { chan with mng := { chan.mng with bdQueue := { chan.mng.bdQueue with pushRing := 0 } } }

def clearSeenProg : Drv IpcShmChannel :=
  .op (.store 4 (chan.localMem + 8) 0) (fun _ => .pure (freed chan))

def clearTxProg : Drv IpcShmChannel :=
  .op (.store 4 (chan.localMem + 4) 0) (fun _ => clearSeenProg chan)

def clearSentinelProg : Drv IpcShmChannel :=
  .op (.store 4 chan.localMem 0) (fun _ => clearTxProg chan)

/-- What is left to run at each point. -/
def prog : UchanFreePc → Drv IpcShmChannel
  | .clearSentinel => clearSentinelProg chan
  | .clearTx => clearTxProg chan
  | .clearSeen => clearSeenProg chan

/-- The thread a move leads to. -/
def threadOf : Option UchanFreePc → Thread IpcShmChannel
  | some pc => .run (pc.prog chan)
  | none => .run (.pure (freed chan))

end UchanFreePc

namespace UchanCfg

variable (c : UchanCfg) (s : Side)

/-- **What a step inside the release does.** -/
inductive FreeMove (shm : Shm) : UchanFreePc → Option UchanFreePc → Shm → Prop where
  | clearSentinel : FreeMove shm .clearSentinel (some .clearTx)
      (shm.set s ((shm s).store 4 c.off 0))
  | clearTx : FreeMove shm .clearTx (some .clearSeen)
      (shm.set s ((shm s).store 4 (c.off + 4) 0))
  | clearSeen : FreeMove shm .clearSeen none (shm.set s ((shm s).store 4 (c.off + 8) 0))

variable {c s}

theorem ipcShmFreeChannel_of_null {chan : IpcShmChannel} (h : chan.localMem = 0) :
    ipcShmFreeChannel chan .unmanaged = .pure chan := by
  rw [ipcShmFreeChannel, if_neg (not_not.mpr h)]
  rfl

theorem ipcShmFreeChannel_of_at {chan : IpcShmChannel} (h : c.At s chan) :
    ipcShmFreeChannel chan .unmanaged = UchanFreePc.clearSentinel.prog chan := by
  rw [ipcShmFreeChannel, if_pos h.localMem_ne]
  rfl

/-- **The moves are all a release can do.** -/
theorem freeMove_of_step {chan : IpcShmChannel} (hat : c.At s chan) {pc : UchanFreePc} {i : ℕ}
    {shm shm' : Shm} {th : Thread IpcShmChannel}
    (hs : Thread.step (c.μ s) s i (.run (pc.prog chan)) shm = some (th, shm')) :
    ∃ out, c.FreeMove s shm pc out shm' ∧ th = UchanFreePc.threadOf chan out := by
  cases pc with
  | clearSentinel =>
    rw [UchanFreePc.prog, UchanFreePc.clearSentinelProg,
      Thread.step_store hat.store_sentinel] at hs
    cases hs
    exact ⟨_, .clearSentinel, rfl⟩
  | clearTx =>
    rw [UchanFreePc.prog, UchanFreePc.clearTxProg,
      Thread.step_store (hat.store_local (by decide))] at hs
    cases hs
    exact ⟨_, .clearTx, rfl⟩
  | clearSeen =>
    rw [UchanFreePc.prog, UchanFreePc.clearSeenProg,
      Thread.step_store (hat.store_local (by decide))] at hs
    cases hs
    exact ⟨_, .clearSeen, rfl⟩

end UchanCfg

/-! ## Whole calls -/

/-- Shared memory answers, and the calls of the callback are counted. -/
def countingHandle (μ : ShmMap) (s : Side) : (o : Op) → Shm × ℕ → Option (o.Ret × (Shm × ℕ))
  | .rxCbUnmanaged _ _ _ _ _, w => some ((), (w.1, w.2 + 1))
  | o, w => (memHandle μ s o w.1).map (fun r => (r.1, (r.2, w.2)))

theorem countingHandle_load {μ : ShmMap} {s : Side} {n a v : ℕ} {shm shm' : Shm}
    (h : memHandle μ s (.load n a) shm = some (v, shm')) (calls : ℕ) :
    countingHandle μ s (.load n a) (shm, calls) = some (v, (shm', calls)) := by
  show (memHandle μ s (.load n a) shm).map _ = _
  rw [h]
  rfl

theorem countingHandle_store {μ : ShmMap} {s : Side} {n a v : ℕ} {shm shm' : Shm}
    (h : memHandle μ s (.store n a v) shm = some ((), shm')) (calls : ℕ) :
    countingHandle μ s (.store n a v) (shm, calls) = some ((), (shm', calls)) := by
  show (memHandle μ s (.store n a v) shm).map _ = _
  rw [h]
  rfl

namespace UchanCfg

variable (c : UchanCfg) (s : Side)

/-- Both headers are marked initialized. -/
def Done (shm : Shm) : Prop :=
  ∀ t, (shm t).uchanSentinel c.off = ipcUchanInitDone

instance (shm : Shm) : Decidable (c.Done shm) :=
  decidable_of_iff ((shm .a).uchanSentinel c.off = ipcUchanInitDone ∧
      (shm .b).uchanSentinel c.off = ipcUchanInitDone)
    ⟨fun h t => by cases t; exacts [h.1, h.2], fun h => ⟨h .a, h .b⟩⟩

variable {c s} {chan : IpcShmChannel} {shm : Shm}

theorem done_iff : c.Done shm ↔ (shm s).uchanSentinel c.off = ipcUchanInitDone ∧
    (shm s.other).uchanSentinel c.off = ipcUchanInitDone := by
  refine ⟨fun h => ⟨h s, h s.other⟩, fun h t => ?_⟩
  rcases Side.eq_or_eq_other s t with rfl | rfl
  · exact h.1
  · exact h.2

/-- The integrity check, however shared memory answers its loads. -/
theorem ipcCheckUchanIntegrity_of {σ : Type} {h : (o : Op) → σ → Option (o.Ret × σ)} {w : σ}
    (hl : h (.load 4 chan.localMem) w = some ((shm s).uchanSentinel c.off, w))
    (hr : h (.load 4 chan.remoteMem) w = some ((shm s.other).uchanSentinel c.off, w)) :
    (ipcCheckUchanIntegrity chan).run h w = some (if c.Done shm then 0 else -EINVAL, w) := by
  rw [ipcCheckUchanIntegrity, load32_bind, Program.run_op_of hl]
  by_cases hld : (shm s).uchanSentinel c.off = ipcUchanInitDone
  · rw [if_pos hld, load32_bind, Program.run_op_of hr]
    by_cases hrd : (shm s.other).uchanSentinel c.off = ipcUchanInitDone
    · rw [if_pos hrd, if_pos (done_iff.mpr ⟨hld, hrd⟩)]
      rfl
    · rw [if_neg hrd, if_neg (fun h => hrd (done_iff.mp h).2)]
      rfl
  · rw [if_neg hld, if_neg (fun h => hld (done_iff.mp h).1)]
    rfl

/-- **A check**: with both headers initialized and a counter that moved, the
counter is saved and the callback is called; otherwise nothing happens. -/
theorem ipcChannelRx_uchan (hat : c.At s chan) (budget calls : ℕ) :
    (ipcChannelRx (c.driver s chan) (c.inst s) (c.chanId s) budget).run
        (countingHandle (c.μ s) s) (shm, calls)
      = if c.Done shm ∧ (shm s.other).txCount c.off ≠ (shm s).remoteTxCount c.off then
          some (budget, (shm.set s ((shm s).store 4 (c.off + 8) ((shm s.other).txCount c.off)),
            calls + 1))
        else some (0, (shm, calls)) := by
  have hchan : ((c.driver s chan).priv (c.inst s)).channels (c.chanId s) = chan := by
    simp only [driver, Driver.setPriv, IpcShmPriv.setChannel, Function.update_self]
  have hcheck : (ipcCheckUchanIntegrity chan).run (countingHandle (c.μ s) s) (shm, calls)
      = some (if c.Done shm then 0 else -EINVAL, (shm, calls)) :=
    ipcCheckUchanIntegrity_of (countingHandle_load hat.load_localSentinel calls)
      (countingHandle_load hat.load_remoteSentinel calls)
  rw [ipcChannelRx, hchan, if_pos hat.type_eq, Program.run_bind_of hcheck]
  by_cases hd : c.Done shm
  · rw [if_pos hd, if_pos rfl, load32_bind,
      Program.run_op_of (countingHandle_load hat.load_remoteTx calls), load32_bind,
      Program.run_op_of (countingHandle_load hat.load_localSeen calls)]
    by_cases hne : (shm s.other).txCount c.off ≠ (shm s).remoteTxCount c.off
    · rw [if_pos hne, if_pos ⟨hd, hne⟩, store32_bind,
        Program.run_op_of (countingHandle_store (hat.store_local (by decide)) calls)]
      rfl
    · rw [if_neg hne, if_neg (fun h => hne h.2)]
      rfl
  · rw [if_neg hd, if_neg (by decide), if_neg (fun h => hd h.1)]
    rfl

/-- Asking whether the remote is ready changes nothing. -/
theorem isRemoteReady_uchan (chan : IpcShmChannel) (shm : Shm) :
    ∃ ready, (ipcShmIsRemoteReady (c.driver s chan) (c.inst s)).run (memHandle (c.μ s) s) shm
      = some (ready, shm) := by
  have h8 : 0 + 8 ≤ (c.μ s).size := by
    have h := c.fits s
    have h' := c.header_le
    unfold sizeofIpcShmGlobal at h'
    omega
  have hlocal : memHandle (c.μ s) s (.load 8 (c.μ s).localShm) shm
      = some ((shm s).load 8 0, shm) := memHandle_load_local h8
  have hremote : memHandle (c.μ s) s (.load 8 (c.μ s).os.remoteShm) shm
      = some ((shm s.other).load 8 0, shm) := memHandle_load_remote h8 (by decide)
  have hos : (c.driver s chan).os (c.inst s) = (c.μ s).os := by
    simp only [driver, Driver.setPriv, Driver.setOs, Function.update_self]
  have hglobal : ((c.driver s chan).priv (c.inst s)).global = (c.μ s).localShm := by
    simp only [driver, Driver.setPriv, Function.update_self]
  have hstate : ∃ st, (ipcInstanceIsFree (c.driver s chan) (c.inst s)).run (memHandle (c.μ s) s)
      shm = some (st, shm) := by
    rw [ipcInstanceIsFree]
    split
    · exact ⟨_, rfl⟩
    · rw [hglobal, if_neg (Nat.pos_iff_ne_zero.mp (c.μ s).localShm_pos), load64_bind,
        Program.run_op_of hlocal]
      split
      · exact ⟨_, rfl⟩
      · exact ⟨_, rfl⟩
  obtain ⟨st, hst⟩ := hstate
  rw [ipcShmIsRemoteReady, Program.run_bind_of hst]
  split
  · exact ⟨_, rfl⟩
  · rw [hos, load64_bind, Program.run_op_of hremote]
    split
    · exact ⟨_, rfl⟩
    · exact ⟨_, rfl⟩

/-- **A transmission** succeeds only with both headers initialized, and then
adds one to the counter; a failed one changes nothing. -/
theorem ipcShmUnmanagedTx_uchan (hat : c.At s chan) (shm : Shm) :
    ∃ err shm', (ipcShmUnmanagedTx (c.driver s chan) (c.inst s) (c.chanId s)).run
        (memHandle (c.μ s) s) shm = some (err, shm') ∧
      (err ≠ 0 → shm' = shm) ∧
      (err = 0 → c.Done shm ∧
        shm' = shm.set s ((shm s).store 4 (c.off + 4) (u32 ((shm s).txCount c.off + 1)))) := by
  have hchan : ((c.driver s chan).priv (c.inst s)).channels (c.chanId s) = chan := by
    simp only [driver, Driver.setPriv, IpcShmPriv.setChannel, Function.update_self]
  obtain ⟨ready, hready⟩ := isRemoteReady_uchan (c := c) (s := s) chan shm
  rw [ipcShmUnmanagedTx, Program.run_bind_of hready]
  by_cases h0 : ready = 0
  · rw [if_neg (not_not.mpr h0)]
    cases hget : getUnmanagedChan (c.driver s chan) (c.inst s) (c.chanId s) with
    | none => exact ⟨_, shm, rfl, fun _ => rfl, fun h => absurd h (by decide)⟩
    | some chan' =>
      obtain rfl : chan' = chan := (getUnmanagedChan_eq_some hget).2.2.trans hchan
      dsimp only
      rw [Program.run_bind_of (ipcCheckUchanIntegrity_of hat.load_localSentinel
        hat.load_remoteSentinel)]
      by_cases hd : c.Done shm
      · rw [if_pos hd, if_neg (not_not.mpr rfl), load32_bind, Program.run_op_of hat.load_localTx,
          store32_bind, Program.run_op_of (hat.store_local (by decide))]
        exact ⟨0, _, rfl, fun h => absurd rfl h, fun _ => ⟨hd, rfl⟩⟩
      · rw [if_neg hd, if_pos (by decide)]
        exact ⟨_, shm, rfl, fun _ => rfl, fun h => absurd h (by decide)⟩
  · rw [if_pos h0]
    exact ⟨_, shm, rfl, fun _ => rfl, fun h => absurd h (by decide)⟩

end UchanCfg
