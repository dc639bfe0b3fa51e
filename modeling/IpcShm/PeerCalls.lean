import IpcShm.Peers

/-!
# The data path on lanes

What `ipc_shm_acquire_buf`, `ipc_shm_tx` and `ipc_shm_release_buf` do when the
windows carry lanes (`Peers.Rep`). Each of the three calls returns, and its
outcome is one of a few: the call is turned down and changes nothing, or it
moves one buffer. Nothing is asked of the arguments: a wrong address or a
channel that does not exist is turned down by the code.

The two address translations are here. A buffer that is acquired has an
address in the local window and a descriptor that names pool and index
(`acquiredAddr_eq`); the pool that owns an address, and the quotient that gives
back the index, are found by `findPoolForBuf_outcome`.
-/

namespace Peers

variable {P : Peers} {s : Side} {d : Driver} {shm : Shm} {L : Lanes} {c : ℕ}

theorem symmetric_shape (P : Peers) (s : Side) : (P.cfg s).Symmetric P.shape := by
  cases s with
  | a => exact (P.symmetric .a).refl_left
  | b => exact P.symmetric .b

theorem header_le (P : Peers) (s : Side) : 8 ≤ (P.μ s).size := by
  have hle : P.shape.chanOff 0 ≤ P.shape.footprint := P.shape.chanOff_mono (Nat.zero_le _)
  have hhead : P.shape.chanOff 0 = 8 := by simp [IpcShmCfg.chanOff, sizeofIpcShmGlobal]
  have := P.fits_window s
  omega

/-! ## The checks -/

/-- **The remote of an instance in use is ready.** -/
theorem isRemoteReady_run (hup : P.Up s d) (hused : (shm s).load 8 0 ≠ ipcShmStateClear)
    (hready : (shm s.other).load 8 0 = ipcShmStateReady) :
    (ipcShmIsRemoteReady d (P.inst s)).run (memHandle (P.μ s) s) shm = some (0, shm) := by
  have hload : memHandle (P.μ s) s (.load 8 ((P.μ s).remoteShm + 0)) shm
      = some ((shm s.other).load 8 0, shm) :=
    memHandle_load_remote (by have := P.header_le s; omega) (by decide)
  rw [Nat.add_zero] at hload
  rw [ipcShmIsRemoteReady, Program.run_bind_of (ipcInstanceIsFree_run_used hup.laid hup.inst_lt
      (P.header_le s) hused), if_neg (not_not.mpr rfl), hup.os_eq, load64_bind,
    show (P.μ s).os.remoteShm = (P.μ s).remoteShm from rfl, Program.run_op_of hload, hready]
  rfl

theorem Rep.used (h : P.Rep shm L) (s : Side) : (shm s).load 8 0 ≠ ipcShmStateClear := by
  rw [h.ready s]
  decide

/-- The queues of a channel are marked initialized on both sides. -/
def ChannelDone (P : Peers) (shm : Shm) (c : ℕ) : Prop :=
  ∀ id, P.Has id → id.chanId = c → shm.Done (P.off id)

theorem Rep.channelDone (h : P.Rep shm L) (c : ℕ) : P.ChannelDone shm c :=
  fun id hid _ => h.done id hid

theorem checkPoolsIntegrity_run (hup : P.Up s d) (hdone : P.ChannelDone shm c) (n p : ℕ)
    (hn : ∀ q, q < p + n → P.Has (.pool c q)) :
    (checkPoolsIntegrity ((d.priv (P.inst s)).channels c).mng.pools n p).run
      (memHandle (P.μ s) s) shm = some (0, shm) := by
  induction n generalizing p with
  | zero => rfl
  | succ n ih =>
    have hid := hn p (by omega)
    have hint := ipcQueueCheckIntegrity_run (s := s) (hup.queue_at hid) (hdone _ hid rfl)
    rw [checkPoolsIntegrity]
    exact (Program.run_bind_of hint).trans (ih (p + 1) (fun q hq => hn q (by omega)))

/-- **Every queue of a channel passes the integrity check.** -/
theorem ipcCheckMchanIntegrity_run (hup : P.Up s d) (hdone : P.ChannelDone shm c)
    (hid : P.Has (.chan c)) :
    (ipcCheckMchanIntegrity ((d.priv (P.inst s)).channels c).mng).run (memHandle (P.μ s) s) shm
      = some (0, shm) := by
  have hint := ipcQueueCheckIntegrity_run (s := s) (hup.queue_at hid) (hdone _ hid rfl)
  rw [ipcCheckMchanIntegrity, show ((d.priv (P.inst s)).channels c).mng.bdQueue
    = (d.priv (P.inst s)).queue (.chan c) from rfl, Program.run_bind_of hint, if_pos rfl]
  refine checkPoolsIntegrity_run hup hdone _ _ (fun q hq => hid.pool ?_)
  rw [hup.numPools_eq hid, Nat.zero_add] at hq
  exact hq

/-- The channels `get_managed_chan` finds. -/
theorem Up.getManagedChan {mchan : IpcManagedChannel} (hup : P.Up s d)
    (hget : getManagedChan d (P.inst s) c = some mchan) :
    P.Has (.chan c) ∧ mchan = ((d.priv (P.inst s)).channels c).mng := by
  obtain ⟨hc, ht, rfl⟩ := getManagedChan_eq_some hget
  rw [hup.laid.numChannels_eq] at hc
  obtain ⟨m, pools, hm, -⟩ := hup.laid.managed hc ht
  exact ⟨(P.symmetric_shape s).hasQueue ⟨hc, m, hm⟩, rfl⟩

/-! ## Addresses of buffers -/

theorem bufOff_eq (x : BufId) :
    P.shape.bufOff c x = P.shape.bufStart c x.1 + x.2 * P.bufSize c x.1 := rfl

/-- The memory of a pool, as the driver has it. -/
theorem Up.poolAddr (hup : P.Up s d) {p : ℕ} (hid : P.Has (.pool c p)) (remote : Bool) :
    (((d.priv (P.inst s)).channels c).mng.pools p).addr remote
      = (P.μ s).os.base remote + P.shape.bufStart c p := by
  rw [(hup.pool hid).addr_eq remote, IpcShmCfg.bufStart, Nat.add_assoc]

theorem base_add_lt (P : Peers) (s : Side) (remote : Bool) :
    (P.μ s).os.base remote + (P.μ s).size < 2 ^ 64 := by
  cases remote with
  | false => exact (P.μ s).localShm_lt
  | true => exact (P.μ s).remoteShm_lt

/-- The end of the memory of a pool, as `find_pool_for_buf` computes it. -/
theorem Up.poolEnd (hup : P.Up s d) {p : ℕ} (hid : P.Has (.pool c p)) (remote : Bool) :
    u64 ((((d.priv (P.inst s)).channels c).mng.pools p).addr remote
        + u32 ((((d.priv (P.inst s)).channels c).mng.pools p).numBufs
          * (((d.priv (P.inst s)).channels c).mng.pools p).bufSize))
      = (P.μ s).os.base remote + P.shape.bufStart c p + P.numBufs c p * P.bufSize c p ∧
    P.shape.bufStart c p + P.numBufs c p * P.bufSize c p ≤ (P.μ s).size := by
  have hl := hup.pool hid
  have hbase := P.base_add_lt s remote
  have hsize := P.size_lt s
  have hend : P.shape.bufStart c p + P.numBufs c p * P.bufSize c p ≤ (P.μ s).size := by
    have hb := (P.shape.layout_bounds hid.1 (P.shape.bufs_mem_layout P.poolsGiven hid)).2.2.2
    exact Nat.le_trans hb (P.fits_window s)
  have hn : (((d.priv (P.inst s)).channels c).mng.pools p).numBufs = P.numBufs c p := hl.numBufs_eq
  have hb : (((d.priv (P.inst s)).channels c).mng.pools p).bufSize = P.bufSize c p := hl.bufSize_eq
  rw [hup.poolAddr hid remote, hn, hb, u32_of_lt (by omega), u64_of_lt (by omega)]
  exact ⟨rfl, hend⟩

/-- **The address of a buffer passes the window check.** -/
theorem bufAddr_eq (hup : P.Up s d) {x : BufId} (hx : P.HasBuf c x) (remote : Bool) :
    u64 ((((d.priv (P.inst s)).channels c).mng.pools x.1).addr remote
        + u32 (x.2 * (((d.priv (P.inst s)).channels c).mng.pools x.1).bufSize))
      = (P.μ s).os.base remote + P.shape.bufOff c x ∧
    u64 ((P.μ s).os.base remote + P.shape.bufOff c x + P.bufSize c x.1)
      = (P.μ s).os.base remote + P.shape.bufOff c x + P.bufSize c x.1 ∧
    u64 ((P.μ s).os.base remote + (P.μ s).size) = (P.μ s).os.base remote + (P.μ s).size := by
  have hlt := P.base_add_lt s remote
  have hfit := buf_fits hx s
  have hsize := P.size_lt s
  rw [hup.poolAddr hx.1 remote, (hup.pool hx.1).bufSize_eq]
  rw [bufOff_eq] at hfit ⊢
  refine ⟨?_, u64_of_lt (by omega), u64_of_lt hlt⟩
  show u64 ((P.μ s).os.base remote + P.shape.bufStart c x.1 + u32 (x.2 * P.bufSize c x.1)) = _
  rw [u32_of_lt (by omega), u64_of_lt (by omega), Nat.add_assoc]

/-- **An acquired buffer has an address**, in the local window. -/
theorem acquiredAddr_eq (hup : P.Up s d) {x : BufId} (hx : P.HasBuf c x) {bd : IpcShmBd}
    (hbd : bd.bufId = x.2) :
    acquiredAddr (d.os (P.inst s)) (d.priv (P.inst s)).shmSize
      (((d.priv (P.inst s)).channels c).mng.pools x.1) bd = P.localBuf s c x := by
  obtain ⟨haddr, hend, hwin⟩ := bufAddr_eq hup hx false
  have hb : (((d.priv (P.inst s)).channels c).mng.pools x.1).bufSize = P.bufSize c x.1 :=
    (hup.pool hx.1).bufSize_eq
  have hfit := buf_fits hx s
  have haddr : u64 ((((d.priv (P.inst s)).channels c).mng.pools x.1).localPoolAddr
      + u32 (x.2 * (((d.priv (P.inst s)).channels c).mng.pools x.1).bufSize))
        = P.localBuf s c x := haddr
  have hend : u64 (P.localBuf s c x + P.bufSize c x.1) = P.localBuf s c x + P.bufSize c x.1 := hend
  have hwin : u64 ((P.μ s).localShm + (P.μ s).size) = (P.μ s).localShm + (P.μ s).size := hwin
  unfold acquiredAddr
  dsimp only
  rw [hbd, haddr, hup.os_eq, hup.shmSize_eq, hb, hend,
    show (P.μ s).os.localShm = (P.μ s).localShm from rfl, hwin, if_neg]
  unfold localBuf
  omega

/-- **The pool that owns an address**, and the index the quotient gives. -/
theorem findPoolForBuf_outcome (hup : P.Up s d) (hid : P.Has (.chan c)) (buf : ℕ)
    (remote : Bool) :
    findPoolForBuf ((d.priv (P.inst s)).channels c).mng buf remote = -EINVAL ∨
      ∃ x : BufId, P.HasBuf c x ∧
        0 < (((d.priv (P.inst s)).channels c).mng.pools x.1).bufSize ∧
        findPoolForBuf ((d.priv (P.inst s)).channels c).mng buf remote = x.1 ∧
        u16 (subU64 buf ((((d.priv (P.inst s)).channels c).mng.pools x.1).addr remote)
          / (((d.priv (P.inst s)).channels c).mng.pools x.1).bufSize) = x.2 ∧
        (P.μ s).os.base remote + P.shape.bufOff c x ≤ buf ∧
        buf < (P.μ s).os.base remote + P.shape.bufOff c x + P.bufSize c x.1 := by
  rcases findPoolFrom_cases ((d.priv (P.inst s)).channels c).mng.pools buf remote
    ((d.priv (P.inst s)).channels c).mng.numPools 0 with h | ⟨q, -, hq, hfind, hle, hlt⟩
  · exact Or.inl h
  · refine Or.inr ?_
    rw [hup.numPools_eq hid, Nat.zero_add] at hq
    have hidq : P.Has (.pool c q) := hid.pool hq
    have hl := hup.pool hidq
    have hpos := bufSize_pos_of_owns hle hlt
    have hbase := P.base_add_lt s remote
    obtain ⟨hpoolEnd, hend⟩ := hup.poolEnd hidq remote
    have hb : (((d.priv (P.inst s)).channels c).mng.pools q).bufSize = P.bufSize c q :=
      hl.bufSize_eq
    rw [hup.poolAddr hidq remote] at hle
    rw [hpoolEnd] at hlt
    rw [hb] at hpos
    have hnum : P.numBufs c q ≤ 4096 := hl.numBufs_le
    set a := (P.μ s).os.base remote + P.shape.bufStart c q with ha
    have hdiv : (buf - a) / P.bufSize c q < P.numBufs c q :=
      Nat.div_lt_of_lt_mul (by rw [Nat.mul_comm]; omega)
    have hsub : subU64 buf a = buf - a := by
      unfold subU64
      rw [show buf + 2 ^ 64 - a = buf - a + 2 ^ 64 by omega, Nat.add_mod_right,
        Nat.mod_eq_of_lt (by omega)]
    have hlow := Nat.div_mul_le_self (buf - a) (P.bufSize c q)
    have hhigh := Nat.lt_div_mul_add hpos (a := buf - a)
    refine ⟨(q, (buf - a) / P.bufSize c q), ⟨hidq, hdiv⟩, by rw [hb]; exact hpos, hfind, ?_, ?_, ?_⟩
    · rw [hup.poolAddr hidq remote, hb, ← ha, hsub]
      exact u16_of_lt (by omega)
    · rw [bufOff_eq]
      show (P.μ s).os.base remote
        + (P.shape.bufStart c q + (buf - a) / P.bufSize c q * P.bufSize c q) ≤ buf
      omega
    · rw [bufOff_eq]
      show buf < (P.μ s).os.base remote
        + (P.shape.bufStart c q + (buf - a) / P.bufSize c q * P.bufSize c q) + P.bufSize c q
      omega

/-- The bytes of a descriptor and back. -/
theorem decode_bdBytes (hup : P.Up s d) {x : BufId} (hx : P.HasBuf c x) {size : ℕ}
    (hsize : size < 2 ^ 32) :
    IpcShmBd.decode (bdBytes x size) = { poolId := x.1, bufId := x.2, dataSize := size } := by
  have hch : P.Has (.chan c) := hx.1.chan
  have hp : x.1 < 4 := Nat.lt_of_lt_of_le hx.1.pool_lt (hup.numPools_le hch)
  have hi : x.2 < P.numBufs c x.1 := hx.2
  have hn : P.numBufs c x.1 ≤ 4096 := (hup.pool hx.1).numBufs_le
  refine IpcShmBd.decode_encode ⟨?_, ?_, ?_, hsize⟩
  · show -2 ^ 15 ≤ (x.1 : ℤ)
    omega
  · show (x.1 : ℤ) < 2 ^ 15
    omega
  · show x.2 < 2 ^ 16
    omega

/-! ## Acquire -/

/-- The window after a pop from a queue. -/
def popped (P : Peers) (shm : Shm) (s : Side) (id : QueueId) : Shm :=
  shm.set s ((shm s).popFront (P.off id) (P.cap id + 1))

/-- The window after a push to a queue. -/
def pushed (P : Peers) (shm : Shm) (s : Side) (id : QueueId) (x : List UInt8) : Shm :=
  shm.set s ((shm s).pushBack (P.off id) (P.cap id + 1) 8 x)

/-- **The outcomes of `ipc_shm_acquire_buf`.** -/
inductive AcquireOutcome (P : Peers) (s : Side) (c memSize : ℕ) (shm : Shm) (L : Lanes) :
    ℕ → Shm → Lanes → Prop where
  /-- There is no buffer: `NULL`. -/
  | none : AcquireOutcome P s c memSize shm L 0 shm L
  /-- The first free buffer of a pool. -/
  | buffer {p i : ℕ} {rest : List ℕ} : P.Has (.pool c p) → 0 < P.bufSize c p →
      memSize ≤ P.bufSize c p → (L s c).free p = i :: rest →
      AcquireOutcome P s c memSize shm L (P.localBuf s c (p, i)) (P.popped shm s (.pool c p))
        (L.set s c ((L s c).acquire p rest))

/-- **The loop of an acquire** over pools whose rings hold `xs`: it stops at the
first pool that is large enough and not empty, and pops its head. -/
theorem acquireFrom_first (hup : P.Up s d) {xs : ℕ → List (List UInt8)}
    (hdone : P.ChannelDone shm c)
    (hring : ∀ q, P.Has (.pool c q) →
      RingHolds (P.off (.pool c q)) (P.cap (.pool c q)) 8 (shm s.other) (shm s) (xs q))
    (memSize : ℕ) (n p : ℕ) (hn : ∀ q, q < p + n → P.Has (.pool c q)) :
    ((∀ q, p ≤ q → q < p + n → memSize ≤ P.bufSize c q → xs q = []) ∧
      (acquireFrom ((d.priv (P.inst s)).channels c).mng memSize n p).run
        (memHandle (P.μ s) s) shm = some (none, shm)) ∨
    ∃ q x rest, q < p + n ∧ memSize ≤ P.bufSize c q ∧ xs q = x :: rest ∧
      (∀ q', p ≤ q' → q' < q → memSize ≤ P.bufSize c q' → xs q' = []) ∧
      (acquireFrom ((d.priv (P.inst s)).channels c).mng memSize n p).run
        (memHandle (P.μ s) s) shm
          = some (some (((d.priv (P.inst s)).channels c).mng.pools q, IpcShmBd.decode x),
            P.popped shm s (.pool c q)) := by
  induction n generalizing p with
  | zero => exact Or.inl ⟨fun q hle hlt => by omega, rfl⟩
  | succ n ih =>
    have hid := hn p (by omega)
    have hb : (((d.priv (P.inst s)).channels c).mng.pools p).bufSize = P.bufSize c p :=
      (hup.pool hid).bufSize_eq
    have hrun := ih (p + 1) (fun q hq => hn q (by omega))
    rw [show p + 1 + n = p + (n + 1) by omega] at hrun
    -- a pool that is passed over is too small or empty
    have hpass : (memSize ≤ P.bufSize c p → xs p = []) →
        (acquireFrom ((d.priv (P.inst s)).channels c).mng memSize (n + 1) p).run
            (memHandle (P.μ s) s) shm
          = (acquireFrom ((d.priv (P.inst s)).channels c).mng memSize n (p + 1)).run
            (memHandle (P.μ s) s) shm := by
      intro hp
      rw [acquireFrom]
      split
      · rfl
      · rename_i hle
        rw [hb] at hle
        have hempty := hring p hid
        rw [hp (Nat.not_lt.mp hle)] at hempty
        exact Program.run_bind_of (ipcQueuePop_run_empty (hup.queue_at hid) (hup.elemNum_eq hid)
          (hdone _ hid rfl) (by rw [hup.elemSize_eq hid]; exact hempty))
    have hcons : ∀ {q}, (memSize ≤ P.bufSize c p → xs p = []) →
        (∀ q', p + 1 ≤ q' → q' < q → memSize ≤ P.bufSize c q' → xs q' = []) →
        ∀ q', p ≤ q' → q' < q → memSize ≤ P.bufSize c q' → xs q' = [] := by
      intro q hp hrest q' hle hlt
      rcases Nat.eq_or_lt_of_le hle with rfl | hgt
      · exact hp
      · exact hrest q' hgt hlt
    by_cases hp : memSize ≤ P.bufSize c p → xs p = []
    · rw [hpass hp]
      rcases hrun with ⟨hall, hrun⟩ | ⟨q, x, rest, hlt, hle, hx, hall, hrun⟩
      · exact Or.inl ⟨hcons hp hall, hrun⟩
      · exact Or.inr ⟨q, x, rest, hlt, hle, hx, hcons hp hall, hrun⟩
    · obtain ⟨hle, hne⟩ := Classical.not_imp.mp hp
      obtain ⟨x, rest, hx⟩ := List.exists_cons_of_ne_nil hne
      refine Or.inr ⟨p, x, rest, by omega, hle, hx, fun q' h₁ h₂ => by omega, ?_⟩
      have hhead := hring p hid
      rw [hx] at hhead
      have hpop := ipcQueuePop_run (hup.queue_at hid) (hup.elemNum_eq hid) (hdone _ hid rfl)
        (by rw [hup.elemSize_eq hid]; exact hhead)
      rw [hup.elemNum_eq hid] at hpop
      rw [acquireFrom, if_neg (by rw [hb]; omega)]
      exact (Program.run_bind_of hpop).trans rfl

/-- **`ipc_shm_acquire_buf`** returns no buffer or a free one. -/
theorem ipcShmAcquireBuf_run (hup : P.Up s d) (h : P.Rep shm L) (c memSize : ℕ) :
    ∃ r shm' L', (ipcShmAcquireBuf d (P.inst s) c memSize).run (memHandle (P.μ s) s) shm
        = some (r, shm') ∧ P.AcquireOutcome s c memSize shm L r shm' L' := by
  rw [ipcShmAcquireBuf, Program.run_bind_of (isRemoteReady_run hup (h.used s) (h.ready s.other)),
    if_neg (not_not.mpr rfl)]
  cases hget : getManagedChan d (P.inst s) c with
  | none => exact ⟨0, shm, L, rfl, .none⟩
  | some mchan =>
    obtain ⟨hid, rfl⟩ := hup.getManagedChan hget
    dsimp only
    split
    · exact ⟨0, shm, L, rfl, .none⟩
    rename_i hpos
    have hn : ∀ q, q < 0 + ((d.priv (P.inst s)).channels c).mng.numPools → P.Has (.pool c q) := by
      intro q hq
      rw [hup.numPools_eq hid, Nat.zero_add] at hq
      exact hid.pool hq
    have hring : ∀ q, P.Has (.pool c q) → RingHolds (P.off (.pool c q)) (P.cap (.pool c q)) 8
        (shm s.other) (shm s) (((L s c).free q).map (fun i => bdBytes (q, i) 0)) := by
      intro q hq
      have hr := h.holds _ hq s.other
      rwa [Lanes.queues, Side.other_other] at hr
    rw [Program.run_bind_of (ipcCheckMchanIntegrity_run hup (h.channelDone _) hid),
      if_neg (not_not.mpr rfl)]
    rcases acquireFrom_first hup (h.channelDone _) hring memSize _ 0 hn with
      ⟨-, hrun⟩ | ⟨q, x, rest, hq, hle, hx, -, hrun⟩
    · rw [Program.run_bind_of hrun]
      exact ⟨0, _, L, rfl, .none⟩
    · rw [Program.run_bind_of hrun]
      obtain ⟨i, free, hf, rfl, rfl⟩ := List.map_eq_cons_iff.mp hx
      have hidq := hn q hq
      have hbuf : P.HasBuf c (q, i) :=
        ⟨hidq, (h.valid s c hid).free q hidq i (by rw [hf]; exact List.mem_cons_self)⟩
      have haddr : acquiredAddr (d.os (P.inst s)) (d.priv (P.inst s)).shmSize
          (((d.priv (P.inst s)).channels c).mng.pools q) (IpcShmBd.decode (bdBytes (q, i) 0))
            = P.localBuf s c (q, i) :=
        acquiredAddr_eq hup hbuf (by rw [decode_bdBytes hup hbuf (by decide)])
      exact ⟨_, _, _, congrArg (fun a => some (a, P.popped shm s (.pool c q))) haddr,
        .buffer hidq (by omega) hle hf⟩

/-! ## Transmit -/

/-- **The outcomes of `ipc_shm_tx`.** -/
inductive TxOutcome (P : Peers) (s : Side) (c buf size : ℕ) (shm : Shm) (L : Lanes) :
    ℤ → Shm → Lanes → Prop where
  /-- An argument is wrong. -/
  | rejected : TxOutcome P s c buf size shm L (-EINVAL) shm L
  /-- The channel queue is full. -/
  | full {x : BufId} : P.HasBuf c x → P.localBuf s c x ≤ buf →
      buf < P.localBuf s c x + P.bufSize c x.1 → (L s c).transit.length = P.cap (.chan c) →
      TxOutcome P s c buf size shm L (-ENOMEM) shm L
  /-- The buffer at the address is sent. -/
  | sent {x : BufId} : P.HasBuf c x → P.localBuf s c x ≤ buf →
      buf < P.localBuf s c x + P.bufSize c x.1 → size ≠ 0 →
      (L s c).transit.length < P.cap (.chan c) →
      TxOutcome P s c buf size shm L 0 (P.pushed shm s (.chan c) (bdBytes x size))
        (L.set s c ((L s c).send { buf := x, size := size }))

/-- **`ipc_shm_tx`** sends the buffer at the address, if there is room. -/
theorem ipcShmTx_run (hup : P.Up s d) (h : P.Rep shm L) (chanId : ℤ) (buf size : ℕ) :
    ∃ r shm' L', (ipcShmTx d (P.inst s) chanId buf size).run (memHandle (P.μ s) s) shm
        = some (r, shm') ∧
      P.TxOutcome s (chanId % 2 ^ 8).toNat buf size shm L r shm' L' := by
  rw [ipcShmTx, Program.run_bind_of (isRemoteReady_run hup (h.used s) (h.ready s.other)),
    if_neg (not_not.mpr rfl)]
  generalize (chanId % 2 ^ 8).toNat = c
  cases hget : getManagedChan d (P.inst s) c with
  | none => exact ⟨_, shm, L, rfl, .rejected⟩
  | some mchan =>
    obtain ⟨hid, rfl⟩ := hup.getManagedChan hget
    dsimp only
    split
    · exact ⟨_, shm, L, rfl, .rejected⟩
    rename_i hargs
    rw [Program.run_bind_of (ipcCheckMchanIntegrity_run hup (h.channelDone _) hid),
      if_neg (not_not.mpr rfl)]
    rcases findPoolForBuf_outcome hup hid buf false with he | ⟨x, hx, hpos, hfind, hidx, hle, hlt⟩
    · rw [he, if_pos rfl]
      exact ⟨_, shm, L, rfl, .rejected⟩
    · rw [hfind, if_neg (by unfold EINVAL; omega), Int.toNat_natCast, divU_of_pos hpos,
        Program.pure_bind]
      have hidx : u16 (subU64 buf (((d.priv (P.inst s)).channels c).mng.pools x.1).localPoolAddr
          / (((d.priv (P.inst s)).channels c).mng.pools x.1).bufSize) = x.2 := hidx
      rw [hidx]
      have hring := h.holds _ hid s
      rw [Lanes.queues] at hring
      rcases Nat.lt_or_ge (L s c).transit.length (P.cap (.chan c)) with hroom | hfull
      · have hpush := ipcQueuePush_run (x := bdBytes x size) (hup.queue_at hid)
          (hup.elemNum_eq hid) (by rw [hup.elemSize_eq hid]; exact hring)
          (by rw [List.length_map]; exact hroom) (by rw [hup.elemSize_eq hid, bdBytes_length])
        rw [hup.elemNum_eq hid, hup.elemSize_eq hid] at hpush
        refine ⟨_, _, _, (Program.run_bind_of hpush).trans ?_,
          .sent hx hle hlt (fun h0 => hargs (Or.inr h0)) hroom⟩
        rw [if_neg (not_not.mpr rfl), ipcHwIrqNotify_bind, Program.run_op_of rfl]
        rfl
      · have hlen : ((L s c).transit.map Message.bytes).length = P.cap (.chan c) := by
          have := hring.length_le
          rw [List.length_map] at this ⊢
          exact Nat.le_antisymm this hfull
        have hpush := ipcQueuePush_run_full (x := bdBytes x size) (hup.queue_at hid)
          (hup.elemNum_eq hid) (by rw [hup.elemSize_eq hid]; exact hring) hlen
        rw [List.length_map] at hlen
        exact ⟨_, _, _, (Program.run_bind_of hpush).trans rfl, .full hx hle hlt hlen⟩

/-! ## Release -/

/-- **The outcomes of `ipc_shm_release_buf`.** -/
inductive ReleaseOutcome (P : Peers) (s : Side) (c buf : ℕ) (shm : Shm) (L : Lanes) :
    ℤ → Shm → Lanes → Prop where
  /-- An argument is wrong. -/
  | rejected : ReleaseOutcome P s c buf shm L (-EINVAL) shm L
  /-- The pool queue is full. -/
  | full {x : BufId} : P.HasBuf c x → P.remoteBuf s c x ≤ buf →
      buf < P.remoteBuf s c x + P.bufSize c x.1 →
      ((L s.other c).free x.1).length = P.numBufs c x.1 →
      ReleaseOutcome P s c buf shm L (-ENOMEM) shm L
  /-- The buffer at the address is free. -/
  | released {x : BufId} : P.HasBuf c x → P.remoteBuf s c x ≤ buf →
      buf < P.remoteBuf s c x + P.bufSize c x.1 →
      ((L s.other c).free x.1).length < P.numBufs c x.1 →
      ReleaseOutcome P s c buf shm L 0 (P.pushed shm s (.pool c x.1) (bdBytes x 0))
        (L.set s.other c ((L s.other c).release x))

/-- **`ipc_shm_release_buf`** gives the buffer at the address back, if there is
room. -/
theorem ipcShmReleaseBuf_run (hup : P.Up s d) (h : P.Rep shm L) (c buf : ℕ) :
    ∃ r shm' L', (ipcShmReleaseBuf d (P.inst s) c buf).run (memHandle (P.μ s) s) shm
        = some (r, shm') ∧ P.ReleaseOutcome s c buf shm L r shm' L' := by
  rw [ipcShmReleaseBuf, Program.run_bind_of (ipcInstanceIsFree_run_used hup.laid hup.inst_lt
    (P.header_le s) (h.used s)), if_neg (not_not.mpr rfl)]
  cases hget : getManagedChan d (P.inst s) c with
  | none => exact ⟨_, shm, L, rfl, .rejected⟩
  | some mchan =>
    obtain ⟨hid, rfl⟩ := hup.getManagedChan hget
    dsimp only
    split
    · exact ⟨_, shm, L, rfl, .rejected⟩
    rw [Program.run_bind_of (ipcCheckMchanIntegrity_run hup (h.channelDone _) hid),
      if_neg (not_not.mpr rfl)]
    rcases findPoolForBuf_outcome hup hid buf true with he | ⟨x, hx, hpos, hfind, hidx, hle, hlt⟩
    · rw [he, if_pos rfl]
      exact ⟨_, shm, L, rfl, .rejected⟩
    · rw [hfind, if_neg (by unfold EINVAL; omega), Int.toNat_natCast, divU_of_pos hpos,
        Program.pure_bind]
      have hidx : u16 (subU64 buf (((d.priv (P.inst s)).channels c).mng.pools x.1).remotePoolAddr
          / (((d.priv (P.inst s)).channels c).mng.pools x.1).bufSize) = x.2 := hidx
      rw [hidx]
      have hring := h.holds _ hx.1 s
      rw [Lanes.queues] at hring
      rcases Nat.lt_or_ge ((L s.other c).free x.1).length (P.numBufs c x.1) with hroom | hfull
      · have hpush := ipcQueuePush_run (x := bdBytes x 0) (hup.queue_at hx.1)
          (hup.elemNum_eq hx.1) (by rw [hup.elemSize_eq hx.1]; exact hring)
          (by rw [List.length_map]; exact hroom) (by rw [hup.elemSize_eq hx.1, bdBytes_length])
        rw [hup.elemNum_eq hx.1, hup.elemSize_eq hx.1] at hpush
        exact ⟨_, _, _, hpush, .released hx hle hlt hroom⟩
      · have hlen : (((L s.other c).free x.1).map (fun i => bdBytes (x.1, i) 0)).length
            = P.cap (.pool c x.1) := by
          have := hring.length_le
          rw [List.length_map] at this ⊢
          exact Nat.le_antisymm this hfull
        have hpush := ipcQueuePush_run_full (x := bdBytes x 0) (hup.queue_at hx.1)
          (hup.elemNum_eq hx.1) (by rw [hup.elemSize_eq hx.1]; exact hring) hlen
        rw [List.length_map] at hlen
        exact ⟨_, _, _, hpush, .full hx hle hlt hlen⟩

end Peers
