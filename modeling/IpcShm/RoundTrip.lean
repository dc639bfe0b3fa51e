import IpcShm.ArgumentChecks
import IpcShm.Interference
import IpcShm.PeerCalls

/-!
# Addresses and descriptors

A buffer is an address to the application and a descriptor – a pool and an
index – on the wire. The sender turns an address of its local window into a
descriptor, the receiver turns the descriptor into an address of its remote
window, and on the way back the roles of the windows are exchanged. All four
translations are in different functions, with different base addresses.

They fit together: every address inside a buffer, not only its first one,
becomes the descriptor of that buffer, and the descriptor becomes the first
address of the same buffer, at the same offset of the window, in the other
address space. An address outside the buffers of the channel is refused, and
in no case is anything divided by zero: a pool with buffers of size 0 owns no
address.

What a call pushes is said by its exchanges (`SucceedsBy`). A transmission
returns 0 exactly when the remote is ready, all queues of the channel are
intact and its ring has room; then it copied the descriptor to the slot at the
write index of that ring, advanced the index and notified the remote. With any
other result it only loaded.
-/

/-- The pool search fails only where no pool owns the buffer. -/
theorem findPoolFrom_none {pools : ℕ → IpcShmPool} {buf : ℕ} {remote : Bool} {n p : ℕ}
    (h : findPoolFrom pools buf remote n p = -EINVAL) {q : ℕ} (hle : p ≤ q) (hlt : q < p + n) :
    ¬((pools q).addr remote ≤ buf ∧
      buf < u64 ((pools q).addr remote + u32 ((pools q).numBufs * (pools q).bufSize))) := by
  induction n generalizing p with
  | zero => omega
  | succ n ih =>
    rw [findPoolFrom] at h
    split at h
    · -- an index is not an error
      unfold EINVAL at h
      omega
    · rename_i hno
      rcases Nat.eq_or_lt_of_le hle with rfl | hlt'
      · exact hno
      · exact ih h hlt' (by omega)

/-! ## Calls that succeed by one push -/

/-- **A call that succeeds by the exchanges in `S`**: it does nothing undefined,
its exchanges are in `S` exactly if it returns 0, and when it returns anything
else that is an error code, and it has only loaded. -/
structure SucceedsBy (S : List Exchange → Prop) (p : Drv ℤ) : Prop where
  defined : p.Always (fun _ _ => True) Op.Defined (fun _ => True)
  success : ∀ tr, p.Trace tr 0 ↔ S tr
  failure : ∀ tr err, p.Trace tr err → err ≠ 0 → err < 0 ∧ ∀ e ∈ tr, e.1.IsLoad

/-- **The exchanges of a push that succeeds**: both indexes are in range and
leave room, the element goes to the slot at the write index, and the index
moves on. -/
def IpcQueue.PushTrace (q : IpcQueue) (bytes : List UInt8) (tr : List Exchange) : Prop :=
  ∃ write read : ℕ, write < q.elemNum ∧ read < q.elemNum ∧ (write + 1) % q.elemNum ≠ read ∧
    tr = [⟨.load 4 (q.pushRing + 8), write⟩, ⟨.load 4 (q.popRing + 12), read⟩,
      ⟨.memcpyTo (q.pushRing + 16 + 8 * write) bytes, ()⟩,
      ⟨.store 4 (q.pushRing + 8) ((write + 1) % q.elemNum), ()⟩]

section SucceedsBy

variable {S : List Exchange → Prop}

theorem Op.IsLoad.defined {o : Op} (h : o.IsLoad) : o.Defined := by
  cases o <;> first | exact h.elim | trivial

theorem SucceedsBy.congr {S' : List Exchange → Prop} {p : Drv ℤ} (h : SucceedsBy S p)
    (hS : ∀ tr, S tr ↔ S' tr) : SucceedsBy S' p :=
  ⟨h.defined, fun tr => (h.success tr).trans (hS tr), h.failure⟩

/-- A call that is refused at once. -/
theorem SucceedsBy.refused : SucceedsBy (fun _ => False) (.pure (-EINVAL)) where
  defined := trivial
  success := fun tr => ⟨fun h => absurd h.2 (by decide), False.elim⟩
  failure := fun tr err h _ => by
    obtain ⟨rfl, rfl⟩ := h
    exact ⟨by decide, fun _ he => absurd he List.not_mem_nil⟩

/-- A check before a call, which is refused unless the check passes. -/
theorem SucceedsBy.check {α : Type} {p : Drv α} {Q : α → Prop} {f : α → Drv ℤ} {ok : α}
    {call : Drv ℤ} (h : SucceedsBy S call)
    (hp : p.Always (fun _ _ => True) Op.IsLoad Q)
    (hne : ∀ a, a ≠ ok → f a = .pure (-EINVAL)) (hok : f ok = call) :
    SucceedsBy (fun tr => ∃ before rest, tr = before ++ rest ∧ p.Trace before ok ∧ S rest)
      (p >>= f) where
  defined := by
    refine (hp.mono (fun _ => Op.IsLoad.defined) (fun _ h => h)).bind (fun a _ => ?_)
    by_cases ha : a = ok
    · rw [ha, hok]
      exact h.defined
    · rw [hne a ha]
      trivial
  success := fun tr => by
    rw [Program.trace_bind]
    constructor
    · rintro ⟨before, rest, a, rfl, hbefore, hrest⟩
      by_cases ha : a = ok
      · subst ha
        exact ⟨before, rest, rfl, hbefore, (h.success rest).mp (hok ▸ hrest)⟩
      · rw [hne a ha] at hrest
        exact absurd hrest.2 (show -EINVAL ≠ 0 by decide)
    · rintro ⟨before, rest, rfl, hbefore, hrest⟩
      exact ⟨before, rest, ok, rfl, hbefore, hok ▸ (h.success rest).mpr hrest⟩
  failure := fun tr err htr herr => by
    obtain ⟨before, rest, a, rfl, hbefore, hrest⟩ := Program.trace_bind.mp htr
    have hloads := hp.of_mem_trace hbefore
    by_cases ha : a = ok
    · subst ha
      obtain ⟨hlt, hrest⟩ := h.failure rest err (hok ▸ hrest) herr
      exact ⟨hlt, List.forall_mem_append.mpr ⟨hloads, hrest⟩⟩
    · rw [hne a ha] at hrest
      obtain ⟨rfl, rfl⟩ := hrest
      exact ⟨by decide, by rwa [List.append_nil]⟩

/-- A notification after a call that succeeded. -/
theorem SucceedsBy.notify {p : Drv ℤ} (h : SucceedsBy S p) (inst : ℕ) :
    SucceedsBy (fun tr => ∃ push, tr = push ++ [⟨.ipcHwIrqNotify inst, ()⟩] ∧ S push)
      (p >>= fun err => if err ≠ 0 then return err else do
        ipcHwIrqNotify inst
        return 0) where
  defined := by
    refine h.defined.bind (fun err _ => ?_)
    split
    · trivial
    · exact ⟨trivial, fun _ _ => trivial⟩
  success := fun tr => by
    rw [Program.trace_bind]
    constructor
    · rintro ⟨push, rest, err, rfl, hpush, hrest⟩
      by_cases herr : err = 0
      · subst herr
        rw [if_neg (not_not.mpr rfl)] at hrest
        obtain ⟨_, _, rfl, rfl, -⟩ := hrest
        exact ⟨push, rfl, (h.success push).mp hpush⟩
      · rw [if_pos herr] at hrest
        exact absurd hrest.2 herr
    · rintro ⟨push, rfl, hpush⟩
      exact ⟨push, _, 0, rfl, (h.success push).mpr hpush, (), [], rfl, rfl, rfl⟩
  failure := fun tr err htr herr => by
    obtain ⟨push, rest, err', rfl, hpush, hrest⟩ := Program.trace_bind.mp htr
    by_cases herr' : err' = 0
    · subst herr'
      rw [if_neg (not_not.mpr rfl)] at hrest
      obtain ⟨_, _, -, -, h0⟩ := hrest
      exact absurd h0.symm herr
    · rw [if_pos herr'] at hrest
      obtain ⟨rfl, rfl⟩ := hrest
      rw [List.append_nil]
      exact h.failure push _ hpush herr

/-- `ipc_queue_push` of an element of the queue's size, without the rings that
are `NULL` and the sizes that wrap. -/
theorem ipcQueuePush_requests {q : IpcQueue} (hpush : q.pushRing ≠ 0) (hpop : q.popRing ≠ 0)
    (hnum : 0 < q.elemNum) (hlt : q.elemNum < 2 ^ 29) (hsize : q.elemSize = 8)
    {bytes : List UInt8} (hlen : bytes.length = 8) :
    ipcQueuePush q bytes = .op (.load 4 (q.pushRing + 8)) fun (write : ℕ) =>
      .op (.load 4 (q.popRing + 12)) fun (read : ℕ) =>
        if q.elemNum ≤ read ∨ q.elemNum ≤ write then .pure (-EINVAL)
        else if (write + 1) % q.elemNum = read then .pure (-ENOMEM)
        else .op (.memcpyTo (q.pushRing + 16 + 8 * write) bytes) fun _ =>
          .op (.store 4 (q.pushRing + 8) ((write + 1) % q.elemNum)) fun _ => .pure 0 := by
  rw [ipcQueuePush, if_neg (not_or.mpr ⟨hpush, hpop⟩), load32_bind]
  refine congrArg (Program.op _) (funext fun (write : ℕ) => ?_)
  rw [load32_bind]
  refine congrArg (Program.op _) (funext fun (read : ℕ) => ?_)
  split
  · rfl
  rename_i hidx
  have hwrite : write < q.elemNum := Nat.not_le.mp (not_or.mp hidx).2
  rw [remU_of_pos hnum, hsize, u32_of_lt (show write + 1 < 2 ^ 32 by omega),
    u32_of_lt (show write * 8 < 2 ^ 32 by omega), Nat.mul_comm write,
    List.take_of_length_le (Nat.le_of_eq hlen)]
  rfl

/-- **`ipc_queue_push`** succeeds by the exchanges of a push. -/
theorem ipcQueuePush_succeedsBy {q : IpcQueue} (hpush : q.pushRing ≠ 0) (hpop : q.popRing ≠ 0)
    (hnum : 0 < q.elemNum) (hlt : q.elemNum < 2 ^ 29) (hsize : q.elemSize = 8)
    {bytes : List UInt8} (hlen : bytes.length = 8) :
    SucceedsBy (q.PushTrace bytes) (ipcQueuePush q bytes) := by
  rw [ipcQueuePush_requests hpush hpop hnum hlt hsize hlen]
  refine ⟨?_, fun tr => ⟨?_, ?_⟩, ?_⟩
  · refine ⟨trivial, fun write _ => ⟨trivial, fun read _ => ?_⟩⟩
    dsimp only
    split
    · trivial
    split
    · trivial
    · exact ⟨trivial, fun _ _ => ⟨trivial, fun _ _ => trivial⟩⟩
  · rintro ⟨write, _, rfl, read, _, rfl, htr⟩
    dsimp only at htr
    split at htr
    · exact absurd htr.2 (show -EINVAL ≠ 0 by decide)
    rename_i hidx
    split at htr
    · exact absurd htr.2 (show -ENOMEM ≠ 0 by decide)
    rename_i hroom
    obtain ⟨_, _, rfl, _, _, rfl, rfl, -⟩ := htr
    obtain ⟨hread, hwrite⟩ := not_or.mp hidx
    exact ⟨write, read, Nat.not_le.mp hwrite, Nat.not_le.mp hread, hroom, rfl⟩
  · rintro ⟨write, read, hwrite, hread, hroom, rfl⟩
    refine ⟨write, _, rfl, read, _, rfl, ?_⟩
    dsimp only
    rw [if_neg (not_or.mpr ⟨Nat.not_le.mpr hread, Nat.not_le.mpr hwrite⟩), if_neg hroom]
    exact ⟨(), _, rfl, (), _, rfl, rfl, rfl⟩
  · rintro tr err ⟨write, _, rfl, read, _, rfl, htr⟩ herr
    have hloads : ∀ e ∈ ([⟨.load 4 (q.pushRing + 8), write⟩, ⟨.load 4 (q.popRing + 12), read⟩] :
        List Exchange), e.1.IsLoad :=
      List.forall_mem_cons.mpr ⟨trivial, List.forall_mem_singleton.mpr trivial⟩
    dsimp only at htr
    split at htr
    · obtain ⟨rfl, rfl⟩ := htr
      exact ⟨by decide, hloads⟩
    split at htr
    · obtain ⟨rfl, rfl⟩ := htr
      exact ⟨by decide, hloads⟩
    · obtain ⟨_, _, -, _, _, -, -, h0⟩ := htr
      exact absurd h0.symm herr

end SucceedsBy

namespace Peers

variable {P : Peers} {s : Side} {d : Driver} {c : ℕ}

/-- The address lies in the buffer, in the window of one side. -/
def InBuf (P : Peers) (s : Side) (remote : Bool) (c : ℕ) (x : BufId) (buf : ℕ) : Prop :=
  (P.μ s).os.base remote + P.shape.bufOff c x ≤ buf ∧
    buf < (P.μ s).os.base remote + P.shape.bufOff c x + P.bufSize c x.1

variable {remote : Bool} {x : BufId} {buf : ℕ}

/-- A buffer lies in the area of its pool. -/
theorem HasBuf.in_pool (hx : P.HasBuf c x) : P.shape.bufStart c x.1 ≤ P.shape.bufOff c x ∧
    P.shape.bufOff c x + P.bufSize c x.1
      ≤ P.shape.bufStart c x.1 + (P.shape.pool c x.1).bufBytes :=
  ⟨Nat.le_add_right _ _, IpcShmCfg.bufOff_add_le hx.2⟩

/-- **Different buffers lie apart.** -/
theorem buf_apart {c' : ℕ} {y : BufId} (hx : P.HasBuf c x) (hy : P.HasBuf c' y)
    (hne : ¬(c = c' ∧ x = y)) :
    P.shape.bufOff c x + P.bufSize c x.1 ≤ P.shape.bufOff c' y ∨
      P.shape.bufOff c' y + P.bufSize c' y.1 ≤ P.shape.bufOff c x := by
  by_cases hp : (c, x.1) = (c', y.1)
  · -- in one pool, one after the other
    obtain ⟨p, i⟩ := x
    obtain ⟨p', j⟩ := y
    obtain ⟨rfl, hpp⟩ := Prod.mk.inj hp
    obtain rfl : p = p' := hpp
    have hij : i ≠ j := fun he => hne ⟨rfl, by rw [he]⟩
    unfold IpcShmCfg.bufOff bufSize
    dsimp only
    rcases Nat.lt_or_gt_of_ne hij with hlt | hlt
    · have := Nat.mul_le_mul_right (P.shape.pool c p).bufSize.toNat (Nat.succ_le_of_lt hlt)
      rw [Nat.succ_mul] at this
      omega
    · have := Nat.mul_le_mul_right (P.shape.pool c p).bufSize.toNat (Nat.succ_le_of_lt hlt)
      rw [Nat.succ_mul] at this
      omega
  · obtain ⟨hstart, hend⟩ := hx.in_pool
    obtain ⟨hstart', hend'⟩ := hy.in_pool
    rcases IpcShmCfg.bufs_apart P.poolsGiven hx.1 hy.1 hp with h | h
    · exact Or.inl (by omega)
    · exact Or.inr (by omega)

/-- **Buffers do not overlap.** -/
theorem InBuf.unique {x' : BufId} (h : P.InBuf s remote c x buf) (h' : P.InBuf s remote c x' buf)
    (hx : P.HasBuf c x) (hx' : P.HasBuf c x') : x = x' := by
  by_contra hne
  have hap := buf_apart hx hx' (fun he => hne he.2)
  unfold InBuf at h h'
  omega

/-- **The start of a buffer lies in no other**, of any channel. -/
theorem InBuf.of_start {c' : ℕ} {y : BufId}
    (h : P.InBuf s remote c x ((P.μ s).os.base remote + P.shape.bufOff c' y)) (hx : P.HasBuf c x)
    (hy : P.HasBuf c' y) (hpos : 0 < P.bufSize c' y.1) : c = c' ∧ x = y := by
  by_contra hne
  have hap := buf_apart hx hy hne
  unfold InBuf at h
  omega

/-- **An address inside a buffer belongs to it.** -/
theorem findPoolForBuf_inBuf (hup : P.Up s d) (hx : P.HasBuf c x) (hin : P.InBuf s remote c x buf) :
    findPoolForBuf ((d.priv (P.inst s)).channels c).mng buf remote = x.1 ∧
      0 < (((d.priv (P.inst s)).channels c).mng.pools x.1).bufSize ∧
      u16 (subU64 buf ((((d.priv (P.inst s)).channels c).mng.pools x.1).addr remote)
        / (((d.priv (P.inst s)).channels c).mng.pools x.1).bufSize) = x.2 := by
  have hch : P.Has (.chan c) := hx.1.chan
  rcases findPoolForBuf_outcome hup hch buf remote with
    hnone | ⟨x', hx', hpos, hfind, hidx, hlo, hhi⟩
  · have hp : x.1 < 0 + ((d.priv (P.inst s)).channels c).mng.numPools := by
      rw [Nat.zero_add, hup.numPools_eq hch]
      exact hx.1.pool_lt
    have hno := findPoolFrom_none hnone (Nat.zero_le x.1) hp
    rw [(hup.poolEnd hx.1 remote).1, hup.poolAddr hx.1 remote] at hno
    have hend : P.shape.bufOff c x + P.bufSize c x.1
        ≤ P.shape.bufStart c x.1 + P.numBufs c x.1 * P.bufSize c x.1 := IpcShmCfg.bufOff_add_le hx.2
    obtain ⟨hlo, hhi⟩ := hin
    refine absurd ⟨?_, by omega⟩ hno
    exact (Nat.add_le_add_left (Nat.le_add_right _ _) _).trans hlo
  · obtain rfl := InBuf.unique ⟨hlo, hhi⟩ hin hx' hx
    exact ⟨hfind, hpos, hidx⟩

/-- An address outside the buffers belongs to no pool. -/
theorem findPoolForBuf_outside (hup : P.Up s d) (hid : P.Has (.chan c))
    (hout : ∀ x, P.HasBuf c x → ¬P.InBuf s remote c x buf) :
    findPoolForBuf ((d.priv (P.inst s)).channels c).mng buf remote = -EINVAL := by
  rcases findPoolForBuf_outcome hup hid buf remote with hnone | ⟨x, hx, -, -, -, hlo, hhi⟩
  · exact hnone
  · exact absurd ⟨hlo, hhi⟩ (hout x hx)

/-! ## Encoding -/

/-- The channel id of a channel fits its `uint8_t`. -/
theorem Up.chanId_mod (hup : P.Up s d) (hid : P.Has (.chan c)) :
    ((c : ℤ) % 2 ^ 8).toNat = c := by
  have hc := hup.lt_of_shape hid.1
  have hlt := (P.cfg s).numChannels.toNat_lt
  omega

/-- `get_managed_chan` finds every managed channel. -/
theorem managedChan_of_up (hup : P.Up s d) (hid : P.Has (.chan c)) :
    getManagedChan d (P.inst s) c = some ((d.priv (P.inst s)).channels c).mng := by
  refine getManagedChan_of_has ⟨Int.natCast_nonneg c, ?_, (hup.managed hid).1⟩
  rw [hup.numChannels_eq]
  exact Int.ofNat_lt.mpr hid.1

/-- No buffer is at address 0. -/
theorem InBuf.ne_zero (h : P.InBuf s remote c x buf) : buf ≠ 0 := by
  have hbase : 0 < (P.μ s).os.base remote := by
    cases remote with
    | false => exact (P.μ s).localShm_pos
    | true => exact (P.μ s).remoteShm_pos
  exact Nat.ne_of_gt (Nat.lt_of_lt_of_le (Nat.add_pos_left hbase _) h.1)

/-- **A push into a queue of the instance.** -/
theorem Up.push_succeedsBy (hup : P.Up s d) {id : QueueId} (hid : P.Has id) (x : BufId)
    (size : ℕ) :
    SucceedsBy (((d.priv (P.inst s)).queue id).PushTrace (bdBytes x size))
      (ipcQueuePush ((d.priv (P.inst s)).queue id) (bdBytes x size)) := by
  have hcap := hup.cap_lt hid
  rw [hup.queue_eq hid]
  refine ipcQueuePush_succeedsBy ?_ ?_ (Nat.succ_pos _) ?_ rfl (bdBytes_length x size)
  · exact Nat.ne_of_gt (Nat.add_pos_left (P.μ s).localShm_pos _)
  · exact Nat.ne_of_gt (Nat.add_pos_left (P.μ s).remoteShm_pos _)
  · show P.cap id + 1 < 2 ^ 29
    omega

/-- **The exchanges of a transmission that succeeds**: the remote is found
ready and the queues of the channel intact, `bytes` are pushed into the ring
of the channel and the remote is notified. -/
def TxTrace (P : Peers) (s : Side) (d : Driver) (c : ℕ) (bytes : List UInt8)
    (tr : List Exchange) : Prop :=
  ∃ ready check push, (ipcShmIsRemoteReady d (P.inst s)).Trace ready 0 ∧
    (ipcCheckMchanIntegrity ((d.priv (P.inst s)).channels c).mng).Trace check 0 ∧
    ((d.priv (P.inst s)).queue (.chan c)).PushTrace bytes push ∧
    tr = ready ++ (check ++ (push ++ [⟨.ipcHwIrqNotify (P.inst s), ()⟩]))

/-- **The exchanges of a release that succeeds**: the instance is found in use
and the queues of the channel intact, and `bytes` are pushed into the ring of
pool `p`. -/
def ReleaseTrace (P : Peers) (s : Side) (d : Driver) (c p : ℕ) (bytes : List UInt8)
    (tr : List Exchange) : Prop :=
  ∃ used check push, (ipcInstanceIsFree d (P.inst s)).Trace used .used ∧
    (ipcCheckMchanIntegrity ((d.priv (P.inst s)).channels c).mng).Trace check 0 ∧
    ((d.priv (P.inst s)).queue (.pool c p)).PushTrace bytes push ∧
    tr = used ++ (check ++ push)

/-- What a transmission of an address in a buffer does. -/
theorem ipcShmTx_eq (hup : P.Up s d) (hx : P.HasBuf c x) (hin : P.InBuf s false c x buf)
    (size : ℕ) :
    ipcShmTx d (P.inst s) c buf size = ipcShmIsRemoteReady d (P.inst s) >>= fun ready =>
      if ready ≠ 0 then .pure (-EINVAL)
      else if size = 0 then .pure (-EINVAL)
      else ipcCheckMchanIntegrity ((d.priv (P.inst s)).channels c).mng >>= fun err =>
        if err ≠ 0 then .pure (-EINVAL)
        else ipcQueuePush ((d.priv (P.inst s)).queue (.chan c)) (bdBytes x size) >>= fun err =>
          if err ≠ 0 then return err else do
            ipcHwIrqNotify (P.inst s)
            return 0 := by
  have hch : P.Has (.chan c) := hx.1.chan
  obtain ⟨hfind, hpos, hidx⟩ := findPoolForBuf_inBuf hup hx hin
  have hidx : u16 (subU64 buf (((d.priv (P.inst s)).channels c).mng.pools x.1).localPoolAddr
      / (((d.priv (P.inst s)).channels c).mng.pools x.1).bufSize) = x.2 := hidx
  have hfound : ((x.1 : ℕ) : ℤ) ≠ -EINVAL := by
    unfold EINVAL
    omega
  unfold ipcShmTx
  simp only [hup.chanId_mod hch, managedChan_of_up hup hch, hin.ne_zero, false_or, hfind,
    if_neg hfound, Int.toNat_natCast, divU_of_pos hpos, Program.pure_bind, hidx]
  rfl

/-- What a release of an address in a buffer does. -/
theorem ipcShmReleaseBuf_eq (hup : P.Up s d) (hx : P.HasBuf c x) (hin : P.InBuf s true c x buf) :
    ipcShmReleaseBuf d (P.inst s) c buf = ipcInstanceIsFree d (P.inst s) >>= fun state =>
      if state ≠ .used then .pure (-EINVAL)
      else ipcCheckMchanIntegrity ((d.priv (P.inst s)).channels c).mng >>= fun err =>
        if err ≠ 0 then .pure (-EINVAL)
        else ipcQueuePush ((d.priv (P.inst s)).queue (.pool c x.1)) (bdBytes x 0) := by
  have hch : P.Has (.chan c) := hx.1.chan
  obtain ⟨hfind, hpos, hidx⟩ := findPoolForBuf_inBuf hup hx hin
  have hidx : u16 (subU64 buf (((d.priv (P.inst s)).channels c).mng.pools x.1).remotePoolAddr
      / (((d.priv (P.inst s)).channels c).mng.pools x.1).bufSize) = x.2 := hidx
  have hfound : ((x.1 : ℕ) : ℤ) ≠ -EINVAL := by
    unfold EINVAL
    omega
  unfold ipcShmReleaseBuf
  simp only [managedChan_of_up hup hch, if_neg hin.ne_zero, hfind,
    if_neg hfound, Int.toNat_natCast, divU_of_pos hpos, Program.pure_bind, hidx]
  rfl

/-- **A transmission** of an address in a buffer pushes the descriptor of the
buffer into the ring of the channel. -/
theorem ipcShmTx_succeedsBy (hup : P.Up s d) (hx : P.HasBuf c x) (hin : P.InBuf s false c x buf)
    (size : ℕ) : SucceedsBy (fun tr => size ≠ 0 ∧ P.TxTrace s d c (bdBytes x size) tr)
      (ipcShmTx d (P.inst s) c buf size) := by
  rw [ipcShmTx_eq hup hx hin]
  by_cases hsize : size = 0
  · refine (SucceedsBy.refused.check ipcShmIsRemoteReady_used (fun _ h => if_pos h)
      ((if_neg (not_not.mpr rfl)).trans (if_pos hsize))).congr (fun tr => ?_)
    constructor
    · rintro ⟨_, _, _, _, hfalse⟩
      exact hfalse.elim
    · exact fun h => absurd hsize h.1
  · have hpush := (hup.push_succeedsBy hx.1.chan x size).notify (P.inst s)
    refine ((hpush.check (ipcCheckMchanIntegrity_loads _) (fun _ h => if_pos h)
      (if_neg (not_not.mpr rfl))).check ipcShmIsRemoteReady_used (fun _ h => if_pos h)
      ((if_neg (not_not.mpr rfl)).trans (if_neg hsize))).congr (fun tr => ?_)
    constructor
    · rintro ⟨ready, _, rfl, hready, check, _, rfl, hcheck, push, rfl, hpush⟩
      exact ⟨hsize, ready, check, push, hready, hcheck, hpush, rfl⟩
    · rintro ⟨-, ready, check, push, hready, hcheck, hpush, rfl⟩
      exact ⟨ready, _, rfl, hready, check, _, rfl, hcheck, push, rfl, hpush⟩

/-- **A release** of an address in a buffer pushes the descriptor of the buffer
into the ring of its pool. -/
theorem ipcShmReleaseBuf_succeedsBy (hup : P.Up s d) (hx : P.HasBuf c x)
    (hin : P.InBuf s true c x buf) : SucceedsBy (P.ReleaseTrace s d c x.1 (bdBytes x 0))
      (ipcShmReleaseBuf d (P.inst s) c buf) := by
  rw [ipcShmReleaseBuf_eq hup hx hin]
  refine (((hup.push_succeedsBy hx.1 x 0).check (ipcCheckMchanIntegrity_loads _)
    (fun _ h => if_pos h) (if_neg (not_not.mpr rfl))).check ipcInstanceIsFree_used
    (fun _ h => if_pos h) (if_neg (not_not.mpr rfl))).congr (fun tr => ?_)
  constructor
  · rintro ⟨used, _, rfl, hused, check, push, rfl, hcheck, hpush⟩
    exact ⟨used, check, push, hused, hcheck, hpush, rfl⟩
  · rintro ⟨used, check, push, hused, hcheck, hpush, rfl⟩
    exact ⟨used, _, rfl, hused, check, push, rfl, hcheck, hpush⟩

/-- **A transmission** of an address outside the buffers is refused. -/
theorem ipcShmTx_outside (hup : P.Up s d) (hid : P.Has (.chan c))
    (hout : ∀ x, P.HasBuf c x → ¬P.InBuf s false c x buf) (size : ℕ) :
    (ipcShmTx d (P.inst s) c buf size).Always (Env (P.μ s)) (Quiet (fun _ _ => False))
      (fun r => r = -EINVAL) := by
  have hfind := findPoolForBuf_outside hup hid hout
  unfold ipcShmTx
  rw [hup.chanId_mod hid]
  refine (ipcShmIsRemoteReady_always d (P.inst s)).bind (fun ready _ => ?_)
  split
  · exact rfl
  cases hget : getManagedChan d (P.inst s) c with
  | none => exact rfl
  | some mchan =>
    obtain ⟨-, rfl⟩ := hup.getManagedChan hget
    dsimp only
    split
    · exact rfl
    refine (ipcCheckMchanIntegrity_always _).bind (fun err _ => ?_)
    split
    · exact rfl
    · exact rfl

/-- **A release** of an address outside the buffers is refused. -/
theorem ipcShmReleaseBuf_outside (hup : P.Up s d) (hid : P.Has (.chan c))
    (hout : ∀ x, P.HasBuf c x → ¬P.InBuf s true c x buf) :
    (ipcShmReleaseBuf d (P.inst s) c buf).Always (Env (P.μ s)) (Quiet (fun _ _ => False))
      (fun r => r = -EINVAL) := by
  have hfind := findPoolForBuf_outside hup hid hout
  unfold ipcShmReleaseBuf
  refine (ipcInstanceIsFree_always (fun _ h => h) d (P.inst s)).bind (fun st _ => ?_)
  split
  · exact rfl
  cases hget : getManagedChan d (P.inst s) c with
  | none => exact rfl
  | some mchan =>
    obtain ⟨-, rfl⟩ := hup.getManagedChan hget
    dsimp only
    split
    · exact rfl
    refine (ipcCheckMchanIntegrity_always _).bind (fun err _ => ?_)
    split
    · exact rfl
    · exact rfl

/-- **What the translations of a channel are**, on one side `s`, with driver `d`
there and driver `d'` at the peer. -/
structure RoundTrip (P : Peers) (s : Side) (d d' : Driver) (c : ℕ) : Prop where
  /-- An address in a buffer leads to the pool and the index of the buffer, in
  either window. -/
  find : ∀ remote x, P.HasBuf c x → ∀ buf, P.InBuf s remote c x buf →
    findPoolForBuf ((d.priv (P.inst s)).channels c).mng buf remote = x.1 ∧
      0 < (((d.priv (P.inst s)).channels c).mng.pools x.1).bufSize ∧
      u16 (subU64 buf ((((d.priv (P.inst s)).channels c).mng.pools x.1).addr remote)
        / (((d.priv (P.inst s)).channels c).mng.pools x.1).bufSize) = x.2
  /-- A transmission that returns 0 pushed exactly that, with the size given, into
  the ring of the channel. It returns 0 if the size is not 0, the remote is
  ready, the queues are intact and the ring has room, and else stores nothing.
  It divides by no zero. -/
  tx : ∀ x, P.HasBuf c x → ∀ buf, P.InBuf s false c x buf → ∀ size,
    SucceedsBy (fun tr => size ≠ 0 ∧ P.TxTrace s d c (bdBytes x size) tr)
      (ipcShmTx d (P.inst s) c buf size)
  /-- A release that returns 0 pushed it into the ring of the pool. It returns 0
  if the instance is in use, the queues are intact and the ring has room. -/
  release : ∀ x, P.HasBuf c x → ∀ buf, P.InBuf s true c x buf →
    SucceedsBy (P.ReleaseTrace s d c x.1 (bdBytes x 0)) (ipcShmReleaseBuf d (P.inst s) c buf)
  /-- The peer decodes the descriptor. -/
  decode : ∀ x, P.HasBuf c x → ∀ size, size < 2 ^ 32 →
    IpcShmBd.decode (bdBytes x size) = { poolId := x.1, bufId := x.2, dataSize := size }
  /-- What the peer computes from it, in its remote window for a transmission
  and in its local window for a release, is the start of the buffer, at the
  offset where it is on this side. -/
  address : ∀ remote x, P.HasBuf c x →
    u64 ((((d'.priv (P.inst s.other)).channels c).mng.pools x.1).addr remote
        + u32 (x.2 * (((d'.priv (P.inst s.other)).channels c).mng.pools x.1).bufSize))
      = (P.μ s.other).os.base remote + P.shape.bufOff c x
  /-- An address outside the buffers is not transmitted. -/
  txOutside : ∀ buf, (∀ x, P.HasBuf c x → ¬P.InBuf s false c x buf) → ∀ size,
    (ipcShmTx d (P.inst s) c buf size).Always (Env (P.μ s)) (Quiet (fun _ _ => False))
      (fun r => r = -EINVAL)
  /-- It is not released either. -/
  releaseOutside : ∀ buf, (∀ x, P.HasBuf c x → ¬P.InBuf s true c x buf) →
    (ipcShmReleaseBuf d (P.inst s) c buf).Always (Env (P.μ s)) (Quiet (fun _ _ => False))
      (fun r => r = -EINVAL)

/-- Accepted drivers are up. -/
theorem up_of_accepted (P : Peers) (s : Side) {d₀ d : Driver}
    (h : (ipcShmInitInstance d₀ (P.inst s) (some (P.cfg s))).Returns (Env (P.μ s)) (0, d)) :
    P.Up s d := by
  have hfit : (P.cfg s).footprint ≤ (P.μ s).size := P.size_eq s ▸ P.fits s
  obtain ⟨hos, hl⟩ := ipcShmInitInstance_laid (P.size_eq s) hfit h
  exact ⟨(ipcShmInitInstance_accepted h).1, hos, hl⟩

end Peers

/-- **Addresses and descriptors round trip.** For two peers whose symmetric
configurations fit and were accepted, on every managed channel of either
side. -/
theorem addresses_round_trip (P : Peers) (d₀ d : Side → Driver)
    (hacc : ∀ s, (ipcShmInitInstance (d₀ s) (P.inst s) (some (P.cfg s))).Returns (Env (P.μ s))
      (0, d s)) (s : Side) (c : ℕ) (hc : P.Has (.chan c)) :
    P.RoundTrip s (d s) (d s.other) c := by
  have hup := P.up_of_accepted s (hacc s)
  have hup' := P.up_of_accepted s.other (hacc s.other)
  exact
    { find := fun _ _ hx _ hin => Peers.findPoolForBuf_inBuf hup hx hin
      tx := fun _ hx _ hin size => Peers.ipcShmTx_succeedsBy hup hx hin size
      release := fun _ hx _ hin => Peers.ipcShmReleaseBuf_succeedsBy hup hx hin
      decode := fun _ hx _ hsize => Peers.decode_bdBytes hup hx hsize
      address := fun remote _ hx => (Peers.bufAddr_eq hup' hx remote).1
      txOutside := fun _ hout size => Peers.ipcShmTx_outside hup hc hout size
      releaseOutside := fun _ hout => Peers.ipcShmReleaseBuf_outside hup hc hout }

/-- The last byte of the last buffer of the sample configuration, transmitted by
side `a` once both sides are initialized. -/
theorem addresses_round_trip_sample : ∃ d : Side → Driver, ∃ tr,
    findPoolForBuf (((d .a).priv 0).channels 0).mng (0x1000 + 0xbf) false = 1 ∧
    (ipcShmTx (d .a) 0 0 (0x1000 + 0xbf) 32).Trace tr 0 ∧
    samplePeers.TxTrace .a (d .a) 0 (bdBytes (1, 0) 32) tr := by
  have hrun : ((ipcShmInitInstance {} 0 (some sampleCfg)).run (memHandle (twoWindows .b) .b)
      (fun _ _ => 0)).bind (fun b =>
        ((ipcShmInitInstance {} 0 (some sampleCfg)).run (memHandle (twoWindows .a) .a) b.2).bind
          fun a =>
        ((ipcShmTx a.1.2 0 0 (0x1000 + 0xbf) 32).runTraced (memHandle (twoWindows .a) .a)
          a.2).map fun t => (b.1.1, a.1.1, t.2.1)) = some (0, 0, 0) := by
    decide +kernel
  obtain ⟨⟨⟨_, db⟩, shm₁⟩, hb, hrun⟩ := Option.bind_eq_some_iff.mp hrun
  obtain ⟨⟨⟨_, da⟩, shm₂⟩, ha, hrun⟩ := Option.bind_eq_some_iff.mp hrun
  obtain ⟨⟨tr, _, shm₃⟩, htx, heq⟩ := Option.map_eq_some_iff.mp hrun
  simp only [Prod.mk.injEq] at heq
  obtain ⟨rfl, rfl, rfl⟩ := heq
  obtain ⟨d, rfl, rfl⟩ : ∃ d : Side → Driver, d .a = da ∧ d .b = db :=
    ⟨fun s => if s = .a then da else db, rfl, rfl⟩
  have hacc : ∀ s, (ipcShmInitInstance {} (samplePeers.inst s) (some (samplePeers.cfg s))).Returns
      (Env (samplePeers.μ s)) (0, d s) := by
    intro s
    cases s with
    | a => exact Program.returns_of_run env_of_memHandle ha
    | b => exact Program.returns_of_run env_of_memHandle hb
  have hid : samplePeers.Has (.pool 0 1) := ⟨by decide, _, rfl, by decide⟩
  have hx : samplePeers.HasBuf 0 (1, 0) := ⟨hid, show 0 < 1 by decide⟩
  have htrip := addresses_round_trip samplePeers (fun _ => {}) d hacc .a 0 hid.chan
  have hoff : samplePeers.shape.bufOff 0 (1, 0) = 0xa0 := by decide +kernel
  have hin : samplePeers.InBuf .a false 0 (1, 0) (0x1000 + 0xbf) := by
    rw [Peers.InBuf, hoff]
    decide
  have htr := Program.trace_of_runTraced htx
  exact ⟨d, tr, (htrip.find false (1, 0) hx _ hin).1, htr,
    (((htrip.tx (1, 0) hx _ hin 32).success tr).mp htr).2⟩
