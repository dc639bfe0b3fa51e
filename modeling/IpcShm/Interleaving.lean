import IpcShm.Window
import IpcShm.Cyclic

/-!
# Interleaved execution

Between two accesses of one thread any other thread may act. A thread is
therefore a residual program, and its step answers one request of it. A
`memcpy` is not one access: it is split into single bytes, copied in an order
the thread does not control, which covers every way an implementation may
chop it up. Index and sentinel accesses are single words, and memory is
sequentially consistent.

`PushMove` and `PopMove` say once what a step of a thread inside
`ipc_queue_push` and `ipc_queue_pop` can do: at which point of the function
it stands, what it does to memory, and where it stands next. Every invariant
about interleaved queue operations is proved by cases on these moves; the
functions are not unfolded again.
-/

/-- **A thread inside a driver function**: the program left to run, or the
middle of a `memcpy` with the byte positions still to be copied. -/
inductive Thread (α : Type) where
  | run (p : Drv α)
  | copyFrom (a : ℕ) (todo : List ℕ) (got : List UInt8) (k : List UInt8 → Drv α)
  | copyTo (a : ℕ) (bs : List UInt8) (todo : List ℕ) (k : Unit → Drv α)

namespace Thread

variable {α : Type}

/-- The request at the root of a program: a `memcpy` is begun, anything else
is answered. -/
def begin (μ : ShmMap) (s : Side) : (o : Op) → (o.Ret → Drv α) → Shm →
    Option (Thread α × Shm)
  | .memcpyFrom a n, k, shm =>
    some (.copyFrom a (List.range n) (List.replicate n 0) k, shm)
  | .memcpyTo a bs, k, shm => some (.copyTo a bs (List.range bs.length) k, shm)
  | o, k, shm => (memHandle μ s o shm).map (fun rs => (.run (k rs.1), rs.2))

/-- **A step of a thread** of peer `s`. The number `i` is the byte a `memcpy`
copies next; other steps ignore it. -/
def step (μ : ShmMap) (s : Side) (i : ℕ) : Thread α → Shm → Option (Thread α × Shm)
  | .run (.pure _), _ => none
  | .run (.op o k), shm => begin μ s o k shm
  | .copyFrom a todo got k, shm =>
    if todo = [] then some (.run (k got), shm)
    else if i ∈ todo then
      (memHandle μ s (.memcpyFrom (a + i) 1) shm).map (fun rs =>
        (.copyFrom a (todo.erase i) (got.set i (rs.1.headD 0)) k, rs.2))
    else none
  | .copyTo a bs todo k, shm =>
    if todo = [] then some (.run (k ()), shm)
    else if i ∈ todo then
      (memHandle μ s (.memcpyTo (a + i) [bs.getD i 0]) shm).map (fun rs =>
        (.copyTo a bs (todo.erase i) k, rs.2))
    else none

/-- The result of a thread that has returned. -/
def result : Thread α → Option α
  | .run (.pure a) => some a
  | _ => none

/-- The address of the load a thread is about to make. -/
def nextLoad : Thread α → Option ℕ
  | .run (.op (.load _ a) _) => some a
  | _ => none

/-- The block a thread is copying out of shared memory. -/
def copySrc : Thread α → Option ℕ
  | .run (.op (.memcpyFrom a _) _) => some a
  | .copyFrom a _ _ _ => some a
  | _ => none

/-- The block a thread is copying into shared memory. -/
def copyDst : Thread α → Option ℕ
  | .run (.op (.memcpyTo a _) _) => some a
  | .copyTo a _ _ _ => some a
  | _ => none

variable {μ : ShmMap} {s : Side} {i : ℕ} {shm shm' : Shm}

theorem step_load {n a v : ℕ} {k : ℕ → Drv α}
    (h : memHandle μ s (.load n a) shm = some (v, shm')) :
    step μ s i (.run (.op (.load n a) k)) shm = some (.run (k v), shm') := by
  show (memHandle μ s (.load n a) shm).map _ = _
  rw [h]
  rfl

theorem step_store {n a v : ℕ} {k : Unit → Drv α}
    (h : memHandle μ s (.store n a v) shm = some ((), shm')) :
    step μ s i (.run (.op (.store n a v) k)) shm = some (.run (k ()), shm') := by
  show (memHandle μ s (.store n a v) shm).map _ = _
  rw [h]
  rfl

end Thread

/-! ## Inside a push -/

/-- The rest of `ipc_queue_push` once both indexes are loaded. -/
def pushDecide (q : IpcQueue) (buf : List UInt8) (write read : ℕ) : Drv ℤ :=
  if q.elemNum ≤ read ∨ q.elemNum ≤ write then return -EINVAL
  else do
    let next ← remU (u32 (write + 1)) q.elemNum
    if next = read then
      return -ENOMEM
    else
      memcpyTo (q.pushRing + 16 + u32 (write * q.elemSize)) (buf.take q.elemSize)
      store32 (q.pushRing + 8) next
      return 0

/-- Where a thread stands inside `ipc_queue_push`. -/
inductive PushPc where
  /-- About to load the write index. -/
  | start
  /-- About to load the remote read index. -/
  | loaded (write : ℕ)
  /-- About to copy the element. -/
  | copy (write : ℕ)
  | copying (write : ℕ) (todo : List ℕ)
  /-- About to store the write index. -/
  | publish (write : ℕ)
  deriving DecidableEq

section Push

variable {α : Type} {q : IpcQueue} {μ : ShmMap} {off : ℕ} {s : Side}

/-- The thread at a point of `ipc_queue_push`, with what follows the
call. -/
def PushPc.thread (q : IpcQueue) (buf : List UInt8) (k : ℤ → Drv α) : PushPc → Thread α
  | .start => .run (ipcQueuePush q buf >>= k)
  | .loaded w => .run (.op (.load 4 (q.popRing + 12)) (fun r => pushDecide q buf w r >>= k))
  | .copy w => .run (.op (.memcpyTo (q.pushRing + 16 + w * q.elemSize) buf)
      (fun _ => .op (.store 4 (q.pushRing + 8) ((w + 1) % q.elemNum)) (fun _ => k 0)))
  | .copying w todo => .copyTo (q.pushRing + 16 + w * q.elemSize) buf todo
      (fun _ => .op (.store 4 (q.pushRing + 8) ((w + 1) % q.elemNum)) (fun _ => k 0))
  | .publish w =>
    .run (.op (.store 4 (q.pushRing + 8) ((w + 1) % q.elemNum)) (fun _ => k 0))

/-- **What a step inside `ipc_queue_push` does**: the next point, or the
result, and the memory after it. -/
inductive PushMove (q : IpcQueue) (buf : List UInt8) (off : ℕ) (s : Side) (i : ℕ) (shm : Shm) :
    PushPc → PushPc ⊕ ℤ → Shm → Prop where
  | start : PushMove q buf off s i shm .start (.inl (.loaded ((shm s).writeIdx off))) shm
  | invalid {w : ℕ} (h : q.elemNum ≤ (shm s.other).readIdx off ∨ q.elemNum ≤ w) :
      PushMove q buf off s i shm (.loaded w) (.inr (-EINVAL)) shm
  | full {w : ℕ} (hw : w < q.elemNum)
      (h : (w + 1) % q.elemNum = (shm s.other).readIdx off) :
      PushMove q buf off s i shm (.loaded w) (.inr (-ENOMEM)) shm
  | room {w : ℕ} (hw : w < q.elemNum) (hr : (shm s.other).readIdx off < q.elemNum)
      (h : (w + 1) % q.elemNum ≠ (shm s.other).readIdx off) :
      PushMove q buf off s i shm (.loaded w) (.inl (.copy w)) shm
  | copy {w : ℕ} :
      PushMove q buf off s i shm (.copy w) (.inl (.copying w (List.range q.elemSize))) shm
  | byte {w : ℕ} {todo : List ℕ} (hi : i ∈ todo) :
      PushMove q buf off s i shm (.copying w todo) (.inl (.copying w (todo.erase i)))
        (shm.set s ((shm s).write (off + 16 + w * q.elemSize + i) [buf.getD i 0]))
  | copied {w : ℕ} :
      PushMove q buf off s i shm (.copying w []) (.inl (.publish w)) shm
  | publish {w : ℕ} :
      PushMove q buf off s i shm (.publish w) (.inr 0)
        (shm.set s ((shm s).store 4 (off + 8) ((w + 1) % q.elemNum)))

/-- The thread a move leads to. -/
def PushPc.threadOf (q : IpcQueue) (buf : List UInt8) (k : ℤ → Drv α) :
    PushPc ⊕ ℤ → Thread α
  | .inl pc => pc.thread q buf k
  | .inr err => .run (k err)

/-- Points a push can reach: slots in the ring, bytes of the element. -/
def PushPc.Ok (q : IpcQueue) : PushPc → Prop
  | .start => True
  | .loaded _ => True
  | .copy w => w < q.elemNum
  | .copying w todo => w < q.elemNum ∧ ∀ i ∈ todo, i < q.elemSize
  | .publish w => w < q.elemNum

theorem ipcQueuePush_eq (h : q.At μ off) (buf : List UInt8) :
    ipcQueuePush q buf
      = .op (.load 4 (q.pushRing + 8)) (fun w =>
          .op (.load 4 (q.popRing + 12)) (fun r => pushDecide q buf w r)) := by
  rw [ipcQueuePush, if_neg h.not_null]
  rfl

/-- With indexes in range the decision is between full and copying. -/
theorem pushDecide_bind (h : q.At μ off) {buf : List UInt8}
    (hbuf : buf.length = q.elemSize) {w r : ℕ} (hw : w < q.elemNum)
    (hr : r < q.elemNum) (k : ℤ → Drv α) :
    (pushDecide q buf w r >>= k)
      = if (w + 1) % q.elemNum = r then k (-ENOMEM)
        else .op (.memcpyTo (q.pushRing + 16 + w * q.elemSize) buf) (fun _ =>
          .op (.store 4 (q.pushRing + 8) ((w + 1) % q.elemNum)) (fun _ => k 0)) := by
  rw [pushDecide, if_neg (by omega), remU_of_pos (by omega), h.u32_succ hw,
    h.u32_slot hw, List.take_of_length_le (by omega), Program.pure_bind]
  split <;> rfl

/-- **The moves are all a push can do.** -/
theorem pushMove_of_step (h : q.At μ off) {buf : List UInt8}
    (hbuf : buf.length = q.elemSize) {k : ℤ → Drv α} {pc : PushPc} (hpc : pc.Ok q)
    {i : ℕ} {shm shm' : Shm} {th : Thread α}
    (hs : Thread.step μ s i (pc.thread q buf k) shm = some (th, shm')) :
    ∃ out, PushMove q buf off s i shm pc out shm' ∧ th = PushPc.threadOf q buf k out := by
  cases pc with
  | start =>
    rw [PushPc.thread, ipcQueuePush_eq h, Program.op_bind,
      Thread.step_load h.load_pushWrite] at hs
    obtain ⟨rfl, rfl⟩ := Prod.mk.inj (Option.some.inj hs)
    exact ⟨_, .start, rfl⟩
  | loaded w =>
    rw [PushPc.thread, Thread.step_load h.load_popRead] at hs
    obtain ⟨rfl, rfl⟩ := Prod.mk.inj (Option.some.inj hs)
    by_cases hv : q.elemNum ≤ (shm s.other).readIdx off ∨ q.elemNum ≤ w
    · refine ⟨_, .invalid hv, ?_⟩
      rw [pushDecide, if_pos hv]
      rfl
    · rw [pushDecide_bind h hbuf (by omega) (by omega)]
      by_cases hf : (w + 1) % q.elemNum = (shm s.other).readIdx off
      · exact ⟨_, .full (by omega) hf, by rw [if_pos hf]; rfl⟩
      · exact ⟨_, .room (by omega) (by omega) hf, by rw [if_neg hf]; rfl⟩
  | copy w =>
    obtain ⟨rfl, rfl⟩ := Prod.mk.inj (Option.some.inj hs)
    refine ⟨_, .copy, ?_⟩
    rw [hbuf]
    rfl
  | copying w todo =>
    obtain ⟨hw, htodo⟩ := hpc
    rw [PushPc.thread, Thread.step] at hs
    split at hs
    · rename_i hnil
      subst hnil
      obtain ⟨rfl, rfl⟩ := Prod.mk.inj (Option.some.inj hs)
      exact ⟨_, .copied, rfl⟩
    · split at hs
      · rename_i hi
        have hfit := h.slot_fits hw
        have hlt := htodo i hi
        rw [h.pushRing_eq,
          show μ.localShm + off + 16 + w * q.elemSize + i
            = μ.localShm + (off + 16 + w * q.elemSize + i) by omega,
          memHandle_memcpyTo_local (by simp only [List.length_singleton]; omega)] at hs
        obtain ⟨rfl, rfl⟩ := Prod.mk.inj (Option.some.inj hs)
        refine ⟨_, .byte hi, ?_⟩
        rw [PushPc.threadOf, PushPc.thread, h.pushRing_eq]
      · exact absurd hs (by simp)
  | publish w =>
    rw [PushPc.thread, Thread.step_store h.store_pushWrite] at hs
    obtain ⟨rfl, rfl⟩ := Prod.mk.inj (Option.some.inj hs)
    exact ⟨_, .publish, rfl⟩

/-- Moves keep to the points a push can reach. -/
theorem PushMove.ok {buf : List UInt8} {i : ℕ} {shm shm' : Shm} {pc pc' : PushPc}
    (hm : PushMove q buf off s i shm pc (.inl pc') shm') (hpc : pc.Ok q) : pc'.Ok q := by
  cases hm with
  | start => trivial
  | room hw hr h => exact hw
  | copy => exact ⟨hpc, fun i hi => List.mem_range.mp hi⟩
  | byte hi => exact ⟨hpc.1, fun j hj => hpc.2 j (List.mem_of_mem_erase hj)⟩
  | copied => exact hpc.1

/-- What a push does not touch. -/
theorem PushMove.frame {elem : List UInt8} {i : ℕ} {shm shm' : Shm} {pc : PushPc}
    {o : PushPc ⊕ ℤ} (hm : PushMove q elem off s i shm pc o shm') :
    shm' s.other = shm s.other ∧ (shm' s).readIdx off = (shm s).readIdx off ∧
      (shm' s).sentinel off = (shm s).sentinel off := by
  cases hm with
  | byte hi =>
    rw [Shm.set_other, Shm.set_self, Nat.add_assoc (off + 16)]
    simp
  | publish => simp
  | _ => exact ⟨rfl, rfl, rfl⟩

end Push

/-! ## Inside a pop -/

/-- The rest of `ipc_queue_pop` once the indexes are loaded and the sentinels
checked. -/
def popDecide (q : IpcQueue) (write read : ℕ) (err : ℤ) : Drv (ℤ × List UInt8) :=
  if err ≠ 0 ∨ q.elemNum ≤ read ∨ q.elemNum ≤ write then return (-EINVAL, [])
  else if read = write then return (-ENOBUFS, [])
  else do
    let buf ← memcpyFrom (q.popRing + 16 + u32 (read * q.elemSize)) q.elemSize
    let next ← remU (u32 (read + 1)) q.elemNum
    store32 (q.pushRing + 12) next
    return (0, buf)

/-- Where a thread stands inside `ipc_queue_pop`. -/
inductive PopPc where
  /-- About to load the remote write index. -/
  | start
  /-- About to load the read index. -/
  | loadedWrite (write : ℕ)
  /-- About to load the remote sentinel. -/
  | loadedRead (write read : ℕ)
  /-- About to load the local sentinel. -/
  | checked (write read : ℕ)
  /-- About to copy the element. -/
  | copy (read : ℕ)
  | copying (read : ℕ) (todo : List ℕ) (got : List UInt8)
  /-- About to store the read index. -/
  | publish (read : ℕ) (got : List UInt8)
  deriving DecidableEq

section Pop

variable {α : Type} {q : IpcQueue} {μ : ShmMap} {off : ℕ} {s : Side}

/-- The end of `ipc_queue_pop`, once the element is copied. -/
def popFinish (q : IpcQueue) (r : ℕ) (k : ℤ × List UInt8 → Drv α) (buf : List UInt8) : Drv α :=
  .op (.store 4 (q.pushRing + 12) ((r + 1) % q.elemNum)) (fun _ => k (0, buf))

/-- The check of the local sentinel and what follows it. -/
def popCheckLocal (q : IpcQueue) (w r : ℕ) (k : ℤ × List UInt8 → Drv α) : Drv α :=
  .op (.load 8 q.pushRing) (fun v =>
    popDecide q w r (if ipcQueueInitDone = v then 0 else -EINVAL) >>= k)

/-- The thread at a point of `ipc_queue_pop`, with what follows the call. -/
def PopPc.thread (q : IpcQueue) (k : ℤ × List UInt8 → Drv α) : PopPc → Thread α
  | .start => .run (ipcQueuePop q >>= k)
  | .loadedWrite w => .run (.op (.load 4 (q.pushRing + 12)) (fun r =>
      ipcQueueCheckIntegrity q >>= fun err => popDecide q w r err >>= k))
  | .loadedRead w r =>
    .run (ipcQueueCheckIntegrity q >>= fun err => popDecide q w r err >>= k)
  | .checked w r => .run (popCheckLocal q w r k)
  | .copy r => .run (.op (.memcpyFrom (q.popRing + 16 + r * q.elemSize) q.elemSize)
      (popFinish q r k))
  | .copying r todo got =>
    .copyFrom (q.popRing + 16 + r * q.elemSize) todo got (popFinish q r k)
  | .publish r got => .run (popFinish q r k got)

/-- **What a step inside `ipc_queue_pop` does.** -/
inductive PopMove (q : IpcQueue) (off : ℕ) (s : Side) (i : ℕ) (shm : Shm) :
    PopPc → PopPc ⊕ (ℤ × List UInt8) → Shm → Prop where
  | start : PopMove q off s i shm .start (.inl (.loadedWrite ((shm s.other).writeIdx off))) shm
  | loadRead {w : ℕ} :
      PopMove q off s i shm (.loadedWrite w) (.inl (.loadedRead w ((shm s).readIdx off))) shm
  | badRemote {w r : ℕ} (h : (shm s.other).sentinel off ≠ ipcQueueInitDone) :
      PopMove q off s i shm (.loadedRead w r) (.inr (-EINVAL, [])) shm
  | check {w r : ℕ} (h : (shm s.other).sentinel off = ipcQueueInitDone) :
      PopMove q off s i shm (.loadedRead w r) (.inl (.checked w r)) shm
  | invalid {w r : ℕ}
      (h : (shm s).sentinel off ≠ ipcQueueInitDone ∨ q.elemNum ≤ r ∨ q.elemNum ≤ w) :
      PopMove q off s i shm (.checked w r) (.inr (-EINVAL, [])) shm
  | empty {w r : ℕ} (h : r = w) :
      PopMove q off s i shm (.checked w r) (.inr (-ENOBUFS, [])) shm
  | some {w r : ℕ} (hr : r < q.elemNum) (hw : w < q.elemNum) (h : r ≠ w) :
      PopMove q off s i shm (.checked w r) (.inl (.copy r)) shm
  | copy {r : ℕ} :
      PopMove q off s i shm (.copy r)
        (.inl (.copying r (List.range q.elemSize) (List.replicate q.elemSize 0))) shm
  | byte {r : ℕ} {todo : List ℕ} {got : List UInt8} (hi : i ∈ todo) :
      PopMove q off s i shm (.copying r todo got)
        (.inl (.copying r (todo.erase i)
          (got.set i (shm s.other (off + 16 + r * q.elemSize + i))))) shm
  | copied {r : ℕ} {got : List UInt8} :
      PopMove q off s i shm (.copying r [] got) (.inl (.publish r got)) shm
  | publish {r : ℕ} {got : List UInt8} :
      PopMove q off s i shm (.publish r got) (.inr (0, got))
        (shm.set s ((shm s).store 4 (off + 12) ((r + 1) % q.elemNum)))

/-- The thread a move leads to. -/
def PopPc.threadOf (q : IpcQueue) (k : ℤ × List UInt8 → Drv α) :
    PopPc ⊕ (ℤ × List UInt8) → Thread α
  | .inl pc => pc.thread q k
  | .inr res => .run (k res)

/-- Points a pop can reach. -/
def PopPc.Ok (q : IpcQueue) : PopPc → Prop
  | .copy r => r < q.elemNum
  | .copying r todo got =>
    r < q.elemNum ∧ got.length = q.elemSize ∧ ∀ i ∈ todo, i < q.elemSize
  | .publish r _ => r < q.elemNum
  | _ => True

theorem ipcQueuePop_eq (h : q.At μ off) :
    ipcQueuePop q
      = .op (.load 4 (q.popRing + 8)) (fun w =>
          .op (.load 4 (q.pushRing + 12)) (fun r =>
            ipcQueueCheckIntegrity q >>= popDecide q w r)) := by
  rw [ipcQueuePop, if_neg h.not_null]
  rfl

theorem popDecide_bind (h : q.At μ off) {w r : ℕ} (hw : w < q.elemNum)
    (hr : r < q.elemNum) (k : ℤ × List UInt8 → Drv α) :
    (popDecide q w r 0 >>= k)
      = if r = w then k (-ENOBUFS, [])
        else .op (.memcpyFrom (q.popRing + 16 + r * q.elemSize) q.elemSize)
          (popFinish q r k) := by
  rw [popDecide, if_neg (by omega), h.u32_succ hr, h.u32_slot hr]
  split
  · rfl
  · rw [memcpyFrom_bind, Program.op_bind]
    congr 1
    funext buf
    rw [remU_of_pos (by omega)]
    rfl

/-- **The moves are all a pop can do.** -/
theorem popMove_of_step (h : q.At μ off) {k : ℤ × List UInt8 → Drv α} {pc : PopPc}
    (hpc : pc.Ok q) {i : ℕ} {shm shm' : Shm} {th : Thread α}
    (hs : Thread.step μ s i (pc.thread q k) shm = some (th, shm')) :
    ∃ out, PopMove q off s i shm pc out shm' ∧ th = PopPc.threadOf q k out := by
  cases pc with
  | start =>
    rw [PopPc.thread, ipcQueuePop_eq h, Program.op_bind,
      Thread.step_load h.load_popWrite] at hs
    obtain ⟨rfl, rfl⟩ := Prod.mk.inj (Option.some.inj hs)
    exact ⟨_, .start, by simp only [Program.op_bind, Program.bind_assoc']; rfl⟩
  | loadedWrite w =>
    rw [PopPc.thread, Thread.step_load h.load_pushRead] at hs
    obtain ⟨rfl, rfl⟩ := Prod.mk.inj (Option.some.inj hs)
    exact ⟨_, .loadRead, rfl⟩
  | loadedRead w r =>
    rw [PopPc.thread, ipcQueueCheckIntegrity, load64_bind, Program.op_bind,
      Thread.step_load h.load_popSentinel] at hs
    obtain ⟨rfl, rfl⟩ := Prod.mk.inj (Option.some.inj hs)
    by_cases hd : (shm s.other).sentinel off = ipcQueueInitDone
    · refine ⟨_, .check hd, ?_⟩
      rw [if_pos hd.symm, load64_bind, Program.op_bind]
      show Thread.run (.op (.load 8 q.pushRing) _) = Thread.run (popCheckLocal q w r k)
      rw [popCheckLocal]
      congr 2
      funext v
      split <;> rfl
    · refine ⟨_, .badRemote hd, ?_⟩
      rw [if_neg (Ne.symm hd)]
      rfl
  | checked w r =>
    rw [PopPc.thread, popCheckLocal, Thread.step_load h.load_pushSentinel] at hs
    obtain ⟨rfl, rfl⟩ := Prod.mk.inj (Option.some.inj hs)
    by_cases hv : (shm s).sentinel off ≠ ipcQueueInitDone ∨ q.elemNum ≤ r ∨ q.elemNum ≤ w
    · refine ⟨_, .invalid hv, ?_⟩
      rw [popDecide, if_pos]
      · rfl
      · rcases hv with hv | hv
        · exact Or.inl (by rw [if_neg (Ne.symm hv)]; decide)
        · exact Or.inr hv
    · obtain ⟨hd, hv⟩ := not_or.mp hv
      rw [if_pos (not_not.mp hd).symm, popDecide_bind h (by omega) (by omega)]
      by_cases he : r = w
      · exact ⟨_, .empty he, by rw [if_pos he]; rfl⟩
      · exact ⟨_, .some (by omega) (by omega) he, by rw [if_neg he]; rfl⟩
  | copy r =>
    obtain ⟨rfl, rfl⟩ := Prod.mk.inj (Option.some.inj hs)
    exact ⟨_, .copy, rfl⟩
  | copying r todo got =>
    obtain ⟨hr, hgot, htodo⟩ := hpc
    rw [PopPc.thread, Thread.step] at hs
    split at hs
    · rename_i hnil
      subst hnil
      obtain ⟨rfl, rfl⟩ := Prod.mk.inj (Option.some.inj hs)
      exact ⟨_, .copied, rfl⟩
    · split at hs
      · rename_i hi
        have hfit := h.slot_fits hr
        have hlt := htodo i hi
        rw [h.popRing_eq,
          show μ.remoteShm + off + 16 + r * q.elemSize + i
            = μ.remoteShm + (off + 16 + r * q.elemSize + i) by omega,
          memHandle_memcpyFrom_remote (by omega) (by omega)] at hs
        obtain ⟨rfl, rfl⟩ := Prod.mk.inj (Option.some.inj hs)
        refine ⟨_, .byte hi, ?_⟩
        rw [PopPc.threadOf, PopPc.thread, h.popRing_eq]
        rfl
      · exact absurd hs (by simp)
  | publish r got =>
    rw [PopPc.thread, popFinish, Thread.step_store h.store_pushRead] at hs
    obtain ⟨rfl, rfl⟩ := Prod.mk.inj (Option.some.inj hs)
    exact ⟨_, .publish, rfl⟩

/-- What a pop does not touch. -/
theorem PopMove.frame {i : ℕ} {shm shm' : Shm} {pc : PopPc} {o : PopPc ⊕ (ℤ × List UInt8)}
    (hm : PopMove q off s i shm pc o shm') :
    shm' s.other = shm s.other ∧ (shm' s).writeIdx off = (shm s).writeIdx off ∧
      (shm' s).sentinel off = (shm s).sentinel off ∧
      ∀ a, off + 16 ≤ a → shm' s a = shm s a := by
  cases hm <;> simp
  intro a ha
  exact ByteMem.store_of_not_mem _ (by omega)

end Pop
