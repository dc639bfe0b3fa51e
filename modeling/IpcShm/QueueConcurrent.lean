import IpcShm.Interleaving
import IpcShm.Ring

/-!
# One queue, four threads

The two endpoints of a queue, with one pusher and one popper each. Threads
take single memory steps in any order, and nothing but the queue itself keeps
them apart. The system records what happened: the elements pushed and popped
so far, and for each completed call its return value together with the number
of unpopped elements when it loaded the index the other endpoint writes.

A call completes with its last memory step. That step publishes an index, so
the element is pushed, or popped, for the other endpoint and for the record
at the same moment.

The invariant of a direction is that it holds exactly the elements pushed and
not yet popped (`RingHolds`), together with what each of its two threads may
rely on at the point where it stands. The other direction shares the two
windows but no field of the direction, which is all that has to be said about
its threads.
-/

/-- A push in progress. -/
structure PushTask where
  /-- The element the caller passed. -/
  elem : List UInt8
  thread : Thread ℤ
  /-- Elements unpopped when the remote read index was loaded. -/
  seen : ℕ

/-- A pop in progress. -/
structure PopTask where
  thread : Thread (ℤ × List UInt8)
  /-- Elements unpopped when the remote write index was loaded. -/
  seen : ℕ

/-- **The state of a queue and its four threads.** -/
structure QueueSys where
  shm : Shm
  pusher : Side → Option PushTask := fun _ => none
  popper : Side → Option PopTask := fun _ => none
  /-- The elements successfully pushed by a side, in order. -/
  pushed : Side → List (List UInt8) := fun _ => []
  /-- The elements popped by a side, in order. -/
  popped : Side → List (List UInt8) := fun _ => []
  /-- What the pushes of a side returned, and what they had seen. -/
  pushRets : Side → List (ℤ × ℕ) := fun _ => []
  popRets : Side → List (ℤ × ℕ) := fun _ => []

/-- A step of the system: a call begins, or a thread takes a memory step. -/
inductive QueueAct where
  | startPush (s : Side) (elem : List UInt8)
  | startPop (s : Side)
  | stepPush (s : Side) (i : ℕ)
  | stepPop (s : Side) (i : ℕ)
  deriving DecidableEq

namespace QueueSys

/-- Elements pushed by a side and not yet popped by the other. -/
def unpopped (σ : QueueSys) (d : Side) : ℕ :=
  (σ.pushed d).length - (σ.popped d.other).length

/-- The system after a step of the push of a side, which either goes on or
returns. -/
def pushAfter (σ : QueueSys) (s : Side) (t : PushTask) (th : Thread ℤ) (shm : Shm) :
    QueueSys :=
  match th.result with
  | none =>
    { σ with
      shm := shm
      pusher := Function.update σ.pusher s (some { t with thread := th }) }
  | some ret =>
    { σ with
      shm := shm
      pusher := Function.update σ.pusher s none
      pushed := if ret = 0 then Function.update σ.pushed s (σ.pushed s ++ [t.elem]) else σ.pushed
      pushRets := Function.update σ.pushRets s (σ.pushRets s ++ [(ret, t.seen)]) }

/-- The system after a step of the pop of a side. -/
def popAfter (σ : QueueSys) (s : Side) (t : PopTask) (th : Thread (ℤ × List UInt8))
    (shm : Shm) : QueueSys :=
  match th.result with
  | none =>
    { σ with
      shm := shm
      popper := Function.update σ.popper s (some { t with thread := th }) }
  | some (ret, elem) =>
    { σ with
      shm := shm
      popper := Function.update σ.popper s none
      popped := if ret = 0 then Function.update σ.popped s (σ.popped s ++ [elem]) else σ.popped
      popRets := Function.update σ.popRets s (σ.popRets s ++ [(ret, t.seen)]) }

variable (q : Side → IpcQueue) (μ : Side → ShmMap)

/-- A push that is about to load the remote read index sees what is unpopped
now. -/
def lookPush (σ : QueueSys) (s : Side) (t : PushTask) : PushTask :=
  if t.thread.nextLoad = some ((q s).popRing + 12) then { t with seen := σ.unpopped s } else t

/-- A pop that is about to load the remote write index sees what is unpopped
now. -/
def lookPop (σ : QueueSys) (s : Side) (t : PopTask) : PopTask :=
  if t.thread.nextLoad = some ((q s).popRing + 8) then
    { t with seen := σ.unpopped s.other }
  else t

/-- **A step of the system.** -/
def step (σ : QueueSys) : QueueAct → Option QueueSys
  | .startPush s elem =>
    if (σ.pusher s).isNone ∧ elem.length = (q s).elemSize then
      some { σ with
        pusher := Function.update σ.pusher s
          (some { elem := elem, thread := .run (ipcQueuePush (q s) elem), seen := 0 }) }
    else none
  | .startPop s =>
    if (σ.popper s).isNone then
      some { σ with
        popper := Function.update σ.popper s
          (some { thread := .run (ipcQueuePop (q s)), seen := 0 }) }
    else none
  | .stepPush s i =>
    (σ.pusher s).bind (fun t => (t.thread.step (μ s) s i σ.shm).map (fun r =>
      σ.pushAfter s (σ.lookPush q s t) r.1 r.2))
  | .stepPop s i =>
    (σ.popper s).bind (fun t => (t.thread.step (μ s) s i σ.shm).map (fun r =>
      σ.popAfter s (σ.lookPop q s t) r.1 r.2))

end QueueSys

/-- **Two endpoints of one queue** of `N` elements: each mapped at the offset
`off` of the windows, so that the push ring of one is the pop ring of the
other. -/
structure Endpoints (q : Side → IpcQueue) (μ : Side → ShmMap) (off N : ℕ) : Prop where
  mapped : ∀ s, (q s).At (μ s) off
  elemNum_eq : ∀ s, (q s).elemNum = N + 1
  elemSize_eq : ∀ s, (q s.other).elemSize = (q s).elemSize
  pos : 1 ≤ N
  le : N ≤ 65534

/-- The queue is initialized, both directions are empty, and no call was
made. -/
structure QueueSys.Initial (off N : ℕ) (σ : QueueSys) : Prop where
  done : σ.shm.Done off
  write_eq : ∀ d, (σ.shm d).writeIdx off = (σ.shm d.other).readIdx off
  read_lt : ∀ d, (σ.shm d).readIdx off < N + 1
  pusher : ∀ d, σ.pusher d = none
  popper : ∀ d, σ.popper d = none
  pushed : ∀ d, σ.pushed d = []
  popped : ∀ d, σ.popped d = []
  pushRets : ∀ d, σ.pushRets d = []
  popRets : ∀ d, σ.popRets d = []

/-- **What the queue guarantees in the direction `d`.** -/
structure QueueSys.Safe (q : Side → IpcQueue) (off N : ℕ) (σ : QueueSys) (d : Side) :
    Prop where
  /-- The elements popped are, in order and byte for byte, a prefix of the
  elements pushed. -/
  fifo : σ.popped d.other <+: σ.pushed d
  bounded : (σ.pushed d).length ≤ (σ.popped d.other).length + N
  /-- The unpopped elements are in the slots from the read index on. -/
  stored : ∀ t, t < σ.unpopped d →
    (σ.pushed d)[(σ.popped d.other).length + t]?
      = some ((σ.shm d).slot off (q d).elemSize
          (((σ.shm d.other).readIdx off + t) % (q d).elemNum))
  /-- The slot a push copies into is none of these, and not the slot a pop
  copies from. -/
  exclusive : ∀ t, σ.pusher d = some t → ∀ a, t.thread.copyDst = some a →
    ∃ w, w < (q d).elemNum ∧ a = (q d).pushRing + 16 + w * (q d).elemSize ∧
      (∀ j, j < σ.unpopped d →
        w ≠ ((σ.shm d.other).readIdx off + j) % (q d).elemNum) ∧
      ∀ t', σ.popper d.other = some t' → ∀ a', t'.thread.copySrc = some a' →
        ∃ r, r < (q d).elemNum ∧
          a' = (q d.other).popRing + 16 + r * (q d).elemSize ∧ r ≠ w
  /-- A push fails only with `-ENOMEM`, and only if exactly `N` elements were
  unpopped when it loaded the remote read index. -/
  pushRets : ∀ r ∈ σ.pushRets d, r.1 = 0 ∨ r.1 = -ENOMEM ∧ r.2 = N
  /-- A pop fails only with `-ENOBUFS`, and only if no element was unpopped
  when it loaded the remote write index. -/
  popRets : ∀ r ∈ σ.popRets d.other, r.1 = 0 ∨ r.1 = -ENOBUFS ∧ r.2 = 0

/-! ## What the threads rely on -/

/-- What a push relies on where it stands, with `n` elements held: the write
index is its own, there is room, and the bytes outside `todo` are copied. -/
def PushPc.Holds (off N E : ℕ) (elem : List UInt8) (out : ByteMem) (n : ℕ) : PushPc → Prop
  | .start => True
  | .loaded w => w = out.writeIdx off
  | .copy w => w = out.writeIdx off ∧ n < N
  | .copying w todo => w = out.writeIdx off ∧ n < N ∧ (∀ i ∈ todo, i < E) ∧
      ∀ i, i < E → i ∉ todo → out (off + 16 + w * E + i) = elem.getD i 0
  | .publish w => w = out.writeIdx off ∧ n < N ∧ out.slot off E w = elem

/-- What a pop relies on: the read index `rd` is its own, and a write index
loaded earlier does not lead beyond what is held. -/
def PopPc.Holds (N E rd : ℕ) (xs : List (List UInt8)) (seen : ℕ) : PopPc → Prop
  | .start => True
  | .loadedWrite w => seen ≤ xs.length ∧ w = (rd + seen) % (N + 1)
  | .loadedRead w r => r = rd ∧ seen ≤ xs.length ∧ w = (rd + seen) % (N + 1)
  | .checked w r => r = rd ∧ seen ≤ xs.length ∧ w = (rd + seen) % (N + 1)
  | .copy r => r = rd ∧ xs ≠ []
  | .copying r todo got => r = rd ∧ got.length = E ∧ (∀ i ∈ todo, i < E) ∧
      ∃ x, xs.head? = some x ∧ x.length = E ∧ ∀ i, i < E → i ∉ todo → got[i]? = x[i]?
  | .publish r got => r = rd ∧ xs.head? = some got

section Threads

variable {q : IpcQueue} {μ : ShmMap} {off N E i n rd seen : ℕ} {s : Side} {shm shm' : Shm}
  {elem : List UInt8} {out out' : ByteMem} {xs : List (List UInt8)}

theorem PushPc.Holds.ok {pc : PushPc} (h : pc.Holds off N q.elemSize elem out n)
    (hw : out.writeIdx off < q.elemNum) : pc.Ok q := by
  cases pc with
  | start => trivial
  | loaded w => trivial
  | copy w => exact h.1 ▸ hw
  | copying w todo => exact ⟨h.1 ▸ hw, h.2.2.1⟩
  | publish w => exact h.1 ▸ hw

/-- A push relies on its write index, on its slots, and on there being no
more elements than before. -/
theorem PushPc.Holds.congr {pc : PushPc} {n' : ℕ} (h : pc.Holds off N E elem out n)
    (hw : out'.writeIdx off = out.writeIdx off)
    (hs : ∀ a, off + 16 ≤ a → out' a = out a) (hn : n' ≤ n) :
    pc.Holds off N E elem out' n' := by
  cases pc with
  | start => trivial
  | loaded w => exact Eq.trans h hw.symm
  | copy w => exact ⟨h.1.trans hw.symm, by have := h.2; omega⟩
  | copying w todo =>
    refine ⟨h.1.trans hw.symm, by have := h.2.1; omega, h.2.2.1, fun i hi hni => ?_⟩
    rw [hs _ (by omega)]
    exact h.2.2.2 i hi hni
  | publish w =>
    refine ⟨h.1.trans hw.symm, by have := h.2.1; omega, ?_⟩
    rw [← h.2.2]
    exact ByteMem.read_congr (fun i _ => hs _ (by omega))

theorem PopPc.Holds.ok {pc : PopPc} (h : pc.Holds N q.elemSize rd xs seen)
    (hr : rd < q.elemNum) : pc.Ok q := by
  cases pc with
  | copy r => exact h.1 ▸ hr
  | copying r todo got => exact ⟨h.1 ▸ hr, h.2.1, h.2.2.1⟩
  | publish r got => exact h.1 ▸ hr
  | start => trivial
  | loadedWrite w => trivial
  | loadedRead w r => trivial
  | checked w r => trivial

/-- A pop does not mind more elements. -/
theorem PopPc.Holds.append {pc : PopPc} (h : pc.Holds N E rd xs seen)
    (x : List UInt8) : pc.Holds N E rd (xs ++ [x]) seen := by
  have hlen : (xs ++ [x]).length = xs.length + 1 := by simp
  cases pc with
  | start => trivial
  | loadedWrite w => exact ⟨by have := h.1; omega, h.2⟩
  | loadedRead w r => exact ⟨h.1, by have := h.2.1; omega, h.2.2⟩
  | checked w r => exact ⟨h.1, by have := h.2.1; omega, h.2.2⟩
  | copy r => exact ⟨h.1, by simp⟩
  | copying r todo got =>
    obtain ⟨hr, hlen', htodo, y, hy, hrest⟩ := h
    exact ⟨hr, hlen', htodo, y, by rw [List.head?_append, hy]; rfl, hrest⟩
  | publish r got => exact ⟨h.1, by rw [List.head?_append, h.2]; rfl⟩

/-- **A push under way** keeps what its direction holds. -/
theorem PushMove.holds {pc pc' : PushPc} (hm : PushMove q elem off s i shm pc (.inl pc') shm')
    (hM : q.elemNum = N + 1) (helem : elem.length = q.elemSize)
    (hr : RingHolds off N q.elemSize (shm s) (shm s.other) xs)
    (hh : pc.Holds off N q.elemSize elem (shm s) xs.length) :
    RingHolds off N q.elemSize (shm' s) (shm' s.other) xs ∧
      pc'.Holds off N q.elemSize elem (shm' s) xs.length := by
  cases hm with
  | start => exact ⟨hr, rfl⟩
  | @room w hw hrd h =>
    have hlen := hr.length_le
    refine ⟨hr, hh, ?_⟩
    by_contra hge
    have hw' : w = (shm s).writeIdx off := hh
    rw [hw', hM] at h
    exact h (hr.full_iff.mpr (by omega))
  | copy => exact ⟨hr, hh.1, hh.2, fun i hi => List.mem_range.mp hi,
      fun i hi hni => absurd (List.mem_range.mpr hi) hni⟩
  | @byte w todo hi =>
    obtain ⟨hw, hlen, htodo, hdone⟩ := hh
    have hiE := htodo i hi
    have hwi : ((shm s).write (off + 16 + w * q.elemSize + i) [elem.getD i 0]).writeIdx off
        = (shm s).writeIdx off := by
      rw [Nat.add_assoc, ByteMem.writeIdx_write_slot]
    rw [Shm.set_self, Shm.set_other]
    refine ⟨?_, by rw [hwi]; exact hw, hlen,
      fun j hj => htodo j (List.mem_of_mem_erase hj), fun j hj hnj => ?_⟩
    · rw [hw]
      exact hr.write_free (by rw [List.length_singleton]; omega)
    · by_cases hji : j = i
      · subst hji
        exact ByteMem.write_of_mem (i := 0) (shm s) (by simp)
      · rw [ByteMem.write_of_not_mem _ (by simp only [List.length_singleton]; omega)]
        exact hdone j hj (fun hmem => hnj ((List.mem_erase_of_ne hji).mpr hmem))
  | @copied w =>
    obtain ⟨hw, hlen, -, hdone⟩ := hh
    refine ⟨hr, hw, hlen, ?_⟩
    refine List.ext_getElem (by rw [ByteMem.slot_length, helem]) (fun j h₁ h₂ => ?_)
    rw [ByteMem.slot_getElem, hdone j (by omega) (by simp),
      List.getD_eq_getElem?_getD, List.getElem?_eq_getElem h₂]
    rfl

/-- **A push that returns** failed on a full queue, or appended its
element. -/
theorem PushMove.returns {pc : PushPc} {ret : ℤ}
    (hm : PushMove q elem off s i shm pc (.inr ret) shm')
    (hM : q.elemNum = N + 1) (hN : N < 2 ^ 16)
    (hr : RingHolds off N q.elemSize (shm s) (shm s.other) xs)
    (hh : pc.Holds off N q.elemSize elem (shm s) xs.length) :
    (ret = -ENOMEM ∧ xs.length = N ∧ shm' = shm ∧ ∃ w, pc = .loaded w) ∨
      ret = 0 ∧ RingHolds off N q.elemSize (shm' s) (shm' s.other) (xs ++ [elem]) := by
  cases hm with
  | @invalid w h =>
    have hw := hr.write_lt
    have hrd := hr.read_lt
    have hw' : w = (shm s).writeIdx off := hh
    omega
  | @full w hw h =>
    have hw' : w = (shm s).writeIdx off := hh
    rw [hw', hM] at h
    exact Or.inl ⟨rfl, hr.full_iff.mp h, rfl, w, rfl⟩
  | @publish w =>
    obtain ⟨hw, hlen, hslot⟩ := hh
    rw [Shm.set_self, Shm.set_other, hM, hw]
    exact Or.inr ⟨rfl, hr.publish hlen hN (hw ▸ hslot)⟩

/-- **A pop under way.** Loading the write index, it sees what is held. -/
theorem PopMove.holds {pc pc' : PopPc} (hm : PopMove q off s i shm pc (.inl pc') shm')
    (hr : RingHolds off N q.elemSize (shm s.other) (shm s) xs)
    (hh : pc.Holds N q.elemSize ((shm s).readIdx off) xs seen) :
    shm' = shm ∧ pc'.Holds N q.elemSize ((shm s).readIdx off) xs
      (if pc = .start then xs.length else seen) := by
  have hrd := hr.read_lt
  have hlen := hr.length_le
  cases hm with
  | start => exact ⟨rfl, Nat.le_refl _, hr.write_eq⟩
  | loadRead => exact ⟨rfl, rfl, hh⟩
  | check h => exact ⟨rfl, hh⟩
  | @some w r hr' hw' h =>
    obtain ⟨hrd', hseen, hw⟩ := hh
    refine ⟨rfl, hrd', fun hnil => ?_⟩
    subst hnil
    have hz : seen = 0 := Nat.le_zero.mp hseen
    rw [hz, Nat.add_zero, Nat.mod_eq_of_lt hrd] at hw
    exact h (hrd'.trans hw.symm)
  | copy =>
    obtain ⟨hrd', hne⟩ := hh
    obtain ⟨x, xs', rfl⟩ := List.exists_cons_of_ne_nil hne
    refine ⟨rfl, hrd', by simp, fun i hi => List.mem_range.mp hi, x, rfl, ?_,
      fun i hi hni => absurd (List.mem_range.mpr hi) hni⟩
    rw [← hr.head_slot, ByteMem.slot_length]
  | @byte r todo got hi =>
    obtain ⟨hrd', hgot, htodo, x, hx, hxlen, hdone⟩ := hh
    refine ⟨rfl, hrd', by rw [List.length_set, hgot],
      fun j hj => htodo j (List.mem_of_mem_erase hj), x, hx, hxlen, fun j hj hnj => ?_⟩
    by_cases hji : j = i
    · subst hji
      obtain ⟨xs', rfl⟩ : ∃ xs', xs = x :: xs' := by
        cases xs with
        | nil => exact absurd hx (by simp)
        | cons y ys => exact ⟨ys, by rw [Option.some.inj hx]⟩
      have hslot := hr.head_slot
      rw [List.getElem?_set_self (by omega), List.getElem?_eq_getElem (by omega), hrd']
      subst hslot
      rw [ByteMem.slot_getElem]
    · rw [List.getElem?_set_ne (Ne.symm hji)]
      exact hdone j hj (fun hmem => hnj ((List.mem_erase_of_ne hji).mpr hmem))
  | @copied r got =>
    obtain ⟨hrd', hgot, -, x, hx, hxlen, hdone⟩ := hh
    refine ⟨rfl, hrd', ?_⟩
    have hgx : got = x := by
      refine List.ext_getElem? (fun j => ?_)
      rcases Nat.lt_or_ge j q.elemSize with hj | hj
      · exact hdone j hj (by simp)
      · rw [List.getElem?_eq_none (by omega), List.getElem?_eq_none (by omega)]
    rw [hgx]
    exact hx

/-- **A pop that returns** saw an empty queue, or removed its head. -/
theorem PopMove.returns {pc : PopPc} {ret : ℤ} {buf : List UInt8}
    (hm : PopMove q off s i shm pc (.inr (ret, buf)) shm')
    (hM : q.elemNum = N + 1) (hN : N < 2 ^ 16) (hd : shm.Done off)
    (hr : RingHolds off N q.elemSize (shm s.other) (shm s) xs)
    (hh : pc.Holds N q.elemSize ((shm s).readIdx off) xs seen) :
    (ret = -ENOBUFS ∧ seen = 0 ∧ shm' = shm ∧ pc ≠ .start) ∨
      ret = 0 ∧ ∃ xs', xs = buf :: xs' ∧
        RingHolds off N q.elemSize (shm' s.other) (shm' s) xs' := by
  have hrd := hr.read_lt
  have hlen := hr.length_le
  cases hm with
  | badRemote h => exact absurd (hd s.other) h
  | @invalid w r h =>
    obtain ⟨hrd', hseen, hw⟩ := hh
    have hwlt : w < N + 1 := hw ▸ Nat.mod_lt _ (Nat.succ_pos N)
    rcases h with h | h
    · exact absurd (hd s) h
    · omega
  | @empty w r h =>
    obtain ⟨hrd', hseen, hw⟩ := hh
    refine Or.inl ⟨rfl, ?_, rfl, by simp⟩
    exact (RingHolds.empty_iff hrd (by omega)).mp (by rw [← hw, ← h, hrd'])
  | @publish r got =>
    obtain ⟨hrd', hx⟩ := hh
    obtain ⟨xs', rfl⟩ : ∃ xs', xs = buf :: xs' := by
      cases xs with
      | nil => exact absurd hx (by simp)
      | cons y ys => exact ⟨ys, by rw [Option.some.inj hx]⟩
    rw [Shm.set_self, Shm.set_other, hM, hrd']
    exact Or.inr ⟨rfl, xs', rfl, hr.advance hN⟩

end Threads

/-! ## The invariant -/

namespace QueueSys

/-- **The invariant of a direction** that holds `xs`. -/
structure DirInv (q : Side → IpcQueue) (off N : ℕ) (σ : QueueSys) (d : Side)
    (xs : List (List UInt8)) : Prop where
  pushed_eq : σ.pushed d = σ.popped d.other ++ xs
  ring : RingHolds off N (q d).elemSize (σ.shm d) (σ.shm d.other) xs
  push : ∀ t, σ.pusher d = some t → t.elem.length = (q d).elemSize ∧
    ∃ pc : PushPc, t.thread = pc.thread (q d) t.elem .pure ∧
      pc.Holds off N (q d).elemSize t.elem (σ.shm d) xs.length
  pop : ∀ t, σ.popper d.other = some t →
    ∃ pc : PopPc, t.thread = pc.thread (q d.other) .pure ∧
      pc.Holds N (q d).elemSize ((σ.shm d.other).readIdx off) xs t.seen
  pushRets : ∀ r ∈ σ.pushRets d, r.1 = 0 ∨ r.1 = -ENOMEM ∧ r.2 = N
  popRets : ∀ r ∈ σ.popRets d.other, r.1 = 0 ∨ r.1 = -ENOBUFS ∧ r.2 = 0

/-- **The invariant of the system.** -/
structure Inv (q : Side → IpcQueue) (off N : ℕ) (σ : QueueSys) : Prop where
  done : σ.shm.Done off
  dir : ∀ d, ∃ xs, DirInv q off N σ d xs

variable {q : Side → IpcQueue} {μ : Side → ShmMap} {off N i : ℕ} {σ σ' : QueueSys}
  {d s : Side} {xs : List (List UInt8)}

theorem DirInv.unpopped_eq (h : DirInv q off N σ d xs) : σ.unpopped d = xs.length := by
  rw [unpopped, h.pushed_eq, List.length_append]
  omega

/-- A direction whose threads and record are untouched, and whose fields read
the same, keeps its invariant. -/
theorem DirInv.frame (h : DirInv q off N σ d xs)
    (hpushed : σ'.pushed d = σ.pushed d) (hpopped : σ'.popped d.other = σ.popped d.other)
    (hpusher : σ'.pusher d = σ.pusher d) (hpopper : σ'.popper d.other = σ.popper d.other)
    (hpushRets : σ'.pushRets d = σ.pushRets d)
    (hpopRets : σ'.popRets d.other = σ.popRets d.other)
    (hw : (σ'.shm d).writeIdx off = (σ.shm d).writeIdx off)
    (hs : ∀ a, off + 16 ≤ a → σ'.shm d a = σ.shm d a)
    (hr : (σ'.shm d.other).readIdx off = (σ.shm d.other).readIdx off) :
    DirInv q off N σ' d xs where
  pushed_eq := by rw [hpushed, hpopped]; exact h.pushed_eq
  ring := h.ring.congr hw (fun _ _ => ByteMem.read_congr (fun _ _ => hs _ (by omega))) hr
  push := fun t ht => by
    obtain ⟨hlen, pc, hth, hh⟩ := h.push t (hpusher ▸ ht)
    exact ⟨hlen, pc, hth, hh.congr hw hs (Nat.le_refl _)⟩
  pop := fun t ht => by
    rw [hr]
    exact h.pop t (hpopper ▸ ht)
  pushRets := hpushRets ▸ h.pushRets
  popRets := hpopRets ▸ h.popRets

/-- A point inside a push is not a result. -/
theorem PushPc.result_thread {q : IpcQueue} {μ : ShmMap} (h : q.At μ off) (buf : List UInt8)
    (k : ℤ → Drv ℤ) (pc : PushPc) : (pc.thread q buf k).result = none := by
  cases pc with
  | start => rw [PushPc.thread, ipcQueuePush_eq h]; rfl
  | _ => rfl

/-- A point inside a pop is not a result. -/
theorem PopPc.result_thread {q : IpcQueue} {μ : ShmMap} (h : q.At μ off)
    (k : ℤ × List UInt8 → Drv (ℤ × List UInt8)) (pc : PopPc) :
    (pc.thread q k).result = none := by
  cases pc with
  | start => rw [PopPc.thread, ipcQueuePop_eq h]; rfl
  | _ => rfl

/-- Only the first load of a pop is of the remote write index. -/
theorem PopPc.nextLoad_thread {q : IpcQueue} {μ : ShmMap} (h : q.At μ off)
    (k : ℤ × List UInt8 → Drv (ℤ × List UInt8)) (pc : PopPc) :
    (pc.thread q k).nextLoad = some (q.popRing + 8) ↔ pc = .start := by
  have hd := μ.disjoint
  have hf := h.fits
  have h12 : q.pushRing + 12 ≠ q.popRing + 8 := by rw [h.pushRing_eq, h.popRing_eq]; omega
  have h0 : q.pushRing ≠ q.popRing + 8 := by rw [h.pushRing_eq, h.popRing_eq]; omega
  cases pc with
  | start => rw [PopPc.thread, ipcQueuePop_eq h]; exact iff_of_true rfl rfl
  | loadedWrite w => exact iff_of_false (fun hc => h12 (Option.some.inj hc)) (by simp)
  | loadedRead w r =>
    refine iff_of_false (fun hc => ?_) (by simp)
    have : q.popRing = q.popRing + 8 := Option.some.inj hc
    omega
  | checked w r => exact iff_of_false (fun hc => h0 (Option.some.inj hc)) (by simp)
  | copy r => exact iff_of_false (by simp [PopPc.thread, Thread.nextLoad]) (by simp)
  | copying r todo got => exact iff_of_false (by simp [PopPc.thread, Thread.nextLoad]) (by simp)
  | publish r got =>
    exact iff_of_false (by simp [PopPc.thread, popFinish, Thread.nextLoad]) (by simp)

/-- **What a step of a push is**: a move from the point it stands at. -/
theorem DirInv.push_cases (hE : Endpoints q μ off N) (h : DirInv q off N σ d xs)
    (hs : σ.step q μ (.stepPush d i) = some σ') :
    ∃ (t : PushTask) (pc : PushPc) (out : PushPc ⊕ ℤ) (shm' : Shm),
      σ.pusher d = some t ∧ t.elem.length = (q d).elemSize ∧
      t.thread = pc.thread (q d) t.elem .pure ∧
      pc.Holds off N (q d).elemSize t.elem (σ.shm d) xs.length ∧
      PushMove (q d) t.elem off d i σ.shm pc out shm' ∧
      σ' = σ.pushAfter d (σ.lookPush q d t) (PushPc.threadOf (q d) t.elem .pure out) shm' := by
  rw [step] at hs
  obtain ⟨t, ht, hs⟩ := Option.bind_eq_some_iff.mp hs
  obtain ⟨⟨th, shm'⟩, hstep, rfl⟩ := Option.map_eq_some_iff.mp hs
  obtain ⟨hlen, pc, hth, hh⟩ := h.push t ht
  rw [hth] at hstep
  have hw := h.ring.write_lt
  obtain ⟨out, hm, rfl⟩ := pushMove_of_step (hE.mapped d) hlen
    (hh.ok (by rw [hE.elemNum_eq]; exact hw)) hstep
  exact ⟨t, pc, out, shm', ht, hlen, hth, hh, hm, rfl⟩

theorem DirInv.pop_cases (hE : Endpoints q μ off N) (h : DirInv q off N σ d xs)
    (hs : σ.step q μ (.stepPop d.other i) = some σ') :
    ∃ (t : PopTask) (pc : PopPc) (out : PopPc ⊕ (ℤ × List UInt8)) (shm' : Shm),
      σ.popper d.other = some t ∧ t.thread = pc.thread (q d.other) .pure ∧
      pc.Holds N (q d).elemSize ((σ.shm d.other).readIdx off) xs t.seen ∧
      PopMove (q d.other) off d.other i σ.shm pc out shm' ∧
      σ' = σ.popAfter d.other (σ.lookPop q d.other t)
        (PopPc.threadOf (q d.other) .pure out) shm' := by
  rw [step] at hs
  obtain ⟨t, ht, hs⟩ := Option.bind_eq_some_iff.mp hs
  obtain ⟨⟨th, shm'⟩, hstep, rfl⟩ := Option.map_eq_some_iff.mp hs
  obtain ⟨pc, hth, hh⟩ := h.pop t ht
  rw [hth] at hstep
  have hr := h.ring.read_lt
  rw [← hE.elemSize_eq] at hh
  obtain ⟨out, hm, rfl⟩ := popMove_of_step (hE.mapped d.other)
    (hh.ok (by rw [hE.elemNum_eq]; exact hr)) hstep
  rw [hE.elemSize_eq] at hh
  exact ⟨t, pc, out, shm', ht, hth, hh, hm, rfl⟩

/-- A push that goes on changes its task and its window. -/
theorem pushAfter_inl (hE : Endpoints q μ off N) (t : PushTask) (buf : List UInt8)
    (pc : PushPc) (shm : Shm) :
    σ.pushAfter s t (PushPc.threadOf (q s) buf .pure (.inl pc)) shm
      = { σ with
          shm := shm
          pusher := Function.update σ.pusher s
            (some { t with thread := pc.thread (q s) buf .pure }) } := by
  rw [pushAfter, PushPc.threadOf, PushPc.result_thread (hE.mapped s)]

theorem pushAfter_inr (t : PushTask) (buf : List UInt8) (ret : ℤ) (shm : Shm) :
    σ.pushAfter s t (PushPc.threadOf (q s) buf .pure (.inr ret)) shm
      = { σ with
          shm := shm
          pusher := Function.update σ.pusher s none
          pushed := if ret = 0 then Function.update σ.pushed s (σ.pushed s ++ [t.elem])
            else σ.pushed
          pushRets := Function.update σ.pushRets s (σ.pushRets s ++ [(ret, t.seen)]) } := rfl

theorem popAfter_inl (hE : Endpoints q μ off N) (t : PopTask) (pc : PopPc) (shm : Shm) :
    σ.popAfter s t (PopPc.threadOf (q s) .pure (.inl pc)) shm
      = { σ with
          shm := shm
          popper := Function.update σ.popper s
            (some { t with thread := pc.thread (q s) .pure }) } := by
  rw [popAfter, PopPc.threadOf, PopPc.result_thread (hE.mapped s)]

theorem popAfter_inr (t : PopTask) (ret : ℤ) (buf : List UInt8) (shm : Shm) :
    σ.popAfter s t (PopPc.threadOf (q s) .pure (.inr (ret, buf))) shm
      = { σ with
          shm := shm
          popper := Function.update σ.popper s none
          popped := if ret = 0 then Function.update σ.popped s (σ.popped s ++ [buf])
            else σ.popped
          popRets := Function.update σ.popRets s (σ.popRets s ++ [(ret, t.seen)]) } := rfl

theorem lookPush_elem (t : PushTask) : (σ.lookPush q s t).elem = t.elem := by
  rw [lookPush]
  split <;> rfl

/-- **A push step keeps the invariant of its direction.** -/
theorem DirInv.stepPush (hE : Endpoints q μ off N) (h : DirInv q off N σ d xs)
    (hs : σ.step q μ (.stepPush d i) = some σ') : ∃ xs', DirInv q off N σ' d xs' := by
  obtain ⟨t, pc, out, shm', ht, hlen, hth, hh, hm, rfl⟩ := h.push_cases hE hs
  have hN : N < 2 ^ 16 := by have := hE.le; omega
  have hM := hE.elemNum_eq d
  obtain ⟨hother, -, -⟩ := hm.frame
  cases out with
  | inl pc' =>
    obtain ⟨hr, hh'⟩ := hm.holds hM hlen h.ring hh
    rw [pushAfter_inl hE]
    refine ⟨xs, h.pushed_eq, hr, fun t' ht' => ?_, fun t' ht' => ?_, h.pushRets, h.popRets⟩
    · simp only [Function.update_self] at ht'
      obtain rfl := Option.some.inj ht'
      simp only [lookPush_elem]
      exact ⟨hlen, pc', rfl, hh'⟩
    · simp only [hother]
      exact h.pop t' ht'
  | inr ret =>
    rw [pushAfter_inr]
    rcases hm.returns hM hN h.ring hh with ⟨rfl, hfull, rfl, w, rfl⟩ | ⟨rfl, hr⟩
    · refine ⟨xs, h.pushed_eq, h.ring, fun t' ht' => ?_, h.pop, fun r hr => ?_, h.popRets⟩
      · simp only [Function.update_self] at ht'
        exact absurd ht' (by simp)
      · simp only [Function.update_self, List.mem_append, List.mem_singleton] at hr
        rcases hr with hr | rfl
        · exact h.pushRets r hr
        · refine Or.inr ⟨rfl, ?_⟩
          rw [lookPush, if_pos (by rw [hth]; rfl)]
          exact h.unpopped_eq.trans hfull
    · refine ⟨xs ++ [t.elem], ?_, hr, fun t' ht' => ?_, fun t' ht' => ?_, fun r hr => ?_,
        h.popRets⟩
      · simp only [↓reduceIte, Function.update_self, h.pushed_eq, lookPush_elem, List.append_assoc]
      · simp only [Function.update_self] at ht'
        exact absurd ht' (by simp)
      · simp only [hother]
        obtain ⟨pc', hth', hh'⟩ := h.pop t' ht'
        exact ⟨pc', hth', hh'.append t.elem⟩
      · simp only [Function.update_self, List.mem_append, List.mem_singleton] at hr
        rcases hr with hr | rfl
        · exact h.pushRets r hr
        · exact Or.inl rfl

/-- **A pop step keeps the invariant of its direction.** -/
theorem DirInv.stepPop (hE : Endpoints q μ off N) (hd : σ.shm.Done off)
    (h : DirInv q off N σ d xs)
    (hs : σ.step q μ (.stepPop d.other i) = some σ') : ∃ xs', DirInv q off N σ' d xs' := by
  obtain ⟨t, pc, out, shm', ht, hth, hh, hm, rfl⟩ := h.pop_cases hE hs
  have hN : N < 2 ^ 16 := by have := hE.le; omega
  have hM := hE.elemNum_eq d.other
  have hlook : (σ.lookPop q d.other t).seen = if pc = .start then xs.length else t.seen := by
    rw [lookPop, hth]
    by_cases hst : pc = .start
    · rw [if_pos ((PopPc.nextLoad_thread (hE.mapped d.other) _ pc).mpr hst), if_pos hst,
        Side.other_other]
      exact h.unpopped_eq
    · rw [if_neg (fun hc => hst ((PopPc.nextLoad_thread (hE.mapped d.other) _ pc).mp hc)),
        if_neg hst]
  have hring : RingHolds off N (q d.other).elemSize (σ.shm d.other.other) (σ.shm d.other) xs := by
    rw [Side.other_other, hE.elemSize_eq]
    exact h.ring
  rw [← hE.elemSize_eq] at hh
  cases out with
  | inl pc' =>
    obtain ⟨rfl, hh'⟩ := hm.holds hring hh
    rw [popAfter_inl hE]
    refine ⟨xs, h.pushed_eq, h.ring, h.push, fun t' ht' => ?_, h.pushRets, h.popRets⟩
    simp only [Function.update_self] at ht'
    obtain rfl := Option.some.inj ht'
    refine ⟨pc', rfl, ?_⟩
    rw [← hE.elemSize_eq, hlook]
    exact hh'
  | inr res =>
    obtain ⟨ret, buf⟩ := res
    rw [popAfter_inr]
    rcases hm.returns hM hN hd hring hh with ⟨rfl, hseen, rfl, hne⟩ | ⟨rfl, xs', rfl, hr⟩
    · refine ⟨xs, h.pushed_eq, h.ring, h.push, fun t' ht' => ?_, h.pushRets, fun r hr => ?_⟩
      · simp only [Function.update_self] at ht'
        exact absurd ht' (by simp)
      · simp only [Function.update_self, List.mem_append, List.mem_singleton] at hr
        rcases hr with hr | rfl
        · exact h.popRets r hr
        · exact Or.inr ⟨rfl, by rw [hlook, if_neg hne]; exact hseen⟩
    · obtain ⟨hother, hwi, -, hslots⟩ := hm.frame
      rw [Side.other_other] at hr hother
      refine ⟨xs', ?_, ?_, fun t' ht' => ?_, fun t' ht' => ?_, h.pushRets, fun r hr => ?_⟩
      · simp only [↓reduceIte, Function.update_self, List.append_assoc]
        exact h.pushed_eq
      · rw [← hE.elemSize_eq]
        exact hr
      · obtain ⟨hlen, pc', hth', hh'⟩ := h.push t' ht'
        refine ⟨hlen, pc', hth', ?_⟩
        simp only [hother]
        exact hh'.congr rfl (fun _ _ => rfl) (by simp)
      · simp only [Function.update_self] at ht'
        exact absurd ht' (by simp)
      · simp only [Function.update_self, List.mem_append, List.mem_singleton] at hr
        rcases hr with hr | rfl
        · exact h.popRets r hr
        · exact Or.inl rfl

/-- A push of one side does not concern the other direction. -/
theorem DirInv.stepPush_other (h : DirInv q off N σ d xs) {xs' : List (List UInt8)}
    (hE : Endpoints q μ off N) (h' : DirInv q off N σ d.other xs')
    (hs : σ.step q μ (.stepPush d.other i) = some σ') : DirInv q off N σ' d xs := by
  obtain ⟨t, pc, out, shm', ht, hlen, hth, hh, hm, rfl⟩ := h'.push_cases hE hs
  obtain ⟨hother, hread, -⟩ := hm.frame
  rw [Side.other_other] at hother
  cases out with
  | inl pc' =>
    rw [pushAfter_inl hE]
    refine h.frame rfl rfl ?_ rfl rfl rfl ?_ ?_ hread
    · simp [Function.update_of_ne]
    · simp only [hother]
    · simp only [hother, implies_true]
  | inr ret =>
    rw [pushAfter_inr]
    refine h.frame ?_ rfl ?_ rfl ?_ rfl ?_ ?_ hread
    · dsimp only
      split
      · rw [Function.update_of_ne (Side.ne_other d)]
      · rfl
    · simp [Function.update_of_ne]
    · simp [Function.update_of_ne]
    · simp only [hother]
    · simp only [hother, implies_true]

/-- A pop of one side does not concern the direction it pushes in. -/
theorem DirInv.stepPop_other (h : DirInv q off N σ d xs) {xs' : List (List UInt8)}
    (hE : Endpoints q μ off N) (h' : DirInv q off N σ d.other xs')
    (hs : σ.step q μ (.stepPop d i) = some σ') : DirInv q off N σ' d xs := by
  rw [show d = d.other.other from (Side.other_other d).symm] at hs
  obtain ⟨t, pc, out, shm', ht, hth, hh, hm, rfl⟩ := h'.pop_cases hE hs
  rw [Side.other_other] at hm hs ⊢
  obtain ⟨hother, hwrite, -, hslots⟩ := hm.frame
  cases out with
  | inl pc' =>
    rw [popAfter_inl hE]
    refine h.frame rfl rfl rfl ?_ rfl rfl hwrite hslots ?_
    · simp [Function.update_of_ne]
    · simp only [hother]
  | inr res =>
    obtain ⟨ret, buf⟩ := res
    rw [popAfter_inr]
    refine h.frame rfl ?_ rfl ?_ rfl ?_ hwrite hslots ?_
    · dsimp only
      split
      · rw [Function.update_of_ne (Side.other_ne d)]
      · rfl
    · simp [Function.update_of_ne]
    · simp [Function.update_of_ne]
    · simp only [hother]

/-- **Every step keeps the invariant.** -/
theorem Inv.step (hE : Endpoints q μ off N) (h : Inv q off N σ) {a : QueueAct}
    (hs : σ.step q μ a = some σ') : Inv q off N σ' := by
  cases a with
  | startPush s elem =>
    rw [QueueSys.step] at hs
    split at hs
    · rename_i hcond
      obtain rfl := Option.some.inj hs
      refine ⟨h.done, fun d => ?_⟩
      obtain ⟨xs, hd⟩ := h.dir d
      refine ⟨xs, hd.pushed_eq, hd.ring, fun t ht => ?_, hd.pop, hd.pushRets, hd.popRets⟩
      rcases Side.eq_or_eq_other s d with rfl | rfl
      · simp only [Function.update_self] at ht
        obtain rfl := Option.some.inj ht
        exact ⟨hcond.2, .start, by rw [PushPc.thread, Program.bind_pure'], trivial⟩
      · simp only [Function.update_of_ne (Side.other_ne s)] at ht
        exact hd.push t ht
    · exact absurd hs (by simp)
  | startPop s =>
    rw [QueueSys.step] at hs
    split at hs
    · obtain rfl := Option.some.inj hs
      refine ⟨h.done, fun d => ?_⟩
      obtain ⟨xs, hd⟩ := h.dir d
      refine ⟨xs, hd.pushed_eq, hd.ring, hd.push, fun t ht => ?_, hd.pushRets, hd.popRets⟩
      rcases Side.eq_or_eq_other s d.other with hds | hds
      · subst hds
        simp only [Function.update_self] at ht
        obtain rfl := Option.some.inj ht
        exact ⟨.start, by rw [PopPc.thread, Program.bind_pure'], trivial⟩
      · simp only [hds, Function.update_of_ne (Side.other_ne s)] at ht
        exact hd.pop t (hds ▸ ht)
    · exact absurd hs (by simp)
  | stepPush s i =>
    obtain ⟨xs, hd⟩ := h.dir s
    obtain ⟨ys, hd'⟩ := h.dir s.other
    refine ⟨fun r => ?_, fun d => ?_⟩
    · obtain ⟨t, pc, out, shm', ht, hlen, hth, hh, hm, rfl⟩ := hd.push_cases hE hs
      obtain ⟨hother, -, hsent⟩ := hm.frame
      have hshm : (σ.pushAfter s (σ.lookPush q s t)
          (PushPc.threadOf (q s) t.elem .pure out) shm').shm = shm' := by
        rw [pushAfter]
        split <;> rfl
      rw [hshm]
      rcases Side.eq_or_eq_other s r with rfl | rfl
      · rw [hsent]
        exact h.done r
      · rw [hother]
        exact h.done s.other
    · rcases Side.eq_or_eq_other s d with rfl | rfl
      · exact hd.stepPush hE hs
      · exact ⟨ys, hd'.stepPush_other hE (by rwa [Side.other_other])
          (by rwa [Side.other_other])⟩
  | stepPop s i =>
    obtain ⟨xs, hd⟩ := h.dir s
    obtain ⟨ys, hd'⟩ := h.dir s.other
    have hs' : σ.step q μ (.stepPop s.other.other i) = some σ' := by rwa [Side.other_other]
    refine ⟨fun r => ?_, fun d => ?_⟩
    · obtain ⟨t, pc, out, shm', ht, hth, hh, hm, rfl⟩ := hd'.pop_cases hE hs'
      rw [Side.other_other] at hm ⊢
      obtain ⟨hother, -, hsent, -⟩ := hm.frame
      have hshm : (σ.popAfter s (σ.lookPop q s t)
          (PopPc.threadOf (q s) .pure out) shm').shm = shm' := by
        rw [popAfter]
        split <;> rfl
      rw [hshm]
      rcases Side.eq_or_eq_other s r with rfl | rfl
      · rw [hsent]
        exact h.done r
      · rw [hother]
        exact h.done s.other
    · rcases Side.eq_or_eq_other s d with rfl | rfl
      · exact ⟨xs, hd.stepPop_other hE hd' hs⟩
      · exact hd'.stepPop hE h.done hs'

/-- The invariant holds when the queue is initialized and empty. -/
theorem Initial.inv (h : Initial off N σ) : Inv q off N σ where
  done := h.done
  dir := fun d => ⟨[], by rw [h.pushed, h.popped]; rfl, .empty (h.read_lt d.other) (h.write_eq d),
    fun t ht => absurd ht (by rw [h.pusher]; simp),
    fun t ht => absurd ht (by rw [h.popper]; simp),
    fun r hr => absurd hr (by rw [h.pushRets]; simp),
    fun r hr => absurd hr (by rw [h.popRets]; simp)⟩

/-- A push that copies stands at the write index. -/
theorem PushPc.Holds.copyDst {q : IpcQueue} {μ : ShmMap} (h : q.At μ off) {pc : PushPc}
    {elem : List UInt8} {out : ByteMem} {n a : ℕ}
    (hh : pc.Holds off N q.elemSize elem out n)
    (ha : (pc.thread q elem .pure).copyDst = some a) :
    a = q.pushRing + 16 + out.writeIdx off * q.elemSize ∧ n < N := by
  cases pc with
  | start =>
    rw [PushPc.thread, ipcQueuePush_eq h] at ha
    exact absurd ha (by simp [Thread.copyDst])
  | loaded w => exact absurd ha (by simp [PushPc.thread, Thread.copyDst])
  | copy w => exact ⟨by rw [← hh.1]; exact (Option.some.inj ha).symm, hh.2⟩
  | copying w todo => exact ⟨by rw [← hh.1]; exact (Option.some.inj ha).symm, hh.2.1⟩
  | publish w => exact absurd ha (by simp [PushPc.thread, Thread.copyDst])

/-- A pop that copies stands at the read index, and something is held. -/
theorem PopPc.Holds.copySrc {q : IpcQueue} {μ : ShmMap} (h : q.At μ off) {pc : PopPc}
    {rd seen a : ℕ} (hh : pc.Holds N q.elemSize rd xs seen)
    (ha : (pc.thread q .pure).copySrc = some a) :
    a = q.popRing + 16 + rd * q.elemSize ∧ 0 < xs.length := by
  cases pc with
  | start =>
    rw [PopPc.thread, ipcQueuePop_eq h] at ha
    exact absurd ha (by simp [Thread.copySrc])
  | loadedWrite w => exact absurd ha (by simp [PopPc.thread, Thread.copySrc])
  | loadedRead w r =>
    exact absurd ha (by simp [PopPc.thread, Thread.copySrc, ipcQueueCheckIntegrity])
  | checked w r => exact absurd ha (by simp [PopPc.thread, popCheckLocal, Thread.copySrc])
  | copy r =>
    exact ⟨by rw [← hh.1]; exact (Option.some.inj ha).symm, List.length_pos_of_ne_nil hh.2⟩
  | copying r todo got =>
    obtain ⟨hr, -, -, x, hx, -⟩ := hh
    refine ⟨by rw [← hr]; exact (Option.some.inj ha).symm, ?_⟩
    cases xs with
    | nil => exact absurd hx (by simp)
    | cons y ys => simp
  | publish r got => exact absurd ha (by simp [PopPc.thread, popFinish, Thread.copySrc])

/-- **The invariant says that the direction is safe.** -/
theorem DirInv.safe (hE : Endpoints q μ off N) (h : DirInv q off N σ d xs) :
    Safe q off N σ d where
  fifo := ⟨xs, h.pushed_eq.symm⟩
  bounded := by
    have := h.ring.length_le
    rw [h.pushed_eq, List.length_append]
    omega
  stored := fun t ht => by
    rw [h.unpopped_eq] at ht
    rw [h.pushed_eq, List.getElem?_append_right (by omega), Nat.add_sub_cancel_left,
      List.getElem?_eq_getElem ht, hE.elemNum_eq, h.ring.slots t ht]
  exclusive := fun t ht a ha => by
    obtain ⟨-, pc, hth, hh⟩ := h.push t ht
    rw [hth] at ha
    obtain ⟨rfl, hlen⟩ := PushPc.Holds.copyDst (hE.mapped d) hh ha
    have hw := h.ring.write_lt
    refine ⟨(σ.shm d).writeIdx off, by rw [hE.elemNum_eq]; exact hw, rfl, fun j hj => ?_,
      fun t' ht' a' ha' => ?_⟩
    · rw [hE.elemNum_eq]
      exact h.ring.write_ne_slot (h.unpopped_eq ▸ hj)
    · obtain ⟨pc', hth', hh'⟩ := h.pop t' ht'
      rw [hth'] at ha'
      rw [← hE.elemSize_eq] at hh'
      obtain ⟨rfl, hpos⟩ := PopPc.Holds.copySrc (hE.mapped d.other) hh' ha'
      have hr := h.ring.read_lt
      refine ⟨_, by rw [hE.elemNum_eq]; exact hr, by rw [hE.elemSize_eq], ?_⟩
      have hne := h.ring.write_ne_slot hpos
      rw [Nat.add_zero, Nat.mod_eq_of_lt hr] at hne
      exact hne.symm
  pushRets := h.pushRets
  popRets := h.popRets

/-- **Whatever the interleaving**, a queue that starts initialized and empty
is safe in both directions in every state it reaches. -/
theorem queue_safe (hE : Endpoints q μ off N) {σ₀ : QueueSys} (h₀ : Initial off N σ₀)
    (hr : Steps.Reach (QueueSys.step q μ) σ₀ σ) (d : Side) : Safe q off N σ d := by
  obtain ⟨xs, h⟩ := (hr.invariant (I := Inv q off N) h₀.inv
    (fun _ _ _ hI hs => Inv.step hE hI hs)).dir d
  exact h.safe hE

/-- The endpoints of a queue for one descriptor, after the global header. -/
def oneSlotQueue (s : Side) : IpcQueue :=
  { elemSize := 8, elemNum := 2, pushRing := (twoWindows s).localShm + 8,
    popRing := (twoWindows s).remoteShm + 8 }

/-- That queue, initialized and empty. -/
def oneSlotStart : QueueSys :=
  { shm := fun _ => ByteMem.store (fun _ => 0) 8 8 ipcQueueInitDone }

theorem oneSlotQueue_endpoints : Endpoints oneSlotQueue twoWindows 8 1 where
  mapped := fun s => by
    cases s <;>
      exact ⟨rfl, rfl, by decide, by decide, by decide, by decide⟩
  elemNum_eq := fun s => rfl
  elemSize_eq := fun s => rfl
  pos := Nat.le_refl 1
  le := by decide

theorem oneSlotStart_initial : Initial 8 1 oneSlotStart where
  done := fun s => ByteMem.sentinel_store_sentinel (by decide)
  write_eq := fun d => by cases d <;> decide
  read_lt := fun d => by cases d <;> decide
  pusher := fun d => rfl
  popper := fun d => rfl
  pushed := fun d => rfl
  popped := fun d => rfl
  pushRets := fun d => rfl
  popRets := fun d => rfl

/-- One side pushes an element, byte after byte; the other begins to pop it
and has loaded both indexes; a second push finds the queue full. -/
def oneSlotActs : List QueueAct :=
  [.startPush .a [1, 2, 3, 4, 5, 6, 7, 8], .stepPush .a 0, .stepPush .a 0, .stepPush .a 0]
    ++ [7, 3, 0, 1, 2, 4, 5, 6].map (.stepPush .a)
    ++ [.stepPush .a 0, .startPop .b, .stepPush .a 0, .stepPop .b 0, .stepPop .b 0,
      .startPush .a [9, 9, 9, 9, 9, 9, 9, 9], .stepPush .a 0, .stepPush .a 0]

/-- In that run the second push returns `-ENOMEM`, having seen one unpopped
element. -/
theorem queue_safe_full : ∃ σ, Steps.Reach (QueueSys.step oneSlotQueue twoWindows)
      oneSlotStart σ ∧ σ.pushRets .a = [(0, 0), (-ENOMEM, 1)] ∧
      ∀ d, Safe oneSlotQueue 8 1 σ d := by
  have hrun : (Steps.runActs (QueueSys.step oneSlotQueue twoWindows) oneSlotActs
      oneSlotStart).map (fun σ => σ.pushRets .a) = some [(0, 0), (-ENOMEM, 1)] := by
    decide +kernel
  obtain ⟨σ, hσ, hrets⟩ := Option.map_eq_some_iff.mp hrun
  have hreach := Steps.reach_of_runActs hσ
  exact ⟨σ, hreach, hrets, queue_safe oneSlotQueue_endpoints oneSlotStart_initial hreach⟩

end QueueSys
