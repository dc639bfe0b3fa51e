import IpcShm.HandshakeSteps

/-!
# The initialization handshake

Both peers initialize, free and re-initialize one queue, each in single
memory steps, interleaved in any way. Nothing prevents one peer from looking
at the other's ring while the other is changing it. The theorem is about the
moment an initialization completes while the other ring is marked `DONE`: the
two rings then agree, on an empty queue for a channel and on a full one for a
pool.

Agreement rests on three facts about a peer `X` in the middle of its
initialization and its counterpart `Y`:

* while `X` adopts, `Y` cannot get past its own first check, because the ring
  of `X` is marked `IN_PROGRESS`;
* while `X` adopts and the ring of `Y` is marked `DONE`, what `X` has adopted
  so far is what `Y` has;
* while `X` starts from zero, `Y` can only have become `DONE` by starting from
  zero too.
-/

/-- What a peer is doing with the queue. `adopting` records, once the second
check is made, whether it found the remote ring initialized. -/
inductive QueuePhase where
  | idle (q : IpcQueue)
  | initing (th : Thread (ℤ × IpcQueue)) (adopting : Bool)
  /-- The last initialization returned an error. -/
  | failed (q : IpcQueue)
  | ready (q : IpcQueue)
  | freeing (q : IpcQueue) (th : Thread IpcQueue)

/-- The queue a peer may push to and pop from. -/
def QueuePhase.handle : QueuePhase → Option IpcQueue
  | .ready q => some q
  | .freeing q _ => some q
  | _ => none

/-- The initialization completed with success. -/
def QueuePhase.isReady : QueuePhase → Bool
  | .ready _ => true
  | _ => false

/-- **The state of a queue and of the peers initializing it.** -/
structure HandshakeSys where
  shm : Shm
  phase : Side → QueuePhase

/-- A step: a peer begins to initialize or to free the queue, takes a memory
step, or pushes or pops an element at once. -/
inductive HandshakeAct where
  | startInit (s : Side)
  | startFree (s : Side)
  | step (s : Side) (i : ℕ)
  | push (s : Side) (x : List UInt8)
  | pop (s : Side)

namespace HandshakeSys

variable (c : HandshakeCfg)

/-- The phase after a step of an initialization, which goes on or returns. -/
def initAfter (th : Thread (ℤ × IpcQueue)) (adopting : Bool) : QueuePhase :=
  match th.result with
  | none => .initing th adopting
  | some (err, q) => if err = 0 then .ready q else .failed q

/-- The phase after a step of a release. -/
def freeAfter (q : IpcQueue) (th : Thread IpcQueue) : QueuePhase :=
  match th.result with
  | none => .freeing q th
  | some q' => .idle q'

/-- The peer is about to make its second check: it loads the remote sentinel
with its own ring marked `IN_PROGRESS`. -/
def atSecondCheck (σ : HandshakeSys) (s : Side) (th : Thread (ℤ × IpcQueue)) : Prop :=
  th.nextLoad = some (c.queue s).popRing
    ∧ (σ.shm s).sentinel c.off = ipcQueueInitInProgress

instance (σ : HandshakeSys) (s : Side) (th : Thread (ℤ × IpcQueue)) :
    Decidable (σ.atSecondCheck c s th) := by
  unfold atSecondCheck
  infer_instance

/-- What the second check finds. -/
def look (σ : HandshakeSys) (s : Side) (th : Thread (ℤ × IpcQueue)) (adopting : Bool) : Bool :=
  if σ.atSecondCheck c s th then
    decide ((σ.shm s.other).sentinel c.off = ipcQueueInitDone)
  else adopting

/-- A whole push or pop, possible while both rings are marked `DONE`. -/
def data {α : Type} (σ : HandshakeSys) (s : Side) (p : IpcQueue → Drv α) :
    Option HandshakeSys :=
  if (σ.shm .a).sentinel c.off = ipcQueueInitDone
      ∧ (σ.shm .b).sentinel c.off = ipcQueueInitDone then
    (σ.phase s).handle.bind (fun q =>
      ((p q).run (memHandle (c.μ s) s) σ.shm).map (fun r => { σ with shm := r.2 }))
  else none

/-- **A step of the system.** A peer frees the queue before it initializes it
again. -/
def step (σ : HandshakeSys) : HandshakeAct → Option HandshakeSys
  | .startInit s =>
    match σ.phase s with
    | .idle q => some { σ with
        phase := Function.update σ.phase s (.initing (.run (c.initProg s q)) false) }
    | _ => none
  | .startFree s =>
    match σ.phase s with
    | .failed q => some { σ with
        phase := Function.update σ.phase s (.freeing q (.run (ipcQueueFree q))) }
    | .ready q => some { σ with
        phase := Function.update σ.phase s (.freeing q (.run (ipcQueueFree q))) }
    | _ => none
  | .step s i =>
    match σ.phase s with
    | .initing th adopting => (th.step (c.μ s) s i σ.shm).map (fun r =>
        { shm := r.2
          phase := Function.update σ.phase s (initAfter r.1 (σ.look c s th adopting)) })
    | .freeing q th => (th.step (c.μ s) s i σ.shm).map (fun r =>
        { shm := r.2, phase := Function.update σ.phase s (freeAfter q r.1) })
    | _ => none
  | .push s x =>
    if x.length = sizeofIpcShmBd then σ.data c s (fun q => ipcQueuePush q x) else none
  | .pop s => σ.data c s ipcQueuePop

end HandshakeSys

/-! ## Phases by program point -/

/-- The phase of a peer, with the point its thread stands at. -/
inductive PhasePc where
  | idle (q : IpcQueue)
  | initing (pc : InitPc) (adopting : Bool)
  | failed
  | ready
  | freeing (pc : HandshakeCfg.FreePc)

namespace HandshakeCfg

variable (c : HandshakeCfg) (s : Side)

/-- The phase it stands for. -/
def phase : PhasePc → QueuePhase
  | .idle q => .idle q
  | .initing pc adopting => .initing (c.initThread s pc) adopting
  | .failed => .failed (c.queue s)
  | .ready => .ready (c.queue s)
  | .freeing pc => .freeing (c.queue s) (c.freeThread s pc)

theorem eq_ready {c : HandshakeCfg} {s : Side} {p : PhasePc}
    (h : (c.phase s p).isReady = true) : p = .ready := by
  cases p with
  | ready => rfl
  | _ => exact absurd h (by simp [phase, QueuePhase.isReady])

/-- What the second check finds, at a point. -/
def lookAt (shm : Shm) : InitPc → Bool → Bool
  | .check2, _ => decide ((shm s.other).sentinel c.off = ipcQueueInitDone)
  | _, adopting => adopting

theorem lookAt_live {shm : Shm} {a : Bool}
    (h : (shm s.other).sentinel c.off = ipcQueueInitDone) :
    c.lookAt s shm .check2 a = true := by
  rw [lookAt, decide_eq_true h]

theorem lookAt_fresh {shm : Shm} {a : Bool}
    (h : (shm s.other).sentinel c.off ≠ ipcQueueInitDone) :
    c.lookAt s shm .check2 a = false := by
  rw [lookAt, decide_eq_false h]

/-- **What a peer can do**, alone with the memory it finds. -/
inductive PhaseMove (shm : Shm) : PhasePc → PhasePc → Shm → Prop where
  | startInit {q : IpcQueue} : PhaseMove shm (.idle q) (.initing .check1 false) shm
  | init {pc pc' : InitPc} {adopting : Bool} {i : ℕ} {shm' : Shm}
      (h : c.InitMove s i shm pc (.inl pc') shm') :
      PhaseMove shm (.initing pc adopting) (.initing pc' (c.lookAt s shm pc adopting)) shm'
  | initDone {pc : InitPc} {adopting : Bool} {i : ℕ} {shm' : Shm}
      (h : c.InitMove s i shm pc (.inr 0) shm') :
      PhaseMove shm (.initing pc adopting) .ready shm'
  | initFailed {pc : InitPc} {adopting : Bool} {i : ℕ} {err : ℤ} {shm' : Shm} (he : err ≠ 0)
      (h : c.InitMove s i shm pc (.inr err) shm') :
      PhaseMove shm (.initing pc adopting) .failed shm'
  | startFreeFailed : PhaseMove shm .failed (.freeing .load1) shm
  | startFree : PhaseMove shm .ready (.freeing .load1) shm
  | free {pc pc' : FreePc} {shm' : Shm} (h : c.FreeMove s shm pc (.inl pc') shm') :
      PhaseMove shm (.freeing pc) (.freeing pc') shm'
  | freed {pc : FreePc} {q : IpcQueue} {shm' : Shm} (h : c.FreeMove s shm pc (.inr q) shm') :
      PhaseMove shm (.freeing pc) (.idle q) shm'

/-- What a peer relies on at every point: its pushes stay in the ring, and
its own sentinel tells the two checks apart. -/
def PhaseOk (m : ByteMem) : PhasePc → Prop
  | .initing pc _ => c.InitOk s pc
      ∧ (pc = .check1 → m.sentinel c.off ≠ ipcQueueInitInProgress)
      ∧ (pc = .check2 → m.sentinel c.off = ipcQueueInitInProgress)
  | _ => True

/-- A point inside the initialization is not a result. -/
theorem result_initThread (pc : InitPc) : (c.initThread s pc).result = none := by
  cases pc with
  | check1 => rw [initThread, ipcQueueSyncIndex_bind _ _ _ (Nat.succ_pos _)]; rfl
  | populate bufId left pc =>
    cases pc with
    | start => rw [initThread, PushPc.thread, ipcQueuePush_eq (c.queue_at s)]; rfl
    | _ => rfl
  | _ => rfl

theorem result_freeThread (pc : FreePc) : (c.freeThread s pc).result = none := by
  cases pc with
  | load1 => rw [freeThread, ipcQueueFree_queue]; rfl
  | _ => rfl

/-- Only the two checks load the remote sentinel. -/
theorem nextLoad_initThread (pc : InitPc) :
    (c.initThread s pc).nextLoad = some (c.queue s).popRing
      ↔ pc = .check1 ∨ pc = .check2 := by
  have hd := (c.μ s).disjoint
  have hf := c.fits s
  have hne : (c.queue s).pushRing + 8 ≠ (c.queue s).popRing := by
    show (c.μ s).localShm + c.off + 8 ≠ (c.μ s).remoteShm + c.off
    omega
  have hpos (k : ℕ) (hk : 0 < k) :
      some ((c.queue s).popRing + k) ≠ some (c.queue s).popRing := by
    intro h
    have := Option.some.inj h
    omega
  cases pc with
  | check1 =>
    rw [initThread, ipcQueueSyncIndex_bind _ _ _ (Nat.succ_pos _)]
    exact iff_of_true rfl (Or.inl rfl)
  | check2 => exact iff_of_true rfl (Or.inr rfl)
  | adoptRead => exact iff_of_false (hpos 12 (by decide)) (by simp)
  | adoptLoad => exact iff_of_false (hpos 8 (by decide)) (by simp)
  | populate bufId left pc =>
    refine iff_of_false ?_ (by simp)
    cases pc with
    | start =>
      rw [initThread, PushPc.thread, ipcQueuePush_eq (c.queue_at s)]
      exact fun h => hne (Option.some.inj h)
    | loaded w => exact hpos 12 (by decide)
    | copy w => simp [initThread, PushPc.thread, Thread.nextLoad]
    | copying w todo => simp [initThread, PushPc.thread, Thread.nextLoad]
    | publish w => simp [initThread, PushPc.thread, Thread.nextLoad]
  | mark => exact iff_of_false (by simp [initThread, syncMark, Thread.nextLoad]) (by simp)
  | adoptWrite r =>
    exact iff_of_false (by simp [initThread, syncAdoptWrite, Thread.nextLoad]) (by simp)
  | adoptStore v =>
    exact iff_of_false (by simp [initThread, syncAdoptStore, Thread.nextLoad]) (by simp)
  | zeroWrite =>
    exact iff_of_false (by simp [initThread, syncZeroWrite, Thread.nextLoad]) (by simp)
  | zeroRead =>
    exact iff_of_false (by simp [initThread, syncZeroRead, Thread.nextLoad]) (by simp)
  | finish => exact iff_of_false (by simp [initThread, finishProg, Thread.nextLoad]) (by simp)

end HandshakeCfg

namespace HandshakeSys

variable {c : HandshakeCfg} {σ σ' : HandshakeSys} {f : Side → PhasePc} {s : Side}

/-- The second check, by program point. -/
theorem atSecondCheck_iff {pc : InitPc} {adopting : Bool}
    (hok : c.PhaseOk s (σ.shm s) (.initing pc adopting)) :
    σ.atSecondCheck c s (c.initThread s pc) ↔ pc = .check2 := by
  obtain ⟨-, h1, h2⟩ := hok
  rw [atSecondCheck, c.nextLoad_initThread]
  constructor
  · rintro ⟨rfl | rfl, hip⟩
    · exact absurd hip (h1 rfl)
    · rfl
  · intro h
    exact ⟨Or.inr h, h2 h⟩

theorem look_eq {pc : InitPc} {adopting : Bool}
    (hok : c.PhaseOk s (σ.shm s) (.initing pc adopting)) :
    σ.look c s (c.initThread s pc) adopting = c.lookAt s σ.shm pc adopting := by
  rw [look]
  by_cases hpc : pc = .check2
  · rw [if_pos ((atSecondCheck_iff hok).mpr hpc), hpc]
    rfl
  · rw [if_neg (fun h => hpc ((atSecondCheck_iff hok).mp h))]
    cases pc with
    | check2 => exact absurd rfl hpc
    | _ => rfl

/-- The phases with one of them replaced stand for the system with that one
replaced. -/
theorem phase_update (hf : ∀ t, σ.phase t = c.phase t (f t)) (p : PhasePc) (t : Side) :
    Function.update σ.phase s (c.phase s p) t = c.phase t (Function.update f s p t) := by
  by_cases ht : t = s
  · subst ht
    rw [Function.update_self, Function.update_self]
  · rw [Function.update_of_ne ht, Function.update_of_ne ht, hf]

/-- **A memory step of a peer is one of its moves.** -/
theorem step_cases (hf : ∀ t, σ.phase t = c.phase t (f t))
    (hok : c.PhaseOk s (σ.shm s) (f s)) {i : ℕ} (hs : σ.step c (.step s i) = some σ') :
    ∃ p, c.PhaseMove s σ.shm (f s) p σ'.shm ∧
      ∀ t, σ'.phase t = c.phase t (Function.update f s p t) := by
  have hfs := hf s
  rw [step] at hs
  cases hp : f s with
  | idle q => rw [hp] at hfs; rw [hfs] at hs; exact absurd hs (by simp [HandshakeCfg.phase])
  | failed => rw [hp] at hfs; rw [hfs] at hs; exact absurd hs (by simp [HandshakeCfg.phase])
  | ready => rw [hp] at hfs; rw [hfs] at hs; exact absurd hs (by simp [HandshakeCfg.phase])
  | initing pc adopting =>
    rw [hp] at hfs hok
    rw [hfs, HandshakeCfg.phase] at hs
    obtain ⟨⟨th, shm'⟩, hstep, rfl⟩ := Option.map_eq_some_iff.mp hs
    obtain ⟨out, hm, rfl⟩ := c.initMove_of_step s hok.1 hstep
    cases out with
    | inl pc' =>
      refine ⟨_, .init hm, fun t => ?_⟩
      rw [← phase_update hf]
      simp only [initAfter, HandshakeCfg.initThreadOf, c.result_initThread, look_eq hok,
        HandshakeCfg.phase]
    | inr err =>
      by_cases he : err = 0
      · subst he
        exact ⟨_, .initDone hm, fun t => by rw [← phase_update hf]; rfl⟩
      · refine ⟨_, .initFailed he hm, fun t => ?_⟩
        rw [← phase_update hf]
        simp only [initAfter, HandshakeCfg.initThreadOf, Thread.result, if_neg he,
          HandshakeCfg.phase]
  | freeing pc =>
    rw [hp] at hfs
    rw [hfs, HandshakeCfg.phase] at hs
    obtain ⟨⟨th, shm'⟩, hstep, rfl⟩ := Option.map_eq_some_iff.mp hs
    obtain ⟨out, hm, rfl⟩ := c.freeMove_of_step s hstep
    cases out with
    | inl pc' =>
      refine ⟨_, .free hm, fun t => ?_⟩
      rw [← phase_update hf]
      simp only [freeAfter, HandshakeCfg.freeThreadOf, c.result_freeThread, HandshakeCfg.phase]
    | inr q => exact ⟨_, .freed hm, fun t => by rw [← phase_update hf]; rfl⟩

/-- Beginning a call is a move too. -/
theorem startInit_cases (hf : ∀ t, σ.phase t = c.phase t (f t))
    (hs : σ.step c (.startInit s) = some σ') :
    ∃ p, c.PhaseMove s σ.shm (f s) p σ'.shm ∧
      ∀ t, σ'.phase t = c.phase t (Function.update f s p t) := by
  have hfs := hf s
  rw [step] at hs
  cases hp : f s with
  | idle q =>
    rw [hp] at hfs
    rw [hfs] at hs
    obtain rfl := Option.some.inj hs
    refine ⟨_, .startInit, fun t => ?_⟩
    rw [← phase_update hf]
    simp only [c.initProg_eq, HandshakeCfg.phase, HandshakeCfg.initThread]
  | _ => rw [hp] at hfs; rw [hfs] at hs; exact absurd hs (by simp [HandshakeCfg.phase])

theorem startFree_cases (hf : ∀ t, σ.phase t = c.phase t (f t))
    (hs : σ.step c (.startFree s) = some σ') :
    ∃ p, c.PhaseMove s σ.shm (f s) p σ'.shm ∧
      ∀ t, σ'.phase t = c.phase t (Function.update f s p t) := by
  have hfs := hf s
  rw [step] at hs
  cases hp : f s with
  | failed =>
    rw [hp] at hfs
    rw [hfs] at hs
    obtain rfl := Option.some.inj hs
    exact ⟨_, .startFreeFailed, fun t => by rw [← phase_update hf]; rfl⟩
  | ready =>
    rw [hp] at hfs
    rw [hfs] at hs
    obtain rfl := Option.some.inj hs
    exact ⟨_, .startFree, fun t => by rw [← phase_update hf]; rfl⟩
  | _ => rw [hp] at hfs; rw [hfs] at hs; exact absurd hs (by simp [HandshakeCfg.phase])

end HandshakeSys

/-! ## The joint invariant -/

/-- A push stands at the write index of its own ring. -/
def PushPc.AtWrite (m : ByteMem) (off : ℕ) : PushPc → Prop
  | .start => True
  | .loaded w => w = m.writeIdx off
  | .copy w => w = m.writeIdx off
  | .copying w _ => w = m.writeIdx off
  | .publish w => w = m.writeIdx off

/-- A push under way leaves the indexes alone. -/
theorem PushMove.atWrite {q : IpcQueue} {buf : List UInt8} {off i : ℕ} {s : Side}
    {shm shm' : Shm} {pc pc' : PushPc}
    (hm : PushMove q buf off s i shm pc (.inl pc') shm') (h : pc.AtWrite (shm s) off) :
    (shm' s).writeIdx off = (shm s).writeIdx off ∧ pc'.AtWrite (shm' s) off := by
  cases hm with
  | start => exact ⟨rfl, rfl⟩
  | room hw hr hne => exact ⟨rfl, h⟩
  | copy => exact ⟨rfl, h⟩
  | copied => exact ⟨rfl, h⟩
  | @byte w todo hi =>
    have hw : ((shm s).write (off + 16 + w * q.elemSize + i) [buf.getD i 0]).writeIdx off
        = (shm s).writeIdx off := by
      rw [Nat.add_assoc, ByteMem.writeIdx_write_slot]
    rw [Shm.set_self, hw]
    exact ⟨rfl, Eq.trans h hw.symm⟩

/-- A push that succeeds advances the write index. -/
theorem PushMove.written {q : IpcQueue} {buf : List UInt8} {off i : ℕ} {s : Side}
    {shm shm' : Shm} {pc : PushPc} (hm : PushMove q buf off s i shm pc (.inr 0) shm')
    (h : pc.AtWrite (shm s) off) (hM : 0 < q.elemNum) (hlt : q.elemNum < 2 ^ 16) :
    (shm' s).writeIdx off = ((shm s).writeIdx off + 1) % q.elemNum := by
  cases hm with
  | @publish w =>
    have hmod := Nat.mod_lt (w + 1) hM
    have hw : w = (shm s).writeIdx off := h
    rw [Shm.set_self, ByteMem.writeIdx_store_write (by omega), hw]

/-- A push that fails changes nothing. -/
theorem PushMove.failed {q : IpcQueue} {buf : List UInt8} {off i : ℕ} {s : Side}
    {shm shm' : Shm} {pc : PushPc} {err : ℤ} (he : err ≠ 0)
    (hm : PushMove q buf off s i shm pc (.inr err) shm') : shm' = shm := by
  cases hm with
  | invalid h => rfl
  | full hw h => rfl
  | publish => exact absurd rfl he

/-- What a push leaves in the other window, whatever it does. -/
theorem HandshakeCfg.InitMove.other {c : HandshakeCfg} {s : Side} {i : ℕ} {shm shm' : Shm}
    {pc : InitPc} {out : InitPc ⊕ ℤ} (hm : c.InitMove s i shm pc out shm') :
    shm' s.other = shm s.other := by
  cases hm with
  | push h => exact h.frame.1
  | pushed h => exact h.frame.1
  | pushFailed he h => exact h.frame.1
  | _ => simp

namespace HandshakeCfg

variable (c : HandshakeCfg) (s : Side)

/-- A ring that is not initialized. -/
structure Clear (m : ByteMem) : Prop where
  sentinel_eq : m.sentinel c.off = 0
  write_eq : m.writeIdx c.off = 0
  read_eq : m.readIdx c.off = 0

/-- A ring that is being initialized. -/
def Marked (m : ByteMem) : Prop := m.sentinel c.off = ipcQueueInitInProgress

/-- What holds of a peer's own ring inside the initialization. -/
def InitLocal (m : ByteMem) (adopting : Bool) : InitPc → Prop
  | .check1 => adopting = false ∧ c.Clear m
  | .mark => adopting = false ∧ c.Clear m
  | .check2 => adopting = false ∧ c.Marked m ∧ m.writeIdx c.off = 0 ∧ m.readIdx c.off = 0
  | .adoptRead => adopting = true ∧ c.Marked m
  | .adoptWrite r => adopting = true ∧ c.Marked m ∧ r < c.numBufs.toNat + 1
  | .adoptLoad => adopting = true ∧ c.Marked m
  | .adoptStore v => adopting = true ∧ c.Marked m ∧ v < c.numBufs.toNat + 1
  | .zeroWrite => adopting = false ∧ c.Marked m ∧ m.writeIdx c.off = 0 ∧ m.readIdx c.off = 0
  | .zeroRead => adopting = false ∧ c.Marked m ∧ m.writeIdx c.off = 0 ∧ m.readIdx c.off = 0
  | .populate bufId left pc => c.Marked m ∧ bufId + left + 1 = c.count ∧
      pc.Ok (c.queue s) ∧ pc.AtWrite m c.off ∧
      (adopting = false → m.writeIdx c.off = bufId ∧ m.readIdx c.off = 0)
  | .finish => c.Marked m ∧
      (adopting = false → m.writeIdx c.off = c.count ∧ m.readIdx c.off = 0)

/-- What holds of a peer's own ring inside the release. -/
def FreeLocal (m : ByteMem) : FreePc → Prop
  | .load1 => m.sentinel c.off = ipcQueueInitDone ∨ c.Marked m ∨ c.Clear m
  | .load2 => c.Marked m ∨ c.Clear m
  | .clearSentinel => True
  | .clearWrite => m.sentinel c.off = 0
  | .clearRead => m.sentinel c.off = 0 ∧ m.writeIdx c.off = 0

/-- What holds of a peer's own ring. -/
def Local (m : ByteMem) : PhasePc → Prop
  | .idle _ => c.Clear m
  | .initing pc adopting => c.InitLocal s m adopting pc
  | .failed => c.Marked m ∨ c.Clear m
  | .ready => m.sentinel c.off = ipcQueueInitDone
  | .freeing pc => c.FreeLocal m pc

/-- The read index a queue adopts from a remote write index. -/
def adopted (w : ℕ) : ℕ := adoptedRead c.kind w % (c.numBufs.toNat + 1)

/-- What a peer has adopted so far from the ring `m'`. -/
def Adopted (m m' : ByteMem) : InitPc → Prop
  | .adoptWrite r => r = m'.readIdx c.off
  | .adoptLoad => m.writeIdx c.off = m'.readIdx c.off
  | .adoptStore v => m.writeIdx c.off = m'.readIdx c.off ∧ v = c.adopted (m'.writeIdx c.off)
  | .populate bufId _ _ =>
    m.writeIdx c.off = (m'.readIdx c.off + bufId) % (c.numBufs.toNat + 1)
      ∧ m.readIdx c.off = c.adopted (m'.writeIdx c.off)
  | .finish => m.writeIdx c.off = (m'.readIdx c.off + c.count) % (c.numBufs.toNat + 1)
      ∧ m.readIdx c.off = c.adopted (m'.writeIdx c.off)
  | _ => True

/-- The second check is made. -/
def InitPc.Late : InitPc → Prop
  | .check1 => False
  | .mark => False
  | .check2 => False
  | _ => True

/-- **What a peer knows of the other**, the peer at `p` with ring `m` and the
other at `p'` with ring `m'`. -/
def Pair (m m' : ByteMem) (p p' : PhasePc) : Prop :=
  ∀ pc adopting, p = .initing pc adopting →
    (adopting = true → (∀ pc' a', p' = .initing pc' a' → pc' = .check1) ∧
      (m'.sentinel c.off = ipcQueueInitDone → c.Adopted m m' pc)) ∧
    (adopting = false → InitPc.Late pc → m'.sentinel c.off = ipcQueueInitDone →
      m'.writeIdx c.off = c.count ∧ m'.readIdx c.off = 0)

/-- Both indexes of a ring are in range. -/
def InRange (m : ByteMem) : Prop :=
  m.writeIdx c.off < c.numBufs.toNat + 1 ∧ m.readIdx c.off < c.numBufs.toNat + 1

/-- **The joint invariant.** -/
structure Joint (f : Side → PhasePc) (shm : Shm) : Prop where
  range : ∀ t, c.InRange (shm t)
  locals : ∀ t, c.Local t (shm t) (f t)
  pairs : ∀ t, c.Pair (shm t) (shm t.other) (f t) (f t.other)

variable {c s}

theorem done_ne_marked : ipcQueueInitDone ≠ ipcQueueInitInProgress := by decide

variable {m : ByteMem} {p : PhasePc} {shm shm' : Shm}

theorem Marked.ne_done (h : c.Marked m) : m.sentinel c.off ≠ ipcQueueInitDone :=
  fun hd => done_ne_marked (hd.symm.trans h)

theorem marked_store : c.Marked (m.store 8 c.off ipcQueueInitInProgress) :=
  ByteMem.sentinel_store_sentinel (v := ipcQueueInitInProgress) (by decide)

theorem Clear.ne_done (h : c.Clear m) : m.sentinel c.off ≠ ipcQueueInitDone := by
  rw [h.sentinel_eq]
  decide

theorem Clear.ne_marked (h : c.Clear m) : ¬c.Marked m := by
  unfold Marked
  rw [h.sentinel_eq]
  decide

/-- A ring under initialization is not marked `DONE`. -/
theorem InitLocal.ne_done {a : Bool} {pc : InitPc} (h : c.InitLocal s m a pc) :
    m.sentinel c.off ≠ ipcQueueInitDone := by
  cases pc with
  | check1 => exact h.2.ne_done
  | mark => exact h.2.ne_done
  | check2 => exact h.2.1.ne_done
  | adoptRead => exact Marked.ne_done h.2
  | adoptWrite r => exact h.2.1.ne_done
  | adoptLoad => exact Marked.ne_done h.2
  | adoptStore v => exact h.2.1.ne_done
  | zeroWrite => exact h.2.1.ne_done
  | zeroRead => exact h.2.1.ne_done
  | populate bufId left pc => exact h.1.ne_done
  | finish => exact h.1.ne_done

/-- A peer that adopts has marked its ring. -/
theorem InitLocal.marked_of_adopting {pc : InitPc} (h : c.InitLocal s m true pc) : c.Marked m := by
  cases pc with
  | check1 => exact absurd h.1 (by simp)
  | mark => exact absurd h.1 (by simp)
  | check2 => exact h.2.1
  | adoptRead => exact h.2
  | adoptWrite r => exact h.2.1
  | adoptLoad => exact h.2
  | adoptStore v => exact h.2.1
  | zeroWrite => exact h.2.1
  | zeroRead => exact h.2.1
  | populate bufId left pc => exact h.1
  | finish => exact h.1

/-- What a peer relies on follows from its local facts. -/
theorem Local.phaseOk (h : c.Local s m p) : c.PhaseOk s m p := by
  cases p with
  | initing pc adopting =>
    cases pc with
    | check1 => exact ⟨trivial, fun _ => h.2.ne_marked, fun hc => absurd hc (by simp)⟩
    | check2 => exact ⟨trivial, fun hc => absurd hc (by simp), fun _ => h.2.1⟩
    | populate bufId left pc =>
      exact ⟨h.2.2.1, fun hc => absurd hc (by simp), fun hc => absurd hc (by simp)⟩
    | _ => exact ⟨trivial, fun hc => absurd hc (by simp), fun hc => absurd hc (by simp)⟩
  | _ => trivial

/-- The start of a population, or its end when nothing is left. -/
theorem initLocal_populateFrom {a : Bool} {bufId n : ℕ} (hm : c.Marked m) (hn : bufId + n = c.count)
    (hz : a = false → m.writeIdx c.off = bufId ∧ m.readIdx c.off = 0) :
    c.InitLocal s m a (.populateFrom bufId n) := by
  cases n with
  | zero => exact ⟨hm, fun ha => by rw [← hn]; exact hz ha⟩
  | succ n => exact ⟨hm, by omega, trivial, trivial, hz⟩

theorem adopted_populateFrom {m' : ByteMem} {bufId n : ℕ} (hn : bufId + n = c.count)
    (hw : m.writeIdx c.off = (m'.readIdx c.off + bufId) % (c.numBufs.toNat + 1))
    (hr : m.readIdx c.off = c.adopted (m'.writeIdx c.off)) :
    c.Adopted m m' (.populateFrom bufId n) := by
  cases n with
  | zero => exact ⟨by rw [← hn]; exact hw, hr⟩
  | succ n => exact ⟨hw, hr⟩

/-- **A step inside the initialization**: local facts, and what was adopted
stays what the other has. -/
theorem InitMove.step {i : ℕ} {pc pc' : InitPc} {a : Bool}
    (hm : c.InitMove s i shm pc (.inl pc') shm') (hl : c.InitLocal s (shm s) a pc)
    (hr : c.InRange (shm s)) (hr' : c.InRange (shm s.other)) :
    c.InRange (shm' s) ∧ c.InitLocal s (shm' s) (c.lookAt s shm pc a) pc' ∧
      (c.Adopted (shm s) (shm s.other) pc → c.lookAt s shm pc a = true →
        c.Adopted (shm' s) (shm s.other) pc') := by
  have hN := c.numBufs_le
  unfold ipcShmMaxBufsPerChannel at hN
  have hcount := c.count_le
  cases hm with
  | check1 h => exact ⟨hr, hl, fun _ _ => trivial⟩
  | mark =>
    obtain ⟨ha, hclear⟩ := hl
    rw [Shm.set_self]
    refine ⟨⟨?_, ?_⟩, ⟨ha, ?_, ?_, ?_⟩, fun _ _ => trivial⟩
    · rw [ByteMem.writeIdx_store_sentinel]; exact hr.1
    · rw [ByteMem.readIdx_store_sentinel]; exact hr.2
    · exact marked_store
    · rw [ByteMem.writeIdx_store_sentinel]; exact hclear.write_eq
    · rw [ByteMem.readIdx_store_sentinel]; exact hclear.read_eq
  | live h => exact ⟨hr, ⟨c.lookAt_live s h, hl.2.1⟩, fun _ _ => trivial⟩
  | fresh h => exact ⟨hr, ⟨c.lookAt_fresh s h, hl.2⟩, fun _ _ => trivial⟩
  | adoptRead => exact ⟨hr, ⟨hl.1, hl.2, hr'.2⟩, fun _ _ => rfl⟩
  | @adoptWrite r =>
    obtain ⟨ha, hmk, hrlt⟩ := hl
    rw [Shm.set_self]
    refine ⟨⟨?_, ?_⟩, ⟨ha, ?_⟩, fun had _ => ?_⟩
    · rw [ByteMem.writeIdx_store_write (by omega)]; exact hrlt
    · rw [ByteMem.readIdx_store_write]; exact hr.2
    · exact ByteMem.sentinel_store_write.trans hmk
    · exact (ByteMem.writeIdx_store_write (by omega)).trans had
  | adoptLoad =>
    exact ⟨hr, ⟨hl.1, hl.2, Nat.mod_lt _ (Nat.succ_pos _)⟩, fun had _ => ⟨had, rfl⟩⟩
  | zeroWrite =>
    obtain ⟨ha, hmk, hw, hrd⟩ := hl
    rw [Shm.set_self]
    refine ⟨⟨?_, ?_⟩, ⟨ha, ?_, ?_, ?_⟩, fun _ _ => trivial⟩
    · rw [ByteMem.writeIdx_store_write (by decide)]; exact Nat.succ_pos _
    · rw [ByteMem.readIdx_store_write]; exact hr.2
    · exact ByteMem.sentinel_store_write.trans hmk
    · exact ByteMem.writeIdx_store_write (by decide)
    · rw [ByteMem.readIdx_store_write]; exact hrd
  | push h =>
    obtain ⟨hmk, hn, hok, hat, hz⟩ := hl
    obtain ⟨-, hread, hsent⟩ := h.frame
    obtain ⟨hwrite, hat'⟩ := h.atWrite hat
    refine ⟨⟨by rw [hwrite]; exact hr.1, by rw [hread]; exact hr.2⟩,
      ⟨hsent.trans hmk, hn, h.ok hok, hat', ?_⟩, fun had _ => ?_⟩
    · rw [hwrite, hread]; exact hz
    · exact ⟨hwrite.trans had.1, hread.trans had.2⟩
  | @pushed bufId left pc shm' h =>
    obtain ⟨hmk, hn, hok, hat, hz⟩ := hl
    obtain ⟨-, hread, hsent⟩ := h.frame
    have hwrite : (shm' s).writeIdx c.off
        = ((shm s).writeIdx c.off + 1) % (c.numBufs.toNat + 1) :=
      h.written hat (Nat.succ_pos _) (c.queue_at s).elemNum_lt
    refine ⟨⟨?_, by rw [hread]; exact hr.2⟩, initLocal_populateFrom (hsent.trans hmk)
      (by omega) (fun ha => ?_), fun had _ => adopted_populateFrom (by omega) ?_ ?_⟩
    · rw [hwrite]; exact Nat.mod_lt _ (Nat.succ_pos _)
    · obtain ⟨hw, hrd⟩ := hz ha
      rw [hwrite, hread, hw]
      exact ⟨Nat.mod_eq_of_lt (by omega), hrd⟩
    · rw [hwrite, had.1, Cyclic.succ]
    · exact hread.trans had.2
  | @adoptStore v out h =>
    obtain ⟨ha, hmk, hv⟩ := hl
    rw [c.afterSync_inl s h, Shm.set_self]
    refine ⟨⟨?_, ?_⟩, initLocal_populateFrom (ByteMem.sentinel_store_read.trans hmk)
      (Nat.zero_add _) (fun hf => absurd (ha.symm.trans hf) (by simp)),
      fun had _ => adopted_populateFrom (Nat.zero_add _) ?_ ?_⟩
    · rw [ByteMem.writeIdx_store_read]; exact hr.1
    · rw [ByteMem.readIdx_store_read (by omega)]; exact hv
    · rw [ByteMem.writeIdx_store_read, had.1, Nat.add_zero, Nat.mod_eq_of_lt hr'.2]
    · rw [ByteMem.readIdx_store_read (by omega), had.2]
  | zeroRead h =>
    obtain ⟨ha, hmk, hw, hrd⟩ := hl
    rw [c.afterSync_inl s h, Shm.set_self]
    refine ⟨⟨?_, ?_⟩, initLocal_populateFrom (ByteMem.sentinel_store_read.trans hmk)
      (Nat.zero_add _) (fun _ => ⟨?_, ?_⟩), fun _ hl => absurd (ha.symm.trans hl) (by simp)⟩
    · rw [ByteMem.writeIdx_store_read]; exact hr.1
    · rw [ByteMem.readIdx_store_read (by decide)]; exact Nat.succ_pos _
    · rw [ByteMem.writeIdx_store_read]; exact hw
    · exact ByteMem.readIdx_store_read (by decide)

/-- **An initialization that returns** succeeded by marking its ring, or
failed with the ring marked or never touched. -/
theorem InitMove.returns {i : ℕ} {pc : InitPc} {out : InitPc ⊕ ℤ} {a : Bool} {err : ℤ}
    (hm : c.InitMove s i shm pc out shm') (ho : out = .inr err) (hl : c.InitLocal s (shm s) a pc)
    (hr : c.InRange (shm s)) : c.InRange (shm' s) ∧
      (err = 0 → pc = .finish ∧ shm' = shm.set s ((shm s).store 8 c.off ipcQueueInitDone)) ∧
      (err ≠ 0 → c.Marked (shm' s) ∨ c.Clear (shm' s)) := by
  have hN := c.numBufs_le
  unfold ipcShmMaxBufsPerChannel at hN
  have hagain : -EAGAIN ≠ 0 := by decide
  have hnomem : -ENOMEM ≠ 0 := by decide
  cases hm with
  | busy h =>
    obtain rfl := Sum.inr.inj ho
    exact ⟨hr, fun h0 => absurd h0 hagain, fun _ => Or.inr hl.2⟩
  | @adoptStore v out h =>
    obtain rfl := c.afterSync_inr s (h.trans ho)
    obtain ⟨-, hmk, hv⟩ := hl
    rw [Shm.set_self]
    refine ⟨⟨?_, ?_⟩, fun h0 => absurd h0 hnomem,
      fun _ => Or.inl (ByteMem.sentinel_store_read.trans hmk)⟩
    · rw [ByteMem.writeIdx_store_read]; exact hr.1
    · rw [ByteMem.readIdx_store_read (by omega)]; exact hv
  | zeroRead h =>
    obtain rfl := c.afterSync_inr s (h.trans ho)
    obtain ⟨-, hmk, -, -⟩ := hl
    rw [Shm.set_self]
    refine ⟨⟨?_, ?_⟩, fun h0 => absurd h0 hnomem,
      fun _ => Or.inl (ByteMem.sentinel_store_read.trans hmk)⟩
    · rw [ByteMem.writeIdx_store_read]; exact hr.1
    · rw [ByteMem.readIdx_store_read (by decide)]; exact Nat.succ_pos _
  | pushFailed he h =>
    obtain rfl := Sum.inr.inj ho
    obtain rfl := h.failed he
    exact ⟨hr, fun h0 => absurd h0 he, fun _ => Or.inl hl.1⟩
  | finish =>
    obtain rfl := Sum.inr.inj ho
    refine ⟨?_, fun _ => ⟨rfl, rfl⟩, fun h0 => absurd rfl h0⟩
    rw [Shm.set_self]
    exact ⟨by rw [ByteMem.writeIdx_store_sentinel]; exact hr.1,
      by rw [ByteMem.readIdx_store_sentinel]; exact hr.2⟩
  | _ => exact absurd ho (by simp)

/-- The facts a peer has about its own ring after any of its moves. -/
theorem PhaseMove.local {p' : PhasePc} (hm : c.PhaseMove s shm p p' shm') (hl : c.Local s (shm s) p)
    (hr : c.InRange (shm s)) (hr' : c.InRange (shm s.other)) :
    c.InRange (shm' s) ∧ c.Local s (shm' s) p' := by
  cases hm with
  | startInit => exact ⟨hr, rfl, hl⟩
  | init h =>
    obtain ⟨hrange, hloc, -⟩ := h.step hl hr hr'
    exact ⟨hrange, hloc⟩
  | initDone h =>
    obtain ⟨hrange, hdone, -⟩ := h.returns rfl hl hr
    refine ⟨hrange, ?_⟩
    rw [(hdone rfl).2, Shm.set_self]
    exact ByteMem.sentinel_store_sentinel (v := ipcQueueInitDone) (by decide)
  | initFailed he h =>
    obtain ⟨hrange, -, hfail⟩ := h.returns rfl hl hr
    exact ⟨hrange, hfail he⟩
  | startFreeFailed => exact ⟨hr, Or.inr hl⟩
  | startFree => exact ⟨hr, Or.inl hl⟩
  | free h =>
    cases h with
    | done hd => exact ⟨hr, trivial⟩
    | notDone hd => exact ⟨hr, hl.resolve_left hd⟩
    | inProgress hd => exact ⟨hr, trivial⟩
    | clearSentinel =>
      rw [Shm.set_self]
      refine ⟨⟨?_, ?_⟩, ByteMem.sentinel_store_sentinel (v := 0) (by decide)⟩
      · rw [ByteMem.writeIdx_store_sentinel]; exact hr.1
      · rw [ByteMem.readIdx_store_sentinel]; exact hr.2
    | clearWrite =>
      rw [Shm.set_self]
      refine ⟨⟨?_, ?_⟩, ByteMem.sentinel_store_write.trans hl,
        ByteMem.writeIdx_store_write (by decide)⟩
      · rw [ByteMem.writeIdx_store_write (by decide)]; exact Nat.succ_pos _
      · rw [ByteMem.readIdx_store_write]; exact hr.2
  | freed h =>
    cases h with
    | nothing hd => exact ⟨hr, hl.resolve_left hd⟩
    | clearRead =>
      rw [Shm.set_self]
      refine ⟨⟨?_, ?_⟩, ByteMem.sentinel_store_read.trans hl.1,
        ByteMem.writeIdx_store_read.trans hl.2, ByteMem.readIdx_store_read (by decide)⟩
      · rw [ByteMem.writeIdx_store_read]; exact hr.1
      · rw [ByteMem.readIdx_store_read (by decide)]; exact Nat.succ_pos _

/-- A peer does not write the other's window. -/
theorem PhaseMove.other {p' : PhasePc} (hm : c.PhaseMove s shm p p' shm') :
    shm' s.other = shm s.other := by
  cases hm with
  | init h => exact h.other
  | initDone h => exact h.other
  | initFailed he h => exact h.other
  | free h => cases h <;> simp
  | freed h => cases h <;> simp
  | _ => rfl

/-- **What the other peer sees of a move** that leaves the ring marked
`DONE`: the indexes are as before, and so was the mark unless the move set
it. -/
theorem PhaseMove.done {p' : PhasePc} (hm : c.PhaseMove s shm p p' shm') (hl : c.Local s (shm s) p)
    (hr : c.InRange (shm s)) (hr' : c.InRange (shm s.other))
    (hd : (shm' s).sentinel c.off = ipcQueueInitDone) :
    (shm' s).writeIdx c.off = (shm s).writeIdx c.off ∧
      (shm' s).readIdx c.off = (shm s).readIdx c.off ∧
      ((shm s).sentinel c.off = ipcQueueInitDone ∨ ∃ a, p = .initing .finish a) := by
  have hloc := (hm.local hl hr hr').2
  cases hm with
  | startInit => exact ⟨rfl, rfl, Or.inl hd⟩
  | init h => exact absurd hd (InitLocal.ne_done hloc)
  | initDone h =>
    obtain ⟨-, hdone, -⟩ := h.returns rfl hl hr
    obtain ⟨rfl, rfl⟩ := hdone rfl
    rw [Shm.set_self, ByteMem.writeIdx_store_sentinel, ByteMem.readIdx_store_sentinel]
    exact ⟨rfl, rfl, Or.inr ⟨_, rfl⟩⟩
  | initFailed he h =>
    rcases hloc with hmk | hcl
    · exact absurd hd hmk.ne_done
    · exact absurd hd hcl.ne_done
  | startFreeFailed => exact ⟨rfl, rfl, Or.inl hd⟩
  | startFree => exact ⟨rfl, rfl, Or.inl hd⟩
  | free h =>
    cases h with
    | clearSentinel => exact absurd (hloc.symm.trans hd) (by decide)
    | clearWrite => exact absurd (hloc.1.symm.trans hd) (by decide)
    | _ => exact ⟨rfl, rfl, Or.inl hd⟩
  | freed h =>
    cases h with
    | nothing hne => exact ⟨rfl, rfl, Or.inl hd⟩
    | clearRead => exact absurd hd (Clear.ne_done hloc)

/-- **A peer becomes ready** by marking its ring at the end of its
initialization. -/
theorem PhaseMove.ready (hm : c.PhaseMove s shm p .ready shm') (hl : c.Local s (shm s) p)
    (hr : c.InRange (shm s)) : (∃ a, p = .initing .finish a) ∧
      (shm' s).writeIdx c.off = (shm s).writeIdx c.off ∧
      (shm' s).readIdx c.off = (shm s).readIdx c.off := by
  cases hm with
  | initDone h =>
    obtain ⟨-, hdone, -⟩ := h.returns rfl hl hr
    obtain ⟨rfl, rfl⟩ := hdone rfl
    rw [Shm.set_self, ByteMem.writeIdx_store_sentinel, ByteMem.readIdx_store_sentinel]
    exact ⟨⟨_, rfl⟩, rfl, rfl⟩

/-- **Every move of a peer keeps the joint invariant.** -/
theorem Joint.move {f : Side → PhasePc} (h : c.Joint f shm) (hm : c.PhaseMove s shm (f s) p shm') :
    c.Joint (Function.update f s p) shm' := by
  obtain ⟨hrange, hloc⟩ := hm.local (h.locals s) (h.range s) (h.range s.other)
  have hother := hm.other
  have hpair := h.pairs s
  have hpair' := h.pairs s.other
  rw [Side.other_other] at hpair'
  refine ⟨fun t => ?_, fun t => ?_, fun t => ?_⟩
  · rcases Side.eq_or_eq_other s t with rfl | rfl
    · exact hrange
    · rw [hother]
      exact h.range s.other
  · rcases Side.eq_or_eq_other s t with rfl | rfl
    · rw [Function.update_self]
      exact hloc
    · rw [Function.update_of_ne (Side.other_ne s), hother]
      exact h.locals s.other
  · rcases Side.eq_or_eq_other s t with rfl | rfl
    · rw [Function.update_self, Function.update_of_ne (Side.other_ne t), hother]
      intro pc a hp
      subst hp
      generalize hft : f t = p at hm hpair
      have hlt := h.locals t
      rw [hft] at hlt
      cases hm with
      | startInit => exact ⟨fun ha => absurd ha (by simp), fun _ hlate => absurd hlate id⟩
      | @init pc₀ _ a₀ i _ hi =>
        obtain ⟨-, -, hadopt⟩ := hi.step hlt (h.range t) (h.range t.other)
        obtain ⟨htrue, hfalse⟩ := hpair pc₀ a₀ rfl
        cases hi with
        | live hd =>
          rw [c.lookAt_live t hd]
          refine ⟨fun _ => ⟨fun pc' a' hf' => ?_, fun _ => trivial⟩,
            fun ha => absurd ha (by simp)⟩
          have hl' := h.locals t.other
          rw [hf'] at hl'
          exact absurd hd (InitLocal.ne_done hl')
        | fresh hd =>
          rw [c.lookAt_fresh t hd]
          exact ⟨fun ha => absurd ha (by simp), fun _ _ hd' => absurd hd' hd⟩
        | check1 hne =>
          obtain rfl : a₀ = false := hlt.1
          exact ⟨fun ha => absurd ha (by simp [lookAt]), fun _ hlate => absurd hlate id⟩
        | mark =>
          obtain rfl : a₀ = false := hlt.1
          exact ⟨fun ha => absurd ha (by simp [lookAt]), fun _ hlate => absurd hlate id⟩
        | _ =>
          exact ⟨fun ha => ⟨(htrue ha).1, fun hd => hadopt ((htrue ha).2 hd) ha⟩,
            fun ha _ hd => hfalse ha trivial hd⟩
    · rw [Side.other_other, Function.update_self, Function.update_of_ne (Side.other_ne s),
        hother]
      intro pc a hp
      obtain ⟨htrue, hfalse⟩ := hpair' pc a hp
      have hl' := h.locals s.other
      rw [hp] at hl'
      refine ⟨fun ha => ⟨fun pc' a' hp' => ?_, fun hd => ?_⟩, fun ha hlate hd => ?_⟩
      · subst ha
        generalize hfs : f s = p₀ at hm htrue
        subst hp'
        cases hm with
        | startInit => rfl
        | init hi =>
          obtain rfl := (htrue rfl).1 _ _ rfl
          cases hi with
          | check1 hne => exact absurd (InitLocal.marked_of_adopting hl') hne
      · obtain ⟨hw, hrd, hcase⟩ := hm.done (h.locals s) (h.range s) (h.range s.other) hd
        have hdone : (shm s).sentinel c.off = ipcQueueInitDone := by
          rcases hcase with hdone | ⟨a', hfin⟩
          · exact hdone
          · exact absurd ((htrue ha).1 _ _ hfin) (by simp)
        have had := (htrue ha).2 hdone
        cases pc <;> simp only [Adopted, hw, hrd] at had ⊢ <;> exact had
      · obtain ⟨hw, hrd, hcase⟩ := hm.done (h.locals s) (h.range s) (h.range s.other) hd
        rw [hw, hrd]
        rcases hcase with hdone | ⟨a', hfin⟩
        · exact hfalse ha hlate hdone
        · have hls := h.locals s
          rw [hfin] at hls
          -- an adopting peer would not let the other get this far
          cases a' with
          | false => exact hls.2 rfl
          | true =>
            have := ((hpair _ _ hfin).1 rfl).1 pc a hp
            rw [this] at hlate
            exact absurd hlate id

end HandshakeCfg

/-! ## Whole runs -/

namespace HandshakeSys

variable {c : HandshakeCfg} {σ σ' : HandshakeSys} {f : Side → PhasePc} {s : Side}

/-- A peer that may push and pop has the queue it mapped. -/
theorem handle_eq (hf : ∀ t, σ.phase t = c.phase t (f t)) {q : IpcQueue}
    (hq : (σ.phase s).handle = some q) : q = c.queue s := by
  rw [hf s] at hq
  cases hp : f s with
  | ready => rw [hp] at hq; exact (Option.some.inj hq).symm
  | freeing pc => rw [hp] at hq; exact (Option.some.inj hq).symm
  | _ => rw [hp] at hq; exact absurd hq (by simp [HandshakeCfg.phase, QueuePhase.handle])

/-- A whole push writes its own ring, whose indexes stay in range. -/
theorem push_effect (h : c.Joint f σ.shm) {x : List UInt8} (hx : x.length = sizeofIpcShmBd)
    {r : ℤ} {shm' : Shm}
    (hrun : (ipcQueuePush (c.queue s) x).run (memHandle (c.μ s) s) σ.shm = some (r, shm')) :
    shm' s.other = σ.shm s.other ∧
      (shm' s).sentinel c.off = (σ.shm s).sentinel c.off ∧ c.InRange (shm' s) := by
  have hq := c.queue_at s
  have hlt := hq.elemNum_lt
  have hpos : 0 < (c.queue s).elemNum := Nat.succ_pos _
  obtain ⟨xs, hr⟩ := RingHolds.exists_of_lt (E := (c.queue s).elemSize) (h.range s).1
    (h.range s.other).2
  rcases Nat.lt_or_ge xs.length c.numBufs.toNat with hlen | hlen
  · rw [ipcQueuePush_run hq rfl hr hlen hx] at hrun
    obtain ⟨-, rfl⟩ := Prod.mk.inj (Option.some.inj hrun)
    rw [Shm.set_other, Shm.set_self, ByteMem.sentinel_pushBack]
    refine ⟨rfl, rfl, ?_, ?_⟩
    · rw [ByteMem.writeIdx_pushBack hpos (by omega)]
      exact Nat.mod_lt _ hpos
    · rw [ByteMem.readIdx_pushBack]
      exact (h.range s).2
  · rw [ipcQueuePush_run_full hq rfl hr (Nat.le_antisymm hr.length_le hlen)] at hrun
    obtain ⟨-, rfl⟩ := Prod.mk.inj (Option.some.inj hrun)
    exact ⟨rfl, rfl, h.range s⟩

/-- So does a whole pop. -/
theorem pop_effect (h : c.Joint f σ.shm) (hd : σ.shm.Done c.off) {r : ℤ × List UInt8}
    {shm' : Shm}
    (hrun : (ipcQueuePop (c.queue s)).run (memHandle (c.μ s) s) σ.shm = some (r, shm')) :
    shm' s.other = σ.shm s.other ∧
      (shm' s).sentinel c.off = (σ.shm s).sentinel c.off ∧ c.InRange (shm' s) := by
  have hq := c.queue_at s
  have hlt := hq.elemNum_lt
  have hpos : 0 < (c.queue s).elemNum := Nat.succ_pos _
  obtain ⟨xs, hr⟩ := RingHolds.exists_of_lt (E := (c.queue s).elemSize) (h.range s.other).1
    (h.range s).2
  cases xs with
  | nil =>
    rw [ipcQueuePop_run_empty hq rfl hd hr] at hrun
    obtain ⟨-, rfl⟩ := Prod.mk.inj (Option.some.inj hrun)
    exact ⟨rfl, rfl, h.range s⟩
  | cons x xs =>
    rw [ipcQueuePop_run hq rfl hd hr] at hrun
    obtain ⟨-, rfl⟩ := Prod.mk.inj (Option.some.inj hrun)
    rw [Shm.set_other, Shm.set_self, ByteMem.sentinel_popFront]
    refine ⟨rfl, rfl, ?_, ?_⟩
    · rw [ByteMem.writeIdx_popFront]
      exact (h.range s).1
    · rw [ByteMem.readIdx_popFront hpos (by omega)]
      exact Nat.mod_lt _ hpos

/-- What holds of a ring marked `DONE` does not depend on its indexes. -/
theorem local_of_done {m m' : ByteMem} {p : PhasePc} (h : c.Local s m p)
    (hd : m.sentinel c.off = ipcQueueInitDone) (hd' : m'.sentinel c.off = ipcQueueInitDone) :
    c.Local s m' p := by
  cases p with
  | idle q => exact absurd hd (HandshakeCfg.Clear.ne_done h)
  | initing pc a => exact absurd hd (HandshakeCfg.InitLocal.ne_done h)
  | failed =>
    rcases h with h | h
    · exact absurd hd h.ne_done
    · exact absurd hd h.ne_done
  | ready => exact hd'
  | freeing pc =>
    cases pc with
    | load1 => exact Or.inl hd'
    | load2 =>
      rcases h with h | h
      · exact absurd hd h.ne_done
      · exact absurd hd h.ne_done
    | clearSentinel => trivial
    | clearWrite => exact absurd (Eq.trans (Eq.symm h) hd) (by decide)
    | clearRead => exact absurd (h.1.symm.trans hd) (by decide)

/-- **Pushes and pops keep the joint invariant**: no initialization is under
way while they happen. -/
theorem joint_data (h : c.Joint f σ.shm) (hd : σ.shm.Done c.off) {shm' : Shm}
    (hother : shm' s.other = σ.shm s.other)
    (hsent : (shm' s).sentinel c.off = (σ.shm s).sentinel c.off)
    (hrange : c.InRange (shm' s)) : c.Joint f shm' := by
  have hd' : shm'.Done c.off := fun t => by
    rcases Side.eq_or_eq_other s t with rfl | rfl
    · exact hsent.trans (hd t)
    · rw [hother]
      exact hd s.other
  refine ⟨fun t => ?_, fun t => local_of_done (h.locals t) (hd t) (hd' t), fun t pc a hp => ?_⟩
  · rcases Side.eq_or_eq_other s t with rfl | rfl
    · exact hrange
    · rw [hother]
      exact h.range s.other
  · have hl := h.locals t
    rw [hp] at hl
    exact absurd (hd t) (HandshakeCfg.InitLocal.ne_done hl)

/-- What a data step is. -/
theorem data_cases {α : Type} {p : IpcQueue → Drv α} (hs : σ.data c s p = some σ') :
    σ.shm.Done c.off ∧ σ'.phase = σ.phase ∧ ∃ q r, (σ.phase s).handle = some q ∧
      (p q).run (memHandle (c.μ s) s) σ.shm = some (r, σ'.shm) := by
  rw [data] at hs
  split at hs
  · rename_i hd
    obtain ⟨q, hq, hs⟩ := Option.bind_eq_some_iff.mp hs
    obtain ⟨⟨r, shm'⟩, hrun, rfl⟩ := Option.map_eq_some_iff.mp hs
    refine ⟨fun t => ?_, rfl, q, r, hq, hrun⟩
    cases t with
    | a => exact hd.1
    | b => exact hd.2
  · exact absurd hs (by simp)

/-- The system is at program points that satisfy the joint invariant. -/
def Inv (c : HandshakeCfg) (σ : HandshakeSys) : Prop :=
  ∃ f, (∀ t, σ.phase t = c.phase t (f t)) ∧ c.Joint f σ.shm

/-- **Every step keeps the joint invariant.** -/
theorem Inv.step (h : σ.Inv c) {a : HandshakeAct} (hs : σ.step c a = some σ') : σ'.Inv c := by
  obtain ⟨f, hf, hj⟩ := h
  cases a with
  | startInit s =>
    obtain ⟨p, hm, hf'⟩ := startInit_cases hf hs
    exact ⟨_, hf', hj.move hm⟩
  | startFree s =>
    obtain ⟨p, hm, hf'⟩ := startFree_cases hf hs
    exact ⟨_, hf', hj.move hm⟩
  | step s i =>
    obtain ⟨p, hm, hf'⟩ := step_cases hf (hj.locals s).phaseOk hs
    exact ⟨_, hf', hj.move hm⟩
  | push s x =>
    rw [HandshakeSys.step] at hs
    split at hs
    · rename_i hx
      obtain ⟨hd, hph, q, r, hq, hrun⟩ := data_cases hs
      obtain rfl := handle_eq hf hq
      obtain ⟨hother, hsent, hrange⟩ := push_effect hj hx hrun
      exact ⟨f, by rw [hph]; exact hf, joint_data hj hd hother hsent hrange⟩
    · exact absurd hs (by simp)
  | pop s =>
    obtain ⟨hd, hph, q, r, hq, hrun⟩ := data_cases hs
    obtain rfl := handle_eq hf hq
    obtain ⟨hother, hsent, hrange⟩ := pop_effect hj hd hrun
    exact ⟨f, by rw [hph]; exact hf, joint_data hj hd hother hsent hrange⟩

/-- Both rings cleared, and no peer has begun. -/
structure Cleared (c : HandshakeCfg) (σ : HandshakeSys) : Prop where
  clear : ∀ t, c.Clear (σ.shm t)
  idle : ∀ t, ∃ q, σ.phase t = .idle q

theorem Cleared.inv (h : σ.Cleared c) : σ.Inv c := by
  choose q hq using h.idle
  refine ⟨fun t => .idle (q t), hq, fun t => ?_, h.clear, fun t pc a hp => absurd hp (by simp)⟩
  refine ⟨?_, ?_⟩
  · rw [(h.clear t).write_eq]; exact Nat.succ_pos _
  · rw [(h.clear t).read_eq]; exact Nat.succ_pos _

/-- The two directions, once what a peer adopted is what the other has. -/
theorem dist_of_adopted {m m' : ByteMem} (hr : c.InRange m')
    (had : c.Adopted m m' .finish) :
    Cyclic.dist (c.numBufs.toNat + 1) (m.writeIdx c.off) (m'.readIdx c.off) = c.count ∧
      Cyclic.dist (c.numBufs.toNat + 1) (m'.writeIdx c.off) (m.readIdx c.off) = c.count := by
  have hle := c.count_le
  have hmax := c.numBufs_le
  unfold ipcShmMaxBufsPerChannel at hmax
  constructor
  · have h := Cyclic.dist_eq (a := m'.readIdx c.off) (Nat.zero_le c.count)
      (show c.count < 0 + (c.numBufs.toNat + 1) by omega)
    simp only [Nat.add_zero, Nat.mod_eq_of_lt hr.2, Nat.sub_zero] at h
    rw [had.1, h]
  · rw [had.2, HandshakeCfg.adopted]
    cases hk : c.kind with
    | channelQueue =>
      rw [adoptedRead, Nat.mod_eq_of_lt hr.1, Cyclic.dist_self, HandshakeCfg.count, hk]
    | poolQueue =>
      have h := Cyclic.dist_eq (a := m'.writeIdx c.off + 1) (Nat.zero_le c.numBufs.toNat)
        (show c.numBufs.toNat < 0 + (c.numBufs.toNat + 1) by omega)
      rw [Nat.add_assoc, Nat.add_comm 1, Nat.add_mod_right, Nat.mod_eq_of_lt hr.1,
        Nat.add_zero] at h
      have hlt := hr.1
      rw [adoptedRead, u32_of_lt (by omega), h, HandshakeCfg.count, hk, Nat.sub_zero]

/-- The two directions, once both peers started from zero. -/
theorem dist_of_zero {m m' : ByteMem} (hw : m.writeIdx c.off = c.count)
    (hr : m'.readIdx c.off = 0) :
    Cyclic.dist (c.numBufs.toNat + 1) (m.writeIdx c.off) (m'.readIdx c.off) = c.count := by
  have hle := c.count_le
  rw [hw, hr, Cyclic.dist, Nat.sub_zero, Nat.add_mod_right, Nat.mod_eq_of_lt (by omega)]

/-- **The handshake.** From cleared rings, at every moment when a peer
completes its initialization with success while the other ring is marked
`DONE`, both directions hold the same number of elements: none for a channel
queue, all `num_bufs` for a pool queue. -/
theorem handshake_agrees {σ₀ : HandshakeSys} (h₀ : σ₀.Cleared c)
    (hr : Steps.Reach (HandshakeSys.step c) σ₀ σ) {i : ℕ}
    (hs : σ.step c (.step s i) = some σ') (hready : (σ'.phase s).isReady = true)
    (hdone : (σ'.shm s.other).sentinel c.off = ipcQueueInitDone) (d : Side) :
    c.InRange (σ'.shm d) ∧
      Cyclic.dist (c.numBufs.toNat + 1) ((σ'.shm d).writeIdx c.off)
        ((σ'.shm d.other).readIdx c.off) = c.count := by
  obtain ⟨f, hf, hj⟩ := hr.invariant (I := HandshakeSys.Inv c) h₀.inv
    (fun _ _ _ hI h => hI.step h)
  obtain ⟨p, hm, hf'⟩ := step_cases hf (hj.locals s).phaseOk hs
  have hj' := hj.move hm
  refine ⟨hj'.range d, ?_⟩
  rw [hf' s, Function.update_self] at hready
  obtain rfl := HandshakeCfg.eq_ready hready
  have hother := hm.other
  rw [hother] at hdone
  obtain ⟨⟨a, hfin⟩, hw, hrd⟩ := hm.ready (hj.locals s) (hj.range s)
  obtain ⟨htrue, hfalse⟩ := hj.pairs s _ _ hfin
  have hl := hj.locals s
  rw [hfin] at hl
  have hboth : Cyclic.dist (c.numBufs.toNat + 1) ((σ'.shm s).writeIdx c.off)
        ((σ'.shm s.other).readIdx c.off) = c.count ∧
      Cyclic.dist (c.numBufs.toNat + 1) ((σ'.shm s.other).writeIdx c.off)
        ((σ'.shm s).readIdx c.off) = c.count := by
    rw [hw, hrd, hother]
    cases a with
    | true => exact dist_of_adopted (hj.range s.other) ((htrue rfl).2 hdone)
    | false =>
      obtain ⟨hw', hr'⟩ := hfalse rfl trivial hdone
      exact ⟨dist_of_zero (hl.2 rfl).1 hr', dist_of_zero hw' (hl.2 rfl).2⟩
  rcases Side.eq_or_eq_other s d with rfl | rfl
  · exact hboth.1
  · rw [Side.other_other]
    exact hboth.2

/-- A queue for the one buffer of a pool. -/
def onePool : HandshakeCfg where
  μ := twoWindows
  off := 8
  kind := .poolQueue
  numBufs := 1
  os := fun s => (twoWindows s).os
  shmSize := fun _ => 0x1000
  poolId := 0
  bufSize := 16
  numBufs_pos := by decide
  numBufs_le := by decide
  pool_le := fun _ => by decide
  fits := fun s => by cases s <;> decide

/-- Cleared rings. -/
def clearedStart : HandshakeSys := { shm := fun _ _ => 0, phase := fun _ => .idle {} }

theorem clearedStart_cleared : clearedStart.Cleared onePool where
  clear := fun t => by cases t <;> exact ⟨by decide, by decide, by decide⟩
  idle := fun t => ⟨_, rfl⟩

/-- Both peers pass their first check and mark their rings, so both start from
zero; then each populates its ring. The last step of the run is left out. -/
def bothFromZero : List HandshakeAct :=
  [.startInit .a, .startInit .b, .step .a 0, .step .b 0, .step .b 0, .step .a 0, .step .a 0,
      .step .b 0]
    ++ [0, 0, 0, 0, 0, 0, 1, 2, 3, 4, 5, 6, 7, 0, 0, 0].map (.step .a)
    ++ [0, 0, 0, 0, 0, 0, 1, 2, 3, 4, 5, 6, 7, 0, 0].map (.step .b)

/-- The run ends with one free buffer in each direction. -/
theorem handshake_agrees_bothFromZero : ∃ σ σ',
    Steps.Reach (HandshakeSys.step onePool) clearedStart σ ∧
      σ.step onePool (.step .b 0) = some σ' ∧
      ∀ d, onePool.InRange (σ'.shm d) ∧ Cyclic.dist 2 ((σ'.shm d).writeIdx 8)
        ((σ'.shm d.other).readIdx 8) = 1 := by
  have hrun : ((Steps.runActs (HandshakeSys.step onePool) bothFromZero clearedStart).bind
      (fun σ => σ.step onePool (.step .b 0))).map (fun σ' =>
        ((σ'.phase .b).isReady, decide ((σ'.shm .a).sentinel 8 = ipcQueueInitDone)))
      = some (true, true) := by
    decide +kernel
  obtain ⟨σ', hσ', hpair⟩ := Option.map_eq_some_iff.mp hrun
  obtain ⟨σ, hσ, hs⟩ := Option.bind_eq_some_iff.mp hσ'
  obtain ⟨hready, hdone⟩ := Prod.mk.inj hpair
  have hreach := Steps.reach_of_runActs hσ
  exact ⟨σ, σ', hreach, hs, handshake_agrees clearedStart_cleared hreach hs hready
    (of_decide_eq_true hdone)⟩

end HandshakeSys
