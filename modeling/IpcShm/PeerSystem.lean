import IpcShm.PeerCalls

/-!
# Two applications on two peers

The whole system: two windows, two drivers, and two applications that call
the drivers in any order. A call runs to its end before the next one starts,
with one exception. `ipc_shm_rx` calls back into the application, and what the
application does there – and the other peer meanwhile – comes before the rest
of `ipc_shm_rx`. So a receive call is cut at its callbacks: it advances to the
next one, the message counts as delivered, and the rest of the call is kept
until the application returns from the callback.

The applications are not programs here, but what they could know: the buffers
they were given and have not passed on yet, and the history of their calls.
What they may do with it is left to the guard of a run.

For the rest of a receive call one rule is enough (`ipcShmRx_resumable`). It is
proved for an arbitrary invariant of the system that survives the delivery of
a message, so the invariants that are proved later do not have to look into
the receive loop. What the system as a whole is in the middle of may have
changed when a callback returns – the other peer may be gone – and so the rule
is for a family of invariants, of which one holds at a time.
-/

/-! ## The state -/

/-- **What an application holds and has done**, by channel. -/
structure App where
  /-- Buffers it acquired and did not transmit. -/
  acquired : ℕ → List ℕ := fun _ => []
  /-- Buffers delivered to it that it did not release. -/
  delivered : ℕ → List ℕ := fun _ => []
  /-- All buffers it acquired, in order. -/
  acqs : ℕ → List ℕ := fun _ => []
  /-- All buffers it released, in order. -/
  rels : ℕ → List ℕ := fun _ => []
  /-- All successful transmissions, in order: address and size. -/
  sent : ℕ → List (ℕ × ℕ) := fun _ => []
  /-- All calls of the receive callback, in order: address and size. -/
  received : ℕ → List (ℕ × ℕ) := fun _ => []

namespace App

/-- A buffer was acquired. -/
def acquire (a : App) (c buf : ℕ) : App :=
  { a with
    acquired := Function.update a.acquired c (buf :: a.acquired c)
    acqs := Function.update a.acqs c (a.acqs c ++ [buf]) }

/-- A buffer was transmitted. -/
def transmit (a : App) (c buf size : ℕ) : App :=
  { a with
    acquired := Function.update a.acquired c ((a.acquired c).erase buf)
    sent := Function.update a.sent c (a.sent c ++ [(buf, size)]) }

/-- The receive callback was called. -/
def receive (a : App) (c buf size : ℕ) : App :=
  { a with
    delivered := Function.update a.delivered c (buf :: a.delivered c)
    received := Function.update a.received c (a.received c ++ [(buf, size)]) }

/-- A buffer was released. -/
def release (a : App) (c buf : ℕ) : App :=
  { a with
    delivered := Function.update a.delivered c ((a.delivered c).erase buf)
    rels := Function.update a.rels c (a.rels c ++ [buf]) }

/-- The application is lost; what it acquired was acquired all the same. -/
def lose (a : App) : App := { acqs := a.acqs }

end App

/-- Shared memory and the applications. -/
structure World where
  shm : Shm
  app : Side → App := fun _ => {}

/-- The world after something happened to one application. -/
def World.setApp (w : World) (s : Side) (a : App) : World :=
  { w with app := Function.update w.app s a }

/-- An application is told of a callback. -/
def World.deliver (s : Side) : Op → World → World
  | .rxCb _ _ _ chanId buf size, w => w.setApp s ((w.app s).receive chanId buf size)
  | _, w => w

/-- **The system.** Next to the world, the private data of the drivers and
what is left to do of the receive calls that are in a callback. -/
structure PeerSys where
  world : World
  drv : Side → Driver
  rx : Side → Option (Drv ℕ) := fun _ => none

/-- The requests at which control goes to the application. -/
def isCallback : Op → Bool
  | .rxCb _ _ _ _ _ _ => true
  | .rxCbUnmanaged _ _ _ _ _ => true
  | _ => false

/-- What is left to do when the application returns. -/
def afterCallback : Drv ℕ → Option (Drv ℕ)
  | .op (.rxCb _ _ _ _ _ _) k => some (k ())
  | .op (.rxCbUnmanaged _ _ _ _ _) k => some (k ())
  | _ => none

/-- There are budgets of messages. -/
instance neZero_budget : NeZero (2 ^ 31) := ⟨by decide⟩

/-- **What the applications and the system can do.** -/
inductive PeerAct where
  | acquire (s : Side) (chanId memSize : ℕ)
  | tx (s : Side) (chanId : ℤ) (buf : ℕ) (size : UInt32)
  | release (s : Side) (chanId buf : ℕ)
  | unmanagedTx (s : Side) (chanId : ℕ)
  /-- `ipc_shm_rx` is called, with a budget that is a number of messages. -/
  | rx (s : Side) (budget : Fin (2 ^ 31))
  /-- The application returns from the callback. -/
  | rxReturn (s : Side)
  /-- `ipc_shm_free_instance`. -/
  | free (s : Side)
  /-- The private data of a peer are lost, and its application. -/
  | crash (s : Side)
  /-- `ipc_shm_init_instance` is called again, and succeeds. -/
  | init (s : Side)

namespace Peers

variable (P : Peers)

/-- Shared memory answers for a peer. -/
def handle (s : Side) (o : Op) (w : World) : Option (o.Ret × World) :=
  (memHandle (P.μ s) s o w.shm).map (fun r => (r.1, { w with shm := r.2 }))

/-- A receive call goes on to its next callback or to its end. -/
def proceed (s : Side) (σ : PeerSys) (p : Drv ℕ) : Option PeerSys :=
  (p.advance (P.handle s) isCallback σ.world).map (fun r =>
    match r.1 with
    | .pure _ => { σ with world := r.2, rx := Function.update σ.rx s none }
    | .op o k =>
      { σ with
        world := r.2.deliver s o
        rx := Function.update σ.rx s (afterCallback (.op o k)) })

/-- **One action.** -/
def step (σ : PeerSys) : PeerAct → Option PeerSys
  | .acquire s chanId memSize =>
    ((ipcShmAcquireBuf (σ.drv s) (P.inst s) chanId memSize).run (memHandle (P.μ s) s)
        σ.world.shm).map (fun r =>
      let w := { σ.world with shm := r.2 }
      { σ with world := if r.1 = 0 then w else w.setApp s ((w.app s).acquire chanId r.1) })
  | .tx s chanId buf size =>
    ((ipcShmTx (σ.drv s) (P.inst s) chanId buf size.toNat).run (memHandle (P.μ s) s)
        σ.world.shm).map (fun r =>
      let w := { σ.world with shm := r.2 }
      { σ with
        world := if (r.1 : ℤ) ≠ 0 then w
          else w.setApp s ((w.app s).transmit (chanId % 2 ^ 8).toNat buf size.toNat) })
  | .release s chanId buf =>
    ((ipcShmReleaseBuf (σ.drv s) (P.inst s) chanId buf).run (memHandle (P.μ s) s)
        σ.world.shm).map (fun r =>
      let w := { σ.world with shm := r.2 }
      { σ with world := if (r.1 : ℤ) ≠ 0 then w else w.setApp s ((w.app s).release chanId buf) })
  | .unmanagedTx s chanId =>
    ((ipcShmUnmanagedTx (σ.drv s) (P.inst s) chanId).run (memHandle (P.μ s) s)
        σ.world.shm).map (fun r => { σ with world := { σ.world with shm := r.2 } })
  | .rx s budget =>
    if (σ.rx s).isSome then none
    else P.proceed s σ (ipcShmRx (σ.drv s) (P.inst s) budget)
  | .rxReturn s => (σ.rx s).bind (P.proceed s σ)
  | .free s =>
    if (σ.rx s).isSome then none
    else
      ((ipcShmFreeInstance (σ.drv s) (P.inst s)).run (memHandle (P.μ s) s) σ.world.shm).map
        (fun r =>
          { σ with
            world := { shm := r.2, app := Function.update σ.world.app s (σ.world.app s).lose }
            drv := Function.update σ.drv s r.1 })
  | .crash s =>
    some
      { world := { σ.world with app := Function.update σ.world.app s (σ.world.app s).lose }
        drv := Function.update σ.drv s {}
        rx := Function.update σ.rx s none }
  | .init s =>
    ((ipcShmInitInstance (σ.drv s) (P.inst s) (some (P.cfg s))).run (memHandle (P.μ s) s)
        σ.world.shm).bind (fun r =>
      if r.1.1 ≠ 0 then none
      else some
        { σ with
          world :=
            { shm := r.2
              -- both applications start a new history
              app := fun t =>
                { acquired := (σ.world.app t).acquired, delivered := (σ.world.app t).delivered } }
          drv := Function.update σ.drv s r.1.2 })

/-- **The peers start**, one after the other. -/
def boot (first : Side) (shm : Shm) : Option PeerSys :=
  ((ipcShmInitInstance {} (P.inst first) (some (P.cfg first))).run
      (memHandle (P.μ first) first) shm).bind (fun r₁ =>
    ((ipcShmInitInstance {} (P.inst first.other) (some (P.cfg first.other))).run
        (memHandle (P.μ first.other) first.other) r₁.2).bind (fun r₂ =>
      if r₁.1.1 ≠ 0 ∨ r₂.1.1 ≠ 0 then none
      else some
        { world := { shm := r₂.2 }
          drv := fun s => if s = first then r₁.1.2 else r₂.1.2 }))

/-- **The initial states**: both initializations succeeded. The queues of the
peer that starts second were cleared, or left initialized by an earlier run. -/
def Started (σ : PeerSys) : Prop :=
  ∃ first shm, (∀ id, P.Has id → Adoptable (P.off id) (P.cap id) (shm first.other)) ∧
    P.boot first shm = some σ

end Peers

/-! ## The receive loop -/

namespace Peers

variable {P : Peers} {s : Side} {d : Driver} {w : World} {c : ℕ} {α T : Type}

/-- **The reading of a receive call.** Memory answers; at a callback the
invariant of the moment has to hold, and when it returns any one does. -/
abbrev rxReading (P : Peers) (s : Side) (J : T → World → Prop) :
    (o : Op) → (o.Ret → World × T → Prop) → World × T → Prop :=
  Program.yielding (Program.beside (P.handle s)) isCallback
    (fun o x => (World.deliver s o x.1, x.2)) (fun x => J x.2 x.1)

variable {J : T → World → Prop} {u : IpcShmUnmanagedCfg}

theorem monotone_rxReading : Program.MonotoneReading (P.rxReading s J) :=
  Program.monotone_yielding _ _ _

theorem run_handle {p : Drv α} {a : α} {shm' : Shm}
    (hrun : p.run (memHandle (P.μ s) s) w.shm = some (a, shm')) :
    p.run (P.handle s) w = some (a, { w with shm := shm' }) := by
  induction p generalizing w with
  | pure b =>
    obtain ⟨rfl, rfl⟩ := Prod.mk.inj (Option.some.inj hrun)
    rfl
  | op o k ih =>
    obtain ⟨⟨r, shm₁⟩, hr, hrun⟩ := Option.bind_eq_some_iff.mp hrun
    have hh : P.handle s o w = some (r, { w with shm := shm₁ }) := by
      rw [handle, hr]
      rfl
    rw [Program.run_op_of hh]
    exact ih r (w := { w with shm := shm₁ }) hrun

theorem env_of_handle (o : Op) (w : World) (r : o.Ret) (w' : World)
    (h : P.handle s o w = some (r, w')) : Env (P.μ s) o r := by
  obtain ⟨⟨r', shm'⟩, hr, he⟩ := Option.map_eq_some_iff.mp h
  obtain ⟨rfl, -⟩ := Prod.mk.inj he
  exact env_of_memHandle o w.shm r' shm' hr

theorem isCallback_of_quiet {X : ℕ → ℕ → Prop} (o : Op) (h : Quiet X o) : isCallback o = false := by
  cases o with
  | rxCb _ _ _ _ _ _ => exact False.elim h
  | rxCbUnmanaged _ _ _ _ _ => exact False.elim h
  | _ => rfl

/-- A program without callbacks runs to its end. -/
theorem wp_of_quiet {X : ℕ → ℕ → Prop} {Q₀ : α → Prop} {p : Drv α}
    (hp : p.Always (Env (P.μ s)) (Quiet X) Q₀) {a : α} {shm' : Shm}
    (hrun : p.run (memHandle (P.μ s) s) w.shm = some (a, shm')) {t : T} {Q : α → World × T → Prop}
    (hQ : Q a ({ w with shm := shm' }, t)) :
    p.wp (P.rxReading s J) Q (w, t) := by
  refine Program.wp_of_run (E := Env (P.μ s)) (fun o x r x' hr => ?_)
    (hp.mono isCallback_of_quiet (fun _ _ => trivial)) (Program.run_beside (run_handle hrun) t) hQ
  obtain ⟨⟨r', w'⟩, hr', he⟩ := Option.map_eq_some_iff.mp hr
  obtain ⟨rfl, -⟩ := Prod.mk.inj he
  exact env_of_handle o x.1 r' w' hr'

/-- **Nothing changed in the headers and the rings.** -/
structure SameRings (P : Peers) (shm shm' : Shm) : Prop where
  header : ∀ s, (shm' s).load 8 0 = (shm s).load 8 0
  ring : ∀ id, P.Has id → ∀ s, (shm s).SameOn (shm' s) (P.off id) (ringBytes (P.cap id))

theorem Rep.frame {shm shm' : Shm} {L : Lanes} (h : P.Rep shm L) (hs : P.SameRings shm shm') :
    P.Rep shm' L where
  ready := fun s => (hs.header s).trans (h.ready s)
  done := fun id hid s => ((hs.ring id hid s).sentinel).trans (h.done id hid s)
  holds := h.holds.frame hs.ring
  valid := h.valid

/-- The channels of the other peer are not initialized. -/
def Deaf (P : Peers) (s : Side) (shm : Shm) : Prop :=
  ∀ c, P.Has (.chan c) → (shm s.other).sentinel (P.off (.chan c)) ≠ ipcQueueInitDone

/-- The message on top of a channel is popped and given to the application. -/
def received (P : Peers) (s : Side) (c : ℕ) (msg : Message) (w : World) : World :=
  { w with shm := P.popped w.shm s (.chan c) }.setApp s
    ((w.app s).receive c (P.remoteBuf s c msg.buf) msg.size)

/-- **Invariants that survive the delivery of a message.** Either there are no
messages for the peer, or memory carries lanes and the next message of any
channel can be delivered. -/
structure Receptive (P : Peers) (s : Side) (J : World → Prop) : Prop where
  same : ∀ w shm', J w → P.SameRings w.shm shm' → J { w with shm := shm' }
  next : ∀ w, J w → P.Deaf s w.shm ∨ ∃ L, P.Rep w.shm L ∧ ∀ c msg rest, P.Has (.chan c) →
    (L s.other c).transit = msg :: rest → J (P.received s c msg w)

/-- **A message is never discarded**: the address it names passes the window
check. -/
theorem handleBd_eq (hup : P.Up s d) {msg : Message} (hmsg : P.HasBuf c msg.buf) :
    handleBd d (P.inst s) c
        { poolId := msg.buf.1, bufId := msg.buf.2, dataSize := msg.size }
      = .op (.rxCb ((d.priv (P.inst s)).channels c).mng.rxCb
          ((d.priv (P.inst s)).channels c).mng.cbArg (P.inst s) c
          (P.remoteBuf s c msg.buf) msg.size) .pure := by
  have hch : P.Has (.chan c) := hmsg.1.chan
  have hp : msg.buf.1 < ipcShmMaxPools := Nat.lt_of_lt_of_le hmsg.1.pool_lt (hup.numPools_le hch)
  obtain ⟨haddr, hend, hwin⟩ := bufAddr_eq hup hmsg true
  have hb : (((d.priv (P.inst s)).channels c).mng.pools msg.buf.1).bufSize
      = P.bufSize c msg.buf.1 := (hup.pool hmsg.1).bufSize_eq
  have hfit := buf_fits hmsg s
  have haddr : u64 ((((d.priv (P.inst s)).channels c).mng.pools msg.buf.1).remotePoolAddr
      + u32 (msg.buf.2 * (((d.priv (P.inst s)).channels c).mng.pools msg.buf.1).bufSize))
        = P.remoteBuf s c msg.buf := haddr
  have hend : u64 (P.remoteBuf s c msg.buf + P.bufSize c msg.buf.1)
    = P.remoteBuf s c msg.buf + P.bufSize c msg.buf.1 := hend
  have hwin : u64 ((P.μ s).remoteShm + (P.μ s).size) = (P.μ s).remoteShm + (P.μ s).size := hwin
  have hid : ((d.priv (P.inst s)).channels c).id = c :=
    hup.laid.id_eq c (hup.lt_of_shape hch.1)
  unfold handleBd
  dsimp only
  rw [IpcManagedChannel.poolAt_of_lt _ hp, Program.pure_bind, haddr, hup.os_eq, hup.shmSize_eq,
    hb, hend, show (P.μ s).os.remoteShm = (P.μ s).remoteShm from rfl, hwin, if_pos, hid]
  unfold remoteBuf
  omega

/-- A queue the other peer did not initialize fails the integrity check. -/
theorem ipcQueueCheckIntegrity_run_deaf {q : IpcQueue} {μ : ShmMap} {off : ℕ} {shm : Shm}
    (h : q.At μ off) (hd : (shm s.other).sentinel off ≠ ipcQueueInitDone) :
    (ipcQueueCheckIntegrity q).run (memHandle μ s) shm = some (-EINVAL, shm) := by
  rw [ipcQueueCheckIntegrity, load64_bind, Program.run_op_of h.load_popSentinel,
    if_neg (Ne.symm hd)]
  rfl

theorem ipcQueuePop_run_deaf {q : IpcQueue} {μ : ShmMap} {off : ℕ} {shm : Shm} (h : q.At μ off)
    (hd : (shm s.other).sentinel off ≠ ipcQueueInitDone) :
    (ipcQueuePop q).run (memHandle μ s) shm = some ((-EINVAL, []), shm) := by
  have hint := ipcQueueCheckIntegrity_run_deaf h hd
  rw [ipcQueuePop, if_neg h.not_null, load32_bind, Program.run_op_of h.load_popWrite, load32_bind,
    Program.run_op_of h.load_pushRead, Program.run_bind_of hint,
    if_pos (Or.inl (show -EINVAL ≠ 0 by decide))]
  rfl

/-- **One message.** It is popped and delivered, or there is none. -/
theorem receiveOne_wp (hup : P.Up s d) (hid : P.Has (.chan c)) (hJ : ∀ t, P.Receptive s (J t))
    {t : T} (hw : J t w) :
    (popBd ((d.priv (P.inst s)).channels c).mng.bdQueue).wp (P.rxReading s J) (fun msg x =>
        (msg = none → J x.2 x.1) ∧ ∀ bd, msg = some bd → (handleBd d (P.inst s) c bd).wp
          (P.rxReading s J) (fun _ x' => J x'.2 x'.1) x)
      (w, t) := by
  have hat := hup.queue_at hid
  have halw : (ipcQueuePop ((d.priv (P.inst s)).queue (.chan c))).Always (Env (P.μ s))
      (Quiet (fun _ _ => True)) (fun _ => True) :=
    (ipcQueuePop_always (Or.inr (hup.queue_eq hid)) (fun _ _ _ => trivial)).mono
      (fun _ h => h) (fun _ _ => trivial)
  rw [popBd, Program.wp_bind]
  rcases (hJ t).next w hw with hdeaf | ⟨L, hrep, hnext⟩
  · exact wp_of_quiet halw (ipcQueuePop_run_deaf hat (hdeaf c hid))
      ⟨fun _ => hw, fun _ h => absurd h (Option.some_ne_none _).symm⟩
  have hring := hrep.holds _ hid s.other
  rw [Lanes.queues, Side.other_other] at hring
  cases ht : (L s.other c).transit with
  | nil =>
    rw [ht, List.map_nil] at hring
    exact wp_of_quiet halw (ipcQueuePop_run_empty hat (hup.elemNum_eq hid) (hrep.done _ hid)
      (by rw [hup.elemSize_eq hid]; exact hring))
      ⟨fun _ => hw, fun _ h => absurd h (Option.some_ne_none _).symm⟩
  | cons msg rest =>
    rw [ht, List.map_cons] at hring
    have hpop := ipcQueuePop_run hat (hup.elemNum_eq hid) (hrep.done _ hid)
      (by rw [hup.elemSize_eq hid]; exact hring)
    rw [hup.elemNum_eq hid] at hpop
    obtain ⟨hbuf, hsize⟩ := (hrep.valid s.other c hid).transit msg
      (by rw [ht]; exact List.mem_cons_self)
    refine wp_of_quiet halw hpop ⟨fun h => absurd h (Option.some_ne_none _), fun bd hbd => ?_⟩
    obtain rfl : IpcShmBd.decode (bdBytes msg.buf msg.size) = bd := Option.some.inj hbd
    rw [decode_bdBytes hup hbuf hsize, handleBd_eq hup hbuf]
    -- the callback is told of the message, and may leave any state of any `J`
    exact ⟨hnext c msg rest hid ht, fun _ _ h => h⟩

/-- The private data of an unmanaged channel. -/
theorem Up.unmanaged (hup : P.Up s d) (hc : c < P.numChannels) (hn : ¬P.Has (.chan c)) :
    ((d.priv (P.inst s)).channels c).type = .unmanaged ∧
      ((d.priv (P.inst s)).channels c).localMem = (P.μ s).localShm + P.shape.chanOff c ∧
      ((d.priv (P.inst s)).channels c).remoteMem = (P.μ s).remoteShm + P.shape.chanOff c ∧
      ∃ u, P.shape.chan c = .unmanaged u := by
  have hlt := hup.lt_of_shape hc
  have hl := hup.laid.chan c hlt
  have hsym := P.symmetric_shape s
  have hshape := hsym.chan c hlt
  cases hch : (P.cfg s).chan c with
  | managed m =>
    have hid : (P.cfg s).HasQueue (.chan c) := ⟨hlt, m, hch⟩
    exact absurd (hsym.hasQueue hid) hn
  | invalid =>
    rw [hch] at hl
    exact False.elim hl
  | unmanaged u =>
    rw [hch] at hl hshape
    rw [← hsym.chanOff_eq (Nat.le_of_lt hlt)]
    refine ⟨hl.1, hl.2.localMem_eq, hl.2.remoteMem_eq, ?_⟩
    generalize P.shape.chan c = cc at hshape
    cases hshape with
    | unmanaged => exact ⟨_, rfl⟩

/-- The header of an unmanaged channel is part of the layout. -/
theorem header_mem_layout (hu : P.shape.chan c = .unmanaged u) :
    { addr := P.shape.chanOff c, size := sizeofIpcChannelUmem : Region }
      ∈ (P.shape.chan c).layout (P.shape.chanOff c) := by
  rw [hu]
  exact List.mem_cons_self

/-- The header of an unmanaged channel, in its window. -/
theorem header_bounds (hc : c < P.numChannels) (hu : P.shape.chan c = .unmanaged u) (s : Side) :
    8 ≤ P.shape.chanOff c ∧ P.shape.chanOff c + 16 ≤ (P.μ s).size := by
  obtain ⟨-, -, hlow, hhigh⟩ := P.shape.layout_bounds hc (header_mem_layout hu)
  exact ⟨hlow, hhigh.trans (P.fits_window s)⟩

/-- The header of an unmanaged channel and a ring lie apart. -/
theorem header_apart (hc : c < P.numChannels) (hu : P.shape.chan c = .unmanaged u) {id : QueueId}
    (hid : P.Has id) :
    P.shape.chanOff c + 16 ≤ P.off id ∨ P.off id + ringBytes (P.cap id) ≤ P.shape.chanOff c := by
  have hne : id.chanId ≠ c := by
    rintro rfl
    obtain ⟨-, m, hm⟩ := hid.chan
    rw [hu] at hm
    exact nomatch hm
  exact P.shape.layout_apart hc hid.chan.1 hne (header_mem_layout hu)
    (IpcShmCfg.queueRegion_mem_layout P.poolsGiven hid)

/-- **A store into the header of an unmanaged channel** changes no ring. -/
theorem sameRings_header (hc : c < P.numChannels) (hu : P.shape.chan c = .unmanaged u) {i v : ℕ}
    (hi : i ≤ 12) (shm : Shm) :
    P.SameRings shm (shm.set s ((shm s).store 4 (P.shape.chanOff c + i) v)) := by
  have hlow := (header_bounds hc hu s).1
  refine ⟨fun t => ?_, fun id hid t => ?_⟩
  · rcases Side.eq_or_eq_other s t with rfl | rfl
    · rw [Shm.set_self]
      exact ByteMem.load_store_of_disjoint _ (by omega)
    · rw [Shm.set_other]
  · rcases Side.eq_or_eq_other s t with rfl | rfl
    · have hap := header_apart hc hu hid
      intro a ha ha'
      rw [Shm.set_self]
      exact ByteMem.store_of_not_mem _ (by omega)
    · rw [Shm.set_other]
      exact ByteMem.SameOn.refl _ _ _

/-- **The integrity check of an unmanaged channel** compares the sentinels of its
two headers. -/
theorem ipcCheckUchanIntegrity_run {chan : IpcShmChannel} {μ : ShmMap} {off : ℕ}
    (hl : chan.localMem = μ.localShm + off) (hr : chan.remoteMem = μ.remoteShm + off)
    (hfit : off + 16 ≤ μ.size) (shm : Shm) :
    ∃ err, (ipcCheckUchanIntegrity chan).run (memHandle μ s) shm = some (err, shm) ∧
      (err = 0 ↔ (shm s).load 4 off = ipcUchanInitDone ∧
        (shm s.other).load 4 off = ipcUchanInitDone) := by
  rw [ipcCheckUchanIntegrity, hl, hr, load32_bind,
    Program.run_op_of (memHandle_load_local (by omega))]
  have hinval : -EINVAL ≠ 0 := by decide
  split
  · rename_i hlocal
    rw [load32_bind, Program.run_op_of (memHandle_load_remote (by omega) (by decide))]
    split
    · rename_i hremote
      exact ⟨_, rfl, fun _ => ⟨hlocal, hremote⟩, fun _ => rfl⟩
    · rename_i hremote
      exact ⟨_, rfl, fun h => absurd h hinval, fun h => absurd h.2 hremote⟩
  · rename_i hlocal
    exact ⟨_, rfl, fun h => absurd h hinval, fun h => absurd h.1 hlocal⟩

theorem handle_of_memHandle {o : Op} {r : o.Ret} {shm' : Shm}
    (h : memHandle (P.μ s) s o w.shm = some (r, shm')) :
    P.handle s o w = some (r, { w with shm := shm' }) := by
  rw [handle, h]
  rfl

/-- **`ipc_channel_rx`** delivers messages, one after the other. -/
theorem ipcChannelRx_wp (hup : P.Up s d) (hJ : ∀ t, P.Receptive s (J t)) :
    KeepsRx (P.rxReading s J) (fun x => J x.2 x.1) (ipcChannelRx d (P.inst s)) P.numChannels := by
  rintro c hc budget ⟨w, t⟩ hw
  by_cases hid : P.Has (.chan c)
  · have ht := (hup.managed hid).1
    unfold ipcChannelRx
    dsimp only
    rw [ht, if_neg (by decide)]
    refine Program.wp_mono monotone_rxReading _ ?_
      (drainChannel_wp (I := fun x : World × T => J x.2 x.1) monotone_rxReading
        (fun _ hw => receiveOne_wp hup hid hJ hw) budget 0 hw)
    exact fun a w' h => ⟨by have := h.2.1; omega, h.2.2⟩
  · obtain ⟨ht, hl, hr, u, hu⟩ := hup.unmanaged hc hid
    have hfit := (header_bounds hc hu s).2
    obtain ⟨err, hrun, -⟩ := ipcCheckUchanIntegrity_run (s := s) hl hr hfit w.shm
    unfold ipcChannelRx
    dsimp only
    rw [ht, if_pos rfl, Program.wp_bind]
    refine wp_of_quiet (X := fun _ _ => True) (ipcCheckUchanIntegrity_always _) hrun ?_
    split
    · rw [hl, hr, Nat.add_assoc, Nat.add_assoc, load32_bind]
      refine Program.wp_op_of rfl (Program.beside_of
        (handle_of_memHandle (memHandle_load_remote (by omega) (by decide))) t) ?_
      rw [load32_bind]
      refine Program.wp_op_of rfl (Program.beside_of
        (handle_of_memHandle (memHandle_load_local (by omega))) t) ?_
      split
      · rw [store32_bind]
        refine Program.wp_op_of rfl (Program.beside_of
          (handle_of_memHandle (memHandle_store_local (by omega))) t)
          ⟨?_, fun _ x hx => ⟨Nat.le_refl _, hx⟩⟩
        exact (hJ t).same w _ hw (sameRings_header hc hu (by omega) w.shm)
      · exact ⟨Nat.zero_le _, hw⟩
    · exact ⟨Nat.zero_le _, hw⟩

/-- **`ipc_shm_rx`** keeps every invariant that survives a delivery, and goes
on from any other when a callback returns. -/
theorem ipcShmRx_resumable (hup : P.Up s d) (hJ : ∀ t, P.Receptive s (J t)) {budget : ℕ}
    (hbudget : budget < 2 ^ 31) (hpos : 0 < P.numChannels) {t : T} (hw : J t w) :
    (ipcShmRx d (P.inst s) budget).wp (P.rxReading s J) (fun _ x => J x.2 x.1) (w, t) := by
  obtain ⟨st, hst⟩ : ∃ st, (ipcInstanceIsFree d (P.inst s)).run (memHandle (P.μ s) s) w.shm
      = some (st, w.shm) := ⟨_, ipcInstanceIsFree_run hup.laid hup.inst_lt (P.header_le s)⟩
  have hnum : P.numChannels < 2 ^ 8 := P.shape.numChannels.toNat_lt
  rw [ipcShmRx, Program.wp_bind]
  refine wp_of_quiet (X := fun _ _ => True) (ipcInstanceIsFree_always (fun _ h => h) d _) hst ?_
  split
  · exact hw
  · rw [hup.numChannels_eq]
    exact rxRounds_wp (I := fun x : World × T => J x.2 x.1) monotone_rxReading
      (ipcChannelRx_wp hup hJ) hpos _ (by omega) hw

/-- The same for one invariant. -/
theorem ipcShmRx_wp (hup : P.Up s d) {J : World → Prop} (hJ : P.Receptive s J) {budget : ℕ}
    (hbudget : budget < 2 ^ 31) (hpos : 0 < P.numChannels) (hw : J w) :
    (ipcShmRx d (P.inst s) budget).wp
      (Program.yielding (P.handle s) isCallback (World.deliver s) J) (fun _ => J) w :=
  Program.wp_of_beside (ipcShmRx_resumable (J := fun _ : Unit => J) hup (fun _ => hJ) hbudget hpos
    hw)

end Peers
