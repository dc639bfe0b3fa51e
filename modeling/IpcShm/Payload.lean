import IpcShm.Ownership
import IpcShm.Delivery
import IpcShm.Interference

/-!
# What arrives is what was sent

The driver moves descriptors and never looks at the data. The bytes of a
message stay where the sender wrote them until the receiver reads them, in
memory that both can write. So that the receiver finds the bytes the sender
left is a property of the whole system: of the driver, which stores in no
buffer; of the rings, by which a buffer has one owner; and of the
applications, which write only in buffers they hold.

The system of two peers is extended by these writes, which may come between
any two calls and from inside a callback, and by a record of the bytes: those
of a message when it was sent, and those in the buffer when the receive
callback was called for it. The invariant says where the bytes of a message
that was sent are, as long as it was not received: in memory, at the place
the message names (`Peers.Intact.posted_eq`).
-/

namespace Peers

variable {P : Peers} {s : Side} {d : Driver} {shm shm' : Shm} {c : ℕ}

/-! ## The driver stores in no buffer -/

/-- **The buffers are as they were**, in both windows. -/
def SamePayload (P : Peers) (shm shm' : Shm) : Prop :=
  ∀ s c x, P.HasBuf c x → (shm s).SameOn (shm' s) (P.shape.bufOff c x) (P.bufSize c x.1)

theorem SamePayload.refl (P : Peers) (shm : Shm) : P.SamePayload shm shm :=
  fun _ _ _ _ _ _ _ => rfl

theorem SamePayload.trans {shm'' : Shm} (h : P.SamePayload shm shm')
    (h' : P.SamePayload shm' shm'') : P.SamePayload shm shm'' :=
  fun s c x hx a ha ha' => (h' s c x hx a ha ha').trans (h s c x hx a ha ha')

/-- A store of a peer that is in its window and in no buffer. -/
structure SparesPayload (P : Peers) (s : Side) (a k : ℕ) : Prop where
  inLocal : Region.Contains { addr := (P.μ s).localShm, size := (P.μ s).size } a k
  apart : ∀ c x, P.HasBuf c x →
    Region.Apart { addr := P.localBuf s c x, size := P.bufSize c x.1 } a k

theorem cfg_fits (P : Peers) (s : Side) : (P.cfg s).footprint ≤ (P.μ s).size := by
  rw [P.size_eq s]
  exact P.fits s

/-- The stores of a channel are of this kind. -/
theorem sparesPayload_of_channelStore {a k : ℕ} (h : ChannelStore (P.μ s) (P.cfg s) c a k) :
    P.SparesPayload s a k := by
  refine ⟨h.inLocal, fun c' x hx => ?_⟩
  have hsym := P.shape_symmetric s
  have hid := hsym.hasQueue hx.1
  have hap := h.notPayload c' hid.chan.1 _
    (IpcShmCfg.bufs_mem_payload (P.symmetric s).poolsGiven hid)
  have hpool : P.shape.pool c' x.1 = (P.cfg s).pool c' x.1 :=
    hsym.pool_eq hx.1.chan.1 hx.1.pool_lt
  rw [← hsym.bufStart_eq hx.1, ← hpool] at hap
  have hap : a + k ≤ (P.μ s).localShm + P.shape.bufStart c' x.1 ∨
      (P.μ s).localShm + P.shape.bufStart c' x.1 + (P.shape.pool c' x.1).bufBytes ≤ a := hap
  have hend : P.shape.bufOff c' x + P.bufSize c' x.1
      ≤ P.shape.bufStart c' x.1 + (P.shape.pool c' x.1).bufBytes := IpcShmCfg.bufOff_add_le hx.2
  have hstart : P.shape.bufStart c' x.1 ≤ P.shape.bufOff c' x := Nat.le_add_right _ _
  show a + k ≤ (P.μ s).localShm + P.shape.bufOff c' x ∨
    (P.μ s).localShm + P.shape.bufOff c' x + P.bufSize c' x.1 ≤ a
  omega

/-- Bytes put into the window of a peer, in no buffer. -/
theorem samePayload_write {off : ℕ} {bs : List UInt8}
    (h : P.SparesPayload s ((P.μ s).localShm + off) bs.length) :
    P.SamePayload shm (shm.set s ((shm s).write off bs)) := by
  intro t c x hx a ha ha'
  rcases Side.eq_or_eq_other s t with rfl | rfl
  · have hap : (P.μ t).localShm + off + bs.length ≤ (P.μ t).localShm + P.shape.bufOff c x ∨
        (P.μ t).localShm + P.shape.bufOff c x + P.bufSize c x.1 ≤ (P.μ t).localShm + off :=
      h.apart c x hx
    rw [Shm.set_self]
    exact ByteMem.write_of_not_mem _ (by omega)
  · rw [Shm.set_other]

/-- **A request that stores in no buffer** leaves the buffers as they were. -/
theorem memHandle_samePayload {o : Op} {r : o.Ret} (ho : StoresIn (P.SparesPayload s) o)
    (hr : memHandle (P.μ s) s o shm = some (r, shm')) : P.SamePayload shm shm' := by
  cases o with
  | store n a v =>
    have hst : P.SparesPayload s a n := ho
    obtain ⟨off, rfl⟩ := Nat.exists_eq_add_of_le hst.inLocal.1
    have hfit : off + n ≤ (P.μ s).size := by
      have : (P.μ s).localShm + off + n ≤ (P.μ s).localShm + (P.μ s).size := hst.inLocal.2
      omega
    rw [memHandle_store_local hfit] at hr
    obtain ⟨-, rfl⟩ := Prod.mk.inj (Option.some.inj hr)
    exact samePayload_write (by rw [leBytes_length]; exact hst)
  | memcpyTo a bs =>
    have hst : P.SparesPayload s a bs.length := ho
    obtain ⟨off, rfl⟩ := Nat.exists_eq_add_of_le hst.inLocal.1
    have hfit : off + bs.length ≤ (P.μ s).size := by
      have : (P.μ s).localShm + off + bs.length ≤ (P.μ s).localShm + (P.μ s).size :=
        hst.inLocal.2
      omega
    rw [memHandle_memcpyTo_local hfit] at hr
    obtain ⟨-, rfl⟩ := Prod.mk.inj (Option.some.inj hr)
    exact samePayload_write hst
  | load n a =>
    obtain ⟨_, -, he⟩ := Option.map_eq_some_iff.mp hr
    obtain ⟨-, rfl⟩ := Prod.mk.inj he
    exact SamePayload.refl P shm
  | memcpyFrom a n =>
    obtain ⟨_, -, he⟩ := Option.map_eq_some_iff.mp hr
    obtain ⟨-, rfl⟩ := Prod.mk.inj he
    exact SamePayload.refl P shm
  | poolsOutOfBounds => exact absurd hr (Option.some_ne_none _).symm
  | undefinedBehaviour => exact False.elim ho
  | _ =>
    obtain ⟨-, rfl⟩ := Prod.mk.inj (Option.some.inj hr)
    exact SamePayload.refl P shm

/-- **A program that stores in no buffer.** -/
def Spares (P : Peers) (s : Side) {α : Type} (p : Drv α) : Prop :=
  p.Always (Env (P.μ s)) (StoresIn (P.SparesPayload s)) (fun _ => True)

section Programs

variable {α : Type} {p p' : Drv α} {w w' : World}

theorem Spares.advance (hp : P.Spares s p) {y : Op → Bool}
    (had : p.advance (P.handle s) y w = some (p', w')) :
    (P.SamePayload w.shm w'.shm ∧ w'.app = w.app) ∧ P.Spares s p' := by
  refine Program.Always.advance_related
    (T := fun w w' => P.SamePayload w.shm w'.shm ∧ w'.app = w.app) env_of_handle
    (fun w => ⟨SamePayload.refl P _, rfl⟩)
    (fun _ _ _ h h' => ⟨h.1.trans h'.1, h'.2.trans h.2⟩) (fun o w r w' ho hr => ?_) hp had
  obtain ⟨⟨r', shm'⟩, hmem, he⟩ := Option.map_eq_some_iff.mp hr
  obtain ⟨-, rfl⟩ := Prod.mk.inj he
  exact ⟨memHandle_samePayload ho hmem, rfl⟩

theorem Spares.run (hp : P.Spares s p) {a : α}
    (hrun : p.run (memHandle (P.μ s) s) shm = some (a, shm')) : P.SamePayload shm shm' :=
  (hp.advance (Program.advance_of_run (run_handle (w := { shm := shm }) hrun))).1.1

end Programs

theorem Up.mapped (hup : P.Up s d) : d.Mapped (P.μ s) (P.cfg s) (P.inst s) :=
  fun _ => ⟨hup.os_eq, hup.laid⟩

/-- A program that stores in a channel stores in no buffer. -/
theorem spares_of_quiet {α : Type} {p : Drv α} {Q : α → Prop}
    (hp : p.Always (Env (P.μ s)) (Quiet (ChannelStore (P.μ s) (P.cfg s) c)) Q) : P.Spares s p :=
  hp.mono (fun o ho => StoresIn.mono (fun _ _ h => sparesPayload_of_channelStore h) o
    (StoresIn.of_quiet o ho)) (fun _ _ => trivial)

theorem ipcShmRx_spares (hup : P.Up s d) (hpos : 0 < P.numChannels) {budget : ℕ}
    (hbudget : budget < 2 ^ 31) : P.Spares s (ipcShmRx d (P.inst s) budget) := by
  have hnum : 1 ≤ (P.cfg s).numChannels.toNat := by
    rw [← (P.shape_symmetric s).numChannels_eq]
    exact hpos
  refine ipcShmRx_always (P := fun _ _ => False)
    (fun o ho => StoresIn.mono (fun _ _ hf => False.elim hf) o (StoresIn.of_quiet o ho))
    hup.mapped (fun _ => hnum) hbudget (fun _ c hc b => ?_)
  exact (ipcChannelRx_storesIn hup.laid (P.cfg_fits s) hc b).mono
    (StoresIn.mono (fun _ _ h => sparesPayload_of_channelStore h)) (fun _ h => h)

/-! ## Buffers lie apart -/

/-- A ring is apart from every buffer. -/
theorem ring_apart_buf {id : QueueId} {x : BufId} (hid : P.Has id) (hx : P.HasBuf c x) :
    P.off id + ringBytes (P.cap id) ≤ P.shape.bufOff c x ∨
      P.shape.bufOff c x + P.bufSize c x.1 ≤ P.off id := by
  obtain ⟨hstart, hend⟩ := hx.in_pool
  have hap : P.off id + ringBytes (P.cap id) ≤ P.shape.bufStart c x.1 ∨
      P.shape.bufStart c x.1 + (P.shape.pool c x.1).bufBytes ≤ P.off id := by
    by_cases hc : c = id.chanId
    · have hmem := IpcShmCfg.bufs_mem_payload P.poolsGiven hx.1
      rw [hc] at hmem ⊢
      exact IpcShmChannelCfg.ctrl_apart_payload
        (IpcShmCfg.queueRegion_mem_ctrl P.poolsGiven hid) hmem
    · exact P.shape.layout_apart hid.chan.1 hx.1.chan.1 hc
        (IpcShmCfg.queueRegion_mem_layout P.poolsGiven hid)
        (IpcShmCfg.bufs_mem_layout P.poolsGiven hx.1)
  omega

/-- Bytes are written into a buffer of the window of `s`. -/
def filled (P : Peers) (s : Side) (c : ℕ) (x : BufId) (off : ℕ) (bs : List UInt8) (w : World) :
    World :=
  { w with shm := w.shm.set s ((w.shm s).write (P.shape.bufOff c x + off) bs) }

/-- **No ring is in a buffer.** -/
theorem sameRings_filled {x : BufId} {off : ℕ} {bs : List UInt8} (hx : P.HasBuf c x)
    (hfit : off + bs.length ≤ P.bufSize c x.1) (w : World) :
    P.SameRings w.shm (P.filled s c x off bs w).shm := by
  unfold filled
  have hlow : 8 ≤ P.shape.bufOff c x := by
    obtain ⟨-, -, hlow, -⟩ := P.shape.layout_bounds hx.1.chan.1
      (IpcShmCfg.bufs_mem_layout P.poolsGiven hx.1)
    exact Nat.le_trans hlow (Nat.le_add_right _ _)
  refine ⟨fun t => ?_, fun id hid t => ?_⟩
  · dsimp only
    rcases Side.eq_or_eq_other s t with rfl | rfl
    · rw [Shm.set_self]
      exact ByteMem.load_write_of_disjoint _ (by omega)
    · rw [Shm.set_other]
  · dsimp only
    rcases Side.eq_or_eq_other s t with rfl | rfl
    · intro a ha ha'
      have hap := ring_apart_buf hid hx
      rw [Shm.set_self]
      exact ByteMem.write_of_not_mem _ (by omega)
    · rw [Shm.set_other]
      exact ByteMem.SameOn.refl _ _ _

/-! ## Applications that write -/

/-- What was sent, by the offset of the buffer and the size. -/
def sentBlocks (P : Peers) (w : World) (s : Side) (c : ℕ) : List (ℕ × ℕ) :=
  offsets (P.μ s).localShm ((w.app s).sent c)

/-- What was received, by the offset of the buffer and the size. -/
def receivedBlocks (P : Peers) (w : World) (s : Side) (c : ℕ) : List (ℕ × ℕ) :=
  offsets (P.μ s).remoteShm ((w.app s).received c)

/-- One of the applications holds the buffer: the one that acquired it, or the
one it was delivered to. -/
def Held (P : Peers) (w : World) (s : Side) (c : ℕ) (x : BufId) : Prop :=
  P.localBuf s c x ∈ (w.app s).acquired c ∨ P.remoteBuf s.other c x ∈ (w.app s.other).delivered c

/-- A message is not longer than its buffer. -/
def Fits (P : Peers) : PeerAct → Prop
  | .tx s _ buf size => ∀ c x, P.HasBuf c x → buf = P.localBuf s c x →
    size.toNat ≤ P.bufSize c x.1
  | _ => True

end Peers

/-- The bytes of some blocks. -/
def ByteMem.blocks (m : ByteMem) (l : List (ℕ × ℕ)) : List (List UInt8) :=
  l.map (fun x => m.read x.1 x.2)

/-- **The system, with the bytes of the messages.** -/
structure PayloadSys where
  sys : PeerSys
  /-- The bytes of the messages of a peer, when they were sent. -/
  posted : Side → ℕ → List (List UInt8) := fun _ _ => []
  /-- The bytes in the buffers, when a peer was called back for them. -/
  seen : Side → ℕ → List (List UInt8) := fun _ _ => []

namespace Peers

variable {P : Peers} {s : Side} {d : Driver} {shm shm' : Shm} {c : ℕ}

/-- The bytes are recorded of what was sent and received since. -/
def record (P : Peers) (σ : PayloadSys) (sys : PeerSys) : PayloadSys where
  sys := sys
  posted := fun s c => σ.posted s c ++ (sys.world.shm s).blocks
    ((P.sentBlocks sys.world s c).drop (P.sentBlocks σ.sys.world s c).length)
  seen := fun s c => σ.seen s c ++ (sys.world.shm s.other).blocks
    ((P.receivedBlocks sys.world s c).drop (P.receivedBlocks σ.sys.world s c).length)

/-- **The applications call the driver, and write in buffers they hold.** -/
inductive PayloadStep (P : Peers) (σ : PayloadSys) : PayloadSys → Prop where
  | call {a : PeerAct} {sys : PeerSys} (hfits : P.Fits a)
      (hstep : P.ownerStep σ.sys a = some sys) : PayloadStep P σ (P.record σ sys)
  | write {s : Side} {c off : ℕ} {x : BufId} {bs : List UInt8} (hx : P.HasBuf c x)
      (hheld : P.Held σ.sys.world s c x) (hfit : off + bs.length ≤ P.bufSize c x.1) :
      PayloadStep P σ
        { σ with sys := { σ.sys with world := P.filled s c x off bs σ.sys.world } }

/-! ## What a call does to bytes and histories -/

/-- **What an action adds**: nothing to the buffers, and only to the end of the
histories. -/
structure Adds (P : Peers) (a : PeerAct) (σ σ' : PeerSys) : Prop where
  payload : P.SamePayload σ.world.shm σ'.world.shm
  rest : ∀ s q, σ'.rx s = some q → P.Spares s q
  received : ∀ s c, (σ.world.app s).received c <+: (σ'.world.app s).received c
  sent : ∀ s c, ∃ l, (σ'.world.app s).sent c = (σ.world.app s).sent c ++ l ∧
    ∀ m ∈ l, ∃ chanId size, a = .tx s chanId m.1 size ∧ m.2 = size.toNat

section Steps

variable {σ σ' : PeerSys} {a : PeerAct}

/-- A call that keeps the histories. -/
theorem Adds.of_world {app : Side → App} (hrest : ∀ s q, σ.rx s = some q → P.Spares s q)
    (hpay : P.SamePayload σ.world.shm shm')
    (hrec : ∀ s, (app s).received = (σ.world.app s).received)
    (hsent : ∀ s, (app s).sent = (σ.world.app s).sent) :
    P.Adds a σ { σ with world := { shm := shm', app := app } } where
  payload := hpay
  rest := hrest
  received := fun s c => by
    dsimp only
    rw [hrec s]
  sent := fun s c => ⟨[], by rw [hsent s, List.append_nil], fun _ h => absurd h List.not_mem_nil⟩

theorem Adds.proceed {q : Drv ℕ} (hrest : ∀ s q, σ.rx s = some q → P.Spares s q)
    (hq : P.Spares s q) (hstep : P.proceed s σ q = some σ') : P.Adds a σ σ' := by
  obtain ⟨⟨q', w'⟩, had, rfl⟩ := Option.map_eq_some_iff.mp hstep
  obtain ⟨⟨hpay, happ⟩, hq'⟩ := hq.advance had
  have hrest' : ∀ {r : Option (Drv ℕ)}, (∀ q, r = some q → P.Spares s q) →
      ∀ t q, Function.update σ.rx s r t = some q → P.Spares t q := by
    intro r hr t q ht
    by_cases hts : t = s
    · subst hts
      rw [Function.update_self] at ht
      exact hr q ht
    · rw [Function.update_of_ne hts] at ht
      exact hrest t q ht
  have hsame : ∀ t c, ∃ l, (w'.app t).sent c = (σ.world.app t).sent c ++ l ∧
      ∀ m ∈ l, ∃ chanId size, a = .tx t chanId m.1 size ∧ m.2 = size.toNat := fun t c =>
    ⟨[], by rw [happ, List.append_nil], fun _ h => absurd h List.not_mem_nil⟩
  cases q' with
  | pure n =>
    refine ⟨hpay, hrest' (fun _ h => absurd h (Option.some_ne_none _).symm), fun t c => ?_, hsame⟩
    dsimp only
    rw [happ]
  | op o k =>
    have hafter : ∀ q, afterCallback (.op o k) = some q → P.Spares s q := by
      intro q h
      cases o with
      | rxCb _ _ _ _ _ _ =>
        obtain rfl := Option.some.inj h
        exact hq'.2 () trivial
      | rxCbUnmanaged _ _ _ _ _ =>
        obtain rfl := Option.some.inj h
        exact hq'.2 () trivial
      | _ => exact absurd h (Option.some_ne_none _).symm
    cases o with
    | rxCb cb arg inst chanId buf size =>
      refine ⟨hpay, hrest' hafter, fun t c => ?_, fun t c => ?_⟩
      · show (σ.world.app t).received c <+: (Function.update w'.app s _ t).received c
        rw [happ]
        by_cases hts : t = s
        · subst hts
          rw [Function.update_self]
          by_cases hc : c = chanId
          · subst hc
            simp only [App.receive, Function.update_self]
            exact List.prefix_append _ _
          · simp only [App.receive, Function.update_of_ne hc]
            exact List.prefix_refl _
        · rw [Function.update_of_ne hts]
      · have hs : (Function.update w'.app s ((w'.app s).receive chanId buf size) t).sent c
            = (w'.app t).sent c :=
          congrFun (update_app (a := (w'.app s).receive chanId buf size) App.sent rfl t) c
        obtain ⟨l, hl⟩ := hsame t c
        exact ⟨l, hs.trans hl.1, hl.2⟩
    | _ =>
      refine ⟨hpay, hrest' hafter, fun t c => ?_, hsame⟩
      show (σ.world.app t).received c <+: (w'.app t).received c
      rw [happ]

/-- **A call stores in no buffer** and adds to the histories. -/
theorem adds_of_step (hpos : 0 < P.numChannels) (hup : ∀ s, P.Up s (σ.drv s))
    (hrest : ∀ s q, σ.rx s = some q → P.Spares s q) (ha : a.isCall = true)
    (hstep : P.step σ a = some σ') : P.Adds a σ σ' := by
  cases a with
  | acquire s c memSize =>
    obtain ⟨⟨r, shm'⟩, hrun, rfl⟩ := Option.map_eq_some_iff.mp hstep
    have hpay := (spares_of_quiet (ipcShmAcquireBuf_always (feeds_env _) (hup s).mapped
      (channelAllowed (P.cfg_fits s) c) memSize)).run hrun
    dsimp only
    split
    · exact .of_world hrest hpay (fun _ => rfl) (fun _ => rfl)
    · exact .of_world hrest hpay (update_app App.received rfl) (update_app App.sent rfl)
  | tx s chanId buf size =>
    obtain ⟨⟨r, shm'⟩, hrun, rfl⟩ := Option.map_eq_some_iff.mp hstep
    have hpay := (spares_of_quiet (ipcShmTx_always (hup s).mapped
      (channelAllowed (P.cfg_fits s) _) buf size.toNat)).run hrun
    dsimp only
    split
    · exact .of_world hrest hpay (fun _ => rfl) (fun _ => rfl)
    · refine ⟨hpay, hrest, fun t c => ?_, fun t c => ?_⟩
      · show (σ.world.app t).received c <+: (Function.update σ.world.app s _ t).received c
        rw [update_app App.received (by rfl) t]
      · show ∃ l, (Function.update σ.world.app s _ t).sent c = _ ∧ _
        by_cases hts : t = s
        · subst hts
          rw [Function.update_self]
          by_cases hc : c = (chanId % 2 ^ 8).toNat
          · subst hc
            refine ⟨[(buf, size.toNat)], Function.update_self .., fun m hm => ?_⟩
            obtain rfl := List.mem_singleton.mp hm
            exact ⟨chanId, size, rfl, rfl⟩
          · exact ⟨[], (Function.update_of_ne hc _ _).trans (List.append_nil _).symm,
              fun _ h => absurd h List.not_mem_nil⟩
        · rw [Function.update_of_ne hts]
          exact ⟨[], (List.append_nil _).symm, fun _ h => absurd h List.not_mem_nil⟩
  | release s c buf =>
    obtain ⟨⟨r, shm'⟩, hrun, rfl⟩ := Option.map_eq_some_iff.mp hstep
    have hpay := (spares_of_quiet (ipcShmReleaseBuf_always (hup s).mapped
      (channelAllowed (P.cfg_fits s) c) buf)).run hrun
    dsimp only
    split
    · exact .of_world hrest hpay (fun _ => rfl) (fun _ => rfl)
    · exact .of_world hrest hpay (update_app App.received rfl) (update_app App.sent rfl)
  | unmanagedTx s c =>
    obtain ⟨⟨r, shm'⟩, hrun, rfl⟩ := Option.map_eq_some_iff.mp hstep
    have hpay := (spares_of_quiet (ipcShmUnmanagedTx_always (hup s).mapped
      (channelAllowed (P.cfg_fits s) c))).run hrun
    exact .of_world hrest hpay (fun _ => rfl) (fun _ => rfl)
  | rx s budget =>
    rw [Peers.step] at hstep
    split at hstep
    · exact absurd hstep (Option.some_ne_none _).symm
    · exact .proceed hrest (ipcShmRx_spares (hup s) hpos budget.isLt) hstep
  | rxReturn s =>
    obtain ⟨q, hq, hstep⟩ := Option.bind_eq_some_iff.mp hstep
    exact .proceed hrest (hrest s q hq) hstep
  | free s => exact absurd ha Bool.false_ne_true
  | crash s => exact absurd ha Bool.false_ne_true
  | init s => exact absurd ha Bool.false_ne_true

end Steps

/-! ## Ownership and order -/

/-- A message by the offset of its buffer and the size. -/
def block (P : Peers) (c : ℕ) (msg : Message) : ℕ × ℕ := (P.shape.bufOff c msg.buf, msg.size)

/-- **Ownership and order together**: what was sent and not received is under
way, and the buffers of it are nowhere else. -/
structure Conducts (P : Peers) (w : World) (T : Traffics) : Prop where
  owns : P.Owns w T
  sent_eq : ∀ s c, P.Has (.chan c) →
    P.sentBlocks w s c = P.receivedBlocks w s.other c ++ (T s c).transit.map (P.block c)

section Together

variable {w : World} {T : Traffics} {σ σ' : PeerSys}

theorem AllOwned.conducts (h : P.AllOwned w) (hc : P.ConveysAll w) {drv : Side → Driver}
    (hup : ∀ s, P.Up s (drv s)) : ∃ T, P.Conducts w T := by
  obtain ⟨T, hown⟩ := h
  obtain ⟨-, L, hrep, hconv⟩ := hc
  refine ⟨T, hown, fun s c hid => ?_⟩
  obtain ⟨msgs, hsent, hrec⟩ := hconv s c hid
  rw [← hown.rep.transit_eq hrep (hup s) hid] at hsent
  unfold sentBlocks receivedBlocks offsets
  rw [hsent, hrec, List.map_map, List.map_map, List.map_append]
  congr 1
  · refine List.map_congr_left (fun m _ => ?_)
    simp only [Function.comp_apply, sentAs, receivedAs, localBuf, remoteBuf,
      Nat.add_sub_cancel_left]
  · refine List.map_congr_left (fun m _ => ?_)
    simp only [Function.comp_apply, sentAs, localBuf, Nat.add_sub_cancel_left, block]

theorem Conducts.arrived (h : P.Conducts w T) (hid : P.Has (.chan c)) :
    P.receivedBlocks w s.other c <+: P.sentBlocks w s c :=
  ⟨_, (h.sent_eq s c hid).symm⟩

theorem Conducts.waiting (h : P.Conducts w T) (hid : P.Has (.chan c)) :
    (P.sentBlocks w s c).drop (P.receivedBlocks w s.other c).length
      = (T s c).transit.map (P.block c) := by
  rw [h.sent_eq s c hid, List.drop_left]

/-- Who owns what it transmits has acquired it. -/
theorem AllOwned.acquirerStep (h : P.AllOwned σ.world) {a : PeerAct}
    (hstep : P.ownerStep σ a = some σ') : P.acquirerStep σ a = some σ' := by
  obtain ⟨T, hown⟩ := h
  unfold Peers.ownerStep at hstep
  split at hstep
  · rename_i hg
    unfold Peers.acquirerStep
    rw [if_pos]
    · exact hstep
    refine ⟨hg.1, ?_⟩
    cases a with
    | tx s chanId buf size =>
      obtain ⟨c, hc, hbuf⟩ := hg.2
      exact ⟨c, hc, hown.mem_acqs hbuf⟩
    | _ => trivial
  · exact absurd hstep (Option.some_ne_none _).symm

/-- **A buffer an application holds is not under way.** -/
theorem Owns.not_transit (h : P.Owns w T) {x : BufId} (hx : P.HasBuf c x)
    (hheld : P.Held w s c x) : x ∉ (T s c).transit.map Message.buf := by
  have hid : P.Has (.chan c) := hx.1.chan
  have htr := h.tracks s c hid
  have hnodup := htr.inv.nodup_busy
  rw [Traffic.busy, List.append_assoc] at hnodup
  rcases hheld with hmem | hmem
  · rw [htr.acquired] at hmem
    obtain ⟨y, hy, heq⟩ := List.mem_map.mp hmem
    obtain rfl := htr.unique hid hx (Traffic.mem_busy_of_held hy) heq
    exact fun ht => (List.nodup_append.mp hnodup).2.2 _ hy _ (List.mem_append_left _ ht) rfl
  · rw [htr.delivered] at hmem
    obtain ⟨y, hy, heq⟩ := List.mem_map.mp hmem
    obtain rfl := htr.unique hid hx (Traffic.mem_busy_of_out hy) heq
    have hrest := (List.nodup_append.mp hnodup).2.1
    exact fun ht => (List.nodup_append.mp hrest).2.2 _ ht _ hy rfl

end Together

/-! ## The invariant -/

/-- **The bytes of what was sent are recorded or in memory.** -/
structure Intact (P : Peers) (σ : PayloadSys) : Prop where
  owned : P.Kept P.AllOwned σ.sys
  conveyed : P.Kept P.ConveysAll σ.sys
  rest : ∀ s q, σ.sys.rx s = some q → P.Spares s q
  /-- A message under way is not longer than its buffer. -/
  sized : ∀ s c, P.Has (.chan c) →
    ∀ b ∈ (P.sentBlocks σ.sys.world s c).drop (P.receivedBlocks σ.sys.world s.other c).length,
      ∃ x, P.HasBuf c x ∧ b.1 = P.shape.bufOff c x ∧ b.2 ≤ P.bufSize c x.1
  posted_eq : ∀ s c, P.Has (.chan c) → σ.posted s c = σ.seen s.other c
    ++ (σ.sys.world.shm s).blocks ((P.sentBlocks σ.sys.world s c).drop
      (P.receivedBlocks σ.sys.world s.other c).length)
  posted_length : ∀ s c, (σ.posted s c).length = ((σ.sys.world.app s).sent c).length
  seen_length : ∀ s c, (σ.seen s c).length = ((σ.sys.world.app s).received c).length

/-- Two histories that grow, one ahead of the other: what was ahead and what is
new is what was caught up with and what is ahead. -/
theorem drop_append_drop {α : Type} {sent sent' rcvd rcvd' : List α} (hs : sent <+: sent')
    (hr : rcvd <+: rcvd') (h : rcvd <+: sent) (h' : rcvd' <+: sent') :
    sent.drop rcvd.length ++ sent'.drop sent.length
      = rcvd'.drop rcvd.length ++ sent'.drop rcvd'.length := by
  obtain ⟨a, rfl⟩ := hs
  obtain ⟨b, rfl⟩ := hr
  obtain ⟨e, rfl⟩ := h
  obtain ⟨f, hf⟩ := h'
  rw [List.drop_left, List.drop_left, List.drop_left, ← hf, List.drop_left]
  rw [List.append_assoc, List.append_assoc] at hf
  exact (List.append_cancel_left hf).symm

theorem blocks_append (m : ByteMem) (l l' : List (ℕ × ℕ)) :
    m.blocks (l ++ l') = m.blocks l ++ m.blocks l' := List.map_append

@[simp] theorem blocks_length (m : ByteMem) (l : List (ℕ × ℕ)) :
    (m.blocks l).length = l.length := List.length_map _

theorem blocks_congr {m m' : ByteMem} {l : List (ℕ × ℕ)}
    (h : ∀ b ∈ l, m.SameOn m' b.1 b.2) : m'.blocks l = m.blocks l :=
  List.map_congr_left (fun b hb => ByteMem.read_congr (fun i hi =>
    h b hb (b.1 + i) (Nat.le_add_right _ _) (Nat.add_lt_add_left hi _)))

theorem offsets_prefix {base : ℕ} {l l' : List (ℕ × ℕ)} (h : l <+: l') :
    offsets base l <+: offsets base l' := h.map _

@[simp] theorem offsets_length (base : ℕ) (l : List (ℕ × ℕ)) :
    (offsets base l).length = l.length := List.length_map _

namespace Intact

variable {σ σ' : PayloadSys}

/-- **Calls keep the bytes.** -/
theorem call (h : P.Intact σ) (hpos : 0 < P.numChannels) {a : PeerAct} {sys : PeerSys}
    (hfits : P.Fits a) (hstep : P.ownerStep σ.sys a = some sys) :
    P.Intact (P.record σ sys) := by
  have howned := h.owned.ownerStep hpos hstep
  have hconveyed := h.conveyed.acquirerStep hpos (h.owned.world.acquirerStep hstep)
  have hadds : P.Adds a σ.sys sys := by
    unfold Peers.ownerStep at hstep
    split at hstep
    · rename_i hg
      exact adds_of_step hpos h.owned.up h.rest hg.1 hstep
    · exact absurd hstep (Option.some_ne_none _).symm
  obtain ⟨T, hcond⟩ := h.owned.world.conducts h.conveyed.world h.owned.up
  obtain ⟨T', hcond'⟩ := howned.world.conducts hconveyed.world howned.up
  have hsent : ∀ s c, P.sentBlocks σ.sys.world s c <+: P.sentBlocks sys.world s c := fun s c => by
    obtain ⟨l, hl, -⟩ := hadds.sent s c
    exact offsets_prefix ⟨l, hl.symm⟩
  have hrcvd : ∀ s c, P.receivedBlocks σ.sys.world s c <+: P.receivedBlocks sys.world s c :=
    fun s c => offsets_prefix (hadds.received s c)
  have hdrop : ∀ s c, P.Has (.chan c) → _ := fun s c hid =>
    drop_append_drop (hsent s c) (hrcvd s.other c) (hcond.arrived hid) (hcond'.arrived hid)
  refine ⟨howned, hconveyed, hadds.rest, fun s c hid b hb => ?_, fun s c hid => ?_,
    fun s c => ?_, fun s c => ?_⟩
  · have hmem : b ∈ (P.sentBlocks σ.sys.world s c).drop
          (P.receivedBlocks σ.sys.world s.other c).length
        ++ (P.sentBlocks sys.world s c).drop (P.sentBlocks σ.sys.world s c).length := by
      rw [hdrop s c hid]
      exact List.mem_append_right _ hb
    rcases List.mem_append.mp hmem with hold | hnew
    · exact h.sized s c hid b hold
    · -- it was sent by this call, with a size that fits
      have hb' : b ∈ (T' s c).transit.map (P.block c) := hcond'.waiting hid ▸ hb
      obtain ⟨msg, hmsg, rfl⟩ := List.mem_map.mp hb'
      have hbuf := ((hcond'.owns.rep.valid s c hid).transit msg hmsg).1
      obtain ⟨l, hl, hact⟩ := hadds.sent s c
      have hnew : P.block c msg ∈ offsets (P.μ s).localShm l := by
        have he : P.sentBlocks sys.world s c
            = P.sentBlocks σ.sys.world s c ++ offsets (P.μ s).localShm l := by
          rw [sentBlocks, hl, offsets, List.map_append]
          rfl
        rwa [he, List.drop_left] at hnew
      obtain ⟨m, hm, heq⟩ := List.mem_map.mp hnew
      obtain ⟨hoff, hsize⟩ := Prod.mk.inj heq
      obtain ⟨chanId, size, rfl, hmsize⟩ := hact m hm
      have hoffpos := bufOff_pos hbuf
      have hfit := hfits c msg.buf hbuf (by unfold localBuf; omega)
      refine ⟨msg.buf, hbuf, rfl, ?_⟩
      show msg.size ≤ _
      omega
  · have hsame : (sys.world.shm s).blocks ((P.sentBlocks σ.sys.world s c).drop
          (P.receivedBlocks σ.sys.world s.other c).length)
        = (σ.sys.world.shm s).blocks ((P.sentBlocks σ.sys.world s c).drop
          (P.receivedBlocks σ.sys.world s.other c).length) :=
      blocks_congr (fun b hb => by
        obtain ⟨x, hx, hoff, hsize⟩ := h.sized s c hid b hb
        intro a ha ha'
        exact hadds.payload s c x hx a (by omega) (by omega))
    dsimp only [record]
    rw [h.posted_eq s c hid, ← hsame, Side.other_other, List.append_assoc, List.append_assoc,
      ← blocks_append, ← blocks_append, hdrop s c hid]
  · obtain ⟨l, hl, -⟩ := hadds.sent s c
    dsimp only [record]
    rw [List.length_append, h.posted_length, blocks_length, List.length_drop]
    unfold sentBlocks
    rw [offsets_length, offsets_length, hl, List.length_append]
    omega
  · obtain ⟨l, hl⟩ := hadds.received s c
    dsimp only [record]
    rw [List.length_append, h.seen_length, blocks_length, List.length_drop]
    unfold receivedBlocks
    rw [offsets_length, offsets_length, ← hl, List.length_append]
    omega

/-- **Writes in held buffers keep the bytes of messages.** -/
theorem write (h : P.Intact σ) {off : ℕ} {x : BufId} {bs : List UInt8} (hx : P.HasBuf c x)
    (hheld : P.Held σ.sys.world s c x) (hfit : off + bs.length ≤ P.bufSize c x.1) :
    P.Intact { σ with sys := { σ.sys with world := P.filled s c x off bs σ.sys.world } } := by
  obtain ⟨T, hcond⟩ := h.owned.world.conducts h.conveyed.world h.owned.up
  have hrings := sameRings_filled (s := s) hx hfit σ.sys.world
  have howned : P.AllOwned (P.filled s c x off bs σ.sys.world) := by
    obtain ⟨T, hown⟩ := h.owned.world
    exact ⟨T, hown.frame hrings⟩
  have hconveyed : P.ConveysAll (P.filled s c x off bs σ.sys.world) := by
    obtain ⟨hacq, L, hrep, hconv⟩ := h.conveyed.world
    exact ⟨hacq, L, hrep.frame hrings, hconv⟩
  refine ⟨h.owned.of_world howned, h.conveyed.of_world hconveyed, h.rest, h.sized,
    fun t c' hid => ?_, h.posted_length, h.seen_length⟩
  refine (h.posted_eq t c' hid).trans (congrArg _ (blocks_congr (fun b hb => ?_)).symm)
  obtain ⟨y, hy, hoff, hsize⟩ := h.sized t c' hid b hb
  have hb' : b ∈ (T t c').transit.map (P.block c') := hcond.waiting hid ▸ hb
  obtain ⟨msg, hmsg, rfl⟩ := List.mem_map.mp hb'
  have hmem : msg.buf ∈ (T t c').transit.map Message.buf := List.mem_map_of_mem hmsg
  have hbusy : msg.buf ∈ (T t c').busy := by
    simp only [Traffic.busy, List.mem_append]
    exact Or.inl (Or.inr hmem)
  have hoff₀ : 0 + P.shape.bufOff c' msg.buf = 0 + P.shape.bufOff c' y := congrArg (0 + ·) hoff
  obtain rfl : msg.buf = y := (hcond.owns.tracks t c' hid).unique hid hy hbusy hoff₀
  intro a ha ha'
  unfold filled
  dsimp only
  rcases Side.eq_or_eq_other s t with rfl | rfl
  · have hne : ¬(c = c' ∧ x = msg.buf) := by
      rintro ⟨rfl, rfl⟩
      exact hcond.owns.not_transit hx hheld hmem
    have hap := buf_apart hx hy hne
    rw [Shm.set_self]
    exact ByteMem.write_of_not_mem _ (by omega)
  · rw [Shm.set_other]

theorem step (h : P.Intact σ) (hpos : 0 < P.numChannels) (hs : P.PayloadStep σ σ') :
    P.Intact σ' := by
  cases hs with
  | call hfits hstep => exact h.call hpos hfits hstep
  | write hx hheld hfit => exact h.write hx hheld hfit

end Intact

theorem Fresh.intact {σ : PeerSys} (h : P.Fresh σ) : P.Intact { sys := σ } where
  owned := h.kept ⟨_, h.owns⟩
  conveyed := h.kept h.conveysAll
  rest := fun s q hq => by
    rw [h.rx_eq s] at hq
    exact absurd hq (Option.some_ne_none _).symm
  sized := fun s c _ b hb => by
    rw [sentBlocks, h.app_eq s] at hb
    exact absurd (List.mem_of_mem_drop hb) List.not_mem_nil
  posted_eq := fun s c _ => by
    rw [sentBlocks, h.app_eq s]
    simp [offsets, ByteMem.blocks]
  posted_length := fun s c => by
    rw [h.app_eq s]
    rfl
  seen_length := fun s c => by
    rw [h.app_eq s]
    rfl

/-- **The bytes of the messages from `s` on a channel arrive.** -/
structure Unaltered (P : Peers) (σ : PayloadSys) (s : Side) (c : ℕ) : Prop where
  /-- The bytes of every message were recorded, when it was sent and when it was
  received. -/
  posted_length : (σ.posted s c).length = ((σ.sys.world.app s).sent c).length
  seen_length : (σ.seen s.other c).length = ((σ.sys.world.app s.other).received c).length
  /-- What the callbacks saw was sent, message by message. -/
  arrived : σ.seen s.other c <+: σ.posted s c
  /-- The bytes of the others are still in the buffers the queue names. -/
  waiting : σ.posted s c = σ.seen s.other c
    ++ (σ.sys.world.shm s).blocks ((P.descriptors σ.sys.world.shm s (.chan c)).map (P.bdOffset c))

end Peers

/-- **What arrives is what was sent.** Two peers start with symmetric
configurations that fit; their applications call the driver in any order, pass
on only what they own, and write only in buffers they hold. On every managed
channel, in every state they reach, the bytes the receive callbacks found in
the buffers are the bytes that were in them when they were sent, message by
message. -/
theorem payload_unaltered (P : Peers) {σ₀ : PeerSys} {σ : PayloadSys} (hstart : P.Started σ₀)
    (hr : Relation.ReflTransGen P.PayloadStep { sys := σ₀ } σ) (s : Side) (c : ℕ)
    (hid : P.Has (.chan c)) : P.Unaltered σ s c := by
  have hfresh := hstart.fresh
  have h : P.Intact σ := by
    induction hr with
    | refl => exact hfresh.intact
    | tail _ hs ih => exact ih.step hfresh.numChannels_pos hs
  obtain ⟨T, hcond⟩ := h.owned.world.conducts h.conveyed.world h.owned.up
  have hposted := h.posted_eq s c hid
  refine ⟨h.posted_length s c, h.seen_length s.other c, ⟨_, hposted.symm⟩, ?_⟩
  rw [hposted, hcond.waiting hid, hcond.owns.rep.descriptors_chan (h.owned.up s) hid,
    List.map_map]
  rfl

/-! A message of four bytes on the sample configuration: peer `a` acquires a
buffer, writes the bytes, transmits them, and peer `b` is called back. -/

/-- The buffers of the sample configuration have room for four bytes. -/
theorem samplePeers_fits (s : Side) (chanId : ℤ) (buf : ℕ) :
    samplePeers.Fits (.tx s chanId buf 4) := by
  intro c x hx _
  have hsize : ∀ p, 4 ≤ (sampleCfg.pool 0 p).bufSize.toNat := fun p => by
    show 4 ≤ (if p = 0 then (⟨2, 16⟩ : IpcShmPoolCfg) else ⟨1, 32⟩).bufSize.toNat
    split <;> decide
  obtain ⟨-, m, hm⟩ := hx.1.chan
  by_cases hc : c = 0
  · subst hc
    exact hsize x.1
  · have hm : (if c = 0 then _ else _) = IpcShmChannelCfg.managed m := hm
    rw [if_neg hc] at hm
    cases hm

/-- The run, with the bytes of the message as it was received. -/
def fourBytesRun : Option (List (List UInt8)) :=
  (samplePeers.boot .a (fun _ _ => 0)).bind fun σ₀ =>
    (samplePeers.ownerStep σ₀ (.acquire .a 0 16)).bind fun σ₁ =>
      let ρ₁ := samplePeers.record { sys := σ₀ } σ₁
      let ρ₂ : PayloadSys :=
        { ρ₁ with
          sys := { σ₁ with world := samplePeers.filled .a 0 (0, 0) 0 [1, 2, 3, 4] σ₁.world } }
      (samplePeers.ownerStep ρ₂.sys (.tx .a 0 0x1060 4)).bind fun σ₃ =>
        let ρ₃ := samplePeers.record ρ₂ σ₃
        (samplePeers.ownerStep ρ₃.sys (.rx .b 8)).bind fun σ₄ =>
          if (σ₁.world.app .a).acquired 0 = [0x1060] then
            some ((samplePeers.record ρ₃ σ₄).seen .b 0)
          else none

/-- The callback finds the four bytes. -/
theorem payload_unaltered_fourBytes : ∃ (σ₀ : PeerSys) (σ : PayloadSys), samplePeers.Started σ₀ ∧
    Relation.ReflTransGen samplePeers.PayloadStep { sys := σ₀ } σ ∧
    σ.seen .b 0 = [[1, 2, 3, 4]] ∧ samplePeers.Unaltered σ .a 0 := by
  have hrun : fourBytesRun = some [[1, 2, 3, 4]] := by decide +kernel
  obtain ⟨σ₀, hboot, hrun⟩ := Option.bind_eq_some_iff.mp hrun
  obtain ⟨σ₁, hacq, hrun⟩ := Option.bind_eq_some_iff.mp hrun
  obtain ⟨σ₃, htx, hrun⟩ := Option.bind_eq_some_iff.mp hrun
  obtain ⟨σ₄, hrx, hrun⟩ := Option.bind_eq_some_iff.mp hrun
  split at hrun
  · rename_i hheld
    have hid : samplePeers.Has (.chan 0) := ⟨by decide, _, rfl⟩
    have hx : samplePeers.HasBuf 0 (0, 0) := ⟨⟨by decide, _, rfl, by decide⟩, by decide⟩
    have hstart : samplePeers.Started σ₀ :=
      ⟨.a, fun _ _ => 0, fun id _ => Adoptable.cleared _ _, hboot⟩
    have hmem : samplePeers.localBuf .a 0 (0, 0) ∈ (σ₁.world.app .a).acquired 0 := by
      rw [hheld]
      decide +kernel
    have h₁ : samplePeers.PayloadStep { sys := σ₀ } _ := .call (a := .acquire .a 0 16) trivial hacq
    have h₂ : samplePeers.PayloadStep (samplePeers.record { sys := σ₀ } σ₁)
        { samplePeers.record { sys := σ₀ } σ₁ with
          sys := { σ₁ with world := samplePeers.filled .a 0 (0, 0) 0 [1, 2, 3, 4] σ₁.world } } :=
      .write hx (Or.inl hmem) (by decide)
    have h₃ : samplePeers.PayloadStep _ _ := .call (samplePeers_fits _ _ _) htx
    have h₄ : samplePeers.PayloadStep _ _ := .call (a := .rx .b 8) trivial hrx
    have hr := (((Relation.ReflTransGen.single h₁).tail h₂).tail h₃).tail h₄
    exact ⟨σ₀, _, hstart, hr, Option.some.inj hrun,
      payload_unaltered samplePeers hstart hr .a 0 hid⟩
  · exact absurd hrun (Option.some_ne_none _).symm
