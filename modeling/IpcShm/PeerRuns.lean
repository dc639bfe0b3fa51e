import IpcShm.PeerSystem
import IpcShm.RoundTrip

/-!
# Runs of two peers

How the system of two peers starts, and how an invariant of its runs is
proved.

A peer that initializes reads the window of the other one: it takes over the
indexes of every queue, and so it finds again the last descriptors that were
pushed for it. What it has to find there is `Peers.Standing`, and what both
windows carry afterwards is `Peers.init_joins`. The first start is the same,
next to a peer that has just initialized (`Peers.Started.fresh`).

For the steps of a run it is said once what a call can do: nothing to the
rings, or one of four moves (`Peers.Moves`). An invariant that is closed
under the moves is kept by every call and, since it is then also kept by the
delivery of a message, by every part of a receive call between two callbacks
(`Peers.Kept.step`).
-/

/-! ## What the queues hold, as descriptors -/

/-- A message as a descriptor. -/
def Message.bd (msg : Message) : IpcShmBd :=
  { poolId := msg.buf.1, bufId := msg.buf.2, dataSize := msg.size }

namespace Peers

variable {P : Peers} {s : Side} {d d' : Driver} {shm shm' : Shm} {id : QueueId} {c p : ℕ}

/-- **The descriptors in a queue**, as the peer that pushed them left them. -/
def descriptors (P : Peers) (shm : Shm) (s : Side) (id : QueueId) : List IpcShmBd :=
  (ringContents (P.off id) (P.cap id) 8 (shm s) (shm s.other)).map IpcShmBd.decode

theorem Rep.contents {L : Lanes} (h : P.Rep shm L) (hid : P.Has id) (s : Side) :
    ringContents (P.off id) (P.cap id) 8 (shm s) (shm s.other) = L.queues s id :=
  (h.holds id hid s).contents

/-- The channel queue holds the messages under way. -/
theorem Rep.descriptors_chan {L : Lanes} (h : P.Rep shm L) (hup : P.Up s d)
    (hid : P.Has (.chan c)) :
    P.descriptors shm s (.chan c) = (L s c).transit.map Message.bd := by
  rw [descriptors, h.contents hid, Lanes.queues, List.map_map]
  refine List.map_congr_left (fun msg hmsg => ?_)
  obtain ⟨hbuf, hsize⟩ := (h.valid s c hid).transit msg hmsg
  exact decode_bdBytes hup hbuf hsize

/-- The pool queue the other peer pushes to holds the free buffers. -/
theorem Rep.descriptors_pool {L : Lanes} (h : P.Rep shm L) (hup : P.Up s d)
    (hid : P.Has (.pool c p)) :
    P.descriptors shm s.other (.pool c p)
      = ((L s c).free p).map (fun i => { poolId := p, bufId := i, dataSize := 0 }) := by
  rw [descriptors, h.contents hid, Lanes.queues, Side.other_other, List.map_map]
  refine List.map_congr_left (fun i hi => ?_)
  exact decode_bdBytes (x := (p, i)) hup ⟨hid, (h.valid s c hid.chan).free p hid i hi⟩ (by decide)

/-- The messages under way are known from memory. -/
theorem Rep.transit_eq {L L' : Lanes} (h : P.Rep shm L) (h' : P.Rep shm L') (hup : P.Up s d)
    (hid : P.Has (.chan c)) : (L s c).transit = (L' s c).transit := by
  have hinj : Function.Injective Message.bd := by
    rintro ⟨⟨p, i⟩, n⟩ ⟨⟨p', i'⟩, n'⟩ he
    obtain ⟨h₁, h₂, h₃⟩ := IpcShmBd.mk.inj he
    obtain rfl : p = p' := Int.natCast_inj.mp h₁
    obtain rfl : i = i' := h₂
    obtain rfl : n = n' := h₃
    rfl
  refine List.map_injective_iff.mpr hinj ?_
  rw [← h.descriptors_chan hup hid, ← h'.descriptors_chan hup hid]

/-- So are the free buffers. -/
theorem Rep.free_eq {L L' : Lanes} (h : P.Rep shm L) (h' : P.Rep shm L') (hup : P.Up s d)
    (hid : P.Has (.pool c p)) : (L s c).free p = (L' s c).free p := by
  have hinj : Function.Injective
      (fun i => ({ poolId := p, bufId := i, dataSize := 0 } : IpcShmBd)) :=
    fun _ _ he => (IpcShmBd.mk.inj he).2.1
  refine List.map_injective_iff.mpr hinj ?_
  rw [← h.descriptors_pool hup hid, ← h'.descriptors_pool hup hid]

/-! ## Initialization next to a peer -/

/-- **The window of an initialized peer**, as the other one finds it when it
initializes: `l` is what was pushed into the pool queues, popped or not. -/
structure Standing (P : Peers) (m : ByteMem) (l : ℕ → ℕ → List ℕ) : Prop where
  ready : m.load 8 0 = ipcShmStateReady
  done : ∀ id, P.Has id → m.sentinel (P.off id) = ipcQueueInitDone
  read_lt : ∀ id, P.Has id → m.readIdx (P.off id) < P.cap id + 1
  write_lt : ∀ c, P.Has (.chan c) → m.writeIdx (P.off (.chan c)) < P.cap (.chan c) + 1
  pushed : ∀ c p, P.Has (.pool c p) →
    RingHistory (P.off (.pool c p)) (P.cap (.pool c p)) m ((l c p).map (fun i => bdBytes (p, i) 0))
  valid : ∀ c p, P.Has (.pool c p) → ∀ i ∈ l c p, i < P.numBufs c p

/-- The buffers of all pools, in the order initialization pushes them. -/
def allBufs (P : Peers) (c p : ℕ) : List ℕ := List.range (P.numBufs c p)

/-- **The lanes after a peer initialized** next to one that stands: nothing is
under way, and it is offered the last buffers that were pushed for it. -/
def rejoined (P : Peers) (s : Side) (l : ℕ → ℕ → List ℕ) : Lanes := fun t c =>
  { free := fun p => if t = s then (l c p).drop ((l c p).length - P.numBufs c p)
      else P.allBufs c p }

theorem initial_eq (hid : P.Has id) (s : Side) : (P.cfg s).initial id = P.shape.initial id := by
  cases id with
  | chan c => rfl
  | pool c p => rw [IpcShmCfg.initial, IpcShmCfg.initial, (P.shape_symmetric s).queueCap_eq hid]

theorem newRead_lt (ty : IpcShmQueueType) (m : ByteMem) (off N : ℕ) :
    newRead ty m off N < N + 1 := by
  unfold newRead
  split
  · exact Nat.mod_lt _ (Nat.succ_pos N)
  · exact Nat.succ_pos N

/-- A successful initialization resets every queue. -/
theorem init_resets
    (had : ∀ id, P.Has id → Adoptable (P.off id) (P.cap id) (shm s.other))
    (hrun : (ipcShmInitInstance d (P.inst s) (some (P.cfg s))).run (memHandle (P.μ s) s) shm
      = some ((0, d'), shm')) :
    Resets P.shape s (fun _ => True) shm shm' ∧ (shm' s).load 8 0 = ipcShmStateReady := by
  have hsym := P.shape_symmetric s
  have had' : AllAdoptable (P.cfg s) (shm s.other) := fun id hid => by
    have hid' : P.Has id := (P.symmetric_shape s).hasQueue hid
    have h := had id hid'
    rwa [off, cap, hsym.queueOff_eq hid', hsym.queueCap_eq hid'] at h
  obtain ⟨hr, hready⟩ := ipcShmInitInstance_run (P.size_eq s) (P.size_eq s ▸ P.fits s) had' hrun
  refine ⟨⟨hr.other, fun id hid _ => ?_, fun _ _ h => absurd trivial h⟩, hready⟩
  have h := hr.reset id (hsym.hasQueue hid) trivial
  rwa [← hsym.queueOff_eq hid, ← hsym.queueCap_eq hid, initial_eq hid s] at h

/-- **A peer that has just initialized stands**, with all buffers pushed. -/
theorem standing_of_resets (hr : Resets P.shape s (fun _ => True) shm shm')
    (hready : (shm' s).load 8 0 = ipcShmStateReady) : P.Standing (shm' s) P.allBufs where
  ready := hready
  done := fun id hid => (hr.reset id hid trivial).done
  read_lt := fun id hid => by
    have h : (shm' s).readIdx (P.off id) = _ := (hr.reset id hid trivial).read_eq
    rw [h]
    exact newRead_lt _ _ _ _
  write_lt := fun c hid => (hr.reset _ hid trivial).holds.write_lt
  pushed := fun c p hid => by
    refine RingHistory.of_full (hr.reset _ hid trivial).holds ?_
    rw [List.length_map, allBufs, List.length_range]
    rfl
  valid := fun c p _ i hi => List.mem_range.mp hi

/-- **A peer joins one that stands.** -/
theorem init_joins {l : ℕ → ℕ → List ℕ} (hst : P.Standing (shm s.other) l)
    (hrun : (ipcShmInitInstance d (P.inst s) (some (P.cfg s))).run (memHandle (P.μ s) s) shm
      = some ((0, d'), shm')) :
    P.Up s d' ∧ shm' s.other = shm s.other ∧ P.Standing (shm' s) P.allBufs ∧
      P.Rep shm' (P.rejoined s l) := by
  have hup : P.Up s d' := P.up_of_accepted s (Program.returns_of_run env_of_memHandle hrun)
  obtain ⟨hr, hready⟩ := init_resets
    (fun id hid => ⟨hst.read_lt id hid, Or.inl (hst.done id hid)⟩) hrun
  have hself := standing_of_resets hr hready
  refine ⟨hup, hr.other, hself, fun t => ?_, fun id hid t => ?_, fun id hid t => ?_,
    fun t c hid => ⟨fun p hp i hi => ?_, fun _ h => nomatch h⟩⟩
  · rcases Side.eq_or_eq_other s t with rfl | rfl
    · exact hready
    · rw [hr.other]
      exact hst.ready
  · rcases Side.eq_or_eq_other s t with rfl | rfl
    · exact hself.done id hid
    · rw [hr.other]
      exact hst.done id hid
  · have hreset := hr.reset id hid trivial
    rcases Side.eq_or_eq_other s t with rfl | rfl
    · -- what the peer pushes
      rw [hr.other]
      cases id with
      | chan c => exact hreset.holds
      | pool c p =>
        simp only [Lanes.queues, rejoined, if_neg (Side.other_ne t)]
        exact hreset.holds
    · -- what it finds
      have hread := hreset.read_eq
      rw [newRead, if_pos (show (shm s.other).sentinel (P.shape.queueOff id) = _ from
        hst.done id hid)] at hread
      rw [Side.other_other, hr.other]
      cases id with
      | chan c =>
        have hw := hst.write_lt c hid
        have hread : (shm' s).readIdx (P.off (.chan c))
            = (shm s.other).writeIdx (P.off (.chan c)) := hread.trans (Nat.mod_eq_of_lt hw)
        exact RingHolds.empty (hread.trans_lt hw) hread.symm
      | pool c p =>
        have hp := hst.pushed c p hid
        have hw := hp.write_lt
        have hcap := hup.cap_lt hid
        have hread : (shm' s).readIdx (P.off (.pool c p))
            = u32 ((shm s.other).writeIdx (P.off (.pool c p)) + 1) % (P.cap (.pool c p) + 1) :=
          hread
        rw [u32_of_lt (by omega)] at hread
        have hheld := hp.reread hread
        rw [List.length_map, ← List.map_drop] at hheld
        simp only [Lanes.queues, rejoined, Side.other_other, if_true]
        exact hheld
  · by_cases hts : t = s
    · simp only [rejoined, if_pos hts] at hi
      exact hst.valid c p hp i (List.mem_of_mem_drop hi)
    · simp only [rejoined, if_neg hts] at hi
      exact List.mem_range.mp hi

/-- **Both peers have just started.** -/
structure Fresh (P : Peers) (σ : PeerSys) : Prop where
  up : ∀ s, P.Up s (σ.drv s)
  numChannels_pos : 0 < P.numChannels
  rep : P.Rep σ.world.shm (fun _ c => { free := P.allBufs c })
  standing : ∀ s, P.Standing (σ.world.shm s) P.allBufs
  app_eq : ∀ s, σ.world.app s = {}
  rx_eq : ∀ s, σ.rx s = none

theorem Started.fresh {σ : PeerSys} (h : P.Started σ) : P.Fresh σ := by
  obtain ⟨first, shm, had, hboot⟩ := h
  obtain ⟨⟨⟨err₁, d₁⟩, shm₁⟩, hrun₁, hboot₁⟩ := Option.bind_eq_some_iff.mp hboot
  obtain ⟨⟨⟨err₂, d₂⟩, shm₂⟩, hrun₂, hboot₂⟩ := Option.bind_eq_some_iff.mp hboot₁
  dsimp only at hboot₂
  split at hboot₂
  · exact nomatch hboot₂
  rename_i herr
  obtain ⟨rfl, rfl⟩ : err₁ = 0 ∧ err₂ = 0 := by omega
  obtain rfl := Option.some.inj hboot₂
  have hret₁ := Program.returns_of_run env_of_memHandle hrun₁
  obtain ⟨hr₁, hready₁⟩ := init_resets had hrun₁
  have hst₁ := standing_of_resets hr₁ hready₁
  have hst : P.Standing (shm₁ first.other.other) P.allBufs := by
    rw [Side.other_other]
    exact hst₁
  obtain ⟨hup₂, hsame, hst₂, hrep⟩ := init_joins hst hrun₂
  rw [Side.other_other] at hsame
  refine ⟨fun s => ?_, ?_, ?_, fun s => ?_, fun _ => rfl, fun _ => rfl⟩
  · rcases Side.eq_or_eq_other first s with rfl | rfl
    · simp only [if_true]
      exact P.up_of_accepted _ hret₁
    · simp only [if_neg (Side.other_ne first)]
      exact hup₂
  · have hn := (ipcShmInitInstance_accepted hret₁).2.1
    rw [← (P.shape_symmetric first).numChannels_eq] at hn
    exact hn
  · have hlanes : P.rejoined first.other P.allBufs = fun _ c => { free := P.allBufs c } := by
      funext t c
      simp only [rejoined, allBufs, List.length_range, Nat.sub_self, List.drop_zero, ite_self]
      rfl
    rwa [hlanes] at hrep
  · rcases Side.eq_or_eq_other first s with rfl | rfl
    · show P.Standing (shm₂ _) P.allBufs
      rw [hsame]
      exact hst₁
    · exact hst₂

end Peers

/-! ## Moves -/

/-- What applications may transmit and release. -/
structure Manners where
  tx : Side → World → ℕ → Prop
  release : Side → World → ℕ → Prop

/-- Everything but the start and the end of an instance. -/
def PeerAct.isCall : PeerAct → Bool
  | .free _ => false
  | .crash _ => false
  | .init _ => false
  | _ => true

/-- The applications mind their manners in an action. -/
def Manners.Minds (g : Manners) (w : World) : PeerAct → Prop
  | .tx s _ buf _ => g.tx s w buf
  | .release s _ buf => g.release s w buf
  | _ => True

namespace Peers

variable {P : Peers} {s : Side} {d : Driver} {shm shm' : Shm} {c : ℕ}

/-- What an application does to itself is not seen at the other. -/
theorem update_app {β : Type} {app : Side → App} {a : App} (f : App → β) (h : f a = f (app s))
    (t : Side) : f (Function.update app s a t) = f (app t) := by
  by_cases hts : t = s
  · subst hts
    rw [Function.update_self, h]
  · rw [Function.update_of_ne hts]

/-- A buffer is acquired. -/
def acquired (P : Peers) (s : Side) (c : ℕ) (x : BufId) (w : World) : World :=
  { w with shm := P.popped w.shm s (.pool c x.1) }.setApp s
    ((w.app s).acquire c (P.localBuf s c x))

/-- A buffer is transmitted, by an address in it. -/
def sent (P : Peers) (s : Side) (c : ℕ) (x : BufId) (buf size : ℕ) (w : World) : World :=
  { w with shm := P.pushed w.shm s (.chan c) (bdBytes x size) }.setApp s
    ((w.app s).transmit c buf size)

/-- A buffer is released, by an address in it. -/
def released (P : Peers) (s : Side) (c : ℕ) (x : BufId) (buf : ℕ) (w : World) : World :=
  { w with shm := P.pushed w.shm s (.pool c x.1) (bdBytes x 0) }.setApp s
    ((w.app s).release c buf)

/-- **The moves of a world that carries lanes lead to `J`.** -/
structure Moves (P : Peers) (g : Manners) (J : World → Prop) (w : World) (L : Lanes) : Prop where
  rep : P.Rep w.shm L
  acquire : ∀ s c p i rest, P.Has (.pool c p) → 0 < P.bufSize c p → (L s c).free p = i :: rest →
    J (P.acquired s c (p, i) w)
  send : ∀ s c x buf size, g.tx s w buf → P.HasBuf c x → P.InBuf s false c x buf →
    size < 2 ^ 32 → (L s c).transit.length < P.cap (.chan c) → J (P.sent s c x buf size w)
  receive : ∀ s c msg rest, P.Has (.chan c) → (L s.other c).transit = msg :: rest →
    J (P.received s c msg w)
  release : ∀ s c x buf, g.release s w buf → P.HasBuf c x → P.InBuf s true c x buf →
    ((L s.other c).free x.1).length < P.numBufs c x.1 → J (P.released s c x buf w)

/-- **Two results of the moves of a world**, of applications that mind both. -/
theorem Moves.and {g g' : Manners} {J J' : World → Prop} {w : World} {L L' : Lanes}
    (h : P.Moves g J w L) (h' : P.Moves g' J' w L') {drv : Side → Driver}
    (hup : ∀ s, P.Up s (drv s)) (htx : ∀ s buf, g.tx s w buf → g'.tx s w buf)
    (hrel : ∀ s buf, g.release s w buf → g'.release s w buf) :
    P.Moves g (fun w => J w ∧ J' w) w L where
  rep := h.rep
  acquire := fun s c p i rest hid hpos hf => ⟨h.acquire s c p i rest hid hpos hf,
    h'.acquire s c p i rest hid hpos ((h'.rep.free_eq h.rep (hup s) hid).trans hf)⟩
  send := fun s c x buf size hg hx hin hsize hroom => by
    have hid : P.Has (.chan c) := hx.1.chan
    refine ⟨h.send s c x buf size hg hx hin hsize hroom,
      h'.send s c x buf size (htx s buf hg) hx hin hsize ?_⟩
    rw [h'.rep.transit_eq h.rep (hup s) hid]
    exact hroom
  receive := fun s c msg rest hid ht => ⟨h.receive s c msg rest hid ht,
    h'.receive s c msg rest hid ((h'.rep.transit_eq h.rep (hup s.other) hid).trans ht)⟩
  release := fun s c x buf hg hx hin hroom => ⟨h.release s c x buf hg hx hin hroom,
    h'.release s c x buf (hrel s buf hg) hx hin
      (by rw [h'.rep.free_eq h.rep (hup s.other) hx.1]; exact hroom)⟩

section Calls

variable {g : Manners} {J : World → Prop} {w : World} {L : Lanes}

theorem localBuf_ne (P : Peers) (s : Side) (c : ℕ) (x : BufId) : P.localBuf s c x ≠ 0 := by
  have := (P.μ s).localShm_pos
  unfold localBuf
  omega

theorem Moves.acquire_run (h : P.Moves g J w L) (hw : J w) (hup : P.Up s d) {memSize r : ℕ}
    (hrun : (ipcShmAcquireBuf d (P.inst s) c memSize).run (memHandle (P.μ s) s) w.shm
      = some (r, shm')) :
    J (if r = 0 then { w with shm := shm' }
      else { w with shm := shm' }.setApp s ((w.app s).acquire c r)) := by
  obtain ⟨r', shm'', L', hrun', ho⟩ := ipcShmAcquireBuf_run hup h.rep c memSize
  obtain ⟨rfl, rfl⟩ := Prod.mk.inj (Option.some.inj (hrun'.symm.trans hrun))
  cases ho with
  | none => exact hw
  | buffer hid hpos _ hf =>
    rw [if_neg (P.localBuf_ne s c _)]
    exact h.acquire s c _ _ _ hid hpos hf

theorem Moves.tx_run (h : P.Moves g J w L) (hw : J w) (hup : P.Up s d) {chanId r : ℤ}
    {buf size : ℕ} (hsize : size < 2 ^ 32) (hg : g.tx s w buf)
    (hrun : (ipcShmTx d (P.inst s) chanId buf size).run (memHandle (P.μ s) s) w.shm
      = some (r, shm')) :
    J (if r ≠ 0 then { w with shm := shm' }
      else { w with shm := shm' }.setApp s
        ((w.app s).transmit (chanId % 2 ^ 8).toNat buf size)) := by
  obtain ⟨r', shm'', L', hrun', ho⟩ := ipcShmTx_run hup h.rep chanId buf size
  obtain ⟨rfl, rfl⟩ := Prod.mk.inj (Option.some.inj (hrun'.symm.trans hrun))
  cases ho with
  | rejected => exact hw
  | full => exact hw
  | sent hx hle hlt _ hroom =>
    rw [if_neg (not_not.mpr rfl)]
    exact h.send s _ _ buf size hg hx ⟨hle, hlt⟩ hsize hroom

theorem Moves.release_run (h : P.Moves g J w L) (hw : J w) (hup : P.Up s d) {r : ℤ} {buf : ℕ}
    (hg : g.release s w buf)
    (hrun : (ipcShmReleaseBuf d (P.inst s) c buf).run (memHandle (P.μ s) s) w.shm
      = some (r, shm')) :
    J (if r ≠ 0 then { w with shm := shm' }
      else { w with shm := shm' }.setApp s ((w.app s).release c buf)) := by
  obtain ⟨r', shm'', L', hrun', ho⟩ := ipcShmReleaseBuf_run hup h.rep c buf
  obtain ⟨rfl, rfl⟩ := Prod.mk.inj (Option.some.inj (hrun'.symm.trans hrun))
  cases ho with
  | rejected => exact hw
  | full => exact hw
  | released hx hle hlt hroom =>
    rw [if_neg (not_not.mpr rfl)]
    exact h.release s c _ buf hg hx ⟨hle, hlt⟩ hroom

/-- The channels `get_unmanaged_chan` finds. -/
theorem Up.getUnmanagedChan {chan : IpcShmChannel} (hup : P.Up s d)
    (hget : getUnmanagedChan d (P.inst s) c = some chan) :
    c < P.numChannels ∧ ¬P.Has (.chan c) ∧ chan = (d.priv (P.inst s)).channels c := by
  obtain ⟨hc, ht, rfl⟩ := getUnmanagedChan_eq_some hget
  rw [hup.numChannels_eq] at hc
  refine ⟨hc, fun hid => ?_, rfl⟩
  rw [(hup.managed hid).1] at ht
  exact nomatch ht

/-- **`ipc_shm_unmanaged_tx`** changes no ring. -/
theorem unmanagedTx_run (hup : P.Up s d) {r : ℤ}
    (hrun : (ipcShmUnmanagedTx d (P.inst s) c).run (memHandle (P.μ s) s) shm = some (r, shm')) :
    P.SameRings shm shm' := by
  have hrefl : P.SameRings shm shm := ⟨fun _ => rfl, fun _ _ _ => ByteMem.SameOn.refl _ _ _⟩
  unfold ipcShmUnmanagedTx at hrun
  obtain ⟨ready, shm₁, hready, hrest⟩ := Program.run_bind_eq_some.mp hrun
  obtain rfl := eq_of_quiet ((ipcShmIsRemoteReady_always d (P.inst s)).mono
    (fun _ h => h) (fun _ h => h)) hready
  split at hrest
  · obtain ⟨-, rfl⟩ := Prod.mk.inj (Option.some.inj hrest)
    exact hrefl
  cases hget : getUnmanagedChan d (P.inst s) c with
  | none =>
    rw [hget] at hrest
    obtain ⟨-, rfl⟩ := Prod.mk.inj (Option.some.inj hrest)
    exact hrefl
  | some chan =>
    obtain ⟨hc, hn, rfl⟩ := hup.getUnmanagedChan hget
    obtain ⟨-, hl, hr, u, hu⟩ := hup.unmanaged hc hn
    have hfit := (header_bounds hc hu s).2
    obtain ⟨err, hint, -⟩ := ipcCheckUchanIntegrity_run (s := s) hl hr hfit shm₁
    rw [hget] at hrest
    dsimp only at hrest
    rw [Program.run_bind_of hint] at hrest
    split at hrest
    · obtain ⟨-, rfl⟩ := Prod.mk.inj (Option.some.inj hrest)
      exact hrefl
    · rw [hl, Nat.add_assoc, load32_bind, Program.run_op_of (memHandle_load_local (by omega)),
        store32_bind, Program.run_op_of (memHandle_store_local (by omega)), ipcHwIrqNotify_bind,
        Program.run_op_of rfl] at hrest
      obtain ⟨-, rfl⟩ := Prod.mk.inj (Option.some.inj hrest)
      exact sameRings_header hc hu (by omega) shm₁

end Calls

/-! ## Receive calls -/

section Receiving

variable {J : World → Prop} {σ σ' : PeerSys} {q : Drv ℕ}

/-- **The rest of a receive call keeps `J`**, from wherever `J` holds when the
callback returns. -/
def Resumes (P : Peers) (J : World → Prop) (s : Side) (q : Drv ℕ) : Prop :=
  ∀ w, J w → q.wp (Program.yielding (P.handle s) isCallback (World.deliver s) J) (fun _ => J) w

/-- A receive call goes on, and keeps `J`. -/
theorem proceed_keeps
    (hq : q.wp (Program.yielding (P.handle s) isCallback (World.deliver s) J) (fun _ => J) σ.world)
    (hstep : P.proceed s σ q = some σ') :
    J σ'.world ∧ σ'.drv = σ.drv ∧ (∀ t, t ≠ s → σ'.rx t = σ.rx t) ∧
      ∀ q', σ'.rx s = some q' → P.Resumes J s q' := by
  obtain ⟨q', w', had, hcase⟩ := Program.advance_of_wp q hq
  rw [proceed, had] at hstep
  rcases hcase with ⟨a, rfl, hJ⟩ | ⟨o, k, rfl, hy, hJ, hrest⟩
  · obtain rfl := Option.some.inj hstep
    refine ⟨hJ, rfl, fun t ht => Function.update_of_ne ht _ _, fun q' hq' => ?_⟩
    simp only [Function.update_self] at hq'
    exact nomatch hq'
  · obtain rfl := Option.some.inj hstep
    refine ⟨hJ, rfl, fun t ht => Function.update_of_ne ht _ _, fun q' hq' => ?_⟩
    simp only [Function.update_self] at hq'
    cases o with
    | rxCb _ _ _ _ _ _ =>
      obtain rfl := Option.some.inj hq'
      exact fun w hw => hrest () w hw
    | rxCbUnmanaged _ _ _ _ _ =>
      obtain rfl := Option.some.inj hq'
      exact fun w hw => hrest () w hw
    | _ => exact nomatch hy

/-- What is left after a callback. -/
theorem exists_of_afterCallback {o : Op} {k : o.Ret → Drv ℕ} {q : Drv ℕ}
    (h : afterCallback (.op o k) = some q) : ∃ r, q = k r := by
  cases o with
  | rxCb _ _ _ _ _ _ => exact ⟨(), (Option.some.inj h).symm⟩
  | rxCbUnmanaged _ _ _ _ _ => exact ⟨(), (Option.some.inj h).symm⟩
  | _ => exact absurd h (Option.some_ne_none _).symm

/-- **A receive call goes on**, and keeps the invariant of the moment. What is
left of it goes on from any of them. -/
theorem proceed_resumable {T : Type} {J : T → World → Prop} {t : T}
    (hq : q.wp (P.rxReading s J) (fun _ x => J x.2 x.1) (σ.world, t))
    (hstep : P.proceed s σ q = some σ') :
    J t σ'.world ∧ σ'.drv = σ.drv ∧ (∀ t, t ≠ s → σ'.rx t = σ.rx t) ∧
      ∀ q', σ'.rx s = some q' → ∀ w t', J t' w →
        q'.wp (P.rxReading s J) (fun _ x => J x.2 x.1) (w, t') := by
  obtain ⟨q', x, hbeside, hcase⟩ := Program.advance_of_wp q hq
  rw [Program.advance_beside] at hbeside
  obtain ⟨⟨q'', w'⟩, had, he⟩ := Option.map_eq_some_iff.mp hbeside
  obtain ⟨rfl, rfl⟩ := Prod.mk.inj he
  rw [proceed, had] at hstep
  obtain rfl := Option.some.inj hstep
  rcases hcase with ⟨a, ha, hJ⟩ | ⟨o, k, hop, -, hJ, hrest⟩
  · obtain rfl : q'' = .pure a := ha
    refine ⟨hJ, rfl, fun t ht => Function.update_of_ne ht _ _, fun q' hq' => ?_⟩
    simp only [Function.update_self] at hq'
    exact absurd hq' (Option.some_ne_none _).symm
  · obtain rfl : q'' = .op o k := hop
    refine ⟨hJ, rfl, fun t ht => Function.update_of_ne ht _ _, fun q' hq' w t' hw => ?_⟩
    simp only [Function.update_self] at hq'
    obtain ⟨r, rfl⟩ := exists_of_afterCallback hq'
    exact hrest r (w, t') hw

end Receiving

/-! ## Runs of calls -/

/-- **Both peers are up and `J` holds**, also for what is left of the receive
calls. -/
structure Kept (P : Peers) (J : World → Prop) (σ : PeerSys) : Prop where
  up : ∀ s, P.Up s (σ.drv s)
  world : J σ.world
  rest : ∀ s q, σ.rx s = some q → P.Resumes J s q

section Runs

variable {g : Manners} {J : World → Prop} {σ σ' : PeerSys}

theorem Fresh.kept (h : P.Fresh σ) (hJ : J σ.world) : P.Kept J σ where
  up := h.up
  world := hJ
  rest := fun s q hq => by
    rw [h.rx_eq s] at hq
    exact nomatch hq

/-- A call changes the world only. -/
theorem Kept.of_world (h : P.Kept J σ) {w : World} (hw : J w) : P.Kept J { σ with world := w } :=
  ⟨h.up, hw, h.rest⟩

theorem Kept.proceed (h : P.Kept J σ) {q : Drv ℕ}
    (hq : q.wp (Program.yielding (P.handle s) isCallback (World.deliver s) J) (fun _ => J) σ.world)
    (hstep : P.proceed s σ q = some σ') : P.Kept J σ' := by
  obtain ⟨hw, hdrv, hother, hrest⟩ := proceed_keeps hq hstep
  refine ⟨fun t => hdrv ▸ h.up t, hw, fun t q' hq' => ?_⟩
  by_cases hts : t = s
  · subst hts
    exact hrest q' hq'
  · rw [hother t hts] at hq'
    exact h.rest t q' hq'

/-- **An action keeps what its moves keep.** -/
theorem Kept.step (hpos : 0 < P.numChannels)
    (hsame : ∀ w shm', J w → P.SameRings w.shm shm' → J { w with shm := shm' })
    (hmoves : ∀ w, J w → ∃ L, P.Moves g J w L) (h : P.Kept J σ) {a : PeerAct}
    (ha : a.isCall = true) (hg : g.Minds σ.world a) (hstep : P.step σ a = some σ') :
    P.Kept J σ' := by
  have hrec : ∀ s, P.Receptive s J := fun s => ⟨hsame, fun w hw => by
    obtain ⟨L, hm⟩ := hmoves w hw
    exact Or.inr ⟨L, hm.rep, hm.receive s⟩⟩
  obtain ⟨L, hm⟩ := hmoves σ.world h.world
  cases a with
  | acquire s c memSize =>
    obtain ⟨⟨r, shm'⟩, hrun, rfl⟩ := Option.map_eq_some_iff.mp hstep
    exact h.of_world (hm.acquire_run h.world (h.up s) hrun)
  | tx s chanId buf size =>
    obtain ⟨⟨r, shm'⟩, hrun, rfl⟩ := Option.map_eq_some_iff.mp hstep
    exact h.of_world (hm.tx_run h.world (h.up s) size.toNat_lt hg hrun)
  | release s c buf =>
    obtain ⟨⟨r, shm'⟩, hrun, rfl⟩ := Option.map_eq_some_iff.mp hstep
    exact h.of_world (hm.release_run h.world (h.up s) hg hrun)
  | unmanagedTx s c =>
    obtain ⟨⟨r, shm'⟩, hrun, rfl⟩ := Option.map_eq_some_iff.mp hstep
    exact h.of_world (hsame _ _ h.world (unmanagedTx_run (h.up s) hrun))
  | rx s budget =>
    rw [Peers.step] at hstep
    split at hstep
    · exact nomatch hstep
    · exact h.proceed (ipcShmRx_wp (h.up s) (hrec s) budget.isLt hpos h.world) hstep
  | rxReturn s =>
    obtain ⟨q, hq, hstep⟩ := Option.bind_eq_some_iff.mp hstep
    exact h.proceed (h.rest s q hq σ.world h.world) hstep
  | free s => exact nomatch ha
  | crash s => exact nomatch ha
  | init s => exact nomatch ha

end Runs

end Peers
