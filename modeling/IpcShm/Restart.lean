import IpcShm.Ownership
import IpcShm.Delivery
import Mathlib.Logic.Relation

/-!
# Restarts

A peer can go away while the other one stays. It frees its instance, or it
crashes and loses its private data, and its application is lost in both
cases. Later it initializes again, next to a peer whose queues are as they
were, whose application may hold buffers of either side, and whose receive
call may be in the middle of a callback.

A peer that initializes pushes all its buffers again, and takes from the pool
queues of the other one the last descriptors that were pushed there, popped
or not. This is all the code does to sort out who owns what. It is enough
exactly when the application that stayed holds nothing, and when the buffers
it released are those that were acquired first, pool by pool
(`restart_oneOwner_iff`): what it took and kept is pushed again, and what was
released out of order stands in the ring twice.

With restarts of this kind, any number of them and of either peer, ownership
is exclusive in every state in which both peers are up (`restart_exclusive`),
and no message from before a restart arrives after it (`restart_in_order`).

While a peer is down the application it had is kept in the invariant as a
ghost, with the buffers it held; what the peer that stayed does is then one of
the moves of the system with two applications (`Peers.Orphaned`). After a free
there is nothing it can do (`Peers.Freed`).
-/

/-- An application that holds nothing. -/
def App.Gone (a : App) : Prop := a.acquired = (fun _ => []) ∧ a.delivered = fun _ => []

namespace Peers

variable {P : Peers} {s : Side} {d d' : Driver} {shm shm' : Shm} {c p : ℕ} {w : World}
  {T : Traffics}

/-! ## What a peer finds -/

/-- Buffers that were acquired or are free are buffers of the pool. -/
theorem Tracks.pushed_lt {snd rcv : App} {T : Traffic} (h : P.Tracks s c snd rcv T)
    (hp : P.Has (.pool c p)) : ∀ i ∈ T.acqs p ++ T.free p, i < P.numBufs c p := by
  intro i hi
  rcases List.mem_append.mp hi with hi | hi
  · have hpos : 0 < (P.shape.pool c p).bufSize.toNat := h.sized p (List.ne_nil_of_mem hi)
    have hmem : P.shape.bufOff c (p, i) ∈ P.ofPool c p (P.μ s).localShm (snd.acqs c) := by
      rw [h.acqs p hp]
      exact List.mem_map.mpr ⟨i, hi, rfl⟩
    have hin := (List.mem_filter.mp hmem).2
    simp only [decide_eq_true_eq] at hin
    have hlt := hin.2
    unfold IpcShmCfg.bufOff IpcShmPoolCfg.bufBytes at hlt
    exact Nat.lt_of_mul_lt_mul_right (Nat.lt_of_add_lt_add_left hlt)
  · exact h.inv.lt_of_mem_free hp.pool_lt hi

/-- The order of the releases, as the applications know it. -/
theorem Tracks.inOrder_iff {snd rcv : App} {T : Traffic} (h : P.Tracks s c snd rcv T)
    (hp : P.Has (.pool c p)) :
    (P.ofPool c p (P.μ s.other).remoteShm (rcv.rels c)).Perm
        ((P.ofPool c p (P.μ s).localShm (snd.acqs c)).take
          (P.ofPool c p (P.μ s.other).remoteShm (rcv.rels c)).length)
      ↔ (T.rels p).Perm ((T.acqs p).take (T.rels p).length) := by
  rw [h.rels p hp, h.acqs p hp, List.length_map, ← List.map_take]
  by_cases hnil : T.acqs p = []
  · have hle := h.inv.length_rels_le hp.pool_lt
    rw [hnil, List.length_nil, Nat.le_zero] at hle
    rw [List.length_eq_zero_iff.mp hle, hnil]
    exact Iff.rfl
  · have hpos : 0 < (P.shape.pool c p).bufSize.toNat := h.sized p hnil
    refine List.map_perm_map_iff (fun i j he => ?_)
    have he : P.shape.bufStart c p + i * (P.shape.pool c p).bufSize.toNat
        = P.shape.bufStart c p + j * (P.shape.pool c p).bufSize.toNat := he
    exact Nat.eq_of_mul_eq_mul_right hpos (Nat.add_left_cancel he)

/-- **What a peer that is down left behind**, for a world in which its
application lives on: the window of the other one is as it was there. -/
structure Left (P : Peers) (s : Side) (w : World) (a : App) (shm₀ : Shm) (T : Traffics) :
    Prop where
  acqs_eq : a.acqs = (w.app s).acqs
  owns : P.Owns { shm := shm₀, app := Function.update w.app s a } T
  header : (w.shm s.other).load 8 0 = (shm₀ s.other).load 8 0
  ring : ∀ id, P.Has id →
    (shm₀ s.other).SameOn (w.shm s.other) (P.off id) (ringBytes (P.cap id))

/-- The buffers that were pushed for a peer. -/
def pushedFor (T : Traffics) (s : Side) (c p : ℕ) : List ℕ := (T s c).acqs p ++ (T s c).free p

namespace Left

variable {a : App} {shm₀ : Shm}

theorem tracks (h : P.Left s w a shm₀ T) (hid : P.Has (.chan c)) :
    P.Tracks s c a (w.app s.other) (T s c) := by
  have htr := h.owns.tracks s c hid
  dsimp only at htr
  rwa [Function.update_self, Function.update_of_ne (Side.other_ne s)] at htr

theorem standing (h : P.Left s w a shm₀ T) : P.Standing (w.shm s.other) (pushedFor T s) where
  ready := h.header.trans (h.owns.rep.ready s.other)
  done := fun id hid => (h.ring id hid).sentinel.trans (h.owns.rep.done id hid s.other)
  read_lt := fun id hid => by
    rw [(h.ring id hid).readIdx]
    exact (h.owns.rep.holds id hid s).read_lt
  write_lt := fun c hid => by
    rw [(h.ring _ hid).writeIdx]
    exact (h.owns.rep.holds _ hid s.other).write_lt
  pushed := fun c p hid => (h.owns.remembers s c p hid).frame (h.ring _ hid)
  valid := fun _ _ hid => (h.tracks hid.chan).pushed_lt hid

/-- What is offered again: the last buffers that were pushed. -/
theorem offered (h : P.Left s w a shm₀ T) (hid : P.Has (.pool c p)) :
    (P.rejoined s (pushedFor T s) s c).free p
      = ((T s c).acqs p ++ (T s c).free p).drop ((T s c).rels p).length := by
  have hch : P.Has (.chan c) := hid.chan
  have hlen : (pushedFor T s c p).length = P.numBufs c p + ((T s c).rels p).length :=
    (h.tracks hch).inv.length_pushed hid.pool_lt
  simp only [rejoined, if_true]
  rw [hlen, Nat.add_sub_cancel_left]
  rfl

theorem length_offered (h : P.Left s w a shm₀ T) (hid : P.Has (.pool c p)) :
    ((P.rejoined s (pushedFor T s) s c).free p).length = P.numBufs c p := by
  have hch : P.Has (.chan c) := hid.chan
  have hlen := (h.tracks hch).inv.length_pushed hid.pool_lt
  rw [h.offered hid, List.length_drop, hlen, Nat.add_sub_cancel]

end Left

/-! ## Quiescence -/

/-- **The application that stayed is quiescent**: it holds nothing, and what it
released are the buffers that were acquired first, pool by pool. -/
structure Quiescent (P : Peers) (w : World) (s : Side) : Prop where
  idle : ∀ c, (w.app s.other).acquired c = [] ∧ (w.app s.other).delivered c = []
  inOrder : ∀ c p, P.Has (.pool c p) →
    (P.ofPool c p (P.μ s.other).remoteShm ((w.app s.other).rels c)).Perm
      ((P.ofPool c p (P.μ s).localShm ((w.app s).acqs c)).take
        (P.ofPool c p (P.μ s.other).remoteShm ((w.app s.other).rels c)).length)

/-- **What both applications have to do with each other.** -/
def Settled (P : Peers) (w : World) : Prop := P.AllOwned w ∧ P.ConveysAll w

/-- The world after a peer initialized. -/
def renewed (w : World) (shm : Shm) : World where
  shm := shm
  app := fun t => { acquired := (w.app t).acquired, delivered := (w.app t).delivered }

/-- Full pools remember the buffers they offer. -/
theorem Rep.remembers_of_full {L : Lanes} (h : P.Rep shm L)
    (hlen : ∀ s c p, P.Has (.pool c p) → ((L s c).free p).length = P.numBufs c p) :
    P.Remembers shm (fun s c => { free := (L s c).free }) := fun s c p hid => by
  have hring := h.holds (.pool c p) hid s.other
  simp only [Lanes.queues, Side.other_other] at hring
  refine RingHistory.of_full hring ?_
  rw [List.length_map]
  exact hlen s c p hid

namespace Left

variable {a : App} {shm₀ : Shm}

/-- **A quiescent application can go on** with a peer that starts again. -/
theorem settled (h : P.Left s w a shm₀ T) (hq : P.Quiescent w s) (hgone : (w.app s).Gone)
    (hrep : P.Rep shm (P.rejoined s (pushedFor T s))) : P.Settled (renewed w shm) := by
  have happ : ∀ t, (renewed w shm).app t = {} := fun t => by
    have hempty : (w.app t).acquired = (fun _ => []) ∧ (w.app t).delivered = fun _ => [] := by
      rcases Side.eq_or_eq_other s t with rfl | rfl
      · exact hgone
      · exact ⟨funext (fun c => (hq.idle c).1), funext (fun c => (hq.idle c).2)⟩
    unfold renewed
    dsimp only
    rw [hempty.1, hempty.2]
  have hfull : ∀ t c p, P.Has (.pool c p) →
      ((P.rejoined s (pushedFor T s) t c).free p).Perm (List.range (P.numBufs c p)) := by
    intro t c p hid
    have hch : P.Has (.chan c) := hid.chan
    rcases Side.eq_or_eq_other s t with rfl | rfl
    · rw [h.offered hid]
      have htr := h.tracks hch
      refine htr.inv.refill hid.pool_lt ((htr.inOrder_iff hid).mp ?_)
      rw [h.acqs_eq]
      exact hq.inOrder c p hid
    · simp only [rejoined, if_neg (Side.other_ne s)]
      exact List.Perm.refl _
  refine ⟨⟨fun t c => { free := (P.rejoined s (pushedFor T s) t c).free }, ⟨hrep,
    hrep.remembers_of_full (fun t c p hid => ?_), fun t c hid => ?_, fun t c _ => ?_⟩⟩,
    fun t c buf hbuf => ?_, _, hrep, fun t c _ => ⟨[], ?_, ?_⟩⟩
  · rw [(hfull t c p hid).length_eq, List.length_range]
  · rw [happ t, happ t.other]
    exact ⟨Traffic.Inv.fresh (fun p hp => hfull t c p (hid.pool hp)),
      fun _ hne => absurd rfl hne, rfl, rfl, fun _ _ => rfl, fun _ _ => rfl⟩
  · rw [happ t]
    exact ⟨rfl, rfl⟩
  · rw [happ t] at hbuf
    exact absurd hbuf List.not_mem_nil
  · rw [happ t]
    rfl
  · rw [happ t.other]
    rfl

end Left

/-! ## While a peer is down -/

/-- **A peer crashed.** Memory and the applications are those of a world in
which the application of the peer lives on. -/
def Orphaned (P : Peers) (s : Side) (w : World) : Prop :=
  ∃ a : App, a.acqs = (w.app s).acqs ∧ P.Settled (w.setApp s a)

/-- **A peer freed its instance.** -/
structure Freed (P : Peers) (s : Side) (w : World) : Prop where
  left : ∃ a shm₀ T, P.Left s w a shm₀ T
  notReady : (w.shm s).load 8 0 ≠ ipcShmStateReady
  deaf : P.Deaf s.other w.shm

theorem Orphaned.left (h : P.Orphaned s w) : ∃ a shm₀ T, P.Left s w a shm₀ T := by
  obtain ⟨a, ha, ⟨T, hown⟩, -⟩ := h
  exact ⟨a, w.shm, T, ha, hown, rfl, fun _ _ => ByteMem.SameOn.refl _ _ _⟩

theorem Settled.frame (h : P.Settled w) (hs : P.SameRings w.shm shm') :
    P.Settled { w with shm := shm' } := by
  obtain ⟨⟨T, hown⟩, hacq, L, hrep, hconv⟩ := h
  exact ⟨⟨T, hown.frame hs⟩, hacq, L, hrep.frame hs, hconv⟩

theorem Orphaned.frame (h : P.Orphaned s w) (hs : P.SameRings w.shm shm') :
    P.Orphaned s { w with shm := shm' } := by
  obtain ⟨a, ha, hset⟩ := h
  exact ⟨a, ha, hset.frame hs⟩

theorem Freed.frame (h : P.Freed s w) (hs : P.SameRings w.shm shm') :
    P.Freed s { w with shm := shm' } := by
  obtain ⟨a, shm₀, T, hleft⟩ := h.left
  refine ⟨⟨a, shm₀, T, hleft.acqs_eq, hleft.owns, (hs.header _).trans hleft.header,
    fun id hid b hb hb' => (hs.ring id hid s.other b hb hb').trans (hleft.ring id hid b hb hb')⟩,
    ?_, fun c hid => ?_⟩
  · dsimp only
    rw [hs.header s]
    exact h.notReady
  · have hsent := (hs.ring _ hid s.other.other).sentinel
    dsimp only
    rw [hsent]
    exact h.deaf c hid

section Moves

variable {drv : Side → Driver} (hup : ∀ s, P.Up s (drv s))

include hup

/-- The moves of two applications. -/
theorem Settled.moves (h : P.Settled w) : ∃ L, P.Moves P.owners P.Settled w L := by
  obtain ⟨⟨T, hown⟩, hconv⟩ := h
  obtain ⟨L', hconv⟩ := hconv.moves hup
  refine ⟨T.lanes, Moves.and (hown.moves hup (fun w' T' h' => ⟨T', h'⟩)) hconv hup
    (fun s buf hg => ?_) (fun _ _ _ => trivial)⟩
  obtain ⟨c, hc, hbuf⟩ := hg
  exact ⟨c, hc, hown.mem_acqs hbuf⟩

/-- What an application that stayed may do. -/
def stayers (P : Peers) (s : Side) : Manners where
  tx := fun t w buf => t ≠ s ∧ P.owners.tx t w buf
  release := fun t w buf => t ≠ s ∧ P.owners.release t w buf

omit hup in
/-- What happens to an application happens to its ghost. -/
theorem Orphaned.of_ghost {a : App} (ha : a.acqs = (w.app s).acqs) {t : Side} {f : App → App}
    (hf : ∀ b b' : App, b.acqs = b'.acqs → (f b).acqs = (f b').acqs)
    (h : P.Settled ({ w.setApp s a with shm := shm' }.setApp t (f ((w.setApp s a).app t)))) :
    P.Orphaned s ({ w with shm := shm' }.setApp t (f (w.app t))) := by
  unfold World.setApp at h
  dsimp only at h
  by_cases hts : t = s
  · subst hts
    rw [Function.update_self, Function.update_idem] at h
    refine ⟨f a, ?_, ?_⟩
    · simp only [World.setApp, Function.update_self]
      exact hf _ _ ha
    · simp only [World.setApp, Function.update_idem]
      exact h
  · rw [Function.update_of_ne hts, Function.update_comm (Ne.symm hts)] at h
    refine ⟨a, ?_, h⟩
    simp only [World.setApp, Function.update_of_ne (Ne.symm hts)]
    exact ha

/-- The moves of one application and of a ghost. -/
theorem Orphaned.moves (h : P.Orphaned s w) :
    ∃ L, P.Moves (P.stayers s) (P.Orphaned s) w L := by
  obtain ⟨a, ha, hset⟩ := h
  obtain ⟨L, hm⟩ := hset.moves hup
  have happ : ∀ t, t ≠ s → (w.setApp s a).app t = w.app t := fun t ht =>
    Function.update_of_ne ht _ _
  refine ⟨L, hm.rep, fun t c p i rest hid hpos hf => ?_,
    fun t c x buf size hg hx hin hsize hroom => ?_, fun t c msg rest hid ht => ?_,
    fun t c x buf hg hx hin hroom => ?_⟩
  · exact Orphaned.of_ghost ha (f := (·.acquire c (P.localBuf t c (p, i))))
      (fun b b' hb => by simp only [App.acquire, hb]) (hm.acquire t c p i rest hid hpos hf)
  · obtain ⟨hts, c', hc', hbuf⟩ := hg
    have hg' : P.owners.tx t (w.setApp s a) buf := ⟨c', hc', by rw [happ t hts]; exact hbuf⟩
    exact Orphaned.of_ghost ha (f := (·.transmit c buf size)) (fun _ _ hb => hb)
      (hm.send t c x buf size hg' hx hin hsize hroom)
  · exact Orphaned.of_ghost ha (f := (·.receive c (P.remoteBuf t c msg.buf) msg.size))
      (fun _ _ hb => hb) (hm.receive t c msg rest hid ht)
  · obtain ⟨hts, c', hc', hbuf⟩ := hg
    have hg' : P.owners.release t (w.setApp s a) buf := ⟨c', hc', by rw [happ t hts]; exact hbuf⟩
    exact Orphaned.of_ghost ha (f := (·.release c buf)) (fun _ _ hb => hb)
      (hm.release t c x buf hg' hx hin hroom)

end Moves

/-! ### Calls next to a peer that freed its instance -/

section FreedCalls

variable (hup : P.Up s d)

include hup

theorem isRemoteReady_run_notReady (h : (shm s.other).load 8 0 ≠ ipcShmStateReady) :
    ∃ r, r ≠ 0 ∧
      (ipcShmIsRemoteReady d (P.inst s)).run (memHandle (P.μ s) s) shm = some (r, shm) := by
  have hload : memHandle (P.μ s) s (.load 8 ((P.μ s).remoteShm + 0)) shm
      = some ((shm s.other).load 8 0, shm) :=
    memHandle_load_remote (by have := P.header_le s; omega) (by decide)
  rw [Nat.add_zero] at hload
  rw [ipcShmIsRemoteReady, Program.run_bind_of (ipcInstanceIsFree_run hup.laid hup.inst_lt
    (P.header_le s))]
  split
  · exact ⟨-EINVAL, by decide, rfl⟩
  · refine ⟨-EAGAIN, by decide, ?_⟩
    rw [if_neg (not_not.mpr rfl), hup.os_eq, load64_bind,
      show (P.μ s).os.remoteShm = (P.μ s).remoteShm from rfl,
      Program.run_op_of hload, if_pos h]
    rfl

theorem acquire_run_notReady (h : (shm s.other).load 8 0 ≠ ipcShmStateReady) (memSize : ℕ) :
    (ipcShmAcquireBuf d (P.inst s) c memSize).run (memHandle (P.μ s) s) shm = some (0, shm) := by
  obtain ⟨r, hr, hrun⟩ := isRemoteReady_run_notReady hup h
  rw [ipcShmAcquireBuf, Program.run_bind_of hrun, if_pos hr]
  rfl

theorem tx_run_notReady (h : (shm s.other).load 8 0 ≠ ipcShmStateReady) (chanId : ℤ)
    (buf size : ℕ) :
    (ipcShmTx d (P.inst s) chanId buf size).run (memHandle (P.μ s) s) shm
      = some (-EINVAL, shm) := by
  obtain ⟨r, hr, hrun⟩ := isRemoteReady_run_notReady hup h
  rw [ipcShmTx, Program.run_bind_of hrun, if_pos hr]
  rfl

theorem release_run_deaf (h : P.Deaf s shm) (buf : ℕ) :
    (ipcShmReleaseBuf d (P.inst s) c buf).run (memHandle (P.μ s) s) shm
      = some (-EINVAL, shm) := by
  rw [ipcShmReleaseBuf, Program.run_bind_of (ipcInstanceIsFree_run hup.laid hup.inst_lt
    (P.header_le s))]
  split
  · rfl
  rw [if_neg (not_not.mpr rfl)]
  cases hget : getManagedChan d (P.inst s) c with
  | none => rfl
  | some chan =>
    obtain ⟨hid, rfl⟩ := hup.getManagedChan hget
    dsimp only
    split
    · rfl
    have hint := ipcQueueCheckIntegrity_run_deaf (s := s) (hup.queue_at hid) (h c hid)
    have hcheck : (ipcCheckMchanIntegrity ((d.priv (P.inst s)).channels c).mng).run
        (memHandle (P.μ s) s) shm = some (-EINVAL, shm) := by
      rw [ipcCheckMchanIntegrity, show ((d.priv (P.inst s)).channels c).mng.bdQueue
        = (d.priv (P.inst s)).queue (.chan c) from rfl, Program.run_bind_of hint,
        if_neg (by decide)]
      rfl
    rw [Program.run_bind_of hcheck, if_pos (by decide)]
    rfl

end FreedCalls

end Peers

/-! ## The system with restarts -/

/-- The peer an action is of. -/
def PeerAct.side : PeerAct → Side
  | .acquire s _ _ => s
  | .tx s _ _ _ => s
  | .release s _ _ => s
  | .unmanagedTx s _ => s
  | .rx s _ => s
  | .rxReturn s => s
  | .free s => s
  | .crash s => s
  | .init s => s

namespace Peers

variable {P : Peers} {s : Side} {σ σ' : PeerSys}

/-- The instance of a peer is not in use. -/
def Down (P : Peers) (σ : PeerSys) (s : Side) : Prop :=
  ((σ.drv s).priv (P.inst s)).global = 0

instance decidable_down (P : Peers) (σ : PeerSys) (s : Side) : Decidable (P.Down σ s) :=
  inferInstanceAs (Decidable (_ = _))

/-- **Calls, and restarts next to a quiescent application.** A peer goes away
when both are up, and comes back when the other one is. -/
inductive RestartStep (P : Peers) (σ : PeerSys) : PeerSys → Prop where
  | call {a : PeerAct} {σ' : PeerSys} (hcall : a.isCall = true) (hup : ¬P.Down σ a.side)
      (hg : P.owners.Minds σ.world a) (hstep : P.step σ a = some σ') : RestartStep P σ σ'
  | free {s : Side} {σ' : PeerSys} (hup : ∀ t, ¬P.Down σ t)
      (hstep : P.step σ (.free s) = some σ') : RestartStep P σ σ'
  | crash {s : Side} {σ' : PeerSys} (hup : ∀ t, ¬P.Down σ t)
      (hstep : P.step σ (.crash s) = some σ') : RestartStep P σ σ'
  | init {s : Side} {σ' : PeerSys} (hdown : P.Down σ s) (hup : ¬P.Down σ s.other)
      (hq : P.Quiescent σ.world s) (hstep : P.step σ (.init s) = some σ') : RestartStep P σ σ'

/-- What the system is in the middle of. -/
inductive Phase where
  | both
  | crashed (s : Side)
  | freed (s : Side)

/-- The peers that are up. -/
def Phase.IsUp : Phase → Side → Prop
  | .both, _ => True
  | .crashed s, t => t ≠ s
  | .freed s, t => t ≠ s

/-- The invariant of a phase. -/
def Phased (P : Peers) : Phase → World → Prop
  | .both => P.Settled
  | .crashed s => P.Orphaned s
  | .freed s => P.Freed s

/-- It, while a peer is up. -/
def PhasedUp (P : Peers) (s : Side) (ph : Phase) (w : World) : Prop := ph.IsUp s ∧ P.Phased ph w

theorem Phased.frame {ph : Phase} {w : World} {shm' : Shm} (h : P.Phased ph w)
    (hs : P.SameRings w.shm shm') : P.Phased ph { w with shm := shm' } := by
  cases ph with
  | both => exact Settled.frame h hs
  | crashed s => exact Orphaned.frame h hs
  | freed s => exact Freed.frame h hs

/-- **What an application that is up may do in a phase** leads to the phase. -/
theorem phased_receptive {drv : Side → Driver} (hup : ∀ s, P.Up s (drv s)) (s : Side)
    (ph : Phase) : P.Receptive s (P.PhasedUp s ph) := by
  refine ⟨fun w shm' h hs => ⟨h.1, h.2.frame hs⟩, fun w h => ?_⟩
  obtain ⟨hisUp, hph⟩ := h
  cases ph with
  | both =>
    obtain ⟨L, hm⟩ := Settled.moves hup hph
    exact Or.inr ⟨L, hm.rep, fun c msg rest hid ht => ⟨hisUp, hm.receive s c msg rest hid ht⟩⟩
  | crashed s₀ =>
    obtain ⟨L, hm⟩ := Orphaned.moves hup hph
    exact Or.inr ⟨L, hm.rep, fun c msg rest hid ht => ⟨hisUp, hm.receive s c msg rest hid ht⟩⟩
  | freed s₀ =>
    rcases Side.eq_or_eq_other s₀ s with rfl | rfl
    · exact absurd rfl hisUp
    · exact Or.inl (Freed.deaf hph)

/-- **What is left of a receive call** goes on in any phase in which the peer is
up. -/
def Resumable (P : Peers) (s : Side) (q : Drv ℕ) : Prop :=
  ∀ w ph, P.PhasedUp s ph w →
    q.wp (P.rxReading s (P.PhasedUp s)) (fun _ x => P.PhasedUp s x.2 x.1) (w, ph)

/-- **The invariant of the system in a phase.** -/
structure InPhase (P : Peers) (ph : Phase) (σ : PeerSys) : Prop where
  up : ∀ s, ph.IsUp s → P.Up s (σ.drv s)
  down : ∀ s, ¬ph.IsUp s → P.Down σ s ∧ σ.rx s = none ∧ (σ.world.app s).Gone
  world : P.Phased ph σ.world
  rest : ∀ s q, σ.rx s = some q → P.Resumable s q

theorem Up.not_down (h : P.Up s (σ.drv s)) : ¬P.Down σ s := by
  unfold Down
  rw [h.global_eq]
  exact Nat.pos_iff_ne_zero.mp (P.μ s).localShm_pos

theorem InPhase.isUp_iff {ph : Phase} (h : P.InPhase ph σ) : ph.IsUp s ↔ ¬P.Down σ s := by
  refine ⟨fun hs => (h.up s hs).not_down, fun hs => ?_⟩
  by_contra hn
  exact hs (h.down s hn).1

theorem Started.inPhase (h : P.Started σ) : P.InPhase .both σ := by
  have hfresh := h.fresh
  refine ⟨fun s _ => hfresh.up s, fun s hs => absurd trivial hs,
    ⟨⟨_, hfresh.owns⟩, hfresh.conveysAll⟩, fun s q hq => ?_⟩
  rw [hfresh.rx_eq s] at hq
  exact absurd hq (Option.some_ne_none _).symm

/-! ### Calls -/

section Calls

variable {drv : Side → Driver} (hdrv : ∀ s, P.Up s (drv s)) {ph : Phase}

/-- A call changes the world only. -/
theorem InPhase.of_world (h : P.InPhase ph σ) {w : World} (hw : P.Phased ph w)
    (happ : ∀ s, ¬ph.IsUp s → w.app s = σ.world.app s) : P.InPhase ph { σ with world := w } :=
  ⟨h.up, fun s hs => by rw [happ s hs]; exact h.down s hs, hw, h.rest⟩

/-- Running memory requests changes no application. -/
theorem advance_app {q q' : Drv ℕ} {w w' : World} {y : Op → Bool}
    (had : q.advance (P.handle s) y w = some (q', w')) : w'.app = w.app :=
  (Program.Always.advance_related (E := fun _ _ => True) (T := fun w w' : World => w'.app = w.app)
    (fun _ _ _ _ _ => trivial) (fun _ => rfl) (fun _ _ _ h h' => h'.trans h)
    (fun o w r w' _ hr => by
      obtain ⟨r', -, he⟩ := Option.map_eq_some_iff.mp hr
      obtain ⟨-, rfl⟩ := Prod.mk.inj he
      rfl) (Program.Always.trivial q) had).1

theorem proceed_app {q : Drv ℕ} (hstep : P.proceed s σ q = some σ') {t : Side} (ht : t ≠ s) :
    σ'.world.app t = σ.world.app t := by
  obtain ⟨⟨q', w'⟩, had, rfl⟩ := Option.map_eq_some_iff.mp hstep
  have happ := advance_app had
  cases q' with
  | pure a => exact congrFun happ t
  | op o k =>
    cases o with
    | rxCb _ _ _ _ _ _ => exact (Function.update_of_ne ht _ _).trans (congrFun happ t)
    | _ => exact congrFun happ t

/-- A receive call goes on. -/
theorem InPhase.proceed (h : P.InPhase ph σ) (hs : ph.IsUp s) {q : Drv ℕ} (hq : P.Resumable s q)
    (hstep : P.proceed s σ q = some σ') : P.InPhase ph σ' := by
  obtain ⟨hw, hd, hrx, hrest⟩ := proceed_resumable (hq σ.world ph ⟨hs, h.world⟩) hstep
  have hne : ∀ {t}, ¬ph.IsUp t → t ≠ s := fun ht he => ht (he ▸ hs)
  refine ⟨fun t ht => hd ▸ h.up t ht, fun t ht => ?_, hw.2, fun t q' hq' => ?_⟩
  · obtain ⟨hdown, hnone, hgone⟩ := h.down t ht
    refine ⟨?_, (hrx t (hne ht)).trans hnone, ?_⟩
    · unfold Down
      rw [hd]
      exact hdown
    · rw [proceed_app hstep (hne ht)]
      exact hgone
  · by_cases hts : t = s
    · subst hts
      exact hrest q' hq'
    · rw [hrx t hts] at hq'
      exact h.rest t q' hq'

/-- A call of an application that is up, but not of a receive call. -/
theorem Moves.call {g : Manners} {J : World → Prop} {L : Lanes} (hm : P.Moves g J σ.world L)
    (hw : J σ.world) {a : PeerAct} (hcall : a.isCall = true) (hrx : a ≠ .rxReturn a.side)
    (hrx' : ∀ b, a ≠ .rx a.side b) (hup : P.Up a.side (σ.drv a.side))
    (hsame : ∀ shm', P.SameRings σ.world.shm shm' → J { σ.world with shm := shm' })
    (hg : g.Minds σ.world a) (hstep : P.step σ a = some σ') :
    ∃ w, σ' = { σ with world := w } ∧ J w ∧ ∀ t, t ≠ a.side → w.app t = σ.world.app t := by
  cases a with
  | acquire s c memSize =>
    obtain ⟨⟨r, shm'⟩, hrun, rfl⟩ := Option.map_eq_some_iff.mp hstep
    refine ⟨_, rfl, hm.acquire_run hw hup hrun, fun t ht => ?_⟩
    dsimp only
    split
    · rfl
    · exact Function.update_of_ne ht _ _
  | tx s chanId buf size =>
    obtain ⟨⟨r, shm'⟩, hrun, rfl⟩ := Option.map_eq_some_iff.mp hstep
    refine ⟨_, rfl, hm.tx_run hw hup size.toNat_lt hg hrun, fun t ht => ?_⟩
    dsimp only
    split
    · rfl
    · exact Function.update_of_ne ht _ _
  | release s c buf =>
    obtain ⟨⟨r, shm'⟩, hrun, rfl⟩ := Option.map_eq_some_iff.mp hstep
    refine ⟨_, rfl, hm.release_run hw hup hg hrun, fun t ht => ?_⟩
    dsimp only
    split
    · rfl
    · exact Function.update_of_ne ht _ _
  | unmanagedTx s c =>
    obtain ⟨⟨r, shm'⟩, hrun, rfl⟩ := Option.map_eq_some_iff.mp hstep
    exact ⟨_, rfl, hsame _ (unmanagedTx_run hup hrun), fun _ _ => rfl⟩
  | rx s budget => exact absurd rfl (hrx' budget)
  | rxReturn s => exact absurd rfl hrx
  | free s => exact absurd hcall Bool.false_ne_true
  | crash s => exact absurd hcall Bool.false_ne_true
  | init s => exact absurd hcall Bool.false_ne_true

/-- **Next to a peer that freed its instance** calls fail, and change nothing
that matters. -/
theorem Freed.call (h : P.Freed s σ.world) {a : PeerAct} (hside : a.side = s.other)
    (hcall : a.isCall = true) (hrx : a ≠ .rxReturn a.side) (hrx' : ∀ b, a ≠ .rx a.side b)
    (hup : P.Up a.side (σ.drv a.side)) (hstep : P.step σ a = some σ') :
    ∃ w, σ' = { σ with world := w } ∧ P.Freed s w ∧
      ∀ t, t ≠ a.side → w.app t = σ.world.app t := by
  have hready : (σ.world.shm a.side.other).load 8 0 ≠ ipcShmStateReady := by
    rw [hside, Side.other_other]
    exact h.notReady
  have hdeaf : P.Deaf a.side σ.world.shm := hside ▸ h.deaf
  cases a with
  | acquire t c memSize =>
    obtain ⟨⟨r, shm'⟩, hrun, rfl⟩ := Option.map_eq_some_iff.mp hstep
    obtain ⟨rfl, rfl⟩ := Prod.mk.inj
      (Option.some.inj (hrun.symm.trans (acquire_run_notReady hup hready memSize)))
    exact ⟨σ.world, rfl, h, fun _ _ => rfl⟩
  | tx t chanId buf size =>
    obtain ⟨⟨r, shm'⟩, hrun, rfl⟩ := Option.map_eq_some_iff.mp hstep
    obtain ⟨rfl, rfl⟩ := Prod.mk.inj
      (Option.some.inj (hrun.symm.trans (tx_run_notReady hup hready chanId buf size.toNat)))
    exact ⟨σ.world, rfl, h, fun _ _ => rfl⟩
  | release t c buf =>
    obtain ⟨⟨r, shm'⟩, hrun, rfl⟩ := Option.map_eq_some_iff.mp hstep
    obtain ⟨rfl, rfl⟩ := Prod.mk.inj
      (Option.some.inj (hrun.symm.trans (release_run_deaf hup hdeaf buf)))
    exact ⟨σ.world, rfl, h, fun _ _ => rfl⟩
  | unmanagedTx t c =>
    obtain ⟨⟨r, shm'⟩, hrun, rfl⟩ := Option.map_eq_some_iff.mp hstep
    exact ⟨_, rfl, h.frame (unmanagedTx_run hup hrun), fun _ _ => rfl⟩
  | rx t budget => exact absurd rfl (hrx' budget)
  | rxReturn t => exact absurd rfl hrx
  | free t => exact absurd hcall Bool.false_ne_true
  | crash t => exact absurd hcall Bool.false_ne_true
  | init t => exact absurd hcall Bool.false_ne_true

include hdrv

/-- **A call of a peer that is up** keeps the phase. -/
theorem InPhase.call (hpos : 0 < P.numChannels) (h : P.InPhase ph σ) {a : PeerAct}
    (hcall : a.isCall = true) (hside : ph.IsUp a.side) (hg : P.owners.Minds σ.world a)
    (hstep : P.step σ a = some σ') : P.InPhase ph σ' := by
  have hup := h.up a.side hside
  have hne : ∀ t, ¬ph.IsUp t → t ≠ a.side := fun t ht he => ht (he ▸ hside)
  by_cases hret : a = .rxReturn a.side
  · rw [hret] at hstep
    obtain ⟨q, hq, hstep⟩ := Option.bind_eq_some_iff.mp hstep
    exact h.proceed hside (h.rest _ q hq) hstep
  by_cases hrx : ∃ b, a = .rx a.side b
  · obtain ⟨budget, hrx⟩ := hrx
    rw [hrx, Peers.step] at hstep
    split at hstep
    · exact absurd hstep (Option.some_ne_none _).symm
    · exact h.proceed hside (fun w ph hw => ipcShmRx_resumable hup
        (phased_receptive hdrv a.side) budget.isLt hpos hw) hstep
  have hrx' : ∀ b, a ≠ .rx a.side b := fun b he => hrx ⟨b, he⟩
  obtain ⟨w, rfl, hw, happ⟩ : ∃ w, σ' = { σ with world := w } ∧ P.Phased ph w ∧
      ∀ t, t ≠ a.side → w.app t = σ.world.app t := by
    have hworld := h.world
    cases ph with
    | both =>
      obtain ⟨L, hm⟩ := Settled.moves hdrv hworld
      exact hm.call hworld hcall hret hrx' hup (fun _ hs => Settled.frame hworld hs) hg hstep
    | crashed s₀ =>
      obtain ⟨L, hm⟩ := Orphaned.moves hdrv hworld
      refine hm.call hworld hcall hret hrx' hup (fun _ hs => Orphaned.frame hworld hs) ?_ hstep
      cases a with
      | tx t chanId buf size => exact ⟨hside, hg⟩
      | release t c buf => exact ⟨hside, hg⟩
      | _ => trivial
    | freed s₀ =>
      have hother : a.side = s₀.other := (Side.eq_or_eq_other s₀ a.side).resolve_left hside
      exact Freed.call hworld hother hcall hret hrx' hup hstep
  exact h.of_world hw (fun t ht => happ t (hne t ht))

end Calls

/-! ### Going and coming -/

theorem App.gone_lose (a : App) : a.lose.Gone := ⟨rfl, rfl⟩

/-- What is left of the receive calls of the other peer. -/
theorem rest_update {r : Side → Option (Drv ℕ)} (h : ∀ s q, r s = some q → P.Resumable s q) :
    ∀ t q, Function.update r s none t = some q → P.Resumable t q := by
  intro t q hq
  by_cases hts : t = s
  · subst hts
    rw [Function.update_self] at hq
    exact absurd hq (Option.some_ne_none _).symm
  · rw [Function.update_of_ne hts] at hq
    exact h t q hq

/-- **A crash.** -/
theorem InPhase.crash (h : P.InPhase .both σ) (hstep : P.step σ (.crash s) = some σ') :
    P.InPhase (.crashed s) σ' := by
  obtain rfl := Option.some.inj hstep
  refine ⟨fun t ht => ?_, fun t ht => ?_, ⟨σ.world.app s, ?_, ?_⟩, rest_update h.rest⟩
  · dsimp only
    rw [Function.update_of_ne ht]
    exact h.up t trivial
  · obtain rfl : t = s := not_not.mp ht
    unfold Down
    simp only [Function.update_self]
    exact ⟨trivial, trivial, App.gone_lose _⟩
  · simp only [Function.update_self]
    rfl
  · simp only [World.setApp, Function.update_idem, Function.update_eq_self]
    exact h.world

/-- **A free.** -/
theorem InPhase.free (h : P.InPhase .both σ) (hstep : P.step σ (.free s) = some σ') :
    P.InPhase (.freed s) σ' := by
  rw [Peers.step] at hstep
  split at hstep
  · exact absurd hstep (Option.some_ne_none _).symm
  rename_i hrx
  obtain ⟨⟨d', shm'⟩, hrun, rfl⟩ := Option.map_eq_some_iff.mp hstep
  have hup := h.up s trivial
  have hset : P.Settled σ.world := h.world
  obtain ⟨⟨T, hown⟩, -⟩ := hset
  have hsym := P.symmetric_shape s
  obtain ⟨hother, hclear, hsent, hglobal⟩ := ipcShmFreeInstance_run (P.size_eq s ▸ P.fits s)
    hup.laid hup.inst_lt (hown.rep.ready s)
    (fun c hid => by
      rw [hsym.chanOff_eq (Nat.le_of_lt hid.1)]
      exact hown.rep.done (.chan c) (hsym.hasQueue hid) s) hrun
  refine ⟨fun t ht => ?_, fun t ht => ?_,
    ⟨⟨σ.world.app s, σ.world.shm, T, ?_⟩, ?_, fun c hid => ?_⟩,
    h.rest⟩
  · dsimp only
    rw [Function.update_of_ne ht]
    exact h.up t trivial
  · obtain rfl : t = s := not_not.mp ht
    unfold Down
    simp only [Function.update_self]
    exact ⟨hglobal, Option.not_isSome_iff_eq_none.mp hrx, App.gone_lose _⟩
  · refine ⟨?_, ?_, ?_, fun id hid => ?_⟩
    · simp only [Function.update_self]
      rfl
    · simp only [Function.update_idem, Function.update_eq_self]
      exact hown
    · dsimp only
      rw [hother]
    · dsimp only
      rw [hother]
      exact ByteMem.SameOn.refl _ _ _
  · dsimp only
    rw [hclear]
    decide
  · have hid' := (P.shape_symmetric s).hasQueue hid
    have hzero := hsent c hid'
    rw [hsym.chanOff_eq (Nat.le_of_lt hid'.1)] at hzero
    have hzero : (shm' s).sentinel (P.off (.chan c)) = 0 := hzero
    rw [Side.other_other]
    dsimp only
    rw [hzero]
    decide

/-- What the other peer left, and what it finds. -/
theorem InPhase.left {ph : Phase} (h : P.InPhase ph σ) (hs : ¬ph.IsUp s) :
    ∃ a shm₀ T, P.Left s σ.world a shm₀ T := by
  have hworld := h.world
  cases ph with
  | both => exact absurd trivial hs
  | crashed s₀ =>
    obtain rfl : s = s₀ := not_not.mp hs
    exact Orphaned.left hworld
  | freed s₀ =>
    obtain rfl : s = s₀ := not_not.mp hs
    exact Freed.left hworld

/-- The state after a peer initialized again. -/
theorem init_eq (hstep : P.step σ (.init s) = some σ') : ∃ d' shm',
    (ipcShmInitInstance (σ.drv s) (P.inst s) (some (P.cfg s))).run (memHandle (P.μ s) s)
        σ.world.shm = some ((0, d'), shm') ∧
      σ' = { σ with world := renewed σ.world shm', drv := Function.update σ.drv s d' } := by
  obtain ⟨⟨⟨err, d'⟩, shm'⟩, hrun, hstep⟩ := Option.bind_eq_some_iff.mp hstep
  dsimp only at hstep
  split at hstep
  · exact absurd hstep (Option.some_ne_none _).symm
  · rename_i herr
    obtain rfl : err = 0 := not_not.mp herr
    exact ⟨d', shm', hrun, (Option.some.inj hstep).symm⟩

/-- **An initialization next to a quiescent application.** -/
theorem InPhase.init {ph : Phase} (h : P.InPhase ph σ) (hs : ¬ph.IsUp s) (hother : ph.IsUp s.other)
    (hq : P.Quiescent σ.world s) (hstep : P.step σ (.init s) = some σ') : P.InPhase .both σ' := by
  obtain ⟨a, shm₀, T, hleft⟩ := h.left hs
  obtain ⟨d', shm', hrun, rfl⟩ := init_eq hstep
  obtain ⟨hup, -, -, hrep⟩ := init_joins hleft.standing hrun
  refine ⟨fun t _ => ?_, fun t ht => absurd trivial ht,
    hleft.settled hq (h.down s hs).2.2 hrep, h.rest⟩
  rcases Side.eq_or_eq_other s t with rfl | rfl
  · dsimp only
    rw [Function.update_self]
    exact hup
  · dsimp only
    rw [Function.update_of_ne (Side.other_ne s)]
    exact h.up _ hother

/-- **A step from phase to phase.** -/
theorem InPhase.step {drv : Side → Driver} (hdrv : ∀ s, P.Up s (drv s)) (hpos : 0 < P.numChannels)
    {ph : Phase} (h : P.InPhase ph σ) (hs : P.RestartStep σ σ') : ∃ ph', P.InPhase ph' σ' := by
  have hboth : (∀ t, ¬P.Down σ t) → P.InPhase .both σ := by
    intro hup
    have hall : ∀ t, ph.IsUp t := fun t => h.isUp_iff.mpr (hup t)
    cases ph with
    | both => exact h
    | crashed s₀ => exact absurd rfl (hall s₀)
    | freed s₀ => exact absurd rfl (hall s₀)
  cases hs with
  | call hcall hup hg hstep => exact ⟨ph, h.call hdrv hpos hcall (h.isUp_iff.mpr hup) hg hstep⟩
  | free hup hstep => exact ⟨_, (hboth hup).free hstep⟩
  | crash hup hstep => exact ⟨_, (hboth hup).crash hstep⟩
  | init hdown hup hq hstep =>
    exact ⟨_, h.init (fun hs => h.isUp_iff.mp hs hdown) (h.isUp_iff.mpr hup) hq hstep⟩

/-- **Every state reached is in a phase.** -/
theorem Started.reaches {σ₀ : PeerSys} (hstart : P.Started σ₀)
    (hr : Relation.ReflTransGen P.RestartStep σ₀ σ) : ∃ ph, P.InPhase ph σ := by
  have hfresh := hstart.fresh
  induction hr with
  | refl => exact ⟨_, hstart.inPhase⟩
  | tail _ hs ih =>
    obtain ⟨ph, h⟩ := ih
    exact h.step hfresh.up hfresh.numChannels_pos hs

/-- With both peers up it is that of two applications. -/
theorem Started.settled {σ₀ : PeerSys} (hstart : P.Started σ₀)
    (hr : Relation.ReflTransGen P.RestartStep σ₀ σ) (hup : ∀ s, ¬P.Down σ s) :
    P.Settled σ.world ∧ ∀ s, P.Up s (σ.drv s) := by
  obtain ⟨ph, h⟩ := hstart.reaches hr
  have hall : ∀ s, ph.IsUp s := fun s => h.isUp_iff.mpr (hup s)
  refine ⟨?_, fun s => h.up s (hall s)⟩
  cases ph with
  | both => exact h.world
  | crashed s₀ => exact absurd rfl (hall s₀)
  | freed s₀ => exact absurd rfl (hall s₀)

end Peers

/-! ## Exclusive ownership, in order -/

/-- **Ownership is exclusive across restarts.** Two peers start, and their
applications pass on only what they own. While both are up, either peer may
crash, in a callback of its own or of the other one, or free its instance,
though not from a callback of its own. It initializes again once the application
of the other one, which stays up, is quiescent. In every state they reach in
which both are up, every buffer has one owner. -/
theorem restart_exclusive (P : Peers) {σ₀ σ : PeerSys} (hstart : P.Started σ₀)
    (hr : Relation.ReflTransGen P.RestartStep σ₀ σ) (hup : ∀ s, ¬P.Down σ s) : P.OneOwner σ := by
  obtain ⟨⟨⟨T, hown⟩, -⟩, hdrv⟩ := hstart.settled hr hup
  exact hown.oneOwner hdrv

/-- **No message survives a restart, and none is lost between two.** In every
such state the messages received on a channel since the last restart are, in
order, the first of those sent since, and the others wait in the queue. -/
theorem restart_in_order (P : Peers) {σ₀ σ : PeerSys} (hstart : P.Started σ₀)
    (hr : Relation.ReflTransGen P.RestartStep σ₀ σ) (hup : ∀ s, ¬P.Down σ s) (s : Side) (c : ℕ)
    (hid : P.Has (.chan c)) : P.InOrder σ s c := by
  obtain ⟨⟨-, hconv⟩, hdrv⟩ := hstart.settled hr hup
  exact hconv.inOrder (hdrv s) hid

namespace Peers

variable {P : Peers}

/-- The calls between restarts, of peers that are up. -/
def callStep (P : Peers) (σ : PeerSys) (a : PeerAct) : Option PeerSys :=
  if a.isCall = true ∧ ¬P.Down σ a.side ∧ P.owners.Minds σ.world a then P.step σ a else none

theorem restartSteps_of_calls {σ σ' : PeerSys} (h : Steps.Reach P.callStep σ σ') :
    Relation.ReflTransGen P.RestartStep σ σ' := by
  induction h with
  | refl => exact .refl
  | tail a _ hs ih =>
    unfold callStep at hs
    split at hs
    · rename_i hg
      exact ih.tail (.call hg.1 hg.2.1 hg.2.2 hs)
    · exact absurd hs (Option.some_ne_none _).symm

/-- Channels there are none of leave nothing to check for quiescence. -/
theorem Left.quiescent_of_has {s : Side} {w : World} {a : App} {shm₀ : Shm} {T : Traffics}
    (h : P.Left s w a shm₀ T)
    (hidle : ∀ c, P.Has (.chan c) →
      (w.app s.other).acquired c = [] ∧ (w.app s.other).delivered c = [])
    (hin : ∀ c p, P.Has (.pool c p) →
      (P.ofPool c p (P.μ s.other).remoteShm ((w.app s.other).rels c)).Perm
        ((P.ofPool c p (P.μ s).localShm ((w.app s).acqs c)).take
          (P.ofPool c p (P.μ s.other).remoteShm ((w.app s.other).rels c)).length)) :
    P.Quiescent w s := by
  refine ⟨fun c => ?_, hin⟩
  by_cases hid : P.Has (.chan c)
  · exact hidle c hid
  · have hnone := h.owns.idle s.other c hid
    dsimp only at hnone
    rwa [Function.update_of_ne (Side.other_ne s)] at hnone

end Peers

/-- Peer `b` is quiescent next to peer `a`, on the sample configuration: it has
one managed channel, with two pools. -/
def sampleIdle (w : World) : Prop :=
  (w.app .b).acquired 0 = [] ∧ (w.app .b).delivered 0 = [] ∧ ∀ p < 2,
    (samplePeers.ofPool 0 p (samplePeers.μ .b).remoteShm ((w.app .b).rels 0)).Perm
      ((samplePeers.ofPool 0 p (samplePeers.μ .a).localShm ((w.app .a).acqs 0)).take
        (samplePeers.ofPool 0 p (samplePeers.μ .b).remoteShm ((w.app .b).rels 0)).length)

instance decidable_sampleIdle (w : World) : Decidable (sampleIdle w) :=
  inferInstanceAs (Decidable (_ ∧ _ ∧ _))

/-- The sample peers start and make some calls, peer `a` crashes and initializes
again, and they make more calls. The result says whether this was a run with
restarts – who was up, and that peer `b` was quiescent – and has the states
before the crash and at the end. -/
def crashOfA (before after : List PeerAct) : Option (Bool × PeerSys × PeerSys) :=
  (samplePeers.boot .a (fun _ _ => 0)).bind fun σ₀ =>
  (Steps.runActs samplePeers.callStep before σ₀).bind fun σ₁ =>
  (samplePeers.step σ₁ (.crash .a)).bind fun σ₂ =>
  (samplePeers.step σ₂ (.init .a)).bind fun σ₃ =>
  (Steps.runActs samplePeers.callStep after σ₃).map fun σ₄ =>
    (decide ((∀ σ ∈ [σ₁, σ₄], ¬samplePeers.Down σ .a ∧ ¬samplePeers.Down σ .b) ∧
      samplePeers.Down σ₂ .a ∧ ¬samplePeers.Down σ₂ .b ∧ sampleIdle σ₂.world), σ₁, σ₄)

theorem crashOfA_restarts {before after : List PeerAct} {σ₁ σ₄ : PeerSys}
    (h : crashOfA before after = some (true, σ₁, σ₄)) : ∃ σ₀, samplePeers.Started σ₀ ∧
    Relation.ReflTransGen samplePeers.RestartStep σ₀ σ₄ ∧ ∀ s, ¬samplePeers.Down σ₄ s := by
  obtain ⟨σ₀, hboot, h⟩ := Option.bind_eq_some_iff.mp h
  obtain ⟨σ, hbefore, h⟩ := Option.bind_eq_some_iff.mp h
  obtain ⟨σ₂, hcrash, h⟩ := Option.bind_eq_some_iff.mp h
  obtain ⟨σ₃, hinit, h⟩ := Option.bind_eq_some_iff.mp h
  obtain ⟨σ', hafter, h⟩ := Option.map_eq_some_iff.mp h
  obtain ⟨hdec, h⟩ := Prod.mk.inj h
  obtain ⟨rfl, rfl⟩ := Prod.mk.inj h
  obtain ⟨hups, hdown, hupb, hidle, hnone, hin⟩ := of_decide_eq_true hdec
  have hup : ∀ τ ∈ [σ, σ'], ∀ s, ¬samplePeers.Down τ s := fun τ hτ s => by
    cases s with
    | a => exact (hups τ hτ).1
    | b => exact (hups τ hτ).2
  have hstart : samplePeers.Started σ₀ :=
    ⟨.a, fun _ _ => 0, fun id _ => Adoptable.cleared _ _, hboot⟩
  have hcrashed : Relation.ReflTransGen samplePeers.RestartStep σ₀ σ₂ :=
    (Peers.restartSteps_of_calls (Steps.reach_of_runActs hbefore)).tail
      (.crash (hup σ (by simp)) hcrash)
  obtain ⟨ph, hph⟩ := hstart.reaches hcrashed
  obtain ⟨a, shm₀, T, hleft⟩ := hph.left (s := .a) (fun hs => hph.isUp_iff.mp hs hdown)
  have hchan : ∀ c, samplePeers.Has (.chan c) → c = 0 := by
    rintro c ⟨-, m, hm⟩
    by_contra hne
    simp [samplePeers, Peers.shape, sampleCfg, IpcShmCfg.chan, hne] at hm
  have hq : samplePeers.Quiescent σ₂.world .a := by
    refine hleft.quiescent_of_has (fun c hid => ?_) (fun c p hid => ?_)
    · obtain rfl := hchan c hid
      exact ⟨hidle, hnone⟩
    · obtain rfl := hchan c hid.chan
      exact hin p hid.pool_lt
  exact ⟨σ₀, hstart, (hcrashed.tail (.init hdown hupb hq hinit)).trans
    (Peers.restartSteps_of_calls (Steps.reach_of_runActs hafter)), hup σ' (by simp)⟩

/-- Peer `a` acquires a buffer of the sample configuration, crashes, starts again
next to a peer `b` that did nothing, and is offered the same buffer. -/
theorem restart_exclusive_sample : ∃ σ₀ σ, samplePeers.Started σ₀ ∧
    Relation.ReflTransGen samplePeers.RestartStep σ₀ σ ∧ (∀ s, ¬samplePeers.Down σ s) ∧
    (σ.world.app .a).acquired 0 = [0x1060] ∧ samplePeers.OneOwner σ := by
  have hrun : (crashOfA [.acquire .a 0 16] [.acquire .a 0 16]).map
      (fun r => (r.1, (r.2.2.world.app .a).acquired 0)) = some (true, [0x1060]) := by
    decide +kernel
  obtain ⟨⟨ok, σ₁, σ⟩, hrun, hval⟩ := Option.map_eq_some_iff.mp hrun
  obtain ⟨rfl, hacq⟩ := Prod.mk.inj hval
  obtain ⟨σ₀, hstart, hr, hup⟩ := crashOfA_restarts hrun
  exact ⟨σ₀, σ, hstart, hr, hup, hacq, restart_exclusive samplePeers hstart hr hup⟩

/-- A message goes from peer `a` to peer `b` and its buffer back. Then `a` crashes
and starts again, and two more messages are sent, of which one arrives. -/
theorem restart_in_order_sample : ∃ σ₀ σ₁ σ, samplePeers.Started σ₀ ∧
    Relation.ReflTransGen samplePeers.RestartStep σ₀ σ ∧ (∀ s, ¬samplePeers.Down σ s) ∧
    crashOfA roundTripActs
      [.acquire .a 0 16, .tx .a 0 0x1070 5, .acquire .a 0 16, .tx .a 0 0x1060 6, .rx .b 8]
        = some (true, σ₁, σ) ∧
    (σ₁.world.app .b).received 0 = [(0x4060, 4)] ∧
    (σ.world.app .a).sent 0 = [(0x1070, 5), (0x1060, 6)] ∧
    (σ.world.app .b).received 0 = [(0x4070, 5)] ∧
    samplePeers.Has (.chan 0) ∧ samplePeers.InOrder σ .a 0 := by
  have hrun : (crashOfA roundTripActs
      [.acquire .a 0 16, .tx .a 0 0x1070 5, .acquire .a 0 16, .tx .a 0 0x1060 6, .rx .b 8]).map
      (fun r => (r.1, (r.2.1.world.app .b).received 0, (r.2.2.world.app .a).sent 0,
        (r.2.2.world.app .b).received 0))
      = some (true, [(0x4060, 4)], [(0x1070, 5), (0x1060, 6)], [(0x4070, 5)]) := by
    decide +kernel
  obtain ⟨⟨ok, σ₁, σ⟩, hrun, hval⟩ := Option.map_eq_some_iff.mp hrun
  obtain ⟨rfl, hval⟩ := Prod.mk.inj hval
  obtain ⟨hbefore, hval⟩ := Prod.mk.inj hval
  obtain ⟨hsent, hrcvd⟩ := Prod.mk.inj hval
  obtain ⟨σ₀, hstart, hr, hup⟩ := crashOfA_restarts hrun
  have hid : samplePeers.Has (.chan 0) := ⟨by decide, _, rfl⟩
  exact ⟨σ₀, σ₁, σ, hstart, hr, hup, hrun, hbefore, hsent, hrcvd, hid,
    restart_in_order samplePeers hstart hr hup .a 0 hid⟩

/-! ## Nothing less will do -/

namespace Peers

variable {P : Peers} {s : Side}

/-- **A buffer is handed out twice**: it stands in the ring of its pool two times,
or it is offered there while an application holds it. -/
def HandedTwice (P : Peers) (w : World) : Prop :=
  ∃ s c p i, P.Has (.pool c p) ∧ i < P.numBufs c p ∧
    (2 ≤ (P.descriptors w.shm s.other (.pool c p)).countP (·.names (p, i)) ∨
      1 ≤ (P.descriptors w.shm s.other (.pool c p)).countP (·.names (p, i)) ∧
        (P.localBuf s c (p, i) ∈ (w.app s).acquired c ∨
          P.remoteBuf s.other c (p, i) ∈ (w.app s.other).delivered c))

theorem OneOwner.not_handedTwice {σ : PeerSys} (h : P.OneOwner σ) :
    ¬P.HandedTwice σ.world := by
  rintro ⟨s, c, p, i, hid, hi, htwice⟩
  have hplace := h.place s c p hid i hi
  rcases htwice with htwice | ⟨honce, hheld | hheld⟩
  · omega
  · have := List.count_pos_iff.mpr hheld
    omega
  · have := List.count_pos_iff.mpr hheld
    omega

/-- **If no buffer is handed out twice, the application that stayed is
quiescent.** -/
theorem Left.quiescent {w : World} {a : App} {shm₀ shm : Shm} {T : Traffics}
    (h : P.Left s w a shm₀ T) (hrep : P.Rep shm (P.rejoined s (pushedFor T s)))
    (hone : ∀ t c p, P.Has (.pool c p) → ∀ i, i < P.numBufs c p →
      ((P.rejoined s (pushedFor T s) t c).free p).count i ≤ 1 ∧
        (1 ≤ ((P.rejoined s (pushedFor T s) t c).free p).count i →
          P.localBuf t c (p, i) ∉ (w.app t).acquired c ∧
            P.remoteBuf t.other c (p, i) ∉ (w.app t.other).delivered c)) :
    P.Quiescent w s := by
  have hstayed : Function.update w.app s a s.other = w.app s.other :=
    Function.update_of_ne (Side.other_ne s) _ _
  have hoffered : ∀ c p, P.Has (.pool c p) →
      ((P.rejoined s (pushedFor T s) s c).free p).Perm (List.range (P.numBufs c p)) := by
    intro c p hid
    have hch : P.Has (.chan c) := hid.chan
    have hlt := (hrep.valid s c hch).free p hid
    have hnodup : ((P.rejoined s (pushedFor T s) s c).free p).Nodup := by
      refine List.nodup_iff_count_le_one.mpr (fun i => ?_)
      by_cases hi : i ∈ (P.rejoined s (pushedFor T s) s c).free p
      · exact (hone s c p hid i (hlt i hi)).1
      · rw [List.count_eq_zero_of_not_mem hi]
        exact Nat.zero_le 1
    refine (hnodup.subperm (fun i hi => List.mem_range.mpr (hlt i hi))).perm_of_length_le ?_
    rw [h.length_offered hid, List.length_range]
  have hfree : ∀ t c p, P.Has (.pool c p) → ∀ i, i < P.numBufs c p →
      ((P.rejoined s (pushedFor T s) t c).free p).count i = 1 := by
    intro t c p hid i hi
    have hrange : (List.range (P.numBufs c p)).count i = 1 :=
      List.count_eq_one_of_mem List.nodup_range (List.mem_range.mpr hi)
    rcases Side.eq_or_eq_other s t with rfl | rfl
    · rw [(hoffered c p hid).count_eq, hrange]
    · simp only [rejoined, if_neg (Side.other_ne s)]
      exact hrange
  refine ⟨fun c => ?_, fun c p hid => ?_⟩
  · by_cases hid : P.Has (.chan c)
    · refine ⟨List.eq_nil_iff_forall_not_mem.mpr (fun buf hbuf => ?_),
        List.eq_nil_iff_forall_not_mem.mpr (fun buf hbuf => ?_)⟩
      · -- it was pushed again, and is held
        have htr := h.owns.tracks s.other c hid
        have hacq := htr.acquired
        dsimp only at hacq
        rw [hstayed] at hacq
        obtain ⟨⟨p, i⟩, hx, rfl⟩ := List.mem_map.mp (hacq ▸ hbuf)
        obtain ⟨hb, -⟩ := htr.hasBuf hid (Traffic.mem_busy_of_held hx)
        exact ((hone s.other c p hb.1 i hb.2).2 (hfree s.other c p hb.1 i hb.2).ge).1 hbuf
      · -- it is offered again, and is held
        have htr := h.tracks hid
        obtain ⟨⟨p, i⟩, hx, rfl⟩ := List.mem_map.mp (htr.delivered ▸ hbuf)
        obtain ⟨hb, -⟩ := htr.hasBuf hid (Traffic.mem_busy_of_out hx)
        exact ((hone s c p hb.1 i hb.2).2 (hfree s c p hb.1 i hb.2).ge).2 hbuf
    · have hidle := h.owns.idle s.other c hid
      dsimp only at hidle
      rwa [hstayed] at hidle
  · have hch : P.Has (.chan c) := hid.chan
    have htr := h.tracks hch
    have hrefill := hoffered c p hid
    rw [h.offered hid] at hrefill
    rw [← h.acqs_eq]
    exact (htr.inOrder_iff hid).mpr (htr.inv.of_refill hid.pool_lt hrefill)

end Peers

/-- **An initialization that hands out no buffer twice** was next to a quiescent
application. -/
theorem Peers.InPhase.quiescent {P : Peers} {s : Side} {ph : Peers.Phase} {σ σ' : PeerSys}
    (h : P.InPhase ph σ) (hs : ¬ph.IsUp s) (hother : ph.IsUp s.other)
    (hstep : P.step σ (.init s) = some σ') (htwice : ¬P.HandedTwice σ'.world) :
    P.Quiescent σ.world s := by
  obtain ⟨a, shm₀, T, hleft⟩ := h.left hs
  obtain ⟨d', shm', hrun, rfl⟩ := Peers.init_eq hstep
  obtain ⟨hupd, -, -, hrep⟩ := Peers.init_joins hleft.standing hrun
  refine hleft.quiescent hrep (fun t c p hid i hi => ?_)
  have hupt : P.Up t (Function.update σ.drv s d' t) := by
    rcases Side.eq_or_eq_other s t with rfl | rfl
    · rw [Function.update_self]
      exact hupd
    · rw [Function.update_of_ne (Side.other_ne s)]
      exact h.up _ hother
  have hcount : (P.descriptors shm' t.other (.pool c p)).countP (·.names (p, i)) = _ :=
    hrep.countP_pool hupt hid
  rw [← hcount]
  refine ⟨?_, fun honce => ⟨fun hheld => ?_, fun hheld => ?_⟩⟩
  · by_contra htwo
    exact htwice ⟨t, c, p, i, hid, hi, Or.inl (Nat.not_le.mp htwo)⟩
  · exact htwice ⟨t, c, p, i, hid, hi, Or.inr ⟨honce, Or.inl hheld⟩⟩
  · exact htwice ⟨t, c, p, i, hid, hi, Or.inr ⟨honce, Or.inr hheld⟩⟩

/-- **A restart is safe exactly next to a quiescent application.** In any state
that calls and restarts lead to, with one peer down and the other one up, let
the peer that is down initialize. Afterwards every buffer has one owner if and
only if the application that stayed holds no buffer and released those of the
other one in the order in which they were acquired, up to what it released.
Otherwise some buffer is handed out twice. -/
theorem restart_oneOwner_iff (P : Peers) {σ₀ σ σ' : PeerSys} (hstart : P.Started σ₀)
    (hr : Relation.ReflTransGen P.RestartStep σ₀ σ) (s : Side) (hdown : P.Down σ s)
    (hup : ¬P.Down σ s.other) (hstep : P.step σ (.init s) = some σ') :
    (P.OneOwner σ' ↔ P.Quiescent σ.world s) ∧
      (¬P.Quiescent σ.world s → P.HandedTwice σ'.world) := by
  obtain ⟨ph, h⟩ := hstart.reaches hr
  have hs : ¬ph.IsUp s := fun hs => h.isUp_iff.mp hs hdown
  have hother : ph.IsUp s.other := h.isUp_iff.mpr hup
  refine ⟨⟨fun hone => h.quiescent hs hother hstep hone.not_handedTwice, fun hq => ?_⟩,
    fun hq => ?_⟩
  · have hboth := h.init hs hother hq hstep
    obtain ⟨⟨T, hown⟩, -⟩ := hboth.world
    exact hown.oneOwner (fun t => hboth.up t trivial)
  · by_contra htwice
    exact hq (h.quiescent hs hother hstep htwice)

/-- Peer `b` acquires a buffer of the sample configuration and keeps it over a
crash of peer `a`: the buffer has two owners. -/
theorem restart_oneOwner_iff_sample : ∃ σ₀ σ σ', samplePeers.Started σ₀ ∧
    Relation.ReflTransGen samplePeers.RestartStep σ₀ σ ∧ samplePeers.Down σ .a ∧
    ¬samplePeers.Down σ .b ∧ samplePeers.step σ (.init .a) = some σ' ∧
    (σ.world.app .b).acquired 0 = [0x8060] ∧ ¬samplePeers.OneOwner σ' ∧
    samplePeers.HandedTwice σ'.world := by
  have hrun : ((samplePeers.boot .a (fun _ _ => 0)).bind fun σ₀ =>
      (samplePeers.step σ₀ (.acquire .b 0 16)).bind fun σ₁ =>
      (samplePeers.step σ₁ (.crash .a)).bind fun σ₂ =>
      (samplePeers.step σ₂ (.init .a)).map fun _ =>
        (decide (∀ σ ∈ [σ₀, σ₁], ¬samplePeers.Down σ .a ∧ ¬samplePeers.Down σ .b),
          decide (samplePeers.Down σ₂ .a ∧ ¬samplePeers.Down σ₂ .b),
          (σ₂.world.app .b).acquired 0)) = some (true, true, [0x8060]) := by decide +kernel
  obtain ⟨σ₀, hboot, hrun⟩ := Option.bind_eq_some_iff.mp hrun
  obtain ⟨σ₁, hacq, hrun⟩ := Option.bind_eq_some_iff.mp hrun
  obtain ⟨σ₂, hcrash, hrun⟩ := Option.bind_eq_some_iff.mp hrun
  obtain ⟨σ₃, hinit, hrun⟩ := Option.map_eq_some_iff.mp hrun
  obtain ⟨hups, hrun⟩ := Prod.mk.inj hrun
  obtain ⟨hdown, hheld⟩ := Prod.mk.inj hrun
  have hups := of_decide_eq_true hups
  have hdown := of_decide_eq_true hdown
  have hup : ∀ σ ∈ [σ₀, σ₁], ∀ s, ¬samplePeers.Down σ s := fun σ hσ s => by
    cases s with
    | a => exact (hups σ hσ).1
    | b => exact (hups σ hσ).2
  have hstart : samplePeers.Started σ₀ :=
    ⟨.a, fun _ _ => 0, fun id _ => Adoptable.cleared _ _, hboot⟩
  have hr : Relation.ReflTransGen samplePeers.RestartStep σ₀ σ₂ :=
    (Relation.ReflTransGen.single
      (.call (a := .acquire .b 0 16) rfl (hup σ₀ (by simp) .b) trivial hacq)).tail
      (.crash (hup σ₁ (by simp)) hcrash)
  obtain ⟨hiff, htwice⟩ := restart_oneOwner_iff samplePeers hstart hr .a hdown.1 hdown.2 hinit
  have hq : ¬samplePeers.Quiescent σ₂.world .a := fun hq => by
    have hnone : (σ₂.world.app .b).acquired 0 = [] := (hq.idle 0).1
    rw [hheld] at hnone
    exact absurd hnone (List.cons_ne_nil _ _)
  exact ⟨σ₀, σ₂, σ₃, hstart, hr, hdown.1, hdown.2, hinit, hheld, fun hone => hq (hiff.mp hone),
    htwice hq⟩
