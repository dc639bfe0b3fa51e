import IpcShm.PeerRuns

/-!
# Messages arrive in order

What one application sends on a managed channel, the other receives: the same
buffers with the same sizes, in the same order, none twice and none left out.
On the way an address becomes a descriptor, the descriptor waits in the
channel queue, and a receive call of any budget turns it back into an address,
in another address space, and checks it against the window before it calls
the application. A message that fails this check would be gone without an
error.

The invariant says where the messages are. What was sent is what was received
followed by what the queue holds, message by message. It does not matter
whether the applications own the buffers they pass on – a buffer that is sent
twice arrives twice – only that what is sent are buffers that were acquired,
so that the address the receiver computes is the address that was sent.
-/

namespace Peers

variable {P : Peers} {s : Side} {d : Driver} {c : ℕ} {w : World}

/-- **Applications that transmit buffers they acquired**, at any time before.
What they release is up to them. -/
def acquirers (P : Peers) : Manners where
  tx := fun s w buf => ∃ c, c < P.numChannels ∧ buf ∈ (w.app s).acqs c
  release := fun _ _ _ => True

instance (P : Peers) (w : World) (a : PeerAct) : Decidable (P.acquirers.Minds w a) :=
  match a with
  | .tx s _ buf _ => inferInstanceAs (Decidable (∃ c, c < P.numChannels ∧ buf ∈ (w.app s).acqs c))
  | .release _ _ _ | .acquire _ _ _ | .unmanagedTx _ _ | .rx _ _ | .rxReturn _ | .free _
  | .crash _ | .init _ => inferInstanceAs (Decidable True)

/-- **The calls of such applications.** -/
def acquirerStep (P : Peers) (σ : PeerSys) (a : PeerAct) : Option PeerSys :=
  if a.isCall = true ∧ P.acquirers.Minds σ.world a then P.step σ a else none

/-! ## The invariant -/

/-- A message as its sender knows it. -/
def sentAs (P : Peers) (s : Side) (c : ℕ) (msg : Message) : ℕ × ℕ :=
  (P.localBuf s c msg.buf, msg.size)

/-- A message as its receiver knows it. -/
def receivedAs (P : Peers) (s : Side) (c : ℕ) (msg : Message) : ℕ × ℕ :=
  (P.remoteBuf s c msg.buf, msg.size)

/-- **Where the messages from `s` are**: received, or under way. -/
def Conveys (P : Peers) (s : Side) (c : ℕ) (snd rcv : App) (transit : List Message) : Prop :=
  ∃ msgs, snd.sent c = (msgs ++ transit).map (P.sentAs s c) ∧
    rcv.received c = msgs.map (P.receivedAs s.other c)

/-- What was acquired are buffers. -/
def AcquiresBufs (P : Peers) (w : World) : Prop :=
  ∀ s c, ∀ buf ∈ (w.app s).acqs c, ∃ x, P.HasBuf c x ∧ 0 < P.bufSize c x.1 ∧
    buf = P.localBuf s c x

/-- **The messages of all channels.** -/
def ConveysAll (P : Peers) (w : World) : Prop :=
  P.AcquiresBufs w ∧ ∃ L, P.Rep w.shm L ∧
    ∀ s c, P.Has (.chan c) → P.Conveys s c (w.app s) (w.app s.other) (L s c).transit

theorem AcquiresBufs.setApp {shm : Shm} {a : App} (h : P.AcquiresBufs w)
    (ha : a.acqs = (w.app s).acqs) : P.AcquiresBufs ({ w with shm := shm }.setApp s a) := by
  intro t c buf hbuf
  have hacqs : (Function.update w.app s a t).acqs = (w.app t).acqs := update_app App.acqs ha t
  exact h t c buf (by rw [← hacqs]; exact hbuf)

/-- What does not concern the messages of a channel. -/
theorem Conveys.congr {snd rcv snd' rcv' : App} {l : List Message}
    (h : P.Conveys s c snd rcv l) (hs : snd'.sent c = snd.sent c)
    (hr : rcv'.received c = rcv.received c) : P.Conveys s c snd' rcv' l := by
  obtain ⟨msgs, h₁, h₂⟩ := h
  exact ⟨msgs, hs.trans h₁, hr.trans h₂⟩

/-- The lane of a channel after a move of its sender. -/
theorem ConveysAll.set_sender {L : Lanes} {shm : Shm} {a : App} {l : Lane}
    (hrep : P.Rep shm (L.set s c l))
    (hconv : ∀ s c, P.Has (.chan c) →
      P.Conveys s c (w.app s) (w.app s.other) (L s c).transit)
    (hacq : P.AcquiresBufs ({ w with shm := shm }.setApp s a))
    (hrec : a.received = (w.app s).received)
    (hsent : ∀ c', c' ≠ c → a.sent c' = (w.app s).sent c')
    (hl : P.Has (.chan c) → P.Conveys s c a (w.app s.other) l.transit) :
    P.ConveysAll ({ w with shm := shm }.setApp s a) := by
  refine ⟨hacq, L.set s c l, hrep, fun t c' hid => ?_⟩
  have hrcv : (Function.update w.app s a t.other).received c' = (w.app t.other).received c' :=
    congrFun (update_app App.received hrec t.other) c'
  by_cases he : t = s ∧ c' = c
  · obtain ⟨rfl, rfl⟩ := he
    rw [Lanes.set_self]
    refine (hl hid).congr ?_ hrcv
    show (Function.update w.app t a t).sent c' = a.sent c'
    rw [Function.update_self]
  · rw [Lanes.set_of_ne he]
    refine (hconv t c' hid).congr ?_ hrcv
    show (Function.update w.app s a t).sent c' = (w.app t).sent c'
    by_cases hts : t = s
    · subst hts
      rw [Function.update_self]
      exact hsent c' (fun hc => he ⟨rfl, hc⟩)
    · rw [Function.update_of_ne hts]

/-- The lane of a channel after a move of its receiver. -/
theorem ConveysAll.set_receiver {L : Lanes} {shm : Shm} {a : App} {l : Lane}
    (hrep : P.Rep shm (L.set s.other c l))
    (hconv : ∀ s c, P.Has (.chan c) →
      P.Conveys s c (w.app s) (w.app s.other) (L s c).transit)
    (hacq : P.AcquiresBufs ({ w with shm := shm }.setApp s a))
    (hsent : a.sent = (w.app s).sent)
    (hrec : ∀ c', c' ≠ c → a.received c' = (w.app s).received c')
    (hl : P.Has (.chan c) → P.Conveys s.other c (w.app s.other) a l.transit) :
    P.ConveysAll ({ w with shm := shm }.setApp s a) := by
  refine ⟨hacq, L.set s.other c l, hrep, fun t c' hid => ?_⟩
  have hsnd : (Function.update w.app s a t).sent c' = (w.app t).sent c' :=
    congrFun (update_app App.sent hsent t) c'
  by_cases he : t = s.other ∧ c' = c
  · obtain ⟨rfl, rfl⟩ := he
    rw [Lanes.set_self]
    refine (hl hid).congr hsnd ?_
    show (Function.update w.app s a s.other.other).received c' = a.received c'
    rw [Side.other_other, Function.update_self]
  · rw [Lanes.set_of_ne he]
    refine (hconv t c' hid).congr hsnd ?_
    show (Function.update w.app s a t.other).received c' = (w.app t.other).received c'
    by_cases hts : t.other = s
    · subst hts
      rw [Side.other_other] at he
      rw [Function.update_self]
      exact hrec c' (fun hc => he ⟨rfl, hc⟩)
    · rw [Function.update_of_ne hts]

/-- **The moves convey messages.** -/
theorem ConveysAll.moves (h : P.ConveysAll w) {drv : Side → Driver}
    (hup : ∀ s, P.Up s (drv s)) : ∃ L, P.Moves P.acquirers P.ConveysAll w L := by
  obtain ⟨hacq, L, hrep, hconv⟩ := h
  refine ⟨L, hrep, fun s c p i rest hid hpos hf => ?_,
    fun s c x buf size hg hx hin hsize hroom => ?_, fun s c msg rest hid ht => ?_,
    fun s c x buf _ hx _ hroom => ?_⟩
  · have hch : P.Has (.chan c) := hid.chan
    refine ConveysAll.set_sender (hrep.acquire hid ((hup s).cap_lt hid) hf) hconv ?_ rfl
      (fun _ _ => rfl) (fun _ => (hconv s c hch).congr rfl rfl)
    -- one more acquired buffer
    have hbuf : P.HasBuf c (p, i) :=
      ⟨hid, (hrep.valid s c hch).free p hid i (by rw [hf]; exact List.mem_cons_self)⟩
    intro t c' buf hmem
    by_cases he : t = s ∧ c' = c
    · obtain ⟨rfl, rfl⟩ := he
      have hmem : buf ∈ (w.app t).acqs c' ++ [P.localBuf t c' (p, i)] := by
        simpa only [World.setApp, Function.update_self, App.acquire] using hmem
      rcases List.mem_append.mp hmem with hmem | hmem
      · exact hacq t c' buf hmem
      · exact ⟨(p, i), hbuf, hpos, List.mem_singleton.mp hmem⟩
    · refine hacq t c' buf ?_
      by_cases hts : t = s
      · subst hts
        simpa only [World.setApp, Function.update_self, App.acquire,
          Function.update_of_ne (fun hc => he ⟨rfl, hc⟩)] using hmem
      · simpa only [World.setApp, Function.update_of_ne hts] using hmem
  · obtain ⟨c', -, hmem⟩ := hg
    obtain ⟨y, hy, hpos, rfl⟩ := hacq s c' buf hmem
    obtain ⟨rfl, rfl⟩ := InBuf.of_start hin hx hy hpos
    have hch : P.Has (.chan c) := hx.1.chan
    have hsend : P.Rep (P.pushed w.shm s (.chan c) (Message.mk x size).bytes)
      (L.set s c ((L s c).send ⟨x, size⟩)) := hrep.send hch ((hup s).cap_lt hch) hroom hx hsize
    refine ConveysAll.set_sender hsend hconv (hacq.setApp rfl) rfl
      (fun c' hc => Function.update_of_ne hc _ _) (fun _ => ?_)
    obtain ⟨msgs, hsent, hrec⟩ := hconv s c hch
    refine ⟨msgs, ?_, hrec⟩
    show Function.update (w.app s).sent c _ c = _
    rw [Function.update_self, hsent, Lane.send]
    simp only [List.map_append, List.map_cons, List.map_nil, List.append_assoc, sentAs]
  · refine ConveysAll.set_receiver (hrep.receive hid ((hup s).cap_lt hid) ht) hconv
      (hacq.setApp rfl) rfl (fun c' hc => Function.update_of_ne hc _ _) (fun _ => ?_)
    obtain ⟨msgs, hsent, hrec⟩ := hconv s.other c hid
    refine ⟨msgs ++ [msg], ?_, ?_⟩
    · rw [hsent, ht, Lane.receive, List.append_assoc, List.singleton_append]
    · rw [Side.other_other] at hrec ⊢
      show Function.update (w.app s).received c _ c = _
      rw [Function.update_self, hrec, List.map_append]
      rfl
  · have hch : P.Has (.chan c) := hx.1.chan
    exact ConveysAll.set_receiver (hrep.release hx ((hup s).cap_lt hx.1) hroom) hconv
      (hacq.setApp rfl) rfl (fun _ _ => rfl) (fun _ => hconv s.other c hch |>.congr rfl
        (by rw [Side.other_other]; rfl))

theorem Fresh.conveysAll {σ : PeerSys} (h : P.Fresh σ) : P.ConveysAll σ.world := by
  refine ⟨fun s c buf hbuf => ?_, _, h.rep, fun s c _ => ⟨[], ?_, ?_⟩⟩
  · rw [h.app_eq s] at hbuf
    exact nomatch hbuf
  · rw [h.app_eq s]
    rfl
  · rw [h.app_eq s.other]
    rfl

theorem Kept.acquirerStep {σ σ' : PeerSys} (hpos : 0 < P.numChannels)
    (h : P.Kept P.ConveysAll σ) {a : PeerAct} (hstep : P.acquirerStep σ a = some σ') :
    P.Kept P.ConveysAll σ' := by
  unfold Peers.acquirerStep at hstep
  split at hstep
  · rename_i hg
    refine h.step hpos (fun w shm' hw hs => ?_) (fun w hw => hw.moves h.up) hg.1 hg.2 hstep
    obtain ⟨hacq, L, hrep, hconv⟩ := hw
    exact ⟨hacq, L, hrep.frame hs, hconv⟩
  · exact nomatch hstep

/-! ## In order -/

/-- Addresses and sizes as offsets from a window and sizes. -/
def offsets (base : ℕ) (l : List (ℕ × ℕ)) : List (ℕ × ℕ) := l.map (fun m => (m.1 - base, m.2))

/-- The buffer and the size a descriptor names, with the offset of the
buffer. -/
def bdOffset (P : Peers) (c : ℕ) (bd : IpcShmBd) : ℕ × ℕ :=
  (P.shape.bufOff c (bd.poolId.toNat, bd.bufId), bd.dataSize)

/-- **The messages from `s` on a channel arrive in order.** -/
structure InOrder (P : Peers) (σ : PeerSys) (s : Side) (c : ℕ) : Prop where
  /-- What was received was sent, in this order. -/
  arrived : offsets (P.μ s.other).remoteShm ((σ.world.app s.other).received c)
    <+: offsets (P.μ s).localShm ((σ.world.app s).sent c)
  /-- The rest is in the channel queue. -/
  waiting : offsets (P.μ s).localShm ((σ.world.app s).sent c)
    = offsets (P.μ s.other).remoteShm ((σ.world.app s.other).received c)
      ++ (P.descriptors σ.world.shm s (.chan c)).map (P.bdOffset c)

theorem ConveysAll.inOrder {σ : PeerSys} (h : P.ConveysAll σ.world) (hup : P.Up s d)
    (hid : P.Has (.chan c)) : P.InOrder σ s c := by
  obtain ⟨-, L, hrep, hconv⟩ := h
  obtain ⟨msgs, hsent, hrec⟩ := hconv s c hid
  have hwaiting : offsets (P.μ s).localShm ((σ.world.app s).sent c)
      = offsets (P.μ s.other).remoteShm ((σ.world.app s.other).received c)
        ++ (P.descriptors σ.world.shm s (.chan c)).map (P.bdOffset c) := by
    have hloc : ∀ l : List Message, offsets (P.μ s).localShm (l.map (P.sentAs s c))
        = l.map (fun m => (P.shape.bufOff c m.buf, m.size)) := fun l => by
      rw [offsets, List.map_map]
      refine List.map_congr_left (fun m _ => ?_)
      simp only [Function.comp_apply, sentAs, localBuf, Nat.add_sub_cancel_left]
    have hrem : ∀ l : List Message,
        offsets (P.μ s.other).remoteShm (l.map (P.receivedAs s.other c))
          = l.map (fun m => (P.shape.bufOff c m.buf, m.size)) := fun l => by
      rw [offsets, List.map_map]
      refine List.map_congr_left (fun m _ => ?_)
      simp only [Function.comp_apply, receivedAs, remoteBuf, Nat.add_sub_cancel_left]
    rw [hsent, hrec, hloc, hrem, hrep.descriptors_chan hup hid, List.map_map, List.map_append]
    rfl
  exact ⟨⟨_, hwaiting.symm⟩, hwaiting⟩

end Peers

/-- **Messages arrive in order.** Two peers start with symmetric configurations
that fit, and their applications call the driver in any order, transmitting
buffers they acquired. On every managed channel, in every state they reach,
what was received is a prefix of what was sent, and the rest waits in the
queue: nothing is lost, repeated or discarded. -/
theorem messages_in_order (P : Peers) {σ₀ σ : PeerSys} (hstart : P.Started σ₀)
    (hr : Steps.Reach P.acquirerStep σ₀ σ) (s : Side) (c : ℕ) (hid : P.Has (.chan c)) :
    P.InOrder σ s c := by
  have hfresh := hstart.fresh
  have hkept : P.Kept P.ConveysAll σ := hr.invariant (hfresh.kept hfresh.conveysAll)
    (fun _ _ _ h hstep => h.acquirerStep hfresh.numChannels_pos hstep)
  exact hkept.world.inOrder (hkept.up s) hid

/-- Two messages from peer `a`, the same buffer twice, of which peer `b` has
received one. -/
def twiceSentActs : List PeerAct :=
  [.acquire .a 0 16, .tx .a 0 0x1060 4, .tx .a 0 0x1060 5, .rx .b 1, .rxReturn .b]

/-- The first message is delivered, the second waits. -/
theorem messages_in_order_twiceSent : ∃ σ₀ σ, samplePeers.Started σ₀ ∧
    Steps.Reach samplePeers.acquirerStep σ₀ σ ∧
    (σ.world.app .a).sent 0 = [(0x1060, 4), (0x1060, 5)] ∧
    (σ.world.app .b).received 0 = [(0x4060, 4)] ∧ samplePeers.InOrder σ .a 0 := by
  have hrun : (samplePeers.boot .a (fun _ _ => 0)).bind (fun σ₀ =>
      (Steps.runActs samplePeers.acquirerStep twiceSentActs σ₀).map
        (fun σ => ((σ.world.app .a).sent 0, (σ.world.app .b).received 0)))
      = some ([(0x1060, 4), (0x1060, 5)], [(0x4060, 4)]) := by decide +kernel
  obtain ⟨σ₀, hboot, hrun⟩ := Option.bind_eq_some_iff.mp hrun
  obtain ⟨σ, hσ, heq⟩ := Option.map_eq_some_iff.mp hrun
  obtain ⟨hsent, hrec⟩ := Prod.mk.inj heq
  have hstart : samplePeers.Started σ₀ :=
    ⟨.a, fun _ _ => 0, fun id _ => Adoptable.cleared _ _, hboot⟩
  have hreach := Steps.reach_of_runActs hσ
  have hid : samplePeers.Has (.chan 0) := ⟨by decide, _, rfl⟩
  exact ⟨σ₀, σ, hstart, hreach, hsent, hrec, messages_in_order samplePeers hstart hreach .a 0 hid⟩
