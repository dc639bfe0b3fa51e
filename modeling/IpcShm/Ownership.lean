import IpcShm.PeerRuns

/-!
# Who owns a buffer

A buffer of a managed channel is in one of four places: its descriptor is in
the pool queue the receiver pushes to, or the sending application holds it, or
its descriptor is in the channel queue, or the receiving application holds it.
The places are in two windows and two applications, and the code keeps no
record of them. With applications that transmit only what they acquired and
release only what was delivered to them, every buffer is in exactly one place,
whatever the order of the calls of both peers.

The abstract side is `Traffic`: the places of one direction of a channel as
lists, and the invariant of its moves. `Peers.Owns` connects it to the system:
the rings hold the free buffers and the messages under way (`Peers.Rep`), and
the applications hold the rest under the addresses they know (`Peers.Tracks`).
Each of the four moves of the system is a move of the traffic
(`Peers.Owns.moves`).

The histories that come along – what was pushed into the pool queues, what was
acquired and released – are not needed for ownership, but decide what a peer
finds when it initializes again.
-/

/-! ## Lists of addresses -/

section Lists

variable {α β : Type} [BEq α] [LawfulBEq α] [BEq β] [LawfulBEq β] {f : α → β} {a : α}
  {l : List α}

/-- Members are counted by their image, if only `a` has the image of `a`. -/
theorem List.count_map_of_unique (h : ∀ b ∈ l, f b = f a → b = a) :
    (l.map f).count (f a) = l.count a := by
  rw [List.count, List.count, List.countP_map]
  refine List.countP_congr (fun b hb => ?_)
  simp only [Function.comp_apply, beq_iff_eq]
  exact ⟨h b hb, fun he => congrArg f he⟩

/-- A member is removed with its image. -/
theorem List.erase_map_of_unique (h : ∀ b ∈ l, f b = f a → b = a) :
    (l.map f).erase (f a) = (l.erase a).map f := by
  induction l with
  | nil => rfl
  | cons b l ih =>
    by_cases hb : b = a
    · rw [List.map_cons, hb, List.erase_cons_head, List.erase_cons_head]
    · have hf : f b ≠ f a := fun he => hb (h b List.mem_cons_self he)
      rw [List.map_cons, List.erase_cons_tail (by simpa using hf),
        List.erase_cons_tail (by simpa using hb), List.map_cons,
        ih (fun b' hb' => h b' (List.mem_cons_of_mem _ hb'))]

end Lists

/-! ## Traffic of all channels -/

/-- The traffic of all channels, by the peer that sends. -/
abbrev Traffics := Side → ℕ → Traffic

namespace Traffics

/-- The lanes of a traffic. -/
def lanes (T : Traffics) : Lanes := fun s c => (T s c).toLane

/-- The traffic with one direction of a channel replaced. -/
def set (T : Traffics) (s : Side) (c : ℕ) (t : Traffic) : Traffics :=
  fun s' c' => if s' = s ∧ c' = c then t else T s' c'

variable {T : Traffics} {s s' : Side} {c c' : ℕ} {t : Traffic}

@[simp] theorem set_self : T.set s c t s c = t := if_pos ⟨rfl, rfl⟩

theorem set_of_ne (h : ¬(s' = s ∧ c' = c)) : T.set s c t s' c' = T s' c' := if_neg h

theorem lanes_set : (T.set s c t).lanes = T.lanes.set s c t.toLane := by
  funext s' c'
  by_cases h : s' = s ∧ c' = c
  · obtain ⟨rfl, rfl⟩ := h
    rw [lanes, set_self, Lanes.set_self]
  · rw [lanes, set_of_ne h, Lanes.set_of_ne h]
    rfl

end Traffics

/-- A buffer that is not free was acquired. -/
theorem Traffic.Inv.mem_acqs {T : Traffic} {n : ℕ} {N : ℕ → ℕ} (h : T.Inv n N) {x : BufId}
    (hx : x ∈ T.busy) : x.2 ∈ T.acqs x.1 := by
  have ho : (T.acqs x.1).count x.2 = (T.rels x.1).count x.2 + T.busy.count x :=
    h.owned x.1 (h.pool_lt x hx) x.2
  have := List.count_pos_iff.mpr hx
  exact List.count_pos_iff.mp (by omega)

theorem Traffic.mem_busy_of_held {T : Traffic} {x : BufId} (hx : x ∈ T.held) : x ∈ T.busy := by
  simp only [busy, List.mem_append]
  exact Or.inl (Or.inl hx)

theorem Traffic.mem_busy_of_out {T : Traffic} {x : BufId} (hx : x ∈ T.out) : x ∈ T.busy := by
  simp only [busy, List.mem_append]
  exact Or.inr hx

namespace Peers

variable {P : Peers} {s : Side} {d : Driver} {shm shm' : Shm} {c p : ℕ}

/-! ## What the pool queues remember -/

section History

variable {id id' : QueueId} {t : Side} {xs : List (List UInt8)} {x : List UInt8}

/-- A pop is not seen in what was pushed. -/
theorem popped_history (h : RingHistory (P.off id') (P.cap id') (shm t) xs) (hid : P.Has id)
    (hid' : P.Has id') : RingHistory (P.off id') (P.cap id') (P.popped shm s id t) xs := by
  rcases Side.eq_or_eq_other s t with rfl | rfl
  · rw [popped, Shm.set_self]
    by_cases hne : id = id'
    · subst hne
      exact h.popFront _
    · exact h.frame (ByteMem.sameOn_popFront (P.shape.queue_apart P.poolsGiven hid hid' hne))
  · rw [popped, Shm.set_other]
    exact h

/-- A push is seen in its queue only. -/
theorem pushed_history (h : RingHistory (P.off id') (P.cap id') (shm t) xs) (hid : P.Has id)
    (hid' : P.Has id') (hw : (shm s).writeIdx (P.off id) < P.cap id + 1) (hx : x.length = 8)
    (hne : ¬(t = s ∧ id = id')) :
    RingHistory (P.off id') (P.cap id') (P.pushed shm s id x t) xs := by
  rcases Side.eq_or_eq_other s t with rfl | rfl
  · rw [pushed, Shm.set_self]
    exact h.frame (ByteMem.sameOn_pushBack hw hx
      (P.shape.queue_apart P.poolsGiven hid hid' (fun he => hne ⟨rfl, he⟩)))
  · rw [pushed, Shm.set_other]
    exact h

end History

/-- **The pool queues remember what was pushed**: the buffers acquired so far
and those that are free. -/
def Remembers (P : Peers) (shm : Shm) (T : Traffics) : Prop :=
  ∀ s c p, P.Has (.pool c p) →
    RingHistory (P.off (.pool c p)) (P.cap (.pool c p)) (shm s.other)
      (((T s c).acqs p ++ (T s c).free p).map (fun i => bdBytes (p, i) 0))

namespace Remembers

variable {T T' : Traffics} {id : QueueId} {x : List UInt8}

theorem frame (h : P.Remembers shm T) (hs : P.SameRings shm shm') : P.Remembers shm' T :=
  fun s c p hid => (h s c p hid).frame (hs.ring _ hid s.other)

/-- The order of what was pushed is all that counts. -/
theorem congr (h : P.Remembers shm T) (hT : ∀ s c p, P.Has (.pool c p) →
      (T' s c).acqs p ++ (T' s c).free p = (T s c).acqs p ++ (T s c).free p) :
    P.Remembers shm T' := fun s c p hid => by
  rw [hT s c p hid]
  exact h s c p hid

theorem popped (h : P.Remembers shm T) (hid : P.Has id) : P.Remembers (P.popped shm s id) T :=
  fun t c p hp => popped_history (h t c p hp) hid hp

/-- A message is none of the buffers pushed. -/
theorem pushed_chan (h : P.Remembers shm T) (hid : P.Has (.chan c))
    (hw : (shm s).writeIdx (P.off (.chan c)) < P.cap (.chan c) + 1) (hx : x.length = 8) :
    P.Remembers (P.pushed shm s (.chan c) x) T :=
  fun t c' p hp => pushed_history (h t c' p hp) hid hp hw hx (fun he => nomatch he.2)

/-- **A released buffer is one more.** -/
theorem released (h : P.Remembers shm T) {x : BufId} (hx : P.Has (.pool c x.1))
    (hcap : P.cap (.pool c x.1) < 2 ^ 16) :
    P.Remembers (P.pushed shm s.other (.pool c x.1) (bdBytes x 0))
      (T.set s c ((T s c).release x)) := by
  intro t c' p hp
  have hr := h t c' p hp
  by_cases hsame : t = s ∧ c' = c ∧ p = x.1
  · obtain ⟨rfl, rfl, rfl⟩ := hsame
    rw [Peers.pushed, Shm.set_self, Traffics.set_self]
    simp only [Traffic.release, Function.update_self]
    rw [← List.append_assoc, List.map_append]
    exact hr.pushBack hcap (bdBytes_length x 0)
  · have hT : (T.set s c ((T s c).release x) t c').acqs p
          ++ (T.set s c ((T s c).release x) t c').free p
        = (T t c').acqs p ++ (T t c').free p := by
      by_cases htc : t = s ∧ c' = c
      · obtain ⟨rfl, rfl⟩ := htc
        have hpx : p ≠ x.1 := fun he => hsame ⟨rfl, rfl, he⟩
        rw [Traffics.set_self]
        simp only [Traffic.release, Function.update_of_ne hpx]
      · rw [Traffics.set_of_ne htc]
    rw [hT]
    refine pushed_history hr hx hp (h s c x.1 hx).write_lt (bdBytes_length x 0) (fun he => ?_)
    obtain ⟨rfl, hpx⟩ := QueueId.pool.inj he.2
    refine hsame ⟨?_, rfl, hpx.symm⟩
    rw [← Side.other_other t, he.1, Side.other_other]

end Remembers

/-! ## What the applications know -/

/-- The offsets of addresses, as far as they are of one pool. -/
def ofPool (P : Peers) (c p base : ℕ) (l : List ℕ) : List ℕ :=
  (l.map (· - base)).filter (fun o =>
    P.shape.bufStart c p ≤ o ∧ o < P.shape.bufStart c p + (P.shape.pool c p).bufBytes)

/-- One more address belongs to its own pool. -/
theorem ofPool_append {x : BufId} (hp : P.Has (.pool c p)) (hx : P.HasBuf c x)
    (hpos : 0 < P.bufSize c x.1) (base : ℕ) (l : List ℕ) :
    P.ofPool c p base (l ++ [base + P.shape.bufOff c x])
      = P.ofPool c p base l ++ if p = x.1 then [P.shape.bufOff c x] else [] := by
  obtain ⟨hstart, hend⟩ := hx.in_pool
  rw [ofPool, List.map_append, List.filter_append, List.map_singleton, Nat.add_sub_cancel_left]
  by_cases hpx : p = x.1
  · subst hpx
    rw [if_pos rfl, List.filter_cons_of_pos (by simp only [decide_eq_true_eq]; omega)]
    rfl
  · rw [if_neg hpx, List.filter_cons_of_neg]
    · rfl
    · simp only [decide_eq_true_eq]
      exact fun hin => hpx (Prod.mk.inj (IpcShmCfg.bufOff_pool P.poolsGiven hx.1 hp hx.2 hin.1
        (Nat.le_of_lt hin.2))).2.symm

/-- **What two applications know of the traffic from `s`**: the sender the
buffers it holds, the receiver those delivered, and both their histories. -/
structure Tracks (P : Peers) (s : Side) (c : ℕ) (snd rcv : App) (T : Traffic) : Prop where
  inv : T.Inv (P.numPools c) (P.numBufs c)
  sized : ∀ p, T.acqs p ≠ [] → 0 < P.bufSize c p
  acquired : snd.acquired c = T.held.map (P.localBuf s c)
  delivered : rcv.delivered c = T.out.map (P.remoteBuf s.other c)
  acqs : ∀ p, P.Has (.pool c p) → P.ofPool c p (P.μ s).localShm (snd.acqs c)
    = (T.acqs p).map (fun i => P.shape.bufOff c (p, i))
  rels : ∀ p, P.Has (.pool c p) → P.ofPool c p (P.μ s.other).remoteShm (rcv.rels c)
    = (T.rels p).map (fun i => P.shape.bufOff c (p, i))

namespace Tracks

variable {snd rcv snd' rcv' : App} {T : Traffic} {x : BufId}

/-- Only what concerns the channel counts. -/
theorem congr (h : P.Tracks s c snd rcv T)
    (hsnd : snd'.acquired c = snd.acquired c ∧ snd'.acqs c = snd.acqs c)
    (hrcv : rcv'.delivered c = rcv.delivered c ∧ rcv'.rels c = rcv.rels c) :
    P.Tracks s c snd' rcv' T where
  inv := h.inv
  sized := h.sized
  acquired := hsnd.1.trans h.acquired
  delivered := hrcv.1.trans h.delivered
  acqs := fun p hp => by
    rw [hsnd.2]
    exact h.acqs p hp
  rels := fun p hp => by
    rw [hrcv.2]
    exact h.rels p hp

/-- A buffer that is not free is one of the channel, and has a size. -/
theorem hasBuf (h : P.Tracks s c snd rcv T) (hid : P.Has (.chan c)) (hx : x ∈ T.busy) :
    P.HasBuf c x ∧ 0 < P.bufSize c x.1 :=
  ⟨⟨hid.pool (h.inv.pool_lt x hx), h.inv.lt_of_mem_busy hx⟩,
    h.sized x.1 (List.ne_nil_of_mem (h.inv.mem_acqs hx))⟩

/-- A buffer that is not free is known by its offset. -/
theorem unique (h : P.Tracks s c snd rcv T) (hid : P.Has (.chan c)) {y : BufId}
    (hx : P.HasBuf c x) (hy : y ∈ T.busy) {base : ℕ}
    (heq : base + P.shape.bufOff c y = base + P.shape.bufOff c x) : y = x := by
  obtain ⟨hbuf, hpos⟩ := h.hasBuf hid hy
  exact (IpcShmCfg.bufOff_inj P.poolsGiven hx.1 hbuf.1 hx.2 hbuf.2 hpos
    (Nat.add_left_cancel heq).symm).2.symm

theorem acquire (h : P.Tracks s c snd rcv T) (hp : P.Has (.pool c p)) (hpos : 0 < P.bufSize c p)
    {i : ℕ} {rest : List ℕ} (hf : T.free p = i :: rest) :
    P.Tracks s c (snd.acquire c (P.localBuf s c (p, i))) rcv (T.acquire p i rest) := by
  have hx : P.HasBuf c (p, i) :=
    ⟨hp, h.inv.lt_of_mem_free hp.pool_lt (by rw [hf]; exact List.mem_cons_self)⟩
  refine ⟨h.inv.acquire hp.pool_lt hf, fun p' hne => ?_, ?_, h.delivered, fun p' hp' => ?_, h.rels⟩
  · by_cases hpp : p' = p
    · rw [hpp]
      exact hpos
    · simp only [Traffic.acquire, Function.update_of_ne hpp] at hne
      exact h.sized p' hne
  · simp only [App.acquire, Function.update_self, h.acquired]
    rfl
  · simp only [App.acquire, Function.update_self]
    rw [localBuf, ofPool_append hp' hx hpos, h.acqs p' hp']
    by_cases hpp : p' = p
    · subst hpp
      simp only [Traffic.acquire, Function.update_self, if_true, List.map_append,
        List.map_singleton]
    · simp only [Traffic.acquire, Function.update_of_ne hpp, if_neg hpp, List.append_nil]

theorem send (h : P.Tracks s c snd rcv T) (hid : P.Has (.chan c)) {msg : Message}
    (hm : msg.buf ∈ T.held) (size : ℕ) :
    P.Tracks s c (snd.transmit c (P.localBuf s c msg.buf) size) rcv (T.send msg) := by
  have hx := (h.hasBuf hid (Traffic.mem_busy_of_held hm)).1
  refine ⟨h.inv.send hm, h.sized, ?_, h.delivered, h.acqs, h.rels⟩
  simp only [App.transmit, Function.update_self, h.acquired]
  exact List.erase_map_of_unique (f := P.localBuf s c)
    (fun y hy heq => h.unique hid hx (Traffic.mem_busy_of_held hy) heq)

theorem receive (h : P.Tracks s c snd rcv T) {msg : Message} {rest : List Message}
    (ht : T.transit = msg :: rest) :
    P.Tracks s c snd (rcv.receive c (P.remoteBuf s.other c msg.buf) msg.size)
      (T.receive msg rest) := by
  refine ⟨h.inv.receive ht, h.sized, h.acquired, ?_, h.acqs, h.rels⟩
  simp only [App.receive, Function.update_self, h.delivered]
  rfl

theorem release (h : P.Tracks s c snd rcv T) (hid : P.Has (.chan c)) (hx : x ∈ T.out) :
    P.Tracks s c snd (rcv.release c (P.remoteBuf s.other c x)) (T.release x) := by
  obtain ⟨hbuf, hpos⟩ := h.hasBuf hid (Traffic.mem_busy_of_out hx)
  refine ⟨h.inv.release hx, h.sized, h.acquired, ?_, h.acqs, fun p hp => ?_⟩
  · simp only [App.release, Function.update_self, h.delivered]
    exact List.erase_map_of_unique (f := P.remoteBuf s.other c)
      (fun y hy heq => h.unique hid hbuf (Traffic.mem_busy_of_out hy) heq)
  · simp only [App.release, Function.update_self]
    rw [remoteBuf, ofPool_append hp hbuf hpos, h.rels p hp]
    by_cases hpp : p = x.1
    · subst hpp
      simp only [Traffic.release, Function.update_self, if_true, List.map_append,
        List.map_singleton]
    · simp only [Traffic.release, Function.update_of_ne hpp, if_neg hpp, List.append_nil]

end Tracks

/-! ## The system -/

/-- **Memory and applications are those of a traffic.** -/
structure Owns (P : Peers) (w : World) (T : Traffics) : Prop where
  rep : P.Rep w.shm T.lanes
  remembers : P.Remembers w.shm T
  tracks : ∀ s c, P.Has (.chan c) → P.Tracks s c (w.app s) (w.app s.other) (T s c)
  idle : ∀ s c, ¬P.Has (.chan c) → (w.app s).acquired c = [] ∧ (w.app s).delivered c = []

namespace Owns

variable {w : World} {T : Traffics}

theorem frame (h : P.Owns w T) (hs : P.SameRings w.shm shm') : P.Owns { w with shm := shm' } T :=
  ⟨h.rep.frame hs, h.remembers.frame hs, h.tracks, h.idle⟩

/-- **One direction of a channel moves on**; the others are not concerned. -/
theorem set (h : P.Owns w T) (hid : P.Has (.chan c)) {app : Side → App} {t : Traffic}
    (hrep : P.Rep shm' (T.lanes.set s c t.toLane)) (hrem : P.Remembers shm' (T.set s c t))
    (htr : P.Tracks s c (app s) (app s.other) t)
    (hsnd : ∀ s' c', ¬(s' = s ∧ c' = c) → (app s').acquired c' = (w.app s').acquired c' ∧
      (app s').acqs c' = (w.app s').acqs c')
    (hrcv : ∀ s' c', ¬(s' = s ∧ c' = c) →
      (app s'.other).delivered c' = (w.app s'.other).delivered c' ∧
      (app s'.other).rels c' = (w.app s'.other).rels c') :
    P.Owns { shm := shm', app := app } (T.set s c t) where
  rep := by
    rw [Traffics.lanes_set]
    exact hrep
  remembers := hrem
  tracks := fun s' c' hid' => by
    by_cases he : s' = s ∧ c' = c
    · obtain ⟨rfl, rfl⟩ := he
      rw [Traffics.set_self]
      exact htr
    · rw [Traffics.set_of_ne he]
      exact (h.tracks s' c' hid').congr (hsnd s' c' he) (hrcv s' c' he)
  idle := fun s' c' hn => by
    have hc : c' ≠ c := fun he => hn (he ▸ hid)
    have hd := (hrcv s'.other c' (fun he => hc he.2)).1
    rw [Side.other_other] at hd
    exact ⟨(hsnd s' c' (fun he => hc he.2)).1.trans (h.idle s' c' hn).1,
      hd.trans (h.idle s' c' hn).2⟩

/-- The sender moves one direction on. -/
theorem set_sender (h : P.Owns w T) (hid : P.Has (.chan c)) {a : App} {t : Traffic}
    (hrep : P.Rep shm' (T.lanes.set s c t.toLane)) (hrem : P.Remembers shm' (T.set s c t))
    (htr : P.Tracks s c a (w.app s.other) t)
    (hsnd : ∀ c', c' ≠ c → a.acquired c' = (w.app s).acquired c' ∧ a.acqs c' = (w.app s).acqs c')
    (hrcv : a.delivered = (w.app s).delivered ∧ a.rels = (w.app s).rels) :
    P.Owns ({ w with shm := shm' }.setApp s a) (T.set s c t) := by
  refine h.set hid hrep hrem ?_ (fun s' c' he => ?_) (fun s' c' _ =>
    ⟨congrFun (update_app App.delivered hrcv.1 s'.other) c',
      congrFun (update_app App.rels hrcv.2 s'.other) c'⟩)
  · dsimp only
    rw [Function.update_self, Function.update_of_ne (Side.other_ne s)]
    exact htr
  · dsimp only
    by_cases hs : s' = s
    · subst hs
      rw [Function.update_self]
      exact hsnd c' (fun hc => he ⟨rfl, hc⟩)
    · rw [Function.update_of_ne hs]
      exact ⟨rfl, rfl⟩

/-- The receiver moves one direction on. -/
theorem set_receiver (h : P.Owns w T) (hid : P.Has (.chan c)) {a : App} {t : Traffic}
    (hrep : P.Rep shm' (T.lanes.set s.other c t.toLane))
    (hrem : P.Remembers shm' (T.set s.other c t))
    (htr : P.Tracks s.other c (w.app s.other) a t)
    (hrcv : ∀ c', c' ≠ c → a.delivered c' = (w.app s).delivered c' ∧ a.rels c' = (w.app s).rels c')
    (hsnd : a.acquired = (w.app s).acquired ∧ a.acqs = (w.app s).acqs) :
    P.Owns ({ w with shm := shm' }.setApp s a) (T.set s.other c t) := by
  refine h.set hid hrep hrem ?_ (fun s' c' _ =>
    ⟨congrFun (update_app App.acquired hsnd.1 s') c', congrFun (update_app App.acqs hsnd.2 s') c'⟩)
    (fun s' c' he => ?_)
  · dsimp only
    rw [Side.other_other, Function.update_self, Function.update_of_ne (Side.other_ne s)]
    exact htr
  · dsimp only
    by_cases hs : s'.other = s
    · subst hs
      rw [Function.update_self]
      rw [Side.other_other] at he
      exact hrcv c' (fun hc => he ⟨rfl, hc⟩)
    · rw [Function.update_of_ne hs]
      exact ⟨rfl, rfl⟩

theorem acquire (h : P.Owns w T) (hup : P.Up s d) (hid : P.Has (.pool c p))
    (hpos : 0 < P.bufSize c p) {i : ℕ} {rest : List ℕ} (hf : (T s c).free p = i :: rest) :
    P.Owns (P.acquired s c (p, i) w) (T.set s c ((T s c).acquire p i rest)) := by
  have hch : P.Has (.chan c) := hid.chan
  refine h.set_sender hch (h.rep.acquire hid (hup.cap_lt hid) hf) ?_
    ((h.tracks s c hch).acquire hid hpos hf) (fun c' hc => ?_) ⟨rfl, rfl⟩
  · refine (h.remembers.popped hid).congr (fun s' c' p' _ => ?_)
    by_cases he : s' = s ∧ c' = c
    · obtain ⟨rfl, rfl⟩ := he
      rw [Traffics.set_self]
      by_cases hp : p' = p
      · subst hp
        simp only [Traffic.acquire, Function.update_self, hf, List.append_assoc,
          List.singleton_append]
      · simp only [Traffic.acquire, Function.update_of_ne hp]
    · rw [Traffics.set_of_ne he]
  · simp only [App.acquire, Function.update_of_ne hc, and_self]

theorem send (h : P.Owns w T) (hup : P.Up s d) (hid : P.Has (.chan c)) {x : BufId}
    (hx : x ∈ (T s c).held) {size : ℕ} (hsize : size < 2 ^ 32)
    (hroom : (T s c).transit.length < P.cap (.chan c)) :
    P.Owns (P.sent s c x (P.localBuf s c x) size w) (T.set s c ((T s c).send ⟨x, size⟩)) := by
  have htr := h.tracks s c hid
  have hbuf := (htr.hasBuf hid (Traffic.mem_busy_of_held hx)).1
  have hrep : P.Rep (P.pushed w.shm s (.chan c) (Message.mk x size).bytes)
    (T.lanes.set s c ((T s c).send ⟨x, size⟩).toLane) :=
    h.rep.send hid (hup.cap_lt hid) hroom hbuf hsize
  have hheld : (Message.mk x size).buf ∈ (T s c).held := hx
  refine h.set_sender hid hrep ?_ (htr.send hid hheld size) (fun c' hc => ?_) ⟨rfl, rfl⟩
  · refine (h.remembers.pushed_chan hid (h.rep.holds _ hid s).write_lt
      (bdBytes_length x size)).congr (fun s' c' p' _ => ?_)
    by_cases he : s' = s ∧ c' = c
    · obtain ⟨rfl, rfl⟩ := he
      rw [Traffics.set_self]
      rfl
    · rw [Traffics.set_of_ne he]
  · simp only [App.transmit, Function.update_of_ne hc, and_self]

theorem receive (h : P.Owns w T) (hup : P.Up s d) (hid : P.Has (.chan c)) {msg : Message}
    {rest : List Message} (ht : (T s.other c).transit = msg :: rest) :
    P.Owns (P.received s c msg w) (T.set s.other c ((T s.other c).receive msg rest)) := by
  have htr := h.tracks s.other c hid
  have hrec := htr.receive ht
  rw [Side.other_other] at hrec
  refine h.set_receiver hid (h.rep.receive hid (hup.cap_lt hid) ht) ?_ hrec (fun c' hc => ?_)
    ⟨rfl, rfl⟩
  · refine (h.remembers.popped hid).congr (fun s' c' p' _ => ?_)
    by_cases he : s' = s.other ∧ c' = c
    · obtain ⟨rfl, rfl⟩ := he
      rw [Traffics.set_self]
      rfl
    · rw [Traffics.set_of_ne he]
  · simp only [App.receive, Function.update_of_ne hc, and_self]

theorem release (h : P.Owns w T) (hup : P.Up s d) (hid : P.Has (.chan c)) {x : BufId}
    (hx : x ∈ (T s.other c).out)
    (hroom : ((T s.other c).free x.1).length < P.numBufs c x.1) :
    P.Owns (P.released s c x (P.remoteBuf s c x) w)
      (T.set s.other c ((T s.other c).release x)) := by
  have htr := h.tracks s.other c hid
  have hbuf := (htr.hasBuf hid (Traffic.mem_busy_of_out hx)).1
  have hrel := htr.release hid hx
  have hrem := h.remembers.released (s := s.other) hbuf.1 (hup.cap_lt hbuf.1)
  rw [Side.other_other] at hrel hrem
  refine h.set_receiver hid (h.rep.release hbuf (hup.cap_lt hbuf.1) hroom) hrem hrel
    (fun c' hc => ?_) ⟨rfl, rfl⟩
  simp only [App.release, Function.update_of_ne hc, and_self]

end Owns

/-- **Applications that own what they pass on**: they transmit buffers they
acquired and did not transmit, and release buffers that were delivered to them
and that they did not release. -/
def owners (P : Peers) : Manners where
  tx := fun s w buf => ∃ c, c < P.numChannels ∧ buf ∈ (w.app s).acquired c
  release := fun s w buf => ∃ c, c < P.numChannels ∧ buf ∈ (w.app s).delivered c

namespace Owns

variable {w : World} {T : Traffics} {buf : ℕ} {x : BufId}

/-- The address of a held buffer names it. -/
theorem of_acquired (h : P.Owns w T) (hg : P.owners.tx s w buf) (hx : P.HasBuf c x)
    (hin : P.InBuf s false c x buf) : x ∈ (T s c).held ∧ buf = P.localBuf s c x := by
  obtain ⟨c', -, hbuf⟩ := hg
  have hid' : P.Has (.chan c') := by
    by_contra hn
    rw [(h.idle s c' hn).1] at hbuf
    exact nomatch hbuf
  have htr := h.tracks s c' hid'
  rw [htr.acquired] at hbuf
  obtain ⟨y, hy, rfl⟩ := List.mem_map.mp hbuf
  obtain ⟨hyb, hpos⟩ := htr.hasBuf hid' (Traffic.mem_busy_of_held hy)
  obtain ⟨rfl, rfl⟩ := InBuf.of_start hin hx hyb hpos
  exact ⟨hy, rfl⟩

/-- The address of a delivered buffer names it. -/
theorem of_delivered (h : P.Owns w T) (hg : P.owners.release s w buf) (hx : P.HasBuf c x)
    (hin : P.InBuf s true c x buf) : x ∈ (T s.other c).out ∧ buf = P.remoteBuf s c x := by
  obtain ⟨c', -, hbuf⟩ := hg
  have hid' : P.Has (.chan c') := by
    by_contra hn
    rw [(h.idle s c' hn).2] at hbuf
    exact nomatch hbuf
  have htr := h.tracks s.other c' hid'
  have hdel := htr.delivered
  rw [Side.other_other] at hdel
  rw [hdel] at hbuf
  obtain ⟨y, hy, rfl⟩ := List.mem_map.mp hbuf
  obtain ⟨hyb, hpos⟩ := htr.hasBuf hid' (Traffic.mem_busy_of_out hy)
  obtain ⟨rfl, rfl⟩ := InBuf.of_start hin hx hyb hpos
  exact ⟨hy, rfl⟩

/-- What an application holds it acquired. -/
theorem mem_acqs (h : P.Owns w T) (hbuf : buf ∈ (w.app s).acquired c) :
    buf ∈ (w.app s).acqs c := by
  have hid : P.Has (.chan c) := by
    by_contra hn
    rw [(h.idle s c hn).1] at hbuf
    exact List.not_mem_nil hbuf
  have htr := h.tracks s c hid
  rw [htr.acquired] at hbuf
  obtain ⟨x, hx, rfl⟩ := List.mem_map.mp hbuf
  have hbusy := Traffic.mem_busy_of_held hx
  have hb := (htr.hasBuf hid hbusy).1
  have hmem : P.shape.bufOff c x ∈ P.ofPool c x.1 (P.μ s).localShm ((w.app s).acqs c) := by
    rw [htr.acqs x.1 hb.1]
    exact List.mem_map.mpr ⟨x.2, htr.inv.mem_acqs hbusy, rfl⟩
  obtain ⟨a, ha, hoff⟩ := List.mem_map.mp (List.mem_filter.mp hmem).1
  have hpos := bufOff_pos hb
  obtain rfl : a = P.localBuf s c x := by
    unfold localBuf
    omega
  exact ha

/-- **The moves of the system are moves of the traffic.** -/
theorem moves (h : P.Owns w T) {drv : Side → Driver} (hup : ∀ s, P.Up s (drv s))
    {J : World → Prop} (hJ : ∀ w' T', P.Owns w' T' → J w') : P.Moves P.owners J w T.lanes := by
  refine ⟨h.rep, fun s c p i rest hid hpos hf => ?_, fun s c x buf size hg hx hin hsize hroom => ?_,
    fun s c msg rest hid ht => ?_, fun s c x buf hg hx hin hroom => ?_⟩
  · exact hJ _ _ (h.acquire (hup s) hid hpos hf)
  · obtain ⟨hheld, rfl⟩ := h.of_acquired hg hx hin
    exact hJ _ _ (h.send (hup s) hx.1.chan hheld hsize hroom)
  · exact hJ _ _ (h.receive (hup s) hid ht)
  · obtain ⟨hout, rfl⟩ := h.of_delivered hg hx hin
    exact hJ _ _ (h.release (hup s) hx.1.chan hout hroom)

end Owns

/-- Both peers have just started: all buffers are free. -/
theorem Fresh.owns {σ : PeerSys} (h : P.Fresh σ) :
    P.Owns σ.world (fun _ c => { free := P.allBufs c }) where
  rep := h.rep
  remembers := fun s c p hid => (h.standing s.other).pushed c p hid
  tracks := fun s c hid => by
    rw [h.app_eq s, h.app_eq s.other]
    exact ⟨Traffic.Inv.fresh (fun p _ => List.Perm.refl _), fun _ hne => absurd rfl hne, rfl, rfl,
      fun _ _ => rfl, fun _ _ => rfl⟩
  idle := fun s c _ => by
    rw [h.app_eq s]
    exact ⟨rfl, rfl⟩

end Peers

/-! ## One owner -/

/-- The descriptor names the buffer. -/
def IpcShmBd.names (bd : IpcShmBd) (x : BufId) : Bool := bd.poolId = x.1 ∧ bd.bufId = x.2

instance (P : Peers) (w : World) (a : PeerAct) : Decidable (P.owners.Minds w a) :=
  match a with
  | .tx s _ buf _ =>
    inferInstanceAs (Decidable (∃ c, c < P.numChannels ∧ buf ∈ (w.app s).acquired c))
  | .release s _ buf =>
    inferInstanceAs (Decidable (∃ c, c < P.numChannels ∧ buf ∈ (w.app s).delivered c))
  | .acquire _ _ _ | .unmanagedTx _ _ | .rx _ _ | .rxReturn _ | .free _ | .crash _ | .init _ =>
    inferInstanceAs (Decidable True)

namespace Peers

variable {P : Peers} {σ σ' : PeerSys}

/-- **The calls of applications that own what they pass on.** -/
def ownerStep (P : Peers) (σ : PeerSys) (a : PeerAct) : Option PeerSys :=
  if a.isCall = true ∧ P.owners.Minds σ.world a then P.step σ a else none

/-- **Every buffer has one owner.** -/
structure OneOwner (P : Peers) (σ : PeerSys) : Prop where
  /-- It is free, or held by the sender, or under way, or held by the
  receiver, and only once. -/
  place : ∀ s c p, P.Has (.pool c p) → ∀ i, i < P.numBufs c p →
    (P.descriptors σ.world.shm s.other (.pool c p)).countP (·.names (p, i))
      + ((σ.world.app s).acquired c).count (P.localBuf s c (p, i))
      + (P.descriptors σ.world.shm s (.chan c)).countP (·.names (p, i))
      + ((σ.world.app s.other).delivered c).count (P.remoteBuf s.other c (p, i)) = 1
  /-- What is acquired was free. -/
  acquire : ∀ s c memSize, ∃ r shm',
    (ipcShmAcquireBuf (σ.drv s) (P.inst s) c memSize).run (memHandle (P.μ s) s) σ.world.shm
        = some (r, shm') ∧
      (r ≠ 0 → ∃ x, P.HasBuf c x ∧ r = P.localBuf s c x ∧
        (P.descriptors σ.world.shm s.other (.pool c x.1)).any (·.names x))
  /-- There is room to transmit what was acquired. -/
  tx : ∀ s buf, P.owners.tx s σ.world buf → ∀ (chanId : ℤ) (size : UInt32), ∃ r shm',
    (ipcShmTx (σ.drv s) (P.inst s) chanId buf size.toNat).run (memHandle (P.μ s) s) σ.world.shm
        = some (r, shm') ∧ r ≠ -ENOMEM
  /-- There is room to release what was delivered. -/
  release : ∀ s buf, P.owners.release s σ.world buf → ∀ c, ∃ r shm',
    (ipcShmReleaseBuf (σ.drv s) (P.inst s) c buf).run (memHandle (P.μ s) s) σ.world.shm
        = some (r, shm') ∧ r ≠ -ENOMEM

/-- The applications are those of a traffic. -/
def AllOwned (P : Peers) (w : World) : Prop := ∃ T, P.Owns w T

theorem AllOwned.moves {w : World} (h : P.AllOwned w) {drv : Side → Driver}
    (hup : ∀ s, P.Up s (drv s)) : ∃ L, P.Moves P.owners P.AllOwned w L := by
  obtain ⟨T, hown⟩ := h
  exact ⟨_, hown.moves hup (fun w' T' h' => ⟨T', h'⟩)⟩

theorem Kept.ownerStep (hpos : 0 < P.numChannels) (h : P.Kept P.AllOwned σ) {a : PeerAct}
    (hstep : P.ownerStep σ a = some σ') : P.Kept P.AllOwned σ' := by
  unfold Peers.ownerStep at hstep
  split at hstep
  · rename_i hg
    refine h.step hpos (fun w shm' hw hs => ?_) (fun w hw => hw.moves h.up) hg.1 hg.2 hstep
    obtain ⟨T, hown⟩ := hw
    exact ⟨T, hown.frame hs⟩
  · exact nomatch hstep

/-- The descriptors of a free buffer. -/
theorem Rep.countP_pool {shm : Shm} {L : Lanes} {s : Side} {d : Driver} {c p i : ℕ}
    (h : P.Rep shm L) (hup : P.Up s d) (hid : P.Has (.pool c p)) :
    (P.descriptors shm s.other (.pool c p)).countP (·.names (p, i)) = ((L s c).free p).count i := by
  rw [h.descriptors_pool hup hid, List.countP_map, List.count]
  refine List.countP_congr (fun j _ => ?_)
  simp [IpcShmBd.names]

namespace Owns

variable {w : World} {T : Traffics} {s : Side} {d : Driver} {c p i : ℕ}

theorem countP_pool (h : P.Owns w T) (hup : P.Up s d) (hid : P.Has (.pool c p)) :
    (P.descriptors w.shm s.other (.pool c p)).countP (·.names (p, i))
      = ((T s c).free p).count i :=
  h.rep.countP_pool hup hid

/-- The descriptors of a message. -/
theorem countP_chan (h : P.Owns w T) (hup : P.Up s d) (hid : P.Has (.chan c)) :
    (P.descriptors w.shm s (.chan c)).countP (·.names (p, i))
      = ((T s c).transit.map Message.buf).count (p, i) := by
  rw [h.rep.descriptors_chan hup hid, List.countP_map, List.count, List.countP_map]
  refine List.countP_congr (fun msg _ => ?_)
  simp only [Function.comp_apply, IpcShmBd.names, Message.bd, beq_iff_eq, Prod.ext_iff]
  exact decide_eq_true_iff.trans (and_congr Int.natCast_inj Iff.rfl)

theorem oneOwner_place (h : P.Owns w T) (hup : P.Up s d)
    (hid : P.Has (.pool c p)) (hi : i < P.numBufs c p) :
    (P.descriptors w.shm s.other (.pool c p)).countP (·.names (p, i))
      + ((w.app s).acquired c).count (P.localBuf s c (p, i))
      + (P.descriptors w.shm s (.chan c)).countP (·.names (p, i))
      + ((w.app s.other).delivered c).count (P.remoteBuf s.other c (p, i)) = 1 := by
  have hch : P.Has (.chan c) := hid.chan
  have htr := h.tracks s c hch
  have hx : P.HasBuf c (p, i) := ⟨hid, hi⟩
  rw [h.countP_pool hup hid, h.countP_chan hup hch, htr.acquired, htr.delivered,
    List.count_map_of_unique (f := P.localBuf s c)
      (fun y hy heq => htr.unique hch hx (Traffic.mem_busy_of_held hy) heq),
    List.count_map_of_unique (f := P.remoteBuf s.other c)
      (fun y hy heq => htr.unique hch hx (Traffic.mem_busy_of_out hy) heq)]
  have hcount := htr.inv.count_free_add hid.pool_lt i
  have hi : i < P.numBufs c p := hi
  rw [if_pos hi, Traffic.count_busy] at hcount
  omega

theorem oneOwner (h : P.Owns σ.world T) (hup : ∀ s, P.Up s (σ.drv s)) : P.OneOwner σ where
  place := fun s c p hid i hi => h.oneOwner_place (hup s) hid hi
  acquire := fun s c memSize => by
    obtain ⟨r, shm', L', hrun, ho⟩ := ipcShmAcquireBuf_run (hup s) h.rep c memSize
    refine ⟨r, shm', hrun, fun hr => ?_⟩
    cases ho with
    | none => exact absurd rfl hr
    | @buffer p i rest hid hpos _ hf =>
      have hmem : i ∈ (T s c).free p := by
        rw [show (T s c).free p = i :: rest from hf]
        exact List.mem_cons_self
      refine ⟨(p, i), ⟨hid, (h.tracks s c hid.chan).inv.lt_of_mem_free hid.pool_lt hmem⟩, rfl, ?_⟩
      rw [h.rep.descriptors_pool (hup s) hid, List.any_eq_true]
      exact ⟨_, List.mem_map_of_mem hmem, by simp [IpcShmBd.names]⟩
  tx := fun s buf hg chanId size => by
    obtain ⟨r, shm', L', hrun, ho⟩ := ipcShmTx_run (hup s) h.rep chanId buf size.toNat
    refine ⟨r, shm', hrun, ?_⟩
    cases ho with
    | rejected => decide
    | sent => decide
    | full hx hle hlt hfull =>
      obtain ⟨hheld, -⟩ := h.of_acquired hg hx ⟨hle, hlt⟩
      have hroom := (h.tracks s _ hx.1.chan).inv.length_transit_lt hheld
      exact absurd hfull (Nat.ne_of_lt hroom)
  release := fun s buf hg c => by
    obtain ⟨r, shm', L', hrun, ho⟩ := ipcShmReleaseBuf_run (hup s) h.rep c buf
    refine ⟨r, shm', hrun, ?_⟩
    cases ho with
    | rejected => decide
    | released => decide
    | full hx hle hlt hfull =>
      obtain ⟨hout, -⟩ := h.of_delivered hg hx ⟨hle, hlt⟩
      have hroom := (h.tracks s.other c hx.1.chan).inv.length_free_lt (Traffic.mem_busy_of_out hout)
      exact absurd hfull (Nat.ne_of_lt hroom)

end Owns

end Peers

/-- **Ownership is exclusive.** Two peers start with symmetric configurations
that fit, and their applications acquire, transmit, receive and release in any
order, each passing on only what it owns. In every state they reach, every
buffer of every pool has one owner. -/
theorem buffers_owned_once (P : Peers) {σ₀ σ : PeerSys} (hstart : P.Started σ₀)
    (hr : Steps.Reach P.ownerStep σ₀ σ) : P.OneOwner σ := by
  have hfresh := hstart.fresh
  have hkept : P.Kept P.AllOwned σ := hr.invariant
    (hfresh.kept ⟨_, hfresh.owns⟩)
    (fun _ _ _ h hstep => h.ownerStep hfresh.numChannels_pos hstep)
  obtain ⟨T, hown⟩ := hkept.world
  exact hown.oneOwner hkept.up

/-- A message from peer `a` to peer `b`, on the sample configuration: the
buffer goes all the way and back. -/
def roundTripActs : List PeerAct :=
  [.acquire .a 0 16, .tx .a 0 0x1060 4, .rx .b 8, .rxReturn .b, .release .b 0 0x4060]

/-- After a round trip, and in every state on the way, the sample buffers have
one owner. -/
theorem buffers_owned_once_roundTrip : ∃ σ₀ σ, samplePeers.Started σ₀ ∧
    Steps.Reach samplePeers.ownerStep σ₀ σ ∧ (σ.world.app .b).rels 0 = [0x4060] ∧
    samplePeers.OneOwner σ := by
  have hrun : (samplePeers.boot .a (fun _ _ => 0)).bind (fun σ₀ =>
      (Steps.runActs samplePeers.ownerStep roundTripActs σ₀).map
        (fun σ => (σ.world.app .b).rels 0)) = some [0x4060] := by decide +kernel
  obtain ⟨σ₀, hboot, hrun⟩ := Option.bind_eq_some_iff.mp hrun
  obtain ⟨σ, hσ, hrels⟩ := Option.map_eq_some_iff.mp hrun
  have hstart : samplePeers.Started σ₀ :=
    ⟨.a, fun _ _ => 0, fun id _ => Adoptable.cleared _ _, hboot⟩
  have hreach := Steps.reach_of_runActs hσ
  exact ⟨σ₀, σ, hstart, hreach, hrels, buffers_owned_once samplePeers hstart hreach⟩
