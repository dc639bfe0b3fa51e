import IpcShm.PeerSystem

/-!
# Fair handling

`ipc_shm_rx` promises that all channels are treated equally. The promise is
kept round by round: in each round every channel gets the same share, and a
channel takes less than its share only if it has nothing left. So after
rounds that gave out `given` messages in all, the first `given` messages of
every channel are gone – or all of them, if it had fewer. This is the whole
invariant, and it is max-min fairness: a channel that still has messages got
all it was given, and no channel got more.

The backlogs do not change during the call other than by the call itself,
but the application may act in its callbacks. `appHandle` lets it do anything
there, with memory and with a state of its own; that the backlogs stay as
they are is a hypothesis about it.

One instance is enough here. Results about two peers are used through
`Peers.mirror`: an instance faces a peer that is configured like it.
-/

/-! ## The application in its callbacks -/

section App

variable {α β : Type} {μ : ShmMap} {s : Side} {cb : Op → Shm × α → Shm × α}
  {oob : ℤ → IpcShmPool}

/-- **Memory requests are answered from the windows, callbacks by the
application.** It may change memory and a state of its own. A read outside
`pools` finds what `oob` says. -/
def appHandle (μ : ShmMap) (s : Side) (cb : Op → Shm × α → Shm × α) (oob : ℤ → IpcShmPool) :
    (o : Op) → Shm × α → Option (o.Ret × (Shm × α))
  | .rxCb f arg inst chanId buf size, w =>
    some ((), cb (.rxCb f arg inst chanId buf size) w)
  | .rxCbUnmanaged f arg inst chanId mem, w =>
    some ((), cb (.rxCbUnmanaged f arg inst chanId mem) w)
  | .poolsOutOfBounds i, w => some (oob i, w)
  | o, w => (memHandle μ s o w.1).map (fun r => (r.1, (r.2, w.2)))

/-- Requests that are not addressed to the application are answered from
memory. -/
theorem appHandle_of_quiet {X : ℕ → ℕ → Prop} {o : Op} (ho : Quiet X o) {w : Shm × α}
    {r : o.Ret} {shm' : Shm} (h : memHandle μ s o w.1 = some (r, shm')) :
    appHandle μ s cb oob o w = some (r, (shm', w.2)) := by
  cases o with
  | rxCb _ _ _ _ _ _ => exact False.elim ho
  | rxCbUnmanaged _ _ _ _ _ => exact False.elim ho
  | poolsOutOfBounds i => exact False.elim ho
  | _ => exact congrArg (Option.map (fun r => (r.1, (r.2, w.2)))) h

theorem wp_app_op {o : Op} {k : o.Ret → Drv β} {w : Shm × α} {r : o.Ret} {shm' : Shm}
    {Q : β → Shm × α → Prop} (hr : memHandle μ s o w.1 = some (r, shm'))
    (ho : Quiet (fun _ _ => True) o)
    (hk : (k r).wp (Program.answering (appHandle μ s cb oob)) Q (shm', w.2)) :
    (Program.op o k).wp (Program.answering (appHandle μ s cb oob)) Q w :=
  ⟨r, (shm', w.2), appHandle_of_quiet ho hr, hk⟩

/-- A program that does not involve the application. -/
theorem wp_app_of_quiet {X : ℕ → ℕ → Prop} {Q₀ : β → Prop} {p : Drv β}
    (hp : p.Always (Env μ) (Quiet X) Q₀) {w : Shm × α} {b : β} {shm' : Shm}
    (hrun : p.run (memHandle μ s) w.1 = some (b, shm')) {Q : β → Shm × α → Prop}
    (hQ : Q b (shm', w.2)) : p.wp (Program.answering (appHandle μ s cb oob)) Q w := by
  induction p generalizing w with
  | pure b' =>
    obtain ⟨rfl, rfl⟩ := Prod.mk.inj (Option.some.inj hrun)
    exact hQ
  | op o k ih =>
    obtain ⟨⟨r, shm₁⟩, hr, hrun⟩ := Option.bind_eq_some_iff.mp hrun
    exact ⟨r, (shm₁, w.2), appHandle_of_quiet hp.1 hr,
      ih r (hp.2 r (env_of_memHandle o w.1 r shm₁ hr)) (w := (shm₁, w.2)) hrun hQ⟩

theorem run_app_of_quiet {X : ℕ → ℕ → Prop} {Q₀ : β → Prop} {p : Drv β}
    (hp : p.Always (Env μ) (Quiet X) Q₀) {w : Shm × α} {b : β} {shm' : Shm}
    (hrun : p.run (memHandle μ s) w.1 = some (b, shm')) :
    p.run (appHandle μ s cb oob) w = some (b, (shm', w.2)) := by
  obtain ⟨b', w', hrun', rfl, rfl⟩ := (Program.wp_answering_iff p).mp (wp_app_of_quiet hp hrun
    (Q := fun b' w' => b' = b ∧ w' = (shm', w.2)) ⟨rfl, rfl⟩)
  exact hrun'

end App

/-! ## Backlogs -/

/-- **The backlogs of an instance**: both rings of each channel queue are
initialized, and the incoming one holds the given descriptors. -/
def IpcShmCfg.Backlog (cfg : IpcShmCfg) (s : Side) (shm : Shm) (xs : ℕ → List (List UInt8)) :
    Prop :=
  ∀ c, cfg.HasQueue (.chan c) → shm.Done (cfg.queueOff (.chan c)) ∧
    RingHolds (cfg.queueOff (.chan c)) (cfg.queueCap (.chan c)) 8 (shm s.other) (shm s) (xs c)

namespace IpcShmCfg.Backlog

variable {cfg : IpcShmCfg} {s : Side} {shm shm' : Shm} {xs ys : ℕ → List (List UInt8)} {c : ℕ}

theorem congr (h : cfg.Backlog s shm xs) (hxs : ∀ c, cfg.HasQueue (.chan c) → xs c = ys c) :
    cfg.Backlog s shm ys := fun c hc => ⟨(h c hc).1, hxs c hc ▸ (h c hc).2⟩

theorem frame (h : cfg.Backlog s shm xs)
    (hs : ∀ c, cfg.HasQueue (.chan c) → ∀ t,
      (shm t).SameOn (shm' t) (cfg.queueOff (.chan c)) (ringBytes (cfg.queueCap (.chan c)))) :
    cfg.Backlog s shm' xs := fun c hc =>
  ⟨fun t => ((hs c hc t).sentinel).trans ((h c hc).1 t),
    (h c hc).2.frame (hs c hc s.other) (hs c hc s)⟩

/-- **Popping a channel** shortens its backlog, and no other. -/
theorem pop (h : cfg.Backlog s shm xs) (hg : cfg.PoolsGiven) (hc : cfg.HasQueue (.chan c))
    (hcap : cfg.queueCap (.chan c) < 2 ^ 16) {x : List UInt8} {rest : List (List UInt8)}
    (hx : xs c = x :: rest) :
    cfg.Backlog s (shm.set s ((shm s).popFront (cfg.queueOff (.chan c))
      (cfg.queueCap (.chan c) + 1))) (Function.update xs c rest) := by
  intro c' hc'
  obtain ⟨hdone, hring⟩ := h c' hc'
  by_cases heq : c' = c
  · subst heq
    rw [hx] at hring
    refine ⟨fun t => ?_, ?_⟩
    · rcases Side.eq_or_eq_other s t with rfl | rfl
      · rw [Shm.set_self, ByteMem.sentinel_popFront]
        exact hdone _
      · rw [Shm.set_other]
        exact hdone _
    · rw [Shm.set_self, Shm.set_other, Function.update_self]
      exact hring.popFront hcap
  · have hne : QueueId.chan c ≠ QueueId.chan c' := fun h => heq (QueueId.chan.inj h).symm
    have hsame := ByteMem.sameOn_popFront (m := shm s) (M := cfg.queueCap (.chan c) + 1)
      (cfg.queue_apart hg hc hc' hne)
    refine ⟨fun t => ?_, ?_⟩
    · rcases Side.eq_or_eq_other s t with rfl | rfl
      · rw [Shm.set_self, hsame.sentinel]
        exact hdone _
      · rw [Shm.set_other]
        exact hdone _
    · rw [Shm.set_self, Shm.set_other, Function.update_of_ne heq]
      exact hring.frame (ByteMem.SameOn.refl _ _ _) hsame

end IpcShmCfg.Backlog

/-! ## One turn of a channel -/

/-- **An unmanaged channel with a notification** that has not been seen, at the
given offset: both headers are initialized, and the counters differ. -/
def Shm.Notified (shm : Shm) (s : Side) (off : ℕ) : Prop :=
  (shm s).load 4 off = ipcUchanInitDone ∧ (shm s.other).load 4 off = ipcUchanInitDone ∧
    (shm s.other).load 4 (off + 4) ≠ (shm s).load 4 (off + 8)

/-- A notification is seen in the sixteen bytes of the headers. -/
theorem Shm.notified_congr {shm shm' : Shm} {s : Side} {off : ℕ}
    (h : ∀ t, (shm t).SameOn (shm' t) off 16) : shm.Notified s off ↔ shm'.Notified s off := by
  have hload : ∀ t i, i + 4 ≤ 16 → (shm' t).load 4 (off + i) = (shm t).load 4 (off + i) :=
    fun t i hi => ByteMem.load_congr (fun j hj => h t _ (by omega) (by omega))
  have hsentinel := fun t => hload t 0 (by decide)
  simp only [Nat.add_zero] at hsentinel
  unfold Shm.Notified
  rw [hsentinel, hsentinel, hload s 8 (by decide), hload s.other 4 (by decide)]

namespace Peers

variable {P : Peers} {s : Side} {d : Driver} {c : ℕ} {α : Type}
  {cb : Op → Shm × α → Shm × α} {oob : ℤ → IpcShmPool} {xs : ℕ → List (List UInt8)}

/-- **The backlogs are static**: the application does not touch them. -/
def Static (P : Peers) (s : Side) (cb : Op → Shm × α → Shm × α) : Prop :=
  ∀ o w xs, P.shape.Backlog s w.1 xs → P.shape.Backlog s (cb o w).1 xs

/-- **A predicate that tracks the backlogs**: it says what they are, and maybe
more that neither the application nor the popping of a message changes. -/
structure Backlogged (P : Peers) (s : Side) (cb : Op → Shm × α → Shm × α)
    (B : (ℕ → List (List UInt8)) → Shm → Prop) : Prop where
  backlog : ∀ {xs shm}, B xs shm → P.shape.Backlog s shm xs
  callback : ∀ o w xs, B xs w.1 → B xs (cb o w).1
  pop : ∀ {xs shm c x rest}, P.Has (.chan c) → P.cap (.chan c) < 2 ^ 16 → xs c = x :: rest →
    B xs shm → B (Function.update xs c rest)
      (shm.set s ((shm s).popFront (P.off (.chan c)) (P.cap (.chan c) + 1)))

theorem Static.tracks (hcb : P.Static s cb) :
    P.Backlogged s cb (fun xs shm => P.shape.Backlog s shm xs) where
  backlog := id
  callback := hcb
  pop := fun hid hcap hx hw => hw.pop P.poolsGiven hid hcap hx

variable {B : (ℕ → List (List UInt8)) → Shm → Prop}

theorem handleBd_tracked (hB : P.Backlogged s cb B) (bd : IpcShmBd) {w : Shm × α} (hw : B xs w.1) :
    (handleBd d (P.inst s) c bd).wp (Program.answering (appHandle (P.μ s) s cb oob))
      (fun _ w' => B xs w'.1) w := by
  have hpool : (((d.priv (P.inst s)).channels c).mng.poolAt bd.poolId).wp
      (Program.answering (appHandle (P.μ s) s cb oob)) (fun _ w' => w' = w) w := by
    unfold IpcManagedChannel.poolAt
    split
    · rfl
    · exact ⟨_, _, rfl, rfl⟩
  rw [handleBd, Program.wp_bind]
  refine Program.wp_mono Program.monotone_answering _ (fun pool w' hw' => ?_) hpool
  subst hw'
  dsimp only
  split
  · exact ⟨(), _, rfl, hB.callback _ _ _ hw⟩
  · exact hw

/-- The next message is popped and handled, or there is none. -/
theorem popBd_tracked (hup : P.Up s d) (hB : P.Backlogged s cb B) (hid : P.Has (.chan c))
    {w : Shm × α} (hw : B xs w.1) :
    (popBd ((d.priv (P.inst s)).channels c).mng.bdQueue).wp
      (Program.answering (appHandle (P.μ s) s cb oob)) (fun msg w' =>
        (msg = none → B xs w'.1 ∧ xs c = []) ∧
          ∀ bd, msg = some bd → ∃ x rest, xs c = x :: rest ∧
            B (Function.update xs c rest) w'.1) w := by
  have hat := hup.queue_at hid
  have halw : (ipcQueuePop ((d.priv (P.inst s)).queue (.chan c))).Always (Env (P.μ s))
      (Quiet (fun _ _ => True)) (fun _ => True) :=
    (ipcQueuePop_always (Or.inr (hup.queue_eq hid)) (fun _ _ _ => trivial)).mono
      (fun _ h => h) (fun _ _ => trivial)
  obtain ⟨hdone, hring⟩ := hB.backlog hw c hid
  rw [popBd, Program.wp_bind]
  cases hx : xs c with
  | nil =>
    rw [hx] at hring
    exact wp_app_of_quiet halw (ipcQueuePop_run_empty hat (hup.elemNum_eq hid) hdone
      (by rw [hup.elemSize_eq hid]; exact hring)) ⟨fun _ => ⟨hw, rfl⟩,
        fun _ h => absurd h (Option.some_ne_none _).symm⟩
  | cons x rest =>
    rw [hx] at hring
    have hpop := ipcQueuePop_run hat (hup.elemNum_eq hid) hdone
      (by rw [hup.elemSize_eq hid]; exact hring)
    rw [hup.elemNum_eq hid] at hpop
    exact wp_app_of_quiet halw hpop ⟨fun h => absurd h (Option.some_ne_none _),
      fun _ _ => ⟨x, rest, rfl, hB.pop hid (hup.cap_lt hid) hx hw⟩⟩

/-- **A managed channel takes its share**, or all it has. -/
theorem managedTurn_tracked (hup : P.Up s d) (hB : P.Backlogged s cb B) (hid : P.Has (.chan c))
    (share : ℕ) {w : Shm × α} (hw : B xs w.1) :
    (ipcChannelRx d (P.inst s) c share).wp (Program.answering (appHandle (P.μ s) s cb oob))
      (fun n w' => n = min share (xs c).length ∧
        B (Function.update xs c ((xs c).drop share)) w'.1) w := by
  have hH : Program.MonotoneReading (Program.answering (appHandle (P.μ s) s cb oob)) :=
    Program.monotone_answering
  unfold ipcChannelRx
  dsimp only
  rw [(hup.managed hid).1, if_neg (by decide)]
  -- what was taken so far was there
  refine Program.wp_mono hH _ (fun n w' hn => ?_)
    (drainChannel_rule hH
      (I := fun k w => k ≤ (xs c).length ∧ B (Function.update xs c ((xs c).drop k)) w.1)
      (Q := fun k w => (k ≤ (xs c).length ∧ B (Function.update xs c ((xs c).drop k)) w.1) ∧
        (xs c).drop k = []) (fun k w hk => ?_) share 0 ⟨Nat.zero_le _, by simpa using hw⟩)
  · obtain ⟨-, hle, hfull, hdry⟩ := hn
    rw [Nat.zero_add] at hle hfull hdry
    rcases Nat.lt_or_eq_of_le hle with hlt | heq
    · -- nothing was left before the share was used up
      obtain ⟨⟨hlen, hb⟩, hnil⟩ := hdry hlt
      have hnil' : (xs c).drop share = [] := by
        rw [List.drop_eq_nil_iff] at hnil ⊢
        omega
      rw [List.drop_eq_nil_iff] at hnil
      rw [List.drop_eq_nil_of_le hnil] at hb
      rw [hnil']
      exact ⟨by omega, hb⟩
    · subst heq
      obtain ⟨hlen, hb⟩ := hfull rfl
      exact ⟨(Nat.min_eq_left hlen).symm, hb⟩
  · obtain ⟨hlen, hk⟩ := hk
    refine Program.wp_mono hH _ (fun msg w' hmsg => ⟨fun hnone => ?_, fun bd hbd => ?_⟩)
      (popBd_tracked hup hB hid hk)
    · obtain ⟨hb, hnil⟩ := hmsg.1 hnone
      rw [Function.update_self] at hnil
      exact ⟨⟨hlen, hb⟩, hnil⟩
    · obtain ⟨x, rest, hx, hb⟩ := hmsg.2 bd hbd
      rw [Function.update_self] at hx
      rw [Function.update_idem] at hb
      have hrest : (xs c).drop (k + 1) = rest := by
        rw [← List.drop_drop, hx, List.drop_one, List.tail_cons]
      have hlt : k + 1 ≤ (xs c).length := by
        have := congrArg List.length hx
        rw [List.length_drop, List.length_cons] at this
        omega
      rw [hrest]
      exact Program.wp_mono hH _ (fun _ _ hb => ⟨hlt, hb⟩) (handleBd_tracked hB bd hb)

/-- **An unmanaged channel** takes its share for a notification: the counter is
copied and the application called. Else nothing happens. -/
theorem unmanagedTurn_cases (hup : P.Up s d) (hc : c < P.numChannels) (hid : ¬P.Has (.chan c))
    (share : ℕ) (w : Shm × α) :
    (ipcChannelRx d (P.inst s) c share).wp (Program.answering (appHandle (P.μ s) s cb oob))
      (fun n w' =>
        (w.1.Notified s (P.shape.chanOff c) ∧ n = share ∧ ∃ o, w' = cb o (w.1.set s ((w.1 s).store 4
          (P.shape.chanOff c + 8) ((w.1 s.other).load 4 (P.shape.chanOff c + 4))), w.2)) ∨
        (¬w.1.Notified s (P.shape.chanOff c) ∧ n = 0 ∧ w' = w)) w := by
  obtain ⟨ht, hl, hr, u, hu⟩ := hup.unmanaged hc hid
  have hfit := (header_bounds hc hu s).2
  obtain ⟨err, hrun, herr⟩ := ipcCheckUchanIntegrity_run (s := s) hl hr hfit w.1
  unfold ipcChannelRx
  dsimp only
  rw [ht, if_pos rfl, Program.wp_bind]
  refine wp_app_of_quiet (X := fun _ _ => True) (ipcCheckUchanIntegrity_always _) hrun ?_
  split
  · rename_i h0
    obtain ⟨hlocal, hremote⟩ := herr.mp h0
    rw [hl, hr, Nat.add_assoc, Nat.add_assoc, load32_bind]
    refine wp_app_op (memHandle_load_remote (by omega) (by decide)) trivial ?_
    rw [load32_bind]
    refine wp_app_op (memHandle_load_local (by omega)) trivial ?_
    split
    · rename_i hne
      rw [store32_bind]
      refine wp_app_op (memHandle_store_local (by omega)) trivial ⟨(), _, rfl, Or.inl ?_⟩
      exact ⟨⟨hlocal, hremote, hne⟩, rfl, _, rfl⟩
    · rename_i heq
      exact Or.inr ⟨fun h => heq h.2.2, rfl, rfl⟩
  · rename_i h0
    exact Or.inr ⟨fun h => h0 (herr.mpr ⟨h.1, h.2.1⟩), rfl, rfl⟩

/-- No backlog changes in the turn of an unmanaged channel. -/
theorem unmanagedTurn_backlog (hup : P.Up s d) (hc : c < P.numChannels) (hid : ¬P.Has (.chan c))
    (hcb : P.Static s cb) (share : ℕ) {w : Shm × α} (hw : P.shape.Backlog s w.1 xs) :
    (ipcChannelRx d (P.inst s) c share).wp (Program.answering (appHandle (P.μ s) s cb oob))
      (fun n w' => n ≤ share ∧ P.shape.Backlog s w'.1 xs) w := by
  obtain ⟨-, -, -, u, hu⟩ := hup.unmanaged hc hid
  refine Program.wp_mono Program.monotone_answering _ (fun n w' hcase => ?_)
    (unmanagedTurn_cases hup hc hid share w)
  rcases hcase with ⟨-, rfl, o, rfl⟩ | ⟨-, rfl, rfl⟩
  · refine ⟨Nat.le_refl _, hcb _ _ _ ?_⟩
    exact hw.frame (fun c' hc' => (sameRings_header hc hu (by omega) w.1).ring (.chan c') hc')
  · exact ⟨Nat.zero_le _, hw⟩

/-! ## The rounds -/

/-- **The invariant of the rounds**: every channel that had its turn is
through with what all rounds gave it, the others with what the earlier rounds
did. -/
theorem backlog_rule (hup : P.Up s d) (hcb : P.Static s cb) (xs : ℕ → List (List UInt8))
    (budget : ℕ) :
    RoundRule (Program.answering (appHandle (P.μ s) s cb oob))
      (fun given share c _ _ w => P.shape.Backlog s w.1
        (fun c' => (xs c').drop (if c' < c then given + share else given)))
      (ipcChannelRx d (P.inst s)) P.numChannels budget where
  turn := by
    intro given share c more work w hc hshare hw
    by_cases hid : P.Has (.chan c)
    · refine Program.wp_mono Program.monotone_answering _
        (fun n w' hn => ⟨hn.1 ▸ Nat.min_le_left _ _, ?_⟩)
        (managedTurn_tracked hup hcb.tracks hid share hw)
      refine hn.2.congr (fun c' _ => ?_)
      by_cases heq : c' = c
      · subst heq
        rw [Function.update_self, if_neg (Nat.lt_irrefl _), if_pos (Nat.lt_succ_self _),
          List.drop_drop]
      · rw [Function.update_of_ne heq]
        congr 1
        exact if_congr (by omega) rfl rfl
    · refine Program.wp_mono Program.monotone_answering _ (fun n w' hn => ⟨hn.1, ?_⟩)
        (unmanagedTurn_backlog hup hc hid hcb share hw)
      refine hn.2.congr (fun c' hc' => ?_)
      have hne : c' ≠ c := by
        rintro rfl
        exact hid hc'
      congr 1
      exact if_congr (by omega) rfl rfl
  next := by
    intro given share work w _ hw
    refine hw.congr (fun c' hc' => ?_)
    rw [if_pos (show c' < P.numChannels from hc'.1), if_neg (Nat.not_lt_zero c')]

/-- **A call is max-min fair.** Every managed channel is through with the
first `given` of its messages, for one number `given` that is at least an
equal share of the budget and at least one. -/
theorem ipcShmRx_backlog (hup : P.Up s d) (hcb : P.Static s cb) {w : Shm × α}
    (hready : (w.1 s).load 8 0 ≠ ipcShmStateClear) (hw : P.shape.Backlog s w.1 xs) {budget : ℕ}
    (hpos : 1 ≤ budget) (hbudget : budget < 2 ^ 31) (hnum : 1 ≤ P.numChannels) :
    ∃ work w', (ipcShmRx d (P.inst s) budget).run (appHandle (P.μ s) s cb oob) w
        = some (work, w') ∧ ∃ given, max 1 (budget / P.numChannels) ≤ given ∧
          P.shape.Backlog s w'.1 (fun c => (xs c).drop given) := by
  have hH : Program.MonotoneReading (Program.answering (appHandle (P.μ s) s cb oob)) :=
    Program.monotone_answering
  have hnum' : P.numChannels < 2 ^ 8 := P.shape.numChannels.toNat_lt
  have hused : (ipcInstanceIsFree d (P.inst s)).run (memHandle (P.μ s) s) w.1
      = some (.used, w.1) := ipcInstanceIsFree_run_used hup.laid hup.inst_lt (P.header_le s) hready
  rw [← Program.wp_answering_iff, ipcShmRx, Program.wp_bind]
  refine wp_app_of_quiet (X := fun _ _ => True) (ipcInstanceIsFree_always (fun _ h => h) d _)
    hused ?_
  rw [if_neg (not_not.mpr rfl), hup.numChannels_eq]
  refine Program.wp_mono hH _ (fun work w' hend => ?_)
    (rxRounds_call hH (backlog_rule hup hcb xs _) hnum _ (by omega) (hw.congr (fun c hc => ?_)))
  · obtain ⟨-, given, share, more, hb, -, hfirst⟩ := hend
    refine ⟨given + share, (max_le_chanBudget _ _).trans (hfirst hpos), hb.congr (fun c hc => ?_)⟩
    rw [if_pos (show c < P.numChannels from hc.1)]
  · rw [if_pos (show c < P.numChannels from hc.1), List.drop_zero]

end Peers

/-- **Fair handling.** For an initialized instance with any backlogs and any
budget, `ipc_shm_rx` returns having processed `k c` messages of each managed
channel `c`: at least an equal share of the budget, and at least one, where
there were as many; and a channel with messages left had no fewer processed
than any other. -/
theorem ipcShmRx_fair {α : Type} {cfg : IpcShmCfg} {μ : ShmMap} {d : Driver} {inst : ℕ}
    {s : Side} (hinst : inst < ipcShmMaxInstances) (hos : d.os inst = μ.os)
    (hlaid : (d.priv inst).Laid μ.os cfg) (hμ : μ.size = cfg.shmSize.toNat)
    (hfit : cfg.footprint ≤ cfg.shmSize.toNat) {cb : Op → Shm × α → Shm × α}
    (oob : ℤ → IpcShmPool)
    (hcb : ∀ o w xs, cfg.Backlog s w.1 xs → cfg.Backlog s (cb o w).1 xs)
    {w : Shm × α} (hready : (w.1 s).load 8 0 ≠ ipcShmStateClear)
    {xs : ℕ → List (List UInt8)} (hw : cfg.Backlog s w.1 xs) (hnum : 1 ≤ cfg.numChannels.toNat)
    {budget : ℕ} (hpos : 1 ≤ budget) (hbudget : budget < 2 ^ 31) :
    ∃ work w', (ipcShmRx d inst budget).run (appHandle μ s cb oob) w = some (work, w') ∧
      ∃ k : ℕ → ℕ, cfg.Backlog s w'.1 (fun c => (xs c).drop (k c)) ∧
        (∀ c, cfg.HasQueue (.chan c) → k c ≤ (xs c).length ∧
          min (xs c).length (max 1 (budget / cfg.numChannels.toNat)) ≤ k c) ∧
        ∀ c c', cfg.HasQueue (.chan c) → cfg.HasQueue (.chan c') →
          k c < (xs c).length → k c' ≤ k c := by
  let P := Peers.mirror cfg μ inst hlaid.symmetric hμ hfit
  have hup : P.Up s d := ⟨hinst, hos, hlaid⟩
  obtain ⟨work, w', hrun, given, hgiven, hb⟩ :=
    Peers.ipcShmRx_backlog hup (show P.Static s cb from hcb) hready
      (show P.shape.Backlog s w.1 xs from hw) hpos hbudget hnum
  have hgiven : max 1 (budget / cfg.numChannels.toNat) ≤ given := hgiven
  refine ⟨work, w', hrun, fun c => min (xs c).length given, hb.congr (fun c _ => ?_),
    fun c _ => ⟨Nat.min_le_left _ _, min_le_min_left _ hgiven⟩, fun c c' _ _ hlt => ?_⟩
  · dsimp only
    rcases Nat.le_total (xs c).length given with hle | hle
    · rw [Nat.min_eq_left hle, List.drop_length, List.drop_eq_nil_of_le hle]
    · rw [Nat.min_eq_right hle]
  · -- a channel with messages left is through with all it was given
    have hc : min (xs c).length given < (xs c).length := hlt
    show min (xs c').length given ≤ min (xs c).length given
    omega

/-- Side `b` of two peers with a managed and an unmanaged channel, after side
`a` sent two messages: the private data of `b`, and memory. -/
def waitingTwo : Option (Driver × Shm) :=
  ((ipcShmInitInstance {} 0 (some sampleCfg)).run (memHandle (twoWindows .b) .b)
      (fun _ _ => 0)).bind fun b =>
    ((ipcShmInitInstance {} 0 (some sampleCfg)).run (memHandle (twoWindows .a) .a) b.2).bind
      fun a =>
    ((ipcShmAcquireBuf a.1.2 0 0 16).run (memHandle (twoWindows .a) .a) a.2).bind fun x =>
    ((ipcShmTx a.1.2 0 0 x.1 5).run (memHandle (twoWindows .a) .a) x.2).bind fun t =>
    ((ipcShmAcquireBuf a.1.2 0 0 16).run (memHandle (twoWindows .a) .a) t.2).bind fun y =>
    ((ipcShmTx a.1.2 0 0 y.1 7).run (memHandle (twoWindows .a) .a) y.2).map fun u =>
    (b.1.2, u.2)

/-- With a budget of one, one of two waiting messages is processed. -/
theorem ipcShmRx_fair_waitingTwo :
    ∃ d shm xs, waitingTwo = some (d, shm) ∧ (xs 0).length = 2 ∧ sampleCfg.Backlog .b shm xs ∧
      ∃ work w', (ipcShmRx d 0 1).run (appHandle (twoWindows .b) .b (fun _ w => w)
          (fun _ => {})) (shm, ()) = some (work, w') ∧
        ∃ k : ℕ → ℕ, sampleCfg.Backlog .b w'.1 (fun c => (xs c).drop (k c)) ∧ 1 ≤ k 0 := by
  have hmem : waitingTwo.map (fun r => ((r.2 .b).load 8 0, (r.2 .a).sentinel 8,
      (r.2 .b).sentinel 8, (r.2 .a).writeIdx 8, (r.2 .b).readIdx 8))
        = some (ipcShmStateReady, ipcQueueInitDone, ipcQueueInitDone, 2, 0) := by
    decide +kernel
  have hinit : ((ipcShmInitInstance {} 0 (some sampleCfg)).run (memHandle (twoWindows .b) .b)
      (fun _ _ => 0)).map (fun r => r.1.1) = some 0 := by
    decide +kernel
  obtain ⟨⟨⟨err, d⟩, shm₁⟩, hrun, herr⟩ := Option.map_eq_some_iff.mp hinit
  obtain rfl : err = 0 := herr
  obtain ⟨⟨d', shm⟩, hwait, hvals⟩ := Option.map_eq_some_iff.mp hmem
  obtain rfl : d' = d := by
    rw [waitingTwo, hrun] at hwait
    simp only [Option.bind_some, Option.bind_eq_some_iff, Option.map_eq_some_iff] at hwait
    obtain ⟨_, -, _, -, _, -, _, -, _, -, hd⟩ := hwait
    exact (Prod.mk.inj hd).1.symm
  simp only [Prod.mk.injEq] at hvals
  obtain ⟨hready, hsa, hsb, hwi, hri⟩ := hvals
  obtain ⟨hos, hlaid⟩ : d'.os 0 = (twoWindows .b).os ∧
      (d'.priv 0).Laid (twoWindows .b).os sampleCfg :=
    ipcShmInitInstance_laid rfl (by decide) (Program.returns_of_run env_of_memHandle hrun)
  obtain ⟨xs₀, hring⟩ : ∃ xs₀, RingHolds 8 3 8 (shm .a) (shm .b) xs₀ :=
    RingHolds.exists_of_lt (by omega) (by omega)
  have hlen : xs₀.length = 2 := by
    have hle := hring.length_le
    have hw := hring.write_eq
    omega
  have hback : sampleCfg.Backlog .b shm (fun _ => xs₀) := by
    intro c hc
    obtain rfl : c = 0 := by
      obtain ⟨hlt, m, hm⟩ := hc
      by_contra hne
      simp [sampleCfg, IpcShmCfg.chan, hne] at hm
    exact ⟨fun t => by cases t; exacts [hsa, hsb], hring⟩
  obtain ⟨work, w', hrx, k, hk, hshare, -⟩ := ipcShmRx_fair (s := .b) (by decide) hos
    hlaid rfl (by decide) (fun _ => {}) (fun _ _ _ h => h) (w := (shm, ()))
    (by rw [hready]; decide) hback (by decide) (Nat.le_refl 1) (by decide)
  refine ⟨d', shm, fun _ => xs₀, hwait, hlen, hback, work, w', hrx, k, hk, ?_⟩
  have := (hshare 0 ⟨by decide, _, rfl⟩).2
  rw [hlen] at this
  exact this
