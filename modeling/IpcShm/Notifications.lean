import IpcShm.UnmanagedSteps

/-!
# Notifications on an unmanaged channel

Two peers initialize, free and re-initialize one unmanaged channel in single
memory steps, interleaved in any way, and transmit and check in between. The
counters are to tell a check how often the other peer transmitted: the
difference between `tx_count` of the one and `remote_tx_count` of the other is
the number of transmissions since the last check, modulo `2 ^ 32`.

The counters of a peer are meaningful only while both headers are marked
`DONE`, and they are lost whenever the peer restarts. What makes the
difference survive is the same as for a queue: a peer that adopts takes both
counters from a header that does not change meanwhile, since the other can
neither transmit nor check nor restart while the header of the first is marked
`IN_PROGRESS`.
-/

/-- What a peer is doing with the channel. -/
inductive UchanPhase where
  | down (chan : IpcShmChannel)
  | initing (th : Thread (ℤ × IpcShmChannel))
  /-- The last initialization returned an error. -/
  | failed (chan : IpcShmChannel)
  | up (chan : IpcShmChannel)
  | freeing (chan : IpcShmChannel) (th : Thread IpcShmChannel)

/-- The channel a peer may transmit on and check. -/
def UchanPhase.handle : UchanPhase → Option IpcShmChannel
  | .up chan => some chan
  | .freeing chan _ => some chan
  | _ => none

/-- **The state of an unmanaged channel and of the peers using it.** -/
structure UchanSys where
  shm : Shm
  phase : Side → UchanPhase
  /-- Successful transmissions of a peer since the last check of the other
  and the last initialization of either. -/
  sent : Side → ℕ := fun _ => 0
  /-- Calls of the callback of a peer. -/
  calls : Side → ℕ := fun _ => 0

/-- A step: a peer begins to initialize or to free the channel, takes a memory
step, transmits or checks at once, or writes elsewhere in its window. -/
inductive UchanAct where
  | startInit (s : Side) (cfg : IpcShmUnmanagedCfg)
  | startFree (s : Side)
  | step (s : Side)
  | tx (s : Side)
  | rx (s : Side) (budget : ℕ)
  /-- The state of the instance, the other channels, the payload. -/
  | write (s : Side) (a : ℕ) (bs : List UInt8)

namespace UchanSys

variable (c : UchanCfg) (σ : UchanSys) (s : Side)

/-- After a step of an initialization, which goes on or returns. One that
succeeds starts the count of transmissions anew. -/
def initAfter (th : Thread (ℤ × IpcShmChannel)) (shm : Shm) : UchanSys :=
  match th.result with
  | none => { σ with shm := shm, phase := Function.update σ.phase s (.initing th) }
  | some (err, chan) =>
    if err = 0 then
      { σ with shm := shm, phase := Function.update σ.phase s (.up chan), sent := fun _ => 0 }
    else { σ with shm := shm, phase := Function.update σ.phase s (.failed chan) }

/-- After a step of a release. -/
def freeAfter (chan : IpcShmChannel) (th : Thread IpcShmChannel) (shm : Shm) : UchanSys :=
  match th.result with
  | none => { σ with shm := shm, phase := Function.update σ.phase s (.freeing chan th) }
  | some chan' => { σ with shm := shm, phase := Function.update σ.phase s (.down chan') }

/-- **A step of the system.** A peer frees the channel before it initializes
it again. -/
def step (σ : UchanSys) : UchanAct → Option UchanSys
  | .startInit s cfg =>
    match σ.phase s with
    | .down chan => some (σ.initAfter s (.run (c.initProg s chan cfg)) σ.shm)
    | _ => none
  | .startFree s =>
    match σ.phase s with
    | .failed chan => some (σ.freeAfter s chan (.run (ipcShmFreeChannel chan .unmanaged)) σ.shm)
    | .up chan => some (σ.freeAfter s chan (.run (ipcShmFreeChannel chan .unmanaged)) σ.shm)
    | _ => none
  | .step s =>
    match σ.phase s with
    | .initing th => (th.step (c.μ s) s 0 σ.shm).map (fun r => σ.initAfter s r.1 r.2)
    | .freeing chan th => (th.step (c.μ s) s 0 σ.shm).map (fun r => σ.freeAfter s chan r.1 r.2)
    | _ => none
  | .tx s => (σ.phase s).handle.bind (fun chan =>
      ((ipcShmUnmanagedTx (c.driver s chan) (c.inst s) (c.chanId s)).run (memHandle (c.μ s) s)
        σ.shm).map (fun r =>
          { σ with
            shm := r.2
            sent := Function.update σ.sent s (if r.1 = (0 : ℤ) then σ.sent s + 1 else σ.sent s) }))
  | .rx s budget => (σ.phase s).handle.bind (fun chan =>
      ((ipcChannelRx (c.driver s chan) (c.inst s) (c.chanId s) budget).run
        (countingHandle (c.μ s) s) (σ.shm, σ.calls s)).map (fun r =>
          { σ with
            shm := r.2.1
            sent := Function.update σ.sent s.other 0
            calls := Function.update σ.calls s r.2.2 }))
  | .write s a bs =>
    if a + bs.length ≤ c.off ∨ c.off + sizeofIpcChannelUmem ≤ a then
      some { σ with shm := σ.shm.set s ((σ.shm s).write a bs) }
    else none

end UchanSys

/-! ## Phases by program point -/

/-- The phase of a peer, with the point it stands at. -/
inductive UchanPhasePc where
  | down (chan : IpcShmChannel)
  | initing (chan : IpcShmChannel) (pc : UchanPc)
  | failed (chan : IpcShmChannel)
  | up (chan : IpcShmChannel)
  | freeing (chan : IpcShmChannel) (pc : UchanFreePc)

namespace UchanPhasePc

/-- The phase it stands for. -/
def phase : UchanPhasePc → UchanPhase
  | .down chan => .down chan
  | .initing chan pc => .initing (.run (pc.prog chan))
  | .failed chan => .failed chan
  | .up chan => .up chan
  | .freeing chan pc => .freeing chan (.run (pc.prog chan))

/-- Past the first check of an initialization. -/
def Past : UchanPhasePc → Prop
  | .initing _ .check1 => False
  | .initing _ _ => True
  | _ => False

/-- Taking over the counters of the other peer. -/
def Adopting : UchanPhasePc → Prop
  | .initing _ .loadTx => True
  | .initing _ (.storeTx _) => True
  | .initing _ .loadSeen => True
  | .initing _ (.storeSeen _) => True
  | .initing _ (.finish true) => True
  | _ => False

/-- Starting from zero. -/
def Zeroing : UchanPhasePc → Prop
  | .initing _ .zeroTx => True
  | .initing _ .zeroSeen => True
  | .initing _ (.finish false) => True
  | _ => False

end UchanPhasePc

namespace UchanCfg

variable (c : UchanCfg) (s : Side)

/-- What a peer finds in its own header. -/
def Own (m : ByteMem) : UchanPhasePc → Prop
  | .down chan => chan.localMem = 0 ∧ m.uchanSentinel c.off = 0
  | .initing chan pc => c.At s chan ∧
    match pc with
    | .check1 => m.uchanSentinel c.off = 0
    | .mark => m.uchanSentinel c.off = 0
    | .zeroSeen => m.uchanSentinel c.off = ipcShmUchanInitInProgress ∧ m.txCount c.off = 0
    | .finish false => m.uchanSentinel c.off = ipcShmUchanInitInProgress ∧
        m.txCount c.off = 0 ∧ m.remoteTxCount c.off = 0
    | _ => m.uchanSentinel c.off = ipcShmUchanInitInProgress
  | .failed chan => (chan.localMem = 0 ∨ c.At s chan) ∧ m.uchanSentinel c.off = 0
  | .up chan => c.At s chan ∧ m.uchanSentinel c.off = ipcUchanInitDone
  | .freeing chan .clearSentinel => c.At s chan ∧
      m.uchanSentinel c.off ≠ ipcShmUchanInitInProgress
  | .freeing chan _ => c.At s chan ∧ m.uchanSentinel c.off = 0

/-- What a peer that is adopting has taken from the header `r` so far. -/
def Adopted (m r : ByteMem) : UchanPhasePc → Prop
  | .initing _ (.storeTx v) => v = r.remoteTxCount c.off
  | .initing _ .loadSeen => m.txCount c.off = r.remoteTxCount c.off
  | .initing _ (.storeSeen v) => m.txCount c.off = r.remoteTxCount c.off ∧ v = r.txCount c.off
  | .initing _ (.finish true) =>
      m.txCount c.off = r.remoteTxCount c.off ∧ m.remoteTxCount c.off = r.txCount c.off
  | _ => True

/-- **What a peer can do**, alone with the memory it finds. -/
inductive PhaseMove (shm : Shm) : UchanPhasePc → UchanPhasePc → Shm → Prop where
  | rejected {chan chan' : IpcShmChannel} (h : chan'.localMem = chan.localMem) :
      PhaseMove shm (.down chan) (.failed chan') shm
  | startInit {chan chan' : IpcShmChannel} (h : c.At s chan') :
      PhaseMove shm (.down chan) (.initing chan' .check1) shm
  | init {chan : IpcShmChannel} {pc pc' : UchanPc} {shm' : Shm}
      (h : c.Move s shm pc (.inl pc') shm') :
      PhaseMove shm (.initing chan pc) (.initing chan pc') shm'
  | initFailed {chan : IpcShmChannel} {pc : UchanPc} {err : ℤ} {shm' : Shm} (he : err ≠ 0)
      (h : c.Move s shm pc (.inr err) shm') :
      PhaseMove shm (.initing chan pc) (.failed chan) shm'
  | nothingToFree {chan : IpcShmChannel} (h : chan.localMem = 0) :
      PhaseMove shm (.failed chan) (.down chan) shm
  | startFreeFailed {chan : IpcShmChannel} (h : c.At s chan) :
      PhaseMove shm (.failed chan) (.freeing chan .clearSentinel) shm
  | startFree {chan : IpcShmChannel} :
      PhaseMove shm (.up chan) (.freeing chan .clearSentinel) shm
  | free {chan : IpcShmChannel} {pc pc' : UchanFreePc} {shm' : Shm}
      (h : c.FreeMove s shm pc (some pc') shm') :
      PhaseMove shm (.freeing chan pc) (.freeing chan pc') shm'
  | freed {chan : IpcShmChannel} {pc : UchanFreePc} {shm' : Shm}
      (h : c.FreeMove s shm pc none shm') :
      PhaseMove shm (.freeing chan pc) (.down (UchanFreePc.freed chan)) shm'

end UchanCfg

/-! ## The joint invariant -/

namespace UchanPhasePc

theorem Adopting.past {p : UchanPhasePc} (h : p.Adopting) : p.Past := by
  unfold Adopting at h
  split at h <;> trivial

theorem Zeroing.past {p : UchanPhasePc} (h : p.Zeroing) : p.Past := by
  unfold Zeroing at h
  split at h <;> trivial

end UchanPhasePc

namespace UchanCfg

section Own

variable {c : UchanCfg} {s : Side} {m m' r r' : ByteMem} {p : UchanPhasePc}

/-- A peer past its first check has not completed its initialization. -/
theorem Own.not_done (h : c.Own s m p) (hp : p.Past) :
    m.uchanSentinel c.off ≠ ipcUchanInitDone := by
  unfold UchanPhasePc.Past at hp
  split at hp
  · exact hp.elim
  · obtain ⟨-, h⟩ := h
    split at h
    · rw [h]; decide
    · rw [h]; decide
    · rw [h.1]; decide
    · rw [h.1]; decide
    · rw [h]; decide
  · exact hp.elim

/-- A peer that made its second check is marked. -/
theorem Own.marked (h : c.Own s m p) (hp : p.Adopting) :
    m.uchanSentinel c.off = ipcShmUchanInitInProgress := by
  unfold UchanPhasePc.Adopting at hp
  split at hp <;> first | exact h.2 | exact hp.elim

theorem Own.at_handle (h : c.Own s m p) {chan : IpcShmChannel}
    (hc : p.phase.handle = some chan) : c.At s chan := by
  cases p with
  | up chan' => cases hc; exact h.1
  | freeing chan' pc => cases hc; cases pc <;> exact h.1
  | _ => exact nomatch hc

/-- Outside an initialization only the sentinel matters. -/
theorem Own.of_not_past (h : c.Own s m p) (hp : ¬p.Past)
    (hs : m'.uchanSentinel c.off = m.uchanSentinel c.off) : c.Own s m' p := by
  cases p with
  | down chan => exact ⟨h.1, hs.trans h.2⟩
  | initing chan pc =>
    cases pc with
    | check1 => exact ⟨h.1, hs.trans h.2⟩
    | _ => exact absurd trivial hp
  | failed chan => exact ⟨h.1, hs.trans h.2⟩
  | up chan => exact ⟨h.1, hs.trans h.2⟩
  | freeing chan pc =>
    cases pc with
    | clearSentinel => exact ⟨h.1, hs.symm ▸ h.2⟩
    | _ => exact ⟨h.1, hs.trans h.2⟩

theorem Adopted.of_not_adopting (hp : ¬p.Adopting) : c.Adopted m r p := by
  unfold Adopted
  split <;> first | trivial | exact absurd trivial hp

end Own

variable (c : UchanCfg)

/-- **What one peer knows of the other**: while it adopts, the other is not
past its first check; what it took so far is what an initialized header of the
other still holds; and while it starts from zero, such a header holds zeros. -/
structure Pair (m r : ByteMem) (p q : UchanPhasePc) : Prop where
  alone : p.Adopting → ¬q.Past
  adopted : r.uchanSentinel c.off = ipcUchanInitDone → c.Adopted m r p
  zero : p.Zeroing → r.uchanSentinel c.off = ipcUchanInitDone →
    r.txCount c.off = 0 ∧ r.remoteTxCount c.off = 0

/-- The invariant of the phases. -/
structure Inv (shm : Shm) (f : Side → UchanPhasePc) : Prop where
  own : ∀ s, c.Own s (shm s) (f s)
  pair : ∀ s, c.Pair (shm s) (shm s.other) (f s) (f s.other)

/-- **The counters count**: with both headers initialized, the counter of one
peer is ahead of what the other saw by the number of transmissions. -/
def Counts (shm : Shm) (sent : Side → ℕ) : Prop :=
  c.Done shm → ∀ s, (((shm s).txCount c.off : ℤ) - (shm s.other).remoteTxCount c.off) % 2 ^ 32
    = sent s % 2 ^ 32

variable {c} {s : Side} {shm shm' : Shm} {f : Side → UchanPhasePc} {p p' : UchanPhasePc}

/-! ### Moves -/

theorem Move.other {pc : UchanPc} {out : UchanPc ⊕ ℤ} (hm : c.Move s shm pc out shm') :
    shm' s.other = shm s.other := by
  cases hm <;> simp

theorem FreeMove.other {pc : UchanFreePc} {out : Option UchanFreePc}
    (hm : c.FreeMove s shm pc out shm') : shm' s.other = shm s.other := by
  cases hm <;> simp

theorem PhaseMove.other (hm : c.PhaseMove s shm p p' shm') : shm' s.other = shm s.other := by
  cases hm with
  | init h => exact h.other
  | initFailed he h => exact h.other
  | free h => exact h.other
  | freed h => exact h.other
  | _ => rfl

theorem Move.own {chan : IpcShmChannel} {pc pc' : UchanPc}
    (hm : c.Move s shm pc (.inl pc') shm') (h : c.Own s (shm s) (.initing chan pc)) :
    c.Own s (shm' s) (.initing chan pc') := by
  obtain ⟨hat, h⟩ := h
  refine ⟨hat, ?_⟩
  cases hm with
  | check1 hne => exact h
  | mark => rw [Shm.set_self]; exact ByteMem.uchanSentinel_store_sentinel (by decide)
  | live hd => exact h
  | fresh hd => exact h
  | loadTx => exact h
  | storeTx => rw [Shm.set_self]; exact ByteMem.uchanSentinel_store_tx.trans h
  | loadSeen => exact h
  | storeSeen => rw [Shm.set_self]; exact ByteMem.uchanSentinel_store_remoteTx.trans h
  | zeroTx =>
    rw [Shm.set_self]
    exact ⟨ByteMem.uchanSentinel_store_tx.trans h, ByteMem.txCount_store_tx (by decide)⟩
  | zeroSeen =>
    rw [Shm.set_self]
    exact ⟨ByteMem.uchanSentinel_store_remoteTx.trans h.1, ByteMem.txCount_store_remoteTx.trans h.2,
      ByteMem.remoteTxCount_store_remoteTx (by decide)⟩

/-- A move keeps what a peer finds in its own header. -/
theorem PhaseMove.own (hm : c.PhaseMove s shm p p' shm') (h : c.Own s (shm s) p) :
    c.Own s (shm' s) p' := by
  cases hm with
  | rejected hc => exact ⟨Or.inl (hc.trans h.1), h.2⟩
  | startInit hat => exact ⟨hat, h.2⟩
  | init hm => exact hm.own h
  | initFailed he hm =>
    cases hm with
    | busy hb => exact ⟨Or.inr h.1, h.2⟩
    | finish => exact absurd rfl he
  | nothingToFree hc => exact ⟨hc, h.2⟩
  | startFreeFailed hat => exact ⟨hat, by rw [h.2]; decide⟩
  | startFree => exact ⟨h.1, by rw [h.2]; decide⟩
  | free hm =>
    cases hm with
    | clearSentinel =>
      rw [Shm.set_self]
      exact ⟨h.1, ByteMem.uchanSentinel_store_sentinel (by decide)⟩
    | clearTx => rw [Shm.set_self]; exact ⟨h.1, ByteMem.uchanSentinel_store_tx.trans h.2⟩
  | freed hm =>
    cases hm with
    | clearSeen => rw [Shm.set_self]; exact ⟨rfl, ByteMem.uchanSentinel_store_remoteTx.trans h.2⟩

/-- A move that leaves the header marked `DONE` leaves memory alone. -/
theorem PhaseMove.done_frame (hm : c.PhaseMove s shm p p' shm') (h : c.Own s (shm s) p)
    (hd : (shm' s).uchanSentinel c.off = ipcUchanInitDone) : shm' = shm := by
  have hown := hm.own h
  cases hm with
  | init hm =>
    cases hm with
    | check1 | live | fresh | loadTx | loadSeen => rfl
    | _ => exact absurd hd (hown.not_done trivial)
  | initFailed he hm =>
    cases hm with
    | busy hb => rfl
    | finish => exact absurd rfl he
  | free hm => cases hm <;> exact absurd (hown.2.symm.trans hd) (by decide)
  | freed hm => exact absurd (hown.2.symm.trans hd) (by decide)
  | _ => rfl

/-- Only a first check that found the other header unmarked is passed. -/
theorem PhaseMove.past (hm : c.PhaseMove s shm p p' shm') (hp : p'.Past) :
    p.Past ∨ (shm s.other).uchanSentinel c.off ≠ ipcShmUchanInitInProgress := by
  cases hm with
  | init hm =>
    cases hm with
    | check1 hne => exact Or.inr hne
    | _ => exact Or.inl trivial
  | _ => exact hp.elim

/-- Adopting begins with the other header initialized. -/
theorem PhaseMove.adopting (hm : c.PhaseMove s shm p p' shm') (hp : p'.Adopting) :
    p.Adopting ∨ (shm s.other).uchanSentinel c.off = ipcUchanInitDone := by
  cases hm with
  | init hm =>
    cases hm with
    | live hd => exact Or.inr hd
    | loadTx | storeTx | loadSeen | storeSeen => exact Or.inl trivial
    | _ => exact hp.elim
  | _ => exact hp.elim

/-- Starting from zero begins with the other header not initialized. -/
theorem PhaseMove.zeroing (hm : c.PhaseMove s shm p p' shm') (hp : p'.Zeroing) :
    p.Zeroing ∨ (shm s.other).uchanSentinel c.off ≠ ipcUchanInitDone := by
  cases hm with
  | init hm =>
    cases hm with
    | fresh hd => exact Or.inr hd
    | zeroTx | zeroSeen => exact Or.inl trivial
    | _ => exact hp.elim
  | _ => exact hp.elim

theorem PhaseMove.adopted (hm : c.PhaseMove s shm p p' shm')
    (h : c.Adopted (shm s) (shm s.other) p) : c.Adopted (shm' s) (shm s.other) p' := by
  cases hm with
  | init hm =>
    cases hm with
    | loadTx => rfl
    | @storeTx v =>
      obtain rfl : v = _ := h
      rw [Shm.set_self]
      exact ByteMem.txCount_store_tx (ByteMem.remoteTxCount_lt _ _)
    | loadSeen => exact ⟨h, rfl⟩
    | @storeSeen v =>
      obtain ⟨htx, rfl⟩ : _ ∧ v = _ := h
      rw [Shm.set_self]
      exact ⟨ByteMem.txCount_store_remoteTx.trans htx,
        ByteMem.remoteTxCount_store_remoteTx (ByteMem.txCount_lt _ _)⟩
    | _ => trivial
  | _ => trivial

/-! ### The invariant along a run -/

theorem Inv.update (h : c.Inv shm f) (ho : shm' s.other = shm s.other)
    (hown : c.Own s (shm' s) p)
    (hself : c.Pair (shm' s) (shm s.other) p (f s.other))
    (hother : c.Pair (shm s.other) (shm' s) (f s.other) p) :
    c.Inv shm' (Function.update f s p) where
  own := by
    intro t
    rcases Side.eq_or_eq_other s t with rfl | rfl
    · rw [Function.update_self]
      exact hown
    · rw [Function.update_of_ne s.other_ne, ho]
      exact h.own _
  pair := by
    intro t
    rcases Side.eq_or_eq_other s t with rfl | rfl
    · rw [Function.update_self, Function.update_of_ne (Side.other_ne _), ho]
      exact hself
    · rw [Side.other_other, Function.update_self, Function.update_of_ne s.other_ne, ho]
      exact hother

/-- **A move keeps the invariant.** -/
theorem Inv.move (h : c.Inv shm f) (hm : c.PhaseMove s shm (f s) p shm') :
    c.Inv shm' (Function.update f s p) := by
  have hother := h.pair s.other
  rw [Side.other_other] at hother
  refine h.update hm.other (hm.own (h.own s)) ⟨fun hp => ?_, fun hd => ?_, fun hp hd => ?_⟩
    ⟨fun hp hpast => ?_, fun hd => ?_, fun hp hd => ?_⟩
  · rcases hm.adopting hp with hp | hd
    · exact (h.pair s).alone hp
    · exact fun hpast => (h.own s.other).not_done hpast hd
  · exact hm.adopted ((h.pair s).adopted hd)
  · rcases hm.zeroing hp with hp | hne
    · exact (h.pair s).zero hp hd
    · exact absurd hd hne
  · rcases hm.past hpast with hpast | hne
    · exact hother.alone hp hpast
    · exact hne ((h.own s.other).marked hp)
  · have heq := hm.done_frame (h.own s) hd
    rw [heq] at hd ⊢
    exact hother.adopted hd
  · have heq := hm.done_frame (h.own s) hd
    rw [heq] at hd ⊢
    exact hother.zero hp hd

theorem Counts.move {sent : Side → ℕ} (h : c.Counts shm sent) (hi : c.Inv shm f)
    (hm : c.PhaseMove s shm (f s) p shm') : c.Counts shm' sent := by
  intro hd
  have heq := hm.done_frame (hi.own s) (hd s)
  rw [heq] at hd ⊢
  exact h hd

/-- **Completing an initialization** keeps the invariant, and the counters
agree with the other header if that is initialized. -/
theorem Inv.finish {chan : IpcShmChannel} {adopted : Bool} (h : c.Inv shm f)
    (hf : f s = .initing chan (.finish adopted)) :
    c.Inv (shm.set s ((shm s).store 4 c.off ipcUchanInitDone)) (Function.update f s (.up chan)) ∧
      c.Counts (shm.set s ((shm s).store 4 c.off ipcUchanInitDone)) (fun _ => 0) := by
  have hown := h.own s
  have hpair := h.pair s
  have hother := h.pair s.other
  rw [Side.other_other] at hother
  rw [hf] at hown hpair hother
  -- a peer that starts from zero is past its first check, so this one did not adopt
  have hzero : (f s.other).Zeroing →
      (shm s).txCount c.off = 0 ∧ (shm s).remoteTxCount c.off = 0 := by
    intro hz
    cases adopted with
    | true => exact absurd hz.past (hpair.alone trivial)
    | false => exact hown.2.2
  refine ⟨h.update (Shm.set_other ..) ?_ ⟨fun hp => hp.elim, fun _ => trivial, fun hp => hp.elim⟩
    ⟨fun _ hpast => hpast, fun hd => ?_, fun hp hd => ?_⟩, fun hd => ?_⟩
  · rw [Shm.set_self]
    exact ⟨hown.1, ByteMem.uchanSentinel_store_sentinel (by decide)⟩
  · exact Adopted.of_not_adopting (fun hp => hother.alone hp trivial)
  · rw [Shm.set_self, ByteMem.txCount_store_sentinel, ByteMem.remoteTxCount_store_sentinel]
    exact hzero hp
  · have hd' : (shm s.other).uchanSentinel c.off = ipcUchanInitDone := by
      have := hd s.other
      rwa [Shm.set_other] at this
    have hcross : (shm s).txCount c.off = (shm s.other).remoteTxCount c.off ∧
        (shm s).remoteTxCount c.off = (shm s.other).txCount c.off := by
      cases adopted with
      | true => exact hpair.adopted hd'
      | false =>
        obtain ⟨htx, hseen⟩ := hpair.zero trivial hd'
        exact ⟨hown.2.2.1.trans hseen.symm, hown.2.2.2.trans htx.symm⟩
    intro t
    rcases Side.eq_or_eq_other s t with rfl | rfl
    · rw [Shm.set_self, Shm.set_other, ByteMem.txCount_store_sentinel, hcross.1, sub_self]
      rfl
    · rw [Shm.set_other, Side.other_other, Shm.set_self, ByteMem.remoteTxCount_store_sentinel,
        hcross.2, sub_self]
      rfl

/-- With both headers initialized no peer is inside an initialization. -/
theorem Inv.of_done (h : c.Inv shm f) (hd : c.Done shm)
    (hs : ∀ t, (shm' t).uchanSentinel c.off = (shm t).uchanSentinel c.off) : c.Inv shm' f where
  own t := (h.own t).of_not_past (fun hp => (h.own t).not_done hp (hd t)) (hs t)
  pair t := by
    have hpast : ¬(f t).Past := fun hp => (h.own t).not_done hp (hd t)
    exact ⟨fun hp => absurd hp.past hpast,
      fun _ => Adopted.of_not_adopting (fun hp => hpast hp.past), fun hp => absurd hp.past hpast⟩

/-- The same words in the header. -/
structure SameHeader (m m' : ByteMem) : Prop where
  sentinel : m'.uchanSentinel c.off = m.uchanSentinel c.off
  tx : m'.txCount c.off = m.txCount c.off
  remoteTx : m'.remoteTxCount c.off = m.remoteTxCount c.off

theorem Own.congr {m m' : ByteMem} (h : c.Own s m p) (hm : c.SameHeader m m') : c.Own s m' p := by
  unfold Own at h ⊢
  simpa only [hm.sentinel, hm.tx, hm.remoteTx] using h

theorem Adopted.congr {m m' r r' : ByteMem} (h : c.Adopted m r p) (hm : c.SameHeader m m')
    (hr : c.SameHeader r r') : c.Adopted m' r' p := by
  unfold Adopted at h ⊢
  simpa only [hm.tx, hm.remoteTx, hr.tx, hr.remoteTx] using h

theorem Inv.congr (h : c.Inv shm f) (hs : ∀ t, c.SameHeader (shm t) (shm' t)) : c.Inv shm' f where
  own t := (h.own t).congr (hs t)
  pair t :=
    ⟨(h.pair t).alone,
      fun hd => ((h.pair t).adopted ((hs t.other).sentinel.symm.trans hd)).congr (hs t)
        (hs t.other),
      fun hp hd => by
        rw [(hs t.other).tx, (hs t.other).remoteTx]
        exact (h.pair t).zero hp ((hs t.other).sentinel.symm.trans hd)⟩

theorem Counts.congr {sent : Side → ℕ} (h : c.Counts shm sent)
    (hs : ∀ t, c.SameHeader (shm t) (shm' t)) : c.Counts shm' sent := by
  intro hd t
  rw [(hs t).tx, (hs t.other).remoteTx]
  exact h (fun u => (hs u).sentinel.symm.trans (hd u)) t

end UchanCfg

/-! ### Steps of the system -/

namespace UchanSys

variable {c : UchanCfg} {σ σ' : UchanSys} {f : Side → UchanPhasePc} {s : Side}

/-- **The invariant**: phases at program points, and counters that count. -/
structure Inv (c : UchanCfg) (σ : UchanSys) (f : Side → UchanPhasePc) : Prop where
  phase_eq : ∀ t, σ.phase t = (f t).phase
  inv : c.Inv σ.shm f
  counts : c.Counts σ.shm σ.sent

theorem phase_update (hf : ∀ t, σ.phase t = (f t).phase) (p : UchanPhasePc) (t : Side) :
    Function.update σ.phase s p.phase t = (Function.update f s p t).phase := by
  by_cases ht : t = s
  · subst ht
    rw [Function.update_self, Function.update_self]
  · rw [Function.update_of_ne ht, Function.update_of_ne ht, hf]

/-- A peer moves. -/
theorem Inv.move {p : UchanPhasePc} {shm' : Shm} (h : σ.Inv c f)
    (hm : c.PhaseMove s σ.shm (f s) p shm') :
    Inv c { σ with shm := shm', phase := Function.update σ.phase s p.phase }
      (Function.update f s p) :=
  ⟨phase_update h.phase_eq p, h.inv.move hm, h.counts.move h.inv hm⟩

variable {chan : IpcShmChannel}

/-- An initialization goes on or returns. -/
theorem Inv.initAfter {pc : UchanPc} {out : UchanPc ⊕ ℤ} {shm' : Shm} (h : σ.Inv c f)
    (hf : f s = .initing chan pc) (hm : c.Move s σ.shm pc out shm') :
    ∃ f', Inv c (σ.initAfter s (UchanPc.threadOf chan out) shm') f' := by
  cases out with
  | inl pc' =>
    have hres : (Thread.run (pc'.prog chan)).result = none := by cases pc' <;> rfl
    have hmove : c.PhaseMove s σ.shm (f s) (.initing chan pc') shm' := hf ▸ .init hm
    refine ⟨Function.update f s (.initing chan pc'), ?_⟩
    unfold UchanSys.initAfter UchanPc.threadOf
    rw [hres]
    exact h.move hmove
  | inr err =>
    by_cases he : err = 0
    · subst he
      cases hm with
      | finish =>
        obtain ⟨hinv, hcounts⟩ := h.inv.finish hf
        exact ⟨_, phase_update h.phase_eq (.up chan), hinv, hcounts⟩
    · have hmove : c.PhaseMove s σ.shm (f s) (.failed chan) shm' := hf ▸ .initFailed he hm
      refine ⟨Function.update f s (.failed chan), ?_⟩
      unfold UchanSys.initAfter UchanPc.threadOf Thread.result
      dsimp only
      rw [if_neg he]
      exact h.move hmove

/-- A release goes on or returns. -/
theorem Inv.freeAfter {pc : UchanFreePc} {out : Option UchanFreePc} {shm' : Shm} (h : σ.Inv c f)
    (hf : f s = .freeing chan pc) (hm : c.FreeMove s σ.shm pc out shm') :
    ∃ f', Inv c (σ.freeAfter s chan (UchanFreePc.threadOf chan out) shm') f' := by
  cases out with
  | some pc' =>
    have hres : (Thread.run (pc'.prog chan)).result = none := by cases pc' <;> rfl
    have hmove : c.PhaseMove s σ.shm (f s) (.freeing chan pc') shm' := hf ▸ .free hm
    refine ⟨Function.update f s (.freeing chan pc'), ?_⟩
    unfold UchanSys.freeAfter UchanFreePc.threadOf
    rw [hres]
    exact h.move hmove
  | none =>
    have hmove : c.PhaseMove s σ.shm (f s) (.down (UchanFreePc.freed chan)) shm' := hf ▸ .freed hm
    exact ⟨_, h.move hmove⟩

/-- A peer begins a release, which may have nothing to do. -/
theorem Inv.startFree (h : σ.Inv c f) (hf : f s = .failed chan ∨ f s = .up chan) :
    ∃ f', Inv c (σ.freeAfter s chan (.run (ipcShmFreeChannel chan .unmanaged)) σ.shm) f' := by
  have hown := h.inv.own s
  have hat : c.At s chan → c.PhaseMove s σ.shm (f s) (.freeing chan .clearSentinel) σ.shm := by
    intro hat
    rcases hf with hf | hf
    · exact hf ▸ .startFreeFailed hat
    · exact hf ▸ .startFree
  have hbegin : c.At s chan →
      ∃ f', Inv c (σ.freeAfter s chan (.run (ipcShmFreeChannel chan .unmanaged)) σ.shm) f' := by
    intro ha
    rw [UchanCfg.ipcShmFreeChannel_of_at ha]
    exact ⟨_, h.move (hat ha)⟩
  rcases hf with hf | hf
  · rw [hf] at hown
    rcases hown.1 with hnull | ha
    · rw [UchanCfg.ipcShmFreeChannel_of_null hnull]
      have hmove : c.PhaseMove s σ.shm (f s) (.down chan) σ.shm := hf ▸ .nothingToFree hnull
      exact ⟨_, h.move hmove⟩
    · exact hbegin ha
  · rw [hf] at hown
    exact hbegin hown.1

/-- A transmission. -/
theorem Inv.tx (h : σ.Inv c f) (hc : (σ.phase s).handle = some chan) {err : ℤ} {shm' : Shm}
    (hrun : (ipcShmUnmanagedTx (c.driver s chan) (c.inst s) (c.chanId s)).run
      (memHandle (c.μ s) s) σ.shm = some (err, shm')) :
    Inv c { σ with
      shm := shm'
      sent := Function.update σ.sent s (if err = 0 then σ.sent s + 1 else σ.sent s) } f := by
  have hat : c.At s chan := (h.inv.own s).at_handle (h.phase_eq s ▸ hc)
  obtain ⟨err', shm'', hrun', hfail, hok⟩ := UchanCfg.ipcShmUnmanagedTx_uchan hat σ.shm
  obtain ⟨rfl, rfl⟩ : err' = err ∧ shm'' = shm' :=
    Prod.mk.inj (Option.some.inj (hrun'.symm.trans hrun))
  by_cases he : err' = 0
  · obtain ⟨hd, hshm⟩ := hok he
    rw [if_pos he, hshm]
    have hs : ∀ t, ((σ.shm.set s ((σ.shm s).store 4 (c.off + 4)
        (u32 ((σ.shm s).txCount c.off + 1)))) t).uchanSentinel c.off
          = (σ.shm t).uchanSentinel c.off := by
      intro t
      rcases Side.eq_or_eq_other s t with rfl | rfl
      · rw [Shm.set_self, ByteMem.uchanSentinel_store_tx]
      · rw [Shm.set_other]
    refine ⟨h.phase_eq, h.inv.of_done hd hs, fun _ t => ?_⟩
    rcases Side.eq_or_eq_other s t with rfl | rfl
    · have hcount := h.counts hd t
      dsimp only
      rw [Shm.set_self, Shm.set_other, ByteMem.txCount_store_tx (u32_lt _), Function.update_self]
      unfold u32
      omega
    · have hcount := h.counts hd s.other
      dsimp only
      rw [Side.other_other] at hcount ⊢
      rw [Shm.set_other, Shm.set_self, ByteMem.remoteTxCount_store_tx,
        Function.update_of_ne s.other_ne]
      exact hcount
  · rw [if_neg he, hfail he, Function.update_eq_self]
    exact h

/-- A check sees how many transmissions there were, and forgets them. -/
theorem Inv.rx (h : σ.Inv c f) (hc : (σ.phase s).handle = some chan) {budget work : ℕ} {w : Shm × ℕ}
    (hrun : (ipcChannelRx (c.driver s chan) (c.inst s) (c.chanId s) budget).run
      (countingHandle (c.μ s) s) (σ.shm, σ.calls s) = some (work, w)) :
    Inv c { σ with
      shm := w.1
      sent := Function.update σ.sent s.other 0
      calls := Function.update σ.calls s w.2 } f ∧
    w.2 = σ.calls s + if c.Done σ.shm ∧ ¬2 ^ 32 ∣ σ.sent s.other then 1 else 0 := by
  have hat : c.At s chan := (h.inv.own s).at_handle (h.phase_eq s ▸ hc)
  rw [UchanCfg.ipcChannelRx_uchan hat] at hrun
  have hlt := ByteMem.txCount_lt (σ.shm s.other) c.off
  have hlt' := ByteMem.remoteTxCount_lt (σ.shm s) c.off
  by_cases hd : c.Done σ.shm
  · have hcount := h.counts hd s.other
    rw [Side.other_other] at hcount
    have hdvd : (σ.shm s.other).txCount c.off ≠ (σ.shm s).remoteTxCount c.off
        ↔ ¬2 ^ 32 ∣ σ.sent s.other := by
      rw [Nat.dvd_iff_mod_eq_zero]
      omega
    by_cases hne : (σ.shm s.other).txCount c.off ≠ (σ.shm s).remoteTxCount c.off
    · rw [if_pos ⟨hd, hne⟩] at hrun
      cases hrun
      have hs : ∀ t, ((σ.shm.set s ((σ.shm s).store 4 (c.off + 8)
          ((σ.shm s.other).txCount c.off))) t).uchanSentinel c.off
            = (σ.shm t).uchanSentinel c.off := by
        intro t
        rcases Side.eq_or_eq_other s t with rfl | rfl
        · rw [Shm.set_self, ByteMem.uchanSentinel_store_remoteTx]
        · rw [Shm.set_other]
      refine ⟨⟨h.phase_eq, h.inv.of_done hd hs, fun _ t => ?_⟩, ?_⟩
      · dsimp only
        rcases Side.eq_or_eq_other s t with rfl | rfl
        · rw [Shm.set_self, Shm.set_other, ByteMem.txCount_store_remoteTx,
            Function.update_of_ne (Side.ne_other _)]
          exact h.counts hd t
        · rw [Side.other_other, Shm.set_other, Shm.set_self,
            ByteMem.remoteTxCount_store_remoteTx hlt, Function.update_self, sub_self]
          rfl
      · rw [if_pos ⟨hd, hdvd.mp hne⟩]
    · rw [if_neg (fun h => hne h.2)] at hrun
      cases hrun
      refine ⟨⟨h.phase_eq, h.inv, fun _ t => ?_⟩, ?_⟩
      · dsimp only
        rcases Side.eq_or_eq_other s t with rfl | rfl
        · rw [Function.update_of_ne (Side.ne_other _)]
          exact h.counts hd t
        · rw [Side.other_other, not_not.mp hne, Function.update_self, sub_self]
          rfl
      · rw [if_neg (fun h => hne (hdvd.mpr h.2)), Nat.add_zero]
  · rw [if_neg (fun h => hd h.1)] at hrun
    cases hrun
    refine ⟨⟨h.phase_eq, h.inv, fun hd' => absurd hd' hd⟩, ?_⟩
    rw [if_neg (fun h => hd h.1), Nat.add_zero]

/-- A write elsewhere leaves the header alone. -/
theorem Inv.write {a : ℕ} {bs : List UInt8} (h : σ.Inv c f)
    (ha : a + bs.length ≤ c.off ∨ c.off + sizeofIpcChannelUmem ≤ a) :
    Inv c { σ with shm := σ.shm.set s ((σ.shm s).write a bs) } f := by
  have hs : ∀ t, c.SameHeader (σ.shm t) ((σ.shm.set s ((σ.shm s).write a bs)) t) := by
    unfold sizeofIpcChannelUmem at ha
    intro t
    rcases Side.eq_or_eq_other s t with rfl | rfl
    · rw [Shm.set_self]
      exact ⟨ByteMem.load_write_of_disjoint _ (by omega),
        ByteMem.load_write_of_disjoint _ (by omega), ByteMem.load_write_of_disjoint _ (by omega)⟩
    · rw [Shm.set_other]
      exact ⟨rfl, rfl, rfl⟩
  exact ⟨h.phase_eq, h.inv.congr hs, h.counts.congr hs⟩

/-- **One step keeps the invariant.** -/
theorem Inv.step {a : UchanAct} (h : σ.Inv c f) (hs : σ.step c a = some σ') :
    ∃ f', σ'.Inv c f' := by
  cases a with
  | startInit s cfg =>
    have hf := h.phase_eq s
    rw [UchanSys.step] at hs
    cases hp : f s with
    | down chan =>
      rw [hf, hp] at hs
      obtain rfl := Option.some.inj hs
      rcases c.initProg_cases s chan cfg with ⟨chan', hc, hprog⟩ | ⟨chan', hat, hprog⟩
      · rw [hprog]
        have hmove : c.PhaseMove s σ.shm (f s) (.failed chan') σ.shm := hp ▸ .rejected hc
        exact ⟨_, h.move hmove⟩
      · rw [hprog]
        have hmove : c.PhaseMove s σ.shm (f s) (.initing chan' .check1) σ.shm := hp ▸ .startInit hat
        exact ⟨_, h.move hmove⟩
    | _ => rw [hf, hp] at hs; exact nomatch hs
  | startFree s =>
    have hf := h.phase_eq s
    rw [UchanSys.step] at hs
    cases hp : f s with
    | failed chan =>
      rw [hf, hp] at hs
      obtain rfl := Option.some.inj hs
      exact h.startFree (Or.inl hp)
    | up chan =>
      rw [hf, hp] at hs
      obtain rfl := Option.some.inj hs
      exact h.startFree (Or.inr hp)
    | _ => rw [hf, hp] at hs; exact nomatch hs
  | step s =>
    have hf := h.phase_eq s
    have hown := h.inv.own s
    rw [UchanSys.step] at hs
    cases hp : f s with
    | initing chan pc =>
      rw [hf, hp] at hs
      rw [hp] at hown
      obtain ⟨⟨th, shm'⟩, hstep, rfl⟩ := Option.map_eq_some_iff.mp hs
      obtain ⟨out, hm, rfl⟩ := UchanCfg.move_of_step hown.1 hstep
      exact h.initAfter hp hm
    | freeing chan pc =>
      rw [hf, hp] at hs
      have hat : c.At s chan := hown.at_handle (congrArg (fun p => p.phase.handle) hp)
      obtain ⟨⟨th, shm'⟩, hstep, rfl⟩ := Option.map_eq_some_iff.mp hs
      obtain ⟨out, hm, rfl⟩ := UchanCfg.freeMove_of_step hat hstep
      exact h.freeAfter hp hm
    | _ => rw [hf, hp] at hs; exact nomatch hs
  | tx s =>
    obtain ⟨chan, hc, hs⟩ := Option.bind_eq_some_iff.mp hs
    obtain ⟨r, hrun, rfl⟩ := Option.map_eq_some_iff.mp hs
    exact ⟨f, h.tx hc hrun⟩
  | rx s budget =>
    obtain ⟨chan, hc, hs⟩ := Option.bind_eq_some_iff.mp hs
    obtain ⟨r, hrun, rfl⟩ := Option.map_eq_some_iff.mp hs
    exact ⟨f, (h.rx hc hrun).1⟩
  | write s a bs =>
    rw [UchanSys.step] at hs
    split at hs
    · obtain rfl := Option.some.inj hs
      exact ⟨f, h.write ‹_›⟩
    · exact nomatch hs

/-- **Cleared memory and no peer up.** -/
structure Cleared (c : UchanCfg) (σ : UchanSys) : Prop where
  sentinel_eq : ∀ s, (σ.shm s).uchanSentinel c.off = 0
  down : ∀ s, ∃ chan, σ.phase s = .down chan ∧ chan.localMem = 0

theorem Cleared.inv (h : σ.Cleared c) : ∃ f, σ.Inv c f := by
  choose chan hphase hnull using h.down
  refine ⟨fun s => .down (chan s), hphase, ⟨fun s => ⟨hnull s, h.sentinel_eq s⟩, fun s =>
    ⟨fun hp => hp.elim, fun _ => trivial, fun hp => hp.elim⟩⟩, fun hd => ?_⟩
  exact absurd ((h.sentinel_eq .a).symm.trans (hd .a)) (by decide)

end UchanSys

/-- **Notifications on an unmanaged channel.** From cleared memory, in every
state that the peers reach and that has both headers marked `DONE`: the
`tx_count` of a peer is ahead of the `remote_tx_count` of the other by the
number of its successful transmissions since the last check of the other and
the last initialization of either, modulo `2 ^ 32`. A check is possible for
every peer that is up, and it calls the callback, once, exactly if that number
is not a multiple of `2 ^ 32`; while a header is not marked `DONE` it calls
nothing. -/
theorem unmanaged_notifications (c : UchanCfg) {σ₀ σ : UchanSys} (h₀ : σ₀.Cleared c)
    (hr : Steps.Reach (UchanSys.step c) σ₀ σ) :
    (c.Done σ.shm → ∀ s,
      (((σ.shm s).txCount c.off : ℤ) - (σ.shm s.other).remoteTxCount c.off) % 2 ^ 32
        = σ.sent s % 2 ^ 32) ∧
    ∀ s budget, (σ.phase s).handle ≠ none → ∃ σ', σ.step c (.rx s budget) = some σ' ∧
      (c.Done σ.shm → σ'.calls s = σ.calls s + if 2 ^ 32 ∣ σ.sent s.other then 0 else 1) ∧
      (¬c.Done σ.shm → σ'.calls s = σ.calls s) := by
  obtain ⟨f, h⟩ : ∃ f, σ.Inv c f := by
    refine hr.invariant (I := fun σ => ∃ f, σ.Inv c f) h₀.inv (fun u a v hu hstep => ?_)
    obtain ⟨f, hf⟩ := hu
    exact hf.step hstep
  refine ⟨h.counts, fun s budget hup => ?_⟩
  obtain ⟨chan, hc⟩ := Option.ne_none_iff_exists'.mp hup
  have hat : c.At s chan := (h.inv.own s).at_handle (h.phase_eq s ▸ hc)
  obtain ⟨r, hrun⟩ : ∃ r, (ipcChannelRx (c.driver s chan) (c.inst s) (c.chanId s) budget).run
      (countingHandle (c.μ s) s) (σ.shm, σ.calls s) = some r := by
    rw [UchanCfg.ipcChannelRx_uchan hat]
    split
    · exact ⟨_, rfl⟩
    · exact ⟨_, rfl⟩
  have hcalls := (h.rx hc hrun).2
  refine ⟨{ σ with
      shm := r.2.1
      sent := Function.update σ.sent s.other 0
      calls := Function.update σ.calls s r.2.2 }, ?_, fun hd => ?_, fun hd => ?_⟩
  · rw [UchanSys.step, hc]
    exact congrArg (Option.map _) hrun
  · show Function.update σ.calls s r.2.2 s = _
    rw [Function.update_self, hcalls]
    by_cases hdvd : 2 ^ 32 ∣ σ.sent s.other
    · rw [if_neg (fun h => h.2 hdvd), if_pos hdvd]
    · rw [if_pos ⟨hd, hdvd⟩, if_neg hdvd]
  · show Function.update σ.calls s r.2.2 s = _
    rw [Function.update_self, hcalls, if_neg (fun h => hd h.1), Nat.add_zero]

/-- The first channel of the first instance, right after the instance
state. -/
def firstUchan : UchanCfg where
  μ := twoWindows
  off := 8
  inst := fun _ => 0
  chanId := fun _ => 0
  base := fun _ => { priv := fun _ => { numChannels := 1 } }
  header_le := le_rfl
  fits := by
    intro s
    cases s <;> decide

/-- Memory is cleared. -/
def uchanStart : UchanSys where
  shm := fun _ _ => 0
  phase := fun _ => .down {}

/-- Both peers start, `a` first. Then `b` restarts between two transmissions
of `a`. -/
def restartBetween : List UchanAct :=
  let cfg : IpcShmUnmanagedCfg := { size := 64, rxCb := 0x200, cbArg := 0 }
  let ready (s : Side) : UchanAct := .write s 0 (leBytes 8 ipcShmStateReady)
  .startInit .a cfg :: List.replicate 6 (.step .a)
    ++ .startInit .b cfg :: List.replicate 8 (.step .b)
    ++ [ready .a, ready .b, .tx .a, .startFree .b] ++ List.replicate 3 (.step .b)
    ++ .startInit .b cfg :: List.replicate 8 (.step .b) ++ [.tx .a]

/-- The restart of `b` hides the first transmission of `a`; the second one is
seen by the next check. -/
theorem unmanaged_notifications_restart :
    ∃ σ σ', Steps.runActs (UchanSys.step firstUchan) restartBetween uchanStart = some σ ∧
      σ.sent .a = 1 ∧ (((σ.shm .a).txCount 8 : ℤ) - (σ.shm .b).remoteTxCount 8) % 2 ^ 32 = 1 ∧
      σ.step firstUchan (.rx .b 1) = some σ' ∧ σ'.calls .b = 1 := by
  have hrun : (Steps.runActs (UchanSys.step firstUchan) restartBetween uchanStart).map (fun σ =>
      (σ.sent .a, σ.calls .b, (σ.phase .b).handle.isSome, decide (firstUchan.Done σ.shm)))
        = some (1, 0, true, true) := by
    decide +kernel
  obtain ⟨σ, hσ, hvals⟩ := Option.map_eq_some_iff.mp hrun
  obtain ⟨hsent, hcalls, hup, hd⟩ : σ.sent .a = 1 ∧ σ.calls .b = 0 ∧
      (σ.phase .b).handle.isSome = true ∧ decide (firstUchan.Done σ.shm) = true := by
    simpa only [Prod.mk.injEq] using hvals
  have hcleared : uchanStart.Cleared firstUchan :=
    ⟨fun s => by cases s <;> decide, fun s => ⟨{}, rfl, rfl⟩⟩
  obtain ⟨hcount, hcheck⟩ :=
    unmanaged_notifications firstUchan hcleared (Steps.reach_of_runActs hσ)
  have hdone := of_decide_eq_true hd
  obtain ⟨σ', hstep, hcall, -⟩ := hcheck .b 1 (Option.isSome_iff_ne_none.mp hup)
  have hdiff := hcount hdone .a
  rw [hsent] at hdiff
  refine ⟨σ, σ', hσ, hsent, hdiff, hstep, ?_⟩
  rw [hcall hdone, hcalls]
  show 0 + (if 2 ^ 32 ∣ σ.sent .a then 0 else 1) = 1
  rw [hsent]
  decide
