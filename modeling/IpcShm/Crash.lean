import IpcShm.Handshake

/-!
# The handshake after both peers crashed

A peer that dies without freeing its queue leaves its ring marked `DONE`.
When both peers have died, each finds such a ring on the other side, and the
second check of the handshake can take it for a live one: the peer adopts the
indexes of a ring whose owner is itself about to start over. If that owner
then makes its own second check while the first is still adopting, it finds
`IN_PROGRESS` and starts from zero. Both complete with success and disagree
on what is in the queue (`crash_disagrees`).

That order of steps is the only way to it. In every run in which no peer makes
its second check while the other is adopting, two completed initializations
agree that the queue is empty (`crash_agrees`).
-/

namespace HandshakeSys

variable (c : HandshakeCfg)

/-- The steps of one initialization by each peer: nothing is freed, and no
element is pushed or popped. -/
def initStep (σ : HandshakeSys) : HandshakeAct → Option HandshakeSys
  | .startInit s => σ.step c (.startInit s)
  | .step s i => σ.step c (.step s i)
  | _ => none

/-- The peer is inside its adopting branch: its second check found the remote
ring initialized, and it has not marked its own ring yet. -/
def adopting (σ : HandshakeSys) (s : Side) : Bool :=
  match σ.phase s with
  | .initing _ adopting => adopting
  | _ => false

/-- The peer is about to make its second check. -/
def checking (σ : HandshakeSys) (s : Side) : Bool :=
  match σ.phase s with
  | .initing th _ => decide (σ.atSecondCheck c s th)
  | _ => false

/-- A step that is not the second check of a peer while the other is
adopting. -/
def separate (σ : HandshakeSys) : HandshakeAct → Bool
  | .step s _ => !(σ.checking c s && σ.adopting s.other)
  | _ => true

/-- A step that keeps the second check of a peer out of the adopting branch of
the other. -/
def separateStep (σ : HandshakeSys) (a : HandshakeAct) : Option HandshakeSys :=
  if σ.separate c a then σ.initStep c a else none

/-- Both rings left marked `DONE` with indexes in range, and no peer has
begun. -/
structure Crashed (σ : HandshakeSys) : Prop where
  done : σ.shm.Done c.off
  range : ∀ t, c.InRange (σ.shm t)
  idle : ∀ t, ∃ q, σ.phase t = .idle q

end HandshakeSys

namespace HandshakeCfg

variable (c : HandshakeCfg)

/-- What holds of a peer's own ring inside the initialization, after a
crash. -/
def CrashInit (m : ByteMem) (adopting : Bool) : InitPc → Prop
  | .check1 => adopting = false ∧ m.sentinel c.off = ipcQueueInitDone
  | .mark => adopting = false ∧ m.sentinel c.off = ipcQueueInitDone
  | .check2 => adopting = false ∧ c.Marked m
  | .adoptRead => adopting = true ∧ c.Marked m
  | .adoptWrite r => adopting = true ∧ c.Marked m ∧ r < c.numBufs.toNat + 1
  | .adoptLoad => adopting = true ∧ c.Marked m
  | .adoptStore v => adopting = true ∧ c.Marked m ∧ v < c.numBufs.toNat + 1
  | .zeroWrite => adopting = false ∧ c.Marked m
  | .zeroRead => adopting = false ∧ c.Marked m ∧ m.writeIdx c.off = 0
  | .populate _ _ _ => False
  | .finish => c.Marked m ∧
      (adopting = false → m.writeIdx c.off = 0 ∧ m.readIdx c.off = 0)

/-- What holds of a peer's own ring. -/
def CrashLocal (m : ByteMem) : PhasePc → Prop
  | .initing pc adopting => c.CrashInit m adopting pc
  | .freeing _ => False
  | _ => m.sentinel c.off = ipcQueueInitDone

/-- A peer at or past its second check that did not adopt. -/
def FromZero (m : ByteMem) (p : PhasePc) : Prop :=
  (∃ pc, p = .initing pc false ∧ (pc = .check2 ∨ InitPc.Late pc)) ∨
    p = .ready ∧ m.writeIdx c.off = 0 ∧ m.readIdx c.off = 0

/-- Both directions are empty. -/
def Agree (m m' : ByteMem) : Prop :=
  m.writeIdx c.off = m'.readIdx c.off ∧ m'.writeIdx c.off = m.readIdx c.off

/-- **What a peer knows of the other.** -/
def CrashPair (m m' : ByteMem) (p p' : PhasePc) : Prop :=
  match p with
  | .initing pc true =>
    (∀ pc' a', p' = .initing pc' a' → ¬InitPc.Late pc') ∧ c.Adopted m m' pc
  | .initing pc false => InitPc.Late pc → c.FromZero m' p'
  | .ready => p' = .ready → c.Agree m m'
  | _ => True

/-- **The joint invariant after a crash.** -/
structure CrashJoint (f : Side → PhasePc) (shm : Shm) : Prop where
  range : ∀ t, c.InRange (shm t)
  locals : ∀ t, c.CrashLocal (shm t) (f t)
  pairs : ∀ t, c.CrashPair (shm t) (shm t.other) (f t) (f t.other)

variable {c} {s : Side}

variable {p : PhasePc} {shm shm' : Shm}

/-- What a peer relies on follows from its local facts. -/
theorem CrashLocal.phaseOk {m : ByteMem} (h : c.CrashLocal m p) : c.PhaseOk s m p := by
  cases p with
  | initing pc a =>
    cases pc with
    | check1 =>
      exact ⟨trivial, fun _ => by rw [h.2]; exact done_ne_marked, fun hc => absurd hc (by simp)⟩
    | check2 => exact ⟨trivial, fun hc => absurd hc (by simp), fun _ => h.2⟩
    | populate bufId left pc => exact absurd h id
    | _ => exact ⟨trivial, fun hc => absurd hc (by simp), fun hc => absurd hc (by simp)⟩
  | _ => trivial

/-- A channel queue is not populated. -/
theorem afterSync_channel (hk : c.kind = .channelQueue) : c.afterSync s = .inl .finish := by
  have hf : c.fitsPool s = true := by rw [fitsPool, hk]
  rw [afterSync, hf, if_pos rfl, count, hk]
  rfl

/-- **A step inside the initialization, after a crash.** -/
theorem InitMove.crash_step (hk : c.kind = .channelQueue) {i : ℕ} {pc pc' : InitPc} {a : Bool}
    (hm : c.InitMove s i shm pc (.inl pc') shm') (hl : c.CrashInit (shm s) a pc)
    (hr : c.InRange (shm s)) (hr' : c.InRange (shm s.other)) :
    c.InRange (shm' s) ∧ c.CrashInit (shm' s) (c.lookAt s shm pc a) pc' ∧
      (c.Adopted (shm s) (shm s.other) pc → c.lookAt s shm pc a = true →
        c.Adopted (shm' s) (shm s.other) pc') := by
  have hN := c.numBufs_le
  unfold ipcShmMaxBufsPerChannel at hN
  have hcount : c.count = 0 := by rw [count, hk]
  cases hm with
  | check1 h => exact ⟨hr, hl, fun _ _ => trivial⟩
  | mark =>
    rw [Shm.set_self]
    refine ⟨⟨?_, ?_⟩, ⟨hl.1, marked_store⟩, fun _ _ => trivial⟩
    · rw [ByteMem.writeIdx_store_sentinel]; exact hr.1
    · rw [ByteMem.readIdx_store_sentinel]; exact hr.2
  | live h => exact ⟨hr, ⟨c.lookAt_live s h, hl.2⟩, fun _ _ => trivial⟩
  | fresh h => exact ⟨hr, ⟨c.lookAt_fresh s h, hl.2⟩, fun _ _ => trivial⟩
  | adoptRead => exact ⟨hr, ⟨hl.1, hl.2, hr'.2⟩, fun _ _ => rfl⟩
  | @adoptWrite r =>
    obtain ⟨ha, hmk, hrlt⟩ := hl
    rw [Shm.set_self]
    refine ⟨⟨?_, ?_⟩, ⟨ha, ByteMem.sentinel_store_write.trans hmk⟩, fun had _ => ?_⟩
    · rw [ByteMem.writeIdx_store_write (by omega)]; exact hrlt
    · rw [ByteMem.readIdx_store_write]; exact hr.2
    · exact (ByteMem.writeIdx_store_write (by omega)).trans had
  | adoptLoad =>
    exact ⟨hr, ⟨hl.1, hl.2, Nat.mod_lt _ (Nat.succ_pos _)⟩, fun had _ => ⟨had, rfl⟩⟩
  | @adoptStore v out h =>
    obtain ⟨ha, hmk, hv⟩ := hl
    obtain rfl : pc' = .finish := Sum.inl.inj (h.symm.trans (afterSync_channel hk))
    rw [Shm.set_self]
    refine ⟨⟨?_, ?_⟩, ⟨ByteMem.sentinel_store_read.trans hmk,
      fun hf => absurd (ha.symm.trans hf) (by simp)⟩, fun had _ => ⟨?_, ?_⟩⟩
    · rw [ByteMem.writeIdx_store_read]; exact hr.1
    · rw [ByteMem.readIdx_store_read (by omega)]; exact hv
    · rw [ByteMem.writeIdx_store_read, had.1, hcount, Nat.add_zero, Nat.mod_eq_of_lt hr'.2]
    · rw [ByteMem.readIdx_store_read (by omega), had.2]
  | zeroWrite =>
    rw [Shm.set_self]
    refine ⟨⟨?_, ?_⟩, ⟨hl.1, ByteMem.sentinel_store_write.trans hl.2,
      ByteMem.writeIdx_store_write (by decide)⟩, fun _ _ => trivial⟩
    · rw [ByteMem.writeIdx_store_write (by decide)]; exact Nat.succ_pos _
    · rw [ByteMem.readIdx_store_write]; exact hr.2
  | zeroRead h =>
    obtain ⟨ha, hmk, hw⟩ := hl
    obtain rfl : pc' = .finish := Sum.inl.inj (h.symm.trans (afterSync_channel hk))
    rw [Shm.set_self]
    refine ⟨⟨?_, ?_⟩, ⟨ByteMem.sentinel_store_read.trans hmk, fun _ => ⟨?_, ?_⟩⟩,
      fun _ hl => absurd (ha.symm.trans hl) (by simp)⟩
    · rw [ByteMem.writeIdx_store_read]; exact hr.1
    · rw [ByteMem.readIdx_store_read (by decide)]; exact Nat.succ_pos _
    · rw [ByteMem.writeIdx_store_read]; exact hw
    · exact ByteMem.readIdx_store_read (by decide)
  | push h => exact absurd hl id
  | pushed h => exact absurd hl id

/-- An initialization of a channel queue returns at its first check, or by
marking its ring. -/
theorem InitMove.crash_returns (hk : c.kind = .channelQueue) {i : ℕ} {pc : InitPc}
    {out : InitPc ⊕ ℤ} {a : Bool} {err : ℤ} (hm : c.InitMove s i shm pc out shm')
    (ho : out = .inr err) (hl : c.CrashInit (shm s) a pc) :
    (err = 0 → pc = .finish ∧ shm' = shm.set s ((shm s).store 8 c.off ipcQueueInitDone)) ∧
      (err ≠ 0 → pc = .check1 ∧ shm' = shm) := by
  cases hm with
  | busy h =>
    obtain rfl := Sum.inr.inj ho
    exact ⟨fun h0 => absurd h0 (by decide), fun _ => ⟨rfl, rfl⟩⟩
  | adoptStore h => exact absurd ((afterSync_channel hk).symm.trans (h.trans ho)) (by simp)
  | zeroRead h => exact absurd ((afterSync_channel hk).symm.trans (h.trans ho)) (by simp)
  | pushFailed he h => exact absurd hl id
  | finish =>
    obtain rfl := Sum.inr.inj ho
    exact ⟨fun _ => ⟨rfl, rfl⟩, fun h0 => absurd rfl h0⟩
  | _ => exact absurd ho (by simp)

/-- The facts a peer has about its own ring after any of its moves. -/
theorem PhaseMove.crash_local (hk : c.kind = .channelQueue) {p' : PhasePc}
    (hm : c.PhaseMove s shm p p' shm') (hne : ∀ pc, p' ≠ .freeing pc) (hl : c.CrashLocal (shm s) p)
    (hr : c.InRange (shm s)) (hr' : c.InRange (shm s.other)) :
    c.InRange (shm' s) ∧ c.CrashLocal (shm' s) p' := by
  cases hm with
  | startInit => exact ⟨hr, rfl, hl⟩
  | init h =>
    obtain ⟨hrange, hloc, -⟩ := h.crash_step hk hl hr hr'
    exact ⟨hrange, hloc⟩
  | initDone h =>
    obtain ⟨rfl, rfl⟩ := (h.crash_returns hk rfl hl).1 rfl
    rw [Shm.set_self]
    refine ⟨⟨?_, ?_⟩, ByteMem.sentinel_store_sentinel (v := ipcQueueInitDone) (by decide)⟩
    · rw [ByteMem.writeIdx_store_sentinel]; exact hr.1
    · rw [ByteMem.readIdx_store_sentinel]; exact hr.2
  | initFailed he h =>
    obtain ⟨rfl, rfl⟩ := (h.crash_returns hk rfl hl).2 he
    exact ⟨hr, hl.2⟩
  | startFreeFailed => exact absurd rfl (hne _)
  | startFree => exact absurd rfl (hne _)
  | free h => exact absurd rfl (hne _)
  | freed h => exact absurd hl id

/-- Past its second check a peer has marked its ring. -/
theorem CrashInit.marked {m : ByteMem} {a : Bool} {pc : InitPc} (h : c.CrashInit m a pc)
    (hl : pc = .check2 ∨ InitPc.Late pc) : c.Marked m := by
  cases pc with
  | check1 => exact absurd hl (by simp [InitPc.Late])
  | mark => exact absurd hl (by simp [InitPc.Late])
  | populate bufId left pc => exact absurd h id
  | check2 => exact h.2
  | adoptRead => exact h.2
  | adoptWrite r => exact h.2.1
  | adoptLoad => exact h.2
  | adoptStore v => exact h.2.1
  | zeroWrite => exact h.2
  | zeroRead => exact h.2.1
  | finish => exact h.1

/-- A ring not marked `DONE` belongs to a peer at or past its second check. -/
theorem CrashLocal.of_ne_done {m : ByteMem} (h : c.CrashLocal m p)
    (hd : m.sentinel c.off ≠ ipcQueueInitDone) :
    ∃ pc a, p = .initing pc a ∧ (pc = .check2 ∨ InitPc.Late pc) := by
  cases p with
  | initing pc a =>
    refine ⟨pc, a, rfl, ?_⟩
    cases pc with
    | check1 => exact absurd h.2 hd
    | mark => exact absurd h.2 hd
    | check2 => exact Or.inl rfl
    | _ => exact Or.inr trivial
  | freeing pc => exact absurd h id
  | _ => exact absurd h hd

/-- Before the second check nothing adopted from a ring is invalidated by its
owner. -/
theorem InitMove.early {i : ℕ} {pc : InitPc} {out : InitPc ⊕ ℤ}
    (hm : c.InitMove s i shm pc out shm') (he : ¬InitPc.Late pc) :
    (shm' s).writeIdx c.off = (shm s).writeIdx c.off ∧
      (shm' s).readIdx c.off = (shm s).readIdx c.off := by
  cases hm with
  | busy h => exact ⟨rfl, rfl⟩
  | check1 h => exact ⟨rfl, rfl⟩
  | mark =>
    rw [Shm.set_self]
    exact ⟨ByteMem.writeIdx_store_sentinel, ByteMem.readIdx_store_sentinel⟩
  | live h => exact ⟨rfl, rfl⟩
  | fresh h => exact ⟨rfl, rfl⟩
  | _ => exact absurd trivial he

theorem agree_of_adopted (hk : c.kind = .channelQueue) {m m' : ByteMem} (hr : c.InRange m')
    (h : c.Adopted m m' .finish) : c.Agree m m' := by
  have hcount : c.count = 0 := by rw [count, hk]
  obtain ⟨hw, hrd⟩ := h
  rw [hcount, Nat.add_zero, Nat.mod_eq_of_lt hr.2] at hw
  rw [adopted, hk, adoptedRead, Nat.mod_eq_of_lt hr.1] at hrd
  exact ⟨hw, hrd.symm⟩

/-- Completing an initialization: the two peers agree if the other is
ready. -/
theorem CrashPair.agree (hk : c.kind = .channelQueue) {m m' : ByteMem} {a : Bool}
    (hl : c.CrashInit m a .finish) (hr : c.InRange m')
    (h : c.CrashPair m m' (.initing .finish a) .ready) : c.Agree m m' := by
  cases a with
  | true => exact agree_of_adopted hk hr h.2
  | false =>
    rcases h trivial with ⟨pc, hpc, -⟩ | ⟨-, hw, hrd⟩
    · exact absurd hpc (by simp)
    · obtain ⟨hw', hrd'⟩ := hl.2 rfl
      exact ⟨hw'.trans hrd.symm, hw.trans hrd'.symm⟩

/-- What the moving peer knows of the other after its move. -/
theorem CrashJoint.pair_self (hk : c.kind = .channelQueue) {f : Side → PhasePc} {p₀ : PhasePc}
    (h : c.CrashJoint f shm) (hp₀ : f s = p₀) (hm : c.PhaseMove s shm p₀ p shm')
    (hne : ∀ pc, p ≠ .freeing pc)
    (hsep : ∀ a, p₀ = .initing .check2 a → ∀ pc', f s.other ≠ .initing pc' true) :
    c.CrashPair (shm' s) (shm s.other) p (f s.other) := by
  have hl := h.locals s
  have hpair := h.pairs s
  rw [hp₀] at hl hpair
  cases hm with
  | startInit => exact fun hlate => absurd hlate id
  | @init pc₀ pc' a₀ i _ hi =>
    obtain ⟨-, -, hadopt⟩ := hi.crash_step hk hl (h.range s) (h.range s.other)
    cases hi with
    | live hd =>
      rw [c.lookAt_live s hd]
      refine ⟨fun pc' a' hf' hlate => ?_, trivial⟩
      have hl' := h.locals s.other
      rw [hf'] at hl'
      exact (CrashInit.marked hl' (Or.inr hlate)).ne_done hd
    | fresh hd =>
      rw [c.lookAt_fresh s hd]
      intro _
      obtain ⟨pc', a', hf', hpc'⟩ := (h.locals s.other).of_ne_done hd
      cases a' with
      | true => exact absurd hf' (hsep a₀ rfl pc')
      | false => exact Or.inl ⟨pc', hf', hpc'⟩
    | check1 hne =>
      obtain rfl : a₀ = false := hl.1
      exact fun hlate => absurd hlate id
    | mark =>
      obtain rfl : a₀ = false := hl.1
      exact fun hlate => absurd hlate id
    | push hi => exact absurd hl id
    | pushed hi => exact absurd hl id
    | _ =>
      cases a₀ with
      | true => exact ⟨hpair.1, hadopt hpair.2 rfl⟩
      | false => exact fun _ => hpair trivial
  | initDone hi =>
    obtain ⟨rfl, rfl⟩ := (hi.crash_returns hk rfl hl).1 rfl
    intro hf'
    rw [hf'] at hpair
    rw [Agree, Shm.set_self, ByteMem.writeIdx_store_sentinel, ByteMem.readIdx_store_sentinel]
    exact CrashPair.agree hk hl (h.range s.other) hpair
  | initFailed he hi => trivial
  | startFreeFailed => exact absurd rfl (hne _)
  | startFree => exact absurd rfl (hne _)
  | free hi => exact absurd rfl (hne _)
  | freed hi => exact absurd hl id

/-- What the other peer knows of the moving one after the move. -/
theorem CrashJoint.pair_other (hk : c.kind = .channelQueue) {f : Side → PhasePc} {p₀ : PhasePc}
    (h : c.CrashJoint f shm) (hp₀ : f s = p₀) (hm : c.PhaseMove s shm p₀ p shm')
    (hne : ∀ pc, p ≠ .freeing pc)
    (hsep : ∀ a, p₀ = .initing .check2 a → ∀ pc', f s.other ≠ .initing pc' true) :
    c.CrashPair (shm s.other) (shm' s) (f s.other) p := by
  have hl := h.locals s
  have hpair := h.pairs s
  have hl' := h.locals s.other
  have hpair' := h.pairs s.other
  rw [Side.other_other] at hpair'
  rw [hp₀] at hl hpair hpair'
  generalize hq : f s.other = p' at hl' hpair hpair' hsep ⊢
  cases p' with
  | idle q => trivial
  | failed => trivial
  | freeing pc => trivial
  | ready =>
    intro hp
    subst hp
    cases hm with
    | initDone hi =>
      obtain ⟨rfl, rfl⟩ := (hi.crash_returns hk rfl hl).1 rfl
      have hag := CrashPair.agree hk hl (h.range s.other) hpair
      rw [Agree, Shm.set_self, ByteMem.writeIdx_store_sentinel, ByteMem.readIdx_store_sentinel]
      exact ⟨hag.2, hag.1⟩
  | initing pcY aY =>
    cases aY with
    | true =>
      obtain ⟨hearly, had⟩ := hpair'
      have hkeep : (shm' s).writeIdx c.off = (shm s).writeIdx c.off ∧
          (shm' s).readIdx c.off = (shm s).readIdx c.off ∧
          ∀ pc' a', p = .initing pc' a' → ¬InitPc.Late pc' := by
        cases hm with
        | startInit =>
          exact ⟨rfl, rfl, fun pc' a' hp => by
            obtain ⟨rfl, rfl⟩ := PhasePc.initing.inj hp
            exact id⟩
        | init hi =>
          obtain ⟨hw, hrd⟩ := hi.early (hearly _ _ rfl)
          refine ⟨hw, hrd, fun pc' a' hp => ?_⟩
          obtain ⟨rfl, rfl⟩ := PhasePc.initing.inj hp
          cases hi with
          | check1 hn => exact id
          | mark => exact id
          | live hd => exact absurd rfl (hsep _ rfl pcY)
          | fresh hd => exact absurd rfl (hsep _ rfl pcY)
          | _ => exact absurd trivial (hearly _ _ rfl)
        | initDone hi =>
          obtain ⟨rfl, -⟩ := (hi.crash_returns hk rfl hl).1 rfl
          exact absurd trivial (hearly _ _ rfl)
        | initFailed he hi =>
          obtain ⟨hw, hrd⟩ := hi.early (hearly _ _ rfl)
          exact ⟨hw, hrd, fun pc' a' hp => absurd hp (by simp)⟩
        | startFreeFailed => exact absurd rfl (hne _)
        | startFree => exact absurd rfl (hne _)
        | free hi => exact absurd rfl (hne _)
        | freed hi => exact absurd hl id
      obtain ⟨hw, hrd, hlate⟩ := hkeep
      refine ⟨hlate, ?_⟩
      cases pcY <;> simp only [Adopted, hw, hrd] at had ⊢ <;> exact had
    | false =>
      intro hlate
      rcases hpair' hlate with ⟨pc, rfl, hpc⟩ | ⟨rfl, -, -⟩
      · cases hm with
        | init hi =>
          cases hi with
          | check1 hn => exact absurd hpc (by simp [InitPc.Late])
          | mark => exact absurd hpc (by simp [InitPc.Late])
          | live hd => exact absurd hd (CrashInit.marked hl' (Or.inr hlate)).ne_done
          | fresh hd =>
            rw [c.lookAt_fresh s hd]
            exact Or.inl ⟨_, rfl, Or.inr trivial⟩
          | push hi => exact absurd hl id
          | pushed hi => exact absurd hl id
          | adoptStore ho =>
            obtain rfl := Sum.inl.inj (ho.symm.trans (afterSync_channel hk))
            exact Or.inl ⟨_, rfl, Or.inr trivial⟩
          | zeroRead ho =>
            obtain rfl := Sum.inl.inj (ho.symm.trans (afterSync_channel hk))
            exact Or.inl ⟨_, rfl, Or.inr trivial⟩
          | _ => exact Or.inl ⟨_, rfl, Or.inr trivial⟩
        | initDone hi =>
          obtain ⟨rfl, rfl⟩ := (hi.crash_returns hk rfl hl).1 rfl
          refine Or.inr ⟨rfl, ?_⟩
          rw [Shm.set_self, ByteMem.writeIdx_store_sentinel, ByteMem.readIdx_store_sentinel]
          exact hl.2 rfl
        | initFailed he hi =>
          obtain ⟨rfl, -⟩ := (hi.crash_returns hk rfl hl).2 he
          exact absurd hpc (by simp [InitPc.Late])
      · cases hm with
        | startFree => exact absurd rfl (hne _)

/-- **Every separate move keeps the joint invariant.** -/
theorem CrashJoint.move (hk : c.kind = .channelQueue) {f : Side → PhasePc} (h : c.CrashJoint f shm)
    (hm : c.PhaseMove s shm (f s) p shm') (hne : ∀ pc, p ≠ .freeing pc)
    (hsep : ∀ a, f s = .initing .check2 a → ∀ pc', f s.other ≠ .initing pc' true) :
    c.CrashJoint (Function.update f s p) shm' := by
  obtain ⟨hrange, hloc⟩ := hm.crash_local hk hne (h.locals s) (h.range s) (h.range s.other)
  have hother := hm.other
  refine ⟨fun t => ?_, fun t => ?_, fun t => ?_⟩
  · rcases Side.eq_or_eq_other s t with rfl | rfl
    · exact hrange
    · rw [hother]
      exact h.range s.other
  · rcases Side.eq_or_eq_other s t with rfl | rfl
    · rw [Function.update_self]
      exact hloc
    · rw [Function.update_of_ne (Side.other_ne s), hother]
      exact h.locals s.other
  · rcases Side.eq_or_eq_other s t with rfl | rfl
    · rw [Function.update_self, Function.update_of_ne (Side.other_ne t), hother]
      exact h.pair_self hk rfl hm hne hsep
    · rw [Side.other_other, Function.update_self, Function.update_of_ne (Side.other_ne s),
        hother]
      exact h.pair_other hk rfl hm hne hsep

end HandshakeCfg

/-! ## Whole runs -/

namespace HandshakeSys

variable {c : HandshakeCfg} {σ σ₀ : HandshakeSys}

/-- The system is at program points that satisfy the joint invariant. -/
def CrashInv (c : HandshakeCfg) (σ : HandshakeSys) : Prop :=
  ∃ f, (∀ t, σ.phase t = c.phase t (f t)) ∧ c.CrashJoint f σ.shm

theorem Crashed.inv (h : σ₀.Crashed c) : σ₀.CrashInv c := by
  choose q hq using h.idle
  exact ⟨fun t => .idle (q t), hq, h.range, h.done, fun t => trivial⟩

/-- An initialization does not turn into a release. -/
theorem initStep_not_freeing {f : Side → PhasePc} {s : Side} {p : PhasePc} {σ' : HandshakeSys}
    {a : HandshakeAct} (hf : ∀ t, σ.phase t = c.phase t (f t)) (hj : c.CrashJoint f σ.shm)
    (ha : a = .startInit s ∨ ∃ i, a = .step s i) (hs : σ.initStep c a = some σ')
    (hm : c.PhaseMove s σ.shm (f s) p σ'.shm) (pc : HandshakeCfg.FreePc) : p ≠ .freeing pc := by
  have hfs := hf s
  have hl := hj.locals s
  rintro rfl
  generalize hp : f s = p₀ at hm hl hfs
  generalize σ'.shm = shm' at hm
  cases hm with
  | free h => exact hl
  | _ =>
    rcases ha with rfl | ⟨i, rfl⟩ <;>
    · simp only [initStep, step, hfs, HandshakeCfg.phase] at hs
      exact absurd hs (by simp)

/-- **Every separate step keeps the joint invariant.** -/
theorem CrashInv.step (hk : c.kind = .channelQueue) (h : σ.CrashInv c) {a : HandshakeAct}
    {σ' : HandshakeSys} (hs : σ.separateStep c a = some σ') : σ'.CrashInv c := by
  obtain ⟨f, hf, hj⟩ := h
  rw [separateStep] at hs
  split at hs
  · rename_i hsep
    cases a with
    | startInit s =>
      obtain ⟨p, hm, hf'⟩ := startInit_cases hf hs
      refine ⟨_, hf', hj.move hk hm (initStep_not_freeing hf hj (Or.inl rfl) hs hm) ?_⟩
      intro a hfs
      exact absurd hs (by simp [initStep, HandshakeSys.step, hf s, hfs, HandshakeCfg.phase])
    | step s i =>
      have hok := (hj.locals s).phaseOk (s := s)
      obtain ⟨p, hm, hf'⟩ := step_cases hf hok hs
      refine ⟨_, hf', hj.move hk hm
        (initStep_not_freeing hf hj (Or.inr ⟨i, rfl⟩) hs hm) ?_⟩
      intro a hfs pc' hother
      rw [hfs] at hok
      have hcheck : σ.checking c s = true := by
        simp only [checking, hf s, hfs, HandshakeCfg.phase]
        exact decide_eq_true ((atSecondCheck_iff hok).mpr rfl)
      have hadopt : σ.adopting s.other = true := by
        simp only [adopting, hf s.other, hother, HandshakeCfg.phase]
      rw [separate, hcheck, hadopt] at hsep
      exact absurd hsep (by simp)
    | _ => exact absurd hs (by simp [initStep])
  · exact absurd hs (by simp)

/-- **The handshake after a crash.** In every run from rings both left marked
`DONE` in which no peer makes its second check while the other is adopting,
two initializations that completed with success leave both directions
empty. -/
theorem crash_agrees (hk : c.kind = .channelQueue) (h₀ : σ₀.Crashed c)
    (hr : Steps.Reach (HandshakeSys.separateStep c) σ₀ σ)
    (hready : ∀ t, (σ.phase t).isReady = true) (d : Side) :
    (σ.shm d).writeIdx c.off = (σ.shm d.other).readIdx c.off := by
  obtain ⟨f, hf, hj⟩ := hr.invariant (I := HandshakeSys.CrashInv c) h₀.inv
    (fun _ _ _ hI hs => hI.step hk hs)
  have hall : ∀ t, f t = .ready := fun t => HandshakeCfg.eq_ready (hf t ▸ hready t)
  have hpair := hj.pairs d
  rw [hall d, hall d.other] at hpair
  exact (hpair rfl).1

/-- A channel queue for one element. -/
def oneChannel : HandshakeCfg where
  μ := twoWindows
  off := 8
  kind := .channelQueue
  numBufs := 1
  os := fun s => (twoWindows s).os
  shmSize := fun _ => 0x1000
  poolId := 0
  bufSize := 16
  numBufs_pos := onePool.numBufs_pos
  numBufs_le := onePool.numBufs_le
  pool_le := fun h => absurd h (by decide)
  fits := onePool.fits

/-- Both rings left by a previous run, the indexes at zero on one side and at
one on the other. -/
def crashedStart : HandshakeSys where
  shm
    | .a => ByteMem.store (fun _ => 0) 8 8 ipcQueueInitDone
    | .b => ((ByteMem.store (fun _ => 0) 8 8 ipcQueueInitDone).store 4 16 1).store 4 20 1
  phase := fun _ => .idle {}

theorem crashedStart_crashed : crashedStart.Crashed oneChannel where
  done := fun t => by cases t <;> decide +kernel
  range := fun t => by cases t <;> exact ⟨by decide +kernel, by decide +kernel⟩
  idle := fun t => ⟨_, rfl⟩

/-- One peer finds the other's ring live and adopts; the other makes its
second check meanwhile and starts from zero. -/
def crossedActs : List HandshakeAct :=
  [.startInit .a, .startInit .b, .step .a 0, .step .b 0, .step .a 0, .step .a 0, .step .a 0,
    .step .a 0, .step .a 0, .step .b 0, .step .b 0, .step .b 0, .step .b 0, .step .b 0,
    .step .a 0, .step .a 0]

/-- **After a crash the two peers can disagree**: both initializations
complete with success, and one direction holds a stale element. -/
theorem crash_disagrees : ∃ σ, Steps.Reach (HandshakeSys.initStep oneChannel) crashedStart σ ∧
    crashedStart.Crashed oneChannel ∧ (∀ t, (σ.phase t).isReady = true) ∧
    (σ.shm .a).writeIdx 8 = 1 ∧ (σ.shm .b).readIdx 8 = 0 := by
  have hrun : (Steps.runActs (HandshakeSys.initStep oneChannel) crossedActs crashedStart).map
      (fun σ => ((σ.phase .a).isReady, (σ.phase .b).isReady, (σ.shm .a).writeIdx 8,
        (σ.shm .b).readIdx 8)) = some (true, true, 1, 0) := by
    decide +kernel
  obtain ⟨σ, hσ, hval⟩ := Option.map_eq_some_iff.mp hrun
  simp only [Prod.mk.injEq] at hval
  obtain ⟨ha, hb, hw, hr⟩ := hval
  refine ⟨σ, Steps.reach_of_runActs hσ, crashedStart_crashed, fun t => ?_, hw, hr⟩
  cases t with
  | a => exact ha
  | b => exact hb

/-- One peer after the other. -/
def inTurnActs : List HandshakeAct :=
  .startInit .a :: List.replicate 8 (.step .a 0)
    ++ .startInit .b :: List.replicate 8 (.step .b 0)

/-- Then the second adopts what the first adopted, and they agree. -/
theorem crash_agrees_inTurn : ∃ σ,
    Steps.Reach (HandshakeSys.separateStep oneChannel) crashedStart σ ∧
      (σ.shm .a).writeIdx 8 = 1 ∧
      ∀ d, (σ.shm d).writeIdx 8 = (σ.shm d.other).readIdx 8 := by
  have hrun : (Steps.runActs (HandshakeSys.separateStep oneChannel) inTurnActs
      crashedStart).map (fun σ => ((σ.phase .a).isReady, (σ.phase .b).isReady,
        (σ.shm .a).writeIdx 8)) = some (true, true, 1) := by
    decide +kernel
  obtain ⟨σ, hσ, hval⟩ := Option.map_eq_some_iff.mp hrun
  simp only [Prod.mk.injEq] at hval
  obtain ⟨ha, hb, hw⟩ := hval
  have hreach := Steps.reach_of_runActs hσ
  refine ⟨σ, hreach, hw, crash_agrees rfl crashedStart_crashed hreach (fun t => ?_)⟩
  cases t with
  | a => exact ha
  | b => exact hb

end HandshakeSys
