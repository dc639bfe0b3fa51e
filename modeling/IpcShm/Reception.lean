import IpcShm.InstanceLayout
import IpcShm.OsCalls
import IpcShm.RxLoop

/-!
# What a reception examines

`ipc_shm_rx` runs while the remote goes on writing: descriptors arrive,
counters are bumped, an initialization is undone. What it returns is read as
a promise all the same. The softirq enables the interrupt again when the work
stayed below the budget, so work below the budget has to mean that there was
nothing left to do – on any channel, when it was last looked at.

The statement is about exchanges (`Program.Trace`), with every reply
possible. A call whose work stays below its budget ends in a round in which
each channel was examined and found idle: a managed one by an
`ipc_queue_pop` that failed, an unmanaged one by an integrity check that
failed or a counter that had not changed. The proof carries the round just
made as the invariant of a `RoundRule`: as long as no channel used up its
share, all of them were idle.
-/

/-- The request is not an operation C leaves undefined. -/
def Op.Defined : Op → Prop
  | .undefinedBehaviour => False
  | _ => True

/-- A request with the reply it got. -/
abbrev Exchange := (o : Op) × o.Ret

/-! ## Instances with channels -/

/-- **An instance in use has channels**: `ipc_shm_init_instance` refuses
configurations without. -/
def Driver.Configured (d : Driver) : Prop :=
  ∀ inst, (d.priv inst).global ≠ 0 →
    1 ≤ (d.priv inst).numChannels ∧ (d.priv inst).numChannels ≤ ipcShmMaxChannels

theorem Driver.configured_initial : Driver.Configured {} := fun _ h => absurd rfl h

section Configured

variable {E : (o : Op) → o.Ret → Prop} {d : Driver} {inst : ℕ}

theorem Driver.Configured.setPriv (hd : d.Configured) {p : IpcShmPriv}
    (hp : p.global ≠ 0 → 1 ≤ p.numChannels ∧ p.numChannels ≤ ipcShmMaxChannels) :
    (d.setPriv inst p).Configured := by
  intro i hi
  unfold Driver.setPriv at hi ⊢
  by_cases h : i = inst
  · subst h
    simp only [Function.update_self] at hi ⊢
    exact hp hi
  · simp only [Function.update_of_ne h] at hi ⊢
    exact hd i hi

/-- **Initialization** leaves every instance in use with channels, whatever
the environment replies. -/
theorem ipcShmInitInstance_configured (hd : d.Configured) (cfg : Option IpcShmCfg) :
    (ipcShmInitInstance d inst cfg).Always E (fun _ => True) (fun r => r.2.Configured) := by
  unfold ipcShmInitInstance
  refine (Program.Always.trivial _).bind (fun st _ => ?_)
  split
  · exact hd
  cases cfg with
  | none => exact hd
  | some cfg =>
    dsimp only
    split
    · exact hd
    split
    · exact hd
    rename_i hnum
    split
    · exact ⟨trivial, fun r => nomatch r⟩
    have hnum' : 1 ≤ cfg.numChannels.toNat ∧ cfg.numChannels.toNat ≤ ipcShmMaxChannels := by
      omega
    rw [ipcHwInit_bind]
    refine ⟨trivial, fun err _ => ?_⟩
    dsimp only
    split
    · exact hd.setPriv (fun _ => hnum')
    rw [ipcOsInit_bind]
    refine ⟨trivial, fun r _ => ?_⟩
    dsimp only
    split
    · exact ⟨trivial, fun _ _ => hd.setPriv (fun _ => hnum')⟩
    rw [store64_bind]
    refine ⟨trivial, fun _ _ => ?_⟩
    simp only [Driver.setOs, Driver.setPriv, Function.update_self, Function.update_idem]
    refine (initChannels_header _ _ _ _ _ _ _).bind (fun r hr => ?_)
    split
    · refine (freeConfiguredChannels_header _ _).bind (fun p hp => ?_)
      exact ⟨trivial, fun _ _ => ⟨trivial, fun _ _ => hd.setPriv (fun h => absurd hp.2 h)⟩⟩
    · refine ⟨trivial, fun _ _ => ⟨trivial, fun _ _ => hd.setPriv (fun _ => ?_)⟩⟩
      rw [hr.1]
      exact hnum'

/-- **Release** leaves the other instances as they are. -/
theorem ipcShmFreeInstance_configured (hd : d.Configured) :
    (ipcShmFreeInstance d inst).Always E (fun _ => True) Driver.Configured := by
  unfold ipcShmFreeInstance
  refine (Program.Always.trivial _).bind (fun st _ => ?_)
  split
  · exact hd
  · refine ⟨trivial, fun _ _ => ⟨trivial, fun _ _ => ?_⟩⟩
    refine (freeChannels_header _ _ _ _).bind (fun p hp => ?_)
    exact ⟨trivial, fun _ _ => ⟨trivial, fun _ _ => hd.setPriv (fun h => absurd hp.2 h)⟩⟩

end Configured

/-- **The private data that calls lead to**, whatever the environment replies.
Only the initialization and the release of an instance change it. -/
inductive Driver.Reached : Driver → Prop where
  | initial : Driver.Reached {}
  | init {d d' : Driver} {inst : ℕ} {cfg : Option IpcShmCfg} {err : ℤ} (h : d.Reached)
      (hret : (ipcShmInitInstance d inst cfg).Returns (fun _ _ => True) (err, d')) :
      Driver.Reached d'
  | free {d d' : Driver} {inst : ℕ} (h : d.Reached)
      (hret : (ipcShmFreeInstance d inst).Returns (fun _ _ => True) d') : Driver.Reached d'

/-- **Every instance in use has channels**, after any calls. -/
theorem Driver.Reached.configured {d : Driver} (h : d.Reached) : d.Configured := by
  induction h with
  | initial => exact Driver.configured_initial
  | init _ hret ih => exact (ipcShmInitInstance_configured ih _).of_returns hret
  | free _ hret ih => exact (ipcShmFreeInstance_configured ih).of_returns hret

/-! ## The exchanges of one channel -/

/-- The last of the exchanges is an `ipc_queue_pop` that found the queue
invalid or empty. -/
def EndsInFailedPop (q : IpcQueue) (tr : List Exchange) : Prop :=
  ∃ before last err bs, tr = before ++ last ∧ (ipcQueuePop q).Trace last (err, bs) ∧
    (err = -EINVAL ∨ err = -ENOBUFS)

/-- **A channel examined and found idle**: a managed one by a pop that fails,
an unmanaged one because its integrity is lost or the remote's Tx counter is
the one seen last. -/
def FoundIdle (chan : IpcShmChannel) (tr : List Exchange) : Prop :=
  if chan.type = .unmanaged then
    (ipcCheckUchanIntegrity chan).Trace tr (-EINVAL) ∨
      ∃ check txCount, (ipcCheckUchanIntegrity chan).Trace check 0 ∧
        tr = check ++ [⟨.load 4 (chan.remoteMem + 4), txCount⟩,
          ⟨.load 4 (chan.localMem + 8), txCount⟩]
  else
    EndsInFailedPop chan.mng.bdQueue tr

section Channel

variable {q : IpcQueue}

theorem ipcQueueCheckIntegrity_defined (q : IpcQueue) :
    (ipcQueueCheckIntegrity q).Always (fun _ _ => True) Op.Defined (fun _ => True) := by
  rw [ipcQueueCheckIntegrity, load64_bind]
  refine ⟨trivial, fun v _ => ?_⟩
  dsimp only
  split
  · rw [load64_bind]
    refine ⟨trivial, fun v' _ => ?_⟩
    dsimp only
    split <;> trivial
  · trivial

/-- **`ipc_queue_pop`** does nothing undefined, whatever the indexes are: a
read index below the size of the ring means that the size is not zero. -/
theorem ipcQueuePop_defined (q : IpcQueue) :
    (ipcQueuePop q).Always (fun _ _ => True) Op.Defined
      (fun r => r.1 = 0 ∨ r.1 = -EINVAL ∨ r.1 = -ENOBUFS) := by
  unfold ipcQueuePop
  split
  · exact Or.inr (Or.inl rfl)
  refine ⟨trivial, fun write _ => ⟨trivial, fun read _ => ?_⟩⟩
  refine (ipcQueueCheckIntegrity_defined q).bind (fun err _ => ?_)
  split
  · exact Or.inr (Or.inl rfl)
  rename_i hok
  split
  · exact Or.inr (Or.inr rfl)
  · rw [remU_of_pos (by omega)]
    exact ⟨trivial, fun _ _ => ⟨trivial, fun _ _ => Or.inl rfl⟩⟩

theorem popBd_defined (q : IpcQueue) :
    (popBd q).Always (fun _ _ => True) Op.Defined (fun _ => True) := by
  refine (ipcQueuePop_defined q).bind (fun r _ => ?_)
  dsimp only
  split <;> trivial

/-- Nothing is popped where `ipc_queue_pop` fails. -/
theorem popBd_trace_none {tr : List Exchange} (h : (popBd q).Trace tr none) :
    ∃ err bs, (ipcQueuePop q).Trace tr (err, bs) ∧ (err = -EINVAL ∨ err = -ENOBUFS) := by
  obtain ⟨tr₁, tr₂, ⟨err, bs⟩, rfl, hpop, hrest⟩ := Program.trace_bind.mp h
  have hcode := (ipcQueuePop_defined q).of_trace hpop
  dsimp only at hrest
  split at hrest
  · rename_i herr
    obtain ⟨rfl, -⟩ := hrest
    rw [List.append_nil]
    exact ⟨err, bs, hpop, hcode.resolve_left herr⟩
  · exact nomatch hrest.2

theorem handleBd_defined (d : Driver) (inst c : ℕ) (bd : IpcShmBd) :
    (handleBd d inst c bd).Always (fun _ _ => True) Op.Defined (fun _ => True) := by
  unfold handleBd IpcManagedChannel.poolAt
  refine Program.Always.bind (P := fun _ => True) ?_ (fun pool _ => ?_)
  · split
    · trivial
    · exact ⟨trivial, fun _ _ => trivial⟩
  · dsimp only
    split
    · exact ⟨trivial, fun _ _ => trivial⟩
    · trivial

theorem ipcCheckUchanIntegrity_defined (chan : IpcShmChannel) :
    (ipcCheckUchanIntegrity chan).Always (fun _ _ => True) Op.Defined
      (fun r => r = 0 ∨ r = -EINVAL) := by
  rw [ipcCheckUchanIntegrity, load32_bind]
  refine ⟨trivial, fun v _ => ?_⟩
  dsimp only
  split
  · rw [load32_bind]
    refine ⟨trivial, fun v' _ => ?_⟩
    dsimp only
    split
    · exact Or.inl rfl
    · exact Or.inr rfl
  · exact Or.inr rfl

/-- Draining a managed channel ends with the share used up or with a pop that
fails. -/
theorem drainChannel_idle (d : Driver) (inst c share : ℕ) (q : IpcQueue) :
    (drainChannel (popBd q) (handleBd d inst c) share 0).wp (Program.recording Op.Defined)
      (fun w tr => w ≤ share ∧ (w < share → EndsInFailedPop q tr)) [] := by
  have hH := Program.monotone_recording (R := Op.Ret) Op.Defined
  refine Program.wp_mono hH _ (fun w tr hw => ?_)
    (drainChannel_rule hH (I := fun _ _ => True) (Q := fun _ tr => EndsInFailedPop q tr)
      (fun k tr _ => ?_) share 0 trivial)
  · obtain ⟨-, hle, -, hdry⟩ := hw
    rw [Nat.zero_add] at hle hdry
    exact ⟨hle, hdry⟩
  · refine (Program.wp_recording_iff _).mpr
      ⟨popBd_defined q, fun last msg hmsg => ⟨fun hnone => ?_, fun bd _ => ?_⟩⟩
    · subst hnone
      obtain ⟨err, bs, hpop, hcode⟩ := popBd_trace_none hmsg
      exact ⟨tr, last, err, bs, rfl, hpop, hcode⟩
    · exact (Program.wp_recording_iff _).mpr
        ⟨handleBd_defined d inst c bd, fun _ _ _ => trivial⟩

/-- **`ipc_channel_rx`** does nothing undefined and stays in its share; if it
does less, the channel was examined and found idle. -/
theorem ipcChannelRx_idle (d : Driver) (inst c share : ℕ) :
    (ipcChannelRx d inst c share).Always (fun _ _ => True) Op.Defined (fun _ => True) ∧
      ∀ tr w, (ipcChannelRx d inst c share).Trace tr w →
        w ≤ share ∧ (w < share → FoundIdle ((d.priv inst).channels c) tr) := by
  unfold ipcChannelRx FoundIdle
  dsimp only
  by_cases ht : ((d.priv inst).channels c).type = .unmanaged
  · simp only [if_pos ht]
    constructor
    · refine (ipcCheckUchanIntegrity_defined _).bind (fun err _ => ?_)
      split
      · rw [load32_bind]
        refine ⟨trivial, fun count _ => ?_⟩
        dsimp only
        rw [load32_bind]
        refine ⟨trivial, fun seen _ => ?_⟩
        dsimp only
        split
        · exact ⟨trivial, fun _ _ => ⟨trivial, fun _ _ => trivial⟩⟩
        · trivial
      · trivial
    · intro tr w htr
      obtain ⟨check, rest, err, rfl, hcheck, hrest⟩ := Program.trace_bind.mp htr
      split at hrest
      · rename_i herr
        subst herr
        rw [load32_bind] at hrest
        obtain ⟨count, _, rfl, hrest⟩ := hrest
        dsimp only at hrest
        rw [load32_bind] at hrest
        obtain ⟨seen, _, rfl, hrest⟩ := hrest
        dsimp only at hrest
        split at hrest
        · obtain ⟨_, _, rfl, _, _, rfl, rfl, rfl⟩ := hrest
          exact ⟨Nat.le_refl _, fun h => absurd h (Nat.lt_irrefl _)⟩
        · rename_i hseen
          obtain ⟨rfl, rfl⟩ := hrest
          obtain rfl := not_not.mp hseen
          exact ⟨Nat.zero_le _, fun _ => Or.inr ⟨check, count, hcheck, rfl⟩⟩
      · rename_i herr
        obtain ⟨rfl, rfl⟩ := hrest
        obtain rfl := ((ipcCheckUchanIntegrity_defined _).of_trace hcheck).resolve_left herr
        rw [List.append_nil]
        exact ⟨Nat.zero_le _, fun _ => Or.inl hcheck⟩
  · simp only [if_neg ht]
    obtain ⟨hdef, htr⟩ := (Program.wp_recording_iff _).mp
      (drainChannel_idle d inst c share ((d.priv inst).channels c).mng.bdQueue)
    exact ⟨hdef, htr⟩

end Channel

/-! ## The last round -/

/-- **A round that found every channel idle**: the channels before `n` were
examined one after the other, none used up its share, and each was idle. -/
def IdleRound (d : Driver) (inst share : ℕ) : ℕ → List Exchange → Prop
  | 0, tr => tr = []
  | n + 1, tr => ∃ tr₁ tr₂ w, tr = tr₁ ++ tr₂ ∧ IdleRound d inst share n tr₁ ∧
      (ipcChannelRx d inst n share).Trace tr₂ w ∧ w < share ∧
      FoundIdle ((d.priv inst).channels n) tr₂

/-- The invariant of a call: as long as no channel used up its share, the
round being made found every channel idle so far. -/
theorem idleRound_rule (d : Driver) (inst numChans budget : ℕ) :
    RoundRule (Program.recording Op.Defined)
      (fun _ share c more _ tr => ∃ before round, tr = before ++ round ∧
        (more = false → IdleRound d inst share c round))
      (ipcChannelRx d inst) numChans budget where
  turn := by
    rintro - share c more - tr - - ⟨before, round, rfl, hround⟩
    obtain ⟨hdef, htr⟩ := ipcChannelRx_idle d inst c share
    refine (Program.wp_recording_iff _).mpr ⟨hdef, fun part w hpart => ?_⟩
    obtain ⟨hle, hidle⟩ := htr part w hpart
    refine ⟨hle, before, round ++ part, List.append_assoc _ _ _, fun hmore => ?_⟩
    rw [Bool.or_eq_false_iff, decide_eq_false_iff_not] at hmore
    have hlt : w < share := Nat.lt_of_le_of_ne hle hmore.2
    exact ⟨round, part, w, rfl, hround hmore.1, hpart, hlt, hidle hlt⟩
  next := fun _ _ _ tr _ _ => ⟨tr, [], (List.append_nil tr).symm, fun _ => rfl⟩

theorem ipcInstanceIsFree_defined (d : Driver) (inst : ℕ) :
    (ipcInstanceIsFree d inst).Always (fun _ _ => True) Op.Defined
      (fun st => st = .used → inst < ipcShmMaxInstances ∧ (d.priv inst).global ≠ 0) := by
  unfold ipcInstanceIsFree
  split
  · exact fun h => nomatch h
  rename_i hinst
  split
  · exact fun h => nomatch h
  rename_i hg
  rw [load64_bind]
  refine ⟨trivial, fun v _ => ?_⟩
  dsimp only
  split
  · exact fun h => nomatch h
  · exact fun _ => ⟨Nat.lt_of_not_le hinst, hg⟩

/-- The rounds of a call on an instance that has channels. -/
theorem rxRounds_idle {d : Driver} (hd : d.Configured) {inst budget : ℕ}
    (hg : (d.priv inst).global ≠ 0) (hbudget : budget < 2 ^ 31) :
    (rxRounds undefinedBehaviour (ipcChannelRx d inst) (d.priv inst).numChannels budget
        (budget + 1) 0 true).wp (Program.recording Op.Defined)
      (fun w tr => w ≤ budget + (d.priv inst).numChannels - 1 ∧
        (w < budget → ∃ before round share, tr = before ++ round ∧
          IdleRound d inst share (d.priv inst).numChannels round)) [] := by
  have hH := Program.monotone_recording (R := Op.Ret) Op.Defined
  obtain ⟨hpos, hle⟩ := hd inst hg
  refine Program.wp_mono hH _ (fun w tr hw => ?_)
    (rxRounds_call hH (idleRound_rule d inst _ _) hpos undefinedBehaviour
      (by unfold ipcShmMaxChannels at hle; omega) ⟨[], [], rfl, fun h => nomatch h⟩)
  obtain ⟨hwork, _, share, more, ⟨before, round, rfl, hround⟩, hdone, -⟩ := hw
  exact ⟨hwork, fun hlt => ⟨before, round, share, rfl, hround (hdone hlt)⟩⟩

/-- **`ipc_shm_rx`** returns, does nothing undefined, and overshoots its
budget by less than one message for each channel. -/
theorem ipcShmRx_defined {d : Driver} (hd : d.Configured) (inst : ℕ) {budget : ℕ}
    (hbudget : budget < 2 ^ 31) :
    (ipcShmRx d inst budget).Always (fun _ _ => True) Op.Defined
      (fun w => w ≤ budget + (d.priv inst).numChannels - 1) := by
  refine (ipcInstanceIsFree_defined d inst).bind (fun st hst => ?_)
  split
  · exact Nat.zero_le _
  · rename_i hused
    obtain ⟨hdef, htr⟩ :=
      (Program.wp_recording_iff _).mp (rxRounds_idle hd (hst (not_not.mp hused)).2 hbudget)
    exact hdef.of_traces (fun tr w h => (htr tr w h).1)

/-- A call on an instance that is in use begins with a look at its header. -/
theorem ipcShmRx_trace {d : Driver} {inst budget w : ℕ} {tr : List Exchange}
    (hinst : inst < ipcShmMaxInstances) (hg : (d.priv inst).global ≠ 0)
    (h : (ipcShmRx d inst budget).Trace tr w) :
    ∃ state rest, tr = ⟨.load 8 (d.priv inst).global, state⟩ :: rest ∧
      (state ≠ ipcShmStateClear →
        (rxRounds undefinedBehaviour (ipcChannelRx d inst) (d.priv inst).numChannels budget
          (budget + 1) 0 true).Trace rest w) := by
  obtain ⟨found, rest, st, rfl, hfound, hrest⟩ := Program.trace_bind.mp h
  rw [ipcInstanceIsFree, if_neg (Nat.not_le.mpr hinst), if_neg hg, load64_bind] at hfound
  obtain ⟨state, tr', rfl, hstate⟩ := hfound
  refine ⟨state, tr' ++ rest, rfl, fun hne => ?_⟩
  dsimp only at hstate
  rw [if_neg hne] at hstate
  obtain ⟨rfl, rfl⟩ := hstate
  rw [if_neg (not_not.mpr rfl)] at hrest
  exact hrest

/-- **A reception is exhaustive.** In any state that calls lead to, and whatever
the remote does meanwhile, `ipc_shm_rx` returns, divides by no zero and
overshoots its budget by less than one message for each channel. Every call on
an instance in use looks at the header of the instance first, and if it finds
it in use and returns less than its budget then the last thing it did was a
round that found every channel idle. -/
theorem ipcShmRx_exhaustive {d : Driver} (hd : d.Reached) {inst : ℕ}
    (hinst : inst < ipcShmMaxInstances) (hg : (d.priv inst).global ≠ 0) {budget : ℕ}
    (hbudget : budget < 2 ^ 31) :
    (ipcShmRx d inst budget).Always (fun _ _ => True) Op.Defined
        (fun w => w ≤ budget + (d.priv inst).numChannels - 1) ∧
      ∀ tr w, (ipcShmRx d inst budget).Trace tr w →
        ∃ state rest, tr = ⟨.load 8 (d.priv inst).global, state⟩ :: rest ∧
          (state ≠ ipcShmStateClear → w < budget → ∃ before round share, rest = before ++ round ∧
            IdleRound d inst share (d.priv inst).numChannels round) := by
  have hcfg := hd.configured
  refine ⟨ipcShmRx_defined hcfg inst hbudget, fun tr w hcall => ?_⟩
  obtain ⟨state, rest, rfl, hrounds⟩ := ipcShmRx_trace hinst hg hcall
  refine ⟨state, rest, rfl, fun hne hlt => ?_⟩
  exact (((Program.wp_recording_iff _).mp (rxRounds_idle hcfg hg hbudget)).2 rest w
    (hrounds hne)).2 hlt

/-- Two peers whose channels 0 and 1 are a managed and an unmanaged one. Side `a`
sent two messages on the one and a notification on the other; the private data
of `b`, and memory. -/
def waitingThree (cfg : IpcShmCfg) : Option (Driver × Shm) :=
  ((ipcShmInitInstance {} 0 (some cfg)).run (memHandle (twoWindows .b) .b)
      (fun _ _ => 0)).bind fun b =>
    ((ipcShmInitInstance {} 0 (some cfg)).run (memHandle (twoWindows .a) .a) b.2).bind fun a =>
    ((ipcShmAcquireBuf a.1.2 0 0 16).run (memHandle (twoWindows .a) .a) a.2).bind fun x =>
    ((ipcShmTx a.1.2 0 0 x.1 5).run (memHandle (twoWindows .a) .a) x.2).bind fun t =>
    ((ipcShmAcquireBuf a.1.2 0 0 16).run (memHandle (twoWindows .a) .a) t.2).bind fun y =>
    ((ipcShmTx a.1.2 0 0 y.1 7).run (memHandle (twoWindows .a) .a) y.2).bind fun u =>
    ((ipcShmUnmanagedTx a.1.2 0 1).run (memHandle (twoWindows .a) .a) u.2).map fun v =>
    (b.1.2, v.2)

/-- Side `b` came there by an initialization. -/
theorem waitingThree_init {cfg : IpcShmCfg} {d : Driver} {shm : Shm}
    (h : waitingThree cfg = some (d, shm)) : ∃ err shm', (ipcShmInitInstance {} 0 (some cfg)).run
      (memHandle (twoWindows .b) .b) (fun _ _ => 0) = some ((err, d), shm') := by
  obtain ⟨⟨⟨err, d'⟩, shm'⟩, hinit, h⟩ := Option.bind_eq_some_iff.mp h
  simp only [Option.bind_eq_some_iff, Option.map_eq_some_iff] at h
  obtain ⟨_, -, _, -, _, -, _, -, _, -, _, -, he⟩ := h
  obtain rfl : d' = d := (Prod.mk.inj he).1
  exact ⟨err, shm', hinit⟩

theorem waitingThree_reached {cfg : IpcShmCfg} {d : Driver} {shm : Shm}
    (h : waitingThree cfg = some (d, shm)) : d.Reached := by
  obtain ⟨err, shm', hinit⟩ := waitingThree_init h
  exact .init .initial (Program.returns_of_run (fun _ _ _ _ _ => trivial) hinit)

/-- The reply to a request, if that was a load. -/
def Exchange.loaded : Exchange → Option ℕ
  | ⟨.load _ _, v⟩ => some v
  | _ => none

/-- A call with a budget of 128 takes the two messages, and the notification at
half the budget. It goes over the channels again and finds both idle. -/
theorem ipcShmRx_exhaustive_waitingThree : ∃ d shm tr, waitingThree sampleCfg = some (d, shm) ∧
    (ipcShmRx d 0 128).Trace tr 66 ∧
    (ipcShmRx d 0 128).Always (fun _ _ => True) Op.Defined
      (fun w => w ≤ 128 + (d.priv 0).numChannels - 1) ∧
    ∃ header before round share,
      tr = header :: (before ++ round) ∧ IdleRound d 0 share 2 round := by
  have hrun : ((waitingThree sampleCfg).bind fun r =>
      ((ipcShmRx r.1 0 128).runTraced (memHandle (twoWindows .b) .b) r.2).map fun t =>
        (t.1.head?.bind Exchange.loaded, t.2.1, (r.1.priv 0).global, (r.1.priv 0).numChannels))
      = some (some ipcShmStateReady, 66, 0x8000, 2) := by
    decide +kernel
  obtain ⟨⟨d, shm⟩, hwait, hrun⟩ := Option.bind_eq_some_iff.mp hrun
  obtain ⟨⟨tr, w, shm'⟩, hrun, hval⟩ := Option.map_eq_some_iff.mp hrun
  simp only [Prod.mk.injEq] at hval
  obtain ⟨hstate, rfl, hglobal, hnum⟩ := hval
  have htr := Program.trace_of_runTraced hrun
  have hused : (d.priv 0).global ≠ 0 := by
    rw [hglobal]
    decide
  obtain ⟨halways, hexh⟩ := ipcShmRx_exhaustive (waitingThree_reached hwait)
    (show 0 < ipcShmMaxInstances by decide) hused (show 128 < 2 ^ 31 by decide)
  obtain ⟨state, rest, rfl, hround⟩ := hexh tr 66 htr
  obtain rfl : state = ipcShmStateReady := Option.some.inj hstate
  obtain ⟨before, round, share, rfl, hidle⟩ := hround
    (show (ipcShmStateReady : ℕ) ≠ ipcShmStateClear by decide) (by decide)
  rw [hnum] at hidle
  exact ⟨d, shm, _, hwait, htr, halways, _, before, round, share, rfl, hidle⟩
