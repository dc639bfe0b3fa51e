import IpcShm.Wakeup

/-!
# Messages are received

That nothing is lost does not say that anything arrives. Two facts about the
system of handlers and tasklet are proved here. As long as a message that was
notified is in its ring, one of them can go on (`driver_not_stuck`). And every
run of the tasklet takes at least one message out of every ring that has one,
whatever happens meanwhile, so that a message waits for as many runs as there are
messages before it (`bounded_wait`).

The second rests on the fair scheduling of `ipc_shm_rx`. The first round of a
call comes to every channel, and the share of a channel is at least one message,
however many channels the budget is divided by.
-/

namespace IrqInstances

variable (K : IrqInstances)

/-- **A message is taken out of a ring**: its read index is stored. -/
def Takes (i c : ℕ) : (o : Op) → ByteMem → o.Ret → Prop
  | .store n a _, _, _ => n = 4 ∧ a = (K.queue i c).pushRing + 12
  | _, _, _ => False

/-- The instances stand, and a ring has a message in it. -/
def Filled (i c : ℕ) (m : ByteMem) : Prop := K.Standing m ∧ 0 < K.waiting i c m

variable {K} {i c c' : ℕ} {m m' : ByteMem} {α : Type}

/-- **A ring with a message in it has one** until it is taken. -/
theorem Filled.answers {o : Op} {r : o.Ret} (h : K.Filled i c m) (hc : K.Managed i c)
    (ha : K.Asks o m) (hr : o.Answers m r m') : K.Takes i c o m r ∨ K.Filled i c m' := by
  have hsame : ∀ {m' : ByteMem}, m' = m → K.Filled i c m' := by
    rintro _ rfl
    exact h
  cases o with
  | store n a v =>
    obtain ⟨rfl, ⟨j, c', hj, rfl, hne, rfl⟩ | ⟨j, c', hj, hu, rfl⟩⟩ := ha
    · by_cases heq : i = j ∧ c = c'
      · obtain ⟨rfl, rfl⟩ := heq
        exact Or.inl ⟨rfl, rfl⟩
      · obtain ⟨hm', -, hrest⟩ := h.1.pop hj hne hr
        refine Or.inr ⟨hm', ?_⟩
        rw [(hrest i c hc heq).2]
        exact h.2
    · obtain ⟨hlater, hwait⟩ := h.1.umem hj hu hr
      refine Or.inr ⟨hlater.standing, ?_⟩
      rw [hwait i c hc]
      exact h.2
  | load n a => exact Or.inr (hsame hr.2)
  | memcpyFrom a n => exact Or.inr (hsame hr.2)
  | poolsOutOfBounds _ => exact Or.inr (hsame hr)
  | rxCb _ _ _ _ _ _ => exact Or.inr (hsame hr)
  | rxCbUnmanaged _ _ _ _ _ => exact Or.inr (hsame hr)
  | ipcHwIrqEnable _ => exact Or.inr (hsame hr)
  | _ => exact False.elim ha

theorem Filled.later (h : K.Filled i c m) (hc : K.Managed i c) (hm : K.Meanwhile m m') :
    K.Filled i c m' :=
  ⟨(hm h.1).standing, Nat.lt_of_lt_of_le h.2 ((hm h.1).waiting_le i c hc)⟩

/-- Reception that has not taken a message of the ring has left it there. -/
theorem wp_filled {p : Drv α} {Q : α → ByteMem → Prop} (hc : K.Managed i c)
    (h : K.Filled i c m) (hp : p.wp (K.drvReading (K.Takes i c)) Q m) :
    p.wp (K.drvReading (K.Takes i c)) (fun a m' => Q a m' ∧ K.Filled i c m') m := by
  refine Program.wp_awaiting_keep (fun o m r m' ha h hr => ?_) h hp
  obtain ⟨m₁, hr, hlater⟩ := hr
  exact (h.answers hc ha hr).imp_right (fun h₁ => h₁.later hc hlater)

/-! ## A call of reception -/

/-- **A channel that has a message and a share** is taken a message from. -/
theorem ipcChannelRx_takes (hc : K.Managed i c) (h : K.Filled i c m) {share : ℕ}
    (hshare : 0 < share) :
    (ipcChannelRx K.d i c share).wp (K.drvReading (K.Takes i c)) (fun _ _ => False) m := by
  obtain ⟨n, rfl⟩ := Nat.exists_eq_succ_of_ne_zero (Nat.pos_iff_ne_zero.mp hshare)
  have hmng := mt hc.has.type_iff.mp (not_not.mpr hc)
  have hne := (h.1.waiting_pos_iff hc).mp h.2
  rw [ipcChannelRx, if_neg hmng, drainChannel, Program.wp_bind, popBd, Program.wp_bind]
  refine ipcQueuePop_rule hc h.1 (fun hempty => absurd hempty.symm hne) (fun _ _ _ => ?_)
  exact Or.inl ⟨rfl, rfl⟩

/-- **The rounds** until a message of the channel is taken: in a round that is
under way the channel has its turn before it. -/
theorem roundRule_takes (hc : K.Managed i c) (budget : ℕ) :
    RoundRule (K.drvReading (K.Takes i c))
      (fun given share c' _ _ m => K.Filled i c m ∧ (0 < given + share → c' ≤ c))
      (ipcChannelRx K.d i) (K.d.priv i).numChannels budget where
  turn := by
    intro given share c' more work m hc' hshare hI
    rw [(K.laid i hc.1).numChannels_eq] at hc'
    rcases Nat.lt_or_eq_of_le (hI.2 (Nat.lt_of_lt_of_le hshare (Nat.le_add_left _ _)))
      with hlt | rfl
    · refine Program.wp_mono monotone_drvReading _ (fun w m' hw => ?_)
        (wp_filled hc hI.1 (ipcChannelRx_wp ⟨hc.1, hc'⟩ hI.1.1 share))
      exact ⟨hw.1.1, hw.2, fun _ => hlt⟩
    · exact Program.wp_mono monotone_drvReading _ (fun _ _ h => False.elim h)
        (ipcChannelRx_takes hc hI.1 hshare)
  next := fun _ _ _ _ _ hI => ⟨hI.1, fun _ => Nat.zero_le c⟩

/-- **A call of reception takes a message** out of a ring that has one. -/
theorem ipcShmRx_takes (hc : K.Managed i c) (h : K.Filled i c m) :
    (ipcShmRx K.d i ipcSoftirqBudget).wp (K.drvReading (K.Takes i c)) (fun _ _ => False) m := by
  have hl := K.laid i hc.1
  have hpos : 0 < (K.d.priv i).numChannels := by
    rw [hl.numChannels_eq]
    exact K.numChannels_pos i hc.1
  have hnum : (K.d.priv i).numChannels < 2 ^ 8 := by
    rw [hl.numChannels_eq]
    exact (K.cfg i).numChannels.toNat_lt
  rw [ipcShmRx, Program.wp_bind]
  refine Program.wp_mono monotone_drvReading _ (fun state m₁ h₁ => ?_)
    (wp_filled hc h (ipcInstanceIsFree_wp hc.1 h.1))
  rw [if_neg (not_not.mpr h₁.1.1)]
  refine Program.wp_mono monotone_drvReading _ (fun w m' hw => ?_)
    (rxRounds_call monotone_drvReading (roundRule_takes hc _) hpos _
      (show ipcSoftirqBudget + _ < _ by unfold ipcSoftirqBudget; omega)
      ⟨h₁.2, fun hlt => absurd hlt (Nat.lt_irrefl 0)⟩)
  -- a round was made, and it did not come to the channel
  obtain ⟨-, given, share, more, hI, -, hgiven⟩ := hw
  have hshare := chanBudget_pos ipcSoftirqBudget 0 (K.d.priv i).numChannels
  have hle := hI.2 (Nat.lt_of_lt_of_le hshare (hgiven (by decide)))
  rw [hl.numChannels_eq] at hle
  exact absurd hc.2.1 (Nat.not_lt.mpr hle)

/-! ## A run of the tasklet -/

variable (K) in
/-- The same among the requests of the tasklet. -/
def IrqTakes (i c : ℕ) : (o : IrqOp) → ByteMem → o.Ret → Prop
  | .drv o, m, r => K.Takes i c o m r
  | _, _, _ => False

/-- One message less is in the ring. -/
theorem Takes.waiting_eq {o : Op} {r : o.Ret} (ht : K.Takes i c o m r) (hm : K.Standing m)
    (hc : K.Managed i c) (ha : K.Asks o m) (hr : o.Answers m r m') :
    K.waiting i c m' + 1 = K.waiting i c m := by
  cases o with
  | store n a v =>
    obtain ⟨rfl, haddr⟩ := ht
    rw [hc.pushRing_eq] at haddr
    obtain ⟨-, ⟨j, c', hj, rfl, hne, rfl⟩ | ⟨j, c', hj, hu, rfl⟩⟩ := ha
    · -- the address tells the channel
      rw [hj.pushRing_eq] at haddr
      by_cases heq : i = j ∧ c = c'
      · obtain ⟨rfl, rfl⟩ := heq
        exact (hm.pop hj hne hr).2.1
      · have := ctrl_apart hc.has hj.has heq
        omega
    · by_cases heq : i = j ∧ c = c'
      · obtain ⟨rfl, rfl⟩ := heq
        exact absurd hc hu
      · have := ctrl_apart hc.has hj heq
        omega
  | _ => exact False.elim ht

theorem IrqTakes.waiting_eq {o : IrqOp} {r : o.Ret} (ht : K.IrqTakes i c o m r)
    (hm : K.Standing m) (hc : K.Managed i c) (ha : K.IrqAsks o m) (hr : o.Answers m r m') :
    K.waiting i c m' + 1 = K.waiting i c m := by
  cases o with
  | drv o => exact Takes.waiting_eq ht hm hc ha hr
  | _ => exact False.elim ht

theorem Filled.irqAnswers {o : IrqOp} {r : o.Ret} (h : K.Filled i c m) (hc : K.Managed i c)
    (ha : K.IrqAsks o m) (hr : o.Answers m r m') :
    K.IrqTakes i c o m r ∨ K.Filled i c m' := by
  cases o with
  | drv o => exact h.answers hc ha hr
  | taskletSchedule _ =>
    obtain rfl : m' = m := hr
    exact Or.inr h
  | ipcHwIrqClear _ => exact False.elim ha

/-! ## The place of a message -/

variable {k : ℕ} {τ τ' : RxState}

variable (K) in
/-- The number of messages before one that is in its ring. -/
def ahead (τ : RxState) (i c k : ℕ) : ℕ := k + K.waiting i c τ.mem - τ.pushed i c

theorem InRing.filled (hring : K.InRing τ i c k) (hm : K.Standing τ.mem) :
    K.Filled i c τ.mem := by
  refine ⟨hm, ?_⟩
  have h₁ := hring.1
  have h₂ := hring.2
  omega

/-- **Nothing gets in before a message.** -/
theorem Around.ahead_eq (hs : K.Around τ τ') (hm : K.Standing τ.mem)
    (hc : K.Managed i c) (hk : k < τ.pushed i c) (hring : K.InRing τ' i c k) :
    K.InRing τ i c k ∧ K.ahead τ' i c k = K.ahead τ i c k := by
  have hle := hring.2
  cases hs with
  | @push j c' mem hj hfull hmem =>
    have hwait := (hm.push hj hfull hmem).2 i c hc
    unfold ahead
    dsimp only at hle ⊢
    rw [hwait] at hle ⊢
    by_cases heq : i = j ∧ c = c'
    · obtain ⟨rfl, rfl⟩ := heq
      rw [if_pos ⟨rfl, rfl⟩, if_pos ⟨rfl, rfl⟩] at *
      exact ⟨⟨hk, by omega⟩, by omega⟩
    · rw [if_neg heq, if_neg heq] at *
      exact ⟨⟨hk, hle⟩, rfl⟩
  | write hmem =>
    have hwait := (hm.still hmem (fun _ _ _ => rfl)).2 i c hc
    unfold ahead
    dsimp only at hle ⊢
    rw [hwait] at hle ⊢
    exact ⟨⟨hk, hle⟩, rfl⟩
  | notify _ _ => exact ⟨hring, rfl⟩
  | raise _ => exact ⟨hring, rfl⟩
  | tx => exact ⟨hring, rfl⟩

theorem Around.pushed_le (hs : K.Around τ τ') : τ.pushed i c ≤ τ'.pushed i c := by
  cases hs with
  | @push j c' mem hj hfull hmem =>
    dsimp only
    split
    · rename_i heq
      obtain ⟨rfl, rfl⟩ := heq
      exact Nat.le_succ _
    · exact Nat.le_refl _
  | _ => exact Nat.le_refl _

end IrqInstances

namespace TaskletInstances

open IrqInstances

variable {K : TaskletInstances} {i c k : ℕ} {m : ByteMem} {σ σ' σ'' : WakeSys}

/-- **The tasklet comes to every instance**, and takes a message of the channel in
the turn of its own. -/
theorem softirqFrom_takes (hc : K.Managed i c) (n j : ℕ) (hn : j + n = ipcShmMaxInstances)
    (hji : j ≤ i) (h : K.Filled i c m) :
    (softirqFrom K.os K.d n j).wp (K.reading (K.IrqTakes i c)) (fun _ _ => False) m := by
  induction n generalizing j m with
  | zero => exact absurd (K.serves_lt i hc.1) (by omega)
  | succ n ih =>
    have hserves := (K.serves_iff i).mp hc.1
    rw [softirqFrom]
    split
    · rename_i hskip
      rcases Nat.lt_or_eq_of_le hji with hlt | rfl
      · exact ih (j + 1) (by omega) hlt h
      · exact absurd hskip hserves.2
    · rename_i hskip
      have hj : K.Serves j := (K.serves_iff j).mpr ⟨by omega, hskip⟩
      rw [Program.wp_bind]
      rcases Nat.lt_or_eq_of_le hji with hlt | rfl
      · have hturn : (softirqTurn K.d j).wp (K.reading (K.IrqTakes i c)) _ m :=
          softirqTurn_wp hj h.1
        refine Program.wp_mono monotone_reading _ (fun _ m₁ h₁ => ih (j + 1) (by omega) hlt h₁.2)
          (Program.wp_awaiting_keep (I := K.Filled i c) (fun o m r m' ha h hr => ?_) h hturn)
        obtain ⟨m₁, hr, hlater⟩ := hr
        exact (h.irqAnswers hc ha hr).imp_right (fun h₁ => h₁.later hc hlater)
      · rw [softirqTurn, Program.wp_bind, wp_ofDrv]
        exact Program.wp_mono monotone_drvReading _ (fun _ _ hno => False.elim hno)
          (ipcShmRx_takes hc h)

variable (K) in
/-- **A run of the tasklet owes a message**: whatever happens meanwhile, it has yet
to take one out of the ring. -/
def Owes (i c : ℕ) (p : Irq Unit) (m : ByteMem) : Prop :=
  Program.Among K.Meanwhile K.IrqAsks IrqOp.Answers (K.IrqTakes i c) p (fun _ _ => False) m

theorem owes_start (hc : K.Managed i c) (h : K.Filled i c m) :
    K.Owes i c (ipcShmSoftirq K.os K.d) m := fun _ hlater =>
  softirqFrom_takes hc ipcShmMaxInstances 0 (Nat.zero_add _) (Nat.zero_le i) (h.later hc hlater)

/-! ## The wait of a message -/

theorem Step.pushed_le (hs : K.Step σ σ') : σ.pushed i c ≤ σ'.pushed i c := by
  cases hs with
  | around hs => exact hs.pushed_le
  | _ => exact Nat.le_refl _

/-- **A message that is in its ring after a step was there before**, with no fewer
messages before it. -/
theorem Step.ahead_le (hs : K.Step σ σ') (hinv : K.Inv σ) (hc : K.Managed i c)
    (hk : k < σ.pushed i c) (hring : K.InRing σ'.toRxState i c k) :
    K.InRing σ.toRxState i c k ∧ K.ahead σ'.toRxState i c k ≤ K.ahead σ.toRxState i c k := by
  cases hs with
  | around hs =>
    obtain ⟨hring', heq⟩ := hs.ahead_eq hinv.standing hc hk hring
    exact ⟨hring', Nat.le_of_eq heq⟩
  | @hardirq before after o k' r mem hp hr =>
    have hmem : .op o k' ∈ σ.hardirqs := by rw [hp]; simp
    obtain rfl := hinv.handler_mem hmem hr
    exact ⟨hring, Nat.le_refl _⟩
  | softirq hp hr =>
    have hask := (hinv.runs _ hp).request meanwhile_refl
    have hle := (hinv.standing.irqAnswers hask hr).2 i c hc
    exact ⟨hring.of_waiting_le hle, Nat.sub_le_sub_right (Nat.add_le_add_left hle k) _⟩
  | _ => exact ⟨hring, Nat.le_refl _⟩

/-! ### Counting the runs -/

/-- The tasklet returned in a step. -/
def returned (σ σ' : WakeSys) : ℕ := (σ.softirq.isSome && σ'.softirq.isNone).toNat

variable (K) in
/-- **The tasklet returns a number of times** on the way from a state to
another. -/
inductive Runs (σ : WakeSys) : ℕ → WakeSys → Prop where
  | refl : Runs σ 0 σ
  | tail {n : ℕ} {σ' σ'' : WakeSys} (hr : Runs σ n σ') (hs : K.Step σ' σ'') :
      Runs σ (n + returned σ' σ'') σ''

variable (K) in
/-- **A message gets nearer**: the messages before it and the runs that ended are
at most `b`. A run that is in progress owes a message, or brought the two below
`b` already. -/
inductive Nears (i c k b n : ℕ) (σ : WakeSys) : Prop where
  | idle (ht : σ.softirq = none) (h : K.ahead σ.toRxState i c k + n ≤ b)
  | owed {p : Irq Unit} (ht : σ.softirq = some p) (hp : K.Owes i c p σ.mem)
      (h : K.ahead σ.toRxState i c k + n ≤ b)
  | served (h : K.ahead σ.toRxState i c k + n < b)

variable {b n : ℕ}

theorem Nears.le (h : K.Nears i c k b n σ) : K.ahead σ.toRxState i c k + n ≤ b := by
  cases h with
  | idle _ h => exact h
  | owed _ _ h => exact h
  | served h => exact Nat.le_of_lt h

/-- The others go on. -/
theorem Nears.persist (h : K.Nears i c k b n σ) (hsoft : σ'.softirq = σ.softirq)
    (hmem : K.Meanwhile σ.mem σ'.mem)
    (hle : K.ahead σ'.toRxState i c k ≤ K.ahead σ.toRxState i c k) :
    K.Nears i c k b (n + returned σ σ') σ' := by
  have hzero : returned σ σ' = 0 := by
    rw [returned, hsoft]
    cases σ.softirq <;> rfl
  rw [hzero, Nat.add_zero]
  cases h with
  | idle ht h => exact .idle (hsoft.trans ht) (by omega)
  | owed ht hp h => exact .owed (hsoft.trans ht) (hp.stable meanwhile_trans hmem) (by omega)
  | served h => exact .served (by omega)

/-- **One step.** -/
theorem Nears.step (h : K.Nears i c k b n σ) (hinv : K.Inv σ) (hc : K.Managed i c)
    (hk : k < σ.pushed i c) (hs : K.Step σ σ') (hring : K.InRing σ'.toRxState i c k) :
    K.Nears i c k b (n + returned σ σ') σ' := by
  obtain ⟨hring₀, hle⟩ := hs.ahead_le hinv hc hk hring
  cases hs with
  | around hs => exact h.persist rfl hs.later hle
  | interrupt hi hp hr => exact h.persist rfl (meanwhile_refl _) hle
  | @hardirq before after o k' r mem hp hr =>
    have hmem : .op o k' ∈ σ.hardirqs := by rw [hp]; simp
    obtain rfl := hinv.handler_mem hmem hr
    exact h.persist rfl (meanwhile_refl _) hle
  | hardirqReturn hp => exact h.persist rfl (meanwhile_refl _) hle
  | softirqStart hs ht =>
    have hzero : returned σ { σ with scheduled := false, softirq := some (ipcShmSoftirq K.os K.d) }
        = 0 := by rw [returned, ht]; rfl
    rw [hzero]
    exact .owed rfl (owes_start hc (hring₀.filled hinv.standing)) h.le
  | @softirq o k' r mem hp hr =>
    have hzero : returned σ { K.perform σ o mem with softirq := some (k' r) } = 0 := by
      rw [returned, hp]; rfl
    rw [hzero, Nat.add_zero]
    cases h with
    | idle ht _ => exact absurd (hp.symm.trans ht) (Option.some_ne_none _)
    | owed ht hp' h =>
      obtain rfl := Option.some.inj (ht.symm.trans hp)
      rcases hp'.reply meanwhile_refl hr with htake | hrest
      · -- the run takes the message it owed
        have hask := hp'.request meanwhile_refl
        have heq := htake.waiting_eq hinv.standing hc hask hr
        have h₁ := hring.2
        refine .served ?_
        unfold ahead at h ⊢
        dsimp only [perform] at h₁ ⊢
        omega
      · exact .owed rfl hrest (Nat.le_trans (Nat.add_le_add_right hle n) h)
    | served h => exact .served (Nat.lt_of_le_of_lt (Nat.add_le_add_right hle n) h)
  | softirqReturn hp =>
    have hone : returned σ { σ with softirq := none } = 1 := by rw [returned, hp]; rfl
    rw [hone]
    cases h with
    | idle ht _ => exact absurd (hp.symm.trans ht) (Option.some_ne_none _)
    | owed ht hp' _ =>
      obtain rfl := Option.some.inj (ht.symm.trans hp)
      exact False.elim (hp'.result meanwhile_refl)
    | served h => exact .idle rfl h

/-- **Any number of steps.** -/
theorem Runs.nears (hruns : K.Runs σ n σ') (hinv : K.Inv σ) (hc : K.Managed i c)
    (hring : K.InRing σ.toRxState i c k) :
    K.Inv σ' ∧ k < σ'.pushed i c ∧ (K.InRing σ'.toRxState i c k →
      K.Nears i c k (K.ahead σ.toRxState i c k + σ.softirq.isSome.toNat) n σ') := by
  induction hruns with
  | refl =>
    refine ⟨hinv, hring.1, fun _ => ?_⟩
    cases ht : σ.softirq with
    | none => exact .idle ht (Nat.le_refl _)
    | some p => exact .served (Nat.lt_succ_self _)
  | tail _ hs ih =>
    obtain ⟨hinv', hk, hnears⟩ := ih
    refine ⟨hinv'.step hs, Nat.lt_of_lt_of_le hk hs.pushed_le, fun hring' => ?_⟩
    exact (hnears (hs.ahead_le hinv' hc hk hring').1).step hinv' hc hk hs hring'

/-- **A message waits for as many runs of the tasklet as there are messages before
it**, and for the one it is received in. In every order of steps from a reachable
state in which it is in its ring, it has left the ring when the tasklet has
returned more often than there are messages before it, not counting a run that
was in progress. -/
theorem bounded_wait {σ₀ : WakeSys} (h₀ : K.Start σ₀) (hr : Relation.ReflTransGen K.Step σ₀ σ)
    (hc : K.Managed i c) (hring : K.InRing σ.toRxState i c k) (hruns : K.Runs σ n σ')
    (hn : K.ahead σ.toRxState i c k + σ.softirq.isSome.toNat < n) :
    ¬K.InRing σ'.toRxState i c k := by
  intro hring'
  have hle := ((hruns.nears (sure_pending h₀ hr hc).1 hc hring).2.2 hring').le
  omega

/-! ## Going on -/

variable (K) in
/-- **A handler or the tasklet goes on.** -/
def GoesOn (σ : WakeSys) : Prop :=
  ∃ σ', K.Step σ σ' ∧ (σ'.hardirqs ≠ σ.hardirqs ∨ σ'.softirq ≠ σ.softirq)

/-- What the tasklet asks for is answered. -/
theorem exists_answers {o : IrqOp} (ha : K.IrqAsks o m) : ∃ r m', o.Answers m r m' := by
  cases o with
  | drv o =>
    cases o with
    | load n a => exact ⟨_, _, rfl, rfl⟩
    | memcpyFrom a n => exact ⟨_, _, rfl, rfl⟩
    | store n a v => exact ⟨(), _, rfl⟩
    | poolsOutOfBounds _ => exact ⟨({} : IpcShmPool), _, rfl⟩
    | rxCb _ _ _ _ _ _ => exact ⟨(), _, rfl⟩
    | rxCbUnmanaged _ _ _ _ _ => exact ⟨(), _, rfl⟩
    | ipcHwIrqEnable _ => exact ⟨(), _, rfl⟩
    | _ => exact False.elim ha
  | taskletSchedule _ => exact ⟨(), _, rfl⟩
  | ipcHwIrqClear _ => exact False.elim ha

/-- And what a handler asks for. -/
theorem HandlerAsks.exists_answers {o : IrqOp} {done : Bool} (ha : HandlerAsks o done) :
    ∃ r m', o.Answers m r m' := by
  cases o with
  | drv o =>
    cases o with
    | ipcHwIrqDisable _ => exact ⟨(), _, rfl⟩
    | _ => exact False.elim ha
  | taskletSchedule _ => exact ⟨(), _, rfl⟩
  | ipcHwIrqClear _ => exact ⟨(), _, rfl⟩

/-- A run of the tasklet is not held up. -/
theorem Inv.goesOn_softirq (hinv : K.Inv σ) {p : Irq Unit} (hp : σ.softirq = some p) :
    K.GoesOn σ := by
  cases p with
  | pure _ => exact ⟨_, .softirqReturn hp, Or.inr (by rw [hp]; exact (Option.some_ne_none _).symm)⟩
  | op o k =>
    obtain ⟨r, m', hr⟩ := exists_answers ((hinv.runs _ hp).request meanwhile_refl)
    refine ⟨_, .softirq hp hr, Or.inr ?_⟩
    rw [hp]
    exact fun heq => Program.cont_ne _ rfl r (Option.some.inj heq)

/-- Nor is a handler. -/
theorem Inv.goesOn_hardirq (hinv : K.Inv σ) {p : Irq Unit} (hp : p ∈ σ.hardirqs) :
    K.GoesOn σ := by
  obtain ⟨done, hdone⟩ := hinv.handlers p hp
  obtain ⟨before, after, heq⟩ := List.append_of_mem hp
  cases p with
  | pure _ =>
    refine ⟨_, .hardirqReturn heq, Or.inl (fun h => ?_)⟩
    have hlen := congrArg List.length (h.trans heq)
    rw [List.length_append, List.length_append, List.length_cons] at hlen
    omega
  | op o k =>
    obtain ⟨r, m', hr⟩ := HandlerAsks.exists_answers (m := σ.mem) hdone.request
    refine ⟨_, .hardirq heq hr, Or.inl (fun h => ?_)⟩
    have hcons := List.append_cancel_left (h.trans heq)
    exact Program.cont_ne _ rfl r (List.cons.inj hcons).1

/-- What is sure is the case, or somebody goes on to make it so. -/
theorem Sure.goesOn {now : KernelHw → Prop} {stop : (o : IrqOp) → ByteMem → o.Ret → Prop}
    (h : K.Sure now stop σ) (hinv : K.Inv σ) : now (K.hwOf σ.mscm) ∨ K.GoesOn σ := by
  cases h with
  | now h => exact Or.inl h
  | scheduled h =>
    refine Or.inr ?_
    cases ht : σ.softirq with
    | none => exact ⟨_, .softirqStart h ht, Or.inr (by rw [ht]; exact Option.some_ne_none _)⟩
    | some p => exact hinv.goesOn_softirq ht
  | handler hp _ => exact Or.inr (hinv.goesOn_hardirq hp)
  | running hp _ => exact Or.inr (hinv.goesOn_softirq hp)

/-- **The driver is not stuck with a message.** In every reachable state in which a
message that was notified is in its ring, an interrupt is taken, or a handler or
the tasklet goes on, without anything from the remote. -/
theorem driver_not_stuck {σ₀ : WakeSys} (h₀ : K.Start σ₀)
    (hr : Relation.ReflTransGen K.Step σ₀ σ) (hc : K.Managed i c) (htold : (i, c, k) ∈ σ.told)
    (hring : K.InRing σ.toRxState i c k) :
    ∃ σ', K.Step σ σ' ∧ (σ'.hardirqs ≠ σ.hardirqs ∨ σ'.softirq ≠ σ.softirq) := by
  obtain ⟨hinv, hpending⟩ := sure_pending h₀ hr hc
  rcases (hpending k htold hring).goesOn hinv with hpending | hgo
  · rcases (sure_routed h₀ hr hc.1).2.goesOn hinv with hrouted | hgo
    · exact ⟨_, .interrupt hc.1 hpending hrouted, Or.inl (List.cons_ne_self _ _)⟩
    · exact hgo
  · exact hgo

/-! ## A run to its end -/

theorem Runs.trans {n' : ℕ} (h : K.Runs σ n σ') (h' : K.Runs σ' n' σ'') :
    K.Runs σ (n + n') σ'' := by
  induction h' with
  | refl => exact h
  | tail _ hs ih => exact Nat.add_assoc _ _ _ ▸ ih.tail hs

/-- A run of the tasklet comes to its end, if it is let. -/
theorem exists_return (p : Irq Unit) (hinv : K.Inv σ) (hp : σ.softirq = some p) :
    ∃ σ', K.Runs σ 1 σ' := by
  induction p generalizing σ with
  | pure _ =>
    have hone : returned σ { σ with softirq := none } = 1 := by rw [returned, hp]; rfl
    exact ⟨_, hone ▸ Runs.refl.tail (.softirqReturn hp)⟩
  | op o k ih =>
    obtain ⟨r, m', hr⟩ := exists_answers ((hinv.runs _ hp).request meanwhile_refl)
    have hs : K.Step σ _ := .softirq hp hr
    have hzero : returned σ { K.perform σ o m' with softirq := some (k r) } = 0 := by
      rw [returned, hp]; rfl
    obtain ⟨σ', hruns⟩ := ih r (hinv.step hs) rfl
    exact ⟨σ', (hzero ▸ Runs.refl.tail hs).trans hruns⟩

end TaskletInstances

/-- The tasklet is scheduled. -/
def fourDue : WakeSys := { fourIdle with scheduled := true }

namespace TaskletInstances

theorem driver_not_stuck_four : ∃ (K : TaskletInstances) (σ : WakeSys),
    K.Start fourIdle ∧ Relation.ReflTransGen K.Step fourIdle σ ∧ (0, 0, 0) ∈ σ.told ∧
    K.InRing σ.toRxState 0 0 0 ∧
    ∃ σ', K.Step σ σ' ∧ (σ'.hardirqs ≠ σ.hardirqs ∨ σ'.softirq ≠ σ.softirq) := by
  obtain ⟨K, -, hK⟩ := exists_fourTasklet
  obtain ⟨σ, hr, htold, hring, -⟩ := exists_taken hK
  have h₀ := fourIdle_start hK
  exact ⟨K, σ, h₀, hr, htold, hring, driver_not_stuck h₀ hr hK.managed_zero htold hring⟩

/-- The message is received in the first run. -/
theorem bounded_wait_four : ∃ (K : TaskletInstances) (σ σ' : WakeSys),
    K.Start fourDue ∧ Relation.ReflTransGen K.Step fourDue σ ∧ K.InRing σ.toRxState 0 0 0 ∧
    K.Runs σ 1 σ' ∧ ¬K.InRing σ'.toRxState 0 0 0 := by
  obtain ⟨K, -, hK⟩ := exists_fourTasklet
  obtain ⟨τ, hr, -, hring, hone⟩ := hK.exists_notified
  have h₀ : K.Start fourDue := ⟨hK.standing, (fourIdle_start hK).routed, rfl, rfl, rfl⟩
  have hr : Relation.ReflTransGen K.Step fourDue { fourDue with toRxState := τ } :=
    hr.lift (fun τ => { fourDue with toRxState := τ }) (fun _ _ hs => .around hs)
  have hs : K.Step { fourDue with toRxState := τ } _ := .softirqStart rfl rfl
  have hinv := (sure_pending h₀ (hr.tail hs) hK.managed_zero).1
  obtain ⟨σ', hruns⟩ := exists_return _ hinv rfl
  have hruns : K.Runs { fourDue with toRxState := τ } 1 σ' := (Runs.refl.tail hs).trans hruns
  refine ⟨K, _, σ', h₀, hr, hring, hruns, bounded_wait h₀ hr hK.managed_zero hring hruns ?_⟩
  have hpos := hring.1
  show 0 + K.waiting 0 0 τ.mem - τ.pushed 0 0 + 0 < 1
  omega

end TaskletInstances
