import IpcShm.Transfer

/-!
# The receive loops

Invariant rules for the loops around the reception of messages, for any
reading of the requests the body makes. The fair scheduling of
`ipc_shm_rx` terminates: a round is followed by another one only if some
channel used up its share, which is at least one message, so the work done
grows towards the budget. With a budget that is an `int` the counter cannot
wrap on the way – a round overshoots by less than one message for each
channel.

What is proved *about* a call is left open. A `RoundRule` is an invariant
that may speak of where the scheduling stands – what earlier rounds gave
each channel, the share of this one, which channels had their turn, whether
one of them used its share up, the work done so far – and `rxRounds_rule`
takes it from the start of a call to its end. Fairness, exhaustiveness and
the account of the work are such invariants; one that looks at none of this
is kept by `rxRounds_wp`.
-/

section Loops

variable {O : Type} {R : O → Type} {β σ : Type} {H : (o : O) → (R o → σ → Prop) → σ → Prop}
  {I : σ → Prop}

/-- **Draining a channel.** `I k` holds when `k` messages have been taken and
handled, and `Q k` when the next one could not be taken. The loop ends with
its budget used up, or in front of nothing. -/
theorem drainChannel_rule (hH : Program.MonotoneReading H) {I Q : ℕ → σ → Prop}
    {pop : Program O R (Option β)} {handle : β → Program O R Unit}
    (hbody : ∀ k s, I k s → pop.wp H (fun msg s' =>
      (msg = none → Q k s') ∧
        ∀ m, msg = some m → (handle m).wp H (fun _ s'' => I (k + 1) s'') s') s)
    (n work : ℕ) {s : σ} (hI : I work s) :
    (drainChannel pop handle n work).wp H
      (fun w s' => work ≤ w ∧ w ≤ work + n ∧ (w = work + n → I w s') ∧
        (w < work + n → Q w s')) s := by
  induction n generalizing work s with
  | zero => exact ⟨Nat.le_refl _, Nat.le_refl _, fun _ => hI, fun h => absurd h (Nat.lt_irrefl _)⟩
  | succ n ih =>
    rw [drainChannel, Program.wp_bind]
    refine Program.wp_mono hH pop (fun msg s' hmsg => ?_) (hbody work s hI)
    cases msg with
    | none =>
      refine ⟨Nat.le_refl _, Nat.le_add_right _ _, fun h => ?_, fun _ => hmsg.1 rfl⟩
      exact absurd h (by omega)
    | some m =>
      dsimp only
      rw [Program.wp_bind]
      refine Program.wp_mono hH _ (fun _ s'' hI' => ?_) (hmsg.2 m rfl)
      refine Program.wp_mono hH _ (fun w s₃ hw => ?_) (ih (work + 1) hI')
      obtain ⟨h₁, h₂, hfull, hdry⟩ := hw
      exact ⟨by omega, by omega, fun h => hfull (by omega), fun h => hdry (by omega)⟩

/-- Draining a channel keeps what taking and handling one message keeps, and
counts at most the budget. -/
theorem drainChannel_wp (hH : Program.MonotoneReading H) {pop : Program O R (Option β)}
    {handle : β → Program O R Unit}
    (hbody : ∀ s, I s → pop.wp H (fun msg s' =>
      (msg = none → I s') ∧ ∀ m, msg = some m → (handle m).wp H (fun _ s'' => I s'') s') s)
    (n work : ℕ) {s : σ} (hI : I s) :
    (drainChannel pop handle n work).wp H
      (fun w s' => work ≤ w ∧ w ≤ work + n ∧ I s') s := by
  refine Program.wp_mono hH _ (fun w s' hw => ?_)
    (drainChannel_rule hH (fun _ => hbody) n work (show (fun _ : ℕ => I) work s from hI))
  obtain ⟨h₁, h₂, hfull, hdry⟩ := hw
  rcases Nat.lt_or_eq_of_le h₂ with h | h
  · exact ⟨h₁, h₂, hdry h⟩
  · exact ⟨h₁, h₂, hfull h⟩

/-- Draining a channel requests what taking and handling a message does. -/
theorem drainChannel_always {E : (o : O) → R o → Prop} {G : O → Prop} {Q : β → Prop}
    {pop : Program O R (Option β)} {handle : β → Program O R Unit}
    (hpop : pop.Always E G (fun msg => ∀ m, msg = some m → Q m))
    (hhandle : ∀ m, Q m → (handle m).Always E G (fun _ => True)) (n work : ℕ) :
    (drainChannel pop handle n work).Always E G (fun w => w ≤ work + n) := by
  induction n generalizing work with
  | zero => exact Nat.le_refl work
  | succ n ih =>
    rw [drainChannel]
    refine hpop.bind (fun msg hmsg => ?_)
    cases msg with
    | none => exact Nat.le_add_right work (n + 1)
    | some m =>
      refine (hhandle m (hmsg m rfl)).bind (fun _ _ => (ih (work + 1)).mono (fun _ h => h) ?_)
      intro w hw
      omega

variable {chanRx : ℕ → ℕ → Program O R ℕ} {numChans : ℕ}

/-- **What a round keeps.** `I given share c more work s` is said in a round
with the share `share`, when earlier rounds gave out `given` to each channel,
the channels before `c` had their turn, `more` tells whether one of them used
up its share, and `work` is what was done since the start of the call. -/
structure RoundRule (H : (o : O) → (R o → σ → Prop) → σ → Prop)
    (I : ℕ → ℕ → ℕ → Bool → ℕ → σ → Prop) (chanRx : ℕ → ℕ → Program O R ℕ)
    (numChans budget : ℕ) : Prop where
  /-- A channel has its turn, and stays in its share. -/
  turn : ∀ given share c more work s, c < numChans → 0 < share → I given share c more work s →
    (chanRx c share).wp H (fun w s' =>
      w ≤ share ∧ I given share (c + 1) (more || decide (w = share)) (work + w) s') s
  /-- A round that leaves more work is followed by another one. -/
  next : ∀ given share work s, work < budget → I given share numChans true work s →
    I (given + share) (chanBudget budget work numChans) 0 false work s

/-- **A round** adds what the channels did, and there is more work only if
one of them used up its share. -/
theorem rxRound_wp (hH : Program.MonotoneReading H) {I : ℕ → ℕ → ℕ → Bool → ℕ → σ → Prop}
    {budget : ℕ} (hrule : RoundRule H I chanRx numChans budget) {given share n c work : ℕ}
    {more : Bool} (hshare : 0 < share) (hn : c + n = numChans)
    (hwork : work + n * share < 2 ^ 32) {s : σ} (hI : I given share c more work s) :
    (rxRound chanRx share n c work more).wp H
      (fun r s' => work ≤ r.1 ∧ r.1 ≤ work + n * share ∧
        (r.2 = true → more = true ∨ work + share ≤ r.1) ∧
        I given share numChans r.2 r.1 s') s := by
  induction n generalizing c work more s with
  | zero =>
    obtain rfl : c = numChans := by omega
    exact ⟨Nat.le_refl _, by omega, Or.inl, hI⟩
  | succ n ih =>
    rw [Nat.succ_mul] at hwork ⊢
    rw [rxRound, Program.wp_bind]
    refine Program.wp_mono hH _ (fun w s' hw => ?_)
      (hrule.turn given share c more work s (by omega) hshare hI)
    obtain ⟨hle, hI'⟩ := hw
    rw [u32_of_lt (by omega)]
    refine Program.wp_mono hH _ (fun r s'' hr => ?_)
      (ih (show c + 1 + n = numChans by omega) (by omega) hI')
    obtain ⟨h₁, h₂, h₃, hI''⟩ := hr
    refine ⟨by omega, by omega, fun hmore => ?_, hI''⟩
    rcases h₃ hmore with h | h
    · rw [Bool.or_eq_true, decide_eq_true_eq] at h
      rcases h with h | h
      · exact Or.inl h
      · exact Or.inr (by omega)
    · exact Or.inr (by omega)

theorem chanBudget_pos (budget work numChans : ℕ) : 0 < chanBudget budget work numChans := by
  unfold chanBudget
  split
  · exact Nat.one_pos
  · exact Nat.pos_of_ne_zero ‹_›

/-- The first share is an equal share of the budget, and at least one. -/
theorem max_le_chanBudget (budget numChans : ℕ) :
    max 1 (budget / numChans) ≤ chanBudget budget 0 numChans := by
  refine Nat.max_le.mpr ⟨chanBudget_pos budget 0 numChans, ?_⟩
  unfold chanBudget
  rw [Nat.sub_zero]
  split
  · omega
  · exact Nat.le_refl _

/-- The shares of a round overshoot the budget by less than one message for
each channel. -/
theorem add_mul_chanBudget_le {budget work numChans : ℕ} (hwork : work < budget)
    (hpos : 0 < numChans) :
    work + numChans * chanBudget budget work numChans ≤ budget + numChans - 1 := by
  unfold chanBudget
  split
  · rw [Nat.mul_one]
    omega
  · have := Nat.mul_div_le (budget - work) numChans
    omega

/-- The rounds of a call from the end of any round on. Returning below the
budget means that no channel used up its share in the last round. -/
theorem rxRounds_rule (hH : Program.MonotoneReading H) {I : ℕ → ℕ → ℕ → Bool → ℕ → σ → Prop}
    {budget : ℕ} (hrule : RoundRule H I chanRx numChans budget) (hpos : 0 < numChans)
    (stuck : Program O R ℕ) (hbudget : budget + numChans < 2 ^ 32) {fuel work : ℕ}
    (given share : ℕ) {more : Bool} (hfuel : 0 < fuel) (hmore : more = true → budget - work < fuel)
    (hwork : work ≤ budget + numChans - 1) {s : σ} (hI : I given share numChans more work s) :
    (rxRounds stuck chanRx numChans budget fuel work more).wp H
      (fun w s' => w ≤ budget + numChans - 1 ∧
        ∃ given' share' more', I given' share' numChans more' w s' ∧
          (w < budget → more' = false) ∧ given + share ≤ given' + share' ∧
          (work < budget → more = true →
            given + share + chanBudget budget work numChans ≤ given' + share')) s := by
  induction fuel generalizing given share work more s with
  | zero => exact absurd hfuel (Nat.lt_irrefl 0)
  | succ fuel ih =>
    rw [rxRounds]
    split
    · rename_i hgo
      obtain ⟨hlt, rfl⟩ := hgo
      have hf := hmore rfl
      have hround := add_mul_chanBudget_le hlt hpos
      have hshare := chanBudget_pos budget work numChans
      rw [if_neg (by omega), Program.wp_bind]
      refine Program.wp_mono hH _ (fun r s' hr => ?_)
        (rxRound_wp hH hrule hshare (Nat.zero_add _) (by omega)
          (hrule.next given share work s hlt hI))
      obtain ⟨h₁, h₂, h₃, hI'⟩ := hr
      -- the share of the round just made is part of what later rounds start from
      refine Program.wp_mono hH _ (fun w s'' hw => ?_)
        (ih _ _ (by omega) (fun hr2 => ?_) (by omega) hI')
      · obtain ⟨hle, given', share', more', hend, hdone, hgiven, -⟩ := hw
        exact ⟨hle, given', share', more', hend, hdone, by omega, fun _ _ => hgiven⟩
      · rcases h₃ hr2 with h | h
        · exact absurd h (by decide)
        · omega
    · rename_i hstop
      refine ⟨hwork, given, share, more, hI, fun hlt => ?_, Nat.le_refl _, fun hlt hm => ?_⟩
      · exact Bool.eq_false_iff.mpr (fun hm => hstop ⟨hlt, hm⟩)
      · exact absurd ⟨hlt, hm⟩ hstop

/-- **The fair channel handling** terminates. It overshoots its budget by
less than one message for each channel, and gives each channel at least its
share of the first round. -/
theorem rxRounds_call (hH : Program.MonotoneReading H) {I : ℕ → ℕ → ℕ → Bool → ℕ → σ → Prop}
    {budget : ℕ} (hrule : RoundRule H I chanRx numChans budget) (hpos : 0 < numChans)
    (stuck : Program O R ℕ) (hbudget : budget + numChans < 2 ^ 32) {s : σ}
    (hI : I 0 0 numChans true 0 s) :
    (rxRounds stuck chanRx numChans budget (budget + 1) 0 true).wp H
      (fun w s' => w ≤ budget + numChans - 1 ∧
        ∃ given share more, I given share numChans more w s' ∧ (w < budget → more = false) ∧
          (0 < budget → chanBudget budget 0 numChans ≤ given + share)) s := by
  refine Program.wp_mono hH _ (fun w s' hw => ?_)
    (rxRounds_rule hH hrule hpos stuck hbudget 0 0 (Nat.succ_pos _) (fun _ => Nat.lt_succ_self _)
      (Nat.zero_le _) hI)
  obtain ⟨hle, given, share, more, hend, hdone, -, hfirst⟩ := hw
  refine ⟨hle, given, share, more, hend, hdone, fun hb => ?_⟩
  have := hfirst hb rfl
  omega

/-- A channel's receive function keeps `I` and stays in its budget. -/
def KeepsRx (H : (o : O) → (R o → σ → Prop) → σ → Prop) (I : σ → Prop)
    (chanRx : ℕ → ℕ → Program O R ℕ) (numChans : ℕ) : Prop :=
  ∀ c, c < numChans → ∀ budget s, I s →
    (chanRx c budget).wp H (fun w s' => w ≤ budget ∧ I s') s

/-- The fair channel handling keeps what every channel keeps. -/
theorem rxRounds_wp (hH : Program.MonotoneReading H) (hrx : KeepsRx H I chanRx numChans)
    (hpos : 0 < numChans) (stuck : Program O R ℕ) {budget : ℕ}
    (hbudget : budget + numChans < 2 ^ 32) {s : σ} (hI : I s) :
    (rxRounds stuck chanRx numChans budget (budget + 1) 0 true).wp H (fun _ s' => I s') s := by
  have hrule : RoundRule H (fun _ _ _ _ _ s => I s) chanRx numChans budget :=
    ⟨fun _ share c _ _ s hc _ hs => hrx c hc share s hs, fun _ _ _ _ _ hs => hs⟩
  refine Program.wp_mono hH _ (fun w s' hw => ?_) (rxRounds_call hH hrule hpos stuck hbudget hI)
  obtain ⟨-, _, _, _, hs', -⟩ := hw
  exact hs'

end Loops
