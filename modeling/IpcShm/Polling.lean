import Mathlib.Algebra.BigOperators.Group.Finset.Piecewise
import IpcShm.Fairness
import IpcShm.Reception

/-!
# What a poll returns

`ipc_shm_poll_channels` calls `ipc_shm_rx` with the budget of the softirq and
returns what that returns – as an `int8_t`. The budget is 128, one more than
the largest `int8_t`, and a reception can do more work than its budget.

So the question is how much work there is. A reception that stays below its
budget has processed everything: each message of a managed channel counts
one, and each notified unmanaged channel counts the share of its first turn,
an equal share of the budget. A reception that does not stay below it had at
least that much to process. The poll returns the work exactly if the sum is
at most 127 (`ipcShmPollChannels_work`).

The account is kept by a rule of its own (`rxRounds_account`): a turn takes
from what waits on a channel as much as its share allows. An unmanaged
channel is all or nothing, and is charged the share of the round in which it
has its turn; that this is the first round is part of the invariant.
-/

/-! ## The account of a reception -/

section Account

variable {O : Type} {R : O → Type} {σ : Type} {H : (o : O) → (R o → σ → Prop) → σ → Prop}
  {chanRx : ℕ → ℕ → Program O R ℕ} {numChans budget : ℕ}

/-- **The account**: `work` has been done, and what waits on the channels makes
up the rest of `total`. Before the first round, a channel of the `once` kind
waits with nothing or with the first share; from then on only those do that
have not had their turn. Without `more` work, the channels that had their turn
are empty. -/
def Accounted (Holds : (ℕ → ℕ) → σ → Prop) (once : ℕ → Prop) (numChans budget total : ℕ)
    (given share c : ℕ) (more : Bool) (work : ℕ) (s : σ) : Prop :=
  ∃ f, Holds f s ∧ work + ∑ c ∈ Finset.range numChans, f c = total ∧
    ((given + share = 0 ∧ work = 0 ∧ ∀ c', c' < numChans → once c' →
        f c' = 0 ∨ f c' = chanBudget budget 0 numChans) ∨
      ((∀ c', c' < numChans → once c' → f c' = 0 ∨ c ≤ c' ∧ f c' = share) ∧
        (more = false → ∀ c', c' < c → f c' = 0)))

/-- Taking from one summand. -/
theorem sum_update_sub {n c w : ℕ} {f : ℕ → ℕ} (hc : c < n) (hw : w ≤ f c) :
    w + ∑ c' ∈ Finset.range n, Function.update f c (f c - w) c'
      = ∑ c' ∈ Finset.range n, f c' := by
  have hmem : c ∈ Finset.range n := Finset.mem_range.mpr hc
  rw [Finset.sum_update_of_mem hmem, ← Finset.sum_sdiff (Finset.singleton_subset_iff.mpr hmem),
    Finset.sum_singleton]
  omega

/-- A turn that takes from what waits on its channel keeps the account. -/
theorem accounted_rule {Holds : (ℕ → ℕ) → σ → Prop} {once : ℕ → Prop} {total : ℕ}
    (hH : Program.MonotoneReading H)
    (hturn : ∀ f share c s, c < numChans → 0 < share → Holds f s →
      (once c → f c = 0 ∨ f c = share) →
      (chanRx c share).wp H (fun w s' => w = min share (f c) ∧
        Holds (Function.update f c (f c - w)) s') s) :
    RoundRule H (Accounted Holds once numChans budget total) chanRx numChans budget where
  turn := by
    rintro given share c more work s hc hshare ⟨f, hf, hsum, hcase⟩
    obtain ⟨honce, hmore⟩ := hcase.resolve_left (fun h => by omega)
    refine Program.wp_mono hH _ (fun w s' hw => ?_) (hturn f share c s hc hshare hf
      (fun ho => (honce c hc ho).imp id And.right))
    obtain ⟨hw, hf'⟩ := hw
    have hle : w ≤ f c := hw ▸ Nat.min_le_right _ _
    have hrest := sum_update_sub hc hle
    refine ⟨hw ▸ Nat.min_le_left _ _, _, hf', by omega, Or.inr ⟨fun c' hc' ho => ?_, fun hm => ?_⟩⟩
    · by_cases heq : c' = c
      · subst heq
        rw [Function.update_self]
        rcases honce c' hc' ho with h | h
        · exact Or.inl (by omega)
        · exact Or.inl (by omega)
      · rw [Function.update_of_ne heq]
        exact (honce c' hc' ho).imp id (fun h => ⟨by omega, h.2⟩)
    · rw [Bool.or_eq_false_iff, decide_eq_false_iff_not] at hm
      intro c' hc'
      by_cases heq : c' = c
      · -- the share was not used up, so nothing is left
        subst heq
        rw [Function.update_self]
        omega
      · rw [Function.update_of_ne heq]
        exact hmore hm.1 c' (by omega)
  next := by
    rintro given share work s hwork ⟨f, hf, hsum, hcase⟩
    refine ⟨f, hf, hsum, Or.inr ⟨fun c' hc' ho => ?_,
      fun _ c' hc' => absurd hc' (Nat.not_lt_zero c')⟩⟩
    rcases hcase with ⟨-, rfl, honce⟩ | ⟨honce, -⟩
    · exact (honce c' hc' ho).imp id (fun h => ⟨Nat.zero_le _, h⟩)
    · exact (honce c' hc' ho).imp id (fun h => absurd h.1 (Nat.not_le.mpr hc'))

/-- **The work of a reception** is all that waits, if that is less than the
budget; and else it is at least the budget. -/
theorem rxRounds_account {Holds : (ℕ → ℕ) → σ → Prop} {once : ℕ → Prop}
    (hH : Program.MonotoneReading H)
    (hturn : ∀ f share c s, c < numChans → 0 < share → Holds f s →
      (once c → f c = 0 ∨ f c = share) →
      (chanRx c share).wp H (fun w s' => w = min share (f c) ∧
        Holds (Function.update f c (f c - w)) s') s)
    (hpos : 0 < numChans) (stuck : Program O R ℕ) (hbudget : budget + numChans < 2 ^ 32)
    (hone : 0 < budget) {f : ℕ → ℕ} {s : σ} (hf : Holds f s)
    (honce : ∀ c, c < numChans → once c → f c = 0 ∨ f c = chanBudget budget 0 numChans) :
    (rxRounds stuck chanRx numChans budget (budget + 1) 0 true).wp H
      (fun w _ => w ≤ budget + numChans - 1 ∧
        (w < budget ↔ ∑ c ∈ Finset.range numChans, f c < budget) ∧
        (w < budget → w = ∑ c ∈ Finset.range numChans, f c)) s := by
  have hstart : Accounted Holds once numChans budget (∑ c ∈ Finset.range numChans, f c) 0 0
      numChans true 0 s := ⟨f, hf, Nat.zero_add _, Or.inl ⟨rfl, rfl, honce⟩⟩
  refine Program.wp_mono hH _ (fun w s' hend => ?_)
    (rxRounds_call hH (accounted_rule hH hturn) hpos stuck hbudget hstart)
  obtain ⟨hle, given, share, more, ⟨f', -, hsum, hcase⟩, hdone, hfirst⟩ := hend
  have hgiven := hfirst hone
  have hshare := chanBudget_pos budget 0 numChans
  obtain ⟨-, hmore⟩ := hcase.resolve_left (fun h => by omega)
  have hexact : w < budget → w = ∑ c ∈ Finset.range numChans, f c := by
    intro hlt
    have hzero : ∑ c ∈ Finset.range numChans, f' c = 0 :=
      Finset.sum_eq_zero (fun c' hc' => hmore (hdone hlt) c' (Finset.mem_range.mp hc'))
    omega
  exact ⟨hle, ⟨fun hlt => hexact hlt ▸ hlt, fun hlt => by omega⟩, hexact⟩

end Account

/-! ## What waits on the channels -/

/-- **What waits on the channels of an instance**: the descriptors in the rings
of the managed ones, and notifications of the unmanaged ones. -/
structure IpcShmCfg.Waits (cfg : IpcShmCfg) (s : Side) (shm : Shm)
    (xs : ℕ → List (List UInt8)) (notified : ℕ → Bool) : Prop where
  backlog : cfg.Backlog s shm xs
  header : ∀ c u, c < cfg.numChannels.toNat → cfg.chan c = .unmanaged u →
    (notified c = true ↔ shm.Notified s (cfg.chanOff c))

/-- **The work that waits on a channel**: one for each message of a managed
channel, and an equal share of the budget for a notification. -/
def IpcShmCfg.waitingOn (cfg : IpcShmCfg) (xs : ℕ → List (List UInt8)) (notified : ℕ → Bool)
    (c : ℕ) : ℕ :=
  match cfg.chan c with
  | .managed _ => (xs c).length
  | .unmanaged _ => if notified c then ipcSoftirqBudget / cfg.numChannels.toNat else 0
  | .invalid => 0

/-- **The work that waits** on all channels. -/
def IpcShmCfg.waiting (cfg : IpcShmCfg) (xs : ℕ → List (List UInt8)) (notified : ℕ → Bool) : ℕ :=
  ∑ c ∈ Finset.range cfg.numChannels.toNat, cfg.waitingOn xs notified c

namespace Peers

variable {P : Peers} {s : Side} {d : Driver} {c : ℕ} {α : Type}
  {cb : Op → Shm × α → Shm × α} {oob : ℤ → IpcShmPool} {xs : ℕ → List (List UInt8)}
  {notified : ℕ → Bool}

/-- **What waits is static**: the application does not touch it. -/
def StaticWaits (P : Peers) (s : Side) (cb : Op → Shm × α → Shm × α) : Prop :=
  ∀ o w xs notified, P.shape.Waits s w.1 xs notified → P.shape.Waits s (cb o w).1 xs notified

/-- Two headers of unmanaged channels lie apart. -/
theorem headers_apart {u u' : IpcShmUnmanagedCfg} {c' : ℕ} (hc : c < P.numChannels)
    (hu : P.shape.chan c = .unmanaged u) (hc' : c' < P.numChannels)
    (hu' : P.shape.chan c' = .unmanaged u') (hne : c ≠ c') :
    P.shape.chanOff c + 16 ≤ P.shape.chanOff c' ∨ P.shape.chanOff c' + 16 ≤ P.shape.chanOff c :=
  P.shape.layout_apart hc hc' hne.symm (header_mem_layout hu) (header_mem_layout hu')

theorem StaticWaits.tracks (hcb : P.StaticWaits s cb) :
    P.Backlogged s cb (fun xs shm => P.shape.Waits s shm xs notified) where
  backlog := IpcShmCfg.Waits.backlog
  callback := fun o w xs hw => hcb o w xs notified hw
  pop := by
    intro xs shm c x rest hid hcap hx hw
    refine ⟨hw.backlog.pop P.poolsGiven hid hcap hx, fun c' u hc' hu => ?_⟩
    refine (hw.header c' u hc' hu).trans (Shm.notified_congr (fun t => ?_))
    have hap := header_apart hc' hu hid
    rcases Side.eq_or_eq_other s t with rfl | rfl
    · intro a hlo hhi
      rw [Shm.set_self]
      unfold ringBytes at hap
      exact ByteMem.popFront_of_not_mem (by omega)
    · rw [Shm.set_other]
      exact ByteMem.SameOn.refl _ _ _

/-- A notification that has been seen no longer waits, and all else does. -/
theorem waits_seen {u : IpcShmUnmanagedCfg} (hc : c < P.numChannels)
    (hu : P.shape.chan c = .unmanaged u) {shm : Shm} (hw : P.shape.Waits s shm xs notified) :
    P.shape.Waits s (shm.set s ((shm s).store 4 (P.shape.chanOff c + 8)
      ((shm s.other).load 4 (P.shape.chanOff c + 4)))) xs (Function.update notified c false) := by
  refine ⟨hw.backlog.frame fun c' hc' =>
      (sameRings_header hc hu (by omega) shm).ring (.chan c') hc', fun c' u' hc' hu' => ?_⟩
  by_cases heq : c' = c
  · subst heq
    rw [Function.update_self]
    refine ⟨fun h => absurd h Bool.false_ne_true, fun h => ?_⟩
    have hne := h.2.2
    rw [Shm.set_self, Shm.set_other, ByteMem.load_store_self_of_lt _ (ByteMem.load_lt _ _ _)] at hne
    exact absurd rfl hne
  · rw [Function.update_of_ne heq]
    refine (hw.header c' u' hc' hu').trans (Shm.notified_congr (fun t => ?_))
    have hap := headers_apart hc hu hc' hu' (Ne.symm heq)
    rcases Side.eq_or_eq_other s t with rfl | rfl
    · intro a hlo hhi
      rw [Shm.set_self]
      exact ByteMem.store_of_not_mem _ (by omega)
    · rw [Shm.set_other]
      exact ByteMem.SameOn.refl _ _ _

/-- What waits on the channels, as numbers. -/
def WaitingWork (P : Peers) (s : Side) (f : ℕ → ℕ) (w : Shm × α) : Prop :=
  ∃ xs notified, P.shape.Waits s w.1 xs notified ∧
    ∀ c, c < P.numChannels → f c = P.shape.waitingOn xs notified c

/-- The unmanaged channels. -/
def Unmanaged (P : Peers) (c : ℕ) : Prop := ∃ u, P.shape.chan c = .unmanaged u

theorem waitingOn_managed (hid : P.Has (.chan c)) :
    P.shape.waitingOn xs notified c = (xs c).length := by
  obtain ⟨-, m, hm⟩ := hid
  rw [IpcShmCfg.waitingOn, hm]

/-- What waits on a channel depends on that channel only. -/
theorem waitingOn_congr {xs' : ℕ → List (List UInt8)} {notified' : ℕ → Bool} (hxs : xs' c = xs c)
    (hn : notified' c = notified c) :
    P.shape.waitingOn xs' notified' c = P.shape.waitingOn xs notified c := by
  unfold IpcShmCfg.waitingOn
  rw [hxs, hn]

/-- **A turn takes from what waits** on its channel as much as its share
allows. -/
theorem turn_waitingWork (hup : P.Up s d) (hcb : P.StaticWaits s cb)
    (hshare₁ : 0 < ipcSoftirqBudget / P.numChannels) (f : ℕ → ℕ) (share c : ℕ) (w : Shm × α)
    (hc : c < P.numChannels) (hshare : 0 < share) (hw : P.WaitingWork s f w)
    (honce : P.Unmanaged c → f c = 0 ∨ f c = share) :
    (ipcChannelRx d (P.inst s) c share).wp (Program.answering (appHandle (P.μ s) s cb oob))
      (fun n w' => n = min share (f c) ∧
        P.WaitingWork s (Function.update f c (f c - n)) w') w := by
  obtain ⟨xs, notified, hw, hf⟩ := hw
  have hfc := hf c hc
  by_cases hid : P.Has (.chan c)
  · rw [waitingOn_managed hid] at hfc
    refine Program.wp_mono Program.monotone_answering _ (fun n w' hn => ?_)
      (managedTurn_tracked hup hcb.tracks hid share hw)
    obtain ⟨rfl, hw'⟩ := hn
    refine ⟨by rw [hfc], _, notified, hw', fun c' hc' => ?_⟩
    by_cases heq : c' = c
    · subst heq
      rw [waitingOn_managed hid, Function.update_self, Function.update_self, List.length_drop, hfc]
      omega
    · rw [Function.update_of_ne heq, hf c' hc', waitingOn_congr (Function.update_of_ne heq _ _) rfl]
  · obtain ⟨-, -, -, u, hu⟩ := hup.unmanaged hc hid
    have hfc' : f c = if notified c = true then ipcSoftirqBudget / P.numChannels else 0 := by
      rw [hfc, IpcShmCfg.waitingOn, hu]
      rfl
    have hhdr := hw.header c u hc hu
    refine Program.wp_mono Program.monotone_answering _ (fun n w' hcase => ?_)
      (unmanagedTurn_cases hup hc hid share w)
    rcases hcase with ⟨hnot, rfl, o, rfl⟩ | ⟨hnot, rfl, rfl⟩
    · -- a notification is charged the share of this round
      rw [if_pos (hhdr.mpr hnot)] at hfc'
      have hall : f c = n := (honce ⟨u, hu⟩).resolve_left (by omega)
      refine ⟨by rw [hall, Nat.min_self], xs, Function.update notified c false,
        hcb _ _ _ _ (waits_seen hc hu hw), fun c' hc' => ?_⟩
      by_cases heq : c' = c
      · subst heq
        rw [Function.update_self, IpcShmCfg.waitingOn, hu]
        dsimp only
        rw [Function.update_self, if_neg Bool.false_ne_true]
        omega
      · rw [Function.update_of_ne heq, hf c' hc',
          waitingOn_congr rfl (Function.update_of_ne heq _ _)]
    · rw [if_neg (fun h => hnot (hhdr.mp h))] at hfc'
      refine ⟨by rw [hfc', Nat.min_zero], xs, notified, hw, fun c' hc' => ?_⟩
      rw [Nat.sub_zero, Function.update_eq_self]
      exact hf c' hc'

/-- **The work of a reception**: all that waits, if that is less than the
budget. -/
theorem ipcShmRx_waiting (hup : P.Up s d) (hcb : P.StaticWaits s cb) {w : Shm × α}
    (hused : (w.1 s).load 8 0 ≠ ipcShmStateClear) (hw : P.shape.Waits s w.1 xs notified)
    (hnum : 1 ≤ P.numChannels) (hmax : P.numChannels ≤ ipcShmMaxChannels) :
    ∃ work w', (ipcShmRx d (P.inst s) ipcSoftirqBudget).run (appHandle (P.μ s) s cb oob) w
        = some (work, w') ∧ work ≤ ipcSoftirqBudget + P.numChannels - 1 ∧
      (work < ipcSoftirqBudget ↔ P.shape.waiting xs notified < ipcSoftirqBudget) := by
  have hH : Program.MonotoneReading (Program.answering (appHandle (P.μ s) s cb oob)) :=
    Program.monotone_answering
  unfold ipcShmMaxChannels at hmax
  have hfree : (ipcInstanceIsFree d (P.inst s)).run (memHandle (P.μ s) s) w.1
      = some (.used, w.1) := ipcInstanceIsFree_run_used hup.laid hup.inst_lt (P.header_le s) hused
  have hshare₁ : 0 < ipcSoftirqBudget / P.numChannels :=
    Nat.div_pos (show P.numChannels ≤ 128 by omega) hnum
  have hfirst : chanBudget ipcSoftirqBudget 0 P.numChannels = ipcSoftirqBudget / P.numChannels := by
    unfold chanBudget
    rw [Nat.sub_zero]
    exact if_neg (Nat.ne_of_gt hshare₁)
  have hbudget : ipcSoftirqBudget + P.numChannels < 2 ^ 32 := by
    unfold ipcSoftirqBudget
    omega
  rw [← Program.wp_answering_iff, ipcShmRx, Program.wp_bind]
  refine wp_app_of_quiet (X := fun _ _ => True) (ipcInstanceIsFree_always (fun _ h => h) d _)
    hfree ?_
  rw [if_neg (not_not.mpr rfl), hup.numChannels_eq]
  refine Program.wp_mono hH _ (fun work w' hend => ⟨hend.1, hend.2.1⟩)
    (rxRounds_account hH (turn_waitingWork hup hcb hshare₁) hnum _ hbudget (by decide)
      (f := P.shape.waitingOn xs notified) ⟨xs, notified, hw, fun _ _ => rfl⟩ ?_)
  rintro c hc ⟨u, hu⟩
  rw [IpcShmCfg.waitingOn, hu, hfirst]
  dsimp only
  split
  · exact Or.inr rfl
  · exact Or.inl rfl

end Peers

/-! ## The result of a poll -/

/-- What an `int8_t` makes of the work of a reception. -/
theorem int8OfNat_eq_iff {n : ℕ} (hn : n < 2 ^ 8) :
    (0 ≤ int8OfNat n ∧ int8OfNat n = n) ↔ n < 2 ^ 7 := by
  unfold int8OfNat
  rw [Nat.mod_eq_of_lt hn]
  split <;> omega

/-- **A poll of an instance in use**, with a remote that is ready, is a
reception. -/
theorem ipcShmPollChannels_run {α : Type} {μ : ShmMap} {s : Side} {cb : Op → Shm × α → Shm × α}
    {oob : ℤ → IpcShmPool} {d : Driver} {inst : ℕ} {cfg : IpcShmCfg} {w w' : Shm × α} {work : ℕ}
    (hirq : cfg.interCoreRxIrq = ipcIrqNone) (irq : ℤ) (hos : d.os inst = μ.os)
    (hsize : 8 ≤ μ.size)
    (hfree : (ipcInstanceIsFree d inst).run (memHandle μ s) w.1 = some (.used, w.1))
    (hready : (w.1 s.other).load 8 0 = ipcShmStateReady)
    (hrx : (ipcShmRx d inst ipcSoftirqBudget).run (appHandle μ s cb oob) w = some (work, w')) :
    (ipcShmPollChannels (ipcOsInitRx cfg irq) d inst).run (appHandle μ s cb oob) w
      = some (int8OfNat work, w') := by
  have hload : memHandle μ s (.load 8 (μ.remoteShm + 0)) w.1
      = some ((w.1 s.other).load 8 0, w.1) := memHandle_load_remote (by omega) (by decide)
  have hload : appHandle μ s cb oob (.load 8 (d.os inst).remoteShm) w
      = some ((w.1 s.other).load 8 0, w) := by
    rw [hos]
    exact appHandle_of_quiet (X := fun _ _ => True) (o := .load 8 μ.remoteShm) trivial hload
  have hpoll : ipcOsPollChannels (ipcOsInitRx cfg irq) d inst
      = ipcShmRx d inst ipcSoftirqBudget >>= fun work => .pure (int8OfNat work) := by
    unfold ipcOsPollChannels ipcOsInitRx
    rw [if_pos (if_pos hirq), if_pos rfl]
    rfl
  have hfree : (ipcInstanceIsFree d inst).run (appHandle μ s cb oob) w = some (.used, w) :=
    run_app_of_quiet (X := fun _ _ => True) (ipcInstanceIsFree_always (fun _ h => h) d inst) hfree
  rw [ipcShmPollChannels, Program.run_bind_of hfree, if_neg (not_not.mpr rfl), load64_bind,
    Program.run_op_of hload, if_neg (not_not.mpr hready), hpoll]
  exact Program.run_bind_of hrx

/-- **When a poll returns the work of its reception.** For an initialized
instance that is polled, whose remote is ready, with anything waiting on its
channels that the application does not touch in its callbacks: the poll returns
a result that is not negative and equals the work of `ipc_shm_rx` if and only if
the work that waits is at most 127. -/
theorem ipcShmPollChannels_work {α : Type} {cfg : IpcShmCfg} {μ : ShmMap} {d₀ d : Driver}
    {inst : ℕ} {s : Side}
    (hacc : (ipcShmInitInstance d₀ inst (some cfg)).Returns (Env μ) (0, d))
    (hμ : μ.size = cfg.shmSize.toNat) (hfit : cfg.footprint ≤ cfg.shmSize.toNat)
    (hirq : cfg.interCoreRxIrq = ipcIrqNone) (irq : ℤ) {cb : Op → Shm × α → Shm × α}
    (oob : ℤ → IpcShmPool)
    (hcb : ∀ o w xs notified, cfg.Waits s w.1 xs notified → cfg.Waits s (cb o w).1 xs notified)
    {w : Shm × α} (hused : (w.1 s).load 8 0 ≠ ipcShmStateClear)
    (hready : (w.1 s.other).load 8 0 = ipcShmStateReady)
    {xs : ℕ → List (List UInt8)} {notified : ℕ → Bool} (hw : cfg.Waits s w.1 xs notified) :
    ∃ work r w', (ipcShmRx d inst ipcSoftirqBudget).run (appHandle μ s cb oob) w
        = some (work, w') ∧
      (ipcShmPollChannels (ipcOsInitRx cfg irq) d inst).run (appHandle μ s cb oob) w
        = some (r, w') ∧
      ((0 ≤ r ∧ r = work) ↔ cfg.waiting xs notified ≤ 127) := by
  obtain ⟨hinst, hnum, hmax⟩ := ipcShmInitInstance_accepted hacc
  obtain ⟨hos, hlaid⟩ := ipcShmInitInstance_laid hμ (hμ ▸ hfit) hacc
  let P := Peers.mirror cfg μ inst hlaid.symmetric hμ hfit
  have hup : P.Up s d := ⟨hinst, hos, hlaid⟩
  obtain ⟨work, w', hrx, hle, hiff⟩ : ∃ work w', (ipcShmRx d inst ipcSoftirqBudget).run
      (appHandle μ s cb oob) w = some (work, w') ∧
      work ≤ ipcSoftirqBudget + cfg.numChannels.toNat - 1 ∧
      (work < ipcSoftirqBudget ↔ cfg.waiting xs notified < ipcSoftirqBudget) :=
    Peers.ipcShmRx_waiting hup (show P.StaticWaits s cb from hcb) hused
      (show P.shape.Waits s w.1 xs notified from hw) hnum hmax
  have hfree : (ipcInstanceIsFree d inst).run (memHandle μ s) w.1 = some (.used, w.1) :=
    ipcInstanceIsFree_run_used hlaid hinst (P.header_le s) hused
  refine ⟨work, _, w', hrx,
    ipcShmPollChannels_run hirq irq hos (P.header_le s) hfree hready hrx, ?_⟩
  unfold ipcSoftirqBudget at hle hiff
  unfold ipcShmMaxChannels at hmax
  rw [int8OfNat_eq_iff (by omega)]
  omega

/-- The sample configuration, polled. -/
def polledSampleCfg : IpcShmCfg := { sampleCfg with interCoreRxIrq := -1 }

/-- Two messages and a notification are work for 66, and the poll says so. -/
theorem ipcShmPollChannels_work_waitingThree :
    ∃ d shm xs notified, waitingThree polledSampleCfg = some (d, shm) ∧
      (xs 0).length = 2 ∧ notified 1 = true ∧ polledSampleCfg.Waits .b shm xs notified ∧
      polledSampleCfg.waiting xs notified = 66 ∧
      ∃ work r w', (ipcShmRx d 0 ipcSoftirqBudget).run (appHandle (twoWindows .b) .b (fun _ w => w)
          (fun _ => {})) (shm, ()) = some (work, w') ∧
        (ipcShmPollChannels (ipcOsInitRx polledSampleCfg 0) d 0).run (appHandle (twoWindows .b) .b
          (fun _ w => w) (fun _ => {})) (shm, ()) = some (r, w') ∧ 0 ≤ r ∧ r = work := by
  have hmem : (waitingThree polledSampleCfg).map (fun r => [(r.2 .b).load 8 0, (r.2 .a).load 8 0,
      (r.2 .a).sentinel 8, (r.2 .b).sentinel 8, (r.2 .a).writeIdx 8, (r.2 .b).readIdx 8,
      (r.2 .b).load 4 192, (r.2 .a).load 4 192, (r.2 .a).load 4 196, (r.2 .b).load 4 200])
        = some [ipcShmStateReady, ipcShmStateReady, ipcQueueInitDone, ipcQueueInitDone, 2, 0,
          ipcUchanInitDone, ipcUchanInitDone, 1, 0] := by
    decide +kernel
  have hinit : ((ipcShmInitInstance {} 0 (some polledSampleCfg)).run
      (memHandle (twoWindows .b) .b) (fun _ _ => 0)).map (fun r => r.1.1) = some 0 := by
    decide +kernel
  obtain ⟨⟨d, shm⟩, hwait, hvals⟩ := Option.map_eq_some_iff.mp hmem
  simp only [List.cons.injEq, and_true] at hvals
  obtain ⟨hused, hready, hsa, hsb, hwi, hri, hub, hua, hcount, hseen⟩ := hvals
  obtain ⟨err, shm', hrun⟩ := waitingThree_init hwait
  obtain rfl : err = 0 := by
    rw [hrun] at hinit
    exact Option.some.inj hinit
  obtain ⟨xs₀, hring⟩ : ∃ xs₀, RingHolds 8 3 8 (shm .a) (shm .b) xs₀ :=
    RingHolds.exists_of_lt (by omega) (by omega)
  have hlen : xs₀.length = 2 := by
    have hle := hring.length_le
    have hw := hring.write_eq
    omega
  have hwaits : polledSampleCfg.Waits .b shm (fun _ => xs₀) (fun _ => true) := by
    refine ⟨fun c hc => ?_, fun c u hc hu => ?_⟩
    · obtain rfl : c = 0 := by
        obtain ⟨hlt, m, hm⟩ := hc
        by_contra hne
        simp [polledSampleCfg, sampleCfg, IpcShmCfg.chan, hne] at hm
      exact ⟨fun t => by cases t; exacts [hsa, hsb], hring⟩
    · obtain rfl : c = 1 := by
        have hlt : c < 2 := hc
        have hne : c ≠ 0 := by
          rintro rfl
          simp [polledSampleCfg, sampleCfg, IpcShmCfg.chan] at hu
        omega
      refine ⟨fun _ => ⟨hub, hua, ?_⟩, fun _ => rfl⟩
      show (shm .a).load 4 196 ≠ (shm .b).load 4 200
      omega
  have hwork : polledSampleCfg.waiting (fun _ => xs₀) (fun _ => true) = 66 := by
    show ∑ c ∈ Finset.range 2, _ = 66
    rw [Finset.sum_range_succ, Finset.sum_range_one]
    show xs₀.length + 64 = 66
    omega
  obtain ⟨work, r, w', hrx, hpoll, hiff⟩ := ipcShmPollChannels_work
    (Program.returns_of_run env_of_memHandle hrun) rfl (by decide +kernel) (by decide) 0
    (fun _ => {}) (fun _ _ _ _ h => h) (w := (shm, ()))
    (show (shm .b).load 8 0 ≠ ipcShmStateClear by rw [hused]; decide) hready hwaits
  obtain ⟨hpos, hr⟩ := hiff.mpr (by rw [hwork]; decide)
  exact ⟨d, shm, _, _, hwait, hlen, rfl, hwaits, hwork, work, r, w', hrx, hpoll, hpos, hr⟩

/-- One unmanaged channel, polled. -/
def polledCfg : IpcShmCfg where
  localShmAddr := 0x34000000
  remoteShmAddr := 0x34001000
  shmSize := 0x1000
  interCoreTxIrq := 2
  interCoreRxIrq := -1
  numChannels := 1
  channels := some (fun _ => .unmanaged { size := 8, rxCb := 0x200, cbArg := 0 })

/-- **One notification is reported as an error.** Both peers initialize from
cleared memory and one notifies the other, which polls. The unmanaged channel
is charged the whole budget of 128, and the poll returns -128. -/
theorem ipcShmPollChannels_negative :
    (((ipcShmInitInstance {} 0 (some polledCfg)).run (memHandle (twoWindows .b) .b)
        (fun _ _ => 0)).bind fun b =>
      ((ipcShmInitInstance {} 0 (some polledCfg)).run (memHandle (twoWindows .a) .a) b.2).bind
        fun a =>
      ((ipcShmUnmanagedTx a.1.2 0 0).run (memHandle (twoWindows .a) .a) a.2).bind fun tx =>
      ((ipcShmRx b.1.2 0 ipcSoftirqBudget).run (memHandle (twoWindows .b) .b) tx.2).bind fun rx =>
      ((ipcShmPollChannels (ipcOsInitRx polledCfg 0) b.1.2 0).run (memHandle (twoWindows .b) .b)
        tx.2).map fun poll => (b.1.1, a.1.1, tx.1, rx.1, poll.1))
      = some (0, 0, 0, 128, -128) := by
  decide +kernel
