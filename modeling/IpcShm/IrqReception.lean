import IpcShm.RxLoop
import IpcShm.Cyclic
import IpcShm.Controller
import IpcShm.InstanceLayout

/-!
# Reception among others

Messages are taken out of the rings by a tasklet in the kernel, and by one
thread for each instance in user space. Either runs among others: the peers push
messages, applications write buffers, and memory changes between any two of its
requests. What it relies on are the words that mark an instance and its queues
initialized, and that nobody else moves a read index of its instances or takes a
message out of their rings (`IrqInstances.Meanwhile`).

The result about a call of reception is `ipcShmRx_wp`. It ends below the budget
only with a round in which no channel used up its share, and a channel that did
not was found empty. So a call that returns less than the budget has found every
channel of the instance empty at some point.
-/

/-! ## The instances -/

/-- The windows of two instances lie apart. -/
def ShmMap.Apart (μ ν : ShmMap) : Prop :=
  ∀ a ∈ [μ.localShm, μ.remoteShm], ∀ b ∈ [ν.localShm, ν.remoteShm],
    a + μ.size ≤ b ∨ b + ν.size ≤ a

/-- **The instances served by interrupt**, each initialized and with windows of
its own. -/
structure IrqInstances where
  d : Driver
  Serves : ℕ → Prop
  serves_lt : ∀ i, Serves i → i < ipcShmMaxInstances
  /-- What the HW layer keeps of them. -/
  hw : ℕ → HwInstance
  cfg : ℕ → IpcShmCfg
  μ : ℕ → ShmMap
  laid : ∀ i, Serves i → (d.priv i).Laid (μ i).os (cfg i)
  fits : ∀ i, Serves i → (cfg i).footprint ≤ (μ i).size
  numChannels_pos : ∀ i, Serves i → 0 < (cfg i).numChannels.toNat
  mscmRxIrq_ne : ∀ i, Serves i → (hw i).mscmRxIrq ≠ ipcIrqNone
  apart : ∀ i j, Serves i → Serves j → i ≠ j → (μ i).Apart (μ j)

namespace IrqInstances

variable (K : IrqInstances)

/-- The channel is one of an instance served by interrupt. -/
def Has (i c : ℕ) : Prop := K.Serves i ∧ c < (K.cfg i).numChannels.toNat

/-- And it is a managed one. -/
def Managed (i c : ℕ) : Prop := K.Serves i ∧ (K.cfg i).HasQueue (.chan c)

/-- The queue of a channel. -/
def queue (i c : ℕ) : IpcQueue := ((K.d.priv i).channels c).mng.bdQueue

/-- The local control data of a channel. -/
def ctrl (i c : ℕ) : ℕ := (K.μ i).localShm + (K.cfg i).chanOff c

/-- The next message to take. -/
def readIdx (i c : ℕ) (m : ByteMem) : ℕ := m.load 4 ((K.queue i c).pushRing + 12)

/-- The next message the remote will push. -/
def writeIdx (i c : ℕ) (m : ByteMem) : ℕ := m.load 4 ((K.queue i c).popRing + 8)

/-- **The number of messages in the ring** of a channel. -/
def waiting (i c : ℕ) (m : ByteMem) : ℕ :=
  Cyclic.dist (K.queue i c).elemNum (K.writeIdx i c m) (K.readIdx i c m)

variable {K} {i j c c' a b v : ℕ} {m m' : ByteMem}

theorem Managed.has (h : K.Managed i c) : K.Has i c := ⟨h.1, h.2.1⟩

/-! ### Where things are -/

theorem Managed.queue_eq (h : K.Managed i c) : ∃ n, (0 < n ∧ n ≤ ipcShmMaxBufsPerChannel) ∧
    K.queue i c = laidQueue (K.μ i).os ((K.cfg i).chanOff c) n := by
  obtain ⟨hi, hc, cc, hm⟩ := h
  have hl := (K.laid i hi).chan c hc
  rw [hm] at hl
  obtain ⟨-, pools, hl⟩ := hl
  exact ⟨_, ⟨hl.total_pos, hl.total_le⟩, hl.bdQueue_eq⟩

theorem Managed.pushRing_eq (h : K.Managed i c) : (K.queue i c).pushRing = K.ctrl i c := by
  obtain ⟨n, -, hq⟩ := h.queue_eq
  rw [hq]
  rfl

theorem Managed.popRing_eq (h : K.Managed i c) :
    (K.queue i c).popRing = (K.μ i).remoteShm + (K.cfg i).chanOff c := by
  obtain ⟨n, -, hq⟩ := h.queue_eq
  rw [hq]
  rfl

theorem Managed.elemNum_lt (h : K.Managed i c) : (K.queue i c).elemNum < 2 ^ 16 := by
  obtain ⟨n, hn, hq⟩ := h.queue_eq
  rw [hq]
  exact Nat.lt_of_le_of_lt (Nat.succ_le_succ hn.2) (by decide)

/-- There is room for a message. -/
theorem Managed.one_lt_elemNum (h : K.Managed i c) : 1 < (K.queue i c).elemNum := by
  obtain ⟨n, hn, hq⟩ := h.queue_eq
  rw [hq]
  exact Nat.succ_lt_succ hn.1

theorem Managed.elemNum_pos (h : K.Managed i c) : 0 < (K.queue i c).elemNum :=
  Nat.lt_of_succ_lt h.one_lt_elemNum

theorem Managed.not_null (h : K.Managed i c) :
    ¬((K.queue i c).pushRing = 0 ∨ (K.queue i c).popRing = 0) := by
  have hl := (K.μ i).localShm_pos
  have hr := (K.μ i).remoteShm_pos
  rw [h.pushRing_eq, h.popRing_eq, ctrl]
  omega

/-- The control data of any channel take sixteen bytes. -/
theorem Has.extent_le (h : K.Has i c) : 16 ≤ ((K.cfg i).chan c).extent := by
  have hl := (K.laid i h.1).chan c h.2
  revert hl
  generalize (K.cfg i).chan c = cc
  intro hl
  cases cc with
  | managed mc =>
    obtain ⟨-, pools, hl⟩ := hl
    rw [IpcShmChannelCfg.extent, hl.pools_eq]
    dsimp only
    unfold poolOff ringBytes
    omega
  | unmanaged u => exact Nat.le_add_right 16 _
  | invalid => exact False.elim hl

theorem Has.off_bounds (h : K.Has i c) :
    8 ≤ (K.cfg i).chanOff c ∧ (K.cfg i).chanOff c + 16 ≤ (K.μ i).size := by
  have h₁ := h.extent_le
  have h₂ := (K.cfg i).chanOff_add_extent_le h.2
  have h₃ := K.fits i h.1
  have h₄ : 8 ≤ (K.cfg i).chanOff c := Nat.le_add_right _ _
  unfold IpcShmCfg.footprint at h₃
  omega

/-- Distances between the windows of instances. -/
theorem windows_apart (hi : K.Serves i) (hj : K.Serves j) :
    ((K.μ i).localShm + (K.μ i).size ≤ (K.μ j).remoteShm ∨
      (K.μ j).remoteShm + (K.μ j).size ≤ (K.μ i).localShm) ∧
    (i ≠ j → (K.μ i).localShm + (K.μ i).size ≤ (K.μ j).localShm ∨
      (K.μ j).localShm + (K.μ j).size ≤ (K.μ i).localShm) := by
  by_cases hij : i = j
  · subst hij
    exact ⟨(K.μ i).disjoint, fun h => absurd rfl h⟩
  · have h := K.apart i j hi hj hij
    exact ⟨h _ (by simp) _ (by simp), fun _ => h _ (by simp) _ (by simp)⟩

/-- Control data of different channels lie apart. -/
theorem ctrl_apart (h : K.Has i c) (h' : K.Has j c') (hne : ¬(i = j ∧ c = c')) :
    K.ctrl i c + 16 ≤ K.ctrl j c' ∨ K.ctrl j c' + 16 ≤ K.ctrl i c := by
  unfold ctrl
  by_cases hij : i = j
  · subst hij
    have h₁ := h.extent_le
    have h₂ := h'.extent_le
    rcases Nat.lt_or_gt_of_ne (fun hc => hne ⟨rfl, hc⟩) with hlt | hlt
    · have := (K.cfg i).chanOff_add_extent_le hlt
      omega
    · have := (K.cfg i).chanOff_add_extent_le hlt
      omega
  · have h₁ := h.off_bounds
    have h₂ := h'.off_bounds
    have := (windows_apart h.1 h'.1).2 hij
    omega

/-- And apart from the header of any instance, -/
theorem ctrl_header (h : K.Has i c) (hj : K.Serves j) (hc' : K.Has j c') :
    (K.μ j).localShm + 8 ≤ K.ctrl i c ∨ K.ctrl i c + 16 ≤ (K.μ j).localShm := by
  have h₁ := h.off_bounds
  have h₂ := hc'.off_bounds
  unfold ctrl
  by_cases hij : i = j
  · subst hij
    omega
  · have := (windows_apart h.1 hj).2 hij
    omega

/-- and from what the remote keeps of any channel. -/
theorem ctrl_remote (h : K.Has i c) (h' : K.Has j c') :
    (K.μ j).remoteShm + (K.cfg j).chanOff c' + 16 ≤ K.ctrl i c ∨
      K.ctrl i c + 16 ≤ (K.μ j).remoteShm + (K.cfg j).chanOff c' := by
  have h₁ := h.off_bounds
  have h₂ := h'.off_bounds
  have := (windows_apart h.1 h'.1).1
  unfold ctrl
  omega

/-! ### Memory -/

variable (K)

/-- **The instances stand**: each is marked in use, and its channel queues
initialized on both sides. -/
structure Standing (m : ByteMem) : Prop where
  used : ∀ i, K.Serves i → m.load 8 (K.d.priv i).global ≠ ipcShmStateClear
  popDone : ∀ i c, K.Managed i c → m.load 8 (K.queue i c).popRing = ipcQueueInitDone
  pushDone : ∀ i c, K.Managed i c → m.load 8 (K.queue i c).pushRing = ipcQueueInitDone
  read_lt : ∀ i c, K.Managed i c → K.readIdx i c m < (K.queue i c).elemNum
  write_lt : ∀ i c, K.Managed i c → K.writeIdx i c m < (K.queue i c).elemNum

/-- **The marks stay and the indexes move** to the given ones. Everything else in
memory may have changed. -/
structure Moves (m m' : ByteMem) (read write : ℕ → ℕ → ℕ) : Prop where
  used : ∀ i, K.Serves i → m'.load 8 (K.d.priv i).global = m.load 8 (K.d.priv i).global
  popDone : ∀ i c, K.Managed i c →
    m'.load 8 (K.queue i c).popRing = m.load 8 (K.queue i c).popRing
  pushDone : ∀ i c, K.Managed i c →
    m'.load 8 (K.queue i c).pushRing = m.load 8 (K.queue i c).pushRing
  read : ∀ i c, K.Managed i c → K.readIdx i c m' = read i c
  write : ∀ i c, K.Managed i c → K.writeIdx i c m' = write i c

/-- Nobody takes messages out of the rings, and the instances go on standing. -/
structure Later (m m' : ByteMem) : Prop where
  standing : K.Standing m'
  read_eq : ∀ i c, K.Managed i c → K.readIdx i c m' = K.readIdx i c m
  waiting_le : ∀ i c, K.Managed i c → K.waiting i c m ≤ K.waiting i c m'

/-- **What reception relies on** of the others. -/
def Meanwhile (m m' : ByteMem) : Prop := K.Standing m → K.Later m m'

variable {K}

theorem Standing.moves {read write : ℕ → ℕ → ℕ} (h : K.Standing m) (hm : K.Moves m m' read write)
    (hread : ∀ i c, K.Managed i c → read i c < (K.queue i c).elemNum)
    (hwrite : ∀ i c, K.Managed i c → write i c < (K.queue i c).elemNum) : K.Standing m' where
  used := fun i hi => by
    rw [hm.used i hi]
    exact h.used i hi
  popDone := fun i c hc => (hm.popDone i c hc).trans (h.popDone i c hc)
  pushDone := fun i c hc => (hm.pushDone i c hc).trans (h.pushDone i c hc)
  read_lt := fun i c hc => by
    rw [hm.read i c hc]
    exact hread i c hc
  write_lt := fun i c hc => by
    rw [hm.write i c hc]
    exact hwrite i c hc

theorem Standing.later (h : K.Standing m) : K.Later m m :=
  ⟨h, fun _ _ _ => rfl, fun _ _ _ => Nat.le_refl _⟩

theorem meanwhile_refl (m : ByteMem) : K.Meanwhile m m := Standing.later

theorem meanwhile_trans (m m' m'' : ByteMem) (h : K.Meanwhile m m') (h' : K.Meanwhile m' m'') :
    K.Meanwhile m m'' := fun hm =>
  have h₁ := h hm
  have h₂ := h' h₁.standing
  ⟨h₂.standing, fun i c hc => (h₂.read_eq i c hc).trans (h₁.read_eq i c hc),
    fun i c hc => (h₁.waiting_le i c hc).trans (h₂.waiting_le i c hc)⟩

/-- A ring with a message in it. -/
theorem Standing.waiting_pos_iff (h : K.Standing m) (hc : K.Managed i c) :
    0 < K.waiting i c m ↔ K.readIdx i c m ≠ K.writeIdx i c m := by
  constructor
  · intro hpos heq
    rw [waiting, heq, Cyclic.dist_self] at hpos
    exact absurd hpos (Nat.lt_irrefl 0)
  · intro hne
    refine Nat.pos_of_ne_zero (fun hz => hne ?_)
    exact (Cyclic.dist_eq_zero (h.write_lt i c hc) (h.read_lt i c hc) hz).symm

/-- A store into the second half of the control data of a channel moves at most
the read index of that channel. -/
theorem moves_store (hc : K.Has j c') (hlo : K.ctrl j c' + 8 ≤ a) (hhi : a + 4 ≤ K.ctrl j c' + 16) :
    K.Moves m (m.store 4 a v)
      (fun i c => if i = j ∧ c = c' then K.readIdx i c (m.store 4 a v) else K.readIdx i c m)
      (fun i c => K.writeIdx i c m) where
  used := fun i hi => by
    refine ByteMem.load_store_of_disjoint m ?_
    rw [(K.laid i hi).global_eq]
    have := ctrl_header hc hi ⟨hi, K.numChannels_pos i hi⟩
    show (K.μ i).localShm + 8 ≤ a ∨ a + 4 ≤ (K.μ i).localShm
    omega
  popDone := fun i c h => by
    refine ByteMem.load_store_of_disjoint m ?_
    rw [h.popRing_eq]
    have := ctrl_remote hc h.has
    omega
  pushDone := fun i c h => by
    refine ByteMem.load_store_of_disjoint m ?_
    rw [h.pushRing_eq]
    by_cases heq : i = j ∧ c = c'
    · obtain ⟨rfl, rfl⟩ := heq
      omega
    · have := ctrl_apart h.has hc heq
      omega
  read := fun i c h => by
    split
    · rfl
    · rename_i hne
      refine ByteMem.load_store_of_disjoint m ?_
      rw [h.pushRing_eq]
      have := ctrl_apart h.has hc hne
      omega
  write := fun i c h => by
    refine ByteMem.load_store_of_disjoint m ?_
    rw [h.popRing_eq]
    have := ctrl_remote hc h.has
    omega

/-- **A message is taken** from the ring of a channel. -/
theorem Standing.pop (h : K.Standing m) (hc : K.Managed i c)
    (hne : K.readIdx i c m ≠ K.writeIdx i c m)
    (hm' : m' = m.store 4 ((K.queue i c).pushRing + 12)
      ((K.readIdx i c m + 1) % (K.queue i c).elemNum)) :
    K.Standing m' ∧ K.waiting i c m' + 1 = K.waiting i c m ∧
      ∀ j c', K.Managed j c' → ¬(j = i ∧ c' = c) →
        K.readIdx j c' m' = K.readIdx j c' m ∧ K.waiting j c' m' = K.waiting j c' m := by
  subst hm'
  have hn := hc.elemNum_lt
  have hlt := Nat.mod_lt (K.readIdx i c m + 1) hc.elemNum_pos
  have hmoves := moves_store (m := m) (a := (K.queue i c).pushRing + 12)
    (v := (K.readIdx i c m + 1) % (K.queue i c).elemNum) hc.has
    (by rw [hc.pushRing_eq]; omega) (by rw [hc.pushRing_eq])
  have hread : K.readIdx i c (m.store 4 ((K.queue i c).pushRing + 12)
      ((K.readIdx i c m + 1) % (K.queue i c).elemNum))
        = (K.readIdx i c m + 1) % (K.queue i c).elemNum :=
    ByteMem.load_store_self_of_lt m (by omega)
  refine ⟨h.moves hmoves (fun j c' hj => ?_) (fun j c' hj => h.write_lt j c' hj), ?_,
    fun j c' hj hne' => ?_⟩
  · split
    · rename_i heq
      obtain ⟨rfl, rfl⟩ := heq
      rw [hread]
      exact hlt
    · exact h.read_lt j c' hj
  · rw [waiting, hread, hmoves.write i c hc]
    exact Cyclic.dist_succ_right (h.write_lt i c hc) (h.read_lt i c hc) hne
  · rw [waiting, hmoves.read j c' hj, hmoves.write j c' hj, if_neg hne']
    exact ⟨rfl, rfl⟩

/-- The indexes of no channel move. -/
theorem Standing.still {read : ℕ → ℕ → ℕ} (h : K.Standing m)
    (hm : K.Moves m m' read (fun i c => K.writeIdx i c m))
    (hread : ∀ i c, K.Managed i c → read i c = K.readIdx i c m) :
    K.Later m m' ∧ ∀ i c, K.Managed i c → K.waiting i c m' = K.waiting i c m := by
  have hwait : ∀ i c, K.Managed i c → K.waiting i c m' = K.waiting i c m := fun i c hc => by
    rw [waiting, hm.read i c hc, hm.write i c hc, hread i c hc]
    rfl
  refine ⟨⟨h.moves hm (fun i c hc => ?_) h.write_lt, fun i c hc => ?_,
    fun i c hc => Nat.le_of_eq (hwait i c hc).symm⟩, hwait⟩
  · rw [hread i c hc]
    exact h.read_lt i c hc
  · rw [hm.read i c hc, hread i c hc]

/-- The counter of an unmanaged channel is stored. -/
theorem Standing.umem (h : K.Standing m) (hc : K.Has j c') (hu : ¬K.Managed j c')
    (hm' : m' = m.store 4 (K.ctrl j c' + 8) v) :
    K.Later m m' ∧ ∀ i c, K.Managed i c → K.waiting i c m' = K.waiting i c m := by
  subst hm'
  refine h.still (moves_store hc (Nat.le_refl _) (by omega)) (fun i c hi => if_neg ?_)
  rintro ⟨rfl, rfl⟩
  exact hu hi

end IrqInstances

/-! ## The environment of reception -/

/-- Memory answers, and is changed by what is stored. Callbacks and the other
layers leave it alone themselves. -/
def Op.Answers : (o : Op) → ByteMem → o.Ret → ByteMem → Prop
  | .load n a, m, v, m' => v = m.load n a ∧ m' = m
  | .store n a v, m, _, m' => m' = m.store n a v
  | .memcpyFrom a n, m, bs, m' => bs = m.read a n ∧ m' = m
  | .memcpyTo a bs, m, _, m' => m' = m.write a bs
  | _, m, _, m' => m' = m

namespace IrqInstances

variable (K : IrqInstances)

/-- **What is asked for**: stores take a message out of a ring that has one, or
note the counter of an unmanaged channel. Notifications may be enabled. -/
def Asks : Op → ByteMem → Prop
  | .store n a v, m =>
    n = 4 ∧
      ((∃ i c, K.Managed i c ∧ a = (K.queue i c).pushRing + 12 ∧
          K.readIdx i c m ≠ K.writeIdx i c m ∧
          v = (K.readIdx i c m + 1) % (K.queue i c).elemNum) ∨
        ∃ i c, K.Has i c ∧ ¬K.Managed i c ∧ a = K.ctrl i c + 8)
  | .load _ _, _ => True
  | .memcpyFrom _ _, _ => True
  | .poolsOutOfBounds _, _ => True
  | .rxCb _ _ _ _ _ _, _ => True
  | .rxCbUnmanaged _ _ _ _ _, _ => True
  | .ipcHwIrqEnable _, _ => True
  | _, _ => False

/-- Reception among the others, until an exchange meets `stop`. -/
def drvReading (stop : (o : Op) → ByteMem → o.Ret → Prop) :
    (o : Op) → (o.Ret → ByteMem → Prop) → ByteMem → Prop :=
  Program.awaiting K.Asks (Program.interfered K.Meanwhile Op.Answers) stop

/-- `stop` is met where a channel is looked at and found empty. -/
def StopsEmpty (stop : (o : Op) → ByteMem → o.Ret → Prop) (i c : ℕ) : Prop :=
  ∀ m, K.writeIdx i c m = K.readIdx i c m →
    stop (.load 4 ((K.queue i c).popRing + 8)) m (K.writeIdx i c m)

/-- **A channel is looked at and found empty.** -/
def FindsEmpty (i c : ℕ) : (o : Op) → ByteMem → o.Ret → Prop
  | .load n a, m, v => n = 4 ∧ a = (K.queue i c).popRing + 8 ∧ v = K.readIdx i c m
  | _, _, _ => False

variable {K} {stop : (o : Op) → ByteMem → o.Ret → Prop} {α : Type} {i c : ℕ} {m m' : ByteMem}

theorem stopsEmpty_findsEmpty : K.StopsEmpty (K.FindsEmpty i c) i c := fun _ h => ⟨rfl, rfl, h⟩

/-- It is empty then. -/
theorem FindsEmpty.waiting_eq_zero {o : Op} {r : o.Ret} (h : K.FindsEmpty i c o m r)
    (hr : o.Answers m r m') : K.waiting i c m' = 0 := by
  cases o with
  | load n a =>
    obtain ⟨rfl, rfl, hv⟩ := h
    obtain ⟨hval, rfl⟩ := hr
    have heq : K.writeIdx i c m' = K.readIdx i c m' := hval.symm.trans hv
    rw [waiting, heq, Cyclic.dist_self]
  | _ => exact False.elim h

theorem monotone_drvReading : Program.MonotoneReading (K.drvReading stop) :=
  Program.monotone_awaiting

/-- **What a request does to memory**: the instances go on standing, and no ring
gets longer. -/
theorem Standing.answers {o : Op} {r : o.Ret} (h : K.Standing m) (ha : K.Asks o m)
    (hr : o.Answers m r m') :
    K.Standing m' ∧ ∀ i c, K.Managed i c → K.waiting i c m' ≤ K.waiting i c m := by
  have hsame : ∀ {m' : ByteMem}, m' = m →
      K.Standing m' ∧ ∀ i c, K.Managed i c → K.waiting i c m' ≤ K.waiting i c m := by
    rintro _ rfl
    exact ⟨h, fun _ _ _ => Nat.le_refl _⟩
  cases o with
  | store n a v =>
    obtain ⟨rfl, ⟨i, c, hc, rfl, hne, rfl⟩ | ⟨i, c, hc, hu, rfl⟩⟩ := ha
    · obtain ⟨hm', hpop, hrest⟩ := h.pop hc hne hr
      refine ⟨hm', fun j c' hj => ?_⟩
      by_cases heq : j = i ∧ c' = c
      · obtain ⟨rfl, rfl⟩ := heq
        omega
      · exact Nat.le_of_eq (hrest j c' hj heq).2
    · obtain ⟨hlater, hwait⟩ := h.umem hc hu hr
      exact ⟨hlater.standing, fun j c' hj => Nat.le_of_eq (hwait j c' hj)⟩
  | load n a => exact hsame hr.2
  | memcpyFrom a n => exact hsame hr.2
  | poolsOutOfBounds _ => exact hsame hr
  | rxCb _ _ _ _ _ _ => exact hsame hr
  | rxCbUnmanaged _ _ _ _ _ => exact hsame hr
  | ipcHwIrqEnable _ => exact hsame hr
  | _ => exact False.elim ha

/-- A request that leaves memory alone. -/
theorem wp_silent {o : Op} {k : o.Ret → Drv α} {Q : α → ByteMem → Prop} (hm : K.Standing m)
    (hask : K.Asks o m) (hans : ∀ r m', o.Answers m r m' → m' = m)
    (hk : ∀ r m', o.Answers m r m → K.Later m m' → (k r).wp (K.drvReading stop) Q m') :
    (Program.op o k).wp (K.drvReading stop) Q m := by
  refine ⟨hask, ?_⟩
  rintro r m' ⟨m₁, hr, hlater⟩
  obtain rfl := hans r m₁ hr
  exact Or.inr (hk r m' hr (hlater hm))

/-- A word is loaded, which may be where things stop. -/
theorem wp_look {n a : ℕ} {k : ℕ → Drv α} {Q : α → ByteMem → Prop} (hm : K.Standing m)
    (hk : ∀ m', K.Later m m' → stop (.load n a) m (m.load n a) ∨
      (k (m.load n a)).wp (K.drvReading stop) Q m') :
    (Program.op (.load n a) k).wp (K.drvReading stop) Q m := by
  refine ⟨trivial, ?_⟩
  rintro v m' ⟨m₁, ⟨hv, hm₁⟩, hlater⟩
  subst hv hm₁
  exact hk m' (hlater hm)

theorem wp_load {n a : ℕ} {k : ℕ → Drv α} {Q : α → ByteMem → Prop} (hm : K.Standing m)
    (hk : ∀ m', K.Later m m' → (k (m.load n a)).wp (K.drvReading stop) Q m') :
    (Program.op (.load n a) k).wp (K.drvReading stop) Q m :=
  wp_look hm (fun m' hm' => Or.inr (hk m' hm'))

/-! ### Reception -/

theorem ipcQueueCheckIntegrity_wp {Q : ℤ → ByteMem → Prop} (hc : K.Managed i c)
    (hm : K.Standing m) (hQ : ∀ m', K.Later m m' → Q 0 m') :
    (ipcQueueCheckIntegrity (K.queue i c)).wp (K.drvReading stop) Q m := by
  rw [ipcQueueCheckIntegrity, load64_bind]
  refine wp_load hm (fun m₁ h₁ => ?_)
  rw [hm.popDone i c hc, if_pos rfl, load64_bind]
  refine wp_load h₁.standing (fun m₂ h₂ => ?_)
  rw [h₁.standing.pushDone i c hc, if_pos rfl]
  exact hQ m₂ (meanwhile_trans m m₁ m₂ (fun _ => h₁) (fun _ => h₂) hm)

/-- **A queue is popped.** In front of an empty ring that fails once it was looked
at, and otherwise the read index moves on. -/
theorem ipcQueuePop_rule {Q : ℤ × List UInt8 → ByteMem → Prop} (hc : K.Managed i c)
    (hm : K.Standing m)
    (hempty : K.writeIdx i c m = K.readIdx i c m →
      stop (.load 4 ((K.queue i c).popRing + 8)) m (K.writeIdx i c m) ∨
        ∀ r m', K.Standing m' → Q r m')
    (htake : K.readIdx i c m ≠ K.writeIdx i c m →
      ∀ m₁ v, stop (.store 4 ((K.queue i c).pushRing + 12) v) m₁ () ∨
        ∀ bs m', K.Standing m' → Q (0, bs) m') :
    (ipcQueuePop (K.queue i c)).wp (K.drvReading stop) Q m := by
  have hn := hc.elemNum_lt
  rw [ipcQueuePop, if_neg hc.not_null, load32_bind]
  refine wp_look hm (fun m₁ h₁ => ?_)
  by_cases hlook : stop (.load 4 ((K.queue i c).popRing + 8)) m (K.writeIdx i c m)
  · exact Or.inl hlook
  refine Or.inr ?_
  have hw : m.load 4 ((K.queue i c).popRing + 8) < (K.queue i c).elemNum := hm.write_lt i c hc
  have hr : m₁.load 4 ((K.queue i c).pushRing + 12) = K.readIdx i c m := h₁.read_eq i c hc
  rw [load32_bind]
  refine wp_load h₁.standing (fun m₂ h₂ => ?_)
  rw [hr, Program.wp_bind]
  refine ipcQueueCheckIntegrity_wp hc h₂.standing (fun m₃ h₃ => ?_)
  rw [if_neg (by have := hm.read_lt i c hc; omega)]
  split
  · rename_i heq
    exact (hempty heq.symm).resolve_left hlook _ m₃ h₃.standing
  · rename_i hne
    rw [memcpyFrom_bind]
    refine wp_silent h₃.standing trivial (fun _ _ h => h.2) (fun bs m₄ _ h₄ => ?_)
    -- the message is still there, and the index where it was
    have hall : K.Later m m₄ := meanwhile_trans m m₁ m₄ (fun _ => h₁)
      (meanwhile_trans m₁ m₂ m₄ (fun _ => h₂) (meanwhile_trans m₂ m₃ m₄ (fun _ => h₃)
        (fun _ => h₄))) hm
    have hread := hall.read_eq i c hc
    have hne₄ : K.readIdx i c m₄ ≠ K.writeIdx i c m₄ :=
      (hall.standing.waiting_pos_iff hc).mp
        (Nat.lt_of_lt_of_le ((hm.waiting_pos_iff hc).mpr hne) (hall.waiting_le i c hc))
    have hlt := hm.read_lt i c hc
    rw [remU_of_pos hc.elemNum_pos, u32_of_lt (by omega), Program.pure_bind, store32_bind]
    refine ⟨⟨rfl, Or.inl ⟨i, c, hc, rfl, hne₄, by rw [hread]⟩⟩, ?_⟩
    rintro _ m₅ ⟨m₆, hstore, hlater₆⟩
    refine (htake hne m₄ _).imp_right (fun hQ => ?_)
    rw [← hread] at hstore
    have hpop := hall.standing.pop hc hne₄ hstore
    exact hQ bs m₅ (hlater₆ hpop.1).standing

/-- If that stops at an empty ring, there was a message. -/
theorem ipcQueuePop_wp (hc : K.Managed i c) (hm : K.Standing m) :
    (ipcQueuePop (K.queue i c)).wp (K.drvReading stop)
      (fun r m' => K.Standing m' ∧ (K.StopsEmpty stop i c → r.1 = 0)) m := by
  refine ipcQueuePop_rule hc hm (fun hempty => ?_) (fun _ _ _ => ?_)
  · by_cases hstop : K.StopsEmpty stop i c
    · exact Or.inl (hstop m hempty)
    · exact Or.inr (fun _ _ hm' => ⟨hm', fun h => absurd h hstop⟩)
  · exact Or.inr (fun _ _ hm' => ⟨hm', fun _ => rfl⟩)

theorem popBd_wp (hc : K.Managed i c) (hm : K.Standing m) :
    (popBd (K.queue i c)).wp (K.drvReading stop)
      (fun msg m' => K.Standing m' ∧ (K.StopsEmpty stop i c → msg ≠ none)) m := by
  rw [popBd, Program.wp_bind]
  refine Program.wp_mono monotone_drvReading _ (fun r m' hr => ?_) (ipcQueuePop_wp hc hm)
  obtain ⟨err, bs⟩ := r
  dsimp only
  split
  · rename_i he
    exact ⟨hr.1, fun hstop => absurd (hr.2 hstop) he⟩
  · exact ⟨hr.1, fun _ h => absurd h (Option.some_ne_none _)⟩

/-- A callback that is made under some condition. -/
theorem callback_wp (P : Prop) [Decidable P] (cb cbArg chanId buf size : ℕ) (hm : K.Standing m) :
    (if P then .op (.rxCb cb cbArg i chanId buf size) .pure else return () : Drv Unit).wp
      (K.drvReading stop) (fun _ m' => K.Standing m') m := by
  split
  · exact wp_silent hm trivial (fun _ _ h => h) (fun _ _ _ h => h.standing)
  · exact hm

/-- A message is handed to the application. -/
theorem handleBd_wp (bd : IpcShmBd) (hm : K.Standing m) :
    (handleBd K.d i c bd).wp (K.drvReading stop) (fun _ m' => K.Standing m') m := by
  rw [handleBd, Program.wp_bind]
  unfold IpcManagedChannel.poolAt
  split
  · exact callback_wp _ _ _ _ _ _ hm
  · exact wp_silent hm trivial (fun _ _ h => h)
      (fun _ _ _ h => callback_wp _ _ _ _ _ _ h.standing)

/-- The type of a channel is the configured one. -/
theorem Has.type_iff (hc : K.Has i c) :
    ((K.d.priv i).channels c).type = .unmanaged ↔ ¬K.Managed i c := by
  have hl := (K.laid i hc.1).chan c hc.2
  cases hch : (K.cfg i).chan c with
  | managed mc =>
    rw [hch] at hl
    rw [hl.1]
    exact ⟨fun h => absurd h (by decide), fun h => absurd ⟨hc.1, hc.2, mc, hch⟩ h⟩
  | unmanaged u =>
    rw [hch] at hl
    refine ⟨?_, fun _ => hl.1⟩
    rintro - ⟨-, -, mc, hm⟩
    rw [hch] at hm
    cases hm
  | invalid =>
    rw [hch] at hl
    exact False.elim hl

theorem Has.localMem_eq (hc : K.Has i c) (hu : ¬K.Managed i c) :
    ((K.d.priv i).channels c).localMem = K.ctrl i c := by
  have hl := (K.laid i hc.1).chan c hc.2
  cases hch : (K.cfg i).chan c with
  | managed mc => exact absurd ⟨hc.1, hc.2, mc, hch⟩ hu
  | unmanaged u =>
    rw [hch] at hl
    exact hl.2.localMem_eq
  | invalid =>
    rw [hch] at hl
    exact False.elim hl

/-- **A managed channel is drained**: to the end of its share, or until it is
found empty. -/
theorem drainChannel_awaits (hc : K.Managed i c) (hm : K.Standing m) (share : ℕ) :
    (drainChannel (popBd (K.queue i c)) (handleBd K.d i c) share 0).wp (K.drvReading stop)
      (fun w m' => w ≤ share ∧ K.Standing m' ∧ (K.StopsEmpty stop i c → w = share)) m := by
  refine Program.wp_mono monotone_drvReading _ (fun w m' hw => ?_)
    (drainChannel_rule monotone_drvReading (I := fun _ m => K.Standing m)
      (Q := fun _ m => K.Standing m ∧ ¬K.StopsEmpty stop i c) (fun k m hm => ?_) share 0 hm)
  · obtain ⟨-, hle, hfull, hdry⟩ := hw
    rw [Nat.zero_add] at hle hfull hdry
    rcases Nat.lt_or_eq_of_le hle with hlt | heq
    · exact ⟨hle, (hdry hlt).1, fun hstop => absurd hstop (hdry hlt).2⟩
    · exact ⟨hle, hfull heq, fun _ => heq⟩
  · refine Program.wp_mono monotone_drvReading _ (fun msg m' hmsg => ?_) (popBd_wp hc hm)
    exact ⟨fun hnone => ⟨hmsg.1, fun hstop => hmsg.2 hstop hnone⟩,
      fun bd _ => handleBd_wp bd hmsg.1⟩

theorem ipcCheckUchanIntegrity_wp (chan : IpcShmChannel) (hm : K.Standing m) :
    (ipcCheckUchanIntegrity chan).wp (K.drvReading stop) (fun _ m' => K.Standing m') m := by
  rw [ipcCheckUchanIntegrity, load32_bind]
  refine wp_load hm (fun m₁ h₁ => ?_)
  split
  · rw [load32_bind]
    refine wp_load h₁.standing (fun m₂ h₂ => ?_)
    split <;> exact h₂.standing
  · exact h₁.standing

/-- **A channel has its turn.** -/
theorem ipcChannelRx_wp (hc : K.Has i c) (hm : K.Standing m) (share : ℕ) :
    (ipcChannelRx K.d i c share).wp (K.drvReading stop) (fun w m' => w ≤ share ∧ K.Standing m' ∧
      (K.Managed i c → K.StopsEmpty stop i c → w = share)) m := by
  rw [ipcChannelRx]
  split
  · rename_i hu
    have hu := hc.type_iff.mp hu
    rw [Program.wp_bind]
    refine Program.wp_mono monotone_drvReading _ (fun err m₁ h₁ => ?_)
      (ipcCheckUchanIntegrity_wp _ hm)
    split
    · rw [load32_bind]
      refine wp_load h₁ (fun m₂ h₂ => ?_)
      rw [load32_bind]
      refine wp_load h₂.standing (fun m₃ h₃ => ?_)
      split
      · rw [store32_bind, hc.localMem_eq hu]
        refine ⟨⟨rfl, Or.inr ⟨i, c, hc, hu, rfl⟩⟩, ?_⟩
        rintro _ m₅ ⟨m₄, hstore, hlater⟩
        have h₅ := hlater (h₃.standing.umem hc hu hstore).1.standing
        refine Or.inr (wp_silent h₅.standing trivial (fun _ _ h => h) (fun _ m₆ _ h₆ => ?_))
        exact ⟨Nat.le_refl _, h₆.standing, fun hmng => absurd hmng hu⟩
      · exact ⟨Nat.zero_le _, h₃.standing, fun hmng => absurd hmng hu⟩
    · exact ⟨Nat.zero_le _, h₁, fun hmng => absurd hmng hu⟩
  · rename_i hmng
    have hmng : K.Managed i c := not_not.mp (fun hu => hmng (hc.type_iff.mpr hu))
    exact Program.wp_mono monotone_drvReading _ (fun w m' hw => ⟨hw.1, hw.2.1, fun _ => hw.2.2⟩)
      (drainChannel_awaits hmng hm share)

/-- **The rounds.** A channel that had its turn left more work. -/
theorem roundRule (hi : K.Serves i) (budget : ℕ) :
    RoundRule (K.drvReading stop)
      (fun _ _ c' more _ m => K.Standing m ∧
        ∀ c, K.Managed i c → K.StopsEmpty stop i c → c < c' → more = true)
      (ipcChannelRx K.d i) (K.d.priv i).numChannels budget where
  turn := by
    intro given share c' more work m hc' hshare hI
    rw [(K.laid i hi).numChannels_eq] at hc'
    refine Program.wp_mono monotone_drvReading _ (fun w m' hw => ⟨hw.1, hw.2.1, ?_⟩)
      (ipcChannelRx_wp ⟨hi, hc'⟩ hI.1 share)
    intro c hc hstop hlt
    rw [Bool.or_eq_true, decide_eq_true_eq]
    rcases Nat.lt_or_eq_of_le (Nat.le_of_lt_succ hlt) with h | rfl
    · exact Or.inl (hI.2 c hc hstop h)
    · exact Or.inr (hw.2.2 hc hstop)
  next := fun _ _ _ _ _ hI => ⟨hI.1, fun _ _ _ h => absurd h (Nat.not_lt_zero _)⟩

theorem ipcInstanceIsFree_wp (hi : K.Serves i) (hm : K.Standing m) :
    (ipcInstanceIsFree K.d i).wp (K.drvReading stop)
      (fun state m' => state = .used ∧ K.Standing m') m := by
  have hglobal : (K.d.priv i).global ≠ 0 := by
    rw [(K.laid i hi).global_eq]
    exact Nat.pos_iff_ne_zero.mp (K.μ i).localShm_pos
  rw [ipcInstanceIsFree, if_neg (Nat.not_le.mpr (K.serves_lt i hi)), if_neg hglobal, load64_bind]
  refine wp_load hm (fun m₁ h₁ => ?_)
  rw [if_neg (hm.used i hi)]
  exact ⟨rfl, h₁.standing⟩

/-- **Reception uses up its budget**, unless it stops at a channel found
empty. -/
theorem ipcShmRx_wp (hi : K.Serves i) (hm : K.Standing m) :
    (ipcShmRx K.d i ipcSoftirqBudget).wp (K.drvReading stop)
      (fun w m' => K.Standing m' ∧ w < 2 ^ 31 ∧
        ∀ c, K.Managed i c → K.StopsEmpty stop i c → ipcSoftirqBudget ≤ w) m := by
  have hl := K.laid i hi
  have hpos : 0 < (K.d.priv i).numChannels := by
    rw [hl.numChannels_eq]
    exact K.numChannels_pos i hi
  have hnum : (K.d.priv i).numChannels < 2 ^ 8 := by
    rw [hl.numChannels_eq]
    exact (K.cfg i).numChannels.toNat_lt
  rw [ipcShmRx, Program.wp_bind]
  refine Program.wp_mono monotone_drvReading _ (fun state m₁ h₁ => ?_) (ipcInstanceIsFree_wp hi hm)
  rw [if_neg (not_not.mpr h₁.1)]
  refine Program.wp_mono monotone_drvReading _ (fun w m' hw => ?_)
    (rxRounds_call monotone_drvReading (roundRule hi _) hpos _
      (show ipcSoftirqBudget + _ < _ by unfold ipcSoftirqBudget; omega)
      ⟨h₁.2, fun _ _ _ _ => rfl⟩)
  obtain ⟨hle, given, share, more, hI, hdone, -⟩ := hw
  refine ⟨hI.1, by unfold ipcSoftirqBudget at hle; omega, fun c hc hstop => ?_⟩
  by_contra hlt
  have hc' : c < (K.d.priv i).numChannels := by
    rw [hl.numChannels_eq]
    exact hc.2.1
  have hmore := hI.2 c hc hstop hc'
  rw [hdone (Nat.not_le.mp hlt)] at hmore
  exact absurd hmore (by decide)

end IrqInstances
