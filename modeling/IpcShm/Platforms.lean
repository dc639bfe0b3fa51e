import Mathlib.Data.List.GetD
import Mathlib.Data.List.Nodup
import IpcShm.Doorbells

/-!
# The platforms

The driver is built for one of several processors, each with a HW layer of its
own. `s32gen1` is the one the rest of the development is about. `s32g3xx` has the
same functions over larger tables: more cores, which are not numbered in one
piece, and more lines, whose registers lie in several places. `s32r47` is another
program for the same purpose. It has DSP cores, keeps no table of registers – a
line is its own index – and writes the cores of an instance before it checks the
rest of the configuration. What its functions do to the registers is still what
those of `s32gen1` do, once the index of a line is taken for a table
(`HwLayer.View`), so that the facts about registers are proved once.

All three let instances ring and silence bells (`platform_refines_doorbells`), and
a line that no instance has is left alone by all of them (`platform_lines_apart`),
whatever they are configured with and whatever has failed before. A configuration
for the smaller processor means the same on the larger one (`s32g3xx_extends`).
-/

/-! ## The lines of a layer -/

/-- **The data of an instance are those of its setup**: its registers are those of
the lines it is set up with. -/
structure Lines.Keeps (P : Lines) (p : HwInstance) (c : Setup) : Prop where
  tx : p.mscmTxIrq = irqOf c.tx
  rx : p.mscmRxIrq = irqOf c.rx
  msiTx : ∀ l ∈ c.tx, p.msiTxIrq = P.msi l
  msiRx : ∀ l ∈ c.rx, p.msiRxIrq = P.msi l
  spi : ∀ l ∈ c.rx, p.spiIndex = P.spi l
  localCore : p.localCore = c.localCore
  remoteCore : p.remoteCore = c.remoteCore

namespace KernelHw

variable {P : Lines} {h : KernelHw} {inst : ℕ} {c : Setup} {cfg : IpcShmCfg}

/-! ### The functions -/

theorem mscm_route (hk : P.Keeps (h.priv inst) c) (f : UInt16 → UInt16) :
    (h.route inst f).mscm = P.route c.rx f h.mscm := by
  unfold route
  cases hc : c.rx with
  | none =>
    rw [if_neg (not_not.mpr (eq_none_of_irqOf hk.rx hc))]
    rfl
  | some l =>
    rw [if_pos (ne_none_of_irqOf hk.rx hc), hk.spi l hc]
    rfl

theorem mscm_notify (hk : P.Keeps (h.priv inst) c) :
    (h.ipcHwIrqNotify inst).mscm =
      P.status c.tx c.remoteCore (· ||| 1 <<< h.mscm.cpxnum) h.mscm := by
  unfold ipcHwIrqNotify
  dsimp only
  cases hc : c.tx with
  | none =>
    rw [if_neg (not_not.mpr (eq_none_of_irqOf hk.tx hc))]
    rfl
  | some l =>
    rw [if_pos (ne_none_of_irqOf hk.tx hc), hk.msiTx l hc, hk.remoteCore]
    rfl

theorem mscm_clear (hk : P.Keeps (h.priv inst) c) :
    (h.ipcHwIrqClear inst).mscm =
      P.status c.rx c.localCore (· &&& ~~~(1 <<< UInt32.ofNat c.remoteCore)) h.mscm := by
  unfold ipcHwIrqClear
  dsimp only
  cases hc : c.rx with
  | none =>
    rw [if_neg (not_not.mpr (eq_none_of_irqOf hk.rx hc))]
    rfl
  | some l =>
    rw [if_pos (ne_none_of_irqOf hk.rx hc), hk.msiRx l hc, hk.localCore, hk.remoteCore]
    rfl

theorem keeps_of_priv_eq {h' : KernelHw} (heq : h'.priv = h.priv) (j : ℕ) (c : Setup)
    (hk : P.Keeps (h.priv j) c) : P.Keeps (h'.priv j) c := by
  rw [heq]
  exact hk

/-! ### Initialization -/

theorem setPriv_setPriv (p q : HwInstance) :
    (h.setPriv inst p).setPriv inst q = h.setPriv inst q := by
  unfold setPriv
  rw [Function.update_idem]

/-- **How an initialization ends.** It fails with the registers as they were, or
keeps the data of a setup, turns its line off and comes to the trusted cores. -/
inductive InitEnds (P : Lines) (cfg : IpcShmCfg) (inst : ℕ) (h : KernelHw) : ℤ × KernelHw → Prop
  | refused {err : ℤ} (he : err ≠ 0) (p : HwInstance) :
      InitEnds P cfg inst h (err, h.setPriv inst p)
  | trusts {p : HwInstance} (hp : ∃ c, P.SetUp cfg c ∧ P.Keeps p c) (trusted : UInt32) :
      InitEnds P cfg inst h (((h.setPriv inst p).ipcHwIrqDisable inst).enableTrusted trusted)

/-- The line of an instance that was set up is off. -/
theorem mscm_disable {p : HwInstance} (hk : P.Keeps p c) :
    ((h.setPriv inst p).ipcHwIrqDisable inst).mscm =
      P.route c.rx (· &&& ~~~ipcMscmIrsprcGic500) h.mscm :=
  mscm_route (by rw [setPriv_self]; exact hk) _

/-- The last part of an initialization changes the configuration register at
most. -/
theorem enableTrusted_mscm (trusted : UInt32) :
    ((h.enableTrusted trusted).1 = 0 → ∃ x, (h.enableTrusted trusted).2.mscm =
      { h.mscm with ircpcfg := x }) ∧
    ((h.enableTrusted trusted).1 ≠ 0 → (h.enableTrusted trusted).2.mscm = h.mscm) := by
  unfold enableTrusted
  split
  · exact ⟨fun h0 => absurd h0 (show -EACCES ≠ 0 by decide), fun _ => rfl⟩
  · exact ⟨fun _ => ⟨_, rfl⟩, fun h0 => absurd rfl h0⟩

variable {r : ℤ × KernelHw}

/-- The data of the other instances stay. -/
theorem InitEnds.keeps_of_ne (he : InitEnds P cfg inst h r) {j : ℕ} (hj : j ≠ inst)
    (hk : P.Keeps (h.priv j) c) : P.Keeps (r.2.priv j) c := by
  have hpriv : ∀ p, (h.setPriv inst p).priv j = h.priv j := fun p =>
    Function.update_of_ne hj _ _
  cases he with
  | refused _ p => rwa [hpriv]
  | trusts _ _ => rwa [enableTrusted_priv, ipcHwIrqDisable, route_priv, hpriv]

theorem InitEnds.of_eq_zero (he : InitEnds P cfg inst h r) (h0 : r.1 = 0) :
    ∃ c x, P.SetUp cfg c ∧ P.Keeps (r.2.priv inst) c ∧
      r.2.mscm = { P.route c.rx (· &&& ~~~ipcMscmIrsprcGic500) h.mscm with ircpcfg := x } := by
  cases he with
  | refused hne _ => exact absurd h0 hne
  | @trusts p hp trusted =>
    obtain ⟨c, hc, hk⟩ := hp
    obtain ⟨x, hx⟩ := (enableTrusted_mscm trusted).1 h0
    refine ⟨c, x, hc, ?_, ?_⟩
    · rw [enableTrusted_priv, ipcHwIrqDisable, route_priv, setPriv_self]
      exact hk
    · rw [hx, mscm_disable hk]

theorem InitEnds.of_ne_zero (he : InitEnds P cfg inst h r) (h0 : r.1 ≠ 0) :
    ∃ rx : Option ℕ, (∀ l ∈ rx, l < P.count) ∧
      r.2.mscm = P.route rx (· &&& ~~~ipcMscmIrsprcGic500) h.mscm := by
  cases he with
  | refused _ p => exact ⟨none, fun l hl => absurd hl (Option.not_mem_none l), rfl⟩
  | @trusts p hp trusted =>
    obtain ⟨c, hc, hk⟩ := hp
    -- the configuration is locked, which is found out after the line was turned off
    refine ⟨c.rx, hc.rx_lt, ?_⟩
    rw [(enableTrusted_mscm trusted).2 h0, mscm_disable hk]

end KernelHw

/-- **A layer seen as one of `s32gen1`**: its functions do to the view what those of
`s32gen1` do, and an initialization ends like one of them. The registers that
`s32gen1` looks up in the data of an instance may be computed in the view. -/
structure HwLayer.View (L : HwLayer) (P : Lines) (view : L.State → KernelHw) : Prop where
  mscm : ∀ s, L.mscm s = (view s).mscm
  setMscm : ∀ r s, view (L.setMscm r s) = { view s with mscm := r }
  enable : ∀ s inst, view (L.ipcHwIrqEnable s inst) = (view s).ipcHwIrqEnable inst
  disable : ∀ s inst, view (L.ipcHwIrqDisable s inst) = (view s).ipcHwIrqDisable inst
  notify : ∀ s inst, view (L.ipcHwIrqNotify s inst) = (view s).ipcHwIrqNotify inst
  clear : ∀ s inst, view (L.ipcHwIrqClear s inst) = (view s).ipcHwIrqClear inst
  init : ∀ s inst cfg addr, KernelHw.InitEnds P cfg inst (view s)
    ((L.ipcHwInitAt s inst cfg addr).1, view (L.ipcHwInitAt s inst cfg addr).2)

/-- **Such a layer lets instances ring and silence bells.** -/
theorem HwLayer.View.implements {L : HwLayer} {P : Lines} {view : L.State → KernelHw}
    (h : L.View P view) : L.Implements P (fun s j c => P.Keeps ((view s).priv j) c) where
  setMscm := fun s r => by
    rw [h.mscm, h.setMscm]
    exact ⟨rfl, fun _ _ hk => hk⟩
  init := fun s inst cfg addr h0 => by
    rw [h.mscm, h.mscm]
    exact (h.init s inst cfg addr).of_eq_zero h0
  initFails := fun s inst cfg addr h0 => by
    rw [h.mscm, h.mscm]
    exact (h.init s inst cfg addr).of_ne_zero h0
  init_of_ne := fun s inst cfg addr j c hj hk => (h.init s inst cfg addr).keeps_of_ne hj hk
  enable := fun s inst c hk => by
    rw [h.mscm, h.mscm, h.enable]
    exact ⟨KernelHw.mscm_route hk _, KernelHw.keeps_of_priv_eq (KernelHw.route_priv _ _)⟩
  disable := fun s inst c hk => by
    rw [h.mscm, h.mscm, h.disable]
    exact ⟨KernelHw.mscm_route hk _, KernelHw.keeps_of_priv_eq (KernelHw.route_priv _ _)⟩
  notify := fun s inst c hk => by
    rw [h.mscm, h.mscm, h.notify]
    exact ⟨KernelHw.mscm_notify hk, KernelHw.keeps_of_priv_eq (KernelHw.ipcHwIrqNotify_priv _)⟩
  clear := fun s inst c hk => by
    rw [h.mscm, h.mscm, h.clear]
    exact ⟨KernelHw.mscm_clear hk, KernelHw.keeps_of_priv_eq (KernelHw.ipcHwIrqClear_priv _)⟩

/-! ## Layers with tables -/

/-- The number of a core among those of its type. -/
def IpcShmCoreIndex.pos : IpcShmCoreIndex → Option ℕ
  | .index0 => some 0
  | .index1 => some 1
  | .index2 => some 2
  | .index3 => some 3
  | .index4 => some 4
  | .index5 => some 5
  | .index6 => some 6
  | .index7 => some 7
  | .invalid => none

/-- **The tables of a layer**: the processors of the cores of each type, and the
registers of the lines. -/
structure HwTables where
  a53 : List ℕ
  m7 : List ℕ
  /-- `IPC_MSCM_IRCPCFG_A53_TR`. -/
  a53Tr : UInt32
  /-- The bits of the configuration register for a mask of trusted cores. -/
  trustCores : UInt32 → UInt32
  /-- `msi_tx_irq` for each interrupt. -/
  tx : List ℕ
  /-- `spi_index` and `msi_rx_irq` for each. -/
  rx : List (ℕ × ℕ)
  cpCount : ℕ
  irqCount : ℕ
  irsprcCount : ℕ
  cpCount_le : cpCount ≤ 32
  a53_lt : ∀ n ∈ a53, n < cpCount
  m7_lt : ∀ n ∈ m7, n < cpCount
  default_lt : 4 < cpCount
  tx_eq : tx = rx.map Prod.snd
  spi_lt : ∀ p ∈ rx, p.1 < irsprcCount
  msi_lt : ∀ p ∈ rx, p.2 < irqCount
  spi_nodup : (rx.map Prod.fst).Nodup
  msi_nodup : (rx.map Prod.snd).Nodup

/-- The layers that share everything but the initialization. -/
def KernelHw.layer (ipcHwInitAt : KernelHw → ℕ → IpcShmCfg → ℕ → ℤ × KernelHw) : HwLayer where
  State := KernelHw
  mscm := KernelHw.mscm
  setMscm := fun r h => { h with mscm := r }
  ipcHwInitAt := ipcHwInitAt
  ipcHwIrqEnable := KernelHw.ipcHwIrqEnable
  ipcHwIrqDisable := KernelHw.ipcHwIrqDisable
  ipcHwIrqNotify := KernelHw.ipcHwIrqNotify
  ipcHwIrqClear := KernelHw.ipcHwIrqClear

namespace HwTables

variable (T : HwTables)

/-- The index of the local core, `IPC_DEFAULT_LOCAL_CORE` by default. -/
def localCoreIdx (core : IpcShmLocalCore) : Option ℕ :=
  match core.type with
  | .a53 => core.index.pos.bind (T.a53[·]?)
  | .default => some 0
  | _ => none

/-- The index of the remote core, `IPC_DEFAULT_REMOTE_CORE` by default. -/
def remoteCoreIdx (core : IpcShmRemoteCore) : Option ℕ :=
  match core.type with
  | .a53 => core.index.pos.bind (T.a53[·]?)
  | .m7 => core.index.pos.bind (T.m7[·]?)
  | .default => some 4
  | _ => none

/-- The trusted cores are A53 cores, and the local one is among them. -/
def TrustedOk (trusted : UInt32) (localCore : ℕ) : Prop :=
  ¬(trusted = 0 ∨ trusted &&& ~~~T.a53Tr ≠ 0 ∨
    (1 <<< UInt32.ofNat localCore) &&& ~~~trusted ≠ 0)

instance instDecidableTrustedOk (trusted : UInt32) (localCore : ℕ) :
    Decidable (T.TrustedOk trusted localCore) :=
  inferInstanceAs (Decidable (¬(_ ∨ _ ∨ _)))

/-- What a table has for an interrupt, if it has one. -/
def lookup {α : Type} (table : List α) (irq : ℤ) : Option (Option α) :=
  if irq = ipcIrqNone then some none
  else if 0 ≤ irq then table[irq.toNat]?.map some
  else none

/-- What is kept of the interrupts and cores of an instance. -/
def withLine (p : HwInstance) (cfg : IpcShmCfg) (rx : Option (ℕ × ℕ))
    (localCore remoteCore : ℕ) : HwInstance :=
  { p with
    spiIndex := (rx.map Prod.fst).getD p.spiIndex
    msiRxIrq := (rx.map Prod.snd).getD p.msiRxIrq
    mscmTxIrq := cfg.interCoreTxIrq
    mscmRxIrq := cfg.interCoreRxIrq
    localCore := localCore
    remoteCore := remoteCore }

/-- `_ipc_hw_init` over the tables. -/
def hwInitAt (h : KernelHw) (inst : ℕ) (cfg : IpcShmCfg) (periphAddr : ℕ) : ℤ × KernelHw :=
  if periphAddr = 0 then
    (-EINVAL, h)
  else
    let h := h.setPriv inst { h.priv inst with ipcMscm := periphAddr }
    let trustCores := T.trustCores cfg.localCore.trusted
    match T.localCoreIdx cfg.localCore with
    | none => (-EINVAL, h)
    | some localCore =>
      if ¬T.TrustedOk trustCores localCore then
        (-EINVAL, h)
      else
        match T.remoteCoreIdx cfg.remoteCore with
        | none => (-EINVAL, h)
        | some remoteCore =>
          if ¬CoresOk h.mscm cfg localCore remoteCore then
            (-EINVAL, h)
          else
            match lookup T.tx cfg.interCoreTxIrq with
            | none => (-EINVAL, h)
            | some tx =>
              let h := h.setPriv inst
                { h.priv inst with msiTxIrq := tx.getD (h.priv inst).msiTxIrq }
              match lookup T.rx cfg.interCoreRxIrq with
              | none => (-EINVAL, h)
              | some rx =>
                let h := h.setPriv inst (withLine (h.priv inst) cfg rx localCore remoteCore)
                (h.ipcHwIrqDisable inst).enableTrusted trustCores

/-! ### The lines -/

/-- Entries of a table with different values are different ones. -/
theorem eq_of_nodup_map {α β : Type} {f : α → β} {table : List α} (h : (table.map f).Nodup)
    {l l' : ℕ} (hl : l < table.length) (hl' : l' < table.length) (heq : f table[l] = f table[l']) :
    l = l' := by
  have hentry := List.inj_on_of_nodup_map h (List.getElem_mem hl) (List.getElem_mem hl') heq
  exact (List.Nodup.getElem_inj_iff (List.Nodup.of_map f h)).mp hentry

theorem localCoreIdx_lt (core : IpcShmLocalCore) (n : ℕ) (hn : n ∈ T.localCoreIdx core) :
    n < T.cpCount := by
  rw [Option.mem_def] at hn
  unfold localCoreIdx at hn
  split at hn
  · obtain ⟨k, -, hk⟩ := Option.bind_eq_some_iff.mp hn
    exact T.a53_lt n (List.mem_of_getElem? hk)
  · obtain rfl := Option.some.inj hn
    exact Nat.lt_of_lt_of_le (by decide) T.default_lt
  · exact absurd hn (Option.some_ne_none n).symm

theorem remoteCoreIdx_lt (core : IpcShmRemoteCore) (n : ℕ) (hn : n ∈ T.remoteCoreIdx core) :
    n < T.cpCount := by
  rw [Option.mem_def] at hn
  unfold remoteCoreIdx at hn
  split at hn
  · obtain ⟨k, -, hk⟩ := Option.bind_eq_some_iff.mp hn
    exact T.a53_lt n (List.mem_of_getElem? hk)
  · obtain ⟨k, -, hk⟩ := Option.bind_eq_some_iff.mp hn
    exact T.m7_lt n (List.mem_of_getElem? hk)
  · obtain rfl := Option.some.inj hn
    exact T.default_lt
  · exact absurd hn (Option.some_ne_none n).symm

/-- The lines the tables tell of. -/
def lines : Lines where
  count := T.rx.length
  msi := fun l => (T.rx.getD l (0, 0)).2
  spi := fun l => (T.rx.getD l (0, 0)).1
  localCore := T.localCoreIdx
  remoteCore := T.remoteCoreIdx
  cpCount := T.cpCount
  irqCount := T.irqCount
  irsprcCount := T.irsprcCount
  cpCount_le := T.cpCount_le
  msi_lt := fun l hl => by
    rw [List.getD_eq_getElem _ _ hl]
    exact T.msi_lt _ (List.getElem_mem hl)
  spi_lt := fun l hl => by
    rw [List.getD_eq_getElem _ _ hl]
    exact T.spi_lt _ (List.getElem_mem hl)
  msi_inj := fun l hl l' hl' heq => by
    rw [List.getD_eq_getElem _ _ hl, List.getD_eq_getElem _ _ hl'] at heq
    exact eq_of_nodup_map T.msi_nodup hl hl' heq
  spi_inj := fun l hl l' hl' heq => by
    rw [List.getD_eq_getElem _ _ hl, List.getD_eq_getElem _ _ hl'] at heq
    exact eq_of_nodup_map T.spi_nodup hl hl' heq
  localCore_lt := T.localCoreIdx_lt
  remoteCore_lt := T.remoteCoreIdx_lt

variable {T}

/-- An interrupt that a table has something for is a line of it. -/
theorem lookup_eq {α : Type} {table : List α} {irq : ℤ} {e : Option α}
    (h : lookup table irq = some e) : ∃ o : Option ℕ, irq = irqOf o ∧
      (∀ l ∈ o, l < table.length) ∧ e = o.bind (table[·]?) := by
  unfold lookup at h
  split at h
  · rename_i hnone
    refine ⟨none, hnone, fun l hl => absurd hl (Option.not_mem_none l), ?_⟩
    exact (Option.some.inj h).symm
  · split at h
    · rename_i hpos
      obtain ⟨x, hx, rfl⟩ := Option.map_eq_some_iff.mp h
      obtain ⟨hlt, -⟩ := List.getElem?_eq_some_iff.mp hx
      refine ⟨some irq.toNat, (Int.toNat_of_nonneg hpos).symm, fun l hl => ?_, hx.symm⟩
      rwa [← Option.some.inj hl]
    · exact absurd h (Option.some_ne_none e).symm

/-! ### Initialization -/

variable {cfg : IpcShmCfg}

/-- The entry of a line. -/
theorem entry_eq {α : Type} (f : ℕ × ℕ → α) {l : ℕ} (hl : l < T.rx.length) :
    (T.rx[l]?).map f = some (f (T.rx.getD l (0, 0))) := by
  rw [List.getElem?_eq_getElem hl, List.getD_eq_getElem _ _ hl]
  rfl

/-- The data that are kept of an accepted configuration are those of a setup. -/
theorem keeps_withLine {p : HwInstance} {tx : Option ℕ} {rx : Option (ℕ × ℕ)}
    {n localCore remoteCore : ℕ} (hp : p.msiTxIrq = tx.getD n)
    (hl : T.localCoreIdx cfg.localCore = some localCore)
    (hr : T.remoteCoreIdx cfg.remoteCore = some remoteCore)
    (htx : lookup T.tx cfg.interCoreTxIrq = some tx)
    (hrx : lookup T.rx cfg.interCoreRxIrq = some rx) :
    ∃ c, T.lines.SetUp cfg c ∧ T.lines.Keeps (withLine p cfg rx localCore remoteCore) c := by
  obtain ⟨t, ht, htlt, rfl⟩ := lookup_eq htx
  obtain ⟨r, hr', hrlt, rfl⟩ := lookup_eq hrx
  rw [T.tx_eq, List.length_map] at htlt
  refine ⟨⟨t, r, localCore, remoteCore⟩,
    ⟨ht, hr', hl, hr, htlt, hrlt⟩,
    ⟨ht, hr', fun l hlt => ?_, fun l hlt => ?_, fun l hlt => ?_, rfl, rfl⟩⟩
  · obtain rfl : t = some l := hlt
    show p.msiTxIrq = _
    rw [hp, Option.bind_some, T.tx_eq, List.getElem?_map, entry_eq _ (htlt l rfl)]
    rfl
  · obtain rfl : r = some l := hlt
    show ((T.rx[l]?).map Prod.snd).getD p.msiRxIrq = _
    rw [entry_eq _ (hrlt l rfl)]
    rfl
  · obtain rfl : r = some l := hlt
    show ((T.rx[l]?).map Prod.fst).getD p.spiIndex = _
    rw [entry_eq _ (hrlt l rfl)]
    rfl

theorem hwInitAt_ends (h : KernelHw) (inst : ℕ) (cfg : IpcShmCfg) (addr : ℕ) :
    KernelHw.InitEnds T.lines cfg inst h (T.hwInitAt h inst cfg addr) := by
  have hinval : -EINVAL ≠ 0 := by decide
  unfold hwInitAt
  split
  · have hsame : KernelHw.InitEnds T.lines cfg inst h (-EINVAL, h.setPriv inst (h.priv inst)) :=
      .refused hinval _
    rwa [KernelHw.setPriv, Function.update_eq_self] at hsame
  dsimp only
  cases hl : T.localCoreIdx cfg.localCore with
  | none => exact .refused hinval _
  | some localCore =>
    dsimp only
    split
    · exact .refused hinval _
    cases hr : T.remoteCoreIdx cfg.remoteCore with
    | none => exact .refused hinval _
    | some remoteCore =>
      dsimp only
      split
      · exact .refused hinval _
      cases htx : lookup T.tx cfg.interCoreTxIrq with
      | none => exact .refused hinval _
      | some tx =>
        dsimp only
        cases hrx : lookup T.rx cfg.interCoreRxIrq with
        | none =>
          rw [KernelHw.setPriv_setPriv]
          exact .refused hinval _
        | some rx =>
          simp only [KernelHw.setPriv_setPriv, KernelHw.setPriv_self]
          exact .trusts (keeps_withLine rfl hl hr htx hrx) _

/-- A layer with tables is its own view. -/
theorem layer_view (T : HwTables) : (KernelHw.layer T.hwInitAt).View T.lines (fun h => h) where
  mscm := fun _ => rfl
  setMscm := fun _ _ => rfl
  enable := fun _ _ => rfl
  disable := fun _ _ => rfl
  notify := fun _ _ => rfl
  clear := fun _ _ => rfl
  init := T.hwInitAt_ends

end HwTables

/-! ### The two of them -/

/-- The tables of `s32gen1`. -/
def s32gen1Tables : HwTables where
  a53 := [0, 1, 2, 3]
  m7 := [4, 5, 6]
  a53Tr := ipcMscmIrcpcfgA53Tr
  trustCores := fun trusted => trusted
  tx := [0, 1, 2]
  rx := [(1, 0), (2, 1), (3, 2)]
  cpCount := 7
  irqCount := 4
  irsprcCount := 240
  cpCount_le := by decide
  a53_lt := by decide
  m7_lt := by decide
  default_lt := by decide
  tx_eq := rfl
  spi_lt := by decide
  msi_lt := by decide
  spi_nodup := by decide
  msi_nodup := by decide

/-- The tables of `s32g3xx`. The trusted cores of the second cluster of A53 cores
have their bits above those of the M7 cores. -/
def s32g3xxTables : HwTables where
  a53 := [0, 1, 2, 3, 8, 9, 10, 11]
  m7 := [4, 5, 6, 7]
  a53Tr := 0xF0F
  trustCores := fun (trusted : UInt32) =>
    (trusted &&& (0x0000000F : UInt32)) ||| ((trusted &&& (0x000000F0 : UInt32)) <<< (4 : UInt32))
  tx := [0, 1, 2, 5, 6, 7, 8, 9, 10, 11, 12, 13]
  rx := [(1, 0), (2, 1), (3, 2), (22, 5), (23, 6), (68, 7), (69, 8), (164, 9), (165, 10),
    (166, 11), (167, 12), (168, 13)]
  cpCount := 12
  irqCount := 14
  irsprcCount := 240
  cpCount_le := by decide
  a53_lt := by decide
  m7_lt := by decide
  default_lt := by decide
  tx_eq := rfl
  spi_lt := by decide
  msi_lt := by decide
  spi_nodup := by decide
  msi_nodup := by decide

/-- `_ipc_hw_init` of `s32g3xx`. -/
def S32g3xx.ipcHwInitAt (h : KernelHw) (inst : ℕ) (cfg : IpcShmCfg) (periphAddr : ℕ) :
    ℤ × KernelHw :=
  s32g3xxTables.hwInitAt h inst cfg periphAddr

theorem localCoreIdx_s32gen1 (core : IpcShmLocalCore) :
    s32gen1Tables.localCoreIdx core = localCoreIdx core := by
  obtain ⟨type, index, trusted⟩ := core
  cases type <;> cases index <;> rfl

theorem remoteCoreIdx_s32gen1 (core : IpcShmRemoteCore) :
    s32gen1Tables.remoteCoreIdx core = remoteCoreIdx core := by
  obtain ⟨type, index⟩ := core
  cases type <;> cases index <;> rfl

theorem lookup_s32gen1 (irq : ℤ) : HwTables.lookup s32gen1Tables.tx irq = msiIndex irq ∧
    HwTables.lookup s32gen1Tables.rx irq =
      (msiIndex irq).map (Option.map fun m => (m + 1, m)) := by
  unfold HwTables.lookup msiIndex
  split
  · exact ⟨rfl, rfl⟩
  split
  · rename_i hpos
    obtain ⟨n, rfl⟩ := Int.eq_ofNat_of_zero_le hpos
    rcases n with _ | _ | _ | n
    · exact ⟨rfl, rfl⟩
    · exact ⟨rfl, rfl⟩
    · exact ⟨rfl, rfl⟩
    · rw [if_neg (by omega), if_neg (by omega), if_neg (by omega)]
      exact ⟨rfl, rfl⟩
  · rw [if_neg (by omega), if_neg (by omega), if_neg (by omega)]
    exact ⟨rfl, rfl⟩

theorem withLine_s32gen1 (p : HwInstance) (cfg : IpcShmCfg) (tx rx : Option ℕ)
    (localCore remoteCore n : ℕ) (hp : p.msiTxIrq = tx.getD n) :
    HwTables.withLine p cfg (rx.map fun m => (m + 1, m)) localCore remoteCore =
      KernelHw.withIrqs p cfg tx rx localCore remoteCore := by
  have htx : tx.getD p.msiTxIrq = p.msiTxIrq := by
    rw [hp]
    cases tx <;> rfl
  unfold HwTables.withLine KernelHw.withIrqs
  rw [htx]
  cases rx <;> rfl

/-- **The tables of `s32gen1` are those of its layer.** -/
theorem hwInitAt_s32gen1 (h : KernelHw) (inst : ℕ) (cfg : IpcShmCfg) (addr : ℕ) :
    s32gen1Tables.hwInitAt h inst cfg addr = h.ipcHwInitAt inst cfg addr := by
  unfold HwTables.hwInitAt KernelHw.ipcHwInitAt
  rw [localCoreIdx_s32gen1, remoteCoreIdx_s32gen1, (lookup_s32gen1 _).1, (lookup_s32gen1 _).2]
  split
  · rfl
  dsimp only
  cases localCoreIdx cfg.localCore with
  | none => rfl
  | some localCore =>
    dsimp only
    cases remoteCoreIdx cfg.remoteCore with
    | none => rfl
    | some remoteCore =>
      dsimp only
      cases msiIndex cfg.interCoreTxIrq with
      | none => rfl
      | some tx =>
        cases msiIndex cfg.interCoreRxIrq with
        | none => rfl
        | some rx =>
          simp only [Option.map_some]
          rw [withLine_s32gen1 _ _ tx _ _ _ _ (congrArg HwInstance.msiTxIrq
            (KernelHw.setPriv_self _ _))]
          rfl

/-! ### Larger tables -/

namespace HwTables

/-- **Tables that extend others**: what the others have comes first, and the masks
of trusted cores that the others accept mean the same. -/
structure Extends (T' T : HwTables) : Prop where
  a53 : T.a53 <+: T'.a53
  m7 : T.m7 <+: T'.m7
  tx : T.tx <+: T'.tx
  rx : T.rx <+: T'.rx
  trustCores : ∀ t, T.trustCores t &&& ~~~T.a53Tr = 0 →
    T'.trustCores t = T.trustCores t ∧ T.trustCores t &&& ~~~T'.a53Tr = 0

variable {T T' : HwTables}

theorem getElem?_mono {α : Type} {a b : List α} (h : a <+: b) {n : ℕ} {x : α}
    (hx : a[n]? = some x) : b[n]? = some x := by
  obtain ⟨hlt, rfl⟩ := List.getElem?_eq_some_iff.mp hx
  exact List.prefix_iff_getElem?.mp h n hlt

theorem bind_mono {a b : List ℕ} (h : a <+: b) {o : Option ℕ} {x : ℕ}
    (hx : o.bind (a[·]?) = some x) : o.bind (b[·]?) = some x := by
  obtain ⟨n, ho, hn⟩ := Option.bind_eq_some_iff.mp hx
  exact Option.bind_eq_some_iff.mpr ⟨n, ho, getElem?_mono h hn⟩

theorem lookup_mono {α : Type} {a b : List α} (h : a <+: b) {irq : ℤ} {e : Option α}
    (he : lookup a irq = some e) : lookup b irq = some e := by
  unfold lookup at he ⊢
  split
  · rename_i hnone
    rwa [if_pos hnone] at he
  · rename_i hsome
    rw [if_neg hsome] at he
    split
    · rename_i hpos
      rw [if_pos hpos] at he
      obtain ⟨x, hx, rfl⟩ := Option.map_eq_some_iff.mp he
      rw [getElem?_mono h hx]
      rfl
    · rename_i hneg
      rwa [if_neg hneg] at he

theorem Extends.localCoreIdx (h : T'.Extends T) {core : IpcShmLocalCore} {n : ℕ}
    (hn : T.localCoreIdx core = some n) : T'.localCoreIdx core = some n := by
  unfold HwTables.localCoreIdx at hn ⊢
  cases ht : core.type with
  | a53 =>
    rw [ht] at hn
    exact bind_mono h.a53 hn
  | _ =>
    rw [ht] at hn
    exact hn

theorem Extends.remoteCoreIdx (h : T'.Extends T) {core : IpcShmRemoteCore} {n : ℕ}
    (hn : T.remoteCoreIdx core = some n) : T'.remoteCoreIdx core = some n := by
  unfold HwTables.remoteCoreIdx at hn ⊢
  cases ht : core.type with
  | a53 =>
    rw [ht] at hn
    exact bind_mono h.a53 hn
  | m7 =>
    rw [ht] at hn
    exact bind_mono h.m7 hn
  | _ =>
    rw [ht] at hn
    exact hn

theorem Extends.trustedOk (h : T'.Extends T) {t : UInt32} {localCore : ℕ}
    (ht : T.TrustedOk (T.trustCores t) localCore) :
    T'.trustCores t = T.trustCores t ∧ T'.TrustedOk (T'.trustCores t) localCore := by
  obtain ⟨hne, hmask, hlocal⟩ := not_or.mp ht |>.imp_right not_or.mp
  obtain ⟨heq, hmask'⟩ := h.trustCores t (not_not.mp hmask)
  refine ⟨heq, ?_⟩
  rw [heq]
  exact not_or.mpr ⟨hne, not_or.mpr ⟨not_not.mpr hmask', hlocal⟩⟩

/-- **A configuration means the same** over larger tables. -/
theorem Extends.hwInitAt (hext : T'.Extends T) {h : KernelHw} {inst : ℕ} {cfg : IpcShmCfg}
    {addr : ℕ} (hok : (T.hwInitAt h inst cfg addr).1 ≠ -EINVAL) :
    T'.hwInitAt h inst cfg addr = T.hwInitAt h inst cfg addr := by
  unfold HwTables.hwInitAt at hok ⊢
  split
  · rfl
  rename_i haddr
  rw [if_neg haddr] at hok
  dsimp only at hok ⊢
  cases hl : T.localCoreIdx cfg.localCore with
  | none =>
    rw [hl] at hok
    exact absurd rfl hok
  | some localCore =>
    rw [hl] at hok
    rw [hext.localCoreIdx hl]
    dsimp only at hok ⊢
    by_cases ht : T.TrustedOk (T.trustCores cfg.localCore.trusted) localCore
    case neg =>
      rw [if_pos ht] at hok
      exact absurd rfl hok
    obtain ⟨heq, ht'⟩ := hext.trustedOk ht
    rw [if_neg (not_not.mpr ht)] at hok
    rw [if_neg (not_not.mpr ht), if_neg (not_not.mpr ht'), heq]
    cases hr : T.remoteCoreIdx cfg.remoteCore with
    | none =>
      rw [hr] at hok
      exact absurd rfl hok
    | some remoteCore =>
      rw [hr] at hok
      rw [hext.remoteCoreIdx hr]
      dsimp only at hok ⊢
      split
      · rfl
      rename_i hcores
      rw [if_neg hcores] at hok
      cases htx : lookup T.tx cfg.interCoreTxIrq with
      | none =>
        rw [htx] at hok
        exact absurd rfl hok
      | some tx =>
        rw [htx] at hok
        rw [lookup_mono hext.tx htx]
        dsimp only at hok ⊢
        cases hrx : lookup T.rx cfg.interCoreRxIrq with
        | none =>
          rw [hrx] at hok
          exact absurd rfl hok
        | some rx => rw [lookup_mono hext.rx hrx]

end HwTables

/-- A mask inside another one is not above it. -/
theorem UInt32.toNat_le_of_and_not {t m : UInt32} (h : t &&& ~~~m = 0) : t.toNat ≤ m.toNat := by
  have hself : t &&& m = t := by
    rw [← UInt32.toBitVec_inj] at h ⊢
    have hall : t.toBitVec &&& (m.toBitVec ||| ~~~m.toBitVec) = t.toBitVec := by
      rw [BitVec.or_not_self, BitVec.and_allOnes]
    rw [BitVec.and_or_distrib_left] at hall
    have h0 : t.toBitVec &&& ~~~m.toBitVec = 0#32 := h
    rwa [h0, BitVec.or_zero] at hall
  rw [← hself, UInt32.toNat_and]
  exact Nat.and_le_right

theorem s32g3xxTables_extends : s32g3xxTables.Extends s32gen1Tables where
  a53 := by decide
  m7 := by decide
  tx := by decide
  rx := by decide
  trustCores := fun t ht => by
    have hle : t.toNat ≤ 15 := UInt32.toNat_le_of_and_not ht
    have hsmall : ∀ n ≤ 15, s32g3xxTables.trustCores (UInt32.ofNat n) = UInt32.ofNat n ∧
        UInt32.ofNat n &&& ~~~s32g3xxTables.a53Tr = 0 := by decide
    have := hsmall t.toNat hle
    rwa [UInt32.ofNat_toNat] at this

/-- **A configuration of `s32gen1` means the same on `s32g3xx`**: whatever is not
rejected there is done here in the same way, to the same registers. -/
theorem s32g3xx_extends {h : KernelHw} {inst : ℕ} {cfg : IpcShmCfg} {addr : ℕ}
    (hok : (h.ipcHwInitAt inst cfg addr).1 ≠ -EINVAL) :
    S32g3xx.ipcHwInitAt h inst cfg addr = h.ipcHwInitAt inst cfg addr := by
  rw [← hwInitAt_s32gen1] at hok ⊢
  exact s32g3xxTables_extends.hwInitAt hok

/-- A configuration for the first M7 core. -/
def m7Cfg : IpcShmCfg where
  localShmAddr := 0x34000000
  remoteShmAddr := 0x34100000
  shmSize := 0x10000
  interCoreTxIrq := 2
  interCoreRxIrq := 1
  localCore := ⟨.a53, .index0, 0xF⟩
  remoteCore := ⟨.m7, .index0⟩
  numChannels := 0
  channels := none

theorem s32g3xx_extends_m7 : (({} : KernelHw).ipcHwInitAt 0 m7Cfg 1).1 = 0 ∧
    S32g3xx.ipcHwInitAt {} 0 m7Cfg 1 = ({} : KernelHw).ipcHwInitAt 0 m7Cfg 1 :=
  ⟨by decide, s32g3xx_extends (by decide)⟩

/-! ## `s32r47` -/

/-- Platform specific private data of an instance. -/
structure R47Instance where
  mscmTxIrq : ℤ := 0
  mscmRxIrq : ℤ := 0
  remoteCore : ℕ := 0
  localCore : ℕ := 0
  /-- Where the block is mapped. -/
  ipcMscm : ℕ := 0

/-- The data of the HW layer, and the block. -/
structure R47Hw where
  priv : ℕ → R47Instance := fun _ => {}
  mscm : Mscm := {}

namespace R47Hw

/-- The processor index of a KQ8 core, -/
def ipcKq8 : IpcShmCoreIndex → Option ℕ
  | .index0 => some 9
  | .index1 => some 10
  | _ => none

/-- and of a BBE32 core. -/
def ipcBbe32 : IpcShmCoreIndex → Option ℕ
  | .index0 => some 7
  | .index1 => some 8
  | _ => none

/-- The index of the remote core, `IPC_DEFAULT_REMOTE_CORE` by default. -/
def remoteCoreIdx (core : IpcShmRemoteCore) : Option ℕ :=
  match core.type with
  | .a53 => ipcA53 core.index
  | .m7 => ipcM7 core.index
  | .kq8 => ipcKq8 core.index
  | .bbe32 => ipcBbe32 core.index
  | .default => some 4
  | _ => none

/-- The interrupt is one from `MSCM_INT0_IRQn` to `MSCM_INT10_IRQn`, if any. -/
def IrqOk (irq : ℤ) : Prop := irq ≠ ipcIrqNone → ¬(0 > irq ∨ 10 < irq)

instance instDecidableIrqOk (irq : ℤ) : Decidable (IrqOk irq) :=
  inferInstanceAs (Decidable (_ → _))

/-- From a DSP core it is one of the first two. -/
def DspOk (irq : ℤ) (remoteCore : ℕ) : Prop :=
  irq ≠ ipcIrqNone → ¬(7 ≤ remoteCore ∧ 10 ≥ remoteCore ∧ irq ≠ 0 ∧ irq ≠ 1)

instance instDecidableDspOk (irq : ℤ) (remoteCore : ℕ) : Decidable (DspOk irq remoteCore) :=
  inferInstanceAs (Decidable (_ → _))

variable (h : R47Hw)

/-- The data of one instance changed. -/
def setPriv (inst : ℕ) (p : R47Instance) : R47Hw :=
  { h with priv := Function.update h.priv inst p }

/-- The routing of the receive interrupt of an instance, rewritten. The register
has the number of the interrupt. -/
def route (inst : ℕ) (f : UInt16 → UInt16) : R47Hw :=
  if (h.priv inst).mscmRxIrq ≠ ipcIrqNone then
    { h with mscm := h.mscm.reroute (h.priv inst).mscmRxIrq.toNat f }
  else h

/-- Enables notifications from remote. -/
def ipcHwIrqEnable (inst : ℕ) : R47Hw := h.route inst (· ||| ipcMscmIrsprcGic500)

/-- Disables notifications from remote. -/
def ipcHwIrqDisable (inst : ℕ) : R47Hw := h.route inst (· &&& ~~~ipcMscmIrsprcGic500)

/-- Notifies remote that data is available. -/
def ipcHwIrqNotify (inst : ℕ) : R47Hw :=
  let p := h.priv inst
  if p.mscmTxIrq ≠ ipcIrqNone then
    { h with mscm := h.mscm.restate p.remoteCore p.mscmTxIrq.toNat (· ||| 1 <<< h.mscm.cpxnum) }
  else h

/-- Clears the notification of available data, on the targeted core. -/
def ipcHwIrqClear (inst : ℕ) : R47Hw :=
  let p := h.priv inst
  if p.mscmRxIrq ≠ ipcIrqNone then
    { h with
      mscm := h.mscm.restate p.localCore p.mscmRxIrq.toNat
        (· &&& ~~~(1 <<< UInt32.ofNat p.remoteCore)) }
  else h

/-- The local core, which is written before the trusted cores are checked. -/
def ipcHwLocalCoreInit (inst : ℕ) (cfg : IpcShmCfg) : ℤ × R47Hw :=
  match localCoreIdx cfg.localCore with
  | none => (-EINVAL, h)
  | some core =>
    let h := h.setPriv inst { h.priv inst with localCore := core }
    if ¬TrustedOk cfg.localCore.trusted core then (-EINVAL, h) else (0, h)

/-- The remote core. -/
def ipcHwRemoteCoreInit (inst : ℕ) (cfg : IpcShmCfg) : ℤ × R47Hw :=
  match remoteCoreIdx cfg.remoteCore with
  | none => (-EINVAL, h)
  | some core => (0, h.setPriv inst { h.priv inst with remoteCore := core })

/-- Enables the local trusted cores, unless the configuration is locked. -/
def enableTrusted (trusted : UInt32) : ℤ × R47Hw :=
  if h.mscm.ircpcfg &&& ipcMscmIrcpcfgLock ≠ 0 then
    (-EACCES, h)
  else
    (0, { h with mscm := { h.mscm with ircpcfg := h.mscm.ircpcfg ||| trusted } })

/-- `_ipc_hw_init`: the cores and the interrupts are checked, and the interrupts
written. -/
def ipcHwInitAt (inst : ℕ) (cfg : IpcShmCfg) (periphAddr : ℕ) : ℤ × R47Hw :=
  if periphAddr = 0 then
    (-EINVAL, h)
  else
    let h := h.setPriv inst { h.priv inst with ipcMscm := periphAddr }
    let localCore := h.ipcHwLocalCoreInit inst cfg
    if localCore.1 ≠ 0 then
      (-EINVAL, localCore.2)
    else
      let remoteCore := localCore.2.ipcHwRemoteCoreInit inst cfg
      let h := remoteCore.2
      if remoteCore.1 ≠ 0 then
        (-EINVAL, h)
      else if ¬CoresOk h.mscm cfg (h.priv inst).localCore (h.priv inst).remoteCore then
        (-EINVAL, h)
      else if ¬IrqOk cfg.interCoreTxIrq then
        (-EINVAL, h)
      else if ¬IrqOk cfg.interCoreRxIrq then
        (-EINVAL, h)
      else if ¬DspOk cfg.interCoreRxIrq (h.priv inst).remoteCore then
        (-EINVAL, h)
      else
        let h := h.setPriv inst
          { h.priv inst with
            mscmTxIrq := cfg.interCoreTxIrq
            mscmRxIrq := cfg.interCoreRxIrq }
        (h.ipcHwIrqDisable inst).enableTrusted cfg.localCore.trusted

/-! ### The lines -/

theorem localCoreIdx_lt (core : IpcShmLocalCore) (n : ℕ) (hn : n ∈ localCoreIdx core) :
    n < 11 := by
  obtain ⟨type, index, trusted⟩ := core
  revert hn
  cases type <;> cases index <;> rintro ⟨⟩ <;> decide

theorem remoteCoreIdx_lt (core : IpcShmRemoteCore) (n : ℕ) (hn : n ∈ remoteCoreIdx core) :
    n < 11 := by
  obtain ⟨type, index⟩ := core
  revert hn
  cases type <;> cases index <;> rintro ⟨⟩ <;> decide

/-- A line is its own index. -/
def lines : Lines where
  count := 11
  msi := fun l => l
  spi := fun l => l
  localCore := localCoreIdx
  remoteCore := remoteCoreIdx
  cpCount := 11
  irqCount := 13
  irsprcCount := 240
  cpCount_le := by decide
  msi_lt := fun l hl => by omega
  spi_lt := fun l hl => by omega
  msi_inj := fun _ _ _ _ h => h
  spi_inj := fun _ _ _ _ h => h
  localCore_lt := localCoreIdx_lt
  remoteCore_lt := remoteCoreIdx_lt

theorem IrqOk.line {irq : ℤ} (hirq : IrqOk irq) :
    ∃ o : Option ℕ, irq = irqOf o ∧ ∀ l ∈ o, l < lines.count := by
  by_cases hnone : irq = ipcIrqNone
  · exact ⟨none, hnone, fun l hl => absurd hl (Option.not_mem_none l)⟩
  · have hok := hirq hnone
    refine ⟨some irq.toNat, ?_, fun l hl => ?_⟩
    · show irq = (irq.toNat : ℤ)
      omega
    · obtain rfl := Option.some.inj hl
      show irq.toNat < 11
      omega

/-! ### The view -/

/-- The data of an instance as `s32gen1` keeps them, the registers of a line being
those of its number. -/
def toHw (p : R47Instance) : HwInstance where
  msiTxIrq := p.mscmTxIrq.toNat
  msiRxIrq := p.mscmRxIrq.toNat
  spiIndex := p.mscmRxIrq.toNat
  mscmTxIrq := p.mscmTxIrq
  mscmRxIrq := p.mscmRxIrq
  remoteCore := p.remoteCore
  localCore := p.localCore
  ipcMscm := p.ipcMscm

/-- The layer as one of `s32gen1`. -/
def toKernel : KernelHw where
  priv := fun inst => toHw (h.priv inst)
  mscm := h.mscm

variable {h} {inst : ℕ}

theorem toKernel_route (f : UInt16 → UInt16) :
    (h.route inst f).toKernel = h.toKernel.route inst f := apply_ite toKernel _ _ _

theorem toKernel_notify : (h.ipcHwIrqNotify inst).toKernel = h.toKernel.ipcHwIrqNotify inst :=
  apply_ite toKernel _ _ _

theorem toKernel_clear : (h.ipcHwIrqClear inst).toKernel = h.toKernel.ipcHwIrqClear inst :=
  apply_ite toKernel _ _ _

theorem toKernel_setPriv (p : R47Instance) :
    (h.setPriv inst p).toKernel = h.toKernel.setPriv inst (toHw p) := by
  have hpriv : (fun i => toHw (Function.update h.priv inst p i))
      = Function.update (fun i => toHw (h.priv i)) inst (toHw p) := by
    funext i
    exact Function.apply_update (fun _ => toHw) h.priv inst p i
  unfold setPriv toKernel KernelHw.setPriv
  rw [hpriv]

theorem toKernel_enableTrusted (trusted : UInt32) :
    ((h.enableTrusted trusted).1, (h.enableTrusted trusted).2.toKernel)
      = h.toKernel.enableTrusted trusted := by
  unfold enableTrusted KernelHw.enableTrusted
  exact apply_ite (fun r : ℤ × R47Hw => (r.1, r.2.toKernel)) _ _ _

/-! ### Initialization -/

theorem setPriv_self (p : R47Instance) : (h.setPriv inst p).priv inst = p :=
  Function.update_self _ _ _

theorem setPriv_setPriv (p q : R47Instance) :
    (h.setPriv inst p).setPriv inst q = h.setPriv inst q := by
  unfold setPriv
  rw [Function.update_idem]

theorem setPriv_priv : h.setPriv inst (h.priv inst) = h := by
  unfold setPriv
  rw [Function.update_eq_self]

variable {cfg : IpcShmCfg}

theorem ipcHwLocalCoreInit_cases (h : R47Hw) (inst : ℕ) (cfg : IpcShmCfg) :
    ∃ p, (h.ipcHwLocalCoreInit inst cfg).2 = h.setPriv inst p ∧
      ((h.ipcHwLocalCoreInit inst cfg).1 = 0 → localCoreIdx cfg.localCore = some p.localCore) := by
  have hinval : -EINVAL ≠ 0 := by decide
  unfold ipcHwLocalCoreInit
  cases localCoreIdx cfg.localCore with
  | none => exact ⟨h.priv inst, setPriv_priv.symm, fun h0 => absurd h0 hinval⟩
  | some core =>
    dsimp only
    split
    · exact ⟨_, rfl, fun h0 => absurd h0 hinval⟩
    · exact ⟨_, rfl, fun _ => rfl⟩

theorem ipcHwRemoteCoreInit_cases (h : R47Hw) (inst : ℕ) (cfg : IpcShmCfg) :
    ∃ p, (h.ipcHwRemoteCoreInit inst cfg).2 = h.setPriv inst p ∧
      p.localCore = (h.priv inst).localCore ∧
      ((h.ipcHwRemoteCoreInit inst cfg).1 = 0 →
        remoteCoreIdx cfg.remoteCore = some p.remoteCore) := by
  unfold ipcHwRemoteCoreInit
  cases remoteCoreIdx cfg.remoteCore with
  | none =>
    exact ⟨h.priv inst, setPriv_priv.symm, rfl, fun h0 => absurd h0 (show -EINVAL ≠ 0 by decide)⟩
  | some core => exact ⟨_, rfl, rfl, fun _ => rfl⟩

/-- The data that are kept of an accepted configuration are those of a setup. -/
theorem keeps_toHw {p : R47Instance} {c : Setup} (htx : p.mscmTxIrq = irqOf c.tx)
    (hrx : p.mscmRxIrq = irqOf c.rx) (hlocal : p.localCore = c.localCore)
    (hremote : p.remoteCore = c.remoteCore) : lines.Keeps (toHw p) c := by
  have hline : ∀ {irq : ℤ} {o : Option ℕ}, irq = irqOf o → ∀ l ∈ o, irq.toNat = l := by
    rintro irq o rfl l rfl
    rfl
  exact ⟨htx, hrx, hline htx, hline hrx, hline hrx, hlocal, hremote⟩

/-- A configuration is refused with at most the data of its instance written. -/
theorem refused_view {err : ℤ} (he : err ≠ 0) (p : R47Instance) :
    KernelHw.InitEnds lines cfg inst h.toKernel (err, (h.setPriv inst p).toKernel) := by
  rw [toKernel_setPriv]
  exact .refused he _

theorem ipcHwInitAt_ends (h : R47Hw) (inst : ℕ) (cfg : IpcShmCfg) (addr : ℕ) :
    KernelHw.InitEnds lines cfg inst h.toKernel
      ((h.ipcHwInitAt inst cfg addr).1, (h.ipcHwInitAt inst cfg addr).2.toKernel) := by
  have hinval : -EINVAL ≠ 0 := by decide
  unfold ipcHwInitAt
  split
  · have hsame : KernelHw.InitEnds lines cfg inst h.toKernel
        (-EINVAL, (h.setPriv inst (h.priv inst)).toKernel) := refused_view hinval _
    rwa [setPriv_priv] at hsame
  dsimp only
  obtain ⟨p, hp, hlocal⟩ :=
    ipcHwLocalCoreInit_cases (h.setPriv inst { h.priv inst with ipcMscm := addr }) inst cfg
  rw [setPriv_setPriv] at hp
  obtain ⟨q, hq, hsame, hremote⟩ := ipcHwRemoteCoreInit_cases (h.setPriv inst p) inst cfg
  rw [setPriv_setPriv] at hq
  rw [setPriv_self] at hsame
  rw [hp]
  split
  · exact refused_view hinval p
  rename_i hl
  rw [hq]
  split
  · exact refused_view hinval q
  rename_i hr
  -- nothing is written any more before the checks are made
  split
  · exact refused_view hinval q
  split
  · exact refused_view hinval q
  rename_i htx
  split
  · exact refused_view hinval q
  rename_i hrx
  split
  · exact refused_view hinval q
  rw [setPriv_setPriv, setPriv_self, toKernel_enableTrusted, ipcHwIrqDisable, toKernel_route,
    toKernel_setPriv]
  obtain ⟨t, ht, htlt⟩ := IrqOk.line (not_not.mp htx)
  obtain ⟨r, hr', hrlt⟩ := IrqOk.line (not_not.mp hrx)
  have hset : lines.SetUp cfg ⟨t, r, q.localCore, q.remoteCore⟩ :=
    ⟨ht, hr', hsame ▸ hlocal (not_not.mp hl), hremote (not_not.mp hr), htlt, hrlt⟩
  refine .trusts ⟨_, hset, ?_⟩ _
  exact keeps_toHw ht hr' rfl rfl

/-- The layer of `s32r47`. -/
def layer : HwLayer where
  State := R47Hw
  mscm := R47Hw.mscm
  setMscm := fun r h => { h with mscm := r }
  ipcHwInitAt := R47Hw.ipcHwInitAt
  ipcHwIrqEnable := R47Hw.ipcHwIrqEnable
  ipcHwIrqDisable := R47Hw.ipcHwIrqDisable
  ipcHwIrqNotify := R47Hw.ipcHwIrqNotify
  ipcHwIrqClear := R47Hw.ipcHwIrqClear

theorem layer_view : layer.View lines toKernel where
  mscm := fun _ => rfl
  setMscm := fun _ _ => rfl
  enable := fun _ _ => toKernel_route _
  disable := fun _ _ => toKernel_route _
  notify := fun _ _ => toKernel_notify
  clear := fun _ _ => toKernel_clear
  init := ipcHwInitAt_ends

end R47Hw

/-! ## Any platform -/

/-- The processors the driver is built for. -/
inductive HwPlatform where
  | s32gen1
  | s32g3xx
  | s32r47

namespace HwPlatform

/-- The HW layer of a platform. -/
def layer : HwPlatform → HwLayer
  | s32gen1 => KernelHw.layer KernelHw.ipcHwInitAt
  | s32g3xx => KernelHw.layer S32g3xx.ipcHwInitAt
  | s32r47 => R47Hw.layer

/-- Its lines. -/
def lines : HwPlatform → Lines
  | s32gen1 => s32gen1Tables.lines
  | s32g3xx => s32g3xxTables.lines
  | s32r47 => R47Hw.lines

theorem exists_implements (p : HwPlatform) : ∃ Keeps, p.layer.Implements p.lines Keeps := by
  cases p with
  | s32gen1 =>
    -- the layer is the one of the rest of the development, not the one over the tables
    have heq : s32gen1Tables.hwInitAt = KernelHw.ipcHwInitAt := by
      funext h inst cfg addr
      exact hwInitAt_s32gen1 h inst cfg addr
    have hview := s32gen1Tables.layer_view
    rw [heq] at hview
    exact ⟨_, hview.implements⟩
  | s32g3xx => exact ⟨_, s32g3xxTables.layer_view.implements⟩
  | s32r47 => exact ⟨_, R47Hw.layer_view.implements⟩

end HwPlatform

section AnyPlatform

variable {p : HwPlatform} {hw : p.layer.State} {σ σ' : p.layer.Sys} {calls : List HwCall}

/-- **Every platform lets instances ring and silence bells.** Whatever calls are made
of its layer, in whatever order, and whatever the other cores do in between: the
same calls can be made of the bells. The registers then show the bells, with the
registers outside the block as they were, and the instances in use are set up as
configured. -/
theorem platform_refines_doorbells (h0 : (p.layer.mscm hw).cpxnum.toNat < p.lines.cpCount)
    (hr : Steps.Runs (p.layer.Step p.lines) (HwLayer.idle hw) calls σ) :
    ∃ d, Steps.Runs (Doorbells.Step p.lines) (p.lines.initial (p.layer.mscm hw)) calls d ∧
      p.lines.Shows (p.layer.mscm hw) (p.layer.mscm σ.hw) d ∧
      (∀ inst, ∀ cfg ∈ σ.cfg inst, ∃ c, d.setUp inst = some c ∧ p.lines.SetUp cfg c) ∧
      ∀ inst, σ.cfg inst = none → d.setUp inst = none := by
  obtain ⟨Keeps, hL⟩ := p.exists_implements
  obtain ⟨d, hd, h⟩ := hL.simulates h0 hr
  refine ⟨d, hd, h.shows, fun inst cfg hcfg => ?_, h.unused⟩
  obtain ⟨c, hc, hv, -⟩ := h.keeps inst cfg hcfg
  exact ⟨c, hc, hv⟩

/-- **Instances meet only on their lines.** From any state that calls lead to, a line
that no instance in use is configured with is routed as before, and its bells ring
as before, after any calls for the instances in use. -/
theorem platform_lines_apart {before : List HwCall} {l : ℕ}
    (h0 : (p.layer.mscm hw).cpxnum.toNat < p.lines.cpCount)
    (hbefore : Steps.Runs (p.layer.Step p.lines) (HwLayer.idle hw) before σ)
    (hl : l < p.lines.count)
    (hno : ∀ inst, ∀ cfg ∈ σ.cfg inst, cfg.interCoreTxIrq ≠ l ∧ cfg.interCoreRxIrq ≠ l)
    (hr : Steps.Runs (p.layer.Step p.lines) σ calls σ') (hcalls : ∀ a ∈ calls, a.InUse) :
    ((p.layer.mscm σ'.hw).Routes (p.lines.spi l) ↔ (p.layer.mscm σ.hw).Routes (p.lines.spi l)) ∧
    ∀ core, ∀ s < p.lines.cpCount, (p.layer.mscm σ'.hw).Rings core (p.lines.msi l) s ↔
      (p.layer.mscm σ.hw).Rings core (p.lines.msi l) s := by
  obtain ⟨Keeps, hL⟩ := p.exists_implements
  obtain ⟨d, -, h⟩ := hL.simulates h0 hbefore
  exact hL.apart h hl hno hr hcalls

end AnyPlatform

/-! An instance of `s32r47` that talks to a DSP core. -/

/-- Its configuration, -/
def dspCfg : IpcShmCfg where
  localShmAddr := 0x34000000
  remoteShmAddr := 0x34080000
  shmSize := 0x10000
  interCoreTxIrq := 2
  interCoreRxIrq := 1
  localCore := ⟨.a53, .index0, 0xF⟩
  remoteCore := ⟨.kq8, .index0⟩
  numChannels := 0
  channels := none

/-- the layer after it is initialized, -/
def dspReady : HwPlatform.s32r47.layer.Sys :=
  ⟨(({} : R47Hw).ipcHwInitAt 0 dspCfg 1).2, Function.update (fun _ => none) 0 (some dspCfg)⟩

/-- and after it has notified its remote. -/
def dspNotified : HwPlatform.s32r47.layer.Sys :=
  ⟨R47Hw.ipcHwIrqNotify dspReady.hw 0, dspReady.cfg⟩

theorem dspReady_runs : Steps.Runs (HwPlatform.s32r47.layer.Step HwPlatform.s32r47.lines)
    (HwLayer.idle ({} : R47Hw)) [.init 0 dspCfg] dspReady := by
  have hinit : (({} : R47Hw).ipcHwInitAt 0 dspCfg 1).1 = 0 := by decide
  exact Steps.Runs.tail .refl (HwLayer.Step.init hinit)

theorem dspNotified_step :
    HwPlatform.s32r47.layer.Step HwPlatform.s32r47.lines dspReady (.notify 0) dspNotified := by
  have hused : dspReady.cfg 0 = some dspCfg := rfl
  exact HwLayer.Step.notify hused

theorem dsp_self_lt : (HwPlatform.s32r47.layer.mscm ({} : R47Hw)).cpxnum.toNat <
    HwPlatform.s32r47.lines.cpCount := by
  decide

theorem platform_refines_doorbells_dsp :
    ∃ d, Steps.Runs (Doorbells.Step R47Hw.lines) (R47Hw.lines.initial {})
        [.init 0 dspCfg, .notify 0] d ∧
      R47Hw.lines.Shows {} (R47Hw.mscm dspNotified.hw) d ∧
      (∀ inst, ∀ cfg ∈ dspNotified.cfg inst, ∃ c, d.setUp inst = some c ∧
        R47Hw.lines.SetUp cfg c) ∧
      ∀ inst, dspNotified.cfg inst = none → d.setUp inst = none := by
  exact platform_refines_doorbells (p := .s32r47) dsp_self_lt (dspReady_runs.tail dspNotified_step)

theorem platform_lines_apart_dsp :
    ((R47Hw.mscm dspNotified.hw).Routes 5 ↔ (R47Hw.mscm dspReady.hw).Routes 5) ∧
    ∀ core, ∀ s < 11, (R47Hw.mscm dspNotified.hw).Rings core 5 s ↔
      (R47Hw.mscm dspReady.hw).Rings core 5 s := by
  have hl : 5 < R47Hw.lines.count := by decide
  refine platform_lines_apart (p := .s32r47) dsp_self_lt dspReady_runs hl (fun inst cfg hcfg => ?_)
    (Steps.Runs.tail .refl dspNotified_step) (fun a ha => ?_)
  · have hcfg' : Function.update (fun _ => none) 0 (some dspCfg) inst = some cfg := hcfg
    by_cases hinst : inst = 0
    · rw [hinst, Function.update_self] at hcfg'
      obtain rfl := Option.some.inj hcfg'
      decide
    · rw [Function.update_of_ne hinst] at hcfg'
      exact absurd hcfg' (Option.some_ne_none cfg).symm
  · obtain rfl := List.mem_singleton.mp ha
    trivial
