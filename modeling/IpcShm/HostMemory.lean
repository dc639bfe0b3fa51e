import IpcShm.InitBounds

/-!
# A host and the memory it maps

An attempt to initialize an instance maps a piece of physical memory,
writes to it, and gives the mapping up again if something fails. What is left
in memory, and in the private data that pointed to it, is there at the next
attempt, which may map something else. To speak of such a sequence a model
needs the physical memory and the mapping, and it must not say what the
remote side does: every load from the remote window may find anything, and so
may every question to the HW and OS layers.

This file is that model. An access outside the mapping is an error of the
host (`Host.Safe`), and what a program does on the host is read with
`Program.demonic`.
-/

/-- **A mapping of the windows**: two ranges of virtual addresses, and the
physical address the local one starts at. -/
structure HostMap extends ShmMap where
  phys : ℕ

/-- The physical address behind a local virtual address. -/
def HostMap.addr (μ : HostMap) (a : ℕ) : ℕ := μ.phys + (a - μ.localShm)

theorem HostMap.addr_add (μ : HostMap) (off i : ℕ) :
    μ.addr (μ.localShm + off + i) = μ.phys + off + i := by
  unfold HostMap.addr
  omega

theorem HostMap.addr_eq (μ : HostMap) (off : ℕ) : μ.addr (μ.localShm + off) = μ.phys + off :=
  μ.addr_add off 0

/-- An access lies in the remote window. -/
def InRemote (μ : ShmMap) (a k : ℕ) : Prop :=
  Region.Contains { addr := μ.remoteShm, size := μ.size } a k

theorem InRemote.not_inWindow {μ : ShmMap} {a k : ℕ} (hk : 0 < k) (h : InRemote μ a k) :
    ¬InWindow μ a k := by
  intro hl
  have hd := μ.disjoint
  have hl : μ.localShm ≤ a ∧ a + k ≤ μ.localShm + μ.size := hl
  have hr : μ.remoteShm ≤ a ∧ a + k ≤ μ.remoteShm + μ.size := h
  omega

/-- **The host**: physical memory, the mapping of the instance, and the remote
addresses read from since the call began. -/
structure Host where
  mem : ByteMem
  map : Option HostMap := none
  looked : List ℕ := []

namespace Host

/-- The requests the host survives. -/
def Safe : Op → Host → Prop
  | .load n a, h => ∃ μ, h.map = some μ ∧ (InWindow μ.toShmMap a n ∨ InRemote μ.toShmMap a n)
  | .store n a _, h => ∃ μ, h.map = some μ ∧ InWindow μ.toShmMap a n
  | .memcpyFrom a n, h => ∃ μ, h.map = some μ ∧ InRemote μ.toShmMap a n
  | .memcpyTo a bs, h => ∃ μ, h.map = some μ ∧ InWindow μ.toShmMap a bs.length
  | .poolsOutOfBounds _, _ => False
  | .undefinedBehaviour, _ => False
  | _, _ => True

/-- Of these, the ones that leave the mapping alone. -/
def Access : Op → Host → Prop
  | .ipcOsInit _ _, _ => False
  | .ipcOsFree _, _ => False
  | o, h => Safe o h

/-- **What may be answered.** A successful `ipc_os_init` maps the memory the
configuration names, at addresses of its choice. -/
def Answers : (o : Op) → Host → o.Ret → Host → Prop
  | .load n a, h, v, h' => ∃ μ, h.map = some μ ∧
      ((InWindow μ.toShmMap a n ∧ v = h.mem.load n (μ.addr a) ∧ h' = h) ∨
        (InRemote μ.toShmMap a n ∧ v < 256 ^ n ∧ h' = { h with looked := a :: h.looked }))
  | .store n a v, h, _, h' => ∃ μ, h.map = some μ ∧
      h' = { h with mem := h.mem.store n (μ.addr a) v }
  | .memcpyFrom _ n, h, bs, h' => bs.length = n ∧ h' = h
  | .memcpyTo a bs, h, _, h' => ∃ μ, h.map = some μ ∧
      h' = { h with mem := h.mem.write (μ.addr a) bs }
  | .ipcOsInit _ cfg, h, r, h' => (r.1 ≠ 0 ∧ h' = h) ∨
      (r.1 = 0 ∧ ∃ μ : HostMap, μ.size = cfg.shmSize.toNat ∧ μ.phys = cfg.localShmAddr ∧
        r.2 = μ.os ∧ h' = { h with map := some μ })
  | .ipcOsFree _, h, _, h' => h' = { h with map := none }
  | _, h, _, h' => h' = h

/-- **The condition on what is answered.** The first look at the sentinel of a
remote ring, in a call, does not find it `IN_PROGRESS`, and the memory that is
mapped does not cut through the headers of the configuration. -/
def Careful : (o : Op) → Host → o.Ret → Host → Prop
  | .load n a, h, v, _ => ∀ μ, h.map = some μ → n = 8 → InRemote μ.toShmMap a n →
      a ∉ h.looked → v ≠ ipcQueueInitInProgress
  | .ipcOsInit _ cfg, _, r, h' => r.1 = 0 → ∀ μ, h'.map = some μ → cfg.Checked μ.toShmMap
  | _, _, _, _ => True

/-- Answers that meet the condition. -/
def AnswersCarefully (o : Op) (h : Host) (r : o.Ret) (h' : Host) : Prop :=
  h.Answers o r h' ∧ Careful o h r h'

end Host

/-- **What a call does on the host**, whatever is answered under the
condition: the host survives, and `Q` holds when the call returns. -/
def CallWp {α : Type} (p : Drv α) (Q : α → Host → Prop) (h : Host) : Prop :=
  p.wp (Program.demonic Host.Safe Host.AnswersCarefully) Q h

/-- The same for a part of a call that leaves the mapping alone. -/
def HostWp {α : Type} (p : Drv α) (Q : α → Host → Prop) (h : Host) : Prop :=
  p.wp (Program.demonic Host.Access Host.AnswersCarefully) Q h

section Rules

variable {α β : Type} {μ : HostMap} {h : Host} {Q : α → Host → Prop}

theorem HostWp.bind {p : Drv β} {f : β → Drv α} {P : β → Host → Prop} (hp : HostWp p P h)
    (hf : ∀ b h', P b h' → HostWp (f b) Q h') : HostWp (p >>= f) Q h := by
  unfold HostWp at hp hf ⊢
  rw [Program.wp_bind]
  exact Program.wp_mono Program.monotone_demonic p hf hp

theorem HostWp.mono {p : Drv α} {P : α → Host → Prop} (hp : HostWp p P h)
    (hPQ : ∀ a h', P a h' → Q a h') : HostWp p Q h :=
  Program.wp_mono Program.monotone_demonic p hPQ hp

theorem HostWp.pure {a : α} (h' : Q a h) : HostWp (.pure a) Q h := h'

/-- A load from the local window finds what is there. -/
theorem HostWp.load_local (hμ : h.map = some μ) {n a : ℕ} {k : ℕ → Drv α}
    (ha : InWindow μ.toShmMap a n) (hn : 0 < n)
    (hk : ∀ v, v = h.mem.load n (μ.addr a) → HostWp (k v) Q h) :
    HostWp ((.op (.load n a) .pure : Drv ℕ) >>= k) Q h := by
  refine ⟨⟨μ, hμ, Or.inl ha⟩, ?_⟩
  rintro v h' ⟨⟨μ', hμ', hans⟩, -⟩
  obtain rfl : μ = μ' := Option.some.inj (hμ.symm.trans hμ')
  rcases hans with ⟨-, hv, rfl⟩ | ⟨hr, -, -⟩
  · exact hk v hv
  · exact absurd ha (hr.not_inWindow hn)

/-- A load from the remote window may find anything. -/
theorem HostWp.load_remote (hμ : h.map = some μ) {n a : ℕ} {k : ℕ → Drv α}
    (ha : InRemote μ.toShmMap a n) (hn : 0 < n)
    (hk : ∀ v h', (n = 8 → a ∉ h.looked → v ≠ ipcQueueInitInProgress) → h'.map = h.map →
      h'.mem = h.mem → h'.looked = a :: h.looked → HostWp (k v) Q h') :
    HostWp ((.op (.load n a) .pure : Drv ℕ) >>= k) Q h := by
  refine ⟨⟨μ, hμ, Or.inr ha⟩, ?_⟩
  rintro v h' ⟨⟨μ', hμ', hans⟩, hcare⟩
  obtain rfl : μ = μ' := Option.some.inj (hμ.symm.trans hμ')
  rcases hans with ⟨hl, -, -⟩ | ⟨-, -, rfl⟩
  · exact absurd hl (ha.not_inWindow hn)
  · exact hk v _ (fun h8 hnot => hcare μ hμ h8 ha hnot) rfl rfl rfl

theorem HostWp.store (hμ : h.map = some μ) {n a v : ℕ} {k : Unit → Drv α}
    (ha : InWindow μ.toShmMap a n)
    (hk : ∀ h', h'.map = h.map → h'.looked = h.looked → h'.mem = h.mem.store n (μ.addr a) v →
      HostWp (k ()) Q h') :
    HostWp ((.op (.store n a v) .pure : Drv Unit) >>= k) Q h := by
  refine ⟨⟨μ, hμ, ha⟩, ?_⟩
  rintro r h' ⟨⟨μ', hμ', rfl⟩, -⟩
  obtain rfl : μ = μ' := Option.some.inj (hμ.symm.trans hμ')
  exact hk _ rfl rfl rfl

theorem HostWp.memcpyTo (hμ : h.map = some μ) {a : ℕ} {bs : List UInt8} {k : Unit → Drv α}
    (ha : InWindow μ.toShmMap a bs.length)
    (hk : ∀ h', h'.map = h.map → h'.looked = h.looked → h'.mem = h.mem.write (μ.addr a) bs →
      HostWp (k ()) Q h') :
    HostWp ((.op (.memcpyTo a bs) .pure : Drv Unit) >>= k) Q h := by
  refine ⟨⟨μ, hμ, ha⟩, ?_⟩
  rintro r h' ⟨⟨μ', hμ', rfl⟩, -⟩
  obtain rfl : μ = μ' := Option.some.inj (hμ.symm.trans hμ')
  exact hk _ rfl rfl rfl

theorem HostWp.remU {a b : ℕ} {k : ℕ → Drv α} (hb : 0 < b) (hk : HostWp (k (a % b)) Q h) :
    HostWp (remU a b >>= k) Q h := by
  rw [remU_of_pos hb]
  exact hk

/-- What the placement results say for all answers, with the mapping in
place, holds on the host. -/
theorem HostWp.and_always {p : Drv α} {P : Op → Prop} {R : α → Prop} (hp : HostWp p Q h)
    (hq : p.Always (Env μ.toShmMap) P R) :
    HostWp p (fun a h' => Q a h' ∧ R a) h := by
  refine Program.wp_demonic_and (fun o h r h' hS hA => ?_) hp hq
  cases o with
  | load n a =>
    obtain ⟨⟨μ', -, ⟨-, rfl, -⟩ | ⟨-, hv, -⟩⟩, -⟩ := hA
    · exact ByteMem.load_lt _ _ _
    · exact hv
  | memcpyFrom a n => exact hA.1.1
  | ipcOsInit inst cfg => exact hS.elim
  | _ => trivial

theorem HostWp.call {p : Drv α} (hp : HostWp p Q h) : CallWp p Q h := by
  refine Program.wp_demonic_mono (fun o h hS => ?_) hp
  cases o with
  | ipcOsInit inst cfg => trivial
  | ipcOsFree inst => trivial
  | _ => exact hS

theorem CallWp.bind {p : Drv β} {f : β → Drv α} {P : β → Host → Prop} (hp : CallWp p P h)
    (hf : ∀ b h', P b h' → CallWp (f b) Q h') : CallWp (p >>= f) Q h := by
  unfold CallWp at hp hf ⊢
  rw [Program.wp_bind]
  exact Program.wp_mono Program.monotone_demonic p hf hp

theorem CallWp.mono {p : Drv α} {P : α → Host → Prop} (hp : CallWp p P h)
    (hPQ : ∀ a h', P a h' → Q a h') : CallWp p Q h :=
  Program.wp_mono Program.monotone_demonic p hPQ hp

end Rules

/-! ## Memory without sentinels -/

/-- The addresses from `x` on, `n` of them. -/
def Within (x n a : ℕ) : Prop := x ≤ a ∧ a < x + n

theorem Within.of_le {x n y k a : ℕ} (h : Within x n a) (hlo : y ≤ x) (hhi : x + n ≤ y + k) :
    Within y k a :=
  ⟨hlo.trans h.1, h.2.trans_le hhi⟩

/-- **Calm memory**: outside `H`, of two bytes next to each other at least one
is small. Every sentinel starts with two bytes that are not. -/
def Calm (H : ℕ → Prop) (m : ByteMem) : Prop :=
  ∀ a, (H a ∨ (m a).toNat < 16) ∨ (H (a + 1) ∨ (m (a + 1)).toNat < 16)

section Calm

variable {H H' : ℕ → Prop} {m m' : ByteMem}

/-- Changes of single bytes: each one is excluded, or small, or as before. -/
theorem Calm.of_bytes (h : Calm H m)
    (hb : ∀ a, H' a ∨ (m' a).toNat < 16 ∨ (¬H a ∧ m' a = m a)) : Calm H' m' := by
  have hstep : ∀ a, H a ∨ (m a).toNat < 16 → H' a ∨ (m' a).toNat < 16 := by
    intro a ha
    rcases hb a with hH | hs | ⟨hn, heq⟩
    · exact Or.inl hH
    · exact Or.inr hs
    · exact Or.inr (heq ▸ ha.resolve_left hn)
  exact fun a => (h a).imp (hstep a) (hstep (a + 1))

/-- Every large byte stands between two small ones. -/
def Tame (bs : List UInt8) : Prop :=
  ∀ i, i < bs.length → (bs.getD i 0).toNat < 16 ∨
    (0 < i ∧ i + 1 < bs.length ∧ (bs.getD (i - 1) 0).toNat < 16 ∧ (bs.getD (i + 1) 0).toNat < 16)

theorem Calm.write (h : Calm H m) {a : ℕ} {bs : List UInt8} (ht : Tame bs) :
    Calm H (m.write a bs) := by
  -- a large byte inside the block has its neighbours inside, and they are small
  have hin : ∀ i, i < bs.length → m.write a bs (a + i) = bs.getD i 0 := by
    intro i hi
    unfold ByteMem.write
    rw [if_pos ⟨Nat.le_add_right a i, Nat.add_lt_add_left hi a⟩, Nat.add_sub_cancel_left]
  intro x
  by_cases hx : a ≤ x ∧ x < a + bs.length
  · obtain ⟨i, rfl⟩ := Nat.exists_eq_add_of_le hx.1
    have hi : i < bs.length := by omega
    rcases ht i hi with hs | ⟨-, hnext, -, hs⟩
    · exact Or.inl (Or.inr (by rw [hin i hi]; exact hs))
    · exact Or.inr (Or.inr (by rw [Nat.add_assoc, hin (i + 1) hnext]; exact hs))
  · have hxm : m.write a bs x = m x := ByteMem.write_of_not_mem m (by omega)
    by_cases hx' : a ≤ x + 1 ∧ x + 1 < a + bs.length
    · obtain rfl : x + 1 = a := by omega
      have h0 : 0 < bs.length := by omega
      rcases ht 0 h0 with hs | ⟨hpos, -⟩
      · refine Or.inr (Or.inr ?_)
        have hfirst := hin 0 h0
        rw [Nat.add_zero] at hfirst
        rw [hfirst]
        exact hs
      · exact absurd hpos (Nat.lt_irrefl 0)
    · have hxm' : m.write a bs (x + 1) = m (x + 1) := ByteMem.write_of_not_mem m (by omega)
      rw [hxm, hxm']
      exact h x

theorem tame_bd {poolId bufId : ℕ} (hp : poolId < 16) (hb : bufId < 4096) :
    Tame (IpcShmBd.encode { poolId := poolId, bufId := bufId, dataSize := 0 }) := by
  have hpool : natOfInt16 poolId = poolId := by
    unfold natOfInt16
    omega
  intro i hi
  rw [IpcShmBd.encode_length] at hi
  have hsize : leBytes 4 0 = [0, 0, 0, 0] := by decide
  unfold IpcShmBd.encode
  dsimp only
  rw [hpool, hsize]
  have hhigh : bufId / 256 % 256 < 16 := by omega
  have hlow : poolId % 256 < 16 := by omega
  have hzero : poolId / 256 % 256 < 16 := by omega
  match i, hi with
  | 0, _ => exact Or.inl hlow
  | 1, _ => exact Or.inl hzero
  | 2, _ => exact Or.inr ⟨by decide, show 3 < 8 by decide, hzero, hhigh⟩
  | 3, _ => exact Or.inl hhigh
  | 4, _ | 5, _ | 6, _ | 7, _ => exact Or.inl (show 0 < 16 by decide)

/-- A word whose first two bytes are large is not found in calm memory. -/
theorem Calm.load_ne (h : Calm (fun _ => False) m) {n v : ℕ} (hn : 2 ≤ n)
    (hv : 16 ≤ v % 256 ∧ 16 ≤ v / 256 % 256) (a : ℕ) : m.load n a ≠ v := by
  obtain ⟨k, rfl⟩ := Nat.exists_eq_add_of_le' hn
  have hread : m.read a (k + 2)
      = m a :: m (a + 1) :: (List.range k).map (fun i => m (a + (i + 1 + 1))) := by
    unfold ByteMem.read
    rw [List.range_succ_eq_map, List.range_succ_eq_map]
    simp only [List.map_cons, List.map_map, Function.comp_def, Nat.add_zero]
  rintro rfl
  unfold ByteMem.load at hv
  rw [hread] at hv
  have h1 : (m a).toNat < 256 := (m a).toNat_lt
  have h2 : (m (a + 1)).toNat < 256 := (m (a + 1)).toNat_lt
  unfold leVal leVal at hv
  rcases h a with (hf | hs) | (hf | hs)
  · exact hf
  · omega
  · exact hf
  · omega

end Calm
