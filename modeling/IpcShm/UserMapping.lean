import IpcShm.UioModule
import IpcShm.Paging

/-!
# Shared memory in user space

User space gets at the shared memory in two steps. A request on the character
device leaves a physical address with the module, and an `mmap` of the device
then maps pages one by one, each to the frame computed from that address. The
offset user space passes to `mmap` is ignored; user space rounds the address
down to a page before it passes it, the module does not round at all, and both
use the offset in the page of the same address. So the bytes of the window come
out where the library looks for them (`mmap_spec`, `MapsUpTo.areaMaps`), however the address lies in
its page, and with no page of the range missing.
-/

namespace UioModule

variable (m : UioModule)

/-- The page loop of `ipc_cdev_mmap`, for an area of `size` bytes at `start`.
`remapPfnRange` says of each offset whether `remap_pfn_range` succeeds there.
The first argument bounds the iterations. -/
def mapPages (s start size : ℕ) (remapPfnRange : ℕ → Bool) :
    ℕ → ℕ → PageTable → ℤ × PageTable
  | 0, _, pt => (0, pt)
  | n + 1, offset, pt =>
    if offset < size then
      let pfn := u64 (m.physAddr + offset) >>> s
      if remapPfnRange offset then
        mapPages s start size remapPfnRange n (offset + 2 ^ s)
          (pt.map ((start + offset) / 2 ^ s) pfn)
      else
        (-EINVAL, pt)
    else
      (0, pt)

/-- Responds to an `mmap` request. A page has at least one byte, so `size`
iterations are enough. -/
def ipcCdevMmap (s start size : ℕ) (remapPfnRange : ℕ → Bool) (pt : PageTable) :
    ℤ × PageTable :=
  if m.cmd ≠ .mmapLocal ∧ m.cmd ≠ .mmapRemote then
    (-EINVAL, pt)
  else
    m.mapPages s start size remapPfnRange size 0 pt

/-- What the kernel answers to an `mmap`: where it puts the area, if it has
room, and whether each page can be mapped. -/
structure MmapReply where
  addr : Option ℕ
  remapPfnRange : ℕ → Bool := fun _ => true

/-- The areas the kernel can put a mapping of `size` bytes at: whole pages, not
the first one, within the address space and not mapped yet. -/
def AreaFree (s addr size : ℕ) (pt : PageTable) : Prop :=
  0 < addr ∧ addr % 2 ^ s = 0 ∧ addr + size < 2 ^ 64 ∧ pt.Vacant (addr / 2 ^ s) (size / 2 ^ s)

instance (s addr size : ℕ) (pt : PageTable) : Decidable (AreaFree s addr size pt) :=
  inferInstanceAs (Decidable (_ ∧ _))

/-- **`mmap` of the character device**, with the length rounded up to whole
pages. `none` is `MAP_FAILED`, and leaves nothing mapped. -/
def mmap (s len : ℕ) (r : MmapReply) (pt : PageTable) : Option ℕ × PageTable :=
  match r.addr with
  | none => (none, pt)
  | some addr =>
    let size := numPages s len * 2 ^ s
    if 0 < len ∧ AreaFree s addr size pt then
      let (err, pt') := m.ipcCdevMmap s addr size r.remapPfnRange pt
      if err ≠ 0 then (none, pt) else (some addr, pt')
    else
      (none, pt)

/-- The module after a request to map, with the command and the address left. -/
def mapping (req : IpcIoc) (shmAddr : ℕ) : UioModule :=
  { m with cmd := req.cmd, physAddr := shmAddr }

theorem ipcUioInit_mapping (req : IpcIoc) (shmAddr : ℕ) (r : UioReplies) (data : IpcUioCdevData) :
    ((m.mapping req shmAddr).ipcUioInit r data).1 = (m.ipcUioInit r data).1 :=
  ipcUioInit_congr (m := m) (m.mapping req shmAddr) rfl r data

variable {m}

/-- The pages of an area up to an offset are mapped, each to its frame, and all
other pages are as before. -/
structure MapsUpTo (m : UioModule) (s page n : ℕ) (pt pt' : PageTable) : Prop where
  mapped : ∀ j < n, pt' (page + j) = some (u64 (m.physAddr + j * 2 ^ s) / 2 ^ s)
  other : ∀ p, p < page ∨ page + n ≤ p → pt' p = pt p

theorem MapsUpTo.zero (s page : ℕ) (pt : PageTable) : m.MapsUpTo s page 0 pt pt :=
  ⟨fun _ hj => absurd hj (Nat.not_lt_zero _), fun _ _ => rfl⟩

variable {pt pt' : PageTable}

theorem MapsUpTo.succ {s page n : ℕ} (h : m.MapsUpTo s page n pt pt') : m.MapsUpTo s page (n + 1) pt
      (pt'.map (page + n) (u64 (m.physAddr + n * 2 ^ s) / 2 ^ s)) where
  mapped := by
    intro j hj
    by_cases hjn : j = n
    · subst hjn
      exact PageTable.map_self _ _ _
    · rw [PageTable.map_of_ne _ _ (by omega)]
      exact h.mapped j (by omega)
  other := by
    intro p hp
    rw [PageTable.map_of_ne _ _ (by omega)]
    exact h.other p (by omega)

/-- **The page loop**, after `n` of `k` pages. It maps the rest if it succeeds,
and it succeeds if every page can be mapped. -/
theorem mapPages_spec {s page k : ℕ} (remap : ℕ → Bool) {pt₀ : PageTable} {fuel n : ℕ} (hn : n ≤ k)
    (hfuel : k ≤ n + fuel) (h : m.MapsUpTo s page n pt₀ pt) : ((∀ j < k, remap (j * 2 ^ s) = true) →
      (m.mapPages s (page * 2 ^ s) (k * 2 ^ s) remap fuel (n * 2 ^ s) pt).1 = 0) ∧
    ((m.mapPages s (page * 2 ^ s) (k * 2 ^ s) remap fuel (n * 2 ^ s) pt).1 = 0 →
      m.MapsUpTo s page k pt₀
        (m.mapPages s (page * 2 ^ s) (k * 2 ^ s) remap fuel (n * 2 ^ s) pt).2) := by
  have hpos : 0 < 2 ^ s := Nat.two_pow_pos s
  induction fuel generalizing n pt with
  | zero =>
    obtain rfl : n = k := by omega
    exact ⟨fun _ => rfl, fun _ => h⟩
  | succ fuel ih =>
    rw [mapPages]
    by_cases hlt : n < k
    · have hoff : n * 2 ^ s < k * 2 ^ s := Nat.mul_lt_mul_of_pos_right hlt hpos
      rw [if_pos hoff]
      dsimp only
      by_cases hok : remap (n * 2 ^ s) = true
      · have hpage : (page * 2 ^ s + n * 2 ^ s) / 2 ^ s = page + n := by
          rw [← Nat.add_mul, Nat.mul_div_cancel _ hpos]
        have hnext : n * 2 ^ s + 2 ^ s = (n + 1) * 2 ^ s := by
          rw [Nat.add_mul, Nat.one_mul]
        rw [if_pos hok, hpage, hnext, Nat.shiftRight_eq_div_pow]
        exact ih (by omega) (by omega) h.succ
      · rw [if_neg hok]
        exact ⟨fun hall => absurd (hall n hlt) hok,
          fun he => absurd he (show -EINVAL ≠ 0 by decide)⟩
    · obtain rfl : n = k := by omega
      rw [if_neg (Nat.lt_irrefl _)]
      exact ⟨fun _ => rfl, fun _ => h⟩

/-- **A mapped area**: all of `size` bytes from `addr` on, in order, from the
start of the page of the physical address on. -/
def AreaMaps (s addr size physAddr : ℕ) (pt : PageTable) : Prop :=
  ∀ x < size, pt.translate s (addr + x) = some (u64 (physAddr / 2 ^ s * 2 ^ s + x))

theorem MapsUpTo.areaMaps {s page k : ℕ} (hs : s ≤ 64) (h : m.MapsUpTo s page k pt pt') :
    AreaMaps s (page * 2 ^ s) (k * 2 ^ s) m.physAddr pt' := by
  have hpos : 0 < 2 ^ s := Nat.two_pow_pos s
  intro x hx
  have hj : x / 2 ^ s < k := Nat.div_lt_of_lt_mul (by rwa [Nat.mul_comm])
  have hpage : (page * 2 ^ s + x) / 2 ^ s = page + x / 2 ^ s := by
    rw [Nat.add_comm, Nat.add_mul_div_right _ _ hpos, Nat.add_comm]
  have hmod : (page * 2 ^ s + x) % 2 ^ s = x % 2 ^ s := Nat.mul_add_mod_self_right _ _ _
  rw [PageTable.translate, hpage, hmod, h.mapped _ hj, Option.map_some, u64, frame_of_word hs,
    word_of_frame hs, u64]

/-- The page loop on a free area. -/
theorem ipcCdevMmap_spec {s addr : ℕ} {remap : ℕ → Bool} (n : ℕ) (pt : PageTable)
    (hcmd : m.cmd = .mmapLocal ∨ m.cmd = .mmapRemote) (haddr : addr % 2 ^ s = 0) :
    ((∀ j < n, remap (j * 2 ^ s) = true) →
      (m.ipcCdevMmap s addr (n * 2 ^ s) remap pt).1 = 0) ∧
    ((m.ipcCdevMmap s addr (n * 2 ^ s) remap pt).1 = 0 →
      m.MapsUpTo s (addr / 2 ^ s) n pt (m.ipcCdevMmap s addr (n * 2 ^ s) remap pt).2) := by
  have hguard : ¬(m.cmd ≠ .mmapLocal ∧ m.cmd ≠ .mmapRemote) := by tauto
  have haddr : addr / 2 ^ s * 2 ^ s = addr := Nat.div_mul_cancel (Nat.dvd_of_mod_eq_zero haddr)
  have hle : n ≤ n * 2 ^ s := Nat.le_mul_of_pos_right _ (Nat.two_pow_pos s)
  have hspec := mapPages_spec remap (Nat.zero_le n) (hle.trans (Nat.zero_add _).ge)
    (MapsUpTo.zero (m := m) s (addr / 2 ^ s) pt)
  rw [Nat.zero_mul, haddr] at hspec
  rw [ipcCdevMmap, if_neg hguard]
  exact hspec

/-- The kernel has room for `len` bytes, and each page can be mapped. -/
def MmapReply.Grants (s len : ℕ) (r : MmapReply) (pt : PageTable) : Prop :=
  match r.addr with
  | none => False
  | some addr => 0 < len ∧ AreaFree s addr (numPages s len * 2 ^ s) pt ∧
      ∀ j < numPages s len, r.remapPfnRange (j * 2 ^ s) = true

instance (s len : ℕ) (r : MmapReply) (pt : PageTable) : Decidable (r.Grants s len pt) :=
  match h : r.addr with
  | none => isFalse (by rw [MmapReply.Grants, h]; exact id)
  | some addr =>
    decidable_of_iff (0 < len ∧ AreaFree s addr (numPages s len * 2 ^ s) pt ∧
      ∀ j < numPages s len, r.remapPfnRange (j * 2 ^ s) = true) (by rw [MmapReply.Grants, h])

/-- **What `mmap` maps**, when it does not fail: every page of the area, and no
other page changes. It fails only if the kernel finds no room or cannot map a
page. -/
theorem mmap_spec (s len : ℕ) (r : MmapReply) (pt : PageTable)
    (hcmd : m.cmd = .mmapLocal ∨ m.cmd = .mmapRemote) :
    (r.Grants s len pt → (m.mmap s len r pt).1 = r.addr) ∧
    ∀ addr, (m.mmap s len r pt).1 = some addr →
      r.addr = some addr ∧ AreaFree s addr (numPages s len * 2 ^ s) pt ∧
      m.MapsUpTo s (addr / 2 ^ s) (numPages s len) pt (m.mmap s len r pt).2 := by
  unfold mmap MmapReply.Grants
  cases hr : r.addr with
  | none => exact ⟨False.elim, fun _ h => (nomatch h)⟩
  | some addr =>
    dsimp only
    split
    · rename_i hfree
      obtain ⟨hok, hmaps⟩ := ipcCdevMmap_spec (numPages s len) pt hcmd hfree.2.2.1
      split
      · rename_i herr
        exact ⟨fun h => absurd (hok h.2.2) herr, fun _ h => (nomatch h)⟩
      · rename_i herr
        refine ⟨fun _ => rfl, fun a ha => ?_⟩
        obtain rfl := Option.some.inj ha
        exact ⟨rfl, hfree.2, hmaps (not_not.mp herr)⟩
    · rename_i hno
      exact ⟨fun h => absurd ⟨h.1, h.2.1⟩ hno, fun _ h => (nomatch h)⟩

/-- Pages that were mapped stay mapped: the area of an `mmap` is a free one. -/
theorem MapsUpTo.keeps {s addr n : ℕ} (h : m.MapsUpTo s (addr / 2 ^ s) n pt pt')
    (hfree : AreaFree s addr (n * 2 ^ s) pt) {p frame : ℕ} (hp : pt p = some frame) :
    pt' p = some frame := by
  have hvac := hfree.2.2.2
  rw [Nat.mul_div_cancel _ (Nat.two_pow_pos s)] at hvac
  refine (h.other p ?_).trans hp
  by_contra hin
  have hnone := hvac (p - addr / 2 ^ s) (by omega)
  rw [show addr / 2 ^ s + (p - addr / 2 ^ s) = p by omega, hp] at hnone
  exact nomatch hnone

/-- Room stays room when something is mapped apart from it. -/
theorem MmapReply.Grants.after {s len page n : ℕ} {r : MmapReply} (h : r.Grants s len pt)
    (hmaps : m.MapsUpTo s page n pt pt')
    (hapart : ∀ addr ∈ r.addr, page + n ≤ addr / 2 ^ s ∨ addr / 2 ^ s + numPages s len ≤ page) :
    r.Grants s len pt' := by
  unfold MmapReply.Grants at h ⊢
  cases hr : r.addr with
  | none => rwa [hr] at h
  | some addr =>
    rw [hr] at h
    obtain ⟨hlen, ⟨hpos, hmod, htop, hvac⟩, hremap⟩ := h
    refine ⟨hlen, ⟨hpos, hmod, htop, fun j hj => ?_⟩, hremap⟩
    have happart := hapart addr hr
    rw [Nat.mul_div_cancel _ (Nat.two_pow_pos s)] at hj
    rw [hmaps.other _ (by omega)]
    exact hvac j (by rwa [Nat.mul_div_cancel _ (Nat.two_pow_pos s)])

theorem AreaMaps.mono {s addr size physAddr : ℕ} (h : AreaMaps s addr size physAddr pt)
    (hkeep : ∀ p frame, pt p = some frame → pt' p = some frame) :
    AreaMaps s addr size physAddr pt' := by
  intro x hx
  have hx := h x hx
  obtain ⟨frame, hframe, heq⟩ := Option.map_eq_some_iff.mp hx
  rw [PageTable.translate, hkeep _ _ hframe, Option.map_some, heq]

end UioModule
