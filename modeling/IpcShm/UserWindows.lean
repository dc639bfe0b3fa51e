import IpcShm.UioLibrary

/-!
# The windows in user space

The library computes where a window lies twice: it rounds the physical address
down to a page and asks for the bytes from there to the end of the window, and
it adds the offset it rounded away to the address it gets. The module computes
the frames of the pages from the address itself, which a request has left
there. `ipcOsInit_windows` says that the two agree. After an initialization that
reports success every byte of both windows is at its place, whatever the page
size, and every page of the two areas is mapped. The remote window takes nothing
away from the local one, since the kernel puts it where nothing is mapped.
-/

namespace UioOs

variable {s inst : ℕ} {w w' : UioOs}

/-- **A window in user space.** The area at `map` has all its pages, and the bytes
of the physical window are those from `virt` on, in order. -/
structure MapsWindow (s : ℕ) (pt : PageTable) (map virt shmAddr shmSize : ℕ) : Prop where
  bytes : ∀ k < shmSize, pt.translate s (virt + k) = some (u64 (shmAddr + k))
  pages : ∀ x < numPages s (windowLen s shmAddr shmSize) * 2 ^ s,
    (pt.translate s (map + x)).isSome = true

/-- The offset the library adds is the one it rounded away. -/
theorem mapsWindow_of_areaMaps {pt : PageTable} {map shmAddr shmSize : ℕ}
    (h : UioModule.AreaMaps s map (numPages s (windowLen s shmAddr shmSize) * 2 ^ s) shmAddr pt) :
    MapsWindow s pt map (map + (shmAddr - shmAddr / 2 ^ s * 2 ^ s)) shmAddr shmSize where
  bytes := by
    intro k hk
    have hround : shmAddr / 2 ^ s * 2 ^ s ≤ shmAddr := Nat.div_mul_le_self _ _
    have hin : shmAddr - shmAddr / 2 ^ s * 2 ^ s + k
        < numPages s (windowLen s shmAddr shmSize) * 2 ^ s :=
      Nat.lt_of_lt_of_le (Nat.add_lt_add_left hk _) (le_numPages_mul s _)
    rw [Nat.add_assoc, h _ hin, ← Nat.add_assoc, Nat.add_sub_cancel' hround]
  pages := fun x hx => by rw [h x hx]; rfl

/-! ## One window -/

section MapShm

variable {req : IpcIoc} {shmAddr : ℕ} (hreq : req = .mmapLocal shmAddr ∨ req = .mmapRemote shmAddr)
  {reply : Bool} {uio : UioReplies} {mr : UioModule.MmapReply} {shmSize : ℕ}
  {record : ℕ → Option ℕ → UioInstance → UioInstance}
  (hzero : (w.mapShm s reply uio req mr shmAddr shmSize record inst).1 = 0)

include hreq hzero

/-- A window that is mapped was requested of a module, and is where nothing was
mapped. -/
theorem mapShm_mapped :
    ∃ (m : UioModule) (map : ℕ),
      UioModule.AreaFree s map (numPages s (windowLen s shmAddr shmSize) * 2 ^ s) w.pages ∧
      (m.mapping req shmAddr).MapsUpTo s (map / 2 ^ s) (numPages s (windowLen s shmAddr shmSize))
        w.pages (w.mapShm s reply uio req mr shmAddr shmSize record inst).2.pages ∧
      (w.mapShm s reply uio req mr shmAddr shmSize record inst).2.id inst
        = record (shmAddr - shmAddr / 2 ^ s * 2 ^ s) (some map) (w.id inst) := by
  rcases served_or w reply uio req with ⟨m, hserved⟩ | hrefused
  · obtain ⟨map, -, hfree, hmap, hid⟩ :=
      (hserved.mapShm s inst req hreq reply uio mr shmSize record).2 hzero
    exact ⟨m, map, hfree, hmap, hid⟩
  · rw [UioOs.mapShm, hrefused] at hzero
    exact absurd hzero (show -EINVAL ≠ 0 by decide)

/-- **A window that is mapped** keeps what was mapped before. -/
theorem mapShm_maps (hs : s ≤ 64) :
    ∃ map, UioModule.AreaMaps s map (numPages s (windowLen s shmAddr shmSize) * 2 ^ s) shmAddr
        (w.mapShm s reply uio req mr shmAddr shmSize record inst).2.pages ∧
      (∀ p frame, w.pages p = some frame →
        (w.mapShm s reply uio req mr shmAddr shmSize record inst).2.pages p = some frame) ∧
      (w.mapShm s reply uio req mr shmAddr shmSize record inst).2.id inst
        = record (shmAddr - shmAddr / 2 ^ s * 2 ^ s) (some map) (w.id inst) := by
  obtain ⟨m, map, hfree, hmap, hid⟩ := mapShm_mapped hreq hzero
  have harea := hmap.areaMaps hs
  rw [Nat.div_mul_cancel (Nat.dvd_of_mod_eq_zero hfree.2.1)] at harea
  exact ⟨map, harea, fun p frame hp => hmap.keeps hfree hp, hid⟩

end MapShm

/-! ## Both windows -/

/-- The windows of an instance are in user space, where its data says. -/
def HasWindows (s : ℕ) (w : UioOs) (inst : ℕ) (cfg : IpcShmCfg) : Prop :=
  MapsWindow s w.pages (w.id inst).localShmMap (w.id inst).localVirtShm cfg.localShmAddr
      cfg.shmSize.toNat ∧
    MapsWindow s w.pages (w.id inst).remoteShmMap (w.id inst).remoteVirtShm cfg.remoteShmAddr
      cfg.shmSize.toNat

/-- What follows the mapping of the windows leaves them alone. -/
theorem HasWindows.initUio {cfg cfg' : IpcShmCfg} {res : Option (InitLabel × ℤ) × UioOs}
    (hw : w.HasWindows s inst cfg) (h : InitUio inst cfg' w res) :
    res.2.HasWindows s inst cfg := by
  unfold HasWindows
  cases h with
  | refused | silent | opened | started =>
    rw [setId_self]
    exact hw

theorem initLocal_hasWindows (hs : s ≤ 64) {r : UioInitReplies} {cfg : IpcShmCfg}
    (h : (w.initLocal s r inst cfg).1 = none) :
    (w.initLocal s r inst cfg).2.HasWindows s inst cfg := by
  unfold initLocal at h ⊢
  dsimp only at h ⊢
  split at h
  · exact nomatch h
  rename_i hlocal
  rw [if_neg hlocal]
  obtain ⟨map, harea, -, hid⟩ := mapShm_maps (Or.inl rfl) (not_not.mp hlocal) hs
  set w₁ := (w.mapShm s r.ioctlMmapLocal r.uio (.mmapLocal cfg.localShmAddr) r.mmapLocal
    cfg.localShmAddr cfg.shmSize.toNat recordLocal inst).2
  unfold initRemote at h ⊢
  dsimp only at h ⊢
  split at h
  · exact nomatch h
  rename_i hremote
  rw [if_neg hremote]
  obtain ⟨map', harea', hkeep, hid'⟩ := mapShm_maps (Or.inr rfl) (not_not.mp hremote) hs
  refine HasWindows.initUio ?_ (initUio_cases _ r inst cfg)
  unfold HasWindows
  rw [hid', hid]
  -- the local area is still mapped when the remote one is
  exact ⟨mapsWindow_of_areaMaps (harea.mono hkeep), mapsWindow_of_areaMaps harea'⟩

/-- The module is there, or it can be loaded. -/
def Available (w : UioOs) (r : UioInitReplies) : Prop :=
  if w.isFilesOpened then w.files w.ipcCdevFd = some .ipcCdev ∧ w.kmod.isSome = true
  else w.Loads r

instance (w : UioOs) (r : UioInitReplies) : Decidable (w.Available r) :=
  inferInstanceAs (Decidable (if w.isFilesOpened then
    w.files w.ipcCdevFd = some .ipcCdev ∧ w.kmod.isSome = true else w.Loads r))

/-- With every call granted, all of them are made. -/
theorem Served.initInstance {m : UioModule} (h : w.Served m) (hinst : inst < ipcShmMaxInstances)
    {r : UioInitReplies} {cfg : IpcShmCfg} (hc : w.Completes s m [] r inst cfg) :
    (w.initInstance s r inst cfg).1 = 0 := by
  have hdone := h.initLocal hinst hc
  unfold UioOs.initInstance
  rcases hres : w.initLocal s r inst cfg with ⟨_ | ⟨label, err⟩, w'⟩
  · rfl
  · rw [hres] at hdone
    exact nomatch hdone

theorem Completes.ipcOsInit {r : UioInitReplies} {cfg : IpcShmCfg}
    (hinst : inst < ipcShmMaxInstances) (havail : w.Available r)
    (hc : w.Completes s (w.kmod.getD .probed) (w.firstOpened r) r inst cfg) :
    (w.ipcOsInit s r inst cfg true).1 = 0 := by
  unfold Available at havail
  unfold firstOpened at hc
  rw [UioOs.ipcOsInit, if_neg (by decide)]
  dsimp only
  set w₁ := w.setId inst { w.id inst with shmSize := cfg.shmSize.toNat }
  by_cases hopened : w.isFilesOpened = true
  · rw [if_pos hopened] at havail hc
    obtain ⟨hcdev, hkmod⟩ := havail
    obtain ⟨m, hm⟩ := Option.isSome_iff_exists.mp hkmod
    rw [hm] at hc
    have hinit : w₁.ipcOsModuleInit r = (0, w₁) := if_pos hopened
    rw [hinit]
    exact Served.initInstance (w := w₁) ⟨hcdev, hm⟩ hinst hc
  · rw [if_neg hopened] at havail hc
    have hloads : w₁.Loads r := havail
    obtain ⟨fd, fd', hfd, hfd', -, -, -, hinit⟩ :=
      hloads.ipcOsModuleInit (Bool.eq_false_iff.mpr hopened)
    rw [hfd, hfd', show w.kmod = none from havail.2.2.1] at hc
    rw [hinit]
    exact Served.initInstance (w := w₁.loaded fd fd') ⟨Function.update_self _ _ _, rfl⟩ hinst
      (Completes.loaded (w := w₁) hc)

/-- **The windows of an instance in user space**, with pages of any size. Whatever
the library did before, an initialization that reports success has mapped every
byte of both windows to its physical byte and left no page of the two areas
unmapped; and it reports success if no call to the system fails. -/
theorem ipcOsInit_windows {s : ℕ} (hs : s < 64) (w : UioOs) (r : UioInitReplies) (inst : ℕ)
    (cfg : IpcShmCfg) :
    (∀ rxCb, (w.ipcOsInit s r inst cfg rxCb).1 = 0 →
      (w.ipcOsInit s r inst cfg rxCb).2.HasWindows s inst cfg) ∧
    (inst < ipcShmMaxInstances → w.Available r →
      w.Completes s (w.kmod.getD .probed) (w.firstOpened r) r inst cfg →
      (w.ipcOsInit s r inst cfg true).1 = 0) := by
  constructor
  · intro rxCb hzero
    unfold ipcOsInit at hzero ⊢
    cases rxCb with
    | false => exact absurd hzero (show -EINVAL ≠ 0 by decide)
    | true =>
      rw [if_neg (by decide)] at hzero ⊢
      dsimp only at hzero ⊢
      split at hzero
      · rename_i herr
        exact absurd hzero herr
      rename_i hok
      rw [if_neg hok]
      unfold initInstance at hzero ⊢
      set w₁ := (UioOs.ipcOsModuleInit _ r).2
      rcases hres : w₁.initLocal s r inst cfg with ⟨_ | ⟨label, err⟩, w'⟩
      · have hwin : (w₁.initLocal s r inst cfg).2.HasWindows s inst cfg :=
          initLocal_hasWindows hs.le (by rw [hres])
        rw [hres] at hwin
        unfold HasWindows
        rw [setId_self]
        exact hwin
      · have hcases := initLocal_cases s w₁ r inst cfg
        rw [hres] at hzero hcases
        exact absurd hzero hcases.err_ne
  · exact Completes.ipcOsInit

/-- Two windows of one page each, one of them not at the start of a page. -/
theorem ipcOsInit_windows_first :
    (start.ipcOsInit 12 (granted 0) 0 initCfg true).1 = 0 ∧
      (start.ipcOsInit 12 (granted 0) 0 initCfg true).2.HasWindows 12 0 initCfg := by
  obtain ⟨hmaps, hdone⟩ := ipcOsInit_windows (s := 12) (by decide) start (granted 0) 0 initCfg
  have hzero := hdone (by decide) (by decide +kernel) (by decide +kernel)
  exact ⟨hzero, hmaps true hzero⟩

end UioOs
