/-
  Fat32s/FatChain.lean
  ====================
  **The FAT is read from the disk, whatever the buffer holds.**

  Directory entries, file contents and the FAT share one sector buffer, and every
  `fat_get` starts with whatever sector the last function has left there.  It returns the
  entry on the device nevertheless: if the buffer claims to hold the sector of the entry
  then it does, and otherwise that sector is loaded.  So the clusters of a chain come out
  the same whatever is loaded between two of its links, even sectors that cannot be read.

  Nothing is asked of the geometry but that the first FAT lies below 4 GiB and that the
  device delivers its sectors.
-/
import Fat32s.Coherence
import Fat32s.Enumeration

namespace Fat32s

open Fat32s.Lib Fat32s.Lib.Prog

/-- The entry of the cluster lies in the first FAT. -/
def Bpb.InFat (b : Bpb) (c : UInt32) : Prop :=
  4 * c.toNat + 4 ≤ b.fatSize32.toNat * b.bytesPerSector.toNat

/-- The first FAT lies below 4 GiB, and its sectors are delivered. -/
structure Device.HasFat (dev : Device) (b : Bpb) : Prop where
  bps_mem : b.bytesPerSector.toNat ∈ [512, 1024, 2048, 4096]
  below : (b.numReservedSectors.toNat + b.fatSize32.toNat) * b.bytesPerSector.toNat ≤ 2 ^ 32
  reads : ∀ sector, b.numReservedSectors.toNat ≤ sector →
    sector < b.numReservedSectors.toNat + b.fatSize32.toNat →
    dev.avail (sector * b.bytesPerSector.toNat) b.bytesPerSector.toNat = b.bytesPerSector.toNat

/-- The entry on the device, without its four reserved bits. -/
def Device.fatEntry (dev : Device) (b : Bpb) (c : UInt32) : UInt32 :=
  le32 dev.bytes (b.numReservedSectors.toNat * b.bytesPerSector.toNat + 4 * c.toNat) &&& FAT_LO_MASK

/-- The drive works on the device, and the buffer holds the sector it claims to hold if that
    is one that the device delivers. -/
structure Drive.Caches (d : Drive) (b : Bpb) (dev : Device) : Prop where
  bpb : d.bpb = b
  device : d.deviceFd = some dev
  cached : dev.Delivers b.bytesPerSector.toNat d.fsData.currSector →
    dev.Holds b.bytesPerSector.toNat d.fsData.currSector d.fsData.buff

variable {d : Drive} {b : Bpb} {dev : Device} {c : UInt32}

/-! ### Sectors of the FAT -/

namespace Device.HasFat

theorem bps_cases (h : dev.HasFat b) : b.bytesPerSector.toNat = 512 ∨
    b.bytesPerSector.toNat = 1024 ∨ b.bytesPerSector.toNat = 2048 ∨
    b.bytesPerSector.toNat = 4096 := by
  simpa using h.bps_mem

theorem bps_pos (h : dev.HasFat b) : 0 < b.bytesPerSector.toNat := by
  have hbps := h.bps_cases
  omega

theorem bps_le (h : dev.HasFat b) : b.bytesPerSector.toNat ≤ MAX_BYTES_PER_SECTOR := by
  have hbps := h.bps_cases
  unfold MAX_BYTES_PER_SECTOR
  omega

theorem four_dvd_bps (h : dev.HasFat b) : 4 ∣ b.bytesPerSector.toNat := by
  have hbps := h.bps_cases
  omega

/-- The sector of an entry, counted from the start of the FAT. -/
theorem sector_lt (h : dev.HasFat b) (hc : b.InFat c) :
    4 * c.toNat / b.bytesPerSector.toNat < b.fatSize32.toNat := by
  unfold Bpb.InFat at hc
  rw [Nat.div_lt_iff_lt_mul h.bps_pos]
  omega

/-- No computation on the way to an entry wraps. -/
theorem bound (h : dev.HasFat b) : b.numReservedSectors.toNat * b.bytesPerSector.toNat +
    b.fatSize32.toNat * b.bytesPerSector.toNat ≤ 2 ^ 32 := by
  rw [← Nat.add_mul]
  exact h.below

theorem mul_four (h : dev.HasFat b) (hc : b.InFat c) : (c * 4).toNat = 4 * c.toNat := by
  have hbound := h.bound
  unfold Bpb.InFat at hc
  rw [UInt32.toNat_mul]
  simp only [UInt32.reduceToNat]
  omega

theorem delivers (h : dev.HasFat b) {sector : UInt32}
    (hle : b.numReservedSectors.toNat ≤ sector.toNat)
    (hlt : sector.toNat < b.numReservedSectors.toNat + b.fatSize32.toNat) :
    dev.Delivers b.bytesPerSector.toNat sector where
  address_lt := Nat.lt_of_lt_of_le (Nat.mul_lt_mul_of_pos_right hlt h.bps_pos) h.below
  full := h.reads sector.toNat hle hlt

end Device.HasFat

/-- The volumes of the other modules have such a FAT. -/
theorem Volume.hasFat (v : Volume) (hfats : 0 < v.bpb.numFats.toNat) : v.dev.HasFat v.bpb := by
  have hareas := v.areas_le
  have hone : v.bpb.fatSize32.toNat ≤ v.bpb.numFats.toNat * v.bpb.fatSize32.toNat :=
    Nat.le_mul_of_pos_left _ hfats
  have hle : v.bpb.numReservedSectors.toNat + v.bpb.fatSize32.toNat ≤
      v.bpb.totalSectors32.toNat := by omega
  refine ⟨v.bps_mem, (Nat.mul_le_mul_right _ hle).trans v.size_le, ?_⟩
  intro sector _ hlt
  exact v.reads sector (by omega)

/-- So is the buffer of a drive that works on one, as long as it holds a sector of it. -/
theorem Drive.On.caches {v : Volume} (h : d.On v)
    (hsector : d.fsData.currSector.toNat < v.total) : d.Caches v.bpb v.dev := by
  refine ⟨h.bpb, h.dev, ?_⟩
  intro hdelivers i hi
  have hsize := v.dev.avail_le (d.fsData.currSector.toNat * v.bpb.bytesPerSector.toNat)
    v.bpb.bytesPerSector.toNat
  rw [hdelivers.full] at hsize
  exact ⟨by omega, h.coherent hsector i hi⟩

/-! ### One entry -/

namespace Drive.Caches

theorem load (h : d.Caches b dev) (sector : UInt32) : (d.load sector).Caches b dev where
  bpb := (d.load_bpb sector).trans h.bpb
  device := (d.load_deviceFd sector).trans h.device
  cached := by
    rw [Drive.load_currSector]
    intro hdelivers
    by_cases hcache : d.fsData.currSector = sector
    · rw [Drive.load_buff_of_eq hcache, ← hcache]
      exact h.cached (hcache ▸ hdelivers)
    · rw [Drive.load_buff_of_ne hcache]
      exact hdelivers.holds h.device (by rw [h.bpb])

/-- A sector that the device delivers is in the buffer once it has been asked for. -/
theorem holds_load (h : d.Caches b dev) {sector : UInt32}
    (hdelivers : dev.Delivers b.bytesPerSector.toNat sector) :
    dev.Holds b.bytesPerSector.toNat sector (d.load sector).fsData.buff := by
  have hcached := (h.load sector).cached
  rw [Drive.load_currSector] at hcached
  exact hcached hdelivers

theorem fatOk (h : d.Caches b dev) (hfat : dev.HasFat b) (c : UInt32) : d.FatOk c := by
  have hdvd := hfat.four_dvd_bps
  have hpos := hfat.bps_pos
  have hle := hfat.bps_le
  rw [← h.bpb] at hdvd hpos hle
  exact Drive.fatOk_of_dvd hdvd hpos hle c

theorem returns_loadSector (h : d.Caches b dev) (hfat : dev.HasFat b) (sector : UInt32) :
    Returns (loadSector sector) d (d.loadCount sector) (d.load sector) := by
  have hle := hfat.bps_le
  rw [← h.bpb] at hle
  exact Fat32s.returns_loadSector.mpr ⟨Drive.fits_of_le hle sector, rfl, rfl⟩

theorem fatSector_toNat (h : d.Caches b dev) (hfat : dev.HasFat b) (hc : b.InFat c) :
    (d.fatSector c).toNat =
      b.numReservedSectors.toNat + 4 * c.toNat / b.bytesPerSector.toNat := by
  have hlt := hfat.sector_lt hc
  have hbelow := hfat.below
  have hpos := hfat.bps_pos
  have hle := Nat.le_mul_of_pos_right (b.numReservedSectors.toNat + b.fatSize32.toNat) hpos
  rw [Drive.fatSector, UInt32.toNat_add, UInt32.toNat_div, hfat.mul_four hc, h.bpb,
    Bpb.bps_toNat, UInt16.toNat_toUInt32, Nat.mod_eq_of_lt (by omega)]

theorem fatOffset_eq (h : d.Caches b dev) (hfat : dev.HasFat b) (hc : b.InFat c) :
    d.fatOffset c = 4 * c.toNat % b.bytesPerSector.toNat := by
  rw [Drive.fatOffset, UInt32.toNat_mod, hfat.mul_four hc, h.bpb, Bpb.bps_toNat]

theorem delivers_fatSector (h : d.Caches b dev) (hfat : dev.HasFat b) (hc : b.InFat c) :
    dev.Delivers b.bytesPerSector.toNat (d.fatSector c) := by
  have hlt := hfat.sector_lt hc
  apply hfat.delivers
  · rw [h.fatSector_toNat hfat hc]
    exact Nat.le_add_right _ _
  · rw [h.fatSector_toNat hfat hc]
    omega

theorem fatOffset_add_le (h : d.Caches b dev) (hfat : dev.HasFat b) (c : UInt32) :
    d.fatOffset c + 4 ≤ b.bytesPerSector.toNat := by
  have hdvd := hfat.four_dvd_bps
  have hpos := hfat.bps_pos
  rw [← h.bpb] at hdvd hpos ⊢
  exact Drive.fatOffset_add_le hdvd hpos c

theorem fatValue_eq (h : d.Caches b dev) (hfat : dev.HasFat b) (hc : b.InFat c) :
    d.fatValue c = dev.fatEntry b c := by
  have hholds := h.holds_load (h.delivers_fatSector hfat hc)
  apply Drive.fatValue_of_buff (h.fatOffset_add_le hfat c) (fun i hi => (hholds i hi).2)
  have hdm := Nat.div_add_mod (4 * c.toNat) b.bytesPerSector.toNat
  rw [h.fatSector_toNat hfat hc, h.fatOffset_eq hfat hc, Nat.add_mul,
    Nat.mul_comm (4 * c.toNat / b.bytesPerSector.toNat)]
  omega

end Drive.Caches

/-- The entry of a cluster is read from the device. -/
structure Drive.ReadsEntry (d : Drive) (b : Bpb) (dev : Device) (c : UInt32) : Prop where
  inOneSector : 4 * c.toNat % b.bytesPerSector.toNat + 4 ≤ b.bytesPerSector.toNat
  read : ∃ d', Returns (fatGet c) d (dev.fatEntry b c) d' ∧
    dev.Holds b.bytesPerSector.toNat d'.fsData.currSector d'.fsData.buff ∧
    d'.Caches b dev ∧ d'.dirBuff = d.dirBuff

theorem Drive.Caches.readsEntry (h : d.Caches b dev) (hfat : dev.HasFat b) (hc : b.InFat c) :
    d.ReadsEntry b dev c := by
  constructor
  · rw [← h.fatOffset_eq hfat hc]
    exact h.fatOffset_add_le hfat c
  · have hok := h.fatOk hfat c
    have hload := h.load (d.fatSector c)
    have hholds := h.holds_load (h.delivers_fatSector hfat hc)
    refine ⟨d.fatRead c, returns_fatGet.mpr ⟨hok, (h.fatValue_eq hfat hc).symm, rfl⟩, ?_,
      ⟨hload.bpb, hload.device, hload.cached⟩, d.load_dirBuff _⟩
    have hsector : (d.fatRead c).fsData.currSector = d.fatSector c := d.load_currSector _
    rw [hsector]
    exact hholds

/-! ### Chains -/

def loadAll : List UInt32 → DriveM Unit
  | [] => return ()
  | sector :: sectors => do
    let _ ← loadSector sector
    loadAll sectors

/-- Follow `n` links of a chain.  The sectors in `loads` are what other functions load before
    each of them. -/
def follow (loads : Nat → List UInt32) : Nat → UInt32 → DriveM (List UInt32)
  | 0, c => return [c]
  | n + 1, c => do
    loadAll (loads n)
    let next ← fatGet c
    let rest ← follow loads n next
    return c :: rest

theorem Drive.Caches.returns_loadAll (h : d.Caches b dev) (hfat : dev.HasFat b)
    (sectors : List UInt32) : ∃ d', Returns (loadAll sectors) d () d' ∧ d'.Caches b dev ∧
      d'.dirBuff = d.dirBuff := by
  induction sectors generalizing d with
  | nil => exact ⟨d, returns_pure.mpr ⟨rfl, rfl⟩, h, rfl⟩
  | cons sector sectors ih =>
    rcases ih (h.load sector) with ⟨d', hrest, hcaches, hcursor⟩
    have hload := h.returns_loadSector hfat sector
    exact ⟨d', returns_bind.mpr ⟨_, _, hload, hrest⟩, hcaches, hcursor.trans (d.load_dirBuff _)⟩

/-- A chain is followed as it is on the device. -/
theorem Drive.Caches.returns_follow (h : d.Caches b dev) (hfat : dev.HasFat b)
    (loads : Nat → List UInt32) (n : Nat)
    (hchain : ∀ x ∈ List.iterate (dev.fatEntry b) c n, b.InFat x) :
    ∃ d', Returns (follow loads n c) d (List.iterate (dev.fatEntry b) c (n + 1)) d' ∧
      d'.Caches b dev ∧ d'.dirBuff = d.dirBuff := by
  induction n generalizing d c with
  | zero => exact ⟨d, returns_pure.mpr ⟨rfl, rfl⟩, h, rfl⟩
  | succ n ih =>
    rcases h.returns_loadAll hfat (loads n) with ⟨d₁, hloads, hcaches₁, hcursor₁⟩
    have hc : b.InFat c := hchain c List.mem_cons_self
    rcases (hcaches₁.readsEntry hfat hc).read with ⟨d₂, hget, _, hcaches₂, hcursor₂⟩
    have hrest : ∀ x ∈ List.iterate (dev.fatEntry b) (dev.fatEntry b c) n, b.InFat x :=
      fun x hx => hchain x (List.mem_cons_of_mem _ hx)
    rcases ih hcaches₂ hrest with ⟨d₃, hfollow, hcaches₃, hcursor₃⟩
    refine ⟨d₃, ?_, hcaches₃, hcursor₃.trans (hcursor₂.trans hcursor₁)⟩
    refine returns_bind.mpr ⟨_, _, hloads, returns_bind.mpr ⟨_, _, hget, ?_⟩⟩
    exact returns_bind.mpr ⟨_, _, hfollow, returns_pure.mpr ⟨rfl, rfl⟩⟩

/-- **`fat_get` reads the entry on the disk from any cache state.**  It does so for every
    cluster with an entry in the FAT, and leaves the cursor alone and the buffer right.
    What comes out of a chain depends neither on what was cached nor on what is loaded
    between its links. -/
theorem fat_get_reads_disk (hfat : dev.HasFat b) (hd : d.Caches b dev) :
    (∀ c, b.InFat c → d.ReadsEntry b dev c) ∧
    ∀ (loads : Nat → List UInt32) (n : Nat) (c : UInt32),
      (∀ x ∈ List.iterate (dev.fatEntry b) c n, b.InFat x) →
      ∃ d', Returns (follow loads n c) d (List.iterate (dev.fatEntry b) c (n + 1)) d' ∧
        d'.Caches b dev ∧ d'.dirBuff = d.dirBuff :=
  ⟨fun _ hc => hd.readsEntry hfat hc, fun loads n _ hchain => hd.returns_follow hfat loads n hchain⟩

/-- The chain of the fragmented root directory, with the boot sector, the second cluster and
    a sector past the end of the device loaded before each link. -/
theorem fat_get_reads_fragments : ∃ s d',
    Returns (doMount (diskEnv Fragmented.volume.dev) mountMessage) (Server.initial fun _ => [])
      OK s ∧
    Returns (follow (fun _ => [0, 4, 99]) 2 2) s.toDrive [2, 4, 0x0FFFFFFF] d' ∧
    d'.dirBuff = s.dirBuff := by
  rcases (Image.bootable _ (by decide) (by decide +kernel) :
    Fragmented.volume.Bootable).mounted Fragmented.linked.isData fun _ => [] with
    ⟨s, hmount, hcwd, _⟩
  have hfat : Fragmented.volume.dev.HasFat Fragmented.volume.bpb :=
    Fragmented.volume.hasFat (by decide +kernel)
  have hsector : s.fsData.currSector.toNat < Fragmented.volume.total := by
    rw [hcwd.cursor.loaded]
    exact hcwd.cursor.sector_lt
  have hcaches := hcwd.on.caches hsector
  have hchain : List.iterate (Fragmented.volume.dev.fatEntry Fragmented.volume.bpb) 2 3 =
      [2, 4, 0x0FFFFFFF] := by decide +kernel
  have hin : ∀ x ∈ List.iterate (Fragmented.volume.dev.fatEntry Fragmented.volume.bpb) 2 2,
      Fragmented.volume.bpb.InFat x := by
    have htwo : List.iterate (Fragmented.volume.dev.fatEntry Fragmented.volume.bpb) 2 2 =
        [2, 4] := by decide +kernel
    rw [htwo, List.forall_mem_cons, List.forall_mem_singleton]
    unfold Bpb.InFat
    decide +kernel
  rcases (fat_get_reads_disk hfat hcaches).2 (fun _ => [0, 4, 99]) 2 2 hin with
    ⟨d', hfollow, _, hcursor⟩
  rw [hchain] at hfollow
  exact ⟨s, d', hmount, hfollow, hcursor⟩

end Fat32s
