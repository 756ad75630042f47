/-
  Fat32s/Volume.lean
  ==================
  **Volumes with a valid geometry.**

  A `Volume` is a boot sector and a device that fit together: sector and
  cluster sizes that FAT32 allows, the reserved sectors, the FATs and the data
  area inside the device, at most 4 GiB in all, and a device that delivers every
  sector of the volume.  Its clusters, FAT entries and slots are read off the
  device directly, in exact arithmetic and without a cache.

  The second half connects this view to the server: on a drive that holds the
  volume, the 32-bit computations of `util.c` give the exact values, and a load
  of any sector of the volume leaves that sector in the buffer.
-/
import Fat32s.Scan

namespace Fat32s

open Fat32s.Lib Fat32s.Lib.Prog

structure Volume where
  bpb : Bpb
  dev : Device
  bps_mem : bpb.bytesPerSector.toNat ∈ [512, 1024, 2048, 4096]
  spc_mem : bpb.sectorsPerCluster.toNat ∈ [1, 2, 4, 8, 16, 32, 64, 128]
  reserved_pos : 0 < bpb.numReservedSectors.toNat
  areas_le : bpb.numReservedSectors.toNat + bpb.numFats.toNat * bpb.fatSize32.toNat ≤
    bpb.totalSectors32.toNat
  size_le : bpb.totalSectors32.toNat * bpb.bytesPerSector.toNat ≤ 2 ^ 32
  reads : ∀ sector < bpb.totalSectors32.toNat,
    dev.avail (sector * bpb.bytesPerSector.toNat) bpb.bytesPerSector.toNat =
      bpb.bytesPerSector.toNat

namespace Volume

variable (v : Volume)

/-! ### Geometry -/

def bps : Nat := v.bpb.bytesPerSector.toNat
def spc : Nat := v.bpb.sectorsPerCluster.toNat
def total : Nat := v.bpb.totalSectors32.toNat
def reserved : Nat := v.bpb.numReservedSectors.toNat

/-- The first data sector and the number of data clusters. -/
def fds : Nat := v.reserved + v.bpb.numFats.toNat * v.bpb.fatSize32.toNat
def ndc : Nat := (v.total - v.fds) / v.spc

def slotsPerSector : Nat := v.bps / 32
def clusterSize : Nat := v.spc * v.bps

/-- The data clusters are numbered from 2. -/
def IsData (c : UInt32) : Prop := 2 ≤ c.toNat ∧ c.toNat < v.ndc + 2

def firstSector (c : UInt32) : Nat := v.fds + (c.toNat - 2) * v.spc

/-- The device address of the first byte of a cluster. -/
def base (c : UInt32) : Nat := v.firstSector c * v.bps

/-! ### Contents -/

/-- The entry of a cluster in the first FAT, without its four reserved bits. -/
def fat (c : UInt32) : UInt32 :=
  le32 v.dev.bytes (v.reserved * v.bps + 4 * c.toNat) &&& FAT_LO_MASK

def slot (addr : Nat) : Slot := fun i => v.dev.bytes (addr + i)

/-- The device addresses of the items of `k` bytes in a cluster. -/
def addrs (k : Nat) (c : UInt32) : List Nat :=
  (List.range (v.clusterSize / k)).map fun i => v.base c + k * i

def clusterBytes (c : UInt32) : List UInt8 := (v.addrs 1 c).map v.dev.bytes
def clusterSlots (c : UInt32) : List Slot := (v.addrs 32 c).map v.slot

/-! ### Arithmetic of a valid geometry -/

theorem bps_cases : v.bps = 512 ∨ v.bps = 1024 ∨ v.bps = 2048 ∨ v.bps = 4096 := by
  simpa [bps] using v.bps_mem

theorem spc_pos : 0 < v.spc := by
  have h : v.spc ∈ [1, 2, 4, 8, 16, 32, 64, 128] := v.spc_mem
  simp at h
  omega

theorem bps_eq : v.bps = 32 * v.slotsPerSector := by
  have h := v.bps_cases
  unfold slotsPerSector
  omega

theorem total_le : v.total ≤ 2 ^ 23 := by
  have h := v.bps_cases
  have hsize : v.total * v.bps ≤ 2 ^ 32 := v.size_le
  have hmul : v.total * 512 ≤ v.total * v.bps := Nat.mul_le_mul_left _ (by omega)
  omega

theorem fds_le : v.fds ≤ v.total := v.areas_le

theorem fds_pos : 0 < v.fds := by
  have h : 0 < v.reserved := v.reserved_pos
  unfold fds
  omega

theorem ndc_mul_spc_le : v.ndc * v.spc ≤ v.total - v.fds := Nat.div_mul_le_self _ _

/-- A sector of a data cluster lies inside the volume. -/
theorem firstSector_add_lt {c : UInt32} (hc : v.IsData c) {k : Nat} (hk : k < v.spc) :
    v.firstSector c + k < v.total := by
  have hfds := v.fds_le
  have hdata := v.ndc_mul_spc_le
  have hrow : (c.toNat - 2 + 1) * v.spc ≤ v.ndc * v.spc :=
    Nat.mul_le_mul_right _ (by have := hc.1; have := hc.2; omega)
  rw [Nat.add_mul, Nat.one_mul] at hrow
  unfold firstSector
  omega

theorem ndc_pos {c : UInt32} (hc : v.IsData c) : 0 < v.ndc := by
  have := hc.1
  have := hc.2
  omega

/-- The entry of a cluster number in the first FAT lies inside the volume. -/
structure HasEntry (c : UInt32) : Prop where
  mul_four : (c * 4).toNat = 4 * c.toNat
  sector_lt : v.reserved + 4 * c.toNat / v.bps < v.total

theorem IsData.hasEntry {v : Volume} {c : UInt32} (hc : v.IsData c) : v.HasEntry c := by
  have hndc : v.ndc ≤ v.total - v.fds := Nat.div_le_self _ _
  have htotal := v.total_le
  have hlt := hc.2
  have hbps := v.bps_cases
  have hres : v.reserved ≤ v.fds := Nat.le_add_right _ _
  have hfds := v.fds_le
  have hpos := v.ndc_pos hc
  have hdiv : 4 * c.toNat / v.bps ≤ 4 * c.toNat / 512 :=
    Nat.div_le_div_left (by omega) (by decide)
  constructor
  · rw [UInt32.toNat_mul]
    simp only [UInt32.reduceToNat]
    omega
  · omega

end Volume

/-! ### Numbers of clusters and sectors -/

/-- `sector` is sector `k` of the cluster `c`, in exact arithmetic. -/
structure Drive.IsSector (d : Drive) (c : UInt32) (k : Nat) (sector : UInt32) : Prop where
  two_le : 2 ≤ c.toNat
  lt : k < d.bpb.spc.toNat
  eq : sector.toNat = d.fsData.firstDataSector.toNat + ((c.toNat - 2) * d.bpb.spc.toNat + k)

/-- The 32-bit computation is exact as long as its result fits. -/
theorem Drive.firstSectorOfCluster_exact {d : Drive} {c : UInt32} (h2 : 2 ≤ c.toNat)
    (hlt : d.fsData.firstDataSector.toNat + (c.toNat - 2) * d.bpb.spc.toNat < 2 ^ 32) :
    (d.firstSectorOfCluster c).toNat =
      d.fsData.firstDataSector.toNat + (c.toNat - 2) * d.bpb.spc.toNat := by
  have hsub : (c - 2).toNat = c.toNat - 2 :=
    UInt32.toNat_sub_of_le _ _ (by rw [UInt32.le_iff_toNat_le]; simpa using h2)
  have hmul : (c.toNat - 2) * d.bpb.spc.toNat % 2 ^ 32 = (c.toNat - 2) * d.bpb.spc.toNat :=
    Nat.mod_eq_of_lt (by omega)
  rw [Drive.firstSectorOfCluster, UInt32.toNat_add, UInt32.toNat_mul, hsub, hmul,
    Nat.mod_eq_of_lt hlt]

namespace Drive.IsSector

variable {d : Drive} {c c' sector : UInt32} {k k' : Nat}

/-- How far the sector is from the start of the data area. -/
theorem sub_toNat (h : d.IsSector c k sector) :
    (sector - d.fsData.firstDataSector).toNat = (c.toNat - 2) * d.bpb.spc.toNat + k := by
  have heq := h.eq
  rw [UInt32.toNat_sub_of_le _ _ (by rw [UInt32.le_iff_toNat_le]; omega)]
  omega

/-- `sector_to_cluster` finds the cluster. -/
theorem clusterOf_eq (h : d.IsSector c k sector) : d.clusterOf sector = c := by
  have hspc : 0 < d.bpb.spc.toNat := Nat.zero_lt_of_lt h.lt
  have hdiv : ((c.toNat - 2) * d.bpb.spc.toNat + k) / d.bpb.spc.toNat = c.toNat - 2 := by
    rw [Nat.add_comm, Nat.add_mul_div_right _ _ hspc, Nat.div_eq_of_lt h.lt, Nat.zero_add]
  have hlt := c.toNat_lt
  have h2 := h.two_le
  apply UInt32.toNat.inj
  rw [Drive.clusterOf, UInt32.toNat_add, UInt32.toNat_div, h.sub_toNat, hdiv]
  simp
  omega

/-- The test for the end of a cluster, in exact arithmetic. -/
theorem end_iff (h : d.IsSector c k sector) (hlt : sector.toNat + 1 < 2 ^ 32) :
    (sector + 1 - d.fsData.firstDataSector) % d.bpb.spc = 0 ↔ k + 1 = d.bpb.spc.toNat := by
  have heq := h.eq
  have hk := h.lt
  have hnext : (sector + 1).toNat = sector.toNat + 1 := by
    rw [UInt32.toNat_add]
    simp only [UInt32.reduceToNat]
    omega
  have hrest : (sector + 1 - d.fsData.firstDataSector).toNat =
      (c.toNat - 2) * d.bpb.spc.toNat + (k + 1) := by
    rw [UInt32.toNat_sub_of_le _ _ (by rw [UInt32.le_iff_toNat_le]; omega)]
    omega
  have hmod : ((sector + 1 - d.fsData.firstDataSector) % d.bpb.spc).toNat =
      (k + 1) % d.bpb.spc.toNat := by
    rw [UInt32.toNat_mod, hrest, Nat.add_comm, Nat.add_mul_mod_self_right]
  rw [← UInt32.toNat_inj, hmod]
  constructor
  · intro hzero
    rcases Nat.lt_or_ge (k + 1) d.bpb.spc.toNat with hk' | hk'
    · rw [Nat.mod_eq_of_lt hk'] at hzero
      simp at hzero
    · omega
  · intro hend
    rw [hend, Nat.mod_self]
    rfl

/-- No sector lies in two clusters, or at two places of one. -/
theorem unique (h : d.IsSector c k sector) (h' : d.IsSector c' k' sector) : c = c' ∧ k = k' := by
  have hc : c = c' := h.clusterOf_eq.symm.trans h'.clusterOf_eq
  subst hc
  have heq := h.eq
  have heq' := h'.eq
  exact ⟨rfl, by omega⟩

end Drive.IsSector

/-! ### Drives that hold a volume -/

/-- The drive works on the volume, and the buffer is right for every sector of
    the volume that it claims to hold. -/
structure Drive.On (d : Drive) (v : Volume) : Prop where
  bpb : d.bpb = v.bpb
  dev : d.deviceFd = some v.dev
  fds : d.fsData.firstDataSector.toNat = v.fds
  coherent : d.fsData.currSector.toNat < v.total → ∀ i < v.bps,
    d.fsData.buff i = v.dev.bytes (d.fsData.currSector.toNat * v.bps + i)

theorem Drive.firstSectorOfCluster_toNat {v : Volume} {d : Drive} (hbpb : d.bpb = v.bpb)
    (hfds : d.fsData.firstDataSector.toNat = v.fds) {c : UInt32} (hc : v.IsData c) :
    (d.firstSectorOfCluster c).toNat = v.firstSector c := by
  have hlt := v.firstSector_add_lt hc v.spc_pos
  have htotal := v.total_le
  have hspc : d.bpb.spc.toNat = v.spc := by rw [hbpb]; exact UInt8.toNat_toUInt32 _
  unfold Volume.firstSector at hlt ⊢
  rw [Drive.firstSectorOfCluster_exact hc.1 (by rw [hfds, hspc]; omega), hfds, hspc]

namespace Drive.On

variable {v : Volume} {d : Drive}

/-- The seek address of a sector of the volume does not wrap. -/
theorem address (hbpb : d.bpb = v.bpb) {sector : UInt32} (hs : sector.toNat < v.total) :
    (sector * d.bpb.bps).toNat = sector.toNat * v.bps := by
  have hsize : v.total * v.bps ≤ 2 ^ 32 := v.size_le
  have hbps : d.bpb.bps.toNat = v.bps := by rw [hbpb]; exact UInt16.toNat_toUInt32 _
  have hlt : sector.toNat * v.bps < v.total * v.bps :=
    Nat.mul_lt_mul_of_pos_right hs (by have := v.bps_cases; omega)
  rw [UInt32.toNat_mul, hbps, Nat.mod_eq_of_lt (by omega)]

/-- No sector of the volume is longer than the buffer. -/
theorem bps_le (hbpb : d.bpb = v.bpb) : d.bpb.bytesPerSector.toNat ≤ MAX_BYTES_PER_SECTOR := by
  have hbps := v.bps_cases
  rw [hbpb, MAX_BYTES_PER_SECTOR]
  change v.bps ≤ 4096
  omega

/-- A sector of the volume that is not the cached one is read in full. -/
theorem load_buff_of_ne (hbpb : d.bpb = v.bpb) (hdev : d.deviceFd = some v.dev) {sector : UInt32}
    (hne : d.fsData.currSector ≠ sector) (hs : sector.toNat < v.total) {i : Nat} (hi : i < v.bps) :
    (d.load sector).fsData.buff i = v.dev.bytes (sector.toNat * v.bps + i) := by
  have hbps : d.bpb.bps.toNat = v.bps := by rw [hbpb]; exact UInt16.toNat_toUInt32 _
  have havail : v.dev.avail (sector.toNat * v.bps) v.bps = v.bps := v.reads _ hs
  simp only [Drive.load, hne, if_false, Drive.readSector, hdev, Device.read, address hbpb hs,
    hbps, havail, hi, if_true]

/-- The first load of a sector establishes coherence. -/
theorem of_load (hbpb : d.bpb = v.bpb) (hdev : d.deviceFd = some v.dev)
    (hfds : d.fsData.firstDataSector.toNat = v.fds) {sector : UInt32}
    (hne : d.fsData.currSector ≠ sector) (hs : sector.toNat < v.total) :
    (d.load sector).On v where
  bpb := by rw [Drive.load_bpb, hbpb]
  dev := by rw [Drive.load_deviceFd, hdev]
  fds := by rw [Drive.load_firstDataSector, hfds]
  coherent := by
    rw [Drive.load_currSector]
    intro _ i hi
    exact load_buff_of_ne hbpb hdev hne hs hi

theorem bps_toNat (h : d.On v) : d.bpb.bps.toNat = v.bps := by
  rw [h.bpb]; exact UInt16.toNat_toUInt32 _

theorem spc_toNat (h : d.On v) : d.bpb.spc.toNat = v.spc := by
  rw [h.bpb]; exact UInt8.toNat_toUInt32 _

theorem bps_ne_zero (h : d.On v) : d.bpb.bps ≠ 0 := by
  intro hzero
  have hbps := h.bps_toNat
  rw [hzero] at hbps
  have := v.bps_cases
  simp at hbps
  omega

theorem spc_ne_zero (h : d.On v) : d.bpb.spc ≠ 0 := by
  intro hzero
  have hspc := h.spc_toNat
  rw [hzero] at hspc
  have := v.spc_pos
  simp at hspc
  omega

/-! #### The buffer -/

theorem fits (h : d.On v) (sector : UInt32) : d.Fits sector :=
  Drive.fits_of_le (bps_le h.bpb) sector

theorem load_buff (h : d.On v) {sector : UInt32} (hs : sector.toNat < v.total) {i : Nat}
    (hi : i < v.bps) :
    (d.load sector).fsData.buff i = v.dev.bytes (sector.toNat * v.bps + i) := by
  by_cases hcache : d.fsData.currSector = sector
  · subst hcache
    have := h.coherent hs i hi
    simpa [Drive.load] using this
  · exact load_buff_of_ne h.bpb h.dev hcache hs hi

protected theorem load (h : d.On v) (sector : UInt32) : (d.load sector).On v where
  bpb := by rw [Drive.load_bpb, h.bpb]
  dev := by rw [Drive.load_deviceFd, h.dev]
  fds := by rw [Drive.load_firstDataSector, h.fds]
  coherent := by
    rw [Drive.load_currSector]
    intro hs i hi
    exact h.load_buff hs hi

theorem seek (h : d.On v) (sector : UInt32) (offset : Nat) : (d.seek sector offset).On v :=
  ⟨h.bpb, h.dev, h.fds, h.coherent⟩

theorem parse (h : d.On v) (off : Nat) : (d.parse off).On v :=
  ⟨h.bpb, h.dev, h.fds, h.coherent⟩

theorem jump (h : d.On v) (sector : UInt32) : (d.jump sector).On v :=
  ((h.seek sector 0).load sector).parse 0

/-! #### Clusters and sectors -/

theorem firstSectorOfCluster_toNat (h : d.On v) {c : UInt32} (hc : v.IsData c) :
    (d.firstSectorOfCluster c).toNat = v.firstSector c :=
  Drive.firstSectorOfCluster_toNat h.bpb h.fds hc

theorem isSector (h : d.On v) {c sector : UInt32} {k : Nat} (hc : v.IsData c) (hk : k < v.spc)
    (hs : sector.toNat = v.firstSector c + k) : d.IsSector c k sector where
  two_le := hc.1
  lt := by rw [h.spc_toNat]; exact hk
  eq := by rw [h.fds, h.spc_toNat, hs, Volume.firstSector, Nat.add_assoc]

theorem clusterOf_eq (h : d.On v) {c sector : UInt32} {k : Nat} (hc : v.IsData c)
    (hk : k < v.spc) (hs : sector.toNat = v.firstSector c + k) : d.clusterOf sector = c :=
  (h.isSector hc hk hs).clusterOf_eq

theorem atClusterEnd_iff (h : d.On v) {c : UInt32} {k : Nat} (hc : v.IsData c) (hk : k < v.spc)
    (hs : d.dirBuff.sector.toNat = v.firstSector c + k) : d.AtClusterEnd ↔ k + 1 = v.spc := by
  have hlt := v.firstSector_add_lt hc hk
  have htotal := v.total_le
  rw [← h.spc_toNat]
  exact (h.isSector hc hk hs).end_iff (by omega)

/-! #### FAT entries -/

theorem fatOffset_eq (h : d.On v) {c : UInt32} (hc : v.HasEntry c) :
    d.fatOffset c = 4 * c.toNat % v.bps := by
  rw [Drive.fatOffset, UInt32.toNat_mod, hc.mul_four, h.bps_toNat]

theorem four_dvd_bps (h : d.On v) : 4 ∣ d.bpb.bytesPerSector.toNat := by
  have hbps := v.bps_eq
  rw [h.bpb]
  exact ⟨8 * v.slotsPerSector, by rw [← Nat.mul_assoc]; exact hbps⟩

theorem bps_pos (h : d.On v) : 0 < d.bpb.bytesPerSector.toNat := by
  have hbps := v.bps_cases
  rw [h.bpb]
  change 0 < v.bps
  omega

theorem fatOffset_mod_four (h : d.On v) (c : UInt32) : d.fatOffset c % 4 = 0 :=
  Drive.fatOffset_mod_four h.four_dvd_bps c

theorem fatOffset_add_le (h : d.On v) (c : UInt32) : d.fatOffset c + 4 ≤ v.bps := by
  have hle := Drive.fatOffset_add_le h.four_dvd_bps h.bps_pos c
  rwa [h.bpb] at hle

theorem fatSector_toNat (h : d.On v) {c : UInt32} (hc : v.HasEntry c) :
    (d.fatSector c).toNat = v.reserved + 4 * c.toNat / v.bps := by
  have htotal := v.total_le
  have hlt := hc.sector_lt
  have hreserved : d.bpb.numReservedSectors.toUInt32.toNat = v.reserved := by
    rw [h.bpb]; exact UInt16.toNat_toUInt32 _
  rw [Drive.fatSector, UInt32.toNat_add, UInt32.toNat_div, hc.mul_four, h.bps_toNat, hreserved,
    Nat.mod_eq_of_lt (by omega)]

theorem fatSector_lt (h : d.On v) {c : UInt32} (hc : v.HasEntry c) :
    (d.fatSector c).toNat < v.total := by
  rw [h.fatSector_toNat hc]
  exact hc.sector_lt

/-- The device address of an entry, by its sector and offset. -/
theorem fatAddress_eq (h : d.On v) {c : UInt32} (hc : v.HasEntry c) :
    v.reserved * v.bps + 4 * c.toNat = (d.fatSector c).toNat * v.bps + d.fatOffset c := by
  have hdm := Nat.div_add_mod (4 * c.toNat) v.bps
  rw [h.fatSector_toNat hc, h.fatOffset_eq hc, Nat.add_mul, Nat.mul_comm (4 * c.toNat / v.bps)]
  omega

theorem fatOk (h : d.On v) (c : UInt32) : d.FatOk c :=
  Drive.fatOk_of_dvd h.four_dvd_bps h.bps_pos (bps_le h.bpb) c

/-- **`fat_get` reads the entry on the device**, whatever was cached. -/
theorem fatValue_eq (h : d.On v) {c : UInt32} (hc : v.HasEntry c) : d.fatValue c = v.fat c :=
  Drive.fatValue_of_buff (h.fatOffset_add_le c) (fun _ hi => h.load_buff (h.fatSector_lt hc) hi)
    (h.fatAddress_eq hc)

protected theorem fatRead (h : d.On v) (c : UInt32) : (d.fatRead c).On v :=
  ⟨(h.load _).bpb, (h.load _).dev, (h.load _).fds, (h.load _).coherent⟩

end Drive.On

end Fat32s
