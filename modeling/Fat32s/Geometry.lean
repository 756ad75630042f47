/-
  Fat32s/Geometry.lean
  ====================
  **What the server takes from a boot sector, and where it looks for a sector.**

  `read_bpb` looks at the signature only, so the fields of the BPB can be
  anything; what follows from them is computed modulo 2^32.  So is the device
  address of a sector, which is right exactly below 4 GiB.
-/
import Fat32s.Image

namespace Fat32s

open Fat32s.Lib Fat32s.Lib.Prog

variable {d d' : Drive} {sector : UInt32} {pos : Nat}

/-! ### The address of a sector -/

/-- Whatever device is open, `load_sector` fills the buffer with what a read of one
    sector at the address `pos` delivers. -/
def Drive.ReadsFrom (d : Drive) (sector : UInt32) (pos : Nat) : Prop :=
  ∀ dev : Device, ∃ d',
    Returns (loadSector sector) { d with deviceFd := some dev }
      (dev.avail pos d.bpb.bytesPerSector.toNat).toUInt32 d' ∧
    d'.fsData.buff = (dev.read pos d.bpb.bytesPerSector.toNat d.fsData.buff).2

theorem Device.whole_read_zero {size len : Nat} {bytes buff : Nat → UInt8} (hpos : pos < size)
    (hlen : 0 < len) : ((Device.whole size bytes).read pos len buff).2 0 = bytes pos := by
  have havail : 0 < (Device.whole size bytes).avail pos len := by
    change 0 < min len (size - pos)
    omega
  simp only [Device.read, if_pos havail, Nat.add_zero]
  rfl

/-- The address is the product in 32 bits, and no other. -/
theorem Drive.readsFrom_iff (hpos : 0 < d.bpb.bytesPerSector.toNat)
    (hle : d.bpb.bytesPerSector.toNat ≤ MAX_BYTES_PER_SECTOR)
    (hcurr : d.fsData.currSector ≠ sector) :
    d.ReadsFrom sector pos ↔ pos = sector.toNat * d.bpb.bytesPerSector.toNat % 2 ^ 32 := by
  have haddr : (sector * d.bpb.bps).toNat = sector.toNat * d.bpb.bytesPerSector.toNat % 2 ^ 32 := by
    rw [UInt32.toNat_mul, Bpb.bps_toNat]
  have hread : ∀ dev : Device, Drive.readSector { d with deviceFd := some dev } sector =
      dev.read (sector.toNat * d.bpb.bytesPerSector.toNat % 2 ^ 32) d.bpb.bytesPerSector.toNat
        d.fsData.buff := by
    intro dev
    rw [← haddr, ← Bpb.bps_toNat]
    rfl
  constructor
  · intro h
    -- a device with a mark at `pos` tells the address apart from every other one
    let mark : Device := Device.whole (pos + sector.toNat * d.bpb.bytesPerSector.toNat + 1)
      fun i => if i = pos then 1 else 0
    obtain ⟨d', hret, hbuff⟩ := h mark
    obtain ⟨_, _, rfl⟩ := returns_loadSector.mp hret
    have hlow := Nat.mod_le (sector.toNat * d.bpb.bytesPerSector.toNat) (2 ^ 32)
    rw [Drive.load, if_neg hcurr] at hbuff
    dsimp only at hbuff
    rw [hread] at hbuff
    have hbyte := congrFun hbuff 0
    rw [Device.whole_read_zero (by omega) hpos, Device.whole_read_zero (by omega) hpos,
      if_pos rfl] at hbyte
    by_contra hne
    rw [if_neg (Ne.symm hne)] at hbyte
    cases hbyte
  · intro h dev
    have havail := dev.avail_le pos d.bpb.bytesPerSector.toNat
    refine ⟨_, returns_loadSector.mpr ⟨.inr ?_, ?_, rfl⟩, ?_⟩
    · rw [hread, ← h]
      simp only [Device.read]
      omega
    · rw [Drive.loadCount, if_neg hcurr, hread, ← h]
      rfl
    · rw [Drive.load, if_neg hcurr]
      simp only [hread, ← h]

/-- **When a sector is read from its own address.**  The address of a sector that
    is not in the buffer is the exact product if and only if that is below 2^32;
    two different sectors for which it is are read from different addresses. -/
theorem sector_address_exact_iff
    (hbps : d.bpb.bytesPerSector.toNat ∈ [512, 1024, 2048, 4096])
    (hcurr : d.fsData.currSector ≠ sector) :
    (d.ReadsFrom sector (sector.toNat * d.bpb.bytesPerSector.toNat) ↔
      sector.toNat * d.bpb.bytesPerSector.toNat < 2 ^ 32) ∧
    ∀ sector' : UInt32, sector' ≠ sector → d.fsData.currSector ≠ sector' →
      sector.toNat * d.bpb.bytesPerSector.toNat < 2 ^ 32 →
      sector'.toNat * d.bpb.bytesPerSector.toNat < 2 ^ 32 →
      ∀ pos, d.ReadsFrom sector pos → ¬ d.ReadsFrom sector' pos := by
  simp only [List.mem_cons, List.not_mem_nil, or_false] at hbps
  have hpos : 0 < d.bpb.bytesPerSector.toNat := by omega
  have hle : d.bpb.bytesPerSector.toNat ≤ MAX_BYTES_PER_SECTOR := by
    unfold MAX_BYTES_PER_SECTOR
    omega
  constructor
  · rw [Drive.readsFrom_iff hpos hle hcurr]
    constructor
    · intro h
      rw [h]
      exact Nat.mod_lt _ (by decide)
    · intro h
      exact (Nat.mod_eq_of_lt h).symm
  · intro sector' hne hcurr' hlt hlt' pos hread hread'
    rw [Drive.readsFrom_iff hpos hle hcurr, Nat.mod_eq_of_lt hlt] at hread
    rw [Drive.readsFrom_iff hpos hle hcurr', Nat.mod_eq_of_lt hlt'] at hread'
    apply hne
    apply UInt32.toNat_inj.mp
    exact Nat.eq_of_mul_eq_mul_right hpos (hread'.symm.trans hread)

/-- A sector of the sample volume, after its mount. -/
theorem sample_sector_address_exact :
    ∃ s, Returns (doMount (diskEnv Sample.volume.dev) mountMessage)
        (Server.initial fun _ => []) OK s ∧ s.ReadsFrom 3 1536 := by
  obtain ⟨r, s, hmount, htest⟩ := exists_returns
    (doMount (diskEnv Sample.volume.dev) mountMessage) (Server.initial fun _ => []) 10
    (fun r s => r = OK && s.bpb.bytesPerSector == 512 && s.fsData.currSector == 2)
    (by decide +kernel)
  simp only [Bool.and_eq_true, decide_eq_true_eq, beq_iff_eq] at htest
  obtain ⟨⟨rfl, hbps⟩, hcurr⟩ := htest
  refine ⟨s, hmount, ?_⟩
  have hexact := (sector_address_exact_iff (d := s.toDrive) (by rw [hbps]; decide)
    (show s.fsData.currSector ≠ 3 by rw [hcurr]; decide)).1.mpr
  rw [hbps] at hexact
  exact hexact (by decide)

namespace Big

/-- 2^23 + 1 sectors of 512 bytes, one sector more than 4 GiB. -/
def image : Image := bootSector 512 1 1 0x800001 1 2

def device : Device := image.device (0x800001 * 512)

end Big

/-- The last sector of the volume is read from the address of the first one. -/
theorem last_sector_read_from_start :
    ∃ s, Returns (doMount (diskEnv Big.device) mountMessage) (Server.initial fun _ => []) OK s ∧
      s.bpb.bytesPerSector.toNat = 512 ∧ s.bpb.totalSectors32.toNat = 0x800001 ∧
      s.fsData.currSector ≠ 0x800000 ∧ ¬ s.ReadsFrom 0x800000 (0x800000 * 512) ∧
      s.fsData.currSector ≠ 0 ∧ s.ReadsFrom 0x800000 0 ∧ s.ReadsFrom 0 0 := by
  obtain ⟨r, s, hmount, htest⟩ := exists_returns (doMount (diskEnv Big.device) mountMessage)
    (Server.initial fun _ => []) 10
    (fun r s => r = OK && s.bpb.bytesPerSector == 512 && s.bpb.totalSectors32 == 0x800001 &&
      s.fsData.currSector == 2) (by decide +kernel)
  simp only [Bool.and_eq_true, decide_eq_true_eq, beq_iff_eq] at htest
  obtain ⟨⟨⟨rfl, hbps⟩, htotal⟩, hcurr⟩ := htest
  have hreads : ∀ {sector : UInt32} {pos : Nat}, sector ≠ 2 →
      (s.ReadsFrom sector pos ↔ pos = sector.toNat * 512 % 2 ^ 32) := by
    intro sector pos hne
    have hcurr' : s.fsData.currSector ≠ sector := by
      rw [hcurr]
      exact hne.symm
    have hiff : s.ReadsFrom sector pos ↔ _ :=
      Drive.readsFrom_iff (by rw [hbps]; decide) (by rw [hbps]; decide) hcurr'
    rw [hbps] at hiff
    exact hiff
  refine ⟨s, hmount, by rw [hbps]; decide, by rw [htotal]; decide, by rw [hcurr]; decide, ?_,
    by rw [hcurr]; decide, ?_, ?_⟩
  · rw [hreads (by decide)]
    decide
  · rw [hreads (by decide)]
    decide
  · rw [hreads (by decide)]
    decide

/-! ### Boot sectors -/

/-- The geometry is one that the other functions can run on. -/
structure Drive.Geometry (d : Drive) : Prop where
  slots : 32 ∣ d.bpb.bytesPerSector.toNat
  bps_pos : 0 < d.bpb.bytesPerSector.toNat
  bps_le : d.bpb.bytesPerSector.toNat ≤ MAX_BYTES_PER_SECTOR
  spc_pos : 0 < d.bpb.sectorsPerCluster.toNat
  areas : d.fsData.firstDataSector.toNat + d.fsData.numDataSectors.toNat =
    d.bpb.totalSectors32.toNat
  first : d.fsData.firstDataSector.toNat =
    d.bpb.numReservedSectors.toNat + d.bpb.numFats.toNat * d.bpb.fatSize32.toNat
  root : 2 ≤ d.bpb.rootCluster.toNat ∧
    d.bpb.rootCluster.toNat < d.fsData.numDataClusters.toNat + 2

/-- The same of the fields of the BPB, without the values computed from them. -/
structure Bpb.Fit (b : Bpb) : Prop where
  slots : 32 ∣ b.bytesPerSector.toNat
  bps_pos : 0 < b.bytesPerSector.toNat
  bps_le : b.bytesPerSector.toNat ≤ MAX_BYTES_PER_SECTOR
  areas : b.numReservedSectors.toNat + b.numFats.toNat * b.fatSize32.toNat ≤ b.totalSectors32.toNat
  root : 2 ≤ b.rootCluster.toNat ∧ b.rootCluster.toNat < (b.totalSectors32.toNat -
    (b.numReservedSectors.toNat + b.numFats.toNat * b.fatSize32.toNat)) /
      b.sectorsPerCluster.toNat + 2

/-- The sums of the geometry, modulo 2^32. -/
theorem Drive.withGeometry_sums (d : Drive) (dev : Device) :
    (d.withGeometry dev).fsData.firstDataSector.toNat =
      (dev.bpb.numReservedSectors.toNat +
        dev.bpb.numFats.toNat * dev.bpb.fatSize32.toNat) % 2 ^ 32 ∧
    ((d.withGeometry dev).fsData.firstDataSector.toNat +
      (d.withGeometry dev).fsData.numDataSectors.toNat) % 2 ^ 32 =
        dev.bpb.totalSectors32.toNat := by
  have hlt := dev.bpb.totalSectors32.toNat_lt
  simp only [Drive.withGeometry, UInt32.toNat_add, UInt32.toNat_sub, UInt32.toNat_mul,
    UInt16.toNat_toUInt32, UInt8.toNat_toUInt32]
  generalize dev.bpb.numFats.toNat * dev.bpb.fatSize32.toNat = fats
  have hreserved := dev.bpb.numReservedSectors.toNat_lt
  omega

/-- They are the exact ones if the reserved sectors and the FATs lie inside the volume. -/
theorem Drive.withGeometry_exact (d : Drive) {dev : Device}
    (hareas : dev.bpb.numReservedSectors.toNat + dev.bpb.numFats.toNat * dev.bpb.fatSize32.toNat ≤
      dev.bpb.totalSectors32.toNat) :
    (d.withGeometry dev).fsData.firstDataSector.toNat =
      dev.bpb.numReservedSectors.toNat + dev.bpb.numFats.toNat * dev.bpb.fatSize32.toNat ∧
    (d.withGeometry dev).fsData.firstDataSector.toNat +
      (d.withGeometry dev).fsData.numDataSectors.toNat = dev.bpb.totalSectors32.toNat := by
  rcases d.withGeometry_sums dev with ⟨hfirst, hsum⟩
  have hlt := dev.bpb.totalSectors32.toNat_lt
  have hdata := (d.withGeometry dev).fsData.numDataSectors.toNat_lt
  rw [Nat.mod_eq_of_lt (by omega)] at hfirst
  exact ⟨hfirst, by omega⟩

theorem Drive.withGeometry_clusters (d : Drive) (dev : Device) :
    (d.withGeometry dev).fsData.numDataClusters.toNat =
      (d.withGeometry dev).fsData.numDataSectors.toNat / dev.bpb.spc.toNat :=
  UInt32.toNat_div _ _

/-- The values computed from a BPB are the exact ones if and only if they fit. -/
theorem Drive.geometry_withGeometry_iff (d : Drive) (dev : Device) (hspc : dev.bpb.spc ≠ 0) :
    (d.withGeometry dev).Geometry ↔ dev.bpb.Fit := by
  obtain ⟨hfirst, hsum⟩ := d.withGeometry_sums dev
  have hlt := dev.bpb.totalSectors32.toNat_lt
  have hdata := (d.withGeometry dev).fsData.numDataSectors.toNat_lt
  have hclusters := d.withGeometry_clusters dev
  rw [Bpb.spc_toNat] at hclusters
  constructor
  · intro h
    have hareas := h.areas
    have hexact := h.first
    have hroot := h.root
    rw [hclusters] at hroot
    change _ = dev.bpb.numReservedSectors.toNat + dev.bpb.numFats.toNat * dev.bpb.fatSize32.toNat
      at hexact
    change _ = dev.bpb.totalSectors32.toNat at hareas
    refine ⟨h.slots, h.bps_pos, h.bps_le, by omega, ?_⟩
    rw [← hexact, ← hareas, Nat.add_sub_cancel_left]
    exact hroot
  · intro h
    rcases d.withGeometry_exact h.areas with ⟨hexact, htotal⟩
    refine ⟨h.slots, h.bps_pos, h.bps_le, ?_, htotal, hexact, ?_⟩
    · apply Nat.pos_of_ne_zero
      intro hzero
      apply hspc
      apply UInt32.toNat_inj.mp
      rw [Bpb.spc_toNat]
      exact hzero
    · have hroot := h.root
      rw [← hexact, ← htotal, Nat.add_sub_cancel_left] at hroot
      rw [hclusters]
      exact hroot

theorem faults_readBpb {dev : Device} (hdev : d.deviceFd = some dev) (hboot : dev.HasBootSector)
    (hsigned : dev.Signed) (hspc : dev.bpb.spc = 0) : Faults readBpb d .divByZero := by
  obtain ⟨hstatus, hbpb, hmagic, _, _⟩ := hboot.read_eq
  have hsigned' : le16 dev.bytes 510 = MAGIC := hsigned
  unfold readBpb
  refine faults_bind (returns_get.mpr ⟨rfl, rfl⟩) ?_
  simp only [hdev, hstatus, hbpb, hmagic, hsigned', ne_eq, not_true_eq_false, if_false]
  refine faults_bind (a := ()) (returns_modify.mpr rfl) ?_
  exact faults_check_bind (not_not_intro hspc)

/-- **What the check of a boot sector guarantees.**  `read_bpb` divides by zero on no
    signed sector 0 with a cluster size, and it accepts these.  The values it computes
    then add up modulo 2^32, and the geometry is usable exactly if the fields of the
    BPB make it so. -/
theorem accepted_boot_sector {dev : Device} (hdev : d.deviceFd = some dev)
    (hboot : dev.HasBootSector) :
    (∀ e, Faults readBpb d e → dev.Signed ∧ dev.bpb.sectorsPerCluster.toNat = 0) ∧
    ((∃ d', Returns readBpb d OK d') ↔ dev.Signed ∧ 0 < dev.bpb.sectorsPerCluster.toNat) ∧
    ∀ d', Returns readBpb d OK d' →
      d'.bpb = dev.bpb ∧ 0 < d'.bpb.sectorsPerCluster.toNat ∧
      (d'.fsData.firstDataSector.toNat + d'.fsData.numDataSectors.toNat) % 2 ^ 32 =
        d'.bpb.totalSectors32.toNat ∧
      (d'.Geometry ↔ d'.bpb.Fit) := by
  have hspc : dev.bpb.spc ≠ 0 ↔ 0 < dev.bpb.sectorsPerCluster.toNat := by
    rw [Nat.pos_iff_ne_zero, ← Bpb.spc_toNat]
    exact not_congr UInt32.toNat_inj.symm
  have hok : ∀ d', Returns readBpb d OK d' ↔
      dev.Signed ∧ dev.bpb.spc ≠ 0 ∧ d' = d.withGeometry dev := by
    intro d'
    rw [returns_readBpb hdev]
    constructor
    · intro h
      rcases h with ⟨hnot, _⟩ | ⟨_, _, hr, _⟩ | ⟨_, hsigned, hne, _, hd'⟩
      · exact (hnot hboot).elim
      · cases hr
      · exact ⟨hsigned, hne, hd'⟩
    · intro h
      exact .inr (.inr ⟨hboot, h.1, h.2.1, rfl, h.2.2⟩)
  refine ⟨?_, ?_, ?_⟩
  · intro e hfault
    by_cases hsigned : dev.Signed
    · refine ⟨hsigned, ?_⟩
      by_contra hpos
      have hret := (hok _).mpr ⟨hsigned, hspc.mpr (Nat.pos_of_ne_zero hpos), rfl⟩
      exact hfault.not_returns hret
    · have hret := (returns_readBpb hdev).mpr (.inr (.inl ⟨hboot, hsigned, rfl, rfl⟩))
      exact (hfault.not_returns hret).elim
  · simp only [hok, ← and_assoc, exists_eq_right, hspc]
  · intro d' h
    obtain ⟨_, hne, rfl⟩ := (hok d').mp h
    exact ⟨rfl, hspc.mp hne, (d.withGeometry_sums dev).2, d.geometry_withGeometry_iff dev hne⟩

/-- The boot sector of the sample volume is accepted, and its geometry usable. -/
theorem sample_boot_sector_accepted : ∃ s d', Reachable s ∧
    Returns readBpb { s.toDrive with deviceFd := some Sample.volume.dev } OK d' ∧ d'.Geometry := by
  have hsigned : Sample.volume.dev.Signed := Sample.bootable.signed
  obtain ⟨_, haccepted, hgeometry⟩ := accepted_boot_sector
    (d := { (Server.initial fun _ => []).toDrive with deviceFd := some Sample.volume.dev }) rfl
    Sample.bootable.boot
  obtain ⟨d', hret⟩ := haccepted.mpr ⟨hsigned, by decide +kernel⟩
  obtain ⟨hbpb, _, _, hiff⟩ := hgeometry d' hret
  refine ⟨_, d', .init fun _ => [], hret, hiff.mpr ?_⟩
  rw [hbpb]
  exact ⟨by decide +kernel, by decide +kernel, by decide +kernel, by decide +kernel,
    by decide +kernel⟩

/-- A sector 0 that holds nothing but a signature makes `read_bpb` divide by zero, and
    one that has a cluster size too is accepted with sectors of 0 bytes. -/
theorem unchecked_boot_sectors :
    Faults readBpb
      { (Server.initial fun _ => []).toDrive with
        deviceFd := some (Image.device [(510, [0x55, 0xAA])] 512) } .divByZero ∧
    ∃ d', Returns readBpb
        { (Server.initial fun _ => []).toDrive with
          deviceFd := some (Image.device [(13, [1]), (510, [0x55, 0xAA])] 512) } OK d' ∧
      d'.bpb.bytesPerSector = 0 ∧ ¬ d'.Geometry := by
  constructor
  · have hsigned : (Image.device [(510, [0x55, 0xAA])] 512).Signed := by
      unfold Device.Signed
      decide +kernel
    exact faults_readBpb rfl (Device.whole_avail (by decide)) hsigned (by decide +kernel)
  · have hsigned : (Image.device [(13, [1]), (510, [0x55, 0xAA])] 512).Signed := by
      unfold Device.Signed
      decide +kernel
    have hret := (returns_readBpb (d := { (Server.initial fun _ => []).toDrive with
      deviceFd := some (Image.device [(13, [1]), (510, [0x55, 0xAA])] 512) }) rfl).mpr
      (.inr (.inr ⟨Device.whole_avail (by decide), hsigned, by decide +kernel, rfl, rfl⟩))
    refine ⟨_, hret, by decide +kernel, ?_⟩
    intro h
    exact absurd h.bps_pos (by decide +kernel)

/-! ### Numbers of clusters and sectors -/

/-- `c` is the number of a data cluster, and `k` that of a sector in it. -/
structure Drive.InData (d : Drive) (c k : UInt32) : Prop where
  two_le : 2 ≤ c.toNat
  lt : c.toNat < d.fsData.numDataClusters.toNat + 2
  sector_lt : k.toNat < d.bpb.sectorsPerCluster.toNat

/-- What the 32-bit computations make of sector `k` of the cluster `c`. -/
structure Drive.Numbers (d : Drive) (c k : UInt32) : Prop where
  exact : (d.firstSectorOfCluster c + k).toNat =
    d.bpb.numReservedSectors.toNat + d.bpb.numFats.toNat * d.bpb.fatSize32.toNat +
      (c.toNat - 2) * d.bpb.sectorsPerCluster.toNat + k.toNat
  first_le : d.fsData.firstDataSector.toNat ≤ (d.firstSectorOfCluster c + k).toNat
  lt_total : (d.firstSectorOfCluster c + k).toNat < d.bpb.totalSectors32.toNat
  cluster : Returns (sectorToCluster (d.firstSectorOfCluster c + k)) d c d
  atEnd : (d.firstSectorOfCluster c + k + 1 - d.fsData.firstDataSector) % d.bpb.spc = 0 ↔
    k.toNat = d.bpb.sectorsPerCluster.toNat - 1

/-- A boot sector is accepted only from an open device, with a cluster size. -/
theorem withGeometry_of_readBpb (h : Returns readBpb d OK d') :
    ∃ dev, d.deviceFd = some dev ∧ dev.bpb.spc ≠ 0 ∧ d' = d.withGeometry dev := by
  cases hdev : d.deviceFd with
  | none =>
    have hinval : Returns readBpb d EINVAL d := by
      unfold readBpb
      rw [returns_get_bind]
      simp [hdev, BPB_SIZE]
    cases (h.unique hinval).1
  | some dev =>
    rcases (returns_readBpb hdev).mp h with ⟨_, hr, _⟩ | ⟨_, _, hr, _⟩ | ⟨_, _, hspc, _, hd'⟩
    · cases hr
    · cases hr
    · exact ⟨dev, rfl, hspc, hd'⟩

/-- The sectors of the data clusters are numbered without a wrap, and inside the volume. -/
theorem Drive.InData.isSector {dev : Device} {c k : UInt32}
    (hareas : dev.bpb.numReservedSectors.toNat + dev.bpb.numFats.toNat * dev.bpb.fatSize32.toNat ≤
      dev.bpb.totalSectors32.toNat) (h : (d.withGeometry dev).InData c k) :
    (d.withGeometry dev).IsSector c k.toNat ((d.withGeometry dev).firstSectorOfCluster c + k) ∧
      ((d.withGeometry dev).firstSectorOfCluster c + k).toNat < dev.bpb.totalSectors32.toNat := by
  have htotal := (d.withGeometry_exact hareas).2
  have hclusters := d.withGeometry_clusters dev
  have hlt := dev.bpb.totalSectors32.toNat_lt
  have hbpb : (d.withGeometry dev).bpb = dev.bpb := rfl
  have hk : k.toNat < dev.bpb.spc.toNat := by
    rw [Bpb.spc_toNat]
    exact h.sector_lt
  -- the cluster and all before it fill no more than the data area
  have hrow : (c.toNat - 2 + 1) * dev.bpb.spc.toNat ≤
      (d.withGeometry dev).fsData.numDataSectors.toNat := by
    have hc : c.toNat - 2 + 1 ≤ (d.withGeometry dev).fsData.numDataClusters.toNat := by
      have h2 := h.two_le
      have hc := h.lt
      omega
    rw [hclusters] at hc
    exact (Nat.mul_le_mul_right _ hc).trans (Nat.div_mul_le_self _ _)
  rw [Nat.add_mul, Nat.one_mul] at hrow
  have hfirst := Drive.firstSectorOfCluster_exact h.two_le (show
    (d.withGeometry dev).fsData.firstDataSector.toNat +
      (c.toNat - 2) * (d.withGeometry dev).bpb.spc.toNat < 2 ^ 32 by rw [hbpb]; omega)
  rw [hbpb] at hfirst
  have hsector : ((d.withGeometry dev).firstSectorOfCluster c + k).toNat =
      (d.withGeometry dev).fsData.firstDataSector.toNat +
        ((c.toNat - 2) * dev.bpb.spc.toNat + k.toNat) := by
    rw [UInt32.toNat_add, hfirst, Nat.mod_eq_of_lt (by omega), Nat.add_assoc]
  exact ⟨⟨h.two_le, hk, hsector⟩, by omega⟩

/-- **Clusters and sectors are numbered alike both ways, and clusters are disjoint.**  With
    the values that `read_bpb` computes, for every BPB whose reserved sectors and FATs lie
    inside the volume. -/
theorem cluster_numbers_exact (hread : Returns readBpb d OK d')
    (hareas : d'.bpb.numReservedSectors.toNat + d'.bpb.numFats.toNat * d'.bpb.fatSize32.toNat ≤
      d'.bpb.totalSectors32.toNat) :
    (∀ c k, d'.InData c k → d'.Numbers c k) ∧
    ∀ c k c' k', d'.InData c k → d'.InData c' k' →
      d'.firstSectorOfCluster c + k = d'.firstSectorOfCluster c' + k' → c = c' ∧ k = k' := by
  rcases withGeometry_of_readBpb hread with ⟨dev, _, hspc, rfl⟩
  have hfirst := (d.withGeometry_exact hareas).1
  constructor
  · intro c k h
    rcases h.isSector hareas with ⟨hsector, hlt⟩
    have heq := hsector.eq
    have hpos := h.sector_lt
    have hmax := dev.bpb.totalSectors32.toNat_lt
    refine ⟨?_, by omega, hlt, ?_, ?_⟩
    · rw [heq, hfirst, Bpb.spc_toNat, ← Nat.add_assoc]
      rfl
    · exact returns_sectorToCluster.mpr ⟨hspc, hsector.clusterOf_eq.symm, rfl⟩
    · rw [hsector.end_iff (by omega), Bpb.spc_toNat]
      omega
  · intro c k c' k' h h' heq
    have hsector := (h.isSector hareas).1
    have hsector' := (h'.isSector hareas).1
    rw [← heq] at hsector'
    rcases hsector.unique hsector' with ⟨hc, hk⟩
    exact ⟨hc, UInt32.toNat_inj.mp hk⟩

namespace Triple

/-- 40 sectors of 1024 bytes, of which 2 are reserved and 2 are in the FAT, and clusters of
    3 sectors. -/
def device : Device := (bootSector 1024 3 2 40 2 2).device (40 * 1024)

def opened : Drive := { (Server.initial fun _ => []).toDrive with deviceFd := some device }

theorem returns_readBpb : Returns readBpb opened OK (opened.withGeometry device) := by
  have hsigned : device.Signed := by
    unfold Device.Signed
    decide +kernel
  exact (Fat32s.returns_readBpb rfl).mpr
    (.inr (.inr ⟨Device.whole_avail (by decide), hsigned, by decide +kernel, rfl, rfl⟩))

end Triple

/-- The last sector of cluster 5 is sector 15 of the volume. -/
theorem cluster_numbers_of_triple : ∃ d', Returns readBpb Triple.opened OK d' ∧
    d'.InData 5 2 ∧ d'.Numbers 5 2 ∧ (d'.firstSectorOfCluster 5 + 2).toNat = 15 := by
  have hdata : (Triple.opened.withGeometry Triple.device).InData 5 2 :=
    ⟨by decide, by decide +kernel, by decide +kernel⟩
  have hnumbers := (cluster_numbers_exact Triple.returns_readBpb (by decide +kernel)).1 5 2 hdata
  exact ⟨_, Triple.returns_readBpb, hdata, hnumbers, by decide +kernel⟩

end Fat32s
