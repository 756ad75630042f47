/-
  Fat32s/Coherence.lean
  =====================
  **The sector buffer holds the sector it claims to hold.**

  `load_sector` notes the number of the sector before it reads, and nobody looks
  at what the read returns.  So the buffer is right as long as the device delivers
  every sector that is asked for in full, and the first one asked for is not sector
  0, which the buffer of a fresh server claims to hold.  A sector that cannot be
  read leaves the bytes of another one in the buffer, under the new number.
-/
import Fat32s.Image

namespace Fat32s

open Fat32s.Lib Fat32s.Lib.Prog

/-- A read at the address of the sector transfers all of it; the address of the
    sector fits into the 32 bits it is computed in. -/
structure Device.Delivers (dev : Device) (bps : Nat) (sector : UInt32) : Prop where
  address_lt : sector.toNat * bps < 2 ^ 32
  full : dev.avail (sector.toNat * bps) bps = bps

/-- The bytes of the buffer are those of the sector on the device. -/
def Device.Holds (dev : Device) (bps : Nat) (sector : UInt32) (buff : Nat → UInt8) : Prop :=
  ∀ i < bps, sector.toNat * bps + i < dev.size ∧ buff i = dev.bytes (sector.toNat * bps + i)

/-- The sectors asked for, each with the buffer that the load has left. -/
def Loaded (evs : List Event) (sector : UInt32) (buff : Nat → UInt8) : Prop :=
  .load sector buff ∈ evs

/-- If the device delivers every sector asked for since the trace was `old`, then
    every one of these loads has left its sector in the buffer, and the buffer
    holds the sector that it claims to hold now. -/
structure Device.Serves (dev : Device) (bps : Nat) (old : List Event) (d : Drive) : Prop where
  device : d.deviceFd = some dev
  sectorSize : d.bpb.bytesPerSector.toNat = bps
  coherent : ∃ evs, d.trace = evs ++ old ∧
    ((∀ sector buff, Loaded evs sector buff → dev.Delivers bps sector) →
      dev.Holds bps d.fsData.currSector d.fsData.buff ∧
        ∀ sector buff, Loaded evs sector buff → dev.Holds bps sector buff)

section loads

variable {dev : Device} {bps : Nat} {old : List Event} {d : Drive} {sector : UInt32}

/-- A sector that is read in full is in the buffer. -/
theorem Device.Delivers.holds (h : dev.Delivers bps sector) (hdev : d.deviceFd = some dev)
    (hbps : d.bpb.bytesPerSector.toNat = bps) : dev.Holds bps sector (d.readSector sector).2 := by
  have hlen : d.bpb.bps.toNat = bps := (UInt16.toNat_toUInt32 _).trans hbps
  have haddr : (sector * d.bpb.bps).toNat = sector.toNat * bps := by
    rw [UInt32.toNat_mul, hlen, Nat.mod_eq_of_lt h.address_lt]
  intro i hi
  have hle := dev.avail_le (sector.toNat * bps) bps
  rw [h.full] at hle
  refine ⟨by omega, ?_⟩
  simp only [Drive.readSector, hdev, Device.read, haddr, hlen, h.full, hi, if_true]

theorem loaded_cons_note {evs : List Event} {e : Event} {buff : Nat → UInt8} (he : e.IsNote)
    (h : Loaded (e :: evs) sector buff) : Loaded evs sector buff := by
  cases h with
  | head => exact he.elim
  | tail _ h => exact h

theorem Drive.load_buff_of_eq (h : d.fsData.currSector = sector) :
    (d.load sector).fsData.buff = d.fsData.buff := by
  rw [Drive.load, if_pos h]

theorem Drive.load_buff_of_ne (h : d.fsData.currSector ≠ sector) :
    (d.load sector).fsData.buff = (d.readSector sector).2 := by
  rw [Drive.load, if_neg h]

/-- One load keeps the buffer right. -/
theorem Device.Serves.load (h : dev.Serves bps old d) (sector : UInt32) :
    dev.Serves bps old (d.load sector) := by
  obtain ⟨evs, htrace, hcoherent⟩ := h.coherent
  refine ⟨(Drive.load_deviceFd d sector).trans h.device, ?_,
    .load sector (d.load sector).fsData.buff :: evs, ?_, ?_⟩
  · rw [Drive.load_bpb]
    exact h.sectorSize
  · rw [Drive.load_trace, htrace]
    rfl
  · intro hdelivers
    obtain ⟨hnow, hbefore⟩ :=
      hcoherent fun sector buff hload => hdelivers sector buff (List.mem_cons_of_mem _ hload)
    have hsector : dev.Holds bps sector (d.load sector).fsData.buff := by
      by_cases hcache : d.fsData.currSector = sector
      · rw [Drive.load_buff_of_eq hcache, ← hcache]
        exact hnow
      · rw [Drive.load_buff_of_ne hcache]
        exact (hdelivers sector _ (List.mem_cons_self ..)).holds h.device h.sectorSize
    refine ⟨?_, ?_⟩
    · rw [Drive.load_currSector]
      exact hsector
    · intro sector' buff hload
      cases hload with
      | head => exact hsector
      | tail _ hload => exact hbefore sector' buff hload

/-- And so does everything else that a command can do to the drive. -/
theorem Device.stable_serves (dev : Device) (bps : Nat) (old : List Event) :
    Stable (dev.Serves bps old) := by
  refine ⟨fun sector h => h.load sector, fun b h => ⟨h.device, h.sectorSize, h.coherent⟩, ?_⟩
  intro d e he h
  obtain ⟨evs, htrace, hcoherent⟩ := h.coherent
  refine ⟨h.device, h.sectorSize, e :: evs, congrArg (e :: ·) htrace, ?_⟩
  intro hdelivers
  obtain ⟨hnow, hbefore⟩ :=
    hcoherent fun sector buff hload => hdelivers sector buff (List.mem_cons_of_mem _ hload)
  exact ⟨hnow, fun sector buff hload => hbefore sector buff (loaded_cons_note he hload)⟩

/-- The first load since the trace was `old`. -/
theorem Device.serves_first (d : Drive) (hdev : d.deviceFd = some dev)
    (hbps : d.bpb.bytesPerSector.toNat = bps) (hfirst : d.fsData.currSector ≠ sector) :
    dev.Serves bps d.trace (d.load sector) := by
  refine ⟨(Drive.load_deviceFd d sector).trans hdev, ?_,
    [.load sector (d.load sector).fsData.buff], Drive.load_trace d sector, ?_⟩
  · rw [Drive.load_bpb]
    exact hbps
  · intro hdelivers
    have hsector : dev.Holds bps sector (d.load sector).fsData.buff := by
      rw [Drive.load_buff_of_ne hfirst]
      exact (hdelivers sector _ (List.mem_cons_self ..)).holds hdev hbps
    refine ⟨?_, ?_⟩
    · rw [Drive.load_currSector]
      exact hsector
    · intro sector' buff hload
      cases hload with
      | head => exact hsector
      | tail _ hload => cases hload

end loads

/-! ### Sessions -/

section session

variable {s₀ s s' : Server} {env : Env} {m : Message} {dev : Device}

/-- The mount loads the first sector of the root directory. -/
theorem serves_of_doMount (hs₀ : Reachable s₀) (hmount : Returns (doMount env m) s₀ OK s)
    (hopen : env.openDevice m.text = some dev) (hroot : s.rootSector ≠ 0) :
    dev.Serves s.bpb.bytesPerSector.toNat s₀.trace s.toDrive := by
  cases returns_doMount.mp hmount with
  | @mounted dev' hfd hlen hcopy hlabel hopen' hboot hsigned hspc hfits =>
    obtain rfl := Option.some.inj (hopen.symm.trans hopen')
    have hzero : (s₀.opened m.text dev).fsData.currSector = 0 := by
      change s₀.fsData.currSector = 0
      rw [(hs₀.idle hfd).fsData]
    have hsame : (s₀.opened m.text dev).rootSector ≠ 0 := by
      intro heq
      apply hroot
      rw [← heq, Drive.rootSector, Drive.rootSector, Drive.jump_firstSectorOfCluster,
        Drive.jump_bpb]
    have hfirst : dev.Serves (s₀.opened m.text dev).bpb.bytesPerSector.toNat s₀.trace
        (((s₀.opened m.text dev).seek (s₀.opened m.text dev).rootSector 0).load
          (s₀.opened m.text dev).rootSector) :=
      Device.serves_first ((s₀.opened m.text dev).seek (s₀.opened m.text dev).rootSector 0) rfl rfl
        fun heq => hsame (heq.symm.trans hzero)
    have hstable := dev.stable_serves (s₀.opened m.text dev).bpb.bytesPerSector.toNat s₀.trace
    rw [Drive.jump_bpb]
    exact hstable.parsed 0 hfirst

theorem Answered.serves {cmd : Command} {bps : Nat} {old : List Event}
    (hs : dev.Serves bps old s.toDrive) (h : Answered cmd s s') :
    dev.Serves bps old s'.toDrive := by
  cases h with
  | refused text => exact hs
  | ran text _ hrun =>
    have hserves := ((dev.stable_serves bps old).command cmd).returns hrun hs
    exact hserves

/-- **Coherence over whole runs.**  After any requests since a mount whose first
    load is not of sector 0, and at every point of the command that follows: if
    the device delivers all sectors asked for so far, the buffer holds the sector
    it claims to hold, now and after each of these loads. -/
theorem buffer_coherent_throughout (hs₀ : Reachable s₀)
    (hmount : Returns (doMount env m) s₀ OK s) (hopen : env.openDevice m.text = some dev)
    (hroot : s.rootSector ≠ 0) (hrun : InSession s s') (cmd : Command) :
    dev.Serves s.bpb.bytesPerSector.toNat s₀.trace s'.toDrive ∧
      Safe (fun _ s'' => dev.Serves s.bpb.bytesPerSector.toNat s₀.trace s''.toDrive) cmd.run s'
        fun _ s'' => dev.Serves s.bpb.bytesPerSector.toNat s₀.trace s''.toDrive := by
  have hserves : dev.Serves s.bpb.bytesPerSector.toNat s₀.trace s'.toDrive :=
    hrun.induct (deviceFd_of_doMount hmount) (serves_of_doMount hs₀ hmount hopen hroot)
      Answered.serves
  exact ⟨hserves, (dev.stable_serves _ s₀.trace).command cmd s' hserves⟩

end session

/-- The sectors of the sample volume are all delivered. -/
theorem Sample.delivers {sector : UInt32} (h : sector.toNat < 8) :
    Sample.volume.dev.Delivers 512 sector :=
  ⟨by omega, Sample.volume.reads sector.toNat h⟩

/-- The event is not a load of a sector past the eighth. -/
def Event.loadsBelow8 : Event → Bool
  | .load sector _ => sector.toNat < 8
  | _ => true

/-- On the sample volume, after a cd, every sector asked for has been delivered. -/
theorem buffer_coherent_on_sample :
    ∃ s s₁, Returns (doMount (diskEnv Sample.volume.dev) mountMessage)
        (Server.initial fun _ => []) OK s ∧
      Returns (serve (diskEnv Sample.volume.dev) (textMessage FAT32S_CD (ascii "DIR"))) s OK s₁ ∧
      s₁.fsData.currSector = 3 ∧ Sample.volume.dev.Holds 512 3 s₁.fsData.buff := by
  obtain ⟨s₁, ⟨s, hmount, _, hcd, rfl⟩, htest⟩ := exists_served (diskEnv Sample.volume.dev)
    [mountMessage, textMessage FAT32S_CD (ascii "DIR")] 10
    (fun s => s.fsData.currSector == 3 && s.trace.all Event.loadsBelow8 && s.deviceFd.isSome &&
      s.bpb.bytesPerSector == 512 && s.rootSector != 0) (by decide +kernel)
  simp only [Bool.and_eq_true, beq_iff_eq, bne_iff_ne, List.all_eq_true] at htest
  obtain ⟨⟨⟨⟨hsector, hloads⟩, hfd⟩, hbps⟩, hroot⟩ := htest
  have hanswer : Answered (.cd (ascii "DIR")) s s₁ := serve_answered rfl hcd
  have hroot' : s.rootSector ≠ 0 := by
    rwa [Drive.rootSector, Drive.firstSectorOfCluster, hanswer.sameDisk.bpb,
      hanswer.sameDisk.fds] at hroot
  have hserves := (buffer_coherent_throughout (.init _) hmount rfl hroot'
    (.serve .start hcd (Option.isSome_iff_ne_none.mp hfd)) .pwd).1
  rw [← hanswer.sameDisk.bpb, hbps] at hserves
  obtain ⟨evs, htrace, hcoherent⟩ := hserves.coherent
  rw [show evs = s₁.trace by rw [htrace]; exact (List.append_nil evs).symm] at hcoherent
  have hholds := (hcoherent fun sector buff hload =>
    Sample.delivers (of_decide_eq_true (hloads _ hload))).1
  rw [hsector] at hholds
  exact ⟨s, s₁, hmount, hcd, hsector, hholds⟩

/-! ### A sector that cannot be read -/

namespace Unreadable

/-- The sample image on a device that fails to read its sector 3, which is the
    directory `DIR`. -/
def device : Device where
  size := 4096
  bytes := Sample.image.byte
  avail pos len := if pos = 1536 then 0 else min len (4096 - pos)
  avail_le pos len := by
    split
    · exact Nat.zero_le _
    · exact Nat.le_refl _

end Unreadable

/-- After a cd into the directory, the buffer claims to hold sector 3 and still has
    the entries of the root directory. -/
theorem unreadable_sector_claimed :
    ∃ s s₁, Returns (doMount (diskEnv Unreadable.device) mountMessage)
        (Server.initial fun _ => []) OK s ∧
      Returns (serve (diskEnv Unreadable.device) (textMessage FAT32S_CD (ascii "DIR"))) s OK s₁ ∧
      s₁.fsData.currSector = 3 ∧ ¬ Unreadable.device.Holds 512 3 s₁.fsData.buff ∧
      Returns (loadSector 3) s₁.toDrive 512
        { s₁.toDrive with trace := .load 3 s₁.fsData.buff :: s₁.trace } := by
  obtain ⟨s₁, ⟨s, hmount, _, hcd, rfl⟩, htest⟩ := exists_served (diskEnv Unreadable.device)
    [mountMessage, textMessage FAT32S_CD (ascii "DIR")] 10
    (fun s => s.fsData.currSector == 3 && s.fsData.buff 0 == 0x44 && s.bpb.bps == 512)
    (by decide +kernel)
  simp only [Bool.and_eq_true, beq_iff_eq] at htest
  obtain ⟨⟨hsector, hbuff⟩, hbps⟩ := htest
  refine ⟨s, s₁, hmount, hcd, hsector, ?_, ?_⟩
  · intro hholds
    have hbyte := (hholds 0 (by decide)).2
    rw [hbuff] at hbyte
    exact absurd hbyte (by decide +kernel)
  · refine returns_loadSector.mpr ⟨.inl hsector, ?_, ?_⟩
    · rw [Drive.loadCount, if_pos hsector, hbps]
    · rw [Drive.load, if_pos hsector]

end Fat32s
