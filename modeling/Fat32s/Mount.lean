/-
  Fat32s/Mount.lean
  =================
  **Mounting a volume, and failing to mount one.**

  A server that has nothing mounted has not loaded a sector either, so a mount
  of a volume starts from an empty cache and leaves the server in the root
  directory.  A mount that fails does not always leave the session as it was:
  label and descriptor are stored before the boot sector is looked at, and no
  error exit takes them back.
-/
import Fat32s.Frame
import Fat32s.Resolve

namespace Fat32s

open Fat32s.Lib Fat32s.Lib.Prog

variable {v : Volume} {s s' : Server} {env : Env} {m : Message} {r : Int}

/-! ### What the commands leave alone -/

/-- The drives have the same disk and the same geometry. -/
structure Drive.SameDisk (d d' : Drive) : Prop where
  bpb : d'.bpb = d.bpb
  dev : d'.deviceFd = d.deviceFd
  fds : d'.fsData.firstDataSector = d.fsData.firstDataSector

theorem stable_sameDisk (d : Drive) : Stable d.SameDisk where
  load _ h := ⟨(Drive.load_bpb ..).trans h.bpb, (Drive.load_deviceFd ..).trans h.dev,
    (Drive.load_firstDataSector ..).trans h.fds⟩
  cursor _ h := ⟨h.bpb, h.dev, h.fds⟩
  note _ h := ⟨h.bpb, h.dev, h.fds⟩

theorem stable_on (v : Volume) : Stable fun d => d.On v where
  load sector h := h.load sector
  cursor _ h := ⟨h.bpb, h.dev, h.fds, h.coherent⟩
  note _ h := ⟨h.bpb, h.dev, h.fds, h.coherent⟩

theorem Answered.sameDisk {cmd : Command} (h : Answered cmd s s') :
    s.toDrive.SameDisk s'.toDrive := by
  cases h with
  | refused text => exact ⟨rfl, rfl, rfl⟩
  | ran text hfd hrun =>
    have h := ((stable_sameDisk s.toDrive).command cmd).returns hrun ⟨rfl, rfl, rfl⟩
    exact ⟨h.bpb, h.dev, h.fds⟩

/-- Apart from the label, the session is as `reset` leaves it. -/
structure Server.Idle (s : Server) : Prop where
  bpb : s.bpb = Bpb.zero
  fsData : s.fsData = ⟨(0, 0), 0, 0, 0, fun _ => 0, 0⟩
  dirBuff : s.dirBuff = ⟨⟨.undefined, fun _ => 0⟩, 0, 0⟩
  stack : s.stack = []
  lastSector : s.lastHopSector = 0
  lastOffset : s.lastHopOffset = 0

/-- A server that has nothing mounted is idle. -/
theorem Reachable.idle (h : Reachable s) : s.deviceFd = none → s.Idle := by
  induction h with
  | init junk => intro _; exact ⟨rfl, rfl, rfl, rfl, rfl, rfl⟩
  | @serve s s' env m r hs hserve ih =>
    intro hfd
    have hsay : ∀ {s₁ : Server} {text : List UInt8}, s₁.Idle → (s₁.say text).Idle :=
      fun h => ⟨h.bpb, h.fsData, h.dirBuff, h.stack, h.lastSector, h.lastOffset⟩
    cases serve_cases hserve with
    | said text => exact hsay (ih hfd)
    | unmounted => exact ⟨rfl, rfl, rfl, rfl, rfl, rfl⟩
    | mount h =>
      cases h with
      | already h => exact hsay (ih hfd)
      | notCopied h _ _ => exact hsay (ih h)
      | notOpened h _ _ _ _ =>
        have hidle := ih h
        exact ⟨hidle.bpb, hidle.fsData, hidle.dirBuff, hidle.stack, hidle.lastSector,
          hidle.lastOffset⟩
      | noBootSector _ _ _ _ _ _ => cases hfd
      | notSigned _ _ _ _ _ _ _ => cases hfd
      | mounted _ _ _ _ _ _ _ _ _ =>
        rw [Drive.jump, Drive.parse, Drive.load_deviceFd] at hfd
        cases hfd
    | command hcmd h =>
      cases h with
      | refused text => exact hsay (ih hfd)
      | ran text hfd' hrun =>
        have hsame := (Answered.ran text hfd' hrun).sameDisk
        rw [hsame.dev] at hfd
        exact (hfd' hfd).elim

/-- What holds after a mount and is kept by every command holds throughout the session. -/
theorem InSession.induct {P : Server → Prop} {s s' : Server} (h : InSession s s')
    (hfd : s.deviceFd ≠ none) (hs : P s)
    (hstep : ∀ {s₁ s₂ : Server} {cmd : Command}, P s₁ → Answered cmd s₁ s₂ → P s₂) : P s' := by
  have hboth : P s' ∧ s'.deviceFd ≠ none := by
    induction h with
    | start => exact ⟨hs, hfd⟩
    | serve _ hserve hfd' ih =>
      obtain ⟨cmd, hanswer⟩ := serve_in_session ih.2 hserve hfd'
      exact ⟨hstep ih.1 hanswer, hfd'⟩
  exact hboth.1

theorem deviceFd_of_doMount (h : Returns (doMount env m) s OK s') : s'.deviceFd ≠ none := by
  cases returns_doMount.mp h with
  | mounted _ _ _ _ _ _ _ _ _ =>
    rw [Drive.jump, Drive.parse, Drive.load_deviceFd]
    exact Option.some_ne_none _

theorem Reachable.idle_of_doMount (h : Reachable s) (hmount : Returns (doMount env m) s OK s') :
    s.Idle := by
  cases returns_doMount.mp hmount with
  | mounted hfd => exact h.idle hfd

/-! ### Mounting a volume -/

/-- The device starts with the boot sector of the volume. -/
structure Volume.Bootable (v : Volume) : Prop where
  bpb : v.bpb = v.dev.bpb
  boot : v.dev.HasBootSector
  signed : v.dev.Signed

theorem Volume.Bootable.spc_ne_zero (h : v.Bootable) : v.dev.bpb.spc ≠ 0 := by
  rw [← h.bpb]
  intro hzero
  have hspc : v.bpb.spc.toNat = v.spc := UInt8.toNat_toUInt32 _
  have hpos := v.spc_pos
  rw [← hspc, hzero] at hpos
  exact absurd hpos (by decide)

theorem Volume.Bootable.fds_eq (h : v.Bootable) (d : Drive) :
    (d.withGeometry v.dev).fsData.firstDataSector.toNat = v.fds := by
  have hle := v.fds_le
  have htotal := v.total_le
  have hreserved : v.bpb.numReservedSectors.toUInt32.toNat = v.reserved := UInt16.toNat_toUInt32 _
  have hfats : v.bpb.numFats.toUInt32.toNat = v.bpb.numFats.toNat := UInt8.toNat_toUInt32 _
  unfold Volume.fds at hle ⊢
  simp only [Drive.withGeometry, ← h.bpb, UInt32.toNat_add, UInt32.toNat_mul, hreserved, hfats]
  rw [Nat.mod_eq_of_lt (a := v.bpb.numFats.toNat * v.bpb.fatSize32.toNat) (by omega),
    Nat.mod_eq_of_lt (by omega)]

/-- A mount of a volume succeeds when nothing is mounted. -/
theorem Volume.Bootable.returns_doMount (h : v.Bootable) (hfd : s.deviceFd = none)
    (hlen : 0 ≤ m.txtLen.toInt) (hcopy : m.copyOk = true)
    (hlabel : m.text.length < MAX_DEVICE_LABEL) (hopen : env.openDevice m.text = some v.dev) :
    ∃ s', Returns (doMount env m) s OK s' := by
  refine ⟨_, Fat32s.returns_doMount.mpr (.mounted hfd hlen hcopy hlabel hopen h.boot h.signed
    h.spc_ne_zero ?_)⟩
  apply Drive.fits_of_le
  exact Drive.On.bps_le (show (s.opened m.text v.dev).bpb = v.bpb from h.bpb.symm)

/-- The server then stands in the root directory. -/
theorem Volume.Bootable.cwd_root (h : v.Bootable) (hroot : v.IsData v.bpb.rootCluster)
    (hcurr : s.fsData.currSector = 0) (hopen : env.openDevice m.text = some v.dev)
    (hret : Returns (doMount env m) s OK s') : s'.Cwd v v.bpb.rootCluster ∧ s'.stack = [] := by
  cases Fat32s.returns_doMount.mp hret with
  | @mounted dev hfd hlen hcopy hlabel hopen' hboot hsigned hspc hfits =>
    obtain rfl : v.dev = dev := Option.some.inj (hopen.symm.trans hopen')
    have hbpb : (s.opened m.text v.dev).bpb = v.bpb := h.bpb.symm
    have hfds : (s.opened m.text v.dev).fsData.firstDataSector.toNat = v.fds := h.fds_eq _
    have hsector : (s.opened m.text v.dev).rootSector.toNat = v.firstSector v.bpb.rootCluster := by
      rw [Drive.rootSector, hbpb]
      exact Drive.firstSectorOfCluster_toNat hbpb hfds hroot
    have hlt := v.firstSector_add_lt hroot v.spc_pos
    have hpos := v.fds_pos
    have hne : (s.opened m.text v.dev).fsData.currSector ≠ (s.opened m.text v.dev).rootSector := by
      intro heq
      have hzero : (s.opened m.text v.dev).rootSector.toNat = 0 := by
        rw [← heq, show (s.opened m.text v.dev).fsData.currSector = s.fsData.currSector from rfl,
          hcurr]
        rfl
      unfold Volume.firstSector at hsector
      omega
    have hload := Drive.On.of_load (d := (s.opened m.text v.dev).toDrive.seek
      (s.opened m.text v.dev).rootSector 0) hbpb rfl hfds hne (by omega)
    refine ⟨⟨hload.parse 0, ?_⟩, rfl⟩
    have hat := Drive.at_jump (by omega) hload
    rwa [hsector] at hat

end Fat32s
