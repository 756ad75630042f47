/-
  Fat32s/Rules.lean
  =================
  **What the functions of `util.c` and `tree.c` do when they return.**

  Each rule is an equivalence, on any disk: the conditions under which the
  function does not fault, and the state it leaves as a function of the state
  it found.  Later proofs execute a `do` block by rewriting with these rules
  and never unfold the functions again.
-/
import Fat32s.Fat32

namespace Fat32s

open Fat32s.Lib Fat32s.Lib.Prog

variable {d d' : Drive} {s s' : Server}

/-! ### The sector buffer -/

@[simp] theorem returns_log {e : Event} {u : Unit} :
    Returns (log e) d u d' ↔ d' = { d with trace := e :: d.trace } := by
  simp [log]

@[simp] theorem returns_log_bind {α : Type} {e : Event} {f : Unit → DriveM α} {a : α} :
    Returns (log e >>= f) d a d' ↔
      Returns (f ()) { d with trace := e :: d.trace } a d' := by
  simp [log]

/-- The drive after `load_sector`. -/
def Drive.load (d : Drive) (sector : UInt32) : Drive :=
  if d.fsData.currSector = sector then
    { d with trace := .load sector d.fsData.buff :: d.trace }
  else
    { d with
      fsData := { d.fsData with currSector := sector, buff := (d.readSector sector).2 }
      trace := .load sector (d.readSector sector).2 :: d.trace }

/-- A load does not write past the buffer. -/
def Drive.Fits (d : Drive) (sector : UInt32) : Prop :=
  d.fsData.currSector = sector ∨ (d.readSector sector).1 ≤ MAX_BYTES_PER_SECTOR

/-- The value `load_sector` returns. -/
def Drive.loadCount (d : Drive) (sector : UInt32) : UInt32 :=
  if d.fsData.currSector = sector then d.bpb.bps else (d.readSector sector).1.toUInt32

/-- The event of a load, and the buffer after it. -/
theorem Drive.load_trace (d : Drive) (sector : UInt32) :
    (d.load sector).trace = .load sector (d.load sector).fsData.buff :: d.trace := by
  unfold Drive.load
  split
  · rfl
  · rfl

/-- Since the trace was `old`, only events that satisfy `P` have been added to it. -/
def Drive.Adds (d : Drive) (P : Event → Prop) (old : List Event) : Prop :=
  ∃ evs, d.trace = evs ++ old ∧ ∀ e ∈ evs, P e

section adds

variable {P : Event → Prop} {old : List Event}

theorem Drive.adds_nothing (d : Drive) (P : Event → Prop) : d.Adds P d.trace :=
  ⟨[], rfl, fun _ he => (nomatch he)⟩

theorem Drive.Adds.event {e : Event} (h : d.Adds P old) (htrace : d'.trace = e :: d.trace)
    (he : P e) : d'.Adds P old := by
  obtain ⟨evs, hevs, hall⟩ := h
  refine ⟨e :: evs, by rw [htrace, hevs]; rfl, ?_⟩
  intro e' he'
  cases he' with
  | head => exact he
  | tail _ he' => exact hall e' he'

end adds

theorem returns_loadSector {sector ret : UInt32} :
    Returns (loadSector sector) d ret d' ↔
      d.Fits sector ∧ ret = d.loadCount sector ∧ d' = d.load sector := by
  unfold loadSector Drive.Fits Drive.load Drive.loadCount
  rw [returns_get_bind]
  by_cases h : d.fsData.currSector = sector
  · simp [h]
  · simp [h]

@[simp] theorem returns_loadSector_bind {α : Type} {sector : UInt32} {f : UInt32 → DriveM α}
    {a : α} : Returns (loadSector sector >>= f) d a d' ↔
      d.Fits sector ∧ Returns (f (d.loadCount sector)) (d.load sector) a d' := by
  simp [returns_bind, returns_loadSector, and_assoc]

section load

variable (d : Drive) (sector : UInt32)

@[simp] theorem Drive.load_bpb : (d.load sector).bpb = d.bpb := by
  unfold Drive.load; split <;> rfl

@[simp] theorem Drive.load_deviceFd : (d.load sector).deviceFd = d.deviceFd := by
  unfold Drive.load; split <;> rfl

@[simp] theorem Drive.load_dirBuff : (d.load sector).dirBuff = d.dirBuff := by
  unfold Drive.load; split <;> rfl

@[simp] theorem Drive.load_currSector : (d.load sector).fsData.currSector = sector := by
  unfold Drive.load; split
  · assumption
  · rfl

@[simp] theorem Drive.load_firstDataSector :
    (d.load sector).fsData.firstDataSector = d.fsData.firstDataSector := by
  unfold Drive.load; split <;> rfl

end load

/-! ### FAT lookups -/

def Drive.fatSector (d : Drive) (cluster : UInt32) : UInt32 :=
  d.bpb.numReservedSectors.toUInt32 + (cluster * 4) / d.bpb.bps

def Drive.fatOffset (d : Drive) (cluster : UInt32) : Nat := ((cluster * 4) % d.bpb.bps).toNat

def Drive.clusterOf (d : Drive) (sector : UInt32) : UInt32 :=
  (sector - d.fsData.firstDataSector) / d.bpb.spc + 2

theorem returns_sectorToCluster {sector c : UInt32} :
    Returns (sectorToCluster sector) d c d' ↔
      d.bpb.spc ≠ 0 ∧ c = d.clusterOf sector ∧ d' = d := by
  simp [sectorToCluster, Drive.clusterOf]

@[simp] theorem returns_sectorToCluster_bind {α : Type} {sector : UInt32} {f : UInt32 → DriveM α}
    {a : α} : Returns (sectorToCluster sector >>= f) d a d' ↔
      d.bpb.spc ≠ 0 ∧ Returns (f (d.clusterOf sector)) d a d' := by
  simp [returns_bind, returns_sectorToCluster, and_assoc]

theorem returns_getFatSector_bind {α : Type} {cluster : UInt32} {f : UInt32 → DriveM α} {a : α} :
    Returns (getFatSector cluster >>= f) d a d' ↔
      d.bpb.bps ≠ 0 ∧ Returns (f (d.fatSector cluster)) d a d' := by
  simp [getFatSector, returns_bind, Drive.fatSector, and_assoc]

theorem returns_getFatOffset_bind {α : Type} {cluster : UInt32} {f : UInt32 → DriveM α} {a : α} :
    Returns (getFatOffset cluster >>= f) d a d' ↔
      d.bpb.bps ≠ 0 ∧ Returns (f ((cluster * 4) % d.bpb.bps)) d a d' := by
  simp [getFatOffset, returns_bind, and_assoc]

/-- The drive after `fat_get`, and the value it returns. -/
def Drive.fatRead (d : Drive) (cluster : UInt32) : Drive :=
  { d.load (d.fatSector cluster) with
    trace := .fat (d.fatOffset cluster) :: (d.load (d.fatSector cluster)).trace }

def Drive.fatValue (d : Drive) (cluster : UInt32) : UInt32 :=
  le32 (d.load (d.fatSector cluster)).fsData.buff (d.fatOffset cluster) &&& FAT_LO_MASK

/-- `fat_get` stays inside the buffer and does not divide by zero. -/
structure Drive.FatOk (d : Drive) (cluster : UInt32) : Prop where
  bps : d.bpb.bps ≠ 0
  fits : d.Fits (d.fatSector cluster)
  offset : d.fatOffset cluster + 4 ≤ MAX_BYTES_PER_SECTOR

/-- No load writes past the buffer if a sector is not longer than that. -/
theorem Drive.fits_of_le (h : d.bpb.bytesPerSector.toNat ≤ MAX_BYTES_PER_SECTOR)
    (sector : UInt32) : d.Fits sector := by
  refine .inr ?_
  unfold Drive.readSector
  cases d.deviceFd with
  | none => exact Nat.zero_le _
  | some dev =>
    have hle := dev.avail_le (sector * d.bpb.bps).toNat d.bpb.bps.toNat
    rw [Bpb.bps_toNat] at hle
    simp only [Device.read, Bpb.bps_toNat]
    omega

theorem Drive.fatOffset_mod_four (h : 4 ∣ d.bpb.bytesPerSector.toNat) (c : UInt32) :
    d.fatOffset c % 4 = 0 := by
  rw [Drive.fatOffset, UInt32.toNat_mod, Bpb.bps_toNat, Nat.mod_mod_of_dvd _ h, UInt32.toNat_mul]
  simp only [UInt32.reduceToNat]
  omega

/-- An entry never straddles two sectors, whatever the cluster number. -/
theorem Drive.fatOffset_add_le (h : 4 ∣ d.bpb.bytesPerSector.toNat)
    (hpos : 0 < d.bpb.bytesPerSector.toNat) (c : UInt32) :
    d.fatOffset c + 4 ≤ d.bpb.bytesPerSector.toNat := by
  have hmod := Drive.fatOffset_mod_four h c
  have hlt : d.fatOffset c < d.bpb.bytesPerSector.toNat := by
    rw [Drive.fatOffset, UInt32.toNat_mod, Bpb.bps_toNat]
    exact Nat.mod_lt _ hpos
  omega

theorem Drive.fatOk_of_dvd (h : 4 ∣ d.bpb.bytesPerSector.toNat)
    (hpos : 0 < d.bpb.bytesPerSector.toNat)
    (hle : d.bpb.bytesPerSector.toNat ≤ MAX_BYTES_PER_SECTOR) (c : UInt32) : d.FatOk c where
  bps := by
    intro hzero
    rw [← Bpb.bps_toNat, hzero] at hpos
    exact absurd hpos (by decide)
  fits := Drive.fits_of_le hle _
  offset := Nat.le_trans (Drive.fatOffset_add_le h hpos c) hle

/-- The value is that of the word on the device if the sector is in the buffer. -/
theorem Drive.fatValue_of_buff {bytes : Nat → UInt8} {bps addr : Nat} {c : UInt32}
    (hoff : d.fatOffset c + 4 ≤ bps)
    (hbuff : ∀ i < bps, (d.load (d.fatSector c)).fsData.buff i =
      bytes ((d.fatSector c).toNat * bps + i))
    (haddr : addr = (d.fatSector c).toNat * bps + d.fatOffset c) :
    d.fatValue c = le32 bytes addr &&& FAT_LO_MASK := by
  have hword : le32 (d.load (d.fatSector c)).fsData.buff (d.fatOffset c) = le32 bytes addr := by
    apply le32_congr
    intro i hi
    rw [hbuff _ (by omega), haddr, Nat.add_assoc]
  rw [Drive.fatValue, hword]

theorem returns_fatGet {cluster c : UInt32} :
    Returns (fatGet cluster) d c d' ↔
      d.FatOk cluster ∧ c = d.fatValue cluster ∧ d' = d.fatRead cluster := by
  simp only [fatGet, returns_getFatSector_bind, returns_loadSector_bind,
    returns_getFatOffset_bind, returns_check_bind, returns_log_bind, returns_get_bind,
    returns_pure]
  constructor
  · rintro ⟨hbps, hfits, _, hoff, rfl, rfl⟩
    rw [Drive.load_bpb] at hoff
    exact ⟨⟨hbps, hfits, hoff⟩, by simp [Drive.fatValue, Drive.fatOffset],
      by simp [Drive.fatRead, Drive.fatOffset]⟩
  · rintro ⟨⟨hbps, hfits, hoff⟩, rfl, rfl⟩
    rw [Drive.load_bpb]
    exact ⟨hbps, hfits, hbps, hoff, rfl, by simp [Drive.fatRead, Drive.fatOffset]⟩

@[simp] theorem returns_fatGet_bind {α : Type} {cluster : UInt32} {f : UInt32 → DriveM α} {a : α} :
    Returns (fatGet cluster >>= f) d a d' ↔
      d.FatOk cluster ∧ Returns (f (d.fatValue cluster)) (d.fatRead cluster) a d' := by
  simp [returns_bind, returns_fatGet, and_assoc]

/-! ### Directory entries -/

/-- The directory entry at an offset of the buffer, as `parse_dir` leaves it. -/
def Drive.entryAt (d : Drive) (off : Nat) : DirEntry :=
  if d.fsData.buff off = 0 then { d.dirBuff.de with type := .undefined }
  else ⟨d.getDirType off, d.slotAt off⟩

def Drive.parse (d : Drive) (off : Nat) : Drive :=
  { d with dirBuff := { d.dirBuff with de := d.entryAt off }, trace := .parse off :: d.trace }

theorem returns_parseDir {off : Nat} {t : DirType} :
    Returns (parseDir off) d t d' ↔
      off % 32 = 0 ∧ off + DIRENTRY_SIZE ≤ MAX_BYTES_PER_SECTOR ∧
        t = (d.entryAt off).type ∧ d' = d.parse off := by
  unfold parseDir Drive.parse Drive.entryAt
  simp only [returns_check_bind, returns_log_bind, returns_get_bind]
  by_cases h : d.fsData.buff off = 0
  · simp [h]
  · simp only [h, if_false, returns_modify_bind, returns_pure]
    exact Iff.rfl

/-! ### The cursor -/

/-- `dir_buff` set to a position, its entry not parsed yet. -/
def Drive.seek (d : Drive) (sector : UInt32) (offset : Nat) : Drive :=
  { d with dirBuff := { d.dirBuff with sector := sector, offset := offset } }

def Drive.jump (d : Drive) (sector : UInt32) : Drive :=
  ((d.seek sector 0).load sector).parse 0

theorem returns_jumpToSector {sector : UInt32} {u : Unit} :
    Returns (jumpToSector sector) d u d' ↔ d.Fits sector ∧ d' = d.jump sector := by
  unfold jumpToSector
  rw [returns_modify_bind, returns_loadSector_bind, returns_bind]
  constructor
  · rintro ⟨hfits, _, _, hparse, hret⟩
    obtain ⟨_, _, _, rfl⟩ := returns_parseDir.mp hparse
    exact ⟨hfits, (returns_pure.mp hret).2⟩
  · rintro ⟨hfits, rfl⟩
    exact ⟨hfits, _, _, returns_parseDir.mpr ⟨rfl, by decide, rfl, rfl⟩,
      returns_pure.mpr ⟨rfl, rfl⟩⟩

/-- The cursor stands in the last sector of its cluster. -/
def Drive.AtClusterEnd (d : Drive) : Prop :=
  (d.dirBuff.sector + 1 - d.fsData.firstDataSector) % d.bpb.spc = 0

instance (d : Drive) : Decidable d.AtClusterEnd := by unfold Drive.AtClusterEnd; infer_instance

/-- The sector that follows the cursor's in its chain, and the drive once it is known. -/
def Drive.nextInChain (d : Drive) : UInt32 :=
  d.firstSectorOfCluster (d.fatValue (d.clusterOf d.dirBuff.sector))

def Drive.followed (d : Drive) : Drive :=
  { d.fatRead (d.clusterOf d.dirBuff.sector) with
    trace := .follow (d.fatValue (d.clusterOf d.dirBuff.sector)) ::
      (d.fatRead (d.clusterOf d.dirBuff.sector)).trace }

theorem returns_nextSector_of_atClusterEnd {u : Unit} (h : d.AtClusterEnd) :
    Returns nextSector d u d' ↔
      d.bpb.spc ≠ 0 ∧ d.FatOk (d.clusterOf d.dirBuff.sector) ∧
        d.followed.Fits d.nextInChain ∧
        d' = (d.followed.seek d.nextInChain 0).load d.nextInChain := by
  have hfirst : d.followed.firstSectorOfCluster (d.fatValue (d.clusterOf d.dirBuff.sector)) =
      d.nextInChain := by
    simp [Drive.followed, Drive.fatRead, Drive.firstSectorOfCluster, Drive.nextInChain]
  unfold Drive.AtClusterEnd at h
  simp only [nextSector, returns_get_bind, returns_check_bind, h, if_true,
    returns_sectorToCluster_bind, returns_fatGet_bind, returns_log_bind, returns_modify_bind,
    returns_loadSector_bind, returns_pure]
  change _ ∧ _ ∧ _ ∧ d.followed.Fits (d.followed.firstSectorOfCluster _) ∧ _ ∧
    d' = (d.followed.seek (d.followed.firstSectorOfCluster _) 0).load
      (d.followed.firstSectorOfCluster _) ↔ _
  rw [hfirst]
  constructor
  · rintro ⟨hspc, _, hfat, hfits, _, hd⟩
    exact ⟨hspc, hfat, hfits, hd⟩
  · rintro ⟨hspc, hfat, hfits, hd⟩
    exact ⟨hspc, hspc, hfat, hfits, trivial, hd⟩

theorem returns_nextSector_of_not_atClusterEnd {u : Unit} (h : ¬ d.AtClusterEnd) :
    Returns nextSector d u d' ↔
      d.bpb.spc ≠ 0 ∧ d.Fits (d.dirBuff.sector + 1) ∧
        d' = (d.seek (d.dirBuff.sector + 1) 0).load (d.dirBuff.sector + 1) := by
  unfold Drive.AtClusterEnd at h
  simp only [nextSector, returns_get_bind, returns_check_bind, h, if_false,
    returns_modify_bind, returns_loadSector_bind, returns_pure]
  constructor
  · rintro ⟨hspc, hfits, _, hd⟩
    exact ⟨hspc, hfits, hd⟩
  · rintro ⟨hspc, hfits, hd⟩
    exact ⟨hspc, hfits, trivial, hd⟩

theorem returns_nextDirEntry_of_eq {t : DirType}
    (h : d.dirBuff.offset + DIRENTRY_SIZE = d.bpb.bytesPerSector.toNat) :
    Returns nextDirEntry d t d' ↔
      ∃ d₁, Returns nextSector d () d₁ ∧ Returns (parseDir d₁.dirBuff.offset) d₁ t d' := by
  unfold nextDirEntry
  rw [returns_get_bind]
  simp only [h, if_true, returns_bind, returns_get]
  constructor
  · rintro ⟨_, d₁, hnext, d₂, d₃, ⟨h₂, h₃⟩, hparse⟩
    subst h₂ h₃
    exact ⟨_, hnext, hparse⟩
  · rintro ⟨d₁, hnext, hparse⟩
    exact ⟨(), d₁, hnext, d₁, d₁, ⟨rfl, rfl⟩, hparse⟩

theorem returns_nextDirEntry_of_ne {t : DirType}
    (h : d.dirBuff.offset + DIRENTRY_SIZE ≠ d.bpb.bytesPerSector.toNat) :
    Returns nextDirEntry d t d' ↔
      Returns (parseDir (d.dirBuff.offset + DIRENTRY_SIZE))
        (d.seek d.dirBuff.sector (d.dirBuff.offset + DIRENTRY_SIZE)) t d' := by
  unfold nextDirEntry
  rw [returns_get_bind]
  simp only [h, if_false, returns_modify_bind, returns_get_bind]
  exact Iff.rfl

/-! ### The session -/

@[simp] theorem returns_stackPush_bind {α : Type} {sector : UInt32} {f : Unit → ServerM α} {a : α} :
    Returns (stackPush sector >>= f) s a s' ↔
      Returns (f ()) { s with stack := sector :: s.stack } a s' := by
  simp [stackPush]

/-- The server once the text is printed. -/
def Server.say (s : Server) (text : List UInt8) : Server := { s with out := s.out ++ shown text }

theorem print_eq (bytes : List UInt8) : print bytes = Prog.modify fun s => s.say bytes := by
  simp only [print, flatMap_kputc, Server.say]

@[simp] theorem returns_print {bytes : List UInt8} {u : Unit} :
    Returns (print bytes) s u s' ↔ s' = s.say bytes := by
  rw [print_eq, returns_modify]

@[simp] theorem returns_print_bind {α : Type} {bytes : List UInt8} {f : Unit → ServerM α} {a : α} :
    Returns (print bytes >>= f) s a s' ↔ Returns (f ()) (s.say bytes) a s' := by
  rw [print_eq, returns_modify_bind]

/-! The first statement of a block, as the functions over any machine have it. -/

theorem returns_globals_bind {α : Type} {f : Server → ServerM α} {a : α} :
    Returns (globals >>= f) s a s' ↔ Returns (f s) s a s' := returns_get_bind

theorem returns_push_bind {α : Type} {sector : UInt32} {f : Unit → ServerM α} {a : α} :
    Returns (Machine.stackPush sector >>= f) s a s' ↔
      Returns (f ()) { s with stack := sector :: s.stack } a s' := returns_stackPush_bind

theorem returns_onDrive_bind {α β : Type} {p : DriveM α} {f : α → ServerM β} {b : β} :
    Returns (onDrive p >>= f) s b s' ↔
      ∃ a d, Returns p s.toDrive a d ∧ Returns (f a) { s with toDrive := d } b s' :=
  returns_liftM_bind

theorem returns_printf_bind {α : Type} {bytes : List UInt8} {f : Unit → ServerM α} {a : α} :
    Returns (printf bytes >>= f) s a s' ↔ Returns (f ()) (s.say bytes) a s' := returns_print_bind

theorem returns_stackPop {sector : UInt32} :
    Returns stackPop s sector s' ↔
      ∃ rest, s.stack = sector :: rest ∧ s' = { s with stack := rest } := by
  unfold stackPop
  rw [returns_get_bind]
  cases hstack : s.stack with
  | nil => simp
  | cons top rest =>
    simp only [returns_modify_bind, returns_pure, List.cons.injEq]
    constructor
    · rintro ⟨rfl, rfl⟩
      exact ⟨rest, ⟨rfl, rfl⟩, rfl⟩
    · rintro ⟨_, ⟨rfl, rfl⟩, rfl⟩
      exact ⟨rfl, rfl⟩

theorem returns_rollback {u : Unit} :
    Returns rollback s u s' ↔
      ∃ sector rest, s.stack = sector :: rest ∧ s.Fits sector ∧
        s' = { s with stack := rest, toDrive := s.toDrive.jump sector } := by
  simp only [rollback, stackPop_server, onDrive_server, returns_bind, returns_stackPop,
    returns_liftM, returns_jumpToSector]
  constructor
  · rintro ⟨sector, _, ⟨rest, hstack, rfl⟩, _, ⟨hfits, rfl⟩, rfl⟩
    exact ⟨sector, rest, hstack, hfits, rfl⟩
  · rintro ⟨sector, rest, hstack, hfits, rfl⟩
    exact ⟨sector, _, ⟨rest, hstack, rfl⟩, _, ⟨hfits, rfl⟩, rfl⟩

theorem returns_newBuffer_bind {α : Type} {f : Name → ServerM α} {a : α} :
    Returns (newBuffer >>= f) s a s' ↔ Returns (f (s.scratch.junk 0))
      { s with scratch := { s.scratch with junk := fun n => s.scratch.junk (n + 1) } } a s' := by
  simp [newBuffer, returns_bind, and_assoc]

/-- The text that is printed for a slot, when the buffer for its name holds `buffer`. -/
def Slot.text (u : Slot) (buffer : Name) : List UInt8 :=
  ascii "Printing regular_dir_entry:\n" ++
  line "       short_name: " (getName ⟨.short, u⟩ buffer) " \n" ++
  line "       attributes: " (decimal u.attributes.toUInt32) " \n" ++
  line "           nt_res: " (decimal u.ntRes.toUInt32) " \n" ++
  line "time_created_10ms: " (decimal u.timeCreated10ms.toUInt32) " \n" ++
  line "     time_created: " (clock u.timeCreated) "\n" ++
  line "     date_created: " (calendar u.dateCreated) "\n" ++
  line " date_last_access: " (calendar u.dateLastAccess) "\n" ++
  line " first_cluster_hi: " (decimal u.firstClusterHi.toUInt32) " \n" ++
  line "  time_last_write: " (clock u.timeLastWrite) "\n" ++
  line "  date_last_write: " (calendar u.dateLastWrite) "\n" ++
  line " first_cluster_lo: " (decimal u.firstClusterLo.toUInt32) " \n" ++
  line "        file_size: " (decimal u.fileSize) " \n"

theorem Slot.shown_text (u : Slot) (buffer : Name) : shown (u.text buffer) = u.text buffer := by
  have hname : shown (getName ⟨.short, u⟩ buffer) = getName ⟨.short, u⟩ buffer :=
    shown_getName (by simp) _
  simp (disch := decide) only [Slot.text, shown_append, shown_line, shown_ascii, shown_decimal,
    shown_clock, shown_calendar, hname]

theorem returns_printRegularDirEntry {u : Slot} {x : Unit} :
    Returns (printRegularDirEntry u) s x s' ↔ s' = { s with
      scratch :=
        ⟨fun n => s.scratch.junk (n + 1),
          (32, (getName ⟨.short, u⟩ (s.scratch.junk 0)).length) :: s.scratch.stored⟩
      out := s.out ++ u.text (s.scratch.junk 0) } := by
  have hname : ∀ {s s' : Server} {x : Unit}, Returns (printShortNameRde u) s x s' ↔ s' = { s with
      scratch :=
        ⟨fun n => s.scratch.junk (n + 1),
          (32, (getName ⟨.short, u⟩ (s.scratch.junk 0)).length) :: s.scratch.stored⟩
      out := s.out ++ shown
        (line "       short_name: " (getName ⟨.short, u⟩ (s.scratch.junk 0)) " \n") } := by
    intro s s' x
    unfold printShortNameRde store
    simp only [onServer_server, getName_server, printf_server]
    rw [returns_newBuffer_bind, returns_pure_bind, returns_modify_bind, returns_print,
      Server.say]
  rw [← u.shown_text]
  unfold printRegularDirEntry
  simp only [printf_server]
  rw [returns_print_bind, returns_bind]
  simp only [hname, exists_eq_left, returns_print_bind, returns_print, Slot.text, Server.say,
    shown_append, List.append_assoc, exists_const]

/-- The drive with the entry parsed that the last hop started from. -/
def Server.lastHop (s : Server) : Drive :=
  ((s.toDrive.seek s.lastHopSector s.lastHopOffset).load s.lastHopSector).parse s.lastHopOffset

theorem returns_lastHopSize {sz : UInt32} :
    Returns lastHopSize s sz s' ↔
      s.Fits s.lastHopSector ∧ s.lastHopOffset % 32 = 0 ∧
        s.lastHopOffset + DIRENTRY_SIZE ≤ MAX_BYTES_PER_SECTOR ∧
        s.lastHop.Fits s.dirBuff.sector ∧ sz = s.lastHop.dirBuff.de.u.fileSize ∧
        s' = { s with toDrive := s.lastHop.jump s.dirBuff.sector } := by
  unfold lastHopSize
  simp only [onServer_server, returns_globals_bind, returns_push_bind, returns_modify_bind,
    returns_onDrive_bind, returns_loadSector, returns_parseDir]
  constructor
  · rintro ⟨_, _, ⟨hfits, _, rfl⟩, _, _, ⟨hmod, hle, _, rfl⟩, hrest⟩
    obtain ⟨_, _, hback, hret⟩ := returns_bind.mp hrest
    obtain ⟨_, _, hstack, hfits', rfl⟩ := returns_rollback.mp hback
    obtain ⟨rfl, rfl⟩ := List.cons.inj hstack
    obtain ⟨rfl, rfl⟩ := returns_pure.mp hret
    exact ⟨hfits, hmod, hle, hfits', rfl, rfl⟩
  · rintro ⟨hfits, hmod, hle, hfits', rfl, rfl⟩
    refine ⟨_, _, ⟨hfits, rfl, rfl⟩, _, _, ⟨hmod, hle, rfl, rfl⟩, ?_⟩
    exact returns_bind.mpr ⟨(), _, returns_rollback.mpr ⟨_, _, rfl, hfits', rfl⟩,
      returns_pure.mpr ⟨rfl, rfl⟩⟩

/-- The cluster that the active entry leads to. -/
def Drive.hopCluster (d : Drive) : UInt32 :=
  if d.dirBuff.de.u.firstCluster = 0 then d.bpb.rootCluster else d.dirBuff.de.u.firstCluster

theorem returns_hop {r : Int} (h : s.dirBuff.de.type = .short) :
    Returns hop s r s' ↔
      s.Fits (s.firstSectorOfCluster s.hopCluster) ∧ r = OK ∧
        s' = { s with
          lastHopSector := s.dirBuff.sector
          lastHopOffset := s.dirBuff.offset
          toDrive := s.toDrive.jump (s.firstSectorOfCluster s.hopCluster) } := by
  unfold hop
  rw [returns_get_bind]
  simp only [h, ne_eq, not_true_eq_false, if_false, returns_modify_bind, returns_liftM_bind,
    returns_jumpToSector, returns_pure]
  constructor
  · rintro ⟨_, _, ⟨hfits, rfl⟩, rfl, rfl⟩
    exact ⟨hfits, rfl, rfl⟩
  · rintro ⟨hfits, rfl, rfl⟩
    exact ⟨(), _, ⟨hfits, rfl⟩, rfl, rfl⟩

/-- The drive once the byte under the cursor is printed, before the sector is left. -/
def Drive.passed (d : Drive) : Drive :=
  { d with
    dirBuff := { d.dirBuff with offset := d.dirBuff.offset + 1 }
    trace := .byte d.dirBuff.offset :: d.trace }

theorem returns_catByte_of_eq {u : Unit} (h : s.dirBuff.offset + 1 = s.bpb.bytesPerSector.toNat) :
    Returns catByte s u s' ↔ s.dirBuff.offset < MAX_BYTES_PER_SECTOR ∧
      ∃ d, Returns nextSector s.passed () d ∧
        s' = { s with toDrive := d, out := s.out ++ shown [s.fsData.buff s.dirBuff.offset] } := by
  unfold catByte
  simp only [returns_get_bind, returns_check_bind, returns_liftM_bind, returns_log,
    returns_print_bind, Server.say, returns_modify_bind]
  constructor
  · rintro ⟨hlt, _, _, rfl, hrest⟩
    rw [if_pos h, returns_liftM] at hrest
    exact ⟨hlt, hrest⟩
  · rintro ⟨hlt, hrest⟩
    refine ⟨hlt, (), _, rfl, ?_⟩
    rw [if_pos h, returns_liftM]
    exact hrest

theorem returns_catByte_of_ne {u : Unit} (h : s.dirBuff.offset + 1 ≠ s.bpb.bytesPerSector.toNat) :
    Returns catByte s u s' ↔ s.dirBuff.offset < MAX_BYTES_PER_SECTOR ∧
      s' = { s with
        toDrive := s.passed, out := s.out ++ shown [s.fsData.buff s.dirBuff.offset] } := by
  unfold catByte
  simp only [returns_get_bind, returns_check_bind, returns_liftM_bind, returns_log,
    returns_print_bind, Server.say, returns_modify_bind]
  constructor
  · rintro ⟨hlt, _, _, rfl, hrest⟩
    rw [if_neg h, returns_pure] at hrest
    exact ⟨hlt, hrest.2⟩
  · rintro ⟨hlt, rfl⟩
    refine ⟨hlt, (), _, rfl, ?_⟩
    rw [if_neg h, returns_pure]
    exact ⟨rfl, rfl⟩

end Fat32s
