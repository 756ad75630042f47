/-
  Fat32s/Util.lean
  ================
  **Sector buffer, FAT lookups and directory entries** (`util.c`).

  Everything here works on one shared sector buffer: `fatGet` evicts the
  directory or data sector that was loaded before it.  Products and differences
  of sector numbers are formed in 32-bit unsigned arithmetic, as in the source.
  A division by a BPB field that is zero, an index past the 4096 bytes of the
  buffer and a failed `assert` are faults.
-/
import Fat32s.Glo

namespace Fat32s

open Fat32s.Lib

namespace Bpb

def bps (b : Bpb) : UInt32 := b.bytesPerSector.toUInt32
def spc (b : Bpb) : UInt32 := b.sectorsPerCluster.toUInt32

theorem bps_toNat (b : Bpb) : b.bps.toNat = b.bytesPerSector.toNat := UInt16.toNat_toUInt32 _

theorem spc_toNat (b : Bpb) : b.spc.toNat = b.sectorsPerCluster.toNat := UInt8.toNat_toUInt32 _

end Bpb

def log (e : Event) : DriveM Unit :=
  Prog.modify fun d => { d with trace := e :: d.trace }

def getFatSector (cluster : UInt32) : DriveM UInt32 := do
  let d ← Prog.get
  Prog.check (d.bpb.bps ≠ 0) .divByZero
  return d.bpb.numReservedSectors.toUInt32 + (cluster * 4) / d.bpb.bps

def getFatOffset (cluster : UInt32) : DriveM UInt32 := do
  let d ← Prog.get
  Prog.check (d.bpb.bps ≠ 0) .divByZero
  return (cluster * 4) % d.bpb.bps

/-- `lseek` and `read` of one sector into the buffer.  The seek address is the
    32-bit product, and the buffer keeps what the read does not transfer. -/
def Drive.readSector (d : Drive) (sector : UInt32) : Nat × (Nat → UInt8) :=
  match d.deviceFd with
  | some dev => dev.read (sector * d.bpb.bps).toNat d.bpb.bps.toNat d.fsData.buff
  | none => (0, d.fsData.buff)

def loadSector (sector : UInt32) : DriveM UInt32 := do
  let d ← Prog.get
  if d.fsData.currSector ≠ sector then
    let (ret, buff) := d.readSector sector
    -- `read` writes past `buff` when a sector is longer than the buffer
    Prog.check (ret ≤ MAX_BYTES_PER_SECTOR) .outOfBounds
    Prog.modify fun d =>
      { d with
        fsData := { d.fsData with currSector := sector, buff := buff }
        trace := .load sector buff :: d.trace }
    return ret.toUInt32
  else
    log (.load sector d.fsData.buff)
    return d.bpb.bps

/-- Write the buffer to a sector, whichever sector it was loaded from. -/
def storeSector (sector : UInt32) : DriveM UInt32 := do
  let d ← Prog.get
  match d.deviceFd with
  | none => return 0xFFFFFFFF
  | some dev => do
    -- `write` reads past `buff` when a sector is longer than the buffer
    Prog.check (d.bpb.bps.toNat ≤ MAX_BYTES_PER_SECTOR) .outOfBounds
    let (ret, dev) := dev.write (sector * d.bpb.bps).toNat d.bpb.bps.toNat d.fsData.buff
    Prog.modify fun d => { d with deviceFd := some dev }
    return ret.toUInt32

def Drive.firstSectorOfCluster (d : Drive) (cluster : UInt32) : UInt32 :=
  d.fsData.firstDataSector + (cluster - 2) * d.bpb.spc

def sectorToCluster (sector : UInt32) : DriveM UInt32 := do
  let d ← Prog.get
  Prog.check (d.bpb.spc ≠ 0) .divByZero
  return (sector - d.fsData.firstDataSector) / d.bpb.spc + 2

def fatGet (cluster : UInt32) : DriveM UInt32 := do
  let sector ← getFatSector cluster
  let _ ← loadSector sector
  let off ← getFatOffset cluster
  Prog.check (off.toNat + 4 ≤ MAX_BYTES_PER_SECTOR) .outOfBounds
  log (.fat off.toNat)
  let d ← Prog.get
  return le32 d.fsData.buff off.toNat &&& FAT_LO_MASK

/-- Edit the word at an offset of the buffer. -/
def editEntry (off : Nat) (edit : UInt32 → UInt32) : DriveM Unit :=
  Prog.modify fun d =>
    { d with
      fsData := { d.fsData with
        buff := put32 d.fsData.buff off (edit (le32 d.fsData.buff off)) } }

/-- The entry is edited in the buffer as it is, without a load of its sector, and it
    is `cluster` that is stored there: `target_cluster` is not used. -/
def fatSet (cluster _targetCluster : UInt32) : DriveM Unit := do
  let off ← getFatOffset cluster
  Prog.check (off.toNat + 4 ≤ MAX_BYTES_PER_SECTOR) .outOfBounds
  editEntry off.toNat (· &&& FAT_HI_MASK)
  editEntry off.toNat (· ||| (cluster &&& FAT_LO_MASK))
  let sector ← getFatSector cluster
  let _ ← storeSector sector

def Drive.getDirType (d : Drive) (off : Nat) : DirType :=
  if d.fsData.buff (off + 11) = 0x0F ∧ d.fsData.buff (off + 12) = 0x00 then .long else .short

def Drive.slotAt (d : Drive) (off : Nat) : Slot := fun i => d.fsData.buff (off + i)

/-- `parse_dir` into `dir_buff.de`.  An empty slot only changes the type: the
    bytes of the entry parsed before stay in `u`. -/
def parseDir (off : Nat) : DriveM DirType := do
  Prog.check (off % 32 = 0) .assertion
  Prog.check (off + DIRENTRY_SIZE ≤ MAX_BYTES_PER_SECTOR) .outOfBounds
  log (.parse off)
  let d ← Prog.get
  if d.fsData.buff off = 0 then
    Prog.modify fun d =>
      { d with dirBuff := { d.dirBuff with de := { d.dirBuff.de with type := .undefined } } }
    return .undefined
  else
    Prog.modify fun d =>
      { d with dirBuff := { d.dirBuff with de := ⟨d.getDirType off, d.slotAt off⟩ } }
    return d.getDirType off

def DirEntry.isDirectory (de : DirEntry) : Bool := de.u.attributes &&& 0x10 != 0

/-- `get_name` into a buffer that holds `name`.  For a short name whose base is
    empty, `name[0]` is read before anything has been written there. -/
def getName (de : DirEntry) (name : Name) : Name :=
  match de.type with
  | .undefined => name
  | .short =>
    let base := de.u.shortBase.takeWhile (· ≠ 0x20)
    if (base ++ name).head? = some 0x2E then
      cstr base
    else
      let ext := de.u.shortExt.takeWhile (· ≠ 0x20)
      cstr (if ext = [] then base else base ++ 0x2E :: ext)
  | .long => cstr de.u.longChars

end Fat32s
