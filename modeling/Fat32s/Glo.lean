/-
  Fat32s/Glo.lean
  ===============
  **The server's data model** (`glo.h` and the globals of `fat32.c`).

  The on-disk structures are kept as raw bytes and read through accessors at
  the offsets of the packed C structs.  The globals are split in two records:
  `Drive` holds what `util.c` and the directory cursor work on, `Server` adds
  the session (label, rollback stack, last hop) and what the server prints.
  Functions that only touch the drive are programs over `Drive`, so that their
  frame is part of their type.

  `unsigned int` is `UInt32` and so is an `int` that only ever carries a sector
  or cluster number (signed overflow wraps).  The name buffers and the rollback
  stack are unbounded here; their C sizes are `MAX_NAME_LEN` and `STACK_SIZE`,
  and the lengths they would need are recorded in `Scratch.stored` and
  `Server.sp`.
-/
import Mathlib.Algebra.Group.Nat.Defs
import Fat32s.Lib.Prog

namespace Fat32s

open Fat32s.Lib

def MAX_BYTES_PER_SECTOR : Nat := 4096
def BPB_SIZE : Nat := 512
def DIRENTRY_SIZE : Nat := 32
def STACK_SIZE : Nat := 128
def MAX_NAME_LEN : Nat := 512
def MAX_DEVICE_LABEL : Nat := 16
def FAT_LO_MASK : UInt32 := 0x0FFFFFFF
def FAT_HI_MASK : UInt32 := 0xF0000000
def MAGIC : UInt16 := 0xAA55

-- `inc.h` defines `_SYSTEM`, which makes the error numbers negative
def OK : Int := 0
def ENOENT : Int := -2
def EFAULT : Int := -14
def EINVAL : Int := -22

/-! ### Bytes and C strings -/

/-- The contents of a C character buffer up to its terminating zero. -/
abbrev Name := List UInt8

/-- The C string that starts at the head of a list of bytes. -/
def cstr (bytes : List UInt8) : Name := bytes.takeWhile (· ≠ 0)

/-- The bytes of a text of the source. -/
def ascii (text : String) : List UInt8 := text.toList.map fun c => c.toNat.toUInt8

/-- Little-endian words, as the x86 loads them from a packed struct. -/
def le16 (bytes : Nat → UInt8) (off : Nat) : UInt16 :=
  UInt16.ofNat ((bytes off).toNat + 256 * (bytes (off + 1)).toNat)

def le32 (bytes : Nat → UInt8) (off : Nat) : UInt32 :=
  UInt32.ofNat ((bytes off).toNat + 256 * (bytes (off + 1)).toNat +
    65536 * (bytes (off + 2)).toNat + 16777216 * (bytes (off + 3)).toNat)

theorem le32_congr {f g : Nat → UInt8} {off off' : Nat}
    (h : ∀ i < 4, f (off + i) = g (off' + i)) : le32 f off = le32 g off' := by
  have h0 := h 0 (by omega)
  simp only [Nat.add_zero] at h0
  simp only [le32, h0, h 1 (by omega), h 2 (by omega), h 3 (by omega)]

/-- A word stored at an offset. -/
def put32 (bytes : Nat → UInt8) (off : Nat) (word : UInt32) : Nat → UInt8 := fun i =>
  if i = off then word.toUInt8
  else if i = off + 1 then (word >>> 8).toUInt8
  else if i = off + 2 then (word >>> 16).toUInt8
  else if i = off + 3 then (word >>> 24).toUInt8
  else bytes i

/-! ### The device -/

/-- A device file: its bytes, and how many bytes a `read` of `len` bytes at
    `pos` transfers.  A read past the end or one that fails transfers fewer. -/
structure Device where
  size : Nat
  bytes : Nat → UInt8
  avail : Nat → Nat → Nat
  avail_le : ∀ pos len, avail pos len ≤ min len (size - pos)

/-- `read` at a given position: the count and the buffer afterwards, of which
    only the transferred bytes have changed. -/
def Device.read (dev : Device) (pos len : Nat) (buff : Nat → UInt8) : Nat × (Nat → UInt8) :=
  (dev.avail pos len, fun i => if i < dev.avail pos len then dev.bytes (pos + i) else buff i)

/-- `write` at a given position: the count and the device afterwards.  Nothing is
    written past the end of the device. -/
def Device.write (dev : Device) (pos len : Nat) (buff : Nat → UInt8) : Nat × Device :=
  (min len (dev.size - pos),
    { dev with
      bytes := fun i =>
        if pos ≤ i ∧ i < pos + min len (dev.size - pos) then buff (i - pos) else dev.bytes i })

/-! ### On-disk structures -/

/-- The fields of the BIOS parameter block that the server reads. -/
structure Bpb where
  jumpBoot : List UInt8
  oemName : List UInt8
  bytesPerSector : UInt16
  sectorsPerCluster : UInt8
  numReservedSectors : UInt16
  numFats : UInt8
  totalSectors32 : UInt32
  fatSize32 : UInt32
  rootCluster : UInt32
  fsType : List UInt8
deriving DecidableEq

/-- `memcpy` of the first 90 bytes of sector 0 into the packed struct. -/
def Bpb.ofBytes (b : Nat → UInt8) : Bpb where
  jumpBoot := [b 0, b 1, b 2]
  oemName := [b 3, b 4, b 5, b 6, b 7, b 8, b 9, b 10]
  bytesPerSector := le16 b 11
  sectorsPerCluster := b 13
  numReservedSectors := le16 b 14
  numFats := b 16
  totalSectors32 := le32 b 32
  fatSize32 := le32 b 36
  rootCluster := le32 b 44
  fsType := [b 82, b 83, b 84, b 85, b 86, b 87, b 88, b 89]

/-- The BPB of a server that has nothing mounted: all bytes zero. -/
def Bpb.zero : Bpb := Bpb.ofBytes fun _ => 0

/-- The 32 bytes of a directory entry, shared by `RegDirEntry` and `LongDirEntry`. -/
abbrev Slot := Fin 32 → UInt8

-- for the indices into a slot, `u 0` to `u 31`
instance neZero_32 : @NeZero Nat Zero.ofOfNat0 32 := ⟨by decide⟩

instance : DecidableEq Slot := fun u w =>
  decidable_of_iff (∀ i, u i = w i) ⟨funext, fun h i => congrFun h i⟩

namespace Slot

variable (u : Slot)

/-- The bytes of a slot by number, zero past its end. -/
def byte (i : Nat) : UInt8 := if h : i < 32 then u ⟨i, h⟩ else 0

def attributes : UInt8 := u 11
def ntRes : UInt8 := u 12
def timeCreated10ms : UInt8 := u 13
def timeCreated : UInt16 := le16 (byte u) 14
def dateCreated : UInt16 := le16 (byte u) 16
def dateLastAccess : UInt16 := le16 (byte u) 18
def firstClusterHi : UInt16 := le16 (byte u) 20
def timeLastWrite : UInt16 := le16 (byte u) 22
def dateLastWrite : UInt16 := le16 (byte u) 24
def firstClusterLo : UInt16 := le16 (byte u) 26
def fileSize : UInt32 := le32 (byte u) 28

/-- `(first_cluster_hi << 16) + first_cluster_lo` in 32 bits. -/
def firstCluster : UInt32 := (firstClusterHi u).toUInt32 <<< 16 + (firstClusterLo u).toUInt32

/-- The two halves of `short_name`, before and after the implied dot. -/
def shortBase : List UInt8 := [u 0, u 1, u 2, u 3, u 4, u 5, u 6, u 7]
def shortExt : List UInt8 := [u 8, u 9, u 10]

/-- The low bytes of the 13 characters in `name1`, `name2` and `name3`. -/
def longChars : List UInt8 :=
  [u 1, u 3, u 5, u 7, u 9, u 14, u 16, u 18, u 20, u 22, u 24, u 28, u 30]

end Slot

/-- `DIR_TYPE_UNDEFINED`, `DIR_TYPE_SHORT` and `DIR_TYPE_LONG`. -/
inductive DirType where
  | undefined
  | short
  | long
deriving DecidableEq, Repr

/-- A parsed directory entry; `u` keeps its old bytes while `type` is undefined. -/
structure DirEntry where
  type : DirType
  u : Slot
deriving DecidableEq

/-! ### Run-time state -/

/-- The current sector buffer and the values computed from the BPB. -/
structure FsData where
  magic : UInt8 × UInt8
  firstDataSector : UInt32
  numDataSectors : UInt32
  numDataClusters : UInt32
  buff : Nat → UInt8
  currSector : UInt32

/-- The currently active directory entry and its position. -/
structure DirBuff where
  de : DirEntry
  sector : UInt32
  offset : Nat

/-- What a run does to the sector buffer, recorded as it happens: the sector
    asked for and the buffer `load_sector` leaves, a FAT value used as a cluster
    number, and the buffer offsets of `parse_dir`, `fat_get` and `_cat`. -/
inductive Event where
  | load (sector : UInt32) (buff : Nat → UInt8)
  | follow (cluster : UInt32)
  | parse (off : Nat)
  | fat (off : Nat)
  | byte (off : Nat)

/-- Undefined behaviour of the C program, at which a run stops. -/
inductive Fault where
  | divByZero
  | outOfBounds
  | assertion
  | uninitialised
deriving DecidableEq, Repr

/-- What `util.c` works on.  `deviceFd` is the open device, `none` for `-1`. -/
structure Drive where
  bpb : Bpb
  fsData : FsData
  deviceFd : Option Device
  dirBuff : DirBuff
  trace : List Event

/-- Stack memory of the C functions that a run can observe: `junk` is what the
    uninitialised name buffers hold, in the order they are declared, and `stored`
    the size of each name buffer written with the length of the string put there. -/
structure Scratch where
  junk : Nat → Name
  stored : List (Nat × Nat)

/-- All globals of `fat32.c`, and the bytes printed so far. -/
structure Server extends Drive where
  deviceLabel : Name
  stack : List UInt32
  lastHopSector : UInt32
  lastHopOffset : Nat
  scratch : Scratch
  out : List UInt8

/-- The stack pointer: the number of sectors saved for rolling back. -/
def Server.sp (s : Server) : Nat := s.stack.length

abbrev DriveM := Prog Fault Drive
abbrev ServerM := Prog Fault Server

/-- A drive program leaves the session as it is. -/
instance : MonadLift DriveM ServerM where
  monadLift p := Prog.zoom Server.toDrive (fun d s => { s with toDrive := d }) p

theorem returns_liftM {α : Type} {p : DriveM α} {s s' : Server} {a : α} :
    Prog.Returns (liftM p : ServerM α) s a s' ↔
      ∃ d, Prog.Returns p s.toDrive a d ∧ s' = { s with toDrive := d } :=
  Prog.returns_zoom

theorem returns_liftM_bind {α β : Type} {p : DriveM α} {f : α → ServerM β} {s s' : Server}
    {b : β} : Prog.Returns ((liftM p : ServerM α) >>= f) s b s' ↔
      ∃ a d, Prog.Returns p s.toDrive a d ∧ Prog.Returns (f a) { s with toDrive := d } b s' := by
  rw [Prog.returns_bind]
  constructor
  · rintro ⟨a, s₁, hp, hf⟩
    obtain ⟨d, hd, rfl⟩ := returns_liftM.mp hp
    exact ⟨a, d, hd, hf⟩
  · rintro ⟨a, d, hd, hf⟩
    exact ⟨a, _, returns_liftM.mpr ⟨d, hd, rfl⟩, hf⟩

theorem safe_liftM {α : Type} {I : Option Fault → Server → Prop} {p : DriveM α} {s : Server}
    {Q : α → Server → Prop}
    (h : Prog.Safe (fun r d => I r { s with toDrive := d }) p s.toDrive
      fun a d => Q a { s with toDrive := d }) :
    Prog.Safe I (liftM p : ServerM α) s Q :=
  Prog.safe_zoom h

end Fat32s
