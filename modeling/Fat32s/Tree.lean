/-
  Fat32s/Tree.lean
  ================
  **Moving through the directory tree** (`tree.c`).

  One cursor, `dir_buff`, is moved by everything: a scan advances it slot by
  slot, a hop sends it to the first sector of the entry's cluster, and a failed
  walk sends it back to a sector saved on the rollback stack.  The scans
  accumulate the pieces of a long name, last piece first, until they meet the
  short entry that the name belongs to.
-/
import Fat32s.Machine

namespace Fat32s

open Fat32s.Lib

variable {σ : Type} [Machine σ]

/-! ### The cursor -/

def jumpToSector (sector : UInt32) : DriveM Unit := do
  Prog.modify fun d => { d with dirBuff := { d.dirBuff with sector := sector, offset := 0 } }
  let _ ← loadSector sector
  let _ ← parseDir 0

/-- `jump_to_sector(stack_pop())`. -/
def rollback : Prog Fault σ Unit := do
  let sector ← Machine.stackPop
  onDrive (jumpToSector sector)

/-- Move `dir_buff` past the end of its sector: to the following sector, or
    through the FAT when the cluster ends there.  `next_dir_entry` and `_cat`
    both contain this code. -/
def nextSector : DriveM Unit := do
  let d ← Prog.get
  Prog.check (d.bpb.spc ≠ 0) .divByZero
  if (d.dirBuff.sector + 1 - d.fsData.firstDataSector) % d.bpb.spc = 0 then
    let cluster ← sectorToCluster d.dirBuff.sector
    let nextCluster ← fatGet cluster
    log (.follow nextCluster)
    Prog.modify fun d =>
      { d with dirBuff := { d.dirBuff with sector := d.firstSectorOfCluster nextCluster } }
  else
    Prog.modify fun d =>
      { d with dirBuff := { d.dirBuff with sector := d.dirBuff.sector + 1 } }
  Prog.modify fun d => { d with dirBuff := { d.dirBuff with offset := 0 } }
  let d ← Prog.get
  let _ ← loadSector d.dirBuff.sector

def nextDirEntry : DriveM DirType := do
  let d ← Prog.get
  if d.dirBuff.offset + DIRENTRY_SIZE = d.bpb.bytesPerSector.toNat then
    nextSector
  else
    Prog.modify fun d =>
      { d with dirBuff := { d.dirBuff with offset := d.dirBuff.offset + DIRENTRY_SIZE } }
  let d ← Prog.get
  parseDir d.dirBuff.offset

/-- Go to the file or directory that the active entry stands for.  Cluster 0
    is the root directory, as in the `..` entry of a top-level directory. -/
def hop : ServerM Int := do
  let s ← Prog.get
  if s.dirBuff.de.type ≠ .short then
    return EINVAL
  else
    Prog.modify fun s =>
      { s with lastHopSector := s.dirBuff.sector, lastHopOffset := s.dirBuff.offset }
    let cluster := s.dirBuff.de.u.firstCluster
    let cluster := if cluster = 0 then s.bpb.rootCluster else cluster
    jumpToSector (s.firstSectorOfCluster cluster)
    return OK

/-! ### Scans -/

/-- The loop variables of a scan: the buffers `part` and `full_name`. -/
structure Names where
  part : Name
  full : Name

/-- A long entry puts its piece before the pieces already collected. -/
def addPiece (de : DirEntry) (names : Names) : Prog Fault σ Names := do
  let part ← Machine.getName de names.part
  onServer (store MAX_NAME_LEN part)
  onServer (store MAX_NAME_LEN (part ++ names.full))
  onServer (store MAX_NAME_LEN (part ++ names.full))
  return ⟨part ++ names.full, part ++ names.full⟩

/-- A short entry goes by its own name when no pieces were collected. -/
def ownName (de : DirEntry) (names : Names) : Prog Fault σ Names := do
  if names.full = [] then
    let part ← Machine.getName de names.part
    onServer (store MAX_NAME_LEN part)
    onServer (store MAX_NAME_LEN part)
    return ⟨part, part⟩
  else
    return names

/-- One round of the loop that `find_child`, `find_child_by_cluster_id` and
    `_ls` each contain.  `hit` is what the function does with a short entry and
    the name it goes by; it may leave the loop there.  `atEnd` is the result at
    the first empty slot. -/
def scanStep {α : Type} (hit : DirEntry → Name → Prog Fault σ (Option α)) (atEnd : Name → α)
    (names : Names) : Prog Fault σ (Names ⊕ α) := do
  let s ← globals
  match s.dirBuff.de.type with
  | .undefined => return .inr (atEnd names.full)
  | .long => do
    let names ← addPiece s.dirBuff.de names
    let _ ← onDrive nextDirEntry
    return .inl names
  | .short => do
    let names ← ownName s.dirBuff.de names
    match ← hit s.dirBuff.de names.full with
    | some a => return .inr a
    | none => do
      let _ ← onDrive nextDirEntry
      return .inl { names with full := [] }

def scan {α : Type} (hit : DirEntry → Name → Prog Fault σ (Option α)) (atEnd : Name → α) :
    Prog Fault σ α := do
  let part ← onServer newBuffer
  Prog.iter (scanStep hit atEnd) ⟨part, []⟩

def findChild (queryName : Name) : Prog Fault σ Int :=
  scan (fun _ fullName => pure (if fullName = queryName then some 0 else none)) fun _ => 1

/-- The cluster id that `find_child_by_cluster_id` reads from an entry.  The
    root cluster is taken to be 2, whatever the BPB says. -/
def Slot.clusterId (u : Slot) : UInt32 := if u.firstCluster = 0 then 2 else u.firstCluster

/-- Returns the caller's name buffer with the status. -/
def findChildByClusterId (clusterId : UInt32) : Prog Fault σ (Name × Int) :=
  scan (fun de fullName => pure (if clusterId = de.u.clusterId then some (fullName, 0) else none))
    fun fullName => (fullName, 1)

/-! ### Walking a path -/

def WALK_BAN_FILES : Nat := 1
def WALK_BAN_DIRS : Nat := 2

/-- The loop variables of `walk`; segments of `path` are cut off in place. -/
structure WalkVars where
  left : Nat
  right : Nat
  path : List UInt8

/-- Where the inner loop of `walk` stops: at the next `/` or at `len`. -/
def segmentEnd (path : List UInt8) (len right : Nat) : Nat :=
  right + (((path.take len).drop right).takeWhile (· ≠ 0x2F)).length

/-- The loop body of `walk` once the segment is cut off: find the child, test
    it, and hop to it.  `more` says that the segment ends at a `/`; a result is
    the status that `walk` returns with. -/
def visit (banFiles banDirs : Bool) (segment : Name) (more : Bool) :
    Prog Fault σ (Option Int) := do
  let status ← findChild segment
  if status ≠ 0 then
    rollback
    return some 1
  else
    let s ← globals
    let isDir := s.dirBuff.de.isDirectory
    -- a file in the middle of the path, or a last node that the flags ban
    if (more && !isDir) || (!more && ((banDirs && isDir) || (banFiles && !isDir))) then
      rollback
      return some 2
    else
      let _ ← onServer hop
      return none

def walkStep (banFiles banDirs : Bool) (len : Nat) (w : WalkVars) :
    Prog Fault σ (WalkVars ⊕ Int) := do
  if w.right < len then
    let right := segmentEnd w.path len w.right
    let path := w.path.set right 0
    match ← visit banFiles banDirs (cstr (path.drop w.left)) (right < len) with
    | some status => return .inr status
    | none => return .inl ⟨right + 1, right + 1, path⟩
  else
    let _ ← Machine.stackPop
    return .inr 0

def walk (path : Name) (flags : Nat) : Prog Fault σ Int := do
  let banFiles : Bool := (flags &&& WALK_BAN_FILES) > 0
  let banDirs : Bool := (flags &&& WALK_BAN_DIRS) > 0
  let s ← globals
  Machine.stackPush s.dirBuff.sector
  Prog.iter (walkStep banFiles banDirs (cstr path).length) ⟨0, 0, path⟩

end Fat32s
