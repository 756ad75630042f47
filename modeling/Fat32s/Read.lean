/-
  Fat32s/Read.lean
  ================
  **The commands pwd, cd, ls, cat and stat** (`read.c`).

  Each command saves the sector it starts from on the rollback stack and, on
  every exit but one, takes it off again: the error exit of `_pwd` returns with
  both of its sectors still on the stack.
-/
import Fat32s.Print

namespace Fat32s

open Fat32s.Lib

variable {σ : Type} [Machine σ]

/-! ### pwd -/

/-- The loop variables of `_pwd`: `full_path` and `cluster_id`. -/
structure PwdVars where
  fullPath : Name
  clusterId : UInt32

def pwdStep (w : PwdVars) : Prog Fault σ (PwdVars ⊕ Int) := do
  let found ← findChild (ascii "..")
  if found = 0 then
    let _ ← onServer hop
    let s ← globals
    Machine.stackPush s.dirBuff.sector
    let (name, success) ← findChildByClusterId w.clusterId
    if success ≠ 0 then
      printf (ascii "This should never happen..")
      return .inr (-1)
    else
      onServer (store MAX_NAME_LEN (name ++ w.fullPath))
      onServer (store 1024 (ascii "/" ++ (name ++ w.fullPath)))
      rollback
      let s ← globals
      let clusterId ← onDrive (sectorToCluster s.dirBuff.sector)
      return .inl ⟨ascii "/" ++ (name ++ w.fullPath), clusterId⟩
  else
    printf (if w.fullPath = [] then ascii "/\n" else w.fullPath ++ ascii "\n")
    rollback
    return .inr OK

def pwd : Prog Fault σ Int := do
  let s ← globals
  Machine.stackPush s.dirBuff.sector
  let clusterId ← onDrive (sectorToCluster s.dirBuff.sector)
  Prog.iter pwdStep ⟨[], clusterId⟩

/-! ### cd -/

def cd (path : Name) : Prog Fault σ Int := do
  let s ← globals
  Machine.stackPush s.dirBuff.sector
  let status ← walk path WALK_BAN_FILES
  if status ≠ 0 then
    rollback
    return status
  else
    let _ ← Machine.stackPop
    return 0

/-! ### ls -/

/-- The line that `_ls` prints for a short entry. -/
def lsLine (de : DirEntry) (fullName : Name) : List UInt8 :=
  (if de.isDirectory then ascii "[*]" else []) ++ fullName ++ ascii "\n"

/-- The listing loop, from the cursor to the first empty slot. -/
def listEntries : Prog Fault σ Unit :=
  scan (fun de fullName => do printf (lsLine de fullName); return none) fun _ => ()

def ls (path : Name) : Prog Fault σ Int := do
  let s ← globals
  Machine.stackPush s.dirBuff.sector
  let status ← if path = ascii "." then pure 0 else cd path
  if status ≠ 0 then
    rollback
    return status
  else
    listEntries
    rollback
    return OK

/-! ### cat -/

/-- One round of the printing loop: print a byte and move past it. -/
def catByte : ServerM Unit := do
  let s ← Prog.get
  Prog.check (s.dirBuff.offset < MAX_BYTES_PER_SECTOR) .outOfBounds
  log (.byte s.dirBuff.offset)
  print [s.fsData.buff s.dirBuff.offset]
  Prog.modify fun s => { s with dirBuff := { s.dirBuff with offset := s.dirBuff.offset + 1 } }
  let s ← Prog.get
  if s.dirBuff.offset = s.bpb.bytesPerSector.toNat then
    nextSector
  else
    pure ()

/-- The file size, from the entry that the last hop started from. -/
def lastHopSize : Prog Fault σ UInt32 := do
  let s ← globals
  Machine.stackPush s.dirBuff.sector
  onServer (Prog.modify fun s =>
    { s with dirBuff := { s.dirBuff with sector := s.lastHopSector, offset := s.lastHopOffset } })
  let s ← globals
  let _ ← onDrive (loadSector s.dirBuff.sector)
  let _ ← onDrive (parseDir s.dirBuff.offset)
  let s ← globals
  rollback
  return s.dirBuff.de.u.fileSize

def cat (path : Name) : Prog Fault σ Int := do
  let s ← globals
  Machine.stackPush s.dirBuff.sector
  let status ← walk path WALK_BAN_DIRS
  if status ≠ 0 then
    rollback
    return status
  else
    let sz ← lastHopSize
    onServer (Prog.times sz.toNat catByte)
    printf (ascii "^EOF\n")
    rollback
    return OK

/-! ### stat -/

/-- The backward scan for a `/`, over the first `n` characters. -/
def lastSlash (path : Name) : Nat → Option Nat
  | 0 => none
  | n + 1 => if path[n]? = some 0x2F then some n else lastSlash path n

/-- `_stat` once it stands in the directory that should hold `lastName`. -/
def statEntry (lastName : Name) : Prog Fault σ Int := do
  let status ← findChild lastName
  if status ≠ 0 then
    rollback
    return status
  else
    let s ← globals
    printRegularDirEntry s.dirBuff.de.u
    printLongNameRde lastName
    rollback
    return OK

def stat (path : Name) : Prog Fault σ Int := do
  let s ← globals
  Machine.stackPush s.dirBuff.sector
  -- the last character is not looked at, so that a trailing `/` is no separator
  match lastSlash path (path.length - 1) with
  | none => statEntry path
  | some i => do
    let status ← walk (path.take i) WALK_BAN_FILES
    if status ≠ 0 then
      rollback
      return status
    else
      statEntry (path.drop (i + 1))

end Fat32s
