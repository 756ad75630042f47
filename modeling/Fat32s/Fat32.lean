/-
  Fat32s/Fat32.lean
  =================
  **Mounting and the request handlers** (`mount.c`, `fat32.c`, `main.c`).

  A request is a message together with what the operating system answers while
  it is served: whether the text could be copied from the client, what `open`
  finds under a label, and whether `close` succeeds.  `device_fd != -1` is the
  only thing the handlers check before they trust the rest of the state.
-/
import Fat32s.Read

namespace Fat32s

open Fat32s.Lib

/-- What the system calls of one request answer. -/
structure Env where
  openDevice : Name → Option Device
  closeOk : Bool

/-- A request message; `txt` are the bytes at `txt_loc` in the client. -/
structure Message where
  source : UInt32
  callnr : UInt32
  txtLen : Int32
  txt : Nat → UInt8
  copyOk : Bool

/-- The size that `malloc` is called with, `len + 1` in C's types. -/
def Message.allocated (m : Message) : Nat := (m.txtLen + 1).toUInt32.toNat

def FAT32S_MOUNT : UInt32 := 0x1700
def FAT32S_UNMOUNT : UInt32 := 0x1701
def FAT32S_CD : UInt32 := 0x1702
def FAT32S_PWD : UInt32 := 0x1703
def FAT32S_LS : UInt32 := 0x1704
def FAT32S_CAT : UInt32 := 0x1705
def FAT32S_STAT : UInt32 := 0x1706

/-! ### mount.c -/

/-- Read sector 0 and compute the geometry.  The signature is the only check,
    and the BPB is stored before it is made. -/
def readBpb : DriveM Int := do
  let d ← Prog.get
  let (status, buff) :=
    match d.deviceFd with
    | some dev => dev.read 0 BPB_SIZE fun _ => 0
    | none => (0, fun _ => 0)
  if status ≠ BPB_SIZE then
    return EINVAL
  else
    let bpb := Bpb.ofBytes buff
    Prog.modify fun d =>
      { d with bpb := bpb, fsData := { d.fsData with magic := (buff 510, buff 511) } }
    if le16 buff 510 ≠ MAGIC then
      return EINVAL
    else
      let fats := bpb.numFats.toUInt32 * bpb.fatSize32
      let numDataSectors := bpb.totalSectors32 - bpb.numReservedSectors.toUInt32 - fats
      Prog.check (bpb.spc ≠ 0) .divByZero
      Prog.modify fun d =>
        { d with
          fsData := { d.fsData with
            firstDataSector := bpb.numReservedSectors.toUInt32 + fats
            numDataSectors := numDataSectors
            numDataClusters := numDataSectors / bpb.spc } }
      return OK

/-! ### fat32.c -/

variable {σ : Type} [Machine σ]

/-- Copy the text of a request; `none` when `sys_datacopy` fails.  The
    terminating zero goes to index `txt_len`, whatever its sign. -/
def getTxt (m : Message) : Prog Fault σ (Option Name) := do
  Machine.malloc m.allocated
  Prog.check (0 ≤ m.txtLen.toInt) .outOfBounds
  return if m.copyOk then some (cstr ((List.range m.txtLen.toInt.toNat).map m.txt)) else none

def refuse (text : String) (reply : Int) : Prog Fault σ Int := do
  printf (ascii text)
  return reply

def doMount (env : Env) (m : Message) : Prog Fault σ Int := do
  let s ← globals
  if s.deviceFd.isSome then
    refuse "FAT32S: A filesystem is already mounted.\n" EINVAL
  else
    match ← getTxt m with
    | none => do
      Machine.free
      refuse "FAT32S: Memcpy failed.\n" EINVAL
    | some txt => do
      -- `strcpy` into `device_label`
      Prog.check (txt.length < MAX_DEVICE_LABEL) .outOfBounds
      Machine.openDevice txt (env.openDevice txt)
      let s ← globals
      if s.deviceFd.isNone then
        refuse "FAT32S: Can't open the device file.\n" EINVAL
      else
        let status ← onDrive readBpb
        if status ≠ OK then
          refuse "FAT32S: Invalid BPB.\n" EINVAL
        else
          printWelcomeStats
          Machine.free
          let s ← globals
          onDrive (jumpToSector (s.firstSectorOfCluster s.bpb.rootCluster))
          Machine.stackClear
          return OK

def doUnmount (env : Env) (m : Message) : Prog Fault σ Int := do
  let s ← globals
  if s.deviceFd.isNone then
    refuse "FAT32S: Nothing is mounted.\n" EINVAL
  else
    match ← getTxt m with
    | none => do
      Machine.free
      refuse "FAT32S: Memcpy failed.\n" EINVAL
    | some txt => do
      if s.deviceLabel ≠ txt then
        Machine.free
        refuse "FAT32S: The device with this label not mounted.\n" EINVAL
      else if env.closeOk = false then
        Machine.free
        refuse "FAT32S: Closing failed.\n" EINVAL
      else
        Machine.reset
        Machine.free
        return OK

def doPwd : Prog Fault σ Int := do
  let s ← globals
  if s.deviceFd.isNone then
    refuse "FAT32S: Nothing is mounted.\n" EINVAL
  else
    let _ ← pwd
    return OK

def doCd (m : Message) : Prog Fault σ Int := do
  let s ← globals
  if s.deviceFd.isNone then
    refuse "FAT32S: Nothing is mounted.\n" EINVAL
  else
    match ← getTxt m with
    | none => do
      Machine.free
      refuse "FAT32S: Memcpy failed.\n" EFAULT
    | some txt => do
      let status ← cd txt
      if status = 1 then
        refuse "FAT32S: Can't find the requested file.\n" ENOENT
      else if status = 2 then
        refuse "FAT32S: Can't cd into a file.\n" EINVAL
      else
        Machine.free
        return OK

/-- The handlers of ls, cat and stat: run the command on the text and report
    its status, with a message when it is not 0.  The text is not freed. -/
def doCommand (command : Name → Prog Fault σ Int) (complaint : String) (m : Message) :
    Prog Fault σ Int := do
  let s ← globals
  if s.deviceFd.isNone then
    refuse "FAT32S: Nothing is mounted.\n" EINVAL
  else
    match ← getTxt m with
    | none => do
      Machine.free
      refuse "FAT32S: Memcpy failed.\n" EINVAL
    | some txt => do
      let status ← command txt
      if status ≠ 0 then
        refuse complaint status
      else
        return status

def doLs : Message → Prog Fault σ Int := doCommand ls "FAT32S: You can't ls like that."
def doCat : Message → Prog Fault σ Int :=
  doCommand cat "FAT32S: You can't cat the requested file."
def doStat : Message → Prog Fault σ Int := doCommand stat "FAT32S: Stat error.\n"

/-! ### main.c -/

/-- The body of the main loop: dispatch a message and give the reply. -/
def serve (env : Env) (m : Message) : Prog Fault σ Int :=
  if m.callnr - 0x1000 < 0x100 then do
    printf (line "FAT32S: warning, got illegal notify from: " (decimal m.source) "\n")
    return EINVAL
  else if m.callnr = FAT32S_MOUNT then doMount env m
  else if m.callnr = FAT32S_UNMOUNT then doUnmount env m
  else if m.callnr = FAT32S_PWD then doPwd
  else if m.callnr = FAT32S_CD then doCd m
  else if m.callnr = FAT32S_LS then doLs m
  else if m.callnr = FAT32S_CAT then doCat m
  else if m.callnr = FAT32S_STAT then doStat m
  else do
    printf (line "FAT32S: warning, got illegal request from " (decimal m.source) "\n")
    return EINVAL

end Fat32s
