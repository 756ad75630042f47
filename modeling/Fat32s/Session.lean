/-
  Fat32s/Session.lean
  ===================
  **Requests and the states between them.**

  `returns_doMount` says once what a mount request can do, for every device and
  every answer of the system calls; `serve_command` reduces the other requests to
  the commands of `read.c`.  A state is `Reachable` when the main loop can be in
  it between two requests.
-/
import Fat32s.Walk

namespace Fat32s

open Fat32s.Lib Fat32s.Lib.Prog

variable {s s' : Server} {env : Env} {m : Message} {r : Int}

/-! ### Messages -/

/-- The text of a message, as `get_txt` makes it a C string. -/
def Message.text (m : Message) : Name := cstr ((List.range m.txtLen.toInt.toNat).map m.txt)

theorem returns_getTxt_bind {α : Type} {f : Option Name → ServerM α} {a : α} :
    Returns (getTxt m >>= f) s a s' ↔
      0 ≤ m.txtLen.toInt ∧ Returns (f (if m.copyOk then some m.text else none)) s a s' := by
  simp only [getTxt, malloc_server_bind, returns_bind, returns_check, returns_pure]
  constructor
  · rintro ⟨_, _, ⟨_, _, ⟨hlen, rfl⟩, rfl, rfl⟩, hf⟩
    exact ⟨hlen, hf⟩
  · rintro ⟨hlen, hf⟩
    exact ⟨_, _, ⟨(), _, ⟨hlen, rfl⟩, rfl, rfl⟩, hf⟩

theorem returns_refuse {text : String} {reply : Int} :
    Returns (refuse text reply) s r s' ↔ r = reply ∧ s' = s.say (ascii text) := by
  simp [refuse]

/-! ### Mounting -/

/-- The BPB as `read_bpb` finds it on a device. -/
def Device.bpb (dev : Device) : Bpb := Bpb.ofBytes dev.bytes

/-- The boot sector can be read in full. -/
def Device.HasBootSector (dev : Device) : Prop := dev.avail 0 BPB_SIZE = BPB_SIZE

def Device.Signed (dev : Device) : Prop := le16 dev.bytes 510 = MAGIC

def Drive.withBpb (d : Drive) (dev : Device) : Drive :=
  { d with bpb := dev.bpb, fsData := { d.fsData with magic := (dev.bytes 510, dev.bytes 511) } }

/-- The drive with the BPB and the values computed from it. -/
def Drive.withGeometry (d : Drive) (dev : Device) : Drive :=
  { d with
    bpb := dev.bpb
    fsData := { d.fsData with
      magic := (dev.bytes 510, dev.bytes 511)
      firstDataSector :=
        dev.bpb.numReservedSectors.toUInt32 + dev.bpb.numFats.toUInt32 * dev.bpb.fatSize32
      numDataSectors := dev.bpb.totalSectors32 - dev.bpb.numReservedSectors.toUInt32 -
        dev.bpb.numFats.toUInt32 * dev.bpb.fatSize32
      numDataClusters := (dev.bpb.totalSectors32 - dev.bpb.numReservedSectors.toUInt32 -
        dev.bpb.numFats.toUInt32 * dev.bpb.fatSize32) / dev.bpb.spc } }

/-- What a read of the boot sector delivers. -/
theorem Device.HasBootSector.read_eq {dev : Device} (h : dev.HasBootSector) :
    (dev.read 0 BPB_SIZE fun _ => 0).1 = BPB_SIZE ∧
    Bpb.ofBytes (dev.read 0 BPB_SIZE fun _ => 0).2 = dev.bpb ∧
    le16 (dev.read 0 BPB_SIZE fun _ => 0).2 510 = le16 dev.bytes 510 ∧
    (dev.read 0 BPB_SIZE fun _ => 0).2 510 = dev.bytes 510 ∧
    (dev.read 0 BPB_SIZE fun _ => 0).2 511 = dev.bytes 511 := by
  have havail : dev.avail 0 BPB_SIZE = BPB_SIZE := h
  have hbuff : ∀ i < BPB_SIZE, (dev.read 0 BPB_SIZE fun _ => 0).2 i = dev.bytes i := by
    intro i hi
    simp only [Device.read, havail, hi, if_true, Nat.zero_add]
  have h510 := hbuff 510 (by decide)
  have h511 := hbuff 511 (by decide)
  refine ⟨h, ?_, ?_, h510, h511⟩
  · simp (disch := decide) only [Device.bpb, Bpb.ofBytes, le16, le32, hbuff]
  · simp only [le16, h510, h511]

/-- The three ways in which `read_bpb` ends. -/
theorem returns_readBpb {d d' : Drive} {dev : Device} (hdev : d.deviceFd = some dev) :
    Returns readBpb d r d' ↔
      (¬ dev.HasBootSector ∧ r = EINVAL ∧ d' = d) ∨
      (dev.HasBootSector ∧ ¬ dev.Signed ∧ r = EINVAL ∧ d' = d.withBpb dev) ∨
      (dev.HasBootSector ∧ dev.Signed ∧ dev.bpb.spc ≠ 0 ∧ r = OK ∧ d' = d.withGeometry dev) := by
  unfold readBpb
  rw [returns_get_bind]
  by_cases hread : dev.HasBootSector
  · obtain ⟨hstatus, hbpb, hmagic, h510, h511⟩ := hread.read_eq
    by_cases hsigned : dev.Signed
    · have hsigned' : le16 dev.bytes 510 = MAGIC := hsigned
      simp only [hdev, hread, hsigned, hstatus, hbpb, hmagic, hsigned', h510, h511, ne_eq,
        not_true_eq_false, if_false, false_and, true_and, false_or, returns_modify_bind,
        returns_check_bind, returns_pure, Drive.withGeometry]
    · have hsigned' : le16 dev.bytes 510 ≠ MAGIC := hsigned
      simp only [hdev, hread, hsigned, hstatus, hbpb, hmagic, hsigned', h510, h511, ne_eq,
        not_true_eq_false, not_false_eq_true, if_true, if_false, false_and, true_and, false_or,
        or_false, returns_modify_bind, returns_pure, Drive.withBpb]
  · have hstatus : (dev.read 0 BPB_SIZE fun _ => 0).1 ≠ BPB_SIZE := hread
    simp only [hdev, hread, hstatus, ne_eq, not_false_eq_true, if_true, false_and, true_and,
      or_false, returns_pure]

/-- The server after a successful mount, before its first load. -/
def Server.opened (s : Server) (label : Name) (dev : Device) : Server :=
  { s with
    toDrive := Drive.withGeometry { s.toDrive with deviceFd := some dev } dev
    deviceLabel := label
    out := s.out ++ (Drive.withGeometry { s.toDrive with deviceFd := some dev } dev).welcomeStats }

/-- The first sector of the root directory, as the server computes it. -/
def Drive.rootSector (d : Drive) : UInt32 := d.firstSectorOfCluster d.bpb.rootCluster

/-- What a mount request can do. -/
inductive MountOutcome (env : Env) (m : Message) (s : Server) : Int → Server → Prop
  | already (hfd : s.deviceFd.isSome) :
      MountOutcome env m s EINVAL (s.say (ascii "FAT32S: A filesystem is already mounted.\n"))
  | notCopied (hfd : s.deviceFd = none) (hlen : 0 ≤ m.txtLen.toInt) (hcopy : m.copyOk = false) :
      MountOutcome env m s EINVAL (s.say (ascii "FAT32S: Memcpy failed.\n"))
  | notOpened (hfd : s.deviceFd = none) (hlen : 0 ≤ m.txtLen.toInt) (hcopy : m.copyOk = true)
      (hlabel : m.text.length < MAX_DEVICE_LABEL) (hopen : env.openDevice m.text = none) :
      MountOutcome env m s EINVAL
        (Server.say { s with deviceLabel := m.text, deviceFd := none }
          (ascii "FAT32S: Can't open the device file.\n"))
  | noBootSector {dev : Device} (hfd : s.deviceFd = none) (hlen : 0 ≤ m.txtLen.toInt)
      (hcopy : m.copyOk = true) (hlabel : m.text.length < MAX_DEVICE_LABEL)
      (hopen : env.openDevice m.text = some dev) (hboot : ¬ dev.HasBootSector) :
      MountOutcome env m s EINVAL
        (Server.say { s with deviceLabel := m.text, deviceFd := some dev }
          (ascii "FAT32S: Invalid BPB.\n"))
  | notSigned {dev : Device} (hfd : s.deviceFd = none) (hlen : 0 ≤ m.txtLen.toInt)
      (hcopy : m.copyOk = true) (hlabel : m.text.length < MAX_DEVICE_LABEL)
      (hopen : env.openDevice m.text = some dev) (hboot : dev.HasBootSector)
      (hsigned : ¬ dev.Signed) :
      MountOutcome env m s EINVAL
        (Server.say { s with
          toDrive := Drive.withBpb { s.toDrive with deviceFd := some dev } dev
          deviceLabel := m.text } (ascii "FAT32S: Invalid BPB.\n"))
  | mounted {dev : Device} (hfd : s.deviceFd = none) (hlen : 0 ≤ m.txtLen.toInt)
      (hcopy : m.copyOk = true) (hlabel : m.text.length < MAX_DEVICE_LABEL)
      (hopen : env.openDevice m.text = some dev) (hboot : dev.HasBootSector)
      (hsigned : dev.Signed) (hspc : dev.bpb.spc ≠ 0)
      (hfits : (s.opened m.text dev).Fits (s.opened m.text dev).rootSector) :
      MountOutcome env m s OK
        { s.opened m.text dev with
          toDrive := (s.opened m.text dev).toDrive.jump (s.opened m.text dev).rootSector
          stack := [] }

/-- The tail of `do_mount` once the BPB is accepted. -/
theorem returns_mountTail {label : Name} {dev : Device} :
    Returns (do
      printWelcomeStats
      Machine.free
      let s ← globals
      onDrive (jumpToSector (s.firstSectorOfCluster s.bpb.rootCluster))
      Machine.stackClear
      return OK : ServerM Int)
      { s with
        toDrive := Drive.withGeometry { s.toDrive with deviceFd := some dev } dev
        deviceLabel := label } r s' ↔
      (s.opened label dev).Fits (s.opened label dev).rootSector ∧ r = OK ∧
        s' = { s.opened label dev with
          toDrive := (s.opened label dev).toDrive.jump (s.opened label dev).rootSector
          stack := [] } := by
  simp only [printWelcomeStats, free_server_bind, globals_server, printf_server, onDrive_server,
    stackClear_server, returns_bind, returns_get, returns_print, Server.say,
    Drive.shown_welcomeStats, returns_liftM, returns_jumpToSector, returns_modify, returns_pure]
  constructor
  · rintro ⟨_, _, ⟨_, _, ⟨rfl, rfl⟩, rfl⟩, _, _, ⟨rfl, rfl⟩, _, _, ⟨_, ⟨hfits, rfl⟩, rfl⟩, _, _,
      rfl, rfl, rfl⟩
    exact ⟨hfits, rfl, rfl⟩
  · rintro ⟨hfits, rfl, rfl⟩
    exact ⟨(), _, ⟨_, _, ⟨rfl, rfl⟩, rfl⟩, _, _, ⟨rfl, rfl⟩, (), _, ⟨_, ⟨hfits, rfl⟩, rfl⟩, (), _,
      rfl, rfl, rfl⟩

theorem returns_doMount : Returns (doMount env m) s r s' ↔ MountOutcome env m s r s' := by
  unfold doMount
  rw [returns_globals_bind]
  constructor
  · intro h
    cases hfd : s.deviceFd with
    | some dev =>
      simp only [hfd, Option.isSome_some, if_true] at h
      obtain ⟨rfl, rfl⟩ := returns_refuse.mp h
      exact .already (by simp [hfd])
    | none =>
      simp only [hfd, Option.isSome_none, Bool.false_eq_true, if_false] at h
      obtain ⟨hlen, h⟩ := returns_getTxt_bind.mp h
      cases hcopy : m.copyOk with
      | false =>
        simp only [hcopy, Bool.false_eq_true, if_false, free_server_bind] at h
        obtain ⟨rfl, rfl⟩ := returns_refuse.mp h
        exact .notCopied hfd hlen hcopy
      | true =>
        simp only [hcopy, if_true, returns_check_bind, openDevice_server, returns_modify_bind,
          returns_globals_bind] at h
        obtain ⟨hlabel, h⟩ := h
        cases hopen : env.openDevice m.text with
        | none =>
          simp only [hopen, Option.isNone_none, if_true] at h
          obtain ⟨rfl, rfl⟩ := returns_refuse.mp h
          exact .notOpened hfd hlen hcopy hlabel hopen
        | some dev =>
          simp only [hopen, Option.isNone_some, Bool.false_eq_true, if_false] at h
          obtain ⟨status, d, hbpb, h⟩ := returns_onDrive_bind.mp h
          rcases (returns_readBpb rfl).mp hbpb with ⟨hboot, rfl, rfl⟩ | ⟨hboot, hsigned, rfl, rfl⟩ |
            ⟨hboot, hsigned, hspc, rfl, rfl⟩
          · obtain ⟨rfl, rfl⟩ := returns_refuse.mp (show Returns (refuse _ _) _ _ _ from h)
            exact .noBootSector hfd hlen hcopy hlabel hopen hboot
          · obtain ⟨rfl, rfl⟩ := returns_refuse.mp (show Returns (refuse _ _) _ _ _ from h)
            exact .notSigned hfd hlen hcopy hlabel hopen hboot hsigned
          · obtain ⟨hfits, rfl, rfl⟩ := returns_mountTail.mp h
            exact .mounted hfd hlen hcopy hlabel hopen hboot hsigned hspc hfits
  · intro h
    cases h with
    | already hfd =>
      simp only [hfd, if_true]
      exact returns_refuse.mpr ⟨rfl, rfl⟩
    | notCopied hfd hlen hcopy =>
      simp only [hfd, Option.isSome_none, Bool.false_eq_true, if_false]
      refine returns_getTxt_bind.mpr ⟨hlen, ?_⟩
      simp only [hcopy, Bool.false_eq_true, if_false, free_server_bind]
      exact returns_refuse.mpr ⟨rfl, rfl⟩
    | notOpened hfd hlen hcopy hlabel hopen =>
      simp only [hfd, Option.isSome_none, Bool.false_eq_true, if_false]
      refine returns_getTxt_bind.mpr ⟨hlen, ?_⟩
      simp only [hcopy, if_true, returns_check_bind, openDevice_server, returns_modify_bind,
        returns_globals_bind, hopen, Option.isNone_none]
      exact ⟨hlabel, returns_refuse.mpr ⟨rfl, rfl⟩⟩
    | noBootSector hfd hlen hcopy hlabel hopen hboot =>
      simp only [hfd, Option.isSome_none, Bool.false_eq_true, if_false]
      refine returns_getTxt_bind.mpr ⟨hlen, ?_⟩
      simp only [hcopy, if_true, returns_check_bind, openDevice_server, returns_modify_bind,
        returns_globals_bind, hopen, Option.isNone_some, Bool.false_eq_true, if_false]
      exact ⟨hlabel, returns_onDrive_bind.mpr ⟨EINVAL, _,
        (returns_readBpb rfl).mpr (.inl ⟨hboot, rfl, rfl⟩), returns_refuse.mpr ⟨rfl, rfl⟩⟩⟩
    | notSigned hfd hlen hcopy hlabel hopen hboot hsigned =>
      simp only [hfd, Option.isSome_none, Bool.false_eq_true, if_false]
      refine returns_getTxt_bind.mpr ⟨hlen, ?_⟩
      simp only [hcopy, if_true, returns_check_bind, openDevice_server, returns_modify_bind,
        returns_globals_bind, hopen, Option.isNone_some, Bool.false_eq_true, if_false]
      exact ⟨hlabel, returns_onDrive_bind.mpr ⟨EINVAL, _,
        (returns_readBpb rfl).mpr (.inr (.inl ⟨hboot, hsigned, rfl, rfl⟩)),
        returns_refuse.mpr ⟨rfl, rfl⟩⟩⟩
    | mounted hfd hlen hcopy hlabel hopen hboot hsigned hspc hfits =>
      simp only [hfd, Option.isSome_none, Bool.false_eq_true, if_false]
      refine returns_getTxt_bind.mpr ⟨hlen, ?_⟩
      simp only [hcopy, if_true, returns_check_bind, openDevice_server, returns_modify_bind,
        returns_globals_bind, hopen, Option.isNone_some, Bool.false_eq_true, if_false]
      exact ⟨hlabel, returns_onDrive_bind.mpr ⟨OK, _,
        (returns_readBpb rfl).mpr (.inr (.inr ⟨hboot, hsigned, hspc, rfl, rfl⟩)),
        returns_mountTail.mpr ⟨hfits, rfl, rfl⟩⟩⟩

/-! ### The other requests -/

/-- The commands of `read.c`. -/
inductive Command where
  | pwd
  | cd (path : Name)
  | ls (path : Name)
  | cat (path : Name)
  | stat (path : Name)

def Command.run : Command → ServerM Int
  | .pwd => Fat32s.pwd
  | .cd path => Fat32s.cd path
  | .ls path => Fat32s.ls path
  | .cat path => Fat32s.cat path
  | .stat path => Fat32s.stat path

/-- The command that a message asks for. -/
def Message.command (m : Message) : Option Command :=
  if m.callnr = FAT32S_PWD then some .pwd
  else if m.callnr = FAT32S_CD then some (.cd m.text)
  else if m.callnr = FAT32S_LS then some (.ls m.text)
  else if m.callnr = FAT32S_CAT then some (.cat m.text)
  else if m.callnr = FAT32S_STAT then some (.stat m.text)
  else none

/-- A request is refused with a message, or the command is run and its status reported. -/
inductive Answered (cmd : Command) (s : Server) : Server → Prop
  | refused (text : List UInt8) : Answered cmd s (s.say text)
  | ran {status : Int} {s₁ : Server} (text : List UInt8) (hfd : s.deviceFd ≠ none)
      (hrun : Returns cmd.run s status s₁) : Answered cmd s (s₁.say text)

theorem Server.say_nil : s.say [] = s := by simp [Server.say, shown]

theorem returns_doPwd (hfd : s.deviceFd ≠ none) :
    Returns doPwd s r s' ↔ r = OK ∧ ∃ status, Returns pwd s status s' := by
  have hnone : ¬ s.deviceFd.isNone = true := by simpa using hfd
  unfold doPwd
  rw [returns_globals_bind, if_neg hnone, returns_bind]
  constructor
  · rintro ⟨status, s₁, hrun, hret⟩
    obtain ⟨rfl, rfl⟩ := returns_pure.mp hret
    exact ⟨rfl, status, hrun⟩
  · rintro ⟨rfl, status, hrun⟩
    exact ⟨status, s', hrun, returns_pure.mpr ⟨rfl, rfl⟩⟩

theorem answered_doPwd (h : Returns doPwd s r s') : Answered .pwd s s' := by
  by_cases hfd : s.deviceFd = none
  · unfold doPwd at h
    rw [returns_globals_bind, hfd] at h
    obtain ⟨_, rfl⟩ := returns_refuse.mp h
    exact .refused _
  · obtain ⟨_, status, hrun⟩ := (returns_doPwd hfd).mp h
    rw [← Server.say_nil (s := s')]
    exact .ran [] hfd hrun

theorem answered_doCd (h : Returns (doCd m) s r s') : Answered (.cd m.text) s s' := by
  unfold doCd at h
  rw [returns_globals_bind] at h
  cases hfd : s.deviceFd with
  | none =>
    simp only [hfd, Option.isNone_none, if_true] at h
    obtain ⟨_, rfl⟩ := returns_refuse.mp h
    exact .refused _
  | some dev =>
    simp only [hfd, Option.isNone_some, Bool.false_eq_true, if_false] at h
    obtain ⟨_, h⟩ := returns_getTxt_bind.mp h
    cases hcopy : m.copyOk with
    | false =>
      simp only [hcopy, Bool.false_eq_true, if_false, free_server_bind] at h
      obtain ⟨_, rfl⟩ := returns_refuse.mp h
      exact .refused _
    | true =>
      simp only [hcopy, if_true] at h
      obtain ⟨status, s₁, hrun, h⟩ := returns_bind.mp h
      have hfd' : s.deviceFd ≠ none := by simp [hfd]
      split at h
      · obtain ⟨_, rfl⟩ := returns_refuse.mp h
        exact .ran _ hfd' hrun
      · split at h
        · obtain ⟨_, rfl⟩ := returns_refuse.mp h
          exact .ran _ hfd' hrun
        · rw [free_server_bind] at h
          obtain ⟨_, rfl⟩ := returns_pure.mp h
          rw [← Server.say_nil (s := s')]
          exact .ran [] hfd' hrun

theorem answered_doCommand {cmd : Command} {command : Name → ServerM Int} {complaint : String}
    (hcmd : cmd.run = command m.text) (h : Returns (doCommand command complaint m) s r s') :
    Answered cmd s s' := by
  unfold doCommand at h
  rw [returns_globals_bind] at h
  cases hfd : s.deviceFd with
  | none =>
    simp only [hfd, Option.isNone_none, if_true] at h
    obtain ⟨_, rfl⟩ := returns_refuse.mp h
    exact .refused _
  | some dev =>
    simp only [hfd, Option.isNone_some, Bool.false_eq_true, if_false] at h
    obtain ⟨_, h⟩ := returns_getTxt_bind.mp h
    cases hcopy : m.copyOk with
    | false =>
      simp only [hcopy, Bool.false_eq_true, if_false, free_server_bind] at h
      obtain ⟨_, rfl⟩ := returns_refuse.mp h
      exact .refused _
    | true =>
      simp only [hcopy, if_true] at h
      obtain ⟨status, s₁, hrun, h⟩ := returns_bind.mp h
      rw [← hcmd] at hrun
      have hfd' : s.deviceFd ≠ none := by simp [hfd]
      split at h
      · obtain ⟨_, rfl⟩ := returns_refuse.mp h
        exact .ran _ hfd' hrun
      · obtain ⟨_, rfl⟩ := returns_pure.mp h
        rw [← Server.say_nil (s := s')]
        exact .ran [] hfd' hrun

theorem returns_doUnmount (h : Returns (doUnmount env m) s r s') :
    (∃ text, s' = s.say text) ∨ s' = s.reset := by
  unfold doUnmount at h
  rw [returns_globals_bind] at h
  split at h
  · exact .inl ⟨_, (returns_refuse.mp h).2⟩
  · obtain ⟨_, h⟩ := returns_getTxt_bind.mp h
    cases hcopy : m.copyOk with
    | false =>
      simp only [hcopy, Bool.false_eq_true, if_false, free_server_bind] at h
      exact .inl ⟨_, (returns_refuse.mp h).2⟩
    | true =>
      simp only [hcopy, if_true, free_server_bind] at h
      split at h
      · exact .inl ⟨_, (returns_refuse.mp h).2⟩
      · split at h
        · exact .inl ⟨_, (returns_refuse.mp h).2⟩
        · rw [reset_server, returns_modify_bind] at h
          exact .inr (returns_pure.mp h).2

/-- What one round of the main loop can do to the state. -/
inductive ServeOutcome (env : Env) (m : Message) (s : Server) (r : Int) : Server → Prop
  | said (text : List UInt8) : ServeOutcome env m s r (s.say text)
  | mount {s' : Server} (h : MountOutcome env m s r s') : ServeOutcome env m s r s'
  | unmounted : ServeOutcome env m s r s.reset
  | command {s' : Server} {cmd : Command} (hcmd : m.command = some cmd) (h : Answered cmd s s') :
      ServeOutcome env m s r s'

/-- The handler that a command is passed to. -/
def Command.handle (m : Message) : Command → ServerM Int
  | .pwd => doPwd
  | .cd _ => doCd m
  | .ls _ => doLs m
  | .cat _ => doCat m
  | .stat _ => doStat m

theorem serve_eq_handle {cmd : Command} (hcmd : m.command = some cmd) :
    serve env m = cmd.handle m := by
  unfold Message.command at hcmd
  unfold serve
  split at hcmd
  · rename_i hnr
    rw [hnr, ← Option.some.inj hcmd]
    rfl
  split at hcmd
  · rename_i hnr
    rw [hnr, ← Option.some.inj hcmd]
    rfl
  split at hcmd
  · rename_i hnr
    rw [hnr, ← Option.some.inj hcmd]
    rfl
  split at hcmd
  · rename_i hnr
    rw [hnr, ← Option.some.inj hcmd]
    rfl
  split at hcmd
  · rename_i hnr
    rw [hnr, ← Option.some.inj hcmd]
    rfl
  · cases hcmd

theorem command_text {cmd : Command} (hcmd : m.command = some cmd) :
    cmd = .pwd ∨ cmd = .cd m.text ∨ cmd = .ls m.text ∨ cmd = .cat m.text ∨ cmd = .stat m.text := by
  unfold Message.command at hcmd
  grind

theorem serve_answered {cmd : Command} (hcmd : m.command = some cmd)
    (h : Returns (serve env m) s r s') : Answered cmd s s' := by
  rw [serve_eq_handle hcmd] at h
  rcases command_text hcmd with rfl | rfl | rfl | rfl | rfl
  · exact answered_doPwd h
  · exact answered_doCd h
  · exact answered_doCommand rfl h
  · exact answered_doCommand rfl h
  · exact answered_doCommand rfl h

theorem serve_cases (h : Returns (serve env m) s r s') : ServeOutcome env m s r s' := by
  cases hcmd : m.command with
  | some cmd => exact .command hcmd (serve_answered hcmd h)
  | none =>
    unfold serve at h
    split at h
    · rw [returns_printf_bind] at h
      rw [(returns_pure.mp h).2]
      exact .said _
    split at h
    · exact .mount (returns_doMount.mp h)
    split at h
    · rcases returns_doUnmount h with ⟨text, rfl⟩ | rfl
      · exact .said text
      · exact .unmounted
    · have hnr : m.callnr ≠ FAT32S_PWD ∧ m.callnr ≠ FAT32S_CD ∧ m.callnr ≠ FAT32S_LS ∧
          m.callnr ≠ FAT32S_CAT ∧ m.callnr ≠ FAT32S_STAT := by
        unfold Message.command at hcmd
        grind
      obtain ⟨hpwd, hcd, hls, hcat, hstat⟩ := hnr
      rw [if_neg hpwd, if_neg hcd, if_neg hls, if_neg hcat, if_neg hstat, returns_printf_bind] at h
      rw [(returns_pure.mp h).2]
      exact .said _

/-- The server after `sef_cb_init`; `junk` is what its stack memory holds. -/
def Server.initial (junk : Nat → Name) : Server :=
  Server.reset
    { bpb := Bpb.zero
      fsData := ⟨(0, 0), 0, 0, 0, fun _ => 0, 0⟩
      deviceFd := none
      dirBuff := ⟨⟨.undefined, fun _ => 0⟩, 0, 0⟩
      trace := []
      deviceLabel := []
      stack := []
      lastHopSector := 0
      lastHopOffset := 0
      scratch := ⟨junk, []⟩
      out := ascii "sef_cb_init\n" }

/-- The main loop can be in this state between two requests. -/
inductive Reachable : Server → Prop
  | init (junk : Nat → Name) : Reachable (Server.initial junk)
  | serve {s s' : Server} {env : Env} {m : Message} {r : Int} (hs : Reachable s)
      (h : Returns (serve env m) s r s') : Reachable s'

/-- A run of command requests, each of which returns and meets `P` when it comes. -/
inductive Requests (P : Command → Server → Prop) (s : Server) : Server → Prop
  | none : Requests P s s
  | more {s₁ s' : Server} {env : Env} {m : Message} {cmd : Command} {r : Int}
      (hrun : Requests P s s₁) (hcmd : m.command = some cmd) (hP : P cmd s₁)
      (h : Returns (serve env m) s₁ r s') : Requests P s s'

/-- A run of requests of any kind between which a device is open. -/
inductive InSession (s : Server) : Server → Prop
  | start : InSession s s
  | serve {s₁ s' : Server} {env : Env} {m : Message} {r : Int} (hrun : InSession s s₁)
      (h : Returns (serve env m) s₁ r s') (hfd : s'.deviceFd ≠ none) : InSession s s'

/-- While a device is open, a request that does not close it is a command or
    changes nothing. -/
theorem serve_in_session (hfd : s.deviceFd ≠ none) (h : Returns (serve env m) s r s')
    (hfd' : s'.deviceFd ≠ none) : ∃ cmd, Answered cmd s s' := by
  cases serve_cases h with
  | said text => exact ⟨.pwd, .refused text⟩
  | unmounted => exact (hfd' rfl).elim
  | command hcmd hanswer => exact ⟨_, hanswer⟩
  | mount hmount =>
    cases hmount with
    | already _ => exact ⟨.pwd, .refused _⟩
    | notCopied hclosed => exact (hfd hclosed).elim
    | notOpened hclosed => exact (hfd hclosed).elim
    | noBootSector hclosed => exact (hfd hclosed).elim
    | notSigned hclosed => exact (hfd hclosed).elim
    | mounted hclosed => exact (hfd hclosed).elim

end Fat32s
