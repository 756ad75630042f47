/-
  Fat32s/Sessions.lean
  ====================
  **The server refines a file system with a session.**

  What the requests of `fat32.c` do is said twice.  `Session.serve` is the abstract
  machine: nothing is mounted, or a file system is, under a label, and there is a
  current directory.  It knows the texts and the codes of the replies, and nothing
  else of the server.  `serve` is the model of the code.

  Where every device that can be opened holds a sound volume, the server answers
  each request as the session does, prints the same text and goes on in a state that
  stands for the next session.  So it does for any sequence of requests, mounts and
  unmounts of different volumes among them, and no run ends in undefined behaviour
  or does not end.
-/
import Fat32s.Lib.Service
import Fat32s.FileSystem
import Fat32s.Invariant

namespace Fat32s

open Fat32s.Lib Fat32s.Lib.Prog

/-! ### Sessions -/

/-- Nothing is mounted, or a file system is, under its label, and `dir` is the current
    directory. -/
inductive Session (D : Type) where
  | idle
  | mounted (label : Name) (fs : FileSystem D) (dir : D)

/-- The reply to a request, the text printed for it, and the session that follows. -/
structure Reply (D : Type) where
  code : Int
  text : List UInt8
  session : Session D

/-- The handlers but that of pwd copy a text from the client first. -/
def Command.readsText : Command → Bool
  | .pwd => false
  | _ => true

/-- The reply when the text could not be copied. -/
def Command.copyError : Command → Int
  | .cd _ => EFAULT
  | _ => EINVAL

/-- What a handler replies and prints when the command has come to an end. -/
def Command.verdict : Command → Int → Int × List UInt8
  | .pwd, _ => (OK, [])
  | .cd _, status =>
    if status = 1 then (ENOENT, ascii "FAT32S: Can't find the requested file.\n")
    else if status = 2 then (EINVAL, ascii "FAT32S: Can't cd into a file.\n")
    else (OK, [])
  | .ls _, status => (status, if status ≠ 0 then ascii "FAT32S: You can't ls like that." else [])
  | .cat _, status =>
    (status, if status ≠ 0 then ascii "FAT32S: You can't cat the requested file." else [])
  | .stat _, status => (status, if status ≠ 0 then ascii "FAT32S: Stat error.\n" else [])

namespace Session

variable {D : Type}

def say (σ : Session D) (code : Int) (text : List UInt8) : Reply D := ⟨code, text, σ⟩

def mount (volumes : Name → Option (FileSystem D)) (m : Message) (σ : Session D) : Reply D :=
  match σ with
  | .mounted _ _ _ => σ.say EINVAL (ascii "FAT32S: A filesystem is already mounted.\n")
  | .idle =>
    if m.copyOk = false then σ.say EINVAL (ascii "FAT32S: Memcpy failed.\n")
    else
      match volumes m.text with
      | none => σ.say EINVAL (ascii "FAT32S: Can't open the device file.\n")
      | some fs => ⟨OK, fs.banner, .mounted m.text fs fs.root⟩

def unmount (closeOk : Bool) (m : Message) (σ : Session D) : Reply D :=
  match σ with
  | .idle => σ.say EINVAL (ascii "FAT32S: Nothing is mounted.\n")
  | .mounted label _ _ =>
    if m.copyOk = false then σ.say EINVAL (ascii "FAT32S: Memcpy failed.\n")
    else if label ≠ m.text then
      σ.say EINVAL (ascii "FAT32S: The device with this label not mounted.\n")
    else if closeOk = false then σ.say EINVAL (ascii "FAT32S: Closing failed.\n")
    else ⟨OK, [], .idle⟩

def command (m : Message) (cmd : Command) (σ : Session D) : Reply D :=
  match σ with
  | .idle => σ.say EINVAL (ascii "FAT32S: Nothing is mounted.\n")
  | .mounted label fs dir =>
    if cmd.readsText = true ∧ m.copyOk = false then
      σ.say cmd.copyError (ascii "FAT32S: Memcpy failed.\n")
    else
      ⟨(cmd.verdict (fs.run dir cmd).status).1,
        (fs.run dir cmd).text ++ (cmd.verdict (fs.run dir cmd).status).2,
        .mounted label fs (fs.run dir cmd).dir⟩

def serve (volumes : Name → Option (FileSystem D)) (closeOk : Bool) (m : Message)
    (σ : Session D) : Reply D :=
  match m.command with
  | some cmd => σ.command m cmd
  | none =>
    if m.callnr - 0x1000 < 0x100 then
      σ.say EINVAL (line "FAT32S: warning, got illegal notify from: " (decimal m.source) "\n")
    else if m.callnr = FAT32S_MOUNT then σ.mount volumes m
    else if m.callnr = FAT32S_UNMOUNT then σ.unmount closeOk m
    else σ.say EINVAL (line "FAT32S: warning, got illegal request from " (decimal m.source) "\n")

end Session

theorem Command.shown_verdict (cmd : Command) (status : Int) :
    shown (cmd.verdict status).2 = (cmd.verdict status).2 := by
  cases cmd with
  | pwd => rfl
  | cd path =>
    simp only [verdict]
    split
    · exact shown_ascii (by decide)
    · split
      · exact shown_ascii (by decide)
      · rfl
  | _ =>
    simp only [verdict]
    split
    · exact shown_ascii (by decide)
    · rfl

/-! ### Requests for sound volumes -/

/-- A volume that can be mounted, and the tree of its directories and files. -/
structure Disk where
  vol : Volume
  tree : vol.OrderlyTree
  bootable : vol.Bootable

/-- A request, the disks that can be opened when it comes, and whether `close` works. -/
structure Request where
  msg : Message
  disks : Name → Option Disk
  closeOk : Bool

namespace Request

variable (q : Request)

def env : Env := ⟨fun label => (q.disks label).map (·.vol.dev), q.closeOk⟩

def volumes (label : Name) : Option (FileSystem UInt32) :=
  (q.disks label).map (·.tree.fileSystem)

/-- The length of the text is not negative, the label of a mount fits `device_label`, and
    there is a path to cat. -/
structure Legal : Prop where
  len : 0 ≤ q.msg.txtLen.toInt
  label : q.msg.callnr = FAT32S_MOUNT → q.msg.text.length < MAX_DEVICE_LABEL
  path : ∀ path, q.msg.command = some (.cat path) → cstr path ≠ []

end Request

/-! ### The states of the server that stand for a session -/

inductive Represents : Session UInt32 → Server → Prop
  | idle {s : Server} (hfd : s.deviceFd = none) (hcurr : s.fsData.currSector = 0) :
      Represents .idle s
  | mounted {s : Server} {v : Volume} {label : Name} {c : UInt32} (t : v.OrderlyTree)
      (hc : t.isDir c) (hs : s.Cwd v c) (hstack : s.stack = []) (hlabel : s.deviceLabel = label) :
      Represents (.mounted label t.fileSystem c) s

variable {s s' : Server} {σ : Session UInt32} {m : Message} {env : Env}

theorem Represents.say (h : Represents σ s) (text : List UInt8) : Represents σ (s.say text) := by
  cases h with
  | idle hfd hcurr => exact .idle hfd hcurr
  | mounted t hc hs hstack hlabel => exact .mounted t hc hs hstack hlabel

/-- The server replies as the session does, prints its text, and stands for the session
    that follows. -/
def Follows (p : ServerM Int) (s : Server) (reply : Reply UInt32) : Prop :=
  ∃ s', Returns p s reply.code s' ∧ s'.out = s.out ++ reply.text ∧ Represents reply.session s'

theorem Represents.follows_say {p : ServerM Int} {code : Int} {text : List UInt8}
    (h : Represents σ s) (htext : shown text = text) (hp : Returns p s code (s.say text)) :
    Follows p s (σ.say code text) :=
  ⟨s.say text, hp, congrArg (s.out ++ ·) htext, h.say text⟩

/-! ### Mount and unmount -/

theorem follows_doMount {q : Request} (hq : q.Legal) (hmount : q.msg.callnr = FAT32S_MOUNT)
    (h : Represents σ s) : Follows (doMount q.env q.msg) s (σ.mount q.volumes q.msg) := by
  cases h with
  | mounted t hc hs hstack hlabel =>
    apply Represents.follows_say (.mounted t hc hs hstack hlabel) (shown_ascii (by decide))
    apply returns_doMount.mpr
    apply MountOutcome.already
    rw [hs.on.dev]
    rfl
  | idle hfd hcurr =>
    simp only [Session.mount]
    by_cases hcopy : q.msg.copyOk = false
    · rw [if_pos hcopy]
      apply Represents.follows_say (.idle hfd hcurr) (shown_ascii (by decide))
      exact returns_doMount.mpr (.notCopied hfd hq.len hcopy)
    rw [if_neg hcopy]
    have hcopy : q.msg.copyOk = true := by simpa using hcopy
    have hlabel := hq.label hmount
    cases hdisk : q.disks q.msg.text with
    | none =>
      have hopen : q.env.openDevice q.msg.text = none := by simp [Request.env, hdisk]
      have hvol : q.volumes q.msg.text = none := by simp [Request.volumes, hdisk]
      rw [hvol]
      refine ⟨_, returns_doMount.mpr (.notOpened hfd hq.len hcopy hlabel hopen), ?_, ?_⟩
      · exact congrArg (s.out ++ ·) (shown_ascii (by decide))
      · exact .idle rfl hcurr
    | some k =>
      have hopen : q.env.openDevice q.msg.text = some k.vol.dev := by simp [Request.env, hdisk]
      have hvol : q.volumes q.msg.text = some k.tree.fileSystem := by
        simp [Request.volumes, hdisk]
      rw [hvol]
      obtain ⟨s', hret⟩ := k.bootable.returns_doMount hfd hq.len hcopy hlabel hopen
      have hroot := k.tree.isData k.tree.root
      obtain ⟨hcwd, hstack⟩ := k.bootable.cwd_root hroot hcurr hopen hret
      refine ⟨s', hret, ?_, ?_⟩
      · cases returns_doMount.mp hret with
        | mounted _ _ _ _ hopen' =>
          obtain rfl := Option.some.inj (hopen.symm.trans hopen')
          rfl
      · refine .mounted k.tree k.tree.root hcwd hstack ?_
        cases returns_doMount.mp hret with
        | mounted => rfl

theorem returns_doUnmount_not_copied (hfd : s.deviceFd ≠ none) (hlen : 0 ≤ m.txtLen.toInt)
    (hcopy : m.copyOk = false) :
    Returns (doUnmount env m) s EINVAL (s.say (ascii "FAT32S: Memcpy failed.\n")) := by
  have hopen : ¬ s.deviceFd.isNone = true := by simpa using hfd
  unfold doUnmount
  rw [returns_globals_bind, if_neg hopen, returns_getTxt_bind, hcopy, if_neg Bool.false_ne_true]
  dsimp only
  rw [free_server_bind, returns_refuse]
  exact ⟨hlen, rfl, rfl⟩

theorem returns_doUnmount_copied {r : Int} (hfd : s.deviceFd ≠ none) (hlen : 0 ≤ m.txtLen.toInt)
    (hcopy : m.copyOk = true) :
    Returns (doUnmount env m) s r s' ↔ Returns (
      if s.deviceLabel ≠ m.text then
        refuse "FAT32S: The device with this label not mounted.\n" EINVAL
      else if env.closeOk = false then
        refuse "FAT32S: Closing failed.\n" EINVAL
      else do
        Prog.modify Server.reset
        return OK) s r s' := by
  have hopen : ¬ s.deviceFd.isNone = true := by simpa using hfd
  unfold doUnmount
  rw [returns_globals_bind, if_neg hopen, returns_getTxt_bind, hcopy, if_pos rfl]
  dsimp only
  simp only [free_server_bind, reset_server]
  exact and_iff_right hlen

theorem follows_doUnmount {q : Request} (hq : q.Legal) (h : Represents σ s) :
    Follows (doUnmount q.env q.msg) s (σ.unmount q.closeOk q.msg) := by
  cases h with
  | idle hfd hcurr =>
    apply Represents.follows_say (.idle hfd hcurr) (shown_ascii (by decide))
    unfold doUnmount
    rw [returns_globals_bind, if_pos (by rw [hfd]; rfl)]
    exact returns_refuse.mpr ⟨rfl, rfl⟩
  | @mounted _ v label c t hc hs hstack hlabel =>
    have hfd : s.deviceFd ≠ none := by
      rw [hs.on.dev]
      simp
    have hrep : Represents (.mounted label t.fileSystem c) s := .mounted t hc hs hstack hlabel
    simp only [Session.unmount]
    cases hcopy : q.msg.copyOk with
    | false =>
      rw [if_pos rfl]
      exact hrep.follows_say (shown_ascii (by decide))
        (returns_doUnmount_not_copied hfd hq.len hcopy)
    | true =>
      rw [if_neg (by simp)]
      by_cases hother : label ≠ q.msg.text
      · rw [if_pos hother]
        apply hrep.follows_say (shown_ascii (by decide))
        rw [returns_doUnmount_copied hfd hq.len hcopy, hlabel, if_pos hother]
        exact returns_refuse.mpr ⟨rfl, rfl⟩
      rw [if_neg hother]
      cases hclose : q.closeOk with
      | false =>
        have henv : q.env.closeOk = false := hclose
        rw [if_pos rfl]
        apply hrep.follows_say (shown_ascii (by decide))
        rw [returns_doUnmount_copied hfd hq.len hcopy, hlabel, if_neg hother, if_pos henv]
        exact returns_refuse.mpr ⟨rfl, rfl⟩
      | true =>
        have henv : ¬ q.env.closeOk = false := by simp [Request.env, hclose]
        rw [if_neg (by simp)]
        refine ⟨s.reset, ?_, ?_, .idle rfl rfl⟩
        · rw [returns_doUnmount_copied hfd hq.len hcopy, hlabel, if_neg hother, if_neg henv]
          exact returns_modify_bind.mpr (returns_pure.mpr ⟨rfl, rfl⟩)
        · exact (List.append_nil _).symm

/-! ### Commands -/

theorem handle_pwd : Command.pwd.handle m = doPwd := rfl

/-- The handlers of the other commands differ in the command, the error and the report. -/
theorem handle_eq_handled {cmd : Command} (hcmd : m.command = some cmd) (hpwd : cmd ≠ .pwd) :
    ∃ (command : Name → ServerM Int) (tail : Int → ServerM Int),
      cmd.handle m = handled command cmd.copyError tail m ∧ cmd.run = command m.text ∧
      ∀ {status : Int} {s : Server}, Returns (tail status) s (cmd.verdict status).1
        (s.say (cmd.verdict status).2) := by
  have htail : ∀ {complaint : String} {status : Int} {s : Server},
      Returns (if status ≠ 0 then refuse complaint status else pure status : ServerM Int) s status
        (s.say (if status ≠ 0 then ascii complaint else [])) := by
    intro complaint status s
    split
    · exact returns_refuse.mpr ⟨rfl, rfl⟩
    · rw [Server.say_nil]
      exact returns_pure.mpr ⟨rfl, rfl⟩
  rcases command_text hcmd with rfl | rfl | rfl | rfl | rfl
  · exact (hpwd rfl).elim
  · refine ⟨cd, _, doCd_eq_handled m, rfl, ?_⟩
    intro status s
    simp only [Command.verdict]
    split
    · exact returns_refuse.mpr ⟨rfl, rfl⟩
    · split
      · exact returns_refuse.mpr ⟨rfl, rfl⟩
      · rw [Server.say_nil]
        exact returns_pure.mpr ⟨rfl, rfl⟩
  · exact ⟨ls, _, doCommand_eq_handled ls _ m, rfl, htail⟩
  · exact ⟨cat, _, doCommand_eq_handled cat _ m, rfl, htail⟩
  · exact ⟨stat, _, doCommand_eq_handled stat _ m, rfl, htail⟩

theorem returns_handle_idle {cmd : Command} (hcmd : m.command = some cmd)
    (hfd : s.deviceFd = none) :
    Returns (cmd.handle m) s EINVAL (s.say (ascii "FAT32S: Nothing is mounted.\n")) := by
  have hnone : s.deviceFd.isNone = true := by rw [hfd]; rfl
  by_cases hpwd : cmd = .pwd
  · rw [hpwd, handle_pwd, doPwd, returns_globals_bind, if_pos hnone]
    exact returns_refuse.mpr ⟨rfl, rfl⟩
  · rcases handle_eq_handled hcmd hpwd with ⟨command, tail, hshape, _, _⟩
    rw [hshape, handled, returns_get_bind, if_pos hnone]
    exact returns_refuse.mpr ⟨rfl, rfl⟩

theorem returns_handle_not_copied {cmd : Command} (hcmd : m.command = some cmd)
    (hfd : s.deviceFd ≠ none) (hlen : 0 ≤ m.txtLen.toInt) (hreads : cmd.readsText = true)
    (hcopy : m.copyOk = false) :
    Returns (cmd.handle m) s cmd.copyError (s.say (ascii "FAT32S: Memcpy failed.\n")) := by
  have hpwd : cmd ≠ .pwd := by
    rintro rfl
    cases hreads
  rcases handle_eq_handled hcmd hpwd with ⟨command, tail, hshape, _, _⟩
  rw [hshape]
  apply (returns_handled hfd).mpr
  rw [hcopy]
  exact ⟨hlen, rfl, rfl⟩

/-- A command that was run is reported. -/
theorem returns_handle_ran {cmd : Command} {status : Int} (hcmd : m.command = some cmd)
    (hfd : s.deviceFd ≠ none) (hlen : 0 ≤ m.txtLen.toInt)
    (hcopy : cmd.readsText = true → m.copyOk = true) (hrun : Returns cmd.run s status s') :
    Returns (cmd.handle m) s (cmd.verdict status).1 (s'.say (cmd.verdict status).2) := by
  by_cases hpwd : cmd = .pwd
  · subst hpwd
    rw [handle_pwd]
    change Returns doPwd s OK (s'.say [])
    rw [Server.say_nil]
    exact (returns_doPwd hfd).mpr ⟨rfl, status, hrun⟩
  · rcases handle_eq_handled hcmd hpwd with ⟨command, tail, hshape, hcommand, htail⟩
    have hreads : cmd.readsText = true := by
      cases cmd with
      | pwd => exact (hpwd rfl).elim
      | cd path => rfl
      | ls path => rfl
      | cat path => rfl
      | stat path => rfl
    rw [hshape]
    apply (returns_handled hfd).mpr
    rw [hcopy hreads]
    rw [hcommand] at hrun
    exact ⟨hlen, status, s', hrun, htail⟩

theorem follows_command {q : Request} {cmd : Command} (hq : q.Legal)
    (hcmd : q.msg.command = some cmd) (h : Represents σ s) :
    Follows (cmd.handle q.msg) s (σ.command q.msg cmd) := by
  cases h with
  | idle hfd hcurr =>
    exact Represents.follows_say (.idle hfd hcurr) (shown_ascii (by decide))
      (returns_handle_idle hcmd hfd)
  | @mounted _ v label c t hc hs hstack hlabel =>
    have hfd : s.deviceFd ≠ none := by
      rw [hs.on.dev]
      simp
    simp only [Session.command]
    by_cases hfail : cmd.readsText = true ∧ q.msg.copyOk = false
    · rw [if_pos hfail]
      apply Represents.follows_say (.mounted t hc hs hstack hlabel) (shown_ascii (by decide))
      exact returns_handle_not_copied hcmd hfd hq.len hfail.1 hfail.2
    · rw [if_neg hfail]
      have hcat : ∀ path, cmd = .cat path → cstr path ≠ [] := by
        intro path hpath
        exact hq.path path (by rw [hcmd, hpath])
      rcases t.gives_run hc hs hcat with ⟨s', hrun, hcwd, hstack', hout⟩
      have hcopy : cmd.readsText = true → q.msg.copyOk = true := by
        intro hreads
        simpa using fun hcopy => hfail ⟨hreads, hcopy⟩
      refine ⟨_, returns_handle_ran hcmd hfd hq.len hcopy hrun, ?_, ?_⟩
      · rw [Server.say, hout, Command.shown_verdict, List.append_assoc]
      · apply Represents.say
        refine .mounted t (t.run_isDir hc cmd) hcwd (hstack'.trans hstack) ?_
        rw [(command_sameMount hrun).deviceLabel, hlabel]

/-! ### Whole runs -/

theorem serve_eq_of_not_command (hcmd : m.command = none) :
    (serve env m : ServerM Int) =
      if m.callnr - 0x1000 < 0x100 then do
        printf (line "FAT32S: warning, got illegal notify from: " (decimal m.source) "\n")
        return EINVAL
      else if m.callnr = FAT32S_MOUNT then doMount env m
      else if m.callnr = FAT32S_UNMOUNT then doUnmount env m
      else do
        printf (line "FAT32S: warning, got illegal request from " (decimal m.source) "\n")
        return EINVAL := by
  have hnr : m.callnr ≠ FAT32S_PWD ∧ m.callnr ≠ FAT32S_CD ∧ m.callnr ≠ FAT32S_LS ∧
      m.callnr ≠ FAT32S_CAT ∧ m.callnr ≠ FAT32S_STAT := by
    unfold Message.command at hcmd
    grind
  obtain ⟨hpwd, hcd, hls, hcat, hstat⟩ := hnr
  unfold serve
  rw [if_neg hpwd, if_neg hcd, if_neg hls, if_neg hcat, if_neg hstat]

/-- **One request.**  The server answers as the session does. -/
theorem follows_serve {q : Request} (hq : q.Legal) (h : Represents σ s) :
    Follows (serve q.env q.msg) s (σ.serve q.volumes q.closeOk q.msg) := by
  unfold Session.serve
  cases hcmd : q.msg.command with
  | some cmd =>
    rw [serve_eq_handle hcmd]
    exact follows_command hq hcmd h
  | none =>
    have hwarn : ∀ {label : String}, Plain label = true →
        Follows (do printf (line label (decimal q.msg.source) "\n"); return EINVAL) s
          (σ.say EINVAL (line label (decimal q.msg.source) "\n")) := by
      intro label hlabel
      apply h.follows_say
      · rw [shown_line hlabel (by decide), shown_decimal]
      · rw [returns_printf_bind]
        exact returns_pure.mpr ⟨rfl, rfl⟩
    rw [serve_eq_of_not_command hcmd]
    simp only
    split
    · exact hwarn (by decide)
    split
    · rename_i hmount
      exact follows_doMount hq hmount h
    split
    · exact follows_doUnmount hq h
    · exact hwarn (by decide)

/-- What a request comes to: the code of the reply, and the text printed meanwhile. -/
structure Heard where
  code : Int
  text : List UInt8

/-- The specification: a session that goes from request to request. -/
def Session.step (σ : Session UInt32) (q : Request) : Heard × Session UInt32 :=
  (⟨(σ.serve q.volumes q.closeOk q.msg).code, (σ.serve q.volumes q.closeOk q.msg).text⟩,
    (σ.serve q.volumes q.closeOk q.msg).session)

/-- The server, as a service. -/
def Server.step (s : Server) (q : Request) (a : Heard) (s' : Server) : Prop :=
  Returns (serve q.env q.msg) s a.code s' ∧ s'.out = s.out ++ a.text

/-- What was heard can be told from the code and the console. -/
theorem Heard.eq_of_out {a b : Heard} {out out' : List UInt8} (hcode : a.code = b.code)
    (ha : out' = out ++ a.text) (hb : out' = out ++ b.text) : a = b := by
  have htext : a.text = b.text := List.append_cancel_left (ha.symm.trans hb)
  cases a
  cases b
  rw [Heard.mk.injEq]
  exact ⟨hcode, htext⟩

theorem refines_step : Refines Server.step Session.step Request.Legal Represents := by
  apply Refines.of_det
  · intro s s₁ s₂ q a b h₁ h₂
    obtain ⟨hcode, rfl⟩ := h₁.1.unique h₂.1
    exact ⟨Heard.eq_of_out hcode h₁.2 h₂.2, rfl⟩
  · intro σ s q h hq
    rcases follows_serve hq h with ⟨s', hret, hout, hrep⟩
    exact ⟨s', ⟨hret, hout⟩, hrep⟩

theorem represents_initial (junk : Nat → Name) : Represents .idle (Server.initial junk) :=
  .idle rfl rfl

/-- **The server refines a file system with a session.**  Any sequence of legal requests
    to a fresh server is answered; and however it is answered, the replies and the texts
    are those of the abstract machine, and the state stands for its session. -/
theorem server_refines_file_systems (junk : Nat → Name) (qs : List Request)
    (hlegal : ∀ q ∈ qs, q.Legal) :
    (∃ h s', h.map (·.1) = qs ∧ Serves Server.step (Server.initial junk) h s') ∧
    ∀ h s', h.map (·.1) = qs → Serves Server.step (Server.initial junk) h s' →
      ∃ σ, Serves (Computes Session.step) .idle h σ ∧ Represents σ s' := by
  constructor
  · rcases refines_step.serves qs (represents_initial junk) hlegal with ⟨h, s', _, hqs, hrun, _⟩
    exact ⟨h, s', hqs, hrun⟩
  · intro h s' hqs hrun
    have hlegal' : ∀ x ∈ h, x.1.Legal := by
      intro x hx
      apply hlegal
      rw [← hqs]
      exact List.mem_map_of_mem hx
    exact refines_step.history (represents_initial junk) hlegal' hrun

namespace Sample

/-- The sample volume, under any label. -/
def disk : Disk := ⟨volume, orderlyTree, bootable⟩

def request (m : Message) : Request := ⟨m, fun _ => some disk, true⟩

theorem legal_mount : (request mountMessage).Legal where
  len := by decide
  label _ := by decide
  path path h := by cases h

theorem legal_ls : (request (textMessage FAT32S_LS (ascii "DIR"))).Legal where
  len := by decide
  label h := by cases h
  path path h := by cases h

theorem legal_cat : (request (textMessage FAT32S_CAT (ascii "DIR/B.TXT"))).Legal where
  len := by decide
  label h := by cases h
  path path h := by
    obtain rfl : ascii "DIR/B.TXT" = path := by
      have hcmd : some (Command.cat (ascii "DIR/B.TXT")) = some (Command.cat path) := h
      injection hcmd with hcmd
      injection hcmd
    decide

theorem legal_mount_cat : ∀ q ∈ [request mountMessage,
    request (textMessage FAT32S_CAT (ascii "DIR/B.TXT"))], q.Legal := by
  intro q hq
  rcases List.mem_cons.mp hq with rfl | hq
  · exact legal_mount
  · rw [List.mem_singleton.mp hq]
    exact legal_cat

end Sample

theorem server_refines_sample : ∃ h s' σ,
    h.map (·.1) = [Sample.request mountMessage,
      Sample.request (textMessage FAT32S_CAT (ascii "DIR/B.TXT"))] ∧
    Serves Server.step (Server.initial fun _ => []) h s' ∧
    Serves (Computes Session.step) .idle h σ ∧ Represents σ s' := by
  have hall := server_refines_file_systems (fun _ => []) _ Sample.legal_mount_cat
  rcases hall.1 with ⟨h, s', hqs, hrun⟩
  rcases hall.2 h s' hqs hrun with ⟨σ, hspec, hrep⟩
  exact ⟨h, s', σ, hqs, hrun, hspec, hrep⟩

/-! ### Requests that only read -/

/-- A command other than cd. -/
def Request.Reads (q : Request) : Prop :=
  ∃ cmd, q.msg.command = some cmd ∧ ∀ path, cmd ≠ .cd path

theorem Session.step_of_reads {q : Request} (h : q.Reads) (σ : Session UInt32) :
    (σ.step q).2 = σ := by
  rcases h with ⟨cmd, hcmd, hne⟩
  simp only [Session.step, Session.serve, hcmd]
  cases σ with
  | idle => rfl
  | mounted label fs dir =>
    simp only [Session.command]
    split
    · rfl
    · rw [fs.run_dir_of_ne_cd hne]

/-- **Readers do not disturb each other.**  Requests that only read, taken in any two
    orders, are answered alike one by one, with the same codes and texts, and leave the
    server in the same session. -/
theorem readers_commute {h h' : List (Request × Heard)} {s₁ s₂ : Server} (hs : Represents σ s)
    (hlegal : ∀ x ∈ h, x.1.Legal ∧ x.1.Reads) (horder : (h.map (·.1)).Perm (h'.map (·.1)))
    (hrun : Serves Server.step s h s₁) (hrun' : Serves Server.step s h' s₂) :
    h.Perm h' ∧ Represents σ s₁ ∧ Represents σ s₂ := by
  have hlegal' : ∀ x ∈ h', x.1.Legal ∧ x.1.Reads := by
    intro x hx
    have hmem : x.1 ∈ h.map (·.1) := horder.symm.subset (List.mem_map_of_mem hx)
    rcases List.mem_map.mp hmem with ⟨y, hy, hxy⟩
    rw [← hxy]
    exact hlegal y hy
  rcases refines_step.history hs (fun x hx => (hlegal x hx).1) hrun with ⟨σ₁, hspec, hs₁⟩
  rcases refines_step.history hs (fun x hx => (hlegal' x hx).1) hrun' with ⟨σ₂, hspec', hs₂⟩
  rcases hspec.of_fixed fun x hx => σ.step_of_reads (hlegal x hx).2 with ⟨rfl, hanswers⟩
  rcases hspec'.of_fixed fun x hx => σ₁.step_of_reads (hlegal' x hx).2 with ⟨rfl, hanswers'⟩
  refine ⟨?_, hs₁, hs₂⟩
  rw [hanswers, hanswers']
  exact horder.map _

theorem readers_commute_on_sample : ∃ σ s h h' s₁ s₂,
    h.map (·.1) = [Sample.request (textMessage FAT32S_LS (ascii "DIR")),
      Sample.request (textMessage FAT32S_CAT (ascii "DIR/B.TXT"))] ∧
    h'.map (·.1) = [Sample.request (textMessage FAT32S_CAT (ascii "DIR/B.TXT")),
      Sample.request (textMessage FAT32S_LS (ascii "DIR"))] ∧
    Serves Server.step s h s₁ ∧ Serves Server.step s h' s₂ ∧
    h.Perm h' ∧ Represents σ s₁ ∧ Represents σ s₂ := by
  have hlegal : ∀ q ∈ [Sample.request (textMessage FAT32S_LS (ascii "DIR")),
      Sample.request (textMessage FAT32S_CAT (ascii "DIR/B.TXT"))], q.Legal ∧ q.Reads := by
    intro q hq
    rcases List.mem_cons.mp hq with rfl | hq
    · exact ⟨Sample.legal_ls, .ls (ascii "DIR"), rfl, fun _ h => by cases h⟩
    · rw [List.mem_singleton.mp hq]
      exact ⟨Sample.legal_cat, .cat (ascii "DIR/B.TXT"), rfl, fun _ h => by cases h⟩
  rcases Sample.mounted fun _ => [] with ⟨s, _, hcwd, hstack⟩
  have hs : Represents (.mounted s.deviceLabel Sample.orderlyTree.fileSystem 2) s :=
    .mounted Sample.orderlyTree (.inl rfl) hcwd hstack rfl
  have horder := List.Perm.swap (Sample.request (textMessage FAT32S_CAT (ascii "DIR/B.TXT")))
    (Sample.request (textMessage FAT32S_LS (ascii "DIR"))) []
  rcases refines_step.serves _ hs fun q hq => (hlegal q hq).1 with ⟨h, s₁, _, hqs, hrun, _⟩
  rcases refines_step.serves _ hs fun q hq => (hlegal q (horder.symm.subset hq)).1 with
    ⟨h', s₂, _, hqs', hrun', _⟩
  refine ⟨_, s, h, h', s₁, s₂, hqs, hqs', hrun, hrun', readers_commute hs ?_ ?_ hrun hrun'⟩
  · intro x hx
    apply hlegal
    rw [← hqs]
    exact List.mem_map_of_mem hx
  · rw [hqs, hqs']
    exact horder

end Fat32s
