/-
  Fat32s/Recovery.lean
  ====================
  **Errors and the way back from them.**

  On any disk, sound or not.  Whatever a request comes to, the server replies with
  one of six numbers, and where it is an error the session has not changed: the
  device, its geometry, the current directory and the rollback stack are what they
  were.  The one request of which that is not so is a mount, which leaves a device
  open that it could not use.  Even then, and after anything else that a run of the
  server can come to, the session can be given up: an unmount with the label of the
  open device brings the server back to its start, and from there on it serves sound
  volumes as if nothing had happened.
-/
import Mathlib.Data.List.TakeWhile
import Fat32s.FailedMount
import Fat32s.Sessions

namespace Fat32s

open Fat32s.Lib Fat32s.Lib.Prog

variable {s s' : Server} {env : Env} {m : Message} {r : Int}

/-! ### The status of a command -/

/-- What cd, ls, cat and stat return: done, not found, found but not of the right kind. -/
def Status (r : Int) : Prop := r = 0 ∨ r = 1 ∨ r = 2

theorem status_visits (banFiles banDirs : Bool) (segs : List (Name × Bool)) :
    Yields Status (visits banFiles banDirs segs) := by
  induction segs with
  | nil => exact yields_after fun _ => yields_pure (.inl rfl)
  | cons seg segs ih =>
    constructor
    intro s s' r h
    obtain ⟨o, s₁, hvisit, h⟩ := returns_bind.mp h
    cases visit_cases hvisit with
    | missing => exact .inr (.inl (returns_pure.mp h).1)
    | barred => exact .inr (.inr (returns_pure.mp h).1)
    | entered => exact ih.of_returns h

theorem status_walk (path : Name) (flags : Nat) :
    Yields Status (walk path flags : ServerM Int) where
  of_returns h := (status_visits _ _ _).of_returns (returns_walk.mp h)

theorem status_cd (path : Name) : Yields Status (cd path : ServerM Int) := by
  refine yields_after fun s => yields_after fun _ => yields_bind (status_walk _ _) ?_
  intro status hstatus
  exact yields_ite (fun _ => yields_after fun _ => yields_pure hstatus)
    fun _ => yields_after fun _ => yields_pure (.inl rfl)

theorem status_ls (path : Name) : Yields Status (ls path : ServerM Int) := by
  have htail : ∀ status, Status status → Yields Status
      (if status ≠ 0 then do rollback; return status
        else do listEntries; rollback; return OK : ServerM Int) := by
    intro status hstatus
    exact yields_ite (fun _ => yields_after fun _ => yields_pure hstatus)
      fun _ => yields_after fun _ => yields_after fun _ => yields_pure (.inl rfl)
  refine yields_after fun s => yields_after fun _ => yields_ite (fun _ => ?_) fun _ => ?_
  · exact yields_bind (yields_pure (.inl rfl)) htail
  · exact yields_bind (status_cd path) htail

theorem status_cat (path : Name) : Yields Status (cat path : ServerM Int) := by
  refine yields_after fun s => yields_after fun _ => yields_bind (status_walk _ _) ?_
  intro status hstatus
  refine yields_ite (fun _ => yields_after fun _ => yields_pure hstatus) fun _ => ?_
  exact yields_after fun _ => yields_after fun _ => yields_after fun _ => yields_after fun _ =>
    yields_pure (.inl rfl)

theorem status_statEntry (lastName : Name) :
    Yields Status (statEntry lastName : ServerM Int) := by
  have hfind : Yields Status (findChild lastName : ServerM Int) := by
    constructor
    intro s s' r h
    obtain ⟨_, _, ⟨hr, _⟩ | ⟨hr, _⟩⟩ := findChild_cases h
    · exact .inl hr
    · exact .inr (.inl hr)
  refine yields_bind hfind ?_
  intro status hstatus
  refine yields_ite (fun _ => yields_after fun _ => yields_pure hstatus) fun _ => ?_
  exact yields_after fun _ => yields_after fun _ => yields_after fun _ => yields_after fun _ =>
    yields_pure (.inl rfl)

theorem status_stat (path : Name) : Yields Status (stat path : ServerM Int) := by
  refine yields_after fun s => yields_after fun _ => ?_
  split
  · exact status_statEntry path
  · refine yields_bind (status_walk _ _) ?_
    intro status hstatus
    exact yields_ite (fun _ => yields_after fun _ => yields_pure hstatus)
      fun _ => status_statEntry _

theorem status_command {cmd : Command} (hpwd : cmd ≠ .pwd) : Yields Status cmd.run := by
  cases cmd with
  | pwd => exact (hpwd rfl).elim
  | cd path => exact status_cd path
  | ls path => exact status_ls path
  | cat path => exact status_cat path
  | stat path => exact status_stat path

/-! ### Replies -/

/-- Every number that the server replies with. -/
def replies : List Int := [OK, EINVAL, ENOENT, EFAULT, 1, 2]

theorem verdict_mem_replies {cmd : Command} {status : Int} (h : cmd ≠ .pwd → Status status) :
    (cmd.verdict status).1 ∈ replies := by
  cases cmd with
  | pwd => simp [Command.verdict, replies]
  | cd path => rcases h (by simp) with rfl | rfl | rfl <;> simp [Command.verdict, replies]
  | ls path => rcases h (by simp) with rfl | rfl | rfl <;> simp [Command.verdict, replies, OK]
  | cat path => rcases h (by simp) with rfl | rfl | rfl <;> simp [Command.verdict, replies, OK]
  | stat path => rcases h (by simp) with rfl | rfl | rfl <;> simp [Command.verdict, replies, OK]

theorem copyError_cases (cmd : Command) : cmd.copyError = EFAULT ∨ cmd.copyError = EINVAL := by
  cases cmd <;> simp [Command.copyError]

/-- What a request can come to, with the reply. -/
inductive RequestOutcome (env : Env) (m : Message) (s : Server) : Int → Server → Prop
  | refused {r : Int} (text : List UInt8) (hr : r ∈ replies) (hne : r ≠ OK) :
      RequestOutcome env m s r (s.say text)
  | mount {r : Int} {s' : Server} (hcall : m.callnr = FAT32S_MOUNT)
      (h : MountOutcome env m s r s') : RequestOutcome env m s r s'
  | unmounted : RequestOutcome env m s OK s.reset
  | ran {cmd : Command} {status : Int} {s₁ : Server} (hcmd : m.command = some cmd)
      (hrun : Returns cmd.run s status s₁) :
      RequestOutcome env m s (cmd.verdict status).1 (s₁.say (cmd.verdict status).2)

theorem outcome_refuse {text : String} {r₁ : Int} (h : Returns (refuse text r₁) s r s')
    (hr : r₁ ∈ replies) (hne : r₁ ≠ OK) : RequestOutcome env m s r s' := by
  obtain ⟨rfl, rfl⟩ := returns_refuse.mp h
  exact .refused _ hr hne

theorem outcome_doUnmount (h : Returns (doUnmount env m) s r s') : RequestOutcome env m s r s' := by
  have hrefuse : ∀ {text : String}, Returns (refuse text EINVAL) s r s' →
      RequestOutcome env m s r s' := fun h => outcome_refuse h (by decide) (by decide)
  unfold doUnmount at h
  rw [returns_globals_bind] at h
  split at h
  · exact hrefuse h
  rw [returns_getTxt_bind] at h
  obtain ⟨_, h⟩ := h
  cases hcopy : m.copyOk with
  | false =>
    rw [hcopy, if_neg Bool.false_ne_true] at h
    dsimp only at h
    rw [free_server_bind] at h
    exact hrefuse h
  | true =>
    rw [hcopy, if_pos rfl] at h
    simp only [free_server_bind, reset_server] at h
    split at h
    · exact hrefuse h
    split at h
    · exact hrefuse h
    rw [returns_modify_bind] at h
    obtain ⟨rfl, rfl⟩ := returns_pure.mp h
    exact .unmounted

theorem outcome_command {cmd : Command} (hcmd : m.command = some cmd)
    (h : Returns (cmd.handle m) s r s') : RequestOutcome env m s r s' := by
  by_cases hfd : s.deviceFd = none
  · obtain ⟨rfl, rfl⟩ := h.unique (returns_handle_idle hcmd hfd)
    exact .refused _ (by decide) (by decide)
  by_cases hpwd : cmd = .pwd
  · subst hpwd
    rw [handle_pwd] at h
    obtain ⟨rfl, status, hrun⟩ := (returns_doPwd hfd).mp h
    have hran : RequestOutcome env m s OK (s'.say []) := .ran hcmd hrun
    rwa [Server.say_nil] at hran
  rcases handle_eq_handled hcmd hpwd with ⟨command, tail, hshape, hcommand, htail⟩
  rw [hshape] at h
  obtain ⟨_, hend⟩ := (returns_handled hfd).mp h
  split at hend
  · obtain ⟨status, s₁, hrun, hret⟩ := hend
    obtain ⟨rfl, rfl⟩ := hret.unique htail
    rw [← hcommand] at hrun
    exact .ran hcmd hrun
  · obtain ⟨rfl, rfl⟩ := hend
    rcases copyError_cases cmd with herror | herror <;> rw [herror]
    · exact .refused _ (by decide) (by decide)
    · exact .refused _ (by decide) (by decide)

/-- **Every way in which a request can end**, on any disk. -/
theorem outcome_of_serve (h : Returns (serve env m) s r s') : RequestOutcome env m s r s' := by
  cases hcmd : m.command with
  | some cmd =>
    rw [serve_eq_handle hcmd] at h
    exact outcome_command hcmd h
  | none =>
    have hsay : ∀ {text}, Returns (do printf text; return EINVAL : ServerM Int) s r s' →
        RequestOutcome env m s r s' := by
      intro text h
      rw [returns_printf_bind] at h
      obtain ⟨rfl, rfl⟩ := returns_pure.mp h
      exact .refused text (by decide) (by decide)
    rw [serve_eq_of_not_command hcmd] at h
    split at h
    · exact hsay h
    split at h
    · rename_i hcall
      exact .mount hcall (returns_doMount.mp h)
    split at h
    · exact outcome_doUnmount h
    · exact hsay h

theorem RequestOutcome.reply (h : RequestOutcome env m s r s') : r ∈ replies := by
  cases h with
  | refused text hr _ => exact hr
  | mount _ h => cases h <;> decide
  | unmounted => decide
  | ran _ hrun => exact verdict_mem_replies fun hpwd => (status_command hpwd).of_returns hrun

/-! ### Errors -/

/-- What the user sees of a session: the current directory, the mount, and that the
    rollback stack is as it was. -/
structure Server.Unmoved (s s' : Server) : Prop where
  sector : s'.dirBuff.sector = s.dirBuff.sector
  offset : s'.dirBuff.offset = s.dirBuff.offset
  stack : s'.stack = s.stack
  mount : s.SameMount s'

theorem Server.unmoved_say (s : Server) (text : List UInt8) : s.Unmoved (s.say text) :=
  ⟨rfl, rfl, rfl, ⟨rfl, rfl, rfl, rfl, rfl, rfl, rfl⟩⟩

theorem Server.Unmoved.say (h : s.Unmoved s') (text : List UInt8) : s.Unmoved (s'.say text) :=
  ⟨h.sector, h.offset, h.stack, ⟨h.mount.1, h.mount.2, h.mount.3, h.mount.4, h.mount.5, h.mount.6,
    h.mount.7⟩⟩

/-- A command that is reported as an error has gone back to where it started. -/
theorem unmoved_of_verdict {cmd : Command} {status : Int} (hoff : s.dirBuff.offset = 0)
    (hrun : Returns cmd.run s status s') (hr : (cmd.verdict status).1 ≠ OK) : s.Unmoved s' := by
  have hback : s'.Back s.dirBuff.sector s.stack := by
    cases cmd with
    | pwd => exact (hr rfl).elim
    | cd path =>
      have hwalked := cd_cases hrun
      refine ⟨hwalked.failed ?_, hwalked.stack⟩
      rintro rfl
      exact hr rfl
    | ls path => exact ls_cases hrun
    | cat path => exact cat_cases hrun
    | stat path => exact stat_cases hrun
  have hat := hback.cursor.atSector
  exact ⟨hat.sector, hat.offset.trans hoff.symm, hback.stack, command_sameMount hrun⟩

/-- **Errors leave the session alone.**  On any disk, with the cursor at the beginning of a
    sector: the server replies with one of six numbers; and if that is an error, the
    current directory, the stack and the mount are what they were.  Of a mount this is
    said only where a file system is mounted already. -/
theorem error_reply_keeps_session (hoff : s.dirBuff.offset = 0)
    (h : Returns (serve env m) s r s') :
    r ∈ replies ∧
      (r ≠ OK → (m.callnr = FAT32S_MOUNT → s.deviceFd ≠ none) → s.Unmoved s') := by
  have hout := outcome_of_serve h
  refine ⟨hout.reply, fun hr hfd => ?_⟩
  cases hout with
  | refused text _ _ => exact s.unmoved_say text
  | unmounted => exact (hr rfl).elim
  | ran _ hrun => exact (unmoved_of_verdict hoff hrun hr).say _
  | mount hcall hmount =>
    have hopen := hfd hcall
    cases hmount with
    | already _ => exact s.unmoved_say _
    | notCopied hnone _ _ => exact (hopen hnone).elim
    | notOpened hnone _ _ _ _ => exact (hopen hnone).elim
    | noBootSector hnone _ _ _ _ _ => exact (hopen hnone).elim
    | notSigned hnone _ _ _ _ _ _ => exact (hopen hnone).elim
    | mounted hnone _ _ _ _ _ _ _ _ => exact (hopen hnone).elim

/-- On the sample volume: a cd to a directory that is not there. -/
theorem error_reply_on_sample :
    ∃ s r s', Returns (doMount (diskEnv Sample.volume.dev) mountMessage)
        (Server.initial fun _ => []) OK s ∧
      Returns (serve (diskEnv Sample.volume.dev) (textMessage FAT32S_CD (ascii "NONE"))) s r s' ∧
      r = ENOENT ∧ r ∈ replies ∧ s.Unmoved s' := by
  obtain ⟨s, hmount, _⟩ := Sample.mounted fun _ => []
  obtain ⟨r, s', hcd, htest⟩ := Sample.returns_mounted
    (serve (diskEnv Sample.volume.dev) (textMessage FAT32S_CD (ascii "NONE"))) 10
    (fun _ r _ => r = ENOENT) (by decide +kernel) hmount
  have hr : r = ENOENT := of_decide_eq_true htest
  have hreply := error_reply_keeps_session (settled_of_doMount hmount).cursor.offset hcd
  refine ⟨s, r, s', hmount, hcd, hr, hreply.1, hreply.2 ?_ ?_⟩
  · rw [hr]
    decide
  · intro h
    cases h

/-! ### The way back -/

/-- A text that a client can hand over as it is. -/
theorem textMessage_len (callnr : UInt32) {text : Name} (hlen : text.length < 2 ^ 31) :
    (textMessage callnr text).txtLen.toInt = text.length :=
  Int32.toInt_ofNat_of_lt hlen

theorem textMessage_text (callnr : UInt32) {text : Name} (hlen : text.length < 2 ^ 31)
    (hzero : ∀ ch ∈ text, ch ≠ 0) : (textMessage callnr text).text = text := by
  have hbytes : (List.range text.length).map (textMessage callnr text).txt = text := by
    apply List.ext_getElem
    · simp
    · intro i hi _
      have hi : i < text.length := by simpa using hi
      simp [textMessage, hi]
  rw [Message.text, textMessage_len callnr hlen, Int.toNat_natCast, hbytes, cstr_eq_self hzero]

theorem Message.text_zero (m : Message) : ∀ ch ∈ m.text, ch ≠ 0 := by
  intro ch hch
  simpa using List.mem_takeWhile_imp hch

/-- The label of the server is a string that fits `device_label`. -/
structure Server.Labelled (s : Server) : Prop where
  fits : s.deviceLabel.length < MAX_DEVICE_LABEL
  zero : ∀ ch ∈ s.deviceLabel, ch ≠ 0

theorem Server.Labelled.of_eq (h : s.Labelled) (heq : s'.deviceLabel = s.deviceLabel) :
    s'.Labelled := by
  constructor
  · rw [heq]
    exact h.fits
  · rw [heq]
    exact h.zero

theorem Reachable.labelled (hs : Reachable s) : s.Labelled := by
  have hempty : ∀ {s : Server}, s.deviceLabel = [] → s.Labelled := by
    intro s h
    constructor <;> rw [h] <;> simp [MAX_DEVICE_LABEL]
  have htext : ∀ {s : Server} {m : Message}, s.deviceLabel = m.text →
      m.text.length < MAX_DEVICE_LABEL → s.Labelled := by
    intro s m h hlen
    constructor
    · rw [h]
      exact hlen
    · rw [h]
      exact m.text_zero
  induction hs with
  | init junk => exact hempty rfl
  | serve hs h ih =>
    cases serve_cases h with
    | said text => exact ih.of_eq rfl
    | unmounted => exact hempty rfl
    | command _ hanswer =>
      cases hanswer with
      | refused text => exact ih.of_eq rfl
      | ran text _ hrun => exact ih.of_eq (command_sameMount hrun).deviceLabel
    | mount h =>
      cases h with
      | already _ => exact ih.of_eq rfl
      | notCopied _ _ _ => exact ih.of_eq rfl
      | notOpened _ _ _ hlabel _ => exact htext rfl hlabel
      | noBootSector _ _ _ hlabel _ _ => exact htext rfl hlabel
      | notSigned _ _ _ hlabel _ _ _ => exact htext rfl hlabel
      | mounted _ _ _ hlabel _ _ _ _ _ => exact htext rfl hlabel

/-- An unmount with the label of the open device gives the session up. -/
theorem Server.Labelled.returns_unmount (h : s.Labelled) (hfd : s.deviceFd ≠ none)
    (hclose : env.closeOk = true) :
    Returns (Fat32s.serve env (textMessage FAT32S_UNMOUNT s.deviceLabel)) s OK s.reset := by
  have hlen : s.deviceLabel.length < 2 ^ 31 := h.fits.trans (by decide)
  have hserve : (Fat32s.serve env (textMessage FAT32S_UNMOUNT s.deviceLabel) : ServerM Int) =
      doUnmount env (textMessage FAT32S_UNMOUNT s.deviceLabel) := by
    have hnotify : ¬ FAT32S_UNMOUNT - 0x1000 < 0x100 := by decide
    have hother : ¬ FAT32S_UNMOUNT = FAT32S_MOUNT := by decide
    rw [serve_eq_of_not_command rfl]
    exact (if_neg hnotify).trans ((if_neg hother).trans (if_pos rfl))
  have hlen' : 0 ≤ (textMessage FAT32S_UNMOUNT s.deviceLabel).txtLen.toInt := by
    rw [textMessage_len _ hlen]
    exact Int.natCast_nonneg _
  rw [hserve, returns_doUnmount_copied hfd hlen' rfl, textMessage_text _ hlen h.zero,
    if_neg (not_not_intro rfl), if_neg (by simp [hclose]), returns_modify_bind]
  exact returns_pure.mpr ⟨rfl, rfl⟩

/-- **Recovery.**  Whatever requests a server has served, and on whatever disks, failed
    mounts and pwds that got lost among them: if a device is open, an unmount with its
    label is answered with `OK`; and then, or at once if none is open, every list of legal
    requests is answered as a new session would answer it. -/
theorem session_recoverable (hs : Reachable s) (hclose : env.closeOk = true) (qs : List Request)
    (hlegal : ∀ q ∈ qs, q.Legal) :
    ∃ s₁, (s.deviceFd = none ∧ s₁ = s ∨ s.deviceFd ≠ none ∧
        Returns (serve env (textMessage FAT32S_UNMOUNT s.deviceLabel)) s OK s₁) ∧
      ∃ h s' σ, h.map (·.1) = qs ∧ Serves Server.step s₁ h s' ∧
        Serves (Computes Session.step) .idle h σ ∧ Represents σ s' := by
  by_cases hfd : s.deviceFd = none
  · have hidle : Represents .idle s := .idle hfd (by rw [(hs.idle hfd).fsData])
    exact ⟨s, .inl ⟨hfd, rfl⟩, refines_step.serves qs hidle hlegal⟩
  · have hidle : Represents .idle s.reset := .idle rfl rfl
    exact ⟨s.reset, .inr ⟨hfd, hs.labelled.returns_unmount hfd hclose⟩,
      refines_step.serves qs hidle hlegal⟩

/-- After the failed mount of a blank disk, which stays open: the sample volume can be
    mounted and read once the disk is unmounted. -/
theorem session_recoverable_on_sample :
    ∃ s s₁ h s' σ, Returns (serve (diskEnv blankDisk) mountMessage) (Server.initial fun _ => [])
        EINVAL s ∧
      s.deviceFd ≠ none ∧
      Returns (serve (diskEnv blankDisk) (textMessage FAT32S_UNMOUNT s.deviceLabel)) s OK s₁ ∧
      h.map (·.1) = [Sample.request mountMessage,
        Sample.request (textMessage FAT32S_CAT (ascii "DIR/B.TXT"))] ∧
      Serves Server.step s₁ h s' ∧ Serves (Computes Session.step) .idle h σ ∧
      Represents σ s' := by
  have hopen : (diskEnv blankDisk).openDevice mountMessage.text = some blankDisk := rfl
  have hmount := returns_doMount.mpr (.notSigned (s := Server.initial fun _ => []) rfl (by decide)
    rfl (by decide) hopen (Device.whole_avail (by decide)) (by unfold Device.Signed; decide))
  have hserve : Returns (serve (diskEnv blankDisk) mountMessage) (Server.initial fun _ => []) _ _ :=
    hmount
  have hclose : (diskEnv blankDisk).closeOk = true := rfl
  rcases session_recoverable (.serve (.init _) hserve) hclose _ Sample.legal_mount_cat with
    ⟨s₁, hend, h, s', σ, hqs, hrun, hspec, hrep⟩
  rcases hend with ⟨hnone, _⟩ | ⟨hfd, hunmount⟩
  · cases hnone
  · exact ⟨_, s₁, h, s', σ, hserve, hfd, hunmount, hqs, hrun, hspec, hrep⟩

end Fat32s
