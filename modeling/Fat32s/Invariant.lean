/-
  Fat32s/Invariant.lean
  =====================
  **After each command the server is at the beginning of some cluster.**

  This is the invariant that the authors of the server state.  Together with an
  empty rollback stack it holds on any disk that can be mounted, after every
  request of a run in which pwd always finds its way up.  On a disk where a `..`
  entry leads to a directory that does not list the way back, it does not.
-/
import Fat32s.Rollback
import Fat32s.Image

namespace Fat32s

open Fat32s.Lib Fat32s.Lib.Prog

variable {s s' : Server} {env : Env} {m : Message} {r : Int}

/-- At the beginning of some cluster, with nothing on the rollback stack. -/
structure Server.Settled (s : Server) : Prop where
  cursor : s.AtCluster
  sp : s.sp = 0

theorem Restored.settled (h : Restored s s') (hsame : s.toDrive.SameDisk s'.toDrive)
    (hs : s.Settled) : s'.Settled := by
  refine ⟨?_, (congrArg List.length h.stack).trans hs.sp⟩
  rcases h.cursor with hat | hat
  · obtain ⟨c, hc⟩ := hs.cursor.cluster
    refine ⟨hat.offset, c, ?_⟩
    rw [hat.sector, hc, Drive.firstSectorOfCluster, Drive.firstSectorOfCluster, hsame.bpb,
      hsame.fds]
  · exact hat

theorem Answered.settled {cmd : Command} (h : Answered cmd s s')
    (hclimb : cmd = .pwd → s.ClimbsUp) (hs : s.Settled) : s'.Settled := by
  have hsame := h.sameDisk
  cases h with
  | refused text => exact ⟨hs.cursor, hs.sp⟩
  | @ran status s₁ text hfd hrun =>
    have hrestored : Restored s s₁ := by
      cases cmd with
      | pwd =>
        rcases pwd_cases hrun with ⟨_, hback⟩ | ⟨hlost, _⟩
        · exact hback.restored
        · exact (hlost (hclimb rfl)).elim
      | cd path => exact (cd_cases hrun).restored hs.cursor.offset
      | ls path => exact (ls_cases hrun).restored
      | cat path => exact (cat_cases hrun).restored
      | stat path => exact (stat_cases hrun).restored
    have hsettled := hrestored.settled ⟨hsame.bpb, hsame.dev, hsame.fds⟩ hs
    exact ⟨hsettled.cursor, hsettled.sp⟩

theorem settled_of_doMount (h : Returns (doMount env m) s OK s') : s'.Settled := by
  cases returns_doMount.mp h with
  | @mounted dev hfd hlen hcopy hlabel hopen hboot hsigned hspc hfits =>
    refine ⟨⟨Drive.jump_offset _ _, (s.opened m.text dev).bpb.rootCluster, ?_⟩, rfl⟩
    exact (Drive.jump_sector _ _).trans (Drive.jump_firstSectorOfCluster _ _ _).symm

/-- **The invariant over whole runs.**  On any disk that can be mounted, in a run
    of requests in which pwd is only asked for where the way up is complete, the
    server is settled after every request, and in the middle of a request there
    are never more than three sectors on the stack. -/
theorem settled_after_requests {s₀ : Server} (hmount : Returns (doMount env m) s₀ OK s)
    (hrun : Requests (fun cmd s => cmd = .pwd → s.ClimbsUp) s s') :
    s'.AtCluster ∧ s'.sp = 0 ∧ ∀ cmd : Command, Within 3 cmd.run s' := by
  have hsettled : s'.Settled := by
    induction hrun with
    | none => exact settled_of_doMount hmount
    | more hrun hcmd hclimb h ih => exact (serve_answered hcmd h).settled hclimb ih
  refine ⟨hsettled.cursor, hsettled.sp, fun cmd => command_within cmd ?_⟩
  rw [hsettled.sp]

/-- On the sample volume: a cd into the directory, and a pwd there. -/
theorem settled_after_sample_requests :
    ∃ s s₁ s₂, Returns (doMount (diskEnv Sample.volume.dev) mountMessage)
        (Server.initial fun _ => []) OK s ∧
      Returns (serve (diskEnv Sample.volume.dev) (textMessage FAT32S_CD (ascii "DIR"))) s OK s₁ ∧
      Returns (serve (diskEnv Sample.volume.dev) (textMessage FAT32S_PWD [])) s₁ OK s₂ ∧
      s₂.AtCluster ∧ s₂.sp = 0 := by
  obtain ⟨s₂, ⟨s, hmount, s₁, hcd, _, hpwd, rfl⟩, htest⟩ := exists_served
    (diskEnv Sample.volume.dev)
    [mountMessage, textMessage FAT32S_CD (ascii "DIR"), textMessage FAT32S_PWD []] 10
    (fun s => s.deviceFd.isSome && s.sp == 0) (by decide +kernel)
  simp only [Bool.and_eq_true, beq_iff_eq] at htest
  obtain ⟨hfd, hsp⟩ := htest
  have hanswer : Answered .pwd s₁ s₂ := serve_answered rfl hpwd
  have hclimbs : s₁.ClimbsUp := by
    rw [Option.isSome_iff_ne_none, hanswer.sameDisk.dev] at hfd
    obtain ⟨_, status, hrun⟩ := (returns_doPwd hfd).mp hpwd
    rcases pwd_cases hrun with ⟨hclimbs, _⟩ | ⟨_, hlost⟩
    · exact hclimbs
    · omega
  have hsettled := settled_after_requests hmount
    (.more (.more .none rfl (fun h => by cases h) hcd) rfl (fun _ => hclimbs) hpwd)
  exact ⟨s, s₁, s₂, hmount, hcd, hpwd, hsettled.1, hsettled.2.1⟩

/-! ### Commands that stay -/

/-- The device, its label and all that follows from its BPB are the same. -/
structure Server.SameMount (s s' : Server) : Prop where
  bpb : s'.bpb = s.bpb
  magic : s'.fsData.magic = s.fsData.magic
  firstDataSector : s'.fsData.firstDataSector = s.fsData.firstDataSector
  numDataSectors : s'.fsData.numDataSectors = s.fsData.numDataSectors
  numDataClusters : s'.fsData.numDataClusters = s.fsData.numDataClusters
  deviceFd : s'.deviceFd = s.deviceFd
  deviceLabel : s'.deviceLabel = s.deviceLabel

theorem quiet_sameMount (s : Server) : Quiet s.SameMount := by
  constructor
  · intro s₁
    refine ⟨?_, fun _ h => ⟨h.1, h.2, h.3, h.4, h.5, h.6, h.7⟩,
      fun _ h => ⟨h.1, h.2, h.3, h.4, h.5, h.6, h.7⟩⟩
    intro d sector h
    refine ⟨(d.load_bpb sector).trans h.bpb, ?_, (d.load_firstDataSector sector).trans
      h.firstDataSector, ?_, ?_, (d.load_deviceFd sector).trans h.deviceFd, h.deviceLabel⟩
    · refine Eq.trans ?_ h.magic
      unfold Drive.load
      split <;> rfl
    · refine Eq.trans ?_ h.numDataSectors
      unfold Drive.load
      split <;> rfl
    · refine Eq.trans ?_ h.numDataClusters
      unfold Drive.load
      split <;> rfl
  · intro s₁ _ _ _ _ h
    exact ⟨h.1, h.2, h.3, h.4, h.5, h.6, h.7⟩

theorem command_sameMount {cmd : Command} (h : Returns cmd.run s r s') : s.SameMount s' := by
  have hpop : Preserves s.SameMount stackPop :=
    preserves_stackPop fun _ h => ⟨h.1, h.2, h.3, h.4, h.5, h.6, h.7⟩
  have hpush : ∀ sector, Preserves s.SameMount (stackPush sector) :=
    fun _ => preserves_modify fun _ h => ⟨h.1, h.2, h.3, h.4, h.5, h.6, h.7⟩
  exact ((quiet_sameMount s).command hpop hpush cmd).returns h ⟨rfl, rfl, rfl, rfl, rfl, rfl, rfl⟩

/-- **ls, cat, stat and a cd that fails do not move the user.**  On any disk, in any
    state with the cursor at the beginning of a sector and room for three more
    sectors on the stack, when such a command returns, the cursor and the stack are
    what they were, and so is all that belongs to the mount; the stack has not left
    its array in between. -/
theorem command_stays {cmd : Command} (hoff : s.dirBuff.offset = 0)
    (hroom : s.sp + 3 ≤ STACK_SIZE) (hrun : Returns cmd.run s r s') (hpwd : cmd ≠ .pwd)
    (hcd : ∀ path, cmd = .cd path → r ≠ 0) :
    s'.dirBuff.sector = s.dirBuff.sector ∧ s'.dirBuff.offset = s.dirBuff.offset ∧
      s'.sp = s.sp ∧ s'.stack = s.stack ∧ s.SameMount s' ∧ Within STACK_SIZE cmd.run s := by
  have hback : s'.Back s.dirBuff.sector s.stack := by
    cases cmd with
    | pwd => exact (hpwd rfl).elim
    | cd path =>
      have hwalked := cd_cases hrun
      exact ⟨hwalked.failed (hcd path rfl), hwalked.stack⟩
    | ls path => exact ls_cases hrun
    | cat path => exact cat_cases hrun
    | stat path => exact stat_cases hrun
  have hat := hback.cursor.atSector
  refine ⟨hat.sector, hat.offset.trans hoff.symm, ?_, hback.stack, command_sameMount hrun,
    command_within cmd hroom⟩
  exact congrArg List.length hback.stack

/-- On the sample volume: a cd through its directory to a file. -/
theorem failed_cd_stays_on_sample :
    ∃ s r s', Returns (doMount (diskEnv Sample.volume.dev) mountMessage)
        (Server.initial fun _ => []) OK s ∧
      Returns (Command.cd (ascii "DIR/B.TXT")).run s r s' ∧ r ≠ 0 ∧
      s'.dirBuff.sector = s.dirBuff.sector ∧ s'.sp = s.sp := by
  obtain ⟨s, hmount, _⟩ := Sample.mounted fun _ => []
  obtain ⟨r, s', hcd, htest⟩ := Sample.returns_mounted (Command.cd (ascii "DIR/B.TXT")).run 10
    (fun _ r _ => r ≠ 0) (by decide +kernel) hmount
  have hr : r ≠ 0 := of_decide_eq_true htest
  have hsettled := settled_of_doMount hmount
  obtain ⟨hsector, _, hsp, _⟩ := command_stays hsettled.cursor.offset
    (by rw [hsettled.sp]; decide) hcd (fun h => by cases h) (fun _ _ => hr)
  exact ⟨s, r, s', hmount, hcd, hr, hsector, hsp⟩

/-! ### A disk on which pwd gets lost -/

namespace Lost

/-- The root directory holds a directory `D` in cluster 3, and the `..` entry
    there leads to cluster 4, a directory that holds one file. -/
def image : Image :=
  bootSector 512 1 1 8 1 2 ++
  [(512 + 8, le32Bytes 0x0FFFFFFF ++ le32Bytes 0x0FFFFFFF ++ le32Bytes 0x0FFFFFFF),
   (1024, slotBytes [rawSlot (ascii "D") 0x10 3 0]),
   (1536, slotBytes [rawSlot (ascii "..") 0x10 4 0]),
   (2048, slotBytes [rawSlot (ascii "F") 0x20 0 0])]

def disk : Env := diskEnv (image.device 4096)

end Lost

/-- A pwd in the directory `D` gives up in the middle of cluster 4, with two
    sectors on the stack. -/
theorem pwd_leaves_sectors_on_stack :
    ∃ s s₁ s₂, Returns (doMount Lost.disk mountMessage) (Server.initial fun _ => []) OK s ∧
      Returns (serve Lost.disk (textMessage FAT32S_CD (ascii "D"))) s OK s₁ ∧
      Returns (serve Lost.disk (textMessage FAT32S_PWD [])) s₁ OK s₂ ∧
      s₂.dirBuff.offset = 32 ∧ s₂.sp = 2 := by
  obtain ⟨s₂, ⟨s, hmount, s₁, hcd, _, hpwd, rfl⟩, htest⟩ := exists_served Lost.disk
    [mountMessage, textMessage FAT32S_CD (ascii "D"), textMessage FAT32S_PWD []] 10
    (fun s => s.dirBuff.offset == 32 && s.sp == 2) (by decide +kernel)
  simp only [Bool.and_eq_true, beq_iff_eq] at htest
  obtain ⟨hoff, hsp⟩ := htest
  exact ⟨s, s₁, s₂, hmount, hcd, hpwd, hoff, hsp⟩

end Fat32s
