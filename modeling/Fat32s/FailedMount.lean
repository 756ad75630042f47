/-
  Fat32s/FailedMount.lean
  =======================
  **What a failed mount leaves behind.**

  `do_mount` stores the label before it opens the device, and the descriptor
  before it reads the boot sector.  So a mount that cannot open the device
  changes the label, and one that finds no valid boot sector leaves the device
  open: from then on every command trusts a geometry that was never computed, and
  every later mount is refused.
-/
import Fat32s.Image

namespace Fat32s

open Fat32s.Lib Fat32s.Lib.Prog

variable {s s' : Server} {env : Env} {m : Message} {r : Int}

/-- The mount fails before it stores anything new: a device is open already, the
    text cannot be copied, or the device that cannot be opened has the label
    that is stored anyway. -/
def FailsEarly (env : Env) (m : Message) (s : Server) : Prop :=
  s.deviceFd ≠ none ∨ m.copyOk = false ∨
    (env.openDevice m.text = none ∧ m.text = s.deviceLabel)

/-- Commands are refused while nothing is mounted. -/
theorem serve_nothing_mounted {cmd : Command} (hfd : s.deviceFd = none)
    (hcmd : m.command = some cmd) :
    Returns (serve env m) s EINVAL (s.say (ascii "FAT32S: Nothing is mounted.\n")) := by
  have hrefuse : ∀ {p : ServerM Int}, Returns (do
      let s ← Prog.get
      if s.deviceFd.isNone then refuse "FAT32S: Nothing is mounted.\n" EINVAL else p : ServerM Int)
      s EINVAL (s.say (ascii "FAT32S: Nothing is mounted.\n")) := by
    intro p
    rw [returns_get_bind, hfd]
    exact returns_refuse.mpr ⟨rfl, rfl⟩
  rw [serve_eq_handle hcmd]
  cases cmd with
  | pwd => exact hrefuse
  | cd _ => exact hrefuse
  | ls _ => exact hrefuse
  | cat _ => exact hrefuse
  | stat _ => exact hrefuse

/-- The three ways to fail when nothing is mounted. -/
theorem MountOutcome.failed (h : MountOutcome env m s r s') (hr : r ≠ OK)
    (hfd : s.deviceFd = none) :
    (m.copyOk = false ∧ ∃ text, s' = s.say text) ∨
    (m.copyOk = true ∧ env.openDevice m.text = none ∧
      ∃ text, s' = Server.say { s with deviceLabel := m.text, deviceFd := none } text) ∨
    (m.copyOk = true ∧ ∃ dev, env.openDevice m.text = some dev ∧ s'.deviceFd = some dev) := by
  cases h with
  | already hfd' =>
    rw [hfd] at hfd'
    cases hfd'
  | notCopied _ _ hcopy => exact .inl ⟨hcopy, _, rfl⟩
  | notOpened _ _ hcopy _ hopen => exact .inr (.inl ⟨hcopy, hopen, _, rfl⟩)
  | noBootSector _ _ hcopy _ hopen _ => exact .inr (.inr ⟨hcopy, _, hopen, rfl⟩)
  | notSigned _ _ hcopy _ hopen _ _ => exact .inr (.inr ⟨hcopy, _, hopen, rfl⟩)
  | mounted => exact (hr rfl).elim

/-- **When a failed mount leaves the session as it was.**  The state is unchanged
    exactly if the mount fails early.  If nothing was mounted, nothing is mounted
    afterwards exactly if the text cannot be copied or the device not be opened;
    then commands are still refused and a volume can still be mounted. -/
theorem failed_mount_keeps_session_iff (h : Returns (doMount env m) s r s') (hr : r ≠ OK) :
    (s' = { s with out := s'.out } ↔ FailsEarly env m s) ∧
    (s.deviceFd = none →
      (s'.deviceFd = none ↔ m.copyOk = false ∨ env.openDevice m.text = none)) ∧
    (s'.deviceFd = none →
      (∀ env₁ m₁ cmd, m₁.command = some cmd → Returns (serve env₁ m₁) s' EINVAL
        (s'.say (ascii "FAT32S: Nothing is mounted.\n"))) ∧
      ∀ (env₁ : Env) (m₁ : Message) (v : Volume), v.Bootable → 0 ≤ m₁.txtLen.toInt →
        m₁.copyOk = true → m₁.text.length < MAX_DEVICE_LABEL →
        env₁.openDevice m₁.text = some v.dev → ∃ s₁, Returns (doMount env₁ m₁) s' OK s₁) := by
  have hout := returns_doMount.mp h
  refine ⟨?_, ?_, ?_⟩
  · by_cases hfd : s.deviceFd = none
    · rcases hout.failed hr hfd with ⟨hcopy, text, rfl⟩ | ⟨hcopy, hopen, text, rfl⟩ |
        ⟨hcopy, dev, hopen, hdev⟩
      · exact ⟨fun _ => .inr (.inl hcopy), fun _ => rfl⟩
      · constructor
        · intro hs
          exact .inr (.inr ⟨hopen, congrArg Server.deviceLabel hs⟩)
        · intro hearly
          rcases hearly with hfd' | hcopy' | ⟨_, hlabel⟩
          · exact (hfd' hfd).elim
          · simp [hcopy] at hcopy'
          · simp [Server.say, hlabel, ← hfd]
      · constructor
        · intro hs
          have hsame : s'.deviceFd = s.deviceFd := by rw [hs]
          rw [hdev, hfd] at hsame
          cases hsame
        · intro hearly
          rcases hearly with hfd' | hcopy' | ⟨hopen', _⟩
          · exact (hfd' hfd).elim
          · simp [hcopy] at hcopy'
          · simp [hopen] at hopen'
    · refine ⟨fun _ => .inl hfd, fun _ => ?_⟩
      cases hout with
      | already _ => rfl
      | notCopied hfd' _ _ => exact (hfd hfd').elim
      | notOpened hfd' _ _ _ _ => exact (hfd hfd').elim
      | noBootSector hfd' _ _ _ _ _ => exact (hfd hfd').elim
      | notSigned hfd' _ _ _ _ _ _ => exact (hfd hfd').elim
      | mounted hfd' _ _ _ _ _ _ _ _ => exact (hfd hfd').elim
  · intro hfd
    rcases hout.failed hr hfd with ⟨hcopy, text, rfl⟩ | ⟨hcopy, hopen, text, rfl⟩ |
      ⟨hcopy, dev, hopen, hdev⟩
    · exact ⟨fun _ => .inl hcopy, fun _ => hfd⟩
    · exact ⟨fun _ => .inr hopen, fun _ => rfl⟩
    · simp [hcopy, hopen, hdev]
  · intro hfd
    refine ⟨fun env₁ m₁ cmd hcmd => serve_nothing_mounted hfd hcmd, ?_⟩
    intro env₁ m₁ v hboot hlen hcopy hlabel hopen
    exact hboot.returns_doMount hfd hlen hcopy hlabel hopen

/-- A system without the device: the mount fails and the label that was stored,
    by an earlier attempt, is the same. -/
def noDevice : Env := ⟨fun _ => none, true⟩

theorem failed_mount_keeps_session_twice :
    ∃ s s', Returns (doMount noDevice mountMessage) (Server.initial fun _ => []) EINVAL s ∧
      Returns (doMount noDevice mountMessage) s EINVAL s' ∧ s' = { s with out := s'.out } ∧
      s'.deviceFd = none := by
  have hopen : noDevice.openDevice mountMessage.text = none := rfl
  have hfirst := returns_doMount.mpr (.notOpened (s := Server.initial fun _ => []) rfl (by decide)
    rfl (by decide) hopen)
  have hsecond := returns_doMount.mpr (.notOpened (s := Server.say
    { Server.initial fun _ => [] with deviceLabel := mountMessage.text, deviceFd := none }
    (ascii "FAT32S: Can't open the device file.\n")) rfl (by decide) rfl (by decide) hopen)
  have hkeeps := failed_mount_keeps_session_iff hsecond (by decide)
  exact ⟨_, _, hfirst, hsecond, hkeeps.1.mpr (.inr (.inr ⟨hopen, rfl⟩)),
    (hkeeps.2.1 rfl).mpr (.inr hopen)⟩

/-- A disk of zero bytes, without a signature. -/
def blankDisk : Device := Device.whole 4096 fun _ => 0

/-- The mount of a blank disk fails and leaves the disk open: the state has
    changed, the sample volume cannot be mounted any more, and the next pwd
    divides by the sectors per cluster of a boot sector full of zeros. -/
theorem failed_mount_opens_device :
    ∃ s', Returns (doMount (diskEnv blankDisk) mountMessage)
        (Server.initial fun _ => []) EINVAL s' ∧
      s'.deviceFd ≠ none ∧
      Returns (doMount (diskEnv Sample.volume.dev) mountMessage) s' EINVAL
        (s'.say (ascii "FAT32S: A filesystem is already mounted.\n")) ∧
      ∃ s₁, doPwd.run 1 s' = .fault .divByZero s₁ := by
  have hopen : (diskEnv blankDisk).openDevice mountMessage.text = some blankDisk := rfl
  have hmount := returns_doMount.mpr (.notSigned (s := Server.initial fun _ => []) rfl (by decide)
    rfl (by decide) hopen (Device.whole_avail (by decide)) (by unfold Device.Signed; decide))
  exact ⟨_, hmount, by simp [Server.say, Drive.withBpb], returns_doMount.mpr (.already rfl), _, rfl⟩

end Fat32s
