/-
  Fat32s/HeldDevice.lean
  ======================
  **Which device the server holds.**

  On any disks, and whatever the replies were: a mount request takes the device that
  `open` gives it if none is held, even if the boot sector is then found to be invalid
  and the reply is an error; and only an unmount under the same label gives it up.  So
  the device and its label follow from the requests and the answers of `open` and
  `close` alone.  No request writes to the device: what is held is, byte for byte, what
  was opened.
-/
import Fat32s.Recovery

namespace Fat32s

open Fat32s.Lib Fat32s.Lib.Prog

variable {s s' : Server} {env : Env} {m : Message} {r : Int}

/-- Requests come with the answers of the system calls. -/
def Server.serves (s : Server) (q : Env × Message) (r : Int) (s' : Server) : Prop :=
  Returns (serve q.1 q.2) s r s'

/-- The label and the device that are held after a request. -/
def heldStep (held : Option (Name × Device)) (x : (Env × Message) × Int) :
    Option (Name × Device) :=
  match held with
  | none =>
    if x.1.2.callnr = FAT32S_MOUNT ∧ x.1.2.copyOk = true then
      (x.1.1.openDevice x.1.2.text).map fun dev => (x.1.2.text, dev)
    else none
  | some (label, dev) =>
    if x.1.2.callnr = FAT32S_UNMOUNT ∧ x.1.2.copyOk = true ∧ label = x.1.2.text ∧
        x.1.1.closeOk = true then none
    else some (label, dev)

def held (hist : List ((Env × Message) × Int)) : Option (Name × Device) := hist.foldl heldStep none

/-- The server holds this device under this label, or none. -/
structure Server.Holds (s : Server) (held : Option (Name × Device)) : Prop where
  device : s.deviceFd = held.map (·.2)
  label : ∀ {label : Name} {dev : Device}, held = some (label, dev) → s.deviceLabel = label

theorem Server.Holds.same {held : Option (Name × Device)} (h : s.Holds held)
    (hfd : s'.deviceFd = s.deviceFd) (hlabel : s'.deviceLabel = s.deviceLabel) : s'.Holds held :=
  ⟨hfd.trans h.device, fun heq => hlabel.trans (h.label heq)⟩

theorem Server.Holds.none_iff {held : Option (Name × Device)} (h : s.Holds held) :
    s.deviceFd = none ↔ held = none := by
  rw [h.device, Option.map_eq_none_iff]

theorem heldStep_of_ne {held : Option (Name × Device)} (hmount : m.callnr ≠ FAT32S_MOUNT)
    (hunmount : m.callnr ≠ FAT32S_UNMOUNT) : heldStep held ((env, m), r) = held := by
  unfold heldStep
  cases held with
  | none => exact if_neg fun h => hmount h.1
  | some x => exact if_neg fun h => hunmount h.1

/-! ### One request -/

variable {h : Option (Name × Device)}

/-- A device that can be opened is taken, whatever comes of it. -/
theorem Server.Holds.taken {dev : Device} (hs : s.Holds h) (hcall : m.callnr = FAT32S_MOUNT)
    (hfd : s.deviceFd = none) (hcopy : m.copyOk = true)
    (hopen : env.openDevice m.text = some dev) (hfd' : s'.deviceFd = some dev)
    (hlabel : s'.deviceLabel = m.text) : s'.Holds (heldStep h ((env, m), r)) := by
  obtain rfl := hs.none_iff.mp hfd
  rw [heldStep, if_pos ⟨hcall, hcopy⟩, hopen, Option.map_some]
  exact ⟨hfd', fun heq => by cases heq; exact hlabel⟩

theorem Server.Holds.mount (hs : s.Holds h) (hcall : m.callnr = FAT32S_MOUNT)
    (hmount : MountOutcome env m s r s') : s'.Holds (heldStep h ((env, m), r)) := by
  cases hmount with
  | already hfd =>
    cases h with
    | none =>
      rw [hs.device] at hfd
      cases hfd
    | some x =>
      have hunmount : m.callnr ≠ FAT32S_UNMOUNT := by
        rw [hcall]
        decide
      have hkeep : heldStep (some x) ((env, m), EINVAL) = some x := if_neg fun h => hunmount h.1
      rw [hkeep]
      exact hs.same rfl rfl
  | notCopied hfd _ hcopy =>
    obtain rfl := hs.none_iff.mp hfd
    have hkeep : heldStep none ((env, m), EINVAL) = none := if_neg fun h => by simp [hcopy] at h
    rw [hkeep]
    exact hs.same rfl rfl
  | notOpened hfd _ hcopy _ hopen =>
    obtain rfl := hs.none_iff.mp hfd
    have hnone : heldStep none ((env, m), EINVAL) = none := by
      rw [heldStep, if_pos ⟨hcall, hcopy⟩, hopen, Option.map_none]
    rw [hnone]
    exact ⟨rfl, fun heq => by cases heq⟩
  | noBootSector hfd _ hcopy _ hopen _ => exact hs.taken hcall hfd hcopy hopen rfl rfl
  | notSigned hfd _ hcopy _ hopen _ _ => exact hs.taken hcall hfd hcopy hopen rfl rfl
  | mounted hfd _ hcopy _ hopen _ _ _ _ =>
    refine hs.taken hcall hfd hcopy hopen ?_ rfl
    dsimp only
    rw [Drive.jump, Drive.parse, Drive.load_deviceFd]
    rfl

/-- When an unmount is answered with OK, and what it leaves. -/
theorem Server.Holds.unmount (hs : s.Holds h) (hcall : m.callnr = FAT32S_UNMOUNT)
    (hret : Returns (doUnmount env m) s r s') :
    s'.Holds (heldStep h ((env, m), r)) ∧
      (r = OK ↔ ∃ dev, h = some (m.text, dev) ∧ m.copyOk = true ∧ env.closeOk = true) := by
  cases h with
  | none =>
    have hkeep : heldStep none ((env, m), r) = none := if_neg fun h => by
      rw [hcall] at h
      exact absurd h.1 (by decide)
    rw [hkeep]
    unfold doUnmount at hret
    rw [returns_globals_bind, if_pos (by rw [hs.device]; rfl)] at hret
    obtain ⟨rfl, rfl⟩ := returns_refuse.mp hret
    exact ⟨hs.same rfl rfl, by simp [EINVAL, OK]⟩
  | some x =>
    obtain ⟨label, dev⟩ := x
    have hfd : s.deviceFd ≠ none := by simp [hs.device]
    have hlabel := hs.label rfl
    by_cases hlen : 0 ≤ m.txtLen.toInt
    swap
    · unfold doUnmount at hret
      rw [returns_globals_bind, if_neg (by simpa using hfd), returns_getTxt_bind] at hret
      exact (hlen hret.1).elim
    by_cases hcopy : m.copyOk = true
    swap
    · rw [Bool.not_eq_true] at hcopy
      obtain ⟨rfl, rfl⟩ := hret.unique (returns_doUnmount_not_copied hfd hlen hcopy)
      have hkeep : heldStep (some (label, dev)) ((env, m), EINVAL) = some (label, dev) :=
        if_neg fun h => by simp [hcopy] at h
      rw [hkeep]
      exact ⟨hs.same rfl rfl, by simp [EINVAL, OK, hcopy]⟩
    rw [returns_doUnmount_copied hfd hlen hcopy, hlabel] at hret
    by_cases hsame : label = m.text
    swap
    · rw [if_pos hsame] at hret
      obtain ⟨rfl, rfl⟩ := returns_refuse.mp hret
      have hkeep : heldStep (some (label, dev)) ((env, m), EINVAL) = some (label, dev) :=
        if_neg fun h => hsame h.2.2.1
      rw [hkeep]
      refine ⟨hs.same rfl rfl, fun hr => (by cases hr), ?_⟩
      rintro ⟨dev', heq, _⟩
      cases heq
      exact (hsame rfl).elim
    subst hsame
    rw [if_neg (by simp)] at hret
    cases hclose : env.closeOk with
    | false =>
      rw [if_pos hclose] at hret
      obtain ⟨rfl, rfl⟩ := returns_refuse.mp hret
      have hkeep : heldStep (some (m.text, dev)) ((env, m), EINVAL) = some (m.text, dev) :=
        if_neg fun h => by simp [hclose] at h
      rw [hkeep]
      exact ⟨hs.same rfl rfl, by simp [EINVAL, OK]⟩
    | true =>
      rw [if_neg (by simp [hclose]), returns_modify_bind] at hret
      obtain ⟨rfl, rfl⟩ := returns_pure.mp hret
      have hnone : heldStep (some (m.text, dev)) ((env, m), OK) = none :=
        if_pos ⟨hcall, hcopy, rfl, hclose⟩
      rw [hnone]
      exact ⟨⟨rfl, fun heq => by cases heq⟩, by simp [hcopy]⟩

theorem Server.Holds.serve (hs : s.Holds h) (hret : Returns (serve env m) s r s') :
    s'.Holds (heldStep h ((env, m), r)) := by
  cases hcmd : m.command with
  | some cmd =>
    obtain ⟨hmount, hunmount⟩ : m.callnr ≠ FAT32S_MOUNT ∧ m.callnr ≠ FAT32S_UNMOUNT := by
      unfold Message.command at hcmd
      grind [FAT32S_MOUNT, FAT32S_UNMOUNT, FAT32S_PWD, FAT32S_CD, FAT32S_LS, FAT32S_CAT,
        FAT32S_STAT]
    rw [heldStep_of_ne hmount hunmount]
    cases serve_answered hcmd hret with
    | refused text => exact hs.same rfl rfl
    | ran text _ hrun =>
      have hsame := command_sameMount hrun
      exact hs.same hsame.deviceFd hsame.deviceLabel
  | none =>
    have hsay : ∀ {text}, m.callnr ≠ FAT32S_MOUNT → m.callnr ≠ FAT32S_UNMOUNT →
        Returns (do printf text; return EINVAL : ServerM Int) s r s' →
        s'.Holds (heldStep h ((env, m), r)) := by
      intro text hmount hunmount hret
      rw [returns_printf_bind] at hret
      obtain ⟨rfl, rfl⟩ := returns_pure.mp hret
      rw [heldStep_of_ne hmount hunmount]
      exact hs.same rfl rfl
    rw [serve_eq_of_not_command hcmd] at hret
    by_cases hnotify : m.callnr - 0x1000 < 0x100
    · rw [if_pos hnotify] at hret
      refine hsay ?_ ?_ hret
      · rintro hcall
        rw [hcall] at hnotify
        exact absurd hnotify (by decide)
      · rintro hcall
        rw [hcall] at hnotify
        exact absurd hnotify (by decide)
    rw [if_neg hnotify] at hret
    by_cases hmount : m.callnr = FAT32S_MOUNT
    · rw [if_pos hmount] at hret
      exact hs.mount hmount (returns_doMount.mp hret)
    rw [if_neg hmount] at hret
    by_cases hunmount : m.callnr = FAT32S_UNMOUNT
    · rw [if_pos hunmount] at hret
      exact (hs.unmount hunmount hret).1
    · rw [if_neg hunmount] at hret
      exact hsay hmount hunmount hret

/-! ### Whole runs -/

theorem holds_held {junk : Nat → Name} {hist : List ((Env × Message) × Int)}
    (hrun : Serves Server.serves (Server.initial junk) hist s) : s.Holds (held hist) := by
  induction hrun with
  | none => exact ⟨rfl, fun heq => by cases heq⟩
  | @more hist s₁ s₂ q r _ hstep ih =>
    rw [held, List.foldl_append]
    exact ih.serve hstep

/-- **What is held follows from what was opened and closed.**  After any run, on any disks,
    the server holds the device and the label that the requests say, unchanged; and an
    unmount is answered with OK exactly if it names that label, can be read and `close`
    succeeds. -/
theorem held_device {junk : Nat → Name} {hist : List ((Env × Message) × Int)}
    (hrun : Serves Server.serves (Server.initial junk) hist s) :
    s.deviceFd = (held hist).map (·.2) ∧
    (∀ label dev, held hist = some (label, dev) → s.deviceLabel = label) ∧
    ∀ env m r s', m.callnr = FAT32S_UNMOUNT → Returns (serve env m) s r s' →
      (r = OK ↔ ∃ dev, held hist = some (m.text, dev) ∧ m.copyOk = true ∧ env.closeOk = true) := by
  have hs := holds_held hrun
  refine ⟨hs.device, fun label dev heq => hs.label heq, ?_⟩
  intro env m r s' hcall hret
  have hcmd : m.command = none := by
    simp [Message.command, hcall, FAT32S_UNMOUNT, FAT32S_PWD, FAT32S_CD, FAT32S_LS, FAT32S_CAT,
      FAT32S_STAT]
  have hserve : (serve env m : ServerM Int) = doUnmount env m := by
    rw [serve_eq_of_not_command hcmd, hcall]
    rfl
  rw [hserve] at hret
  exact (hs.unmount hcall hret).2

/-- The sample volume is held after it was mounted, and after an unmount of another label. -/
theorem held_sample_device : ∃ hist s,
    hist.map (·.1.2) = [mountMessage, textMessage FAT32S_UNMOUNT (ascii "other")] ∧
    Serves Server.serves (Server.initial fun _ => []) hist s ∧
    held hist = some (mountMessage.text, Sample.volume.dev) ∧
    s.deviceFd = some Sample.volume.dev ∧ s.deviceLabel = mountMessage.text := by
  obtain ⟨s, hmount, _⟩ := Sample.mounted fun _ => []
  obtain ⟨r, s', hother, htest⟩ := Sample.returns_mounted
    (serve (diskEnv Sample.volume.dev) (textMessage FAT32S_UNMOUNT (ascii "other"))) 10
    (fun _ r _ => r = EINVAL) (by decide +kernel) hmount
  have hr : r = EINVAL := of_decide_eq_true htest
  subst hr
  have hrun : Serves Server.serves (Server.initial fun _ => [])
      [((diskEnv Sample.volume.dev, mountMessage), OK),
        ((diskEnv Sample.volume.dev, textMessage FAT32S_UNMOUNT (ascii "other")), EINVAL)] s' :=
    (Serves.one hmount).append (Serves.one hother)
  obtain ⟨hfd, hlabel, _⟩ := held_device hrun
  exact ⟨_, s', rfl, hrun, rfl, hfd, hlabel _ _ rfl⟩

end Fat32s
