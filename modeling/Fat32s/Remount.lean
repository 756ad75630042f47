/-
  Fat32s/Remount.lean
  ===================
  **What an earlier session leaves behind.**

  A server that has nothing mounted differs from a freshly initialised one in the text it
  has printed and the records of its run, in the label of a device that could not be
  opened, and in what its stack memory holds.  A mount overwrites the label and looks at
  nothing else of this, so the session it starts is that of a fresh server.

  The stack memory can still show later.  `get_name` looks at an uninitialised byte of the
  caller's buffer when a short name has an extension but no base, and a name left there by
  an earlier session may decide what is listed.  The machine here stops at such an entry.
  Where it does not stop, all requests after the mount are answered as by a fresh server.
-/
import Fat32s.EntryAlone
import Fat32s.Simulation

namespace Fat32s

open Fat32s.Lib Fat32s.Lib.Prog

/-! ### The machine that reads no uninitialised byte -/

/-- The server, where with `strict` a name that depends on an uninitialised byte is a
    fault. -/
structure CheckedServer (strict : Bool) where
  server : Server

namespace CheckedServer

variable {strict : Bool} {α : Type}

def onServer (p : ServerM α) : Prog Fault (CheckedServer strict) α :=
  Prog.zoom server (fun s _ => ⟨s⟩) p

instance checkedMachine : Machine (CheckedServer strict) where
  onServer := onServer
  stackPush sector := onServer (stackPush sector)
  stackPop := onServer stackPop
  stackClear := onServer Machine.stackClear
  getName de name := do
    Prog.check (strict = true → ¬ de.BareExt) .uninitialised
    return getName de name
  malloc _ := pure ()
  free := pure ()
  openDevice label dev := onServer (Machine.openDevice label dev)
  reset := onServer Machine.reset

end CheckedServer

/-! ### Two servers in one session -/

/-- Apart from its past, which begins with some text for each, the two servers are one;
    and so are their labels while a device is open. -/
def Server.Apart (out out' : List UInt8) (a b : Server) : Prop :=
  ∃ (h h' : Past) (core : Server), a = h.server core ∧ b = h'.server core ∧
    h.out = out ∧ h'.out = out' ∧ (core.deviceFd ≠ none → h.label = h'.label)

namespace CheckedServer

variable {strict : Bool} {α : Type} {trap : Fault → Prop} {out out' : List UInt8}
  {x : CheckedServer strict} {s : Server}

/-- A program that looks at no past and leaves the descriptor alone. -/
theorem couples_onServer {p : ServerM α} (h : x.server.Apart out out' s)
    (hcommutes : ∀ h : Past, Commutes h.server p)
    (hkeeps : ∀ {s s' : Server} {a : α}, Returns p s a s' → s'.deviceFd = s.deviceFd) :
    Couples trap (onServer p) x p s (Same fun x s => x.server.Apart out out' s) := by
  obtain ⟨a⟩ := x
  obtain ⟨h, h', core, rfl, rfl, hout, hout', hlabel⟩ := h
  refine .zoom ((hcommutes h).couples (hcommutes h') core) ?_
  rintro a _ _ _ ⟨rfl, core', hret, rfl, rfl⟩ _
  refine ⟨rfl, h, h', core', rfl, rfl, hout, hout', ?_⟩
  rw [hkeeps hret]
  exact hlabel

def mirror (strict : Bool) (out out' : List UInt8) : Mirror (CheckedServer strict) where
  trap e := strict = true ∧ e = .uninitialised
  room _ := True
  memory _ := True
  buf _ _ := True
  rel _ x s := x.server.Apart out out' s
  room_le _ h := h
  buf_refl _ := trivial
  gone_of_unread h := h
  globals := by
    rintro t ⟨a⟩ s ⟨h, h', core, rfl, rfl, hout, hout', hlabel⟩
    refine ⟨fun _ => .ret ⟨⟨rfl, rfl, rfl, rfl, hlabel⟩, ?_⟩⟩
    exact ⟨h, h', core, rfl, rfl, hout, hout', hlabel⟩
  onServer hp h := couples_onServer h hp.commutes fun hret => (hp.keeps hret).2
  newBuffer := by
    rintro t ⟨a⟩ s ⟨h, h', core, rfl, rfl, hout, hout', hlabel⟩
    refine ⟨fun _ => .ret ⟨trivial, { h with junk := fun n => h.junk (n + 1) },
      { h' with junk := fun n => h'.junk (n + 1) }, core, rfl, rfl, hout, hout', hlabel⟩⟩
  stackPush h _ := couples_onServer h (fun _ => commutes_modify fun _ => rfl) fun hret => by
    rw [returns_modify.mp hret]
  stackPop h := couples_onServer h Past.stackPop fun hret => by
    obtain ⟨_, _, rfl⟩ := returns_stackPop.mp hret
    rfl
  stackClear h := couples_onServer h (fun _ => commutes_modify fun _ => rfl) fun hret => by
    rw [returns_modify.mp hret]
  malloc h _ := .ret ⟨rfl, h⟩
  free h := .ret ⟨rfl, h⟩
  openDevice := by
    rintro t ⟨a⟩ s label dev ⟨h, h', core, rfl, rfl, hout, hout', _⟩ _
    exact ⟨fun _ => .ret ⟨rfl, { h with label := label }, { h' with label := label },
      { core with deviceFd := dev }, rfl, rfl, hout, hout', fun _ => rfl⟩⟩
  reset := by
    rintro t ⟨a⟩ s ⟨h, h', core, rfl, rfl, hout, hout', _⟩ _
    exact ⟨fun _ => .ret ⟨rfl, { h with label := [] }, { h' with label := [] }, core.reset, rfl,
      rfl, hout, hout', fun _ => rfl⟩⟩

def simulation (out out' : List UInt8) : Simulation (CheckedServer true) where
  toMirror := mirror true out out'
  getName := by
    intro t x s de a b h _ hde
    refine .check_left (fun hbare => ⟨rfl, rfl⟩) fun hbare => ?_
    rw [getName_of_not_bareExt hde (hbare rfl) a b]
    exact .ret ⟨rfl, h⟩

/-! ### Whole runs -/

variable {env : Env} {m : Message}

/-- A mount looks at no name, so that it makes no difference whether they are checked. -/
theorem couples_doMount (h : x.server.Apart out out' s) :
    Couples (mirror strict out out').trap (doMount env m) x (doMount env m : ServerM Int) s
      (Same fun x s => x.server.Apart out out' s) :=
  -- the handler does not look at the call number
  (mirror strict out out').doMount (m := { m with callnr := FAT32S_MOUNT }) rfl h fun _ => trivial

end CheckedServer

/-- A mount and the requests after it. -/
def mountAndServe {σ : Type} [Machine σ] (env : Env) (m : Message)
    (later : List (Env × Message)) : Prog Fault σ (Int × List Int) := do
  let r ← doMount env m
  let rs ← serveAll later
  return (r, rs)

namespace CheckedServer

variable {out out' : List UInt8} {x : CheckedServer true} {s : Server} {env : Env} {m : Message}

theorem couples_serveAll (later : List (Env × Message)) (h : x.server.Apart out out' s) :
    Couples (mirror true out out').trap (serveAll later) x (serveAll later : ServerM (List Int)) s
      (Same fun x s => x.server.Apart out out' s) := by
  induction later generalizing x s with
  | nil => exact .ret ⟨rfl, h⟩
  | cons request later ih =>
    obtain ⟨env, m⟩ := request
    refine .bind ((simulation out out').serve h trivial fun _ => trivial) ?_
    rintro r x₁ _ s₁ ⟨rfl, h₁⟩ _
    refine .bind (ih h₁) ?_
    rintro rs x₂ _ s₂ ⟨rfl, h₂⟩ _
    exact .ret ⟨rfl, h₂⟩

theorem couples_mountAndServe (later : List (Env × Message)) (h : x.server.Apart out out' s) :
    Couples (mirror true out out').trap (mountAndServe env m later) x
      (mountAndServe env m later : ServerM (Int × List Int)) s
      (Same fun x s => x.server.Apart out out' s) := by
  refine .bind (couples_doMount h) ?_
  rintro r x₁ _ s₁ ⟨rfl, h₁⟩ _
  refine .bind (couples_serveAll later h₁) ?_
  rintro rs x₂ _ s₂ ⟨rfl, h₂⟩ _
  exact .ret ⟨rfl, h₂⟩

end CheckedServer

/-! ### Sessions -/

/-- The two servers are in the same session: they only differ in what they have printed and
    recorded, in their stack memory, and in the label while nothing is mounted. -/
structure Server.SameSession (s t : Server) : Prop where
  bpb : s.bpb = t.bpb
  fsData : s.fsData = t.fsData
  deviceFd : s.deviceFd = t.deviceFd
  dirBuff : s.dirBuff = t.dirBuff
  stack : s.stack = t.stack
  lastHopSector : s.lastHopSector = t.lastHopSector
  lastHopOffset : s.lastHopOffset = t.lastHopOffset
  label : s.deviceFd ≠ none → s.deviceLabel = t.deviceLabel

namespace Server.SameSession

variable {s t u : Server}

theorem refl (s : Server) : s.SameSession s :=
  ⟨rfl, rfl, rfl, rfl, rfl, rfl, rfl, fun _ => rfl⟩

theorem symm (h : s.SameSession t) : t.SameSession s :=
  ⟨h.bpb.symm, h.fsData.symm, h.deviceFd.symm, h.dirBuff.symm, h.stack.symm,
    h.lastHopSector.symm, h.lastHopOffset.symm,
    fun hfd => (h.label (by rw [h.deviceFd]; exact hfd)).symm⟩

theorem trans (h : s.SameSession t) (h' : t.SameSession u) : s.SameSession u :=
  ⟨h.bpb.trans h'.bpb, h.fsData.trans h'.fsData, h.deviceFd.trans h'.deviceFd,
    h.dirBuff.trans h'.dirBuff, h.stack.trans h'.stack, h.lastHopSector.trans h'.lastHopSector,
    h.lastHopOffset.trans h'.lastHopOffset,
    fun hfd => (h.label hfd).trans (h'.label (by rw [← h.deviceFd]; exact hfd))⟩

end Server.SameSession

section sessions

variable {s s' t : Server} {out out' : List UInt8} {env : Env} {m : Message} {r : Int}

/-- What a server has behind it. -/
def Server.past (s : Server) : Past :=
  ⟨s.trace, s.scratch.stored, s.out, s.scratch.junk, s.deviceLabel⟩

theorem Server.SameSession.apart (h : s.SameSession t) : s.Apart s.out t.out t := by
  refine ⟨s.past, t.past,
    { s with trace := [], scratch := ⟨fun _ => [], []⟩, out := [] }, ?_, ?_, rfl, rfl, h.label⟩
  · simp [Past.server, Past.drive, Server.past]
  · simp [Past.server, Past.drive, Server.past, h.bpb, h.fsData, h.deviceFd, h.dirBuff, h.stack,
      h.lastHopSector, h.lastHopOffset]

theorem Server.Apart.sameSession (h : s.Apart out out' t) : s.SameSession t := by
  obtain ⟨h, h', core, rfl, rfl, _, _, hlabel⟩ := h
  exact ⟨rfl, rfl, rfl, rfl, rfl, rfl, rfl, hlabel⟩

/-- Both have printed the same since. -/
theorem Server.Apart.out_iff (h : s.Apart out out' t) (text : List UInt8) :
    s.out = out ++ text ↔ t.out = out' ++ text := by
  obtain ⟨h, h', core, rfl, rfl, rfl, rfl, _⟩ := h
  change h.out ++ core.out = h.out ++ text ↔ h'.out ++ core.out = h'.out ++ text
  rw [List.append_right_inj, List.append_right_inj]

/-- A server with nothing mounted is in the session of a freshly initialised one. -/
theorem Reachable.sameSession (hs : Reachable s) (hfd : s.deviceFd = none) (junk : Nat → Name) :
    s.SameSession (Server.initial junk) := by
  have hidle := hs.idle hfd
  exact ⟨hidle.bpb, hidle.fsData, hfd, hidle.dirBuff, hidle.stack, hidle.lastSector,
    hidle.lastOffset, fun h => (h hfd).elim⟩

/-- A mount is answered alike by servers that are in the same session, and starts the same
    one. -/
theorem returns_doMount_of_sameSession (h : s.SameSession t)
    (hret : Returns (doMount env m) s r s') :
    ∃ t', Returns (doMount env m) t r t' ∧ s'.SameSession t' := by
  -- both are compared with the run that checks nothing
  have hself : Couples (CheckedServer.mirror false s.out s.out).trap (doMount env m)
      (⟨s⟩ : CheckedServer false) (doMount env m) s _ :=
    CheckedServer.couples_doMount (Server.SameSession.refl s).apart
  have hother : Couples (CheckedServer.mirror false s.out t.out).trap (doMount env m)
      (⟨s⟩ : CheckedServer false) (doMount env m) t _ := CheckedServer.couples_doMount h.apart
  obtain ⟨_, x, hx, rfl, hs'⟩ := hself.returns (fun _ htrap => nomatch htrap.1) hret
  obtain ⟨_, t', ht', rfl, ht⟩ := hother.visible hx
  exact ⟨t', ht', hs'.sameSession.symm.trans ht.sameSession⟩

theorem label_of_doMount (hfd : s.deviceFd = none) (hcopy : m.copyOk = true)
    (h : Returns (doMount env m) s r s') : s'.deviceLabel = m.text := by
  cases returns_doMount.mp h with
  | already hsome =>
    rw [hfd] at hsome
    cases hsome
  | notCopied _ _ hcopy' =>
    rw [hcopy] at hcopy'
    cases hcopy'
  | notOpened => rfl
  | noBootSector => rfl
  | notSigned => rfl
  | mounted => rfl

/-- Where no uninitialised byte is read, all requests are answered alike by servers that are
    in the same session. -/
theorem returns_mountAndServe_of_sameSession {later : List (Env × Message)} (h : s.SameSession t)
    (hread : ¬ Faults (mountAndServe env m later) (⟨s⟩ : CheckedServer true) .uninitialised)
    (rs : Int × List Int) (text : List UInt8) :
    (∃ s', Returns (mountAndServe env m later) s rs s' ∧ s'.out = s.out ++ text) ↔
      ∃ t', Returns (mountAndServe env m later) t rs t' ∧ t'.out = t.out ++ text := by
  have hself : Couples (CheckedServer.mirror true s.out s.out).trap (mountAndServe env m later)
      (⟨s⟩ : CheckedServer true) (mountAndServe env m later) s _ :=
    CheckedServer.couples_mountAndServe later (Server.SameSession.refl s).apart
  have hother : Couples (CheckedServer.mirror true s.out t.out).trap (mountAndServe env m later)
      (⟨s⟩ : CheckedServer true) (mountAndServe env m later) t _ :=
    CheckedServer.couples_mountAndServe later h.apart
  constructor
  · rintro ⟨s', hret, hout⟩
    obtain ⟨_, x, hx, rfl, hs'⟩ := hself.returns (fun _ htrap => htrap.2 ▸ hread) hret
    obtain ⟨_, t', ht', rfl, ht⟩ := hother.visible hx
    exact ⟨t', ht', (ht.out_iff text).mp ((hs'.out_iff text).mpr hout)⟩
  · rintro ⟨t', hret, hout⟩
    obtain ⟨_, x, hx, rfl, ht⟩ := hother.returns (fun _ htrap => htrap.2 ▸ hread) hret
    obtain ⟨_, s', hs', rfl, hs⟩ := hself.visible hx
    exact ⟨s', hs', (hs.out_iff text).mp ((ht.out_iff text).mpr hout)⟩

/-- **A new mount carries nothing over but the stack memory.**  Whatever requests have come
    before, if they leave nothing mounted, the next mount replies as that of a freshly
    initialised server does and leaves the same state, whatever the stack memory of the two
    holds.  All requests after it are answered with the same replies and texts, if none of
    them has to name an entry that has an extension but no base. -/
theorem mount_carries_nothing_over (hs : Reachable s) (hfd : s.deviceFd = none)
    (junk : Nat → Name) (env : Env) (m : Message) :
    (∀ r s₁, Returns (doMount env m) s r s₁ →
      ∃ s₂, Returns (doMount env m) (Server.initial junk) r s₂ ∧ s₁.SameSession s₂ ∧
        (m.copyOk = true → s₁.deviceLabel = s₂.deviceLabel)) ∧
    (∀ r s₂, Returns (doMount env m) (Server.initial junk) r s₂ →
      ∃ s₁, Returns (doMount env m) s r s₁) ∧
    ∀ later : List (Env × Message),
      ¬ Faults (mountAndServe env m later) (⟨s⟩ : CheckedServer true) .uninitialised →
      ∀ rs text,
        (∃ s', Returns (mountAndServe env m later) s rs s' ∧ s'.out = s.out ++ text) ↔
        ∃ s', Returns (mountAndServe env m later) (Server.initial junk) rs s' ∧
          s'.out = (Server.initial junk).out ++ text := by
  have hsame := hs.sameSession hfd junk
  refine ⟨?_, ?_, fun later hread => returns_mountAndServe_of_sameSession hsame hread⟩
  · intro r s₁ hmount
    obtain ⟨s₂, hmount', hsame₁⟩ := returns_doMount_of_sameSession hsame hmount
    refine ⟨s₂, hmount', hsame₁, fun hcopy => ?_⟩
    rw [label_of_doMount hfd hcopy hmount, label_of_doMount rfl hcopy hmount']
  · intro r s₂ hmount
    obtain ⟨s₁, hmount', _⟩ := returns_doMount_of_sameSession hsame.symm hmount
    exact ⟨s₁, hmount'⟩

end sessions

/-- On the sample volume: mounted, a directory entered, unmounted, and mounted again for an
    ls, of which the stack memory makes nothing else. -/
theorem remount_on_sample : ∃ s, Reachable s ∧ s.deviceFd = none ∧
    ¬ Faults (mountAndServe (diskEnv Sample.volume.dev) mountMessage
      [(diskEnv Sample.volume.dev, textMessage FAT32S_LS (ascii "DIR"))])
      (⟨s⟩ : CheckedServer true) .uninitialised ∧
    ∀ rs text,
      (∃ s', Returns (mountAndServe (diskEnv Sample.volume.dev) mountMessage
        [(diskEnv Sample.volume.dev, textMessage FAT32S_LS (ascii "DIR"))]) s rs s' ∧
        s'.out = s.out ++ text) ↔
      ∃ s', Returns (mountAndServe (diskEnv Sample.volume.dev) mountMessage
        [(diskEnv Sample.volume.dev, textMessage FAT32S_LS (ascii "DIR"))])
        (Server.initial fun _ => ascii ".") rs s' ∧
        s'.out = (Server.initial fun _ => ascii ".").out ++ text := by
  obtain ⟨s, ⟨b₁, hmount, b₂, hcd, _, hunmount, rfl⟩, htest⟩ := exists_served
    (diskEnv Sample.volume.dev) [mountMessage, textMessage FAT32S_CD (ascii "DIR"),
      textMessage FAT32S_UNMOUNT (ascii "/dev/c0d1")] 10
    (fun s => s.deviceFd.isNone &&
      ((mountAndServe (diskEnv Sample.volume.dev) mountMessage
        [(diskEnv Sample.volume.dev, textMessage FAT32S_LS (ascii "DIR"))]).run 10
        (⟨s⟩ : CheckedServer true)).returned fun _ _ => true) (by decide +kernel)
  rw [Bool.and_eq_true, Option.isNone_iff_eq_none] at htest
  obtain ⟨hfd, hstrict⟩ := htest
  have hs : Reachable s := .serve (.serve (.serve (.init _) hmount) hcd) hunmount
  obtain ⟨rs, x, hret, _⟩ := exists_returns _ _ _ _ hstrict
  have hread := fun hfault : Faults _ _ Fault.uninitialised => hfault.not_returns hret
  exact ⟨s, hs, hfd, hread,
    (mount_carries_nothing_over hs hfd (fun _ => ascii ".") _ _).2.2 _ hread⟩

/-- A session with the device is over, and its stack memory holds a dot.  When the device is
    mounted again, an ls does not list what that of a fresh server lists. -/
theorem remount_shows_old_name : ∃ s s' t' welcome,
    Reachable s ∧ s.deviceFd = none ∧
    Returns (mountAndServe (diskEnv Leak.device) mountMessage
      [(diskEnv Leak.device, textMessage FAT32S_LS (ascii "."))]) s (OK, [OK]) s' ∧
    s'.out = s.out ++ (welcome ++ ascii "\n[*].\n\n") ∧
    Returns (mountAndServe (diskEnv Leak.device) mountMessage
      [(diskEnv Leak.device, textMessage FAT32S_LS (ascii "."))])
      (Server.initial fun _ => []) (OK, [OK]) t' ∧
    t'.out = (Server.initial fun _ => []).out ++ (welcome ++ ascii ".TXT\n[*].\n\n") := by
  -- the first mount has printed the same as the second, and the unmount nothing
  obtain ⟨rs, s, hscript, htest⟩ := exists_returns
    (script (diskEnv Leak.device) [mountMessage, textMessage FAT32S_UNMOUNT (ascii "/dev/c0d1")])
    (Server.initial fun _ => ascii ".") 10
    (fun rs s => rs.all (· == OK) && s.deviceFd.isNone &&
      ((mountAndServe (diskEnv Leak.device) mountMessage
        [(diskEnv Leak.device, textMessage FAT32S_LS (ascii "."))]).run 10 s).returned
        (fun rs s' => rs = (OK, [OK]) &&
          s'.out = s.out ++ (s.out.drop 12 ++ ascii "\n[*].\n\n")) &&
      ((mountAndServe (diskEnv Leak.device) mountMessage
        [(diskEnv Leak.device, textMessage FAT32S_LS (ascii "."))]).run 10
        (Server.initial fun _ => [])).returned
        (fun rs t' => rs = (OK, [OK]) && t'.out = (Server.initial fun _ => []).out ++
          (s.out.drop 12 ++ ascii ".TXT\n[*].\n\n"))) (by decide +kernel)
  simp only [Bool.and_eq_true, Option.isNone_iff_eq_none] at htest
  obtain ⟨⟨⟨hok, hfd⟩, hold⟩, hfresh⟩ := htest
  obtain ⟨b, hmount, _, hunmount, rfl⟩ := served_of_script hscript hok
  obtain ⟨_, s', hs', htest⟩ := exists_returns _ _ _ _ hold
  obtain ⟨_, t', ht', htest'⟩ := exists_returns _ _ _ _ hfresh
  simp only [Bool.and_eq_true, decide_eq_true_eq] at htest htest'
  obtain ⟨rfl, hout⟩ := htest
  obtain ⟨rfl, hout'⟩ := htest'
  exact ⟨s, s', t', s.out.drop 12, .serve (.serve (.init _) hmount) hunmount, hfd, hs', hout, ht',
    hout'⟩

end Fat32s
