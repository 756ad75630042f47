/-
  Fat32s/Clients.lean
  ===================
  **The server and its clients** (`main.c`, `lib/libsys/fat32s.c`).

  A client calls one of the `fat32_*` functions, which builds a message and blocks in
  `ipc_sendrec` until a reply comes.  The main loop of the server takes up one message
  at a time, dispatches it and replies to its source; it keeps silent only if the result
  is `EDONTREPLY`, which no handler returns.

  There is one session for all clients, and any of them can change its directory or
  unmount the volume.  But however their steps interleave, the requests are served one
  by one: the clients see one history of the session of `Sessions`, each of them its own
  part of it, and no client is left without a reply.
-/
import Fat32s.Recovery

namespace Fat32s

open Fat32s.Lib Fat32s.Lib.Prog
open Relation (ReflTransGen)

/-! ### main.c -/

def EDONTREPLY : Int := -201

/-- What the kernel answers in a round of the main loop: the status of `sef_receive`, and
    that of `ipc_send`. -/
structure Ipc where
  received : Int
  sent : Int

/-- `panic` ends the server as a failed assertion does. -/
def getWork (ipc : Ipc) (m : Message) : ServerM Message := do
  Prog.check (ipc.received = OK) .assertion
  return m

def reply (ipc : Ipc) (whom : UInt32) : ServerM Unit :=
  if ipc.sent ≠ OK then
    print (ascii "FAT32S: unable to send reply to " ++ decimal whom ++
      line ": " (ascii (toString ipc.sent)) "\n")
  else
    pure ()

/-- One round of the main loop: the endpoint that is replied to, and the reply. -/
def mainRound (env : Env) (ipc : Ipc) (m : Message) : ServerM (Option (UInt32 × Int)) := do
  let m ← getWork ipc m
  let result ← serve env m
  if result ≠ EDONTREPLY then
    reply ipc m.source
    return some (m.source, result)
  else
    return none

variable {s s' : Server} {σ : Session UInt32} {env : Env} {ipc : Ipc} {m : Message}

/-- What a round prints besides the text of the request. -/
def Ipc.complaint (ipc : Ipc) (whom : UInt32) : List UInt8 :=
  if ipc.sent ≠ OK then
    ascii "FAT32S: unable to send reply to " ++ decimal whom ++
      line ": " (ascii (toString ipc.sent)) "\n"
  else
    []

theorem Ipc.shown_complaint (ipc : Ipc) (whom : UInt32) :
    shown (ipc.complaint whom) = ipc.complaint whom := by
  unfold complaint
  split
  · rw [shown_append, shown_append, shown_ascii (by decide), shown_decimal,
      shown_line (by decide) (by decide), shown_ascii (plain_toString_int _)]
  · rfl

theorem returns_reply {whom : UInt32} {u : Unit} :
    Returns (reply ipc whom) s u s' ↔ s' = s.say (ipc.complaint whom) := by
  unfold reply Ipc.complaint
  split
  · exact returns_print
  · rw [Server.say_nil]
    simp

/-- Every round that ends has replied to the source of its message, with the result of the
    request. -/
theorem returns_mainRound {o : Option (UInt32 × Int)} :
    Returns (mainRound env ipc m) s o s' ↔ ipc.received = OK ∧
      ∃ r s₁, Returns (serve env m) s r s₁ ∧ o = some (m.source, r) ∧
        s' = s₁.say (ipc.complaint m.source) := by
  have hloud : ∀ {r : Int} {s₁ : Server}, Returns (serve env m) s r s₁ → r ≠ EDONTREPLY := by
    intro r s₁ h hr
    have hreply := (outcome_of_serve h).reply
    rw [hr] at hreply
    exact absurd hreply (by decide)
  unfold mainRound getWork
  simp only [returns_bind, returns_check, returns_pure]
  constructor
  · rintro ⟨_, _, ⟨_, _, ⟨hok, rfl⟩, rfl, rfl⟩, r, s₁, hserve, h⟩
    rw [if_pos (hloud hserve)] at h
    obtain ⟨_, s₂, hreply, hret⟩ := returns_bind.mp h
    obtain ⟨rfl, rfl⟩ := returns_pure.mp hret
    exact ⟨hok, r, s₁, hserve, rfl, returns_reply.mp hreply⟩
  · rintro ⟨hok, r, s₁, hserve, rfl, rfl⟩
    refine ⟨m, s, ⟨(), s, ⟨hok, rfl⟩, rfl, rfl⟩, r, s₁, hserve, ?_⟩
    rw [if_pos (hloud hserve)]
    exact returns_bind.mpr ⟨(), _, returns_reply.mpr rfl, returns_pure.mpr ⟨rfl, rfl⟩⟩

/-! ### The client library -/

/-- A string of C in the memory of a client. -/
structure CString where
  bytes : Name
  no_zero : ∀ ch ∈ bytes, ch ≠ 0

def CString.strlen (text : CString) : Nat := text.bytes.length

/-- A message with the location and the length of the text. -/
def textCall (callnr who : UInt32) (copyOk : Bool) (text : CString) : Message where
  source := who
  callnr := callnr
  txtLen := Int32.ofNat text.strlen
  txt i := text.bytes.getD i 0
  copyOk := copyOk

def fat32Mount := textCall FAT32S_MOUNT
def fat32Unmount := textCall FAT32S_UNMOUNT
def fat32Cd := textCall FAT32S_CD
def fat32Ls := textCall FAT32S_LS
def fat32Cat := textCall FAT32S_CAT
def fat32Stat := textCall FAT32S_STAT

/-- The message is zero but for its type. -/
def fat32Pwd (who : UInt32) (copyOk : Bool) : Message where
  source := who
  callnr := FAT32S_PWD
  txtLen := 0
  txt _ := 0
  copyOk := copyOk

/-- A call of the library. -/
inductive Call where
  | mount (drive : CString)
  | unmount (drive : CString)
  | pwd
  | cd (path : CString)
  | ls (path : CString)
  | cat (path : CString)
  | stat (path : CString)

def Call.message (who : UInt32) (copyOk : Bool) : Call → Message
  | .mount drive => fat32Mount who copyOk drive
  | .unmount drive => fat32Unmount who copyOk drive
  | .pwd => fat32Pwd who copyOk
  | .cd path => fat32Cd who copyOk path
  | .ls path => fat32Ls who copyOk path
  | .cat path => fat32Cat who copyOk path
  | .stat path => fat32Stat who copyOk path

/-- The text handed over with the call. -/
def Call.text : Call → Name
  | .mount text | .unmount text | .cd text | .ls text | .cat text | .stat text => text.bytes
  | .pwd => []

/-- The server finds the text that the client passed. -/
theorem Call.message_text (call : Call) (who : UInt32) (copyOk : Bool)
    (hlen : call.text.length < 2 ^ 31) :
    (call.message who copyOk).txtLen.toInt = call.text.length ∧
      (call.message who copyOk).text = call.text := by
  have htext : ∀ callnr (text : CString), text.bytes.length < 2 ^ 31 →
      (textCall callnr who copyOk text).txtLen.toInt = text.bytes.length ∧
        (textCall callnr who copyOk text).text = text.bytes := by
    intro callnr text hlen
    exact ⟨textMessage_len callnr hlen, textMessage_text callnr hlen text.no_zero⟩
  cases call with
  | pwd => exact ⟨rfl, rfl⟩
  | mount text => exact htext _ text hlen
  | unmount text => exact htext _ text hlen
  | cd text => exact htext _ text hlen
  | ls text => exact htext _ text hlen
  | cat text => exact htext _ text hlen
  | stat text => exact htext _ text hlen

/-- What the library leaves to its caller: the length of a text fits an `int`, a label
    `device_label`, and the path of a cat is not empty. -/
structure Call.Sane (call : Call) : Prop where
  len : call.text.length < 2 ^ 31
  label : ∀ drive, call = .mount drive → drive.bytes.length < MAX_DEVICE_LABEL
  path : ∀ path, call = .cat path → path.bytes ≠ []

/-- The request that a call comes to. -/
def Call.request (who : UInt32) (copyOk : Bool) (disks : Name → Option Disk) (closeOk : Bool)
    (call : Call) : Request := ⟨call.message who copyOk, disks, closeOk⟩

theorem Call.Sane.legal {call : Call} (h : call.Sane) (who : UInt32) (copyOk : Bool)
    (disks : Name → Option Disk) (closeOk : Bool) :
    (call.request who copyOk disks closeOk).Legal := by
  obtain ⟨hlen, htext⟩ := call.message_text who copyOk h.len
  constructor
  · change 0 ≤ (call.message who copyOk).txtLen.toInt
    rw [hlen]
    exact Int.natCast_nonneg _
  · intro hcall
    change (call.message who copyOk).text.length < MAX_DEVICE_LABEL
    rw [htext]
    cases call with
    | mount drive => exact h.label drive rfl
    | _ => cases hcall
  · intro path hcmd
    cases call with
    | cat path' =>
      have hpath : some (Command.cat (fat32Cat who copyOk path').text) = some (.cat path) := hcmd
      injection hpath with hpath
      injection hpath with hpath
      change (fat32Cat who copyOk path').text = path'.bytes at htext
      rw [← hpath, htext, cstr_eq_self path'.no_zero]
      exact h.path path' rfl
    | _ => cases hcmd

/-! ### Clients beside each other -/

def Request.sender (q : Request) : UInt32 := q.msg.source

/-- A round of the main loop, as a step of a service.  Receiving succeeds; sending fails
    with some error where the client is gone.  The answer has the text that is printed for
    the request, without the complaint about the reply. -/
def Server.round (s : Server) (q : Request) (delivered : Bool) (o : Option (UInt32 × Heard))
    (s' : Server) : Prop :=
  ∃ ipc answer text, ipc.received = OK ∧ (delivered = true ↔ ipc.sent = OK) ∧
    Returns (mainRound q.env ipc q.msg) s answer s' ∧
    s'.out = s.out ++ text ++ ipc.complaint q.sender ∧
    o = answer.map fun x => (x.1, ⟨x.2, text⟩)

theorem round_iff {q : Request} {delivered : Bool} {o : Option (UInt32 × Heard)} :
    s.round q delivered o s' ↔ ∃ (ipc : Ipc) (a : Heard) (s₁ : Server), ipc.received = OK ∧
      (delivered = true ↔ ipc.sent = OK) ∧ o = some (q.sender, a) ∧ s.step q a s₁ ∧
      s' = s₁.say (ipc.complaint q.sender) := by
  unfold Server.round
  simp only [returns_mainRound]
  constructor
  · rintro ⟨ipc, _, text, hok, hsent, ⟨_, r, s₁, hserve, rfl, rfl⟩, hout, rfl⟩
    rw [Server.say, ipc.shown_complaint] at hout
    exact ⟨ipc, ⟨r, text⟩, s₁, hok, hsent, rfl, ⟨hserve, List.append_cancel_right hout⟩, rfl⟩
  · rintro ⟨ipc, a, s₁, hok, hsent, rfl, ⟨hserve, hout⟩, rfl⟩
    refine ⟨ipc, _, a.text, hok, hsent, ⟨hok, a.code, s₁, hserve, rfl, rfl⟩, ?_, rfl⟩
    rw [← hout, Server.say, ipc.shown_complaint]

theorem replies_round : Replies Server.round Request.sender where
  to_sender h := by
    obtain ⟨_, a, _, _, _, ho, _⟩ := round_iff.mp h
    exact ⟨a, ho⟩

/-- Whether its replies arrive makes no difference to the session. -/
theorem refines_round (delivered : Bool) : Refines (answering Server.round Request.sender delivered)
    Session.step Request.Legal Represents where
  sound hR hq hround := by
    obtain ⟨ipc, a, s₁, _, _, ho, hstep, rfl⟩ := round_iff.mp hround
    injection ho with ho
    injection ho with _ ho
    obtain ⟨hspec, hR'⟩ := refines_step.sound hR hq hstep
    rw [ho]
    exact ⟨hspec, hR'.say _⟩
  live hR hq := by
    obtain ⟨a, s', hstep⟩ := refines_step.live hR hq
    refine ⟨a, _, round_iff.mpr ⟨⟨OK, if delivered then OK else EINVAL⟩, a, s', rfl, ?_, rfl,
      hstep, rfl⟩⟩
    cases delivered <;> decide

/-- **All clients see one session.**  Whatever clients send to a fresh server, in whatever
    order they send, the server receives and replies, and whichever of them are killed
    meanwhile: no request is lost, answered twice or answered to another client; the
    replies and the printed texts are those of one session that serves the requests one
    after the other; and from any point on, every client that is blocked can get its
    reply. -/
theorem clients_see_one_session (junk : Nat → Name) {n : Net UInt32 Server Request Heard}
    (hsteps : ReflTransGen (Net.Step Server.round Request.sender Request.Legal)
      (Net.start (Server.initial junk)) n) :
    n.Sound Request.sender Request.Legal ∧
    (∃ σ, Serves (Computes Session.step) .idle n.served σ ∧ Represents σ n.server) ∧
    ∀ c, n.phase c ≠ .gone →
      ∃ n', ReflTransGen (Net.Step Server.round Request.sender Request.Legal) n n' ∧
        n'.phase c = .ready :=
  Refines.clients refines_round replies_round (represents_initial junk) hsteps

/-- The ls of a second client, on the sample volume. -/
def Sample.lsOfSecond : Request :=
  (Call.ls ⟨ascii "DIR", by decide +kernel⟩).request 2 true (fun _ => some Sample.disk) true

theorem Sample.legal_lsOfSecond : lsOfSecond.Legal :=
  Call.Sane.legal ⟨by decide, fun _ h => (by cases h), fun _ h => (by cases h)⟩ _ _ _ _

/-- The first client mounts the sample volume; the second has sent an ls meanwhile and is
    killed while the server works on it. -/
theorem clients_on_sample : ∃ n : Net UInt32 Server Request Heard,
    n.served.map (·.1) = [Sample.request mountMessage, Sample.lsOfSecond] ∧
    n.phase 1 = .ready ∧ n.phase 2 = .gone ∧ (n.told 1).map (·.1) = n.asked 1 ∧
    n.Sound Request.sender Request.Legal ∧
    ∃ σ, Serves (Computes Session.step) .idle n.served σ ∧ Represents σ n.server := by
  have hR := represents_initial fun _ => []
  obtain ⟨a₁, s₁, hmount⟩ := (refines_round true).live hR Sample.legal_mount
  obtain ⟨_, hR₁⟩ := (refines_round true).sound hR Sample.legal_mount hmount
  obtain ⟨a₂, s₂, hls⟩ := (refines_round false).live hR₁ Sample.legal_lsOfSecond
  have hsent : ReflTransGen (Net.Step Server.round Request.sender Request.Legal)
      (Net.start (Server.initial fun _ => [])) _ :=
    (ReflTransGen.refl.tail (.send rfl Sample.legal_mount)).tail (.send rfl Sample.legal_lsOfSecond)
  have hmounted := (hsent.tail (.receive (c := 1) rfl rfl)).tail (.reply rfl hmount rfl)
  have hkilled := (hmounted.tail (.receive (c := 2) rfl rfl)).tail (.leave (c := 2))
  have hsteps := hkilled.tail (.undelivered rfl hls rfl)
  obtain ⟨hsound, hsession, _⟩ := clients_see_one_session _ hsteps
  exact ⟨_, rfl, rfl, rfl, rfl, hsound, hsession⟩

end Fat32s
