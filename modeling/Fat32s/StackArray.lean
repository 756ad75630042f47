/-
  Fat32s/StackArray.lean
  ======================
  **The rollback stack in its array.**

  On the plain machine the rollback stack is a list.  In the program it is an array of
  `STACK_SIZE` cells and a pointer, and `stack_push` does not look whether the pointer is
  still inside.  This is the machine with that array, where a push on a full array is a
  fault.

  The two machines do the same as long as three cells are free, which is what a command
  needs at most.  A pwd that gives up leaves two sectors behind, and nothing takes them
  off before the next mount or unmount.  So 62 pwd requests in a session are safe on any
  disk, and once the array is full no command gets beyond its first line.  On sound
  volumes nothing is ever left behind, and the server with the array refines the session
  as the other one does.
-/
import Fat32s.Lib.ArrayStack
import Fat32s.Simulation
import Fat32s.HeldDevice

namespace Fat32s

open Fat32s.Lib Fat32s.Lib.Prog

/-! ### The machine with the array -/

/-- All globals of `fat32.c`, the rollback stack as it lies in memory. -/
structure ArrayServer extends Drive where
  deviceLabel : Name
  stack : ArrayStack UInt32 STACK_SIZE
  lastHopSector : UInt32
  lastHopOffset : Nat
  scratch : Scratch
  out : List UInt8

abbrev ArrayM := Prog Fault ArrayServer

namespace ArrayServer

/-- What the server is when the stack is read as a list. -/
def server (x : ArrayServer) : Server where
  toDrive := x.toDrive
  deviceLabel := x.deviceLabel
  stack := x.stack.toList
  lastHopSector := x.lastHopSector
  lastHopOffset := x.lastHopOffset
  scratch := x.scratch
  out := x.out

/-- The array with the rest of the globals taken from elsewhere. -/
def withServer (s : Server) (x : ArrayServer) : ArrayServer where
  toDrive := s.toDrive
  deviceLabel := s.deviceLabel
  stack := x.stack
  lastHopSector := s.lastHopSector
  lastHopOffset := s.lastHopOffset
  scratch := s.scratch
  out := s.out

def stackPush (sector : UInt32) : ArrayM Unit := do
  let x ← Prog.get
  match x.stack.push sector with
  | none => Prog.fault .outOfBounds
  | some stack => Prog.modify fun x => { x with stack := stack }

def stackPop : ArrayM UInt32 := do
  let x ← Prog.get
  match x.stack.pop with
  | none => Prog.fault .outOfBounds
  | some (sector, stack) => do
    Prog.modify fun x => { x with stack := stack }
    return sector

/-- `memset` of the array, and `sp = 0`. -/
def noStack : ArrayStack UInt32 STACK_SIZE := ⟨Vector.replicate STACK_SIZE 0, 0, Nat.zero_le _⟩

def reset (x : ArrayServer) : ArrayServer := { withServer x.server.reset x with stack := noStack }

instance arrayMachine : Machine ArrayServer where
  onServer p := Prog.zoom server withServer p
  stackPush := stackPush
  stackPop := stackPop
  stackClear := Prog.modify fun x => { x with stack := x.stack.clear }
  getName de name := pure (getName de name)
  malloc _ := pure ()
  free := pure ()
  openDevice label dev := Prog.modify fun x => { x with deviceLabel := label, deviceFd := dev }
  reset := Prog.modify reset

def initial (junk : Nat → Name) : ArrayServer where
  toDrive := (Server.initial junk).toDrive
  deviceLabel := (Server.initial junk).deviceLabel
  stack := noStack
  lastHopSector := (Server.initial junk).lastHopSector
  lastHopOffset := (Server.initial junk).lastHopOffset
  scratch := (Server.initial junk).scratch
  out := (Server.initial junk).out

/-! ### It simulates the plain one -/

variable {α : Type} {lax : Prop} {x : ArrayServer} {env : Env} {m : Message}

theorem sp_server (x : ArrayServer) : x.server.sp = x.stack.sp := x.stack.length_toList

theorem server_withServer {s : Server} (h : s.stack = x.stack.toList) :
    (withServer s x).server = s := by
  simp only [server, withServer, ← h]

/-- A program that leaves the stack alone. -/
theorem couples_onServer {trap : Fault → Prop} {p : ServerM α}
    (hkeeps : ∀ {s s' : Server} {a : α}, Returns p s a s' → s'.stack = s.stack) :
    Couples trap (onServer p) x (onServer p : ServerM α) x.server
      (Same fun x s => x.server = s) := by
  refine .zoom (.refl p x.server) ?_
  rintro a t b s' ⟨rfl, rfl⟩ hret
  exact ⟨rfl, server_withServer (hkeeps hret)⟩

theorem couples_stackPush {trap : Fault → Prop} {sector : UInt32}
    (h : trap .outOfBounds ∨ x.server.sp < STACK_SIZE) :
    Couples trap (stackPush sector) x (Fat32s.stackPush sector) x.server
      (Same fun x s => x.server = s) := by
  rw [sp_server] at h
  refine .get_left ?_
  by_cases hroom : x.stack.sp < STACK_SIZE
  · obtain ⟨stack, hpush, hlist⟩ := x.stack.push_of_room hroom sector
    rw [hpush]
    exact .modify ⟨rfl, by simp only [server, hlist]⟩
  · rw [ArrayStack.push_of_full hroom]
    exact .trapped (h.resolve_right hroom)

theorem couples_stackPop {trap : Fault → Prop} :
    Couples trap stackPop x Fat32s.stackPop x.server (Same fun x s => x.server = s) := by
  refine .get_bind ?_
  cases hlist : x.stack.toList with
  | nil =>
    rw [x.stack.pop_nil hlist]
    simp only [server, hlist]
    exact .fault
  | cons sector rest =>
    obtain ⟨stack, hpop, hrest⟩ := x.stack.pop_cons hlist
    rw [hpop]
    simp only [server, hlist]
    refine .bind (Q := fun _ x _ s => x.server = s) (.modify (by simp only [server, hrest])) ?_
    exact fun h _ => .ret ⟨rfl, h⟩

theorem server_reset (x : ArrayServer) : x.reset.server = x.server.reset := rfl

/-- With `lax`, a push on a full array is no objection: the array may then stop the run. -/
def simulation (lax : Prop) : Simulation ArrayServer where
  trap _ := lax
  room k := lax ∨ k ≤ STACK_SIZE
  memory _ := True
  buf a b := b = a
  rel _ x s := x.server = s
  room_le hle h := h.imp_right hle.trans
  buf_refl _ := rfl
  gone_of_unread h := h
  globals := by
    rintro t x _ rfl
    refine (couples_onServer fun hret => ?_).weaken ?_
    · rw [(returns_get.mp hret).2]
    · rintro a x' b s' ⟨rfl, h⟩ _
      exact ⟨.refl _, h⟩
  onServer := by
    rintro α p t x _ hp rfl
    exact couples_onServer fun hret => (hp.keeps hret).1
  newBuffer := by
    rintro t x _ rfl
    exact couples_onServer fun hret => (quiet_stack _).newBuffer.returns hret rfl
  getName := by
    rintro t x s de a _ h rfl _
    exact .ret ⟨rfl, h⟩
  stackPush := by
    rintro t x _ sector rfl hroom
    exact couples_stackPush hroom
  stackPop := by
    rintro t x _ rfl
    exact couples_stackPop
  stackClear := by
    rintro t x _ rfl
    exact .modify ⟨rfl, by simp only [server, ArrayStack.toList_clear]⟩
  malloc h _ := .ret ⟨rfl, h⟩
  free h := .ret ⟨rfl, h⟩
  openDevice := by
    rintro t x _ label dev rfl _
    exact .modify ⟨rfl, rfl⟩
  reset := by
    rintro t x _ rfl _
    exact .modify ⟨rfl, server_reset _⟩

/-- **With three free cells a request is served as with a list**, and whatever the array
    serves is served so. -/
theorem couples_serve (hroom : lax ∨ x.server.sp + 3 ≤ STACK_SIZE) :
    Couples (fun _ => lax) (serve env m) x (serve env m : ServerM Int) x.server
      (Same fun x s => x.server = s) :=
  (simulation lax).serve (s := x.server) rfl hroom fun _ => trivial

/-- What is served with a list and enough free cells. -/
theorem returns_serve {r : Int} {s' : Server} (hroom : x.server.sp + 3 ≤ STACK_SIZE)
    (h : Returns (serve env m) x.server r s') :
    ∃ x' : ArrayServer, Returns (serve env m) x r x' ∧ x'.server = s' := by
  obtain ⟨_, x', hret, rfl, hx'⟩ := (couples_serve (.inr hroom)).returns (fun _ => False.elim) h
  exact ⟨x', hret, hx'⟩

theorem returns_serve_of_empty {r : Int} {s' : Server} (hempty : x.stack.sp = 0)
    (h : Returns (serve env m) x.server r s') :
    ∃ x' : ArrayServer, Returns (serve env m) x r x' ∧ x'.server = s' := by
  refine returns_serve ?_ h
  rw [sp_server, hempty]
  decide

/-! ### A full array -/

theorem returns_globals (x : ArrayServer) : Returns globals x x.server x :=
  returns_zoom.mpr ⟨x.server, returns_get.mpr ⟨rfl, rfl⟩, rfl⟩

theorem faults_push_then {f : Server → ArrayM α} (hfull : x.stack.sp = STACK_SIZE) :
    Faults (do
      let s ← globals
      Machine.stackPush s.dirBuff.sector
      f s) x .outOfBounds := by
  have hpush : ∀ sector, Faults (stackPush sector) x .outOfBounds := by
    intro sector
    refine faults_bind (returns_get.mpr ⟨rfl, rfl⟩) ?_
    rw [ArrayStack.push_of_full (by rw [hfull]; exact Nat.lt_irrefl _)]
    exact ⟨0, x, rfl⟩
  exact faults_bind x.returns_globals ((hpush _).bind _)

/-- The handlers go on if a device is open. -/
theorem faults_opened {p : ArrayM Int} {f : Server → ArrayM Int} (hfd : x.deviceFd ≠ none)
    (hf : Faults (f x.server) x .outOfBounds) :
    Faults (globals >>= fun s => if s.deviceFd.isNone then p else f s) x .outOfBounds := by
  have hopen : ¬ x.server.deviceFd.isNone = true := fun h => hfd (Option.isNone_iff_eq_none.mp h)
  refine faults_bind x.returns_globals ?_
  rw [if_neg hopen]
  exact hf

/-- And hand the text on once they have it. -/
theorem faults_handler {p : ArrayM Int} {f : Server → Option Name → ArrayM Int}
    (hfd : x.deviceFd ≠ none) (hlen : 0 ≤ m.txtLen.toInt) (hcopy : m.copyOk = true)
    (hf : Faults (f x.server (some m.text)) x .outOfBounds) :
    Faults (globals >>= fun s => if s.deviceFd.isNone then p else getTxt m >>= f s) x
      .outOfBounds := by
  have hget : Returns (getTxt m) x (some m.text) x := by
    refine returns_bind.mpr ⟨(), x, returns_pure.mpr ⟨rfl, rfl⟩, ?_⟩
    refine returns_check_bind.mpr ⟨hlen, ?_⟩
    rw [hcopy]
    exact returns_pure.mpr ⟨rfl, rfl⟩
  exact faults_opened hfd (faults_bind hget hf)

/-- A command that is run on a full array writes behind it. -/
theorem faults_serve {cmd : Command} (hfull : x.stack.sp = STACK_SIZE)
    (hcmd : m.command = some cmd) (hfd : x.deviceFd ≠ none)
    (htext : cmd.readsText = true → 0 ≤ m.txtLen.toInt ∧ m.copyOk = true) :
    Faults (serve env m) x .outOfBounds := by
  have hpwd : Faults doPwd x .outOfBounds := faults_opened hfd ((faults_push_then hfull).bind _)
  have hcd : 0 ≤ m.txtLen.toInt ∧ m.copyOk = true → Faults (doCd m) x .outOfBounds := by
    rintro ⟨hlen, hcopy⟩
    exact faults_handler hfd hlen hcopy ((faults_push_then hfull).bind _)
  have hcommand : ∀ {command : Name → ArrayM Int} {complaint : String},
      (∀ path, Faults (command path) x .outOfBounds) → 0 ≤ m.txtLen.toInt ∧ m.copyOk = true →
      Faults (doCommand command complaint m) x .outOfBounds := by
    rintro command complaint hrun ⟨hlen, hcopy⟩
    exact faults_handler hfd hlen hcopy ((hrun _).bind _)
  unfold Message.command at hcmd
  unfold serve
  split at hcmd
  · rename_i hnr
    rw [hnr]
    exact hpwd
  split at hcmd
  · rename_i hnr
    rw [hnr]
    cases hcmd
    exact hcd (htext rfl)
  split at hcmd
  · rename_i hnr
    rw [hnr]
    cases hcmd
    exact hcommand (fun _ => faults_push_then hfull) (htext rfl)
  split at hcmd
  · rename_i hnr
    rw [hnr]
    cases hcmd
    exact hcommand (fun _ => faults_push_then hfull) (htext rfl)
  split at hcmd
  · rename_i hnr
    rw [hnr]
    cases hcmd
    exact hcommand (fun _ => faults_push_then hfull) (htext rfl)
  · cases hcmd

end ArrayServer

/-! ### What is left on the stack -/

section depth

variable {s s' : Server} {env : Env} {m : Message} {r : Int}

theorem command_sp {cmd : Command} {status : Int} (h : Returns cmd.run s status s') :
    s'.sp = s.sp ∨ (cmd = .pwd ∧ s'.sp = s.sp + 2) := by
  cases cmd with
  | pwd =>
    rcases pwd_cases h with ⟨_, hback⟩ | ⟨_, hsp⟩
    · exact .inl (congrArg List.length hback.stack)
    · exact .inr ⟨rfl, hsp⟩
  | cd path => exact .inl (congrArg List.length (cd_cases h).stack)
  | ls path => exact .inl (congrArg List.length (ls_cases h).stack)
  | cat path => exact .inl (congrArg List.length (cat_cases h).stack)
  | stat path => exact .inl (congrArg List.length (stat_cases h).stack)

/-- The pwd requests since the last mount or unmount. -/
def pwdsStep (n : Nat) (x : (Env × Message) × Int) : Nat :=
  if x.2 = OK ∧ (x.1.2.callnr = FAT32S_MOUNT ∨ x.1.2.callnr = FAT32S_UNMOUNT) then 0
  else if x.1.2.callnr = FAT32S_PWD then n + 1
  else n

def pwds (hist : List ((Env × Message) × Int)) : Nat := hist.foldl pwdsStep 0

theorem callnr_of_command {cmd : Command} (h : m.command = some cmd) :
    m.callnr ≠ FAT32S_MOUNT ∧ m.callnr ≠ FAT32S_UNMOUNT ∧
      (cmd = .pwd → m.callnr = FAT32S_PWD) := by
  unfold Message.command at h
  grind [FAT32S_MOUNT, FAT32S_UNMOUNT, FAT32S_PWD, FAT32S_CD, FAT32S_LS, FAT32S_CAT, FAT32S_STAT]

/-- Every pwd request leaves at most two sectors. -/
theorem sp_of_serve {n : Nat} (hsp : s.sp ≤ 2 * n) (h : Returns (serve env m) s r s') :
    s'.sp ≤ 2 * pwdsStep n ((env, m), r) := by
  have hkeep : s.sp ≤ 2 * pwdsStep n ((env, m), r) ∨
      (r = OK ∧ (m.callnr = FAT32S_MOUNT ∨ m.callnr = FAT32S_UNMOUNT)) := by
    unfold pwdsStep
    split
    · next hclear => exact .inr hclear
    · split
      · exact .inl (by omega)
      · exact .inl hsp
  cases hcmd : m.command with
  | some cmd =>
    obtain ⟨hmount, hunmount, hpwd⟩ := callnr_of_command hcmd
    have hstep : pwdsStep n ((env, m), r) = if m.callnr = FAT32S_PWD then n + 1 else n := by
      rw [pwdsStep, if_neg (by simp [hmount, hunmount])]
    replace hkeep : s.sp ≤ 2 * pwdsStep n ((env, m), r) := by
      rcases hkeep with hkeep | ⟨_, hcall | hcall⟩
      · exact hkeep
      · exact (hmount hcall).elim
      · exact (hunmount hcall).elim
    cases serve_answered hcmd h with
    | refused text => exact hkeep
    | @ran status s₁ text _ hrun =>
      change s₁.sp ≤ _
      rcases command_sp hrun with hsame | ⟨hcmdpwd, hmore⟩
      · exact hsame.trans_le hkeep
      · rw [hstep, if_pos (hpwd hcmdpwd)]
        omega
  | none =>
    cases outcome_of_serve h with
    | refused text _ hne =>
      rcases hkeep with hkeep | ⟨hr, _⟩
      · exact hkeep
      · exact (hne hr).elim
    | ran hcmd' _ => rw [hcmd] at hcmd'; cases hcmd'
    | unmounted => exact Nat.zero_le _
    | mount hcall hmount =>
      cases hmount with
      | mounted => exact Nat.zero_le _
      | _ =>
        rcases hkeep with hkeep | ⟨hr, _⟩
        · exact hkeep
        · cases hr

end depth

namespace ArrayServer

variable {x : ArrayServer}

def step (x : ArrayServer) (q : Env × Message) (r : Int) (x' : ArrayServer) : Prop :=
  Returns (serve q.1 q.2) x r x'

/-- **The rollback stack holds on any disk for 62 pwd requests**, successful or not.  A run
    of the server with the array is a run of the other one, on which at most two cells are in use
    for each pwd since the last mount or unmount.  While there were at most 62 of them, the next
    request, whatever it is, ends as it does with a list.  On a full array any command
    that is run is out of bounds at once. -/
theorem stack_array_holds {junk : Nat → Name} {hist : List ((Env × Message) × Int)}
    (hrun : Serves step (initial junk) hist x) :
    Serves Server.serves (Server.initial junk) hist x.server ∧ x.stack.sp ≤ 2 * pwds hist ∧
    ∀ env m,
      (pwds hist ≤ 62 →
        (∀ r s', Returns (serve env m) x.server r s' →
          ∃ x', Returns (serve env m) x r x' ∧ x'.server = s') ∧
        ∀ e, Faults (serve env m) x e ↔ Faults (serve env m) x.server e) ∧
      (x.stack.sp = STACK_SIZE → x.deviceFd ≠ none → ∀ cmd, m.command = some cmd →
        (cmd.readsText = true → 0 ≤ m.txtLen.toInt ∧ m.copyOk = true) →
        Faults (serve env m) x .outOfBounds) := by
  have hinv : Serves Server.serves (Server.initial junk) hist x.server ∧
      x.server.sp ≤ 2 * pwds hist := by
    induction hrun with
    | none => exact ⟨.none, Nat.le_refl 0⟩
    | @more hist x₁ x₂ q r _ hstep ih =>
      -- whether there was room or not, a request that was answered is one of the other server
      have hserve : Server.serves x₁.server q r x₂.server := by
        obtain ⟨_, _, hserve, rfl, rfl⟩ := (couples_serve (.inl trivial)).visible hstep
        exact hserve
      refine ⟨ih.1.more hserve, ?_⟩
      rw [pwds, List.foldl_append]
      exact sp_of_serve ih.2 hserve
  refine ⟨hinv.1, x.sp_server ▸ hinv.2, fun env m => ⟨fun hpwds => ?_, ?_⟩⟩
  · have hroom : x.server.sp + 3 ≤ STACK_SIZE := by
      have hsp := hinv.2
      change _ ≤ 128
      omega
    refine ⟨fun r s' h => returns_serve hroom h, fun e => ?_⟩
    exact (couples_serve (.inr hroom)).faults_iff fun _ => False.elim
  · intro hfull hfd cmd hcmd htext
    exact faults_serve hfull hcmd hfd htext

/-- A mount and a pwd of the sample volume. -/
theorem stack_array_holds_on_sample : ∃ hist x,
    hist.map (·.1.2) = [mountMessage, textMessage FAT32S_PWD []] ∧
    Serves step (initial fun _ => []) hist x ∧ pwds hist = 1 ∧ x.stack.sp ≤ 2 ∧
    Serves Server.serves (Server.initial fun _ => []) hist x.server := by
  obtain ⟨s, hmount, _, hstack⟩ := Sample.mounted fun _ => []
  obtain ⟨r, s', hpwd, htest⟩ := Sample.returns_mounted
    (serve (diskEnv Sample.volume.dev) (textMessage FAT32S_PWD [])) 10
    (fun _ r _ => r = OK) (by decide +kernel) hmount
  have hr : r = OK := of_decide_eq_true htest
  subst hr
  have hserve : Returns (serve (diskEnv Sample.volume.dev) mountMessage)
      (initial fun _ => []).server OK s := hmount
  obtain ⟨x₁, hmount', hx₁⟩ := returns_serve_of_empty rfl hserve
  have hsp : x₁.stack.sp = 0 := by
    rw [← sp_server, hx₁, Server.sp, hstack]
    rfl
  rw [← hx₁] at hpwd
  obtain ⟨x₂, hpwd', _⟩ := returns_serve_of_empty hsp hpwd
  have hrun : Serves step (initial fun _ => [])
      [((diskEnv Sample.volume.dev, mountMessage), OK),
        ((diskEnv Sample.volume.dev, textMessage FAT32S_PWD []), OK)] x₂ :=
    (Serves.one hmount').append (Serves.one hpwd')
  obtain ⟨hserves, hbound, _⟩ := stack_array_holds hrun
  exact ⟨_, x₂, rfl, hrun, rfl, hbound, hserves⟩

/-! ### Sound volumes -/

/-- As seen by the client and on the console. -/
def answers (x : ArrayServer) (q : Request) (a : Heard) (x' : ArrayServer) : Prop :=
  Returns (serve q.env q.msg) x a.code x' ∧ x'.out = x.out ++ a.text

/-- With nothing mounted, nothing new is left on the stack. -/
theorem sp_of_idle {s s' : Server} {env : Env} {m : Message} {r : Int} (hsp : s.sp = 0)
    (h : Returns (serve env m) s r s') (hidle : s'.deviceFd = none) : s'.sp = 0 := by
  cases hcmd : m.command with
  | some cmd =>
    cases serve_answered hcmd h with
    | refused text => exact hsp
    | ran text hfd hrun => exact (hfd ((command_sameMount hrun).deviceFd.symm.trans hidle)).elim
  | none =>
    have hle := sp_of_serve (n := 0) (Nat.le_of_eq hsp) h
    have hpwd : m.callnr ≠ FAT32S_PWD := by
      intro hcall
      rw [Message.command, if_pos hcall] at hcmd
      cases hcmd
    have hzero : pwdsStep 0 ((env, m), r) = 0 := by simp [pwdsStep, hpwd]
    rw [hzero] at hle
    exact Nat.le_zero.mp hle

theorem refines_answers : Refines answers Session.step Request.Legal fun σ x =>
    Represents σ x.server ∧ x.stack.sp = 0 := by
  apply Refines.of_det
  · intro x x₁ x₂ q a b h₁ h₂
    obtain ⟨hcode, rfl⟩ := h₁.1.unique h₂.1
    exact ⟨Heard.eq_of_out hcode h₁.2 h₂.2, rfl⟩
  · rintro σ x q ⟨h, hsp⟩ hq
    obtain ⟨s', hret, hout, hrep⟩ := follows_serve hq h
    obtain ⟨x', hret', rfl⟩ := returns_serve_of_empty hsp hret
    refine ⟨x', ⟨hret', hout⟩, hrep, ?_⟩
    rw [← sp_server] at hsp ⊢
    generalize (σ.serve q.volumes q.closeOk q.msg).session = σ' at hrep
    cases hrep with
    | idle hfd _ => exact sp_of_idle hsp hret hfd
    | mounted _ _ _ hstack _ => exact congrArg List.length hstack

/-- **The server with the array refines a file system with a session**, for as many requests
    as one likes. -/
theorem array_server_refines_file_systems (junk : Nat → Name) (qs : List Request)
    (hlegal : ∀ q ∈ qs, q.Legal) :
    (∃ h x, h.map (·.1) = qs ∧ Serves answers (initial junk) h x) ∧
    ∀ h x, h.map (·.1) = qs → Serves answers (initial junk) h x →
      x.stack.sp = 0 ∧ ∃ σ, Serves (Computes Session.step) .idle h σ ∧ Represents σ x.server := by
  have hstart : Represents .idle (initial junk).server ∧ (initial junk).stack.sp = 0 :=
    ⟨represents_initial junk, rfl⟩
  constructor
  · obtain ⟨h, x, _, hqs, hrun, _⟩ := refines_answers.serves qs hstart hlegal
    exact ⟨h, x, hqs, hrun⟩
  · intro h x hqs hrun
    have hlegal' : ∀ y ∈ h, y.1.Legal := by
      intro y hy
      apply hlegal
      rw [← hqs]
      exact List.mem_map_of_mem hy
    obtain ⟨σ, hspec, hrep, hsp⟩ := refines_answers.history hstart hlegal' hrun
    exact ⟨hsp, σ, hspec, hrep⟩

theorem array_server_refines_sample : ∃ h x σ,
    h.map (·.1) = [Sample.request mountMessage,
      Sample.request (textMessage FAT32S_CAT (ascii "DIR/B.TXT"))] ∧
    Serves answers (initial fun _ => []) h x ∧ x.stack.sp = 0 ∧
    Serves (Computes Session.step) .idle h σ ∧ Represents σ x.server := by
  obtain ⟨⟨h, x, hqs, hrun⟩, hall⟩ := array_server_refines_file_systems (fun _ => []) _
    Sample.legal_mount_cat
  obtain ⟨hsp, σ, hspec, hrep⟩ := hall h x hqs hrun
  exact ⟨h, x, σ, hqs, hrun, hsp, hspec, hrep⟩

end ArrayServer

end Fat32s
