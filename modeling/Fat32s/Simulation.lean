/-
  Fat32s/Simulation.lean
  ======================
  **The server on two machines.**

  A machine simulates the plain one if each of its operations does what the plain one
  does, or stops the run with a fault that it may make on its own account.  Then it serves
  every request as the plain machine does: each function is taken through once, whatever
  the machine.

  A simulation says what it asks for: `room` for so many sectors on the rollback stack,
  and `memory` for the text of a request.  It follows that text, which some handlers free
  and some do not.  It may let the uninitialised buffers of the two machines differ, if
  `get_name` still gives the same names; a mount or unmount needs no names (`Mirror`).
-/
import Fat32s.Steady
import Fat32s.TextBuffers

namespace Fat32s

open Fat32s.Lib Fat32s.Lib.Prog

/-- What has become of the text of the request that is served. -/
inductive Text where
  | unread
  | held (size : Nat)
  | gone

/-- The two servers agree in what the functions read from the globals. -/
structure Server.Alike (a b : Server) : Prop where
  bpb : a.bpb = b.bpb
  fsData : a.fsData = b.fsData
  deviceFd : a.deviceFd = b.deviceFd
  dirBuff : a.dirBuff = b.dirBuff
  label : b.deviceFd ≠ none → a.deviceLabel = b.deviceLabel

theorem Server.Alike.refl (s : Server) : s.Alike s := ⟨rfl, rfl, rfl, rfl, fun _ => rfl⟩

/-- The same result, and states that are related. -/
def Same {τ α : Type} (R : τ → Server → Prop) (a : α) (x : τ) (b : α) (s : Server) : Prop :=
  b = a ∧ R x s

/-- A simulation of the operations, but for `get_name`. -/
structure Mirror (τ : Type) [Machine τ] where
  trap : Fault → Prop
  room : Nat → Prop
  memory : Nat → Prop
  /-- What an uninitialised buffer may hold on the two machines. -/
  buf : Name → Name → Prop
  rel : Text → τ → Server → Prop
  room_le : ∀ {k l : Nat}, k ≤ l → room l → room k
  buf_refl : ∀ name, buf name name
  gone_of_unread : ∀ {x : τ} {s : Server}, rel .unread x s → rel .gone x s
  globals : ∀ {t : Text} {x : τ} {s : Server}, rel t x s →
    Couples trap globals x (globals : ServerM Server) s fun a x' b s' => a.Alike b ∧ rel t x' s'
  onServer : ∀ {α : Type} {p : ServerM α} {t : Text} {x : τ} {s : Server}, Steady p → rel t x s →
    Couples trap (onServer p) x (onServer p : ServerM α) s (Same (rel t))
  newBuffer : ∀ {t : Text} {x : τ} {s : Server}, rel t x s →
    Couples trap (Fat32s.onServer Fat32s.newBuffer) x
      (Fat32s.onServer Fat32s.newBuffer : ServerM Name) s
      fun a x' b s' => buf a b ∧ rel t x' s'
  stackPush : ∀ {t : Text} {x : τ} {s : Server} {sector : UInt32}, rel t x s → room (s.sp + 1) →
    Couples trap (Machine.stackPush sector) x (Machine.stackPush sector : ServerM Unit) s
      (Same (rel t))
  stackPop : ∀ {t : Text} {x : τ} {s : Server}, rel t x s →
    Couples trap Machine.stackPop x (Machine.stackPop : ServerM UInt32) s (Same (rel t))
  stackClear : ∀ {t : Text} {x : τ} {s : Server}, rel t x s →
    Couples trap Machine.stackClear x (Machine.stackClear : ServerM Unit) s (Same (rel t))
  malloc : ∀ {x : τ} {s : Server} {n : Nat}, rel .unread x s → memory n →
    Couples trap (Machine.malloc n) x (Machine.malloc n : ServerM Unit) s (Same (rel (.held n)))
  free : ∀ {x : τ} {s : Server} {n : Nat}, rel (.held n) x s →
    Couples trap Machine.free x (Machine.free : ServerM Unit) s (Same (rel .gone))
  openDevice : ∀ {t : Text} {x : τ} {s : Server} {label : Name} {dev : Option Device},
    rel t x s → s.deviceFd = none →
    Couples trap (Machine.openDevice label dev) x (Machine.openDevice label dev : ServerM Unit) s
      (Same (rel t))
  reset : ∀ {t : Text} {x : τ} {s : Server}, rel t x s → s.deviceFd ≠ none →
    Couples trap Machine.reset x (Machine.reset : ServerM Unit) s (Same (rel t))

/-! ### What becomes of the text -/

/-- The requests whose text is never freed, with a device open or none: a mount that
    cannot use the device, a cd that fails, and an ls, cat or stat that is run. -/
def Leaks (mounted : Bool) (m : Message) (r : Int) : Prop :=
  m.copyOk = true ∧
    (m.callnr = FAT32S_MOUNT ∧ mounted = false ∧ r ≠ OK ∨
      m.callnr = FAT32S_CD ∧ mounted = true ∧ r ≠ OK ∨
      m.callnr ∈ [FAT32S_LS, FAT32S_CAT, FAT32S_STAT] ∧ mounted = true)

instance decidableLeaks (mounted : Bool) (m : Message) (r : Int) : Decidable (Leaks mounted m r) :=
  inferInstanceAs (Decidable (_ ∧ _))

def textAfter (mounted : Bool) (m : Message) (r : Int) : Text :=
  if Leaks mounted m r then .held m.allocated else .gone

section leaks

variable {mounted : Bool} {m : Message} {r : Int}

theorem leaks_mount_iff (hcall : m.callnr = FAT32S_MOUNT) :
    Leaks mounted m r ↔ m.copyOk = true ∧ mounted = false ∧ r ≠ OK := by
  simp [Leaks, hcall, FAT32S_MOUNT, FAT32S_CD, FAT32S_LS, FAT32S_CAT, FAT32S_STAT]

theorem leaks_cd_iff (hcall : m.callnr = FAT32S_CD) :
    Leaks mounted m r ↔ m.copyOk = true ∧ mounted = true ∧ r ≠ OK := by
  simp [Leaks, hcall, FAT32S_MOUNT, FAT32S_CD, FAT32S_LS, FAT32S_CAT, FAT32S_STAT]

theorem leaks_command_iff (hcall : m.callnr ∈ [FAT32S_LS, FAT32S_CAT, FAT32S_STAT]) :
    Leaks mounted m r ↔ m.copyOk = true ∧ mounted = true := by
  have hmount : m.callnr ≠ FAT32S_MOUNT := by
    rintro h
    rw [h] at hcall
    exact absurd hcall (by decide)
  have hcd : m.callnr ≠ FAT32S_CD := by
    rintro h
    rw [h] at hcall
    exact absurd hcall (by decide)
  simp only [Leaks, hmount, hcd, hcall, false_and, false_or, true_and]

theorem not_leaks (hmount : m.callnr ≠ FAT32S_MOUNT) (hcd : m.callnr ≠ FAT32S_CD)
    (hcall : m.callnr ∉ [FAT32S_LS, FAT32S_CAT, FAT32S_STAT]) : ¬ Leaks mounted m r := by
  simp only [Leaks, hmount, hcd, hcall, false_and, or_false, and_false, not_false_iff]

theorem not_leaks_of_not_copied (hcopy : m.copyOk = false) : ¬ Leaks mounted m r := by
  rintro ⟨h, _⟩
  rw [hcopy] at h
  cases h

end leaks

namespace Mirror

variable {τ : Type} [Machine τ] (S : Mirror τ) {t : Text} {x : τ} {s : Server} {α β γ : Type}

/-! ### One step after the other -/

theorem globals_bind {f : Server → Prog Fault τ α} {g : Server → ServerM β}
    {Q : α → τ → β → Server → Prop} (h : S.rel t x s)
    (hrest : ∀ {a : Server} {x' : τ}, a.Alike s → S.rel t x' s →
      Couples S.trap (f a) x' (g s) s Q) :
    Couples S.trap (Fat32s.globals >>= f) x (Fat32s.globals >>= g) s Q := by
  refine .bind (S.globals h) ?_
  rintro a x' b s' ⟨halike, hrel⟩ hget
  obtain ⟨rfl, rfl⟩ := returns_get.mp hget
  exact hrest halike hrel

theorem then_bind {p : Prog Fault τ α} {q : ServerM α} {f : α → Prog Fault τ β}
    {g : α → ServerM γ} {Q : β → τ → γ → Server → Prop}
    (h : Couples S.trap p x q s (Same (S.rel t)))
    (hrest : ∀ {a : α} {x' : τ} {s' : Server}, S.rel t x' s' → Returns q s a s' →
      Couples S.trap (f a) x' (g a) s' Q) : Couples S.trap (p >>= f) x (q >>= g) s Q := by
  refine .bind h ?_
  rintro a x' b s' ⟨rfl, hrel⟩ hret
  exact hrest hrel hret

theorem pure_same (h : S.rel t x s) (a : α) :
    Couples S.trap (pure a) x (pure a) s (Same (S.rel t)) := .ret ⟨rfl, h⟩

/-- The first lines of every command. -/
theorem push_bind {f : Server → Prog Fault τ α} {g : Server → ServerM β}
    {Q : α → τ → β → Server → Prop} (h : S.rel t x s) (hroom : S.room (s.sp + 1))
    (hrest : ∀ {a : Server} {x' : τ} {s' : Server}, a.Alike s → S.rel t x' s' →
      s'.sp = s.sp + 1 → Couples S.trap (f a) x' (g s) s' Q) :
    Couples S.trap (do
      let a ← Fat32s.globals
      Machine.stackPush a.dirBuff.sector
      f a) x (do
      let s ← Fat32s.globals
      Machine.stackPush s.dirBuff.sector
      g s) s Q := by
  refine S.globals_bind h fun halike hrel => ?_
  rw [halike.dirBuff]
  refine S.then_bind (S.stackPush hrel hroom) ?_
  intro _ x' s' hrel' hpush
  refine hrest halike hrel' ?_
  rw [returns_modify.mp hpush]
  rfl

/-! ### Moves and output -/

theorem rollback (h : S.rel t x s) :
    Couples S.trap rollback x (rollback : ServerM Unit) s (Same (S.rel t)) :=
  S.then_bind (S.stackPop h) fun hrel _ => S.onServer (.jumpToSector _) hrel

theorem rollback_then (h : S.rel t x s) (a : α) :
    Couples S.trap (do Fat32s.rollback; return a) x (do Fat32s.rollback; return a) s
      (Same (S.rel t)) :=
  S.then_bind (S.rollback h) fun hrel _ => S.pure_same hrel a

theorem printf (h : S.rel t x s) (bytes : List UInt8) :
    Couples S.trap (printf bytes) x (printf bytes : ServerM Unit) s (Same (S.rel t)) :=
  S.onServer (.print bytes) h

theorem printf_then (h : S.rel t x s) (bytes : List UInt8) (a : α) :
    Couples S.trap (do Fat32s.printf bytes; return a) x (do Fat32s.printf bytes; return a) s
      (Same (S.rel t)) :=
  S.then_bind (S.printf h bytes) fun hrel _ => S.pure_same hrel a

theorem printWelcomeStats (h : S.rel t x s) :
    Couples S.trap printWelcomeStats x (printWelcomeStats : ServerM Unit) s (Same (S.rel t)) := by
  refine S.globals_bind h fun halike h => ?_
  rw [Drive.welcomeStats, Drive.welcomeStats, halike.bpb, halike.fsData]
  exact S.printf h _

/-! ### Mount and unmount -/

variable {env : Env} {m : Message}

/-- Both machines give the same reply, and the text is held or gone as it should. -/
def Answers (s : Server) (m : Message) (a : Int) (x' : τ) (b : Int) (s' : Server) : Prop :=
  b = a ∧ S.rel (textAfter s.deviceFd.isSome m b) x' s'

variable {S}

theorem Answers.held {r : Int} {x' : τ} {s' : Server} (hleak : Leaks s.deviceFd.isSome m r)
    (h : S.rel (.held m.allocated) x' s') : S.Answers s m r x' r s' := by
  refine ⟨rfl, ?_⟩
  rw [textAfter, if_pos hleak]
  exact h

theorem Answers.gone {r : Int} {x' : τ} {s' : Server} (hleak : ¬ Leaks s.deviceFd.isSome m r)
    (h : S.rel .gone x' s') : S.Answers s m r x' r s' := by
  refine ⟨rfl, ?_⟩
  rw [textAfter, if_neg hleak]
  exact h

variable (S)

theorem refuse {t : Text} {text : String} {reply : Int} {Q : Int → τ → Int → Server → Prop}
    (h : S.rel t x s)
    (hQ : ∀ {x' : τ} {s' : Server}, S.rel t x' s' → Q reply x' reply s') :
    Couples S.trap (refuse text reply) x (refuse text reply : ServerM Int) s Q :=
  S.then_bind (S.printf h _) fun h _ => .ret (hQ h)

/-- A request that does not get as far as its text. -/
theorem refuse_unread {text : String} {reply : Int} (h : S.rel .unread x s)
    (hleak : ¬ Leaks s.deviceFd.isSome m reply) :
    Couples S.trap (Fat32s.refuse text reply) x (Fat32s.refuse text reply : ServerM Int) s
      (S.Answers s m) :=
  S.refuse h fun h => .gone hleak (S.gone_of_unread h)

theorem refuse_freed {s₀ : Server} {text : String} {reply : Int}
    (h : S.rel (.held m.allocated) x s) (hleak : ¬ Leaks s₀.deviceFd.isSome m reply) :
    Couples S.trap (do Machine.free; Fat32s.refuse text reply) x
      (do Machine.free; Fat32s.refuse text reply : ServerM Int) s (S.Answers s₀ m) :=
  S.then_bind (S.free h) fun h _ => S.refuse h fun h => .gone hleak h

/-- The plain machine reads the text without a change of its state. -/
theorem getTxt_bind {f : Option Name → Prog Fault τ Int} {g : Option Name → ServerM Int}
    {Q : Int → τ → Int → Server → Prop} (h : S.rel .unread x s) (hmem : S.memory m.allocated)
    (hnone : ∀ {x' : τ}, m.copyOk = false → S.rel (.held m.allocated) x' s →
      Couples S.trap (f none) x' (g none) s Q)
    (hsome : ∀ {x' : τ}, m.copyOk = true → S.rel (.held m.allocated) x' s →
      Couples S.trap (f (some m.text)) x' (g (some m.text)) s Q) :
    Couples S.trap (getTxt m >>= f) x (getTxt m >>= g) s Q := by
  have hget : Couples S.trap (getTxt m) x (getTxt m : ServerM (Option Name)) s
      fun o x' o' s' => o' = o ∧ o = (if m.copyOk then some m.text else none) ∧ s' = s ∧
        S.rel (.held m.allocated) x' s := by
    refine S.then_bind (S.malloc h hmem) ?_
    intro _ x' s' hheld hmalloc
    obtain ⟨_, rfl⟩ := returns_pure.mp hmalloc
    exact .check_bind fun _ => .ret ⟨rfl, rfl, rfl, hheld⟩
  refine .bind hget ?_
  rintro o x' o' s' ⟨rfl, rfl, rfl, h⟩ _
  cases hcopy : m.copyOk with
  | false => exact hnone hcopy h
  | true => exact hsome hcopy h

theorem doMount (hcall : m.callnr = FAT32S_MOUNT) (h : S.rel .unread x s)
    (hmem : s.deviceFd = none → S.memory m.allocated) :
    Couples S.trap (doMount env m) x (doMount env m : ServerM Int) s (S.Answers s m) := by
  refine S.globals_bind h fun halike h => ?_
  rw [halike.deviceFd]
  refine .ite (fun hopen => ?_) fun hopen => ?_
  · exact S.refuse_unread h (by simp [leaks_mount_iff hcall, hopen])
  have hfd : s.deviceFd = none := by simpa using hopen
  have hleak : m.copyOk = true → ∀ {r}, Leaks s.deviceFd.isSome m r ↔ r ≠ OK := by
    intro hcopy r
    simp [leaks_mount_iff hcall, hcopy, hfd]
  refine S.getTxt_bind h (hmem hfd) (fun hcopy h => ?_) fun hcopy h => ?_
  · exact S.refuse_freed h (not_leaks_of_not_copied hcopy)
  have hrefused : ∀ {text : String} {x' : τ} {s' : Server}, S.rel (.held m.allocated) x' s' →
      Couples S.trap (Fat32s.refuse text EINVAL) x' (Fat32s.refuse text EINVAL : ServerM Int) s'
        (S.Answers s m) :=
    fun h => S.refuse h fun h => .held ((hleak hcopy).mpr (by decide)) h
  refine .check_bind fun _ => S.then_bind (S.openDevice h hfd) fun h _ => ?_
  refine S.globals_bind h fun halike h => ?_
  rw [halike.deviceFd]
  refine .ite (fun _ => hrefused h) fun _ => S.then_bind (S.onServer .readBpb h) fun h _ => ?_
  refine .ite (fun _ => hrefused h) fun _ => ?_
  refine S.then_bind (S.printWelcomeStats h) fun h _ => S.then_bind (S.free h) fun h _ => ?_
  refine S.globals_bind h fun halike h => ?_
  rw [Drive.firstSectorOfCluster, Drive.firstSectorOfCluster, halike.fsData, halike.bpb]
  refine S.then_bind (S.onServer (.jumpToSector _) h) fun h _ => ?_
  exact S.then_bind (S.stackClear h) fun h _ => .ret (.gone (by simp [hleak hcopy]) h)

theorem doUnmount (hcall : m.callnr = FAT32S_UNMOUNT) (h : S.rel .unread x s)
    (hmem : s.deviceFd ≠ none → S.memory m.allocated) :
    Couples S.trap (doUnmount env m) x (doUnmount env m : ServerM Int) s (S.Answers s m) := by
  have hleak : ∀ {mounted r}, ¬ Leaks mounted m r := by
    intro mounted r
    apply not_leaks <;> rw [hcall] <;> decide
  refine S.globals_bind h fun halike h => ?_
  rw [halike.deviceFd]
  refine .ite (fun _ => S.refuse_unread h hleak) fun hopen => ?_
  have hfd : s.deviceFd ≠ none := by simpa using hopen
  refine S.getTxt_bind h (hmem hfd) (fun _ h => S.refuse_freed h hleak) fun _ h => ?_
  rw [halike.label hfd]
  refine .ite (fun _ => S.refuse_freed h hleak) fun _ => ?_
  refine .ite (fun _ => S.refuse_freed h hleak) fun _ => ?_
  refine S.then_bind (S.reset h hfd) fun h _ => ?_
  exact S.then_bind (S.free h) fun h _ => .ret (.gone hleak h)

end Mirror

/-! ### Functions that read names -/

/-- A simulation, whatever an uninitialised buffer may hold on the two machines. -/
structure Simulation (τ : Type) [Machine τ] extends Mirror τ where
  getName : ∀ {t : Text} {x : τ} {s : Server} {de : DirEntry} {a b : Name}, rel t x s → buf a b →
    de.type ≠ .undefined →
    Couples trap (Machine.getName de a) x (Machine.getName de b : ServerM Name) s (Same (rel t))

namespace Simulation

variable {τ : Type} [Machine τ] (S : Simulation τ) {t : Text} {x : τ} {s : Server} {α β : Type}

/-! tree.c -/

/-- The buffers of a scan: what has been collected is the same on both machines. -/
structure SameNames (names names' : Names) : Prop where
  part : S.buf names.part names'.part
  full : names'.full = names.full

variable {S} in
theorem SameNames.refl (names : Names) : S.SameNames names names := ⟨S.buf_refl _, rfl⟩

variable {names names' : Names} {de : DirEntry}

theorem addPiece (h : S.rel t x s) (hnames : S.SameNames names names')
    (hde : de.type ≠ .undefined) :
    Couples S.trap (addPiece de names) x (addPiece de names' : ServerM Names) s
      (Same (S.rel t)) := by
  unfold Fat32s.addPiece
  rw [hnames.full]
  refine S.then_bind (S.getName h hnames.part hde) fun h _ => ?_
  refine S.then_bind (S.onServer (.store _ _) h) fun h _ => ?_
  refine S.then_bind (S.onServer (.store _ _) h) fun h _ => ?_
  exact S.then_bind (S.onServer (.store _ _) h) fun h _ => S.pure_same h _

theorem ownName (h : S.rel t x s) (hnames : S.SameNames names names')
    (hde : de.type ≠ .undefined) :
    Couples S.trap (ownName de names) x (ownName de names' : ServerM Names) s
      fun a x' b s' => S.SameNames a b ∧ S.rel t x' s' := by
  unfold Fat32s.ownName
  rw [hnames.full]
  refine .ite (fun _ => ?_) fun _ => .ret ⟨hnames, h⟩
  refine S.then_bind (S.getName h hnames.part hde) fun h _ => ?_
  refine S.then_bind (S.onServer (.store _ _) h) fun h _ => ?_
  exact S.then_bind (S.onServer (.store _ _) h) fun h _ => .ret ⟨.refl _, h⟩

theorem nextDirEntry_then (h : S.rel t x s) {a : α} {b : β} {Q : α → τ → β → Server → Prop}
    (hQ : ∀ {x' : τ} {s' : Server}, S.rel t x' s' → Q a x' b s') :
    Couples S.trap (do let _ ← onDrive nextDirEntry; return a) x
      (do let _ ← onDrive nextDirEntry; return b) s Q :=
  S.then_bind (S.onServer .nextDirEntry h) fun h _ => .ret (hQ h)

theorem scan {hit : DirEntry → Name → Prog Fault τ (Option α)}
    {hit' : DirEntry → Name → ServerM (Option α)} {atEnd : Name → α} (h : S.rel t x s)
    (hhit : ∀ {de : DirEntry} {name : Name} {x : τ} {s : Server}, S.rel t x s →
      Couples S.trap (hit de name) x (hit' de name) s (Same (S.rel t))) :
    Couples S.trap (scan hit atEnd) x (scan hit' atEnd) s (Same (S.rel t)) := by
  refine .bind (S.newBuffer h) ?_
  rintro part x₁ part' s₁ ⟨hbuf, h₁⟩ _
  refine .iter (fun names x names' s => S.SameNames names names' ∧ S.rel t x s) ?_
    ⟨⟨hbuf, rfl⟩, h₁⟩
  rintro names x names' s ⟨hnames, h⟩
  refine S.globals_bind h fun halike h => ?_
  rw [halike.dirBuff]
  cases hde : s.dirBuff.de.type with
  | undefined =>
    rw [hnames.full]
    exact .ret (.inr ⟨_, _, rfl, rfl, rfl, h⟩)
  | long =>
    refine S.then_bind (S.addPiece h hnames (by rw [hde]; nofun)) fun h _ => ?_
    exact S.nextDirEntry_then h fun h => .inl ⟨_, _, rfl, rfl, .refl _, h⟩
  | short =>
    refine .bind (S.ownName h hnames (by rw [hde]; nofun)) ?_
    rintro own x₂ own' s₂ ⟨hown, h⟩ _
    rw [hown.full]
    refine S.then_bind (hhit h) ?_
    intro o x₃ s₃ h _
    cases o with
    | some a => exact .ret (.inr ⟨a, a, rfl, rfl, rfl, h⟩)
    | none =>
      exact S.nextDirEntry_then h fun h => .inl ⟨_, _, rfl, rfl, ⟨hown.part, rfl⟩, h⟩

theorem findChild (h : S.rel t x s) (query : Name) :
    Couples S.trap (findChild query) x (findChild query : ServerM Int) s (Same (S.rel t)) :=
  S.scan h fun h => S.pure_same h _

theorem findChildByClusterId (h : S.rel t x s) (id : UInt32) :
    Couples S.trap (findChildByClusterId id) x (findChildByClusterId id : ServerM (Name × Int)) s
      (Same (S.rel t)) :=
  S.scan h fun h => S.pure_same h _

theorem visit (h : S.rel t x s) (banFiles banDirs : Bool) (segment : Name) (more : Bool) :
    Couples S.trap (visit banFiles banDirs segment more) x
      (visit banFiles banDirs segment more : ServerM (Option Int)) s (Same (S.rel t)) := by
  refine S.then_bind (S.findChild h segment) fun h _ => ?_
  refine .ite (fun _ => S.rollback_then h _) fun _ => S.globals_bind h fun halike h => ?_
  rw [halike.dirBuff]
  refine .ite (fun _ => S.rollback_then h _) fun _ => ?_
  exact S.then_bind (S.onServer .hop h) fun h _ => S.pure_same h _

theorem walk {path : Name} {flags : Nat} (h : S.rel t x s) (hroom : S.room (s.sp + 1)) :
    Couples S.trap (walk path flags) x (walk path flags : ServerM Int) s (Same (S.rel t)) := by
  refine S.push_bind h hroom fun _ h _ => ?_
  refine .iter (fun w x w' s => w' = w ∧ S.rel t x s) ?_ ⟨rfl, h⟩
  rintro w x w' s ⟨rfl, h⟩
  refine .ite (fun _ => ?_) fun _ => ?_
  · refine S.then_bind (S.visit h _ _ _ _) ?_
    intro o x' s' h _
    cases o with
    | some status => exact .ret (.inr ⟨_, _, rfl, rfl, rfl, h⟩)
    | none => exact .ret (.inl ⟨_, _, rfl, rfl, rfl, h⟩)
  · exact S.then_bind (S.stackPop h) fun h _ => .ret (.inr ⟨_, _, rfl, rfl, rfl, h⟩)

/-! read.c -/

theorem pwdStep {w : PwdVars} (h : S.rel t x s) (hroom : S.room (s.sp + 1)) :
    Couples S.trap (pwdStep w) x (pwdStep w : ServerM (PwdVars ⊕ Int)) s (Same (S.rel t)) := by
  refine S.then_bind (S.findChild h _) ?_
  intro found x₁ s₁ h hfind
  have hstack₁ := ((quiet_stack s.stack).findChild _).returns hfind rfl
  refine .ite (fun _ => ?_) fun _ => ?_
  · refine S.then_bind (S.onServer .hop h) ?_
    intro status x₂ s₂ h hhop
    have hstack₂ := (quiet_stack s.stack).hop.returns hhop hstack₁
    refine S.push_bind h (by rw [Server.sp, hstack₂]; exact hroom) fun _ h _ => ?_
    refine S.then_bind (S.findChildByClusterId h _) ?_
    rintro ⟨name, success⟩ x₃ s₃ h _
    refine .ite (fun _ => S.printf_then h _ _) fun _ => ?_
    refine S.then_bind (S.onServer (.store _ _) h) fun h _ => ?_
    refine S.then_bind (S.onServer (.store _ _) h) fun h _ => ?_
    refine S.then_bind (S.rollback h) fun h _ => S.globals_bind h fun halike h => ?_
    rw [halike.dirBuff]
    exact S.then_bind (S.onServer (.sectorToCluster _) h) fun h _ => S.pure_same h _
  · exact S.then_bind (S.printf h _) fun h _ => S.rollback_then h _

theorem pwd (h : S.rel t x s) (hroom : S.room (s.sp + 2)) :
    Couples S.trap pwd x (pwd : ServerM Int) s (Same (S.rel t)) := by
  refine S.push_bind h (S.room_le (Nat.le_succ _) hroom) ?_
  intro a x₁ s₁ halike h hsp
  rw [halike.dirBuff]
  refine S.then_bind (S.onServer (.sectorToCluster _) h) ?_
  intro clusterId x₂ s₂ h hcluster
  have hsp₂ : s₂.sp = s.sp + 1 :=
    (congrArg List.length ((Steady.sectorToCluster _).keeps hcluster).1).trans hsp
  -- a round that goes on has taken off what it pushed
  refine .iter (fun w x w' s' => w' = w ∧ S.rel t x s' ∧ s'.sp = s.sp + 1) ?_ ⟨rfl, h, hsp₂⟩
  rintro w x w' s' ⟨rfl, h, hsp'⟩
  refine (S.pwdStep h (by rw [hsp']; exact hroom)).weaken ?_
  rintro r x'' r' s'' ⟨rfl, h⟩ hround
  cases r' with
  | inl w'' =>
    cases pwdStep_cases hround with
    | up _ _ _ hstack _ _ =>
      exact .inl ⟨w'', w'', rfl, rfl, rfl, h, (congrArg List.length hstack).trans hsp'⟩
  | inr status => exact .inr ⟨status, status, rfl, rfl, rfl, h⟩

theorem cd {path : Name} (h : S.rel t x s) (hroom : S.room (s.sp + 2)) :
    Couples S.trap (cd path) x (cd path : ServerM Int) s (Same (S.rel t)) := by
  refine S.push_bind h (S.room_le (Nat.le_succ _) hroom) ?_
  intro a x₁ s₁ _ h hsp
  refine S.then_bind (S.walk h (by rw [hsp]; exact hroom)) fun h _ => ?_
  refine .ite (fun _ => S.rollback_then h _) fun _ => ?_
  exact S.then_bind (S.stackPop h) fun h _ => S.pure_same h _

theorem listEntries (h : S.rel t x s) :
    Couples S.trap listEntries x (listEntries : ServerM Unit) s (Same (S.rel t)) :=
  S.scan h fun h => S.printf_then h _ _

theorem ls {path : Name} (h : S.rel t x s) (hroom : S.room (s.sp + 3)) :
    Couples S.trap (ls path) x (ls path : ServerM Int) s (Same (S.rel t)) := by
  refine S.push_bind h (S.room_le (by omega) hroom) ?_
  intro a x₁ s₁ _ h hsp
  refine .ite (fun _ => S.then_bind (S.pure_same h 0) fun h _ => ?_) fun _ =>
    S.then_bind (S.cd h (by rw [hsp]; exact hroom)) fun h _ => ?_
  all_goals
    refine .ite (fun _ => S.rollback_then h _) fun _ => ?_
    exact S.then_bind (S.listEntries h) fun h _ => S.rollback_then h _

theorem lastHopSize (h : S.rel t x s) (hroom : S.room (s.sp + 1)) :
    Couples S.trap lastHopSize x (lastHopSize : ServerM UInt32) s (Same (S.rel t)) := by
  refine S.push_bind h hroom fun _ h _ => ?_
  refine S.then_bind (S.onServer .toLastHop h) fun h _ => S.globals_bind h fun halike h => ?_
  rw [halike.dirBuff]
  refine S.then_bind (S.onServer (.loadSector _) h) fun h _ => ?_
  refine S.then_bind (S.onServer (.parseDir _) h) fun h _ => S.globals_bind h fun halike h => ?_
  rw [halike.dirBuff]
  exact S.rollback_then h _

theorem cat {path : Name} (h : S.rel t x s) (hroom : S.room (s.sp + 2)) :
    Couples S.trap (cat path) x (cat path : ServerM Int) s (Same (S.rel t)) := by
  refine S.push_bind h (S.room_le (Nat.le_succ _) hroom) ?_
  intro a x₁ s₁ _ h hsp
  refine S.then_bind (S.walk h (by rw [hsp]; exact hroom)) ?_
  intro status x₂ s₂ h hwalk
  have hsp₂ : s₂.sp = s.sp + 1 := (congrArg List.length (walk_cases hwalk).stack).trans hsp
  refine .ite (fun _ => S.rollback_then h _) fun _ => ?_
  refine S.then_bind (S.lastHopSize h (by rw [hsp₂]; exact hroom)) fun h _ => ?_
  refine S.then_bind (S.onServer (.catBytes _) h) fun h _ => ?_
  exact S.then_bind (S.printf h _) fun h _ => S.rollback_then h _

theorem printRegularDirEntry (h : S.rel t x s) (rde : Slot) :
    Couples S.trap (printRegularDirEntry rde) x (printRegularDirEntry rde : ServerM Unit) s
      (Same (S.rel t)) := by
  have hname : ∀ {x : τ} {s : Server}, S.rel t x s →
      Couples S.trap (printShortNameRde rde) x (printShortNameRde rde : ServerM Unit) s
        (Same (S.rel t)) := by
    intro x s h
    refine .bind (S.newBuffer h) ?_
    rintro a x₁ b s₁ ⟨hbuf, h⟩ _
    refine S.then_bind (S.getName h hbuf nofun) fun h _ => ?_
    exact S.then_bind (S.onServer (.store _ _) h) fun h _ => S.printf h _
  unfold Fat32s.printRegularDirEntry
  refine S.then_bind (S.printf h _) fun h _ => S.then_bind (hname h) fun h _ => ?_
  repeat refine S.then_bind (S.printf (by assumption) _) fun _ _ => ?_
  exact S.printf (by assumption) _

theorem statEntry (h : S.rel t x s) (lastName : Name) :
    Couples S.trap (statEntry lastName) x (statEntry lastName : ServerM Int) s
      (Same (S.rel t)) := by
  refine S.then_bind (S.findChild h lastName) fun h _ => ?_
  refine .ite (fun _ => S.rollback_then h _) fun _ => S.globals_bind h fun halike h => ?_
  rw [halike.dirBuff]
  refine S.then_bind (S.printRegularDirEntry h _) fun h _ => ?_
  exact S.then_bind (S.printf h _) fun h _ => S.rollback_then h _

theorem stat {path : Name} (h : S.rel t x s) (hroom : S.room (s.sp + 2)) :
    Couples S.trap (stat path) x (stat path : ServerM Int) s (Same (S.rel t)) := by
  refine S.push_bind h (S.room_le (Nat.le_succ _) hroom) ?_
  intro a x₁ s₁ _ h hsp
  cases lastSlash path (path.length - 1) with
  | none => exact S.statEntry h path
  | some i =>
    refine S.then_bind (S.walk h (by rw [hsp]; exact hroom)) fun h _ => ?_
    exact .ite (fun _ => S.rollback_then h _) fun _ => S.statEntry h _

/-! fat32.c -/

variable {env : Env} {m : Message}

theorem doPwd (hcall : m.callnr = FAT32S_PWD) (h : S.rel .unread x s)
    (hroom : S.room (s.sp + 2)) :
    Couples S.trap doPwd x (doPwd : ServerM Int) s (S.Answers s m) := by
  have hleak : ∀ {mounted r}, ¬ Leaks mounted m r := by
    intro mounted r
    apply not_leaks <;> rw [hcall] <;> decide
  refine S.globals_bind h fun halike h => ?_
  rw [halike.deviceFd]
  refine .ite (fun _ => S.refuse_unread h hleak) fun _ => ?_
  exact S.then_bind (S.pwd h hroom) fun h _ => .ret (.gone hleak (S.gone_of_unread h))

theorem doCd (hcall : m.callnr = FAT32S_CD) (h : S.rel .unread x s)
    (hroom : S.room (s.sp + 2)) (hmem : s.deviceFd ≠ none → S.memory m.allocated) :
    Couples S.trap (doCd m) x (doCd m : ServerM Int) s (S.Answers s m) := by
  refine S.globals_bind h fun halike h => ?_
  rw [halike.deviceFd]
  refine .ite (fun hnone => ?_) fun hopen => ?_
  · have hfd : s.deviceFd = none := by simpa using hnone
    exact S.refuse_unread h (by simp [leaks_cd_iff hcall, hfd])
  have hfd : s.deviceFd ≠ none := by simpa using hopen
  have hleak : m.copyOk = true → ∀ {r}, Leaks s.deviceFd.isSome m r ↔ r ≠ OK := by
    intro hcopy r
    simp [leaks_cd_iff hcall, hcopy, Option.isSome_iff_ne_none.mpr hfd]
  refine S.getTxt_bind h (hmem hfd) (fun hcopy h => ?_) fun hcopy h => ?_
  · exact S.refuse_freed h (not_leaks_of_not_copied hcopy)
  refine S.then_bind (S.cd h hroom) fun h _ => ?_
  refine .ite (fun _ => S.refuse h fun h => .held ((hleak hcopy).mpr (by decide)) h) fun _ => ?_
  refine .ite (fun _ => S.refuse h fun h => .held ((hleak hcopy).mpr (by decide)) h) fun _ => ?_
  exact S.then_bind (S.free h) fun h _ => .ret (.gone (by simp [hleak hcopy]) h)

theorem doCommand {command : Name → Prog Fault τ Int} {command' : Name → ServerM Int}
    {complaint : String} (hcall : m.callnr ∈ [FAT32S_LS, FAT32S_CAT, FAT32S_STAT])
    (h : S.rel .unread x s) (hmem : s.deviceFd ≠ none → S.memory m.allocated)
    (hcommand : ∀ {t : Text} {x : τ}, S.rel t x s →
      Couples S.trap (command m.text) x (command' m.text) s (Same (S.rel t))) :
    Couples S.trap (doCommand command complaint m) x (doCommand command' complaint m) s
      (S.Answers s m) := by
  refine S.globals_bind h fun halike h => ?_
  rw [halike.deviceFd]
  refine .ite (fun hnone => ?_) fun hopen => ?_
  · have hfd : s.deviceFd = none := by simpa using hnone
    exact S.refuse_unread h (by simp [leaks_command_iff hcall, hfd])
  have hfd : s.deviceFd ≠ none := by simpa using hopen
  refine S.getTxt_bind h (hmem hfd) (fun hcopy h => ?_) fun hcopy h => ?_
  · exact S.refuse_freed h (not_leaks_of_not_copied hcopy)
  -- whatever the status, the text stays
  have hleak : ∀ {r}, Leaks s.deviceFd.isSome m r :=
    (leaks_command_iff hcall).mpr ⟨hcopy, Option.isSome_iff_ne_none.mpr hfd⟩
  refine S.then_bind (hcommand h) fun h _ => ?_
  exact .ite (fun _ => S.refuse h fun h => .held hleak h) fun _ => .ret (.held hleak h)

theorem complain {text : List UInt8} (h : S.rel .unread x s)
    (hleak : ¬ Leaks s.deviceFd.isSome m EINVAL) :
    Couples S.trap (do Fat32s.printf text; return EINVAL) x
      (do Fat32s.printf text; return EINVAL) s (S.Answers s m) :=
  S.then_bind (S.printf h _) fun h _ => .ret (.gone hleak (S.gone_of_unread h))

/-- **Every request is served as on the plain machine**, if there is room for three more
    sectors, and memory for the text of a request that reads one. -/
theorem serve (h : S.rel .unread x s) (hroom : S.room (s.sp + 3))
    (hmem : ReadsText s m → S.memory m.allocated) :
    Couples S.trap (serve env m) x (serve env m : ServerM Int) s (S.Answers s m) := by
  have hroom₂ : S.room (s.sp + 2) := S.room_le (Nat.le_succ _) hroom
  have hread : m.callnr ∈ [FAT32S_UNMOUNT, FAT32S_CD, FAT32S_LS, FAT32S_CAT, FAT32S_STAT] →
      s.deviceFd ≠ none → S.memory m.allocated := fun hcall hfd => hmem (.inr ⟨hcall, hfd⟩)
  refine .ite (fun hnotify => ?_) fun _ => ?_
  · -- a notification has none of the call numbers
    have hother : ∀ callnr, ¬ callnr - 0x1000 < 0x100 → m.callnr ≠ callnr := by
      rintro callnr hne rfl
      exact hne hnotify
    refine S.complain h (not_leaks (hother _ (by decide)) (hother _ (by decide)) ?_)
    simp [hother FAT32S_LS (by decide), hother FAT32S_CAT (by decide),
      hother FAT32S_STAT (by decide)]
  refine .ite (fun hcall => ?_) fun hmount => ?_
  · exact S.doMount hcall h fun hfd => hmem (.inl ⟨hcall, hfd⟩)
  refine .ite (fun hcall => S.doUnmount hcall h (hread (by simp [hcall]))) fun _ => ?_
  refine .ite (fun hcall => S.doPwd hcall h hroom₂) fun _ => ?_
  refine .ite (fun hcall => S.doCd hcall h hroom₂ (hread (by simp [hcall]))) fun hcd => ?_
  refine .ite (fun hcall => ?_) fun hls => ?_
  · exact S.doCommand (by simp [hcall]) h (hread (by simp [hcall])) fun h => S.ls h hroom
  refine .ite (fun hcall => ?_) fun hcat => ?_
  · exact S.doCommand (by simp [hcall]) h (hread (by simp [hcall])) fun h => S.cat h hroom₂
  refine .ite (fun hcall => ?_) fun hstat => ?_
  · exact S.doCommand (by simp [hcall]) h (hread (by simp [hcall])) fun h => S.stat h hroom₂
  exact S.complain h (not_leaks hmount hcd (by simp [hls, hcat, hstat]))

end Simulation

end Fat32s
