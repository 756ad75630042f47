/-
  Fat32s/Resources.lean
  =====================
  **Memory and descriptors.**

  `get_txt` allocates a block for the text of a request, and the handlers free it, or
  not.  This is the machine with a heap, whatever the allocator, and with a count of the
  descriptors that are open.  It serves requests as the plain machine does while `malloc`
  has memory, and no block is freed twice; but ls, cat and stat never free their text, nor
  does a cd that fails or a mount that could not use the device.  These blocks stay for
  good, and when `malloc` gives none, the next text is written to address 0.

  Descriptors are not lost: there is never more than one open, and it is `device_fd`.
-/
import Fat32s.Lib.Allocator
import Fat32s.Simulation
import Fat32s.HeldDevice

namespace Fat32s

open Fat32s.Lib Fat32s.Lib.Prog

/-! ### The machine with a heap -/

/-- The server with its memory.  `txt` is the global pointer, and `fds` the number of
    descriptors that are open. -/
structure Process (A : Allocator) where
  server : Server
  heap : A.Heap
  txt : Option Nat
  fds : Nat

namespace Process

variable {A : Allocator}

def onServer {α : Type} (p : ServerM α) : Prog Fault (Process A) α :=
  Prog.zoom server (fun s x => { x with server := s }) p

/-- `none` is the null pointer.  Nobody asks whether there was memory: the terminating zero
    is written in any case. -/
def malloc (n : Nat) : Prog Fault (Process A) Unit := do
  Prog.modify fun x => { x with txt := (A.malloc n x.heap).1, heap := (A.malloc n x.heap).2 }
  let x ← Prog.get
  Prog.check (x.txt.isSome = true) .outOfBounds

/-- `free(txt)`.  Only a block that is allocated can be freed. -/
def free : Prog Fault (Process A) Unit := do
  let x ← Prog.get
  match x.txt with
  | none => pure ()
  | some a => do
    Prog.check ((A.block x.heap a).isSome = true) .outOfBounds
    Prog.modify fun x => { x with heap := A.free a x.heap }

instance processMachine : Machine (Process A) where
  onServer := onServer
  stackPush sector := onServer (stackPush sector)
  stackPop := onServer stackPop
  stackClear := onServer Machine.stackClear
  getName de name := pure (getName de name)
  malloc := malloc
  free := free
  openDevice label dev := do
    onServer (Machine.openDevice label dev)
    Prog.modify fun x => { x with fds := x.fds + dev.toList.length }
  reset := do
    onServer Machine.reset
    Prog.modify fun x => { x with fds := x.fds - 1 }

def initial (junk : Nat → Name) (heap : A.Heap) : Process A := ⟨Server.initial junk, heap, none, 0⟩

end Process

/-! ### It simulates the plain one -/

/-- The number of descriptors the server knows of. -/
def Server.descriptors (s : Server) : Nat := s.deviceFd.toList.length

namespace Process

variable {A : Allocator} {x₀ x : Process A} {s : Server} {t : Text} {α : Type}

/-- What the heap holds beside the blocks that were there when the request came. -/
def Holds (x₀ : Process A) : Text → Process A → Prop
  | .unread, x => x.heap = x₀.heap
  | .held n, x => ∃ a, x.txt = some a ∧ A.block x₀.heap a = none ∧
      A.block x.heap = Function.update (A.block x₀.heap) a (some n)
  | .gone, x => A.block x.heap = A.block x₀.heap

structure Rel (x₀ : Process A) (t : Text) (x : Process A) (s : Server) : Prop where
  server : x.server = s
  fds : x.fds = s.descriptors
  holds : x₀.Holds t x

theorem Holds.of_heap {x' : Process A} (h : x₀.Holds t x) (hheap : x'.heap = x.heap)
    (htxt : x'.txt = x.txt) : x₀.Holds t x' := by
  cases t with
  | unread => exact hheap.trans h
  | held n =>
    obtain ⟨a, ha, hnone, hblock⟩ := h
    exact ⟨a, htxt.trans ha, hnone, by rw [hheap]; exact hblock⟩
  | gone =>
    change A.block x'.heap = _
    rw [hheap]
    exact h

/-- A program that leaves the descriptor alone. -/
theorem couples_onServer {trap : Fault → Prop} {p : ServerM α} (h : Rel x₀ t x s)
    (hkeeps : ∀ {s' : Server} {a : α}, Returns p s a s' → s'.deviceFd = s.deviceFd) :
    Couples trap (onServer p) x p s (Same (Rel x₀ t)) := by
  obtain ⟨rfl, hfds, hholds⟩ := h
  refine .zoom (.refl p x.server) ?_
  rintro a s' b s'' ⟨rfl, rfl⟩ hret
  refine ⟨rfl, rfl, ?_, hholds.of_heap rfl rfl⟩
  rw [Server.descriptors, hkeeps hret]
  exact hfds

theorem couples_malloc {trap : Fault → Prop} {n : Nat} (h : Rel x₀ .unread x s)
    (hmem : trap .outOfBounds ∨ (A.malloc n x₀.heap).1.isSome = true) :
    Couples trap (malloc n) x (Machine.malloc n : ServerM Unit) s (Same (Rel x₀ (.held n))) := by
  have hheap : x.heap = x₀.heap := h.holds
  refine .modify_left (.get_left ?_)
  dsimp only
  rw [hheap]
  cases hmalloc : (A.malloc n x₀.heap).1 with
  | none =>
    rw [hmalloc] at hmem
    exact .trapped (hmem.resolve_right nofun)
  | some a =>
    obtain ⟨hnone, hblock⟩ := A.malloc_some hmalloc
    exact .ret ⟨rfl, h.server, h.fds, a, rfl, hnone, hblock⟩

theorem couples_free {trap : Fault → Prop} {n : Nat} (h : Rel x₀ (.held n) x s) :
    Couples trap free x (Machine.free : ServerM Unit) s (Same (Rel x₀ .gone)) := by
  obtain ⟨a, ha, hnone, hblock⟩ := h.holds
  refine .get_left ?_
  rw [ha]
  refine .check_left (fun hdead => ?_) fun _ => ?_
  · exact (hdead (by rw [hblock, Function.update_self]; rfl)).elim
  · exact ⟨fun _ => .ret ⟨rfl, h.server, h.fds, A.block_free_of_update hnone hblock⟩⟩

/-- From the state in which a request comes.  With `lax`, it is no objection that there is
    no memory: the run may then stop. -/
def simulation (lax : Prop) (x₀ : Process A) : Simulation (Process A) where
  trap _ := lax
  room _ := True
  memory n := lax ∨ (A.malloc n x₀.heap).1.isSome = true
  buf a b := b = a
  rel := Rel x₀
  room_le _ h := h
  buf_refl _ := rfl
  gone_of_unread h := ⟨h.server, h.fds, congrArg A.block h.holds⟩
  globals h := by
    refine (couples_onServer h fun hret => by rw [(returns_get.mp hret).2]).weaken ?_
    rintro a x' b s' ⟨rfl, hrel⟩ _
    exact ⟨.refl _, hrel⟩
  onServer hp h := couples_onServer h fun hret => (hp.keeps hret).2
  newBuffer h := couples_onServer h fun hret =>
    ((quiet_held _ _).newBuffer.returns hret ⟨rfl, rfl⟩).2
  getName := by
    rintro t x s de a _ h rfl _
    exact .ret ⟨rfl, h⟩
  stackPush h _ := couples_onServer h fun hret => by rw [returns_modify.mp hret]
  stackPop h := couples_onServer h fun hret => by
    obtain ⟨_, _, rfl⟩ := returns_stackPop.mp hret
    rfl
  stackClear h := couples_onServer h fun hret => by rw [returns_modify.mp hret]
  malloc h hmem := couples_malloc h hmem
  free h := couples_free h
  openDevice := by
    rintro t x s label dev ⟨rfl, hfds, hholds⟩ hfd
    refine ⟨fun _ => .ret ⟨rfl, rfl, ?_, hholds.of_heap rfl rfl⟩⟩
    change x.fds + _ = dev.toList.length
    rw [hfds, Server.descriptors, hfd]
    exact Nat.zero_add _
  reset := by
    rintro t x s ⟨rfl, hfds, hholds⟩ hfd
    refine ⟨fun _ => .ret ⟨rfl, rfl, ?_, hholds.of_heap rfl rfl⟩⟩
    obtain ⟨dev, hdev⟩ := Option.ne_none_iff_exists'.mp hfd
    change x.fds - 1 = 0
    rw [hfds, Server.descriptors, hdev]
    rfl

/-! ### One request -/

variable {env : Env} {m : Message}

theorem returns_globals (x : Process A) : Returns globals x x.server x := ⟨0, rfl⟩

/-- Without memory for the text, the server writes to address 0. -/
theorem faults_serve (hread : ReadsText x.server m)
    (hnull : (A.malloc m.allocated x.heap).1 = none) :
    Faults (serve env m) x .outOfBounds := by
  obtain ⟨c, p, f, hc, hserve⟩ := serve_eq_guarded (σ := Process A) env hread
  have hmalloc : Faults (malloc m.allocated) x .outOfBounds := by
    refine faults_bind (a := ()) (returns_modify.mpr rfl) ?_
    exact faults_bind (returns_get.mpr ⟨rfl, rfl⟩) (faults_check (by simp [hnull]))
  have hget : Faults (getTxt m) x .outOfBounds := hmalloc.bind _
  rw [hserve]
  refine faults_bind x.returns_globals ?_
  rw [if_neg (by simp [hc])]
  exact hget.bind _

/-- With memory for the text, a request ends as on the plain machine. -/
theorem couples_serve (hfds : x.fds = x.server.descriptors)
    (hmem : ReadsText x.server m → (A.malloc m.allocated x.heap).1.isSome = true) :
    Couples (fun _ => False) (serve env m) x (serve env m : ServerM Int) x.server
      ((simulation False x).Answers x.server m) :=
  (simulation False x).serve ⟨rfl, hfds, rfl⟩ trivial fun hread => .inr (hmem hread)

/-- Whatever is served is served as on the plain machine. -/
theorem visible_serve {r : Int} {x' : Process A} (hfds : x.fds = x.server.descriptors)
    (h : Returns (serve env m) x r x') :
    Returns (serve env m) x.server r x'.server ∧
      Rel x (textAfter x.server.deviceFd.isSome m r) x' x'.server := by
  have hsim : Couples (fun _ => True) (serve env m) x (serve env m : ServerM Int) x.server
      ((simulation True x).Answers x.server m) :=
    (simulation True x).serve ⟨rfl, hfds, rfl⟩ trivial fun _ => .inl trivial
  obtain ⟨_, _, hserve, rfl, hrel⟩ := hsim.visible h
  obtain rfl := hrel.server
  exact ⟨hserve, hrel⟩

/-! ### Whole runs -/

/-- The device that is held and the sizes of the texts that have been lost, the last one
    first. -/
def lostStep (st : Option (Name × Device) × List Nat) (x : (Env × Message) × Int) :
    Option (Name × Device) × List Nat :=
  (heldStep st.1 x, if Leaks st.1.isSome x.1.2 x.2 then x.1.2.allocated :: st.2 else st.2)

def lost (hist : List ((Env × Message) × Int)) : List Nat := (hist.foldl lostStep (none, [])).2

theorem fst_foldl_lostStep (hist : List ((Env × Message) × Int))
    (st : Option (Name × Device) × List Nat) :
    (hist.foldl lostStep st).1 = hist.foldl heldStep st.1 := by
  induction hist generalizing st with
  | nil => rfl
  | cons x hist ih => exact ih _

theorem lost_append (hist : List ((Env × Message) × Int)) (x : (Env × Message) × Int) :
    lost (hist ++ [x]) =
      if Leaks (held hist).isSome x.1.2 x.2 then x.1.2.allocated :: lost hist else lost hist := by
  rw [lost, List.foldl_append, List.foldl_cons, List.foldl_nil, lostStep, fst_foldl_lostStep]
  rfl

/-- Requests come with the answers of the system calls. -/
def step (x : Process A) (q : Env × Message) (r : Int) (x' : Process A) : Prop :=
  Returns (serve q.1 q.2) x r x'

/-- **The memory of the server over its life**, whatever the allocator.  A run of the server
    with its memory is a run of the server, and the descriptors that are open are those it
    knows of.  Beside the blocks that were there before it started, the heap holds one block
    for each request whose text is never freed, of the size it was allocated with, at an
    address of its own; and nothing else.  As long as `malloc` gives a block, each request
    ends as without the memory, so that no block is freed twice; when it gives none, the
    server writes to address 0. -/
theorem memory_accounted {junk : Nat → Name} {heap : A.Heap}
    {hist : List ((Env × Message) × Int)} (hrun : Serves step (initial junk heap) hist x) :
    Serves Server.serves (Server.initial junk) hist x.server ∧
    x.fds = x.server.descriptors ∧
    (∃ kept, Allocator.Keeps heap kept x.heap ∧ kept.map (·.2) = lost hist) ∧
    ∀ env m,
      ((ReadsText x.server m → (A.malloc m.allocated x.heap).1.isSome = true) →
        (∀ r s', Returns (serve env m) x.server r s' →
          ∃ x', Returns (serve env m) x r x' ∧ x'.server = s') ∧
        ∀ e, Faults (serve env m) x e ↔ Faults (serve env m) x.server e) ∧
      (ReadsText x.server m → (A.malloc m.allocated x.heap).1 = none →
        Faults (serve env m) x .outOfBounds) := by
  have hinv : Serves Server.serves (Server.initial junk) hist x.server ∧
      x.fds = x.server.descriptors ∧
      ∃ kept, Allocator.Keeps heap kept x.heap ∧ kept.map (·.2) = lost hist := by
    induction hrun with
    | none => exact ⟨.none, rfl, [], .none heap, rfl⟩
    | @more hist x₁ x₂ q r _ hstep ih =>
      obtain ⟨hserves, hfds, kept, hkeeps, hsizes⟩ := ih
      obtain ⟨hserve, hrel⟩ := visible_serve hfds hstep
      refine ⟨hserves.more hserve, hrel.fds, ?_⟩
      have hmounted : x₁.server.deviceFd.isSome = (held hist).isSome := by
        rw [(holds_held hserves).device, Option.isSome_map]
      have hholds := hrel.holds
      rw [hmounted] at hholds
      rw [lost_append]
      by_cases hleak : Leaks (held hist).isSome q.2 r
      · rw [textAfter, if_pos hleak] at hholds
        obtain ⟨a, _, hnone, hblock⟩ := hholds
        refine ⟨(a, q.2.allocated) :: kept, hkeeps.more hnone hblock, ?_⟩
        rw [if_pos hleak, List.map_cons, hsizes]
      · rw [textAfter, if_neg hleak] at hholds
        refine ⟨kept, hkeeps.same hholds, ?_⟩
        rw [if_neg hleak, hsizes]
  obtain ⟨hserves, hfds, hkept⟩ := hinv
  refine ⟨hserves, hfds, hkept, fun env m => ⟨fun hmem => ⟨?_, fun e => ?_⟩, faults_serve⟩⟩
  · intro r s' hserve
    obtain ⟨_, x', hret, rfl, hrel⟩ :=
      (couples_serve hfds hmem).returns (fun _ => False.elim) hserve
    exact ⟨x', hret, hrel.server⟩
  · exact (couples_serve hfds hmem).faults_iff fun _ => False.elim

/-- On the sample volume, with two blocks to give: a mount, whose text is freed, and an ls,
    whose text stays.  There is none left for the next request. -/
theorem memory_accounted_on_sample : ∃ hist, ∃ x : Process (.bump 2),
    hist.map (·.1.2) = [mountMessage, textMessage FAT32S_LS (ascii "DIR")] ∧
    Serves step (initial (fun _ => []) (Allocator.bumpStart 2)) hist x ∧ lost hist = [4] ∧
    (∃ kept, Allocator.Keeps (Allocator.bumpStart 2) kept x.heap ∧ kept.map (·.2) = [4]) ∧
    x.fds = x.server.descriptors ∧
    ∀ env, Faults (serve env (textMessage FAT32S_LS (ascii "DIR"))) x .outOfBounds := by
  obtain ⟨⟨r₁, r₂⟩, x, hret, htest⟩ := exists_returns (do
      let r₁ ← serve (diskEnv Sample.volume.dev) mountMessage
      let r₂ ← serve (diskEnv Sample.volume.dev) (textMessage FAT32S_LS (ascii "DIR"))
      return (r₁, r₂)) (initial (fun _ => []) (Allocator.bumpStart 2)) 10
    (fun r x => r = (OK, 0) && x.server.deviceFd.isSome &&
      (Allocator.malloc _ 4 x.heap).1.isNone) (by decide +kernel)
  simp only [Bool.and_eq_true, decide_eq_true_eq, Prod.mk.injEq, Option.isNone_iff_eq_none,
    Option.isSome_iff_ne_none] at htest
  obtain ⟨⟨⟨rfl, rfl⟩, hfd⟩, hnull⟩ := htest
  obtain ⟨_, x₁, hmount, hret⟩ := returns_bind.mp hret
  obtain ⟨_, x₂, hls, hret⟩ := returns_bind.mp hret
  obtain ⟨hr, rfl⟩ := returns_pure.mp hret
  obtain ⟨rfl, rfl⟩ := Prod.mk.inj hr
  have hrun : Serves step (initial (fun _ => []) (Allocator.bumpStart 2))
      [((diskEnv Sample.volume.dev, mountMessage), OK),
        ((diskEnv Sample.volume.dev, textMessage FAT32S_LS (ascii "DIR")), 0)] x :=
    (Serves.one hmount).append (Serves.one hls)
  obtain ⟨_, hfds, hkept, hnext⟩ := memory_accounted hrun
  have hlost : lost [((diskEnv Sample.volume.dev, mountMessage), OK),
      ((diskEnv Sample.volume.dev, textMessage FAT32S_LS (ascii "DIR")), 0)] = [4] := by
    decide +kernel
  rw [hlost] at hkept
  refine ⟨_, x, rfl, hrun, hlost, hkept, hfds, fun env => ?_⟩
  exact (hnext env _).2 (.inr ⟨by decide, hfd⟩) hnull

end Process

end Fat32s
