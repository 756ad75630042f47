/-
  Fat32s/Machine.lean
  ===================
  **The machine that the functions run on.**

  The functions of the server work on the globals in `Server`.  What they need besides
  is a machine: the rollback stack, the name buffers that they declare on the C stack,
  the heap, and the descriptor of the open device.  They are written down once, over any
  machine.

  `Server` itself is the plain machine.  Its rollback stack is a list, there is always
  memory, and an uninitialised buffer holds what `Scratch.junk` says.  The machines of
  `Remount`, `Resources` and `StackArray` look closer at one of these each.
-/
import Fat32s.Util

namespace Fat32s

open Fat32s.Lib

/-! ### The plain machine -/

def stackPush (sector : UInt32) : ServerM Unit :=
  Prog.modify fun s => { s with stack := sector :: s.stack }

def stackPop : ServerM UInt32 := do
  let s ← Prog.get
  match s.stack with
  | [] => Prog.fault .outOfBounds
  | sector :: rest => do
    Prog.modify fun s => { s with stack := rest }
    return sector

/-- Declare a name buffer without initialising it. -/
def newBuffer : ServerM Name := do
  let s ← Prog.get
  Prog.modify fun s =>
    { s with scratch := { s.scratch with junk := fun n => s.scratch.junk (n + 1) } }
  return s.scratch.junk 0

/-- Put a string into a buffer of `size` bytes. -/
def store (size : Nat) (str : Name) : ServerM Unit :=
  Prog.modify fun s =>
    { s with scratch := { s.scratch with stored := (size, str.length) :: s.scratch.stored } }

/-- The state after `reset()`: every global zero and no device open.  The
    printed text and the records of the run are not part of the session. -/
def Server.reset (s : Server) : Server where
  bpb := Bpb.zero
  fsData := ⟨(0, 0), 0, 0, 0, fun _ => 0, 0⟩
  deviceFd := none
  dirBuff := ⟨⟨.undefined, fun _ => 0⟩, 0, 0⟩
  trace := s.trace
  deviceLabel := []
  stack := []
  lastHopSector := 0
  lastHopOffset := 0
  scratch := s.scratch
  out := s.out

/-! ### Machines -/

/-- What the functions ask of the machine.  A program that `onServer` runs on the globals
    leaves the rollback stack and the descriptor alone. -/
class Machine (σ : Type) where
  onServer {α : Type} (p : ServerM α) : Prog Fault σ α
  stackPush (sector : UInt32) : Prog Fault σ Unit
  stackPop : Prog Fault σ UInt32
  /-- `sp = 0`. -/
  stackClear : Prog Fault σ Unit
  /-- `get_name` into a buffer that holds `name`, or is not initialised. -/
  getName (de : DirEntry) (name : Name) : Prog Fault σ Name
  /-- `txt = malloc(n)`.  The block is written to whether there is one or not. -/
  malloc (n : Nat) : Prog Fault σ Unit
  /-- `free(txt)`. -/
  free : Prog Fault σ Unit
  /-- `device_label` is set and `device_fd` becomes what `open` returns. -/
  openDevice (label : Name) (dev : Option Device) : Prog Fault σ Unit
  /-- The device has been closed, and `reset()` is called. -/
  reset : Prog Fault σ Unit

instance serverMachine : Machine Server where
  onServer p := p
  stackPush := stackPush
  stackPop := stackPop
  stackClear := Prog.modify fun s => { s with stack := [] }
  getName de name := pure (getName de name)
  malloc _ := pure ()
  free := pure ()
  openDevice label dev := Prog.modify fun s => { s with deviceLabel := label, deviceFd := dev }
  reset := Prog.modify Server.reset

section

variable {σ α : Type} [Machine σ]

def onServer (p : ServerM α) : Prog Fault σ α := Machine.onServer p

def onDrive (p : DriveM α) : Prog Fault σ α := onServer (liftM p)

/-- The globals as they are. -/
def globals : Prog Fault σ Server := onServer Prog.get

end

section

variable {α : Type}

@[simp] theorem onServer_server (p : ServerM α) : (onServer p : ServerM α) = p := rfl

@[simp] theorem onDrive_server (p : DriveM α) : (onDrive p : ServerM α) = liftM p := rfl

@[simp] theorem globals_server : (globals : ServerM Server) = Prog.get := rfl

@[simp] theorem stackPush_server (sector : UInt32) :
    (Machine.stackPush sector : ServerM Unit) = stackPush sector := rfl

@[simp] theorem stackPop_server : (Machine.stackPop : ServerM UInt32) = stackPop := rfl

@[simp] theorem stackClear_server : (Machine.stackClear : ServerM Unit) =
    Prog.modify fun s => { s with stack := [] } := rfl

@[simp] theorem getName_server (de : DirEntry) (name : Name) :
    (Machine.getName de name : ServerM Name) = pure (getName de name) := rfl

@[simp] theorem getName_server_bind (de : DirEntry) (name : Name) (f : Name → ServerM α) :
    Machine.getName de name >>= f = f (getName de name) := rfl

@[simp] theorem malloc_server_bind (n : Nat) (f : Unit → ServerM α) :
    Machine.malloc n >>= f = f () := rfl

@[simp] theorem free_server_bind (f : Unit → ServerM α) : Machine.free >>= f = f () := rfl

@[simp] theorem openDevice_server (label : Name) (dev : Option Device) :
    (Machine.openDevice label dev : ServerM Unit) =
      Prog.modify fun s => { s with deviceLabel := label, deviceFd := dev } := rfl

@[simp] theorem reset_server : (Machine.reset : ServerM Unit) = Prog.modify Server.reset := rfl

end

end Fat32s
