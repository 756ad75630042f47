/-
  Fat32s/Frame.lean
  =================
  **What no command can break.**

  Whatever a command does, it reaches the drive only by loading sectors, by
  moving or parsing into the cursor, and by recording events.  A property of the
  drive that these three keep (`Stable`) is kept by every command, at every point
  of its run, whether it returns, faults or goes on for ever.
-/
import Fat32s.Session

namespace Fat32s

open Fat32s.Lib Fat32s.Lib.Prog

/-- An event other than a load. -/
def Event.IsNote : Event → Prop
  | .load _ _ => False
  | _ => True

/-- The property survives loads, moves of the cursor, and notes in the trace. -/
structure Stable (I : Drive → Prop) : Prop where
  load : ∀ {d : Drive} (sector : UInt32), I d → I (d.load sector)
  cursor : ∀ {d : Drive} (b : DirBuff), I d → I { d with dirBuff := b }
  note : ∀ {d : Drive} {e : Event}, e.IsNote → I d → I { d with trace := e :: d.trace }

namespace Stable

variable {I : Drive → Prop} (hI : Stable I)

include hI

/-! ### util.c -/

theorem log {e : Event} (he : e.IsNote) : Preserves I (log e) :=
  preserves_modify fun _ hd => hI.note he hd

theorem loadSector (sector : UInt32) : Preserves I (loadSector sector) := by
  intro d hd
  refine safe_bind (safe_get ?_)
  have hload := hI.load sector hd
  unfold Drive.load at hload
  by_cases hcache : d.fsData.currSector = sector
  · simp only [hcache, ne_eq, not_true_eq_false, if_false]
    rw [if_pos hcache] at hload
    exact safe_bind (safe_modify (safe_pure hload))
  · simp only [hcache, ne_eq, not_false_eq_true, if_true]
    rw [if_neg hcache] at hload
    refine safe_bind (safe_check (fun _ => ?_) fun _ => hd)
    exact safe_bind (safe_modify (safe_pure hload))

omit hI in
theorem getFatSector (cluster : UInt32) : Preserves I (getFatSector cluster) :=
  preserves_bind preserves_get fun _ =>
    preserves_bind (preserves_check _ _) fun _ => preserves_pure _

omit hI in
theorem getFatOffset (cluster : UInt32) : Preserves I (getFatOffset cluster) :=
  preserves_bind preserves_get fun _ =>
    preserves_bind (preserves_check _ _) fun _ => preserves_pure _

omit hI in
theorem sectorToCluster (sector : UInt32) : Preserves I (sectorToCluster sector) :=
  preserves_bind preserves_get fun _ =>
    preserves_bind (preserves_check _ _) fun _ => preserves_pure _

theorem fatGet (cluster : UInt32) : Preserves I (fatGet cluster) :=
  preserves_bind (getFatSector _) fun _ =>
  preserves_bind (hI.loadSector _) fun _ =>
  preserves_bind (getFatOffset _) fun _ =>
  preserves_bind (preserves_check _ _) fun _ =>
  preserves_bind (hI.log trivial) fun _ =>
  preserves_bind preserves_get fun _ => preserves_pure _

theorem parseDir (off : Nat) : Preserves I (parseDir off) := by
  refine preserves_bind (preserves_check _ _) fun _ => ?_
  refine preserves_bind (preserves_check _ _) fun _ => ?_
  refine preserves_bind (hI.log trivial) fun _ => ?_
  refine preserves_bind preserves_get fun _ => ?_
  split
  · exact preserves_bind (preserves_modify fun _ hd => hI.cursor _ hd) fun _ => preserves_pure _
  · exact preserves_bind (preserves_modify fun _ hd => hI.cursor _ hd) fun _ => preserves_pure _

theorem parsed {d : Drive} (off : Nat) (hd : I d) : I (d.parse off) := by
  have hmoved := hI.cursor { d.dirBuff with de := d.entryAt off } hd
  exact hI.note (e := .parse off) trivial hmoved

/-! ### tree.c -/

theorem jumpToSector (sector : UInt32) : Preserves I (jumpToSector sector) :=
  preserves_bind (preserves_modify fun _ hd => hI.cursor _ hd) fun _ =>
  preserves_bind (hI.loadSector _) fun _ =>
  preserves_bind (hI.parseDir _) fun _ => preserves_pure _

theorem nextSector : Preserves I nextSector := by
  have htail : Preserves I (do
      Prog.modify fun d => { d with dirBuff := { d.dirBuff with offset := 0 } }
      let d ← Prog.get
      let _ ← Fat32s.loadSector d.dirBuff.sector : DriveM Unit) :=
    preserves_bind (preserves_modify fun _ hd => hI.cursor _ hd) fun _ =>
    preserves_bind preserves_get fun _ =>
    preserves_bind (hI.loadSector _) fun _ => preserves_pure _
  refine preserves_bind preserves_get fun _ => ?_
  refine preserves_bind (preserves_check _ _) fun _ => ?_
  split
  · refine preserves_bind (sectorToCluster _) fun _ => ?_
    refine preserves_bind (hI.fatGet _) fun _ => ?_
    refine preserves_bind (hI.log trivial) fun _ => ?_
    exact preserves_bind (preserves_modify fun _ hd => hI.cursor _ hd) fun _ => htail
  · exact preserves_bind (preserves_modify fun _ hd => hI.cursor _ hd) fun _ => htail

theorem nextDirEntry : Preserves I nextDirEntry := by
  have htail : Preserves I (do
      let d ← Prog.get
      Fat32s.parseDir d.dirBuff.offset : DriveM DirType) :=
    preserves_bind preserves_get fun _ => hI.parseDir _
  refine preserves_bind preserves_get fun _ => ?_
  split
  · exact preserves_bind hI.nextSector fun _ => htail
  · exact preserves_bind (preserves_modify fun _ hd => hI.cursor _ hd) fun _ => htail

end Stable

/-! ### Programs of the server -/

/-- The property survives whatever the server does apart from saving sectors on
    the rollback stack and taking them off. -/
structure Quiet (J : Server → Prop) : Prop where
  stable : ∀ s : Server, Stable fun d => J { s with toDrive := d }
  session : ∀ {s : Server} (sector : UInt32) (offset : Nat) (sc : Scratch) (out : List UInt8),
    J s → J { s with lastHopSector := sector, lastHopOffset := offset, scratch := sc, out := out }

theorem preserves_stackPop {J : Server → Prop}
    (h : ∀ {s : Server} {sector : UInt32} {rest : List UInt32}, s.stack = sector :: rest → J s →
      J { s with stack := rest }) : Preserves J stackPop := by
  intro s hs
  refine safe_bind (safe_get ?_)
  cases hstack : s.stack with
  | nil => exact safe_fault hs
  | cons sector rest => exact safe_bind (safe_modify (safe_pure (h hstack hs)))

theorem Stable.quiet {I : Drive → Prop} (hI : Stable I) : Quiet fun s => I s.toDrive :=
  ⟨fun _ => hI, fun _ _ _ _ hs => hs⟩

theorem preserves_getName {J : Server → Prop} (de : DirEntry) (name : Name) :
    Preserves J (Machine.getName de name : ServerM Name) := preserves_pure _

namespace Quiet

variable {J : Server → Prop} {α : Type} (hJ : Quiet J)

include hJ

theorem lift {p : DriveM α} (hp : ∀ {I : Drive → Prop}, Stable I → Preserves I p) :
    Preserves J (liftM p : ServerM α) := by
  intro s hs
  exact safe_liftM (hp (hJ.stable s) s.toDrive hs)

theorem newBuffer : Preserves J newBuffer :=
  preserves_bind preserves_get fun _ =>
  preserves_bind (preserves_modify fun s hs => hJ.session _ _ _ s.out hs) fun _ => preserves_pure _

theorem store (size : Nat) (str : Name) : Preserves J (store size str) :=
  preserves_modify fun s hs => hJ.session _ _ _ s.out hs

theorem print (bytes : List UInt8) : Preserves J (print bytes) :=
  preserves_modify fun s hs => hJ.session s.lastHopSector s.lastHopOffset s.scratch _ hs

theorem hop : Preserves J hop := by
  refine preserves_bind preserves_get fun _ => ?_
  split
  · exact preserves_pure _
  · refine preserves_bind (preserves_modify fun s hs => hJ.session _ _ s.scratch s.out hs) ?_
    intro _
    exact preserves_bind (hJ.lift fun hI => hI.jumpToSector _) fun _ => preserves_pure _

theorem addPiece (de : DirEntry) (names : Names) : Preserves J (addPiece de names) :=
  preserves_bind (preserves_getName _ _) fun _ =>
  preserves_bind (hJ.store _ _) fun _ =>
  preserves_bind (hJ.store _ _) fun _ =>
  preserves_bind (hJ.store _ _) fun _ => preserves_pure _

theorem ownName (de : DirEntry) (names : Names) : Preserves J (ownName de names) := by
  unfold Fat32s.ownName
  split
  · exact preserves_bind (preserves_getName _ _) fun _ =>
      preserves_bind (hJ.store _ _) fun _ =>
      preserves_bind (hJ.store _ _) fun _ => preserves_pure _
  · exact preserves_pure _

theorem scan {hit : DirEntry → Name → ServerM (Option α)} (atEnd : Name → α)
    (hhit : ∀ de name, Preserves J (hit de name)) : Preserves J (scan hit atEnd) := by
  refine preserves_bind hJ.newBuffer fun _ => preserves_iter ?_ _
  intro names
  refine preserves_bind preserves_get fun s => ?_
  cases s.dirBuff.de.type with
  | undefined => exact preserves_pure _
  | long =>
    exact preserves_bind (hJ.addPiece _ _) fun _ =>
      preserves_bind (hJ.lift Stable.nextDirEntry) fun _ => preserves_pure _
  | short =>
    refine preserves_bind (hJ.ownName _ _) fun _ => preserves_bind (hhit _ _) fun o => ?_
    cases o with
    | some a => exact preserves_pure _
    | none => exact preserves_bind (hJ.lift Stable.nextDirEntry) fun _ => preserves_pure _

theorem findChild (query : Name) : Preserves J (findChild query) :=
  hJ.scan _ fun _ _ => preserves_pure _

theorem findChildByClusterId (id : UInt32) : Preserves J (findChildByClusterId id) :=
  hJ.scan _ fun _ _ => preserves_pure _

theorem listEntries : Preserves J listEntries :=
  hJ.scan _ fun _ _ => preserves_bind (hJ.print _) fun _ => preserves_pure _

theorem catByte : Preserves J catByte := by
  refine preserves_bind preserves_get fun _ => preserves_bind (preserves_check _ _) fun _ => ?_
  refine preserves_bind (hJ.lift fun hI => hI.log trivial) fun _ => ?_
  refine preserves_bind (hJ.print _) fun _ => ?_
  refine preserves_bind (preserves_modify fun s hs => (hJ.stable s).cursor _ hs) fun _ => ?_
  refine preserves_bind preserves_get fun _ => ?_
  split
  · exact hJ.lift Stable.nextSector
  · exact preserves_pure _

theorem printRegularDirEntry (rde : Slot) : Preserves J (printRegularDirEntry rde) := by
  have hname : Preserves J (printShortNameRde rde) :=
    preserves_bind hJ.newBuffer fun _ =>
    preserves_bind (preserves_getName _ _) fun _ =>
    preserves_bind (hJ.store _ _) fun _ => hJ.print _
  unfold Fat32s.printRegularDirEntry
  refine preserves_bind (hJ.print _) fun _ => preserves_bind hname fun _ => ?_
  repeat refine preserves_bind (hJ.print _) fun _ => ?_
  exact hJ.print _

variable (hpop : Preserves J Fat32s.stackPop)

include hpop

theorem rollback : Preserves J rollback :=
  preserves_bind hpop fun _ => hJ.lift fun hI => hI.jumpToSector _

theorem visit (banFiles banDirs : Bool) (segment : Name) (more : Bool) :
    Preserves J (visit banFiles banDirs segment more) := by
  refine preserves_bind (hJ.findChild _) fun _ => ?_
  split
  · exact preserves_bind (hJ.rollback hpop) fun _ => preserves_pure _
  · refine preserves_bind preserves_get fun _ => ?_
    dsimp only
    split
    · exact preserves_bind (hJ.rollback hpop) fun _ => preserves_pure _
    · exact preserves_bind hJ.hop fun _ => preserves_pure _

theorem walkLoop (banFiles banDirs : Bool) (len : Nat) (w : WalkVars) :
    Preserves J (iter (walkStep banFiles banDirs len) w) := by
  refine preserves_iter ?_ _
  intro w
  unfold walkStep
  split
  · refine preserves_bind (hJ.visit hpop _ _ _ _) fun o => ?_
    cases o with
    | some status => exact preserves_pure _
    | none => exact preserves_pure _
  · exact preserves_bind hpop fun _ => preserves_pure _

theorem statEntry (lastName : Name) : Preserves J (statEntry lastName) := by
  refine preserves_bind (hJ.findChild _) fun _ => ?_
  split
  · exact preserves_bind (hJ.rollback hpop) fun _ => preserves_pure _
  · refine preserves_bind preserves_get fun _ => ?_
    refine preserves_bind (hJ.printRegularDirEntry _) fun _ => ?_
    refine preserves_bind (hJ.print _) fun _ => ?_
    exact preserves_bind (hJ.rollback hpop) fun _ => preserves_pure _

/-! ### The commands -/

variable (hpush : ∀ sector, Preserves J (Fat32s.stackPush sector))

include hpush

theorem walk (path : Name) (flags : Nat) : Preserves J (walk path flags) :=
  preserves_bind preserves_get fun _ =>
  preserves_bind (hpush _) fun _ => hJ.walkLoop hpop _ _ _ _

theorem pwd : Preserves J pwd := by
  refine preserves_bind preserves_get fun _ => ?_
  refine preserves_bind (hpush _) fun _ => ?_
  refine preserves_bind (hJ.lift fun _ => Stable.sectorToCluster _) fun _ => preserves_iter ?_ _
  intro w
  refine preserves_bind (hJ.findChild _) fun _ => ?_
  split
  · refine preserves_bind hJ.hop fun _ => preserves_bind preserves_get fun _ => ?_
    refine preserves_bind (hpush _) fun _ => ?_
    refine preserves_bind (hJ.findChildByClusterId _) fun found => ?_
    obtain ⟨name, success⟩ := found
    dsimp only
    split
    · exact preserves_bind (hJ.print _) fun _ => preserves_pure _
    · refine preserves_bind (hJ.store _ _) fun _ => preserves_bind (hJ.store _ _) fun _ => ?_
      refine preserves_bind (hJ.rollback hpop) fun _ => preserves_bind preserves_get fun _ => ?_
      exact preserves_bind (hJ.lift fun _ => Stable.sectorToCluster _) fun _ => preserves_pure _
  · exact preserves_bind (hJ.print _) fun _ =>
      preserves_bind (hJ.rollback hpop) fun _ => preserves_pure _

theorem cd (path : Name) : Preserves J (cd path) := by
  refine preserves_bind preserves_get fun _ => preserves_bind (hpush _) fun _ => ?_
  refine preserves_bind (hJ.walk hpop hpush _ _) fun _ => ?_
  split
  · exact preserves_bind (hJ.rollback hpop) fun _ => preserves_pure _
  · exact preserves_bind hpop fun _ => preserves_pure _

theorem ls (path : Name) : Preserves J (ls path) := by
  have htail : ∀ status : Int, Preserves J (if status ≠ 0 then do
      Fat32s.rollback
      return status
    else do
      Fat32s.listEntries
      Fat32s.rollback
      return OK) := by
    intro status
    split
    · exact preserves_bind (hJ.rollback hpop) fun _ => preserves_pure _
    · exact preserves_bind hJ.listEntries fun _ =>
        preserves_bind (hJ.rollback hpop) fun _ => preserves_pure _
  refine preserves_bind preserves_get fun _ => preserves_bind (hpush _) fun _ => ?_
  split
  · exact preserves_bind (preserves_pure _) htail
  · exact preserves_bind (hJ.cd hpop hpush path) htail

theorem lastHopSize : Preserves J lastHopSize := by
  refine preserves_bind preserves_get fun _ => preserves_bind (hpush _) fun _ => ?_
  refine preserves_bind (preserves_modify fun s hs => (hJ.stable s).cursor _ hs) fun _ => ?_
  refine preserves_bind preserves_get fun _ => ?_
  refine preserves_bind (hJ.lift fun hI => hI.loadSector _) fun _ => ?_
  refine preserves_bind (hJ.lift fun hI => hI.parseDir _) fun _ => ?_
  refine preserves_bind preserves_get fun _ => ?_
  exact preserves_bind (hJ.rollback hpop) fun _ => preserves_pure _

theorem cat (path : Name) : Preserves J (cat path) := by
  refine preserves_bind preserves_get fun _ => preserves_bind (hpush _) fun _ => ?_
  refine preserves_bind (hJ.walk hpop hpush _ _) fun _ => ?_
  split
  · exact preserves_bind (hJ.rollback hpop) fun _ => preserves_pure _
  · refine preserves_bind (hJ.lastHopSize hpop hpush) fun _ => ?_
    refine preserves_bind (preserves_times hJ.catByte _) fun _ => ?_
    exact preserves_bind (hJ.print _) fun _ =>
      preserves_bind (hJ.rollback hpop) fun _ => preserves_pure _

theorem stat (path : Name) : Preserves J (stat path) := by
  refine preserves_bind preserves_get fun _ => preserves_bind (hpush _) fun _ => ?_
  split
  · exact hJ.statEntry hpop _
  · refine preserves_bind (hJ.walk hpop hpush _ _) fun _ => ?_
    split
    · exact preserves_bind (hJ.rollback hpop) fun _ => preserves_pure _
    · exact hJ.statEntry hpop _

theorem command (cmd : Command) : Preserves J cmd.run := by
  cases cmd with
  | pwd => exact hJ.pwd hpop hpush
  | cd path => exact hJ.cd hpop hpush path
  | ls path => exact hJ.ls hpop hpush path
  | cat path => exact hJ.cat hpop hpush path
  | stat path => exact hJ.stat hpop hpush path

end Quiet

/-- **Every command keeps a stable property of the drive.** -/
theorem Stable.command {I : Drive → Prop} (hI : Stable I) (cmd : Command) :
    Preserves (fun s : Server => I s.toDrive) cmd.run :=
  hI.quiet.command (preserves_stackPop fun _ hs => hs)
    (fun _ => preserves_modify fun _ hs => hs) cmd

end Fat32s
