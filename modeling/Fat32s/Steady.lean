/-
  Fat32s/Steady.lean
  ==================
  **Programs that do not look at what a run leaves behind.**

  The text already printed, the records of the run and what the stack memory happens to
  hold are no part of a session, and nor is the label, which only the handlers of mount
  and unmount use.  A program is steady if it runs in the same way whatever these are, and
  leaves the rollback stack and the descriptor alone.  All that the functions run on the
  globals is of this kind, but for the declaration of a buffer.
-/
import Fat32s.Lib.Commute
import Fat32s.Rollback

namespace Fat32s

open Fat32s.Lib Fat32s.Lib.Prog

/-- What a run has recorded and printed before, and what else a session is not about. -/
structure Past where
  trace : List Event
  stored : List (Nat × Nat)
  out : List UInt8
  junk : Nat → Name
  label : Name

namespace Past

def drive (h : Past) (d : Drive) : Drive := { d with trace := d.trace ++ h.trace }

/-- The server with these records and this text before its own, and with this memory and
    label in place of its own. -/
def server (h : Past) (s : Server) : Server :=
  { s with
    toDrive := h.drive s.toDrive
    deviceLabel := h.label
    scratch := ⟨h.junk, s.scratch.stored ++ h.stored⟩
    out := h.out ++ s.out }

variable (h : Past)

/-! ### util.c and mount.c -/

theorem log (e : Event) : Commutes h.drive (log e) := commutes_modify fun _ => rfl

theorem getFatSector (cluster : UInt32) : Commutes h.drive (getFatSector cluster) :=
  commutes_get_bind (fun _ => rfl) fun _ =>
    commutes_bind (commutes_check _ _) fun _ => commutes_pure _

theorem getFatOffset (cluster : UInt32) : Commutes h.drive (getFatOffset cluster) :=
  commutes_get_bind (fun _ => rfl) fun _ =>
    commutes_bind (commutes_check _ _) fun _ => commutes_pure _

theorem sectorToCluster (sector : UInt32) : Commutes h.drive (sectorToCluster sector) :=
  commutes_get_bind (fun _ => rfl) fun _ =>
    commutes_bind (commutes_check _ _) fun _ => commutes_pure _

theorem loadSector (sector : UInt32) : Commutes h.drive (loadSector sector) := by
  refine commutes_get_bind (fun _ => rfl) ?_
  intro d
  split
  · apply commutes_bind (commutes_check _ _)
    intro _
    exact commutes_bind (commutes_modify fun _ => rfl) fun _ => commutes_pure _
  · exact commutes_bind (h.log _) fun _ => commutes_pure _

theorem fatGet (cluster : UInt32) : Commutes h.drive (fatGet cluster) := by
  apply commutes_bind (h.getFatSector cluster)
  intro sector
  apply commutes_bind (h.loadSector sector)
  intro _
  apply commutes_bind (h.getFatOffset cluster)
  intro off
  apply commutes_bind (commutes_check _ _)
  intro _
  apply commutes_bind (h.log _)
  intro _
  exact commutes_get_bind (fun _ => rfl) fun _ => commutes_pure _

theorem parseDir (off : Nat) : Commutes h.drive (parseDir off) := by
  apply commutes_bind (commutes_check _ _)
  intro _
  apply commutes_bind (commutes_check _ _)
  intro _
  apply commutes_bind (h.log _)
  intro _
  refine commutes_get_bind (fun _ => rfl) ?_
  intro d
  split
  · exact commutes_bind (commutes_modify fun _ => rfl) fun _ => commutes_pure _
  · exact commutes_bind (commutes_modify fun _ => rfl) fun _ => commutes_pure _

theorem readBpb : Commutes h.drive readBpb := by
  refine commutes_get_bind (fun _ => rfl) ?_
  intro d
  split
  dsimp only
  split
  · exact commutes_pure _
  · refine commutes_bind (commutes_modify fun _ => rfl) ?_
    intro _
    split
    · exact commutes_pure _
    · apply commutes_bind (commutes_check _ _)
      intro _
      exact commutes_bind (commutes_modify fun _ => rfl) fun _ => commutes_pure _

/-! ### The cursor -/

theorem jumpToSector (sector : UInt32) : Commutes h.drive (jumpToSector sector) := by
  refine commutes_bind (commutes_modify fun _ => rfl) ?_
  intro _
  apply commutes_bind (h.loadSector sector)
  intro _
  exact commutes_bind (h.parseDir 0) fun _ => commutes_pure _

theorem nextSector : Commutes h.drive nextSector := by
  have htail : Commutes h.drive (do
      Prog.modify fun d => { d with dirBuff := { d.dirBuff with offset := 0 } }
      let d ← Prog.get
      let _ ← Fat32s.loadSector d.dirBuff.sector : DriveM Unit) := by
    refine commutes_bind (commutes_modify fun _ => rfl) ?_
    intro _
    refine commutes_get_bind (fun _ => rfl) ?_
    intro d
    exact commutes_bind (h.loadSector _) fun _ => commutes_pure _
  refine commutes_get_bind (fun _ => rfl) ?_
  intro d
  apply commutes_bind (commutes_check _ _)
  intro _
  split
  · apply commutes_bind (h.sectorToCluster _)
    intro cluster
    apply commutes_bind (h.fatGet cluster)
    intro nextCluster
    apply commutes_bind (h.log _)
    intro _
    exact commutes_bind (commutes_modify fun _ => rfl) fun _ => htail
  · exact commutes_bind (commutes_modify fun _ => rfl) fun _ => htail

theorem nextDirEntry : Commutes h.drive nextDirEntry := by
  have htail : Commutes h.drive (do
      let d ← Prog.get
      Fat32s.parseDir d.dirBuff.offset : DriveM DirType) :=
    commutes_get_bind (fun _ => rfl) fun _ => h.parseDir _
  refine commutes_get_bind (fun _ => rfl) ?_
  intro d
  split
  · exact commutes_bind h.nextSector fun _ => htail
  · exact commutes_bind (commutes_modify fun _ => rfl) fun _ => htail

/-! ### Programs of the server -/

variable {α : Type}

theorem lift {p : DriveM α} (hp : Commutes h.drive p) :
    Commutes h.server (liftM p : ServerM α) :=
  commutes_zoom (fun _ => rfl) (fun _ _ => rfl) hp

theorem stackPop : Commutes h.server stackPop := by
  refine commutes_get_bind (fun _ => rfl) ?_
  intro s
  cases s.stack with
  | nil => exact commutes_fault _
  | cons sector rest => exact commutes_bind (commutes_modify fun _ => rfl) fun _ => commutes_pure _

theorem print (bytes : List UInt8) : Commutes h.server (print bytes) := by
  apply commutes_modify
  intro s
  change ({ h.server s with out := h.out ++ s.out ++ bytes.flatMap kputc } : Server) = _
  rw [List.append_assoc]
  rfl

theorem hop : Commutes h.server hop := by
  refine commutes_get_bind (fun _ => rfl) ?_
  intro s
  split
  · exact commutes_pure _
  · refine commutes_bind (commutes_modify fun _ => rfl) ?_
    intro _
    exact commutes_bind (h.lift (h.jumpToSector _)) fun _ => commutes_pure _

theorem catByte : Commutes h.server catByte := by
  refine commutes_get_bind (fun _ => rfl) ?_
  intro s
  apply commutes_bind (commutes_check _ _)
  intro _
  apply commutes_bind (h.lift (h.log _))
  intro _
  apply commutes_bind (h.print _)
  intro _
  refine commutes_bind (commutes_modify fun _ => rfl) ?_
  intro _
  refine commutes_get_bind (fun _ => rfl) ?_
  intro s
  split
  · exact h.lift h.nextSector
  · exact commutes_pure _

end Past

/-! ### Steady programs -/

structure Steady {α : Type} (p : ServerM α) : Prop where
  keeps : ∀ {s s' : Server} {a : α}, Returns p s a s' →
    s'.stack = s.stack ∧ s'.deviceFd = s.deviceFd
  commutes : ∀ h : Past, Commutes h.server p

theorem quiet_held (stack : List UInt32) (fd : Option Device) :
    Quiet fun s => s.stack = stack ∧ s.deviceFd = fd where
  stable _ :=
    { load := fun _ h => ⟨h.1, (Drive.load_deviceFd ..).trans h.2⟩
      cursor := fun _ h => h
      note := fun _ h => h }
  session _ _ _ _ h := h

namespace Steady

variable {α : Type}

theorem of_quiet {p : ServerM α} (hkeeps : ∀ {J : Server → Prop}, Quiet J → Preserves J p)
    (hcommutes : ∀ h : Past, Commutes h.server p) : Steady p where
  keeps {s _ _} hret := (hkeeps (quiet_held s.stack s.deviceFd)).returns hret ⟨rfl, rfl⟩
  commutes := hcommutes

theorem lift {p : DriveM α} (hkeeps : ∀ {I : Drive → Prop}, Stable I → Preserves I p)
    (hcommutes : ∀ h : Past, Commutes h.drive p) : Steady (liftM p : ServerM α) :=
  of_quiet (fun hJ => hJ.lift hkeeps) fun h => h.lift (hcommutes h)

theorem sectorToCluster (sector : UInt32) :
    Steady (liftM (sectorToCluster sector) : ServerM UInt32) :=
  lift (fun _ => Stable.sectorToCluster sector) fun h => h.sectorToCluster sector

theorem loadSector (sector : UInt32) : Steady (liftM (loadSector sector) : ServerM UInt32) :=
  lift (fun hI => hI.loadSector sector) fun h => h.loadSector sector

theorem parseDir (off : Nat) : Steady (liftM (parseDir off) : ServerM DirType) :=
  lift (fun hI => hI.parseDir off) fun h => h.parseDir off

theorem jumpToSector (sector : UInt32) : Steady (liftM (jumpToSector sector) : ServerM Unit) :=
  lift (fun hI => hI.jumpToSector sector) fun h => h.jumpToSector sector

theorem nextDirEntry : Steady (liftM nextDirEntry : ServerM DirType) :=
  lift Stable.nextDirEntry Past.nextDirEntry

theorem readBpb : Steady (liftM readBpb : ServerM Int) where
  keeps {s s' status} hret := by
    obtain ⟨d, hread, rfl⟩ := returns_liftM.mp hret
    have hkeep : Preserves (fun d : Drive => d.deviceFd = s.deviceFd) Fat32s.readBpb := by
      refine preserves_bind preserves_get fun d => ?_
      split
      dsimp only
      split
      · exact preserves_pure _
      · refine preserves_bind (preserves_modify fun _ h => h) fun _ => ?_
        split
        · exact preserves_pure _
        · refine preserves_bind (preserves_check _ _) fun _ => ?_
          exact preserves_bind (preserves_modify fun _ h => h) fun _ => preserves_pure _
    exact ⟨rfl, hkeep.returns hread rfl⟩
  commutes h := h.lift h.readBpb

theorem hop : Steady hop := of_quiet Quiet.hop Past.hop

/-- To the entry that the last hop started from. -/
theorem toLastHop : Steady (Prog.modify fun s =>
    { s with
      dirBuff := { s.dirBuff with sector := s.lastHopSector, offset := s.lastHopOffset } }) :=
  of_quiet (fun hJ => preserves_modify fun s hs => (hJ.stable s).cursor _ hs) fun _ =>
    commutes_modify fun _ => rfl

theorem store (size : Nat) (str : Name) : Steady (store size str) :=
  of_quiet (fun hJ => hJ.store size str) fun _ => commutes_modify fun _ => rfl

theorem print (bytes : List UInt8) : Steady (print bytes) :=
  of_quiet (fun hJ => hJ.print bytes) fun h => h.print bytes

theorem catBytes (n : Nat) : Steady (times n catByte) :=
  of_quiet (fun hJ => preserves_times hJ.catByte n) fun h => commutes_times h.catByte n

end Steady

end Fat32s
