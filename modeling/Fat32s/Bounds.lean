/-
  Fat32s/Bounds.lean
  ==================
  **No command faults or leaves the sector buffer, whatever the disk holds.**

  All that is asked for is a geometry that the sector buffer can serve: whole
  slots in a sector, no more than the buffer holds, and clusters that are not
  empty.  Then no command divides by zero, pops an empty stack or reads the
  buffer outside of the current sector, on any disk, in any state between two
  requests, and in the middle of runs that never end too.
-/
import Fat32s.Rollback
import Fat32s.Image

namespace Fat32s

open Fat32s.Lib Fat32s.Lib.Prog

variable {d d' old : Drive} {s : Server}

/-- Every run of the program avoids faults, and if it returns it satisfies `Q`. -/
abbrev Sound {σ α : Type} (p : Prog Fault σ α) (s : σ) (Q : α → σ → Prop) : Prop :=
  Safe (fun r _ => r = none) p s Q

/-! ### Programs without loops -/

theorem prompt_lift {α : Type} {p : DriveM α} (hp : Prompt p) : Prompt (liftM p : ServerM α) :=
  prompt_zoom hp

theorem prompt_loadSector (sector : UInt32) : Prompt (loadSector sector) := by
  refine prompt_bind prompt_get fun d => ?_
  split
  · exact prompt_bind (prompt_check _ _) fun _ =>
      prompt_bind (prompt_modify _) fun _ => prompt_pure _
  · exact prompt_bind (prompt_modify _) fun _ => prompt_pure _

theorem prompt_parseDir (off : Nat) : Prompt (parseDir off) := by
  refine prompt_bind (prompt_check _ _) fun _ => prompt_bind (prompt_check _ _) fun _ => ?_
  refine prompt_bind (prompt_modify _) fun _ => prompt_bind prompt_get fun d => ?_
  split
  · exact prompt_bind (prompt_modify _) fun _ => prompt_pure _
  · exact prompt_bind (prompt_modify _) fun _ => prompt_pure _

theorem prompt_jumpToSector (sector : UInt32) : Prompt (jumpToSector sector) :=
  prompt_bind (prompt_modify _) fun _ =>
  prompt_bind (prompt_loadSector _) fun _ =>
  prompt_bind (prompt_parseDir _) fun _ => prompt_pure _

theorem prompt_sectorToCluster (sector : UInt32) : Prompt (sectorToCluster sector) :=
  prompt_bind prompt_get fun _ => prompt_bind (prompt_check _ _) fun _ => prompt_pure _

theorem prompt_fatGet (cluster : UInt32) : Prompt (fatGet cluster) :=
  prompt_bind (prompt_bind prompt_get fun _ =>
    prompt_bind (prompt_check _ _) fun _ => prompt_pure _) fun _ =>
  prompt_bind (prompt_loadSector _) fun _ =>
  prompt_bind (prompt_bind prompt_get fun _ =>
    prompt_bind (prompt_check _ _) fun _ => prompt_pure _) fun _ =>
  prompt_bind (prompt_check _ _) fun _ =>
  prompt_bind (prompt_modify _) fun _ => prompt_bind prompt_get fun _ => prompt_pure _

theorem prompt_nextSector : Prompt nextSector := by
  have htail : Prompt (do
      Prog.modify fun d => { d with dirBuff := { d.dirBuff with offset := 0 } }
      let d ← Prog.get
      let _ ← loadSector d.dirBuff.sector : DriveM Unit) :=
    prompt_bind (prompt_modify _) fun _ =>
    prompt_bind prompt_get fun _ => prompt_bind (prompt_loadSector _) fun _ => prompt_pure _
  refine prompt_bind prompt_get fun d => prompt_bind (prompt_check _ _) fun _ => ?_
  split
  · exact prompt_bind (prompt_sectorToCluster _) fun _ =>
      prompt_bind (prompt_fatGet _) fun _ =>
      prompt_bind (prompt_modify _) fun _ => prompt_bind (prompt_modify _) fun _ => htail
  · exact prompt_bind (prompt_modify _) fun _ => htail

theorem prompt_nextDirEntry : Prompt nextDirEntry := by
  have htail : Prompt (do
      let d ← Prog.get
      parseDir d.dirBuff.offset : DriveM DirType) :=
    prompt_bind prompt_get fun _ => prompt_parseDir _
  refine prompt_bind prompt_get fun d => ?_
  split
  · exact prompt_bind prompt_nextSector fun _ => htail
  · exact prompt_bind (prompt_modify _) fun _ => htail

theorem prompt_stackPop : Prompt stackPop := by
  refine prompt_bind prompt_get fun s => ?_
  cases s.stack with
  | nil => exact prompt_fault _
  | cons sector rest => exact prompt_bind (prompt_modify _) fun _ => prompt_pure _

theorem prompt_rollback : Prompt (rollback : ServerM Unit) :=
  prompt_bind prompt_stackPop fun _ => prompt_lift (prompt_jumpToSector _)

theorem prompt_rollback_then {α : Type} (a : α) : Prompt (do rollback; return a : ServerM α) :=
  prompt_bind prompt_rollback fun _ => prompt_pure a

theorem prompt_hop : Prompt hop := by
  refine prompt_bind prompt_get fun s => ?_
  split
  · exact prompt_pure _
  · exact prompt_bind (prompt_modify _) fun _ =>
      prompt_bind (prompt_lift (prompt_jumpToSector _)) fun _ => prompt_pure _

theorem prompt_catByte : Prompt catByte := by
  refine prompt_bind prompt_get fun s => prompt_bind (prompt_check _ _) fun _ => ?_
  refine prompt_bind (prompt_lift (prompt_modify _)) fun _ => ?_
  refine prompt_bind (prompt_modify _) fun _ => ?_
  refine prompt_bind (prompt_modify _) fun _ => prompt_bind prompt_get fun s => ?_
  split
  · exact prompt_lift prompt_nextSector
  · exact prompt_pure _

theorem prompt_lastHopSize : Prompt (lastHopSize : ServerM UInt32) :=
  prompt_bind prompt_get fun _ =>
  prompt_bind (prompt_modify _) fun _ =>
  prompt_bind (prompt_modify _) fun _ =>
  prompt_bind prompt_get fun _ =>
  prompt_bind (prompt_lift (prompt_loadSector _)) fun _ =>
  prompt_bind (prompt_lift (prompt_parseDir _)) fun _ =>
  prompt_bind prompt_get fun _ => prompt_rollback_then _

theorem prompt_printRegularDirEntry (u : Slot) :
    Prompt (printRegularDirEntry u : ServerM Unit) := by
  have hname : Prompt (printShortNameRde u : ServerM Unit) :=
    prompt_bind (prompt_bind prompt_get fun _ =>
      prompt_bind (prompt_modify _) fun _ => prompt_pure _) fun _ =>
    prompt_bind (prompt_pure _) fun _ =>
    prompt_bind (prompt_modify _) fun _ => prompt_modify _
  refine prompt_bind (prompt_modify _) fun _ => prompt_bind hname fun _ => ?_
  repeat refine prompt_bind (prompt_modify _) fun _ => ?_
  exact prompt_modify _

/-! ### The drive -/

/-- The sectors of the drive can be loaded and taken apart. -/
structure Drive.Usable (d : Drive) : Prop where
  slots : 32 ∣ d.bpb.bytesPerSector.toNat
  pos : 0 < d.bpb.bytesPerSector.toNat
  le : d.bpb.bytesPerSector.toNat ≤ MAX_BYTES_PER_SECTOR
  spc : d.bpb.spc ≠ 0

/-- The cursor stands at a slot of its sector. -/
structure Drive.AtSlot (d : Drive) : Prop extends d.Usable where
  aligned : 32 ∣ d.dirBuff.offset
  inside : d.dirBuff.offset + 32 ≤ d.bpb.bytesPerSector.toNat

/-- The buffer is read inside of a sector of `bps` bytes only, and entries are
    parsed where a slot begins. -/
def Event.Within (bps : Nat) : Event → Prop
  | .parse off => off % 32 = 0 ∧ off + 32 ≤ bps
  | .fat off => off + 4 ≤ bps
  | .byte off => off < bps
  | _ => True

/-- So it was since the drive was `old`, and the geometry is still the same. -/
structure Drive.Logs (d old : Drive) : Prop where
  bpb : d.bpb = old.bpb
  within : d.Adds (Event.Within old.bpb.bytesPerSector.toNat) old.trace

theorem Drive.Logs.event {e : Event} (h : d.Logs old) (hbpb : d'.bpb = d.bpb)
    (htrace : d'.trace = e :: d.trace) (he : e.Within d.bpb.bytesPerSector.toNat) :
    d'.Logs old := by
  rw [h.bpb] at he
  exact ⟨hbpb.trans h.bpb, h.within.event htrace he⟩

theorem Drive.Logs.seek (h : d.Logs old) (sector : UInt32) (offset : Nat) :
    (d.seek sector offset).Logs old := ⟨h.bpb, h.within⟩

theorem Drive.Logs.load (h : d.Logs old) (sector : UInt32) : (d.load sector).Logs old :=
  h.event (d.load_bpb sector) (d.load_trace sector) trivial

namespace Drive.Usable

theorem of_bpb (h : d.Usable) (hbpb : d'.bpb = d.bpb) : d'.Usable := by
  obtain ⟨hslots, hpos, hle, hspc⟩ := h
  rw [← hbpb] at hslots hpos hle hspc
  exact ⟨hslots, hpos, hle, hspc⟩

theorem fits (h : d.Usable) (sector : UInt32) : d.Fits sector := Drive.fits_of_le h.le sector

theorem four_dvd_bps (h : d.Usable) : 4 ∣ d.bpb.bytesPerSector.toNat :=
  Nat.dvd_trans (by decide) h.slots

/-- FAT entries do not straddle the end of a sector. -/
theorem fatOffset_le (h : d.Usable) (c : UInt32) :
    d.fatOffset c + 4 ≤ d.bpb.bytesPerSector.toNat :=
  Drive.fatOffset_add_le h.four_dvd_bps h.pos c

theorem fatOk (h : d.Usable) (c : UInt32) : d.FatOk c :=
  Drive.fatOk_of_dvd h.four_dvd_bps h.pos h.le c

theorem atSlot_jump (h : d.Usable) (sector : UInt32) : (d.jump sector).AtSlot := by
  refine ⟨h.of_bpb (Drive.jump_bpb d sector), ?_, ?_⟩
  · rw [Drive.jump_offset]
    exact Nat.dvd_zero 32
  · rw [Drive.jump_offset, Drive.jump_bpb, Nat.zero_add]
    exact Nat.le_of_dvd h.pos h.slots

theorem logs_jump (h : d.Usable) (hlog : d.Logs old) (sector : UInt32) :
    (d.jump sector).Logs old := by
  refine ((hlog.seek sector 0).load sector).event (e := .parse 0) rfl rfl ⟨rfl, ?_⟩
  rw [Drive.load_bpb, Nat.zero_add]
  exact Nat.le_of_dvd h.pos h.slots

theorem logs_followed (h : d.Usable) (hlog : d.Logs old) : d.followed.Logs old := by
  have hread : ∀ c, (d.fatRead c).Logs old := by
    intro c
    refine (hlog.load (d.fatSector c)).event (e := .fat (d.fatOffset c)) rfl rfl ?_
    rw [Drive.load_bpb]
    exact h.fatOffset_le c
  exact (hread _).event (e := .follow _) rfl rfl trivial

/-- The cursor can always be moved to the next sector. -/
theorem returns_nextSector (h : d.Usable) (hlog : d.Logs old) :
    ∃ d', Returns nextSector d () d' ∧ d'.bpb = d.bpb ∧ d'.dirBuff.offset = 0 ∧ d'.Logs old := by
  by_cases hend : d.AtClusterEnd
  · have hbpb : d.followed.bpb = d.bpb := by simp [Drive.followed, Drive.fatRead]
    exact ⟨_, (returns_nextSector_of_atClusterEnd hend).mpr
      ⟨h.spc, h.fatOk _, (h.of_bpb hbpb).fits _, rfl⟩, by simp [Drive.seek, hbpb],
      by simp [Drive.seek], ((h.logs_followed hlog).seek _ _).load _⟩
  · exact ⟨_, (returns_nextSector_of_not_atClusterEnd hend).mpr ⟨h.spc, h.fits _, rfl⟩,
      by simp [Drive.seek], by simp [Drive.seek], (hlog.seek _ _).load _⟩

end Drive.Usable

/-- And from slot to slot. -/
theorem Drive.AtSlot.returns_nextDirEntry (h : d.AtSlot) (hlog : d.Logs old) :
    ∃ t d', Returns nextDirEntry d t d' ∧ d'.AtSlot ∧ d'.Logs old := by
  have hle := h.le
  have hparse : ∀ {d₁ : Drive}, d₁.bpb = d.bpb → d₁.Logs old → 32 ∣ d₁.dirBuff.offset →
      d₁.dirBuff.offset + 32 ≤ d.bpb.bytesPerSector.toNat →
      ∃ t d', Returns (parseDir d₁.dirBuff.offset) d₁ t d' ∧ d'.AtSlot ∧ d'.Logs old := by
    intro d₁ hbpb hlog₁ haligned hinside
    have hmod := Nat.mod_eq_zero_of_dvd haligned
    refine ⟨_, _, returns_parseDir.mpr ⟨hmod, ?_, rfl, rfl⟩,
      ⟨h.toUsable.of_bpb hbpb, haligned, ?_⟩, ?_⟩
    · exact Nat.le_trans hinside hle
    · change _ ≤ d₁.bpb.bytesPerSector.toNat
      rwa [hbpb]
    · refine hlog₁.event (e := .parse d₁.dirBuff.offset) rfl rfl ⟨hmod, ?_⟩
      rwa [hbpb]
  by_cases hend : d.dirBuff.offset + DIRENTRY_SIZE = d.bpb.bytesPerSector.toNat
  · obtain ⟨d₁, hsector, hbpb, hzero, hlog₁⟩ := h.toUsable.returns_nextSector hlog
    obtain ⟨t, d', hret, hat⟩ := hparse hbpb hlog₁ (by rw [hzero]; exact Nat.dvd_zero 32)
      (by rw [hzero, Nat.zero_add]; exact Nat.le_of_dvd h.pos h.slots)
    exact ⟨t, d', (returns_nextDirEntry_of_eq hend).mpr ⟨d₁, hsector, hret⟩, hat⟩
  · have hinside : d.dirBuff.offset + 32 + 32 ≤ d.bpb.bytesPerSector.toNat := by
      have h32 := h.aligned
      have hmul := h.slots
      have hle' := h.inside
      unfold DIRENTRY_SIZE at hend
      omega
    have hbpb : (d.seek d.dirBuff.sector (d.dirBuff.offset + 32)).bpb = d.bpb := rfl
    obtain ⟨t, d', hret, hat⟩ :=
      hparse hbpb (hlog.seek _ _) (Nat.dvd_add h.aligned (Nat.dvd_refl 32)) hinside
    exact ⟨t, d', (returns_nextDirEntry_of_ne hend).mpr hret, hat⟩

/-! ### The session -/

/-- Between two requests: the cursor stands at a slot, and so did the last hop. -/
structure Server.Ready (s : Server) : Prop where
  cursor : s.AtSlot
  hopAligned : 32 ∣ s.lastHopOffset
  hopInside : s.lastHopOffset + 32 ≤ s.bpb.bytesPerSector.toNat

/-- The session of `s'` is that of `s` apart from the drive, which has the same geometry. -/
theorem Server.Ready.of_drive {s' : Server} (h : s.Ready) (hcursor : s'.AtSlot)
    (hbpb : s'.bpb = s.bpb) (hoff : s'.lastHopOffset = s.lastHopOffset) : s'.Ready := by
  refine ⟨hcursor, ?_, ?_⟩
  · rw [hoff]
    exact h.hopAligned
  · rw [hoff, hbpb]
    exact h.hopInside

theorem Server.Ready.pushed (h : s.Ready) (stack : List UInt32) :
    Server.Ready { s with stack := stack } :=
  ⟨h.cursor, h.hopAligned, h.hopInside⟩

/-- The server is ready, and no access since the drive was `old` left the sector. -/
structure Server.Steady (s : Server) (old : Drive) : Prop extends s.Ready where
  logs : s.Logs old

theorem Server.Steady.pushed (h : s.Steady old) (stack : List UInt32) :
    Server.Steady { s with stack := stack } old :=
  ⟨h.toReady.pushed stack, h.logs⟩

theorem Server.Steady.usable (h : s.Steady old) : s.Usable := h.cursor.toUsable

theorem Server.Steady.back {s' : Server} {sector : UInt32} (h : s.Steady old)
    (hdrive : s'.toDrive = s.toDrive.jump sector) (hoff : s'.lastHopOffset = s.lastHopOffset) :
    s'.Steady old := by
  refine ⟨h.of_drive ?_ ?_ hoff, ?_⟩
  · rw [hdrive]
    exact h.usable.atSlot_jump sector
  · rw [hdrive, Drive.jump_bpb]
  · rw [hdrive]
    exact h.usable.logs_jump h.logs sector

theorem quiet_bpb (bpb : Bpb) : Quiet fun s => s.bpb = bpb := by
  refine ⟨fun _ => ⟨?_, fun _ h => h, fun _ h => h⟩, fun _ _ _ _ h => h⟩
  intro d sector h
  exact (Drive.load_bpb d sector).trans h

/-- At no point of a run of the program is there a fault or an access outside of
    the sector, and if it returns it satisfies `Q`. -/
abbrev Guarded {α : Type} (old : Drive) (p : ServerM α) (s : Server)
    (Q : α → Server → Prop) : Prop :=
  Safe (fun r s' => r = none ∧ s'.Logs old) p s Q

theorem guarded_lift {α : Type} {p : DriveM α} {a : α} {d' : Drive} {Q : α → Server → Prop}
    (hp : Prompt p) (h : Returns p s.toDrive a d') (hQ : Q a { s with toDrive := d' }) :
    Guarded old (liftM p : ServerM α) s Q :=
  (prompt_lift hp).safe (returns_liftM.mpr ⟨d', h, rfl⟩) hQ

theorem guarded_jump {sector : UInt32} {Q : Unit → Server → Prop} (hs : s.Usable)
    (hQ : Q () { s with toDrive := s.toDrive.jump sector }) :
    Guarded old (liftM (jumpToSector sector) : ServerM Unit) s Q := by
  have hret : Returns (jumpToSector sector) s.toDrive () (s.toDrive.jump sector) :=
    returns_jumpToSector.mpr ⟨hs.fits _, rfl⟩
  exact guarded_lift (prompt_jumpToSector sector) hret hQ

theorem guarded_rollback {sector : UInt32} {rest : List UInt32} {Q : Unit → Server → Prop}
    (hs : s.Usable) (hstack : s.stack = sector :: rest)
    (hQ : Q () { s with stack := rest, toDrive := s.toDrive.jump sector }) :
    Guarded old rollback s Q := by
  have hret : Returns rollback s () { s with stack := rest, toDrive := s.toDrive.jump sector } :=
    returns_rollback.mpr ⟨sector, rest, hstack, hs.fits _, rfl⟩
  exact prompt_rollback.safe hret hQ

theorem Server.Steady.guarded_back {α : Type} {sector : UInt32} {rest : List UInt32} {a : α}
    (h : s.Steady old) (hstack : s.stack = sector :: rest) :
    Guarded old (do rollback; return a) s fun _ s' => s'.Steady old :=
  safe_bind (guarded_rollback h.usable hstack (safe_pure (h.back rfl rfl)))

/-- A scan moves from slot to slot. -/
theorem guarded_scan {α : Type} {hit : DirEntry → Name → ServerM (Option α)} {atEnd : Name → α}
    (hhit : ∀ de name (s : Server), s.AtSlot ∧ s.Logs old →
      Guarded old (hit de name) s fun _ s' => s'.AtSlot ∧ s'.Logs old)
    (hs : s.AtSlot ∧ s.Logs old) :
    Guarded old (scan hit atEnd) s fun _ s' => s'.AtSlot ∧ s'.Logs old := by
  refine safe_bind (safe_bind (safe_get ?_))
  refine safe_bind (safe_modify (safe_pure ?_))
  refine safe_iter (fun _ s => s.AtSlot ∧ s.Logs old) (fun _ _ h => ⟨rfl, h.2⟩) ?_ hs
  intro names s hs
  refine safe_bind (safe_get ?_)
  cases s.dirBuff.de.type with
  | undefined => exact safe_pure hs
  | long =>
    obtain ⟨t, d', hret, hat⟩ := hs.1.returns_nextDirEntry hs.2
    refine safe_bind (safe_bind (safe_pure (safe_bind (safe_modify (safe_bind (safe_modify
      (safe_bind (safe_modify (safe_pure ?_)))))))))
    exact safe_bind (guarded_lift prompt_nextDirEntry hret (safe_pure hat))
  | short =>
    have hown : Guarded old (ownName s.dirBuff.de names) s fun _ s' => s'.AtSlot ∧ s'.Logs old := by
      unfold ownName
      split
      · exact safe_bind (safe_pure (safe_bind (safe_modify (safe_bind (safe_modify
          (safe_pure hs))))))
      · exact safe_pure hs
    refine safe_bind (hown.weaken fun names s hs => ?_)
    refine safe_bind ((hhit _ _ s hs).weaken fun o s hs => ?_)
    cases o with
    | some a => exact safe_pure hs
    | none =>
      obtain ⟨t, d', hret, hat⟩ := hs.1.returns_nextDirEntry hs.2
      exact safe_bind (guarded_lift prompt_nextDirEntry hret (safe_pure hat))

theorem scan_session {α : Type} {hit : DirEntry → Name → ServerM (Option α)} {atEnd : Name → α}
    {stop : DirEntry → Name → Option α} {text : DirEntry → Name → List UInt8} {a : α} {s' : Server}
    (hhit : Behaves hit stop text) (h : Returns (scan hit atEnd) s a s') :
    s'.stack = s.stack ∧ s'.lastHopOffset = s.lastHopOffset := by
  obtain ⟨es, d, _, _, _, rfl⟩ := (returns_scan hhit).mp h
  exact ⟨rfl, rfl⟩

namespace Server.Steady

/-- A scan leaves the server ready and the stack alone. -/
theorem guarded_scan {α : Type} {hit : DirEntry → Name → ServerM (Option α)}
    {atEnd : Name → α} {stop : DirEntry → Name → Option α} {text : DirEntry → Name → List UInt8}
    (h : s.Steady old) (hhit : Behaves hit stop text)
    (hguard : ∀ de name (s : Server), s.AtSlot ∧ s.Logs old →
      Guarded old (hit de name) s fun _ s' => s'.AtSlot ∧ s'.Logs old)
    (hbpb : ∀ {s' : Server} {a : α}, Returns (scan hit atEnd) s a s' → s'.bpb = s.bpb) :
    Guarded old (scan hit atEnd) s fun _ s' => s'.Steady old ∧ s'.stack = s.stack := by
  refine (Fat32s.guarded_scan hguard ⟨h.cursor, h.logs⟩).and_returns.weaken ?_
  rintro a s' ⟨⟨hat, hlog⟩, hret⟩
  obtain ⟨hstack, hoff⟩ := scan_session hhit hret
  exact ⟨⟨h.of_drive hat (hbpb hret) hoff, hlog⟩, hstack⟩

theorem guarded_findChild (h : s.Steady old) (query : Name) :
    Guarded old (findChild query) s fun _ s' => s'.Steady old ∧ s'.stack = s.stack :=
  h.guarded_scan (behaves_pure _) (fun _ _ _ hs => safe_pure hs)
    fun hret => ((quiet_bpb s.bpb).findChild query).returns hret rfl

theorem guarded_findChildByClusterId (h : s.Steady old) (id : UInt32) :
    Guarded old (findChildByClusterId id) s fun _ s' => s'.Steady old ∧ s'.stack = s.stack :=
  h.guarded_scan (behaves_pure _) (fun _ _ _ hs => safe_pure hs)
    fun hret => ((quiet_bpb s.bpb).findChildByClusterId id).returns hret rfl

theorem guarded_listEntries (h : s.Steady old) :
    Guarded old listEntries s fun _ s' => s'.Steady old ∧ s'.stack = s.stack :=
  h.guarded_scan behaves_lsLine (fun _ _ _ hs => safe_bind (safe_modify (safe_pure hs)))
    fun hret => (quiet_bpb s.bpb).listEntries.returns hret rfl

theorem guarded_hop (h : s.Steady old) :
    Guarded old hop s fun _ s' => s'.Steady old ∧ s'.stack = s.stack := by
  refine safe_bind (safe_get ?_)
  split
  · exact safe_pure ⟨h, rfl⟩
  · have hhere : Server.Steady { s with
        lastHopSector := s.dirBuff.sector, lastHopOffset := s.dirBuff.offset } old :=
      ⟨⟨h.cursor, h.cursor.aligned, h.cursor.inside⟩, h.logs⟩
    exact safe_bind (safe_modify (safe_bind (guarded_jump h.usable
      (safe_pure ⟨hhere.back rfl rfl, rfl⟩))))

/-! ### Walks -/

theorem guarded_visit {sector : UInt32} {rest : List UInt32} (h : s.Steady old)
    (hstack : s.stack = sector :: rest) (banFiles banDirs : Bool) (segment : Name) (more : Bool) :
    Guarded old (visit banFiles banDirs segment more) s fun _ s' => s'.Steady old := by
  refine safe_bind ((h.guarded_findChild segment).weaken ?_)
  rintro status s₁ ⟨h₁, hstack₁⟩
  split
  · exact h₁.guarded_back (hstack₁.trans hstack)
  · refine safe_bind (safe_get ?_)
    dsimp only
    split
    · exact h₁.guarded_back (hstack₁.trans hstack)
    · exact safe_bind (h₁.guarded_hop.weaken fun _ s₂ h₂ => safe_pure h₂.1)

theorem guarded_walk (h : s.Steady old) (path : Name) (flags : Nat) :
    Guarded old (walk path flags) s fun _ s' => s'.Steady old := by
  refine safe_bind (safe_get (safe_bind (safe_modify ?_)))
  refine safe_iter (fun _ s' => s'.Steady old ∧ s'.stack = s.dirBuff.sector :: s.stack)
    (fun _ _ h => ⟨rfl, h.1.logs⟩) ?_ ⟨h.pushed _, rfl⟩
  rintro w s₁ ⟨h₁, hstack₁⟩
  unfold walkStep
  split
  · refine safe_bind ((h₁.guarded_visit hstack₁ _ _ _ _).and_returns.weaken ?_)
    rintro o s₂ ⟨h₂, hvisit⟩
    cases visit_cases hvisit with
    | missing _ _ _ => exact safe_pure h₂
    | barred _ _ _ _ => exact safe_pure h₂
    | entered _ _ henter => exact safe_pure ⟨h₂, henter.stack.trans hstack₁⟩
  · exact safe_bind (prompt_stackPop.safe (returns_stackPop.mpr ⟨_, hstack₁, rfl⟩)
      (safe_pure (h₁.pushed _)))

/-! ### The commands -/

theorem guarded_cd (h : s.Steady old) (path : Name) :
    Guarded old (cd path) s fun _ s' => s'.Steady old := by
  refine safe_bind (safe_get (safe_bind (safe_modify ?_)))
  refine safe_bind (((h.pushed _).guarded_walk path _).and_returns.weaken ?_)
  rintro status s₁ ⟨h₁, hwalk⟩
  have hstack := (walk_cases hwalk).stack
  split
  · exact h₁.guarded_back hstack
  · exact safe_bind (prompt_stackPop.safe (returns_stackPop.mpr ⟨_, hstack, rfl⟩)
      (safe_pure (h₁.pushed _)))

theorem guarded_ls (h : s.Steady old) (path : Name) :
    Guarded old (ls path) s fun _ s' => s'.Steady old := by
  have htail : ∀ {status : Int} {s₁ : Server}, s₁.Steady old →
      s₁.stack = s.dirBuff.sector :: s.stack →
      Guarded old (if status ≠ 0 then do rollback; return status
        else do listEntries; rollback; return OK) s₁ fun _ s' => s'.Steady old := by
    intro status s₁ h₁ hstack
    split
    · exact h₁.guarded_back hstack
    · refine safe_bind (h₁.guarded_listEntries.weaken ?_)
      rintro _ s₂ ⟨h₂, hstack₂⟩
      exact h₂.guarded_back (hstack₂.trans hstack)
  refine safe_bind (safe_get (safe_bind (safe_modify ?_)))
  dsimp only
  split
  · exact safe_bind (safe_pure (htail (h.pushed _) rfl))
  · refine safe_bind (((h.pushed _).guarded_cd path).and_returns.weaken ?_)
    rintro status s₁ ⟨h₁, hcd⟩
    exact htail h₁ (cd_cases hcd).stack

theorem guarded_lastHopSize (h : s.Steady old) :
    Guarded old lastHopSize s fun _ s' => s'.Steady old ∧ s'.stack = s.stack := by
  have hbpb : s.lastHop.bpb = s.bpb := by simp [Server.lastHop, Drive.parse, Drive.seek]
  have hs : s.lastHop.Usable := h.usable.of_bpb hbpb
  have hlog : s.lastHop.Logs old := by
    refine ((h.logs.seek _ _).load _).event (e := .parse s.lastHopOffset) rfl rfl
      ⟨Nat.mod_eq_zero_of_dvd h.hopAligned, ?_⟩
    rw [Drive.load_bpb]
    exact h.hopInside
  have hret : Returns lastHopSize s _ _ := returns_lastHopSize.mpr
    ⟨h.usable.fits _, Nat.mod_eq_zero_of_dvd h.hopAligned, Nat.le_trans h.hopInside h.usable.le,
      hs.fits _, rfl, rfl⟩
  exact prompt_lastHopSize.safe hret ⟨⟨h.of_drive (hs.atSlot_jump _)
    ((Drive.jump_bpb _ _).trans hbpb) rfl, hs.logs_jump hlog _⟩, rfl⟩

/-- Printing a byte moves on inside the sector or to the beginning of another one. -/
theorem guarded_catByte (hs : s.Usable) (hlog : s.Logs old)
    (hlt : s.dirBuff.offset < s.bpb.bytesPerSector.toNat) :
    Guarded old catByte s fun _ s' => s'.bpb = s.bpb ∧ s'.Logs old ∧
      s'.dirBuff.offset < s.bpb.bytesPerSector.toNat ∧ s'.lastHopOffset = s.lastHopOffset ∧
      s'.stack = s.stack := by
  have hmax : s.dirBuff.offset < MAX_BYTES_PER_SECTOR := Nat.lt_of_lt_of_le hlt hs.le
  have hpassed : s.passed.Logs old := hlog.event (e := .byte s.dirBuff.offset) rfl rfl hlt
  by_cases hend : s.dirBuff.offset + 1 = s.bpb.bytesPerSector.toNat
  · obtain ⟨d', hnext, hbpb, hzero, hlog'⟩ :=
      (hs.of_bpb (show s.passed.bpb = s.bpb from rfl)).returns_nextSector hpassed
    have hret : Returns catByte s () _ :=
      (returns_catByte_of_eq hend).mpr ⟨hmax, d', hnext, rfl⟩
    exact prompt_catByte.safe hret ⟨hbpb, hlog', by rw [hzero]; exact hs.pos, rfl, rfl⟩
  · have hret : Returns catByte s () _ := (returns_catByte_of_ne hend).mpr ⟨hmax, rfl⟩
    refine prompt_catByte.safe hret ⟨rfl, hpassed, ?_, rfl, rfl⟩
    change s.dirBuff.offset + 1 < _
    omega

theorem guarded_cat (h : s.Steady old) (path : Name) :
    Guarded old (cat path) s fun _ s' => s'.Steady old := by
  refine safe_bind (safe_get (safe_bind (safe_modify ?_)))
  refine safe_bind (((h.pushed _).guarded_walk path _).and_returns.weaken ?_)
  rintro status s₁ ⟨h₁, hwalk⟩
  have hstack := (walk_cases hwalk).stack
  split
  · exact h₁.guarded_back hstack
  · refine safe_bind (h₁.guarded_lastHopSize.weaken ?_)
    rintro sz s₂ ⟨h₂, hstack₂⟩
    have hloop : Guarded old (times sz.toNat catByte) s₂ fun _ s' => s'.bpb = s₂.bpb ∧
        s'.Logs old ∧ s'.dirBuff.offset < s₂.bpb.bytesPerSector.toNat ∧
        s'.lastHopOffset = s₂.lastHopOffset ∧ s'.stack = s₂.stack := by
      refine safe_times ?_ ⟨rfl, h₂.logs, ?_, rfl, rfl⟩
      · rintro s₃ ⟨hbpb, hlog, hlt, hoff, hstack₃⟩
        refine (guarded_catByte (h₂.usable.of_bpb hbpb) hlog (by rw [hbpb]; exact hlt)).weaken ?_
        rintro _ s₄ ⟨hbpb₄, hlog₄, hlt₄, hoff₄, hstack₄⟩
        rw [hbpb] at hlt₄
        exact ⟨hbpb₄.trans hbpb, hlog₄, hlt₄, hoff₄.trans hoff, hstack₄.trans hstack₃⟩
      · have := h₂.cursor.inside
        omega
    refine safe_bind (hloop.weaken ?_)
    rintro _ s₃ ⟨hbpb, hlog, _, hoff, hstack₃⟩
    have hs₃ := h₂.usable.of_bpb hbpb
    refine safe_bind (safe_modify (safe_bind (guarded_rollback hs₃
      (hstack₃.trans (hstack₂.trans hstack)) (safe_pure ?_))))
    exact ⟨h₂.of_drive (hs₃.atSlot_jump _) ((Drive.jump_bpb _ _).trans hbpb) hoff,
      hs₃.logs_jump hlog _⟩

theorem guarded_statEntry {sector : UInt32} {rest : List UInt32} (h : s.Steady old)
    (hstack : s.stack = sector :: rest) (lastName : Name) :
    Guarded old (statEntry lastName) s fun _ s' => s'.Steady old := by
  refine safe_bind ((h.guarded_findChild lastName).weaken ?_)
  rintro status s₁ ⟨h₁, hstack₁⟩
  split
  · exact h₁.guarded_back (hstack₁.trans hstack)
  · refine safe_bind (safe_get (safe_bind ((prompt_printRegularDirEntry _).safe (a := ())
      (returns_printRegularDirEntry.mpr rfl) (safe_bind (safe_modify ?_)))))
    refine safe_bind (guarded_rollback h₁.usable (hstack₁.trans hstack) (safe_pure ?_))
    exact h₁.back rfl rfl

theorem guarded_stat (h : s.Steady old) (path : Name) :
    Guarded old (stat path) s fun _ s' => s'.Steady old := by
  refine safe_bind (safe_get (safe_bind (safe_modify ?_)))
  split
  · exact (h.pushed _).guarded_statEntry rfl _
  · refine safe_bind (((h.pushed _).guarded_walk _ _).and_returns.weaken ?_)
    rintro status s₁ ⟨h₁, hwalk⟩
    have hstack := (walk_cases hwalk).stack
    split
    · exact h₁.guarded_back hstack
    · exact h₁.guarded_statEntry hstack _

theorem guarded_pwdStep {sector : UInt32} {rest : List UInt32} (h : s.Steady old)
    (hstack : s.stack = sector :: rest) (w : PwdVars) :
    Guarded old (pwdStep w) s fun _ s' => s'.Steady old := by
  refine safe_bind ((h.guarded_findChild _).weaken ?_)
  rintro found s₁ ⟨h₁, hstack₁⟩
  split
  · refine safe_bind (h₁.guarded_hop.weaken ?_)
    rintro _ s₂ ⟨h₂, _⟩
    refine safe_bind (safe_get (safe_bind (safe_modify ?_)))
    refine safe_bind (((h₂.pushed _).guarded_findChildByClusterId _).weaken ?_)
    rintro ⟨name, success⟩ s₃ ⟨h₃, hstack₃⟩
    dsimp only
    split
    · exact safe_bind (safe_modify (safe_pure ⟨h₃.of_drive h₃.cursor rfl rfl, h₃.logs⟩))
    · refine safe_bind (safe_modify (safe_bind (safe_modify ?_)))
      have hspc : (s₃.toDrive.jump s₂.dirBuff.sector).bpb.spc ≠ 0 := by
        rw [Drive.jump_bpb]
        exact h₃.cursor.spc
      refine safe_bind (guarded_rollback h₃.usable hstack₃ (safe_bind (safe_get ?_)))
      exact safe_bind (guarded_lift (prompt_sectorToCluster _)
        (returns_sectorToCluster.mpr ⟨hspc, rfl, rfl⟩) (safe_pure (h₃.back rfl rfl)))
  · exact safe_bind (safe_modify (safe_bind (guarded_rollback h₁.usable (hstack₁.trans hstack)
      (safe_pure (h₁.back rfl rfl)))))

theorem guarded_pwd (h : s.Steady old) : Guarded old pwd s fun _ s' => s'.Steady old := by
  refine safe_bind (safe_get (safe_bind (safe_modify ?_)))
  refine safe_bind (guarded_lift (prompt_sectorToCluster _)
    (returns_sectorToCluster.mpr ⟨h.cursor.spc, rfl, rfl⟩) ?_)
  refine safe_iter (fun _ s' => s'.Steady old ∧ s'.stack = s.dirBuff.sector :: s.stack)
    (fun _ _ h => ⟨rfl, h.1.logs⟩) ?_ ⟨h.pushed _, rfl⟩
  rintro w s₁ ⟨h₁, hstack₁⟩
  refine (h₁.guarded_pwdStep hstack₁ w).and_returns.weaken ?_
  rintro x s₂ ⟨h₂, hround⟩
  cases pwdStep_cases hround with
  | top _ _ _ => exact h₂
  | lost _ _ _ _ => exact h₂
  | up _ _ _ hstack _ _ => exact ⟨h₂, hstack.trans hstack₁⟩

/-- **No command faults or leaves the sector**, and it leaves the server ready. -/
theorem guarded_command (h : s.Steady old) (cmd : Command) :
    Guarded old cmd.run s fun _ s' => s'.Steady old := by
  cases cmd with
  | pwd => exact h.guarded_pwd
  | cd path => exact h.guarded_cd path
  | ls path => exact h.guarded_ls path
  | cat path => exact h.guarded_cat path
  | stat path => exact h.guarded_stat path

end Server.Steady

namespace Server.Ready

theorem steady (h : s.Ready) : s.Steady s.toDrive := ⟨h, rfl, s.adds_nothing _⟩

theorem sound_visit {sector : UInt32} {rest : List UInt32} (h : s.Ready)
    (hstack : s.stack = sector :: rest) (banFiles banDirs : Bool) (segment : Name) (more : Bool) :
    Sound (visit banFiles banDirs segment more) s fun _ s' => s'.Ready :=
  ((h.steady.guarded_visit hstack banFiles banDirs segment more).weaken
    fun _ _ h' => h'.toReady).weaken_inv fun _ _ hI => hI.1

theorem sound_command (h : s.Ready) (cmd : Command) : Sound cmd.run s fun _ s' => s'.Ready :=
  ((h.steady.guarded_command cmd).weaken fun _ _ h' => h'.toReady).weaken_inv fun _ _ hI => hI.1

end Server.Ready

/-! ### Sessions -/

section session

variable {env : Env} {m : Message} {s₀ s' : Server}

theorem usable_of_doMount (hmount : Returns (doMount env m) s₀ OK s)
    (hbps : s.bpb.bytesPerSector.toNat ∈ [512, 1024, 2048, 4096]) : s.Usable := by
  have hspc : s.bpb.spc ≠ 0 := by
    cases returns_doMount.mp hmount with
    | mounted hfd hlen hcopy hlabel hopen hboot hsigned hspc hfits =>
      rw [Drive.jump_bpb]
      exact hspc
  simp only [List.mem_cons, List.not_mem_nil, or_false] at hbps
  refine ⟨?_, ?_, ?_, hspc⟩
  · omega
  · omega
  · unfold MAX_BYTES_PER_SECTOR
    omega

theorem ready_of_doMount (hs₀ : Reachable s₀) (hmount : Returns (doMount env m) s₀ OK s)
    (husable : s.Usable) : s.Ready := by
  have hidle := hs₀.idle_of_doMount hmount
  have hle := Nat.le_of_dvd husable.pos husable.slots
  cases returns_doMount.mp hmount with
  | @mounted dev hfd hlen hcopy hlabel hopen hboot hsigned hspc hfits =>
    have hopened : (s₀.opened m.text dev).Usable := husable.of_bpb (Drive.jump_bpb _ _).symm
    refine ⟨hopened.atSlot_jump _, ?_, ?_⟩
    · change 32 ∣ s₀.lastHopOffset
      rw [hidle.lastOffset]
      exact Nat.dvd_zero 32
    · change s₀.lastHopOffset + 32 ≤ _
      rw [hidle.lastOffset]
      exact hle

theorem Answered.steady {cmd : Command} (hs : s.Steady old) (h : Answered cmd s s') :
    s'.Steady old := by
  cases h with
  | refused text => exact ⟨hs.of_drive hs.cursor rfl rfl, hs.logs⟩
  | ran text _ hrun =>
    have hsteady := (hs.guarded_command cmd).returns hrun
    exact ⟨hsteady.of_drive hsteady.cursor rfl rfl, hsteady.logs⟩

theorem Answered.ready {cmd : Command} (hs : s.Ready) (h : Answered cmd s s') : s'.Ready :=
  (h.steady hs.steady).toReady

/-- The buffer indices of an access. -/
def Event.Indexes : Event → Nat → Prop
  | .parse off, i => off ≤ i ∧ i < off + DIRENTRY_SIZE
  | .fat off, i => off ≤ i ∧ i < off + 4
  | .byte off, i => i = off
  | _, _ => False

theorem Event.Within.lt_max {e : Event} {bps : Nat} (h : e.Within bps)
    (hle : bps ≤ MAX_BYTES_PER_SECTOR) : ∀ i, e.Indexes i → i < MAX_BYTES_PER_SECTOR := by
  intro i hi
  cases e with
  | parse off =>
    have hin : off + 32 ≤ bps := h.2
    have hlt : i < off + 32 := hi.2
    omega
  | fat off =>
    have hin : off + 4 ≤ bps := h
    have hlt : i < off + 4 := hi.2
    omega
  | byte off =>
    have hin : off < bps := h
    have heq : i = off := hi
    omega
  | load sector buff => exact hi.elim
  | follow cluster => exact hi.elim

theorem Drive.Logs.below_max (h : d.Logs old)
    (hle : old.bpb.bytesPerSector.toNat ≤ MAX_BYTES_PER_SECTOR) :
    d.Adds (fun e => e.Within old.bpb.bytesPerSector.toNat ∧
      ∀ i, e.Indexes i → i < MAX_BYTES_PER_SECTOR) old.trace := by
  obtain ⟨evs, htrace, hall⟩ := h.within
  exact ⟨evs, htrace, fun e he => ⟨hall e he, (hall e he).lt_max hle⟩⟩

/-- **The sector buffer is read inside of the sector.**  On any disk that can be
    mounted and has whole slots in sectors that the buffer holds, after any
    requests, no command faults, and at any moment of its run every access since the
    mount was inside of the sector. -/
theorem accesses_inside_sector (hs₀ : Reachable s₀) (hmount : Returns (doMount env m) s₀ OK s)
    (hslots : 32 ∣ s.bpb.bytesPerSector.toNat) (hmin : 32 ≤ s.bpb.bytesPerSector.toNat)
    (hmax : s.bpb.bytesPerSector.toNat ≤ MAX_BYTES_PER_SECTOR) (hspc : s.bpb.spc ≠ 0)
    (hrun : InSession s s') (cmd : Command) :
    Safe (fun fault s₁ => fault = none ∧
        s₁.Adds (fun e => e.Within s.bpb.bytesPerSector.toNat ∧
          ∀ i, e.Indexes i → i < MAX_BYTES_PER_SECTOR) s.trace)
      cmd.run s' fun _ s₁ =>
        s₁.Adds (fun e => e.Within s.bpb.bytesPerSector.toNat ∧
          ∀ i, e.Indexes i → i < MAX_BYTES_PER_SECTOR) s.trace := by
  have husable : s.Usable := ⟨hslots, Nat.lt_of_lt_of_le (by decide) hmin, hmax, hspc⟩
  have hsteady : s'.Steady s.toDrive := hrun.induct (deviceFd_of_doMount hmount)
    (ready_of_doMount hs₀ hmount husable).steady Answered.steady
  have hguard := hsteady.guarded_command cmd
  refine (hguard.weaken ?_).weaken_inv ?_
  · intro _ s₁ h
    exact h.logs.below_max hmax
  · intro fault s₁ h
    exact ⟨h.1, h.2.below_max hmax⟩

/-- After the sample volume has been mounted. -/
theorem cat_inside_sector_on_sample :
    ∃ s, Returns (doMount (diskEnv Sample.volume.dev) mountMessage)
        (Server.initial fun _ => []) OK s ∧
      Safe (fun fault s₁ => fault = none ∧
        s₁.Adds (fun e => e.Within s.bpb.bytesPerSector.toNat ∧
          ∀ i, e.Indexes i → i < MAX_BYTES_PER_SECTOR) s.trace)
      (Command.cat (ascii "DIR/B.TXT")).run s fun _ s₁ =>
        s₁.Adds (fun e => e.Within s.bpb.bytesPerSector.toNat ∧
          ∀ i, e.Indexes i → i < MAX_BYTES_PER_SECTOR) s.trace := by
  obtain ⟨s, hmount, hcwd, _⟩ := Sample.mounted fun _ => []
  have hbps : s.bpb.bytesPerSector.toNat = 512 := by
    rw [hcwd.on.bpb]
    decide +kernel
  have hspc : s.bpb.spc ≠ 0 := by
    rw [hcwd.on.bpb]
    decide +kernel
  refine ⟨s, hmount, ?_⟩
  apply accesses_inside_sector (.init _) hmount _ _ _ hspc .start
  · rw [hbps]
    decide
  · rw [hbps]
    decide
  · rw [hbps]
    decide

end session

end Fat32s
