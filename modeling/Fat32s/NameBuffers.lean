/-
  Fat32s/NameBuffers.lean
  =======================
  **The strings that are put into name buffers, and when they fit.**

  Names are put together with `strcat` and `strcpy` in buffers of a fixed size, and
  no length is ever checked.  In a scan the buffers take the pieces of a whole run of
  long slots; in `_pwd` they take the path built so far.  Both are as long as the disk
  makes them.  The strings fit if no run of long slots that can be met decodes to more
  than the buffer holds, and for pwd if the names on the way up are short enough.

  The statements are about every moment of a run, also of one that never ends.
-/
import Mathlib.Algebra.GroupWithZero.Nat
import Fat32s.Composition

namespace Fat32s

open Fat32s.Lib Fat32s.Lib.Prog

variable {d d' : Drive} {s s' : Server}

/-! ### Strings and buffers -/

/-- Every string that was put into a name buffer left room for its terminating zero. -/
def Server.StoresFit (s : Server) : Prop := ∀ x ∈ s.scratch.stored, x.2 < x.1

theorem Server.StoresFit.of_stored (h : s.StoresFit)
    (hstored : s'.scratch.stored = s.scratch.stored) : s'.StoresFit := by
  rw [Server.StoresFit, hstored]
  exact h

theorem Server.StoresFit.put (h : s.StoresFit) {size len : Nat} (hlen : len < size)
    (hstored : s'.scratch.stored = (size, len) :: s.scratch.stored) : s'.StoresFit := by
  rw [Server.StoresFit, hstored]
  intro x hx
  rcases List.mem_cons.mp hx with rfl | hx
  · exact hlen
  · exact h x hx

/-- At no moment of a run of the program is there a string that does not fit. -/
abbrev Fitting {α : Type} (p : ServerM α) (s : Server)
    (Q : α → Server → Prop) : Prop :=
  Safe (fun _ s' => s'.StoresFit) p s Q

theorem fitting_store {size : Nat} {str : Name} (h : s.StoresFit) (hlen : str.length < size)
    {Q : Unit → Server → Prop}
    (hQ : ∀ s', s'.StoresFit → s'.toDrive = s.toDrive → Q () s') :
    Fitting (store size str) s Q :=
  safe_modify (hQ _ (h.put hlen rfl) rfl)

/-- A program of the drive writes no names. -/
theorem fitting_lift {α : Type} (p : DriveM α) (h : s.StoresFit) :
    Fitting (liftM p : ServerM α) s fun a s' =>
      s'.StoresFit ∧ Returns p s.toDrive a s'.toDrive := by
  refine safe_liftM ?_
  intro n
  cases hrun : p.run n s.toDrive with
  | ret a d => exact ⟨h, n, hrun⟩
  | fault e d => exact h
  | more d => exact h

/-! ### Runs of long slots -/

/-- How many bytes the pieces in a list of long entries have together. -/
def pieces (es : List DirEntry) : Nat := (es.map fun de => (getName de []).length).sum

theorem pieces_append (es fs : List DirEntry) : pieces (es ++ fs) = pieces es + pieces fs := by
  simp [pieces]

theorem length_cstr_le (l : List UInt8) : (cstr l).length ≤ l.length :=
  (List.takeWhile_sublist _).length_le

/-- No piece and no short name is longer than 13 bytes. -/
theorem length_getName_le {de : DirEntry} (h : de.type ≠ .undefined) (junk : Name) :
    (getName de junk).length ≤ 13 := by
  cases htype : de.type with
  | undefined => exact absurd htype h
  | long =>
    simp only [getName, htype]
    exact length_cstr_le de.u.longChars
  | short =>
    have hbase : (de.u.shortBase.takeWhile (· ≠ 0x20)).length ≤ 8 :=
      (List.takeWhile_sublist _).length_le
    have hext : (de.u.shortExt.takeWhile (· ≠ 0x20)).length ≤ 3 :=
      (List.takeWhile_sublist _).length_le
    simp only [getName, htype]
    split
    · have := length_cstr_le (de.u.shortBase.takeWhile (· ≠ 0x20))
      omega
    · refine Nat.le_trans (length_cstr_le _) ?_
      split
      · omega
      · simp only [List.length_append, List.length_cons]
        omega

/-- Ahead of the cursor every run of consecutive long slots fits a name buffer. -/
def Drive.RunsFit (d : Drive) : Prop :=
  ∀ ⦃es fs : List DirEntry⦄ ⦃d' : Drive⦄, Steps d (es ++ fs) d' →
    (∀ de ∈ fs ++ [d'.dirBuff.de], de.type = .long) →
    pieces (fs ++ [d'.dirBuff.de]) < MAX_NAME_LEN

theorem fitting_addPiece {de : DirEntry} {names : Names} (h : s.StoresFit)
    (hde : de.type ≠ .undefined)
    (hlen : (getName de names.part ++ names.full).length < MAX_NAME_LEN) :
    Fitting (addPiece de names) s fun r s' => s'.StoresFit ∧ s'.toDrive = s.toDrive ∧
      r.full = getName de names.part ++ names.full := by
  have hpiece : (getName de names.part).length < MAX_NAME_LEN :=
    Nat.lt_of_le_of_lt (length_getName_le hde _) (by decide)
  refine safe_bind (safe_pure (safe_bind (fitting_store h hpiece fun s₁ h₁ hd₁ => ?_)))
  refine safe_bind (fitting_store h₁ hlen fun s₂ h₂ hd₂ => ?_)
  refine safe_bind (fitting_store h₂ hlen fun s₃ h₃ hd₃ => ?_)
  exact safe_pure ⟨h₃, by rw [hd₃, hd₂, hd₁], rfl⟩

theorem fitting_ownName {de : DirEntry} {names : Names} (h : s.StoresFit)
    (hde : de.type ≠ .undefined) :
    Fitting (ownName de names) s fun _ s' => s'.StoresFit ∧ s'.toDrive = s.toDrive := by
  have hname : (getName de names.part).length < MAX_NAME_LEN :=
    Nat.lt_of_le_of_lt (length_getName_le hde _) (by decide)
  unfold ownName
  split
  · refine safe_bind (safe_pure (safe_bind (fitting_store h hname fun s₁ h₁ hd₁ => ?_)))
    refine safe_bind (fitting_store h₁ hname fun s₂ h₂ hd₂ => ?_)
    exact safe_pure ⟨h₂, by rw [hd₂, hd₁]⟩
  · exact safe_pure ⟨h, rfl⟩

/-- **Scans stay inside their buffers** when the runs ahead fit.  The name collected so
    far is that of the run of long slots that the cursor has just passed. -/
theorem fitting_scan {α : Type} {hit : DirEntry → Name → ServerM (Option α)} {atEnd : Name → α}
    (hhit : ∀ de name (s : Server), s.StoresFit →
      Fitting (hit de name) s fun _ s' => s'.StoresFit ∧ s'.toDrive = s.toDrive)
    (hruns : s.RunsFit) (hs : s.StoresFit) :
    Fitting (scan hit atEnd) s fun _ s' => s'.StoresFit := by
  refine safe_bind (safe_bind (safe_get ?_))
  refine safe_bind (safe_modify (safe_pure ?_))
  refine safe_iter (fun names s₁ => s₁.StoresFit ∧ ∃ es fs,
      Steps s.toDrive (es ++ fs) s₁.toDrive ∧ (∀ de ∈ fs, de.type = .long) ∧
      names.full.length = pieces fs) (fun _ _ h => h.1) ?_
    ⟨hs.of_stored rfl, [], [], .refl _, by simp, rfl⟩
  rintro names s₁ ⟨hs₁, es, fs, hsteps, hlong, hfull⟩
  refine safe_bind (safe_get ?_)
  cases htype : s₁.dirBuff.de.type with
  | undefined => exact safe_pure hs₁
  | long =>
    -- the piece is added to those of the run, which is one slot longer now
    have hrun : ∀ de ∈ fs ++ [s₁.dirBuff.de], de.type = .long := by
      intro de hde
      rcases List.mem_append.mp hde with hde | hde
      · exact hlong de hde
      · rw [List.mem_singleton.mp hde]
        exact htype
    have hlen := hruns hsteps hrun
    have hjoin : (getName s₁.dirBuff.de names.part ++ names.full).length =
        pieces (fs ++ [s₁.dirBuff.de]) := by
      rw [List.length_append, pieces_append, hfull, getName_of_long htype names.part []]
      simp [pieces, Nat.add_comm]
    refine safe_bind ((fitting_addPiece hs₁ (by simp [htype]) (by omega)).weaken ?_)
    rintro names' s₂ ⟨hs₂, hd₂, hnames⟩
    refine safe_bind ((fitting_lift nextDirEntry hs₂).weaken ?_)
    rintro t s₃ ⟨hs₃, hnext⟩
    rw [hd₂] at hnext
    have hsteps' := hsteps.concat (by simp [htype]) hnext
    rw [List.append_assoc] at hsteps'
    exact safe_pure ⟨hs₃, es, _, hsteps', hrun, by rw [hnames, hjoin]⟩
  | short =>
    refine safe_bind ((fitting_ownName hs₁ (by simp [htype])).weaken ?_)
    rintro names' s₂ ⟨hs₂, hd₂⟩
    refine safe_bind ((hhit _ _ s₂ hs₂).weaken ?_)
    rintro o s₃ ⟨hs₃, hd₃⟩
    cases o with
    | some a => exact safe_pure hs₃
    | none =>
      refine safe_bind ((fitting_lift nextDirEntry hs₃).weaken ?_)
      rintro t s₄ ⟨hs₄, hnext⟩
      rw [hd₃, hd₂] at hnext
      have hsteps' := hsteps.concat (by simp [htype]) hnext
      rw [← List.append_nil (es ++ fs ++ _)] at hsteps'
      exact safe_pure ⟨hs₄, _, [], hsteps', by simp, rfl⟩

theorem fitting_findChild (hruns : s.RunsFit) (hs : s.StoresFit) (query : Name) :
    Fitting (findChild query) s fun _ s' => s'.StoresFit :=
  fitting_scan (fun _ _ _ hs => safe_pure ⟨hs, rfl⟩) hruns hs

theorem fitting_findChildByClusterId (hruns : s.RunsFit) (hs : s.StoresFit) (id : UInt32) :
    Fitting (findChildByClusterId id) s fun _ s' => s'.StoresFit :=
  fitting_scan (fun _ _ _ hs => safe_pure ⟨hs, rfl⟩) hruns hs

theorem fitting_listEntries (hruns : s.RunsFit) (hs : s.StoresFit) :
    Fitting listEntries s fun _ s' => s'.StoresFit :=
  fitting_scan (fun _ _ _ hs => safe_bind (safe_modify (safe_pure ⟨hs.of_stored rfl, rfl⟩)))
    hruns hs

/-! ### Programs that write no names -/

theorem storesFit_stackPop : Preserves Server.StoresFit stackPop :=
  preserves_stackPop fun _ hs => hs.of_stored rfl

theorem storesFit_lift {α : Type} (p : DriveM α) :
    Preserves Server.StoresFit (liftM p : ServerM α) :=
  fun _ hs => (fitting_lift p hs).weaken fun _ _ h => h.1

theorem storesFit_rollback : Preserves Server.StoresFit rollback :=
  preserves_bind storesFit_stackPop fun _ => storesFit_lift _

theorem storesFit_back {α : Type} (a : α) :
    Preserves Server.StoresFit (do rollback; return a : ServerM α) :=
  preserves_bind storesFit_rollback fun _ => preserves_pure a

theorem storesFit_print (bytes : List UInt8) :
    Preserves Server.StoresFit (print bytes) :=
  preserves_modify fun _ hs => hs.of_stored rfl

theorem storesFit_hop : Preserves Server.StoresFit hop := by
  refine preserves_bind preserves_get fun _ => ?_
  split
  · exact preserves_pure _
  · refine preserves_bind (preserves_modify fun _ hs => hs.of_stored rfl) fun _ => ?_
    exact preserves_bind (storesFit_lift _) fun _ => preserves_pure _

theorem storesFit_lastHopSize : Preserves Server.StoresFit lastHopSize := by
  refine preserves_bind preserves_get fun _ => ?_
  refine preserves_bind (preserves_modify fun _ hs => hs.of_stored rfl) fun _ => ?_
  refine preserves_bind (preserves_modify fun _ hs => hs.of_stored rfl) fun _ => ?_
  refine preserves_bind preserves_get fun _ => preserves_bind (storesFit_lift _) fun _ => ?_
  refine preserves_bind (storesFit_lift _) fun _ => preserves_bind preserves_get fun _ => ?_
  exact storesFit_back _

theorem storesFit_catByte : Preserves Server.StoresFit catByte := by
  refine preserves_bind preserves_get fun _ => preserves_bind (preserves_check _ _) fun _ => ?_
  refine preserves_bind (storesFit_lift _) fun _ => preserves_bind (storesFit_print _) fun _ => ?_
  refine preserves_bind (preserves_modify fun _ hs => hs.of_stored rfl) fun _ => ?_
  refine preserves_bind preserves_get fun _ => ?_
  split
  · exact storesFit_lift _
  · exact preserves_pure _

/-- The name that is printed for an entry goes into a buffer of 32 bytes. -/
theorem storesFit_printRegularDirEntry (u : Slot) :
    Preserves Server.StoresFit (printRegularDirEntry u) := by
  have hname : Preserves Server.StoresFit (printShortNameRde u) := by
    refine preserves_bind (preserves_bind preserves_get fun _ =>
      preserves_bind (preserves_modify fun _ hs => hs.of_stored rfl) fun _ => preserves_pure _) ?_
    intro junk
    rw [getName_server_bind]
    refine preserves_bind (preserves_modify fun _ hs => ?_) fun _ => storesFit_print _
    exact hs.put (Nat.lt_of_le_of_lt (length_getName_le (by simp) junk) (by decide)) rfl
  unfold printRegularDirEntry
  refine preserves_bind (storesFit_print _) fun _ => preserves_bind hname fun _ => ?_
  repeat refine preserves_bind (storesFit_print _) fun _ => ?_
  exact storesFit_print _

/-! ### Walks -/

/-- No directory that can be entered from here has a run of long slots that does not fit. -/
def Drive.FitsBelow (d : Drive) : Prop := ∀ ⦃d'⦄, d.Sees d' → d'.RunsFit

theorem fitting_visit (hruns : s.RunsFit) (hs : s.StoresFit) (banFiles banDirs : Bool)
    (segment : Name) (more : Bool) :
    Fitting (visit banFiles banDirs segment more) s fun _ s' => s'.StoresFit := by
  refine safe_bind ((fitting_findChild hruns hs segment).weaken fun status s₁ hs₁ => ?_)
  split
  · exact storesFit_back _ s₁ hs₁
  · refine safe_bind (safe_get ?_)
    dsimp only
    split
    · exact storesFit_back _ s₁ hs₁
    · exact safe_bind ((storesFit_hop s₁ hs₁).weaken fun _ _ hs₂ => safe_pure hs₂)

/-- An entry that a walk goes on from, or that a walk without files ends at, is a directory. -/
theorem passes_isDir {banFiles banDirs more isDir : Bool}
    (h : passes banFiles banDirs more isDir = true) (hdir : more = true ∨ banFiles = true) :
    isDir = true := by
  cases isDir with
  | true => rfl
  | false =>
    cases more with
    | true => simp [passes] at h
    | false =>
      rcases hdir with hmore | rfl
      · cases hmore
      · simp [passes] at h

/-- **Walks stay inside the name buffers**, and one that bans files ends in a directory
    that can be seen from its start. -/
theorem fitting_walk (hfits : s.FitsBelow) (hs : s.StoresFit) (path : Name) (flags : Nat) :
    Fitting (walk path flags) s fun r s' => s'.StoresFit ∧
      (r = 0 → (flags &&& WALK_BAN_FILES) > 0 → s.toDrive.Sees s'.toDrive) := by
  refine safe_bind (safe_get (safe_bind (safe_modify ?_)))
  refine safe_iter (fun w s₁ => s₁.StoresFit ∧
      (w.right < (cstr path).length ∨ (flags &&& WALK_BAN_FILES) > 0 →
        s.toDrive.Sees s₁.toDrive)) (fun _ _ h => h.1) ?_ ⟨hs.of_stored rfl, fun _ => .here⟩
  rintro w s₁ ⟨hs₁, hsees⟩
  unfold walkStep
  split
  · rename_i hlt
    have hhere := hsees (.inl hlt)
    refine safe_bind ((fitting_visit (hfits hhere) hs₁ _ _ _ _).and_returns.weaken ?_)
    rintro o s₂ ⟨hs₂, hvisit⟩
    cases visit_cases hvisit with
    | missing _ _ _ => exact safe_pure ⟨hs₂, by simp⟩
    | barred _ _ _ _ => exact safe_pure ⟨hs₂, by simp⟩
    | entered hfind hpass henter =>
      refine safe_pure ⟨hs₂, fun hgoes => ?_⟩
      rcases id hfind with ⟨_, es, hsteps, _, hshort, _⟩
      have hdir := passes_isDir hpass
        (hgoes.imp (fun h => by simp only at h; simp; omega) (by simp))
      rw [henter.drive]
      exact .enter (hhere.trans hsteps.sees) hshort hdir
  · refine safe_bind ((storesFit_stackPop s₁ hs₁).and_returns.weaken ?_)
    rintro _ s₂ ⟨hs₂, hpop⟩
    rcases returns_stackPop.mp hpop with ⟨rest, _, rfl⟩
    exact safe_pure ⟨hs₂, fun _ hban => hsees (.inr hban)⟩

theorem fitting_cd (hfits : s.FitsBelow) (hs : s.StoresFit) (path : Name) :
    Fitting (cd path) s fun r s' => s'.StoresFit ∧ (r = 0 → s.toDrive.Sees s'.toDrive) := by
  refine safe_bind (safe_get (safe_bind (safe_modify ?_)))
  refine safe_bind ((fitting_walk (s := { s with stack := s.dirBuff.sector :: s.stack }) hfits
    (hs.of_stored rfl) path WALK_BAN_FILES).weaken ?_)
  rintro status s₁ ⟨hs₁, hsees⟩
  split
  · rename_i hne
    refine safe_bind ((storesFit_rollback s₁ hs₁).weaken fun _ _ hs₂ => ?_)
    exact safe_pure ⟨hs₂, fun hzero => absurd hzero hne⟩
  · rename_i hzero
    refine safe_bind ((storesFit_stackPop s₁ hs₁).and_returns.weaken ?_)
    rintro _ s₂ ⟨hs₂, hpop⟩
    rcases returns_stackPop.mp hpop with ⟨rest, _, rfl⟩
    exact safe_pure ⟨hs₂, fun _ => hsees (not_not.mp hzero) (by decide)⟩

theorem fitting_ls (hfits : s.FitsBelow) (hs : s.StoresFit) (path : Name) :
    Fitting (ls path) s fun _ s' => s'.StoresFit := by
  have htail : ∀ {status : Int} {s₁ : Server}, s₁.StoresFit →
      (status = 0 → s.toDrive.Sees s₁.toDrive) →
      Fitting (if status ≠ 0 then do rollback; return status
        else do listEntries; rollback; return OK) s₁ fun _ s' => s'.StoresFit := by
    intro status s₁ hs₁ hsees
    split
    · exact storesFit_back _ s₁ hs₁
    · rename_i hzero
      have hruns := hfits (hsees (not_not.mp hzero))
      exact safe_bind ((fitting_listEntries hruns hs₁).weaken fun _ s₂ hs₂ =>
        storesFit_back _ s₂ hs₂)
  refine safe_bind (safe_get (safe_bind (safe_modify ?_)))
  dsimp only
  split
  · exact safe_bind (safe_pure (htail (hs.of_stored rfl) fun _ => .here))
  · refine safe_bind ((fitting_cd (s := { s with stack := s.dirBuff.sector :: s.stack }) hfits
      (hs.of_stored rfl) path).weaken ?_)
    rintro status s₁ ⟨hs₁, hsees⟩
    exact htail hs₁ hsees

theorem fitting_cat (hfits : s.FitsBelow) (hs : s.StoresFit) (path : Name) :
    Fitting (cat path) s fun _ s' => s'.StoresFit := by
  refine safe_bind (safe_get (safe_bind (safe_modify ?_)))
  refine safe_bind ((fitting_walk (s := { s with stack := s.dirBuff.sector :: s.stack }) hfits
    (hs.of_stored rfl) path WALK_BAN_DIRS).weaken ?_)
  rintro status s₁ ⟨hs₁, _⟩
  split
  · exact storesFit_back _ s₁ hs₁
  · -- from here on no directory is searched
    exact preserves_bind storesFit_lastHopSize (fun _ =>
      preserves_bind (preserves_times storesFit_catByte _) fun _ =>
      preserves_bind (storesFit_print _) fun _ => storesFit_back _) s₁ hs₁

theorem fitting_statEntry (hruns : s.RunsFit) (hs : s.StoresFit) (lastName : Name) :
    Fitting (statEntry lastName) s fun _ s' => s'.StoresFit := by
  refine safe_bind ((fitting_findChild hruns hs lastName).weaken fun status s₁ hs₁ => ?_)
  split
  · exact storesFit_back _ s₁ hs₁
  · refine safe_bind (safe_get ?_)
    exact preserves_bind (storesFit_printRegularDirEntry _)
      (fun _ => preserves_bind (storesFit_print _) fun _ => storesFit_back _) s₁ hs₁

theorem fitting_stat (hfits : s.FitsBelow) (hs : s.StoresFit) (path : Name) :
    Fitting (stat path) s fun _ s' => s'.StoresFit := by
  refine safe_bind (safe_get (safe_bind (safe_modify ?_)))
  split
  · exact fitting_statEntry (s := { s with stack := s.dirBuff.sector :: s.stack })
      (hfits .here) (hs.of_stored rfl) path
  · refine safe_bind ((fitting_walk (s := { s with stack := s.dirBuff.sector :: s.stack }) hfits
      (hs.of_stored rfl) _ WALK_BAN_FILES).weaken ?_)
    rintro status s₁ ⟨hs₁, hsees⟩
    split
    · exact storesFit_back _ s₁ hs₁
    · rename_i hzero
      exact fitting_statEntry (hfits (hsees (not_not.mp hzero) (by decide))) hs₁ _

/-! ### The way up -/

/-- The directories that pwd comes to from `d`, each with the cluster it has come from
    and the names of the directories on the way, the outermost first. -/
inductive Drive.Ascends (d : Drive) : Drive → UInt32 → List Name → Prop
  | start : Ascends d d (d.clusterOf d.dirBuff.sector) []
  | up {d₁ d₂ d₃ : Drive} {id : UInt32} {junk junk' name : Name} {names : List Name}
      (hrest : Ascends d d₁ id names) (hfind : d₁.Finds junk (goesBy (ascii "..")) d₂)
      (hlisted : (d₂.jump d₂.hopSector).FindsAs junk' (startsAt id) d₃ name) :
      Ascends d (d₃.jump d₂.hopSector) ((d₃.jump d₂.hopSector).clusterOf d₂.hopSector)
        (name :: names)

/-- The length of the path that the names spell, with a `/` before each. -/
def pathLength (names : List Name) : Nat := (names.map fun name => name.length + 1).sum

/-- The runs of long slots on the way up fit a name buffer, and the path without its first
    `/` does. -/
structure Drive.FitsAbove (d : Drive) : Prop where
  here : ∀ ⦃d₁ id names⦄, d.Ascends d₁ id names → d₁.RunsFit
  parent : ∀ ⦃d₁ id names junk d₂⦄, d.Ascends d₁ id names →
    d₁.Finds junk (goesBy (ascii "..")) d₂ → (d₂.jump d₂.hopSector).RunsFit
  path : ∀ ⦃d₁ id names⦄, d.Ascends d₁ id names → pathLength names ≤ MAX_NAME_LEN

theorem fitting_pwdStep {d₀ : Drive} {w : PwdVars} {names : List Name} (hfits : d₀.FitsAbove)
    (hs : s.StoresFit) (hup : d₀.Ascends s.toDrive w.clusterId names)
    (hpath : w.fullPath.length = pathLength names) :
    Fitting (pwdStep w) s fun _ s' => s'.StoresFit := by
  refine safe_bind ((fitting_findChild (hfits.here hup) hs _).and_returns.weaken ?_)
  rintro found s₁ ⟨hs₁, hsearch⟩
  rcases findChild_cases hsearch with ⟨d, hlook, ⟨rfl, hfind⟩ | ⟨rfl, _⟩⟩
  · rw [if_pos rfl]
    refine safe_bind ((storesFit_hop s₁ hs₁).and_returns.weaken ?_)
    rintro _ s₂ ⟨hs₂, hhop⟩
    have hdrive := (hlook.hop_cases hfind.type_eq hhop).drive
    have hruns : s₂.RunsFit := by
      rw [hdrive]
      exact hfits.parent hup hfind
    refine safe_bind (safe_get (safe_bind (safe_modify ?_)))
    refine safe_bind ((fitting_findChildByClusterId
      (s := { s₂ with stack := s₂.dirBuff.sector :: s₂.stack }) hruns (hs₂.of_stored rfl)
      w.clusterId).and_returns.weaken ?_)
    rintro ⟨name, success⟩ s₃ ⟨hs₃, hsearch'⟩
    dsimp only
    rcases findChildByClusterId_cases hsearch' with ⟨d₁, _, ⟨hzero, hlisted⟩ | ⟨hone, _⟩⟩
    · have hnew : pathLength (name :: names) ≤ MAX_NAME_LEN := by
        simp only [hdrive] at hlisted
        exact hfits.path (.up hup hfind hlisted)
      have hlen : (name ++ w.fullPath).length < MAX_NAME_LEN := by
        simp only [pathLength, List.map_cons, List.sum_cons] at hnew
        rw [List.length_append, hpath, pathLength]
        omega
      have hslash : (ascii "/" ++ (name ++ w.fullPath)).length < 1024 := by
        rw [List.length_append]
        simp only [MAX_NAME_LEN] at hlen
        change 1 + _ < 1024
        omega
      rw [if_neg (by simp [show success = 0 from hzero])]
      refine safe_bind (fitting_store hs₃ hlen fun s₄ hs₄ _ => ?_)
      refine safe_bind (fitting_store hs₄ hslash fun s₅ hs₅ _ => ?_)
      exact preserves_bind storesFit_rollback (fun _ => preserves_bind preserves_get fun _ =>
        preserves_bind (storesFit_lift _) fun _ => preserves_pure _) s₅ hs₅
    · rw [if_pos (by simp [show success = 1 from hone])]
      exact preserves_bind (storesFit_print _) (fun _ => preserves_pure _) s₃ hs₃
  · rw [if_neg (by decide)]
    exact preserves_bind (storesFit_print _) (fun _ => storesFit_back _) s₁ hs₁

theorem fitting_pwd (hfits : s.FitsAbove) (hs : s.StoresFit) :
    Fitting pwd s fun _ s' => s'.StoresFit := by
  refine safe_bind (safe_get (safe_bind (safe_modify ?_)))
  refine safe_bind ((fitting_lift (s := { s with stack := s.dirBuff.sector :: s.stack }) _
    (hs.of_stored rfl)).weaken ?_)
  rintro id s₀ ⟨hs₀, hid⟩
  rcases returns_sectorToCluster.mp hid with ⟨_, rfl, hdrive⟩
  refine safe_iter (fun w s₁ => s₁.StoresFit ∧ ∃ names,
      s.toDrive.Ascends s₁.toDrive w.clusterId names ∧ w.fullPath.length = pathLength names)
    (fun _ _ h => h.1) ?_ ⟨hs₀, [], by rw [hdrive]; exact .start, rfl⟩
  rintro w s₁ ⟨hs₁, names, hup, hpath⟩
  refine (fitting_pwdStep hfits hs₁ hup hpath).and_returns.weaken ?_
  rintro x s₂ ⟨hs₂, hround⟩
  cases pwdStep_cases hround with
  | top _ _ _ => exact hs₂
  | lost _ _ _ _ => exact hs₂
  | @up d₁ d₂ name _ w' hfind hlisted hdrive' _ _ hid hpath' =>
    refine ⟨hs₂, name :: names, ?_, ?_⟩
    · rw [hid, hdrive']
      exact .up hup hfind hlisted
    · rw [hpath', List.length_append, List.length_append, hpath]
      simp only [pathLength, List.map_cons, List.sum_cons]
      change 1 + _ = _
      omega

/-! ### Runs of the server -/

/-- The disk is one on which the names that the command builds fit. -/
def Command.NamesFit : Command → Server → Prop
  | .pwd, s => s.FitsAbove
  | .cd _, s => s.FitsBelow
  | .ls _, s => s.FitsBelow
  | .cat _, s => s.FitsBelow
  | .stat _, s => s.FitsBelow

theorem fitting_command {cmd : Command} (hfits : cmd.NamesFit s) (hs : s.StoresFit) :
    Fitting cmd.run s fun _ s' => s'.StoresFit := by
  cases cmd with
  | pwd => exact fitting_pwd hfits hs
  | cd path => exact (fitting_cd hfits hs path).weaken fun _ _ h => h.1
  | ls path => exact fitting_ls hfits hs path
  | cat path => exact fitting_cat hfits hs path
  | stat path => exact fitting_stat hfits hs path

/-- The server can be in this state between two requests if every command so far found a
    disk on which the names fit. -/
inductive FittingRun : Server → Prop
  | init (junk : Nat → Name) : FittingRun (Server.initial junk)
  | serve {s s' : Server} {env : Env} {m : Message} {r : Int} (hs : FittingRun s)
      (hfits : ∀ cmd, m.command = some cmd → s.deviceFd ≠ none → cmd.NamesFit s)
      (h : Returns (serve env m) s r s') : FittingRun s'

theorem MountOutcome.stored {env : Env} {m : Message} {r : Int} (h : MountOutcome env m s r s') :
    s'.scratch.stored = s.scratch.stored := by
  cases h <;> rfl

theorem FittingRun.storesFit (h : FittingRun s) : s.StoresFit := by
  induction h with
  | init junk => simp [Server.StoresFit, Server.initial, Server.reset]
  | serve _ hfits h ih =>
    cases serve_cases h with
    | said text => exact ih.of_stored rfl
    | mount hmount => exact ih.of_stored hmount.stored
    | unmounted => exact ih.of_stored rfl
    | command hcmd hanswer =>
      cases hanswer with
      | refused text => exact ih.of_stored rfl
      | ran text hfd hrun =>
        have hafter := (fitting_command (hfits _ hcmd hfd) ih).returns hrun
        exact hafter.of_stored rfl

/-- **Names and paths fit their buffers** at every moment of a run of the server in which
    each command finds runs of long slots, and for pwd a path, that fit. -/
theorem names_fit_buffers (hs : FittingRun s) {cmd : Command} (hfits : cmd.NamesFit s) :
    Safe (fun _ s' => s'.StoresFit) cmd.run s fun _ s' => s'.StoresFit :=
  fitting_command hfits hs.storesFit

/-! ### Hierarchies of directories -/

section hierarchy

variable {v : Volume} {c : UInt32}

def isLong (de : DirEntry) : Bool := de.type = .long

theorem pieces_le_of_run {es : List DirEntry} (as bs : List DirEntry)
    (h : ∀ de ∈ es, de.type = .long) :
    pieces es ≤ pieces ((as ++ (es ++ bs)).filter isLong) := by
  have hkeep : es.filter isLong = es :=
    List.filter_eq_self.mpr fun de hde => by simp [isLong, h de hde]
  rw [List.filter_append, List.filter_append, hkeep, pieces_append, pieces_append]
  omega

/-- The runs fit if all long slots of a directory together do. -/
theorem Volume.Dirs.fitsBelow (t : v.Dirs)
    (hshort : ∀ {c : UInt32}, t.isDir c →
      pieces (((t.slots c).map fun a => (v.slot a).entry).filter isLong) < MAX_NAME_LEN)
    (hc : t.isDir c) (hcwd : d.Cwd v c) : d.FitsBelow := by
  intro d₁ hsees es fs d₂ hsteps hlong
  rcases t.sees hc hcwd hsees with ⟨c', d₀, es₀, hc', hcwd', hsteps₀⟩
  rcases (t.lists hc').steps_all hcwd'.cursor hcwd'.on with ⟨d₃, hall, _, hend⟩
  rcases hall.tour with ⟨ds, htour, hds⟩
  have htype : d₂.dirBuff.de.type ≠ .undefined := by
    rw [hlong _ (by simp)]
    decide
  rcases htour.passes hend (hsteps₀.append hsteps) htype with ⟨pre, post, rfl, hpre⟩
  have hle := pieces_le_of_run (es₀ ++ es) (entriesOf post) hlong
  have hsplit : es₀ ++ es ++ (fs ++ [d₂.dirBuff.de] ++ entriesOf post) =
      (t.slots c').map fun a => (v.slot a).entry := by
    have hparts : entriesOf (pre ++ d₂ :: post) =
        entriesOf pre ++ d₂.dirBuff.de :: entriesOf post := by simp [entriesOf]
    rw [hds, hparts, ← hpre]
    simp
  rw [hsplit] at hle
  exact Nat.lt_of_le_of_lt hle (hshort hc')

end hierarchy

/-- On the sample volume, after it has been mounted. -/
theorem names_fit_on_sample : ∃ s, FittingRun s ∧ s.FitsBelow ∧
    Safe (fun _ s' => s'.StoresFit) (Command.ls (ascii "DIR")).run s fun _ s' => s'.StoresFit := by
  rcases Sample.mounted fun _ => [] with ⟨s, hmount, hcwd, _⟩
  have hserve : Returns (serve (diskEnv Sample.volume.dev) mountMessage)
      (Server.initial fun _ => []) OK s := hmount
  have hrun : FittingRun s := .serve (.init _) (fun _ hcmd => by cases hcmd) hserve
  have hfits : s.FitsBelow := by
    apply Sample.tree.fitsBelow _ (.inl rfl) hcwd
    intro c hc
    rcases hc with rfl | rfl
    · decide +kernel
    · decide +kernel
  have hcmd : (Command.ls (ascii "DIR")).NamesFit s := hfits
  exact ⟨s, hrun, hfits, names_fit_buffers hrun hcmd⟩

/-! ### A volume on which they do not -/

namespace Deep

/-- The 20 slots of a name of 255 letters `a`, and after them the entry for a directory. -/
def nameSlot (cluster : UInt32) (k : Nat) : Slot :=
  if k < 20 then
    longSlot (longOrd 20 (19 - k)) 0xB4 fun j =>
      if 13 * (19 - k) + j < 255 then 0x61 else if 13 * (19 - k) + j = 255 then 0 else 0xFFFF
  else if k = 20 then rawSlot (ascii "AAAAAA~1") 0x10 cluster 0
  else fun _ => 0

/-- 40 slots of 13 letters each, and after them the entry for a file. -/
def crowdSlot (k : Nat) : Slot :=
  if k < 40 then longSlot (longOrd 40 (39 - k)) 0 fun _ => 0x61
  else if k = 40 then rawSlot (ascii "X") 0x20 0 0
  else fun _ => 0

/-- Slot `k` of the directory in cluster `c`: each lists the next one, down to cluster 5. -/
def slotOf (c k : Nat) : Slot :=
  if c = 2 then nameSlot 3 k
  else if k = 0 then rawSlot (ascii ".") 0x10 (UInt32.ofNat c) 0
  else if k = 1 then rawSlot (ascii "..") 0x10 (if c = 3 then 0 else UInt32.ofNat (c - 1)) 0
  else if c < 5 then nameSlot (UInt32.ofNat (c + 1)) (k - 2)
  else crowdSlot (k - 2)

/-- Sectors of 2048 bytes: boot sector, FAT, and clusters 2 to 5 of one sector each. -/
def boot : Image :=
  bootSector 2048 1 1 6 1 2 ++
  [(2048 + 8, le32Bytes 0x0FFFFFFF ++ le32Bytes 0x0FFFFFFF ++ le32Bytes 0x0FFFFFFF ++
    le32Bytes 0x0FFFFFFF)]

def device : Device := Device.whole 12288 fun i =>
  if i < 4096 then boot.byte i else slotOf (i / 2048) (i % 2048 / 32) (Fin.ofNat 32 i)

/-- `cd` to cluster 5, three names of 255 letters. -/
def cdMessage : Message where
  source := 1
  callnr := FAT32S_CD
  txtLen := 767
  txt i := if i % 256 = 255 then 0x2F else 0x61
  copyOk := true

def requests : List Message :=
  [mountMessage, cdMessage, textMessage FAT32S_PWD [], textMessage FAT32S_LS (ascii ".")]

/-- In a directory three levels down, pwd puts 767 bytes into `name`; and ls, in a directory
    with 40 long slots in a row, puts 520 bytes into `part` and `full_name`. -/
theorem names_overflow : ∃ s, Served (diskEnv device) requests (Server.initial fun _ => []) s ∧
    (MAX_NAME_LEN, 767) ∈ s.scratch.stored ∧ (MAX_NAME_LEN, 520) ∈ s.scratch.stored := by
  rcases exists_served (diskEnv device) requests 1000
    (fun s => s.scratch.stored.contains (MAX_NAME_LEN, 767) &&
      s.scratch.stored.contains (MAX_NAME_LEN, 520)) (by decide +kernel) with ⟨s, hserved, htest⟩
  simp only [Bool.and_eq_true, List.contains_iff_mem] at htest
  exact ⟨s, hserved, htest⟩

end Deep

end Fat32s
