/-
  Fat32s/Rollback.lean
  ====================
  **The rollback stack, on any disk.**

  A command that returns has taken off the rollback stack what it put there, and
  leaves the cursor at the beginning of a cluster: where it was, or, after a
  successful cd, where the walk ended.  The exception is pwd.  When a directory
  is not listed in the directory that its `..` entry leads to, pwd gives up with
  the cursor in the middle of that directory and two sectors on the stack.
-/
import Fat32s.Lookup
import Fat32s.Mount

namespace Fat32s

open Fat32s.Lib Fat32s.Lib.Prog

variable {s s' : Server} {r : Int}

/-- The cursor stands at the first slot of some cluster. -/
structure Drive.AtCluster (d : Drive) : Prop where
  offset : d.dirBuff.offset = 0
  cluster : ∃ c, d.dirBuff.sector = d.firstSectorOfCluster c

/-- The cursor stands at the beginning of the sector. -/
structure Drive.AtSector (d : Drive) (sector : UInt32) : Prop where
  sector : d.dirBuff.sector = sector
  offset : d.dirBuff.offset = 0

/-- The cursor has jumped to the sector and not moved since. -/
def Drive.JumpedTo (d : Drive) (sector : UInt32) : Prop := ∃ d₀ : Drive, d = d₀.jump sector

theorem Drive.JumpedTo.atSector {d : Drive} {sector : UInt32} (h : d.JumpedTo sector) :
    d.AtSector sector := by
  obtain ⟨d₀, rfl⟩ := h
  exact ⟨d₀.jump_sector sector, d₀.jump_offset sector⟩

theorem Drive.atCluster_jump_hopSector (d : Drive) : (d.jump d.hopSector).AtCluster :=
  ⟨d.jump_offset _, d.hopCluster, by
    rw [Drive.jump_sector, Drive.jump_firstSectorOfCluster, Drive.hopSector]⟩

/-- The cursor is back at the first slot of the sector that was on top of the
    stack, and the sector is off the stack. -/
structure Server.Back (s : Server) (sector : UInt32) (rest : List UInt32) : Prop where
  cursor : s.JumpedTo sector
  stack : s.stack = rest

theorem back_of_rollback {sector : UInt32} {rest : List UInt32} {α : Type} {a b : α}
    (h : Returns (do rollback; return a) s b s') (hstack : s.stack = sector :: rest) :
    b = a ∧ s'.Back sector rest := by
  obtain ⟨_, s₁, hroll, hret⟩ := returns_bind.mp h
  obtain ⟨_, _, hstack', _, rfl⟩ := returns_rollback.mp hroll
  obtain ⟨rfl, rfl⟩ := List.cons.inj (hstack.symm.trans hstack')
  obtain ⟨rfl, rfl⟩ := returns_pure.mp hret
  exact ⟨rfl, ⟨s.toDrive, rfl⟩, rfl⟩

/-! ### Walks -/

/-- How a walk ends: back where it started, or where the path led, or without
    having moved because the path has no segments. -/
structure Walked (s : Server) (sector : UInt32) (rest : List UInt32) (r : Int) (s' : Server) :
    Prop where
  stack : s'.stack = rest
  failed : r ≠ 0 → s'.JumpedTo sector
  arrived : r = 0 → s'.toDrive = s.toDrive ∨ s'.AtCluster

theorem visits_cases {banFiles banDirs : Bool} {segs : List (Name × Bool)} {sector : UInt32}
    {rest : List UInt32} (hstack : s.stack = sector :: rest)
    (h : Returns (visits banFiles banDirs segs) s r s') : Walked s sector rest r s' := by
  induction segs generalizing s with
  | nil =>
    obtain ⟨_, _, hpop, hret⟩ := returns_bind.mp h
    obtain ⟨_, hstack', rfl⟩ := returns_stackPop.mp hpop
    obtain ⟨rfl, rfl⟩ := returns_pure.mp hret
    obtain ⟨rfl, rfl⟩ := List.cons.inj (hstack.symm.trans hstack')
    exact ⟨rfl, fun hr => (hr rfl).elim, fun _ => .inl rfl⟩
  | cons seg segs ih =>
    obtain ⟨segment, more⟩ := seg
    obtain ⟨o, s₁, hvisit, hrest⟩ := returns_bind.mp h
    cases visit_cases hvisit with
    | missing _ hstack' hdrive =>
      obtain ⟨rfl, rfl⟩ := returns_pure.mp hrest
      obtain ⟨rfl, rfl⟩ := List.cons.inj (hstack.symm.trans hstack')
      exact ⟨rfl, fun _ => ⟨_, hdrive⟩, fun hr => by cases hr⟩
    | barred _ _ hstack' hdrive =>
      obtain ⟨rfl, rfl⟩ := returns_pure.mp hrest
      obtain ⟨rfl, rfl⟩ := List.cons.inj (hstack.symm.trans hstack')
      exact ⟨rfl, fun _ => ⟨_, hdrive⟩, fun hr => by cases hr⟩
    | entered _ _ henter =>
      have hwalked := ih (henter.stack.trans hstack) hrest
      refine ⟨hwalked.stack, hwalked.failed, fun hr => .inr ?_⟩
      rcases hwalked.arrived hr with hsame | hat
      · rw [hsame, henter.drive]
        exact Drive.atCluster_jump_hopSector _
      · exact hat

theorem walk_cases {path : Name} {flags : Nat} (h : Returns (walk path flags) s r s') :
    Walked s s.dirBuff.sector s.stack r s' := by
  have hwalked := visits_cases rfl (returns_walk.mp h)
  exact ⟨hwalked.stack, hwalked.failed, hwalked.arrived⟩

/-! ### Programs that leave the stack alone -/

theorem quiet_stack (stack : List UInt32) : Quiet fun s => s.stack = stack :=
  ⟨fun _ => ⟨fun _ h => h, fun _ h => h, fun _ h => h⟩, fun _ _ _ _ h => h⟩

theorem listEntries_stack {u : Unit} (h : Returns listEntries s u s') : s'.stack = s.stack :=
  (quiet_stack s.stack).listEntries.returns h rfl

theorem catBytes_stack {n : Nat} {u : Unit} (h : Returns (times n catByte) s u s') :
    s'.stack = s.stack :=
  (preserves_times (quiet_stack s.stack).catByte n).returns h rfl

theorem printRegularDirEntry_stack {u : Slot} {x : Unit}
    (h : Returns (printRegularDirEntry u) s x s') : s'.stack = s.stack :=
  ((quiet_stack s.stack).printRegularDirEntry u).returns h rfl

/-! ### The commands -/

/-- The stack is what it was, and the cursor at the beginning of its old sector
    or of a cluster. -/
structure Restored (s s' : Server) : Prop where
  stack : s'.stack = s.stack
  cursor : s'.AtSector s.dirBuff.sector ∨ s'.AtCluster

theorem Server.Back.restored (h : s'.Back s.dirBuff.sector s.stack) : Restored s s' :=
  ⟨h.stack, .inl h.cursor.atSector⟩

theorem Walked.restored (h : Walked s s.dirBuff.sector s.stack r s') (hoff : s.dirBuff.offset = 0) :
    Restored s s' := by
  refine ⟨h.stack, ?_⟩
  by_cases hr : r = 0
  · rcases h.arrived hr with hsame | hat
    · rw [hsame]
      exact .inl ⟨rfl, hoff⟩
    · exact .inr hat
  · exact .inl (h.failed hr).atSector

theorem cd_cases {path : Name} (h : Returns (cd path) s r s') :
    Walked s s.dirBuff.sector s.stack r s' := by
  unfold cd at h
  rw [returns_globals_bind, returns_push_bind] at h
  obtain ⟨status, s₁, hwalk, h⟩ := returns_bind.mp h
  have hwalked := walk_cases hwalk
  by_cases hstatus : status = 0
  · rw [if_neg (not_not_intro hstatus)] at h
    obtain ⟨_, s₂, hpop, hret⟩ := returns_bind.mp h
    obtain ⟨_, hstack, rfl⟩ := returns_stackPop.mp hpop
    obtain ⟨rfl, rfl⟩ := returns_pure.mp hret
    obtain ⟨rfl, rfl⟩ := List.cons.inj (hwalked.stack.symm.trans hstack)
    exact ⟨rfl, fun hr => (hr rfl).elim, fun _ => hwalked.arrived hstatus⟩
  · rw [if_pos hstatus] at h
    obtain ⟨rfl, hback⟩ := back_of_rollback h hwalked.stack
    exact ⟨hback.stack, fun _ => hback.cursor, fun hr => (hstatus hr).elim⟩

theorem ls_cases {path : Name} (h : Returns (ls path) s r s') :
    s'.Back s.dirBuff.sector s.stack := by
  have htail : ∀ {status : Int} {s₁ : Server}, s₁.stack = s.dirBuff.sector :: s.stack →
      Returns (if status ≠ 0 then do rollback; return status
        else do listEntries; rollback; return OK) s₁ r s' → s'.Back s.dirBuff.sector s.stack := by
    intro status s₁ hstack h
    split at h
    · exact (back_of_rollback h hstack).2
    · obtain ⟨_, s₂, hlist, h⟩ := returns_bind.mp h
      exact (back_of_rollback h ((listEntries_stack hlist).trans hstack)).2
  unfold ls at h
  rw [returns_globals_bind, returns_push_bind] at h
  dsimp only at h
  split at h
  · rw [returns_pure_bind] at h
    exact htail rfl h
  · obtain ⟨status, s₁, hcd, h⟩ := returns_bind.mp h
    exact htail (cd_cases hcd).stack h

theorem cat_cases {path : Name} (h : Returns (cat path) s r s') :
    s'.Back s.dirBuff.sector s.stack := by
  unfold cat at h
  rw [returns_globals_bind, returns_push_bind] at h
  obtain ⟨status, s₁, hwalk, h⟩ := returns_bind.mp h
  have hwalked := walk_cases hwalk
  split at h
  · exact (back_of_rollback h hwalked.stack).2
  · obtain ⟨sz, s₂, hsize, h⟩ := returns_bind.mp h
    obtain ⟨_, _, _, _, _, rfl⟩ := returns_lastHopSize.mp hsize
    obtain ⟨_, s₃, hbytes, h⟩ := returns_bind.mp h
    rw [returns_printf_bind] at h
    exact (back_of_rollback h ((catBytes_stack hbytes).trans hwalked.stack)).2

theorem statEntry_cases {lastName : Name} {sector : UInt32} {rest : List UInt32}
    (h : Returns (statEntry lastName) s r s') (hstack : s.stack = sector :: rest) :
    s'.Back sector rest := by
  unfold statEntry at h
  obtain ⟨status, s₁, hfind, h⟩ := returns_bind.mp h
  obtain ⟨d, hlook, _⟩ := findChild_cases hfind
  split at h
  · exact (back_of_rollback h (hlook.stack.trans hstack)).2
  · rw [returns_globals_bind] at h
    obtain ⟨_, s₂, hprint, h⟩ := returns_bind.mp h
    unfold printLongNameRde at h
    rw [returns_printf_bind] at h
    exact (back_of_rollback h ((printRegularDirEntry_stack hprint).trans
      (hlook.stack.trans hstack))).2

theorem stat_cases {path : Name} (h : Returns (stat path) s r s') :
    s'.Back s.dirBuff.sector s.stack := by
  unfold stat at h
  rw [returns_globals_bind, returns_push_bind] at h
  split at h
  · exact statEntry_cases h rfl
  · obtain ⟨status, s₁, hwalk, h⟩ := returns_bind.mp h
    have hwalked := walk_cases hwalk
    split at h
    · exact (back_of_rollback h hwalked.stack).2
    · exact statEntry_cases h hwalked.stack

/-! ### pwd -/

/-- The way up by `..` entries from the cursor, which stands in the directory
    with the given cluster, leads through directories that list the one before.
    It may end anywhere: a directory without a `..` entry is taken for the root. -/
inductive Climbs : Drive → (Nat → Name) → UInt32 → Prop
  | top {d d₁ : Drive} {junk : Nat → Name} {clusterId : UInt32}
      (hmiss : d.Misses (junk 0) (goesBy (ascii "..")) d₁) : Climbs d junk clusterId
  | up {d d₁ d₂ : Drive} {junk : Nat → Name} {clusterId : UInt32}
      (hfind : d.Finds (junk 0) (goesBy (ascii "..")) d₁)
      (hlisted : (d₁.jump d₁.hopSector).Finds (junk 1) (startsAt clusterId) d₂)
      (hrest : Climbs (d₂.jump d₁.hopSector) (fun n => junk (n + 2))
        ((d₂.jump d₁.hopSector).clusterOf d₁.hopSector)) : Climbs d junk clusterId

/-- The way up from the current directory, as pwd goes it. -/
def Server.ClimbsUp (s : Server) : Prop :=
  Climbs s.toDrive s.scratch.junk (s.clusterOf s.dirBuff.sector)

theorem Climbed.not_climbs {w : PwdVars} {s' : Server} (h : Climbed w s (.inr (-1)) s') :
    ¬ Climbs s.toDrive s.scratch.junk w.clusterId := by
  cases h with
  | lost hfind hmiss _ _ =>
    intro hclimbs
    cases hclimbs with
    | top hmiss' => exact hfind.not_misses hmiss'
    | up hfind' hlisted _ =>
      obtain rfl := hfind.unique hfind'
      exact hlisted.not_misses hmiss

theorem Climbed.climbs_iff {w w' : PwdVars} {s₁ : Server} (h : Climbed w s (.inl w') s₁) :
    Climbs s.toDrive s.scratch.junk w.clusterId ↔
      Climbs s₁.toDrive s₁.scratch.junk w'.clusterId := by
  cases h with
  | @up d d₁ _ _ _ hfind hlisted hdrive _ hjunk hid _ _ =>
    rw [hid, hdrive, hjunk]
    constructor
    · intro hclimbs
      cases hclimbs with
      | top hmiss => exact (hfind.not_misses hmiss).elim
      | up hfind' hlisted' hrest =>
        obtain rfl := hfind.unique hfind'
        obtain rfl := hlisted.finds.unique hlisted'
        exact hrest
    · intro hrest
      exact .up hfind hlisted.finds hrest

theorem pwdLoop_cases {w : PwdVars} {sector : UInt32} {rest : List UInt32}
    (h : Returns (iter pwdStep w) s r s') (hstack : s.stack = sector :: rest) :
    (Climbs s.toDrive s.scratch.junk w.clusterId ∧ s'.Back sector rest) ∨
      (¬ Climbs s.toDrive s.scratch.junk w.clusterId ∧ s'.sp = rest.length + 2) := by
  refine returns_iter_induct (motive := fun w s _ s' => s.stack = sector :: rest →
    (Climbs s.toDrive s.scratch.junk w.clusterId ∧ s'.Back sector rest) ∨
      (¬ Climbs s.toDrive s.scratch.junk w.clusterId ∧ s'.sp = rest.length + 2))
    ?_ ?_ h hstack
  · intro w s a s' hstop hstack
    have hround := pwdStep_cases hstop
    cases hround with
    | top hmiss hstack' hdrive _ =>
      obtain ⟨rfl, rfl⟩ := List.cons.inj (hstack.symm.trans hstack')
      exact .inl ⟨.top hmiss, ⟨_, hdrive⟩, rfl⟩
    | lost hfind hmiss hstack' hdrive =>
      refine .inr ⟨Climbed.not_climbs (.lost hfind hmiss hstack' hdrive), ?_⟩
      rw [Server.sp, hstack', hstack]
      rfl
  · intro w s w' s₁ a s' hround ih hstack
    have hclimbed := pwdStep_cases hround
    rw [hclimbed.climbs_iff]
    apply ih
    cases hclimbed with
    | up _ _ _ hstack' _ _ _ _ => exact hstack'.trans hstack

/-- **pwd restores the stack and the cursor if it gets up to a directory without
    `..`, and otherwise leaves two sectors on the stack.** -/
theorem pwd_cases (h : Returns pwd s r s') :
    (s.ClimbsUp ∧ s'.Back s.dirBuff.sector s.stack) ∨ (¬ s.ClimbsUp ∧ s'.sp = s.sp + 2) := by
  unfold pwd at h
  rw [returns_globals_bind, returns_push_bind, returns_onDrive_bind] at h
  obtain ⟨_, _, hcluster, hloop⟩ := h
  obtain ⟨_, rfl, rfl⟩ := returns_sectorToCluster.mp hcluster
  exact pwdLoop_cases hloop rfl

/-! ### How deep the stack gets -/

/-- At no point of a run of `p` are there more than `k` sectors on the stack. -/
def Within {α : Type} (k : Nat) (p : ServerM α) (s : Server) : Prop :=
  Safe (fun _ s' => s'.sp ≤ k) p s fun _ s' => s'.sp ≤ k

section depth

variable {α : Type} {k : Nat}

theorem quiet_sp (k : Nat) : Quiet fun s => s.sp ≤ k :=
  ⟨fun _ => ⟨fun _ h => h, fun _ h => h, fun _ h => h⟩, fun _ _ _ _ h => h⟩

theorem stackPop_within : Preserves (fun s => s.sp ≤ k) stackPop := by
  refine preserves_stackPop ?_
  intro s sector rest hstack hs
  rw [Server.sp, hstack, List.length_cons] at hs
  exact Nat.le_of_succ_le hs

theorem rollback_within : Preserves (fun s : Server => s.sp ≤ k) rollback :=
  (quiet_sp k).rollback stackPop_within

theorem rollback_then_within (a : α) :
    Preserves (fun s => s.sp ≤ k) (do rollback; return a : ServerM α) :=
  preserves_bind rollback_within fun _ => preserves_pure a

theorem within_push {p : Server → ServerM α} {s : Server}
    (h : Within k (p s) { s with stack := s.dirBuff.sector :: s.stack }) :
    Within k (do
      let s ← Prog.get
      stackPush s.dirBuff.sector
      p s) s :=
  safe_bind (safe_get (safe_bind (safe_modify h)))

theorem walk_within {path : Name} {flags : Nat} (h : s.sp + 1 ≤ k) : Within k (walk path flags) s :=
  within_push ((quiet_sp k).walkLoop stackPop_within _ _ _ _ _ h)

theorem cd_within {path : Name} (h : s.sp + 2 ≤ k) : Within k (cd path) s := by
  refine within_push (safe_bind ((walk_within h).weaken ?_))
  intro status s₁ hs
  split
  · exact rollback_then_within _ _ hs
  · exact preserves_bind stackPop_within (fun _ => preserves_pure _) _ hs

theorem ls_within {path : Name} (h : s.sp + 3 ≤ k) : Within k (ls path) s := by
  have htail : ∀ status : Int, Preserves (fun s : Server => s.sp ≤ k) (if status ≠ 0 then do
      rollback
      return status
    else do
      listEntries
      rollback
      return OK) := by
    intro status
    split
    · exact rollback_then_within _
    · exact preserves_bind (quiet_sp k).listEntries fun _ => rollback_then_within _
  refine within_push ?_
  dsimp only
  split
  · exact safe_bind (safe_pure (htail _ _ (Nat.le_trans (Nat.le_add_right _ 2) h)))
  · exact safe_bind ((cd_within h).weaken fun status s₁ hs => htail status s₁ hs)

theorem lastHopSize_within (h : s.sp + 1 ≤ k) : Within k lastHopSize s := by
  have htail : Preserves (fun s => s.sp ≤ k) (do
      Prog.modify fun s => { s with
        dirBuff := { s.dirBuff with sector := s.lastHopSector, offset := s.lastHopOffset } }
      let s ← Prog.get
      let _ ← loadSector s.dirBuff.sector
      let _ ← parseDir s.dirBuff.offset
      let s ← Prog.get
      rollback
      return s.dirBuff.de.u.fileSize : ServerM UInt32) :=
    preserves_bind (preserves_modify fun _ hs => hs) fun _ =>
    preserves_bind preserves_get fun _ =>
    preserves_bind ((quiet_sp k).lift fun hI => hI.loadSector _) fun _ =>
    preserves_bind ((quiet_sp k).lift fun hI => hI.parseDir _) fun _ =>
    preserves_bind preserves_get fun _ => rollback_then_within _
  exact within_push (htail _ h)

theorem cat_within {path : Name} (h : s.sp + 2 ≤ k) : Within k (cat path) s := by
  refine within_push (safe_bind ((walk_within h).and_returns.weaken ?_))
  rintro status s₁ ⟨hs, hret⟩
  have hsp : s₁.sp + 1 ≤ k := by
    rw [Server.sp, (walk_cases hret).stack]
    exact h
  split
  · exact rollback_then_within _ _ hs
  · refine safe_bind ((lastHopSize_within hsp).weaken ?_)
    intro sz s₂ hs
    refine preserves_bind (preserves_times (quiet_sp k).catByte _) (fun _ => ?_) s₂ hs
    exact preserves_bind ((quiet_sp k).print _) fun _ => rollback_then_within _

theorem stat_within {path : Name} (h : s.sp + 2 ≤ k) : Within k (stat path) s := by
  have hentry : ∀ name, Preserves (fun s : Server => s.sp ≤ k) (statEntry name) :=
    (quiet_sp k).statEntry stackPop_within
  refine within_push ?_
  split
  · exact hentry _ _ (Nat.le_of_succ_le h)
  · refine safe_bind ((walk_within h).weaken ?_)
    intro status s₁ hs
    split
    · exact rollback_then_within _ _ hs
    · exact hentry _ _ hs

theorem pwdStep_within {w : PwdVars} (h : s.sp + 1 ≤ k) : Within k (pwdStep w) s := by
  have hs : s.sp ≤ k := Nat.le_of_succ_le h
  refine safe_bind (((quiet_sp k).findChild _ s hs).and_returns.weaken ?_)
  rintro found s₁ ⟨hs₁, hfind⟩
  have hstack₁ := ((quiet_stack s.stack).findChild _).returns hfind rfl
  split
  · refine safe_bind (((quiet_sp k).hop s₁ hs₁).and_returns.weaken ?_)
    rintro status s₂ ⟨hs₂, hhop⟩
    have hstack₂ := (quiet_stack s.stack).hop.returns hhop hstack₁
    have hpushed : Server.sp { s₂ with stack := s₂.dirBuff.sector :: s₂.stack } ≤ k := by
      rw [Server.sp, hstack₂]
      exact h
    refine within_push (safe_bind (((quiet_sp k).findChildByClusterId _ _ hpushed).weaken ?_))
    rintro ⟨name, success⟩ s₃ hs₃
    dsimp only
    split
    · exact preserves_bind ((quiet_sp k).print _) (fun _ => preserves_pure _) s₃ hs₃
    · refine preserves_bind ((quiet_sp k).store _ _) (fun _ => ?_) s₃ hs₃
      refine preserves_bind ((quiet_sp k).store _ _) fun _ => ?_
      refine preserves_bind rollback_within fun _ => preserves_bind preserves_get fun _ => ?_
      exact preserves_bind ((quiet_sp k).lift fun _ => Stable.sectorToCluster _) fun _ =>
        preserves_pure _
  · exact preserves_bind ((quiet_sp k).print _) (fun _ => rollback_then_within _) s₁ hs₁

theorem pwd_within (h : s.sp + 2 ≤ k) : Within k pwd s := by
  have hloop : ∀ {w : PwdVars} {s₁ : Server}, s₁.sp = s.sp + 1 → Within k (iter pwdStep w) s₁ := by
    intro w s₁ hs
    refine safe_iter (fun _ s' => s'.sp = s.sp + 1) (fun _ s' hs' => by omega) ?_ hs
    intro w s₂ hs₂
    refine (pwdStep_within (by omega)).and_returns.weaken ?_
    rintro x s₃ ⟨hs₃, hround⟩
    cases x with
    | inr a => exact hs₃
    | inl w' =>
      cases pwdStep_cases hround with
      | up _ _ _ hstack _ _ => exact (congrArg List.length hstack).trans hs₂
  have hcluster : Preserves (fun s' : Server => s'.sp ≤ k) (liftM (sectorToCluster
      s.dirBuff.sector) : ServerM UInt32) :=
    (quiet_sp k).lift fun _ => Stable.sectorToCluster _
  have hpushed : Server.sp { s with stack := s.dirBuff.sector :: s.stack } ≤ k :=
    Nat.le_of_succ_le h
  refine within_push (safe_bind ((hcluster _ hpushed).and_returns.weaken ?_))
  rintro c s₁ ⟨_, hret⟩
  obtain ⟨d, _, rfl⟩ := returns_liftM.mp hret
  exact hloop rfl

/-- No command has more than three sectors on the stack at a time. -/
theorem command_within (cmd : Command) (h : s.sp + 3 ≤ k) : Within k cmd.run s := by
  have h2 : s.sp + 2 ≤ k := Nat.le_of_succ_le h
  cases cmd with
  | pwd => exact pwd_within h2
  | cd path => exact cd_within h2
  | ls path => exact ls_within h
  | cat path => exact cat_within h2
  | stat path => exact stat_within h2

end depth

end Fat32s
