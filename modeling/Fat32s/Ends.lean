/-
  Fat32s/Ends.lean
  ================
  **When a command comes to an end.**

  A scan has no bound of its own: it goes on until the cursor comes to an empty
  slot or to the entry it looks for, and pwd goes up until a directory has no `..`
  entry.  `Command.Ends` says, for each command, which runs of the cursor have to
  end so, given the drive and the bytes in the name buffers.  On a drive with a
  usable geometry, whatever its disk holds, a command comes to an end exactly in
  that case.
-/
import Fat32s.Bounds

namespace Fat32s

open Fat32s.Lib Fat32s.Lib.Prog

variable {d d' : Drive} {s s' : Server} {r : Int}

/-! ### Searches -/

/-- The search comes to an end. -/
def Drive.Searches (d : Drive) (junk : Name) (p : DirEntry → Name → Prop) : Prop :=
  ∃ d', d.Finds junk p d' ∨ d.Misses junk p d'

/-- The listing comes to an empty slot. -/
def Drive.ListsAll (d : Drive) : Prop := ∃ es d', Steps d es d' ∧ d'.dirBuff.de.type = .undefined

theorem returns_findChild_of_finds {query : Name}
    (h : s.Finds (s.scratch.junk 0) (goesBy query) d) :
    ∃ s', Returns (findChild query) s 0 s' ∧ s.Looked d s' := by
  obtain ⟨_, es, hsteps, hnone, htype, hname, rfl⟩ := h
  exact ⟨_, returns_findChild.mpr ⟨es, d, hsteps, hnone, .inr ⟨rfl, htype, hname⟩, rfl⟩,
    s.looked_scanned es d⟩

theorem returns_findChild_of_misses {query : Name}
    (h : s.Misses (s.scratch.junk 0) (goesBy query) d) :
    ∃ s', Returns (findChild query) s 1 s' ∧ s.Looked d s' := by
  obtain ⟨es, hsteps, hnone, htype⟩ := h
  exact ⟨_, returns_findChild.mpr ⟨es, d, hsteps, hnone, .inl ⟨rfl, htype⟩, rfl⟩,
    s.looked_scanned es d⟩

theorem halts_findChild {query : Name} (h : s.Searches (s.scratch.junk 0) (goesBy query)) :
    Halts (findChild query) s := by
  obtain ⟨d', hfind | hmiss⟩ := h
  · obtain ⟨s', hret, _⟩ := returns_findChild_of_finds hfind
    exact hret.halts
  · obtain ⟨s', hret, _⟩ := returns_findChild_of_misses hmiss
    exact hret.halts

theorem halts_findChildByClusterId {id : UInt32}
    (h : s.Searches (s.scratch.junk 0) (startsAt id)) : Halts (findChildByClusterId id) s := by
  obtain ⟨d', ⟨_, es, hsteps, hnone, htype, hid, _⟩ | ⟨es, hsteps, hnone, htype⟩⟩ := h
  · exact (returns_findChildByClusterId.mpr ⟨es, d', hsteps, hnone,
      .inr ⟨rfl, htype, hid, rfl⟩, rfl⟩).halts
  · exact (returns_findChildByClusterId.mpr ⟨es, d', hsteps, hnone,
      .inl ⟨rfl, htype, rfl⟩, rfl⟩).halts

theorem halts_listEntries (h : s.ListsAll) : Halts listEntries s := by
  obtain ⟨es, d', hsteps, htype⟩ := h
  have hret : Returns listEntries s () _ := returns_listEntries.mpr ⟨es, d', hsteps, htype, rfl⟩
  exact hret.halts

theorem listsAll_of_returns {u : Unit} (h : Returns listEntries s u s') : s.ListsAll := by
  obtain ⟨es, d', hsteps, htype, _⟩ := returns_listEntries.mp h
  exact ⟨es, d', hsteps, htype⟩

theorem searches_of_returns {query : Name} (h : Returns (findChild query) s r s') :
    s.Searches (s.scratch.junk 0) (goesBy query) := by
  obtain ⟨d', _, hend⟩ := findChild_cases h
  rcases hend with ⟨_, hfind⟩ | ⟨_, hmiss⟩
  · exact ⟨d', .inl hfind⟩
  · exact ⟨d', .inr hmiss⟩

/-! ### Walks -/

/-- The visits of the segments come to an end: without success, or at a drive
    and with name buffers that are still to come. -/
inductive Walks (banFiles banDirs : Bool) :
    List (Name × Bool) → Drive → (Nat → Name) → Option (Drive × (Nat → Name)) → Prop
  | done {d : Drive} {junk : Nat → Name} : Walks banFiles banDirs [] d junk (some (d, junk))
  | missing {d d' : Drive} {junk : Nat → Name} {segment : Name} {more : Bool}
      {segs : List (Name × Bool)} (hmiss : d.Misses (junk 0) (goesBy segment) d') :
      Walks banFiles banDirs ((segment, more) :: segs) d junk none
  | barred {d d' : Drive} {junk : Nat → Name} {segment : Name} {more : Bool}
      {segs : List (Name × Bool)} (hfind : d.Finds (junk 0) (goesBy segment) d')
      (hpass : passes banFiles banDirs more d'.dirBuff.de.isDirectory = false) :
      Walks banFiles banDirs ((segment, more) :: segs) d junk none
  | entered {d d' : Drive} {junk : Nat → Name} {segment : Name} {more : Bool}
      {segs : List (Name × Bool)} {o : Option (Drive × (Nat → Name))}
      (hfind : d.Finds (junk 0) (goesBy segment) d')
      (hpass : passes banFiles banDirs more d'.dirBuff.de.isDirectory = true)
      (hrest : Walks banFiles banDirs segs (d'.jump d'.hopSector) (fun n => junk (n + 1)) o) :
      Walks banFiles banDirs ((segment, more) :: segs) d junk o

section walks

variable {banFiles banDirs : Bool} {segs : List (Name × Bool)}

/-- Where a walk that returned `r` in the state `s` has got to. -/
def arrival (r : Int) (s : Server) : Option (Drive × (Nat → Name)) :=
  if r = 0 then some (s.toDrive, s.scratch.junk) else none

theorem walks_of_visits (h : Returns (visits banFiles banDirs segs) s r s') :
    Walks banFiles banDirs segs s.toDrive s.scratch.junk (arrival r s') := by
  induction segs generalizing s with
  | nil =>
    obtain ⟨_, _, hpop, hret⟩ := returns_bind.mp h
    obtain ⟨_, _, rfl⟩ := returns_stackPop.mp hpop
    obtain ⟨rfl, rfl⟩ := returns_pure.mp hret
    exact .done
  | cons seg segs ih =>
    obtain ⟨segment, more⟩ := seg
    obtain ⟨o, s₁, hvisit, hrest⟩ := returns_bind.mp h
    cases visit_cases hvisit with
    | missing hmiss _ _ =>
      obtain ⟨rfl, rfl⟩ := returns_pure.mp hrest
      exact .missing hmiss
    | barred hfind hpass _ _ =>
      obtain ⟨rfl, rfl⟩ := returns_pure.mp hrest
      exact .barred hfind hpass
    | entered hfind hpass henter =>
      have hwalks := ih hrest
      rw [henter.drive, henter.junk] at hwalks
      exact .entered hfind hpass hwalks

theorem Walks.unique {junk : Nat → Name} {o o' : Option (Drive × (Nat → Name))}
    (h : Walks banFiles banDirs segs d junk o) (h' : Walks banFiles banDirs segs d junk o') :
    o = o' := by
  induction h with
  | done =>
    cases h'
    rfl
  | missing hmiss =>
    cases h' with
    | missing _ => rfl
    | barred _ _ => rfl
    | entered hfind _ _ => exact (hfind.not_misses hmiss).elim
  | barred hfind hpass =>
    cases h' with
    | missing _ => rfl
    | barred _ _ => rfl
    | entered hfind' hpass' _ =>
      obtain rfl := hfind.unique hfind'
      rw [hpass] at hpass'
      cases hpass'
  | entered hfind hpass _ ih =>
    cases h' with
    | missing hmiss => exact (hfind.not_misses hmiss).elim
    | barred hfind' hpass' =>
      obtain rfl := hfind.unique hfind'
      rw [hpass] at hpass'
      cases hpass'
    | entered hfind' _ hrest =>
      obtain rfl := hfind.unique hfind'
      exact ih hrest

/-! The other way round: a walk that can come to an end does. -/

theorem halts_visit {segment : Name} {more : Bool}
    (h : s.Searches (s.scratch.junk 0) (goesBy segment)) :
    Halts (visit banFiles banDirs segment more) s := by
  refine halts_bind (halts_findChild h) fun status s₁ _ => ?_
  split
  · exact (prompt_rollback_then _).halts s₁
  · refine (prompt_bind prompt_get fun s => ?_).halts s₁
    dsimp only
    split
    · exact prompt_rollback_then _
    · exact prompt_bind prompt_hop fun _ => prompt_pure _

theorem returns_visit {segment : Name} {more : Bool} {sector : UInt32} {rest : List UInt32}
    (hs : s.Ready) (hstack : s.stack = sector :: rest)
    (h : s.Searches (s.scratch.junk 0) (goesBy segment)) :
    ∃ o s', Returns (visit banFiles banDirs segment more) s o s' ∧
      Visited banFiles banDirs segment more s o s' ∧ s'.Ready := by
  have hsound := hs.sound_visit hstack banFiles banDirs segment more
  obtain ⟨o, s', hret⟩ := hsound.exists_returns (halts_visit h)
  exact ⟨o, s', hret, visit_cases hret, hsound.returns hret⟩

theorem Walks.returns_visits {junk : Nat → Name} {o : Option (Drive × (Nat → Name))}
    {sector : UInt32} {rest : List UInt32} (h : Walks banFiles banDirs segs d junk o)
    (hd : s.toDrive = d) (hjunk : s.scratch.junk = junk) (hs : s.Ready)
    (hstack : s.stack = sector :: rest) :
    ∃ r s', Returns (visits banFiles banDirs segs) s r s' := by
  have hstop : ∀ {s s₁ : Server} {segment : Name} {more : Bool} {status : Int}
      {segs : List (Name × Bool)},
      Returns (visit banFiles banDirs segment more) s (some status) s₁ →
      Returns (visits banFiles banDirs ((segment, more) :: segs)) s status s₁ :=
    fun hvisit => returns_bind.mpr ⟨_, _, hvisit, returns_pure.mpr ⟨rfl, rfl⟩⟩
  induction h generalizing s with
  | done =>
    exact ⟨0, _, returns_bind.mpr ⟨sector, _, returns_stackPop.mpr ⟨rest, hstack, rfl⟩,
      returns_pure.mpr ⟨rfl, rfl⟩⟩⟩
  | @missing d d' _ segment more segs hmiss =>
    subst hd hjunk
    obtain ⟨o, s₁, hvisit, hcases, _⟩ := returns_visit hs hstack ⟨d', .inr hmiss⟩
    cases hcases with
    | missing _ _ _ => exact ⟨_, s₁, hstop hvisit⟩
    | barred _ _ _ _ => exact ⟨_, s₁, hstop hvisit⟩
    | entered hfind _ _ => exact (hfind.not_misses hmiss).elim
  | @barred d d' _ segment more segs hfind hpass =>
    subst hd hjunk
    obtain ⟨o, s₁, hvisit, hcases, _⟩ := returns_visit hs hstack ⟨d', .inl hfind⟩
    cases hcases with
    | missing _ _ _ => exact ⟨_, s₁, hstop hvisit⟩
    | barred _ _ _ _ => exact ⟨_, s₁, hstop hvisit⟩
    | entered hfind' hpass' _ =>
      obtain rfl := hfind.unique hfind'
      rw [hpass] at hpass'
      cases hpass'
  | @entered d d' _ segment more segs o hfind hpass hrest ih =>
    subst hd hjunk
    obtain ⟨o, s₁, hvisit, hcases, hs₁⟩ := returns_visit hs hstack ⟨d', .inl hfind⟩
    cases hcases with
    | missing _ _ _ => exact ⟨_, s₁, hstop hvisit⟩
    | barred _ _ _ _ => exact ⟨_, s₁, hstop hvisit⟩
    | entered hfind' _ henter =>
      obtain rfl := hfind.unique hfind'
      obtain ⟨r, s', hvisits⟩ := ih henter.drive henter.junk hs₁ (henter.stack.trans hstack)
      exact ⟨r, s', returns_bind.mpr ⟨none, s₁, hvisit, hvisits⟩⟩

end walks

/-- The walk along a path, from the cursor of the server. -/
def Server.WalksTo (s : Server) (path : Name) (flags : Nat)
    (o : Option (Drive × (Nat → Name))) : Prop :=
  Walks (bansFiles flags) (bansDirs flags) (segments (cstr path)) s.toDrive s.scratch.junk o

theorem walksTo_of_returns {path : Name} {flags : Nat} (h : Returns (walk path flags) s r s') :
    s.WalksTo path flags (arrival r s') := by
  have hwalks := walks_of_visits (returns_walk.mp h)
  exact hwalks

theorem Server.WalksTo.halts {path : Name} {flags : Nat} {o : Option (Drive × (Nat → Name))}
    (h : s.WalksTo path flags o) (hs : s.Ready) : Halts (walk path flags) s := by
  obtain ⟨r, s', hret⟩ := Walks.returns_visits
    (s := { s with stack := s.dirBuff.sector :: s.stack }) h rfl rfl (hs.pushed _) rfl
  exact (returns_walk.mpr hret).halts

/-! ### pwd -/

/-- The way up by `..` entries ends, at a directory that has none or at one that
    does not list the directory below it. -/
inductive ClimbEnds : Drive → (Nat → Name) → UInt32 → Prop
  | top {d d₁ : Drive} {junk : Nat → Name} {clusterId : UInt32}
      (hmiss : d.Misses (junk 0) (goesBy (ascii "..")) d₁) : ClimbEnds d junk clusterId
  | lost {d d₁ d₂ : Drive} {junk : Nat → Name} {clusterId : UInt32}
      (hfind : d.Finds (junk 0) (goesBy (ascii "..")) d₁)
      (hmiss : (d₁.jump d₁.hopSector).Misses (junk 1) (startsAt clusterId) d₂) :
      ClimbEnds d junk clusterId
  | up {d d₁ d₂ : Drive} {junk : Nat → Name} {clusterId : UInt32}
      (hfind : d.Finds (junk 0) (goesBy (ascii "..")) d₁)
      (hlisted : (d₁.jump d₁.hopSector).Finds (junk 1) (startsAt clusterId) d₂)
      (hrest : ClimbEnds (d₂.jump d₁.hopSector) (fun n => junk (n + 2))
        ((d₂.jump d₁.hopSector).clusterOf d₁.hopSector)) : ClimbEnds d junk clusterId

theorem Climbs.ends {junk : Nat → Name} {clusterId : UInt32} (h : Climbs d junk clusterId) :
    ClimbEnds d junk clusterId := by
  induction h with
  | top hmiss => exact .top hmiss
  | up hfind hlisted _ ih => exact .up hfind hlisted ih

theorem climbEnds_of_pwdLoop {w : PwdVars} (h : Returns (iter pwdStep w) s r s') :
    ClimbEnds s.toDrive s.scratch.junk w.clusterId := by
  refine returns_iter_induct
    (motive := fun w s _ _ => ClimbEnds s.toDrive s.scratch.junk w.clusterId) ?_ ?_ h
  · intro w s a s' hstop
    cases pwdStep_cases hstop with
    | top hmiss _ _ _ => exact .top hmiss
    | lost hfind hmiss _ _ => exact .lost hfind hmiss
  · intro w s w' s₁ a s' hround ih
    cases pwdStep_cases hround with
    | up hfind hlisted hdrive _ hjunk hid _ _ =>
      rw [hid, hdrive, hjunk] at ih
      exact .up hfind hlisted.finds ih

/-- One round ends if its two searches do. -/
theorem halts_pwdStep {w : PwdVars} (h : s.Searches (s.scratch.junk 0) (goesBy (ascii "..")))
    (hup : ∀ {d : Drive}, s.Finds (s.scratch.junk 0) (goesBy (ascii "..")) d →
      (d.jump d.hopSector).Searches (s.scratch.junk 1) (startsAt w.clusterId)) :
    Halts (pwdStep w) s := by
  refine halts_bind (halts_findChild h) fun found s₁ hsearch => ?_
  obtain ⟨d, hlook, hend⟩ := findChild_cases hsearch
  rcases hend with ⟨rfl, hfind⟩ | ⟨rfl, _⟩
  · rw [if_pos rfl]
    refine halts_bind (prompt_hop.halts s₁) fun _ s₂ hhop => ?_
    have henter := hlook.hop_cases hfind.type_eq hhop
    refine halts_bind (prompt_get.halts s₂) fun s₃ s₄ hget => ?_
    obtain ⟨rfl, rfl⟩ := returns_get.mp hget
    refine halts_bind ((prompt_modify _).halts s₄) fun _ s₅ hpush => ?_
    obtain rfl := returns_modify.mp hpush
    refine halts_bind (halts_findChildByClusterId ?_) fun found s₆ _ => ?_
    · have hsearches := hup hfind
      change s₄.toDrive.Searches (s₄.scratch.junk 0) _
      rw [henter.drive, henter.junk]
      exact hsearches
    · obtain ⟨name, success⟩ := found
      dsimp only
      split
      · exact (prompt_bind (prompt_modify _) fun _ => prompt_pure _).halts s₆
      · exact (prompt_bind (prompt_modify _) fun _ => prompt_bind (prompt_modify _) fun _ =>
          prompt_bind prompt_rollback fun _ => prompt_bind prompt_get fun _ =>
          prompt_bind (prompt_lift (prompt_sectorToCluster _)) fun _ => prompt_pure _).halts s₆
  · rw [if_neg (by decide)]
    exact (prompt_bind (prompt_modify _) fun _ => prompt_rollback_then _).halts s₁

theorem ClimbEnds.halts {junk : Nat → Name} {clusterId : UInt32} (h : ClimbEnds d junk clusterId)
    {w : PwdVars} (hd : s.toDrive = d) (hjunk : s.scratch.junk = junk)
    (hid : w.clusterId = clusterId) :
    Halts (iter pwdStep w) s := by
  induction h generalizing s w with
  | @top d d₁ _ _ hmiss =>
    subst hd hjunk hid
    refine halts_iter (halts_pwdStep ⟨d₁, .inr hmiss⟩ fun hfind => (hfind.not_misses hmiss).elim) ?_
    intro w' s' hround
    cases pwdStep_cases hround with
    | up hfind _ _ _ _ _ _ _ => exact (hfind.not_misses hmiss).elim
  | @lost d d₁ d₂ _ _ hfind hmiss =>
    subst hd hjunk hid
    refine halts_iter (halts_pwdStep ⟨d₁, .inl hfind⟩ ?_) ?_
    · intro d' hfind'
      obtain rfl := hfind.unique hfind'
      exact ⟨d₂, .inr hmiss⟩
    · intro w' s' hround
      cases pwdStep_cases hround with
      | up hfind' hlisted _ _ _ _ _ _ =>
        obtain rfl := hfind.unique hfind'
        exact (hlisted.finds.not_misses hmiss).elim
  | @up d d₁ d₂ _ _ hfind hlisted hrest ih =>
    subst hd hjunk hid
    refine halts_iter (halts_pwdStep ⟨d₁, .inl hfind⟩ ?_) ?_
    · intro d' hfind'
      obtain rfl := hfind.unique hfind'
      exact ⟨d₂, .inl hlisted⟩
    · intro w' s' hround
      cases pwdStep_cases hround with
      | up hfind' hlisted' hdrive _ hjunk hid _ _ =>
        obtain rfl := hfind.unique hfind'
        obtain rfl := hlisted.unique hlisted'.finds
        exact ih hdrive hjunk (by rw [hid, hdrive])

/-! ### The commands -/

/-- The scans that the command makes come to an end. -/
def Command.Ends : Command → Server → Prop
  | .pwd, s => ClimbEnds s.toDrive s.scratch.junk (s.clusterOf s.dirBuff.sector)
  | .cd path, s => ∃ o, s.WalksTo path WALK_BAN_FILES o
  | .ls path, s =>
    if path = ascii "." then s.ListsAll
    else ∃ o, s.WalksTo path WALK_BAN_FILES o ∧ ∀ d' junk', o = some (d', junk') → d'.ListsAll
  | .cat path, s => ∃ o, s.WalksTo path WALK_BAN_DIRS o
  | .stat path, s =>
    match lastSlash path (path.length - 1) with
    | none => s.Searches (s.scratch.junk 0) (goesBy path)
    | some i => ∃ o, s.WalksTo (path.take i) WALK_BAN_FILES o ∧
        ∀ d' junk', o = some (d', junk') → d'.Searches (junk' 0) (goesBy (path.drop (i + 1)))

theorem pushed_bind {α : Type} {p : Server → ServerM α}
    (h : Halts (p s) { s with stack := s.dirBuff.sector :: s.stack }) :
    Halts (do
      let s ← Prog.get
      stackPush s.dirBuff.sector
      p s) s := by
  refine halts_bind (prompt_get.halts s) fun s₁ s₂ hget => ?_
  obtain ⟨rfl, rfl⟩ := returns_get.mp hget
  refine halts_bind ((prompt_modify _).halts _) fun _ s₃ hpush => ?_
  obtain rfl := returns_modify.mp hpush
  exact h

theorem arrival_of_zero (s : Server) : arrival 0 s = some (s.toDrive, s.scratch.junk) := rfl

theorem arrival_of_ne_zero (h : r ≠ 0) (s : Server) : arrival r s = none := if_neg h

theorem Server.Ready.halts_cd {path : Name} (hs : s.Ready)
    (h : ∃ o, s.WalksTo path WALK_BAN_FILES o) : Halts (cd path) s := by
  obtain ⟨o, h⟩ := h
  have hwalk : Server.WalksTo { s with stack := s.dirBuff.sector :: s.stack } path
    WALK_BAN_FILES o := h
  refine pushed_bind (halts_bind (hwalk.halts (hs.pushed _)) fun status s₁ _ => ?_)
  split
  · exact (prompt_rollback_then _).halts s₁
  · exact (prompt_bind prompt_stackPop fun _ => prompt_pure _).halts s₁

/-- A cd that succeeds has arrived where the walk leads. -/
theorem walksTo_of_cd {path : Name} (h : Returns (cd path) s r s') :
    s.WalksTo path WALK_BAN_FILES (arrival r s') := by
  unfold cd at h
  rw [returns_globals_bind, returns_push_bind] at h
  obtain ⟨status, s₁, hwalk, h⟩ := returns_bind.mp h
  have hwalks := walksTo_of_returns hwalk
  by_cases hstatus : status = 0
  · rw [if_neg (not_not_intro hstatus)] at h
    obtain ⟨_, s₂, hpop, hret⟩ := returns_bind.mp h
    obtain ⟨_, _, rfl⟩ := returns_stackPop.mp hpop
    obtain ⟨rfl, rfl⟩ := returns_pure.mp hret
    rw [hstatus] at hwalks
    exact hwalks
  · rw [if_pos hstatus] at h
    obtain ⟨_, s₂, _, hret⟩ := returns_bind.mp h
    obtain ⟨rfl, rfl⟩ := returns_pure.mp hret
    rw [arrival_of_ne_zero hstatus] at hwalks ⊢
    exact hwalks

theorem Server.Ready.halts_ls {path : Name} (hs : s.Ready) (h : (Command.ls path).Ends s) :
    Halts (ls path) s := by
  have htail : ∀ {status : Int} {s₁ : Server}, (status = 0 → s₁.ListsAll) →
      Halts (if status ≠ 0 then do rollback; return status
        else do listEntries; rollback; return OK : ServerM Int) s₁ := by
    intro status s₁ hlists
    split
    · exact (prompt_rollback_then _).halts s₁
    · rename_i hstatus
      exact halts_bind (halts_listEntries (hlists (not_not.mp hstatus))) fun _ s₂ _ =>
        (prompt_rollback_then _).halts s₂
  refine pushed_bind ?_
  dsimp only
  by_cases hdot : path = ascii "."
  · rw [Command.Ends, if_pos hdot] at h
    rw [if_pos hdot]
    refine halts_bind ((prompt_pure _).halts _) fun status s₁ hret => ?_
    obtain ⟨rfl, rfl⟩ := returns_pure.mp hret
    exact htail fun _ => h
  · rw [Command.Ends, if_neg hdot] at h
    rw [if_neg hdot]
    obtain ⟨o, hwalks, hlists⟩ := h
    refine halts_bind ((hs.pushed _).halts_cd ⟨o, hwalks⟩) fun status s₁ hcd => htail ?_
    intro hstatus
    have hwalks' := walksTo_of_cd hcd
    rw [hstatus, arrival_of_zero] at hwalks'
    exact hlists _ _ (Walks.unique hwalks hwalks')

theorem ends_of_ls {path : Name} (h : Returns (ls path) s r s') : (Command.ls path).Ends s := by
  have htail : ∀ {status : Int} {s₁ : Server}, Returns (if status ≠ 0 then do
        rollback
        return status
      else do
        listEntries
        rollback
        return OK) s₁ r s' → status = 0 → s₁.ListsAll := by
    intro status s₁ h hstatus
    rw [if_neg (not_not_intro hstatus)] at h
    obtain ⟨_, s₂, hlist, _⟩ := returns_bind.mp h
    exact listsAll_of_returns hlist
  unfold ls at h
  rw [returns_globals_bind, returns_push_bind] at h
  dsimp only at h
  by_cases hdot : path = ascii "."
  · rw [if_pos hdot, returns_pure_bind] at h
    rw [Command.Ends, if_pos hdot]
    have hlists := htail h rfl
    exact hlists
  · rw [if_neg hdot] at h
    obtain ⟨status, s₁, hcd, h⟩ := returns_bind.mp h
    rw [Command.Ends, if_neg hdot]
    have hwalks := walksTo_of_cd hcd
    refine ⟨arrival status s₁, hwalks, ?_⟩
    intro d' junk' harrival
    by_cases hstatus : status = 0
    · rw [hstatus, arrival_of_zero] at harrival
      cases harrival
      exact htail h hstatus
    · rw [arrival_of_ne_zero hstatus] at harrival
      cases harrival

theorem Server.Ready.halts_cat {path : Name} (hs : s.Ready)
    (h : (Command.cat path).Ends s) : Halts (cat path) s := by
  obtain ⟨o, h⟩ := h
  have hwalk : Server.WalksTo { s with stack := s.dirBuff.sector :: s.stack } path
    WALK_BAN_DIRS o := h
  refine pushed_bind (halts_bind (hwalk.halts (hs.pushed _)) fun status s₁ _ => ?_)
  split
  · exact (prompt_rollback_then _).halts s₁
  · exact (prompt_bind prompt_lastHopSize fun _ =>
      prompt_bind (prompt_times prompt_catByte _) fun _ =>
      prompt_bind (prompt_modify _) fun _ => prompt_rollback_then _).halts s₁

theorem ends_of_cat {path : Name} (h : Returns (cat path) s r s') :
    (Command.cat path).Ends s := by
  unfold cat at h
  rw [returns_globals_bind, returns_push_bind] at h
  obtain ⟨status, s₁, hwalk, _⟩ := returns_bind.mp h
  have hwalks := walksTo_of_returns hwalk
  exact ⟨_, hwalks⟩

theorem halts_statEntry {lastName : Name}
    (h : s.Searches (s.scratch.junk 0) (goesBy lastName)) : Halts (statEntry lastName) s := by
  refine halts_bind (halts_findChild h) fun status s₁ _ => ?_
  split
  · exact (prompt_rollback_then _).halts s₁
  · exact (prompt_bind prompt_get fun _ => prompt_bind (prompt_printRegularDirEntry _) fun _ =>
      prompt_bind (prompt_modify _) fun _ => prompt_rollback_then _).halts s₁

theorem searches_of_statEntry {lastName : Name} (h : Returns (statEntry lastName) s r s') :
    s.Searches (s.scratch.junk 0) (goesBy lastName) := by
  obtain ⟨status, s₁, hfind, _⟩ := returns_bind.mp h
  exact searches_of_returns hfind

theorem Server.Ready.halts_stat {path : Name} (hs : s.Ready)
    (h : (Command.stat path).Ends s) : Halts (stat path) s := by
  refine pushed_bind ?_
  rw [Command.Ends] at h
  cases hslash : lastSlash path (path.length - 1) with
  | none =>
    rw [hslash] at h
    exact halts_statEntry h
  | some i =>
    rw [hslash] at h
    obtain ⟨o, hwalk, hsearch⟩ := h
    have hwalk' : Server.WalksTo { s with stack := s.dirBuff.sector :: s.stack } (path.take i)
      WALK_BAN_FILES o := hwalk
    refine halts_bind (hwalk'.halts (hs.pushed _)) fun status s₁ hret => ?_
    split
    · exact (prompt_rollback_then _).halts s₁
    · rename_i hstatus
      have hwalks := walksTo_of_returns hret
      rw [not_not.mp hstatus, arrival_of_zero] at hwalks
      exact halts_statEntry (hsearch _ _ (Walks.unique hwalk' hwalks))

theorem ends_of_stat {path : Name} (h : Returns (stat path) s r s') :
    (Command.stat path).Ends s := by
  unfold stat at h
  rw [returns_globals_bind, returns_push_bind] at h
  rw [Command.Ends]
  cases hslash : lastSlash path (path.length - 1) with
  | none =>
    rw [hslash] at h
    have hsearch := searches_of_statEntry h
    exact hsearch
  | some i =>
    rw [hslash] at h
    obtain ⟨status, s₁, hwalk, h⟩ := returns_bind.mp h
    have hwalks := walksTo_of_returns hwalk
    refine ⟨arrival status s₁, hwalks, ?_⟩
    intro d' junk' harrival
    by_cases hstatus : status = 0
    · rw [if_neg (not_not_intro hstatus)] at h
      rw [hstatus, arrival_of_zero] at harrival
      cases harrival
      exact searches_of_statEntry h
    · rw [arrival_of_ne_zero hstatus] at harrival
      cases harrival

theorem halts_pwd (h : Command.pwd.Ends s) : Halts pwd s := by
  refine pushed_bind (halts_bind ((prompt_lift (prompt_sectorToCluster _)).halts _) ?_)
  intro clusterId s₁ hret
  obtain ⟨d, hcluster, rfl⟩ := returns_liftM.mp hret
  obtain ⟨_, rfl, rfl⟩ := returns_sectorToCluster.mp hcluster
  exact ClimbEnds.halts h rfl rfl rfl

theorem ends_of_pwd (h : Returns pwd s r s') : Command.pwd.Ends s := by
  unfold pwd at h
  rw [returns_globals_bind, returns_push_bind, returns_onDrive_bind] at h
  obtain ⟨_, _, hcluster, hloop⟩ := h
  obtain ⟨_, rfl, rfl⟩ := returns_sectorToCluster.mp hcluster
  have hends := climbEnds_of_pwdLoop hloop
  exact hends

theorem ends_of_returns {cmd : Command} (h : Returns cmd.run s r s') : cmd.Ends s := by
  cases cmd with
  | pwd => exact ends_of_pwd h
  | cd path => exact ⟨_, walksTo_of_cd h⟩
  | ls path => exact ends_of_ls h
  | cat path => exact ends_of_cat h
  | stat path => exact ends_of_stat h

theorem Server.Ready.halts_command {cmd : Command} (hs : s.Ready) (h : cmd.Ends s) :
    Halts cmd.run s := by
  cases cmd with
  | pwd => exact halts_pwd h
  | cd path => exact hs.halts_cd h
  | ls path => exact hs.halts_ls h
  | cat path => exact hs.halts_cat h
  | stat path => exact hs.halts_stat h

/-- In a state that is ready for commands, a command returns exactly if its scans
    come to an end. -/
theorem Server.Ready.returns_iff_ends (hs : s.Ready) (cmd : Command) :
    (∃ r s', Returns cmd.run s r s') ↔ cmd.Ends s := by
  constructor
  · intro h
    obtain ⟨r, s', hret⟩ := h
    exact ends_of_returns hret
  · intro h
    exact (hs.sound_command cmd).exists_returns (hs.halts_command h)

theorem Server.Ready.halts_iff_ends (hs : s.Ready) (cmd : Command) :
    Halts cmd.run s ↔ cmd.Ends s := by
  constructor
  · intro h
    exact (hs.returns_iff_ends cmd).mp ((hs.sound_command cmd).exists_returns h)
  · exact hs.halts_command

/-! ### Sessions -/

section session

variable {env : Env} {m : Message}

/-- **When the commands come to an end.**  On any disk that can be mounted and has a
    sector size that FAT32 allows, whatever its FAT and its directories hold and
    whatever has been requested since, the loops of a command end exactly if every
    scan it makes comes to an empty slot or to the entry it looks for, and, for pwd,
    the way up by `..` entries ends.  The command then returns. -/
theorem command_halts_iff_scans_end {s₀ : Server} (hs₀ : Reachable s₀)
    (hmount : Returns (doMount env m) s₀ OK s)
    (hbps : s.bpb.bytesPerSector.toNat ∈ [512, 1024, 2048, 4096]) (hrun : InSession s s')
    (cmd : Command) :
    (Halts cmd.run s' ↔ cmd.Ends s') ∧ (cmd.Ends s' → ∃ r s'', Returns cmd.run s' r s'') := by
  have hready : s'.Ready := hrun.induct (deviceFd_of_doMount hmount)
    (ready_of_doMount hs₀ hmount (usable_of_doMount hmount hbps)) Answered.ready
  exact ⟨hready.halts_iff_ends cmd, (hready.returns_iff_ends cmd).mpr⟩

end session

end Fat32s
