/-
  Fat32s/Paths.lean
  =================
  **A walk follows its path through the directories.**

  `goTo` says where a path leads in the hierarchy of directories: its components
  are looked up one after the other, each in the directory that the one before
  leads to.  `follow` does the same with the flags of `walk`, and keeps the entry
  that it comes to last.  The walks of the server refine it, whatever the path:
  they end with its status, and at the entry that it ends with.
-/
import Fat32s.WorkingDirectory

namespace Fat32s

open Fat32s.Lib Fat32s.Lib.Prog

variable {v : Volume} {s s' : Server} {c : UInt32}

/-! ### Following a path -/

namespace Volume.Dirs

variable (t : v.Dirs)

/-- No short name of the directories starts with a space. -/
def Plain : Prop := ∀ {c : UInt32}, t.isDir c → v.PlainNames (t.slots c)

/-- The directory that the components lead to, or the status of the first one that
    is missing (1) or not a directory (2). -/
def goTo : UInt32 → List Name → Except Int UInt32
  | c, [] => .ok c
  | c, q :: qs =>
    match v.lookup [] (t.slots c) q with
    | none => .error 1
    | some u => if u.entry.isDirectory then goTo (v.target u) qs else .error 2

/-- The last entry on the way of a walk with the given flags, or its status. -/
def follow (banFiles banDirs : Bool) : UInt32 → List (Name × Bool) → Except Int (Option Slot)
  | _, [] => .ok none
  | c, (q, more) :: segs =>
    match v.lookup [] (t.slots c) q with
    | none => .error 1
    | some u =>
      if passes banFiles banDirs more u.entry.isDirectory then
        (follow banFiles banDirs (v.target u) segs).map fun last => some (last.getD u)
      else .error 2

/-- The directory at the end of a way that started in `c`. -/
def endOf (v : Volume) (c : UInt32) (last : Option Slot) : UInt32 :=
  match last with
  | none => c
  | some u => v.target u

/-- A slot of one of the directories that is typed as a short one. -/
def Holds (u : Slot) : Prop :=
  ∃ c a, t.isDir c ∧ a ∈ t.slots c ∧ v.slot a = u ∧ u.dirType = .short

/-- What is found under a name is a slot of the directory. -/
theorem holds_of_lookup {junk query : Name} {u : Slot} (hc : t.isDir c)
    (hfind : v.lookup junk (t.slots c) query = some u) : t.Holds u := by
  obtain ⟨x, hx, rfl⟩ := Option.map_eq_some_iff.mp hfind
  obtain ⟨a, ha, hentry, htype⟩ := mem_decoded (List.mem_of_find?_eq_some hx)
  rw [hentry] at htype ⊢
  exact ⟨c, a, hc, ha, rfl, htype⟩

theorem Holds.leads {u : Slot} (h : t.Holds u) (hdir : u.entry.isDirectory = true) :
    t.isDir (v.target u) := by
  obtain ⟨c, a, hc, ha, rfl, htype⟩ := h
  exact t.leads hc ha htype hdir

theorem goTo_isDir {qs : List Name} {c c' : UInt32} (hc : t.isDir c) (h : t.goTo c qs = .ok c') :
    t.isDir c' := by
  induction qs generalizing c with
  | nil =>
    cases h
    exact hc
  | cons q qs ih =>
    rw [goTo] at h
    cases hfind : v.lookup [] (t.slots c) q with
    | none =>
      rw [hfind] at h
      cases h
    | some u =>
      rw [hfind] at h
      dsimp only at h
      cases hdir : u.entry.isDirectory with
      | false =>
        rw [hdir] at h
        cases h
      | true =>
        rw [hdir] at h
        exact ih ((t.holds_of_lookup hc hfind).leads t hdir) h

theorem passes_banFiles (more isDir : Bool) : passes true false more isDir = isDir := by
  cases more <;> cases isDir <;> rfl

/-- A walk that bans files goes where the components lead. -/
theorem map_endOf_follow (c : UInt32) (segs : List (Name × Bool)) :
    (t.follow true false c segs).map (endOf v c) = t.goTo c (segs.map (·.1)) := by
  induction segs generalizing c with
  | nil => rfl
  | cons seg segs ih =>
    obtain ⟨q, more⟩ := seg
    rw [follow, List.map_cons, goTo]
    cases v.lookup [] (t.slots c) q with
    | none => rfl
    | some u =>
      simp only [passes_banFiles]
      cases u.entry.isDirectory with
      | false => rfl
      | true =>
        simp only [if_true]
        rw [← ih (v.target u)]
        cases t.follow true false (v.target u) segs with
        | error e => rfl
        | ok last =>
          cases last with
          | none => rfl
          | some w => rfl

end Volume.Dirs

/-! ### The walks of the server -/

/-- Back at the saved sector, on the same volume and with nothing printed. -/
structure Server.TurnedBack (s s' : Server) (v : Volume) (sector : UInt32) (rest : List UInt32) :
    Prop extends s'.Back sector rest where
  on : s'.On v
  out : s'.out = s.out

section visit

variable {as : List Nat} {sector : UInt32} {rest : List UInt32}

theorem Drive.On.turns_back {α : Type} {d : Drive} (hon : d.On v)
    (hstack : s.stack = sector :: rest) (sc : Scratch) (a : α) :
    ∃ s', Returns (do rollback; return a) { s with toDrive := d, scratch := sc } a s' ∧
      s.TurnedBack s' v sector rest := by
  have hroll := Drive.On.returns_rollback (s := { s with toDrive := d, scratch := sc }) hon hstack
  refine ⟨_, returns_bind.mpr ⟨(), _, hroll, returns_pure.mpr ⟨rfl, rfl⟩⟩, ?_⟩
  exact ⟨⟨⟨d, rfl⟩, rfl⟩, hon.jump _, rfl⟩

theorem Drive.Cwd.returns_visit_missing (hcwd : s.Cwd v c) (hdir : v.Lists c as)
    (hstack : s.stack = sector :: rest) (banFiles banDirs more : Bool) {segment : Name}
    (hfind : v.lookup (s.scratch.junk 0) as segment = none) :
    ∃ s', Returns (visit banFiles banDirs segment more) s (some 1) s' ∧
      s.TurnedBack s' v sector rest := by
  rcases hdir.returns_findChild hcwd.cursor hcwd.on segment with
    ⟨_, d, sc, hon, hret⟩ | ⟨a, _, hsome, _⟩
  · obtain ⟨s', hroll, hback⟩ := hon.turns_back hstack sc (some (1 : Int))
    refine ⟨s', ?_, hback⟩
    apply returns_bind.mpr
    refine ⟨1, _, hret, ?_⟩
    rw [if_pos (by decide)]
    exact hroll
  · rw [hfind] at hsome
    cases hsome

theorem Drive.Cwd.returns_visit_barred (hcwd : s.Cwd v c) (hdir : v.Lists c as)
    (hstack : s.stack = sector :: rest) (banFiles banDirs more : Bool) {segment : Name} {u : Slot}
    (hfind : v.lookup (s.scratch.junk 0) as segment = some u)
    (hpass : passes banFiles banDirs more u.entry.isDirectory = false) :
    ∃ s', Returns (visit banFiles banDirs segment more) s (some 2) s' ∧
      s.TurnedBack s' v sector rest := by
  rcases hdir.returns_findChild hcwd.cursor hcwd.on segment with
    ⟨hnone, _⟩ | ⟨a, _, hsome, d, sc, hon, _, hde, _, hret⟩
  · rw [hfind] at hnone
    cases hnone
  · rw [hfind] at hsome
    obtain rfl := Option.some.inj hsome
    rw [passes, Bool.not_eq_false', ← hde] at hpass
    obtain ⟨s', hroll, hback⟩ := hon.turns_back hstack sc (some (2 : Int))
    refine ⟨s', ?_, hback⟩
    unfold visit
    apply returns_bind.mpr
    refine ⟨0, _, hret, ?_⟩
    simp only [ne_eq, not_true_eq_false, if_false, returns_globals_bind, hpass, if_true]
    exact hroll

end visit

/-- How a walk ends whose way `follow` has computed. -/
inductive WalkEnd (s : Server) (v : Volume) (sector : UInt32) (rest : List UInt32) :
    Except Int (Option Slot) → Int → Server → Prop
  | failed {e : Int} {s' : Server} (hback : s.TurnedBack s' v sector rest) :
      WalkEnd s v sector rest (.error e) e s'
  | stayed : WalkEnd s v sector rest (.ok none) 0 { s with stack := rest }
  | arrived {u : Slot} {s₁ : Server} (hhop : s.Hopped s₁ v u) :
      WalkEnd s v sector rest (.ok (some u)) 0 { s₁ with stack := rest }

section walkEnd

variable {sector : UInt32} {rest : List UInt32} {o : Except Int (Option Slot)} {r : Int}

/-- The first hop of a walk, and the walk that follows it. -/
theorem WalkEnd.after {u : Slot} {s₁ : Server} (hhop : s.Hopped s₁ v u)
    (h : WalkEnd s₁ v sector rest o r s') :
    WalkEnd s v sector rest (o.map fun last => some (last.getD u)) r s' := by
  cases h with
  | failed hback => exact .failed ⟨hback.toBack, hback.on, hback.out.trans hhop.out⟩
  | stayed => exact .arrived hhop
  | arrived hhop' => exact .arrived (hhop.trans hhop')

theorem Volume.Dirs.returns_visits (t : v.Dirs) (hplain : t.Plain) {segs : List (Name × Bool)}
    (banFiles banDirs : Bool) (hsegs : EndsFlagged segs) (hc : t.isDir c) (hs : s.Cwd v c)
    (hstack : s.stack = sector :: rest) :
    ∃ r s', Returns (visits banFiles banDirs segs) s r s' ∧
      WalkEnd s v sector rest (t.follow banFiles banDirs c segs) r s' := by
  -- induction on the segments; each hop leads to a directory, or there are no more
  induction segs generalizing c s with
  | nil =>
    have hpop : Returns stackPop s sector { s with stack := rest } :=
      returns_stackPop.mpr ⟨rest, hstack, rfl⟩
    exact ⟨0, _, returns_bind.mpr ⟨sector, _, hpop, returns_pure.mpr ⟨rfl, rfl⟩⟩, .stayed⟩
  | cons seg segs ih =>
    obtain ⟨segment, more⟩ := seg
    have hlookup := (hplain hc).lookup_eq (s.scratch.junk 0) segment
    rw [follow]
    cases hfind : v.lookup [] (t.slots c) segment with
    | none =>
      rw [hfind] at hlookup
      obtain ⟨s', hvisit, hback⟩ :=
        hs.returns_visit_missing (t.lists hc) hstack banFiles banDirs more
        hlookup
      exact ⟨1, s', returns_bind.mpr ⟨some 1, s', hvisit, returns_pure.mpr ⟨rfl, rfl⟩⟩,
        .failed hback⟩
    | some u =>
      rw [hfind] at hlookup
      cases hpass : passes banFiles banDirs more u.entry.isDirectory with
      | false =>
        obtain ⟨s', hvisit, hback⟩ := hs.returns_visit_barred (t.lists hc) hstack banFiles banDirs
          more hlookup hpass
        refine ⟨2, s', returns_bind.mpr ⟨some 2, s', hvisit, returns_pure.mpr ⟨rfl, rfl⟩⟩, ?_⟩
        simp only [hpass]
        exact .failed hback
      | true =>
        obtain ⟨s₁, hvisit, hhop⟩ :=
          hs.returns_visit (t.lists hc) banFiles banDirs more hlookup hpass
        simp only [hpass, if_true]
        have hrest : ∃ r s', Returns (visits banFiles banDirs segs) s₁ r s' ∧
            WalkEnd s₁ v sector rest (t.follow banFiles banDirs (v.target u) segs) r s' := by
          cases hdir : u.entry.isDirectory with
          | true =>
            have hc' : t.isDir (v.target u) := (t.holds_of_lookup hc hfind).leads t hdir
            exact ih hsegs.2 hc' (hhop.cwd (t.isData hc')) (hhop.stack.trans hstack)
          | false =>
            obtain rfl := hsegs.1 (more_of_passes_file (by rw [← hdir]; exact hpass))
            have hpop : Returns stackPop s₁ sector { s₁ with stack := rest } :=
              returns_stackPop.mpr ⟨rest, hhop.stack.trans hstack, rfl⟩
            exact ⟨0, _, returns_bind.mpr ⟨sector, _, hpop, returns_pure.mpr ⟨rfl, rfl⟩⟩, .stayed⟩
        obtain ⟨r, s', hvisits, hend⟩ := hrest
        exact ⟨r, s', returns_bind.mpr ⟨none, s₁, hvisit, hvisits⟩, hend.after hhop⟩

end walkEnd

/-- How a walk or a cd from the directory `c` ends: in that directory, without having
    moved, or past the entry that `follow` has come to. -/
inductive Arrives (s : Server) (v : Volume) (c : UInt32) :
    Except Int (Option Slot) → Int → Server → Prop
  | failed {e : Int} {s' : Server} (hcwd : s'.Cwd v c)
      (hsector : s'.dirBuff.sector = s.dirBuff.sector) (hstack : s'.stack = s.stack)
      (hout : s'.out = s.out) : Arrives s v c (.error e) e s'
  | stayed : Arrives s v c (.ok none) 0 s
  | arrived {u : Slot} {s' : Server} (hhop : s.Hopped s' v u) : Arrives s v c (.ok (some u)) 0 s'

theorem Server.TurnedBack.failed {e : Int} (hs : s.Cwd v c)
    (h : s.TurnedBack s' v s.dirBuff.sector s.stack) : Arrives s v c (.error e) e s' :=
  .failed (hs.back h.cursor h.on) h.cursor.atSector.sector h.stack h.out

namespace Volume.Dirs

variable (t : v.Dirs)

theorem follow_error {banFiles banDirs : Bool} {c : UInt32} {segs : List (Name × Bool)} {e : Int}
    (h : t.follow banFiles banDirs c segs = .error e) : e ≠ 0 := by
  induction segs generalizing c with
  | nil => cases h
  | cons seg segs ih =>
    obtain ⟨q, more⟩ := seg
    rw [follow] at h
    cases hfind : v.lookup [] (t.slots c) q with
    | none =>
      rw [hfind] at h
      cases h
      decide
    | some u =>
      rw [hfind] at h
      dsimp only at h
      split at h
      · cases hrest : t.follow banFiles banDirs (v.target u) segs with
        | ok last =>
          rw [hrest] at h
          cases h
        | error e' =>
          rw [hrest] at h
          cases h
          exact ih hrest
      · cases h
        decide

theorem goTo_append (c : UInt32) (xs ys : List Name) :
    t.goTo c (xs ++ ys) = (t.goTo c xs).bind fun c' => t.goTo c' ys := by
  induction xs generalizing c with
  | nil => rfl
  | cons x xs ih =>
    rw [List.cons_append, goTo, goTo]
    cases v.lookup [] (t.slots c) x with
    | none => rfl
    | some u =>
      dsimp only
      split
      · exact ih (v.target u)
      · rfl

/-- The last component is looked up where the others lead. -/
theorem follow_marked (banFiles banDirs ends : Bool) (c : UInt32) (xs : List Name) (q : Name) :
    t.follow banFiles banDirs c (marked ends (xs ++ [q])) =
      (t.goTo c xs).bind fun c' => t.follow banFiles banDirs c' [(q, ends)] := by
  induction xs generalizing c with
  | nil => rfl
  | cons x xs ih =>
    have hcons : marked ends (x :: xs ++ [q]) = (x, true) :: marked ends (xs ++ [q]) := by
      cases xs with
      | nil => rfl
      | cons x' xs => rfl
    rw [hcons, follow, goTo]
    cases v.lookup [] (t.slots c) x with
    | none => rfl
    | some u =>
      have hpass : passes banFiles banDirs true u.entry.isDirectory = u.entry.isDirectory := by
        cases u.entry.isDirectory <;> simp [passes]
      simp only [hpass]
      cases u.entry.isDirectory with
      | false => rfl
      | true =>
        simp only [if_true]
        rw [ih]
        cases t.goTo (v.target u) xs with
        | error e => rfl
        | ok c' =>
          change Except.map _ (t.follow banFiles banDirs c' [(q, ends)]) =
            t.follow banFiles banDirs c' [(q, ends)]
          rw [follow]
          cases v.lookup [] (t.slots c') q with
          | none => rfl
          | some w =>
            dsimp only
            split
            · rfl
            · rfl

/-- The last component, looked up in the directory that the others lead to. -/
def entryOf (c : UInt32) (qs : List Name) : Option Slot :=
  qs.getLast?.bind fun q =>
    (t.goTo c qs.dropLast).toOption.bind fun c' => v.lookup [] (t.slots c') q

theorem entryOf_concat (c : UInt32) (xs : List Name) (q : Name) :
    t.entryOf c (xs ++ [q]) =
      (t.goTo c xs).toOption.bind fun c' => v.lookup [] (t.slots c') q := by
  unfold entryOf
  rw [List.getLast?_concat, List.dropLast_concat]
  rfl

theorem goTo_error {qs : List Name} {e : Int} (h : t.goTo c qs = .error e) : e ≠ 0 := by
  induction qs generalizing c with
  | nil => cases h
  | cons q qs ih =>
    rw [goTo] at h
    cases hfind : v.lookup [] (t.slots c) q with
    | none =>
      rw [hfind] at h
      cases h
      decide
    | some u =>
      rw [hfind] at h
      dsimp only at h
      split at h
      · exact ih h
      · cases h
        decide

/-- A walk comes to this entry, if it does not stop at it. -/
theorem follow_eq_ok_some {banFiles banDirs ends : Bool} {qs : List Name} {u : Slot} :
    t.follow banFiles banDirs c (marked ends qs) = .ok (some u) ↔
      t.entryOf c qs = some u ∧ passes banFiles banDirs ends u.entry.isDirectory = true := by
  rcases List.eq_nil_or_concat' qs with rfl | ⟨xs, q, rfl⟩
  · constructor
    · intro h
      cases h
    · intro h
      cases h.1
  rw [follow_marked, entryOf_concat]
  cases t.goTo c xs with
  | error e =>
    constructor
    · intro h
      cases h
    · intro h
      cases h.1
  | ok c' =>
    change t.follow banFiles banDirs c' [(q, ends)] = .ok (some u) ↔
      v.lookup [] (t.slots c') q = some u ∧ _
    rw [follow]
    cases v.lookup [] (t.slots c') q with
    | none => simp
    | some w =>
      dsimp only
      split
      case isTrue hpass =>
        constructor
        · intro h
          cases h
          exact ⟨rfl, hpass⟩
        · intro h
          cases h.1
          rfl
      case isFalse hpass =>
        constructor
        · intro h
          cases h
        · intro h
          cases h.1
          exact (hpass h.2).elim

theorem follow_segments (banFiles banDirs : Bool) (c : UInt32) (path : Name) (u : Slot) :
    t.follow banFiles banDirs c (segments path) = .ok (some u) ↔
      t.entryOf c (components path) = some u ∧
        passes banFiles banDirs (path.getLast? == some 0x2F) u.entry.isDirectory = true := by
  rw [segments_eq_marked]
  exact t.follow_eq_ok_some

theorem holds_of_entryOf {qs : List Name} {u : Slot} (hc : t.isDir c)
    (h : t.entryOf c qs = some u) : t.Holds u := by
  rcases List.eq_nil_or_concat' qs with rfl | ⟨xs, q, rfl⟩
  · cases h
  rw [entryOf_concat] at h
  cases hgo : t.goTo c xs with
  | error e =>
    rw [hgo] at h
    cases h
  | ok c' =>
    rw [hgo] at h
    exact t.holds_of_lookup (t.goTo_isDir hc hgo) h

/-- The entry at the end of a way is one of the directories'. -/
theorem holds_of_follow {banFiles banDirs : Bool} {path : Name} {u : Slot} (hc : t.isDir c)
    (h : t.follow banFiles banDirs c (segments path) = .ok (some u)) : t.Holds u :=
  t.holds_of_entryOf hc ((t.follow_segments banFiles banDirs c path u).mp h).1

theorem follow_ne_none {banFiles banDirs : Bool} {segs : List (Name × Bool)} (hne : segs ≠ []) :
    t.follow banFiles banDirs c segs ≠ .ok none := by
  cases segs with
  | nil => exact (hne rfl).elim
  | cons seg segs =>
    obtain ⟨q, more⟩ := seg
    rw [follow]
    cases v.lookup [] (t.slots c) q with
    | none => exact nofun
    | some u =>
      dsimp only
      split
      · cases t.follow banFiles banDirs (v.target u) segs with
        | error e => exact nofun
        | ok last => exact nofun
      · exact nofun

/-- **A walk goes where its path leads.** -/
theorem returns_walk (hplain : t.Plain) (hc : t.isDir c) (hs : s.Cwd v c) (path : Name)
    (flags : Nat) :
    ∃ r s', Returns (walk path flags) s r s' ∧
      Arrives s v c (t.follow (bansFiles flags) (bansDirs flags) c (segments (cstr path)))
        r s' := by
  obtain ⟨r, s', hvisits, hend⟩ := t.returns_visits
    (s := { s with stack := s.dirBuff.sector :: s.stack }) hplain (bansFiles flags) (bansDirs flags)
    (endsFlagged_segments (cstr path)) hc hs rfl
  refine ⟨r, s', Fat32s.returns_walk.mpr hvisits, ?_⟩
  generalize t.follow (bansFiles flags) (bansDirs flags) c (segments (cstr path)) = o at hend
  cases hend with
  | failed hback => exact Server.TurnedBack.failed hs ⟨hback.toBack, hback.on, hback.out⟩
  | stayed => exact .stayed
  | arrived hhop =>
    exact .arrived ⟨hhop.on, hhop.cursor, hhop.last, rfl, hhop.label, hhop.out⟩

/-- And so does cd. -/
theorem returns_cd (hplain : t.Plain) (hc : t.isDir c) (hs : s.Cwd v c) (path : Name) :
    ∃ r s', Returns (cd path) s r s' ∧
      Arrives s v c (t.follow true false c (segments (cstr path))) r s' := by
  obtain ⟨r, s₁, hwalk, hend⟩ := t.returns_walk
    (s := { s with stack := s.dirBuff.sector :: s.stack }) hplain hc hs path WALK_BAN_FILES
  have hne : ∀ {e : Int}, t.follow true false c (segments (cstr path)) = .error e → e ≠ 0 :=
    t.follow_error
  change Arrives _ v c (t.follow true false c (segments (cstr path))) r s₁ at hend
  have hgo : ∀ {s' : Server}, Returns (if r ≠ 0 then do rollback; return r else do
      let _ ← stackPop
      return 0 : ServerM Int) s₁ r s' → Returns (cd path) s r s' := by
    intro s' h
    unfold cd
    rw [returns_globals_bind, returns_push_bind]
    exact returns_bind.mpr ⟨r, s₁, hwalk, h⟩
  generalize t.follow true false c (segments (cstr path)) = o at hend hne
  cases hend with
  | failed hcwd hsector hstack hout =>
    obtain ⟨s', hroll, hback⟩ := Drive.On.turns_back (s := s₁) hcwd.on hstack s₁.scratch r
    refine ⟨r, s', hgo ?_, ?_⟩
    · rw [if_pos (hne rfl)]
      exact hroll
    · exact Server.TurnedBack.failed hs ⟨hback.toBack, hback.on, hback.out.trans hout⟩
  | stayed =>
    refine ⟨0, s, hgo ?_, .stayed⟩
    rw [if_neg (by decide)]
    exact returns_bind.mpr ⟨s.dirBuff.sector, s, returns_stackPop.mpr ⟨s.stack, rfl, rfl⟩,
      returns_pure.mpr ⟨rfl, rfl⟩⟩
  | arrived hhop =>
    refine ⟨0, { s₁ with stack := s.stack }, hgo ?_, ?_⟩
    · rw [if_neg (by decide)]
      exact returns_bind.mpr ⟨s.dirBuff.sector, _,
        returns_stackPop.mpr ⟨s.stack, hhop.stack, rfl⟩, returns_pure.mpr ⟨rfl, rfl⟩⟩
    · exact .arrived ⟨hhop.on, hhop.cursor, hhop.last, rfl, hhop.label, hhop.out⟩

/-- In terms of the directory that the components lead to. -/
structure GoesTo (s : Server) (c : UInt32) (path : Name) (r : Int) (s' : Server) : Prop where
  stack : s'.stack = s.stack
  out : s'.out = s.out
  cwd : match t.goTo c (components (cstr path)) with
    | .error status => r = status ∧ status ≠ 0 ∧ s'.Cwd v c
    | .ok c' => r = 0 ∧ s'.Cwd v c'

variable {t} in
theorem GoesTo.arrived {c' : UInt32} {path : Name} {r : Int} (h : t.GoesTo s c path r s')
    (hgo : t.goTo c (components (cstr path)) = .ok c') : r = 0 ∧ s'.Cwd v c' := by
  have hcwd := h.cwd
  rwa [hgo] at hcwd

theorem goesTo_of_arrives {path : Name} {r : Int} (hc : t.isDir c) (hs : s.Cwd v c)
    (hend : Arrives s v c (t.follow true false c (segments (cstr path))) r s') :
    t.GoesTo s c path r s' := by
  have hgo := t.map_endOf_follow c (segments (cstr path))
  have hdir : ∀ {c' : UInt32}, t.goTo c (components (cstr path)) = .ok c' → t.isDir c' :=
    t.goTo_isDir hc
  have hne : ∀ {e : Int}, t.follow true false c (segments (cstr path)) = .error e → e ≠ 0 :=
    t.follow_error
  rw [map_fst_segments] at hgo
  generalize t.follow true false c (segments (cstr path)) = o at hend hgo hne
  rw [← hgo] at hdir
  cases hend with
  | failed hcwd _ hstack hout =>
    refine ⟨hstack, hout, ?_⟩
    rw [← hgo]
    exact ⟨rfl, hne rfl, hcwd⟩
  | stayed =>
    refine ⟨rfl, rfl, ?_⟩
    rw [← hgo]
    exact ⟨rfl, hs⟩
  | arrived hhop =>
    refine ⟨hhop.stack, hhop.out, ?_⟩
    rw [← hgo]
    exact ⟨rfl, hhop.cwd (t.isData (hdir rfl))⟩

theorem walk_goesTo (hplain : t.Plain) (hc : t.isDir c) (hs : s.Cwd v c) (path : Name) :
    ∃ r s', Returns (walk path WALK_BAN_FILES) s r s' ∧ t.GoesTo s c path r s' := by
  obtain ⟨r, s', hwalk, hend⟩ := t.returns_walk hplain hc hs path WALK_BAN_FILES
  exact ⟨r, s', hwalk, t.goesTo_of_arrives hc hs hend⟩

theorem cd_goesTo (hplain : t.Plain) (hc : t.isDir c) (hs : s.Cwd v c) (path : Name) :
    ∃ r s', Returns (cd path) s r s' ∧ t.GoesTo s c path r s' := by
  obtain ⟨r, s', hcd, hend⟩ := t.returns_cd hplain hc hs path
  exact ⟨r, s', hcd, t.goesTo_of_arrives hc hs hend⟩

end Volume.Dirs

/-- **cd resolves its path in the directory tree.**  From any directory of the
    hierarchy and for any path, cd returns what the resolution of the components
    gives: 1 or 2 for the first one that is missing or not a directory, else 0, with
    the cursor at the first slot of the directory they lead to. -/
theorem cd_resolves_path (t : v.Dirs) (hplain : t.Plain) (hc : t.isDir c) (hs : s.Cwd v c)
    (path : Name) :
    ∃ r s', Returns (cd path) s r s' ∧
      match t.goTo c (components (cstr path)) with
      | .error status => r = status
      | .ok c' => r = 0 ∧ s'.dirBuff.sector.toNat = v.firstSector c' ∧ s'.dirBuff.offset = 0 ∧
          s'.Cwd v c' := by
  obtain ⟨r, s', hcd, _, _, hend⟩ := t.cd_goesTo hplain hc hs path
  refine ⟨r, s', hcd, ?_⟩
  cases hgo : t.goTo c (components (cstr path)) with
  | error status =>
    rw [hgo] at hend
    exact hend.1
  | ok c' =>
    rw [hgo] at hend
    exact ⟨hend.1, hend.2.sector, hend.2.offset, hend.2⟩

namespace Sample

theorem plain : tree.Plain := by
  intro c hc
  unfold Volume.PlainNames
  rcases hc with rfl | rfl
  · decide +kernel
  · decide +kernel

end Sample

/-- On the sample volume: into its directory and back by the `..` entry there. -/
theorem cd_resolves_path_on_sample :
    ∃ s s', Returns (doMount (diskEnv Sample.volume.dev) mountMessage)
        (Server.initial fun _ => []) OK s ∧
      Returns (cd (ascii "DIR/../DIR/")) s 0 s' ∧ s'.dirBuff.sector.toNat = 3 ∧
      s'.dirBuff.offset = 0 := by
  obtain ⟨s, hmount, hcwd, _⟩ := Sample.mounted fun _ => []
  have hgo : Sample.tree.goTo 2 (components (cstr (ascii "DIR/../DIR/"))) = .ok 3 := by
    decide +kernel
  have hend := cd_resolves_path Sample.tree.toDirs Sample.plain (.inl rfl) hcwd
    (ascii "DIR/../DIR/")
  rw [hgo] at hend
  obtain ⟨r, s', hcd, rfl, hsector, hoffset, _⟩ := hend
  exact ⟨s, s', hmount, hcd, hsector, hoffset⟩

end Fat32s
