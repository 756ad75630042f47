/-
  Fat32s/Hierarchy.lean
  =====================
  **The directories of a volume as a tree.**

  `Dirs` are directories, each with a zero slot, whose entries for directories
  lead to directories again.  In a `DirTree` every one of them but the root has a
  parent, one level up, that its `..` entry leads to and that lists it.  In such
  a hierarchy no search goes astray: walks end, those that may not end at a file
  end in a directory, and the way up by `..` entries leads to the root.
-/
import Fat32s.Ends

namespace Fat32s

open Fat32s.Lib Fat32s.Lib.Prog

variable {v : Volume} {d d' : Drive} {s s' : Server} {c : UInt32} {as : List Nat}

/-! ### Searching one directory -/

section search

variable {junk : Name} {p : DirEntry → Name → Prop}

/-- The first of the named entries for which `p` holds. -/
structure IsFirst (p : DirEntry → Name → Prop) (xs : List (DirEntry × Name))
    (x : DirEntry × Name) : Prop where
  split : ∃ pre post, xs = pre ++ x :: post ∧ ∀ y ∈ pre, ¬ p y.1 y.2
  holds : p x.1 x.2

theorem IsFirst.mem {xs : List (DirEntry × Name)} {x : DirEntry × Name} (h : IsFirst p xs x) :
    x ∈ xs := by
  obtain ⟨pre, post, rfl, _⟩ := h.split
  exact List.mem_append_right _ List.mem_cons_self

theorem IsFirst.find? [∀ de name, Decidable (p de name)] {xs : List (DirEntry × Name)}
    {x : DirEntry × Name} (h : IsFirst p xs x) : xs.find? (fun x => p x.1 x.2) = some x := by
  obtain ⟨pre, post, hsplit, hpre⟩ := h.split
  apply List.find?_eq_some_iff_append.mpr
  refine ⟨by simpa using h.holds, pre, post, hsplit, ?_⟩
  intro y hy
  simpa using hpre y hy

/-- A search finds the first entry it looks for, or comes to the zero slot. -/
theorem Volume.Lists.search (h : v.Lists c as) (hd : d.Cwd v c) (junk : Name)
    (p : DirEntry → Name → Prop) :
    ((∀ x ∈ v.decoded junk as, ¬ p x.1 x.2) ∧ ∃ d', d.Misses junk p d') ∨
      ∃ x, IsFirst p (v.decoded junk as) x ∧ ∃ d', d.FindsAs junk p d' x.2 ∧ d'.On v ∧
        d'.dirBuff.de = x.1 ∧ ∃ a ∈ as, x.1 = (v.slot a).entry ∧ d'.At v a := by
  classical
  cases hfind : (v.decoded junk as).find? (fun x => p x.1 x.2) with
  | none =>
    have hnone : ∀ x ∈ v.decoded junk as, ¬ p x.1 x.2 := by
      intro x hx
      simpa using List.find?_eq_none.mp hfind x hx
    obtain ⟨d', hsteps, _, htype⟩ := h.steps_all hd.cursor hd.on
    exact .inl ⟨hnone, d', v.entries as, hsteps, hnone, htype⟩
  | some x =>
    obtain ⟨hx, xs, ys, hsplit, hxs⟩ := List.find?_eq_some_iff_append.mp hfind
    have hp : p x.1 x.2 := by simpa using hx
    have hnone : ∀ y ∈ xs, ¬ p y.1 y.2 := fun y hy => by simpa using hxs y hy
    obtain ⟨es, d', hsteps, rfl, hname, hon, hde, a, ha, hentry, htype, hat⟩ :=
      h.steps_to_entry hd.cursor hd.on hsplit
    refine .inr ⟨x, ⟨⟨_, _, hsplit, hnone⟩, hp⟩, d', ⟨es, hsteps, hnone, ?_, ?_, ?_⟩, hon, hde, a,
      ha, hentry, hat⟩
    · rw [hde]
      exact htype
    · rw [hde]
      exact hp
    · rw [hde]
      exact hname

theorem Volume.Lists.searches (h : v.Lists c as) (hd : d.Cwd v c) (junk : Name)
    (p : DirEntry → Name → Prop) : d.Searches junk p := by
  rcases h.search hd junk p with ⟨_, d', hmiss⟩ | ⟨_, _, d', hfind, _⟩
  · exact ⟨d', .inr hmiss⟩
  · exact ⟨d', .inl hfind.finds⟩

theorem Volume.Lists.listsAll (h : v.Lists c as) (hd : d.Cwd v c) : d.ListsAll := by
  obtain ⟨d', hsteps, _, htype⟩ := h.steps_all hd.cursor hd.on
  exact ⟨_, d', hsteps, htype⟩

/-- Where a search that succeeds has stopped. -/
theorem Volume.Lists.found {name : Name} (h : v.Lists c as) (hd : d.Cwd v c)
    (hfind : d.FindsAs junk p d' name) :
    ∃ x, IsFirst p (v.decoded junk as) x ∧ x.2 = name ∧ d'.On v ∧ d'.dirBuff.de = x.1 ∧
      ∃ a ∈ as, x.1 = (v.slot a).entry ∧ d'.At v a := by
  rcases h.search hd junk p with ⟨_, _, hmiss⟩ | ⟨x, hx, d₁, hfind', hon, hde, hat⟩
  · exact (hfind.finds.not_misses hmiss).elim
  · obtain ⟨rfl, rfl⟩ := hfind.unique hfind'
    exact ⟨x, hx, rfl, hon, hde, hat⟩

/-- The slot it has stopped at. -/
theorem Volume.Lists.lands (h : v.Lists c as) (hd : d.Cwd v c) (hfind : d.Finds junk p d') :
    ∃ a ∈ as, (v.slot a).dirType = .short ∧ d'.On v ∧ d'.At v a ∧
      d'.dirBuff.de = (v.slot a).entry := by
  obtain ⟨name, hname⟩ := hfind
  obtain ⟨x, _, _, hon, hde, a, ha, hentry, hat⟩ := h.found hd hname
  refine ⟨a, ha, ?_, hon, hat, hde.trans hentry⟩
  rw [← hat.type]
  exact hname.finds.type_eq

theorem Volume.Lists.missed (h : v.Lists c as) (hd : d.Cwd v c) (hmiss : d.Misses junk p d') :
    ∀ x ∈ v.decoded junk as, ¬ p x.1 x.2 := by
  rcases h.search hd junk p with ⟨hnone, _⟩ | ⟨_, _, _, hfind, _⟩
  · exact hnone
  · exact (hfind.finds.not_misses hmiss).elim

/-- A hop from a slot to a data cluster. -/
theorem Drive.On.cwd_hop {u : Slot} (hon : d.On v) (hde : d.dirBuff.de = u.entry)
    (hdata : v.IsData (v.target u)) : (d.jump d.hopSector).Cwd v (v.target u) := by
  refine ⟨hon.jump _, ?_⟩
  rw [Drive.hopSector, hon.target_eq hde]
  exact hon.at_jump_cluster hdata

end search

/-! ### Hierarchies -/

/-- Directories that are closed under going from an entry to the directory it
    stands for. -/
structure Volume.Dirs (v : Volume) where
  isDir : UInt32 → Prop
  slots : UInt32 → List Nat
  root : isDir v.bpb.rootCluster
  lists : ∀ {c : UInt32}, isDir c → v.Lists c (slots c)
  leads : ∀ {c : UInt32} {a : Nat}, isDir c → a ∈ slots c → (v.slot a).dirType = .short →
    (v.slot a).entry.isDirectory = true → isDir (v.target (v.slot a))

/-- Every directory but the root has a parent one level up, which its `..` entry
    leads to and which lists it; nothing else goes by `..`. -/
structure Volume.DirTree (v : Volume) extends v.Dirs where
  parent : UInt32 → UInt32
  depth : UInt32 → Nat
  depth_root : depth v.bpb.rootCluster = 0
  up : ∀ {c : UInt32}, isDir c → c ≠ v.bpb.rootCluster →
    isDir (parent c) ∧ depth c = depth (parent c) + 1
  has_dotdot : ∀ {c : UInt32} (junk : Name), isDir c → c ≠ v.bpb.rootCluster →
    ∃ x ∈ v.decoded junk (slots c), x.2 = ascii ".."
  dotdot : ∀ {c : UInt32} {junk : Name} {x : DirEntry × Name}, isDir c →
    x ∈ v.decoded junk (slots c) → x.2 = ascii ".." →
    c ≠ v.bpb.rootCluster ∧ v.target x.1.u = parent c
  listed : ∀ {c : UInt32} (junk : Name), isDir c → c ≠ v.bpb.rootCluster →
    ∃ x ∈ v.decoded junk (slots (parent c)), x.1.u.firstCluster = c

/-- Only a last segment may be a file. -/
theorem more_of_passes_file {banFiles banDirs more : Bool}
    (h : passes banFiles banDirs more false = true) : more = false := by
  cases more with
  | false => rfl
  | true => simp [passes] at h

namespace Volume.Dirs

variable (t : v.Dirs)

theorem isData (hc : t.isDir c) : v.IsData c := (t.lists hc).isData

/-- A search that stops at an entry for a directory, and a hop from there. -/
theorem enter {junk : Name} {p : DirEntry → Name → Prop} (hc : t.isDir c) (hd : d.Cwd v c)
    (hfind : d.Finds junk p d') (hdir : d'.dirBuff.de.isDirectory = true) :
    ∃ c', t.isDir c' ∧ (d'.jump d'.hopSector).Cwd v c' := by
  obtain ⟨a, ha, hshort, hon, _, hde⟩ := (t.lists hc).lands hd hfind
  rw [hde] at hdir
  have hc' := t.leads hc ha hshort hdir
  exact ⟨_, hc', hon.cwd_hop hde (t.isData hc')⟩

/-- Every walk in the hierarchy comes to an end. -/
theorem walks {segs : List (Name × Bool)} (banFiles banDirs : Bool) (junk : Nat → Name)
    (hsegs : EndsFlagged segs) (hc : t.isDir c) (hd : d.Cwd v c) :
    ∃ o, Walks banFiles banDirs segs d junk o := by
  induction segs generalizing c d junk with
  | nil => exact ⟨_, .done⟩
  | cons seg segs ih =>
    obtain ⟨segment, more⟩ := seg
    obtain ⟨d', hfind | hmiss⟩ := (t.lists hc).searches hd (junk 0) (goesBy segment)
    · cases hpass : passes banFiles banDirs more d'.dirBuff.de.isDirectory with
      | false => exact ⟨_, .barred hfind hpass⟩
      | true =>
        cases hdir : d'.dirBuff.de.isDirectory with
        | true =>
          obtain ⟨c', hc', hd'⟩ := t.enter hc hd hfind hdir
          obtain ⟨o, hrest⟩ := ih (fun n => junk (n + 1)) hsegs.2 hc' hd'
          exact ⟨o, .entered hfind hpass hrest⟩
        | false =>
          obtain rfl := hsegs.1 (more_of_passes_file (by rw [← hdir]; exact hpass))
          exact ⟨_, .entered hfind hpass .done⟩
    · exact ⟨_, .missing hmiss⟩

/-- A walk that bans files arrives at a directory. -/
theorem walks_arrives {segs : List (Name × Bool)} {banDirs : Bool} {junk junk' : Nat → Name}
    (h : Walks true banDirs segs d junk (some (d', junk'))) (hc : t.isDir c) (hd : d.Cwd v c) :
    ∃ c', t.isDir c' ∧ d'.Cwd v c' := by
  generalize ho : some (d', junk') = o at h
  induction h generalizing c with
  | done =>
    cases ho
    exact ⟨c, hc, hd⟩
  | missing _ => cases ho
  | barred _ _ => cases ho
  | @entered d d₁ _ _ more _ _ hfind hpass _ ih =>
    have hdir : d₁.dirBuff.de.isDirectory = true := by
      cases hdir : d₁.dirBuff.de.isDirectory with
      | true => rfl
      | false =>
        rw [hdir] at hpass
        cases more with
        | false => simp [passes] at hpass
        | true => simp [passes] at hpass
    obtain ⟨c', hc', hd'⟩ := t.enter hc hd hfind hdir
    exact ih hc' hd' ho

end Volume.Dirs

namespace Volume.DirTree

variable (t : v.DirTree)

/-- The `..` entry of a directory leads to its parent, which lists it. -/
theorem climb {junk : Name} (hc : t.isDir c) (hd : d.Cwd v c)
    (hfind : d.Finds junk (goesBy (ascii "..")) d') :
    c ≠ v.bpb.rootCluster ∧ (d'.jump d'.hopSector).Cwd v (t.parent c) := by
  obtain ⟨name, hfind⟩ := hfind
  obtain ⟨x, hx, _, hon, hde, a, _, hentry, _⟩ := (t.lists hc).found hd hfind
  obtain ⟨hne, htarget⟩ := t.dotdot hc hx.mem hx.holds
  rw [hentry] at hde htarget
  change v.target (v.slot a) = t.parent c at htarget
  have hhop := hon.cwd_hop hde (by rw [htarget]; exact t.isData (t.up hc hne).1)
  rw [htarget] at hhop
  exact ⟨hne, hhop⟩

/-- The root has no `..` entry, and every other directory has one. -/
theorem misses_dotdot {junk : Name} (hc : t.isDir c) (hd : d.Cwd v c)
    (hmiss : d.Misses junk (goesBy (ascii "..")) d') : c = v.bpb.rootCluster := by
  by_contra hne
  obtain ⟨x, hx, hname⟩ := t.has_dotdot junk hc hne
  exact (t.lists hc).missed hd hmiss x hx hname

/-- The number of a cluster is found again from its first sector. -/
theorem clusterOf_cwd (hc : t.isDir c) (hd : d.Cwd v c) : d.clusterOf d.dirBuff.sector = c := by
  have hsector := hd.sector
  exact hd.on.clusterOf_eq (t.isData hc) v.spc_pos hsector

/-- The parent lists the directory under its cluster number. -/
theorem finds_child (hc : t.isDir c) (hne : c ≠ v.bpb.rootCluster)
    (hd : d.Cwd v (t.parent c)) (junk : Name) : ∃ d', d.Finds junk (startsAt c) d' := by
  rcases (t.lists (t.up hc hne).1).search hd junk (startsAt c) with
    ⟨hnone, _⟩ | ⟨_, _, d', hfind, _⟩
  · obtain ⟨x, hx, hfirst⟩ := t.listed junk hc hne
    refine (hnone x hx ?_).elim
    have hzero : c ≠ 0 := by
      intro hzero
      have hdata := (t.isData hc).1
      rw [hzero] at hdata
      exact absurd hdata (by decide)
    rw [startsAt, Slot.clusterId, hfirst, if_neg hzero]
  · exact ⟨d', hfind.finds⟩

end Volume.DirTree

/-! ### The tree of the sample volume -/

namespace Sample

def slotsOf (c : UInt32) : List Nat :=
  if c = 2 then [1024, 1056, 1088, 1120] else [1536, 1568, 1600]

theorem decoded_slotsOf {c : UInt32} (hc : c = 2 ∨ c = 3) (junk : Name) :
    volume.decoded junk (slotsOf c) = volume.decoded [] (slotsOf c) := by
  refine named_junk junk [] [] ?_
  rcases hc with rfl | rfl
  · decide +kernel
  · decide +kernel

/-- The root directory, and the directory `DIR` in it. -/
def tree : volume.DirTree where
  isDir c := c = 2 ∨ c = 3
  slots := slotsOf
  root := .inl rfl
  lists := by
    intro c hc
    rcases hc with rfl | rfl
    · exact lists_root
    · exact lists_dir
  leads := by
    intro c a hc
    rcases hc with rfl | rfl
    · revert a
      decide +kernel
    · revert a
      decide +kernel
  parent _ := 2
  depth c := if c = 2 then 0 else 1
  depth_root := rfl
  up := by
    intro c hc hne
    rcases hc with rfl | rfl
    · exact (hne rfl).elim
    · exact ⟨.inl rfl, rfl⟩
  has_dotdot := by
    intro c junk hc hne
    rw [decoded_slotsOf hc]
    rcases hc with rfl | rfl
    · exact (hne rfl).elim
    · decide +kernel
  dotdot := by
    intro c junk x hc
    rw [decoded_slotsOf hc]
    rcases hc with rfl | rfl
    · revert x
      decide +kernel
    · revert x
      decide +kernel
  listed := by
    intro c junk hc hne
    rw [decoded_slotsOf (.inl rfl)]
    rcases hc with rfl | rfl
    · exact (hne rfl).elim
    · decide +kernel

end Sample

end Fat32s
