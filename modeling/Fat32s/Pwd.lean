/-
  Fat32s/Pwd.lean
  ===============
  **pwd prints the path of the working directory.**

  In each round `_pwd` goes up by the `..` entry, looks up in the parent which of
  its entries leads to the directory it has come from, and puts the name of that
  entry before the path so far.  The names on the way are those of the directories
  because no other entry of the parent starts at the same cluster; an empty file,
  which is taken to start at cluster 2, gets in the way of the root directory only,
  and nobody looks for that.
-/
import Fat32s.WorkingDirectory

namespace Fat32s

open Fat32s.Lib Fat32s.Lib.Prog

/-- A tree with the root at cluster 2 in which every directory has one name: apart
    from `.` and `..` its parent has no entries for it under other names. -/
structure Volume.NamedTree (v : Volume) extends v.DirTree where
  name : UInt32 → Name
  root_eq : v.bpb.rootCluster = 2
  dot : ∀ {c : UInt32} {junk : Name} {x : DirEntry × Name}, isDir c →
    x ∈ v.decoded junk (slots c) → x.2 = ascii "." → v.target x.1.u = c
  once : ∀ {c : UInt32} {junk : Name} {x : DirEntry × Name}, isDir c → c ≠ v.bpb.rootCluster →
    x ∈ v.decoded junk (slots (parent c)) → x.1.u.firstCluster = c →
    x.2 = ascii "." ∨ x.2 = ascii ".." ∨ x.2 = name c

variable {v : Volume} {d d' : Drive} {s s' : Server} {c : UInt32} {r : Int}

/-! ### One round -/

theorem returns_findChildByClusterId_of_finds {id : UInt32} {name : Name}
    (h : s.FindsAs (s.scratch.junk 0) (startsAt id) d name) :
    ∃ s', Returns (findChildByClusterId id) s (name, 0) s' ∧ s.Looked d s' := by
  obtain ⟨es, hsteps, hnone, htype, hid, hname⟩ := h
  exact ⟨_, returns_findChildByClusterId.mpr ⟨es, d, hsteps, hnone,
    .inr ⟨rfl, htype, hid, hname⟩, rfl⟩, s.looked_scanned es d⟩

/-- A round of pwd in a directory of the tree returns. -/
theorem Volume.DirTree.returns_pwdStep (t : v.DirTree) {w : PwdVars} {sector : UInt32}
    {rest : List UInt32} (hc : t.isDir c) (hs : s.Cwd v c) (hid : w.clusterId = c)
    (hstack : s.stack = sector :: rest) : ∃ x s', Returns (pwdStep w) s x s' := by
  obtain ⟨d₁, hfind | hmiss⟩ := (t.lists hc).searches hs (s.scratch.junk 0) (goesBy (ascii ".."))
  · obtain ⟨hne, hparent⟩ := t.climb hc hs hfind
    obtain ⟨s₁, hsearch, hlook⟩ := returns_findChild_of_finds hfind
    have hon₁ : s₁.On v := ((stable_on v).quiet.findChild _).returns hsearch hs.on
    obtain ⟨s₂, hhop⟩ : ∃ s₂, Returns hop s₁ OK s₂ :=
      ⟨_, (returns_hop (by rw [hlook.drive]; exact hfind.type_eq)).mpr ⟨hon₁.fits _, rfl, rfl⟩⟩
    have henter := hlook.hop_cases hfind.type_eq hhop
    rw [← henter.drive] at hparent
    obtain ⟨d₂, name, hlisted⟩ := t.finds_child hc hne hparent (s₂.scratch.junk 0)
    rw [← hid] at hlisted
    obtain ⟨s₃, hsearch', hlook'⟩ := returns_findChildByClusterId_of_finds
      (s := { s₂ with stack := s₂.dirBuff.sector :: s₂.stack }) hlisted
    have hon₃ : s₃.On v :=
      ((stable_on v).quiet.findChildByClusterId _).returns hsearch' hparent.on
    refine hsearch.bind_exists ?_
    rw [if_pos rfl]
    refine hhop.bind_exists ?_
    simp only [returns_globals_bind, returns_push_bind]
    refine hsearch'.bind_exists ?_
    simp only [ne_eq, not_true_eq_false, if_false, onServer_server, store, returns_modify_bind]
    refine Returns.bind_exists (Drive.On.returns_rollback hon₃ hlook'.stack) ?_
    simp only [returns_globals_bind, returns_onDrive_bind]
    exact ⟨_, _, _, _, returns_sectorToCluster.mpr ⟨(hon₃.jump _).spc_ne_zero, rfl, rfl⟩,
      returns_pure.mpr ⟨rfl, rfl⟩⟩
  · obtain ⟨s₁, hsearch, hlook⟩ := returns_findChild_of_misses hmiss
    have hon₁ : s₁.On v := ((stable_on v).quiet.findChild _).returns hsearch hs.on
    refine hsearch.bind_exists ?_
    rw [if_neg (by decide)]
    simp only [returns_printf_bind]
    refine Returns.bind_exists
      (Drive.On.returns_rollback hon₁ (hlook.stack.trans hstack)) ?_
    exact ⟨_, _, returns_pure.mpr ⟨rfl, rfl⟩⟩

/-- The path of a directory is that of its parent and the name of the entry which the
    lookup in the parent stops at. -/
structure Volume.DirTree.Spells (t : v.DirTree) (path : UInt32 → Name) : Prop where
  root : path v.bpb.rootCluster = []
  up : ∀ {c : UInt32} {d d' : Drive} {junk name : Name}, t.isDir c → c ≠ v.bpb.rootCluster →
    d.Cwd v (t.parent c) → d.FindsAs junk (startsAt c) d' name →
    path c = path (t.parent c) ++ (ascii "/" ++ name)

/-- The line that is printed for a path. -/
def pathLine (path : Name) : List UInt8 :=
  if path = [] then ascii "/\n" else path ++ ascii "\n"

theorem shown_pathLine {path : Name} (h : shown path = path) :
    shown (pathLine path) = pathLine path := by
  have hend : shown (ascii "\n") = ascii "\n" := by decide
  unfold pathLine
  split
  · decide
  · rw [shown_append, h, hend]

namespace Volume.DirTree

variable {t : v.DirTree} {path : UInt32 → Name}

/-- From a directory of the tree the loop goes up to the root. -/
theorem Spells.returns_pwdLoop (h : t.Spells path) {w : PwdVars} {sector : UInt32}
    {rest : List UInt32} (hc : t.isDir c) (hs : s.Cwd v c) (hid : w.clusterId = c)
    (hstack : s.stack = sector :: rest) (hshown : shown w.fullPath = w.fullPath) :
    ∃ s', Returns (iter pwdStep w) s OK s' ∧ s'.Back sector rest ∧
      s'.out = s.out ++ pathLine (path c ++ w.fullPath) := by
  -- induction on the depth, which decreases from round to round
  generalize hn : t.depth c = n
  induction n using Nat.strongRecOn generalizing c s w with
  | ind n ih =>
    obtain ⟨x, s₁, hround⟩ := t.returns_pwdStep hc hs hid hstack
    cases pwdStep_cases hround with
    | top hmiss hstack' hdrive hout =>
      obtain ⟨rfl, rfl⟩ := List.cons.inj (hstack.symm.trans hstack')
      obtain rfl := t.misses_dotdot hc hs hmiss
      refine ⟨s₁, returns_iter.mpr (.inl hround), ⟨⟨_, hdrive⟩, rfl⟩, ?_⟩
      rw [hout, h.root, List.nil_append]
      exact congrArg (s.out ++ ·) (shown_pathLine hshown)
    | lost hfind hmiss _ _ =>
      obtain ⟨hne, hparent⟩ := t.climb hc hs hfind
      obtain ⟨d₂, hlisted⟩ := t.finds_child hc hne hparent (s.scratch.junk 1)
      rw [hid] at hmiss
      exact (hlisted.not_misses hmiss).elim
    | @up _ _ name _ _ hfind hlisted _ hstack' _ _ hpath hout =>
      obtain ⟨hne, hback, hid'⟩ := t.climbed hc hs (pwdStep_cases hround)
      obtain ⟨hup, hdepth⟩ := t.up hc hne
      rw [hid] at hlisted
      have hspell := h.up hc hne (t.climb hc hs hfind).2 hlisted
      have hshown' : shown (ascii "/" ++ (name ++ w.fullPath)) =
          ascii "/" ++ (name ++ w.fullPath) := by
        rw [shown_append, shown_append, hlisted.shown_name, hshown]
        rfl
      rw [← hpath] at hshown'
      obtain ⟨s', hloop, hrest, hout'⟩ := ih (t.depth (t.parent c)) (by omega) hup hback hid'
        (hstack'.trans hstack) hshown' rfl
      refine ⟨s', returns_iter.mpr (.inr ⟨_, s₁, hround, hloop⟩), hrest, ?_⟩
      rw [hout', hout, hpath, hspell]
      simp only [List.append_assoc]

theorem Spells.returns_pwd (h : t.Spells path) (hc : t.isDir c) (hs : s.Cwd v c) :
    ∃ s', Returns pwd s OK s' ∧ s'.Back s.dirBuff.sector s.stack ∧
      s'.out = s.out ++ pathLine (path c) := by
  obtain ⟨s', hloop, hback, hout⟩ := h.returns_pwdLoop
    (s := { s with stack := s.dirBuff.sector :: s.stack }) (w := ⟨[], c⟩) hc hs rfl rfl rfl
  rw [List.append_nil] at hout
  refine ⟨s', ?_, hback, hout⟩
  unfold pwd
  rw [returns_globals_bind, returns_push_bind, returns_onDrive_bind]
  refine ⟨c, _, returns_sectorToCluster.mpr ⟨hs.on.spc_ne_zero, ?_, rfl⟩, hloop⟩
  exact (t.clusterOf_cwd hc hs).symm

end Volume.DirTree

namespace Volume.NamedTree

variable (t : v.NamedTree)

/-- The entry that the lookup in the parent stops at is that of the directory. -/
theorem name_of_finds {junk name : Name} (hc : t.isDir c) (hne : c ≠ v.bpb.rootCluster)
    (hd : d.Cwd v (t.parent c)) (hfind : d.FindsAs junk (startsAt c) d' name) :
    name = t.name c := by
  obtain ⟨hup, hdepth⟩ := t.up hc hne
  obtain ⟨x, hfirst', rfl, _⟩ := (t.lists hup).found hd hfind
  have hx := hfirst'.mem
  have hid := hfirst'.holds
  have hfirst : x.1.u.firstCluster = c ∧ x.1.u.firstCluster ≠ 0 := by
    rw [startsAt, Slot.clusterId] at hid
    by_cases hzero : x.1.u.firstCluster = 0
    · rw [if_pos hzero] at hid
      exact (hne (hid.symm.trans t.root_eq.symm)).elim
    · rw [if_neg hzero] at hid
      exact ⟨hid, hzero⟩
  have htarget : v.target x.1.u = c := by rw [Volume.target, if_neg hfirst.2, hfirst.1]
  rcases t.once hc hne hx hfirst.1 with hdot | hdotdot | hname
  · -- `.` leads to the parent itself
    have hsame : c = t.parent c := htarget.symm.trans (t.dot hup hx hdot)
    rw [← hsame] at hdepth
    omega
  · -- and `..` to the parent of the parent
    obtain ⟨hne', htarget'⟩ := t.dotdot hup hx hdotdot
    have hsame : c = t.parent (t.parent c) := htarget.symm.trans htarget'
    obtain ⟨_, hdepth'⟩ := t.up hup hne'
    rw [← hsame] at hdepth'
    omega
  · exact hname

/-! ### The way from the root -/

/-- The names of the directories on the way from the root to a directory of depth `n`. -/
def way : Nat → UInt32 → List Name
  | 0, _ => []
  | n + 1, c => way n (t.parent c) ++ [t.name c]

/-- The path that names the directory. -/
def path (c : UInt32) : Name := (t.way (t.depth c) c).flatMap fun name => ascii "/" ++ name

theorem path_root : t.path v.bpb.rootCluster = [] := by
  rw [path, t.depth_root]
  rfl

theorem path_of_ne (hc : t.isDir c) (hne : c ≠ v.bpb.rootCluster) :
    t.path c = t.path (t.parent c) ++ (ascii "/" ++ t.name c) := by
  rw [path, (t.up hc hne).2, way, List.flatMap_append, List.flatMap_singleton]
  rfl

theorem spells : t.Spells t.path where
  root := t.path_root
  up hc hne hd hfind := by rw [t.path_of_ne hc hne, t.name_of_finds hc hne hd hfind]

end Volume.NamedTree

/-- **pwd prints the path that names the working directory**, and leaves the cursor
    and the stack as they were. -/
theorem pwd_prints_path (t : v.NamedTree) (hc : t.isDir c) (hs : s.Cwd v c) :
    ∃ s', Returns pwd s OK s' ∧
      s'.out = s.out ++ (if c = v.bpb.rootCluster then ascii "/\n" else t.path c ++ ascii "\n") ∧
      s'.dirBuff.sector = s.dirBuff.sector ∧ s'.dirBuff.offset = s.dirBuff.offset ∧
      s'.sp = s.sp := by
  obtain ⟨s', hret, hback, hout⟩ := t.spells.returns_pwd hc hs
  refine ⟨s', hret, ?_, hback.cursor.atSector.sector, ?_, congrArg List.length hback.stack⟩
  · rw [hout, pathLine]
    by_cases hroot : c = v.bpb.rootCluster
    · rw [if_pos hroot, hroot, t.path_root, if_pos rfl]
    · have hne : t.path c ≠ [] := by
        rw [t.path_of_ne hc hroot]
        simp [ascii]
      rw [if_neg hroot, if_neg hne]
  · rw [hback.cursor.atSector.offset, hs.offset]

namespace Sample

def namedTree : volume.NamedTree where
  toDirTree := tree
  name _ := ascii "DIR"
  root_eq := rfl
  dot := by
    intro c junk x hc
    change x ∈ volume.decoded junk (slotsOf c) → _
    rw [decoded_slotsOf hc]
    rcases hc with rfl | rfl
    · revert x
      decide +kernel
    · revert x
      decide +kernel
  once := by
    intro c junk x hc hne
    change x ∈ volume.decoded junk (slotsOf 2) → _
    rw [decoded_slotsOf (.inl rfl)]
    rcases hc with rfl | rfl
    · exact (hne rfl).elim
    · revert x
      decide +kernel

end Sample

/-- In the directory `DIR` of the sample volume. -/
theorem pwd_prints_sample_path :
    ∃ s s' : Server, s.Cwd Sample.volume 3 ∧ Returns pwd s OK s' ∧
      s'.out = s.out ++ ascii "/DIR\n" := by
  obtain ⟨s, _, hcwd, _⟩ := Sample.mounted fun _ => []
  have hdir : (s.toDrive.jump (s.firstSectorOfCluster 3)).Cwd Sample.volume 3 :=
    ⟨hcwd.on.jump _, hcwd.on.at_jump_cluster Sample.isData.2.1⟩
  obtain ⟨s', hret, hout, _⟩ := pwd_prints_path
    (s := { s with toDrive := s.toDrive.jump (s.firstSectorOfCluster 3) })
    Sample.namedTree (.inr rfl) hdir
  exact ⟨_, s', hdir, hret, hout⟩

end Fat32s
