/-
  Fat32s/FileSystem.lean
  ======================
  **What the server is for: a read-only file system that is walked by name.**

  A file system has directories, and a directory lists entries.  An entry has a
  name, stands for a directory or a file, and carries what `cat` and `stat` show of
  it.  Clusters, slots, long names and the FAT do not occur.  Each directory has a
  way, the names that lead to it from the root, and the entries keep to it: `.` stays,
  `..` takes the last name off and any other name is put at the end.  `FileSystem.run`
  says what each command of `read.c` gives in a directory: a status, a text, and the
  directory it ends in.

  The second half reads a file system off a volume whose directories form a tree, with
  names of their own and the root at cluster 2, and shows that there the commands mean
  what `FileTree.answer` computes from the slots on the disk.
-/
import Fat32s.Answers

namespace Fat32s

open Fat32s.Lib Fat32s.Lib.Prog

/-! ### Paths as text -/

/-- The way from the root that a component gives when it is read as text. -/
def readName (way : List Name) (q : Name) : List Name :=
  if q = ascii "." then way else if q = ascii ".." then way.dropLast else way ++ [q]

def readNames (way : List Name) (qs : List Name) : List Name := qs.foldl readName way

/-- The text of a way, a slash before each name. -/
def spell (way : List Name) : Name := way.flatMap fun q => ascii "/" ++ q

/-- A name that can be a component of a path and is neither `.` nor `..`. -/
structure ProperName (q : Name) : Prop where
  ne_nil : q ≠ []
  chars : ∀ ch ∈ q, ch ≠ 0 ∧ ch ≠ 0x2F
  ne_dot : q ≠ ascii "."
  ne_dotdot : q ≠ ascii ".."

/-! ### The abstract file system -/

/-- An entry of a directory; `dir` is where it leads if it stands for a directory. -/
structure Node (D : Type) where
  name : Name
  isDir : Bool
  dir : D
  content : List UInt8
  info : List UInt8

/-- `banner` is what the volume has to say about itself when it is mounted.  The entries
    for directories keep to the ways, and the last name of a way is found where the rest
    of it leads. -/
structure FileSystem (D : Type) where
  root : D
  entries : D → List (Node D)
  banner : List UInt8
  isDir : D → Prop
  way : D → List Name
  isDir_root : isDir root
  way_root : way root = []
  leads : ∀ {d : D} {e : Node D}, isDir d → e ∈ entries d → e.isDir = true →
    isDir e.dir ∧ way e.dir = readName (way d) e.name
  listed : ∀ {d : D}, isDir d → d ≠ root → ∃ up e, isDir up ∧
    (entries up).find? (·.name = e.name) = some e ∧ e.isDir = true ∧ e.dir = d ∧
    ProperName e.name ∧ way d = way up ++ [e.name]

/-- The status of a command, what it prints, and the directory it ends in. -/
structure Report (D : Type) where
  status : Int
  text : List UInt8
  dir : D

namespace FileSystem

variable {D : Type} (fs : FileSystem D)

def find (d : D) (query : Name) : Option (Node D) := (fs.entries d).find? (·.name = query)

/-- Down a list of names, through directories only. -/
def goTo : D → List Name → Except Int D
  | d, [] => .ok d
  | d, q :: qs =>
    match fs.find d q with
    | none => .error 1
    | some e => if e.isDir then goTo e.dir qs else .error 2

/-- The entry that the last of the names stands for.  It has to be a directory or not,
    as `isDir` says. -/
def nodeAt (d : D) (qs : List Name) (isDir : Bool) : Except Int (Node D) :=
  match qs.getLast? with
  | none => .error 1
  | some q => (fs.goTo d qs.dropLast).bind fun d' =>
    match fs.find d' q with
    | none => .error 1
    | some e => if e.isDir = isDir then .ok e else .error 2

def listing (d : D) : List UInt8 :=
  (fs.entries d).flatMap fun e => (if e.isDir then ascii "[*]" else []) ++ e.name ++ ascii "\n"

/-- `stat` of a name in the directory `d'`, for a client that stays in `d`. -/
def describe (d d' : D) (name : Name) : Report D :=
  match fs.find d' name with
  | none => ⟨1, [], d⟩
  | some e => ⟨OK, e.info ++ line "        long_name: " name " \n", d⟩

def run (d : D) : Command → Report D
  | .pwd => ⟨OK, pathLine (spell (fs.way d)), d⟩
  | .cd path =>
    match fs.goTo d (components (cstr path)) with
    | .error status => ⟨status, [], d⟩
    | .ok d' => ⟨0, [], d'⟩
  | .ls path =>
    if path = ascii "." then ⟨OK, fs.listing d, d⟩
    else
      match fs.goTo d (components (cstr path)) with
      | .error status => ⟨status, [], d⟩
      | .ok d' => ⟨OK, fs.listing d', d⟩
  -- a path that ends in a slash has to name a directory, one that does not a file
  | .cat path =>
    match fs.nodeAt d (components (cstr path)) ((cstr path).getLast? == some 0x2F) with
    | .error status => ⟨status, [], d⟩
    | .ok e => ⟨OK, shown e.content ++ ascii "^EOF\n", d⟩
  | .stat path =>
    match lastSlash path (path.length - 1) with
    | none => fs.describe d d path
    | some i =>
      match fs.goTo d (components (cstr (path.take i))) with
      | .error status => ⟨status, [], d⟩
      | .ok d' => fs.describe d d' (path.drop (i + 1))

theorem goTo_append (d : D) (xs ys : List Name) :
    fs.goTo d (xs ++ ys) = (fs.goTo d xs).bind fun d' => fs.goTo d' ys := by
  induction xs generalizing d with
  | nil => rfl
  | cons x xs ih =>
    rw [List.cons_append, goTo, goTo]
    cases fs.find d x with
    | none => rfl
    | some e =>
      simp only
      split
      · exact ih e.dir
      · rfl

/-- Only cd moves. -/
theorem run_dir_of_ne_cd {d : D} {cmd : Command} (h : ∀ path, cmd ≠ .cd path) :
    (fs.run d cmd).dir = d := by
  cases cmd with
  | pwd => rfl
  | cd path => exact (h path rfl).elim
  | ls path =>
    simp only [run]
    split
    · rfl
    · split
      · rfl
      · rfl
  | cat path =>
    simp only [run]
    split
    · rfl
    · rfl
  | stat path =>
    have hstays : ∀ (d' : D) (name : Name), (fs.describe d d' name).dir = d := by
      intro d' name
      unfold describe
      split
      · rfl
      · rfl
    simp only [run]
    split
    · exact hstays d path
    · split
      · rfl
      · exact hstays _ _

theorem goTo_error {fs : FileSystem D} {d : D} {qs : List Name} {e : Int}
    (h : fs.goTo d qs = .error e) : e = 1 ∨ e = 2 := by
  induction qs generalizing d with
  | nil => cases h
  | cons q qs ih =>
    rw [goTo] at h
    cases hfind : fs.find d q with
    | none =>
      rw [hfind] at h
      cases h
      exact .inl rfl
    | some node =>
      rw [hfind] at h
      simp only at h
      split at h
      · exact ih h
      · cases h
        exact .inr rfl

/-- Going somewhere and reading the way there as text come to the same. -/
theorem goTo_way {d d' : D} {qs : List Name} (hd : fs.isDir d) (h : fs.goTo d qs = .ok d') :
    fs.isDir d' ∧ fs.way d' = readNames (fs.way d) qs := by
  induction qs generalizing d with
  | nil =>
    cases h
    exact ⟨hd, rfl⟩
  | cons q qs ih =>
    rw [goTo] at h
    cases hfind : fs.find d q with
    | none =>
      rw [hfind] at h
      cases h
    | some e =>
      rw [hfind] at h
      have hname : e.name = q := by simpa using List.find?_some hfind
      cases hdir : e.isDir with
      | false =>
        simp only [hdir] at h
        cases h
      | true =>
        simp only [hdir, if_true] at h
        obtain ⟨he, hway⟩ := fs.leads hd (List.mem_of_find?_eq_some hfind) hdir
        obtain ⟨hd', hrest⟩ := ih he h
        refine ⟨hd', hrest.trans ?_⟩
        rw [hway, hname]
        rfl

theorem goTo_found {up : D} {e : Node D} (hfind : fs.find up e.name = some e)
    (hdir : e.isDir = true) : fs.goTo up [e.name] = .ok e.dir := by
  simp [goTo, hfind, hdir]

/-- The way of a directory leads to it. -/
theorem goTo_root {d : D} (hd : fs.isDir d) :
    fs.goTo fs.root (fs.way d) = .ok d ∧ ∀ q ∈ fs.way d, ProperName q := by
  -- induction on the length of the way, which is one more than that of the directory above
  generalize hn : (fs.way d).length = n
  induction n generalizing d with
  | zero =>
    have hroot : d = fs.root := by
      apply Classical.byContradiction
      intro hne
      obtain ⟨up, e, _, _, _, _, _, hway⟩ := fs.listed hd hne
      rw [hway, List.length_append] at hn
      simp at hn
    rw [hroot, fs.way_root]
    exact ⟨rfl, by simp⟩
  | succ n ih =>
    have hne : d ≠ fs.root := by
      rintro rfl
      rw [fs.way_root] at hn
      cases hn
    obtain ⟨up, e, hup, hfind, hdir, rfl, hname, hway⟩ := fs.listed hd hne
    rw [hway, List.length_append, List.length_singleton] at hn
    obtain ⟨hgo, hnames⟩ := ih hup (by omega)
    rw [hway]
    refine ⟨?_, ?_⟩
    · rw [goTo_append, hgo]
      exact fs.goTo_found hfind hdir
    · intro q hq
      rcases List.mem_append.mp hq with hq | hq
      · exact hnames q hq
      · rw [List.mem_singleton.mp hq]
        exact hname

end FileSystem

/-! ### The file system of a volume -/

/-- A tree of directories with names of their own: no other entry of the parent goes by
    the name of a directory. -/
structure Volume.OrderlyTree (v : Volume) extends v.FileTree, v.NamedTree where
  child : ∀ {c : UInt32} {x : DirEntry × Name}, isDir c → x ∈ v.decoded [] (slots c) →
    x.1.isDirectory = true → x.2 ≠ ascii "." → x.2 ≠ ascii ".." →
    v.target x.1.u ≠ v.bpb.rootCluster ∧ parent (v.target x.1.u) = c
  own : ∀ {c : UInt32} {x : DirEntry × Name}, isDir c → c ≠ v.bpb.rootCluster →
    x ∈ v.decoded [] (slots (parent c)) → x.2 = name c →
    x.1.isDirectory = true ∧ x.1.u.firstCluster = c
  proper : ∀ {c : UInt32}, isDir c → c ≠ v.bpb.rootCluster → ProperName (name c)
  nonempty : ∀ {c : UInt32} {x : DirEntry × Name}, isDir c → x ∈ v.decoded [] (slots c) → x.2 ≠ []

/-- What `print_welcome_stats` prints for a device. -/
def Device.welcome (dev : Device) : List UInt8 :=
  ((Server.initial fun _ => []).withGeometry dev).welcomeStats

namespace Volume.FileTree

variable {v : Volume} (t : v.FileTree)

/-- An entry of a directory, under the name it goes by. -/
def node (name : Name) (u : Slot) : Node UInt32 where
  name := name
  isDir := u.entry.isDirectory
  dir := v.target u
  content := t.fileBytes u
  info := u.text []

/-- Directories are known by their first clusters. -/
def nodes (c : UInt32) : List (Node UInt32) :=
  (v.decoded [] (t.slots c)).map fun x => t.node x.2 x.1.u

theorem find_nodes (c : UInt32) (q : Name) :
    (t.nodes c).find? (·.name = q) = (v.lookup [] (t.slots c) q).map (t.node q) := by
  simp only [nodes, List.find?_map, Volume.lookup, Option.map_map]
  cases hfind : (v.decoded [] (t.slots c)).find? (·.2 = q) with
  | none =>
    have hnone : (v.decoded [] (t.slots c)).find?
        ((fun e : Node UInt32 => decide (e.name = q)) ∘ fun x => t.node x.2 x.1.u) = none := hfind
    rw [hnone]
    rfl
  | some x =>
    have hsome : (v.decoded [] (t.slots c)).find?
        ((fun e : Node UInt32 => decide (e.name = q)) ∘ fun x => t.node x.2 x.1.u) = some x := hfind
    have hname : x.2 = q := by simpa using List.find?_some hfind
    rw [hsome, ← hname]
    rfl

end Volume.FileTree

namespace Volume.OrderlyTree

variable {v : Volume} (t : v.OrderlyTree) {c : UInt32} {x : DirEntry × Name}

def wayOf (c : UInt32) : List Name := t.way (t.depth c) c

theorem wayOf_root : t.wayOf v.bpb.rootCluster = [] := by
  rw [wayOf, t.depth_root]
  rfl

theorem wayOf_of_ne (hc : t.isDir c) (hne : c ≠ v.bpb.rootCluster) :
    t.wayOf c = t.wayOf (t.parent c) ++ [t.name c] := by
  rw [wayOf, (t.up hc hne).2]
  rfl

theorem target_of_firstCluster (hc : t.isDir c) (h : x.1.u.firstCluster = c) :
    v.target x.1.u = c := by
  have hpos := (t.isData hc).1
  rw [Volume.target, h, if_neg]
  rintro rfl
  cases hpos

theorem firstCluster_of_target (h : v.target x.1.u ≠ v.bpb.rootCluster) :
    x.1.u.firstCluster = v.target x.1.u := by
  rw [Volume.target] at h ⊢
  split
  · next hzero => rw [if_pos hzero] at h; exact (h rfl).elim
  · rfl

/-- An entry of the parent that starts at the cluster of the directory has its name. -/
theorem name_of_listed (hc : t.isDir c) (hne : c ≠ v.bpb.rootCluster)
    (hx : x ∈ v.decoded [] (t.slots (t.parent c))) (h : x.1.u.firstCluster = c) :
    x.2 = t.name c := by
  obtain ⟨hup, hdepth⟩ := t.up hc hne
  have htarget := t.target_of_firstCluster hc h
  rcases t.once hc hne hx h with hdot | hdotdot | hname
  · -- `.` leads to the parent itself
    have hsame : c = t.parent c := htarget.symm.trans (t.dot hup hx hdot)
    rw [← hsame] at hdepth
    omega
  · -- and `..` to the parent of the parent
    obtain ⟨hne', htarget'⟩ := t.dotdot hup hx hdotdot
    have hsame : c = t.parent (t.parent c) := htarget.symm.trans htarget'
    have hdepth' := (t.up hup hne').2
    rw [← hsame] at hdepth'
    omega
  · exact hname

theorem nameOf_eq (hc : t.isDir c) (hne : c ≠ v.bpb.rootCluster) : t.nameOf c = t.name c := by
  obtain ⟨x, hx, hfirst⟩ := t.listed [] hc hne
  have hzero : c ≠ 0 := by
    rintro rfl
    cases (t.isData hc).1
  cases hfind : (v.decoded [] (t.slots (t.parent c))).find? (fun x => x.1.u.clusterId = c) with
  | none =>
    have hnone := List.find?_eq_none.mp hfind x hx
    rw [Slot.clusterId, if_neg (hfirst ▸ hzero)] at hnone
    simp [hfirst] at hnone
  | some y =>
    rw [Volume.DirTree.nameOf, hfind]
    have hid : y.1.u.clusterId = c := by simpa using List.find?_some hfind
    refine t.name_of_listed hc hne (List.mem_of_find?_eq_some hfind) ?_
    rw [Slot.clusterId] at hid
    split at hid
    · exact (hne (hid.symm.trans t.root_eq.symm)).elim
    · exact hid

theorem wayTo_eq_spell (hc : t.isDir c) : t.wayTo (t.depth c) c = spell (t.wayOf c) := by
  generalize hn : t.depth c = n
  induction n generalizing c with
  | zero => rw [wayOf, hn]; rfl
  | succ n ih =>
    have hne : c ≠ v.bpb.rootCluster := by
      rintro rfl
      rw [t.depth_root] at hn
      cases hn
    obtain ⟨hup, hdepth⟩ := t.up hc hne
    rw [Volume.DirTree.wayTo, ih hup (by omega), t.nameOf_eq hc hne, t.wayOf_of_ne hc hne]
    simp [spell]

/-- An entry for a directory leads where its name says. -/
theorem wayOf_target (hc : t.isDir c) (hx : x ∈ v.decoded [] (t.slots c))
    (hdir : x.1.isDirectory = true) :
    t.isDir (v.target x.1.u) ∧ t.wayOf (v.target x.1.u) = readName (t.wayOf c) x.2 := by
  obtain ⟨a, ha, hentry, htype⟩ := mem_decoded hx
  have hisDir : t.isDir (v.target x.1.u) := by
    rw [hentry] at htype hdir ⊢
    exact t.leads hc ha htype hdir
  refine ⟨hisDir, ?_⟩
  by_cases hdot : x.2 = ascii "."
  · rw [readName, if_pos hdot, t.dot hc hx hdot]
  by_cases hdotdot : x.2 = ascii ".."
  · obtain ⟨hne, htarget⟩ := t.dotdot hc hx hdotdot
    rw [readName, if_neg hdot, if_pos hdotdot, htarget, t.wayOf_of_ne hc hne, List.dropLast_concat]
  · obtain ⟨hne, hparent⟩ := t.child hc hx hdir hdot hdotdot
    have hname : x.2 = t.name (v.target x.1.u) := by
      refine t.name_of_listed hisDir hne ?_ (firstCluster_of_target hne)
      rw [hparent]
      exact hx
    rw [readName, if_neg hdot, if_neg hdotdot, t.wayOf_of_ne hisDir hne, hparent, ← hname]

/-- The name of a directory finds it in its parent. -/
theorem find_name (hc : t.isDir c) (hne : c ≠ v.bpb.rootCluster) :
    ∃ u, (t.nodes (t.parent c)).find? (·.name = t.name c) = some (t.node (t.name c) u) ∧
      u.entry.isDirectory = true ∧ v.target u = c := by
  obtain ⟨x, hx, hfirst⟩ := t.listed [] hc hne
  have hname := t.name_of_listed hc hne hx hfirst
  cases hfind : (v.decoded [] (t.slots (t.parent c))).find? (·.2 = t.name c) with
  | none =>
    have hnone := List.find?_eq_none.mp hfind x hx
    simp [hname] at hnone
  | some y =>
    have hy : y.2 = t.name c := by simpa using List.find?_some hfind
    obtain ⟨hdir, hfirst'⟩ := t.own hc hne (List.mem_of_find?_eq_some hfind) hy
    refine ⟨y.1.u, ?_, hdir, t.target_of_firstCluster hc hfirst'⟩
    rw [Volume.FileTree.find_nodes, Volume.lookup, hfind]
    rfl

def fileSystem : FileSystem UInt32 where
  root := v.bpb.rootCluster
  entries := t.nodes
  banner := v.dev.welcome
  isDir := t.isDir
  way := t.wayOf
  isDir_root := t.root
  way_root := t.wayOf_root
  leads := by
    intro c e hc he hdir
    obtain ⟨x, hx, rfl⟩ := List.mem_map.mp he
    exact t.wayOf_target hc hx hdir
  listed := by
    intro c hc hne
    obtain ⟨u, hfind, hdir, htarget⟩ := t.find_name hc hne
    exact ⟨t.parent c, t.node (t.name c) u, (t.up hc hne).1, hfind, hdir, htarget,
      t.proper hc hne, t.wayOf_of_ne hc hne⟩

/-! ### Commands on a volume -/

theorem find_eq (c : UInt32) (q : Name) :
    t.fileSystem.find c q = (v.lookup [] (t.slots c) q).map (t.node q) := t.find_nodes c q

theorem goTo_eq (c : UInt32) (qs : List Name) : t.fileSystem.goTo c qs = t.goTo c qs := by
  induction qs generalizing c with
  | nil => rfl
  | cons q qs ih =>
    rw [FileSystem.goTo, Volume.Dirs.goTo, find_eq]
    cases v.lookup [] (t.slots c) q with
    | none => rfl
    | some u =>
      change (if u.entry.isDirectory then t.fileSystem.goTo (v.target u) qs else _) = _
      rw [ih]

theorem passes_eq (ends isDir : Bool) : passes false true ends isDir = (isDir == ends) := by
  cases ends
  · cases isDir <;> rfl
  · cases isDir <;> rfl

/-- The file that cat prints, in terms of the segments that `walk` visits. -/
theorem nodeAt_eq {path : Name} (hne : path ≠ []) :
    t.fileSystem.nodeAt c (components path) (path.getLast? == some 0x2F) =
      match t.follow false true c (segments path) with
      | .error status => .error status
      | .ok none => .error 1
      | .ok (some u) => .ok (t.node ((components path).getLastD []) u) := by
  have hcomps : components path ≠ [] := by
    intro hnil
    have hsegs := segments_eq_marked path
    rw [hnil] at hsegs
    exact segments_ne_nil hne hsegs
  rw [segments_eq_marked]
  rcases List.eq_nil_or_concat (components path) with hnil | ⟨xs, q, hsplit⟩
  · exact (hcomps hnil).elim
  rw [List.concat_eq_append] at hsplit
  rw [hsplit, t.follow_marked, FileSystem.nodeAt, List.getLast?_concat, List.dropLast_concat]
  simp only [goTo_eq]
  cases t.goTo c xs with
  | error status => rfl
  | ok c' =>
    simp only [Except.bind, find_eq, Volume.Dirs.follow]
    cases v.lookup [] (t.slots c') q with
    | none => rfl
    | some u =>
      simp only [Option.map_some, passes_eq, beq_iff_eq]
      change (if u.entry.isDirectory = _ then _ else _) = _
      by_cases hkind : u.entry.isDirectory = (path.getLast? == some 0x2F)
      · rw [if_pos hkind, if_pos hkind]
        simp [Except.map]
      · rw [if_neg hkind, if_neg hkind]

theorem cd_eq (c : UInt32) (path : Name) :
    t.cdAnswer c path = ⟨(t.fileSystem.run c (.cd path)).status,
      (t.fileSystem.run c (.cd path)).text, (t.fileSystem.run c (.cd path)).dir⟩ := by
  simp only [Volume.Dirs.cdAnswer, FileSystem.run, goTo_eq]
  cases t.goTo c (components (cstr path)) with
  | error status => rfl
  | ok c' => rfl

theorem listing_eq (c : UInt32) : t.listing c = t.fileSystem.listing c := by
  simp only [Volume.Dirs.listing, FileSystem.listing, fileSystem, Volume.FileTree.nodes,
    List.flatMap_map]
  rfl

theorem ls_eq (c : UInt32) (path : Name) :
    t.lsAnswer c path = ⟨(t.fileSystem.run c (.ls path)).status,
      (t.fileSystem.run c (.ls path)).text, (t.fileSystem.run c (.ls path)).dir⟩ := by
  simp only [Volume.Dirs.lsAnswer, FileSystem.run, goTo_eq, listing_eq]
  split
  · rfl
  · cases t.goTo c (components (cstr path)) with
    | error status => rfl
    | ok c' => rfl

theorem describe_eq (c c' : UInt32) (name : Name) :
    t.entryAnswer c c' name = ⟨(t.fileSystem.describe c c' name).status,
      (t.fileSystem.describe c c' name).text, (t.fileSystem.describe c c' name).dir⟩ := by
  simp only [Volume.Dirs.entryAnswer, FileSystem.describe, find_eq]
  cases v.lookup [] (t.slots c') name with
  | none => rfl
  | some u => rfl

theorem stat_eq (c : UInt32) (path : Name) :
    t.statAnswer c path = ⟨(t.fileSystem.run c (.stat path)).status,
      (t.fileSystem.run c (.stat path)).text, (t.fileSystem.run c (.stat path)).dir⟩ := by
  simp only [Volume.Dirs.statAnswer, FileSystem.run, goTo_eq]
  cases lastSlash path (path.length - 1) with
  | none => exact t.describe_eq c c path
  | some i =>
    simp only
    cases t.goTo c (components (cstr (path.take i))) with
    | error status => rfl
    | ok c' => exact t.describe_eq c c' _

theorem cat_eq (c : UInt32) {path : Name} (hne : cstr path ≠ []) :
    t.catAnswer c path = ⟨(t.fileSystem.run c (.cat path)).status,
      (t.fileSystem.run c (.cat path)).text, (t.fileSystem.run c (.cat path)).dir⟩ := by
  simp only [Volume.FileTree.catAnswer, FileSystem.run, t.nodeAt_eq hne]
  cases hfollow : t.follow false true c (segments (cstr path)) with
  | error status => rfl
  | ok last =>
    cases last with
    | none => exact (t.follow_ne_none (segments_ne_nil hne) hfollow).elim
    | some u => rfl

theorem pwd_eq (hc : t.isDir c) :
    t.pwdAnswer c = ⟨OK, pathLine (spell (t.fileSystem.way c)), c⟩ := by
  rw [Volume.FileTree.pwdAnswer, t.wayTo_eq_spell hc]
  rfl

theorem answer_eq (hc : t.isDir c) {cmd : Command}
    (hcat : ∀ path, cmd = .cat path → cstr path ≠ []) :
    t.answer c cmd = ⟨(t.fileSystem.run c cmd).status, (t.fileSystem.run c cmd).text,
      (t.fileSystem.run c cmd).dir⟩ := by
  cases cmd with
  | pwd => exact t.pwd_eq hc
  | cd path => exact t.cd_eq c path
  | ls path => exact t.ls_eq c path
  | cat path => exact t.cat_eq c (hcat path rfl)
  | stat path => exact t.stat_eq c path

/-- Every command that the server runs gives what the file system says. -/
theorem gives_run {s : Server} (hc : t.isDir c) (hs : s.Cwd v c) {cmd : Command}
    (hcat : ∀ path, cmd = .cat path → cstr path ≠ []) :
    ∃ s', Returns cmd.run s (t.fileSystem.run c cmd).status s' ∧
      s'.Cwd v (t.fileSystem.run c cmd).dir ∧ s'.stack = s.stack ∧
      s'.out = s.out ++ (t.fileSystem.run c cmd).text := by
  have hgives : Gives cmd.run s v (t.answer c cmd) := by
    cases cmd with
    | pwd => exact t.gives_pwd hc hs
    | cd path => exact t.gives_cd t.plain hc hs path
    | ls path => exact t.gives_ls t.plain hc hs path
    | cat path => exact t.gives_cat hc hs (hcat path rfl)
    | stat path => exact t.gives_stat t.plain hc hs path
  rw [t.answer_eq hc hcat] at hgives
  exact hgives

/-- The directory it ends in is one of the tree. -/
theorem run_isDir (hc : t.isDir c) (cmd : Command) : t.isDir (t.fileSystem.run c cmd).dir := by
  cases cmd with
  | cd path =>
    simp only [FileSystem.run, goTo_eq]
    cases hgo : t.goTo c (components (cstr path)) with
    | error status => exact hc
    | ok c' => exact t.goTo_isDir hc hgo
  | pwd => exact hc
  | ls path =>
    rw [FileSystem.run_dir_of_ne_cd _ (fun _ h => by cases h)]
    exact hc
  | cat path =>
    rw [FileSystem.run_dir_of_ne_cd _ (fun _ h => by cases h)]
    exact hc
  | stat path =>
    rw [FileSystem.run_dir_of_ne_cd _ (fun _ h => by cases h)]
    exact hc

end Volume.OrderlyTree

namespace Sample

def orderlyTree : volume.OrderlyTree where
  toFileTree := fileTree
  name := namedTree.name
  root_eq := namedTree.root_eq
  dot := namedTree.dot
  once := namedTree.once
  child := by
    intro c x hc
    change x ∈ volume.decoded [] (slotsOf c) → _
    rcases hc with rfl | rfl
    · revert x
      decide +kernel
    · revert x
      decide +kernel
  own := by
    intro c x hc hne
    change x ∈ volume.decoded [] (slotsOf 2) → _
    rcases hc with rfl | rfl
    · exact (hne rfl).elim
    · revert x
      decide +kernel
  proper _ _ :=
    (⟨by decide, by decide +kernel, by decide, by decide⟩ : ProperName (ascii "DIR"))
  nonempty := by
    intro c x hc
    change x ∈ volume.decoded [] (slotsOf c) → _
    rcases hc with rfl | rfl
    · revert x
      decide +kernel
    · revert x
      decide +kernel

end Sample

end Fat32s
