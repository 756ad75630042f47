/-
  Fat32s/Agreement.lean
  =====================
  **Where the commands agree on what a path names.**

  A path names an entry: its last component, looked up in the directory that the
  others lead to.  cd and ls agree on it but for `.`, which ls does not look up.
  A path that is empty or ends in a `/` escapes the flags of `walk`, which are only
  looked at where the path ends.  And `_stat`, which cuts the last component off by
  itself, takes slashes that end a path for a part of the name, and does not see
  those that are doubled before it.
-/
import Fat32s.Answers

namespace Fat32s

open Fat32s.Lib Fat32s.Lib.Prog

variable {v : Volume} {s s' : Server} {c : UInt32} {path : Name}

/-! ### The entry that a path names -/

namespace Volume.Dirs

variable (t : v.Dirs)

/-- A walk with flags, in terms of the entry: it returns 0 if the path has no
    component, or names an entry that it does not stop at, to which it then has hopped. -/
theorem walk_names (hplain : t.Plain) (hc : t.isDir c) (hs : s.Cwd v c) (path : Name)
    (flags : Nat) :
    ∃ r s', Returns (walk path flags) s r s' ∧
      (r = 0 ↔ cstr path = [] ∨ ∃ u, t.entryOf c (components (cstr path)) = some u ∧
        passes (bansFiles flags) (bansDirs flags) ((cstr path).getLast? == some 0x2F)
          u.entry.isDirectory = true) ∧
      (r = 0 → ∀ u, t.entryOf c (components (cstr path)) = some u → s.Hopped s' v u) := by
  obtain ⟨r, s', hwalk, hend⟩ := t.returns_walk hplain hc hs path flags
  refine ⟨r, s', hwalk, ?_⟩
  have hne : ∀ {e : Int},
      t.follow (bansFiles flags) (bansDirs flags) c (segments (cstr path)) = .error e → e ≠ 0 :=
    t.follow_error
  have hsome := fun u => t.follow_segments (bansFiles flags) (bansDirs flags) c (cstr path) u
  by_cases hpath : cstr path = []
  · rw [hpath] at hend ⊢
    cases hend
    exact ⟨⟨fun _ => .inl rfl, fun _ => rfl⟩, fun _ u h => by cases h⟩
  have hnone : t.follow (bansFiles flags) (bansDirs flags) c (segments (cstr path)) ≠ .ok none :=
    t.follow_ne_none (segments_ne_nil hpath)
  generalize t.follow (bansFiles flags) (bansDirs flags) c (segments (cstr path)) = o
    at hend hne hsome hnone
  cases hend with
  | failed _ _ _ _ =>
    refine ⟨⟨fun hzero => (hne rfl hzero).elim, ?_⟩, fun hzero => (hne rfl hzero).elim⟩
    rintro (hnil | ⟨u, hu⟩)
    · exact (hpath hnil).elim
    · cases (hsome u).mpr hu
  | stayed => exact (hnone rfl).elim
  | @arrived w _ hhop =>
    have hw := (hsome w).mp rfl
    refine ⟨⟨fun _ => .inr ⟨w, hw⟩, fun _ => rfl⟩, ?_⟩
    intro _ u hu
    obtain rfl := Option.some.inj (hw.1.symm.trans hu)
    exact hhop

end Volume.Dirs

/-- And so for cat, which prints nothing unless it returns 0. -/
theorem Volume.FileTree.cat_names (t : v.FileTree) (hc : t.isDir c) (hs : s.Cwd v c)
    (hpath : cstr path ≠ []) :
    ∃ r s', Returns (cat path) s r s' ∧
      (r = 0 → ∃ u, t.entryOf c (components (cstr path)) = some u ∧
        passes false true ((cstr path).getLast? == some 0x2F) u.entry.isDirectory = true) ∧
      (r ≠ 0 → s'.out = s.out) := by
  obtain ⟨s', hcat, _, _, hout⟩ := t.gives_cat hc hs hpath
  refine ⟨_, s', hcat, ?_⟩
  unfold Volume.FileTree.catAnswer at hout ⊢
  cases hfollow : t.follow false true c (segments (cstr path)) with
  | error e =>
    rw [hfollow] at hout
    refine ⟨fun hr => (t.follow_error hfollow hr).elim, fun _ => ?_⟩
    rw [hout, List.append_nil]
  | ok last =>
    cases last with
    | none => exact (t.follow_ne_none (segments_ne_nil hpath) hfollow).elim
    | some u =>
      have hu := (t.follow_segments false true c (cstr path) u).mp hfollow
      exact ⟨fun _ => ⟨u, hu⟩, fun hr => (hr rfl).elim⟩

/-! ### The flags of walk -/

/-- The path names an entry, and this is not a directory. -/
def Volume.Dirs.NamesFile (t : v.Dirs) (c : UInt32) (path : Name) (u : Slot) : Prop :=
  t.entryOf c (components (cstr path)) = some u ∧ u.entry.isDirectory = false

/-- What the flags of `walk` are for, and what cat makes of it. -/
structure Volume.Dirs.HonoursFlags (t : v.Dirs) (s : Server) (c : UInt32) (path : Name) : Prop where
  banDirs : ∃ r s', Returns (walk path WALK_BAN_DIRS) s r s' ∧
    (r = 0 → ∃ u, t.NamesFile c path u ∧ s.Hopped s' v u)
  banFiles : ∃ r s', Returns (walk path WALK_BAN_FILES) s r s' ∧
    (r = 0 → ∃ c', t.isDir c' ∧ s'.Cwd v c')
  cat : ∃ r s', Returns (cat path) s r s' ∧ (r = 0 → ∃ u, t.NamesFile c path u) ∧
    (r ≠ 0 → s'.out = s.out)

/-- The flag is looked at where a path ends that does not end in a `/`. -/
theorem passes_banDirs (isDir : Bool) : passes false true false isDir = !isDir := by
  cases isDir <;> rfl

/-- **walk honours its flags where a path ends without a `/`.**  The two kinds of paths
    that escape the flag for directories are the empty one, for which `walk` returns 0
    without a lookup, and those that end in a `/` and name a directory. -/
theorem walk_honours_flags_iff (t : v.FileTree) (hc : t.isDir c) (hs : s.Cwd v c) (path : Name) :
    t.HonoursFlags s c path ↔ cstr path ≠ [] ∧
      ((cstr path).getLast? = some 0x2F →
        ∀ u, t.entryOf c (components (cstr path)) = some u → u.entry.isDirectory = false) := by
  obtain ⟨r, s₁, hwalk, hzero, hhop⟩ := t.walk_names t.plain hc hs path WALK_BAN_DIRS
  change (r = 0 ↔ _ ∨ ∃ u, _ ∧ passes false true _ _ = true) at hzero
  constructor
  · intro h
    obtain ⟨r', s', hwalk', hfile⟩ := h.banDirs
    obtain ⟨rfl, rfl⟩ := hwalk'.unique hwalk
    constructor
    · intro hnil
      obtain ⟨u, hu, _⟩ := hfile (hzero.mpr (.inl hnil))
      rw [Volume.Dirs.NamesFile, hnil] at hu
      cases hu.1
    · intro hslash u hu
      by_contra hdir
      obtain ⟨w, hw, _⟩ := hfile (hzero.mpr (.inr ⟨u, hu, by simp [hslash, hdir, passes]⟩))
      obtain rfl := Option.some.inj (hu.symm.trans hw.1)
      exact hdir hw.2
  · rintro ⟨hne, hslash⟩
    have hfile : ∀ {u : Slot}, t.entryOf c (components (cstr path)) = some u →
        passes false true ((cstr path).getLast? == some 0x2F) u.entry.isDirectory = true →
        t.NamesFile c path u := by
      intro u hu hpass
      refine ⟨hu, ?_⟩
      cases hends : ((cstr path).getLast? == some 0x2F) with
      | true => exact hslash (by simpa using hends) u hu
      | false =>
        rw [hends, passes_banDirs] at hpass
        simpa using hpass
    refine ⟨⟨r, s₁, hwalk, ?_⟩, ?_, ?_⟩
    · intro hr
      rcases hzero.mp hr with hnil | ⟨u, hu, hpass⟩
      · exact (hne hnil).elim
      · exact ⟨u, hfile hu hpass, hhop hr u hu⟩
    · obtain ⟨r', s', hwalk', hgo⟩ := t.walk_goesTo t.plain hc hs path
      refine ⟨r', s', hwalk', ?_⟩
      intro hr
      have hcwd := hgo.cwd
      cases hgo' : t.goTo c (components (cstr path)) with
      | error e =>
        rw [hgo'] at hcwd
        exact (hcwd.2.1 (hcwd.1.symm.trans hr)).elim
      | ok c' =>
        rw [hgo'] at hcwd
        exact ⟨c', t.goTo_isDir hc hgo', hcwd.2⟩
    · obtain ⟨r', s', hcat, hnames, hout⟩ := t.cat_names hc hs hne
      refine ⟨r', s', hcat, ?_, hout⟩
      intro hr
      obtain ⟨u, hu, hpass⟩ := hnames hr
      exact ⟨u, hfile hu hpass⟩

/-- On the sample volume, the path of the file in its directory. -/
theorem walk_honours_flags_on_sample :
    ∃ s, Returns (doMount (diskEnv Sample.volume.dev) mountMessage)
        (Server.initial fun _ => []) OK s ∧
      Sample.fileTree.HonoursFlags s 2 (ascii "DIR/B.TXT") := by
  obtain ⟨s, hmount, hcwd, _⟩ := Sample.mounted fun _ => []
  have hlast : (cstr (ascii "DIR/B.TXT")).getLast? ≠ some 0x2F := by decide
  refine ⟨s, hmount, (walk_honours_flags_iff Sample.fileTree (.inl rfl) hcwd _).mpr ⟨by decide, ?_⟩⟩
  intro h
  exact (hlast h).elim

/-- A directory is walked to, and printed, in spite of the flag, when the path ends in
    a `/`; and with the empty path cat prints without having looked up anything. -/
theorem walk_escapes_flags :
    ∃ s s' s₁ s₂, Returns (doMount (diskEnv Sample.volume.dev) mountMessage)
        (Server.initial fun _ => []) OK s ∧
      Returns (walk (ascii "DIR/") WALK_BAN_DIRS) s 0 s' ∧
      (Sample.fileTree.entryOf 2 [ascii "DIR"]).any (·.entry.isDirectory) = true ∧
      Returns (cat (ascii "DIR/")) s OK s₁ ∧ s₁.out = s.out ++ ascii "^EOF\n" ∧
      Returns (cat []) s OK s₂ ∧ s₂.out ≠ s.out ∧
      ¬ Sample.fileTree.HonoursFlags s 2 (ascii "DIR/") ∧
      ¬ Sample.fileTree.HonoursFlags s 2 [] := by
  obtain ⟨s, hmount, _⟩ := Sample.mounted fun _ => []
  obtain ⟨r, s', hwalk, hr⟩ := Sample.returns_mounted (walk (ascii "DIR/") WALK_BAN_DIRS) 10
    (fun _ r _ => r = 0) (by decide +kernel) hmount
  obtain ⟨r₁, s₁, hcat₁, h₁⟩ := Sample.returns_mounted (cat (ascii "DIR/")) 10
    (fun s r s' => r = OK && s'.out = s.out ++ ascii "^EOF\n") (by decide +kernel) hmount
  obtain ⟨r₂, s₂, hcat₂, h₂⟩ := Sample.returns_mounted (cat []) 10
    (fun s r s' => r = OK && s'.out ≠ s.out) (by decide +kernel) hmount
  simp only [Bool.and_eq_true, decide_eq_true_eq] at hr h₁ h₂
  obtain ⟨rfl, hout₁⟩ := h₁
  obtain ⟨rfl, hout₂⟩ := h₂
  subst hr
  have hdir : (Sample.fileTree.entryOf 2 [ascii "DIR"]).any (·.entry.isDirectory) = true := by
    decide +kernel
  refine ⟨s, s', s₁, s₂, hmount, hwalk, hdir, hcat₁, hout₁, hcat₂, hout₂, ?_, ?_⟩
  · intro h
    obtain ⟨r, s', hwalk', hfile⟩ := h.banDirs
    obtain ⟨rfl, rfl⟩ := hwalk'.unique hwalk
    obtain ⟨u, hu, _⟩ := hfile rfl
    have hcomponents : components (cstr (ascii "DIR/")) = [ascii "DIR"] := by decide
    rw [Volume.Dirs.NamesFile, hcomponents] at hu
    rw [hu.1, Option.any_some, hu.2] at hdir
    cases hdir
  · intro h
    obtain ⟨r, s', hcat, hfile, _⟩ := h.cat
    obtain ⟨rfl, rfl⟩ := hcat.unique hcat₂
    obtain ⟨u, hu⟩ := hfile rfl
    cases hu.1

/-! ### The components that stat goes by -/

section cut

variable {n i : Nat}

theorem lastSlash_eq_none (h : lastSlash path n = none) {j : Nat} (hj : j < n) :
    path[j]? ≠ some 0x2F := by
  induction n with
  | zero => omega
  | succ n ih =>
    rw [lastSlash] at h
    split at h
    case isTrue => cases h
    case isFalse hne =>
      by_cases hjn : j = n
      · rw [hjn]
        exact hne
      · exact ih h (by omega)

theorem lastSlash_eq_some (h : lastSlash path n = some i) :
    i < n ∧ path[i]? = some 0x2F ∧ ∀ j, i < j → j < n → path[j]? ≠ some 0x2F := by
  induction n with
  | zero => cases h
  | succ n ih =>
    rw [lastSlash] at h
    split at h
    case isTrue hslash =>
      cases h
      exact ⟨by omega, hslash, fun j hij hjn => by omega⟩
    case isFalse hne =>
      obtain ⟨hi, hslash, hlater⟩ := ih h
      refine ⟨by omega, hslash, fun j hij hjn => ?_⟩
      by_cases hj : j = n
      · rw [hj]
        exact hne
      · exact hlater j hij (by omega)

/-- The path as `_stat` takes it apart: it only looks for the slash before the last
    name, and the last character is not looked at. -/
def cut (path : Name) : List Name :=
  match lastSlash path (path.length - 1) with
  | none => [path]
  | some i => components (path.take i) ++ [path.drop (i + 1)]

/-- The two parts of a path at its last slash, if it does not end in one. -/
theorem split_lastSlash (h : lastSlash path (path.length - 1) = some i) :
    path = path.take i ++ 0x2F :: path.drop (i + 1) ∧ path.drop (i + 1) ≠ [] ∧
      (path.getLast? ≠ some 0x2F → 0x2F ∉ path.drop (i + 1)) := by
  obtain ⟨hi, hslash, hlater⟩ := lastSlash_eq_some h
  refine ⟨?_, ?_, ?_⟩
  · obtain ⟨hlt, hget⟩ := List.getElem?_eq_some_iff.mp hslash
    rw [← hget, ← List.drop_eq_getElem_cons hlt, List.take_append_drop]
  · intro hnil
    have := List.drop_eq_nil_iff.mp hnil
    omega
  · intro hlast hmem
    obtain ⟨k, hk⟩ := List.mem_iff_getElem?.mp hmem
    rw [List.getElem?_drop] at hk
    obtain ⟨hlt, _⟩ := List.getElem?_eq_some_iff.mp hk
    by_cases hend : i + 1 + k = path.length - 1
    · rw [hend, ← List.getLast?_eq_getElem?] at hk
      exact hlast hk
    · exact hlater _ (by omega) (by omega) hk

/-- A slash that ends the path becomes a part of the last name. -/
theorem cut_of_ends (h : path.getLast? = some 0x2F) :
    ∃ xs q, cut path = xs ++ [q] ∧ 0x2F ∈ q := by
  unfold cut
  cases hslash : lastSlash path (path.length - 1) with
  | none => exact ⟨[], path, rfl, List.mem_of_getLast? h⟩
  | some i =>
    obtain ⟨hsplit, hne, _⟩ := split_lastSlash hslash
    refine ⟨_, _, rfl, List.mem_of_getLast? ?_⟩
    rw [hsplit, List.getLast?_append_of_ne_nil _ (List.cons_ne_nil _ _)] at h
    cases hrest : path.drop (i + 1) with
    | nil => exact (hne hrest).elim
    | cons ch rest =>
      rw [hrest, List.getLast?_cons_cons] at h
      exact h

theorem components_of_not_mem (hne : path ≠ []) (h : 0x2F ∉ path) : components path = [path] := by
  have hends : ¬ (path = [] ∨ path.getLast? = some 0x2F) := by
    rintro (hnil | hlast)
    · exact hne hnil
    · exact h (List.mem_of_getLast? hlast)
  rw [← splitOn_of_not_ends hends, List.splitOn_eq_singleton h]

/-- Else the last name is the last component, and of the others an empty one right
    before it is left out. -/
theorem cut_of_not_ends (hne : path ≠ []) (hlast : path.getLast? ≠ some 0x2F) :
    (∃ xs q, components path = xs ++ [[], q] ∧ cut path = xs ++ [q]) ∨
      (∀ xs q, components path ≠ xs ++ [[], q]) ∧ cut path = components path := by
  unfold cut
  cases hslash : lastSlash path (path.length - 1) with
  | none =>
    have hmem : 0x2F ∉ path := by
      intro hmem
      obtain ⟨k, hk⟩ := List.mem_iff_getElem?.mp hmem
      obtain ⟨hlt, _⟩ := List.getElem?_eq_some_iff.mp hk
      by_cases hend : k = path.length - 1
      · rw [hend, ← List.getLast?_eq_getElem?] at hk
        exact hlast hk
      · exact lastSlash_eq_none hslash (by omega) hk
    refine .inr ⟨?_, (components_of_not_mem hne hmem).symm⟩
    intro xs q h
    have hlength := congrArg List.length h
    simp [components_of_not_mem hne hmem] at hlength
  | some i =>
    obtain ⟨hsplit, hrest, hmem⟩ := split_lastSlash hslash
    have hcomponents : components path = (path.take i).splitOn 0x2F ++ [path.drop (i + 1)] := by
      conv_lhs => rw [hsplit, components_append, components_of_not_mem hrest (hmem hlast)]
    dsimp only
    by_cases hends : path.take i = [] ∨ (path.take i).getLast? = some 0x2F
    · refine .inl ⟨components (path.take i), path.drop (i + 1), ?_, rfl⟩
      rw [hcomponents, splitOn_of_ends hends, List.append_assoc]
      rfl
    · refine .inr ⟨?_, ?_⟩
      · intro xs q h
        rw [hcomponents, List.append_cons xs [] [q]] at h
        have hxs := (List.append_inj' h rfl).1
        exact hends (ends_of_splitOn (by rw [hxs, List.getLast?_concat]))
      · rw [hcomponents, splitOn_of_not_ends hends]

end cut

/-! ### stat and walk -/

namespace Volume.Dirs

variable (t : v.Dirs)

/-- The names of the entries are not empty, and have no slashes in them. -/
def Proper : Prop :=
  ∀ {c : UInt32} {x : DirEntry × Name}, t.isDir c → x ∈ v.decoded [] (t.slots c) →
    x.2 ≠ [] ∧ 0x2F ∉ x.2

variable {t}

theorem Proper.lookup (h : t.Proper) (hc : t.isDir c) {q : Name} (hq : q = [] ∨ 0x2F ∈ q) :
    v.lookup [] (t.slots c) q = none := by
  have hfind : (v.decoded [] (t.slots c)).find? (·.2 = q) = none := by
    apply List.find?_eq_none.mpr
    intro x hx hname
    obtain ⟨hne, hslash⟩ := h hc hx
    rw [of_decide_eq_true hname] at hne hslash
    rcases hq with hnil | hmem
    · exact hne hnil
    · exact hslash hmem
  rw [Volume.lookup, hfind]
  rfl

theorem Proper.entryOf (h : t.Proper) (hc : t.isDir c) (xs : List Name) {q : Name}
    (hq : q = [] ∨ 0x2F ∈ q) : t.entryOf c (xs ++ [q]) = none := by
  rw [entryOf_concat]
  cases hgo : t.goTo c xs with
  | error e => rfl
  | ok c' => exact h.lookup (t.goTo_isDir hc hgo) hq

/-- No way leads past an empty component. -/
theorem Proper.entryOf_past (h : t.Proper) (hc : t.isDir c) (xs : List Name) (q : Name) :
    t.entryOf c (xs ++ [[], q]) = none := by
  rw [List.append_cons, entryOf_concat, goTo_append]
  cases hgo : t.goTo c xs with
  | error e => rfl
  | ok c' =>
    change (t.goTo c' [[]]).toOption.bind _ = none
    rw [goTo, h.lookup (t.goTo_isDir hc hgo) (.inl rfl)]
    rfl

theorem Proper.entryOf_cut (h : t.Proper) (hc : t.isDir c) (hlast : path.getLast? ≠ some 0x2F) :
    (∃ xs q, components path = xs ++ [[], q] ∧
      t.entryOf c (cut path) = t.entryOf c (xs ++ [q])) ∨
    (∀ xs q, components path ≠ xs ++ [[], q]) ∧
      t.entryOf c (cut path) = t.entryOf c (components path) := by
  by_cases hnil : path = []
  · refine .inr ⟨?_, ?_⟩
    · intro xs q
      rw [hnil, components_nil]
      simp
    · rw [hnil]
      exact h.entryOf hc [] (.inl rfl)
  · rcases cut_of_not_ends hnil hlast with ⟨xs, q, hcomponents, hcut⟩ | ⟨hno, hcut⟩
    · exact .inl ⟨xs, q, hcomponents, by rw [hcut]⟩
    · exact .inr ⟨hno, by rw [hcut]⟩

variable (t)

theorem entryAnswer_cases (c c' : UInt32) (name : Name) :
    (v.lookup [] (t.slots c') name = none ∧ (t.entryAnswer c c' name).status ≠ OK) ∨
      ∃ u, v.lookup [] (t.slots c') name = some u ∧
        t.entryAnswer c c' name = ⟨OK, u.text [] ++ line "        long_name: " name " \n", c⟩ := by
  unfold entryAnswer
  cases v.lookup [] (t.slots c') name with
  | none => exact .inl ⟨rfl, show (1 : Int) ≠ 0 by decide⟩
  | some u => exact .inr ⟨u, rfl, rfl⟩

/-- stat in terms of the entry that its own components name. -/
theorem statAnswer_cases (c : UInt32) (hnul : 0 ∉ path) :
    (t.entryOf c (cut path) = none ∧ (t.statAnswer c path).status ≠ OK) ∨
      ∃ u name, t.entryOf c (cut path) = some u ∧
        t.statAnswer c path = ⟨OK, u.text [] ++ line "        long_name: " name " \n", c⟩ := by
  unfold statAnswer cut
  cases lastSlash path (path.length - 1) with
  | none =>
    rcases t.entryAnswer_cases c c path with hnone | ⟨u, hu⟩
    · exact .inl hnone
    · exact .inr ⟨u, path, hu⟩
  | some i =>
    have hcstr : cstr (path.take i) = path.take i := by
      apply cstr_eq_self
      intro ch hch hzero
      exact hnul (hzero ▸ List.mem_of_mem_take hch)
    dsimp only
    rw [hcstr, entryOf_concat]
    cases hgo : t.goTo c (components (path.take i)) with
    | error e => exact .inl ⟨rfl, t.goTo_error hgo⟩
    | ok c' =>
      rcases t.entryAnswer_cases c c' (path.drop (i + 1)) with hnone | ⟨u, hu⟩
      · exact .inl hnone
      · exact .inr ⟨u, path.drop (i + 1), hu⟩

end Volume.Dirs

/-- stat and a walk without flags, from the same state: stat returns OK if the walk
    comes to an entry, and then prints the one it has come to. -/
def Volume.StatAgrees (v : Volume) (s : Server) (path : Name) : Prop :=
  ∃ r s₁ r' s₂, Returns (stat path) s r s₁ ∧ Returns (walk path 0) s r' s₂ ∧
    (r = OK ↔ r' = 0 ∧ components path ≠ []) ∧
    (r = OK → ∃ a name, v.SlotPos s₂.lastHopSector s₂.lastHopOffset a ∧
      s₁.out = s.out ++ ((v.slot a).text [] ++ line "        long_name: " name " \n"))

theorem passes_free {more isDir : Bool} :
    passes false false more isDir = true ↔ (more = true → isDir = true) := by
  cases more <;> cases isDir <;> decide

section agreement

variable (t : v.Dirs) (hplain : t.Plain) (hproper : t.Proper) (hc : t.isDir c) (hs : s.Cwd v c)
  (hnul : 0 ∉ path)

include hplain hc hs hnul

/-- The two runs, in terms of the entries that the two ways to take the path apart name. -/
theorem Volume.Dirs.stat_and_walk :
    ∃ r s₁ r' s₂, Returns (stat path) s r s₁ ∧ Returns (walk path 0) s r' s₂ ∧
      (r = OK ↔ ∃ u, t.entryOf c (cut path) = some u) ∧
      (∀ u, t.entryOf c (cut path) = some u →
        ∃ name, s₁.out = s.out ++ (u.text [] ++ line "        long_name: " name " \n")) ∧
      (r' = 0 ∧ components path ≠ [] ↔ ∃ u, t.entryOf c (components path) = some u ∧
        (path.getLast? = some 0x2F → u.entry.isDirectory = true)) ∧
      (r' = 0 → ∀ u, t.entryOf c (components path) = some u → s.Hopped s₂ v u) := by
  have hcstr : cstr path = path := cstr_eq_self fun ch hch hzero => hnul (hzero ▸ hch)
  obtain ⟨s₁, hstat, _, _, hout⟩ := t.gives_stat hplain hc hs path
  obtain ⟨r, s₂, hwalk, hzero, hhop⟩ := t.walk_names hplain hc hs path 0
  rw [hcstr] at hzero hhop
  change (r = 0 ↔ _ ∨ ∃ u, _ ∧ passes false false _ _ = true) at hzero
  simp only [passes_free, beq_iff_eq] at hzero
  refine ⟨_, s₁, r, s₂, hstat, hwalk, ?_, ?_, ?_, hhop⟩
  · rcases t.statAnswer_cases c hnul with ⟨hnone, hne⟩ | ⟨u, name, hu, hanswer⟩
    · simp [hnone, hne]
    · simp [hu, hanswer]
  · intro u hu
    rcases t.statAnswer_cases c hnul with ⟨hnone, _⟩ | ⟨w, name, hw, hanswer⟩
    · rw [hu] at hnone
      cases hnone
    · obtain rfl := Option.some.inj (hu.symm.trans hw)
      exact ⟨name, by rw [hout, hanswer]⟩
  · constructor
    · intro ⟨hr, hne⟩
      rcases hzero.mp hr with hnil | hu
      · exact (hne (by rw [hnil, components_nil])).elim
      · exact hu
    · intro hu
      refine ⟨hzero.mpr (.inr hu), ?_⟩
      intro hnil
      obtain ⟨u, hu, _⟩ := hu
      rw [hnil] at hu
      cases hu

theorem Volume.StatAgrees.entries (h : v.StatAgrees s path) :
    (∃ u, t.entryOf c (cut path) = some u) ↔
      ∃ u, t.entryOf c (components path) = some u ∧
        (path.getLast? = some 0x2F → u.entry.isDirectory = true) := by
  obtain ⟨r, s₁, r', s₂, hstat, hwalk, hcut, _, hcomponents, _⟩ :=
    t.stat_and_walk hplain hc hs hnul
  obtain ⟨_, _, _, _, hstat', hwalk', hagree, _⟩ := h
  obtain ⟨rfl, rfl⟩ := hstat'.unique hstat
  obtain ⟨rfl, rfl⟩ := hwalk'.unique hwalk
  rw [← hcut, ← hcomponents, hagree]

theorem Volume.Dirs.statAgrees (h : ∀ u, t.entryOf c (cut path) = some u ↔
    t.entryOf c (components path) = some u ∧
      (path.getLast? = some 0x2F → u.entry.isDirectory = true)) : v.StatAgrees s path := by
  obtain ⟨r, s₁, r', s₂, hstat, hwalk, hcut, hout, hcomponents, hhop⟩ :=
    t.stat_and_walk hplain hc hs hnul
  have hagree : r = OK ↔ r' = 0 ∧ components path ≠ [] := by
    rw [hcut, hcomponents]
    exact exists_congr h
  refine ⟨r, s₁, r', s₂, hstat, hwalk, hagree, ?_⟩
  intro hr
  obtain ⟨u, hu⟩ := hcut.mp hr
  obtain ⟨a, rfl, _, hpos⟩ := (hhop (hagree.mp hr).1 u ((h u).mp hu).1).last
  obtain ⟨name, hname⟩ := hout _ hu
  exact ⟨a, name, hpos, hname⟩

include hproper

/-- **Where stat and walk agree on what a path names.**  They do not for a path that
    ends in a `/` and names a directory, which only `walk` comes to, nor for one with an
    empty component right before the last one (`/X`, `D//X`), if without it the path
    names an entry, which only stat comes to. -/
theorem stat_agrees_with_walk_iff :
    v.StatAgrees s path ↔
      (path.getLast? = some 0x2F →
        ∀ u, t.entryOf c (components path) = some u → u.entry.isDirectory = false) ∧
      (path.getLast? ≠ some 0x2F → ∀ xs q, components path = xs ++ [[], q] →
        t.entryOf c (xs ++ [q]) = none) := by
  by_cases hlast : path.getLast? = some 0x2F
  · -- stat fails, since there is no entry with a slash in its name
    obtain ⟨xs, q, hcut, hmem⟩ := cut_of_ends hlast
    have hnone : t.entryOf c (cut path) = none := by
      rw [hcut]
      exact hproper.entryOf hc xs (.inr hmem)
    constructor
    · intro h
      refine ⟨fun _ u hu => ?_, fun hnot => (hnot hlast).elim⟩
      by_contra hdir
      have hentries := h.entries t hplain hc hs hnul
      obtain ⟨w, hw⟩ := hentries.mpr ⟨u, hu, fun _ => by simpa using hdir⟩
      rw [hnone] at hw
      cases hw
    · intro ⟨hfile, _⟩
      apply t.statAgrees hplain hc hs hnul
      intro u
      rw [hnone]
      constructor
      · intro h
        cases h
      · intro ⟨hu, hdir⟩
        rw [hfile hlast u hu] at hdir
        cases hdir hlast
  rcases hproper.entryOf_cut hc hlast with ⟨xs, q, hcomponents, hcut⟩ | ⟨hno, hcut⟩
  · -- the walk fails at the empty component
    have hnone : t.entryOf c (components path) = none := by
      rw [hcomponents]
      exact hproper.entryOf_past hc xs q
    constructor
    · intro h
      refine ⟨fun hends => (hlast hends).elim, fun _ xs' q' hcomponents' => ?_⟩
      rw [hcomponents, List.append_cons xs, List.append_cons xs'] at hcomponents'
      obtain ⟨hxs, hq⟩ := List.append_inj' hcomponents' rfl
      rw [← (List.append_inj' hxs rfl).1, ← hq, ← hcut]
      apply Option.eq_none_iff_forall_ne_some.mpr
      intro u hu
      obtain ⟨w, hw, _⟩ := (h.entries t hplain hc hs hnul).mp ⟨u, hu⟩
      rw [hnone] at hw
      cases hw
    · intro ⟨_, hmiss⟩
      apply t.statAgrees hplain hc hs hnul
      intro u
      rw [hcut, hmiss hlast xs q hcomponents, hnone]
      simp
  · constructor
    · intro _
      exact ⟨fun hends => (hlast hends).elim, fun _ xs q h => (hno xs q h).elim⟩
    · intro _
      apply t.statAgrees hplain hc hs hnul
      intro u
      rw [hcut]
      simp [hlast]

end agreement

/-- On the sample volume, for the file in its directory. -/
theorem stat_agrees_with_walk_on_sample :
    ∃ s, Returns (doMount (diskEnv Sample.volume.dev) mountMessage)
        (Server.initial fun _ => []) OK s ∧
      Sample.volume.StatAgrees s (ascii "DIR/B.TXT") := by
  obtain ⟨s, hmount, hcwd, _⟩ := Sample.mounted fun _ => []
  have hproper : Sample.tree.Proper := by
    have hnames : ∀ x ∈ Sample.volume.decoded [] (Sample.slotsOf 2) ++
        Sample.volume.decoded [] (Sample.slotsOf 3), x.2 ≠ [] ∧ 0x2F ∉ x.2 := by
      decide +kernel
    intro c x hc hx
    rcases hc with rfl | rfl
    · exact hnames x (List.mem_append_left _ hx)
    · exact hnames x (List.mem_append_right _ hx)
  have hlast : (ascii "DIR/B.TXT").getLast? ≠ some 0x2F := by decide
  have hblank : [] ∉ components (ascii "DIR/B.TXT") := by decide
  refine ⟨s, hmount, (stat_agrees_with_walk_iff Sample.tree.toDirs Sample.plain hproper (.inl rfl)
    hcwd (by decide)).mpr ⟨fun h => (hlast h).elim, fun _ xs q h => ?_⟩⟩
  rw [h] at hblank
  simp at hblank

/-- stat does not find the directory of the sample volume under its name with a `/`
    after it, and finds it under its name with a `/` before it; walk does the opposite. -/
theorem stat_disagrees_with_walk :
    ∃ s s₁ s₂ s₃ s₄, Returns (doMount (diskEnv Sample.volume.dev) mountMessage)
        (Server.initial fun _ => []) OK s ∧
      Returns (stat (ascii "DIR/")) s 1 s₁ ∧ Returns (walk (ascii "DIR/") 0) s 0 s₂ ∧
      Returns (stat (ascii "/DIR")) s OK s₃ ∧ Returns (walk (ascii "/DIR") 0) s 1 s₄ ∧
      ¬ Sample.volume.StatAgrees s (ascii "DIR/") ∧
      ¬ Sample.volume.StatAgrees s (ascii "/DIR") := by
  obtain ⟨s, hmount, _⟩ := Sample.mounted fun _ => []
  obtain ⟨r₁, s₁, hstat₁, h₁⟩ := Sample.returns_mounted (stat (ascii "DIR/")) 10
    (fun _ r _ => r = 1) (by decide +kernel) hmount
  obtain ⟨r₂, s₂, hwalk₂, h₂⟩ := Sample.returns_mounted (walk (ascii "DIR/") 0) 10
    (fun _ r _ => r = 0) (by decide +kernel) hmount
  obtain ⟨r₃, s₃, hstat₃, h₃⟩ := Sample.returns_mounted (stat (ascii "/DIR")) 10
    (fun _ r _ => r = OK) (by decide +kernel) hmount
  obtain ⟨r₄, s₄, hwalk₄, h₄⟩ := Sample.returns_mounted (walk (ascii "/DIR") 0) 10
    (fun _ r _ => r = 1) (by decide +kernel) hmount
  rw [of_decide_eq_true h₁] at hstat₁
  rw [of_decide_eq_true h₂] at hwalk₂
  rw [of_decide_eq_true h₃] at hstat₃
  rw [of_decide_eq_true h₄] at hwalk₄
  refine ⟨s, s₁, s₂, s₃, s₄, hmount, hstat₁, hwalk₂, hstat₃, hwalk₄, ?_, ?_⟩
  · rintro ⟨r, _, r', _, hstat, hwalk, hagree, _⟩
    obtain ⟨rfl, _⟩ := hstat.unique hstat₁
    obtain ⟨rfl, _⟩ := hwalk.unique hwalk₂
    exact absurd (hagree.mpr ⟨rfl, by decide⟩) (by decide)
  · rintro ⟨r, _, r', _, hstat, hwalk, hagree, _⟩
    obtain ⟨rfl, _⟩ := hstat.unique hstat₃
    obtain ⟨rfl, _⟩ := hwalk.unique hwalk₄
    exact absurd (hagree.mp rfl).1 (by decide)

/-! ### ls and cd -/

/-- ls goes by the components of its path, since `.` leads to the directory itself. -/
theorem Volume.Dirs.lsAnswer_of_ok (t : v.Dirs) {c' : UInt32}
    (hdot : path = ascii "." → t.goTo c [ascii "."] = .ok c)
    (hgo : t.goTo c (components (cstr path)) = .ok c') :
    t.lsAnswer c path = ⟨OK, t.listing c', c⟩ := by
  unfold lsAnswer
  by_cases hp : path = ascii "."
  · have hcomponents : components (cstr path) = [ascii "."] := by
      rw [hp]
      decide
    rw [hcomponents, hdot hp] at hgo
    cases hgo
    rw [if_pos hp]
  · rw [if_neg hp, hgo]

theorem Volume.Dirs.lsAnswer_of_error (t : v.Dirs) {status : Int}
    (hdot : path = ascii "." → t.goTo c [ascii "."] = .ok c)
    (hgo : t.goTo c (components (cstr path)) = .error status) :
    t.lsAnswer c path = ⟨status, [], c⟩ := by
  unfold lsAnswer
  by_cases hp : path = ascii "."
  · have hcomponents : components (cstr path) = [ascii "."] := by
      rw [hp]
      decide
    rw [hcomponents, hdot hp] at hgo
    cases hgo
  · rw [if_neg hp, hgo]

/-- **ls lists the directory that cd goes to.**  For every path, except for `.` in the
    root directory: the two return 0 together, and then ls prints what `ls .` prints
    after the cd; else they return the same status and ls prints nothing.  In every
    directory `ls .` returns 0 and prints its entries. -/
theorem ls_lists_where_cd_goes (t : v.DirTree) (hplain : t.toDirs.Plain)
    (hself : ∀ {c : UInt32}, t.isDir c → c ≠ v.bpb.rootCluster → t.goTo c [ascii "."] = .ok c)
    (hc : t.isDir c) (hs : s.Cwd v c) (path : Name) :
    (path ≠ ascii "." ∨ c ≠ v.bpb.rootCluster →
      ∃ r₁ s₁ r₂ s₂, Returns (ls path) s r₁ s₁ ∧ Returns (cd path) s r₂ s₂ ∧
        (r₁ = 0 ↔ r₂ = 0) ∧
        (r₂ = 0 → ∃ s₃ text, Returns (ls (ascii ".")) s₂ 0 s₃ ∧ s₃.out = s₂.out ++ text ∧
          s₁.out = s.out ++ text) ∧
        (r₂ ≠ 0 → r₁ = r₂ ∧ s₁.out = s.out)) ∧
    ∃ s₁, Returns (ls (ascii ".")) s 0 s₁ ∧ s₁.out = s.out ++ t.listing c := by
  have hdot : ∀ {c' : UInt32} {s₂ : Server}, t.isDir c' → s₂.Cwd v c' →
      ∃ s₃, Returns (ls (ascii ".")) s₂ 0 s₃ ∧ s₃.out = s₂.out ++ t.listing c' := by
    intro c' s₂ hc' hs₂
    obtain ⟨s₃, hls, _, _, hout⟩ := t.gives_ls hplain hc' hs₂ (ascii ".")
    exact ⟨s₃, hls, hout⟩
  refine ⟨?_, hdot hc hs⟩
  intro hpath
  obtain ⟨s₁, hls, _, _, hout₁⟩ := t.gives_ls hplain hc hs path
  obtain ⟨s₂, hcd, hcwd, _, hout₂⟩ := t.gives_cd hplain hc hs path
  have hdots : path = ascii "." → t.goTo c [ascii "."] = .ok c := by
    intro hp
    rcases hpath with hnot | hne
    · exact (hnot hp).elim
    · exact hself hc hne
  unfold Volume.Dirs.cdAnswer at hcd hcwd hout₂
  cases hgo : t.goTo c (components (cstr path)) with
  | error status =>
    rw [t.lsAnswer_of_error hdots hgo] at hls hout₁
    rw [hgo] at hcd
    refine ⟨status, s₁, status, s₂, hls, hcd, Iff.rfl, ?_, ?_⟩
    · intro hzero
      exact (t.goTo_error hgo hzero).elim
    · intro _
      exact ⟨rfl, by rw [hout₁, List.append_nil]⟩
  | ok c' =>
    rw [t.lsAnswer_of_ok hdots hgo] at hls hout₁
    rw [hgo] at hcd hcwd
    obtain ⟨s₃, hls', hout₃⟩ := hdot (t.goTo_isDir hc hgo) hcwd
    refine ⟨0, s₁, 0, s₂, hls, hcd, Iff.rfl, ?_, ?_⟩
    · intro _
      exact ⟨s₃, t.listing c', hls', hout₃, hout₁⟩
    · intro h
      exact (h rfl).elim

/-- On the sample volume, for its directory. -/
theorem ls_lists_where_cd_goes_on_sample :
    ∃ s s₁ s₂ s₃ text, Returns (doMount (diskEnv Sample.volume.dev) mountMessage)
        (Server.initial fun _ => []) OK s ∧
      Returns (ls (ascii "DIR")) s 0 s₁ ∧ Returns (cd (ascii "DIR")) s 0 s₂ ∧
      Returns (ls (ascii ".")) s₂ 0 s₃ ∧ s₃.out = s₂.out ++ text ∧ s₁.out = s.out ++ text := by
  obtain ⟨s, hmount, hcwd, _⟩ := Sample.mounted fun _ => []
  have hself : ∀ {c : UInt32}, Sample.tree.isDir c → c ≠ Sample.volume.bpb.rootCluster →
      Sample.tree.goTo c [ascii "."] = .ok c := by
    intro c hc hne
    rcases hc with rfl | rfl
    · exact (hne (by decide +kernel)).elim
    · decide +kernel
  obtain ⟨r₁, s₁, r₂, s₂, hls, hcd, hsame, hok, _⟩ := (ls_lists_where_cd_goes Sample.tree
    Sample.plain hself (.inl rfl) hcwd (ascii "DIR")).1 (.inl (by decide))
  obtain ⟨r, _, hcd', hr⟩ := Sample.returns_mounted (cd (ascii "DIR")) 10 (fun _ r _ => r = 0)
    (by decide +kernel) hmount
  obtain ⟨rfl, rfl⟩ := hcd'.unique hcd
  have hzero : r = 0 := of_decide_eq_true hr
  obtain ⟨s₃, text, hls', hout₃, hout₁⟩ := hok hzero
  rw [hsame.mpr hzero] at hls
  rw [hzero] at hcd
  exact ⟨s, s₁, _, s₃, text, hmount, hls, hcd, hls', hout₃, hout₁⟩

/-- In the root directory, which has no entry for itself, `ls .` lists and `cd .` fails. -/
theorem ls_dot_without_cd_dot :
    ∃ s s₁ s₂, Returns (doMount (diskEnv Sample.volume.dev) mountMessage)
        (Server.initial fun _ => []) OK s ∧ s.Cwd Sample.volume 2 ∧
      Returns (ls (ascii ".")) s 0 s₁ ∧ Returns (cd (ascii ".")) s 1 s₂ := by
  obtain ⟨s, hmount, hcwd, _⟩ := Sample.mounted fun _ => []
  obtain ⟨r₁, s₁, hls, h₁⟩ := Sample.returns_mounted (ls (ascii ".")) 10 (fun _ r _ => r = 0)
    (by decide +kernel) hmount
  obtain ⟨r₂, s₂, hcd, h₂⟩ := Sample.returns_mounted (cd (ascii ".")) 10 (fun _ r _ => r = 1)
    (by decide +kernel) hmount
  rw [of_decide_eq_true h₁] at hls
  rw [of_decide_eq_true h₂] at hcd
  exact ⟨s, s₁, s₂, hmount, hcwd, hls, hcd⟩

end Fat32s
