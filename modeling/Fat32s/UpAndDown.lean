/-
  Fat32s/UpAndDown.lean
  =====================
  **Going down and back up.**

  In a tree the `..` entry of a directory leads to the directory that it was entered
  from.  So a path of `n` names can be undone by `n` times `..`, in as many requests
  or in one, at any depth and wherever the root is: the way up ends at the very sector
  that the way down started from.  No assumption is made on short names that start
  with a space: which entry a name leads to may depend on junk, but the way back does
  not.
-/
import Fat32s.Composition

namespace Fat32s

open Fat32s.Lib Fat32s.Lib.Prog

variable {v : Volume} {d d' : Drive} {s s' : Server} {c c' : UInt32} {segs : List (Name × Bool)}

/-! ### Walks that ban files -/

theorem Walks.banFiles_entered {junk : Nat → Name} {q : Name} (more : Bool)
    {o : Option (Drive × (Nat → Name))} (hfind : d.Finds (junk 0) (goesBy q) d')
    (hdir : d'.dirBuff.de.isDirectory = true)
    (hrest : Walks true false segs (d'.jump d'.hopSector) (fun n => junk (n + 1)) o) :
    Walks true false ((q, more) :: segs) d junk o :=
  .entered hfind (by rw [Volume.Dirs.passes_banFiles]; exact hdir) hrest

/-- Only the names matter: the flags are those of the path. -/
theorem Walks.of_names {junk : Nat → Name} {segs' : List (Name × Bool)}
    {o : Option (Drive × (Nat → Name))} (h : Walks true false segs d junk o)
    (hnames : segs'.map (·.1) = segs.map (·.1)) : Walks true false segs' d junk o := by
  induction segs generalizing d junk segs' with
  | nil =>
    obtain rfl : segs' = [] := by simpa using hnames
    exact h
  | cons seg segs ih =>
    rcases List.map_eq_cons_iff.mp hnames with ⟨⟨q, more⟩, segs', rfl, rfl, hrest⟩
    cases h with
    | missing hmiss => exact .missing hmiss
    | barred hfind hpass =>
      rw [Volume.Dirs.passes_banFiles] at hpass
      exact .barred hfind (by rw [Volume.Dirs.passes_banFiles]; exact hpass)
    | entered hfind hpass h =>
      rw [Volume.Dirs.passes_banFiles] at hpass
      exact .banFiles_entered more hfind hpass (ih h hrest)

/-- A walk goes on where the first part of it arrives. -/
theorem Walks.append {junk junk' : Nat → Name} {xs ys : List (Name × Bool)}
    {o : Option (Drive × (Nat → Name))} (h : Walks true false xs d junk (some (d', junk')))
    (hrest : Walks true false ys d' junk' o) : Walks true false (xs ++ ys) d junk o := by
  induction xs generalizing d junk with
  | nil =>
    cases h
    exact hrest
  | cons x xs ih =>
    cases h with
    | entered hfind hpass h => exact .entered hfind hpass (ih h)

namespace Volume.Dirs

variable (t : v.Dirs)

/-- A walk through the directories that arrives is one that the server makes. -/
theorem returns_visits_of_walks {junk' : Nat → Name} {sector : UInt32} {rest : List UInt32}
    (hc : t.isDir c) (hs : s.Cwd v c) (hstack : s.stack = sector :: rest)
    (h : Walks true false segs s.toDrive s.scratch.junk (some (d', junk'))) :
    ∃ s', Returns (visits true false segs) s 0 s' ∧ s'.toDrive = d' ∧ s'.stack = rest := by
  induction segs generalizing s c with
  | nil =>
    cases h
    refine ⟨{ s with stack := rest }, ?_, rfl, rfl⟩
    apply returns_bind.mpr
    exact ⟨sector, _, returns_stackPop.mpr ⟨rest, hstack, rfl⟩, returns_pure.mpr ⟨rfl, rfl⟩⟩
  | cons seg segs ih =>
    rcases seg with ⟨q, more⟩
    cases h with
    | @entered _ d₁ _ _ _ _ _ hfind hpass hrest =>
      have hdir := hpass
      rw [passes_banFiles] at hdir
      rcases (t.lists hc).lands hs hfind with ⟨a, ha, hshort, hon, _, hde⟩
      rcases returns_findChild_of_finds hfind with ⟨s₁, hsearch, hlook⟩
      have htype : s₁.dirBuff.de.type = .short := by
        rw [hlook.drive]
        exact hfind.type_eq
      have hfits : s₁.Fits (s₁.firstSectorOfCluster s₁.hopCluster) := by
        rw [hlook.drive]
        exact hon.fits _
      obtain ⟨s₂, hhop⟩ : ∃ s₂, Returns hop s₁ OK s₂ :=
        ⟨_, (returns_hop htype).mpr ⟨hfits, rfl, rfl⟩⟩
      have henter := hlook.hop_cases hfind.type_eq hhop
      have hvisit : Returns (visit true false q more) s none s₂ := by
        apply returns_bind.mpr
        refine ⟨0, s₁, hsearch, ?_⟩
        rw [passes, Bool.not_eq_true', ← hlook.drive] at hpass
        simp only [ne_eq, not_true_eq_false, if_false, returns_globals_bind, hpass,
          Bool.false_eq_true]
        exact returns_bind.mpr ⟨OK, s₂, hhop, returns_pure.mpr ⟨rfl, rfl⟩⟩
      have htarget : t.isDir (v.target (v.slot a)) := by
        rw [hde] at hdir
        exact t.leads hc ha hshort hdir
      have hcwd := hon.cwd_hop hde (t.isData htarget)
      rw [← henter.drive] at hcwd hrest
      rw [← henter.junk] at hrest
      rcases ih htarget hcwd (henter.stack.trans hstack) hrest with ⟨s', hvisits, hdrive, hstack'⟩
      exact ⟨s', returns_bind.mpr ⟨none, _, hvisit, hvisits⟩, hdrive, hstack'⟩

theorem returns_cd_of_walks {path : Name} {junk' : Nat → Name} (hc : t.isDir c) (hs : s.Cwd v c)
    (h : Walks true false (segments (cstr path)) s.toDrive s.scratch.junk (some (d', junk'))) :
    ∃ s', Returns (cd path) s 0 s' ∧ s'.toDrive = d' := by
  rcases t.returns_visits_of_walks
    (s := { s with stack := s.dirBuff.sector :: s.dirBuff.sector :: s.stack }) hc hs rfl h with
    ⟨s₁, hvisits, hdrive, hstack⟩
  have hwalk : Returns (walk path WALK_BAN_FILES)
      { s with stack := s.dirBuff.sector :: s.stack } 0 s₁ := Fat32s.returns_walk.mpr hvisits
  refine ⟨{ s₁ with stack := s.stack }, ?_, hdrive⟩
  unfold cd
  rw [returns_globals_bind, returns_push_bind]
  apply returns_bind.mpr
  refine ⟨0, s₁, hwalk, ?_⟩
  rw [if_neg (by decide)]
  apply returns_bind.mpr
  exact ⟨s.dirBuff.sector, _, returns_stackPop.mpr ⟨s.stack, hstack, rfl⟩,
    returns_pure.mpr ⟨rfl, rfl⟩⟩

end Volume.Dirs

/-! ### Up and down in a tree -/

/-- A tree whose `..` entries are marked as directories, and in which a directory that
    is entered under any other name has the one it is listed in as its parent. -/
structure Volume.ProperTree (v : Volume) extends v.DirTree where
  dotdot_dir : ∀ {c : UInt32} {junk : Name} {x : DirEntry × Name}, isDir c →
    x ∈ v.decoded junk (slots c) → x.2 = ascii ".." → x.1.isDirectory = true
  child : ∀ {c : UInt32} {junk : Name} {x : DirEntry × Name}, isDir c →
    x ∈ v.decoded junk (slots c) → x.1.isDirectory = true → x.2 ≠ ascii "." → x.2 ≠ ascii ".." →
    v.target x.1.u ≠ v.bpb.rootCluster ∧ parent (v.target x.1.u) = c

namespace Volume.ProperTree

variable (t : v.ProperTree)

/-- From `c` it is `n` levels up to `c'`. -/
inductive Up : Nat → UInt32 → UInt32 → Prop
  | here {c : UInt32} : Up 0 c c
  | up {n : Nat} {c c' : UInt32} (hc : t.isDir c) (hne : c ≠ v.bpb.rootCluster)
      (hrest : Up n (t.parent c) c') : Up (n + 1) c c'

variable {t}

theorem Up.parent {n : Nat} (h : t.Up n c c') (hc' : t.isDir c') (hne : c' ≠ v.bpb.rootCluster) :
    t.Up (n + 1) c (t.parent c') := by
  induction h with
  | here => exact .up hc' hne .here
  | up hc hne' _ ih => exact .up hc hne' (ih hc' hne)

/-- A walk along `n` names leads `n` levels down. -/
theorem descends {junk junk' : Nat → Name} (h : Walks true false segs d junk (some (d', junk')))
    (hnames : ∀ q ∈ segs.map (·.1), q ≠ ascii "." ∧ q ≠ ascii "..") (hc : t.isDir c)
    (hd : d.Cwd v c) : ∃ c', t.isDir c' ∧ d'.Cwd v c' ∧ t.Up segs.length c' c := by
  induction segs generalizing c d junk with
  | nil =>
    cases h
    exact ⟨c, hc, hd, .here⟩
  | cons seg segs ih =>
    rcases seg with ⟨q, more⟩
    cases h with
    | @entered _ d₁ _ _ _ _ _ hfind hpass hrest =>
      rw [Volume.Dirs.passes_banFiles] at hpass
      rcases id hfind with ⟨name, hfindAs⟩
      rcases (t.lists hc).found hd hfindAs with ⟨x, hx, _, hon, hde, a, ha, hentry, _⟩
      have hq : x.2 = q := hx.holds
      rw [hde] at hpass
      have hdots := hnames q (by simp)
      rw [← hq] at hdots
      rcases t.child hc hx.mem hpass hdots.1 hdots.2 with ⟨hne, hparent⟩
      have hshort : (v.slot a).dirType = .short := by
        have htype := hfind.type_eq
        rw [hde, hentry] at htype
        exact htype
      rw [hentry] at hde hpass hne hparent
      have htarget := t.leads hc ha hshort hpass
      have hcwd := hon.cwd_hop hde (t.isData htarget)
      rcases ih hrest (fun q hq => hnames q (List.mem_cons_of_mem _ hq)) htarget hcwd with
        ⟨c', hc', hd', hup⟩
      refine ⟨c', hc', hd', ?_⟩
      rw [← hparent, List.length_cons]
      exact hup.parent htarget hne

/-- And `n` times `..` leads back. -/
theorem ascends {n : Nat} (h : t.Up n c c') (hc : t.isDir c) (hd : d.Cwd v c) (junk : Nat → Name)
    (hsegs : segs.map (·.1) = List.replicate n (ascii "..")) :
    ∃ d' junk', Walks true false segs d junk (some (d', junk')) ∧ d'.Cwd v c' := by
  induction h generalizing d junk segs with
  | here =>
    obtain rfl : segs = [] := by simpa using hsegs
    exact ⟨d, junk, .done, hd⟩
  | @up n c c' _ hne hrest ih =>
    rw [List.replicate_succ] at hsegs
    rcases List.map_eq_cons_iff.mp hsegs with ⟨⟨q, more⟩, segs, rfl, rfl, hrest'⟩
    rcases (t.lists hc).search hd (junk 0) (goesBy (ascii "..")) with
      ⟨_, _, hmiss⟩ | ⟨x, hx, d₁, hfind, _, hde, _⟩
    · exact (hne (t.misses_dotdot hc hd hmiss)).elim
    · have hparent := (t.climb hc hd hfind.finds).2
      have hdir := t.dotdot_dir hc hx.mem hx.holds
      rw [← hde] at hdir
      rcases ih (t.up hc hne).1 hparent (fun n => junk (n + 1)) hrest' with ⟨d', junk', hwalk, hd'⟩
      exact ⟨d', junk', .banFiles_entered more hfind.finds hdir hwalk, hd'⟩

end Volume.ProperTree

/-! ### The paths -/

/-- `n` times `_cd("..")`, each with status 0. -/
inductive CdsUp : Nat → Server → Server → Prop
  | none {s : Server} : CdsUp 0 s s
  | once {n : Nat} {s s₁ s' : Server} (hcd : Returns (cd (ascii "..")) s 0 s₁)
      (hrest : CdsUp n s₁ s') : CdsUp (n + 1) s s'

/-- `"/.."` repeated `n` times. -/
def upPath (n : Nat) : Name := (List.replicate n (ascii "/..")).flatten

theorem components_upPath {p : Name} (hne : p ≠ []) (hend : p.getLast? ≠ some 0x2F) (n : Nat) :
    components (p ++ upPath n) = components p ++ List.replicate n (ascii "..") := by
  induction n generalizing p with
  | zero => simp [upPath]
  | succ n ih =>
    have hsplit : p ++ upPath (n + 1) = p ++ 0x2F :: (ascii ".." ++ upPath n) := by
      rw [upPath, List.replicate_succ, List.flatten_cons]
      rfl
    have hdots : components (ascii "..") = [ascii ".."] := by decide
    rw [hsplit, components_join hne hend, ih (by decide) (by decide), hdots, List.replicate_succ]
    rfl

theorem cstr_upPath {p : Name} (hzero : ∀ ch ∈ p, ch ≠ 0) (n : Nat) :
    cstr (p ++ upPath n) = p ++ upPath n := by
  apply cstr_eq_self
  intro ch hch
  rcases List.mem_append.mp hch with hch | hch
  · exact hzero ch hch
  · rcases List.mem_flatten.mp hch with ⟨dots, hdots, hch⟩
    have hall : ∀ ch ∈ ascii "/..", ch ≠ 0 := by decide +kernel
    rw [(List.mem_replicate.mp hdots).2] at hch
    exact hall ch hch

/-- The cursor is at the same sector and offset. -/
structure Server.SamePlace (s s' : Server) : Prop where
  sector : s'.dirBuff.sector = s.dirBuff.sector
  offset : s'.dirBuff.offset = s.dirBuff.offset

theorem Drive.Cwd.samePlace (h : s.Cwd v c) (h' : s'.Cwd v c) : s.SamePlace s' where
  sector := UInt32.toNat.inj (h'.sector.trans h.sector.symm)
  offset := h'.offset.trans h.offset.symm

theorem Volume.ProperTree.cdsUp {t : v.ProperTree} {n : Nat} (h : t.Up n c c') (hc : t.isDir c)
    (hs : s.Cwd v c) : ∃ s', CdsUp n s s' ∧ s'.Cwd v c' := by
  have hdots : (segments (cstr (ascii ".."))).map (·.1) = List.replicate 1 (ascii "..") := by
    decide +kernel
  induction h generalizing s with
  | here => exact ⟨s, .none, hs⟩
  | up _ hne _ ih =>
    have hone : t.Up 1 _ _ := .up hc hne .here
    rcases t.ascends hone hc hs s.scratch.junk hdots with ⟨d', junk', hwalk, hd'⟩
    rcases t.returns_cd_of_walks hc hs hwalk with ⟨s₁, hcd, rfl⟩
    rcases ih (t.up hc hne).1 hd' with ⟨s', hrest, hs'⟩
    exact ⟨s', .once hcd hrest, hs'⟩

/-- **Going down and back up is the identity.** -/
theorem down_and_up (t : v.ProperTree) {p : Name} {s₁ : Server} (hc : t.isDir c) (hs : s.Cwd v c)
    (hzero : ∀ ch ∈ p, ch ≠ 0) (hne : p ≠ []) (hend : p.getLast? ≠ some 0x2F)
    (hnames : ∀ q ∈ components p, q ≠ ascii "." ∧ q ≠ ascii "..") (hcd : Returns (cd p) s 0 s₁) :
    (∃ s', CdsUp (components p).length s₁ s' ∧ s.SamePlace s') ∧
      ∃ s', Returns (cd (p ++ upPath (components p).length)) s 0 s' ∧ s.SamePlace s' := by
  have hdown : Walks true false (segments p) s.toDrive s.scratch.junk
      (some (s₁.toDrive, s₁.scratch.junk)) := by
    have hwalks := walksTo_of_cd hcd
    rw [Server.WalksTo, cstr_eq_self hzero] at hwalks
    exact hwalks
  rw [← map_fst_segments] at hnames
  rcases t.descends hdown hnames hc hs with ⟨c', hc', hs₁, hup⟩
  have hlength : (segments p).length = (components p).length := by
    rw [← map_fst_segments, List.length_map]
  rw [hlength] at hup
  constructor
  · rcases t.cdsUp hup hc' hs₁ with ⟨s', hcds, hs'⟩
    exact ⟨s', hcds, hs.samePlace hs'⟩
  · have hdots : ((List.replicate (components p).length (ascii "..")).map
        fun q => (q, true)).map (·.1) = List.replicate (components p).length (ascii "..") := by
      simp
    rcases t.ascends hup hc' hs₁ s₁.scratch.junk hdots with ⟨d', junk', hwalk, hd'⟩
    have hall : Walks true false (segments (cstr (p ++ upPath (components p).length))) s.toDrive
        s.scratch.junk (some (d', junk')) := by
      apply (hdown.append hwalk).of_names
      rw [map_fst_segments, cstr_upPath hzero, components_upPath hne hend, List.map_append,
        map_fst_segments, hdots]
    rcases t.returns_cd_of_walks hc hs hall with ⟨s', hcd', rfl⟩
    exact ⟨s', hcd', hs.samePlace hd'⟩

namespace Sample

def properTree : volume.ProperTree where
  toDirTree := tree
  dotdot_dir := by
    intro c junk x hc
    change x ∈ volume.decoded junk (slotsOf c) → _
    rw [decoded_slotsOf hc]
    rcases hc with rfl | rfl
    · revert x
      decide +kernel
    · revert x
      decide +kernel
  child := by
    intro c junk x hc
    change x ∈ volume.decoded junk (slotsOf c) → _ → _ → _ → _ ∧ (2 : UInt32) = c
    rw [decoded_slotsOf hc]
    rcases hc with rfl | rfl
    · revert x
      decide +kernel
    · revert x
      decide +kernel

end Sample

/-- Into the directory of the sample volume and back. -/
theorem down_and_up_on_sample : ∃ s s₁ s₂ s₃,
    Returns (doMount (diskEnv Sample.volume.dev) mountMessage) (Server.initial fun _ => []) OK s ∧
    Returns (cd (ascii "DIR")) s 0 s₁ ∧ CdsUp 1 s₁ s₂ ∧ s.SamePlace s₂ ∧
    Returns (cd (ascii "DIR" ++ upPath 1)) s 0 s₃ ∧ s.SamePlace s₃ := by
  rcases Sample.mounted fun _ => [] with ⟨s, hmount, hcwd, _⟩
  have hgo : Sample.tree.goTo 2 (components (cstr (ascii "DIR"))) = .ok 3 := by decide +kernel
  have hdir : components (ascii "DIR") = [ascii "DIR"] := by decide +kernel
  rcases Sample.tree.cd_goesTo Sample.plain (.inl rfl) hcwd (ascii "DIR") with ⟨r, s₁, hcd, hend⟩
  rcases hend.arrived hgo with ⟨rfl, _⟩
  have hboth := down_and_up Sample.properTree (.inl rfl) hcwd (by decide +kernel) (by decide)
    (by decide) (by rw [hdir]; decide) hcd
  rw [hdir] at hboth
  rcases hboth with ⟨⟨s₂, hcds, hsame₂⟩, s₃, hcd₃, hsame₃⟩
  exact ⟨s, s₁, s₂, s₃, hmount, hcd, hcds, hsame₂, hcd₃, hsame₃⟩

end Fat32s
