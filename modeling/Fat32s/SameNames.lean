/-
  Fat32s/SameNames.lean
  =====================
  **ls and the lookups see the same names, on any disk.**

  The source has the scanning loop three times: in `_ls`, in `find_child` and in
  `find_child_by_cluster_id`.  Whatever the disk holds, as long as the listing comes
  to an end, they give each short slot the same name: what ls prints is found under
  that name, at the first slot that goes by it, and nothing else is found.

  The one exception are short names that start with a space.  `get_name` leaves such
  a name to what an uninitialised buffer holds, which differs from call to call, so
  the statement is made for any contents of the buffers and for slots without it.
-/
import Fat32s.Ls
import Fat32s.Rollback

namespace Fat32s

open Fat32s.Lib Fat32s.Lib.Prog

variable {d d' : Drive} {s s' : Server}

/-! ### Tours -/

/-- From `d` the cursor goes on, one `next_dir_entry` after the other, until it is at
    `d'`; `ds` are the drives on the way. -/
inductive Tour : Drive → List Drive → Drive → Prop
  | refl (d : Drive) : Tour d [] d
  | step {d d₁ d' : Drive} {t : DirType} {ds : List Drive}
      (htype : d.dirBuff.de.type ≠ .undefined) (hnext : Returns nextDirEntry d t d₁)
      (hrest : Tour d₁ ds d') : Tour d (d :: ds) d'

/-- The entries that the cursor was at. -/
def entriesOf (ds : List Drive) : List DirEntry := ds.map (·.dirBuff.de)

theorem Steps.tour {es : List DirEntry} (h : Steps d es d') :
    ∃ ds, Tour d ds d' ∧ es = entriesOf ds := by
  induction h with
  | refl d => exact ⟨[], .refl d, rfl⟩
  | @step d _ _ _ _ htype hnext _ ih =>
    obtain ⟨ds, htour, rfl⟩ := ih
    exact ⟨d :: ds, .step htype hnext htour, rfl⟩

namespace Tour

variable {ds : List Drive}

theorem steps (h : Tour d ds d') : Steps d (entriesOf ds) d' := by
  induction h with
  | refl d => exact .refl d
  | step htype hnext _ ih => exact .step htype hnext ih

/-- A tour can be left at any drive on its way. -/
theorem split {pre post : List Drive} {d₁ : Drive} (h : Tour d (pre ++ d₁ :: post) d') :
    Tour d pre d₁ := by
  induction pre generalizing d with
  | nil =>
    cases h with
    | step _ _ _ => exact .refl _
  | cons d₀ pre ih =>
    cases h with
    | step htype hnext hrest => exact .step htype hnext (ih hrest)

/-- Wherever the cursor gets before the end of the directory is on the tour. -/
theorem passes {es : List DirEntry} {d₁ : Drive} (h : Tour d ds d')
    (hend : d'.dirBuff.de.type = .undefined) (hsteps : Steps d es d₁)
    (htype : d₁.dirBuff.de.type ≠ .undefined) :
    ∃ pre post, ds = pre ++ d₁ :: post ∧ es = entriesOf pre := by
  induction h generalizing es with
  | refl d =>
    cases hsteps with
    | refl _ => exact (htype hend).elim
    | step htype' _ _ => exact (htype' hend).elim
  | @step d _ _ _ ds _ hnext _ ih =>
    cases hsteps with
    | refl _ => exact ⟨[], ds, rfl, rfl⟩
    | step _ hnext' hrest =>
      obtain ⟨_, rfl⟩ := hnext.unique hnext'
      obtain ⟨pre, post, rfl, rfl⟩ := ih hend hrest
      exact ⟨d :: pre, post, rfl, rfl⟩

end Tour

/-- No short name from the cursor on starts with a space. -/
def Drive.PlainAhead (d : Drive) : Prop :=
  ∀ ⦃es d'⦄, Steps d es d' → d'.dirBuff.de.type = .short → d'.dirBuff.de.u 0 ≠ 0x20

theorem Tour.plain {ds : List Drive} (h : Tour d ds d') (hplain : d.PlainAhead) :
    ∀ de ∈ entriesOf ds, de.type = .short → de.u 0 ≠ 0x20 := by
  intro de hde
  obtain ⟨d₁, hd₁, rfl⟩ := List.mem_map.mp hde
  obtain ⟨pre, post, rfl⟩ := List.append_of_mem hd₁
  exact hplain h.split.steps

/-! ### The lines of a listing -/

/-- A short slot, where it is, and the name it goes by. -/
structure Line where
  cursor : DirBuff
  name : Name

def Line.text (l : Line) : List UInt8 := lsLine l.cursor.de l.name

/-- The lines for the short slots on a tour. -/
def linesOf : Names → List Drive → List Line
  | _, [] => []
  | names, d :: ds =>
    (if d.dirBuff.de.type = .short then [⟨d.dirBuff, (names.own d.dirBuff.de).full⟩] else []) ++
      linesOf (names.next d.dirBuff.de) ds

theorem map_linesOf (names : Names) (ds : List Drive) :
    (linesOf names ds).map (fun l => (l.cursor.de, l.name)) = named names (entriesOf ds) := by
  induction ds generalizing names with
  | nil => rfl
  | cons d ds ih =>
    rw [linesOf, List.map_append, ih]
    by_cases hshort : d.dirBuff.de.type = .short
    · rw [if_pos hshort]
      exact (named_cons_short hshort).symm
    · rw [if_neg hshort]
      exact (named_cons_of_ne_short hshort).symm

/-- The place of a line on the tour. -/
theorem linesOf_eq_append {names : Names} {ds : List Drive} {xs ys : List Line} {l : Line}
    (h : linesOf names ds = xs ++ l :: ys) :
    ∃ pre d post, ds = pre ++ d :: post ∧ linesOf names pre = xs ∧ d.dirBuff.de.type = .short ∧
      l = ⟨d.dirBuff, ((names.after (entriesOf pre)).own d.dirBuff.de).full⟩ := by
  induction ds generalizing names xs with
  | nil => simp [linesOf] at h
  | cons d ds ih =>
    rw [linesOf] at h
    by_cases hshort : d.dirBuff.de.type = .short
    · rw [if_pos hshort] at h
      cases xs with
      | nil =>
        injection h with hl _
        exact ⟨[], d, ds, rfl, rfl, hshort, hl.symm⟩
      | cons x xs =>
        injection h with hx hrest
        obtain ⟨pre, d', post, rfl, rfl, hshort', hl⟩ := ih hrest
        refine ⟨d :: pre, d', post, rfl, ?_, hshort', hl⟩
        rw [linesOf, if_pos hshort, hx]
        rfl
    · rw [if_neg hshort] at h
      obtain ⟨pre, d', post, rfl, rfl, hshort', hl⟩ := ih h
      refine ⟨d :: pre, d', post, rfl, ?_, hshort', hl⟩
      rw [linesOf, if_neg hshort]
      rfl

theorem mem_linesOf {names : Names} {pre post : List Drive}
    (hshort : d.dirBuff.de.type = .short) :
    ⟨d.dirBuff, ((names.after (entriesOf pre)).own d.dirBuff.de).full⟩ ∈
      linesOf names (pre ++ d :: post) := by
  induction pre generalizing names with
  | nil =>
    rw [List.nil_append, linesOf, if_pos hshort]
    exact List.mem_cons_self
  | cons d₀ pre ih => exact List.mem_append_right _ ih

/-- The name of the entry under the cursor does not depend on junk either. -/
theorem own_junk {es : List DirEntry} {de : DirEntry} (p q : Name) (hshort : de.type = .short)
    (hplain : ∀ x ∈ es, x.type = .short → x.u 0 ≠ 0x20) (hde : de.u 0 ≠ 0x20) :
    ((Names.after ⟨p, []⟩ es).own de).full = ((Names.after ⟨q, []⟩ es).own de).full := by
  have hall : ∀ x ∈ es ++ [de], x.type = .short → x.u 0 ≠ 0x20 := by
    intro x hx
    rcases List.mem_append.mp hx with hx | hx
    · exact hplain x hx
    · rw [List.mem_singleton.mp hx]
      exact fun _ => hde
  have hnames := named_junk p q [] hall
  rw [named_append, named_append, named_cons_short hshort, named_cons_short hshort] at hnames
  have hlast := (List.append_inj' hnames rfl).2
  injection hlast with hpair
  exact (Prod.mk.inj hpair).2

/-! ### The three loops -/

/-- What ls prints, and what the lookups find when they start where it started.  Their
    buffers may hold anything. -/
structure SameNames (s s' : Server) (lines : List Line) (d : Drive) : Prop where
  printed : s'.out = s.out ++ lines.flatMap Line.text
  found_iff : ∀ q sc,
    (∃ s₁, Returns (findChild q) { s with scratch := sc } 0 s₁) ↔ ∃ l ∈ lines, l.name = q
  found : ∀ q sc l, lines.find? (·.name = q) = some l →
    ∃ s₁, Returns (findChild q) { s with scratch := sc } 0 s₁ ∧ s₁.dirBuff = l.cursor
  missed : ∀ q sc, (∀ l ∈ lines, l.name ≠ q) →
    ∃ s₁, Returns (findChild q) { s with scratch := sc } 1 s₁ ∧ s₁.dirBuff = d.dirBuff
  byCluster : ∀ id sc name s₁,
    Returns (findChildByClusterId id) { s with scratch := sc } (name, 0) s₁ →
      ∃ l ∈ lines, l.cursor = s₁.dirBuff ∧ l.name = name

section tour

variable {ds : List Drive} (htour : Tour s.toDrive ds d) (hplain : s.PlainAhead)

include htour hplain

/-- The names on the tour, whatever the buffer holds. -/
theorem Tour.named_eq (junk : Name) : named ⟨junk, []⟩ (entriesOf ds) =
    (linesOf ⟨[], []⟩ ds).map fun l => (l.cursor.de, l.name) := by
  rw [map_linesOf]
  exact named_junk junk [] [] (htour.plain hplain)

theorem Tour.returns_findChild_of_first {q : Name} {l : Line} (sc : Scratch)
    (hl : (linesOf ⟨[], []⟩ ds).find? (·.name = q) = some l) :
    ∃ s₁, Returns (findChild q) { s with scratch := sc } 0 s₁ ∧ s₁.dirBuff = l.cursor := by
  obtain ⟨hname, xs, ys, hsplit, hxs⟩ := List.find?_eq_some_iff_append.mp hl
  obtain ⟨pre, d₁, post, rfl, rfl, hshort, rfl⟩ := linesOf_eq_append hsplit
  have hpre := htour.split
  refine ⟨_, returns_findChild.mpr
    ⟨entriesOf pre, d₁, hpre.steps, ?_, .inr ⟨rfl, hshort, ?_⟩, rfl⟩, rfl⟩
  · intro x hx
    rw [Server.freshNames, hpre.named_eq hplain] at hx
    obtain ⟨l, hl, rfl⟩ := List.mem_map.mp hx
    simpa using hxs l hl
  · have hq : ((Names.after ⟨[], []⟩ (entriesOf pre)).own d₁.dirBuff.de).full = q := by
      simpa using hname
    rw [← hq]
    exact own_junk _ _ hshort (hpre.plain hplain) (hplain hpre.steps hshort)

theorem Tour.returns_findChild_of_none {q : Name} (sc : Scratch)
    (hend : d.dirBuff.de.type = .undefined) (hnone : ∀ l ∈ linesOf ⟨[], []⟩ ds, l.name ≠ q) :
    ∃ s₁, Returns (findChild q) { s with scratch := sc } 1 s₁ ∧ s₁.dirBuff = d.dirBuff := by
  refine ⟨_, returns_findChild.mpr ⟨entriesOf ds, d, htour.steps, ?_, .inl ⟨rfl, hend⟩, rfl⟩, rfl⟩
  intro x hx
  rw [Server.freshNames, htour.named_eq hplain] at hx
  obtain ⟨l, hl, rfl⟩ := List.mem_map.mp hx
  exact hnone l hl

theorem Tour.findChildByClusterId_line {id : UInt32} {sc : Scratch} {name : Name} {s₁ : Server}
    (hend : d.dirBuff.de.type = .undefined)
    (h : Returns (findChildByClusterId id) { s with scratch := sc } (name, 0) s₁) :
    ∃ l ∈ linesOf ⟨[], []⟩ ds, l.cursor = s₁.dirBuff ∧ l.name = name := by
  obtain ⟨es, d₁, hsteps, _, hstop, rfl⟩ := returns_findChildByClusterId.mp h
  rcases hstop with ⟨hone, _⟩ | ⟨_, hshort, _, rfl⟩
  · cases hone
  · obtain ⟨pre, post, rfl, rfl⟩ := htour.passes hend hsteps (by simp [hshort])
    refine ⟨_, mem_linesOf hshort, rfl, ?_⟩
    exact own_junk _ _ hshort (htour.split.plain hplain) (hplain hsteps hshort)

theorem Tour.sameNames (hend : d.dirBuff.de.type = .undefined)
    (hout : s'.out = s.out ++ (linesOf ⟨[], []⟩ ds).flatMap Line.text) :
    SameNames s s' (linesOf ⟨[], []⟩ ds) d where
  printed := hout
  found_iff := by
    intro q sc
    constructor
    · rintro ⟨s₁, hret⟩
      by_contra hnone
      obtain ⟨s₂, hret', _⟩ := htour.returns_findChild_of_none hplain (q := q) sc hend
        fun l hl hname => hnone ⟨l, hl, hname⟩
      cases (hret.unique hret').1
    · rintro ⟨l, hl, hname⟩
      have hsome : ((linesOf ⟨[], []⟩ ds).find? (·.name = q)).isSome := by
        rw [List.find?_isSome]
        exact ⟨l, hl, by simpa using hname⟩
      obtain ⟨l', hl'⟩ := Option.isSome_iff_exists.mp hsome
      obtain ⟨s₁, hret, _⟩ := htour.returns_findChild_of_first hplain sc hl'
      exact ⟨s₁, hret⟩
  found := fun q sc l hl => htour.returns_findChild_of_first hplain sc hl
  missed := fun q sc hnone => htour.returns_findChild_of_none hplain sc hend hnone
  byCluster := fun id sc name s₁ h => htour.findChildByClusterId_line hplain hend h

end tour

/-- `ls .` lists from where the cursor is. -/
theorem returns_ls_dot {r : Int} (h : Returns (ls (ascii ".")) s r s') :
    ∃ es d, Steps s.toDrive es d ∧ d.dirBuff.de.type = .undefined ∧
      s'.out = s.out ++ (named ⟨s.scratch.junk 0, []⟩ es).flatMap fun x => lsLine x.1 x.2 := by
  unfold ls at h
  simp only [returns_globals_bind, returns_push_bind, if_true, returns_pure_bind, ne_eq,
    not_true_eq_false, if_false] at h
  obtain ⟨_, s₁, hlist, h⟩ := returns_bind.mp h
  obtain ⟨es, d, hsteps, hend, rfl⟩ := returns_listEntries.mp hlist
  obtain ⟨_, s₂, hroll, hret⟩ := returns_bind.mp h
  obtain ⟨_, _, _, _, rfl⟩ := returns_rollback.mp hroll
  obtain ⟨_, rfl⟩ := returns_pure.mp hret
  refine ⟨es, d, hsteps, hend, ?_⟩
  simp only [Server.scanned, Server.declared, named_append_undefined hend]
  rfl

/-- **ls and the lookups see the same names.** -/
theorem ls_and_lookups_see_same_names {r : Int} (hplain : s.PlainAhead)
    (hls : Returns (ls (ascii ".")) s r s') :
    ∃ ds d, Tour s.toDrive ds d ∧ d.dirBuff.de.type = .undefined ∧
      SameNames s s' (linesOf ⟨[], []⟩ ds) d := by
  obtain ⟨es, d, hsteps, hend, hout⟩ := returns_ls_dot hls
  obtain ⟨ds, htour, rfl⟩ := hsteps.tour
  rw [htour.named_eq hplain, List.flatMap_map] at hout
  exact ⟨ds, d, htour, hend, htour.sameNames hplain hend hout⟩

/-- A directory of a volume whose short names do not start with a space. -/
theorem Drive.Cwd.plainAhead {v : Volume} {c : UInt32} {as : List Nat} (hcwd : d.Cwd v c)
    (hdir : v.Lists c as) (hplain : v.PlainNames as) : d.PlainAhead := by
  obtain ⟨d', hall, _, hend⟩ := hdir.steps_all hcwd.cursor hcwd.on
  obtain ⟨ds, htour, hds⟩ := hall.tour
  intro es d₁ hsteps hshort
  obtain ⟨pre, post, rfl, _⟩ := htour.passes hend hsteps (by simp [hshort])
  have hmem : d₁.dirBuff.de ∈ entriesOf (pre ++ d₁ :: post) := by simp [entriesOf]
  rw [← hds] at hmem
  obtain ⟨a, ha, hentry⟩ := List.mem_map.mp hmem
  rw [← hentry] at hshort ⊢
  exact hplain a ha hshort

/-- The root directory of the sample volume, just mounted. -/
theorem sample_names_seen : ∃ s s' ds d, s.PlainAhead ∧ Returns (ls (ascii ".")) s OK s' ∧
    Tour s.toDrive ds d ∧ SameNames s s' (linesOf ⟨[], []⟩ ds) d := by
  obtain ⟨s, _, hcwd, _⟩ := Sample.mounted fun _ => []
  have hnames : Sample.volume.PlainNames [1024, 1056, 1088, 1120] := by
    unfold Volume.PlainNames
    decide +kernel
  have hplain : s.PlainAhead := hcwd.plainAhead Sample.lists_root hnames
  obtain ⟨s', hls, _⟩ := hcwd.returns_ls_dot Sample.lists_root
  obtain ⟨ds, d, htour, _, hsame⟩ := ls_and_lookups_see_same_names hplain hls
  exact ⟨s, s', ds, d, hplain, hls, htour, hsame⟩

end Fat32s
