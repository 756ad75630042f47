/-
  Fat32s/Directory.lean
  =====================
  **Looking things up in the directories of a volume.**

  For a directory that has a zero slot, the scans of the source are lookups in
  the list of its named entries: `find_child` finds the first entry that goes by
  the name, and leaves the cursor at its slot.  The names may depend on the bytes
  an uninitialised buffer happens to hold (`junk`), but only through short names
  that start with a space.
-/
import Fat32s.Cursor
import Fat32s.Walk

namespace Fat32s

open Fat32s.Lib Fat32s.Lib.Prog

variable {v : Volume} {s s' : Server} {c : UInt32} {as : List Nat}

/-! ### Named entries -/

/-- The place of a named entry among the entries passed. -/
theorem named_eq_append {names : Names} {es : List DirEntry} {xs ys : List (DirEntry × Name)}
    {x : DirEntry × Name} (h : named names es = xs ++ x :: ys) :
    ∃ pre de post, es = pre ++ de :: post ∧ named names pre = xs ∧ de.type = .short ∧
      x = (de, ((names.after pre).own de).full) := by
  induction es generalizing names xs with
  | nil => simp [named] at h
  | cons de es ih =>
    by_cases hshort : de.type = .short
    · rw [named_cons_short hshort] at h
      cases xs with
      | nil =>
        injection h with hx _
        exact ⟨[], de, es, rfl, rfl, hshort, hx.symm⟩
      | cons x₀ xs =>
        injection h with hx₀ hrest
        obtain ⟨pre, de', post, rfl, hxs, htype, hx⟩ := ih hrest
        exact ⟨de :: pre, de', post, rfl, by rw [named_cons_short hshort, hxs, hx₀], htype, hx⟩
    · rw [named_cons_of_ne_short hshort] at h
      obtain ⟨pre, de', post, rfl, hxs, htype, hx⟩ := ih h
      exact ⟨de :: pre, de', post, rfl, by rw [named_cons_of_ne_short hshort, hxs], htype, hx⟩

theorem mem_named_short {names : Names} {es : List DirEntry} {x : DirEntry × Name}
    (h : x ∈ named names es) : x.1 ∈ es ∧ x.1.type = .short := by
  obtain ⟨xs, ys, hsplit⟩ := List.append_of_mem h
  obtain ⟨pre, de, post, rfl, _, htype, rfl⟩ := named_eq_append hsplit
  exact ⟨by simp, htype⟩

/-- The scans name exactly the short entries. -/
theorem map_fst_named (names : Names) (es : List DirEntry) :
    (named names es).map (·.1) = es.filter (·.type = .short) := by
  induction es generalizing names with
  | nil => rfl
  | cons de es ih =>
    by_cases hshort : de.type = .short
    · rw [named_cons_short hshort, List.map_cons, ih,
        List.filter_cons_of_pos (by simpa using hshort)]
    · rw [named_cons_of_ne_short hshort, ih, List.filter_cons_of_neg (by simpa using hshort)]

/-- An empty slot has no name. -/
theorem named_append_undefined {names : Names} {es : List DirEntry} {de : DirEntry}
    (h : de.type = .undefined) : named names (es ++ [de]) = named names es := by
  simp [named_append, named, h]

/-- The piece in a long slot does not depend on the buffer. -/
theorem getName_of_long {de : DirEntry} (h : de.type = .long) (junk junk' : Name) :
    getName de junk = getName de junk' := by
  simp only [getName, h]

theorem getName_of_base_ne {u : Slot} {p q : Name} {de : DirEntry} (hu : de.u = u)
    (h : de.type = .short → u 0 ≠ 0x20) (hdef : de.type ≠ .undefined) :
    getName de p = getName de q := by
  subst hu
  cases htype : de.type with
  | undefined => exact (hdef htype).elim
  | long => exact getName_of_long htype p q
  | short =>
    have hbase : de.u.shortBase.takeWhile (· ≠ 0x20) =
        de.u 0 :: (de.u.shortBase.drop 1).takeWhile (· ≠ 0x20) := by
      simp [Slot.shortBase, List.takeWhile_cons, h htype]
    simp only [getName, htype, hbase, List.cons_append, List.head?_cons]

/-- Where no short name depends on the buffer, the names do not depend on what it holds. -/
theorem named_of_getName {es : List DirEntry} (p q full : Name)
    (h : ∀ de ∈ es, de.type = .short → ∀ p q, getName de p = getName de q) :
    named ⟨p, full⟩ es = named ⟨q, full⟩ es := by
  induction es generalizing p q full with
  | nil => rfl
  | cons de es ih =>
    have hrest : ∀ p q full, named ⟨p, full⟩ es = named ⟨q, full⟩ es :=
      fun p q full => ih p q full fun de' hde' => h de' (List.mem_cons_of_mem _ hde')
    cases htype : de.type with
    | undefined =>
      rw [named_cons_of_ne_short (by simp [htype]), named_cons_of_ne_short (by simp [htype])]
      simp only [Names.next, htype]
      exact hrest p q full
    | long =>
      have hname := getName_of_long htype p q
      rw [named_cons_of_ne_short (by simp [htype]), named_cons_of_ne_short (by simp [htype])]
      simp only [Names.next, Names.piece, htype, hname]
    | short =>
      have hname := h de (List.mem_cons_self ..) htype p q
      rw [named_cons_short htype, named_cons_short htype]
      by_cases hfull : full = []
      · simp only [Names.next, Names.own, htype, hfull, if_true, hname]
      · simp only [Names.next, Names.own, htype, hfull, if_false]
        rw [hrest p q []]

/-- Without short names that start with a space, the names do not depend on junk. -/
theorem named_junk {es : List DirEntry} (p q full : Name)
    (h : ∀ de ∈ es, de.type = .short → de.u 0 ≠ 0x20) :
    named ⟨p, full⟩ es = named ⟨q, full⟩ es :=
  named_of_getName p q full fun de hde hshort _ _ =>
    getName_of_base_ne rfl (h de hde) (by simp [hshort])

namespace Volume

/-- The parsed slots at the addresses `as`. -/
def entries (v : Volume) (as : List Nat) : List DirEntry := as.map fun a => (v.slot a).entry

/-- The short entries of a directory with the names they go by. -/
def decoded (v : Volume) (junk : Name) (as : List Nat) : List (DirEntry × Name) :=
  named ⟨junk, []⟩ (v.entries as)

/-- The slot of the first entry that goes by a name. -/
def lookup (v : Volume) (junk : Name) (as : List Nat) (query : Name) : Option Slot :=
  ((v.decoded junk as).find? (·.2 = query)).map (·.1.u)

/-- The cluster that `hop` goes to from a slot. -/
def target (v : Volume) (u : Slot) : UInt32 :=
  if u.firstCluster = 0 then v.bpb.rootCluster else u.firstCluster

end Volume

theorem mem_decoded {junk : Name} {x : DirEntry × Name} (h : x ∈ v.decoded junk as) :
    ∃ a ∈ as, x.1 = (v.slot a).entry ∧ x.1.type = .short := by
  obtain ⟨hmem, htype⟩ := mem_named_short h
  obtain ⟨a, ha, hx⟩ := List.mem_map.mp hmem
  exact ⟨a, ha, hx.symm, htype⟩

theorem Volume.shown_of_lookup {junk query : Name} {u : Slot}
    (h : v.lookup junk as query = some u) : shown query = query := by
  obtain ⟨x, hx, _⟩ := Option.map_eq_some_iff.mp h
  have hname : x.2 = query := by simpa using List.find?_some hx
  rw [← hname]
  exact shown_of_mem_named rfl (List.mem_of_find?_eq_some hx)

/-! ### Scans -/

/-- The way to an entry that has a name. -/
theorem Volume.Lists.steps_to_entry {d : Drive} {junk : Name} {xs ys : List (DirEntry × Name)}
    {x : DirEntry × Name} (h : v.Lists c as) (hat : d.At v (v.base c)) (hon : d.On v)
    (hsplit : v.decoded junk as = xs ++ x :: ys) :
    ∃ es d', Steps d es d' ∧ named ⟨junk, []⟩ es = xs ∧
      x.2 = ((Names.after ⟨junk, []⟩ es).own x.1).full ∧ d'.On v ∧ d'.dirBuff.de = x.1 ∧
      ∃ a ∈ as, x.1 = (v.slot a).entry ∧ x.1.type = .short ∧ d'.At v a := by
  obtain ⟨pre, de, post, hes, hxs, htype, rfl⟩ := named_eq_append hsplit
  obtain ⟨bs, cs, rfl, rfl, hcs⟩ := List.map_eq_append_iff.mp hes
  obtain ⟨a, cs, rfl, rfl, _⟩ := List.map_eq_cons_iff.mp hcs
  have hlive : v.slot a 0 ≠ 0 := h.live a (by simp)
  obtain ⟨d', hsteps, hon', hat'⟩ := h.steps_to hat hon
  exact ⟨v.entries bs, d', hsteps, hxs, rfl, hon', hat'.de hlive, a, by simp, rfl, htype, hat'⟩

section scan

variable {α : Type} {hit : DirEntry → Name → ServerM (Option α)} (atEnd : Name → α)
  {stop : DirEntry → Name → Option α} {text : DirEntry → Name → List UInt8}

/-- A scan that stops nowhere runs to the zero slot. -/
theorem Volume.Lists.returns_scan_end (h : v.Lists c as) (hat : s.At v (v.base c)) (hon : s.On v)
    (hhit : Behaves hit stop text)
    (hnone : ∀ x ∈ v.decoded (s.scratch.junk 0) as, stop x.1 x.2 = none) :
    ∃ a d sc, d.On v ∧ Returns (scan hit atEnd) s (atEnd a)
      { s with
        toDrive := d
        scratch := sc
        out := s.out ++ (v.decoded (s.scratch.junk 0) as).flatMap fun x => text x.1 x.2 } := by
  obtain ⟨d, hsteps, hon', hend⟩ := h.steps_all hat hon
  refine ⟨_, d, recordAll s.freshNames (v.entries as ++ [d.dirBuff.de]) s.declared.scratch, hon',
    (returns_scan hhit).mpr ⟨v.entries as, d, hsteps, hnone, .empty hend rfl, ?_⟩⟩
  simp only [Server.scanned, Server.declared, named_append_undefined hend]
  rfl

/-- A scan stops at the first entry it is made to stop at. -/
theorem Volume.Lists.returns_scan_hit (h : v.Lists c as) (hat : s.At v (v.base c)) (hon : s.On v)
    (hhit : Behaves hit stop noText) {xs ys : List (DirEntry × Name)} {x : DirEntry × Name} {r : α}
    (hsplit : v.decoded (s.scratch.junk 0) as = xs ++ x :: ys)
    (hnone : ∀ x ∈ xs, stop x.1 x.2 = none) (hstop : stop x.1 x.2 = some r) :
    ∃ a ∈ as, x.1 = (v.slot a).entry ∧ x.1.type = .short ∧ ∃ d sc, d.On v ∧ d.At v a ∧
      Returns (scan hit atEnd) s r { s with toDrive := d, scratch := sc } := by
  obtain ⟨es, d, hsteps, hxs, hname, hon', hde, a, ha, hentry, htype, hat'⟩ :=
    h.steps_to_entry hat hon hsplit
  refine ⟨a, ha, hentry, htype, d,
    recordAll s.freshNames (es ++ [d.dirBuff.de]) s.declared.scratch, hon', hat',
    (returns_scan hhit).mpr ⟨es, d, hsteps, ?_, .hit (by rw [hde]; exact htype) ?_, ?_⟩⟩
  · intro x hx
    exact hnone x (hxs ▸ hx)
  · rw [hde]
    exact (congrArg (stop x.1) hname).symm.trans hstop
  · simp [Server.scanned, Server.declared]

/-- A scan for the entries with a property stops at the first one, if there is one. -/
theorem Volume.Lists.returns_scan_first (h : v.Lists c as) (hat : s.At v (v.base c))
    (hon : s.On v) {p : DirEntry → Name → Prop} [∀ de name, Decidable (p de name)]
    {found : DirEntry → Name → α}
    (hhit : Behaves hit (fun de name => if p de name then some (found de name) else none) noText) :
    ((∀ x ∈ v.decoded (s.scratch.junk 0) as, ¬ p x.1 x.2) ∧ ∃ name d sc, d.On v ∧
        Returns (scan hit atEnd) s (atEnd name) { s with toDrive := d, scratch := sc }) ∨
      ∃ xs x ys, v.decoded (s.scratch.junk 0) as = xs ++ x :: ys ∧ (∀ y ∈ xs, ¬ p y.1 y.2) ∧
        p x.1 x.2 ∧ ∃ a ∈ as, x.1 = (v.slot a).entry ∧ x.1.type = .short ∧ ∃ d sc, d.On v ∧
          d.At v a ∧
          Returns (scan hit atEnd) s (found x.1 x.2) { s with toDrive := d, scratch := sc } := by
  cases hfind : (v.decoded (s.scratch.junk 0) as).find? (fun x => p x.1 x.2) with
  | none =>
    have hnone : ∀ x ∈ v.decoded (s.scratch.junk 0) as, ¬ p x.1 x.2 := by
      intro x hx
      simpa using List.find?_eq_none.mp hfind x hx
    obtain ⟨name, d, sc, hon', hret⟩ := h.returns_scan_end atEnd hat hon hhit
      fun x hx => if_neg (hnone x hx)
    rw [flatMap_noText, List.append_nil] at hret
    exact .inl ⟨hnone, name, d, sc, hon', hret⟩
  | some x =>
    obtain ⟨hx, xs, ys, hsplit, hxs⟩ := List.find?_eq_some_iff_append.mp hfind
    have hp : p x.1 x.2 := by simpa using hx
    have hnone : ∀ y ∈ xs, ¬ p y.1 y.2 := fun y hy => by simpa using hxs y hy
    obtain ⟨a, ha, hentry, htype, d, sc, hon', hat', hret⟩ := h.returns_scan_hit atEnd hat hon
      hhit hsplit (fun y hy => if_neg (hnone y hy)) (if_pos hp)
    exact .inr ⟨xs, x, ys, hsplit, hnone, hp, a, ha, hentry, htype, d, sc, hon', hat', hret⟩

end scan

/-- **`find_child` looks the name up in the directory.** -/
theorem Volume.Lists.returns_findChild (h : v.Lists c as) (hat : s.At v (v.base c))
    (hon : s.On v) (query : Name) :
    (v.lookup (s.scratch.junk 0) as query = none ∧ ∃ d sc, d.On v ∧
        Returns (findChild query) s 1 { s with toDrive := d, scratch := sc }) ∨
      ∃ a ∈ as, v.lookup (s.scratch.junk 0) as query = some (v.slot a) ∧ ∃ d sc, d.On v ∧
        d.At v a ∧ d.dirBuff.de = (v.slot a).entry ∧ (v.slot a).dirType = .short ∧
        Returns (findChild query) s 0 { s with toDrive := d, scratch := sc } := by
  rcases h.returns_scan_first (fun _ => (1 : Int)) hat hon
    (behaves_pure fun _ name => if name = query then some (0 : Int) else none) with
    ⟨hnone, _, d, sc, hon', hret⟩ |
    ⟨xs, x, ys, hsplit, hxs, hx, a, ha, hentry, htype, d, sc, hon', hat', hret⟩
  · have hfind : (v.decoded (s.scratch.junk 0) as).find? (·.2 = query) = none :=
      List.find?_eq_none.mpr fun x hx => by simpa using hnone x hx
    exact .inl ⟨by rw [Volume.lookup, hfind]; rfl, d, sc, hon', hret⟩
  · have hfind : (v.decoded (s.scratch.junk 0) as).find? (·.2 = query) = some x :=
      List.find?_eq_some_iff_append.mpr ⟨by simpa using hx, xs, ys, hsplit, fun y hy => by
        simpa using hxs y hy⟩
    rw [hentry] at htype
    exact .inr ⟨a, ha, by rw [Volume.lookup, hfind, Option.map_some, hentry]; rfl, d, sc, hon',
      hat', hat'.de (h.live a ha), htype, hret⟩

/-- `find_child_by_cluster_id` finds the first entry that leads to the cluster. -/
theorem Volume.Lists.returns_findChildByClusterId (h : v.Lists c as) (hat : s.At v (v.base c))
    (hon : s.On v) (id : UInt32) :
    ((∀ x ∈ v.decoded (s.scratch.junk 0) as, x.1.u.clusterId ≠ id) ∧ ∃ name d sc, d.On v ∧
        Returns (findChildByClusterId id) s (name, 1) { s with toDrive := d, scratch := sc }) ∨
      ∃ xs x ys, v.decoded (s.scratch.junk 0) as = xs ++ x :: ys ∧
        (∀ y ∈ xs, y.1.u.clusterId ≠ id) ∧ x.1.u.clusterId = id ∧ ∃ a ∈ as,
        x.1 = (v.slot a).entry ∧ x.1.type = .short ∧ ∃ d sc, d.On v ∧ d.dirBuff.de = x.1 ∧
          Returns (findChildByClusterId id) s (x.2, 0)
            { s with toDrive := d, scratch := sc } := by
  rcases h.returns_scan_first (fun name => (name, (1 : Int))) hat hon
    (behaves_pure fun (de : DirEntry) (name : Name) =>
      if id = de.u.clusterId then some (name, (0 : Int)) else none) with
    ⟨hnone, hend⟩ | ⟨xs, x, ys, hsplit, hxs, hx, a, ha, hentry, htype, d, sc, hon', hat', hret⟩
  · exact .inl ⟨fun x hx heq => hnone x hx heq.symm, hend⟩
  · exact .inr ⟨xs, x, ys, hsplit, fun y hy heq => hxs y hy heq.symm, hx.symm, a, ha, hentry, htype,
      d, sc, hon', (hat'.de (h.live a ha)).trans hentry.symm, hret⟩

end Fat32s
