/-
  Fat32s/Scan.lean
  ================
  **Directory scans on any disk.**

  `Steps d es d'` is what the cursor does alone: from `d` it passes the entries
  `es`, one `next_dir_entry` each, and stands at `d'`.  No assumption is made on
  the disk, and nothing is said about how far the cursor gets.  `named` is what
  the scans make of the entries passed: the short ones, each with the name it
  goes by, which depends on the long entries since the short entry before it.

  `returns_scan` then describes all three scan loops at once: they return
  exactly when the cursor reaches an empty slot or an entry they stop at, and
  they have then seen the entries passed, in order, and nothing else.
-/
import Fat32s.Rules

namespace Fat32s

open Fat32s.Lib Fat32s.Lib.Prog

variable {d d' : Drive} {s s' : Server}

/-- The cursor of `d` passes the entries `es` and then stands at `d'`. -/
inductive Steps : Drive → List DirEntry → Drive → Prop
  | refl (d : Drive) : Steps d [] d
  | step {d d₁ d' : Drive} {t : DirType} {es : List DirEntry}
      (htype : d.dirBuff.de.type ≠ .undefined) (hnext : Returns nextDirEntry d t d₁)
      (hrest : Steps d₁ es d') : Steps d (d.dirBuff.de :: es) d'

/-! ### The names that a scan assigns -/

namespace Names

def piece (names : Names) (de : DirEntry) : Names :=
  ⟨getName de names.part ++ names.full, getName de names.part ++ names.full⟩

def own (names : Names) (de : DirEntry) : Names :=
  if names.full = [] then ⟨getName de names.part, getName de names.part⟩ else names

/-- The loop variables once the entry has been passed. -/
def next (names : Names) (de : DirEntry) : Names :=
  match de.type with
  | .undefined => names
  | .long => names.piece de
  | .short => { names.own de with full := [] }

def after (names : Names) (es : List DirEntry) : Names := es.foldl next names

end Names

def Scratch.put (sc : Scratch) (str : Name) : Scratch :=
  { sc with stored := (MAX_NAME_LEN, str.length) :: sc.stored }

/-- The name buffers written while an entry is passed. -/
def Names.record (names : Names) (de : DirEntry) (sc : Scratch) : Scratch :=
  match de.type with
  | .undefined => sc
  | .long => ((sc.put (getName de names.part)).put (names.piece de).full).put (names.piece de).full
  | .short =>
    if names.full = [] then (sc.put (getName de names.part)).put (getName de names.part) else sc

def recordAll : Names → List DirEntry → Scratch → Scratch
  | _, [], sc => sc
  | names, de :: es, sc => recordAll (names.next de) es (names.record de sc)

/-- The short entries among `es`, each with the name it goes by. -/
def named : Names → List DirEntry → List (DirEntry × Name)
  | _, [] => []
  | names, de :: es =>
    match de.type with
    | .short => (de, (names.own de).full) :: named (names.next de) es
    | _ => named (names.next de) es

theorem named_cons_short {names : Names} {de : DirEntry} {es : List DirEntry}
    (h : de.type = .short) :
    named names (de :: es) = (de, (names.own de).full) :: named (names.next de) es := by
  simp [named, h]

theorem named_cons_of_ne_short {names : Names} {de : DirEntry} {es : List DirEntry}
    (h : de.type ≠ .short) : named names (de :: es) = named (names.next de) es := by
  cases ht : de.type with
  | undefined => simp [named, ht]
  | long => simp [named, ht]
  | short => exact (h ht).elim

theorem named_append (names : Names) (es fs : List DirEntry) :
    named names (es ++ fs) = named names es ++ named (names.after es) fs := by
  induction es generalizing names with
  | nil => rfl
  | cons de es ih =>
    by_cases h : de.type = .short
    · simp only [List.cons_append, named_cons_short h, ih]
      rfl
    · simp only [List.cons_append, named_cons_of_ne_short h, ih]
      rfl

theorem returns_addPiece {de : DirEntry} {names r : Names} (h : de.type = .long) :
    Returns (addPiece de names) s r s' ↔
      r = names.piece de ∧ s' = { s with scratch := names.record de s.scratch } := by
  simp [addPiece, store, Names.piece, Names.record, Scratch.put, h]

theorem returns_ownName {de : DirEntry} {names r : Names} (h : de.type = .short) :
    Returns (ownName de names) s r s' ↔
      r = names.own de ∧ s' = { s with scratch := names.record de s.scratch } := by
  by_cases hfull : names.full = []
  · simp [ownName, store, Names.own, Names.record, Scratch.put, h, hfull]
  · simp [ownName, Names.own, Names.record, h, hfull]

/-! ### The scan loop -/

section Scan

variable {α : Type} {hit : DirEntry → Name → ServerM (Option α)} {atEnd : Name → α}
  {stop : DirEntry → Name → Option α} {text : DirEntry → Name → List UInt8}

/-- Why a scan returns `a`: at an empty slot, or at an entry it stops at. -/
inductive ScanEnd (stop : DirEntry → Name → Option α) (atEnd : Name → α) (names : Names)
    (de : DirEntry) (a : α) : Prop
  | empty (htype : de.type = .undefined) (ha : a = atEnd names.full)
  | hit (htype : de.type = .short) (ha : stop de (names.own de).full = some a)

/-- The server once a scan has passed `es` and looked at the entry under the cursor. -/
def Server.scanned (s : Server) (text : DirEntry → Name → List UInt8) (names : Names)
    (es : List DirEntry) (d : Drive) : Server :=
  { s with
    toDrive := d
    scratch := recordAll names (es ++ [d.dirBuff.de]) s.scratch
    out := s.out ++ (named names (es ++ [d.dirBuff.de])).flatMap fun x => text x.1 x.2 }

/-- `hit` prints `text` and stops where `stop` says so. -/
def Behaves (hit : DirEntry → Name → ServerM (Option α)) (stop : DirEntry → Name → Option α)
    (text : DirEntry → Name → List UInt8) : Prop :=
  ∀ de name s r s', Returns (hit de name) s r s' ↔
    r = stop de name ∧ s' = { s with out := s.out ++ text de name }

theorem returns_scanStep_inl (hhit : Behaves hit stop text) {names names' : Names} :
    Returns (scanStep hit atEnd names) s (.inl names') s' ↔
      s.dirBuff.de.type ≠ .undefined ∧
        (∀ x ∈ named names [s.dirBuff.de], stop x.1 x.2 = none) ∧
        names' = names.next s.dirBuff.de ∧
        ∃ t d₁, Returns nextDirEntry s.toDrive t d₁ ∧
          s' = { s with
            toDrive := d₁
            scratch := names.record s.dirBuff.de s.scratch
            out := s.out ++ (named names [s.dirBuff.de]).flatMap fun x => text x.1 x.2 } := by
  unfold scanStep
  rw [returns_globals_bind]
  simp only [onDrive_server]
  cases htype : s.dirBuff.de.type with
  | undefined => simp
  | long =>
    simp only [returns_bind, returns_addPiece htype, returns_liftM, returns_pure]
    constructor
    · rintro ⟨_, _, ⟨rfl, rfl⟩, t, _, ⟨d₁, hnext, rfl⟩, hnames, rfl⟩
      refine ⟨by simp, by simp [named, htype], ?_, t, d₁, hnext, by simp [named, htype]⟩
      simpa [Names.next, htype] using hnames
    · rintro ⟨_, _, rfl, t, d₁, hnext, rfl⟩
      exact ⟨_, _, ⟨rfl, rfl⟩, t, _, ⟨d₁, hnext, rfl⟩, by simp [Names.next, htype],
        by simp [named, htype]⟩
  | short =>
    simp only [returns_bind, returns_ownName htype, hhit _ _ _ _ _]
    constructor
    · rintro ⟨_, _, ⟨rfl, rfl⟩, r, _, ⟨hr, rfl⟩, hcont⟩
      cases r with
      | some a => simp at hcont
      | none =>
        simp only [returns_bind, returns_liftM, returns_pure] at hcont
        obtain ⟨t, _, ⟨d₁, hnext, rfl⟩, hnames, rfl⟩ := hcont
        refine ⟨by simp, by simp [named, htype, hr], ?_, t, d₁, hnext, by simp [named, htype]⟩
        simpa [Names.next, htype] using hnames
    · rintro ⟨_, hstop, rfl, t, d₁, hnext, rfl⟩
      have hnone : none = stop s.dirBuff.de (names.own s.dirBuff.de).full := by
        simpa [named, htype, eq_comm] using hstop
      refine ⟨_, _, ⟨rfl, rfl⟩, none, _, ⟨hnone, rfl⟩, ?_⟩
      simp only [returns_bind, returns_liftM, returns_pure]
      exact ⟨t, _, ⟨d₁, hnext, rfl⟩, by simp [Names.next, htype], by simp [named, htype]⟩

theorem returns_scanStep_inr (hhit : Behaves hit stop text) {names : Names} {a : α} :
    Returns (scanStep hit atEnd names) s (.inr a) s' ↔
      ScanEnd stop atEnd names s.dirBuff.de a ∧ s' = s.scanned text names [] s.toDrive := by
  unfold scanStep
  rw [returns_globals_bind]
  simp only [onDrive_server]
  cases htype : s.dirBuff.de.type with
  | undefined =>
    have hs : s.scanned text names [] s.toDrive = s := by
      simp [Server.scanned, recordAll, Names.record, named, htype]
    simp only [returns_pure, Sum.inr.injEq, hs]
    constructor
    · rintro ⟨rfl, rfl⟩
      exact ⟨.empty htype rfl, rfl⟩
    · rintro ⟨hend, rfl⟩
      cases hend with
      | empty _ ha => exact ⟨ha, rfl⟩
      | hit h _ => rw [htype] at h; cases h
  | long =>
    simp only [returns_bind, returns_pure]
    constructor
    · rintro ⟨_, _, _, _, _, _, h, _⟩
      cases h
    · rintro ⟨hend, _⟩
      cases hend with
      | empty h _ => rw [htype] at h; cases h
      | hit h _ => rw [htype] at h; cases h
  | short =>
    simp only [returns_bind, returns_ownName htype, hhit _ _ _ _ _]
    constructor
    · rintro ⟨_, _, ⟨rfl, rfl⟩, r, _, ⟨hr, rfl⟩, hcont⟩
      cases r with
      | some b =>
        simp only [returns_pure, Sum.inr.injEq] at hcont
        obtain ⟨rfl, rfl⟩ := hcont
        exact ⟨.hit htype hr.symm, by simp [Server.scanned, recordAll, named, htype]⟩
      | none =>
        simp only [returns_bind, returns_pure] at hcont
        obtain ⟨_, _, _, h, _⟩ := hcont
        cases h
    · rintro ⟨hend, rfl⟩
      cases hend with
      | empty h _ => rw [htype] at h; cases h
      | hit _ ha =>
        refine ⟨_, _, ⟨rfl, rfl⟩, some a, _, ⟨ha.symm, rfl⟩, ?_⟩
        simp [Server.scanned, recordAll, named, htype]

/-- **The scan loop.**  It returns exactly when the cursor passes entries it
    does not stop at and comes to one where it ends. -/
theorem returns_scanLoop (hhit : Behaves hit stop text) {names : Names} {a : α} :
    Returns (iter (scanStep hit atEnd) names) s a s' ↔
      ∃ es d, Steps s.toDrive es d ∧ (∀ x ∈ named names es, stop x.1 x.2 = none) ∧
        ScanEnd stop atEnd (names.after es) d.dirBuff.de a ∧ s' = s.scanned text names es d := by
  constructor
  · intro h
    refine returns_iter_induct (motive := fun names s a s' =>
      ∃ es d, Steps s.toDrive es d ∧ (∀ x ∈ named names es, stop x.1 x.2 = none) ∧
        ScanEnd stop atEnd (names.after es) d.dirBuff.de a ∧ s' = s.scanned text names es d)
      ?_ ?_ h
    · intro names s a s' hstop
      obtain ⟨hend, hs⟩ := (returns_scanStep_inr hhit).mp hstop
      exact ⟨[], s.toDrive, .refl _, by simp [named], hend, hs⟩
    · rintro names s names' s₁ a s' hround ⟨es, d, hsteps, hnone, hend, rfl⟩
      obtain ⟨htype, hhead, rfl, t, d₁, hnext, rfl⟩ := (returns_scanStep_inl hhit).mp hround
      have hsplit : named names (s.dirBuff.de :: es) =
          named names [s.dirBuff.de] ++ named (names.next s.dirBuff.de) es :=
        named_append names [s.dirBuff.de] es
      refine ⟨s.dirBuff.de :: es, d, .step htype hnext hsteps, ?_, hend, ?_⟩
      · intro x hx
        rw [hsplit] at hx
        rcases List.mem_append.mp hx with h | h
        · exact hhead x h
        · exact hnone x h
      · have hsplit' := named_append names [s.dirBuff.de] (es ++ [d.dirBuff.de])
        simp only [List.singleton_append] at hsplit'
        simp only [Server.scanned, List.cons_append, recordAll, hsplit', List.flatMap_append,
          List.append_assoc]
        rfl
  · rintro ⟨es, d, hsteps, hnone, hend, rfl⟩
    generalize hd₀ : s.toDrive = d₀ at hsteps
    induction hsteps generalizing s names with
    | refl d =>
      subst hd₀
      exact returns_iter.mpr (.inl ((returns_scanStep_inr hhit).mpr ⟨hend, rfl⟩))
    | @step d d₁ d' t es htype hnext hrest ih =>
      subst hd₀
      have hsplit : named names (s.dirBuff.de :: es) =
          named names [s.dirBuff.de] ++ named (names.next s.dirBuff.de) es :=
        named_append names [s.dirBuff.de] es
      have hsplit' := named_append names [s.dirBuff.de] (es ++ [d'.dirBuff.de])
      simp only [List.singleton_append] at hsplit'
      rw [hsplit] at hnone
      refine returns_iter.mpr (.inr ⟨names.next s.dirBuff.de, _,
        (returns_scanStep_inl hhit).mpr ⟨htype, fun x hx => hnone x (List.mem_append_left _ hx),
          rfl, t, d₁, hnext, rfl⟩, ?_⟩)
      have hih := ih (s := { s with
          toDrive := d₁
          scratch := names.record s.dirBuff.de s.scratch
          out := s.out ++ (named names [s.dirBuff.de]).flatMap fun x => text x.1 x.2 })
        (fun x hx => hnone x (List.mem_append_right _ hx)) hend rfl
      simp only [Server.scanned, List.cons_append, recordAll, hsplit', List.flatMap_append,
        List.append_assoc] at hih ⊢
      exact hih

/-- The server once the name buffers of a scan are declared. -/
def Server.declared (s : Server) : Server :=
  { s with scratch := { s.scratch with junk := fun n => s.scratch.junk (n + 1) } }

/-- The loop variables of a scan that starts in `s`. -/
def Server.freshNames (s : Server) : Names := ⟨s.scratch.junk 0, []⟩

theorem returns_scan (hhit : Behaves hit stop text) {a : α} :
    Returns (scan hit atEnd) s a s' ↔
      ∃ es d, Steps s.toDrive es d ∧ (∀ x ∈ named s.freshNames es, stop x.1 x.2 = none) ∧
        ScanEnd stop atEnd (s.freshNames.after es) d.dirBuff.de a ∧
        s' = s.declared.scanned text s.freshNames es d := by
  simp only [scan, onServer_server, newBuffer, returns_bind, returns_get, returns_modify,
    returns_pure]
  constructor
  · rintro ⟨_, _, ⟨_, _, ⟨rfl, rfl⟩, _, _, rfl, rfl, rfl⟩, hloop⟩
    exact (returns_scanLoop hhit).mp hloop
  · intro h
    exact ⟨_, _, ⟨_, _, ⟨rfl, rfl⟩, (), _, rfl, rfl, rfl⟩, (returns_scanLoop hhit).mpr h⟩

end Scan

/-! ### The three scans of the source -/

def noText (_ : DirEntry) (_ : Name) : List UInt8 := []

@[simp] theorem flatMap_noText (xs : List (DirEntry × Name)) :
    (xs.flatMap fun x => noText x.1 x.2) = [] :=
  List.flatMap_eq_nil_iff.mpr fun _ _ => rfl

theorem behaves_pure {α : Type} (stop : DirEntry → Name → Option α) :
    Behaves (fun de name => pure (stop de name)) stop noText := by
  intro de name s r s'
  simp [noText]

theorem behaves_lsLine :
    Behaves (fun de name => do printf (lsLine de name); return none)
      (fun _ _ => (none : Option Unit)) fun de name => shown (lsLine de name) := by
  intro de name s r s'
  simp [Server.say]

/-! The names of a scan are C strings, so that they are printed whole. -/

theorem Names.shown_own {names : Names} {de : DirEntry} (h : shown names.full = names.full)
    (htype : de.type = .short) : shown (names.own de).full = (names.own de).full := by
  unfold Names.own
  split
  · exact shown_getName (by simp [htype]) _
  · exact h

theorem Names.shown_next {names : Names} (de : DirEntry) (h : shown names.full = names.full) :
    shown (names.next de).full = (names.next de).full := by
  unfold Names.next
  cases htype : de.type with
  | undefined => exact h
  | short => rfl
  | long =>
    change shown (getName de names.part ++ names.full) = getName de names.part ++ names.full
    rw [shown_append, shown_getName (by simp [htype]), h]

theorem Names.shown_after {names : Names} (h : shown names.full = names.full)
    (es : List DirEntry) : shown (names.after es).full = (names.after es).full := by
  induction es generalizing names with
  | nil => exact h
  | cons de es ih => exact ih (shown_next de h)

theorem shown_of_mem_named {names : Names} (h : shown names.full = names.full)
    {es : List DirEntry} {x : DirEntry × Name} (hx : x ∈ named names es) : shown x.2 = x.2 := by
  induction es generalizing names with
  | nil => cases hx
  | cons de es ih =>
    by_cases htype : de.type = .short
    · rw [named_cons_short htype] at hx
      rcases List.mem_cons.mp hx with rfl | hx
      · exact Names.shown_own h htype
      · exact ih (Names.shown_next de h) hx
    · rw [named_cons_of_ne_short htype] at hx
      exact ih (Names.shown_next de h) hx

theorem shown_lsLine (de : DirEntry) {name : Name} (h : shown name = name) :
    shown (lsLine de name) = lsLine de name := by
  have hend : shown (ascii "\n") = ascii "\n" := by decide
  have hmark : shown (ascii "[*]") = ascii "[*]" := by decide
  unfold lsLine
  split
  · rw [shown_append, shown_append, hmark, h, hend]
  · rw [shown_append, shown_append, h, hend]
    rfl

theorem flatMap_shown_lsLine {names : Names} (h : shown names.full = names.full)
    (es : List DirEntry) : ((named names es).flatMap fun x => shown (lsLine x.1 x.2)) =
      (named names es).flatMap fun x => lsLine x.1 x.2 := by
  have hlines : ∀ x ∈ named names es, shown (lsLine x.1 x.2) = lsLine x.1 x.2 :=
    fun x hx => shown_lsLine x.1 (shown_of_mem_named h hx)
  rw [List.flatMap_def, List.map_congr_left hlines, ← List.flatMap_def]

theorem returns_findChild {query : Name} {r : Int} :
    Returns (findChild query) s r s' ↔
      ∃ es d, Steps s.toDrive es d ∧ (∀ x ∈ named s.freshNames es, x.2 ≠ query) ∧
        ((r = 1 ∧ d.dirBuff.de.type = .undefined) ∨
          (r = 0 ∧ d.dirBuff.de.type = .short ∧
            ((s.freshNames.after es).own d.dirBuff.de).full = query)) ∧
        s' = s.declared.scanned noText s.freshNames es d := by
  unfold findChild
  rw [returns_scan (behaves_pure _)]
  constructor
  · rintro ⟨es, d, hsteps, hnone, hend, rfl⟩
    refine ⟨es, d, hsteps, fun x hx => by simpa using hnone x hx, ?_, rfl⟩
    cases hend with
    | empty htype ha => exact .inl ⟨ha, htype⟩
    | hit htype ha =>
      split at ha
      · rename_i hname
        exact .inr ⟨(Option.some.inj ha).symm, htype, hname⟩
      · cases ha
  · rintro ⟨es, d, hsteps, hnone, hend, rfl⟩
    refine ⟨es, d, hsteps, fun x hx => by simpa using hnone x hx, ?_, rfl⟩
    rcases hend with ⟨rfl, htype⟩ | ⟨rfl, htype, hname⟩
    · exact .empty htype rfl
    · exact .hit htype (by simp [hname])

theorem returns_findChildByClusterId {clusterId : UInt32} {name : Name} {r : Int} :
    Returns (findChildByClusterId clusterId) s (name, r) s' ↔
      ∃ es d, Steps s.toDrive es d ∧
        (∀ x ∈ named s.freshNames es, x.1.u.clusterId ≠ clusterId) ∧
        ((r = 1 ∧ d.dirBuff.de.type = .undefined ∧ name = (s.freshNames.after es).full) ∨
          (r = 0 ∧ d.dirBuff.de.type = .short ∧ d.dirBuff.de.u.clusterId = clusterId ∧
            name = ((s.freshNames.after es).own d.dirBuff.de).full)) ∧
        s' = s.declared.scanned noText s.freshNames es d := by
  unfold findChildByClusterId
  rw [returns_scan (behaves_pure _)]
  constructor
  · rintro ⟨es, d, hsteps, hnone, hend, rfl⟩
    refine ⟨es, d, hsteps, fun x hx => by simpa [eq_comm] using hnone x hx, ?_, rfl⟩
    cases hend with
    | empty htype ha =>
      injection ha with hname hr
      exact .inl ⟨hr, htype, hname⟩
    | hit htype ha =>
      split at ha
      · rename_i hid
        injection Option.some.inj ha with hname hr
        exact .inr ⟨hr.symm, htype, hid.symm, hname.symm⟩
      · cases ha
  · rintro ⟨es, d, hsteps, hnone, hend, rfl⟩
    refine ⟨es, d, hsteps, fun x hx => by simpa [eq_comm] using hnone x hx, ?_, rfl⟩
    rcases hend with ⟨rfl, htype, rfl⟩ | ⟨rfl, htype, rfl, rfl⟩
    · exact .empty htype rfl
    · exact .hit htype (by simp)

theorem returns_listEntries {u : Unit} :
    Returns listEntries s u s' ↔
      ∃ es d, Steps s.toDrive es d ∧ d.dirBuff.de.type = .undefined ∧
        s' = s.declared.scanned lsLine s.freshNames es d := by
  have hlines : ∀ es, ((named s.freshNames es).flatMap fun x => shown (lsLine x.1 x.2)) =
      (named s.freshNames es).flatMap fun x => lsLine x.1 x.2 := flatMap_shown_lsLine rfl
  unfold listEntries
  rw [returns_scan behaves_lsLine]
  simp only [Server.scanned, hlines]
  constructor
  · rintro ⟨es, d, hsteps, _, hend, rfl⟩
    cases hend with
    | empty htype _ => exact ⟨es, d, hsteps, htype, rfl⟩
    | hit _ ha => cases ha
  · rintro ⟨es, d, hsteps, htype, rfl⟩
    exact ⟨es, d, hsteps, fun _ _ => trivial, .empty htype rfl, rfl⟩

end Fat32s
