/-
  Fat32s/Resolve.lean
  ===================
  **Paths on a volume.**

  `Resolves c path u` says what a path names: its components are looked up one
  after the other, each in the directory that the one before leads to, and the
  last one finds the slot `u`.  A walk along such a path gets there, and leaves
  behind, in `last_hop_*`, the position of the slot.
-/
import Fat32s.Directory
import Fat32s.Lookup

namespace Fat32s

open Fat32s.Lib Fat32s.Lib.Prog

variable {v : Volume} {s s' : Server} {c : UInt32} {as : List Nat}

/-- The drive works on the volume, with the cursor at the directory that starts
    at cluster `c`. -/
structure Drive.Cwd (d : Drive) (v : Volume) (c : UInt32) : Prop where
  on : d.On v
  cursor : d.At v (v.base c)

theorem Drive.Cwd.sector {d : Drive} (h : d.Cwd v c) :
    d.dirBuff.sector.toNat = v.firstSector c := by
  have := (h.cursor.toPoints.split (o := 0)).1
  rwa [Nat.zero_div, Nat.add_zero] at this

theorem Drive.Cwd.offset {d : Drive} (h : d.Cwd v c) : d.dirBuff.offset = 0 := by
  have := (h.cursor.toPoints.split (o := 0)).2
  rwa [Nat.zero_mod] at this

theorem Drive.Cwd.sector_lt {d : Drive} (h : d.Cwd v c) : d.dirBuff.sector.toNat < v.total :=
  h.cursor.sector_lt

/-- The sector and the offset are those of the slot at an address. -/
structure Volume.SlotPos (v : Volume) (sector : UInt32) (offset addr : Nat) : Prop where
  sector_lt : sector.toNat < v.total
  offset_lt : offset < v.bps
  pos : sector.toNat * v.bps + offset = addr
  aligned : 32 ∣ offset

theorem Drive.At.slotPos {d : Drive} {a : Nat} (h : d.At v a) :
    v.SlotPos d.dirBuff.sector d.dirBuff.offset a :=
  ⟨h.sector_lt, h.offset_lt, h.pos, h.aligned⟩

theorem Drive.On.returns_rollback {sector : UInt32} {rest : List UInt32} (hon : s.On v)
    (hstack : s.stack = sector :: rest) :
    Returns rollback s () { s with stack := rest, toDrive := s.toDrive.jump sector } :=
  Fat32s.returns_rollback.mpr ⟨sector, rest, hstack, hon.fits _, rfl⟩

/-! ### One segment -/

/-- The server once it has hopped to the cluster of the slot `u`. -/
structure Server.Hopped (s s' : Server) (v : Volume) (u : Slot) : Prop where
  on : s'.On v
  cursor : v.IsData (v.target u) → s'.At v (v.base (v.target u))
  last : ∃ a, v.slot a = u ∧ u.dirType = .short ∧ v.SlotPos s'.lastHopSector s'.lastHopOffset a
  stack : s'.stack = s.stack
  label : s'.deviceLabel = s.deviceLabel
  out : s'.out = s.out

theorem Server.Hopped.cwd {u : Slot} (h : s.Hopped s' v u) (hdata : v.IsData (v.target u)) :
    s'.Cwd v (v.target u) := ⟨h.on, h.cursor hdata⟩

theorem Server.Hopped.trans {s₁ : Server} {u w : Slot} (h : s.Hopped s₁ v u)
    (h' : s₁.Hopped s' v w) : s.Hopped s' v w :=
  ⟨h'.on, h'.cursor, h'.last, h'.stack.trans h.stack, h'.label.trans h.label, h'.out.trans h.out⟩

theorem Drive.On.target_eq {d : Drive} {u : Slot} (hon : d.On v) (hde : d.dirBuff.de = u.entry) :
    d.hopCluster = v.target u := by
  rw [Drive.hopCluster, Volume.target, hde, hon.bpb]
  rfl

/-- From the slot under the cursor `hop` goes to its cluster. -/
theorem Server.returns_hop {a : Nat} (hon : s.On v) (hat : s.At v a)
    (hde : s.dirBuff.de = (v.slot a).entry) (hshort : (v.slot a).dirType = .short) :
    ∃ s', Returns hop s OK s' ∧ s.Hopped s' v (v.slot a) := by
  have htype : s.dirBuff.de.type = .short := by rw [hde]; exact hshort
  have htarget : s.hopCluster = v.target (v.slot a) := hon.target_eq hde
  refine ⟨_, (Fat32s.returns_hop htype).mpr ⟨hon.fits _, rfl, rfl⟩, ?_⟩
  refine ⟨hon.jump _, ?_, ⟨a, rfl, hshort, hat.slotPos⟩, rfl, rfl, rfl⟩
  intro hdata
  rw [← htarget] at hdata ⊢
  exact hon.at_jump_cluster hdata

theorem Drive.Cwd.returns_visit (hcwd : s.Cwd v c) (hdir : v.Lists c as)
    (banFiles banDirs more : Bool) {segment : Name} {u : Slot}
    (hfind : v.lookup (s.scratch.junk 0) as segment = some u)
    (hpass : passes banFiles banDirs more u.entry.isDirectory = true) :
    ∃ s', Returns (visit banFiles banDirs segment more) s none s' ∧ s.Hopped s' v u := by
  rcases hdir.returns_findChild hcwd.cursor hcwd.on segment with ⟨hnone, _⟩ | ⟨a, ha, hsome, hfound⟩
  · rw [hfind] at hnone
    cases hnone
  · rw [hfind] at hsome
    obtain rfl := Option.some.inj hsome
    obtain ⟨d, sc, hon, hat, hde, hshort, hret⟩ := hfound
    obtain ⟨s', hhop, hhopped⟩ :=
      Server.returns_hop (s := { s with toDrive := d, scratch := sc }) hon hat hde hshort
    refine ⟨s', ?_, hhopped.on, hhopped.cursor, hhopped.last, hhopped.stack, hhopped.label,
      hhopped.out⟩
    have hban : ((more && !d.dirBuff.de.isDirectory) || (!more &&
        ((banDirs && d.dirBuff.de.isDirectory) || (banFiles && !d.dirBuff.de.isDirectory)))) =
        false := by
      rw [hde]
      simpa only [passes, Bool.not_eq_true'] using hpass
    unfold visit
    refine returns_bind.mpr ⟨0, _, hret, ?_⟩
    simp only [ne_eq, not_true_eq_false, if_false, returns_globals_bind, hban, Bool.false_eq_true]
    exact returns_bind.mpr ⟨OK, s', hhop, returns_pure.mpr ⟨rfl, rfl⟩⟩

/-! ### Components -/

/-- The path split at its slashes, without a last component that is empty. -/
def components (path : Name) : List Name :=
  if (path.splitOn 0x2F).getLast? = some [] then (path.splitOn 0x2F).dropLast
  else path.splitOn 0x2F

theorem components_nil : components [] = [] := by decide

/-- What follows a slash is split on its own. -/
theorem components_append (p q : Name) :
    components (p ++ 0x2F :: q) = p.splitOn 0x2F ++ components q := by
  have hne := List.splitOn_ne_nil (0x2F : UInt8) q
  unfold components
  rw [List.splitOn_append_cons_self, List.getLast?_append_of_ne_nil _ hne,
    List.dropLast_append_of_ne_nil hne]
  split
  · rfl
  · rfl

theorem components_slash (rest : Name) : components (0x2F :: rest) = [] :: components rest :=
  components_append [] rest

theorem components_of_ne {ch : UInt8} (hch : ch ≠ 0x2F) (rest : Name) :
    components (ch :: rest) =
      match components rest with
      | [] => [[ch]]
      | q :: qs => (ch :: q) :: qs := by
  have hsplit : (ch :: rest).splitOn (0x2F : UInt8) = (rest.splitOn 0x2F).modifyHead (ch :: ·) := by
    rw [List.splitOn_cons_eq_if_modifyHead]
    simp [hch]
  unfold components
  rw [hsplit]
  cases hrest : rest.splitOn 0x2F with
  | nil => exact (List.splitOn_ne_nil _ _ hrest).elim
  | cons q qs =>
    rw [List.modifyHead_cons]
    cases qs with
    | nil =>
      by_cases hq : q = []
      · simp [hq]
      · simp [hq]
    | cons q' qs =>
      rw [List.getLast?_cons_cons, List.getLast?_cons_cons]
      split
      · rfl
      · rfl

theorem components_eq_nil {path : Name} (h : components path = []) : path = [] := by
  cases path with
  | nil => rfl
  | cons ch rest =>
    by_cases hch : ch = 0x2F
    · rw [hch, components_slash] at h
      cases h
    · rw [components_of_ne hch] at h
      split at h
      · cases h
      · cases h

theorem ends_of_splitOn {path : Name} (h : (path.splitOn 0x2F).getLast? = some []) :
    path = [] ∨ path.getLast? = some 0x2F := by
  induction path with
  | nil => exact .inl rfl
  | cons ch rest ih =>
    apply Or.inr
    rw [List.splitOn_cons_eq_if_modifyHead] at h
    cases hsplit : rest.splitOn 0x2F with
    | nil => exact (List.splitOn_ne_nil _ _ hsplit).elim
    | cons q qs =>
      rw [hsplit] at h ih
      by_cases hch : ch = 0x2F
      · have hlast : (q :: qs).getLast? = some [] := by
          simpa [hch, List.getLast?_cons_cons] using h
        rcases ih hlast with rfl | hrest
        · rw [hch]
          rfl
        · cases rest with
          | nil => cases hrest
          | cons ch' rest => rw [List.getLast?_cons_cons, hrest]
      · rw [if_neg (by simpa using hch), List.modifyHead_cons] at h
        cases qs with
        | nil => cases h
        | cons q' qs =>
          rw [List.getLast?_cons_cons] at h
          rcases ih (by rw [List.getLast?_cons_cons]; exact h) with rfl | hrest
          · rw [List.splitOn_nil] at hsplit
            cases hsplit
          · cases rest with
            | nil => cases hrest
            | cons ch' rest => rw [List.getLast?_cons_cons, hrest]

theorem splitOn_of_ends {path : Name} (h : path = [] ∨ path.getLast? = some 0x2F) :
    path.splitOn 0x2F = components path ++ [[]] := by
  rcases h with rfl | hlast
  · rfl
  · obtain ⟨p, rfl⟩ := List.getLast?_eq_some_iff.mp hlast
    rw [components_append, List.splitOn_append_cons_self, components_nil, List.append_nil,
      List.splitOn_nil]

theorem splitOn_of_not_ends {path : Name} (h : ¬ (path = [] ∨ path.getLast? = some 0x2F)) :
    path.splitOn 0x2F = components path := by
  unfold components
  rw [if_neg (fun hlast => h (ends_of_splitOn hlast))]

/-- The components with a flag for each: whether a `/` follows it. -/
def marked (ends : Bool) : List Name → List (Name × Bool)
  | [] => []
  | [q] => [(q, ends)]
  | q :: q' :: qs => (q, true) :: marked ends (q' :: qs)

theorem segments_eq_marked (path : Name) :
    segments path = marked (path.getLast? == some 0x2F) (components path) := by
  induction path with
  | nil => rfl
  | cons ch rest ih =>
    rw [segments]
    cases hrest : components rest with
    | nil =>
      obtain rfl := components_eq_nil hrest
      by_cases hch : ch = 0x2F
      · simp [hch, components_slash, components_nil, segments, marked]
      · simp [hch, components_of_ne, components_nil, segments, marked]
    | cons q qs =>
      have hlast : (ch :: rest).getLast? = rest.getLast? := by
        cases rest with
        | nil => cases hrest
        | cons ch' rest => rw [List.getLast?_cons_cons]
      rw [hrest] at ih
      rw [hlast, ih]
      by_cases hch : ch = 0x2F
      · rw [if_pos hch, hch, components_slash, hrest, marked]
      · rw [if_neg hch, components_of_ne hch, hrest]
        cases qs with
        | nil => rfl
        | cons q' qs => rfl

/-- These are the segments that `walk` looks up. -/
theorem map_fst_segments (path : Name) : (segments path).map (·.1) = components path := by
  have hmarked : ∀ ends qs, (marked ends qs).map (·.1) = qs := by
    intro ends qs
    induction qs with
    | nil => rfl
    | cons q qs ih =>
      cases qs with
      | nil => rfl
      | cons q' qs => rw [marked, List.map_cons, ih]
  rw [segments_eq_marked, hmarked]

/-! ### Whole paths -/

/-- Each component with whether another one follows. -/
def flagged : List Name → List (Name × Bool)
  | [] => []
  | q :: qs => (q, !qs.isEmpty) :: flagged qs

theorem marked_false (qs : List Name) : marked false qs = flagged qs := by
  induction qs with
  | nil => rfl
  | cons q qs ih =>
    cases qs with
    | nil => rfl
    | cons q' qs =>
      rw [marked, ih]
      rfl

/-- The segments of a path that does not end in a `/` are its components. -/
theorem segments_eq_flagged {path : Name} (hne : path ≠ []) (hend : path.getLast? ≠ some 0x2F) :
    segments path = flagged (path.splitOn 0x2F) := by
  have hends : ¬ (path = [] ∨ path.getLast? = some 0x2F) := by
    rintro (hnil | hlast)
    · exact hne hnil
    · exact hend hlast
  rw [segments_eq_marked, beq_false_of_ne hend, marked_false, splitOn_of_not_ends hends]

/-- No short name of the directory starts with a space. -/
def Volume.PlainNames (v : Volume) (as : List Nat) : Prop :=
  ∀ a ∈ as, (v.slot a).dirType = .short → v.slot a 0 ≠ 0x20

theorem Volume.PlainNames.decoded_eq (h : v.PlainNames as) (junk : Name) :
    v.decoded junk as = v.decoded [] as := by
  refine named_junk junk [] [] ?_
  intro de hde htype
  obtain ⟨a, ha, rfl⟩ := List.mem_map.mp hde
  exact h a ha htype

theorem Volume.PlainNames.lookup_eq (h : v.PlainNames as) (junk query : Name) :
    v.lookup junk as query = v.lookup [] as query := by
  rw [Volume.lookup, Volume.lookup, h.decoded_eq junk]

/-- Looked up from the directory at `c`, the components lead to the slot `u`. -/
inductive Volume.Resolves (v : Volume) : UInt32 → List Name → Slot → Prop
  | last {c : UInt32} {as : List Nat} {query : Name} {u : Slot} (hdir : v.Lists c as)
      (hplain : v.PlainNames as) (hfind : v.lookup [] as query = some u) :
      Resolves v c [query] u
  | step {c : UInt32} {as : List Nat} {query : Name} {u w : Slot} {rest : List Name}
      (hdir : v.Lists c as) (hplain : v.PlainNames as) (hfind : v.lookup [] as query = some u)
      (hisDir : u.entry.isDirectory = true) (hrest : Resolves v (v.target u) rest w) :
      Resolves v c (query :: rest) w

theorem Volume.Resolves.isData {u : Slot} {path : List Name} (h : v.Resolves c path u) :
    v.IsData c := by
  cases h with
  | last hdir _ _ => exact hdir.isData
  | step hdir _ _ _ _ => exact hdir.isData

theorem Volume.Resolves.ne_nil {u : Slot} {path : List Name} (h : v.Resolves c path u) :
    path ≠ [] := by
  cases h with
  | last _ _ _ => exact List.cons_ne_nil _ _
  | step _ _ _ _ _ => exact List.cons_ne_nil _ _

/-- The visits of a path that resolves end at the cluster of its slot, and take
    the saved sector off the stack. -/
theorem Volume.Resolves.returns_visits {u : Slot} {path : List Name} {banFiles banDirs : Bool}
    (h : v.Resolves c path u) (hcwd : s.Cwd v c) {top : UInt32} {rest : List UInt32}
    (hstack : s.stack = top :: rest)
    (hpass : passes banFiles banDirs false u.entry.isDirectory = true) :
    ∃ s₁ s', Returns (visits banFiles banDirs (flagged path)) s 0 s' ∧ s.Hopped s₁ v u ∧
      s' = { s₁ with stack := rest } := by
  induction h generalizing s with
  | @last c as query u hdir hplain hfind =>
    rw [← hplain.lookup_eq (s.scratch.junk 0)] at hfind
    obtain ⟨s₁, hvisit, hhopped⟩ := hcwd.returns_visit hdir banFiles banDirs false hfind hpass
    have hpop : Returns stackPop s₁ top { s₁ with stack := rest } :=
      returns_stackPop.mpr ⟨rest, hhopped.stack.trans hstack, rfl⟩
    refine ⟨s₁, _, ?_, hhopped, rfl⟩
    exact returns_bind.mpr ⟨none, s₁, hvisit,
      returns_bind.mpr ⟨top, _, hpop, returns_pure.mpr ⟨rfl, rfl⟩⟩⟩
  | @step c as query u w path hdir hplain hfind hisDir hrest ih =>
    rw [← hplain.lookup_eq (s.scratch.junk 0)] at hfind
    have hflag : (!path.isEmpty) = true := by simpa using hrest.ne_nil
    obtain ⟨s₁, hvisit, hhopped⟩ := hcwd.returns_visit hdir banFiles banDirs (!path.isEmpty)
      hfind (by simp [passes, hflag, hisDir])
    obtain ⟨s₂, s', hvisits, hhopped', hs'⟩ :=
      ih (hhopped.cwd hrest.isData) (hhopped.stack.trans hstack) hpass
    exact ⟨s₂, s', returns_bind.mpr ⟨none, s₁, hvisit, hvisits⟩, hhopped.trans hhopped', hs'⟩

/-- **A walk along a path that resolves goes there.** -/
theorem Volume.Resolves.returns_walk {u : Slot} {path : Name} {flags : Nat} (hne : cstr path ≠ [])
    (hend : (cstr path).getLast? ≠ some 0x2F) (h : v.Resolves c ((cstr path).splitOn 0x2F) u)
    (hcwd : s.Cwd v c)
    (hpass : passes (bansFiles flags) (bansDirs flags) false u.entry.isDirectory = true) :
    ∃ s', Returns (walk path flags) s 0 s' ∧ s.Hopped s' v u := by
  obtain ⟨s₁, s', hvisits, hhopped, rfl⟩ := h.returns_visits
    (s := { s with stack := s.dirBuff.sector :: s.stack }) hcwd rfl hpass
  rw [← segments_eq_flagged hne hend] at hvisits
  exact ⟨_, Fat32s.returns_walk.mpr hvisits, hhopped.on, hhopped.cursor, hhopped.last, rfl,
    hhopped.label, hhopped.out⟩

end Fat32s
