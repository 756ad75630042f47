/-
  Fat32s/Termination.lean
  =======================
  **Which disks keep a command from coming to an end.**

  `Command.Ends` follows the cursor of the server.  Here the same question is put to the
  volume: `Volume.Ends` looks at the slots that follow one another along the FAT, at
  where the first zero byte or the wanted entry stands among them, and at the clusters
  that `..` entries name.  No drive, buffer or server occurs in it.

  The FAT and the directories may hold anything that keeps a session inside the data
  area: chains and `..` entries may run in circles.  `Visible` are the slots a session
  can get to, and `Contained` says that from these the links lead to data clusters.  On
  such a volume a command ends exactly if the volume says so.
-/
import Fat32s.EntryAlone
import Fat32s.Ends
import Mathlib.Data.Bool.AllAny

namespace Fat32s

open Fat32s.Lib Fat32s.Lib.Prog

/-! ### Searches along the FAT -/

namespace Volume

/-- From the slot `a` the chain goes through the slots `as`, none of which starts with a
    zero byte, to the slot `z`. -/
structure Ahead (v : Volume) (a : Nat) (as : List Nat) (z : Nat) : Prop where
  chain : (as ++ [z]).IsChain (v.Succ 32)
  head : (as ++ [z]).head? = some a
  live : ∀ b ∈ as, v.slot b 0 ≠ 0

/-- From `a` on, `z` is the slot of the first entry for which `p` holds. -/
def Finds (v : Volume) (a : Nat) (p : DirEntry → Name → Prop) (z : Nat) : Prop :=
  ∃ as name, v.Ahead a as z ∧ (∀ x ∈ v.decoded [] as, ¬ p x.1 x.2) ∧
    v.decoded [] (as ++ [z]) = v.decoded [] as ++ [((v.slot z).entry, name)] ∧
    p (v.slot z).entry name

/-- From `a` on, there is a zero slot and no entry before it for which `p` holds. -/
def Misses (v : Volume) (a : Nat) (p : DirEntry → Name → Prop) : Prop :=
  ∃ as z, v.Ahead a as z ∧ (∀ x ∈ v.decoded [] as, ¬ p x.1 x.2) ∧ v.slot z 0 = 0

def SearchEnds (v : Volume) (a : Nat) (p : DirEntry → Name → Prop) : Prop :=
  (∃ z, v.Finds a p z) ∨ v.Misses a p

def ListingEnds (v : Volume) (a : Nat) : Prop := ∃ as z, v.Ahead a as z ∧ v.slot z 0 = 0

/-- The segments lead from `a` to a slot, or, with `none`, to an entry that is missing or
    barred. -/
inductive Leads (v : Volume) (banFiles banDirs : Bool) :
    List (Name × Bool) → Nat → Option Nat → Prop
  | done {a : Nat} : Leads v banFiles banDirs [] a (some a)
  | missing {a : Nat} {segment : Name} {more : Bool} {segs : List (Name × Bool)}
      (hmiss : v.Misses a (goesBy segment)) :
      Leads v banFiles banDirs ((segment, more) :: segs) a none
  | barred {a z : Nat} {segment : Name} {more : Bool} {segs : List (Name × Bool)}
      (hfind : v.Finds a (goesBy segment) z)
      (hpass : passes banFiles banDirs more (v.slot z).entry.isDirectory = false) :
      Leads v banFiles banDirs ((segment, more) :: segs) a none
  | entered {a z : Nat} {segment : Name} {more : Bool} {segs : List (Name × Bool)}
      {o : Option Nat} (hfind : v.Finds a (goesBy segment) z)
      (hpass : passes banFiles banDirs more (v.slot z).entry.isDirectory = true)
      (hrest : Leads v banFiles banDirs segs (v.base (v.target (v.slot z))) o) :
      Leads v banFiles banDirs ((segment, more) :: segs) a o

def LeadsTo (v : Volume) (path : Name) (flags : Nat) (a : Nat) (o : Option Nat) : Prop :=
  v.Leads (bansFiles flags) (bansDirs flags) (segments (cstr path)) a o

/-- The way up by `..` entries from the slot `a` of the directory at cluster `c` ends. -/
inductive ClimbEnds (v : Volume) : Nat → UInt32 → Prop
  | top {a : Nat} {c : UInt32} (hmiss : v.Misses a (goesBy (ascii ".."))) : ClimbEnds v a c
  | lost {a z : Nat} {c : UInt32} (hfind : v.Finds a (goesBy (ascii "..")) z)
      (hmiss : v.Misses (v.base (v.target (v.slot z))) (startsAt c)) : ClimbEnds v a c
  | up {a z y : Nat} {c : UInt32} (hfind : v.Finds a (goesBy (ascii "..")) z)
      (hlisted : v.Finds (v.base (v.target (v.slot z))) (startsAt c) y)
      (hrest : ClimbEnds v (v.base (v.target (v.slot z))) (v.target (v.slot z))) :
      ClimbEnds v a c

/-- The address is that of a slot of the data cluster `c`. -/
structure InCluster (v : Volume) (c : UInt32) (a : Nat) : Prop where
  isData : v.IsData c
  offset : ∃ o, 32 ∣ o ∧ o + 32 ≤ v.clusterSize ∧ a = v.base c + o

/-- On this volume the scans that the command makes from the slot `a` come to an end. -/
def Ends (v : Volume) : Command → Nat → Prop
  | .pwd, a => ∃ c, v.InCluster c a ∧ v.ClimbEnds a c
  | .cd path, a => ∃ o, v.LeadsTo path WALK_BAN_FILES a o
  | .ls path, a =>
    if path = ascii "." then v.ListingEnds a
    else ∃ o, v.LeadsTo path WALK_BAN_FILES a o ∧ ∀ b, o = some b → v.ListingEnds b
  | .cat path, a => ∃ o, v.LeadsTo path WALK_BAN_DIRS a o
  | .stat path, a =>
    match lastSlash path (path.length - 1) with
    | none => v.SearchEnds a (goesBy path)
    | some i => ∃ o, v.LeadsTo (path.take i) WALK_BAN_FILES a o ∧
        ∀ b, o = some b → v.SearchEnds b (goesBy (path.drop (i + 1)))

/-! ### The slots a session can get to -/

/-- From the root directory: along the FAT, into directories and through `..` entries, and
    back to the beginning of a sector. -/
inductive Visible (v : Volume) : Nat → Prop
  | root : Visible v (v.base v.bpb.rootCluster)
  | next {a b : Nat} (ha : Visible v a) (hlive : v.slot a 0 ≠ 0) (hsucc : v.Succ 32 a b) :
      Visible v b
  | entry {a z : Nat} {name : Name} (ha : Visible v a) (hfind : v.Finds a (goesBy name) z)
      (hdir : (v.slot z).entry.isDirectory = true ∨ name = ascii "..") :
      Visible v (v.base (v.target (v.slot z)))
  | sector {a : Nat} (ha : Visible v a) : Visible v (a / v.bps * v.bps)

/-- What a session gets to lies in data clusters, and no short name there has an extension
    without a base. -/
structure Contained (v : Volume) : Prop where
  root : v.IsData v.bpb.rootCluster
  next {a : Nat} (ha : v.Visible a) (hlive : v.slot a 0 ≠ 0) : ∃ b, v.Succ 32 a b
  entry {a z : Nat} {name : Name} (ha : v.Visible a) (hfind : v.Finds a (goesBy name) z)
    (hdir : (v.slot z).entry.isDirectory = true ∨ name = ascii "..") :
    v.IsData (v.target (v.slot z))
  based {a : Nat} (ha : v.Visible a) : ¬ (v.slot a).BareExt

variable {v : Volume} {a b z : Nat} {as : List Nat} {p : DirEntry → Name → Prop} {c c' : UInt32}

theorem ahead_nil (v : Volume) (a : Nat) : v.Ahead a [] a :=
  ⟨List.isChain_singleton a, rfl, fun _ h => (List.not_mem_nil h).elim⟩

theorem ahead_cons {a₀ : Nat} : v.Ahead a (a₀ :: as) z ↔
    a₀ = a ∧ v.slot a 0 ≠ 0 ∧ ∃ b, v.Succ 32 a b ∧ v.Ahead b as z := by
  constructor
  · intro h
    obtain rfl : a₀ = a := by simpa using h.head
    obtain ⟨hstep, hrest⟩ := List.isChain_cons.mp h.chain
    obtain ⟨b, hb⟩ : ∃ b, (as ++ [z]).head? = some b := by cases as <;> simp
    exact ⟨rfl, h.live a₀ List.mem_cons_self, b, hstep b hb, hrest, hb,
      fun x hx => h.live x (List.mem_cons_of_mem _ hx)⟩
  · rintro ⟨rfl, hlive, b, hsucc, h⟩
    refine ⟨List.isChain_cons.mpr ⟨?_, h.chain⟩, rfl, ?_⟩
    · intro x hx
      obtain rfl := Option.some.inj (h.head.symm.trans hx)
      exact hsucc
    · intro x hx
      rcases List.mem_cons.mp hx with rfl | hx
      · exact hlive
      · exact h.live x hx

/-- A property that goes on along the FAT holds of all slots passed. -/
theorem Ahead.induct {P : Nat → Prop} (h : v.Ahead a as z) (ha : P a)
    (hnext : ∀ {x y : Nat}, P x → v.slot x 0 ≠ 0 → v.Succ 32 x y → P y) :
    ∀ x ∈ as ++ [z], P x := by
  induction as generalizing a with
  | nil =>
    obtain rfl : z = a := by simpa using h.head
    intro x hx
    obtain rfl : x = z := by simpa using hx
    exact ha
  | cons a₀ as ih =>
    obtain ⟨rfl, hlive, b, hsucc, hrest⟩ := ahead_cons.mp h
    intro x hx
    rcases List.mem_cons.mp hx with rfl | hx
    · exact ha
    · exact ih hrest (hnext ha hlive hsucc) x hx

theorem Ahead.visible (h : v.Ahead a as z) (ha : v.Visible a) : ∀ x ∈ as ++ [z], v.Visible x :=
  h.induct ha fun hx hlive hsucc => .next hx hlive hsucc

theorem decoded_snoc_iff {junk name : Name} :
    v.decoded junk (as ++ [z]) = v.decoded junk as ++ [((v.slot z).entry, name)] ↔
      (v.slot z).dirType = .short ∧
        name = ((Names.after ⟨junk, []⟩ (v.entries as)).own (v.slot z).entry).full := by
  have hsplit : v.decoded junk (as ++ [z]) = v.decoded junk as ++
      named (Names.after ⟨junk, []⟩ (v.entries as)) [(v.slot z).entry] := by
    rw [decoded, entries, List.map_append, named_append]
    rfl
  rw [hsplit, List.append_right_inj]
  by_cases hshort : (v.slot z).entry.type = .short
  · have htype : (v.slot z).dirType = .short := hshort
    rw [named_cons_short hshort]
    simp [named, htype, eq_comm]
  · have htype : (v.slot z).dirType ≠ .short := hshort
    rw [named_cons_of_ne_short hshort]
    simp [named, htype]

theorem Finds.short (h : v.Finds a p z) : (v.slot z).dirType = .short := by
  obtain ⟨_, _, _, _, hsnoc, _⟩ := h
  exact (decoded_snoc_iff.mp hsnoc).1

theorem live_of_short {u : Slot} (h : u.dirType = .short) : u 0 ≠ 0 := by
  intro hzero
  rw [Slot.dirType, if_pos hzero] at h
  cases h

/-- On a contained volume the names do not depend on what the buffers hold. -/
theorem Contained.decoded_eq (hv : v.Contained) (has : ∀ x ∈ as, v.Visible x) (junk : Name) :
    v.decoded junk as = v.decoded [] as := by
  refine named_of_getName junk [] [] fun de hde hshort p q => ?_
  obtain ⟨x, hx, rfl⟩ := List.mem_map.mp hde
  exact getName_of_not_bareExt (by simp [hshort]) (hv.based (has x hx)) p q

/-! ### Clusters -/

theorem inCluster_base (hc : v.IsData c) : v.InCluster c (v.base c) := by
  have hle : 32 * 1 ≤ 32 * (v.clusterSize / 32) :=
    Nat.mul_le_mul_left 32 (items_pos dvd_bps)
  rw [← clusterSize_eq dvd_bps] at hle
  exact ⟨hc, 0, Nat.dvd_zero 32, hle, rfl⟩

theorem InCluster.mem_addrs (h : v.InCluster c a) : a ∈ v.addrs 32 c := by
  obtain ⟨o, ⟨i, rfl⟩, ho, rfl⟩ := h.offset
  refine List.mem_map.mpr ⟨i, List.mem_range.mpr ?_, rfl⟩
  omega

/-- The sector of a slot and its place in the cluster. -/
theorem InCluster.div_eq (h : v.InCluster c a) :
    ∃ k < v.spc, a / v.bps = v.firstSector c + k := by
  obtain ⟨o, _, ho, rfl⟩ := h.offset
  have hbps := v.bps_cases
  refine ⟨o / v.bps, Nat.div_lt_of_lt_mul ?_, ?_⟩
  · rw [Nat.mul_comm]
    unfold clusterSize at ho
    omega
  · rw [base, Nat.add_comm, Nat.add_mul_div_right _ _ (by omega), Nat.add_comm]

theorem InCluster.unique (h : v.InCluster c a) (h' : v.InCluster c' a) : c = c' := by
  have hnumber : ∀ {c : UInt32}, v.InCluster c a → c.toNat = (a / v.bps - v.fds) / v.spc + 2 := by
    intro c h
    obtain ⟨k, hk, hdiv⟩ := h.div_eq
    have h2 := h.isData.1
    have hsub : a / v.bps - v.fds = k + (c.toNat - 2) * v.spc := by
      rw [hdiv, firstSector]
      omega
    rw [hsub, Nat.add_mul_div_right _ _ v.spc_pos, Nat.div_eq_of_lt hk]
    omega
  exact UInt32.toNat.inj ((hnumber h).trans (hnumber h').symm)

theorem InCluster.sector (h : v.InCluster c a) : v.InCluster c (a / v.bps * v.bps) := by
  obtain ⟨k, hk, hdiv⟩ := h.div_eq
  have hbps := v.bps_cases
  have hle : (k + 1) * v.bps ≤ v.spc * v.bps := Nat.mul_le_mul_right _ hk
  rw [Nat.add_mul, Nat.one_mul] at hle
  refine ⟨h.isData, k * v.bps, Nat.dvd_mul_left_of_dvd dvd_bps k, ?_, ?_⟩
  · unfold clusterSize
    omega
  · rw [hdiv, Nat.add_mul, base]

/-- The next slot is in the same cluster, or the first one of the cluster that the FAT names. -/
theorem Succ.inCluster (h : v.Succ 32 a b) :
    ∃ c, v.InCluster c a ∧ (v.InCluster c b ∨
      a + 32 = v.base c + v.clusterSize ∧ b = v.base (v.fat c) ∧ v.IsData (v.fat c)) := by
  cases h with
  | @inside c o hc h32 ho =>
    obtain ⟨i, rfl⟩ := h32
    have hsize := clusterSize_eq (v := v) dvd_bps
    refine ⟨c, ⟨hc, 32 * i, ⟨i, rfl⟩, by omega, rfl⟩, .inl ⟨hc, 32 * i + 32, ⟨i + 1, rfl⟩, ?_, ?_⟩⟩
    · omega
    · rw [Nat.add_assoc]
  | @link c o hc h32 ho hnext =>
    exact ⟨c, ⟨hc, o, h32, by omega, rfl⟩, .inr ⟨by omega, rfl, hnext⟩⟩

theorem Visible.inCluster (hv : v.Contained) (ha : v.Visible a) : ∃ c, v.InCluster c a := by
  induction ha with
  | root => exact ⟨_, inCluster_base hv.root⟩
  | next _ _ hsucc _ =>
    obtain ⟨c, _, hin | ⟨_, rfl, hnext⟩⟩ := hsucc.inCluster
    · exact ⟨c, hin⟩
    · exact ⟨_, inCluster_base hnext⟩
  | entry ha hfind hdir _ => exact ⟨_, inCluster_base (hv.entry ha hfind hdir)⟩
  | sector _ ih =>
    obtain ⟨c, hin⟩ := ih
    exact ⟨c, hin.sector⟩

end Volume

/-! ### The cursor on a contained volume -/

variable {v : Volume} {d d' : Drive} {s s' : Server} {a z : Nat} {as : List Nat} {r : Int}
  {junk : Name} {p : DirEntry → Name → Prop}

/-- The cursor stands at a slot that a session can get to. -/
structure Drive.Stands (d : Drive) (v : Volume) (a : Nat) : Prop where
  on : d.On v
  cursor : d.At v a
  visible : v.Visible a

namespace Drive.Stands

theorem live (h : d.Stands v a) (htype : d.dirBuff.de.type ≠ .undefined) : v.slot a 0 ≠ 0 := by
  intro hzero
  apply htype
  rw [h.cursor.type, Slot.dirType, if_pos hzero]

theorem zero_iff (h : d.Stands v a) : d.dirBuff.de.type = .undefined ↔ v.slot a 0 = 0 := by
  rw [h.cursor.type]
  constructor
  · intro htype
    by_contra hlive
    exact Slot.dirType_ne_undefined hlive htype
  · intro hzero
    rw [Slot.dirType, if_pos hzero]

/-- Where the cursor goes there are slots ahead on the volume. -/
theorem of_steps {es : List DirEntry} (h : d.Stands v a) (hv : v.Contained)
    (hsteps : Steps d es d') :
    ∃ as z, v.Ahead a as z ∧ es = v.entries as ∧ d'.Stands v z := by
  induction hsteps generalizing a with
  | refl d => exact ⟨[], a, v.ahead_nil a, rfl, h⟩
  | step htype hnext _ ih =>
    have hlive := h.live htype
    obtain ⟨b, hsucc⟩ := hv.next h.visible hlive
    obtain ⟨_, d₁, hnext', hon, hat⟩ := h.cursor.next h.on hsucc
    obtain ⟨_, rfl⟩ := hnext'.unique hnext
    obtain ⟨as, z, hahead, rfl, hend⟩ := ih ⟨hon, hat, .next h.visible hlive hsucc⟩
    refine ⟨a :: as, z, Volume.ahead_cons.mpr ⟨rfl, hlive, b, hsucc, hahead⟩, ?_, hend⟩
    rw [h.cursor.de hlive]
    rfl

/-- And along slots ahead the cursor goes. -/
theorem steps (h : d.Stands v a) (hahead : v.Ahead a as z) :
    ∃ d', Steps d (v.entries as) d' ∧ d'.Stands v z := by
  obtain ⟨d', hsteps, hon, hat⟩ :=
    h.cursor.steps hahead.chain hahead.live hahead.head h.on
  exact ⟨d', hsteps, hon, hat, hahead.visible h.visible z (by simp)⟩

variable (hv : v.Contained)

include hv

/-- The entries passed have the same names whatever the buffers hold. -/
theorem decoded_eq (h : d.Stands v a) (hahead : v.Ahead a as z) (junk : Name) :
    v.decoded junk as = v.decoded [] as :=
  hv.decoded_eq (fun x hx => hahead.visible h.visible x (List.mem_append_left _ hx)) junk

theorem decoded_snoc_eq (h : d.Stands v a) (hahead : v.Ahead a as z) (junk : Name) :
    v.decoded junk (as ++ [z]) = v.decoded [] (as ++ [z]) :=
  hv.decoded_eq (hahead.visible h.visible) junk

theorem of_finds (h : d.Stands v a) (hfind : d.Finds junk p d') :
    ∃ z, v.Finds a p z ∧ d'.Stands v z ∧ d'.dirBuff.de = (v.slot z).entry := by
  obtain ⟨name, es, hsteps, hnone, htype, hp, hname⟩ := hfind
  obtain ⟨as, z, hahead, rfl, hend⟩ := h.of_steps hv hsteps
  have hde := hend.cursor.de (hend.live (by simp [htype]))
  rw [hde] at htype hp hname
  have hsnoc := Volume.decoded_snoc_iff.mpr ⟨htype, hname⟩
  change ∀ x ∈ v.decoded junk as, ¬ p x.1 x.2 at hnone
  rw [h.decoded_snoc_eq hv hahead, h.decoded_eq hv hahead] at hsnoc
  rw [h.decoded_eq hv hahead] at hnone
  exact ⟨z, ⟨as, name, hahead, hnone, hsnoc, hp⟩, hend, hde⟩

theorem finds (h : d.Stands v a) (hfind : v.Finds a p z) :
    ∃ d', d.Finds junk p d' ∧ d'.Stands v z ∧ d'.dirBuff.de = (v.slot z).entry := by
  obtain ⟨as, name, hahead, hnone, hsnoc, hp⟩ := hfind
  obtain ⟨d', hsteps, hend⟩ := h.steps hahead
  rw [← h.decoded_snoc_eq hv hahead junk, ← h.decoded_eq hv hahead junk,
    Volume.decoded_snoc_iff] at hsnoc
  rw [← h.decoded_eq hv hahead junk] at hnone
  have hde := hend.cursor.de (Volume.live_of_short hsnoc.1)
  refine ⟨d', ⟨name, v.entries as, hsteps, hnone, ?_, ?_, ?_⟩, hend, hde⟩
  · rw [hde]
    exact hsnoc.1
  · rw [hde]
    exact hp
  · rw [hde]
    exact hsnoc.2

theorem of_misses (h : d.Stands v a) (hmiss : d.Misses junk p d') :
    v.Misses a p ∧ ∃ z, d'.Stands v z := by
  obtain ⟨es, hsteps, hnone, htype⟩ := hmiss
  obtain ⟨as, z, hahead, rfl, hend⟩ := h.of_steps hv hsteps
  change ∀ x ∈ v.decoded junk as, ¬ p x.1 x.2 at hnone
  rw [h.decoded_eq hv hahead] at hnone
  exact ⟨⟨as, z, hahead, hnone, hend.zero_iff.mp htype⟩, z, hend⟩

theorem misses (h : d.Stands v a) (hmiss : v.Misses a p) : ∃ d', d.Misses junk p d' := by
  obtain ⟨as, z, hahead, hnone, hzero⟩ := hmiss
  obtain ⟨d', hsteps, hend⟩ := h.steps hahead
  rw [← h.decoded_eq hv hahead junk] at hnone
  exact ⟨d', v.entries as, hsteps, hnone, hend.zero_iff.mpr hzero⟩

theorem searches_iff (h : d.Stands v a) : d.Searches junk p ↔ v.SearchEnds a p := by
  constructor
  · rintro ⟨d', hfind | hmiss⟩
    · obtain ⟨z, hfind', _⟩ := h.of_finds hv hfind
      exact .inl ⟨z, hfind'⟩
    · exact .inr (h.of_misses hv hmiss).1
  · rintro (⟨z, hfind⟩ | hmiss)
    · obtain ⟨d', hfind', _⟩ := h.finds hv hfind
      exact ⟨d', .inl hfind'⟩
    · obtain ⟨d', hmiss'⟩ := h.misses hv hmiss
      exact ⟨d', .inr hmiss'⟩

theorem listsAll_iff (h : d.Stands v a) : d.ListsAll ↔ v.ListingEnds a := by
  constructor
  · rintro ⟨es, d', hsteps, htype⟩
    obtain ⟨as, z, hahead, _, hend⟩ := h.of_steps hv hsteps
    exact ⟨as, z, hahead, hend.zero_iff.mp htype⟩
  · rintro ⟨as, z, hahead, hzero⟩
    obtain ⟨d', hsteps, hend⟩ := h.steps hahead
    exact ⟨_, d', hsteps, hend.zero_iff.mpr hzero⟩

end Drive.Stands

/-! ### Hops -/

/-- A jump to the first sector of a cluster, by whichever drive that sector was computed. -/
theorem Drive.On.stands_jump {c sector : UInt32} (hon : d.On v) (hc : v.IsData c)
    (hsector : sector.toNat = v.firstSector c) (hvisible : v.Visible (v.base c)) :
    (d.jump sector).Stands v (v.base c) := by
  have heq : sector = d.firstSectorOfCluster c :=
    UInt32.toNat.inj (hsector.trans (hon.firstSectorOfCluster_toNat hc).symm)
  rw [heq]
  exact ⟨hon.jump _, hon.at_jump_cluster hc, hvisible⟩

/-- What an entry that was found leads to. -/
structure Drive.HopsTo (d : Drive) (v : Volume) (c : UInt32) : Prop where
  isData : v.IsData c
  visible : v.Visible (v.base c)
  sector : d.hopSector.toNat = v.firstSector c

theorem Drive.HopsTo.stands {c : UInt32} {d₂ : Drive} (h : d.HopsTo v c) (hon : d₂.On v) :
    (d₂.jump d.hopSector).Stands v (v.base c) := hon.stands_jump h.isData h.sector h.visible

theorem Drive.HopsTo.clusterOf {c : UInt32} {d₂ : Drive} (h : d.HopsTo v c) (hon : d₂.On v) :
    (d₂.jump d.hopSector).clusterOf d.hopSector = c :=
  (hon.jump _).clusterOf_eq h.isData v.spc_pos h.sector

theorem Drive.Stands.hopsTo {name : Name} (h : d.Stands v a) (hv : v.Contained)
    (hfind : v.Finds a (goesBy name) z) (hend : d'.Stands v z)
    (hde : d'.dirBuff.de = (v.slot z).entry)
    (hdir : (v.slot z).entry.isDirectory = true ∨ name = ascii "..") :
    d'.HopsTo v (v.target (v.slot z)) := by
  have hdata := hv.entry h.visible hfind hdir
  refine ⟨hdata, .entry h.visible hfind hdir, ?_⟩
  rw [Drive.hopSector, hend.on.target_eq hde, hend.on.firstSectorOfCluster_toNat hdata]

/-! ### Walks -/

/-- A file is entered only where files are not banned. -/
theorem banFiles_of_passes_file {banFiles banDirs more : Bool}
    (h : passes banFiles banDirs more false = true) : banFiles = false := by
  rw [more_of_passes_file h] at h
  simpa [passes] using h

/-- The walks on the drive and on the volume end alike.  A path that may lead to a file
    need not end at a visible slot. -/
def Volume.Arrives (v : Volume) (banFiles : Bool) :
    Option (Drive × (Nat → Name)) → Option Nat → Prop
  | none, none => True
  | some x, some b => banFiles = true → x.1.Stands v b
  | _, _ => False

section walks

variable {banFiles banDirs : Bool} {segs : List (Name × Bool)} {junk : Nat → Name}

theorem Volume.arrives_of_file {more : Bool} {x : Drive × (Nat → Name)} {b : Nat}
    (hfile : passes banFiles banDirs more false = true) :
    v.Arrives banFiles (some x) (some b) := by
  intro hban
  rw [banFiles_of_passes_file hfile] at hban
  cases hban

theorem Drive.Stands.of_walks {o : Option (Drive × (Nat → Name))} (h : d.Stands v a)
    (hv : v.Contained) (hflags : EndsFlagged segs) (hwalks : Walks banFiles banDirs segs d junk o) :
    ∃ o', v.Leads banFiles banDirs segs a o' ∧ v.Arrives banFiles o o' := by
  induction hwalks generalizing a with
  | done => exact ⟨some a, .done, fun _ => h⟩
  | missing hmiss => exact ⟨none, .missing (h.of_misses hv hmiss).1, trivial⟩
  | barred hfind hpass =>
    obtain ⟨z, hfind', _, hde⟩ := h.of_finds hv hfind
    rw [hde] at hpass
    exact ⟨none, .barred hfind' hpass, trivial⟩
  | entered hfind hpass hrest ih =>
    obtain ⟨z, hfind', hend, hde⟩ := h.of_finds hv hfind
    rw [hde] at hpass
    cases hdir : (v.slot z).entry.isDirectory with
    | true =>
      have hhop := h.hopsTo hv hfind' hend hde (.inl hdir)
      obtain ⟨o', hleads, harrives⟩ := ih (hhop.stands hend.on) hflags.2
      exact ⟨o', .entered hfind' hpass hleads, harrives⟩
    | false =>
      -- a file: the path ends here, and need not end in a directory
      have hfile : passes _ _ _ false = true := hdir ▸ hpass
      obtain rfl := hflags.1 (more_of_passes_file hfile)
      cases hrest
      exact ⟨_, .entered hfind' hpass .done, Volume.arrives_of_file hfile⟩

theorem Volume.Leads.walks {o' : Option Nat} (hleads : v.Leads banFiles banDirs segs a o')
    (hv : v.Contained) (h : d.Stands v a) (hflags : EndsFlagged segs) (junk : Nat → Name) :
    ∃ o, Walks banFiles banDirs segs d junk o ∧ v.Arrives banFiles o o' := by
  induction hleads generalizing d junk with
  | done => exact ⟨some (d, junk), .done, fun _ => h⟩
  | missing hmiss =>
    obtain ⟨d', hmiss'⟩ := h.misses hv hmiss
    exact ⟨none, .missing hmiss', trivial⟩
  | barred hfind hpass =>
    obtain ⟨d', hfind', _, hde⟩ := h.finds hv hfind
    rw [← hde] at hpass
    exact ⟨none, .barred hfind' hpass, trivial⟩
  | @entered a z segment more segs o hfind hpass hrest ih =>
    obtain ⟨d', hfind', hend, hde⟩ := h.finds hv hfind
    have hpass' := hpass
    rw [← hde] at hpass'
    cases hdir : (v.slot z).entry.isDirectory with
    | true =>
      have hhop := h.hopsTo hv hfind hend hde (.inl hdir)
      obtain ⟨o, hwalks, harrives⟩ := ih (hhop.stands hend.on) hflags.2 fun n => junk (n + 1)
      exact ⟨o, .entered hfind' hpass' hwalks, harrives⟩
    | false =>
      have hfile : passes _ _ _ false = true := hdir ▸ hpass
      obtain rfl := hflags.1 (more_of_passes_file hfile)
      cases hrest
      exact ⟨_, .entered hfind' hpass' .done, Volume.arrives_of_file hfile⟩

end walks

theorem Drive.Stands.of_walksTo {path : Name} {flags : Nat} {o : Option (Drive × (Nat → Name))}
    (h : s.Stands v a) (hv : v.Contained) (hwalks : s.WalksTo path flags o) :
    ∃ o', v.LeadsTo path flags a o' ∧ v.Arrives (bansFiles flags) o o' :=
  h.of_walks hv (endsFlagged_segments _) hwalks

theorem Volume.LeadsTo.walksTo {path : Name} {flags : Nat} {o' : Option Nat}
    (hleads : v.LeadsTo path flags a o') (hv : v.Contained) (h : s.Stands v a) :
    ∃ o, s.WalksTo path flags o ∧ v.Arrives (bansFiles flags) o o' :=
  Volume.Leads.walks hleads hv h (endsFlagged_segments _) s.scratch.junk

theorem Drive.Stands.walks_end_iff {path : Name} {flags : Nat} (h : s.Stands v a)
    (hv : v.Contained) : (∃ o, s.WalksTo path flags o) ↔ ∃ o, v.LeadsTo path flags a o := by
  constructor
  · rintro ⟨o, hwalks⟩
    obtain ⟨o', hleads, _⟩ := h.of_walksTo hv hwalks
    exact ⟨o', hleads⟩
  · rintro ⟨o', hleads⟩
    obtain ⟨o, hwalks, _⟩ := hleads.walksTo hv h
    exact ⟨o, hwalks⟩

/-- A walk to a directory comes to an end, and what follows it does so too, exactly if
    this is so on the volume. -/
theorem Drive.Stands.walksTo_iff {path : Name} {P : Drive → (Nat → Name) → Prop} {Q : Nat → Prop}
    (h : s.Stands v a) (hv : v.Contained)
    (hiff : ∀ {d' : Drive} {b : Nat} (junk : Nat → Name), d'.Stands v b → (P d' junk ↔ Q b)) :
    (∃ o, s.WalksTo path WALK_BAN_FILES o ∧ ∀ d' junk', o = some (d', junk') → P d' junk') ↔
      ∃ o, v.LeadsTo path WALK_BAN_FILES a o ∧ ∀ b, o = some b → Q b := by
  have hban : bansFiles WALK_BAN_FILES = true := by decide
  constructor
  · rintro ⟨o, hwalks, hrest⟩
    obtain ⟨o', hleads, harrives⟩ := h.of_walksTo hv hwalks
    refine ⟨o', hleads, ?_⟩
    rintro b rfl
    cases o with
    | none => exact harrives.elim
    | some x => exact (hiff x.2 (harrives hban)).mp (hrest _ _ rfl)
  · rintro ⟨o', hleads, hrest⟩
    obtain ⟨o, hwalks, harrives⟩ := hleads.walksTo hv h
    refine ⟨o, hwalks, ?_⟩
    rintro d' junk' rfl
    cases o' with
    | none => exact harrives.elim
    | some b => exact (hiff junk' (harrives hban)).mpr (hrest _ rfl)

/-! ### pwd -/

/-- A `..` entry that the cursor finds is one of the volume, and leads to the same cluster. -/
theorem Drive.Stands.of_finds_up (h : d.Stands v a) (hv : v.Contained)
    (hfind : d.Finds junk (goesBy (ascii "..")) d') :
    ∃ z, v.Finds a (goesBy (ascii "..")) z ∧ d'.On v ∧ d'.HopsTo v (v.target (v.slot z)) := by
  obtain ⟨z, hfind', hend, hde⟩ := h.of_finds hv hfind
  exact ⟨z, hfind', hend.on, h.hopsTo hv hfind' hend hde (.inr rfl)⟩

theorem Drive.Stands.finds_up (h : d.Stands v a) (hv : v.Contained)
    (hfind : v.Finds a (goesBy (ascii "..")) z) :
    ∃ d', d.Finds junk (goesBy (ascii "..")) d' ∧ d'.On v ∧
      d'.HopsTo v (v.target (v.slot z)) := by
  obtain ⟨d', hfind', hend, hde⟩ := h.finds hv hfind
  exact ⟨d', hfind', hend.on, h.hopsTo hv hfind hend hde (.inr rfl)⟩

theorem Drive.Stands.of_climbEnds {junk : Nat → Name} {c : UInt32} (h : d.Stands v a)
    (hv : v.Contained) (hends : ClimbEnds d junk c) : v.ClimbEnds a c := by
  induction hends generalizing a with
  | top hmiss => exact .top (h.of_misses hv hmiss).1
  | lost hfind hmiss =>
    obtain ⟨z, hfind', hon, hhop⟩ := h.of_finds_up hv hfind
    exact .lost hfind' ((hhop.stands hon).of_misses hv hmiss).1
  | up hfind hlisted _ ih =>
    obtain ⟨z, hfind', hon, hhop⟩ := h.of_finds_up hv hfind
    obtain ⟨y, hlisted', hend', _⟩ := (hhop.stands hon).of_finds hv hlisted
    rw [hhop.clusterOf hend'.on] at ih
    exact .up hfind' hlisted' (ih (hhop.stands hend'.on))

theorem Volume.ClimbEnds.climbEnds {c : UInt32} (hends : v.ClimbEnds a c) (hv : v.Contained)
    (h : d.Stands v a) (junk : Nat → Name) : Fat32s.ClimbEnds d junk c := by
  induction hends generalizing d junk with
  | top hmiss =>
    obtain ⟨d', hmiss'⟩ := h.misses hv hmiss
    exact .top hmiss'
  | lost hfind hmiss =>
    obtain ⟨d₁, hfind', hon, hhop⟩ := h.finds_up hv hfind
    obtain ⟨d₂, hmiss'⟩ := (hhop.stands hon).misses hv hmiss
    exact .lost hfind' hmiss'
  | up hfind hlisted _ ih =>
    obtain ⟨d₁, hfind', hon, hhop⟩ := h.finds_up hv hfind
    obtain ⟨d₂, hlisted', hend', _⟩ := (hhop.stands hon).finds hv hlisted
    refine .up hfind' hlisted' ?_
    rw [hhop.clusterOf hend'.on]
    exact ih (hhop.stands hend'.on) _

/-! ### The commands -/

theorem Drive.Stands.sector_eq (h : d.Stands v a) : d.dirBuff.sector.toNat = a / v.bps := by
  have hbps := v.bps_cases
  rw [← h.cursor.pos, Nat.add_comm, Nat.add_mul_div_right _ _ (by omega),
    Nat.div_eq_of_lt h.cursor.offset_lt, Nat.zero_add]

theorem Drive.Stands.clusterOf_eq {c : UInt32} (h : d.Stands v a) (hin : v.InCluster c a) :
    d.clusterOf d.dirBuff.sector = c := by
  obtain ⟨k, hk, hdiv⟩ := hin.div_eq
  exact h.on.clusterOf_eq hin.isData hk (h.sector_eq.trans hdiv)

/-- **What the scans of a command come to can be read off the volume.** -/
theorem Drive.Stands.ends_iff (h : s.Stands v a) (hv : v.Contained) (cmd : Command) :
    cmd.Ends s ↔ v.Ends cmd a := by
  cases cmd with
  | pwd =>
    constructor
    · intro hends
      obtain ⟨c, hin⟩ := h.visible.inCluster hv
      rw [Command.Ends, h.clusterOf_eq hin] at hends
      exact ⟨c, hin, h.of_climbEnds hv hends⟩
    · rintro ⟨c, hin, hends⟩
      rw [Command.Ends, h.clusterOf_eq hin]
      exact hends.climbEnds hv h _
  | cd path => exact h.walks_end_iff hv
  | ls path =>
    rw [Command.Ends, Volume.Ends]
    split
    · exact h.listsAll_iff hv
    · exact h.walksTo_iff hv fun _ hd => hd.listsAll_iff hv
  | cat path => exact h.walks_end_iff hv
  | stat path =>
    rw [Command.Ends, Volume.Ends]
    cases lastSlash path (path.length - 1) with
    | none => exact h.searches_iff hv
    | some i => exact h.walksTo_iff hv fun _ hd => hd.searches_iff hv

/-! ### Sessions -/

/-- Back at the beginning of its sector the cursor stands at a visible slot. -/
theorem Drive.Stands.jumpedTo (h : d.Stands v a) (hon : d'.On v)
    (hjump : d'.JumpedTo d.dirBuff.sector) : d'.Stands v (a / v.bps * v.bps) := by
  obtain ⟨d₀, rfl⟩ := hjump
  have hload : ((d₀.seek d.dirBuff.sector 0).load d.dirBuff.sector).On v :=
    ⟨hon.bpb, hon.dev, hon.fds, hon.coherent⟩
  have hat : (d₀.jump d.dirBuff.sector).At v _ := Drive.at_jump h.cursor.sector_lt hload
  rw [h.sector_eq] at hat
  exact ⟨hon, hat, .sector h.visible⟩

/-- A pwd ends at the beginning of a sector, or in a directory that does not list the one
    below it. -/
theorem pwdLoop_stands (hv : v.Contained) {w : PwdVars} {sector : UInt32} {rest : List UInt32}
    (hloop : Returns (iter pwdStep w) s r s') (hstack : s.stack = sector :: rest)
    (h : s.Stands v a) : s'.JumpedTo sector ∨ ∃ b, s'.Stands v b := by
  refine returns_iter_induct (motive := fun _ s _ s' => s.stack = sector :: rest →
    ∀ {a}, s.Stands v a → s'.JumpedTo sector ∨ ∃ b, s'.Stands v b) ?_ ?_ hloop hstack h
  · intro w s x s' hstop hstack a h
    cases pwdStep_cases hstop with
    | top _ hstack' hdrive _ _ =>
      obtain ⟨rfl, _⟩ := List.cons.inj (hstack.symm.trans hstack')
      exact .inl ⟨_, hdrive⟩
    | lost hfind hmiss _ hdrive =>
      obtain ⟨z, _, hon, hhop⟩ := h.of_finds_up hv hfind
      obtain ⟨_, y, hy⟩ := (hhop.stands hon).of_misses hv hmiss
      exact .inr ⟨y, by rw [hdrive]; exact hy⟩
  · intro w s w' s₁ x s' hround ih hstack a h
    cases pwdStep_cases hround with
    | up hfind hlisted hdrive hstack' _ _ _ _ _ _ =>
      obtain ⟨z, _, hon, hhop⟩ := h.of_finds_up hv hfind
      obtain ⟨_, _, hend', _⟩ := (hhop.stands hon).of_finds hv hlisted.finds
      refine ih (hstack'.trans hstack) (a := v.base (v.target (v.slot z))) ?_
      rw [hdrive]
      exact hhop.stands hend'.on

theorem Drive.Stands.command {cmd : Command} (h : s.Stands v a) (hv : v.Contained)
    (hrun : Returns cmd.run s r s') : ∃ b, s'.Stands v b := by
  have hon : s'.On v := ((stable_on v).command cmd).returns hrun h.on
  have hback : s'.JumpedTo s.dirBuff.sector → ∃ b, s'.Stands v b :=
    fun hjump => ⟨_, h.jumpedTo hon hjump⟩
  cases cmd with
  | pwd =>
    change Returns pwd s r s' at hrun
    unfold pwd at hrun
    rw [returns_globals_bind, returns_push_bind, returns_onDrive_bind] at hrun
    obtain ⟨_, _, hcluster, hloop⟩ := hrun
    obtain ⟨_, rfl, rfl⟩ := returns_sectorToCluster.mp hcluster
    rcases pwdLoop_stands hv hloop rfl (a := a) h with hjump | hstands
    · exact hback hjump
    · exact hstands
  | cd path =>
    by_cases hr : r = 0
    · obtain ⟨o', _, harrives⟩ := h.of_walksTo hv (walksTo_of_cd hrun)
      rw [hr, arrival_of_zero] at harrives
      cases o' with
      | none => exact harrives.elim
      | some b => exact ⟨b, harrives (by decide)⟩
    · exact hback ((cd_cases hrun).failed hr)
  | ls path => exact hback (ls_cases hrun).cursor
  | cat path => exact hback (cat_cases hrun).cursor
  | stat path => exact hback (stat_cases hrun).cursor

theorem Answered.stands {cmd : Command} (hv : v.Contained) (h : ∃ a, s.Stands v a)
    (hanswer : Answered cmd s s') : ∃ a, s'.Stands v a := by
  obtain ⟨a, h⟩ := h
  cases hanswer with
  | refused text => exact ⟨a, h⟩
  | ran text _ hrun =>
    obtain ⟨b, hb⟩ := h.command hv hrun
    exact ⟨b, hb⟩

section session

variable {s₀ : Server} {env : Env} {m : Message}

theorem Volume.Bootable.stands_root (hboot : v.Bootable) (hv : v.Contained) (hs₀ : Reachable s₀)
    (hopen : env.openDevice m.text = some v.dev) (hmount : Returns (doMount env m) s₀ OK s) :
    s.Stands v (v.base v.bpb.rootCluster) := by
  have hcurr : s₀.fsData.currSector = 0 := by
    cases Fat32s.returns_doMount.mp hmount with
    | mounted hfd _ _ _ _ _ _ _ _ => rw [(hs₀.idle hfd).fsData]
  obtain ⟨hcwd, _⟩ := hboot.cwd_root hv.root hcurr hopen hmount
  exact ⟨hcwd.on, hcwd.cursor, .root⟩

/-- **When the commands come to an end.**  Let a volume be mounted whose FAT chains and
    directories, circular or not, keep a session inside the data area.  Whatever has been
    requested since, the cursor stands at a slot of the volume, and the loops of a command
    end exactly if on the volume each chain that it scans from there comes to a zero slot
    or to the entry looked for, and, for pwd, the way up by `..` entries ends.  The command
    then returns. -/
theorem command_halts_iff_volume_ends (hboot : v.Bootable) (hv : v.Contained)
    (hs₀ : Reachable s₀) (hopen : env.openDevice m.text = some v.dev)
    (hmount : Returns (doMount env m) s₀ OK s) (hrun : InSession s s') (cmd : Command) :
    ∃ a, s'.At v a ∧ v.Visible a ∧ (Halts cmd.run s' ↔ v.Ends cmd a) ∧
      (v.Ends cmd a → ∃ r s'', Returns cmd.run s' r s'') := by
  have hroot := hboot.stands_root hv hs₀ hopen hmount
  have hstands : ∃ a, s'.Stands v a :=
    hrun.induct (deviceFd_of_doMount hmount) ⟨_, hroot⟩ (Answered.stands hv)
  have hbps : s.bpb.bytesPerSector.toNat ∈ [512, 1024, 2048, 4096] := by
    rw [hroot.on.bpb]
    exact v.bps_mem
  obtain ⟨hhalts, hreturns⟩ := command_halts_iff_scans_end hs₀ hmount hbps hrun cmd
  obtain ⟨a, ha⟩ := hstands
  rw [ha.ends_iff hv cmd] at hhalts hreturns
  exact ⟨a, ha.cursor, ha.visible, hhalts, hreturns⟩

end session

/-! ### Volumes that contain their sessions -/

/-- The clusters hold the root directory, and with every cluster the one that the FAT names
    after it, unless it ends in a zero slot, and all that its entries lead to. -/
structure Volume.Closed (v : Volume) (C : List UInt32) : Prop where
  root : v.bpb.rootCluster ∈ C
  data : ∀ c ∈ C, v.IsData c
  fat : ∀ c ∈ C, ∀ a ∈ v.addrs 32 c, v.slot a 0 ≠ 0 →
    a + 32 = v.base c + v.clusterSize → v.fat c ∈ C
  target : ∀ c ∈ C, ∀ a ∈ v.addrs 32 c, (v.slot a).dirType = .short → v.target (v.slot a) ∈ C
  based : ∀ c ∈ C, ∀ a ∈ v.addrs 32 c, ¬ (v.slot a).entry.BareExt

namespace Volume.Closed

variable {C : List UInt32} (h : v.Closed C)

include h

theorem base {c : UInt32} (hc : c ∈ C) : ∃ c' ∈ C, v.InCluster c' (v.base c) :=
  ⟨c, hc, inCluster_base (h.data c hc)⟩

theorem succ {x y : Nat} (hx : ∃ c ∈ C, v.InCluster c x) (hlive : v.slot x 0 ≠ 0)
    (hsucc : v.Succ 32 x y) : ∃ c ∈ C, v.InCluster c y := by
  obtain ⟨c, hc, hin⟩ := hx
  obtain ⟨c', hin', hnext⟩ := hsucc.inCluster
  obtain rfl := hin.unique hin'
  rcases hnext with hy | ⟨hlast, rfl, _⟩
  · exact ⟨c, hc, hy⟩
  · exact h.base (h.fat c hc x hin.mem_addrs hlive hlast)

theorem found {name : Name} (ha : ∃ c ∈ C, v.InCluster c a) (hfind : v.Finds a (goesBy name) z) :
    v.target (v.slot z) ∈ C := by
  have hshort := hfind.short
  obtain ⟨as, _, hahead, _⟩ := hfind
  obtain ⟨c, hc, hin⟩ := hahead.induct ha h.succ z (by simp)
  exact h.target c hc z hin.mem_addrs hshort

theorem visible (ha : v.Visible a) : ∃ c ∈ C, v.InCluster c a := by
  induction ha with
  | root => exact h.base h.root
  | next _ hlive hsucc ih => exact h.succ ih hlive hsucc
  | entry _ hfind _ ih => exact h.base (h.found ih hfind)
  | sector _ ih =>
    obtain ⟨c, hc, hin⟩ := ih
    exact ⟨c, hc, hin.sector⟩

theorem contained : v.Contained where
  root := h.data _ h.root
  next {a} ha hlive := by
    obtain ⟨c, hc, hin⟩ := h.visible ha
    obtain ⟨o, h32, hle, rfl⟩ := hin.offset
    rcases Nat.lt_or_ge (o + 32) v.clusterSize with hlt | hge
    · exact ⟨_, .inside hin.isData h32 hlt⟩
    · have hlast : o + 32 = v.clusterSize := by omega
      exact ⟨_, .link hin.isData h32 hlast
        (h.data _ (h.fat c hc _ hin.mem_addrs hlive (by omega)))⟩
  entry ha hfind _ := h.data _ (h.found (h.visible ha) hfind)
  based {a} ha := by
    obtain ⟨c, hc, hin⟩ := h.visible ha
    exact h.based c hc a hin.mem_addrs

/-- Without a zero slot in any of the clusters no listing ends. -/
theorem not_listingEnds (hlive : ∀ c ∈ C, ∀ x ∈ v.addrs 32 c, v.slot x 0 ≠ 0)
    (ha : v.Visible a) : ¬ v.ListingEnds a := by
  rintro ⟨as, z, hahead, hzero⟩
  obtain ⟨c, hc, hin⟩ := hahead.induct (h.visible ha) h.succ z (by simp)
  exact hlive c hc z hin.mem_addrs hzero

end Volume.Closed

theorem Volume.Lists.listingEnds {c : UInt32} (h : v.Lists c as) : v.ListingEnds (v.base c) := by
  obtain ⟨z, hzero, hchain, hhead⟩ := h.run
  exact ⟨as, z, ⟨hchain, hhead, h.live⟩, hzero⟩

theorem Sample.closed : Sample.volume.Closed [2, 3, 4, 5] where
  root := by decide +kernel
  data := by
    unfold Volume.IsData
    exact List.all_iff_forall_prop.mp (by decide +kernel)
  fat := List.all_iff_forall_prop.mp (by decide +kernel)
  target := List.all_iff_forall_prop.mp (by decide +kernel)
  based := List.all_iff_forall_prop.mp (by decide +kernel)

/-- In the root directory of the sample volume, which has a zero slot. -/
theorem ls_halts_on_sample :
    ∃ s, Returns (doMount (diskEnv Sample.volume.dev) mountMessage)
        (Server.initial fun _ => []) OK s ∧
      Sample.volume.Ends (.ls (ascii ".")) (Sample.volume.base 2) ∧
      Halts (Command.ls (ascii ".")).run s := by
  obtain ⟨s, hmount, hcwd, _⟩ := Sample.mounted fun _ => []
  have hends : Sample.volume.Ends (.ls (ascii ".")) (Sample.volume.base 2) :=
    Sample.lists_root.listingEnds
  obtain ⟨a, hat, _, hhalts, _⟩ := command_halts_iff_volume_ends Sample.bootable
    Sample.closed.contained (.init _) rfl hmount .start (.ls (ascii "."))
  obtain rfl : a = Sample.volume.base 2 := by rw [← hat.pos, hcwd.cursor.pos]
  exact ⟨s, hmount, hends, hhalts.mpr hends⟩

/-! ### A directory without an end -/

namespace Loop

/-- The root directory is one cluster, full of entries, that is its own successor. -/
def image : Image :=
  bootSector 512 1 1 8 1 2 ++
  [(512 + 8, le32Bytes 2),
   (1024, slotBytes (List.replicate 16 (rawSlot (ascii "F") 0x20 0 0)))]

def volume : Volume := image.volume 4096 (by decide +kernel)

theorem bootable : volume.Bootable := Image.bootable _ (by decide) (by decide +kernel)

theorem closed : volume.Closed [2] where
  root := by decide +kernel
  data := by
    unfold Volume.IsData
    exact List.all_iff_forall_prop.mp (by decide +kernel)
  fat := List.all_iff_forall_prop.mp (by decide +kernel)
  target := List.all_iff_forall_prop.mp (by decide +kernel)
  based := List.all_iff_forall_prop.mp (by decide +kernel)

end Loop

/-- A fresh server mounts the image, and an ls of the root directory then runs
    for ever. -/
theorem ls_never_ends_in_loop :
    ∃ s, Returns (doMount (diskEnv Loop.volume.dev) mountMessage)
        (Server.initial fun _ => []) OK s ∧
      s.bpb.bytesPerSector = 512 ∧ s.bpb.spc = 1 ∧ ¬ Halts (Command.ls (ascii ".")).run s := by
  have hcontained := Loop.closed.contained
  obtain ⟨s, hmount, hcwd, _⟩ := Loop.bootable.mounted hcontained.root fun _ => []
  have hbps : s.bpb.bytesPerSector = 512 := by rw [hcwd.on.bpb]; decide +kernel
  have hready := ready_of_doMount (.init _) hmount
    (usable_of_doMount hmount (by rw [hbps]; decide))
  have hstands := Loop.bootable.stands_root hcontained (.init _) rfl hmount
  refine ⟨s, hmount, hbps, by rw [hcwd.on.bpb]; decide +kernel, ?_⟩
  rw [hready.halts_iff_ends, hstands.ends_iff hcontained]
  exact Loop.closed.not_listingEnds (List.all_iff_forall_prop.mp (by decide +kernel))
    hstands.visible

end Fat32s
