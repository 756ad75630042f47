/-
  Fat32s/LongNames.lean
  =====================
  **Which name a short entry goes by, on any disk.**

  A writer puts a set of long slots directly before the short slot they belong to:
  numbered down to 1, the first one marked, and each with the checksum of the short
  name.  The scans read neither number nor checksum.  They join the pieces of whatever
  long slots they have met since the last short slot, and the next short entry goes by
  that text; it goes by its own 8.3 name only if there is none.
-/
import Fat32s.Composition

namespace Fat32s

open Fat32s.Lib Fat32s.Lib.Prog

variable {d d' : Drive} {s s' : Server}

/-! ### The rule -/

/-- The text of a run of long slots: the piece in the last slot comes first. -/
def joined (run : List DirEntry) : Name := (run.reverse.map fun de => getName de []).flatten

/-- The short entries, each with the long entries directly before it; `run` are those
    met already. -/
def groups : List DirEntry → List DirEntry → List (List DirEntry × DirEntry)
  | _, [] => []
  | run, de :: es =>
    if de.type = .short then (run, de) :: groups [] es
    else if de.type = .long then groups (run ++ [de]) es
    else groups run es

/-- The name that goes with a short entry and the run of long slots before it.  An 8.3
    name is decoded into the buffer `part`, which `get_name` looks at before it writes
    there if the name starts with a space. -/
inductive UsedName (run : List DirEntry) (de : DirEntry) : Name → Prop
  | text (htext : joined run ≠ []) : UsedName run de (joined run)
  | own (hnone : joined run = []) (part : Name) : UsedName run de (getName de part)

theorem joined_concat (run : List DirEntry) (de : DirEntry) :
    joined (run ++ [de]) = getName de [] ++ joined run := by
  simp [joined]

theorem usedName_own (run : List DirEntry) (de : DirEntry) (part : Name) :
    UsedName run de (Names.own ⟨part, joined run⟩ de).full := by
  by_cases hnone : joined run = []
  · rw [Names.own, if_pos hnone]
    exact .own hnone part
  · rw [Names.own, if_neg hnone]
    exact .text hnone

/-- The scans follow the rule.  What they have collected is the text of the run. -/
theorem named_groups (run es : List DirEntry) (part : Name) :
    List.Forall₂ (fun g x => x.1 = g.2 ∧ UsedName g.1 g.2 x.2) (groups run es)
      (named ⟨part, joined run⟩ es) := by
  induction es generalizing run part with
  | nil => exact .nil
  | cons de es ih =>
    cases htype : de.type with
    | short =>
      rw [named_cons_short htype, groups, if_pos htype]
      have hnext : Names.next ⟨part, joined run⟩ de =
          ⟨(Names.own ⟨part, joined run⟩ de).part, joined []⟩ := by simp [Names.next, htype, joined]
      rw [hnext]
      exact .cons ⟨rfl, usedName_own run de part⟩ (ih [] _)
    | long =>
      have hne : de.type ≠ .short := by simp [htype]
      have hpiece : getName de part = getName de [] := getName_of_long htype part []
      have hnext : Names.next ⟨part, joined run⟩ de =
          ⟨joined (run ++ [de]), joined (run ++ [de])⟩ := by
        simp [Names.next, htype, Names.piece, joined_concat, hpiece]
      rw [named_cons_of_ne_short hne, groups, if_neg hne, if_pos htype, hnext]
      exact ih (run ++ [de]) _
    | undefined =>
      have hne : de.type ≠ .short := by simp [htype]
      have hnext : Names.next ⟨part, joined run⟩ de = ⟨part, joined run⟩ := by
        simp [Names.next, htype]
      rw [named_cons_of_ne_short hne, groups, if_neg hne, if_neg (by simp [htype]), hnext]
      exact ih run part

/-! ### The three scans -/

/-- The names `xs` of a directory with the entries `es` follow the rule, and they are the
    names that `_ls` prints and that the searches compare or hand out. -/
structure NamesUsed (s : Server) (es : List DirEntry) (xs : List (DirEntry × Name)) : Prop where
  rule : List.Forall₂ (fun g x => x.1 = g.2 ∧ UsedName g.1 g.2 x.2) (groups [] es) xs
  listed : ∃ s', Returns listEntries s () s' ∧
    s'.out = s.out ++ xs.flatMap fun x => lsLine x.1 x.2
  printed : ∀ r s', Returns (ls (ascii ".")) s r s' →
    s'.out = s.out ++ xs.flatMap fun x => lsLine x.1 x.2
  found : ∀ q x, xs.find? (·.2 = q) = some x →
    ∃ s', Returns (findChild q) s 0 s' ∧ s'.dirBuff.de = x.1
  missed : ∀ q, (∀ x ∈ xs, x.2 ≠ q) → ∃ s', Returns (findChild q) s 1 s'
  byCluster : ∀ id name s', Returns (findChildByClusterId id) s (name, 0) s' →
    (s'.dirBuff.de, name) ∈ xs

/-- The end of a directory is where it is. -/
theorem Steps.end_unique {es es' : List DirEntry} (h : Steps d es d') {d₁ : Drive}
    (h' : Steps d es' d₁) (hend : d'.dirBuff.de.type = .undefined)
    (hend' : d₁.dirBuff.de.type = .undefined) : es = es' := by
  rcases h.compare h' with ⟨fs, rfl, hfs⟩ | ⟨fs, rfl, hfs⟩
  · cases hfs with
    | refl _ => simp
    | step htype _ _ => exact absurd hend htype
  · cases hfs with
    | refl _ => simp
    | step htype _ _ => exact absurd hend' htype

/-- The cursor stands at each of the entries on its way. -/
theorem Steps.split {pre post : List DirEntry} {de : DirEntry}
    (h : Steps d (pre ++ de :: post) d') :
    ∃ d₁, Steps d pre d₁ ∧ d₁.dirBuff.de = de ∧ Steps d₁ (de :: post) d' := by
  induction pre generalizing d with
  | nil =>
    cases h with
    | step htype hnext hrest => exact ⟨_, .refl _, rfl, .step htype hnext hrest⟩
  | cons de₀ pre ih =>
    cases h with
    | step htype hnext hrest =>
      rcases ih hrest with ⟨d₁, hpre, hde, hpost⟩
      exact ⟨d₁, .step htype hnext hpre, hde, hpost⟩

/-- A search stops at the first entry that goes by the name. -/
theorem Steps.returns_findChild_first {es : List DirEntry} (h : Steps s.toDrive es d) {q : Name}
    {x : DirEntry × Name} (hx : (named s.freshNames es).find? (·.2 = q) = some x) :
    ∃ pre post s', Returns (findChild q) s 0 s' ∧ es = pre ++ x.1 :: post ∧
      Steps s.toDrive pre s'.toDrive ∧ s'.dirBuff.de = x.1 ∧
      Steps s'.toDrive (x.1 :: post) d ∧ ((s.freshNames.after pre).own x.1).full = q := by
  rcases List.find?_eq_some_iff_append.mp hx with ⟨hname, xs, ys, hsplit, hxs⟩
  rcases named_eq_append hsplit with ⟨pre, de, post, rfl, rfl, hshort, rfl⟩
  rcases h.split with ⟨d₁, hpre, rfl, hpost⟩
  have hq : ((s.freshNames.after pre).own d₁.dirBuff.de).full = q := by simpa using hname
  have hnone : ∀ y ∈ named s.freshNames pre, y.2 ≠ q := by
    intro y hy
    simpa using hxs y hy
  exact ⟨pre, post, _, returns_findChild.mpr ⟨pre, d₁, hpre, hnone, .inr ⟨rfl, hshort, hq⟩, rfl⟩,
    rfl, hpre, rfl, hpost, hq⟩

/-- The names that a scan gives to the entries are those it uses. -/
theorem Steps.namesUsed {es : List DirEntry} (hsteps : Steps s.toDrive es d)
    (hend : d.dirBuff.de.type = .undefined) : NamesUsed s es (named s.freshNames es) := by
  refine ⟨?_, ?_, ?_, ?_, ?_, ?_⟩
  · exact named_groups [] es _
  · refine ⟨_, returns_listEntries.mpr ⟨es, d, hsteps, hend, rfl⟩, ?_⟩
    simp only [Server.scanned, Server.declared, named_append_undefined hend]
  · intro r s' hls
    rcases returns_ls_dot hls with ⟨es', d', hsteps', hend', hout⟩
    rw [hsteps'.end_unique hsteps hend' hend] at hout
    exact hout
  · intro q x hx
    rcases hsteps.returns_findChild_first hx with ⟨_, _, s', hfind, _, _, hde, _⟩
    exact ⟨s', hfind, hde⟩
  · intro q hnone
    exact ⟨_, returns_findChild.mpr ⟨es, d, hsteps, hnone, .inl ⟨rfl, hend⟩, rfl⟩⟩
  · intro id name s' hret
    rcases returns_findChildByClusterId.mp hret with ⟨es', d₁, hsteps', _, hstop, rfl⟩
    rcases hstop with ⟨hone, _⟩ | ⟨_, hshort, _, rfl⟩
    · cases hone
    · change (d₁.dirBuff.de, _) ∈ named s.freshNames es
      rcases hsteps'.compare hsteps with ⟨fs, rfl, hfs⟩ | ⟨fs, _, hfs⟩
      · cases hfs with
        | refl _ =>
          rw [hend] at hshort
          cases hshort
        | step _ _ _ =>
          rw [named_append, named_cons_short hshort]
          exact List.mem_append_right _ List.mem_cons_self
      · cases hfs with
        | refl _ =>
          rw [hend] at hshort
          cases hshort
        | step htype _ _ => exact absurd hend htype

/-- **A short entry goes by the text of the long slots directly before it**, and by its own
    8.3 name if they have none.  This is so for every sequence of slots from the cursor to
    an empty slot, on any disk and in any state. -/
theorem names_used_by_scans {es : List DirEntry} (hsteps : Steps s.toDrive es d)
    (hend : d.dirBuff.de.type = .undefined) : ∃ xs, NamesUsed s es xs :=
  ⟨_, hsteps.namesUsed hend⟩

/-- In the root directory of the sample volume. -/
theorem names_used_in_sample : ∃ s d xs,
    Steps s.toDrive (Sample.volume.entries [1024, 1056, 1088, 1120]) d ∧
      d.dirBuff.de.type = .undefined ∧
      NamesUsed s (Sample.volume.entries [1024, 1056, 1088, 1120]) xs := by
  rcases Sample.mounted fun _ => [] with ⟨s, _, hcwd, _⟩
  rcases Sample.lists_root.steps_all hcwd.cursor hcwd.on with ⟨d, hsteps, _, hend⟩
  rcases names_used_by_scans hsteps hend with ⟨xs, hused⟩
  exact ⟨s, d, xs, hsteps, hend, hused⟩

/-! ### An orphan -/

/-- The checksum of the 8.3 name in a short slot. -/
def Slot.nameSum (u : Slot) : UInt8 :=
  (u.shortBase ++ u.shortExt).foldl (fun sum ch => (sum >>> 1 ||| sum <<< 7) + ch) 0

/-- The long slots of a name that belongs to a short slot. -/
structure CompleteSet (run : List Slot) (u : Slot) : Prop where
  ne : run ≠ []
  ordinals : run.map (· 0) = ((List.range run.length).map (longOrd run.length)).reverse
  sums : ∀ w ∈ run, w 13 = u.nameSum

namespace Orphan

/-- The last slot of a name of two pieces whose entry is gone. -/
def orphan : Slot := longSlot 0x42 0x11 fun j =>
  if j = 0 then 0x6F else if j = 1 then 0x6C else if j = 2 then 0x64
  else if j = 3 then 0 else 0xFFFF

/-- The root directory: the orphan, and after it a file without a long name. -/
def image : Image :=
  bootSector 512 1 1 8 1 2 ++
  [(512 + 8, le32Bytes 0x0FFFFFFF),
   (1024, slotBytes [orphan, rawSlot (ascii "REAL    TXT") 0x20 3 5])]

def volume : Volume := image.volume 4096 (by decide +kernel)

theorem bootable : volume.Bootable := Image.bootable _ (by decide) (by decide +kernel)

theorem isData : volume.IsData 2 := by
  unfold Volume.IsData
  decide +kernel

theorem lists_root : volume.Lists 2 [1024, 1056] :=
  ⟨by decide +kernel, [2], 1088, (volume.addrs 32 2).drop 3, .last isData, by decide +kernel,
    by decide +kernel⟩

theorem decoded_root (junk : Name) : volume.decoded junk [1024, 1056] =
    [((volume.slot 1056).entry, ascii "old")] := by
  have hjunk : volume.decoded junk [1024, 1056] = volume.decoded [] [1024, 1056] :=
    named_junk _ _ _ (by decide +kernel)
  rw [hjunk]
  decide +kernel

end Orphan

/-- `REAL.TXT` has no set of long slots before it, but is listed under the name in the
    orphan, and not found under its own. -/
theorem orphan_renames_next_file : ∃ s s₁ s₂,
    Returns (doMount (diskEnv Orphan.volume.dev) mountMessage) (Server.initial fun _ => []) OK s ∧
    s.Cwd Orphan.volume 2 ∧
    ¬ CompleteSet [Orphan.volume.slot 1024] (Orphan.volume.slot 1056) ∧
    getName (Orphan.volume.slot 1056).entry [] = ascii "REAL.TXT" ∧
    Returns (ls (ascii ".")) s OK s₁ ∧ s₁.out = s.out ++ ascii "old\n" ∧
    Returns (findChild (ascii "REAL.TXT")) s 1 s₂ := by
  rcases Orphan.bootable.mounted Orphan.isData fun _ => [] with ⟨s, hmount, hcwd, _⟩
  have hincomplete : ¬ CompleteSet [Orphan.volume.slot 1024] (Orphan.volume.slot 1056) := by
    intro h
    exact absurd (h.sums _ List.mem_cons_self) (by decide +kernel)
  rcases hcwd.returns_ls_dot Orphan.lists_root with ⟨s₁, hls, _, _, hout⟩
  have hline : [((Orphan.volume.slot 1056).entry, ascii "old")].flatMap
      (fun x => lsLine x.1 x.2) = ascii "old\n" := by decide +kernel
  rw [Orphan.decoded_root, hline] at hout
  have hlookup :
      Orphan.volume.lookup (s.scratch.junk 0) [1024, 1056] (ascii "REAL.TXT") = none := by
    rw [Volume.lookup, Orphan.decoded_root]
    decide +kernel
  rcases Orphan.lists_root.returns_findChild hcwd.cursor hcwd.on (ascii "REAL.TXT") with
    ⟨_, d, sc, _, hfind⟩ | ⟨a, _, hsome, _⟩
  · exact ⟨s, s₁, _, hmount, hcwd, hincomplete, by decide +kernel, hls, hout, hfind⟩
  · rw [hlookup] at hsome
    cases hsome

end Fat32s
