/-
  Fat32s/ClusterIds.lean
  ======================
  **The two readers of an entry's first cluster.**

  `hop` and `find_child_by_cluster_id` both decode the first cluster of an entry,
  and a first cluster of 0 means the root directory to both.  But `hop` takes the
  root from the BPB and `find_child_by_cluster_id` takes it to be cluster 2.  They
  agree on volumes whose root is cluster 2; on other volumes the search can stop
  at an entry that leads elsewhere, or miss one that leads to the right place.
-/
import Fat32s.Rollback
import Fat32s.Image

namespace Fat32s

open Fat32s.Lib Fat32s.Lib.Prog

variable {v : Volume} {s s' : Server} {d d' : Drive} {c id : UInt32} {as : List Nat}

/-- Both clusters start at the same sector.  As sector numbers have 32 bits the
    clusters may differ, if one of them is not of the volume. -/
def Bpb.SameStart (b : Bpb) (c c' : UInt32) : Prop := c * b.spc = c' * b.spc

theorem Drive.firstSectorOfCluster_eq_iff {c c' : UInt32} :
    d.firstSectorOfCluster c = d.firstSectorOfCluster c' ↔ d.bpb.SameStart c c' := by
  unfold Drive.firstSectorOfCluster Bpb.SameStart
  rw [UInt32.add_right_inj, UInt32.sub_mul, UInt32.sub_mul, UInt32.sub_left_inj]

/-- The first sector of a cluster depends on the volume only. -/
theorem Drive.On.firstSectorOfCluster_eq (h : d.On v) (h' : d'.On v) (c : UInt32) :
    d.firstSectorOfCluster c = d'.firstSectorOfCluster c := by
  have hfds : d.fsData.firstDataSector = d'.fsData.firstDataSector :=
    UInt32.toNat.inj (h.fds.trans h'.fds.symm)
  rw [Drive.firstSectorOfCluster, Drive.firstSectorOfCluster, h.bpb, h'.bpb, hfds]

/-- The slots of a directory that are typed as short ones, in order. -/
def Volume.shortSlots (v : Volume) (as : List Nat) : List Slot :=
  (as.map v.slot).filter (·.dirType = .short)

theorem Volume.mem_shortSlots {u : Slot} :
    u ∈ v.shortSlots as ↔ ∃ a ∈ as, v.slot a = u ∧ u.dirType = .short := by
  simp only [shortSlots, List.mem_filter, List.mem_map, decide_eq_true_eq]
  constructor
  · rintro ⟨⟨a, ha, rfl⟩, hshort⟩
    exact ⟨a, ha, rfl, hshort⟩
  · rintro ⟨a, ha, rfl, hshort⟩
    exact ⟨⟨a, ha, rfl⟩, hshort⟩

/-- A scan looks at the short slots. -/
theorem Volume.map_decoded (v : Volume) (junk : Name) (as : List Nat) :
    (v.decoded junk as).map (·.1.u) = v.shortSlots as := by
  have hmap : (v.decoded junk as).map (·.1.u) = ((v.decoded junk as).map (·.1)).map (·.u) := by
    rw [List.map_map]
    rfl
  rw [hmap, decoded, map_fst_named]
  unfold entries shortSlots
  rw [List.filter_map, List.filter_map, List.map_map]
  rfl

theorem Slot.clusterId_eq_two_iff {u : Slot} :
    u.clusterId = 2 ↔ u.firstCluster = 0 ∨ u.firstCluster = 2 := by
  unfold Slot.clusterId
  by_cases hzero : u.firstCluster = 0
  · simp [hzero]
  · simp [hzero]

/-- **`find_child_by_cluster_id` finds the first short slot that it reads the id from.** -/
theorem Volume.Lists.search_clusterId (h : v.Lists c as) (hcwd : s.Cwd v c) (id : UInt32) :
    ((∀ u ∈ v.shortSlots as, u.clusterId ≠ id) ∧
        ∃ name s', Returns (findChildByClusterId id) s (name, 1) s') ∨
      ∃ u, (v.shortSlots as).find? (·.clusterId = id) = some u ∧ u.dirType = .short ∧
        u.clusterId = id ∧ ∃ name s', Returns (findChildByClusterId id) s (name, 0) s' ∧
          s'.On v ∧ s'.dirBuff.de = u.entry := by
  rcases h.returns_findChildByClusterId hcwd.cursor hcwd.on id with ⟨hnone, name, d, sc, _, hret⟩ |
    ⟨xs, x, ys, hsplit, hxs, hx, a, ha, hentry, htype, d, sc, hon, hde, hret⟩
  · left
    refine ⟨?_, name, _, hret⟩
    intro u hu
    rw [← v.map_decoded (s.scratch.junk 0)] at hu
    obtain ⟨x, hx, rfl⟩ := List.mem_map.mp hu
    exact hnone x hx
  · right
    rw [hentry] at htype
    refine ⟨x.1.u, ?_, by rw [hentry]; exact htype, hx, x.2, _, hret, hon, ?_⟩
    · rw [← v.map_decoded (s.scratch.junk 0), hsplit, List.map_append, List.map_cons]
      apply List.find?_eq_some_iff_append.mpr
      refine ⟨by simpa using hx, xs.map (·.1.u), ys.map (·.1.u), rfl, ?_⟩
      intro w hw
      obtain ⟨y, hy, rfl⟩ := List.mem_map.mp hw
      simpa using hxs y hy
    · change d.dirBuff.de = _
      rw [hde, hentry]
      rfl

/-- From an entry `hop` goes to the first sector of its target. -/
theorem returns_hop_of_entry {u : Slot} {r : Int} (hon : s.On v) (hde : s.dirBuff.de = u.entry)
    (hshort : u.dirType = .short) (h : Returns hop s r s') :
    s'.AtSector (s.firstSectorOfCluster (v.target u)) := by
  have htype : s.dirBuff.de.type = .short := by
    rw [hde]
    exact hshort
  obtain ⟨_, _, rfl⟩ := (returns_hop htype).mp h
  rw [hon.target_eq hde]
  exact ⟨Drive.jump_sector _ _, Drive.jump_offset _ _⟩

/-! ### When they agree -/

/-- The two readers agree in a directory: `hop` goes from the entry that is found
    for the id to the cluster with this number, and if none is found, it goes there
    from no entry. -/
structure ReadersAgree (v : Volume) (as : List Nat) (s : Server) (id : UInt32) : Prop where
  found : ∀ name s₁, Returns (findChildByClusterId id) s (name, 0) s₁ →
    ∃ r s₂, Returns hop s₁ r s₂ ∧ s₂.AtSector (s.firstSectorOfCluster id)
  missed : ∀ name s₁, Returns (findChildByClusterId id) s (name, 1) s₁ → ∀ a ∈ as,
    (v.slot a).dirType = .short → ∀ s₂ r s₃, s₂.On v → s₂.At v a → Returns hop s₂ r s₃ →
      s₃.dirBuff.sector ≠ s.firstSectorOfCluster id

/-- The ways in which they disagree.  In the first, cluster 2 is looked for, the root
    is elsewhere, and an entry with first cluster 0 comes first.  In the second the
    root is looked for, which is not cluster 2, and only entries with first cluster 0
    lead there.  In the third an entry has the number of a cluster beyond the volume,
    whose first sector wraps around to that of the one looked for. -/
inductive Misread (v : Volume) (as : List Nat) (id : UInt32) : Prop
  | zeroFirst {u : Slot} (hid : id = 2) (hroot : ¬ v.bpb.SameStart v.bpb.rootCluster 2)
      (hfirst : (v.shortSlots as).find? (fun u => u.firstCluster = 0 ∨ u.firstCluster = 2) = some u)
      (hzero : u.firstCluster = 0)
  | rootUnlisted {u : Slot} (hid : id ≠ 2) (hroot : v.bpb.SameStart v.bpb.rootCluster id)
      (hu : u ∈ v.shortSlots as) (hzero : u.firstCluster = 0)
      (hnone : ∀ w ∈ v.shortSlots as, w.firstCluster = id → id = 0)
  | wrapped {u : Slot} (hu : u ∈ v.shortSlots as) (hzero : u.firstCluster ≠ 0)
      (hsame : v.bpb.SameStart u.firstCluster id)
      (hnone : ∀ w ∈ v.shortSlots as, w.clusterId ≠ id)

theorem Misread.not_agree (h : Misread v as id) (hcwd : s.Cwd v c) (hdir : v.Lists c as) :
    ¬ ReadersAgree v as s id := by
  intro hagree
  have hmiss : ∀ {u : Slot}, u ∈ v.shortSlots as → (∀ w ∈ v.shortSlots as, w.clusterId ≠ id) →
      ¬ v.bpb.SameStart (v.target u) id := by
    intro u hu hnone hsame
    obtain ⟨a, ha, rfl, hshort⟩ := Volume.mem_shortSlots.mp hu
    rcases hdir.search_clusterId hcwd id with ⟨_, name, s₁, hret⟩ | ⟨w, hfirst, _, hid, _⟩
    · obtain ⟨pre, post, rfl⟩ := List.append_of_mem ha
      obtain ⟨d, _, hon, hat⟩ := hdir.steps_to hcwd.cursor hcwd.on
      have hde := hat.de (hdir.live a ha)
      obtain ⟨s₃, hhop, _⟩ := Server.returns_hop (s := { s with toDrive := d }) hon hat hde hshort
      have hat₃ := returns_hop_of_entry (s := { s with toDrive := d }) hon hde hshort hhop
      apply hagree.missed name s₁ hret a ha hshort { s with toDrive := d } OK s₃ hon hat hhop
      rw [hat₃.sector, hon.firstSectorOfCluster_eq hcwd.on, Drive.firstSectorOfCluster_eq_iff,
        hcwd.on.bpb]
      exact hsame
    · exact hnone w (List.mem_of_find?_eq_some hfirst) hid
  cases h with
  | @zeroFirst u hid hroot hfirst hzero =>
    subst hid
    have htwo : (fun u : Slot => decide (u.clusterId = 2)) =
        fun u => decide (u.firstCluster = 0 ∨ u.firstCluster = 2) := by
      funext u
      simp only [Slot.clusterId_eq_two_iff]
    rcases hdir.search_clusterId hcwd 2 with ⟨hnone, _⟩ |
      ⟨w, hfirst', hshort, _, name, s₁, hret, hon, hde⟩
    · refine hnone u (List.mem_of_find?_eq_some hfirst) (Slot.clusterId_eq_two_iff.mpr (.inl hzero))
    · rw [htwo, hfirst] at hfirst'
      obtain rfl := Option.some.inj hfirst'
      obtain ⟨r, s₂, hhop, hat⟩ := hagree.found name s₁ hret
      have hat' := returns_hop_of_entry hon hde hshort hhop
      have htarget : v.target u = v.bpb.rootCluster := if_pos hzero
      apply hroot
      rw [← hcwd.on.bpb, ← Drive.firstSectorOfCluster_eq_iff, ← hat.sector, hat'.sector, htarget,
        hcwd.on.bpb]
      exact hcwd.on.firstSectorOfCluster_eq hon _
  | rootUnlisted hid hroot hu hzero hnone =>
    refine hmiss hu ?_ ?_
    · intro w hw hclusterId
      unfold Slot.clusterId at hclusterId
      split at hclusterId
      · exact hid hclusterId.symm
      · next hne => exact hne (hclusterId.trans (hnone w hw hclusterId))
    · rw [Volume.target, if_pos hzero]
      exact hroot
  | wrapped hu hzero hsame hnone =>
    refine hmiss hu hnone ?_
    rw [Volume.target, if_neg hzero]
    exact hsame

/-- **The two readers agree unless one of these ways is taken.** -/
theorem readers_agree_iff (hcwd : s.Cwd v c) (hdir : v.Lists c as) (id : UInt32) :
    ReadersAgree v as s id ↔ ¬ Misread v as id := by
  constructor
  · intro hagree hmisread
    exact hmisread.not_agree hcwd hdir hagree
  · intro hread
    refine ⟨?_, ?_⟩
    · intro name s₁ hret
      rcases hdir.search_clusterId hcwd id with ⟨_, _, _, hret'⟩ |
        ⟨u, hfirst, hshort, hid, _, _, hret', hon, hde⟩
      · cases (Prod.mk.inj (hret.unique hret').1).2
      · obtain ⟨_, rfl⟩ := hret.unique hret'
        have htype : s₁.dirBuff.de.type = .short := by
          rw [hde]
          exact hshort
        have hhop := (returns_hop htype).mpr ⟨hon.fits _, rfl, rfl⟩
        have hat := returns_hop_of_entry hon hde hshort hhop
        refine ⟨OK, _, hhop, ?_⟩
        have hsame : s₁.firstSectorOfCluster (v.target u) = s.firstSectorOfCluster id := by
          rw [hon.firstSectorOfCluster_eq hcwd.on, Drive.firstSectorOfCluster_eq_iff, hcwd.on.bpb]
          unfold Slot.clusterId at hid
          split at hid
          case isTrue hzero =>
            subst hid
            rw [Volume.target, if_pos hzero]
            by_contra hroot
            refine hread (.zeroFirst rfl hroot ?_ hzero)
            simpa only [Slot.clusterId_eq_two_iff] using hfirst
          case isFalse hne =>
            rw [Volume.target, if_neg hne, hid]
            rfl
        rwa [hsame] at hat
    · intro name s₁ hret a ha hshort s₂ r s₃ hon hat hhop hsector
      have hmem : v.slot a ∈ v.shortSlots as := Volume.mem_shortSlots.mpr ⟨a, ha, rfl, hshort⟩
      have hat₃ := returns_hop_of_entry hon (hat.de (hdir.live a ha)) hshort hhop
      rw [hat₃.sector, hon.firstSectorOfCluster_eq hcwd.on, Drive.firstSectorOfCluster_eq_iff,
        hcwd.on.bpb] at hsector
      rcases hdir.search_clusterId hcwd id with ⟨hnone, _⟩ | ⟨_, _, _, _, _, _, hret', _⟩
      · unfold Volume.target at hsector
        split at hsector
        case isTrue hzero =>
          have hid : id ≠ 2 := by
            intro hid
            exact hnone _ hmem (hid ▸ Slot.clusterId_eq_two_iff.mpr (.inl hzero))
          refine hread (.rootUnlisted hid hsector hmem hzero ?_)
          intro w hw hcluster
          by_contra hne
          refine hnone w hw ?_
          rw [Slot.clusterId, hcluster, if_neg hne]
        case isFalse hne => exact hread (.wrapped hmem hne hsector hnone)
      · cases (Prod.mk.inj (hret.unique hret').1).2

/-- The directory `DIR` of the sample volume is found in its root. -/
theorem readers_agree_on_sample : ∃ s, s.Cwd Sample.volume 2 ∧
    ReadersAgree Sample.volume [1024, 1056, 1088, 1120] s 3 := by
  obtain ⟨s, _, hcwd, _⟩ := Sample.mounted fun _ => []
  refine ⟨s, hcwd, (readers_agree_iff hcwd Sample.lists_root 3).mpr ?_⟩
  intro hmisread
  cases hmisread with
  | zeroFirst hid => exact absurd hid (by decide)
  | rootUnlisted _ hroot =>
    unfold Bpb.SameStart at hroot
    exact absurd hroot (by decide +kernel)
  | wrapped _ _ _ hnone =>
    have hdir : Sample.volume.slot 1024 ∈ Sample.volume.shortSlots [1024, 1056, 1088, 1120] := by
      decide +kernel
    exact hnone _ hdir (by decide +kernel)

namespace Elsewhere

/-- A volume whose root directory is cluster 3.  It holds an empty file and, in cluster
    2, a directory. -/
def image : Image :=
  bootSector 512 1 1 8 1 3 ++
  [(512 + 8, le32Bytes 0x0FFFFFFF ++ le32Bytes 0x0FFFFFFF),
   (1024, slotBytes [rawSlot (ascii ".") 0x10 2 0, rawSlot (ascii "..") 0x10 0 0]),
   (1536, slotBytes [rawSlot (ascii "EMPTY") 0x20 0 0, rawSlot (ascii "D") 0x10 2 0])]

def volume : Volume := image.volume 4096 (by decide +kernel)

theorem lists_root : volume.Lists 3 [1536, 1568] := by
  have hdata : volume.IsData 3 := by
    unfold Volume.IsData
    decide +kernel
  exact ⟨by decide +kernel, [3], 1600, (volume.addrs 32 3).drop 3, .last hdata, by decide +kernel,
    by decide +kernel⟩

end Elsewhere

/-- The search for cluster 2 stops at the empty file, from where `hop` leads to the
    root and not to cluster 2. -/
theorem empty_file_found_for_directory : ∃ s name s₁ s₂,
    Returns (doMount (diskEnv Elsewhere.volume.dev) mountMessage)
      (Server.initial fun _ => []) OK s ∧
    s.Cwd Elsewhere.volume 3 ∧ Elsewhere.volume.Lists 3 [1536, 1568] ∧
    Returns (findChildByClusterId 2) s (name, 0) s₁ ∧
    s₁.dirBuff.de = (rawSlot (ascii "EMPTY") 0x20 0 0).entry ∧
    Returns hop s₁ OK s₂ ∧ s₂.dirBuff.sector ≠ s.firstSectorOfCluster 2 ∧
    ¬ ReadersAgree Elsewhere.volume [1536, 1568] s 2 := by
  have hboot : Elsewhere.volume.Bootable := Image.bootable _ (by decide) (by decide +kernel)
  obtain ⟨s, hmount, hcwd, _⟩ := hboot.mounted Elsewhere.lists_root.isData fun _ => []
  have hfirst : (Elsewhere.volume.shortSlots [1536, 1568]).find? (·.clusterId = 2) =
      some (rawSlot (ascii "EMPTY") 0x20 0 0) := by decide +kernel
  rcases Elsewhere.lists_root.search_clusterId hcwd 2 with ⟨hnone, _⟩ |
    ⟨u, hfirst', hshort, _, name, s₁, hret, hon, hde⟩
  · exact absurd (by decide +kernel) (hnone _ (List.mem_of_find?_eq_some hfirst))
  · obtain rfl := Option.some.inj (hfirst.symm.trans hfirst')
    have hhop := (returns_hop (s := s₁) (by rw [hde]; exact hshort)).mpr ⟨hon.fits _, rfl, rfl⟩
    have hat := returns_hop_of_entry hon hde hshort hhop
    have hsector : s₁.firstSectorOfCluster
        (Elsewhere.volume.target (rawSlot (ascii "EMPTY") 0x20 0 0)) ≠
          s.firstSectorOfCluster 2 := by
      rw [ne_eq, hon.firstSectorOfCluster_eq hcwd.on, Drive.firstSectorOfCluster_eq_iff,
        hcwd.on.bpb, Bpb.SameStart]
      decide +kernel
    rw [← hat.sector] at hsector
    refine ⟨s, name, s₁, _, hmount, hcwd, Elsewhere.lists_root, hret, hde, hhop, hsector, ?_⟩
    intro hagree
    obtain ⟨_, s₂, hhop', hat'⟩ := hagree.found name s₁ hret
    obtain ⟨_, rfl⟩ := hhop.unique hhop'
    exact hsector hat'.sector

end Fat32s
