/-
  Fat32s/Enumeration.lean
  =======================
  **The cursor enumerates the slots of a chain.**

  A directory is a flat list of slots, the concatenation of the clusters of its
  chain.  The cursor has no index into that list but a sector and an offset, and
  every step to another cluster goes through the FAT and the only buffer.  Still
  `next_dir_entry`, called until the entry is undefined, meets the slots before
  the first empty one, each once and in order.
-/
import Fat32s.Image

namespace Fat32s

open Fat32s.Lib Fat32s.Lib.Prog

variable {v : Volume} {d d' : Drive} {c : UInt32}

/-- Call `next_dir_entry` once more, unless the entry is undefined.  The loop counts
    the calls and keeps the entries. -/
def enumerateStep (seen : Nat × List DirEntry) :
    DriveM ((Nat × List DirEntry) ⊕ (Nat × List DirEntry)) := do
  let d ← Prog.get
  if d.dirBuff.de.type = .undefined then
    return .inr seen
  else
    let _ ← nextDirEntry
    return .inl (seen.1 + 1, seen.2 ++ [d.dirBuff.de])

def enumerate (cluster : UInt32) : DriveM (Nat × List DirEntry) := do
  let d ← Prog.get
  jumpToSector (d.firstSectorOfCluster cluster)
  Prog.iter enumerateStep (0, [])

theorem returns_enumerateStep_inl {seen seen' : Nat × List DirEntry} :
    Returns (enumerateStep seen) d (.inl seen') d' ↔
      d.dirBuff.de.type ≠ .undefined ∧ seen' = (seen.1 + 1, seen.2 ++ [d.dirBuff.de]) ∧
        ∃ t, Returns nextDirEntry d t d' := by
  unfold enumerateStep
  rw [returns_get_bind]
  by_cases htype : d.dirBuff.de.type = .undefined
  · simp [htype]
  · simp only [htype, if_false, returns_bind, returns_pure, Sum.inl.injEq]
    constructor
    · rintro ⟨t, d₁, hnext, rfl, rfl⟩
      exact ⟨htype, rfl, t, hnext⟩
    · rintro ⟨_, rfl, t, hnext⟩
      exact ⟨t, d', hnext, rfl, rfl⟩

/-- The loop meets the entries that the cursor passes. -/
theorem Steps.returns_enumerate {es : List DirEntry} (h : Steps d es d')
    (hend : d'.dirBuff.de.type = .undefined) (seen : Nat × List DirEntry) :
    Returns (iter enumerateStep seen) d (seen.1 + es.length, seen.2 ++ es) d' := by
  induction h generalizing seen with
  | refl d =>
    apply returns_iter.mpr
    left
    unfold enumerateStep
    rw [returns_get_bind, if_pos hend]
    simp
  | @step d d₁ d' t es htype hnext hrest ih =>
    have hloop := ih hend (seen.1 + 1, seen.2 ++ [d.dirBuff.de])
    rw [List.append_assoc, List.singleton_append] at hloop
    have hcount : seen.1 + (d.dirBuff.de :: es).length = seen.1 + 1 + es.length := by
      rw [List.length_cons]
      omega
    rw [hcount]
    apply returns_iter.mpr
    right
    exact ⟨_, d₁, returns_enumerateStep_inl.mpr ⟨htype, rfl, t, hnext⟩, hloop⟩

theorem Slot.dirType_eq_long_iff {u : Slot} (h : u 0 ≠ 0) :
    u.dirType = .long ↔ u 11 = 0x0F ∧ u 12 = 0 := by
  unfold Slot.dirType
  rw [if_neg h]
  by_cases hlong : u 11 = 0x0F ∧ u 12 = 0
  · simp [hlong]
  · simp [hlong]

/-- **The cursor enumerates the chain.**  However the clusters lie on the volume, the
    entries are the slots before the first empty one, and there is one call for each. -/
theorem cursor_enumerates_chain {cs : List UInt32} {us rest : List Slot} {z : Slot} (hon : d.On v)
    (hchain : v.Linked c cs) (hslots : cs.flatMap v.clusterSlots = us ++ z :: rest)
    (hlive : ∀ u ∈ us, u 0 ≠ 0) (hz : z 0 = 0) :
    ∃ calls es d', Returns (enumerate c) d (calls, es) d' ∧
      d'.dirBuff.de.type = .undefined ∧ calls = us.length ∧ es.map (·.u) = us ∧
      ∀ de ∈ es, de.type = .long ↔ de.u 11 = 0x0F ∧ de.u 12 = 0 := by
  obtain ⟨as, hlists, has⟩ := hchain.lists hslots hlive hz
  have hjump : (d.jump (d.firstSectorOfCluster c)).At v (v.base c) :=
    hon.at_jump_cluster hchain.isData
  obtain ⟨d', hsteps, _, hend⟩ := hlists.steps_all hjump (hon.jump _)
  have hentries : (as.map fun a => (v.slot a).entry) = us.map Slot.entry := by
    rw [← has, List.map_map]
    rfl
  rw [hentries] at hsteps
  have hloop := hsteps.returns_enumerate hend (0, [])
  rw [Nat.zero_add, List.length_map, List.nil_append] at hloop
  refine ⟨us.length, us.map Slot.entry, d', ?_, hend, rfl, ?_, ?_⟩
  · unfold enumerate
    rw [returns_get_bind]
    apply returns_bind.mpr
    exact ⟨(), _, returns_jumpToSector.mpr ⟨hon.fits _, rfl⟩, hloop⟩
  · rw [List.map_map]
    exact List.map_id us
  · intro de hde
    obtain ⟨u, hu, rfl⟩ := List.mem_map.mp hde
    exact Slot.dirType_eq_long_iff (hlive u hu)

namespace Fragmented

/-- A root directory of seventeen entries, the last of them a long one.  Its second
    cluster does not follow the first. -/
def slots : List Slot :=
  List.replicate 16 (rawSlot (ascii "A") 0x20 3 0) ++ [rawSlot (ascii "B") 0x0F 0 0]

def image : Image :=
  bootSector 512 1 1 8 1 2 ++
  [(512 + 8, le32Bytes 4 ++ le32Bytes 0x0FFFFFFF ++ le32Bytes 0x0FFFFFFF),
   (1024, slotBytes (slots.take 16)), (2048, slotBytes (slots.drop 16))]

def volume : Volume := image.volume 4096 (by decide +kernel)

theorem linked : volume.Linked 2 [2, 4] := by
  have hdata : volume.IsData 2 ∧ volume.IsData 4 := by
    unfold Volume.IsData
    decide +kernel
  have hfat : volume.fat 2 = 4 := by decide +kernel
  exact .link hdata.1 (hfat ▸ .last hdata.2)

theorem layout : ([2, 4] : List UInt32).flatMap volume.clusterSlots =
    slots ++ volume.slot 2080 :: (volume.clusterSlots 4).drop 2 := by
  have haddrs : volume.addrs 32 2 = (List.range (slots.take 16).length).map (1024 + 32 * ·) ∧
      volume.addrs 32 4 = 2048 :: 2080 :: (volume.addrs 32 4).drop 2 := by decide +kernel
  have hfirst : volume.clusterSlots 2 = slots.take 16 := by
    rw [Volume.clusterSlots, haddrs.1]
    exact Image.map_slot (image.take 5) (image.drop 6) _ _ rfl (by decide +kernel)
  have hlast : ((List.range (slots.drop 16).length).map (2048 + 32 * ·)).map volume.slot =
      slots.drop 16 := Image.map_slot (image.take 6) [] _ _ rfl (by decide +kernel)
  change [volume.slot 2048] = slots.drop 16 at hlast
  have hsecond : volume.clusterSlots 4 =
      volume.slot 2048 :: volume.slot 2080 :: (volume.clusterSlots 4).drop 2 := by
    rw [Volume.clusterSlots, ← List.map_drop, ← List.map_cons, ← List.map_cons, ← haddrs.2]
  calc ([2, 4] : List UInt32).flatMap volume.clusterSlots
      = volume.clusterSlots 2 ++ volume.clusterSlots 4 := by simp
    _ = slots.take 16 ++ ([volume.slot 2048] ++ volume.slot 2080 ::
          (volume.clusterSlots 4).drop 2) := by rw [hfirst, List.singleton_append, ← hsecond]
    _ = slots ++ volume.slot 2080 :: (volume.clusterSlots 4).drop 2 := by
      rw [hlast, ← List.append_assoc, List.take_append_drop]

theorem live : ∀ u ∈ slots, u 0 ≠ 0 := by
  intro u hu
  rcases List.mem_append.mp hu with h | h
  · rw [List.eq_of_mem_replicate h]
    decide
  · rw [List.mem_singleton.mp h]
    decide

end Fragmented

theorem cursor_enumerates_fragments : ∃ s calls es d',
    Returns (doMount (diskEnv Fragmented.volume.dev) mountMessage) (Server.initial fun _ => [])
      OK s ∧
    Returns (enumerate 2) s.toDrive (calls, es) d' ∧ d'.dirBuff.de.type = .undefined ∧
    calls = 17 ∧ es.map (·.u) = Fragmented.slots ∧
    ∀ de ∈ es, de.type = .long ↔ de.u 11 = 0x0F ∧ de.u 12 = 0 := by
  obtain ⟨s, hmount, hcwd, _⟩ := (Image.bootable _ (by decide) (by decide +kernel) :
    Fragmented.volume.Bootable).mounted Fragmented.linked.isData fun _ => []
  obtain ⟨calls, es, d', hrun, hend, hcalls, hes⟩ :=
    cursor_enumerates_chain hcwd.on Fragmented.linked Fragmented.layout Fragmented.live
      (by decide +kernel)
  exact ⟨s, calls, es, d', hmount, hrun, hend, hcalls, hes⟩

end Fat32s
