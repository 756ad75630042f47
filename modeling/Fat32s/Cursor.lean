/-
  Fat32s/Cursor.lean
  ==================
  **The cursor follows the chains of a volume.**

  On a drive that holds a volume the cursor stands for a device address
  (`Drive.Points`).  `next_sector` moves it to the next sector of the cluster, or
  to the cluster that the FAT names, although the FAT lookup evicts the current
  sector from the only buffer.  So `next_dir_entry` goes from slot to slot of a
  chain, and by induction over the slots ahead a scan passes the slots of a
  directory in order up to its zero slot.
-/
import Fat32s.Chain

namespace Fat32s

open Fat32s.Lib Fat32s.Lib.Prog

/-- The type `parse_dir` gives to a slot. -/
def Slot.dirType (u : Slot) : DirType :=
  if u 0 = 0 then .undefined else if u 11 = 0x0F ∧ u 12 = 0 then .long else .short

/-- The entry `parse_dir` makes of a slot that is not empty. -/
def Slot.entry (u : Slot) : DirEntry := ⟨u.dirType, u⟩

theorem Slot.dirType_ne_undefined {u : Slot} (h : u 0 ≠ 0) : u.dirType ≠ .undefined := by
  unfold Slot.dirType
  rw [if_neg h]
  split <;> decide

/-- The cursor stands at a device address, and its sector is loaded. -/
structure Drive.Points (d : Drive) (v : Volume) (addr : Nat) : Prop where
  sector_lt : d.dirBuff.sector.toNat < v.total
  offset_lt : d.dirBuff.offset < v.bps
  pos : d.dirBuff.sector.toNat * v.bps + d.dirBuff.offset = addr
  loaded : d.fsData.currSector = d.dirBuff.sector

/-- The cursor stands at a slot, and its entry is the slot parsed there. -/
structure Drive.At (d : Drive) (v : Volume) (addr : Nat) : Prop extends d.Points v addr where
  aligned : 32 ∣ d.dirBuff.offset
  type : d.dirBuff.de.type = (v.slot addr).dirType
  de : v.slot addr 0 ≠ 0 → d.dirBuff.de = (v.slot addr).entry

variable {v : Volume} {d d' : Drive} {c : UInt32} {a b o : Nat}

/-- Sector and offset of an address inside a run of sectors that starts at `f`. -/
theorem pos_split {n f o sector offset : Nat} (hoff : offset < n)
    (h : sector * n + offset = f * n + o) : sector = f + o / n ∧ offset = o % n := by
  have hn : 0 < n := by omega
  have hdiv := congrArg (· / n) h
  have hmod := congrArg (· % n) h
  simp only [Nat.add_comm (_ * n), Nat.add_mul_div_right _ _ hn, Nat.add_mul_mod_self_right,
    Nat.div_eq_of_lt hoff, Nat.mod_eq_of_lt hoff] at hdiv hmod
  exact ⟨by omega, hmod⟩

theorem Drive.Points.split (h : d.Points v (v.base c + o)) :
    d.dirBuff.sector.toNat = v.firstSector c + o / v.bps ∧ d.dirBuff.offset = o % v.bps :=
  pos_split h.offset_lt h.pos

/-- The byte under the cursor. -/
theorem Drive.Points.buff (h : d.Points v a) (hon : d.On v) :
    d.fsData.buff d.dirBuff.offset = v.dev.bytes a := by
  have := hon.coherent (by rw [h.loaded]; exact h.sector_lt) _ h.offset_lt
  rw [this, h.loaded, h.pos]

/-! ### Parsing -/

/-- The cursor's slot is inside the sector. -/
theorem Drive.Points.slot_le (h : d.Points v a) (h32 : 32 ∣ d.dirBuff.offset) :
    d.dirBuff.offset + 32 ≤ v.bps := by
  obtain ⟨q, hq⟩ := h32
  have := h.offset_lt
  have := v.bps_eq
  omega

theorem Drive.Points.slotAt (h : d.Points v a) (hon : d.On v) (h32 : 32 ∣ d.dirBuff.offset) :
    d.slotAt d.dirBuff.offset = v.slot a := by
  have hle := h.slot_le h32
  funext i
  have := hon.coherent (by rw [h.loaded]; exact h.sector_lt) (d.dirBuff.offset + i)
    (by have := i.isLt; omega)
  simp only [Drive.slotAt, Volume.slot, this, h.loaded, ← h.pos, Nat.add_assoc]

/-- Parsing at the cursor's offset of a loaded sector. -/
theorem Drive.Points.parse (h : d.Points v a) (hon : d.On v) (h32 : 32 ∣ d.dirBuff.offset) :
    (d.parse d.dirBuff.offset).At v a := by
  have hslot := h.slotAt hon h32
  have h0 : d.fsData.buff d.dirBuff.offset = v.slot a 0 := h.buff hon
  have h11 : d.fsData.buff (d.dirBuff.offset + 11) = v.slot a 11 := congrFun hslot 11
  have h12 : d.fsData.buff (d.dirBuff.offset + 12) = v.slot a 12 := congrFun hslot 12
  have hentry : v.slot a 0 ≠ 0 → d.entryAt d.dirBuff.offset = (v.slot a).entry := by
    intro hne
    simp only [Drive.entryAt, h0, hne, if_false, Slot.entry, Slot.dirType, Drive.getDirType, h11,
      h12, hslot]
  refine { sector_lt := h.sector_lt, offset_lt := h.offset_lt, pos := h.pos, loaded := h.loaded,
           aligned := h32, type := ?_, de := hentry }
  change (d.entryAt d.dirBuff.offset).type = _
  by_cases hzero : v.slot a 0 = 0
  · simp only [Drive.entryAt, h0, hzero, if_true, Slot.dirType]
  · rw [hentry hzero]
    rfl

theorem Drive.Points.returns_parseDir (h : d.Points v a) (hon : d.On v)
    (h32 : 32 ∣ d.dirBuff.offset) :
    ∃ t d', Returns (parseDir d.dirBuff.offset) d t d' ∧ d'.On v ∧ d'.At v a := by
  have hle := h.slot_le h32
  have hbps := v.bps_cases
  have hreturn : Returns (parseDir d.dirBuff.offset) d (d.entryAt d.dirBuff.offset).type
      (d.parse d.dirBuff.offset) :=
    Fat32s.returns_parseDir.mpr
      ⟨Nat.mod_eq_zero_of_dvd h32, by simp only [DIRENTRY_SIZE, MAX_BYTES_PER_SECTOR]; omega,
        rfl, rfl⟩
  exact ⟨_, _, hreturn, hon.parse _, h.parse hon h32⟩

/-- A load makes the sector of the cursor the loaded one. -/
theorem Drive.points_load (d : Drive) (hs : d.dirBuff.sector.toNat < v.total)
    (ho : d.dirBuff.offset < v.bps) : (d.load d.dirBuff.sector).Points v
      (d.dirBuff.sector.toNat * v.bps + d.dirBuff.offset) where
  sector_lt := by simpa using hs
  offset_lt := by simpa using ho
  pos := by simp
  loaded := by simp

/-- A jump parses the first slot of the sector it loads. -/
theorem Drive.at_jump {sector : UInt32} (hs : sector.toNat < v.total)
    (hload : ((d.seek sector 0).load sector).On v) :
    (d.jump sector).At v (sector.toNat * v.bps) := by
  have hbps := v.bps_cases
  have hpoints : ((d.seek sector 0).load sector).Points v (sector.toNat * v.bps + 0) :=
    Drive.points_load _ hs (show 0 < v.bps by omega)
  have hoffset : ((d.seek sector 0).load sector).dirBuff.offset = 0 := by simp [Drive.seek]
  have hat := hpoints.parse hload (by rw [hoffset]; exact Nat.dvd_zero 32)
  rwa [hoffset, Nat.add_zero] at hat

theorem Drive.On.at_jump (hon : d.On v) {sector : UInt32} (hs : sector.toNat < v.total) :
    (d.jump sector).At v (sector.toNat * v.bps) :=
  Drive.at_jump hs ((hon.seek sector 0).load sector)

theorem Drive.On.at_jump_cluster (hon : d.On v) {c : UInt32} (hc : v.IsData c) :
    (d.jump (d.firstSectorOfCluster c)).At v (v.base c) := by
  have hsector := hon.firstSectorOfCluster_toNat hc
  have hlt := v.firstSector_add_lt hc v.spc_pos
  have hat : (d.jump (d.firstSectorOfCluster c)).At v _ := hon.at_jump (by omega)
  rwa [hsector] at hat

/-! ### One step of the cursor -/

/-- `next_sector` returns wherever the cursor stands. -/
theorem Drive.On.returns_nextSector (hon : d.On v) :
    ∃ d', Returns nextSector d () d' ∧ d'.On v := by
  by_cases hend : d.AtClusterEnd
  · have hfollowed : d.followed.On v :=
      ⟨(hon.fatRead _).bpb, (hon.fatRead _).dev, (hon.fatRead _).fds, (hon.fatRead _).coherent⟩
    exact ⟨_, (returns_nextSector_of_atClusterEnd hend).mpr
      ⟨hon.spc_ne_zero, hon.fatOk _, hfollowed.fits _, rfl⟩, (hfollowed.seek _ 0).load _⟩
  · exact ⟨_, (returns_nextSector_of_not_atClusterEnd hend).mpr
      ⟨hon.spc_ne_zero, hon.fits _, rfl⟩, (hon.seek _ 0).load _⟩

/-- `b` is where sector `j` of cluster `c` is continued. -/
inductive Volume.Continued (v : Volume) (c : UInt32) (j : Nat) : Nat → Prop
  | inside (hj : j + 1 < v.spc) : Continued v c j (v.base c + (j + 1) * v.bps)
  | link (hj : j + 1 = v.spc) (hnext : v.IsData (v.fat c)) : Continued v c j (v.base (v.fat c))

theorem Drive.On.nextSector_continued (hon : d.On v) {j : Nat} (hc : v.IsData c) (hj : j < v.spc)
    (hs : d.dirBuff.sector.toNat = v.firstSector c + j) (h : v.Continued c j b) :
    ∃ d', Returns nextSector d () d' ∧ d'.On v ∧ d'.Points v b ∧ d'.dirBuff.offset = 0 := by
  have hend : d.AtClusterEnd ↔ j + 1 = v.spc := hon.atClusterEnd_iff hc hj hs
  have hbps := v.bps_cases
  obtain ⟨d', hreturns, hon'⟩ := hon.returns_nextSector
  refine ⟨d', hreturns, hon', ?_⟩
  cases h with
  | inside hj' =>
    have hlt := v.firstSector_add_lt hc hj'
    obtain ⟨_, _, rfl⟩ := (returns_nextSector_of_not_atClusterEnd
      (fun h => by have := hend.mp h; omega)).mp hreturns
    have hsector : (d.dirBuff.sector + 1).toNat = v.firstSector c + (j + 1) := by
      have := v.total_le
      rw [UInt32.toNat_add, hs]
      simp only [UInt32.reduceToNat]
      omega
    have hpoints := (d.seek (d.dirBuff.sector + 1) 0).points_load
      (show (d.dirBuff.sector + 1).toNat < v.total by omega) (show 0 < v.bps by omega)
    refine ⟨?_, by simp [Drive.seek]⟩
    change ((d.seek (d.dirBuff.sector + 1) 0).load (d.dirBuff.sector + 1)).Points v
      ((d.dirBuff.sector + 1).toNat * v.bps + 0) at hpoints
    rwa [hsector, Nat.add_zero, Nat.add_mul] at hpoints
  | link hj' hnext =>
    obtain ⟨_, _, _, rfl⟩ := (returns_nextSector_of_atClusterEnd (hend.mpr hj')).mp hreturns
    have hvalue : d.nextInChain = d.firstSectorOfCluster (v.fat c) := by
      rw [Drive.nextInChain, hon.clusterOf_eq hc hj hs, hon.fatValue_eq hc.hasEntry]
    have hsector := hon.firstSectorOfCluster_toNat hnext
    have hlt := v.firstSector_add_lt hnext v.spc_pos
    have hpoints := (d.followed.seek d.nextInChain 0).points_load
      (show d.nextInChain.toNat < v.total by rw [hvalue]; omega) (show 0 < v.bps by omega)
    refine ⟨?_, by simp [Drive.seek]⟩
    change ((d.followed.seek d.nextInChain 0).load d.nextInChain).Points v
      (d.nextInChain.toNat * v.bps + 0) at hpoints
    rwa [hvalue, hsector, Nat.add_zero, ← hvalue] at hpoints

/-- To the next item of `k` bytes: within the sector, or past its end. -/
theorem Drive.Points.succ {k : Nat} (h : d.Points v a) (hk : k ∣ v.bps) (hnext : v.Succ k a b) :
    (d.dirBuff.offset + k < v.bps ∧ b = a + k) ∨
      (d.dirBuff.offset + k = v.bps ∧ ∃ c j, v.IsData c ∧ j < v.spc ∧
        d.dirBuff.sector.toNat = v.firstSector c + j ∧ v.Continued c j b) := by
  have hbps := v.bps_cases
  have hrow : ∀ {o : Nat}, k ∣ o → o + k ≤ v.clusterSize →
      o % v.bps + k ≤ v.bps ∧ o / v.bps < v.spc := by
    intro o ho hle
    have hpos : 0 < k := Nat.pos_of_dvd_of_pos hk (by omega)
    have hlt : o % v.bps < v.bps := Nat.mod_lt _ (by omega)
    have hmod : k ∣ o % v.bps := (Nat.dvd_mod_iff hk).mpr ho
    unfold Volume.clusterSize at hle
    refine ⟨?_, Nat.div_lt_of_lt_mul (by rw [Nat.mul_comm]; omega)⟩
    obtain ⟨q, hq⟩ := hmod
    obtain ⟨n, hn⟩ := hk
    rw [hq, hn] at hlt ⊢
    have := Nat.mul_le_mul_left k (Nat.lt_of_mul_lt_mul_left hlt)
    rwa [Nat.mul_succ] at this
  cases hnext with
  | @inside c o hc ho hlt =>
    obtain ⟨hsector, hoffset⟩ := h.split
    obtain ⟨hle, hj⟩ := hrow ho (by omega)
    rcases Nat.lt_or_ge (o % v.bps + k) v.bps with hin | hout
    · exact .inl ⟨by omega, rfl⟩
    · have hfull : o % v.bps + k = v.bps := by omega
      have hdm := Nat.div_add_mod o v.bps
      have heq : (o / v.bps + 1) * v.bps = o + k := by
        rw [Nat.add_mul, Nat.mul_comm (o / v.bps)]
        omega
      have hj' : o / v.bps + 1 < v.spc := by
        refine Nat.lt_of_mul_lt_mul_right (a := v.bps) ?_
        rw [heq]
        exact hlt
      refine .inr ⟨by omega, c, o / v.bps, hc, hj, hsector, ?_⟩
      have := Volume.Continued.inside (c := c) hj'
      rwa [heq, ← Nat.add_assoc] at this
  | @link c o hc ho heq hnext =>
    obtain ⟨hsector, hoffset⟩ := h.split
    obtain ⟨hle, hj⟩ := hrow ho (by omega)
    have hdm := Nat.div_add_mod o v.bps
    unfold Volume.clusterSize at heq
    have hge : v.spc * v.bps ≤ (o / v.bps + 1) * v.bps := by
      rw [Nat.add_mul, Nat.mul_comm (o / v.bps)]
      omega
    have hj' : o / v.bps + 1 = v.spc := by
      have := Nat.le_of_mul_le_mul_right hge (by omega)
      omega
    have hmul : (o / v.bps + 1) * v.bps = v.spc * v.bps := by rw [hj']
    rw [Nat.add_mul, Nat.mul_comm (o / v.bps)] at hmul
    exact .inr ⟨by omega, c, o / v.bps, hc, hj, hsector, .link hj' hnext⟩

/-- **`next_dir_entry` goes from a slot to the next one of the chain.** -/
theorem Drive.At.next (hat : d.At v a) (hon : d.On v) (hnext : v.Succ 32 a b) :
    ∃ t d', Returns nextDirEntry d t d' ∧ d'.On v ∧ d'.At v b := by
  have hbpb : d.bpb.bytesPerSector.toNat = v.bps := by rw [hon.bpb]; rfl
  rcases hat.toPoints.succ Volume.dvd_bps hnext with ⟨hlt, rfl⟩ | ⟨heq, c, j, hc, hj, hs, hcont⟩
  · have hpoints : (d.seek d.dirBuff.sector (d.dirBuff.offset + 32)).Points v (a + 32) :=
      ⟨hat.sector_lt, hlt, by rw [← hat.pos]; rfl, hat.loaded⟩
    obtain ⟨t, d', hparse, hon', hat'⟩ := hpoints.returns_parseDir (hon.seek _ _)
      (Nat.dvd_add hat.aligned (Nat.dvd_refl 32))
    exact ⟨t, d', (returns_nextDirEntry_of_ne (by rw [hbpb]; exact Nat.ne_of_lt hlt)).mpr hparse,
      hon', hat'⟩
  · obtain ⟨d₁, hsector, hon₁, hpoints, hzero⟩ := hon.nextSector_continued hc hj hs hcont
    obtain ⟨t, d', hparse, hon', hat'⟩ := hpoints.returns_parseDir hon₁
      (by rw [hzero]; exact Nat.dvd_zero 32)
    exact ⟨t, d', (returns_nextDirEntry_of_eq (heq.trans hbpb.symm)).mpr ⟨d₁, hsector, hparse⟩,
      hon', hat'⟩

/-! ### Whole directories -/

/-- The cursor passes the slots of a run of addresses. -/
theorem Drive.At.steps {as : List Nat} {z : Nat} (hrun : (as ++ [z]).IsChain (v.Succ 32))
    (hlive : ∀ a ∈ as, v.slot a 0 ≠ 0) (hat : d.At v a) (hhead : (as ++ [z]).head? = some a)
    (hon : d.On v) :
    ∃ d', Steps d (as.map fun a => (v.slot a).entry) d' ∧ d'.On v ∧ d'.At v z := by
  -- induction on the slots ahead: each step leaves the cursor at the head of the rest
  induction as generalizing d a with
  | nil =>
    have : z = a := by simpa using hhead
    subst this
    exact ⟨d, .refl d, hon, hat⟩
  | cons a₀ as ih =>
    have : a₀ = a := by simpa using hhead
    subst this
    have hne := hlive a₀ (List.mem_cons_self ..)
    obtain ⟨hstep, hrest⟩ := List.isChain_cons.mp hrun
    obtain ⟨b, hb⟩ : ∃ b, (as ++ [z]).head? = some b := by cases as <;> simp
    obtain ⟨t, d₁, hnext, hon₁, hat₁⟩ := hat.next hon (hstep b hb)
    obtain ⟨d', hsteps, hon', hat'⟩ :=
      ih hrest (fun a ha => hlive a (List.mem_cons_of_mem _ ha)) hat₁ hb hon₁
    have hde := hat.de hne
    refine ⟨d', ?_, hon', hat'⟩
    rw [List.map_cons, ← hde]
    exact .step (by rw [hat.type]; exact Slot.dirType_ne_undefined hne) hnext hsteps

/-- From the first slot of a directory the cursor gets to any of its slots. -/
theorem Volume.Lists.steps_to {pre post : List Nat} (h : v.Lists c (pre ++ a :: post))
    (hat : d.At v (v.base c)) (hon : d.On v) :
    ∃ d', Steps d (pre.map fun a => (v.slot a).entry) d' ∧ d'.On v ∧ d'.At v a := by
  obtain ⟨z, _, hrun, hhead⟩ := h.run
  have hsplit : (pre ++ a :: post) ++ [z] = (pre ++ [a]) ++ (post ++ [z]) := by simp
  rw [hsplit] at hrun hhead
  refine Drive.At.steps (List.isChain_append.mp hrun).1
    (fun x hx => h.live x (List.mem_append_left _ hx)) hat ?_ hon
  cases pre with
  | nil => simpa using hhead
  | cons p pre => simpa using hhead

/-- And to the zero slot at its end. -/
theorem Volume.Lists.steps_all {as : List Nat} (h : v.Lists c as) (hat : d.At v (v.base c))
    (hon : d.On v) :
    ∃ d', Steps d (as.map fun a => (v.slot a).entry) d' ∧ d'.On v ∧
      d'.dirBuff.de.type = .undefined := by
  obtain ⟨z, hz, hrun, hhead⟩ := h.run
  obtain ⟨d', hsteps, hon', hat'⟩ := Drive.At.steps hrun h.live hat hhead hon
  refine ⟨d', hsteps, hon', ?_⟩
  rw [hat'.type, Slot.dirType, if_pos hz]

end Fat32s
