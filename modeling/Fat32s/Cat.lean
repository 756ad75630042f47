/-
  Fat32s/Cat.lean
  ===============
  **`cat` prints the file, without its zero bytes.**

  The printing loop moves byte by byte through the clusters of the file, with
  the same `next_sector` that directory scans use.  After the last byte it may
  step past the end of the chain; that step returns too, wherever it leads, and
  the rollback makes up for it.
-/
import Fat32s.Image

namespace Fat32s

open Fat32s.Lib Fat32s.Lib.Prog

variable {v : Volume} {s s' : Server} {c : UInt32} {a b : Nat}

/-! ### One byte -/

theorem Drive.On.passed {d : Drive} (h : d.On v) : d.passed.On v :=
  ⟨h.bpb, h.dev, h.fds, h.coherent⟩

/-- A byte is printed wherever the cursor stands. -/
theorem Drive.On.returns_catByte (hon : s.On v) (hlt : s.dirBuff.offset < v.bps) :
    ∃ d, d.On v ∧ Returns catByte s ()
      { s with toDrive := d, out := s.out ++ shown [s.fsData.buff s.dirBuff.offset] } := by
  have hbps := v.bps_cases
  have hmax : s.dirBuff.offset < MAX_BYTES_PER_SECTOR := by
    unfold MAX_BYTES_PER_SECTOR
    omega
  by_cases h : s.dirBuff.offset + 1 = s.bpb.bytesPerSector.toNat
  · obtain ⟨d, hnext, hon'⟩ := hon.passed.returns_nextSector
    exact ⟨d, hon', (returns_catByte_of_eq h).mpr ⟨hmax, d, hnext, rfl⟩⟩
  · exact ⟨_, hon.passed, (returns_catByte_of_ne h).mpr ⟨hmax, rfl⟩⟩

/-- In a chain the cursor moves on to the next byte. -/
theorem Drive.Points.returns_catByte (hp : s.Points v a) (hon : s.On v) (hnext : v.Succ 1 a b) :
    ∃ d, d.On v ∧ d.Points v b ∧ Returns catByte s ()
      { s with toDrive := d, out := s.out ++ shown [v.dev.bytes a] } := by
  have hbps := v.bps_cases
  have hbpb : s.bpb.bytesPerSector.toNat = v.bps := by rw [hon.bpb]; rfl
  have hlt := hp.offset_lt
  have hmax : s.dirBuff.offset < MAX_BYTES_PER_SECTOR := by
    unfold MAX_BYTES_PER_SECTOR
    omega
  rw [← hp.buff hon]
  rcases hp.succ (Nat.one_dvd _) hnext with ⟨hin, rfl⟩ | ⟨hfull, c, j, hc, hj, hs, hcont⟩
  · refine ⟨s.passed, hon.passed, ⟨hp.sector_lt, hin, ?_, hp.loaded⟩,
      (returns_catByte_of_ne (by omega)).mpr ⟨hmax, rfl⟩⟩
    rw [← hp.pos]
    rfl
  · obtain ⟨d, hsector, hon', hp', _⟩ :=
      hon.passed.nextSector_continued hc hj (show s.passed.dirBuff.sector.toNat = _ from hs) hcont
    exact ⟨d, hon', hp', (returns_catByte_of_eq (by omega)).mpr ⟨hmax, d, hsector, rfl⟩⟩

/-! ### The printing loop -/

/-- The loop prints the bytes of a run of addresses. -/
theorem returns_times_catByte {as : List Nat} (hrun : as.IsChain (v.Succ 1)) (hon : s.On v)
    (hp : ∀ a ∈ as.head?, s.Points v a) :
    ∃ d, d.On v ∧ Returns (times as.length catByte) s ()
      { s with toDrive := d, out := s.out ++ shown (as.map v.dev.bytes) } := by
  -- induction on the bytes ahead; after the last one the cursor may be anywhere
  induction as generalizing s with
  | nil => exact ⟨s.toDrive, hon, by simp [shown]⟩
  | cons a as ih =>
    have hpa : s.Points v a := hp a rfl
    obtain ⟨hstep, hrest⟩ := List.isChain_cons.mp hrun
    have hbyte : ∃ d, d.On v ∧ (∀ b ∈ as.head?, d.Points v b) ∧ Returns catByte s ()
        { s with toDrive := d, out := s.out ++ shown [v.dev.bytes a] } := by
      cases hhead : as.head? with
      | none =>
        obtain ⟨d, hon', hret⟩ := hon.returns_catByte hpa.offset_lt
        rw [hpa.buff hon] at hret
        exact ⟨d, hon', by simp, hret⟩
      | some b =>
        obtain ⟨d, hon', hp', hret⟩ := hpa.returns_catByte hon (hstep b (by rw [hhead]; rfl))
        exact ⟨d, hon', by simpa using hp', hret⟩
    obtain ⟨d₁, hon₁, hp₁, hret₁⟩ := hbyte
    obtain ⟨d, hon', hret⟩ :=
      ih (s := { s with toDrive := d₁, out := s.out ++ shown [v.dev.bytes a] }) hrest hon₁ hp₁
    refine ⟨d, hon', ?_⟩
    rw [List.length_cons, returns_times_succ]
    refine ⟨_, hret₁, ?_⟩
    have hshown := shown_append [v.dev.bytes a] (as.map v.dev.bytes)
    rw [List.singleton_append] at hshown
    rw [List.map_cons, hshown, ← List.append_assoc]
    exact hret

theorem length_flatMap_addrs (v : Volume) (cs : List UInt32) :
    (cs.flatMap (v.addrs 1)).length = cs.length * v.clusterSize := by
  induction cs with
  | nil => simp
  | cons c cs ih =>
    rw [List.flatMap_cons, List.length_append, ih, List.length_cons, Nat.add_mul, Nat.one_mul]
    simp [Volume.addrs, Nat.add_comm]

/-- From the first byte of a chain the loop prints its first `sz` bytes. -/
theorem Volume.Linked.returns_catBytes {cs : List UInt32} {sz : Nat} (h : v.Linked c cs)
    (hsz : sz ≤ cs.length * v.clusterSize) (hon : s.On v) (hp : s.Points v (v.base c)) :
    ∃ d, d.On v ∧ Returns (times sz catByte) s ()
      { s with toDrive := d, out := s.out ++ shown ((cs.flatMap v.clusterBytes).take sz) } := by
  have hrun := (h.isChain (Nat.one_dvd v.bps)).take sz
  have hlength : ((cs.flatMap (v.addrs 1)).take sz).length = sz := by
    rw [List.length_take, length_flatMap_addrs, Nat.min_eq_left hsz]
  have hhead : ∀ a ∈ ((cs.flatMap (v.addrs 1)).take sz).head?, s.Points v a := by
    intro a ha
    cases sz with
    | zero => simp at ha
    | succ n =>
      rw [List.head?_take, if_neg (Nat.succ_ne_zero n), h.head? (Nat.one_dvd v.bps),
        Option.mem_some_iff] at ha
      rwa [← ha]
  obtain ⟨d, hon', hret⟩ := returns_times_catByte hrun hon hhead
  rw [hlength, List.map_take, List.map_flatMap] at hret
  exact ⟨d, hon', hret⟩

/-! ### The command -/

/-- The entry of the last hop is parsed once more. -/
theorem Drive.On.at_lastHop (hon : s.On v) (hpos : v.SlotPos s.lastHopSector s.lastHopOffset a) :
    s.lastHop.On v ∧ s.lastHop.At v a := by
  have hseek : (s.toDrive.seek s.lastHopSector s.lastHopOffset).On v := hon.seek _ _
  have hpoints : ((s.toDrive.seek s.lastHopSector s.lastHopOffset).load
      s.lastHopSector).Points v a := by
    rw [← hpos.pos]
    exact Drive.points_load _ hpos.sector_lt hpos.offset_lt
  have hoffset : ((s.toDrive.seek s.lastHopSector s.lastHopOffset).load
      s.lastHopSector).dirBuff.offset = s.lastHopOffset := by
    rw [Drive.load_dirBuff]
    rfl
  have hat := hpoints.parse (hseek.load _) (by rw [hoffset]; exact hpos.aligned)
  rw [hoffset] at hat
  exact ⟨(hseek.load _).parse _, hat⟩

/-- The size is read from the slot that the last hop started from, and the
    cursor is put back where it was. -/
theorem Server.Hopped.returns_lastHopSize {s₀ : Server} {u : Slot} (h : s₀.Hopped s v u) :
    ∃ d, d.On v ∧ Returns lastHopSize s u.fileSize { s with toDrive := d } ∧
      (v.IsData (v.target u) → d.At v (v.base (v.target u))) := by
  obtain ⟨a, hslot, hshort, hpos⟩ := h.last
  have hbps := v.bps_cases
  obtain ⟨hon, hat⟩ := h.on.at_lastHop hpos
  have hlive : v.slot a 0 ≠ 0 := by
    intro hzero
    rw [← hslot, Slot.dirType, if_pos hzero] at hshort
    cases hshort
  have hsize : u.fileSize = s.lastHop.dirBuff.de.u.fileSize := by
    rw [hat.de hlive, ← hslot]
    rfl
  have hle := hpos.offset_lt
  obtain ⟨q, hq⟩ := hpos.aligned
  have hend := v.bps_eq
  refine ⟨s.lastHop.jump s.dirBuff.sector, hon.jump _, Fat32s.returns_lastHopSize.mpr
    ⟨h.on.fits _, by omega, ?_, hon.fits _, hsize, rfl⟩, ?_⟩
  · simp only [DIRENTRY_SIZE, MAX_BYTES_PER_SECTOR]
    omega
  · intro hdata
    have hsector := (h.cwd hdata).sector
    have := hon.at_jump (h.cwd hdata).sector_lt
    rwa [hsector] at this

/-- A walk has come to the slot `u`, and the chain of that slot is long enough for its
    size, or the size is 0. -/
theorem Server.Hopped.returns_cat {path : Name} {u : Slot} {cs : List UInt32} {s₁ : Server}
    (hwalk : Returns (walk path WALK_BAN_DIRS) { s with stack := s.dirBuff.sector :: s.stack } 0 s₁)
    (hhopped : Server.Hopped { s with stack := s.dirBuff.sector :: s.stack } s₁ v u)
    (hchain : u.fileSize = 0 ∨ v.Linked u.firstCluster cs)
    (hsize : u.fileSize.toNat ≤ cs.length * v.clusterSize) :
    ∃ d : Drive, d.On v ∧ Returns (cat path) s OK { s₁ with
      toDrive := d.jump s.dirBuff.sector
      stack := s.stack
      out := s.out ++ shown ((cs.flatMap v.clusterBytes).take u.fileSize.toNat) ++
        ascii "^EOF\n" } := by
  obtain ⟨d₂, hon₂, hsz, hat₂⟩ := hhopped.returns_lastHopSize
  have hout : s₁.out = s.out := hhopped.out
  have hloop : ∃ d, d.On v ∧ Returns (times u.fileSize.toNat catByte) { s₁ with toDrive := d₂ } ()
      { s₁ with
        toDrive := d
        out := s.out ++ shown ((cs.flatMap v.clusterBytes).take u.fileSize.toNat) } := by
    rw [← hout]
    rcases hchain with hzero | hlinked
    · exact ⟨d₂, hon₂, by simp [hzero, shown]⟩
    · have htarget : v.target u = u.firstCluster := by
        have hpos := hlinked.isData.1
        refine if_neg ?_
        intro hzero
        rw [hzero] at hpos
        exact absurd hpos (by decide)
      have hat : d₂.At v (v.base u.firstCluster) := by
        rw [htarget] at hat₂
        exact hat₂ hlinked.isData
      exact hlinked.returns_catBytes hsize hon₂ hat.toPoints
  obtain ⟨d₃, hon₃, hbytes⟩ := hloop
  refine ⟨d₃, hon₃, ?_⟩
  unfold cat
  simp only [returns_globals_bind, returns_push_bind]
  refine returns_bind.mpr ⟨0, s₁, hwalk, ?_⟩
  simp only [ne_eq, not_true_eq_false, if_false]
  refine returns_bind.mpr ⟨_, _, hsz, returns_bind.mpr ⟨(), _, hbytes, ?_⟩⟩
  rw [returns_printf_bind, Server.say, shown_ascii (by decide)]
  exact returns_bind.mpr ⟨(), _, returns_rollback.mpr
    ⟨s.dirBuff.sector, s.stack, hhopped.stack, hon₃.fits _, rfl⟩, returns_pure.mpr ⟨rfl, rfl⟩⟩

/-- **`cat` prints the file without its zero bytes**, so it prints exactly the file if and
    only if there are none among its first `file_size` bytes.  The path leads from the
    current directory to a slot that is not a directory, and the chain of that slot is long
    enough for its size, or the size is 0. -/
theorem cat_prints_file_iff {path : Name} {u : Slot} {cs : List UInt32} (hcwd : s.Cwd v c)
    (hne : cstr path ≠ []) (hend : (cstr path).getLast? ≠ some 0x2F)
    (hpath : v.Resolves c ((cstr path).splitOn 0x2F) u) (hfile : u.entry.isDirectory = false)
    (hchain : u.fileSize = 0 ∨ v.Linked u.firstCluster cs)
    (hsize : u.fileSize.toNat ≤ cs.length * v.clusterSize) :
    ∃ s', Returns (cat path) s OK s' ∧
      s'.out = s.out ++ ((cs.flatMap v.clusterBytes).take u.fileSize.toNat).filter (· ≠ 0) ++
        ascii "^EOF\n" ∧
      (s'.out = s.out ++ (cs.flatMap v.clusterBytes).take u.fileSize.toNat ++ ascii "^EOF\n" ↔
        0 ∉ (cs.flatMap v.clusterBytes).take u.fileSize.toNat) := by
  have hpass : passes (bansFiles WALK_BAN_DIRS) (bansDirs WALK_BAN_DIRS) false
      u.entry.isDirectory = true := by
    simp [passes, hfile, bansFiles, bansDirs, WALK_BAN_DIRS, WALK_BAN_FILES]
  obtain ⟨s₁, hwalk, hhopped⟩ := hpath.returns_walk
    (s := { s with stack := s.dirBuff.sector :: s.stack }) hne hend hcwd hpass
  obtain ⟨d, _, hcat⟩ := Server.Hopped.returns_cat hwalk hhopped hchain hsize
  refine ⟨_, hcat, rfl, ?_⟩
  rw [← shown_eq_self_iff]
  simp only [List.append_assoc, List.append_cancel_left_eq, List.append_cancel_right_eq]

/-- The file `DIR/B.TXT` of the sample volume, right after the mount. -/
theorem cat_prints_sample_file : ∃ s s',
    Returns (doMount (diskEnv Sample.volume.dev) mountMessage) (Server.initial fun _ => []) OK s ∧
    Returns (cat (ascii "DIR/B.TXT")) s OK s' ∧
    s'.out = s.out ++ ascii "abc" ++ ascii "^EOF\n" := by
  obtain ⟨s, hmount, hcwd, _⟩ := Sample.mounted fun _ => []
  have hplain : Sample.volume.PlainNames [1024, 1056, 1088, 1120] ∧
      Sample.volume.PlainNames [1536, 1568, 1600] := by
    unfold Volume.PlainNames
    decide +kernel
  have hfile : Sample.volume.Resolves 3 [ascii "B.TXT"] (Sample.volume.slot 1600) :=
    .last Sample.lists_dir hplain.2 (by decide +kernel)
  have htarget : Sample.volume.target (Sample.volume.slot 1024) = 3 := by decide +kernel
  rw [← htarget] at hfile
  have hpath : Sample.volume.Resolves 2 ((cstr (ascii "DIR/B.TXT")).splitOn 0x2F)
      (Sample.volume.slot 1600) := by
    have hsplit : (cstr (ascii "DIR/B.TXT")).splitOn 0x2F = [ascii "DIR", ascii "B.TXT"] := by
      decide +kernel
    rw [hsplit]
    exact .step Sample.lists_root hplain.1 (by decide +kernel) (by decide +kernel) hfile
  have hchain : Sample.volume.Linked (Sample.volume.slot 1600).firstCluster [5] := by
    have hfirst : (Sample.volume.slot 1600).firstCluster = 5 := by decide +kernel
    rw [hfirst]
    exact .last Sample.isData.2.2.2
  obtain ⟨s', hcat, _, hexact⟩ := cat_prints_file_iff hcwd (by decide) (by decide) hpath
    (by decide +kernel) (.inr hchain) (by decide +kernel)
  refine ⟨s, s', hmount, hcat, ?_⟩
  have hbytes : (([5] : List UInt32).flatMap Sample.volume.clusterBytes).take
      (Sample.volume.slot 1600).fileSize.toNat = ascii "abc" := by decide +kernel
  rw [hbytes] at hexact
  exact hexact.mpr (by decide)

namespace Zeros

/-- One file, `A`, of the three bytes `41 00 42`. -/
def image : Image :=
  bootSector 512 1 1 8 1 2 ++
  [(512 + 8, le32Bytes 0x0FFFFFFF), (512 + 12, le32Bytes 0x0FFFFFFF),
   (1024, slotBytes [rawSlot (ascii "A          ") 0x20 3 3]),
   (1536, [0x41, 0x00, 0x42])]

def device : Device := image.device 4096

end Zeros

/-- The zero in the middle of the file is not printed. -/
theorem cat_drops_zero : ∃ s s',
    Returns (doMount (diskEnv Zeros.device) mountMessage) (Server.initial fun _ => []) OK s ∧
    (List.range 3).map (fun i => Zeros.device.bytes (1536 + i)) = [0x41, 0x00, 0x42] ∧
    Returns (cat (ascii "A")) s OK s' ∧ s'.out = s.out ++ ascii "AB^EOF\n" := by
  obtain ⟨r, s, hmount, hr⟩ := exists_returns (doMount (diskEnv Zeros.device) mountMessage)
    (Server.initial fun _ => []) 10 (fun r _ => r = OK) (by decide +kernel)
  rw [of_decide_eq_true hr] at hmount
  obtain ⟨r', s', hcat, htest⟩ := returns_after_mount (cat (ascii "A")) 10
    (fun s r s' => r = OK && s'.out = s.out ++ ascii "AB^EOF\n") (by decide +kernel) hmount
  simp only [Bool.and_eq_true, decide_eq_true_eq] at htest
  rw [htest.1] at hcat
  exact ⟨s, s', hmount, by decide +kernel, hcat, htest.2⟩

end Fat32s
