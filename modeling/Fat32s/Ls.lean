/-
  Fat32s/Ls.lean
  ==============
  **`ls` lists the directory.**

  In a directory with a zero slot `ls` prints one line for each slot that is
  typed as a short one, in order.  What a FAT32 writer put there comes out under
  the names it was given; but deleted slots and volume labels are typed as short
  ones too, and come out just the same.
-/
import Fat32s.Image

namespace Fat32s

open Fat32s.Lib Fat32s.Lib.Prog

variable {v : Volume} {s s' : Server} {c : UInt32} {as : List Nat}

/-- The listing loop prints the named entries of the directory, and the rollback leads
    back to the saved sector. -/
theorem Drive.Cwd.returns_listing {sector : UInt32} {rest : List UInt32} (hcwd : s.Cwd v c)
    (hdir : v.Lists c as) (hstack : s.stack = sector :: rest) :
    ∃ (d : Drive) (sc : Scratch), d.On v ∧
      Returns (do listEntries; rollback; return OK) s OK { s with
      toDrive := d.jump sector
      stack := rest
      scratch := sc
      out := s.out ++ (v.decoded (s.scratch.junk 0) as).flatMap fun x => lsLine x.1 x.2 } := by
  obtain ⟨_, d, sc, hon, hret⟩ := hdir.returns_scan_end (fun _ => ()) hcwd.cursor hcwd.on
    behaves_lsLine (fun _ _ => rfl)
  rw [Volume.decoded, flatMap_shown_lsLine rfl] at hret
  refine ⟨d, sc, hon, returns_bind.mpr ⟨(), _, hret, returns_bind.mpr ⟨(), _, ?_,
    returns_pure.mpr ⟨rfl, rfl⟩⟩⟩⟩
  exact returns_rollback.mpr ⟨sector, rest, hstack, hon.fits _, rfl⟩

/-- `ls .` prints the named entries of the directory and comes back to it. -/
theorem Drive.Cwd.returns_ls_dot (hcwd : s.Cwd v c) (hdir : v.Lists c as) :
    ∃ s', Returns (ls (ascii ".")) s OK s' ∧ s'.Cwd v c ∧ s'.stack = s.stack ∧
      s'.out = s.out ++ (v.decoded (s.scratch.junk 0) as).flatMap fun x => lsLine x.1 x.2 := by
  obtain ⟨d, sc, hon, hret⟩ := Drive.Cwd.returns_listing
    (s := { s with stack := s.dirBuff.sector :: s.stack }) hcwd hdir rfl
  have hat : (d.jump s.dirBuff.sector).At v (v.base c) := by
    have := hon.at_jump hcwd.sector_lt
    rwa [hcwd.sector] at this
  have hls : ∀ {s' : Server}, Returns (do listEntries; rollback; return OK)
      { s with stack := s.dirBuff.sector :: s.stack } OK s' → Returns (ls (ascii ".")) s OK s' := by
    intro s' h
    unfold ls
    simp only [returns_globals_bind, returns_push_bind, if_true, returns_pure_bind, ne_eq,
      not_true_eq_false, if_false]
    exact h
  exact ⟨_, hls hret, ⟨hon.jump _, hat⟩, rfl, rfl⟩

/-! ### What a writer wrote -/

/-- The line for an entry: a mark for directories, then its name. -/
def FileEntry.line (e : FileEntry) : List UInt8 :=
  (if e.attributes &&& 0x10 ≠ 0 then ascii "[*]" else []) ++ e.shownName ++ ascii "\n"

theorem lsLine_shortSlot (e : FileEntry) : lsLine e.shortSlot.entry e.shownName = e.line := by
  have hdir : e.shortSlot.entry.isDirectory = (e.attributes &&& 0x10 != 0) := rfl
  unfold lsLine FileEntry.line
  rw [hdir]
  by_cases h : e.attributes &&& 0x10 = 0
  · simp [h]
  · simp [h]

/-- **`ls` decodes what a FAT32 writer encodes.**  The entries are laid out, with
    a zero slot after them, in the clusters of a chain. -/
theorem ls_prints_entries {es : List FileEntry} {cs : List UInt32} {z : Slot} {rest : List Slot}
    (hcwd : s.Cwd v c) (hchain : v.Linked c cs)
    (hlayout : cs.flatMap v.clusterSlots = es.flatMap FileEntry.encode ++ z :: rest)
    (hz : z 0 = 0) :
    ∃ s', Returns (ls (ascii ".")) s OK s' ∧ s'.out = s.out ++ es.flatMap FileEntry.line := by
  have hlive : ∀ u ∈ es.flatMap FileEntry.encode, u 0 ≠ 0 := by
    intro u hu
    obtain ⟨e, _, he⟩ := List.mem_flatMap.mp hu
    exact encode_live he
  obtain ⟨as, hdir, has⟩ := hchain.lists hlayout hlive hz
  have hdecoded : v.decoded (s.scratch.junk 0) as =
      es.map fun e => (e.shortSlot.entry, e.shownName) := by
    rw [← named_flatMap_encode es (s.scratch.junk 0), ← has, List.map_map]
    rfl
  obtain ⟨s', hret, _, _, hout⟩ := hcwd.returns_ls_dot hdir
  refine ⟨s', hret, ?_⟩
  rw [hout, hdecoded, List.flatMap_map]
  simp only [lsLine_shortSlot]

/-- The root directory of the sample volume. -/
theorem ls_prints_sample_entries : ∃ s s',
    Returns (doMount (diskEnv Sample.volume.dev) mountMessage) (Server.initial fun _ => []) OK s ∧
    Returns (ls (ascii ".")) s OK s' ∧
    s'.out = s.out ++ ascii "[*]DIR\nhello world.txt\n" := by
  obtain ⟨s, hmount, hcwd, _⟩ := Sample.mounted fun _ => []
  have hlayout : ([2] : List UInt32).flatMap Sample.volume.clusterSlots =
      Sample.rootEntries.flatMap FileEntry.encode ++
        Sample.volume.slot 1152 :: (Sample.volume.clusterSlots 2).drop 5 := by
    decide +kernel
  obtain ⟨s', hls, hout⟩ :=
    ls_prints_entries hcwd (.last Sample.isData.1) hlayout (by decide +kernel)
  have hlines : Sample.rootEntries.flatMap FileEntry.line =
      ascii "[*]DIR\nhello world.txt\n" := by
    decide +kernel
  exact ⟨s, s', hmount, hls, by rw [hout, hlines]⟩

/-! ### What should not be seen -/

/-- Neither deleted nor a volume label. -/
def Slot.isLive (u : Slot) : Bool := u 0 != 0xE5 && u 11 &&& 0x08 == 0

/-- In a directory that lists the slots at `as`, only live entries are visible:
    `ls` prints the lines of the live ones and nothing else, and the two lookups
    stop at live ones only. -/
structure ShowsOnlyLive (v : Volume) (as : List Nat) (s : Server) : Prop where
  listed : ∀ s', Returns (ls (ascii ".")) s OK s' → s'.out = s.out ++
    ((v.decoded (s.scratch.junk 0) as).filter (·.1.u.isLive)).flatMap fun x => lsLine x.1 x.2
  byName : ∀ query s', Returns (findChild query) s 0 s' →
    s'.dirBuff.de.type = .short ∧ s'.dirBuff.de.u.isLive = true
  byCluster : ∀ id name s', Returns (findChildByClusterId id) s (name, 0) s' →
    s'.dirBuff.de.type = .short ∧ s'.dirBuff.de.u.isLive = true

/-- Lines that are left out are missing from the text. -/
theorem forall_of_flatMap_filter {xs : List (DirEntry × Name)} {p : DirEntry × Name → Bool}
    (h : xs.flatMap (fun x => lsLine x.1 x.2) =
      (xs.filter p).flatMap fun x => lsLine x.1 x.2) : ∀ x ∈ xs, p x = true := by
  have hle : ∀ ys : List (DirEntry × Name), ((ys.filter p).flatMap fun x => lsLine x.1 x.2).length ≤
      (ys.flatMap fun x => lsLine x.1 x.2).length := by
    intro ys
    induction ys with
    | nil => exact Nat.le_refl _
    | cons y ys ih =>
      by_cases hy : p y = true
      · rw [List.filter_cons_of_pos hy]
        simp only [List.flatMap_cons, List.length_append]
        omega
      · rw [List.filter_cons_of_neg hy]
        simp only [List.flatMap_cons, List.length_append]
        omega
  induction xs with
  | nil => intro x hx; cases hx
  | cons y ys ih =>
    by_cases hy : p y = true
    · rw [List.filter_cons_of_pos hy, List.flatMap_cons, List.flatMap_cons] at h
      intro x hx
      rcases List.mem_cons.mp hx with rfl | hx
      · exact hy
      · exact ih (List.append_cancel_left h) x hx
    · rw [List.filter_cons_of_neg hy, List.flatMap_cons] at h
      have hlen := congrArg List.length h
      have hline : 0 < (lsLine y.1 y.2).length := by
        have hnl : (ascii "\n").length = 1 := by decide
        simp only [lsLine, List.length_append, hnl]
        omega
      have := hle ys
      rw [List.length_append] at hlen
      omega

/-- **When only live entries are visible.**  The slots typed as short ones have to
    be live to begin with: nothing is filtered out. -/
theorem shows_only_live_iff (hcwd : s.Cwd v c) (hdir : v.Lists c as) :
    ShowsOnlyLive v as s ↔
      ∀ a ∈ as, (v.slot a).dirType = .short → (v.slot a).isLive = true := by
  constructor
  · intro h a ha hshort
    obtain ⟨s', hret, _, _, hout⟩ := hcwd.returns_ls_dot hdir
    have hall := forall_of_flatMap_filter
      (List.append_cancel_left (hout.symm.trans (h.listed s' hret)))
    have hmem : (v.slot a).entry ∈ (v.entries as).filter (·.type = .short) :=
      List.mem_filter.mpr ⟨List.mem_map_of_mem ha,
        decide_eq_true (show (v.slot a).entry.type = .short from hshort)⟩
    rw [← map_fst_named ⟨s.scratch.junk 0, []⟩] at hmem
    obtain ⟨x, hx, hentry⟩ := List.mem_map.mp hmem
    have hlive := hall x hx
    rw [hentry] at hlive
    exact hlive
  · intro h
    have hlive : ∀ x ∈ v.decoded (s.scratch.junk 0) as, x.1.u.isLive = true := by
      intro x hx
      obtain ⟨a, ha, hentry, htype⟩ := mem_decoded hx
      rw [hentry] at htype ⊢
      exact h a ha htype
    refine ⟨?_, ?_, ?_⟩
    · intro s' hret
      obtain ⟨s₁, hret₁, _, _, hout⟩ := hcwd.returns_ls_dot hdir
      obtain ⟨_, rfl⟩ := hret.unique hret₁
      rw [hout, List.filter_eq_self.mpr hlive]
    · intro query s' hret
      rcases hdir.returns_findChild hcwd.cursor hcwd.on query with ⟨_, d, sc, _, hnone⟩ |
        ⟨a, ha, _, d, sc, _, _, hde, hshort, hsome⟩
      · cases (hret.unique hnone).1
      · obtain ⟨_, rfl⟩ := hret.unique hsome
        change d.dirBuff.de.type = .short ∧ d.dirBuff.de.u.isLive = true
        rw [hde]
        exact ⟨hshort, h a ha hshort⟩
    · intro id name s' hret
      rcases hdir.returns_findChildByClusterId hcwd.cursor hcwd.on id with
        ⟨_, name', d, sc, _, hnone⟩ |
        ⟨xs, x, ys, hsplit, _, _, a, ha, _, htype, d, sc, _, hde, hsome⟩
      · cases (Prod.mk.inj (hret.unique hnone).1).2
      · obtain ⟨_, rfl⟩ := hret.unique hsome
        change d.dirBuff.de.type = .short ∧ d.dirBuff.de.u.isLive = true
        rw [hde]
        exact ⟨htype, hlive x (by rw [hsplit]; simp)⟩

theorem shows_only_live_sample : ∃ s, s.Cwd Sample.volume 2 ∧
    ShowsOnlyLive Sample.volume [1024, 1056, 1088, 1120] s := by
  obtain ⟨s, _, hcwd, _⟩ := Sample.mounted fun _ => []
  exact ⟨s, hcwd, (shows_only_live_iff hcwd Sample.lists_root).mpr (by decide +kernel)⟩

namespace Deleted

/-- A root directory with a volume label and a deleted file. -/
def image : Image :=
  bootSector 512 1 1 8 1 2 ++
  [(512 + 8, le32Bytes 0x0FFFFFFF),
   (1024, slotBytes [rawSlot (ascii "MYDISK") 0x08 0 0,
    rawSlot (0xE5 :: ascii "LD     TXT") 0x20 3 5])]

def volume : Volume := image.volume 4096 (by decide +kernel)

theorem isData : volume.IsData 2 := by
  unfold Volume.IsData
  decide +kernel

theorem lists_root : volume.Lists 2 [1024, 1056] :=
  ⟨by decide +kernel, [2], 1088, (volume.addrs 32 2).drop 3, .last isData, by decide +kernel,
    by decide +kernel⟩

end Deleted

/-- The label and the deleted file are listed, and the deleted file is found. -/
theorem deleted_entry_visible : ∃ s s₁ s₂,
    Returns (doMount (diskEnv Deleted.volume.dev) mountMessage) (Server.initial fun _ => []) OK s ∧
    Returns (ls (ascii ".")) s OK s₁ ∧
    s₁.out = s.out ++ (ascii "MYDISK\n" ++ 0xE5 :: ascii "LD.TXT\n") ∧
    Returns (findChild (0xE5 :: ascii "LD.TXT")) s 0 s₂ ∧ s₂.dirBuff.de.u.isLive = false := by
  have hboot : Deleted.volume.Bootable := Image.bootable _ (by decide) (by decide +kernel)
  obtain ⟨s, hmount, hcwd, _⟩ := hboot.mounted Deleted.isData fun _ => []
  have hdecoded : Deleted.volume.decoded (s.scratch.junk 0) [1024, 1056] =
      Deleted.volume.decoded [] [1024, 1056] :=
    named_junk _ _ _ (by decide +kernel)
  obtain ⟨s₁, hls, _, _, hout⟩ := hcwd.returns_ls_dot Deleted.lists_root
  have hlines : (Deleted.volume.decoded [] [1024, 1056]).flatMap (fun x => lsLine x.1 x.2) =
      ascii "MYDISK\n" ++ 0xE5 :: ascii "LD.TXT\n" := by decide +kernel
  rw [hdecoded, hlines] at hout
  have hlookup : Deleted.volume.lookup (s.scratch.junk 0) [1024, 1056] (0xE5 :: ascii "LD.TXT") =
      some (Deleted.volume.slot 1056) := by
    rw [Volume.lookup, hdecoded]
    decide +kernel
  rcases Deleted.lists_root.returns_findChild hcwd.cursor hcwd.on (0xE5 :: ascii "LD.TXT") with
    ⟨hnone, _⟩ | ⟨a, _, hsome, d, sc, _, _, hde, _, hfind⟩
  · rw [hlookup] at hnone
    cases hnone
  · refine ⟨s, s₁, _, hmount, hls, hout, hfind, ?_⟩
    have hslot : Deleted.volume.slot 1056 = Deleted.volume.slot a :=
      Option.some.inj (hlookup.symm.trans hsome)
    change d.dirBuff.de.u.isLive = false
    rw [hde, ← hslot]
    decide +kernel

end Fat32s
