/-
  Fat32s/EndOfChain.lean
  ======================
  **Staying inside the chains of a volume.**

  No loop of the server looks for the end-of-chain mark.  A directory scan stays
  inside the chain because of the zero slot, and `cat` because of the size, as
  long as the size is smaller than the chain: after the last byte of a sector the
  next sector is loaded, whether or not there are bytes left to print.  Where this
  holds of all entries of a tree, no command asks for a sector outside the volume
  or takes anything but a data cluster from the FAT.
-/
import Fat32s.WorkingDirectory
import Fat32s.Cat

namespace Fat32s

open Fat32s.Lib Fat32s.Lib.Prog

variable {v : Volume} {d d' : Drive} {s s' : Server} {c : UInt32} {old : List Event} {a b : Nat}
  {r : Int}

/-- Only sectors of the volume are asked for, and only data clusters followed. -/
def Volume.Allows (v : Volume) : Event → Prop
  | .load sector _ => sector.toNat < v.total
  | .follow cluster => v.IsData cluster
  | _ => True

/-- The drive works on the volume, and what has happened since the trace was `old`
    is allowed. -/
structure Drive.Tidy (d : Drive) (v : Volume) (old : List Event) : Prop where
  on : d.On v
  allowed : d.Adds v.Allows old

namespace Drive.Tidy

/-! ### Single steps -/

/-- One more event. -/
theorem event {e : Event} (h : d.Tidy v old) (hon : d'.On v) (htrace : d'.trace = e :: d.trace)
    (he : v.Allows e) : d'.Tidy v old :=
  ⟨hon, h.allowed.event htrace he⟩

theorem seek (h : d.Tidy v old) (sector : UInt32) (offset : Nat) :
    (d.seek sector offset).Tidy v old :=
  ⟨h.on.seek sector offset, h.allowed⟩

protected theorem load (h : d.Tidy v old) {sector : UInt32} (hs : sector.toNat < v.total) :
    (d.load sector).Tidy v old :=
  h.event (h.on.load sector) (d.load_trace sector) hs

theorem parse (h : d.Tidy v old) (off : Nat) : (d.parse off).Tidy v old :=
  h.event (e := .parse off) (h.on.parse off) rfl trivial

theorem jump (h : d.Tidy v old) {sector : UInt32} (hs : sector.toNat < v.total) :
    (d.jump sector).Tidy v old :=
  ((h.seek sector 0).load hs).parse 0

theorem fatRead (h : d.Tidy v old) (hc : v.IsData c) : (d.fatRead c).Tidy v old := by
  have hsector := h.on.fatSector_toNat hc.hasEntry
  have hlt := hc.hasEntry.sector_lt
  have hload : (d.load (d.fatSector c)).Tidy v old := h.load (by omega)
  exact hload.event (e := .fat (d.fatOffset c)) (h.on.fatRead c) rfl trivial

/-- Through the FAT to a data cluster, or to the next sector of the cluster. -/
theorem nextSector (h : d.Tidy v old) {j : Nat} (hc : v.IsData c) (hj : j < v.spc)
    (hs : d.dirBuff.sector.toNat = v.firstSector c + j) (hcont : v.Continued c j b)
    (hret : Returns nextSector d () d') : d'.Tidy v old := by
  have hend := h.on.atClusterEnd_iff hc hj hs
  obtain ⟨d₁, hret', _, hpoints, _⟩ := h.on.nextSector_continued hc hj hs hcont
  obtain ⟨_, rfl⟩ := hret'.unique hret
  have hlt := hpoints.sector_lt
  by_cases hcluster : d.AtClusterEnd
  · obtain ⟨_, _, _, rfl⟩ := (returns_nextSector_of_atClusterEnd hcluster).mp hret
    have hcluster' := h.on.clusterOf_eq hc hj hs
    have hvalue : d.fatValue (d.clusterOf d.dirBuff.sector) = v.fat c := by
      rw [hcluster', h.on.fatValue_eq hc.hasEntry]
    have hnext : v.IsData (v.fat c) := by
      cases hcont with
      | inside hj' => exact (Nat.ne_of_lt hj' (hend.mp hcluster)).elim
      | link _ hnext => exact hnext
    have hread : (d.fatRead (d.clusterOf d.dirBuff.sector)).Tidy v old :=
      h.fatRead (by rw [hcluster']; exact hc)
    have hfollowed : d.followed.Tidy v old := by
      refine hread.event (e := .follow (d.fatValue (d.clusterOf d.dirBuff.sector))) ?_ rfl ?_
      · exact ⟨hread.on.bpb, hread.on.dev, hread.on.fds, hread.on.coherent⟩
      · rw [hvalue]
        exact hnext
    rw [Drive.load_dirBuff] at hlt
    exact (hfollowed.seek _ 0).load hlt
  · obtain ⟨_, _, rfl⟩ := (returns_nextSector_of_not_atClusterEnd hcluster).mp hret
    rw [Drive.load_dirBuff] at hlt
    exact (h.seek _ 0).load hlt

/-- From a slot to the next one of the chain. -/
theorem nextDirEntry {t : DirType} (h : d.Tidy v old) (hat : d.At v a) (hnext : v.Succ 32 a b)
    (hret : Returns nextDirEntry d t d') : d'.Tidy v old ∧ d'.At v b := by
  obtain ⟨t', d₁, hret', _, hat'⟩ := hat.next h.on hnext
  obtain ⟨_, rfl⟩ := hret'.unique hret
  refine ⟨?_, hat'⟩
  have hbpb : d.bpb.bytesPerSector.toNat = v.bps := by rw [h.on.bpb]; rfl
  rcases hat.toPoints.succ Volume.dvd_bps hnext with ⟨hlt, _⟩ | ⟨heq, c, j, hc, hj, hs, hcont⟩
  · have hparse := (returns_nextDirEntry_of_ne (by rw [hbpb]; exact Nat.ne_of_lt hlt)).mp hret
    obtain ⟨_, _, _, rfl⟩ := returns_parseDir.mp hparse
    exact (h.seek _ _).parse _
  · obtain ⟨d₂, hsector, hparse⟩ := (returns_nextDirEntry_of_eq (heq.trans hbpb.symm)).mp hret
    obtain ⟨_, _, _, rfl⟩ := returns_parseDir.mp hparse
    exact (h.nextSector hc hj hs hcont hsector).parse _

end Drive.Tidy

/-! ### Directory scans -/

/-- The cursor does not get past the zero slot. -/
theorem Steps.tidy {es : List DirEntry} {as : List Nat} {z : Nat} (h : Steps d es d')
    (hrun : (as ++ [z]).IsChain (v.Succ 32)) (hz : v.slot z 0 = 0) (hat : d.At v a)
    (hhead : (as ++ [z]).head? = some a) (hd : d.Tidy v old) : d'.Tidy v old := by
  induction h generalizing as a with
  | refl d => exact hd
  | step htype hnext _ ih =>
    cases as with
    | nil =>
      obtain rfl : z = a := by simpa using hhead
      rw [hat.type, Slot.dirType, if_pos hz] at htype
      exact (htype rfl).elim
    | cons a₀ as =>
      obtain rfl : a₀ = a := by simpa using hhead
      obtain ⟨hsucc, hrest⟩ := List.isChain_cons.mp hrun
      obtain ⟨b, hb⟩ : ∃ b, (as ++ [z]).head? = some b := by cases as <;> simp
      obtain ⟨hd', hat'⟩ := hd.nextDirEntry hat (hsucc b hb) hnext
      exact ih hrest hat' hb hd'

theorem Volume.Lists.tidy_steps {as : List Nat} {es : List DirEntry} (h : v.Lists c as)
    (hcwd : d.Cwd v c) (hd : d.Tidy v old) (hsteps : Steps d es d') : d'.Tidy v old := by
  obtain ⟨z, hz, hrun, hhead⟩ := h.run
  exact hsteps.tidy hrun hz hcwd.cursor hhead hd

theorem Volume.Lists.tidy_finds {as : List Nat} {junk : Name} {p : DirEntry → Name → Prop}
    (h : v.Lists c as) (hcwd : d.Cwd v c) (hd : d.Tidy v old) (hfind : d.Finds junk p d') :
    d'.Tidy v old := by
  obtain ⟨_, es, hsteps, _⟩ := hfind
  exact h.tidy_steps hcwd hd hsteps

theorem Volume.Lists.tidy_misses {as : List Nat} {junk : Name} {p : DirEntry → Name → Prop}
    (h : v.Lists c as) (hcwd : d.Cwd v c) (hd : d.Tidy v old) (hmiss : d.Misses junk p d') :
    d'.Tidy v old := by
  obtain ⟨es, hsteps, _⟩ := hmiss
  exact h.tidy_steps hcwd hd hsteps

/-! ### Printing bytes -/

/-- From a byte to the next one of the chain. -/
protected theorem Drive.Tidy.catByte {u : Unit} (h : s.Tidy v old) (hp : s.Points v a)
    (hnext : v.Succ 1 a b) (hret : Returns catByte s u s') :
    s'.Tidy v old ∧ s'.Points v b ∧ s.SameHop s' := by
  obtain ⟨d₁, _, hp', hret'⟩ := hp.returns_catByte h.on hnext
  obtain ⟨_, rfl⟩ := hret'.unique hret
  refine ⟨?_, hp', rfl, rfl⟩
  have hpassed : s.passed.Tidy v old :=
    h.event (e := .byte s.dirBuff.offset) h.on.passed rfl trivial
  have hbpb : s.bpb.bytesPerSector.toNat = v.bps := by rw [h.on.bpb]; rfl
  rcases hp.succ (Nat.one_dvd _) hnext with ⟨hin, _⟩ | ⟨hfull, c, j, hc, hj, hs, hcont⟩
  · obtain ⟨_, hs'⟩ := (returns_catByte_of_ne (by omega)).mp hret
    have hdrive : d₁ = s.passed := congrArg Server.toDrive hs'
    rw [hdrive]
    exact hpassed
  · obtain ⟨_, d₂, hsector, hs'⟩ := (returns_catByte_of_eq (by omega)).mp hret
    have hdrive : d₁ = d₂ := congrArg Server.toDrive hs'
    rw [hdrive]
    exact hpassed.nextSector hc hj hs hcont hsector

theorem Drive.Tidy.catBytes {u : Unit} {as : List Nat} {z : Nat}
    (hrun : (as ++ [z]).IsChain (v.Succ 1)) (h : s.Tidy v old)
    (hp : ∀ a, (as ++ [z]).head? = some a → s.Points v a)
    (hret : Returns (times as.length catByte) s u s') : s'.Tidy v old ∧ s.SameHop s' := by
  induction as generalizing s with
  | nil =>
    obtain rfl := returns_times_zero.mp hret
    exact ⟨h, rfl, rfl⟩
  | cons a as ih =>
    obtain ⟨hsucc, hrest⟩ := List.isChain_cons.mp hrun
    obtain ⟨b, hb⟩ : ∃ b, (as ++ [z]).head? = some b := by cases as <;> simp
    obtain ⟨s₁, hbyte, hloop⟩ := returns_times_succ.mp hret
    obtain ⟨h₁, hp₁, hlast₁⟩ := h.catByte (hp a rfl) (hsucc b hb) hbyte
    obtain ⟨h', hlast'⟩ := ih hrest h₁ (fun a ha => by rw [hb] at ha; cases ha; exact hp₁) hloop
    exact ⟨h', hlast'.sector.trans hlast₁.sector, hlast'.offset.trans hlast₁.offset⟩

/-! ### Sizes -/

/-- The chain that starts at `c` has more than `size` bytes, or nothing is to be read. -/
def Volume.HasRoom (v : Volume) (c size : UInt32) : Prop :=
  size = 0 ∨ ∃ cs, v.Linked c cs ∧ size.toNat < cs.length * v.clusterSize

theorem Volume.HasRoom.kept_catBytes {size : UInt32} {u : Unit} (h : v.HasRoom c size)
    (hcwd : s.Cwd v c) (hs : s.Tidy v old) (hret : Returns (times size.toNat catByte) s u s') :
    s'.Tidy v old ∧ s.SameHop s' := by
  rcases h with rfl | ⟨cs, hlinked, hlt⟩
  · obtain rfl := returns_times_zero.mp hret
    exact ⟨hs, rfl, rfl⟩
  · -- the bytes to print, and the one that the cursor stands at in the end
    have hrun := (hlinked.isChain (Nat.one_dvd v.bps)).take (size.toNat + 1)
    have hhead := hlinked.head? (Nat.one_dvd v.bps)
    rw [← length_flatMap_addrs] at hlt
    rw [List.take_succ_eq_append_getElem hlt] at hrun
    have hlength : ((cs.flatMap (v.addrs 1)).take size.toNat).length = size.toNat := by
      rw [List.length_take, Nat.min_eq_left (Nat.le_of_lt hlt)]
    rw [← hlength] at hret
    refine hs.catBytes hrun ?_ hret
    intro a ha
    rw [← List.take_succ_eq_append_getElem hlt, List.head?_take, if_neg (Nat.succ_ne_zero _), hhead]
      at ha
    cases ha
    exact hcwd.cursor.toPoints

/-- A tree in which every entry leads to a data cluster, and every size is smaller
    than the chain it is for. -/
structure Volume.Sized (v : Volume) extends v.DirTree where
  data : ∀ {c : UInt32} {a : Nat}, isDir c → a ∈ slots c → (v.slot a).dirType = .short →
    v.IsData (v.target (v.slot a))
  room : ∀ {c : UInt32} {a : Nat}, isDir c → a ∈ slots c → (v.slot a).dirType = .short →
    v.HasRoom (v.target (v.slot a)) (v.slot a).fileSize

/-! ### The last hop -/

/-- Nothing forbidden has happened, and the position of the last hop is that of a slot. -/
structure Server.Kept (s : Server) (v : Volume) (old : List Event) : Prop where
  tidy : s.Tidy v old
  last : ∃ a, v.SlotPos s.lastHopSector s.lastHopOffset a

theorem Server.Kept.of_drive (h : s.Kept v old) (hd : s'.Tidy v old) (hlast : s.SameHop s') :
    s'.Kept v old :=
  ⟨hd, by rw [hlast.sector, hlast.offset]; exact h.last⟩

/-- The size that `cat` takes from the position of the last hop; an empty slot there
    is not parsed. -/
def Server.hopSize (s : Server) (v : Volume) : UInt32 :=
  if v.slot (s.lastHopSector.toNat * v.bps + s.lastHopOffset) 0 = 0 then s.dirBuff.de.u.fileSize
  else (v.slot (s.lastHopSector.toNat * v.bps + s.lastHopOffset)).fileSize

theorem Server.hopSize_of_slotPos (hpos : v.SlotPos s.lastHopSector s.lastHopOffset a)
    (hlive : v.slot a 0 ≠ 0) : s.hopSize v = (v.slot a).fileSize := by
  rw [Server.hopSize, hpos.pos, if_neg hlive]

/-- Parsing an empty slot leaves the old entry in place. -/
theorem Drive.parse_u_of_undefined {off : Nat} (h : (d.parse off).dirBuff.de.type = .undefined) :
    (d.parse off).dirBuff.de.u = d.dirBuff.de.u := by
  change (d.entryAt off).type = .undefined at h
  change (d.entryAt off).u = _
  unfold Drive.entryAt at h ⊢
  split at h
  · rename_i hzero
    rw [if_pos hzero]
  · simp only [Drive.getDirType] at h
    split at h
    · cases h
    · cases h

theorem Server.Kept.lastHop_fileSize (h : s.Kept v old) :
    s.lastHop.dirBuff.de.u.fileSize = s.hopSize v := by
  obtain ⟨a, hpos⟩ := h.last
  obtain ⟨hon, hat⟩ := h.tidy.on.at_lastHop hpos
  by_cases hzero : v.slot a 0 = 0
  · have htype : s.lastHop.dirBuff.de.type = .undefined := by
      rw [hat.type, Slot.dirType, if_pos hzero]
    have hu : s.lastHop.dirBuff.de.u = s.dirBuff.de.u := by
      rw [Server.lastHop, Drive.parse_u_of_undefined htype, Drive.load_dirBuff]
      rfl
    rw [hu, Server.hopSize, hpos.pos, if_pos hzero]
  · rw [hat.de hzero, Server.hopSize_of_slotPos hpos hzero]
    rfl

/-! ### Walks -/

theorem kept_of_rollback {α : Type} {x y : α} {sector : UInt32} {rest : List UInt32}
    (hret : Returns (do rollback; return x) s y s') (h : s.Kept v old)
    (hstack : s.stack = sector :: rest) (hlt : sector.toNat < v.total) : s'.Kept v old := by
  obtain ⟨_, s₁, hroll, hret⟩ := returns_bind.mp hret
  obtain ⟨_, _, hstack', _, rfl⟩ := returns_rollback.mp hroll
  obtain ⟨rfl, rfl⟩ := List.cons.inj (hstack.symm.trans hstack')
  obtain ⟨rfl, rfl⟩ := returns_pure.mp hret
  exact ⟨h.tidy.jump hlt, h.last⟩

namespace Volume.Sized

variable (t : v.Sized)

/-- The last hop went from a short slot of a directory to where the cursor is now. -/
def Landed (s : Server) : Prop :=
  ∃ c a, t.isDir c ∧ a ∈ t.slots c ∧ (v.slot a).dirType = .short ∧
    v.SlotPos s.lastHopSector s.lastHopOffset a ∧ s.Cwd v (v.target (v.slot a))

theorem kept_entered {junk : Name} {p : DirEntry → Name → Prop} (hc : t.isDir c)
    (hcwd : s.Cwd v c) (hs : s.Kept v old) (hfind : s.Finds junk p d) (henter : s.Entered d s') :
    s'.Kept v old ∧ t.Landed s' := by
  obtain ⟨a, ha, hshort, hon, hat, hde⟩ := (t.lists hc).lands hcwd hfind
  have hdata := t.data hc ha hshort
  have hhop := hon.cwd_hop hde hdata
  have hlt : d.hopSector.toNat < v.total := by
    have := hhop.sector_lt
    rwa [Drive.jump_sector] at this
  have hpos : v.SlotPos s'.lastHopSector s'.lastHopOffset a := by
    rw [henter.lastSector, henter.lastOffset]
    exact hat.slotPos
  rw [← henter.drive] at hhop
  refine ⟨⟨?_, a, hpos⟩, c, a, hc, ha, hshort, hpos, hhop⟩
  rw [henter.drive]
  exact ((t.lists hc).tidy_finds hcwd hs.tidy hfind).jump hlt

theorem kept_visits {banFiles banDirs : Bool} {segs : List (Name × Bool)} {sector : UInt32}
    {rest : List UInt32} (hsegs : EndsFlagged segs) (hc : t.isDir c) (hcwd : s.Cwd v c)
    (hs : s.Kept v old) (hstack : s.stack = sector :: rest) (hlt : sector.toNat < v.total)
    (h : Returns (visits banFiles banDirs segs) s r s') :
    s'.Kept v old ∧ (r = 0 → t.Landed s ∨ segs ≠ [] → t.Landed s') := by
  induction segs generalizing s c with
  | nil =>
    obtain ⟨_, _, hpop, hret⟩ := returns_bind.mp h
    obtain ⟨_, _, rfl⟩ := returns_stackPop.mp hpop
    obtain ⟨rfl, rfl⟩ := returns_pure.mp hret
    refine ⟨⟨hs.tidy, hs.last⟩, ?_⟩
    intro _ hstart
    rcases hstart with hland | hne
    · exact hland
    · exact (hne rfl).elim
  | cons seg segs ih =>
    obtain ⟨segment, more⟩ := seg
    obtain ⟨o, s₁, hvisit, hrest⟩ := returns_bind.mp h
    cases visit_cases hvisit with
    | missing hmiss hstack' hdrive hlast =>
      obtain ⟨rfl, rfl⟩ := returns_pure.mp hrest
      obtain ⟨rfl, rfl⟩ := List.cons.inj (hstack.symm.trans hstack')
      have htidy := ((t.lists hc).tidy_misses hcwd hs.tidy hmiss).jump hlt
      rw [← hdrive] at htidy
      exact ⟨hs.of_drive htidy hlast, fun hr => by cases hr⟩
    | barred hfind _ hstack' hdrive hlast =>
      obtain ⟨rfl, rfl⟩ := returns_pure.mp hrest
      obtain ⟨rfl, rfl⟩ := List.cons.inj (hstack.symm.trans hstack')
      have htidy := ((t.lists hc).tidy_finds hcwd hs.tidy hfind).jump hlt
      rw [← hdrive] at htidy
      exact ⟨hs.of_drive htidy hlast, fun hr => by cases hr⟩
    | @entered d _ hfind hpass henter =>
      obtain ⟨hs₁, hland⟩ := t.kept_entered hc hcwd hs hfind henter
      cases hdir : d.dirBuff.de.isDirectory with
      | true =>
        obtain ⟨c', hc', hcwd'⟩ := t.enter hc hcwd hfind hdir
        rw [← henter.drive] at hcwd'
        obtain ⟨hs', hland'⟩ := ih hsegs.2 hc' hcwd' hs₁ (henter.stack.trans hstack) hrest
        exact ⟨hs', fun hr _ => hland' hr (.inl hland)⟩
      | false =>
        -- only a last segment may be a file
        obtain rfl := hsegs.1 (more_of_passes_file (by rw [← hdir]; exact hpass))
        obtain ⟨_, _, hpop, hret⟩ := returns_bind.mp hrest
        obtain ⟨_, _, rfl⟩ := returns_stackPop.mp hpop
        obtain ⟨rfl, rfl⟩ := returns_pure.mp hret
        exact ⟨⟨hs₁.tidy, hs₁.last⟩, fun _ _ => hland⟩

theorem kept_walk {path : Name} {flags : Nat} (hc : t.isDir c) (hcwd : s.Cwd v c)
    (hs : s.Kept v old) (h : Returns (walk path flags) s r s') :
    s'.Kept v old ∧ (r = 0 → cstr path ≠ [] → t.Landed s') := by
  have hpush : Server.Kept { s with stack := s.dirBuff.sector :: s.stack } v old :=
    ⟨hs.tidy, hs.last⟩
  obtain ⟨hs', hland⟩ := t.kept_visits (endsFlagged_segments _) hc
    (s := { s with stack := s.dirBuff.sector :: s.stack }) hcwd hpush rfl hcwd.sector_lt
    (returns_walk.mp h)
  refine ⟨hs', ?_⟩
  intro hr hne
  exact hland hr (.inr (segments_ne_nil hne))

/-! ### Commands -/

theorem kept_cd {path : Name} (hc : t.isDir c) (hcwd : s.Cwd v c) (hs : s.Kept v old)
    (h : Returns (cd path) s r s') : s'.Kept v old := by
  unfold cd at h
  rw [returns_globals_bind, returns_push_bind] at h
  obtain ⟨status, s₁, hwalk, h⟩ := returns_bind.mp h
  have hpush : Server.Kept { s with stack := s.dirBuff.sector :: s.stack } v old :=
    ⟨hs.tidy, hs.last⟩
  have hs₁ := (t.kept_walk (s := { s with stack := s.dirBuff.sector :: s.stack }) hc hcwd hpush
    hwalk).1
  split at h
  · exact kept_of_rollback h hs₁ (walk_cases hwalk).stack hcwd.sector_lt
  · obtain ⟨_, s₂, hpop, hret⟩ := returns_bind.mp h
    obtain ⟨_, _, rfl⟩ := returns_stackPop.mp hpop
    obtain ⟨rfl, rfl⟩ := returns_pure.mp hret
    exact ⟨hs₁.tidy, hs₁.last⟩

theorem kept_listEntries {u : Unit} (hc : t.isDir c) (hcwd : s.Cwd v c) (hs : s.Kept v old)
    (h : Returns listEntries s u s') : s'.Kept v old := by
  obtain ⟨es, d, hsteps, _, rfl⟩ := returns_listEntries.mp h
  exact ⟨(t.lists hc).tidy_steps hcwd hs.tidy hsteps, hs.last⟩

theorem kept_ls {path : Name} (hc : t.isDir c) (hcwd : s.Cwd v c) (hs : s.Kept v old)
    (h : Returns (ls path) s r s') : s'.Kept v old := by
  have hpush : Server.Kept { s with stack := s.dirBuff.sector :: s.stack } v old :=
    ⟨hs.tidy, hs.last⟩
  have htail : ∀ {status : Int} {c' : UInt32} (s₁ : Server), t.isDir c' → s₁.Cwd v c' →
      s₁.Kept v old → s₁.stack = s.dirBuff.sector :: s.stack →
      Returns (if status ≠ 0 then do rollback; return status
        else do listEntries; rollback; return OK) s₁ r s' → s'.Kept v old := by
    intro status c' s₁ hc' hcwd' hs₁ hstack h
    split at h
    · exact kept_of_rollback h hs₁ hstack hcwd.sector_lt
    · obtain ⟨_, s₂, hlist, h⟩ := returns_bind.mp h
      exact kept_of_rollback h (t.kept_listEntries hc' hcwd' hs₁ hlist)
        ((listEntries_stack hlist).trans hstack) hcwd.sector_lt
  unfold ls at h
  rw [returns_globals_bind, returns_push_bind] at h
  dsimp only at h
  split at h
  · rw [returns_pure_bind] at h
    exact htail { s with stack := s.dirBuff.sector :: s.stack } hc hcwd hpush rfl h
  · obtain ⟨status, s₁, hcd, h⟩ := returns_bind.mp h
    have hs₁ := t.kept_cd (s := { s with stack := s.dirBuff.sector :: s.stack }) hc hcwd hpush hcd
    have hrun : Returns (Command.cd path).run { s with stack := s.dirBuff.sector :: s.stack } status
      s₁ := hcd
    obtain ⟨⟨c', hc', hcwd'⟩, hstack⟩ :=
      t.cwd_of_returns (s := { s with stack := s.dirBuff.sector :: s.stack }) hc hcwd hrun
    exact htail s₁ hc' hcwd' hs₁ hstack h

theorem kept_statEntry {lastName : Name} {sector : UInt32} {rest : List UInt32} (hc : t.isDir c)
    (hcwd : s.Cwd v c) (hs : s.Kept v old) (hstack : s.stack = sector :: rest)
    (hlt : sector.toNat < v.total) (h : Returns (statEntry lastName) s r s') : s'.Kept v old := by
  obtain ⟨status, s₁, hfind, h⟩ := returns_bind.mp h
  obtain ⟨d, hlook, hend⟩ := findChild_cases hfind
  have hs₁ : s₁.Kept v old := by
    refine hs.of_drive ?_ hlook.sameHop
    rw [hlook.drive]
    rcases hend with ⟨_, hfound⟩ | ⟨_, hmiss⟩
    · exact (t.lists hc).tidy_finds hcwd hs.tidy hfound
    · exact (t.lists hc).tidy_misses hcwd hs.tidy hmiss
  split at h
  · exact kept_of_rollback h hs₁ (hlook.stack.trans hstack) hlt
  · rw [returns_globals_bind] at h
    obtain ⟨_, s₂, hprint, h⟩ := returns_bind.mp h
    unfold printLongNameRde at h
    rw [returns_printf_bind] at h
    obtain rfl := returns_printRegularDirEntry.mp hprint
    exact kept_of_rollback h ⟨hs₁.tidy, hs₁.last⟩ (hlook.stack.trans hstack) hlt

theorem kept_stat {path : Name} (hc : t.isDir c) (hcwd : s.Cwd v c) (hs : s.Kept v old)
    (h : Returns (stat path) s r s') : s'.Kept v old := by
  have hpush : Server.Kept { s with stack := s.dirBuff.sector :: s.stack } v old :=
    ⟨hs.tidy, hs.last⟩
  unfold stat at h
  rw [returns_globals_bind, returns_push_bind] at h
  split at h
  · exact t.kept_statEntry (s := { s with stack := s.dirBuff.sector :: s.stack }) hc hcwd hpush rfl
      hcwd.sector_lt h
  · obtain ⟨status, s₁, hwalk, h⟩ := returns_bind.mp h
    have hs₁ := (t.kept_walk (s := { s with stack := s.dirBuff.sector :: s.stack }) hc hcwd hpush
      hwalk).1
    have hstack := (walk_cases hwalk).stack
    split at h
    · exact kept_of_rollback h hs₁ hstack hcwd.sector_lt
    · rename_i hstatus
      have hwalks := walksTo_of_returns hwalk
      rw [not_not.mp hstatus, arrival_of_zero] at hwalks
      obtain ⟨c', hc', hcwd'⟩ := t.walks_arrives hwalks hc hcwd
      exact t.kept_statEntry hc' hcwd' hs₁ hstack hcwd.sector_lt h

/-- The printing loop, for a size that the chain under the cursor has room for. -/
theorem kept_catTail {c' sector : UInt32} {rest : List UInt32} (hcwd : s.Cwd v c')
    (hs : s.Kept v old) (hroom : v.HasRoom c' (s.hopSize v)) (hstack : s.stack = sector :: rest)
    (hlt : sector.toNat < v.total)
    (h : Returns (do
      let sz ← lastHopSize
      times sz.toNat catByte
      print (ascii "^EOF\n")
      rollback
      return OK) s r s') : s'.Kept v old := by
  obtain ⟨sz, s₁, hsize, h⟩ := returns_bind.mp h
  obtain ⟨_, _, _, _, rfl, rfl⟩ := returns_lastHopSize.mp hsize
  obtain ⟨_, s₂, hbytes, h⟩ := returns_bind.mp h
  rw [returns_print_bind] at h
  obtain ⟨a, hpos⟩ := hs.last
  rw [hs.lastHop_fileSize] at hbytes
  have hon := (hs.tidy.on.at_lastHop hpos).1
  have hback : (s.lastHop.jump s.dirBuff.sector).Cwd v c' := hcwd.back ⟨_, rfl⟩ (hon.jump _)
  have htidy : (s.lastHop.jump s.dirBuff.sector).Tidy v old :=
    (((hs.tidy.seek _ _).load hpos.sector_lt).parse _).jump hcwd.sector_lt
  obtain ⟨htidy₂, hlast⟩ := hroom.kept_catBytes
    (s := { s with toDrive := s.lastHop.jump s.dirBuff.sector }) hback htidy hbytes
  refine kept_of_rollback h ⟨htidy₂, a, ?_⟩ ((catBytes_stack hbytes).trans hstack) hlt
  change v.SlotPos s₂.lastHopSector s₂.lastHopOffset a
  rw [hlast.sector, hlast.offset]
  exact hpos

theorem kept_cat {path : Name} (hc : t.isDir c) (hcwd : s.Cwd v c) (hs : s.Kept v old)
    (hstale : cstr path = [] → v.HasRoom c (s.hopSize v)) (h : Returns (cat path) s r s') :
    s'.Kept v old := by
  have hpush : Server.Kept { s with stack := s.dirBuff.sector :: s.stack } v old :=
    ⟨hs.tidy, hs.last⟩
  unfold cat at h
  rw [returns_globals_bind, returns_push_bind] at h
  obtain ⟨status, s₁, hwalk, h⟩ := returns_bind.mp h
  obtain ⟨hs₁, hland⟩ := t.kept_walk (s := { s with stack := s.dirBuff.sector :: s.stack }) hc hcwd
    hpush hwalk
  have hstack := (walk_cases hwalk).stack
  split at h
  · exact kept_of_rollback h hs₁ hstack hcwd.sector_lt
  · rename_i hstatus
    by_cases hempty : cstr path = []
    · -- nothing was resolved: cursor and last hop are those of the command before
      obtain ⟨_, rfl⟩ := (returns_walk_of_nil hempty).mp hwalk
      exact kept_catTail (s := { s with stack := s.dirBuff.sector :: s.stack }) hcwd hpush
        (hstale hempty) rfl hcwd.sector_lt h
    · obtain ⟨c', a, hc', ha, hshort, hpos, hcwd'⟩ := hland (not_not.mp hstatus) hempty
      have hlive : v.slot a 0 ≠ 0 := (t.lists hc').live a ha
      refine kept_catTail hcwd' hs₁ ?_ hstack hcwd.sector_lt h
      rw [Server.hopSize_of_slotPos hpos hlive]
      exact t.room hc' ha hshort

/-- Round by round up to the root, and back. -/
theorem kept_pwdLoop {w : PwdVars} {sector : UInt32} {rest : List UInt32}
    (h : Returns (iter pwdStep w) s r s') (hc : t.isDir c) (hcwd : s.Cwd v c)
    (hid : w.clusterId = c) (hs : s.Kept v old) (hstack : s.stack = sector :: rest)
    (hlt : sector.toNat < v.total) : s'.Kept v old := by
  refine returns_iter_induct (motive := fun w s _ s' => ∀ {c}, t.isDir c → s.Cwd v c →
    w.clusterId = c → s.Kept v old → s.stack = sector :: rest → s'.Kept v old)
    ?_ ?_ h hc hcwd hid hs hstack
  · intro w s r s' hstop c hc hcwd hid hs hstack
    cases pwdStep_cases hstop with
    | top hmiss hstack' hdrive _ hlast =>
      obtain ⟨rfl, rfl⟩ := List.cons.inj (hstack.symm.trans hstack')
      have htidy := ((t.lists hc).tidy_misses hcwd hs.tidy hmiss).jump hlt
      rw [← hdrive] at htidy
      exact hs.of_drive htidy hlast
    | lost hfind hmiss _ _ =>
      obtain ⟨hne, hparent⟩ := t.climb hc hcwd hfind
      obtain ⟨d₂, hlisted⟩ := t.finds_child hc hne hparent (s.scratch.junk 1)
      rw [hid] at hmiss
      exact (hlisted.not_misses hmiss).elim
  · intro w s w' s₁ r s' hround ih c hc hcwd hid hs hstack
    have hclimbed := pwdStep_cases hround
    obtain ⟨hne, hcwd₁, hid₁⟩ := t.climbed hc hcwd hclimbed
    have hup := (t.up hc hne).1
    cases hclimbed with
    | @up d₁ d₂ name _ _ hfind hlisted hdrive hstack' _ _ _ _ hsector hoffset =>
      have hparent := (t.climb hc hcwd hfind).2
      obtain ⟨a, _, _, _, hat, _⟩ := (t.lists hc).lands hcwd hfind
      have hlt₁ : d₁.hopSector.toNat < v.total := by
        have := hparent.sector_lt
        rwa [Drive.jump_sector] at this
      have hjump := ((t.lists hc).tidy_finds hcwd hs.tidy hfind).jump hlt₁
      have hback := ((t.lists hup).tidy_finds hparent hjump hlisted.finds).jump hlt₁
      refine ih hup hcwd₁ hid₁ ⟨?_, a, ?_⟩ (hstack'.trans hstack)
      · rw [hdrive]
        exact hback
      · rw [hsector, hoffset]
        exact hat.slotPos

theorem kept_pwd (hc : t.isDir c) (hcwd : s.Cwd v c) (hs : s.Kept v old)
    (h : Returns pwd s r s') : s'.Kept v old := by
  unfold pwd at h
  rw [returns_globals_bind, returns_push_bind, returns_onDrive_bind] at h
  obtain ⟨_, _, hcluster, hloop⟩ := h
  obtain ⟨_, rfl, rfl⟩ := returns_sectorToCluster.mp hcluster
  have hid := t.clusterOf_cwd hc hcwd
  exact t.kept_pwdLoop (s := { s with stack := s.dirBuff.sector :: s.stack }) hloop hc hcwd hid
    ⟨hs.tidy, hs.last⟩ rfl hcwd.sector_lt

end Volume.Sized

/-! ### Sessions -/

/-- A request that does not run past the end of a chain.  A `cat` of the empty
    path reads the current directory as if it had the size found at the last hop. -/
def Command.Inside (v : Volume) : Command → Server → Prop
  | .cat path, s => cstr path = [] → v.HasRoom (s.clusterOf s.dirBuff.sector) (s.hopSize v)
  | _, _ => True

namespace Volume.Sized

variable (t : v.Sized)

theorem kept_command {cmd : Command} (hc : t.isDir c) (hcwd : s.Cwd v c) (hs : s.Kept v old)
    (hcmd : cmd.Inside v s) (h : Returns cmd.run s r s') : s'.Kept v old := by
  cases cmd with
  | pwd => exact t.kept_pwd hc hcwd hs h
  | cd path => exact t.kept_cd hc hcwd hs h
  | ls path => exact t.kept_ls hc hcwd hs h
  | cat path =>
    refine t.kept_cat hc hcwd hs ?_ h
    rw [Command.Inside, t.clusterOf_cwd hc hcwd] at hcmd
    exact hcmd
  | stat path => exact t.kept_stat hc hcwd hs h

end Volume.Sized

section session

variable {s₀ s'' : Server} {env : Env} {m : Message}

/-- What holds between the requests of a session on the volume. -/
structure Volume.Sized.Settled (t : v.Sized) (s : Server) : Prop where
  cwd : ∃ c, t.isDir c ∧ s.Cwd v c
  last : ∃ a, v.SlotPos s.lastHopSector s.lastHopOffset a
  ready : s.Ready

theorem Volume.Sized.Settled.kept {t : v.Sized} (h : t.Settled s) : s.Kept v s.trace := by
  obtain ⟨c, _, hcwd⟩ := h.cwd
  exact ⟨⟨hcwd.on, s.adds_nothing _⟩, h.last⟩

theorem Volume.Sized.Settled.answered {t : v.Sized} {cmd : Command} (h : t.Settled s)
    (hcmd : cmd.Inside v s) (hanswer : Answered cmd s s') : t.Settled s' := by
  have hready := hanswer.ready h.ready
  cases hanswer with
  | refused text => exact ⟨h.cwd, h.last, hready⟩
  | ran text _ hrun =>
    obtain ⟨c, hc, hcwd⟩ := h.cwd
    exact ⟨(t.cwd_of_returns hc hcwd hrun).1, (t.kept_command hc hcwd h.kept hcmd hrun).last,
      hready⟩

theorem sameHop_of_doMount (h : Returns (doMount env m) s OK s') : s.SameHop s' := by
  cases returns_doMount.mp h with
  | mounted _ _ _ _ _ _ _ _ _ => exact ⟨rfl, rfl⟩

theorem Volume.Sized.settled_of_doMount (t : v.Sized) (hboot : v.Bootable) (hs₀ : Reachable s₀)
    (hopen : env.openDevice m.text = some v.dev) (hmount : Returns (doMount env m) s₀ OK s) :
    t.Settled s := by
  have hidle := hs₀.idle_of_doMount hmount
  have hcwd := (hboot.cwd_root (t.isData t.root) (by rw [hidle.fsData]) hopen hmount).1
  have hlast := sameHop_of_doMount hmount
  -- no hop yet: the position is the first slot of the boot sector
  have hpos : v.SlotPos 0 0 0 := by
    have hfds := v.fds_pos
    have hle := v.fds_le
    have hbps := v.bps_cases
    exact ⟨Nat.lt_of_lt_of_le hfds hle, by omega, Nat.zero_mul _, Nat.dvd_zero 32⟩
  refine ⟨⟨_, t.root, hcwd⟩, ⟨0, ?_⟩, ready_of_doMount hs₀ hmount (usable_of_doMount hmount ?_)⟩
  · rw [hlast.sector, hlast.offset, hidle.lastSector, hidle.lastOffset]
    exact hpos
  · rw [hcwd.on.bpb]
    exact v.bps_mem

/-- **No command follows the end of a chain.**  The directories form a tree, with a
    zero slot in each, and every size is smaller than the chain it is for.  After any
    requests that stay inside, a further one returns, and all it has asked for are
    sectors of the volume and FAT values that are data clusters. -/
theorem chains_not_left (t : v.Sized) (hboot : v.Bootable) (hs₀ : Reachable s₀)
    (hopen : env.openDevice m.text = some v.dev) (hmount : Returns (doMount env m) s₀ OK s)
    (hrun : Requests (Command.Inside v) s s') {cmd : Command} (hcmd : cmd.Inside v s') :
    ∃ r s'', Returns cmd.run s' r s'' ∧
      ∃ evs, s''.trace = evs ++ s'.trace ∧ ∀ e ∈ evs, v.Allows e := by
  have hsettled : t.Settled s' := by
    clear hcmd
    induction hrun with
    | none => exact t.settled_of_doMount hboot hs₀ hopen hmount
    | more _ hreq hinside hserve ih => exact ih.answered hinside (serve_answered hreq hserve)
  obtain ⟨c, hc, hcwd⟩ := hsettled.cwd
  obtain ⟨r, s'', hret⟩ := (hsettled.ready.returns_iff_ends cmd).mpr (t.ends hc hcwd cmd)
  exact ⟨r, s'', hret, (t.kept_command hc hcwd hsettled.kept hcmd hret).tidy.allowed⟩

namespace Sample

theorem mem_slots {c : UInt32} {a : Nat} (hc : c = 2 ∨ c = 3) (ha : a ∈ slotsOf c) :
    a ∈ slotsOf 2 ++ slotsOf 3 := by
  rcases hc with rfl | rfl
  · exact List.mem_append_left _ ha
  · exact List.mem_append_right _ ha

theorem leads_and_fits : ∀ {a : Nat}, a ∈ slotsOf 2 ++ slotsOf 3 →
    (volume.slot a).dirType = .short → volume.IsData (volume.target (volume.slot a)) ∧
      ((volume.slot a).fileSize = 0 ∨ (volume.slot a).fileSize.toNat < volume.clusterSize) := by
  unfold Volume.IsData
  decide +kernel

/-- The sizes 5 and 3 are smaller than the clusters of the two files. -/
def sized : volume.Sized where
  toDirTree := tree
  data := by
    intro c a hc ha hshort
    exact (leads_and_fits (mem_slots hc ha) hshort).1
  room := by
    intro c a hc ha hshort
    obtain ⟨hdata, hzero | hlt⟩ := leads_and_fits (mem_slots hc ha) hshort
    · exact .inl hzero
    · exact .inr ⟨[_], .last hdata, by rw [List.length_singleton, Nat.one_mul]; exact hlt⟩

end Sample

/-- On the sample volume: a `cat` after a `cd`. -/
theorem chains_not_left_on_sample :
    ∃ s s₁ r s₂, Returns (doMount (diskEnv Sample.volume.dev) mountMessage)
        (Server.initial fun _ => []) OK s ∧
      Returns (serve (diskEnv Sample.volume.dev) (textMessage FAT32S_CD (ascii "DIR"))) s OK s₁ ∧
      Returns (cat (ascii "B.TXT")) s₁ r s₂ ∧
      ∃ evs, s₂.trace = evs ++ s₁.trace ∧ ∀ e ∈ evs, Sample.volume.Allows e := by
  obtain ⟨s₁, ⟨s, hmount, _, hcd, rfl⟩, _⟩ := exists_served (diskEnv Sample.volume.dev)
    [mountMessage, textMessage FAT32S_CD (ascii "DIR")] 10 (fun _ => true) (by decide +kernel)
  have hcmd : (Command.cat (ascii "B.TXT")).Inside Sample.volume s₁ := by
    intro hempty
    exact absurd hempty (by decide)
  have htext : (textMessage FAT32S_CD (ascii "DIR")).command = some (.cd (ascii "DIR")) := rfl
  have hreq : Requests (Command.Inside Sample.volume) s s₁ := .more .none htext trivial hcd
  obtain ⟨r, s₂, hcat, hevs⟩ := chains_not_left Sample.sized Sample.bootable (.init _) rfl hmount
    hreq hcmd
  exact ⟨s, s₁, r, s₂, hmount, hcd, hcat, hevs⟩

end session

/-! ### A file that fills its cluster -/

namespace Full

/-- The root directory lists one file, of 512 bytes in one cluster of 512. -/
def image : Image :=
  bootSector 512 1 1 8 1 2 ++
  [(512 + 8, le32Bytes 0x0FFFFFFF ++ le32Bytes 0x0FFFFFFF),
   (1024, slotBytes [rawSlot (ascii "F") 0x20 3 512])]

def volume : Volume := image.volume 4096 (by decide +kernel)

theorem isData : volume.IsData 2 ∧ volume.IsData 3 := by
  unfold Volume.IsData
  decide +kernel

theorem lists_root : volume.Lists 2 [1024] :=
  ⟨by decide +kernel, [2], 1056, (volume.addrs 32 2).drop 2, .last isData.1, by decide +kernel,
    by decide +kernel⟩

end Full

/-- The chain of the file is its one cluster, which is marked as the last one and
    holds all of its bytes.  The `cat` of the file takes the mark for a cluster. -/
theorem cat_follows_end_mark :
    Full.volume.Lists 2 [1024] ∧ Full.volume.Linked (Full.volume.slot 1024).firstCluster [3] ∧
    Full.volume.fat 3 = 0x0FFFFFFF ∧
    (Full.volume.slot 1024).fileSize.toNat = Full.volume.clusterSize ∧
    ∃ s s₁ buff, Returns (doMount (diskEnv Full.volume.dev) mountMessage)
        (Server.initial fun _ => []) OK s ∧
      Returns (serve (diskEnv Full.volume.dev) (textMessage FAT32S_CAT (ascii "F"))) s OK s₁ ∧
      .follow 0x0FFFFFFF ∈ s₁.trace ∧ ¬ Full.volume.Allows (.follow 0x0FFFFFFF) ∧
      .load 0x0FFFFFFF buff ∈ s₁.trace ∧ ¬ Full.volume.Allows (.load 0x0FFFFFFF buff) := by
  have hfirst : (Full.volume.slot 1024).firstCluster = 3 := by decide +kernel
  refine ⟨Full.lists_root, by rw [hfirst]; exact .last Full.isData.2, by decide +kernel,
    by decide +kernel, ?_⟩
  obtain ⟨s₁, ⟨s, hmount, _, hcat, rfl⟩, htest⟩ := exists_served (diskEnv Full.volume.dev)
    [mountMessage, textMessage FAT32S_CAT (ascii "F")] 10
    (fun s => s.trace.any (fun | .follow c => c == 0x0FFFFFFF | _ => false) &&
      s.trace.any (fun | .load sector _ => sector == 0x0FFFFFFF | .follow _ => false | _ => false))
    (by decide +kernel)
  simp only [Bool.and_eq_true, List.any_eq_true] at htest
  obtain ⟨⟨e, hfollow, he⟩, e', hload, he'⟩ := htest
  cases e with
  | follow c =>
    cases e' with
    | load sector buff =>
      obtain rfl := beq_iff_eq.mp he
      obtain rfl := beq_iff_eq.mp he'
      refine ⟨s, s₁, buff, hmount, hcat, hfollow, ?_, hload, ?_⟩
      · unfold Volume.Allows Volume.IsData
        decide +kernel
      · change ¬ (0x0FFFFFFF : UInt32).toNat < Full.volume.total
        decide +kernel
    | _ => cases he'
  | _ => cases he

end Fat32s
