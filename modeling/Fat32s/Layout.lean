/-
  Fat32s/Layout.lean
  ==================
  **What the replies do not depend on.**

  Two volumes may hold the same tree in different places: in other clusters, with chains
  in another order, with other 8.3 names beside the long ones, and with other bytes
  behind the ends of the files and in the free clusters.  They show the same if
  directories with the same path list the same names, in the same order, for
  directories and for files with the same bytes.

  Requests that are alike but for such volumes are answered alike, over whole runs that
  mount and unmount any number of them, and whatever the memory of the two servers
  holds: with the same codes, and with the same texts, but for stat, which prints
  cluster numbers, and for a mount, which prints the geometry.
-/
import Fat32s.Navigation

namespace Fat32s

open Fat32s.Lib Fat32s.Lib.Prog

/-! ### File systems that show the same -/

/-- What ls and cat show of an entry. -/
def Node.face {D : Type} (e : Node D) : Name × Bool × List UInt8 := (e.name, e.isDir, e.content)

namespace FileSystem

variable {D E : Type} {fs : FileSystem D} {gs : FileSystem E}

/-- Directories with the same way from the root list the same entries. -/
structure ShowsSame (fs : FileSystem D) (gs : FileSystem E) : Prop where
  faces : ∀ {d : D} {e : E}, fs.isDir d → gs.isDir e → fs.way d = gs.way e →
    (fs.entries d).map Node.face = (gs.entries e).map Node.face

/-- Two directories with the same way. -/
structure Meets (fs : FileSystem D) (gs : FileSystem E) (d : D) (e : E) : Prop where
  left : fs.isDir d
  right : gs.isDir e
  way : fs.way d = gs.way e

/-- Two ends of a command: the same status, directories that meet, and the same text
    unless the command is stat. -/
structure Matches (fs : FileSystem D) (gs : FileSystem E) (cmd : Command) (r : Report D)
    (r' : Report E) : Prop where
  status : r.status = r'.status
  dir : fs.Meets gs r.dir r'.dir
  text : (∀ path, cmd ≠ .stat path) → r.text = r'.text

variable {d : D} {e : E}

theorem meets_root : fs.Meets gs fs.root gs.root :=
  ⟨fs.isDir_root, gs.isDir_root, fs.way_root.trans gs.way_root.symm⟩

theorem find_face (fs : FileSystem D) (d : D) (q : Name) :
    (fs.find d q).map Node.face = ((fs.entries d).map Node.face).find? (·.1 = q) := by
  rw [find, List.find?_map]
  rfl

theorem listing_face (fs : FileSystem D) (d : D) :
    fs.listing d = ((fs.entries d).map Node.face).flatMap fun x =>
      (if x.2.1 then ascii "[*]" else []) ++ x.1 ++ ascii "\n" := by
  rw [listing, List.flatMap_map]
  rfl

namespace ShowsSame

variable (h : fs.ShowsSame gs) (hm : fs.Meets gs d e)

include h hm

theorem find (q : Name) : (fs.find d q).map Node.face = (gs.find e q).map Node.face := by
  rw [find_face, find_face, h.faces hm.left hm.right hm.way]

theorem listing : fs.listing d = gs.listing e := by
  rw [listing_face, listing_face, h.faces hm.left hm.right hm.way]

/-- The entries of a name, if it has one, lead to directories that meet. -/
theorem find_cases (q : Name) :
    (fs.find d q = none ∧ gs.find e q = none) ∨
    ∃ a b, fs.find d q = some a ∧ gs.find e q = some b ∧ a.isDir = b.isDir ∧
      a.content = b.content ∧ (a.isDir = true → fs.Meets gs a.dir b.dir) := by
  have hfaces := h.find hm q
  cases ha : fs.find d q with
  | none =>
    rw [ha] at hfaces
    exact .inl ⟨rfl, Option.map_eq_none_iff.mp hfaces.symm⟩
  | some a =>
    rw [ha] at hfaces
    obtain ⟨b, hb, hface⟩ := Option.map_eq_some_iff.mp hfaces.symm
    obtain ⟨hname, hdir, hcontent⟩ : b.name = a.name ∧ b.isDir = a.isDir ∧
        b.content = a.content := by
      simpa [Node.face] using hface
    refine .inr ⟨a, b, rfl, hb, hdir.symm, hcontent.symm, ?_⟩
    intro hisDir
    obtain ⟨hleft, hway⟩ := fs.leads hm.left (List.mem_of_find?_eq_some ha) hisDir
    obtain ⟨hright, hway'⟩ := gs.leads hm.right (List.mem_of_find?_eq_some hb) (hdir.trans hisDir)
    exact ⟨hleft, hright, by rw [hway, hway', hname, hm.way]⟩

/-- Names lead to directories that meet, or fail with the same status. -/
theorem goTo_cases (qs : List Name) :
    (∃ status, fs.goTo d qs = .error status ∧ gs.goTo e qs = .error status) ∨
    ∃ d' e', fs.goTo d qs = .ok d' ∧ gs.goTo e qs = .ok e' ∧ fs.Meets gs d' e' := by
  induction qs generalizing d e with
  | nil => exact .inr ⟨d, e, rfl, rfl, hm⟩
  | cons q qs ih =>
    rw [goTo, goTo]
    rcases h.find_cases hm q with ⟨ha, hb⟩ | ⟨a, b, ha, hb, hdir, _, hmeets⟩
    · rw [ha, hb]
      exact .inl ⟨1, rfl, rfl⟩
    · rw [ha, hb]
      simp only [← hdir]
      cases hisDir : a.isDir with
      | false => exact .inl ⟨2, rfl, rfl⟩
      | true => exact ih (hmeets hisDir)

/-- The entries that cat prints have the same bytes. -/
theorem nodeAt_cases (qs : List Name) (isDir : Bool) :
    (∃ status, fs.nodeAt d qs isDir = .error status ∧ gs.nodeAt e qs isDir = .error status) ∨
    ∃ a b, fs.nodeAt d qs isDir = .ok a ∧ gs.nodeAt e qs isDir = .ok b ∧
      a.content = b.content := by
  unfold nodeAt
  cases qs.getLast? with
  | none => exact .inl ⟨1, rfl, rfl⟩
  | some q =>
    simp only
    rcases h.goTo_cases hm qs.dropLast with ⟨status, hd, he⟩ | ⟨d', e', hd, he, hm'⟩
    · rw [hd, he]
      exact .inl ⟨status, rfl, rfl⟩
    rw [hd, he]
    simp only [Except.bind]
    rcases h.find_cases hm' q with ⟨ha, hb⟩ | ⟨a, b, ha, hb, hdir, hcontent, _⟩
    · rw [ha, hb]
      exact .inl ⟨1, rfl, rfl⟩
    rw [ha, hb]
    simp only [← hdir]
    split
    · exact .inr ⟨a, b, rfl, rfl, hcontent⟩
    · exact .inl ⟨2, rfl, rfl⟩

/-- stat finds an entry in both, or in none; what it prints of it may differ. -/
theorem describe {d₀ : D} {e₀ : E} (hm₀ : fs.Meets gs d₀ e₀) (path q : Name) :
    fs.Matches gs (.stat path) (fs.describe d₀ d q) (gs.describe e₀ e q) := by
  unfold FileSystem.describe
  rcases h.find_cases hm q with ⟨ha, hb⟩ | ⟨a, b, ha, hb, _⟩
  · rw [ha, hb]
    exact ⟨rfl, hm₀, fun _ => rfl⟩
  · rw [ha, hb]
    exact ⟨rfl, hm₀, fun hstat => absurd rfl (hstat path)⟩

/-- **One command.** -/
theorem run (cmd : Command) : fs.Matches gs cmd (fs.run d cmd) (gs.run e cmd) := by
  cases cmd with
  | pwd =>
    refine ⟨rfl, hm, fun _ => ?_⟩
    simp only [FileSystem.run, hm.way]
  | cd path =>
    simp only [FileSystem.run]
    rcases h.goTo_cases hm (components (cstr path)) with ⟨_, hd, he⟩ | ⟨_, _, hd, he, hm'⟩
    · rw [hd, he]
      exact ⟨rfl, hm, fun _ => rfl⟩
    · rw [hd, he]
      exact ⟨rfl, hm', fun _ => rfl⟩
  | ls path =>
    simp only [FileSystem.run]
    split
    · exact ⟨rfl, hm, fun _ => h.listing hm⟩
    rcases h.goTo_cases hm (components (cstr path)) with ⟨_, hd, he⟩ | ⟨_, _, hd, he, hm'⟩
    · rw [hd, he]
      exact ⟨rfl, hm, fun _ => rfl⟩
    · rw [hd, he]
      exact ⟨rfl, hm, fun _ => h.listing hm'⟩
  | cat path =>
    simp only [FileSystem.run]
    rcases h.nodeAt_cases hm (components (cstr path)) ((cstr path).getLast? == some 0x2F) with
      ⟨_, hd, he⟩ | ⟨a, b, hd, he, hcontent⟩
    · rw [hd, he]
      exact ⟨rfl, hm, fun _ => rfl⟩
    · rw [hd, he]
      exact ⟨rfl, hm, fun _ => congrArg (shown · ++ ascii "^EOF\n") hcontent⟩
  | stat path =>
    simp only [FileSystem.run]
    cases lastSlash path (path.length - 1) with
    | none => exact h.describe hm hm path path
    | some i =>
      simp only
      rcases h.goTo_cases hm (components (cstr (path.take i))) with
        ⟨_, hd, he⟩ | ⟨_, _, hd, he, hm'⟩
      · rw [hd, he]
        exact ⟨rfl, hm, fun _ => rfl⟩
      · rw [hd, he]
        exact h.describe hm' hm path _

end ShowsSame

end FileSystem

/-! ### Sessions on volumes that show the same -/

/-- Two sessions that cannot be told apart without stat. -/
inductive Session.Twin {D E : Type} : Session D → Session E → Prop
  | idle : Twin .idle .idle
  | mounted {label : Name} {fs : FileSystem D} {gs : FileSystem E} {d : D} {e : E}
      (h : fs.ShowsSame gs) (hm : fs.Meets gs d e) :
      Twin (.mounted label fs d) (.mounted label gs e)

/-- Two answers to a message: the same code, and the same text unless it asks for stat or
    is a mount that succeeds, which prints the geometry. -/
structure Heard.Like (m : Message) (a b : Heard) : Prop where
  code : a.code = b.code
  text : (∀ path, m.command ≠ some (.stat path)) → (m.callnr = FAT32S_MOUNT → a.code ≠ OK) →
    a.text = b.text

structure Reply.Twin {D E : Type} (m : Message) (r : Reply D) (r' : Reply E) : Prop where
  heard : Heard.Like m ⟨r.code, r.text⟩ ⟨r'.code, r'.text⟩
  session : r.session.Twin r'.session

def Disk.Twin (disk disk' : Disk) : Prop :=
  disk.tree.fileSystem.ShowsSame disk'.tree.fileSystem

/-- The same message, to servers that find disks under the same labels which show the
    same. -/
structure Request.Twin (q q' : Request) : Prop where
  msg : q.msg = q'.msg
  closeOk : q.closeOk = q'.closeOk
  disks : ∀ label, Option.Rel Disk.Twin (q.disks label) (q'.disks label)

namespace Session.Twin

variable {σ σ' : Session UInt32} {m : Message} {q q' : Request}

theorem say (h : σ.Twin σ') (code : Int) (text : List UInt8) :
    (σ.say code text).Twin m (σ'.say code text) :=
  ⟨⟨rfl, fun _ _ => rfl⟩, h⟩

theorem mount (h : σ.Twin σ') (hq : q.Twin q') (hcall : m.callnr = FAT32S_MOUNT) :
    (σ.mount q.volumes m).Twin m (σ'.mount q'.volumes m) := by
  cases h with
  | mounted h hm => exact (Twin.mounted h hm).say _ _
  | idle =>
    simp only [Session.mount]
    split
    · exact Twin.idle.say _ _
    have hdisks := hq.disks m.text
    unfold Request.volumes
    cases hdisk : q.disks m.text with
    | none =>
      rw [hdisk] at hdisks
      cases hdisk' : q'.disks m.text with
      | none => exact Twin.idle.say _ _
      | some disk' =>
        rw [hdisk'] at hdisks
        cases hdisks
    | some disk =>
      rw [hdisk] at hdisks
      cases hdisk' : q'.disks m.text with
      | none =>
        rw [hdisk'] at hdisks
        cases hdisks
      | some disk' =>
        rw [hdisk'] at hdisks
        cases hdisks with
        | some hsame =>
          simp only [Option.map_some]
          exact ⟨⟨rfl, fun _ hfail => absurd rfl (hfail hcall)⟩,
            .mounted hsame FileSystem.meets_root⟩

theorem unmount (h : σ.Twin σ') (closeOk : Bool) :
    (σ.unmount closeOk m).Twin m (σ'.unmount closeOk m) := by
  cases h with
  | idle => exact Twin.idle.say _ _
  | mounted h hm =>
    have htwin : ∀ label, Session.Twin (.mounted label _ _) (.mounted label _ _) :=
      fun _ => .mounted h hm
    simp only [Session.unmount]
    split
    · exact (htwin _).say _ _
    split
    · exact (htwin _).say _ _
    split
    · exact (htwin _).say _ _
    · exact ⟨⟨rfl, fun _ _ => rfl⟩, .idle⟩

theorem command {cmd : Command} (h : σ.Twin σ') (hcmd : m.command = some cmd) :
    (σ.command m cmd).Twin m (σ'.command m cmd) := by
  cases h with
  | idle => exact Twin.idle.say _ _
  | @mounted label fs gs d e h hm =>
    simp only [Session.command]
    split
    · exact (Twin.mounted h hm).say _ _
    obtain ⟨hstatus, hdir, htext⟩ := h.run hm cmd
    rw [hstatus]
    refine ⟨⟨rfl, fun hstat _ => ?_⟩, .mounted h hdir⟩
    rw [htext fun path hpath => hstat path (hcmd.trans (congrArg some hpath))]

theorem serve (h : σ.Twin σ') (hq : q.Twin q') :
    (σ.serve q.volumes q.closeOk q.msg).Twin q.msg (σ'.serve q'.volumes q'.closeOk q'.msg) := by
  rw [← hq.msg, ← hq.closeOk]
  unfold Session.serve
  cases hcmd : q.msg.command with
  | some cmd => exact h.command hcmd
  | none =>
    simp only
    split
    · exact h.say _ _
    split
    · rename_i hcall
      exact h.mount hq hcall
    split
    · exact h.unmount _
    · exact h.say _ _

end Session.Twin

/-! ### Whole runs -/

theorem Request.Twin.legal {q q' : Request} (h : q.Twin q') (hq : q.Legal) : q'.Legal where
  len := h.msg ▸ hq.len
  label := h.msg ▸ hq.label
  path := h.msg ▸ hq.path

theorem legal_of_twins {h : List (Request × Heard)} {qs' : List Request}
    (hlegal : ∀ x ∈ h, x.1.Legal) (htwin : List.Forall₂ (fun x q' => x.1.Twin q') h qs') :
    ∀ q' ∈ qs', q'.Legal := by
  induction htwin with
  | nil => simp
  | cons hq _ ih =>
    obtain ⟨hfirst, hrest⟩ := List.forall_mem_cons.mp hlegal
    exact List.forall_mem_cons.mpr ⟨hq.legal hfirst, ih hrest⟩

/-- **The layout of a volume cannot be seen.**  A server is given a run of requests, and
    another one, with other bytes in its memory, the same messages for volumes that show
    the same.  It can answer them, and however it does, the codes are the same one by
    one, and so are the texts of all but the stat requests and the mounts. -/
theorem layout_invisible (junk junk' : Nat → Name) {h : List (Request × Heard)} {s : Server}
    {qs' : List Request} (hlegal : ∀ x ∈ h, x.1.Legal)
    (hrun : Serves Server.step (Server.initial junk) h s)
    (htwin : List.Forall₂ (fun x q' => x.1.Twin q') h qs') :
    (∃ h' s', h'.map (·.1) = qs' ∧ Serves Server.step (Server.initial junk') h' s') ∧
    ∀ h' s', h'.map (·.1) = qs' → Serves Server.step (Server.initial junk') h' s' →
      List.Forall₂ (fun x y => Heard.Like x.1.msg x.2 y.2) h h' := by
  have hlegal' := legal_of_twins hlegal htwin
  constructor
  · obtain ⟨h', s', _, hqs, hrun', _⟩ := refines_step.serves qs' (represents_initial junk') hlegal'
    exact ⟨h', s', hqs, hrun'⟩
  · rintro h' s' rfl hrun'
    obtain ⟨σ, hspec, _⟩ := refines_step.history (represents_initial junk) hlegal hrun
    obtain ⟨σ', hspec', _⟩ := refines_step.history (represents_initial junk')
      (fun y hy => hlegal' y.1 (List.mem_map_of_mem hy)) hrun'
    rw [List.forall₂_map_right_iff] at htwin
    have hkeep : ∀ {σ σ' : Session UInt32} {q q' : Request}, σ.Twin σ' → q.Twin q' →
        Heard.Like q.msg (σ.step q).1 (σ'.step q').1 ∧ (σ.step q).2.Twin (σ'.step q').2 := by
      intro σ σ' q q' hσ hq
      exact ⟨(hσ.serve hq).heard, (hσ.serve hq).session⟩
    exact (Serves.related hkeep .idle hspec hspec' htwin).1

namespace Sample.Moved

/-- The entries of the sample volume, with other first clusters. -/
def place (e : FileEntry) (cluster size : UInt32) : FileEntry :=
  { e with info := fileInfo cluster size }

def rootEntries : List FileEntry :=
  List.zipWith (fun e x => place e x.1 x.2) Sample.rootEntries [(5, 0), (6, 5)]

def dirEntries : List FileEntry :=
  List.zipWith (fun e x => place e x.1 x.2) Sample.dirEntries [(5, 0), (0, 0), (3, 3)]

/-- There are bytes behind the ends of the files and in the free cluster 4. -/
def image : Image :=
  bootSector 512 1 1 8 1 2 ++
  [(512 + 8, le32Bytes 0x0FFFFFFF ++ le32Bytes 0x0FFFFFFF ++ le32Bytes 0 ++
    le32Bytes 0x0FFFFFFF ++ le32Bytes 0x0FFFFFFF),
   (1024, slotBytes (rootEntries.flatMap FileEntry.encode)),
   (1536, ascii "abcdef"), (2048, ascii "old bytes"),
   (2560, slotBytes (dirEntries.flatMap FileEntry.encode)),
   (3072, ascii "Hello there")]

def volume : Volume := image.volume 4096 (by decide +kernel)

theorem bootable : volume.Bootable := Image.bootable _ (by decide) (by decide +kernel)

theorem isData : volume.IsData 2 ∧ volume.IsData 3 ∧ volume.IsData 5 ∧ volume.IsData 6 := by
  unfold Volume.IsData
  decide +kernel

def slotsOf (c : UInt32) : List Nat :=
  if c = 2 then [1024, 1056, 1088, 1120] else [2560, 2592, 2624]

theorem lists_root : volume.Lists 2 (slotsOf 2) :=
  ⟨by decide +kernel, [2], 1152, (volume.addrs 32 2).drop 5, .last isData.1, by decide +kernel,
    by decide +kernel⟩

theorem lists_dir : volume.Lists 5 (slotsOf 5) :=
  ⟨by decide +kernel, [5], 2656, (volume.addrs 32 5).drop 4, .last isData.2.2.1,
    by decide +kernel, by decide +kernel⟩

theorem decoded_slotsOf {c : UInt32} (hc : c = 2 ∨ c = 5) (junk : Name) :
    volume.decoded junk (slotsOf c) = volume.decoded [] (slotsOf c) := by
  refine named_junk junk [] [] ?_
  rcases hc with rfl | rfl
  · decide +kernel
  · decide +kernel

def tree : volume.DirTree where
  isDir c := c = 2 ∨ c = 5
  slots := slotsOf
  root := .inl rfl
  lists := by
    intro c hc
    rcases hc with rfl | rfl
    · exact lists_root
    · exact lists_dir
  leads := by
    intro c a hc
    rcases hc with rfl | rfl
    · revert a
      decide +kernel
    · revert a
      decide +kernel
  parent _ := 2
  depth c := if c = 2 then 0 else 1
  depth_root := rfl
  up := by
    intro c hc hne
    rcases hc with rfl | rfl
    · exact (hne rfl).elim
    · exact ⟨.inl rfl, rfl⟩
  has_dotdot := by
    intro c junk hc hne
    rw [decoded_slotsOf hc]
    rcases hc with rfl | rfl
    · exact (hne rfl).elim
    · decide +kernel
  dotdot := by
    intro c junk x hc
    rw [decoded_slotsOf hc]
    rcases hc with rfl | rfl
    · revert x
      decide +kernel
    · revert x
      decide +kernel
  listed := by
    intro c junk hc hne
    rw [decoded_slotsOf (.inl rfl)]
    rcases hc with rfl | rfl
    · exact (hne rfl).elim
    · decide +kernel

theorem covered_slots : ∀ {a : Nat}, a ∈ slotsOf 2 ++ slotsOf 5 →
    (volume.slot a).dirType = .short → (volume.slot a).fileSize = 0 ∨
      (volume.IsData (volume.slot a).firstCluster ∧
        (volume.slot a).fileSize.toNat ≤ volume.clusterSize) := by
  unfold Volume.IsData
  decide +kernel

def fileTree : volume.FileTree where
  toDirTree := tree
  plain := by
    intro c hc
    unfold Volume.PlainNames
    rcases hc with rfl | rfl
    · decide +kernel
    · decide +kernel
  chain u := [u.firstCluster]
  covered := by
    intro u hholds
    obtain ⟨c, a, hc, ha, rfl, htype⟩ := hholds
    have hmem : a ∈ slotsOf 2 ++ slotsOf 5 := by
      rcases hc with rfl | rfl
      · exact List.mem_append_left _ ha
      · exact List.mem_append_right _ ha
    rcases covered_slots hmem htype with hzero | ⟨hdata, hsize⟩
    · exact .inl hzero
    · refine .inr ⟨.last hdata, ?_⟩
      rw [List.length_singleton, Nat.one_mul]
      exact hsize

theorem properName : ProperName (ascii "DIR") :=
  ⟨by decide, by decide +kernel, by decide, by decide⟩

def orderlyTree : volume.OrderlyTree where
  toFileTree := fileTree
  name _ := ascii "DIR"
  root_eq := rfl
  dot := by
    intro c junk x hc
    change x ∈ volume.decoded junk (slotsOf c) → _
    rw [decoded_slotsOf hc]
    rcases hc with rfl | rfl
    · revert x
      decide +kernel
    · revert x
      decide +kernel
  once := by
    intro c junk x hc hne
    change x ∈ volume.decoded junk (slotsOf 2) → _
    rw [decoded_slotsOf (.inl rfl)]
    rcases hc with rfl | rfl
    · exact (hne rfl).elim
    · revert x
      decide +kernel
  child := by
    intro c x hc
    change x ∈ volume.decoded [] (slotsOf c) → _ → _ → _ → _ ∧ (2 : UInt32) = c
    rcases hc with rfl | rfl
    · revert x
      decide +kernel
    · revert x
      decide +kernel
  own := by
    intro c x hc hne
    change x ∈ volume.decoded [] (slotsOf 2) → _
    rcases hc with rfl | rfl
    · exact (hne rfl).elim
    · revert x
      decide +kernel
  proper _ _ := properName
  nonempty := by
    intro c x hc
    change x ∈ volume.decoded [] (slotsOf c) → _
    rcases hc with rfl | rfl
    · revert x
      decide +kernel
    · revert x
      decide +kernel

def disk : Disk := ⟨volume, orderlyTree, bootable⟩

def request (m : Message) : Request := ⟨m, fun _ => some disk, true⟩

theorem showsSame : Sample.orderlyTree.fileSystem.ShowsSame orderlyTree.fileSystem where
  faces := by
    intro d e hd he
    rcases hd with rfl | rfl
    · rcases he with rfl | rfl
      · intro _
        decide +kernel
      · intro hway
        exact absurd hway (by decide +kernel)
    · rcases he with rfl | rfl
      · intro hway
        exact absurd hway (by decide +kernel)
      · intro _
        decide +kernel

theorem twin (m : Message) : (Sample.request m).Twin (request m) :=
  ⟨rfl, rfl, fun _ => .some showsSame⟩

end Sample.Moved

/-- The sample volume, and one with its directory and its files in other clusters. -/
theorem sample_layout_invisible : ∃ h s h' s',
    h.map (·.1) = [Sample.request mountMessage,
      Sample.request (textMessage FAT32S_CAT (ascii "DIR/B.TXT"))] ∧
    h'.map (·.1) = [Sample.Moved.request mountMessage,
      Sample.Moved.request (textMessage FAT32S_CAT (ascii "DIR/B.TXT"))] ∧
    Serves Server.step (Server.initial fun _ => []) h s ∧
    Serves Server.step (Server.initial fun _ => ascii "junk") h' s' ∧
    List.Forall₂ (fun x y => Heard.Like x.1.msg x.2 y.2) h h' := by
  obtain ⟨h, s, _, hqs, hrun, _⟩ := refines_step.serves _ (represents_initial fun _ => [])
    Sample.legal_mount_cat
  have hlegal : ∀ x ∈ h, x.1.Legal := by
    intro x hx
    apply Sample.legal_mount_cat
    rw [← hqs]
    exact List.mem_map_of_mem hx
  have htwin : List.Forall₂ Request.Twin (h.map (·.1)) [Sample.Moved.request mountMessage,
      Sample.Moved.request (textMessage FAT32S_CAT (ascii "DIR/B.TXT"))] := by
    rw [hqs]
    exact .cons (Sample.Moved.twin _) (.cons (Sample.Moved.twin _) .nil)
  obtain ⟨⟨h', s', hqs', hrun'⟩, hall⟩ := layout_invisible (fun _ => []) (fun _ => ascii "junk")
    hlegal hrun (List.forall₂_map_left_iff.mp htwin)
  exact ⟨h, s, h', s', hqs, hqs', hrun, hrun', hall h' s' hqs' hrun'⟩

end Fat32s
