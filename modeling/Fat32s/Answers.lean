/-
  Fat32s/Answers.lean
  ===================
  **What the commands answer.**

  Seen from outside, the state of a session is the directory the server is in.
  From that and the command alone `answer` computes what is returned, what is
  printed and which directory comes next, and the server refines it.  So nothing
  that earlier requests have left behind, in the sector buffer, in `last_hop_*`,
  in the stale part of the entry or on the stack, can be seen in a reply.
-/
import Fat32s.Cat
import Fat32s.Ls
import Fat32s.Paths
import Fat32s.Pwd

namespace Fat32s

open Fat32s.Lib Fat32s.Lib.Prog

variable {v : Volume} {s s' : Server} {c : UInt32} {path : Name}

/-- The status of a command, the text it prints and the directory it ends in. -/
structure Answer where
  status : Int
  text : List UInt8
  dir : UInt32

/-- The program gives the answer, and leaves the stack as it was. -/
def Gives (p : ServerM Int) (s : Server) (v : Volume) (answer : Answer) : Prop :=
  ∃ s', Returns p s answer.status s' ∧ s'.Cwd v answer.dir ∧ s'.stack = s.stack ∧
    s'.out = s.out ++ answer.text

/-- The command has come back to the directory it started in. -/
theorem gives_of_back {p : ServerM Int} {r : Int} {text : List UInt8} (hs : s.Cwd v c)
    (hret : Returns p s r s') (hback : s'.Back s.dirBuff.sector s.stack) (hon : s'.On v)
    (hout : s'.out = s.out ++ text) : Gives p s v ⟨r, text, c⟩ :=
  ⟨s', hret, hs.back hback.cursor hon, hback.stack, hout⟩

theorem Slot.text_eq {u : Slot} (h : u 0 ≠ 0x20) (buffer : Name) : u.text buffer = u.text [] := by
  have hname : getName ⟨.short, u⟩ buffer = getName ⟨.short, u⟩ [] :=
    getName_of_base_ne rfl (fun _ => h) (by simp)
  rw [Slot.text, Slot.text, hname]

/-! ### cd, ls and stat -/

namespace Volume.Dirs

variable (t : v.Dirs)

def cdAnswer (c : UInt32) (path : Name) : Answer :=
  match t.goTo c (components (cstr path)) with
  | .error status => ⟨status, [], c⟩
  | .ok c' => ⟨0, [], c'⟩

/-- The lines for the entries of a directory. -/
def listing (c : UInt32) : List UInt8 :=
  (v.decoded [] (t.slots c)).flatMap fun x => lsLine x.1 x.2

def lsAnswer (c : UInt32) (path : Name) : Answer :=
  if path = ascii "." then ⟨OK, t.listing c, c⟩
  else
    match t.goTo c (components (cstr path)) with
    | .error status => ⟨status, [], c⟩
    | .ok c' => ⟨OK, t.listing c', c⟩

/-- What is printed about the entry that goes by a name in the directory `c'`. -/
def entryAnswer (c c' : UInt32) (name : Name) : Answer :=
  match v.lookup [] (t.slots c') name with
  | none => ⟨1, [], c⟩
  | some u => ⟨OK, u.text [] ++ line "        long_name: " name " \n", c⟩

def statAnswer (c : UInt32) (path : Name) : Answer :=
  match lastSlash path (path.length - 1) with
  | none => t.entryAnswer c c path
  | some i =>
    match t.goTo c (components (cstr (path.take i))) with
    | .error status => ⟨status, [], c⟩
    | .ok c' => t.entryAnswer c c' (path.drop (i + 1))

variable (hplain : t.Plain)

include hplain

theorem gives_cd (hc : t.isDir c) (hs : s.Cwd v c) (path : Name) :
    Gives (cd path) s v (t.cdAnswer c path) := by
  obtain ⟨r, s', hcd, hstack, hout, hend⟩ := t.cd_goesTo hplain hc hs path
  unfold cdAnswer
  cases hgo : t.goTo c (components (cstr path)) with
  | error status =>
    rw [hgo] at hend
    obtain ⟨rfl, _, hcwd⟩ := hend
    exact ⟨s', hcd, hcwd, hstack, by rw [hout, List.append_nil]⟩
  | ok c' =>
    rw [hgo] at hend
    obtain ⟨rfl, hcwd⟩ := hend
    exact ⟨s', hcd, hcwd, hstack, by rw [hout, List.append_nil]⟩

theorem gives_ls (hc : t.isDir c) (hs : s.Cwd v c) (path : Name) :
    Gives (ls path) s v (t.lsAnswer c path) := by
  unfold lsAnswer
  by_cases hdot : path = ascii "."
  · obtain ⟨s', hls, hcwd, hstack, hout⟩ := hs.returns_ls_dot (t.lists hc)
    rw [(hplain hc).decoded_eq] at hout
    rw [if_pos hdot, hdot]
    exact ⟨s', hls, hcwd, hstack, hout⟩
  · rw [if_neg hdot]
    obtain ⟨r, s₁, hcd, hstack, hout, hend⟩ := t.cd_goesTo
      (s := { s with stack := s.dirBuff.sector :: s.stack }) hplain hc hs path
    have hls : ∀ {r' : Int} {s' : Server}, Returns (if r ≠ 0 then do rollback; return r
        else do listEntries; rollback; return OK : ServerM Int) s₁ r' s' →
        Returns (ls path) s r' s' := by
      intro r' s' h
      unfold ls
      rw [returns_globals_bind, returns_push_bind]
      dsimp only
      rw [if_neg hdot]
      exact returns_bind.mpr ⟨r, s₁, hcd, h⟩
    cases hgo : t.goTo c (components (cstr path)) with
    | error status =>
      rw [hgo] at hend
      obtain ⟨rfl, hne, hcwd⟩ := hend
      rw [if_pos hne] at hls
      obtain ⟨s', hroll, hback⟩ := Drive.On.turns_back (s := s₁) hcwd.on hstack s₁.scratch r
      refine gives_of_back hs (hls hroll) hback.toBack hback.on ?_
      rw [hback.out, hout, List.append_nil]
    | ok c' =>
      rw [hgo] at hend
      obtain ⟨rfl, hcwd⟩ := hend
      rw [if_neg (by decide)] at hls
      have hc' := t.goTo_isDir hc hgo
      obtain ⟨d, sc, hon, hret⟩ := hcwd.returns_listing (t.lists hc') hstack
      refine gives_of_back hs (hls hret) ⟨⟨d, rfl⟩, rfl⟩ (hon.jump _) ?_
      rw [(hplain hc').decoded_eq, hout]
      rfl

theorem returns_statEntry {c' : UInt32} {sector : UInt32} {rest : List UInt32} (hc : t.isDir c')
    (hs : s.Cwd v c') (hstack : s.stack = sector :: rest) (name : Name) :
    ∃ s', Returns (statEntry name) s (t.entryAnswer c c' name).status s' ∧ s'.Back sector rest ∧
      s'.On v ∧ s'.out = s.out ++ (t.entryAnswer c c' name).text := by
  have hlookup := (hplain hc).lookup_eq (s.scratch.junk 0) name
  unfold entryAnswer
  rcases (t.lists hc).returns_findChild hs.cursor hs.on name with
    ⟨hnone, d, sc, hon, hret⟩ | ⟨a, ha, hsome, d, sc, hon, _, hde, hshort, hret⟩
  · rw [← hlookup, hnone]
    obtain ⟨s', hroll, hback⟩ := hon.turns_back hstack sc (1 : Int)
    refine ⟨s', returns_bind.mpr ⟨1, _, hret, ?_⟩, hback.toBack, hback.on, ?_⟩
    · rw [if_pos (by decide)]
      exact hroll
    · rw [hback.out, List.append_nil]
  · rw [← hlookup, hsome]
    have htext := Slot.text_eq (hplain hc a ha hshort) (sc.junk 0)
    have hline : shown (line "        long_name: " name " \n") =
        line "        long_name: " name " \n" := by
      rw [shown_line (by decide) (by decide), Volume.shown_of_lookup hsome]
    obtain ⟨s', hroll, hback⟩ := Drive.On.turns_back
      (s := { s with
        out := s.out ++ (v.slot a).text (sc.junk 0) ++ line "        long_name: " name " \n" })
      hon hstack
      ⟨fun n => sc.junk (n + 1), (32, (getName ⟨.short, v.slot a⟩ (sc.junk 0)).length) :: sc.stored⟩
      (OK : Int)
    refine ⟨s', returns_bind.mpr ⟨0, _, hret, ?_⟩, hback.toBack, hback.on, ?_⟩
    · rw [if_neg (by decide), returns_globals_bind]
      dsimp only
      rw [hde]
      refine returns_bind.mpr ⟨(), _, returns_printRegularDirEntry.mpr rfl, ?_⟩
      rw [printLongNameRde, returns_printf_bind, Server.say, hline]
      exact hroll
    · rw [hback.out, htext]
      exact List.append_assoc _ _ _

theorem gives_stat (hc : t.isDir c) (hs : s.Cwd v c) (path : Name) :
    Gives (stat path) s v (t.statAnswer c path) := by
  have hentry : ∀ {c' : UInt32} (s₁ : Server) {name : Name}, t.isDir c' → s₁.Cwd v c' →
      s₁.stack = s.dirBuff.sector :: s.stack → s₁.out = s.out →
      (∀ {r : Int} {s' : Server}, Returns (statEntry name) s₁ r s' → Returns (stat path) s r s') →
      Gives (stat path) s v (t.entryAnswer c c' name) := by
    intro c' s₁ name hc' hs₁ hstack hout hstat
    obtain ⟨s', hret, hback, hon, hout'⟩ := t.returns_statEntry (c := c) hplain hc' hs₁ hstack name
    have hdir : (t.entryAnswer c c' name).dir = c := by
      unfold entryAnswer
      split <;> rfl
    refine ⟨s', hstat hret, ?_, hback.stack, by rw [hout', hout]⟩
    rw [hdir]
    exact hs.back hback.cursor hon
  have hstat : ∀ {r : Int} {s' : Server}, Returns (match lastSlash path (path.length - 1) with
      | none => statEntry path
      | some i => do
        let status ← walk (path.take i) WALK_BAN_FILES
        if status ≠ 0 then
          rollback
          return status
        else
          statEntry (path.drop (i + 1)) : ServerM Int)
      { s with stack := s.dirBuff.sector :: s.stack } r s' → Returns (stat path) s r s' := by
    intro r s' h
    unfold stat
    rw [returns_globals_bind, returns_push_bind]
    exact h
  unfold statAnswer
  cases hslash : lastSlash path (path.length - 1) with
  | none =>
    rw [hslash] at hstat
    exact hentry { s with stack := s.dirBuff.sector :: s.stack } hc hs rfl rfl hstat
  | some i =>
    rw [hslash] at hstat
    dsimp only
    obtain ⟨r, s₁, hwalk, hstack, hout, hend⟩ := t.walk_goesTo
      (s := { s with stack := s.dirBuff.sector :: s.stack }) hplain hc hs (path.take i)
    cases hgo : t.goTo c (components (cstr (path.take i))) with
    | error status =>
      rw [hgo] at hend
      obtain ⟨rfl, hne, hcwd⟩ := hend
      obtain ⟨s', hroll, hback⟩ := Drive.On.turns_back (s := s₁) hcwd.on hstack s₁.scratch r
      have hret := hstat (returns_bind.mpr ⟨r, s₁, hwalk, by rw [if_pos hne]; exact hroll⟩)
      refine gives_of_back hs hret hback.toBack hback.on ?_
      rw [hback.out, hout, List.append_nil]
    | ok c' =>
      rw [hgo] at hend
      obtain ⟨rfl, hcwd⟩ := hend
      refine hentry s₁ (t.goTo_isDir hc hgo) hcwd hstack hout ?_
      intro r s' h
      exact hstat (returns_bind.mpr ⟨0, s₁, hwalk, by rw [if_neg (by decide)]; exact h⟩)

end Volume.Dirs

/-! ### cat and pwd -/

/-- A tree without short names that start with a space, in which the chain of each
    entry is long enough for its size, or the size is 0. -/
structure Volume.FileTree (v : Volume) extends v.DirTree where
  plain : toDirs.Plain
  chain : Slot → List UInt32
  covered : ∀ {u : Slot}, toDirs.Holds u → u.fileSize = 0 ∨
    (v.Linked u.firstCluster (chain u) ∧ u.fileSize.toNat ≤ (chain u).length * v.clusterSize)

/-- The name of the first entry of the parent that leads to the directory. -/
def Volume.DirTree.nameOf (t : v.DirTree) (c : UInt32) : Name :=
  match (v.decoded [] (t.slots (t.parent c))).find? (fun x => x.1.u.clusterId = c) with
  | none => []
  | some x => x.2

def Volume.DirTree.wayTo (t : v.DirTree) : Nat → UInt32 → Name
  | 0, _ => []
  | n + 1, c => wayTo t n (t.parent c) ++ (ascii "/" ++ t.nameOf c)

theorem Volume.DirTree.spells_wayTo (t : v.DirTree) (hplain : t.toDirs.Plain) :
    t.Spells fun c => t.wayTo (t.depth c) c where
  root := by rw [t.depth_root, wayTo]
  up := by
    intro c d d' junk name hc hne hd hfind
    obtain ⟨hup, hdepth⟩ := t.up hc hne
    obtain ⟨x, hfirst, rfl, _⟩ := (t.lists hup).found hd hfind
    rw [(hplain hup).decoded_eq] at hfirst
    have hname : t.nameOf c = x.2 := by
      have hfind? := IsFirst.find? (p := fun de _ => de.u.clusterId = c)
        ⟨hfirst.split, hfirst.holds⟩
      rw [nameOf, hfind?]
    rw [hdepth, wayTo, hname]

namespace Volume.FileTree

variable (t : v.FileTree)

/-- The bytes of the chain of an entry, up to its size. -/
def fileBytes (u : Slot) : List UInt8 :=
  ((t.chain u).flatMap v.clusterBytes).take u.fileSize.toNat

def catAnswer (c : UInt32) (path : Name) : Answer :=
  match t.follow false true c (segments (cstr path)) with
  | .error status => ⟨status, [], c⟩
  | .ok none => ⟨OK, [], c⟩
  | .ok (some u) => ⟨OK, shown (t.fileBytes u) ++ ascii "^EOF\n", c⟩

def pwdAnswer (c : UInt32) : Answer := ⟨OK, pathLine (t.wayTo (t.depth c) c), c⟩

theorem gives_pwd (hc : t.isDir c) (hs : s.Cwd v c) : Gives pwd s v (t.pwdAnswer c) := by
  obtain ⟨s', hret, hback, hout⟩ := (t.spells_wayTo t.plain).returns_pwd hc hs
  have hon : s'.On v := ((stable_on v).command .pwd).returns hret hs.on
  exact gives_of_back hs hret hback hon hout

theorem gives_cat (hc : t.isDir c) (hs : s.Cwd v c) (hne : cstr path ≠ []) :
    Gives (cat path) s v (t.catAnswer c path) := by
  obtain ⟨r, s₁, hwalk, hend⟩ := t.returns_walk
    (s := { s with stack := s.dirBuff.sector :: s.stack }) t.plain hc hs path WALK_BAN_DIRS
  change Arrives _ v c (t.follow false true c (segments (cstr path))) r s₁ at hend
  have herror : ∀ {e : Int}, t.follow false true c (segments (cstr path)) = .error e → e ≠ 0 :=
    t.follow_error
  have hnone : t.follow false true c (segments (cstr path)) ≠ .ok none :=
    t.follow_ne_none (segments_ne_nil hne)
  have hholds : ∀ {u : Slot}, t.follow false true c (segments (cstr path)) = .ok (some u) →
      t.Holds u := t.holds_of_follow hc
  unfold catAnswer
  generalize hfollow : t.follow false true c (segments (cstr path)) = o at hend herror hholds
  cases hend with
  | failed hcwd _ hstack hout =>
    obtain ⟨s', hroll, hback⟩ := Drive.On.turns_back (s := s₁) hcwd.on hstack s₁.scratch r
    have hret : Returns (cat path) s r s' := by
      unfold cat
      rw [returns_globals_bind, returns_push_bind]
      refine returns_bind.mpr ⟨r, s₁, hwalk, ?_⟩
      rw [if_pos (herror rfl)]
      exact hroll
    refine gives_of_back hs hret hback.toBack hback.on ?_
    rw [hback.out, hout, List.append_nil]
  | stayed => exact (hnone hfollow).elim
  | @arrived u _ hhop =>
    have hchain : u.fileSize = 0 ∨ v.Linked u.firstCluster (t.chain u) := by
      rcases t.covered (hholds rfl) with hzero | hlinked
      · exact .inl hzero
      · exact .inr hlinked.1
    have hsize : u.fileSize.toNat ≤ (t.chain u).length * v.clusterSize := by
      rcases t.covered (hholds rfl) with hzero | hlinked
      · rw [hzero]
        exact Nat.zero_le _
      · exact hlinked.2
    obtain ⟨d, hon, hcat⟩ := Server.Hopped.returns_cat hwalk hhop hchain hsize
    refine gives_of_back hs hcat ⟨⟨d, rfl⟩, rfl⟩ (hon.jump _) ?_
    exact List.append_assoc _ _ _

/-- What a command answers in the directory `c`. -/
def answer (c : UInt32) : Command → Answer
  | .pwd => t.pwdAnswer c
  | .cd path => t.cdAnswer c path
  | .ls path => t.lsAnswer c path
  | .cat path => t.catAnswer c path
  | .stat path => t.statAnswer c path

end Volume.FileTree

/-- The command does not have an empty path. -/
def Command.HasPath : Command → Prop
  | .pwd => True
  | .cd path => cstr path ≠ []
  | .ls path => cstr path ≠ []
  | .cat path => cstr path ≠ []
  | .stat path => cstr path ≠ []

/-- **The server refines the answers.** -/
theorem Volume.FileTree.gives (t : v.FileTree) (hc : t.isDir c) (hs : s.Cwd v c) {cmd : Command}
    (hpath : cmd.HasPath) : Gives cmd.run s v (t.answer c cmd) := by
  cases cmd with
  | pwd => exact t.gives_pwd hc hs
  | cd path => exact t.gives_cd t.plain hc hs path
  | ls path => exact t.gives_ls t.plain hc hs path
  | cat path => exact t.gives_cat hc hs hpath
  | stat path => exact t.gives_stat t.plain hc hs path

/-! ### Replies -/

section replies

variable {m : Message} {r status : Int} {s₁ s₁' s₂ s₂' : Server}

/-- Two servers, one of which has replied: the other one replies the same.  Either
    both refuse the request, or both have run the command and report its status. -/
inductive RepliesAlike (p : ServerM Int) (s₁ s₁' s₂ s₂' : Server) (r : Int) (s : Server) : Prop
  | refused (text : List UInt8) (h₁ : s = s₁.say text) (h₂ : Returns p s₂ r (s₂.say text))
  | ran (text : List UInt8) (h₁ : s = s₁'.say text) (h₂ : Returns p s₂ r (s₂'.say text))

theorem repliesAlike_doPwd (hfd₁ : s₁.deviceFd ≠ none) (hfd₂ : s₂.deviceFd ≠ none)
    (hrun₁ : Returns pwd s₁ status s₁') (hrun₂ : Returns pwd s₂ status s₂')
    (h : Returns doPwd s₁ r s) : RepliesAlike doPwd s₁ s₁' s₂ s₂' r s := by
  obtain ⟨rfl, status', hrun⟩ := (returns_doPwd hfd₁).mp h
  obtain ⟨_, rfl⟩ := hrun.unique hrun₁
  refine .ran [] Server.say_nil.symm ?_
  rw [Server.say_nil]
  exact (returns_doPwd hfd₂).mpr ⟨rfl, status, hrun₂⟩

/-- The shape of the handlers that take a path: `tail` reports the status of the command. -/
def handled (command : Name → ServerM Int) (error : Int) (tail : Int → ServerM Int) (m : Message) :
    ServerM Int := do
  let s ← Prog.get
  if s.deviceFd.isNone then
    refuse "FAT32S: Nothing is mounted.\n" EINVAL
  else
    match ← getTxt m with
    | none => refuse "FAT32S: Memcpy failed.\n" error
    | some txt => do
      let status ← command txt
      tail status

theorem doCommand_eq_handled (command : Name → ServerM Int) (complaint : String) (m : Message) :
    doCommand command complaint m = handled command EINVAL (fun status =>
      if status ≠ 0 then refuse complaint status else return status) m := by
  simp only [doCommand, globals_server, free_server_bind]
  rfl

theorem doCd_eq_handled (m : Message) : doCd m = handled cd EFAULT (fun status =>
      if status = 1 then refuse "FAT32S: Can't find the requested file.\n" ENOENT
      else if status = 2 then refuse "FAT32S: Can't cd into a file.\n" EINVAL
      else return OK) m := by
  simp only [doCd, globals_server, free_server_bind]
  rfl

/-- With a device open, the request is refused, or the command run and its status reported. -/
theorem returns_handled {command : Name → ServerM Int} {error : Int} {tail : Int → ServerM Int}
    (hfd : s.deviceFd ≠ none) :
    Returns (handled command error tail m) s r s' ↔ 0 ≤ m.txtLen.toInt ∧
      if m.copyOk then ∃ status s₁, Returns (command m.text) s status s₁ ∧
        Returns (tail status) s₁ r s'
      else r = error ∧ s' = s.say (ascii "FAT32S: Memcpy failed.\n") := by
  have hnone : ¬ s.deviceFd.isNone = true := by simpa using hfd
  unfold handled
  rw [returns_get_bind, if_neg hnone, returns_getTxt_bind]
  cases m.copyOk with
  | false =>
    simp only [Bool.false_eq_true, if_false]
    rw [returns_refuse]
  | true =>
    simp only [if_true]
    rw [returns_bind]

theorem repliesAlike_handled {command : Name → ServerM Int} {error : Int} {tail : Int → ServerM Int}
    (htail : ∀ status, ∃ r text, ∀ {s s' : Server} {r' : Int},
      Returns (tail status) s r' s' ↔ r' = r ∧ s' = s.say text)
    (hfd₁ : s₁.deviceFd ≠ none) (hfd₂ : s₂.deviceFd ≠ none)
    (hrun₁ : Returns (command m.text) s₁ status s₁')
    (hrun₂ : Returns (command m.text) s₂ status s₂')
    (h : Returns (handled command error tail m) s₁ r s) :
    RepliesAlike (handled command error tail m) s₁ s₁' s₂ s₂' r s := by
  obtain ⟨hlen, h⟩ := (returns_handled hfd₁).mp h
  cases hcopy : m.copyOk with
  | false =>
    rw [hcopy, if_neg Bool.false_ne_true] at h
    refine .refused _ h.2 ((returns_handled hfd₂).mpr ⟨hlen, ?_⟩)
    rw [hcopy, if_neg Bool.false_ne_true]
    exact ⟨h.1, rfl⟩
  | true =>
    rw [hcopy, if_pos rfl] at h
    obtain ⟨status', _, hrun, h⟩ := h
    obtain ⟨rfl, rfl⟩ := hrun.unique hrun₁
    obtain ⟨r', text, htext⟩ := htail status'
    obtain ⟨rfl, rfl⟩ := htext.mp h
    refine .ran text rfl ((returns_handled hfd₂).mpr ⟨hlen, ?_⟩)
    rw [hcopy, if_pos rfl]
    exact ⟨status', s₂', hrun₂, htext.mpr ⟨rfl, rfl⟩⟩

theorem repliesAlike_doCommand {command : Name → ServerM Int} {complaint : String}
    (hfd₁ : s₁.deviceFd ≠ none) (hfd₂ : s₂.deviceFd ≠ none)
    (hrun₁ : Returns (command m.text) s₁ status s₁')
    (hrun₂ : Returns (command m.text) s₂ status s₂')
    (h : Returns (doCommand command complaint m) s₁ r s) :
    RepliesAlike (doCommand command complaint m) s₁ s₁' s₂ s₂' r s := by
  rw [doCommand_eq_handled] at h ⊢
  refine repliesAlike_handled ?_ hfd₁ hfd₂ hrun₁ hrun₂ h
  intro status
  by_cases hstatus : status ≠ 0
  · refine ⟨status, ascii complaint, ?_⟩
    intro s s' r'
    rw [if_pos hstatus]
    exact returns_refuse
  · refine ⟨status, [], ?_⟩
    intro s s' r'
    rw [if_neg hstatus, Server.say_nil]
    exact returns_pure

theorem repliesAlike_doCd (hfd₁ : s₁.deviceFd ≠ none) (hfd₂ : s₂.deviceFd ≠ none)
    (hrun₁ : Returns (cd m.text) s₁ status s₁') (hrun₂ : Returns (cd m.text) s₂ status s₂')
    (h : Returns (doCd m) s₁ r s) : RepliesAlike (doCd m) s₁ s₁' s₂ s₂' r s := by
  rw [doCd_eq_handled] at h ⊢
  refine repliesAlike_handled ?_ hfd₁ hfd₂ hrun₁ hrun₂ h
  intro status
  split
  · exact ⟨_, _, returns_refuse⟩
  · split
    · exact ⟨_, _, returns_refuse⟩
    · refine ⟨OK, [], ?_⟩
      intro s s' r'
      rw [Server.say_nil]
      exact returns_pure

theorem repliesAlike_serve {env : Env} {cmd : Command} (hcmd : m.command = some cmd)
    (hfd₁ : s₁.deviceFd ≠ none) (hfd₂ : s₂.deviceFd ≠ none)
    (hrun₁ : Returns cmd.run s₁ status s₁') (hrun₂ : Returns cmd.run s₂ status s₂')
    (h : Returns (serve env m) s₁ r s) : RepliesAlike (serve env m) s₁ s₁' s₂ s₂' r s := by
  rw [serve_eq_handle hcmd] at h ⊢
  rcases command_text hcmd with rfl | rfl | rfl | rfl | rfl
  · exact repliesAlike_doPwd hfd₁ hfd₂ hrun₁ hrun₂ h
  · exact repliesAlike_doCd hfd₁ hfd₂ hrun₁ hrun₂ h
  · exact repliesAlike_doCommand hfd₁ hfd₂ hrun₁ hrun₂ h
  · exact repliesAlike_doCommand hfd₁ hfd₂ hrun₁ hrun₂ h
  · exact repliesAlike_doCommand hfd₁ hfd₂ hrun₁ hrun₂ h

end replies

/-! ### Sessions -/

/-- The server has mounted the volume, from any state it could be in, and has answered
    any number of requests since. -/
def Volume.Serving (v : Volume) (s : Server) : Prop :=
  ∃ env m s₀ s₁, Reachable s₀ ∧ env.openDevice m.text = some v.dev ∧
    Returns (doMount env m) s₀ OK s₁ ∧ InSession s₁ s

theorem Volume.Serving.cwd (t : v.DirTree) (hboot : v.Bootable) (h : v.Serving s) :
    (∃ c, t.isDir c ∧ s.Cwd v c) ∧ s.stack = [] := by
  obtain ⟨env, m, s₀, s₁, hs₀, hopen, hmount, hrun⟩ := h
  obtain ⟨hcwd, hstack⟩ := hboot.cwd_root (t.isData t.root)
    (by rw [(hs₀.idle_of_doMount hmount).fsData]) hopen hmount
  refine InSession.induct (P := fun s => (∃ c, t.isDir c ∧ s.Cwd v c) ∧ s.stack = []) hrun
    (deviceFd_of_doMount hmount) ⟨⟨_, t.root, hcwd⟩, hstack⟩ ?_
  intro s₁ s₂ cmd hs hanswer
  exact t.cwd_answered hanswer hs

/-- The sector of a directory determines it. -/
theorem Volume.DirTree.cwd_inj (t : v.DirTree) {c₁ c₂ : UInt32} {s₁ s₂ : Server} (hc₁ : t.isDir c₁)
    (hc₂ : t.isDir c₂) (hs₁ : s₁.Cwd v c₁) (hs₂ : s₂.Cwd v c₂)
    (h : s₁.dirBuff.sector = s₂.dirBuff.sector) : c₁ = c₂ := by
  have hfds : s₁.fsData.firstDataSector = s₂.fsData.firstDataSector :=
    UInt32.toNat_inj.mp (hs₁.on.fds.trans hs₂.on.fds.symm)
  rw [← t.clusterOf_cwd hc₁ hs₁, ← t.clusterOf_cwd hc₂ hs₂, h, Drive.clusterOf, Drive.clusterOf,
    hfds, hs₁.on.bpb, hs₂.on.bpb]

/-- **Replies do not depend on history.**  Two servers that have mounted the volume and
    stand at the same sector, whatever they have been asked before: a command with a
    path, or pwd, returns the same status in both, prints the same and leads to the
    same sector, and so does the request for it. -/
theorem replies_independent_of_history (t : v.FileTree) (hboot : v.Bootable) {s₁ s₂ : Server}
    (hs₁ : v.Serving s₁) (hs₂ : v.Serving s₂) (hsector : s₁.dirBuff.sector = s₂.dirBuff.sector)
    {cmd : Command} (hpath : cmd.HasPath) :
    (∃ r text s₁' s₂', Returns cmd.run s₁ r s₁' ∧ Returns cmd.run s₂ r s₂' ∧
      s₁'.out = s₁.out ++ text ∧ s₂'.out = s₂.out ++ text ∧
      s₁'.dirBuff.sector = s₂'.dirBuff.sector) ∧
    ∀ {env : Env} {m : Message} {r : Int} {s₁' : Server}, m.command = some cmd →
      Returns (serve env m) s₁ r s₁' →
      ∃ text s₂', Returns (serve env m) s₂ r s₂' ∧ s₁'.out = s₁.out ++ text ∧
        s₂'.out = s₂.out ++ text ∧ s₁'.dirBuff.sector = s₂'.dirBuff.sector := by
  obtain ⟨⟨c, hc, hcwd₁⟩, _⟩ := hs₁.cwd t.toDirTree hboot
  obtain ⟨⟨c₂, hc₂, hcwd₂⟩, _⟩ := hs₂.cwd t.toDirTree hboot
  obtain rfl := t.cwd_inj hc hc₂ hcwd₁ hcwd₂ hsector
  obtain ⟨s₁', hrun₁, hend₁, _, hout₁⟩ := t.gives hc hcwd₁ hpath
  obtain ⟨s₂', hrun₂, hend₂, _, hout₂⟩ := t.gives hc hcwd₂ hpath
  have hsame : s₁'.dirBuff.sector = s₂'.dirBuff.sector :=
    UInt32.toNat_inj.mp (hend₁.sector.trans hend₂.sector.symm)
  refine ⟨⟨_, _, s₁', s₂', hrun₁, hrun₂, hout₁, hout₂, hsame⟩, ?_⟩
  intro env m r s hcmd hserve
  have hfd : ∀ {s : Server}, s.Cwd v c → s.deviceFd ≠ none := by
    intro s h
    rw [h.on.dev]
    exact Option.some_ne_none _
  cases repliesAlike_serve hcmd (hfd hcwd₁) (hfd hcwd₂) hrun₁ hrun₂ hserve with
  | refused text h₁ h₂ =>
    rw [h₁]
    exact ⟨shown text, _, h₂, rfl, rfl, hsector⟩
  | ran text h₁ h₂ =>
    rw [h₁]
    refine ⟨(t.answer c cmd).text ++ shown text, _, h₂, ?_, ?_, hsame⟩
    · rw [Server.say, hout₁, List.append_assoc]
    · rw [Server.say, hout₂, List.append_assoc]

namespace Sample

theorem covered_slots : ∀ {a : Nat}, a ∈ slotsOf 2 ++ slotsOf 3 →
    (volume.slot a).dirType = .short → (volume.slot a).fileSize = 0 ∨
      (volume.IsData (volume.slot a).firstCluster ∧
        (volume.slot a).fileSize.toNat ≤ volume.clusterSize) := by
  unfold Volume.IsData
  decide +kernel

def fileTree : volume.FileTree where
  toDirTree := tree
  plain := plain
  chain u := [u.firstCluster]
  covered := by
    intro u hholds
    obtain ⟨c, a, hc, ha, rfl, htype⟩ := hholds
    have hmem : a ∈ slotsOf 2 ++ slotsOf 3 := by
      rcases hc with rfl | rfl
      · exact List.mem_append_left _ ha
      · exact List.mem_append_right _ ha
    rcases covered_slots hmem htype with hzero | ⟨hdata, hsize⟩
    · exact .inl hzero
    · refine .inr ⟨.last hdata, ?_⟩
      rw [List.length_singleton, Nat.one_mul]
      exact hsize

end Sample

/-- On the sample volume: one server has just mounted it, the other one has gone into
    its directory, printed a file there and come back. -/
theorem replies_alike_on_sample :
    ∃ s₁ s₂ r text s₁' s₂', Sample.volume.Serving s₁ ∧ Sample.volume.Serving s₂ ∧
      Returns (Command.ls (ascii "DIR")).run s₁ r s₁' ∧
      Returns (Command.ls (ascii "DIR")).run s₂ r s₂' ∧ s₁'.out = s₁.out ++ text ∧
      s₂'.out = s₂.out ++ text := by
  obtain ⟨s₂, ⟨s₁, hmount, b₁, hcd, b₂, hcat, _, hup, rfl⟩, hsector⟩ := exists_served
    (diskEnv Sample.volume.dev) [mountMessage, textMessage FAT32S_CD (ascii "DIR"),
      textMessage FAT32S_CAT (ascii "B.TXT"), textMessage FAT32S_CD (ascii "..")] 10
    (fun s => s.dirBuff.sector == 2) (by decide +kernel)
  rw [beq_iff_eq] at hsector
  have hcwd := (Sample.bootable.cwd_root Sample.isData.1 rfl rfl hmount).1
  have hfd : ∀ {s : Server}, s.deviceFd = s₁.deviceFd → s.deviceFd ≠ none := by
    intro s h
    rw [h, hcwd.on.dev]
    exact Option.some_ne_none _
  have hb₁ := (serve_answered rfl hcd).sameDisk.dev
  have hb₂ := (serve_answered rfl hcat).sameDisk.dev.trans hb₁
  have hs₂ := (serve_answered rfl hup).sameDisk.dev.trans hb₂
  have hserving₁ : Sample.volume.Serving s₁ := ⟨_, _, _, s₁, .init _, rfl, hmount, .start⟩
  have hserving₂ : Sample.volume.Serving s₂ := ⟨_, _, _, s₁, .init _, rfl, hmount,
    .serve (.serve (.serve .start hcd (hfd hb₁)) hcat (hfd hb₂)) hup (hfd hs₂)⟩
  have hsame : s₁.dirBuff.sector = s₂.dirBuff.sector := by
    apply UInt32.toNat_inj.mp
    rw [hsector, hcwd.sector]
    decide +kernel
  have hpath : (Command.ls (ascii "DIR")).HasPath := by
    rw [Command.HasPath]
    decide
  obtain ⟨⟨r, text, s₁', s₂', hls₁, hls₂, hout₁, hout₂, _⟩, _⟩ := replies_independent_of_history
    Sample.fileTree Sample.bootable hserving₁ hserving₂ hsame hpath
  exact ⟨s₁, s₂, r, text, s₁', s₂', hserving₁, hserving₂, hls₁, hls₂, hout₁, hout₂⟩

end Fat32s
