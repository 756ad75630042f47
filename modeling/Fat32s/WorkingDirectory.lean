/-
  Fat32s/WorkingDirectory.lean
  ============================
  **The working directory is always a directory of the tree.**

  On a volume whose directories form a tree every command returns, whatever path
  it is given.  It leaves the cursor at the first slot of a directory of the tree
  and the rollback stack as it was: ls, cat, stat and pwd come back to the
  directory they started in, and so does a cd that fails.
-/
import Fat32s.Hierarchy

namespace Fat32s

open Fat32s.Lib Fat32s.Lib.Prog

variable {v : Volume} {d d' : Drive} {s s' : Server} {c : UInt32} {r : Int}

/-- A jump to the first sector of a cluster. -/
theorem Drive.JumpedTo.cwd {sector : UInt32} (h : d.JumpedTo sector) (hon : d.On v)
    (hlt : sector.toNat < v.total) (hsector : sector.toNat = v.firstSector c) : d.Cwd v c := by
  obtain ⟨d₀, rfl⟩ := h
  have hload : ((d₀.seek sector 0).load sector).On v := ⟨hon.bpb, hon.dev, hon.fds, hon.coherent⟩
  have hat := Drive.at_jump hlt hload
  rw [hsector] at hat
  exact ⟨hon, hat⟩

/-- Back to the sector where the cursor was. -/
theorem Drive.Cwd.back (hd : d.Cwd v c) (h : d'.JumpedTo d.dirBuff.sector) (hon : d'.On v) :
    d'.Cwd v c :=
  h.cwd hon hd.sector_lt hd.sector

namespace Volume.DirTree

variable (t : v.DirTree)

/-- A round of pwd leads to the parent. -/
theorem climbed {w w' : PwdVars} (hc : t.isDir c) (hs : s.Cwd v c)
    (h : Climbed w s (.inl w') s') :
    c ≠ v.bpb.rootCluster ∧ s'.Cwd v (t.parent c) ∧ w'.clusterId = t.parent c := by
  cases h with
  | @up d₁ d₂ name _ _ hfind hlisted hdrive _ _ hid' =>
    obtain ⟨hne, hparent⟩ := t.climb hc hs hfind
    have hup := (t.up hc hne).1
    obtain ⟨_, _, _, hon, _⟩ := (t.lists hup).lands hparent hlisted.finds
    have hback : s'.Cwd v (t.parent c) := by
      refine hparent.back ⟨d₂, ?_⟩ ?_
      · rw [Drive.jump_sector]
        exact hdrive
      · rw [hdrive]
        exact hon.jump _
    have hsector : s'.dirBuff.sector = d₁.hopSector := by rw [hdrive, Drive.jump_sector]
    rw [hid', ← hsector]
    exact ⟨hne, hback, t.clusterOf_cwd hup hback⟩

/-- The way up from a directory is complete. -/
theorem climbs (hc : t.isDir c) (hd : d.Cwd v c) (junk : Nat → Name) : Climbs d junk c := by
  -- induction on the depth of the directory
  generalize hn : t.depth c = n
  induction n using Nat.strongRecOn generalizing c d junk with
  | ind n ih =>
    obtain ⟨d₁, hfind | hmiss⟩ := (t.lists hc).searches hd (junk 0) (goesBy (ascii ".."))
    · obtain ⟨hne, hparent⟩ := t.climb hc hd hfind
      obtain ⟨hup, hdepth⟩ := t.up hc hne
      obtain ⟨d₂, hlisted⟩ := t.finds_child hc hne hparent (junk 1)
      obtain ⟨_, _, _, hon, _⟩ := (t.lists hup).lands hparent hlisted
      have hback : (d₂.jump d₁.hopSector).Cwd v (t.parent c) :=
        hparent.back ⟨d₂, by rw [Drive.jump_sector]⟩ (hon.jump _)
      have hid := t.clusterOf_cwd hup hback
      rw [Drive.jump_sector] at hid
      have hrest := ih (t.depth (t.parent c)) (by omega) hup hback (fun n => junk (n + 2)) rfl
      exact .up hfind hlisted (by rw [hid]; exact hrest)
    · exact .top hmiss

/-- Every command comes to an end. -/
theorem ends (hc : t.isDir c) (hs : s.Cwd v c) (cmd : Command) : cmd.Ends s := by
  have hwalk : ∀ path flags, ∃ o, s.WalksTo path flags o := fun path flags =>
    t.walks _ _ s.scratch.junk (endsFlagged_segments _) hc hs
  cases cmd with
  | pwd =>
    have hid := t.clusterOf_cwd hc hs
    rw [Command.Ends, hid]
    exact (t.climbs hc hs _).ends
  | cd path => exact hwalk path _
  | cat path => exact hwalk path _
  | ls path =>
    rw [Command.Ends]
    split
    · exact (t.lists hc).listsAll hs
    · obtain ⟨o, hwalks⟩ := hwalk path WALK_BAN_FILES
      refine ⟨o, hwalks, ?_⟩
      intro d' junk' ho
      subst ho
      obtain ⟨c', hc', hd'⟩ := t.walks_arrives hwalks hc hs
      exact (t.lists hc').listsAll hd'
  | stat path =>
    rw [Command.Ends]
    split
    · exact (t.lists hc).searches hs _ _
    · rename_i i _
      obtain ⟨o, hwalks⟩ := hwalk (path.take i) WALK_BAN_FILES
      refine ⟨o, hwalks, ?_⟩
      intro d' junk' ho
      subst ho
      obtain ⟨c', hc', hd'⟩ := t.walks_arrives hwalks hc hs
      exact (t.lists hc').searches hd' _ _

/-- And leaves the server in a directory of the tree. -/
theorem cwd_of_returns {cmd : Command} (hc : t.isDir c) (hs : s.Cwd v c)
    (h : Returns cmd.run s r s') : (∃ c', t.isDir c' ∧ s'.Cwd v c') ∧ s'.stack = s.stack := by
  have hon : s'.On v := ((stable_on v).command cmd).returns h hs.on
  have hback : s'.Back s.dirBuff.sector s.stack →
      (∃ c', t.isDir c' ∧ s'.Cwd v c') ∧ s'.stack = s.stack :=
    fun hback => ⟨⟨c, hc, hs.back hback.cursor hon⟩, hback.stack⟩
  cases cmd with
  | pwd =>
    rcases pwd_cases h with ⟨_, hrestored⟩ | ⟨hlost, _⟩
    · exact hback hrestored
    · refine (hlost ?_).elim
      rw [Server.ClimbsUp, t.clusterOf_cwd hc hs]
      exact t.climbs hc hs _
  | cd path =>
    have hwalked := cd_cases h
    refine ⟨?_, hwalked.stack⟩
    by_cases hr : r = 0
    · have hwalks := walksTo_of_cd h
      rw [hr, arrival_of_zero] at hwalks
      exact t.walks_arrives hwalks hc hs
    · exact ⟨c, hc, hs.back (hwalked.failed hr) hon⟩
  | ls path => exact hback (ls_cases h)
  | cat path => exact hback (cat_cases h)
  | stat path => exact hback (stat_cases h)

end Volume.DirTree

/-! ### Sessions -/

section session

variable {s₀ : Server} {env : Env} {m : Message}

theorem Volume.DirTree.cwd_answered (t : v.DirTree) {cmd : Command} (h : Answered cmd s s')
    (hs : (∃ c, t.isDir c ∧ s.Cwd v c) ∧ s.stack = []) :
    (∃ c, t.isDir c ∧ s'.Cwd v c) ∧ s'.stack = [] := by
  cases h with
  | refused text => exact hs
  | ran text _ hrun =>
    obtain ⟨⟨c, hc, hcwd⟩, hstack⟩ := hs
    obtain ⟨hcwd', hstack'⟩ := t.cwd_of_returns hc hcwd hrun
    exact ⟨hcwd', hstack'.trans hstack⟩

/-- **The working directory over whole runs.**  After any requests that follow a
    mount of the volume the cursor stands at the first slot of a directory of the
    tree, with nothing on the stack, and the next command returns as well. -/
theorem working_directory_in_tree (t : v.DirTree) (hboot : v.Bootable) (hs₀ : Reachable s₀)
    (hopen : env.openDevice m.text = some v.dev) (hmount : Returns (doMount env m) s₀ OK s)
    (hrun : Requests (fun _ _ => True) s s') :
    (∃ c, t.isDir c ∧ s'.dirBuff.sector.toNat = v.firstSector c ∧ s'.dirBuff.offset = 0 ∧
      s'.dirBuff.de.type = (v.slot (v.base c)).dirType ∧ s'.sp = 0) ∧
    ∀ cmd : Command, ∃ r s'', Returns cmd.run s' r s'' := by
  have hmounted : s.Cwd v v.bpb.rootCluster ∧ s.stack = [] := by
    refine hboot.cwd_root (t.isData t.root) ?_ hopen hmount
    rw [(hs₀.idle_of_doMount hmount).fsData]
  have hready : s.Ready := by
    refine ready_of_doMount hs₀ hmount (usable_of_doMount hmount ?_)
    rw [hmounted.1.on.bpb]
    exact v.bps_mem
  have hinv : ((∃ c, t.isDir c ∧ s'.Cwd v c) ∧ s'.stack = []) ∧ s'.Ready := by
    induction hrun with
    | none => exact ⟨⟨⟨_, t.root, hmounted.1⟩, hmounted.2⟩, hready⟩
    | more _ hcmd _ hserve ih =>
      have hanswer := serve_answered hcmd hserve
      exact ⟨t.cwd_answered hanswer ih.1, hanswer.ready ih.2⟩
  obtain ⟨⟨⟨c, hc, hcwd⟩, hstack⟩, hready'⟩ := hinv
  refine ⟨⟨c, hc, hcwd.sector, hcwd.offset, hcwd.cursor.type, ?_⟩, fun cmd => ?_⟩
  · rw [Server.sp, hstack]
    rfl
  · exact (hready'.returns_iff_ends cmd).mpr (t.ends hc hcwd cmd)

/-- On the sample volume: a cd into the directory. -/
theorem working_directory_in_sample_tree :
    ∃ s s₁, Returns (doMount (diskEnv Sample.volume.dev) mountMessage)
        (Server.initial fun _ => []) OK s ∧
      Returns (serve (diskEnv Sample.volume.dev) (textMessage FAT32S_CD (ascii "DIR"))) s OK s₁ ∧
      s₁.dirBuff.sector = 3 ∧ s₁.dirBuff.offset = 0 ∧ s₁.sp = 0 := by
  obtain ⟨s₁, ⟨s, hmount, _, hcd, rfl⟩, hsector⟩ := exists_served (diskEnv Sample.volume.dev)
    [mountMessage, textMessage FAT32S_CD (ascii "DIR")] 10 (fun s => s.dirBuff.sector == 3)
    (by decide +kernel)
  rw [beq_iff_eq] at hsector
  obtain ⟨⟨c, _, _, hoffset, _, hsp⟩, _⟩ := working_directory_in_tree Sample.tree Sample.bootable
    (.init _) rfl hmount (.more .none rfl trivial hcd)
  exact ⟨s, s₁, hmount, hcd, hsector, hoffset, hsp⟩

end session

end Fat32s
