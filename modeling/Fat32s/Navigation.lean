/-
  Fat32s/Navigation.lean
  ======================
  **Where a session is can be read off its cd requests.**

  The server only knows the first cluster of the directory it is in, and pwd finds the
  path by going up the `..` entries.  On a volume whose directories form a tree, with
  names of their own, there is a second way to say where it is: read the texts of the
  cd requests that succeeded, one after the other, where `.` stays, `..` takes the last
  name off and any other name is put at the end.  The two agree over whole runs, and
  the text that pwd prints, without its first slash, leads from the root to the
  directory again.
-/
import Fat32s.Recovery
import Fat32s.UpAndDown

namespace Fat32s

open Fat32s.Lib Fat32s.Lib.Prog

/-! ### Paths as text -/

theorem ProperName.splitOn {q : Name} (h : ProperName q) : q.splitOn 0x2F = [q] :=
  List.splitOn_eq_singleton fun hmem => (h.chars _ hmem).2 rfl

theorem ProperName.components {q : Name} (h : ProperName q) : components q = [q] := by
  rw [Fat32s.components, h.splitOn]
  simp [h.ne_nil]

theorem components_spell {q : Name} {way : List Name} (hq : ProperName q)
    (hway : ∀ w ∈ way, ProperName w) : components (q ++ spell way) = q :: way := by
  induction way generalizing q with
  | nil => simpa [spell] using hq.components
  | cons w way ih =>
    obtain ⟨hw, hrest⟩ := List.forall_mem_cons.mp hway
    have hsplit : q ++ spell (w :: way) = q ++ 0x2F :: (w ++ spell way) := by
      simp [spell, ascii]
    rw [hsplit, components_append, hq.splitOn, ih hw hrest]
    rfl

/-- The names of a way can be read off its text. -/
theorem components_tail_spell {way : List Name} (hway : ∀ w ∈ way, ProperName w) :
    components (spell way).tail = way := by
  cases way with
  | nil => exact components_nil
  | cons w way =>
    obtain ⟨hw, hrest⟩ := List.forall_mem_cons.mp hway
    have htail : (spell (w :: way)).tail = w ++ spell way := by simp [spell, ascii]
    rw [htail, components_spell hw hrest]

theorem spell_chars {way : List Name} (hway : ∀ w ∈ way, ProperName w) :
    ∀ ch ∈ spell way, ch ≠ 0 := by
  intro ch hch
  obtain ⟨w, hw, hch⟩ := List.mem_flatMap.mp hch
  rcases List.mem_append.mp hch with hch | hch
  · have hall : ∀ ch ∈ ascii "/", ch ≠ 0 := by decide +kernel
    exact hall ch hch
  · exact ((hway w hw).chars ch hch).1

theorem cstr_spell {way : List Name} (hway : ∀ w ∈ way, ProperName w) :
    cstr (spell way) = spell way ∧ cstr (spell way).tail = (spell way).tail :=
  ⟨cstr_eq_self (spell_chars hway),
    cstr_eq_self fun ch hch => spell_chars hway ch (List.mem_of_mem_tail hch)⟩

/-! ### Whole runs -/

/-- How a request and its reply change the way to the current directory. -/
def trailStep (trail : Option (List Name)) (x : Request × Heard) : Option (List Name) :=
  if x.2.code ≠ OK then trail
  else
    match x.1.msg.command with
    | some (.cd path) => trail.map fun way => readNames way (components (cstr path))
    | some _ => trail
    | none =>
      if x.1.msg.callnr = FAT32S_MOUNT then some []
      else if x.1.msg.callnr = FAT32S_UNMOUNT then none
      else trail

/-- The way to the current directory as it appears from outside, `none` when nothing is
    mounted. -/
def trail (h : List (Request × Heard)) : Option (List Name) := h.foldl trailStep none

/-- What pwd answers on a way. -/
def trailHeard : Option (List Name) → Heard
  | none => ⟨EINVAL, ascii "FAT32S: Nothing is mounted.\n"⟩
  | some way => ⟨OK, if way = [] then ascii "/\n" else spell way ++ ascii "\n"⟩

/-- The session is in the directory that the way leads to. -/
inductive Session.Located : Session UInt32 → Option (List Name) → Prop
  | idle : Located .idle none
  | mounted {label : Name} {fs : FileSystem UInt32} {d : UInt32} (hd : fs.isDir d) :
      Located (.mounted label fs d) (some (fs.way d))

namespace Session

variable {σ : Session UInt32} {tr : Option (List Name)} {q : Request}

/-- A request that is answered with an error does not move the session. -/
theorem Located.refused {code : Int} (h : σ.Located tr) (hcode : code ≠ OK) (text : List UInt8) :
    σ.Located (trailStep tr (q, ⟨code, text⟩)) := by
  rw [trailStep, if_pos hcode]
  exact h

theorem Located.command {cmd : Command} (h : σ.Located tr) (hcmd : q.msg.command = some cmd) :
    (σ.command q.msg cmd).session.Located
      (trailStep tr (q, ⟨(σ.command q.msg cmd).code, (σ.command q.msg cmd).text⟩)) := by
  cases h with
  | idle => exact Located.idle.refused (by decide : EINVAL ≠ OK) _
  | @mounted label fs d hd =>
    have hhere : Located (.mounted label fs d) (some (fs.way d)) := .mounted hd
    unfold Session.command
    dsimp only
    by_cases hcopy : cmd.readsText = true ∧ q.msg.copyOk = false
    · rw [if_pos hcopy]
      rcases copyError_cases cmd with hcode | hcode
      · rw [hcode]
        exact hhere.refused (by decide : EFAULT ≠ OK) _
      · rw [hcode]
        exact hhere.refused (by decide : EINVAL ≠ OK) _
    rw [if_neg hcopy]
    by_cases hcd : ∃ path, cmd = .cd path
    · obtain ⟨path, rfl⟩ := hcd
      cases hgo : fs.goTo d (components (cstr path)) with
      | error e =>
        simp only [FileSystem.run, hgo]
        rcases FileSystem.goTo_error hgo with rfl | rfl
        · exact hhere.refused (by decide : ENOENT ≠ OK) _
        · exact hhere.refused (by decide : EINVAL ≠ OK) _
      | ok d' =>
        simp only [FileSystem.run, hgo]
        obtain ⟨hd', hway⟩ := fs.goTo_way hd hgo
        have htrail : ∀ text, trailStep (some (fs.way d))
            (q, ⟨(Command.verdict (.cd path) 0).1, text⟩) = some (fs.way d') := by
          intro text
          rw [trailStep, hcmd, hway]
          rfl
        rw [htrail]
        exact .mounted hd'
    · have hne : ∀ path, cmd ≠ .cd path := fun path hpath => hcd ⟨path, hpath⟩
      rw [fs.run_dir_of_ne_cd hne]
      have htrail : ∀ a, trailStep (some (fs.way d)) (q, a) = some (fs.way d) := by
        intro a
        unfold trailStep
        split
        · rfl
        · cases cmd with
          | cd path => exact (hne path rfl).elim
          | _ => rw [hcmd]
      rw [htrail]
      exact hhere

theorem Located.mount (h : σ.Located tr) (hcmd : q.msg.command = none)
    (hcall : q.msg.callnr = FAT32S_MOUNT) :
    (σ.mount q.volumes q.msg).session.Located (trailStep tr
      (q, ⟨(σ.mount q.volumes q.msg).code, (σ.mount q.volumes q.msg).text⟩)) := by
  cases h with
  | mounted hd => exact (Located.mounted hd).refused (by decide : EINVAL ≠ OK) _
  | idle =>
    unfold Session.mount
    dsimp only
    by_cases hcopy : q.msg.copyOk = false
    · rw [if_pos hcopy]
      exact Located.idle.refused (by decide : EINVAL ≠ OK) _
    rw [if_neg hcopy, Request.volumes]
    cases hdisk : q.disks q.msg.text with
    | none =>
      rw [Option.map_none]
      exact Located.idle.refused (by decide : EINVAL ≠ OK) _
    | some disk =>
      have htrail : ∀ text, trailStep none (q, ⟨OK, text⟩) = some [] := by
        intro text
        rw [trailStep, if_neg (by simp), hcmd, if_pos hcall]
      rw [Option.map_some]
      dsimp only
      rw [htrail, ← disk.tree.wayOf_root]
      exact .mounted disk.tree.root

theorem Located.unmount (h : σ.Located tr) (hcmd : q.msg.command = none)
    (hcall : q.msg.callnr = FAT32S_UNMOUNT) :
    (σ.unmount q.closeOk q.msg).session.Located (trailStep tr
      (q, ⟨(σ.unmount q.closeOk q.msg).code, (σ.unmount q.closeOk q.msg).text⟩)) := by
  cases h with
  | idle => exact Located.idle.refused (by decide : EINVAL ≠ OK) _
  | @mounted label fs d hd =>
    have hhere : Located (.mounted label fs d) (some (fs.way d)) := .mounted hd
    have hkeep := hhere.refused (q := q) (by decide : EINVAL ≠ OK)
    unfold Session.unmount
    dsimp only
    by_cases hcopy : q.msg.copyOk = false
    · rw [if_pos hcopy]
      exact hkeep _
    rw [if_neg hcopy]
    by_cases hlabel : label ≠ q.msg.text
    · rw [if_pos hlabel]
      exact hkeep _
    rw [if_neg hlabel]
    by_cases hclose : q.closeOk = false
    · rw [if_pos hclose]
      exact hkeep _
    rw [if_neg hclose]
    have htrail : trailStep (some (fs.way d)) (q, ⟨OK, []⟩) = none := by
      rw [trailStep, if_neg (by simp), hcmd, hcall]
      rfl
    rw [htrail]
    exact .idle

/-- One request, from any session. -/
theorem Located.step (h : σ.Located tr) :
    (σ.step q).2.Located (trailStep tr (q, (σ.step q).1)) := by
  unfold Session.step Session.serve
  cases hcmd : q.msg.command with
  | some cmd => exact h.command hcmd
  | none =>
    dsimp only
    have hkeep := h.refused (q := q) (by decide : EINVAL ≠ OK)
    by_cases hnotify : q.msg.callnr - 0x1000 < 0x100
    · rw [if_pos hnotify]
      exact hkeep _
    rw [if_neg hnotify]
    by_cases hmount : q.msg.callnr = FAT32S_MOUNT
    · rw [if_pos hmount]
      exact h.mount hcmd hmount
    rw [if_neg hmount]
    by_cases hunmount : q.msg.callnr = FAT32S_UNMOUNT
    · rw [if_pos hunmount]
      exact h.unmount hcmd hunmount
    rw [if_neg hunmount]
    exact hkeep _

theorem located_trail {h : List (Request × Heard)}
    (hrun : Serves (Computes Session.step) .idle h σ) : σ.Located (trail h) := by
  induction hrun with
  | none => exact .idle
  | @more h σ₁ σ₂ q a _ hstep ih =>
    unfold Computes at hstep
    have hnext := ih.step (q := q)
    rw [hstep] at hnext
    rw [trail, List.foldl_append]
    exact hnext

/-- What pwd answers is a matter of the way alone. -/
theorem Located.pwd (h : σ.Located tr) (hcmd : q.msg.command = some .pwd) :
    (σ.step q).1 = trailHeard tr := by
  cases h with
  | idle => simp [Session.step, Session.serve, hcmd, Session.command, Session.say, trailHeard]
  | @mounted label fs d hd =>
    have hspell : spell (fs.way d) = [] ↔ fs.way d = [] := by
      cases fs.way d with
      | nil => simp [spell]
      | cons q qs => simp [spell, ascii]
    simp [Session.step, Session.serve, hcmd, Session.command, Command.readsText, FileSystem.run,
      Command.verdict, trailHeard, pathLine, hspell]

end Session

/-- **pwd prints the way that the cd requests spell.**  After any run, the answer to a
    pwd can be computed from the texts of the cd requests that were answered with OK
    since the last mount, without looking at a disk. -/
theorem pwd_prints_trail (junk : Nat → Name) {h : List (Request × Heard)} {s : Server}
    {q : Request} (hlegal : ∀ x ∈ h, x.1.Legal)
    (hrun : Serves Server.step (Server.initial junk) h s) (hq : q.Legal)
    (hpwd : q.msg.command = some .pwd) :
    (∃ s', Server.step s q (trailHeard (trail h)) s') ∧
      ∀ a s', Server.step s q a s' → a = trailHeard (trail h) := by
  obtain ⟨σ, hspec, hs⟩ := refines_step.history (represents_initial junk) hlegal hrun
  have hheard := (Session.located_trail hspec).pwd hpwd
  have hsound : ∀ a s', Server.step s q a s' → a = trailHeard (trail h) := by
    intro a s' hstep
    have heq := (refines_step.sound hs hq hstep).1
    rw [← hheard, heq]
  obtain ⟨a, s', hstep⟩ := refines_step.live hs hq
  obtain rfl := hsound a s' hstep
  exact ⟨⟨s', hstep⟩, hsound⟩

namespace Sample

def pwdMessage : Message := textMessage FAT32S_PWD []

theorem legal_cd : (request (textMessage FAT32S_CD (ascii "DIR"))).Legal where
  len := by decide
  label := by decide
  path := by
    intro path h
    cases h

theorem legal_pwd : (request pwdMessage).Legal where
  len := by decide
  label := by decide
  path := by
    intro path h
    cases h

/-- A mount and `cd DIR`, with the answers of the session. -/
def cdHistory : List (Request × Heard) :=
  [(request mountMessage, (Session.idle.step (request mountMessage)).1),
    (request (textMessage FAT32S_CD (ascii "DIR")),
      ((Session.idle.step (request mountMessage)).2.step
        (request (textMessage FAT32S_CD (ascii "DIR")))).1)]

theorem legal_cdHistory : ∀ x ∈ cdHistory, x.1.Legal := by
  intro x hx
  rcases List.mem_cons.mp hx with rfl | hx
  · exact legal_mount
  · rw [List.mem_singleton.mp hx]
    exact legal_cd

theorem trail_cdHistory : trail cdHistory = some [ascii "DIR"] := by decide +kernel

theorem serves_cdHistory (junk : Nat → Name) :
    ∃ s, Serves Server.step (Server.initial junk) cdHistory s := by
  obtain ⟨a₁, s₁, hmount⟩ := refines_step.live (represents_initial junk) legal_mount
  obtain ⟨heq₁, hs₁⟩ := refines_step.sound (represents_initial junk) legal_mount hmount
  obtain ⟨a₂, s₂, hcd⟩ := refines_step.live hs₁ legal_cd
  obtain ⟨heq₂, _⟩ := refines_step.sound hs₁ legal_cd hcd
  obtain rfl := congrArg Prod.fst heq₁
  obtain rfl := congrArg Prod.fst heq₂
  exact ⟨s₂, (Serves.one hmount).append (Serves.one hcd)⟩

end Sample

theorem pwd_prints_sample_trail : ∃ s s',
    Serves Server.step (Server.initial fun _ => []) Sample.cdHistory s ∧
    Server.step s (Sample.request Sample.pwdMessage) ⟨OK, ascii "/DIR\n"⟩ s' := by
  obtain ⟨s, hrun⟩ := Sample.serves_cdHistory fun _ => []
  obtain ⟨⟨s', hpwd⟩, _⟩ := pwd_prints_trail (fun _ => []) Sample.legal_cdHistory hrun
    Sample.legal_pwd rfl
  rw [Sample.trail_cdHistory] at hpwd
  exact ⟨s, s', hrun, hpwd⟩

/-! ### Going back to where pwd was called -/

namespace Volume.OrderlyTree

variable {v : Volume} (t : v.OrderlyTree) {c : UInt32} {s s' s₀ : Server} {r : Int} {text : Name}

theorem text_of_pwd (hc : t.isDir c) (hs : s.Cwd v c) (hpwd : Returns pwd s r s')
    (htext : s'.out = s.out ++ (text ++ ascii "\n")) :
    text = if t.wayOf c = [] then ascii "/" else spell (t.wayOf c) := by
  have hcat : ∀ path, Command.pwd = .cat path → cstr path ≠ [] := fun _ h => by cases h
  obtain ⟨s₁, hret, _, _, hout⟩ := t.gives_run hc hs hcat
  obtain ⟨_, rfl⟩ := hret.unique hpwd
  rw [htext] at hout
  have hline := List.append_cancel_left hout
  change text ++ _ = pathLine (spell (t.wayOf c)) at hline
  rw [pathLine] at hline
  cases hway : t.wayOf c with
  | nil =>
    rw [hway] at hline
    exact List.append_cancel_right hline
  | cons q qs =>
    rw [hway, if_neg (by simp [spell, ascii])] at hline
    rw [if_neg (by simp)]
    exact List.append_cancel_right hline

/-- Neither the text nor what follows its slash is cut short. -/
theorem components_text (hc : t.isDir c)
    (htext : text = if t.wayOf c = [] then ascii "/" else spell (t.wayOf c)) :
    components (cstr text) = [] :: t.wayOf c ∧ components (cstr text.tail) = t.wayOf c := by
  have hnames := (t.fileSystem.goTo_root hc).2
  change ∀ q ∈ t.wayOf c, ProperName q at hnames
  cases hway : t.wayOf c with
  | nil =>
    rw [htext, hway]
    decide
  | cons q qs =>
    rw [hway] at hnames
    rw [hway, if_neg (by simp)] at htext
    obtain ⟨hcut, hcut'⟩ := cstr_spell hnames
    have hslash : spell (q :: qs) = 0x2F :: (spell (q :: qs)).tail := by simp [spell, ascii]
    rw [htext, hcut', hcut, components_tail_spell hnames]
    refine ⟨?_, rfl⟩
    rw [hslash, components_slash, components_tail_spell hnames]

end Volume.OrderlyTree

/-- **From the root, the text that pwd printed leads back**, once its slash is taken off.
    With the slash it leads nowhere, from the root or from any other directory. -/
theorem cd_of_pwd_text {v : Volume} (t : v.OrderlyTree) {c c₀ : UInt32} {s s' s₀ s₁ : Server}
    {r : Int} {text : Name} (hc : t.isDir c) (hs : s.Cwd v c) (hpwd : Returns pwd s r s')
    (htext : s'.out = s.out ++ (text ++ ascii "\n")) (hroot : s₀.Cwd v v.bpb.rootCluster)
    (hc₀ : t.isDir c₀) (hs₁ : s₁.Cwd v c₀) :
    (∃ s₂, Returns (cd text.tail) s₀ 0 s₂ ∧ s.SamePlace s₂) ∧
      ∃ s₂, Returns (cd text) s₁ 1 s₂ ∧ s₁.SamePlace s₂ := by
  have hspelled := t.text_of_pwd hc hs hpwd htext
  obtain ⟨habsolute, hrelative⟩ := t.components_text hc hspelled
  have hcat : ∀ q path, Command.cd q = .cat path → cstr path ≠ [] := fun _ _ h => by cases h
  constructor
  · obtain ⟨s₂, hret, hcwd, _⟩ := t.gives_run t.root hroot (hcat text.tail)
    have hgo : t.fileSystem.goTo v.bpb.rootCluster (t.wayOf c) = .ok c :=
      (t.fileSystem.goTo_root hc).1
    simp only [FileSystem.run, hrelative, hgo] at hret hcwd
    exact ⟨s₂, hret, hs.samePlace hcwd⟩
  · obtain ⟨s₂, hret, hcwd, _⟩ := t.gives_run hc₀ hs₁ (hcat text)
    have hnone : t.fileSystem.find c₀ [] = none := by
      rw [FileSystem.find, List.find?_eq_none]
      intro e he
      obtain ⟨x, hx, rfl⟩ := List.mem_map.mp he
      exact fun hname => t.nonempty hc₀ hx (of_decide_eq_true hname)
    have hgo : t.fileSystem.goTo c₀ ([] :: t.wayOf c) = .error 1 := by
      rw [FileSystem.goTo, hnone]
    simp only [FileSystem.run, habsolute, hgo] at hret hcwd
    exact ⟨s₂, hret, hs₁.samePlace hcwd⟩

/-- From `DIR` of the sample volume. -/
theorem cd_of_sample_pwd_text : ∃ s s' s₀ s₂ s₃ : Server, s.Cwd Sample.volume 3 ∧
    Returns pwd s OK s' ∧ s'.out = s.out ++ (ascii "/DIR" ++ ascii "\n") ∧
    s₀.Cwd Sample.volume 2 ∧ Returns (cd (ascii "DIR")) s₀ 0 s₂ ∧ s.SamePlace s₂ ∧
    Returns (cd (ascii "/DIR")) s₀ 1 s₃ ∧ s₀.SamePlace s₃ := by
  obtain ⟨s₀, _, hcwd, _⟩ := Sample.mounted fun _ => []
  have hdir : (s₀.toDrive.jump (s₀.firstSectorOfCluster 3)).Cwd Sample.volume 3 :=
    ⟨hcwd.on.jump _, hcwd.on.at_jump_cluster Sample.isData.2.1⟩
  have hcat : ∀ path, Command.pwd = .cat path → cstr path ≠ [] := fun _ h => by cases h
  obtain ⟨s', hpwd, _, _, hout⟩ := Sample.orderlyTree.gives_run
    (s := { s₀ with toDrive := s₀.toDrive.jump (s₀.firstSectorOfCluster 3) }) (.inr rfl) hdir hcat
  have hline : (Sample.orderlyTree.fileSystem.run 3 .pwd).text = ascii "/DIR" ++ ascii "\n" := by
    decide +kernel
  rw [hline] at hout
  obtain ⟨⟨s₂, hcd, hsame⟩, s₃, hcd', hsame'⟩ := cd_of_pwd_text Sample.orderlyTree (.inr rfl) hdir
    hpwd hout hcwd (.inl rfl) hcwd
  exact ⟨_, s', s₀, s₂, s₃, hdir, hpwd, hout, hcwd, hcd, hsame, hcd', hsame'⟩

end Fat32s
