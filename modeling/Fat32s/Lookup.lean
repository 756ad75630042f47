/-
  Fat32s/Lookup.lean
  ==================
  **Lookups on any disk.**

  `Finds` and `Misses` say how the search for an entry ends, as a property of
  the drive alone.  With them each round of `walk` and of `_pwd` is described by
  the ways it can go, `Visited` and `Climbed`, whatever the disk holds: where the
  cursor ends up and what is on the rollback stack.
-/
import Fat32s.Walk

namespace Fat32s

open Fat32s.Lib Fat32s.Lib.Prog

variable {s s' : Server} {r : Int}

/-! ### Searching a directory -/

/-- The search that starts at the cursor of `d`, with `junk` in its buffer, stops
    at an entry that goes by `name`, the first one for which `p` holds; the cursor
    is then `d'`. -/
def Drive.FindsAs (d : Drive) (junk : Name) (p : DirEntry → Name → Prop) (d' : Drive)
    (name : Name) : Prop :=
  ∃ es, Steps d es d' ∧ (∀ x ∈ named ⟨junk, []⟩ es, ¬ p x.1 x.2) ∧ d'.dirBuff.de.type = .short ∧
    p d'.dirBuff.de name ∧ name = ((Names.after ⟨junk, []⟩ es).own d'.dirBuff.de).full

def Drive.Finds (d : Drive) (junk : Name) (p : DirEntry → Name → Prop) (d' : Drive) : Prop :=
  ∃ name, d.FindsAs junk p d' name

/-- The search comes to an empty slot and has met no entry for which `p` holds. -/
def Drive.Misses (d : Drive) (junk : Name) (p : DirEntry → Name → Prop) (d' : Drive) : Prop :=
  ∃ es, Steps d es d' ∧ (∀ x ∈ named ⟨junk, []⟩ es, ¬ p x.1 x.2) ∧
    d'.dirBuff.de.type = .undefined

def goesBy (query : Name) (_ : DirEntry) (name : Name) : Prop := name = query
def startsAt (clusterId : UInt32) (de : DirEntry) (_ : Name) : Prop := de.u.clusterId = clusterId

/-- What a search leaves of the session: only the drive and the name buffers change. -/
structure Server.Looked (s : Server) (d : Drive) (s' : Server) : Prop where
  eq : s' = { s with toDrive := d, scratch := s'.scratch }
  junk : s'.scratch.junk = fun n => s.scratch.junk (n + 1)

namespace Server.Looked

variable {d : Drive} (h : s.Looked d s')

include h

theorem drive : s'.toDrive = d := by rw [h.eq]

theorem stack : s'.stack = s.stack := by rw [h.eq]

theorem out : s'.out = s.out := by rw [h.eq]

end Server.Looked

/-- The position of the last hop is the same. -/
structure Server.SameHop (s s' : Server) : Prop where
  sector : s'.lastHopSector = s.lastHopSector
  offset : s'.lastHopOffset = s.lastHopOffset

theorem Server.Looked.sameHop {d : Drive} (h : s.Looked d s') : s.SameHop s' :=
  ⟨by rw [h.eq], by rw [h.eq]⟩

theorem Names.record_junk (names : Names) (de : DirEntry) (sc : Scratch) :
    (names.record de sc).junk = sc.junk := by
  unfold Names.record
  cases de.type with
  | undefined => rfl
  | long => rfl
  | short =>
    dsimp only
    split
    · rfl
    · rfl

theorem recordAll_junk (names : Names) (es : List DirEntry) (sc : Scratch) :
    (recordAll names es sc).junk = sc.junk := by
  induction es generalizing names sc with
  | nil => rfl
  | cons de es ih => rw [recordAll, ih, Names.record_junk]

theorem Server.looked_scanned (s : Server) (es : List DirEntry) (d : Drive) :
    s.Looked d (s.declared.scanned noText s.freshNames es d) where
  eq := by simp [Server.scanned, Server.declared]
  junk := recordAll_junk _ _ _

theorem findChild_cases {query : Name} (h : Returns (findChild query) s r s') :
    ∃ d, s.Looked d s' ∧
      ((r = 0 ∧ s.Finds (s.scratch.junk 0) (goesBy query) d) ∨
        (r = 1 ∧ s.Misses (s.scratch.junk 0) (goesBy query) d)) := by
  obtain ⟨es, d, hsteps, hnone, hend, rfl⟩ := returns_findChild.mp h
  refine ⟨d, s.looked_scanned es d, ?_⟩
  rcases hend with ⟨rfl, htype⟩ | ⟨rfl, htype, hname⟩
  · exact .inr ⟨rfl, es, hsteps, hnone, htype⟩
  · exact .inl ⟨rfl, _, es, hsteps, hnone, htype, hname, rfl⟩

theorem findChildByClusterId_cases {id : UInt32} {found : Name × Int}
    (h : Returns (findChildByClusterId id) s found s') :
    ∃ d, s.Looked d s' ∧
      ((found.2 = 0 ∧ s.FindsAs (s.scratch.junk 0) (startsAt id) d found.1) ∨
        (found.2 = 1 ∧ s.Misses (s.scratch.junk 0) (startsAt id) d)) := by
  obtain ⟨es, d, hsteps, hnone, hend, rfl⟩ := returns_findChildByClusterId.mp h
  refine ⟨d, s.looked_scanned es d, ?_⟩
  rcases hend with ⟨hr, htype, _⟩ | ⟨hr, htype, hid, hname⟩
  · exact .inr ⟨hr, es, hsteps, hnone, htype⟩
  · exact .inl ⟨hr, es, hsteps, hnone, htype, hid, hname⟩

/-! A search has at most one end. -/

theorem Steps.compare {d d₁ d₂ : Drive} {es es' : List DirEntry} (h : Steps d es d₁)
    (h' : Steps d es' d₂) :
    (∃ fs, es' = es ++ fs ∧ Steps d₁ fs d₂) ∨ ∃ fs, es = es' ++ fs ∧ Steps d₂ fs d₁ := by
  induction h generalizing es' with
  | refl d => exact .inl ⟨es', rfl, h'⟩
  | step htype hnext hrest ih =>
    cases h' with
    | refl _ => exact .inr ⟨_, rfl, .step htype hnext hrest⟩
    | step _ hnext' hrest' =>
      obtain ⟨rfl, rfl⟩ := hnext.unique hnext'
      rcases ih hrest' with ⟨fs, rfl, hfs⟩ | ⟨fs, rfl, hfs⟩
      · exact .inl ⟨fs, rfl, hfs⟩
      · exact .inr ⟨fs, rfl, hfs⟩

section unique

variable {d d₁ d₂ : Drive} {junk : Name} {p : DirEntry → Name → Prop}

/-- Where a search ends nothing can follow. -/
theorem search_stops {es fs : List DirEntry}
    (hend : d₁.dirBuff.de.type = .undefined ∨ (d₁.dirBuff.de.type = .short ∧
      p d₁.dirBuff.de ((Names.after ⟨junk, []⟩ es).own d₁.dirBuff.de).full))
    (hnone : ∀ x ∈ named ⟨junk, []⟩ (es ++ fs), ¬ p x.1 x.2) (h : Steps d₁ fs d₂) :
    fs = [] ∧ d₁ = d₂ := by
  cases h with
  | refl _ => exact ⟨rfl, rfl⟩
  | step htype _ _ =>
    rcases hend with hundef | ⟨hshort, hp⟩
    · exact (htype hundef).elim
    · rw [named_append, named_cons_short hshort] at hnone
      exact (hnone _ (List.mem_append_right _ List.mem_cons_self) hp).elim

theorem search_unique {es es' : List DirEntry} (h₁ : Steps d es d₁) (h₂ : Steps d es' d₂)
    (hnone₁ : ∀ x ∈ named ⟨junk, []⟩ es, ¬ p x.1 x.2)
    (hnone₂ : ∀ x ∈ named ⟨junk, []⟩ es', ¬ p x.1 x.2)
    (hend₁ : d₁.dirBuff.de.type = .undefined ∨ (d₁.dirBuff.de.type = .short ∧
      p d₁.dirBuff.de ((Names.after ⟨junk, []⟩ es).own d₁.dirBuff.de).full))
    (hend₂ : d₂.dirBuff.de.type = .undefined ∨ (d₂.dirBuff.de.type = .short ∧
      p d₂.dirBuff.de ((Names.after ⟨junk, []⟩ es').own d₂.dirBuff.de).full)) :
    es = es' ∧ d₁ = d₂ := by
  rcases h₁.compare h₂ with ⟨fs, rfl, hfs⟩ | ⟨fs, rfl, hfs⟩
  · obtain ⟨rfl, hd⟩ := search_stops hend₁ hnone₂ hfs
    exact ⟨(List.append_nil es).symm, hd⟩
  · obtain ⟨rfl, hd⟩ := search_stops hend₂ hnone₁ hfs
    exact ⟨List.append_nil es', hd.symm⟩

theorem Drive.FindsAs.finds {name : Name} (h : d.FindsAs junk p d₁ name) : d.Finds junk p d₁ :=
  ⟨name, h⟩

theorem Drive.FindsAs.unique {name₁ name₂ : Name} (h₁ : d.FindsAs junk p d₁ name₁)
    (h₂ : d.FindsAs junk p d₂ name₂) : d₁ = d₂ ∧ name₁ = name₂ := by
  obtain ⟨es, hsteps, hnone, htype, hp, rfl⟩ := h₁
  obtain ⟨es', hsteps', hnone', htype', hp', rfl⟩ := h₂
  obtain ⟨rfl, rfl⟩ :=
    search_unique hsteps hsteps' hnone hnone' (.inr ⟨htype, hp⟩) (.inr ⟨htype', hp'⟩)
  exact ⟨rfl, rfl⟩

theorem Drive.FindsAs.shown_name {name : Name} (h : d.FindsAs junk p d₁ name) :
    shown name = name := by
  obtain ⟨es, _, _, htype, _, rfl⟩ := h
  exact Names.shown_own (Names.shown_after rfl es) htype

theorem Drive.Finds.type_eq (h : d.Finds junk p d₁) : d₁.dirBuff.de.type = .short := by
  obtain ⟨_, _, _, _, htype, _⟩ := h
  exact htype

theorem Drive.Finds.not_misses (h : d.Finds junk p d₁) : ¬ d.Misses junk p d₂ := by
  intro hmiss
  obtain ⟨_, es, hsteps, hnone, htype, hp, rfl⟩ := h
  obtain ⟨es', hsteps', hnone', htype'⟩ := hmiss
  obtain ⟨_, rfl⟩ := search_unique hsteps hsteps' hnone hnone' (.inr ⟨htype, hp⟩) (.inl htype')
  rw [htype] at htype'
  cases htype'

theorem Drive.Finds.unique (h₁ : d.Finds junk p d₁) (h₂ : d.Finds junk p d₂) : d₁ = d₂ := by
  obtain ⟨_, h₁⟩ := h₁
  obtain ⟨_, h₂⟩ := h₂
  exact (h₁.unique h₂).1

end unique

/-! ### Moving and coming back -/

@[simp] theorem Drive.jump_bpb (d : Drive) (sector : UInt32) : (d.jump sector).bpb = d.bpb := by
  simp [Drive.jump, Drive.parse, Drive.seek]

@[simp] theorem Drive.jump_sector (d : Drive) (sector : UInt32) :
    (d.jump sector).dirBuff.sector = sector := by
  simp [Drive.jump, Drive.parse, Drive.seek]

@[simp] theorem Drive.jump_offset (d : Drive) (sector : UInt32) :
    (d.jump sector).dirBuff.offset = 0 := by
  simp [Drive.jump, Drive.parse, Drive.seek]

theorem Drive.jump_firstSectorOfCluster (d : Drive) (sector c : UInt32) :
    (d.jump sector).firstSectorOfCluster c = d.firstSectorOfCluster c := by
  simp [Drive.jump, Drive.parse, Drive.seek, Drive.firstSectorOfCluster]

/-- The sector that the entry under the cursor leads to. -/
def Drive.hopSector (d : Drive) : UInt32 := d.firstSectorOfCluster d.hopCluster

/-- The server once it has hopped from the cursor of `d`, which a search in `s` found. -/
structure Server.Entered (s : Server) (d : Drive) (s' : Server) : Prop where
  drive : s'.toDrive = d.jump d.hopSector
  stack : s'.stack = s.stack
  junk : s'.scratch.junk = fun n => s.scratch.junk (n + 1)
  lastSector : s'.lastHopSector = d.dirBuff.sector
  lastOffset : s'.lastHopOffset = d.dirBuff.offset
  out : s'.out = s.out

theorem Server.Looked.hop_cases {d : Drive} {s₁ : Server} (h : s.Looked d s₁)
    (hshort : d.dirBuff.de.type = .short) (hhop : Returns hop s₁ r s') : s.Entered d s' := by
  have hdrive := h.drive
  obtain ⟨_, _, rfl⟩ := (returns_hop (by rw [hdrive]; exact hshort)).mp hhop
  exact ⟨by rw [hdrive]; rfl, h.stack, h.junk, by rw [hdrive], by rw [hdrive], h.out⟩

/-- `walk` goes on from an entry: a directory in the middle of the path, and at
    its end whatever the flags do not ban. -/
def passes (banFiles banDirs more isDir : Bool) : Bool :=
  !((more && !isDir) || (!more && ((banDirs && isDir) || (banFiles && !isDir))))

/-- The ways in which `walk` can treat a segment. -/
inductive Visited (banFiles banDirs : Bool) (segment : Name) (more : Bool) (s : Server) :
    Option Int → Server → Prop
  | missing {d : Drive} {sector : UInt32} {s' : Server}
      (hmiss : s.Misses (s.scratch.junk 0) (goesBy segment) d)
      (hstack : s.stack = sector :: s'.stack) (hdrive : s'.toDrive = d.jump sector)
      (hlast : s.SameHop s') :
      Visited banFiles banDirs segment more s (some 1) s'
  | barred {d : Drive} {sector : UInt32} {s' : Server}
      (hfind : s.Finds (s.scratch.junk 0) (goesBy segment) d)
      (hpass : passes banFiles banDirs more d.dirBuff.de.isDirectory = false)
      (hstack : s.stack = sector :: s'.stack) (hdrive : s'.toDrive = d.jump sector)
      (hlast : s.SameHop s') :
      Visited banFiles banDirs segment more s (some 2) s'
  | entered {d : Drive} {s' : Server} (hfind : s.Finds (s.scratch.junk 0) (goesBy segment) d)
      (hpass : passes banFiles banDirs more d.dirBuff.de.isDirectory = true)
      (henter : s.Entered d s') : Visited banFiles banDirs segment more s none s'

theorem visit_cases {banFiles banDirs more : Bool} {segment : Name} {o : Option Int}
    (h : Returns (visit banFiles banDirs segment more) s o s') :
    Visited banFiles banDirs segment more s o s' := by
  obtain ⟨status, s₁, hsearch, h⟩ := returns_bind.mp h
  obtain ⟨d, hlook, hend⟩ := findChild_cases hsearch
  have hdrive := hlook.drive
  have hback : ∀ {t : Option Int}, Returns (do rollback; return t : ServerM (Option Int)) s₁ o s' →
      o = t ∧ ∃ sector, s.stack = sector :: s'.stack ∧ s'.toDrive = d.jump sector ∧
        s.SameHop s' := by
    intro t h
    obtain ⟨_, _, hroll, hret⟩ := returns_bind.mp h
    obtain ⟨sector, rest, hstack, _, rfl⟩ := returns_rollback.mp hroll
    obtain ⟨rfl, rfl⟩ := returns_pure.mp hret
    exact ⟨rfl, sector, hlook.stack.symm.trans hstack, by rw [hdrive], hlook.sameHop.sector,
      hlook.sameHop.offset⟩
  rcases hend with ⟨rfl, hfind⟩ | ⟨rfl, hmiss⟩
  · simp only [ne_eq, not_true_eq_false, if_false, returns_globals_bind, hdrive] at h
    cases hpass : passes banFiles banDirs more d.dirBuff.de.isDirectory with
    | false =>
      rw [passes, Bool.not_eq_false'] at hpass
      rw [if_pos hpass] at h
      obtain ⟨rfl, sector, hstack, hs, hlast⟩ := hback h
      exact .barred hfind (by rw [passes, hpass]; rfl) hstack hs hlast
    | true =>
      rw [passes, Bool.not_eq_true'] at hpass
      rw [hpass, if_neg Bool.false_ne_true] at h
      obtain ⟨_, _, hhop, hret⟩ := returns_bind.mp h
      obtain ⟨rfl, rfl⟩ := returns_pure.mp hret
      exact .entered hfind (by rw [passes, hpass]; rfl) (hlook.hop_cases hfind.type_eq hhop)
  · rw [if_pos (by decide)] at h
    obtain ⟨rfl, sector, hstack, hs, hlast⟩ := hback h
    exact .missing hmiss hstack hs hlast

/-! ### One round of pwd -/

/-- The ways in which a round of `_pwd` can go. -/
inductive Climbed (w : PwdVars) (s : Server) : PwdVars ⊕ Int → Server → Prop
  | top {d : Drive} {sector : UInt32} {s' : Server}
      (hmiss : s.Misses (s.scratch.junk 0) (goesBy (ascii "..")) d)
      (hstack : s.stack = sector :: s'.stack) (hdrive : s'.toDrive = d.jump sector)
      (hout : s'.out = s.out ++
        shown (if w.fullPath = [] then ascii "/\n" else w.fullPath ++ ascii "\n"))
      (hlast : s.SameHop s') : Climbed w s (.inr OK) s'
  | lost {d d₁ : Drive} {s' : Server} (hfind : s.Finds (s.scratch.junk 0) (goesBy (ascii "..")) d)
      (hmiss : (d.jump d.hopSector).Misses (s.scratch.junk 1) (startsAt w.clusterId) d₁)
      (hstack : s'.stack = d.hopSector :: s.stack) (hdrive : s'.toDrive = d₁) :
      Climbed w s (.inr (-1)) s'
  | up {d d₁ : Drive} {name : Name} {s' : Server} {w' : PwdVars}
      (hfind : s.Finds (s.scratch.junk 0) (goesBy (ascii "..")) d)
      (hlisted : (d.jump d.hopSector).FindsAs (s.scratch.junk 1) (startsAt w.clusterId) d₁ name)
      (hdrive : s'.toDrive = d₁.jump d.hopSector) (hstack : s'.stack = s.stack)
      (hjunk : s'.scratch.junk = fun n => s.scratch.junk (n + 2))
      (hid : w'.clusterId = s'.clusterOf d.hopSector)
      (hpath : w'.fullPath = ascii "/" ++ (name ++ w.fullPath)) (hout : s'.out = s.out)
      (hsector : s'.lastHopSector = d.dirBuff.sector)
      (hoffset : s'.lastHopOffset = d.dirBuff.offset) : Climbed w s (.inl w') s'

theorem pwdStep_cases {w : PwdVars} {x : PwdVars ⊕ Int} (h : Returns (pwdStep w) s x s') :
    Climbed w s x s' := by
  obtain ⟨found, s₁, hsearch, h⟩ := returns_bind.mp h
  obtain ⟨d, hlook, hend⟩ := findChild_cases hsearch
  rcases hend with ⟨rfl, hfind⟩ | ⟨rfl, hmiss⟩
  · rw [if_pos rfl] at h
    obtain ⟨_, s₂, hhop, h⟩ := returns_bind.mp h
    have henter := hlook.hop_cases hfind.type_eq hhop
    have hsector : s₂.dirBuff.sector = d.hopSector := by
      rw [henter.drive, Drive.jump_sector]
    rw [returns_globals_bind, returns_push_bind, hsector, henter.stack] at h
    obtain ⟨⟨name, success⟩, s₃, hsearch, h⟩ := returns_bind.mp h
    obtain ⟨d₁, hlook', hend⟩ := findChildByClusterId_cases hsearch
    simp only [henter.drive, henter.junk] at hend
    rcases hend with ⟨rfl, hlisted⟩ | ⟨rfl, hmiss⟩
    · simp only [ne_eq, not_true_eq_false, if_false] at h
      obtain ⟨_, s₄, hstore, h⟩ := returns_bind.mp h
      obtain ⟨_, s₅, hstore', h⟩ := returns_bind.mp h
      obtain rfl := returns_modify.mp hstore
      obtain rfl := returns_modify.mp hstore'
      obtain ⟨_, s₆, hroll, h⟩ := returns_bind.mp h
      obtain ⟨sector, rest, hstack, _, rfl⟩ := returns_rollback.mp hroll
      obtain ⟨rfl, rfl⟩ := List.cons.inj (hlook'.stack.symm.trans hstack)
      simp only [returns_globals_bind, returns_onDrive_bind, returns_sectorToCluster] at h
      obtain ⟨_, _, ⟨_, rfl, rfl⟩, hret⟩ := h
      obtain ⟨rfl, rfl⟩ := returns_pure.mp hret
      have hjunk := hlook'.junk
      simp only [henter.junk] at hjunk
      have hout : s₃.out = s.out := hlook'.out.trans henter.out
      have hlast := hlook'.sameHop
      refine .up hfind hlisted ?_ rfl hjunk ?_ rfl hout (hlast.sector.trans henter.lastSector)
        (hlast.offset.trans henter.lastOffset)
      · change s₃.toDrive.jump d.hopSector = d₁.jump d.hopSector
        rw [hlook'.drive]
      · exact congrArg (Drive.clusterOf _) (Drive.jump_sector _ _)
    · dsimp only at h
      rw [if_pos (by decide), returns_printf_bind] at h
      obtain ⟨rfl, rfl⟩ := returns_pure.mp h
      exact .lost hfind hmiss hlook'.stack hlook'.drive
  · rw [if_neg (by decide), returns_printf_bind] at h
    obtain ⟨_, _, hroll, hret⟩ := returns_bind.mp h
    obtain ⟨sector, rest, hstack, _, rfl⟩ := returns_rollback.mp hroll
    obtain ⟨rfl, rfl⟩ := returns_pure.mp hret
    refine .top hmiss (hlook.stack.symm.trans hstack) ?_ ?_
      ⟨hlook.sameHop.sector, hlook.sameHop.offset⟩
    · rw [← hlook.drive]
      rfl
    · rw [← hlook.out]
      rfl

end Fat32s
