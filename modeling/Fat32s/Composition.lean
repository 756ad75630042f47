/-
  Fat32s/Composition.lean
  =======================
  **cd composes, on any disk.**

  To cd to `p/q` is to cd to `p` and from there to `q`.  In the joined path the last
  component of `p` is in the middle, in the split one it is at the end, and `walk` has
  a test of its own for each.  For cd the two tests come to the same: what is not a
  directory is refused.  So a cd is determined by the components of its path, which
  `Trail` follows from directory to directory, and trails compose.
-/
import Fat32s.SameNames
import Fat32s.Paths

namespace Fat32s

open Fat32s.Lib Fat32s.Lib.Prog

variable {d d' d₁ d₂ : Drive} {s s' : Server} {r : Int}

/-! ### What can be seen from a directory -/

/-- The slots that the cursor can be brought to from `d`, going on from a slot to the
    next one and entering directories. -/
inductive Drive.Sees (d : Drive) : Drive → Prop
  | here : Sees d d
  | next {d₁ d₂ : Drive} {t : DirType} (hsees : Sees d d₁)
      (htype : d₁.dirBuff.de.type ≠ .undefined) (hnext : Returns nextDirEntry d₁ t d₂) : Sees d d₂
  | enter {d₁ : Drive} (hsees : Sees d d₁) (htype : d₁.dirBuff.de.type = .short)
      (hdir : d₁.dirBuff.de.isDirectory = true) : Sees d (d₁.jump d₁.hopSector)

/-- No short slot that can be seen starts with a space. -/
def Drive.PlainBelow (d : Drive) : Prop :=
  ∀ ⦃d'⦄, d.Sees d' → d'.dirBuff.de.type = .short → d'.dirBuff.de.u 0 ≠ 0x20

theorem Drive.Sees.trans (h : d.Sees d₁) (h' : d₁.Sees d₂) : d.Sees d₂ := by
  induction h' with
  | here => exact h
  | next _ htype hnext ih => exact .next ih htype hnext
  | enter _ htype hdir ih => exact .enter ih htype hdir

theorem Steps.sees {es : List DirEntry} (h : Steps d es d') : d.Sees d' := by
  induction h with
  | refl d => exact .here
  | step htype hnext _ ih => exact Drive.Sees.trans (.next .here htype hnext) ih

theorem Drive.PlainBelow.mono (h : d.PlainBelow) (hsees : d.Sees d') : d'.PlainBelow := by
  intro d'' hsees' htype
  exact h (hsees.trans hsees') htype

theorem Drive.PlainBelow.ahead (h : d.PlainBelow) : d.PlainAhead := by
  intro es d' hsteps htype
  exact h hsteps.sees htype

/-! ### Searches without junk -/

theorem Steps.plain {es : List DirEntry} (h : Steps d es d') (hplain : d.PlainAhead) :
    ∀ de ∈ es, de.type = .short → de.u 0 ≠ 0x20 := by
  obtain ⟨ds, htour, rfl⟩ := h.tour
  exact htour.plain hplain

theorem Drive.Finds.of_plain {junk junk' q : Name} (h : d.Finds junk (goesBy q) d')
    (hplain : d.PlainAhead) : d.Finds junk' (goesBy q) d' := by
  obtain ⟨name, es, hsteps, hnone, hshort, hname, rfl⟩ := h
  have hes := hsteps.plain hplain
  have hown := own_junk junk junk' hshort hes (hplain hsteps hshort)
  rw [hown] at hname
  rw [named_junk junk junk' [] hes] at hnone
  exact ⟨_, es, hsteps, hnone, hshort, hname, rfl⟩

theorem Drive.Misses.of_plain {junk junk' q : Name} (h : d.Misses junk (goesBy q) d')
    (hplain : d.PlainAhead) : d.Misses junk' (goesBy q) d' := by
  obtain ⟨es, hsteps, hnone, hend⟩ := h
  rw [named_junk junk junk' [] (hsteps.plain hplain)] at hnone
  exact ⟨es, hsteps, hnone, hend⟩

/-! ### Trails -/

/-- What a walk that succeeds changes: the drive, and where the last hop started. -/
structure Spot where
  drive : Drive
  hopSector : UInt32
  hopOffset : Nat

def Server.spot (s : Server) : Spot := ⟨s.toDrive, s.lastHopSector, s.lastHopOffset⟩

/-- Where the components lead, or the status of the first one that is missing (1) or not
    a directory (2). -/
inductive Trail : List Name → Spot → Except Int Spot → Prop
  | done {a : Spot} : Trail [] a (.ok a)
  | missing {a : Spot} {d : Drive} {q : Name} {qs : List Name}
      (hmiss : a.drive.Misses [] (goesBy q) d) : Trail (q :: qs) a (.error 1)
  | barred {a : Spot} {d : Drive} {q : Name} {qs : List Name}
      (hfind : a.drive.Finds [] (goesBy q) d) (hfile : d.dirBuff.de.isDirectory = false) :
      Trail (q :: qs) a (.error 2)
  | entered {a : Spot} {d : Drive} {q : Name} {qs : List Name} {o : Except Int Spot}
      (hfind : a.drive.Finds [] (goesBy q) d) (hdir : d.dirBuff.de.isDirectory = true)
      (hrest : Trail qs ⟨d.jump d.hopSector, d.dirBuff.sector, d.dirBuff.offset⟩ o) :
      Trail (q :: qs) a o

namespace Trail

variable {a b : Spot} {qs ps : List Name} {o o₁ : Except Int Spot}

/-- A longer trail fails where the first part of it fails. -/
theorem append_error {e : Int} (h : Trail (ps ++ qs) a o) (h₁ : Trail ps a (.error e)) :
    o = .error e := by
  induction ps generalizing a with
  | nil => cases h₁
  | cons q ps ih =>
    cases h₁ with
    | missing hmiss =>
      cases h with
      | missing _ => rfl
      | barred hfind _ => exact (hfind.not_misses hmiss).elim
      | entered hfind _ _ => exact (hfind.not_misses hmiss).elim
    | barred hfind hfile =>
      cases h with
      | missing hmiss => exact (hfind.not_misses hmiss).elim
      | barred _ _ => rfl
      | entered hfind' hdir _ =>
        obtain rfl := hfind.unique hfind'
        rw [hfile] at hdir
        cases hdir
    | entered hfind hdir hrest =>
      cases h with
      | missing hmiss => exact (hfind.not_misses hmiss).elim
      | barred hfind' hfile =>
        obtain rfl := hfind.unique hfind'
        rw [hfile] at hdir
        cases hdir
      | entered hfind' _ hrest' =>
        obtain rfl := hfind.unique hfind'
        exact ih hrest' hrest

/-- And goes on from where it leads. -/
theorem append_ok (h : Trail (ps ++ qs) a o) (h₁ : Trail ps a (.ok b)) : Trail qs b o := by
  induction ps generalizing a with
  | nil =>
    cases h₁
    exact h
  | cons q ps ih =>
    cases h₁ with
    | entered hfind hdir hrest =>
      cases h with
      | missing hmiss => exact (hfind.not_misses hmiss).elim
      | barred hfind' hfile =>
        obtain rfl := hfind.unique hfind'
        rw [hfile] at hdir
        cases hdir
      | entered hfind' _ hrest' =>
        obtain rfl := hfind.unique hfind'
        exact ih hrest' hrest

theorem unique (h : Trail ps a o) (h₁ : Trail ps a o₁) : o = o₁ := by
  rw [← List.append_nil ps] at h
  cases o₁ with
  | error e => exact h.append_error h₁
  | ok b =>
    cases h.append_ok h₁
    rfl

/-- A trail leads to what can be seen. -/
theorem sees (h : Trail ps a (.ok b)) : a.drive.Sees b.drive := by
  induction ps generalizing a with
  | nil =>
    cases h
    exact .here
  | cons q ps ih =>
    cases h with
    | entered hfind hdir hrest =>
      have hshort := hfind.type_eq
      obtain ⟨_, _, hsteps, _⟩ := hfind
      exact (Drive.Sees.enter hsteps.sees hshort hdir).trans (ih hrest)

end Trail

/-! ### cd follows the trail -/

/-- How a walk or a cd has ended. -/
def outcome (r : Int) (s : Server) : Except Int Spot := if r = 0 then .ok s.spot else .error r

theorem visits_trail {segs : List (Name × Bool)} (hplain : s.PlainBelow)
    (h : Returns (visits true false segs) s r s') :
    Trail (segs.map (·.1)) s.spot (outcome r s') := by
  induction segs generalizing s with
  | nil =>
    rcases returns_bind.mp h with ⟨_, s₁, hpop, hret⟩
    rcases returns_stackPop.mp hpop with ⟨_, _, rfl⟩
    rcases returns_pure.mp hret with ⟨rfl, rfl⟩
    exact .done
  | cons seg segs ih =>
    rcases seg with ⟨q, more⟩
    rcases returns_bind.mp h with ⟨o, s₁, hvisit, hrest⟩
    rw [List.map_cons]
    cases visit_cases hvisit with
    | missing hmiss =>
      rcases returns_pure.mp hrest with ⟨rfl, rfl⟩
      exact .missing (hmiss.of_plain hplain.ahead)
    | barred hfind hpass =>
      rcases returns_pure.mp hrest with ⟨rfl, rfl⟩
      rw [Volume.Dirs.passes_banFiles] at hpass
      exact .barred (hfind.of_plain hplain.ahead) hpass
    | @entered d _ hfind hpass henter =>
      rw [Volume.Dirs.passes_banFiles] at hpass
      have hshort := hfind.type_eq
      rcases id hfind with ⟨_, _, hsteps, _⟩
      have hspot : s₁.spot = ⟨d.jump d.hopSector, d.dirBuff.sector, d.dirBuff.offset⟩ := by
        simp only [Server.spot, henter.drive, henter.lastSector, henter.lastOffset]
      have hplain₁ : s₁.PlainBelow := by
        rw [henter.drive]
        exact hplain.mono (.enter hsteps.sees hshort hpass)
      have htrail := ih hplain₁ hrest
      rw [hspot] at htrail
      exact .entered (hfind.of_plain hplain.ahead) hpass htrail

/-- **A cd follows the components of its path.** -/
theorem cd_trail {path : Name} (hplain : s.PlainBelow) (h : Returns (cd path) s r s') :
    Trail (components (cstr path)) s.spot (outcome r s') := by
  unfold cd at h
  rw [returns_globals_bind, returns_push_bind] at h
  rcases returns_bind.mp h with ⟨status, s₁, hwalk, h⟩
  have htrail := visits_trail
    (s := { s with stack := s.dirBuff.sector :: s.dirBuff.sector :: s.stack }) hplain
    (returns_walk.mp hwalk)
  rw [map_fst_segments] at htrail
  by_cases hstatus : status = 0
  · rw [if_neg (not_not_intro hstatus)] at h
    rcases returns_bind.mp h with ⟨_, s₂, hpop, hret⟩
    rcases returns_stackPop.mp hpop with ⟨_, _, rfl⟩
    rcases returns_pure.mp hret with ⟨rfl, rfl⟩
    rw [outcome, if_pos hstatus] at htrail
    exact htrail
  · rw [if_pos hstatus] at h
    rcases returns_bind.mp h with ⟨_, s₂, _, hret⟩
    rcases returns_pure.mp hret with ⟨rfl, rfl⟩
    rw [outcome, if_neg hstatus] at htrail ⊢
    exact htrail

/-- The same place, buffer, last hop and stack pointer. -/
structure Server.EndsLike (s s' : Server) : Prop where
  dirBuff : s.dirBuff = s'.dirBuff
  fsData : s.fsData = s'.fsData
  lastHopSector : s.lastHopSector = s'.lastHopSector
  lastHopOffset : s.lastHopOffset = s'.lastHopOffset
  sp : s.sp = s'.sp

theorem Server.endsLike_of_spot (hspot : s.spot = s'.spot) (hstack : s.stack = s'.stack) :
    s.EndsLike s' := by
  injection hspot with hdrive hsector hoffset
  exact ⟨by rw [hdrive], by rw [hdrive], hsector, hoffset, by rw [Server.sp, hstack]; rfl⟩

theorem components_join {p : Name} (hne : p ≠ []) (hend : p.getLast? ≠ some 0x2F) (q : Name) :
    components (p ++ 0x2F :: q) = components p ++ components q := by
  rw [components_append, splitOn_of_not_ends]
  rintro (hnil | hlast)
  · exact hne hnil
  · exact hend hlast

theorem cstr_join {p : Name} (hzero : ∀ ch ∈ p, ch ≠ 0) (q : Name) :
    cstr (p ++ 0x2F :: q) = p ++ 0x2F :: cstr q := by
  unfold cstr
  rw [List.takeWhile_append_of_pos (by simpa using hzero)]
  simp

/-- **cd composes.**  The buffers may hold anything in each of the three runs. -/
theorem cd_composes {p q : Name} {r₁ r₂ : Int} {s₁ s₂ : Server} {sc sc₁ sc₂ : Scratch}
    (hplain : s.PlainBelow) (hzero : ∀ ch ∈ p, ch ≠ 0) (hne : p ≠ [])
    (hend : p.getLast? ≠ some 0x2F)
    (hjoined : Returns (cd (p ++ ascii "/" ++ q)) { s with scratch := sc } r s')
    (hfirst : Returns (cd p) { s with scratch := sc₁ } r₁ s₁)
    (hsecond : r₁ = 0 → Returns (cd q) { s₁ with scratch := sc₂ } r₂ s₂) :
    (r = 0 ↔ r₁ = 0 ∧ r₂ = 0) ∧ (r = 0 → s'.EndsLike s₂) ∧
      (r₁ ≠ 0 → r = r₁) ∧ (r₁ = 0 → r₂ ≠ 0 → r = r₂) := by
  have hslash : p ++ ascii "/" ++ q = p ++ 0x2F :: q := by
    rw [List.append_assoc]
    rfl
  have htrail := cd_trail (s := { s with scratch := sc }) hplain hjoined
  rw [hslash, cstr_join hzero, components_join hne hend] at htrail
  have htrail₁ := cd_trail (s := { s with scratch := sc₁ }) hplain hfirst
  rw [cstr_eq_self hzero] at htrail₁
  by_cases hr₁ : r₁ = 0
  · rw [outcome, if_pos hr₁] at htrail₁
    have hplain₁ : s₁.PlainBelow := hplain.mono htrail₁.sees
    have htrail₂ := cd_trail (s := { s₁ with scratch := sc₂ }) hplain₁ (hsecond hr₁)
    have hsame : outcome r s' = outcome r₂ s₂ := (htrail.append_ok htrail₁).unique htrail₂
    have hstack : s'.stack = s₂.stack := by
      rw [(cd_cases hjoined).stack, (cd_cases (hsecond hr₁)).stack, (cd_cases hfirst).stack]
    by_cases hr : r = 0
    · by_cases hr₂ : r₂ = 0
      · rw [outcome, outcome, if_pos hr, if_pos hr₂] at hsame
        injection hsame with hspot
        simp only [hr, hr₁, hr₂]
        simpa using Server.endsLike_of_spot hspot hstack
      · rw [outcome, outcome, if_pos hr, if_neg hr₂] at hsame
        cases hsame
    · by_cases hr₂ : r₂ = 0
      · rw [outcome, outcome, if_neg hr, if_pos hr₂] at hsame
        cases hsame
      · rw [outcome, outcome, if_neg hr, if_neg hr₂] at hsame
        injection hsame with heq
        simp [hr₁, hr₂, heq]
  · rw [outcome, if_neg hr₁] at htrail₁
    have hsame := htrail.append_error htrail₁
    by_cases hr : r = 0
    · rw [outcome, if_pos hr] at hsame
      cases hsame
    · rw [outcome, if_neg hr] at hsame
      injection hsame with heq
      simp [hr₁, heq]

/-! ### Hierarchies of directories -/

section hierarchy

variable {v : Volume} {c : UInt32} {as : List Nat}

theorem Steps.append {es fs : List DirEntry} (h : Steps d es d₁) (h' : Steps d₁ fs d₂) :
    Steps d (es ++ fs) d₂ := by
  induction h with
  | refl d => exact h'
  | step htype hnext _ ih => exact .step htype hnext (ih h')

theorem Steps.concat {es : List DirEntry} {t : DirType} (h : Steps d es d₁)
    (htype : d₁.dirBuff.de.type ≠ .undefined) (hnext : Returns nextDirEntry d₁ t d₂) :
    Steps d (es ++ [d₁.dirBuff.de]) d₂ :=
  h.append (.step htype hnext (.refl _))

/-- Before its zero slot the cursor is at a slot of the directory. -/
theorem Volume.Lists.on_way {es : List DirEntry} (hdir : v.Lists c as) (hcwd : d.Cwd v c)
    (hsteps : Steps d es d₁) (htype : d₁.dirBuff.de.type ≠ .undefined) :
    ∃ a ∈ as, d₁.On v ∧ d₁.dirBuff.de = (v.slot a).entry := by
  rcases hdir.steps_all hcwd.cursor hcwd.on with ⟨d', hall, _, hend⟩
  rcases hall.tour with ⟨ds, htour, hds⟩
  rcases htour.passes hend hsteps htype with ⟨pre, post, rfl, rfl⟩
  rw [entriesOf, List.map_append, List.map_cons] at hds
  rcases List.map_eq_append_iff.mp hds with ⟨bs, cs, rfl, hbs, hcs⟩
  rcases List.map_eq_cons_iff.mp hcs with ⟨a, cs, rfl, _, _⟩
  rcases hdir.steps_to hcwd.cursor hcwd.on with ⟨d₂, hsteps₂, hon, hat⟩
  rw [hbs] at hsteps₂
  have hsame : d₁ = d₂ := by
    rcases hsteps.compare hsteps₂ with ⟨fs, hfs, h⟩ | ⟨fs, hfs, h⟩
    · obtain rfl : fs = [] := by simpa [entriesOf] using hfs
      cases h
      rfl
    · obtain rfl : fs = [] := by simpa [entriesOf] using hfs
      cases h
      rfl
  subst hsame
  have hmem : a ∈ bs ++ a :: cs := by simp
  exact ⟨a, hmem, hon, hat.de (hdir.live a hmem)⟩

/-- From a directory of a hierarchy only its directories can be seen. -/
theorem Volume.Dirs.sees (t : v.Dirs) (hc : t.isDir c) (hcwd : d.Cwd v c) (h : d.Sees d') :
    ∃ c' d₀ es, t.isDir c' ∧ d₀.Cwd v c' ∧ Steps d₀ es d' := by
  induction h with
  | here => exact ⟨c, d, [], hc, hcwd, .refl d⟩
  | next _ htype hnext ih =>
    rcases ih with ⟨c', d₀, es, hc', hcwd', hsteps⟩
    exact ⟨c', d₀, _, hc', hcwd', hsteps.concat htype hnext⟩
  | enter _ htype hisdir ih =>
    rcases ih with ⟨c', d₀, es, hc', hcwd', hsteps⟩
    rcases (t.lists hc').on_way hcwd' hsteps (by simp [htype]) with ⟨a, ha, hon, hde⟩
    rw [hde] at htype hisdir
    have htarget := t.leads hc' ha htype hisdir
    exact ⟨_, _, [], htarget, hon.cwd_hop hde (t.isData htarget), .refl _⟩

theorem Volume.Dirs.plainBelow (t : v.Dirs) (hplain : t.Plain) (hc : t.isDir c)
    (hcwd : d.Cwd v c) : d.PlainBelow := by
  intro d' hsees hshort
  rcases t.sees hc hcwd hsees with ⟨c', d₀, es, hc', hcwd', hsteps⟩
  exact hcwd'.plainAhead (t.lists hc') (hplain hc') hsteps hshort

end hierarchy

/-- Into the directory of the sample volume and back, at once and in two steps. -/
theorem cd_composes_on_sample : ∃ s s' s₁ s₂ : Server, s.PlainBelow ∧
    Returns (cd (ascii "DIR" ++ ascii "/" ++ ascii "..")) s 0 s' ∧
    Returns (cd (ascii "DIR")) s 0 s₁ ∧
    Returns (cd (ascii "..")) s₁ 0 s₂ ∧ s'.EndsLike s₂ := by
  rcases Sample.mounted fun _ => [] with ⟨s, _, hcwd, _⟩
  have hplain := Sample.tree.plainBelow Sample.plain (.inl rfl) hcwd
  have hgo : Sample.tree.goTo 2 (components (cstr (ascii "DIR"))) = .ok 3 := by decide +kernel
  have hback : Sample.tree.goTo 3 (components (cstr (ascii ".."))) = .ok 2 := by decide +kernel
  rcases Sample.tree.cd_goesTo Sample.plain (.inl rfl) hcwd
    (ascii "DIR" ++ ascii "/" ++ ascii "..") with ⟨r, s', hcd, _⟩
  rcases Sample.tree.cd_goesTo Sample.plain (.inl rfl) hcwd (ascii "DIR") with ⟨r₁, s₁, hcd₁, hend₁⟩
  rcases hend₁.arrived hgo with ⟨rfl, hcwd₁⟩
  rcases Sample.tree.cd_goesTo Sample.plain (.inr rfl) hcwd₁ (ascii "..") with ⟨r₂, s₂, hcd₂, hend₂⟩
  rcases hend₂.arrived hback with ⟨rfl, _⟩
  have hjoin := cd_composes (p := ascii "DIR") (q := ascii "..") hplain (by decide +kernel)
    (by decide) (by decide) hcd hcd₁ (fun _ => hcd₂)
  have hr : r = 0 := hjoin.1.mpr ⟨rfl, rfl⟩
  rw [hr] at hcd
  exact ⟨s, s', s₁, s₂, hplain, hcd, hcd₁, hcd₂, hjoin.2.1 hr⟩

end Fat32s
