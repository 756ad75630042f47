/-
  Fat32s/EntryAlone.lean
  ======================
  **What the name of an entry depends on.**

  `get_name` tells the `.` and `..` entries by a look at `name[0]`, where it has just put
  the first character of the base.  If the base is empty it has put nothing there, and
  looks at what the caller's buffer held before: an uninitialised byte for the first entry
  of a scan, and the first character of an earlier name for the others.  With a dot there
  the extension is dropped.

  So it is for the short names that have an extension but no base, and for no others.  In
  a scan the long slots directly before an entry overwrite the buffer, so there even these
  names depend on nothing but the entry and its long slots, if it has any.
-/
import Fat32s.Distinct

namespace Fat32s

open Fat32s.Lib Fat32s.Lib.Prog

variable {d : Drive} {s s' : Server} {u : Slot}

/-- A short name that has an extension but no base. -/
def DirEntry.BareExt (de : DirEntry) : Prop := de.type = .short ∧ de.u 0 = 0x20 ∧ de.u 8 ≠ 0x20

instance decidableBareExt (de : DirEntry) : Decidable de.BareExt :=
  inferInstanceAs (Decidable (_ ∧ _))

def Slot.BareExt (u : Slot) : Prop := u.entry.BareExt

/-! ### One entry -/

/-- With an empty base, the first byte of the buffer decides. -/
theorem getName_of_blank {de : DirEntry} (hshort : de.type = .short) (hblank : de.u 0 = 0x20)
    (part : Name) :
    getName de part =
      if part.head? = some 0x2E then []
      else if de.u.shortExt.takeWhile (· ≠ 0x20) = [] then []
      else cstr (0x2E :: de.u.shortExt.takeWhile (· ≠ 0x20)) := by
  have hbase : de.u.shortBase.takeWhile (· ≠ 0x20) = [] := by
    simp [Slot.shortBase, hblank]
  simp only [getName, hshort, hbase, List.nil_append]
  by_cases hdot : part.head? = some 0x2E
  · rw [if_pos hdot, if_pos hdot]
    rfl
  · rw [if_neg hdot, if_neg hdot]
    by_cases hext : de.u.shortExt.takeWhile (· ≠ 0x20) = []
    · rw [if_pos hext, if_pos hext]
      rfl
    · rw [if_neg hext, if_neg hext]

theorem getName_of_not_bareExt {de : DirEntry} (hdef : de.type ≠ .undefined) (h : ¬ de.BareExt)
    (p q : Name) : getName de p = getName de q := by
  by_cases hblank : de.type = .short ∧ de.u 0 = 0x20
  · rcases hblank with ⟨hshort, hblank⟩
    have hext : de.u 8 = 0x20 := by
      by_contra hne
      exact h ⟨hshort, hblank, hne⟩
    have hnone : de.u.shortExt.takeWhile (· ≠ 0x20) = [] := by
      simp [Slot.shortExt, hext]
    rw [getName_of_blank hshort hblank, getName_of_blank hshort hblank, if_pos hnone, ite_self,
      ite_self]
  · exact getName_of_base_ne rfl (fun hshort hzero => hblank ⟨hshort, hzero⟩) hdef

/-- A dot in the buffer makes the extension disappear. -/
theorem Slot.BareExt.getName_ne (h : u.BareExt) :
    getName u.entry (ascii ".") ≠ getName u.entry [] := by
  rcases h with ⟨hshort, hblank, hext⟩
  have hsome : u.entry.u.shortExt.takeWhile (· ≠ 0x20) ≠ [] := by
    simp [Slot.shortExt, hext]
  have hdot : (ascii ".").head? = some 0x2E := by decide
  have hnil : ([] : Name).head? ≠ some 0x2E := by simp
  rw [getName_of_blank hshort hblank, getName_of_blank hshort hblank, if_pos hdot, if_neg hnil,
    if_neg hsome]
  simp [cstr]

theorem getName_alone_iff (hlive : u 0 ≠ 0) :
    (∀ p q : Name, getName u.entry p = getName u.entry q) ↔ ¬ u.BareExt := by
  constructor
  · intro hsame hbare
    exact hbare.getName_ne (hsame _ _)
  · exact getName_of_not_bareExt (Slot.dirType_ne_undefined hlive)

/-! ### Scans -/

theorem nameAt_alone_iff (hlive : u 0 ≠ 0) {run : List DirEntry}
    (hlong : ∀ de ∈ run, de.type = .long) :
    (∀ (s s' : Server) (pre pre' : List DirEntry), EndsShort pre → EndsShort pre' →
      s.nameAt (pre ++ run) u = s'.nameAt (pre' ++ run) u) ↔ run ≠ [] ∨ ¬ u.BareExt := by
  constructor
  · intro hsame
    by_cases hrun : run = []
    · subst hrun
      refine .inr fun hbare => hbare.getName_ne ?_
      -- two servers that start the scan with different bytes on the stack
      have hstart : EndsShort [] := by simp [EndsShort]
      have hleak := hsame (Server.initial fun _ => ascii ".") (Server.initial fun _ => []) [] []
        hstart hstart
      rw [nameAt_of_no_run hstart, nameAt_of_no_run hstart] at hleak
      exact hleak
    · exact .inl hrun
  · intro h s s' pre pre' hpre hpre'
    by_cases hrun : run = []
    · subst hrun
      have hname : ¬ u.BareExt := by simpa using h
      rw [nameAt_of_no_run hpre, nameAt_of_no_run hpre']
      exact getName_of_not_bareExt (Slot.dirType_ne_undefined hlive) hname _ _
    · rw [nameAt_of_run hpre hrun hlong, nameAt_of_run hpre' hrun hlong]

/-- What the three scans make of an entry is the name in question. -/
theorem Steps.namesUsed_at {before post : List DirEntry} (hshort : u.entry.type = .short)
    (hsteps : Steps s.toDrive (before ++ u.entry :: post) d)
    (hend : d.dirBuff.de.type = .undefined) :
    ∃ rest, NamesUsed s (before ++ u.entry :: post)
      (named s.freshNames before ++ (u.entry, s.nameAt before u) :: rest) := by
  have hused := hsteps.namesUsed hend
  rw [named_append, named_cons_short hshort] at hused
  exact ⟨_, hused⟩

/-- **A name depends on the entry alone, unless it is an extension without a base.**  What
    `get_name` decodes depends on the old contents of the buffer exactly for those.  The
    name that a scan gives to a short entry, behind any earlier entries and with any bytes
    on the stack, depends on the entry and the long slots directly before it alone, exactly
    if there are such slots or the entry is not one of those. -/
theorem name_of_entry_alone_iff (hlive : u 0 ≠ 0) :
    ((∀ p q : Name, getName u.entry p = getName u.entry q) ↔ ¬ u.BareExt) ∧
    (u.entry.type = .short → ∀ run : List DirEntry, (∀ de ∈ run, de.type = .long) →
      ((∀ (s s' : Server) (pre pre' : List DirEntry), EndsShort pre → EndsShort pre' →
        s.nameAt (pre ++ run) u = s'.nameAt (pre' ++ run) u) ↔ run ≠ [] ∨ ¬ u.BareExt)) ∧
    (u.entry.type = .short → ∀ (s : Server) (d : Drive) (before post : List DirEntry),
      Steps s.toDrive (before ++ u.entry :: post) d → d.dirBuff.de.type = .undefined →
      ∃ rest, NamesUsed s (before ++ u.entry :: post)
        (named s.freshNames before ++ (u.entry, s.nameAt before u) :: rest)) := by
  refine ⟨getName_alone_iff hlive, ?_, ?_⟩
  · intro _ run hlong
    exact nameAt_alone_iff hlive hlong
  · intro hshort s d before post hsteps hend
    exact hsteps.namesUsed_at hshort hend

namespace Leak

/-- A file with an extension and no base. -/
def bare : Slot := rawSlot (ascii "        TXT") 0x20 3 5

def file : Slot := rawSlot (ascii "A       TXT") 0x20 3 5

/-- The same file twice, and between the two a directory that goes by a dot. -/
def image : Image :=
  bootSector 512 1 1 8 1 2 ++
  [(512 + 8, le32Bytes 0x0FFFFFFF),
   (1024, slotBytes [bare, rawSlot (ascii ".          ") 0x10 2 0, bare])]

def device : Device := image.device 4096

end Leak

/-- A file with a base is decoded alike into all buffers. -/
theorem name_of_file_alone : Leak.file 0 ≠ 0 ∧ ¬ Leak.file.BareExt ∧
    ∀ p q : Name, getName Leak.file.entry p = getName Leak.file.entry q := by
  have hlive : Leak.file 0 ≠ 0 := by decide
  have hbase : ¬ Leak.file.BareExt := fun h => absurd h.2.1 (by decide)
  exact ⟨hlive, hbase, (name_of_entry_alone_iff hlive).1.mpr hbase⟩

/-- Two slots with the same bytes are listed under two names, and the first of them under
    one or the other, as the bytes on the stack have it. -/
theorem same_slot_two_names : ∃ s s₁ s' s₁',
    Leak.bare 0 ≠ 0 ∧ getName Leak.bare.entry (ascii ".") ≠ getName Leak.bare.entry [] ∧
    Returns (doMount (diskEnv Leak.device) mountMessage) (Server.initial fun _ => []) OK s ∧
    Returns (ls (ascii ".")) s OK s₁ ∧ s₁.out = s.out ++ ascii ".TXT\n[*].\n\n" ∧
    Returns (doMount (diskEnv Leak.device) mountMessage) (Server.initial fun _ => ascii ".")
      OK s' ∧
    Returns (ls (ascii ".")) s' OK s₁' ∧ s₁'.out = s'.out ++ ascii "\n[*].\n\n" := by
  have hname : getName Leak.bare.entry (ascii ".") ≠ getName Leak.bare.entry [] := by
    decide +kernel
  rcases exists_returns (doMount (diskEnv Leak.device) mountMessage)
    (Server.initial fun _ => []) 10 (fun r _ => r = OK) (by decide +kernel) with ⟨r, s, hmount, hr⟩
  rcases exists_returns (doMount (diskEnv Leak.device) mountMessage)
    (Server.initial fun _ => ascii ".") 10 (fun r _ => r = OK) (by decide +kernel) with
    ⟨r', s', hmount', hr'⟩
  rw [of_decide_eq_true hr] at hmount
  rw [of_decide_eq_true hr'] at hmount'
  rcases returns_after_mount (ls (ascii ".")) 10
    (fun s r s₁ => r = OK && s₁.out = s.out ++ ascii ".TXT\n[*].\n\n") (by decide +kernel) hmount
    with ⟨r₁, s₁, hls, htest⟩
  rcases returns_after_mount (ls (ascii ".")) 10
    (fun s r s₁ => r = OK && s₁.out = s.out ++ ascii "\n[*].\n\n") (by decide +kernel) hmount'
    with ⟨r₁', s₁', hls', htest'⟩
  simp only [Bool.and_eq_true, decide_eq_true_eq] at htest htest'
  rw [htest.1] at hls
  rw [htest'.1] at hls'
  exact ⟨s, s₁, s', s₁', by decide, hname, hmount, hls, htest.2, hmount', hls', htest'.2⟩

end Fat32s
