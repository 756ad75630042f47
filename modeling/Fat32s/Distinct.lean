/-
  Fat32s/Distinct.lean
  ====================
  **When two names on the disk stay two names in the server.**

  The names on the disk are sequences of 16-bit characters in long slots, or the 11
  bytes of a short slot.  `get_name` makes strings of 8-bit characters of them: it keeps
  the low byte of a character, and the base of a short name up to its first space.  The
  names that differ in what is kept decode to different strings, and a search for one
  of them does not stop at the other.  For the others it does.
-/
import Fat32s.LongNames

namespace Fat32s

open Fat32s.Lib Fat32s.Lib.Prog

variable {d d' : Drive} {s s' : Server} {u : Slot}

/-! ### Names on the disk -/

/-- Character `i` of a name of 16-bit characters, with the terminator and the filling. -/
def wideUnit (units : List UInt16) (i : Nat) : UInt16 :=
  if i < units.length then units.getD i 0 else if i = units.length then 0 else 0xFFFF

/-- The slots of the first `k` of `count` pieces, the last piece first. -/
def wideSlots (units : List UInt16) (checksum : UInt8) (count : Nat) : Nat → List Slot
  | 0 => []
  | k + 1 => longSlot (longOrd count k) checksum (fun j => wideUnit units (13 * k + j)) ::
      wideSlots units checksum count k

/-- The long slots of a name that belongs to the short slot `u`. -/
def wideSet (units : List UInt16) (u : Slot) : List DirEntry :=
  (wideSlots units u.nameSum (pieceCount units.length) (pieceCount units.length)).map Slot.entry

/-- No space but at the end. -/
def Padded (l : List UInt8) : Prop := ∀ ch ∈ l.dropWhile (· ≠ 0x20), ch = 0x20

instance Padded.decidable (l : List UInt8) : Decidable (Padded l) := List.decidableBAll _ _

namespace Slot

variable (u : Slot)

def shortName : List UInt8 := u.shortBase ++ u.shortExt

/-- The 11 bytes of a file, with spaces inside the base allowed. -/
structure ProperName : Prop where
  first : u 0 ≠ 0x20
  chars : ∀ ch ∈ u.shortName, ch ≠ 0 ∧ ch ≠ 0x2E
  ext : Padded u.shortExt

/-- The 11 bytes of a file, or one of the two names with dots. -/
def ValidName : Prop :=
  u.ProperName ∨ u.shortName = ascii ".          " ∨ u.shortName = ascii "..         "

end Slot

inductive FatName where
  | long (units : List UInt16)
  | short (bytes : List UInt8)
deriving DecidableEq

/-- The name of the entry in the slot `u`, with the long slots `run` directly before it. -/
inductive Spelled : List DirEntry → Slot → FatName → Prop
  | long {u : Slot} {units : List UInt16} (hne : units ≠ []) (hlen : units.length ≤ 255)
      (hzero : ∀ ch ∈ units, ch ≠ 0) : Spelled (wideSet units u) u (.long units)
  | short {u : Slot} (hvalid : u.ValidName) : Spelled [] u (.short u.shortName)

/-- The entries before a run of long slots: there are none, or the last is a short one. -/
def EndsShort (pre : List DirEntry) : Prop := ∀ de ∈ pre.getLast?, de.type = .short

/-- Among the entries `es` of a directory, the slot `u` comes after `before` and has a name. -/
def LiveAt (es before : List DirEntry) (u : Slot) (name : FatName) : Prop :=
  ∃ pre run post, es = before ++ u.entry :: post ∧ before = pre ++ run ∧
    EndsShort pre ∧ u.entry.type = .short ∧ Spelled run u name

/-- The string a scan has for the slot `u` once it has passed `before`. -/
def Server.nameAt (s : Server) (before : List DirEntry) (u : Slot) : Name :=
  ((s.freshNames.after before).own u.entry).full

/-- Two names that differ in what is kept of them. -/
inductive Apart : FatName → FatName → Prop
  | long {us vs : List UInt16} (hus : ∀ ch ∈ us, ch.toUInt8 ≠ 0) (hvs : ∀ ch ∈ vs, ch.toUInt8 ≠ 0)
      (hne : us.map UInt16.toUInt8 ≠ vs.map UInt16.toUInt8) : Apart (.long us) (.long vs)
  | short {b c : List UInt8} (hb : Padded (b.take 8)) (hc : Padded (c.take 8)) (hne : b ≠ c) :
      Apart (.short b) (.short c)

/-! ### Long names -/

/-- Of a character with a low byte the low byte is kept, and so are the terminator and
    the filling. -/
theorem wideUnit_toUInt8 (units : List UInt16) (i : Nat) :
    (wideUnit units i).toUInt8 = (longUnit (units.map UInt16.toUInt8) i).toUInt8 := by
  unfold wideUnit longUnit
  rw [List.length_map]
  by_cases hlt : i < units.length
  · simp only [if_pos hlt, List.getD_eq_getElem?_getD, List.getElem?_map,
      List.getElem?_eq_getElem hlt, Option.map_some, Option.getD_some, UInt8.toUInt8_toUInt16]
  · simp only [if_neg hlt]

theorem joined_cons (de : DirEntry) (run : List DirEntry) :
    joined (de :: run) = joined run ++ getName de [] := by
  simp [joined]

/-- The first `k` pieces hold `13 * k` characters of the name. -/
theorem joined_wideSlots {units : List UInt16} (hzero : ∀ ch ∈ units, ch.toUInt8 ≠ 0)
    (hlen : units.length ≤ 255) (checksum : UInt8) (count k : Nat)
    (hk : k ≤ pieceCount units.length) :
    joined ((wideSlots units checksum count k).map Slot.entry) =
      (units.map UInt16.toUInt8).take (13 * k) := by
  induction k with
  | zero => simp [wideSlots, joined]
  | succ k ih =>
    unfold pieceCount at hk ih
    have htype := longSlot_type checksum (fun j => wideUnit units (13 * k + j))
      (longOrd_ne_zero (show k < 20 by omega) : longOrd count k ≠ 0)
    have hle : 13 * k ≤ (units.map UInt16.toUInt8).length := by
      rw [List.length_map]
      omega
    have hclean : ∀ ch ∈ (units.map UInt16.toUInt8).drop (13 * k), ch ≠ 0 := by
      intro ch hch
      rcases List.mem_map.mp (List.mem_of_mem_drop hch) with ⟨unit, hunit, rfl⟩
      exact hzero unit hunit
    have hpiece : getName (longSlot (longOrd count k) checksum
        fun j => wideUnit units (13 * k + j)).entry [] =
          ((units.map UInt16.toUInt8).drop (13 * k)).take 13 := by
      rw [getName_long htype, longChars_longSlot]
      simp only [wideUnit_toUInt8, longUnit_drop hle]
      exact cstr_longUnits hclean 13
    rw [wideSlots, List.map_cons, joined_cons, ih (by omega), hpiece, Nat.mul_add, Nat.mul_one,
      List.take_add]

theorem joined_wideSet {units : List UInt16} (hzero : ∀ ch ∈ units, ch.toUInt8 ≠ 0)
    (hlen : units.length ≤ 255) (u : Slot) :
    joined (wideSet units u) = units.map UInt16.toUInt8 := by
  unfold wideSet
  rw [joined_wideSlots hzero hlen _ _ _ (Nat.le_refl _)]
  apply List.take_of_length_le
  rw [List.length_map]
  unfold pieceCount
  omega

theorem wideSlots_long {units : List UInt16} {checksum : UInt8} {count k : Nat} (hk : k ≤ 20) :
    ∀ de ∈ (wideSlots units checksum count k).map Slot.entry, de.type = .long := by
  induction k with
  | zero => simp [wideSlots]
  | succ k ih =>
    intro de hde
    rcases List.mem_cons.mp hde with rfl | hde
    · exact longSlot_type _ _ (longOrd_ne_zero (by omega))
    · exact ih (by omega) de hde

/-! The slots of a long name are a complete set for their short slot. -/

theorem length_wideSlots (units : List UInt16) (checksum : UInt8) (count k : Nat) :
    (wideSlots units checksum count k).length = k := by
  induction k with
  | zero => rfl
  | succ k ih => rw [wideSlots, List.length_cons, ih]

theorem wideSlots_ordinals (units : List UInt16) (checksum : UInt8) (count k : Nat) :
    (wideSlots units checksum count k).map (· 0) =
      ((List.range k).map (longOrd count)).reverse := by
  induction k with
  | zero => rfl
  | succ k ih =>
    rw [wideSlots, List.map_cons, ih, List.range_succ, List.map_append, List.reverse_append]
    rfl

theorem wideSlots_sums {units : List UInt16} {checksum : UInt8} {count k : Nat} :
    ∀ w ∈ wideSlots units checksum count k, w 13 = checksum := by
  induction k with
  | zero => simp [wideSlots]
  | succ k ih =>
    intro w hw
    rcases List.mem_cons.mp hw with rfl | hw
    · rfl
    · exact ih w hw

theorem Spelled.completeSet {run : List DirEntry} {units : List UInt16}
    (h : Spelled run u (.long units)) :
    ∃ slots, run = slots.map Slot.entry ∧ CompleteSet slots u := by
  cases h with
  | long hne _ _ =>
    have hlen := length_wideSlots units u.nameSum (pieceCount units.length)
      (pieceCount units.length)
    refine ⟨_, rfl, ?_, ?_, wideSlots_sums⟩
    · have hpos := List.length_pos_iff.mpr hne
      rw [← List.length_pos_iff, hlen]
      unfold pieceCount
      omega
    · rw [hlen]
      exact wideSlots_ordinals _ _ _ _

/-! ### Short names -/

def pad (n : Nat) (l : List UInt8) : List UInt8 := l ++ List.replicate (n - l.length) 0x20

/-- The 11 bytes of a name in 8.3 form. -/
def padName (name : Name) : List UInt8 :=
  if name.head? = some 0x2E then pad 11 name
  else pad 8 (name.takeWhile (· ≠ 0x2E)) ++ pad 3 ((name.dropWhile (· ≠ 0x2E)).drop 1)

theorem pad_takeWhile {l : List UInt8} (h : Padded l) :
    pad l.length (l.takeWhile (· ≠ 0x20)) = l := by
  have hlen := congrArg List.length
    (List.takeWhile_append_dropWhile (p := (· ≠ (0x20 : UInt8))) (l := l))
  rw [List.length_append] at hlen
  have hspaces : l.dropWhile (· ≠ 0x20) =
      List.replicate (l.length - (l.takeWhile (· ≠ 0x20)).length) 0x20 :=
    List.eq_replicate_iff.mpr ⟨by omega, h⟩
  rw [pad, ← hspaces, List.takeWhile_append_dropWhile]

/-- The dot of a name in 8.3 form is its first one. -/
theorem padName_dotted {base ext : Name} (hhead : base.head? ≠ some 0x2E) (hne : base ≠ [])
    (hdot : ∀ ch ∈ base, ch ≠ 0x2E) :
    padName (if ext = [] then base else base ++ 0x2E :: ext) = pad 8 base ++ pad 3 ext := by
  have hall : ∀ ch ∈ base, decide (ch ≠ 0x2E) = true := by simpa using hdot
  by_cases hext : ext = []
  · have htake : (base ++ []).takeWhile (· ≠ 0x2E) = base ++ [].takeWhile (· ≠ 0x2E) :=
      List.takeWhile_append_of_pos hall
    have hdrop : (base ++ []).dropWhile (· ≠ 0x2E) = [].dropWhile (· ≠ 0x2E) :=
      List.dropWhile_append_of_pos hall
    rw [List.append_nil] at htake hdrop
    rw [if_pos hext, padName, if_neg hhead, htake, hdrop, hext]
    simp
  · have hhead' : (base ++ 0x2E :: ext).head? ≠ some 0x2E := by
      cases base with
      | nil => exact (hne rfl).elim
      | cons ch base => exact hhead
    rw [if_neg hext, padName, if_neg hhead', List.takeWhile_append_of_pos hall,
      List.dropWhile_append_of_pos hall]
    simp

namespace Slot

variable {u : Slot}

theorem ProperName.padName_getName (h : u.ProperName) (hshort : u.entry.type = .short)
    (hbase : Padded u.shortBase) (part : Name) :
    padName (getName u.entry part) = u.shortName := by
  have hu : u.entry.u = u := rfl
  have hchars : ∀ ch ∈ u.shortBase ++ u.shortExt, ch ≠ 0 ∧ ch ≠ 0x2E := h.chars
  have hcons : u.shortBase.takeWhile (· ≠ 0x20) =
      u 0 :: (u.shortBase.drop 1).takeWhile (· ≠ 0x20) := by
    simp [shortBase, List.takeWhile_cons, h.first]
  have hin : ∀ ch ∈ u.shortBase.takeWhile (· ≠ 0x20), ch ≠ 0 ∧ ch ≠ 0x2E := fun ch hch =>
    hchars ch (List.mem_append_left _ ((List.takeWhile_sublist _).subset hch))
  have hin' : ∀ ch ∈ u.shortExt.takeWhile (· ≠ 0x20), ch ≠ 0 ∧ ch ≠ 0x2E := fun ch hch =>
    hchars ch (List.mem_append_right _ ((List.takeWhile_sublist _).subset hch))
  have hne : u.shortBase.takeWhile (· ≠ 0x20) ≠ [] := by
    rw [hcons]
    exact List.cons_ne_nil _ _
  have hhead : ∀ l, (u.shortBase.takeWhile (· ≠ 0x20) ++ l).head? ≠ some 0x2E := by
    intro l hl
    rw [hcons, List.cons_append, List.head?_cons, Option.some.injEq] at hl
    exact (hin (u 0) (by rw [hcons]; exact List.mem_cons_self)).2 hl
  have hclean : ∀ ch ∈ (if u.shortExt.takeWhile (· ≠ 0x20) = [] then
      u.shortBase.takeWhile (· ≠ 0x20) else u.shortBase.takeWhile (· ≠ 0x20) ++
        0x2E :: u.shortExt.takeWhile (· ≠ 0x20)), ch ≠ 0 := by
    intro ch hch
    split at hch
    · exact (hin ch hch).1
    · rcases List.mem_append.mp hch with hch | hch
      · exact (hin ch hch).1
      · rcases List.mem_cons.mp hch with rfl | hch
        · decide
        · exact (hin' ch hch).1
  have hhead₀ := hhead []
  rw [List.append_nil] at hhead₀
  simp only [getName, hshort, hu, if_neg (hhead part)]
  rw [cstr_eq_self hclean, padName_dotted hhead₀ hne fun ch hch => (hin ch hch).2]
  exact congrArg₂ (· ++ ·) (pad_takeWhile hbase) (pad_takeWhile h.ext)

/-- A valid name without a space inside can be read off its string. -/
theorem ValidName.padName_getName (h : u.ValidName) (hshort : u.entry.type = .short)
    (hbase : Padded (u.shortName.take 8)) (part : Name) :
    padName (getName u.entry part) = u.shortName := by
  have hu : u.entry.u = u := rfl
  rcases h with hproper | hdot | hdots
  · exact hproper.padName_getName hshort hbase part
  · have hhalf : u.shortBase = ascii ".       " := congrArg (List.take 8) hdot
    have hname : getName u.entry part = ascii "." := by
      simp only [getName, hshort, hu, hhalf]
      rfl
    rw [hname, hdot]
    decide +kernel
  · have hhalf : u.shortBase = ascii "..      " := congrArg (List.take 8) hdots
    have hname : getName u.entry part = ascii ".." := by
      simp only [getName, hshort, hu, hhalf]
      rfl
    rw [hname, hdots]
    decide +kernel

end Slot

/-! ### The strings of the scans -/

theorem Names.after_append (names : Names) (es fs : List DirEntry) :
    names.after (es ++ fs) = (names.after es).after fs := by
  simp [Names.after, List.foldl_append]

theorem after_short_full {pre : List DirEntry} (h : EndsShort pre) (junk : Name) :
    (Names.after ⟨junk, []⟩ pre).full = [] := by
  rcases List.eq_nil_or_concat pre with rfl | ⟨pre, de, rfl⟩
  · rfl
  · have hshort : de.type = .short := h de (by simp)
    simp [Names.after, Names.next, hshort]

theorem after_long_full {run : List DirEntry} (h : ∀ de ∈ run, de.type = .long) (names : Names) :
    (names.after run).full = joined run ++ names.full := by
  induction run generalizing names with
  | nil => simp [Names.after, joined]
  | cons de run ih =>
    have htype := h de List.mem_cons_self
    have hfull : (names.next de).full = getName de [] ++ names.full := by
      simp [Names.next, Names.piece, htype, getName_of_long htype names.part []]
    change ((names.next de).after run).full = _
    rw [ih (fun de' hde' => h de' (List.mem_cons_of_mem _ hde')), hfull, joined_cons,
      List.append_assoc]

/-- A long slot leaves the text collected so far in both buffers. -/
theorem after_long_part {run : List DirEntry} (hne : run ≠ [])
    (hlong : ∀ de ∈ run, de.type = .long) (names : Names) :
    (names.after run).part = (names.after run).full := by
  rcases List.eq_nil_or_concat run with rfl | ⟨run, de, rfl⟩
  · exact (hne rfl).elim
  · have htype : de.type = .long := hlong de (by simp)
    simp [Names.after, Names.next, Names.piece, htype]

/-- Behind long slots the name comes from them and the entry alone. -/
theorem nameAt_of_run {pre run : List DirEntry} (hpre : EndsShort pre) (hne : run ≠ [])
    (hlong : ∀ de ∈ run, de.type = .long) :
    s.nameAt (pre ++ run) u = ((⟨joined run, joined run⟩ : Names).own u.entry).full := by
  have hfull := after_long_full hlong (s.freshNames.after pre)
  have hpart := after_long_part hne hlong (s.freshNames.after pre)
  rw [show (s.freshNames.after pre).full = [] from after_short_full hpre _,
    List.append_nil] at hfull
  rw [Server.nameAt, Names.after_append, Names.own, Names.own, hpart, hfull]
  by_cases hnone : joined run = []
  · rw [if_pos hnone, if_pos hnone]
  · rw [if_neg hnone, if_neg hnone]
    exact hfull

/-- Without any, it is decoded into the buffer as the entries before have left it. -/
theorem nameAt_of_no_run {pre : List DirEntry} (hpre : EndsShort pre) :
    s.nameAt (pre ++ []) u = getName u.entry (s.freshNames.after pre).part := by
  have hfull : (s.freshNames.after pre).full = [] := after_short_full hpre _
  rw [Server.nameAt, List.append_nil, Names.own, if_pos hfull]

/-- A long name is read as its low bytes. -/
theorem LiveAt.nameAt_long {es before : List DirEntry} {u : Slot} {units : List UInt16}
    (h : LiveAt es before u (.long units)) (hlow : ∀ ch ∈ units, ch.toUInt8 ≠ 0) :
    s.nameAt before u = units.map UInt16.toUInt8 := by
  rcases h with ⟨pre, run, post, _, rfl, hpre, _, hspelled⟩
  cases hspelled with
  | long hne hlen _ =>
    have hcount : pieceCount units.length ≤ 20 := by
      unfold pieceCount
      omega
    have hlong : ∀ de ∈ wideSet units u, de.type = .long := wideSlots_long hcount
    have htext : joined (wideSet units u) = units.map UInt16.toUInt8 := joined_wideSet hlow hlen u
    have hsome : units.map UInt16.toUInt8 ≠ [] := by simpa using hne
    have hrun : wideSet units u ≠ [] := by
      intro hnil
      rw [hnil] at htext
      exact hsome htext.symm
    rw [nameAt_of_run hpre hrun hlong, htext, Names.own, if_neg hsome]

theorem LiveAt.nameAt_short {es before : List DirEntry} {u : Slot} {bytes : List UInt8}
    (h : LiveAt es before u (.short bytes)) : bytes = u.shortName ∧ u.ValidName ∧
      u.entry.type = .short ∧ ∃ part, s.nameAt before u = getName u.entry part := by
  rcases h with ⟨pre, run, post, _, rfl, hpre, hshort, hspelled⟩
  cases hspelled with
  | short hvalid =>
    exact ⟨rfl, hvalid, hshort, (s.freshNames.after pre).part, nameAt_of_no_run hpre⟩

/-- A short name can be read off its string. -/
theorem LiveAt.padName_nameAt {es before : List DirEntry} {u : Slot} {bytes : List UInt8}
    (h : LiveAt es before u (.short bytes)) (hbase : Padded (bytes.take 8)) :
    padName (s.nameAt before u) = bytes := by
  rcases h.nameAt_short (s := s) with ⟨rfl, hvalid, hshort, part, hname⟩
  rw [hname]
  exact hvalid.padName_getName hshort hbase part

theorem LiveAt.nameAt_ne {es before₁ before₂ : List DirEntry} {u₁ u₂ : Slot} {n₁ n₂ : FatName}
    (h₁ : LiveAt es before₁ u₁ n₁) (h₂ : LiveAt es before₂ u₂ n₂) (hapart : Apart n₁ n₂) :
    s.nameAt before₁ u₁ ≠ s.nameAt before₂ u₂ := by
  intro heq
  cases hapart with
  | long hus hvs hne =>
    rw [h₁.nameAt_long hus, h₂.nameAt_long hvs] at heq
    exact hne heq
  | short hb hc hne =>
    apply hne
    rw [← h₁.padName_nameAt (s := s) hb, heq, h₂.padName_nameAt hc]

theorem LiveAt.mem_named {es before : List DirEntry} {u : Slot} {name : FatName}
    (h : LiveAt es before u name) : (u.entry, s.nameAt before u) ∈ named s.freshNames es := by
  rcases h with ⟨_, _, post, rfl, _, _, hshort, _⟩
  rw [named_append, named_cons_short hshort]
  exact List.mem_append_right _ List.mem_cons_self

/-! ### Searches -/

/-- On the way to an empty slot the cursor is nowhere twice. -/
theorem Steps.place_unique {es es' rest : List DirEntry} {d₁ : Drive} (h : Steps d es d₁)
    (h' : Steps d es' d₁) (hrest : Steps d₁ rest d') (hend : d'.dirBuff.de.type = .undefined) :
    es = es' := by
  have hsame := (h.append hrest).end_unique (h'.append hrest) hend hend
  exact List.append_cancel_right hsame

/-- **Names that differ in what is kept of them decode to different strings**, and the
    search for one of them finds an entry, but does not stop at the other.  The directory
    may hold any other slots, on any disk and in any state. -/
theorem decoded_names_differ {es before₁ before₂ : List DirEntry} {u₁ u₂ : Slot} {n₁ n₂ : FatName}
    (hsteps : Steps s.toDrive es d) (hend : d.dirBuff.de.type = .undefined)
    (h₁ : LiveAt es before₁ u₁ n₁) (h₂ : LiveAt es before₂ u₂ n₂) (hapart : Apart n₁ n₂) :
    s.nameAt before₁ u₁ ≠ s.nameAt before₂ u₂ ∧
      ∃ s', Returns (findChild (s.nameAt before₁ u₁)) s 0 s' ∧
        ¬ Steps s.toDrive before₂ s'.toDrive := by
  have hne : s.nameAt before₁ u₁ ≠ s.nameAt before₂ u₂ := h₁.nameAt_ne h₂ hapart
  have hsome : ((named s.freshNames es).find? (·.2 = s.nameAt before₁ u₁)).isSome := by
    rw [List.find?_isSome]
    exact ⟨_, h₁.mem_named, by simp⟩
  rcases Option.isSome_iff_exists.mp hsome with ⟨x, hx⟩
  rcases hsteps.returns_findChild_first hx with ⟨pre, post, s', hfind, hes, hpre, _, hpost, hname⟩
  refine ⟨hne, s', hfind, ?_⟩
  intro hother
  -- the stop would be at the slot of the other entry, which goes by another name
  have hplace := hpre.place_unique hother hpost hend
  rcases h₂ with ⟨_, _, post₂, hes₂, _⟩
  rw [hplace, hes₂] at hes
  injection List.append_cancel_left hes with hentry _
  rw [hplace, ← hentry] at hname
  exact hne hname.symm

/-! ### Names that clash -/

/-- A search stops at an entry that no entry before it shares its string with. -/
theorem Steps.stops_at {before post : List DirEntry} {u : Slot}
    (h : Steps s.toDrive (before ++ u.entry :: post) d) (hshort : u.entry.type = .short)
    (hnone : ∀ x ∈ named s.freshNames before, x.2 ≠ s.nameAt before u) :
    ∃ s', Returns (findChild (s.nameAt before u)) s 0 s' ∧ Steps s.toDrive before s'.toDrive := by
  rcases h.split with ⟨d₁, hpre, hde, _⟩
  have hstop : d₁.dirBuff.de.type = .short ∧
      ((s.freshNames.after before).own d₁.dirBuff.de).full = s.nameAt before u := by
    rw [hde]
    exact ⟨hshort, rfl⟩
  exact ⟨_, returns_findChild.mpr ⟨before, d₁, hpre, hnone, .inr ⟨rfl, hstop⟩, rfl⟩, hpre⟩

namespace Clash

def file (name : String) : Slot := rawSlot (ascii name) 0x20 3 5

/-- Long names of one character each, U+0141, U+0041 and U+0042, and four files without
    a long name, of which two have a space inside. -/
def slots : List Slot :=
  wideSlots [0x141] (file "A~1        ").nameSum 1 1 ++ [file "A~1        "] ++
  wideSlots [0x41] (file "A~2        ").nameSum 1 1 ++ [file "A~2        "] ++
  wideSlots [0x42] (file "B~1        ").nameSum 1 1 ++ [file "B~1        "] ++
  [file "X Y        ", file "X Z        ", file "P       TXT", file "Q          "]

def entries : List DirEntry := slots.map Slot.entry

def image : Image :=
  bootSector 512 1 1 8 1 2 ++ [(512 + 8, le32Bytes 0x0FFFFFFF), (1024, slotBytes slots)]

def volume : Volume := image.volume 4096 (by decide +kernel)

def addrs : List Nat := [1024, 1056, 1088, 1120, 1152, 1184, 1216, 1248, 1280, 1312]

theorem bootable : volume.Bootable := Image.bootable _ (by decide) (by decide +kernel)

theorem isData : volume.IsData 2 := by
  unfold Volume.IsData
  decide +kernel

theorem lists_root : volume.Lists 2 addrs :=
  ⟨by decide +kernel, [2], 1344, (volume.addrs 32 2).drop 11, .last isData, by decide +kernel,
    by decide +kernel⟩

theorem mounted : ∃ s d,
    Returns (doMount (diskEnv volume.dev) mountMessage) (Server.initial fun _ => []) OK s ∧
      Steps s.toDrive entries d ∧ d.dirBuff.de.type = .undefined := by
  rcases bootable.mounted isData fun _ => [] with ⟨s, hmount, hcwd, _⟩
  rcases lists_root.steps_all hcwd.cursor hcwd.on with ⟨d, hsteps, _, hend⟩
  have hslots : addrs.map volume.slot = slots :=
    Image.map_slot (image.take 5) [] slots 1024 rfl (by decide +kernel)
  have hentries : addrs.map (fun a => (volume.slot a).entry) = entries := by
    rw [entries, ← hslots, List.map_map]
    rfl
  exact ⟨s, d, hmount, hentries ▸ hsteps, hend⟩

theorem file_short {name : String} (h : file name 0 ≠ 0) : (file name).entry.type = .short := by
  have hattr : file name 11 ≠ 0x0F := (by decide : (0x20 : UInt8) ≠ 0x0F)
  change (file name).dirType = .short
  rw [Slot.dirType, if_neg h, if_neg fun hlong => hattr hlong.1]

theorem ends_short {k : Nat} {last : String}
    (h : (entries.take k).getLast? = some (file last).entry) (hlast : file last 0 ≠ 0) :
    ∀ de ∈ (entries.take k).getLast?, de.type = .short := by
  rw [h]
  simp [file_short hlast]

theorem liveAt_long {k : Nat} {name : String} {unit : UInt16}
    (hes : entries = entries.take k ++ wideSet [unit] (file name) ++
      (file name).entry :: entries.drop (k + 2))
    (hpre : ∀ de ∈ (entries.take k).getLast?, de.type = .short) (hunit : unit ≠ 0)
    (hname : file name 0 ≠ 0) :
    LiveAt entries (entries.take k ++ wideSet [unit] (file name)) (file name) (.long [unit]) :=
  ⟨_, _, _, hes, rfl, hpre, file_short hname, .long (by simp) (by simp) (by simpa using hunit)⟩

theorem liveAt_short {k : Nat} {name : String}
    (hes : entries = entries.take k ++ (file name).entry :: entries.drop (k + 1))
    (hpre : ∀ de ∈ (entries.take k).getLast?, de.type = .short)
    (hfirst : file name 0 ≠ 0x20 ∧ Padded (file name).shortExt)
    (hchars : (file name).shortName.all (fun ch => ch != 0 && ch != 0x2E) = true) :
    LiveAt entries (entries.take k) (file name) (.short (file name).shortName) := by
  have hproper : (file name).ProperName := ⟨hfirst.1, by simpa using hchars, hfirst.2⟩
  have hname : file name 0 ≠ 0 := (hproper.chars _ List.mem_cons_self).1
  exact ⟨_, [], _, hes, by simp, hpre, file_short hname, .short (.inl hproper)⟩

theorem live_0141 : LiveAt entries (entries.take 0 ++ wideSet [0x141] (file "A~1        "))
    (file "A~1        ") (.long [0x141]) :=
  liveAt_long rfl (by simp) (by decide) (by decide)

theorem live_0041 : LiveAt entries (entries.take 2 ++ wideSet [0x41] (file "A~2        "))
    (file "A~2        ") (.long [0x41]) :=
  liveAt_long rfl (ends_short rfl (by decide)) (by decide) (by decide)

theorem live_0042 : LiveAt entries (entries.take 4 ++ wideSet [0x42] (file "B~1        "))
    (file "B~1        ") (.long [0x42]) :=
  liveAt_long rfl (ends_short rfl (by decide)) (by decide) (by decide)

theorem live_xy : LiveAt entries (entries.take 6) (file "X Y        ")
    (.short (file "X Y        ").shortName) :=
  liveAt_short rfl (ends_short rfl (by decide)) (by decide) (by decide)

theorem live_xz : LiveAt entries (entries.take 7) (file "X Z        ")
    (.short (file "X Z        ").shortName) :=
  liveAt_short rfl (ends_short rfl (by decide)) (by decide) (by decide)

theorem live_p : LiveAt entries (entries.take 8) (file "P       TXT")
    (.short (file "P       TXT").shortName) :=
  liveAt_short rfl (ends_short rfl (by decide)) (by decide) (by decide)

theorem live_q : LiveAt entries (entries.take 9) (file "Q          ")
    (.short (file "Q          ").shortName) :=
  liveAt_short rfl (ends_short rfl (by decide)) (by decide) (by decide)

end Clash

/-- In the directory of the clashes U+0141 and U+0042 stay apart, and so do two files
    without a long name. -/
theorem names_differ_beside_clash : ∃ (s : Server) (d : Drive) (b₁ b₂ b₃ b₄ : List DirEntry)
    (u₁ u₂ u₃ u₄ : Slot) (x y : List UInt8),
    Steps s.toDrive Clash.entries d ∧ d.dirBuff.de.type = .undefined ∧
    LiveAt Clash.entries b₁ u₁ (.long [0x141]) ∧ LiveAt Clash.entries b₂ u₂ (.long [0x42]) ∧
    LiveAt Clash.entries b₃ u₃ (.short x) ∧ LiveAt Clash.entries b₄ u₄ (.short y) ∧
    (s.nameAt b₁ u₁ ≠ s.nameAt b₂ u₂ ∧ ∃ s', Returns (findChild (s.nameAt b₁ u₁)) s 0 s' ∧
      ¬ Steps s.toDrive b₂ s'.toDrive) ∧
    s.nameAt b₃ u₃ ≠ s.nameAt b₄ u₄ ∧ ∃ s', Returns (findChild (s.nameAt b₃ u₃)) s 0 s' ∧
      ¬ Steps s.toDrive b₄ s'.toDrive := by
  rcases Clash.mounted with ⟨s, d, _, hsteps, hend⟩
  have hlong : Apart (.long [0x141]) (.long [0x42]) :=
    .long (List.forall_mem_singleton.mpr (by decide)) (List.forall_mem_singleton.mpr (by decide))
      (by decide)
  have hshort : Apart (.short (Clash.file "P       TXT").shortName)
      (.short (Clash.file "Q          ").shortName) :=
    .short (by decide +kernel) (by decide +kernel) (by decide +kernel)
  exact ⟨s, d, _, _, _, _, _, _, _, _, _, _, hsteps, hend, Clash.live_0141, Clash.live_0042,
    Clash.live_p, Clash.live_q,
    decoded_names_differ hsteps hend Clash.live_0141 Clash.live_0042 hlong,
    decoded_names_differ hsteps hend Clash.live_p Clash.live_q hshort⟩

/-- U+0141 and U+0041 are one name to the server, and so are `X Y` and `X Z`: the search
    for the string of the second stops at the first. -/
theorem different_names_clash : ∃ s d s₁ s₂ b₁ b₂ b₃ b₄ u₁ u₂ u₃ u₄ x y,
    Returns (doMount (diskEnv Clash.volume.dev) mountMessage) (Server.initial fun _ => []) OK s ∧
    Steps s.toDrive Clash.entries d ∧ d.dirBuff.de.type = .undefined ∧
    LiveAt Clash.entries b₁ u₁ (.long [0x141]) ∧ LiveAt Clash.entries b₂ u₂ (.long [0x41]) ∧
    s.nameAt b₁ u₁ = s.nameAt b₂ u₂ ∧
    Returns (findChild (s.nameAt b₂ u₂)) s 0 s₁ ∧ Steps s.toDrive b₁ s₁.toDrive ∧
    LiveAt Clash.entries b₃ u₃ (.short x) ∧ LiveAt Clash.entries b₄ u₄ (.short y) ∧ x ≠ y ∧
    s.nameAt b₃ u₃ = s.nameAt b₄ u₄ ∧
    Returns (findChild (s.nameAt b₄ u₄)) s 0 s₂ ∧ Steps s.toDrive b₃ s₂.toDrive := by
  rcases Clash.mounted with ⟨s, d, hmount, hsteps, hend⟩
  have hlong : s.nameAt _ (Clash.file "A~1        ") = s.nameAt _ (Clash.file "A~2        ") :=
    (Clash.live_0141.nameAt_long (List.forall_mem_singleton.mpr (by decide))).trans
      (Clash.live_0041.nameAt_long (List.forall_mem_singleton.mpr (by decide))).symm
  have hxy : s.nameAt (Clash.entries.take 6) (Clash.file "X Y        ") = ascii "X" := by
    rcases Clash.live_xy.nameAt_short (s := s) with ⟨_, _, hshort, part, hname⟩
    rw [hname, getName_of_base_ne rfl (fun _ => by decide +kernel) (by simp [hshort])]
    exact (by decide +kernel : getName (Clash.file "X Y        ").entry [] = ascii "X")
  have hxz : s.nameAt (Clash.entries.take 7) (Clash.file "X Z        ") = ascii "X" := by
    rcases Clash.live_xz.nameAt_short (s := s) with ⟨_, _, hshort, part, hname⟩
    rw [hname, getName_of_base_ne rfl (fun _ => by decide +kernel) (by simp [hshort])]
    exact (by decide +kernel : getName (Clash.file "X Z        ").entry [] = ascii "X")
  have hfirst : named s.freshNames
      (Clash.entries.take 0 ++ wideSet [0x141] (Clash.file "A~1        ")) = [] := by
    rw [Server.freshNames, named_junk _ [] _ (by decide +kernel)]
    decide +kernel
  have hothers : ∀ x ∈ named s.freshNames (Clash.entries.take 6), x.2 ≠ ascii "X" := by
    rw [Server.freshNames, named_junk _ [] _ (by decide +kernel)]
    decide +kernel
  rcases Clash.live_0141 with ⟨_, _, post, hes, _, _, hshort, _⟩
  rcases Steps.stops_at (hes ▸ hsteps) hshort (by rw [hfirst]; simp) with ⟨s₁, hfind₁, hstop₁⟩
  rcases Clash.live_xy with ⟨_, _, post', hes', _, _, hshort', _⟩
  rcases Steps.stops_at (hes' ▸ hsteps) hshort' (by rw [hxy]; exact hothers) with
    ⟨s₂, hfind₂, hstop₂⟩
  rw [hlong] at hfind₁
  rw [hxy, ← hxz] at hfind₂
  exact ⟨s, d, s₁, s₂, _, _, _, _, _, _, _, _, _, _, hmount, hsteps, hend, Clash.live_0141,
    Clash.live_0041, hlong, hfind₁, hstop₁, Clash.live_xy, Clash.live_xz, by decide +kernel,
    hxy.trans hxz.symm, hfind₂, hstop₂⟩

end Fat32s
