/-
  Fat32s/Format.lean
  ==================
  **What a FAT32 writer puts into a directory.**

  The writer is stated from the format and not from the server: a short slot
  holds the padded 8.3 name, and a long name comes before it in slots of 13
  characters each, the last piece first, ended by a zero character and filled up
  with 0xFFFF when it does not end with its slot.  `named_encode` says that the
  scans of the server read such entries back.
-/
import Fat32s.Directory

namespace Fat32s

/-! ### The writer -/

/-- A directory entry as a writer is given it.  `info` holds the bytes of the
    short slot from its 12th on: times, first cluster and size. -/
structure FileEntry where
  base : Name
  ext : Name
  attributes : UInt8
  info : Nat → UInt8
  long : Option Name
  base_ne : base ≠ []
  base_le : base.length ≤ 8
  ext_le : ext.length ≤ 3
  clean : ∀ ch ∈ base ++ ext, ch ≠ 0x20 ∧ ch ≠ 0
  first : (base.head? ≠ some 0x2E ∧ base.head? ≠ some 0xE5) ∨
    ((base = ascii "." ∨ base = ascii "..") ∧ ext = [])
  no_label : attributes &&& 0x08 = 0
  long_ok : ∀ name ∈ long, name ≠ [] ∧ name.length ≤ 255 ∧ ∀ ch ∈ name, 0x20 ≤ ch ∧ ch ≤ 0x7E

namespace FileEntry

/-- The name a user sees. -/
def shownName (e : FileEntry) : Name :=
  match e.long with
  | some name => name
  | none => if e.ext = [] then e.base else e.base ++ 0x2E :: e.ext

def shortSlot (e : FileEntry) : Slot := fun i =>
  if i.val < 8 then e.base.getD i.val 0x20
  else if i.val < 11 then e.ext.getD (i.val - 8) 0x20
  else if i.val = 11 then e.attributes
  else e.info (i.val - 12)

/-- The checksum of the 8.3 name that every long slot carries. -/
def checksum (e : FileEntry) : UInt8 :=
  (e.shortSlot.shortBase ++ e.shortSlot.shortExt).foldl
    (fun sum ch => (sum >>> 1 ||| sum <<< 7) + ch) 0

end FileEntry

/-- Character `i` of a long name, with the terminator and the filling. -/
def longUnit (name : Name) (i : Nat) : UInt16 :=
  if i < name.length then (name.getD i 0).toUInt16 else if i = name.length then 0 else 0xFFFF

/-- Byte `b` (0 or 1) of a character. -/
def unitByte (ch : UInt16) (b : Nat) : UInt8 := if b = 0 then ch.toUInt8 else (ch >>> 8).toUInt8

/-- The long slot with sequence byte `ord` that holds 13 characters. -/
def longSlot (ord checksum : UInt8) (chars : Nat → UInt16) : Slot := fun i =>
  if i.val = 0 then ord
  else if i.val < 11 then unitByte (chars ((i.val - 1) / 2)) ((i.val - 1) % 2)
  else if i.val = 11 then 0x0F
  else if i.val = 12 then 0
  else if i.val = 13 then checksum
  else if i.val < 26 then unitByte (chars (5 + (i.val - 14) / 2)) ((i.val - 14) % 2)
  else if i.val < 28 then 0
  else unitByte (chars (11 + (i.val - 28) / 2)) ((i.val - 28) % 2)

/-- The sequence byte of piece `k` of `count`: the number of the piece from 1
    on, with bit 0x40 in the slot that comes first. -/
def longOrd (count k : Nat) : UInt8 :=
  UInt8.ofNat (k + 1) ||| (if k + 1 = count then 0x40 else 0)

/-- The slots of the first `k` of `count` pieces, the last piece first. -/
def longSlots (name : Name) (checksum : UInt8) (count : Nat) : Nat → List Slot
  | 0 => []
  | k + 1 => longSlot (longOrd count k) checksum (fun j => longUnit name (13 * k + j)) ::
      longSlots name checksum count k

/-- `ceil(n / 13)`. -/
def pieceCount (n : Nat) : Nat := (n + 12) / 13

namespace FileEntry

def encode (e : FileEntry) : List Slot :=
  (match e.long with
    | some name => longSlots name e.checksum (pieceCount name.length) (pieceCount name.length)
    | none => []) ++ [e.shortSlot]

end FileEntry

/-! ### Reading short names back -/

theorem map_getD_range {l : Name} {n : Nat} (x : UInt8) (h : l.length ≤ n) :
    (List.range n).map (fun i => l.getD i x) = l ++ List.replicate (n - l.length) x := by
  induction n generalizing l with
  | zero =>
    have : l = [] := List.length_eq_zero_iff.mp (by omega)
    simp [this]
  | succ n ih =>
    rw [List.range_succ_eq_map, List.map_cons, List.map_map]
    cases l with
    | nil =>
      have := ih (l := []) (by simp)
      simp only [List.getD_nil] at this
      simp [List.replicate_succ, Function.comp_def, this]
    | cons ch l =>
      have := ih (l := l) (by simpa using h)
      simpa [Function.comp_def] using this

theorem takeWhile_padded {l : Name} {n : Nat} (hlen : l.length ≤ n) (h : ∀ ch ∈ l, ch ≠ 0x20) :
    ((List.range n).map fun i => l.getD i 0x20).takeWhile (· ≠ 0x20) = l := by
  rw [map_getD_range _ hlen, List.takeWhile_append_of_pos (by simpa using h)]
  simp

theorem cstr_eq_self {l : Name} (h : ∀ ch ∈ l, ch ≠ 0) : cstr l = l := by
  have happ : (l ++ []).takeWhile (· ≠ 0) = l ++ [].takeWhile (· ≠ 0) :=
    List.takeWhile_append_of_pos (by simpa using h)
  simpa [cstr] using happ

namespace FileEntry

variable (e : FileEntry)

theorem base_clean : ∀ ch ∈ e.base, ch ≠ 0x20 ∧ ch ≠ 0 :=
  fun ch hch => e.clean ch (List.mem_append_left _ hch)

theorem ext_clean : ∀ ch ∈ e.ext, ch ≠ 0x20 ∧ ch ≠ 0 :=
  fun ch hch => e.clean ch (List.mem_append_right _ hch)

theorem shortBase_takeWhile : e.shortSlot.shortBase.takeWhile (· ≠ 0x20) = e.base := by
  have hbase : e.shortSlot.shortBase = (List.range 8).map fun i => e.base.getD i 0x20 := rfl
  rw [hbase]
  exact takeWhile_padded e.base_le fun ch hch => (e.base_clean ch hch).1

theorem shortExt_takeWhile : e.shortSlot.shortExt.takeWhile (· ≠ 0x20) = e.ext := by
  have hext : e.shortSlot.shortExt = (List.range 3).map fun i => e.ext.getD i 0x20 := rfl
  rw [hext]
  exact takeWhile_padded e.ext_le fun ch hch => (e.ext_clean ch hch).1

theorem shortSlot_zero : e.shortSlot 0 ≠ 0 := by
  change e.base.getD 0 0x20 ≠ 0
  cases hbase : e.base with
  | nil => exact (e.base_ne hbase).elim
  | cons ch rest => exact (e.base_clean ch (by simp [hbase])).2

theorem shortSlot_type : e.shortSlot.entry.type = .short := by
  have hattr : e.shortSlot 11 ≠ 0x0F := by
    intro h
    have hlabel := e.no_label
    rw [show e.attributes = 0x0F from h] at hlabel
    exact absurd hlabel (by decide)
  change e.shortSlot.dirType = .short
  unfold Slot.dirType
  rw [if_neg e.shortSlot_zero, if_neg fun h => hattr h.1]

/-- The short name is read back, whatever the buffer held before. -/
theorem getName_shortSlot (junk : Name) : getName e.shortSlot.entry junk =
    if e.ext = [] then e.base else e.base ++ 0x2E :: e.ext := by
  have htype := e.shortSlot_type
  have hu : e.shortSlot.entry.u = e.shortSlot := rfl
  have hhead : (e.base ++ junk).head? = e.base.head? := by
    cases hbase : e.base with
    | nil => exact (e.base_ne hbase).elim
    | cons ch rest => rfl
  have hbase := cstr_eq_self fun ch hch => (e.base_clean ch hch).2
  have hall : cstr (e.base ++ 0x2E :: e.ext) = e.base ++ 0x2E :: e.ext := by
    refine cstr_eq_self ?_
    intro ch hch
    rcases List.mem_append.mp hch with h | h
    · exact (e.base_clean ch h).2
    · rcases List.mem_cons.mp h with rfl | h
      · decide
      · exact (e.ext_clean ch h).2
  simp only [getName, htype, hu, shortBase_takeWhile, shortExt_takeWhile, hhead]
  by_cases hext : e.ext = []
  · simp only [if_pos hext, hbase, ite_self]
  · rcases e.first with hfirst | hdots
    · simp only [if_neg hfirst.1, if_neg hext, hall]
    · exact (hext hdots.2).elim

end FileEntry

/-! ### Reading long names back -/

theorem longUnit_drop {name : Name} {p : Nat} (h : p ≤ name.length) (j : Nat) :
    longUnit name (p + j) = longUnit (name.drop p) j := by
  have hlen : (name.drop p).length = name.length - p := List.length_drop
  have hlt : p + j < name.length ↔ j < (name.drop p).length := by omega
  have heq : p + j = name.length ↔ j = (name.drop p).length := by omega
  unfold longUnit
  simp only [hlt, heq, List.getD_eq_getElem?_getD, List.getElem?_drop]

/-- The terminator cuts the filling off. -/
theorem cstr_longUnits {l : Name} (h : ∀ ch ∈ l, ch ≠ 0) (m : Nat) :
    cstr ((List.range m).map fun j => (longUnit l j).toUInt8) = l.take m := by
  induction m generalizing l with
  | zero => simp [cstr]
  | succ m ih =>
    rw [List.range_succ_eq_map, List.map_cons, List.map_map]
    cases l with
    | nil => simp [cstr, longUnit]
    | cons ch l =>
      have hch : ch ≠ 0 := h ch (List.mem_cons_self ..)
      have htail : (fun j => (longUnit (ch :: l) j).toUInt8) ∘ Nat.succ =
          fun j => (longUnit l j).toUInt8 := by
        funext j
        have : longUnit (ch :: l) (1 + j) = longUnit ((ch :: l).drop 1) j :=
          longUnit_drop (by simp) j
        rw [Nat.add_comm] at this
        simp only [Function.comp_def, Nat.succ_eq_add_one, this, List.drop_one, List.tail_cons]
      have hrest := ih (l := l) fun ch' hch' => h ch' (List.mem_cons_of_mem _ hch')
      rw [htail, List.take_succ_cons, ← hrest]
      simp [cstr, longUnit, hch]

theorem longChars_longSlot (ord checksum : UInt8) (chars : Nat → UInt16) :
    (longSlot ord checksum chars).longChars = (List.range 13).map fun j => (chars j).toUInt8 :=
  rfl

theorem longOrd_ne_zero {count k : Nat} (h : k < 20) : longOrd count k ≠ 0 := by
  have hall : ∀ k < 20, UInt8.ofNat (k + 1) ||| 0x40 ≠ 0 ∧ UInt8.ofNat (k + 1) ||| 0 ≠ 0 := by
    decide
  unfold longOrd
  split
  · exact (hall k h).1
  · exact (hall k h).2

theorem longSlot_type {ord : UInt8} (checksum : UInt8) (chars : Nat → UInt16) (h : ord ≠ 0) :
    (longSlot ord checksum chars).entry.type = .long := by
  change (longSlot ord checksum chars).dirType = .long
  unfold Slot.dirType
  rw [if_neg (show longSlot ord checksum chars 0 ≠ 0 from h)]
  rfl

theorem getName_long {u : Slot} {part : Name} (h : u.entry.type = .long) :
    getName u.entry part = cstr u.longChars := by
  simp only [getName, h]
  rfl

/-- The pieces from the `k`-th down put the rest of the name together. -/
theorem named_longSlots {name : Name} (hzero : ∀ ch ∈ name, ch ≠ 0) (hlen : name.length ≤ 255)
    (checksum : UInt8) (count k : Nat) (hk : k ≤ pieceCount name.length) (part : Name)
    (rest : List DirEntry) :
    ∃ part', named ⟨part, name.drop (13 * k)⟩
      ((longSlots name checksum count k).map Slot.entry ++ rest) = named ⟨part', name⟩ rest := by
  induction k generalizing part with
  | zero => exact ⟨part, by simp [longSlots]⟩
  | succ k ih =>
    unfold pieceCount at hk ih
    have hle : 13 * k ≤ name.length := by omega
    have htype := longSlot_type checksum (fun j => longUnit name (13 * k + j))
      (longOrd_ne_zero (show k < 20 by omega) : longOrd count k ≠ 0)
    have hname : getName (longSlot (longOrd count k) checksum
        fun j => longUnit name (13 * k + j)).entry part = (name.drop (13 * k)).take 13 := by
      rw [getName_long htype, longChars_longSlot]
      simp only [longUnit_drop hle]
      exact cstr_longUnits (fun ch hch => hzero ch (List.mem_of_mem_drop hch)) 13
    have hjoin : (name.drop (13 * k)).take 13 ++ name.drop (13 * (k + 1)) = name.drop (13 * k) := by
      rw [Nat.mul_add, Nat.mul_one, ← List.drop_drop, List.take_append_drop]
    obtain ⟨part', hrest⟩ := ih (by omega) (name.drop (13 * k))
    refine ⟨part', ?_⟩
    rw [longSlots, List.map_cons, List.cons_append, named_cons_of_ne_short (by simp [htype])]
    simp only [Names.next, Names.piece, htype, hname, hjoin]
    exact hrest

/-- **The scans read back what a writer wrote**: one entry, under its name. -/
theorem named_encode (e : FileEntry) (junk : Name) (rest : List DirEntry) :
    ∃ part, named ⟨junk, []⟩ (e.encode.map Slot.entry ++ rest) =
      (e.shortSlot.entry, e.shownName) :: named ⟨part, []⟩ rest := by
  have hshort := e.shortSlot_type
  unfold FileEntry.encode FileEntry.shownName
  cases hlong : e.long with
  | none =>
    refine ⟨getName e.shortSlot.entry junk, ?_⟩
    simp only [List.nil_append, List.map_cons, List.map_nil, List.cons_append]
    rw [named_cons_short hshort]
    simp only [Names.own, Names.next, hshort, if_true, e.getName_shortSlot junk]
  | some name =>
    obtain ⟨hne, hlen, hprint⟩ := e.long_ok name (by simp [hlong])
    have hzero : ∀ ch ∈ name, ch ≠ 0 := by
      intro ch hch hz
      have := (hprint ch hch).1
      rw [hz] at this
      exact absurd this (by decide)
    have hall : name.drop (13 * pieceCount name.length) = [] :=
      List.drop_eq_nil_of_le (by unfold pieceCount; omega)
    obtain ⟨part, hpieces⟩ := named_longSlots hzero hlen e.checksum (pieceCount name.length)
      (pieceCount name.length) (Nat.le_refl _) junk (e.shortSlot.entry :: rest)
    rw [hall] at hpieces
    refine ⟨part, ?_⟩
    simp only [List.map_append, List.map_cons, List.map_nil, List.append_assoc, List.cons_append,
      List.nil_append, hpieces]
    rw [named_cons_short hshort]
    simp only [Names.own, Names.next, hshort, if_neg hne]

theorem named_flatMap_encode (es : List FileEntry) (junk : Name) :
    named ⟨junk, []⟩ ((es.flatMap FileEntry.encode).map Slot.entry) =
      es.map fun e => (e.shortSlot.entry, e.shownName) := by
  induction es generalizing junk with
  | nil => rfl
  | cons e es ih =>
    obtain ⟨part, hhead⟩ := named_encode e junk ((es.flatMap FileEntry.encode).map Slot.entry)
    rw [List.flatMap_cons, List.map_append, hhead, ih part, List.map_cons]

/-- No slot a writer makes starts with a zero byte. -/
theorem encode_live {e : FileEntry} {u : Slot} (h : u ∈ e.encode) : u 0 ≠ 0 := by
  have hlongs : ∀ (name : Name) (count k : Nat), k ≤ 20 →
      u ∈ longSlots name e.checksum count k → u 0 ≠ 0 := by
    intro name count k
    induction k with
    | zero => intro _ h; cases h
    | succ k ih =>
      intro hk h
      rcases List.mem_cons.mp h with rfl | h
      · exact longOrd_ne_zero (by omega)
      · exact ih (by omega) h
  unfold FileEntry.encode at h
  rcases List.mem_append.mp h with h | h
  · cases hlong : e.long with
    | none => simp [hlong] at h
    | some name =>
      have hlen := (e.long_ok name (by simp [hlong])).2.1
      simp only [hlong] at h
      exact hlongs name _ _ (by unfold pieceCount; omega) h
  · rw [List.mem_singleton.mp h]
    exact e.shortSlot_zero

end Fat32s
