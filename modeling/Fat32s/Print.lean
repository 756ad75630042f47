/-
  Fat32s/Print.lean
  =================
  **Formatted output** (the parts of `print.c` that the server calls).

  A server prints through the `printf` of the system library, which hands every character
  to `kputc` (`libsys/kputc.c`).  That one takes a zero for the end of the text and puts
  it nowhere, so of what is printed only the other characters reach `Server.out`.  `%d`
  prints its argument as a signed 32-bit number even where the C argument is unsigned.
-/
import Fat32s.Tree

namespace Fat32s

open Fat32s.Lib

/-! ### Characters -/

/-- What a character adds to the output, whether it still waits in `print_buf` or not.  A
    zero only sends off what waits there. -/
def kputc (c : UInt8) : List UInt8 := if c ≠ 0 then [c] else []

/-- The characters of a text that come out. -/
def shown (bytes : List UInt8) : List UInt8 := bytes.filter (· ≠ 0)

theorem flatMap_kputc (bytes : List UInt8) : bytes.flatMap kputc = shown bytes := by
  induction bytes with
  | nil => rfl
  | cons c bytes ih =>
    rw [List.flatMap_cons, ih]
    by_cases hc : c = 0
    · simp [kputc, shown, hc]
    · simp [kputc, shown, hc]

@[simp] theorem shown_append (a b : List UInt8) : shown (a ++ b) = shown a ++ shown b :=
  List.filter_append ..

theorem shown_eq_self_iff {bytes : List UInt8} : shown bytes = bytes ↔ 0 ∉ bytes := by
  simp only [shown, List.filter_eq_self, decide_eq_true_eq]
  constructor
  · intro h hzero
    exact h 0 hzero rfl
  · rintro h c hc rfl
    exact h hc

def print (bytes : List UInt8) : ServerM Unit :=
  Prog.modify fun s => { s with out := s.out ++ bytes.flatMap kputc }

variable {σ : Type} [Machine σ]

def printf (bytes : List UInt8) : Prog Fault σ Unit := onServer (print bytes)

@[simp] theorem printf_server (bytes : List UInt8) : (printf bytes : ServerM Unit) = print bytes :=
  rfl

/-! ### Conversions of `printf` -/

-- `%d`, `%02d` and `%X`
def decimal (n : UInt32) : List UInt8 := ascii (toString n.toInt32.toInt)

def decimal2 (n : Nat) : List UInt8 := ascii ((if n < 10 then "0" else "") ++ toString n)

def upperHex (n : UInt8) : List UInt8 :=
  (Nat.toDigits 16 n.toNat).map fun c => c.toUpper.toNat.toUInt8

def line (label : String) (value : List UInt8) (ending : String) : List UInt8 :=
  ascii label ++ value ++ ascii ending

/-! ### Directory entries -/

-- bit fields of a FAT time stamp: hours, minutes and two-second steps
def clock (t : UInt16) : List UInt8 :=
  decimal2 ((t &&& 0xf800) >>> 11).toNat ++ ascii ":" ++
    decimal2 ((t &&& 0x07e0) >>> 5).toNat ++ ascii ":" ++ decimal2 ((t &&& 0x001f).toNat * 2)

-- bit fields of a FAT date stamp: years since 1980, month and day
def calendar (d : UInt16) : List UInt8 :=
  decimal (((d &&& 0xfe00) >>> 9).toUInt32 + 1980) ++ ascii "/" ++
    decimal ((d &&& 0x1e0) >>> 5).toUInt32 ++ ascii "/" ++ decimal (d &&& 0x1f).toUInt32

def printShortNameRde (rde : Slot) : Prog Fault σ Unit := do
  let buffer ← onServer newBuffer
  let name ← Machine.getName ⟨.short, rde⟩ buffer
  onServer (store 32 name)
  printf (line "       short_name: " name " \n")

def printRegularDirEntry (rde : Slot) : Prog Fault σ Unit := do
  printf (ascii "Printing regular_dir_entry:\n")
  printShortNameRde rde
  printf (line "       attributes: " (decimal rde.attributes.toUInt32) " \n")
  printf (line "           nt_res: " (decimal rde.ntRes.toUInt32) " \n")
  printf (line "time_created_10ms: " (decimal rde.timeCreated10ms.toUInt32) " \n")
  printf (line "     time_created: " (clock rde.timeCreated) "\n")
  printf (line "     date_created: " (calendar rde.dateCreated) "\n")
  printf (line " date_last_access: " (calendar rde.dateLastAccess) "\n")
  printf (line " first_cluster_hi: " (decimal rde.firstClusterHi.toUInt32) " \n")
  printf (line "  time_last_write: " (clock rde.timeLastWrite) "\n")
  printf (line "  date_last_write: " (calendar rde.dateLastWrite) "\n")
  printf (line " first_cluster_lo: " (decimal rde.firstClusterLo.toUInt32) " \n")
  printf (line "        file_size: " (decimal rde.fileSize) " \n")

def printLongNameRde (name : Name) : Prog Fault σ Unit :=
  printf (line "        long_name: " name " \n")

/-! ### The message printed after a mount -/

def Drive.welcomeStats (d : Drive) : List UInt8 :=
  ascii "***** FAT32 BPB loaded ******\n" ++
  ascii "Drive info:\n" ++
  line "               magic: " (upperHex d.fsData.magic.1 ++ upperHex d.fsData.magic.2) "\n" ++
  line "           jump_boot: " (cstr d.bpb.jumpBoot) "\n" ++
  line "            oem_name: " (cstr d.bpb.oemName) "\n" ++
  line "    bytes_per_sector: " (decimal d.bpb.bps) "\n" ++
  line " sectors_per_cluster: " (decimal d.bpb.spc) "\n" ++
  line "num_reserved_sectors: " (decimal d.bpb.numReservedSectors.toUInt32) "\n" ++
  line "            num_fats: " (decimal d.bpb.numFats.toUInt32) "\n" ++
  line "    total_sectors_32: " (decimal d.bpb.totalSectors32) "\n" ++
  line "         fat_size_32: " (decimal d.bpb.fatSize32) "\n" ++
  line "        root_cluster: " (decimal d.bpb.rootCluster) "\n" ++
  line "             fs_type: " (cstr d.bpb.fsType) "\n" ++
  line "   first_data_sector: " (decimal d.fsData.firstDataSector) "\n" ++
  line "    num_data_sectors: " (decimal d.fsData.numDataSectors) "\n" ++
  line "   num_data_clusters: " (decimal d.fsData.numDataClusters) "\n" ++
  ascii "*****************************\n"

def printWelcomeStats : Prog Fault σ Unit := do
  let s ← globals
  printf s.welcomeStats

/-! ### Texts without zeros -/

/-- No character of the text becomes a zero. -/
def Plain (text : String) : Bool := text.toList.all fun c => 0 < c.toNat && c.toNat < 256

theorem shown_ascii {text : String} (h : Plain text = true) : shown (ascii text) = ascii text := by
  simp only [Plain, List.all_eq_true, Bool.and_eq_true, decide_eq_true_eq] at h
  rw [shown_eq_self_iff, ascii, List.mem_map]
  rintro ⟨c, hc, hzero⟩
  have hmod : c.toNat % 256 = 0 := congrArg UInt8.toNat hzero
  have := h c hc
  omega

theorem plain_append {a b : String} (ha : Plain a = true) (hb : Plain b = true) :
    Plain (a ++ b) = true := by
  simp only [Plain, String.toList_append, List.all_append, Bool.and_eq_true]
  exact ⟨ha, hb⟩

theorem plain_toString (n : Nat) : Plain (toString n) = true := by
  simp only [Plain, List.all_eq_true, Bool.and_eq_true, decide_eq_true_eq]
  intro c hc
  have hmem : c ∈ Nat.toDigits 10 n := by simpa [toString, Nat.repr] using hc
  have hdigit := Nat.isDigit_of_mem_toDigits (by decide) (by decide) hmem
  simp only [Char.isDigit, Bool.and_eq_true, decide_eq_true_eq] at hdigit
  obtain ⟨hzero, hnine⟩ := hdigit
  have hlow : 48 ≤ c.toNat := hzero
  have hhigh : c.toNat ≤ 57 := hnine
  omega

theorem plain_toString_int (i : Int) : Plain (toString i) = true := by
  cases i with
  | ofNat n => exact plain_toString n
  | negSucc n => exact plain_append (by decide) (plain_toString (n + 1))

theorem shown_decimal (n : UInt32) : shown (decimal n) = decimal n :=
  shown_ascii (plain_toString_int _)

theorem shown_decimal2 (n : Nat) : shown (decimal2 n) = decimal2 n := by
  refine shown_ascii (plain_append ?_ (plain_toString n))
  split
  · decide
  · decide

theorem shown_upperHex (n : UInt8) : shown (upperHex n) = upperHex n := by
  have hall : ∀ k < 256, shown (upperHex (UInt8.ofNat k)) = upperHex (UInt8.ofNat k) := by
    decide +kernel
  have := hall n.toNat n.toNat_lt
  rwa [UInt8.ofNat_toNat] at this

theorem shown_cstr (bytes : List UInt8) : shown (cstr bytes) = cstr bytes := by
  rw [shown_eq_self_iff, cstr]
  intro hzero
  have := List.all_eq_true.mp (List.all_takeWhile (p := (· ≠ 0)) (l := bytes)) 0 hzero
  simp at this

theorem shown_getName {de : DirEntry} (h : de.type ≠ .undefined) (name : Name) :
    shown (getName de name) = getName de name := by
  unfold getName
  cases htype : de.type with
  | undefined => exact (h htype).elim
  | short =>
    dsimp only
    split
    · exact shown_cstr _
    · exact shown_cstr _
  | long => exact shown_cstr _

theorem shown_line {label ending : String} (hlabel : Plain label = true)
    (hending : Plain ending = true) (value : List UInt8) :
    shown (line label value ending) = line label (shown value) ending := by
  rw [line, shown_append, shown_append, shown_ascii hlabel, shown_ascii hending, line]

theorem shown_clock (t : UInt16) : shown (clock t) = clock t := by
  have hcolon : shown (ascii ":") = ascii ":" := by decide
  simp only [clock, shown_append, shown_decimal2, hcolon]

theorem shown_calendar (d : UInt16) : shown (calendar d) = calendar d := by
  have hslash : shown (ascii "/") = ascii "/" := by decide
  simp only [calendar, shown_append, shown_decimal, hslash]

theorem Drive.shown_welcomeStats (d : Drive) : shown d.welcomeStats = d.welcomeStats := by
  simp (disch := decide) only [welcomeStats, shown_append, shown_line, shown_ascii, shown_decimal,
    shown_upperHex, shown_cstr]

end Fat32s
