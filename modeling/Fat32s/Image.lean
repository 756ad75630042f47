/-
  Fat32s/Image.lean
  =================
  **Disk images.**

  A disk image is given by the pieces that are not zero.  A device made of one
  delivers everything up to its size, so that an image with a sound boot sector
  is a volume that can be mounted.
-/
import Fat32s.Format
import Fat32s.Mount

namespace Fat32s

open Fat32s.Lib Fat32s.Lib.Prog

/-- The pieces of an image, each with the address it starts at. -/
abbrev Image := List (Nat × List UInt8)

/-- The bytes of an image; earlier pieces lie over later ones. -/
def Image.byte : Image → Nat → UInt8
  | [], _ => 0
  | (base, bytes) :: rest, i =>
    if base ≤ i ∧ i - base < bytes.length then bytes.getD (i - base) 0 else Image.byte rest i

/-- A device that delivers everything it has. -/
def Device.whole (size : Nat) (bytes : Nat → UInt8) : Device where
  size := size
  bytes := bytes
  avail pos len := min len (size - pos)
  avail_le _ _ := Nat.le_refl _

theorem Device.whole_avail {size pos len : Nat} {bytes : Nat → UInt8} (h : pos + len ≤ size) :
    (Device.whole size bytes).avail pos len = len := by
  change min len (size - pos) = len
  omega

def Image.device (image : Image) (size : Nat) : Device := Device.whole size image.byte

/-- The geometry is one that FAT32 allows, and the volume fits into `size` bytes. -/
def Bpb.Sound (bpb : Bpb) (size : Nat) : Prop :=
  bpb.bytesPerSector.toNat ∈ [512, 1024, 2048, 4096] ∧
  bpb.sectorsPerCluster.toNat ∈ [1, 2, 4, 8, 16, 32, 64, 128] ∧
  0 < bpb.numReservedSectors.toNat ∧
  bpb.numReservedSectors.toNat + bpb.numFats.toNat * bpb.fatSize32.toNat ≤
    bpb.totalSectors32.toNat ∧
  bpb.totalSectors32.toNat * bpb.bytesPerSector.toNat ≤ 2 ^ 32 ∧
  bpb.totalSectors32.toNat * bpb.bytesPerSector.toNat ≤ size

instance (bpb : Bpb) (size : Nat) : Decidable (bpb.Sound size) :=
  inferInstanceAs (Decidable (_ ∧ _ ∧ _ ∧ _ ∧ _ ∧ _))

def Image.volume (image : Image) (size : Nat) (h : (Bpb.ofBytes image.byte).Sound size) :
    Volume where
  bpb := Bpb.ofBytes image.byte
  dev := image.device size
  bps_mem := h.1
  spc_mem := h.2.1
  reserved_pos := h.2.2.1
  areas_le := h.2.2.2.1
  size_le := h.2.2.2.2.1
  reads := by
    intro sector hs
    apply Device.whole_avail
    have hle := h.2.2.2.2.2
    have hrow := Nat.mul_le_mul_right (Bpb.ofBytes image.byte).bytesPerSector.toNat
      (show sector + 1 ≤ (Bpb.ofBytes image.byte).totalSectors32.toNat from hs)
    rw [Nat.add_mul, Nat.one_mul] at hrow
    exact Nat.le_trans hrow hle

/-- A signed image of at least one sector can be mounted. -/
theorem Image.bootable {image : Image} {size : Nat} (h : (Bpb.ofBytes image.byte).Sound size)
    (hsize : BPB_SIZE ≤ size) (hsigned : le16 image.byte 510 = MAGIC) :
    (image.volume size h).Bootable :=
  ⟨rfl, Device.whole_avail (by simpa using hsize), hsigned⟩

/-! ### Writing images -/

def le16Bytes (n : UInt16) : List UInt8 := [n.toUInt8, (n >>> 8).toUInt8]

def le32Bytes (n : UInt32) : List UInt8 :=
  [n.toUInt8, (n >>> 8).toUInt8, (n >>> 16).toUInt8, (n >>> 24).toUInt8]

/-- A signed boot sector with one FAT. -/
def bootSector (bps : UInt16) (spc : UInt8) (reserved : UInt16) (total fatSize root : UInt32) :
    Image :=
  [(11, le16Bytes bps ++ [spc] ++ le16Bytes reserved ++ [1]),
   (32, le32Bytes total ++ le32Bytes fatSize), (44, le32Bytes root), (510, [0x55, 0xAA])]

def slotBytes (slots : List Slot) : List UInt8 := slots.flatMap fun u => List.ofFn u

theorem getD_slotBytes {us : List Slot} {k : Nat} (h : k < us.length) (i : Fin 32) :
    (slotBytes us).getD (32 * k + i) 0 = us[k] i := by
  induction us generalizing k with
  | nil => simp at h
  | cons u us ih =>
    rw [slotBytes, List.flatMap_cons]
    cases k with
    | zero =>
      have hlt : i.val < (List.ofFn u).length := by
        rw [List.length_ofFn]
        exact i.isLt
      rw [Nat.mul_zero, Nat.zero_add, List.getD_eq_getElem?_getD, List.getElem?_append_left hlt,
        List.getElem?_eq_getElem hlt, Option.getD_some, List.getElem_ofFn, List.getElem_cons_zero]
    | succ k =>
      have hk : k < us.length := by simpa using h
      have hge : (List.ofFn u).length ≤ 32 * (k + 1) + i := by
        rw [List.length_ofFn]
        omega
      have hsub : 32 * (k + 1) + i - (List.ofFn u).length = 32 * k + i := by
        rw [List.length_ofFn]
        omega
      rw [List.getD_eq_getElem?_getD, List.getElem?_append_right hge, hsub,
        ← List.getD_eq_getElem?_getD]
      exact ih hk

/-- Pieces that end before an address have no say there. -/
theorem Image.byte_append {pre rest : Image} {i : Nat}
    (h : ∀ piece ∈ pre, piece.1 + piece.2.length ≤ i) :
    Image.byte (pre ++ rest) i = Image.byte rest i := by
  induction pre with
  | nil => simp
  | cons piece pre ih =>
    have hpiece := h piece List.mem_cons_self
    rw [List.cons_append, Image.byte, if_neg (by omega)]
    exact ih fun piece' hpiece' => h piece' (List.mem_cons_of_mem _ hpiece')

/-- The slots in a piece of an image are those of the volume. -/
theorem Image.slot_eq {image pre rest : Image} {us : List Slot} {base size k : Nat}
    {h : (Bpb.ofBytes image.byte).Sound size} (himage : image = pre ++ (base, slotBytes us) :: rest)
    (hpre : ∀ piece ∈ pre, piece.1 + piece.2.length ≤ base) (hk : k < us.length) :
    (image.volume size h).slot (base + 32 * k) = us[k] := by
  funext i
  have hlen : (slotBytes us).length = 32 * us.length := by
    simp [slotBytes, List.length_flatMap, Nat.mul_comm]
  have hoff : base + 32 * k + i - base = 32 * k + i := by omega
  have hend : ∀ piece ∈ pre, piece.1 + piece.2.length ≤ base + 32 * k + i := by
    intro piece hpiece
    have := hpre piece hpiece
    omega
  change image.byte (base + 32 * k + i) = us[k] i
  rw [himage, Image.byte_append hend, Image.byte, if_pos (by omega), hoff, getD_slotBytes hk]

/-- All slots of a piece, in their order. -/
theorem Image.map_slot {image : Image} (pre rest : Image) (us : List Slot) (base : Nat)
    {size : Nat} {h : (Bpb.ofBytes image.byte).Sound size}
    (himage : image = pre ++ (base, slotBytes us) :: rest)
    (hpre : ∀ piece ∈ pre, piece.1 + piece.2.length ≤ base) :
    ((List.range us.length).map (base + 32 * ·)).map (image.volume size h).slot = us := by
  apply List.ext_getElem
  · simp
  · intro k _ hk
    simp only [List.getElem_map, List.getElem_range]
    exact Image.slot_eq himage hpre hk

/-- The bytes of a short slot from its 12th on, for a first cluster and a size. -/
def fileInfo (cluster size : UInt32) (i : Nat) : UInt8 :=
  (List.replicate 8 (0 : UInt8) ++ le16Bytes (cluster >>> 16).toUInt16 ++ List.replicate 4 0 ++
    le16Bytes cluster.toUInt16 ++ le32Bytes size).getD i 0

/-- A slot with any eleven name bytes and any attributes, whether or not a writer
    would make it. -/
def rawSlot (name : Name) (attributes : UInt8) (cluster size : UInt32) : Slot := fun i =>
  if i.val < 11 then name.getD i.val 0x20
  else if i.val = 11 then attributes
  else fileInfo cluster size (i.val - 12)

/-- A message whose text the client hands over without trouble. -/
def textMessage (callnr : UInt32) (text : Name) : Message where
  source := 1
  callnr := callnr
  txtLen := Int32.ofNat text.length
  txt i := text.getD i 0
  copyOk := true

/-- A system that finds the device under every label. -/
def diskEnv (dev : Device) : Env := ⟨fun _ => some dev, true⟩

def mountMessage : Message := textMessage FAT32S_MOUNT (ascii "/dev/c0d1")

/-- A sequence of requests, each with the devices that can be opened when it comes. -/
def serveAll {σ : Type} [Machine σ] : List (Env × Message) → Prog Fault σ (List Int)
  | [] => pure []
  | (env, m) :: requests => do
    let r ← serve env m
    let rs ← serveAll requests
    return r :: rs

/-- A sequence of requests to one system. -/
def script (env : Env) (ms : List Message) : ServerM (List Int) :=
  serveAll (ms.map fun m => (env, m))

theorem returns_script_cons {env : Env} {m : Message} {ms : List Message} {s s' : Server}
    {rs : List Int} :
    Returns (script env (m :: ms)) s rs s' ↔
      ∃ r s₁ rs₁, Returns (serve env m) s r s₁ ∧ Returns (script env ms) s₁ rs₁ s' ∧
        rs = r :: rs₁ := by
  simp only [script, List.map_cons, serveAll, returns_bind, returns_pure]
  constructor
  · rintro ⟨r, s₁, hserve, rs₁, _, hrest, rfl, rfl⟩
    exact ⟨r, s₁, rs₁, hserve, hrest, rfl⟩
  · rintro ⟨r, s₁, rs₁, hserve, hrest, rfl⟩
    exact ⟨r, s₁, hserve, rs₁, s', hrest, rfl, rfl⟩

/-- The requests are served one after the other, each with the reply OK. -/
def Served (env : Env) : List Message → Server → Server → Prop
  | [], s, s' => s' = s
  | m :: ms, s, s' => ∃ s₁, Returns (serve env m) s OK s₁ ∧ Served env ms s₁ s'

theorem served_of_script {env : Env} {ms : List Message} {s s' : Server} {rs : List Int}
    (h : Returns (script env ms) s rs s') (hok : rs.all (· == OK) = true) :
    Served env ms s s' := by
  induction ms generalizing s rs with
  | nil => exact (returns_pure.mp h).2
  | cons m ms ih =>
    obtain ⟨r, s₁, rs₁, hserve, hrest, rfl⟩ := returns_script_cons.mp h
    rw [List.all_cons, Bool.and_eq_true, beq_iff_eq] at hok
    rw [hok.1] at hserve
    exact ⟨s₁, hserve, ih hrest hok.2⟩

/-- A fresh server serves the requests, which the run with some fuel shows. -/
theorem exists_served (env : Env) (ms : List Message) (n : Nat) (test : Server → Bool)
    (h : ((script env ms).run n (Server.initial fun _ => [])).returned
      (fun rs s => rs.all (· == OK) && test s) = true) :
    ∃ s, Served env ms (Server.initial fun _ => []) s ∧ test s = true := by
  obtain ⟨rs, s, hrun, htest⟩ := exists_returns _ _ n _ h
  rw [Bool.and_eq_true] at htest
  exact ⟨s, served_of_script hrun htest.1, htest.2⟩

/-- A fresh server can mount the volume, and then stands in its root directory. -/
theorem Volume.Bootable.mounted {v : Volume} (h : v.Bootable) (hroot : v.IsData v.bpb.rootCluster)
    (junk : Nat → Name) :
    ∃ s, Returns (doMount (diskEnv v.dev) mountMessage) (Server.initial junk) OK s ∧
      s.Cwd v v.bpb.rootCluster ∧ s.stack = [] := by
  have hopen : (diskEnv v.dev).openDevice mountMessage.text = some v.dev := rfl
  obtain ⟨s, hret⟩ :=
    h.returns_doMount (s := Server.initial junk) rfl (by decide) rfl (by decide) hopen
  exact ⟨s, hret, h.cwd_root hroot rfl rfl hret⟩

/-! ### A small volume -/

/-- An entry with an 8.3 name only. -/
def FileEntry.ofShort (base ext : Name) (attributes : UInt8) (cluster size : UInt32)
    (hbase : base ≠ [] ∧ base.length ≤ 8 ∧ ext.length ≤ 3)
    (hclean : ∀ ch ∈ base ++ ext, ch ≠ 0x20 ∧ ch ≠ 0)
    (hfirst : (base.head? ≠ some 0x2E ∧ base.head? ≠ some 0xE5) ∨
      ((base = ascii "." ∨ base = ascii "..") ∧ ext = []))
    (hlabel : attributes &&& 0x08 = 0) : FileEntry where
  base := base
  ext := ext
  attributes := attributes
  info := fileInfo cluster size
  long := none
  base_ne := hbase.1
  base_le := hbase.2.1
  ext_le := hbase.2.2
  clean := hclean
  first := hfirst
  no_label := hlabel
  long_ok := by intro _ h; cases h

def FileEntry.withLong (e : FileEntry) (name : Name)
    (h : name ≠ [] ∧ name.length ≤ 255 ∧ ∀ ch ∈ name, 0x20 ≤ ch ∧ ch ≤ 0x7E) : FileEntry :=
  { e with
    long := some name
    long_ok := by
      intro _ hname
      obtain rfl := Option.some.inj hname
      exact h }

/-- A program that is run on a device once it is mounted. -/
theorem returns_after_mount {dev : Device} {s s₀ : Server} (p : ServerM Int) (n : Nat)
    (test : Server → Int → Server → Bool)
    (h : (Prog.run (do
        let _ ← doMount (diskEnv dev) mountMessage
        let s ← Prog.get
        let r ← p
        return (s, r) : ServerM (Server × Int)) n s₀).returned
      (fun x s' => test x.1 x.2 s') = true)
    (hmount : Returns (doMount (diskEnv dev) mountMessage) s₀ OK s) :
    ∃ r s', Returns p s r s' ∧ test s r s' = true := by
  obtain ⟨x, s', hrun, htest⟩ := exists_returns _ _ n _ h
  obtain ⟨_, s₁, hmount', hrest⟩ := returns_bind.mp hrun
  obtain ⟨_, rfl⟩ := hmount'.unique hmount
  obtain ⟨r, _, hp, hret⟩ := returns_bind.mp (returns_get_bind.mp hrest)
  obtain ⟨rfl, rfl⟩ := returns_pure.mp hret
  exact ⟨r, _, hp, htest⟩

namespace Sample

/-- The entries of the root directory: a directory, and a file with a long name. -/
def rootEntries : List FileEntry :=
  [.ofShort (ascii "DIR") [] 0x10 3 0 (by decide) (by decide +kernel) (by decide) (by decide),
   (FileEntry.ofShort (ascii "HELLO~1") (ascii "TXT") 0x20 4 5 (by decide) (by decide +kernel)
    (by decide) (by decide)).withLong (ascii "hello world.txt") (by decide +kernel)]

/-- The entries of the directory `DIR`. -/
def dirEntries : List FileEntry :=
  [.ofShort (ascii ".") [] 0x10 3 0 (by decide) (by decide +kernel) (by decide) (by decide),
   .ofShort (ascii "..") [] 0x10 0 0 (by decide) (by decide +kernel) (by decide) (by decide),
   .ofShort (ascii "B") (ascii "TXT") 0x20 5 3 (by decide) (by decide +kernel) (by decide)
    (by decide)]

/-- Eight sectors of 512 bytes: boot sector, FAT, and clusters 2 to 7 of one
    sector each. -/
def image : Image :=
  bootSector 512 1 1 8 1 2 ++
  [(512 + 8, le32Bytes 0x0FFFFFFF ++ le32Bytes 0x0FFFFFFF ++ le32Bytes 0x0FFFFFFF ++
    le32Bytes 0x0FFFFFFF),
   (1024, slotBytes (rootEntries.flatMap FileEntry.encode)),
   (1536, slotBytes (dirEntries.flatMap FileEntry.encode)),
   (2048, ascii "Hello"), (2560, ascii "abc")]

def volume : Volume := image.volume 4096 (by decide +kernel)

theorem bootable : volume.Bootable := Image.bootable _ (by decide) (by decide +kernel)

theorem isData : volume.IsData 2 ∧ volume.IsData 3 ∧ volume.IsData 4 ∧ volume.IsData 5 := by
  unfold Volume.IsData
  decide +kernel

theorem lists_root : volume.Lists 2 [1024, 1056, 1088, 1120] :=
  ⟨by decide +kernel, [2], 1152, (volume.addrs 32 2).drop 5, .last isData.1, by decide +kernel,
    by decide +kernel⟩

theorem lists_dir : volume.Lists 3 [1536, 1568, 1600] :=
  ⟨by decide +kernel, [3], 1632, (volume.addrs 32 3).drop 4, .last isData.2.1, by decide +kernel,
    by decide +kernel⟩

/-- The server after a mount of the volume. -/
theorem mounted (junk : Nat → Name) :
    ∃ s, Returns (doMount (diskEnv volume.dev) mountMessage) (Server.initial junk) OK s ∧
      s.Cwd volume 2 ∧ s.stack = [] :=
  bootable.mounted isData.1 junk

/-- A program that is run on the sample volume once it is mounted. -/
theorem returns_mounted {s : Server} (p : ServerM Int) (n : Nat)
    (test : Server → Int → Server → Bool)
    (h : (Prog.run (do
        let _ ← doMount (diskEnv volume.dev) mountMessage
        let s ← Prog.get
        let r ← p
        return (s, r) : ServerM (Server × Int)) n (Server.initial fun _ => [])).returned
      (fun x s' => test x.1 x.2 s') = true)
    (hmount : Returns (doMount (diskEnv volume.dev) mountMessage)
      (Server.initial fun _ => []) OK s) :
    ∃ r s', Returns p s r s' ∧ test s r s' = true :=
  returns_after_mount p n test h hmount

end Sample

end Fat32s
