/-
  Fat32s/TextBuffers.lean
  =======================
  **The text of a request and the buffers it is written to.**

  `get_txt` allocates `len + 1` bytes, has `sys_datacopy` write `len` bytes there and
  puts a zero at index `len`; `do_mount` then copies the string into `device_label`.
  Sizes and indices are computed in C's types: `len` is an `int`, the sum wraps, and a
  size is unsigned.  No handler looks at `len` or at the length of the string, so the
  writes stay inside exactly if the client has sent a text that fits.
-/
import Mathlib.Algebra.Group.Int.Defs
import Fat32s.Image

namespace Fat32s

open Fat32s.Lib Fat32s.Lib.Prog

variable {s s' : Server} {env : Env} {m : Message}

/-! ### Writes -/

/-- A write at an index of a buffer of some size. -/
structure TextWrite where
  size : Nat
  index : Int
deriving DecidableEq

def TextWrite.Inside (w : TextWrite) : Prop := 0 ≤ w.index ∧ w.index < w.size

instance (w : TextWrite) : Decidable w.Inside := inferInstanceAs (Decidable (_ ∧ _))

/-- The number of bytes that `sys_datacopy` is asked for. -/
def Message.copyLen (m : Message) : Nat := m.txtLen.toUInt32.toNat

/-- The writes of `get_txt`.  The terminating zero is written whether or not the copy
    has succeeded. -/
inductive GetTxtWrites (m : Message) : TextWrite → Prop
  | copied {i : Nat} (hcopy : m.copyOk = true) (hi : i < m.copyLen) :
      GetTxtWrites m ⟨m.allocated, i⟩
  | terminator : GetTxtWrites m ⟨m.allocated, m.txtLen.toInt⟩

/-- The requests that get as far as `get_txt`. -/
def ReadsText (s : Server) (m : Message) : Prop :=
  (m.callnr = FAT32S_MOUNT ∧ s.deviceFd = none) ∨
    (m.callnr ∈ [FAT32S_UNMOUNT, FAT32S_CD, FAT32S_LS, FAT32S_CAT, FAT32S_STAT] ∧
      s.deviceFd ≠ none)

/-- The mounts that get as far as `strcpy(device_label, txt)`. -/
def CopiesLabel (s : Server) (m : Message) : Prop :=
  m.callnr = FAT32S_MOUNT ∧ s.deviceFd = none ∧ m.copyOk = true

/-- What a request writes to text buffers; `strcpy` also copies the zero. -/
inductive RequestWrites (s : Server) (m : Message) : TextWrite → Prop
  | getTxt {w : TextWrite} (hread : ReadsText s m) (hw : GetTxtWrites m w) : RequestWrites s m w
  | label {i : Nat} (hcopy : CopiesLabel s m) (hi : i ≤ m.text.length) :
      RequestWrites s m ⟨MAX_DEVICE_LABEL, i⟩

/-! ### When they stay inside -/

theorem Message.txtLen_cases (m : Message) : m.txtLen.toInt =
    if 2 * m.copyLen < 2 ^ 32 then (m.copyLen : Int) else m.copyLen - 2 ^ 32 :=
  BitVec.toInt_eq_toNat_cond m.txtLen.toBitVec

theorem Message.allocated_eq (m : Message) : m.allocated = (m.copyLen + 1) % 2 ^ 32 := by
  rw [Message.allocated, Int32.toUInt32_add, UInt32.toNat_add]
  rfl

/-- The allocation wraps for `INT_MAX`, and is large enough even then. -/
theorem getTxtWrites_inside_iff :
    (∀ w, GetTxtWrites m w → w.Inside) ↔ 0 ≤ m.txtLen.toInt := by
  have hlt : m.copyLen < 2 ^ 32 := UInt32.toNat_lt _
  have hcases := m.txtLen_cases
  have hsize := m.allocated_eq
  constructor
  · intro h
    exact (h _ .terminator).1
  · rintro hlen w (⟨_, hi⟩ | _)
    · exact ⟨by simp, by simp only; omega⟩
    · exact ⟨hlen, by simp only; omega⟩

/-- The string that starts a text ends before an index: the text does, or has a zero there. -/
theorem length_cstr_range_lt (f : Nat → UInt8) (n k : Nat) :
    (cstr ((List.range n).map f)).length < k ↔ ∃ i < k, i = n ∨ (i < n ∧ f i = 0) := by
  induction n generalizing f k with
  | zero => simp [cstr]
  | succ n ih =>
    rw [List.range_succ_eq_map, List.map_cons, List.map_map]
    by_cases hzero : f 0 = 0
    · have hnil : cstr (f 0 :: (List.range n).map (f ∘ Nat.succ)) = [] := by simp [cstr, hzero]
      rw [hnil]
      constructor
      · intro hk
        exact ⟨0, hk, .inr ⟨Nat.succ_pos n, hzero⟩⟩
      · rintro ⟨i, hi, _⟩
        exact Nat.zero_lt_of_lt hi
    · have hcons : cstr (f 0 :: (List.range n).map (f ∘ Nat.succ)) =
          f 0 :: cstr ((List.range n).map (f ∘ Nat.succ)) := by simp [cstr, hzero]
      rw [hcons, List.length_cons, ← Nat.lt_sub_iff_add_lt, ih]
      constructor
      · rintro ⟨i, hi, hend⟩
        exact ⟨i + 1, by omega, by simpa using hend⟩
      · rintro ⟨i, hi, hend⟩
        -- the first byte is not zero, so the end is further on
        rcases i with _ | i
        · rcases hend with hend | ⟨_, hend⟩
          · exact absurd hend (by omega)
          · exact absurd hend hzero
        · exact ⟨i, by omega, by simpa using hend⟩

/-- The text fits `device_label`: it ends, or has a zero, at one of its 16 indices. -/
def Message.FitsLabel (m : Message) : Prop :=
  ∃ i < MAX_DEVICE_LABEL, (i : Int) = m.txtLen.toInt ∨ ((i : Int) < m.txtLen.toInt ∧ m.txt i = 0)

theorem Message.fitsLabel_iff (hlen : 0 ≤ m.txtLen.toInt) :
    m.FitsLabel ↔ m.text.length < MAX_DEVICE_LABEL := by
  rw [Message.text, length_cstr_range_lt, Message.FitsLabel]
  constructor
  · rintro ⟨i, hi, hend | ⟨hlt, hzero⟩⟩
    · exact ⟨i, hi, .inl (by omega)⟩
    · exact ⟨i, hi, .inr ⟨by omega, hzero⟩⟩
  · rintro ⟨i, hi, hend | ⟨hlt, hzero⟩⟩
    · exact ⟨i, hi, .inl (by omega)⟩
    · exact ⟨i, hi, .inr ⟨by omega, hzero⟩⟩

theorem CopiesLabel.readsText (h : CopiesLabel s m) : ReadsText s m := .inl ⟨h.1, h.2.1⟩

/-- The writes stay inside exactly if `txt_len` is not negative where the text is read, and
    a label that is copied is shorter than `MAX_DEVICE_LABEL`. -/
theorem requestWrites_inside_iff (s : Server) (m : Message) :
    (∀ w, RequestWrites s m w → w.Inside) ↔
      (ReadsText s m → 0 ≤ m.txtLen.toInt) ∧ (CopiesLabel s m → m.FitsLabel) := by
  constructor
  · intro h
    have hread : ReadsText s m → 0 ≤ m.txtLen.toInt := fun hread =>
      getTxtWrites_inside_iff.mp fun w hw => h w (.getTxt hread hw)
    refine ⟨hread, fun hcopy => ?_⟩
    have hlast := (h _ (.label hcopy (Nat.le_refl _))).2
    exact (Message.fitsLabel_iff (hread hcopy.readsText)).mpr (Int.ofNat_lt.mp hlast)
  · rintro ⟨hread, hlabel⟩ w (⟨hreads, hw⟩ | ⟨hcopy, hi⟩)
    · exact getTxtWrites_inside_iff.mpr (hread hreads) w hw
    · have hlen := (Message.fitsLabel_iff (hread hcopy.readsText)).mp (hlabel hcopy)
      exact ⟨by simp, by simp only; omega⟩

/-! ### The writes and the runs of the server -/

/-- A handler starts with a look at `device_fd`. -/
theorem run_guarded {c : Server → Prop} [DecidablePred c] {p q : Server → ServerM Int} (n : Nat) :
    (Prog.get >>= fun s => if c s then p s else q s).run n s =
      if c s then (p s).run n s else (q s).run n s := by
  change (if c s then p s else q s).run n s = _
  split
  · rfl
  · rfl

/-- Two dispatches that compare with the same call number. -/
theorem run_branch {c : Prop} [Decidable c] {p p' q q' : ServerM Int} {n : Nat}
    (hpos : c → p.run n s = p'.run n s) (hneg : ¬ c → q.run n s = q'.run n s) :
    (if c then p else q).run n s = (if c then p' else q').run n s := by
  by_cases h : c
  · rw [if_pos h, if_pos h]
    exact hpos h
  · rw [if_neg h, if_neg h]
    exact hneg h

/-- On any machine, a handler that reads a text looks at `device_fd` first, and then reads
    it. -/
theorem serve_eq_guarded {σ : Type} [Machine σ] (env : Env) (hread : ReadsText s m) :
    ∃ (c : Server → Bool) (p : Prog Fault σ Int) (f : Server → Option Name → Prog Fault σ Int),
      c s = false ∧
      serve env m = (globals >>= fun s => if c s = true then p else getTxt m >>= f s) := by
  rcases hread with ⟨hcall, hfd⟩ | ⟨hcall, hfd⟩
  · have hserve : (serve env m : Prog Fault σ Int) = doMount env m := by rw [serve, hcall]; rfl
    exact ⟨fun s => s.deviceFd.isSome, _, _, by simp [hfd], hserve⟩
  · have hopen : s.deviceFd.isNone = false :=
      Option.isNone_eq_false_iff.mpr (Option.isSome_iff_ne_none.mpr hfd)
    simp only [List.mem_cons, List.not_mem_nil, or_false] at hcall
    refine ⟨fun s => s.deviceFd.isNone, ?_⟩
    rcases hcall with hcall | hcall | hcall | hcall | hcall
    · exact ⟨_, _, hopen, show serve env m = doUnmount env m by rw [serve, hcall]; rfl⟩
    · exact ⟨_, _, hopen, show serve env m = doCd m by rw [serve, hcall]; rfl⟩
    · exact ⟨_, _, hopen, show serve env m = doLs m by rw [serve, hcall]; rfl⟩
    · exact ⟨_, _, hopen, show serve env m = doCat m by rw [serve, hcall]; rfl⟩
    · exact ⟨_, _, hopen, show serve env m = doStat m by rw [serve, hcall]; rfl⟩

/-- A request that reads its text does so before anything else. -/
theorem serve_readsText (env : Env) (hread : ReadsText s m) :
    ∃ f : Option Name → ServerM Int, ∀ n, (serve env m).run n s = (getTxt m >>= f).run n s := by
  obtain ⟨c, p, f, hc, hserve⟩ := serve_eq_guarded (σ := Server) env hread
  refine ⟨f s, fun n => ?_⟩
  rw [hserve]
  exact (run_guarded n).trans (if_neg (by simp [hc]))

/-- Any other request is served in the same way whatever its text is. -/
theorem serve_not_readsText (env : Env) (hread : ¬ ReadsText s m) {m' : Message}
    (hsource : m'.source = m.source) (hcall : m'.callnr = m.callnr) (n : Nat) :
    (serve env m').run n s = (serve env m).run n s := by
  unfold ReadsText at hread
  -- with nothing mounted, the handlers that would read the text refuse the request
  have hnone : m.callnr ∈ [FAT32S_UNMOUNT, FAT32S_CD, FAT32S_LS, FAT32S_CAT, FAT32S_STAT] →
      s.deviceFd.isNone := fun hmem => by
    by_contra hfd
    exact hread (.inr ⟨hmem, by simpa using hfd⟩)
  have hrefuse : ∀ {nr : UInt32} {p : ServerM Int} {q q' : Server → ServerM Int},
      m.callnr = nr → nr ∈ [FAT32S_UNMOUNT, FAT32S_CD, FAT32S_LS, FAT32S_CAT, FAT32S_STAT] →
      (Prog.get >>= fun s => if s.deviceFd.isNone then p else q s).run n s =
        (Prog.get >>= fun s => if s.deviceFd.isNone then p else q' s).run n s := by
    intro nr p q q' hnr hmem
    rw [← hnr] at hmem
    rw [run_guarded, run_guarded, if_pos (hnone hmem), if_pos (hnone hmem)]
  rw [serve, serve, hsource, hcall]
  apply run_branch
  · intro _
    rfl
  intro _
  apply run_branch
  · intro hnr
    have hfd : s.deviceFd.isSome := by
      rw [Option.isSome_iff_ne_none]
      exact fun hfd => hread (.inl ⟨hnr, hfd⟩)
    exact ((run_guarded n).trans (if_pos hfd)).trans ((run_guarded n).trans (if_pos hfd)).symm
  intro _
  apply run_branch
  · exact fun hnr => hrefuse hnr (by decide)
  intro _
  apply run_branch
  · intro _
    rfl
  intro _
  apply run_branch
  · exact fun hnr => hrefuse hnr (by decide)
  intro _
  apply run_branch
  · exact fun hnr => hrefuse hnr (by decide)
  intro _
  apply run_branch
  · exact fun hnr => hrefuse hnr (by decide)
  intro _
  apply run_branch
  · exact fun hnr => hrefuse hnr (by decide)
  intro _
  rfl

theorem returns_getTxt (hlen : 0 ≤ m.txtLen.toInt) :
    Returns (getTxt m) s (if m.copyOk then some m.text else none) s := by
  rw [getTxt, malloc_server_bind]
  exact returns_bind.mpr ⟨(), s, returns_check.mpr ⟨hlen, rfl⟩, returns_pure.mpr ⟨rfl, rfl⟩⟩

/-- A write outside a text buffer is undefined behaviour: the run of the server stops there. -/
theorem serve_faults_of_outside (env : Env) {w : TextWrite} (hw : RequestWrites s m w)
    (hout : ¬ w.Inside) : Faults (serve env m) s .outOfBounds := by
  by_cases hlen : 0 ≤ m.txtLen.toInt
  · rcases hw with ⟨_, hw⟩ | ⟨hcopy, hi⟩
    · exact absurd (getTxtWrites_inside_iff.mpr hlen w hw) hout
    · rcases hcopy with ⟨hcall, hfd, hok⟩
      have hlong : ¬ m.text.length < MAX_DEVICE_LABEL := fun hlt =>
        hout ⟨by simp, by simp only; omega⟩
      have hserve : (serve env m : ServerM Int) = doMount env m := by rw [serve, hcall]; rfl
      have hguard : ¬ s.deviceFd.isSome = true := by simp [hfd]
      have htext := returns_getTxt (s := s) hlen
      rw [if_pos hok] at htext
      rw [hserve, doMount]
      apply faults_bind (returns_get.mpr ⟨rfl, rfl⟩)
      rw [if_neg hguard]
      exact faults_bind htext (faults_check_bind hlong)
  · have hread : ReadsText s m := by
      rcases hw with ⟨hread, _⟩ | ⟨hcopy, _⟩
      · exact hread
      · exact hcopy.readsText
    rcases serve_readsText env hread with ⟨f, hrun⟩
    have htxt : Faults (getTxt m) s .outOfBounds := faults_check_bind hlen
    have hfault : Faults (getTxt m >>= f) s .outOfBounds := htxt.bind f
    rcases hfault with ⟨n, s', hn⟩
    exact ⟨n, s', by rw [hrun, hn]⟩

/-- **A request keeps inside its text buffers exactly if its text fits**, in every state and
    for every message.  The requests that read no text do the same whatever it is; the
    others read it first, and the server stops at a write outside. -/
theorem request_writes_inside_iff (s : Server) (m : Message) :
    ((∀ w, RequestWrites s m w → w.Inside) ↔
      (ReadsText s m → 0 ≤ m.txtLen.toInt) ∧ (CopiesLabel s m → m.FitsLabel)) ∧
    ∀ env,
      (ReadsText s m → ∃ f : Option Name → ServerM Int,
        ∀ n, (serve env m).run n s = (getTxt m >>= f).run n s) ∧
      (¬ ReadsText s m → ∀ m' : Message, m'.source = m.source → m'.callnr = m.callnr →
        ∀ n, (serve env m' : ServerM Int).run n s = (serve env m).run n s) ∧
      ∀ w, RequestWrites s m w → ¬ w.Inside → Faults (serve env m) s .outOfBounds :=
  ⟨requestWrites_inside_iff s m, fun env => ⟨serve_readsText env,
    fun hread _ hsource hcall => serve_not_readsText env hread hsource hcall,
    fun _ => serve_faults_of_outside env⟩⟩

/-- Two mounts by a client that asks for too much: a length of -1, where the zero goes
    before the buffer of 0 bytes, and a label of 16 characters, whose zero goes past the
    end of `device_label`. -/
theorem mount_writes_outside :
    RequestWrites (Server.initial fun _ => []) { mountMessage with txtLen := -1 } ⟨0, -1⟩ ∧
      ¬ (⟨0, -1⟩ : TextWrite).Inside ∧
      RequestWrites (Server.initial fun _ => [])
        (textMessage FAT32S_MOUNT (ascii "/dev/c0d1p0s0000")) ⟨16, 16⟩ ∧
      ¬ (⟨16, 16⟩ : TextWrite).Inside := by
  have hcall : mountMessage.callnr = FAT32S_MOUNT := rfl
  refine ⟨.getTxt (.inl ⟨hcall, rfl⟩) .terminator, by decide, ?_, by decide⟩
  exact .label (i := 16) ⟨rfl, rfl, rfl⟩ (by decide +kernel)

end Fat32s
