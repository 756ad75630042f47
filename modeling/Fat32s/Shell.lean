/-
  Fat32s/Shell.lean
  =================
  **The shell** (`test/fat32_test.c`).

  The shell reads a line, compares its beginning with the commands it knows, one after
  the other, and calls the library with what follows the blank.  It does not look at
  what the call returns, so its calls are a function of what is typed.

  The line goes to an array of 100 bytes that is never checked for room, and the end of
  the input is taken for a character: the shell ends properly exactly if each line up to
  one that begins with `quit` leaves room for the terminating zero.  Then each call of
  the library can be typed, and what is typed reaches the file system: a script is
  answered as the session of `Sessions` answers its calls.
-/
import Fat32s.Clients

namespace Fat32s

open Fat32s.Lib Fat32s.Lib.Prog

/-! ### fat32_test.c -/

def kMount : Name := ascii "mount"
def kUmount : Name := ascii "umount"
def kPwd : Name := ascii "pwd"
def kLs : Name := ascii "ls"
def kCd : Name := ascii "cd"
def kStat : Name := ascii "stat"
def kCat : Name := ascii "cat"
def kHelp : Name := ascii "help"
def kQuit : Name := ascii "quit"

-- `'\n'` and `' '`
def newline : UInt8 := 0x0A
def blank : UInt8 := 0x20

/-- The size of `input`. -/
def INPUT_SIZE : Nat := 100

/-- The standard input that is still unread, the array `input`, what was printed, and the
    calls of the library so far. -/
structure Shell where
  stdin : List UInt8
  input : List UInt8
  terminal : List UInt8
  calls : List Call

abbrev ShellM := Prog Fault Shell

def Shell.printf (text : List UInt8) : ShellM Unit :=
  Prog.modify fun s => { s with terminal := s.terminal ++ text }

/-- What `getchar` gives, as a `char`: at the end of the input it is `(char) EOF`. -/
def Shell.next (s : Shell) : UInt8 := s.stdin.headD 0xFF

def getchar : ShellM UInt8 := do
  let s ← Prog.get
  Prog.modify fun s => { s with stdin := s.stdin.tail }
  return s.next

def readStep (i : Nat) : ShellM (Nat ⊕ Unit) := do
  let c ← getchar
  if c = newline then
    return .inr ()
  else
    Prog.check (i < INPUT_SIZE) .outOfBounds
    Prog.modify fun s => { s with input := s.input.set i c }
    return .inl (i + 1)

def readLine : ShellM Unit := do
  Prog.modify fun s => { s with input := List.replicate INPUT_SIZE 0 }
  Prog.iter readStep 0

/-- The length of the command if the input begins with it, and 0 if not. -/
def getArgs (input : CString) (command : Name) : Nat :=
  if command.length ≤ input.strlen ∧ input.bytes.take command.length = command then
    command.length
  else
    0

/-- The character at a place of the string; behind its end is the terminating zero. -/
def CString.at (text : CString) (i : Nat) : UInt8 := text.bytes.getD i 0

def CString.drop (text : CString) (n : Nat) : CString :=
  ⟨text.bytes.drop n, fun ch h => text.no_zero ch (List.mem_of_mem_drop h)⟩

/-- The string at the beginning of the bytes. -/
def CString.ofBytes (bytes : List UInt8) : CString :=
  ⟨cstr bytes, fun ch h => by simpa using List.mem_takeWhile_imp h⟩

/-- The constant `"."` that a plain ls is called with. -/
def CString.dot : CString := ⟨ascii ".", by decide +kernel⟩

/-- What the shell does with a line. -/
inductive Action where
  | quit
  | call (c : Call)
  | nothing
  | help
  | unknown

/-- The chain of comparisons in `main`. -/
def interpret (input : CString) : Action :=
  if getArgs input kQuit ≠ 0 then .quit
  else if getArgs input kMount ≠ 0 ∧ input.at (getArgs input kMount) = blank then
    .call (.mount (input.drop (getArgs input kMount + 1)))
  else if getArgs input kUmount ≠ 0 ∧ input.at (getArgs input kUmount) = blank then
    .call (.unmount (input.drop (getArgs input kUmount + 1)))
  else if getArgs input kPwd ≠ 0 ∧ input.at (getArgs input kPwd) = 0 then
    .call .pwd
  else if getArgs input kCd ≠ 0 ∧ input.at (getArgs input kCd) = blank then
    .call (.cd (input.drop (getArgs input kCd + 1)))
  else if getArgs input kLs ≠ 0 then
    if input.at (getArgs input kLs) = 0 then .call (.ls .dot)
    else if input.at (getArgs input kLs) = blank then
      .call (.ls (input.drop (getArgs input kLs + 1)))
    else .nothing
  else if getArgs input kCat ≠ 0 ∧ input.at (getArgs input kCat) = blank then
    .call (.cat (input.drop (getArgs input kCat + 1)))
  else if getArgs input kStat ≠ 0 ∧ input.at (getArgs input kStat) = blank then
    .call (.stat (input.drop (getArgs input kStat + 1)))
  else if getArgs input kHelp ≠ 0 then .help
  else .unknown

def helpText : List UInt8 :=
  ascii "*************************\n" ++ ascii "Available commands:\n" ++
    ascii "mount\numount\npwd\nls\ncd\n" ++ ascii "stat\ncat\nhelp\nquit\n" ++
    ascii "*************************\n"

/-- What is printed for a line, and the call that is made. -/
def Action.text : Action → List UInt8
  | .quit => ascii "Bye.\n"
  | .help => helpText
  | .unknown => ascii "Unknown command.\n"
  | _ => []

def Action.calls : Action → List Call
  | .call c => [c]
  | _ => []

/-- Only quit leaves the loop. -/
def Action.next : Action → Unit ⊕ Int
  | .quit => .inr 0
  | _ => .inl ()

def perform (action : Action) : ShellM (Unit ⊕ Int) := do
  Prog.modify fun s => { s with calls := s.calls ++ action.calls }
  Shell.printf action.text
  return action.next

def shellRound (_ : Unit) : ShellM (Unit ⊕ Int) := do
  Shell.printf (ascii ">")
  readLine
  let s ← Prog.get
  -- `strlen` goes on to a zero, inside the array or not
  Prog.check (0 ∈ s.input) .outOfBounds
  perform (interpret (.ofBytes s.input))

def shellMain : ShellM Int := Prog.iter shellRound ()

variable {s s' : Shell} {input : CString} {stdin line rest : List UInt8}

/-! ### What a line means -/

@[ext] theorem CString.ext {a b : CString} (h : a.bytes = b.bytes) : a = b := by
  cases a
  cases b
  cases h
  rfl

/-- The line that makes the shell call the library. -/
def Call.typed : Call → Name
  | .mount drive => kMount ++ blank :: drive.bytes
  | .unmount drive => kUmount ++ blank :: drive.bytes
  | .pwd => kPwd
  | .cd path => kCd ++ blank :: path.bytes
  | .ls path => kLs ++ blank :: path.bytes
  | .cat path => kCat ++ blank :: path.bytes
  | .stat path => kStat ++ blank :: path.bytes

theorem getArgs_of_begins {command : Name} (h : command <+: input.bytes) :
    getArgs input command = command.length := by
  rw [getArgs, if_pos ⟨h.length_le, (List.prefix_iff_eq_take.mp h).symm⟩]

theorem getArgs_ne_zero_iff {command : Name} (hne : command ≠ []) :
    getArgs input command ≠ 0 ↔ command <+: input.bytes := by
  constructor
  · intro h
    unfold getArgs at h
    split at h
    · rename_i hboth
      exact List.prefix_iff_eq_take.mpr hboth.2.symm
    · exact (h rfl).elim
  · intro h
    rw [getArgs_of_begins h]
    simpa using hne

/-- The command is followed by a blank. -/
def Takes (input : CString) (command : Name) : Prop :=
  getArgs input command ≠ 0 ∧ input.at (getArgs input command) = blank

/-- The rest of the line is then its argument. -/
theorem Takes.bytes_eq {command : Name} (h : Takes input command) (hne : command ≠ []) :
    input.bytes = command ++ blank :: (input.drop (getArgs input command + 1)).bytes := by
  obtain ⟨hword, hblank⟩ := h
  obtain ⟨tail, htail⟩ := (getArgs_ne_zero_iff hne).mp hword
  rw [getArgs_of_begins ⟨tail, htail⟩] at hblank ⊢
  simp only [CString.at, CString.drop, ← htail] at hblank ⊢
  cases tail with
  | nil => simp [blank] at hblank
  | cons ch tail =>
    have hch : ch = blank := by simpa using hblank
    rw [hch, List.drop_append]
    simp

theorem takes_of_bytes_eq {command : Name} {arg : CString} (hne : command ≠ [])
    (h : input.bytes = command ++ blank :: arg.bytes) :
    Takes input command ∧ input.drop (getArgs input command + 1) = arg := by
  have hbegins : command <+: input.bytes := ⟨_, h.symm⟩
  refine ⟨⟨(getArgs_ne_zero_iff hne).mpr hbegins, ?_⟩, CString.ext ?_⟩
  · rw [getArgs_of_begins hbegins, CString.at, h]
    simp
  · change input.bytes.drop (getArgs input command + 1) = arg.bytes
    rw [getArgs_of_begins hbegins, h, List.drop_append]
    simp

/-- The command is followed by the end of the line. -/
theorem followed_by_end_iff {command : Name} (hne : command ≠ []) :
    (getArgs input command ≠ 0 ∧ input.at (getArgs input command) = 0) ↔
      input.bytes = command := by
  rw [getArgs_ne_zero_iff hne]
  constructor
  · rintro ⟨⟨tail, htail⟩, hzero⟩
    rw [getArgs_of_begins ⟨tail, htail⟩] at hzero
    cases tail with
    | nil => rw [← htail, List.append_nil]
    | cons ch tail =>
      have hch : ch = 0 := by
        simpa [CString.at, ← htail] using hzero
      exact (input.no_zero ch (by rw [← htail]; simp) hch).elim
  · intro h
    have hbegins : command <+: input.bytes := h ▸ List.prefix_rfl
    refine ⟨hbegins, ?_⟩
    rw [getArgs_of_begins hbegins, CString.at, h]
    simp

/-- The words that a line is compared with, in this order. -/
def keywords : List Name := [kQuit, kMount, kUmount, kPwd, kCd, kLs, kCat, kStat, kHelp]

/-- No word is the beginning of another, so the order does not matter. -/
theorem keywords_apart : keywords.Pairwise fun k w => ¬ k <+: w ∧ ¬ w <+: k := by
  decide +kernel

theorem keywords_ne_nil {k : Name} (hk : k ∈ keywords) : k ≠ [] := by
  rintro rfl
  exact absurd hk (by decide)

/-- A line that begins with one of the words does not begin with those before it. -/
theorem getArgs_eq_zero {i : Nat} {w : Name} (hw : keywords[i]? = some w) (h : w <+: input.bytes) :
    ∀ k ∈ keywords.take i, getArgs input k = 0 := by
  intro k hk
  by_contra hne
  have hk' := (getArgs_ne_zero_iff (keywords_ne_nil (List.mem_of_mem_take hk))).mp hne
  have hsplit : keywords = keywords.take i ++ w :: keywords.drop (i + 1) := by
    obtain ⟨hi, rfl⟩ := List.getElem?_eq_some_iff.mp hw
    rw [List.getElem_cons_drop, List.take_append_drop]
  have hapart := keywords_apart
  rw [hsplit, List.pairwise_append] at hapart
  obtain ⟨hkw, hwk⟩ := hapart.2.2 k hk w List.mem_cons_self
  rcases List.prefix_or_prefix_of_prefix hk' h with hpre | hpre
  · exact hkw hpre
  · exact hwk hpre

theorem takes_of_typed {w : Name} {arg : CString} (i : Nat) (hw : keywords[i]? = some w)
    (h : input.bytes = w ++ blank :: arg.bytes) :
    Takes input w ∧ input.drop (getArgs input w + 1) = arg ∧
      ∀ k ∈ keywords.take i, getArgs input k = 0 := by
  have hne := keywords_ne_nil (List.mem_of_getElem? hw)
  obtain ⟨htakes, hdrop⟩ := takes_of_bytes_eq hne h
  exact ⟨htakes, hdrop, getArgs_eq_zero hw ⟨_, h.symm⟩⟩

theorem ends_of_typed {w : Name} (i : Nat) (hw : keywords[i]? = some w) (h : input.bytes = w) :
    (getArgs input w ≠ 0 ∧ input.at (getArgs input w) = 0) ∧
      ∀ k ∈ keywords.take i, getArgs input k = 0 := by
  have hne := keywords_ne_nil (List.mem_of_getElem? hw)
  exact ⟨(followed_by_end_iff hne).mpr h, getArgs_eq_zero hw (h ▸ List.prefix_rfl)⟩

/-- Every call can be typed. -/
theorem interpret_typed {c : Call} (h : input.bytes = c.typed) : interpret input = .call c := by
  -- each case skips the words before its own
  cases c with
  | mount drive =>
    obtain ⟨htakes, hdrop, hzero⟩ := takes_of_typed 1 rfl h
    simp only [keywords, List.take, List.forall_mem_cons] at hzero
    simp only [interpret, hzero, ne_eq, not_true_eq_false, if_false]
    rw [hdrop]
    exact if_pos htakes
  | unmount drive =>
    obtain ⟨htakes, hdrop, hzero⟩ := takes_of_typed 2 rfl h
    simp only [keywords, List.take, List.forall_mem_cons] at hzero
    simp only [interpret, hzero, ne_eq, not_true_eq_false, false_and, if_false]
    rw [hdrop]
    exact if_pos htakes
  | pwd =>
    obtain ⟨hpwd, hzero⟩ := ends_of_typed 3 rfl h
    simp only [keywords, List.take, List.forall_mem_cons] at hzero
    simp only [interpret, hzero, ne_eq, not_true_eq_false, false_and, if_false]
    exact if_pos hpwd
  | cd path =>
    obtain ⟨htakes, hdrop, hzero⟩ := takes_of_typed 4 rfl h
    simp only [keywords, List.take, List.forall_mem_cons] at hzero
    simp only [interpret, hzero, ne_eq, not_true_eq_false, false_and, if_false]
    rw [hdrop]
    exact if_pos htakes
  | ls path =>
    obtain ⟨htakes, hdrop, hzero⟩ := takes_of_typed 5 rfl h
    have hnot : ¬ input.at (getArgs input kLs) = 0 := by
      rw [htakes.2]
      decide
    simp only [keywords, List.take, List.forall_mem_cons] at hzero
    simp only [interpret, hzero, ne_eq, not_true_eq_false, false_and, if_false]
    rw [hdrop, if_neg hnot, if_pos htakes.2]
    exact if_pos htakes.1
  | cat path =>
    obtain ⟨htakes, hdrop, hzero⟩ := takes_of_typed 6 rfl h
    simp only [keywords, List.take, List.forall_mem_cons] at hzero
    simp only [interpret, hzero, ne_eq, not_true_eq_false, false_and, if_false]
    rw [hdrop]
    exact if_pos htakes
  | stat path =>
    obtain ⟨htakes, hdrop, hzero⟩ := takes_of_typed 7 rfl h
    simp only [keywords, List.take, List.forall_mem_cons] at hzero
    simp only [interpret, hzero, ne_eq, not_true_eq_false, false_and, if_false]
    rw [hdrop]
    exact if_pos htakes

theorem interpret_plain_ls (h : input.bytes = kLs) : interpret input = .call (.ls .dot) := by
  obtain ⟨hls, hzero⟩ := ends_of_typed 5 rfl h
  simp only [keywords, List.take, List.forall_mem_cons] at hzero
  simp only [interpret, hzero, ne_eq, not_true_eq_false, false_and, if_false]
  rw [if_pos hls.2]
  exact if_pos hls.1

theorem interpret_quit (h : kQuit <+: input.bytes) : interpret input = .quit :=
  if_pos ((getArgs_ne_zero_iff (by decide)).mpr h)

/-- **What the shell takes for a call.**  A line leads to a call of the library exactly if
    it is the name of the command, a blank and the argument; a plain ls is taken for one of
    the current directory. -/
theorem interpret_eq_call_iff {c : Call} :
    interpret input = .call c ↔ input.bytes = c.typed ∨ (input.bytes = kLs ∧ c = .ls .dot) := by
  constructor
  · have harg : ∀ {w : Name} {f : CString → Call}, w ≠ [] →
        (∀ arg, (f arg).typed = w ++ blank :: arg.bytes) → Takes input w →
        Action.call (f (input.drop (getArgs input w + 1))) = .call c → input.bytes = c.typed := by
      intro w f hne htyped htakes h
      injection h with h
      rw [← h, htyped]
      exact htakes.bytes_eq hne
    intro h
    unfold interpret at h
    rcases ite_eq_iff.mp h with ⟨_, h⟩ | ⟨_, h⟩
    · cases h
    rcases ite_eq_iff.mp h with ⟨hmount, h⟩ | ⟨_, h⟩
    · exact .inl (harg (f := .mount) (by decide) (fun _ => rfl) hmount h)
    rcases ite_eq_iff.mp h with ⟨humount, h⟩ | ⟨_, h⟩
    · exact .inl (harg (f := .unmount) (by decide) (fun _ => rfl) humount h)
    rcases ite_eq_iff.mp h with ⟨hpwd, h⟩ | ⟨_, h⟩
    · injection h with h
      rw [← h]
      exact .inl ((followed_by_end_iff (by decide)).mp hpwd)
    rcases ite_eq_iff.mp h with ⟨hcd, h⟩ | ⟨_, h⟩
    · exact .inl (harg (f := .cd) (by decide) (fun _ => rfl) hcd h)
    rcases ite_eq_iff.mp h with ⟨hls, h⟩ | ⟨_, h⟩
    · rcases ite_eq_iff.mp h with ⟨hend, h⟩ | ⟨_, h⟩
      · injection h with h
        exact .inr ⟨(followed_by_end_iff (by decide)).mp ⟨hls, hend⟩, h.symm⟩
      rcases ite_eq_iff.mp h with ⟨hblank, h⟩ | ⟨_, h⟩
      · exact .inl (harg (f := .ls) (by decide) (fun _ => rfl) ⟨hls, hblank⟩ h)
      · cases h
    rcases ite_eq_iff.mp h with ⟨hcat, h⟩ | ⟨_, h⟩
    · exact .inl (harg (f := .cat) (by decide) (fun _ => rfl) hcat h)
    rcases ite_eq_iff.mp h with ⟨hstat, h⟩ | ⟨_, h⟩
    · exact .inl (harg (f := .stat) (by decide) (fun _ => rfl) hstat h)
    rcases ite_eq_iff.mp h with ⟨_, h⟩ | ⟨_, h⟩
    · cases h
    · cases h
  · rintro (h | ⟨h, rfl⟩)
    · exact interpret_typed h
    · exact interpret_plain_ls h

/-! ### Reading a line -/

/-- The array once a line has been read into it. -/
def buffer (line : List UInt8) : List UInt8 :=
  line ++ List.replicate (INPUT_SIZE - line.length) 0

theorem buffer_set {line : List UInt8} {c : UInt8} (h : line.length < INPUT_SIZE) :
    (buffer line).set line.length c = buffer (line ++ [c]) := by
  have hroom : INPUT_SIZE - line.length = INPUT_SIZE - (line ++ [c]).length + 1 := by
    rw [List.length_append, List.length_singleton]
    omega
  unfold buffer
  rw [hroom, List.replicate_succ, List.set_append_right _ _ (Nat.le_refl _)]
  simp

theorem zero_mem_buffer_iff : 0 ∈ buffer line ↔ 0 ∈ line ∨ line.length < INPUT_SIZE := by
  have hroom : INPUT_SIZE - line.length ≠ 0 ↔ line.length < INPUT_SIZE := by omega
  simp only [buffer, List.mem_append, List.mem_replicate, and_true, hroom]

theorem readStep_newline {i : Nat} (hc : s.next = newline) :
    Returns (readStep i) s (.inr ()) { s with stdin := s.stdin.tail } := by
  simp [readStep, getchar, returns_bind, hc]

theorem readStep_char {i : Nat} (hc : s.next ≠ newline) (hi : i < INPUT_SIZE) :
    Returns (readStep i) s (.inl (i + 1))
      { s with stdin := s.stdin.tail, input := s.input.set i s.next } := by
  simp [readStep, getchar, returns_bind, hc, hi]

theorem readStep_overrun {i : Nat} (hc : s.next ≠ newline) (hi : ¬ i < INPUT_SIZE) :
    Faults (readStep i) s .outOfBounds := by
  have hget : Returns getchar s s.next { s with stdin := s.stdin.tail } := by
    simp [getchar, returns_bind]
  refine faults_bind hget ?_
  rw [if_neg hc]
  exact faults_check_bind hi

/-- The rest of a line is read behind what is there of it. -/
theorem returns_readSteps (start : List UInt8) (hnl : newline ∉ line)
    (hfits : (start ++ line).length ≤ INPUT_SIZE) (hinput : s.input = buffer start)
    (hstdin : s.stdin = line ++ newline :: rest) :
    Returns (iter readStep start.length) s ()
      { s with stdin := rest, input := buffer (start ++ line) } := by
  induction line generalizing s start with
  | nil =>
    have hc : s.next = newline := by simp [Shell.next, hstdin]
    have hend := readStep_newline (i := start.length) hc
    rw [hstdin] at hend
    rw [List.append_nil, ← hinput]
    exact returns_iter.mpr (.inl hend)
  | cons c line ih =>
    have hnext : s.next = c := by simp [Shell.next, hstdin]
    have hc : s.next ≠ newline := by
      rw [hnext]
      rintro rfl
      exact hnl List.mem_cons_self
    have hroom : start.length < INPUT_SIZE := by
      rw [List.length_append, List.length_cons] at hfits
      omega
    have hstep := readStep_char hc hroom
    rw [hnext, hinput, buffer_set hroom, hstdin] at hstep
    have hsplit : start ++ c :: line = (start ++ [c]) ++ line := by simp
    rw [hsplit] at hfits ⊢
    have hrest := ih (start ++ [c]) (fun h => hnl (List.mem_cons_of_mem _ h)) hfits
      (s := { s with stdin := line ++ newline :: rest, input := buffer (start ++ [c]) }) rfl rfl
    rw [List.length_append, List.length_singleton] at hrest
    exact returns_iter.mpr (.inr ⟨_, _, hstep, hrest⟩)

/-- The input has no line that fits behind the first `i` places. -/
def Overruns (i : Nat) (stdin : List UInt8) : Prop :=
  ∀ line rest, stdin = line ++ newline :: rest → newline ∉ line → INPUT_SIZE < i + line.length

theorem Overruns.next_ne {i : Nat} (h : Overruns i s.stdin) (hi : i ≤ INPUT_SIZE) :
    s.next ≠ newline := by
  intro hc
  cases hstdin : s.stdin with
  | nil => simp [Shell.next, hstdin, newline] at hc
  | cons c rest =>
    simp only [Shell.next, hstdin, List.headD_cons] at hc
    have hlong := h [] rest (by rw [hstdin, hc]; rfl) (by simp)
    rw [List.length_nil] at hlong
    omega

theorem Overruns.tail {i : Nat} (h : Overruns i s.stdin) (hc : s.next ≠ newline) :
    Overruns (i + 1) s.stdin.tail := by
  intro line rest hstdin hnl
  cases htail : s.stdin with
  | nil => simp [htail] at hstdin
  | cons c tail =>
    simp only [htail, List.tail_cons] at hstdin
    have hlong := h (c :: line) rest (by rw [htail, hstdin]; rfl) ?_
    · rw [List.length_cons] at hlong
      omega
    · rw [List.mem_cons]
      rintro (hnew | hmem)
      · simp [Shell.next, htail, ← hnew] at hc
      · exact hnl hmem

/-- Then the array is left: by a long line, or at the end of the input. -/
theorem faults_readSteps {i k : Nat} (hk : i + k = INPUT_SIZE) (h : Overruns i s.stdin) :
    Faults (iter readStep i) s .outOfBounds := by
  have hc := h.next_ne (by omega)
  induction k generalizing i s with
  | zero => exact faults_iter_of_faults (readStep_overrun hc (by omega))
  | succ k ih =>
    have hrest := h.tail hc
    refine (readStep_char hc (by omega)).faults_iter (ih (by omega) hrest ?_)
    exact Overruns.next_ne hrest (by omega)

/-! ### The loop of the shell -/

/-- The input begins with a line that the array can hold as a string. -/
structure Readable (stdin line rest : List UInt8) : Prop where
  stdin : stdin = line ++ newline :: rest
  newline : newline ∉ line
  fits : line.length ≤ INPUT_SIZE
  ends : 0 ∈ line ∨ line.length < INPUT_SIZE

/-- What the shell does with a line. -/
def actionOf (line : List UInt8) : Action := interpret (.ofBytes line)

theorem cstr_buffer : cstr (buffer line) = cstr line := by
  unfold cstr buffer
  rw [List.takeWhile_append]
  split
  · rename_i hall
    have hself : line.takeWhile (· ≠ 0) = line := (List.takeWhile_prefix _).eq_of_length hall
    rw [List.takeWhile_replicate, hself]
    simp
  · rfl

theorem returns_readLine (hstdin : s.stdin = line ++ newline :: rest) (hnl : newline ∉ line)
    (hfits : line.length ≤ INPUT_SIZE) :
    Returns readLine s () { s with stdin := rest, input := buffer line } := by
  unfold readLine
  rw [returns_modify_bind]
  exact returns_readSteps [] hnl hfits rfl hstdin

/-- The shell after a line. -/
def Shell.after (s : Shell) (line rest : List UInt8) : Shell where
  stdin := rest
  input := buffer line
  terminal := s.terminal ++ ascii ">" ++ (actionOf line).text
  calls := s.calls ++ (actionOf line).calls

theorem returns_round (h : Readable s.stdin line rest) :
    Returns (shellRound ()) s (actionOf line).next (s.after line rest) := by
  have hstring : CString.ofBytes (buffer line) = .ofBytes line := CString.ext cstr_buffer
  unfold shellRound Shell.printf
  rw [returns_modify_bind, returns_bind]
  refine ⟨(), _, returns_readLine h.stdin h.newline h.fits, ?_⟩
  rw [returns_get_bind, returns_check_bind]
  refine ⟨zero_mem_buffer_iff.mpr h.ends, ?_⟩
  simp only [hstring]
  unfold perform Shell.printf
  rw [returns_modify_bind, returns_modify_bind]
  exact returns_pure.mpr ⟨rfl, rfl⟩

theorem faults_round (h : ∀ line rest, ¬ Readable s.stdin line rest) :
    Faults (shellRound ()) s .outOfBounds := by
  have hprompt : Returns (Shell.printf (ascii ">")) s ()
      { s with terminal := s.terminal ++ ascii ">" } := returns_modify.mpr rfl
  refine faults_bind hprompt ?_
  by_cases hline : ∃ line rest, s.stdin = line ++ newline :: rest ∧ newline ∉ line ∧
      line.length ≤ INPUT_SIZE
  · -- the line fits, but without room for a zero
    obtain ⟨line, rest, hstdin, hnl, hfits⟩ := hline
    have hends : ¬ 0 ∈ buffer line := by
      intro hzero
      exact h line rest ⟨hstdin, hnl, hfits, zero_mem_buffer_iff.mp hzero⟩
    refine faults_bind (returns_readLine hstdin hnl hfits) ?_
    refine faults_bind (returns_get.mpr ⟨rfl, rfl⟩) ?_
    exact faults_check_bind hends
  · -- it does not, or there is none
    have hover : Overruns 0 s.stdin := by
      intro line rest hstdin hnl
      by_contra hfits
      exact hline ⟨line, rest, hstdin, hnl, by omega⟩
    apply Faults.bind
    refine faults_bind (a := ()) (returns_modify.mpr rfl) ?_
    exact faults_readSteps (Nat.zero_add _) hover

/-- The input is a script: lines that the array can hold, up to one that begins with
    `quit`.  `calls` are the calls that are made for it. -/
inductive Script : List UInt8 → List Call → List UInt8 → Prop
  | quit {stdin line rest : List UInt8} (h : Readable stdin line rest)
      (hquit : actionOf line = .quit) : Script stdin [] rest
  | more {stdin line rest rest' : List UInt8} {calls : List Call} (h : Readable stdin line rest)
      (hgoes : actionOf line ≠ .quit) (hrest : Script rest calls rest') :
      Script stdin ((actionOf line).calls ++ calls) rest'

theorem Action.next_inl {action : Action} (h : action ≠ .quit) : action.next = .inl () := by
  cases action with
  | quit => exact (h rfl).elim
  | _ => rfl

theorem Script.returns {calls : List Call} (h : Script s.stdin calls rest) :
    ∃ s', Returns shellMain s 0 s' ∧ s'.stdin = rest ∧ s'.calls = s.calls ++ calls := by
  generalize hstdin : s.stdin = stdin at h
  induction h generalizing s with
  | quit h hquit =>
    rw [← hstdin] at h
    have hround := returns_round h
    rw [hquit] at hround
    refine ⟨_, returns_iter.mpr (.inl hround), rfl, ?_⟩
    rw [Shell.after, hquit]
    rfl
  | more h hgoes _ ih =>
    rw [← hstdin] at h
    have hround := returns_round h
    rw [Action.next_inl hgoes] at hround
    obtain ⟨s', hrun, hrest, hcalls⟩ := ih (s := s.after _ _) rfl
    refine ⟨s', returns_iter.mpr (.inr ⟨_, _, hround, hrun⟩), hrest, ?_⟩
    rw [hcalls, Shell.after, List.append_assoc]

/-- Without a script the shell leaves its array. -/
theorem faults_of_not_script (h : ∀ calls rest, ¬ Script s.stdin calls rest) :
    Faults shellMain s .outOfBounds := by
  -- every line that is read makes the input shorter
  induction hlen : s.stdin.length using Nat.strong_induction_on generalizing s with
  | _ n ih =>
    by_cases hline : ∃ line rest, Readable s.stdin line rest
    · obtain ⟨line, rest, hline⟩ := hline
      have hgoes : actionOf line ≠ .quit := fun hquit => h [] rest (.quit hline hquit)
      have hround := returns_round hline
      rw [Action.next_inl hgoes] at hround
      have hshort : rest.length < n := by
        rw [← hlen, hline.stdin, List.length_append, List.length_cons]
        omega
      refine hround.faults_iter (ih rest.length hshort ?_ rfl)
      intro calls rest' hscript
      exact h _ _ (.more hline hgoes hscript)
    · apply faults_iter_of_faults
      exact faults_round fun line rest hread => hline ⟨line, rest, hread⟩

/-- **When the shell is safe.**  The shell ends, with the calls of its script made in order
    and the input behind the `quit` unread, exactly if its input is a script; and if it is
    not, the shell leaves its array.  There is no third way: it never runs forever. -/
theorem shell_ends_iff_script :
    ((∃ r s', Returns shellMain s r s') ↔ ∃ calls rest, Script s.stdin calls rest) ∧
    (Faults shellMain s .outOfBounds ↔ ¬ ∃ calls rest, Script s.stdin calls rest) ∧
    ∀ calls rest, Script s.stdin calls rest →
      ∃ s', Returns shellMain s 0 s' ∧ s'.stdin = rest ∧ s'.calls = s.calls ++ calls := by
  have hfaults : (¬ ∃ calls rest, Script s.stdin calls rest) → Faults shellMain s .outOfBounds :=
    fun h => faults_of_not_script fun calls rest hscript => h ⟨calls, rest, hscript⟩
  refine ⟨⟨?_, ?_⟩, ⟨?_, hfaults⟩, fun _ _ h => h.returns⟩
  · rintro ⟨r, s', hret⟩
    by_contra h
    exact (hfaults h).not_returns hret
  · rintro ⟨calls, rest, h⟩
    obtain ⟨s', hret, _⟩ := h.returns
    exact ⟨0, s', hret⟩
  · rintro hfault ⟨calls, rest, h⟩
    obtain ⟨s', hret, _⟩ := h.returns
    exact hfault.not_returns hret

/-! ### Scripts of calls -/

/-- The call can be typed on one line. -/
structure Call.Typable (c : Call) : Prop where
  newline : newline ∉ c.typed
  short : c.typed.length < INPUT_SIZE

theorem Call.typed_no_zero (c : Call) : ∀ ch ∈ c.typed, ch ≠ 0 := by
  have hwords : ∀ k ∈ keywords, (blank :: k).all (· ≠ 0) := by decide +kernel
  have htyped : ∀ k ∈ keywords, ∀ arg : CString, ∀ ch ∈ k ++ blank :: arg.bytes, ch ≠ 0 := by
    intro k hk arg ch hch
    have hall := List.all_eq_true.mp (hwords k hk)
    simp only [List.mem_append, List.mem_cons] at hch
    rcases hch with hch | rfl | hch
    · simpa using hall ch (List.mem_cons_of_mem _ hch)
    · decide
    · exact arg.no_zero ch hch
  cases c with
  | mount drive => exact htyped kMount (by decide) drive
  | unmount drive => exact htyped kUmount (by decide) drive
  | pwd => decide +kernel
  | cd path => exact htyped kCd (by decide) path
  | ls path => exact htyped kLs (by decide) path
  | cat path => exact htyped kCat (by decide) path
  | stat path => exact htyped kStat (by decide) path

theorem actionOf_typed (c : Call) : actionOf c.typed = .call c :=
  interpret_typed (cstr_eq_self c.typed_no_zero)

theorem Call.Typable.readable {c : Call} (h : c.Typable) (rest : List UInt8) :
    Readable (c.typed ++ Fat32s.newline :: rest) c.typed rest :=
  ⟨rfl, h.newline, h.short.le, .inr h.short⟩

/-- The calls, one on each line, and a `quit` at the end. -/
def typedScript (calls : List Call) : List UInt8 :=
  calls.flatMap (fun c => c.typed ++ [newline]) ++ (kQuit ++ [newline])

theorem script_typed {calls : List Call} (h : ∀ c ∈ calls, c.Typable) (rest : List UInt8) :
    Script (typedScript calls ++ rest) calls rest := by
  induction calls with
  | nil =>
    have hquit : Readable (typedScript [] ++ rest) kQuit rest :=
      ⟨by simp [typedScript], by decide, by decide, .inr (by decide)⟩
    exact .quit hquit (interpret_quit (by decide))
  | cons c calls ih =>
    have hread := (h c List.mem_cons_self).readable (typedScript calls ++ rest)
    have hsplit : typedScript (c :: calls) ++ rest =
        c.typed ++ newline :: (typedScript calls ++ rest) := by
      simp [typedScript]
    have hmore := Script.more hread (by rw [actionOf_typed]; simp)
      (ih fun c hc => h c (List.mem_cons_of_mem _ hc))
    rw [actionOf_typed] at hmore
    rw [hsplit]
    exact hmore

/-- **From the keyboard to the file system.**  Calls that are typed into the shell, one on
    each line, are made in that order, and a fresh server answers them as a session does:
    with its codes and its texts. -/
theorem shell_script_served (junk : Nat → Name) (who : UInt32) (disks : Name → Option Disk)
    {calls : List Call} (htyped : ∀ c ∈ calls, c.Typable) (hsane : ∀ c ∈ calls, c.Sane)
    (hstdin : s.stdin = typedScript calls ++ rest) (hstart : s.calls = []) :
    ∃ s', Returns shellMain s 0 s' ∧ s'.stdin = rest ∧ s'.calls = calls ∧
      ∃ h t σ, h.map (·.1) = s'.calls.map (Call.request who true disks true) ∧
        Serves Server.step (Server.initial junk) h t ∧
        Serves (Computes Session.step) .idle h σ ∧ Represents σ t := by
  have hscript := script_typed htyped rest
  rw [← hstdin] at hscript
  obtain ⟨s', hret, hrest, hcalls⟩ := hscript.returns
  rw [hstart, List.nil_append] at hcalls
  refine ⟨s', hret, hrest, hcalls, ?_⟩
  rw [hcalls]
  refine refines_step.serves _ (represents_initial junk) ?_
  intro q hq
  obtain ⟨c, hc, rfl⟩ := List.mem_map.mp hq
  exact (hsane c hc).legal who true disks true

/-- A mount of the sample volume and a cat, typed into the shell. -/
def Sample.calls : List Call :=
  [.mount ⟨ascii "/dev/c0d1", by decide +kernel⟩, .cat ⟨ascii "DIR/B.TXT", by decide +kernel⟩]

theorem shell_script_served_on_sample :
    ∃ s', Returns shellMain ⟨typedScript Sample.calls, [], [], []⟩ 0 s' ∧ s'.calls = Sample.calls ∧
      ∃ h t σ, h.map (·.1) =
          Sample.calls.map (Call.request 1 true (fun _ => some Sample.disk) true) ∧
        Serves Server.step (Server.initial fun _ => []) h t ∧
        Serves (Computes Session.step) .idle h σ ∧ Represents σ t := by
  have htyped : ∀ c ∈ Sample.calls, c.Typable := by
    intro c hc
    rcases List.mem_cons.mp hc with rfl | hc
    · exact ⟨by decide, by decide⟩
    · rw [List.mem_singleton.mp hc]
      exact ⟨by decide, by decide⟩
  have hsane : ∀ c ∈ Sample.calls, c.Sane := by
    intro c hc
    rcases List.mem_cons.mp hc with rfl | hc
    · refine ⟨by decide, ?_, fun _ h => by cases h⟩
      intro drive h
      injection h with h
      rw [← h]
      decide
    · rw [List.mem_singleton.mp hc]
      refine ⟨by decide, fun _ h => (by cases h), ?_⟩
      intro path h
      injection h with h
      rw [← h]
      decide
  have hstdin : (Shell.mk (typedScript Sample.calls) [] [] []).stdin =
      typedScript Sample.calls ++ [] := (List.append_nil _).symm
  obtain ⟨s', hret, _, hcalls, hserved⟩ := shell_script_served (fun _ => []) 1
    (fun _ => some Sample.disk) htyped hsane hstdin rfl
  rw [hcalls] at hserved
  exact ⟨s', hret, hcalls, hserved⟩

end Fat32s
