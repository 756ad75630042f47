/-
  Fat32s/Walk.lean
  ================
  **Walks on any disk.**

  `walk` cuts the segments of the path off in place and keeps two indices into
  it.  Here the path becomes the list of its segments, each with a flag that says
  whether a `/` follows it, and the loop a recursion over that list.
-/
import Fat32s.Scan

namespace Fat32s

open Fat32s.Lib Fat32s.Lib.Prog

variable {s s' : Server}

/-! ### Segments -/

/-- The segments that `walk` looks up.  Nothing is looked up after a `/` that
    ends the path. -/
def segments : Name → List (Name × Bool)
  | [] => []
  | ch :: rest =>
    if ch = 0x2F then ([], true) :: segments rest
    else
      match segments rest with
      | [] => [([ch], false)]
      | (segment, more) :: segs => (ch :: segment, more) :: segs

/-- The first segment of a path and what is left after it. -/
def firstSegment (path : Name) : Name := path.takeWhile (· ≠ 0x2F)
def afterSegment (path : Name) : Name := path.dropWhile (· ≠ 0x2F)

theorem firstSegment_append (path : Name) : firstSegment path ++ afterSegment path = path :=
  List.takeWhile_append_dropWhile

theorem take_firstSegment (path : Name) :
    path.take (firstSegment path).length = firstSegment path := by
  have h : (firstSegment path ++ afterSegment path).take (firstSegment path).length =
      firstSegment path := List.take_left
  rwa [firstSegment_append] at h

theorem drop_firstSegment (path : Name) :
    path.drop (firstSegment path).length = afterSegment path := by
  have h : (firstSegment path ++ afterSegment path).drop (firstSegment path).length =
      afterSegment path := List.drop_left
  rwa [firstSegment_append] at h

theorem segments_eq {path : Name} (h : path ≠ []) :
    segments path = (firstSegment path, !(afterSegment path).isEmpty) ::
      segments ((afterSegment path).drop 1) := by
  induction path with
  | nil => exact (h rfl).elim
  | cons ch rest ih =>
    by_cases hch : ch = 0x2F
    · simp [segments, firstSegment, afterSegment, hch]
    · cases rest with
      | nil => simp [segments, firstSegment, afterSegment, hch]
      | cons ch' rest =>
        have := ih (by simp)
        rw [segments, if_neg hch, this]
        simp [firstSegment, afterSegment, hch]

theorem segments_ne_nil {path : Name} (h : path ≠ []) : segments path ≠ [] := by
  rw [segments_eq h]
  exact List.cons_ne_nil _ _

/-- Only the last of the segments can be without a `/` after it. -/
def EndsFlagged : List (Name × Bool) → Prop
  | [] => True
  | (_, more) :: segs => (more = false → segs = []) ∧ EndsFlagged segs

theorem endsFlagged_segments (path : Name) : EndsFlagged (segments path) := by
  induction path with
  | nil => exact trivial
  | cons ch rest ih =>
    rw [segments]
    split
    · exact ⟨(nomatch ·), ih⟩
    · cases hrest : segments rest with
      | nil => exact ⟨fun _ => rfl, trivial⟩
      | cons seg segs =>
        rw [hrest] at ih
        exact ih

/-- The body of `walk` for each segment, and the pop at the end. -/
def visits (banFiles banDirs : Bool) : List (Name × Bool) → ServerM Int
  | [] => do
    let _ ← stackPop
    return 0
  | (segment, more) :: segs => do
    match ← visit banFiles banDirs segment more with
    | some status => return status
    | none => visits banFiles banDirs segs

/-! ### The loop is the recursion -/

/-- The string at `right` once a zero is written `n` places further on. -/
theorem cstr_cut {path rest : Name} {len right n : Nat}
    (hrest : (path.take len).drop right = rest) (h0 : ∀ ch ∈ rest, ch ≠ 0) (hn : n ≤ rest.length) :
    cstr ((path.set (right + n) 0).drop right) = rest.take n := by
  have hpre : rest.take n = (path.drop right).take n := by
    subst hrest
    rw [List.drop_take] at hn ⊢
    rw [List.take_take, Nat.min_eq_left]
    simp only [List.length_take] at hn
    omega
  have hne : ∀ ch ∈ rest.take n, (decide (ch ≠ 0)) = true := by
    intro ch hch
    simpa using h0 ch (List.mem_of_mem_take hch)
  have hset : (path.set (right + n) 0).drop right = (path.drop right).set n 0 := by
    rw [List.drop_set, if_neg (by omega), Nat.add_sub_cancel_left]
  unfold cstr
  rw [hset]
  rcases Nat.lt_or_ge n (path.drop right).length with hlt | hge
  · rw [List.set_eq_take_append_cons_drop, if_pos hlt, ← hpre, List.takeWhile_append_of_pos hne]
    simp
  · rw [List.set_eq_of_length_le hge]
    rw [List.take_of_length_le hge] at hpre
    rw [← hpre]
    have happ : (rest.take n ++ []).takeWhile (· ≠ 0) = rest.take n ++ [].takeWhile (· ≠ 0) :=
      List.takeWhile_append_of_pos hne
    simpa using happ

/-- The loop variables of `walk` when `rest` is still ahead. -/
structure WalkVars.Ahead (w : WalkVars) (len : Nat) (rest : Name) : Prop where
  left : w.left = w.right
  len_le : len ≤ w.path.length
  ahead : (w.path.take len).drop w.right = rest
  nonzero : ∀ ch ∈ rest, ch ≠ 0

/-- The loop variables after a segment. -/
def WalkVars.next (w : WalkVars) (len : Nat) : WalkVars :=
  ⟨segmentEnd w.path len w.right + 1, segmentEnd w.path len w.right + 1,
    w.path.set (segmentEnd w.path len w.right) 0⟩

section ahead

variable {w : WalkVars} {len : Nat} {rest : Name} (h : w.Ahead len rest)

include h

theorem WalkVars.Ahead.length_eq : rest.length = len - w.right := by
  rw [← h.ahead, List.length_drop, List.length_take, Nat.min_eq_left h.len_le]

theorem WalkVars.Ahead.segmentEnd_eq :
    segmentEnd w.path len w.right = w.right + (firstSegment rest).length := by
  rw [segmentEnd, h.ahead, firstSegment]

theorem WalkVars.Ahead.segment :
    cstr ((w.path.set (segmentEnd w.path len w.right) 0).drop w.left) = firstSegment rest := by
  have hle : (firstSegment rest).length ≤ rest.length := (List.takeWhile_prefix _).length_le
  rw [h.left, h.segmentEnd_eq, cstr_cut h.ahead h.nonzero hle, take_firstSegment]

theorem WalkVars.Ahead.more (hne : rest ≠ []) :
    decide (segmentEnd w.path len w.right < len) = !(afterSegment rest).isEmpty := by
  have hpos := List.length_pos_iff.mpr hne
  have hlength := h.length_eq
  have hsum := congrArg List.length (firstSegment_append rest)
  rw [List.length_append] at hsum
  rw [h.segmentEnd_eq]
  cases hafter : afterSegment rest with
  | nil =>
    rw [hafter, List.length_nil] at hsum
    simp only [List.isEmpty_nil, Bool.not_true, decide_eq_false_iff_not]
    omega
  | cons ch chs =>
    rw [hafter, List.length_cons] at hsum
    simp only [List.isEmpty_cons, Bool.not_false, decide_eq_true_eq]
    omega

theorem WalkVars.Ahead.next : (w.next len).Ahead len ((afterSegment rest).drop 1) where
  left := rfl
  len_le := by simpa [WalkVars.next] using h.len_le
  ahead := by
    have hdrop : (w.path.take len).drop (segmentEnd w.path len w.right + 1) =
        (afterSegment rest).drop 1 := by
      rw [h.segmentEnd_eq, Nat.add_assoc, ← List.drop_drop, h.ahead, ← List.drop_drop,
        drop_firstSegment]
    rw [← hdrop]
    simp only [WalkVars.next, List.take_set]
    rw [List.drop_set_of_lt (by omega)]
  nonzero := fun ch hch => h.nonzero ch
    (firstSegment_append rest ▸ List.mem_append_right _ (List.mem_of_mem_drop hch))

theorem WalkVars.Ahead.returns_walkStep (hne : rest ≠ []) {banFiles banDirs : Bool}
    {x : WalkVars ⊕ Int} :
    Returns (walkStep banFiles banDirs len w) s x s' ↔
      ∃ o, Returns (visit banFiles banDirs (firstSegment rest) (!(afterSegment rest).isEmpty))
          s o s' ∧
        x = match o with
          | some status => .inr status
          | none => .inl (w.next len) := by
  have hpos := List.length_pos_iff.mpr hne
  have hlength := h.length_eq
  have hright : w.right < len := by omega
  simp only [walkStep, hright, if_true, returns_bind, h.segment, h.more hne]
  constructor
  · rintro ⟨o, _, hvisit, hret⟩
    cases o with
    | none =>
      obtain ⟨rfl, rfl⟩ := returns_pure.mp hret
      exact ⟨none, hvisit, rfl⟩
    | some status =>
      obtain ⟨rfl, rfl⟩ := returns_pure.mp hret
      exact ⟨some status, hvisit, rfl⟩
  · rintro ⟨o, hvisit, rfl⟩
    refine ⟨o, _, hvisit, ?_⟩
    cases o with
    | none => exact returns_pure.mpr ⟨rfl, rfl⟩
    | some status => exact returns_pure.mpr ⟨rfl, rfl⟩

end ahead

theorem WalkVars.Ahead.returns_walkLoop {s s' : Server} {w : WalkVars} {len : Nat} {rest : Name}
    (h : w.Ahead len rest) {banFiles banDirs : Bool} {r : Int} :
    Returns (iter (walkStep banFiles banDirs len) w) s r s' ↔
      Returns (visits banFiles banDirs (segments rest)) s r s' := by
  rw [returns_iter]
  by_cases hend : rest = []
  · have hlength := h.length_eq
    have hright : ¬ w.right < len := by
      rw [hend, List.length_nil] at hlength
      omega
    simp only [walkStep, hright, if_false, hend, segments, visits, returns_bind, returns_pure,
      Sum.inr.injEq]
    constructor
    · rintro (h | ⟨_, _, ⟨_, _, _, h, _⟩, _⟩)
      · exact h
      · cases h
    · exact .inl
  · have ih : ∀ {s₁ : Server}, Returns (iter (walkStep banFiles banDirs len) (w.next len)) s₁ r s' ↔
        Returns (visits banFiles banDirs (segments ((afterSegment rest).drop 1))) s₁ r s' :=
      h.next.returns_walkLoop
    rw [segments_eq hend, visits, returns_bind]
    simp only [h.returns_walkStep hend]
    constructor
    · rintro (⟨o, hvisit, ho⟩ | ⟨w', s₁, ⟨o, hvisit, ho⟩, hloop⟩)
      · cases o with
        | none => cases ho
        | some status => exact ⟨_, _, hvisit, returns_pure.mpr ⟨Sum.inr.inj ho, rfl⟩⟩
      · cases o with
        | none =>
          obtain rfl := Sum.inl.inj ho
          exact ⟨_, _, hvisit, ih.mp hloop⟩
        | some status => cases ho
    · rintro ⟨o, s₁, hvisit, hrest⟩
      cases o with
      | none => exact .inr ⟨_, s₁, ⟨none, hvisit, rfl⟩, ih.mpr hrest⟩
      | some status =>
        obtain ⟨rfl, rfl⟩ := returns_pure.mp hrest
        exact .inl ⟨some r, hvisit, rfl⟩
termination_by rest.length
decreasing_by
  have hpos := List.length_pos_iff.mpr hend
  have hle : (afterSegment rest).length ≤ rest.length := (List.dropWhile_suffix _).length_le
  rw [List.length_drop]
  omega

def bansFiles (flags : Nat) : Bool := (flags &&& WALK_BAN_FILES) > 0
def bansDirs (flags : Nat) : Bool := (flags &&& WALK_BAN_DIRS) > 0

/-- **A walk visits the segments of the path one after the other.** -/
theorem returns_walk {path : Name} {flags : Nat} {r : Int} :
    Returns (walk path flags) s r s' ↔
      Returns (visits (bansFiles flags) (bansDirs flags) (segments (cstr path)))
        { s with stack := s.dirBuff.sector :: s.stack } r s' := by
  have hahead : WalkVars.Ahead ⟨0, 0, path⟩ (cstr path).length (cstr path) := by
    have hprefix : cstr path <+: path := List.takeWhile_prefix _
    refine ⟨rfl, hprefix.length_le, ?_, ?_⟩
    · rw [List.drop_zero]
      exact (List.prefix_iff_eq_take.mp hprefix).symm
    · intro ch hch
      simpa using List.all_eq_true.mp (List.all_takeWhile (l := path)) ch hch
  unfold walk
  simp only [returns_globals_bind, returns_push_bind]
  exact hahead.returns_walkLoop

/-- The empty path leads nowhere. -/
theorem returns_walk_of_nil {path : Name} {flags : Nat} {r : Int} (h : cstr path = []) :
    Returns (walk path flags) s r s' ↔ r = 0 ∧ s' = s := by
  rw [returns_walk, h, segments, visits, returns_bind]
  constructor
  · intro hret
    obtain ⟨_, _, hpop, hret⟩ := hret
    obtain ⟨_, hstack, rfl⟩ := returns_stackPop.mp hpop
    obtain ⟨rfl, rfl⟩ := returns_pure.mp hret
    obtain ⟨rfl, rfl⟩ := List.cons.inj hstack
    exact ⟨rfl, rfl⟩
  · intro hret
    obtain ⟨rfl, rfl⟩ := hret
    exact ⟨_, _, returns_stackPop.mpr ⟨_, rfl, rfl⟩, returns_pure.mpr ⟨rfl, rfl⟩⟩

end Fat32s
