/-
  Fat32s/Lib/Prog.lean
  ====================
  **Fuelled imperative programs with faults.**

  A program over a state `σ` is run with an amount of fuel that bounds every
  loop it enters.  A run ends in one of three ways: it returns a value, it
  faults (undefined behaviour of the program it models: a division by zero, an
  access outside an array), or the fuel is used up, in which case the state
  reached so far is kept.  More fuel never changes a run that has settled, and
  `Prog` carries the proof of that, so "the program returns `a` in `s'`" is a
  relation that does not mention fuel (`Returns`).

  Three kinds of statement are supported:

    * `Returns p s a s'`: total correctness.  Every construct has an
      equivalence, so a `do` block is executed symbolically by `simp`;
    * `Safe I p s Q`: whatever the fuel, a run that returns satisfies `Q` and
      one that is interrupted leaves a state satisfying `I`.  This is the form
      used for what must hold in the middle of a run;
    * `Preserves I p`: `I` is an invariant of `p`, in the middle of a run too.
-/

namespace Fat32s.Lib

variable {ε σ τ α β γ : Type}

/-- What a run with a given amount of fuel ends in. -/
inductive Outcome (ε σ α : Type) where
  | ret (a : α) (s : σ)
  | fault (e : ε) (s : σ)
  | more (s : σ)

/-- A run has settled when more fuel cannot change it. -/
def Outcome.settled : Outcome ε σ α → Bool
  | .ret _ _ => true
  | .fault _ _ => true
  | .more _ => false

/-- The run has returned, with a result and a state that pass the test. -/
def Outcome.returned (test : α → σ → Bool) : Outcome ε σ α → Bool
  | .ret a s => test a s
  | .fault _ _ => false
  | .more _ => false

/-- A program: a fuel-indexed state transformer whose settled runs are stable. -/
structure Prog (ε σ α : Type) where
  run : Nat → σ → Outcome ε σ α
  mono : ∀ {n m : Nat} {s : σ}, n ≤ m → (run n s).settled = true → run m s = run n s

namespace Prog

/-! ### The constructs -/

def ret (a : α) : Prog ε σ α where
  run _ s := .ret a s
  mono _ _ := rfl

def andThen (p : Prog ε σ α) (f : α → Prog ε σ β) : Prog ε σ β where
  run n s :=
    match p.run n s with
    | .ret a s' => (f a).run n s'
    | .fault e s' => .fault e s'
    | .more s' => .more s'
  mono {n m s} hnm hs := by
    cases hp : p.run n s with
    | ret a s' =>
      have hm : p.run m s = .ret a s' := by rw [p.mono hnm (by rw [hp]; rfl), hp]
      simp only [hp, hm] at hs ⊢
      exact (f a).mono hnm hs
    | fault e s' =>
      have hm : p.run m s = .fault e s' := by rw [p.mono hnm (by rw [hp]; rfl), hp]
      simp only [hm]
    | more s' => simp [hp, Outcome.settled] at hs

instance : Monad (Prog ε σ) where
  pure := ret
  bind := andThen

def get : Prog ε σ σ where
  run _ s := .ret s s
  mono _ _ := rfl

def modify (f : σ → σ) : Prog ε σ Unit where
  run _ s := .ret () (f s)
  mono _ _ := rfl

def fault (e : ε) : Prog ε σ α where
  run _ s := .fault e s
  mono _ _ := rfl

/-- Fault with `e` unless `c` holds. -/
def check (c : Prop) [Decidable c] (e : ε) : Prog ε σ Unit :=
  if c then ret () else fault e

/-- The runs of a loop that may still go round `k` times; the body is run with
    the whole fuel `n` each time. -/
def iterRun (f : β → Prog ε σ (β ⊕ α)) (n : Nat) : Nat → β → σ → Outcome ε σ α
  | 0, _, s => .more s
  | k + 1, b, s =>
    match (f b).run n s with
    | .ret (.inl b') s' => iterRun f n k b' s'
    | .ret (.inr a) s' => .ret a s'
    | .fault e s' => .fault e s'
    | .more s' => .more s'

theorem iterRun_mono (f : β → Prog ε σ (β ⊕ α)) {n m : Nat} (hnm : n ≤ m) :
    ∀ {k j : Nat} {b : β} {s : σ}, k ≤ j → (iterRun f n k b s).settled = true →
      iterRun f m j b s = iterRun f n k b s := by
  intro k
  induction k with
  | zero => intro j b s _ hs; simp [iterRun, Outcome.settled] at hs
  | succ k ih =>
    intro j b s hkj hs
    obtain ⟨j, rfl⟩ : ∃ i, j = i + 1 := ⟨j - 1, by omega⟩
    cases hp : (f b).run n s with
    | ret r s' =>
      have hm : (f b).run m s = .ret r s' := by rw [(f b).mono hnm (by rw [hp]; rfl), hp]
      cases r with
      | inl b' =>
        simp only [iterRun, hp, hm] at hs ⊢
        exact ih (by omega) hs
      | inr a => simp only [iterRun, hp, hm]
    | fault e s' =>
      have hm : (f b).run m s = .fault e s' := by rw [(f b).mono hnm (by rw [hp]; rfl), hp]
      simp only [iterRun, hp, hm]
    | more s' => simp [iterRun, hp, Outcome.settled] at hs

/-- A `while` loop: `f b` either goes round again with new loop variables
    (`inl`) or leaves the loop (`inr`). -/
def iter (f : β → Prog ε σ (β ⊕ α)) (b : β) : Prog ε σ α where
  run n s := iterRun f n n b s
  mono hnm hs := iterRun_mono f hnm hnm hs

/-- A counted loop, `for (i = 0; i < k; i++) p`. -/
def times : Nat → Prog ε σ Unit → Prog ε σ Unit
  | 0, _ => ret ()
  | k + 1, p => andThen p fun _ => times k p

/-- Run a program on a part of a larger state; the rest of it is kept. -/
def zoom (view : σ → τ) (put : τ → σ → σ) (p : Prog ε τ α) : Prog ε σ α where
  run n s :=
    match p.run n (view s) with
    | .ret a t => .ret a (put t s)
    | .fault e t => .fault e (put t s)
    | .more t => .more (put t s)
  mono {n m s} hnm hs := by
    cases hp : p.run n (view s) with
    | ret a t => simp only [p.mono hnm (by rw [hp]; rfl), hp]
    | fault e t => simp only [p.mono hnm (by rw [hp]; rfl), hp]
    | more t => simp [hp, Outcome.settled] at hs

/-! ### Returning -/

/-- `p` started in `s` returns `a` and leaves the state `s'`. -/
def Returns (p : Prog ε σ α) (s : σ) (a : α) (s' : σ) : Prop := ∃ n, p.run n s = .ret a s'

/-- `p` started in `s` ends, by returning or by a fault. -/
def Halts (p : Prog ε σ α) (s : σ) : Prop := ∃ n, (p.run n s).settled = true

theorem run_eq_of_settled (p : Prog ε σ α) {n m : Nat} {s : σ}
    (hn : (p.run n s).settled = true) (hm : (p.run m s).settled = true) :
    p.run n s = p.run m s := by
  rcases Nat.le_total n m with h | h
  · exact (p.mono h hn).symm
  · exact p.mono h hm

theorem Returns.run_eq {p : Prog ε σ α} {s s' : σ} {a : α} {n m : Nat}
    (h : p.run n s = .ret a s') (hnm : n ≤ m) : p.run m s = .ret a s' := by
  rw [p.mono hnm (by rw [h]; rfl), h]

/-- Programs are deterministic. -/
theorem Returns.unique {p : Prog ε σ α} {s s' t : σ} {a b : α}
    (h₁ : Returns p s a s') (h₂ : Returns p s b t) : a = b ∧ s' = t := by
  obtain ⟨n, hn⟩ := h₁
  obtain ⟨m, hm⟩ := h₂
  have heq := run_eq_of_settled p (by rw [hn]; rfl : (p.run n s).settled = true)
    (by rw [hm]; rfl : (p.run m s).settled = true)
  rw [hn, hm] at heq
  exact ⟨by injection heq, by injection heq⟩

theorem Returns.halts {p : Prog ε σ α} {s s' : σ} {a : α} (h : Returns p s a s') :
    Halts p s := by
  obtain ⟨n, hn⟩ := h
  exact ⟨n, by rw [hn]; rfl⟩

theorem exists_returns (p : Prog ε σ α) (s : σ) (n : Nat) (test : α → σ → Bool)
    (h : (p.run n s).returned test = true) : ∃ a s', Returns p s a s' ∧ test a s' = true := by
  cases hp : p.run n s with
  | ret a s' => rw [hp] at h; exact ⟨a, s', ⟨n, hp⟩, h⟩
  | fault e s' => rw [hp] at h; cases h
  | more s' => rw [hp] at h; cases h

@[simp] theorem returns_pure {a b : α} {s s' : σ} :
    Returns (pure a : Prog ε σ α) s b s' ↔ b = a ∧ s' = s := by
  constructor
  · rintro ⟨n, hn⟩
    injection hn with h1 h2
    exact ⟨h1.symm, h2.symm⟩
  · rintro ⟨rfl, rfl⟩
    exact ⟨0, rfl⟩

theorem returns_bind {p : Prog ε σ α} {f : α → Prog ε σ β} {s s' : σ} {b : β} :
    Returns (p >>= f) s b s' ↔ ∃ a s₁, Returns p s a s₁ ∧ Returns (f a) s₁ b s' := by
  constructor
  · rintro ⟨n, hn⟩
    change (andThen p f).run n s = _ at hn
    simp only [andThen] at hn
    cases hp : p.run n s with
    | ret a s₁ => rw [hp] at hn; exact ⟨a, s₁, ⟨n, hp⟩, ⟨n, hn⟩⟩
    | fault e s₁ => rw [hp] at hn; cases hn
    | more s₁ => rw [hp] at hn; cases hn
  · rintro ⟨a, s₁, ⟨n, hn⟩, ⟨m, hm⟩⟩
    refine ⟨max n m, ?_⟩
    change (andThen p f).run (max n m) s = _
    simp only [andThen, Returns.run_eq hn (Nat.le_max_left n m)]
    exact Returns.run_eq hm (Nat.le_max_right n m)

theorem Returns.bind_exists {p : Prog ε σ α} {f : α → Prog ε σ β} {s s₁ : σ} {a : α}
    (hp : Returns p s a s₁) (hf : ∃ b s', Returns (f a) s₁ b s') :
    ∃ b s', Returns (p >>= f) s b s' := by
  obtain ⟨b, s', hf⟩ := hf
  exact ⟨b, s', returns_bind.mpr ⟨a, s₁, hp, hf⟩⟩

@[simp] theorem returns_get {s s' : σ} {a : σ} :
    Returns (get : Prog ε σ σ) s a s' ↔ a = s ∧ s' = s := by
  constructor
  · rintro ⟨n, hn⟩
    injection hn with h1 h2
    exact ⟨h1.symm, h2.symm⟩
  · rintro ⟨rfl, rfl⟩
    exact ⟨0, rfl⟩

@[simp] theorem returns_modify {f : σ → σ} {s s' : σ} {u : Unit} :
    Returns (modify f : Prog ε σ Unit) s u s' ↔ s' = f s := by
  constructor
  · rintro ⟨n, hn⟩
    injection hn with h1 h2
    exact h2.symm
  · rintro rfl
    exact ⟨0, rfl⟩

@[simp] theorem returns_fault {e : ε} {s s' : σ} {a : α} :
    ¬ Returns (fault e : Prog ε σ α) s a s' := by
  rintro ⟨n, hn⟩
  cases hn

@[simp] theorem returns_check {c : Prop} [Decidable c] {e : ε} {s s' : σ} {u : Unit} :
    Returns (check c e : Prog ε σ Unit) s u s' ↔ c ∧ s' = s := by
  unfold check
  split
  · rename_i hc
    exact (returns_pure (ε := ε) (a := ())).trans (by simp [hc])
  · rename_i hc
    simp [hc]

theorem returns_zoom {view : σ → τ} {put : τ → σ → σ} {p : Prog ε τ α} {s s' : σ}
    {a : α} : Returns (zoom view put p) s a s' ↔ ∃ t, Returns p (view s) a t ∧ s' = put t s := by
  constructor
  · rintro ⟨n, hn⟩
    simp only [zoom] at hn
    cases hp : p.run n (view s) with
    | ret b t =>
      rw [hp] at hn
      injection hn with h1 h2
      exact ⟨t, ⟨n, by rw [hp, h1]⟩, h2.symm⟩
    | fault e t => rw [hp] at hn; cases hn
    | more t => rw [hp] at hn; cases hn
  · rintro ⟨t, ⟨n, hn⟩, rfl⟩
    exact ⟨n, by simp only [zoom, hn]⟩

/-! The forms that execute the first statement of a block. -/

@[simp] theorem returns_pure_bind {a : α} {f : α → Prog ε σ β} {s s' : σ} {b : β} :
    Returns (pure a >>= f) s b s' ↔ Returns (f a) s b s' := by
  simp [returns_bind, and_assoc]

@[simp] theorem returns_get_bind {f : σ → Prog ε σ β} {s s' : σ} {b : β} :
    Returns (get >>= f) s b s' ↔ Returns (f s) s b s' := by
  simp [returns_bind, and_assoc]

@[simp] theorem returns_modify_bind {g : σ → σ} {f : Unit → Prog ε σ β} {s s' : σ} {b : β} :
    Returns (modify g >>= f) s b s' ↔ Returns (f ()) (g s) b s' := by
  rw [returns_bind]
  constructor
  · rintro ⟨_, s₁, hg, hf⟩
    rwa [returns_modify.mp hg] at hf
  · intro hf
    exact ⟨(), g s, returns_modify.mpr rfl, hf⟩

@[simp] theorem returns_check_bind {c : Prop} [Decidable c] {e : ε} {f : Unit → Prog ε σ β}
    {s s' : σ} {b : β} :
    Returns (check c e >>= f) s b s' ↔ c ∧ Returns (f ()) s b s' := by
  rw [returns_bind]
  constructor
  · rintro ⟨_, s₁, hr, hf⟩
    obtain ⟨hc, rfl⟩ := returns_check.mp hr
    exact ⟨hc, hf⟩
  · rintro ⟨hc, hf⟩
    exact ⟨(), s, returns_check.mpr ⟨hc, rfl⟩, hf⟩

/-! ### Faults -/

/-- `p` started in `s` runs into the fault `e`. -/
def Faults (p : Prog ε σ α) (s : σ) (e : ε) : Prop := ∃ n s', p.run n s = .fault e s'

theorem Faults.not_returns {p : Prog ε σ α} {s s' : σ} {e : ε} {a : α} (h : Faults p s e) :
    ¬ Returns p s a s' := by
  intro hret
  obtain ⟨n, t, hn⟩ := h
  obtain ⟨m, hm⟩ := hret
  have heq := run_eq_of_settled p (by rw [hn]; rfl : (p.run n s).settled = true)
    (by rw [hm]; rfl : (p.run m s).settled = true)
  rw [hn, hm] at heq
  cases heq

theorem faults_bind {p : Prog ε σ α} {f : α → Prog ε σ β} {s s₁ : σ} {a : α} {e : ε}
    (hp : Returns p s a s₁) (hf : Faults (f a) s₁ e) : Faults (p >>= f) s e := by
  obtain ⟨n, hn⟩ := hp
  obtain ⟨m, s', hm⟩ := hf
  refine ⟨max n m, s', ?_⟩
  change (andThen p f).run (max n m) s = _
  simp only [andThen, Returns.run_eq hn (Nat.le_max_left n m)]
  rw [(f a).mono (Nat.le_max_right n m) (by rw [hm]; rfl), hm]

theorem Faults.bind {p : Prog ε σ α} {s : σ} {e : ε} (hp : Faults p s e) (f : α → Prog ε σ β) :
    Faults (p >>= f) s e := by
  obtain ⟨n, s', hn⟩ := hp
  refine ⟨n, s', ?_⟩
  change (andThen p f).run n s = _
  simp only [andThen, hn]

theorem faults_check {c : Prop} [Decidable c] {e : ε} {s : σ} (hc : ¬ c) :
    Faults (check c e : Prog ε σ Unit) s e := ⟨0, s, by rw [check, if_neg hc]; rfl⟩

theorem faults_check_bind {c : Prop} [Decidable c] {e : ε} {f : Unit → Prog ε σ β} {s : σ}
    (hc : ¬ c) : Faults (check c e >>= f) s e := (faults_check hc).bind f

/-- Going round a loop once. -/
theorem returns_iter {f : β → Prog ε σ (β ⊕ α)} {b : β} {s s' : σ} {a : α} :
    Returns (iter f b) s a s' ↔
      Returns (f b) s (.inr a) s' ∨
        ∃ b' s₁, Returns (f b) s (.inl b') s₁ ∧ Returns (iter f b') s₁ a s' := by
  constructor
  · rintro ⟨n, hn⟩
    change iterRun f n n b s = _ at hn
    cases n with
    | zero => simp [iterRun] at hn
    | succ k =>
      simp only [iterRun] at hn
      cases hp : (f b).run (k + 1) s with
      | ret r s₁ =>
        rw [hp] at hn
        cases r with
        | inl b' =>
          change iterRun f (k + 1) k b' s₁ = _ at hn
          have hrest : iterRun f (k + 1) (k + 1) b' s₁ = .ret a s' := by
            rw [iterRun_mono f (Nat.le_refl _) (Nat.le_succ k) (by rw [hn]; rfl), hn]
          exact Or.inr ⟨b', s₁, ⟨k + 1, hp⟩, ⟨k + 1, hrest⟩⟩
        | inr c =>
          injection hn with h1 h2
          exact Or.inl ⟨k + 1, by rw [hp, h1, h2]⟩
      | fault e s₁ => rw [hp] at hn; cases hn
      | more s₁ => rw [hp] at hn; cases hn
  · rintro (⟨n, hn⟩ | ⟨b', s₁, ⟨n, hn⟩, ⟨m, hm⟩⟩)
    · refine ⟨n + 1, ?_⟩
      change iterRun f (n + 1) (n + 1) b s = _
      simp only [iterRun, Returns.run_eq hn (Nat.le_succ n)]
    · refine ⟨max n m + 1, ?_⟩
      change iterRun f m m b' s₁ = _ at hm
      change iterRun f (max n m + 1) (max n m + 1) b s = _
      simp only [iterRun, Returns.run_eq hn (show n ≤ max n m + 1 by omega)]
      rw [iterRun_mono f (show m ≤ max n m + 1 by omega) (Nat.le_max_right n m)
        (by rw [hm]; rfl), hm]

/-- **Loop rule for returning runs.**  What holds of every exit, and is carried
    backwards over every round, holds of every run of the loop. -/
theorem returns_iter_induct {f : β → Prog ε σ (β ⊕ α)} {motive : β → σ → α → σ → Prop}
    (stop : ∀ b s a s', Returns (f b) s (.inr a) s' → motive b s a s')
    (round : ∀ b s b' s₁ a s', Returns (f b) s (.inl b') s₁ → motive b' s₁ a s' →
      motive b s a s')
    {b : β} {s s' : σ} {a : α} (h : Returns (iter f b) s a s') : motive b s a s' := by
  obtain ⟨n, hn⟩ := h
  change iterRun f n n b s = _ at hn
  have key : ∀ k b s, iterRun f n k b s = .ret a s' → motive b s a s' := by
    intro k
    induction k with
    | zero => intro b s h; simp [iterRun] at h
    | succ k ih =>
      intro b s h
      simp only [iterRun] at h
      cases hp : (f b).run n s with
      | ret r s₁ =>
        rw [hp] at h
        cases r with
        | inl b' => exact round b s b' s₁ a s' ⟨n, hp⟩ (ih b' s₁ h)
        | inr c =>
          injection h with h1 h2
          exact stop b s a s' ⟨n, by rw [hp, h1, h2]⟩
      | fault e s₁ => rw [hp] at h; cases h
      | more s₁ => rw [hp] at h; cases h
  exact key n b s hn

theorem faults_iter_of_faults {f : β → Prog ε σ (β ⊕ α)} {b : β} {s : σ} {e : ε}
    (h : Faults (f b) s e) : Faults (iter f b) s e := by
  obtain ⟨n, s', hn⟩ := h
  refine ⟨n + 1, s', ?_⟩
  change iterRun f (n + 1) (n + 1) b s = _
  have hround : (f b).run (n + 1) s = .fault e s' := by
    rw [(f b).mono (Nat.le_succ n) (by rw [hn]; rfl), hn]
  simp only [iterRun, hround]

/-- A loop faults if it does so after a round. -/
theorem Returns.faults_iter {f : β → Prog ε σ (β ⊕ α)} {b b' : β} {s s₁ : σ} {e : ε}
    (hround : Returns (f b) s (.inl b') s₁) (hrest : Faults (iter f b') s₁ e) :
    Faults (iter f b) s e := by
  obtain ⟨n, hn⟩ := hround
  obtain ⟨m, s', hm⟩ := hrest
  refine ⟨max n m + 1, s', ?_⟩
  change iterRun f m m b' s₁ = _ at hm
  change iterRun f (max n m + 1) (max n m + 1) b s = _
  simp only [iterRun, Returns.run_eq hn (show n ≤ max n m + 1 by omega)]
  rw [iterRun_mono f (show m ≤ max n m + 1 by omega) (Nat.le_max_right n m) (by rw [hm]; rfl), hm]

@[simp] theorem returns_times_zero {p : Prog ε σ Unit} {s s' : σ} {u : Unit} :
    Returns (times 0 p) s u s' ↔ s' = s :=
  (returns_pure (ε := ε) (a := ())).trans (by simp)

@[simp] theorem returns_times_succ {k : Nat} {p : Prog ε σ Unit} {s s' : σ} {u : Unit} :
    Returns (times (k + 1) p) s u s' ↔
      ∃ s₁, Returns p s () s₁ ∧ Returns (times k p) s₁ u s' := by
  refine (returns_bind (p := p) (f := fun _ => times k p)).trans ?_
  constructor
  · rintro ⟨_, s₁, h1, h2⟩; exact ⟨s₁, h1, h2⟩
  · rintro ⟨s₁, h1, h2⟩; exact ⟨(), s₁, h1, h2⟩

/-! ### Safety of every run, finished or not -/

/-- Every run of `p` from `s`: if it returns it satisfies `Q`, and if it is
    interrupted (`none`: by lack of fuel, `some e`: by the fault `e`) the state
    left behind satisfies `I`. -/
def Safe (I : Option ε → σ → Prop) (p : Prog ε σ α) (s : σ) (Q : α → σ → Prop) : Prop :=
  ∀ n, match p.run n s with
    | .ret a s' => Q a s'
    | .fault e s' => I (some e) s'
    | .more s' => I none s'

section Safe

variable {I : Option ε → σ → Prop} {s : σ}

theorem Safe.returns {p : Prog ε σ α} {Q : α → σ → Prop} (h : Safe I p s Q) {a : α} {s' : σ}
    (hr : Returns p s a s') : Q a s' := by
  obtain ⟨n, hn⟩ := hr
  have := h n
  rwa [hn] at this

theorem Safe.weaken {p : Prog ε σ α} {Q Q' : α → σ → Prop} (h : Safe I p s Q)
    (hQ : ∀ a s', Q a s' → Q' a s') : Safe I p s Q' := by
  intro n
  have hn := h n
  cases hp : p.run n s with
  | ret a s' => rw [hp] at hn; exact hQ a s' hn
  | fault e s' => rw [hp] at hn; exact hn
  | more s' => rw [hp] at hn; exact hn

theorem Safe.weaken_inv {I' : Option ε → σ → Prop} {p : Prog ε σ α} {Q : α → σ → Prop}
    (h : Safe I p s Q) (hI : ∀ r s', I r s' → I' r s') : Safe I' p s Q := by
  intro n
  have hn := h n
  cases hp : p.run n s with
  | ret a s' => rw [hp] at hn; exact hn
  | fault e s' => rw [hp] at hn; exact hI _ _ hn
  | more s' => rw [hp] at hn; exact hI _ _ hn

theorem Safe.and_returns {p : Prog ε σ α} {Q : α → σ → Prop} (h : Safe I p s Q) :
    Safe I p s fun a s' => Q a s' ∧ Returns p s a s' := by
  intro n
  have hn := h n
  cases hp : p.run n s with
  | ret a s' => rw [hp] at hn; exact ⟨hn, n, hp⟩
  | fault e s' => rw [hp] at hn; exact hn
  | more s' => rw [hp] at hn; exact hn

theorem safe_pure {a : α} {Q : α → σ → Prop} (h : Q a s) :
    Safe I (pure a : Prog ε σ α) s Q := fun _ => h

theorem safe_get {Q : σ → σ → Prop} (h : Q s s) : Safe I (get : Prog ε σ σ) s Q := fun _ => h

theorem safe_modify {f : σ → σ} {Q : Unit → σ → Prop} (h : Q () (f s)) :
    Safe I (modify f : Prog ε σ Unit) s Q := fun _ => h

theorem safe_fault {e : ε} {Q : α → σ → Prop} (h : I (some e) s) :
    Safe I (fault e : Prog ε σ α) s Q := fun _ => h

theorem safe_check {c : Prop} [Decidable c] {e : ε} {Q : Unit → σ → Prop}
    (hc : c → Q () s) (hn : ¬ c → I (some e) s) : Safe I (check c e : Prog ε σ Unit) s Q := by
  unfold check
  split
  · rename_i h; exact fun _ => hc h
  · rename_i h; exact fun _ => hn h

theorem safe_bind {p : Prog ε σ α} {f : α → Prog ε σ β} {Q : β → σ → Prop}
    (h : Safe I p s fun a s₁ => Safe I (f a) s₁ Q) : Safe I (p >>= f) s Q := by
  intro n
  change match (andThen p f).run n s with
    | .ret a s' => Q a s' | .fault e s' => I (some e) s' | .more s' => I none s'
  have hn := h n
  simp only [andThen]
  cases hp : p.run n s with
  | ret a s₁ => rw [hp] at hn; exact hn n
  | fault e s₁ => rw [hp] at hn; exact hn
  | more s₁ => rw [hp] at hn; exact hn

theorem safe_zoom {view : σ → τ} {put : τ → σ → σ} {p : Prog ε τ α} {Q : α → σ → Prop}
    (h : Safe (fun r t => I r (put t s)) p (view s) fun a t => Q a (put t s)) :
    Safe I (zoom view put p) s Q := by
  intro n
  have hn := h n
  simp only [zoom]
  cases hp : p.run n (view s) with
  | ret a t => rw [hp] at hn; exact hn
  | fault e t => rw [hp] at hn; exact hn
  | more t => rw [hp] at hn; exact hn

/-- **Invariant rule for loops.**  `J` holds before every round and implies `I`. -/
theorem safe_iter {f : β → Prog ε σ (β ⊕ α)} {Q : α → σ → Prop} (J : β → σ → Prop)
    (hI : ∀ b s, J b s → I none s)
    (hstep : ∀ b s, J b s → Safe I (f b) s fun r s' =>
      match r with
      | .inl b' => J b' s'
      | .inr a => Q a s')
    {b : β} (h : J b s) : Safe I (iter f b) s Q := by
  intro n
  have key : ∀ k b s, J b s → match iterRun f n k b s with
      | .ret a s' => Q a s' | .fault e s' => I (some e) s' | .more s' => I none s' := by
    intro k
    induction k with
    | zero => intro b s hJ; exact hI b s hJ
    | succ k ih =>
      intro b s hJ
      have hn := hstep b s hJ n
      simp only [iterRun]
      cases hp : (f b).run n s with
      | ret r s' =>
        rw [hp] at hn
        cases r with
        | inl b' => exact ih b' s' hn
        | inr a => exact hn
      | fault e s' => rw [hp] at hn; exact hn
      | more s' => rw [hp] at hn; exact hn
  exact key n b s h

theorem safe_times {p : Prog ε σ Unit} {J : σ → Prop}
    (hstep : ∀ s, J s → Safe I p s fun _ s' => J s') :
    ∀ {k : Nat} {s : σ}, J s → Safe I (times k p) s fun _ s' => J s' := by
  intro k
  induction k with
  | zero => intro s h; exact safe_pure (ε := ε) (a := ()) h
  | succ k ih =>
    intro s h
    exact safe_bind (p := p) (f := fun _ => times k p)
      ((hstep s h).weaken fun _ s' hs' => ih hs')

end Safe

/-! ### Ending -/

/-- A run that avoids faults and ends returns. -/
theorem Safe.exists_returns {p : Prog ε σ α} {s : σ} {Q : α → σ → Prop}
    (h : Safe (fun r _ => r = none) p s Q) (hp : Halts p s) : ∃ a s', Returns p s a s' := by
  obtain ⟨n, hn⟩ := hp
  have hsafe := h n
  cases hrun : p.run n s with
  | ret a s' => exact ⟨a, s', n, hrun⟩
  | fault e s' => rw [hrun] at hsafe; cases hsafe
  | more s' => rw [hrun] at hn; cases hn

theorem halts_bind {p : Prog ε σ α} {f : α → Prog ε σ β} {s : σ} (hp : Halts p s)
    (hf : ∀ a s', Returns p s a s' → Halts (f a) s') : Halts (p >>= f) s := by
  obtain ⟨n, hn⟩ := hp
  change ∃ m, ((andThen p f).run m s).settled = true
  simp only [andThen]
  cases hrun : p.run n s with
  | ret a s' =>
    obtain ⟨m, hm⟩ := hf a s' ⟨n, hrun⟩
    refine ⟨max n m, ?_⟩
    rw [Returns.run_eq hrun (Nat.le_max_left n m)]
    change ((f a).run (max n m) s').settled = true
    rw [(f a).mono (Nat.le_max_right n m) hm]
    exact hm
  | fault e s' => exact ⟨n, by rw [hrun]; rfl⟩
  | more s' => rw [hrun] at hn; cases hn

theorem halts_iter {f : β → Prog ε σ (β ⊕ α)} {b : β} {s : σ} (hp : Halts (f b) s)
    (hf : ∀ b' s', Returns (f b) s (.inl b') s' → Halts (iter f b') s') : Halts (iter f b) s := by
  obtain ⟨n, hn⟩ := hp
  change ∃ m, (iterRun f m m b s).settled = true
  cases hrun : (f b).run n s with
  | ret r s' =>
    cases r with
    | inl b' =>
      obtain ⟨m, hm⟩ := hf b' s' ⟨n, hrun⟩
      change (iterRun f m m b' s').settled = true at hm
      refine ⟨max n m + 1, ?_⟩
      simp only [iterRun, Returns.run_eq hrun (show n ≤ max n m + 1 by omega)]
      rw [iterRun_mono f (show m ≤ max n m + 1 by omega) (Nat.le_max_right n m) hm]
      exact hm
    | inr a =>
      refine ⟨n + 1, ?_⟩
      simp only [iterRun, Returns.run_eq hrun (Nat.le_succ n)]
      rfl
  | fault e s' =>
    refine ⟨n + 1, ?_⟩
    simp only [iterRun, (f b).mono (Nat.le_succ n) (by rw [hrun]; rfl), hrun]
    rfl
  | more s' => rw [hrun] at hn; cases hn

/-! ### Programs without loops -/

/-- The program settles whatever the fuel. -/
def Prompt (p : Prog ε σ α) : Prop := ∀ n s, (p.run n s).settled = true

theorem Prompt.halts {p : Prog ε σ α} (hp : Prompt p) (s : σ) : Halts p s := ⟨0, hp 0 s⟩

/-- There is no middle of the run at which it could be interrupted. -/
theorem Prompt.safe {I : Option ε → σ → Prop} {p : Prog ε σ α} {s s' : σ} {a : α}
    {Q : α → σ → Prop} (hp : Prompt p) (h : Returns p s a s') (hQ : Q a s') : Safe I p s Q := by
  intro n
  obtain ⟨m, hm⟩ := h
  have heq := run_eq_of_settled p (hp n s) (by rw [hm]; rfl : (p.run m s).settled = true)
  rw [heq, hm]
  exact hQ

theorem prompt_pure (a : α) : Prompt (pure a : Prog ε σ α) := fun _ _ => rfl

theorem prompt_get : Prompt (get : Prog ε σ σ) := fun _ _ => rfl

theorem prompt_modify (f : σ → σ) : Prompt (modify f : Prog ε σ Unit) := fun _ _ => rfl

theorem prompt_fault (e : ε) : Prompt (fault e : Prog ε σ α) := fun _ _ => rfl

theorem prompt_check (c : Prop) [Decidable c] (e : ε) : Prompt (check c e : Prog ε σ Unit) := by
  intro n s
  unfold check
  split
  · rfl
  · rfl

theorem prompt_bind {p : Prog ε σ α} {f : α → Prog ε σ β} (hp : Prompt p)
    (hf : ∀ a, Prompt (f a)) : Prompt (p >>= f) := by
  intro n s
  change ((andThen p f).run n s).settled = true
  have hn := hp n s
  simp only [andThen]
  cases hrun : p.run n s with
  | ret a s' => exact hf a n s'
  | fault e s' => rfl
  | more s' => rw [hrun] at hn; cases hn

theorem prompt_times {p : Prog ε σ Unit} (hp : Prompt p) : ∀ k, Prompt (times k p)
  | 0 => fun _ _ => rfl
  | k + 1 => prompt_bind (f := fun _ => times k p) hp fun _ => prompt_times hp k

theorem prompt_zoom {view : σ → τ} {put : τ → σ → σ} {p : Prog ε τ α} (hp : Prompt p) :
    Prompt (zoom view put p) := by
  intro n s
  have hn := hp n (view s)
  simp only [zoom]
  cases hrun : p.run n (view s) with
  | ret a t => rfl
  | fault e t => rfl
  | more t => rw [hrun] at hn; cases hn

/-! ### Invariants -/

/-- `I` holds throughout every run of `p` that starts with it. -/
def Preserves (I : σ → Prop) (p : Prog ε σ α) : Prop :=
  ∀ s, I s → Safe (fun _ => I) p s fun _ => I

section Preserves

variable {I : σ → Prop}

theorem Preserves.returns {p : Prog ε σ α} (hp : Preserves I p) {s s' : σ} {a : α}
    (h : Returns p s a s') (hs : I s) : I s' := (hp s hs).returns h

theorem preserves_pure (a : α) : Preserves I (pure a : Prog ε σ α) :=
  fun _ hs => safe_pure hs

theorem preserves_get : Preserves I (get : Prog ε σ σ) := fun _ hs => safe_get hs

theorem preserves_check (c : Prop) [Decidable c] (e : ε) :
    Preserves I (check c e : Prog ε σ Unit) :=
  fun _ hs => safe_check (fun _ => hs) fun _ => hs

theorem preserves_modify {f : σ → σ} (h : ∀ s, I s → I (f s)) :
    Preserves I (modify f : Prog ε σ Unit) :=
  fun s hs => safe_modify (h s hs)

theorem preserves_bind {p : Prog ε σ α} {f : α → Prog ε σ β} (hp : Preserves I p)
    (hf : ∀ a, Preserves I (f a)) : Preserves I (p >>= f) :=
  fun s hs => safe_bind ((hp s hs).weaken fun a s' hs' => hf a s' hs')

theorem preserves_iter {f : β → Prog ε σ (β ⊕ α)} (hf : ∀ b, Preserves I (f b)) (b : β) :
    Preserves I (iter f b) := by
  intro s hs
  refine safe_iter (fun _ => I) (fun _ _ h => h) ?_ hs
  intro b s hs
  refine (hf b s hs).weaken ?_
  intro r s' hs'
  cases r with
  | inl b' => exact hs'
  | inr a => exact hs'

theorem preserves_times {p : Prog ε σ Unit} (hp : Preserves I p) (k : Nat) :
    Preserves I (times k p) :=
  fun _ hs => safe_times hp hs

end Preserves

/-! ### Results -/

/-- Whatever the state, what the program returns has the property. -/
structure Yields (P : α → Prop) (p : Prog ε σ α) : Prop where
  of_returns : ∀ {s s' : σ} {a : α}, Returns p s a s' → P a

theorem yields_pure {P : α → Prop} {a : α} (h : P a) : Yields P (pure a : Prog ε σ α) where
  of_returns hret := by
    rw [(returns_pure.mp hret).1]
    exact h

theorem yields_bind {P : α → Prop} {Q : β → Prop} {p : Prog ε σ α} {f : α → Prog ε σ β}
    (hp : Yields P p) (hf : ∀ a, P a → Yields Q (f a)) : Yields Q (p >>= f) where
  of_returns hret := by
    obtain ⟨a, s₁, hfirst, hrest⟩ := returns_bind.mp hret
    exact (hf a (hp.of_returns hfirst)).of_returns hrest

/-- What comes before does not matter, if the rest yields the property anyway. -/
theorem yields_after {Q : β → Prop} {p : Prog ε σ α} {f : α → Prog ε σ β}
    (hf : ∀ a, Yields Q (f a)) : Yields Q (p >>= f) :=
  yields_bind (P := fun _ => True) ⟨fun _ => trivial⟩ fun a _ => hf a

theorem yields_ite {P : α → Prop} {c : Prop} [Decidable c] {p q : Prog ε σ α}
    (hp : c → Yields P p) (hq : ¬ c → Yields P q) : Yields P (if c then p else q) := by
  split
  · exact hp ‹_›
  · exact hq ‹_›

end Prog

end Fat32s.Lib
