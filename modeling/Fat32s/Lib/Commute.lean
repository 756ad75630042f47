/-
  Fat32s/Lib/Commute.lean
  =======================
  **Changes of the state that a program does not notice.**

  A program commutes with a map `g` of the states when started in `g s` it runs as it
  does in `s`, with the image of the state it ends in.  A map that only touches what a
  program never reads, and adds to what it only ever adds to, is of this kind.  Two
  images of one state are then told apart by no run: it returns the same value in
  both, and ends in images of one state again.
-/
import Fat32s.Lib.Couples

namespace Fat32s.Lib

variable {ε σ τ α β : Type}

def Outcome.map (g : σ → τ) : Outcome ε σ α → Outcome ε τ α
  | .ret a s => .ret a (g s)
  | .fault e s => .fault e (g s)
  | .more s => .more (g s)

namespace Prog

def Commutes (g : σ → σ) (p : Prog ε σ α) : Prop := ∀ n s, p.run n (g s) = (p.run n s).map g

variable {g : σ → σ}

/-- Two images of one state, side by side. -/
theorem Commutes.couples {g' : σ → σ} {trap : ε → Prop} {p : Prog ε σ α} (h : Commutes g p)
    (h' : Commutes g' p) (s : σ) :
    Couples trap p (g s) p (g' s) fun a x b y =>
      b = a ∧ ∃ s', Returns p s a s' ∧ x = g s' ∧ y = g' s' where
  agree n := by
    rw [h n s, h' n s]
    cases hp : p.run n s with
    | ret a s' => exact .ret ⟨rfl, s', ⟨n, hp⟩, rfl, rfl⟩
    | fault e s' => exact .fault
    | more s' => exact .more

/-! ### The constructs -/

theorem commutes_pure (a : α) : Commutes g (pure a : Prog ε σ α) := fun _ _ => rfl

theorem commutes_fault (e : ε) : Commutes g (fault e : Prog ε σ α) := fun _ _ => rfl

theorem commutes_check (c : Prop) [Decidable c] (e : ε) :
    Commutes g (check c e : Prog ε σ Unit) := by
  unfold check
  split
  · exact commutes_pure ()
  · exact commutes_fault e

theorem commutes_modify {f : σ → σ} (h : ∀ s, f (g s) = g (f s)) :
    Commutes g (modify f : Prog ε σ Unit) := by
  intro n s
  change Outcome.ret () (f (g s)) = Outcome.ret () (g (f s))
  rw [h]

theorem commutes_bind {p : Prog ε σ α} {f : α → Prog ε σ β} (hp : Commutes g p)
    (hf : ∀ a, Commutes g (f a)) : Commutes g (p >>= f) := by
  intro n s
  change (andThen p f).run n (g s) = ((andThen p f).run n s).map g
  simp only [andThen, hp n s]
  cases p.run n s with
  | ret a s' => exact hf a n s'
  | fault e s' => rfl
  | more s' => rfl

/-- Of the state that is read, the rest may only use what the map keeps. -/
theorem commutes_get_bind {f : σ → Prog ε σ β} (hread : ∀ s, f (g s) = f s)
    (hf : ∀ s, Commutes g (f s)) : Commutes g (get >>= f) := by
  intro n s
  change (f (g s)).run n (g s) = ((f s).run n s).map g
  rw [hread, hf]

theorem commutes_times {p : Prog ε σ Unit} (hp : Commutes g p) (k : Nat) :
    Commutes g (times k p) := by
  induction k with
  | zero => exact commutes_pure ()
  | succ k ih => exact commutes_bind hp fun _ => ih

theorem commutes_zoom {view : σ → τ} {put : τ → σ → σ} {p : Prog ε τ α} {g' : τ → τ}
    (hview : ∀ s, view (g s) = g' (view s)) (hput : ∀ t s, put (g' t) (g s) = g (put t s))
    (hp : Commutes g' p) : Commutes g (zoom view put p) := by
  intro n s
  simp only [zoom, hview, hp n (view s)]
  cases p.run n (view s) with
  | ret a t =>
    change Outcome.ret a (put (g' t) (g s)) = Outcome.ret a (g (put t s))
    rw [hput]
  | fault e t =>
    change Outcome.fault e (put (g' t) (g s)) = Outcome.fault e (g (put t s))
    rw [hput]
  | more t =>
    change Outcome.more (put (g' t) (g s)) = Outcome.more (g (put t s))
    rw [hput]

end Prog

end Fat32s.Lib
