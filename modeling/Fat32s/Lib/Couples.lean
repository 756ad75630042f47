/-
  Fat32s/Lib/Couples.lean
  =======================
  **Two runs side by side.**

  A program may be written once for several kinds of state, and run on two of them: on a
  state as it is meant, and on one as it lies in memory, where an operation can fail for
  lack of room; or on two states that differ in something the program should not depend
  on.  `Couples` says that with any amount of fuel the two runs end alike: both return,
  with results and states that are related, both run into the same fault, or neither is
  finished.  The first run may also fault on its own account, where `trap` allows it.

  There is one rule for each construct of `Prog`.  A coupling carries what one run returns
  over to the other; and back as well, unless the first has been trapped.
-/
import Fat32s.Lib.Prog

namespace Fat32s.Lib

open Prog

variable {ε σ τ α β : Type} {trap : ε → Prop} {Q : α → τ → β → σ → Prop}

/-- How two outcomes may stand beside each other. -/
inductive Agree (trap : ε → Prop) (Q : α → τ → β → σ → Prop) :
    Outcome ε τ α → Outcome ε σ β → Prop
  | ret {a : α} {x : τ} {b : β} {s : σ} (h : Q a x b s) : Agree trap Q (.ret a x) (.ret b s)
  | fault {e : ε} {x : τ} {s : σ} : Agree trap Q (.fault e x) (.fault e s)
  | more {x : τ} {s : σ} : Agree trap Q (.more x) (.more s)
  | trapped {e : ε} {x : τ} {o : Outcome ε σ β} (h : trap e) : Agree trap Q (.fault e x) o

/-- From `x` the program `p` runs as `q` does from `s`. -/
structure Couples (trap : ε → Prop) (p : Prog ε τ α) (x : τ) (q : Prog ε σ β) (s : σ)
    (Q : α → τ → β → σ → Prop) : Prop where
  agree : ∀ n, Agree trap Q (p.run n x) (q.run n s)

namespace Couples

variable {p : Prog ε τ α} {q : Prog ε σ β} {x : τ} {s : σ}

/-! ### What follows for the two programs -/

theorem visible (h : Couples trap p x q s Q) {a : α} {x' : τ} (hp : Returns p x a x') :
    ∃ b s', Returns q s b s' ∧ Q a x' b s' := by
  obtain ⟨n, hn⟩ := hp
  have hn' := h.agree n
  rw [hn] at hn'
  generalize ho : q.run n s = o at hn'
  cases hn' with
  | ret hQ => exact ⟨_, _, ⟨n, ho⟩, hQ⟩

theorem returns (h : Couples trap p x q s Q) (hfree : ∀ e, trap e → ¬ Faults p x e) {b : β}
    {s' : σ} (hq : Returns q s b s') : ∃ a x', Returns p x a x' ∧ Q a x' b s' := by
  obtain ⟨n, hn⟩ := hq
  have hn' := h.agree n
  rw [hn] at hn'
  generalize ho : p.run n x = o at hn'
  cases hn' with
  | ret hQ => exact ⟨_, _, ⟨n, ho⟩, hQ⟩
  | trapped ht => exact (hfree _ ht ⟨n, _, ho⟩).elim

theorem faults_iff (h : Couples trap p x q s Q) (hfree : ∀ e, trap e → ¬ Faults p x e) {e : ε} :
    Faults p x e ↔ Faults q s e := by
  constructor
  · rintro ⟨n, x', hn⟩
    have hn' := h.agree n
    rw [hn] at hn'
    generalize ho : q.run n s = o at hn'
    cases hn' with
    | fault => exact ⟨n, _, ho⟩
    | trapped ht => exact (hfree _ ht ⟨n, _, hn⟩).elim
  · rintro ⟨n, s', hn⟩
    have hn' := h.agree n
    rw [hn] at hn'
    generalize ho : p.run n x = o at hn'
    cases hn' with
    | fault => exact ⟨n, _, ho⟩
    | trapped ht => exact (hfree _ ht ⟨n, _, ho⟩).elim

/-! ### The constructs -/

theorem weaken {Q' : α → τ → β → σ → Prop} (h : Couples trap p x q s Q)
    (hQ : ∀ {a : α} {x' : τ} {b : β} {s' : σ}, Q a x' b s' → Returns q s b s' → Q' a x' b s') :
    Couples trap p x q s Q' where
  agree n := by
    have hn := h.agree n
    generalize hp : p.run n x = o at hn
    generalize hq : q.run n s = o' at hn
    cases hn with
    | ret h => exact .ret (hQ h ⟨n, hq⟩)
    | fault => exact .fault
    | more => exact .more
    | trapped ht => exact .trapped ht

theorem ret {a : α} {b : β} (h : Q a x b s) : Couples trap (pure a) x (pure b) s Q :=
  ⟨fun _ => .ret h⟩

theorem fault {e : ε} :
    Couples trap (Prog.fault e : Prog ε τ α) x (Prog.fault e : Prog ε σ β) s Q :=
  ⟨fun _ => .fault⟩

theorem trapped {e : ε} (h : trap e) : Couples trap (Prog.fault e : Prog ε τ α) x q s Q :=
  ⟨fun _ => .trapped h⟩

theorem modify {u : τ → τ} {v : σ → σ} {Q : Unit → τ → Unit → σ → Prop}
    (h : Q () (u x) () (v s)) :
    Couples trap (Prog.modify u : Prog ε τ Unit) x (Prog.modify v) s Q := ⟨fun _ => .ret h⟩

theorem bind {γ δ : Type} {f : α → Prog ε τ γ} {g : β → Prog ε σ δ} {Q' : γ → τ → δ → σ → Prop}
    (h : Couples trap p x q s Q)
    (hrest : ∀ {a : α} {x' : τ} {b : β} {s' : σ}, Q a x' b s' → Returns q s b s' →
      Couples trap (f a) x' (g b) s' Q') : Couples trap (p >>= f) x (q >>= g) s Q' where
  agree n := by
    have hn := h.agree n
    change Agree trap Q' ((andThen p f).run n x) ((andThen q g).run n s)
    simp only [andThen]
    generalize hp : p.run n x = o at hn
    generalize hq : q.run n s = o' at hn
    cases hn with
    | ret h => exact (hrest h ⟨n, hq⟩).agree n
    | fault => exact .fault
    | more => exact .more
    | trapped ht => exact .trapped ht

/-- A look at the state that only the first program takes. -/
theorem get_left {f : τ → Prog ε τ α} (h : Couples trap (f x) x q s Q) :
    Couples trap (get >>= f) x q s Q := ⟨fun n => h.agree n⟩

theorem get_bind {f : τ → Prog ε τ α} {g : σ → Prog ε σ β} (h : Couples trap (f x) x (g s) s Q) :
    Couples trap (get >>= f) x (get >>= g) s Q := ⟨fun n => h.agree n⟩

/-- A test that only the first program makes. -/
theorem check_left {c : Prop} [Decidable c] {e : ε} {f : Unit → Prog ε τ α} (hc : ¬ c → trap e)
    (h : c → Couples trap (f ()) x q s Q) : Couples trap (check c e >>= f) x q s Q := by
  unfold check
  by_cases hholds : c
  · rw [if_pos hholds]
    exact ⟨fun n => (h hholds).agree n⟩
  · rw [if_neg hholds]
    exact ⟨fun _ => .trapped (hc hholds)⟩

/-- A change of the state that only the first program makes. -/
theorem modify_left {u : τ → τ} {f : Unit → Prog ε τ α} (h : Couples trap (f ()) (u x) q s Q) :
    Couples trap (Prog.modify u >>= f) x q s Q := ⟨fun n => h.agree n⟩

theorem check_bind {c : Prop} [Decidable c] {e : ε} {f : Unit → Prog ε τ α}
    {g : Unit → Prog ε σ β} (h : c → Couples trap (f ()) x (g ()) s Q) :
    Couples trap (check c e >>= f) x (check c e >>= g) s Q := by
  unfold check
  by_cases hc : c
  · rw [if_pos hc, if_pos hc]
    exact ⟨fun n => (h hc).agree n⟩
  · rw [if_neg hc, if_neg hc]
    exact ⟨fun _ => .fault⟩

theorem ite {c : Prop} [Decidable c] {p' : Prog ε τ α} {q' : Prog ε σ β}
    (hpos : c → Couples trap p x q s Q) (hneg : ¬ c → Couples trap p' x q' s Q) :
    Couples trap (if c then p else p') x (if c then q else q') s Q := by
  by_cases hc : c
  · rw [if_pos hc, if_pos hc]
    exact hpos hc
  · rw [if_neg hc, if_neg hc]
    exact hneg hc

/-- A loop: from loop variables and states that meet the invariant, a round ends in such
    again, or with results that meet `Q`. -/
theorem iter {γ δ : Type} {f : γ → Prog ε τ (γ ⊕ α)} {g : δ → Prog ε σ (δ ⊕ β)} {c : γ} {d : δ}
    (J : γ → τ → δ → σ → Prop)
    (hround : ∀ {c : γ} {x : τ} {d : δ} {s : σ}, J c x d s →
      Couples trap (f c) x (g d) s fun u x' v s' =>
        (∃ c' d', u = .inl c' ∧ v = .inl d' ∧ J c' x' d' s') ∨
          ∃ a b, u = .inr a ∧ v = .inr b ∧ Q a x' b s')
    (h : J c x d s) : Couples trap (Prog.iter f c) x (Prog.iter g d) s Q where
  agree n := by
    change Agree trap Q (iterRun f n n c x) (iterRun g n n d s)
    -- induction on the rounds that are left, with the fuel of the rounds fixed
    suffices hrounds : ∀ k (c : γ) (x : τ) (d : δ) (s : σ), J c x d s →
        Agree trap Q (iterRun f n k c x) (iterRun g n k d s) from hrounds n c x d s h
    intro k
    induction k with
    | zero => exact fun _ _ _ _ _ => .more
    | succ k ih =>
      intro c x d s hJ
      have hn := (hround hJ).agree n
      simp only [iterRun]
      generalize (f c).run n x = o at hn
      generalize (g d).run n s = o' at hn
      cases hn with
      | ret h =>
        rcases h with ⟨c', d', rfl, rfl, hJ'⟩ | ⟨a, b, rfl, rfl, hQ⟩
        · exact ih c' _ d' _ hJ'
        · exact .ret hQ
      | fault => exact .fault
      | more => exact .more
      | trapped ht => exact .trapped ht

/-- A program that runs on a part of the first state. -/
theorem zoom {ρ : Type} {view : τ → ρ} {put : ρ → τ → τ} {p : Prog ε ρ α}
    {Q₀ : α → ρ → β → σ → Prop} (h : Couples trap p (view x) q s Q₀)
    (hQ : ∀ {a : α} {t : ρ} {b : β} {s' : σ}, Q₀ a t b s' → Returns q s b s' →
      Q a (put t x) b s') : Couples trap (Prog.zoom view put p) x q s Q where
  agree n := by
    have hn := h.agree n
    simp only [Prog.zoom]
    generalize p.run n (view x) = o at hn
    generalize hq : q.run n s = o' at hn
    cases hn with
    | ret h => exact .ret (hQ h ⟨n, hq⟩)
    | fault => exact .fault
    | more => exact .more
    | trapped ht => exact .trapped ht

/-- A program beside itself. -/
theorem refl (q : Prog ε σ β) (s : σ) :
    Couples trap q s q s fun a x b s' => b = a ∧ s' = x where
  agree n := by
    cases q.run n s with
    | ret b s' => exact .ret ⟨rfl, rfl⟩
    | fault e s' => exact .fault
    | more s' => exact .more

end Couples

end Fat32s.Lib
