/-
  Fat32s/Lib/Service.lean
  =======================
  **Services, their specifications and their clients.**

  A service answers one request after the other; a history lists the requests with
  their answers.  A service refines a specification when every legal request can be
  served and is answered as the specification says.  That is a property of one
  step; it carries over to histories of any length.

  The clients of a service run beside each other.  A client that has sent a request
  is blocked until the reply comes, and the service takes up the requests that wait
  for it in any order.  A client may be gone before it gets its reply.  If each request
  is replied to once, and to its sender, then whatever the order of steps, the clients
  see one sequential history, each client its own part of it, and none of them is left
  waiting.
-/
import Mathlib.Data.List.Forall2
import Mathlib.Logic.Function.Basic
import Mathlib.Logic.Relation

namespace Fat32s.Lib

open Function (update)
open Relation (ReflTransGen)

variable {σ τ ρ α κ : Type}

/-! ### Histories -/

/-- The requests of the history are served one after the other, with these answers. -/
inductive Serves (step : σ → ρ → α → σ → Prop) (s : σ) : List (ρ × α) → σ → Prop
  | none : Serves step s [] s
  | more {h : List (ρ × α)} {s₁ s' : σ} {q : ρ} {a : α} (hrun : Serves step s h s₁)
      (hstep : step s₁ q a s') : Serves step s (h ++ [(q, a)]) s'

/-- A specification that computes the answer and the next state, as a service. -/
def Computes (spec : τ → ρ → α × τ) (t : τ) (q : ρ) (a : α) (t' : τ) : Prop := spec t q = (a, t')

theorem Serves.append {step : σ → ρ → α → σ → Prop} {s s₁ s' : σ} {h h' : List (ρ × α)}
    (hfirst : Serves step s h s₁) (hrest : Serves step s₁ h' s') : Serves step s (h ++ h') s' := by
  induction hrest with
  | none =>
    rw [List.append_nil]
    exact hfirst
  | more _ hstep ih =>
    rw [← List.append_assoc]
    exact .more ih hstep

theorem Serves.one {step : σ → ρ → α → σ → Prop} {s s' : σ} {q : ρ} {a : α}
    (h : step s q a s') : Serves step s [(q, a)] s' := Serves.more (h := []) .none h

/-- Requests that do not change the state all have the answer that the state gives them. -/
theorem Serves.of_fixed {spec : τ → ρ → α × τ} {t t' : τ} {h : List (ρ × α)}
    (hrun : Serves (Computes spec) t h t') (hfixed : ∀ x ∈ h, (spec t x.1).2 = t) :
    t' = t ∧ h = (h.map (·.1)).map fun q => (q, (spec t q).1) := by
  induction hrun with
  | none => exact ⟨rfl, rfl⟩
  | @more h t₁ t₂ q a _ hstep ih =>
    obtain ⟨rfl, hanswers⟩ := ih fun x hx => hfixed x (List.mem_append_left _ hx)
    have hq := hfixed (q, a) (List.mem_append_right _ (List.mem_singleton_self _))
    unfold Computes at hstep
    rw [hstep] at hq
    refine ⟨hq, ?_⟩
    rw [List.map_append, List.map_append, ← hanswers]
    simp [hstep]

theorem Serves.nil_iff {step : σ → ρ → α → σ → Prop} {s s' : σ} : Serves step s [] s' ↔ s' = s := by
  constructor
  · generalize hnil : ([] : List (ρ × α)) = h
    rintro (_ | _)
    · rfl
    · exact absurd hnil (by simp)
  · rintro rfl
    exact .none

theorem Serves.concat_iff {step : σ → ρ → α → σ → Prop} {s s' : σ} {h : List (ρ × α)}
    {x : ρ × α} :
    Serves step s (h ++ [x]) s' ↔ ∃ s₁, Serves step s h s₁ ∧ step s₁ x.1 x.2 s' := by
  constructor
  · generalize hconcat : h ++ [x] = h'
    rintro (_ | @⟨h₁, s₁, _, q, a, hrun, hstep⟩)
    · exact absurd hconcat (by simp)
    · obtain ⟨rfl, hlast⟩ := List.append_inj' hconcat rfl
      obtain rfl := List.singleton_inj.mp hlast
      exact ⟨s₁, hrun, hstep⟩
  · rintro ⟨s₁, hrun, hstep⟩
    exact .more hrun hstep

/-! ### Two services side by side -/

theorem forall₂_concat_left {β : Type} {Q : α → β → Prop} {l : List α} {a : α} {l' : List β}
    (h : List.Forall₂ Q (l ++ [a]) l') :
    ∃ l₁ b, l' = l₁ ++ [b] ∧ List.Forall₂ Q l l₁ ∧ Q a b := by
  rcases List.eq_nil_or_concat l' with rfl | ⟨l₁, b, rfl⟩
  · exact absurd h.length_eq (by simp)
  · rw [List.concat_eq_append, ← List.forall₂_reverse_iff] at h
    simp only [List.reverse_append, List.reverse_singleton, List.singleton_append,
      List.forall₂_cons, List.forall₂_reverse_iff] at h
    exact ⟨l₁, b, List.concat_eq_append, h.2, h.1⟩

/-- Two specifications that keep a relation answer related requests with related answers,
    history by history. -/
theorem Serves.related {τ' ρ' α' : Type} {spec : τ → ρ → α × τ} {spec' : τ' → ρ' → α' × τ'}
    {R : τ → τ' → Prop} {Q : ρ → ρ' → Prop} {A : ρ → α → α' → Prop}
    (hkeep : ∀ {t : τ} {t' : τ'} {q : ρ} {q' : ρ'}, R t t' → Q q q' →
      A q (spec t q).1 (spec' t' q').1 ∧ R (spec t q).2 (spec' t' q').2)
    {t t₁ : τ} {t' t₁' : τ'} {h : List (ρ × α)} {h' : List (ρ' × α')} (hR : R t t')
    (hrun : Serves (Computes spec) t h t₁) (hrun' : Serves (Computes spec') t' h' t₁')
    (hQ : List.Forall₂ (fun x y => Q x.1 y.1) h h') :
    List.Forall₂ (fun x y => A x.1 x.2 y.2) h h' ∧ R t₁ t₁' := by
  induction hrun generalizing h' t₁' with
  | none =>
    cases hQ
    rw [Serves.nil_iff.mp hrun']
    exact ⟨.nil, hR⟩
  | @more h t₁ t₂ q a _ hstep ih =>
    obtain ⟨h₁, y, rfl, hQ₁, hq⟩ := forall₂_concat_left hQ
    obtain ⟨t₁', hrun₁', hstep'⟩ := Serves.concat_iff.mp hrun'
    obtain ⟨hanswers, hR₁⟩ := ih hrun₁' hQ₁
    obtain ⟨hanswer, hR₂⟩ := hkeep hR₁ hq
    unfold Computes at hstep hstep'
    rw [hstep, hstep'] at hanswer hR₂
    exact ⟨List.rel_append hanswers (.cons hanswer .nil), hR₂⟩

/-! ### Refinement -/

/-- The service answers every legal request, and as the specification does. -/
structure Refines (step : σ → ρ → α → σ → Prop) (spec : τ → ρ → α × τ) (legal : ρ → Prop)
    (R : τ → σ → Prop) : Prop where
  sound : ∀ {t : τ} {s s' : σ} {q : ρ} {a : α}, R t s → legal q → step s q a s' →
    spec t q = (a, (spec t q).2) ∧ R (spec t q).2 s'
  live : ∀ {t : τ} {s : σ} {q : ρ}, R t s → legal q → ∃ a s', step s q a s'

namespace Refines

variable {step : σ → ρ → α → σ → Prop} {spec : τ → ρ → α × τ} {legal : ρ → Prop}
  {R : τ → σ → Prop} {t : τ} {s s' : σ}

/-- If the service can only answer in one way, it is enough that it can answer as the
    specification does. -/
theorem of_det
    (hdet : ∀ {s s₁ s₂ : σ} {q : ρ} {a b : α}, step s q a s₁ → step s q b s₂ → a = b ∧ s₁ = s₂)
    (hsim : ∀ {t : τ} {s : σ} {q : ρ}, R t s → legal q →
      ∃ s', step s q (spec t q).1 s' ∧ R (spec t q).2 s') : Refines step spec legal R where
  sound hR hq hstep := by
    obtain ⟨s₁, hspec, hR'⟩ := hsim hR hq
    obtain ⟨rfl, rfl⟩ := hdet hstep hspec
    exact ⟨rfl, hR'⟩
  live hR hq := by
    obtain ⟨s', hstep, _⟩ := hsim hR hq
    exact ⟨_, s', hstep⟩

/-- A service that may proceed in several ways refines what each of them refines. -/
theorem any {ι : Type} [Inhabited ι] {steps : ι → σ → ρ → α → σ → Prop}
    (h : ∀ i, Refines (steps i) spec legal R) :
    Refines (fun s q a s' => ∃ i, steps i s q a s') spec legal R where
  sound hR hq hstep := by
    obtain ⟨i, hstep⟩ := hstep
    exact (h i).sound hR hq hstep
  live hR hq := by
    obtain ⟨a, s', hstep⟩ := (h default).live hR hq
    exact ⟨a, s', default, hstep⟩

/-- What happens to the service is a history of the specification. -/
theorem history (h : Refines step spec legal R) {hist : List (ρ × α)} (hR : R t s)
    (hlegal : ∀ x ∈ hist, legal x.1) (hrun : Serves step s hist s') :
    ∃ t', Serves (Computes spec) t hist t' ∧ R t' s' := by
  induction hrun with
  | none => exact ⟨t, .none, hR⟩
  | @more hist s₁ s₂ q a _ hstep ih =>
    obtain ⟨t₁, hspec, hR₁⟩ := ih fun x hx => hlegal x (List.mem_append_left _ hx)
    have hq : legal q := hlegal (q, a) (List.mem_append_right _ (List.mem_singleton_self _))
    obtain ⟨heq, hR₂⟩ := h.sound hR₁ hq hstep
    exact ⟨_, .more hspec heq, hR₂⟩

/-- And every list of legal requests has such a history. -/
theorem serves (h : Refines step spec legal R) (qs : List ρ) (hR : R t s)
    (hlegal : ∀ q ∈ qs, legal q) :
    ∃ hist s' t', hist.map (·.1) = qs ∧ Serves step s hist s' ∧
      Serves (Computes spec) t hist t' ∧ R t' s' := by
  induction qs generalizing s t with
  | nil => exact ⟨[], s, t, rfl, .none, .none, hR⟩
  | cons q qs ih =>
    have hq := hlegal q List.mem_cons_self
    obtain ⟨a, s₁, hstep⟩ := h.live hR hq
    obtain ⟨heq, hR₁⟩ := h.sound hR hq hstep
    obtain ⟨hist, s', t', hqs, hrun, hspec, hR'⟩ :=
      ih hR₁ fun q hq => hlegal q (List.mem_cons_of_mem _ hq)
    have hfirst : Serves (Computes spec) t [(q, a)] (spec t q).2 := .one heq
    refine ⟨(q, a) :: hist, s', t', ?_, ?_, hfirst.append hspec, hR'⟩
    · rw [List.map_cons, hqs]
    · exact (Serves.one hstep).append hrun

end Refines

/-! ### Clients -/

/-- What a client is doing: it runs, or its request has been sent, or taken up, or the
    client is no longer there. -/
inductive Phase (ρ : Type) where
  | ready
  | sending (q : ρ)
  | waiting (q : ρ)
  | gone

/-- The request that a blocked client has sent. -/
def Phase.pending : Phase ρ → List ρ
  | .sending q => [q]
  | .waiting q => [q]
  | _ => []

/-- A service with its clients.  `working` is the request the service has taken up.
    What has happened is recorded: the requests served with their answers, and for
    each client what it asked and what it was told. -/
structure Net (κ σ ρ α : Type) where
  server : σ
  working : Option ρ
  phase : κ → Phase ρ
  served : List (ρ × α)
  asked : κ → List ρ
  told : κ → List (ρ × α)

def Net.start (s : σ) : Net κ σ ρ α := ⟨s, none, fun _ => .ready, [], fun _ => [], fun _ => []⟩

variable [DecidableEq κ]

/-- The steps of the clients and of the service.  The outcome of a request is a reply
    to some client, or none.  The service finds out whether the reply could be delivered:
    that is so if the client waits for it, and not if the client is gone. -/
inductive Net.Step (step : σ → ρ → Bool → Option (κ × α) → σ → Prop) (sender : ρ → κ)
    (legal : ρ → Prop) (n : Net κ σ ρ α) : Net κ σ ρ α → Prop
  | send {q : ρ} (hready : n.phase (sender q) = .ready) (hlegal : legal q) :
      Step step sender legal n
        { n with
          phase := update n.phase (sender q) (.sending q)
          asked := update n.asked (sender q) (n.asked (sender q) ++ [q]) }
  | leave {c : κ} : Step step sender legal n { n with phase := update n.phase c .gone }
  | receive {c : κ} {q : ρ} (hidle : n.working = none) (hsent : n.phase c = .sending q) :
      Step step sender legal n
        { n with working := some q, phase := update n.phase c (.waiting q) }
  | reply {q q' : ρ} {c : κ} {a : α} {s' : σ} (hwork : n.working = some q)
      (hstep : step n.server q true (some (c, a)) s') (hwait : n.phase c = .waiting q') :
      Step step sender legal n
        { n with
          server := s'
          working := none
          phase := update n.phase c .ready
          served := n.served ++ [(q, a)]
          told := update n.told c (n.told c ++ [(q', a)]) }
  | undelivered {q : ρ} {c : κ} {a : α} {s' : σ} (hwork : n.working = some q)
      (hstep : step n.server q false (some (c, a)) s') (hgone : n.phase c = .gone) :
      Step step sender legal n
        { n with server := s', working := none, served := n.served ++ [(q, a)] }
  | silent {q : ρ} {b : Bool} {s' : σ} (hwork : n.working = some q)
      (hstep : step n.server q b none s') :
      Step step sender legal n { n with server := s', working := none }

/-- The service replies to each request, and to the one who sent it. -/
structure Replies (step : σ → ρ → Bool → Option (κ × α) → σ → Prop) (sender : ρ → κ) : Prop where
  to_sender : ∀ {s s' : σ} {q : ρ} {b : Bool} {o : Option (κ × α)}, step s q b o s' →
    ∃ a, o = some (sender q, a)

/-- The service, seen as one that only gives answers; `b` says whether they are delivered. -/
def answering (step : σ → ρ → Bool → Option (κ × α) → σ → Prop) (sender : ρ → κ) (b : Bool)
    (s : σ) (q : ρ) (a : α) (s' : σ) : Prop := step s q b (some (sender q, a)) s'

/-- No request is lost, answered twice or answered to another client: a client was told
    the answers to what it asked, in that order and up to the request it is blocked on,
    and they are the answers that were given.  A client that is gone has been told the
    first of them. -/
structure Net.Sound (sender : ρ → κ) (legal : ρ → Prop) (n : Net κ σ ρ α) : Prop where
  own : ∀ {c : κ} {q : ρ}, q ∈ (n.phase c).pending → sender q = c ∧ legal q
  waits : ∀ {q : ρ}, n.working = some q → legal q ∧
    (n.phase (sender q) = .waiting q ∨ n.phase (sender q) = .gone)
  worked : ∀ {c : κ} {q : ρ}, n.phase c = .waiting q → n.working = some q
  asked : ∀ {c : κ}, n.phase c ≠ .gone → n.asked c = (n.told c).map (·.1) ++ (n.phase c).pending
  told : ∀ {c : κ}, n.phase c ≠ .gone → n.told c = n.served.filter fun x => sender x.1 = c
  heard : ∀ c, n.told c <+: n.served.filter fun x => sender x.1 = c
  legal : ∀ x ∈ n.served, legal x.1

namespace Net

variable {step : σ → ρ → Bool → Option (κ × α) → σ → Prop} {sender : ρ → κ} {legal : ρ → Prop}
  {n n' : Net κ σ ρ α}

theorem sound_start (s : σ) : (Net.start s : Net κ σ ρ α).Sound sender legal where
  own h := by cases h
  waits h := by cases h
  worked h := by cases h
  asked _ := rfl
  told _ := rfl
  heard _ := List.nil_prefix
  legal x hx := by cases hx

theorem Sound.send {q : ρ} (h : n.Sound sender legal) (hready : n.phase (sender q) = .ready)
    (hlegal : legal q) :
    Sound sender legal
      { n with
        phase := update n.phase (sender q) (.sending q)
        asked := update n.asked (sender q) (n.asked (sender q) ++ [q]) } where
  own {c q'} hq := by
    by_cases hc : c = sender q
    · subst hc
      simp only [Function.update_self, Phase.pending, List.mem_singleton] at hq
      rw [hq]
      exact ⟨rfl, hlegal⟩
    · simp only [Function.update_of_ne hc] at hq
      exact h.own hq
  waits {q'} hw := by
    obtain ⟨hq', hwait⟩ := h.waits hw
    have hne : sender q' ≠ sender q := by
      intro heq
      rw [heq, hready] at hwait
      simp at hwait
    simp only [Function.update_of_ne hne]
    exact ⟨hq', hwait⟩
  worked {c q'} hw := by
    by_cases hc : c = sender q
    · subst hc
      simp only [Function.update_self, reduceCtorEq] at hw
    · simp only [Function.update_of_ne hc] at hw
      exact h.worked hw
  asked {c} hc' := by
    by_cases hc : c = sender q
    · subst hc
      simp only [Function.update_self]
      rw [h.asked (by simp [hready]), hready]
      simp [Phase.pending]
    · simp only [Function.update_of_ne hc] at hc' ⊢
      exact h.asked hc'
  told {c} hc' := by
    by_cases hc : c = sender q
    · subst hc
      exact h.told (by simp [hready])
    · simp only [Function.update_of_ne hc] at hc'
      exact h.told hc'
  heard := h.heard
  legal := h.legal

theorem Sound.leave (h : n.Sound sender legal) (c : κ) :
    Sound sender legal { n with phase := update n.phase c .gone } where
  own {c' q} hq := by
    by_cases hc : c' = c
    · subst hc
      simp only [Function.update_self] at hq
      cases hq
    · simp only [Function.update_of_ne hc] at hq
      exact h.own hq
  waits {q} hw := by
    obtain ⟨hq, hwait⟩ := h.waits hw
    refine ⟨hq, ?_⟩
    by_cases hc : sender q = c
    · simp only [hc, Function.update_self]
      exact .inr trivial
    · simp only [Function.update_of_ne hc]
      exact hwait
  worked {c' q} hw := by
    by_cases hc : c' = c
    · subst hc
      simp only [Function.update_self, reduceCtorEq] at hw
    · simp only [Function.update_of_ne hc] at hw
      exact h.worked hw
  asked {c'} hc' := by
    have hc : c' ≠ c := by
      rintro rfl
      simp at hc'
    simp only [Function.update_of_ne hc] at hc' ⊢
    exact h.asked hc'
  told {c'} hc' := by
    have hc : c' ≠ c := by
      rintro rfl
      simp at hc'
    simp only [Function.update_of_ne hc] at hc'
    exact h.told hc'
  heard := h.heard
  legal := h.legal

theorem Sound.receive {c : κ} {q : ρ} (h : n.Sound sender legal) (hidle : n.working = none)
    (hsent : n.phase c = .sending q) :
    Sound sender legal { n with working := some q, phase := update n.phase c (.waiting q) } where
  own {c' q'} hq := by
    by_cases hc : c' = c
    · subst hc
      simp only [Function.update_self, Phase.pending] at hq
      exact h.own (by rw [hsent]; exact hq)
    · simp only [Function.update_of_ne hc] at hq
      exact h.own hq
  waits {q'} hw := by
    obtain rfl := Option.some.inj hw
    obtain ⟨hc, hlegal⟩ := h.own (c := c) (by rw [hsent]; exact List.mem_singleton_self q)
    refine ⟨hlegal, .inl ?_⟩
    simp only [hc, Function.update_self]
  worked {c' q'} hw := by
    by_cases hc : c' = c
    · subst hc
      simp only [Function.update_self, Phase.waiting.injEq] at hw
      rw [hw]
    · simp only [Function.update_of_ne hc] at hw
      rw [h.worked hw] at hidle
      cases hidle
  asked {c'} hc' := by
    by_cases hc : c' = c
    · subst hc
      simp only [Function.update_self]
      rw [h.asked (by simp [hsent]), hsent]
      rfl
    · simp only [Function.update_of_ne hc] at hc' ⊢
      exact h.asked hc'
  told {c'} hc' := by
    by_cases hc : c' = c
    · subst hc
      exact h.told (by simp [hsent])
    · simp only [Function.update_of_ne hc] at hc'
      exact h.told hc'
  heard := h.heard
  legal := h.legal

theorem Sound.legal_append {q : ρ} {a : α} (h : n.Sound sender legal) (hwork : n.working = some q) :
    ∀ x ∈ n.served ++ [(q, a)], legal x.1 := by
  intro x hx
  rcases List.mem_append.mp hx with hx | hx
  · exact h.legal x hx
  · rw [List.mem_singleton.mp hx]
    exact (h.waits hwork).1

theorem Sound.reply {q : ρ} {a : α} {s' : σ} (h : n.Sound sender legal)
    (hwork : n.working = some q) (hwait : n.phase (sender q) = .waiting q) :
    Sound sender legal
      { n with
        server := s'
        working := none
        phase := update n.phase (sender q) .ready
        served := n.served ++ [(q, a)]
        told := update n.told (sender q) (n.told (sender q) ++ [(q, a)]) } where
  own {c q'} hq := by
    by_cases hc : c = sender q
    · subst hc
      simp only [Function.update_self] at hq
      cases hq
    · simp only [Function.update_of_ne hc] at hq
      exact h.own hq
  waits hw := by cases hw
  worked {c q'} hw := by
    by_cases hc : c = sender q
    · subst hc
      simp only [Function.update_self, reduceCtorEq] at hw
    · simp only [Function.update_of_ne hc] at hw
      have hsame := h.worked hw
      rw [hwork] at hsame
      obtain rfl := Option.some.inj hsame
      exact (hc (h.own (by rw [hw]; exact List.mem_singleton_self q)).1.symm).elim
  asked {c} hc' := by
    by_cases hc : c = sender q
    · subst hc
      simp only [Function.update_self]
      rw [h.asked (by simp [hwait]), hwait]
      simp [Phase.pending]
    · simp only [Function.update_of_ne hc] at hc' ⊢
      exact h.asked hc'
  told {c} hc' := by
    by_cases hc : c = sender q
    · subst hc
      simp only [Function.update_self, List.filter_append]
      rw [h.told (by simp [hwait])]
      simp
    · simp only [Function.update_of_ne hc, List.filter_append] at hc' ⊢
      rw [h.told hc']
      simp [Ne.symm hc]
  heard c := by
    by_cases hc : c = sender q
    · subst hc
      simp only [Function.update_self, List.filter_append]
      rw [h.told (by simp [hwait])]
      simp
    · simp only [Function.update_of_ne hc, List.filter_append]
      exact (h.heard c).trans (List.prefix_append _ _)
  legal := h.legal_append hwork

theorem Sound.undelivered {q : ρ} {a : α} {s' : σ} (h : n.Sound sender legal)
    (hwork : n.working = some q) (hgone : n.phase (sender q) = .gone) :
    Sound sender legal
      { n with server := s', working := none, served := n.served ++ [(q, a)] } where
  own := h.own
  waits hw := by cases hw
  worked {c q'} hw := by
    have hsame := h.worked hw
    rw [hwork] at hsame
    obtain rfl := Option.some.inj hsame
    have hc : sender q = c := (h.own (by rw [hw]; exact List.mem_singleton_self q)).1
    rw [hc, hw] at hgone
    cases hgone
  asked := h.asked
  told {c} hc' := by
    have hc : sender q ≠ c := by
      rintro rfl
      exact hc' hgone
    rw [List.filter_append, h.told hc']
    simp [hc]
  heard c := by
    rw [List.filter_append]
    exact (h.heard c).trans (List.prefix_append _ _)
  legal := h.legal_append hwork

theorem Sound.after (hrep : Replies step sender) (h : n.Sound sender legal)
    (hstep : Step step sender legal n n') : n'.Sound sender legal := by
  cases hstep with
  | send hready hlegal => exact h.send hready hlegal
  | leave => exact h.leave _
  | receive hidle hsent => exact h.receive hidle hsent
  | reply hwork hserve hwait =>
    obtain ⟨a, ha⟩ := hrep.to_sender hserve
    cases ha
    have hsame := h.worked hwait
    rw [hwork] at hsame
    cases hsame
    exact h.reply hwork hwait
  | undelivered hwork hserve hgone =>
    obtain ⟨a, ha⟩ := hrep.to_sender hserve
    cases ha
    exact h.undelivered hwork hgone
  | silent hwork hserve =>
    obtain ⟨a, ha⟩ := hrep.to_sender hserve
    cases ha

/-- Whatever the order of the steps, the clients see one sequential history. -/
theorem serves_of_steps (hrep : Replies step sender) {s : σ}
    (hsteps : ReflTransGen (Step step sender legal) (Net.start s) n) :
    n.Sound sender legal ∧
      Serves (fun s q a s' => ∃ b, answering step sender b s q a s') s n.served n.server := by
  induction hsteps with
  | refl => exact ⟨sound_start s, .none⟩
  | tail _ hstep ih =>
    obtain ⟨hsound, hserves⟩ := ih
    refine ⟨hsound.after hrep hstep, ?_⟩
    cases hstep with
    | send => exact hserves
    | leave => exact hserves
    | receive => exact hserves
    | reply hwork hserve hwait =>
      obtain ⟨a, ha⟩ := hrep.to_sender hserve
      cases ha
      exact hserves.more ⟨true, hserve⟩
    | undelivered hwork hserve hgone =>
      obtain ⟨a, ha⟩ := hrep.to_sender hserve
      cases ha
      exact hserves.more ⟨false, hserve⟩
    | silent hwork hserve =>
      obtain ⟨a, ha⟩ := hrep.to_sender hserve
      cases ha

/-- A request that the service works on is finished, and its client gets the reply if it
    is still there. -/
theorem Sound.finish (h : n.Sound sender legal) {q : ρ} (hwork : n.working = some q)
    (hserve : ∀ b, ∃ a s', answering step sender b n.server q a s') :
    ∃ n' a s' b, Step step sender legal n n' ∧ n'.working = none ∧ n'.server = s' ∧
      answering step sender b n.server q a s' ∧
      (n.phase (sender q) = .waiting q → n'.phase (sender q) = .ready) ∧
      ∀ c ≠ sender q, n'.phase c = n.phase c := by
  rcases (h.waits hwork).2 with hwait | hgone
  · obtain ⟨a, s', hstep⟩ := hserve true
    refine ⟨_, a, s', true, .reply hwork hstep hwait, rfl, rfl, hstep, ?_, ?_⟩
    · intro _
      exact Function.update_self ..
    · intro c hc
      exact Function.update_of_ne hc ..
  · obtain ⟨a, s', hstep⟩ := hserve false
    refine ⟨_, a, s', false, .undelivered hwork hstep hgone, rfl, rfl, hstep, ?_, ?_⟩
    · intro hwait
      rw [hgone] at hwait
      cases hwait
    · intro c _
      rfl

end Net

/-- **The clients of a service that refines a specification** see a history of the
    specification, in which no request is lost, doubled or answered to another client,
    and none of them is ever left waiting. -/
theorem Refines.clients {step : σ → ρ → Bool → Option (κ × α) → σ → Prop} {sender : ρ → κ}
    {spec : τ → ρ → α × τ} {legal : ρ → Prop} {R : τ → σ → Prop} {t : τ} {s : σ}
    {n : Net κ σ ρ α} (h : ∀ b, Refines (answering step sender b) spec legal R)
    (hrep : Replies step sender) (hR : R t s)
    (hsteps : ReflTransGen (Net.Step step sender legal) (Net.start s) n) :
    n.Sound sender legal ∧
      (∃ t', Serves (Computes spec) t n.served t' ∧ R t' n.server) ∧
      ∀ c, n.phase c ≠ .gone →
        ∃ n', ReflTransGen (Net.Step step sender legal) n n' ∧ n'.phase c = .ready := by
  obtain ⟨hsound, hserves⟩ := Net.serves_of_steps hrep hsteps
  obtain ⟨t', hspec, hR'⟩ := (Refines.any h).history hR hsound.legal hserves
  refine ⟨hsound, ⟨t', hspec, hR'⟩, ?_⟩
  intro c halive
  -- the request that is worked on is finished first; then any other can be taken up
  have hidle : ∃ n₁ t₁, ReflTransGen (Net.Step step sender legal) n n₁ ∧ n₁.working = none ∧
      n₁.phase c ≠ .gone ∧ n₁.Sound sender legal ∧ R t₁ n₁.server := by
    cases hwork : n.working with
    | none => exact ⟨n, t', .refl, hwork, halive, hsound, hR'⟩
    | some q =>
      obtain ⟨hq, hphase⟩ := hsound.waits hwork
      obtain ⟨n₁, a, s', b, hstep, hnone, hserver, hserve, hready, hrest⟩ :=
        hsound.finish hwork fun b => (h b).live hR' hq
      obtain ⟨_, hR₁⟩ := (h b).sound hR' hq hserve
      rw [← hserver] at hR₁
      refine ⟨n₁, _, .single hstep, hnone, ?_, hsound.after hrep hstep, hR₁⟩
      by_cases hc : c = sender q
      · subst hc
        rw [hready (hphase.resolve_right halive)]
        simp
      · rw [hrest c hc]
        exact halive
  obtain ⟨n₁, t₁, hto, hnone, halive₁, hsound₁, hR₁⟩ := hidle
  cases hphase : n₁.phase c with
  | ready => exact ⟨n₁, hto, hphase⟩
  | gone => exact (halive₁ hphase).elim
  | waiting q =>
    rw [hsound₁.worked hphase] at hnone
    cases hnone
  | sending q =>
    obtain ⟨hc, hq⟩ := hsound₁.own (c := c) (by
      rw [hphase]
      exact List.mem_singleton_self q)
    have htake : Net.Step step sender legal n₁ _ := .receive hnone hphase
    have htaken := hsound₁.receive hnone hphase
    obtain ⟨n₂, _, _, _, hstep, _, _, _, hready, _⟩ :=
      htaken.finish rfl fun b => (h b).live hR₁ hq
    refine ⟨n₂, (hto.tail htake).tail hstep, ?_⟩
    rw [← hc]
    apply hready
    rw [hc]
    exact Function.update_self ..

end Fat32s.Lib
