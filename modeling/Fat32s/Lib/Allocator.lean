/-
  Fat32s/Lib/Allocator.lean
  =========================
  **malloc and free.**

  Of an allocator no more is assumed than what its interface promises: a heap has blocks
  at some addresses, `malloc` adds one at an address that was free, or gives none, and
  `free` takes away the block at an address and no other.  When `malloc` gives none is up
  to the allocator.

  A program that loses the addresses of blocks keeps them for good (`Keeps`).
-/
import Mathlib.Logic.Function.Basic

namespace Fat32s.Lib

structure Allocator where
  Heap : Type
  /-- The size of the block at an address. -/
  block : Heap → Nat → Option Nat
  malloc : Nat → Heap → Option Nat × Heap
  free : Nat → Heap → Heap
  malloc_some : ∀ {n a : Nat} {h : Heap}, (malloc n h).1 = some a →
    block h a = none ∧ block (malloc n h).2 = Function.update (block h) a (some n)
  block_free : ∀ {a : Nat} {h : Heap}, block h a ≠ none →
    block (free a h) = Function.update (block h) a none

namespace Allocator

variable {A : Allocator} {heap h₁ h₂ : A.Heap} {a n : Nat} {kept : List (Nat × Nat)}

/-- A block that comes and goes leaves nothing behind. -/
theorem block_free_of_update (hnone : A.block h₁ a = none)
    (hblock : A.block h₂ = Function.update (A.block h₁) a (some n)) :
    A.block (A.free a h₂) = A.block h₁ := by
  have hlive : A.block h₂ a ≠ none := by simp [hblock]
  rw [A.block_free hlive, hblock, Function.update_idem, ← hnone, Function.update_eq_self]

/-- Beside the blocks of `heap`, the second heap has the blocks of the list, each at an
    address of its own that was free. -/
structure Keeps (heap : A.Heap) (kept : List (Nat × Nat)) (heap' : A.Heap) : Prop where
  distinct : (kept.map (·.1)).Nodup
  fresh : ∀ b ∈ kept, A.block heap b.1 = none
  blocks : ∀ a, A.block heap' a = (kept.lookup a).or (A.block heap a)

theorem Keeps.none (heap : A.Heap) : Keeps heap [] heap :=
  ⟨List.nodup_nil, nofun, fun _ => rfl⟩

theorem Keeps.same (h : Keeps heap kept h₁) (hblock : A.block h₂ = A.block h₁) :
    Keeps heap kept h₂ :=
  ⟨h.distinct, h.fresh, fun a => by rw [hblock, h.blocks]⟩

theorem Keeps.more (h : Keeps heap kept h₁) (hnone : A.block h₁ a = .none)
    (hblock : A.block h₂ = Function.update (A.block h₁) a (some n)) :
    Keeps heap ((a, n) :: kept) h₂ := by
  rw [h.blocks, Option.or_eq_none_iff] at hnone
  refine ⟨?_, ?_, fun b => ?_⟩
  · refine List.nodup_cons.mpr ⟨fun hmem => ?_, h.distinct⟩
    obtain ⟨b, hb, hba⟩ := List.mem_map.mp hmem
    exact absurd hba.symm (by simpa using List.lookup_eq_none_iff.mp hnone.1 b hb)
  · rintro b hb
    rcases List.mem_cons.mp hb with rfl | hb
    · exact hnone.2
    · exact h.fresh b hb
  · rw [hblock, List.lookup_cons]
    by_cases hb : b = a
    · subst hb
      simp
    · rw [Function.update_of_ne hb, h.blocks, beq_false_of_ne hb]

/-- Addresses are given out one after the other, at most `limit` of them. -/
def bump (limit : Nat) : Allocator where
  Heap := List (Option Nat)
  block h a := (h[a]?).join
  malloc n h := if h.length < limit then (some h.length, h ++ [some n]) else (Option.none, h)
  free a h := h.set a Option.none
  malloc_some {n a h} hsome := by
    split at hsome
    · next hroom =>
      obtain rfl : h.length = a := by simpa using hsome
      refine ⟨by simp, funext fun b => ?_⟩
      rw [if_pos hroom]
      dsimp only
      by_cases hb : b = h.length
      · simp [hb]
      · rw [Function.update_of_ne hb, List.getElem?_append]
        split
        · rfl
        · rw [List.getElem?_eq_none (by simp; omega), List.getElem?_eq_none (by omega)]
    · cases hsome
  block_free {a h} _ := by
    funext b
    rw [List.getElem?_set]
    by_cases hb : b = a
    · rw [if_pos hb.symm, hb, Function.update_self]
      split <;> rfl
    · rw [if_neg (Ne.symm hb), Function.update_of_ne hb]

def bumpStart (limit : Nat) : (bump limit).Heap := ([] : List (Option Nat))

end Allocator

end Fat32s.Lib
