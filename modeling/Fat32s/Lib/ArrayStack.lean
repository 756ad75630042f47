/-
  Fat32s/Lib/ArrayStack.lean
  ==========================
  **A stack in an array of fixed size.**

  The cells below the pointer hold the stack, the others whatever was left there.
  Pushing fails when the array is full and popping when the stack is empty; apart from
  that the operations are those of a list with the top in front.
-/

namespace Fat32s.Lib

/-- The pointer never leaves the array. -/
structure ArrayStack (α : Type) (size : Nat) where
  cells : Vector α size
  sp : Nat
  sp_le : sp ≤ size

namespace ArrayStack

variable {α : Type} {size : Nat} {a : α} {st st' : ArrayStack α size}

/-- `cells[sp++] = a`. -/
def push (a : α) (st : ArrayStack α size) : Option (ArrayStack α size) :=
  if h : st.sp < size then some ⟨st.cells.set st.sp a h, st.sp + 1, h⟩ else none

/-- `cells[--sp]`. -/
def pop (st : ArrayStack α size) : Option (α × ArrayStack α size) :=
  match st with
  | ⟨_, 0, _⟩ => none
  | ⟨cells, sp + 1, h⟩ => some (cells.get ⟨sp, h⟩, ⟨cells, sp, Nat.le_of_succ_le h⟩)

/-- The stack without its contents, `sp = 0`. -/
def clear (st : ArrayStack α size) : ArrayStack α size := ⟨st.cells, 0, Nat.zero_le _⟩

def toList (st : ArrayStack α size) : List α := (st.cells.toList.take st.sp).reverse

theorem length_toList (st : ArrayStack α size) : st.toList.length = st.sp := by
  simp [toList, st.sp_le]

theorem toList_clear (st : ArrayStack α size) : st.clear.toList = [] := by simp [toList, clear]

theorem push_of_room (h : st.sp < size) (a : α) :
    ∃ st', st.push a = some st' ∧ st'.toList = a :: st.toList := by
  refine ⟨_, dif_pos h, ?_⟩
  have hlt : st.sp < st.cells.toList.length := by simpa using h
  simp only [toList, Vector.toList_set]
  rw [List.take_add_one, List.take_set_of_le (Nat.le_refl _), List.getElem?_set_self hlt]
  simp

theorem push_of_full (h : ¬ st.sp < size) (a : α) : st.push a = none := dif_neg h

theorem pop_nil (h : st.toList = []) : st.pop = none := by
  have hsp := st.length_toList
  rw [h] at hsp
  obtain ⟨cells, sp, hle⟩ := st
  cases hsp
  rfl

theorem pop_cons {rest : List α} (h : st.toList = a :: rest) :
    ∃ st', st.pop = some (a, st') ∧ st'.toList = rest := by
  have hlen := st.length_toList
  rw [h] at hlen
  obtain ⟨cells, sp, hle⟩ := st
  obtain rfl : sp = rest.length + 1 := hlen.symm
  have hlt : rest.length < cells.toList.length := by rwa [Vector.length_toList]
  simp only [toList] at h
  rw [List.take_add_one, List.getElem?_eq_getElem hlt] at h
  simp only [Option.toList_some, List.reverse_append, List.reverse_singleton,
    List.singleton_append, List.cons.injEq] at h
  refine ⟨⟨cells, rest.length, Nat.le_of_succ_le hle⟩, ?_, h.2⟩
  rw [← h.1]
  rfl

end ArrayStack

end Fat32s.Lib
