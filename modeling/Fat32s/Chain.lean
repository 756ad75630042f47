/-
  Fat32s/Chain.lean
  =================
  **FAT chains and the directories stored in them.**

  `Linked c cs` says that the clusters `cs`, starting with `c`, are data clusters
  that the FAT links one after the other.  Their contents are read in items of a
  fixed size (bytes for a file, 32-byte slots for a directory), and `Succ` is the
  step from one item to the next.  A directory lists the slots before the first
  one that starts with a zero byte.
-/
import Fat32s.Volume
import Mathlib.Data.List.Chain

namespace Fat32s

namespace Volume

variable {v : Volume}

/-- `cs` are the first clusters of the chain that starts at `c`. -/
inductive Linked (v : Volume) : UInt32 → List UInt32 → Prop
  | last {c : UInt32} (hc : v.IsData c) : Linked v c [c]
  | link {c : UInt32} {cs : List UInt32} (hc : v.IsData c) (hrest : Linked v (v.fat c) cs) :
      Linked v c (c :: cs)

theorem Linked.isData {c : UInt32} {cs : List UInt32} (h : v.Linked c cs) : v.IsData c := by
  cases h with
  | last hc => exact hc
  | link hc _ => exact hc

/-- From one item of `k` bytes to the next one of the chain. -/
inductive Succ (v : Volume) (k : Nat) : Nat → Nat → Prop
  | inside {c : UInt32} {o : Nat} (hc : v.IsData c) (hk : k ∣ o) (ho : o + k < v.clusterSize) :
      Succ v k (v.base c + o) (v.base c + o + k)
  | link {c : UInt32} {o : Nat} (hc : v.IsData c) (hk : k ∣ o) (ho : o + k = v.clusterSize)
      (hnext : v.IsData (v.fat c)) : Succ v k (v.base c + o) (v.base (v.fat c))

/-! ### The items of a chain -/

section items

variable {k : Nat}

theorem clusterSize_eq (hk : k ∣ v.bps) : v.clusterSize = k * (v.clusterSize / k) :=
  (Nat.mul_div_cancel' (Nat.dvd_mul_left_of_dvd hk _)).symm

theorem items_pos (hk : k ∣ v.bps) : 0 < v.clusterSize / k := by
  have hsize : 0 < v.clusterSize :=
    Nat.mul_pos v.spc_pos (by have := v.bps_cases; omega)
  have := clusterSize_eq hk
  rcases Nat.eq_zero_or_pos (v.clusterSize / k) with hzero | hpos
  · rw [hzero] at this
    omega
  · exact hpos

theorem addrs_head? (hk : k ∣ v.bps) (c : UInt32) : (v.addrs k c).head? = some (v.base c) := by
  have hpos := items_pos hk
  simp [addrs, List.head?_range, Nat.pos_iff_ne_zero.mp hpos]

theorem addrs_getLast? (hk : k ∣ v.bps) (c : UInt32) :
    (v.addrs k c).getLast? = some (v.base c + k * (v.clusterSize / k - 1)) := by
  have hpos := items_pos hk
  simp [addrs, List.getLast?_range, Nat.pos_iff_ne_zero.mp hpos]

theorem isChain_addrs (hk : k ∣ v.bps) {c : UInt32} (hc : v.IsData c) :
    (v.addrs k c).IsChain (v.Succ k) := by
  have hpos : 0 < k := Nat.pos_of_dvd_of_pos hk (by have := v.bps_cases; omega)
  have hsize := clusterSize_eq hk
  rw [List.isChain_iff_getElem]
  intro i hi
  simp only [addrs, List.length_map, List.length_range] at hi
  have hlt : k * (i + 1) < k * (v.clusterSize / k) := Nat.mul_lt_mul_of_pos_left hi hpos
  have hstep := Succ.inside hc ⟨i, rfl⟩ (show k * i + k < v.clusterSize by
    rw [Nat.mul_add, Nat.mul_one] at hlt
    omega)
  simpa [addrs, Nat.mul_add, Nat.add_assoc] using hstep

theorem Linked.head? (hk : k ∣ v.bps) {c : UInt32} {cs : List UInt32} (h : v.Linked c cs) :
    (cs.flatMap (v.addrs k)).head? = some (v.base c) := by
  cases h with
  | last hc => simp [addrs_head? hk]
  | link hc _ => simp [List.flatMap_cons, addrs_head? hk]

/-- The items of linked clusters follow one another. -/
theorem Linked.isChain (hk : k ∣ v.bps) {c : UInt32} {cs : List UInt32} (h : v.Linked c cs) :
    (cs.flatMap (v.addrs k)).IsChain (v.Succ k) := by
  induction h with
  | last hc => simpa using isChain_addrs hk hc
  | @link c cs hc hrest ih =>
    have hsize := clusterSize_eq (v := v) hk
    have hpos := items_pos (v := v) hk
    rw [List.flatMap_cons, List.isChain_append]
    refine ⟨isChain_addrs hk hc, ih, ?_⟩
    intro a ha b hb
    rw [addrs_getLast? hk, Option.mem_some_iff] at ha
    rw [hrest.head? hk, Option.mem_some_iff] at hb
    subst ha hb
    refine Succ.link hc ⟨_, rfl⟩ ?_ hrest.isData
    rw [Nat.mul_sub, Nat.mul_one]
    have := Nat.le_mul_of_pos_right k hpos
    omega

end items

/-! ### Directories -/

/-- The directory at cluster `c` lists the slots at the addresses `as`: they come
    first in its chain, and the slot after them starts with a zero byte. -/
structure Lists (v : Volume) (c : UInt32) (as : List Nat) : Prop where
  live : ∀ a ∈ as, v.slot a 0 ≠ 0
  chain : ∃ cs z rest, v.Linked c cs ∧ cs.flatMap (v.addrs 32) = as ++ z :: rest ∧ v.slot z 0 = 0

/-- The slots of a chain before the first one that starts with a zero byte are listed. -/
theorem Linked.lists {c : UInt32} {cs : List UInt32} {us rest : List Slot} {z : Slot}
    (hchain : v.Linked c cs) (hslots : cs.flatMap v.clusterSlots = us ++ z :: rest)
    (hlive : ∀ u ∈ us, u 0 ≠ 0) (hz : z 0 = 0) : ∃ as, v.Lists c as ∧ as.map v.slot = us := by
  have haddrs : (cs.flatMap (v.addrs 32)).map v.slot = us ++ z :: rest := by
    rw [← hslots, List.map_flatMap]
    rfl
  obtain ⟨as, bs, hsplit, has, hbs⟩ := List.map_eq_append_iff.mp haddrs
  obtain ⟨a, bs, rfl, ha, _⟩ := List.map_eq_cons_iff.mp hbs
  refine ⟨as, ⟨?_, cs, a, bs, hchain, hsplit, by rw [ha]; exact hz⟩, has⟩
  intro b hb
  apply hlive
  rw [← has]
  exact List.mem_map_of_mem hb

theorem dvd_bps : 32 ∣ v.bps := ⟨_, v.bps_eq⟩

theorem Lists.isData {c : UInt32} {as : List Nat} (h : v.Lists c as) : v.IsData c := by
  obtain ⟨cs, z, rest, hlinked, _⟩ := h.chain
  exact hlinked.isData

/-- The addresses of a directory up to its zero slot, one step after the other from its base. -/
theorem Lists.run {c : UInt32} {as : List Nat} (h : v.Lists c as) :
    ∃ z, v.slot z 0 = 0 ∧ (as ++ [z]).IsChain (v.Succ 32) ∧
      (as ++ [z]).head? = some (v.base c) := by
  obtain ⟨cs, z, rest, hlinked, happ, hz⟩ := h.chain
  have hchain := hlinked.isChain dvd_bps
  have hhead := hlinked.head? dvd_bps
  have hsplit : as ++ z :: rest = (as ++ [z]) ++ rest := by simp
  rw [happ, hsplit] at hchain hhead
  refine ⟨z, hz, (List.isChain_append.mp hchain).1, ?_⟩
  cases as with
  | nil => simpa using hhead
  | cons a as => simpa using hhead

end Volume

end Fat32s
