import Eventify.Library.Table

/-!
# Serving a backlog in batches

Rounds take the first items of a backlog in the order of a key. A batch that
leaves an item behind is full and holds no later one, so the goal is served as
soon as the places of the rounds suffice for it and for what else took places.
-/

namespace Library

section Batch

variable {α κ : Type*} [LinearOrder κ] {key : α → κ}

namespace OrderBy

def batch (o : OrderBy key) (size : ℕ) (l : List α) : List α := (o.sort l).take size

variable {o : OrderBy key} {size : ℕ} {l : List α} {a x : α}

theorem mem_of_mem_batch (h : a ∈ o.batch size l) : a ∈ l := o.mem_sort.mp (List.mem_of_mem_take h)

theorem length_batch_le : (o.batch size l).length ≤ size := List.length_take_le _ _

theorem batch_sorted : (o.batch size l).Pairwise fun a b => key a ≤ key b :=
  (o.sorted l).sublist (List.take_sublist _ _)

theorem batch_map_nodup {β : Type*} {f : α → β} (h : (l.map f).Nodup) :
    ((o.batch size l).map f).Nodup :=
  (((o.perm l).map f).nodup_iff.mpr h).sublist ((List.take_sublist _ _).map f)

theorem length_batch_of_left (hx : x ∈ l) (hleft : x ∉ o.batch size l) :
    (o.batch size l).length = size := by
  have hdrop := List.length_pos_of_mem (o.mem_drop_of_not_mem_take hx hleft)
  rw [List.length_drop] at hdrop
  rw [batch, List.length_take]
  omega

theorem batch_le_of_left (ha : a ∈ o.batch size l) (hx : x ∈ l) (hleft : x ∉ o.batch size l) :
    key a ≤ key x :=
  o.le_of_mem_take_of_mem_drop ha (o.mem_drop_of_not_mem_take hx hleft)

/-- Behind a batch of older items an item is not taken. -/
theorem not_mem_batch (h : size ≤ l.countP fun b => decide (key b < key a)) :
    a ∉ o.batch size l :=
  fun ha => (o.countP_lt_of_mem_take ha).not_ge h

end OrderBy

end Batch

/-- After `rounds` rounds of `size` places, `served` of them have served the
goal and `lost` have not, and no place is left empty before the goal is done. -/
structure Places (size rounds served lost : ℕ) (done : Prop) : Prop where
  room : served + lost ≤ size * rounds
  full : done ∨ served + lost = size * rounds

namespace Places

variable {size rounds served lost : ℕ} {done : Prop}

theorem start (size : ℕ) (done : Prop) : Places size 0 0 0 done := ⟨by simp, .inr (by simp)⟩

/-- One more round, whose places are split the same way. -/
theorem round (h : Places size rounds served lost done) {hits misses : ℕ} {done' : Prop}
    (hroom : hits + misses ≤ size) (hkept : done → done') (hfull : done' ∨ hits + misses = size) :
    Places size (rounds + 1) (served + hits) (lost + misses) done' := by
  have hmul : size * (rounds + 1) = size * rounds + size := Nat.mul_succ size rounds
  have hbefore := h.room
  refine ⟨by omega, ?_⟩
  rcases h.full with hdone | hexact
  · exact .inl (hkept hdone)
  · refine hfull.imp_right fun hround => ?_
    omega

theorem done_iff (h : Places size rounds served lost done) {goal : ℕ}
    (hgoal : done ↔ goal ≤ served) : done ↔ goal + lost ≤ size * rounds := by
  have hroom := h.room
  constructor
  · intro hdone
    have hserved := hgoal.mp hdone
    omega
  · intro hfits
    rcases h.full with hdone | hexact
    · exact hdone
    · exact hgoal.mpr (by omega)

end Places

end Library
