import Eventify.Library.Table

/-!
# Pages of a sorted list

Each page is cut from a sorted list of its own, so rows with equal keys may
come in another order on every page. The pages make up the list whatever the
orders are exactly when no page boundary falls inside a group of equal keys.
-/

namespace Library

variable {α κ : Type*} [LinearOrder κ]

section Boundary

variable (key : α → κ)

/-- No group of equal keys reaches from before position `n` to behind it. -/
def NoTieAt (l : List α) (n : ℕ) : Prop :=
  ∀ a ∈ l, n ≤ l.countP (fun b => decide (key b < key a)) ∨
    l.countP (fun b => decide (key b ≤ key a)) ≤ n

instance (l : List α) (n : ℕ) : Decidable (NoTieAt key l n) :=
  inferInstanceAs (Decidable (∀ a ∈ l, n ≤ l.countP (fun b => decide (key b < key a)) ∨
    l.countP (fun b => decide (key b ≤ key a)) ≤ n))

/-- Whoever has at most `n` rows no later than its own. -/
def firstRows (l : List α) (n : ℕ) : List α :=
  l.filter fun a => decide (l.countP (fun b => decide (key b ≤ key a)) ≤ n)

variable {key} {l : List α} {n : ℕ}

theorem noTieAt_of_length_le (h : l.length ≤ n) : NoTieAt key l n :=
  fun _ _ => .inr (List.countP_le_length.trans h)

theorem firstRows_of_length_le (h : l.length ≤ n) : firstRows key l n = l := by
  apply List.filter_eq_self.mpr
  intro a _
  simpa using List.countP_le_length.trans h

theorem firstRows_zero : firstRows key l 0 = [] := by
  apply List.filter_eq_nil_iff.mpr
  intro a ha
  have hself : 0 < l.countP fun b => decide (key b ≤ key a) :=
    List.countP_pos_iff.mpr ⟨a, ha, by simp⟩
  simp only [decide_eq_true_eq, not_le]
  exact hself

/-- Without a tie at the boundary every order puts the same rows before it. -/
theorem NoTieAt.take_perm (h : NoTieAt key l n) (o : OrderBy key) :
    ((o.sort l).take n).Perm (firstRows key l n) := by
  have hfront : ((o.sort l).take n).filter
      (fun a => decide (l.countP (fun b => decide (key b ≤ key a)) ≤ n)) = (o.sort l).take n := by
    apply List.filter_eq_self.mpr
    intro a ha
    rcases h a (o.mem_sort.mp (List.mem_of_mem_take ha)) with hbehind | hbefore
    · exact absurd (o.countP_lt_of_mem_take ha) (not_lt.mpr hbehind)
    · simpa using hbefore
  have hback : ((o.sort l).drop n).filter
      (fun a => decide (l.countP (fun b => decide (key b ≤ key a)) ≤ n)) = [] := by
    apply List.filter_eq_nil_iff.mpr
    intro a ha
    simpa using o.lt_countP_of_mem_drop ha
  have hsplit : (o.sort l).filter
      (fun a => decide (l.countP (fun b => decide (key b ≤ key a)) ≤ n)) = (o.sort l).take n := by
    rw [← List.take_append_drop n (o.sort l), List.filter_append,
      List.take_append_drop n (o.sort l), hfront, hback, List.append_nil]
  rw [← hsplit]
  exact (o.perm l).filter _

/-- A strict step at the boundary separates all keys before it from all behind it. -/
theorem noTieAt_of_lt (o : OrderBy key) {front back : List α} {x y : α}
    (hsort : o.sort l = (front ++ [x]) ++ y :: back) (hcount : front.length + 1 = n)
    (hlt : key x < key y) : NoTieAt key l n := by
  have hsorted := o.sorted l
  rw [hsort] at hsorted
  obtain ⟨hleft, hright, -⟩ := List.pairwise_append.mp hsorted
  have hbefore : ∀ a ∈ front ++ [x], key a ≤ key x := by
    intro a ha
    rcases List.mem_append.mp ha with ha | ha
    · exact (List.pairwise_append.mp hleft).2.2 a ha x (by simp)
    · rw [List.mem_singleton.mp ha]
  have hbehind : ∀ b ∈ y :: back, key y ≤ key b := by
    intro b hb
    rcases List.mem_cons.mp hb with rfl | hb
    · exact le_rfl
    · exact (List.pairwise_cons.mp hright).1 b hb
  have hcounts : ∀ p : α → Bool,
      l.countP p = (front ++ [x]).countP p + (y :: back).countP p := by
    intro p
    rw [← (o.perm l).countP_eq, hsort, List.countP_append]
  intro a ha
  rw [hcounts, hcounts]
  have ha : a ∈ (front ++ [x]) ++ y :: back := hsort ▸ o.mem_sort.mpr ha
  rcases List.mem_append.mp ha with ha | ha
  · right
    have hnone : (y :: back).countP (fun b => decide (key b ≤ key a)) = 0 := by
      apply List.countP_eq_zero.mpr
      intro b hb
      simpa using ((hbefore a ha).trans_lt hlt).trans_le (hbehind b hb)
    have hfew : (front ++ [x]).countP (fun b => decide (key b ≤ key a)) ≤
        (front ++ [x]).length := List.countP_le_length
    rw [List.length_append, List.length_singleton] at hfew
    rw [hnone]
    omega
  · left
    have hall : (front ++ [x]).countP (fun b => decide (key b < key a)) =
        (front ++ [x]).length := by
      apply List.countP_eq_length.mpr
      intro b hb
      simpa using ((hbefore b hb).trans_lt hlt).trans_le (hbehind a ha)
    rw [hall, List.length_append, List.length_singleton]
    omega

/-- A tie at the boundary: the rows on its two sides have equal keys. -/
theorem exists_tie (o : OrderBy key) (hpos : 0 < n) (hlength : n < l.length)
    (h : ¬ NoTieAt key l n) :
    ∃ front x y back, o.sort l = front ++ x :: y :: back ∧ front.length + 1 = n ∧
      key x = key y := by
  have hsize : n < (o.sort l).length := by rwa [o.length_sort]
  obtain ⟨front, x, hfront⟩ : ∃ front x, (o.sort l).take n = front ++ [x] :=
    ⟨_, _, (List.dropLast_append_getLast (by
      intro hnil
      have := congrArg List.length hnil
      simp only [List.length_take, List.length_nil] at this
      omega)).symm⟩
  obtain ⟨y, back, hback⟩ : ∃ y back, (o.sort l).drop n = y :: back := by
    apply List.exists_cons_of_ne_nil
    intro hnil
    have := congrArg List.length hnil
    simp only [List.length_drop, List.length_nil] at this
    omega
  have hsort : o.sort l = (front ++ [x]) ++ y :: back := by
    rw [← hfront, ← hback, List.take_append_drop]
  have hcount : front.length + 1 = n := by
    have := congrArg List.length hfront
    simp only [List.length_take, List.length_append, List.length_singleton] at this
    omega
  refine ⟨front, x, y, back, by simp [hsort], hcount, ?_⟩
  have hsorted := o.sorted l
  rw [hsort] at hsorted
  have hle : key x ≤ key y := (List.pairwise_append.mp hsorted).2.2 x (by simp) y (by simp)
  by_contra hne
  exact h (noTieAt_of_lt o hsort hcount (lt_of_le_of_ne hle hne))

end Boundary

section Swap

variable (key : α → κ)

/-- Exchanges the rows at positions `n` and `n + 1` when their keys are equal. -/
def swapTie : ℕ → List α → List α
  | 0, x :: y :: l => if key x = key y then y :: x :: l else x :: y :: l
  | n + 1, x :: l => x :: swapTie n l
  | _, l => l

variable {key}

theorem swapTie_perm (n : ℕ) (l : List α) : (swapTie key n l).Perm l := by
  induction n generalizing l with
  | zero =>
      match l with
      | [] | [x] => exact .refl _
      | x :: y :: l =>
          simp only [swapTie]
          split
          · exact .swap x y l
          · exact .refl _
  | succ n ih =>
      match l with
      | [] => exact .refl _
      | x :: l => exact (ih l).cons x

theorem swapTie_sorted (n : ℕ) {l : List α} (h : l.Pairwise fun a b => key a ≤ key b) :
    (swapTie key n l).Pairwise fun a b => key a ≤ key b := by
  induction n generalizing l with
  | zero =>
      match l with
      | [] | [x] => exact h
      | x :: y :: l =>
          simp only [swapTie]
          split
          next htie =>
            obtain ⟨hx, hrest⟩ := List.pairwise_cons.mp h
            obtain ⟨hy, hl⟩ := List.pairwise_cons.mp hrest
            refine List.pairwise_cons.mpr ⟨?_, List.pairwise_cons.mpr ⟨?_, hl⟩⟩
            · intro b hb
              rcases List.mem_cons.mp hb with rfl | hb
              · exact htie.ge
              · exact hy b hb
            · exact fun b hb => hx b (List.mem_cons_of_mem y hb)
          · exact h
  | succ n ih =>
      match l with
      | [] => exact h
      | x :: l =>
          obtain ⟨hx, hl⟩ := List.pairwise_cons.mp h
          refine List.pairwise_cons.mpr ⟨?_, ih hl⟩
          exact fun b hb => hx b ((swapTie_perm n l).mem_iff.mp hb)

theorem swapTie_append {front back : List α} {x y : α} (htie : key x = key y) :
    swapTie key front.length (front ++ x :: y :: back) = front ++ y :: x :: back := by
  induction front with
  | nil => simp [swapTie, htie]
  | cons a front ih => simp [swapTie, ih]

/-- The order that differs from `o` in one tie at most. -/
def OrderBy.swapping (o : OrderBy key) (n : ℕ) : OrderBy key where
  sort l := swapTie key n (o.sort l)
  perm l := (swapTie_perm n _).trans (o.perm l)
  sorted l := swapTie_sorted n (o.sorted l)

end Swap

section Pages

variable {key : α → κ} {l : List α} {size count : ℕ}

/-- Page `n` of the list in the order `o`, counted from zero. -/
def OrderBy.page (o : OrderBy key) (size n : ℕ) (l : List α) : List α :=
  ((o.sort l).drop (n * size)).take size

def pages (orders : ℕ → OrderBy key) (size count : ℕ) (l : List α) : List α :=
  (List.range count).flatMap fun n => (orders n).page size n l

theorem OrderBy.length_page_le (o : OrderBy key) (size n : ℕ) (l : List α) :
    (o.page size n l).length ≤ size := by simp [page]

theorem pages_perm_firstRows (orders : ℕ → OrderBy key)
    (hties : ∀ n ≤ count, NoTieAt key l (n * size)) :
    (pages orders size count l).Perm (firstRows key l (count * size)) := by
  induction count with
  | zero => simp [pages, firstRows_zero]
  | succ count ih =>
      have hbefore := ih fun n hn => hties n (hn.trans (Nat.le_succ count))
      have hstep : pages orders size (count + 1) l =
          pages orders size count l ++ (orders count).page size count l := by
        simp [pages, List.range_succ]
      rw [hstep]
      calc
        (pages orders size count l ++ (orders count).page size count l).Perm
            (firstRows key l (count * size) ++ (orders count).page size count l) :=
          hbefore.append_right _
        List.Perm _ (((orders count).sort l).take (count * size) ++
            (orders count).page size count l) :=
          ((hties count (Nat.le_succ count)).take_perm (orders count)).symm.append_right _
        List.Perm _ (((orders count).sort l).take ((count + 1) * size)) := by
          rw [Nat.succ_mul, List.take_add, OrderBy.page]
        List.Perm _ (firstRows key l ((count + 1) * size)) :=
          (hties (count + 1) le_rfl).take_perm (orders count)

theorem pages_perm (orders : ℕ → OrderBy key) (hall : l.length ≤ count * size)
    (hties : ∀ n, 0 < n → n * size < l.length → NoTieAt key l (n * size)) :
    (pages orders size count l).Perm l := by
  have hboundary : ∀ n ≤ count, NoTieAt key l (n * size) := by
    intro n _
    rcases Nat.eq_zero_or_pos n with rfl | hpos
    · intro a _
      simp
    · by_cases hn : n * size < l.length
      · exact hties n hpos hn
      · exact noTieAt_of_length_le (not_lt.mp hn)
  have h := pages_perm_firstRows orders hboundary
  rwa [firstRows_of_length_le hall] at h

theorem take_append_cons {rest tail : List α} {x : α} {size : ℕ} (h : rest.length + 1 = size) :
    (rest ++ x :: tail).take size = rest ++ [x] := by
  subst h
  rw [List.take_append, List.take_of_length_le (Nat.le_succ _)]
  simp

/-- A tie at a boundary, resolved in two ways on the two sides of it, puts a
row on both pages. -/
theorem exists_pages_not_nodup {n : ℕ} (hpos : 0 < n) (hsize : 0 < size)
    (hlength : n * size < l.length) (hcount : n < count) (h : ¬ NoTieAt key l (n * size)) :
    ∃ orders : ℕ → OrderBy key, ¬ (pages orders size count l).Nodup := by
  obtain ⟨front, x, y, back, hsort, hfront, htie⟩ :=
    exists_tie (.stable key) (Nat.mul_pos hpos hsize) hlength h
  refine ⟨fun m => if m = n then (OrderBy.stable key).swapping front.length else .stable key, ?_⟩
  intro hnodup
  have hdisjoint := (List.nodup_flatMap.mp hnodup).2
  have hpages := List.pairwise_iff_getElem.mp hdisjoint (n - 1) n (by simp; omega) (by simpa)
    (by omega)
  simp only [List.getElem_range, Function.onFun] at hpages
  have hne : n - 1 ≠ n := by omega
  simp only [if_neg hne, if_true] at hpages
  have hstart : n * size = (n - 1) * size + size := by
    rw [← Nat.succ_mul]
    congr
    omega
  have hleft : x ∈ (OrderBy.stable key).page size (n - 1) l := by
    have hprefix : (n - 1) * size ≤ front.length := by omega
    rw [OrderBy.page, hsort, List.drop_append_of_le_length hprefix]
    have hsuffix : (front.drop ((n - 1) * size)).length + 1 = size := by
      rw [List.length_drop]
      omega
    rw [take_append_cons hsuffix]
    simp
  have hright : x ∈ ((OrderBy.stable key).swapping front.length).page size n l := by
    have hswap : ((OrderBy.stable key).swapping front.length).sort l =
        (front ++ [y]) ++ x :: back := by
      change swapTie key front.length ((OrderBy.stable key).sort l) = _
      rw [hsort, swapTie_append htie]
      simp
    have hdrop : n * size = (front ++ [y]).length := by simp [hfront]
    obtain ⟨rest, hrest⟩ : ∃ rest, size = rest + 1 := ⟨size - 1, by omega⟩
    rw [OrderBy.page, hswap, hdrop, List.drop_left, hrest, List.take_succ_cons]
    simp
  exact hpages hleft hright

end Pages

end Library
