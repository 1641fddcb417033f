import Mathlib.Data.List.Basic
import Mathlib.Data.List.Sort

/-!
# Tables with unique keys

A table carries the proof that no two of its rows clash on a unique
constraint. Inserting a clashing row is refused; an update that keeps the
keys cannot break the constraint. A predicate on a unique key selects at
most one row, which turns an update into a change at one position.
-/

namespace Library

/-- Rows of which no two clash on a unique constraint. -/
structure Table (α : Type*) (Clash : α → α → Prop) where
  rows : List α
  unique : rows.Pairwise fun a b => ¬ Clash a b

namespace Table

variable {α : Type*} {Clash : α → α → Prop}

def empty : Table α Clash := ⟨[], List.Pairwise.nil⟩

@[simp] theorem empty_rows : (empty : Table α Clash).rows = [] := rfl

theorem ext_rows {t u : Table α Clash} (h : t.rows = u.rows) : t = u := by
  cases t
  cases u
  cases h
  rfl

def find (t : Table α Clash) (p : α → Bool) : Option α := t.rows.find? p

def count (t : Table α Clash) (p : α → Bool) : ℕ := t.rows.countP p

def insert [DecidableRel Clash] (t : Table α Clash) (a : α) : Option (Table α Clash) :=
  if h : ∀ b ∈ t.rows, ¬ Clash b a then
    some ⟨t.rows ++ [a], List.pairwise_append.mpr
      ⟨t.unique, List.pairwise_singleton _ _, by simpa using h⟩⟩
  else none

/-- A change of a row that leaves its keys as they are. -/
def KeepsKeys (Clash : α → α → Prop) (f : α → α) : Prop :=
  ∀ a b, (Clash (f a) b ↔ Clash a b) ∧ (Clash a (f b) ↔ Clash a b)

def updateWhere (t : Table α Clash) (p : α → Bool) (f : α → α)
    (hf : KeepsKeys Clash f) : Table α Clash where
  rows := t.rows.map fun a => if p a then f a else a
  unique := by
    apply List.pairwise_map.mpr
    apply t.unique.imp
    intro a b hab
    split <;> split
    · rwa [(hf a (f b)).1, (hf a b).2]
    · rwa [(hf a b).1]
    · rwa [(hf a b).2]
    · exact hab

def deleteWhere (t : Table α Clash) (p : α → Bool) : Table α Clash where
  rows := t.rows.filter fun a => !p a
  unique := t.unique.filter _

@[simp] theorem updateWhere_rows (t : Table α Clash) (p : α → Bool) (f : α → α)
    (hf : KeepsKeys Clash f) :
    (t.updateWhere p f hf).rows = t.rows.map fun a => if p a then f a else a := rfl

@[simp] theorem deleteWhere_rows (t : Table α Clash) (p : α → Bool) :
    (t.deleteWhere p).rows = t.rows.filter fun a => !p a := rfl

theorem find_deleteWhere_of_mem (t : Table α Clash) {p q : α → Bool}
    (h : ∀ a ∈ t.rows, q a = true → p a = false) : (t.deleteWhere p).find q = t.find q := by
  rw [find, deleteWhere_rows, List.find?_filter, find, ← List.head?_filter, ← List.head?_filter]
  congr 1
  apply List.filter_congr
  intro a ha
  cases hq : q a with
  | false => simp
  | true => simp [h a ha hq]

theorem find_deleteWhere (t : Table α Clash) {p q : α → Bool}
    (h : ∀ a, q a = true → p a = false) : (t.deleteWhere p).find q = t.find q :=
  t.find_deleteWhere_of_mem fun a _ => h a

theorem updateWhere_deleteWhere (t : Table α Clash) {p q : α → Bool} {f : α → α}
    (hf : KeepsKeys Clash f) (h : ∀ a, p (f a) = p a) :
    (t.deleteWhere p).updateWhere q f hf = (t.updateWhere q f hf).deleteWhere p := by
  apply ext_rows
  rw [updateWhere_rows, deleteWhere_rows, deleteWhere_rows, updateWhere_rows, List.filter_map]
  congr 2
  funext a
  by_cases hq : q a <;> simp [hq, h]

theorem mem_of_find {t : Table α Clash} {p : α → Bool} {a : α} (h : t.find p = some a) :
    a ∈ t.rows := List.mem_of_find?_eq_some h

theorem holds_of_find {t : Table α Clash} {p : α → Bool} {a : α} (h : t.find p = some a) :
    p a = true := List.find?_some h

/-- A predicate on a unique key: rows it selects clash with one another. -/
def Selects (Clash : α → α → Prop) (p : α → Bool) : Prop :=
  ∀ a b, p a = true → p b = true → Clash a b

theorem find_eq_some_iff {t : Table α Clash} {p : α → Bool} (hp : Selects Clash p) {a : α} :
    t.find p = some a ↔ a ∈ t.rows ∧ p a = true := by
  constructor
  · exact fun h => ⟨mem_of_find h, holds_of_find h⟩
  · rintro ⟨ha, hpa⟩
    obtain ⟨l, r, hlr⟩ := List.append_of_mem ha
    have hl : ∀ b ∈ l, p b = false := by
      intro b hb
      have hnot := (List.pairwise_append.mp (hlr ▸ t.unique)).2.2 b hb a (by simp)
      cases hpb : p b with
      | false => rfl
      | true => exact (hnot (hp b a hpb hpa)).elim
    have hnone : l.find? p = none := List.find?_eq_none.mpr fun b hb => by simp [hl b hb]
    simp [find, hlr, List.find?_append, hnone, hpa]

theorem map_unselected {p : α → Bool} {l : List α} (f : α → α) (h : ∀ b ∈ l, p b = false) :
    (l.map fun b => if p b then f b else b) = l := by
  calc
    (l.map fun b => if p b then f b else b) = l.map id :=
      List.map_congr_left fun b hb => by simp [h b hb]
    _ = l := List.map_id l

theorem exists_split {t : Table α Clash} {p : α → Bool} (hp : Selects Clash p) {a : α}
    (ha : t.find p = some a) :
    ∃ l r, t.rows = l ++ a :: r ∧ (∀ b ∈ l ++ r, p b = false) ∧
      ∀ f (hf : KeepsKeys Clash f), (t.updateWhere p f hf).rows = l ++ f a :: r := by
  obtain ⟨l, r, hlr⟩ := List.append_of_mem (mem_of_find ha)
  have hpa := holds_of_find ha
  have hparts := List.pairwise_append.mp (hlr ▸ t.unique)
  have hother : ∀ b ∈ l ++ r, p b = false := by
    intro b hb
    cases hpb : p b with
    | false => rfl
    | true =>
        rcases List.mem_append.mp hb with hl | hr
        · exact (hparts.2.2 b hl a (by simp) (hp b a hpb hpa)).elim
        · exact ((List.pairwise_cons.mp hparts.2.1).1 b hr (hp a b hpa hpb)).elim
  refine ⟨l, r, hlr, hother, fun f hf => ?_⟩
  rw [updateWhere_rows, hlr, List.map_append, List.map_cons, if_pos hpa,
    map_unselected f fun b hb => hother b (by simp [hb]),
    map_unselected f fun b hb => hother b (by simp [hb])]

/-- Counting after an update: the old row is taken out, the new one put in. -/
theorem count_updateWhere {t : Table α Clash} {p : α → Bool} (hp : Selects Clash p) {a : α}
    (ha : t.find p = some a) (f : α → α) (hf : KeepsKeys Clash f) (q : α → Bool) :
    (t.updateWhere p f hf).count q + (if q a then 1 else 0) =
      t.count q + (if q (f a) then 1 else 0) := by
  obtain ⟨l, r, hlr, -, hupdate⟩ := exists_split hp ha
  simp only [count, hupdate f hf, hlr, List.countP_append, List.countP_cons]
  omega

theorem find_updateWhere (t : Table α Clash) (p q : α → Bool) (f : α → α)
    (hf : KeepsKeys Clash f) (hq : ∀ a, q (f a) = q a) :
    (t.updateWhere p f hf).find q = (t.find q).map fun a => if p a then f a else a := by
  have hcomp : (q ∘ fun a => if p a then f a else a) = q := by
    funext a
    by_cases ha : p a <;> simp [ha, hq]
  rw [find, updateWhere_rows, List.find?_map, hcomp]
  rfl

section Insert

variable [DecidableRel Clash]

theorem exists_insert {t : Table α Clash} {a : α} (h : ∀ b ∈ t.rows, ¬ Clash b a) :
    ∃ u, t.insert a = some u := ⟨_, dif_pos h⟩

theorem insert_of_clash {t : Table α Clash} {a b : α} (hb : b ∈ t.rows) (h : Clash b a) :
    t.insert a = none := dif_neg fun hfree => hfree b hb h

theorem insert_eq_some_iff {t u : Table α Clash} {a : α} :
    t.insert a = some u ↔ (∀ b ∈ t.rows, ¬ Clash b a) ∧ u.rows = t.rows ++ [a] := by
  unfold insert
  split
  · next h =>
    constructor
    · exact fun heq => ⟨h, (Option.some.inj heq) ▸ rfl⟩
    · exact fun hu => congrArg some (ext_rows hu.2.symm)
  · next h =>
    constructor
    · exact fun heq => by simp at heq
    · exact fun hu => (h hu.1).elim

theorem insert_rows {t u : Table α Clash} {a : α} (h : t.insert a = some u) :
    u.rows = t.rows ++ [a] := (insert_eq_some_iff.mp h).2

theorem count_insert {t u : Table α Clash} {a : α} (h : t.insert a = some u) (q : α → Bool) :
    u.count q = t.count q + (if q a then 1 else 0) := by
  simp [count, insert_rows h, List.countP_append, List.countP_cons]

theorem find_insert {t u : Table α Clash} {a : α} (h : t.insert a = some u) (q : α → Bool) :
    u.find q = (t.find q).or (if q a then some a else none) := by
  rw [find, insert_rows h, List.find?_append, find]
  congr 1
  by_cases hq : q a <;> simp [hq]

theorem find_none_of_insert {t u : Table α Clash} {a : α} (h : t.insert a = some u)
    {p : α → Bool} (hp : Selects Clash p) (ha : p a = true) : t.find p = none := by
  apply List.find?_eq_none.mpr
  intro b hb hpb
  exact (insert_eq_some_iff.mp h).1 b hb (hp b a hpb ha)

end Insert

end Table

/-- One way to resolve `ORDER BY key ASC`: rows with equal keys come in an
order of the resolver's choice. -/
structure OrderBy {α κ : Type*} [LE κ] (key : α → κ) where
  sort : List α → List α
  perm : ∀ l, (sort l).Perm l
  sorted : ∀ l, (sort l).Pairwise fun a b => key a ≤ key b

namespace OrderBy

variable {α κ : Type*} {key : α → κ}

def stable [LinearOrder κ] (key : α → κ) : OrderBy key where
  sort := List.insertionSort fun a b => key a ≤ key b
  perm := List.perm_insertionSort _
  sorted l :=
    haveI : Std.Total fun a b : α => key a ≤ key b := ⟨fun a b => le_total (key a) (key b)⟩
    haveI : IsTrans α fun a b => key a ≤ key b := ⟨fun _ _ _ => le_trans⟩
    List.pairwise_insertionSort _ l

variable [LE κ] (o : OrderBy key)

@[simp] theorem mem_sort {l : List α} {a : α} : a ∈ o.sort l ↔ a ∈ l := (o.perm l).mem_iff

@[simp] theorem length_sort (l : List α) : (o.sort l).length = l.length := (o.perm l).length_eq

theorem mem_drop_of_not_mem_take {l : List α} {n : ℕ} {a : α} (ha : a ∈ l)
    (hnot : a ∉ (o.sort l).take n) : a ∈ (o.sort l).drop n := by
  have hmem : a ∈ (o.sort l).take n ++ (o.sort l).drop n := by
    rwa [List.take_append_drop, mem_sort]
  exact (List.mem_append.mp hmem).resolve_left hnot

theorem le_of_mem_take_of_mem_drop {l : List α} {n : ℕ} {a b : α} (ha : a ∈ (o.sort l).take n)
    (hb : b ∈ (o.sort l).drop n) : key a ≤ key b := by
  have hsorted := o.sorted l
  rw [← List.take_append_drop n (o.sort l)] at hsorted
  exact (List.pairwise_append.mp hsorted).2.2 a ha b hb

end OrderBy

section Sorted

variable {α κ : Type*} [LinearOrder κ] {key : α → κ} (o : OrderBy key) {l : List α} {n : ℕ}

/-- Who is among the first `n` has fewer than `n` strictly before. -/
theorem OrderBy.countP_lt_of_mem_take {a : α} (h : a ∈ (o.sort l).take n) :
    l.countP (fun b => decide (key b < key a)) < n := by
  obtain ⟨front, back, hsplit⟩ := List.append_of_mem h
  have hfront : front.length < n := by
    have hlength := congrArg List.length hsplit
    simp only [List.length_take, List.length_append, List.length_cons] at hlength
    omega
  have hsort : o.sort l = front ++ a :: (back ++ (o.sort l).drop n) := by
    rw [← List.cons_append, ← List.append_assoc, ← hsplit, List.take_append_drop]
  have hsorted : (a :: (back ++ (o.sort l).drop n)).Pairwise fun b c => key b ≤ key c := by
    have hall := o.sorted l
    rw [hsort] at hall
    exact (List.pairwise_append.mp hall).2.1
  have hnone : (a :: (back ++ (o.sort l).drop n)).countP
      (fun b => decide (key b < key a)) = 0 := by
    apply List.countP_eq_zero.mpr
    intro b hb
    rcases List.mem_cons.mp hb with rfl | hb
    · simp
    · simpa using (List.pairwise_cons.mp hsorted).1 b hb
  calc
    l.countP (fun b => decide (key b < key a)) =
        (o.sort l).countP fun b => decide (key b < key a) := ((o.perm l).countP_eq _).symm
    _ = front.countP fun b => decide (key b < key a) := by
      rw [hsort, List.countP_append, hnone, Nat.add_zero]
    _ < n := List.countP_le_length.trans_lt hfront

/-- Who is not among the first `n` has more than `n` no later, itself included. -/
theorem OrderBy.lt_countP_of_mem_drop {a : α} (h : a ∈ (o.sort l).drop n) :
    n < l.countP fun b => decide (key b ≤ key a) := by
  have htake : ((o.sort l).take n).countP (fun b => decide (key b ≤ key a)) =
      ((o.sort l).take n).length := by
    apply List.countP_eq_length.mpr
    intro b hb
    exact decide_eq_true (o.le_of_mem_take_of_mem_drop hb h)
  have hself : 0 < ((o.sort l).drop n).countP fun b => decide (key b ≤ key a) :=
    List.countP_pos_iff.mpr ⟨a, h, by simp⟩
  have hlength : n < (o.sort l).length := by
    have hpos := List.length_pos_of_mem h
    simp only [List.length_drop] at hpos
    omega
  calc
    n = ((o.sort l).take n).length := by simp only [List.length_take]; omega
    _ < (o.sort l).countP fun b => decide (key b ≤ key a) := by
      rw [← List.take_append_drop n (o.sort l), List.countP_append,
        List.take_append_drop n (o.sort l), htake]
      omega
    _ = l.countP fun b => decide (key b ≤ key a) := (o.perm l).countP_eq _

end Sorted

end Library
