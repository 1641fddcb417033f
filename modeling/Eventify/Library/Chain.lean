import Mathlib.Data.List.Basic

/-!
# Pointer paths

Elements with a key may point at the key of a next element. A list is linked
when each element points at the one after it and the last points nowhere.
Following the pointers through a lookup reads such a list off, as far as the
steps allowed reach.
-/

namespace Library

variable {α κ : Type*} (key : α → κ) (next : α → Option κ) (link : α → α → Prop)

inductive Linked : List α → Prop
  | last {a : α} (h : next a = none) : Linked [a]
  | cons {a b : α} {l : List α} (hnext : next a = some (key b)) (hlink : link a b)
      (h : Linked (b :: l)) : Linked (a :: b :: l)

/-- The elements found by following pointers, at most `n` of them. -/
def walk (find : κ → Option α) (next : α → Option κ) : ℕ → Option κ → List α
  | 0, _ => []
  | _ + 1, none => []
  | n + 1, some k =>
      match find k with
      | none => []
      | some a => a :: walk find next n (next a)

variable {key next link}

namespace Linked

theorem tail {a b : α} {l : List α} (h : Linked key next link (a :: b :: l)) :
    Linked key next link (b :: l) := by
  cases h with
  | cons _ _ hrest => exact hrest

theorem suffix {pre l : List α} {a : α} (h : Linked key next link (pre ++ a :: l)) :
    Linked key next link (a :: l) := by
  induction pre with
  | nil => exact h
  | cons b pre ih =>
      apply ih
      cases pre with
      | nil => exact h.tail
      | cons c pre => exact h.tail

theorem ends_at {l : List α} {a : α} (h : Linked key next link l) (ha : a ∈ l)
    (hend : ∀ b, ¬ link a b) : ∃ pre, l = pre ++ [a] ∧ next a = none := by
  induction h with
  | last hnone =>
      obtain rfl := List.mem_singleton.mp ha
      exact ⟨[], rfl, hnone⟩
  | @cons c b l hnext hlink hrest ih =>
      rcases List.mem_cons.mp ha with rfl | ha
      · exact (hend b hlink).elim
      · obtain ⟨pre, hpre, hnone⟩ := ih ha
        exact ⟨c :: pre, by rw [hpre]; rfl, hnone⟩

theorem linked_of_mem_dropLast {l : List α} {a : α} (h : Linked key next link l)
    (ha : a ∈ l.dropLast) : ∃ b, link a b := by
  induction h with
  | last => simp at ha
  | @cons c b l hnext hlink hrest ih =>
      rw [List.dropLast_cons_cons] at ha
      rcases List.mem_cons.mp ha with rfl | ha
      · exact ⟨b, hlink⟩
      · exact ih ha

theorem const {β : Type*} (f : α → β) (hf : ∀ a b, link a b → f a = f b) {l : List α}
    (h : Linked key next link l) : ∀ a ∈ l, ∀ b ∈ l, f a = f b := by
  induction h with
  | last => simp
  | @cons c d l hnext hlink hrest ih =>
      have hd : ∀ x ∈ c :: d :: l, f x = f d := by
        intro x hx
        rcases List.mem_cons.mp hx with rfl | hx
        · exact hf _ _ hlink
        · exact ih x hx d (by simp)
      exact fun a ha b hb => (hd a ha).trans (hd b hb).symm

theorem map {l : List α} (f : α → α) (h : Linked key next link l)
    (hkey : ∀ a ∈ l, key (f a) = key a) (hnext : ∀ a ∈ l, next (f a) = next a)
    (hlink : ∀ a ∈ l, ∀ b ∈ l, link a b → link (f a) (f b)) :
    Linked key next link (l.map f) := by
  induction h with
  | last hnone => exact .last (by rw [hnext _ (by simp), hnone])
  | @cons a b l hab hl hrest ih =>
      refine .cons ?_ (hlink a (by simp) b (by simp) hl) (ih ?_ ?_ ?_)
      · rw [hnext a (by simp), hkey b (by simp), hab]
      · exact fun c hc => hkey c (List.mem_cons_of_mem _ hc)
      · exact fun c hc => hnext c (List.mem_cons_of_mem _ hc)
      · exact fun c hc d hd => hlink c (List.mem_cons_of_mem _ hc) d (List.mem_cons_of_mem _ hd)

/-- The last element is turned into one that points at a new last element. -/
theorem grow {pre : List α} {a a' b : α} (h : Linked key next link (pre ++ [a]))
    (hkey : key a' = key a) (hlast : ∀ c, link c a → link c a') (hnext : next a' = some (key b))
    (hlink : link a' b) (hend : next b = none) : Linked key next link (pre ++ [a', b]) := by
  induction pre with
  | nil => exact .cons hnext hlink (.last hend)
  | cons c pre ih =>
      cases pre with
      | nil =>
          cases h with
          | cons hca hl hrest => exact .cons (by rw [hkey, hca]) (hlast c hl) (ih hrest)
      | cons d pre =>
          cases h with
          | cons hcd hl hrest => exact .cons hcd hl (ih hrest)

/-- Following the pointers behind the first element reads off the rest. -/
theorem walk_eq {find : κ → Option α} {a : α} {l : List α} (h : Linked key next link (a :: l))
    (hfind : ∀ b ∈ l, find (key b) = some b) (n : ℕ) :
    walk find next n (next a) = l.take n := by
  induction n generalizing a l with
  | zero => simp [walk]
  | succ n ih =>
      cases h with
      | last hnone => simp [walk, hnone]
      | cons hnext _ hrest =>
          rw [hnext, walk, hfind _ (by simp), List.take_succ_cons]
          simp only
          rw [ih hrest fun b hb => hfind b (List.mem_cons_of_mem _ hb)]

end Linked

end Library
