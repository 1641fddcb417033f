import Mathlib.Data.List.Nodup

/-!
# Maps in the order of insertion

A key keeps the place of its first insertion. Where each element of a list
updates the value under a key of its own, the value under a key at the end is
the fold of the elements with that key.
-/

namespace Library

variable {κ ν α : Type*}

structure OrderedMap (κ ν : Type*) where
  entries : List (κ × ν)
  nodup : (entries.map Prod.fst).Nodup

namespace OrderedMap

def empty : OrderedMap κ ν := ⟨[], List.nodup_nil⟩

def keys (m : OrderedMap κ ν) : List κ := m.entries.map Prod.fst

variable [DecidableEq κ]

def setEntries (k : κ) (v : ν) : List (κ × ν) → List (κ × ν)
  | [] => [(k, v)]
  | entry :: rest => if entry.1 = k then (k, v) :: rest else entry :: setEntries k v rest

theorem mem_keys_setEntries {k k' : κ} {v : ν} {entries : List (κ × ν)} :
    k' ∈ (setEntries k v entries).map Prod.fst ↔ k' = k ∨ k' ∈ entries.map Prod.fst := by
  induction entries with
  | nil => simp [setEntries]
  | cons entry rest ih =>
      by_cases hk : entry.1 = k
      · simp [setEntries, hk]
      · rw [setEntries, if_neg hk, List.map_cons, List.mem_cons, ih, List.map_cons, List.mem_cons]
        exact or_left_comm

theorem nodup_setEntries {k : κ} {v : ν} {entries : List (κ × ν)}
    (h : (entries.map Prod.fst).Nodup) : ((setEntries k v entries).map Prod.fst).Nodup := by
  induction entries with
  | nil => exact List.nodup_singleton k
  | cons entry rest ih =>
      obtain ⟨hnew, hrest⟩ := List.nodup_cons.mp h
      by_cases hk : entry.1 = k
      · rw [setEntries, if_pos hk]
        exact List.nodup_cons.mpr ⟨hk ▸ hnew, hrest⟩
      · rw [setEntries, if_neg hk, List.map_cons, List.nodup_cons, mem_keys_setEntries]
        exact ⟨not_or.mpr ⟨hk, hnew⟩, ih hrest⟩

def get (m : OrderedMap κ ν) (k : κ) : Option ν := m.entries.lookup k

def set (m : OrderedMap κ ν) (k : κ) (v : ν) : OrderedMap κ ν :=
  ⟨setEntries k v m.entries, nodup_setEntries m.nodup⟩

theorem lookup_cons (k : κ) (entry : κ × ν) (rest : List (κ × ν)) :
    (entry :: rest).lookup k = if k = entry.1 then some entry.2 else rest.lookup k := by
  by_cases hk : k = entry.1
  · rw [List.lookup_cons, beq_iff_eq.mpr hk, if_pos hk]
  · rw [List.lookup_cons, beq_eq_false_iff_ne.mpr hk, if_neg hk]

theorem lookup_setEntries (k k' : κ) (v : ν) (entries : List (κ × ν)) :
    (setEntries k v entries).lookup k' = if k' = k then some v else entries.lookup k' := by
  induction entries with
  | nil => exact lookup_cons k' (k, v) []
  | cons entry rest ih =>
      by_cases hentry : entry.1 = k
      · rw [setEntries, if_pos hentry, lookup_cons, lookup_cons, hentry]
        by_cases hk : k' = k
        · rw [if_pos hk, if_pos hk]
        · rw [if_neg hk, if_neg hk, if_neg hk]
      · rw [setEntries, if_neg hentry, lookup_cons, lookup_cons, ih]
        by_cases hk : k' = k
        · rw [if_pos hk, if_pos hk, if_neg fun h => hentry (h.symm.trans hk)]
        · rw [if_neg hk, if_neg hk]

theorem get_set (m : OrderedMap κ ν) (k k' : κ) (v : ν) :
    (m.set k v).get k' = if k' = k then some v else m.get k' := lookup_setEntries k k' v m.entries

theorem mem_iff_lookup {k : κ} {v : ν} {entries : List (κ × ν)}
    (h : (entries.map Prod.fst).Nodup) : (k, v) ∈ entries ↔ entries.lookup k = some v := by
  induction entries with
  | nil => simp
  | cons entry rest ih =>
      obtain ⟨hnew, hrest⟩ := List.nodup_cons.mp h
      rw [List.mem_cons, ih hrest, lookup_cons]
      by_cases hk : k = entry.1
      · have hnone : rest.lookup k ≠ some v := fun hlookup =>
          hnew (hk ▸ List.mem_map_of_mem (f := Prod.fst) ((ih hrest).mpr hlookup))
        rw [if_pos hk, or_iff_left hnone, Prod.ext_iff, Option.some_inj]
        exact (and_iff_right hk).trans eq_comm
      · rw [if_neg hk, or_iff_right fun hentry => hk (congrArg Prod.fst hentry)]

theorem mem_entries_iff {m : OrderedMap κ ν} {k : κ} {v : ν} :
    (k, v) ∈ m.entries ↔ m.get k = some v := mem_iff_lookup m.nodup

theorem keys_setEntries (k : κ) (v : ν) (entries : List (κ × ν)) :
    (setEntries k v entries).map Prod.fst =
      if k ∈ entries.map Prod.fst then entries.map Prod.fst else entries.map Prod.fst ++ [k] := by
  induction entries with
  | nil => rfl
  | cons entry rest ih =>
      by_cases hk : entry.1 = k
      · rw [setEntries, if_pos hk, List.map_cons, List.map_cons, hk, if_pos List.mem_cons_self]
      · have hmem : k ∈ entry.1 :: rest.map Prod.fst ↔ k ∈ rest.map Prod.fst := by
          rw [List.mem_cons, or_iff_right (Ne.symm hk)]
        rw [setEntries, if_neg hk, List.map_cons, ih, List.map_cons]
        simp only [hmem]
        split
        · rfl
        · rfl

theorem setEntries_eq_map {k : κ} (v : ν) {entries : List (κ × ν)}
    (hnodup : (entries.map Prod.fst).Nodup) (hk : k ∈ entries.map Prod.fst) :
    setEntries k v entries = entries.map fun e => if e.1 = k then (k, v) else e := by
  induction entries with
  | nil => cases hk
  | cons entry rest ih =>
      obtain ⟨hnew, hrest⟩ := List.nodup_cons.mp hnodup
      by_cases hentry : entry.1 = k
      · have hsame : (rest.map fun e => if e.1 = k then (k, v) else e) = rest := by
          refine (List.map_congr_left fun e he => if_neg fun h => ?_).trans (List.map_id' rest)
          exact hnew (hentry ▸ h ▸ List.mem_map_of_mem he)
        rw [setEntries, if_pos hentry, List.map_cons, if_pos hentry, hsame]
      · have hkrest : k ∈ rest.map Prod.fst :=
          (List.mem_cons.mp hk).resolve_left (Ne.symm hentry)
        rw [setEntries, if_neg hentry, List.map_cons, if_neg hentry, ih hrest hkrest]

theorem setEntries_eq_append {k : κ} (v : ν) {entries : List (κ × ν)}
    (hk : k ∉ entries.map Prod.fst) : setEntries k v entries = entries ++ [(k, v)] := by
  induction entries with
  | nil => rfl
  | cons entry rest ih =>
      obtain ⟨hentry, hrest⟩ := not_or.mp (mt List.mem_cons.mpr hk)
      rw [setEntries, if_neg (Ne.symm hentry), ih hrest, List.cons_append]

theorem map_setEntries {ν' : Type*} {f : κ × ν → κ × ν'} (hf : ∀ e, (f e).1 = e.1) (k : κ)
    (v : ν) (entries : List (κ × ν)) :
    (setEntries k v entries).map f = setEntries k (f (k, v)).2 (entries.map f) := by
  have hnew : f (k, v) = (k, (f (k, v)).2) := Prod.ext (hf (k, v)) rfl
  induction entries with
  | nil => exact congrArg (fun e => [e]) hnew
  | cons entry rest ih =>
      by_cases hk : entry.1 = k
      · rw [setEntries, if_pos hk, List.map_cons, List.map_cons, setEntries,
          if_pos ((hf entry).trans hk), ← hnew]
      · rw [setEntries, if_neg hk, List.map_cons, List.map_cons, setEntries,
          if_neg fun h => hk ((hf entry).symm.trans h), ih]

theorem lookup_eq_none_iff {k : κ} {entries : List (κ × ν)} :
    entries.lookup k = none ↔ k ∉ entries.map Prod.fst := by
  rw [List.lookup_eq_none_iff]
  refine ⟨fun h hk => ?_, fun h e he => ?_⟩
  · obtain ⟨e, he, rfl⟩ := List.mem_map.mp hk
    exact bne_iff_ne.mp (h e he) rfl
  · exact bne_iff_ne.mpr fun hk => h (hk ▸ List.mem_map_of_mem he)

/-- Entries are known by their keys, in order, and what stands under each. -/
theorem entries_ext {l l' : List (κ × ν)} (hnodup : (l.map Prod.fst).Nodup)
    (hkeys : l.map Prod.fst = l'.map Prod.fst) (hget : ∀ k, l.lookup k = l'.lookup k) :
    l = l' := by
  induction l generalizing l' with
  | nil => exact (List.map_eq_nil_iff.mp hkeys.symm).symm
  | cons e l ih =>
      cases l' with
      | nil => cases hkeys
      | cons e' l' =>
          obtain ⟨hkey, htail⟩ := List.cons.inj hkeys
          obtain ⟨hnew, hrest⟩ := List.nodup_cons.mp hnodup
          have hvalue := hget e.1
          rw [lookup_cons, lookup_cons, if_pos rfl, if_pos hkey, Option.some_inj] at hvalue
          have hrests : ∀ k, l.lookup k = l'.lookup k := by
            intro k
            by_cases hk : k = e.1
            · rw [hk, lookup_eq_none_iff.mpr hnew, lookup_eq_none_iff.mpr (htail ▸ hnew)]
            · have hboth := hget k
              rwa [lookup_cons, lookup_cons, if_neg hk, if_neg (hkey ▸ hk)] at hboth
          rw [Prod.ext hkey hvalue, ih hrest htail hrests]

theorem lookup_filter (q : κ → Bool) (k : κ) (entries : List (κ × ν)) :
    (entries.filter fun e => q e.1).lookup k = if q k = true then entries.lookup k else none := by
  induction entries with
  | nil => simp
  | cons entry rest ih =>
      by_cases hentry : q entry.1 = true
      · rw [List.filter_cons_of_pos (p := fun e : κ × ν => q e.1) hentry, lookup_cons, lookup_cons,
          ih]
        by_cases hk : k = entry.1
        · rw [if_pos hk, if_pos hk, if_pos (hk ▸ hentry)]
        · rw [if_neg hk, if_neg hk]
      · rw [List.filter_cons_of_neg (p := fun e : κ × ν => q e.1) hentry, ih, lookup_cons]
        by_cases hk : k = entry.1
        · rw [if_neg (hk ▸ hentry), if_neg (hk ▸ hentry)]
        · rw [if_neg hk]

section Updates

variable (key : α → κ) (f : α → Option ν → ν)

/-- The updates of a list of elements, each under its key. -/
def updateAll (m : OrderedMap κ ν) (l : List α) : OrderedMap κ ν :=
  l.foldl (fun m a => m.set (key a) (f a (m.get (key a)))) m

theorem get_updateAll (m : OrderedMap κ ν) (l : List α) (k : κ) :
    (m.updateAll key f l).get k =
      (l.filter fun a => key a = k).foldl (fun v a => some (f a v)) (m.get k) := by
  induction l generalizing m with
  | nil => rfl
  | cons a l ih =>
      rw [updateAll, List.foldl_cons, ← updateAll, ih, get_set]
      by_cases hk : key a = k
      · rw [List.filter_cons_of_pos (by simpa using hk), List.foldl_cons, if_pos hk.symm, hk]
      · rw [List.filter_cons_of_neg (by simpa using hk), if_neg (Ne.symm hk)]

theorem mem_keys_updateAll {l : List α} {k : κ} :
    k ∈ ((empty : OrderedMap κ ν).updateAll key f l).keys ↔ ∃ a ∈ l, key a = k := by
  suffices hkeys : ∀ m : OrderedMap κ ν,
      k ∈ (m.updateAll key f l).keys ↔ k ∈ m.keys ∨ ∃ a ∈ l, key a = k by
    simpa [empty, keys] using hkeys empty
  intro m
  induction l generalizing m with
  | nil => simp [updateAll]
  | cons a l ih =>
      have hset : k ∈ (m.set (key a) (f a (m.get (key a)))).keys ↔ k = key a ∨ k ∈ m.keys :=
        mem_keys_setEntries
      rw [updateAll, List.foldl_cons, ← updateAll, ih, hset]
      simp only [List.mem_cons, exists_eq_or_imp, eq_comm (a := k)]
      exact or_assoc.trans or_left_comm

end Updates

end OrderedMap

end Library
