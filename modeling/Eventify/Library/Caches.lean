import Mathlib.Data.Option.Basic
import Mathlib.Logic.Function.Basic

/-!
# Caches by name

Key-value caches under names, in the order of their creation, and a look-up
through all of them in turn. What the entries are does not matter to any
operation, so they may be mapped or left out before it or after it.
-/

namespace Library

abbrev Caches (κ α : Type*) := List (String × (κ → Option α))

namespace Caches

variable {κ α β : Type*}

/-- A cache that is not there yet is created. -/
def openCache (caches : Caches κ α) (name : String) : Caches κ α :=
  if caches.any fun cache => cache.1 == name then caches else caches ++ [(name, fun _ => none)]

/-- A write into a cache that has been opened. -/
def put [DecidableEq κ] (caches : Caches κ α) (name : String) (key : κ) (a : α) : Caches κ α :=
  caches.map fun cache =>
    if cache.1 = name then (cache.1, Function.update cache.2 key (some a)) else cache

/-- The first entry of the key in any of the caches. -/
def matchKey (caches : Caches κ α) (key : κ) : Option α :=
  caches.findSome? fun cache => cache.2 key

def stored (caches : Caches κ α) (name : String) (key : κ) : Option α :=
  (caches.find? fun cache => cache.1 == name).bind fun cache => cache.2 key

/-- The entries of the keys that are meant, each mapped. -/
def view (p : κ → Bool) (f : κ → α → β) (caches : Caches κ α) : Caches κ β :=
  caches.map fun cache =>
    (cache.1, fun key => if p key then (cache.2 key).map (f key) else none)

section Stored

variable {caches : Caches κ α} {name other : String} {key : κ} {a x : α}

theorem stored_openCache (caches : Caches κ α) (name other : String) (key : κ) :
    (caches.openCache name).stored other key = caches.stored other key := by
  unfold openCache
  split
  · rfl
  · simp only [stored, List.find?_append]
    cases caches.find? fun cache => cache.1 == other with
    | some cache => rfl
    | none =>
        simp only [Option.none_or, Option.bind_none, List.find?_singleton]
        split <;> rfl

theorem find_openCache (caches : Caches κ α) (name : String) :
    ((caches.openCache name).find? fun cache => cache.1 == name).isSome = true := by
  rw [List.find?_isSome, openCache]
  split
  · rename_i hany
    simpa using hany
  · simp

theorem find_put [DecidableEq κ] (caches : Caches κ α) (name other : String) (key : κ) (a : α) :
    ((caches.put name key a).find? fun cache => cache.1 == other) =
      (caches.find? fun cache => cache.1 == other).map fun cache =>
        if cache.1 = name then (cache.1, Function.update cache.2 key (some a)) else cache := by
  have hname : ((fun cache : String × (κ → Option α) => cache.1 == other) ∘
      fun cache => if cache.1 = name then (cache.1, Function.update cache.2 key (some a))
        else cache) = fun cache => cache.1 == other := by
    funext cache
    simp only [Function.comp_apply]
    split <;> rfl
  rw [put, List.find?_map, hname]

/-- What is stored after a `put` is the new entry, or was stored before. -/
theorem stored_put [DecidableEq κ] {key' : κ}
    (h : (caches.put name key a).stored other key' = some x) :
    (other = name ∧ key' = key ∧ x = a) ∨ caches.stored other key' = some x := by
  rw [stored, find_put] at h
  rw [stored]
  cases hfind : caches.find? fun cache => cache.1 == other with
  | none => simp [hfind] at h
  | some cache =>
      have hother : cache.1 = other := by simpa using List.find?_some hfind
      simp only [hfind, Option.map_some, Option.bind_some] at h ⊢
      split at h
      · rename_i hname
        dsimp only at h
        by_cases hkey : key' = key
        · rw [hkey, Function.update_self] at h
          cases h
          exact .inl ⟨hother.symm.trans hname, hkey, rfl⟩
        · rw [Function.update_of_ne hkey] at h
          exact .inr h
      · exact .inr h

theorem stored_put_self [DecidableEq κ] (caches : Caches κ α) (name : String) (key : κ) (a : α) :
    ((caches.openCache name).put name key a).stored name key = some a := by
  obtain ⟨cache, hcache⟩ := Option.isSome_iff_exists.mp (find_openCache caches name)
  have hname : cache.1 = name := by simpa using List.find?_some hcache
  rw [stored, find_put, hcache, Option.map_some, Option.bind_some, if_pos hname]
  exact Function.update_self key (some a) cache.2

/-- A write into a cache that is there is found. -/
theorem stored_put_of_open [DecidableEq κ]
    (h : (caches.find? fun cache => cache.1 == name).isSome = true) :
    ((caches.put name key a).stored name key).isSome = true := by
  obtain ⟨cache, hcache⟩ := Option.isSome_iff_exists.mp h
  have hname : cache.1 = name := by simpa using List.find?_some hcache
  simp [stored, find_put, hcache, hname]

theorem stored_put_isSome [DecidableEq κ] {key' : κ}
    (h : (caches.stored other key').isSome = true) :
    ((caches.put name key a).stored other key').isSome = true := by
  rw [stored, find_put]
  rw [stored] at h
  cases hfind : caches.find? fun cache => cache.1 == other with
  | none => simp [hfind] at h
  | some cache =>
      simp only [hfind, Option.bind_some, Option.map_some] at h ⊢
      split
      · by_cases hkey : key' = key
        · simp [hkey]
        · simpa [Function.update_of_ne hkey] using h
      · exact h

theorem matchKey_isSome (h : (caches.stored name key).isSome = true) :
    (caches.matchKey key).isSome = true := by
  rw [stored, Option.isSome_bind] at h
  rw [matchKey, List.findSome?_isSome_iff]
  cases hfind : caches.find? fun cache => cache.1 == name with
  | none => simp [hfind] at h
  | some cache => exact ⟨cache, List.mem_of_find?_eq_some hfind, by simpa [hfind] using h⟩

end Stored

section View

variable {p : κ → Bool} {f : κ → α → β} {caches : Caches κ α}

@[simp] theorem view_openCache (caches : Caches κ α) (name : String) :
    (caches.openCache name).view p f = (caches.view p f).openCache name := by
  have hany : ((caches.view p f).any fun cache => cache.1 == name) =
      caches.any fun cache => cache.1 == name := by
    simp only [view, List.any_map, Function.comp_def]
  simp only [openCache, hany]
  split
  · rfl
  · simp [view]

/-- A write of a key that is meant shows. -/
theorem view_put [DecidableEq κ] {key : κ} (h : p key = true) (name : String) (a : α) :
    (caches.put name key a).view p f = (caches.view p f).put name key (f key a) := by
  simp only [view, put, List.map_map]
  apply List.map_congr_left
  intro cache _
  by_cases hname : cache.1 = name
  · simp only [Function.comp_apply, hname, if_true, Prod.mk.injEq, true_and]
    funext key'
    by_cases hkey : key' = key
    · subst hkey
      simp [h]
    · simp [Function.update_of_ne hkey]
  · simp [hname]

/-- A write of another key does not. -/
theorem view_put_of_not [DecidableEq κ] {key : κ} (h : p key = false) (name : String) (a : α) :
    (caches.put name key a).view p f = caches.view p f := by
  simp only [view, put, List.map_map]
  apply List.map_congr_left
  intro cache _
  by_cases hname : cache.1 = name
  · simp only [Function.comp_apply, hname, if_true, Prod.mk.injEq, true_and]
    funext key'
    by_cases hkey : key' = key
    · subst hkey
      simp [h]
    · simp [Function.update_of_ne hkey]
  · simp [hname]

theorem view_filter (caches : Caches κ α) (q : String → Bool) :
    view p f (caches.filter fun cache => q cache.1) =
      (caches.view p f).filter fun cache => q cache.1 := by
  rw [view, view, List.filter_map]
  rfl

theorem matchKey_view {key : κ} (h : p key = true) :
    (caches.view p f).matchKey key = (caches.matchKey key).map (f key) := by
  simp only [matchKey, view, List.findSome?_map, Function.comp_def, h, if_true]
  induction caches with
  | nil => rfl
  | cons cache rest ih =>
      cases hcache : cache.2 key with
      | some a => simp [hcache]
      | none => simpa [List.findSome?_cons, hcache] using ih

end View

end Caches

end Library
