import Mathlib.Data.List.Basic
import Mathlib.Logic.Function.Basic

/-!
# Texts written word by word

A code writes each symbol as a word, and the words of a list one after the
other. A reader that takes a word off the front of any text reads such a text
as a fold over the symbols, whatever stands behind it.
-/

namespace Library

variable {α β γ : Type*} {code : α → List β}

theorem read_flatMap {read : List β → γ} {push : α → γ → γ}
    (hread : ∀ a rest, read (code a ++ rest) = push a (read rest)) (s : List α) (rest : List β) :
    read (s.flatMap code ++ rest) = s.foldr push (read rest) := by
  induction s with
  | nil => rfl
  | cons a s ih => rw [List.flatMap_cons, List.append_assoc, hread, ih, List.foldr_cons]

theorem decode_flatMap {decode : List β → List α} (hnil : decode [] = [])
    (hcons : ∀ a rest, decode (code a ++ rest) = a :: decode rest) (s : List α) :
    decode (s.flatMap code) = s := by
  have hfold := read_flatMap hcons s []
  rw [List.append_nil, hnil] at hfold
  exact hfold.trans List.foldr_cons_nil

/-- Words without marked letters: a text of words has none either. -/
theorem flatMap_all {p : β → Bool} (hcode : ∀ a, (code a).all p = true) (s : List α) :
    (s.flatMap code).all p = true := by
  rw [List.all_flatMap]
  exact List.all_eq_true.mpr fun a _ => hcode a

/-! ### Natural numbers in decimal -/

theorem isDigit_of_mem_toString {n : ℕ} {c : Char} (hc : c ∈ (toString n).toList) :
    c.isDigit = true := by
  rw [Nat.toString_eq_ofList_toDigits, String.toList_ofList] at hc
  exact Nat.isDigit_of_mem_toDigits (by decide) (by decide) hc

theorem toString_inj {m n : ℕ} (h : toString m = toString n) : m = n := by
  rw [Nat.toString_eq_ofList_toDigits, Nat.toString_eq_ofList_toDigits] at h
  have hnumber := congrArg (fun digits => Nat.ofDigitChars 10 digits 0) (String.ofList_injective h)
  simpa using hnumber

end Library
