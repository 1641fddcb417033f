import Mathlib.Data.Int.Interval
import Mathlib.Data.List.Induction
import Mathlib.Data.List.Pairwise
import Mathlib.Order.Interval.Finset.Nat

/-!
# Counting in windows

The first arrival after a window has ended opens the next one, and every
arrival is numbered within its window. Two arrivals of one window differ in
their number, and two windows lie at least a width apart, so what is admitted
by its number is bounded over every interval.
-/

namespace Library

/-- An arrival, the opening of its window and its number there. -/
structure Arrival where
  time : ℤ
  openedAt : ℤ
  number : ℕ
  deriving DecidableEq, Repr

variable (width : ℤ)

def Arrival.next (previous : Option Arrival) (time : ℤ) : Arrival :=
  match previous with
  | none => ⟨time, time, 1⟩
  | some last =>
      if time < last.openedAt + width then ⟨time, last.openedAt, last.number + 1⟩
      else ⟨time, time, 1⟩

/-- Times that follow past arrivals, as arrivals. -/
def arrivalsFrom (past : List Arrival) (times : List ℤ) : List Arrival :=
  times.foldl (fun past time => past ++ [Arrival.next width past.getLast? time]) past

def arrivals (times : List ℤ) : List Arrival := arrivalsFrom width [] times

/-- The later arrival is of the same window, with a higher number, or of a window
that opens a width or more later. -/
def Arrival.Before (m n : Arrival) : Prop :=
  m.time ≤ n.time ∧
    (m.openedAt = n.openedAt ∧ m.number < n.number ∨ m.openedAt + width ≤ n.openedAt)

structure Arrival.Within (m : Arrival) : Prop where
  opened : m.openedAt ≤ m.time
  open_ : m.time < m.openedAt + width
  number : 1 ≤ m.number

structure Windowed (past : List Arrival) : Prop where
  before : past.Pairwise (Arrival.Before width)
  within : ∀ m ∈ past, m.Within width

variable {width} {past : List Arrival}

@[simp] theorem arrivals_nil : arrivals width [] = [] := rfl

theorem arrivalsFrom_append (past : List Arrival) (as bs : List ℤ) :
    arrivalsFrom width past (as ++ bs) = arrivalsFrom width (arrivalsFrom width past as) bs :=
  List.foldl_append

theorem arrivalsFrom_concat (past : List Arrival) (times : List ℤ) (time : ℤ) :
    arrivalsFrom width past (times ++ [time]) = arrivalsFrom width past times ++
      [Arrival.next width (arrivalsFrom width past times).getLast? time] :=
  arrivalsFrom_append past times [time]

theorem arrivals_concat (times : List ℤ) (time : ℤ) :
    arrivals width (times ++ [time]) =
      arrivals width times ++ [Arrival.next width (arrivals width times).getLast? time] :=
  arrivalsFrom_concat [] times time

@[simp] theorem Arrival.next_time (previous : Option Arrival) (time : ℤ) :
    (Arrival.next width previous time).time = time := by
  cases previous with
  | none => rfl
  | some last =>
      simp only [Arrival.next]
      split <;> rfl

/-- An arrival after the end of the last window opens the next one. -/
theorem Arrival.next_of_ended {previous : Option Arrival} {time : ℤ}
    (h : ∀ last ∈ previous, last.openedAt + width ≤ time) :
    Arrival.next width previous time = ⟨time, time, 1⟩ := by
  cases previous with
  | none => rfl
  | some last => exact if_neg (not_lt.mpr (h last rfl))

/-- Behind arrivals in a window that has ended the next one opens its own. -/
theorem Arrival.next_of_window_ended {past new : List Arrival} {last : Arrival} {time : ℤ}
    (hsame : ∀ n ∈ new, n.openedAt = last.openedAt) (hended : last.openedAt + width ≤ time) :
    Arrival.next width ((past ++ [last]) ++ new).getLast? time = ⟨time, time, 1⟩ := by
  apply Arrival.next_of_ended
  intro m hm
  have hopened : m.openedAt = last.openedAt := by
    cases hmem : new.getLast? with
    | none =>
        rw [List.getLast?_eq_none_iff.mp hmem, List.append_nil, List.getLast?_concat] at hm
        cases hm
        rfl
    | some n =>
        rw [List.getLast?_append, hmem] at hm
        cases hm
        exact hsame _ (List.mem_of_mem_getLast? hmem)
  rw [hopened]
  exact hended

theorem arrivals_time (times : List ℤ) : (arrivals width times).map Arrival.time = times := by
  induction times using List.reverseRecOn with
  | nil => rfl
  | append_singleton times time ih =>
      rw [arrivals_concat, List.map_append, ih, List.map_singleton, Arrival.next_time]

/-- Past arrivals stay as they are. -/
theorem arrivalsFrom_split (width : ℤ) (past : List Arrival) (times : List ℤ) :
    ∃ new, arrivalsFrom width past times = past ++ new ∧ new.length = times.length := by
  induction times using List.reverseRecOn with
  | nil => exact ⟨[], by simp [arrivalsFrom], rfl⟩
  | append_singleton times time ih =>
      obtain ⟨new, hnew, hlength⟩ := ih
      refine ⟨new ++ [Arrival.next width (past ++ new).getLast? time], ?_, by simp [hlength]⟩
      rw [arrivalsFrom_concat, hnew, List.append_assoc]

/-! ### Marks in order -/

/-- A new arrival comes after all those that the last one comes after. -/
theorem Arrival.Before.next {m last : Arrival} {time : ℤ} (hwidth : 0 < width)
    (h : m = last ∨ m.Before width last) (hlast : last.time ≤ time) :
    m.Before width (Arrival.next width (some last) time) := by
  simp only [Arrival.next]
  split
  · rename_i hopen
    rcases h with rfl | ⟨htime, hwindow⟩
    · exact ⟨hlast, .inl ⟨rfl, Nat.lt_succ_self _⟩⟩
    · refine ⟨htime.trans hlast, ?_⟩
      dsimp only
      omega
  · rename_i hclosed
    rcases h with rfl | ⟨htime, hwindow⟩
    · exact ⟨hlast, .inr (not_lt.mp hclosed)⟩
    · refine ⟨htime.trans hlast, ?_⟩
      dsimp only
      omega

theorem Arrival.Within.next {last : Option Arrival} {time : ℤ} (hwidth : 0 < width)
    (h : ∀ m ∈ last, m.openedAt ≤ time) : (Arrival.next width last time).Within width := by
  have hfresh : Arrival.Within width ⟨time, time, 1⟩ :=
    ⟨le_refl time, by simpa using hwidth, le_refl 1⟩
  cases last with
  | none => exact hfresh
  | some last =>
      simp only [Arrival.next]
      split
      · rename_i hopen
        exact ⟨h last rfl, hopen, Nat.le_add_left 1 _⟩
      · exact hfresh

/-- One step: an arrival that is not earlier than the last one. -/
theorem Windowed.concat (hwidth : 0 < width) (h : Windowed width past) {time : ℤ}
    (htime : ∀ m ∈ past, m.time ≤ time) :
    Windowed width (past ++ [Arrival.next width past.getLast? time]) := by
  cases past using List.reverseRecOn with
  | nil =>
      refine ⟨by simp, ?_⟩
      intro m hm
      obtain rfl := List.mem_singleton.mp hm
      exact Arrival.Within.next hwidth (by simp)
  | append_singleton earlier last =>
      have hlast : last.time ≤ time := htime last (by simp)
      have hopened := (h.within last (by simp)).opened
      have hafter : ∀ m ∈ earlier ++ [last], m = last ∨ m.Before width last := by
        intro m hm
        rcases List.mem_append.mp hm with hm | hm
        · exact .inr ((List.pairwise_append.mp h.before).2.2 m hm last (by simp))
        · exact .inl (List.mem_singleton.mp hm)
      rw [List.getLast?_concat]
      constructor
      · refine List.pairwise_append.mpr ⟨h.before, List.pairwise_singleton _ _, ?_⟩
        intro m hm n hn
        obtain rfl := List.mem_singleton.mp hn
        exact Arrival.Before.next hwidth (hafter m hm) hlast
      · intro m hm
        rcases List.mem_append.mp hm with hm | hm
        · exact h.within m hm
        · obtain rfl := List.mem_singleton.mp hm
          apply Arrival.Within.next hwidth
          rintro m ⟨⟩
          exact hopened.trans hlast

/-- The run: arrivals in the order of time. -/
theorem windowed_arrivals (hwidth : 0 < width) {times : List ℤ} (h : times.Pairwise (· ≤ ·)) :
    Windowed width (arrivals width times) := by
  induction times using List.reverseRecOn with
  | nil => exact ⟨List.Pairwise.nil, by simp⟩
  | append_singleton times time ih =>
      obtain ⟨hsorted, -, hlast⟩ := List.pairwise_append.mp h
      rw [arrivals_concat]
      refine (ih hsorted).concat hwidth ?_
      intro m hm
      have htime : m.time ∈ (arrivals width times).map Arrival.time := List.mem_map_of_mem hm
      rw [arrivals_time] at htime
      exact hlast m.time htime time (by simp)

/-! ### What is admitted -/

/-- The arrival is one of the first `limit` of its window. -/
def Arrival.admitted (limit : ℕ) (m : Arrival) : Bool := decide (m.number ≤ limit)

theorem Windowed.openings (h : Windowed width past) :
    ∀ m ∈ past, ∀ n ∈ past, m.openedAt = n.openedAt ∨ m.openedAt + width ≤ n.openedAt ∨
      n.openedAt + width ≤ m.openedAt := by
  intro m hm n hn
  have happart : past.Pairwise fun m n => m.openedAt = n.openedAt ∨
      m.openedAt + width ≤ n.openedAt ∨ n.openedAt + width ≤ m.openedAt := by
    refine h.before.imp ?_
    rintro m n ⟨-, hsame | hlater⟩
    · exact .inl hsame.1
    · exact .inr (.inl hlater)
  have hboth := happart.forall_of_forall_of_flip (fun m _ => .inl rfl)
    (happart.imp fun {m n} hmn => by
      simp only [flip]
      omega)
  exact hboth hm hn

/-- One window admits at most the limit: the numbers of its arrivals rise. -/
theorem Windowed.countP_window_le (hwidth : 0 < width) (h : Windowed width past) (limit : ℕ)
    (openedAt : ℤ) :
    past.countP (fun m => decide (m.openedAt = openedAt) && m.admitted limit) ≤ limit := by
  rw [List.countP_eq_length_filter, ← List.length_map Arrival.number]
  set admitted := past.filter fun m => decide (m.openedAt = openedAt) && m.admitted limit
  have hmem : ∀ m ∈ admitted, m ∈ past ∧ m.openedAt = openedAt ∧ m.number ≤ limit := by
    intro m hm
    simpa [admitted, Arrival.admitted] using hm
  have hrising : (admitted.map Arrival.number).Pairwise (· < ·) := by
    refine List.pairwise_map.mpr ((h.before.filter _).imp_of_mem ?_)
    rintro m n hm hn ⟨-, hsame | hlater⟩
    · exact hsame.2
    · have hopened := (hmem m hm).2.1.trans (hmem n hn).2.1.symm
      omega
  have hbounds : (admitted.map Arrival.number).toFinset ⊆ Finset.Icc 1 limit := by
    intro number hnumber
    obtain ⟨m, hm, rfl⟩ := List.mem_map.mp (List.mem_toFinset.mp hnumber)
    exact Finset.mem_Icc.mpr ⟨(h.within m (hmem m hm).1).number, (hmem m hm).2.2⟩
  have hcard := Finset.card_le_card hbounds
  rw [List.toFinset_card_of_nodup (hrising.imp fun hlt => hlt.ne)] at hcard
  simpa using hcard

/-- The time from a window's opening to its end holds no other window's arrivals. -/
theorem Windowed.countP_span_le (hwidth : 0 < width) (h : Windowed width past) (limit : ℕ)
    {first : Arrival} (hfirst : first ∈ past) :
    past.countP (fun m => decide (first.openedAt ≤ m.time) &&
      decide (m.time < first.openedAt + width) && m.admitted limit) ≤ limit := by
  refine (List.countP_mono_left ?_).trans (h.countP_window_le hwidth limit first.openedAt)
  intro m hm hin
  simp only [Bool.and_eq_true, decide_eq_true_eq] at hin ⊢
  obtain ⟨⟨hstart, hend⟩, hadmitted⟩ := hin
  have hopened := (h.within m hm).opened
  have hopen := (h.within m hm).open_
  rcases h.openings first hfirst m hm with hsame | hlater | hearlier
  · exact ⟨hsame.symm, hadmitted⟩
  · omega
  · omega

theorem countP_le_add_of_imp {α : Type*} {p q r : α → Bool} {l : List α}
    (h : ∀ a ∈ l, p a = true → q a = true ∨ r a = true) :
    l.countP p ≤ l.countP q + l.countP r := by
  induction l with
  | nil => simp
  | cons a l ih =>
      have hrest := ih fun b hb => h b (List.mem_cons_of_mem a hb)
      have hfirst := h a (by simp)
      simp only [List.countP_cons]
      cases hp : p a with
      | false =>
          simp only [Bool.false_eq_true, if_false]
          omega
      | true =>
          rcases hfirst hp with hq | hr
          · simp only [hq, if_true]
            omega
          · simp only [hr, if_true]
            omega

/-- An interval of one width meets two windows at most. -/
theorem Windowed.countP_interval_le (hwidth : 0 < width) (h : Windowed width past) (limit : ℕ)
    (start : ℤ) :
    past.countP (fun m =>
      decide (start ≤ m.time) && decide (m.time < start + width) && m.admitted limit) ≤
      2 * limit := by
  set inside := fun m : Arrival => decide (start ≤ m.time) && decide (m.time < start + width) &&
    m.admitted limit
  have hinside : ∀ m, inside m = true →
      start ≤ m.time ∧ m.time < start + width ∧ m.admitted limit = true := by
    intro m hm
    simpa [inside, and_assoc] using hm
  -- two openings that leave no room for a third one
  obtain ⟨first, second, hcover⟩ : ∃ first second, ∀ m ∈ past, inside m = true →
      m.openedAt = first ∨ m.openedAt = second := by
    by_cases hnone : ∀ m ∈ past, inside m = false
    · refine ⟨0, 0, fun m hm htrue => ?_⟩
      rw [hnone m hm] at htrue
      cases htrue
    · push Not at hnone
      obtain ⟨a, ha, hain⟩ := hnone
      by_cases hone : ∀ m ∈ past, inside m = true → m.openedAt = a.openedAt
      · exact ⟨a.openedAt, a.openedAt, fun m hm htrue => .inl (hone m hm htrue)⟩
      · push Not at hone
        obtain ⟨b, hb, hbin, hne⟩ := hone
        refine ⟨a.openedAt, b.openedAt, fun m hm htrue => ?_⟩
        obtain ⟨hastart, haend, -⟩ := hinside a (by simpa using hain)
        obtain ⟨hbstart, hbend, -⟩ := hinside b hbin
        obtain ⟨hmstart, hmend, -⟩ := hinside m htrue
        have hawithin := h.within a ha
        have hbwithin := h.within b hb
        have hmwithin := h.within m hm
        have hab := h.openings a ha b hb
        have ham := h.openings a ha m hm
        have hbm := h.openings b hb m hm
        have h1 := hawithin.opened
        have h2 := hawithin.open_
        have h3 := hbwithin.opened
        have h4 := hbwithin.open_
        have h5 := hmwithin.opened
        have h6 := hmwithin.open_
        omega
  have hsplit : past.countP inside ≤
      past.countP (fun m => decide (m.openedAt = first) && m.admitted limit) +
        past.countP (fun m => decide (m.openedAt = second) && m.admitted limit) := by
    apply countP_le_add_of_imp
    intro m hm htrue
    have hadmitted := (hinside m htrue).2.2
    simpa [hadmitted] using hcover m hm htrue
  have hfirst := h.countP_window_le hwidth limit first
  have hsecond := h.countP_window_le hwidth limit second
  omega

/-! ### While a window is open -/

/-- Later arrivals before the window's end are of the window. -/
theorem Windowed.of_open {new : List Arrival} {m n : Arrival} (h : Windowed width (past ++ new))
    (hm : m ∈ past) (hn : n ∈ new) (htime : n.time < m.openedAt + width) :
    n.openedAt = m.openedAt ∧ m.number < n.number := by
  obtain ⟨-, hsame | hlater⟩ := (List.pairwise_append.mp h.before).2.2 m hm n hn
  · exact ⟨hsame.1.symm, hsame.2⟩
  · have hopened := (h.within n (List.mem_append_right _ hn)).opened
    omega

/-- The arrivals before the end of the last arrival's window: of these, as many
are admitted as the limit leaves. -/
theorem arrivalsFrom_open (limit : ℕ) {last : Arrival} {times : List ℤ}
    (h : ∀ time ∈ times, time < last.openedAt + width) :
    ∃ new, arrivalsFrom width (past ++ [last]) times = past ++ [last] ++ new ∧
      new.countP (Arrival.admitted limit) = min (limit - last.number) times.length ∧
      ∀ n ∈ new, n.openedAt = last.openedAt := by
  induction times generalizing past last with
  | nil => exact ⟨[], by simp [arrivalsFrom], by simp, by simp⟩
  | cons time times ih =>
      obtain ⟨htime, hrest⟩ := List.forall_mem_cons.mp h
      set arrival : Arrival := ⟨time, last.openedAt, last.number + 1⟩
      have hnext : Arrival.next width (past ++ [last]).getLast? time = arrival := by
        rw [List.getLast?_concat]
        exact if_pos htime
      obtain ⟨new, hnew, hcount, hopened⟩ : ∃ new,
          arrivalsFrom width (past ++ [last] ++ [arrival]) times =
              past ++ [last] ++ [arrival] ++ new ∧
            new.countP (Arrival.admitted limit) = min (limit - arrival.number) times.length ∧
            ∀ n ∈ new, n.openedAt = last.openedAt := ih hrest
      refine ⟨arrival :: new, ?_, ?_, ?_⟩
      · rw [arrivalsFrom, List.foldl_cons, hnext]
        rw [arrivalsFrom] at hnew
        rw [hnew]
        simp
      · have hadmitted : arrival.admitted limit = decide (last.number + 1 ≤ limit) := rfl
        have hnumber : arrival.number = last.number + 1 := rfl
        rw [List.countP_cons, hcount, List.length_cons, hadmitted, hnumber]
        by_cases hroom : last.number + 1 ≤ limit
        · simp only [hroom, decide_true, if_true]
          omega
        · simp only [hroom, decide_false, Bool.false_eq_true, if_false]
          omega
      · exact List.forall_mem_cons.mpr ⟨rfl, hopened⟩

end Library
