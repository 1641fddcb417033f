import Eventify.Library.Machine
import Mathlib.Algebra.BigOperators.Group.Finset.Piecewise

/-!
# Accounts of calls

Each call of a system keeps an account of its own. What the steps of a run have
recorded in one common counter is then the sum of these accounts, whoever took
turns with whom, up to what was recorded to no account.
-/

namespace Library

variable {σ α ι γ : Type*} [DecidableEq ι]

/-- The account of a call; one that has not begun owes nothing. -/
def account (weight : γ → ℕ) (slot : Option γ) : ℕ := slot.elim 0 weight

@[simp] theorem account_none (weight : γ → ℕ) : account weight none = 0 := rfl

@[simp] theorem account_some (weight : γ → ℕ) (call : γ) :
    account weight (some call) = weight call := rfl

/-- A step records `gain` in the counter, `loss` of it to no account, and the
rest to the account of the one call that moves. -/
inductive Booked (weight : γ → ℕ) (calls calls' : ι → Option γ) (gain loss : ℕ) : Prop
  | apart (hcalls : calls' = calls) (hgain : gain = loss) : Booked weight calls calls' gain loss
  | moved {c : ι} {new : γ} (hcalls : calls' = Function.update calls c (some new))
      (hgain : account weight (calls c) + gain = weight new + loss) :
      Booked weight calls calls' gain loss

theorem sum_account_update (weight : γ → ℕ) (calls : ι → Option γ) (ids : Finset ι) {c : ι}
    (hids : ∀ d, d ∈ ids ↔ (calls d).isSome) (new : γ) :
    (∑ d ∈ insert c ids, account weight (Function.update calls c (some new) d)) +
        account weight (calls c) =
      (∑ d ∈ ids, account weight (calls d)) + weight new := by
  have hothers : ∀ d ∈ ids.erase c, account weight (Function.update calls c (some new) d) =
      account weight (calls d) := by
    intro d hd
    rw [Function.update_of_ne (Finset.ne_of_mem_erase hd)]
  have hsplit : ∑ d ∈ ids, account weight (calls d) =
      (∑ d ∈ ids.erase c, account weight (calls d)) + account weight (calls c) := by
    by_cases hc : c ∈ ids
    · rw [Finset.sum_erase_add _ _ hc]
    · have hnone : calls c = none := by simpa [hids] using hc
      rw [Finset.erase_eq_of_notMem hc, hnone, account_none, Nat.add_zero]
  rw [← Finset.sum_erase_add _ _ (Finset.mem_insert_self c ids), Finset.erase_insert_eq_erase,
    Function.update_self, account_some, Finset.sum_congr rfl hothers, hsplit]
  omega

/-- The counter of a run is the sum of the accounts of its calls. -/
theorem tally_accounts {step : σ → α → Option σ} {I : σ → Prop} {calls : σ → ι → Option γ}
    {weight : γ → ℕ} {gain loss : σ → α → σ → ℕ}
    (hinv : ∀ s a t, I s → step s a = some t → I t)
    (hstep : ∀ s a t, I s → step s a = some t →
      Booked weight (calls s) (calls t) (gain s a t) (loss s a t))
    {s t : σ} {as : List α} (hs : I s) (hstart : ∀ c, calls s c = none)
    (h : exec step s as = some t) {ids : Finset ι} (hids : ∀ c, c ∈ ids ↔ (calls t c).isSome) :
    tally step gain s as = (∑ c ∈ ids, account weight (calls t c)) + tally step loss s as := by
  -- the sum of all accounts is a level that gains and losses move
  suffices hall : ∀ first : Finset ι, (∀ c, c ∈ first ↔ (calls s c).isSome) →
      (∑ c ∈ first, account weight (calls s c)) + tally step gain s as =
        (∑ c ∈ ids, account weight (calls t c)) + tally step loss s as by
    simpa using hall ∅ fun c => by simp [hstart]
  clear hstart
  induction as generalizing s with
  | nil =>
      intro first hfirst
      obtain rfl := Option.some.inj h
      obtain rfl : first = ids := Finset.ext fun c => by rw [hfirst, hids]
      simp [tally]
  | cons a as ih =>
      intro first hfirst
      obtain ⟨u, hu, ht⟩ := exec_cons_iff.mp h
      have hrest := ih (hinv s a u hs hu) ht
      simp only [tally, hu]
      cases hstep s a u hs hu with
      | apart hcalls hgain =>
          have hnext := hrest first (by rw [hcalls]; exact hfirst)
          rw [hcalls] at hnext
          omega
      | @moved c new hcalls hgain =>
          have hmembers : ∀ d, d ∈ insert c first ↔ (calls u d).isSome := by
            intro d
            rw [hcalls, Finset.mem_insert, hfirst]
            by_cases hd : d = c <;> simp [hd]
          have hnext := hrest (insert c first) hmembers
          rw [hcalls] at hnext
          have hsum := sum_account_update weight (calls s) first (c := c) hfirst new
          omega

@[simp] theorem tally_zero (step : σ → α → Option σ) (s : σ) (as : List α) :
    tally step (fun _ _ _ => 0) s as = 0 := by
  induction as generalizing s with
  | nil => rfl
  | cons a as ih =>
      unfold tally
      split
      · rfl
      · rw [ih]

/-- A counter to which every call adds one at most counts calls. -/
theorem tally_calls {step : σ → α → Option σ} {I : σ → Prop} {calls : σ → ι → Option γ}
    {p : γ → Bool} {gain loss : σ → α → σ → ℕ}
    (hinv : ∀ s a t, I s → step s a = some t → I t)
    (hstep : ∀ s a t, I s → step s a = some t →
      Booked (fun call => (p call).toNat) (calls s) (calls t) (gain s a t) (loss s a t))
    {s t : σ} {as : List α} (hs : I s) (hstart : ∀ c, calls s c = none)
    (h : exec step s as = some t) {ids : Finset ι} (hids : ∀ c, c ∈ ids ↔ (calls t c).isSome) :
    tally step gain s as = (ids.filter fun c => (calls t c).any p).card + tally step loss s as := by
  rw [tally_accounts hinv hstep hs hstart h hids, Finset.card_filter]
  congr 1
  refine Finset.sum_congr rfl fun c _ => ?_
  cases hcall : calls t c with
  | none => rfl
  | some call => cases hp : p call <;> simp [hp]

end Library
