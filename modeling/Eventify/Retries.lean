import Eventify.Library.Machine
import Eventify.Serialization
import Mathlib.Data.Fintype.Card
import Mathlib.Algebra.Order.BigOperators.Group.Finset

/-!
# Concurrent calls of the retry loop

`withSerializationRetry` for any number of concurrent calls and any budget of
attempts. A conflict is charged to a commit of another call that it overlaps;
since no call commits twice, a call runs out of commits to lose against
before it runs out of attempts.
-/

namespace Eventify

open Library

/-- The `catch` block for any `maxAttempts`. -/
def retriesWithin (maxAttempts attempt : ℕ) (error : Failure) : Bool :=
  !(!isSerializationConflict error || attempt == maxAttempts)

theorem retries_eq_retriesWithin : retries = retriesWithin maxAttempts := rfl

/-- `exponential + jitter`, in milliseconds. -/
def backoff (attempt jitter : ℕ) : ℕ := min (25 * 2 ^ (attempt - 1)) 400 + jitter

inductive RetryStage (τ : Type) where
  | next (attempt : ℕ)
  /-- `work` runs; `since` commits had been made when it was called. -/
  | working (attempt since : ℕ)
  | sleeping (attempt delay : ℕ)
  | settled (outcome : Except Failure τ)

/-- `n` calls over one database. `commits` names the calls that committed, in
their order, and `outcomes` what each attempt of a call came to. -/
structure Retrying (n : ℕ) (σ τ : Type) where
  stage : Fin n → RetryStage τ
  db : σ
  commits : List (Fin n)
  outcomes : Fin n → List (Except Failure τ)

inductive RetryAction (n : ℕ) (τ : Type) where
  | start (c : Fin n)
  | commit (c : Fin n)
  | finish (c : Fin n) (outcome : Except Failure τ) (jitter : Fin 25)
  | wake (c : Fin n)

namespace RetryAction

def call {n : ℕ} {τ : Type} : RetryAction n τ → Fin n
  | start c => c
  | commit c => c
  | finish c _ _ => c
  | wake c => c

end RetryAction

namespace Retrying

variable {n : ℕ} {σ τ : Type}

def init (db : σ) : Retrying n σ τ := ⟨fun _ => .next 1, db, [], fun _ => []⟩

def move (s : Retrying n σ τ) (c : Fin n) (stage : RetryStage τ) : Retrying n σ τ :=
  { s with stage := Function.update s.stage c stage }

/-- An attempt of `c` ends, and the call goes on as `stage` says. -/
def attempted (s : Retrying n σ τ) (c : Fin n) (outcome : Except Failure τ)
    (stage : RetryStage τ) : Retrying n σ τ :=
  { s.move c stage with outcomes := Function.update s.outcomes c (s.outcomes c ++ [outcome]) }

def committed (s : Retrying n σ τ) (effect : Fin n → σ → σ) (c : Fin n) : Retrying n σ τ :=
  { s with db := effect c s.db, commits := s.commits ++ [c] }

end Retrying

section Step

variable {n : ℕ} {σ τ : Type} (maxAttempts : ℕ) (effect : Fin n → σ → σ)

/-- One step of one call. `work` resolves only after its transaction has
committed; what it throws is up to the environment. -/
def retryStep (s : Retrying n σ τ) : RetryAction n τ → Option (Retrying n σ τ)
  | .start c =>
      match s.stage c with
      | .next attempt =>
          if attempt ≤ maxAttempts then some (s.move c (.working attempt s.commits.length))
          else none
      | _ => none
  | .commit c =>
      match s.stage c with
      | .working _ _ => some (s.committed effect c)
      | _ => none
  | .finish c (.ok result) _ =>
      match s.stage c with
      | .working _ since =>
          if c ∈ s.commits.drop since then
            some (s.attempted c (.ok result) (.settled (.ok result)))
          else none
      | _ => none
  | .finish c (.error error) jitter =>
      match s.stage c with
      | .working attempt _ =>
          if retriesWithin maxAttempts attempt error then
            some (s.attempted c (.error error) (.sleeping attempt (backoff attempt jitter)))
          else some (s.attempted c (.error error) (.settled (.error error)))
      | _ => none
  | .wake c =>
      match s.stage c with
      | .sleeping attempt _ => some (s.move c (.next (attempt + 1)))
      | _ => none

end Step

/-- During the attempt of `c` another call has committed, and `c` has not. -/
def Overlapped {n : ℕ} {τ : Type} (commits : List (Fin n)) (c : Fin n) : RetryStage τ → Prop
  | .working _ since => c ∉ commits.drop since ∧ ∃ d ∈ commits.drop since, d ≠ c
  | _ => True

instance {n : ℕ} {τ : Type} (commits : List (Fin n)) (c : Fin n) :
    DecidablePred (Overlapped commits c : RetryStage τ → Prop)
  | .working _ since =>
      inferInstanceAs (Decidable (c ∉ commits.drop since ∧ ∃ d ∈ commits.drop since, d ≠ c))
  | .next _ | .sleeping _ _ | .settled _ => .isTrue trivial

/-- No call commits twice, and a conflict ends an overlapped attempt. -/
def Scheduled {n : ℕ} {σ τ : Type} (s : Retrying n σ τ) : RetryAction n τ → Prop
  | .commit c => c ∉ s.commits
  | .finish c (.error error) _ =>
      isSerializationConflict error = true → Overlapped s.commits c (s.stage c)
  | _ => True

instance {n : ℕ} {σ τ : Type} (s : Retrying n σ τ) : DecidablePred (Scheduled s)
  | .commit c => inferInstanceAs (Decidable (c ∉ s.commits))
  | .finish c (.error error) _ =>
      inferInstanceAs (Decidable
        (isSerializationConflict error = true → Overlapped s.commits c (s.stage c)))
  | .start _ | .finish _ (.ok _) _ | .wake _ => .isTrue trivial

theorem Scheduled.overlaps {n : ℕ} {σ τ : Type} {s : Retrying n σ τ} {c : Fin n}
    {error : Failure} {jitter : Fin 25} {attempt since : ℕ}
    (h : Scheduled s (.finish c (.error error) jitter))
    (hconflict : isSerializationConflict error = true)
    (hstage : s.stage c = .working attempt since) :
    c ∉ s.commits.drop since ∧ ∃ d ∈ s.commits.drop since, d ≠ c := by
  have hoverlap := h hconflict
  rwa [hstage] at hoverlap

/-- The steps of `retryStep`, one constructor for each way a call goes on. -/
inductive RetryMove {n : ℕ} {σ τ : Type} (maxAttempts : ℕ) (effect : Fin n → σ → σ)
    (s : Retrying n σ τ) : RetryAction n τ → Retrying n σ τ → Prop
  | start {c attempt} (hstage : s.stage c = .next attempt) (hleft : attempt ≤ maxAttempts) :
      RetryMove maxAttempts effect s (.start c) (s.move c (.working attempt s.commits.length))
  | commit {c attempt since} (hstage : s.stage c = .working attempt since) :
      RetryMove maxAttempts effect s (.commit c) (s.committed effect c)
  | returned {c attempt since result jitter} (hstage : s.stage c = .working attempt since)
      (hcommitted : c ∈ s.commits.drop since) :
      RetryMove maxAttempts effect s (.finish c (.ok result) jitter)
        (s.attempted c (.ok result) (.settled (.ok result)))
  | retried {c attempt since error jitter} (hstage : s.stage c = .working attempt since)
      (hretries : retriesWithin maxAttempts attempt error = true) :
      RetryMove maxAttempts effect s (.finish c (.error error) jitter)
        (s.attempted c (.error error) (.sleeping attempt (backoff attempt jitter)))
  | threw {c attempt since error jitter} (hstage : s.stage c = .working attempt since)
      (hretries : retriesWithin maxAttempts attempt error = false) :
      RetryMove maxAttempts effect s (.finish c (.error error) jitter)
        (s.attempted c (.error error) (.settled (.error error)))
  | wake {c attempt delay} (hstage : s.stage c = .sleeping attempt delay) :
      RetryMove maxAttempts effect s (.wake c) (s.move c (.next (attempt + 1)))

section Moves

variable {n m : ℕ} {σ τ : Type} {effect : Fin n → σ → σ} {s t : Retrying n σ τ}
  {a : RetryAction n τ} {c : Fin n}

theorem retryStep_moves (h : retryStep m effect s a = some t) : RetryMove m effect s a t := by
  unfold retryStep at h
  split at h
  · split at h
    next hstage =>
      split at h
      next hleft =>
        cases h
        exact .start hstage hleft
      · cases h
    · cases h
  · split at h
    next hstage =>
      cases h
      exact .commit hstage
    · cases h
  · split at h
    next hstage =>
      split at h
      next hcommitted =>
        cases h
        exact .returned hstage hcommitted
      · cases h
    · cases h
  · split at h
    next hstage =>
      split at h
      next hretries =>
        cases h
        exact .retried hstage hretries
      next hretries =>
        cases h
        exact .threw hstage (Bool.eq_false_iff.mpr hretries)
    · cases h
  · split at h
    next hstage =>
      cases h
      exact .wake hstage
    · cases h

end Moves

/-! ### Charging conflicts to commits -/

def isConflict {τ : Type} : Except Failure τ → Bool
  | .ok _ => false
  | .error error => isSerializationConflict error

def commitsOfOthers {n : ℕ} (c : Fin n) (commits : List (Fin n)) : ℕ :=
  commits.countP fun d => d != c

theorem commitsOfOthers_lt {n : ℕ} (c : Fin n) {commits : List (Fin n)} (h : commits.Nodup) :
    commitsOfOthers c commits < n := by
  have hnodup : (commits.filter fun d => d != c).Nodup := h.filter _
  have hsub : (commits.filter fun d => d != c).toFinset ⊆ Finset.univ.erase c := by
    intro d hd
    simpa using (List.mem_filter.mp (List.mem_toFinset.mp hd)).2
  have hcard := Finset.card_le_card hsub
  rw [List.toFinset_card_of_nodup hnodup, Finset.card_erase_of_mem (Finset.mem_univ c),
    Finset.card_fin] at hcard
  rw [commitsOfOthers, List.countP_eq_length_filter]
  have hpos := c.pos
  omega

theorem commitsOfOthers_append {n : ℕ} (c : Fin n) (front back : List (Fin n)) :
    commitsOfOthers c (front ++ back) = commitsOfOthers c front + commitsOfOthers c back :=
  List.countP_append

/-- Where a call stands: what it has been through are conflicts, one commit of
another call paid for each, and it has not committed before this attempt. -/
inductive Charged {n : ℕ} {τ : Type} (maxAttempts : ℕ) (commits : List (Fin n)) (c : Fin n) :
    List (Except Failure τ) → RetryStage τ → Prop
  | next {outcomes} (hconflicts : ∀ outcome ∈ outcomes, isConflict outcome = true)
      (hpaid : outcomes.length ≤ commitsOfOthers c commits) (hfree : c ∉ commits) :
      Charged maxAttempts commits c outcomes (.next (outcomes.length + 1))
  | working {outcomes since} (hconflicts : ∀ outcome ∈ outcomes, isConflict outcome = true)
      (hsince : since ≤ commits.length) (hleft : outcomes.length + 1 ≤ maxAttempts)
      (hpaid : outcomes.length ≤ commitsOfOthers c (commits.take since))
      (hfree : c ∉ commits.take since) :
      Charged maxAttempts commits c outcomes (.working (outcomes.length + 1) since)
  | sleeping {outcomes delay} (hconflicts : ∀ outcome ∈ outcomes, isConflict outcome = true)
      (hpaid : outcomes.length ≤ commitsOfOthers c commits) (hfree : c ∉ commits) :
      Charged maxAttempts commits c outcomes (.sleeping outcomes.length delay)
  | settled {outcomes earlier outcome} (houtcomes : outcomes = earlier ++ [outcome])
      (hconflicts : ∀ outcome ∈ earlier, isConflict outcome = true)
      (hlast : isConflict outcome = false) (hleft : earlier.length + 1 ≤ maxAttempts)
      (hreturned : ∀ result, outcome = .ok result → c ∈ commits) :
      Charged maxAttempts commits c outcomes (.settled outcome)

structure Accounted {n : ℕ} {σ τ : Type} (maxAttempts : ℕ) (s : Retrying n σ τ) : Prop where
  once : s.commits.Nodup
  charged : ∀ c, Charged maxAttempts s.commits c (s.outcomes c) (s.stage c)

section Invariant

variable {n m : ℕ} {σ τ : Type} {effect : Fin n → σ → σ} {s t : Retrying n σ τ}
  {a : RetryAction n τ} {c d : Fin n} {commits : List (Fin n)}
  {outcomes : List (Except Failure τ)} {stage : RetryStage τ}

theorem Accounted.init (db : σ) : Accounted m (.init db : Retrying n σ τ) := by
  constructor
  · exact List.nodup_nil
  · intro c
    have hnone : ∀ outcome ∈ ([] : List (Except Failure τ)), isConflict outcome = true := by simp
    exact .next hnone (Nat.zero_le _) List.not_mem_nil

theorem Accounted.charged_at (hs : Accounted m s) (hstage : s.stage c = stage) :
    Charged m s.commits c (s.outcomes c) stage :=
  hstage ▸ hs.charged c

/-- What was paid before an attempt is not paid with later commits, its own included. -/
theorem Charged.working_append {attempt since : ℕ}
    (h : Charged m commits c outcomes (.working attempt since)) (d : Fin n) :
    Charged m (commits ++ [d]) c outcomes (.working attempt since) := by
  cases h with
  | working hconflicts hsince hleft hpaid hfree =>
      have htake : (commits ++ [d]).take since = commits.take since :=
        List.take_append_of_le_length hsince
      apply Charged.working hconflicts _ hleft
      · rwa [htake]
      · rwa [htake]
      · rw [List.length_append]
        omega

/-- A commit of another call leaves a call where it stands. -/
theorem Charged.append (h : Charged m commits c outcomes stage) (hd : d ≠ c) :
    Charged m (commits ++ [d]) c outcomes stage := by
  have hgrows : commitsOfOthers c commits ≤ commitsOfOthers c (commits ++ [d]) := by
    rw [commitsOfOthers_append]
    exact Nat.le_add_right _ _
  have hnew : c ∉ commits → c ∉ commits ++ [d] := by
    intro hfree
    simpa [hfree] using hd.symm
  cases h with
  | next hconflicts hpaid hfree => exact .next hconflicts (hpaid.trans hgrows) (hnew hfree)
  | working hconflicts hsince hleft hpaid hfree =>
      exact (Charged.working hconflicts hsince hleft hpaid hfree).working_append d
  | sleeping hconflicts hpaid hfree => exact .sleeping hconflicts (hpaid.trans hgrows) (hnew hfree)
  | settled houtcomes hconflicts hlast hleft hreturned =>
      refine .settled houtcomes hconflicts hlast hleft fun result hok => ?_
      exact List.mem_append_left _ (hreturned result hok)

theorem Accounted.move (hs : Accounted m s) (hnew : Charged m s.commits c (s.outcomes c) stage) :
    Accounted m (s.move c stage) := by
  refine ⟨hs.once, fun d => ?_⟩
  by_cases hd : d = c
  · subst hd
    simpa [Retrying.move] using hnew
  · simpa [Retrying.move, hd] using hs.charged d

theorem Accounted.attempted {outcome : Except Failure τ} (hs : Accounted m s)
    (hnew : Charged m s.commits c (s.outcomes c ++ [outcome]) stage) :
    Accounted m (s.attempted c outcome stage) := by
  refine ⟨hs.once, fun d => ?_⟩
  by_cases hd : d = c
  · subst hd
    simpa [Retrying.attempted, Retrying.move] using hnew
  · simpa [Retrying.attempted, Retrying.move, hd] using hs.charged d

/-- The charge for a conflict: the call has not committed, and the other calls
have committed once more than it has lost before. -/
theorem conflict_charged {since : ℕ}
    (hpaid : outcomes.length ≤ commitsOfOthers c (commits.take since))
    (hfree : c ∉ commits.take since) (hnone : c ∉ commits.drop since)
    (hother : ∃ d ∈ commits.drop since, d ≠ c) :
    outcomes.length + 1 ≤ commitsOfOthers c commits ∧ c ∉ commits := by
  obtain ⟨d, hd, hne⟩ := hother
  have hone : 0 < commitsOfOthers c (commits.drop since) :=
    List.countP_pos_iff.mpr ⟨d, hd, by simpa using hne⟩
  have hsplit := commitsOfOthers_append c (commits.take since) (commits.drop since)
  rw [List.take_append_drop] at hsplit
  constructor
  · omega
  · intro hmem
    rw [← List.take_append_drop since commits] at hmem
    rcases List.mem_append.mp hmem with hbefore | hafter
    · exact hfree hbefore
    · exact hnone hafter

theorem retriesWithin_iff {attempt : ℕ} {error : Failure} :
    retriesWithin m attempt error = true ↔ isSerializationConflict error = true ∧ attempt ≠ m := by
  simp [retriesWithin]

theorem Accounted.step (hn : n ≤ m) (hs : Accounted m s) (hgood : Scheduled s a)
    (h : retryStep m effect s a = some t) : Accounted m t := by
  cases retryStep_moves h with
  | @start c attempt hstage hleft =>
      apply hs.move
      cases hs.charged_at hstage with
      | next hconflicts hpaid hfree =>
          apply Charged.working hconflicts le_rfl hleft
          · rwa [List.take_length]
          · rwa [List.take_length]
  | @commit c attempt since hstage =>
      have hfree : c ∉ s.commits := hgood
      constructor
      · apply List.nodup_append.mpr
        refine ⟨hs.once, List.nodup_singleton c, ?_⟩
        rintro d hd e he rfl
        obtain rfl := List.mem_singleton.mp he
        exact hfree hd
      · intro d
        by_cases hd : d = c
        · subst hd
          have hcharged := hs.charged d
          simp only [Retrying.committed]
          rw [hstage] at hcharged ⊢
          exact hcharged.working_append d
        · exact (hs.charged d).append (Ne.symm hd)
  | @returned c attempt since result jitter hstage hcommitted =>
      apply hs.attempted
      cases hs.charged_at hstage with
      | working hconflicts hsince hleft hpaid hfree =>
          exact .settled rfl hconflicts rfl hleft fun _ _ => List.mem_of_mem_drop hcommitted
  | @retried c attempt since error jitter hstage hretries =>
      obtain ⟨hconflict, -⟩ := retriesWithin_iff.mp hretries
      obtain ⟨hnone, hother⟩ := Scheduled.overlaps hgood hconflict hstage
      apply hs.attempted
      cases hs.charged_at hstage with
      | working hconflicts hsince hleft hpaid hfree =>
          obtain ⟨hcharge, hfree⟩ := conflict_charged hpaid hfree hnone hother
          have hlength : (s.outcomes c ++ [Except.error error]).length =
              (s.outcomes c).length + 1 := by simp
          rw [← hlength] at hcharge ⊢
          apply Charged.sleeping _ hcharge hfree
          intro outcome houtcome
          rcases List.mem_append.mp houtcome with hearlier | hnew
          · exact hconflicts outcome hearlier
          · obtain rfl := List.mem_singleton.mp hnew
            exact hconflict
  | @threw c attempt since error jitter hstage hretries =>
      apply hs.attempted
      cases hs.charged_at hstage with
      | working hconflicts hsince hleft hpaid hfree =>
          apply Charged.settled rfl hconflicts _ hleft (by simp)
          -- a conflict of the last attempt would need more commits than the others can make
          by_contra hconflict
          have hconflict : isSerializationConflict error = true := by
            simpa [isConflict] using hconflict
          obtain ⟨hnone, hother⟩ := Scheduled.overlaps hgood hconflict hstage
          have hcharge := (conflict_charged hpaid hfree hnone hother).1
          have hothers := commitsOfOthers_lt c hs.once
          have hlast : ¬ ((s.outcomes c).length + 1 ≠ m) := by
            intro hmore
            simp [retriesWithin_iff.mpr ⟨hconflict, hmore⟩] at hretries
          omega
  | @wake c attempt delay hstage =>
      apply hs.move
      cases hs.charged_at hstage with
      | sleeping hconflicts hpaid hfree => exact .next hconflicts hpaid hfree

end Invariant

/-! ### Every call ends -/

section Progress

variable {n m : ℕ} {σ τ : Type} {effect : Fin n → σ → σ} {s t : Retrying n σ τ}
  {a : RetryAction n τ} {c d : Fin n}

/-- The steps a call may still take, its commit apart. -/
def RetryStage.remaining (maxAttempts : ℕ) : RetryStage τ → ℕ
  | .next attempt => 3 * (maxAttempts + 1 - attempt)
  | .working attempt _ => 3 * (maxAttempts + 1 - attempt) - 1
  | .sleeping attempt _ => 3 * (maxAttempts + 1 - attempt) - 2
  | .settled _ => 0

def Retrying.remaining (maxAttempts : ℕ) (s : Retrying n σ τ) : ℕ :=
  (∑ c, (s.stage c).remaining maxAttempts) + (n - s.commits.length)

theorem remaining_move {stage : RetryStage τ}
    (h : stage.remaining m < (s.stage c).remaining m) :
    (s.move c stage).remaining m < s.remaining m := by
  apply Nat.add_lt_add_right
  apply Finset.sum_lt_sum
  · intro d _
    by_cases hd : d = c
    · subst hd
      simpa [Retrying.move] using h.le
    · simp [Retrying.move, hd]
  · exact ⟨c, Finset.mem_univ c, by simpa [Retrying.move] using h⟩

theorem remaining_attempted {stage : RetryStage τ} {outcome : Except Failure τ}
    (h : stage.remaining m < (s.stage c).remaining m) :
    (s.attempted c outcome stage).remaining m < s.remaining m := remaining_move h

theorem length_lt_of_not_mem (hs : Accounted m s) (hfree : c ∉ s.commits) :
    s.commits.length < n := by
  have hothers := commitsOfOthers_lt c hs.once
  have hall : commitsOfOthers c s.commits = s.commits.length := by
    apply List.countP_eq_length.mpr
    intro d hd
    simpa using ne_of_mem_of_not_mem hd hfree
  omega

theorem Accounted.working_le {attempt since : ℕ} (hs : Accounted m s)
    (hstage : s.stage c = .working attempt since) : attempt ≤ m := by
  cases hs.charged_at hstage with
  | working hconflicts hsince hleft hpaid hfree => exact hleft

theorem Accounted.working_remaining {attempt since : ℕ} (hs : Accounted m s)
    (hstage : s.stage c = .working attempt since) :
    0 < (RetryStage.working attempt since : RetryStage τ).remaining m := by
  have hle := hs.working_le hstage
  simp only [RetryStage.remaining]
  omega

/-- A call that waits has fewer conflicts behind it than there are calls. -/
theorem Accounted.sleeping_lt {attempt delay : ℕ} (hs : Accounted m s)
    (hstage : s.stage c = .sleeping attempt delay) : attempt < n := by
  cases hs.charged_at hstage with
  | sleeping hconflicts hpaid hfree => exact hpaid.trans_lt (commitsOfOthers_lt c hs.once)

theorem Accounted.next_le {attempt : ℕ} (hs : Accounted m s)
    (hstage : s.stage c = .next attempt) : attempt ≤ n := by
  cases hs.charged_at hstage with
  | next hconflicts hpaid hfree => exact hpaid.trans_lt (commitsOfOthers_lt c hs.once)

theorem remaining_step (hn : n ≤ m) (hs : Accounted m s) (hgood : Scheduled s a)
    (h : retryStep m effect s a = some t) : t.remaining m < s.remaining m := by
  cases retryStep_moves h with
  | start hstage hleft =>
      apply remaining_move
      simp only [hstage, RetryStage.remaining]
      omega
  | commit hstage =>
      have hroom := length_lt_of_not_mem hs hgood
      simp only [Retrying.remaining, Retrying.committed, List.length_append, List.length_singleton]
      omega
  | returned hstage hcommitted =>
      have hpos := hs.working_remaining hstage
      apply remaining_attempted
      rwa [hstage]
  | retried hstage hretries =>
      have hle := hs.working_le hstage
      apply remaining_attempted
      simp only [hstage, RetryStage.remaining]
      omega
  | threw hstage hretries =>
      have hpos := hs.working_remaining hstage
      apply remaining_attempted
      rwa [hstage]
  | wake hstage =>
      have hle := hs.sleeping_lt hstage
      apply remaining_move
      simp only [hstage, RetryStage.remaining]
      omega

theorem remaining_init (db : σ) :
    (Retrying.init db : Retrying n σ τ).remaining m = n * (3 * m + 1) := by
  simp [Retrying.remaining, Retrying.init, RetryStage.remaining, Nat.mul_succ]

theorem exists_step (hn : n ≤ m) (hs : Accounted m s)
    (hopen : ∀ outcome, s.stage c ≠ .settled outcome) :
    ∃ a, a.call = c ∧ Scheduled s a ∧ (retryStep m effect s a).isSome := by
  cases hstage : s.stage c with
  | next attempt =>
      have hleft := (hs.next_le hstage).trans hn
      exact ⟨.start c, rfl, trivial, by simp [retryStep, hstage, hleft]⟩
  | working attempt since =>
      refine ⟨.finish c (.error (.status 409 "")) 0, rfl, ?_, ?_⟩
      · intro hconflict
        cases hconflict
      · simp only [retryStep, hstage]
        split <;> rfl
  | sleeping attempt delay => exact ⟨.wake c, rfl, trivial, by simp [retryStep, hstage]⟩
  | settled outcome => exact (hopen outcome hstage).elim

/-- A settled call takes no further step, and steps of the others do not touch it. -/
theorem settled_step {outcome : Except Failure τ} (hstage : s.stage c = .settled outcome)
    (h : retryStep m effect s a = some t) : a.call ≠ c ∧ t.stage c = .settled outcome := by
  cases retryStep_moves h with
  | @start d attempt hd | @wake d attempt delay hd =>
      have hne : c ≠ d := by
        rintro rfl
        cases hstage.symm.trans hd
      exact ⟨hne.symm, by simpa [Retrying.move, hne] using hstage⟩
  | @commit d attempt since hd =>
      have hne : c ≠ d := by
        rintro rfl
        cases hstage.symm.trans hd
      exact ⟨hne.symm, hstage⟩
  | @returned d attempt since _ _ hd _ | @retried d attempt since _ _ hd _
  | @threw d attempt since _ _ hd _ =>
      have hne : c ≠ d := by
        rintro rfl
        cases hstage.symm.trans hd
      exact ⟨hne.symm, by simpa [Retrying.attempted, Retrying.move, hne] using hstage⟩

theorem settled_run {outcome : Except Failure τ} {acts : List (RetryAction n τ)}
    (hstage : s.stage c = .settled outcome) (h : exec (retryStep m effect) s acts = some t) :
    ∀ a ∈ acts, a.call ≠ c := by
  induction acts generalizing s with
  | nil => simp
  | cons a acts ih =>
      obtain ⟨u, hu, ht⟩ := exec_cons_iff.mp h
      obtain ⟨hne, hkept⟩ := settled_step hstage hu
      intro b hb
      rcases List.mem_cons.mp hb with rfl | hlater
      · exact hne
      · exact ih hkept ht b hlater

/-- The tables hold what the commits have done to them, in their order. -/
theorem db_step {db : σ} (hs : s.db = s.commits.foldl (fun db c => effect c db) db)
    (h : retryStep m effect s a = some t) :
    t.db = t.commits.foldl (fun db c => effect c db) db := by
  cases retryStep_moves h with
  | commit hstage => simp [Retrying.committed, List.foldl_append, hs]
  | start _ _ | wake _ => exact hs
  | returned _ _ | retried _ _ | threw _ _ => exact hs

end Progress

/-! ### What a call may rely on -/

/-- The attempts of one call: within the budget, with the last one's outcome
as the call's, which is no conflict, and applied once when the call returns. -/
structure RetriedOnce {n : ℕ} {σ τ : Type} (maxAttempts : ℕ) (s : Retrying n σ τ) (c : Fin n) :
    Prop where
  attempts_le : (s.outcomes c).length ≤ maxAttempts
  settles : ∀ outcome ∈ s.outcomes c, isConflict outcome = false → s.stage c = .settled outcome
  last : ∀ outcome, s.stage c = .settled outcome → (s.outcomes c).getLast? = some outcome
  noConflict : ∀ outcome, s.stage c = .settled outcome → isConflict outcome = false
  applied : ∀ result, s.stage c = .settled (.ok result) → s.commits.count c = 1

section Calls

variable {n m : ℕ} {σ τ : Type} {effect : Fin n → σ → σ} {s t : Retrying n σ τ}
  {acts : List (RetryAction n τ)}

theorem Accounted.retriedOnce (hn : n ≤ m) (hs : Accounted m s) (c : Fin n) :
    RetriedOnce m s c := by
  have hothers := commitsOfOthers_lt c hs.once
  have hopen : (∀ outcome ∈ s.outcomes c, isConflict outcome = true) →
      ∀ outcome ∈ s.outcomes c, isConflict outcome = false → s.stage c = .settled outcome := by
    intro hconflicts outcome houtcome hno
    rw [hconflicts outcome houtcome] at hno
    cases hno
  cases hstage : s.stage c with
  | next attempt =>
      cases hs.charged_at hstage with
      | next hconflicts hpaid hfree =>
          exact ⟨by omega, hopen hconflicts, by simp [hstage], by simp [hstage], by simp [hstage]⟩
  | working attempt since =>
      cases hs.charged_at hstage with
      | working hconflicts hsince hleft hpaid hfree =>
          exact ⟨by omega, hopen hconflicts, by simp [hstage], by simp [hstage], by simp [hstage]⟩
  | sleeping attempt delay =>
      cases hs.charged_at hstage with
      | sleeping hconflicts hpaid hfree =>
          exact ⟨by omega, hopen hconflicts, by simp [hstage], by simp [hstage], by simp [hstage]⟩
  | settled outcome =>
      cases hs.charged_at hstage with
      | settled houtcomes hconflicts hlast hleft hreturned =>
          constructor
          · simpa [houtcomes] using hleft
          · intro other hother hno
            rw [houtcomes] at hother
            rcases List.mem_append.mp hother with hearlier | hnew
            · rw [hconflicts other hearlier] at hno
              cases hno
            · rw [List.mem_singleton.mp hnew, hstage]
          · intro other hother
            cases hstage.symm.trans hother
            simp [houtcomes]
          · intro other hother
            cases hstage.symm.trans hother
            exact hlast
          · intro result hother
            cases hstage.symm.trans hother
            exact List.count_eq_one_of_mem hs.once (hreturned result rfl)

/-- With no more calls than attempts, every call ends with the outcome of its
last attempt, no conflict reaches a caller, what a returning call did is there
once, and a failure that is no conflict is final. -/
theorem withSerializationRetry_suffices (hn : n ≤ m) (effect : Fin n → σ → σ) (db : σ)
    (hgood : Along (retryStep m effect) Scheduled (.init db) acts)
    (hrun : exec (retryStep m effect) (.init db) acts = some t) :
    (∀ c, RetriedOnce m t c) ∧
      t.db = t.commits.foldl (fun db c => effect c db) db ∧
      acts.length ≤ n * (3 * m + 1) ∧
      (∀ c, (∀ outcome, t.stage c ≠ .settled outcome) →
        ∃ a, a.call = c ∧ Scheduled t a ∧ (retryStep m effect t a).isSome) ∧
      ∀ before after u c, acts = before ++ after →
        exec (retryStep m effect) (.init db) before = some u →
        (∃ outcome ∈ u.outcomes c, isConflict outcome = false) → ∀ a ∈ after, a.call ≠ c := by
  have hstep : ∀ (s : Retrying n σ τ) a t, Accounted m s → Scheduled s a →
      retryStep m effect s a = some t → Accounted m t :=
    fun _ _ _ hs hgood h => hs.step hn hgood h
  have hstart : Accounted m (.init db : Retrying n σ τ) := .init db
  have hend : Accounted m t := exec_invariant_along hstep hstart hgood hrun
  refine ⟨hend.retriedOnce hn, ?_, ?_, fun c hopen => exists_step hn hend hopen, ?_⟩
  · have hdb : ∀ (s : Retrying n σ τ) a t,
        s.db = s.commits.foldl (fun db c => effect c db) db →
          retryStep m effect s a = some t →
            t.db = t.commits.foldl (fun db c => effect c db) db := fun _ _ _ => db_step
    exact exec_invariant hdb rfl hrun
  · have hbound := exec_length_le (Retrying.remaining m) hstep
      (fun _ _ _ hs hgood h => remaining_step hn hs hgood h) hstart hgood hrun
    rw [remaining_init] at hbound
    omega
  · rintro before after u c rfl hbefore ⟨outcome, houtcome, hno⟩
    obtain ⟨v, hv, hafter⟩ := exec_append_iff.mp hrun
    cases hbefore.symm.trans hv
    have hu := exec_invariant_along hstep hstart (along_append_iff.mp hgood).1 hbefore
    have hstage := (hu.retriedOnce hn c).settles outcome houtcome hno
    exact settled_run hstage hafter

/-- Two calls with two attempts each: the second loses against the first once. -/
def overlappingCalls : List (RetryAction 2 Unit) :=
  [.start 0, .start 1, .commit 0, .finish 0 (.ok ()) 0, .finish 1 (.error (.prisma "P2034")) 7,
    .wake 1, .start 1, .commit 1, .finish 1 (.ok ()) 0]

theorem withSerializationRetry_suffices_overlapping :
    ∃ t, exec (retryStep 2 fun c db => db ++ [c]) (.init []) overlappingCalls = some t ∧
      t.db = [0, 1] ∧ t.stage 1 = .settled (.ok ()) ∧ RetriedOnce 2 t 1 := by
  obtain ⟨t, hrun, hdb, hstage⟩ : ∃ t,
      exec (retryStep 2 fun c db => db ++ [c]) (.init []) overlappingCalls = some t ∧
        t.db = [0, 1] ∧ t.stage 1 = .settled (.ok ()) := ⟨_, rfl, rfl, rfl⟩
  have hgood : Along (retryStep 2 fun c db => db ++ [c]) Scheduled (.init []) overlappingCalls := by
    decide
  exact ⟨t, hrun, hdb, hstage,
    (withSerializationRetry_suffices le_rfl (fun c db => db ++ [c]) [] hgood hrun).1 1⟩

end Calls

end Eventify
