import Eventify.Bookings.Committed
import Eventify.Library.Machine
import Eventify.Serialization

/-!
# Booking calls in flight

Calls of the three booking functions, each retrying its transaction under
`withSerializationRetry`. The database aborts an attempt or lets it run as
one atomic step; attempts of different calls come in any order.
-/

namespace Eventify

structure Call where
  op : BookingOp
  attempt : ℕ
  deriving DecidableEq, Repr

structure CallSystem where
  db : Database
  calls : ℕ → Option Call

inductive CallAction where
  | begin (c : ℕ) (op : BookingOp)
  | conflict (c : ℕ) (error : Failure)
  | attempt (c : ℕ) (ctx : TxContext)

def Call.afterFailure (call : Call) (error : Failure) : Option Call :=
  if retries call.attempt error then some { call with attempt := call.attempt + 1 } else none

def callStep (s : CallSystem) : CallAction → Option CallSystem
  | .begin c op =>
      if (s.calls c).isSome then none
      else some { s with calls := Function.update s.calls c (some ⟨op, 1⟩) }
  | .conflict c error =>
      match s.calls c with
      | none => none
      | some call =>
          if isSerializationConflict error then
            some { s with calls := Function.update s.calls c (call.afterFailure error) }
          else none
  | .attempt c ctx =>
      match s.calls c with
      | none => none
      | some call =>
          match call.op.transaction ctx s.db with
          | .ok (_, db) => some { db, calls := Function.update s.calls c none }
          | .error error =>
              some { s with calls := Function.update s.calls c (call.afterFailure error) }

/-- A step leaves the tables alone, or it is the attempt with which one call
commits and returns. -/
theorem callStep_cases {s t : CallSystem} {a : CallAction} (h : callStep s a = some t) :
    t.db = s.db ∨
      ∃ c ctx call result, a = .attempt c ctx ∧ s.calls c = some call ∧
        call.op.transaction ctx s.db = .ok (result, t.db) ∧ t.calls c = none := by
  cases a with
  | begin c op =>
      simp only [callStep] at h
      split at h
      · simp at h
      · exact .inl (Option.some.inj h ▸ rfl)
  | conflict c error =>
      simp only [callStep] at h
      cases hcall : s.calls c with
      | none => simp [hcall] at h
      | some call =>
          simp only [hcall] at h
          split at h
          · exact .inl (Option.some.inj h ▸ rfl)
          · simp at h
  | attempt c ctx =>
      simp only [callStep] at h
      cases hcall : s.calls c with
      | none => simp [hcall] at h
      | some call =>
          cases htx : call.op.transaction ctx s.db with
          | error error =>
              simp only [hcall, htx] at h
              exact .inl (Option.some.inj h ▸ rfl)
          | ok p =>
              obtain ⟨result, db⟩ := p
              simp only [hcall, htx, Option.some.injEq] at h
              subst h
              exact .inr ⟨c, ctx, call, result, rfl, hcall, htx, by simp⟩

theorem callStep_effect {s t : CallSystem} {a : CallAction} (h : callStep s a = some t) :
    ∃ now, Effect now s.db t.db := by
  rcases callStep_cases h with hsame | ⟨c, ctx, call, result, -, -, htx, -⟩
  · exact ⟨0, hsame ▸ .unchanged⟩
  · exact ⟨ctx.now, transaction_effect htx⟩

end Eventify
