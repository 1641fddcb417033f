import Eventify.Library.Machine
import Mathlib.Data.Int.Basic

/-!
# Stopping within a grace period

A process that is told to stop closes its parts one after another, under a timer
that ends it when they take too long. What else the process does, and what of it
the stop takes down, are parameters; the first trigger decides, later ones are
passed over.
-/

namespace Library

/-- What a stop does when a part of the process fails to close. -/
inductive CloseFailure where
  | passedOver
  | exitsWith (code : ℕ)
  | stuck
  deriving DecidableEq, Repr

/-- A part closes well only when the rest of the process lets it. -/
structure StopPart (ρ : Type*) where
  onFailure : CloseFailure
  ready : ρ → Bool

structure StopPlan (τ ρ : Type*) where
  graceMs : ℤ
  parts : List (StopPart ρ)
  exitCode : τ → ℕ

inductive StopState (τ ρ : Type*) where
  | running
  | closing (trigger : τ) (since : ℤ) (parts : List (StopPart ρ)) (code : ℕ)
  | stuck (trigger : τ) (since : ℤ)
  | exited (trigger : τ) (since at_ : ℤ) (code : ℕ)

/-- `rest` is what else there is of the process. -/
structure Stoppable (τ ρ : Type*) where
  now : ℤ
  stop : StopState τ ρ
  rest : ρ

inductive StopAction (τ β : Type*) where
  | wait (ms : ℕ)
  | work (b : β)
  | trigger (t : τ)
  | settle (ok : Bool)
  | force

def StopAction.settled {τ β : Type*} : StopAction τ β → Option Bool
  | .settle ok => some ok
  | _ => none

/-- How the parts of a run settled, in order. -/
def settles {τ β : Type*} (acts : List (StopAction τ β)) : List Bool :=
  acts.filterMap StopAction.settled

section Steps

variable {τ ρ β : Type*} (plan : StopPlan τ ρ) (work : ℤ → ρ → β → Option ρ) (listens : ρ → Bool)
variable (takeDown : ρ → ρ)

/-- The parts that are left have a code to exit with, or the process exits. -/
def StopState.goOn (now : ℤ) (t : τ) (since : ℤ) (code : ℕ) :
    List (StopPart ρ) → StopState τ ρ
  | [] => .exited t since now code
  | parts => .closing t since parts code

def StopState.settle (now : ℤ) (t : τ) (since : ℤ) (code : ℕ) (rest : List (StopPart ρ)) :
    (ok : Bool) → CloseFailure → StopState τ ρ
  | true, _ | false, .passedOver => .goOn now t since code rest
  | false, .exitsWith failed => .goOn now t since failed rest
  | false, .stuck => .stuck t since

/-- The time at which the timer ends a stop that has not come to its end. -/
def StopState.deadline : StopState τ ρ → Option ℤ
  | .closing _ since _ _ | .stuck _ since => some (since + plan.graceMs)
  | .running | .exited _ _ _ _ => none

def stopStep (s : Stoppable τ ρ) : StopAction τ β → Option (Stoppable τ ρ)
  | .wait ms =>
      match s.stop with
      | .exited _ _ _ _ => none
      | _ => some { s with now := s.now + ms }
  | .work b =>
      match s.stop with
      | .exited _ _ _ _ => none
      | _ => (work s.now s.rest b).map fun rest => { s with rest }
  | .trigger t =>
      if listens s.rest then
        match s.stop with
        | .running => some { s with
            stop := .goOn s.now t s.now (plan.exitCode t) plan.parts, rest := takeDown s.rest }
        | .exited _ _ _ _ => none
        | _ => some s
      else none
  | .settle ok =>
      match s.stop with
      | .closing t since (part :: rest) code =>
          if ok → part.ready s.rest then
            some { s with stop := .settle s.now t since code rest ok part.onFailure }
          else none
      | _ => none
  | .force =>
      match s.stop with
      | .closing t since _ _ | .stuck t since =>
          if since + plan.graceMs ≤ s.now then
            some { s with stop := .exited t since s.now 1 }
          else none
      | _ => none

/-- The code with which the parts close, when each settles as told. -/
def closingCode : List (StopPart ρ) → List Bool → ℕ → Option ℕ
  | [], [], code => some code
  | _ :: parts, true :: oks, code | ⟨.passedOver, _⟩ :: parts, false :: oks, code =>
      closingCode parts oks code
  | ⟨.exitsWith failed, _⟩ :: parts, false :: oks, _ => closingCode parts oks failed
  | _, _, _ => none

end Steps

section Codes

variable {ρ : Type*} {parts rest : List (StopPart ρ)} {oks : List Bool} {code reached : ℕ}

theorem closingCode_append (h : closingCode parts oks code = some reached) (later : List Bool) :
    closingCode (parts ++ rest) (oks ++ later) code = closingCode rest later reached := by
  induction parts generalizing oks code with
  | nil =>
      cases oks with
      | nil =>
          obtain rfl := Option.some.inj h
          rfl
      | cons ok oks => cases h
  | cons part parts ih =>
      cases oks with
      | nil =>
          cases part
          cases h
      | cons ok oks =>
          cases ok with
          | true => exact ih h
          | false =>
              obtain ⟨onFailure, ready⟩ := part
              cases onFailure with
              | passedOver | exitsWith => exact ih h
              | stuck => cases h

theorem eq_of_closingCode_nil (h : closingCode ([] : List (StopPart ρ)) oks code = some reached) :
    oks = [] ∧ code = reached := by
  cases oks with
  | nil => exact ⟨rfl, Option.some.inj h⟩
  | cons ok oks => cases h

theorem exists_of_closingCode_stuck {ready : ρ → Bool}
    (h : closingCode (⟨.stuck, ready⟩ :: parts) oks code = some reached) :
    ∃ later, oks = true :: later ∧ closingCode parts later code = some reached := by
  match oks, h with
  | true :: later, h => exact ⟨later, rfl, h⟩

theorem exists_of_closingCode_passedOver {ready : ρ → Bool}
    (h : closingCode (⟨.passedOver, ready⟩ :: parts) oks code = some reached) :
    ∃ ok later, oks = ok :: later ∧ closingCode parts later code = some reached := by
  match oks, h with
  | true :: later, h | false :: later, h => exact ⟨_, later, rfl, h⟩

theorem exists_of_closingCode_exitsWith {ready : ρ → Bool} {failed : ℕ}
    (h : closingCode (⟨.exitsWith failed, ready⟩ :: parts) oks code = some reached) :
    ∃ ok later, oks = ok :: later ∧
      closingCode parts later (if ok then code else failed) = some reached := by
  match oks, h with
  | true :: later, h | false :: later, h => exact ⟨_, later, rfl, h⟩

end Codes

section Runs

variable {τ ρ β : Type*} {plan : StopPlan τ ρ} {work : ℤ → ρ → β → Option ρ} {listens : ρ → Bool}
variable {takeDown : ρ → ρ} {s s' : Stoppable τ ρ} {a : StopAction τ β}
variable {acts : List (StopAction τ β)}
variable {t : τ} {since at_ : ℤ} {code : ℕ}

/-- The trigger that a stop goes back to, and its time. -/
def StopState.origin : StopState τ ρ → Option (τ × ℤ)
  | .running => none
  | .closing t since _ _ | .stuck t since | .exited t since _ _ => some (t, since)

/-- The code of the stop after parts have settled so, or how it ended. -/
def StopState.Closed (plan : StopPlan τ ρ) (oks : List Bool) : StopState τ ρ → Prop
  | .running => oks = []
  | .stuck _ _ => True
  | .closing t _ parts code => ∃ done, plan.parts = done ++ parts ∧
      closingCode done oks (plan.exitCode t) = some code
  | .exited t since at_ code => code = 1 ∧ since + plan.graceMs ≤ at_ ∨
      closingCode plan.parts oks (plan.exitCode t) = some code

theorem settles_append (acts : List (StopAction τ β)) (a : StopAction τ β) :
    settles (acts ++ [a]) = settles acts ++ a.settled.toList := by
  cases hsettled : a.settled <;> simp [settles, List.filterMap_append, hsettled]

/-- What a step does to the stop. -/
inductive StopMove (plan : StopPlan τ ρ) (s : Stoppable τ ρ) :
    StopAction τ β → Stoppable τ ρ → Prop
  | kept {a : StopAction τ β} {rest : ρ} (hexit : ∀ t since at_ code,
      s.stop ≠ .exited t since at_ code) (hrunning : ∀ t, a = .trigger t → s.stop ≠ .running)
      (hwait : ∀ ms, a ≠ .wait ms) (hsettle : ∀ ok, a ≠ .settle ok) :
      StopMove plan s a { s with rest }
  | waited {ms : ℕ} (hexit : ∀ t since at_ code, s.stop ≠ .exited t since at_ code) :
      StopMove plan s (.wait ms) { s with now := s.now + ms }
  | began {t : τ} {rest : ρ} (hrunning : s.stop = .running) : StopMove plan s (.trigger t)
      { s with stop := .goOn s.now t s.now (plan.exitCode t) plan.parts, rest }
  | settled {ok : Bool} {t : τ} {since : ℤ} {part : StopPart ρ} {left : List (StopPart ρ)}
      {code : ℕ} (hclosing : s.stop = .closing t since (part :: left) code)
      (hready : ok → part.ready s.rest) : StopMove plan s (.settle ok)
        { s with stop := .settle s.now t since code left ok part.onFailure }
  | forced {t : τ} {since : ℤ} (horigin : s.stop.origin = some (t, since))
      (hdeadline : s.stop.deadline plan = some (since + plan.graceMs))
      (hlate : since + plan.graceMs ≤ s.now) :
      StopMove plan s .force { s with stop := .exited t since s.now 1 }

theorem stopStep_moves (h : stopStep plan work listens takeDown s a = some s') :
    StopMove plan s a s' := by
  obtain ⟨now, stop, rest⟩ := s
  cases a with
  | wait ms =>
      cases stop with
      | exited => cases h
      | running | closing | stuck =>
          cases h
          exact .waited nofun
  | work b =>
      cases stop with
      | exited => cases h
      | running | closing | stuck =>
          obtain ⟨rest', -, rfl⟩ := Option.map_eq_some_iff.mp h
          exact .kept nofun nofun nofun nofun
  | trigger t =>
      simp only [stopStep] at h
      split at h
      · cases stop with
        | exited => cases h
        | running =>
            cases h
            exact .began rfl
        | closing | stuck =>
            cases h
            exact .kept nofun (fun _ _ => nofun) nofun nofun
      · cases h
  | settle ok =>
      cases stop with
      | closing t since parts code =>
          cases parts with
          | nil => cases h
          | cons part parts =>
              simp only [stopStep] at h
              split at h
              · next hready =>
                  cases h
                  exact .settled rfl hready
              · cases h
      | running | stuck | exited => cases h
  | force =>
      cases stop with
      | closing | stuck =>
          simp only [stopStep] at h
          split at h
          · next hlate =>
              cases h
              exact .forced rfl rfl hlate
          · cases h
      | running | exited => cases h

/-- What a step does to the rest of the process. -/
inductive RestMove (work : ℤ → ρ → β → Option ρ) (listens : ρ → Bool) (takeDown : ρ → ρ)
    (s : Stoppable τ ρ) : StopAction τ β → Stoppable τ ρ → Prop
  | worked {b : β} {rest : ρ} (hexit : ∀ t since at_ code, s.stop ≠ .exited t since at_ code)
      (hwork : work s.now s.rest b = some rest) :
      RestMove work listens takeDown s (.work b) { s with rest }
  | takenDown {t : τ} {stop : StopState τ ρ} (hrunning : s.stop = .running)
      (hstopped : stop ≠ .running) (hlistens : listens s.rest) :
      RestMove work listens takeDown s (.trigger t) { s with stop, rest := takeDown s.rest }
  | unmoved {a : StopAction τ β} {s' : Stoppable τ ρ} (hrest : s'.rest = s.rest)
      (hwork : ∀ b, a ≠ .work b) (hstop : s'.stop = .running → s.stop = .running) :
      RestMove work listens takeDown s a s'

theorem stopStep_rest (h : stopStep plan work listens takeDown s a = some s') :
    RestMove work listens takeDown s a s' := by
  obtain ⟨now, stop, rest⟩ := s
  cases a with
  | wait ms =>
      cases stop with
      | exited => cases h
      | running | closing | stuck =>
          cases h
          exact .unmoved rfl nofun id
  | work b =>
      cases stop with
      | exited => cases h
      | running | closing | stuck =>
          obtain ⟨rest', hwork, rfl⟩ := Option.map_eq_some_iff.mp h
          exact .worked nofun hwork
  | trigger t =>
      simp only [stopStep] at h
      split at h
      · next hlistens =>
          cases stop with
          | exited => cases h
          | running =>
              cases h
              refine .takenDown rfl ?_ hlistens
              cases plan.parts <;> nofun
          | closing | stuck =>
              cases h
              exact .unmoved rfl nofun id
      · cases h
  | settle ok =>
      cases stop with
      | closing t since parts code =>
          cases parts with
          | nil => cases h
          | cons part parts =>
              simp only [stopStep] at h
              split at h
              · obtain ⟨onFailure, ready⟩ := part
                cases h
                refine .unmoved rfl nofun fun hrunning => ?_
                cases ok <;> cases onFailure <;> cases parts <;> cases hrunning
              · cases h
      | running | stuck | exited => cases h
  | force =>
      cases stop with
      | closing | stuck =>
          simp only [stopStep] at h
          split at h
          · cases h
            exact .unmoved rfl nofun nofun
          · cases h
      | running | exited => cases h

theorem stopStep_trigger (hrunning : s.stop = .running)
    (h : stopStep plan work listens takeDown s (.trigger t) = some s') :
    listens s.rest ∧ s'.rest = takeDown s.rest := by
  simp only [stopStep, hrunning] at h
  split at h
  · next hlistens =>
      obtain rfl := Option.some.inj h
      exact ⟨hlistens, rfl⟩
  · cases h

theorem stopStep_now (h : stopStep plan work listens takeDown s a = some s') : s.now ≤ s'.now := by
  cases stopStep_moves h with
  | waited => exact Int.le_add_of_nonneg_right (Int.natCast_nonneg _)
  | kept | began | settled | forced => exact Int.le_refl _

theorem StopState.goOn_origin (now : ℤ) (t : τ) (since : ℤ) (code : ℕ)
    (parts : List (StopPart ρ)) : (goOn now t since code parts).origin = some (t, since) := by
  cases parts <;> rfl

theorem StopState.settle_origin (now : ℤ) (t : τ) (since : ℤ) (code : ℕ)
    (parts : List (StopPart ρ)) (ok : Bool) (onFailure : CloseFailure) :
    (settle now t since code parts ok onFailure).origin = some (t, since) := by
  cases ok <;> cases onFailure <;> first | exact goOn_origin _ _ _ _ _ | rfl

theorem StopState.goOn_closed {now : ℤ} {done parts : List (StopPart ρ)} {oks : List Bool}
    (hparts : plan.parts = done ++ parts)
    (hcode : closingCode done oks (plan.exitCode t) = some code) :
    (goOn now t since code parts).Closed plan oks := by
  cases parts with
  | nil => exact .inr (by rw [hparts, List.append_nil, hcode])
  | cons part parts => exact ⟨done, hparts, hcode⟩

theorem StopMove.closed {oks : List Bool} (h : StopMove plan s a s') (hs : s.stop.Closed plan oks) :
    s'.stop.Closed plan (oks ++ a.settled.toList) := by
  cases h with
  | kept _ _ _ hsettle =>
      have hnone : a.settled = none := by
        cases a with
        | settle ok => exact absurd rfl (hsettle ok)
        | wait | work | trigger | force => rfl
      simpa [hnone] using hs
  | waited => simpa [StopAction.settled] using hs
  | began hrunning =>
      rw [hrunning] at hs
      obtain rfl := hs
      exact @StopState.goOn_closed _ _ plan _ _ _ _ [] plan.parts [] rfl rfl
  | @settled ok t since part left code hclosing =>
      rw [hclosing] at hs
      obtain ⟨done, hparts, hcode⟩ := hs
      have hparts' : plan.parts = (done ++ [part]) ++ left := by simp [hparts]
      obtain ⟨onFailure, ready⟩ := part
      cases ok with
      | true =>
          exact StopState.goOn_closed hparts'
            ((closingCode_append hcode [true]).trans (by cases onFailure <;> rfl))
      | false =>
          cases onFailure with
          | passedOver | exitsWith =>
              exact StopState.goOn_closed hparts' (closingCode_append hcode [false])
          | stuck => trivial
  | forced _ _ hlate => exact .inl ⟨rfl, hlate⟩

theorem StopMove.origin (h : StopMove plan s a s') {key : τ × ℤ} (hs : s.stop.origin = some key) :
    s'.stop.origin = some key := by
  cases h with
  | kept | waited => exact hs
  | began hrunning => simp [hrunning, StopState.origin] at hs
  | settled hclosing =>
      rw [hclosing] at hs
      exact (StopState.settle_origin _ _ _ _ _ _ _).trans hs
  | forced horigin => exact horigin.symm.trans hs ▸ rfl

/-- The run was still on when its first trigger came, at this time. -/
def FirstTrigger (step : Stoppable τ ρ → StopAction τ β → Option (Stoppable τ ρ))
    (start : Stoppable τ ρ) (acts : List (StopAction τ β)) (t : τ) (since : ℤ) : Prop :=
  ∃ before after u, acts = before ++ .trigger t :: after ∧ exec step start before = some u ∧
    u.stop = .running ∧ u.now = since ∧ ∀ t', .trigger t' ∉ before

theorem FirstTrigger.append {step : Stoppable τ ρ → StopAction τ β → Option (Stoppable τ ρ)}
    {start : Stoppable τ ρ} (h : FirstTrigger step start acts t since) (a : StopAction τ β) :
    FirstTrigger step start (acts ++ [a]) t since := by
  obtain ⟨before, after, u, rfl, hu⟩ := h
  exact ⟨before, after ++ [a], u, by simp, hu⟩

/-- While no stop is under way there has been no trigger; else the stop is that
of the first one. -/
def Triggered (step : Stoppable τ ρ → StopAction τ β → Option (Stoppable τ ρ))
    (start : Stoppable τ ρ) (acts : List (StopAction τ β)) (s : Stoppable τ ρ) : Prop :=
  match s.stop.origin with
  | none => ∀ t, .trigger t ∉ acts
  | some (t, since) => FirstTrigger step start acts t since ∧ since ≤ s.now

theorem StopState.origin_eq_none {stop : StopState τ ρ} : stop.origin = none ↔ stop = .running := by
  cases stop <;> simp [StopState.origin]

theorem triggered_step {start : Stoppable τ ρ}
    (hs : Triggered (stopStep plan work listens takeDown) start acts s)
    (hrun : exec (stopStep plan work listens takeDown) start acts = some s)
    (h : stopStep plan work listens takeDown s a = some s') :
    Triggered (stopStep plan work listens takeDown) start (acts ++ [a]) s' := by
  have hmove := stopStep_moves h
  have hlater : s.now ≤ s'.now := stopStep_now h
  cases horigin : s.stop.origin with
  | some key =>
      obtain ⟨t, since⟩ := key
      simp only [Triggered, horigin] at hs
      simp only [Triggered, hmove.origin horigin]
      exact ⟨hs.1.append a, Int.le_trans hs.2 hlater⟩
  | none =>
      have hrunning := StopState.origin_eq_none.mp horigin
      simp only [Triggered, horigin] at hs
      cases hmove with
      | kept _ hnot =>
          simp only [Triggered, horigin]
          intro t hmem
          rcases List.mem_append.mp hmem with hold | hnew
          · exact hs t hold
          · exact hnot t (List.mem_singleton.mp hnew).symm hrunning
      | waited =>
          simp only [Triggered, horigin]
          intro t hmem
          rcases List.mem_append.mp hmem with hold | hnew
          · exact hs t hold
          · cases List.mem_singleton.mp hnew
      | began =>
          simp only [Triggered, StopState.goOn_origin]
          exact ⟨⟨acts, [], s, rfl, hrun, hrunning, rfl, hs⟩, Int.le_refl _⟩
      | settled hclosing => simp [hclosing, StopState.origin] at horigin
      | forced hforced => simp [hforced] at horigin

/-- A process exits with the code of its first trigger once every part has
closed, or with the code of a failed part, or with `1` when the timer ends it,
no earlier than the grace period after the trigger. -/
theorem exec_exited {start : Stoppable τ ρ} (hstart : start.stop = .running)
    (hrun : exec (stopStep plan work listens takeDown) start acts = some s)
    (hexit : s.stop = .exited t since at_ code) :
    FirstTrigger (stopStep plan work listens takeDown) start acts t since ∧
      (code = 1 ∧ since + plan.graceMs ≤ at_ ∨
        closingCode plan.parts (settles acts) (plan.exitCode t) = some code) := by
  have htriggered : Triggered (stopStep plan work listens takeDown) start acts s := by
    refine exec_trace (I := Triggered (stopStep plan work listens takeDown) start) ?_ ?_ hrun
    · simp [Triggered, hstart, StopState.origin]
    · exact fun _ _ _ _ hbefore hu hstep => triggered_step hu hbefore hstep
  have hclosed : s.stop.Closed plan (settles acts) := by
    refine exec_trace (I := fun acts u => u.stop.Closed plan (settles acts)) ?_ ?_ hrun
    · rw [hstart]
      rfl
    · intro before u a v _ hu hstep
      rw [settles_append]
      exact (stopStep_moves hstep).closed hu
  rw [hexit] at hclosed
  simp only [Triggered, hexit, StopState.origin] at htriggered
  exact ⟨htriggered.1, hclosed⟩

/-- No time passes beyond a timer that is due. -/
def OnTime (plan : StopPlan τ ρ) (s : Stoppable τ ρ) : StopAction τ β → Prop
  | .wait ms => ∀ deadline ∈ s.stop.deadline plan, s.now + ms ≤ deadline
  | _ => True

instance OnTime.decidable (plan : StopPlan τ ρ) (s : Stoppable τ ρ) :
    ∀ a : StopAction τ β, Decidable (OnTime plan s a)
  | .wait ms => inferInstanceAs (Decidable (∀ deadline ∈ s.stop.deadline plan,
      s.now + ms ≤ deadline))
  | .work _ | .trigger _ | .settle _ | .force => .isTrue trivial

/-- Where timers are served on time, a stop is over within its grace period. -/
def StopState.Prompt (plan : StopPlan τ ρ) (now : ℤ) : StopState τ ρ → Prop
  | .running => True
  | .closing _ since _ _ | .stuck _ since => now ≤ since + plan.graceMs
  | .exited _ since at_ _ => at_ ≤ since + plan.graceMs

theorem StopState.goOn_prompt {now : ℤ} (hnow : now ≤ since + plan.graceMs)
    (parts : List (StopPart ρ)) : (goOn now t since code parts).Prompt plan now := by
  cases parts with
  | nil => exact hnow
  | cons part parts => exact hnow

theorem StopMove.prompt (hgrace : 0 ≤ plan.graceMs) (h : StopMove plan s a s')
    (hontime : OnTime plan s a) (hs : s.stop.Prompt plan s.now) :
    s'.stop.Prompt plan s'.now := by
  cases h with
  | kept => exact hs
  | @waited ms hexit =>
      cases hstop : s.stop with
      | running => trivial
      | closing t since parts code =>
          exact hontime (since + plan.graceMs) (by rw [hstop]; rfl)
      | stuck t since => exact hontime (since + plan.graceMs) (by rw [hstop]; rfl)
      | exited t since at_ code => exact (hexit t since at_ code hstop).elim
  | began => exact StopState.goOn_prompt (Int.le_add_of_nonneg_right hgrace) _
  | @settled ok t since part left code hclosing =>
      rw [hclosing] at hs
      cases ok with
      | true => exact StopState.goOn_prompt hs left
      | false =>
          obtain ⟨onFailure, ready⟩ := part
          cases onFailure with
          | passedOver | exitsWith => exact StopState.goOn_prompt hs left
          | stuck => exact hs
  | @forced t since horigin _ hlate =>
      cases hstop : s.stop with
      | closing t' since' parts code =>
          obtain ⟨rfl, rfl⟩ : t' = t ∧ since' = since := by
            simpa [hstop, StopState.origin] using horigin
          rw [hstop] at hs
          exact hs
      | stuck t' since' =>
          obtain ⟨rfl, rfl⟩ : t' = t ∧ since' = since := by
            simpa [hstop, StopState.origin] using horigin
          rw [hstop] at hs
          exact hs
      | running => simp [hstop, StopState.origin] at horigin
      | exited t' since' at_ code => simp_all [StopState.deadline]

theorem exec_prompt {start : Stoppable τ ρ} (hgrace : 0 ≤ plan.graceMs)
    (hstart : start.stop = .running)
    (hontime : Along (stopStep plan work listens takeDown) (OnTime plan) start acts)
    (hrun : exec (stopStep plan work listens takeDown) start acts = some s) :
    s.stop.Prompt plan s.now :=
  exec_invariant_along (I := fun u => u.stop.Prompt plan u.now)
    (fun _ _ _ hu hgood hstep => (stopStep_moves hstep).prompt hgrace hgood hu)
    (hstart ▸ trivial) hontime hrun

end Runs

end Library
