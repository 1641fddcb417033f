import Eventify.Outbox.Delivery
import Eventify.Outbox.Mail

/-!
# From an intent to its mail

`confirmBooking` reads the booking when its job runs, long after the intent was
written, and sends a mail only if the booking is still confirmed. Its two
`await`s are steps of their own here, between those of the backend. Without a
transporter it writes a line on the console in place of the mail.
-/

namespace Eventify

open Library

/-- The user of a booking, as the mail addresses him. -/
structure Recipient where
  email : String
  name : String
  deriving DecidableEq, Repr

/-- `tx.booking.findUnique` of `confirmBooking`, with the user and the event
included: what it goes on to send, if anything. -/
def Database.confirmation (db : Database) (recipients : Uuid → Recipient) (bookingId : Uuid) :
    Option Confirmation :=
  match db.findBooking bookingId with
  | none => none
  | some booking =>
      if booking.status ≠ .confirmed then none
      else (db.findEvent booking.eventId).map fun event =>
        { bookingId := booking.id
          email := (recipients booking.userId).email
          name := (recipients booking.userId).name
          title := event.title
          venue := event.venue
          startsAt := event.startsAt }

/-- What the worker's `config` and the users of the database settle. -/
structure MailSettings where
  retentionDays : ℕ
  recipients : Uuid → Recipient
  transporter : Bool
  emailFrom : String

def MailSettings.send (settings : MailSettings) (input : Confirmation) : MailEffect :=
  sendBookingConfirmation settings.transporter settings.emailFrom input

/-- Where `confirmBooking` is in an execution. -/
inductive MailStage where
  | started
  | found (input : Confirmation)
  | settled
  | rejected
  deriving DecidableEq, Repr

/-- `stages` goes along with the executions of the backend; `sent` lists the
mails that the mail server took and the lines on the console, with their jobs. -/
structure MailRoom where
  backend : Backend
  stages : List MailStage
  sent : List (Uuid × MailEffect)

/-- `transporter.sendMail` may throw; a mail server may take a mail and the reply
be lost. -/
inductive MailAction where
  | backend (a : BackendAction)
  | findBooking (i : ℕ)
  | sendConfirmation (i : ℕ)
  | sendMailThrows (i : ℕ) (delivered : Bool)

namespace MailRoom

def start (db : Database) (now : Time) : MailRoom := ⟨.start db now, [], []⟩

/-- A confirmation returns once it has sent its mail or found nothing to send. -/
def ready (s : MailRoom) : BackendAction → Bool
  | .handlerReturns i _ =>
      match s.backend.executions[i]? with
      | some ⟨_, .bookingConfirmation _, false⟩ => s.stages[i]? == some .settled
      | _ => true
  | _ => true

end MailRoom

def stagesAfter (stages : List MailStage) : BackendAction → List MailStage
  | .startJob _ => stages ++ [.started]
  | .handlerThrows i _ | .completed i | .loseExecution i => stages.eraseIdx i
  | _ => stages

def mailStep (settings : MailSettings) (s : MailRoom) : MailAction → Option MailRoom
  | .backend a =>
      if s.ready a then
        (backendStep settings.retentionDays s.backend a).map fun backend =>
          { s with backend, stages := stagesAfter s.stages a }
      else none
  | .findBooking i =>
      match s.backend.executions[i]?, s.stages[i]? with
      | some ⟨_, .bookingConfirmation bookingId, false⟩, some .started =>
          match s.backend.db.confirmation settings.recipients bookingId with
          | none => some { s with stages := s.stages.set i .settled }
          | some input => some { s with stages := s.stages.set i (.found input) }
      | _, _ => none
  | .sendConfirmation i =>
      match s.backend.executions[i]?, s.stages[i]? with
      | some x, some (.found input) =>
          some { s with
            stages := s.stages.set i .settled
            sent := s.sent ++ [(x.id, settings.send input)] }
      | _, _ => none
  | .sendMailThrows i delivered =>
      match settings.transporter, s.backend.executions[i]?, s.stages[i]? with
      | true, some x, some (.found input) =>
          some { s with
            stages := s.stages.set i .rejected
            sent := if delivered then s.sent ++ [(x.id, settings.send input)] else s.sent }
      | _, _, _ => none

theorem confirmation_bookingId {db : Database} {recipients : Uuid → Recipient} {bookingId : Uuid}
    {input : Confirmation} (h : db.confirmation recipients bookingId = some input) :
    input.bookingId = bookingId := by
  unfold Database.confirmation at h
  split at h
  · cases h
  next booking hfind =>
    split at h
    · cases h
    · obtain ⟨event, -, rfl⟩ := Option.map_eq_some_iff.mp h
      exact Database.findBooking_id hfind

/-! ### Executions and their stages -/

section Executions

variable {retentionDays : ℕ} {s t : Backend} {a : BackendAction}

theorem failAttempt_executions (s : Backend) (id : Uuid) (message : String) :
    (s.failAttempt id message).executions = s.executions := by
  unfold Backend.failAttempt
  split
  · rfl
  · split <;> rfl

/-- Every execution has just started, or is an earlier one with the stage it had. -/
def StagesFrom (executions : List Execution) (stages : List MailStage)
    (executions' : List Execution) (stages' : List MailStage) : Prop :=
  stages'.length = executions'.length ∧ ∀ (j : ℕ) (x' : Execution) (stage : MailStage),
    executions'[j]? = some x' → stages'[j]? = some stage →
      stage = .started ∨ ∃ (i : ℕ) (x : Execution), executions[i]? = some x ∧
        stages[i]? = some stage ∧ x'.id = x.id ∧ x'.intent = x.intent

namespace StagesFrom

variable {executions : List Execution} {stages : List MailStage}

theorem same (hlength : stages.length = executions.length) :
    StagesFrom executions stages executions stages :=
  ⟨hlength, fun j x' _ hx hstage => .inr ⟨j, x', hx, hstage, rfl, rfl⟩⟩

theorem erase (hlength : stages.length = executions.length) (i : ℕ) :
    StagesFrom executions stages (executions.eraseIdx i) (stages.eraseIdx i) := by
  refine ⟨by simp [List.length_eraseIdx, hlength], fun j x' stage hx hstage => ?_⟩
  rw [List.getElem?_eraseIdx] at hx hstage
  by_cases hj : j < i
  · rw [if_pos hj] at hx hstage
    exact (same hlength).2 j x' stage hx hstage
  · rw [if_neg hj] at hx hstage
    exact (same hlength).2 (j + 1) x' stage hx hstage

theorem opens (hlength : stages.length = executions.length) (x : Execution) :
    StagesFrom executions stages (executions ++ [x]) (stages ++ [.started]) := by
  refine ⟨by simp [hlength], fun j x' stage hx hstage => ?_⟩
  by_cases hj : j < executions.length
  · rw [List.getElem?_append_left hj] at hx
    rw [List.getElem?_append_left (hlength ▸ hj)] at hstage
    exact (same hlength).2 j x' stage hx hstage
  · rw [List.getElem?_append_right (by omega)] at hstage
    exact .inl (by simpa using List.mem_of_getElem? hstage)

theorem returns (hlength : stages.length = executions.length) {i : ℕ} {x x' : Execution}
    (hget : executions[i]? = some x) (hid : x'.id = x.id) (hintent : x'.intent = x.intent) :
    StagesFrom executions stages (executions.set i x') stages := by
  refine ⟨by simp [hlength], fun j y stage hy hstage => ?_⟩
  by_cases hj : i = j
  · subst hj
    have hi : i < executions.length := (List.getElem?_eq_some_iff.mp hget).1
    obtain rfl : x' = y := by simpa [hi] using hy
    exact .inr ⟨i, x, hget, hstage, hid, hintent⟩
  · rw [List.getElem?_set_ne hj] at hy
    exact (same hlength).2 j y stage hy hstage

end StagesFrom

theorem backendStep_stages {stages : List MailStage} (hlength : stages.length = s.executions.length)
    (h : backendStep retentionDays s a = some t) :
    StagesFrom s.executions stages t.executions (stagesAfter stages a) := by
  cases backendStep_moves h with
  | committed _ hcommit =>
      rw [Backend.commit_frame hcommit]
      exact .same hlength
  | starts hjob => exact .opens hlength _
  | returns hget _ => exact .returns hlength hget rfl rfl
  | @throws i _ _ _ _ =>
      rw [failAttempt_executions]
      exact .erase hlength i
  | completes => exact .erase hlength _
  | losesExecution i => exact .erase hlength i
  | tick | refused | unedited | edited | begins | selects | adds | addFails | records | recordFails
  | recordsError | recordErrorFails | ends | crashes | stalls | stallsOut | evicts | wipes | marks
  | losesMark | purges => exact .same hlength

theorem handled_after (h : backendStep retentionDays s a = some t) :
    t.handled = s.handled ∨ ∃ i ctx id intent, a = .handlerReturns i ctx ∧
      s.executions[i]? = some ⟨id, intent, false⟩ ∧ t.handled = id :: s.handled := by
  cases backendStep_moves h with
  | committed _ hcommit =>
      rw [Backend.commit_frame hcommit]
      exact .inl rfl
  | @returns i ctx id intent u hget hjob => exact .inr ⟨i, ctx, id, intent, rfl, hget, rfl⟩
  | throws => exact .inl (Backend.failAttempt_quiet _ _ _).2.2
  | tick | refused | unedited | edited | begins | selects | adds | addFails | records | recordFails
  | recordsError | recordErrorFails | ends | crashes | starts | completes | losesExecution | stalls
  | stallsOut | evicts | wipes | marks | losesMark | purges => exact .inl rfl

end Executions

/-! ### What stands behind a mail -/

section Runs

variable (settings : MailSettings) (first : MailRoom)

/-- At some point of the run the intent had been created and this was what its
booking gave to send. -/
def ReadAs (acts : List MailAction) (id bookingId : Uuid) (read : Option Confirmation) : Prop :=
  Lately (mailStep settings) (fun _ _ => True) first acts fun u =>
    (id, .bookingConfirmation bookingId) ∈ u.backend.created ∧
      u.backend.db.confirmation settings.recipients bookingId = read

/-- The confirmation is out, or there was nothing to send. -/
def Answered (acts : List MailAction) (sent : List (Uuid × MailEffect))
    (id bookingId : Uuid) : Prop :=
  (∃ input, (id, settings.send input) ∈ sent ∧ input.bookingId = bookingId) ∨
    ReadAs settings first acts id bookingId none

structure Mailed (acts : List MailAction) (s : MailRoom) : Prop where
  known : Known s.backend
  length : s.stages.length = s.backend.executions.length
  found : ∀ (i : ℕ) (x : Execution) (input : Confirmation),
    s.backend.executions[i]? = some x → s.stages[i]? = some (.found input) →
    x.intent = .bookingConfirmation input.bookingId ∧
      ReadAs settings first acts x.id input.bookingId (some input)
  settled : ∀ (i : ℕ) (x : Execution) (bookingId : Uuid),
    s.backend.executions[i]? = some x → s.stages[i]? = some .settled →
    x.intent = .bookingConfirmation bookingId →
      Answered settings first acts s.sent x.id bookingId
  handled : ∀ id ∈ s.backend.handled, ∀ bookingId,
    (id, .bookingConfirmation bookingId) ∈ s.backend.created →
      Answered settings first acts s.sent id bookingId
  sent : ∀ id effect, (id, effect) ∈ s.sent → ∃ input, effect = settings.send input ∧
    ReadAs settings first acts id input.bookingId (some input)

variable {settings first} {acts : List MailAction} {s t : MailRoom} {a : MailAction}
variable {id bookingId : Uuid} {read : Option Confirmation}

theorem ReadAs.append (h : ReadAs settings first acts id bookingId read)
    (hrun : exec (mailStep settings) first acts = some s) (a : MailAction) :
    ReadAs settings first (acts ++ [a]) id bookingId read :=
  Lately.append h hrun trivial fun _ hu => hu

theorem ReadAs.of_now (hcreated : (id, .bookingConfirmation bookingId) ∈ s.backend.created)
    (hrun : exec (mailStep settings) first acts = some s) :
    ReadAs settings first acts id bookingId
      (s.backend.db.confirmation settings.recipients bookingId) :=
  Lately.of_now hrun ⟨hcreated, rfl⟩

theorem Answered.append {sent sent' : List (Uuid × MailEffect)}
    (h : Answered settings first acts sent id bookingId)
    (hrun : exec (mailStep settings) first acts = some s) (a : MailAction)
    (hsent : sent ⊆ sent') :
    Answered settings first (acts ++ [a]) sent' id bookingId := by
  rcases h with ⟨input, hmem, hid⟩ | hread
  · exact .inl ⟨input, hsent hmem, hid⟩
  · exact .inr (hread.append hrun a)

namespace Mailed

theorem start (db : Database) (now : Time) :
    Mailed settings (.start db now) [] (.start db now) where
  known := .start db now
  length := rfl
  found := by simp [MailRoom.start, Backend.start]
  settled := by simp [MailRoom.start, Backend.start]
  handled := by simp [MailRoom.start, Backend.start]
  sent := by simp [MailRoom.start]

/-- The intent of an execution is one that a transaction created. -/
theorem created (hs : Mailed settings first acts s) {i : ℕ} {x : Execution}
    (hx : s.backend.executions[i]? = some x) : (x.id, x.intent) ∈ s.backend.created :=
  hs.known.carried _ _ (.running (List.mem_of_getElem? hx))

theorem backend {b : BackendAction} {next : Backend}
    (hs : Mailed settings first acts s)
    (hrun : exec (mailStep settings) first acts = some s)
    (hready : s.ready b = true) (h : backendStep retentionDays s.backend b = some next) :
    Mailed settings first (acts ++ [.backend b])
      { s with backend := next, stages := stagesAfter s.stages b } := by
  have hknown : Known next := hs.known.step h
  obtain ⟨new, hcreated⟩ := (backendStep_change h).rows.created
  have hgrow : ∀ key ∈ s.backend.created, key ∈ next.created := fun key hkey =>
    hcreated ▸ List.mem_append_left _ hkey
  obtain ⟨hlength, horigin⟩ := backendStep_stages hs.length h
  refine ⟨hknown, hlength, ?_, ?_, ?_, ?_⟩
  · intro j x' input hx' hstage
    rcases horigin j x' _ hx' hstage with hnew | ⟨i, x, hx, hold, hid, hintent⟩
    · cases hnew
    · obtain ⟨hsame, hread⟩ := hs.found i x input hx hold
      rw [hid, hintent]
      exact ⟨hsame, hread.append hrun _⟩
  · intro j x' bookingId hx' hstage hconfirms
    rcases horigin j x' _ hx' hstage with hnew | ⟨i, x, hx, hold, hid, hintent⟩
    · cases hnew
    · rw [hid]
      exact (hs.settled i x bookingId hx hold (hintent ▸ hconfirms)).append hrun _
        (List.Subset.refl _)
  · intro id hid bookingId hmem
    -- an id that was handled before was created before, with the same intent
    have hold (hid : id ∈ s.backend.handled) :
        Answered settings first acts s.sent id bookingId := by
      obtain ⟨⟨id', intent⟩, hkey, rfl⟩ := List.mem_map.mp (hs.known.handled id hid)
      obtain rfl : intent = .bookingConfirmation bookingId :=
        hknown.intent_unique (hgrow _ hkey) hmem
      exact hs.handled _ hid bookingId hkey
    have hanswered : Answered settings first acts s.sent id bookingId := by
      rcases handled_after h with hsame | ⟨i, ctx, id', intent, rfl, hget, hcons⟩
      · exact hold (hsame ▸ hid)
      · rcases List.mem_cons.mp (hcons ▸ hid) with rfl | hearlier
        · -- the processor that returns has settled its mail
          obtain rfl : intent = .bookingConfirmation bookingId :=
            hknown.intent_unique (hgrow _ (hs.created hget)) hmem
          have hstage : s.stages[i]? = some .settled := by
            simpa [MailRoom.ready, hget] using hready
          exact hs.settled i _ bookingId hget hstage rfl
        · exact hold hearlier
    exact hanswered.append hrun _ (List.Subset.refl _)
  · intro id effect hmem
    obtain ⟨input, rfl, hread⟩ := hs.sent id effect hmem
    exact ⟨input, rfl, hread.append hrun _⟩

/-- One execution comes to another stage, and confirmations may go out. -/
theorem setStage {i : ℕ} {x : Execution} {stage : MailStage} {sent : List (Uuid × MailEffect)}
    (hs : Mailed settings first acts s)
    (hrun : exec (mailStep settings) first acts = some s) (a : MailAction)
    (hx : s.backend.executions[i]? = some x) (hkept : s.sent ⊆ sent)
    (hfound : ∀ input, stage = .found input → x.intent = .bookingConfirmation input.bookingId ∧
      ReadAs settings first acts x.id input.bookingId (some input))
    (hsettled : stage = .settled → ∀ bookingId, x.intent = .bookingConfirmation bookingId →
      Answered settings first acts sent x.id bookingId)
    (hsent : ∀ id effect, (id, effect) ∈ sent → ∃ input, effect = settings.send input ∧
      ReadAs settings first acts id input.bookingId (some input)) :
    Mailed settings first (acts ++ [a])
      { s with stages := s.stages.set i stage, sent } := by
  have hat {j : ℕ} {y : Execution} {other : MailStage} (hy : s.backend.executions[j]? = some y)
      (hstage : (s.stages.set i stage)[j]? = some other) :
      (y = x ∧ other = stage) ∨ s.stages[j]? = some other := by
    by_cases hj : i = j
    · subst hj
      obtain rfl : x = y := Option.some.inj (hx.symm.trans hy)
      rw [List.getElem?_set_self'] at hstage
      obtain ⟨-, -, rfl⟩ := Option.map_eq_some_iff.mp hstage
      exact .inl ⟨rfl, rfl⟩
    · exact .inr (by rwa [List.getElem?_set_ne hj] at hstage)
  refine ⟨hs.known, by simpa using hs.length, ?_, ?_, ?_, ?_⟩
  · intro j y input hy hstage
    rcases hat hy hstage with ⟨rfl, hnew⟩ | hold
    · obtain ⟨hintent, hread⟩ := hfound input hnew.symm
      exact ⟨hintent, hread.append hrun a⟩
    · obtain ⟨hintent, hread⟩ := hs.found j y input hy hold
      exact ⟨hintent, hread.append hrun a⟩
  · intro j y bookingId hy hstage hintent
    rcases hat hy hstage with ⟨rfl, hnew⟩ | hold
    · exact (hsettled hnew.symm bookingId hintent).append hrun a (List.Subset.refl _)
    · exact (hs.settled j y bookingId hy hold hintent).append hrun a hkept
  · intro id hid bookingId hcreated
    exact (hs.handled id hid bookingId hcreated).append hrun a hkept
  · intro id effect hmem
    obtain ⟨input, rfl, hread⟩ := hsent id effect hmem
    exact ⟨input, rfl, hread.append hrun a⟩

theorem step (hs : Mailed settings first acts s)
    (hrun : exec (mailStep settings) first acts = some s)
    (h : mailStep settings s a = some t) :
    Mailed settings first (acts ++ [a]) t := by
  cases a with
  | backend b =>
      simp only [mailStep] at h
      split at h
      next hready =>
        obtain ⟨next, hstep, rfl⟩ := Option.map_eq_some_iff.mp h
        exact hs.backend hrun hready hstep
      · cases h
  | findBooking i =>
      simp only [mailStep] at h
      split at h
      next id bookingId hx hstage =>
        have hread := ReadAs.of_now (hs.created hx) hrun
        split at h
        · next hnone =>
            cases h
            refine hs.setStage hrun _ hx (List.Subset.refl _) nofun ?_ hs.sent
            rintro - _ ⟨⟩
            exact .inr (hnone ▸ hread)
        · next input hsome =>
            cases h
            refine hs.setStage hrun _ hx (List.Subset.refl _) ?_ nofun hs.sent
            rintro _ ⟨⟩
            obtain rfl := confirmation_bookingId hsome
            exact ⟨rfl, hsome ▸ hread⟩
      · cases h
  | sendConfirmation i =>
      simp only [mailStep] at h
      split at h
      next x input hx hstage =>
        cases h
        obtain ⟨hintent, hread⟩ := hs.found i x input hx hstage
        refine hs.setStage hrun _ hx (List.subset_append_left _ _) nofun ?_ ?_
        · intro _ bookingId hconfirms
          have hsame := Intent.bookingConfirmation.inj (hintent.symm.trans hconfirms)
          exact .inl ⟨input, List.mem_append_right _ (List.mem_singleton_self _), hsame⟩
        · intro id effect hmem
          rcases List.mem_append.mp hmem with hold | hnew
          · exact hs.sent id effect hold
          · obtain ⟨rfl, rfl⟩ := Prod.mk.inj (List.mem_singleton.mp hnew)
            exact ⟨input, rfl, hread⟩
      · cases h
  | sendMailThrows i delivered =>
      simp only [mailStep] at h
      split at h
      next x input _ hx hstage =>
        cases h
        obtain ⟨hintent, hread⟩ := hs.found i x input hx hstage
        refine hs.setStage hrun _ hx ?_ nofun nofun ?_
        · split
          · exact List.subset_append_left _ _
          · exact List.Subset.refl _
        · intro id effect hmem
          split at hmem
          · rcases List.mem_append.mp hmem with hold | hnew
            · exact hs.sent id effect hold
            · obtain ⟨rfl, rfl⟩ := Prod.mk.inj (List.mem_singleton.mp hnew)
              exact ⟨input, rfl, hread⟩
          · exact hs.sent id effect hmem
      · cases h

end Mailed

end Runs

/-- From the seat to the mail, whatever crashes, repeats or gets lost between:
what is sent, a mail or without a transporter a line, tells what the rows were
at some point after its intent was created, its booking being confirmed then;
and an intent is marked sent only if its confirmation is out, or its booking was
found not confirmed. -/
theorem confirmations_mailed {settings : MailSettings} {db : Database} {now : Time}
    {acts : List MailAction} {s : MailRoom}
    (hrun : exec (mailStep settings) (.start db now) acts = some s) :
    (∀ id effect, (id, effect) ∈ s.sent → ∃ input,
      effect = sendBookingConfirmation settings.transporter settings.emailFrom input ∧
        ReadAs settings (.start db now) acts id input.bookingId (some input)) ∧
    ∀ row ∈ s.backend.db.outbox.rows, row.status = .sent →
      ∀ bookingId, row.intent = .bookingConfirmation bookingId →
        (∃ input, (row.id,
            sendBookingConfirmation settings.transporter settings.emailFrom input) ∈ s.sent ∧
          input.bookingId = bookingId) ∨
          ReadAs settings (.start db now) acts row.id bookingId none := by
  have hs : Mailed settings (.start db now) acts s :=
    exec_trace (I := Mailed settings (.start db now)) (.start db now)
      (fun _ _ _ _ hbefore hu hstep => hu.step hbefore hstep) hrun
  refine ⟨hs.sent, fun row hrow hsent bookingId hintent => ?_⟩
  have hcreated : (row.id, row.intent) ∈ s.backend.created := hs.known.rows row hrow
  exact hs.handled row.id (hs.known.sent row hrow hsent) bookingId (hintent ▸ hcreated)

def annsMail : Confirmation := ⟨"a-0", "ann@example.com", "Ann", "Solo", "Room 1", 1000⟩

def annsSettings : MailSettings :=
  ⟨30, fun _ => ⟨"ann@example.com", "Ann"⟩, true, "Eventify <no-reply@eventify.local>"⟩

/-- Ann books the seat; the first attempt of the job sends the mail and fails. -/
def mailedRun : List MailAction :=
  [.backend (.transact (drawing 0 "a") (.createBooking ⟨"ann", .attendee⟩ "e")),
    .backend (.beginPass 0 0), .backend (.select 0 (OrderBy.stable _)), .backend (.add 0),
    .backend (.recordEnqueued 0 0), .backend (.endPass 0), .backend (.startJob "a-1"),
    .findBooking 0, .sendMailThrows 0 true, .backend (.handlerThrows 0 "timeout"),
    .backend (.startJob "a-1"), .findBooking 0, .sendConfirmation 0,
    .backend (.handlerReturns 0 (drawing 0 "b")), .backend (.completed 0), .backend (.mark 0 0)]

theorem confirmations_mailed_ann :
    ∃ s, exec (mailStep annsSettings) (.start soloDatabase 0) mailedRun = some s ∧
      s.sent = List.replicate 2 ("a-1", .sendMail ⟨"Eventify <no-reply@eventify.local>",
        "ann@example.com", annsMail.subject, annsMail.text, annsMail.html⟩) ∧
      s.backend.db.outbox.rows.map NotificationOutbox.status = [.sent] ∧
      ∃ input, annsSettings.send annsMail = annsSettings.send input ∧
        ReadAs annsSettings (.start soloDatabase 0) mailedRun "a-1" input.bookingId
          (some input) := by
  obtain ⟨s, hrun, hmails, hsent⟩ : ∃ s,
      exec (mailStep annsSettings) (.start soloDatabase 0) mailedRun = some s ∧
      s.sent = List.replicate 2 ("a-1", annsSettings.send annsMail) ∧
      s.backend.db.outbox.rows.map NotificationOutbox.status = [.sent] := ⟨_, rfl, rfl, rfl⟩
  refine ⟨s, hrun, hmails, hsent, ?_⟩
  exact (confirmations_mailed hrun).1 "a-1" (annsSettings.send annsMail) (by simp [hmails])

end Eventify
