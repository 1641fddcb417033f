import Eventify.RateLimit
import Mathlib.Tactic.Ring

/-!
# The rate limiter while Redis fails

A request whose script Redis does not answer goes on. Redis may refuse a call,
lose the reply of one that it has run, and come back empty. What still passes
is bounded by an account: what has passed and what the open window has left
stay within the limits of the windows that an interval can meet.
-/

namespace Eventify

open Library

/-- What becomes of a call of the script. -/
inductive ScriptFate where
  | answers
  | replyLost (failure : Failure)
  | refused (failure : Failure)
  deriving DecidableEq, Repr

def ScriptFate.failed : ScriptFate → Bool
  | .answers => false
  | .replyLost _ | .refused _ => true

def ScriptFate.counted : ScriptFate → Bool
  | .answers | .replyLost _ => true
  | .refused _ => false

structure LimiterEntry extends ServedRequest where
  fate : ScriptFate

structure LimiterService where
  now : ℤ
  store : RateStore
  log : List LimiterEntry
  restarts : List ℤ

inductive LimiterAction where
  | request (req : RateRequest) (fate : ScriptFate)
  | restart (time : ℤ)

def callScript (options : RateLimitOptions) (store : RateStore) (req : RateRequest) :
    ScriptFate → Except Failure RedisReply × RateStore
  | .answers =>
      let (reply, store) := windowScript store req.time (options.key req.identity)
        options.windowSeconds
      (.ok reply, store)
  | .replyLost failure =>
      (.error failure,
        (windowScript store req.time (options.key req.identity) options.windowSeconds).2)
  | .refused failure => (.error failure, store)

namespace LimiterService

def start (now : ℤ) : LimiterService := ⟨now, fun _ => none, [], []⟩

/-- The answer to a request whose script has this fate. -/
def answer (s : LimiterService) (options : RateLimitOptions) (req : RateRequest)
    (fate : ScriptFate) : LimiterEntry :=
  ⟨⟨req.identity, req.time, redisRateLimit options (callScript options s.store req fate).1⟩, fate⟩

/-- The requests of an identity from `a` until before `b` of a kind. -/
def count (s : LimiterService) (identity : String) (a b : ℤ) (kind : LimiterEntry → Bool) : ℕ :=
  s.log.countP fun entry => entry.identity == identity &&
    (decide (a ≤ entry.time) && decide (entry.time < b)) && kind entry

def passes (s : LimiterService) (identity : String) (a b : ℤ) : ℕ :=
  s.count identity a b (·.answer.passed)

def failures (s : LimiterService) (identity : String) (a b : ℤ) : ℕ :=
  s.count identity a b (·.fate.failed)

def restartsIn (s : LimiterService) (a b : ℤ) : ℕ :=
  s.restarts.countP fun time => decide (a ≤ time) && decide (time < b)

end LimiterService

/-- Redis runs the scripts one after the other, in the order of time. -/
def limiterStep (options : RateLimitOptions) (s : LimiterService) :
    LimiterAction → Option LimiterService
  | .request req fate =>
      if req.time < s.now then none
      else some { s with
        now := req.time
        store := (callScript options s.store req fate).2
        log := s.log ++ [s.answer options req fate] }
  | .restart time =>
      if time < s.now then none
      else some { s with now := time, store := fun _ => none, restarts := s.restarts ++ [time] }

section Counters

variable {options : RateLimitOptions} {s s' : LimiterService} {identity : String}
variable {req : RateRequest} {fate : ScriptFate}

/-- The passes that Redis has answered. -/
def LimiterEntry.admitted (entry : LimiterEntry) : Bool :=
  !entry.fate.failed && entry.answer.passed

/-- A counter of an identity in Redis has an expiry, and no more requests than
Redis has run for the identity since its window was opened. -/
structure Counter (options : RateLimitOptions) (identity : String) (s : LimiterService)
    (counter : WindowCounter) (expiresAt : ℤ) : Prop where
  expires : counter.expiresAt = some expiresAt
  positive : 1 ≤ counter.count
  opened : expiresAt ≤ s.now + options.windowSeconds
  counted : counter.count ≤ s.log.countP fun entry => entry.identity == identity &&
    decide (expiresAt - options.windowSeconds ≤ entry.time) && entry.fate.counted

def KeptCounters (options : RateLimitOptions) (s : LimiterService) : Prop :=
  ∀ identity counter, s.store (options.key identity) = some counter →
    ∃ expiresAt, Counter options identity s counter expiresAt

/-- What a step does: a call that is not counted leaves Redis as it is, one that
is counted opens a window or goes on with the open one. -/
inductive LimiterMove (options : RateLimitOptions) (s : LimiterService) :
    LimiterAction → LimiterService → Prop
  | refused {req : RateRequest} {fate : ScriptFate} (hlater : s.now ≤ req.time)
      (hfate : fate.counted = false) : LimiterMove options s (.request req fate)
        { s with now := req.time, log := s.log ++ [s.answer options req fate] }
  | opens {req : RateRequest} {fate : ScriptFate} (hlater : s.now ≤ req.time)
      (hfate : fate.counted = true)
      (hlive : s.store.live req.time (options.key req.identity) = none)
      (hpassed : (s.answer options req fate).answer.passed = true) :
      LimiterMove options s (.request req fate) { s with
        now := req.time
        store := Function.update s.store (options.key req.identity)
          (some ⟨1, some (req.time + options.windowSeconds)⟩)
        log := s.log ++ [s.answer options req fate] }
  | counts {req : RateRequest} {fate : ScriptFate} {count : ℕ} {expiresAt : ℤ}
      (hlater : s.now ≤ req.time) (hfate : fate.counted = true)
      (hlive : s.store.live req.time (options.key req.identity) = some ⟨count, some expiresAt⟩)
      (hpassed : (s.answer options req fate).answer.passed =
        (fate.failed || decide (count + 1 ≤ options.limit))) :
      LimiterMove options s (.request req fate) { s with
        now := req.time
        store := Function.update s.store (options.key req.identity)
          (some ⟨count + 1, some expiresAt⟩)
        log := s.log ++ [s.answer options req fate] }
  | restarted {time : ℤ} (hlater : s.now ≤ time) : LimiterMove options s (.restart time)
      { s with now := time, store := fun _ => none, restarts := s.restarts ++ [time] }

theorem redisRateLimit_passed (options : RateLimitOptions) (count : ℕ) (ttl : ℤ) :
    (redisRateLimit options (.ok (.array [(count : ℤ), ttl]))).passed =
      decide (count ≤ options.limit) := by
  simp only [redisRateLimit, parsePair, List.getElem?_cons_zero, Option.getD_some]
  by_cases hover : options.limit < count
  · simp [RateLimitAnswer.passed, hover]
  · simp [RateLimitAnswer.passed, hover, Nat.le_of_not_lt hover]

theorem callScript_of_counted (h : fate.counted = true) {store : RateStore} {count : ℕ} {ttl : ℤ}
    {after : RateStore} (hscript : windowScript store req.time (options.key req.identity)
      options.windowSeconds = (.array [(count : ℤ), ttl], after)) :
    (callScript options store req fate).2 = after ∧
      (redisRateLimit options (callScript options store req fate).1).passed =
        (fate.failed || decide (count ≤ options.limit)) := by
  cases fate with
  | answers =>
      have hcall : callScript options store req .answers = (.ok (.array [count, ttl]), after) := by
        rw [callScript, hscript]
      rw [hcall]
      exact ⟨rfl, redisRateLimit_passed options count ttl⟩
  | replyLost failure =>
      have hcall : callScript options store req (.replyLost failure) = (.error failure, after) := by
        rw [callScript, hscript]
      rw [hcall]
      exact ⟨rfl, rfl⟩
  | refused => cases h

/-- A live counter of an identity is the stored one. -/
theorem KeptCounters.live (hs : KeptCounters options s) {now : ℤ} {counter : WindowCounter}
    (h : s.store.live now (options.key identity) = some counter) :
    s.store (options.key identity) = some counter ∧
      ∃ expiresAt, Counter options identity s counter expiresAt ∧ now < expiresAt := by
  obtain ⟨hstore, hlive⟩ := Option.filter_eq_some_iff.mp h
  obtain ⟨expiresAt, hcounter⟩ := hs identity counter hstore
  refine ⟨hstore, expiresAt, hcounter, ?_⟩
  simpa [hcounter.expires] using hlive

theorem KeptCounters.move (hs : KeptCounters options s) {a : LimiterAction}
    (h : limiterStep options s a = some s') : LimiterMove options s a s' := by
  cases a with
  | restart time =>
      simp only [limiterStep] at h
      split at h
      · cases h
      · next hlater =>
          obtain rfl := Option.some.inj h
          exact .restarted (not_lt.mp hlater)
  | request req fate =>
      simp only [limiterStep] at h
      split at h
      · cases h
      · next hlater =>
          obtain rfl := Option.some.inj h
          have hlater := not_lt.mp hlater
          cases hfate : fate.counted with
          | false =>
              cases fate with
              | answers | replyLost => cases hfate
              | refused failure => exact .refused hlater hfate
          | true =>
              cases hlive : s.store.live req.time (options.key req.identity) with
              | none =>
                  have hscript := windowScript_fresh hlive options.windowSeconds_pos
                  obtain ⟨hstore, hpassed⟩ := callScript_of_counted hfate hscript
                  rw [hstore]
                  refine .opens hlater hfate hlive (hpassed.trans ?_)
                  rw [decide_eq_true options.limit_pos, Bool.or_true]
              | some counter =>
                  obtain ⟨-, expiresAt, hcounter, hopen⟩ := hs.live hlive
                  obtain ⟨count, _⟩ := counter
                  obtain rfl := hcounter.expires
                  have hscript := windowScript_counted hlive hcounter.positive hopen
                    options.windowSeconds
                  obtain ⟨hstore, hpassed⟩ := callScript_of_counted hfate hscript
                  rw [hstore]
                  exact .counts hlater hfate hlive hpassed

/-- What is stored for an identity, behind an update of some key. -/
theorem update_key_cases {store : RateStore} {other : String} {new counter : WindowCounter}
    (h : Function.update store (options.key other) (some new) (options.key identity) =
      some counter) :
    other = identity ∧ new = counter ∨ other ≠ identity ∧
      store (options.key identity) = some counter := by
  by_cases hsame : other = identity
  · subst hsame
    rw [Function.update_self] at h
    exact .inl ⟨rfl, Option.some.inj h⟩
  · have hkey : options.key identity ≠ options.key other :=
      fun hkey => hsame (options.key_inj.mp hkey).symm
    rw [Function.update_of_ne hkey] at h
    exact .inr ⟨hsame, h⟩

/-- A counter that a step leaves stays good. -/
theorem Counter.mono {counter : WindowCounter} {expiresAt : ℤ}
    (h : Counter options identity s counter expiresAt) (hnow : s.now ≤ s'.now)
    (hlog : s.log <+: s'.log) : Counter options identity s' counter expiresAt where
  expires := h.expires
  positive := h.positive
  opened := h.opened.trans (Int.add_le_add_right hnow _)
  counted := h.counted.trans (hlog.sublist.countP_le)

theorem KeptCounters.step (hs : KeptCounters options s) {a : LimiterAction}
    (h : limiterStep options s a = some s') : KeptCounters options s' := by
  intro identity counter hstored
  cases hs.move h with
  | refused hlater hfate =>
      obtain ⟨expiresAt, hcounter⟩ := hs identity counter hstored
      exact ⟨expiresAt, hcounter.mono hlater (List.prefix_append _ _)⟩
  | @opens req fate hlater hfate hlive =>
      rcases update_key_cases hstored with ⟨rfl, rfl⟩ | ⟨-, hold⟩
      · refine ⟨req.time + options.windowSeconds, rfl, le_rfl, le_rfl, ?_⟩
        rw [List.countP_append]
        simp [LimiterService.answer, hfate]
      · obtain ⟨expiresAt, hcounter⟩ := hs identity counter hold
        exact ⟨expiresAt, hcounter.mono hlater (List.prefix_append _ _)⟩
  | @counts req fate count expiresAt hlater hfate hlive =>
      rcases update_key_cases hstored with ⟨rfl, rfl⟩ | ⟨-, hold⟩
      · obtain ⟨-, expiresAt', hcounter, hopen⟩ := hs.live hlive
        obtain rfl := Option.some.inj hcounter.expires
        have hopened := hcounter.opened.trans (Int.add_le_add_right hlater options.windowSeconds)
        have hcounted := hcounter.counted
        refine ⟨expiresAt, rfl, Nat.le_add_left 1 count, hopened, ?_⟩
        rw [List.countP_append]
        simpa [LimiterService.answer, hfate, hopened] using hcounted
      · obtain ⟨expiresAt, hcounter⟩ := hs identity counter hold
        exact ⟨expiresAt, hcounter.mono hlater (List.prefix_append _ _)⟩
  | restarted => cases hstored

/-! ### What an interval can hold -/

theorem count_append {entry : LimiterEntry} (h : s'.log = s.log ++ [entry]) (a b : ℤ)
    (kind : LimiterEntry → Bool) :
    s'.count identity a b kind = s.count identity a b kind +
      if entry.identity = identity ∧ (a ≤ entry.time ∧ entry.time < b) ∧ kind entry then 1
      else 0 := by
  rw [LimiterService.count, h, List.countP_append]
  simp [LimiterService.count, List.countP_singleton, and_assoc]

theorem restartsIn_append {time : ℤ} (h : s'.restarts = s.restarts ++ [time]) (a b : ℤ) :
    s'.restartsIn a b = s.restartsIn a b + if a ≤ time ∧ time < b then 1 else 0 := by
  rw [LimiterService.restartsIn, h, List.countP_append]
  simp [LimiterService.restartsIn, List.countP_singleton]

theorem live_update_key (store : RateStore) (key : String) (count : ℕ) (expiresAt t : ℤ) :
    RateStore.live (Function.update store key (some ⟨count, some expiresAt⟩)) t key =
      if t < expiresAt then some ⟨count, some expiresAt⟩ else none := by
  rw [RateStore.live, Function.update_self]
  by_cases hopen : t < expiresAt <;> simp [Option.filter, hopen]

/-- What Redis has admitted of an identity in the interval of one window's length. -/
def LimiterService.admitted (s : LimiterService) (options : RateLimitOptions) (identity : String)
    (a : ℤ) : ℕ :=
  s.count identity a (a + options.windowSeconds) LimiterEntry.admitted

/-- The account of such an interval: what has been admitted in it and what the
open window has left. A window that ends within the interval was open before it,
so that one window and one for each restart are used up. -/
structure Budget (options : RateLimitOptions) (identity : String) (a : ℤ) (s : LimiterService) :
    Prop where
  early : s.now < a → s.admitted options identity a = 0
  total : s.admitted options identity a ≤
    (2 + s.restartsIn a (a + options.windowSeconds)) * options.limit
  ended : ∀ t, s.now ≤ t → t < a + options.windowSeconds →
    s.store.live t (options.key identity) = none →
    s.admitted options identity a ≤
      (1 + s.restartsIn a (a + options.windowSeconds)) * options.limit
  open_ : ∀ t count expiresAt, s.now ≤ t → t < a + options.windowSeconds →
    s.store.live t (options.key identity) = some ⟨count, some expiresAt⟩ →
    s.admitted options identity a + (options.limit - count) ≤
      ((if expiresAt < a + options.windowSeconds then 1 else 2) +
        s.restartsIn a (a + options.windowSeconds)) * options.limit

/-- A step that neither admits a request of the identity nor touches its key. -/
theorem Budget.kept {a : ℤ} (hs : Budget options identity a s) (hnow : s.now ≤ s'.now)
    (hstore : s'.store (options.key identity) = s.store (options.key identity))
    (hadmitted : s'.admitted options identity a = s.admitted options identity a)
    (hrestarts : s'.restarts = s.restarts) : Budget options identity a s' := by
  have hlive : ∀ t, s'.store.live t (options.key identity) =
      s.store.live t (options.key identity) := fun t => by rw [RateStore.live, hstore]; rfl
  have hrestartsIn : ∀ b, s'.restartsIn a b = s.restartsIn a b := fun b => by
    rw [LimiterService.restartsIn, hrestarts]
    rfl
  refine ⟨fun hearly => ?_, ?_, fun t ht => ?_, fun t count expiresAt ht => ?_⟩
  · rw [hadmitted]
    exact hs.early (hnow.trans_lt hearly)
  · rw [hadmitted, hrestartsIn]
    exact hs.total
  · rw [hadmitted, hrestartsIn, hlive]
    exact hs.ended t (hnow.trans ht)
  · rw [hadmitted, hrestartsIn, hlive]
    exact hs.open_ t count expiresAt (hnow.trans ht)

/-- An entry adds at most one: if it is of the identity, within the interval and
admitted. -/
theorem admitted_append (options : RateLimitOptions) (identity : String) {entry : LimiterEntry}
    (h : s'.log = s.log ++ [entry]) (a : ℤ) :
    s'.admitted options identity a = s.admitted options identity a ∨
      s'.admitted options identity a = s.admitted options identity a + 1 ∧
        entry.identity = identity ∧ a ≤ entry.time ∧ entry.time < a + options.windowSeconds ∧
        entry.admitted = true := by
  rw [LimiterService.admitted, count_append h]
  split
  · next hin => exact .inr ⟨rfl, hin.1, hin.2.1.1, hin.2.1.2, hin.2.2⟩
  · exact .inl rfl

theorem admitted_of_not {entry : LimiterEntry} (h : s'.log = s.log ++ [entry])
    (hnot : entry.identity = identity → entry.admitted = false) (a : ℤ) :
    s'.admitted options identity a = s.admitted options identity a := by
  rcases admitted_append options identity h a with hsame | ⟨-, hidentity, -, -, hadmitted⟩
  · exact hsame
  · rw [hnot hidentity] at hadmitted
    cases hadmitted

section Step

variable {a : ℤ} {count : ℕ} {expiresAt : ℤ}

/-- The request that opens a window within the interval takes the place of what
a further window may admit. -/
theorem Budget.opens (hs : Budget options req.identity a s) (hlater : s.now ≤ req.time)
    (hlive : s.store.live req.time (options.key req.identity) = none)
    (hnow : s'.now = req.time)
    (hstore : s'.store = Function.update s.store (options.key req.identity)
      (some ⟨1, some (req.time + options.windowSeconds)⟩))
    (hlog : s'.log = s.log ++ [s.answer options req fate]) (hrestarts : s'.restarts = s.restarts) :
    Budget options req.identity a s' := by
  have hlimit := options.limit_pos
  have hrestartsIn : ∀ b, s'.restartsIn a b = s.restartsIn a b := fun b => by
    rw [LimiterService.restartsIn, hrestarts]
    rfl
  have hearly : req.time < a → s'.admitted options req.identity a = 0 := by
    intro hbefore
    rcases admitted_append options req.identity hlog a with hsame | ⟨-, -, hfrom, -⟩
    · rw [hsame]
      exact hs.early (hlater.trans_lt hbefore)
    · exact absurd hfrom (not_le.mpr hbefore)
  have htwo : (2 + s.restartsIn a (a + options.windowSeconds)) * options.limit =
      (1 + s.restartsIn a (a + options.windowSeconds)) * options.limit + options.limit := by ring
  have hbound : req.time < a + options.windowSeconds →
      s'.admitted options req.identity a ≤
        (1 + s.restartsIn a (a + options.windowSeconds)) * options.limit + 1 := by
    intro hbefore
    have hended := hs.ended req.time hlater hbefore hlive
    rcases admitted_append options req.identity hlog a with hsame | ⟨hone, -⟩
    · exact (hsame.trans_le hended).trans (Nat.le_succ _)
    · exact hone.trans_le (Nat.succ_le_succ hended)
  refine ⟨fun hbefore => hearly (hnow ▸ hbefore), ?_, ?_, ?_⟩
  · have htotal := hs.total
    rw [hrestartsIn]
    rcases admitted_append options req.identity hlog a with hsame | ⟨-, -, -, hbefore, -⟩
    · exact hsame.trans_le htotal
    · have hadmitted := hbound hbefore
      omega
  · intro t ht hin hnone
    rw [hstore, live_update_key] at hnone
    have hbefore : req.time < a := by
      by_contra hafter
      rw [if_pos (by omega)] at hnone
      cases hnone
    rw [hearly hbefore]
    exact Nat.zero_le _
  · intro t count expiresAt ht hin hsome
    rw [hstore, live_update_key] at hsome
    split at hsome
    · obtain ⟨rfl, hexpires⟩ := WindowCounter.mk.inj (Option.some.inj hsome)
      obtain rfl := Option.some.inj hexpires
      rw [hrestartsIn]
      split
      · rw [hearly (by omega)]
        have hle := Nat.le_mul_of_pos_left options.limit
          (Nat.add_pos_left Nat.one_pos (s.restartsIn a (a + options.windowSeconds)))
        omega
      · have hadmitted := hbound (by omega)
        omega
    · cases hsome

/-- A request of the open window takes from what the window has left. -/
theorem Budget.counts (hs : Budget options req.identity a s) (hlater : s.now ≤ req.time)
    (hlive : s.store.live req.time (options.key req.identity) = some ⟨count, some expiresAt⟩)
    (hpassed : (s.answer options req fate).answer.passed =
      (fate.failed || decide (count + 1 ≤ options.limit)))
    (hopen : req.time < expiresAt) (hnow : s'.now = req.time)
    (hstore : s'.store = Function.update s.store (options.key req.identity)
      (some ⟨count + 1, some expiresAt⟩))
    (hlog : s'.log = s.log ++ [s.answer options req fate]) (hrestarts : s'.restarts = s.restarts) :
    Budget options req.identity a s' := by
  have hrestartsIn : ∀ b, s'.restartsIn a b = s.restartsIn a b := fun b => by
    rw [LimiterService.restartsIn, hrestarts]
    rfl
  have hroom : (s.answer options req fate).admitted = true → count + 1 ≤ options.limit := by
    intro hadmitted
    obtain ⟨hanswers, hpasses⟩ := Bool.and_eq_true_iff.mp hadmitted
    have hfailed : fate.failed = false := by simpa [LimiterService.answer] using hanswers
    rw [hpassed, hfailed, Bool.false_or] at hpasses
    exact of_decide_eq_true hpasses
  have htwo : (2 + s.restartsIn a (a + options.windowSeconds)) * options.limit =
      (1 + s.restartsIn a (a + options.windowSeconds)) * options.limit + options.limit := by ring
  have hbound : req.time < a + options.windowSeconds →
      s'.admitted options req.identity a + (options.limit - (count + 1)) ≤
        ((if expiresAt < a + options.windowSeconds then 1 else 2) +
          s.restartsIn a (a + options.windowSeconds)) * options.limit := by
    intro hbefore
    have hleft := hs.open_ req.time count expiresAt hlater hbefore hlive
    rcases admitted_append options req.identity hlog a with hsame | ⟨hone, -, -, -, hadmitted⟩
    · omega
    · have hfits := hroom hadmitted
      omega
  refine ⟨fun hbefore => ?_, ?_, ?_, ?_⟩
  · rcases admitted_append options req.identity hlog a with hsame | ⟨-, -, hfrom, -⟩
    · rw [hsame]
      exact hs.early (hlater.trans_lt (hnow ▸ hbefore))
    · rw [hnow] at hbefore
      exact absurd hfrom (not_le.mpr hbefore)
  · have htotal := hs.total
    rw [hrestartsIn]
    rcases admitted_append options req.identity hlog a with hsame | ⟨-, -, -, hbefore, -⟩
    · exact hsame.trans_le htotal
    · have hadmitted := hbound hbefore
      split at hadmitted <;> omega
  · intro t ht hin hnone
    rw [hstore, live_update_key] at hnone
    split at hnone
    · cases hnone
    · have hadmitted := hbound (by omega)
      rw [if_pos (by omega)] at hadmitted
      rw [hrestartsIn]
      omega
  · intro t count' expiresAt' ht hin hsome
    rw [hstore, live_update_key] at hsome
    split at hsome
    · obtain ⟨rfl, hexpires⟩ := WindowCounter.mk.inj (Option.some.inj hsome)
      obtain rfl := Option.some.inj hexpires
      rw [hrestartsIn]
      exact hbound (by omega)
    · cases hsome

theorem Budget.restarted {time : ℤ} (hs : Budget options identity a s) (hlater : s.now ≤ time) :
    Budget options identity a
      { s with now := time, store := fun _ => none, restarts := s.restarts ++ [time] } := by
  have hrestartsIn : LimiterService.restartsIn { s with
      now := time, store := fun _ => none, restarts := s.restarts ++ [time] } a
      (a + options.windowSeconds) = s.restartsIn a (a + options.windowSeconds) +
        if a ≤ time ∧ time < a + options.windowSeconds then 1 else 0 := restartsIn_append rfl a _
  refine ⟨fun hbefore => hs.early (hlater.trans_lt hbefore), ?_, fun t ht hin _ => ?_, nofun⟩
  · refine hs.total.trans (Nat.mul_le_mul_right _ ?_)
    omega
  · by_cases hbefore : time < a
    · exact (hs.early (hlater.trans_lt hbefore)).trans_le (Nat.zero_le _)
    · refine hs.total.trans (Nat.mul_le_mul_right _ ?_)
      rw [hrestartsIn, if_pos ⟨not_lt.mp hbefore, lt_of_le_of_lt ht hin⟩]
      omega

theorem Budget.step (hs : Budget options identity a s) (hkept : KeptCounters options s)
    {act : LimiterAction} (h : limiterStep options s act = some s') :
    Budget options identity a s' := by
  cases hkept.move h with
  | restarted hlater => exact hs.restarted hlater
  | @refused req fate hlater hfate =>
      refine hs.kept hlater rfl (admitted_of_not rfl (fun _ => ?_) a) rfl
      cases fate with
      | answers | replyLost => cases hfate
      | refused => rfl
  | @opens req fate hlater hfate hlive hpassed =>
      by_cases hsame : req.identity = identity
      · subst hsame
        exact hs.opens hlater hlive rfl rfl rfl rfl
      · refine hs.kept hlater (Function.update_of_ne ?_ _ _)
          (admitted_of_not rfl (fun heq => absurd heq hsame) a) rfl
        exact fun hkey => hsame (options.key_inj.mp hkey).symm
  | @counts req fate count expiresAt hlater hfate hlive hpassed =>
      by_cases hsame : req.identity = identity
      · subst hsame
        obtain ⟨-, expiresAt', hcounter, hopen⟩ := hkept.live hlive
        obtain rfl := Option.some.inj hcounter.expires
        exact hs.counts hlater hlive hpassed hopen rfl rfl rfl rfl
      · refine hs.kept hlater (Function.update_of_ne ?_ _ _)
          (admitted_of_not rfl (fun heq => absurd heq hsame) a) rfl
        exact fun hkey => hsame (options.key_inj.mp hkey).symm

end Step

/-! ### Every run -/

/-- A rejected request was answered by Redis, which has run at least the limit
of requests of the identity within the last window's length. -/
theorem KeptCounters.rejected (hs : KeptCounters options s)
    (h : limiterStep options s (.request req fate) = some s')
    (hrejected : (s.answer options req fate).answer.passed = false) :
    fate = .answers ∧ options.limit ≤ s.log.countP fun entry =>
      entry.identity == req.identity && decide (req.time - options.windowSeconds < entry.time) &&
        entry.fate.counted := by
  have hanswers : fate = .answers := by
    cases fate with
    | answers => rfl
    | replyLost | refused => cases hrejected
  refine ⟨hanswers, ?_⟩
  subst hanswers
  cases hs.move h with
  | refused _ hfate => cases hfate
  | opens _ _ _ hpassed =>
      rw [hpassed] at hrejected
      cases hrejected
  | @counts _ _ count expiresAt hlater hfate hlive hpassed =>
      obtain ⟨-, expiresAt', hcounter, hopen⟩ := hs.live hlive
      obtain rfl := Option.some.inj hcounter.expires
      rw [hpassed] at hrejected
      have hfull : ¬ count + 1 ≤ options.limit := of_decide_eq_false hrejected
      refine (Nat.le_of_lt_succ (not_le.mp hfull)).trans (hcounter.counted.trans ?_)
      refine List.countP_mono_left fun entry _ hin => ?_
      simp only [Bool.and_eq_true, decide_eq_true_eq] at hin ⊢
      exact ⟨⟨hin.1.1, by omega⟩, hin.2⟩

end Counters

end Eventify
