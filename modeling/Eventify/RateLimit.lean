import Eventify.Domain
import Eventify.Library.Machine
import Eventify.Library.Windows

/-!
# The rate limiter

`redisRateLimit` counts the requests of an identity under one Redis key. Only
the request that creates the key gives it an expiry; rejected requests count
like the others. Time is counted in whole seconds here, as `EXPIRE` and `TTL`
count it.
-/

namespace Eventify

open Library

structure RateLimitOptions where
  prefix_ : String
  limit : ℕ
  windowSeconds : ℕ
  limit_pos : 1 ≤ limit
  windowSeconds_pos : 1 ≤ windowSeconds

def RateLimitOptions.key (options : RateLimitOptions) (identity : String) : String :=
  "eventify:ratelimit:" ++ options.prefix_ ++ ":" ++ identity

/-- An integer key; one without an expiry stays for good. -/
structure WindowCounter where
  count : ℕ
  expiresAt : Option ℤ
  deriving DecidableEq, Repr

abbrev RateStore := String → Option WindowCounter

namespace RateStore

/-- A key is gone at the instant of its expiry, where Redis may keep it for that
millisecond. -/
def live (store : RateStore) (now : ℤ) (key : String) : Option WindowCounter :=
  (store key).filter fun counter => counter.expiresAt.all fun expiresAt => decide (now < expiresAt)

def incr (store : RateStore) (now : ℤ) (key : String) : ℤ × RateStore :=
  let counter : WindowCounter :=
    match store.live now key with
    | none => ⟨1, none⟩
    | some counter => { counter with count := counter.count + 1 }
  (counter.count, Function.update store key (some counter))

def expire (store : RateStore) (now : ℤ) (key : String) (seconds : ℕ) : RateStore :=
  match store.live now key with
  | none => store
  | some counter =>
      Function.update store key (some { counter with expiresAt := some (now + seconds) })

def ttl (store : RateStore) (now : ℤ) (key : String) : ℤ :=
  match store.live now key with
  | none => -2
  | some ⟨_, none⟩ => -1
  | some ⟨_, some expiresAt⟩ => expiresAt - now

end RateStore

inductive RedisReply where
  | array (values : List ℤ)
  | other

/-- `WINDOW_SCRIPT`. -/
def windowScript (store : RateStore) (now : ℤ) (key : String) (windowSeconds : ℕ) :
    RedisReply × RateStore :=
  let (count, store) := store.incr now key
  let store := if count = 1 then store.expire now key windowSeconds else store
  (.array [count, store.ttl now key], store)

def parsePair : RedisReply → ℤ × ℤ
  | .array values => (values[0]?.getD 0, values[1]?.getD 0)
  | .other => (0, 0)

structure RateLimitHeaders where
  limit : ℤ
  remaining : ℤ
  reset : ℤ
  deriving DecidableEq, Repr

/-- The headers set, and whether the request goes on to `next`. -/
structure RateLimitAnswer where
  headers : Option RateLimitHeaders
  retryAfter : Option ℤ
  result : Except Failure Unit

/-- A request that Redis does not count goes on without headers. -/
def redisRateLimit (options : RateLimitOptions) (reply : Except Failure RedisReply) :
    RateLimitAnswer :=
  match reply with
  | .error _ => ⟨none, none, .ok ()⟩
  | .ok value =>
      let (count, ttl) := parsePair value
      let reset := max 1 ttl
      let headers : RateLimitHeaders := ⟨options.limit, max 0 (options.limit - count), reset⟩
      if (options.limit : ℤ) < count then
        ⟨some headers, some reset, .error (.status 429 "Too many requests. Try again later.")⟩
      else ⟨some headers, none, .ok ()⟩

structure RateRequest where
  time : ℤ
  ip : Option String
  remoteAddress : Option String
  deriving DecidableEq, Repr

def RateRequest.identity (req : RateRequest) : String :=
  let truthy := fun text : Option String => text.filter fun text => text ≠ ""
  ((truthy req.ip).or (truthy req.remoteAddress)).getD "unknown"

structure ServedRequest where
  identity : String
  time : ℤ
  answer : RateLimitAnswer

def RateLimitAnswer.passed (answer : RateLimitAnswer) : Bool :=
  match answer.result with
  | .ok () => true
  | .error _ => false

structure RateLimiter where
  now : ℤ
  store : RateStore
  log : List ServedRequest

namespace RateLimiter

def start (now : ℤ) : RateLimiter := ⟨now, fun _ => none, []⟩

/-- The answer to a request while Redis is available. -/
def serve (s : RateLimiter) (options : RateLimitOptions) (req : RateRequest) :
    RateLimitAnswer × RateStore :=
  let (reply, store) :=
    windowScript s.store req.time (options.key req.identity) options.windowSeconds
  (redisRateLimit options (.ok reply), store)

/-- The requests of an identity from `a` until before `b` that have passed. -/
def passes (s : RateLimiter) (identity : String) (a b : ℤ) : ℕ :=
  s.log.countP fun served => served.identity == identity &&
    (decide (a ≤ served.time) && decide (served.time < b) && served.answer.passed)

end RateLimiter

/-- Requests are served one after the other, in the order of time. -/
def rateStep (options : RateLimitOptions) (s : RateLimiter) (req : RateRequest) :
    Option RateLimiter :=
  if req.time < s.now then none
  else
    let (answer, store) := s.serve options req
    some ⟨req.time, store, s.log ++ [⟨req.identity, req.time, answer⟩]⟩

section Served

variable {options : RateLimitOptions}

theorem RateLimitOptions.key_inj {a b : String} : options.key a = options.key b ↔ a = b :=
  String.append_right_inj _

/-! ### One run of the script -/

/-- The counter that an arrival leaves in Redis. -/
def Arrival.counter (width : ℤ) (m : Arrival) : WindowCounter :=
  ⟨m.number, some (m.openedAt + width)⟩

theorem live_counter {store : RateStore} {key : String} {width : ℤ} {last : Option Arrival}
    (h : store key = last.map (Arrival.counter width)) (now : ℤ) :
    store.live now key =
      (last.filter fun m => decide (now < m.openedAt + width)).map (Arrival.counter width) := by
  rw [RateStore.live, h]
  cases last with
  | none => rfl
  | some m =>
      simp only [Option.map_some, Option.filter, Arrival.counter, Option.all_some]
      split <;> rfl

@[simp] theorem live_update_fresh (store : RateStore) (now : ℤ) (key : String) (count : ℕ) :
    RateStore.live (Function.update store key (some ⟨count, none⟩)) now key =
      some ⟨count, none⟩ := by
  rw [RateStore.live, Function.update_self]
  rfl

theorem live_update_later (store : RateStore) {now expiresAt : ℤ} (h : now < expiresAt)
    (key : String) (count : ℕ) :
    RateStore.live (Function.update store key (some ⟨count, some expiresAt⟩)) now key =
      some ⟨count, some expiresAt⟩ := by
  rw [RateStore.live, Function.update_self]
  exact if_pos (decide_eq_true h)

/-- The first request of a window creates the key. -/
theorem windowScript_fresh {store : RateStore} {now : ℤ} {key : String}
    (h : store.live now key = none) {windowSeconds : ℕ} (hpos : 1 ≤ windowSeconds) :
    windowScript store now key windowSeconds =
      (.array [1, windowSeconds],
        Function.update store key (some ⟨1, some (now + windowSeconds)⟩)) := by
  have hlater : now < now + windowSeconds := by omega
  have hlive := live_update_later store hlater key 1
  simp only [windowScript, RateStore.incr, h, Nat.cast_one, if_true, RateStore.expire,
    live_update_fresh, Function.update_idem, RateStore.ttl, hlive, add_sub_cancel_left]

/-- A later request finds a counter that is at 1 or more and keeps its expiry. -/
theorem windowScript_counted {store : RateStore} {now expiresAt : ℤ} {key : String} {count : ℕ}
    (h : store.live now key = some ⟨count, some expiresAt⟩) (hcount : 1 ≤ count)
    (hlater : now < expiresAt) (windowSeconds : ℕ) :
    windowScript store now key windowSeconds =
      (.array [(count + 1 : ℕ), expiresAt - now],
        Function.update store key (some ⟨count + 1, some expiresAt⟩)) := by
  have hne : ((count + 1 : ℕ) : ℤ) ≠ 1 := by omega
  have hlive := live_update_later store hlater key (count + 1)
  simp only [windowScript, RateStore.incr, h, hne, if_false, RateStore.ttl, hlive]

/-- The script counts as the windows of the arrivalTimes do. -/
theorem windowScript_next {store : RateStore} {key : String} {windowSeconds : ℕ}
    {last : Option Arrival} (hpos : 1 ≤ windowSeconds)
    (h : store key = last.map (Arrival.counter windowSeconds))
    (hnumber : ∀ m ∈ last, 1 ≤ m.number) (now : ℤ) :
    windowScript store now key windowSeconds =
      (.array [(Arrival.next windowSeconds last now).number,
          (Arrival.next windowSeconds last now).openedAt + windowSeconds - now],
        Function.update store key
          (some (Arrival.counter windowSeconds (Arrival.next windowSeconds last now)))) := by
  have hlive := live_counter h now
  cases last with
  | none =>
      rw [windowScript_fresh hlive hpos]
      simp [Arrival.next, Arrival.counter]
  | some m =>
      by_cases hopen : now < m.openedAt + windowSeconds
      · have hfound : store.live now key =
            some ⟨m.number, some (m.openedAt + windowSeconds)⟩ := by
          simpa [Option.filter, hopen, Arrival.counter] using hlive
        rw [windowScript_counted hfound (hnumber m rfl) hopen]
        simp [Arrival.next, Arrival.counter, hopen]
      · have hnone : store.live now key = none := by
          simpa [Option.filter, hopen] using hlive
        rw [windowScript_fresh hnone hpos]
        simp [Arrival.next, Arrival.counter, hopen]

/-! ### The log of an identity -/

/-- The answer to an arrival, from its number and its window. -/
def served (options : RateLimitOptions) (identity : String) (m : Arrival) : ServedRequest where
  identity := identity
  time := m.time
  answer := redisRateLimit options
    (.ok (.array [m.number, m.openedAt + options.windowSeconds - m.time]))

@[simp] theorem served_identity (identity : String) (m : Arrival) :
    (served options identity m).identity = identity := rfl

@[simp] theorem served_time (identity : String) (m : Arrival) :
    (served options identity m).time = m.time := rfl

namespace RateLimiter

def arrivalTimes (s : RateLimiter) (identity : String) : List ℤ :=
  (s.log.filter fun served => served.identity == identity).map (·.time)

def arrivals (s : RateLimiter) (options : RateLimitOptions) (identity : String) : List Arrival :=
  Library.arrivals options.windowSeconds (s.arrivalTimes identity)

/-- A request that comes next, as an arrival. -/
def nextArrival (s : RateLimiter) (options : RateLimitOptions) (req : RateRequest) : Arrival :=
  Arrival.next options.windowSeconds (s.arrivals options req.identity).getLast? req.time

/-- Each identity has its own windows: its answers are those of its arrivals, and
its key holds the counter of the last one. -/
structure Counted (options : RateLimitOptions) (s : RateLimiter) : Prop where
  sorted : s.log.Pairwise fun a b => a.time ≤ b.time
  bounded : ∀ served ∈ s.log, served.time ≤ s.now
  entries : ∀ identity, (s.log.filter fun served => served.identity == identity) =
    (s.arrivals options identity).map (served options identity)
  store : ∀ identity, s.store (options.key identity) =
    (s.arrivals options identity).getLast?.map (Arrival.counter options.windowSeconds)

variable {s : RateLimiter}

theorem start_counted (now : ℤ) : (start now).Counted options where
  sorted := List.Pairwise.nil
  bounded := by simp [start]
  entries := fun _ => rfl
  store := fun _ => rfl

theorem width_pos (options : RateLimitOptions) : (0 : ℤ) < options.windowSeconds := by
  have hpos := options.windowSeconds_pos
  omega

namespace Counted

theorem windowed (hs : s.Counted options) (identity : String) :
    Windowed options.windowSeconds (s.arrivals options identity) := by
  apply windowed_arrivals (width_pos options)
  exact List.pairwise_map.mpr (hs.sorted.filter _)

/-- The answer in a state is the one of the arrival. -/
theorem serve (hs : s.Counted options) (req : RateRequest) :
    s.serve options req = ((served options req.identity (s.nextArrival options req)).answer,
      Function.update s.store (options.key req.identity)
        (some (Arrival.counter options.windowSeconds (s.nextArrival options req)))) := by
  have hnumber : ∀ m ∈ (s.arrivals options req.identity).getLast?, 1 ≤ m.number := by
    intro m hm
    exact ((hs.windowed req.identity).within m (List.mem_of_mem_getLast? hm)).number
  rw [RateLimiter.serve, windowScript_next options.windowSeconds_pos (hs.store req.identity)
    hnumber req.time, served, nextArrival, Arrival.next_time]

theorem rateStep_eq (hs : s.Counted options) {req : RateRequest} {t : RateLimiter}
    (h : rateStep options s req = some t) :
    s.now ≤ req.time ∧ t.now = req.time ∧
      t.store = Function.update s.store (options.key req.identity)
        (some (Arrival.counter options.windowSeconds (s.nextArrival options req))) ∧
      t.log = s.log ++ [served options req.identity (s.nextArrival options req)] := by
  have htime : (s.nextArrival options req).time = req.time := Arrival.next_time _ _
  simp only [rateStep, hs.serve req] at h
  split at h
  · cases h
  · rename_i hlater
    cases h
    refine ⟨not_lt.mp hlater, rfl, rfl, ?_⟩
    simp only [served, htime]

end Counted

theorem arrivalTimes_append {t : RateLimiter} {served : ServedRequest}
    (h : t.log = s.log ++ [served]) (identity : String) :
    t.arrivalTimes identity =
      s.arrivalTimes identity ++ if served.identity = identity then [served.time] else [] := by
  rw [arrivalTimes, h, List.filter_append, List.map_append]
  by_cases hsame : served.identity = identity
  · simp [arrivalTimes, hsame]
  · simp [arrivalTimes, hsame]

/-- One request: its identity's arrivals grow by one, the others' stay. -/
theorem arrivals_step (hs : s.Counted options) {req : RateRequest} {t : RateLimiter}
    (h : rateStep options s req = some t) (identity : String) :
    t.arrivals options identity = s.arrivals options identity ++
      if req.identity = identity then [s.nextArrival options req] else [] := by
  obtain ⟨-, -, -, hlog⟩ := hs.rateStep_eq h
  have htimes := arrivalTimes_append hlog identity
  by_cases hsame : req.identity = identity
  · subst hsame
    rw [served_identity, served_time, if_pos rfl, nextArrival, Arrival.next_time] at htimes
    rw [if_pos rfl, RateLimiter.arrivals, htimes, arrivals_concat]
    rfl
  · rw [served_identity, if_neg hsame, List.append_nil] at htimes
    rw [if_neg hsame, List.append_nil, RateLimiter.arrivals, htimes]
    rfl

theorem Counted.step (hs : s.Counted options) {req : RateRequest} {t : RateLimiter}
    (h : rateStep options s req = some t) : t.Counted options := by
  obtain ⟨hlater, hnow, hstore, hlog⟩ := hs.rateStep_eq h
  have htime : (s.nextArrival options req).time = req.time := Arrival.next_time _ _
  constructor
  · rw [hlog]
    refine List.pairwise_append.mpr ⟨hs.sorted, List.pairwise_singleton _ _, ?_⟩
    intro a ha b hb
    obtain rfl := List.mem_singleton.mp hb
    exact ((hs.bounded a ha).trans hlater).trans htime.ge
  · rw [hlog, hnow]
    intro a ha
    rcases List.mem_append.mp ha with ha | ha
    · exact (hs.bounded a ha).trans hlater
    · obtain rfl := List.mem_singleton.mp ha
      exact htime.le
  · intro identity
    rw [arrivals_step hs h, hlog, List.filter_append, List.map_append, hs.entries identity]
    by_cases hsame : req.identity = identity
    · subst hsame
      simp [served]
    · simp [served, hsame]
  · intro identity
    rw [arrivals_step hs h, hstore]
    by_cases hsame : req.identity = identity
    · subst hsame
      simp
    · have hkey : options.key identity ≠ options.key req.identity :=
        fun hkey => hsame (options.key_inj.mp hkey).symm
      rw [Function.update_of_ne hkey, hs.store identity]
      simp [hsame]

theorem Counted.run (hs : s.Counted options) {as : List RateRequest} {t : RateLimiter}
    (h : exec (rateStep options) s as = some t) : t.Counted options :=
  exec_invariant (fun _ _ _ hs h => hs.step h) hs h

/-- The log and the arrivals of the requests that follow. -/
theorem run_appends (hs : s.Counted options) {as : List RateRequest} {t : RateLimiter}
    (h : exec (rateStep options) s as = some t) :
    ∃ log, t.log = s.log ++ log ∧ log.length = as.length ∧
      ∀ identity, t.arrivals options identity = arrivalsFrom options.windowSeconds
        (s.arrivals options identity) ((as.filter (·.identity == identity)).map (·.time)) := by
  refine exec_trace (I := fun (as : List RateRequest) (t : RateLimiter) =>
      ∃ log, t.log = s.log ++ log ∧ log.length = as.length ∧
        ∀ identity, t.arrivals options identity = arrivalsFrom options.windowSeconds
          (s.arrivals options identity) ((as.filter (·.identity == identity)).map (·.time)))
    ⟨[], by simp, rfl, fun _ => rfl⟩ ?_ h
  rintro before u req v hu ⟨log, hlog, hlength, harrivals⟩ hv
  have hcounted := hs.run hu
  obtain ⟨-, -, -, hlast⟩ := hcounted.rateStep_eq hv
  refine ⟨log ++ [served options req.identity (u.nextArrival options req)], ?_,
    by simp [hlength], ?_⟩
  · rw [hlast, hlog, List.append_assoc]
  · intro identity
    rw [arrivals_step hcounted hv, List.filter_append, List.map_append]
    by_cases hsame : req.identity = identity
    · subst hsame
      simp [nextArrival, harrivals, arrivalsFrom_concat]
    · simp [harrivals, hsame]

theorem arrivals_grow (hs : s.Counted options) {as : List RateRequest} {t : RateLimiter}
    (h : exec (rateStep options) s as = some t) (identity : String) :
    ∃ new, t.arrivals options identity = s.arrivals options identity ++ new := by
  obtain ⟨log, -, -, harrivals⟩ := run_appends hs h
  obtain ⟨new, hnew, -⟩ := arrivalsFrom_split options.windowSeconds (s.arrivals options identity)
    ((as.filter (·.identity == identity)).map (·.time))
  exact ⟨new, (harrivals identity).trans hnew⟩

/-- Requests of an identity before the end of its last arrival's window. -/
theorem arrivals_open (hs : s.Counted options) {as : List RateRequest} {t : RateLimiter}
    (h : exec (rateStep options) s as = some t) {identity : String} {earlier : List Arrival}
    {last : Arrival} (hlast : s.arrivals options identity = earlier ++ [last])
    (hopen : ∀ later ∈ as, later.identity = identity →
      later.time < last.openedAt + options.windowSeconds) :
    ∃ new, t.arrivals options identity = s.arrivals options identity ++ new ∧
      new.countP (Arrival.admitted options.limit) =
        min (options.limit - last.number) (as.countP fun req => req.identity == identity) ∧
      ∀ n ∈ new, n.openedAt = last.openedAt := by
  obtain ⟨log, -, -, harrivals⟩ := run_appends hs h
  have htimes : ∀ time ∈ (as.filter (·.identity == identity)).map (·.time),
      time < last.openedAt + options.windowSeconds := by
    intro time htime
    obtain ⟨later, hlater, rfl⟩ := List.mem_map.mp htime
    obtain ⟨hmem, hsame⟩ := List.mem_filter.mp hlater
    exact hopen later hmem (beq_iff_eq.mp hsame)
  obtain ⟨new, hnew, hcount, hopened⟩ := arrivalsFrom_open options.limit htimes
  refine ⟨new, ?_, ?_, hopened⟩
  · rw [harrivals, hlast]
    exact hnew
  · rw [hcount, List.length_map, List.countP_eq_length_filter]

/-- What is logged of an identity after a state are the answers to its new arrivals. -/
theorem run_entries (hs : s.Counted options) {as : List RateRequest} {t : RateLimiter}
    (h : exec (rateStep options) s as = some t) (identity : String) {new : List Arrival}
    (hnew : t.arrivals options identity = s.arrivals options identity ++ new) :
    (t.log.drop s.log.length).filter (·.identity == identity) =
      new.map (served options identity) := by
  obtain ⟨log, hlog, -, -⟩ := run_appends hs h
  have hentries := (hs.run h).entries identity
  rw [hnew, hlog, List.filter_append, List.map_append, hs.entries identity] at hentries
  rw [hlog, List.drop_left]
  exact List.append_cancel_left hentries

end RateLimiter

/-! ### Answers -/

theorem passed_served (identity : String) (m : Arrival) :
    (served options identity m).answer.passed = m.admitted options.limit := by
  simp only [served, redisRateLimit, parsePair, Arrival.admitted]
  by_cases hover : options.limit < m.number
  · simp [RateLimitAnswer.passed, hover]
  · simp [RateLimitAnswer.passed, hover, Nat.le_of_not_lt hover]

/-- `RateLimit-Reset` and `Retry-After` are the seconds until the window ends. -/
theorem headers_served {identity : String} {m : Arrival} (hm : m.Within options.windowSeconds) :
    (served options identity m).answer.headers = some ⟨options.limit,
      (options.limit - m.number : ℕ), m.openedAt + options.windowSeconds - m.time⟩ := by
  have hopen := hm.open_
  have hreset : max 1 (m.openedAt + options.windowSeconds - m.time) =
      m.openedAt + options.windowSeconds - m.time := by omega
  have hremaining : max 0 ((options.limit : ℤ) - m.number) = (options.limit - m.number : ℕ) := by
    omega
  simp only [served, redisRateLimit, parsePair, List.getElem?_cons_zero, List.getElem?_cons_succ,
    Option.getD_some, hreset, hremaining]
  split <;> rfl

theorem retryAfter_served {identity : String} {m : Arrival} (hm : m.Within options.windowSeconds)
    (hover : m.admitted options.limit = false) :
    (served options identity m).answer.retryAfter =
      some (m.openedAt + options.windowSeconds - m.time) := by
  have hopen := hm.open_
  have hreset : max 1 (m.openedAt + options.windowSeconds - m.time) =
      m.openedAt + options.windowSeconds - m.time := by omega
  have hlimit : (options.limit : ℤ) < m.number := by
    simp only [Arrival.admitted, decide_eq_false_iff_not] at hover
    omega
  simp only [served, redisRateLimit, parsePair, List.getElem?_cons_zero, List.getElem?_cons_succ,
    Option.getD_some, hreset, hlimit, if_true]

/-- Where the answers to an identity are known, a count of them is one of arrivals. -/
theorem countP_served {log : List ServedRequest} {identity : String} {arrivals : List Arrival}
    (h : log.filter (·.identity == identity) = arrivals.map (served options identity))
    (p : ServedRequest → Bool) :
    (log.countP fun served => served.identity == identity && p served) =
      arrivals.countP fun m => p (served options identity m) := by
  have hfilter : (log.countP fun served => served.identity == identity && p served) =
      (log.filter (·.identity == identity)).countP p := by
    rw [List.countP_filter]
    exact List.countP_congr fun served _ => by rw [Bool.and_comm]
  rw [hfilter, h, List.countP_map]
  rfl

theorem RateLimiter.Counted.passes_eq {s : RateLimiter} (hs : s.Counted options)
    (identity : String) (a b : ℤ) :
    s.passes identity a b = (s.arrivals options identity).countP fun m =>
      decide (a ≤ m.time) && decide (m.time < b) && m.admitted options.limit := by
  have hserved := countP_served (hs.entries identity) fun served =>
    decide (a ≤ served.time) && decide (served.time < b) && served.answer.passed
  exact hserved.trans (List.countP_congr fun m _ => by rw [served_time, passed_served])

/-! ### The bounds -/

/-- What the limiter promises an identity over a run: `windows` and `intervals`
bound what passes, `remaining` and `retry` are what the headers mean for the
requests of the run that follow. -/
structure RateLimited (options : RateLimitOptions) (identity : String) (now : ℤ)
    (reqs : List RateRequest) (s : RateLimiter) : Prop where
  windows : ∀ pre req post u, reqs = pre ++ req :: post →
    exec (rateStep options) (.start now) pre = some u → req.identity = identity →
    u.store.live req.time (options.key identity) = none →
    s.passes identity req.time (req.time + options.windowSeconds) ≤ options.limit
  intervals : ∀ a, s.passes identity a (a + options.windowSeconds) ≤ 2 * options.limit
  remaining : ∀ pre req post u, reqs = pre ++ req :: post →
    exec (rateStep options) (.start now) pre = some u → req.identity = identity →
    ∃ headers, (u.serve options req).1.headers = some headers ∧
      ((∀ later ∈ post, later.identity = identity → later.time < req.time + headers.reset) →
        (((s.log.drop (pre.length + 1)).countP fun served =>
            served.identity == identity && served.answer.passed : ℕ) : ℤ) =
          min headers.remaining (post.countP fun later => later.identity == identity))
  retry : ∀ pre req post u, reqs = pre ++ req :: post →
    exec (rateStep options) (.start now) pre = some u → req.identity = identity →
    (u.serve options req).1.passed = false →
    ∃ retryAfter, (u.serve options req).1.retryAfter = some retryAfter ∧
      (∀ served ∈ s.log.drop (pre.length + 1), served.identity = identity →
        served.time < req.time + retryAfter → served.answer.passed = false) ∧
      ∀ mid next rest v, post = mid ++ next :: rest →
        exec (rateStep options) (.start now) (pre ++ req :: mid) = some v →
        (∀ later ∈ mid, later.identity = identity → later.time < req.time + retryAfter) →
        next.identity = identity → req.time + retryAfter ≤ next.time →
        (v.serve options next).1.passed = true

/-- The next arrival lies within its window. -/
theorem RateLimiter.nextArrival_within {u : RateLimiter} (hu : u.Counted options)
    {req : RateRequest} (h : u.now ≤ req.time) :
    (u.nextArrival options req).Within options.windowSeconds := by
  apply Arrival.Within.next (RateLimiter.width_pos options)
  intro last hlast
  have hmem := List.mem_of_mem_getLast? hlast
  have hentry : served options req.identity last ∈ u.log := by
    have hmap := List.mem_map_of_mem (f := served options req.identity) hmem
    rw [← hu.entries req.identity] at hmap
    exact List.mem_of_mem_filter hmap
  have hopened := ((hu.windowed req.identity).within last hmem).opened
  exact hopened.trans ((hu.bounded _ hentry).trans h)

/-- A request of the run, as an arrival. -/
theorem RateLimiter.run_split {now : ℤ} {pre post : List RateRequest} {req : RateRequest}
    {u s : RateLimiter} (hu : exec (rateStep options) (.start now) pre = some u)
    (h : exec (rateStep options) (.start now) (pre ++ req :: post) = some s) :
    ∃ v, exec (rateStep options) v post = some s ∧ v.Counted options ∧
      v.log.length = pre.length + 1 ∧
      v.arrivals options req.identity =
        u.arrivals options req.identity ++ [u.nextArrival options req] ∧
      (u.nextArrival options req).Within options.windowSeconds ∧
      (u.serve options req).1 =
        (served options req.identity (u.nextArrival options req)).answer := by
  have hcounted := (start_counted now).run hu
  obtain ⟨u', hu', hrest⟩ := exec_append_iff.mp h
  obtain rfl : u' = u := Option.some.inj (hu'.symm.trans hu)
  obtain ⟨v, hv, hs⟩ := exec_cons_iff.mp hrest
  obtain ⟨log, hlog, hlength, -⟩ := run_appends (start_counted now) hu
  obtain ⟨hlater, -, -, hlast⟩ := hcounted.rateStep_eq hv
  have harrivals := arrivals_step hcounted hv req.identity
  rw [if_pos rfl] at harrivals
  refine ⟨v, hs, hcounted.step hv, ?_, harrivals, nextArrival_within hcounted hlater, ?_⟩
  · rw [hlast, hlog]
    simp [start, hlength]
  · rw [hcounted.serve]

section Run

variable {now : ℤ} {pre post : List RateRequest} {req : RateRequest} {u s : RateLimiter}

/-- A request that finds no live key opens a window. -/
theorem nextArrival_of_expired (hu : u.Counted options)
    (h : u.store.live req.time (options.key req.identity) = none) :
    u.nextArrival options req = ⟨req.time, req.time, 1⟩ := by
  rw [live_counter (hu.store req.identity)] at h
  apply Arrival.next_of_ended
  intro last hlast
  rw [Option.mem_def] at hlast
  simpa [hlast, Option.filter] using h

theorem passes_window_le (hu : exec (rateStep options) (.start now) pre = some u)
    (hs : exec (rateStep options) (.start now) (pre ++ req :: post) = some s)
    (h : u.store.live req.time (options.key req.identity) = none) :
    s.passes req.identity req.time (req.time + options.windowSeconds) ≤ options.limit := by
  have hcounted := (RateLimiter.start_counted now).run hs
  obtain ⟨v, hv, hvcounted, -, harrivals, -, -⟩ := RateLimiter.run_split hu hs
  have hfirst := nextArrival_of_expired ((RateLimiter.start_counted now).run hu) h
  obtain ⟨new, hnew⟩ := RateLimiter.arrivals_grow hvcounted hv req.identity
  have hmem : (⟨req.time, req.time, 1⟩ : Arrival) ∈ s.arrivals options req.identity := by
    rw [hnew, harrivals, hfirst]
    simp
  rw [hcounted.passes_eq]
  exact (hcounted.windowed req.identity).countP_span_le (RateLimiter.width_pos options)
    options.limit hmem

theorem passes_interval_le (hs : exec (rateStep options) (.start now) pre = some s)
    (identity : String) (a : ℤ) :
    s.passes identity a (a + options.windowSeconds) ≤ 2 * options.limit := by
  have hcounted := (RateLimiter.start_counted now).run hs
  rw [hcounted.passes_eq]
  exact (hcounted.windowed identity).countP_interval_le (RateLimiter.width_pos options)
    options.limit a

/-- What passes after a state, from the arrivals since. -/
theorem countP_drop (hs : s.Counted options) {t : RateLimiter}
    (h : exec (rateStep options) s post = some t) (identity : String) {new : List Arrival}
    (hnew : t.arrivals options identity = s.arrivals options identity ++ new) :
    (t.log.drop s.log.length).countP (fun served =>
        served.identity == identity && served.answer.passed) =
      new.countP (Arrival.admitted options.limit) := by
  rw [countP_served (RateLimiter.run_entries hs h identity hnew) (·.answer.passed)]
  exact List.countP_congr fun m _ => by rw [passed_served]

/-- The second at which the headers of an answer say that the window ends. -/
theorem nextArrival_reset (u : RateLimiter) (req : RateRequest) :
    req.time + ((u.nextArrival options req).openedAt + options.windowSeconds -
        (u.nextArrival options req).time) =
      (u.nextArrival options req).openedAt + options.windowSeconds := by
  have htime : (u.nextArrival options req).time = req.time := Arrival.next_time _ _
  rw [htime]
  omega

theorem remaining_exact (hu : exec (rateStep options) (.start now) pre = some u)
    (hs : exec (rateStep options) (.start now) (pre ++ req :: post) = some s) :
    ∃ headers, (u.serve options req).1.headers = some headers ∧
      ((∀ later ∈ post, later.identity = req.identity →
          later.time < req.time + headers.reset) →
        (((s.log.drop (pre.length + 1)).countP fun served =>
            served.identity == req.identity && served.answer.passed : ℕ) : ℤ) =
          min headers.remaining (post.countP fun later => later.identity == req.identity)) := by
  obtain ⟨v, hv, hvcounted, hlength, harrivals, hwithin, hanswer⟩ := RateLimiter.run_split hu hs
  refine ⟨_, (congrArg RateLimitAnswer.headers hanswer).trans (headers_served hwithin),
    fun hopen => ?_⟩
  simp only [nextArrival_reset] at hopen
  obtain ⟨new, hnew, hcount, -⟩ := RateLimiter.arrivals_open hvcounted hv harrivals hopen
  rw [← hlength, countP_drop hvcounted hv req.identity hnew, hcount]
  dsimp only
  omega

theorem rejected_until (hu : exec (rateStep options) (.start now) pre = some u)
    (hs : exec (rateStep options) (.start now) (pre ++ req :: post) = some s)
    (hrejected : (u.serve options req).1.passed = false) :
    ∃ retryAfter, (u.serve options req).1.retryAfter = some retryAfter ∧
      (∀ served ∈ s.log.drop (pre.length + 1), served.identity = req.identity →
        served.time < req.time + retryAfter → served.answer.passed = false) ∧
      ∀ mid next rest v, post = mid ++ next :: rest →
        exec (rateStep options) (.start now) (pre ++ req :: mid) = some v →
        (∀ later ∈ mid, later.identity = req.identity → later.time < req.time + retryAfter) →
        next.identity = req.identity → req.time + retryAfter ≤ next.time →
        (v.serve options next).1.passed = true := by
  obtain ⟨v, hv, hvcounted, hlength, harrivals, hwithin, hanswer⟩ := RateLimiter.run_split hu hs
  have hover : (u.nextArrival options req).admitted options.limit = false := by
    rw [hanswer, passed_served] at hrejected
    exact hrejected
  refine ⟨_, (congrArg RateLimitAnswer.retryAfter hanswer).trans
    (retryAfter_served hwithin hover), ?_, ?_⟩
  · intro later hmem hsame hbefore
    rw [nextArrival_reset] at hbefore
    obtain ⟨new, hnew⟩ := RateLimiter.arrivals_grow hvcounted hv req.identity
    have hentries := RateLimiter.run_entries hvcounted hv req.identity hnew
    rw [hlength] at hentries
    have hlater : later ∈ new.map (served options req.identity) := by
      rw [← hentries]
      exact List.mem_filter.mpr ⟨hmem, beq_iff_eq.mpr hsame⟩
    obtain ⟨n, hn, rfl⟩ := List.mem_map.mp hlater
    have hwindowed := (hvcounted.run hv).windowed req.identity
    rw [hnew, harrivals] at hwindowed
    obtain ⟨-, hnumber⟩ := hwindowed.of_open (by simp) hn hbefore
    rw [passed_served]
    simp only [Arrival.admitted, decide_eq_false_iff_not] at hover ⊢
    omega
  · rintro mid next rest w rfl hw hmid hsame hlate
    simp only [nextArrival_reset] at hmid hlate
    obtain ⟨v', hv', hvcounted', -, harrivals', -, -⟩ := RateLimiter.run_split hu hw
    obtain ⟨new, hnew, -, hopened⟩ := RateLimiter.arrivals_open hvcounted' hv' harrivals' hmid
    have hfresh : w.nextArrival options next = ⟨next.time, next.time, 1⟩ := by
      rw [RateLimiter.nextArrival, hsame, hnew, harrivals']
      exact Arrival.next_of_window_ended hopened hlate
    have hcounted := hvcounted'.run hv'
    rw [hcounted.serve next, hfresh, passed_served]
    simpa [Arrival.admitted] using options.limit_pos

end Run

end Served

/-- The limiter bounds every run of requests from an empty store. -/
theorem rateLimited_run (options : RateLimitOptions) (identity : String) (now : ℤ)
    (reqs : List RateRequest) (s : RateLimiter)
    (h : exec (rateStep options) (.start now) reqs = some s) :
    RateLimited options identity now reqs s where
  windows := by
    rintro pre req post u rfl hu rfl hexpired
    exact passes_window_le hu h hexpired
  intervals := passes_interval_le h identity
  remaining := by
    rintro pre req post u rfl hu rfl
    exact remaining_exact hu h
  retry := by
    rintro pre req post u rfl hu rfl hrejected
    exact rejected_until hu h hrejected

def oneAMinute : RateLimitOptions where
  prefix_ := "auth"
  limit := 1
  windowSeconds := 60
  limit_pos := by decide
  windowSeconds_pos := by decide

/-- The second request of a minute is rejected, the third one comes after it. -/
theorem rateLimited_run_minute :
    ∃ s, exec (rateStep oneAMinute) (.start 0)
        [⟨5, some "::1", none⟩, ⟨10, some "::1", none⟩, ⟨66, some "::1", none⟩] = some s ∧
      s.log.map (·.answer.passed) = [true, false, true] ∧
      RateLimited oneAMinute "::1" 0
        [⟨5, some "::1", none⟩, ⟨10, some "::1", none⟩, ⟨66, some "::1", none⟩] s :=
  ⟨_, rfl, by decide, rateLimited_run oneAMinute "::1" 0 _ _ rfl⟩

end Eventify
