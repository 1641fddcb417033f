import Eventify.Library.Json
import Eventify.Library.OrderedMap

/-!
# The logger

`logger.ts` sanitizes the fields of a call, merges them with the entries that
the logger writes itself, and prints one line of JSON. What stands under a
redacted key is never read, so lines do not depend on it.
-/

namespace Eventify

open Library

/-- Values without parts. An `Error` has the properties that are read of it. -/
inductive LogLeaf (ν : Type*) where
  | undefined
  | null
  | bool (value : Bool)
  | number (value : ν)
  | string (value : String)
  | error (name message : String) (stack : Option String)
  deriving DecidableEq, Repr

abbrev LogValue (ν : Type*) := JsonTree (LogLeaf ν)

/-- The fields of one call, a record in the order of its keys. -/
abbrev LogFields (ν : Type*) := OrderedMap String (LogValue ν)

inductive LogLevel where
  | debug
  | info
  | warn
  | error
  deriving DecidableEq, Repr

def LogLevel.text : LogLevel → String
  | .debug => "debug"
  | .info => "info"
  | .warn => "warn"
  | .error => "error"

def redactedKeys : List String :=
  ["authorization", "cookie", "password", "passwordHash", "refreshToken", "accessToken", "token",
    "smtpUrl"]

/-- Characters of finite numbers. -/
def isNumberChar (c : Char) : Bool := c.isDigit || "-+.e".toList.contains c

/-- How JSON writes finite numbers, of which `0` and `-0` are one: different numbers
in different texts. -/
structure NumberTexts (ν : Type*) where
  text : ν → List Char
  injective : Function.Injective text
  ne_nil : ∀ n, text n ≠ []
  chars : ∀ n, ∀ c ∈ text n, isNumberChar c = true

/-- Natural numbers in decimal. -/
def decimals : NumberTexts ℕ where
  text n := (toString n).toList
  injective _ _ h := toString_inj (String.toList_inj.mp h)
  ne_nil n := by
    rw [Nat.toString_eq_ofList_toDigits, String.toList_ofList]
    exact Nat.toDigits_ne_nil
  chars _ _ hc := by simp [isNumberChar, isDigit_of_mem_toString hc]

section Values

variable {ν : Type*}

def logString (text : String) : LogValue ν := .leaf (.string text)

mutual

/-- Assigning to `__proto__` sets the prototype of the output, so that this
entry is not written. -/
def sanitize (production : Bool) (depth : ℕ) (value : LogValue ν) : LogValue ν :=
  if depth > 4 then logString "[max-depth]"
  else
    match value with
    | .leaf (.error name message stack) =>
        .object [("name", logString name), ("message", logString message),
          ("stack", if production then .leaf .undefined
            else stack.elim (.leaf .undefined) logString)]
    | .leaf value => .leaf value
    | .array items => .array (sanitizeItems production (depth + 1) items)
    | .object entries => .object (sanitizeEntries production (depth + 1) entries)

def sanitizeItems (production : Bool) (depth : ℕ) : List (LogValue ν) → List (LogValue ν)
  | [] => []
  | entry :: items => sanitize production depth entry :: sanitizeItems production depth items

def sanitizeEntries (production : Bool) (depth : ℕ) :
    List (String × LogValue ν) → List (String × LogValue ν)
  | [] => []
  | (key, entry) :: entries =>
      let output := sanitizeEntries production depth entries
      if key = "__proto__" then output
      else if key ∈ redactedKeys then (key, logString "[redacted]") :: output
      else (key, sanitize production depth entry) :: output

end

mutual

/-- `JSON.stringify` leaves out properties whose value is undefined. -/
def definedPart : LogValue ν → LogValue ν
  | .leaf value => .leaf value
  | .array items => .array (definedItems items)
  | .object entries => .object (definedEntries entries)

def definedItems : List (LogValue ν) → List (LogValue ν)
  | [] => []
  | value :: items => definedPart value :: definedItems items

def definedEntries : List (String × LogValue ν) → List (String × LogValue ν)
  | [] => []
  | (_, .leaf .undefined) :: entries => definedEntries entries
  | (key, value) :: entries => (key, definedPart value) :: definedEntries entries

end

/-- An item of an array that is undefined is written as null, and an `Error`
has no properties of its own that are written. -/
def leafText (numbers : NumberTexts ν) : LogLeaf ν → List Char
  | .undefined => "null".toList
  | .null => "null".toList
  | .bool true => "true".toList
  | .bool false => "false".toList
  | .number value => numbers.text value
  | .string value => JsonTree.quote value
  | .error _ _ _ => "\x7b\x7d".toList

def stringify (numbers : NumberTexts ν) (value : LogValue ν) : String :=
  String.ofList (JsonTree.write (leafText numbers) (definedPart value))

end Values

/-- What a call finds around it: the environment, the time and the request. -/
structure LogContext where
  production : Bool
  timestamp : String
  requestId : Option String
  deriving DecidableEq, Repr

/-- Where a line is printed. -/
inductive Console where
  | error
  | warn
  | log
  deriving DecidableEq, Repr

section Lines

variable {ν : Type*} (numbers : NumberTexts ν) (context : LogContext) (service : String)
  (level : LogLevel) (message : String)

/-- The entries that the logger writes itself, in their order. -/
def ownEntries : List (String × LogValue ν) :=
  [ ("timestamp", logString context.timestamp), ("level", logString level.text),
    ("service", logString service), ("message", logString message),
    ("requestId", context.requestId.elim (.leaf .undefined) logString) ]

/-- Properties assigned to an object, one after the other. -/
def assignAll (entries own : List (String × LogValue ν)) : List (String × LogValue ν) :=
  own.foldl (fun entries e => OrderedMap.setEntries e.1 e.2 entries) entries

/-- The properties that a spread copies. -/
def spread : LogValue ν → List (String × LogValue ν)
  | .object entries => entries
  | _ => []

def payload (fields : LogFields ν) : List (String × LogValue ν) :=
  assignAll (spread (sanitize context.production 0 (.object fields.entries)))
    (ownEntries context service level message)

/-- The line that a call writes. -/
def logLine (fields : LogFields ν) : String :=
  stringify numbers (.object (payload context service level message fields))

def console (level : LogLevel) : Console :=
  match level with
  | .error => .error
  | .warn => .warn
  | _ => .log

/-- What the method of the level prints, if anything. -/
def log (fields : LogFields ν) : Option (Console × String) :=
  if level = .debug ∧ context.production = true then none
  else some (console level, logLine numbers context service level message fields)

end Lines

/-! ### Secrets -/

section Secrets

variable {ν : Type*}

mutual

/-- The value with one text in the place of everything under a redacted key, at
any depth. -/
def maskSecrets : LogValue ν → LogValue ν
  | .leaf value => .leaf value
  | .array items => .array (maskItems items)
  | .object entries => .object (maskEntries entries)

def maskItems : List (LogValue ν) → List (LogValue ν)
  | [] => []
  | value :: items => maskSecrets value :: maskItems items

def maskEntries : List (String × LogValue ν) → List (String × LogValue ν)
  | [] => []
  | (key, value) :: entries =>
      (key, if key ∈ redactedKeys then logString "[redacted]" else maskSecrets value) ::
        maskEntries entries

end

/-- Equal except for what stands under redacted keys. -/
def SameButSecrets (fields fields' : List (String × LogValue ν)) : Prop :=
  maskEntries fields = maskEntries fields'

theorem maskItems_eq (items : List (LogValue ν)) : maskItems items = items.map maskSecrets := by
  induction items with
  | nil => rfl
  | cons value items ih => rw [maskItems, ih, List.map_cons]

def maskEntry (entry : String × LogValue ν) : String × LogValue ν :=
  (entry.1, if entry.1 ∈ redactedKeys then logString "[redacted]" else maskSecrets entry.2)

theorem maskEntries_eq (entries : List (String × LogValue ν)) :
    maskEntries entries = entries.map maskEntry := by
  induction entries with
  | nil => rfl
  | cons entry entries ih => rw [maskEntries, ih, List.map_cons, maskEntry]

variable (production : Bool)

theorem sanitizeItems_eq (depth : ℕ) (items : List (LogValue ν)) :
    sanitizeItems production depth items = items.map (sanitize production depth) := by
  induction items with
  | nil => rw [sanitizeItems, List.map_nil]
  | cons value items ih => rw [sanitizeItems, ih, List.map_cons]

def sanitizeEntry (depth : ℕ) (entry : String × LogValue ν) : String × LogValue ν :=
  (entry.1, if entry.1 ∈ redactedKeys then logString "[redacted]"
    else sanitize production depth entry.2)

def isKept (entry : String × LogValue ν) : Bool := entry.1 ≠ "__proto__"

theorem sanitizeEntries_eq (depth : ℕ) (entries : List (String × LogValue ν)) :
    sanitizeEntries production depth entries =
      (entries.filter isKept).map (sanitizeEntry production depth) := by
  induction entries with
  | nil => rw [sanitizeEntries, List.filter_nil, List.map_nil]
  | cons entry entries ih =>
      obtain ⟨key, value⟩ := entry
      rw [sanitizeEntries, ih]
      by_cases hproto : key = "__proto__"
      · rw [if_pos hproto, List.filter_cons_of_neg (by simp [isKept, hproto])]
      · rw [if_neg hproto, List.filter_cons_of_pos (by simp [isKept, hproto]), List.map_cons,
          sanitizeEntry]
        split
        · rfl
        · rfl

theorem sanitize_deep {depth : ℕ} (h : 4 < depth) (value : LogValue ν) :
    sanitize production depth value = logString "[max-depth]" := by
  rw [sanitize.eq_def, if_pos h]

theorem sanitize_array {depth : ℕ} (h : ¬ 4 < depth) (items : List (LogValue ν)) :
    sanitize production depth (.array items) =
      .array (items.map (sanitize production (depth + 1))) := by
  rw [sanitize.eq_def, if_neg h, ← sanitizeItems_eq]

theorem sanitize_object {depth : ℕ} (h : ¬ 4 < depth) (entries : List (String × LogValue ν)) :
    sanitize production depth (.object entries) =
      .object ((entries.filter isKept).map (sanitizeEntry production (depth + 1))) := by
  rw [sanitize.eq_def, if_neg h, ← sanitizeEntries_eq]

theorem isKept_maskEntry (entry : String × LogValue ν) :
    isKept (maskEntry entry) = isKept entry := rfl

theorem sanitizeEntry_mask {depth : ℕ} {entry : String × LogValue ν}
    (h : sanitize production depth (maskSecrets entry.2) = sanitize production depth entry.2) :
    sanitizeEntry production depth (maskEntry entry) = sanitizeEntry production depth entry := by
  by_cases hsecret : entry.1 ∈ redactedKeys
  · simp only [sanitizeEntry, maskEntry, if_pos hsecret]
  · simp only [sanitizeEntry, maskEntry, if_neg hsecret, h]

theorem sanitize_entries_mask {depth : ℕ} {entries : List (String × LogValue ν)}
    (h : ∀ entry ∈ entries,
      sanitize production depth (maskSecrets entry.2) = sanitize production depth entry.2) :
    ((maskEntries entries).filter isKept).map (sanitizeEntry production depth) =
      (entries.filter isKept).map (sanitizeEntry production depth) := by
  have hkept : isKept ∘ maskEntry = (isKept : String × LogValue ν → Bool) :=
    funext isKept_maskEntry
  rw [maskEntries_eq, List.filter_map, List.map_map, hkept]
  refine List.map_congr_left fun entry hentry => ?_
  exact sanitizeEntry_mask production (h entry (List.mem_of_mem_filter hentry))

/-- The sanitizer never reads what stands under a redacted key. -/
theorem sanitize_mask (value : LogValue ν) (depth : ℕ) :
    sanitize production depth (maskSecrets value) = sanitize production depth value := by
  induction value using JsonTree.induction_on generalizing depth with
  | leaf value => rfl
  | array items ih =>
      rw [maskSecrets, maskItems_eq]
      by_cases hdeep : 4 < depth
      · rw [sanitize_deep production hdeep, sanitize_deep production hdeep]
      · rw [sanitize_array production hdeep, sanitize_array production hdeep, List.map_map]
        congr 1
        exact List.map_congr_left fun value hvalue => ih value hvalue (depth + 1)
  | object entries ih =>
      rw [maskSecrets]
      by_cases hdeep : 4 < depth
      · rw [sanitize_deep production hdeep, sanitize_deep production hdeep]
      · rw [sanitize_object production hdeep, sanitize_object production hdeep,
          sanitize_entries_mask production fun entry hentry => ih entry hentry (depth + 1)]

end Secrets

section Lines

variable {ν : Type*} {numbers : NumberTexts ν} {context : LogContext} {service : String}
  {level : LogLevel} {message : String} {fields fields' : LogFields ν}

theorem payload_eq_of_same (h : SameButSecrets fields.entries fields'.entries) :
    payload context service level message fields =
      payload context service level message fields' := by
  have hmask : maskSecrets (.object fields.entries) = maskSecrets (.object fields'.entries) :=
    congrArg JsonTree.object h
  rw [payload, payload, ← sanitize_mask, hmask, sanitize_mask]

/-- Calls with equal fields, secrets apart, print the same line. -/
theorem log_independent_of_secrets (numbers : NumberTexts ν) (context : LogContext)
    (service : String) (level : LogLevel) (message : String) {fields fields' : LogFields ν}
    (h : SameButSecrets fields.entries fields'.entries) :
    log numbers context service level message fields =
      log numbers context service level message fields' := by
  rw [log, log, logLine, logLine, payload_eq_of_same h]

/-- A failed login, as a caller might log it. -/
def loginFields (password token : String) : LogFields ℕ where
  entries :=
    [ ("component", logString "auth"),
      ("attempts", .array [.object [("user", logString "ada"), ("password", logString password)],
        .leaf (.number 2)]),
      ("error", .leaf (.error "Error" "denied" none)),
      ("token", .object [("value", logString token)]) ]
  nodup := by simp

theorem log_independent_of_secrets_login :
    log decimals ⟨true, "2024-02-29T12:00:00.000Z", some "r1"⟩ "eventify-api" .warn "auth.denied"
        (loginFields "secret" "t1") =
      log decimals ⟨true, "2024-02-29T12:00:00.000Z", some "r1"⟩ "eventify-api" .warn "auth.denied"
        (loginFields "other" "t2") :=
  log_independent_of_secrets decimals _ _ _ _ rfl

end Lines

end Eventify
