import Eventify.Events.Service

/-!
# The schemas of event bodies

What `createEventSchema` and its partial form accept of a JSON object, with
the text that a trimmed field keeps. Both are strict: a body with any other
field is rejected as a whole.
-/

namespace Eventify

/-- A parsed JSON value, as far as a field of an event may hold it. -/
inductive JsonValue where
  | string (text : String)
  | number (value : ℤ)
  | other
  deriving DecidableEq, Repr

abbrev JsonObject := List (String × JsonValue)

/-- What `String.prototype.trim` removes. -/
def isTrimmed (c : Char) : Bool :=
  (9 ≤ c.toNat && c.toNat ≤ 13) || (0x2000 ≤ c.toNat && c.toNat ≤ 0x200a) ||
    c.toNat ∈ [0x20, 0xa0, 0x1680, 0x2028, 0x2029, 0x202f, 0x205f, 0x3000, 0xfeff]

def trim (text : String) : String :=
  String.ofList ((text.toList.dropWhile isTrimmed).reverse.dropWhile isTrimmed).reverse

/-- `text.length`, in UTF-16 code units. -/
def jsLength (text : String) : ℕ :=
  text.toList.foldl (fun n c => n + if c.toNat < 0x10000 then 1 else 2) 0

namespace EventSchema

def fields : List String :=
  ["title", "description", "venue", "startsAt", "capacity", "priceCents"]

/-- `z.string().trim().min(1).max(limit)`. -/
def text (limit : ℕ) : JsonValue → Option String
  | .string text =>
      if 1 ≤ jsLength (trim text) ∧ jsLength (trim text) ≤ limit then some (trim text) else none
  | _ => none

/-- `z.number().int()` between two bounds. -/
def integer (least greatest : ℤ) : JsonValue → Option ℤ
  | .number value => if least ≤ value ∧ value ≤ greatest then some value else none
  | _ => none

def isoDate (parseDate : String → Option Time) : JsonValue → Option Time
  | .string text => parseDate text
  | _ => none

/-- An optional field: absent, or present and accepted. -/
def optional {α : Type} (accept : JsonValue → Option α) (body : JsonObject) (field : String) :
    Option (Option α) :=
  match body.lookup field with
  | none => some none
  | some value => (accept value).map some

def title : JsonValue → Option String := text 160

def description : JsonValue → Option String := text 5000

def venue : JsonValue → Option String := text 240

def capacity : JsonValue → Option ℤ := integer 1 1000000

def priceCents : JsonValue → Option ℤ := integer 0 100000000

def isStrict (body : JsonObject) : Bool := body.all fun field => fields.contains field.1

end EventSchema

open EventSchema in
/-- `updateEventSchema.safeParse`. -/
def updateEventSchema (parseDate : String → Option Time) (body : JsonObject) :
    Option EventPatch :=
  if isStrict body then
    (optional title body "title").bind fun title =>
    (optional description body "description").bind fun description =>
    (optional venue body "venue").bind fun venue =>
    (optional (isoDate parseDate) body "startsAt").bind fun startsAt =>
    (optional capacity body "capacity").bind fun capacity =>
    (optional priceCents body "priceCents").map fun priceCents =>
      { title, description, venue, startsAt, capacity, priceCents }
  else none

open EventSchema in
/-- `createEventSchema.safeParse`. -/
def createEventSchema (parseDate : String → Option Time) (body : JsonObject) :
    Option EventCreateInput :=
  (updateEventSchema parseDate body).bind fun patch =>
    patch.title.bind fun title =>
    patch.description.bind fun description =>
    patch.venue.bind fun venue =>
    patch.startsAt.bind fun startsAt =>
    patch.capacity.bind fun capacity =>
    patch.priceCents.map fun priceCents =>
      { title, description, venue, startsAt, capacity, priceCents }

theorem updateEventSchema_strict {parseDate : String → Option Time} {body : JsonObject}
    {patch : EventPatch} (h : updateEventSchema parseDate body = some patch)
    {field : String × JsonValue} (hfield : field ∈ body) : field.1 ∈ EventSchema.fields := by
  unfold updateEventSchema at h
  split at h
  next hstrict => simpa using List.all_eq_true.mp hstrict field hfield
  · simp at h

/-- A body that names an organizer changes nothing, whatever else it holds. -/
theorem organizerId_rejected (parseDate : String → Option Time) {body : JsonObject}
    {value : JsonValue} (h : ("organizerId", value) ∈ body) :
    updateEventSchema parseDate body = none := by
  cases hparse : updateEventSchema parseDate body with
  | none => rfl
  | some patch =>
      have hfield := updateEventSchema_strict hparse h
      simp [EventSchema.fields] at hfield

end Eventify
