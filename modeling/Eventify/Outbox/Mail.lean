import Eventify.Domain
import Eventify.Library.Codes

/-!
# Confirmation mails

`sendBookingConfirmation` puts texts that users have chosen between the tags of
an HTML template. The mail is read back here as a mail program does: split into
tags and the texts between them, with the entities of the texts decoded.
-/

namespace Eventify

open Library

/-! ### Dates -/

/-- Decimal digits, filled up with zeros on the left. -/
def padded (width n : ℕ) : String := String.ofList (n.repr.toList.leftpad width '0')

/-- Year, month and day of a day counted from 1970-01-01, by eras of 400 years
that start on a first of March. -/
def civilDate (days : ℤ) : ℤ × ℕ × ℕ :=
  let shifted := days + 719468
  let dayOfEra := (shifted % 146097).toNat
  let yearOfEra := (dayOfEra - dayOfEra / 1460 + dayOfEra / 36524 - dayOfEra / 146096) / 365
  let dayOfYear := dayOfEra - (365 * yearOfEra + yearOfEra / 4 - yearOfEra / 100)
  let monthFromMarch := (5 * dayOfYear + 2) / 153
  let day := dayOfYear - (153 * monthFromMarch + 2) / 5 + 1
  let month := if monthFromMarch < 10 then monthFromMarch + 3 else monthFromMarch - 9
  let year := shifted / 146097 * 400 + yearOfEra
  (if month ≤ 2 then year + 1 else year, month, day)

/-- Years outside 0 to 9999 have a sign and six digits. -/
def isoYear (year : ℤ) : String :=
  if 0 ≤ year ∧ year ≤ 9999 then padded 4 year.toNat
  else (if year < 0 then "-" else "+") ++ padded 6 year.natAbs

def toISOString (date : Time) : String :=
  let (year, month, day) := civilDate (date / 86400000)
  let millis := (date % 86400000).toNat
  isoYear year ++ "-" ++ padded 2 month ++ "-" ++ padded 2 day ++ "T" ++
    padded 2 (millis / 3600000) ++ ":" ++ padded 2 (millis / 60000 % 60) ++ ":" ++
    padded 2 (millis / 1000 % 60) ++ "." ++ padded 3 (millis % 1000) ++ "Z"

example : toISOString 1709210096789 = "2024-02-29T12:34:56.789Z" := by decide +kernel

/-! ### The mail -/

def escapeCharacter : Char → List Char
  | '&' => "&amp;".toList
  | '<' => "&lt;".toList
  | '>' => "&gt;".toList
  | '\'' => "&#39;".toList
  | '"' => "&quot;".toList
  | character => [character]

def escapeHtml (value : String) : String := String.ofList (value.toList.flatMap escapeCharacter)

structure Confirmation where
  bookingId : String
  email : String
  name : String
  title : String
  venue : String
  startsAt : Time
  deriving DecidableEq, Repr

structure MailMessage where
  from_ : String
  to_ : String
  subject : String
  text : String
  html : String
  deriving DecidableEq, Repr

/-- What `sendBookingConfirmation` does: a line on the console, or a mail. -/
inductive MailEffect where
  | emailLog (to_ subject bookingId : String)
  | sendMail (message : MailMessage)
  deriving DecidableEq, Repr

namespace Confirmation

variable (input : Confirmation)

def subject : String := "Booking confirmed: " ++ input.title

def text : String :=
  "Hi " ++ input.name ++ ",\n\nYour booking for " ++ input.title ++ " at " ++ input.venue ++
    " is confirmed.\nStarts: " ++ toISOString input.startsAt ++ "\nBooking ID: " ++
    input.bookingId ++ "\n"

def html : String :=
  "<p>Hi " ++ escapeHtml input.name ++ ",</p><p>Your booking for <strong>" ++
    escapeHtml input.title ++ "</strong> at " ++ escapeHtml input.venue ++
    " is confirmed.</p><p>Starts: " ++ escapeHtml (toISOString input.startsAt) ++
    "</p><p>Booking ID: <code>" ++ escapeHtml input.bookingId ++ "</code></p>"

end Confirmation

/-- There is a `transporter` when `EMAIL_MODE` is `smtp`. -/
def sendBookingConfirmation (transporter : Bool) (emailFrom : String) (input : Confirmation) :
    MailEffect :=
  if transporter then .sendMail ⟨emailFrom, input.email, input.subject, input.text, input.html⟩
  else .emailLog input.email input.subject input.bookingId

/-! ### Reading a mail -/

inductive Markup where
  | text (content : String)
  | tag (content : String)
  deriving DecidableEq, Repr

/-- The texts and tags of a document, with what has been read of the current one. -/
def readMarkup : (inTag : Bool) → (read : List Char) → List Char → List Markup
  | false, read, [] => [.text (String.ofList read)]
  | true, read, [] => [.tag (String.ofList read)]
  | false, read, c :: rest =>
      if c = '<' then .text (String.ofList read) :: readMarkup true [] rest
      else readMarkup false (read ++ [c]) rest
  | true, read, c :: rest =>
      if c = '>' then .tag (String.ofList read) :: readMarkup false [] rest
      else readMarkup true (read ++ [c]) rest

def markup (document : String) : List Markup := readMarkup false [] document.toList

def decodeEntities : List Char → List Char
  | '&' :: 'a' :: 'm' :: 'p' :: ';' :: rest => '&' :: decodeEntities rest
  | '&' :: 'l' :: 't' :: ';' :: rest => '<' :: decodeEntities rest
  | '&' :: 'g' :: 't' :: ';' :: rest => '>' :: decodeEntities rest
  | '&' :: '#' :: '3' :: '9' :: ';' :: rest => '\'' :: decodeEntities rest
  | '&' :: 'q' :: 'u' :: 'o' :: 't' :: ';' :: rest => '"' :: decodeEntities rest
  | c :: rest => c :: decodeEntities rest
  | [] => []

def unescapeHtml (value : String) : String := String.ofList (decodeEntities value.toList)

/-- A tag as it stands, a text with its entities decoded. -/
def Markup.shown : Markup → Markup
  | .text content => .text (unescapeHtml content)
  | .tag content => .tag content

def Markup.isTag : Markup → Bool
  | .text _ => false
  | .tag _ => true

def isMarkupCharacter (c : Char) : Bool := c ∈ ['<', '>', '"', '\'']

/-- What the template means to show: its tags, and the texts as they were given. -/
def Confirmation.document (input : Confirmation) : List Markup :=
  [.text "", .tag "p", .text ("Hi " ++ input.name ++ ","), .tag "/p", .text "",
    .tag "p", .text "Your booking for ", .tag "strong", .text input.title, .tag "/strong",
    .text (" at " ++ input.venue ++ " is confirmed."), .tag "/p", .text "",
    .tag "p", .text ("Starts: " ++ toISOString input.startsAt), .tag "/p", .text "",
    .tag "p", .text "Booking ID: ", .tag "code", .text input.bookingId, .tag "/code", .text "",
    .tag "/p", .text ""]

/-! ### Escaped texts -/

theorem decodeEntities_cons {c : Char} (h : c ≠ '&') (rest : List Char) :
    decodeEntities (c :: rest) = c :: decodeEntities rest := by
  rw [decodeEntities.eq_6]
  all_goals
    rintro _ rfl
    exact (h rfl).elim

theorem decodeEntities_escapeCharacter (c : Char) (rest : List Char) :
    decodeEntities (escapeCharacter c ++ rest) = c :: decodeEntities rest := by
  unfold escapeCharacter
  split
  · simp [decodeEntities]
  · simp [decodeEntities]
  · simp [decodeEntities]
  · simp [decodeEntities]
  · simp [decodeEntities]
  · rename_i hamp _ _ _ _
    exact decodeEntities_cons hamp rest

theorem unescapeHtml_escapeHtml (value : String) : unescapeHtml (escapeHtml value) = value := by
  simp only [unescapeHtml, escapeHtml, String.toList_ofList]
  rw [decode_flatMap (by simp [decodeEntities]) decodeEntities_escapeCharacter,
    String.ofList_toList]

theorem escapeCharacter_markup (c : Char) :
    (escapeCharacter c).all (fun d => !isMarkupCharacter d) = true := by
  unfold escapeCharacter
  split
  · decide
  · decide
  · decide
  · decide
  · decide
  · rename_i _ hlt hgt hsingle hdouble
    simpa [isMarkupCharacter] using And.intro hlt ⟨hgt, hdouble, hsingle⟩

theorem escapeHtml_markup {value : String} {c : Char} (h : c ∈ (escapeHtml value).toList) :
    isMarkupCharacter c = false := by
  rw [escapeHtml, String.toList_ofList] at h
  have hall := flatMap_all escapeCharacter_markup value.toList
  simpa using List.all_eq_true.mp hall c h

theorem filter_escapeHtml (value : String) :
    (escapeHtml value).toList.filter isMarkupCharacter = [] := by
  rw [List.filter_eq_nil_iff]
  intro c hc
  simp [escapeHtml_markup hc]

/-! ### Documents of texts and tags -/

/-- A text and the tag behind it. -/
structure Piece where
  text : String
  tag : String
  text_clean : '<' ∉ text.toList
  tag_clean : '>' ∉ tag.toList

def Piece.written (piece : Piece) : List Char :=
  piece.text.toList ++ '<' :: piece.tag.toList ++ ['>']

def Piece.cons (piece : Piece) (rest : List Markup) : List Markup :=
  .text piece.text :: .tag piece.tag :: rest

theorem readMarkup_text {text : List Char} (h : '<' ∉ text) (read rest : List Char) :
    readMarkup false read (text ++ '<' :: rest) =
      .text (String.ofList (read ++ text)) :: readMarkup true [] rest := by
  induction text generalizing read with
  | nil => simp [readMarkup]
  | cons c text ih =>
      obtain ⟨hc, htext⟩ := List.ne_and_not_mem_of_not_mem_cons h
      rw [List.cons_append, readMarkup, if_neg hc.symm, ih htext, List.append_assoc]
      rfl

theorem readMarkup_tag {tag : List Char} (h : '>' ∉ tag) (read rest : List Char) :
    readMarkup true read (tag ++ '>' :: rest) =
      .tag (String.ofList (read ++ tag)) :: readMarkup false [] rest := by
  induction tag generalizing read with
  | nil => simp [readMarkup]
  | cons c tag ih =>
      obtain ⟨hc, htag⟩ := List.ne_and_not_mem_of_not_mem_cons h
      rw [List.cons_append, readMarkup, if_neg hc.symm, ih htag, List.append_assoc]
      rfl

theorem readMarkup_piece (piece : Piece) (rest : List Char) :
    readMarkup false [] (piece.written ++ rest) = piece.cons (readMarkup false [] rest) := by
  have htext := readMarkup_text piece.text_clean [] (piece.tag.toList ++ '>' :: rest)
  have htag := readMarkup_tag piece.tag_clean [] rest
  simp only [List.nil_append, String.ofList_toList] at htext htag
  simp only [Piece.written, List.append_assoc, List.cons_append, List.nil_append, htext, htag]
  rfl

/-- A document written piece by piece is read as these pieces. -/
theorem readMarkup_pieces (pieces : List Piece) :
    readMarkup false [] (pieces.flatMap Piece.written) = pieces.foldr Piece.cons [.text ""] := by
  have hread := read_flatMap readMarkup_piece pieces []
  rw [List.append_nil] at hread
  exact hread

/-! ### The template -/

theorem escapeHtml_clean (value : String) : '<' ∉ (escapeHtml value).toList := by
  intro hmem
  exact absurd (escapeHtml_markup hmem) (by decide)

theorem escapeHtml_append (a b : String) :
    escapeHtml (a ++ b) = escapeHtml a ++ escapeHtml b := by
  simp [escapeHtml]

/-- A text written escaped, and the tag behind it. -/
def Piece.escaped (text tag : String) (tag_clean : '>' ∉ tag.toList) : Piece :=
  ⟨escapeHtml text, tag, escapeHtml_clean text, tag_clean⟩

theorem filter_escaped (text : String) {tag : String} (h : '>' ∉ tag.toList) :
    (Piece.escaped text tag h).written.filter isMarkupCharacter =
      '<' :: tag.toList.filter isMarkupCharacter ++ ['>'] := by
  have hopen : isMarkupCharacter '<' = true := by decide
  have hclose : isMarkupCharacter '>' = true := by decide
  simp [Piece.escaped, Piece.written, filter_escapeHtml, hopen, hclose]

namespace Confirmation

/-- The template as pieces: its own words need no escaping. -/
def pieces (input : Confirmation) : List Piece :=
  [.escaped "" "p" (by decide),
    .escaped ("Hi " ++ input.name ++ ",") "/p" (by decide),
    .escaped "" "p" (by decide),
    .escaped "Your booking for " "strong" (by decide),
    .escaped input.title "/strong" (by decide),
    .escaped (" at " ++ input.venue ++ " is confirmed.") "/p" (by decide),
    .escaped "" "p" (by decide),
    .escaped ("Starts: " ++ toISOString input.startsAt) "/p" (by decide),
    .escaped "" "p" (by decide),
    .escaped "Booking ID: " "code" (by decide),
    .escaped input.bookingId "/code" (by decide),
    .escaped "" "/p" (by decide)]

theorem html_pieces (input : Confirmation) :
    input.html.toList = input.pieces.flatMap Piece.written := by
  have hwords : ∀ words ∈ ["", "Hi ", ",", "Your booking for ", " at ", " is confirmed.",
      "Starts: ", "Booking ID: "], escapeHtml words = words := by decide
  simp only [List.forall_mem_cons] at hwords
  unfold html pieces
  simp only [Piece.escaped, Piece.written, escapeHtml_append, hwords, String.toList_append,
    List.flatMap_cons, List.flatMap_nil, List.append_assoc, List.append_nil]
  rfl

theorem markup_html (input : Confirmation) :
    markup input.html = input.pieces.foldr Piece.cons [.text ""] := by
  rw [markup, html_pieces, readMarkup_pieces]

theorem shown_html (input : Confirmation) :
    (markup input.html).map Markup.shown = input.document := by
  have hempty : unescapeHtml "" = "" := by decide
  rw [markup_html]
  simp only [pieces, List.foldr_cons, List.foldr_nil, Piece.cons, Piece.escaped, List.map_cons,
    List.map_nil, Markup.shown, unescapeHtml_escapeHtml, hempty]
  rfl

theorem tags_html (input : Confirmation) :
    (markup input.html).filter Markup.isTag =
      ["p", "/p", "p", "strong", "/strong", "/p", "p", "/p", "p", "code", "/code", "/p"].map
        Markup.tag := by
  rw [markup_html]
  rfl

/-- The brackets of the twelve tags are the only markup characters. -/
theorem filter_html (input : Confirmation) :
    input.html.toList.filter isMarkupCharacter = (List.replicate 12 ['<', '>']).flatten := by
  rw [html_pieces]
  simp only [pieces, List.flatMap_cons, List.flatMap_nil, List.filter_append, filter_escaped]
  decide

end Confirmation

/-- Every mail has the tags of the template and no others, none of its markup
characters is the input's, and its texts read as the input was given. -/
theorem sendBookingConfirmation_markup (emailFrom : String) (input : Confirmation) :
    ∃ message, sendBookingConfirmation true emailFrom input = .sendMail message ∧
      (markup message.html).filter Markup.isTag =
        ["p", "/p", "p", "strong", "/strong", "/p", "p", "/p", "p", "code", "/code", "/p"].map
          Markup.tag ∧
      message.html.toList.filter isMarkupCharacter = (List.replicate 12 ['<', '>']).flatten ∧
      (∀ value : String, ∀ c ∈ (escapeHtml value).toList, isMarkupCharacter c = false) ∧
      (markup message.html).map Markup.shown = input.document ∧
      Function.Injective escapeHtml ∧ Function.LeftInverse unescapeHtml escapeHtml := by
  refine ⟨_, rfl, input.tags_html, input.filter_html, ?_, input.shown_html, ?_,
    unescapeHtml_escapeHtml⟩
  · intro value c hc
    exact escapeHtml_markup hc
  · exact Function.LeftInverse.injective unescapeHtml_escapeHtml

end Eventify
