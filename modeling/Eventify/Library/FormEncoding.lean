import Eventify.Library.Codes

/-!
# Form encoding

`application/x-www-form-urlencoded`: fields written with `URLSearchParams` and
read with `querystring.parse`. What is written is read back, whatever the names
and values are.
-/

namespace Library.FormEncoding

/-! ### Components -/

def hexDigit (n : ℕ) : Char := if n < 10 then Char.ofNat (48 + n) else Char.ofNat (55 + n)

/-- The value of a hexadecimal digit of either letter case. -/
def hexValue (c : Char) : Option ℕ :=
  if c.isDigit then some (c.toNat - 48)
  else if 'A' ≤ c ∧ c ≤ 'F' then some (c.toNat - 55)
  else if 'a' ≤ c ∧ c ≤ 'f' then some (c.toNat - 87)
  else none

def escapeByte (b : UInt8) : List Char := ['%', hexDigit (b.toNat / 16), hexDigit (b.toNat % 16)]

/-- What the serializer leaves as it is. -/
def isPlain (c : Char) : Bool := c.isAlphanum || ['*', '-', '.', '_'].contains c

def escapeChar (c : Char) : List Char :=
  if c = ' ' then ['+']
  else if isPlain c then [c]
  else (String.utf8EncodeChar c).flatMap escapeByte

def escape (text : List Char) : List Char := text.flatMap escapeChar

/-- The bytes of a component; none where `decodeURIComponent` throws at a `%`. -/
def readBytes : List Char → Option (List UInt8)
  | [] => some []
  | '+' :: rest => (readBytes rest).map (32 :: ·)
  | '%' :: high :: low :: rest =>
      match hexValue high, hexValue low with
      | some a, some b => (readBytes rest).map (UInt8.ofNat (16 * a + b) :: ·)
      | _, _ => none
  | c :: rest => if c = '%' then none else (readBytes rest).map (String.utf8EncodeChar c ++ ·)

/-- A component as it is read; `lenient` reads what `decodeURIComponent` does
not. -/
def unescape (lenient : List Char → List Char) (text : List Char) : List Char :=
  match (readBytes text).bind fun bytes => bytes.toByteArray.utf8Decode? with
  | some chars => chars.toList
  | none => lenient text

theorem hexValue_hexDigit : ∀ n < 16, hexValue (hexDigit n) = some n := by decide

theorem readBytes_escapeByte (b : UInt8) (rest : List Char) :
    readBytes (escapeByte b ++ rest) = (readBytes rest).map (b :: ·) := by
  have hb : b.toNat < 256 := b.toNat_lt
  have hhigh : b.toNat / 16 < 16 := by omega
  have hlow : b.toNat % 16 < 16 := Nat.mod_lt _ (by decide)
  have hbyte : UInt8.ofNat (16 * (b.toNat / 16) + b.toNat % 16) = b := by
    rw [Nat.div_add_mod, UInt8.ofNat_toNat]
  simp only [escapeByte, List.cons_append, List.nil_append, readBytes,
    hexValue_hexDigit _ hhigh, hexValue_hexDigit _ hlow, hbyte]

theorem readBytes_escapeBytes (bytes : List UInt8) (rest : List Char) :
    readBytes (bytes.flatMap escapeByte ++ rest) = (readBytes rest).map (bytes ++ ·) := by
  induction bytes with
  | nil => simp
  | cons b bytes ih =>
      rw [List.flatMap_cons, List.append_assoc, readBytes_escapeByte, ih, Option.map_map]
      rfl

theorem isPlain_ne {c : Char} (h : isPlain c = true) : c ∉ ['+', '%', '&', '='] := by
  intro hc
  simp only [List.mem_cons, List.not_mem_nil, or_false] at hc
  rcases hc with rfl | rfl | rfl | rfl <;> exact absurd h (by decide)

theorem readBytes_plain {c : Char} (h : isPlain c = true) (rest : List Char) :
    readBytes (c :: rest) = (readBytes rest).map (String.utf8EncodeChar c ++ ·) := by
  have hplus : c ≠ '+' := fun hc => isPlain_ne h (by simp [hc])
  have hpercent : c ≠ '%' := fun hc => isPlain_ne h (by simp [hc])
  rw [readBytes.eq_def]
  split
  · simp_all
  · simp_all
  · simp_all
  · simp_all

theorem readBytes_escapeChar (c : Char) (rest : List Char) :
    readBytes (escapeChar c ++ rest) = (readBytes rest).map (String.utf8EncodeChar c ++ ·) := by
  unfold escapeChar
  split
  next hspace =>
    subst hspace
    rfl
  · split
    next hplain => exact readBytes_plain hplain rest
    · exact readBytes_escapeBytes _ rest

theorem readBytes_escape (text : List Char) :
    readBytes (escape text) = some (text.flatMap String.utf8EncodeChar) := by
  unfold escape
  induction text with
  | nil => rfl
  | cons c text ih => rw [List.flatMap_cons, readBytes_escapeChar, ih, List.flatMap_cons]; rfl

theorem unescape_escape (lenient : List Char → List Char) (text : List Char) :
    unescape lenient (escape text) = text := by
  have hutf8 : (text.flatMap String.utf8EncodeChar).toByteArray = text.utf8Encode := rfl
  simp [unescape, readBytes_escape, hutf8]

/-! ### Fields -/

def writeField (field : List Char × List Char) : List Char :=
  escape field.1 ++ '=' :: escape field.2

/-- `URLSearchParams.toString`. -/
def write (fields : List (List Char × List Char)) : List Char :=
  ['&'].intercalate (fields.map writeField)

def readField (lenient : List Char → List Char) (text : List Char) : List Char × List Char :=
  (unescape lenient (text.takeWhile (· ≠ '=')),
    unescape lenient ((text.dropWhile (· ≠ '=')).drop 1))

/-- The fields that `querystring.parse` finds, in their order; it skips what is
empty between two separators. -/
def read (lenient : List Char → List Char) (text : List Char) : List (List Char × List Char) :=
  ((text.splitOn '&').filter fun part => !part.isEmpty).map (readField lenient)

theorem escape_all {p : Char → Bool} (hplus : p '+' = true) (hpercent : p '%' = true)
    (hplain : ∀ c, isPlain c = true → p c = true) (hhex : ∀ n < 16, p (hexDigit n) = true)
    (text : List Char) : (escape text).all p = true := by
  refine flatMap_all (fun c => ?_) text
  unfold escapeChar
  split
  · simp [hplus]
  · split
    next hc => simp [hplain c hc]
    · refine flatMap_all (fun b => ?_) _
      have hb : b.toNat < 256 := b.toNat_lt
      simp [escapeByte, hpercent, hhex _ (by omega : b.toNat / 16 < 16),
        hhex _ (Nat.mod_lt _ (by decide) : b.toNat % 16 < 16)]

/-- A component has no separator in it. -/
theorem escape_ne (text : List Char) : ∀ c ∈ escape text, c ≠ '&' ∧ c ≠ '=' := by
  have hall := escape_all (p := fun c => c ≠ '&' && c ≠ '=') rfl rfl
    (fun c hc => by
      have hne := isPlain_ne hc
      simp only [List.mem_cons, List.not_mem_nil, or_false, not_or] at hne
      simp [hne.2.2.1, hne.2.2.2]) (by decide) text
  intro c hc
  simpa using List.all_eq_true.mp hall c hc

theorem readField_writeField (lenient : List Char → List Char) (field : List Char × List Char) :
    readField lenient (writeField field) = field := by
  have hname : ∀ c ∈ escape field.1, (c ≠ '=' : Bool) = true := fun c hc => by
    simpa using (escape_ne field.1 c hc).2
  have htake : (writeField field).takeWhile (· ≠ '=') = escape field.1 := by
    rw [writeField, List.takeWhile_append_of_pos hname]
    simp
  have hdrop : (writeField field).dropWhile (· ≠ '=') = '=' :: escape field.2 := by
    rw [writeField, List.dropWhile_append_of_pos hname]
    simp
  rw [readField, htake, hdrop, List.drop_one, List.tail_cons, unescape_escape, unescape_escape]

/-- The round trip: any fields, written and read. -/
theorem read_write (lenient : List Char → List Char) (fields : List (List Char × List Char)) :
    read lenient (write fields) = fields := by
  have hfull : ∀ part ∈ fields.map writeField, (!part.isEmpty) = true := by
    intro part hpart
    obtain ⟨field, -, rfl⟩ := List.mem_map.mp hpart
    simp [writeField]
  have hclean : ∀ part ∈ fields.map writeField, '&' ∉ part := by
    intro part hpart hmem
    obtain ⟨field, -, rfl⟩ := List.mem_map.mp hpart
    simp only [writeField, List.mem_append, List.mem_cons] at hmem
    rcases hmem with hname | hsep | hvalue
    · exact (escape_ne _ _ hname).1 rfl
    · exact absurd hsep (by decide)
    · exact (escape_ne _ _ hvalue).1 rfl
  by_cases hnone : fields = []
  · subst hnone
    rfl
  · rw [read, write, List.splitOn_intercalate _ hclean (by simpa using hnone),
      List.filter_eq_self.mpr hfull, List.map_map]
    simp [Function.comp_def, readField_writeField]

end Library.FormEncoding
