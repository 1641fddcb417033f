import Eventify.Library.Codes
import Eventify.Library.Segments

/-!
# JSON texts

Trees of arrays and objects over leaves of any kind. A tree is written without
blanks; the text of a leaf ends where a comma or a closing bracket follows. The
written text determines the tree.
-/

namespace Library

variable {α : Type*}

inductive JsonTree (α : Type*) where
  | leaf (a : α)
  | array (items : List (JsonTree α))
  | object (entries : List (String × JsonTree α))

namespace JsonTree

/-- Induction over the items of an array and the values of an object. -/
theorem induction_on {motive : JsonTree α → Prop} (leaf : ∀ a, motive (.leaf a))
    (array : ∀ items, (∀ t ∈ items, motive t) → motive (.array items))
    (object : ∀ entries, (∀ e ∈ entries, motive e.2) → motive (.object entries)) :
    ∀ t, motive t
  | .leaf a => leaf a
  | .array items => array items fun t _ => induction_on leaf array object t
  | .object entries => object entries fun e _ => induction_on leaf array object e.2
termination_by t => sizeOf t
decreasing_by
  · have hlt := List.sizeOf_lt_of_mem ‹t ∈ items›
    simp only [JsonTree.array.sizeOf_spec]
    omega
  · have hlt := List.sizeOf_lt_of_mem ‹e ∈ entries›
    obtain ⟨k, t⟩ := e
    simp only [Prod.mk.sizeOf_spec, JsonTree.object.sizeOf_spec] at hlt ⊢
    omega

/-! ### Writing -/

def hexDigit (n : ℕ) : Char := if n < 10 then Char.ofNat (48 + n) else Char.ofNat (87 + n)

/-- Characters with a letter behind a backslash. -/
def shortEscapes : List (Char × Char) :=
  [('"', '"'), ('\\', '\\'), ('\x08', 'b'), ('\x09', 't'), ('\x0a', 'n'), ('\x0c', 'f'),
    ('\x0d', 'r')]

def escapeChar (c : Char) : List Char :=
  match shortEscapes.lookup c with
  | some letter => ['\\', letter]
  | none =>
      if c.toNat < 32 then
        ['\\', 'u', '0', '0', hexDigit (c.toNat / 16), hexDigit (c.toNat % 16)]
      else [c]

def quote (text : String) : List Char := '"' :: (text.toList.flatMap escapeChar ++ ['"'])

mutual

def write (leafText : α → List Char) : JsonTree α → List Char
  | .leaf a => leafText a
  | .array items => '[' :: ([','].intercalate (writeItems leafText items) ++ [']'])
  | .object entries => '\x7b' :: ([','].intercalate (writeEntries leafText entries) ++ ['\x7d'])

def writeItems (leafText : α → List Char) : List (JsonTree α) → List (List Char)
  | [] => []
  | t :: items => write leafText t :: writeItems leafText items

def writeEntries (leafText : α → List Char) : List (String × JsonTree α) → List (List Char)
  | [] => []
  | (k, t) :: entries => (quote k ++ ':' :: write leafText t) :: writeEntries leafText entries

end

mutual

def leaves : JsonTree α → List α
  | .leaf a => [a]
  | .array items => leavesItems items
  | .object entries => leavesEntries entries

def leavesItems : List (JsonTree α) → List α
  | [] => []
  | t :: items => leaves t ++ leavesItems items

def leavesEntries : List (String × JsonTree α) → List α
  | [] => []
  | (_, t) :: entries => leaves t ++ leavesEntries entries

end

@[simp] theorem write_leaf (leafText : α → List Char) (a : α) :
    write leafText (.leaf a) = leafText a := rfl

@[simp] theorem write_array (leafText : α → List Char) (items : List (JsonTree α)) :
    write leafText (.array items) =
      '[' :: ([','].intercalate (items.map (write leafText)) ++ [']']) := by
  have hitems : ∀ items, writeItems leafText items = items.map (write leafText) := by
    intro items
    induction items with
    | nil => rfl
    | cons t items ih => rw [writeItems, ih, List.map_cons]
  rw [write, hitems]

def writeEntry (leafText : α → List Char) (entry : String × JsonTree α) : List Char :=
  quote entry.1 ++ ':' :: write leafText entry.2

@[simp] theorem write_object (leafText : α → List Char) (entries : List (String × JsonTree α)) :
    write leafText (.object entries) =
      '\x7b' :: ([','].intercalate (entries.map (writeEntry leafText)) ++ ['\x7d']) := by
  have hentries : ∀ entries, writeEntries leafText entries =
      entries.map (writeEntry leafText) := by
    intro entries
    induction entries with
    | nil => rfl
    | cons e entries ih =>
        obtain ⟨k, t⟩ := e
        rw [writeEntries, ih, List.map_cons, writeEntry]
  rw [write, hentries]

@[simp] theorem leaves_array (items : List (JsonTree α)) :
    (array items).leaves = items.flatMap leaves := by
  rw [leaves]
  induction items with
  | nil => rfl
  | cons t items ih => rw [leavesItems, ih, List.flatMap_cons]

@[simp] theorem leaves_object (entries : List (String × JsonTree α)) :
    (object entries).leaves = entries.flatMap fun e => e.2.leaves := by
  rw [leaves]
  induction entries with
  | nil => rfl
  | cons e entries ih =>
      obtain ⟨k, t⟩ := e
      rw [leavesEntries, ih, List.flatMap_cons]

/-! ### Strings -/

def hexValue (c : Char) : ℕ := if c.toNat < 58 then c.toNat - 48 else c.toNat - 87

def unescaped (letter : Char) : Char :=
  ((shortEscapes.find? fun e => e.2 == letter).map Prod.fst).getD letter

/-- The text up to the closing quote, and what stands behind it. -/
def readString : List Char → Option (List Char × List Char)
  | [] => none
  | '"' :: rest => some ([], rest)
  | '\\' :: 'u' :: _ :: _ :: c :: d :: rest =>
      (readString rest).map fun found =>
        (Char.ofNat (16 * hexValue c + hexValue d) :: found.1, found.2)
  | '\\' :: c :: rest => (readString rest).map fun found => (unescaped c :: found.1, found.2)
  | c :: rest => (readString rest).map fun found => (c :: found.1, found.2)

theorem hexValue_hexDigit : ∀ n < 16, hexValue (hexDigit n) = n := by decide

theorem readString_short (letter : Char) (hletter : letter ≠ 'u') (rest : List Char) :
    readString ('\\' :: letter :: rest) =
      (readString rest).map fun found => (unescaped letter :: found.1, found.2) :=
  readString.eq_4 letter rest fun _ _ _ _ _ h _ => hletter h

theorem shortEscapes_read : ∀ e ∈ shortEscapes, e.2 ≠ 'u' ∧ unescaped e.2 = e.1 := by decide

/-- One written character is read back, whatever follows it. -/
theorem readString_escapeChar (c : Char) (rest : List Char) :
    readString (escapeChar c ++ rest) =
      (readString rest).map fun found => (c :: found.1, found.2) := by
  unfold escapeChar
  split
  · next letter hlookup =>
      have hmem : (c, letter) ∈ shortEscapes := by
        obtain ⟨l₁, l₂, hsplit, -⟩ := List.lookup_eq_some_iff.mp hlookup
        simp [hsplit]
      obtain ⟨hletter, hread⟩ := shortEscapes_read (c, letter) hmem
      rw [List.cons_append, List.singleton_append, readString_short letter hletter, hread]
  · next hlookup =>
      split
      · next hcontrol =>
          have hhigh := hexValue_hexDigit (c.toNat / 16) (by omega)
          have hlow := hexValue_hexDigit (c.toNat % 16) (by omega)
          have hcode : Char.ofNat (16 * (c.toNat / 16) + c.toNat % 16) = c := by
            rw [Nat.div_add_mod, Char.ofNat_toNat]
          simp only [List.cons_append, List.nil_append]
          rw [readString.eq_3, hhigh, hlow, hcode]
      · have hquote : c ≠ '"' := by
          rintro rfl
          cases hlookup
        have hslash : c ≠ '\\' := by
          rintro rfl
          cases hlookup
        exact readString.eq_5 c rest hquote (fun _ _ _ _ _ h _ => hslash h)
          fun _ _ h _ => hslash h

theorem readString_escaped (text rest : List Char) :
    readString (text.flatMap escapeChar ++ '"' :: rest) = some (text, rest) := by
  have hfold : text.foldr (fun c found => found.map fun f : List Char × List Char =>
      (c :: f.1, f.2)) (some ([], rest)) = some (text, rest) := by
    induction text with
    | nil => rfl
    | cons c text ih => rw [List.foldr_cons, ih, Option.map_some]
  rw [read_flatMap readString_escapeChar text, readString.eq_2, hfold]

/-- A quoted text is cut off from what follows it in one way only. -/
theorem quote_cut {text text' : String} {r s : List Char}
    (h : quote text ++ r = quote text' ++ s) : text = text' ∧ r = s := by
  have hbody := (List.cons.inj h).2
  simp only [List.append_eq, List.append_assoc, List.singleton_append] at hbody
  have hread := congrArg readString hbody
  rw [readString_escaped, readString_escaped, Option.some_inj, Prod.mk.injEq,
    String.toList_inj] at hread
  exact hread

theorem quote_injective : Function.Injective quote := fun _ _ h =>
  (quote_cut (congrArg (· ++ []) h)).1

/-! ### One tree for each text -/

/-- What may follow a tree inside a text: nothing, a comma or a closing bracket. -/
def Stops (rest : List Char) : Prop := ∀ c ∈ rest.head?, c = ',' ∨ c = ']' ∨ c = '\x7d'

theorem stops_nil : Stops [] := fun _ hc => nomatch hc

theorem stops_cons {c : Char} (h : c = ',' ∨ c = ']' ∨ c = '\x7d') (rest : List Char) :
    Stops (c :: rest) := by
  intro d hd
  obtain rfl : c = d := Option.some.inj hd
  exact h

/-- The two words are cut off from what follows them in one way only. -/
def Cuts {β : Type*} (word : β → List Char) (x y : β) : Prop :=
  ∀ r s, Stops r → Stops s → word x ++ r = word y ++ s → x = y ∧ r = s

/-- Words of characters that cannot follow a word. -/
theorem words_cut {p : Char → Bool} (hp : ∀ c ∈ [',', ']', '\x7d'], p c = false)
    {word word' r s : List Char} (hword : ∀ c ∈ word, p c = true)
    (hword' : ∀ c ∈ word', p c = true) (hr : Stops r) (hs : Stops s)
    (h : word ++ r = word' ++ s) : word = word' ∧ r = s := by
  have hnone {rest : List Char} (hrest : Stops rest) : rest.takeWhile p = [] := by
    cases rest with
    | nil => rfl
    | cons c rest =>
        have hc : p c = false := hp c (by simpa using hrest c rfl)
        exact List.takeWhile_cons_of_neg (by simp [hc])
  have hwords := congrArg (List.takeWhile p) h
  rw [List.takeWhile_append_of_pos hword, List.takeWhile_append_of_pos hword', hnone hr, hnone hs,
    List.append_nil, List.append_nil] at hwords
  subst hwords
  exact ⟨rfl, List.append_cancel_left h⟩

section Sequences

variable {β : Type*} {word : β → List Char} {close : Char}

theorem stops_tail (hclose : close = ']' ∨ close = '\x7d') (l : List β) (r : List Char) :
    Stops ((l.flatMap fun x => ',' :: word x) ++ close :: r) := by
  cases l with
  | nil => exact stops_cons (.inr hclose) r
  | cons x l => exact stops_cons (.inl rfl) _

theorem tail_cut (hclose : close = ']' ∨ close = '\x7d') {l l' : List β}
    (hcut : ∀ x ∈ l, ∀ y ∈ l', Cuts word x y) {r s : List Char}
    (h : (l.flatMap fun x => ',' :: word x) ++ close :: r =
      (l'.flatMap fun x => ',' :: word x) ++ close :: s) : l = l' ∧ r = s := by
  have hcomma : close ≠ ',' := by
    rcases hclose with rfl | rfl
    · decide
    · decide
  induction l generalizing l' with
  | nil =>
      cases l' with
      | nil => exact ⟨rfl, (List.cons.inj h).2⟩
      | cons y l' => exact (hcomma (List.cons.inj h).1).elim
  | cons x l ih =>
      cases l' with
      | nil => exact (hcomma (List.cons.inj h).1.symm).elim
      | cons y l' =>
          simp only [List.flatMap_cons, List.cons_append, List.append_assoc, List.cons.injEq,
            true_and] at h
          obtain ⟨rfl, hrest⟩ := hcut x List.mem_cons_self y List.mem_cons_self _ _
            (stops_tail hclose l r) (stops_tail hclose l' s) h
          obtain ⟨rfl, rfl⟩ := ih (fun x hx y hy => hcut x (List.mem_cons_of_mem _ hx) y
            (List.mem_cons_of_mem _ hy)) hrest
          exact ⟨rfl, rfl⟩

/-- Words between commas, up to a bracket that none of them starts with. -/
theorem sequence_cut (hclose : close = ']' ∨ close = '\x7d') {l l' : List β}
    (hstart : ∀ x ∈ l ++ l', ∃ c rest, word x = c :: rest ∧ c ≠ close)
    (hcut : ∀ x ∈ l, ∀ y ∈ l', Cuts word x y) {r s : List Char}
    (h : [','].intercalate (l.map word) ++ close :: r =
      [','].intercalate (l'.map word) ++ close :: s) : l = l' ∧ r = s := by
  have htail (x : β) (l : List β) (r : List Char) :
      [','].intercalate ((x :: l).map word) ++ close :: r =
        word x ++ ((l.flatMap fun x => ',' :: word x) ++ close :: r) := by
    rw [List.map_cons, intercalate_cons, List.flatMap_map, List.append_assoc]
  have hhead {x : β} (hx : x ∈ l ++ l') (rest behind : List Char) :
      word x ++ rest ≠ close :: behind := by
    obtain ⟨c, text, hword, hc⟩ := hstart x hx
    rw [hword]
    exact fun h => hc (List.cons.inj h).1
  cases l with
  | nil =>
      cases l' with
      | nil => exact ⟨rfl, (List.cons.inj h).2⟩
      | cons y l' =>
          rw [htail y l' s] at h
          exact (hhead (by simp) _ _ h.symm).elim
  | cons x l =>
      cases l' with
      | nil =>
          rw [htail x l r] at h
          exact (hhead (by simp) _ _ h).elim
      | cons y l' =>
          rw [htail x l r, htail y l' s] at h
          obtain ⟨rfl, hrest⟩ := hcut x List.mem_cons_self y List.mem_cons_self _ _
            (stops_tail hclose l r) (stops_tail hclose l' s) h
          obtain ⟨rfl, rfl⟩ := tail_cut hclose (fun x hx y hy => hcut x
            (List.mem_cons_of_mem _ hx) y (List.mem_cons_of_mem _ hy)) hrest
          exact ⟨rfl, rfl⟩

end Sequences

/-- Texts of leaves that can be told apart inside any text of a tree. -/
structure LeafCode (α : Type*) where
  text : α → List Char
  printable : α → Prop
  start : ∀ a, printable a →
    ∃ c rest, text a = c :: rest ∧ c ∉ ['[', ']', '\x7b', '\x7d', ',']
  cut : ∀ a b, printable a → printable b → Cuts text a b

namespace LeafCode

variable (code : LeafCode α)

/-- Every leaf of the tree has a text of its own. -/
def Printable (t : JsonTree α) : Prop := ∀ a ∈ t.leaves, code.printable a

theorem write_start {t : JsonTree α} (h : code.Printable t) :
    ∃ c rest, write code.text t = c :: rest ∧ c ∉ [']', '\x7d', ','] := by
  cases t with
  | leaf a =>
      obtain ⟨c, rest, htext, hc⟩ := code.start a (h a (List.mem_singleton_self a))
      refine ⟨c, rest, htext, fun hmem => hc ?_⟩
      simp only [List.mem_cons, List.not_mem_nil, or_false] at hmem ⊢
      tauto
  | array items => exact ⟨'[', _, write_array _ items, by decide⟩
  | object entries => exact ⟨'\x7b', _, write_object _ entries, by decide⟩

/-- The text of a leaf is not the start of a container. -/
theorem text_ne {a : α} (h : code.printable a) {bracket : Char}
    (hbracket : bracket = '[' ∨ bracket = '\x7b') (r s : List Char) :
    code.text a ++ r ≠ bracket :: s := by
  obtain ⟨c, rest, htext, hc⟩ := code.start a h
  rw [htext]
  rintro heq
  obtain rfl : c = bracket := (List.cons.inj heq).1
  rcases hbracket with rfl | rfl
  · exact hc (by decide)
  · exact hc (by decide)

theorem printable_array {items : List (JsonTree α)} :
    code.Printable (.array items) ↔ ∀ t ∈ items, code.Printable t := by
  simp only [Printable, leaves_array, List.mem_flatMap]
  exact ⟨fun h t ht a ha => h a ⟨t, ht, ha⟩, fun h a ⟨t, ht, ha⟩ => h t ht a ha⟩

theorem printable_object {entries : List (String × JsonTree α)} :
    code.Printable (.object entries) ↔ ∀ e ∈ entries, code.Printable e.2 := by
  simp only [Printable, leaves_object, List.mem_flatMap]
  exact ⟨fun h e he a ha => h a ⟨e, he, ha⟩, fun h a ⟨e, he, ha⟩ => h e he a ha⟩

theorem writeEntry_cut {e e' : String × JsonTree α} (h : Cuts (write code.text) e.2 e'.2) :
    Cuts (writeEntry code.text) e e' := by
  intro r s hr hs heq
  simp only [writeEntry, List.append_assoc, List.cons_append] at heq
  obtain ⟨hkey, hrest⟩ := quote_cut heq
  obtain ⟨hvalue, rfl⟩ := h r s hr hs (List.cons.inj hrest).2
  exact ⟨Prod.ext hkey hvalue, rfl⟩

/-- The text of a tree is cut off from what follows it in one way only. -/
theorem write_cut {t u : JsonTree α} (ht : code.Printable t) (hu : code.Printable u) :
    Cuts (write code.text) t u := by
  induction t using induction_on generalizing u with
  | leaf a =>
      have ha := ht a (List.mem_singleton_self a)
      intro r s hr hs heq
      cases u with
      | leaf b =>
          obtain ⟨rfl, hrest⟩ :=
            code.cut a b ha (hu b (List.mem_singleton_self b)) r s hr hs heq
          exact ⟨rfl, hrest⟩
      | array items =>
          rw [write_leaf, write_array] at heq
          exact (code.text_ne ha (.inl rfl) _ _ heq).elim
      | object entries =>
          rw [write_leaf, write_object] at heq
          exact (code.text_ne ha (.inr rfl) _ _ heq).elim
  | array items ih =>
      intro r s _ _ heq
      cases u with
      | leaf b =>
          rw [write_leaf, write_array] at heq
          exact (code.text_ne (hu b (List.mem_singleton_self b)) (.inl rfl) _ _ heq.symm).elim
      | array items' =>
          simp only [write_array, List.cons_append, List.append_assoc, List.nil_append] at heq
          have hstart : ∀ t ∈ items ++ items', ∃ c rest, write code.text t = c :: rest ∧
              c ≠ ']' := by
            intro t hmem
            obtain ⟨c, rest, htext, hc⟩ := code.write_start ((List.mem_append.mp hmem).elim
              (code.printable_array.mp ht t) (code.printable_array.mp hu t))
            exact ⟨c, rest, htext, fun h => hc (h ▸ List.mem_cons_self)⟩
          obtain ⟨rfl, hrest⟩ := sequence_cut (.inl rfl) hstart (fun t hmem u hmem' =>
            ih t hmem (code.printable_array.mp ht t hmem) (code.printable_array.mp hu u hmem'))
            (List.cons.inj heq).2
          exact ⟨rfl, hrest⟩
      | object entries =>
          rw [write_array, write_object] at heq
          exact absurd (List.cons.inj heq).1 (by decide)
  | object entries ih =>
      intro r s _ _ heq
      cases u with
      | leaf b =>
          rw [write_leaf, write_object] at heq
          exact (code.text_ne (hu b (List.mem_singleton_self b)) (.inr rfl) _ _ heq.symm).elim
      | array items =>
          rw [write_array, write_object] at heq
          exact absurd (List.cons.inj heq).1 (by decide)
      | object entries' =>
          simp only [write_object, List.cons_append, List.append_assoc, List.nil_append] at heq
          have hstart : ∀ e ∈ entries ++ entries', ∃ c rest,
              writeEntry code.text e = c :: rest ∧ c ≠ '\x7d' :=
            fun e _ => ⟨'"', _, rfl, by decide⟩
          obtain ⟨rfl, hrest⟩ := sequence_cut (.inr rfl) hstart (fun e hmem e' hmem' =>
            code.writeEntry_cut (ih e hmem (code.printable_object.mp ht e hmem)
              (code.printable_object.mp hu e' hmem'))) (List.cons.inj heq).2
          exact ⟨rfl, hrest⟩

/-- Printable trees with one text are equal. -/
theorem write_injective {t u : JsonTree α} (ht : code.Printable t) (hu : code.Printable u)
    (h : write code.text t = write code.text u) : t = u :=
  (code.write_cut ht hu [] [] stops_nil stops_nil (by rw [h])).1

end LeafCode

end JsonTree

end Library
