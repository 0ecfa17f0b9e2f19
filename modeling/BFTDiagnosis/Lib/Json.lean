import Mathlib.Data.List.Basic
import Mathlib.Tactic.Common
import BFTDiagnosis.Lib.Word

/-!
# JSON values and their compact text

JSON values with natural numbers, the compact text of a value and a parser that reads this text back.
Strings are escaped as usual: quotes, backslashes and control characters, the common ones by a letter
and the others by their code.

Values can be changed by key. The last section has the two shapes that records and tagged unions take in such
values: an object with one entry for each field, and a tag alone or an object with the tag as its only key.
-/

namespace BFTDiagnosis

inductive Json where
  | null
  | bool (value : Bool)
  | number (value : ℕ)
  | string (value : String)
  | array (values : List Json)
  | object (fields : List (String × Json))

namespace Json

def quoteMark : Char := Char.ofNat 34
def backslash : Char := Char.ofNat 92
def openBrace : Char := Char.ofNat 123
def closeBrace : Char := Char.ofNat 125

/-! ## Printing -/

/-- The characters that are escaped by one letter. -/
def letterEscapes : List (Char × Char) :=
  [(quoteMark, quoteMark), (backslash, backslash), (Char.ofNat 8, 'b'), (Char.ofNat 12, 'f'),
    (Char.ofNat 10, 'n'), (Char.ofNat 13, 'r'), (Char.ofNat 9, 't')]

def escape (c : Char) : List Char :=
  match letterEscapes.find? fun entry ↦ entry.1 == c with
  | some (_, letter) => [backslash, letter]
  | none =>
    if c.toNat < 32 then
      [backslash, 'u', '0', '0', Nat.digitChar (c.toNat / 16), Nat.digitChar (c.toNat % 16)]
    else [c]

def printString (s : String) : List Char := quoteMark :: (s.toList.flatMap escape ++ [quoteMark])

mutual

def print : Json → List Char
  | .null => "null".toList
  | .bool true => "true".toList
  | .bool false => "false".toList
  | .number value => Nat.toDigits 10 value
  | .string value => printString value
  | .array values => '[' :: printValues values
  | .object fields => openBrace :: printFields fields

def printValues : List Json → List Char
  | [] => [']']
  | value :: rest => print value ++ printMoreValues rest

def printMoreValues : List Json → List Char
  | [] => [']']
  | value :: rest => ',' :: (print value ++ printMoreValues rest)

def printFields : List (String × Json) → List Char
  | [] => [closeBrace]
  | (key, value) :: rest => printString key ++ (':' :: (print value ++ printMoreFields rest))

def printMoreFields : List (String × Json) → List Char
  | [] => [closeBrace]
  | (key, value) :: rest => ',' :: (printString key ++ (':' :: (print value ++ printMoreFields rest)))

end

/-! ## Parsing -/

def hexValue (c : Char) : Option ℕ :=
  if c.isDigit then some (c.toNat - 48)
  else if 97 ≤ c.toNat ∧ c.toNat ≤ 102 then some (c.toNat - 87) else none

def unescape (letter : Char) : Option Char :=
  (letterEscapes.find? fun entry ↦ entry.2 == letter).map Prod.fst

/-- Put a character in front of what was read after it. -/
def prepend (c : Char) (result : Option (List Char × List Char)) : Option (List Char × List Char) :=
  result.map fun (chars, rest) ↦ (c :: chars, rest)

/-- The rest of a string after its opening quote. -/
def parseChars : List Char → Option (List Char × List Char)
  | [] => none
  | c :: text =>
    if c = quoteMark then some ([], text)
    else if c = backslash then
      match text with
      | [] => none
      | letter :: text =>
        if letter = 'u' then
          match text with
          | zero :: zero' :: high :: low :: text =>
            match hexValue zero, hexValue zero', hexValue high, hexValue low with
            | some 0, some 0, some high, some low => prepend (Char.ofNat (16 * high + low)) (parseChars text)
            | _, _, _, _ => none
          | _ => none
        else
          match unescape letter with
          | some c => prepend c (parseChars text)
          | none => none
    else if c.toNat < 32 then none
    else prepend c (parseChars text)

def parseString (text : List Char) : Option (String × List Char) :=
  match text with
  | [] => none
  | c :: text =>
    if c = quoteMark then (parseChars text).map fun (chars, rest) ↦ (String.ofList chars, rest) else none

def parseNumber (text : List Char) : ℕ × List Char :=
  (Nat.ofDigitChars 10 (text.takeWhile Char.isDigit) 0, text.dropWhile Char.isDigit)

def parseWord (text : List Char) : Option (Json × List Char) :=
  if text.take 4 = "null".toList then some (.null, text.drop 4)
  else if text.take 4 = "true".toList then some (.bool true, text.drop 4)
  else if text.take 5 = "false".toList then some (.bool false, text.drop 5)
  else none

mutual

def parseValue : ℕ → List Char → Option (Json × List Char)
  | 0, _ => none
  | _, [] => none
  | fuel + 1, c :: text =>
    if c = '[' then (parseValues fuel text).map fun (values, rest) ↦ (.array values, rest)
    else if c = openBrace then (parseFields fuel text).map fun (fields, rest) ↦ (.object fields, rest)
    else if c = quoteMark then (parseString (c :: text)).map fun (value, rest) ↦ (.string value, rest)
    else if c.isDigit then some (.number (parseNumber (c :: text)).1, (parseNumber (c :: text)).2)
    else parseWord (c :: text)

def parseValues : ℕ → List Char → Option (List Json × List Char)
  | 0, _ => none
  | fuel + 1, text =>
    if text.head? = some ']' then some ([], text.tail)
    else do
      let (value, text) ← parseValue fuel text
      let (values, text) ← parseMoreValues fuel text
      return (value :: values, text)

def parseMoreValues : ℕ → List Char → Option (List Json × List Char)
  | 0, _ => none
  | _, [] => none
  | fuel + 1, c :: text =>
    if c = ']' then some ([], text)
    else if c = ',' then do
      let (value, text) ← parseValue fuel text
      let (values, text) ← parseMoreValues fuel text
      return (value :: values, text)
    else none

def parseField : ℕ → List Char → Option ((String × Json) × List Char)
  | 0, _ => none
  | fuel + 1, text => do
    let (key, text) ← parseString text
    if text.head? = some ':' then
      let (value, text) ← parseValue fuel text.tail
      return ((key, value), text)
    else none

def parseFields : ℕ → List Char → Option (List (String × Json) × List Char)
  | 0, _ => none
  | fuel + 1, text =>
    if text.head? = some closeBrace then some ([], text.tail)
    else do
      let (field, text) ← parseField fuel text
      let (fields, text) ← parseMoreFields fuel text
      return (field :: fields, text)

def parseMoreFields : ℕ → List Char → Option (List (String × Json) × List Char)
  | 0, _ => none
  | _, [] => none
  | fuel + 1, c :: text =>
    if c = closeBrace then some ([], text)
    else if c = ',' then do
      let (field, text) ← parseField fuel text
      let (fields, text) ← parseMoreFields fuel text
      return (field :: fields, text)
    else none

end

/-- Every character of a text is read at two levels at most, so this fuel is enough. -/
def parse (text : List Char) : Option Json :=
  match parseValue (3 * text.length) text with
  | some (value, []) => some value
  | _ => none

/-! ## Reading back a printed value -/

theorem unescape_letter : ∀ entry ∈ letterEscapes, unescape entry.2 = some entry.1 ∧ entry.2 ≠ 'u' := by
  decide

theorem hexValue_digitChar : ∀ digit < 16, hexValue (Nat.digitChar digit) = some digit := by decide

theorem parseChars_escape (c : Char) (text : List Char) :
    parseChars (escape c ++ text) = prepend c (parseChars text) := by
  have hbackslash : backslash ≠ quoteMark := by decide
  unfold escape
  cases hletter : letterEscapes.find? fun entry ↦ entry.1 == c with
  | some entry =>
    obtain ⟨hunescape, hu⟩ := unescape_letter entry (List.mem_of_find?_eq_some hletter)
    have hc : entry.1 = c := by simpa using List.find?_some hletter
    simp only [List.cons_append, List.nil_append]
    rw [parseChars.eq_def]
    simp [hbackslash, hunescape, hu, hc]
  | none =>
    have hother : ∀ entry ∈ letterEscapes, entry.1 ≠ c := by simpa using List.find?_eq_none.1 hletter
    have hquote : c ≠ quoteMark := (hother (quoteMark, quoteMark) (by decide)).symm
    have hback : c ≠ backslash := (hother (backslash, backslash) (by decide)).symm
    by_cases hcontrol : c.toNat < 32
    · have hhigh := hexValue_digitChar (c.toNat / 16) (by omega)
      have hlow := hexValue_digitChar (c.toNat % 16) (by omega)
      have hzero : hexValue '0' = some 0 := by decide
      have hcode : 16 * (c.toNat / 16) + c.toNat % 16 = c.toNat := by omega
      simp only [hcontrol, if_true, List.cons_append, List.nil_append]
      rw [parseChars.eq_def]
      simp [hbackslash, hhigh, hlow, hzero, hcode]
    · simp only [hcontrol, if_false, List.cons_append, List.nil_append]
      rw [parseChars.eq_def]
      simp [hcontrol, hquote, hback]

theorem parseChars_flatMap (chars text : List Char) :
    parseChars (chars.flatMap escape ++ quoteMark :: text) = some (chars, text) := by
  induction chars with
  | nil =>
    rw [List.flatMap_nil, List.nil_append, parseChars.eq_def]
    simp
  | cons c rest ih =>
    rw [List.flatMap_cons, List.append_assoc, parseChars_escape, ih]
    rfl

theorem parseString_printString (s : String) (text : List Char) :
    parseString (printString s ++ text) = some (s, text) := by
  simp only [printString, List.cons_append, List.append_assoc, List.nil_append, parseString, if_true,
    parseChars_flatMap]
  simp

/-- A value is followed by something that is no digit. -/
def Separated (text : List Char) : Prop := ∀ c ∈ text.head?, c.isDigit = false

theorem takeWhile_append_of_separated {digits text : List Char}
    (hdigits : ∀ c ∈ digits, c.isDigit = true) (htext : Separated text) :
    (digits ++ text).takeWhile Char.isDigit = digits ∧ (digits ++ text).dropWhile Char.isDigit = text := by
  have htake : text.takeWhile Char.isDigit = [] ∧ text.dropWhile Char.isDigit = text := by
    cases text with
    | nil => exact ⟨rfl, rfl⟩
    | cons c rest =>
      have hc := htext c rfl
      simp [hc]
  constructor
  · rw [List.takeWhile_append_of_pos hdigits, htake.1, List.append_nil]
  · rw [List.dropWhile_append_of_pos hdigits, htake.2]

theorem isDigit_toDigits (n : ℕ) : ∀ c ∈ Nat.toDigits 10 n, c.isDigit = true := fun _ hc ↦
  Nat.isDigit_of_mem_toDigits (by decide) (by decide) hc

theorem parseNumber_toDigits (n : ℕ) {text : List Char} (htext : Separated text) :
    parseNumber (Nat.toDigits 10 n ++ text) = (n, text) := by
  obtain ⟨htake, hdrop⟩ := takeWhile_append_of_separated (isDigit_toDigits n) htext
  rw [parseNumber, htake, hdrop, Nat.ofDigitChars_ten_toDigits]

/-- A printed value starts neither like the end of a list nor with nothing. -/
theorem print_ne_closing (value : Json) (text : List Char) :
    (print value ++ text).head? ≠ some ']' ∧ print value ≠ [] := by
  cases value with
  | null => exact ⟨by simp [print], by simp [print]⟩
  | bool value =>
    cases value with
    | true => exact ⟨by simp [print], by simp [print]⟩
    | false => exact ⟨by simp [print], by simp [print]⟩
  | number n =>
    have hne : Nat.toDigits 10 n ≠ [] := Nat.toDigits_ne_nil
    refine ⟨?_, by simp [print, hne]⟩
    obtain ⟨digit, rest, hdigits⟩ := List.exists_cons_of_ne_nil hne
    have hdigit := isDigit_toDigits n digit (hdigits ▸ List.mem_cons_self)
    simp only [print, hdigits, List.cons_append, List.head?_cons, ne_eq, Option.some.injEq]
    rintro rfl
    revert hdigit
    decide
  | string s => exact ⟨by simp [print, printString, quoteMark], by simp [print, printString]⟩
  | array values => exact ⟨by simp [print], by simp [print]⟩
  | object fields => exact ⟨by simp [print, openBrace], by simp [print]⟩

theorem parseValue_number (n : ℕ) {fuel : ℕ} {text : List Char} (htext : Separated text) :
    parseValue (fuel + 1) (Nat.toDigits 10 n ++ text) = some (.number n, text) := by
  obtain ⟨digit, rest, hdigits⟩ := List.exists_cons_of_ne_nil (@Nat.toDigits_ne_nil n 10)
  have hdigit := isDigit_toDigits n digit (hdigits ▸ List.mem_cons_self)
  have hnumber := parseNumber_toDigits n htext
  have hbracket : digit ≠ '[' := by
    rintro rfl
    revert hdigit
    decide
  have hbrace : digit ≠ openBrace := by
    rintro rfl
    revert hdigit
    decide
  have hquote : digit ≠ quoteMark := by
    rintro rfl
    revert hdigit
    decide
  rw [hdigits, List.cons_append] at hnumber ⊢
  simp [parseValue, hbracket, hbrace, hquote, hdigit, hnumber]

theorem length_print_pos (value : Json) : 0 < (print value).length :=
  List.length_pos_iff.2 (print_ne_closing value []).2

/-- What follows a value in a list or an object. -/
theorem separated_cons {c : Char} {text : List Char} (h : c.isDigit = false) : Separated (c :: text) := by
  intro c' hc'
  rw [List.head?_cons, Option.mem_some_iff] at hc'
  exact hc' ▸ h

theorem separated_printMoreValues (values : List Json) (text : List Char) :
    Separated (printMoreValues values ++ text) := by
  cases values with
  | nil => exact separated_cons (by decide)
  | cons value rest => exact separated_cons (by decide)

theorem separated_printMoreFields (fields : List (String × Json)) (text : List Char) :
    Separated (printMoreFields fields ++ text) := by
  cases fields with
  | nil => exact separated_cons (by decide)
  | cons field rest => exact separated_cons (by decide)

theorem parseField_print {key : String} {value : Json} {fuel : ℕ} {text : List Char}
    (h : parseValue fuel (print value ++ text) = some (value, text)) :
    parseField (fuel + 1) (printString key ++ (':' :: (print value ++ text))) =
      some ((key, value), text) := by
  simp [parseField, parseString_printString, h]

-- The fuel covers the text: every recursive call that reads no character is paid by the bracket, comma
-- or quote before it.
mutual

theorem parseValue_print (value : Json) {fuel : ℕ} {text : List Char}
    (hfuel : 3 * (print value).length ≤ fuel) (htext : Separated text) :
    parseValue fuel (print value ++ text) = some (value, text) := by
  obtain ⟨fuel, rfl⟩ : ∃ rest, fuel = rest + 1 := by
    have hpos := length_print_pos value
    exact ⟨fuel - 1, by omega⟩
  match value with
  | .null => simp [print, parseValue, parseWord, openBrace, quoteMark]
  | .bool true => simp [print, parseValue, parseWord, openBrace, quoteMark]
  | .bool false => simp [print, parseValue, parseWord, openBrace, quoteMark]
  | .number n => exact parseValue_number n htext
  | .string s =>
    have hstring := parseString_printString s text
    have hbracket : quoteMark ≠ '[' := by decide
    have hbrace : quoteMark ≠ openBrace := by decide
    simp only [print, printString, List.cons_append] at hstring ⊢
    simp only [parseValue, if_neg hbracket, if_neg hbrace, if_true, hstring, Option.map_some]
  | .array values =>
    simp only [print, List.length_cons] at hfuel
    have hvalues := @parseValues_print values fuel text (by omega)
    simp [print, parseValue, hvalues]
  | .object fields =>
    simp only [print, List.length_cons] at hfuel
    have hfields := @parseFields_print fields fuel text (by omega)
    have hbrace : openBrace ≠ '[' := by decide
    simp [print, parseValue, hfields, hbrace]

theorem parseValues_print (values : List Json) {fuel : ℕ} {text : List Char}
    (hfuel : 3 * (printValues values).length + 2 ≤ fuel) :
    parseValues fuel (printValues values ++ text) = some (values, text) := by
  obtain ⟨fuel, rfl⟩ : ∃ rest, fuel = rest + 1 := ⟨fuel - 1, by omega⟩
  match values with
  | [] => simp [printValues, parseValues]
  | value :: rest =>
    simp only [printValues, List.length_append] at hfuel
    have hvalue := @parseValue_print value fuel _ (by omega) (separated_printMoreValues rest text)
    have hrest := @parseMoreValues_print rest fuel text (by omega)
    have hhead := (print_ne_closing value (printMoreValues rest ++ text)).1
    rw [printValues, List.append_assoc, parseValues, if_neg hhead]
    simp [hvalue, hrest]

theorem parseMoreValues_print (values : List Json) {fuel : ℕ} {text : List Char}
    (hfuel : 3 * (printMoreValues values).length ≤ fuel) :
    parseMoreValues fuel (printMoreValues values ++ text) = some (values, text) := by
  match values with
  | [] =>
    simp only [printMoreValues, List.length_cons] at hfuel
    obtain ⟨fuel, rfl⟩ : ∃ rest, fuel = rest + 1 := ⟨fuel - 1, by omega⟩
    simp [printMoreValues, parseMoreValues]
  | value :: rest =>
    simp only [printMoreValues, List.length_cons, List.length_append] at hfuel
    obtain ⟨fuel, rfl⟩ : ∃ rest, fuel = rest + 1 := ⟨fuel - 1, by omega⟩
    have hvalue := @parseValue_print value fuel _ (by omega) (separated_printMoreValues rest text)
    have hrest := @parseMoreValues_print rest fuel text (by omega)
    simp [printMoreValues, parseMoreValues, hvalue, hrest]

theorem parseFields_print (fields : List (String × Json)) {fuel : ℕ} {text : List Char}
    (hfuel : 3 * (printFields fields).length + 2 ≤ fuel) :
    parseFields fuel (printFields fields ++ text) = some (fields, text) := by
  obtain ⟨fuel, rfl⟩ : ∃ rest, fuel = rest + 2 := ⟨fuel - 2, by omega⟩
  match fields with
  | [] => simp [printFields, parseFields]
  | (key, value) :: rest =>
    simp only [printFields, List.length_append, List.length_cons] at hfuel
    have hvalue := @parseValue_print value fuel _ (by omega) (separated_printMoreFields rest text)
    have hfield := @parseField_print key value fuel _ hvalue
    have hrest := @parseMoreFields_print rest (fuel + 1) text (by omega)
    have hhead : quoteMark ≠ closeBrace := by decide
    simp only [printFields, List.append_assoc, List.cons_append, parseFields]
    rw [if_neg (by simp [printString, hhead])]
    simp [hfield, hrest]

theorem parseMoreFields_print (fields : List (String × Json)) {fuel : ℕ} {text : List Char}
    (hfuel : 3 * (printMoreFields fields).length ≤ fuel) :
    parseMoreFields fuel (printMoreFields fields ++ text) = some (fields, text) := by
  match fields with
  | [] =>
    simp only [printMoreFields, List.length_cons] at hfuel
    obtain ⟨fuel, rfl⟩ : ∃ rest, fuel = rest + 1 := ⟨fuel - 1, by omega⟩
    simp [printMoreFields, parseMoreFields]
  | (key, value) :: rest =>
    simp only [printMoreFields, List.length_cons, List.length_append] at hfuel
    obtain ⟨fuel, rfl⟩ : ∃ rest, fuel = rest + 2 := ⟨fuel - 2, by omega⟩
    have hvalue := @parseValue_print value fuel _ (by omega) (separated_printMoreFields rest text)
    have hfield := @parseField_print key value fuel _ hvalue
    have hrest := @parseMoreFields_print rest (fuel + 1) text (by omega)
    have hcomma : closeBrace ≠ ',' := by decide
    simp [printMoreFields, parseMoreFields, hfield, hrest, hcomma.symm]

end

/-- A printed value is read back. -/
theorem parse_print (value : Json) : parse (print value) = some value := by
  have hvalue := @parseValue_print value (3 * (print value).length) [] (Nat.le_refl _) (by rintro c ⟨⟩)
  rw [List.append_nil] at hvalue
  rw [parse, hvalue]

/-! ## Parts of a value have shorter texts -/

theorem length_print_lt_printMoreValues {value : Json} {values : List Json} (h : value ∈ values) :
    (print value).length < (printMoreValues values).length := by
  induction values with
  | nil => cases h
  | cons other rest ih =>
    simp only [printMoreValues, List.length_cons, List.length_append]
    rcases List.mem_cons.1 h with rfl | hmem
    · omega
    · have hrest := ih hmem
      omega

theorem length_print_lt_array {value : Json} {values : List Json} (h : value ∈ values) :
    (print value).length < (print (.array values)).length := by
  cases values with
  | nil => cases h
  | cons other rest =>
    simp only [print, printValues, List.length_cons, List.length_append]
    rcases List.mem_cons.1 h with rfl | hmem
    · omega
    · have hrest := length_print_lt_printMoreValues hmem
      omega

theorem length_print_lt_printMoreFields {key : String} {value : Json} {fields : List (String × Json)}
    (h : (key, value) ∈ fields) : (print value).length < (printMoreFields fields).length := by
  induction fields with
  | nil => cases h
  | cons other rest ih =>
    simp only [printMoreFields, List.length_cons, List.length_append]
    rcases List.mem_cons.1 h with rfl | hmem
    · simp only
      omega
    · have hrest := ih hmem
      omega

theorem length_print_lt_object {key : String} {value : Json} {fields : List (String × Json)}
    (h : (key, value) ∈ fields) : (print value).length < (print (.object fields)).length := by
  cases fields with
  | nil => cases h
  | cons other rest =>
    simp only [print, printFields, List.length_cons, List.length_append]
    rcases List.mem_cons.1 h with rfl | hmem
    · simp only
      omega
    · have hrest := length_print_lt_printMoreFields hmem
      omega

theorem length_print_lt_of_field {fields : List (String × Json)} {bound : ℕ}
    (h : (print (.object fields)).length ≤ bound) (key : String) {value : Json}
    (hmem : (key, value) ∈ fields) : (print value).length < bound :=
  Nat.lt_of_lt_of_le (length_print_lt_object hmem) h

theorem length_print_lt_of_mem {values : List Json} {bound : ℕ}
    (h : (print (.array values)).length ≤ bound) {value : Json} (hmem : value ∈ values) :
    (print value).length < bound :=
  Nat.lt_of_lt_of_le (length_print_lt_array hmem) h

/-! ## Encodings of text -/

/-- A way to write JSON values as bytes and to read them. -/
structure Text where
  print : Json → Bytes
  parse : Bytes → Option Json

/-- Every value is read back, and no value is empty. -/
structure Text.RoundTrips (text : Text) : Prop where
  parse_print : ∀ value, text.parse (text.print value) = some value
  parse_nil : text.parse [] = none

theorem Text.RoundTrips.print_ne_nil {text : Text} (h : text.RoundTrips) (value : Json) :
    text.print value ≠ [] := by
  intro hnil
  have hvalue := h.parse_print value
  rw [hnil, h.parse_nil] at hvalue
  cases hvalue

/-- The compact text in UTF-8. -/
def Text.compact : Text where
  print value := Word.asBytes (String.ofList value.print)
  parse bytes := (String.fromUTF8? ⟨bytes.toArray⟩).bind fun s ↦ Json.parse s.toList

theorem fromUTF8_asBytes (s : String) : String.fromUTF8? ⟨(Word.asBytes s).toArray⟩ = some s := by
  have harray : (⟨(Word.asBytes s).toArray⟩ : ByteArray) = s.toByteArray := rfl
  rw [harray, String.fromUTF8?, dif_pos s.isValidUTF8]
  rfl

theorem Text.compact_roundTrips : Text.compact.RoundTrips where
  parse_print value := by
    simp only [Text.compact, fromUTF8_asBytes, Option.bind_some, String.toList_ofList]
    exact Json.parse_print value
  parse_nil := by
    have hempty := fromUTF8_asBytes ""
    have hnil : Word.asBytes "" = [] := rfl
    rw [hnil] at hempty
    simp only [Text.compact, hempty, Option.bind_some]
    rfl

/-! ## Values that are changed by key

Objects are maps that are sorted by key here, as the values of a document are when they are to be changed.
-/

/-- Set an entry of a sorted map. -/
def setField (key : String) (value : Json) : List (String × Json) → List (String × Json)
  | [] => [(key, value)]
  | field :: rest =>
    if field.1 = key then (key, value) :: rest
    else if key < field.1 then (key, value) :: field :: rest
    else field :: setField key value rest

mutual

/-- The value with sorted maps. Of several entries with one key the last one stays. -/
def sorted : Json → Json
  | .array values => .array (sortedValues values)
  | .object fields => .object (sortedFields fields [])
  | value => value

def sortedValues : List Json → List Json
  | [] => []
  | value :: rest => value.sorted :: sortedValues rest

def sortedFields : List (String × Json) → List (String × Json) → List (String × Json)
  | [], map => map
  | (key, value) :: rest, map => sortedFields rest (setField key value.sorted map)

end

/-- The entry of a key, `null` when there is none. -/
def get (value : Json) (key : String) : Json :=
  match value with
  | .object fields => ((fields.find? fun field ↦ field.1 == key).map Prod.snd).getD .null
  | _ => .null

/-- Change the entry of a key. Here `null` is an empty object; other values have no entries. -/
def modify (value : Json) (key : String) (change : Json → Option Json) : Option Json :=
  match value with
  | .null => (change .null).map fun entry ↦ .object [(key, entry)]
  | .object fields => (change (value.get key)).map fun entry ↦ .object (setField key entry fields)
  | _ => none

/-! ## Records and tagged unions -/

/-- The values of a record with the given keys: an object in which each of them occurs once, whatever
else it has, or an array with as many entries. -/
def record (keys : List String) : Json → Option (List Json)
  | .object fields => keys.mapM fun key ↦
      match fields.filter fun field ↦ field.1 == key with
      | [(_, value)] => some value
      | _ => none
  | .array values => if values.length = keys.length then some values else none
  | _ => none

/-- The tag of a union and what it carries. -/
def tagged : Json → Option (String × Option Json)
  | .string tag => some (tag, none)
  | .object [(tag, value)] => some (tag, some value)
  | _ => none

def ofBytes (bytes : Bytes) : Json := .array (bytes.map fun byte ↦ .number byte.toNat)

def ofUInt64 (word : UInt64) : Json := .number word.toNat

def asUInt64 : Json → Option UInt64
  | .number n => if n < 2 ^ 64 then some (UInt64.ofNat n) else none
  | _ => none

def asUInt8 : Json → Option UInt8
  | .number n => if n < 2 ^ 8 then some (UInt8.ofNat n) else none
  | _ => none

def asString : Json → Option String
  | .string s => some s
  | _ => none

def asList : Json → Option (List Json)
  | .array values => some values
  | _ => none

def asByteString (value : Json) : Option Bytes := value.asList.bind fun values ↦ values.mapM asUInt8

@[simp] theorem asUInt64_ofUInt64 (word : UInt64) : (ofUInt64 word).asUInt64 = some word := by
  have hlt := word.toNat_lt
  simp [ofUInt64, asUInt64, hlt]

@[simp] theorem asUInt8_number (byte : UInt8) : (Json.number byte.toNat).asUInt8 = some byte := by
  have hlt := byte.toNat_lt
  simp [asUInt8, hlt]

@[simp] theorem asString_string (s : String) : (Json.string s).asString = some s := rfl

@[simp] theorem asList_array (values : List Json) : (Json.array values).asList = some values := rfl

/-- A list of values that are read back one by one is read back. -/
theorem mapM_map_of_forall {α : Type} {values : List α} {toJson : α → Json} {ofJson : Json → Option α}
    (h : ∀ value ∈ values, ofJson (toJson value) = some value) :
    (values.map toJson).mapM ofJson = some values := by
  induction values with
  | nil => rfl
  | cons value rest ih =>
    have hvalue := h value List.mem_cons_self
    have hrest := ih fun other hother ↦ h other (List.mem_cons_of_mem _ hother)
    rw [List.map_cons, List.mapM_cons, hvalue, hrest]
    rfl

@[simp] theorem asByteString_ofBytes (bytes : Bytes) : (ofBytes bytes).asByteString = some bytes :=
  mapM_map_of_forall fun byte _ ↦ asUInt8_number byte

end Json

end BFTDiagnosis
