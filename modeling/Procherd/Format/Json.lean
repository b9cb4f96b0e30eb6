-- SUMMARY: JSON values, their compact and indented texts, and the bytes of a text.
import Mathlib.Data.Nat.Digits.Lemmas

/-!
# JSON texts

`Json.compact` writes a value on one line, `Json.pretty` indents it by two
spaces a level. Text is a list of characters; `utf8` turns it into bytes.
-/

inductive Json where
  | null
  | bool (b : Bool)
  | num (n : Int)
  | str (s : String)
  | arr (items : List Json)
  | obj (fields : List (String × Json))

namespace Json

/-! ## UTF-8 -/

def utf8 (text : List Char) : List UInt8 := text.flatMap String.utf8EncodeChar

@[simp] theorem utf8_nil : utf8 [] = [] := rfl

theorem utf8_append (s t : List Char) : utf8 (s ++ t) = utf8 s ++ utf8 t :=
  List.flatMap_append

/-- Characters that a JSON string shows as they are and UTF-8 writes as one
    byte. -/
def plain (c : Char) : Bool :=
  decide (32 ≤ c.toNat) && decide (c.toNat < 128) && c != '"' && c != '\\'

theorem utf8EncodeChar_of_lt {c : Char} (h : c.toNat < 128) :
    String.utf8EncodeChar c = [UInt8.ofNat c.toNat] := by
  have h' : c.val.toNat ≤ 0x7f := by change c.val.toNat < 128 at h; omega
  simp only [String.utf8EncodeChar, h', if_true]
  rfl

/-- On ASCII text, UTF-8 is one byte a character. -/
theorem utf8_ascii {text : List Char} (h : ∀ c ∈ text, c.toNat < 128) :
    utf8 text = text.map (fun c => UInt8.ofNat c.toNat) := by
  induction text with
  | nil => rfl
  | cons c text ih =>
    have ⟨hc, htext⟩ := List.forall_mem_cons.mp h
    simp only [utf8, List.flatMap_cons, List.map_cons, utf8EncodeChar_of_lt hc]
    exact congrArg (_ :: ·) (ih htext)

/-- The text of bytes. The first case is a shortcut for ASCII. -/
def fromUtf8 (bytes : List UInt8) : Option (List Char) :=
  if bytes.all (· < 128) then some (bytes.map fun b => .ofNat b.toNat)
  else (ByteArray.utf8Decode? ⟨bytes.toArray⟩).map Array.toList

/-- Every character that is not ASCII has a first byte above 128. -/
theorem lt_of_utf8EncodeChar {c : Char} (h : ∀ b ∈ String.utf8EncodeChar c, b < 128) :
    c.toNat < 128 := by
  by_contra hc
  have hc' : ¬ c.val.toNat ≤ 0x7f := by change ¬ c.val.toNat < 128 at hc; omega
  simp only [String.utf8EncodeChar, hc', if_false] at h
  repeat' split at h
  all_goals
    have hb := (List.forall_mem_cons.mp h).1
    simp only [UInt8.lt_iff_toNat_lt, UInt8.toNat_ofNat', UInt8.reduceToNat] at hb
    omega

theorem fromUtf8_utf8 (text : List Char) : fromUtf8 (utf8 text) = some text := by
  unfold fromUtf8
  split
  · rename_i h
    have hb : ∀ b ∈ utf8 text, b < 128 := by simpa using h
    have hc : ∀ c ∈ text, c.toNat < 128 := fun c hc =>
      lt_of_utf8EncodeChar fun b hbc => hb b (List.mem_flatMap.mpr ⟨c, hc, hbc⟩)
    rw [utf8_ascii hc, List.map_map]
    refine congrArg some ((List.map_congr_left fun c h => ?_).trans (List.map_id text))
    simp only [Function.comp_apply, UInt8.toNat_ofNat', id]
    rw [Nat.mod_eq_of_lt (by have := hc c h; omega), Char.ofNat_toNat]
  · have hbytes : (⟨(utf8 text).toArray⟩ : ByteArray) = text.utf8Encode := by
      ext1
      simp [List.utf8Encode, utf8, List.data_toByteArray]
    rw [hbytes, List.utf8Decode?_utf8Encode]
    rfl

/-! ## Strings and numbers -/

def hexDigit (n : Nat) : Char := Nat.digitChar (n % 16)

/-- The text of one character inside a string. -/
def escapeChar (c : Char) : List Char :=
  if c = '"' then ['\\', '"']
  else if c = '\\' then ['\\', '\\']
  else if c.toNat = 8 then ['\\', 'b']
  else if c.toNat = 9 then ['\\', 't']
  else if c.toNat = 10 then ['\\', 'n']
  else if c.toNat = 12 then ['\\', 'f']
  else if c.toNat = 13 then ['\\', 'r']
  else if c.toNat < 32 then
    ['\\', 'u', '0', '0', hexDigit (c.toNat / 16), hexDigit c.toNat]
  else [c]

theorem escapeChar_plain {c : Char} (h : plain c) : escapeChar c = [c] := by
  simp only [plain, Bool.and_eq_true, decide_eq_true_eq, bne_iff_ne] at h
  obtain ⟨⟨⟨hlo, -⟩, hquote⟩, hslash⟩ := h
  have h8 : c.toNat ≠ 8 := by omega
  have h9 : c.toNat ≠ 9 := by omega
  have h10 : c.toNat ≠ 10 := by omega
  have h12 : c.toNat ≠ 12 := by omega
  have h13 : c.toNat ≠ 13 := by omega
  have h32 : ¬ c.toNat < 32 := by omega
  simp only [escapeChar, hquote, hslash, h8, h9, h10, h12, h13, h32, if_false]

def quote (s : List Char) : List Char := '"' :: s.flatMap escapeChar ++ ['"']

theorem quote_plain {s : List Char} (h : ∀ c ∈ s, plain c) : quote s = '"' :: s ++ ['"'] := by
  have hs : s.flatMap escapeChar = s := by
    induction s with
    | nil => rfl
    | cons c s ih =>
      have ⟨hc, hrest⟩ := List.forall_mem_cons.mp h
      simp only [List.flatMap_cons, escapeChar_plain hc, ih hrest, List.singleton_append]
  rw [quote, hs]

def number : Int → List Char
  | .ofNat n => Nat.toDigits 10 n
  | .negSucc n => '-' :: Nat.toDigits 10 (n + 1)

/-! ## Compact text -/

mutual
def compact : Json → List Char
  | .null => ['n', 'u', 'l', 'l']
  | .bool true => ['t', 'r', 'u', 'e']
  | .bool false => ['f', 'a', 'l', 's', 'e']
  | .num n => number n
  | .str s => quote s.toList
  | .arr items => '[' :: compactItems items ++ [']']
  | .obj fields => '\x7b' :: compactFields fields ++ ['\x7d']

def compactItems : List Json → List Char
  | [] => []
  | [j] => compact j
  | j :: js => compact j ++ ',' :: compactItems js

def compactFields : List (String × Json) → List Char
  | [] => []
  | [(k, j)] => quote k.toList ++ ':' :: compact j
  | (k, j) :: fs => quote k.toList ++ ':' :: compact j ++ ',' :: compactFields fs
end

/-! ## ASCII texts

A value whose strings are plain is written in printable ASCII characters, so
that its compact text has no line break. -/

def Printable (text : List Char) : Prop := ∀ c ∈ text, 32 ≤ c.toNat ∧ c.toNat < 128

theorem printable_append {s t : List Char} (hs : Printable s) (ht : Printable t) :
    Printable (s ++ t) := by
  intro c hc
  rcases List.mem_append.mp hc with h | h
  · exact hs c h
  · exact ht c h

theorem printable_cons {c : Char} {s : List Char} (hc : 32 ≤ c.toNat ∧ c.toNat < 128)
    (hs : Printable s) : Printable (c :: s) :=
  List.forall_mem_cons.mpr ⟨hc, hs⟩

theorem printable_quote {s : List Char} (h : ∀ c ∈ s, plain c) : Printable (quote s) := by
  rw [quote_plain h]
  refine printable_cons (by decide) (printable_append ?_ (printable_cons (by decide) nofun))
  intro c hc
  have hp := h c hc
  simp only [plain, Bool.and_eq_true, decide_eq_true_eq] at hp
  exact hp.1.1

theorem printable_number (n : Nat) : Printable (number n) := by
  intro c hc
  have hd := Nat.isDigit_of_mem_toDigits (by decide) (by decide) hc
  simp only [Char.isDigit, Bool.and_eq_true, decide_eq_true_eq, ge_iff_le, UInt32.le_iff_toNat_le]
    at hd
  change 48 ≤ c.toNat ∧ c.toNat ≤ 57 at hd
  omega

theorem printable_compactFields {fields : List (String × Json)}
    (h : ∀ field ∈ fields, (∀ c ∈ field.1.toList, plain c) ∧ Printable (compact field.2)) :
    Printable (compactFields fields) := by
  induction fields with
  | nil => exact fun _ hc => nomatch hc
  | cons field fields ih =>
    have ⟨hfield, hrest⟩ := List.forall_mem_cons.mp h
    have hhead : Printable (quote field.1.toList ++ ':' :: compact field.2) :=
      printable_append (printable_quote hfield.1) (printable_cons (by decide) hfield.2)
    cases fields with
    | nil => exact hhead
    | cons next fields =>
      exact printable_append hhead (printable_cons (by decide) (ih hrest))

theorem length_number_le {n digits : Nat} (hd : 0 < digits) (h : n < 10 ^ digits) :
    (number n).length ≤ digits :=
  (Nat.length_toDigits_le_iff (by decide) hd).mpr h

/-! ## Indented text -/

def newline (depth : Nat) : List Char := '\n' :: List.replicate (2 * depth) ' '

mutual
def pretty (depth : Nat) : Json → List Char
  | .null => ['n', 'u', 'l', 'l']
  | .bool true => ['t', 'r', 'u', 'e']
  | .bool false => ['f', 'a', 'l', 's', 'e']
  | .num n => number n
  | .str s => quote s.toList
  | .arr [] => ['[', ']']
  | .arr items => '[' :: prettyItems (depth + 1) items ++ newline depth ++ [']']
  | .obj [] => ['\x7b', '\x7d']
  | .obj fields => '\x7b' :: prettyFields (depth + 1) fields ++ newline depth ++ ['\x7d']

def prettyItems (depth : Nat) : List Json → List Char
  | [] => []
  | [j] => newline depth ++ pretty depth j
  | j :: js => newline depth ++ pretty depth j ++ ',' :: prettyItems depth js

def prettyFields (depth : Nat) : List (String × Json) → List Char
  | [] => []
  | [(k, j)] => newline depth ++ quote k.toList ++ ':' :: ' ' :: pretty depth j
  | (k, j) :: fs =>
    newline depth ++ quote k.toList ++ ':' :: ' ' :: pretty depth j ++ ',' ::
      prettyFields depth fs
end

end Json
