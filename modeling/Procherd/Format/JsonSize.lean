-- SUMMARY: How many bytes the indented text of a JSON value takes, from the sizes of its parts.
import Procherd.Format.Json

/-!
# The size of a JSON text

A string is as long as its characters are after escaping: a control character
without an escape of its own takes six bytes. Every item of a list and every field
of an object starts a line.
-/

namespace Json

/-! ## Sizes -/

def escapedSize (c : Char) : Nat := (utf8 (escapeChar c)).length

def quotedSize (s : List Char) : Nat := (s.map escapedSize).sum + 2

/-- A line break and the indentation of the next line. -/
def breakSize (depth : Nat) : Nat := 1 + 2 * depth

mutual
def size (depth : Nat) : Json → Nat
  | .null => 4
  | .bool true => 4
  | .bool false => 5
  | .num n => (number n).length
  | .str s => quotedSize s.toList
  | .arr [] => 2
  | .arr items => 2 + sizeItems (depth + 1) items + breakSize depth
  | .obj [] => 2
  | .obj fields => 2 + sizeFields (depth + 1) fields + breakSize depth

def sizeItems (depth : Nat) : List Json → Nat
  | [] => 0
  | [j] => breakSize depth + size depth j
  | j :: js => breakSize depth + size depth j + 1 + sizeItems depth js

def sizeFields (depth : Nat) : List (String × Json) → Nat
  | [] => 0
  | [(k, j)] => breakSize depth + quotedSize k.toList + 2 + size depth j
  | (k, j) :: fs =>
    breakSize depth + quotedSize k.toList + 2 + size depth j + 1 + sizeFields depth fs
end

/-! ## The texts have these sizes -/

theorem length_utf8_cons (c : Char) (text : List Char) :
    (utf8 (c :: text)).length = (String.utf8EncodeChar c).length + (utf8 text).length := by
  rw [utf8, List.flatMap_cons, List.length_append]
  rfl

theorem length_utf8_append (s t : List Char) :
    (utf8 (s ++ t)).length = (utf8 s).length + (utf8 t).length := by
  rw [utf8_append, List.length_append]

theorem length_utf8_ascii {text : List Char} (h : ∀ c ∈ text, c.toNat < 128) :
    (utf8 text).length = text.length := by
  rw [utf8_ascii h, List.length_map]

theorem length_utf8_quote (s : List Char) : (utf8 (quote s)).length = quotedSize s := by
  have hbody : (utf8 (s.flatMap escapeChar)).length = (s.map escapedSize).sum := by
    induction s with
    | nil => rfl
    | cons c s ih =>
      rw [List.flatMap_cons, length_utf8_append, ih, List.map_cons, List.sum_cons]
      rfl
  have hopen : (String.utf8EncodeChar '"').length = 1 := by decide
  have hclose : (utf8 ['"']).length = 1 := by decide
  rw [quote, List.cons_append, length_utf8_cons, length_utf8_append, hbody, hopen, hclose,
    quotedSize]
  omega

theorem length_utf8_number (n : Int) : (utf8 (number n)).length = (number n).length := by
  refine length_utf8_ascii fun c hc => ?_
  have hdigit {m : Nat} (hc : c ∈ Nat.toDigits 10 m) : c.toNat < 128 :=
    (printable_number m c hc).2
  cases n with
  | ofNat n => exact hdigit hc
  | negSucc n =>
    rcases List.mem_cons.mp hc with rfl | hc
    · decide
    · exact hdigit hc

theorem length_utf8_newline (depth : Nat) : (utf8 (newline depth)).length = breakSize depth := by
  have hascii : ∀ c ∈ newline depth, c.toNat < 128 := by
    intro c hc
    rcases List.mem_cons.mp hc with rfl | hc
    · decide
    · rw [List.eq_of_mem_replicate hc]
      decide
  rw [length_utf8_ascii hascii, newline, List.length_cons, List.length_replicate, breakSize]
  omega

mutual
theorem length_utf8_pretty (depth : Nat) : ∀ j : Json, (utf8 (pretty depth j)).length = size depth j
  | .null => by rw [pretty, size]; decide
  | .bool true => by rw [pretty, size]; decide
  | .bool false => by rw [pretty, size]; decide
  | .num n => by rw [pretty, size, length_utf8_number]
  | .str s => by rw [pretty, size, length_utf8_quote]
  | .arr [] => by rw [pretty, size]; decide
  | .arr (item :: items) => by
    have hends : (String.utf8EncodeChar '[').length = 1 ∧ (utf8 [']']).length = 1 := by decide
    rw [pretty, size, List.append_assoc, List.cons_append, length_utf8_cons, length_utf8_append,
      length_utf8_append, length_utf8_items, length_utf8_newline, hends.1, hends.2]
    · omega
    · exact List.cons_ne_nil _ _
    · exact List.cons_ne_nil _ _
  | .obj [] => by rw [pretty, size]; decide
  | .obj (field :: fields) => by
    have hends : (String.utf8EncodeChar '\x7b').length = 1 ∧ (utf8 ['\x7d']).length = 1 := by decide
    rw [pretty, size, List.append_assoc, List.cons_append, length_utf8_cons, length_utf8_append,
      length_utf8_append, length_utf8_fields, length_utf8_newline, hends.1, hends.2]
    · omega
    · exact List.cons_ne_nil _ _
    · exact List.cons_ne_nil _ _

theorem length_utf8_items (depth : Nat) :
    ∀ items : List Json, (utf8 (prettyItems depth items)).length = sizeItems depth items
  | [] => by rw [prettyItems, sizeItems]; rfl
  | [j] => by
    rw [prettyItems, sizeItems, length_utf8_append, length_utf8_newline, length_utf8_pretty]
  | j :: next :: items => by
    have hcomma : (String.utf8EncodeChar ',').length = 1 := by decide
    rw [prettyItems, sizeItems, length_utf8_append, length_utf8_append, length_utf8_cons,
      length_utf8_newline, length_utf8_pretty, length_utf8_items, hcomma]
    · omega
    · exact List.cons_ne_nil _ _
    · exact List.cons_ne_nil _ _

theorem length_utf8_fields (depth : Nat) :
    ∀ fields : List (String × Json),
      (utf8 (prettyFields depth fields)).length = sizeFields depth fields
  | [] => by rw [prettyFields, sizeFields]; rfl
  | [(k, j)] => by
    have hcolon : (String.utf8EncodeChar ':').length = 1 ∧ (String.utf8EncodeChar ' ').length = 1 := by
      decide
    rw [prettyFields, sizeFields, length_utf8_append, length_utf8_append, length_utf8_cons,
      length_utf8_cons, length_utf8_newline, length_utf8_quote, length_utf8_pretty, hcolon.1,
      hcolon.2]
    omega
  | (k, j) :: next :: fields => by
    have hmarks : (String.utf8EncodeChar ':').length = 1 ∧ (String.utf8EncodeChar ' ').length = 1 ∧
        (String.utf8EncodeChar ',').length = 1 := by decide
    rw [prettyFields, sizeFields, length_utf8_append, length_utf8_append, length_utf8_append,
      length_utf8_cons, length_utf8_cons, length_utf8_cons, length_utf8_newline, length_utf8_quote,
      length_utf8_pretty, length_utf8_fields, hmarks.1, hmarks.2.1, hmarks.2.2]
    · omega
    · exact List.cons_ne_nil _ _
    · exact List.cons_ne_nil _ _
end

/-! ## Parts of a value -/

theorem size_le_of_field {depth : Nat} {key : String} {j : Json} {fields : List (String × Json)}
    (h : (key, j) ∈ fields) : size (depth + 1) j ≤ size depth (.obj fields) := by
  have hfields : size (depth + 1) j ≤ sizeFields (depth + 1) fields := by
    induction fields with
    | nil => exact absurd h List.not_mem_nil
    | cons field fields ih =>
      obtain ⟨key', j'⟩ := field
      cases fields with
      | nil =>
        obtain ⟨rfl, rfl⟩ := Prod.mk.inj (List.mem_singleton.mp h)
        rw [sizeFields]
        omega
      | cons next fields =>
        rw [sizeFields]
        · rcases List.mem_cons.mp h with heq | h
          · obtain ⟨rfl, rfl⟩ := Prod.mk.inj heq
            omega
          · have hle := ih h
            omega
        · exact List.cons_ne_nil _ _
  cases fields with
  | nil => exact absurd h List.not_mem_nil
  | cons field fields =>
    rw [size]
    · omega
    · exact List.cons_ne_nil _ _

theorem size_le_of_items {depth : Nat} (items : List Json) :
    (items.map (size (depth + 1))).sum ≤ size depth (.arr items) := by
  have hitems : ∀ items : List Json,
      (items.map (size (depth + 1))).sum ≤ sizeItems (depth + 1) items := by
    intro items
    induction items with
    | nil => exact Nat.zero_le _
    | cons item items ih =>
      cases items with
      | nil =>
        rw [List.map_singleton, List.sum_singleton, sizeItems]
        omega
      | cons next items =>
        rw [List.map_cons, List.sum_cons, sizeItems]
        · omega
        · exact List.cons_ne_nil _ _
  cases items with
  | nil => exact Nat.zero_le _
  | cons item items =>
    rw [size]
    · have hle := hitems (item :: items)
      omega
    · exact List.cons_ne_nil _ _

end Json
