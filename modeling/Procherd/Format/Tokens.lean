-- SUMMARY: Reading JSON texts of flat objects: a lexer, and the round trip with the compact and the indented text.
import Procherd.Format.Json

/-!
# Reading flat objects

A flat object has only strings and natural numbers as members. `flatObject`
reads its members from the tokens of a text, whatever the white space between
them is, so that the compact and the indented text read back alike.
-/

namespace Json

inductive Scalar where
  | str (s : String)
  | num (n : Nat)
deriving DecidableEq

def Scalar.toJson : Scalar → Json
  | .str s => .str s
  | .num n => .num n

inductive Token where
  | punct (c : Char)
  | scalar (value : Scalar)
deriving DecidableEq

/-! ## The lexer -/

def isSpace (c : Char) : Bool := c = ' ' || c = '\n' || c = '\t' || c = '\r'

def isPunct (c : Char) : Bool := c = '\x7b' || c = '\x7d' || c = ':' || c = ','

def hexValue (c : Char) : Option Nat :=
  if c.isDigit then some (c.toNat - 48)
  else if 'a' ≤ c ∧ c ≤ 'f' then some (c.toNat - 87)
  else if 'A' ≤ c ∧ c ≤ 'F' then some (c.toNat - 55)
  else none

/-- The character of an escape of two characters. -/
def unescape (c : Char) : Option Char :=
  if c = '"' ∨ c = '\\' ∨ c = '/' then some c
  else if c = 'b' then some (.ofNat 8)
  else if c = 't' then some '\t'
  else if c = 'n' then some '\n'
  else if c = 'f' then some (.ofNat 12)
  else if c = 'r' then some '\r'
  else none

/-- Where the lexer is: between tokens, in a number, or in a string whose
    characters so far are in `text`, the last first. -/
inductive LexState where
  | between
  | digits (n : Nat)
  | chars (text : List Char)
  | escaped (text : List Char)
  | hex (left value : Nat) (text : List Char)

def lex : LexState → List Char → Option (List Token)
  | .between, [] => some []
  | .between, c :: rest =>
    if isSpace c then lex .between rest
    else if c = '"' then lex (.chars []) rest
    else if c.isDigit then lex (.digits (c.toNat - 48)) rest
    else if isPunct c then (lex .between rest).map (.punct c :: ·)
    else none
  | .digits n, [] => some [.scalar (.num n)]
  | .digits n, c :: rest =>
    -- A number of more than one digit does not begin with zero.
    if c.isDigit then if n = 0 then none else lex (.digits (10 * n + (c.toNat - 48))) rest
    else if isSpace c then (lex .between rest).map (.scalar (.num n) :: ·)
    else if isPunct c then (lex .between rest).map fun ts => .scalar (.num n) :: .punct c :: ts
    else none
  | .chars text, c :: rest =>
    if c = '"' then
      (lex .between rest).map (.scalar (.str (String.ofList text.reverse)) :: ·)
    else if c = '\\' then lex (.escaped text) rest
    else if c.toNat < 32 then none
    else lex (.chars (c :: text)) rest
  | .escaped text, c :: rest =>
    if c = 'u' then lex (.hex 4 0 text) rest
    else
      match unescape c with
      | some c' => lex (.chars (c' :: text)) rest
      | none => none
  | .hex left value text, c :: rest =>
    match hexValue c with
    | none => none
    | some digit =>
      let value := 16 * value + digit
      if 1 < left then lex (.hex (left - 1) value text) rest
      -- A surrogate is refused.
      else if value < 0xd800 ∨ 0xe000 ≤ value then lex (.chars (.ofNat value :: text)) rest
      else none
  | _, [] => none

def tokens (text : List Char) : Option (List Token) := lex .between text

/-! ## The members of a flat object -/

def members : List Token → Option (List (String × Scalar))
  | [.scalar (.str key), .punct ':', .scalar value, .punct '\x7d'] => some [(key, value)]
  | .scalar (.str key) :: .punct ':' :: .scalar value :: .punct ',' :: rest =>
    (members rest).map ((key, value) :: ·)
  | _ => none

def flatObject : List Token → Option (List (String × Scalar))
  | [.punct '\x7b', .punct '\x7d'] => some []
  | .punct '\x7b' :: rest => members rest
  | _ => none

def readObject (text : List Char) : Option (List (String × Scalar)) := (tokens text).bind flatObject

def ofFields (fields : List (String × Scalar)) : Json :=
  .obj (fields.map fun field => (field.1, field.2.toJson))

/-! ## Strings and numbers read back -/

attribute [local simp] lex

theorem lex_hexDigit {left value n : Nat} {text rest : List Char} (hleft : 1 < left) :
    lex (.hex left value text) (hexDigit n :: rest) =
      lex (.hex (left - 1) (16 * value + n % 16) text) rest := by
  have hall : ∀ i : Fin 16, hexValue (Nat.digitChar i) = some i.val := by decide
  have hvalue : hexValue (hexDigit n) = some (n % 16) := hall ⟨n % 16, Nat.mod_lt _ (by decide)⟩
  simp only [lex, hvalue, hleft, if_true]

theorem lex_lastHexDigit {value n : Nat} {text rest : List Char} (h : 16 * value + n % 16 < 0xd800) :
    lex (.hex 1 value text) (hexDigit n :: rest) =
      lex (.chars (.ofNat (16 * value + n % 16) :: text)) rest := by
  have hall : ∀ i : Fin 16, hexValue (Nat.digitChar i) = some i.val := by decide
  have hvalue : hexValue (hexDigit n) = some (n % 16) := hall ⟨n % 16, Nat.mod_lt _ (by decide)⟩
  simp only [lex, hvalue, h, lt_irrefl, true_or, if_false, if_true]

theorem lex_escapeChar {c : Char} {text rest : List Char} :
    lex (.chars text) (escapeChar c ++ rest) = lex (.chars (c :: text)) rest := by
  have hofNat {n : Nat} (h : c.toNat = n) : c = .ofNat n := by rw [← h, Char.ofNat_toNat]
  unfold escapeChar
  split
  · subst c; rfl
  split
  · subst c; rfl
  split
  · rename_i h; rw [hofNat h]; rfl
  split
  · rename_i h; rw [hofNat h]; rfl
  split
  · rename_i h; rw [hofNat h]; rfl
  split
  · rename_i h; rw [hofNat h]; rfl
  split
  · rename_i h; rw [hofNat h]; rfl
  split
  · rename_i hlow
    have hstart : lex (.chars text)
        ('\\' :: 'u' :: '0' :: '0' :: hexDigit (c.toNat / 16) :: hexDigit c.toNat :: rest) =
        lex (.hex 2 0 text) (hexDigit (c.toNat / 16) :: hexDigit c.toNat :: rest) := rfl
    have hvalue : 16 * (16 * 0 + c.toNat / 16 % 16) + c.toNat % 16 = c.toNat := by omega
    simp only [List.cons_append, List.nil_append]
    rw [hstart, lex_hexDigit (by decide), lex_lastHexDigit (by omega), hvalue, Char.ofNat_toNat]
  · rename_i hquote hslash _ _ _ _ _ hlow
    simp only [List.cons_append, List.nil_append, lex, hquote, hslash, hlow, if_false]

theorem lex_chars {s text rest : List Char} :
    lex (.chars text) (s.flatMap escapeChar ++ '"' :: rest) =
      (lex .between rest).map (.scalar (.str (String.ofList (text.reverse ++ s))) :: ·) := by
  induction s generalizing text with
  | nil => simp only [List.flatMap_nil, List.nil_append, List.append_nil, lex, if_true]
  | cons c s ih =>
    rw [List.flatMap_cons, List.append_assoc, lex_escapeChar, ih]
    simp only [List.reverse_cons, List.append_assoc, List.singleton_append]

theorem lex_quote {s rest : List Char} :
    lex .between (quote s ++ rest) =
      (lex .between rest).map (.scalar (.str (String.ofList s)) :: ·) := by
  have hquote : quote s ++ rest = '"' :: (s.flatMap escapeChar ++ '"' :: rest) := by
    simp only [quote, List.cons_append, List.append_assoc, List.nil_append]
  have hspace : isSpace '"' = false := by decide
  rw [hquote]
  simp only [lex, hspace, Bool.false_eq_true, if_false, if_true, lex_chars]
  rfl

/-- The text goes on with a character that ends a number. -/
def Delimited (rest : List Char) : Prop :=
  ∃ c rest', rest = c :: rest' ∧ (isSpace c ∨ isPunct c)

theorem not_isDigit_of_delimiter {c : Char} (h : isSpace c ∨ isPunct c) : c.isDigit = false := by
  simp only [isSpace, isPunct, Bool.or_eq_true, decide_eq_true_eq] at h
  rcases h with (((rfl | rfl) | rfl) | rfl) | (((rfl | rfl) | rfl) | rfl) <;> decide

theorem lex_digits_end {n : Nat} {rest : List Char} (h : Delimited rest) :
    lex (.digits n) rest = (lex .between rest).map (.scalar (.num n) :: ·) := by
  obtain ⟨c, rest, rfl, hc⟩ := h
  have hdigit := not_isDigit_of_delimiter hc
  cases hspace : isSpace c with
  | true => simp only [lex, hdigit, hspace, Bool.false_eq_true, if_false, if_true]
  | false =>
    have hpunct : isPunct c := by simpa [hspace] using hc
    have hquote : c ≠ '"' := by
      rintro rfl
      revert hpunct
      decide
    simp only [lex, hdigit, hspace, hpunct, hquote, Bool.false_eq_true, if_false, if_true,
      Option.map_map]
    rfl

theorem lex_digits {n : Nat} {digits rest : List Char} (hdigits : ∀ c ∈ digits, c.isDigit)
    (hzero : n ≠ 0 ∨ digits = []) (hrest : Delimited rest) :
    lex (.digits n) (digits ++ rest) =
      (lex .between rest).map (.scalar (.num (Nat.ofDigitChars 10 digits n)) :: ·) := by
  induction digits generalizing n with
  | nil => rw [List.nil_append, lex_digits_end hrest, Nat.ofDigitChars_nil]
  | cons c digits ih =>
    have ⟨hc, htail⟩ := List.forall_mem_cons.mp hdigits
    have hn : n ≠ 0 := hzero.resolve_right (List.cons_ne_nil c digits)
    simp only [List.cons_append, lex, hc, hn, if_true, if_false]
    rw [ih htail (.inl (by omega)), Nat.ofDigitChars_cons]
    rfl

theorem ofDigitChars_lt {digits : List Char} (h : ∀ c ∈ digits, c.isDigit) (init : Nat) :
    Nat.ofDigitChars 10 digits init < (init + 1) * 10 ^ digits.length := by
  induction digits generalizing init with
  | nil => rw [Nat.ofDigitChars_nil, List.length_nil]; omega
  | cons c digits ih =>
    have ⟨hc, hdigits⟩ := List.forall_mem_cons.mp h
    simp only [Char.isDigit, Bool.and_eq_true, decide_eq_true_eq] at hc
    have hdigit : c.toNat - '0'.toNat ≤ 9 := Nat.sub_le_iff_le_add.mpr hc.2
    rw [Nat.ofDigitChars_cons, List.length_cons, pow_succ', ← Nat.mul_assoc]
    exact (ih hdigits _).trans_le (Nat.mul_le_mul_right _ (by omega))

/-- Only zero is written with a zero in front. -/
theorem toDigits_head {n : Nat} {c : Char} {digits : List Char}
    (h : Nat.toDigits 10 n = c :: digits) : c.toNat - 48 ≠ 0 ∨ digits = [] := by
  by_contra hzero
  obtain ⟨hc, hdigits⟩ := not_or.mp hzero
  have hvalue : Nat.ofDigitChars 10 (Nat.toDigits 10 n) 0 = n := Nat.ofDigitChars_ten_toDigits
  rw [h, Nat.ofDigitChars_cons, show '0'.toNat = 48 from rfl, Decidable.not_not.mp hc] at hvalue
  have hall : ∀ c ∈ digits, c.isDigit := fun c hc =>
    Nat.isDigit_of_mem_toDigits (by decide) (by decide) (h ▸ List.mem_cons_of_mem _ hc)
  have hlt : n < 10 ^ digits.length := by
    have hlt := ofDigitChars_lt hall 0
    rw [Nat.zero_add, Nat.one_mul] at hlt
    rwa [← hvalue]
  have hlength := (Nat.length_toDigits_le_iff (by decide) (List.length_pos_iff.mpr hdigits)).mpr hlt
  rw [h, List.length_cons] at hlength
  omega

theorem lex_number {n : Nat} {rest : List Char} (hrest : Delimited rest) :
    lex .between (number n ++ rest) = (lex .between rest).map (.scalar (.num n) :: ·) := by
  have hdigits : ∀ c ∈ Nat.toDigits 10 n, c.isDigit := fun c hc =>
    Nat.isDigit_of_mem_toDigits (by decide) (by decide) hc
  have hvalue : Nat.ofDigitChars 10 (Nat.toDigits 10 n) 0 = n := Nat.ofDigitChars_ten_toDigits
  change lex .between (Nat.toDigits 10 n ++ rest) = _
  cases hd : Nat.toDigits 10 n with
  | nil => exact absurd hd Nat.toDigits_ne_nil
  | cons c digits =>
    rw [hd] at hdigits hvalue
    have ⟨hc, htail⟩ := List.forall_mem_cons.mp hdigits
    have hspace : isSpace c = false := by
      cases hs : isSpace c with
      | false => rfl
      | true => rw [not_isDigit_of_delimiter (.inl hs)] at hc; cases hc
    have hquote : c ≠ '"' := by
      rintro rfl
      revert hc
      decide
    simp only [List.cons_append, lex, hspace, hquote, hc, Bool.false_eq_true, if_false, if_true]
    rw [lex_digits htail (toDigits_head hd) hrest]
    rw [Nat.ofDigitChars_cons] at hvalue
    simp only [Nat.mul_zero, Nat.zero_add] at hvalue
    rw [show '0'.toNat = 48 from rfl] at hvalue
    rw [hvalue]

theorem lex_space {space rest : List Char} (h : ∀ c ∈ space, isSpace c) :
    lex .between (space ++ rest) = lex .between rest := by
  induction space with
  | nil => rfl
  | cons c space ih =>
    have ⟨hc, hspace⟩ := List.forall_mem_cons.mp h
    simp only [List.cons_append, lex, hc, if_true]
    exact ih hspace

theorem lex_newline {depth : Nat} {rest : List Char} :
    lex .between (newline depth ++ rest) = lex .between rest := by
  refine lex_space fun c hc => ?_
  obtain rfl | hc := List.mem_cons.mp hc
  · decide
  · rw [List.eq_of_mem_replicate hc]; decide

theorem lex_punct {c : Char} {rest : List Char} (h : isPunct c) :
    lex .between (c :: rest) = (lex .between rest).map (.punct c :: ·) := by
  simp only [isPunct, Bool.or_eq_true, decide_eq_true_eq] at h
  rcases h with ((rfl | rfl) | rfl) | rfl <;> rfl

/-! ## Objects read back -/

theorem lex_scalar {value : Scalar} {rest : List Char} (hrest : Delimited rest) :
    lex .between (compact value.toJson ++ rest) =
      (lex .between rest).map (.scalar value :: ·) := by
  cases value with
  | str s =>
    simp only [Scalar.toJson, compact]
    rw [lex_quote, String.ofList_toList]
  | num n => exact lex_number hrest

theorem pretty_scalar (value : Scalar) (depth : Nat) :
    pretty depth value.toJson = compact value.toJson := by
  cases value <;> rfl

/-- The tokens of the members and of the brace after them. -/
def memberTokens : List (String × Scalar) → List Token
  | [] => [.punct '\x7d']
  | [(key, value)] => [.scalar (.str key), .punct ':', .scalar value, .punct '\x7d']
  | (key, value) :: fields =>
    .scalar (.str key) :: .punct ':' :: .scalar value :: .punct ',' :: memberTokens fields

theorem members_memberTokens {fields : List (String × Scalar)} (hne : fields ≠ []) :
    members (memberTokens fields) = some fields := by
  induction fields with
  | nil => exact absurd rfl hne
  | cons field fields ih =>
    cases fields with
    | nil => rfl
    | cons next fields =>
      have htail := ih (List.cons_ne_nil _ _)
      cases hnext : memberTokens (next :: fields) with
      | nil => rw [hnext] at htail; cases htail
      | cons t ts =>
        rw [hnext] at htail
        simp only [memberTokens, hnext, members, htail]
        rfl

theorem delimited_cons {c : Char} {rest : List Char} (h : isSpace c ∨ isPunct c) :
    Delimited (c :: rest) :=
  ⟨c, rest, rfl, h⟩

/-- One member, with what is between its parts. -/
theorem lex_member (key : String) (value : Scalar) (space rest : List Char)
    (hspace : ∀ c ∈ space, isSpace c) (hrest : Delimited rest) :
    lex .between (quote key.toList ++ ':' :: (space ++ (compact value.toJson ++ rest))) =
      (lex .between rest).map fun ts =>
        .scalar (.str key) :: .punct ':' :: .scalar value :: ts := by
  rw [lex_quote, lex_punct (by decide), lex_space hspace, lex_scalar hrest, String.ofList_toList]
  cases lex .between rest <;> rfl

theorem lex_compactFields {fields : List (String × Scalar)} {rest : List Char} (hne : fields ≠ [])
    (hdelim : Delimited rest) (hrest : lex .between rest = some [.punct '\x7d']) :
    lex .between (compactFields (fields.map fun field => (field.1, field.2.toJson)) ++ rest) =
      some (memberTokens fields) := by
  induction fields with
  | nil => exact absurd rfl hne
  | cons field fields ih =>
    cases fields with
    | nil =>
      simp only [List.map_cons, List.map_nil, compactFields, List.append_assoc, List.cons_append]
      have hmember := lex_member field.1 field.2 [] _ nofun hdelim
      rw [List.nil_append, hrest] at hmember
      exact hmember
    | cons next fields =>
      simp only [List.map_cons, compactFields, List.append_assoc, List.cons_append]
      have hmember := lex_member field.1 field.2 []
        (',' :: (compactFields ((next.1, next.2.toJson) ::
          fields.map fun field => (field.1, field.2.toJson)) ++ rest))
        nofun (delimited_cons (.inr (by decide)))
      have htail := ih (List.cons_ne_nil _ _)
      rw [List.map_cons] at htail
      rw [List.nil_append, lex_punct (by decide), htail] at hmember
      exact hmember

theorem lex_prettyFields {fields : List (String × Scalar)} {depth : Nat} {rest : List Char}
    (hne : fields ≠ []) (hdelim : Delimited rest)
    (hrest : lex .between rest = some [.punct '\x7d']) :
    lex .between (prettyFields depth (fields.map fun field => (field.1, field.2.toJson)) ++ rest) =
      some (memberTokens fields) := by
  induction fields with
  | nil => exact absurd rfl hne
  | cons field fields ih =>
    cases fields with
    | nil =>
      simp only [List.map_cons, List.map_nil, prettyFields, pretty_scalar, List.append_assoc,
        List.cons_append]
      have hmember := lex_member field.1 field.2 [' '] _
        (List.all_eq_true.mp rfl) hdelim
      rw [hrest] at hmember
      rw [lex_newline]
      exact hmember
    | cons next fields =>
      simp only [List.map_cons, prettyFields, pretty_scalar, List.append_assoc, List.cons_append]
      have hmember := lex_member field.1 field.2 [' ']
        (',' :: (prettyFields depth ((next.1, next.2.toJson) ::
          fields.map fun field => (field.1, field.2.toJson)) ++ rest))
        (List.all_eq_true.mp rfl) (delimited_cons (.inr (by decide)))
      have htail := ih (List.cons_ne_nil _ _)
      rw [List.map_cons] at htail
      rw [lex_punct (by decide), htail] at hmember
      rw [lex_newline]
      exact hmember

theorem flatObject_memberTokens {fields : List (String × Scalar)} (hne : fields ≠ []) :
    flatObject (.punct '\x7b' :: memberTokens fields) = some fields := by
  have hmembers := members_memberTokens hne
  match fields, hne with
  | [(key, value)], _ => exact hmembers
  | (key, value) :: next :: fields, _ => exact hmembers

theorem lex_close {space : List Char} (hspace : ∀ c ∈ space, isSpace c) :
    lex .between ('\x7d' :: space) = some [.punct '\x7d'] := by
  have hlex : lex .between (space ++ []) = lex .between [] := lex_space hspace
  rw [List.append_nil] at hlex
  rw [lex_punct (by decide), hlex]
  rfl

/-- The compact text of a flat object reads back, with white space after it. -/
theorem readObject_compact {fields : List (String × Scalar)} {space : List Char} (hne : fields ≠ [])
    (hspace : ∀ c ∈ space, isSpace c) :
    readObject (compact (ofFields fields) ++ space) = some fields := by
  have hend := lex_close hspace
  have htokens : tokens (compact (ofFields fields) ++ space) =
      some (.punct '\x7b' :: memberTokens fields) := by
    simp only [tokens, ofFields, compact, List.cons_append, List.append_assoc, List.nil_append]
    rw [lex_punct (by decide), lex_compactFields hne (delimited_cons (.inr (by decide))) hend]
    rfl
  rw [readObject, htokens, Option.bind_some, flatObject_memberTokens hne]

/-- The indented text of a flat object reads back, with white space after it. -/
theorem readObject_pretty {fields : List (String × Scalar)} {space : List Char} (hne : fields ≠ [])
    (hspace : ∀ c ∈ space, isSpace c) :
    readObject (pretty 0 (ofFields fields) ++ space) = some fields := by
  have hend := lex_close hspace
  have htokens : tokens (pretty 0 (ofFields fields) ++ space) =
      some (.punct '\x7b' :: memberTokens fields) := by
    obtain ⟨field, rest, rfl⟩ := List.exists_cons_of_ne_nil hne
    simp only [tokens, ofFields, List.map_cons, pretty, List.cons_append, List.append_assoc,
      List.nil_append]
    rw [lex_punct (by decide), ← List.map_cons (f := fun field : String × Scalar =>
      (field.1, field.2.toJson)), lex_prettyFields hne ?_ ?_]
    · rfl
    · exact delimited_cons (.inl (by decide))
    · exact lex_newline.trans hend
  rw [readObject, htokens, Option.bind_some, flatObject_memberTokens hne]

end Json
