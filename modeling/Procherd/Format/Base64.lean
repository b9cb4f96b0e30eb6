-- SUMMARY: The standard base64 encoding with padding, its strict decoder, and their round trip.

/-!
# Base64

The standard alphabet with canonical padding. The decoder is strict: it refuses
missing padding and nonzero trailing bits, so that every byte string has exactly
one text that decodes to it.
-/

namespace Base64

/-! ## The alphabet -/

/-- The digit of value `n`, for `n < 64`. -/
def digit (n : Nat) : Char :=
  if n < 26 then Char.ofNat (65 + n)
  else if n < 52 then Char.ofNat (97 + (n - 26))
  else if n < 62 then Char.ofNat (48 + (n - 52))
  else if n = 62 then '+'
  else '/'

/-- The value of a digit. -/
def value (c : Char) : Option Nat :=
  if c.isUpper then some (c.toNat - 65)
  else if c.isLower then some (c.toNat - 97 + 26)
  else if c.isDigit then some (c.toNat - 48 + 52)
  else if c = '+' then some 62
  else if c = '/' then some 63
  else none

theorem value_digit {n : Nat} (h : n < 64) : value (digit n) = some n := by
  have hall : ∀ i : Fin 64, value (digit i) = some i.val := by decide
  exact hall ⟨n, h⟩

theorem digit_ne_pad {n : Nat} (h : n < 64) : digit n ≠ '=' := by
  intro heq
  have hv := value_digit h
  rw [heq, show value '=' = none by decide] at hv
  cases hv

/-! ## Encoding and decoding -/

def encode : List UInt8 → List Char
  | [] => []
  | [a] => [digit (a.toNat / 4), digit (a.toNat % 4 * 16), '=', '=']
  | [a, b] =>
    [digit (a.toNat / 4), digit (a.toNat % 4 * 16 + b.toNat / 16),
      digit (b.toNat % 16 * 4), '=']
  | a :: b :: c :: rest =>
    digit (a.toNat / 4) :: digit (a.toNat % 4 * 16 + b.toNat / 16) ::
      digit (b.toNat % 16 * 4 + c.toNat / 64) :: digit (c.toNat % 64) :: encode rest

/-- Decode one group of four digits. The flag says that it was padded, so that
    no group may follow. -/
def decodeGroup (w x y z : Char) : Option (List UInt8 × Bool) := do
  let p ← value w
  let q ← value x
  if y = '=' then
    if z = '=' ∧ q % 16 = 0 then some ([.ofNat (p * 4 + q / 16)], true) else none
  else do
    let r ← value y
    if z = '=' then
      if r % 4 = 0 then
        some ([.ofNat (p * 4 + q / 16), .ofNat (q % 16 * 16 + r / 4)], true)
      else none
    else do
      let s ← value z
      some ([.ofNat (p * 4 + q / 16), .ofNat (q % 16 * 16 + r / 4), .ofNat (r % 4 * 64 + s)],
        false)

def decode : List Char → Option (List UInt8)
  | [] => some []
  | w :: x :: y :: z :: rest =>
    match decodeGroup w x y z with
    | none => none
    | some (bytes, true) => if rest = [] then some bytes else none
    | some (bytes, false) => (decode rest).map (bytes ++ ·)
  | _ => none

/-! ## Round trip -/

private theorem ofNat_toNat_split {a : UInt8} {n : Nat} (h : n = a.toNat) : UInt8.ofNat n = a := by
  subst h
  exact UInt8.ofNat_toNat

theorem decode_encode (bytes : List UInt8) : decode (encode bytes) = some bytes := by
  induction bytes using encode.induct with
  | case1 => rfl
  | case2 a =>
    have ha := a.toNat_lt
    have hv₁ := value_digit (n := a.toNat / 4) (by omega)
    have hv₂ := value_digit (n := a.toNat % 4 * 16) (by omega)
    have h₀ : (a.toNat % 4 * 16) % 16 = 0 := by omega
    have h₁ : UInt8.ofNat (a.toNat / 4 * 4 + a.toNat % 4 * 16 / 16) = a :=
      ofNat_toNat_split (by omega)
    simp only [encode, decode, decodeGroup, hv₁, hv₂, h₀, h₁, Option.bind_eq_bind,
      Option.bind_some, and_self, if_true]
  | case3 a b =>
    have ha := a.toNat_lt
    have hb := b.toNat_lt
    have hv₁ := value_digit (n := a.toNat / 4) (by omega)
    have hv₂ := value_digit (n := a.toNat % 4 * 16 + b.toNat / 16) (by omega)
    have hv₃ := value_digit (n := b.toNat % 16 * 4) (by omega)
    have hp₃ := digit_ne_pad (n := b.toNat % 16 * 4) (by omega)
    have h₀ : (b.toNat % 16 * 4) % 4 = 0 := by omega
    have h₁ : UInt8.ofNat
        (a.toNat / 4 * 4 + (a.toNat % 4 * 16 + b.toNat / 16) / 16) = a :=
      ofNat_toNat_split (by omega)
    have h₂ : UInt8.ofNat
        ((a.toNat % 4 * 16 + b.toNat / 16) % 16 * 16 + b.toNat % 16 * 4 / 4) = b :=
      ofNat_toNat_split (by omega)
    simp only [encode, decode, decodeGroup, hv₁, hv₂, hv₃, hp₃, h₀, h₁, h₂, Option.bind_eq_bind,
      Option.bind_some, if_true, if_false]
  | case4 a b c rest ih =>
    have ha := a.toNat_lt
    have hb := b.toNat_lt
    have hc := c.toNat_lt
    have hv₁ := value_digit (n := a.toNat / 4) (by omega)
    have hv₂ := value_digit (n := a.toNat % 4 * 16 + b.toNat / 16) (by omega)
    have hv₃ := value_digit (n := b.toNat % 16 * 4 + c.toNat / 64) (by omega)
    have hv₄ := value_digit (n := c.toNat % 64) (by omega)
    have hp₃ := digit_ne_pad (n := b.toNat % 16 * 4 + c.toNat / 64) (by omega)
    have hp₄ := digit_ne_pad (n := c.toNat % 64) (by omega)
    have h₁ : UInt8.ofNat
        (a.toNat / 4 * 4 + (a.toNat % 4 * 16 + b.toNat / 16) / 16) = a :=
      ofNat_toNat_split (by omega)
    have h₂ : UInt8.ofNat ((a.toNat % 4 * 16 + b.toNat / 16) % 16 * 16
        + (b.toNat % 16 * 4 + c.toNat / 64) / 4) = b :=
      ofNat_toNat_split (by omega)
    have h₃ : UInt8.ofNat ((b.toNat % 16 * 4 + c.toNat / 64) % 4 * 64 + c.toNat % 64) = c :=
      ofNat_toNat_split (by omega)
    simp only [encode, decode, decodeGroup, hv₁, hv₂, hv₃, hv₄, hp₃, hp₄, h₁, h₂, h₃, ih,
      Option.bind_eq_bind, Option.bind_some, if_false, Option.map_some, List.cons_append,
      List.nil_append]

theorem length_encode (bytes : List UInt8) :
    (encode bytes).length = 4 * ((bytes.length + 2) / 3) := by
  induction bytes using encode.induct with
  | case1 => rfl
  | case2 a => simp only [encode, List.length_cons, List.length_nil]
  | case3 a b => simp only [encode, List.length_cons, List.length_nil]
  | case4 a b c rest ih =>
    simp only [encode, List.length_cons, ih]
    omega

/-! ## Characters of the encoding -/

/-- A property of the digits and of the padding holds of every character of an
    encoding. -/
theorem encode_forall {P : Char → Prop} (hdigit : ∀ n, n < 64 → P (digit n)) (hpad : P '=')
    (bytes : List UInt8) : ∀ c ∈ encode bytes, P c := by
  induction bytes using encode.induct with
  | case1 => simp [encode]
  | case2 a =>
    have ha := a.toNat_lt
    simp only [encode, List.forall_mem_cons]
    exact ⟨hdigit _ (by omega), hdigit _ (by omega), hpad, hpad, by simp⟩
  | case3 a b =>
    have ha := a.toNat_lt
    have hb := b.toNat_lt
    simp only [encode, List.forall_mem_cons]
    exact ⟨hdigit _ (by omega), hdigit _ (by omega), hdigit _ (by omega), hpad, by simp⟩
  | case4 a b c rest ih =>
    have ha := a.toNat_lt
    have hb := b.toNat_lt
    have hc := c.toNat_lt
    simp only [encode, List.forall_mem_cons]
    exact ⟨hdigit _ (by omega), hdigit _ (by omega), hdigit _ (by omega), hdigit _ (by omega), ih⟩

end Base64
