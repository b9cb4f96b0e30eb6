-- SUMMARY: Internet addresses and the texts that the readers of the standard library accept for them.
import Mathlib.Data.Nat.Digits.Lemmas
import Mathlib.Data.List.TakeWhile

/-!
# Internet addresses

A reader takes a value off the front of a text. `Net.Bounded` says that a closing
bracket ends what a reader takes, so that a text can be read in brackets.
-/

namespace Net

structure Ipv4Addr where
  a : UInt8
  b : UInt8
  c : UInt8
  d : UInt8
deriving DecidableEq

/-- An address by its eight groups. -/
structure Ipv6Addr where
  segments : List Nat
deriving DecidableEq

inductive IpAddr where
  | v4 (address : Ipv4Addr)
  | v6 (address : Ipv6Addr)
deriving DecidableEq

structure SocketAddr where
  ip : IpAddr
  port : Nat
  /-- The zone of an IPv6 address. -/
  scopeId : Nat := 0
deriving DecidableEq

def Ipv4Addr.localhost : Ipv4Addr := ⟨127, 0, 0, 1⟩
def Ipv6Addr.localhost : Ipv6Addr := ⟨[0, 0, 0, 0, 0, 0, 0, 1]⟩

def IpAddr.isLoopback : IpAddr → Bool
  | .v4 address => address.a = 127
  | .v6 address => address = .localhost

/-- Four decimal numbers with dots between them. -/
def Ipv4Addr.display (address : Ipv4Addr) : List Char :=
  Nat.toDigits 10 address.a.toNat ++ '.' :: Nat.toDigits 10 address.b.toNat ++
    '.' :: Nat.toDigits 10 address.c.toNat ++ '.' :: Nat.toDigits 10 address.d.toNat

/-! ## Readers -/

def Reader (α : Type) := List Char → Option (α × List Char)

namespace Reader

instance : Monad Reader where
  pure a := fun text => some (a, text)
  bind read next := fun text => (read text).bind fun r => next r.1 r.2

def fail {α : Type} : Reader α := fun _ => none

/-- Take nothing where `read` fails. -/
def optional {α : Type} (read : Reader α) : Reader (Option α) := fun text =>
  match read text with
  | some (a, rest) => some (some a, rest)
  | none => some (none, text)

def orElse {α : Type} (read other : Reader α) : Reader α := fun text => (read text).or (other text)

end Reader

def givenChar (c : Char) : Reader Unit
  | [] => none
  | d :: rest => if d = c then some ((), rest) else none

/-- `char::to_digit`. -/
def toDigit (radix : Nat) (c : Char) : Option Nat :=
  let value :=
    if 48 ≤ c.toNat ∧ c.toNat ≤ 57 then c.toNat - 48
    else if 97 ≤ c.toNat ∧ c.toNat ≤ 122 then c.toNat - 87
    else if 65 ≤ c.toNat ∧ c.toNat ≤ 90 then c.toNat - 55
    else radix
  if value < radix then some value else none

def isDigit (radix : Nat) (c : Char) : Bool := (toDigit radix c).isSome

def digitsValue (radix : Nat) (digits : List Char) : Nat :=
  digits.foldl (fun value c => radix * value + (toDigit radix c).getD 0) 0

/-- The digits at the start of a text, if they are a number: at least one and at
    most `maxDigits` digits, a value of at most `max`, and a leading zero only by
    itself or where `zeroPrefix` allows it. -/
def number (radix : Nat) (maxDigits : Option Nat) (zeroPrefix : Bool) (max : Nat) : Reader Nat :=
  fun text =>
    let digits := text.takeWhile (isDigit radix)
    if digits = [] ∨ maxDigits.any (· < digits.length) ∨
        (!zeroPrefix ∧ digits.head? = some '0' ∧ 1 < digits.length) ∨ max < digitsValue radix digits
    then none
    else some (digitsValue radix digits, text.drop digits.length)

def octet : Reader UInt8 := do
  let value ← number 10 (some 3) false 255
  return UInt8.ofNat value

def ipv4 : Reader Ipv4Addr := do
  let a ← octet
  let _ ← givenChar '.'
  let b ← octet
  let _ ← givenChar '.'
  let c ← octet
  let _ ← givenChar '.'
  let d ← octet
  return ⟨a, b, c, d⟩

/-- What stands before all groups but the first one. -/
def separated {α : Type} (first : Bool) (read : Reader α) : Reader α :=
  if first then read
  else do
    let _ ← givenChar ':'
    read

def group : Reader Nat := number 16 (some 4) true 65535

/-- The groups at the start of a text, at most `limit`, and whether the last two
    are written as an IPv4 address. -/
def groups : Nat → Bool → Reader (List Nat × Bool)
  | 0, _ => pure ([], false)
  | limit + 1, first => do
    match ← (if 1 ≤ limit then (separated first ipv4).optional else pure none) with
    | some address =>
      return ([address.a.toNat * 256 + address.b.toNat, address.c.toNat * 256 + address.d.toNat],
        true)
    | none =>
      match ← (separated first group).optional with
      | none => return ([], false)
      | some group =>
        let (rest, embedded) ← groups limit false
        return (group :: rest, embedded)

def ipv6 : Reader Ipv6Addr := do
  let (head, embedded) ← groups 8 true
  if head.length = 8 then return ⟨head⟩
  else if embedded then Reader.fail
  else
    let _ ← givenChar ':'
    let _ ← givenChar ':'
    let (tail, _) ← groups (8 - (head.length + 1)) true
    return ⟨head ++ List.replicate (8 - head.length - tail.length) 0 ++ tail⟩

def ip : Reader IpAddr := (IpAddr.v4 <$> ipv4).orElse (IpAddr.v6 <$> ipv6)

def port : Reader Nat := do
  let _ ← givenChar ':'
  number 10 none true 65535

def scopeId : Reader Nat := do
  let _ ← givenChar '%'
  number 10 none true 4294967295

def socketV4 : Reader SocketAddr := do
  let address ← ipv4
  let port ← port
  return { ip := .v4 address, port }

def socketV6 : Reader SocketAddr := do
  let _ ← givenChar '['
  let address ← ipv6
  let scope ← scopeId.optional
  let _ ← givenChar ']'
  let port ← port
  return { ip := .v6 address, port, scopeId := scope.getD 0 }

def socket : Reader SocketAddr := socketV4.orElse socketV6

/-- A reader has to take the whole text. -/
def whole {α : Type} (read : Reader α) (text : List Char) : Option α :=
  match read text with
  | some (a, []) => some a
  | _ => none

/-- `str::parse::<IpAddr>`. -/
def parseIpAddr (text : String) : Option IpAddr := whole ip text.toList

/-- `str::parse::<SocketAddr>`. -/
def parseSocketAddr (text : String) : Option SocketAddr := whole socket text.toList

/-- `str::parse::<u16>`, which accepts a sign. -/
def parseU16 (text : List Char) : Option Nat :=
  match text with
  | '+' :: digits => whole (number 10 none true 65535) digits
  | digits => whole (number 10 none true 65535) digits

example : parseIpAddr "::ffff:127.0.0.1" = some (.v6 ⟨[0, 0, 0, 0, 0, 65535, 32512, 1]⟩) := by decide +kernel

/-! ## What ends a reader -/

/-- The character `stop` ends what the reader takes. -/
def Bounded (stop : Char) {α : Type} (read : Reader α) : Prop :=
  ∀ text rest, read (text ++ stop :: rest) = (read text).map fun r => (r.1, r.2 ++ stop :: rest)

section Bounded

variable {stop : Char} {α β : Type} {read : Reader α}

theorem Bounded.pure (a : α) : Bounded stop (pure a : Reader α) := fun _ _ => rfl

theorem Bounded.bind {next : α → Reader β} (h : Bounded stop read)
    (hnext : ∀ a, Bounded stop (next a)) : Bounded stop (read >>= next) := by
  intro text rest
  change (read (text ++ stop :: rest)).bind _ = ((read text).bind _).map _
  rw [h text rest]
  cases read text with
  | none => rfl
  | some r => exact hnext r.1 r.2 rest

theorem Bounded.fail : Bounded stop (Reader.fail : Reader α) := fun _ _ => rfl

theorem Bounded.optional (h : Bounded stop read) : Bounded stop read.optional := by
  intro text rest
  simp only [Reader.optional, h text rest]
  cases read text <;> rfl

theorem bounded_givenChar {c : Char} (h : stop ≠ c) : Bounded stop (givenChar c) := by
  intro text rest
  cases text with
  | nil => simp [givenChar, h]
  | cons d text =>
    simp only [List.cons_append, givenChar]
    split <;> rfl

theorem takeWhile_append_stop {p : Char → Bool} (h : p stop = false) (text rest : List Char) :
    (text ++ stop :: rest).takeWhile p = text.takeWhile p := by
  induction text with
  | nil => simp [h]
  | cons c text ih => simp only [List.cons_append, List.takeWhile_cons, ih]

theorem bounded_number {radix : Nat} {maxDigits : Option Nat} {zeroPrefix : Bool} {max : Nat}
    (h : isDigit radix stop = false) : Bounded stop (number radix maxDigits zeroPrefix max) := by
  intro text rest
  have hlength : (text.takeWhile (isDigit radix)).length ≤ text.length :=
    (List.takeWhile_prefix _).length_le
  simp only [number, takeWhile_append_stop h, List.drop_append_of_le_length hlength]
  split <;> rfl

theorem bounded_octet (h : isDigit 10 stop = false) : Bounded stop octet :=
  (bounded_number h).bind fun _ => .pure _

theorem bounded_ipv4 (h : isDigit 10 stop = false) (hdot : stop ≠ '.') : Bounded stop ipv4 := by
  have hoctet := bounded_octet h
  have hchar := bounded_givenChar hdot
  exact hoctet.bind fun _ => hchar.bind fun _ => hoctet.bind fun _ => hchar.bind fun _ =>
    hoctet.bind fun _ => hchar.bind fun _ => hoctet.bind fun _ => .pure _

theorem Bounded.separated (h : Bounded stop read) (hcolon : stop ≠ ':') (first : Bool) :
    Bounded stop (separated first read) := by
  unfold Net.separated
  split
  · exact h
  · exact (bounded_givenChar hcolon).bind fun _ => h

theorem bounded_groups (limit : Nat) (first : Bool) : Bounded ']' (groups limit first) := by
  induction limit generalizing first with
  | zero => exact .pure _
  | succ limit ih =>
    have hipv4 := (bounded_ipv4 (by decide) (by decide)).separated (by decide : ']' ≠ ':') first
    have hgroup : Bounded ']' (separated first group) :=
      (bounded_number (by decide)).separated (by decide) first
    unfold groups
    refine Bounded.bind ?_ fun embedded => ?_
    · split
      · exact hipv4.optional
      · exact .pure _
    cases embedded with
    | some address => exact .pure _
    | none =>
      refine hgroup.optional.bind fun group => ?_
      cases group with
      | none => exact .pure _
      | some group => exact (ih false).bind fun _ => .pure _

theorem bounded_ipv6 : Bounded ']' ipv6 := by
  unfold ipv6
  refine (bounded_groups 8 true).bind fun ⟨head, embedded⟩ => ?_
  simp only
  split
  · exact .pure _
  split
  · exact .fail
  · have hcolon : Bounded ']' (givenChar ':') := bounded_givenChar (by decide)
    exact hcolon.bind fun _ => hcolon.bind fun _ => (bounded_groups _ true).bind fun _ => .pure _

end Bounded

/-- What a reader leaves is the end of the text. -/
def Consuming {α : Type} (read : Reader α) : Prop := ∀ text r, read text = some r → r.2 <:+ text

section Consuming

variable {α β : Type} {read : Reader α}

theorem Consuming.pure (a : α) : Consuming (pure a : Reader α) := by
  rintro text _ ⟨⟩
  exact List.suffix_refl text

theorem Consuming.bind {next : α → Reader β} (h : Consuming read) (hnext : ∀ a, Consuming (next a)) :
    Consuming (read >>= next) := by
  intro text r hr
  obtain ⟨⟨a, rest⟩, hread, hr⟩ := Option.bind_eq_some_iff.mp hr
  exact (hnext a rest r hr).trans (h text _ hread)

theorem consuming_givenChar (c : Char) : Consuming (givenChar c) := by
  intro text r hr
  cases text with
  | nil => cases hr
  | cons d text =>
    rw [givenChar] at hr
    split at hr <;> cases hr
    exact List.suffix_cons d text

theorem consuming_number (radix : Nat) (maxDigits : Option Nat) (zeroPrefix : Bool) (max : Nat) :
    Consuming (number radix maxDigits zeroPrefix max) := by
  intro text r hr
  simp only [number] at hr
  split at hr <;> cases hr
  exact List.drop_suffix _ text

theorem consuming_ipv4 : Consuming ipv4 := by
  have hoctet : Consuming octet :=
    Consuming.bind (consuming_number 10 (some 3) false 255) fun _ => .pure _
  have hchar := consuming_givenChar '.'
  exact hoctet.bind fun _ => hchar.bind fun _ => hoctet.bind fun _ => hchar.bind fun _ =>
    hoctet.bind fun _ => hchar.bind fun _ => hoctet.bind fun _ => .pure _

end Consuming

/-! ## Decimal numbers -/

theorem toDigit_of_isDigit {c : Char} (h : c.isDigit) : toDigit 10 c = some (c.toNat - 48) := by
  have hrange : 48 ≤ c.toNat ∧ c.toNat ≤ 57 := by
    simp only [Char.isDigit, Bool.and_eq_true, decide_eq_true_eq] at h
    exact h
  have hlt : c.toNat - 48 < 10 := by omega
  simp only [toDigit, if_pos hrange, if_pos hlt]

theorem isDigit_toDigits (n : Nat) : ∀ c ∈ Nat.toDigits 10 n, isDigit 10 c := by
  intro c hc
  rw [isDigit, toDigit_of_isDigit (Nat.isDigit_of_mem_toDigits (by decide) (by decide) hc)]
  rfl

theorem digitsValue_toDigits (n : Nat) : digitsValue 10 (Nat.toDigits 10 n) = n := by
  have hvalue (digits : List Char) (h : ∀ c ∈ digits, c.isDigit) (init : Nat) :
      digits.foldl (fun value c => 10 * value + (toDigit 10 c).getD 0) init =
        Nat.ofDigitChars 10 digits init := by
    induction digits generalizing init with
    | nil => rfl
    | cons c digits ih =>
      have ⟨hc, hdigits⟩ := List.forall_mem_cons.mp h
      rw [List.foldl_cons, ih hdigits, Nat.ofDigitChars_cons, toDigit_of_isDigit hc]
      rfl
  refine (hvalue _ (fun c hc => ?_) 0).trans Nat.ofDigitChars_ten_toDigits
  exact Nat.isDigit_of_mem_toDigits (by decide) (by decide) hc

/-- A decimal number is read back. -/
theorem number_toDigits {maxDigits : Option Nat} {zeroPrefix : Bool} {max n : Nat} (hn : n ≤ max)
    (hdigits : ∀ limit ∈ maxDigits, (Nat.toDigits 10 n).length ≤ limit)
    (hzero : zeroPrefix ∨ ¬ ((Nat.toDigits 10 n).head? = some '0' ∧ 1 < (Nat.toDigits 10 n).length)) :
    number 10 maxDigits zeroPrefix max (Nat.toDigits 10 n) = some (n, []) := by
  have htake : (Nat.toDigits 10 n).takeWhile (isDigit 10) = Nat.toDigits 10 n :=
    List.takeWhile_eq_self_iff.mpr (isDigit_toDigits n)
  simp only [number, htake, digitsValue_toDigits, List.drop_length]
  rw [if_neg]
  simp only [Nat.toDigits_ne_nil, false_or, not_or, Nat.not_lt, hn, and_true]
  constructor
  · cases maxDigits with
    | none => simp
    | some limit => simpa using hdigits limit rfl
  · cases zeroPrefix with
    | true => simp
    | false => simpa using hzero

theorem octet_toDigits (o : UInt8) : octet (Nat.toDigits 10 o.toNat) = some (o, []) := by
  have htable : ∀ n : Fin 256, (Nat.toDigits 10 n).length ≤ 3 ∧
      ¬ ((Nat.toDigits 10 n).head? = some '0' ∧ 1 < (Nat.toDigits 10 n).length) := by decide +kernel
  obtain ⟨hlength, hzero⟩ := htable ⟨o.toNat, o.toNat_lt⟩
  have hnumber : number 10 (some 3) false 255 (Nat.toDigits 10 o.toNat) = some (o.toNat, []) := by
    refine number_toDigits (Nat.le_of_lt_succ o.toNat_lt) ?_ (.inr hzero)
    rintro limit ⟨⟩
    exact hlength
  change (number 10 (some 3) false 255 _).bind _ = _
  rw [hnumber]
  exact congrArg (fun value => some (value, [])) (UInt8.ofNat_toNat)

theorem octet_stop (o : UInt8) {stop : Char} (h : isDigit 10 stop = false) (rest : List Char) :
    octet (Nat.toDigits 10 o.toNat ++ stop :: rest) = some (o, stop :: rest) := by
  rw [bounded_octet h, octet_toDigits]
  rfl

theorem ipv4_display (address : Ipv4Addr) : ipv4 address.display = some (address, []) := by
  have hdot : isDigit 10 '.' = false := by decide
  simp only [Ipv4Addr.display, List.append_assoc, List.cons_append]
  change (octet _).bind _ = _
  rw [octet_stop _ hdot]
  change (octet _).bind _ = _
  rw [octet_stop _ hdot]
  change (octet _).bind _ = _
  rw [octet_stop _ hdot]
  change (octet _).bind _ = _
  rw [octet_toDigits]
  rfl

theorem port_toDigits {n : Nat} (h : n ≤ 65535) : port (':' :: Nat.toDigits 10 n) = some (n, []) :=
  number_toDigits h nofun (.inl rfl)

theorem parseU16_toDigits {n : Nat} (h : n ≤ 65535) : parseU16 (Nat.toDigits 10 n) = some n := by
  have hnumber : number 10 none true 65535 (Nat.toDigits 10 n) = some (n, []) :=
    number_toDigits h nofun (.inl rfl)
  unfold parseU16
  split
  · rename_i digits heq
    exact absurd (isDigit_toDigits n '+' (heq ▸ List.mem_cons_self)) (by decide)
  · rw [whole, hnumber]

/-! ## Addresses in texts -/

theorem parseIpAddr_display (address : Ipv4Addr) :
    parseIpAddr (String.ofList address.display) = some (.v4 address) := by
  have hip : ip address.display = some (.v4 address, []) := by
    change ((ipv4 _).bind _).or _ = _
    rw [ipv4_display]
    rfl
  rw [parseIpAddr, String.toList_ofList, whole, hip]

/-- Brackets belong to socket addresses only. -/
theorem parseIpAddr_bracket (text : List Char) :
    parseIpAddr (String.ofList ('[' :: text)) = none := by
  rw [parseIpAddr, String.toList_ofList]
  rfl

theorem parseSocketAddr_display (address : Ipv4Addr) {n : Nat} (h : n ≤ 65535) :
    parseSocketAddr (String.ofList (address.display ++ ':' :: Nat.toDigits 10 n)) =
      some { ip := .v4 address, port := n } := by
  have hipv4 : ipv4 (address.display ++ ':' :: Nat.toDigits 10 n) =
      some (address, ':' :: Nat.toDigits 10 n) := by
    rw [bounded_ipv4 (by decide) (by decide), ipv4_display]
    rfl
  have hsocket : socket (address.display ++ ':' :: Nat.toDigits 10 n) =
      some ({ ip := .v4 address, port := n }, []) := by
    change ((ipv4 _).bind fun r => (port r.2).bind _).or _ = _
    rw [hipv4, Option.bind_some, port_toDigits h]
    rfl
  rw [parseSocketAddr, String.toList_ofList, whole, hsocket]

theorem parseSocketAddr_bracket {text : List Char} {address : Ipv6Addr}
    (htext : ipv6 text = some (address, [])) {n : Nat} (h : n ≤ 65535) :
    parseSocketAddr (String.ofList ('[' :: (text ++ ']' :: ':' :: Nat.toDigits 10 n))) =
      some { ip := .v6 address, port := n } := by
  have hipv6 : ipv6 (text ++ ']' :: ':' :: Nat.toDigits 10 n) =
      some (address, ']' :: ':' :: Nat.toDigits 10 n) := by
    rw [bounded_ipv6, htext]
    rfl
  have hsocket : socketV6 ('[' :: (text ++ ']' :: ':' :: Nat.toDigits 10 n)) =
      some ({ ip := .v6 address, port := n }, []) := by
    change (ipv6 _).bind _ = _
    rw [hipv6, Option.bind_some]
    change (port (':' :: Nat.toDigits 10 n)).bind _ = _
    rw [port_toDigits h]
    rfl
  have hnone : socketV4 ('[' :: (text ++ ']' :: ':' :: Nat.toDigits 10 n)) = none := rfl
  have hor : socket ('[' :: (text ++ ']' :: ':' :: Nat.toDigits 10 n)) =
      some ({ ip := .v6 address, port := n }, []) := by
    rw [socket, Reader.orElse, hnone, hsocket]
    rfl
  rw [parseSocketAddr, String.toList_ofList, whole, hor]

/-- A name that is no address does not become one before a port. -/
theorem parseSocketAddr_name {name : List Char} (hname : parseIpAddr (String.ofList name) = none)
    (hcolon : ':' ∉ name) (hbracket : '[' ∉ name) (rest : List Char) :
    parseSocketAddr (String.ofList (name ++ ':' :: rest)) = none := by
  have hV4 : socketV4 (name ++ ':' :: rest) = none := by
    change (ipv4 _).bind (fun r => (port r.2).bind _) = none
    rw [bounded_ipv4 (by decide) (by decide)]
    cases hipv4 : ipv4 name with
    | none => rfl
    | some r =>
      obtain ⟨address, left⟩ := r
      cases left with
      | nil =>
        have hip : parseIpAddr (String.ofList name) = some (.v4 address) := by
          have hread : ip name = some (.v4 address, []) := by
            change ((ipv4 _).bind _).or _ = _
            rw [hipv4]
            rfl
          rw [parseIpAddr, String.toList_ofList, whole, hread]
        cases hname.symm.trans hip
      | cons c left =>
        have hc : c ≠ ':' := fun heq =>
          hcolon (heq ▸ (consuming_ipv4 _ _ hipv4).subset List.mem_cons_self)
        have hport : port (c :: left ++ ':' :: rest) = none := by
          change (givenChar ':' _).bind _ = none
          rw [List.cons_append, givenChar, if_neg hc]
          rfl
        change (port (c :: left ++ ':' :: rest)).bind _ = none
        rw [hport]
        rfl
  have hV6 : socketV6 (name ++ ':' :: rest) = none := by
    change (givenChar '[' _).bind _ = none
    cases name with
    | nil => rfl
    | cons c name =>
      rw [List.cons_append, givenChar, if_neg]
      · rfl
      · exact fun heq => hbracket (heq ▸ List.mem_cons_self)
  rw [parseSocketAddr, String.toList_ofList, whole, socket, Reader.orElse, hV4, hV6]
  rfl

end Net
