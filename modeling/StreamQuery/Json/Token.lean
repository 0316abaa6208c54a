import StreamQuery.Json.Basic
import StreamQuery.Double.Numeral

/-!
# JSON tokens

The scanner is a fold over the characters: its state says whether it is between tokens or inside a
string, a numeral or a word. A numeral or a word ends where a character cannot continue it, and is
judged as a whole.
-/

namespace StreamQuery.Json

/-- A lexical unit of a document. -/
inductive Token where
  | openArray
  | closeArray
  | openObject
  | closeObject
  | comma
  | colon
  /-- One of the words for null and the truth values. -/
  | word (value : Json)
  /-- A string, with its text if it has one. -/
  | string (text : Option String)
  /-- A numeral, with its value if it has one. -/
  | number (value : Option JsonNumber)

/-! ## Strings -/

/-- A character of a string, or a code unit written as an escape. -/
inductive Piece where
  /-- A character that stands for itself or for a one-letter escape. -/
  | char (c : Char)
  /-- A code unit of four hexadecimal digits. -/
  | unit (code : Nat)

/-- The text spelled by the pieces of a string: a high surrogate must be followed by a low one. -/
def Piece.text? : List Piece → Option (List Char)
  | [] => some []
  | .char c :: rest => (text? rest).map (c :: ·)
  | .unit high :: .unit low :: rest =>
    if 0xD800 ≤ high && high < 0xDC00 then
      if 0xDC00 ≤ low && low < 0xE000 then
        (text? rest).map (Char.ofNat (0x10000 + (high - 0xD800) * 0x400 + (low - 0xDC00)) :: ·)
      else none
    else if 0xDC00 ≤ high && high < 0xE000 then none
    else (text? (.unit low :: rest)).map (Char.ofNat high :: ·)
  | .unit code :: rest =>
    if 0xD800 ≤ code && code < 0xE000 then none else (text? rest).map (Char.ofNat code :: ·)

/-- The value of a hexadecimal digit. -/
def hexDigit? (c : Char) : Option Nat :=
  if '0' ≤ c && c ≤ '9' then some (c.toNat - 48)
  else if 'a' ≤ c && c ≤ 'f' then some (c.toNat - 87)
  else if 'A' ≤ c && c ≤ 'F' then some (c.toNat - 55)
  else none

/-- The character of a one-letter escape. -/
def escaped? : Char → Option Char
  | '"' => some '"'
  | '\\' => some '\\'
  | '/' => some '/'
  | 'b' => some '\x08'
  | 'f' => some '\x0c'
  | 'n' => some '\n'
  | 'r' => some '\r'
  | 't' => some '\t'
  | _ => none

/-! ## Numerals -/

/-- The digits of a numeral as numbers. -/
def digitValues (digits : List Char) : List Nat :=
  digits.map fun c => c.toNat - 48

/-- A numeral, taken apart. -/
structure Numeral where
  negative : Bool
  whole : List Char
  fraction : Option (List Char)
  /-- Sign and digits of the exponent, if there is one; `true` is a minus sign. -/
  exponent : Option (Bool × List Char)

/-- Digits before the point: a single zero, or a run that does not start with zero. -/
def wholeOk : List Char → Bool
  | [] => false
  | ['0'] => true
  | c :: _ => c != '0'

/-- Reads an exponent part, which starts after the letter. -/
def exponentPart? (s : List Char) : Option (Bool × List Char) :=
  let (minus, digits) := match s with
    | '-' :: rest => (true, rest)
    | '+' :: rest => (false, rest)
    | _ => (false, s)
  if digits.isEmpty || !digits.all Char.isDigit then none else some (minus, digits)

/-- Takes a numeral apart; `none` if the text is no numeral. -/
def Numeral.ofText? (s : List Char) : Option Numeral :=
  let (negative, s) := match s with
    | '-' :: rest => (true, rest)
    | _ => (false, s)
  let whole := s.takeWhile Char.isDigit
  let s := s.dropWhile Char.isDigit
  if !wholeOk whole then none
  else
    let withExponent (fraction : Option (List Char)) (s : List Char) : Option Numeral :=
      match s with
      | [] => some ⟨negative, whole, fraction, none⟩
      | c :: rest =>
        if c == 'e' || c == 'E' then
          (exponentPart? rest).map fun e => ⟨negative, whole, fraction, some e⟩
        else none
    match s with
    | '.' :: rest =>
      let fraction := rest.takeWhile Char.isDigit
      if fraction.isEmpty then none else withExponent (some fraction) (rest.dropWhile Char.isDigit)
    | _ => withExponent none s

/-- The integer of a numeral without fraction and exponent, if it fits 64 bits. -/
def Numeral.int? (n : Numeral) : Option Int :=
  if n.fraction.isSome || n.exponent.isSome then none
  else
    let value := (digitValues n.whole).foldl (fun (v d : Nat) => v * 10 + d) 0
    if n.negative then if 0 < value && value ≤ Nat.pow 2 63 then some (-(value : Int)) else none
    else if value < Nat.pow 2 64 then some value else none

/-- The double of a numeral. An exponent beyond 31 bits gives zero, or no value if it is positive
and the digits are not all zero. -/
def Numeral.double? (n : Numeral) : Option Double :=
  let g := (Double.Gathered.whole ⟨0, 0⟩ (digitValues n.whole))
  let g := g.fraction (digitValues (n.fraction.getD []))
  let magnitude := match n.exponent with
    | none => g.value?
    | some (minus, digits) =>
      let e := (digitValues digits).foldl (fun (v d : Nat) => v * 10 + d) 0
      if Nat.pow 2 31 ≤ e then if g.digits == 0 || minus then some ⟨0⟩ else none
      else Double.Gathered.value? ⟨g.digits, if minus then g.exponent - e else g.exponent + e⟩
  magnitude.map fun d => if n.negative then d.negate else d

/-- The value of a numeral: an integer if it is written as one that fits, else a double. -/
def Numeral.value? (n : Numeral) : Option JsonNumber :=
  match n.int? with
  | some i => some (.int i)
  | none => n.double?.map .double

/-! ## The scanner -/

/-- Where the scanner stands. -/
inductive Scan where
  | idle
  /-- Inside a string, with its pieces so far, last first. -/
  | inString (pieces : List Piece)
  | inEscape (pieces : List Piece)
  /-- Inside a four-digit escape, with its value and the digits still missing. -/
  | inUnit (pieces : List Piece) (value missing : Nat)
  | inNumeral (chars : List Char)
  | inWord (chars : List Char)

/-- White space between tokens. -/
def isGap (c : Char) : Bool :=
  c == ' ' || c == '\n' || c == '\t' || c == '\r'

/-- Characters that can continue a numeral. -/
def isNumeralChar (c : Char) : Bool :=
  c.isDigit || c == '-' || c == '+' || c == '.' || c == 'e' || c == 'E'

/-- The token of a word. -/
def wordToken? (chars : List Char) : Option Token :=
  match String.ofList chars.reverse with
  | "null" => some (.word .null)
  | "true" => some (.word (.bool true))
  | "false" => some (.word (.bool false))
  | _ => none

/-- The token of a numeral. -/
def numeralToken? (chars : List Char) : Option Token :=
  (Numeral.ofText? chars.reverse).map fun n => .number n.value?

/-- The state after a character that starts a token, and the token if it is a single character. -/
def start? (c : Char) : Option (Scan × List Token) :=
  if isGap c then some (.idle, [])
  else match c with
  | '[' => some (.idle, [.openArray])
  | ']' => some (.idle, [.closeArray])
  | '\x7b' => some (.idle, [.openObject])
  | '\x7d' => some (.idle, [.closeObject])
  | ',' => some (.idle, [.comma])
  | ':' => some (.idle, [.colon])
  | '"' => some (.inString [], [])
  | _ =>
    if c.isDigit || c == '-' then some (.inNumeral [c], [])
    else if c.isLower then some (.inWord [c], [])
    else none

/-- One step of the scanner: the next state and the tokens that end before it. -/
def Scan.next? : Scan → Char → Option (Scan × List Token)
  | .idle, c => start? c
  | .inString pieces, c =>
    if c == '"' then some (.idle, [.string ((Piece.text? pieces.reverse).map String.ofList)])
    else if c == '\\' then some (.inEscape pieces, [])
    else if c.toNat < 0x20 then none
    else some (.inString (.char c :: pieces), [])
  | .inEscape pieces, c =>
    if c == 'u' then some (.inUnit pieces 0 4, [])
    else (escaped? c).map fun e => (.inString (.char e :: pieces), [])
  | .inUnit pieces value missing, c =>
    (hexDigit? c).map fun d =>
      if missing ≤ 1 then (.inString (.unit (value * 16 + d) :: pieces), [])
      else (.inUnit pieces (value * 16 + d) (missing - 1), [])
  | .inNumeral chars, c =>
    if isNumeralChar c then some (.inNumeral (c :: chars), [])
    else do
      let token ← numeralToken? chars
      let (state, tokens) ← start? c
      return (state, token :: tokens)
  | .inWord chars, c =>
    if c.isLower then some (.inWord (c :: chars), [])
    else do
      let token ← wordToken? chars
      let (state, tokens) ← start? c
      return (state, token :: tokens)

/-- The tokens that end with the text; `none` inside a string. -/
def Scan.finish? : Scan → Option (List Token)
  | .idle => some []
  | .inNumeral chars => (numeralToken? chars).map fun t => [t]
  | .inWord chars => (wordToken? chars).map fun t => [t]
  | _ => none

/-- Scans a text from a state on; the tokens found so far are given last first. -/
def Scan.run? (state : Scan) (found : List Token) : List Char → Option (List Token)
  | [] => state.finish?.map fun last => found.reverse ++ last
  | c :: rest =>
    match state.next? c with
    | none => none
    | some (state, tokens) => Scan.run? state (tokens.reverse ++ found) rest

/-- The tokens of a text. -/
def tokens? (s : String) : Option (List Token) :=
  Scan.run? .idle [] s.toList

end StreamQuery.Json
