import RecordQuery.Json.Fault

/-! # Reading strings

A string runs to the first quotation mark that no backslash precedes. An escape by code unit outside of the basic plane is a
pair of surrogates, and half a pair is no character. -/

namespace RecordQuery.Json

/-- The value of a hexadecimal digit. -/
def hexValue? (c : Char) : Option Nat :=
  if '0' ≤ c ∧ c ≤ '9' then some (c.toNat - '0'.toNat)
  else if 'a' ≤ c ∧ c ≤ 'f' then some (c.toNat - 'a'.toNat + 10)
  else if 'A' ≤ c ∧ c ≤ 'F' then some (c.toNat - 'A'.toNat + 10)
  else none

/-- The code unit that four hexadecimal digits denote. The next four bytes are taken for them. -/
def readCodeUnit (cs : List Char) : Reading Nat :=
  match (cs.take 4).mapM hexValue? with
  | some [a, b, c, d] => .ok (((a * 16 + b) * 16 + c) * 16 + d, cs.drop 4)
  | _ => .error (if byteCount cs < 4 then ⟨.endInString, 0⟩ else ⟨.invalidEscape, byteCount cs - 4⟩)

/-- Whether a code unit is the first half of a pair. -/
def isHighSurrogate (n : Nat) : Bool := 0xD800 ≤ n && n ≤ 0xDBFF

/-- Whether a code unit is the second half of a pair. -/
def isLowSurrogate (n : Nat) : Bool := 0xDC00 ≤ n && n ≤ 0xDFFF

/-- The character of an escape by code unit, read after its `u`. -/
def readUnicodeEscape (cs : List Char) : Reading Char :=
  match readCodeUnit cs with
  | .error e => .error e
  | .ok (high, rest) =>
    if isLowSurrogate high then .error (.before .loneSurrogate rest)
    else if !isHighSurrogate high then .ok (Char.ofNat high, rest)
    else
      match rest with
      | '\\' :: 'u' :: more =>
        match readCodeUnit more with
        | .error e => .error e
        | .ok (low, rest) =>
          if isLowSurrogate low then .ok (Char.ofNat (0x10000 + (high - 0xD800) * 0x400 + (low - 0xDC00)), rest)
          else .error (.before .loneSurrogate rest)
      | [] | ['\\'] => .error ⟨.endInString, 0⟩
      | '\\' :: more => .error (.upon .unpairedEscape more)
      | rest => .error (.upon .unpairedEscape rest)

/-- The character of an escape, read after its backslash. -/
def readEscape : List Char → Reading Char
  | [] => .error (.before .endInString [])
  | c :: cs =>
    match c with
    | '"' => .ok ('"', cs)
    | '\\' => .ok ('\\', cs)
    | '/' => .ok ('/', cs)
    | 'b' => .ok ('\x08', cs)
    | 'f' => .ok ('\x0c', cs)
    | 'n' => .ok ('\n', cs)
    | 'r' => .ok ('\r', cs)
    | 't' => .ok ('\t', cs)
    | 'u' => readUnicodeEscape cs
    | _ => .error (.upon .invalidEscape (c :: cs))

/-- The characters of a string after those in `seen`, the last of which comes first. Each step takes a character or more of
the text, so as many steps as the text has characters are enough. -/
def readStringFrom (seen : List Char) : Nat → List Char → Reading (List Char)
  | 0, cs => .error (.before .endInString cs)
  | _ + 1, [] => .error (.before .endInString [])
  | k + 1, c :: cs =>
    if c = '"' then .ok (seen.reverse, cs)
    else if c = '\\' then
      match readEscape cs with
      | .error e => .error e
      | .ok (d, rest) => readStringFrom (d :: seen) k rest
    else if c.toNat < 0x20 then .error (.upon .controlCharacter (c :: cs))
    else readStringFrom (c :: seen) k cs

/-- A string of at most `bound` characters, read after its opening quotation mark. -/
def readString (bound : Nat) (cs : List Char) : Reading String :=
  match readStringFrom [] (bound + 1) cs with
  | .error e => .error e
  | .ok (s, rest) => .ok (String.ofList s, rest)

end RecordQuery.Json
