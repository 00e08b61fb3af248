/-
JSON values with the writer and the reader of a language whose integers are unbounded.
Floating-point numbers are a parameter with their written form and its reading.
-/
import QhpcEcosystem.JsonText
import Mathlib.Data.List.Sort
import Mathlib.Data.List.TakeWhile

namespace QhpcEcosystem

universe u

/-! ## Numbers -/

/-- What the number scanner finds: an integer, or a literal with a fraction or an exponent. -/
inductive NumberToken where
  | int (negative : Bool) (digits : List Char)
  | float (text : List Char)
deriving DecidableEq, Repr

def scanWhole : List Char → Option (List Char × List Char)
  | [] => none
  | c :: rest =>
      if c = '0' then some ([c], rest)
      else if c.isDigit then some (c :: rest.takeWhile Char.isDigit, rest.dropWhile Char.isDigit)
      else none

/-- A point with digits behind it. -/
def scanFraction (text : List Char) : List Char × List Char :=
  match text with
  | [] => ([], [])
  | c :: rest =>
      let digits := rest.takeWhile Char.isDigit
      if c = '.' ∧ digits ≠ [] then (c :: digits, rest.dropWhile Char.isDigit)
      else ([], c :: rest)

/-- A sign of an exponent. -/
def scanSign (text : List Char) : List Char × List Char :=
  match text with
  | [] => ([], [])
  | c :: rest => if c = '+' ∨ c = '-' then ([c], rest) else ([], c :: rest)

/-- An `e` with digits behind it or behind its sign. -/
def scanExponent (text : List Char) : List Char × List Char :=
  match text with
  | [] => ([], [])
  | e :: rest =>
      let signed := scanSign rest
      let digits := signed.2.takeWhile Char.isDigit
      if (e = 'e' ∨ e = 'E') ∧ digits ≠ [] then
        (e :: signed.1 ++ digits, signed.2.dropWhile Char.isDigit)
      else ([], e :: rest)

def scanUnsigned (negative : Bool) (text : List Char) : Option (NumberToken × List Char) :=
  (scanWhole text).map fun whole =>
    let fraction := scanFraction whole.2
    let exponent := scanExponent fraction.2
    if fraction.1 = [] ∧ exponent.1 = [] then (.int negative whole.1, exponent.2)
    else (.float ((if negative then ['-'] else []) ++ whole.1 ++ fraction.1 ++ exponent.1),
      exponent.2)

/-- The longest number at the start of a text. -/
def scanNumber : List Char → Option (NumberToken × List Char)
  | [] => none
  | c :: rest => if c = '-' then scanUnsigned true rest else scanUnsigned false (c :: rest)

/-- What `float` gives: a number of the format, or one of the values that are not finite. -/
inductive JsonFloat (F : Type u) where
  | finite (value : F)
  | nan
  | infinity
  | negativeInfinity
deriving DecidableEq, Repr

/-- The finite numbers with `repr` and `float`.  A written number is a literal with a fraction
or an exponent, and reading it gives the number back. -/
structure FloatFormat (F : Type u) where
  repr : F → List Char
  parse : List Char → JsonFloat F
  scan_repr : ∀ x, scanNumber (repr x) = some (.float (repr x), [])
  parse_repr : ∀ x, parse (repr x) = .finite x

/-! ## Values -/

/-- A value; the members of an object stand in the order of insertion. -/
inductive Json (F : Type u) where
  | null
  | bool (value : Bool)
  | int (value : Int)
  | float (value : JsonFloat F)
  | str (text : JsonText)
  | arr (items : List (Json F))
  | obj (members : List (JsonText × Json F))

variable {F : Type u}

mutual

/-- The objects inside have distinct names. -/
def Json.Distinct : Json F → Prop
  | .arr items => Json.DistinctItems items
  | .obj members => (members.map Prod.fst).Nodup ∧ Json.DistinctMembers members
  | _ => True

def Json.DistinctItems : List (Json F) → Prop
  | [] => True
  | value :: rest => value.Distinct ∧ Json.DistinctItems rest

def Json.DistinctMembers : List (JsonText × Json F) → Prop
  | [] => True
  | (_, value) :: rest => value.Distinct ∧ Json.DistinctMembers rest

end

/-- The order of names in which `sort_keys` puts members. -/
def memberLe (a b : JsonText × Json F) : Bool := JsonText.le a.1 b.1

mutual

/-- The value with the members of all its objects sorted. -/
def Json.sorted : Json F → Json F
  | .arr items => .arr (Json.sortedItems items)
  | .obj members =>
      .obj ((Json.sortedMembers members).insertionSort fun a b => memberLe a b = true)
  | .null => .null
  | .bool value => .bool value
  | .int value => .int value
  | .float value => .float value
  | .str text => .str text

def Json.sortedItems : List (Json F) → List (Json F)
  | [] => []
  | value :: rest => value.sorted :: Json.sortedItems rest

def Json.sortedMembers : List (JsonText × Json F) → List (JsonText × Json F)
  | [] => []
  | (name, value) :: rest => (name, value.sorted) :: Json.sortedMembers rest

end

/-! ## Writing -/

/-- The whitespace of JSON. -/
def isBlank (c : Char) : Bool := c = ' ' || c = '\t' || c = '\n' || c = '\r'

/-- What stands behind a comma or a colon. -/
structure JsonStyle where
  gap : List Char
  blank : gap.all isBlank = true

/-- `separators=(",", ":")`. -/
def JsonStyle.compact : JsonStyle where
  gap := []
  blank := rfl

/-- The separators when none are given. -/
def JsonStyle.spaced : JsonStyle where
  gap := [' ']
  blank := rfl

def writeInt (value : Int) : List Char :=
  (if value < 0 then ['-'] else []) ++ Nat.toDigits 10 value.natAbs

def FloatFormat.write (format : FloatFormat F) : JsonFloat F → List Char
  | .finite value => format.repr value
  | .nan => "NaN".toList
  | .infinity => "Infinity".toList
  | .negativeInfinity => "-Infinity".toList

section Write

variable (format : FloatFormat F) (style : JsonStyle)

def writeName (name : JsonText) : List Char :=
  '"' :: JsonText.write name ++ ':' :: style.gap

mutual

/-- The written form of a value whose members stay in their order. -/
def Json.write : Json F → List Char
  | .null => "null".toList
  | .bool true => "true".toList
  | .bool false => "false".toList
  | .int value => writeInt value
  | .float value => format.write value
  | .str text => '"' :: JsonText.write text
  | .arr [] => "[]".toList
  | .arr (value :: rest) => '[' :: (value.write ++ Json.writeItems rest)
  | .obj [] => "{}".toList
  | .obj ((name, value) :: rest) =>
      '{' :: (writeName style name ++ (value.write ++ Json.writeMembers rest))

/-- The items behind the first one, to the closing bracket. -/
def Json.writeItems : List (Json F) → List Char
  | [] => [']']
  | value :: rest => ',' :: (style.gap ++ (value.write ++ Json.writeItems rest))

def Json.writeMembers : List (JsonText × Json F) → List Char
  | [] => ['}']
  | (name, value) :: rest =>
      ',' :: (style.gap ++ (writeName style name ++ (value.write ++ Json.writeMembers rest)))

end

/-- `json.dumps` with `sort_keys=True`. -/
def Json.dumps (value : Json F) : List Char := value.sorted.write format style

end Write

/-! ## Reading -/

def skipBlank (text : List Char) : List Char := text.dropWhile isBlank

/-- What follows a word at the start of a text. -/
def stripWord (word text : List Char) : Option (List Char) :=
  if word.isPrefixOf text then some (text.drop word.length) else none

def Json.words : List (List Char × Json F) :=
  [("null".toList, .null), ("true".toList, .bool true), ("false".toList, .bool false),
    ("NaN".toList, .float .nan), ("Infinity".toList, .float .infinity),
    ("-Infinity".toList, .float .negativeInfinity)]

def readWord (text : List Char) : Option (Json F × List Char) :=
  Json.words.findSome? fun word => (stripWord word.1 text).map fun rest => (word.2, rest)

def NumberToken.value (format : FloatFormat F) : NumberToken → Json F
  | .int negative digits =>
      .int (if negative then -(Nat.ofDigitChars 10 digits 0 : Int) else Nat.ofDigitChars 10 digits 0)
  | .float text => .float (format.parse text)

/-- Set a member: in place when the name is there, at the end otherwise. -/
def setMember (members : List (JsonText × Json F)) (name : JsonText) (value : Json F) :
    List (JsonText × Json F) :=
  if name ∈ members.map Prod.fst then
    members.map fun member => if member.1 = name then (name, value) else member
  else members ++ [(name, value)]

section Read

variable (format : FloatFormat F)

/-- A character that must come next. -/
def expect (c : Char) : List Char → Option (List Char)
  | [] => none
  | d :: rest => if d = c then some rest else none

/-- A name with its colon. -/
def readName (text : List Char) : Option (JsonText × List Char) := do
  let text ← expect '"' text
  let (name, rest) ← JsonText.read text
  let rest ← expect ':' (skipBlank rest)
  return (name, skipBlank rest)

mutual

/-- A value at the start of a text, and what follows it.  The number bounds the calls. -/
def readValue : Nat → List Char → Option (Json F × List Char)
  | 0, _ => none
  | _ + 1, [] => none
  | fuel + 1, c :: rest =>
      if c = '"' then (JsonText.read rest).map fun found => (.str found.1, found.2)
      else if c = '[' then
        match expect ']' (skipBlank rest) with
        | some rest => some (.arr [], rest)
        | none => (readItems fuel (skipBlank rest)).map fun found => (.arr found.1, found.2)
      else if c = '{' then
        match expect '}' (skipBlank rest) with
        | some rest => some (.obj [], rest)
        | none => (readMembers fuel [] (skipBlank rest)).map fun found => (.obj found.1, found.2)
      else match readWord (c :: rest) with
        | some found => some found
        | none => (scanNumber (c :: rest)).map fun found => (found.1.value format, found.2)

/-- One item or more, to the closing bracket. -/
def readItems : Nat → List Char → Option (List (Json F) × List Char)
  | 0, _ => none
  | fuel + 1, text =>
      (readValue fuel text).bind fun (value, rest) =>
        match expect ',' (skipBlank rest) with
        | some rest => (readItems fuel (skipBlank rest)).map fun found =>
            (value :: found.1, found.2)
        | none => (expect ']' (skipBlank rest)).map fun rest => ([value], rest)

/-- One member or more, to the closing brace. -/
def readMembers : Nat → List (JsonText × Json F) → List Char →
    Option (List (JsonText × Json F) × List Char)
  | 0, _, _ => none
  | fuel + 1, members, text =>
      (readName text).bind fun (name, rest) =>
        (readValue fuel rest).bind fun (value, rest) =>
          match expect ',' (skipBlank rest) with
          | some rest => readMembers fuel (setMember members name value) (skipBlank rest)
          | none => (expect '}' (skipBlank rest)).map fun rest =>
              (setMember members name value, rest)

end

/-- `json.loads`; `none` when it raises. -/
def Json.loads (text : List Char) : Option (Json F) :=
  (readValue format (2 * text.length) (skipBlank text)).bind fun (value, rest) =>
    if skipBlank rest = [] then some value else none

end Read

end QhpcEcosystem
