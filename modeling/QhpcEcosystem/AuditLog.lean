/-
The audit log.  Every line of the file is the JSON form of one event, with the digest of the
event before it and a digest of its own; the digest is taken over the previous digest and a
second JSON form of the event, which `verify` makes again of what it has loaded.
-/
import QhpcEcosystem.JsonMembers
import QhpcEcosystem.TextLines

namespace QhpcEcosystem

universe u

/-! ## Lines -/

/-- The lines that are not blank. -/
def auditLines (text : List Char) : List (List Char) :=
  (splitLines (universalNewlines text)).filter fun line => !line.all isSpace

/-! ## Events -/

/-- A dictionary that JSON can write. -/
structure JsonObject (F : Type u) where
  members : List (JsonText × Json F)
  distinct : DistinctObject members

/-- What a caller of `append` gives, and the time. -/
structure AuditEntry (F : Type u) where
  timestamp : JsonText
  actor : JsonText
  action : JsonText
  resource : JsonText
  outcome : JsonText
  details : JsonObject F

section Log

variable {F : Type u}

def digestName : JsonText := JsonText.ofString "digest"

def previousName : JsonText := JsonText.ofString "previous_digest"

/-- The event without its digest. -/
def AuditEntry.body (entry : AuditEntry F) (previous : List Char) : List (JsonText × Json F) :=
  [(JsonText.ofString "timestamp", .str entry.timestamp),
    (JsonText.ofString "actor", .str entry.actor),
    (JsonText.ofString "action", .str entry.action),
    (JsonText.ofString "resource", .str entry.resource),
    (JsonText.ofString "outcome", .str entry.outcome),
    (JsonText.ofString "details", .obj entry.details.members),
    (previousName, .str (JsonText.ofChars previous))]

/-- `"sha256:" + "0" * 64`. -/
def zeroDigest : List Char := "sha256:".toList ++ List.replicate 64 '0'

/-- `encode("ascii")`. -/
def JsonText.ascii? (text : JsonText) : Option (List Char) :=
  if text.all fun unit => unit.toNat < 0x80 then some (text.map fun unit => Char.ofNat unit.toNat)
  else none

-- `hexdigest` is that of SHA-256 over the UTF-8 form of a text
variable (format : FloatFormat F) (hexdigest : List Char → List Char)

/-- `_canonical`. -/
def canonical (members : List (JsonText × Json F)) : List Char :=
  (Json.obj members).dumps format .compact

def eventDigest (previous : List Char) (members : List (JsonText × Json F)) : List Char :=
  "sha256:".toList ++ hexdigest (previous ++ canonical format members)

/-- The line that `append` writes, without its line break. -/
def auditLine (previous : List Char) (entry : AuditEntry F) : List Char :=
  let body := entry.body previous
  let digest := Json.str (JsonText.ofChars (eventDigest format hexdigest previous body))
  (Json.obj (body ++ [(digestName, digest)])).dumps format .spaced

/-- The digest of the last event. -/
def lastDigest (text : List Char) : Option (List Char) :=
  match (auditLines text).getLast? with
  | none => some zeroDigest
  | some line =>
      match Json.loads format line with
      | some (.obj members) =>
          match member? members digestName with
          | some (.str digest) => digest.ascii?
          | _ => none
      | _ => none

def appendEvent (text : List Char) (entry : AuditEntry F) : Option (List Char) :=
  (lastDigest format text).map fun previous =>
    text ++ auditLine format hexdigest previous entry ++ ['\n']

/-- One round of the loop of `verify`: the digest of the event, unless the check raises. -/
def verifyLine (previous line : List Char) : Option (List Char) :=
  match Json.loads format line with
  | some (.obj members) =>
      let event := popMember members digestName
      let expected := eventDigest format hexdigest previous event
      if (member? members digestName).any (Json.isText (JsonText.ofChars expected)) &&
          (member? event previousName).any (Json.isText (JsonText.ofChars previous)) then
        some expected
      else none
  | _ => none

/-- The loop of `verify` with its two variables. -/
def verifyLines : List (List Char) → List Char × Nat → Option (List Char × Nat)
  | [], state => some state
  | line :: lines, (previous, count) =>
      (verifyLine format hexdigest previous line).bind fun digest =>
        verifyLines lines (digest, count + 1)

/-- `AuditLog.verify`; `none` when it raises. -/
def verifyLog (text : List Char) : Option Nat :=
  (verifyLines format hexdigest (auditLines text) (zeroDigest, 0)).map Prod.snd

/-- The events of a file, with their digests. -/
def auditEvents (text : List Char) : Option (List (Json F)) :=
  (auditLines text).mapM (Json.loads format)

end Log

end QhpcEcosystem
