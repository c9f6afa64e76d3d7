import AccessibleMarkup.Audit.IssueKind
import AccessibleMarkup.Json.Literal
import AccessibleMarkup.Level
import AccessibleMarkup.Markup.Location
import AccessibleMarkup.Text.Utf8

/-!
Why an operation of this library does not succeed. A failure is a cause; its wording is a function
of the cause. Some failures say something about accessibility, the others about the input itself.
-/
namespace AccessibleMarkup

open AccessibleMarkup.Markup
open AccessibleMarkup.Text

inductive ConfigFault where
  /-- The conformance level is not one. -/
  | level (given : Json.Value)
  /-- Headings could never rise. -/
  | headingJump (given : Int)
  | described (problem : String)

def ConfigFault.message : ConfigFault → String
  | .level given => "wcag_level must be a WcagLevel, got " ++ String.ofList (Json.literal given)
  | .headingJump given => "max_heading_jump must be at least 1, got " ++ toString given
  | .described problem => problem

inductive FileFault where
  | missing
  /-- Something is looked for in a file as though that were a directory. -/
  | notDirectory
  | directory
  /-- The path, or a name in it, is longer than is accepted. -/
  | tooLong
  /-- The path holds the character that ends texts. -/
  | nullCharacter
  deriving DecidableEq

def inQuotes (text : String) : String :=
  String.ofList (quoted text.toList)

def FileFault.message (path : String) : FileFault → String
  | .missing => "[Errno 2] No such file or directory: " ++ inQuotes path
  | .notDirectory => "[Errno 20] Not a directory: " ++ inQuotes path
  | .directory => "[Errno 21] Is a directory: " ++ inQuotes path
  | .tooLong => "[Errno 36] File name too long: " ++ inQuotes path
  | .nullCharacter => "embedded null byte"

def utf8Reason : Utf8.Reason → String
  | .invalidStart => "invalid start byte"
  | .invalidContinuation => "invalid continuation byte"
  | .unexpectedEnd => "unexpected end of data"

/-- A fault in a byte sequence, in words. Positions count from zero. -/
def utf8Message (fault : Utf8.Fault) : String :=
  let place :=
    if fault.count = 1 then
      "byte 0x" ++ String.ofList (hexDigits 2 fault.byte.toNat) ++ " in position " ++
        toString fault.position
    else
      "bytes in position " ++ toString fault.position ++ "-" ++
        toString (fault.position + fault.count - 1)
  "'utf-8' codec can't decode " ++ place ++ ": " ++ utf8Reason fault.reason

/-- The lead of every message about text that is no markup. -/
def rejectionLead : String :=
  "The markup you provided was rejected by the parser. " ++
    "Trying a different parser or a different encoding may help.\n\n" ++
    "Original exception(s) from parser:\n AssertionError: "

def rejectionMessage : Rejection → String
  | .unknownSection name =>
    rejectionLead ++ "unknown status keyword " ++ String.ofList (quoted name) ++
      " in marked section"
  | .missingSectionName text =>
    rejectionLead ++ "expected name token at " ++ String.ofList (quoted text)
  | .overlongNumeral digits =>
    "Exceeds the limit (" ++ toString maxNumeralDigits ++
      " digits) for integer string conversion: value has " ++ toString digits ++
      " digits; use sys.set_int_max_str_digits() to increase the limit"

inductive Failure where
  /-- The text has more bytes than are accepted. -/
  | tooLarge (size limit : Int)
  /-- An ARIA attribute is not valid. -/
  | invalidAria (name detail : String)
  /-- A structural check failed. -/
  | violation (message : String) (guideline : Option String) (kind : Option IssueKind)
  | malformed (fault : Malformation)
  | configuration (fault : ConfigFault)
  /-- An accessibility failure of no special kind. -/
  | unspecified (message : String)
  | rejected (reason : Rejection)
  | unknownLevel (given : Json.Value)
  | unknownIssueKind (name : String)
  /-- An attribute was to be inserted into a text that begins no opening tag. -/
  | notAnOpenTag (text : List Char)
  /-- The text has no line of that number. -/
  | noSuchLine
  /-- A cut begins behind the end of the text. -/
  | outsideText
  /-- Values of these kinds do not compare. -/
  | incomparable (relation left right : String)
  | file (fault : FileFault) (path : String)
  /-- The path has no last name whose suffix could be replaced. -/
  | namelessPath (path : String)
  | undecodable (fault : Utf8.Fault)

namespace Failure

/-- The failure says something about accessibility: it is a verdict of this library and not a
fault of the environment. -/
def isAccessibility : Failure → Bool
  | .tooLarge _ _ | .invalidAria _ _ | .violation _ _ _ | .malformed _ | .configuration _
  | .unspecified _ => true
  | _ => false

def message : Failure → String
  | .tooLarge size limit =>
    "HTML input too large: size " ++ toString size ++ " exceeds maximum " ++ toString limit
  | .invalidAria name detail => "Invalid ARIA attribute '" ++ name ++ "': " ++ detail
  | .violation message _ _ => message
  | .malformed fault => "Malformed HTML: " ++ fault.problem
  | .configuration fault => fault.message
  | .unspecified message => message
  | .rejected reason => rejectionMessage reason
  | .unknownLevel given => String.ofList (Json.literal given) ++ " is not a valid WcagLevel"
  | .unknownIssueKind name => inQuotes name ++ " is not a valid IssueType"
  | .notAnOpenTag text => "Not an opening tag: " ++ String.ofList (quoted text)
  | .noSuchLine => "list index out of range"
  | .outsideText => "string index out of range"
  | .incomparable relation left right =>
    "'" ++ relation ++ "' not supported between instances of '" ++ left ++ "' and '" ++
      right ++ "'"
  | .file fault path => fault.message path
  | .namelessPath path => "PosixPath(" ++ inQuotes path ++ ") has an empty name"
  | .undecodable fault => utf8Message fault

/-- The failure of a tag that is not found. -/
def ofLocationFault : LocationFault → Failure
  | .malformed fault => .malformed fault
  | .noSuchLine => .noSuchLine

end Failure

/-- An outcome whose cause of failure is seen as a failure of this library. -/
def failWith (cause : ε → Failure) : Except ε α → Except Failure α
  | .ok value => .ok value
  | .error fault => .error (cause fault)

end AccessibleMarkup
