import Flowscript.Fault
import Flowscript.Text.Blank
import Flowscript.Text.Case
import Flowscript.Text.IdentifierTable

/-!
# Identifiers

Arbitrary names become identifiers of the script language. A raw identifier keeps the letters of
the name; the other kinds change its case to what is usual for modules, variables, classes and
constants.
-/

namespace Flowscript.Identifier

def isStart (c : Char) : Bool :=
  if Text.isAscii c then Text.isAsciiLetter c || c == '_'
  else Text.inSpans Text.identifierStartSpans c

def isContinue (c : Char) : Bool :=
  isStart c ||
    (if Text.isAscii c then Text.isAsciiDigit c else Text.inSpans Text.identifierExtraSpans c)

def isValid : List Char → Bool
  | [] => false
  | c :: rest => isStart c && rest.all isContinue

def keywords : List String := [
  "False", "None", "True", "and", "as", "assert", "async", "await", "break", "class", "continue",
  "def", "del", "elif", "else", "except", "finally", "for", "from", "global", "if", "import", "in",
  "is", "lambda", "nonlocal", "not", "or", "pass", "raise", "return", "try", "while", "with",
  "yield"]

def isKeyword (s : String) : Bool := keywords.contains s

def blot (allowed : Char → Bool) (cs : List Char) : List Char :=
  cs.map fun c => if allowed c then c else '_'

/-- An underscore in front of a text that does not begin as `start` asks. -/
def guardStart (start : Char → Bool) : List Char → List Char
  | [] => []
  | c :: rest => if start c then c :: rest else '_' :: c :: rest

def collapse : List Char → List Char
  | [] => []
  | '_' :: rest => match collapse rest with
    | '_' :: rest => '_' :: rest
    | rest => '_' :: rest
  | c :: rest => c :: collapse rest

def stripEnd (cs : List Char) : List Char := (cs.reverse.dropWhile (· == '_')).reverse

def isAsciiWord (c : Char) : Bool :=
  Text.isAsciiLetter c || Text.isAsciiDigit c || c == '_'

def fit (cs : List Char) : List Char :=
  if cs.all Text.isAscii then
    guardStart (fun c => !Text.isAsciiDigit c) (blot isAsciiWord cs)
  else guardStart isStart (blot isContinue cs)

def avoidKeyword (s : String) : String := if isKeyword s then s ++ "_" else s

def raw (s : String) : String :=
  match Text.trimLeft s.toList with
  | [] => "_"
  | cs => match stripEnd (collapse (fit cs)) with
    | [] => "_"
    | cs => avoidKeyword (String.ofList cs)

def splitWords : List Char → List Char
  | a :: b :: rest =>
    if Text.isAsciiLower a && Text.isAsciiUpper b then a :: '_' :: splitWords (b :: rest)
    else a :: splitWords (b :: rest)
  | cs => cs

def toLower (id : String) : String := Text.lower (String.ofList (splitWords id.toList))

def toUpper (id : String) : String := Text.upper (String.ofList (splitWords id.toList))

/-- An underscore before an ASCII letter makes the letter a capital. -/
def joinWords : List Char → List Char
  | '_' :: c :: rest =>
    if Text.isAsciiLetter c then Text.upperChar c ++ joinWords rest else '_' :: joinWords (c :: rest)
  | c :: rest => c :: joinWords rest
  | [] => []

/-- Words with a capital letter each; there is none for the empty text. -/
def toCamel (id : String) : Except Fault String :=
  let id := if Text.isUpper id.toList then Text.lower id else id
  match id.toList with
  | [] => .error .outOfRange
  | c :: rest => .ok (String.ofList (joinWords (Text.upperChar c ++ rest)))

def moduleId (s : String) : String := toLower (raw s)

def functionId (s : String) : String := toLower (raw s)

/-- The identifier of a name as a variable; a lone `i` is too easily mistaken. -/
def variableId (s : String) : String :=
  let id := toLower (raw s)
  if id == "i" then "L" else id

/-- The identifier of a name as a class; a raw identifier is never empty. -/
def classId (s : String) : String := (toCamel (raw s)).toOption.getD ""

def constantId (s : String) : String := toUpper (raw s)

def nameOf (v : Value) : Except Fault String :=
  match v.text? with
  | some s => .ok s
  | none => .error (.notText v)

/-- A name that an enumeration keeps for itself: one underscore at each end, none beside them. -/
def isReserved (cs : List Char) : Bool :=
  decide (2 < cs.length) && cs.head? == some '_' && cs.getLast? == some '_' &&
    (cs.drop 1).head? != some '_' && (cs.dropLast).getLast? != some '_'

end Flowscript.Identifier
