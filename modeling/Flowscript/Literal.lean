import Flowscript.Value.Render

/-!
# Text literals of scripts

A script writes a text between single quotes, or between triple quotes if it holds a single quote
or a line feed. A text with a backslash is written raw. Single quotes at the very end, or just
before a final line feed, are escaped.
-/

namespace Flowscript.Literal

def cutEnd (cs : List Char) : List Char × List Char :=
  match cs.getLast? with
  | some '\n' => (cs.dropLast, ['\n'])
  | _ => (cs, [])

/-- A text cut into what precedes its last run of quotes, the run, and a final line feed. -/
def cutQuotes (cs : List Char) : List Char × List Char × List Char :=
  let body := (cutEnd cs).1
  let quotes := body.reverse.takeWhile (· == '\'')
  (body.take (body.length - quotes.length), quotes, (cutEnd cs).2)

def escapeEnd (cs : List Char) : List Char :=
  let cut := cutQuotes cs
  cut.1 ++ cut.2.1.flatMap (fun _ => ['\\', '\'']) ++ cut.2.2

def writeChars (cs : List Char) : List Char :=
  if cs.isEmpty then ['\'', '\'']
  else
    let mark := if cs.contains '\\' then ['r'] else []
    if !cs.contains '\n' && !cs.contains '\'' then mark ++ '\'' :: cs ++ ['\'']
    else mark ++ ['\'', '\'', '\''] ++ escapeEnd cs ++ ['\'', '\'', '\'']

def write (s : String) : String := String.ofList (writeChars s.toList)

/-- The expression of a value: the literal of a text, the text of anything else. -/
def ofValue (v : Value) : String :=
  match v with
  | .str s => write s
  | v => v.text

end Flowscript.Literal
