import Flowscript.Session.Queue

/-!
# Showing images

Images are shown in a notebook: a single image as it is, several ones in a grid. They may come as
images, as outputs or results that hold images, and in sequences of these.
-/

namespace Flowscript

structure GridLayout where
  rows : Value
  cols : Value
  height : Value
  width : Value
  options : List (String × Value)

def GridLayout.names : List String := ["rows", "cols", "height", "width"]

def GridLayout.ofArguments (arguments : List Value) (named own : List (String × Value)) :
    Except Fault GridLayout := do
  if names.length < arguments.length then .error .wrongKind
  let bound := names.zip arguments
  if named.any fun (k, _) => Value.hasKey k bound then .error .wrongKind
  let all := bound ++ named
  let choice (k : String) (otherwise : Value) : Value := (Value.lookup k all).getD otherwise
  let options := named.filter fun (k, _) => !names.contains k
  .ok ⟨choice "rows" (.int 1), choice "cols" .null, choice "height" .null, choice "width" .null,
    own ++ options⟩

namespace Value

def mulNumbers : Int ⊕ Binary64 → Int ⊕ Binary64 → Value
  | .inl a, .inl b => int (a * b)
  | .inl a, .inr y => float ((Binary64.ofInt a).mul y)
  | .inr x, .inl b => float (x.mul (Binary64.ofInt b))
  | .inr x, .inr y => float (x.mul y)

def mul (v w : Value) : Except Fault Value :=
  match v.number?, w.number? with
  | some x, some y => .ok (mulNumbers x y)
  | _, _ => .error .wrongKind

def toBinary : Int ⊕ Binary64 → Binary64
  | .inl a => Binary64.ofInt a
  | .inr x => x

def divNumbers : Int ⊕ Binary64 → Int ⊕ Binary64 → Binary64
  | .inl a, .inl b => Binary64.ofRatio (decide (a < 0) != decide (b < 0)) a.natAbs b.natAbs
  | x, y => (toBinary x).div (toBinary y)

def div (v w : Value) : Except Fault Value :=
  match v.number?, w.number? with
  | some x, some y =>
    if sameNumber y (.inl 0) then .error .divisionByZero else .ok (float (divNumbers x y))
  | _, _ => .error .wrongKind

def ceiling (v : Value) : Except Fault Value :=
  match v with
  | float x => match x.ceiling? with
    | some n => .ok (int n)
    | none => .error (if x.place?.isNone then .badValue else .overflow)
  | v => match v.index? with
    | some n => .ok (int n)
    | none => .error .wrongKind

def loopCount (v : Value) : Except Fault Nat :=
  match v.index? with
  | some n => .ok n.toNat
  | none => .error .wrongKind

end Value

def gridStyle : String :=
  "<style>\n.cell-output-ipywidget-background \x7b\nbackground-color: transparent !important;\n" ++
    "\x7d\n:root \x7b\n--jp-widgets-color: var(--vscode-editor-foreground);\n" ++
    "--jp-widgets-font-size: var(--vscode-editor-font-size);\n\x7d\n.comfy-script-image \x7b\n" ++
    "padding: 2px;\n\x7d</style>"

def imageClass : String := "comfy-script-image"

def notImage : Value → Bool
  | .image .. => false
  | _ => true

def imageSize : Value → Except Fault (Nat × Nat)
  | .image w h => .ok (w, h)
  | _ => .error .missingField

def gridSize (count : Nat) (l : GridLayout) : Except Fault (Value × Value) := do
  match l.rows, l.cols with
  | .null, cols => .ok (← (← Value.div (.int count) cols).ceiling, cols)
  | rows, .null => .ok (rows, ← (← Value.div (.int count) rows).ceiling)
  | rows, cols => .ok (rows, cols)

def extent (size count : Value) : Except Fault Value := do
  .ok (.str ((← Value.mul (← Value.add size (.int 2)) count).text ++ "px"))

def imageWidth (first : Value) (l : GridLayout) : Except Fault Value := do
  match l.height, l.width with
  | .null, width => .ok width
  | height, .null =>
    let (w, h) ← imageSize first
    .ok (.int (← (← Value.div (← Value.mul height (.int w)) (.int h)).whole))
  | _, width => .ok width

def gridOptions (l : GridLayout) (rows cols width : Value) :
    Except Fault (List (String × Value)) := do
  let options ← match l.height with
    | .null => pure l.options
    | height => do pure (Value.put "height" (← extent height rows) l.options)
  match width with
  | .null => .ok options
  | width => .ok (Value.put "width" (← extent width cols) options)

def cell (titles : Value) (options : List (String × Value)) (image : Value) (k : Nat) :
    Except Fault Widget := do
  if notImage image then .error .missingField
  let picture := Widget.picture image options imageClass
  match titles with
  | .null => .ok picture
  | titles => .ok (.box [picture, .label (← titles.item (.int k))])

def cells (images : List Value) (titles : Value) (options : List (String × Value))
    (rows cols : Nat) : Except Fault (List (Nat × Nat × Widget)) := do
  let places := (List.range rows).flatMap fun i => (List.range cols).map fun j => (i, j)
  let found ← places.mapM fun (i, j) => do
    match images[i * cols + j]? with
    | none => .ok none
    | some image => .ok (some (i, j, ← cell titles options image (i * cols + j)))
  .ok (found.filterMap id)

def grid (images : List Value) (titles : Value) (l : GridLayout) : Except Fault Widget := do
  let (rows, cols) ← gridSize images.length l
  let width ← imageWidth (images.headD .null) l
  let options ← gridOptions l rows cols width
  let setting (k : String) : Value → List (String × Value)
    | .null => []
    | v => [(k, v)]
  let rowCount ← rows.loopCount
  let colCount ← if rowCount = 0 then .ok 0 else cols.loopCount
  let cells ← cells images titles (setting "height" l.height ++ setting "width" width) rowCount colCount
  .ok (.box [.html gridStyle, .grid rows cols options cells])

namespace SessionM

variable {κ : Type}

/-- What a request for an image says of it; nothing is said of an image that is null. -/
def imageParameters : Value → Option Value
  | .null => none
  | v => some v

def fetchImage (image : Value) : SessionM κ Value := do
  let r ← request "GET" "view" (imageParameters image) none
  if r.succeeded then
    match r.content with
    | .image w h => return .image w h
    | .bytes => throw .unknownImage
  else
    printLine ("ComfyScript: Failed to get image: " ++ r.describe)
    return .null

def fetchImages (output : Value) : SessionM κ (List Value) := do
  (← check (← check (output.entry "images")).iterate).mapM fetchImage

def flattenLeaf (v : Value) : SessionM κ (List Value) := do
  match v with
  | .image .. => return [v]
  | .result .images output => fetchImages output
  | v => match v.text? with
    | some s => if s.isEmpty then return [] else throw .endless
    | none => match v with
      | .dict [] => return []
      | .dict (("", _) :: rest) => if rest.isEmpty then return [] else throw .endless
      | .dict _ => throw .endless
      | v => throw (.badImage v)

mutual

def flatten : Value → SessionM κ (List Value)
  | .list items | .tuple items => flattenAll items
  | .output o t i c ct ins s => do
    let result ← waitOutput (.output o t i c ct ins s) (.str "<caller source>")
    flattenLeaf result
  | v => flattenLeaf v

def flattenAll : List Value → SessionM κ (List Value)
  | [] => return []
  | v :: rest => do
    let first ← flatten v
    return first ++ (← flattenAll rest)

end

def display (objects : List Widget) (options : List (String × Value)) : SessionM κ Unit :=
  emit (.display objects options)

def needNotebook : SessionM κ Unit := do
  if !(← get).hasNotebook then throw .moduleNotFound

def isPlain (titles : Value) (l : GridLayout) : Bool :=
  match l.height, l.width, titles with
  | .null, .null, .null => true
  | _, _, _ => false

def showImages (images : List Value) (titles : Value) (l : GridLayout) : SessionM κ Unit := do
  if images.isEmpty then return
  needNotebook
  let plain := isPlain titles l
  if plain && images.length == 1 then display (images.map .value) []
  else if plain && l.cols == .int 1 then display (images.map .value) []
  else display [← check (grid images titles l)] []

def plainLayout : GridLayout := ⟨.int 1, .null, .null, .null, []⟩

inductive ViewerCall where
  | display
  | awaited
  | notebook

def viewerLayout (call : ViewerCall) (arguments : List Value) (named : List (String × Value)) :
    Except Fault GridLayout :=
  let isTitles (entry : String × Value) : Bool := entry.1 == "titles"
  match call with
  | .awaited => GridLayout.ofArguments arguments named []
  | .notebook => GridLayout.ofArguments [] [] [("titles", .null)]
  | .display => GridLayout.ofArguments arguments (named.filter (!isTitles ·))
      [("titles", (Value.lookup "titles" named).getD .null)]

def viewer (images titles : Value) : Value := .record [("images", images), ("titles", titles)]

def view (name : String) (v : Value) (call : ViewerCall) (arguments : List Value)
    (named : List (String × Value)) : SessionM κ Unit := do
  let layout ← check (viewerLayout call arguments named)
  match v with
  | .record [(_, images), (_, titles)] =>
    let found ← flatten images
    keep name (viewer (.list found) titles)
    showImages found titles layout
  | _ => throw .missingField

def showResult (result : Value) : SessionM κ Unit := do
  match result with
  | .result .images output => showImages (← fetchImages output) .null plainLayout
  | result => display [.value result] []

end SessionM

end Flowscript
