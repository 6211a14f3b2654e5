import EntityQuery.Toml.Number

/-!
# TOML documents

A document is a list of lines: a key with its value, a header, or a comment. Arrays may go over
several lines; tables in braces stay on one line and end without a comma.
-/

namespace EntityQuery.Toml

namespace Grammar

open Reader

/-- A character of a key that needs no quotes. -/
def isBareChar (c : Char) : Bool :=
  c.isAlphanum || c == '-' || c == '_'

def bareKey : Reader String :=
  (check (chars isBareChar) fun run => !run.isEmpty).convert fun run => some (String.ofList run)

def simpleKey : Reader String :=
  oneOf bareKey [basicString, literalString]

def spacedKey : Reader String := do
  spaces
  let key ← simpleKey
  spaces
  return key

/-- Keys have fewer parts than this, and so many values are never nested in each other. -/
def maxDepth : Nat := 80

/-- A dotted key: the names before its last dot, and the name after it. -/
def key : Reader (List String × String) :=
  (sepBy1 (exactly ".") spacedKey).convert fun names =>
    if names.length < maxDepth then names.getLast?.map (names.dropLast, ·) else none

def comment : Reader Unit := do
  exactly "#"
  let _ ← chars isPlain

def gap : Reader Unit := do
  let _ ← many <|
    oneOf (do
        comment
        lineBreak)
      [do let _ ← char isSpace, lineBreak]

/-! ## Values -/

def truth (word : String) (value : Bool) : Reader Toml := do
  exactly word
  return .boolean value

def scalar : Reader Toml :=
  oneOf number [do return .string (← quotedString), truth "true" true, truth "false" false]

/-- Values in brackets. A comma may follow the last one. -/
def array (nested : Reader Toml) : Reader Toml := do
  exactly "["
  let items ← optional do
    let items ← sepBy1 (exactly ",") do
      gap
      let value ← nested
      gap
      return value
    let _ ← (exactly ",").optional
    return items
  gap
  exactly "]"
  return .array (items.getD [])

def keyValue (nested : Reader Toml) : Reader ((List String × String) × Toml) := do
  let name ← key
  exactly "="
  spaces
  return (name, ← nested)

def tableOf? (pairs : List ((List String × String) × Toml)) : Option Toml := do
  let entries ← pairs.foldlM
    (fun entries ((path, name), value) => Entries.insert .header entries path name value) []
  return .table (Node.entriesToml entries)

def inlineTable (nested : Reader Toml) : Reader Toml :=
  (do
    exactly "\x7b"
    let pairs ← sepBy (exactly ",") do
      let pair ← keyValue nested
      spaces
      return pair
    spaces
    exactly "\x7d"
    return pairs : Reader (List ((List String × String) × Toml))).convert tableOf?

/-- A value with at most so many levels of values in it. -/
def valueWithin : Nat → Reader Toml
  | 0 => scalar
  | depth + 1 => oneOf scalar [array (valueWithin depth), inlineTable (valueWithin depth)]

def value : Reader Toml :=
  valueWithin (maxDepth - 1)

/-! ## Lines -/

inductive Line where
  | pair (path : List String) (name : String) (value : Toml)
  | header (path : List String) (name : String)
  /-- A header in double brackets. -/
  | nextHeader (path : List String) (name : String)
  | empty
  deriving Repr

def lineRest : Reader Unit := do
  spaces
  let _ ← comment.optional

def pairLine : Reader Line := do
  let ((path, name), value) ← keyValue value
  return .pair path name value

def headerLine : Reader Line := do
  exactly "["
  let (path, name) ← key
  exactly "]"
  return .header path name

def nextHeaderLine : Reader Line := do
  exactly "[["
  let (path, name) ← key
  exactly "]]"
  return .nextHeader path name

def line : Reader Line := do
  spaces
  let said ← (oneOf pairLine [nextHeaderLine, headerLine]).optional
  lineRest
  return said.getD .empty

def lines? (text : List Char) : Option (List Line) :=
  match sepBy1 lineBreak line text with
  | .ok (found, []) => some found
  | _ => none

/-- A document that is being read: its entries, and the header that keys belong to. -/
structure Draft where
  entries : Entries := []
  header : List String := []
  deriving Repr

def Draft.add (draft : Draft) : Line → Option Draft
  | .empty => some draft
  | .pair path name value => do
    let entries ← Entries.update .implied
      (fun origin entries => entries.insert origin path name value) .header draft.header draft.entries
    return { draft with entries }
  | .header path name => do
    let entries ← Entries.update .implied (Entries.openTable name) .header path draft.entries
    return ⟨entries, path ++ [name]⟩
  | .nextHeader path name => do
    let entries ← Entries.update .implied (Entries.openNext name) .header path draft.entries
    return ⟨entries, path ++ [name]⟩

/-- The text after the mark that some editors put in front of a file. -/
def withoutMark : List Char → List Char
  | c :: rest => if c.toNat = 0xfeff then rest else c :: rest
  | [] => []

end Grammar

def read? (text : String) : Option (List (String × Toml)) := do
  let lines ← Grammar.lines? (Grammar.withoutMark text.toList)
  let draft ← lines.foldlM Grammar.Draft.add {}
  return Node.entriesToml draft.entries

end EntityQuery.Toml
