/-!
JSON documents and their text, on one line or indented.
-/

namespace LeafPaths

/-- A document of the kinds that datasets use. The members of a record keep their order. -/
inductive Json where
  | number (n : Int)
  | text (s : String)
  | list (items : List Json)
  | record (members : List (String × Json))
  deriving Repr, Inhabited

namespace Json

inductive Layout where
  /-- No white space at all. -/
  | compact
  /-- A line for each item or member, indented by so many blanks on each level. -/
  | indented (width : Nat)
  deriving DecidableEq, Repr

/-- What stands before an item on the given level. -/
def Layout.lineBreak : Layout → Nat → List Char
  | compact, _ => []
  | indented width, level => '\n' :: List.replicate (width * level) ' '

def Layout.colon : Layout → List Char
  | compact => [':']
  | indented _ => [':', ' ']

/-! ### Quoted text -/

/-- A character as it stands between quotes: a quote, a backslash and the controls are escaped. -/
def escape (c : Char) : List Char :=
  if c = '"' then ['\\', '"']
  else if c = '\\' then ['\\', '\\']
  else if c = '\x08' then ['\\', 'b']
  else if c = '\t' then ['\\', 't']
  else if c = '\n' then ['\\', 'n']
  else if c = '\x0c' then ['\\', 'f']
  else if c = '\r' then ['\\', 'r']
  else if c.toNat < 0x20 then
    ['\\', 'u', '0', '0', Nat.digitChar (c.toNat / 16), Nat.digitChar (c.toNat % 16)]
  else [c]

def quote (s : String) : List Char := '"' :: (s.toList.flatMap escape ++ ['"'])

/-! ### Documents -/

def numeral : Int → List Char
  | .ofNat n => Nat.toDigits 10 n
  | .negSucc n => '-' :: Nat.toDigits 10 (n + 1)

mutual

/-- The text of a document that begins on the given level. -/
def render (layout : Layout) (level : Nat) : Json → List Char
  | .number n => numeral n
  | .text s => quote s
  | .list [] => ['[', ']']
  | .list (item :: items) =>
    '[' :: (layout.lineBreak (level + 1) ++ render layout (level + 1) item ++
      renderItems layout (level + 1) items ++ layout.lineBreak level ++ [']'])
  | .record [] => ['{', '}']
  | .record ((key, value) :: members) =>
    '{' :: (layout.lineBreak (level + 1) ++ quote key ++ layout.colon ++
      render layout (level + 1) value ++ renderMembers layout (level + 1) members ++
      layout.lineBreak level ++ ['}'])

/-- The items of a list after its first. -/
def renderItems (layout : Layout) (level : Nat) : List Json → List Char
  | [] => []
  | item :: items =>
    ',' :: (layout.lineBreak level ++ render layout level item ++ renderItems layout level items)

/-- The members of a record after its first. -/
def renderMembers (layout : Layout) (level : Nat) : List (String × Json) → List Char
  | [] => []
  | (key, value) :: members =>
    ',' :: (layout.lineBreak level ++ quote key ++ layout.colon ++ render layout level value ++
      renderMembers layout level members)

end

def print (layout : Layout) (document : Json) : String :=
  String.ofList (document.render layout 0)

end Json
end LeafPaths
