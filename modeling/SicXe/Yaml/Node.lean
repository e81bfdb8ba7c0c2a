import SicXe.Yaml.Scalar

/-!
# Documents

A YAML document in block style: the entries of a mapping on lines of their own, nested mappings
indented by two, the items of a sequence behind dashes at the indentation of its key.
-/
namespace SicXe.Yaml

inductive Node where
  | integer (n : Int)
  | boolean (b : Bool)
  | text (s : String)
  | mapping (entries : List (String × Node))
  | sequence (items : List Node)
  deriving Repr

/-- The first line behind a mark of two characters, the others indented as far. -/
def hang (mark : String) : List String → List String
  | [] => []
  | first :: rest => (mark ++ first) :: rest.map ("  " ++ ·)

/-- The longest key, in bytes, that is written on the line of its value. -/
def maxSimpleKey : Nat := 128

/-- Where the value of a key goes: on its line, below it and indented, or below it. -/
inductive Placement where
  | inline | indented | below
  deriving DecidableEq, Repr

def Node.placement : Node → Placement
  | mapping (_ :: _) => .indented
  | sequence (_ :: _) => .below
  | _ => .inline

/-- The lines of a mapping's entry, given those of its value. A long key has a line of its own
behind a question mark, and the value follows behind a colon. -/
def entryLines (key : String) (placement : Placement) (value : List String) : List String :=
  if maxSimpleKey < key.utf8ByteSize then ("? " ++ scalar key) :: hang ": " value
  else match placement with
    | .inline => [scalar key ++ ": " ++ String.join value]
    | .indented => (scalar key ++ ":") :: value.map ("  " ++ ·)
    | .below => (scalar key ++ ":") :: value

mutual

/-- The lines of a node. -/
def Node.lines : Node → List String
  | .integer n => [toString n]
  | .boolean b => [toString b]
  | .text s => [scalar s]
  | .mapping [] => ["\x7b\x7d"]
  | .mapping (entry :: rest) => mappingLines (entry :: rest)
  | .sequence [] => ["[]"]
  | .sequence (item :: rest) => sequenceLines (item :: rest)

def mappingLines : List (String × Node) → List String
  | [] => []
  | (key, value) :: rest => entryLines key value.placement value.lines ++ mappingLines rest

def sequenceLines : List Node → List String
  | [] => []
  | item :: rest => hang "- " item.lines ++ sequenceLines rest

end

/-- The text of a document. -/
def Node.document (node : Node) : String := String.join (node.lines.map (· ++ "\n"))

end SicXe.Yaml
