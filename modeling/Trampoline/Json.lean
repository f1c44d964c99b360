import Trampoline.Word

/-!
# JSON documents

The little of JSON that reports need: natural numbers, texts, lists and objects.  The fields of an
object are written in the order in which they are given.

`Json.pretty` writes a document with a line for each item, indented by two blanks a level; empty
lists and objects stay on one line.
-/

set_option autoImplicit false

namespace Trampoline

/-- A JSON document. -/
inductive Json
  | number (n : Nat)
  | text (s : String)
  | list (items : List Json)
  | object (fields : List (String × Json))

namespace Json

/-- A character inside a quoted text. -/
def escape (c : Char) : List Char :=
  match c with
  | '"' => ['\\', '"']
  | '\\' => ['\\', '\\']
  | '\n' => ['\\', 'n']
  | '\r' => ['\\', 'r']
  | '\t' => ['\\', 't']
  | '\x08' => ['\\', 'b']
  | '\x0c' => ['\\', 'f']
  | c =>
    if c.toNat < 0x20 then
      ['\\', 'u', '0', '0'] ++ [Nat.digitChar (c.toNat / 16), Nat.digitChar (c.toNat % 16)]
    else [c]

/-- A text between quotes. -/
def quoted (s : String) : String := "\"" ++ String.ofList (s.toList.flatMap escape) ++ "\""

example : quoted "a\"\n" = "\"a\\\"\\n\"" := by decide

/-- The start of a line at a level. -/
def indent (level : Nat) : String := String.ofList (List.replicate (2 * level) ' ')

/-- Items on lines of their own between two brackets, unless there are none. -/
def bracketed (level : Nat) (opening closing : String) : List String → String
  | [] => opening ++ closing
  | items =>
    opening ++ "\n" ++ ",\n".intercalate (items.map (indent (level + 1) ++ ·)) ++ "\n" ++
      indent level ++ closing

mutual

/-- A document at a level, without the indent of its first line. -/
def prettyAt (level : Nat) : Json → String
  | number n => toString n
  | text s => quoted s
  | list items => bracketed level "[" "]" (prettyItems (level + 1) items)
  | object fields => bracketed level "\x7b" "\x7d" (prettyFields (level + 1) fields)

/-- The items of a list. -/
def prettyItems (level : Nat) : List Json → List String
  | [] => []
  | item :: rest => prettyAt level item :: prettyItems level rest

/-- The fields of an object. -/
def prettyFields (level : Nat) : List (String × Json) → List String
  | [] => []
  | (key, value) :: rest =>
    (quoted key ++ ": " ++ prettyAt level value) :: prettyFields level rest

end

/-- The document on several lines. -/
def pretty (j : Json) : String := prettyAt 0 j

end Json

end Trampoline
