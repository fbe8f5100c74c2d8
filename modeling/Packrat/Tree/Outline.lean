import Packrat.Tree
import Packrat.Text.Quoted

/-!
# Trees as text

The two written forms of a whole tree: an outline on one line and an indented document of
objects. A node without a name is called `anon` in the document.
-/

namespace Packrat.Node

/-! ## On one line -/

def quotedName (name : Option String) : String :=
  match name with
  | some s => "Some(" ++ Text.quote s ++ ")"
  | none => "None"

mutual

/-- The fields of the node and of everything below it. -/
def outline : Node → String
  | ⟨_, _, _, name, start, text, children⟩ =>
    "Node \x7b name: " ++ quotedName name ++ ", span: " ++ toString start ++ ".." ++
      toString (start + text.utf8ByteSize) ++ ", text: " ++ Text.quote text ++
      ", children: [" ++ String.intercalate ", " (outlines children) ++ "] \x7d"

def outlines : List Node → List String
  | [] => []
  | n :: ns => outline n :: outlines ns

end

/-! ## As an indented document -/

/-- A character of a string of the document: quotes, backslashes and controls are escaped. -/
def documentChar (c : Char) : String :=
  if c = '"' then "\\\""
  else if c = '\\' then "\\\\"
  else if c = '\n' then "\\n"
  else if c = '\r' then "\\r"
  else if c = '\t' then "\\t"
  else if c.toNat = 8 then "\\b"
  else if c.toNat = 12 then "\\f"
  else if c.toNat < 32 then
    "\\u00" ++ String.ofList [Nat.digitChar (c.toNat / 16), Nat.digitChar (c.toNat % 16)]
  else c.toString

def documentString (s : String) : String := "\"" ++ String.join (s.toList.map documentChar) ++ "\""

/-- A line break and two blanks for each level. -/
def newline (level : Nat) : String := "\n" ++ String.ofList (List.replicate (2 * level) ' ')

mutual

/-- The object of a node whose opening brace stands on the given level. What a node holds is its
text, or its children if it has any. -/
def documentAt (level : Nat) : Node → String
  | ⟨_, _, _, name, start, text, children⟩ =>
    "\x7b" ++ newline (level + 1) ++ "\"pos\": [" ++
      newline (level + 2) ++ toString start ++ "," ++
      newline (level + 2) ++ toString (start + text.utf8ByteSize) ++
      newline (level + 1) ++ "]," ++
      newline (level + 1) ++ "\"name\": " ++ documentString (name.getD "anon") ++ "," ++
      newline (level + 1) ++ "\"inner\": " ++
      (match children with
        | [] => documentString text
        | n :: ns => "[" ++ newline (level + 2) ++ documentAt (level + 2) n ++
            documentsAt (level + 2) ns ++ newline (level + 1) ++ "]") ++
      newline level ++ "\x7d"

/-- The objects of further nodes, each behind a comma. -/
def documentsAt (level : Nat) : List Node → String
  | [] => ""
  | n :: ns => "," ++ newline level ++ documentAt level n ++ documentsAt level ns

end

def document (n : Node) : String := documentAt 0 n

end Packrat.Node
