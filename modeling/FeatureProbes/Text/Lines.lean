import FeatureProbes.Text.Blank

/-!
# Lines

A text is cut into lines at line feeds.  A carriage return before the line feed belongs to the
line end, and a line feed at the very end does not open another line.  Indentation puts two
spaces in front of every line that has something on it and leaves the other lines empty.
-/

namespace FeatureProbes
namespace Text

/-- Put a character in front of the first line. -/
def consLine (c : Char) : List (List Char) → List (List Char)
  | [] => [[c]]
  | line :: more => (c :: line) :: more

/-- The lines of a text, without their line ends. -/
def lines : List Char → List (List Char)
  | [] => []
  | '\n' :: rest => [] :: lines rest
  | '\r' :: '\n' :: rest => [] :: lines rest
  | c :: rest => consLine c (lines rest)

/-- A line behind two blanks, or the empty line for a blank one. -/
def indentLine (line : List Char) : List Char :=
  if line.all isBlank then [] else ' ' :: ' ' :: line

/-- Indent every line by two spaces; blank lines become empty. -/
def indent (text : List Char) : List Char :=
  ['\n'].intercalate ((lines text).map indentLine)

/-- Join snippets by line feeds, without the blanks at their ends and without the blank ones. -/
def joinSnippets (snippets : List (List Char)) : List Char :=
  ['\n'].intercalate ((snippets.map trimEnd).filter fun snippet => !snippet.all isBlank)

end Text
end FeatureProbes
