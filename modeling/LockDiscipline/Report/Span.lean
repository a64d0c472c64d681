/-! Styled text: a document is the same with and without colour but for the style sequences. -/

namespace LockDiscipline

/-- The styles of a terminal that reports use. -/
inductive Style where
  | bold
  | dimmed
  | red
  | green
  | yellow
  | blue
  | cyan
deriving DecidableEq, Repr

namespace Style

/-- The code that switches a style on. -/
def onCode : Style → String
  | bold => "1"
  | dimmed => "2"
  | red => "31"
  | green => "32"
  | yellow => "33"
  | blue => "34"
  | cyan => "36"

/-- The code that switches a style off: colours go back to the default, the rest is reset. -/
def offCode : Style → String
  | bold => "0"
  | dimmed => "0"
  | _ => "39"

/-- The sequence that sends a code to the terminal. -/
def sequence (code : String) : String :=
  "\x1b[" ++ code ++ "m"

/-- Text in a style. -/
def wrap (style : Style) (text : String) : String :=
  sequence style.onCode ++ text ++ sequence style.offCode

end Style

/-- A piece of text in some styles, the outermost first. -/
structure Span where
  styles : List Style
  text : String
deriving DecidableEq, Repr

/-- A document is a list of spans. -/
abbrev Document := List Span

namespace Span

/-- Text in no style. -/
def plain (text : String) : Span := ⟨[], text⟩

/-- A span as text, with or without its styles. -/
def render (color : Bool) (s : Span) : String :=
  if color then s.styles.foldr Style.wrap s.text else s.text

end Span

/-- A document as text, with or without its styles. -/
def Document.render (color : Bool) (d : Document) : String :=
  String.join (d.map (Span.render color))

end LockDiscipline
