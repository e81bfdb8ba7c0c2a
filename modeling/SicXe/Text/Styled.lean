/-!
# Styled text

A line of output is a list of spans, each with the attributes it is shown in. The same line can be
written for a terminal (`render`) or looked at without its attributes (`plain`).
-/
namespace SicXe.Text

inductive Attribute where
  | red | green | yellow | blue | cyan | bold | underline
  deriving DecidableEq, Repr

namespace Attribute

/-- The number that switches an attribute on. -/
def onCode : Attribute → String
  | red => "31"
  | green => "32"
  | yellow => "33"
  | blue => "34"
  | cyan => "36"
  | bold => "1"
  | underline => "4"

/-- The number that switches an attribute off; all colours share one. -/
def offCode : Attribute → String
  | bold => "22"
  | underline => "24"
  | _ => "39"

end Attribute

/-- The terminal's escape sequence for one attribute number. -/
def escape (code : String) : String := "\x1b[" ++ code ++ "m"

structure Span where
  attributes : List Attribute
  text : String
  deriving DecidableEq, Repr

/-- Text without attributes. -/
def Span.of (text : String) : Span := ⟨[], text⟩

/-- The span with its attributes switched on before it and off after it, in the order listed. -/
def Span.render (span : Span) : String :=
  String.join (span.attributes.map fun a => escape a.onCode) ++ span.text ++
    String.join (span.attributes.map fun a => escape a.offCode)

abbrev Styled := List Span

namespace Styled

/-- As written to a terminal. -/
def render (text : Styled) : String := String.join (text.map Span.render)

/-- What a reader sees. -/
def plain (text : Styled) : String := String.join (text.map Span.text)

end Styled

end SicXe.Text
