/-!
# Coloured text

Listings and reports mark parts of their text with a style. A palette says how a style is written:
not at all, or as the escape sequences of a terminal.
-/

namespace SmallC

/-- The styles that listings and reports use. -/
inductive Style where
  | red
  | green
  | yellow
  | blue
  | magenta
  | cyan
  | white
  | grey
  | brightRed
  | boldYellow
  | boldRed
  deriving DecidableEq, Repr

/-- The parameters of the escape sequence that turns a style on. -/
def Style.code : Style → String
  | .red => "31"
  | .green => "32"
  | .yellow => "33"
  | .blue => "34"
  | .magenta => "35"
  | .cyan => "36"
  | .white => "37"
  | .grey => "90"
  | .brightRed => "91"
  | .boldYellow => "1;33"
  | .boldRed => "1;31"

/-- How styles are written. -/
inductive Palette where
  /-- Styles are ignored. -/
  | plain
  /-- A styled text stands between a sequence that turns the style on and one that ends it. -/
  | ansi
  deriving DecidableEq, Repr, Inhabited

/-- The sequence that turns a style on. -/
def Style.start (style : Style) : String :=
  "\x1b[" ++ style.code ++ "m"

/-- The sequence that turns every style off. -/
def Style.reset : String :=
  "\x1b[0m"

/-- A text in which the style is turned on again after each sequence that turns it off. -/
def Style.resume (style : Style) : List Char → List Char
  | [] => []
  | '\x1b' :: '[' :: '0' :: 'm' :: rest =>
    Style.reset.toList ++ style.start.toList ++ style.resume rest
  | c :: rest => c :: style.resume rest

/-- A text in a style. An empty text is wrapped like any other, and a text that turns the style off
goes on in it. -/
def Palette.paint : Palette → Style → String → String
  | .plain, _, text => text
  | .ansi, style, text =>
    style.start ++ String.ofList (style.resume text.toList) ++ Style.reset

end SmallC
