import Trivar.Bracketed
import Trivar.Expr.Listing
import Trivar.Expr.Raw
import Trivar.Flat

/-!
Where expressions come from: a text in one of the three notations, or a raw
tree. A text can be read with a trace, which shows the tokens of bracketed
notation as soon as they are known and the listing of the tree at the end.
-/

namespace Trivar

/-- Reads a text in the given notation. -/
def Form.parse : Form → String → Except ParseError Expr
  | .bracketed placement => Bracketed.parse placement
  | .flat => Flat.parseExpr

inductive Source
  | text (form : Form) (content : String)
  | tree (raw : Raw)

def Source.load : Source → Except ParseError Expr
  | .text form content => form.parse content
  | .tree raw => raw.check

namespace Form

/-- The heading of the last line of a trace, wide enough to stand below the heading of the
tokens if there is one. -/
def treeHeading : Form → String
  | .bracketed _ => "ast:    "
  | .flat => "ast: "

/-- The line for the tokens; nothing when the text is empty or cannot be scanned. -/
def tokenLine (form : Form) (text : String) : String :=
  match form with
  | .flat => ""
  | .bracketed _ =>
    if text.toList.all Text.isBlank then ""
    else
      match Token.scan text with
      | .error _ => ""
      | .ok tokens => "tokens: " ++ Token.trace tokens text.length ++ "\n"

/-- What a trace shows while a text is read. -/
def trace (form : Form) (text : String) : String :=
  let treeLine :=
    match form.parse text with
    | .error _ => ""
    | .ok e => form.treeHeading ++ e.listing ++ "\n"
  form.tokenLine text ++ treeLine

end Form

end Trivar
