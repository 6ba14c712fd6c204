import Trivar.Expr

/-!
The three notations. In the bracketed ones every operation is enclosed in
brackets and its symbol stands before or after its arguments; the flat one has
no brackets and the symbol last. Words are separated by single spaces.
-/

namespace Trivar

/-- Where the symbol of a bracketed operation stands. -/
inductive Placement
  | first
  | last
  deriving DecidableEq

inductive Form
  | bracketed (placement : Placement)
  | flat
  deriving DecidableEq

def Atom.text : Atom → String
  | .number n => n.text
  | .variable v => v.name

def spaced (words : List String) : String := " ".intercalate words

namespace Expr

def bracketedText (placement : Placement) : Expr → String :=
  fold Atom.text fun o _ args =>
    match placement with
    | .first => "(" ++ spaced (o.symbol :: args.toList) ++ ")"
    | .last => "(" ++ spaced (args.toList ++ [o.symbol]) ++ ")"

def flatText : Expr → String :=
  fold Atom.text fun o _ args => spaced (args.toList ++ [o.symbol])

def text : Form → Expr → String
  | .bracketed placement => bracketedText placement
  | .flat => flatText

end Expr

end Trivar
