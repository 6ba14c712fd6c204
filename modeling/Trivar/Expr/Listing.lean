import Trivar.Expr.Text
import Trivar.Text.Quoted

/-!
Listings show the structure of a tree literally: each node is a tag with its
contents in brackets, the arguments of an operation are a list in brackets, and
names and symbols are quoted. A list with one entry ends in a comma.
-/

namespace Trivar

def Atom.tag : Atom → String
  | .number _ => "#"
  | .variable _ => "@"

namespace Expr

/-- The kind of the root: number, variable or operation. -/
def tag : Expr → String
  | .atom a => a.tag
  | .apply _ _ => "-op"

def listed (entries : List String) : String :=
  match entries with
  | [entry] => "(" ++ entry ++ ",)"
  | _ => "(" ++ ", ".intercalate entries ++ ")"

def atomListing (a : Atom) : String :=
  match a with
  | .number n => listed [Text.quoted a.tag, n.text]
  | .variable v => listed [Text.quoted a.tag, Text.quoted v.name]

def listing : Expr → String :=
  fold atomListing fun o _ args =>
    listed [Text.quoted "-op", Text.quoted o.symbol, listed args.toList]

end Expr

end Trivar
