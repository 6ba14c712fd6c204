import Trivar.Expr
import Trivar.ParseError

/-!
Raw trees: operations and variables are only names, and operations have any
number of arguments. `Raw.check` turns a raw tree into an expression of the
same structure, or reports the first node in post-order that is none.

Raw trees are written down as tuples, in which the kind of a node is a text like
any other. `Item.construct` makes nodes of tuples, whatever they hold and
wherever they stand. What a tuple becomes depends on its first entry alone, so
the arguments of an operation are a node, too, without a kind of their own
unless they begin with such a text.

Trees may be nested to any depth. Both functions call themselves for the parts
of a tree, and a limit on how deep calls may go is no part of the model.
-/

namespace Trivar

inductive Raw
  | number (n : Number)
  | variable (name : String)
  | operation (symbol : String) (args : List Raw)

/-- The operation with this symbol, on arguments that are as many as it takes. -/
def checkOperation {α : Type} (symbol : String) (args : List α) :
    Except ParseError ((o : Operator) × Tuple α o.arity) :=
  match Operator.ofSymbol? symbol with
  | none => .error ⟨.unknownOperation symbol, none⟩
  | some o =>
    match Tuple.ofList? o.arity args with
    | none => .error ⟨.arityMismatch symbol o.arity args.length, none⟩
    | some tuple => .ok ⟨o, tuple⟩

def checkVariable (name : String) : Except ParseError Variable :=
  match Variable.ofName? name with
  | none => .error ⟨.invalidVariableName name, none⟩
  | some v => .ok v

namespace Raw

mutual

def check : Raw → Except ParseError Expr
  | .number n => .ok (.atom (.number n))
  | .variable name => (checkVariable name).map fun v => .atom (.variable v)
  | .operation symbol args => do
    let ⟨o, checked⟩ ← checkOperation symbol (← checkEach args)
    return .apply o checked

def checkEach : List Raw → Except ParseError (List Expr)
  | [] => .ok []
  | r :: rs => do
    let e ← check r
    let es ← checkEach rs
    return e :: es

end

end Raw

/-! ### Tuples -/

inductive Tag
  | number
  | variable
  | operation
  deriving DecidableEq

namespace Tag

def text : Tag → String
  | .number => "#"
  | .variable => "@"
  | .operation => "-op"

def ofText? : String → Option Tag
  | "#" => some .number
  | "@" => some .variable
  | "-op" => some .operation
  | _ => none

theorem ofText?_text (tag : Tag) : ofText? tag.text = some tag := by
  cases tag <;> rfl

end Tag

/-- What may stand in a tuple. A node has its entries in the order in which they were given, the
text of its tag first if it has one. -/
inductive Item
  | number (n : Number)
  | text (content : String)
  | tuple (entries : List Item)
  | node (tag : Option Tag) (entries : List Item)

namespace Item

/-- Why a node cannot be made: a fault of its own, something else in the place of a name or a
symbol, or entries of which there are too few or too many, or which cannot be counted. -/
inductive Failure
  | fault (f : Fault)
  | unnamed (entry : Item)
  | malformed

def length? : Item → Option Nat
  | .number _ => none
  | .text content => some content.length
  | .tuple entries | .node _ entries => some entries.length

/-- Checks what stands behind the tag of a node. -/
def validate : Tag → List Item → Except Failure Unit
  | .number, [_] => .ok ()
  | .variable, [.text name] =>
    match Variable.ofName? name with
    | none => .error (.fault (.invalidVariableName name))
    | some _ => .ok ()
  | .operation, [.text symbol, args] =>
    match Operator.ofSymbol? symbol with
    | none => .error (.fault (.unknownOperation symbol))
    | some o =>
      match args.length? with
      | none => .error .malformed
      | some count =>
        if count = o.arity then .ok () else .error (.fault (.arityMismatch symbol o.arity count))
  | .variable, [entry] | .operation, [entry, _] => .error (.unnamed entry)
  | _, _ => .error .malformed

def assemble (entries : List Item) : Except Failure Item :=
  match entries with
  | .text first :: rest =>
    match Tag.ofText? first with
    | none => .ok (.node none entries)
    | some tag => do
      validate tag rest
      return .node (some tag) entries
  | _ => .ok (.node none entries)

mutual

/-- Makes nodes of plain tuples, from the inside out. Everything else stays what it is. -/
def construct : Item → Except Failure Item
  | .tuple entries => do assemble (← constructEach entries)
  | entry => .ok entry

def constructEach : List Item → Except Failure (List Item)
  | [] => .ok []
  | entry :: entries => do
    let first ← construct entry
    let rest ← constructEach entries
    return first :: rest

end

/-- Makes a node whose kind is known beforehand. -/
def constructAs (tag : Tag) (entries : List Item) : Except Failure Item := do
  let found ← constructEach entries
  validate tag found
  return .node (some tag) (.text tag.text :: found)

theorem constructAs_eq (tag : Tag) (entries : List Item) :
    constructAs tag entries = construct (.tuple (.text tag.text :: entries)) := by
  rw [constructAs, construct, constructEach, construct]
  · cases constructEach entries with
    | error failure => rfl
    | ok found =>
        change _ = assemble (.text tag.text :: found)
        rw [assemble, Tag.ofText?_text]
        rfl
  · exact fun _ => nofun

end Item

end Trivar
