import Trivar.Expr.Derivative

/-!
Graphs of expressions. The nodes of a graph are numbered in the order in which
they were made and refer to earlier nodes, which they may share; each stands for
an expression. A node remembers its expansion once that was asked for, and the
derivatives that were found for it, by the name of the variable.

`Graph.differentiate` works off a stack of operations. The derivative of a
composite operation rests on that of its expansion, and the derivative of any
other operation on those of its arguments; what is missing among these goes on
top of the stack first. A rule only looks up what the tables hold. If they held
too little the result would be missing, as it would be if the stack were never
worked off.
-/

namespace Trivar

/-- A leaf, or an operation on the nodes with these numbers. -/
inductive Graph.Shape
  | atom (a : Atom)
  | apply (o : Operator) (args : Tuple Nat o.arity)

structure Graph.Node where
  shape : Shape
  /-- The root of the expansion. -/
  expansion : Option Nat
  derivatives : List (String × Nat)

structure Graph where
  nodes : Array Graph.Node

namespace Graph

def empty : Graph := ⟨#[]⟩

def insert (g : Graph) (shape : Shape) : Graph × Nat :=
  let i := g.nodes.size
  (⟨g.nodes.push ⟨shape, none, []⟩⟩, i)

def shape? (g : Graph) (i : Nat) : Option Shape := g.nodes[i]?.map (·.shape)

/-- The expression that a node stands for. An argument that is not an earlier node counts as
zero. -/
def expr (g : Graph) (i : Nat) : Expr :=
  match g.shape? i with
  | none => (0 : Nat)
  | some (.atom a) => .atom a
  | some (.apply o args) =>
    .apply o (args.map fun j => if j < i then g.expr j else (0 : Nat))
termination_by i

def arguments (g : Graph) (i : Nat) : List Nat :=
  match g.shape? i with
  | some (.apply _ args) => args.toList
  | _ => []

/-- A way to add nodes to a graph, the last of which is the result. -/
structure Builder where
  build : Graph → Graph × Nat

namespace Builder

def existing (i : Nat) : Builder := ⟨fun g => (g, i)⟩

def leaf (a : Atom) : Builder := ⟨fun g => g.insert (.atom a)⟩

def unary (shape : Nat → Shape) (a : Builder) : Builder where
  build g :=
    let (g, i) := a.build g
    g.insert (shape i)

def binary (shape : Nat → Nat → Shape) (a b : Builder) : Builder where
  build g :=
    let (g, i) := a.build g
    let (g, j) := b.build g
    g.insert (shape i j)

instance : Arithmetic Builder where
  add := binary fun i j => .apply .add (.cons i (.cons j .nil))
  sub := binary fun i j => .apply .sub (.cons i (.cons j .nil))
  mul := binary fun i j => .apply .mul (.cons i (.cons j .nil))
  div := binary fun i j => .apply .div (.cons i (.cons j .nil))
  neg := unary fun i => .apply .negate (.cons i .nil)
  natCast n := leaf (.number (.int n))

/-- Adds the nodes of a tuple of builders from left to right. -/
def buildEach {n : Nat} : Tuple Builder n → Graph → Graph × Tuple Nat n
  | .nil, g => (g, .nil)
  | .cons b bs, g =>
    let (g, i) := b.build g
    let (g, is) := buildEach bs g
    (g, .cons i is)

/-- Adds all nodes of an expression. -/
def ofExpr : Expr → Builder :=
  Expr.fold leaf fun o _ args => ⟨fun g =>
    let (g, is) := buildEach args g
    g.insert (.apply o is)⟩

end Builder

def ofExpr (g : Graph) (e : Expr) : Graph × Nat := (Builder.ofExpr e).build g

def modify (g : Graph) (i : Nat) (f : Node → Node) : Graph := ⟨g.nodes.modify i f⟩

/-- The root of the expansion of a composite operation, made when it is first asked for. Every
other node is its own expansion. -/
def expand (g : Graph) (i : Nat) : Graph × Nat :=
  match g.nodes[i]? with
  | some ⟨.apply o args, none, _⟩ =>
    if o.isComposite then
      let (g, root) := (o.combine (args.map Builder.existing)).build g
      (g.modify i fun node => { node with expansion := some root }, root)
    else (g, i)
  | some ⟨_, some root, _⟩ => (g, root)
  | _ => (g, i)

/-- The nodes on whose derivatives that of an operation rests. -/
def differentiationArgs (g : Graph) (i : Nat) : Graph × List Nat :=
  match g.shape? i with
  | some (.apply o args) =>
    if o.isComposite then
      let (g, root) := g.expand i
      (g, [root])
    else (g, args.toList)
  | _ => (g, [])

/-- The derivative of an operation that its table holds. -/
def recorded? (g : Graph) (name : String) (i : Nat) : Option Nat :=
  g.nodes[i]?.bind fun node => node.derivatives.lookup name

def record (g : Graph) (name : String) (i d : Nat) : Graph :=
  g.modify i fun node => { node with derivatives := (name, d) :: node.derivatives }

def isOperation (g : Graph) (i : Nat) : Bool :=
  match g.shape? i with
  | some (.apply _ _) => true
  | _ => false

/-- The operations among these nodes whose derivatives are not recorded. -/
def pending (g : Graph) (name : String) (is : List Nat) : List Nat :=
  is.filter fun i => g.isOperation i && (g.recorded? name i).isNone

/-- The derivative of an argument: a constant for a leaf, and what the table holds for an
operation. -/
def argumentDerivative (name : String) (i : Nat) (g : Graph) : Option (Graph × Nat) :=
  match g.shape? i with
  | none => none
  | some (.atom a) => some (g.ofExpr (a.derivative name))
  | some (.apply _ _) => (g.recorded? name i).map (g, ·)

def argumentDerivatives {n : Nat} (name : String) :
    Tuple Nat n → Graph → Option (Graph × Tuple Nat n)
  | .nil, g => some (g, .nil)
  | .cons i is, g => do
    let (g, d) ← argumentDerivative name i g
    let (g, ds) ← argumentDerivatives name is g
    return (g, .cons d ds)

/-- Records the derivative of an operation: that of its expansion if it is composite, and
otherwise what the rule makes of the arguments and their derivatives. -/
def applyRule (name : String) (i : Nat) (g : Graph) : Option Graph :=
  match g.shape? i with
  | some (.apply o args) =>
    if o.isComposite then do
      let (g, root) := g.expand i
      let d ← g.recorded? name root
      return g.record name i d
    else do
      let (g, slopes) ← argumentDerivatives name args g
      let rule := o.derivative (args.map Builder.existing) (slopes.map Builder.existing)
      let (g, d) := rule.build g
      return g.record name i d
  | _ => none

/-- Works off a stack of operations. The top one stays until nothing that its derivative rests on
is missing; an operation that occurs several times is differentiated once. -/
def workOff (name : String) (stack : List Nat) (g : Graph) : Option Graph :=
  match stack with
  | [] => some g
  | i :: below =>
    let (g, needed) := g.differentiationArgs i
    match g.pending name needed with
    | [] =>
      if (g.recorded? name i).isSome then g |>.workOff name below
      else do
        let g ← g.applyRule name i
        g |>.workOff name below
    | j :: js => g |>.workOff name ((j :: js).reverse ++ stack)
partial_fixpoint

/-- The derivative of a node. -/
def differentiate (name : String) (i : Nat) (g : Graph) : Option (Graph × Nat) := do
  let g ← workOff name (g.pending name [i]) g
  argumentDerivative name i g

end Graph

end Trivar
