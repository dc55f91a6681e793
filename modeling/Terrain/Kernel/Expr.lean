import Terrain.Graph.Operator
import Terrain.Kernel.Library

/-!
# Kernel expressions and lines

Generated code as data: what a node stands for in a function (`Symbol`), the expression that
computes it (`Expr`) and the lines of a function body (`Line`).  Text is only made from them at
the end, by `text`.  Operands are always symbols or literals, so an expression prints without
looking at precedence; `group` stands where the text needs brackets.
-/

namespace Terrain.Kernel

/-! ## names -/

inductive Var where
  | position
  | input (i : Nat)
  /-- the local copy of an argument -/
  | copy (i : Nat)
  /-- a local that holds the value of a node -/
  | bound (n : Nat)
  /-- a local that receives the result of a call -/
  | result (n : Nat)
  | named (name : String)
deriving DecidableEq, Repr

def Var.text : Var → String
  | position => "position"
  | input i => s!"in_{i}"
  | copy i => s!"a{i}"
  | bound n => s!"v_{n}"
  | result n => s!"t_{n}"
  | named name => name

/-- what holds the value of a node in a function: a variable, or a parameter slot read in place -/
inductive Symbol where
  | var (v : Var)
  | param (slot : Nat) (shape : Shape)
deriving DecidableEq, Repr

/-- a slot has four float lanes; whole numbers and truth values are converted on reading -/
def Symbol.text : Symbol → String
  | var v => v.text
  | param slot shape =>
    match shape with
    | .float => s!"params[{slot}].x"
    | .vec2 => s!"params[{slot}].xy"
    | .vec3 => s!"params[{slot}].xyz"
    | .int => s!"i32(params[{slot}].x)"
    | .bool => s!"(params[{slot}].x != 0.0)"
    | _ => s!"params[{slot}]"

/-! ## expressions -/

inductive Operator where
  | arith (op : BinaryOp)
  | compare (op : CompareOp)
  | and
  | or
deriving DecidableEq, Repr

def Operator.text : Operator → String
  | arith .add => "+"
  | arith .sub => "-"
  | arith .mul => "*"
  | arith .div => "/"
  | arith .mod => "%"
  | arith op => op.name
  | compare .less => "<"
  | compare .lessEqual => "<="
  | compare .greater => ">"
  | compare .greaterEqual => ">="
  | compare .equal => "=="
  | compare .notEqual => "!="
  | compare (.unknown _) => ""
  | and => "&&"
  | or => "||"

inductive Callee where
  | unary (op : UnaryOp)
  | binary (op : BinaryOp)
  | dot
  | cross
  | select
  | mix
  | clamp
  | smoothstep
  | convert (shape : Shape)
  | routine (r : Routine)
  | seed
deriving DecidableEq, Repr

def Callee.text : Callee → String
  | unary op => op.name
  | binary op => op.name
  | dot => "dot"
  | cross => "cross"
  | select => "select"
  | mix => "mix"
  | clamp => "clamp"
  | smoothstep => "smoothstep"
  | convert s => s.typeName
  | routine r => r.name
  | seed => "vg_seed3"

inductive Expr where
  | sym (s : Symbol)
  | literal (text : String)
  | neg (e : Expr)
  | not (e : Expr)
  | op (o : Operator) (a b : Expr)
  | call0 (f : Callee)
  | call1 (f : Callee) (a : Expr)
  | call2 (f : Callee) (a b : Expr)
  | call3 (f : Callee) (a b c : Expr)
  | lanes (e : Expr) (mask : String)
  | sample (buffer : String) (index : Expr)
  | group (e : Expr)
deriving DecidableEq, Repr

namespace Expr

def text : Expr → String
  | sym s => s.text
  | literal t => t
  | neg e => "-" ++ e.text
  | not e => "!" ++ e.text
  | op o a b => a.text ++ " " ++ o.text ++ " " ++ b.text
  | call0 f => f.text ++ "()"
  | call1 f a => f.text ++ "(" ++ a.text ++ ")"
  | call2 f a b => f.text ++ "(" ++ a.text ++ ", " ++ b.text ++ ")"
  | call3 f a b c => f.text ++ "(" ++ a.text ++ ", " ++ b.text ++ ", " ++ c.text ++ ")"
  | lanes e mask => e.text ++ "." ++ mask
  | sample buffer index => buffer ++ "[" ++ index.text ++ "]"
  | group e => "(" ++ e.text ++ ")"

def var (v : Var) : Expr := sym (.var v)
def named (name : String) : Expr := var (.named name)

def add (a b : Expr) : Expr := op (.arith .add) a b
def sub (a b : Expr) : Expr := op (.arith .sub) a b
def mul (a b : Expr) : Expr := op (.arith .mul) a b
def div (a b : Expr) : Expr := op (.arith .div) a b
def less (a b : Expr) : Expr := op (.compare .less) a b

def widen (source target : Shape) (e : Expr) : Expr :=
  if source = .float ∧ target.isVector then call1 (.convert target) e else e

def seeded (p : Expr) (s : Shape) : Expr :=
  if s = .vec2 then group (add p (lanes (call0 .seed) "xz")) else group (add p (call0 .seed))

def laneNames : List String := ["x", "y", "z"]

/-- the length of a difference of shape `s` -/
def metric (m : Metric) (delta : Expr) (s : Shape) : Expr :=
  let size (e : Expr) := call1 (.unary .abs) e
  if s = .float then size delta
  else match m with
    | .manhattan =>
      call2 .dot (size delta) (call1 (.convert s) (literal "1.0"))
    | .chebyshev =>
      ((laneNames.take s.lanes).drop 1).foldl
        (fun largest lane => call2 (.binary .max) largest (size (lanes delta lane)))
        (size (lanes delta "x"))
    | _ => call1 (.unary .length) delta

end Expr

/-! ## lines -/

inductive Line where
  | bind (v : Var) (shape : Shape) (e : Expr)
  | letVar (v : Var) (e : Expr)
  | declare (v : Var) (shape : Shape)
  | start (v : Var) (e : Expr)
  | assign (v : Var) (e : Expr)
  | store (output : String) (e : Expr)
  | call (function : String) (args : List Symbol) (result : Var)
  /-- counts a variable from `first` while it stands in the relation to `last` -/
  | loop (v : Var) (first : Int) (relation : CompareOp) (last : Int)
  | test (condition : Expr)
  | otherwise (condition : Expr)
  | close
  | verbatim (text : String)
deriving DecidableEq, Repr

namespace Line

def text : Line → String
  | bind v s e => "let " ++ v.text ++ ": " ++ s.typeName ++ " = " ++ e.text ++ ";"
  | letVar v e => "let " ++ v.text ++ " = " ++ e.text ++ ";"
  | declare v s => "var " ++ v.text ++ ": " ++ s.typeName ++ ";"
  | start v e => "var " ++ v.text ++ " = " ++ e.text ++ ";"
  | assign v e => v.text ++ " = " ++ e.text ++ ";"
  | store output e => "*" ++ output ++ " = " ++ e.text ++ ";"
  | call function args result =>
    function ++ "(" ++ ", ".intercalate (args.map Symbol.text ++ ["&" ++ result.text]) ++ ");"
  | loop v first relation last =>
    "for (var " ++ v.text ++ " = " ++ toString first ++ "; " ++ v.text ++ " " ++
      (Operator.compare relation).text ++ " " ++ toString last ++ "; " ++ v.text ++ " = " ++ v.text ++
      " + 1) \x7b"
  | test c => "if (" ++ c.text ++ ") \x7b"
  | otherwise c => "\x7d else if (" ++ c.text ++ ") \x7b"
  | close => "\x7d"
  | verbatim t => t

end Line

structure Indented where
  depth : Nat
  line : Line
deriving DecidableEq, Repr

def Indented.text (l : Indented) : String :=
  String.ofList (List.replicate l.depth '\t') ++ l.line.text

end Terrain.Kernel
