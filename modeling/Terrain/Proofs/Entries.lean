import Terrain.Compile.Module

/-!
# Lines of entry points

An entry point finds its cell, leaves when there is none, declares a variable for each output of its
dispatch, calls the function with the position and a pointer to each of them in order, and stores
what comes back, variable by variable, in the buffers of the outputs.

* `entryLines`          the lines of an entry point;
* `entryPoint_text`     they are what is written.
-/

namespace Terrain.Compile

open Kernel List

/-- the helpers that every program has -/
inductive Helper where
  | size | decode2 | decode3 | position2 | position3
deriving DecidableEq, Repr

def Helper.name : Helper → String
  | size => "vg_size"
  | decode2 => "vg_decode2"
  | decode3 => "vg_decode3"
  | position2 => "vg_position2"
  | position3 => "vg_position3"

/-- an expression that may call helpers -/
inductive EntryExpr where
  | plain (e : Expr)
  | help1 (h : Helper) (a : EntryExpr)
  | help2 (h : Helper) (a b : EntryExpr)
deriving DecidableEq, Repr

def EntryExpr.text : EntryExpr → String
  | plain e => e.text
  | help1 h a => h.name ++ "(" ++ a.text ++ ")"
  | help2 h a b => h.name ++ "(" ++ a.text ++ ", " ++ b.text ++ ")"

inductive EntryLine where
  | bind (v : Var) (e : EntryExpr)
  /-- nothing is done where the condition holds -/
  | leave (condition : Expr)
  | declare (v : Var) (shape : Shape)
  /-- a call that leaves its results in variables -/
  | call (function : String) (a : Var) (results : List Var)
  | store (buffer : String) (index : Var) (e : Expr)
deriving DecidableEq, Repr

def EntryLine.text : EntryLine → String
  | bind v e => "\tlet " ++ v.text ++ " = " ++ e.text ++ ";\n"
  | leave condition => "\tif (" ++ condition.text ++ ") \x7b\n\t\treturn;\n\t\x7d\n"
  | declare v s => "\tvar " ++ v.text ++ ": " ++ s.typeName ++ ";\n"
  | call function a results =>
    "\t" ++ function ++ "(" ++ ", ".intercalate (a.text :: results.map fun v =>
      "&" ++ v.text) ++ ");\n"
  | store buffer index e => "\t" ++ buffer ++ "[" ++ index.text ++ "] = " ++ e.text ++ ";\n"

def outputVar (i : Nat) : Var := .named s!"o{i}"

/-- a value as a buffer holds it; a truth value is stored as a word -/
def storedExpr (i : Nat) (s : Shape) : Expr :=
  if s = .bool then .call3 .select (.literal "0u") (.literal "1u") (.var (outputVar i))
  else .var (outputVar i)

/-- the lines that find the cell of an invocation, and its position -/
def cellLines (workgroup : Int) (d : Entry) : List EntryLine :=
  let gid : Expr := .named "gid"
  let n : Expr := .named "n"
  let index : Expr := .named "index"
  let reduction : EntryExpr := .plain (.literal s!"{d.reduction}u")
  let cell (h : Helper) : EntryExpr := .help2 h (.plain index) (.plain n)
  [.bind (.named "index") (.plain (.add (.lanes gid "x") (.mul (.mul (.lanes gid "y")
      (.lanes (.named "groups") "x")) (.literal s!"{workgroup}u")))),
    .bind (.named "n") (.help1 .size reduction),
    .leave (.op (.compare .greaterEqual) index
      (if d.dims = .two then .mul n n else .mul (.mul n n) n)),
    .bind .position (if d.dims = .two then .help2 .position2 (cell .decode2) reduction
      else .help2 .position3 (cell .decode3) reduction)]

def entryLines (workgroup : Int) (d : Entry) (function : String) : List EntryLine :=
  cellLines workgroup d ++
  d.outputs.mapIdx (fun i o => .declare (outputVar i) o.shape) ++
  [.call function .position (d.outputs.mapIdx fun i _ => outputVar i)] ++
  d.outputs.mapIdx (fun i o => .store o.buffer (.named "index") (storedExpr i o.shape))

def entryHead (workgroup : Int) (name : String) : String :=
  s!"@compute @workgroup_size({workgroup})\n" ++
    s!"fn {name}(@builtin(global_invocation_id) gid: vec3<u32>, " ++
    "@builtin(num_workgroups) groups: vec3<u32>) \x7b\n"

theorem map_mapIdx {α β γ : Type} (l : List α) (f : Nat → α → β) (h : β → γ) :
    (l.mapIdx f).map h = l.mapIdx fun i a => h (f i a) := by
  rw [mapIdx_eq_zipIdx_map, mapIdx_eq_zipIdx_map, map_map]
  rfl

theorem text_declare (i : Nat) (o : Output) :
    (EntryLine.declare (outputVar i) o.shape).text = Module.outputLine i o := by
  refine String.toList_inj.1 ?_
  simp only [EntryLine.text, Module.outputLine, outputVar, Var.text, String.toList_append,
    append_assoc]
  rfl

theorem text_store (i : Nat) (o : Output) :
    (EntryLine.store o.buffer (.named "index") (storedExpr i o.shape)).text =
      Module.storeLine i o := by
  refine String.toList_inj.1 ?_
  unfold storedExpr Module.storeLine
  split
  · simp only [EntryLine.text, outputVar, Expr.text, Symbol.text, Callee.text, Expr.var, Var.text,
      String.toList_append, append_assoc]
    rfl
  · simp only [EntryLine.text, outputVar, Expr.text, Symbol.text, Expr.var, Var.text,
      String.toList_append, append_assoc]
    rfl

theorem text_call (function : String) (outputs : List Output) :
    (EntryLine.call function .position (outputs.mapIdx fun i _ => outputVar i)).text =
      s!"\t{function}(" ++ ", ".intercalate ("position" :: outputs.mapIdx Module.outputArgument) ++
        ");\n" := by
  have arguments : (outputs.mapIdx fun i _ => outputVar i).map (fun v => "&" ++ v.text) =
      outputs.mapIdx Module.outputArgument := by
    rw [map_mapIdx]
    rfl
  unfold EntryLine.text
  dsimp only
  rw [arguments]
  rfl

theorem text_index (workgroup : Int) :
    (EntryLine.bind (.named "index") (.plain (.add (.lanes (.named "gid") "x") (.mul
      (.mul (.lanes (.named "gid") "y") (.lanes (.named "groups") "x"))
      (.literal s!"{workgroup}u"))))).text =
      s!"\tlet index = gid.x + gid.y * groups.x * {workgroup}u;\n" := by
  refine String.toList_inj.1 ?_
  simp only [EntryLine.text, EntryExpr.text, Expr.add, Expr.mul, Expr.named, Expr.var, Expr.text,
    Symbol.text, Var.text, Operator.text, String.toList_append, append_assoc]
  rfl

theorem text_size (reduction : Int) :
    (EntryLine.bind (.named "n") (.help1 .size (.plain (.literal s!"{reduction}u")))).text =
      s!"\tlet n = vg_size({reduction}u);\n" := by
  refine String.toList_inj.1 ?_
  simp only [EntryLine.text, EntryExpr.text, Expr.text, Var.text, Helper.name, String.toList_append,
    append_assoc]
  rfl

theorem text_leave :
    (EntryLine.leave (.op (.compare .greaterEqual) (.named "index")
      (.mul (.named "n") (.named "n")))).text =
      "\tif (index >= n * n) \x7b\n\t\treturn;\n\t\x7d\n" ∧
    (EntryLine.leave (.op (.compare .greaterEqual) (.named "index")
      (.mul (.mul (.named "n") (.named "n")) (.named "n")))).text =
      "\tif (index >= n * n * n) \x7b\n\t\treturn;\n\t\x7d\n" := by
  decide

theorem text_position {p h : Helper} {name : String} (reduction : Int)
    (same : p.name ++ "(" ++ h.name = name) :
    (EntryLine.bind .position (.help2 p (.help2 h (.plain (.named "index")) (.plain (.named "n")))
      (.plain (.literal s!"{reduction}u")))).text =
      "\tlet position = " ++ name ++ s!"(index, n), {reduction}u);\n" := by
  subst same
  refine String.toList_inj.1 ?_
  simp only [EntryLine.text, EntryExpr.text, Expr.named, Expr.var, Expr.text, Symbol.text, Var.text,
    String.toList_append, append_assoc]
  rfl

theorem entryPoint_text (workgroup : Int) (d : Entry) (function : String) :
    Module.entryPoint workgroup d function = entryHead workgroup d.name ++
      String.join ((entryLines workgroup d function).map EntryLine.text) ++ "\x7d\n\n" := by
  have declares : (d.outputs.mapIdx fun i o => EntryLine.declare (outputVar i) o.shape).map
      EntryLine.text = d.outputs.mapIdx Module.outputLine := by
    rw [map_mapIdx]
    exact congrArg (List.mapIdx · d.outputs) (funext fun i => funext fun o => text_declare i o)
  have stores : (d.outputs.mapIdx fun i o => EntryLine.store o.buffer (.named "index")
      (storedExpr i o.shape)).map EntryLine.text = d.outputs.mapIdx Module.storeLine := by
    rw [map_mapIdx]
    exact congrArg (List.mapIdx · d.outputs) (funext fun i => funext fun o => text_store i o)
  unfold entryLines cellLines Module.entryPoint entryHead
  simp only [map_append, declares, stores, String.join_append, map_cons, map_nil,
    text_call, String.join_cons, String.join_nil, text_index, text_size]
  by_cases planar : d.dims = .two
  · simp only [if_pos planar, text_leave.1,
      text_position (p := .position2) (h := .decode2) d.reduction rfl]
    simp only [String.append_assoc]
    rfl
  · simp only [if_neg planar, text_leave.2,
      text_position (p := .position3) (h := .decode3) d.reduction rfl]
    simp only [String.append_assoc]
    rfl

end Terrain.Compile
