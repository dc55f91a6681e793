import Mathlib.Algebra.GroupWithZero.Nat
import Terrain.Proofs.Names

/-!
# Types of generated code

The typing rules of the shading language, as far as generated code uses it, as functions that
compute.  An expression has at most one type.  A number literal has an abstract type until an
operation or a declaration fixes it.

* `Ty`                 scalars and vectors;
* `Ty.ofShape?`        the type that a shape is written as;
* `Operator.type?`     infix operators;
* `Callee.type?`       constructors, built-in functions and routines;
* `Expr.type?`         expressions, over the types of variables and buffers;
* `checkLine`          a line of a function, over the blocks that are open;
* `Routine.head_source`  the signatures of routines are those that their texts begin with.
-/

namespace Terrain.Kernel

open List

variable {s : Shape} {t : Ty}

/-! ## types -/

inductive Scalar where
  | bool | i32 | u32 | f32
  /-- a whole number that is written down -/
  | abstractInt
  /-- a fraction that is written down -/
  | abstractFloat
deriving DecidableEq, Repr

namespace Scalar

def text : Scalar → String
  | bool => "bool" | i32 => "i32" | u32 => "u32" | f32 => "f32"
  | abstractInt => "" | abstractFloat => ""

/-- a value of the first type is taken where one of the second is wanted -/
def fits : Scalar → Scalar → Bool
  | abstractInt, s => s ≠ bool
  | abstractFloat, s => s = f32 ∨ s = abstractFloat
  | a, b => a = b

/-- the type that two operands of an overloaded operation agree on -/
def join? (a b : Scalar) : Option Scalar :=
  if a.fits b then some b else if b.fits a then some a else none

/-- the type that a value has where nothing else fixes it -/
def concrete : Scalar → Scalar
  | abstractInt => i32
  | abstractFloat => f32
  | s => s

def isNumber (s : Scalar) : Bool := s ≠ bool

def isSigned (s : Scalar) : Bool := s ≠ bool ∧ s ≠ u32

def float? : Scalar → Option Scalar
  | f32 => some f32
  | abstractInt | abstractFloat => some abstractFloat
  | _ => none

end Scalar

inductive Ty where
  | scalar (s : Scalar)
  | vec (lanes : Nat) (s : Scalar)
deriving DecidableEq, Repr

namespace Ty

def bool : Ty := scalar .bool
def i32 : Ty := scalar .i32
def u32 : Ty := scalar .u32
def f32 : Ty := scalar .f32

def text : Ty → String
  | scalar s => s.text
  | vec n s => s!"vec{n}<{s.text}>"

def lanes : Ty → Nat
  | scalar _ => 1
  | vec n _ => n

def element : Ty → Scalar
  | scalar s => s
  | vec _ s => s

/-- as many lanes of another type -/
def withElement : Ty → Scalar → Ty
  | scalar _, s => scalar s
  | vec n _, s => vec n s

def isScalar : Ty → Bool
  | scalar _ => true
  | vec _ _ => false

/-- the two are scalars, or vectors of as many lanes -/
def alike : Ty → Ty → Bool
  | scalar _, scalar _ => true
  | vec m _, vec n _ => m = n
  | _, _ => false

def fits (a b : Ty) : Bool := a.alike b && a.element.fits b.element

def concrete (t : Ty) : Ty := t.withElement t.element.concrete

def join? (a b : Ty) : Option Ty :=
  if a.alike b then (a.element.join? b.element).map a.withElement else none

/-- a type with numbers for lanes -/
def number? (t : Ty) : Option Ty := if t.element.isNumber then some t else none

def signed? (t : Ty) : Option Ty := if t.element.isSigned then some t else none

def float? (t : Ty) : Option Ty := t.element.float?.map t.withElement

/-- the type that a shape is written as -/
def ofShape? : Shape → Option Ty
  | .float => some f32
  | .vec2 => some (vec 2 .f32)
  | .vec3 => some (vec 3 .f32)
  | .int => some i32
  | .bool => some bool
  | .rotation => some (vec 4 .f32)
  | .undefined _ => none

/-- the type that a shape has in a buffer -/
def stored? : Shape → Option Ty
  | .bool => some u32
  | s => ofShape? s

theorem text_ofShape (h : ofShape? s = some t) : t.text = s.typeName := by
  cases s <;> cases h <;> decide

theorem text_stored (h : stored? s = some t) : t.text = s.storageName := by
  cases s <;> cases h <;> decide

theorem isSome_ofShape : (ofShape? s).isSome = s.isDefined := by
  cases s <;> rfl

theorem exists_ofShape (defined : s.isDefined = true) : ∃ t, ofShape? s = some t :=
  Option.isSome_iff_exists.1 (isSome_ofShape.trans defined)

/-- the lane that a letter names -/
def lane? : Char → Option Nat
  | 'x' => some 0
  | 'y' => some 1
  | 'z' => some 2
  | 'w' => some 3
  | _ => none

/-- the lanes that a mask names -/
def swizzle? (t : Ty) (mask : List Char) : Option Ty :=
  match t with
  | scalar _ => none
  | vec n s =>
    if mask.all fun c => (lane? c).any (· < n) then
      match mask.length with
      | 1 => some (scalar s)
      | 2 | 3 | 4 => some (vec mask.length s)
      | _ => none
    else none

end Ty

/-! ## operators -/

/-- sums, products and the like; a scalar goes with every lane of a vector -/
def arithType? (a b : Ty) : Option Ty := do
  let s ← a.element.join? b.element
  if s.isNumber then
    if a.isScalar then return b.withElement s
    if b.isScalar then return a.withElement s
    if a.alike b then return a.withElement s
  none

def Operator.type? : Operator → Ty → Ty → Option Ty
  | .arith .add, a, b | .arith .sub, a, b | .arith .mul, a, b | .arith .div, a, b
  | .arith .mod, a, b => arithType? a b
  | .arith _, _, _ => none
  | .compare .equal, a, b | .compare .notEqual, a, b => (a.join? b).map (·.withElement .bool)
  | .compare (.unknown _), _, _ => none
  | .compare _, a, b => ((a.join? b).bind Ty.number?).map (·.withElement .bool)
  | .and, a, b | .or, a, b => if a = .bool ∧ b = .bool then some .bool else none

/-! ## calls -/

/-- the arguments of a routine by name, and what it returns -/
def Routine.signature : Routine → List (String × Ty) × Ty
  | .hashU32 => ([("x", .u32)], .u32)
  | .hash2 => ([("p", .vec 2 .f32)], .f32)
  | .hash3 => ([("p", .vec 3 .f32)], .f32)
  | .hash22 => ([("p", .vec 2 .f32)], .vec 2 .f32)
  | .hash33 => ([("p", .vec 3 .f32)], .vec 3 .f32)
  | .value2 => ([("p", .vec 2 .f32)], .f32)
  | .value3 => ([("p", .vec 3 .f32)], .f32)
  | .grad2 => ([("i", .vec 2 .f32), ("f", .vec 2 .f32)], .f32)
  | .grad3 => ([("i", .vec 3 .f32), ("f", .vec 3 .f32)], .f32)
  | .perlin2 => ([("p", .vec 2 .f32)], .f32)
  | .perlin3 => ([("p", .vec 3 .f32)], .f32)
  | .sdfBox => ([("p", .vec 3 .f32), ("b", .vec 3 .f32)], .f32)
  | .sdfTorus => ([("p", .vec 3 .f32), ("major", .f32), ("minor", .f32)], .f32)
  | .sdfCylinder => ([("p", .vec 3 .f32), ("r", .f32), ("h", .f32)], .f32)
  | .smoothMin => ([("a", .f32), ("b", .f32), ("k", .f32)], .f32)
  | .smoothMax => ([("a", .f32), ("b", .f32), ("k", .f32)], .f32)
  | .quatAxisAngle => ([("axis", .vec 3 .f32), ("angle", .f32)], .vec 4 .f32)
  | .quatEuler => ([("e", .vec 3 .f32)], .vec 4 .f32)
  | .quatRotate => ([("v", .vec 3 .f32), ("q", .vec 4 .f32)], .vec 3 .f32)
  | .cacheIndex => ([("p", .vec 3 .f32), ("r", .u32)], .u32)

/-- the first line of a function that returns a value -/
def headText (name : String) (args : List (String × Ty)) (result : Ty) : String :=
  "fn " ++ name ++ "(" ++ ", ".intercalate (args.map fun a => a.1 ++ ": " ++ a.2.text) ++ ") -> " ++
    result.text ++ " \x7b\n"

theorem begins_append {a b c : String} (h : ∃ rest, b = a ++ rest) :
    ∃ rest, b ++ c = a ++ rest := by
  obtain ⟨rest, rfl⟩ := h
  exact ⟨rest ++ c, String.append_assoc⟩

theorem Routine.head_source (r : Routine) :
    ∃ rest, r.source = headText r.name r.signature.1 r.signature.2 ++ rest := by
  cases r <;>
    unfold source <;>
    repeat apply begins_append
  all_goals exact ⟨"", by decide⟩

def fitAll : List Ty → List Ty → Bool
  | [], [] => true
  | a :: as, b :: bs => a.fits b && fitAll as bs
  | _, _ => false

/-- functions of one argument that every lane goes through -/
def UnaryOp.type? (op : UnaryOp) (t : Ty) : Option Ty :=
  match op with
  | .abs => t.number?
  | .sign => t.signed?
  | .length => t.float?.map fun f => .scalar f.element
  | .normalize => if t.isScalar then none else t.float?
  | .neg | .unknown _ => none
  | _ => t.float?

/-- a value made from scalars, or from one that is repeated -/
def constructType? (target : Ty) (args : List Ty) : Option Ty :=
  match target, args with
  | .scalar _, [.scalar _] => some target
  | .vec _ s, [.scalar a] => if a.fits s then some target else none
  | .vec n s, args =>
    if (args.map Ty.lanes).sum = n ∧ args.all (·.element.fits s) then some target else none
  | _, _ => none

def Callee.type? : Callee → List Ty → Option Ty
  | .unary op, [t] => UnaryOp.type? op t
  | .binary .min, [a, b] | .binary .max, [a, b] => (a.join? b).bind Ty.number?
  | .binary .pow, [a, b] => (a.join? b).bind Ty.float?
  | .dot, [a, b] =>
    if a.isScalar then none else ((a.join? b).bind Ty.number?).map fun t => .scalar t.element
  | .cross, [a, b] => if a.lanes = 3 then (a.join? b).bind Ty.float? else none
  -- the condition is not known beforehand, so the result is not abstract
  | .select, [a, b, condition] =>
    if condition = .bool ∨ condition = a.withElement .bool then
      (a.join? b).map Ty.concrete else none
  | .mix, [a, b, t] => do
    let both ← (a.join? b).bind Ty.float?
    if t.isScalar then return both.withElement (← both.element.join? t.element)
    both.join? t
  | .clamp, [x, low, high] => ((x.join? low).bind (·.join? high)).bind Ty.number?
  | .smoothstep, [low, high, x] => ((low.join? high).bind (·.join? x)).bind Ty.float?
  | .convert s, args => (Ty.ofShape? s).bind (constructType? · args)
  | .routine r, args =>
    if fitAll args (r.signature.1.map Prod.snd) then some r.signature.2 else none
  | .seed, [] => some (.vec 3 .f32)
  | _, _ => none

/-! ## expressions -/

/-- the type of a number by what its first digits stand for and what is behind them -/
def endingType? (value : Nat) : List Char → Option Ty
  | [] => some (.scalar .abstractInt)
  | ['u'] => if value < 2 ^ 32 then some .u32 else none
  | '.' :: rest => if rest.all Char.isDigit then some (.scalar .abstractFloat) else none
  | 'e' :: rest =>
    if !rest.isEmpty && rest.all Char.isDigit then some (.scalar .abstractFloat) else none
  | _ => none

/-- the type of a number as it is written -/
def literalType? (text : String) : Option Ty :=
  let digits := text.toList.takeWhile Char.isDigit
  if digits.isEmpty then none
  else endingType? (Nat.ofDigitChars 10 digits 0) (text.toList.dropWhile Char.isDigit)

/-- a slot of four floats, as its symbol reads it -/
def slotType? (s : Shape) : Option Ty :=
  let slot : Ty := .vec 4 .f32
  match s with
  | .float => slot.swizzle? ['x']
  | .vec2 => slot.swizzle? ['x', 'y']
  | .vec3 => slot.swizzle? ['x', 'y', 'z']
  | .int => (slot.swizzle? ['x']).bind fun x => constructType? .i32 [x]
  | .bool => (slot.swizzle? ['x']).bind fun x =>
      (literalType? "0.0").bind fun zero => (Operator.compare .notEqual).type? x zero
  | _ => some slot

/-- what an expression can name: variables, and buffers with the types of their elements -/
structure Names where
  var : Var → Option Ty
  buffer : String → Option Ty

def Symbol.type? (Γ : Names) : Symbol → Option Ty
  | .var v => Γ.var v
  | .param _ s => slotType? s

def Expr.type? (Γ : Names) : Expr → Option Ty
  | .sym s => s.type? Γ
  | .literal text => literalType? text
  | .neg e => (e.type? Γ).bind Ty.signed?
  | .not e => (e.type? Γ).bind fun t => if t.element = .bool then some t else none
  | .op o a b => (a.type? Γ).bind fun s => (b.type? Γ).bind fun t => o.type? s t
  | .call0 f => f.type? []
  | .call1 f a => (a.type? Γ).bind fun s => f.type? [s]
  | .call2 f a b => (a.type? Γ).bind fun s => (b.type? Γ).bind fun t => f.type? [s, t]
  | .call3 f a b d => (a.type? Γ).bind fun s => (b.type? Γ).bind fun t => (d.type? Γ).bind fun u =>
      f.type? [s, t, u]
  | .lanes e mask => (e.type? Γ).bind (·.swizzle? mask.toList)
  | .sample b index => (index.type? Γ).bind fun t =>
      if t = .u32 ∨ t = .i32 ∨ t = .scalar .abstractInt then Γ.buffer b else none
  | .group e => e.type? Γ

/-- the reading of a slot, written out -/
def slotExpr (k : Nat) (s : Shape) : Expr :=
  let slot : Expr := .sample "params" (.literal (toString k))
  match s with
  | .float => .lanes slot "x"
  | .vec2 => .lanes slot "xy"
  | .vec3 => .lanes slot "xyz"
  | .int => .call1 (.convert .int) (.lanes slot "x")
  | .bool => .group (.op (.compare .notEqual) (.lanes slot "x") (.literal "0.0"))
  | _ => slot

theorem text_slotExpr (k : Nat) (s : Shape) : (slotExpr k s).text = (Symbol.param k s).text := by
  refine String.toList_inj.1 ?_
  cases s <;>
    simp only [slotExpr, Expr.text, Symbol.text, String.toList_append, append_assoc] <;> rfl

theorem takeWhile_digits (k : Nat) (tail : List Char) :
    ((toString k).toList ++ tail).takeWhile Char.isDigit =
      (toString k).toList ++ tail.takeWhile Char.isDigit :=
  takeWhile_append_of_pos fun _ h => isDigit_of_mem h

theorem dropWhile_digits (k : Nat) (tail : List Char) :
    ((toString k).toList ++ tail).dropWhile Char.isDigit = tail.dropWhile Char.isDigit :=
  dropWhile_append_of_pos fun _ h => isDigit_of_mem h

theorem toList_toString_ne_nil (k : Nat) : (toString k).toList ≠ [] := by
  rw [Nat.toString_eq_repr, Nat.toList_repr]
  exact Nat.toDigits_ne_nil

theorem literalType_append (k : Nat) {tail : String}
    (other : tail.toList.takeWhile Char.isDigit = []) :
    literalType? (toString k ++ tail) = endingType? k (tail.toList.dropWhile Char.isDigit) := by
  have digits : (toString k).toList.isEmpty = false :=
    isEmpty_eq_false_iff.2 (toList_toString_ne_nil k)
  unfold literalType?
  simp only [String.toList_append, takeWhile_digits, dropWhile_digits, other, append_nil,
    ofDigitChars_toString, digits]
  rfl

theorem literalType_digits (k : Nat) : literalType? (toString k) = some (.scalar .abstractInt) := by
  have := @literalType_append k "" rfl
  rwa [String.append_empty] at this

theorem literalType_word {r : Int} (low : 0 ≤ r) (high : r < 2 ^ 32) :
    literalType? s!"{r}u" = some .u32 := by
  obtain ⟨k, rfl⟩ := Int.eq_ofNat_of_zero_le low
  have text : s!"{(k : Int)}u" = toString (k : Int) ++ "u" := by
    simp [toString]
  have same : toString (k : Int) = toString k := rfl
  rw [text, same, @literalType_append k "u" rfl]
  exact if_pos (by omega)

theorem type_slotExpr {Γ : Names} (params : Γ.buffer "params" = some (.vec 4 .f32)) (k : Nat)
    (s : Shape) : (slotExpr k s).type? Γ = slotType? s := by
  have slot : (Expr.sample "params" (.literal (toString k))).type? Γ = some (.vec 4 .f32) := by
    show (literalType? (toString k)).bind _ = _
    rw [literalType_digits]
    exact params
  unfold slotExpr
  generalize Expr.sample "params" (.literal (toString k)) = e at slot
  cases s <;> simp only [Expr.type?, slot] <;> rfl

/-! ## more names -/

theorem bind_some_mono {α β : Type} {o o' : Option α} {f f' : α → Option β} {b : β}
    (h : o.bind f = some b) (first : ∀ {a}, o = some a → o' = some a)
    (rest : ∀ {a}, f a = some b → f' a = some b) : o'.bind f' = some b := by
  obtain ⟨a, known, h⟩ := Option.bind_eq_some_iff.1 h
  exact Option.bind_eq_some_iff.2 ⟨a, first known, rest h⟩

/-- what the first names, the second names with the same types -/
structure Names.Le (Γ Γ' : Names) : Prop where
  var : ∀ {v t}, Γ.var v = some t → Γ'.var v = some t
  buffer : ∀ {b t}, Γ.buffer b = some t → Γ'.buffer b = some t

theorem Symbol.type_mono {Γ Γ' : Names} (le : Γ.Le Γ') {s : Symbol} (h : s.type? Γ = some t) :
    s.type? Γ' = some t := by
  cases s with
  | var v => exact le.var h
  | param k shape => exact h

theorem Expr.type_mono {Γ Γ' : Names} (le : Γ.Le Γ') {e : Expr} (h : e.type? Γ = some t) :
    e.type? Γ' = some t := by
  induction e generalizing t with
  | sym s => exact Symbol.type_mono le h
  | literal text => exact h
  | call0 f => exact h
  | group e ih => exact ih h
  | neg e ih | not e ih | call1 f e ih | lanes e mask ih =>
    exact bind_some_mono h ih id
  | op o a b iha ihb | call2 f a b iha ihb =>
    exact bind_some_mono h iha fun h => bind_some_mono h ihb id
  | call3 f a b d iha ihb ihd =>
    exact bind_some_mono h iha fun h => bind_some_mono h ihb fun h => bind_some_mono h ihd id
  | sample b index ih =>
    refine bind_some_mono h ih fun rest => ?_
    split at rest
    case isTrue whole =>
      rw [if_pos whole]
      exact le.buffer rest
    case isFalse => cases rest

end Terrain.Kernel

namespace Terrain.Compile

open Kernel

/-! ## functions -/

/-- what a function can name outside of itself -/
structure Globals where
  /-- the types of the elements of buffers -/
  buffer : String → Option Ty
  /-- the arguments of functions that return nothing -/
  function : String → Option (List Argument)

/-- the locals of a block, with their types, and whether they can be assigned to -/
abbrev Block := List (Var × Ty × Bool)

/-- a local, the inner block first -/
def findLocal (blocks : List Block) (v : Var) : Option (Ty × Bool) := blocks.findSome? (·.lookup v)

def argumentType? (args : List Argument) (name : String) (output : Bool) : Option Ty :=
  (args.find? fun a => a.output == output && a.name == name).bind fun a => Ty.ofShape? a.shape

/-- what is at hand in a function, where some blocks are open -/
def Globals.names (Γ : Globals) (args : List Argument) (blocks : List Block) : Names where
  buffer := Γ.buffer
  var v := ((findLocal blocks v).map Prod.fst).or (argumentType? args v.text false)

/-- one more local of the inner block, unless its name is taken -/
def addLocal (args : List Argument) (v : Var) (t : Ty) (mutable : Bool) :
    List Block → Option (List Block)
  | [] => none
  | block :: rest =>
    if (findLocal (block :: rest) v).isSome || (argumentType? args v.text false).isSome then none
    else some ((block ++ [(v, t, mutable)]) :: rest)

/-- the arguments of a call: a value is converted, a pointer is to the very type -/
def fitArguments : List Argument → List (Ty × Bool) → Bool
  | [], [] => true
  | a :: as, (t, pointer) :: ts =>
    a.output == pointer &&
      (Ty.ofShape? a.shape).any (fun want => if pointer then t = want else t.fits want) &&
      fitArguments as ts
  | _, _ => false

/-- a whole number that a signed word holds -/
def isWord (n : Int) : Bool := -2147483648 ≤ n ∧ n ≤ 2147483647

def checkLine (Γ : Globals) (args : List Argument) (blocks : List Block) :
    Line → Option (List Block)
  | .bind v s e => do
    let want ← Ty.ofShape? s
    let t ← e.type? (Γ.names args blocks)
    if t.fits want then addLocal args v want false blocks else none
  | .letVar v e => do addLocal args v (← e.type? (Γ.names args blocks)).concrete false blocks
  | .declare v s => do addLocal args v (← Ty.ofShape? s) true blocks
  | .start v e => do addLocal args v (← e.type? (Γ.names args blocks)).concrete true blocks
  | .assign v e => do
    let (want, mutable) ← findLocal blocks v
    let t ← e.type? (Γ.names args blocks)
    if mutable && t.fits want then some blocks else none
  | .store output e => do
    let want ← argumentType? args output true
    let t ← e.type? (Γ.names args blocks)
    if t.fits want then some blocks else none
  | .call f given result => do
    let wants ← Γ.function f
    let ts ← given.mapM (Symbol.type? (Γ.names args blocks))
    let (t, mutable) ← findLocal blocks result
    if mutable && fitArguments wants (ts.map (·, false) ++ [(t, true)]) then some blocks else none
  -- the variable starts as a whole number, is compared with one, and is counted up
  | .loop v first relation last => do
    let test ← (Operator.compare relation).type? .i32 (.scalar .abstractInt)
    let _ ← addLocal args v .i32 true blocks
    if isWord first && isWord last && test = .bool then some ([(v, .i32, true)] :: blocks) else none
  | .test e => do
    let t ← e.type? (Γ.names args blocks)
    if t = .bool then some ([] :: blocks) else none
  | .otherwise e =>
    match blocks with
    | _ :: outer :: rest => do
      let t ← e.type? (Γ.names args (outer :: rest))
      if t = .bool then some ([] :: outer :: rest) else none
    | _ => none
  | .close =>
    match blocks with
    | _ :: outer :: rest => some (outer :: rest)
    | _ => none
  | .verbatim _ => none

def checkLines (Γ : Globals) (args : List Argument) (blocks : List Block) (ls : List Indented) :
    Option (List Block) := ls.foldlM (fun blocks l => checkLine Γ args blocks l.line) blocks

/-- a function is well typed: its arguments have types, and so do its lines, one after the other -/
structure FunctionTyped (Γ : Globals) (s : Scope) : Prop where
  args : ∀ a ∈ s.args, (Ty.ofShape? a.shape).isSome = true
  body : ∃ block, checkLines Γ s.args [[]] s.lines.toList = some [block]

/-! ## more declarations -/

/-- what the first declares, the second declares in the same way -/
structure Globals.Le (Γ Γ' : Globals) : Prop where
  buffer : ∀ {b t}, Γ.buffer b = some t → Γ'.buffer b = some t
  function : ∀ {f args}, Γ.function f = some args → Γ'.function f = some args

section
variable {Γ Γ' : Globals} {args : List Argument}

theorem Globals.Le.names (le : Γ.Le Γ') (args : List Argument) (blocks : List Block) :
    (Γ.names args blocks).Le (Γ'.names args blocks) :=
  ⟨fun h => h, le.buffer⟩

theorem mapM_type_mono {Δ Δ' : Names} (le : Δ.Le Δ') {ss : List Symbol} {ts : List Ty}
    (h : ss.mapM (Symbol.type? Δ) = some ts) : ss.mapM (Symbol.type? Δ') = some ts := by
  induction ss generalizing ts with
  | nil => exact h
  | cons s ss ih =>
    rw [List.mapM_cons] at h ⊢
    exact bind_some_mono h (s.type_mono le) fun h => bind_some_mono h ih id

theorem checkLine_mono (le : Γ.Le Γ') {blocks blocks' : List Block} {l : Line}
    (h : checkLine Γ args blocks l = some blocks') : checkLine Γ' args blocks l = some blocks' := by
  have more := le.names args
  cases l with
  | declare | loop | close | verbatim => exact h
  | letVar v e | start v e | test e =>
    exact bind_some_mono h (e.type_mono (more blocks)) id
  | bind v s e | assign v e | store output e =>
    exact bind_some_mono h id fun h => bind_some_mono h (e.type_mono (more blocks)) id
  | call f given result =>
    exact bind_some_mono h le.function fun h =>
      bind_some_mono h (mapM_type_mono (more blocks)) id
  | otherwise e =>
    rcases blocks with _ | ⟨_, _ | ⟨outer, rest⟩⟩
    · cases h
    · cases h
    · exact bind_some_mono h (e.type_mono (more _)) id

theorem checkLines_mono (le : Γ.Le Γ') {ls : List Indented} {blocks blocks' : List Block}
    (h : checkLines Γ args blocks ls = some blocks') :
    checkLines Γ' args blocks ls = some blocks' := by
  induction ls generalizing blocks with
  | nil => exact h
  | cons l ls ih =>
    exact bind_some_mono h (checkLine_mono le) ih

theorem FunctionTyped.mono (le : Γ.Le Γ') {s : Scope} (h : FunctionTyped Γ s) :
    FunctionTyped Γ' s := ⟨h.args, h.body.imp fun _ checked => checkLines_mono le checked⟩

end

end Terrain.Compile
