import Terrain.Proofs.Growth

/-!
# What generated code depends on

The code of a node depends on its operation and on the shapes of its operands, not on its number,
not on the nodes that the operands come from, not on the value of a constant, not on the fallback
of a parameter and not on the name of a reference.  `Node.bare` is a node without these, and
whatever goes into code is the same for a node and for its bare form.

* `Op.strip`, `Node.bare`   what the code depends on;
* `Op.form`                 how the code of an operation comes about;
* `Rule.ofForm`             the rule of a node, told by the form of its operation.
-/

namespace Terrain

open Kernel Compile

/-- an operation without what does not reach the code -/
def Op.strip : Op → Op
  | .constant v => .constant ⟨v.shape, default⟩
  | .inject name s _ => .inject name s none
  | .ref _ s => .ref "" s
  | op => op

/-- a node without its number, its sources and what its operation does not need -/
def Node.bare (n : Node) : Node :=
  ⟨0, n.op.strip, n.inputs.map (·.map fun w => ⟨0, w.shape⟩)⟩

section
variable (n : Node)

theorem op_bare : n.bare.op = n.op.strip := rfl

theorem length_bare : n.bare.inputs.length = n.inputs.length := List.length_map _

theorem kind_bare : n.bare.kind = n.kind := by
  unfold Node.kind
  rw [op_bare]
  cases n.op <;> rfl

theorem strip_typingOf (op : Op) (shapes : List Shape) :
    op.strip.typingOf shapes = op.typingOf shapes := by
  cases op <;> rfl

theorem strip_typing (op : Op) (operands : List (Option Shape)) :
    op.strip.typing operands = op.typing operands := by
  unfold Op.typing
  split
  · exact strip_typingOf op _
  · cases op <;> rfl

theorem typing_bare : n.bare.typing = n.typing := by
  unfold Node.typing Node.bare
  rw [strip_typing, List.map_map]
  congr 1
  apply List.map_congr_left
  intro o _
  cases o <;> rfl

theorem shape_bare : n.bare.shape = n.shape := by
  unfold Node.shape
  rw [typing_bare]

theorem inputShape_bare (i : Nat) : n.bare.inputShape i = n.inputShape i := by
  unfold Node.inputShape Node.bare
  rw [List.getElem?_map]
  cases n.inputs[i]? with
  | none => rfl
  | some o => cases o <;> rfl

theorem dims_bare : n.bare.dims = n.dims := by
  unfold Node.dims
  rw [typing_bare, inputShape_bare]

theorem leadingShapes_bare (ws : List (Option Wire)) :
    leadingShapes (ws.map (·.map fun w => ⟨0, w.shape⟩)) = leadingShapes ws := by
  induction ws with
  | nil => rfl
  | cons o ws ih =>
    cases o with
    | none => rfl
    | some w => exact congrArg (List.cons _) ih

theorem namedOperands_strip (op : Op) (arity : Nat) :
    op.strip.namedOperands arity = op.namedOperands arity := by
  cases op <;> rfl

theorem operandBytes_bare : n.bare.operandBytes = n.operandBytes := by
  unfold Node.operandBytes
  rw [op_bare, namedOperands_strip, length_bare]
  unfold Node.bare
  rw [← List.map_take, leadingShapes_bare]

theorem structureComplete_bare : n.bare.structureComplete = n.structureComplete := by
  unfold Node.structureComplete
  rw [operandBytes_bare, op_bare, namedOperands_strip, length_bare]

theorem structureBytes_bare : n.bare.structureBytes = n.structureBytes := by
  unfold Node.structureBytes
  rw [operandBytes_bare, shape_bare, dims_bare, op_bare, length_bare]
  cases n.op <;> rfl

theorem termRoutines_bare : termRoutines n.bare = termRoutines n := by
  unfold termRoutines
  rw [inputShape_bare, op_bare]
  cases n.op <;> rfl

theorem widened_bare : widened n.bare = widened n := by
  funext es
  unfold widened
  rw [shape_bare]
  simp only [inputShape_bare]

theorem term_bare (es : List Expr) : term n.bare es = term n es := by
  unfold term
  rw [inputShape_bare, shape_bare, widened_bare, op_bare]
  cases n.op <;> rfl

theorem nestedKey_bare : nestedKey n.bare = nestedKey n := by
  unfold nestedKey
  rw [dims_bare, op_bare]
  cases n.op <;> rfl

theorem nestedParts_bare : nestedParts n.bare = nestedParts n := by
  unfold nestedParts
  rw [inputShape_bare, nestedKey_bare, op_bare]
  cases n.op <;> rfl

end

/-! ## rules by the form of the operation -/

/-- how the code of an operation comes about -/
inductive Op.Form where
  | position | constant | inject | ref | function | cache | operands
deriving DecidableEq

def Op.form : Op → Op.Form
  | .position => .position
  | .constant _ => .constant
  | .inject _ _ _ => .inject
  | .ref _ _ => .ref
  | .fractal _ _ | .cellular _ _ => .function
  | .cache _ => .cache
  | _ => .operands

theorem Op.form_strip (op : Op) : op.strip.form = op.form := by
  cases op <;> rfl

namespace Compile

/-- the code of a node whose operands have their symbols -/
def computed (n : Node) (ss : List Symbol) (c : Context) : Symbol × Context :=
  match n.op, ss with
  | .cast target, [s] =>
    if n.inputShape 0 = target then (s, c)
    else (c.nextBound, c.declared n.shape (term n [.sym s]))
  | .distance metric, [a, b] =>
    let delta := c.declared (n.inputShape 0) (.sub (.sym a) (.sym b))
    (delta.nextBound, delta.declared n.shape (.metric metric (.sym c.nextBound) (n.inputShape 0)))
  | _, ss =>
    (c.nextBound, (c.requiredAll (termRoutines n)).declared n.shape (term n (ss.map Expr.sym)))

theorem computed_plain {n : Node} (plain : Node.isPlain n = true) (ss : List Symbol) (c : Context) :
    computed n ss c =
      (c.nextBound, (c.requiredAll (termRoutines n)).declared n.shape
        (term n (ss.map Expr.sym))) := by
  unfold computed
  split
  case h_1 target s op =>
    have differs : n.inputShape 0 ≠ target := by simpa [Node.isPlain, op] using plain
    have none : termRoutines n = [] := by simp [termRoutines, op]
    rw [if_neg differs, none]
    rfl
  case h_2 op => simp [Node.isPlain, op] at plain
  case h_3 => rfl

theorem computed_reaches (n : Node) (ss : List Symbol) (c : Context) :
    Reaches c (computed n ss c).2 := by
  unfold computed
  split
  case h_1 =>
    split
    · exact .refl
    · exact .single (.declared c _ _)
  case h_2 => exact .head (.declared c _ _) (.single (.declared _ _ _))
  case h_3 => exact (reaches_requiredAll _ c).tail (.declared _ _ _)

/-- a rule, told by the form of the operation -/
def RuleOf (visit : Visit) (n : Node) (c : Context) (s : Symbol) (c' : Context) : Op.Form → Prop
  | .position => s = .var .position ∧ c' = c
  | .constant => ∃ v slot, n.op = .constant v ∧ ConstantSlot n.id v c slot c' ∧
      s = .param slot v.shape
  | .inject => ∃ name shape fallback v slot, n.op = .inject name shape fallback ∧ v.shape = shape ∧
      InjectedSlot name v c slot c' ∧ s = .param slot shape
  | .ref => ∃ w rest, n.inputs = some w :: rest ∧ Ran (visit w.source) c s c'
  | .function => ∃ r spec t ss d ss' d' callee e, nestedParts n = some (r, spec, t) ∧
      Visits visit n.inputs c ss d ∧ Visits visit n.inputs (d.required r) ss' d' ∧
      FunctionOf spec (n.inputs.filterMap id) t d' callee e ∧
      s = .var (.result (e.names + 1)) ∧ c' = e.called (e.scope callee).name spec.result ss'
  | .cache => ∃ reduction w id d output more, n.op = .cache reduction ∧ n.inputs = [some w] ∧
      CacheOf visit n w.source reduction c id d ∧ (d.entry id).outputs = output :: more ∧
      s = d.nextBound ∧
      c' = (d.required .cacheIndex).declared n.shape (sampleExpr output.buffer reduction)
  | .operands => ∃ ss d, Visits visit n.inputs c ss d ∧ (s, c') = computed n ss d

theorem form_of_isPlain {n : Node} (plain : Node.isPlain n = true) : n.op.form = .operands := by
  unfold Node.isPlain at plain
  split at plain <;> first | cases plain | skip
  case h_10 target op => rw [op]; rfl
  case h_11 =>
    unfold Op.form
    split <;> simp_all

theorem Rule.ofForm {visit : Visit} {n : Node} {c c' : Context} {s : Symbol}
    (h : Rule visit n c s c') : RuleOf visit n c s c' n.op.form := by
  cases h with
  | position op placed =>
    rw [op]
    exact ⟨rfl, rfl⟩
  | constant op defined taken =>
    rw [op]
    exact ⟨_, _, op, taken, rfl⟩
  | inject op named bound fits taken =>
    rw [op]
    exact ⟨_, _, _, _, _, op, fits, taken, rfl⟩
  | ref op inputs target fits =>
    rw [op]
    exact ⟨_, _, inputs, target⟩
  | same op inputs typed fits =>
    rw [op]
    refine ⟨_, _, inputs, ?_⟩
    simp only [computed, op, fits, if_true]
  | term plain inputs typed =>
    rw [form_of_isPlain plain]
    exact ⟨_, _, inputs, (computed_plain plain _ _).symm⟩
  | distance op inputs typed =>
    rw [op]
    refine ⟨_, _, inputs, ?_⟩
    simp only [computed, op]
  | nested parts octaves inputs typed again function =>
    have form : n.op.form = .function := by
      unfold nestedParts at parts
      split at parts
      case h_1 op => rw [op]; rfl
      case h_2 op => rw [op]; rfl
      case h_3 => cases parts
    rw [form]
    exact ⟨_, _, _, _, _, _, _, _, _, parts, inputs, again, function, rfl, rfl⟩
  | cache op range inputs typed placed dispatch made =>
    rw [op]
    exact ⟨_, _, _, _, _, _, op, inputs, dispatch, made, rfl, rfl⟩

theorem computed_bare (n : Node) (ss : List Symbol) (c : Context) :
    computed n.bare ss c = computed n ss c := by
  unfold computed
  rw [inputShape_bare, shape_bare, termRoutines_bare, op_bare]
  simp only [term_bare]
  cases n.op <;> rfl

end Compile
end Terrain
