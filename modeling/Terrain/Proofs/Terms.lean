import Terrain.Proofs.Safety
import Terrain.Proofs.Scoping
import Terrain.Proofs.Types

/-!
# Types of terms

The shape that is worked out for a node when it is built is the type of the expression that is
generated for it, whatever its operands are, as long as they have the types of their shapes.

* `HasShape`        an expression has the type that a shape is written as;
* `type_term`       the term of a node has the type of its shape;
* `type_metric`     so has the length of a difference;
* `typed_nested`    the functions of fractal and cellular sampling are well typed.
-/

namespace Terrain.Compile

open Kernel List

variable {f : Callee} {e : Expr} {r : Routine} {spec : Nested}
variable {s : Shape} {a : Expr} {t : Template} {n : Node} {ws : List Wire}

theorem eq_of_isScalar (h : s.isScalar = true) : s = .float ∨ s = .int ∨ s = .bool := by
  cases s <;> simp_all [Shape.isScalar]

theorem isFloatLike_of_isVector (h : s.isVector = true) : s.isFloatLike = true := by
  rcases eq_of_isVector h with rfl | rfl <;> rfl

theorem eq_of_isFloatLike (h : s.isFloatLike = true) : s = .float ∨ s = .vec2 ∨ s = .vec3 := by
  cases s <;> simp_all [Shape.isFloatLike]

section
variable {Γ : Names}

def HasShape (Γ : Names) (e : Expr) (s : Shape) : Prop := e.type? Γ = Ty.ofShape? s

/-! ## rules

Each rule of the language, read at the types of shapes. -/

section
variable {a b d : Expr} {s t u σ : Shape}

theorem HasShape.group (h : HasShape Γ a s) : HasShape Γ (.group a) s := h

theorem HasShape.neg (h : HasShape Γ a s) (number : s.isFloatLike = true ∨ s = .int) :
    HasShape Γ (.neg a) s := by
  unfold HasShape at h ⊢
  simp only [Expr.type?, h]
  cases s <;> simp_all [Shape.isFloatLike] <;> rfl

theorem HasShape.not (h : HasShape Γ a .bool) : HasShape Γ (.not a) .bool := by
  unfold HasShape at h ⊢
  simp only [Expr.type?, h]
  rfl

section
variable (h : HasShape Γ a s)
include h

theorem HasShape.op {o : Operator} (h' : HasShape Γ b t)
    (rule : ((Ty.ofShape? s).bind fun x => (Ty.ofShape? t).bind fun y => o.type? x y) =
      Ty.ofShape? σ) :
    HasShape Γ (.op o a b) σ := by
  unfold HasShape at h h' ⊢
  rw [← rule, ← h, ← h']
  rfl

theorem HasShape.call1 (rule : ((Ty.ofShape? s).bind fun x => f.type? [x]) = Ty.ofShape? σ) :
    HasShape Γ (.call1 f a) σ := by
  unfold HasShape at h ⊢
  rw [← rule, ← h]
  rfl

theorem HasShape.call2 (h' : HasShape Γ b t)
    (rule : ((Ty.ofShape? s).bind fun x => (Ty.ofShape? t).bind fun y => f.type? [x, y]) =
      Ty.ofShape? σ) : HasShape Γ (.call2 f a b) σ := by
  unfold HasShape at h h' ⊢
  rw [← rule, ← h, ← h']
  rfl

theorem HasShape.call3 (h' : HasShape Γ b t) (h'' : HasShape Γ d u)
    (rule : ((Ty.ofShape? s).bind fun x => (Ty.ofShape? t).bind fun y =>
      (Ty.ofShape? u).bind fun z =>
      f.type? [x, y, z]) = Ty.ofShape? σ) : HasShape Γ (.call3 f a b d) σ := by
  unfold HasShape at h h' h'' ⊢
  rw [← rule, ← h, ← h', ← h'']
  rfl

theorem HasShape.lanes {mask : String}
    (rule : ((Ty.ofShape? s).bind fun x => x.swizzle? mask.toList) = Ty.ofShape? σ) :
    HasShape Γ (.lanes a mask) σ := by
  unfold HasShape at h ⊢
  rw [← rule, ← h]
  rfl

end

theorem HasShape.arith (op : BinaryOp) (h : HasShape Γ a s) (h' : HasShape Γ b s)
    (known : ∀ k, op ≠ .unknown k) (number : s.isFloatLike = true ∨ s = .int ∧ op ≠ .pow) :
    HasShape Γ (Term.arith op a b) s := by
  have shapes : s = .float ∨ s = .vec2 ∨ s = .vec3 ∨ s = .int ∧ op ≠ .pow := by
    cases s <;> simp_all [Shape.isFloatLike]
  cases op with
  | unknown k => exact absurd rfl (known k)
  | add | sub | mul | div | mod =>
    rcases shapes with rfl | rfl | rfl | ⟨rfl, -⟩ <;> exact h.op h' rfl
  | min | max => rcases shapes with rfl | rfl | rfl | ⟨rfl, -⟩ <;> exact h.call2 h' rfl
  | pow =>
    rcases shapes with rfl | rfl | rfl | ⟨-, other⟩
    · exact h.call2 h' rfl
    · exact h.call2 h' rfl
    · exact h.call2 h' rfl
    · exact absurd rfl other

section
variable (h : HasShape Γ a s) (h' : HasShape Γ b s) (float : s.isFloatLike = true)
include h h' float

theorem HasShape.add : HasShape Γ (.add a b) s := h.arith .add h' nofun (.inl float)

theorem HasShape.sub : HasShape Γ (.sub a b) s := h.arith .sub h' nofun (.inl float)

theorem HasShape.mul : HasShape Γ (.mul a b) s := h.arith .mul h' nofun (.inl float)

theorem HasShape.div : HasShape Γ (.div a b) s := h.arith .div h' nofun (.inl float)

end

theorem HasShape.widen (h : HasShape Γ a s) (fits : s = t ∨ s = .float ∧ t.isVector = true) :
    HasShape Γ (Expr.widen s t a) t := by
  unfold Expr.widen
  rcases fits with rfl | ⟨rfl, vector⟩
  · have whole : ¬ (s = .float ∧ s.isVector = true) := by
      rintro ⟨rfl, vector⟩
      cases vector
    rw [if_neg whole]
    exact h
  · rw [if_pos ⟨rfl, vector⟩]
    cases t with
    | vec2 | vec3 => exact h.call1 rfl
    | _ => cases vector

end

/-! ## terms -/

theorem type_cast {t : Shape} (h : HasShape Γ a s) (source : s.isScalar = true)
    (target : t.isScalar = true) (differs : s ≠ t) : HasShape Γ (Term.cast s t a) t := by
  unfold HasShape at h ⊢
  rcases eq_of_isScalar source with rfl | rfl | rfl <;>
    rcases eq_of_isScalar target with rfl | rfl | rfl <;>
    first
      | exact absurd rfl differs
      | simp only [Term.cast, Expr.type?, h]; rfl

theorem type_unary {op : UnaryOp} {σ : Shape} (h : HasShape Γ a s)
    (accepts : (Op.unary op).Accepts [s] σ) (other : op ≠ .neg) :
    HasShape Γ (.call1 (.unary op) a) σ := by
  refine h.call1 ?_
  cases accepts with
  | signed either number =>
    obtain rfl : op = .abs := either.resolve_left other
    cases s <;> simp_all [Shape.isFloatLike] <;> rfl
  | length vector | normalize vector => cases s <;> simp_all [Shape.isVector] <;> rfl
  | function known signless others float =>
    rcases eq_of_isFloatLike float with rfl | rfl | rfl <;> cases op <;> simp_all <;> rfl

theorem type_blend {op : BlendOp} {es : List Expr} (float : s.isFloatLike = true)
    (operands : ∀ e ∈ es, HasShape Γ e s) (length : es.length = if op = .remap then 5 else 3) :
    HasShape Γ (Term.blend op es) s := by
  cases op with
  | remap =>
    rcases es with _ | ⟨x, _ | ⟨a, _ | ⟨b, _ | ⟨low, _ | ⟨high, _ | ⟨y, rest⟩⟩⟩⟩⟩⟩ <;> cases length
    simp only [forall_mem_cons] at operands
    obtain ⟨hx, ha, hb, hc, hd, -⟩ := operands
    have span {high low : Expr} (h : HasShape Γ high s) (h' : HasShape Γ low s) :
        HasShape Γ (.group (.sub high low)) s := (h.sub h' float).group
    exact hc.add (((span hx ha).mul (span hd hc) float).div (span hb ha) float) float
  | _ =>
    obtain ⟨x, y, z, rfl⟩ := length_eq_three.1 length
    simp only [forall_mem_cons] at operands
    obtain ⟨hx, hy, hz, -⟩ := operands
    refine hx.call3 hy hz ?_
    rcases eq_of_isFloatLike float with rfl | rfl | rfl <;> rfl

theorem type_primitive {body : Primitive} {es : List Expr}
    (operands : Forall₂ (HasShape Γ) es body.operands) :
    HasShape Γ (Term.primitive body es) .float := by
  cases body with
  | sphere =>
    rcases operands with _ | ⟨hp, _ | ⟨hr, _ | _⟩⟩
    exact (hp.call1 (f := .unary .length) rfl).sub hr rfl
  | plane =>
    rcases operands with _ | ⟨hp, _ | ⟨hn, _ | ⟨hh, _ | _⟩⟩⟩
    have normal : HasShape Γ (.call1 (.unary .normalize) _) .vec3 := hn.call1 rfl
    exact (hp.call2 (f := .dot) normal rfl).add hh rfl
  | box =>
    rcases operands with _ | ⟨hp, _ | ⟨hb, _ | _⟩⟩
    exact hp.call2 hb rfl
  | torus | cylinder =>
    rcases operands with _ | ⟨hp, _ | ⟨hr, _ | ⟨hh, _ | _⟩⟩⟩
    exact hp.call3 hr hh rfl

theorem type_combine (op : CombineOp) {b : Expr} (first : HasShape Γ a .float)
    (second : HasShape Γ b .float) : HasShape Γ (Term.combine op false [a, b]) .float := by
  cases op with
  | subtraction => exact first.call2 (second.neg (.inl rfl)) rfl
  | _ => exact first.call2 second rfl

theorem type_smooth (op : CombineOp) {b k : Expr} (first : HasShape Γ a .float)
    (second : HasShape Γ b .float) (third : HasShape Γ k .float) :
    HasShape Γ (Term.combine op true [a, b, k]) .float := by
  cases op with
  | subtraction => exact first.call3 (second.neg (.inl rfl)) third rfl
  | _ => exact first.call3 second third rfl

theorem type_ones (vector : s.isVector = true) :
    HasShape Γ (.call1 (.convert s) (.literal "1.0")) s := by
  have one : literalType? "1.0" = some (.scalar .abstractFloat) := by decide
  unfold HasShape
  simp only [Expr.type?, one]
  rcases eq_of_isVector vector with rfl | rfl <;> rfl

theorem type_lane (lane : String) (h : HasShape Γ e s)
    (rule : ((Ty.ofShape? s).bind fun x => x.swizzle? lane.toList) = some .f32) :
    HasShape Γ (.call1 (.unary .abs) (.lanes e lane)) .float :=
  HasShape.call1 (s := .float) (h.lanes rule) rfl

theorem type_metric (metric : Metric) (h : HasShape Γ e s) (float : s.isFloatLike = true) :
    HasShape Γ (.metric metric e s) .float := by
  have size : HasShape Γ (.call1 (.unary .abs) e) s :=
    type_unary h (.signed (.inr rfl) (.inl float)) nofun
  rcases eq_of_isFloatLike float with rfl | rfl | rfl
  · exact size
  · have x := type_lane "x" h (by decide)
    have y := type_lane "y" h (by decide)
    cases metric with
    | manhattan => exact size.call2 (type_ones rfl) rfl
    | chebyshev => exact x.call2 y rfl
    | _ => exact h.call1 rfl
  · have x := type_lane "x" h (by decide)
    have y := type_lane "y" h (by decide)
    have z := type_lane "z" h (by decide)
    cases metric with
    | manhattan => exact size.call2 (type_ones rfl) rfl
    | chebyshev =>
      have larger : HasShape Γ (.call2 (.binary .max) _ _) .float := x.call2 y rfl
      exact larger.call2 z rfl
    | _ => exact h.call1 rfl

/-! ## swizzles -/

theorem lane_eq (c : Char) : Ty.lane? c = laneIndex? c := by
  unfold Ty.lane? laneIndex?
  rfl

theorem lanes_of_swizzleFault {mask : List Char} (h : swizzleFault s mask = none) :
    (mask.all fun c => (Ty.lane? c).any (· < s.lanes)) = true ∧ ∀ c ∈ mask, c.utf8Size = 1 := by
  induction mask with
  | nil => exact ⟨rfl, nofun⟩
  | cons c mask ih =>
    unfold swizzleFault at h
    split at h
    case h_1 => cases h
    case h_2 i lane =>
      split at h
      case isFalse => cases h
      case isTrue inside =>
        obtain ⟨all, sizes⟩ := ih h
        refine ⟨?_, forall_mem_cons.2 ⟨?_, sizes⟩⟩
        · rw [all_cons, all, lane_eq, lane]
          simpa using inside
        · unfold laneIndex? at lane
          split at lane <;> first | rfl | cases lane

theorem utf8ByteSize_ofList {cs : List Char} (h : ∀ c ∈ cs, c.utf8Size = 1) :
    (String.ofList cs).utf8ByteSize = cs.length := by
  induction cs with
  | nil => rfl
  | cons c cs ih =>
    obtain ⟨one, rest⟩ := forall_mem_cons.1 h
    rw [← singleton_append, String.ofList_append, String.utf8ByteSize_append, ih rest,
      ← String.singleton_eq_ofList, String.utf8ByteSize_singleton, one, length_append]
    rfl

theorem type_swizzle {mask : String} {σ : Shape} (h : HasShape Γ e s)
    (wide : s.isVector = true ∨ s = .rotation) (lanes : Shape.ofLanes? mask.utf8ByteSize = some σ)
    (named : swizzleFault s mask.toList = none) : HasShape Γ (.lanes e mask) σ := by
  obtain ⟨all, sizes⟩ := lanes_of_swizzleFault named
  rw [← mask.ofList_toList, utf8ByteSize_ofList sizes] at lanes
  refine h.lanes ?_
  have type : Ty.ofShape? s = some (.vec s.lanes .f32) := by
    rcases wide with vector | rfl
    · rcases eq_of_isVector vector with rfl | rfl <;> rfl
    · rfl
  rw [type]
  show (Ty.vec s.lanes .f32).swizzle? mask.toList = _
  unfold Ty.swizzle?
  dsimp only
  rw [if_pos all]
  generalize mask.toList.length = k at lanes ⊢
  match k, lanes with
  | 1, lanes => cases lanes; rfl
  | 2, lanes => cases lanes; rfl
  | 3, lanes => cases lanes; rfl

/-! ## nodes -/

section
variable {n : Node} {ws : List Wire} {es : List Expr}

theorem inputShape_get (inputs : n.inputs = ws.map some) {i : Nat} {w : Wire}
    (there : ws[i]? = some w) : n.inputShape i = w.shape := by
  unfold Node.inputShape
  rw [inputs, getElem?_map, there]
  rfl

/-- a shape is that of the node, or is spread to it -/
def Spreads (s t : Shape) : Prop := s = t ∨ s = .float ∧ t.isVector = true

theorem spreads_of_float {t : Shape} (float : t.isFloatLike = true) (h : s = t ∨ s = .float) :
    Spreads s t := by
  rcases h with same | rfl
  · exact .inl same
  · rcases eq_of_isFloatLike float with rfl | rfl | rfl
    · exact .inl rfl
    · exact .inr ⟨rfl, rfl⟩
    · exact .inr ⟨rfl, rfl⟩

theorem type_widened (inputs : n.inputs = ws.map some)
    (operands : Forall₂ (fun (w : Wire) e => HasShape Γ e w.shape) ws es)
    (spread : ∀ w ∈ ws, Spreads w.shape n.shape) : ∀ e ∈ widened n es, HasShape Γ e n.shape := by
  intro e member
  obtain ⟨i, inside, rfl⟩ := mem_mapIdx.1 member
  have there : i < ws.length := operands.length_eq ▸ inside
  rw [inputShape_get inputs (getElem?_eq_getElem there)]
  exact (operands.get there inside).widen (spread _ (getElem_mem there))

theorem length_widened (n : Node) (es : List Expr) : (widened n es).length = es.length := by
  simp [widened]

theorem type_binary {op : BinaryOp} (is : n.op = .binary op) (inputs : n.inputs = ws.map some)
    (operands : Forall₂ (fun (w : Wire) e => HasShape Γ e w.shape) ws es)
    (spread : ∀ w ∈ ws, Spreads w.shape n.shape) (length : ws.length = 2)
    (known : ∀ k, op ≠ .unknown k)
    (number : n.shape.isFloatLike = true ∨ n.shape = .int ∧ op ≠ .pow) :
    HasShape Γ (term n es) n.shape := by
  have typed := type_widened inputs operands spread
  obtain ⟨a, b, both⟩ := length_eq_two.1
    ((length_widened n es).trans (operands.length_eq.symm.trans length))
  rw [both] at typed
  unfold term
  rw [is]
  dsimp only
  rw [both]
  exact (typed a (by simp)).arith op (typed b (by simp)) known number

theorem type_blended {op : BlendOp} (is : n.op = .blend op) (inputs : n.inputs = ws.map some)
    (operands : Forall₂ (fun (w : Wire) e => HasShape Γ e w.shape) ws es)
    (fits : ∀ s ∈ ws.map Wire.shape, s = n.shape ∨ s = .float) (float : n.shape.isFloatLike = true)
    (length : ws.length = if op = .remap then 5 else 3) : HasShape Γ (term n es) n.shape := by
  unfold term
  rw [is]
  refine type_blend float (type_widened inputs operands fun w member => ?_) ?_
  · exact spreads_of_float float (fits _ (mem_map_of_mem member))
  · rw [length_widened, ← operands.length_eq, length]

theorem type_noise (kind : NoiseKind) (h : HasShape Γ e s) (vector : s.isVector = true) :
    HasShape Γ (.call1 (.routine (noiseRoutine kind s)) (.seeded e s)) .float := by
  have seed : HasShape Γ (.call0 .seed) .vec3 := rfl
  have planar : HasShape Γ (.lanes (.call0 .seed) "xz") .vec2 := seed.lanes (by decide)
  have moved : HasShape Γ (.seeded e s) s := by
    rcases eq_of_isVector vector with rfl | rfl
    · exact (h.add planar rfl).group
    · exact (h.add seed rfl).group
  refine moved.call1 ?_
  rcases eq_of_isVector vector with rfl | rfl <;> cases kind <;> rfl

theorem type_function {op : UnaryOp} {σ : Shape} (is : n.op = .unary op) (h : HasShape Γ e s)
    (accepts : (Op.unary op).Accepts [s] σ) : HasShape Γ (term n [e]) σ := by
  by_cases sign : op = .neg
  · subst sign
    simp only [term, is]
    cases accepts with
    | signed either number => exact h.neg number
    | function known signless => exact absurd rfl signless.1
  · have same : term n [e] = .call1 (.unary op) e := by
      cases op <;> simp_all [term]
    rw [same]
    exact type_unary h accepts sign

theorem type_rotation {op : RotationOp} (is : n.op = .rotation op)
    (operands : Forall₂ (HasShape Γ) es op.operands) : HasShape Γ (term n es) op.result := by
  cases op with
  | euler =>
    rcases operands with _ | ⟨ha, _ | _⟩
    simp only [term, is]
    exact ha.call1 rfl
  | axisAngle | rotate =>
    rcases operands with _ | ⟨ha, _ | ⟨hb, _ | _⟩⟩
    simp only [term, is]
    exact ha.call2 hb rfl

/-- **The term of a node has the type of its shape**, over operands that have the
types of theirs. -/
theorem type_term (inputs : n.inputs = ws.map some)
    (accepts : n.op.Accepts (ws.map Wire.shape) n.shape) (plain : Node.isPlain n = true)
    (operands : Forall₂ (fun (w : Wire) e => HasShape Γ e w.shape) ws es) :
    HasShape Γ (term n es) n.shape := by
  have typed : Forall₂ (HasShape Γ) es (ws.map Wire.shape) := by
    rw [forall₂_map_right_iff]
    exact operands.flip
  have point {s : Shape} {rest : List Shape} (shapes : ws.map Wire.shape = s :: rest) :
      n.inputShape 0 = s := inputShape_zero inputs shapes
  generalize shapesEq : ws.map Wire.shape = shapes at accepts typed
  generalize shapeEq : n.shape = σ at accepts ⊢
  generalize opEq : n.op = op at accepts
  have blended {op : BlendOp} (is : n.op = .blend op) (float : σ.isFloatLike = true)
      (fits : ∀ s ∈ shapes, s = σ ∨ s = .float)
      (length : shapes.length = if op = .remap then 5 else 3) :
      HasShape Γ (term n es) σ := by
    subst shapesEq shapeEq
    exact type_blended is inputs operands fits float ((length_map _).symm.trans length)
  have elementwise {op : BinaryOp} (is : n.op = .binary op) (known : ∀ k, op ≠ .unknown k)
      (number : σ.isFloatLike = true ∨ σ = .int ∧ op ≠ .pow)
      (spread : ∀ s ∈ shapes, Spreads s σ) (length : shapes.length = 2) :
      HasShape Γ (term n es) σ := by
    subst shapesEq shapeEq
    exact type_binary is inputs operands (fun w member => spread _ (mem_map_of_mem member))
      ((length_map _).symm.trans length) known number
  have function {op : UnaryOp} {s : Shape} (is : n.op = .unary op)
      (accepts : (Op.unary op).Accepts [s] σ) (typed : Forall₂ (HasShape Γ) es [s]) :
      HasShape Γ (term n es) σ := by
    rcases typed with _ | ⟨ha, _ | _⟩
    exact type_function is ha accepts
  cases accepts with
  | arith known float => exact elementwise opEq known (.inl float) (by simp [Spreads]) rfl
  | whole known other => exact elementwise opEq known (.inr ⟨rfl, other⟩) (by simp [Spreads]) rfl
  | spreadLeft known vector | spreadRight known vector =>
    exact elementwise opEq known (.inl (isFloatLike_of_isVector vector))
      (by simp [Spreads, vector]) rfl
  | lerp float fits => exact blended opEq float (by simpa using fits) rfl
  | clamp float lower upper | smoothstep float lower upper =>
    exact blended opEq float (by simp [lower, upper]) rfl
  | remap float fits =>
    exact blended opEq float (forall_mem_cons.2 ⟨.inl rfl, fits⟩) rfl
  | signed either number => exact function opEq (.signed either number) typed
  | length vector => exact function opEq (.length vector) typed
  | normalize vector => exact function opEq (.normalize vector) typed
  | function known signless others float =>
    exact function opEq (.function known signless others float) typed
  | dot vector =>
    rcases typed with _ | ⟨ha, _ | ⟨hb, _ | _⟩⟩
    simp only [term, opEq]
    exact ha.call2 hb (by rcases eq_of_isVector vector with rfl | rfl <;> rfl)
  | cross =>
    rcases typed with _ | ⟨ha, _ | ⟨hb, _ | _⟩⟩
    simp only [term, opEq]
    exact ha.call2 hb rfl
  | @compare op a known number =>
    rcases typed with _ | ⟨ha, _ | ⟨hb, _ | _⟩⟩
    simp only [term, opEq]
    refine ha.op hb ?_
    rcases number with rfl | rfl <;> cases op <;> first | rfl | exact absurd rfl (known _)
  | not =>
    rcases typed with _ | ⟨ha, _ | _⟩
    simp only [term, opEq]
    exact ha.not
  | @logic op other =>
    rcases typed with _ | ⟨ha, _ | ⟨hb, _ | _⟩⟩
    cases op with
    | not => exact absurd rfl other
    | and | or =>
      simp only [term, opEq]
      exact ha.op hb rfl
  | swizzle wide lanes named =>
    rcases typed with _ | ⟨ha, _ | _⟩
    simp only [term, opEq]
    exact type_swizzle ha wide lanes named
  | pair =>
    rcases typed with _ | ⟨ha, _ | ⟨hb, _ | _⟩⟩
    simp only [term, opEq, shapeEq]
    exact ha.call2 hb rfl
  | triple =>
    rcases typed with _ | ⟨ha, _ | ⟨hb, _ | ⟨hd, _ | _⟩⟩⟩
    simp only [term, opEq, shapeEq]
    exact ha.call3 hb hd rfl
  | same => simp [Node.isPlain, opEq, point shapesEq] at plain
  | cast source target differs =>
    rcases typed with _ | ⟨ha, _ | _⟩
    simp only [term, opEq, point shapesEq]
    exact type_cast ha source target differs
  | broadcast vector =>
    rcases typed with _ | ⟨ha, _ | _⟩
    simp only [term, opEq, shapeEq]
    exact ha.widen (.inr ⟨rfl, vector⟩)
  | select =>
    rcases typed with _ | ⟨hc, _ | ⟨ha, _ | ⟨hb, _ | _⟩⟩⟩
    simp only [term, opEq]
    refine hb.call3 ha hc ?_
    cases σ <;> rfl
  | rotation op => exact type_rotation opEq typed
  | noise known vector =>
    rcases typed with _ | ⟨ha, _ | _⟩
    simp only [term, opEq, point shapesEq]
    exact type_noise _ ha vector
  | disc =>
    rcases typed with _ | ⟨hp, _ | ⟨hr, _ | _⟩⟩
    simp only [term, opEq]
    exact (hp.call1 (f := .unary .length) rfl).sub hr rfl
  | primitive body =>
    simp only [term, opEq]
    exact type_primitive typed
  | combine op =>
    rcases typed with _ | ⟨ha, _ | ⟨hb, _ | _⟩⟩
    simp only [term, opEq]
    exact type_combine op ha hb
  | smooth op =>
    rcases typed with _ | ⟨ha, _ | ⟨hb, _ | ⟨hk, _ | _⟩⟩⟩
    simp only [term, opEq]
    exact type_smooth op ha hb hk
  | fractal | distance | cellular | cache => simp [Node.isPlain, opEq] at plain

end

end

/-! ## nested functions -/

/-- nothing is declared -/
def Globals.none : Globals := ⟨fun _ => Option.none, fun _ => Option.none⟩

theorem Globals.none_le (Γ : Globals) : Globals.none.Le Γ := ⟨nofun, nofun⟩

/-- the arguments of a nested function over operands of these shapes -/
def functionArguments (shapes : List Shape) (result : Shape) : List Argument :=
  shapes.mapIdx (fun i s => ⟨(Var.input i).text, s, false⟩) ++ [⟨"out_value", result, true⟩]

theorem nestedArguments_eq (i : Nat) (ws : List Wire) (result : Shape) :
    ((nestedArguments i ws).map fun a =>
      if a.output then (⟨a.name, result, true⟩ : Argument) else a) =
      (ws.map Wire.shape).mapIdx (fun j s => ⟨(Var.input (i + j)).text, s, false⟩) ++
        [⟨"out_value", result, true⟩] := by
  induction ws generalizing i with
  | nil => rfl
  | cons w ws ih =>
    have rest := ih (i + 1)
    simp only [add_right_comm] at rest
    simp only [nestedArguments, map_cons, mapIdx_cons, cons_append, rest]
    rfl

theorem args_nestedScope (c : Context) (caller : ScopeId) (spec : Nested) (ws : List Wire)
    (t : Template) : (c.nestedScope caller spec ws t).args =
      functionArguments (ws.map Wire.shape) spec.result := by
  have same := nestedArguments_eq 0 ws spec.result
  simp only [zero_add] at same
  exact same

/-- does a nested function over operands of these shapes go through? -/
def checkNested (shapes : List Shape) (t : Template) : Bool :=
  match checkLines .none (functionArguments shapes .float) [[]]
    (Context.nestedLines shapes.length t) with
  | some [_] => true
  | _ => false

theorem checkNested_fractal : ∀ kind ∈ [NoiseKind.value, .perlin], ∀ point ∈ [Shape.vec2, .vec3],
    ∀ octaves ∈ List.range 17,
      checkNested [point, .float, .float] (fractalTemplate kind point octaves) = true := by
  decide

theorem checkNested_cellular : ∀ metric ∈ [Metric.euclidean, .manhattan, .chebyshev],
    ∀ feature ∈ [CellFeature.nearest, .second, .gap], ∀ point ∈ [Shape.vec2, .vec3],
      checkNested [point] (cellularTemplate metric feature point) = true := by
  decide

theorem mem_vectors (vector : s.isVector = true) : s ∈ [Shape.vec2, .vec3] := by
  rcases eq_of_isVector vector with rfl | rfl <;> simp

/-- the functions of fractal and cellular sampling, up to the template -/
inductive Samples : Routine → List Shape → Template → Prop
  | fractal {kind : NoiseKind} {point : Shape} {octaves : Nat} (known : kind ∈ [.value, .perlin])
      (vector : point ∈ [.vec2, .vec3]) (few : octaves ∈ List.range 17) :
      Samples (noiseRoutine kind point) [point, .float, .float] (fractalTemplate kind point octaves)
  | cellular {metric : Metric} {feature : CellFeature} {point : Shape}
      (known : metric ∈ [.euclidean, .manhattan, .chebyshev])
      (listed : feature ∈ [.nearest, .second, .gap])
      (vector : point ∈ [.vec2, .vec3]) :
      Samples (scatterRoutine point) [point] (cellularTemplate metric feature point)

theorem samples_of_parts (parts : nestedParts n = some (r, spec, t))
    (inputs : n.inputs = ws.map some) (accepts : n.op.Accepts (ws.map Wire.shape) n.shape)
    (octaves : ∀ {kind k}, n.op = .fractal kind k → 1 ≤ k ∧ k ≤ maxOctaves) :
    spec.result = .float ∧ Samples r (ws.map Wire.shape) t := by
  have point {s : Shape} {rest : List Shape} (shapes : ws.map Wire.shape = s :: rest) :
      n.inputShape 0 = s := inputShape_zero inputs shapes
  generalize shapesEq : ws.map Wire.shape = shapes at accepts
  generalize n.shape = σ at accepts
  unfold nestedParts at parts
  split at parts
  case h_1 kind k op =>
    obtain ⟨low, high⟩ := octaves op
    cases parts
    rw [op] at accepts
    cases accepts with
    | fractal known vector =>
      have bounded : k.toNat < 17 := by
        unfold maxOctaves at high
        omega
      rw [point shapesEq, ← Int.toNat_of_nonneg (le_of_lt (lt_of_lt_of_le Int.one_pos low))]
      refine ⟨rfl, .fractal ?_ (mem_vectors vector) (mem_range.2 bounded)⟩
      cases kind with
      | unknown code => exact absurd rfl (known code)
      | _ => simp
  case h_2 metric feature op =>
    cases parts
    rw [op] at accepts
    cases accepts with
    | @cellular _ _ p _ _ vector =>
      obtain ⟨m, member, f, member', same⟩ := cellularTemplate_known metric feature p
      rw [point shapesEq, same]
      exact ⟨rfl, .cellular member member' (mem_vectors vector)⟩
  case h_3 => cases parts

theorem Samples.checked {shapes : List Shape} (h : Samples r shapes t) :
    (∀ s ∈ shapes, s.isDefined = true) ∧ checkNested shapes t = true := by
  have defined {point : Shape} (vector : point ∈ [Shape.vec2, .vec3]) : point.isDefined = true := by
    rcases mem_pair.1 vector with rfl | rfl <;> rfl
  cases h with
  | fractal known vector few =>
    refine ⟨forall_mem_cons.2 ⟨defined vector, ?_⟩, checkNested_fractal _ known _ vector _ few⟩
    decide
  | cellular known listed vector =>
    exact ⟨forall_mem_singleton.2 (defined vector), checkNested_cellular _ known _ listed _ vector⟩

/-- **The functions of fractal and cellular sampling are well typed**, whatever else is declared. -/
theorem typed_nested (c : Context) (caller : ScopeId) (parts : nestedParts n = some (r, spec, t))
    (inputs : n.inputs = ws.map some) (accepts : n.op.Accepts (ws.map Wire.shape) n.shape)
    (octaves : ∀ {kind k}, n.op = .fractal kind k → 1 ≤ k ∧ k ≤ maxOctaves) (Γ : Globals) :
    FunctionTyped Γ (c.nestedScope caller spec ws t) := by
  obtain ⟨result, samples⟩ := samples_of_parts parts inputs accepts octaves
  obtain ⟨defined, checked⟩ := samples.checked
  have args := args_nestedScope c caller spec ws t
  rw [result] at args
  refine FunctionTyped.mono (Globals.none_le Γ) ⟨fun a member => ?_, ?_⟩
  · rw [Ty.isSome_ofShape]
    rw [args] at member
    rcases mem_append.1 member with member | member
    · obtain ⟨i, inside, rfl⟩ := mem_mapIdx.1 member
      exact defined _ (getElem_mem inside)
    · obtain rfl := mem_singleton.1 member
      rfl
  · unfold checkNested at checked
    split at checked
    case h_1 block body =>
      refine ⟨block, ?_⟩
      rw [args]
      rw [length_map] at body
      exact body
    case h_2 => cases checked

/-- what the keys of nested functions begin with, and the shapes of the operands there -/
def keyHeads : List (String × List Shape) :=
  [("fractal/value/2d", [.vec2, .float, .float]), ("fractal/value/3d", [.vec3, .float, .float]),
    ("fractal/perlin/2d", [.vec2, .float, .float]), ("fractal/perlin/3d", [.vec3, .float, .float]),
    ("cellular/2d", [.vec2]), ("cellular/3d", [.vec3])]

theorem exists_keyHead (parts : nestedParts n = some (r, spec, t)) (inputs : n.inputs = ws.map some)
    (typed : n.typing = .ok n.shape) (accepts : n.op.Accepts (ws.map Wire.shape) n.shape) :
    ∃ head rest, (head, ws.map Wire.shape) ∈ keyHeads ∧ spec.key = head ++ rest := by
  have dims {p : Shape} {rest : List Shape} (shapes : ws.map Wire.shape = p :: rest)
      (vector : p.isVector = true) : p = .vec2 ∧ n.dims = .two ∨ p = .vec3 ∧ n.dims = .three :=
    dims_point inputs typed shapes vector
  generalize shapesEq : ws.map Wire.shape = shapes at accepts
  generalize n.shape = σ at accepts
  unfold nestedParts at parts
  split at parts
  case h_1 kind k op =>
    cases parts
    unfold nestedKey
    rw [op] at accepts ⊢
    cases accepts with
    | fractal known vector =>
      rcases dims shapesEq vector with ⟨rfl, two⟩ | ⟨rfl, three⟩
      · rw [two]
        cases kind with
        | unknown code => exact absurd rfl (known code)
        | value => exact ⟨"fractal/value/2d", "/" ++ toString k, by simp [keyHeads], rfl⟩
        | perlin => exact ⟨"fractal/perlin/2d", "/" ++ toString k, by simp [keyHeads], rfl⟩
      · rw [three]
        cases kind with
        | unknown code => exact absurd rfl (known code)
        | value => exact ⟨"fractal/value/3d", "/" ++ toString k, by simp [keyHeads], rfl⟩
        | perlin => exact ⟨"fractal/perlin/3d", "/" ++ toString k, by simp [keyHeads], rfl⟩
  case h_2 metric feature op =>
    cases parts
    unfold nestedKey
    rw [op] at accepts ⊢
    cases accepts with
    | cellular _ _ vector =>
      rcases dims shapesEq vector with ⟨rfl, two⟩ | ⟨rfl, three⟩
      · rw [two]
        exact ⟨"cellular/2d", "/" ++ metric.name ++ "/" ++ feature.name, by simp [keyHeads], rfl⟩
      · rw [three]
        exact ⟨"cellular/3d", "/" ++ metric.name ++ "/" ++ feature.name, by simp [keyHeads], rfl⟩
  case h_3 => cases parts

theorem shapes_of_keyHeads {head head' rest rest' : String} {shapes shapes' : List Shape}
    (member : (head, shapes) ∈ keyHeads) (member' : (head', shapes') ∈ keyHeads)
    (same : head ++ rest = head' ++ rest') : shapes = shapes' := by
  have apart : ∀ a ∈ keyHeads, ∀ b ∈ keyHeads, a.1.toList <+: b.1.toList → a.2 = b.2 := by decide
  have lists := congrArg String.toList same
  rw [String.toList_append, String.toList_append] at lists
  rcases prefix_or_prefix_of_prefix (prefix_append head.toList rest.toList)
    (lists ▸ prefix_append head'.toList rest'.toList) with first | second
  · exact apart _ member _ member' first
  · exact (apart _ member' _ member second).symm

end Terrain.Compile
