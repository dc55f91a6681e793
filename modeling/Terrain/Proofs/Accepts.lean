import Terrain.Proofs.Memo

/-!
# What operations accept

The shapes that each operation takes and the shape it gives, as one relation.  Working out a shape
is a chain of checks; here it is turned around, so that what is shown about typed nodes goes by the
ways in which a node can be typed and not by the checks.

* `Op.Accepts`            operands and result of an operation;
* `accepts_of_typing`     an operation that is typed accepts its operands;
* `WellFormed.accepts`    so does a typed node of a graph;
* `Op.Accepts.isDefined`  what it gives then has a shape.
-/

namespace Terrain

open List

variable {want s : Shape} {i : Nat} {l : List Shape} {op : Op}
variable {σ : Shape} {shapes : List Shape}

/-- an operation takes operands of these shapes and gives a value of that shape -/
inductive Op.Accepts : Op → List Shape → Shape → Prop
  | arith {op : BinaryOp} {a : Shape} (known : ∀ k, op ≠ .unknown k)
      (float : a.isFloatLike = true) : Accepts (.binary op) [a, a] a
  | whole {op : BinaryOp} (known : ∀ k, op ≠ .unknown k) (other : op ≠ .pow) :
      Accepts (.binary op) [.int, .int] .int
  | spreadLeft {op : BinaryOp} {v : Shape} (known : ∀ k, op ≠ .unknown k)
      (vector : v.isVector = true) : Accepts (.binary op) [.float, v] v
  | spreadRight {op : BinaryOp} {v : Shape} (known : ∀ k, op ≠ .unknown k)
      (vector : v.isVector = true) : Accepts (.binary op) [v, .float] v
  | signed {op : UnaryOp} {a : Shape} (either : op = .neg ∨ op = .abs)
      (number : a.isFloatLike = true ∨ a = .int) : Accepts (.unary op) [a] a
  | length {v : Shape} (vector : v.isVector = true) : Accepts (.unary .length) [v] .float
  | normalize {v : Shape} (vector : v.isVector = true) : Accepts (.unary .normalize) [v] v
  | function {op : UnaryOp} {a : Shape} (known : ∀ k, op ≠ .unknown k)
      (signless : op ≠ .neg ∧ op ≠ .abs)
      (other : op ≠ .length ∧ op ≠ .normalize) (float : a.isFloatLike = true) :
      Accepts (.unary op) [a] a
  | dot {v : Shape} (vector : v.isVector = true) : Accepts .dot [v, v] .float
  | cross : Accepts .cross [.vec3, .vec3] .vec3
  | compare {op : CompareOp} {a : Shape} (known : ∀ k, op ≠ .unknown k)
      (number : a = .float ∨ a = .int) : Accepts (.compare op) [a, a] .bool
  | not : Accepts (.logic .not) [.bool] .bool
  | logic {op : LogicOp} (other : op ≠ .not) : Accepts (.logic op) [.bool, .bool] .bool
  | swizzle {mask : String} {s σ : Shape} (wide : s.isVector = true ∨ s = .rotation)
      (lanes : Shape.ofLanes? mask.utf8ByteSize = some σ)
      (named : swizzleFault s mask.toList = none) :
      Accepts (.swizzle mask) [s] σ
  | pair : Accepts .construct [.float, .float] .vec2
  | triple : Accepts .construct [.float, .float, .float] .vec3
  | same {s : Shape} : Accepts (.cast s) [s] s
  | cast {s t : Shape} (source : s.isScalar = true) (target : t.isScalar = true) (differs : s ≠ t) :
      Accepts (.cast t) [s] t
  | broadcast {t : Shape} (vector : t.isVector = true) : Accepts (.broadcast t) [.float] t
  | select {s : Shape} (defined : s.isDefined = true) : Accepts .select [.bool, s, s] s
  | lerp {a t : Shape} (float : a.isFloatLike = true) (fits : t = a ∨ t = .float) :
      Accepts (.blend .lerp) [a, a, t] a
  | clamp {x low high : Shape} (float : x.isFloatLike = true) (lower : low = x ∨ low = .float)
      (upper : high = x ∨ high = .float) : Accepts (.blend .clamp) [x, low, high] x
  | smoothstep {low high x : Shape} (float : x.isFloatLike = true) (lower : low = x ∨ low = .float)
      (upper : high = x ∨ high = .float) : Accepts (.blend .smoothstep) [low, high, x] x
  | remap {x a b c d : Shape} (float : x.isFloatLike = true)
      (fits : ∀ s ∈ [a, b, c, d], s = x ∨ s = .float) : Accepts (.blend .remap) [x, a, b, c, d] x
  | rotation (op : RotationOp) : Accepts (.rotation op) op.operands op.result
  | noise {kind : NoiseKind} {p : Shape} (known : ∀ k, kind ≠ .unknown k)
      (vector : p.isVector = true) : Accepts (.noise kind) [p] .float
  | fractal {kind : NoiseKind} {octaves : Int} {p : Shape} (known : ∀ k, kind ≠ .unknown k)
      (vector : p.isVector = true) : Accepts (.fractal kind octaves) [p, .float, .float] .float
  | disc : Accepts (.primitive .sphere) [.vec2, .float] .float
  | primitive (body : Primitive) : Accepts (.primitive body) body.operands .float
  | combine (op : CombineOp) : Accepts (.combine op false) [.float, .float] .float
  | smooth (op : CombineOp) : Accepts (.combine op true) [.float, .float, .float] .float
  | distance {metric : Metric} {a : Shape} (known : ∀ k, metric ≠ .unknown k)
      (float : a.isFloatLike = true) : Accepts (.distance metric) [a, a] .float
  | cellular {metric : Metric} {feature : CellFeature} {p : Shape}
      (known : ∀ k, metric ≠ .unknown k)
      (listed : ∀ k, feature ≠ .unknown k) (vector : p.isVector = true) :
      Accepts (.cellular metric feature) [p] .float
  | cache {reduction : Int} {s : Shape} (defined : s.isDefined = true) (other : s ≠ .bool) :
      Accepts (.cache reduction) [s] s

/-! ## checks of operands -/

theorem firstOther_none (h : firstOther want i l = none) : ∀ s ∈ l, s = want := by
  induction l generalizing i with
  | nil => simp
  | cons s l ih =>
    unfold firstOther at h
    split at h
    case isTrue same => exact forall_mem_cons.2 ⟨same, ih h⟩
    case isFalse => cases h

theorem firstUnblended_none (h : firstUnblended want i l = none) :
    ∀ s ∈ l, s = want ∨ s = .float := by
  induction l generalizing i with
  | nil => simp
  | cons s l ih =>
    unfold firstUnblended at h
    split at h
    case isTrue same => exact forall_mem_cons.2 ⟨same, ih h⟩
    case isFalse => cases h

theorem firstMismatch_none {wants : List Shape} (h : firstMismatch i l wants = none)
    (length : l.length = wants.length) : l = wants := by
  induction l generalizing i wants with
  | nil => exact (eq_nil_of_length_eq_zero length.symm).symm
  | cons s l ih =>
    cases wants with
    | nil => cases length
    | cons w wants =>
      unfold firstMismatch at h
      split at h
      case isTrue same => rw [same, ih h (Nat.succ.inj length)]
      case isFalse => cases h

theorem isDefined_of_isFloatLike (h : s.isFloatLike = true) : s.isDefined = true := by
  cases s <;> first | rfl | cases h

theorem isDefined_of_isVector (h : s.isVector = true) : s.isDefined = true := by
  cases s <;> first | rfl | cases h

/-! ## typed operations -/

section
variable {shapes : List Shape} {σ : Shape}

theorem accepts_binary {op : BinaryOp} {a b : Shape} (h : (Op.binary op).typingOf [a, b] = .ok σ) :
    (Op.binary op).Accepts [a, b] σ := by
  have known : ∀ k, op ≠ .unknown k := by
    rintro k rfl
    cases h
  have result : elementwise? (op != .pow) a b = some σ := by
    cases op with
    | unknown k => exact absurd rfl (known k)
    | _ =>
      unfold Op.typingOf at h
      dsimp only at h
      split at h
      case h_1 s same => exact same.trans (congrArg some (Except.ok.inj h))
      case h_2 => cases h
  unfold elementwise? at result
  split at result
  case isTrue same =>
    cases result
    rw [← same.1]
    exact .arith known same.2
  split at result
  case isTrue same =>
    cases result
    rw [← same.1, same.2.1]
    exact .whole known (bne_iff_ne.1 same.2.2)
  split at result
  case isTrue spread =>
    cases result
    rw [spread.1]
    exact .spreadLeft known spread.2
  split at result
  case isTrue spread =>
    cases result
    rw [spread.1]
    exact .spreadRight known spread.2
  cases result

theorem typed_of_guard {p : Prop} [Decidable p] {x : Typing} {fault : ShapeFault}
    (h : (if p then x else .error fault) = .ok σ) : p ∧ x = .ok σ := by
  split at h
  case isTrue passed => exact ⟨passed, h⟩
  case isFalse => cases h

theorem typed_of_check {p : Prop} [Decidable p] {τ : Shape} {fault : ShapeFault}
    (h : (if p then .ok τ else .error fault : Typing) = .ok σ) : p ∧ τ = σ :=
  (typed_of_guard h).imp_right Except.ok.inj

theorem accepts_unary {op : UnaryOp} (h : op.typing s = .ok σ) : (Op.unary op).Accepts [s] σ := by
  cases op with
  | unknown k => cases h
  | neg | abs =>
    obtain ⟨number, rfl⟩ := typed_of_check h
    exact .signed (by decide) number
  | length =>
    obtain ⟨vector, rfl⟩ := typed_of_check h
    exact .length vector
  | normalize =>
    obtain ⟨vector, rfl⟩ := typed_of_check h
    exact .normalize vector
  | _ =>
    obtain ⟨float, rfl⟩ := typed_of_check h
    exact .function (by simp) (by decide) (by decide) float

theorem accepts_swizzle {mask : String} (h : swizzleTyping mask s = .ok σ) :
    (Op.swizzle mask).Accepts [s] σ := by
  obtain ⟨wide, h⟩ := typed_of_guard h
  split at h
  case h_1 => cases h
  case h_2 out lanes =>
    split at h
    case h_1 => cases h
    case h_2 named => exact .swizzle wide (lanes.trans (congrArg some (Except.ok.inj h))) named

theorem accepts_blend {op : BlendOp} (h : op.typing shapes = .ok σ)
    (takes : (Op.blend op).Takes shapes.length) : (Op.blend op).Accepts shapes σ := by
  obtain ⟨float, h⟩ := typed_of_guard h
  split at h
  case h_1 => cases h
  case h_2 none =>
    have fits := firstUnblended_none none
    dsimp only at h
    split at h
    case isTrue => cases h
    case isFalse ends =>
      cases h
      cases op with
      | lerp =>
        obtain ⟨a, b, t, rfl⟩ := length_eq_three.1 takes
        obtain rfl : b = a := Decidable.not_not.1 fun differ => ends ⟨rfl, differ⟩
        exact .lerp float (fits t (by simp))
      | clamp =>
        obtain ⟨x, low, high, rfl⟩ := length_eq_three.1 takes
        exact .clamp float (fits low (by simp)) (fits high (by simp))
      | smoothstep =>
        obtain ⟨low, high, x, rfl⟩ := length_eq_three.1 takes
        exact .smoothstep float (fits low (by simp)) (fits high (by simp))
      | remap =>
        have five : shapes.length = 5 := takes
        rcases shapes with _ | ⟨x, _ | ⟨a, _ | ⟨b, _ | ⟨c, _ | ⟨d, _ | ⟨e, rest⟩⟩⟩⟩⟩⟩ <;> cases five
        exact .remap float fun s member => fits s (.tail _ member)

theorem accepts_primitive {body : Primitive} (h : body.typing shapes = .ok σ)
    (takes : (Op.primitive body).Takes shapes.length) : (Op.primitive body).Accepts shapes σ := by
  unfold Primitive.typing at h
  dsimp only at h
  split at h
  case h_1 => cases h
  case h_2 none =>
    cases h
    split at none
    case h_1 rest =>
      obtain ⟨r, rfl⟩ := length_eq_one_iff.1 (Nat.succ.inj takes)
      rw [firstMismatch_none none rfl]
      exact .disc
    case h_2 =>
      rw [firstMismatch_none none takes]
      exact .primitive body

theorem eq_replicate_of_none (h : firstOther want i shapes = none) :
    shapes = List.replicate shapes.length want :=
  eq_replicate_iff.2 ⟨rfl, firstOther_none h⟩

theorem accepts_of_typing (h : op.typingOf shapes = .ok σ) (takes : op.Takes shapes.length)
    (some : shapes ≠ []) : op.Accepts shapes σ := by
  cases op with
  | unsupported | position | constant | inject | ref =>
    exact absurd (eq_nil_of_length_eq_zero takes) some
  | binary op =>
    obtain ⟨a, b, rfl⟩ := length_eq_two.1 takes
    exact accepts_binary h
  | unary op =>
    obtain ⟨s, rfl⟩ := length_eq_one_iff.1 takes
    exact accepts_unary h
  | swizzle mask =>
    obtain ⟨s, rfl⟩ := length_eq_one_iff.1 takes
    exact accepts_swizzle h
  | blend op => exact accepts_blend h takes
  | primitive body => exact accepts_primitive h takes
  | dot =>
    obtain ⟨a, b, rfl⟩ := length_eq_two.1 takes
    obtain ⟨⟨rfl, vector⟩, rfl⟩ := typed_of_check h
    exact .dot vector
  | cross =>
    obtain ⟨a, b, rfl⟩ := length_eq_two.1 takes
    obtain ⟨⟨rfl, -⟩, three⟩ := typed_of_guard h
    obtain ⟨rfl, rfl⟩ := typed_of_check three
    exact .cross
  | compare op =>
    obtain ⟨a, b, rfl⟩ := length_eq_two.1 takes
    cases op with
    | unknown k => cases h
    | _ =>
      obtain ⟨⟨rfl, number⟩, rfl⟩ := typed_of_check h
      exact .compare (by simp) number
  | logic op =>
    unfold Op.typingOf at h
    dsimp only at h
    split at h
    case h_1 => cases h
    case h_2 none =>
      cases h
      rw [eq_replicate_of_none none, takes]
      cases op with
      | not => exact .not
      | and | or => exact .logic (by decide)
  | construct =>
    unfold Op.typingOf at h
    dsimp only at h
    split at h
    case h_1 => cases h
    case h_2 none =>
      cases h
      rw [eq_replicate_of_none none]
      rcases takes with takes | takes <;> rw [length_replicate, takes]
      · exact .pair
      · exact .triple
  | cast target =>
    obtain ⟨s, rfl⟩ := length_eq_one_iff.1 takes
    obtain ⟨fits, rfl⟩ := typed_of_check h
    by_cases same : s = target
    · rw [same]
      exact .same
    · obtain ⟨source, scalar⟩ := fits.resolve_left same
      exact .cast source scalar same
  | broadcast target =>
    obtain ⟨s, rfl⟩ := length_eq_one_iff.1 takes
    obtain ⟨rfl, target⟩ := typed_of_guard h
    obtain ⟨vector, rfl⟩ := typed_of_check target
    exact .broadcast vector
  | select =>
    obtain ⟨c, a, b, rfl⟩ := length_eq_three.1 takes
    obtain ⟨rfl, branches⟩ := typed_of_guard h
    obtain ⟨⟨rfl, defined⟩, rfl⟩ := typed_of_check branches
    exact .select defined
  | rotation op =>
    unfold Op.typingOf at h
    dsimp only at h
    split at h
    case h_1 => cases h
    case h_2 none =>
      cases h
      rw [firstMismatch_none none takes]
      exact .rotation op
  | noise kind =>
    obtain ⟨p, rfl⟩ := length_eq_one_iff.1 takes
    cases kind with
    | unknown k => cases h
    | _ =>
      obtain ⟨vector, rfl⟩ := typed_of_check h
      exact .noise (by simp) vector
  | fractal kind octaves =>
    obtain ⟨rfl, p, vector, rfl⟩ := Compile.typingOf_fractal h
    refine .fractal ?_ vector
    rintro k rfl
    cases (typed_of_guard h).2
  | combine op smooth =>
    unfold Op.typingOf at h
    dsimp only at h
    split at h
    case h_1 => cases h
    case h_2 none =>
      cases h
      rw [eq_replicate_of_none none, takes]
      cases smooth with
      | false => exact .combine op
      | true => exact .smooth op
  | distance metric =>
    obtain ⟨a, b, rfl⟩ := length_eq_two.1 takes
    cases metric with
    | unknown k => cases h
    | _ =>
      obtain ⟨⟨rfl, float⟩, rfl⟩ := typed_of_check h
      exact .distance (by simp) float
  | cellular metric feature =>
    obtain ⟨rfl, p, vector, rfl⟩ := Compile.typingOf_cellular h
    refine .cellular ?_ ?_ vector
    · rintro k rfl
      cases (typed_of_guard h).2
    · rintro k rfl
      cases metric <;> cases (typed_of_guard h).2
  | cache reduction =>
    obtain ⟨s, rfl⟩ := length_eq_one_iff.1 takes
    unfold Op.typingOf at h
    dsimp only at h
    split at h
    case isTrue => cases h
    case isFalse fits =>
      cases h
      exact .cache (by simpa using fun undefined => fits (.inr undefined)) fun bool =>
        fits (.inl bool)

end

/-! ## typed nodes -/

theorem typed_operands {n : Node} (h : n.typing = .ok σ) :
    ∃ ws : List Wire, n.inputs = ws.map some ∧ n.op.typingOf (ws.map Wire.shape) = .ok σ := by
  have present : ∀ {inputs : List (Option Wire)} {shapes : List Shape},
      presentShapes (inputs.map (·.map Wire.shape)) = some shapes →
          ∃ ws : List Wire, inputs = ws.map some := by
    intro inputs
    induction inputs with
    | nil => exact fun _ => ⟨[], rfl⟩
    | cons w inputs ih =>
      intro shapes h
      cases w with
      | none => cases h
      | some w =>
        obtain ⟨rest, there, -⟩ := Option.map_eq_some_iff.1 h
        obtain ⟨ws, rfl⟩ := ih there
        exact ⟨w :: ws, rfl⟩
  cases there : presentShapes (n.inputs.map (·.map Wire.shape)) with
  | none =>
    unfold Node.typing Op.typing at h
    rw [there] at h
    dsimp only at h
    split at h <;> cases h
  | some shapes =>
    obtain ⟨ws, inputs⟩ := present there
    exact ⟨ws, inputs, (Compile.typing_inputs inputs).symm.trans h⟩

/-- an operation that takes no operands is one of the leaves -/
def Op.isLeaf : Op → Bool
  | .unsupported _ _ | .position | .constant _ | .inject _ _ _ | .ref _ _ => true
  | _ => false

theorem isLeaf_of_takes (h : op.Takes 0) : op.isLeaf = true := by
  cases op with
  | unsupported | position | constant | inject | ref => rfl
  | logic op | blend op | rotation op => cases op <;> cases h
  | primitive body => cases body <;> cases h
  | combine op smooth => cases smooth <;> cases h
  | construct => rcases h with h | h <;> cases h
  | _ => cases h

theorem Graph.WellFormed.accepts {g : Graph} (wf : g.WellFormed) {n : Node} {ws : List Wire}
    (found : g.get? n.id = some n) (inputs : n.inputs = ws.map some)
    (typed : n.typing = .ok n.shape) (inner : n.op.isLeaf = false) :
    n.op.Accepts (ws.map Wire.shape) n.shape := by
  have typing : n.op.typingOf (ws.map Wire.shape) = .ok n.shape :=
    (Compile.typing_inputs inputs).symm.trans typed
  have takes : n.op.Takes (ws.map Wire.shape).length := by
    rcases wf.takes found with takes | ⟨name, s, w, op, -⟩
    · rwa [inputs, length_map, ← length_map Wire.shape] at takes
    · rw [op] at inner
      cases inner
  refine accepts_of_typing typing takes fun empty => ?_
  rw [empty] at takes
  rw [isLeaf_of_takes takes] at inner
  cases inner

/-! ## results -/

theorem isDefined_of_isScalar (h : s.isScalar = true) : s.isDefined = true := by
  cases s <;> first | rfl | cases h

theorem isDefined_of_ofLanes? {k : Nat} (h : Shape.ofLanes? k = some s) : s.isDefined = true := by
  unfold Shape.ofLanes? at h
  split at h <;> cases h <;> rfl

/-- an operation on operands has a shape, but for a cast that changes nothing -/
theorem Op.Accepts.isDefined (h : op.Accepts shapes σ) (changes : op = .cast σ → shapes ≠ [σ]) :
    σ.isDefined = true := by
  cases h with
  | arith known float => exact isDefined_of_isFloatLike float
  | spreadLeft known vector | spreadRight known vector => exact isDefined_of_isVector vector
  | signed either number =>
    rcases number with float | rfl
    · exact isDefined_of_isFloatLike float
    · rfl
  | normalize vector | broadcast vector => exact isDefined_of_isVector vector
  | function known signless other float => exact isDefined_of_isFloatLike float
  | swizzle wide lanes named => exact isDefined_of_ofLanes? lanes
  | same => exact absurd rfl (changes rfl)
  | cast source target differs => exact isDefined_of_isScalar target
  | select defined | cache defined other => exact defined
  | lerp float fits | remap float fits | clamp float lower upper | smoothstep float lower upper =>
    exact isDefined_of_isFloatLike float
  | rotation op => cases op <;> rfl
  | _ => rfl

/-- so do its operands, but for a cast -/
theorem Op.Accepts.operands (h : op.Accepts shapes σ) (strict : ∀ target, op ≠ .cast target) :
    ∀ s ∈ shapes, s.isDefined = true := by
  have scalar : Shape.isDefined .float = true := rfl
  have blended {s t : Shape} (h : t.isFloatLike = true) (fits : s = t ∨ s = .float) :
      s.isDefined = true := by
    rcases fits with rfl | rfl
    · exact isDefined_of_isFloatLike h
    · rfl
  cases h with
  | arith known float | distance known float => simpa using isDefined_of_isFloatLike float
  | spreadLeft known vector | spreadRight known vector | fractal known vector =>
    simpa [scalar] using isDefined_of_isVector vector
  | length vector | normalize vector | dot vector | noise known vector =>
    simpa using isDefined_of_isVector vector
  | cellular known listed vector => simpa using isDefined_of_isVector vector
  | function known signless other float => simpa using isDefined_of_isFloatLike float
  | signed either number =>
    rcases number with float | rfl
    · simpa using isDefined_of_isFloatLike float
    · decide
  | compare known number => rcases number with rfl | rfl <;> decide
  | swizzle wide lanes named =>
    rcases wide with vector | rfl
    · simpa using isDefined_of_isVector vector
    · decide
  | same | cast => exact absurd rfl (strict _)
  | select defined | cache defined other => simpa [Shape.isDefined] using defined
  | lerp float fits => simpa [isDefined_of_isFloatLike float] using blended float fits
  | clamp float lower upper | smoothstep float lower upper =>
    simp [isDefined_of_isFloatLike float, blended float lower, blended float upper]
  | remap float fits =>
    refine forall_mem_cons.2 ⟨isDefined_of_isFloatLike float, fun s member => ?_⟩
    exact blended float (fits s member)
  | rotation op => cases op <;> decide
  | primitive body => cases body <;> decide
  | _ => decide

/-- an operation that is typed has operands that have shapes, but for a cast to no shape -/
theorem typingOf_defined (h : op.typingOf shapes = .ok σ) (takes : op.Takes shapes.length)
    (strict : ∀ target, op ≠ .cast target) : ∀ s ∈ shapes, s.isDefined = true := by
  cases shapes with
  | nil => nofun
  | cons s rest => exact (accepts_of_typing h takes (cons_ne_nil s rest)).operands strict

end Terrain
