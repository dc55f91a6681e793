import Terrain.Compile.Parse

/-!
# Graphs as they are built

A node takes as many operands as its operation asks for, a wire carries the shape of the node it
comes from, and nodes are numbered by their places.  `Graph.Built` are the graphs made by the
operations that make graphs, and they are all `WellFormed`.
-/

namespace Terrain

open List

variable {g : Graph} {n : Node} {name : String} {s : Shape}

/-- the numbers of operands that an operation is built with -/
def Op.Takes : Op → Nat → Prop
  | .unsupported _ _, k | .position, k | .constant _, k | .inject _ _ _, k | .ref _ _, k => k = 0
  | .unary _, k | .swizzle _, k | .cast _, k | .broadcast _, k | .noise _, k => k = 1
  | .cellular _ _, k | .cache _, k => k = 1
  | .binary _, k | .dot, k | .cross, k | .compare _, k | .distance _, k => k = 2
  | .logic op, k => k = if op = .not then 1 else 2
  | .construct, k => k = 2 ∨ k = 3
  | .select, k | .fractal _ _, k => k = 3
  | .blend op, k => k = if op = .remap then 5 else 3
  | .rotation op, k => k = op.operands.length
  | .primitive body, k => k = body.operands.length
  | .combine _ smooth, k => k = if smooth then 3 else 2

namespace Graph

/-- what every built graph keeps -/
structure WellFormed (g : Graph) : Prop where
  /-- a node is numbered by its place -/
  id_eq : ∀ {id n}, g.get? id = some n → n.id = id
  /-- a wire comes from a node and carries its shape -/
  wire : ∀ {id n w}, g.get? id = some n → some w ∈ n.inputs →
    ∃ m, g.get? w.source = some m ∧ m.shape = w.shape
  /-- only a reference gets its operand later -/
  takes : ∀ {id n}, g.get? id = some n → n.op.Takes n.inputs.length ∨
    ∃ name s w, n.op = .ref name s ∧ n.inputs = [some w]
  /-- the world position is the first node and no other -/
  position : ∀ {id n}, g.get? id = some n → (n.op = .position ↔ id = positionId)

/-- the graphs that the building operations make -/
inductive Built : Graph → Prop
  | initial : Built initial
  | insert {g : Graph} (op : Op) (operands : List Operand) (built : Built g)
      (other : op ≠ .position) (takes : op.Takes operands.length) : Built (g.insert op operands).2
  | insertOperand {g : Graph} (o : Operand) (built : Built g) : Built (g.insertOperand o).2
  | insertInject {g : Graph} (name : String) (fallback : Literal) (built : Built g) :
      Built (g.insertInject name fallback).2
  | resolve {g : Graph} (ref : NodeId) (target : Option NodeId) (built : Built g)
      (isRef : ∀ n, g.get? ref = some n → ∃ name s, n.op = .ref name s) :
      Built (g.resolve ref target)

/-! ## appending nodes -/

theorem get?_eq (g : Graph) (id : Nat) :
    g.get? id = if id = 0 then none else g.nodes[id - 1]? := rfl

theorem get?_append (g : Graph) (ns : List Node) (id : Nat) :
    get? ⟨g.nodes ++ ns.toArray⟩ id = if id ≤ g.size then g.get? id else ns[id - 1 - g.size]? := by
  rw [get?_eq, get?_eq]
  unfold size
  by_cases zero : id = 0
  · simp [zero]
  · rw [if_neg zero, Array.getElem?_append]
    have iff : id - 1 < g.nodes.size ↔ id ≤ g.nodes.size := by omega
    simp only [iff, zero, if_false, getElem?_toArray]

theorem le_size_of_get? {id : Nat} (h : g.get? id = some n) : 0 < id ∧ id ≤ g.size := by
  rw [get?_eq] at h
  split at h
  · exact absurd h (by simp)
  · have := (Array.getElem?_eq_some_iff.1 h).1
    unfold size
    omega

theorem isSome_get? (g : Graph) (id : Nat) : (g.get? id).isSome ↔ 0 < id ∧ id ≤ g.size := by
  constructor
  · intro some
    obtain ⟨n, found⟩ := Option.isSome_iff_exists.1 some
    exact le_size_of_get? found
  · rintro ⟨pos, le⟩
    unfold size at le
    rw [get?_eq, if_neg (by omega), Array.getElem?_eq_getElem (by omega)]
    rfl

theorem exists_get? {g : Graph} {i : NodeId} (there : 0 < i ∧ i ≤ g.size) :
    ∃ n, g.get? i = some n := Option.isSome_iff_exists.1 ((isSome_get? g i).2 there)

theorem get?_set (g : Graph) {ref : Nat} (pos : 0 < ref) (le : ref ≤ g.size) (n : Node) (id : Nat) :
    get? ⟨g.nodes.setIfInBounds (ref - 1) n⟩ id = if id = ref then some n else g.get? id := by
  rw [get?_eq, get?_eq, Array.getElem?_setIfInBounds]
  unfold size at le
  grind

/-- nodes that may be appended to a graph, the first of them numbered `first` -/
structure Appendable (g : Graph) (ns : List Node) : Prop where
  ids : ∀ (i : Nat) (n : Node), ns[i]? = some n → g.size + 1 + i = n.id
  wires : ∀ n ∈ ns, ∀ w, some w ∈ n.inputs → ∃ m : Node, m.shape = w.shape ∧
    (g.get? w.source = some m ∨ g.size < w.source ∧ ns[w.source - 1 - g.size]? = some m)
  takes : ∀ n ∈ ns, n.op.Takes n.inputs.length
  others : ∀ n ∈ ns, n.op ≠ .position

theorem WellFormed.append {ns : List Node} (wf : g.WellFormed)
    (ok : Appendable g ns) (nonempty : 0 < g.size) : WellFormed ⟨g.nodes ++ ns.toArray⟩ := by
  have old {id : NodeId} {n : Node} (h : g.get? id = some n) :
      get? ⟨g.nodes ++ ns.toArray⟩ id = some n := by
    rw [get?_append, if_pos (le_size_of_get? h).2, h]
  have new {id : Nat} {n : Node} (large : g.size < id) (h : ns[id - 1 - g.size]? = some n) :
      get? ⟨g.nodes ++ ns.toArray⟩ id = some n := by
    rw [get?_append, if_neg (by omega), h]
  have split {id : Nat} {n : Node} (h : get? ⟨g.nodes ++ ns.toArray⟩ id = some n) :
      g.get? id = some n ∨ g.size < id ∧ ns[id - 1 - g.size]? = some n := by
    rw [get?_append] at h
    by_cases small : id ≤ g.size
    · rw [if_pos small] at h
      exact .inl h
    · rw [if_neg small] at h
      exact .inr ⟨by omega, h⟩
  refine ⟨?_, ?_, ?_, ?_⟩
  · intro (id : Nat) n found
    rcases split found with h | ⟨large, h⟩
    · exact wf.id_eq h
    · rw [← ok.ids _ _ h]
      exact (by omega : g.size + 1 + (id - 1 - g.size) = id)
  · intro id n w found input
    rcases split found with h | ⟨-, h⟩
    · obtain ⟨m, source, shape⟩ := wf.wire h input
      exact ⟨m, old source, shape⟩
    · obtain ⟨m, shape, source | ⟨large, source⟩⟩ := ok.wires n (mem_of_getElem? h) w input
      · exact ⟨m, old source, shape⟩
      · exact ⟨m, new large source, shape⟩
  · intro id n found
    rcases split found with h | ⟨-, h⟩
    · exact wf.takes h
    · exact .inl (ok.takes n (mem_of_getElem? h))
  · intro (id : Nat) n found
    rcases split found with h | ⟨large, h⟩
    · exact wf.position h
    · have other := ok.others n (mem_of_getElem? h)
      have : ¬ id = 1 := by omega
      exact iff_of_false other this

/-! ## operands -/

/-- the node of a literal stands alone -/
def IsLeaf (n : Node) : Prop := n.inputs = [] ∧ n.op.Takes 0 ∧ n.op ≠ .position

/-- the wires and the new nodes of operands, the new ones numbered from `id` on -/
structure Placed (g : Graph) (id : Nat) (ws : List (Option Wire)) (made : List Node) : Prop where
  ids : ∀ (i : Nat) (n : Node), made[i]? = some n → id + i = n.id
  leaf : ∀ n ∈ made, IsLeaf n
  wires : ∀ w, some w ∈ ws → ∃ m : Node, m.shape = w.shape ∧
    (g.get? w.source = some m ∨ id ≤ w.source ∧ made[w.source - id]? = some m)

theorem isLeaf_literal (id : NodeId) (l : Literal) : IsLeaf ⟨id, literalOp l, []⟩ := by
  unfold IsLeaf literalOp
  split
  · exact ⟨rfl, rfl, by simp⟩
  · exact ⟨rfl, rfl, by simp⟩

theorem placed_place (wf : g.WellFormed) (id : Nat) (o : Operand) :
    Placed g id [(g.place id o).1] (g.place id o).2 := by
  have literal (l : Literal) : Placed g id [some (Node.wire ⟨id, literalOp l, []⟩)]
      [⟨id, literalOp l, []⟩] := by
    refine ⟨?_, ?_, ?_⟩
    · intro i n h
      cases i with
      | zero => cases h; rfl
      | succ i => simp at h
    · intro n h
      rw [mem_singleton.1 h]
      exact isLeaf_literal id l
    · intro w h
      obtain rfl : w = Node.wire ⟨id, literalOp l, []⟩ := by simpa using h
      exact ⟨⟨id, literalOp l, []⟩, rfl, .inr ⟨Nat.le_refl id, by simp [Node.wire]⟩⟩
  have nothing : Placed g id [none] [] := ⟨by simp, by simp, by simp⟩
  cases o with
  | missing => exact nothing
  | node source =>
    refine ⟨by simp [place], by simp [place], ?_⟩
    intro w h
    obtain ⟨m, found, rfl⟩ : ∃ m, g.get? source = some m ∧ m.wire = w := by
      have h : some w = (g.get? source).map Node.wire := mem_singleton.1 h
      exact Option.map_eq_some_iff.1 h.symm
    refine ⟨m, rfl, .inl ?_⟩
    show g.get? m.id = some m
    rw [wf.id_eq found, found]
  | literal l =>
    cases l with
    | nothing => exact nothing
    | _ => exact literal _

theorem placed_placeAll (wf : g.WellFormed) (id : Nat) (os : List Operand) :
    Placed g id (g.placeAll id os).1 (g.placeAll id os).2 := by
  induction os generalizing id with
  | nil => exact ⟨by simp [placeAll], by simp [placeAll], by simp [placeAll]⟩
  | cons o os ih =>
    have head := placed_place wf id o
    have tail := ih (id + (g.place id o).2.length)
    show Placed g id ((g.place id o).1 :: (g.placeAll (id + (g.place id o).2.length) os).1)
      ((g.place id o).2 ++ (g.placeAll (id + (g.place id o).2.length) os).2)
    generalize (g.place id o).2 = made at head tail ⊢
    refine ⟨?_, ?_, ?_⟩
    · intro i n h
      rw [getElem?_append] at h
      split at h
      · exact head.ids i n h
      · rw [← tail.ids _ n h]
        omega
    · exact forall_mem_append.2 ⟨head.leaf, tail.leaf⟩
    · intro w h
      rcases mem_cons.1 h with h | h
      · obtain ⟨m, shape, source | ⟨le, source⟩⟩ := head.wires w (by simp [h])
        · exact ⟨m, shape, .inl source⟩
        · refine ⟨m, shape, .inr ⟨le, ?_⟩⟩
          rw [List.getElem?_append_left (List.getElem?_eq_some_iff.1 source).1, source]
      · obtain ⟨m, shape, source | ⟨le, source⟩⟩ := tail.wires w h
        · exact ⟨m, shape, .inl source⟩
        · refine ⟨m, shape, .inr ⟨Nat.le_trans (Nat.le_add_right _ _) le, ?_⟩⟩
          rw [getElem?_append_right (by omega), Nat.sub_sub, source]

theorem length_placeAll (g : Graph) (id : NodeId) (os : List Operand) :
    (g.placeAll id os).1.length = os.length := by
  induction os generalizing id with
  | nil => rfl
  | cons o os ih => exact congrArg (· + 1) (ih _)

/-! ## built graphs -/

section
variable (wf : g.WellFormed) (nonempty : 0 < g.size)
include wf nonempty

theorem WellFormed.insert {op : Op} {operands : List Operand} (other : op ≠ .position)
    (takes : op.Takes operands.length) : (g.insert op operands).2.WellFormed := by
  have placed := placed_placeAll wf (g.next + 1) operands
  have length := length_placeAll g (g.next + 1) operands
  refine WellFormed.append wf ⟨?_, ?_, ?_, ?_⟩ nonempty
  · intro i n h
    cases i with
    | zero => cases h; rfl
    | succ i =>
      rw [← placed.ids i n h]
      show g.size + 1 + (i + 1) = g.size + 1 + 1 + i
      omega
  · intro n h w input
    rcases mem_cons.1 h with rfl | h
    · obtain ⟨m, shape, source | ⟨le, source⟩⟩ := placed.wires w input
      · exact ⟨m, shape, .inl source⟩
      · have le : g.size + 1 + 1 ≤ w.source := le
        have place (k : Nat) (h : g.size + 1 + 1 ≤ k) :
            k - 1 - g.size = (k - (g.size + 1 + 1)) + 1 := by omega
        refine ⟨m, shape, .inr ⟨by omega, ?_⟩⟩
        rw [place _ le, getElem?_cons_succ]
        exact source
    · rw [(placed.leaf n h).1] at input
      simp at input
  · intro n h
    rcases mem_cons.1 h with rfl | h
    · rwa [length]
    · rw [(placed.leaf n h).1]
      exact (placed.leaf n h).2.1
  · exact forall_mem_cons.2 ⟨other, fun n h => (placed.leaf n h).2.2⟩

theorem WellFormed.insertOperand (o : Operand) : (g.insertOperand o).2.WellFormed := by
  have placed := placed_place wf g.next o
  refine WellFormed.append wf ⟨placed.ids, ?_, ?_, ?_⟩ nonempty
  · intro n h w input
    rw [(placed.leaf n h).1] at input
    simp at input
  · intro n h
    rw [(placed.leaf n h).1]
    exact (placed.leaf n h).2.1
  · exact fun n h => (placed.leaf n h).2.2

theorem WellFormed.insertInject
    (name : String) (fallback : Literal) : (g.insertInject name fallback).2.WellFormed := by
  unfold Graph.insertInject
  split
  · exact wf.insert nonempty (by simp) rfl
  · exact wf.insert nonempty (by simp) rfl

end

theorem shape_ref (op : n.op = .ref name s)
    (present : n.inputs = [] ∨ ∃ w, n.inputs = [some w]) : n.shape = s := by
  have typed : n.typing = .ok s := by
    unfold Node.typing
    rcases present with h | ⟨w, h⟩
    · simp [h, op, Op.typing, presentShapes, Op.typingOf]
    · simp [h, op, Op.typing, presentShapes, Op.typingOf]
  simp only [Node.shape, typed]

theorem WellFormed.ref_inputs (wf : g.WellFormed) {id : NodeId} (found : g.get? id = some n)
    (op : n.op = .ref name s) : n.inputs = [] ∨ ∃ w, n.inputs = [some w] := by
  rcases wf.takes found with takes | ⟨_, _, w, -, inputs⟩
  · rw [op] at takes
    exact .inl (eq_nil_of_length_eq_zero takes)
  · exact .inr ⟨w, inputs⟩

/-- a reference that is pointed elsewhere keeps its shape, so the wires that leave it stay right -/
theorem WellFormed.redirect (wf : g.WellFormed) {ref : Nat} {r : Node}
    (found : g.get? ref = some r) (op : r.op = .ref name s) {inputs : List (Option Wire)}
    (source : inputs = [] ∨ ∃ t, inputs = [some t.wire] ∧ g.get? t.id = some t) :
    WellFormed ⟨g.nodes.setIfInBounds (ref - 1) { r with inputs }⟩ := by
  have shape : Node.shape { r with inputs } = r.shape := by
    rw [shape_ref (n := r) op (wf.ref_inputs found op)]
    refine shape_ref (n := { r with inputs }) op ?_
    rcases source with h | ⟨t, h, -⟩
    · exact .inl h
    · exact .inr ⟨t.wire, h⟩
  have look := get?_set g (le_size_of_get? found).1 (le_size_of_get? found).2 { r with inputs }
  have split {id : Nat} {n : Node}
      (h : get? ⟨g.nodes.setIfInBounds (ref - 1) { r with inputs }⟩ id = some n) :
      id = ref ∧ n = { r with inputs } ∨ id ≠ ref ∧ g.get? id = some n := by
    rw [look] at h
    by_cases same : id = ref
    · rw [if_pos same] at h
      exact .inl ⟨same, (Option.some.inj h).symm⟩
    · rw [if_neg same] at h
      exact .inr ⟨same, h⟩
  -- a node that was there still is, with its shape
  have kept {id : Nat} {n : Node} (h : g.get? id = some n) :
      ∃ m, get? ⟨g.nodes.setIfInBounds (ref - 1) { r with inputs }⟩ id = some m ∧
        m.shape = n.shape := by
    rw [look]
    by_cases same : id = ref
    · subst same
      rw [if_pos rfl]
      cases found.symm.trans h
      exact ⟨_, rfl, shape⟩
    · exact ⟨n, by rw [if_neg same, h], rfl⟩
  refine ⟨?_, ?_, ?_, ?_⟩
  · intro id n h
    rcases split h with ⟨rfl, rfl⟩ | ⟨-, h⟩
    · exact (wf.id_eq found : r.id = id)
    · exact wf.id_eq h
  · intro id n w h input
    rcases split h with ⟨-, rfl⟩ | ⟨-, h⟩
    · rcases source with rfl | ⟨t, rfl, there⟩
      · simp at input
      · obtain rfl : w = t.wire := by simpa using input
        exact kept there
    · obtain ⟨m, there, same⟩ := wf.wire h input
      obtain ⟨m', there', same'⟩ := kept there
      exact ⟨m', there', same'.trans same⟩
  · intro id n h
    rcases split h with ⟨-, rfl⟩ | ⟨-, h⟩
    · rcases source with rfl | ⟨t, rfl, -⟩
      · exact .inl (by rw [op]; rfl)
      · exact .inr ⟨name, s, t.wire, op, rfl⟩
    · exact wf.takes h
  · intro id n h
    rcases split h with ⟨rfl, rfl⟩ | ⟨-, h⟩
    · exact (wf.position found : r.op = .position ↔ id = positionId)
    · exact wf.position h

theorem WellFormed.resolve (wf : g.WellFormed) {ref : NodeId} {target : Option NodeId}
    (isRef : ∀ n, g.get? ref = some n → ∃ name s, n.op = .ref name s) :
    (g.resolve ref target).WellFormed := by
  unfold Graph.resolve
  split
  case h_1 => exact wf
  case h_2 r found =>
    obtain ⟨name, s, op⟩ := isRef r found
    refine wf.redirect found op ?_
    cases goal : target.bind g.get? with
    | none => exact .inl rfl
    | some t =>
      obtain ⟨id, -, there⟩ := Option.bind_eq_some_iff.1 goal
      exact .inr ⟨t, rfl, by rw [wf.id_eq there, there]⟩

theorem size_insert_pos (g : Graph) (op : Op) (operands : List Operand) :
    0 < (g.insert op operands).2.size := by
  unfold size Graph.insert
  rw [Array.size_append]
  exact Nat.add_pos_right _ (Nat.succ_pos _)

theorem Built.size_pos (h : g.Built) : 0 < g.size := by
  induction h with
  | initial => decide
  | insert op operands _ _ _ ih => exact size_insert_pos _ op operands
  | insertOperand o _ ih =>
    unfold size at ih ⊢
    unfold Graph.insertOperand
    rw [Array.size_append]
    exact Nat.add_pos_left ih _
  | insertInject name fallback _ ih =>
    unfold Graph.insertInject
    split
    · exact size_insert_pos _ _ _
    · exact size_insert_pos _ _ _
  | resolve ref target _ _ ih =>
    unfold Graph.resolve size at *
    split <;> simpa using ih

theorem Built.wellFormed (h : g.Built) : g.WellFormed := by
  induction h with
  | initial =>
    have only {id : Nat} {n : Node} (h : Graph.initial.get? id = some n) :
        id = 1 ∧ n = ⟨positionId, .position, []⟩ := by
      have bound := le_size_of_get? h
      have one : id = 1 := Nat.le_antisymm bound.2 bound.1
      subst one
      exact ⟨rfl, (Option.some.inj h).symm⟩
    refine ⟨?_, ?_, ?_, ?_⟩
    · intro id n h
      obtain ⟨rfl, rfl⟩ := only h
      rfl
    · intro id n w h input
      obtain ⟨rfl, rfl⟩ := only h
      simp at input
    · intro id n h
      obtain ⟨rfl, rfl⟩ := only h
      exact .inl rfl
    · intro id n h
      obtain ⟨rfl, rfl⟩ := only h
      exact iff_of_true rfl rfl
  | insert op operands built other takes ih => exact ih.insert built.size_pos other takes
  | insertOperand o built ih => exact ih.insertOperand built.size_pos o
  | insertInject name fallback built ih => exact ih.insertInject built.size_pos name fallback
  | resolve ref target built isRef ih => exact ih.resolve isRef

end Graph
end Terrain
