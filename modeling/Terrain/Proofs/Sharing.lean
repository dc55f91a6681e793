import Terrain.Proofs.Lockstep

/-!
# What the structure stream decides

Compilations of one stream have the same workgroup, the same dispatches and the same buffers, and
their functions are the same up to the numbers of slots.  Constants are the one thing that the
stream does not tell: a constant that is generated in two functions has one slot, but each of the
functions folds it like any constant.  Where the constants of two compilations are shared alike,
their programs differ in the values of parameters only.

* `SameSharing`               constants are shared alike, which can be decided;
* `blankTables`               slots that are not looked at;
* `sharedTables`              slots, where constants are shared alike;
* `structure_of_stream_eq`    what programs of one stream have in common;
* `one_stream_two_layouts`    two graphs of one stream whose programs differ.
-/

namespace Terrain

open Compile Kernel Hash List

variable {pairs : List (NodeId × NodeId)}

namespace Compile

section
variable {g h : Graph} {c d F G : Context}

/-! ## slots that are not looked at -/

/-- slots without their numbers -/
def blankSlot : SlotMap := fun p => (0, p.2.solid)

instance : Framed fun _ _ => True := ⟨fun _ _ _ => trivial⟩

theorem blankTables (P : NodeId → NodeId → Prop) : Tables blankSlot (fun _ _ => True) P where
  coarse p q h := by
    have shapes : p.2.solid = q.2.solid := congrArg Prod.snd h
    simp only [blankSlot, shapes]
  shape _ := rfl
  constant _ _ shape _ _ := ⟨trivial, by simp only [blankSlot, shape]⟩
  inject _ shape _ _ := ⟨trivial, by simp only [blankSlot, shape]⟩

/-! ## constants that are shared alike -/

def SameSharing (g h : Graph) (c d : Context) : Prop :=
  ∀ p ∈ constantPairs g h c d, ∀ q ∈ constantPairs g h c d, p.1 = q.1 ↔ p.2 = q.2

instance : Decidable (SameSharing g h c d) :=
  inferInstanceAs (Decidable (∀ p ∈ constantPairs g h c d, ∀ q ∈ constantPairs g h c d,
    p.1 = q.1 ↔ p.2 = q.2))

/-- tables of parameters of one layout, whose constants are pairs -/
structure SharedTables (pairs : List (NodeId × NodeId)) (c d : Context) : Prop where
  layout : c.parameters.map Parameter.layout = d.parameters.map Parameter.layout
  injected : c.injectedSlots = d.injectedSlots
  constants : Forall₂ (fun p q => (p.1, q.1) ∈ pairs ∧ p.2 = q.2) c.constantSlots d.constantSlots

theorem SharedTables.length (t : SharedTables pairs c d) :
    c.parameters.length = d.parameters.length := by
  simpa using congrArg List.length t.layout

theorem lookup_shared {xs ys : List (NodeId × Nat)} {a b : NodeId}
    (alike : ∀ p ∈ pairs, ∀ q ∈ pairs, p.1 = q.1 ↔ p.2 = q.2) (pair : (a, b) ∈ pairs)
    (tables : Forall₂ (fun p q => (p.1, q.1) ∈ pairs ∧ p.2 = q.2) xs ys) :
    xs.lookup a = ys.lookup b := by
  induction tables with
  | nil => rfl
  | @cons p q xs ys head _ ih =>
    obtain ⟨x, slot⟩ := p
    obtain ⟨y, slot'⟩ := q
    obtain ⟨member, rfl⟩ := head
    have same : (a == x) = (b == y) := by
      rw [Bool.eq_iff_iff, beq_iff_eq, beq_iff_eq]
      exact alike (a, b) pair (x, y) member
    simp only [lookup_cons, same, ih]

instance {pairs : List (NodeId × NodeId)} : Framed (SharedTables pairs) where
  frame t left right :=
    ⟨by rw [left.parameters, right.parameters, t.layout],
      by rw [left.injectedSlots, right.injectedSlots, t.injected],
      by rw [left.constantSlots, right.constantSlots]; exact t.constants⟩

theorem sharedTables (alike : ∀ p ∈ pairs, ∀ q ∈ pairs, p.1 = q.1 ↔ p.2 = q.2) :
    Tables solidSlot (SharedTables pairs) fun a b => (a, b) ∈ pairs where
  coarse _ _ h := h
  shape _ := rfl
  constant {a b v v' c d slot slot' c' d'} t pair shape left right := by
    have known := lookup_shared alike pair t.constants
    cases left with
    | again found =>
      cases right with
      | again found' =>
        rw [found, found'] at known
        cases known
        exact ⟨t, by rw [shape]⟩
      | first unknown => exact absurd (found.symm.trans (known.trans unknown)) (by simp)
    | first unknown =>
      cases right with
      | again found' => exact absurd (found'.symm.trans (known.symm.trans unknown)) (by simp)
      | first unknown' =>
        refine ⟨⟨?_, t.injected, .cons ⟨pair, t.length⟩ t.constants⟩, by rw [t.length, shape]⟩
        simp [Context.constantAdded, t.layout, Parameter.layout, shape, t.length]
  inject {name v v' c d slot slot' c' d'} t shape left right := by
    cases left with
    | again found =>
      rw [t.injected] at found
      cases right with
      | again found' =>
        cases found.symm.trans found'
        exact ⟨t, by rw [shape]⟩
      | first unknown => exact absurd (found.symm.trans unknown) (by simp)
    | first unknown =>
      rw [t.injected] at unknown
      cases right with
      | again found' => exact absurd (found'.symm.trans unknown) (by simp)
      | first unknown' =>
        refine ⟨⟨?_, ?_, t.constants⟩, by rw [t.length, shape]⟩
        · simp [Context.injectedAdded, t.layout, Parameter.layout, shape, t.length]
        · simp [Context.injectedAdded, t.injected, t.length]

/-! ## compilations of one stream -/

theorem workgroupSize_pos (o : Options) : 0 < o.workgroupSize := by
  unfold Options.workgroupSize Options.defaultWorkgroup
  split <;> omega

theorem OneStream.workgroup (e : OneStream F G) {o o' : Options} (left : Grows (Context.opened o) F)
    (right : Grows (Context.opened o') G) (small : o.workgroupSize ≤ Options.maxWorkgroup)
    (small' : o'.workgroupSize ≤ Options.maxWorkgroup) : o.workgroupSize = o'.workgroupSize := by
  have starts {o : Options} {F : Context} (grows : Grows (Context.opened o) F) :
      (Stream.empty.fold ([Tag.workgroup] ++
        Token.u32 (UInt32.ofInt o.workgroupSize))).bytes.toList <+: F.stream.bytes.toList := by
    refine List.IsPrefix.trans ?_ grows.stream
    show _ <+: (Stream.fold _ _).bytes.toList
    rw [Stream.toList_fold _ ([Tag.dispatch] ++ _ ++ _)]
    exact prefix_append _ _
  obtain ⟨u, v, tokens, -⟩ :=
    @OneStream.tokens F G (Context.new o) (Context.new o') e rfl _ _ (starts left) (starts right)
  have read := congrArg (fun bytes : List UInt8 => Token.readU32 bytes.tail) tokens
  simp only [cons_append, nil_append, tail_cons, Token.readU32_u32,
    Option.some.injEq, Prod.mk.injEq] at read
  have exact {k : Int} (low : 0 < k) (high : k ≤ Options.maxWorkgroup) :
      ((UInt32.ofInt k).toNat : Int) = k := by
    unfold Options.maxWorkgroup at high
    show ((k % 2 ^ 32).toNat % 2 ^ 32 : Nat) = k
    omega
  rw [← exact (workgroupSize_pos o) small, read.1, exact (workgroupSize_pos o') small']

theorem alike_of_stream_eq (built : g.Built) (built' : h.Built) {roots roots' : List Root}
    {o o' : Options} {ρ : SlotMap} {T : Context → Context → Prop} [Framed T]
    (left : g.parsed roots o = .ok c) (right : h.parsed roots' o' = .ok d) (e : OneStream c d)
    (t : Tables ρ T fun a b => (a, b) ∈ constantPairs g h c d)
    (empty : T (Context.opened o) (Context.opened o')) : Alike ρ T c d := by
  obtain ⟨small, valid, F, ran, rfl, -⟩ := parsed_ok left
  obtain ⟨small', valid', G, ran', rfl, -⟩ := parsed_ok right
  obtain ⟨done, sorted, there⟩ := validate_sorted built.wellFormed valid
  obtain ⟨done', sorted', there'⟩ := validate_sorted built'.wellFormed valid'
  have ends : OneStream F G := ⟨e.stream, e.small⟩
  have size := ends.workgroup ran.reaches.grows ran'.reaches.grows small small'
  have opened : Alike ρ T (Context.opened o) (Context.opened o') :=
    ⟨view_opened ρ rfl rfl size, empty⟩
  exact (RootsRan.inStep built built' sorted sorted' ends t there there' (validate_free valid)
    (validate_free valid') ran ran' (held_opened (preserved_solid built) o trivial)
    (held_opened (preserved_solid built') o' trivial) ⟨rfl, rfl⟩ ⟨rfl, rfl⟩ opened).finished

/-- the functions of a compilation as they are written, slots without their numbers -/
def Context.outline (c : Context) : List String :=
  c.writtenScopes.map fun i => Module.function ((c.scope i).view forget blankSlot)

theorem outline_of_alike {T : Context → Context → Prop} (a : Alike blankSlot T c d) :
    c.outline = d.outline := by
  have written : c.writtenScopes = d.writtenScopes := by
    have same := congrArg Context.writtenScopes a.view
    exact same
  unfold Context.outline
  rw [written]
  simp only [a.scope]

theorem keepsText_solidSlot : solidSlot.KeepsText := by
  intro slot shape
  cases shape <;> rfl

end
end Compile

/-- **What one stream decides.**  Compilations of graphs that fold the same bytes, fewer than four
gigabytes of them, make programs of the same digest, workgroup, dispatches and buffers, and their
functions are the same but for the numbers of slots.  Where their constants are shared alike, the
programs differ in the values of parameters only. -/
theorem structure_of_stream_eq {g h : Graph} (built : g.Built) (built' : h.Built)
    {roots roots' : List Root} {o o' : Options} {c d : Context}
    (left : g.parsed roots o = .ok c) (right : h.parsed roots' o' = .ok d)
    (stream : c.stream = d.stream) (small : c.stream.size < 2 ^ 32) :
    g.compile roots o = .ok c.toProgram ∧ h.compile roots' o' = .ok d.toProgram ∧
      c.toProgram.digest = d.toProgram.digest ∧
      c.toProgram.workgroup = d.toProgram.workgroup ∧
      c.toProgram.dispatches = d.toProgram.dispatches ∧
      c.toProgram.buffers = d.toProgram.buffers ∧ c.outline = d.outline ∧
      (SameSharing g h c d → c.toProgram.SameStructure d.toProgram) := by
  have ends : OneStream c d := ⟨stream, small⟩
  have blank := alike_of_stream_eq built built' left right ends (blankTables _) trivial
  refine ⟨by rw [compile_eq, left]; rfl, by rw [compile_eq, right]; rfl, ?_,
    workgroup_of_view blank.view, dispatches_of_view blank.view, buffers_of_view blank.view,
    outline_of_alike blank, ?_⟩
  · exact congrArg Stream.digest stream
  · intro shared
    have alike := alike_of_stream_eq built built' left right ends
      (sharedTables shared) ⟨rfl, rfl, .nil⟩
    exact sameStructure_of_view alike.view keepsText_solidSlot alike.tables.layout

/-- a constant that is read by a cache and by the output -/
def sharedConstant : Graph :=
  let g := (Graph.initial.insert (.constant (.scalar .one)) []).2
  let g := (g.insert (.cache 0) [.node 2]).2
  (g.insert (.binary .add) [.node 2, .node 3]).2

/-- the same with another constant, after one that nothing reads -/
def sharedLater : Graph :=
  let g := (Graph.initial.insert (.constant (.scalar .one)) []).2
  let g := (g.insert (.constant (.scalar .zero)) []).2
  let g := (g.insert (.cache 0) [.node 3]).2
  (g.insert (.binary .add) [.node 3, .node 4]).2

/-- a cache and the output read constants of their own -/
def splitConstants : Graph :=
  let g := (Graph.initial.insert (.constant (.scalar .one)) []).2
  let g := (g.insert (.constant (.scalar .one)) []).2
  let g := (g.insert (.cache 0) [.node 2]).2
  (g.insert (.binary .add) [.node 3, .node 4]).2

def plainOptions : Options := ⟨[], some [], 0⟩

theorem built_sharedConstant : sharedConstant.Built :=
  .insert _ _ (.insert _ _ (.insert _ _ .initial (by simp) rfl) (by simp) rfl) (by simp) rfl

theorem built_sharedLater : sharedLater.Built :=
  .insert _ _ (.insert _ _ (.insert _ _ (.insert _ _ .initial (by simp) rfl) (by simp) rfl)
    (by simp) rfl) (by simp) rfl

theorem structure_of_stream_eq_shared :
    ∃ c d, sharedConstant.parsed [⟨"density", some 4⟩] plainOptions = .ok c ∧
      sharedLater.parsed [⟨"density", some 5⟩] plainOptions = .ok d ∧ c.stream = d.stream ∧
      c.stream.size < 2 ^ 32 ∧ SameSharing sharedConstant sharedLater c d ∧
      c.toProgram.SameStructure d.toProgram := by
  obtain ⟨c, left, d, right, stream, small, sharing⟩ :
      ∃ c, sharedConstant.parsed [⟨"density", some 4⟩] plainOptions = .ok c ∧
        ∃ d, sharedLater.parsed [⟨"density", some 5⟩] plainOptions = .ok d ∧
          c.stream = d.stream ∧ c.stream.size < 2 ^ 32 ∧
          SameSharing sharedConstant sharedLater c d := by decide +kernel
  obtain ⟨-, -, -, -, -, -, -, same⟩ :=
    structure_of_stream_eq built_sharedConstant built_sharedLater left right stream small
  exact ⟨c, d, left, right, stream, small, sharing, same sharing⟩

/-- **One stream, two layouts.**  A constant that a cache and the output share has one slot, two
constants have two, and the stream is the same. -/
theorem one_stream_two_layouts :
    ∃ c d, sharedConstant.parsed [⟨"density", some 4⟩] plainOptions = .ok c ∧
      splitConstants.parsed [⟨"density", some 5⟩] plainOptions = .ok d ∧ c.stream = d.stream ∧
      c.toProgram.parameters.length = 1 ∧ d.toProgram.parameters.length = 2 := by
  obtain ⟨c, left, d, right, layouts⟩ :
      ∃ c, sharedConstant.parsed [⟨"density", some 4⟩] plainOptions = .ok c ∧
        ∃ d, splitConstants.parsed [⟨"density", some 5⟩] plainOptions = .ok d ∧
          c.stream = d.stream ∧ c.parameters.length = 1 ∧ d.parameters.length = 2 := by
    decide +kernel
  exact ⟨c, d, left, right, layouts⟩

end Terrain
