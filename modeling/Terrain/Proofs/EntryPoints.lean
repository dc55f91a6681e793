import Terrain.Proofs.WellTyped

/-!
# Entry points are well typed

The lines of an entry point go through under the typing rules: the helpers are called at their
signatures, the function gets a pointer to a variable of each of its outputs, and a buffer gets
values of the type of its elements.

* `Helper.signature`    what a helper is given and returns;
* `checkEntry`          a line is well typed;
* `parsed_entryTyped`   every entry point of a program is well typed.
-/

namespace Terrain.Compile

open Kernel Hash List

variable {s word : String} {outputs : List Output} {wants : List Argument}

/-! ## helpers -/

namespace Helper

/-- the arguments of a helper by name, and what it returns -/
def signature : Helper → List (String × Ty) × Ty
  | size => ([("r", .u32)], .u32)
  | decode2 => ([("i", .u32), ("n", .u32)], .vec 2 .u32)
  | decode3 => ([("i", .u32), ("n", .u32)], .vec 3 .u32)
  | position2 => ([("c", .vec 2 .u32), ("r", .u32)], .vec 3 .f32)
  | position3 => ([("c", .vec 3 .u32), ("r", .u32)], .vec 3 .f32)

def type? (h : Helper) (args : List Ty) : Option Ty :=
  if fitAll args (h.signature.1.map Prod.snd) then some h.signature.2 else none

end Helper

theorem part_of_begins {part : String} (h : ∃ rest, s = part ++ rest) : Part part s := by
  obtain ⟨rest, rfl⟩ := h
  exact ⟨"", rest, by rw [String.empty_append]⟩

/-- the text that declares a helper -/
def Helper.source : Helper → String
  | decode2 => Index.decodeHelper 2
  | decode3 => Index.decodeHelper 3
  | _ => Module.positionHelpers

theorem Helper.head_source (h : Helper) :
    Part (headText h.name h.signature.1 h.signature.2) h.source := by
  cases h with
  | size =>
    unfold source Module.positionHelpers
    refine part_of_begins ?_
    iterate 8 apply begins_append
    exact ⟨"\treturn max(segment.size >> r, 1u);\n\x7d\n\n", by decide⟩
  | decode2 | decode3 =>
    unfold source Index.decodeHelper
    refine part_of_begins ?_
    iterate 4 apply begins_append
    exact ⟨"\treturn ", by decide⟩
  | position2 =>
    unfold source Module.positionHelpers
    iterate 5 apply Part.left
    exact (part_of_begins ⟨"", by decide⟩).right _
  | position3 =>
    unfold source Module.positionHelpers
    iterate 7 apply Part.left
    exact (part_of_begins ⟨"", by decide⟩).right _

theorem Part.trans {a b : String} (h : Part a b) (h' : Part b s) : Part a s := by
  obtain ⟨before, after, rfl⟩ := h'
  exact (h.right before).left after

theorem part_preamble (m : Module) (h : Part s m.preamble) : Part s m.text := by
  unfold Module.text
  exact ((h.left _).left _).left _

theorem Helper.head_text (h : Helper) (m : Module) :
    Part (headText h.name h.signature.1 h.signature.2) m.text := by
  have member : h.source ∈ [Index.encodeHelper 3, Index.decodeHelper 3, Index.encodeHelper 2,
      Index.decodeHelper 2, Module.positionHelpers] := by
    cases h <;> simp [source]
  have listed : Part (h.source ++ "\n") m.preamble := (part_join member rfl).right _
  exact part_preamble m ((h.head_source.left "\n").trans listed)

theorem Routine.head_text {r : Routine} {m : Module} (member : r ∈ m.routines) :
    Part (headText r.name r.signature.1 r.signature.2) m.text := by
  have listed : Part (r.source ++ "\n") m.text := by
    unfold Module.text
    exact (((part_join member rfl).right _).left _).left _
  exact ((part_of_begins r.head_source).left "\n").trans listed

/-! ## typing -/

def EntryExpr.type? (Γ : Names) : EntryExpr → Option Ty
  | plain e => e.type? Γ
  | help1 h a => (a.type? Γ).bind fun s => h.type? [s]
  | help2 h a b => (a.type? Γ).bind fun s => (b.type? Γ).bind fun t => h.type? [s, t]

/-- a line of an entry point is well typed where some blocks are open, and leaves these open -/
def checkEntry (Γ : Globals) (blocks : List Block) : EntryLine → Option (List Block)
  | .bind v e => do addLocal [] v (← e.type? (Γ.names [] blocks)).concrete false blocks
  | .leave condition => do
    let t ← condition.type? (Γ.names [] blocks)
    if t = .bool then some blocks else none
  | .declare v s => do addLocal [] v (← Ty.ofShape? s) true blocks
  | .call f a results => do
    let wants ← Γ.function f
    let given ← (Γ.names [] blocks).var a
    let locals ← results.mapM (findLocal blocks)
    if locals.all Prod.snd &&
      fitArguments wants ((given, false) :: locals.map fun l => (l.1, true)) then
        some blocks else none
  | .store b index e => do
    let want ← Γ.buffer b
    let k ← (Γ.names [] blocks).var index
    let t ← e.type? (Γ.names [] blocks)
    if k = .u32 ∧ t.fits want then some blocks else none

/-- what an entry point is given -/
def entryLocals : Block :=
  [(.named "gid", .vec 3 .u32, false), (.named "groups", .vec 3 .u32, false)]

/-- an entry point is written as lines that are well typed, one after the other -/
def EntryTyped (Γ : Globals) (workgroup : Int) (d : Entry) (function : String) : Prop :=
  ∃ (lines : List EntryLine) (block : Block), Module.entryPoint workgroup d function =
      entryHead workgroup d.name ++ String.join (lines.map EntryLine.text) ++ "\x7d\n\n" ∧
    lines.foldlM (checkEntry Γ) [entryLocals] = some [block]

/-- what is at hand once the cell is known -/
def cellLocals : Block :=
  entryLocals ++ [(.named "index", .u32, false), (.named "n", .u32, false),
    (.position, .vec 3 .f32, false)]

section
variable {Γ : Globals}

section
variable (unsigned : literalType? word = some .u32)
include unsigned

theorem check_index :
    checkEntry Γ [entryLocals]
      (.bind (.named "index") (.plain (.add (.lanes (.named "gid") "x") (.mul
      (.mul (.lanes (.named "gid") "y") (.lanes (.named "groups") "x")) (.literal word))))) =
      some [entryLocals ++ [(.named "index", .u32, false)]] := by
  have type : (EntryExpr.plain (.add (.lanes (.named "gid") "x") (.mul
      (.mul (.lanes (.named "gid") "y") (.lanes (.named "groups") "x")) (.literal word)))).type?
      (Γ.names [] [entryLocals]) = some .u32 := by
    simp only [EntryExpr.type?, Expr.add, Expr.mul, Expr.type?, unsigned]
    rfl
  show Option.bind _ _ = _
  rw [type]
  rfl

theorem check_size :
    checkEntry Γ [entryLocals ++ [(.named "index", .u32, false)]]
      (.bind (.named "n") (.help1 .size (.plain (.literal word)))) =
      some [entryLocals ++ [(.named "index", .u32, false), (.named "n", .u32, false)]] := by
  show (Option.bind (Option.bind (literalType? word) _) _) = _
  rw [unsigned]
  rfl

theorem check_position {p h : Helper}
    (fits : p = .position2 ∧ h = .decode2 ∨ p = .position3 ∧ h = .decode3) :
    checkEntry Γ [entryLocals ++ [(.named "index", .u32, false), (.named "n", .u32, false)]]
      (.bind .position (.help2 p (.help2 h (.plain (.named "index")) (.plain (.named "n")))
        (.plain (.literal word)))) = some [cellLocals] := by
  rcases fits with ⟨rfl, rfl⟩ | ⟨rfl, rfl⟩
  all_goals
    show (Option.bind (Option.bind _ fun s => Option.bind (literalType? word) _) _) = _
    rw [unsigned]
    rfl

end

theorem check_cell {workgroup : Int} {d : Entry} (positive : 0 ≤ workgroup)
    (small : workgroup < 2 ^ 32) (range : 0 ≤ d.reduction ∧ d.reduction ≤ maxReduction) :
    (cellLines workgroup d).foldlM (checkEntry Γ) [entryLocals] = some [cellLocals] := by
  have reduction : literalType? s!"{d.reduction}u" = some .u32 :=
    literalType_word range.1 (lt_of_le_of_lt range.2 (by decide))
  unfold cellLines
  refine Option.bind_eq_some_iff.2 ⟨_, check_index (literalType_word positive small), ?_⟩
  refine Option.bind_eq_some_iff.2 ⟨_, check_size reduction, ?_⟩
  -- the test for the end of the grid is evaluated on the way
  by_cases planar : d.dims = .two
  · rw [if_pos planar, if_pos planar]
    exact Option.bind_eq_some_iff.2 ⟨_, check_position reduction (.inl ⟨rfl, rfl⟩), rfl⟩
  · rw [if_neg planar, if_neg planar]
    exact Option.bind_eq_some_iff.2 ⟨_, check_position reduction (.inr ⟨rfl, rfl⟩), rfl⟩

/-! ## outputs -/

/-- the type of the variable that receives an output -/
def outputType (o : Output) : Ty := (Ty.ofShape? o.shape).getD .f32

def outputLocals (outputs : List Output) : Block :=
  outputs.mapIdx fun i o => (outputVar i, outputType o, true)

theorem outputVar_inj {i j : Nat} (h : outputVar i = outputVar j) : i = j := by
  injection h with same
  exact @numbered_inj "o" i j same

theorem outputType_eq {o : Output} (defined : (Ty.ofShape? o.shape).isSome = true) :
    Ty.ofShape? o.shape = some (outputType o) := by
  obtain ⟨t, type⟩ := Option.isSome_iff_exists.1 defined
  unfold outputType
  rw [type]
  rfl

theorem outputVar_ne (i : Nat) {name : String} (other : name.toList.head? ≠ some 'o') :
    outputVar i ≠ .named name := by
  intro h
  injection h with same
  have first := congrArg (fun s : String => s.toList.head?) same
  refine other (first.symm.trans ?_)
  show ("o" ++ toString i).toList.head? = _
  rw [String.toList_append]
  rfl

theorem lookup_cellLocals (i : Nat) : cellLocals.lookup (outputVar i) = none := by
  have other {name : String} (h : name.toList.head? ≠ some 'o') :
      (outputVar i == .named name) = false := beq_eq_false_iff_ne.2 (outputVar_ne i h)
  have position : (outputVar i == .position) = false := rfl
  simp only [cellLocals, entryLocals, List.cons_append, List.nil_append, List.lookup_cons,
    @other "gid" (by decide), @other "groups" (by decide), @other "index" (by decide),
    @other "n" (by decide), position, List.lookup_nil]

section
variable {α : Type} {r : α → Ty × Bool} {l : List α} {v : Nat → Var}

theorem lookup_mapIdx (distinct : ∀ {i j}, v i = v j → i = j) (i : Nat) :
    (l.mapIdx fun i a => (v i, r a)).lookup (v i) = l[i]?.map r := by
  induction l generalizing v i with
  | nil => rfl
  | cons a l ih =>
    rw [List.mapIdx_cons, List.lookup_cons]
    cases i with
    | zero => rw [beq_self_eq_true]; rfl
    | succ i =>
      have other : (v (i + 1) == v 0) = false :=
        beq_eq_false_iff_ne.2 fun same => Nat.succ_ne_zero i (distinct same)
      rw [other]
      exact @ih (fun i => v (i + 1)) (fun same => Nat.succ.inj (distinct same)) i

theorem mapM_mapIdx {f : Var → Option (Ty × Bool)}
    (each : ∀ i a, l[i]? = some a → f (v i) = some (r a)) :
    (l.mapIdx fun i _ => v i).mapM f = some (l.map r) := by
  induction l generalizing v with
  | nil => rfl
  | cons a l ih =>
    rw [mapIdx_cons, mapM_cons, each 0 a rfl,
      @ih (fun i => v (i + 1)) fun i b found => each (i + 1) b found]
    rfl

end

theorem check_declares {v : Nat → Var} (distinct : ∀ {i j}, v i = v j → i = j)
    (defined : ∀ o ∈ outputs, (Ty.ofShape? o.shape).isSome = true) {block : Block}
    (fresh : ∀ i, block.lookup (v i) = none) :
    (outputs.mapIdx fun i o => EntryLine.declare (v i) o.shape).foldlM (checkEntry Γ) [block] =
      some [block ++ outputs.mapIdx fun i o => (v i, outputType o, true)] := by
  induction outputs generalizing v block with
  | nil => simp
  | cons o outputs ih =>
    have added : checkEntry Γ [block] (.declare (v 0) o.shape) =
        some [block ++ [(v 0, outputType o, true)]] := by
      show (Ty.ofShape? o.shape).bind _ = _
      rw [outputType_eq (defined o (.head _))]
      show (if (findLocal [block] (v 0)).isSome || _ then none else _) = _
      rw [findLocal_single, fresh 0]
      rfl
    have rest := @ih (fun i => v (i + 1)) (fun same => Nat.succ.inj (distinct same))
      (fun o' member => defined o' (.tail _ member)) (block ++ [(v 0, outputType o, true)])
      fun i => by
        have other : (v (i + 1) == v 0) = false :=
          beq_eq_false_iff_ne.2 fun same => Nat.succ_ne_zero i (distinct same)
        rw [List.lookup_append, fresh, List.lookup_cons, other]
        rfl
    rw [mapIdx_cons, mapIdx_cons, foldlM_cons, added]
    refine rest.trans ?_
    rw [append_assoc]
    rfl

theorem find_output (outputs : List Output) (i : Nat) :
    findLocal [cellLocals ++ outputLocals outputs] (outputVar i) =
      outputs[i]?.map fun o => (outputType o, true) := by
  rw [findLocal_single, lookup_append, lookup_cellLocals, Option.none_or]
  exact lookup_mapIdx outputVar_inj i

theorem find_index (outputs : List Output) :
    findLocal [cellLocals ++ outputLocals outputs] (.named "index") = some (.u32, false) := by
  rw [findLocal_single, lookup_append]
  rfl

theorem find_position (outputs : List Output) :
    findLocal [cellLocals ++ outputLocals outputs] .position = some (.vec 3 .f32, false) := by
  rw [findLocal_single, lookup_append]
  rfl

/-- an argument is a pointer to a value of the shape of an output -/
def Takes (a : Argument) (o : Output) : Prop := a.output = true ∧ a.shape = o.shape

theorem fitArguments_outputs (takes : Forall₂ Takes wants outputs)
    (defined : ∀ o ∈ outputs, (Ty.ofShape? o.shape).isSome = true) :
    fitArguments wants (outputs.map fun o => (outputType o, true)) = true := by
  induction takes with
  | nil => rfl
  | @cons a o wants outputs own _ ih =>
    have type := outputType_eq (defined o (.head _))
    simp only [map_cons, fitArguments, own.1, own.2, type,
      ih fun o' member => defined o' (.tail _ member)]
    simp

theorem check_call {function : String}
    (declared : Γ.function function = some (positionArgument :: wants))
    (takes : Forall₂ Takes wants outputs)
    (defined : ∀ o ∈ outputs, (Ty.ofShape? o.shape).isSome = true) :
    checkEntry Γ [cellLocals ++ outputLocals outputs]
      (.call function .position (outputs.mapIdx fun i _ => outputVar i)) =
      some [cellLocals ++ outputLocals outputs] := by
  have position : (Γ.names [] [cellLocals ++ outputLocals outputs]).var .position =
      some (.vec 3 .f32) := by
    simp only [Globals.names, find_position]
    rfl
  have locals : (outputs.mapIdx fun i _ => outputVar i).mapM
      (findLocal [cellLocals ++ outputLocals outputs]) =
      some (outputs.map fun o => (outputType o, true)) :=
    mapM_mapIdx fun i o found => by rw [find_output, found]; rfl
  have mutable : (outputs.map fun o => (outputType o, true)).all Prod.snd = true := by
    simp
  have fits : fitArguments (positionArgument :: wants) ((.vec 3 .f32, false) ::
      (outputs.map fun o => (outputType o, true)).map fun l => (l.1, true)) = true := by
    rw [map_map]
    exact fitArguments_outputs takes defined
  refine Option.bind_eq_some_iff.2 ⟨_, declared, Option.bind_eq_some_iff.2 ⟨_, position,
    Option.bind_eq_some_iff.2 ⟨_, locals, ?_⟩⟩⟩
  rw [mutable, fits]
  rfl

theorem check_store {i : Nat} {o : Output} (found : outputs[i]? = some o)
    (defined : (Ty.ofShape? o.shape).isSome = true)
    (buffer : Γ.buffer o.buffer = Ty.stored? o.shape) :
    checkEntry Γ [cellLocals ++ outputLocals outputs]
      (.store o.buffer (.named "index") (storedExpr i o.shape)) =
      some [cellLocals ++ outputLocals outputs] := by
  have index : (Γ.names [] [cellLocals ++ outputLocals outputs]).var
      (.named "index") = some .u32 := by
    simp only [Globals.names, find_index]
    rfl
  have var : (Γ.names [] [cellLocals ++ outputLocals outputs]).var (outputVar i) =
      Ty.ofShape? o.shape := by
    simp only [Globals.names, find_output, found, outputType_eq defined]
    rfl
  -- a truth value is stored as a word, every other value as it is
  obtain ⟨t, stored, value, fits⟩ : ∃ t, Ty.stored? o.shape = some t ∧
      (storedExpr i o.shape).type? (Γ.names [] [cellLocals ++ outputLocals outputs]) = some t ∧
        t.fits t = true := by
    unfold storedExpr
    by_cases truth : o.shape = .bool
    · rw [if_pos truth]
      rw [truth] at var ⊢
      refine ⟨.u32, rfl, ?_, rfl⟩
      simp only [Expr.type?, Expr.var, Symbol.type?, var]
      rfl
    · rw [if_neg truth]
      have type := outputType_eq defined
      refine ⟨outputType o, ?_, var.trans type, fits_ofShape type⟩
      rw [← type]
      cases same : o.shape <;> first | rfl | exact absurd same truth
  refine Option.bind_eq_some_iff.2 ⟨_, buffer.trans stored, Option.bind_eq_some_iff.2 ⟨_, index,
    Option.bind_eq_some_iff.2 ⟨_, value, ?_⟩⟩⟩
  exact if_pos ⟨rfl, fits⟩

/-- an entry point is well typed if its function takes a pointer for each output, and its buffers
have elements of the types of the outputs -/
theorem entryTyped {workgroup : Int} {d : Entry} {function : String} (positive : 0 ≤ workgroup)
    (small : workgroup < 2 ^ 32) (range : 0 ≤ d.reduction ∧ d.reduction ≤ maxReduction)
    (declared : Γ.function function = some (positionArgument :: wants))
    (takes : Forall₂ Takes wants d.outputs)
    (defined : ∀ o ∈ d.outputs, (Ty.ofShape? o.shape).isSome = true)
    (buffers : ∀ o ∈ d.outputs, Γ.buffer o.buffer = Ty.stored? o.shape) :
    EntryTyped Γ workgroup d function := by
  have stores {lines : List EntryLine} (same : ∀ l ∈ lines,
      checkEntry Γ [cellLocals ++ outputLocals d.outputs] l =
        some [cellLocals ++ outputLocals d.outputs]) :
      lines.foldlM (checkEntry Γ) [cellLocals ++ outputLocals d.outputs] =
        some [cellLocals ++ outputLocals d.outputs] := by
    induction lines with
    | nil => rfl
    | cons l lines ih =>
      rw [foldlM_cons, same l (.head _)]
      exact ih fun l' member => same l' (.tail _ member)
  refine ⟨_, cellLocals ++ outputLocals d.outputs, entryPoint_text workgroup d function, ?_⟩
  unfold entryLines
  rw [foldlM_append, foldlM_append, foldlM_append, check_cell positive small range]
  show Option.bind (Option.bind (List.foldlM _ _ _) _) _ = _
  rw [check_declares outputVar_inj defined lookup_cellLocals]
  show Option.bind (Option.bind (checkEntry Γ [cellLocals ++ outputLocals d.outputs] _) _) _ = _
  rw [check_call declared takes defined]
  refine stores fun l member => ?_
  obtain ⟨i, inside, rfl⟩ := mem_mapIdx.1 member
  have there := getElem_mem inside
  exact check_store (getElem?_eq_getElem inside) (defined _ there) (buffers _ there)

end

/-! ## programs -/

section
variable {g : Graph} {c : Context} {roots : List Root} {o : Options}

theorem parsed_workgroup (h : g.parsed roots o = .ok c) :
    0 < c.module.workgroup ∧ c.module.workgroup ≤ Options.maxWorkgroup := by
  obtain ⟨small, -, d, ran, rfl, -⟩ := parsed_ok h
  have options : d.options = o := ran.reaches.grows.options
  show 0 < d.options.workgroupSize ∧ d.options.workgroupSize ≤ Options.maxWorkgroup
  rw [options]
  refine ⟨?_, small⟩
  unfold Options.workgroupSize
  split
  · decide
  · omega

theorem parsed_entryTyped (built : g.Built) (h : g.parsed roots o = .ok c)
    (checked : Checked g roots c) {d : DispatchId} (inside : d < c.entries.size) :
    EntryTyped c.module.globals c.module.workgroup (c.entry d)
      (c.scope (c.entry d).scope).name := by
  obtain ⟨positive, small⟩ := parsed_workgroup h
  obtain ⟨done, -, k, -, -⟩ := parsed_writes built.wellFormed built.size_pos h
  obtain ⟨ws, computes⟩ : ∃ ws, Computes g c d ws := by
    obtain ⟨main, cache⟩ := parsed_computes built h
    rcases Nat.eq_zero_or_pos d with rfl | later
    · exact ⟨_, main⟩
    · obtain ⟨n, w, -, -, -, -, computes⟩ := cache d inside later
      exact ⟨_, computes⟩
  obtain ⟨there, position, -⟩ := k.entryScope d inside
  have declared := (function_globals h there).trans (congrArg some computes.args)
  refine entryTyped (le_of_lt positive) (lt_of_le_of_lt small (by decide))
    (checked.reduction d inside) declared ?_ (fun output member => ?_)
    fun output member => buffer_globals built h inside member
  · rw [computes.outputs]
    exact forall₂_map_left_iff.2 (forall₂_map_right_iff.2
      (forall₂_same.2 fun w _ => ⟨rfl, rfl⟩))
  · rw [computes.outputs] at member
    obtain ⟨w, listed, rfl⟩ := mem_map.1 member
    refine (parsed_receives built h inside).defined (parsed_wellScoped built h there)
      (checked.placed _ there position) (a := ⟨w.argument, w.shape, true⟩) ?_ rfl
    rw [computes.args]
    exact mem_cons_of_mem _ (mem_map_of_mem listed)

end

end Terrain.Compile
