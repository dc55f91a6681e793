import Terrain.Proofs.Documents
import Terrain.Proofs.EntryPoints

/-!
# Programs are well typed

The program of a document is well typed as a whole: its functions, its entry points, and the symbols
that hold the values of nodes.  A document that is read from a text has no value of an undefined
shape, which is all that the types of its program rest on.

* `Setting.Shaped`          a value that was not read from a text has one of the six shapes;
* `parse_shaped`            in a document that is read there is no such value;
* `Module.Typed`            a program is well typed;
* `compile_wellTyped`       the program of a document is.
-/

namespace Terrain

open Kernel List

variable {s : Setting} {α : Type} {doc : Document} {g : Graph}

/-! ## settings -/

def Setting.Shaped : Setting → Prop
  | .given (.value v) => v.shape.isDefined = true
  | _ => True

theorem Literal.isDefined_toValue {l : Literal} {v : Value} (h : l.toValue = .ok v)
    (other : ∀ w, l ≠ .value w) : v.shape.isDefined = true := by
  unfold toValue at h
  split at h
  case h_1 w => exact absurd rfl (other w)
  case h_4 n =>
    unfold Value.checkedInt at h
    split at h <;> cases h
    rfl
  all_goals cases h <;> rfl

theorem Setting.isDefined_toValue {v : Value} (shaped : s.Shaped)
    (h : s.toValue = .ok v) : v.shape.isDefined = true := by
  unfold toValue at h
  split at h
  case h_1 n =>
    cases h
    rfl
  case h_2 x => exact Literal.isDefined_toValue h nofun
  case h_3 b => exact Literal.isDefined_toValue h nofun
  case h_4 items =>
    obtain ⟨xs, -, made⟩ := bind_ok h
    exact Literal.isDefined_toValue made nofun
  case h_5 l =>
    cases l with
    | value w =>
      cases h
      exact shaped
    | _ => exact Literal.isDefined_toValue h nofun
  case h_6 => cases h

/-! ## reading -/

namespace Yaml

/-- a reader that makes nothing but settings as they are written -/
def Plain (found : Option Setting) : Prop := ∀ s, found = some s → s.Shaped

theorem plain_none : Plain none := nofun

theorem plain_map {f : α → Setting} (each : ∀ a, (f a).Shaped) (found : Option α) :
    Plain (found.map f) := by
  intro s h
  obtain ⟨a, -, rfl⟩ := Option.map_eq_some_iff.1 h
  exact each a

theorem plain_orElse {a b : Option Setting} (first : Plain a) (second : Plain b) :
    Plain (a <|> b) := by
  intro s h
  rcases (Option.orElse_eq_some _ _ _).1 h with found | ⟨-, found⟩
  · exact first s found
  · exact second s found

theorem plain_word (text : String) : Plain (word? text) := by
  intro s h
  unfold word? at h
  split at h <;> cases h <;> trivial

theorem plain_markedNumber (cs : List Char) : Plain (markedNumber? cs) := by
  have read (base : Nat) (cs : List Char) : Plain (markedNumber?.read base cs) :=
    plain_orElse (plain_map (fun _ => by trivial) _) (plain_map (fun _ => by trivial) _)
  unfold markedNumber?
  split
  · exact read _ _
  · exact plain_map (fun _ => by trivial) _
  · exact read _ _
  · exact plain_map (fun _ => by trivial) _
  · exact plain_none

theorem plain_number (cs : List Char) : Plain (number? cs) := by
  refine plain_orElse ?_ (plain_orElse ?_ (plain_orElse ?_ (plain_markedNumber _)))
  all_goals exact plain_map (fun _ => by trivial) _

theorem plain_fraction (cs : List Char) : Plain (fraction? cs) := by
  unfold fraction?
  split
  · exact plain_map (fun _ => by trivial) _
  · exact plain_none

theorem shaped_getD {found : Option Setting} (plain : Plain found) (text : String) :
    (found.getD (.text text)).Shaped := by
  cases found with
  | none => trivial
  | some s => exact plain s rfl

theorem resolve_shaped (times : Bool) (text : String) : (resolve times text).Shaped := by
  unfold resolve
  refine shaped_getD (plain_orElse (plain_word text) ?_) text
  split
  · exact plain_none
  split
  · exact plain_fraction _
  split
  · refine plain_orElse ?_ (plain_number _)
    split
    · exact plain_map (fun _ => by trivial) _
    · exact plain_none
  · exact plain_none

theorem scalarSetting_shaped {tag : Option String} {plain : Bool} {text : String}
    (h : scalarSetting? tag plain text = some s) : s.Shaped := by
  unfold scalarSetting? at h
  split at h
  · unfold resolveTagged at h
    split at h
    · cases h; trivial
    · dsimp only at h
      split at h
      · cases h; exact resolve_shaped _ _
      · split at h
        · split at h
          · cases h; trivial
          · cases h
        · cases h
  · split at h
    · cases h; trivial
    · split at h
      · cases h
      · cases h; exact resolve_shaped _ _

theorem setting_shaped {node : Node} (h : node.setting? = some s) : s.Shaped := by
  induction size : sizeOf node using Nat.strongRecOn generalizing node with
  | ind k ih =>
    subst size
    cases node with
    | scalar line tag plain text => exact scalarSetting_shaped h
    | sequence line items | mapping line entries =>
      obtain ⟨xs, -, rfl⟩ := Option.map_eq_some_iff.1 h
      trivial
    | aliasOf line name target =>
      cases target with
      | none => cases h
      | some node => exact @ih (sizeOf node) (by simp; omega) node h rfl
    | malformed line => cases h

end Yaml

namespace Document

/-- the values of nodes have one of the six shapes each -/
def Shaped (doc : Document) : Prop := ∀ p ∈ doc.nodes, p.2.value.Shaped

theorem foldlM_keeps {β : Type} {f : β → α → Option β} {P : β → Prop}
    (step : ∀ {b a b'}, P b → f b a = some b' → P b') {l : List α} {b b' : β} (start : P b)
    (h : l.foldlM f b = some b') : P b' := by
  induction l generalizing b with
  | nil =>
    cases h
    exact start
  | cons a l ih =>
    obtain ⟨mid, first, rest⟩ := Option.bind_eq_some_iff.1 h
    exact ih (step start first) rest

theorem exists_of_mem_mapM {β : Type} {f : α → Option β} {l : List α} {bs : List β}
    (h : l.mapM f = some bs) {b : β} (member : b ∈ bs) : ∃ a ∈ l, f a = some b := by
  induction l generalizing bs with
  | nil =>
    cases h
    cases member
  | cons a l ih =>
    rw [mapM_cons] at h
    obtain ⟨b', first, rest⟩ := Option.bind_eq_some_iff.1 h
    obtain ⟨bs', others, same⟩ := Option.bind_eq_some_iff.1 rest
    cases same
    rcases mem_cons.1 member with rfl | member
    · exact ⟨a, .head _, first⟩
    · obtain ⟨a', there, found⟩ := ih others member
      exact ⟨a', .tail _ there, found⟩

theorem setField_shaped {spec spec' : NodeSpec} {field : String × Yaml.Node}
    (shaped : spec.value.Shaped) (h : spec.setField field = some spec') : spec'.value.Shaped := by
  unfold NodeSpec.setField at h
  split at h
  case h_11 n =>
    obtain ⟨s, read, same⟩ := Option.bind_eq_some_iff.1 h
    cases same
    exact Yaml.setting_shaped read
  case h_12 => cases h
  all_goals
    obtain ⟨x, -, same⟩ := Option.bind_eq_some_iff.1 h
    cases same
    exact shaped

theorem ofNode_shaped {node : Yaml.Node} {spec : NodeSpec} (h : NodeSpec.ofNode? node = some spec) :
    spec.value.Shaped := by
  obtain ⟨fields, -, read⟩ := Option.bind_eq_some_iff.1 h
  have empty : NodeSpec.empty.value.Shaped := trivial
  exact foldlM_keeps (P := fun spec : NodeSpec => spec.value.Shaped) setField_shaped empty read

theorem setField_nodes {doc' : Document} {field : String × Yaml.Node} (shaped : doc.Shaped)
    (h : doc.setField field = some doc') : doc'.Shaped := by
  unfold setField at h
  split at h
  case h_3 n =>
    obtain ⟨nodes, read, same⟩ := Option.bind_eq_some_iff.1 h
    cases same
    obtain ⟨fields, -, each⟩ := Option.bind_eq_some_iff.1 read
    rintro ⟨name, spec⟩ member
    obtain ⟨⟨key, value⟩, -, made⟩ := exists_of_mem_mapM each member
    obtain ⟨spec', found, same⟩ := Option.bind_eq_some_iff.1 made
    cases same
    exact ofNode_shaped found
  case h_5 => cases h
  all_goals
    obtain ⟨x, -, same⟩ := Option.bind_eq_some_iff.1 h
    cases same
    exact shaped

theorem parse_shaped {text : String} (h : parse text = .ok doc) : doc.Shaped := by
  unfold parse at h
  split at h
  · rename_i doc' found
    cases h
    obtain ⟨node, -, read⟩ := Option.bind_eq_some_iff.1 found
    obtain ⟨fields, -, read⟩ := Option.bind_eq_some_iff.1 read
    have none : empty.Shaped := fun _ member => (not_mem_nil member).elim
    exact foldlM_keeps (P := Shaped) setField_nodes none read
  · cases h

theorem Shaped.makes {doc : Document} (shaped : doc.Shaped) :
    doc.Makes fun op => ∀ name s fallback, op = .inject name s fallback → s.isDefined = true where
  literal v name s fallback is := by cases is
  node member found made name s fallback is := by
    rcases (sound_of_recipe? found).declared made is with defined | ⟨v, read, rfl⟩
    · exact defined
    · exact Setting.isDefined_toValue (shaped _ member) read

theorem Raised.closed {made : Op → Prop} {old : Graph} {b : Builder} (h : Raised made old b)
    {id : NodeId} {n : Node} {w : Wire} (added : Added old b.graph id)
    (found : b.graph.get? id = some n) (member : some w ∈ n.inputs) :
    Added old b.graph w.source := by
  rcases added with rfl | ⟨new, -⟩
  · cases found.symm.trans (get?_positionId h.built)
    exact absurd member not_mem_nil
  · obtain ⟨w', same, -, added⟩ := h.inputs new found _ member
    cases same
    exact added

theorem compile_ok {o : Compile.Options} {p : Program}
    (h : (doc.compile g o).1 = .ok p) : ∃ roots values c, (doc.roots g).1 = .ok roots ∧
      doc.values = .ok values ∧
      (doc.roots g).2.parsed roots { o with bindings := o.bindings ++ values } = .ok c ∧
        p = c.toProgram := by
  rcases compile_cases h with ⟨e, -, same⟩ | ⟨name, e, same⟩ | ⟨roots, values, rooted, valued, same⟩
  · cases same
  · cases same
  · cases made : (doc.roots g).2.compile roots { o with bindings := o.bindings ++ values } with
    | error e =>
      rw [made] at same
      cases same
    | ok q =>
      rw [made] at same
      cases same
      obtain ⟨c, parsed, rfl⟩ := Compile.compile_ok_iff.1 made
      exact ⟨roots, values, c, rooted, valued, parsed, rfl⟩

/-- lines are typed when a document is compiled, and so are symbols -/
theorem Shaped.checked (shaped : doc.Shaped) (built : g.Built) {o : Compile.Options}
    {roots : List Root} (rooted : (doc.roots g).1 = .ok roots) {c : Compile.Context}
    (parsed : (doc.roots g).2.parsed roots o = .ok c) : Compile.Checked (doc.roots g).2 roots c ∧
      ∀ i < c.scopes.size, (c.scope i).hasPosition = true →
        ∀ p ∈ (c.scope i).symbols, Compile.TypedAs (doc.roots g).2 c i p.1 p.2 := by
  obtain ⟨⟨b, raised, graph⟩, outputs, -⟩ := roots_raised shaped.makes built
  have outputs := outputs roots rooted
  rw [← graph] at parsed outputs ⊢
  classical
  refine Compile.parsed_checked raised.built (S := Added g b.graph) parsed raised.closed
    (fun r member n found => ?_) fun {n name shape fallback} added found op => ?_
  · obtain ⟨id, node, added⟩ := outputs r member
    rw [node] at found
    rwa [raised.built.wellFormed.id_eq found]
  · rcases added with first | ⟨new, -⟩
    · have position := (raised.built.wellFormed.position found).2 first
      rw [op] at position
      cases position
    · exact raised.ops new found name shape fallback op

end Document

/-! ## programs -/

namespace Compile

theorem part_buffer (m : Module) {b : Buffer} (member : b ∈ m.buffers) {t : Ty}
    (stored : Ty.stored? b.shape = some t) :
    Part (b.symbol ++ ": array<" ++ t.text ++ ">;\n") m.text := by
  have declared : Part (b.symbol ++ ": array<" ++ t.text ++ ">;\n")
      (Module.bufferDeclaration b) := by
    rw [Ty.text_stored stored]
    exact Part.right ⟨"", "", by simp [toString]⟩ _
  refine part_preamble m ?_
  exact (((declared.trans (part_join member rfl)).right _).left _).left _

/-- a program is well typed.  Its text has the types that it is checked with; functions have names
of their own; helpers and library routines are declared at the signatures they are called at. -/
structure Module.Typed (m : Module) : Prop where
  /-- arguments and locals are declared with their types, and buffers with those of
  their elements -/
  types : ∀ s t, Ty.ofShape? s = some t → s.typeName = t.text
  buffers : ∀ b ∈ m.buffers, ∀ t, Ty.stored? b.shape = some t →
    Part (b.symbol ++ ": array<" ++ t.text ++ ">;\n") m.text
  /-- the symbol of a slot is an expression that reads the parameters, and has its type -/
  slots : ∀ k s args blocks, (Symbol.param k s).text = (slotExpr k s).text ∧
    (Symbol.param k s).type? (m.globals.names args blocks) =
      (slotExpr k s).type? (m.globals.names args blocks)
  names : (m.scopes.map Scope.name).Nodup
  helpers : ∀ h : Helper, Part (headText h.name h.signature.1 h.signature.2) m.text
  routines : ∀ r ∈ m.routines, Part (headText r.name r.signature.1 r.signature.2) m.text
  functions : ∀ s ∈ m.scopes, FunctionTyped m.globals s
  entries : ∀ e ∈ m.entries, EntryTyped m.globals m.workgroup e.1 e.2

theorem parsed_typed {c : Context} {roots : List Root} {o : Options} (built : g.Built)
    (h : g.parsed roots o = .ok c) (checked : Checked g roots c) : c.module.Typed where
  types s t shape := (Ty.text_ofShape shape).symm
  buffers b member t stored := part_buffer c.module member stored
  slots k s args blocks := by
    have params : (c.module.globals.names args blocks).buffer "params" = some (.vec 4 .f32) := rfl
    exact ⟨(text_slotExpr k s).symm, (type_slotExpr params k s).symm⟩
  names := nodup_functions h
  helpers k := k.head_text c.module
  routines r := Routine.head_text
  functions s member := by
    obtain ⟨i, listed, rfl⟩ := mem_map.1 member
    exact parsed_functionTyped built h checked (mem_range.1 ((parsed_scopes h).mem_iff.1 listed))
  entries e member := by
    obtain ⟨done, -, -, -, perm⟩ := linked_of_parsed built.wellFormed h
    obtain ⟨entry, listed, rfl⟩ := mem_map.1 member
    obtain ⟨d, there, rfl⟩ := mem_map.1 listed
    exact parsed_entryTyped built h checked (mem_range.1 (perm.mem_iff.1 there))

end Compile

open Compile

/-- **The program of a document is well typed,** if no node of the document has a value of an
undefined shape, as in every document that is read from a text.  When the program is generated, the
symbol of a node gets the type of the shape that was computed for the node, and for the operands it
can have, the expression of an operation has that type. -/
theorem compile_wellTyped {g : Graph} (built : g.Built) (o : Options) (doc : Document) :
    (∀ text, Document.parse text = .ok doc → doc.Shaped) ∧
    (doc.Shaped → ∀ p, (doc.compile g o).1 = .ok p →
      ∃ roots values c, (doc.roots g).1 = .ok roots ∧ doc.values = .ok values ∧
        (doc.roots g).2.parsed roots { o with bindings := o.bindings ++ values } = .ok c ∧
        p = c.toProgram ∧ c.module.Typed ∧
        (∀ d < c.entries.size,
          SymbolsTyped (doc.roots g).2 c.module.globals (c.scope (c.entry d).scope)) ∧
        ∀ id n ws, (doc.roots g).2.get? id = some n → n.inputs = ws.map some →
          n.typing = .ok n.shape → Node.isPlain n = true →
            ∀ Γ es, List.Forall₂ (fun (w : Wire) e => HasShape Γ e w.shape) ws es →
              HasShape Γ (term n es) n.shape) := by
  refine ⟨fun text => Document.parse_shaped, fun shaped p made => ?_⟩
  obtain ⟨⟨b, raised, graph⟩, -, -⟩ := Document.roots_raised shaped.makes built
  have grown : (doc.roots g).2.Built := graph ▸ raised.built
  obtain ⟨roots, values, c, rooted, valued, parsed, rfl⟩ := Document.compile_ok made
  obtain ⟨checked, symbols⟩ := shaped.checked built rooted parsed
  refine ⟨roots, values, c, rooted, valued, parsed, rfl, parsed_typed grown parsed checked,
    fun d inside => ?_, ?_⟩
  · obtain ⟨done, -, k, -, -⟩ := parsed_writes grown.wellFormed grown.size_pos parsed
    obtain ⟨there, position, -⟩ := k.entryScope d inside
    exact parsed_symbolsTyped grown parsed checked there position (symbols _ there position)
  · intro id n ws found inputs typed plain Γ es operands
    have wf := grown.wellFormed
    rw [← wf.id_eq found] at found
    exact type_term inputs (wf.accepts found inputs typed (isLeaf_of_isPlain plain)) plain operands

/-- hills that are computed once for a column -/
def rollingText : String :=
  "nodes:\n  hills: \x7bop: noise, kind: perlin, in: [position]\x7d\n" ++
  "  height: \x7bop: cache, in: [hills]\x7d\n" ++
  "outputs: \x7bdensity: height, color: position\x7d\n"

/-- the program of the hills is well typed, with the symbols of its dispatches -/
theorem compile_wellTyped_rolling : ∃ (doc : Document) (roots : List Root) (values : Bindings)
    (c : Context), Document.parse rollingText = .ok doc ∧ (doc.roots .initial).1 = .ok roots ∧
    (doc.roots .initial).2.parsed roots ⟨values, none, 0⟩ = .ok c ∧
    (doc.compile .initial default).1 = .ok c.toProgram ∧ c.module.Typed ∧
    ∀ d < c.entries.size,
      SymbolsTyped (doc.roots .initial).2 c.module.globals (c.scope (c.entry d).scope) := by
  have compiles : ((Document.parse rollingText).bind fun doc =>
      (doc.compile .initial default).1).isOk = true := by
    decide +kernel
  cases read : Document.parse rollingText with
  | error e =>
    rw [read] at compiles
    cases compiles
  | ok doc =>
    rw [read] at compiles
    cases made : (doc.compile .initial default).1 with
    | error e =>
      rw [show (Except.ok doc).bind (fun doc => (doc.compile .initial default).1) = .error e from
        made] at compiles
      cases compiles
    | ok p =>
      obtain ⟨parsed, typed⟩ := compile_wellTyped .initial default doc
      obtain ⟨roots, values, c, rooted, -, generated, rfl, well, symbols, -⟩ :=
        typed (parsed _ read) p made
      exact ⟨doc, roots, values, c, rfl, rooted, generated, made, well, symbols⟩

/-- a document of one node that has a value of no shape -/
def shapelessDocument : Document :=
  ⟨"", [], [("p", { Document.NodeSpec.empty with
    op := "inject", name := "p", value := .given (.value ⟨.none, .ofList [.one]⟩) })],
    [("density", "p")]⟩

/-- where a value of no shape goes through to the density, the pointer of the output has no type -/
theorem shapeless_document : ∃ c : Context,
    (shapelessDocument.roots .initial).1 = .ok [⟨"density", some 2⟩] ∧
    (shapelessDocument.roots .initial).2.parsed [⟨"density", some 2⟩] ⟨[], some [], 0⟩ = .ok c ∧
    (shapelessDocument.compile .initial ⟨[], some [], 0⟩).1 = .ok c.toProgram ∧
      ¬ c.module.Typed := by
  have rooted : (shapelessDocument.roots .initial).1 = .ok [⟨"density", some 2⟩] := by
    decide +kernel
  obtain ⟨c, parsed, s, member, a, argument, shape⟩ : ∃ c,
      (shapelessDocument.roots .initial).2.parsed [⟨"density", some 2⟩] ⟨[], some [], 0⟩ = .ok c ∧
        ∃ s ∈ c.module.scopes, ∃ a ∈ s.args, Ty.ofShape? a.shape = none := by
    decide +kernel
  refine ⟨c, rooted, parsed, ?_, fun typed => ?_⟩
  · have compiled := compile_ok_iff.2 ⟨c, parsed, rfl⟩
    have none : shapelessDocument.values = .ok [] := rfl
    rw [Document.compile_eq rooted none]
    exact congrArg (Except.mapError _) compiled
  · have some := (typed.functions s member).args a argument
    rw [shape] at some
    cases some

end Terrain
