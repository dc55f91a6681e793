import Terrain.Proofs.Entries
import Terrain.Proofs.Libraries
import Terrain.Proofs.Mentions

/-!
# The declarations of a program

A program is a text of declarations one after the other: what every program has, its buffers, the
helpers, the library routines, the functions and the entry points.  Each of them is read as one
declaration that mentions what stands before it.

* `declares_routine`     a library routine mentions the routines that it calls;
* `reading_helpers`      the index and position helpers;
* `declares_buffer`      a buffer;
* `declares_scope`       a function mentions what its lines mention;
* `declares_entry`       an entry point mentions helpers, its function and the buffers of its
                         outputs;
* `Module.Orderly`       a program whose functions and entry points mention what was declared
                         before;
* `Module.Orderly.reading`   such a program is read as its declarations.
-/

namespace Terrain.Kernel

open Reader List

variable {ts : List Token}

/-! ## pieces one after the other -/

section
variable {known : String → Prop} {a : String} {texts : List String}

theorem closes_join (each : ∀ t ∈ texts, Closes known t) : Closes known (String.join texts) := by
  induction texts with
  | nil => exact closes_literal "" (by decide)
  | cons t texts ih =>
    obtain ⟨first, rest⟩ := forall_mem_cons.1 each
    rw [String.join_cons]
    exact first.append (ih rest)

theorem ends_intercalate (each : ∀ t ∈ texts, Ends known t) :
    Ends known (", ".intercalate texts) := by
  induction texts with
  | nil => exact ends_literal (by decide)
  | cons t texts ih =>
    obtain ⟨first, rest⟩ := forall_mem_cons.1 each
    cases texts with
    | nil => exact first
    | cons u texts =>
      rw [String.intercalate_cons_cons]
      exact (first.close ", " (by decide)).ends (ih rest)

theorem marked_append {b : String} (c : String)
    (h : b.toList.head?.any (fun x => !isIdentifierRest x) = true) :
    (b ++ c).toList.head?.any (fun x => !isIdentifierRest x) = true := by
  rw [String.toList_append]
  cases chars : b.toList with
  | nil =>
    rw [chars] at h
    cases h
  | cons x rest =>
    rw [chars] at h
    exact h

theorem runs_join (each : ∀ t ∈ texts, Runs .idle t.toList .idle []) :
    Runs .idle (String.join texts).toList .idle [] := by
  induction texts with
  | nil => exact .nil _
  | cons t texts ih =>
    obtain ⟨first, rest⟩ := forall_mem_cons.1 each
    rw [String.join_cons, String.toList_append]
    exact first.append (ih rest)

theorem closes_known {w : String} {c : Char} (bracket : c = '(' ∨ c = '[')
    (word : isName w.toList = true) (h : known w) :
    Closes known (w ++ String.ofList [c]) :=
  closes_applied bracket word (.inl (String.ofList_toList ▸ h))

/-! ## comments and attributes -/

theorem int_chars (k : Int) : ∀ x ∈ (toString k).toList, x.isDigit = true ∨ x = '-' := by
  cases k with
  | ofNat n => exact fun x member => .inl (isDigit_of_mem member)
  | negSucc n =>
    show ∀ x ∈ ("-" ++ toString (n + 1)).toList, _
    rw [String.toList_append]
    refine forall_mem_append.2 ⟨by simp, fun x member => .inl (isDigit_of_mem member)⟩

theorem unbroken_int (k : Int) :
    (toString k).toList.all (fun x => !(x = ' ' || x = '\n')) = true := by
  refine all_eq_true.2 fun x member => ?_
  rcases int_chars k x member with digit | rfl
  · have other : x ≠ ' ' ∧ x ≠ '\n' := by
      constructor <;> (rintro rfl; cases digit)
    simp [other]
  · rfl

theorem Reader.Runs.attribute (h : Runs .idle a.toList .attribute ts) (k : Int) :
    Runs .idle (a ++ toString k).toList .attribute ts := by
  rw [String.toList_append, ← append_nil ts]
  exact h.append (runs_attribute (unbroken_int k))

theorem Reader.Runs.comment (h : Runs .idle a.toList .comment ts) {w : String}
    (line : '\n' ∉ w.toList) : Runs .idle (a ++ w).toList .comment ts := by
  rw [String.toList_append, ← append_nil ts]
  exact h.append (runs_comment line)

theorem Reader.Runs.silent {s t : State} (h : Runs .idle a.toList s ts) (b : String)
    (state : stateAfter s b.toList = t)
    (none : Reader.tokens s b.toList = []) : Runs .idle (a ++ b).toList t ts := by
  rw [String.toList_append, ← append_nil ts]
  exact h.append ⟨state, none⟩

end

/-! ## routines -/

/-- the names that the text of a routine mentions -/
def Routine.uses : Routine → List String
  | .hash2 | .hash3 => ["vg_hash_u32"]
  | .hash22 | .value2 | .grad2 => ["vg_hash2"]
  | .hash33 | .value3 => ["vg_hash3"]
  | .grad3 => ["vg_hash33"]
  | .perlin2 => ["vg_grad2"]
  | .perlin3 => ["vg_grad3"]
  | .smoothMax => ["vg_smooth_min"]
  | .cacheIndex => ["vg_size", "vg_encode2", "segment"]
  | _ => []

section
variable {known : String → Prop}

set_option maxRecDepth 2000 in
theorem declares_source (r : Routine) (all : ∀ w ∈ r.uses, known w) :
    Declares known r.name r.source := by
  cases r
  all_goals
    unfold Routine.source
    dsimp only
    -- the text is taken line by line
    repeat' with_reducible refine Declares.append ?_ ?_
    · exact declares_within _ all (by decide)
    all_goals exact closes_within _ all (by decide)

theorem declares_routine (r : Routine) (calls : ∀ d ∈ r.calls, known d.name)
    (helpers : known "vg_size" ∧ known "vg_encode2" ∧ known "segment") :
    Declares known r.name r.source := by
  refine declares_source r fun w member => ?_
  cases r with
  | cacheIndex =>
    simp only [Routine.uses, mem_cons, not_mem_nil, or_false] at member
    rcases member with rfl | rfl | rfl
    · exact helpers.1
    · exact helpers.2.1
    · exact helpers.2.2
  | hash2 | hash3 | hash22 | hash33 | value2 | value3 | grad2 | grad3 | perlin2
  | perlin3 | smoothMax =>
    obtain rfl := mem_singleton.1 member
    exact calls _ (.head _)
  | _ => cases member

/-! ## helpers -/

theorem text_encode3 : Index.encodeHelper 3 =
    "fn vg_encode3(c: vec3<u32>, n: u32) -> u32 \x7b\n\treturn c.x + c.y * n + c.z * n * n;\n\x7d\n" := by
  decide

theorem text_encode2 : Index.encodeHelper 2 =
    "fn vg_encode2(c: vec2<u32>, n: u32) -> u32 \x7b\n\treturn c.x + c.y * n;\n\x7d\n" := by
  decide

theorem text_decode3 : Index.decodeHelper 3 =
    "fn vg_decode3(i: u32, n: u32) -> vec3<u32> \x7b\n\treturn vec3<u32>(i % n, (i / (n)) % n, (i / (n * n)) % n);\n\x7d\n" := by
  decide

theorem text_decode2 : Index.decodeHelper 2 =
    "fn vg_decode2(i: u32, n: u32) -> vec2<u32> \x7b\n\treturn vec2<u32>(i % n, (i / (n)) % n);\n\x7d\n" := by
  decide

end

end Terrain.Kernel

namespace Terrain.Compile

open Kernel Reader List

namespace Module

/-- what every program declares before its buffers -/
def sharedNames : List String := ["Segment", "segment", "params"]

/-- the index and position helpers -/
def helperNames : List String :=
  ["vg_encode3", "vg_decode3", "vg_encode2", "vg_decode2", "vg_size", "vg_position3",
   "vg_position2", "vg_seed3"]

/-- what is declared before the functions of a program -/
def baseNames (m : Module) : List String :=
  sharedNames ++ m.buffers.map Buffer.symbol ++ helperNames ++ m.routines.map Routine.name

/-- the names of a program in the order in which they are declared -/
def names (m : Module) : List String :=
  m.baseNames ++ m.scopes.map Scope.name ++ m.entries.map fun x => x.1.name

end Module

/-! ## what every program declares -/

section
variable {earlier : List String}

theorem reading_segment : Reading [] Module.sharedNames Module.segmentDeclaration := by
  unfold Module.segmentDeclaration
  show Reading [] (["Segment", "segment"] ++ ["params"]) _
  refine Reading.append ?_ (declares_within [] nofun (by decide)).reading
  show Reading [] (["Segment"] ++ ["segment"]) _
  refine Reading.append ?_ (declares_within ["Segment"] (forall_mem_singleton.2 (.head _))
    (by decide)).reading
  exact Declares.reading
    ((declares_within [] nofun (by decide)).append (closes_within [] nofun (by decide)))

theorem reading_positions (segment : "segment" ∈ earlier) :
    Reading earlier ["vg_size", "vg_position3", "vg_position2",
      "vg_seed3"] Module.positionHelpers := by
  have used (names : List String) : ∀ w ∈ ["segment"], w ∈ earlier ++ names :=
    forall_mem_singleton.2 (mem_append_left _ segment)
  unfold Module.positionHelpers
  show Reading earlier (["vg_size", "vg_position3", "vg_position2"] ++ ["vg_seed3"]) _
  refine Reading.extend ?_ (closes_within _ (used _) (by decide))
  refine Reading.append ?_ (declares_within _ (used _) (by decide)).reading
  show Reading earlier (["vg_size", "vg_position3"] ++ ["vg_position2"]) _
  iterate 3 refine Reading.extend ?_ (closes_within _ (used _) (by decide))
  refine Reading.append ?_ (declares_within _ (used _) (by decide)).reading
  show Reading earlier (["vg_size"] ++ ["vg_position3"]) _
  refine Reading.extend ?_ (closes_within _ (used _) (by decide))
  refine Reading.append ?_ (declares_within _ (used _) (by decide)).reading
  exact (declares_within _ (append_nil earlier ▸ used []) (by decide)).reading

theorem reading_helpers (segment : "segment" ∈ earlier) : Reading earlier Module.helperNames
    (String.join ([Index.encodeHelper 3, Index.decodeHelper 3, Index.encodeHelper 2,
      Index.decodeHelper 2, Module.positionHelpers].map (· ++ "\n"))) := by
  have line {known : String → Prop} : Closes known "\n" := closes_literal _ (by decide)
  have silent {before : List String} : Reading before [] "\n" :=
    reading_silent ⟨by decide, by decide⟩
  rw [text_encode3, text_encode2, text_decode3, text_decode2]
  simp only [map_cons, map_nil, String.join_cons, String.join_nil, String.append_empty]
  show Reading earlier (["vg_encode3"] ++ (["vg_decode3"] ++ (["vg_encode2"] ++ (["vg_decode2"] ++
    (["vg_size", "vg_position3", "vg_position2", "vg_seed3"] ++ []))))) _
  refine .append ?_ (.append ?_ (.append ?_ (.append ?_ (.append ?_ silent))))
  · exact ((declares_within [] nofun (by decide)).append line).reading
  · exact ((declares_within [] nofun (by decide)).append line).reading
  · exact ((declares_within [] nofun (by decide)).append line).reading
  · exact ((declares_within [] nofun (by decide)).append line).reading
  · exact reading_positions (by simp [segment])

end

/-! ## buffers and comments -/

section
variable {known : String → Prop}

theorem ends_storageName (s : Shape) : Ends known s.storageName := by
  cases s with
  | bool => exact ends_literal (by decide)
  | _ => exact ends_typeName _

theorem declares_buffer {b : Buffer} (word : isName b.symbol.toList = true) :
    Declares known b.symbol (Module.bufferDeclaration b) := by
  have group : Runs .idle "@group(".toList .attribute [] := ⟨by decide, by decide⟩
  have binding := (group.attribute b.group).silent (t := .attribute) ") @binding("
    (by decide) (by decide)
  have opened := (binding.attribute b.binding).silent (t := .heading) ") var<storage, read_write> "
    (by decide) (by decide)
  have typed : Closes known (": array<" ++ b.shape.storageName ++ ">;\n") :=
    ((closes_literal ": array<" (by decide)).ends (ends_storageName _)).close _ (by decide)
  have whole := declares_name opened word (marked_append _ (marked_append _ (by decide))) typed
  unfold Module.bufferDeclaration
  simp only [String.append_assoc] at whole ⊢
  exact whole

theorem line_int (k : Int) : '\n' ∉ (toString k).toList := fun member => by
  rcases int_chars k _ member with digit | same
  · cases digit
  · cases same

theorem line_shape (s : Shape) : '\n' ∉ s.name.toList := by
  cases s with
  | undefined code =>
    show '\n' ∉ ("shape(" ++ toString code.val.toNat ++ ")").toList
    have digits : '\n' ∉ (toString code.val.toNat).toList :=
      fun member => by cases isDigit_of_mem member
    rw [String.toList_append, String.toList_append, mem_append, mem_append]
    rintro ((member | member) | member)
    · exact absurd member (by decide)
    · exact digits member
    · exact absurd member (by decide)
  | _ => decide

theorem runs_header {short : String} (line : '\n' ∉ short.toList) :
    Runs .idle ("// Generated by voxgraph. Structure " ++ short ++ ".\n").toList .idle [] := by
  have opened : Runs .idle "// Generated by voxgraph. Structure ".toList .comment [] :=
    ⟨by decide, by decide⟩
  exact (opened.comment line).silent _ (by decide) (by decide)

theorem runs_parameter {p : Parameter} (line : p.injected = true → '\n' ∉ p.name.toList) :
    Runs .idle (Module.parameterComment p).toList .idle [] := by
  unfold Module.parameterComment
  split
  case isTrue injected =>
    have opened : Runs .idle "// params[".toList .comment [] := ⟨by decide, by decide⟩
    have slot := (opened.comment (line_int p.slot)).silent (t := .comment) "]: "
      (by decide) (by decide)
    have named := (slot.comment (line injected)).silent (t := .comment) " (" (by decide) (by decide)
    exact (named.comment (line_shape p.shape)).silent _ (by decide) (by decide)
  case isFalse => exact .nil _

/-! ## functions -/

theorem ends_argument {a : Argument} (own : isLocal a.name.toList = true) : Ends known a.text := by
  have named : Ends known a.name := ends_word own
  unfold Argument.text
  split
  · have typed := (named.close ": ptr<function, " (by decide)).ends (ends_typeName a.shape)
    exact (typed.close ">" (by decide)).toEnds
  · exact (named.close ": " (by decide)).ends (ends_typeName a.shape)

theorem declares_scope {s : Scope} (word : isName s.name.toList = true)
    (args : ∀ a ∈ s.args, isLocal a.name.toList = true)
    (lines : ∀ l ∈ s.lines.toList, Closes known l.text) :
    Declares known s.name (Module.function s) := by
  have arguments : Ends known (", ".intercalate (s.args.map Argument.text)) :=
    ends_intercalate (forall_mem_map.2 fun a member => ends_argument (args a member))
  have head : Closes known (", ".intercalate (s.args.map Argument.text) ++ (")" ++ " \x7b\n")) :=
    arguments.closes (by decide) (closes_pair (by decide))
  have body : Closes known (String.join (s.lines.toList.map fun l => "\t" ++ l.text ++ "\n")) := by
    refine closes_join (forall_mem_map.2 fun l member => ?_)
    have tab : Closes known "\t" := closes_literal _ (by decide)
    exact (tab.append (lines l member)).append (closes_literal _ (by decide))
  have whole := ((declares_function word).append head).append
    (body.append (closes_literal "\x7d\n\n" (by decide)))
  unfold Module.function Scope.signature
  simp only [String.append_assoc] at whole ⊢
  exact whole

/-! ## entry points -/

/-- a line over locals, whose expressions mention what is known, and which calls a known function or
writes to a known buffer -/
def EntryLine.Mentions (known : String → Prop) : EntryLine → Prop
  | .bind v e => v.isClean = true ∧ Ends known e.text
  | .leave condition => Ends known condition.text
  | .declare v _ => v.isClean = true
  | .call function a results => isName function.toList = true ∧ known function ∧
    ∀ v ∈ a :: results, v.isClean = true
  | .store buffer index e => isName buffer.toList = true ∧ known buffer ∧ index.isClean = true ∧
    Ends known e.text

theorem closes_entryLine {l : EntryLine} (h : l.Mentions known) : Closes known l.text := by
  have tab : Closes known "\t" := closes_literal _ (by decide)
  cases l with
  | bind v e =>
    have named : Ends known ("\tlet " ++ v.text) :=
      (closes_literal _ (by decide)).ends (ends_var h.1)
    exact ((named.close " = " (by decide)).ends h.2).close _ (by decide)
  | leave condition => exact ((closes_literal "\tif (" (by decide)).ends h).close _ (by decide)
  | declare v s =>
    have named : Ends known ("\tvar " ++ v.text) :=
      (closes_literal _ (by decide)).ends (ends_var h)
    exact ((named.close ": " (by decide)).ends (ends_typeName s)).close _ (by decide)
  | call function a results =>
    obtain ⟨word, called, clean⟩ := h
    obtain ⟨first, rest⟩ := forall_mem_cons.1 clean
    have arguments : Ends known
        (", ".intercalate (a.text :: results.map fun v => "&" ++ v.text)) := by
      refine ends_intercalate
        (forall_mem_cons.2 ⟨ends_var first, forall_mem_map.2 fun v member => ?_⟩)
      exact (closes_literal "&" (by decide)).ends (ends_var (rest v member))
    have opened := (tab.append (closes_known (.inl rfl) word called)).ends arguments
    rw [← String.append_assoc] at opened
    exact opened.close _ (by decide)
  | store buffer index e =>
    obtain ⟨word, written, clean, value⟩ := h
    have opened := tab.append (closes_known (.inr rfl) word written)
    rw [← String.append_assoc] at opened
    have placed := (opened.ends (ends_var clean)).close "] = " (by decide)
    exact (placed.ends value).close _ (by decide)

theorem declares_entryHead (workgroup : Int) {name : String} (named : isName name.toList = true) :
    Declares known name (entryHead workgroup name) := by
  have size : Runs .idle "@compute @workgroup_size(".toList .attribute [] :=
    ⟨by decide, by decide⟩
  have opened := (size.attribute workgroup).silent (t := .heading) (")\n" ++ "fn ")
    (by decide) (by decide)
  have given : Closes known ("(@builtin(global_invocation_id) gid: vec3<u32>, " ++
      "@builtin(num_workgroups) groups: vec3<u32>) \x7b\n") :=
    Closes.append (closes_literal _ (by decide)) (closes_literal _ (by decide))
  have whole := declares_name opened named (marked_append _ (by decide)) given
  unfold entryHead
  simp only [String.append_assoc] at whole ⊢
  exact whole

section
variable (helps : ∀ h : Helper, known h.name) (provides : Provides known [])
include helps

theorem ends_help (h : Helper) {a : String} (inner : Ends known a) :
    Ends known (h.name ++ "(" ++ a ++ ")") := by
  have opened : Closes known (h.name ++ "(") :=
    closes_known (.inl rfl) (by cases h <;> decide) (helps h)
  exact ((opened.ends inner).close ")" (by decide)).toEnds

include provides

theorem mentions_cellLines (workgroup : Int) (d : Entry) :
    ∀ l ∈ cellLines workgroup d, l.Mentions known := by
  have count (k : Int) : Ends known s!"{k}u" := ends_int k (by decide)
  have column : Ends known (Expr.lanes (.named "gid") "x").text :=
    ends_of_isClean provides (by decide)
  have row : Ends known
      (Expr.mul (.lanes (.named "gid") "y") (.lanes (.named "groups") "x")).text :=
    ends_of_isClean provides (by decide)
  have position (p h : Helper) : Ends known (EntryExpr.help2 p (.help2 h (.plain (.named "index"))
      (.plain (.named "n"))) (.plain (.literal s!"{d.reduction}u"))).text := by
    have cell := ends_help helps h (a := "index" ++ ", " ++ "n") (ends_literal (by decide))
    have whole := ends_help helps p ((cell.close ", " (by decide)).ends (count d.reduction))
    simp only [EntryExpr.text, Expr.named, Expr.var, Expr.text, Symbol.text, Var.text,
      String.append_assoc] at whole ⊢
    exact whole
  refine forall_mem_cons.2 ⟨⟨by decide, ?_⟩, forall_mem_cons.2 ⟨⟨by decide, ?_⟩,
    forall_mem_cons.2 ⟨?_, forall_mem_singleton.2 ⟨rfl, ?_⟩⟩⟩⟩
  · exact (column.operator (.arith .add)).ends ((row.operator (.arith .mul)).ends (count workgroup))
  · exact ends_help helps .size (count d.reduction)
  · refine ends_of_isClean provides (Bool.and_eq_true_iff.2 ⟨by decide, ?_⟩)
    split <;> decide
  · split <;> exact position _ _

theorem declares_entry (workgroup : Int) {d : Entry} {function : String}
    (named : isName d.name.toList = true) (word : isName function.toList = true)
    (called : known function)
    (outputs : ∀ o ∈ d.outputs, isName o.buffer.toList = true ∧ known o.buffer) :
    Declares known d.name (Module.entryPoint workgroup d function) := by
  have clean (i : Nat) : (outputVar i).isClean = true :=
    isLocal_stem (l := ['o']) (by decide) (digits_rest i)
  have stored (i : Nat) (s : Shape) : Ends known (storedExpr i s).text := by
    refine ends_of_isClean provides ?_
    unfold storedExpr
    split
    · exact Bool.and_eq_true_iff.2 ⟨by decide, clean i⟩
    · exact clean i
  have lines : ∀ l ∈ entryLines workgroup d function, l.Mentions known := by
    unfold entryLines
    simp only [forall_mem_append, forall_mem_singleton]
    refine ⟨⟨⟨mentions_cellLines helps provides workgroup d, fun l member => ?_⟩, word, called,
      forall_mem_cons.2 ⟨rfl, fun v member => ?_⟩⟩, fun l member => ?_⟩
    all_goals obtain ⟨i, inside, rfl⟩ := mem_mapIdx.1 member
    · exact clean i
    · exact clean i
    · obtain ⟨word, written⟩ := outputs _ (getElem_mem inside)
      exact ⟨word, written, by decide, stored i _⟩
  rw [entryPoint_text, String.append_assoc]
  refine (declares_entryHead workgroup named).append
    (Closes.append ?_ (closes_literal _ (by decide)))
  exact closes_join (forall_mem_map.2 fun l member => closes_entryLine (lines l member))

end

end

/-! ## programs -/

structure Module.Orderly (m : Module) : Prop where
  short : '\n' ∉ m.short.toList
  parameters : ∀ p ∈ m.parameters, p.injected = true → '\n' ∉ p.name.toList
  buffers : ∀ b ∈ m.buffers, isName b.symbol.toList = true
  routines : kernelLibrary.Ordered m.routines
  scopes : ∀ before s after, m.scopes = before ++ s :: after → isName s.name.toList = true ∧
    (∀ a ∈ s.args, isLocal a.name.toList = true) ∧
      ∀ l ∈ s.lines.toList, Closes (· ∈ m.baseNames ++ before.map Scope.name) l.text
  entries : ∀ x ∈ m.entries, isName x.1.name.toList = true ∧ x.2 ∈ m.scopes.map Scope.name ∧
    ∀ o ∈ x.1.outputs, o.buffer ∈ m.buffers.map Buffer.symbol

section
variable {m : Module}

theorem Module.Orderly.reading_preamble (h : m.Orderly) :
    Reading [] (Module.sharedNames ++ m.buffers.map Buffer.symbol ++ Module.helperNames)
      m.preamble := by
  have line {earlier : List String} : Reading earlier [] "\n" :=
    reading_silent ⟨by decide, by decide⟩
  have comments : Reading [] [] (String.join (m.parameters.map Module.parameterComment)) :=
    reading_silent (runs_join (forall_mem_map.2 fun p member =>
      runs_parameter (h.parameters p member)))
  have header : Reading [] [] s!"// Generated by voxgraph. Structure {m.short}.\n" :=
    reading_silent (runs_header h.short)
  have shared := (((header.append comments).append line).append reading_segment).append line
  have buffers : Reading Module.sharedNames (m.buffers.map Buffer.symbol)
      (String.join (m.buffers.map Module.bufferDeclaration)) :=
    reading_join m.buffers fun before b after split =>
      declares_buffer (h.buffers b (split ▸ mem_append_cons_self))
  have declared := (shared.append buffers).append line
  have segment : "segment" ∈ Module.sharedNames ++ m.buffers.map Buffer.symbol ++ [] := by
    simp [Module.sharedNames]
  rw [append_nil] at declared segment
  exact declared.append (reading_helpers segment)

theorem Module.Orderly.reading (h : m.Orderly) : Reading [] m.names m.text := by
  have helper {name : String} (member : name ∈ Module.helperNames) (more : List String) :
      name ∈ m.baseNames ++ more := by
    simp [Module.baseNames, member]
  have routines : Reading (Module.sharedNames ++ m.buffers.map Buffer.symbol ++ Module.helperNames)
      (m.routines.map Routine.name) (String.join (m.routines.map fun r => r.source ++ "\n")) := by
    refine reading_join m.routines fun before r after split => ?_
    refine (declares_routine r (fun d member => ?_) ?_).append (closes_literal _ (by decide))
    · exact mem_append_right _ (mem_map_of_mem (h.routines.callees before r after split d member))
    · simp [Module.sharedNames, Module.helperNames]
  have scopes : Reading m.baseNames (m.scopes.map Scope.name)
      (String.join (m.scopes.map Module.function)) := by
    refine reading_join m.scopes fun before s after split => ?_
    obtain ⟨word, args, lines⟩ := h.scopes before s after split
    exact declares_scope word args lines
  have entries : Reading (m.baseNames ++ m.scopes.map Scope.name) (m.entries.map fun x => x.1.name)
      (String.join (m.entries.map fun x => Module.entryPoint m.workgroup x.1 x.2)) := by
    refine reading_join m.entries fun before x after split => ?_
    obtain ⟨word, called, outputs⟩ := h.entries x (split ▸ mem_append_cons_self)
    obtain ⟨s, member, same⟩ := mem_map.1 called
    obtain ⟨first, last, scopes⟩ := append_of_mem member
    have function : isName x.2.toList = true := same ▸ (h.scopes first s last scopes).1
    rw [append_assoc]
    refine declares_entry (fun h => helper (by cases h <;> decide) _)
      ⟨by simp [Module.baseNames, Module.sharedNames], helper (by decide) _, nofun⟩ m.workgroup word
      function ?_ fun o there => ?_
    · simp [called]
    · obtain ⟨b, listed, symbol⟩ := mem_map.1 (outputs o there)
      refine ⟨symbol ▸ h.buffers b listed, ?_⟩
      simp [Module.baseNames, outputs o there]
  have whole := ((h.reading_preamble.append routines).append scopes).append entries
  exact whole

end

end Terrain.Compile
