import Terrain.Proofs.View

/-!
# Programs that differ in values only

A program is made from the view of a context with nodes renumbered and from the layout of the
parameters: neither the numbers of nodes nor the values of parameters reach its text.

* `Program.SameStructure`       everything but the values of parameters is the same;
* `sameStructure_of_view`       contexts of one view and one layout make such programs.
-/

namespace Terrain

open List

/-- what a program says of a parameter apart from its value -/
structure Slot where
  slot : Int
  name : String
  shape : Shape
  injected : Bool
deriving DecidableEq

def Parameter.layout (p : Parameter) : Slot := ⟨p.slot, p.name, p.shape, p.injected⟩

structure Program.SameStructure (p q : Program) : Prop where
  source : p.source = q.source
  digest : p.digest = q.digest
  workgroup : p.workgroup = q.workgroup
  dispatches : p.dispatches = q.dispatches
  buffers : p.buffers = q.buffers
  parameters : p.parameters.map Parameter.layout = q.parameters.map Parameter.layout

namespace Kernel

/-- reads of slots print as before -/
def SlotMap.KeepsText (r : SlotMap) : Prop :=
  ∀ slot shape, ((Symbol.param slot shape).relabel r).text = (Symbol.param slot shape).text

theorem keepsText_id : SlotMap.KeepsText id := fun _ _ => rfl

section
variable {r : SlotMap} (keeps : r.KeepsText)
include keeps

theorem Symbol.text_relabel (s : Symbol) : (s.relabel r).text = s.text := by
  cases s with
  | var v => rfl
  | param slot shape => exact keeps slot shape

theorem Expr.text_relabel (e : Expr) : (e.relabel r).text = e.text := by
  unfold Expr.relabel
  induction e with
  | sym s => exact s.text_relabel keeps
  | literal t => rfl
  | call0 f => rfl
  | neg e ih | not e ih | group e ih | call1 f e ih | lanes e mask ih | sample buffer e ih =>
    simp only [subst, text, ih]
  | op o a b iha ihb | call2 f a b iha ihb => simp only [subst, text, iha, ihb]
  | call3 f a b c iha ihb ihc => simp only [subst, text, iha, ihb, ihc]

theorem Line.text_relabel (l : Line) : (l.relabel r).text = l.text := by
  cases l with
  | call function args result =>
    have texts : (args.map (Symbol.relabel r)).map Symbol.text = args.map Symbol.text := by
      rw [map_map]
      apply map_congr_left
      intro s _
      exact s.text_relabel keeps
    show function ++ "(" ++ ", ".intercalate ((args.map (Symbol.relabel r)).map Symbol.text ++
      ["&" ++ result.text]) ++ ");" = _
    rw [texts]
    rfl
  | bind v s e =>
    exact congrArg (fun t => "let " ++ v.text ++ ": " ++ s.typeName ++ " = " ++ t ++ ";")
      (e.text_relabel keeps)
  | letVar v e => exact congrArg ("let " ++ v.text ++ " = " ++ · ++ ";") (e.text_relabel keeps)
  | start v e => exact congrArg ("var " ++ v.text ++ " = " ++ · ++ ";") (e.text_relabel keeps)
  | assign v e => exact congrArg (v.text ++ " = " ++ · ++ ";") (e.text_relabel keeps)
  | store output e => exact congrArg ("*" ++ output ++ " = " ++ · ++ ";") (e.text_relabel keeps)
  | test e => exact congrArg ("if (" ++ · ++ ") \x7b") (e.text_relabel keeps)
  | otherwise e => exact congrArg ("\x7d else if (" ++ · ++ ") \x7b") (e.text_relabel keeps)
  | _ => rfl

theorem Indented.text_relabel (l : Indented) : (l.relabel r).text = l.text := by
  unfold text
  rw [← l.line.text_relabel keeps]
  rfl

end

end Kernel

namespace Compile

open Kernel

theorem parameterComments_layout {ps qs : List Parameter}
    (h : ps.map Parameter.layout = qs.map Parameter.layout) :
    ps.map Module.parameterComment = qs.map Module.parameterComment := by
  let comment (s : Slot) : String :=
    Module.parameterComment ⟨s.slot, s.name, s.shape, default, s.injected⟩
  have through (p : Parameter) : Module.parameterComment p = comment p.layout := rfl
  rw [map_congr_left fun p _ => through p, map_congr_left fun p _ => through p,
    ← Function.comp_def comment, ← map_map, ← map_map, h]

theorem Module.text_congr {m m' : Module} (short : m.short = m'.short)
    (comments : m.parameters.map parameterComment = m'.parameters.map parameterComment)
    (buffers : m.buffers = m'.buffers) (routines : m.routines = m'.routines)
    (functions : m.scopes.map function = m'.scopes.map function) (entries : m.entries = m'.entries)
    (workgroup : m.workgroup = m'.workgroup) : m.text = m'.text := by
  unfold text preamble
  rw [short, comments, buffers, routines, functions, entries, workgroup]

section
variable {f f' : NodeId → NodeId} {r : SlotMap} {c d : Context}

theorem function_view (keeps : r.KeepsText) (s : Scope) :
    Module.function (s.view f r) = Module.function s := by
  have lines : (s.view f r).lines.toList.map (fun l => "\t" ++ l.text ++ "\n") =
      s.lines.toList.map fun l => "\t" ++ l.text ++ "\n" := by
    show (s.lines.map (Indented.relabel r)).toList.map _ = _
    rw [Array.toList_map, map_map]
    apply map_congr_left
    intro l _
    show "\t" ++ (l.relabel r).text ++ "\n" = _
    rw [l.text_relabel keeps]
  unfold Module.function
  rw [lines]
  rfl

theorem workgroupSize_view : (c.view f r).options.workgroupSize = c.options.workgroupSize := by
  show Options.workgroupSize ⟨[], none, c.options.workgroupSize⟩ = _
  unfold Options.workgroupSize Options.defaultWorkgroup
  grind

theorem functions_view (keeps : r.KeepsText) :
    ((c.view f r).writtenScopes.map (c.view f r).scope).map Module.function =
      (c.writtenScopes.map c.scope).map Module.function := by
  rw [map_map, map_map]
  apply map_congr_left
  intro i _
  show Module.function ((c.view f r).scope i) = Module.function (c.scope i)
  rw [view_scope, function_view keeps]

theorem entries_view :
    ((c.view f r).dispatches.map (c.view f r).entry).map
        (fun d => (d, ((c.view f r).scope d.scope).name)) =
      (c.dispatches.map c.entry).map fun d => (d, (c.scope d.scope).name) := by
  apply map_congr_left
  intro d _
  rw [view_scope]
  rfl

variable (view : c.view f r = d.view f' r)
include view

/-- what a program says whatever its slots are -/
theorem workgroup_of_view : c.toProgram.workgroup = d.toProgram.workgroup := by
  have same := congrArg (fun c : Context => c.options.workgroupSize) view
  rwa [workgroupSize_view, workgroupSize_view] at same

theorem dispatches_of_view : c.toProgram.dispatches = d.toProgram.dispatches := by
  have same := congrArg (fun c : Context => c.dispatches.map fun id => (c.entry id).record) view
  exact same

theorem buffers_of_view : c.toProgram.buffers = d.toProgram.buffers := by
  have same := congrArg Context.buffers view
  exact same

section
variable (keeps : r.KeepsText)
  (layout : c.parameters.map Parameter.layout = d.parameters.map Parameter.layout)
include keeps layout

theorem source_of_view :
    c.toProgram.source = d.toProgram.source := by
  refine Module.text_congr ?_ (parameterComments_layout layout) (buffers_of_view view) ?_ ?_ ?_
    (workgroup_of_view view)
  · have same := congrArg (fun c : Context => c.stream.digest.short) view
    exact same
  · have same := congrArg (fun c : Context => Routine.writingOrder c.routines) view
    exact same
  · have same := congrArg
      (fun c : Context => (c.writtenScopes.map c.scope).map Module.function) view
    exact (functions_view keeps).symm.trans (same.trans (functions_view keeps))
  · have same := congrArg (fun c : Context =>
      (c.dispatches.map c.entry).map fun d => (d, (c.scope d.scope).name)) view
    exact entries_view.symm.trans (same.trans entries_view)

theorem sameStructure_of_view :
    c.toProgram.SameStructure d.toProgram where
  source := source_of_view view keeps layout
  digest := by
    have same := congrArg (fun c : Context => c.stream.digest) view
    exact same
  workgroup := workgroup_of_view view
  dispatches := dispatches_of_view view
  buffers := buffers_of_view view
  parameters := layout

end

end

end Compile
end Terrain
