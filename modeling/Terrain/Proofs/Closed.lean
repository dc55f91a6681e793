import Terrain.Proofs.Coverage
import Terrain.Proofs.HexText
import Terrain.Proofs.WellTyped

/-!
# Programs are closed

The text of a program declares its names one after the other.  No two of them are the same, and what
a declaration mentions was declared before it.  Names of outputs are chosen outside, so that they
may be anything that is an identifier; all other names are fixed or take a new number, and their
stems keep them apart.

* `parsed_orderly`    functions and entry points mention what was declared before;
* `nodup_names`       no name is declared twice;
* `reserved_names`    and none is a name of the language;
* `compile_closed`    the declarations of a program.
-/

namespace Terrain.Compile

open Kernel Reader List

variable {d : DispatchId} {i : ScopeId} {x : String}

/-! ## lines of comments -/

theorem line_identifier {name : String} (h : isIdentifier name = true) : '\n' ∉ name.toList :=
  fun member => by
  have rest := all_eq_true.1 (isIdentifier_rest h) _ member
  exact absurd rest (by decide)

theorem line_short (d : Hash.Digest) : '\n' ∉ d.short.toList := by
  have digits : ∀ n < 16, '\n' ≠ Text.hexDigit n := by decide
  unfold Hash.Digest.short
  rw [String.toList_ofList]
  intro member
  obtain ⟨b, -, digit⟩ := mem_flatMap.1 (mem_of_mem_take member)
  rcases mem_pair.1 digit with same | same
  · exact digits _ (Text.Hex.high_lt b) same
  · exact digits _ (Text.Hex.low_lt b) same

/-! ## order -/

section
variable {g : Graph} {c : Context} {roots : List Root} {o : Options}

theorem Buffered.exists_output (h : Buffered c) {b : Buffer} (member : b ∈ c.buffers) :
    ∃ d < c.entries.size, outputOf b ∈ (c.entry d).outputs := by
  obtain ⟨d, inside, owned, -⟩ := h.owner b member
  refine ⟨d, inside, h.outputs d inside ▸ mem_map_of_mem (mem_filter.2 ⟨member, ?_⟩)⟩
  exact beq_iff_eq.2 owned

theorem Buffered.symbol_mem (h : Buffered c) (inside : d < c.entries.size) {out : Output}
    (member : out ∈ (c.entry d).outputs) : out.buffer ∈ c.buffers.map Buffer.symbol := by
  rw [← h.outputs d inside] at member
  obtain ⟨b, there, rfl⟩ := mem_map.1 member
  exact mem_map_of_mem (mem_filter.1 there).1

theorem knows_mem (h : g.parsed roots o = .ok c) (k : Kept c) (buffered : Buffered c)
    {first last : List ScopeId} (split : c.writtenScopes = first ++ i :: last)
    (known : c.Knows (c.scope i).hasPosition x) :
    x ∈ c.module.baseNames ++ (first.map c.scope).map Scope.name := by
  generalize placed : (c.scope i).hasPosition = position at known
  cases known with
  | params => simp [Module.baseNames, Module.sharedNames]
  | seed => simp [Module.baseNames, Module.helperNames]
  | routine member =>
    have written : _ ∈ c.module.routines := Routine.mem_writingOrder member
    simp only [Module.baseNames, mem_append]
    exact .inl (.inr (mem_map_of_mem written))
  | buffer inside member =>
    have declared : _ ∈ c.module.buffers.map Buffer.symbol := buffered.symbol_mem inside member
    simp only [Module.baseNames, mem_append]
    exact .inl (.inl (.inl (.inr declared)))
  | @nested p member =>
    obtain ⟨there, unplaced, -⟩ := k.nested p member
    have inside : i < c.scopes.size :=
      mem_range.1 ((parsed_scopes h).mem_iff.1 (split ▸ mem_append_cons_self))
    have above := k.placed i inside placed
    have below := k.deep p.2 there unplaced
    -- the nested function is deeper, so it cannot come later
    have written : p.2 ∈ first ++ i :: last :=
      split ▸ (parsed_scopes h).mem_iff.2 (mem_range.2 there)
    have later := pairwise_cons.1 (pairwise_append.1 (split ▸ written_falls h)).2.1
    rcases mem_append.1 written with earlier | rest
    · exact mem_append_right _ (mem_map_of_mem (mem_map_of_mem earlier))
    · rcases mem_cons.1 rest with same | after
      · rw [same, placed] at unplaced
        cases unplaced
      · have := later.1 p.2 after
        omega

theorem entryName_cases (k : Kept c) (inside : d < c.entries.size) :
    (c.entry d).name = mainDispatch ∨ ∃ m : Nat, (c.entry d).name = "cache_" ++ toString m := by
  rcases Nat.eq_zero_or_pos d with rfl | positive
  · exact .inl k.main.2
  · obtain ⟨m, -, named⟩ := k.cacheNames d inside positive
    exact .inr ⟨m, named⟩

theorem parsed_orderly (built : g.Built) (h : g.parsed roots o = .ok c) : c.module.Orderly := by
  have covered := parsed_covered built.wellFormed h
  have buffered := (parsed_registered built.wellFormed h).buffered
  obtain ⟨done, l, k, -, perm⟩ := linked_of_parsed built.wellFormed h
  refine ⟨line_short _, ?_, ?_, Routine.writingOrder_ordered _, ?_, ?_⟩
  · exact fun p member injected => line_identifier (covered.parameters p member injected)
  · intro b member
    obtain ⟨d, inside, written⟩ := buffered.exists_output member
    exact covered.outputs d inside (outputOf b) written
  · intro before s after split
    obtain ⟨first, rest, ids, rfl, tail⟩ := map_eq_append_iff.1 split
    obtain ⟨i, last, rfl, rfl, -⟩ := map_eq_cons_iff.1 tail
    have inside : i < c.scopes.size :=
      mem_range.1 ((parsed_scopes h).mem_iff.1 (ids ▸ mem_append_cons_self))
    have own := covered.scope i inside
    exact ⟨own.word, own.args, fun line member => (own.lines line member).mono fun _ known =>
      knows_mem h k buffered ids known⟩
  · intro x member
    obtain ⟨e, listed, rfl⟩ := mem_map.1 member
    obtain ⟨d, dispatched, rfl⟩ := mem_map.1 listed
    have inside : d < c.entries.size := mem_range.1 (perm.mem_iff.1 dispatched)
    refine ⟨?_, ?_, fun out written => buffered.symbol_mem inside written⟩
    · dsimp only
      rcases entryName_cases k inside with main | ⟨m, numbered⟩
      · rw [main]
        decide
      · rw [numbered]
        exact isName_stem (l := ['c', 'a', 'c', 'h', 'e', '_']) (by decide) (digits_rest m)
    · refine mem_map_of_mem (mem_map_of_mem ?_)
      exact (parsed_scopes h).mem_iff.2 (mem_range.2 (k.entryScope d inside).1)

/-! ## stems -/

theorem buffer_stem (built : g.Built) (h : g.parsed roots o = .ok c)
    (inside : d < c.entries.size) {out : Output} (member : out ∈ (c.entry d).outputs) :
    ['b', 'u', 'f', '_'] <+: out.buffer.toList := by
  obtain ⟨main, cache⟩ := parsed_computes built h
  obtain ⟨target, named⟩ : ∃ target, out.buffer = "buf_" ++ target := by
    rcases Nat.eq_zero_or_pos d with rfl | positive
    · rw [main.outputs] at member
      obtain ⟨x, -, rfl⟩ := mem_map.1 member
      exact ⟨_, rfl⟩
    · obtain ⟨n, w, -, -, -, -, computes⟩ := cache d inside positive
      rw [computes.outputs] at member
      obtain ⟨x, -, rfl⟩ := mem_map.1 member
      exact ⟨_, rfl⟩
  rw [named, String.toList_append]
  exact prefix_append _ _

/-- a stem and digits behind it -/
def isNumbered (stem x : List Char) : Bool :=
  stem.isPrefixOf x && (x.drop stem.length).all Char.isDigit

theorem isNumbered_append (stem : List Char) (k : Nat) :
    isNumbered stem (stem ++ (toString k).toList) = true := by
  have digits : (toString k).toList.all Char.isDigit = true :=
    all_eq_true.2 fun _ member => isDigit_of_mem member
  rw [isNumbered, drop_left, digits, Bool.and_true, isPrefixOf_iff_prefix]
  exact prefix_append _ _

def fixedNames : List String := Module.helperNames ++ Routine.all.map Routine.name

theorem name_mem_fixed (r : Routine) : r.name ∈ fixedNames :=
  mem_append_right _ (mem_map_of_mem r.mem_all)

section
variable (h : g.parsed roots o = .ok c) (covered : Covered c) (inside : i < c.scopes.size)
include h covered inside

theorem function_not_fixed : (c.scope i).name ∉ fixedNames := by
  have numbered : ∀ stem ∈ functionStems, ∀ x ∈ fixedNames,
      isNumbered (stem ++ "_").toList x.toList = false := by decide
  by_cases root : i = rootId
  · rw [root, (parsed_named h).root.2]
    decide
  · obtain ⟨stem, member, k, named⟩ := (covered.scope i inside).title root
    intro fixed
    have none := numbered stem member _ fixed
    rw [named, @String.toList_append (stem ++ "_"), isNumbered_append] at none
    cases none

theorem function_stem : ['v', 'g', '_'] <+: (c.scope i).name.toList := by
  have stems : ∀ stem ∈ functionStems, ['v', 'g', '_'] <+: stem.toList := by decide
  by_cases root : i = rootId
  · rw [root, (parsed_named h).root.2, String.toList_append]
    exact prefix_append _ _
  · obtain ⟨stem, member, k, named⟩ := (covered.scope i inside).title root
    rw [named, String.toList_append, String.toList_append, append_assoc]
    exact (stems stem member).trans (prefix_append _ _)

end

/-! ## distinct names -/

/-- the characters that tell kinds of names apart -/
def opening (x : String) : List Char := x.toList.take 2

theorem opening_of_stem {stem : List Char} (long : 2 ≤ stem.length) (h : stem <+: x.toList) :
    opening x = stem.take 2 := by
  obtain ⟨rest, whole⟩ := h
  rw [opening, ← whole, take_append_of_le_length long]

theorem disjoint_of_opening {l m : List String} {a b : List (List Char)}
    (first : ∀ x ∈ l, opening x ∈ a) (second : ∀ x ∈ m, opening x ∈ b) (apart : ∀ k ∈ a, k ∉ b) :
    l.Disjoint m :=
  fun x member member' =>
  apart _ (first x member) (second x member')

theorem symbol_stem (built : g.Built) (h : g.parsed roots o = .ok c)
    (member : x ∈ c.module.buffers.map Buffer.symbol) : ['b', 'u', 'f', '_'] <+: x.toList := by
  obtain ⟨b, there, rfl⟩ := mem_map.1 member
  obtain ⟨d, inside, written⟩ := (parsed_registered built.wellFormed h).buffered.exists_output there
  exact buffer_stem built h inside written

theorem fixed_stem : ∀ x ∈ fixedNames, ['v', 'g', '_'] <+: x.toList := by decide

def internalNames (m : Module) : List String :=
  Module.helperNames ++ m.routines.map Routine.name ++ m.scopes.map Scope.name

theorem names_eq (m : Module) : m.names =
    Module.sharedNames ++ m.buffers.map Buffer.symbol ++ internalNames m ++
      m.entries.map fun x => x.1.name := by
  simp only [Module.names, Module.baseNames, internalNames, append_assoc]

section
variable (h : g.parsed roots o = .ok c)
include h

theorem scope_of_written
    (member : x ∈ c.module.scopes.map Scope.name) : ∃ i < c.scopes.size, (c.scope i).name = x := by
  obtain ⟨s, listed, rfl⟩ := mem_map.1 member
  obtain ⟨i, written, rfl⟩ := mem_map.1 listed
  exact ⟨i, mem_range.1 ((parsed_scopes h).mem_iff.1 written), rfl⟩

theorem internal_cases (member : x ∈ internalNames c.module) :
    x ∈ fixedNames ∨ ∃ i < c.scopes.size, (c.scope i).name = x := by
  rcases mem_append.1 member with fixed | function
  · rcases mem_append.1 fixed with helper | routine
    · exact .inl (mem_append_left _ helper)
    · obtain ⟨r, -, rfl⟩ := mem_map.1 routine
      exact .inl (name_mem_fixed r)
  · exact .inr (scope_of_written h function)

theorem internal_stem (covered : Covered c)
    (member : x ∈ internalNames c.module) : ['v', 'g', '_'] <+: x.toList := by
  rcases internal_cases h member with fixed | ⟨i, inside, rfl⟩
  · exact fixed_stem x fixed
  · exact function_stem h covered inside

end

theorem nodup_fixed : fixedNames.Nodup := by decide

theorem name_injective {r r' : Routine} (same : r.name = r'.name) : r = r' := by
  have nodup := (nodup_append.1 nodup_fixed).2.1
  exact inj_on_of_nodup_map nodup r.mem_all r'.mem_all same

theorem nodup_internal (h : g.parsed roots o = .ok c) (covered : Covered c) :
    (internalNames c.module).Nodup := by
  have routines : (c.module.routines.map Routine.name).Nodup :=
    (Routine.writingOrder_ordered _).nodup.map fun _ _ => name_injective
  have helpers : Module.helperNames.Disjoint (c.module.routines.map Routine.name) := by
    intro x helper routine
    obtain ⟨r, -, rfl⟩ := mem_map.1 routine
    have apart := disjoint_of_nodup_append nodup_fixed
    exact apart helper (mem_map_of_mem r.mem_all)
  refine .append (.append (nodup_append.1 nodup_fixed).1 routines helpers) (nodup_functions h) ?_
  intro x fixed function
  obtain ⟨i, inside, rfl⟩ := scope_of_written h function
  refine function_not_fixed h covered inside ?_
  rcases mem_append.1 fixed with helper | routine
  · exact mem_append_left _ helper
  · obtain ⟨r, -, same⟩ := mem_map.1 routine
    exact same ▸ name_mem_fixed r

theorem entry_of_written (perm : c.dispatches.Perm (List.range c.entries.size))
    (member : x ∈ c.module.entries.map fun x => x.1.name) :
    ∃ d < c.entries.size, (c.entry d).name = x := by
  obtain ⟨y, listed, rfl⟩ := mem_map.1 member
  obtain ⟨e, entry, rfl⟩ := mem_map.1 listed
  obtain ⟨d, dispatched, rfl⟩ := mem_map.1 entry
  exact ⟨d, mem_range.1 (perm.mem_iff.1 dispatched), rfl⟩

theorem opening_entry (k : Kept c) (inside : d < c.entries.size) :
    opening (c.entry d).name ∈ [['v', 'o'], ['c', 'a']] := by
  rcases entryName_cases k inside with main | ⟨m, numbered⟩
  · rw [main]
    decide
  · have stem : ['c', 'a', 'c', 'h', 'e', '_'] <+: (c.entry d).name.toList := by
      rw [numbered, String.toList_append]
      exact prefix_append _ _
    rw [opening_of_stem (by decide) stem]
    decide

theorem nodup_entries (k : Kept c) (perm : c.dispatches.Perm (List.range c.entries.size)) :
    (c.module.entries.map fun x => x.1.name).Nodup := by
  show (((c.dispatches.map c.entry).map fun d => (d, (c.scope d.scope).name)).map fun x =>
    x.1.name).Nodup
  rw [map_map, map_map]
  refine Nodup.map_on (fun d member e member' same => ?_) (perm.nodup_iff.2 nodup_range)
  exact k.distinct d (mem_range.1 (perm.mem_iff.1 member)) e
    (mem_range.1 (perm.mem_iff.1 member')) same

theorem nodup_names (built : g.Built) (h : g.parsed roots o = .ok c) : c.module.names.Nodup := by
  have covered := parsed_covered built.wellFormed h
  have buffered := (parsed_registered built.wellFormed h).buffered
  obtain ⟨done, l, k, -, perm⟩ := linked_of_parsed built.wellFormed h
  have shared : ∀ x ∈ Module.sharedNames, opening x ∈ [['S', 'e'], ['s', 'e'],
      ['p', 'a']] := by decide
  have symbols : ∀ x ∈ c.module.buffers.map Buffer.symbol, opening x ∈ [['b', 'u']] :=
    fun x member =>
    mem_singleton.2 (opening_of_stem (by decide) (symbol_stem built h member))
  have internal : ∀ x ∈ internalNames c.module, opening x ∈ [['v', 'g']] := fun x member =>
    mem_singleton.2 (opening_of_stem (by decide) (internal_stem h covered member))
  have entries : ∀ x ∈ c.module.entries.map fun x => x.1.name,
      opening x ∈ [['v', 'o'], ['c', 'a']] := by
    intro x member
    obtain ⟨d, inside, rfl⟩ := entry_of_written perm member
    exact opening_entry k inside
  have data : ∀ x ∈ Module.sharedNames ++ c.module.buffers.map Buffer.symbol,
      opening x ∈ [['S', 'e'], ['s', 'e'], ['p', 'a']] ++ [['b', 'u']] :=
    forall_mem_append.2 ⟨fun x member => mem_append_left _ (shared x member),
      fun x member => mem_append_right _ (symbols x member)⟩
  have inner : ∀ x ∈ Module.sharedNames ++ c.module.buffers.map Buffer.symbol ++
      internalNames c.module,
      opening x ∈ [['S', 'e'], ['s', 'e'], ['p', 'a']] ++ [['b', 'u']] ++ [['v', 'g']] :=
    forall_mem_append.2 ⟨fun x member => mem_append_left _ (data x member),
      fun x member => mem_append_right _ (internal x member)⟩
  rw [names_eq]
  refine .append (.append (.append ?_ ?_ ?_) (nodup_internal h covered) ?_)
    (nodup_entries k perm) ?_
  · decide
  · exact nodup_symbols k l buffered fun d inside => nodup_buffers built h inside
  · exact disjoint_of_opening shared symbols (by decide)
  · exact disjoint_of_opening data internal (by decide)
  · exact disjoint_of_opening inner entries (by decide)

/-! ## reserved names -/

theorem isReserved_of_stem {stem x : List Char} (member : stem ∈ reservedStems) (h : stem <+: x) :
    isReserved x = true := by
  have found : reservedStems.any (·.isPrefixOf x) = true :=
    any_eq_true.2 ⟨stem, member, isPrefixOf_iff_prefix.2 h⟩
  rw [isReserved, found, Bool.true_or]

theorem reserved_names (built : g.Built) (h : g.parsed roots o = .ok c) :
    ∀ x ∈ c.module.names, isReserved x.toList = true := by
  have covered := parsed_covered built.wellFormed h
  obtain ⟨done, -, k, -, perm⟩ := linked_of_parsed built.wellFormed h
  have shared : ∀ x ∈ Module.sharedNames, isReserved x.toList = true := by decide
  intro x member
  rw [names_eq] at member
  rcases mem_append.1 member with inner | entry
  · rcases mem_append.1 inner with data | internal
    · rcases mem_append.1 data with fixed | symbol
      · exact shared x fixed
      · exact isReserved_of_stem (by decide) (symbol_stem built h symbol)
    · exact isReserved_of_stem (by decide) (internal_stem h covered internal)
  · obtain ⟨d, inside, rfl⟩ := entry_of_written perm entry
    rcases entryName_cases k inside with main | ⟨m, numbered⟩
    · rw [main]
      decide
    · rw [numbered, String.toList_append]
      exact isReserved_of_stem (by decide) (prefix_append ['c', 'a', 'c', 'h', 'e', '_'] _)

end

/-! ## closed programs -/

/-- Names are declared once and are not those of the language; what is called, and every name that
could be one of the program, was declared before the declaration that mentions it. -/
structure Closed (ds : List Declaration) : Prop where
  distinct : (ds.map Declaration.name).Nodup
  reserved : ∀ d ∈ ds, isReserved d.name.toList = true ∧ d.name ∉ predeclared
  called : ∀ before d after, ds = before ++ d :: after → ∀ m ∈ d.body, m.applied = true →
    m.word ∈ predeclared ∨ m.word ∈ before.map Declaration.name
  mentioned : ∀ before d after, ds = before ++ d :: after → ∀ m ∈ d.body, isReserved m.word.toList =
    true → m.word ∈ before.map Declaration.name

theorem closed_of_behind {ds : List Declaration} (distinct : (ds.map Declaration.name).Nodup)
    (reserved : ∀ x ∈ ds.map Declaration.name, isReserved x.toList = true) (behind : Behind [] ds) :
    Closed ds where
  distinct := distinct
  reserved d member := by
    have foreign : ∀ x ∈ predeclared, isReserved x.toList = false := by decide
    have own := reserved d.name (mem_map_of_mem member)
    refine ⟨own, fun there => ?_⟩
    rw [foreign _ there] at own
    cases own
  called before d after split m member applied := by
    rcases behind before d after split m member with known | harmless
    · rw [String.ofList_toList, nil_append] at known
      exact .inr known
    · rw [isHarmless, applied, Bool.and_eq_true] at harmless
      have word : m.word.toList ∈ predeclaredWords := by simpa using harmless.2
      have there := mem_map_of_mem (f := String.ofList) word
      rw [String.ofList_toList, map_predeclaredWords] at there
      exact .inl there
  mentioned before d after split m member own := by
    rcases behind before d after split m member with known | harmless
    · rwa [String.ofList_toList, nil_append] at known
    · rw [isHarmless, own] at harmless
      cases harmless

/-- **Programs are closed.**  The declarations in the text of a program are those of its module in
order: what is shared, its buffers, helpers, routines, functions and entry points.  No two have one
name, and all that a declaration calls or accesses was declared before it. -/
theorem compile_closed {g : Graph} (built : g.Built) {roots : List Root} {o : Options} {p : Program}
    (h : g.compile roots o = .ok p) :
    ∃ c, g.parsed roots o = .ok c ∧ p = c.toProgram ∧
      (declarations p.source).map Declaration.name = c.module.names ∧
        Closed (declarations p.source) := by
  obtain ⟨c, parsed, rfl⟩ := compile_ok_iff.1 h
  obtain ⟨named, behind⟩ := (parsed_orderly built parsed).reading.declarations_eq
  refine ⟨c, parsed, rfl, named, closed_of_behind ?_ ?_ behind⟩
  · exact named ▸ nodup_names built parsed
  · exact named ▸ reserved_names built parsed

/-- octaves of noise under a cache, for an output that is named like a function -/
theorem compile_closed_noise :
    ∃ (p : Program) (c : Context), cachedNoise.compile [⟨"vg_voxels", some 6⟩] ⟨[], some [], 0⟩ =
      .ok p ∧ c.buffers.map Buffer.symbol = ["buf_cache_1", "buf_vg_voxels"] ∧
        c.scopes.toList.map Scope.name = ["vg_voxels", "vg_cache_1", "vg_fractal_2"] ∧
          (declarations p.source).map Declaration.name = c.module.names ∧
            Closed (declarations p.source) := by
  obtain ⟨c, parsed, symbols, functions⟩ :
      ∃ c, cachedNoise.parsed [⟨"vg_voxels", some 6⟩] ⟨[], some [], 0⟩ = .ok c ∧
        c.buffers.map Buffer.symbol = ["buf_cache_1", "buf_vg_voxels"] ∧
          c.scopes.toList.map Scope.name = ["vg_voxels", "vg_cache_1", "vg_fractal_2"] := by
    decide +kernel
  have compiled : cachedNoise.compile [⟨"vg_voxels", some 6⟩] ⟨[], some [], 0⟩ = .ok c.toProgram :=
    compile_ok_iff.2 ⟨c, parsed, rfl⟩
  obtain ⟨c', parsed', -, named, closed⟩ := compile_closed built_cachedNoise compiled
  cases parsed.symm.trans parsed'
  exact ⟨c.toProgram, c, compiled, symbols, functions, named, closed⟩

end Terrain.Compile
