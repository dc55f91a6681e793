import Terrain.Proofs.LineTypes

/-!
# Generated functions are well typed

When a compilation is over, what the lines of its functions were tied to is settled: buffers have
the shapes of the caches that they hold, arguments those of the outputs, and names stand for one
thing each. So the lines go through under the typing rules, in the order in which they are written.

* `localsOf`            the locals behind some lines;
* `checkLines_typed`    lines that are tied to what types them go through;
* `Named`               functions have names of their own;
* `Module.globals`      what a program declares;
* `parsed_functionTyped`  every function of a program is well typed.
-/

namespace Terrain.Compile

open Kernel Hash List

variable {v : Var} {t : Ty} {s : Shape} {shapes : List Shape} {l : Indented} {blocks : List Block}
variable {e : Expr} {i : ScopeId}

/-! ## locals -/

/-- the local that a line of a dispatch's function introduces, and whether it can be assigned to -/
def localType? : Line → Option (Var × Ty × Bool)
  | .bind v s _ => (Ty.ofShape? s).map (v, ·, false)
  | .declare v s => (Ty.ofShape? s).map (v, ·, true)
  | _ => none

theorem localType_bind (type : Ty.ofShape? s = some t) :
    localType? (.bind v s e) = some (v, t, false) := by
  rw [localType?, type]
  rfl

theorem localType_declare (type : Ty.ofShape? s = some t) :
    localType? (.declare v s) = some (v, t, true) := by
  rw [localType?, type]
  rfl

def localsOf (ls : List Indented) : Block := ls.filterMap fun l => localType? l.line

section
variable {g : Graph} {rs : List Root} {c : Context} {i : ScopeId} {before ls : List Indented}

/-- a line declares nothing, or a local of the type of the shape -/
theorem LineTyped.declares {l : Line} (h : LineTyped g rs c i before l) :
    (l.declares = none ∧ localType? l = none) ∨ ∃ v s t m, l.declares = some (v, s) ∧
      Ty.ofShape? s = some t ∧ localType? l = some (v, t, m) := by
  have declared (v : Var) {s : Shape} (m : Bool) (defined : s.isDefined = true) :
      ∃ w σ t m', some (v, s) = some (w, σ) ∧ Ty.ofShape? σ = some t ∧
        (Ty.ofShape? s).map (v, ·, m) = some (w, t, m') := by
    obtain ⟨t, type⟩ := Ty.exists_ofShape defined
    exact ⟨v, s, t, m, rfl, type, by rw [type]; rfl⟩
  cases h with
  | bind defined typed | sample _ _ _ _ _ defined => exact .inr (declared _ false defined)
  | declare defined => exact .inr (declared _ true defined)
  | call | stored | output => exact .inl ⟨rfl, rfl⟩

theorem localsOf_append (xs ys : List Indented) :
    localsOf (xs ++ ys) = localsOf xs ++ localsOf ys := filterMap_append

theorem lookup_localsOf (h : LinesTyped g rs c i before ls) (v : Var) :
    ((localsOf ls).lookup v).map Prod.fst = (ls.findSome? (declaredShape v)).bind Ty.ofShape? := by
  induction ls generalizing before with
  | nil => rfl
  | cons l ls ih =>
    have rest := ih h.2
    have shape : declaredShape v l = l.line.declares.bind fun p =>
        if p.1 = v then some p.2 else none := by
      unfold declaredShape
      cases l.line.declares <;> rfl
    have first : localsOf (l :: ls) = (localType? l.line).toList ++ localsOf ls := by
      unfold localsOf
      rw [filterMap_cons]
      cases localType? l.line <;> rfl
    rw [findSome?_cons, shape, first]
    rcases h.1.declares with ⟨none, same⟩ | ⟨w, s, t, m, declares, type, same⟩
    · rw [none, same]
      exact rest
    · rw [declares, same]
      show (((w, t, m) :: localsOf ls).lookup v).map Prod.fst = _
      rw [List.lookup_cons]
      by_cases own : w = v
      · simp [own, type]
      · have other : (v == w) = false := beq_eq_false_iff_ne.2 (Ne.symm own)
        simpa [other, own] using rest

theorem mem_introduced {m : Bool} (h : (v, t, m) ∈ localsOf ls) : v ∈ introduced ls := by
  obtain ⟨l, member, same⟩ := mem_filterMap.1 h
  refine mem_filterMap.2 ⟨l, member, ?_⟩
  revert same
  cases l.line <;> simp [localType?, Line.introduces] <;> intros <;> simp_all

theorem lookup_localsOf_none (new : v ∉ introduced ls) : (localsOf ls).lookup v = none := by
  cases found : (localsOf ls).lookup v with
  | none => rfl
  | some p => exact absurd (mem_introduced (mem_of_lookup found)) new

end

/-! ## arguments -/

theorem fits_ofShape (type : Ty.ofShape? s = some t) : t.fits t = true := by
  cases s <;> cases type <;> rfl

theorem find?_key {α β : Type} {key : α → β} {l : List α} (distinct : (l.map key).Nodup) {a : α}
    (member : a ∈ l) {p : α → Bool} (own : p a = true) (only : ∀ b, p b = true → key b = key a) :
    l.find? p = some a := by
  obtain ⟨xs, ys, rfl⟩ := append_of_mem member
  rw [map_append, nodup_append] at distinct
  have before : ∀ b ∈ xs, ¬ p b = true := fun b there same =>
    distinct.2.2 _ (mem_map_of_mem there) _ (mem_map_of_mem (.head _)) (only b same)
  rw [find?_append, find?_eq_none.2 before, Option.none_or, find?_cons_of_pos own]

section
variable {args : List Argument}

theorem argumentType_of_mem (distinct : (args.map Argument.name).Nodup) {a : Argument}
    (member : a ∈ args) : argumentType? args a.name a.output = Ty.ofShape? a.shape := by
  unfold argumentType?
  rw [find?_key distinct member (by simp) fun b same =>
    beq_iff_eq.1 (Bool.and_eq_true _ _ ▸ same).2]
  rfl

theorem argumentType_none {name : String} (new : name ∉ args.map Argument.name) (output : Bool) :
    argumentType? args name output = none := by
  unfold argumentType?
  rw [find?_eq_none.2]
  · rfl
  · intro a member same
    rw [Bool.and_eq_true] at same
    exact new (mem_map.2 ⟨a, member, beq_iff_eq.1 same.2⟩)

theorem fitArguments_function {ts : List Ty}
    (given : Forall₂ (fun t s => Ty.ofShape? s = some t) ts shapes) :
    fitArguments (functionArguments shapes .float)
      (ts.map (·, false) ++ [(.f32, true)]) = true := by
  have from_ (name : Nat → String) : fitArguments
      (shapes.mapIdx (fun i s => ⟨name i, s, false⟩) ++ [⟨"out_value", .float, true⟩])
      (ts.map (·, false) ++ [(.f32, true)]) = true := by
    induction given generalizing name with
    | nil => rfl
    | @cons t s ts shapes type _ ih =>
      simp only [mapIdx_cons, map_cons, cons_append, fitArguments, type,
        ih fun i => name (i + 1)]
      simpa using fits_ofShape type
  exact from_ fun i => (Var.input i).text

end

/-! ## lines -/

/-- what is declared around the functions of a context -/
structure Describes (g : Graph) (c : Context) (Γ : Globals) : Prop where
  function : ∀ j < c.scopes.size, (c.scope j).hasPosition = false →
    Γ.function (c.scope j).name = some (c.scope j).args
  cached : ∀ {d n output}, 0 < d → d < c.entries.size → c.cached d = some n.id →
    g.get? n.id = some n → output ∈ (c.entry d).outputs → Γ.buffer output.buffer =
      Ty.stored? n.shape

/-- the arguments of a dispatch's function: the position, and one for each value that is stored -/
structure Receives (g : Graph) (rs : List Root) (c : Context) (i : ScopeId) (args : List Argument) :
    Prop where
  position : positionArgument ∈ args
  inputs : ∀ a ∈ args, a.output = false → a = positionArgument
  stored : ∀ {before output e}, LineTyped g rs c i before (.store output e) →
    ∃ s, s.isDefined = true ∧ ⟨output, s, true⟩ ∈ args ∧ HasShape (namesBehind before) e s

section
variable {g : Graph} {rs : List Root} {c : Context} {i : ScopeId} {Γ : Globals}
  {args : List Argument} {before : List Indented}

theorem findLocal_single (block : Block) (v : Var) : findLocal [block] v = block.lookup v := by
  unfold findLocal
  cases found : block.lookup v <;> simp [found]

theorem namesBehind_le (receives : Receives g rs c i args) (typed : LinesTyped g rs c i [] before)
    (distinct : (args.map Argument.name ++ (introduced before).map Var.text).Nodup) :
    (namesBehind before).Le (Γ.names args [localsOf before]) := by
  obtain ⟨arguments, -, apart⟩ := nodup_append.1 distinct
  refine ⟨fun {v t} h => ?_, nofun⟩
  show (((findLocal [localsOf before] v).map Prod.fst).or
    (argumentType? args v.text false)) = some t
  rw [findLocal_single]
  by_cases own : v = .position
  · subst own
    have new : Var.position ∉ introduced before := fun there =>
      apart _ (mem_map_of_mem receives.position) _ (mem_map_of_mem there) rfl
    rw [lookup_localsOf_none new, ← h]
    exact argumentType_of_mem arguments receives.position
  · have found : (before.findSome? (declaredShape v)).bind Ty.ofShape? = some t := by
      cases v <;> first | exact h | exact absurd rfl own
    rw [lookup_localsOf typed v, found]
    rfl

theorem addLocal_new (t : Ty) (m : Bool) (introduces : l.line.introduces = some v)
    (distinct : (args.map Argument.name ++ (introduced (before ++ [l])).map Var.text).Nodup) :
    addLocal args v t m [localsOf before] = some [localsOf before ++ [(v, t, m)]] := by
  obtain ⟨-, locals, apart⟩ := nodup_append.1 distinct
  have own : introduced (before ++ [l]) = introduced before ++ [v] := by
    rw [introduced_append]
    unfold introduced
    rw [filterMap_cons, introduces]
    rfl
  rw [own] at locals apart
  have new : v ∉ introduced before := by
    intro there
    rw [map_append, nodup_append] at locals
    exact locals.2.2 _ (mem_map_of_mem there) _ (mem_map_of_mem (.head _)) rfl
  have free : v.text ∉ args.map Argument.name := fun there =>
    apart _ there _ (mem_map_of_mem mem_append_cons_self) rfl
  show (if (findLocal [localsOf before] v).isSome || (argumentType? args v.text false).isSome then
    none else some [localsOf before ++ [(v, t, m)]]) = _
  rw [findLocal_single, lookup_localsOf_none new, argumentType_none free]
  rfl

theorem type_sampleExpr {Δ : Names} (position : Δ.var .position = some (.vec 3 .f32)) {b : String}
    (buffer : Δ.buffer b = some t) {reduction : Int}
    (range : 0 ≤ reduction ∧ reduction ≤ maxReduction) :
    (sampleExpr b reduction).type? Δ = some t := by
  have word : literalType? s!"{reduction}u" = some .u32 :=
    literalType_word range.1 (lt_of_le_of_lt range.2 (by decide))
  have index : (Expr.call2 (.routine .cacheIndex) (.var .position)
      (.literal s!"{reduction}u")).type? Δ = some .u32 := by
    show (Δ.var .position).bind _ = _
    rw [position]
    show (literalType? _).bind _ = _
    rw [word]
    rfl
  show Option.bind _ _ = _
  rw [index]
  exact buffer

section
variable (type : Ty.ofShape? s = some t) (own : e.type? (Γ.names args blocks) = some t)
include type own

theorem checkLine_bind {blocks' : List Block}
    (new : addLocal args v t false blocks = some blocks') :
    checkLine Γ args blocks (.bind v s e) = some blocks' := by
  show ((Ty.ofShape? s).bind fun want => (e.type? (Γ.names args blocks)).bind fun t =>
    if t.fits want then addLocal args v want false blocks else none) = _
  rw [type, own]
  show (if t.fits t then _ else _) = _
  rw [if_pos (fits_ofShape type)]
  exact new

theorem checkLine_store {output : String} (target : argumentType? args output true = some t) :
    checkLine Γ args blocks (.store output e) = some blocks := by
  show ((argumentType? args output true).bind fun want =>
    (e.type? (Γ.names args blocks)).bind fun t =>
    if t.fits want then some blocks else none) = _
  rw [target, own]
  show (if t.fits t then _ else _) = _
  rw [if_pos (fits_ofShape type)]

end

theorem checkLine_call {f : String} {ss : List Symbol}
    {ts : List Ty} (function : Γ.function f = some (functionArguments shapes .float))
    (own : ss.mapM (Symbol.type? (Γ.names args blocks)) = some ts)
    (types : Forall₂ (fun t s => Ty.ofShape? s = some t) ts shapes)
    (result : findLocal blocks v = some (.f32, true)) :
    checkLine Γ args blocks (.call f ss v) = some blocks := by
  show ((Γ.function f).bind fun wants =>
    (ss.mapM (Symbol.type? (Γ.names args blocks))).bind fun ts =>
    (findLocal blocks v).bind fun found =>
      if found.2 && fitArguments wants (ts.map (·, false) ++ [(found.1, true)]) then some blocks
      else none) = _
  rw [function, own, result]
  show (if true && fitArguments _ _ then _ else _) = _
  rw [fitArguments_function types]
  rfl

theorem mapM_type {Δ Δ' : Names} (le : Δ.Le Δ') {ss : List Symbol}
    (given : Forall₂ (fun s shape => shape.isDefined = true ∧ s.type? Δ = Ty.ofShape? shape)
      ss shapes) :
    ∃ ts, ss.mapM (Symbol.type? Δ') = some ts ∧
      Forall₂ (fun t s => Ty.ofShape? s = some t) ts shapes := by
  induction given with
  | nil => exact ⟨[], rfl, .nil⟩
  | @cons s shape ss shapes head _ ih =>
    obtain ⟨ts, types, rest⟩ := ih
    obtain ⟨t, type⟩ := Ty.exists_ofShape head.1
    refine ⟨t :: ts, ?_, .cons type rest⟩
    rw [mapM_cons, s.type_mono le (head.2.trans type), types]
    rfl

theorem lookup_declared (type : Ty.ofShape? s = some t) (member : ⟨0, .declare v s⟩ ∈ before)
    (distinct : ((introduced before).map Var.text).Nodup) :
    (localsOf before).lookup v = some (t, true) := by
  obtain ⟨xs, ys, rfl⟩ := append_of_mem member
  have new : v ∉ introduced xs := by
    intro there
    rw [introduced_append, introduced_cons, map_append, nodup_append] at distinct
    exact distinct.2.2 _ (mem_map_of_mem there) v.text (by simp [Line.introduces]) rfl
  have own : localsOf (⟨0, .declare v s⟩ :: ys) = (v, t, true) :: localsOf ys := by
    unfold localsOf
    rw [filterMap_cons, localType_declare type]
  rw [localsOf_append, lookup_append, lookup_localsOf_none new, own, lookup_cons_self]
  rfl

theorem checkLine_typed (describes : Describes g c Γ) (receives : Receives g rs c i args)
    (typed : LinesTyped g rs c i [] before) (h : LineTyped g rs c i before l.line)
    (distinct : (args.map Argument.name ++ (introduced (before ++ [l])).map Var.text).Nodup) :
    checkLine Γ args [localsOf before] l.line = some [localsOf (before ++ [l])] := by
  have earlier : (args.map Argument.name ++ (introduced before).map Var.text).Nodup := by
    refine distinct.sublist (List.Sublist.append_left (List.Sublist.map _ ?_) _)
    rw [introduced_append]
    exact sublist_append_left _ _
  have names := namesBehind_le (Γ := Γ) receives typed earlier
  have longer : localsOf (before ++ [l]) = localsOf before ++ (localType? l.line).toList := by
    rw [localsOf_append]
    unfold localsOf
    rw [filterMap_cons]
    cases localType? l.line <;> rfl
  have fresh (v : Var) (t : Ty) (m : Bool) (introduces : l.line.introduces = some v) :
      addLocal args v t m [localsOf before] = some [localsOf before ++ [(v, t, m)]] :=
    addLocal_new t m introduces distinct
  rw [longer]
  clear longer distinct
  obtain ⟨depth, line⟩ := l
  have keep : some [localsOf before] = some [localsOf before ++ []] := by rw [append_nil]
  have store {output : String} {e : Expr} (h : LineTyped g rs c i before (.store output e)) :
      checkLine Γ args [localsOf before] (.store output e) = some [localsOf before] := by
    obtain ⟨s, defined, member, own⟩ := receives.stored h
    obtain ⟨t, same⟩ := Ty.exists_ofShape defined
    have target := argumentType_of_mem (nodup_append.1 earlier).1 member
    exact checkLine_store same (e.type_mono names (own.trans same)) (target.trans same)
  cases h with
  | @bind v s e defined own =>
    obtain ⟨t, same⟩ := Ty.exists_ofShape defined
    dsimp only
    rw [localType_bind same]
    exact checkLine_bind same (e.type_mono names (own.trans same)) (fresh v t false rfl)
  | @sample v n d output reduction positive inside cached found written defined other range =>
    obtain ⟨t, same⟩ := Ty.exists_ofShape defined
    have buffer : Γ.buffer output.buffer = some t := by
      rw [describes.cached positive inside cached found written, ← same]
      cases shape : n.shape <;> first | rfl | exact absurd shape other
    dsimp only
    rw [localType_bind same]
    exact checkLine_bind same (type_sampleExpr (names.var rfl) buffer range) (fresh v t false rfl)
  | @declare v s defined =>
    obtain ⟨t, same⟩ := Ty.exists_ofShape defined
    dsimp only
    rw [localType_declare same]
    show ((Ty.ofShape? s).bind fun t => addLocal args v t true [localsOf before]) = _
    rw [same]
    exact fresh v t true rfl
  | @call v ss callee shapes inside nested same given declared =>
    obtain ⟨ts, own, types⟩ := mapM_type names (given.imp fun s shape h =>
      ⟨h.1, (type_behind before s).trans h.2⟩)
    refine (checkLine_call ?_ own types ?_).trans keep
    · exact (describes.function callee inside nested).trans (congrArg some same)
    · rw [findLocal_single]
      exact lookup_declared rfl declared (nodup_append.1 earlier).2.1
  | stored positive inside own cached found defined behind =>
    exact (store (.stored positive inside own cached found defined behind)).trans keep
  | output own member found defined behind =>
    exact (store (.output own member found defined behind)).trans keep

theorem checkLines_typed (describes : Describes g c Γ) (receives : Receives g rs c i args)
    {ls : List Indented} (typed : LinesTyped g rs c i [] before) (h : LinesTyped g rs c i before ls)
    (distinct : (args.map Argument.name ++ (introduced (before ++ ls)).map Var.text).Nodup) :
    checkLines Γ args [localsOf before] ls = some [localsOf (before ++ ls)] := by
  induction ls generalizing before with
  | nil =>
    rw [append_nil]
    rfl
  | cons l ls ih =>
    have split : before ++ l :: ls = before ++ [l] ++ ls := by simp
    rw [split] at distinct ⊢
    have first : (args.map Argument.name ++ (introduced (before ++ [l])).map Var.text).Nodup := by
      refine distinct.sublist (List.Sublist.append_left (List.Sublist.map _ ?_) _)
      rw [introduced_append (before ++ [l])]
      exact sublist_append_left _ _
    have both : LinesTyped g rs c i [] (before ++ [l]) := typed.append ⟨h.1, trivial⟩
    refine Option.bind_eq_some_iff.2 ⟨_, checkLine_typed describes receives typed h.1 first, ?_⟩
    exact ih both h.2 distinct

end

/-! ## names of functions -/

/-- functions have names of their own: all but the root are numbered by the names used so far -/
structure Named (c : Context) : Prop where
  root : rootId < c.scopes.size ∧ (c.scope rootId).name = "vg_" ++ mainDispatch
  numbered : ∀ i < c.scopes.size, i ≠ rootId →
    ∃ stem, ∃ k ≤ c.names, (c.scope i).name = stem ++ "_" ++ toString k
  distinct : ∀ i < c.scopes.size, ∀ j < c.scopes.size, (c.scope i).name = (c.scope j).name → i = j

theorem numbered_ne_main (stem : String) (k : Nat) :
    stem ++ "_" ++ toString k ≠ "vg_" ++ mainDispatch := by
  intro same
  have digits := toList_toString_ne_nil k
  have last := congrArg (fun s : String => s.toList.getLast?) same
  simp only [String.toList_append, getLast?_append_of_ne_nil _ digits] at last
  have member : (toString k).toList.getLast digits ∈ (toString k).toList := getLast_mem digits
  rw [getLast?_eq_some_getLast digits] at last
  have digit := isDigit_of_mem member
  rw [Option.some.inj (last.trans (by decide : _ = some 's'))] at digit
  cases digit

section
variable {c c' : Context}

theorem Named.extend (h : Named c) (grows : Grows c c')
    (new : ∀ i < c'.scopes.size, c.scopes.size ≤ i → i = c.scopes.size ∧ c.names < c'.names ∧
      ∃ stem, (c'.scope i).name = stem ++ "_" ++ toString c'.names) : Named c' := by
  have name {i : ScopeId} (inside : i < c.scopes.size) : (c'.scope i).name = (c.scope i).name :=
    (grows.scope i inside).name
  -- the number of a new name is above all others
  have apart {i j : ScopeId} (old : i < c.scopes.size) (inside : j < c'.scopes.size)
      (fresh : c.scopes.size ≤ j) : (c'.scope i).name ≠ (c'.scope j).name := by
    obtain ⟨-, above, stem, named⟩ := new j inside fresh
    rw [name old, named]
    by_cases own : i = rootId
    · rw [own, h.root.2]
      exact (numbered_ne_main stem _).symm
    · obtain ⟨stem', k, le, named'⟩ := h.numbered i old own
      rw [named']
      intro same
      have := ending_inj same
      omega
  refine ⟨⟨h.root.1.trans_le grows.scopes, (name h.root.1).trans h.root.2⟩, ?_, ?_⟩
  · intro i inside other
    rcases lt_or_ge i c.scopes.size with old | fresh
    · obtain ⟨stem, k, le, named⟩ := h.numbered i old other
      exact ⟨stem, k, le.trans grows.names, (name old).trans named⟩
    · obtain ⟨-, -, stem, named⟩ := new i inside fresh
      exact ⟨stem, c'.names, le_rfl, named⟩
  · intro i inside j inside' same
    rcases lt_or_ge i c.scopes.size with old | fresh <;>
      rcases lt_or_ge j c.scopes.size with old' | fresh'
    · rw [name old, name old'] at same
      exact h.distinct i old j old' same
    · exact absurd same (apart old inside' fresh')
    · exact absurd same.symm (apart old' inside fresh)
    · rw [(new i inside fresh).1, (new j inside' fresh').1]

theorem Named.of_size (h : Named c) (grows : Grows c c') (size : c'.scopes.size = c.scopes.size) :
    Named c' :=
  h.extend grows fun i inside fresh => by omega

theorem Change.named (change : Change c c') (h : Named c) : Named c' := by
  have grows := change.grows
  cases change with
  | fold | required | constantAdded | injectedAdded => exact h.of_size grows rfl
  | declared | called | remembered | deepened | cacheClosed | rooted =>
    exact h.of_size grows (size_modifyScope _ _ _)
  | readAgain node reader id reads known =>
    have frame := raiseDepth_frame c (c.entries.size + 1) id ((c.entry reader).depth + 1)
    have size := congrArg (fun c : Context => c.scopes.size) frame
    exact h.of_size grows size
  | nestedAdded caller spec inputs t unknown =>
    refine h.extend grows fun i inside fresh => ?_
    obtain rfl := eq_size_of_push inside fresh
    refine ⟨rfl, lt_add_one _, spec.stem, ?_⟩
    rw [scope_nestedAdded]
    rfl
  | cacheOpened n reader reduction reads unknown =>
    refine h.extend grows fun i inside fresh => ?_
    obtain rfl := eq_size_of_push inside fresh
    refine ⟨rfl, lt_add_one _, "vg_cache", ?_⟩
    rw [scope_cacheOpened]
    show "vg_" ++ ("cache_" ++ toString (c.names + 1)) = _
    rw [← String.append_assoc]
    rfl

theorem Reaches.named (h : Reaches c c') (named : Named c) : Named c' := by
  induction h with
  | refl => exact named
  | tail _ change ih => exact change.named ih

theorem named_opened (o : Options) : Named (Context.opened o) := by
  refine ⟨⟨zero_lt_one, rfl⟩, fun i inside other => ?_, fun i inside j inside' _ => ?_⟩
  · exact absurd (Nat.lt_one_iff.1 inside) other
  · exact (Nat.lt_one_iff.1 inside).trans (Nat.lt_one_iff.1 inside').symm

end

/-! ## programs -/

/-- what a program declares: the buffers that it binds, and its functions -/
def Module.globals (m : Module) : Globals where
  buffer b := if b = "params" then some (.vec 4 .f32)
    else (m.buffers.find? (·.symbol == b)).bind fun buffer => Ty.stored? buffer.shape
  function f := (m.scopes.find? (·.name == f)).map Scope.args

section
variable {g : Graph} {c : Context} {roots : List Root} {o : Options}

section
variable (h : g.parsed roots o = .ok c)
include h

theorem parsed_named : Named c := by
  obtain ⟨-, -, d, ran, rfl, -⟩ := parsed_ok h
  have named := ran.reaches.named (named_opened o)
  exact ⟨named.root, named.numbered, named.distinct⟩

theorem nodup_functions : (c.module.scopes.map Scope.name).Nodup := by
  have named := parsed_named h
  have perm := parsed_scopes h
  show ((c.writtenScopes.map c.scope).map Scope.name).Nodup
  rw [map_map]
  refine Nodup.map_on (fun i member j member' same => ?_) (perm.nodup_iff.2 nodup_range)
  exact named.distinct i (mem_range.1 (perm.mem_iff.1 member)) j
    (mem_range.1 (perm.mem_iff.1 member')) same

theorem function_globals (inside : i < c.scopes.size) :
    c.module.globals.function (c.scope i).name = some (c.scope i).args := by
  have member : c.scope i ∈ c.module.scopes :=
    mem_map_of_mem ((parsed_scopes h).mem_iff.2 (mem_range.2 inside))
  show (c.module.scopes.find? (·.name == (c.scope i).name)).map Scope.args = _
  rw [find?_key (nodup_functions h) member (by simp) fun _ => beq_iff_eq.1]
  rfl

end

theorem buffer_globals (built : g.Built) (h : g.parsed roots o = .ok c) {d : DispatchId}
    (inside : d < c.entries.size) {output : Output} (member : output ∈ (c.entry d).outputs) :
    c.module.globals.buffer output.buffer = Ty.stored? output.shape := by
  obtain ⟨done, l, k, -, -⟩ := linked_of_parsed built.wellFormed h
  have buffered := (parsed_registered built.wellFormed h).buffered
  have distinct := nodup_symbols k l buffered fun d inside => nodup_buffers built h inside
  obtain ⟨target, named⟩ : ∃ target, output.buffer = "buf_" ++ target := by
    obtain ⟨main, cache⟩ := parsed_computes built h
    rcases Nat.eq_zero_or_pos d with rfl | positive
    · rw [main.outputs] at member
      obtain ⟨w, -, rfl⟩ := mem_map.1 member
      exact ⟨_, rfl⟩
    · obtain ⟨n, w, -, -, -, -, computes⟩ := cache d inside positive
      rw [computes.outputs] at member
      obtain rfl := mem_singleton.1 member
      exact ⟨_, rfl⟩
  rw [← buffered.outputs d inside] at member
  obtain ⟨b, there, rfl⟩ := mem_map.1 member
  have other : b.symbol ≠ "params" := by
    intro same
    have lists := congrArg String.toList (named.symm.trans same)
    rw [String.toList_append] at lists
    cases lists
  show (if b.symbol = "params" then _ else _) = _
  rw [if_neg other]
  show (c.buffers.find? (·.symbol == b.symbol)).bind _ = _
  rw [find?_key distinct (mem_filter.1 there).1 (by simp) fun _ => beq_iff_eq.1]
  rfl

theorem parsed_describes (built : g.Built) (h : g.parsed roots o = .ok c) :
    Describes g c c.module.globals where
  function j inside _ := function_globals h inside
  cached {d n output} positive inside cached found written := by
    obtain ⟨n', w, cached', found', -, -, computes⟩ := (parsed_computes built h).2 d inside positive
    have same : n'.id = n.id := Option.some.inj (cached'.symm.trans cached)
    rw [same, found] at found'
    cases found'
    have shape : output.shape = n.shape := by
      rw [computes.outputs] at written
      rw [mem_singleton.1 written]
    rw [buffer_globals built h inside written, shape]

theorem rootShape_eq {r : Root} {n : Node} (found : r.node.bind g.get? = some n) :
    rootShape g r = n.shape := by
  unfold rootShape
  rw [found]
  rfl

/-- the function of a dispatch is given the position and a pointer for each value that it stores -/
theorem parsed_receives (built : g.Built) (h : g.parsed roots o = .ok c) {d : DispatchId}
    (inside : d < c.entries.size) :
    Receives g roots c (c.entry d).scope (c.scope (c.entry d).scope).args := by
  obtain ⟨done, sorted, k, l, writes⟩ := parsed_writes built.wellFormed built.size_pos h
  obtain ⟨main, cache⟩ := parsed_computes built h
  -- another dispatch has another function
  have own {e : DispatchId} (inside' : e < c.entries.size)
      (same : (c.entry e).scope = (c.entry d).scope) : e = d :=
    Decidable.not_not.1 fun other => scope_ne k inside' inside other same
  have inputs {d : DispatchId} {ws : List Computed} (computes : Computes g c d ws) :
      ∀ a ∈ (c.scope (c.entry d).scope).args, a.output = false → a = positionArgument := by
    intro a member input
    rw [computes.args] at member
    rcases mem_cons.1 member with rfl | member
    · rfl
    · obtain ⟨w, -, rfl⟩ := mem_map.1 member
      cases input
  rcases Nat.eq_zero_or_pos d with rfl | positive
  · refine ⟨main.args ▸ .head _, inputs main, fun {before output e} typed => ?_⟩
    cases typed with
    | stored positive inside' scope => exact absurd (own inside' scope) (positive.ne')
    | @output r n s _ member found defined behind =>
      refine ⟨n.shape, defined, ?_, hasShape_sym behind⟩
      rw [main.args, map_map]
      refine .tail _ (mem_map.2 ⟨r, member, ?_⟩)
      simp [rootShape_eq found]
  · obtain ⟨n', w, cached', found', -, -, computes⟩ := cache d inside positive
    refine ⟨computes.args ▸ .head _, inputs computes, fun {before output e} typed => ?_⟩
    cases typed with
    | @stored n e s _ inside' scope cached found defined behind =>
      obtain rfl := own inside' scope
      have same : n'.id = n.id := Option.some.inj (cached'.symm.trans cached)
      rw [same, found] at found'
      cases found'
      refine ⟨n'.shape, defined, ?_, hasShape_sym behind⟩
      rw [computes.args]
      exact .tail _ (.head _)
    | output root =>
      have same : (0 : Nat) = d := own k.main.1 (writes.root.trans root.symm)
      omega

theorem LinesTyped.mem {rs : List Root} {before ls : List Indented}
    (h : LinesTyped g rs c i before ls) (member : l ∈ ls) :
    ∃ before, LineTyped g rs c i before l.line := by
  induction ls generalizing before with
  | nil => cases member
  | cons l' ls ih =>
    rcases mem_cons.1 member with rfl | member
    · exact ⟨_, h.1⟩
    · exact ih h.2 member

theorem Receives.defined {rs : List Root} {p : Program}
    (receives : Receives g rs c i (c.scope i).args) (well : WellScoped p (c.scope i))
    (typed : LinesTyped g rs c i [] (c.scope i).lines.toList) {a : Argument}
    (member : a ∈ (c.scope i).args) (output : a.output = true) :
    (Ty.ofShape? a.shape).isSome = true := by
  have stored : a.name ∈ (c.scope i).lines.toList.filterMap fun l => l.line.stores := by
    rw [well.stored]
    exact mem_map_of_mem (mem_filter.2 ⟨member, output⟩)
  obtain ⟨l, there, stores⟩ := mem_filterMap.1 stored
  obtain ⟨before, line⟩ := typed.mem there
  obtain ⟨e, same⟩ : ∃ e, l.line = .store a.name e := by
    revert stores
    cases l.line <;> intro stores <;> cases stores
    exact ⟨_, rfl⟩
  rw [same] at line
  obtain ⟨s, defined, target, -⟩ := receives.stored line
  -- an argument is found by its name, so the two are one
  have distinct := (nodup_append.1 well.distinct).1
  have own := argumentType_of_mem distinct member
  rw [output] at own
  have other : argumentType? (c.scope i).args a.name true = Ty.ofShape? s :=
    argumentType_of_mem distinct target
  rw [← own, other, Ty.isSome_ofShape]
  exact defined

section
variable {i : ScopeId}

section
variable (built : g.Built) (h : g.parsed roots o = .ok c)
include built h

theorem parsed_receives_of_position (inside : i < c.scopes.size)
    (position : (c.scope i).hasPosition = true) : Receives g roots c i (c.scope i).args := by
  obtain ⟨done, -, k, -, -⟩ := parsed_writes built.wellFormed built.size_pos h
  obtain ⟨d, there, -, rfl⟩ := k.dispatch i inside position
  exact parsed_receives built h there

theorem parsed_checkLines (checked : Checked g roots c)
    (inside : i < c.scopes.size) (position : (c.scope i).hasPosition = true) :
    checkLines c.module.globals (c.scope i).args [[]] (c.scope i).lines.toList =
      some [localsOf (c.scope i).lines.toList] :=
  @checkLines_typed g roots c i _ _ [] (parsed_describes built h)
    (parsed_receives_of_position built h inside position) _ trivial
    (checked.placed i inside position)
    (parsed_wellScoped built h inside).distinct

theorem parsed_functionTyped (checked : Checked g roots c)
    (inside : i < c.scopes.size) : FunctionTyped c.module.globals (c.scope i) := by
  cases position : (c.scope i).hasPosition with
  | false => exact checked.nested i inside position _
  | true =>
    have receives := parsed_receives_of_position built h inside position
    refine ⟨fun a member => ?_, _, parsed_checkLines built h checked inside position⟩
    cases output : a.output with
    | true =>
      exact receives.defined (parsed_wellScoped built h inside) (checked.placed i inside position)
        member output
    | false =>
      rw [receives.inputs a member output]
      rfl

end

/-- when a function is through, the symbol of every node in it has the type of the node's shape -/
def SymbolsTyped (g : Graph) (Γ : Globals) (s : Scope) : Prop :=
  ∃ block, checkLines Γ s.args [[]] s.lines.toList = some [block] ∧
    ∀ p ∈ s.symbols, ∃ n, g.get? p.1 = some n ∧ n.shape.isDefined = true ∧
      p.2.type? (Γ.names s.args [block]) = Ty.ofShape? n.shape

theorem parsed_symbolsTyped (built : g.Built) (h : g.parsed roots o = .ok c)
    (checked : Checked g roots c) (inside : i < c.scopes.size)
    (position : (c.scope i).hasPosition = true)
    (symbols : ∀ p ∈ (c.scope i).symbols, TypedAs g c i p.1 p.2) :
    SymbolsTyped g c.module.globals (c.scope i) := by
  refine ⟨_, parsed_checkLines built h checked inside position, fun p member => ?_⟩
  obtain ⟨n, found, defined, type⟩ := symbols p member
  refine ⟨n, found, defined, ?_⟩
  obtain ⟨t, shape⟩ := Ty.exists_ofShape defined
  rw [shape] at type ⊢
  exact Symbol.type_mono (namesBehind_le (parsed_receives_of_position built h inside position)
    (checked.placed i inside position) (parsed_wellScoped built h inside).distinct)
    ((type_behind _ _).trans type)

end

end

end Terrain.Compile
