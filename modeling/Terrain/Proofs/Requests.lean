import Mathlib.Data.List.Basic
import Terrain.Proofs.Artifacts
import Terrain.Service.Message

/-!
# Requests arrive

A compile request is sent as bytes and read at the other end.  Its table of parameters arrives in
the order of the names, and an empty list of required outputs arrives as none given.  A table or
list of more than `maxElements` entries is sent but not read.

* `lookup_mergeSort`    sorting by keys changes nothing that is looked up;
* `decode_unread`       a record with a field that is not read is not read;
* `decode_encode`       what arrives of a request, and when.
-/

namespace Terrain

open Cbor List

variable {depth : Nat} {r : CompileRequest}

/-! ## tables in the order of their keys -/

theorem keyLe_refl (a : String) : keyLe a a = true := by
  simp [keyLe]

theorem keyLe_total (a b : String) : (keyLe a b || keyLe b a) = true := by
  have total := String.le_total a b
  simp only [keyLe, Bool.or_eq_true, Bool.and_eq_true, decide_eq_true_eq, beq_iff_eq]
  rcases Nat.lt_trichotomy a.utf8ByteSize b.utf8ByteSize with less | same | more
  · exact .inl (.inl less)
  · rcases total with le | le
    · exact .inl (.inr ⟨same, le⟩)
    · exact .inr (.inr ⟨same.symm, le⟩)
  · exact .inr (.inl more)

theorem keyLe_trans {a b c : String} (ab : keyLe a b = true) (bc : keyLe b c = true) :
    keyLe a c = true := by
  simp only [keyLe, Bool.or_eq_true, Bool.and_eq_true, decide_eq_true_eq, beq_iff_eq] at ab bc ⊢
  rcases ab with ab | ⟨ab, le⟩
  · rcases bc with bc | ⟨bc, -⟩ <;> exact .inl (by omega)
  · rcases bc with bc | ⟨bc, le'⟩
    · exact .inl (by omega)
    · exact .inr ⟨by omega, String.le_trans le le'⟩

section
variable {α : Type}

section
variable (rows : List (String × α)) (k : String)
include rows k

theorem lookup_eq_filter :
    rows.lookup k = ((rows.filter fun p => p.1 == k).head?).map Prod.snd := by
  induction rows with
  | nil => rfl
  | cons p rows ih =>
    obtain ⟨name, a⟩ := p
    by_cases same : name = k
    · subst same
      simp
    · have other : (k == name) = false := beq_false_of_ne fun eq => same eq.symm
      have other' : (name == k) = false := beq_false_of_ne same
      rw [lookup_cons, other, ih, filter_cons, if_neg (by simp [same])]

theorem filter_mergeSort :
    (rows.mergeSort fun a b => keyLe a.1 b.1).filter (fun p => p.1 == k) =
      rows.filter fun p => p.1 == k := by
  have perm := (mergeSort_perm rows fun a b => keyLe a.1 b.1).filter fun p => p.1 == k
  have ordered : (rows.filter fun p => p.1 == k).Pairwise fun a b => keyLe a.1 b.1 = true := by
    refine Pairwise.imp_of_mem ?_ (pairwise_of_forall fun _ _ => trivial :
      (rows.filter fun p => p.1 == k).Pairwise fun _ _ => True)
    intro a b ma mb _
    have ka := of_mem_filter ma
    have kb := of_mem_filter mb
    rw [beq_iff_eq.1 ka, beq_iff_eq.1 kb]
    exact keyLe_refl k
  have inside : (rows.filter fun p => p.1 == k).Sublist (rows.mergeSort fun a b =>
      keyLe a.1 b.1) := by
    refine sublist_mergeSort ?_ ?_ ordered filter_sublist
    · intro a b c
      exact keyLe_trans
    · intro a b
      exact keyLe_total a.1 b.1
  have kept := inside.filter fun p => p.1 == k
  rw [filter_filter] at kept
  simp only [Bool.and_self] at kept
  exact (kept.eq_of_length perm.length_eq.symm).symm

theorem lookup_mergeSort :
    (rows.mergeSort fun a b => keyLe a.1 b.1).lookup k = rows.lookup k := by
  rw [lookup_eq_filter, filter_mergeSort, ← lookup_eq_filter]

end

end

/-! ## what is not read -/

namespace Cbor.Item

theorem readMany_none {α : Type} {one : Reader α} {form : α → List UInt8} {before after : List α}
    {i : α} (h : ∀ j ∈ before, ∀ rest, one (form j ++ rest) = some (j, rest))
    (not : ∀ rest, one (form i ++ rest) = none) (rest : List UInt8) :
    readMany one (before ++ i :: after).length
      (((before ++ i :: after).flatMap form) ++ rest) = none := by
  induction before with
  | nil =>
    rw [nil_append, flatMap_cons, append_assoc, length_cons, readMany, not]
    rfl
  | cons j before ih =>
    rw [cons_append, flatMap_cons, append_assoc, length_cons, readMany,
      h j (.head _)]
    show (readMany one (before ++ i :: after).length
      ((before ++ i :: after).flatMap form ++ rest)).bind _ = _
    rw [ih fun j member => h j (.tail _ member)]
    rfl

/-- an item that no reader gets past -/
def Unread (depth : Nat) (i : Item) : Prop := ∀ rest, read depth (write i ++ rest) = none

theorem unread_map {pairs : List (Item × Item)} (long : maxElements < pairs.length)
    (fits : pairs.length < 2 ^ 64) : Unread (depth + 1) (.map pairs) := by
  intro rest
  rw [read_map fits, readSeveral, if_neg (Nat.not_le_of_lt long)]
  rfl

theorem unread_array {items : List Item} (long : maxElements < items.length)
    (fits : items.length < 2 ^ 64) : Unread (depth + 1) (.array items) := by
  intro rest
  rw [read_array fits, readSeveral, if_neg (Nat.not_le_of_lt long)]
  rfl

theorem decode_unread {before after : List (Item × Item)} {n : Nat} {i : Item}
    (few : (before ++ (.unsigned n, i) :: after).length ≤ 8) (small : n < 9)
    (fields : ∀ field ∈ before, IsField 31 field) (not : Unread 31 i) :
    decode (write (.map (before ++ (.unsigned n, i) :: after))) = none := by
  have fits : (before ++ (Item.unsigned n, i) :: after).length < 2 ^ 64 := few.trans_lt (by decide)
  have short : (before ++ (Item.unsigned n, i) :: after).length ≤ maxElements :=
    few.trans (by decide)
  have pair (p : Item × Item) (member : p ∈ before) (rest : List UInt8) :
      readPair (read 31) ((write p.1 ++ write p.2) ++ rest) = some (p, rest) := by
    obtain ⟨⟨m, less, key⟩, value⟩ := fields p member
    refine readPair_append (fun rest => ?_) (read_write value) rest
    rw [key]
    exact read_write (.unsigned (less.trans (by decide))) rest
  have stop (rest : List UInt8) :
      readPair (read 31) ((write (.unsigned n) ++ write i) ++ rest) = none := by
    rw [append_assoc, readPair, read_write (.unsigned (small.trans (by decide)))]
    show (read 31 (write i ++ rest)).bind _ = _
    rw [not]
    rfl
  have stopped := @readMany_none _ (readPair (read 31))
    (fun p => write p.1 ++ write p.2) before after (.unsigned n, i) pair stop []
  have none : read (31 + 1) (write (.map (before ++ (.unsigned n, i) :: after)) ++ []) = none := by
    rw [read_map fits, readSeveral, if_pos short, writePairs_eq, stopped]
    rfl
  rw [append_nil] at none
  unfold decode
  rw [show maxDepth = 31 + 1 from rfl, none]

end Cbor.Item

/-! ## requests -/

namespace Service.CompileRequest

open Cbor

/-- texts and lists of a length that a word holds -/
structure Sized (r : CompileRequest) : Prop where
  document : IsSized r.document
  names : ∀ p ∈ r.parameters, IsSized p.1
  parameters : r.parameters.length < 2 ^ 63
  required : ∀ names, r.required = some names → names.length < 2 ^ 63 ∧ ∀ name ∈ names, IsSized name
  workgroup : IsWord r.workgroup

/-- a request as it is read -/
def arrived (r : CompileRequest) : CompileRequest :=
  { r with
    parameters := (r.parameters.mergeSort fun a b => keyLe a.1 b.1).map fun p => (p.1, p.2.normal)
    required := someList r.required }

/-- nothing in a request has more entries than are read -/
def Short (r : CompileRequest) : Prop :=
  r.parameters.length ≤ Item.maxElements ∧ (r.required.getD []).length ≤ Item.maxElements

theorem toTable_ofTable (rows : Bindings) :
    (Item.ofTable Value.toItem rows).toTable Value.ofItem =
      some ((rows.mergeSort fun a b => keyLe a.1 b.1).map fun p => (p.1, p.2.normal)) := by
  have each : ∀ p ∈ (rows.mergeSort fun a b => keyLe a.1 b.1),
      (fun q : Item × Item => q.1.toText.bind fun k => (Value.ofItem q.2).bind fun v => some (k, v))
        ((fun p : String × Value => (Item.ofText p.1, p.2.toItem)) p) = some (p.1, p.2.normal) := by
    intro p _
    dsimp only
    rw [Item.toText_ofText, Value.ofItem_toItem]
    rfl
  exact Item.mapM_map each

theorem ofItem_eq (r : CompileRequest) :
    ofItem r.toItem =
      ((Item.bytes r.document.toUTF8.toList).toBytes.bind fun bytes =>
        (String.fromUTF8? (ByteArray.mk bytes.toArray)).bind fun document =>
        ((if r.parameters.isEmpty then Item.null else .ofTable Value.toItem r.parameters).toTable
          Value.ofItem).bind fun parameters =>
        ((someItem Item.ofText r.required).toList Item.toText).bind fun required =>
        ((if r.workgroup = 0 then Item.null else .ofInt r.workgroup).toWord).bind fun workgroup =>
          some ⟨document, parameters, required, workgroup⟩) := by
  unfold toItem
  cases r.parameters.isEmpty <;> by_cases none : r.workgroup = 0 <;>
    rcases r.required with _ | _ | ⟨name, names⟩ <;> simp only [none] <;> rfl

theorem ofItem_toItem (sized : r.Sized) : ofItem r.toItem = some r.arrived := by
  have parameters : (if r.parameters.isEmpty then
      Item.null else .ofTable Value.toItem r.parameters).toTable
      Value.ofItem = some r.arrived.parameters := by
    cases empty : r.parameters with
    | nil =>
      unfold arrived
      rw [empty, mergeSort_nil]
      rfl
    | cons p ps =>
      rw [if_neg (by simp), toTable_ofTable, ← empty]
      rfl
  have required : (someItem Item.ofText r.required).toList Item.toText =
      some r.arrived.required := by
    rw [toList_someItem fun names _ name _ => Item.toText_ofText name]
    show some ((someList r.required).map (List.map id)) = some (someList r.required)
    rw [map_id_fun, Option.map_id]
    rfl
  have workgroup : (if r.workgroup = 0 then Item.null else .ofInt r.workgroup).toWord =
      some r.workgroup := by
    split
    · next none =>
      rw [none]
      rfl
    · exact Item.toWord_ofInt sized.workgroup
  have document : String.fromUTF8? (ByteArray.mk r.document.toUTF8.toList.toArray) =
      some r.document := Hash.Token.fromUTF8?_toUTF8 r.document
  rw [ofItem_eq, parameters, required, workgroup]
  show (String.fromUTF8? (ByteArray.mk r.document.toUTF8.toList.toArray)).bind _ = _
  rw [document]
  rfl

/-! ## items -/

theorem canonical_ofTable {rows : Bindings} (short : rows.length ≤ Item.maxElements)
    (names : ∀ p ∈ rows, IsSized p.1) :
    Item.Canonical (depth + 3) (.ofTable Value.toItem rows) := by
  refine .map ?_ ?_ ?_
  · rwa [length_map, length_mergeSort]
  · intro p member
    obtain ⟨q, there, rfl⟩ := mem_map.1 member
    exact canonical_ofText (names q (mem_mergeSort.1 there))
  · intro p member
    obtain ⟨q, there, rfl⟩ := mem_map.1 member
    exact Value.canonical_toItem q.2

def leading (r : CompileRequest) : List (Item × Item) :=
  [(.unsigned 1, .bytes r.document.toUTF8.toList)] ++
    (if r.parameters.isEmpty then [] else [(.unsigned 2, .ofTable Value.toItem r.parameters)])

def trailing (r : CompileRequest) : List (Item × Item) :=
  if r.workgroup = 0 then [] else [(.unsigned 4, .ofInt r.workgroup)]

theorem toItem_eq (r : CompileRequest) :
    r.toItem = .map (r.leading ++ listField 3 ((r.required.getD []).map Item.ofText) ++
      r.trailing) := rfl

theorem length_leading (r : CompileRequest) : r.leading.length ≤ 2 := by
  unfold leading
  split <;> simp

theorem length_trailing (r : CompileRequest) : r.trailing.length ≤ 1 := by
  unfold trailing
  split <;> simp

section
variable (sized : r.Sized)
include sized

theorem isField_leading
    (short : r.parameters.length ≤ Item.maxElements) : ∀ field ∈ r.leading, IsField 31 field := by
  unfold leading
  simp only [forall_mem_append, forall_mem_singleton]
  refine ⟨isField 1 (.bytes ?_), ?_⟩
  · rw [Hash.Token.length_toUTF8]
    exact sized.document.trans (by decide)
  · split
    · exact nofun
    · exact forall_mem_singleton.2 (isField 2 (canonical_ofTable short sized.names))

theorem canonical_toItem (short : r.Short) : Item.Canonical Item.maxDepth r.toItem := by
  rw [toItem_eq]
  show Item.Canonical (31 + 1) _
  refine canonical_record ?_ ?_
  · have leading := length_leading r
    have required := length_listField 3 ((r.required.getD []).map Item.ofText)
    have trailing := length_trailing r
    simp only [length_append]
    omega
  · simp only [forall_mem_append]
    refine ⟨⟨isField_leading sized short.1, ?_⟩, ?_⟩
    · refine isField_listField (by decide) fun names eq => ⟨?_, fun name member => ?_⟩
      · have few := short.2
        rwa [eq] at few
      · exact canonical_ofText ((sized.required names eq).2 name member)
    · unfold trailing
      split
      · exact nofun
      · exact forall_mem_singleton.2 (isField 4 (canonical_ofInt sized.workgroup))

theorem decode_parameters
    (long : Item.maxElements < r.parameters.length) : Item.decode r.toItem.write = none := by
  have some : r.parameters.isEmpty = false := by
    cases empty : r.parameters with
    | nil => simp [empty] at long
    | cons p ps => rfl
  have fields : r.leading ++ listField 3 ((r.required.getD []).map Item.ofText) ++ r.trailing =
      [(Item.unsigned 1, Item.bytes r.document.toUTF8.toList)] ++ (Item.unsigned 2,
        Item.ofTable Value.toItem r.parameters) ::
        (listField 3 ((r.required.getD []).map Item.ofText) ++ r.trailing) := by
    unfold leading
    rw [some]
    simp
  rw [toItem_eq, fields]
  refine Item.decode_unread ?_ (by decide) ?_ (Item.unread_map ?_ ?_)
  · have required := length_listField 3 ((r.required.getD []).map Item.ofText)
    have trailing := length_trailing r
    simp only [length_append, length_cons, length_nil]
    omega
  · refine forall_mem_singleton.2 (isField 1 (.bytes ?_))
    rw [Hash.Token.length_toUTF8]
    exact sized.document.trans (by decide)
  · rwa [length_map, length_mergeSort]
  · rw [length_map, length_mergeSort]
    exact sized.parameters.trans (by decide)

theorem decode_required (short : r.parameters.length ≤ Item.maxElements)
    (long : Item.maxElements < (r.required.getD []).length) :
    Item.decode r.toItem.write = none := by
  have field : listField 3 ((r.required.getD []).map Item.ofText) =
      [(Item.unsigned 3, Item.array ((r.required.getD []).map Item.ofText))] := by
    unfold listField
    rw [if_neg]
    intro empty
    rw [List.isEmpty_iff, List.map_eq_nil_iff] at empty
    simp [empty] at long
  have fits : (r.required.getD []).length < 2 ^ 63 := by
    cases eq : r.required with
    | none => simp
    | some names => exact (sized.required names eq).1
  rw [toItem_eq, field, append_assoc, singleton_append]
  refine Item.decode_unread ?_ (by decide) (isField_leading sized short) (Item.unread_array ?_ ?_)
  · have leading := length_leading r
    have trailing := length_trailing r
    simp only [length_append, length_cons]
    omega
  · rwa [length_map]
  · rw [length_map]
    exact fits.trans (by decide)

theorem decode_encode :
    (r.Short → decode r.encode = some r.arrived) ∧ (¬ r.Short → decode r.encode = none) := by
  constructor
  · intro short
    unfold decode encode
    rw [Item.decode_write (canonical_toItem sized short)]
    exact ofItem_toItem sized
  · intro long
    unfold decode encode
    by_cases few : r.parameters.length ≤ Item.maxElements
    · rw [decode_required sized few (Nat.lt_of_not_le fun few' => long ⟨few, few'⟩)]
      rfl
    · rw [decode_parameters sized (Nat.lt_of_not_le few)]
      rfl

end

end Service.CompileRequest

end Terrain
