import Terrain.Artifact.Wire
import Terrain.Proofs.Canonical
import Terrain.Proofs.Decode
import Terrain.Proofs.Formats

/-!
# Artifacts arrive

What is marshalled and unmarshalled again is the artifact that was sent, but for two things: a list
of buffers or parameters that is empty arrives as an absent one, and every NaN as the quiet one.

* `Artifact.normal`           the artifact with these two settled;
* `Artifact.Sendable`         numbers and lists are no larger than their fields;
* `canonical_toItem`          a sendable artifact is written as it is;
* `ofItem_toItem`             its item is read as its normal form;
* `marshal_normal`            artifacts are sent alike if their normal forms are equal, and arrive.
-/

namespace Terrain

open Cbor Number List

variable {α β : Type} {xs : List α} {g : α → β} {form : α → Item} {a : Artifact} {depth : Nat}

/-! ## normal forms -/

/-- every NaN is the quiet one -/
def Number.Single.normal (x : Single) : Single := if x.isNaN then ⟨0x7fc00000⟩ else x

def Lanes.normal (l : Lanes) : Lanes := ⟨l.x.normal, l.y.normal, l.z.normal, l.w.normal⟩

def Value.normal (v : Value) : Value := { v with lanes := v.lanes.normal }

def Parameter.normal (p : Parameter) : Parameter := { p with value := p.value.normal }

/-- an empty list is absent -/
def someList {α : Type} : Option (List α) → Option (List α)
  | some (x :: xs) => some (x :: xs)
  | _ => none

def Artifact.normal (a : Artifact) : Artifact where
  digest := a.digest
  source := a.source
  workgroup := a.workgroup
  dispatches := a.dispatches
  buffers := someList a.buffers
  parameters := (someList a.parameters).map (List.map Parameter.normal)

/-! ## what fits -/

/-- a number of a signed word -/
def IsWord (n : Int) : Prop := -2 ^ 63 ≤ n ∧ n < 2 ^ 63

/-- the length of a text is a word -/
def IsSized (s : String) : Prop := s.utf8ByteSize < 2 ^ 63

instance (n : Int) : Decidable (IsWord n) := inferInstanceAs (Decidable (_ ∧ _))
instance (s : String) : Decidable (IsSized s) := inferInstanceAs (Decidable (_ < _))

def AreSized (names : List String) : Prop :=
  names.length ≤ Item.maxElements ∧ ∀ name ∈ names, IsSized name

structure Dispatch.Sendable (d : Dispatch) : Prop where
  name : IsSized d.name
  depth : IsWord d.depth
  reduction : IsWord d.reduction
  outputs : ∀ names, d.outputs = some names → AreSized names
  buffers : ∀ names, d.buffers = some names → AreSized names

structure Buffer.Sendable (b : Buffer) : Prop where
  name : IsSized b.name
  symbol : IsSized b.symbol
  group : IsWord b.group
  binding : IsWord b.binding
  reduction : IsWord b.reduction
  dispatch : IsSized b.dispatch

structure Parameter.Sendable (p : Parameter) : Prop where
  slot : IsWord p.slot
  name : IsSized p.name

structure Artifact.Sendable (a : Artifact) : Prop where
  checked : a.check = .ok ()
  source : IsSized a.source
  workgroup : IsWord a.workgroup
  dispatches : a.dispatches.length ≤ Item.maxElements ∧ ∀ d ∈ a.dispatches, d.Sendable
  buffers : ∀ bs, a.buffers = some bs → bs.length ≤ Item.maxElements ∧ ∀ b ∈ bs, b.Sendable
  parameters : ∀ ps, a.parameters = some ps → ps.length ≤ Item.maxElements ∧ ∀ p ∈ ps, p.Sendable

/-! ## fields -/

namespace Cbor.Item

theorem toText_ofText (s : String) : (ofText s).toText = some s := by
  show ([s.toUTF8.toList].mapM fun p => String.fromUTF8? (ByteArray.mk p.toArray)).bind
    (fun parts => some (String.join parts)) = some s
  rw [mapM_cons, Hash.Token.fromUTF8?_toUTF8]
  show some ("" ++ s) = some s
  rw [String.empty_append]

theorem toWord_ofInt {n : Int} (h : IsWord n) : (ofInt n).toWord = some n := by
  obtain ⟨low, high⟩ := h
  have range : -2 ^ 63 ≤ n ∧ n ≤ 2 ^ 63 - 1 := ⟨low, by omega⟩
  cases n with
  | ofNat n => exact if_pos range
  | negSucc n =>
    have number : -1 - (n : Int) = Int.negSucc n := by omega
    show (if -2 ^ 63 ≤ -1 - (n : Int) ∧ -1 - (n : Int) ≤ 2 ^ 63 - 1 then
      some (-1 - (n : Int)) else none) = _
    rw [number, if_pos range]

theorem toByte_unsigned (b : UInt8) : (unsigned b.toNat).toByte = some b := by
  have small := b.toNat_lt
  have range : (0 : Int) ≤ b.toNat ∧ (b.toNat : Int) ≤ 255 := by omega
  show (if (0 : Int) ≤ b.toNat ∧ (b.toNat : Int) ≤ 255 then some (b.toNat : Int) else none).map
    UInt8.ofInt = _
  rw [if_pos range]
  show some (UInt8.ofNat ((b.toNat : Int) % 2 ^ 8).toNat) = some b
  have whole : ((b.toNat : Int) % 2 ^ 8).toNat = b.toNat := by omega
  rw [whole, UInt8.ofNat_toNat]

theorem toBool_ofBool (b : Bool) : (ofBool b).toBool = some b := by
  cases b <;> rfl

theorem toSingle_ofSingle (x : Single) : (ofSingle x).toSingle = some x.normal := by
  have fits (bits : Nat) : (Format.binary16.unpack bits).overflowsSingle = false :=
    overflowsSingle_unpack (by decide) (by decide) (by decide) bits
  have fits' (bits : Nat) : (Format.binary32.unpack bits).overflowsSingle = false :=
    overflowsSingle_unpack (by decide) (by decide) (by decide) bits
  unfold ofSingle Single.normal
  cases nan : x.isNaN with
  | true =>
    rw [if_pos rfl, if_pos rfl]
    decide
  | false =>
    dsimp only
    rw [if_neg Bool.false_ne_true, if_neg Bool.false_ne_true]
    split
    · next exact =>
      have small : Format.convert .binary32 .binary16 x.bits.toNat < 2 ^ 16 :=
        Format.pack_lt (by decide) _
      have half : (Format.convert .binary32 .binary16 x.bits.toNat).toUInt16.toNat =
          Format.convert .binary32 .binary16 x.bits.toNat := Nat.mod_eq_of_lt small
      show singleOf (Format.binary16.unpack (UInt16.toNat _)) = some x
      rw [half]
      unfold singleOf
      rw [fits, if_neg Bool.false_ne_true]
      show some (Single.mk (Format.convert .binary16 .binary32 _).toUInt32) = some x
      rw [exact, Nat.toUInt32_eq, UInt32.ofNat_toNat]
    · have number : Format.binary32.unpack x.bits.toNat ≠ .nan := by
        intro eq
        unfold Single.isNaN Single.datum at nan
        rw [eq] at nan
        cases nan
      show singleOf (Format.binary32.unpack x.bits.toNat) = some x
      unfold singleOf
      rw [fits', if_neg Bool.false_ne_true]
      show some (Single.mk (Format.binary32.pack (Format.binary32.unpack x.bits.toNat)).toUInt32) =
        some x
      rw [Format.pack_unpack x.bits.toNat_lt number, Nat.toUInt32_eq, UInt32.ofNat_toNat]

theorem mapM_map {ι : Type} {one : ι → Option β} {form : α → ι}
    (h : ∀ x ∈ xs, one (form x) = some (g x)) : (xs.map form).mapM one = some (xs.map g) := by
  induction xs with
  | nil => rfl
  | cons x xs ih =>
    rw [map_cons, mapM_cons, h x (.head _),
      ih fun x member => h x (.tail _ member)]
    rfl

theorem toList_array {one : Item → Option β} (h : ∀ x ∈ xs, one (form x) = some (g x)) :
    (array (xs.map form)).toList one = some (some (xs.map g)) := by
  show ((xs.map form).mapM one).map some = _
  rw [mapM_map h]
  rfl

theorem toList_namesItem (names : Option (List String)) :
    (namesItem names).toList toText = some names := by
  cases names with
  | none => rfl
  | some names =>
    have each : ∀ name ∈ names, (ofText name).toText = some (id name) :=
      fun name _ => toText_ofText name
    have read := toList_array each
    rwa [map_id] at read

end Cbor.Item

/-! ## records -/

theorem Value.ofItem_toItem (v : Value) : Value.ofItem v.toItem = some v.normal := by
  have lanes : (Item.array (v.lanes.toList.map Item.ofSingle)).toFixed 4 Item.toSingle =
      some (v.lanes.toList.map Single.normal) := by
    show (v.lanes.toList.map Item.ofSingle).mapM Item.toSingle = _
    exact Item.mapM_map fun x _ => Item.toSingle_ofSingle x
  show ((Item.unsigned v.shape.code.toNat).toByte.bind fun shape =>
    ((Item.array (v.lanes.toList.map Item.ofSingle)).toFixed 4 Item.toSingle).bind fun lanes =>
      some (Value.mk (.ofCode shape) (.ofList lanes))) = _
  rw [Item.toByte_unsigned, lanes]
  show some (Value.mk (.ofCode v.shape.code) v.lanes.normal) = _
  rw [Shape.ofCode_code]
  rfl

theorem Dispatch.ofItem_toItem {d : Dispatch} (h : d.Sendable) :
    Dispatch.ofItem d.toItem = some d := by
  show ((Item.ofText d.name).toText.bind fun name => (Item.ofInt d.depth).toWord.bind fun depth =>
    (Item.unsigned d.dims.count.toNat).toByte.bind fun dims =>
    (Item.ofInt d.reduction).toWord.bind fun reduction =>
    ((namesItem d.outputs).toList Item.toText).bind fun outputs =>
    ((namesItem d.buffers).toList Item.toText).bind fun buffers =>
      some (Dispatch.mk name depth ⟨dims⟩ reduction outputs buffers)) = _
  rw [Item.toText_ofText, Item.toWord_ofInt h.depth, Item.toByte_unsigned,
    Item.toWord_ofInt h.reduction, Item.toList_namesItem, Item.toList_namesItem]
  rfl

theorem Buffer.ofItem_toItem {b : Buffer} (h : b.Sendable) : Buffer.ofItem b.toItem = some b := by
  show ((Item.ofText b.name).toText.bind fun name =>
    (Item.ofText b.symbol).toText.bind fun symbol =>
    (Item.ofInt b.group).toWord.bind fun group => (Item.ofInt b.binding).toWord.bind fun binding =>
    (Item.unsigned b.shape.code.toNat).toByte.bind fun shape =>
    (Item.unsigned b.dims.count.toNat).toByte.bind fun dims =>
    (Item.ofInt b.reduction).toWord.bind fun reduction =>
    (Item.ofText b.dispatch).toText.bind fun dispatch =>
      some (Buffer.mk name symbol group binding (.ofCode shape) ⟨dims⟩ reduction dispatch)) = _
  rw [Item.toText_ofText, Item.toText_ofText, Item.toWord_ofInt h.group,
    Item.toWord_ofInt h.binding, Item.toByte_unsigned, Item.toByte_unsigned,
    Item.toWord_ofInt h.reduction, Item.toText_ofText]
  show some (Buffer.mk _ _ _ _ (.ofCode b.shape.code) _ _ _) = _
  rw [Shape.ofCode_code]

theorem Parameter.ofItem_toItem {p : Parameter} (h : p.Sendable) :
    Parameter.ofItem p.toItem = some p.normal := by
  have read : Parameter.ofItem p.toItem =
      ((Item.ofInt p.slot).toWord.bind fun slot => (Item.ofText p.name).toText.bind fun name =>
        (Item.unsigned p.shape.code.toNat).toByte.bind fun shape =>
        (Value.ofItem p.value.toItem).bind fun value =>
          (Item.ofBool p.injected).toBool.bind fun injected =>
          some (Parameter.mk slot name (.ofCode shape) value injected)) := by
    -- an empty name and a flag that is not set are left out, and read as what they are
    unfold Parameter.toItem
    cases empty : p.name.isEmpty with
    | false => cases p.injected <;> rfl
    | true =>
      have name : (Item.ofText p.name).toText = Item.null.toText := by
        rw [Item.toText_ofText, String.isEmpty_iff.1 empty]
        rfl
      rw [name]
      cases p.injected <;> rfl
  rw [read, Item.toWord_ofInt h.slot, Item.toText_ofText, Item.toByte_unsigned, Value.ofItem_toItem,
    Item.toBool_ofBool]
  show some (Parameter.mk _ _ (.ofCode p.shape.code) _ _) = _
  rw [Shape.ofCode_code]
  rfl

/-- the field of a list that is left out when it is empty -/
def someItem {α : Type} (form : α → Item) (xs : Option (List α)) : Item :=
  (someList xs).elim Item.null fun xs => .array (xs.map form)

theorem toList_someItem {one : Item → Option β}
    {xs : Option (List α)} (h : ∀ ys, xs = some ys → ∀ x ∈ ys, one (form x) = some (g x)) :
    (someItem form xs).toList one = some ((someList xs).map (List.map g)) := by
  rcases xs with _ | _ | ⟨x, xs⟩
  · rfl
  · rfl
  · exact Item.toList_array (h _ rfl)

theorem digest_ofBytes (d : Hash.Digest) : Hash.Digest.ofBytes (d.bytes.take 32) = d := by
  have whole : d.bytes.take 32 = d.bytes := take_of_length_le d.length_bytes.le
  have same : (d.bytes ++ List.replicate 32 0).take 32 = d.bytes := take_left' d.length_bytes
  unfold Hash.Digest.ofBytes
  simp only [whole, same]

theorem Artifact.ofItem_toItem (h : a.Sendable) : Artifact.ofItem a.toItem = some a.normal := by
  have read : Artifact.ofItem a.toItem =
      (((Item.bytes a.digest.bytes).toByteField 32).bind fun digest =>
        (Item.ofText a.source).toText.bind fun source =>
          (Item.ofInt a.workgroup).toWord.bind fun workgroup =>
        ((Item.array (a.dispatches.map Dispatch.toItem)).toList Dispatch.ofItem).bind
          fun dispatches =>
        ((someItem Buffer.toItem a.buffers).toList Buffer.ofItem).bind fun buffers =>
        ((someItem Parameter.toItem a.parameters).toList Parameter.ofItem).bind fun parameters =>
          some (Artifact.mk (.ofBytes digest) source workgroup (dispatches.getD []) buffers
              parameters)) := by
    unfold Artifact.toItem
    rcases a.buffers with _ | _ | ⟨b, bs⟩ <;> rcases a.parameters with _ | _ | ⟨p, ps⟩ <;> rfl
  have dispatches : (Item.array (a.dispatches.map Dispatch.toItem)).toList Dispatch.ofItem =
      some (some (a.dispatches.map id)) :=
    Item.toList_array fun d member => Dispatch.ofItem_toItem (h.dispatches.2 d member)
  have buffers : (someItem Buffer.toItem a.buffers).toList Buffer.ofItem =
      some ((someList a.buffers).map (List.map id)) :=
    toList_someItem fun bs eq b member => Buffer.ofItem_toItem ((h.buffers bs eq).2 b member)
  have parameters : (someItem Parameter.toItem a.parameters).toList Parameter.ofItem =
      some ((someList a.parameters).map (List.map Parameter.normal)) :=
    toList_someItem fun ps eq p member => Parameter.ofItem_toItem ((h.parameters ps eq).2 p member)
  rw [read, Item.toText_ofText, Item.toWord_ofInt h.workgroup, dispatches, buffers, parameters]
  show some (Artifact.mk (.ofBytes (a.digest.bytes.take 32)) _ _ (a.dispatches.map id)
    ((someList a.buffers).map (List.map id)) _) = _
  rw [digest_ofBytes, map_id, map_id_fun, Option.map_id]
  rfl

/-! ## items -/

theorem canonical_ofText {s : String} (h : IsSized s) : Item.Canonical depth (.ofText s) := by
  refine .text ?_
  rw [Hash.Token.length_toUTF8]
  exact h.trans (by decide)

theorem canonical_ofInt {n : Int} (h : IsWord n) : Item.Canonical depth (.ofInt n) := by
  obtain ⟨low, high⟩ := h
  cases n with
  | ofNat n =>
    have high : (n : Int) < 2 ^ 63 := high
    exact .unsigned (by omega)
  | negSucc n => exact .negative (by omega)

theorem canonical_byte (b : UInt8) : Item.Canonical depth (.unsigned b.toNat) :=
  .unsigned (b.toNat_lt.trans (by decide))

theorem canonical_ofSingle (x : Single) : Item.Canonical depth (.ofSingle x) := by
  unfold Item.ofSingle
  dsimp only
  split
  · exact .float16 _
  · split
    · exact .float16 _
    · exact .float32 _

theorem canonical_list
    (short : xs.length ≤ Item.maxElements) (each : ∀ x ∈ xs, Item.Canonical depth (form x)) :
    Item.Canonical (depth + 1) (.array (xs.map form)) := by
  refine .array ((length_map form).trans_le short) fun i member => ?_
  obtain ⟨x, there, rfl⟩ := mem_map.1 member
  exact each x there

theorem canonical_namesItem {names : Option (List String)}
    (h : ∀ ns, names = some ns → AreSized ns) : Item.Canonical (depth + 1) (namesItem names) := by
  cases names with
  | none => exact .simple (by decide)
  | some ns =>
    exact canonical_list (h ns rfl).1 fun name member => canonical_ofText ((h ns rfl).2 name member)

def IsField (depth : Nat) (field : Item × Item) : Prop :=
  (∃ n < 9, field.1 = .unsigned n) ∧ Item.Canonical depth field.2

theorem isField (n : Fin 9) {i : Item} (h : Item.Canonical depth i) :
    IsField depth (.unsigned n, i) := ⟨⟨n, n.isLt, rfl⟩, h⟩

theorem canonical_record {fields : List (Item × Item)} (few : fields.length ≤ 8)
    (each : ∀ field ∈ fields, IsField depth field) : Item.Canonical (depth + 1) (.map fields) := by
  refine .map (few.trans (by decide)) (fun field member => ?_) fun field member =>
    (each field member).2
  obtain ⟨⟨n, small, key⟩, -⟩ := each field member
  rw [key]
  exact .unsigned (small.trans (by decide))

theorem Value.canonical_toItem (v : Value) : Item.Canonical (depth + 2) v.toItem := by
  refine canonical_record (Nat.le_of_ble_eq_true rfl) ?_
  simp only [forall_mem_cons]
  exact ⟨isField 1 (canonical_byte _),
    isField 2 (canonical_list (Nat.le_of_ble_eq_true rfl) fun x _ => canonical_ofSingle x), nofun⟩

theorem Dispatch.canonical_toItem {d : Dispatch} (h : d.Sendable) :
    Item.Canonical (depth + 2) d.toItem := by
  refine canonical_record (Nat.le_of_ble_eq_true rfl) ?_
  simp only [forall_mem_cons]
  exact ⟨isField 1 (canonical_ofText h.name), isField 2 (canonical_ofInt h.depth),
    isField 3 (canonical_byte _), isField 4 (canonical_ofInt h.reduction),
    isField 5 (canonical_namesItem h.outputs), isField 6 (canonical_namesItem h.buffers), nofun⟩

theorem Buffer.canonical_toItem {b : Buffer} (h : b.Sendable) :
    Item.Canonical (depth + 1) b.toItem := by
  refine canonical_record (Nat.le_of_ble_eq_true rfl) ?_
  simp only [forall_mem_cons]
  exact ⟨isField 1 (canonical_ofText h.name), isField 2 (canonical_ofText h.symbol),
    isField 3 (canonical_ofInt h.group), isField 4 (canonical_ofInt h.binding),
    isField 5 (canonical_byte _), isField 6 (canonical_byte _),
    isField 7 (canonical_ofInt h.reduction), isField 8 (canonical_ofText h.dispatch), nofun⟩

theorem Parameter.canonical_toItem {p : Parameter} (h : p.Sendable) :
    Item.Canonical (depth + 3) p.toItem := by
  refine canonical_record ?_ ?_
  · split <;> split <;> exact Nat.le_of_ble_eq_true rfl
  · simp only [forall_mem_append, forall_mem_cons]
    refine ⟨⟨⟨⟨isField 1 (canonical_ofInt h.slot), nofun⟩, ?_⟩, isField 3 (canonical_byte _),
      isField 4 (Value.canonical_toItem p.value), nofun⟩, ?_⟩
    · split
      · exact nofun
      · exact forall_mem_singleton.2 (isField 2 (canonical_ofText h.name))
    · split
      · exact forall_mem_singleton.2 (isField 5 (.simple (by decide)))
      · exact nofun

theorem isField_listField {n : Nat} (small : n < 9) {xs : Option (List α)}
    (h : ∀ ys, xs = some ys → ys.length ≤ Item.maxElements ∧
      ∀ x ∈ ys, Item.Canonical depth (form x)) :
    ∀ field ∈ listField n ((xs.getD []).map form), IsField (depth + 1) field := by
  unfold listField
  split
  · exact nofun
  · refine forall_mem_singleton.2 ⟨⟨n, small, rfl⟩, ?_⟩
    cases xs with
    | none => exact canonical_list (Nat.zero_le _) nofun
    | some ys => exact canonical_list (h ys rfl).1 (h ys rfl).2

theorem length_listField (n : Nat) (items : List Item) : (listField n items).length ≤ 1 := by
  unfold listField
  split
  · exact Nat.zero_le 1
  · exact Nat.le_refl 1

theorem Artifact.canonical_toItem (h : a.Sendable) : Item.Canonical Item.maxDepth a.toItem := by
  show Item.Canonical (31 + 1) a.toItem
  refine canonical_record ?_ ?_
  · have buffers := length_listField 5 ((a.buffers.getD []).map Buffer.toItem)
    have parameters := length_listField 6 ((a.parameters.getD []).map Parameter.toItem)
    simp only [length_append, length_cons, length_nil]
    omega
  · simp only [forall_mem_append, forall_mem_cons]
    refine ⟨⟨⟨isField 1 (.bytes ?_), isField 2 (canonical_ofText h.source),
      isField 3 (canonical_ofInt h.workgroup), isField 4 ?_, nofun⟩, ?_⟩, ?_⟩
    · rw [a.digest.length_bytes]
      decide
    · exact canonical_list h.dispatches.1 fun d member =>
        Dispatch.canonical_toItem (h.dispatches.2 d member)
    · exact isField_listField (by decide) fun bs eq =>
        ⟨(h.buffers bs eq).1,
          fun b member => Buffer.canonical_toItem ((h.buffers bs eq).2 b member)⟩
    · exact isField_listField (by decide) fun ps eq =>
        ⟨(h.parameters ps eq).1,
          fun p member => Parameter.canonical_toItem ((h.parameters ps eq).2 p member)⟩

/-! ## artifacts that are sent alike -/

theorem ofSingle_normal (x : Single) : Item.ofSingle x.normal = Item.ofSingle x := by
  unfold Single.normal
  cases nan : x.isNaN with
  | true =>
    have quiet : Item.ofSingle ⟨0x7fc00000⟩ = .float16 0x7e00 := if_pos (by decide)
    rw [if_pos rfl, quiet, Item.ofSingle, if_pos nan]
  | false => rfl

theorem Parameter.toItem_normal (p : Parameter) : p.normal.toItem = p.toItem := by
  have value : p.value.normal.toItem = p.value.toItem := by
    show Item.map [(.unsigned 1, .unsigned p.value.shape.code.toNat),
      (.unsigned 2, .array (p.value.lanes.toList.map fun x => Item.ofSingle x.normal))] = _
    simp only [ofSingle_normal]
    rfl
  show Item.map (_ ++ [_, (.unsigned 4, p.value.normal.toItem)] ++ _) = _
  rw [value]
  rfl

theorem getD_someList (xs : Option (List α)) : (someList xs).getD [] = xs.getD [] := by
  rcases xs with _ | _ | ⟨x, xs⟩ <;> rfl

theorem Artifact.toItem_normal (a : Artifact) : a.normal.toItem = a.toItem := by
  have parameters : (a.normal.parameters.getD []).map Parameter.toItem =
      (a.parameters.getD []).map Parameter.toItem := by
    rw [← getD_someList a.parameters]
    show (((someList a.parameters).map (List.map Parameter.normal)).getD []).map _ = _
    cases someList a.parameters with
    | none => rfl
    | some ps =>
      show (ps.map Parameter.normal).map Parameter.toItem = ps.map Parameter.toItem
      rw [map_map]
      exact map_congr_left fun p _ => Parameter.toItem_normal p
  unfold Artifact.toItem
  rw [parameters]
  show Item.map (_ ++ listField 5 (((someList a.buffers).getD []).map Buffer.toItem) ++ _) = _
  rw [getD_someList]
  rfl

theorem Artifact.marshal_eq (checked : a.check = .ok ()) : a.marshal = .ok a.toItem.write := by
  unfold Artifact.marshal
  rw [checked]
  rfl

theorem Artifact.unmarshal_write (h : a.Sendable) :
    Artifact.unmarshal a.toItem.write = .ok a.normal := by
  unfold Artifact.unmarshal
  rw [Item.decode_write (Artifact.canonical_toItem h), Option.bind_some, Artifact.ofItem_toItem h]
  have checked : a.normal.check = .ok () := h.checked
  dsimp only
  rw [checked]
  rfl

/-- **Artifacts arrive.**  What is sent is read as its normal form, and two artifacts are sent alike
if and only if their normal forms are equal. -/
theorem marshal_normal (a b : Artifact) (ha : a.Sendable) (hb : b.Sendable) :
    (∃ bytes, a.marshal = .ok bytes ∧ Artifact.unmarshal bytes = .ok a.normal) ∧
      (a.marshal = b.marshal ↔ a.normal = b.normal) := by
  rw [Artifact.marshal_eq ha.checked, Artifact.marshal_eq hb.checked]
  refine ⟨⟨_, rfl, Artifact.unmarshal_write ha⟩, fun same => ?_, fun same => ?_⟩
  · have arrived := Artifact.unmarshal_write hb
    rw [← Except.ok.inj same, Artifact.unmarshal_write ha] at arrived
    exact Except.ok.inj arrived
  · rw [← Artifact.toItem_normal a, same, Artifact.toItem_normal b]

/-- integers at the ends of their range, an absent and an empty list, a NaN, a half, a subnormal and
an infinity -/
def extremeArtifact (nan : Single) (buffers : Option (List Buffer)) : Artifact :=
  ⟨.ofBytes [1], "fn", -2 ^ 63, [⟨"voxels", 2 ^ 63 - 1, ⟨255⟩, -1, none, some []⟩], buffers,
    some [⟨-25, "", .float, ⟨.rotation, ⟨nan, ⟨0x3f000000⟩, ⟨1⟩, ⟨0xff800000⟩⟩⟩, true⟩]⟩

theorem sendable_extremeArtifact (nan : Single) {buffers : Option (List Buffer)}
    (none : ∀ bs, buffers = some bs → bs = []) : (extremeArtifact nan buffers).Sendable where
  checked := (if_neg (by decide : ¬ (Hash.Digest.ofBytes [1]).isZero = true)).trans rfl
  source := (by decide : IsSized "fn")
  workgroup := (by decide : IsWord (-2 ^ 63))
  dispatches := by
    refine ⟨(by decide : 1 ≤ Item.maxElements), forall_mem_singleton.2 ?_⟩
    refine ⟨(by decide : IsSized "voxels"), (by decide : IsWord (2 ^ 63 - 1)),
      (by decide : IsWord (-1)), nofun, ?_⟩
    rintro names ⟨⟩
    exact ⟨by decide, nofun⟩
  buffers bs eq := by
    rw [none bs eq]
    exact ⟨by decide, fun _ => nofun⟩
  parameters ps eq := by
    cases eq
    refine ⟨(by decide : 1 ≤ Item.maxElements), forall_mem_singleton.2 ?_⟩
    exact ⟨(by decide : IsWord (-25)), (by decide : IsSized "")⟩

/-- a NaN with a payload and an empty list arrive as the quiet NaN and no list; an absent and an
empty list of a dispatch stay as they are -/
theorem marshal_normal_extreme :
    (∃ bytes, (extremeArtifact ⟨0xffc12345⟩ (some [])).marshal = .ok bytes ∧
      Artifact.unmarshal bytes = .ok (extremeArtifact ⟨0x7fc00000⟩ none)) ∧
    (extremeArtifact ⟨0xffc12345⟩ (some [])).marshal =
      (extremeArtifact ⟨0x7f800001⟩ none).marshal := by
  have normal : (extremeArtifact ⟨0xffc12345⟩ (some [])).normal =
      extremeArtifact ⟨0x7fc00000⟩ none := by
    decide
  have normal' : (extremeArtifact ⟨0x7f800001⟩ none).normal =
      extremeArtifact ⟨0x7fc00000⟩ none := by
    decide
  obtain ⟨arrives, alike⟩ := marshal_normal (extremeArtifact ⟨0xffc12345⟩ (some []))
    (extremeArtifact ⟨0x7f800001⟩ none)
    (sendable_extremeArtifact _ fun bs eq => (Option.some.inj eq).symm)
      (sendable_extremeArtifact _ nofun)
  rw [normal] at arrives
  exact ⟨arrives, alike.2 (normal.trans normal'.symm)⟩

end Terrain
