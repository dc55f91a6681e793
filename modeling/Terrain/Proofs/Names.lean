import Terrain.Proofs.View

/-!
# Generated names tell what they name

Every generated name ends in a number that no other name has had, and the text of a symbol tells
the symbol, but for one thing: a slot of a rotation and a slot of no shape print alike.

* `numbered_inj`       names of one stem and different numbers differ;
* `Shape.solid`        a shape as far as the text of a symbol tells it;
* `text_inj`           symbols of one text are the same up to that.
-/

namespace Terrain

open List

def Shape.solid : Shape → Shape
  | .undefined _ => .rotation
  | s => s

theorem Shape.solid_of_isDefined {s : Shape} (h : s.isDefined = true) : s.solid = s := by
  cases s with
  | undefined c => cases h
  | _ => rfl

namespace Kernel

/-! ## numbers -/

theorem digits_inj {m n : Nat} (h : (toString m).toList = (toString n).toList) : m = n := by
  have digits : Nat.toDigits 10 m = Nat.toDigits 10 n := by
    simpa only [Nat.toString_eq_repr, Nat.toList_repr] using h
  have := congrArg (fun ds => Nat.ofDigitChars 10 ds 0) digits
  simpa using this

theorem numbered_inj {stem : String} {m n : Nat} (h : stem ++ toString m = stem ++ toString n) :
    m = n := by
  have lists := congrArg String.toList h
  rw [String.toList_append, String.toList_append] at lists
  exact digits_inj (append_cancel_left lists)

theorem isDigit_of_mem {n : Nat} {x : Char} (h : x ∈ (toString n).toList) : x.isDigit = true := by
  rw [Nat.toString_eq_repr, Nat.toList_repr] at h
  exact Nat.isDigit_of_mem_toDigits (by decide) (by decide) h

theorem ending_inj {stem stem' : String} {m n : Nat}
    (h : stem ++ "_" ++ toString m = stem' ++ "_" ++ toString n) : m = n := by
  have ending (stem : String) (k : Nat) :
      (stem ++ "_" ++ toString k).toList.reverse.takeWhile Char.isDigit =
        (toString k).toList.reverse := by
    rw [String.toList_append, String.toList_append, reverse_append, reverse_append,
      takeWhile_append_of_pos fun x h => isDigit_of_mem (mem_reverse.1 h)]
    exact append_nil _
  have same := congrArg (fun s : String => s.toList.reverse.takeWhile Char.isDigit) h
  simp only [ending] at same
  exact digits_inj (reverse_inj.1 same)

theorem ofDigitChars_toString (n : Nat) : Nat.ofDigitChars 10 (toString n).toList 0 = n := by
  rw [Nat.toString_eq_repr, Nat.toList_repr, Nat.ofDigitChars_ten_toDigits]

/-! ## symbols -/

/-- slots as far as their text tells them -/
def solidSlot : SlotMap := fun p => (p.1, p.2.solid)

/-- what may hold the value of a node of a dispatch -/
inductive Symbol.IsValue : Symbol → Prop
  | position : IsValue (.var .position)
  | bound (n : Nat) : IsValue (.var (.bound n))
  | result (n : Nat) : IsValue (.var (.result n))
  | param (slot : Nat) (shape : Shape) : IsValue (.param slot shape)

/-- the shape that the text behind the number of a slot tells -/
def slotShape (tail : List Char) : Shape :=
  if tail = "].x".toList then .float
  else if tail = "].xy".toList then .vec2
  else if tail = "].xyz".toList then .vec3
  else .rotation

/-- a slot, from the text that starts with its number -/
def readSlot (shape : List Char → Shape) (text : List Char) : Symbol :=
  .param (Nat.ofDigitChars 10 (text.takeWhile Char.isDigit) 0) (shape (text.dropWhile Char.isDigit))

def readSymbol : List Char → Symbol
  | 'v' :: '_' :: digits => .var (.bound (Nat.ofDigitChars 10 digits 0))
  | 't' :: '_' :: digits => .var (.result (Nat.ofDigitChars 10 digits 0))
  | 'p' :: 'a' :: text => readSlot slotShape (text.drop 5)
  | 'i' :: text => readSlot (fun _ => .int) (text.drop 10)
  | '(' :: text => readSlot (fun _ => .bool) (text.drop 7)
  | _ => .var .position

theorem readSlot_digits (shape : List Char → Shape) (k : Nat) (tail : List Char) :
    readSlot shape ((toString k).toList ++ ']' :: tail) = .param k (shape (']' :: tail)) := by
  have digits : ∀ x ∈ (toString k).toList, x.isDigit = true := fun _ h => isDigit_of_mem h
  have number : ((toString k).toList ++ ']' :: tail).takeWhile Char.isDigit =
      (toString k).toList := by
    rw [takeWhile_append_of_pos digits]
    simp
  have rest : ((toString k).toList ++ ']' :: tail).dropWhile Char.isDigit = ']' :: tail := by
    rw [dropWhile_append_of_pos digits]
    rfl
  unfold readSlot
  rw [number, rest, ofDigitChars_toString]

theorem toList_numbered (a b : String) (k : Nat) :
    (a ++ toString k ++ b).toList = a.toList ++ ((toString k).toList ++ b.toList) := by
  rw [String.toList_append, String.toList_append, append_assoc]

theorem readSymbol_text {s : Symbol} (h : s.IsValue) :
    readSymbol s.text.toList = s.relabel solidSlot := by
  cases h with
  | position => rfl
  | bound n =>
    show readSymbol ("v_" ++ toString n).toList = _
    rw [String.toList_append]
    exact congrArg (fun k => Symbol.var (.bound k)) (ofDigitChars_toString n)
  | result n =>
    show readSymbol ("t_" ++ toString n).toList = _
    rw [String.toList_append]
    exact congrArg (fun k => Symbol.var (.result k)) (ofDigitChars_toString n)
  | param slot shape =>
    have whole (a b : String) (f : List Char → Shape) (tail : List Char)
        (reads : ∀ text, readSymbol (a.toList ++ text) = readSlot f text)
        (closes : b.toList = ']' :: tail) :
        readSymbol (a ++ toString slot ++ b).toList = .param slot (f b.toList) := by
      rw [toList_numbered, reads, closes, readSlot_digits]
    cases shape with
    | float => exact whole "params[" "].x" slotShape ['.', 'x'] (fun _ => rfl) rfl
    | vec2 => exact whole "params[" "].xy" slotShape ['.', 'x', 'y'] (fun _ => rfl) rfl
    | vec3 => exact whole "params[" "].xyz" slotShape ['.', 'x', 'y', 'z'] (fun _ => rfl) rfl
    | int => exact whole "i32(params[" "].x)" (fun _ => .int) _ (fun _ => rfl) rfl
    | bool => exact whole "(params[" "].x != 0.0)" (fun _ => .bool) _ (fun _ => rfl) rfl
    | rotation | undefined c => exact whole "params[" "]" slotShape [] (fun _ => rfl) rfl

theorem text_inj {s t : Symbol} (hs : s.IsValue) (ht : t.IsValue) (h : s.text = t.text) :
    s.relabel solidSlot = t.relabel solidSlot := by
  rw [← readSymbol_text hs, h, readSymbol_text ht]

end Kernel
end Terrain
