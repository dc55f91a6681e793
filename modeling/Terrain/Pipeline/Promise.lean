/-!
# Promises

The pending result of a transfer.  Its producer settles it once; later settlements change nothing.
-/

namespace Terrain.Pipeline

structure Promise (α : Type) where
  settled : Option (Except String α)

namespace Promise

variable {α : Type}

def pending : Promise α := ⟨none⟩

def resolve (p : Promise α) (result : Except String α) : Promise α :=
  ⟨some (p.settled.getD result)⟩

def poll (p : Promise α) : Except String α :=
  p.settled.getD (.error "context canceled")

theorem resolve_resolve (p : Promise α) (a b : Except String α) :
    (p.resolve a).resolve b = p.resolve a := by
  simp [resolve]

end Promise
end Terrain.Pipeline
