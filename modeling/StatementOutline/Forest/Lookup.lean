import StatementOutline.Forest
import StatementOutline.Search

/-!
# Looking up a position

The innermost statement that owns a byte is found level by level: among siblings, which are in
order, only the last one that starts at or before the byte can own it.
-/

namespace StatementOutline.Forest

/-- The sibling that owns a byte. -/
def ownerAmong? (f : Forest) (byte : Nat) (level : Array Nat) : Option Nat :=
  match partitionPoint (fun id => (f.span? id).any fun s => decide (s.start ≤ byte)) level with
  | 0 => none
  | n + 1 => level[n]?.filter fun id => (f.span? id).any fun s => decide (byte < s.stop)

/-- Goes down from a level as far as some statement owns the byte, at most as many levels as the
first argument says. -/
def descend (f : Forest) (byte : Nat) : Nat → Array Nat → Option Nat → Option Nat
  | 0, _, found => found
  | levels + 1, level, found =>
    match f.ownerAmong? byte level with
    | none => found
    | some id => f.descend byte levels (f.childrenOf (some id)) (some id)

/-- The innermost statement that owns a byte. A forest has no more levels than statements. -/
def innermost? (f : Forest) (byte : Nat) : Option Nat :=
  f.descend byte f.size f.roots none

end StatementOutline.Forest
