import Std.Data.ExtTreeMap
import VirtualList.Surface.Basic

/-!
# Simulated surfaces

A surface that renders nothing: it remembers which item each key shows and where it was scrolled
to, and measures the items by a rule.
-/

namespace VirtualList

open Std (ExtTreeMap)

variable {κ α : Type} [Scalar α]

/-- What items measure: all of them the same, or in cycles of growing size, with exceptions. -/
structure SizeRule (α : Type) where
  base : Measurement α
  /-- The length of a cycle and by how much each item in it is larger than the one before. -/
  cycle : Option (Nat × α)
  /-- Items with a measurement of their own. -/
  exceptions : List (Nat × Measurement α)

/-- What item `i` measures. -/
def SizeRule.measurement (rule : SizeRule α) (i : Nat) : Measurement α :=
  match rule.exceptions.lookup i, rule.cycle with
  | some m, _ => m
  | none, some (length, growth) =>
    { rule.base with size := rule.base.size + ((i % length : Nat) : α) * growth }
  | none, none => rule.base

/-- The state of a simulated surface. -/
structure Simulated (κ α : Type) [Ord κ] where
  /-- The item that each key shows. -/
  bound : ExtTreeMap κ Nat
  /-- Where the surface was scrolled to last. -/
  offset : α
  sizes : SizeRule α
  /-- The targets are laid out and can be measured. -/
  painted : Bool
  /-- Keys whose targets are not laid out. -/
  hidden : List κ

namespace Simulated

variable [Ord κ] [Std.TransOrd κ] [BEq κ]

/-- A surface that shows nothing yet. -/
def blank (sizes : SizeRule α) : Simulated κ α where
  bound := ∅
  offset := 0
  sizes := sizes
  painted := true
  hidden := []

/-- The measurement of a key's target: there is none if the target is not laid out or the key
shows no item. -/
def measurement? (s : Simulated κ α) (key : κ) : Option (Measurement α) :=
  if s.painted && !s.hidden.contains key then s.bound[key]?.map s.sizes.measurement else none

/-- The operations of simulated surfaces. -/
def surface : Surface (Simulated κ α) κ α where
  bind key i s := { s with bound := s.bound.insert key i }
  release key s := { s with bound := s.bound.erase key }
  place _ _ s := s
  measure key s := (s.measurement? key, s)
  setScrollSize _ s := s
  scrollTo position s := { s with offset := position }

end Simulated

end VirtualList
