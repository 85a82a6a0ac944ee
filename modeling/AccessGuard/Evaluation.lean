import AccessGuard.CandidateSet
import AccessGuard.Selector
import AccessGuard.Table

/-!
# Evaluation of selectors

A selector is evaluated against bindings from identifiers to values. Over a collection it is
evaluated once per element, with the element bound under the selector's own identifier.

* `Selector.evaluate`: the leaves of the value that a selector leads to.
* `Selector.project`: the distinct projections of a collection.
* `Selector.filterInPlace`, `Selector.filter`: the elements whose projection is retained.
-/

namespace AccessGuard

/-- The values that identifiers stand for. -/
abbrev Bindings := Table String Value

/-- Keeps the elements whose flag is set, flag after flag. An element without a flag goes. -/
def keepFlagged : List Value → List Bool → List Value
  | v :: vs, flag :: flags => if flag then v :: keepFlagged vs flags else keepFlagged vs flags
  | _, _ => []

/-- A collection after it was filtered in place, with the number of elements that are gone or the
reason why it could not be filtered. -/
structure Filtered where
  removed : Except EvaluationError Nat
  items : List Value

namespace Selector

/-- One value, bound under the selector's identifier. -/
def bind (s : Selector) (v : Value) : Bindings := Table.empty.insert s.binding v

/-- The value that a selector leads to from what is bound under its identifier. -/
def resolveIn (s : Selector) (bindings : Bindings) : Except EvaluationError Value :=
  match bindings.get? s.binding with
  | none => .error ⟨s.text, .unbound s.binding⟩
  | some v => s.resolve v

@[simp] theorem resolveIn_bind (s : Selector) (v : Value) :
    s.resolveIn (s.bind v) = s.resolve v := by
  simp [resolveIn, bind, Table.get?_insert]

/-- A list is opened down to its leaves. -/
def evaluate (s : Selector) (bindings : Bindings) : Except EvaluationError (List Value) :=
  (s.resolveIn bindings).map Value.leaves

/-- The projection of every element, or the error of the first that has none. -/
def projections (s : Selector) : List Value → Except EvaluationError (List Value)
  | [] => .ok []
  | v :: vs =>
    match s.resolveIn (s.bind v) with
    | .error e => .error e
    | .ok w => (projections s vs).map (w :: ·)

/-- The distinct projections of a collection, if every element has one. -/
def project (s : Selector) (items : List Value) : Except EvaluationError CandidateSet :=
  (s.projections items).map CandidateSet.ofList

/-- Of every element, whether its projection is retained. -/
def flags (s : Selector) (retained : CandidateSet) (items : List Value) :
    Except EvaluationError (List Bool) :=
  (s.projections items).map fun ws => ws.map retained.contains

/-- All projections are computed before anything is removed, so an error leaves no part of the
collection filtered. -/
def filterInPlace (s : Selector) (items : List Value) (retained : CandidateSet) : Filtered :=
  match s.flags retained items with
  | .error e => ⟨.error e, items⟩
  | .ok flags =>
    let left := keepFlagged items flags
    ⟨.ok (items.length - left.length), left⟩

/-- What filtering in place leaves of a collection. -/
def filter (s : Selector) (items : List Value) (retained : CandidateSet) :
    Except EvaluationError (List Value) :=
  let filtered := s.filterInPlace items retained
  filtered.removed.map fun _ => filtered.items

end Selector

end AccessGuard
