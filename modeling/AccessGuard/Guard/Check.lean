import AccessGuard.Guard.Event
import AccessGuard.Requirement

/-!
# Checking requirements

A list is checked as a collection: the subject sees the distinct projections of its elements,
and elements whose projection it takes away are removed. Any other value is checked as it is:
the subject is asked about every leaf that the selector leads to, and nothing is changed.

* `checkCollection`: one requirement on a list. Only values that were projected may survive,
  whatever the subject leaves in the set.
* `checkScalar`: one requirement on a value that is no list.
* `check`: requirements in turn, up to the first failure.
-/

namespace AccessGuard

/-- The result of a step together with its effects, in order, and the state after it. -/
structure Run (τ α : Type) where
  result : α
  effects : List Effect
  state : τ

/-- A checked value: the verdict, and the value as it is afterwards, also after a failure. -/
structure Checked (α : Type) where
  verdict : Except GuardError Unit
  value : α

variable {τ : Type}

/-- Asks about one value after the other, up to the first refusal. -/
def askEach (subject : Subject τ) (p : Permission) : List Value → τ → Run τ (Except Denial Unit)
  | [], state => ⟨.ok (), [], state⟩
  | v :: vs, state =>
    let answer := subject.judge p v state
    let effects := answer.notices.map .noticed ++ [.judged p v answer.verdict.isOk]
    match answer.verdict with
    | .error d => ⟨.error d, effects, answer.state⟩
    | .ok _ =>
      let rest := askEach subject p vs answer.state
      { rest with effects := effects ++ rest.effects }

/-- One requirement on a value that is no list. Where the selector fails nothing is asked. -/
def checkScalar (subject : Subject τ) (r : Requirement) (v : Value) (state : τ) :
    Run τ (Except GuardError Unit) :=
  match r.selector.evaluate (r.selector.bind v) with
  | .error e => ⟨.error (.evaluation e), [], state⟩
  | .ok vs =>
    let answers := askEach subject r.permission vs state
    { answers with result := answers.result.mapError .denied }

/-- One requirement on a list: the subject narrows the set of projections, and the elements whose
projection is gone are removed. After a failure the list is as it was. -/
def checkCollection (subject : Subject τ) (r : Requirement) (items : List Value) (state : τ) :
    Run τ (Checked (List Value)) :=
  match r.selector.project items with
  | .error e => ⟨⟨.error (.evaluation e), items⟩, [], state⟩
  | .ok projected =>
    let answer := subject.narrow r.permission projected state
    let effects := answer.notices.map .noticed ++
      [.narrowed r.permission projected answer.left answer.verdict.isOk]
    match answer.verdict with
    | .error d => ⟨⟨.error (.denied d), items⟩, effects, answer.state⟩
    | .ok _ =>
      let kept := answer.left.retain projected.contains
      -- a subset of the same size is the whole set
      if kept.size = projected.size then ⟨⟨.ok (), items⟩, effects, answer.state⟩
      else
        match r.selector.filter items kept with
        | .error e => ⟨⟨.error (.evaluation e), items⟩, effects, answer.state⟩
        | .ok rest =>
          let event := .collectionNarrowed r.permission.text projected.size kept.size
            (items.length - rest.length)
          ⟨⟨.ok (), rest⟩, effects ++ [.logged event], answer.state⟩

/-- One requirement. Lists are narrowed; other values are only asked about. -/
def checkOne (subject : Subject τ) (r : Requirement) (v : Value) (state : τ) :
    Run τ (Checked Value) :=
  match v with
  | .list items =>
    let run := checkCollection subject r items state
    { run with result := ⟨run.result.verdict, .list run.result.value⟩ }
  | v =>
    let run := checkScalar subject r v state
    { run with result := ⟨run.result, v⟩ }

/-- The failure of a requirement is logged with the method it was declared for. -/
def check (subject : Subject τ) (method : String) :
    List Requirement → Value → τ → Run τ (Checked Value)
  | [], v, state => ⟨⟨.ok (), v⟩, [], state⟩
  | r :: rs, v, state =>
    let first := checkOne subject r v state
    match first.result.verdict with
    | .error e =>
      { first with
        effects := first.effects ++ [.logged (.checkFailed method r.permission.text e)] }
    | .ok _ =>
      let rest := check subject method rs first.result.value first.state
      { rest with effects := first.effects ++ rest.effects }

end AccessGuard
