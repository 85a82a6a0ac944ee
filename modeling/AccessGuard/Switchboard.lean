import AccessGuard.Config

/-!
# Switchboards

The flags that switch enforcement on and off while a program runs. Whoever holds a toggle may
read and set the flag behind it; copies of a toggle share the flag.

* `Switchboard.isOn_set`: setting a flag is seen through the toggles of that flag alone.
* `Handles`: a row of toggles, some of which share their flag.
-/

namespace AccessGuard

/-- A handle on a flag of a switchboard. -/
structure Toggle where
  index : Nat
deriving DecidableEq, Inhabited

/-- The flags in use, by the order in which they were made. -/
structure Switchboard where
  flags : List Bool
deriving DecidableEq, Inhabited

namespace Switchboard

/-- A new flag and a toggle for it. -/
def add (b : Switchboard) (on : Bool) : Switchboard × Toggle :=
  (⟨b.flags ++ [on]⟩, ⟨b.flags.length⟩)

/-- Without a flag behind the toggle, enforcement is on. -/
def isOn (b : Switchboard) (t : Toggle) : Bool := b.flags[t.index]?.getD true

/-- Sets the flag behind a toggle. -/
def set (b : Switchboard) (t : Toggle) (on : Bool) : Switchboard := ⟨b.flags.set t.index on⟩

/-- Does the toggle have a flag on this board? -/
def Owns (b : Switchboard) (t : Toggle) : Prop := t.index < b.flags.length

theorem isOn_set {b : Switchboard} {t u : Toggle} {on : Bool} (h : b.Owns t) :
    (b.set t on).isOn u = if u = t then on else b.isOn u := by
  obtain ⟨i⟩ := t
  obtain ⟨j⟩ := u
  have h : i < b.flags.length := h
  by_cases hij : i = j
  · subst hij; simp [isOn, set, h]
  · simp [isOn, set, hij, Ne.symm hij]

end Switchboard

/-- Toggles in use, by the order in which they were made. -/
structure Handles where
  switches : Switchboard
  toggles : List Toggle

/-- A copy of a handle, a new flag with a handle of its own, or a flag that is set. -/
inductive HandleStep where
  | clone (handle : Nat)
  | new (config : SecurityConfig)
  | set (handle : Nat) (on : Bool)

namespace Handles

/-- One handle on one new flag. -/
def start (on : Bool) : Handles :=
  let (switches, t) := Switchboard.add ⟨[]⟩ on
  ⟨switches, [t]⟩

/-- What the handles report. -/
def states (h : Handles) : List Bool := h.toggles.map h.switches.isOn

/-- A step, and what the flag was before where one is set. -/
def step (h : Handles) : HandleStep → Option Bool × Handles
  | .clone i =>
    (none, { h with toggles := h.toggles ++ h.toggles[i]?.toList })
  | .new config =>
    let (switches, t) := h.switches.add config.isEnabled
    (none, ⟨switches, h.toggles ++ [t]⟩)
  | .set i on =>
    match h.toggles[i]? with
    | some t => (some (h.switches.isOn t), { h with switches := h.switches.set t on })
    | none => (none, h)

end Handles

end AccessGuard
