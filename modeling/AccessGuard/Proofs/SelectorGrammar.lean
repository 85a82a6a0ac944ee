import AccessGuard.Proofs.PermissionLayout
import AccessGuard.Requirement

/-!
# The grammar of requirements

```text
requirement := domain ":" action ":" identifier step*
step        := "." identifier | "*." identifier | ".flatten()"
```

A requirement is read from left to right, each identifier as far as it goes. The grammar is
given here without the reader. Both agree, and each text has one reading: a step ends where the
next one begins, at a full stop or an asterisk, which no identifier contains.

* `readAll_eq_ok`: the steps of a path are those that spell it.
* `compile_grammar`: requirements, their selectors and the texts of selectors.
-/

namespace AccessGuard

/-- A step and its text. -/
inductive SpellsStep : List Char → Step → Prop where
  | field {name : String} (h : isIdentifier name.toList = true) :
      SpellsStep ('.' :: name.toList) (.field name)
  | spread {name : String} (h : isIdentifier name.toList = true) :
      SpellsStep ('*' :: '.' :: name.toList) (.spread name)
  | flatten : SpellsStep ".flatten()".toList .flatten

/-- Steps and their text, one after the other. -/
inductive SpellsPath : List Char → List Step → Prop where
  | nil : SpellsPath [] []
  | cons {head rest : List Char} {step : Step} {steps : List Step} :
      SpellsStep head step → SpellsPath rest steps → SpellsPath (head ++ rest) (step :: steps)

variable {head rest path name : List Char} {step : Step} {steps : List Step}

theorem SpellsPath.startsPath (h : SpellsPath path steps) :
    ∀ c ∈ path.head?, Permission.startsPath c = true := by
  cases h with
  | nil => simp
  | cons hstep _ => cases hstep <;> simp <;> decide

/-! ## One step -/

/-- An identifier before a step, or at the end, is taken whole. -/
theorem takeIdentifier_append (hn : isIdentifier name = true)
    (hrest : ∀ c ∈ rest.head?, Permission.startsPath c = true) :
    takeIdentifier (name ++ rest) = some (name, rest) :=
  takeIdentifier_eq_some.2 ⟨rfl, hn, fun c hc => isNameChar_of_startsPath (hrest c hc)⟩

namespace Step

/-- **A step is read up to the next one.** -/
theorem read_of_spells (h : SpellsStep head step)
    (hrest : ∀ c ∈ rest.head?, Permission.startsPath c = true) :
    read (head ++ rest) = .ok (step, rest) := by
  cases h with
  | @field name hn =>
    have htake := takeIdentifier_append hn hrest
    simp only [List.cons_append, read, htake]
    -- a call would have to begin with a bracket, and no step does
    split
    · cases ‹some _ = none›
    · rename_i heq
      cases heq
      simp [Permission.startsPath] at hrest
    · rename_i heq
      cases heq
      rw [String.ofList_toList]
  | @spread name hn =>
    have htake := takeIdentifier_append hn hrest
    simp only [List.cons_append, read, htake, String.ofList_toList]
  | flatten =>
    have htake : takeIdentifier ("flatten".toList ++ '(' :: ')' :: rest) =
        some ("flatten".toList, '(' :: ')' :: rest) :=
      takeIdentifier_eq_some.2 ⟨rfl, by decide, by simp; decide⟩
    show read ('.' :: ("flatten".toList ++ '(' :: ')' :: rest)) = _
    simp only [read, htake, if_true]

theorem spells_of_read (h : read path = .ok (step, rest)) :
    ∃ head, SpellsStep head step ∧ path = head ++ rest := by
  unfold read at h
  split at h
  · rename_i after
    split at h
    · cases h
    · rename_i name rest' htake
      cases h
      obtain ⟨rfl, hn, -⟩ := takeIdentifier_eq_some.1 htake
      have hname : isIdentifier (String.ofList name).toList = true := by
        rwa [String.toList_ofList]
      refine ⟨_, .spread hname, ?_⟩
      rw [String.toList_ofList]; rfl
  · rename_i after _
    split at h
    · cases h
    · rename_i name rest' htake
      obtain ⟨rfl, -, -⟩ := takeIdentifier_eq_some.1 htake
      split at h
      · rename_i hflatten
        cases h
        exact ⟨_, .flatten, by rw [hflatten]; rfl⟩
      · cases h
    · rename_i name rest' _ htake
      cases h
      obtain ⟨rfl, hn, -⟩ := takeIdentifier_eq_some.1 htake
      have hname : isIdentifier (String.ofList name).toList = true := by
        rwa [String.toList_ofList]
      refine ⟨_, .field hname, ?_⟩
      rw [String.toList_ofList]; rfl
  · cases h

/-! ## All steps -/

theorem readAll_of_read (h : read path = .ok (step, rest)) :
    readAll path = (readAll rest).map (step :: ·) := by
  cases path with
  | nil => cases h
  | cons c cs =>
    rw [readAll]
    split
    · rename_i he; rw [h] at he; cases he
    · rename_i he; rw [h] at he; cases he; rfl

/-- **The steps that are read are those that spell the path.** -/
theorem readAll_eq_ok : readAll path = .ok steps ↔ SpellsPath path steps := by
  constructor
  · intro h
    fun_induction readAll path generalizing steps with
    | case1 => cases h; exact .nil
    | case2 => cases h
    | case3 c cs step rest hread _ ih =>
      obtain ⟨head, hstep, hpath⟩ := spells_of_read hread
      cases hrest : readAll rest with
      | error fault => rw [hrest] at h; cases h
      | ok steps' =>
        rw [hrest] at h
        cases h
        rw [hpath]
        exact .cons hstep (ih hrest)
  · intro h
    induction h with
    | nil => rw [readAll]
    | cons hstep hpath ih =>
      rw [readAll_of_read (read_of_spells hstep hpath.startsPath), ih]
      rfl

end Step

/-! ## Rendering -/

/-- A step with an identifier as its name, where it has a name. -/
def Step.Named : Step → Prop
  | .field name | .spread name => isIdentifier name.toList = true
  | .flatten => True

instance : DecidablePred Step.Named
  | .field name | .spread name => inferInstanceAs (Decidable (isIdentifier name.toList = true))
  | .flatten => isTrue trivial

/-- **Spelling is rendering**: a path and the steps that spell it determine each other. -/
theorem spellsPath_iff :
    SpellsPath path steps ↔ path = steps.flatMap Step.write ∧ ∀ step ∈ steps, step.Named := by
  constructor
  · intro h
    induction h with
    | nil => simp
    | cons hstep _ ih =>
      obtain ⟨rfl, hnamed⟩ := ih
      rw [List.flatMap_cons, List.forall_mem_cons]
      cases hstep with
      | field hn => exact ⟨rfl, hn, hnamed⟩
      | spread hn => exact ⟨rfl, hn, hnamed⟩
      | flatten => exact ⟨rfl, trivial, hnamed⟩
  · rintro ⟨rfl, hnamed⟩
    induction steps with
    | nil => exact .nil
    | cons step steps ih =>
      rw [List.forall_mem_cons] at hnamed
      rw [List.flatMap_cons]
      refine .cons ?_ (ih hnamed.2)
      cases step with
      | field name => exact .field hnamed.1
      | spread name => exact .spread hnamed.1
      | flatten => exact .flatten

theorem SpellsPath.unique {steps' : List Step} (h : SpellsPath path steps)
    (h' : SpellsPath path steps') : steps = steps' := by
  have hread := Step.readAll_eq_ok.2 h
  rw [Step.readAll_eq_ok.2 h'] at hread
  exact (Except.ok.inj hread).symm

namespace Selector

variable {s t : Selector} {p : Permission}

/-- An identifier as binding, and identifiers as names. -/
structure WellFormed (s : Selector) : Prop where
  binding_isIdentifier : isIdentifier s.binding.toList = true
  steps_named : ∀ step ∈ s.steps, step.Named

theorem compile_eq_ok :
    compile p = .ok s ↔ s.binding = p.binding ∧ SpellsPath p.path.toList s.steps := by
  rw [← Step.readAll_eq_ok]
  unfold compile
  cases h : Step.readAll p.path.toList with
  | error fault => simp
  | ok steps =>
    constructor
    · intro hs
      cases hs
      exact ⟨rfl, rfl⟩
    · rintro ⟨hb, hs⟩
      cases hs
      rw [← hb]

theorem text_toList (s : Selector) :
    s.text.toList = s.binding.toList ++ s.steps.flatMap Step.write := by
  simp [text, String.toList_append]

/-- **Different selectors have different texts.** -/
theorem eq_of_text_eq (hs : s.WellFormed) (ht : t.WellFormed) (h : s.text = t.text) : s = t := by
  obtain ⟨binding, steps⟩ := s
  obtain ⟨binding', steps'⟩ := t
  have hpath : SpellsPath (steps.flatMap Step.write) steps :=
    spellsPath_iff.2 ⟨rfl, hs.steps_named⟩
  have hpath' : SpellsPath (steps'.flatMap Step.write) steps' :=
    spellsPath_iff.2 ⟨rfl, ht.steps_named⟩
  have htext := congrArg String.toList h
  rw [text_toList, text_toList] at htext
  -- both bindings end where the first step begins
  obtain ⟨htake, hdrop⟩ := Permission.span_binding
    (Permission.not_startsPath_of_isIdentifier hs.binding_isIdentifier) hpath.startsPath
  obtain ⟨htake', hdrop'⟩ := Permission.span_binding
    (Permission.not_startsPath_of_isIdentifier ht.binding_isIdentifier) hpath'.startsPath
  rw [htext] at htake hdrop
  have hbinding : binding' = binding := String.toList_inj.1 (htake'.symm.trans htake)
  have hwrite := hdrop'.symm.trans hdrop
  have hsteps : steps' = steps := hpath'.unique (hwrite ▸ hpath)
  rw [hbinding, hsteps]

end Selector

/-! ## Requirements -/

namespace Requirement

variable {r : Requirement} {p : Permission} {text : String} {expected : Option String}

/-- Where the binding is the expected one, only the selector can still be at fault. -/
theorem compile_of_parse (hp : Permission.parse text = .ok p)
    (hb : ∀ binding ∈ expected, p.binding = binding) :
    compile text expected = (Selector.compile p).map (Requirement.mk p) := by
  unfold compile
  rw [hp]
  cases expected with
  | none =>
    simp only [bind, Except.bind]
    cases Selector.compile p <;> rfl
  | some binding =>
    have hbinding : p.binding = binding := hb binding rfl
    simp only [bind, Except.bind, hbinding, ne_eq, not_true_eq_false, if_false]
    cases Selector.compile p <;> rfl

theorem parse_of_compile (h : compile text expected = .ok r) :
    ∃ p, Permission.parse text = .ok p ∧ ∀ binding ∈ expected, p.binding = binding := by
  unfold compile at h
  cases hp : Permission.parse text with
  | error e => rw [hp] at h; cases h
  | ok p =>
    refine ⟨p, rfl, ?_⟩
    intro binding hexpected
    rw [hp, hexpected] at h
    simp only [bind, Except.bind] at h
    by_cases hb : p.binding = binding
    · exact hb
    · rw [if_pos hb] at h
      cases h

theorem compile_eq_ok :
    compile text expected = .ok r ↔
      Permission.parse text = .ok r.permission ∧
        (∀ binding ∈ expected, r.permission.binding = binding) ∧
        Selector.compile r.permission = .ok r.selector := by
  constructor
  · intro h
    obtain ⟨p, hp, hb⟩ := parse_of_compile h
    rw [compile_of_parse hp hb] at h
    cases hs : Selector.compile p with
    | error e => rw [hs] at h; cases h
    | ok s => rw [hs] at h; cases h; exact ⟨hp, hb, hs⟩
  · rintro ⟨hp, hb, hs⟩
    rw [compile_of_parse hp hb, hs]
    rfl

/-- A text with the parts of a requirement, as the grammar spells them. -/
structure Spells (text domain action binding : String) (steps : List Step) : Prop where
  text_eq : ∃ path, SpellsPath path steps ∧
    text.toList = domain.toList ++ ':' :: action.toList ++ ':' :: binding.toList ++ path
  domain_noColon : ':' ∉ domain.toList
  action_noColon : ':' ∉ action.toList
  domain_notBlank : allBlank domain.toList = false
  action_notBlank : allBlank action.toList = false
  binding_isIdentifier : isIdentifier binding.toList = true

/-- The requirement with these parts. -/
def ofParts (domain action binding : String) (steps : List Step) : Requirement :=
  ⟨⟨domain, action, binding, .ofList (steps.flatMap Step.write)⟩, ⟨binding, steps⟩⟩

/-- **Reading a requirement is inverting its grammar.** -/
theorem compile_eq_ok_iff :
    compile text expected = .ok r ↔
      ∃ domain action binding steps, Spells text domain action binding steps ∧
        (∀ name ∈ expected, binding = name) ∧ r = ofParts domain action binding steps := by
  rw [compile_eq_ok, Permission.parse_eq_ok, Selector.compile_eq_ok]
  constructor
  · rintro ⟨⟨htext, hwf⟩, hexpected, hbinding, hpath⟩
    obtain ⟨⟨domain, action, binding, path⟩, ⟨binding', steps⟩⟩ := r
    obtain rfl : binding' = binding := hbinding
    refine ⟨domain, action, binding', steps, ⟨⟨path.toList, hpath, ?_⟩, hwf.domain_noColon,
      hwf.action_noColon, hwf.domain_notBlank, hwf.action_notBlank, hwf.binding_isIdentifier⟩,
      hexpected, ?_⟩
    · rw [← htext, Permission.text_toList, Permission.selector_toList]
      simp
    · rw [ofParts, ← (spellsPath_iff.1 hpath).1, String.ofList_toList]
  · rintro ⟨domain, action, binding, steps, h, hexpected, rfl⟩
    obtain ⟨path, hpath, htext⟩ := h.text_eq
    obtain rfl := (spellsPath_iff.1 hpath).1
    refine ⟨⟨?_, h.domain_noColon, h.action_noColon, h.domain_notBlank, h.action_notBlank,
      h.binding_isIdentifier, ?_⟩, hexpected, rfl, ?_⟩
    · rw [← String.toList_inj, Permission.text_toList, Permission.selector_toList, htext]
      simp [ofParts]
    · simpa only [ofParts, String.toList_ofList] using hpath.startsPath
    · simpa only [ofParts, String.toList_ofList] using hpath

/-- **The grammar of requirements.** A text is read exactly when it has the parts of a
requirement, and then they are its parts; its selector has the text that stands behind the second
colon. A selector of identifiers is read back from its text, and no other has that text. -/
theorem compile_grammar (text : String) (expected : Option String) :
    (∀ r, compile text expected = .ok r ↔
      ∃ domain action binding steps, Spells text domain action binding steps ∧
        (∀ name ∈ expected, binding = name) ∧ r = ofParts domain action binding steps) ∧
    (∀ r, compile text expected = .ok r →
      r.selector.text = r.permission.selector ∧
        text = r.permission.domain ++ ":" ++ r.permission.action ++ ":" ++ r.selector.text) ∧
    (∀ (domain action : String) (s : Selector), ':' ∉ domain.toList → ':' ∉ action.toList →
      allBlank domain.toList = false → allBlank action.toList = false → s.WellFormed →
      (∀ name ∈ expected, s.binding = name) →
      ∃ r, compile (domain ++ ":" ++ action ++ ":" ++ s.text) expected = .ok r ∧
        r.selector = s) ∧
    ∀ s t : Selector, s.WellFormed → t.WellFormed → s.text = t.text → s = t := by
  refine ⟨fun r => compile_eq_ok_iff, ?_, ?_, ?_⟩
  · intro r h
    obtain ⟨htext, -⟩ := Permission.parse_eq_ok.1 (compile_eq_ok.1 h).1
    obtain ⟨domain, action, binding, steps, -, -, rfl⟩ := compile_eq_ok_iff.1 h
    exact ⟨rfl, htext.symm⟩
  · intro domain action s hd ha hdb hab hs hexpected
    refine ⟨ofParts domain action s.binding s.steps, compile_eq_ok_iff.2 ?_, rfl⟩
    refine ⟨domain, action, s.binding, s.steps, ?_, hexpected, rfl⟩
    refine ⟨⟨_, spellsPath_iff.2 ⟨rfl, hs.steps_named⟩, ?_⟩, hd, ha, hdb, hab,
      hs.binding_isIdentifier⟩
    simp [String.toList_append, Selector.text_toList]
  · intro s t hs ht h
    exact Selector.eq_of_text_eq hs ht h

namespace Sample

/-- A field that is named like the call. -/
def selector : Selector := ⟨"batch", [.field "flatten", .spread "county", .flatten]⟩

end Sample

theorem compile_grammar_sample :
    Sample.selector.text = "batch.flatten*.county.flatten()" ∧
      ∃ r, compile ("case" ++ ":" ++ "view" ++ ":" ++ Sample.selector.text) (some "batch") = .ok r ∧
        r.selector = Sample.selector :=
  ⟨by decide, (compile_grammar "" (some "batch")).2.2.1 "case" "view" Sample.selector (by decide)
    (by decide) (by decide) (by decide) ⟨by decide, by decide⟩ (by decide)⟩

end Requirement

end AccessGuard
