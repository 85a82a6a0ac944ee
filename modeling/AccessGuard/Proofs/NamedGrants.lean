import AccessGuard.Proofs.LongerGrants
import AccessGuard.Proofs.PermissionLayout

/-!
# Granting by name

A grant names what it accepts in lists, whose values stand between commas and lose the white space
around them. A permission keeps its domain and action as they are written. So a domain or an action
with a comma in it, or with white space at one of its ends, is named by no list; a grant implies the
permission only if it has the star at that place, or nothing. All others can be named, also a domain
that is the star itself, since a text is a list if it is written twice.

* `nameable_of_mem`: the values of a list can be named.
* `read?_twice`: a text that is written twice is a list of it.
* `Grant.nameable_of_implies`: what a grant names in the permissions that it implies.
* `granted_by_name`: the permissions that can be granted by name.
-/

namespace AccessGuard

/-! ## Values of a list -/

/-- No piece between separators has a separator in it. -/
theorem not_mem_of_mem_splitOn {sep : Char} {cs piece : List Char} (h : piece ∈ cs.splitOn sep) :
    sep ∉ piece := by
  induction cs generalizing piece with
  | nil =>
    rw [List.splitOn_nil, List.mem_singleton] at h
    rw [h]
    exact List.not_mem_nil
  | cons c cs ih =>
    obtain ⟨first, rest, hcs⟩ := List.exists_cons_of_ne_nil (List.splitOn_ne_nil sep cs)
    have hfirst : first ∈ cs.splitOn sep := hcs ▸ List.mem_cons_self
    rw [List.splitOn_cons_eq_if_modifyHead] at h
    by_cases hc : c = sep
    · rw [if_pos (beq_iff_eq.2 hc), List.mem_cons] at h
      rcases h with rfl | h
      · exact List.not_mem_nil
      · exact ih h
    · rw [if_neg (fun he => hc (beq_iff_eq.1 he)), hcs, List.modifyHead_cons, List.mem_cons] at h
      rcases h with rfl | h
      · -- the first piece has one more character in front, which is no separator
        rw [List.mem_cons, not_or]
        exact ⟨Ne.symm hc, ih hfirst⟩
      · exact ih (hcs ▸ List.mem_cons_of_mem _ h)

/-- **A text that a list can name**: no comma in it, and no white space at either end. -/
structure Nameable (text : String) : Prop where
  noComma : ',' ∉ text.toList
  first : ∀ c ∈ text.toList.head?, isBlank c = false
  last : ∀ c ∈ text.toList.getLast?, isBlank c = false

theorem nameable_iff {text : String} :
    Nameable text ↔ ',' ∉ text.toList ∧ trim text.toList = text.toList := by
  rw [trim_eq_self_iff]
  constructor
  · intro h
    exact ⟨h.noComma, h.first, h.last⟩
  · rintro ⟨hcomma, hfirst, hlast⟩
    exact ⟨hcomma, hfirst, hlast⟩

instance (text : String) : Decidable (Nameable text) := decidable_of_iff' _ nameable_iff

/-- **The values of a list can be named.** -/
theorem nameable_of_mem {part : List Char} {text : String}
    (h : text.toList ∈ (part.splitOn ',').map trim) : Nameable text := by
  obtain ⟨piece, hpiece, htrim⟩ := List.mem_map.1 h
  have hcomma : ',' ∉ piece := not_mem_of_mem_splitOn hpiece
  rw [nameable_iff, ← htrim]
  refine ⟨?_, trim_trim piece⟩
  intro hmem
  obtain ⟨before, after, -, -, hcs⟩ := exists_eq_trim piece
  rw [hcs] at hcomma
  exact hcomma (List.mem_append_right _ (List.mem_append_left _ hmem))

namespace GrantPart

variable {values : List String} {text : String}

theorem nameable_of_accepts {part : List Char} (hread : read? part = some (.oneOf values))
    (haccepts : (oneOf values).accepts (some text) = true) : Nameable text := by
  have hstar : trim part ≠ ['*'] := by
    intro hstar
    cases (eq_any_iff hread).2 hstar
  rcases (accepts_iff hread (some text)).1 haccepts with h | ⟨_, htext, hmem⟩
  · exact absurd h hstar
  · cases htext
    exact nameable_of_mem hmem

/-- **A text that is written twice** is read as a list, also if it is the star. -/
theorem read?_twice (hname : Nameable text) (hne : text.toList ≠ []) :
    read? (text.toList ++ ',' :: text.toList) = some (.oneOf [text, text]) := by
  obtain ⟨hcomma, htrim⟩ := nameable_iff.1 hname
  have hvalues : writtenValues (text.toList ++ ',' :: text.toList) =
      [text.toList, text.toList] := by
    unfold writtenValues
    rw [List.splitOn_append_cons_self, List.splitOn_eq_singleton hcomma]
    simp [htrim]
  rw [read?_eq_ofValues?, hvalues]
  simp [ofValues?, hne]

end GrantPart

/-! ## Grants -/

namespace Grant

variable {g : Grant} {domain action : String} {value : Option String}

/-- **Domain and action are lists of values.** -/
def NamesAction (g : Grant) : Prop :=
  ∃ domains actions, g.parts[0]? = some (.oneOf domains) ∧ g.parts[1]? = some (.oneOf actions)

theorem exists_written {part : GrantPart} (hpart : part ∈ g.parts) :
    ∃ written, GrantPart.read? written = some part := by
  obtain ⟨hlength, hwritten⟩ := List.forall₂_iff_get.1 g.parts_written
  obtain ⟨i, hi, rfl⟩ := List.mem_iff_getElem.1 hpart
  exact ⟨_, hwritten i (hlength ▸ hi) hi⟩

theorem parts_ne_nil (g : Grant) : g.parts ≠ [] := by
  intro hnil
  have hwritten := g.parts_written
  rw [hnil, List.forall₂_nil_right_iff] at hwritten
  exact List.splitOn_ne_nil _ _ hwritten

/-- A part that stands at the place of a component accepts it. -/
theorem accepts_of_implies {i : Nat} {part : GrantPart} {component : Option String}
    (himplies : g.implies domain action value = true) (hpart : g.parts[i]? = some part)
    (hcomponent : [some domain, some action, value][i]? = some component) :
    part.accepts component = true := by
  have happend : acceptAll g.parts ([some domain, some action, value] ++ []) = true := himplies
  have hall : ∀ pc ∈ g.parts.zip [some domain, some action, value], pc.1.accepts pc.2 = true :=
    accepts_of_acceptAll_append happend
  have hzip : (g.parts.zip [some domain, some action, value])[i]? = some (part, component) :=
    List.getElem?_zip_eq_some.2 ⟨hpart, hcomponent⟩
  exact hall _ (List.mem_of_getElem? hzip)

/-- **What a grant names** in the permissions that it implies can be named. -/
theorem nameable_of_implies {i : Nat} {values : List String} {text : String}
    (himplies : g.implies domain action value = true)
    (hpart : g.parts[i]? = some (.oneOf values))
    (htext : [some domain, some action, value][i]? = some (some text)) : Nameable text := by
  obtain ⟨written, hread⟩ := exists_written (List.mem_of_getElem? hpart)
  exact GrantPart.nameable_of_accepts hread (accepts_of_implies himplies hpart htext)

/-- What cannot be named is implied by the star only. -/
theorem eq_any_of_implies {i : Nat} {part : GrantPart} {text : String}
    (himplies : g.implies domain action value = true) (hpart : g.parts[i]? = some part)
    (htext : [some domain, some action, value][i]? = some (some text))
    (hname : ¬ Nameable text) : part = .any := by
  cases part with
  | any => rfl
  | oneOf values => exact absurd (nameable_of_implies himplies hpart htext) hname

/-- Domain and action by name, each of them written twice. -/
def named (domain action : String) : String :=
  domain ++ "," ++ domain ++ ":" ++ (action ++ "," ++ action)

theorem readParts?_single {cs : List Char} (hcolon : ':' ∉ cs) :
    readParts? cs = (GrantPart.read? cs).map fun part => [part] := by
  unfold readParts?
  rw [List.splitOn_eq_singleton hcolon, List.mapM_cons, List.mapM_nil]
  cases GrantPart.read? cs <;> rfl

/-- **A part that is written twice** is read as one part. -/
theorem readParts?_twice {text : String} (hcolon : ':' ∉ text.toList) (hname : Nameable text)
    (hne : text.toList ≠ []) :
    readParts? (text.toList ++ ',' :: text.toList) = some [.oneOf [text, text]] := by
  have htwice : ':' ∉ text.toList ++ ',' :: text.toList := by
    rw [List.mem_append, List.mem_cons]
    rintro (h | h | h)
    · exact hcolon h
    · cases h
    · exact hcolon h
  rw [readParts?_single htwice, GrantPart.read?_twice hname hne]
  rfl

/-- **Domain and action by name** are a grant, if there are no colons in them. -/
theorem exists_named (hdomain : ':' ∉ domain.toList ∧ Nameable domain ∧ domain.toList ≠ [])
    (haction : ':' ∉ action.toList ∧ Nameable action ∧ action.toList ≠ []) :
    ∃ g, parse (named domain action) = .ok g ∧
      g.parts = [.oneOf [domain, domain], .oneOf [action, action]] := by
  have hchars : (named domain action).toList = (domain.toList ++ ',' :: domain.toList) ++
      ':' :: (action.toList ++ ',' :: action.toList) := by
    simp [named, String.toList_append]
  have hread : readParts? (named domain action).toList =
      some [.oneOf [domain, domain], .oneOf [action, action]] := by
    rw [hchars, readParts?_joined, readParts?_twice hdomain.1 hdomain.2.1 hdomain.2.2,
      readParts?_twice haction.1 haction.2.1 haction.2.2]
    rfl
  exact ⟨⟨named domain action, _, hread⟩, parse_eq_ok.2 rfl, rfl⟩

end Grant

/-! ## Permissions -/

namespace Permission

variable {p : Permission} {text : String}

/-- A grant that names domain and action of a permission implies it, on whatever instance. -/
theorem exists_namesAction (hp : p.WellFormed) (hdomain : Nameable p.domain)
    (haction : Nameable p.action) :
    ∃ g, Grant.parse (Grant.named p.domain p.action) = .ok g ∧ g.NamesAction ∧
      ∀ value, g.implies p.domain p.action value = true := by
  have ne_nil {cs : List Char} (h : allBlank cs = false) : cs ≠ [] := by
    rintro rfl
    cases h
  obtain ⟨g, hg, hparts⟩ := Grant.exists_named
    ⟨hp.domain_noColon, hdomain, ne_nil hp.domain_notBlank⟩
    ⟨hp.action_noColon, haction, ne_nil hp.action_notBlank⟩
  have hnames : g.NamesAction := by
    refine ⟨[p.domain, p.domain], [p.action, p.action], ?_, ?_⟩
    · rw [hparts]
      rfl
    · rw [hparts]
      rfl
  refine ⟨g, hg, hnames, ?_⟩
  intro value
  simp [Grant.implies, hparts, acceptAll, GrantPart.accepts]

/-- **Which permissions can be granted by name.** For a permission that can be read, some text is
a grant whose domain and action are lists and that implies it on some instance, or on none, exactly
if there is no comma in its domain and its action and no white space at their ends. Where the
domain or the action is no such text, whatever grant implies the permission has the star there, or
leaves the action off. -/
theorem granted_by_name (h : parse text = .ok p) :
    ((∃ written g value, Grant.parse written = .ok g ∧ g.NamesAction ∧
        g.implies p.domain p.action value = true) ↔ Nameable p.domain ∧ Nameable p.action) ∧
    ∀ g value, Grant.implies g p.domain p.action value = true →
      (¬ Nameable p.domain → g.parts[0]? = some .any) ∧
      (¬ Nameable p.action → ∀ part ∈ g.parts[1]?, part = .any) := by
  obtain ⟨-, hp⟩ := parse_eq_ok.1 h
  refine ⟨⟨?_, ?_⟩, ?_⟩
  · rintro ⟨-, g, value, -, ⟨domains, actions, hdomains, hactions⟩, himplies⟩
    have hdomain : Nameable p.domain := Grant.nameable_of_implies himplies hdomains rfl
    have haction : Nameable p.action := Grant.nameable_of_implies himplies hactions rfl
    exact ⟨hdomain, haction⟩
  · rintro ⟨hdomain, haction⟩
    obtain ⟨g, hg, hnames, himplies⟩ := exists_namesAction hp hdomain haction
    exact ⟨_, g, none, hg, hnames, himplies none⟩
  · intro g value himplies
    refine ⟨?_, ?_⟩
    · intro hname
      obtain ⟨part, parts, hparts⟩ := List.exists_cons_of_ne_nil g.parts_ne_nil
      have hpart : g.parts[0]? = some part := by rw [hparts]; rfl
      rw [hpart, Grant.eq_any_of_implies himplies hpart rfl hname]
    · intro hname part hpart
      exact Grant.eq_any_of_implies himplies hpart rfl hname

/-- A domain that is the star itself is named, an action behind a space is not. -/
theorem granted_by_name_sample :
    let starred : Permission := ⟨"*", "view", "case", ".county"⟩
    let spaced : Permission := ⟨"case", " view", "case", ".county"⟩
    parse "*:view:case.county" = .ok starred ∧ parse "case: view:case.county" = .ok spaced ∧
      (∃ written g value, Grant.parse written = .ok g ∧ g.NamesAction ∧
        g.implies "*" "view" value = true) ∧
      ¬ (∃ written g value, Grant.parse written = .ok g ∧ g.NamesAction ∧
        g.implies "case" " view" value = true) ∧
      ∀ g value, Grant.implies g "case" " view" value = true →
        ∀ part ∈ g.parts[1]?, part = .any := by
  intro starred spaced
  have hstarred : parse "*:view:case.county" = .ok starred := rfl
  have hspaced : parse "case: view:case.county" = .ok spaced := rfl
  have hname : ¬ Nameable " view" := by decide
  obtain ⟨hlists, -⟩ := granted_by_name hstarred
  obtain ⟨hnone, hstars⟩ := granted_by_name hspaced
  refine ⟨hstarred, hspaced, hlists.2 (by decide), ?_, ?_⟩
  · intro hex
    exact hname (hnone.1 hex).2
  · intro g value himplies
    exact (hstars g value himplies).2 hname

end Permission

end AccessGuard
