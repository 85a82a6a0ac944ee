import AccessGuard.Grant
import Mathlib.Data.List.Forall2

/-!
# What a grant implies

A grant is matched part by part: the first three parts against domain, action and instance.
A part beyond them has no component to accept and may not narrow the request, so it should be
`*`. Only the first of these is looked at: `case:view:Yolo:*:unit-7` implies as much as
`case:view:Yolo`.

* `coversAction_of_implies`, `implies_of_absent`: what is implied is covered, and what is
  implied without an instance is implied on every instance.
* `implies_iff_written`: what is implied, read off the text of a grant, and the grants of which
  every part counts.
-/

namespace AccessGuard

/-! ## Parts against components -/

section Parts

variable {ps : List GrantPart} {cs ds : List (Option String)}

/-- Further components take no part out of the match of those before them. -/
theorem accepts_of_acceptAll_append (h : acceptAll ps (cs ++ ds) = true) :
    ∀ pc ∈ ps.zip cs, pc.1.accepts pc.2 = true := by
  induction ps generalizing cs with
  | nil => simp
  | cons p ps ih =>
    cases cs with
    | nil => simp
    | cons c cs =>
      simp only [List.cons_append, acceptAll, Bool.and_eq_true] at h
      simp only [List.zip_cons_cons, List.forall_mem_cons]
      exact ⟨h.1, ih h.2⟩

/-- Only `*` accepts an absent component, and `*` accepts every other one too. -/
theorem acceptAll_of_absent (h : acceptAll ps (cs ++ [none]) = true) (c : Option String) :
    acceptAll ps (cs ++ [c]) = true := by
  induction ps generalizing cs with
  | nil => rfl
  | cons p ps ih =>
    cases cs with
    | nil =>
      simp only [List.nil_append, acceptAll, Bool.and_eq_true] at h ⊢
      cases p with
      | any => exact ⟨rfl, h.2⟩
      | oneOf values => cases h.1
    | cons d cs =>
      simp only [List.cons_append, acceptAll, Bool.and_eq_true] at h ⊢
      exact ⟨h.1, ih h.2⟩

end Parts

namespace Grant

variable {g : Grant} {domain action : String}

/-- **What is implied is covered**: domain and action are the first components. -/
theorem coversAction_of_implies {value : Option String}
    (h : g.implies domain action value = true) : g.coversAction domain action = true := by
  have happend : acceptAll g.parts ([some domain, some action] ++ [value]) = true := h
  have hparts : ∀ pc ∈ g.parts.zip [some domain, some action], pc.1.accepts pc.2 = true :=
    accepts_of_acceptAll_append happend
  exact List.all_eq_true.2 hparts

/-- **What is implied without an instance is implied on every instance.** -/
theorem implies_of_absent (h : g.implies domain action none = true) (value : Option String) :
    g.implies domain action value = true := by
  have happend : acceptAll g.parts ([some domain, some action] ++ [none]) = true := h
  exact acceptAll_of_absent happend value

end Grant

/-! ## Parts as they are written -/

/-- The parts of a text between its colons, without the white space around them. -/
def writtenParts (text : String) : List (List Char) := (text.toList.splitOn ':').map trim

/-- What a written part says about a component of a request: `*` accepts every component, also
an absent one; a list accepts exactly the texts between its commas. -/
def PartAccepts (part : List Char) (component : Option String) : Prop :=
  part = ['*'] ∨ ∃ text ∈ component, text.toList ∈ (part.splitOn ',').map trim

instance (part : List Char) (component : Option String) :
    Decidable (PartAccepts part component) :=
  inferInstanceAs (Decidable (_ ∨ ∃ text ∈ component, _))

/-- Parts accept the components at their places. -/
def AcceptInTurn (parts : List (List Char)) (components : List (Option String)) : Prop :=
  ∀ pc ∈ parts.zip components, PartAccepts pc.1 pc.2

instance (parts : List (List Char)) (components : List (Option String)) :
    Decidable (AcceptInTurn parts components) :=
  inferInstanceAs (Decidable (∀ pc ∈ parts.zip components, _))

/-- **A grant taken at its word**: the first three parts accept domain, action and instance, and
no part beyond them narrows the request. -/
def ImpliesAsWritten (text domain action : String) (value : Option String) : Prop :=
  AcceptInTurn (writtenParts text) [some domain, some action, value] ∧
    ∀ part ∈ (writtenParts text).drop 3, part = ['*']

instance (text domain action : String) (value : Option String) :
    Decidable (ImpliesAsWritten text domain action value) :=
  inferInstanceAs (Decidable (_ ∧ _))

/-- Every part accepts some text, as a list has at least one value. -/
theorem exists_partAccepts (part : List Char) : ∃ text, PartAccepts part (some text) := by
  obtain ⟨v, vs, hv⟩ := List.exists_cons_of_ne_nil (List.splitOn_ne_nil ',' part)
  refine ⟨.ofList (trim v), .inr ⟨_, rfl, ?_⟩⟩
  rw [hv, String.toList_ofList]
  exact List.mem_cons_self

/-- The first parts of a text leave room for some request. -/
theorem exists_acceptInTurn (parts : List (List Char)) :
    ∃ domain action text, AcceptInTurn parts [some domain, some action, some text] := by
  choose f hf using exists_partAccepts
  refine ⟨f (parts.getD 0 []), f (parts.getD 1 []), f (parts.getD 2 []), ?_⟩
  unfold AcceptInTurn
  rcases parts with _ | ⟨a, _ | ⟨b, _ | ⟨c, rest⟩⟩⟩ <;> simp [hf]

namespace GrantPart

variable {w : List Char} {p : GrantPart}

theorem eq_any_iff (h : read? w = some p) : p = .any ↔ trim w = ['*'] := by
  unfold read? at h
  split at h
  · cases h; simp_all
  · simp only at h
    split at h
    · cases h
    · cases h; simp_all

theorem accepts_iff (h : read? w = some p) (c : Option String) :
    p.accepts c = true ↔ PartAccepts (trim w) c := by
  unfold read? at h
  split at h
  · rename_i hstar
    cases h
    exact ⟨fun _ => .inl hstar, fun _ => rfl⟩
  · rename_i hstar
    simp only at h
    split at h
    · cases h
    · cases h
      cases c with
      | none => simp [accepts, PartAccepts, hstar]
      | some text =>
        have hmem {values : List (List Char)} :
            text ∈ values.map String.ofList ↔ text.toList ∈ values := by
          rw [List.mem_map]
          constructor
          · rintro ⟨cs, hcs, rfl⟩
            rwa [String.toList_ofList]
          · intro ht
            exact ⟨text.toList, ht, String.ofList_toList⟩
        simp only [accepts, List.contains_iff_mem, hmem, PartAccepts, hstar, false_or,
          Option.mem_some_iff, exists_eq_left']

end GrantPart

/-- **The parts that are looked at**: each part with a component, and the first part without. -/
theorem acceptAll_iff_written {ws : List (List Char)} {ps : List GrantPart}
    (h : List.Forall₂ (fun w p => GrantPart.read? w = some p) ws ps)
    {cs : List (Option String)} :
    acceptAll ps cs = true ↔
      AcceptInTurn (ws.map trim) cs ∧ ∀ part ∈ (ws.map trim)[cs.length]?, part = ['*'] := by
  unfold AcceptInTurn
  induction h generalizing cs with
  | nil => simp [acceptAll]
  | cons hread _ ih =>
    cases cs with
    | nil => simp [acceptAll, GrantPart.eq_any_iff hread]
    | cons c cs => simp [acceptAll, GrantPart.accepts_iff hread, ih, and_assoc]

namespace Grant

variable {g : Grant} {text domain action : String} {value : Option String}

theorem parse_eq_ok : parse text = .ok g ↔ g.text = text := by
  unfold parse
  constructor
  · intro h
    split at h
    · cases h; rfl
    · cases h
  · rintro rfl
    split
    · rename_i hp
      congr 1
      exact eq_of_text_eq rfl
    · rename_i hp
      rw [g.parts_eq] at hp
      cases hp

/-- Each written part of a grant is read as the part at its place. -/
theorem parts_written (g : Grant) :
    List.Forall₂ (fun w p => GrantPart.read? w = some p) (g.text.toList.splitOn ':') g.parts := by
  have h := g.parts_eq
  unfold readParts? at h
  generalize g.text.toList.splitOn ':' = ws at h
  generalize g.parts = ps at h
  induction ws generalizing ps with
  | nil => simp_all
  | cons w ws ih =>
    rw [List.mapM_cons] at h
    simp only [Option.bind_eq_bind, Option.bind_eq_some_iff] at h
    obtain ⟨p, hp, ps', hps, he⟩ := h
    cases he
    exact .cons hp (ih ps' hps)

theorem implies_iff (h : parse text = .ok g) :
    g.implies domain action value = true ↔
      AcceptInTurn (writtenParts text) [some domain, some action, value] ∧
        ∀ part ∈ (writtenParts text)[3]?, part = ['*'] := by
  obtain rfl := parse_eq_ok.1 h
  exact acceptAll_iff_written g.parts_written

/-- **Which parts of a grant count.** The first three parts and the one after them decide. So a
grant is taken at its word, for every request, unless its fourth part is `*` and a part after
that is not. -/
theorem implies_iff_written (h : parse text = .ok g) :
    (∀ domain action value, g.implies domain action value = true ↔
      AcceptInTurn (writtenParts text) [some domain, some action, value] ∧
        ∀ part ∈ (writtenParts text)[3]?, part = ['*']) ∧
    ((∀ domain action value,
        g.implies domain action value = true ↔ ImpliesAsWritten text domain action value) ↔
      ((writtenParts text)[3]? = some ['*'] →
        ∀ part ∈ (writtenParts text).drop 4, part = ['*'])) := by
  have hparts (domain action value) : g.implies domain action value = true ↔
      AcceptInTurn (writtenParts text) [some domain, some action, value] ∧
        ∀ part ∈ (writtenParts text)[3]?, part = ['*'] := implies_iff h
  refine ⟨hparts, ?_⟩
  simp only [hparts, ImpliesAsWritten]
  have hdrop : (writtenParts text).drop 3 =
      (writtenParts text)[3]?.toList ++ (writtenParts text).drop 4 :=
    List.drop_eq_getElem?_toList_append
  constructor
  · intro hall hfourth part hpart
    -- some request is accepted by the first three parts, so the rest of the grant decides on it
    obtain ⟨domain, action, named, hfirst⟩ := exists_acceptInTurn (writtenParts text)
    have hword := ((hall domain action (some named)).1 ⟨hfirst, by simp [hfourth]⟩).2
    apply hword
    rw [hdrop]
    exact List.mem_append_right _ hpart
  · intro hlater domain action value
    apply and_congr_right
    intro _
    rw [hdrop]
    cases hfourth : (writtenParts text)[3]? with
    | none =>
      have hlen : (writtenParts text).length ≤ 3 := List.getElem?_eq_none_iff.1 hfourth
      rw [List.drop_eq_nil_of_le (by omega)]
      simp
    | some part =>
      have hrest : part = ['*'] → ∀ later ∈ (writtenParts text).drop 4, later = ['*'] := by
        intro hpart
        exact hlater (by rw [hfourth, hpart])
      simp only [Option.toList_some, List.singleton_append, List.forall_mem_cons,
        Option.mem_some_iff, forall_eq']
      exact ⟨fun hpart => ⟨hpart, hrest hpart⟩, fun hall => hall.1⟩

namespace Sample

/-- Two counties, and parts beyond them that accept everything. -/
def countyGrant : Grant :=
  ⟨"case:view:Yolo, Madera:*:*",
    [.oneOf ["case"], .oneOf ["view"], .oneOf ["Yolo", "Madera"], .any, .any], by decide⟩

/-- A part that accepts one value only, beyond one that accepts everything. -/
def unitGrant : Grant :=
  ⟨"case:view:Yolo:*:unit-7",
    [.oneOf ["case"], .oneOf ["view"], .oneOf ["Yolo"], .any, .oneOf ["unit-7"]], by decide⟩

end Sample

/-- All five parts of this grant count. -/
theorem implies_iff_written_sample :
    parse Sample.countyGrant.text = .ok Sample.countyGrant ∧
      ∀ domain action value, Sample.countyGrant.implies domain action value = true ↔
        ImpliesAsWritten Sample.countyGrant.text domain action value := by
  have h : parse Sample.countyGrant.text = .ok Sample.countyGrant := parse_eq_ok.2 rfl
  exact ⟨h, (implies_iff_written h).2.2 (by decide)⟩

/-- **A part after a surplus `*` is left out.** It narrows the grant to a unit, but the grant
implies the request all the same. -/
theorem implies_of_narrowed_late :
    parse "case:view:Yolo:*:unit-7" = .ok Sample.unitGrant ∧
      Sample.unitGrant.implies "case" "view" (some "Yolo") = true ∧
      ¬ ImpliesAsWritten "case:view:Yolo:*:unit-7" "case" "view" (some "Yolo") :=
  ⟨parse_eq_ok.2 rfl, by decide, by decide⟩

end Grant

end AccessGuard
