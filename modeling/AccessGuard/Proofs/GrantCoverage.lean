import AccessGuard.Proofs.Decisions

/-!
# What a grant covers

Candidates are refused as a whole where no grant covers domain and action, that is, where the
first two parts of no grant accept them. The third part always leaves room for some instance. A
part beyond it is not looked at, although one that narrows the request leaves no instance at all:
`case:view:Yolo:unit-7` covers viewing, and implies it on nothing.

* `coversAction_iff`: what is covered, read off the text of a grant.
* `exists_implies_iff`: the grants that imply an action on some instance.
* `coversAction_iff_exists`: the grants that cover no more than they imply on some instance.
* `refused_exact`: when candidates are refused exactly where no value at all would pass.
* `covering_exact`: both, from the text of the grants.
-/

namespace AccessGuard

section Parts

variable {parts : List (List Char)} {cs : List (Option String)}

/-- One component more is accepted by the part at its place, if there is one. -/
theorem acceptInTurn_concat (cs : List (Option String)) {c : Option String} :
    AcceptInTurn parts (cs ++ [c]) ↔
      AcceptInTurn parts cs ∧ ∀ part ∈ parts[cs.length]?, PartAccepts part c := by
  unfold AcceptInTurn
  induction parts generalizing cs with
  | nil => simp
  | cons part parts ih =>
    cases cs with
    | nil => simp
    | cons d cs => simp only [List.cons_append, List.zip_cons_cons, List.forall_mem_cons,
        List.length_cons, List.getElem?_cons_succ, ih, and_assoc]

theorem accepts_iff_acceptInTurn {ws : List (List Char)} {ps : List GrantPart}
    (h : List.Forall₂ (fun w p => GrantPart.read? w = some p) ws ps) :
    (∀ pc ∈ ps.zip cs, pc.1.accepts pc.2 = true) ↔ AcceptInTurn (ws.map trim) cs := by
  unfold AcceptInTurn
  induction h generalizing cs with
  | nil => simp
  | cons hread _ ih =>
    cases cs with
    | nil => simp
    | cons c cs => simp only [List.map_cons, List.zip_cons_cons, List.forall_mem_cons,
        GrantPart.accepts_iff hread, ih]

end Parts

/-- No part of a text beyond the third narrows the request, as far as they are looked at. -/
def Unnarrowed (text : String) : Prop := ∀ part ∈ (writtenParts text)[3]?, part = ['*']

instance (text : String) : Decidable (Unnarrowed text) :=
  inferInstanceAs (Decidable (∀ part ∈ (writtenParts text)[3]?, _))

namespace Grant

variable {g : Grant} {text domain action : String}

/-- Domain and action are accepted by the first two parts; no other part is looked at. -/
theorem coversAction_iff (h : parse text = .ok g) :
    g.coversAction domain action = true ↔
      AcceptInTurn (writtenParts text) [some domain, some action] := by
  obtain rfl := parse_eq_ok.1 h
  rw [writtenParts, ← accepts_iff_acceptInTurn g.parts_written]
  exact List.all_eq_true

/-- **A grant implies an action on some instance** where it covers it and is not narrowed by a
part beyond the third. -/
theorem exists_implies_iff (h : parse text = .ok g) :
    (∃ value, g.implies domain action value = true) ↔
      g.coversAction domain action = true ∧ Unnarrowed text := by
  have hsplit (value : Option String) : g.implies domain action value = true ↔
      (g.coversAction domain action = true ∧
        ∀ part ∈ (writtenParts text)[2]?, PartAccepts part value) ∧ Unnarrowed text := by
    rw [implies_iff h, coversAction_iff h]
    exact and_congr_left' (acceptInTurn_concat [some domain, some action])
  simp only [hsplit]
  constructor
  · rintro ⟨value, ⟨hcovers, -⟩, hfourth⟩
    exact ⟨hcovers, hfourth⟩
  · rintro ⟨hcovers, hfourth⟩
    -- the third part accepts some text, and where there is none nothing has to be accepted
    have hthird : ∃ value, ∀ part ∈ (writtenParts text)[2]?, PartAccepts part value := by
      cases hpart : (writtenParts text)[2]? with
      | none => exact ⟨none, by simp⟩
      | some part =>
        obtain ⟨named, hnamed⟩ := exists_partAccepts part
        exact ⟨some named, by simpa using hnamed⟩
    obtain ⟨value, hvalue⟩ := hthird
    exact ⟨value, ⟨hcovers, hvalue⟩, hfourth⟩

/-- **When a grant covers nothing in vain.** -/
theorem coversAction_iff_exists (h : parse text = .ok g) :
    (∀ domain action, g.coversAction domain action = true ↔
      ∃ value, g.implies domain action value = true) ↔ Unnarrowed text := by
  simp only [exists_implies_iff h]
  constructor
  · intro hall
    -- some request is accepted by the first parts, so the grant covers something
    obtain ⟨domain, action, named, hfirst⟩ := exists_acceptInTurn (writtenParts text)
    have haccept : AcceptInTurn (writtenParts text) [some domain, some action] :=
      (acceptInTurn_concat [some domain, some action]).1 hfirst |>.1
    have hcovers : g.coversAction domain action = true := (coversAction_iff h).2 haccept
    exact ((hall domain action).1 hcovers).2
  · intro hfourth domain action
    exact (and_iff_left hfourth).symm

end Grant

/-! ## Refusals -/

namespace PrincipalSubject

variable {σ : Type} {state : σ} {s : PrincipalSubject} {p : Permission}

/-- A value may have any text, and may have none. -/
theorem exists_value (instance? : Option String) : ∃ v : Value, v.instanceText = instance? := by
  cases instance? with
  | none => exact ⟨.null, rfl⟩
  | some text => exact ⟨.str text, rfl⟩

/-- **Some value passes** where a grant covers domain and action and is not narrowed. -/
theorem exists_passes_iff :
    (∃ v, (s.judge p v state).verdict = .ok ()) ↔
      ∃ g ∈ s.grants, g.coversAction p.domain p.action = true ∧ Unnarrowed g.text := by
  simp only [judge_eq_ok, Implied]
  constructor
  · rintro ⟨v, g, hg, himplies⟩
    exact ⟨g, hg, (Grant.exists_implies_iff (Grant.parse_eq_ok.2 rfl)).1 ⟨_, himplies⟩⟩
  · rintro ⟨g, hg, hcovers⟩
    obtain ⟨value, himplies⟩ := (Grant.exists_implies_iff (Grant.parse_eq_ok.2 rfl)).2 hcovers
    obtain ⟨v, rfl⟩ := exists_value value
    exact ⟨v, g, hg, himplies⟩

/-- **When a refusal is exact.** Candidates are refused as a whole exactly where no value would
pass, if some grant among those that cover domain and action is not narrowed, or none covers
them. -/
theorem refused_exact {candidates : CandidateSet} :
    (((s.narrow p candidates state).verdict ≠ .ok ()) ↔
      ∀ v, (s.judge p v state).verdict ≠ .ok ()) ↔
    ((∃ g ∈ s.grants, g.coversAction p.domain p.action = true) →
      ∃ g ∈ s.grants, g.coversAction p.domain p.action = true ∧ Unnarrowed g.text) := by
  rw [← not_exists, exists_passes_iff, ne_eq, narrow_eq_ok, covers_iff, not_iff_not]
  constructor
  · intro h
    exact h.1
  · intro h
    refine ⟨h, ?_⟩
    rintro ⟨g, hg, hcovers, -⟩
    exact ⟨g, hg, hcovers⟩

/-- **When covering means what it says.** What a grant implies on some instance is what it covers,
unless its fourth part narrows it: a grant of at most three parts is never narrowed so, and one
whose fourth part is a list of values covers actions that it implies on no instance. Candidates are
refused as a whole exactly where no value would pass, if the grants behind it are not all narrowed
so. -/
theorem covering_exact {text : String} {g : Grant} (h : Grant.parse text = .ok g) :
    (∀ domain action, (∃ value, g.implies domain action value = true) ↔
      g.coversAction domain action = true ∧ Unnarrowed text) ∧
    ((∀ domain action, g.coversAction domain action = true ↔
      ∃ value, g.implies domain action value = true) ↔ Unnarrowed text) ∧
    ∀ (s : PrincipalSubject) (p : Permission) (candidates : CandidateSet) (state : σ),
      ((s.narrow p candidates state).verdict ≠ .ok () ↔
        ∀ v, (s.judge p v state).verdict ≠ .ok ()) ↔
      ((∃ g ∈ s.grants, g.coversAction p.domain p.action = true) →
        ∃ g ∈ s.grants, g.coversAction p.domain p.action = true ∧ Unnarrowed g.text) :=
  ⟨fun _ _ => Grant.exists_implies_iff h, Grant.coversAction_iff_exists h,
    fun _ _ _ _ => refused_exact⟩

/-- A grant of five parts covers nothing in vain, and what it does not cover is refused. -/
theorem covering_exact_sample :
    let g := Grant.Sample.countyGrant
    Grant.parse g.text = .ok g ∧
      (∀ domain action, g.coversAction domain action = true ↔
        ∃ value, g.implies domain action value = true) ∧
      ∀ id (p : Permission) (candidates : CandidateSet), let s : PrincipalSubject := ⟨id, [g]⟩
        (s.narrow p candidates ()).verdict ≠ .ok () ↔ ∀ v, (s.judge p v ()).verdict ≠ .ok () := by
  intro g
  have h : Grant.parse g.text = .ok g := Grant.parse_eq_ok.2 rfl
  have hunnarrowed : Unnarrowed g.text := by decide
  obtain ⟨-, hexists, hrefused⟩ := covering_exact h
  refine ⟨h, hexists.2 hunnarrowed, ?_⟩
  intro id p candidates s
  rw [hrefused s p candidates ()]
  rintro ⟨covering, hmem, hcovers⟩
  obtain rfl := List.mem_singleton.1 hmem
  exact ⟨g, hmem, hcovers, hunnarrowed⟩

namespace Sample

/-- A part further than any instance reaches. -/
def narrowedGrant : Grant :=
  ⟨"case:view:Yolo:unit-7",
    [.oneOf ["case"], .oneOf ["view"], .oneOf ["Yolo"], .oneOf ["unit-7"]], by decide⟩

end Sample

/-- **Narrowed to nothing, and not refused.** The grant covers viewing, so candidates are not
refused; but it implies viewing on no instance, so none of them is left and no value passes. -/
theorem narrowed_not_refused :
    Grant.parse "case:view:Yolo:unit-7" = .ok Sample.narrowedGrant ∧
      Sample.narrowedGrant.coversAction "case" "view" = true ∧
      (∀ value, Sample.narrowedGrant.implies "case" "view" value = false) ∧
      ∀ id, let s : PrincipalSubject := ⟨id, [Sample.narrowedGrant]⟩
        let p : Permission := (Sample.byCounty "cases").permission
        (s.narrow p (.ofList [.str "Yolo"]) ()).verdict = .ok () ∧
          ∀ v, (s.judge p v ()).verdict ≠ .ok () := by
  have hparse : Grant.parse "case:view:Yolo:unit-7" = .ok Sample.narrowedGrant :=
    Grant.parse_eq_ok.2 rfl
  have hnarrowed : ¬ Unnarrowed "case:view:Yolo:unit-7" := by decide
  have hcovers : Sample.narrowedGrant.coversAction "case" "view" = true := by decide
  refine ⟨hparse, hcovers, ?_, ?_⟩
  · intro value
    rw [← Bool.not_eq_true]
    intro h
    exact hnarrowed ((Grant.exists_implies_iff hparse).1 ⟨value, h⟩).2
  · intro id s p
    refine ⟨narrow_eq_ok.2 (covers_iff.2 ⟨_, List.mem_singleton_self _, hcovers⟩), ?_⟩
    rw [← not_exists, exists_passes_iff]
    rintro ⟨g, hg, -, hfourth⟩
    obtain rfl := List.mem_singleton.1 hg
    exact hnarrowed hfourth

end PrincipalSubject

end AccessGuard
