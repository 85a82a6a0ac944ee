import AccessGuard.Proofs.ByteOrder
import AccessGuard.Proofs.Declarations
import AccessGuard.Proofs.Decoding
import Mathlib.Data.List.Perm.Subperm

/-!
# Registries from documents

A document is read into a table of its methods, and from there a registry is made as the builder
makes it: the entry of a method stands for declarations, its parameters in their order and then
its result. So a table of entries and the calls it stands for give the same registry, and of
several entries that are refused the one under the least name is reported.

What the table no longer shows are names that were written twice. The builder refuses a name that
is taken, but of equal names in a document the table holds the last one only, so the builder never
sees the others and what they require is not enforced.

* `ofDocument_eq_build`: a table of entries as calls on the builder.
* `ofText_eq_builder`: documents and the builder agree.
* `ofText_of_repeated`: of a name that is written twice, the last entry counts.
-/

namespace AccessGuard

namespace Registry

variable {text : String} {document : Table String MethodEntry}
  {entries : List (String × MethodEntry)} {r : Registry} {e : RegistryError}

/-! ## Entries as declarations -/

/-- The declarations that an entry stands for. -/
def MethodEntry.declarations (m : MethodEntry) : List Declaration :=
  m.parameters.map (fun q => .parameter q.index q.name q.permissions) ++ [.returns m.returns]

/-- The calls on the builder that entries stand for, in the order of the entries. -/
def methodCalls (entries : List (String × MethodEntry)) : List (String × List Declaration) :=
  entries.map fun m => (m.1, m.2.declarations)

theorem MethodEntry.declareAll_eq_foldlM (p : MethodPolicy) (qs : List ParameterEntry) :
    declareAll p qs =
      (qs.map fun q => Declaration.parameter q.index q.name q.permissions).foldlM
        MethodPolicy.declare p := by
  induction qs generalizing p with
  | nil => rfl
  | cons q qs ih =>
    rw [declareAll, List.map_cons, List.foldlM_cons]
    exact bind_congr ih

/-- The policy of an entry is built by its declarations. -/
theorem MethodEntry.policy_eq_build (m : MethodEntry) :
    m.policy = MethodPolicy.build m.declarations := by
  unfold policy MethodPolicy.build declarations
  rw [declareAll_eq_foldlM, List.foldlM_append]
  exact bind_congr fun p => (bind_pure _).symm

theorem registerAll_eq_foldlM (r : Registry) (entries : List (String × MethodEntry)) :
    registerAll r entries = (methodCalls entries).foldlM registerBuilt r := by
  induction entries generalizing r with
  | nil => rfl
  | cons m entries ih =>
    obtain ⟨method, entry⟩ := m
    rw [registerAll, methodCalls, List.map_cons, List.foldlM_cons, registerBuilt,
      MethodEntry.policy_eq_build, bind_assoc]
    exact bind_congr fun p => bind_congr ih

/-- **A table of entries makes the registry of the calls that they stand for.** -/
theorem ofDocument_eq_build (document : Table String MethodEntry) :
    ofDocument document = build (methodCalls document.entries) :=
  registerAll_eq_foldlM empty document.entries

theorem methodCalls_names (entries : List (String × MethodEntry)) :
    (methodCalls entries).map (·.1) = entries.map (·.1) := by
  unfold methodCalls
  rw [List.map_map]
  rfl

theorem mem_methodCalls {name : String} {ds : List Declaration} :
    (name, ds) ∈ methodCalls entries ↔
      ∃ entry, (name, entry) ∈ entries ∧ entry.declarations = ds := by
  simp [methodCalls]

/-! ## Documents and the builder -/

/-- Names in a table are its own, so only a policy that cannot be built keeps a registry from
being made. -/
theorem ofDocument_isOk_iff :
    (∃ r, ofDocument document = .ok r) ↔ ∀ name entry, document.get? name = some entry →
      ∃ p, MethodPolicy.build entry.declarations = .ok p := by
  rw [ofDocument_eq_build, build_isOk_iff, methodCalls_names]
  simp only [Table.get?_eq_some_iff]
  constructor
  · rintro ⟨-, hbuilt⟩ name entry hentry
    exact hbuilt (name, entry.declarations) (mem_methodCalls.2 ⟨entry, hentry, rfl⟩)
  · intro hbuilt
    refine ⟨document.nodup_keys, ?_⟩
    rintro ⟨name, ds⟩ hm
    obtain ⟨entry, hentry, rfl⟩ := mem_methodCalls.1 hm
    exact hbuilt name entry hentry

/-- **Of several entries that are refused, the one under the least name is reported.** -/
theorem ofDocument_eq_error_iff :
    ofDocument document = .error e ↔ ∃ name entry, document.get? name = some entry ∧
      MethodPolicy.build entry.declarations = .error e ∧
      ∀ other entry', document.get? other = some entry' → bytes other < bytes name →
        ∃ p, MethodPolicy.build entry'.declarations = .ok p := by
  have distinct : ((methodCalls document.entries).map (·.1)).Nodup := by
    rw [methodCalls_names]
    exact document.nodup_keys
  rw [ofDocument_eq_build, build_eq_error_iff distinct]
  -- the calls split where the entries do, and these are in the order of their names
  have hsplit := document.ascending.exists_split_iff
    (P := fun n => ∃ p, MethodPolicy.build n.2.declarations = .ok p)
    (Q := fun m => MethodPolicy.build m.2.declarations = .error e)
  simp only [methodCalls, List.map_eq_append_iff, List.map_eq_cons_iff]
  constructor
  · rintro ⟨-, -, -, ⟨before, -, he, rfl, m, after, rfl, rfl, rfl⟩, hbefore, hm⟩
    rw [List.forall_mem_map] at hbefore
    obtain ⟨⟨name, entry⟩, hentry, hsmaller, herror⟩ := hsplit.1 ⟨before, m, after, he, hbefore, hm⟩
    refine ⟨name, entry, Table.get?_eq_some_iff.2 hentry, herror, ?_⟩
    intro other entry' hother hlt
    exact hsmaller _ (Table.get?_eq_some_iff.1 hother) (compare_eq_lt_iff.2 hlt)
  · rintro ⟨name, entry, hentry, herror, hsmaller⟩
    obtain ⟨before, m, after, he, hbefore, hm⟩ := hsplit.2 ⟨(name, entry),
      Table.get?_eq_some_iff.1 hentry, fun n hn hlt =>
        hsmaller n.1 n.2 (Table.get?_eq_some_iff.2 hn) (compare_eq_lt_iff.1 hlt), herror⟩
    refine ⟨_, _, _, ⟨before, m :: after, he, rfl, m, after, rfl, rfl, rfl⟩, ?_, hm⟩
    rw [List.forall_mem_map]
    exact hbefore

theorem get?_of_ofDocument (h : ofDocument document = .ok r) {name : String} {p : MethodPolicy} :
    r.get? name = some p ↔ ∃ entry, document.get? name = some entry ∧
      MethodPolicy.build entry.declarations = .ok p := by
  rw [ofDocument_eq_build, build_eq_ok_iff] at h
  refine (h.get?_iff name p).trans ?_
  simp only [mem_methodCalls, Table.get?_eq_some_iff]
  constructor
  · rintro ⟨-, ⟨entry, hentry, rfl⟩, hp⟩
    exact ⟨entry, hentry, hp⟩
  · rintro ⟨entry, hentry, hp⟩
    exact ⟨_, ⟨entry, hentry, rfl⟩, hp⟩

theorem size_of_ofDocument (h : ofDocument document = .ok r) : r.size = document.size := by
  rw [ofDocument_eq_build, build_eq_ok_iff] at h
  exact h.size_eq.trans (List.length_map _)

theorem ofText_of_decoded (h : Tree.decodeText decodeDocument text = .ok document) :
    ofText text = ofDocument document := by
  unfold ofText
  rw [h]

/-- **Documents and the builder agree.** A document that can be read makes a registry exactly when
the policy of each of its methods can be built; then it holds these policies and no others, and
registering them through the builder, in any order, gives the same registry. Otherwise the error
is that of the least name whose policy cannot be built, at the first declaration that fails. It
is never that a method is registered twice. -/
theorem ofText_eq_builder (h : Tree.decodeText decodeDocument text = .ok document) :
    ((∃ r, ofText text = .ok r) ↔ ∀ name entry, document.get? name = some entry →
      ∃ p, MethodPolicy.build entry.declarations = .ok p) ∧
    (∀ r, ofText text = .ok r →
      (∀ name entry, document.get? name = some entry →
        ∃ p, MethodPolicy.build entry.declarations = .ok p ∧ r.get? name = some p) ∧
      (∀ name, document.get? name = none → r.get? name = none) ∧
      r.size = document.size ∧
      ∀ calls, calls.Perm (methodCalls document.entries) → build calls = .ok r) ∧
    (∀ e, ofText text = .error e ↔ ∃ name entry, document.get? name = some entry ∧
      MethodPolicy.FailsWith entry.declarations e ∧
      ∀ other entry', document.get? other = some entry' → bytes other < bytes name →
        ∃ p, MethodPolicy.build entry'.declarations = .ok p) ∧
    ∀ method, ofText text ≠ .error (.duplicateMethod method) := by
  rw [ofText_of_decoded h]
  refine ⟨ofDocument_isOk_iff, ?_, ?_, ?_⟩
  · intro r hr
    refine ⟨?_, ?_, size_of_ofDocument hr, ?_⟩
    · intro name entry hentry
      obtain ⟨p, hp⟩ := ofDocument_isOk_iff.1 ⟨r, hr⟩ name entry hentry
      exact ⟨p, hp, (get?_of_ofDocument hr).2 ⟨entry, hentry, hp⟩⟩
    · intro name hnone
      rw [Option.eq_none_iff_forall_ne_some]
      intro p hp
      obtain ⟨entry, hentry, -⟩ := (get?_of_ofDocument hr).1 hp
      rw [hnone] at hentry
      cases hentry
    · intro calls hcalls
      exact build_perm (ofDocument_eq_build document ▸ hr) hcalls.symm
  · intro e
    simp only [ofDocument_eq_error_iff, MethodPolicy.build_eq_error_iff]
  · intro method hduplicate
    obtain ⟨name, entry, -, herror, -⟩ := ofDocument_eq_error_iff.1 hduplicate
    exact MethodPolicy.build_ne_duplicateMethod entry.declarations method herror

namespace Sample

/-- Two methods, the second of which requires something that is no permission. -/
def halfDocument : String :=
  "\x7b\"cases.list\": \x7b\"returns\": [\"case:view:r.county\"]\x7d, " ++
    "\"cases.close\": \x7b\"returns\": [\"case:close\"]\x7d\x7d"

/-- Requires viewing of the result. -/
def listEntry : MethodEntry := ⟨[], ["case:view:r.county"]⟩

/-- Requires something that is no permission. -/
def closeEntry : MethodEntry := ⟨[], ["case:close"]⟩

/-- The two entries by name. -/
def halfTable : Table String MethodEntry :=
  ⟨[("cases.close", closeEntry), ("cases.list", listEntry)], by decide⟩

end Sample

/-- The document is refused for the method with the lesser name. -/
theorem ofText_eq_builder_sample :
    Tree.decodeText decodeDocument Sample.halfDocument = .ok Sample.halfTable ∧
      ofText Sample.halfDocument = .error (.malformed ⟨"case:close", .missingSegments⟩) := by
  have h : Tree.decodeText decodeDocument Sample.halfDocument = .ok Sample.halfTable := by
    decide +kernel
  refine ⟨h, ((ofText_eq_builder h).2.2.1 _).2 ⟨"cases.close", Sample.closeEntry, rfl, ?_, ?_⟩⟩
  · exact ⟨[], .returns ["case:close"], [], .empty, rfl, rfl, rfl⟩
  · intro other entry hother hlt
    rcases List.mem_cons.1 (Table.get?_eq_some_iff.1 hother) with he | hmem
    · cases he
      exact absurd hlt (List.lt_irrefl _)
    · cases List.mem_singleton.1 hmem
      exact absurd hlt (by decide)

/-! ## Names that are written twice -/

/-- The names at the top of a document, in their order and as often as they are written. -/
def writtenNames (text : String) : List String :=
  match (Tree.ofText text).1 with
  | .object members _ => members.filterMap fun m => m.1.map .ofList
  | _ => []

/-- Is a name written twice at the top of a document? -/
def RepeatsName (text : String) : Prop := ¬ (writtenNames text).Nodup

instance (text : String) : Decidable (RepeatsName text) := inferInstanceAs (Decidable (¬ _))

/-- All entries of a document, also those whose name is written again. -/
def readEntries (text : String) : Except DecodeError (List (String × MethodEntry)) :=
  Tree.decodeText (Tree.decodeMembers MethodEntry.decode) text

/-- The last entry under a name. -/
def lastEntry? (entries : List (String × MethodEntry)) (name : String) : Option MethodEntry :=
  entries.reverse.lookup name

theorem decodeDocument_eq (text : String) :
    Tree.decodeText decodeDocument text = (readEntries text).map .ofList := by
  unfold readEntries Tree.decodeText decodeDocument
  dsimp only
  cases Tree.decodeMembers MethodEntry.decode (Tree.ofText text).1 with
  | error e => rfl
  | ok entries => cases (Tree.ofText text).2 <;> rfl

theorem names_of_readAs {α : Type} {decode : Tree → Except DecodeError α}
    {members : List (Option (List Char) × Tree)} {entries : List (String × α)}
    (h : List.Forall₂ (Tree.ReadAs decode) members entries) :
    (members.filterMap fun m => m.1.map String.ofList) = entries.map (·.1) := by
  induction h with
  | nil => rfl
  | @cons m entry members entries hm _ ih =>
    have hname : m.1.map String.ofList = some entry.1 := by
      rw [hm.1, Option.map_some, String.ofList_toList]
    rw [List.filterMap_cons, hname, List.map_cons, ih]

/-- A document that can be read has an entry for each name that is written. -/
theorem writtenNames_of_read (h : readEntries text = .ok entries) :
    writtenNames text = entries.map (·.1) := by
  obtain ⟨t, htree, ht⟩ := Tree.decodeText_eq_ok_iff.1 h
  obtain ⟨members, rfl, hread⟩ := Tree.decodeMembers_eq_ok_iff.1 ht
  rw [writtenNames, htree]
  exact names_of_readAs hread

theorem ofText_of_unread {fault : DecodeError} (h : readEntries text = .error fault) :
    ofText text = .error (.document fault) := by
  unfold ofText
  rw [decodeDocument_eq, h]
  rfl

theorem ofText_of_read (h : readEntries text = .ok entries) :
    ofText text = ofDocument (.ofList entries) := by
  apply ofText_of_decoded
  rw [decodeDocument_eq, h]
  rfl

/-- Fewer names are held than are written, if one of them is written twice. -/
theorem size_ofList_lt (h : ¬ (entries.map (·.1)).Nodup) :
    (Table.ofList entries).size < entries.length := by
  have hsubset : (Table.ofList entries).keys ⊆ entries.map (·.1) := by
    intro name hname
    obtain ⟨m, hm, rfl⟩ := List.mem_map.1 hname
    exact List.mem_map_of_mem (Table.mem_of_mem_ofList hm)
  have hsubperm := List.subperm_of_subset (Table.nodup_keys _) hsubset
  have hsize : (Table.ofList entries).keys.length = (Table.ofList entries).size :=
    List.length_map _
  have hnames : (entries.map (·.1)).length = entries.length := List.length_map _
  by_contra hle
  -- a list of as many names as are written would be all of them, each once
  have hperm := hsubperm.perm_of_length_le (by omega)
  exact h (hperm.nodup_iff.1 (Table.nodup_keys _))

/-- **Of a name that is written twice, the last entry counts.** Such a document is refused exactly
when it cannot be read or the last entry under one of its names cannot be built; whatever is
written under the name before the last entry is lost without a word. The builder refuses the same
entries, whatever they are. -/
theorem ofText_of_repeated (h : RepeatsName text) :
    ((∃ e, ofText text = .error e) ↔ ∀ entries, readEntries text = .ok entries →
      ∃ name entry, lastEntry? entries name = some entry ∧
        ∃ e, MethodPolicy.build entry.declarations = .error e) ∧
    (∀ r, ofText text = .ok r → ∃ entries, readEntries text = .ok entries ∧
      r.size < entries.length ∧ ∀ name p, r.get? name = some p ↔
        ∃ entry, lastEntry? entries name = some entry ∧
          MethodPolicy.build entry.declarations = .ok p) ∧
    ∀ entries, readEntries text = .ok entries → ∃ e, build (methodCalls entries) = .error e := by
  cases hread : readEntries text with
  | error fault =>
    have herror : ofText text = .error (.document fault) := ofText_of_unread hread
    refine ⟨⟨fun _ entries hentries => ?_, fun _ => ⟨_, herror⟩⟩, fun r hr => ?_,
      fun entries hentries => ?_⟩
    · cases hentries
    · rw [herror] at hr; cases hr
    · cases hentries
  | ok entries =>
    have hofText := ofText_of_read hread
    have hrepeats : ¬ (entries.map (·.1)).Nodup := by
      rw [← writtenNames_of_read hread]
      exact h
    have hlast (name : String) :
        (Table.ofList entries).get? name = lastEntry? entries name := Table.get?_ofList entries name
    refine ⟨?_, ?_, ?_⟩
    · rw [exists_error_iff, hofText, ofDocument_isOk_iff]
      simp only [hlast, exists_error_iff, Except.ok.injEq, forall_eq', not_forall, exists_prop]
    · intro r hr
      rw [hofText] at hr
      refine ⟨entries, rfl, ?_, ?_⟩
      · rw [size_of_ofDocument hr]
        exact size_ofList_lt hrepeats
      · intro name p
        rw [get?_of_ofDocument hr, hlast]
    · rintro _ ⟨⟩
      cases hbuild : build (methodCalls entries) with
      | error e => exact ⟨e, rfl⟩
      | ok r =>
        have distinct := (build_eq_ok_iff.1 hbuild).distinct
        rw [methodCalls_names] at distinct
        exact absurd distinct hrepeats

namespace Sample

/-- One method, written twice: with a requirement on its result, and with none. -/
def twiceDocument : String :=
  "\x7b\"cases.list\": \x7b\"returns\": [\"case:view:r.county\"]\x7d, " ++
    "\"cases.list\": \x7b\x7d\x7d"

/-- The two entries as they are written. -/
def twiceEntries : List (String × MethodEntry) :=
  [("cases.list", listEntry), ("cases.list", ⟨[], []⟩)]

end Sample

/-- The builder refuses the two entries of one method. -/
theorem ofText_of_repeated_sample :
    RepeatsName Sample.twiceDocument ∧ readEntries Sample.twiceDocument = .ok Sample.twiceEntries ∧
      ∃ e, build (methodCalls Sample.twiceEntries) = .error e := by
  have h : RepeatsName Sample.twiceDocument := by decide +kernel
  have hread : readEntries Sample.twiceDocument = .ok Sample.twiceEntries := by decide +kernel
  exact ⟨h, hread, (ofText_of_repeated h).2.2 Sample.twiceEntries hread⟩

/-- **What is required first is lost.** The method is written twice, and no fault is reported: it
is registered without the requirement on its result. -/
theorem ofText_drops_repeated :
    RepeatsName Sample.twiceDocument ∧
      readEntries Sample.twiceDocument = .ok Sample.twiceEntries ∧
      Sample.twiceEntries.head? = some ("cases.list", ⟨[], ["case:view:r.county"]⟩) ∧
      ofText Sample.twiceDocument = .ok ⟨⟨[("cases.list", .empty)], by decide⟩⟩ :=
  ⟨by decide +kernel, by decide +kernel, rfl, by decide +kernel⟩

end Registry

end AccessGuard
