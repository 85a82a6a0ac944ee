import AccessGuard.Proofs.Decoding
import AccessGuard.Proofs.GrantMatching
import AccessGuard.Proofs.WrittenJson
import AccessGuard.Subject.Principal
import Mathlib.Data.List.Permutation

/-!
# Stored principals and policies

A principal and a policy are stored as JSON. Of a grant only its text is stored, and it is read
again when the document is; what a grant says is settled by its text, so nothing is lost. The
members of an object may be written in any order. A text that is no grant makes the whole document
unreadable, wherever it stands: whatever is read holds a grant for every text that is listed.

* `Uuid.read?_text`: identifiers are read back.
* `Principal.ofText_of_perm`, `RolePolicy.ofText_of_perm`: principals and policies are read back.
* `Principal.grantTexts_of_ofText`, `RolePolicy.roleTexts_of_ofText`: no grant is left out.
* `stored_rereads`: both together.
-/

namespace AccessGuard

/-! ## Identifiers -/

namespace Uuid

variable {cs : List Char}

theorem splitOn_groupedText (h : '-' ∉ cs) : (groupedText cs).splitOn '-' =
    [cs.take 8, (cs.drop 8).take 4, (cs.drop 12).take 4, (cs.drop 16).take 4, cs.drop 20] := by
  have hdrop (n : Nat) : '-' ∉ cs.drop n := fun hmem => h (List.mem_of_mem_drop hmem)
  have htake (n m : Nat) : '-' ∉ (cs.drop n).take m := fun hmem =>
    hdrop n (List.mem_of_mem_take hmem)
  have hfirst : '-' ∉ cs.take 8 := fun hmem => h (List.mem_of_mem_take hmem)
  unfold groupedText
  simp only [List.splitOn_append_cons_self, List.splitOn_eq_singleton hfirst,
    List.splitOn_eq_singleton (htake _ _), List.splitOn_eq_singleton (hdrop _), List.cons_append,
    List.nil_append]

theorem ofGroups?_groupedText (h : '-' ∉ cs) (hlength : cs.length = 32) :
    ofGroups? (groupedText cs) = ofDigits? cs := by
  have hgroup (n m : Nat) : (cs.drop n).take m ++ cs.drop (n + m) = cs.drop n := by
    rw [← List.drop_drop, List.take_append_drop]
  have hjoin : cs.take 8 ++ (cs.drop 8).take 4 ++ (cs.drop 12).take 4 ++ (cs.drop 16).take 4 ++
      cs.drop 20 = cs := by
    simp only [List.append_assoc]
    rw [hgroup 16 4, hgroup 12 4, hgroup 8 4, List.take_append_drop]
  have hlengths : [cs.take 8, (cs.drop 8).take 4, (cs.drop 12).take 4, (cs.drop 16).take 4,
      cs.drop 20].map List.length = [8, 4, 4, 4, 12] := by
    simp [hlength]
  unfold ofGroups?
  rw [splitOn_groupedText h]
  dsimp only
  rw [if_pos hlengths, hjoin]

/-- The digits of an identifier as they are written. -/
def digitText (u : Uuid) : List Char := u.digits.map fun d => Nat.digitChar d.val

theorem ofDigits?_digitText (u : Uuid) : ofDigits? u.digitText = some u := by
  have hdigits (ds : List (Fin 16)) :
      (ds.map fun d => Nat.digitChar d.val).mapM hexDigit? = some ds := by
    induction ds with
    | nil => rfl
    | cons d ds ih => simp [ih]
  unfold ofDigits? digitText
  simp [hdigits, u.length_eq]

@[simp] theorem length_digitText (u : Uuid) : u.digitText.length = 32 := by
  unfold digitText
  rw [List.length_map, u.length_eq]

/-- No digit is taken for a hyphen, or for the beginning of another spelling. -/
theorem digitChar_plain : ∀ d : Fin 16, Nat.digitChar d.val ≠ '-' ∧
    Nat.digitChar d.val ≠ '\x7b' ∧ (Nat.digitChar d.val).toLower ≠ 'u' := by decide

theorem hyphen_not_mem_digitText (u : Uuid) : '-' ∉ u.digitText := by
  unfold digitText
  simp only [List.mem_map, not_exists, not_and]
  exact fun d _ => (digitChar_plain d).1

theorem exists_groupedText_eq_cons (u : Uuid) : ∃ (d : Fin 16) (rest : List Char),
    groupedText u.digitText = Nat.digitChar d.val :: rest := by
  obtain ⟨digits, hdigits⟩ := u
  cases digits with
  | nil => cases hdigits
  | cons d digits => exact ⟨d, _, rfl⟩

/-- **What is written of an identifier is read back.** -/
theorem read?_text (u : Uuid) : read? u.text = some u := by
  have htext : u.text.toList = groupedText u.digitText := String.toList_ofList
  have hgroups : ofGroups? (groupedText u.digitText) = some u := by
    rw [ofGroups?_groupedText u.hyphen_not_mem_digitText u.length_digitText, ofDigits?_digitText]
  obtain ⟨d, rest, hwritten⟩ := u.exists_groupedText_eq_cons
  obtain ⟨-, hbrace, hletter⟩ := digitChar_plain d
  have hurn : inUrnSpace (groupedText u.digitText) = false := by
    rw [hwritten]
    simp [inUrnSpace, hletter]
  have hhyphens : (groupedText u.digitText).contains '-' = true := by
    simp [groupedText]
  unfold read?
  rw [htext]
  split
  case h_1 cs heq =>
    rw [hwritten] at heq
    exact absurd (List.cons.inj heq).1 hbrace
  case h_2 =>
    rw [if_neg (by simp [hurn]), if_pos hhyphens, hgroups]

end Uuid

/-! ## Written documents -/

namespace Json

theorem itemsIntegersOnly_iff {js : List Json} :
    ItemsIntegersOnly js ↔ ∀ j ∈ js, j.IntegersOnly := by
  induction js with
  | nil => simp [ItemsIntegersOnly]
  | cons j js ih => rw [ItemsIntegersOnly, List.forall_mem_cons, ih]

theorem membersIntegersOnly_iff {ms : List (String × Json)} :
    MembersIntegersOnly ms ↔ ∀ m ∈ ms, m.2.IntegersOnly := by
  induction ms with
  | nil => simp [MembersIntegersOnly]
  | cons m ms ih => rw [MembersIntegersOnly, List.forall_mem_cons, ih]

theorem texts_integersOnly (texts : List String) : (array (texts.map string)).IntegersOnly := by
  refine itemsIntegersOnly_iff.2 fun j hj => ?_
  obtain ⟨s, -, rfl⟩ := List.mem_map.1 hj
  exact trivial

end Json

namespace Tree

theorem itemsOfJson_eq_map (js : List Json) : itemsOfJson js = js.map ofJson := by
  induction js with
  | nil => rfl
  | cons j js ih => rw [itemsOfJson, List.map_cons, ih]

theorem membersOfJson_eq_map (ms : List (String × Json)) :
    membersOfJson ms = ms.map fun m => (some m.1.toList, ofJson m.2) := by
  induction ms with
  | nil => rfl
  | cons m ms ih => rw [membersOfJson, List.map_cons, ih]

/-- A list of texts in a document. -/
def ofTexts (texts : List String) : Tree := array (texts.map fun s => quoted (some s.toList)) true

/-- The texts of a list, without what is no text. -/
def listedTexts : Tree → List String
  | array items _ => items.filterMap fun t => match t with
    | quoted (some cs) => some (.ofList cs)
    | _ => none
  | _ => []

theorem ofJson_texts (texts : List String) :
    ofJson (.array (texts.map .string)) = ofTexts texts := by
  simp [ofJson, itemsOfJson_eq_map, ofTexts]

@[simp] theorem listedTexts_ofTexts (texts : List String) :
    (ofTexts texts).listedTexts = texts := by
  unfold ofTexts listedTexts
  simp [List.filterMap_map]

/-- **A list is read as texts**, if each item is. -/
theorem decodeList_texts_iff {α : Type} {decode : Tree → Except DecodeError α} {text : α → String}
    (h : ∀ t x, decode t = .ok x ↔ t = quoted (some (text x).toList)) {t : Tree} {xs : List α} :
    decodeList decode t = .ok xs ↔ t = ofTexts (xs.map text) := by
  have hitems (items : List Tree) : List.Forall₂ (fun t x => decode t = .ok x) items xs ↔
      items = xs.map fun x => quoted (some (text x).toList) := by
    have hmap : List.Forall₂ Eq items (xs.map fun x => quoted (some (text x).toList)) ↔
        List.Forall₂ (fun t x => t = quoted (some (text x).toList)) items xs :=
      List.forall₂_map_right_iff
    simp only [h]
    rw [← hmap, List.forall₂_eq_eq_eq]
  simp only [decodeList_eq_ok_iff, hitems, ofTexts, List.map_map, exists_eq_right,
    Function.comp_def]

theorem decodeList_string_iff {t : Tree} {ss : List String} :
    decodeList decodeString t = .ok ss ↔ t = ofTexts ss := by
  have htexts : decodeList decodeString t = .ok ss ↔ t = ofTexts (ss.map id) :=
    decodeList_texts_iff fun _ _ => decodeString_eq_ok_iff
  rw [htexts, List.map_id]

end Tree

namespace Grant

theorem decode_eq_ok_iff {t : Tree} {g : Grant} :
    Grant.decode t = .ok g ↔ t = .quoted (some g.text.toList) := by
  constructor
  · intro h
    obtain ⟨text, htext, hg⟩ := bind_eq_ok_iff.1 h
    cases hparse : parse text with
    | error e =>
      rw [hparse] at hg
      cases hg
    | ok g' =>
      rw [hparse] at hg
      cases hg
      rw [Tree.decodeString_eq_ok_iff.1 htext, parse_eq_ok.1 hparse]
  · intro h
    have hparse : parse g.text = .ok g := parse_eq_ok.2 rfl
    refine bind_eq_ok_iff.2 ⟨g.text, Tree.decodeString_eq_ok_iff.2 h, ?_⟩
    rw [hparse]
    rfl

/-- Of grants their texts are stored. -/
theorem decodeList_iff {t : Tree} {gs : List Grant} :
    Tree.decodeList Grant.decode t = .ok gs ↔ t = .ofTexts (gs.map Grant.text) :=
  Tree.decodeList_texts_iff fun _ _ => decode_eq_ok_iff

theorem listedTexts_of_decodeList {t : Tree} {gs : List Grant}
    (h : Tree.decodeList Grant.decode t = .ok gs) : t.listedTexts = gs.map Grant.text := by
  rw [decodeList_iff.1 h, Tree.listedTexts_ofTexts]

theorem listToJson_eq (gs : List Grant) :
    listToJson gs = .array ((gs.map Grant.text).map .string) := by
  rw [List.map_map]
  rfl

theorem ofJson_listToJson (gs : List Grant) :
    Tree.ofJson (listToJson gs) = .ofTexts (gs.map Grant.text) := by
  rw [listToJson_eq, Tree.ofJson_texts]

theorem listToJson_integersOnly (gs : List Grant) : (listToJson gs).IntegersOnly := by
  rw [listToJson_eq]
  exact Json.texts_integersOnly _

end Grant

/-! ## Principals -/

theorem Uuid.decode_text (u : Uuid) : Uuid.decode (.quoted (some u.text.toList)) = .ok u := by
  refine bind_eq_ok_iff.2 ⟨u.text, Tree.decodeString_eq_ok_iff.2 rfl, ?_⟩
  rw [Uuid.read?_text]
  rfl

namespace Principal

variable {who : Principal} {d d' : Draft} {t : Tree}

/-- The members of a stored principal. -/
def members (who : Principal) : List (String × Json) := [
  ("principal_id", .string who.id.text),
  ("roles", .array (who.roles.map .string)),
  ("grants", Grant.listToJson who.grants)]

theorem decodeField_id (h : d.id = none) :
    decodeField d "principal_id" (Tree.ofJson (.string who.id.text)) =
      .ok { d with id := some who.id } := by
  have hset : Tree.setOnce "principal_id" d.id Uuid.decode (Tree.ofJson (.string who.id.text)) =
      .ok (some who.id) :=
    Tree.setOnce_eq_ok_iff.2 ⟨h, _, Uuid.decode_text who.id, rfl⟩
  unfold decodeField
  exact bind_eq_ok_iff.2 ⟨_, hset, rfl⟩

theorem decodeField_roles (h : d.roles = none) :
    decodeField d "roles" (Tree.ofJson (.array (who.roles.map .string))) =
      .ok { d with roles := some who.roles } := by
  have hroles := Tree.decodeList_string_iff.2 (Tree.ofJson_texts who.roles)
  unfold decodeField
  exact bind_eq_ok_iff.2 ⟨_, Tree.setOnce_eq_ok_iff.2 ⟨h, _, hroles, rfl⟩, rfl⟩

theorem decodeField_grants (h : d.grants = none) :
    decodeField d "grants" (Tree.ofJson (Grant.listToJson who.grants)) =
      .ok { d with grants := some who.grants } := by
  have hgrants := Grant.decodeList_iff.2 (Grant.ofJson_listToJson who.grants)
  unfold decodeField
  exact bind_eq_ok_iff.2 ⟨_, Tree.setOnce_eq_ok_iff.2 ⟨h, _, hgrants, rfl⟩, rfl⟩

/-- **The members of a principal are read in any order.** -/
theorem foldMembers_of_perm {ms : List (String × Json)} (h : ms.Perm who.members) :
    Tree.foldMembers decodeField {} (ms.map fun m => (some m.1.toList, Tree.ofJson m.2)) =
      .ok ⟨some who.id, some who.roles, some who.grants⟩ := by
  have horders := List.mem_permutations'.2 h
  simp only [members, List.permutations', List.permutations'Aux, List.flatMap_cons,
    List.flatMap_nil, List.map_cons, List.map_nil, List.append_nil, List.cons_append,
    List.nil_append, List.mem_cons, List.not_mem_nil, or_false] at horders
  have hnamed (d : Draft) (name : String) (t : Tree) (rest : List (Option (List Char) × Tree)) :
      Tree.foldMembers decodeField d ((some name.toList, t) :: rest) =
        (decodeField d name t).bind fun next => Tree.foldMembers decodeField next rest := by
    rw [Tree.foldMembers, String.ofList_toList]
    rfl
  have hnone (d : Draft) : Tree.foldMembers decodeField d [] = .ok d := rfl
  rcases horders with rfl | rfl | rfl | rfl | rfl | rfl <;>
    simp only [List.map_cons, List.map_nil, hnamed, hnone, decodeField_id, decodeField_roles,
      decodeField_grants, Except.bind]

theorem integersOnly_of_perm {ms : List (String × Json)} (h : ms.Perm who.members) :
    (Json.object ms).IntegersOnly := by
  refine Json.membersIntegersOnly_iff.2 fun m hm => ?_
  have hmem := h.mem_iff.1 hm
  simp only [members, List.mem_cons, List.not_mem_nil, or_false] at hmem
  rcases hmem with rfl | rfl | rfl
  · exact trivial
  · exact Json.texts_integersOnly who.roles
  · exact Grant.listToJson_integersOnly who.grants

/-- **A stored principal is read back**, whatever the order of its members. -/
theorem ofText_of_perm {ms : List (String × Json)} (h : ms.Perm who.members) :
    ofText (Json.object ms).compact = .ok who := by
  refine Tree.decodeText_eq_ok_iff.2 ⟨_, Tree.ofText_compact (integersOnly_of_perm h), ?_⟩
  rw [Tree.ofJson, Tree.membersOfJson_eq_map, decode, foldMembers_of_perm h]
  rfl

theorem exists_toJson_eq (who : Principal) :
    ∃ ms, who.toJson = .object ms ∧ ms.Perm who.members := by
  have hroles : compare "roles" "principal_id" = .gt := by decide
  have hgrants : compare "grants" "principal_id" = .lt := by decide
  refine ⟨[("grants", Grant.listToJson who.grants), ("principal_id", .string who.id.text),
    ("roles", .array (who.roles.map .string))], ?_, .trans (.swap ..) (.cons _ (.swap ..))⟩
  simp only [toJson, Json.ofMembers, sortEntries, List.foldl_cons, List.foldl_nil, insertEntry,
    hroles, hgrants]

/-! ## No grant is left out -/

/-- The grant texts that a member lists. -/
def memberGrantTexts (m : Option (List Char) × Tree) : List String :=
  if m.1 = some "grants".toList then m.2.listedTexts else []

/-- The texts in the place of grants: under their name, or third in an array. -/
def grantTexts : Tree → List String
  | .object members _ => members.flatMap memberGrantTexts
  | .array items _ => (items[2]?.map Tree.listedTexts).getD []
  | _ => []

/-- The texts of the grants read so far. -/
def Draft.texts (d : Draft) : List String := (d.grants.getD []).map Grant.text

theorem texts_of_decodeField {name : String} (h : decodeField d name t = .ok d') :
    d'.texts = d.texts ++ memberGrantTexts (some name.toList, t) := by
  have hother (hne : name ≠ "grants") (hgrants : d'.grants = d.grants) :
      d'.texts = d.texts ++ memberGrantTexts (some name.toList, t) := by
    have hname : some name.toList ≠ some "grants".toList := fun heq =>
      hne (String.toList_inj.1 (Option.some.inj heq))
    rw [Draft.texts, hgrants, memberGrantTexts, if_neg hname, List.append_nil, Draft.texts]
  unfold decodeField at h
  split at h
  case h_1 =>
    obtain ⟨id, -, hd⟩ := bind_eq_ok_iff.1 h
    cases hd
    exact hother (by decide) rfl
  case h_2 =>
    obtain ⟨roles, -, hd⟩ := bind_eq_ok_iff.1 h
    cases hd
    exact hother (by decide) rfl
  case h_3 =>
    obtain ⟨found, hfound, hd⟩ := bind_eq_ok_iff.1 h
    cases hd
    obtain ⟨hnone, gs, hgs, rfl⟩ := Tree.setOnce_eq_ok_iff.1 hfound
    simp [Draft.texts, hnone, memberGrantTexts, Grant.listedTexts_of_decodeList hgs]
  case h_4 hne =>
    obtain ⟨-, -, hd⟩ := bind_eq_ok_iff.1 h
    cases hd
    exact hother hne rfl

theorem texts_of_foldMembers {ms : List (Option (List Char) × Tree)}
    (h : Tree.foldMembers decodeField d ms = .ok d') :
    d'.texts = d.texts ++ ms.flatMap memberGrantTexts := by
  induction ms generalizing d with
  | nil =>
    cases h
    exact (List.append_nil _).symm
  | cons m ms ih =>
    obtain ⟨name, next, hname, hnext, hrest⟩ := Tree.foldMembers_cons_eq_ok_iff.1 h
    have hm : m = (some name.toList, m.2) := Prod.ext hname rfl
    rw [ih hrest, texts_of_decodeField hnext, ← hm, List.append_assoc, List.flatMap_cons]

/-- **A principal that is read holds every grant of its document**, in the same order. -/
theorem grantTexts_of_decode (h : decode t = .ok who) :
    who.grants.map Grant.text = grantTexts t := by
  cases t with
  | object ms closed =>
    obtain ⟨d, hd, hwho⟩ := bind_eq_ok_iff.1 h
    cases closed with
    | false => cases hwho
    | true =>
      obtain ⟨id, -, hwho⟩ := bind_eq_ok_iff.1 hwho
      cases hwho
      exact texts_of_foldMembers hd
  | array items closed =>
    obtain ⟨⟨id, rest⟩, hid, h⟩ := bind_eq_ok_iff.1 h
    obtain ⟨⟨roles, rest'⟩, hroles, h⟩ := bind_eq_ok_iff.1 h
    obtain ⟨⟨gs, rest''⟩, hgrants, h⟩ := bind_eq_ok_iff.1 h
    obtain ⟨-, -, hwho⟩ := bind_eq_ok_iff.1 h
    cases hwho
    obtain ⟨t, rfl, -⟩ := Tree.nextField_eq_ok_iff.1 hid
    -- roles and grants may be left off the end
    obtain ⟨rfl, -, rfl⟩ | ⟨t', rfl, -⟩ := Tree.nextFieldOr_eq_ok_iff.1 hroles
    · obtain ⟨-, rfl, -⟩ | ⟨t'', hnil, -⟩ := Tree.nextFieldOr_eq_ok_iff.1 hgrants
      · rfl
      · cases hnil
    · obtain ⟨rfl, rfl, -⟩ | ⟨t'', rfl, hgs⟩ := Tree.nextFieldOr_eq_ok_iff.1 hgrants
      · rfl
      · exact (Grant.listedTexts_of_decodeList hgs).symm
  | _ => cases h

theorem grantTexts_of_ofText {text : String} (h : ofText text = .ok who) :
    who.grants.map Grant.text = grantTexts (Tree.ofText text).1 := by
  obtain ⟨t, htree, ht⟩ := Tree.decodeText_eq_ok_iff.1 h
  rw [htree]
  exact grantTexts_of_decode ht

end Principal

/-! ## Policies -/

namespace RolePolicy

variable {policy : RolePolicy} {t : Tree} {entries : List (String × List Grant)}

/-- The members of a stored policy, one for each role. -/
def members (entries : List (String × List Grant)) : List (String × Json) :=
  entries.map fun e => (e.1, Grant.listToJson e.2)

theorem decode_eq_ok_iff : decode t = .ok policy ↔ ∃ members entries, t = .object members true ∧
    List.Forall₂ (Tree.ReadAs (Tree.decodeList Grant.decode)) members entries ∧
      policy = ⟨.ofList entries⟩ := by
  unfold decode
  simp only [bind_eq_ok_iff, pure_eq_ok_iff, Tree.decodeMembers_eq_ok_iff]
  constructor
  · rintro ⟨entries, ⟨members, rfl, hread⟩, rfl⟩
    exact ⟨members, entries, rfl, hread, rfl⟩
  · rintro ⟨members, entries, rfl, hread, rfl⟩
    exact ⟨entries, ⟨members, rfl, hread⟩, rfl⟩

/-- **A stored policy is read back**, whatever the order of its roles. -/
theorem ofText_of_perm (h : entries.Perm policy.roles.entries) :
    ofText (Json.object (members entries)).compact = .ok policy := by
  have hints : (Json.object (members entries)).IntegersOnly := by
    refine Json.membersIntegersOnly_iff.2 fun m hm => ?_
    obtain ⟨e, -, rfl⟩ := List.mem_map.1 hm
    exact Grant.listToJson_integersOnly e.2
  have hread (e : String × List Grant) :
      Tree.ReadAs (Tree.decodeList Grant.decode)
        (some e.1.toList, Tree.ofJson (Grant.listToJson e.2)) e :=
    ⟨rfl, Grant.decodeList_iff.2 (Grant.ofJson_listToJson e.2)⟩
  refine Tree.decodeText_eq_ok_iff.2 ⟨_, Tree.ofText_compact hints, ?_⟩
  rw [Tree.ofJson, Tree.membersOfJson_eq_map, members, List.map_map]
  refine decode_eq_ok_iff.2 ⟨_, entries, rfl, ?_, ?_⟩
  · rw [List.forall₂_map_left_iff, List.forall₂_same]
    exact fun e _ => hread e
  · rw [Table.ofList_of_perm h]

/-- Every name in a policy with the grant texts that are listed under it. -/
def roleTexts : Tree → List (Option (List Char) × List String)
  | .object members _ => members.map fun m => (m.1, m.2.listedTexts)
  | _ => []

/-- **A policy that is read is made of every grant of its document.** -/
theorem roleTexts_of_ofText {text : String} (h : ofText text = .ok policy) :
    ∃ entries, policy = ⟨.ofList entries⟩ ∧ roleTexts (Tree.ofText text).1 =
      entries.map fun e => (some e.1.toList, e.2.map Grant.text) := by
  obtain ⟨t, htree, ht⟩ := Tree.decodeText_eq_ok_iff.1 h
  obtain ⟨members, entries, rfl, hread, rfl⟩ := decode_eq_ok_iff.1 ht
  refine ⟨entries, rfl, ?_⟩
  rw [htree, roleTexts]
  clear h htree ht
  induction hread with
  | nil => rfl
  | cons hm _ ih =>
    rw [List.map_cons, List.map_cons, ih, hm.1, Grant.listedTexts_of_decodeList hm.2]

end RolePolicy

/-! ## Both -/

/-- A text that is no grant. -/
def Refused (text : String) : Prop := ∃ e, Grant.parse text = .error e

theorem Grant.not_refused (g : Grant) : ¬ Refused g.text := by
  rintro ⟨e, he⟩
  have hparse : Grant.parse g.text = .ok g := Grant.parse_eq_ok.2 rfl
  rw [hparse] at he
  cases he

/-- **Stored principals and policies are read back** as they were, whatever the order in which the
members of an object are written, so the subject that is made of both has the same effective grants
in the same order. And no document is read without one of its grants: what is read holds every text
that is listed as a grant, and where one of them is refused the document is, also under a role that
is listed again. -/
theorem stored_rereads (who : Principal) (policy : RolePolicy) :
    (Principal.ofText who.toJson.compact = .ok who ∧ ∀ members, members.Perm who.members →
      Principal.ofText (Json.object members).compact = .ok who) ∧
    (RolePolicy.ofText policy.toJson.compact = .ok policy ∧
      ∀ entries, entries.Perm policy.roles.entries →
        RolePolicy.ofText (Json.object (RolePolicy.members entries)).compact = .ok policy) ∧
    (∀ who' policy', Principal.ofText who.toJson.compact = .ok who' →
      RolePolicy.ofText policy.toJson.compact = .ok policy' →
        (PrincipalSubject.of who' policy').grants = (PrincipalSubject.of who policy).grants) ∧
    ∀ text,
      (∀ who', Principal.ofText text = .ok who' →
        who'.grants.map Grant.text = Principal.grantTexts (Tree.ofText text).1) ∧
      ((∃ listed ∈ Principal.grantTexts (Tree.ofText text).1, Refused listed) →
        ∃ e, Principal.ofText text = .error e) ∧
      (∀ policy', RolePolicy.ofText text = .ok policy' → ∃ entries,
        policy'.roles = .ofList entries ∧ RolePolicy.roleTexts (Tree.ofText text).1 =
          entries.map fun e => (some e.1.toList, e.2.map Grant.text)) ∧
      ((∃ role ∈ RolePolicy.roleTexts (Tree.ofText text).1, ∃ listed ∈ role.2, Refused listed) →
        ∃ e, RolePolicy.ofText text = .error e) := by
  obtain ⟨ms, hms, horder⟩ := who.exists_toJson_eq
  have hwho : Principal.ofText who.toJson.compact = .ok who := by
    rw [hms]
    exact Principal.ofText_of_perm horder
  have hpolicy : RolePolicy.ofText policy.toJson.compact = .ok policy :=
    RolePolicy.ofText_of_perm (.refl _)
  refine ⟨⟨hwho, fun _ => Principal.ofText_of_perm⟩, ⟨hpolicy, fun _ => RolePolicy.ofText_of_perm⟩,
    ?_, ?_⟩
  · intro who' policy' hwho' hpolicy'
    cases hwho.symm.trans hwho'
    cases hpolicy.symm.trans hpolicy'
    rfl
  · intro text
    refine ⟨fun _ => Principal.grantTexts_of_ofText, ?_, ?_, ?_⟩
    · rintro ⟨listed, hlisted, hrefused⟩
      cases hread : Principal.ofText text with
      | error e => exact ⟨e, rfl⟩
      | ok who' =>
        rw [← Principal.grantTexts_of_ofText hread] at hlisted
        obtain ⟨g, -, rfl⟩ := List.mem_map.1 hlisted
        exact absurd hrefused g.not_refused
    · intro policy' hread
      obtain ⟨entries, rfl, htexts⟩ := RolePolicy.roleTexts_of_ofText hread
      exact ⟨entries, rfl, htexts⟩
    · rintro ⟨role, hrole, listed, hlisted, hrefused⟩
      cases hread : RolePolicy.ofText text with
      | error e => exact ⟨e, rfl⟩
      | ok policy' =>
        obtain ⟨entries, -, htexts⟩ := RolePolicy.roleTexts_of_ofText hread
        rw [htexts] at hrole
        obtain ⟨e, -, rfl⟩ := List.mem_map.1 hrole
        obtain ⟨g, -, rfl⟩ := List.mem_map.1 hlisted
        exact absurd hrefused g.not_refused

namespace Sample

/-- Spelled with white space and with a value twice. -/
def spelledGrant : Grant :=
  ⟨" case : view , edit,view:*", [.oneOf ["case"], .oneOf ["view", "edit", "view"], .any],
    by decide +kernel⟩

/-- Holds a grant twice and a role twice, another role between them. -/
def stored : Principal where
  id := .ofTime 1700000000000 0
  roles := ["clerk", "\"night\" shift", "clerk"]
  grants := [spelledGrant, spelledGrant]

/-- A role twice, with a text first that is no grant. -/
def spoiledPolicy : String := "\x7b\"clerk\": [\"case:view\", \"case::view\"], \"clerk\": []\x7d"

end Sample

/-- A principal is read back with its members turned around. A policy is refused for a text under a
role whose last entry grants nothing. -/
theorem stored_rereads_sample :
    let who := Sample.stored
    (who.members.reverse.Perm who.members ∧
      Principal.ofText (Json.object who.members.reverse).compact = .ok who) ∧
    (Refused "case::view" ∧
      (some "clerk".toList, ["case:view", "case::view"]) ∈
        RolePolicy.roleTexts (Tree.ofText Sample.spoiledPolicy).1 ∧
      ∃ e, RolePolicy.ofText Sample.spoiledPolicy = .error e) := by
  intro who
  obtain ⟨⟨-, hwho⟩, -, -, hdocuments⟩ := stored_rereads who .empty
  have hrefused : Refused "case::view" := ⟨.emptyPart "case::view", by decide +kernel⟩
  have hrole : (some "clerk".toList, ["case:view", "case::view"]) ∈
      RolePolicy.roleTexts (Tree.ofText Sample.spoiledPolicy).1 := by decide +kernel
  have hlisted : "case::view" ∈ ["case:view", "case::view"] := by decide
  exact ⟨⟨List.reverse_perm _, hwho _ (List.reverse_perm _)⟩, hrefused, hrole,
    (hdocuments Sample.spoiledPolicy).2.2.2 ⟨_, hrole, _, hlisted, hrefused⟩⟩

end AccessGuard
