import AccessGuard.Permission
import Mathlib.Data.String.Basic

/-!
# The layout of a permission

A permission is kept as its text and three numbers of bytes: where the action begins, where the
selector begins and how long its binding is. Each part is cut out of the text again when it is
asked for. A slice is a text only if neither of its ends falls inside a character, that is, if a
whole number of characters stands in front of each; then it is what stands between them.

* `slice_append`: the slice from behind the first of three texts to the end of the second.
* `permission_layout`: the parts of a permission are cut out of its text as they were put in.
* `read_of_cutInto`: what a text is read as, by the parts at which it is cut.
* `parse_eq_ok`: a permission is read from exactly the text that it is written as.
* `read_exact`: when a text is read, why it is not, and where the slices of its layout end.
-/

namespace AccessGuard

/-- Characters that begin a step are not part of an identifier. -/
theorem isNameChar_of_startsPath {c : Char} (h : Permission.startsPath c = true) :
    isNameChar c = false := by
  simp only [Permission.startsPath, Bool.or_eq_true, beq_iff_eq] at h
  rcases h with rfl | rfl <;> decide

/-- An identifier does not begin with a blank. -/
theorem isBlank_of_isNameStart {c : Char} (h : isNameStart c = true) : isBlank c = false := by
  have hc : (65 ≤ c.toNat ∧ c.toNat ≤ 90) ∨ (97 ≤ c.toNat ∧ c.toNat ≤ 122) ∨ c.toNat = 95 := by
    have hletters : isNameStart c = (decide (65 ≤ c.val ∧ c.val ≤ 90) ||
        (decide (97 ≤ c.val) && decide (c.val ≤ 122)) || c == '_') := rfl
    rw [hletters] at h
    simp only [Bool.or_eq_true, Bool.and_eq_true, decide_eq_true_eq, beq_iff_eq,
      UInt32.le_iff_toNat_le] at h
    rcases h with (h | h) | rfl
    · exact .inl h
    · exact .inr (.inl h)
    · exact .inr (.inr rfl)
  simp only [isBlank, blankRanges, List.any_cons, List.any_nil, Bool.or_false,
    Bool.or_eq_false_iff, Bool.and_eq_false_iff, decide_eq_false_iff_not]
  omega

namespace Permission

/-! ## Slices -/

/-- **Between characters**, or at either end of the text. -/
def Boundary (text : String) (position : Nat) : Prop :=
  String.Pos.Raw.IsValid text ⟨position⟩

instance (text : String) (position : Nat) : Decidable (Boundary text position) :=
  decidable_of_iff _ String.Pos.Raw.isValid_eq_true_iff

theorem boundary_iff {text : String} {position : Nat} :
    Boundary text position ↔ ∃ before after, text = before ++ after ∧
      position = before.utf8ByteSize := by
  simp only [Boundary, String.Pos.Raw.isValid_iff_exists_append, String.Pos.Raw.ext_iff,
    String.byteIdx_rawEndPos]

/-- **A slice between boundaries** is the text that stands between them. -/
theorem slice_append (before middle after : String) :
    slice (before ++ middle ++ after) before.utf8ByteSize
      (before.utf8ByteSize + middle.utf8ByteSize) = middle := by
  have hcut := String.extract_of_valid before.toList middle.toList after.toList
  rw [slice]
  simpa only [← String.utf8ByteSize_ofList, String.ofList_append, String.ofList_toList] using hcut

theorem slice_eq {text before middle after : String} {first last : Nat}
    (htext : text = before ++ middle ++ after) (hfirst : first = before.utf8ByteSize)
    (hlast : last = before.utf8ByteSize + middle.utf8ByteSize) :
    slice text first last = middle := by
  rw [htext, hfirst, hlast, slice_append]

/-! ## The layout of a permission -/

/-- Where the parts of a permission stand in its text. -/
def layout (p : Permission) : Layout := .ofCuts p.text p.domain p.action p.binding

theorem size_colon : ":".utf8ByteSize = 1 := rfl

variable (p : Permission)

@[simp] theorem layout_text : p.layout.text = p.text := rfl

theorem layout_actionAt : p.layout.actionAt = p.domain.utf8ByteSize + 1 := rfl

theorem layout_selectorAt : p.layout.selectorAt = p.name.utf8ByteSize + 1 := by
  rw [name, String.utf8ByteSize_append, String.utf8ByteSize_append, size_colon]; rfl

theorem layout_bindingLength : p.layout.bindingLength = p.binding.utf8ByteSize := rfl

@[simp] theorem layout_domain : p.layout.domain = p.domain := by
  have htext : p.text = "" ++ p.domain ++ (":" ++ p.action ++ ":" ++ p.selector) := by
    simp [text, name, String.append_assoc]
  refine slice_eq htext rfl ?_
  simp [layout_actionAt]

@[simp] theorem layout_action : p.layout.action = p.action := by
  have htext : p.text = p.domain ++ ":" ++ p.action ++ (":" ++ p.selector) := by
    simp [text, name, String.append_assoc]
  refine slice_eq htext ?_ ?_
  · rw [layout_actionAt, String.utf8ByteSize_append, size_colon]
  · rw [layout_selectorAt, name, String.utf8ByteSize_append, Nat.add_sub_cancel]

@[simp] theorem layout_name : p.layout.name = p.name := by
  have htext : p.text = "" ++ p.name ++ (":" ++ p.selector) := by
    simp [text, String.append_assoc]
  refine slice_eq htext rfl ?_
  simp [layout_selectorAt]

@[simp] theorem layout_selector : p.layout.selector = p.selector := by
  have htext : p.text = p.name ++ ":" ++ p.selector ++ "" := by
    simp [text]
  refine slice_eq htext ?_ ?_
  · rw [layout_selectorAt, String.utf8ByteSize_append, size_colon]
  · rw [layout_text, text, String.utf8ByteSize_append]

@[simp] theorem layout_binding : p.layout.binding = p.binding := by
  have hselector : p.selector = "" ++ p.binding ++ p.path := by simp [selector]
  rw [Layout.binding, layout_selector]
  refine slice_eq hselector rfl ?_
  simp [layout_bindingLength]

@[simp] theorem layout_path : p.layout.path = p.path := by
  have hselector : p.selector = p.binding ++ p.path ++ "" := by simp [selector]
  rw [Layout.path, layout_selector]
  refine slice_eq hselector rfl ?_
  rw [selector, String.utf8ByteSize_append]

/-- **The parts are cut out as they were put in.** -/
theorem permission_layout : p.layout.permission = p := by
  simp [Layout.permission]

/-! ## Cuts -/

variable {p : Permission} {text : String}

theorem selector_toList (p : Permission) :
    p.selector.toList = p.binding.toList ++ p.path.toList := by
  simp [selector, String.toList_append]

theorem text_toList (p : Permission) :
    p.text.toList = p.domain.toList ++ ':' :: (p.action.toList ++ ':' :: p.selector.toList) := by
  simp [Permission.text, name, String.toList_append]

/-- **Where a text is cut**: at its first two colons, and before the first character behind them
that begins a path. Nothing is asked of the parts. -/
structure CutInto (text : String) (p : Permission) : Prop where
  text_eq : p.text = text
  domain_noColon : ':' ∉ p.domain.toList
  action_noColon : ':' ∉ p.action.toList
  binding_noPath : ∀ c ∈ p.binding.toList, startsPath c = false
  path_starts : ∀ c ∈ p.path.toList.head?, startsPath c = true

/-- The first segment that is blank, from left to right. -/
def FirstBlank (p : Permission) : Segment → Prop
  | .domain => allBlank p.domain.toList = true
  | .action => allBlank p.domain.toList = false ∧ allBlank p.action.toList = true
  | .selector => allBlank p.domain.toList = false ∧ allBlank p.action.toList = false ∧
      allBlank p.selector.toList = true

/-- A binding ends where its path begins. -/
theorem span_binding {binding path : List Char} (hb : ∀ c ∈ binding, startsPath c = false)
    (hp : ∀ c ∈ path.head?, startsPath c = true) :
    (binding ++ path).takeWhile (fun c => !startsPath c) = binding ∧
      (binding ++ path).dropWhile (fun c => !startsPath c) = path := by
  have hinside : ∀ c ∈ binding, (!startsPath c) = true := by
    intro c hc
    rw [hb c hc]
    rfl
  rw [List.takeWhile_append_of_pos hinside, List.dropWhile_append_of_pos hinside]
  cases path with
  | nil => simp
  | cons c cs => simp [hp c rfl]

/-- A text with two colons can be cut. -/
theorem exists_cutInto {domain action selector : List Char}
    (hdomain : cutAt ':' text.toList = some (domain, action ++ ':' :: selector))
    (haction : ':' ∉ action) : ∃ p, CutInto text p := by
  obtain ⟨htext, hcolon⟩ := cutAt_eq_some.1 hdomain
  refine ⟨⟨.ofList domain, .ofList action, .ofList (selector.takeWhile fun c => !startsPath c),
    .ofList (selector.dropWhile fun c => !startsPath c)⟩, ?_, ?_, ?_, ?_, ?_⟩
  · rw [← String.toList_inj, text_toList, selector_toList, htext]
    simp [List.takeWhile_append_dropWhile]
  · simpa using hcolon
  · simpa using haction
  · intro c hc
    rw [String.toList_ofList] at hc
    have hall := List.all_eq_true.1 List.all_takeWhile c hc
    simpa using hall
  · intro c hc
    rw [String.toList_ofList] at hc
    have hhead := List.head?_dropWhile_not (fun c => !startsPath c) selector
    simp_all

/-- A text with fewer colons cannot be cut. -/
theorem read_cases (text : String) :
    (∃ p, CutInto text p) ∧ 2 ≤ text.toList.count ':' ∨
      Layout.read text = .error ⟨text, .missingSegments⟩ ∧ text.toList.count ':' < 2 := by
  unfold Layout.read
  cases hdomain : cutAt ':' text.toList with
  | none =>
    right
    have hnone : ':' ∉ text.toList := cutAt_eq_none.1 hdomain
    refine ⟨rfl, ?_⟩
    rw [List.count_eq_zero_of_not_mem hnone]
    exact Nat.zero_lt_two
  | some cuts =>
    obtain ⟨domain, rest⟩ := cuts
    obtain ⟨htext, hd⟩ := cutAt_eq_some.1 hdomain
    have hcount : text.toList.count ':' = rest.count ':' + 1 := by
      rw [htext, List.count_append, List.count_eq_zero_of_not_mem hd, List.count_cons_self,
        Nat.zero_add]
    cases haction : cutAt ':' rest with
    | none =>
      right
      have hnone : ':' ∉ rest := cutAt_eq_none.1 haction
      refine ⟨by simp only [haction], ?_⟩
      rw [hcount, List.count_eq_zero_of_not_mem hnone]
      exact Nat.one_lt_two
    | some cuts =>
      left
      obtain ⟨action, selector⟩ := cuts
      obtain ⟨rfl, ha⟩ := cutAt_eq_some.1 haction
      refine ⟨exists_cutInto hdomain ha, ?_⟩
      rw [hcount, List.count_append, List.count_cons_self]
      omega

/-- **What a text is read as**: the first blank segment is reported, then a binding that is no
identifier. -/
theorem read_of_cutInto (h : CutInto text p) :
    Layout.read text =
      if allBlank p.domain.toList then .error ⟨text, .emptySegment .domain⟩
      else if allBlank p.action.toList then .error ⟨text, .emptySegment .action⟩
      else if allBlank p.selector.toList then .error ⟨text, .emptySegment .selector⟩
      else if isIdentifier p.binding.toList then .ok p.layout
      else .error ⟨text, .invalidBinding⟩ := by
  obtain ⟨rfl, hd, ha, hb, hp⟩ := h
  have hdomain : cutAt ':' p.text.toList =
      some (p.domain.toList, p.action.toList ++ ':' :: p.selector.toList) :=
    cutAt_eq_some.2 ⟨p.text_toList, hd⟩
  have haction : cutAt ':' (p.action.toList ++ ':' :: p.selector.toList) =
      some (p.action.toList, p.selector.toList) :=
    cutAt_eq_some.2 ⟨rfl, ha⟩
  obtain ⟨htake, -⟩ := span_binding hb hp
  rw [← selector_toList] at htake
  unfold Layout.read
  simp only [hdomain, haction, htake, String.ofList_toList, layout]

theorem read_ne_missing (h : CutInto text p) :
    Layout.read text ≠ .error ⟨text, .missingSegments⟩ := by
  rw [read_of_cutInto h]
  split_ifs <;> simp

theorem read_of_firstBlank (h : CutInto text p) {segment : Segment} (hb : FirstBlank p segment) :
    Layout.read text = .error ⟨text, .emptySegment segment⟩ := by
  rw [read_of_cutInto h]
  cases segment with
  | domain =>
    have hd : allBlank p.domain.toList = true := hb
    rw [if_pos hd]
  | action =>
    obtain ⟨hd, ha⟩ := hb
    simp only [hd, ha, Bool.false_eq_true, if_false, if_true]
  | selector =>
    obtain ⟨hd, ha, hs⟩ := hb
    simp only [hd, ha, hs, Bool.false_eq_true, if_false, if_true]

theorem read_of_noBlank (h : CutInto text p) (hn : ∀ segment, ¬ FirstBlank p segment) :
    Layout.read text =
      if isIdentifier p.binding.toList then .ok p.layout else .error ⟨text, .invalidBinding⟩ := by
  have hd : allBlank p.domain.toList = false := Bool.eq_false_iff.2 (hn .domain)
  have ha : allBlank p.action.toList = false :=
    Bool.eq_false_iff.2 fun ha => hn .action ⟨hd, ha⟩
  have hs : allBlank p.selector.toList = false :=
    Bool.eq_false_iff.2 fun hs => hn .selector ⟨hd, ha, hs⟩
  rw [read_of_cutInto h]
  simp only [hd, ha, hs, Bool.false_eq_true, if_false]

/-! ## Permissions that can be written -/

theorem not_startsPath_of_isIdentifier {binding : List Char} (h : isIdentifier binding = true) :
    ∀ c ∈ binding, startsPath c = false := by
  intro c hc
  have hname : isNameChar c = true := List.all_eq_true.1 (all_isNameChar_of_isIdentifier h) c hc
  cases hs : startsPath c with
  | false => rfl
  | true => rw [isNameChar_of_startsPath hs] at hname; cases hname

theorem not_allBlank_of_isIdentifier {binding path : List Char}
    (h : isIdentifier binding = true) : allBlank (binding ++ path) = false := by
  cases binding with
  | nil => cases h
  | cons c cs =>
    simp only [isIdentifier, Bool.and_eq_true] at h
    simp [allBlank, isBlank_of_isNameStart h.1]

/-- Parts can be written if their text is cut into them, none of them is blank and the binding is
an identifier. -/
theorem wellFormed_iff :
    p.WellFormed ↔ CutInto p.text p ∧ (∀ segment, ¬ FirstBlank p segment) ∧
      isIdentifier p.binding.toList = true := by
  constructor
  · intro h
    refine ⟨⟨rfl, h.domain_noColon, h.action_noColon,
      not_startsPath_of_isIdentifier h.binding_isIdentifier, h.path_starts⟩, ?_,
      h.binding_isIdentifier⟩
    have hs : allBlank p.selector.toList = false := by
      rw [selector_toList]
      exact not_allBlank_of_isIdentifier h.binding_isIdentifier
    rintro (_ | _ | _) hb
    · exact absurd hb (Bool.eq_false_iff.1 h.domain_notBlank)
    · exact absurd hb.2 (Bool.eq_false_iff.1 h.action_notBlank)
    · exact absurd hb.2.2 (Bool.eq_false_iff.1 hs)
  · rintro ⟨hcut, hn, hb⟩
    have hd : allBlank p.domain.toList = false := Bool.eq_false_iff.2 (hn .domain)
    exact ⟨hcut.domain_noColon, hcut.action_noColon, hd,
      Bool.eq_false_iff.2 fun ha => hn .action ⟨hd, ha⟩, hb, hcut.path_starts⟩

/-- **A text is read as a permission** exactly when it is the text of parts that can be written
so, and then their layout is what is read. -/
theorem read_eq_ok {l : Layout} :
    Layout.read text = .ok l ↔ ∃ p : Permission, p.text = text ∧ p.WellFormed ∧ l = p.layout := by
  constructor
  · intro h
    rcases read_cases text with ⟨⟨p, hcut⟩, -⟩ | ⟨hmissing, -⟩
    · by_cases hb : ∃ segment, FirstBlank p segment
      · obtain ⟨segment, hb⟩ := hb
        rw [read_of_firstBlank hcut hb] at h
        cases h
      · have hn : ∀ segment, ¬ FirstBlank p segment := not_exists.1 hb
        rw [read_of_noBlank hcut hn] at h
        split at h
        case isTrue hi =>
          obtain rfl := hcut.text_eq
          exact ⟨p, rfl, wellFormed_iff.2 ⟨hcut, hn, hi⟩, (Except.ok.inj h).symm⟩
        case isFalse => cases h
    · rw [hmissing] at h
      cases h
  · rintro ⟨p, rfl, hp, rfl⟩
    obtain ⟨hcut, hn, hi⟩ := wellFormed_iff.1 hp
    rw [read_of_noBlank hcut hn, if_pos hi]

/-- **A permission is read from the text that it is written as**, and only the permissions whose
parts can be written so. -/
theorem parse_eq_ok : parse text = .ok p ↔ p.text = text ∧ p.WellFormed := by
  unfold parse
  constructor
  · intro h
    cases hl : Layout.read text with
    | error e => rw [hl] at h; cases h
    | ok l =>
      obtain ⟨q, htext, hq, rfl⟩ := read_eq_ok.1 hl
      rw [hl] at h
      have hpq : q.layout.permission = p := Except.ok.inj h
      rw [permission_layout] at hpq
      exact hpq ▸ ⟨htext, hq⟩
  · rintro ⟨htext, hp⟩
    rw [read_eq_ok.2 ⟨p, htext, hp, rfl⟩]
    exact congrArg Except.ok p.permission_layout

/-! ## Sound layouts -/

/-- **All slices can be taken**: each part begins and ends between characters of the text, and
they stand one behind the other. -/
structure Layout.Sound (l : Layout) : Prop where
  domain_end : Boundary l.text (l.actionAt - 1)
  action_start : Boundary l.text l.actionAt
  action_end : Boundary l.text (l.selectorAt - 1)
  selector_start : Boundary l.text l.selectorAt
  binding_end : Boundary l.selector l.bindingLength
  path_start : Boundary l.text (l.selectorAt + l.bindingLength)
  actionAt_pos : 0 < l.actionAt
  actionAt_lt : l.actionAt < l.selectorAt
  path_le : l.selectorAt + l.bindingLength ≤ l.text.utf8ByteSize

theorem layout_sound (p : Permission) : p.layout.Sound := by
  have hselectorAt : p.layout.selectorAt = p.name.utf8ByteSize + 1 := p.layout_selectorAt
  have hname : p.name.utf8ByteSize = p.domain.utf8ByteSize + 1 + p.action.utf8ByteSize := by
    rw [name, String.utf8ByteSize_append, String.utf8ByteSize_append, size_colon]
  -- behind as many bytes as the text in front of it has
  have hbehind (before after : String) {position : Nat} (htext : p.text = before ++ after)
      (hposition : position = before.utf8ByteSize) : Boundary p.text position :=
    boundary_iff.2 ⟨before, after, htext, hposition⟩
  constructor
  · refine hbehind p.domain (":" ++ p.action ++ ":" ++ p.selector) ?_ rfl
    simp [text, name, String.append_assoc]
  · refine hbehind (p.domain ++ ":") (p.action ++ ":" ++ p.selector) ?_ ?_
    · simp [text, name, String.append_assoc]
    · rw [layout_actionAt, String.utf8ByteSize_append, size_colon]
  · refine hbehind p.name (":" ++ p.selector) ?_ ?_
    · simp [text, String.append_assoc]
    · rw [hselectorAt, Nat.add_sub_cancel]
  · refine hbehind (p.name ++ ":") p.selector rfl ?_
    rw [hselectorAt, String.utf8ByteSize_append, size_colon]
  · rw [layout_selector]
    exact boundary_iff.2 ⟨p.binding, p.path, rfl, rfl⟩
  · refine hbehind (p.name ++ ":" ++ p.binding) p.path ?_ ?_
    · simp [text, selector, String.append_assoc]
    · rw [hselectorAt, layout_bindingLength, String.utf8ByteSize_append,
        String.utf8ByteSize_append, size_colon]
  · rw [layout_actionAt]
    exact Nat.succ_pos _
  · rw [layout_actionAt, hselectorAt, hname]
    omega
  · rw [layout_text, text, selector, hselectorAt, layout_bindingLength]
    simp only [String.utf8ByteSize_append, size_colon]
    omega

/-- The outcome of reading a text that can be cut, by its parts. -/
theorem read_cutInto_iff {p : Permission} {text : String} (h : CutInto text p) :
    (∀ segment, Layout.read text = .error ⟨text, .emptySegment segment⟩ ↔
      FirstBlank p segment) ∧
    (Layout.read text = .error ⟨text, .invalidBinding⟩ ↔
      (∀ segment, ¬ FirstBlank p segment) ∧ isIdentifier p.binding.toList = false) ∧
    ((∃ l, Layout.read text = .ok l) ↔
      (∀ segment, ¬ FirstBlank p segment) ∧ isIdentifier p.binding.toList = true) := by
  by_cases hb : ∃ segment, FirstBlank p segment
  · obtain ⟨first, hfirst⟩ := hb
    have hread := read_of_firstBlank h hfirst
    have hsome : ¬ ∀ segment, ¬ FirstBlank p segment := fun hn => hn first hfirst
    rw [hread]
    refine ⟨fun segment => ⟨?_, fun hs => ?_⟩, by simp [hsome], by simp [hsome]⟩
    · intro he
      cases he
      exact hfirst
    · rw [← hread, read_of_firstBlank h hs]
  · have hn : ∀ segment, ¬ FirstBlank p segment := not_exists.1 hb
    rw [read_of_noBlank h hn]
    cases hi : isIdentifier p.binding.toList <;> simp [hn]

/-- **Reading is exact, and what it keeps is sound.** A text is no permission if it has fewer than
two colons, if a segment is blank, of which the first is reported, or if its binding is no
identifier; any other text is read. Then every slice of the layout can be taken, the parts make up
the text, name and selector are made up of them, and the kept text is read as the same layout. -/
theorem read_exact (text : String) :
    (Layout.read text = .error ⟨text, .missingSegments⟩ ↔ text.toList.count ':' < 2) ∧
    ((∃ p, CutInto text p) ↔ 2 ≤ text.toList.count ':') ∧
    (∀ p, CutInto text p →
      (∀ segment, Layout.read text = .error ⟨text, .emptySegment segment⟩ ↔
        FirstBlank p segment) ∧
      (Layout.read text = .error ⟨text, .invalidBinding⟩ ↔
        (∀ segment, ¬ FirstBlank p segment) ∧ isIdentifier p.binding.toList = false) ∧
      ((∃ l, Layout.read text = .ok l) ↔
        (∀ segment, ¬ FirstBlank p segment) ∧ isIdentifier p.binding.toList = true)) ∧
    ∀ l, Layout.read text = .ok l → l.text = text ∧ l.Sound ∧ CutInto text l.permission ∧
      text = l.domain ++ ":" ++ l.action ++ ":" ++ l.binding ++ l.path ∧
      l.name = l.domain ++ ":" ++ l.action ∧ l.selector = l.binding ++ l.path ∧
      Layout.read l.text = .ok l := by
  refine ⟨?_, ?_, fun p h => read_cutInto_iff h, ?_⟩
  · rcases read_cases text with ⟨⟨p, hcut⟩, hcount⟩ | ⟨hmissing, hcount⟩
    · exact iff_of_false (read_ne_missing hcut) (by omega)
    · exact iff_of_true hmissing hcount
  · rcases read_cases text with ⟨hcut, hcount⟩ | ⟨hmissing, hcount⟩
    · exact iff_of_true hcut hcount
    · exact iff_of_false (fun ⟨p, hcut⟩ => read_ne_missing hcut hmissing) (by omega)
  · intro l hl
    obtain ⟨p, rfl, hp, rfl⟩ := read_eq_ok.1 hl
    rw [permission_layout]
    refine ⟨rfl, p.layout_sound, (wellFormed_iff.1 hp).1, ?_, ?_, ?_, hl⟩
    · simp [text, name, selector, String.append_assoc]
    · simp [name]
    · simp [selector]

/-- Texts with characters of two bytes and a third colon, in the path. The first one binds a word
that is no identifier; of the second one a slice is taken. -/
theorem read_exact_sample :
    let text := "Fälle:öffnen:fälle.ort:x"
    let other := "Fälle:öffnen:f.ort:x"
    let l : Layout := ⟨other, 7, 15, 1⟩
    CutInto text ⟨"Fälle", "öffnen", "fälle", ".ort:x"⟩ ∧
      Layout.read text = .error ⟨text, .invalidBinding⟩ ∧
      Layout.read other = .ok l ∧ l.Sound ∧ l.path = ".ort:x" ∧
      l.selector = l.binding ++ l.path := by
  intro text other l
  have hbinding : ("fälle".toList.all fun c => startsPath c == false) = true := by decide
  have hcut : CutInto text ⟨"Fälle", "öffnen", "fälle", ".ort:x"⟩ :=
    ⟨by decide, by decide, by decide,
      fun c hc => eq_of_beq (List.all_eq_true.1 hbinding c hc),
      fun c hc => Option.some.inj hc ▸ rfl⟩
  have hblank : ∀ segment, ¬ FirstBlank ⟨"Fälle", "öffnen", "fälle", ".ort:x"⟩ segment := by
    rintro (_ | _ | _) <;> unfold FirstBlank <;> decide
  have hl : Layout.read "Fälle:öffnen:f.ort:x" = .ok ⟨"Fälle:öffnen:f.ort:x", 7, 15, 1⟩ := rfl
  obtain ⟨-, -, houtcome, -⟩ := read_exact text
  obtain ⟨-, -, -, hread⟩ := read_exact other
  obtain ⟨-, hsound, -, -, -, hselector, -⟩ := hread l hl
  exact ⟨hcut, (houtcome _ hcut).2.1.2 ⟨hblank, by decide⟩, hl, hsound, by decide, hselector⟩

end Permission

end AccessGuard
