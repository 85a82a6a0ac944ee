import AccessGuard.Proofs.Decoding
import AccessGuard.Proofs.ToggleSharing
import AccessGuard.Proofs.TreeTokens

/-!
# Where enforcement is switched off

A guard is off if its configuration says so, and there is no other way to get there: a setting that
is not understood is an error, and so is a document that holds anything besides the one field it may
hold. Which texts switch enforcement off can be said without the readers, by the word of a setting
and by the tokens of a document.

* `SecurityConfig.ofLookup_of_present`: what is made of a setting.
* `SecurityConfig.ofText_eq_ok_iff`: the documents that are accepted, token by token.
* `SecurityConfig.ofText_of_strays`: documents that hold anything else.
* `SecurityConfig.off_only_if_said`: every source, and the guards that are built from it.
-/

namespace AccessGuard

namespace SecurityConfig

variable {c : SecurityConfig} {flag : Option Bool} {text : String}

theorem isEnabled_eq_false_iff : c.isEnabled = false ↔ c = disabled := by
  obtain ⟨flag⟩ := c
  cases flag with
  | none => decide +revert
  | some b => cases b <;> decide

/-! ## Settings -/

/-- A setting without the white space around it and without capitals. -/
def flagWord (text : String) : String := .ofList ((trim text.toList).map Char.toLower)

/-- The words for on. -/
def onWords : List String := ["true", "1", "yes", "on"]

/-- The words for off. -/
def offWords : List String := ["false", "0", "no", "off"]

theorem readFlag?_eq (text : String) : readFlag? text =
    if flagWord text ∈ onWords then some true
    else if flagWord text ∈ offWords then some false
    else none := rfl

theorem not_mem_onWords {word : String} (h : word ∈ offWords) : word ∉ onWords := by
  have hdisjoint : ∀ w ∈ offWords, w ∉ onWords := by decide
  exact hdisjoint word h

/-- **A setting that is present** switches off or on by its word, and is an error otherwise. -/
theorem ofSetting_of_present (text : String) :
    (ofSetting (some text) = .ok disabled ↔ flagWord text ∈ offWords) ∧
      (ofSetting (some text) = .ok enabled ↔ flagWord text ∈ onWords) ∧
      (flagWord text ∉ offWords → flagWord text ∉ onWords →
        ofSetting (some text) = .error (.invalidValue text)) := by
  unfold ofSetting
  dsimp only
  rw [readFlag?_eq]
  by_cases hoff : flagWord text ∈ offWords
  · simp [hoff, not_mem_onWords hoff, disabled, enabled]
  · by_cases hon : flagWord text ∈ onWords <;> simp [hoff, hon, disabled, enabled]

/-! ## Documents -/

/-- The one field that a document may have. -/
def fieldName : String := "authorization_enabled"

/-- A value of the field. -/
def flagTree : Option Bool → Tree
  | none => .null
  | some b => .bool b

/-- The token of a value of the field. -/
def flagToken : Option Bool → Token
  | none => .null
  | some b => .bool b

/-- **The documents of a configuration**, token by token: the field alone, as the member of an
object or as the item of an array. It may be null or left out where nothing is said. -/
inductive Document : SecurityConfig → List Token → Prop
  | emptyObject : Document unset [.openObject, .closeObject]
  | emptyArray : Document unset [.openArray, .closeArray]
  | member (flag : Option Bool) : Document ⟨flag⟩
      [.openObject, .quoted (some fieldName.toList), .colon, flagToken flag, .closeObject]
  | item (flag : Option Bool) : Document ⟨flag⟩ [.openArray, flagToken flag, .closeArray]

/-- A document that says in so many words that enforcement is off. -/
def GivesOff (text : String) : Prop :=
  Token.all text.toList =
      [.openObject, .quoted (some fieldName.toList), .colon, .bool false, .closeObject] ∨
    Token.all text.toList = [.openArray, .bool false, .closeArray]

theorem decodeFlag?_eq_ok_iff {t : Tree} : t.decodeFlag? = .ok flag ↔ t = flagTree flag := by
  cases t with
  | null => cases flag <;> simp [Tree.decodeFlag?, flagTree]
  | bool b => cases flag <;> simp [Tree.decodeFlag?, flagTree]
  | _ => cases flag <;> simp [Tree.decodeFlag?, flagTree]

theorem decodeField_eq_ok_iff {earlier found : Option (Option Bool)} {name : String} {t : Tree} :
    decodeField earlier name t = .ok found ↔
      name = fieldName ∧ earlier = none ∧ ∃ flag, t = flagTree flag ∧ found = some flag := by
  unfold decodeField
  split
  case isTrue hname =>
    simp only [Tree.setOnce_eq_ok_iff, decodeFlag?_eq_ok_iff, hname, fieldName, true_and]
  case isFalse hname => simp [hname, fieldName]

/-- Once the field has been read nothing may follow it. -/
theorem foldMembers_some_eq_ok_iff {members : List (Option (List Char) × Tree)}
    {found : Option (Option Bool)} :
    Tree.foldMembers decodeField (some flag) members = .ok found ↔
      members = [] ∧ found = some flag := by
  cases members with
  | nil => simp [Tree.foldMembers_nil_eq_ok_iff]
  | cons m members =>
    simp [Tree.foldMembers_cons_eq_ok_iff, decodeField_eq_ok_iff]

theorem foldMembers_none_eq_ok_iff {members : List (Option (List Char) × Tree)}
    {found : Option (Option Bool)} : Tree.foldMembers decodeField none members = .ok found ↔
      (members = [] ∧ found = none) ∨ ∃ flag,
        members = [(some fieldName.toList, flagTree flag)] ∧ found = some flag := by
  cases members with
  | nil => simp [Tree.foldMembers_nil_eq_ok_iff]
  | cons m members =>
    obtain ⟨name, t⟩ := m
    simp only [Tree.foldMembers_cons_eq_ok_iff, decodeField_eq_ok_iff]
    constructor
    · rintro ⟨-, -, rfl, ⟨rfl, -, flag, rfl, rfl⟩, hrest⟩
      obtain ⟨rfl, rfl⟩ := foldMembers_some_eq_ok_iff.1 hrest
      exact .inr ⟨flag, rfl, rfl⟩
    · rintro (⟨hnil, -⟩ | ⟨flag, heq, rfl⟩)
      · cases hnil
      · cases heq
        exact ⟨fieldName, some flag, rfl, ⟨rfl, trivial, flag, rfl, rfl⟩, rfl⟩

theorem decode_object_eq_ok_iff {members : List (Option (List Char) × Tree)} {closed : Bool} :
    decode (.object members closed) = .ok c ↔ closed = true ∧
      ((members = [] ∧ c = unset) ∨ ∃ flag,
        members = [(some fieldName.toList, flagTree flag)] ∧ c = ⟨flag⟩) := by
  simp only [decode, bind_eq_ok_iff, foldMembers_none_eq_ok_iff]
  cases closed with
  | false => simp
  | true =>
    constructor
    · rintro ⟨-, ⟨rfl, rfl⟩ | ⟨flag, rfl, rfl⟩, hc⟩
      · cases hc
        exact ⟨rfl, .inl ⟨rfl, rfl⟩⟩
      · cases hc
        exact ⟨rfl, .inr ⟨flag, rfl, rfl⟩⟩
    · rintro ⟨-, ⟨rfl, rfl⟩ | ⟨flag, rfl, rfl⟩⟩
      · exact ⟨none, .inl ⟨rfl, rfl⟩, rfl⟩
      · exact ⟨some flag, .inr ⟨flag, rfl, rfl⟩, rfl⟩

theorem decode_array_eq_ok_iff {items : List Tree} {closed : Bool} :
    decode (.array items closed) = .ok c ↔ closed = true ∧
      ((items = [] ∧ c = unset) ∨ ∃ flag, items = [flagTree flag] ∧ c = ⟨flag⟩) := by
  have hdecode : decode (.array items closed) = .ok c ↔ ∃ flag rest,
      Tree.nextFieldOr none Tree.decodeFlag? items = .ok (flag, rest) ∧
        (closed = true ∧ rest = []) ∧ ⟨flag⟩ = c := by
    simp only [decode, bind_eq_ok_iff, Prod.exists, Tree.endFields_eq_ok_iff, pure_eq_ok_iff,
      exists_and_left, exists_const]
  rw [hdecode]
  simp only [Tree.nextFieldOr_eq_ok_iff, decodeFlag?_eq_ok_iff]
  constructor
  · rintro ⟨flag, -, ⟨rfl, rfl, -⟩ | ⟨t, rfl, rfl⟩, ⟨rfl, rfl⟩, rfl⟩
    · exact ⟨rfl, .inl ⟨rfl, rfl⟩⟩
    · exact ⟨rfl, .inr ⟨flag, rfl, rfl⟩⟩
  · rintro ⟨rfl, ⟨rfl, rfl⟩ | ⟨flag, rfl, rfl⟩⟩
    · exact ⟨none, [], .inl ⟨rfl, rfl, rfl⟩, ⟨rfl, rfl⟩, rfl⟩
    · exact ⟨flag, [], .inr ⟨_, rfl, rfl⟩, ⟨rfl, rfl⟩, rfl⟩

/-- A tree that is accepted is closed, and its tokens are those of a document. -/
theorem document_of_decode {t : Tree} (h : decode t = .ok c) :
    t.isWhole = true ∧ Document c t.tokens := by
  cases t with
  | object members closed =>
    obtain ⟨rfl, ⟨rfl, rfl⟩ | ⟨flag, rfl, rfl⟩⟩ := decode_object_eq_ok_iff.1 h
    · exact ⟨rfl, .emptyObject⟩
    · cases flag <;> exact ⟨rfl, .member _⟩
  | array items closed =>
    obtain ⟨rfl, ⟨rfl, rfl⟩ | ⟨flag, rfl, rfl⟩⟩ := decode_array_eq_ok_iff.1 h
    · exact ⟨rfl, .emptyArray⟩
    · cases flag <;> exact ⟨rfl, .item _⟩
  | _ => cases h

theorem decode_of_document {ts : List Token} (h : Document c ts) :
    ∃ t, Tree.ofTokens ts = (t, false) ∧ decode t = .ok c := by
  cases h with
  | emptyObject => exact ⟨_, rfl, rfl⟩
  | emptyArray => exact ⟨_, rfl, rfl⟩
  | member flag =>
    refine ⟨.object [(some fieldName.toList, flagTree flag)] true, by cases flag <;> rfl, ?_⟩
    exact decode_object_eq_ok_iff.2 ⟨rfl, .inr ⟨flag, rfl, rfl⟩⟩
  | item flag =>
    refine ⟨.array [flagTree flag] true, by cases flag <;> rfl, ?_⟩
    exact decode_array_eq_ok_iff.2 ⟨rfl, .inr ⟨flag, rfl, rfl⟩⟩

theorem ofText_eq_ok_iff_decodeText :
    ofText text = .ok c ↔ Tree.decodeText decode text = .ok c := by
  unfold ofText
  cases Tree.decodeText decode text <;> simp

/-- **The texts that are accepted** are those of a document. -/
theorem ofText_eq_ok_iff : ofText text = .ok c ↔ Document c (Token.all text.toList) := by
  rw [ofText_eq_ok_iff_decodeText, Tree.decodeText_eq_ok_iff]
  constructor
  · rintro ⟨t, htree, ht⟩
    obtain ⟨hwhole, hdocument⟩ := document_of_decode ht
    rw [Tree.tokens_of_ofTokens htree hwhole]
    exact hdocument
  · exact decode_of_document

/-- Of the documents only two switch off. -/
theorem document_disabled_iff : Document disabled (Token.all text.toList) ↔ GivesOff text := by
  unfold GivesOff
  constructor
  · intro h
    generalize Token.all text.toList = ts at h
    generalize hc : disabled = c at h
    cases h with
    | emptyObject | emptyArray => cases hc
    | member flag =>
      cases hc
      exact .inl rfl
    | item flag =>
      cases hc
      exact .inr rfl
  · rintro (h | h)
    · rw [h]
      exact .member (some false)
    · rw [h]
      exact .item (some false)

/-- **What a document may not hold**: a name that is not the field's, a name twice, more than one
item, a value that is neither null nor a truth value. -/
def Strays : Tree → Prop
  | .object members _ => (∃ m ∈ members, m.1 ≠ some fieldName.toList) ∨
      ¬ (members.map (·.1)).Nodup ∨ ∃ m ∈ members, m.2 ≠ .null ∧ ∀ b, m.2 ≠ .bool b
  | .array items _ => 1 < items.length ∨ ∃ t ∈ items, t ≠ .null ∧ ∀ b, t ≠ .bool b
  | _ => True

theorem not_strays_of_decode {t : Tree} (h : decode t = .ok c) : ¬ Strays t := by
  cases t with
  | object members closed =>
    obtain ⟨-, ⟨rfl, -⟩ | ⟨flag, rfl, -⟩⟩ := decode_object_eq_ok_iff.1 h
    · simp [Strays]
    · cases flag <;> simp [Strays, flagTree]
  | array items closed =>
    obtain ⟨-, ⟨rfl, -⟩ | ⟨flag, rfl, -⟩⟩ := decode_array_eq_ok_iff.1 h
    · simp [Strays]
    · cases flag <;> simp [Strays, flagTree]
  | _ => cases h

/-- A document is accepted or cannot be parsed. -/
theorem ofText_fails_of_not (h : ∀ c, ofText text ≠ .ok c) :
    ∃ e, ofText text = .error (.parse e) := by
  cases hread : Tree.decodeText decode text with
  | ok c => exact absurd (ofText_eq_ok_iff_decodeText.2 hread) (h c)
  | error e =>
    unfold ofText
    rw [hread]
    exact ⟨e, rfl⟩

theorem ofText_of_strays (h : Strays (Tree.ofText text).1) :
    ∃ e, ofText text = .error (.parse e) := by
  refine ofText_fails_of_not fun c hc => ?_
  rw [ofText_eq_ok_iff_decodeText, Tree.decodeText_eq_ok_iff] at hc
  obtain ⟨t, htree, ht⟩ := hc
  rw [htree] at h
  exact not_strays_of_decode ht h

end SecurityConfig

/-! ## Sources -/

/-- Where a configuration is taken from: the settings of a program, a document, or the program
itself. -/
inductive ConfigSource where
  | settings (lookup : String → Option String)
  | document (text : String)
  | constant (c : SecurityConfig)

namespace ConfigSource

open SecurityConfig

variable {source : ConfigSource} {c : SecurityConfig}

/-- The configuration of a source. -/
def load : ConfigSource → Except ConfigError SecurityConfig
  | settings lookup => ofLookup lookup
  | document text => ofText text
  | constant c => .ok c

/-- Does the source say in so many words that enforcement is off? -/
def SaysOff : ConfigSource → Prop
  | settings lookup => ∃ text, lookup variableName = some text ∧ flagWord text ∈ offWords
  | document text => GivesOff text
  | constant c => c.authorizationEnabled = some false

/-- **A configuration is off exactly where its source says so.** -/
theorem off_iff_saysOff (h : source.load = .ok c) : c.isEnabled = false ↔ source.SaysOff := by
  rw [isEnabled_eq_false_iff]
  cases source with
  | settings lookup =>
    have hload : ofSetting (lookup variableName) = .ok c := h
    rw [SaysOff]
    cases hlookup : lookup variableName with
    | none =>
      rw [hlookup] at hload
      cases hload
      simp [unset, disabled]
    | some text =>
      have hdisabled := (ofSetting_of_present text).1
      rw [← hlookup, hload, Except.ok.injEq] at hdisabled
      simp only [Option.some.injEq, exists_eq_left', hdisabled]
  | document text =>
    have hload : ofText text = .ok c := h
    have hdisabled : ofText text = .ok disabled ↔ GivesOff text :=
      ofText_eq_ok_iff.trans document_disabled_iff
    rw [SaysOff, ← hdisabled, hload, Except.ok.injEq]
  | constant c' =>
    cases h
    obtain ⟨flag⟩ := c
    simp [SaysOff, disabled]

end ConfigSource

/-- After a reload the flag of a guard is what the configuration says. -/
theorem Guard.isEnabled_reload {g : Guard} {board : Switchboard} (howned : board.Owns g.toggle)
    (c : SecurityConfig) : g.isEnabled (g.reload c board).2 = c.isEnabled := by
  have hset : (g.reload c board).2 = board.set g.toggle c.isEnabled := rfl
  rw [hset, Guard.isEnabled, Switchboard.isOn_set howned, if_pos rfl]

namespace SecurityConfig

/-- **Enforcement is off only where a source says so.** A setting that is present switches off or on
by its word, in any case and with white space around it, and is an error with any other; only an
absent one leaves the default. A document switches off if it holds the field alone and false, as a
member or as an item; whatever else it may not hold is an error. So a guard that is built from a
configuration, or has it reloaded, is off afterwards exactly if the source of the configuration said
so. -/
theorem off_only_if_said :
    (∀ lookup : String → Option String,
      (lookup variableName = none → ofLookup lookup = .ok unset) ∧
      ∀ text, lookup variableName = some text →
        (ofLookup lookup = .ok disabled ↔ flagWord text ∈ offWords) ∧
        (ofLookup lookup = .ok enabled ↔ flagWord text ∈ onWords) ∧
        (flagWord text ∉ offWords → flagWord text ∉ onWords →
          ofLookup lookup = .error (.invalidValue text))) ∧
    (∀ text,
      ((∃ c, ofText text = .ok c ∧ c.isEnabled = false) ↔ GivesOff text) ∧
      ((∀ c, ¬ Document c (Token.all text.toList)) → ∃ e, ofText text = .error (.parse e)) ∧
      (Strays (Tree.ofText text).1 → ∃ e, ofText text = .error (.parse e))) ∧
    ∀ (source : ConfigSource) (c : SecurityConfig), source.load = .ok c →
      (∀ registry board,
        let (guard, _, board') := Guard.new registry c board
        guard.isEnabled board' = false ↔ source.SaysOff) ∧
      ∀ (guard : Guard) (board : Switchboard), board.Owns guard.toggle →
        (guard.isEnabled (guard.reload c board).2 = false ↔ source.SaysOff) := by
  refine ⟨?_, ?_, ?_⟩
  · intro lookup
    unfold ofLookup
    refine ⟨?_, ?_⟩
    · intro habsent
      rw [habsent]
      rfl
    · intro text hpresent
      rw [hpresent]
      exact ofSetting_of_present text
  · intro text
    refine ⟨?_, ?_, ofText_of_strays⟩
    · rw [← document_disabled_iff, ← ofText_eq_ok_iff]
      simp only [isEnabled_eq_false_iff, exists_eq_right]
    · intro hnone
      exact ofText_fails_of_not fun c hc => hnone c (ofText_eq_ok_iff.1 hc)
  · intro source c hload
    refine ⟨?_, ?_⟩
    · intro registry board
      dsimp only
      rw [Guard.isEnabled_new]
      exact ConfigSource.off_iff_saysOff hload
    · intro guard board howned
      rw [Guard.isEnabled_reload howned]
      exact ConfigSource.off_iff_saysOff hload

namespace Sample

/-- Off, in capitals and between blanks, one of which is not of ASCII. -/
def offSettings (name : String) : Option String :=
  if name = variableName then some "\u00a0OFF\n" else none

/-- Off, as the array of the one field. -/
def offDocument : String := " [ false ] "

/-- The field is first null and then false. -/
def twiceDocument : String :=
  "\x7b\"authorization_enabled\": null, \"authorization_enabled\": false\x7d"

end Sample

/-- A setting in capitals switches a new guard off, and a document does so with a guard that is
enforcing. A word that is not known is an error, and so is a field that is given twice. -/
theorem off_only_if_said_sample :
    let settings := ConfigSource.settings Sample.offSettings
    let document := ConfigSource.document Sample.offDocument
    let enforcing := (⟨[true]⟩ : Switchboard)
    (Sample.offSettings variableName = some "\u00a0OFF\n" ∧
      ofLookup Sample.offSettings = .ok disabled) ∧
    ofLookup (fun _ => some "maybe") = .error (.invalidValue "maybe") ∧
    (Strays (Tree.ofText Sample.twiceDocument).1 ∧
      ∃ e, ofText Sample.twiceDocument = .error (.parse e)) ∧
    (settings.load = .ok disabled ∧
      let (guard, _, board) := Guard.new .empty disabled enforcing
      guard.isEnabled board = false) ∧
    document.load = .ok disabled ∧ enforcing.Owns Sample.guard.toggle ∧
      Sample.guard.isEnabled enforcing = true ∧
      Sample.guard.isEnabled (Sample.guard.reload disabled enforcing).2 = false := by
  intro settings document enforcing
  obtain ⟨hsettings, hdocuments, hguards⟩ := off_only_if_said
  have hpresent : Sample.offSettings variableName = some "\u00a0OFF\n" := rfl
  have hoff : flagWord "\u00a0OFF\n" ∈ offWords := by decide +kernel
  have hload : ofLookup Sample.offSettings = .ok disabled :=
    ((hsettings Sample.offSettings).2 _ hpresent).1.2 hoff
  have hmaybe : ofLookup (fun _ => some "maybe") = .error (.invalidValue "maybe") :=
    ((hsettings fun _ => some "maybe").2 "maybe" rfl).2.2 (by decide +kernel) (by decide +kernel)
  have htwice : Strays (Tree.ofText Sample.twiceDocument).1 := by
    have htree : (Tree.ofText Sample.twiceDocument).1 = .object
        [(some fieldName.toList, .null), (some fieldName.toList, .bool false)] true := by cbv
    rw [htree]
    exact .inr (.inl (by simp))
  have hgives : GivesOff Sample.offDocument := .inr (by decide +kernel)
  have hread : document.load = .ok disabled := by decide +kernel
  have howned : enforcing.Owns Sample.guard.toggle := Nat.zero_lt_one
  refine ⟨⟨hpresent, hload⟩, hmaybe, ⟨htwice, (hdocuments _).2.2 htwice⟩, ⟨hload, ?_⟩, hread,
    howned, rfl, ?_⟩
  · exact ((hguards settings disabled hload).1 .empty enforcing).2 ⟨_, hpresent, hoff⟩
  · exact ((hguards document disabled hread).2 _ enforcing howned).2 hgives

end SecurityConfig

end AccessGuard
