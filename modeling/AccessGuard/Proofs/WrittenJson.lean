import AccessGuard.Json.Tree
import AccessGuard.Proofs.WrittenTokens

/-!
# Written JSON is read back

The compact text of a JSON value is read into a tree, token by token, wherever a value may stand;
the tree is that of the value. What is then made of the tree is the value itself, unless it is
nested deeper than the reader goes.

* `Tree.run_write`: the value at any place where one may stand, read to its end.
* `Tree.toJson?_ofJson`: the value of its tree, down to a limit.
* `Json.read?_compact`, `Json.readUnlimited?_compact`: reading back, with and without the limit.
* `Json.compact_injective`: different values are written differently.
-/

namespace AccessGuard

/-! ## Integers, names in order, and depth -/

namespace Json

mutual

/-- All numbers are integers of 64 bits, with or without a sign. -/
def IntegersOnly : Json → Prop
  | null | bool _ | string _ => True
  | number (.integer n) => -0x8000000000000000 ≤ n ∧ n < 0x10000000000000000
  | number (.double _) => False
  | array items => ItemsIntegersOnly items
  | object members => MembersIntegersOnly members
termination_by structural j => j

/-- So in all items. -/
def ItemsIntegersOnly : List Json → Prop
  | [] => True
  | j :: js => IntegersOnly j ∧ ItemsIntegersOnly js
termination_by structural js => js

/-- So in the values of all members. -/
def MembersIntegersOnly : List (String × Json) → Prop
  | [] => True
  | (_, j) :: ms => IntegersOnly j ∧ MembersIntegersOnly ms
termination_by structural ms => ms

end

mutual

/-- Objects list their members by ascending name, at every depth. -/
def WellFormed : Json → Prop
  | null | bool _ | number _ | string _ => True
  | array items => ItemsWellFormed items
  | object members => Ascending members ∧ MembersWellFormed members
termination_by structural j => j

/-- So in all items. -/
def ItemsWellFormed : List Json → Prop
  | [] => True
  | j :: js => WellFormed j ∧ ItemsWellFormed js
termination_by structural js => js

/-- So in the values of all members. -/
def MembersWellFormed : List (String × Json) → Prop
  | [] => True
  | (_, j) :: ms => WellFormed j ∧ MembersWellFormed ms
termination_by structural ms => ms

end

mutual

/-- How deep arrays and objects are nested. -/
def depth : Json → Nat
  | null | bool _ | number _ | string _ => 0
  | array items => itemsDepth items + 1
  | object members => membersDepth members + 1
termination_by structural j => j

/-- The depth of the deepest item. -/
def itemsDepth : List Json → Nat
  | [] => 0
  | j :: js => max (depth j) (itemsDepth js)
termination_by structural js => js

/-- The depth of the deepest value. -/
def membersDepth : List (String × Json) → Nat
  | [] => 0
  | (_, j) :: ms => max (depth j) (membersDepth ms)
termination_by structural ms => ms

end

mutual

/-- Every level of nesting takes two characters. -/
theorem depth_le_length : ∀ j : Json, j.depth ≤ j.write.length
  | null | bool _ | number _ | string _ => by simp [depth]
  | array [] | object [] => by decide
  | array (j :: js) => by
    have hj := depth_le_length j
    have hjs := itemsDepth_le_length js
    simp only [depth, itemsDepth, write, List.length_append, List.length_cons, List.length_nil]
    omega
  | object ((k, j) :: ms) => by
    have hj := depth_le_length j
    have hms := membersDepth_le_length ms
    simp only [depth, membersDepth, write, List.length_append, List.length_cons, List.length_nil]
    omega

theorem itemsDepth_le_length : ∀ js : List Json, itemsDepth js ≤ (writeItems js).length
  | [] => by simp [itemsDepth]
  | j :: js => by
    have hj := depth_le_length j
    have hjs := itemsDepth_le_length js
    simp only [itemsDepth, writeItems, List.length_append, List.length_cons]
    omega

theorem membersDepth_le_length :
    ∀ ms : List (String × Json), membersDepth ms ≤ (writeMembers ms).length
  | [] => by simp [membersDepth]
  | (k, j) :: ms => by
    have hj := depth_le_length j
    have hms := membersDepth_le_length ms
    simp only [membersDepth, writeMembers, List.length_append, List.length_cons]
    omega

end

end Json

/-! ## The tree of a written value -/

namespace Tree

mutual

/-- What a value is read as; of a double nothing is said. -/
def ofJson : Json → Tree
  | .null => null
  | .bool b => bool b
  | .number (.integer n) => numeral (.ofInt n)
  | .number (.double _) => broken
  | .string s => quoted (some s.toList)
  | .array items => array (itemsOfJson items) true
  | .object members => object (membersOfJson members) true
termination_by structural j => j

/-- What items are read as. -/
def itemsOfJson : List Json → List Tree
  | [] => []
  | j :: js => ofJson j :: itemsOfJson js
termination_by structural js => js

/-- What members are read as, under the characters of their names. -/
def membersOfJson : List (String × Json) → List (Option (List Char) × Tree)
  | [] => []
  | (k, j) :: ms => (some k.toList, ofJson j) :: membersOfJson ms
termination_by structural ms => ms

end

variable {mode : Mode} {stack : List Frame} {state : State} {t : Token} {ts : List Token}
  {rest : List Char}

theorem run_cons (h : step mode stack t = some state) :
    run (.reading mode stack) (t :: ts) = run state ts := by
  rw [run, h]

/-- Where a value may stand, any token but the end of an array has to begin one. -/
theorem run_value (hmode : mode = .value ∨ mode = .firstItem) (ht : t ≠ .closeArray)
    (h : beginValue stack t = some state) : run (.reading mode stack) (t :: ts) = run state ts := by
  rw [run_cons]
  rcases hmode with rfl | rfl
  · exact h
  · unfold step
    split <;> simp_all

/-- Where a name may stand, any token but the end of an object has to be one. -/
theorem step_name {done : List (Option (List Char) × Tree)} {name : Option (List Char)}
    (hmode : mode = .name ∨ mode = .firstName) :
    step mode (.members done :: stack) (.quoted name) =
      some (.reading .colon (.member done name :: stack)) := by
  rcases hmode with rfl | rfl <;> rfl

/-- A name and its colon are read, and the value is next. -/
theorem run_name {done : List (Option (List Char) × Tree)}
    (hmode : mode = .name ∨ mode = .firstName) (k : String) :
    run (.reading mode (.members done :: stack)) (Token.all (Json.quote k ++ ':' :: rest)) =
      run (.reading .value (.member done (some k.toList) :: stack)) (Token.all rest) := by
  rw [Token.all_quote, Token.all_colon, run_cons (step_name hmode), run_cons rfl]

/-- After an item comes a comma or the end of the array. -/
theorem stops_writeItems (js : List Json) : Numeral.Stops (Json.writeItems js ++ ']' :: rest) := by
  cases js <;> exact Numeral.stops_cons (by decide)

theorem stops_writeMembers (ms : List (String × Json)) :
    Numeral.Stops (Json.writeMembers ms ++ '\x7d' :: rest) := by
  cases ms <;> exact Numeral.stops_cons (by decide)

mutual

/-- **A written value is read to its end**, at any place where a value may stand. -/
theorem run_write : ∀ (j : Json) {mode : Mode} {stack : List Frame} {state : State}
    {rest : List Char}, j.IntegersOnly → (mode = .value ∨ mode = .firstItem) →
    complete (ofJson j) stack = some state → Numeral.Stops rest →
    run (.reading mode stack) (Token.all (j.write ++ rest)) = run state (Token.all rest)
  | .null, mode, stack, state, rest, _, hmode, hdone, _ => by
    rw [Json.write, Token.all_null]
    exact run_value hmode (by simp) hdone
  | .bool true, mode, stack, state, rest, _, hmode, hdone, _ => by
    rw [Json.write, Token.all_true]
    exact run_value hmode (by simp) hdone
  | .bool false, mode, stack, state, rest, _, hmode, hdone, _ => by
    rw [Json.write, Token.all_false]
    exact run_value hmode (by simp) hdone
  | .number (.integer n), mode, stack, state, rest, _, hmode, hdone, hrest => by
    rw [Json.write, Token.all_integer n hrest]
    exact run_value hmode (by simp) hdone
  | .number (.double _), _, _, _, _, hints, _, _, _ => hints.elim
  | .string s, mode, stack, state, rest, _, hmode, hdone, _ => by
    rw [Json.write, Token.all_quote]
    exact run_value hmode (by simp) hdone
  | .array [], mode, stack, state, rest, _, hmode, hdone, _ => by
    have hclose : step .firstItem (.items [] :: stack) .closeArray = some state := hdone
    have htext : (Json.array []).write ++ rest = '[' :: ']' :: rest := rfl
    rw [htext, Token.all_openArray, Token.all_closeArray, run_value hmode (by simp) rfl,
      run_cons hclose]
  | .array (j :: js), mode, stack, state, rest, hints, hmode, hdone, _ => by
    have htext : (Json.array (j :: js)).write ++ rest =
        '[' :: (j.write ++ (Json.writeItems js ++ ']' :: rest)) := by
      simp [Json.write]
    rw [htext, Token.all_openArray, run_value hmode (by simp) rfl,
      run_write j hints.1 (.inr rfl) rfl (stops_writeItems js)]
    exact run_writeItems js hints.2 hdone
  | .object [], mode, stack, state, rest, _, hmode, hdone, _ => by
    have hclose : step .firstName (.members [] :: stack) .closeObject = some state := hdone
    have htext : (Json.object []).write ++ rest = '\x7b' :: '\x7d' :: rest := rfl
    rw [htext, Token.all_openObject, Token.all_closeObject, run_value hmode (by simp) rfl,
      run_cons hclose]
  | .object ((k, j) :: ms), mode, stack, state, rest, hints, hmode, hdone, _ => by
    have htext : (Json.object ((k, j) :: ms)).write ++ rest =
        '\x7b' :: (Json.quote k ++ ':' ::
          (j.write ++ (Json.writeMembers ms ++ '\x7d' :: rest))) := by
      simp [Json.write]
    rw [htext, Token.all_openObject, run_value hmode (by simp) rfl, run_name (.inr rfl) k,
      run_write j hints.1 (.inl rfl) rfl (stops_writeMembers ms)]
    exact run_writeMembers ms hints.2 hdone

theorem run_writeItems : ∀ (js : List Json) {done : List Tree} {stack : List Frame}
    {state : State} {rest : List Char}, Json.ItemsIntegersOnly js →
    complete (.array (done.reverse ++ itemsOfJson js) true) stack = some state →
    run (.reading .afterValue (.items done :: stack))
      (Token.all (Json.writeItems js ++ ']' :: rest)) = run state (Token.all rest)
  | [], done, stack, state, rest, _, hdone => by
    have hclose : step .afterValue (.items done :: stack) .closeArray = some state := by
      rwa [itemsOfJson, List.append_nil] at hdone
    rw [Json.writeItems, List.nil_append, Token.all_closeArray, run_cons hclose]
  | j :: js, done, stack, state, rest, hints, hdone => by
    have htext : Json.writeItems (j :: js) ++ ']' :: rest =
        ',' :: (j.write ++ (Json.writeItems js ++ ']' :: rest)) := by
      simp [Json.writeItems]
    have hnext : complete (.array ((ofJson j :: done).reverse ++ itemsOfJson js) true) stack =
        some state := by
      rwa [List.reverse_cons, List.append_assoc, List.singleton_append]
    rw [htext, Token.all_comma, run_cons rfl,
      run_write j hints.1 (.inl rfl) rfl (stops_writeItems js),
      run_writeItems js hints.2 hnext]

theorem run_writeMembers : ∀ (ms : List (String × Json))
    {done : List (Option (List Char) × Tree)} {stack : List Frame} {state : State}
    {rest : List Char}, Json.MembersIntegersOnly ms →
    complete (.object (done.reverse ++ membersOfJson ms) true) stack = some state →
    run (.reading .afterValue (.members done :: stack))
      (Token.all (Json.writeMembers ms ++ '\x7d' :: rest)) = run state (Token.all rest)
  | [], done, stack, state, rest, _, hdone => by
    have hclose : step .afterValue (.members done :: stack) .closeObject = some state := by
      rwa [membersOfJson, List.append_nil] at hdone
    rw [Json.writeMembers, List.nil_append, Token.all_closeObject, run_cons hclose]
  | (k, j) :: ms, done, stack, state, rest, hints, hdone => by
    have htext : Json.writeMembers ((k, j) :: ms) ++ '\x7d' :: rest =
        ',' :: (Json.quote k ++ ':' :: (j.write ++ (Json.writeMembers ms ++ '\x7d' :: rest))) := by
      simp [Json.writeMembers]
    have hnext : complete (.object (((some k.toList, ofJson j) :: done).reverse ++
        membersOfJson ms) true) stack = some state := by
      rwa [List.reverse_cons, List.append_assoc, List.singleton_append]
    rw [htext, Token.all_comma, run_cons rfl, run_name (.inl rfl) k,
      run_write j hints.1 (.inl rfl) rfl (stops_writeMembers ms),
      run_writeMembers ms hints.2 hnext]

end

theorem ofText_compact {j : Json} (h : j.IntegersOnly) : ofText j.compact = (ofJson j, false) := by
  have hrun : run (.reading .value []) (Token.all (j.write ++ [])) =
      run (.done (ofJson j)) (Token.all []) :=
    run_write j h (.inl rfl) rfl Numeral.stops_nil
  rw [List.append_nil, Token.all, run] at hrun
  rw [ofText, ofTokens, Json.compact, String.toList_ofList]
  exact hrun

mutual

/-- **The tree of a value is made into the value**, unless it is nested deeper than the limit. -/
theorem toJson?_ofJson : ∀ {j : Json} (limit : Nat), j.WellFormed → j.IntegersOnly →
    (ofJson j).toJson? limit = if j.depth ≤ limit then some j else none
  | .null, _, _, _ | .bool _, _, _, _ => rfl
  | .number (.integer n), _, _, hints => by
    rw [ofJson, toJson?, Numeral.toNumber?_ofInt hints.1 hints.2]
    rfl
  | .number (.double _), _, _, hints => hints.elim
  | .string s, _, _, _ => by
    rw [ofJson, toJson?, Option.map_some, String.ofList_toList]
    rfl
  | .array items, 0, _, _ => rfl
  | .array items, limit + 1, hwf, hints => by
    have hitems := itemsToJson?_ofJson limit hwf hints
    rw [ofJson, toJson?]
    by_cases hdepth : Json.itemsDepth items ≤ limit
    · simp [hitems, hdepth, Json.depth]
    · simp [hitems, hdepth, Json.depth]
  | .object members, 0, _, _ => rfl
  | .object members, limit + 1, hwf, hints => by
    have hmembers := membersToJson?_ofJson limit hwf.2 hints
    rw [ofJson, toJson?]
    by_cases hdepth : Json.membersDepth members ≤ limit
    · simp [hmembers, hdepth, Json.depth, Json.ofMembers, sortEntries_of_ascending hwf.1]
    · simp [hmembers, hdepth, Json.depth]

theorem itemsToJson?_ofJson : ∀ {js : List Json} (limit : Nat), Json.ItemsWellFormed js →
    Json.ItemsIntegersOnly js →
    itemsToJson? limit (itemsOfJson js) = if Json.itemsDepth js ≤ limit then some js else none
  | [], _, _, _ => by simp [itemsOfJson, itemsToJson?, Json.itemsDepth]
  | j :: js, limit, hwf, hints => by
    have hj := toJson?_ofJson limit hwf.1 hints.1
    have hjs := itemsToJson?_ofJson limit hwf.2 hints.2
    simp only [itemsOfJson, itemsToJson?, Json.itemsDepth, Nat.max_le, hj, hjs]
    by_cases hdepth : j.depth ≤ limit <;> by_cases hrest : Json.itemsDepth js ≤ limit <;>
      simp only [hdepth, hrest, if_true, if_false, true_and, false_and]

theorem membersToJson?_ofJson : ∀ {ms : List (String × Json)} (limit : Nat),
    Json.MembersWellFormed ms → Json.MembersIntegersOnly ms →
    membersToJson? limit (membersOfJson ms) =
      if Json.membersDepth ms ≤ limit then some ms else none
  | [], _, _, _ => by simp [membersOfJson, membersToJson?, Json.membersDepth]
  | (k, j) :: ms, limit, hwf, hints => by
    have hj := toJson?_ofJson limit hwf.1 hints.1
    have hms := membersToJson?_ofJson limit hwf.2 hints.2
    simp only [membersOfJson, membersToJson?, Json.membersDepth, Nat.max_le, hj, hms]
    by_cases hdepth : j.depth ≤ limit <;> by_cases hrest : Json.membersDepth ms ≤ limit <;>
      simp [hdepth, hrest, String.ofList_toList]

end

end Tree

namespace Json

/-- **A written value is read back**, unless it is nested deeper than the reader goes. -/
theorem read?_compact {j : Json} (hwf : j.WellFormed) (hints : j.IntegersOnly) :
    read? j.compact = if j.depth ≤ Tree.depthLimit then some j else none := by
  rw [read?, Tree.ofText_compact hints]
  exact Tree.toJson?_ofJson Tree.depthLimit hwf hints

/-- The JSON value of a text, however deep it is nested. -/
def readUnlimited? (text : String) : Option Json :=
  match Tree.ofText text with
  | (t, false) => t.toJson? text.length
  | (_, true) => none

theorem readUnlimited?_compact {j : Json} (hwf : j.WellFormed) (hints : j.IntegersOnly) :
    readUnlimited? j.compact = some j := by
  have hdepth : j.depth ≤ j.compact.length := by
    rw [compact, String.length_ofList]
    exact depth_le_length j
  rw [readUnlimited?, Tree.ofText_compact hints]
  simp only [Tree.toJson?_ofJson j.compact.length hwf hints, if_pos hdepth]

/-- **Different values are written differently**, however deep they are nested. -/
theorem compact_injective {i j : Json} (hi : i.WellFormed ∧ i.IntegersOnly)
    (hj : j.WellFormed ∧ j.IntegersOnly) (h : i.compact = j.compact) : i = j := by
  have hread : some i = some j := by
    rw [← readUnlimited?_compact hi.1 hi.2, ← readUnlimited?_compact hj.1 hj.2, h]
  exact Option.some.inj hread

end Json

end AccessGuard
