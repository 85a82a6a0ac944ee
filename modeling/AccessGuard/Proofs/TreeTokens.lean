import AccessGuard.Json.Tree

/-!
# The tokens of a tree

A tree that is closed all the way down is read from its own tokens and from nothing else: the reader
leaves no token out, makes none up, and finds no second reading. So what is required of a tree is
required of the text.

* `Tree.tokens`: the tokens that a tree is written with.
* `State.HasRead`: the tokens behind the reader.
* `State.HasRead.step`: one token further.
* `Tree.tokens_of_ofTokens`: a closed tree and the tokens that it was read from.
-/

namespace AccessGuard

namespace Tree

mutual

/-- The tokens of a tree, as if it were closed. -/
def tokens : Tree → List Token
  | broken => []
  | null => [.null]
  | bool b => [.bool b]
  | numeral n => [.numeral n]
  | quoted content => [.quoted content]
  | array items _ => .openArray :: ((itemTokens items).dropLast ++ [.closeArray])
  | object members _ => .openObject :: ((memberTokens members).dropLast ++ [.closeObject])
termination_by structural t => t

/-- Items, each of them with a comma behind it. -/
def itemTokens : List Tree → List Token
  | [] => []
  | t :: ts => tokens t ++ .comma :: itemTokens ts
termination_by structural ts => ts

/-- Members, each of them with a comma behind it. -/
def memberTokens : List (Option (List Char) × Tree) → List Token
  | [] => []
  | (name, t) :: ms => .quoted name :: .colon :: (tokens t ++ .comma :: memberTokens ms)
termination_by structural ms => ms

end

variable {t : Tree} {stack : List Frame} {mode : Mode} {state : State} {token : Token}
  {ts : List Token}

theorem itemTokens_append (us vs : List Tree) :
    itemTokens (us ++ vs) = itemTokens us ++ itemTokens vs := by
  induction us with
  | nil => rfl
  | cons u us ih => simp [itemTokens, ih]

theorem memberTokens_append (ms ns : List (Option (List Char) × Tree)) :
    memberTokens (ms ++ ns) = memberTokens ms ++ memberTokens ns := by
  induction ms with
  | nil => rfl
  | cons m ms ih =>
    obtain ⟨name, t⟩ := m
    simp [memberTokens, ih]

/-! ## What has been read -/

/-- The tokens that lead to the next value or name of the innermost array or object. -/
def tokensBefore : List Frame → List Token
  | [] => []
  | .items done :: stack => tokensBefore stack ++ .openArray :: itemTokens done.reverse
  | .members done :: stack => tokensBefore stack ++ .openObject :: memberTokens done.reverse
  | .member done name :: stack =>
    tokensBefore stack ++ .openObject :: (memberTokens done.reverse ++ [.quoted name, .colon])

/-- **The tokens behind the reader.** What leads to the next value or name has been read, but for
the colon or comma that the reader still waits for. -/
def State.HasRead : State → List Token → Prop
  | .done t, ts => ts = t.tokens
  | .reading .value stack, ts | .reading .name stack, ts => ts = tokensBefore stack
  | .reading .firstItem stack, ts =>
    ts = tokensBefore stack ∧ ∃ outer, stack = .items [] :: outer
  | .reading .firstName stack, ts =>
    ts = tokensBefore stack ∧ ∃ outer, stack = .members [] :: outer
  | .reading .colon stack, ts => ts ++ [.colon] = tokensBefore stack
  | .reading .afterValue stack, ts => ts ++ [.comma] = tokensBefore stack

theorem hasRead_complete (h : complete t stack = some state)
    (hread : ts = tokensBefore stack ++ t.tokens) : state.HasRead ts := by
  match stack, h with
  | [], h =>
    cases h
    exact hread
  | .items done :: stack, h =>
    cases h
    simp [State.HasRead, tokensBefore, hread, itemTokens_append, itemTokens]
  | .member done name :: stack, h =>
    cases h
    simp [State.HasRead, tokensBefore, hread, memberTokens_append, memberTokens]

theorem hasRead_beginValue (h : beginValue stack token = some state)
    (hread : ts = tokensBefore stack) : state.HasRead (ts ++ [token]) := by
  cases token with
  | openArray =>
    cases h
    exact ⟨by simp [tokensBefore, hread, itemTokens], _, rfl⟩
  | openObject =>
    cases h
    exact ⟨by simp [tokensBefore, hread, memberTokens], _, rfl⟩
  | null | bool | numeral | quoted => exact hasRead_complete h (by rw [hread]; rfl)
  | _ => cases h

theorem hasRead_beginName (h : beginName stack token = some state)
    (hread : ts = tokensBefore stack) : state.HasRead (ts ++ [token]) := by
  match token, stack, h with
  | .quoted name, .members done :: stack, h =>
    cases h
    simp [State.HasRead, tokensBefore, hread]

/-- What stands before a closing bracket has no comma behind it. -/
theorem eq_dropLast_of_concat {front opened : List Token} {bracket : Token}
    (hne : bracket ≠ .comma) (h : ts ++ [.comma] = front ++ bracket :: opened) :
    ts = front ++ bracket :: opened.dropLast := by
  have hopened : opened ≠ [] := by
    rintro rfl
    exact hne (List.append_inj_right' h rfl |> List.singleton_inj.1).symm
  have hfront := congrArg List.dropLast h
  rwa [List.dropLast_concat, List.dropLast_append_cons,
    List.dropLast_cons_of_ne_nil hopened] at hfront

/-- **One token further.** -/
theorem State.HasRead.step (hread : (State.reading mode stack).HasRead ts)
    (h : Tree.step mode stack token = some state) : state.HasRead (ts ++ [token]) := by
  unfold Tree.step at h
  split at h
  case h_1 =>
    -- an array without items
    obtain ⟨hts, outer, hstack⟩ := hread
    cases hstack
    exact hasRead_complete h (by simp [hts, tokensBefore, tokens, itemTokens])
  case h_2 => exact hasRead_beginValue h hread
  case h_3 => exact hasRead_beginValue h hread.1
  case h_4 =>
    obtain ⟨hts, outer, hstack⟩ := hread
    cases hstack
    exact hasRead_complete h (by simp [hts, tokensBefore, tokens, memberTokens])
  case h_5 => exact hasRead_beginName h hread
  case h_6 => exact hasRead_beginName h hread.1
  case h_7 =>
    cases h
    exact hread
  case h_8 =>
    cases h
    exact hread
  case h_9 =>
    have hts := eq_dropLast_of_concat (by simp) hread
    exact hasRead_complete h (by simp [hts, tokens])
  case h_10 =>
    cases h
    exact hread
  case h_11 =>
    have hts := eq_dropLast_of_concat (by simp) hread
    exact hasRead_complete h (by simp [hts, tokens])
  case h_12 => cases h

/-! ## Closed trees -/

/-- What is abandoned is not closed. -/
theorem isWhole_abandon (inner : Option Tree) (hinner : inner.all (!·.isWhole)) :
    (abandon inner stack).isWhole = false := by
  induction stack generalizing inner with
  | nil => cases inner <;> simp_all [abandon, isWhole]
  | cons frame stack ih => cases frame <;> exact ih _ rfl

/-- **What a run has read.** If it ends with a tree that is closed, and no tokens are left over, the
tokens before it and those it was given are the tokens of the tree. -/
theorem tokens_of_run (hread : state.HasRead ts) {rest : List Token}
    (h : run state rest = (t, false)) (hwhole : t.isWhole = true) : ts ++ rest = t.tokens := by
  induction rest generalizing state ts with
  | nil =>
    cases state with
    | done t' =>
      cases h
      rw [List.append_nil]
      exact hread
    | reading mode stack =>
      cases h
      rw [isWhole_abandon none rfl] at hwhole
      cases hwhole
  | cons token rest ih =>
    cases state with
    | done t' => cases h
    | reading mode stack =>
      rw [run] at h
      split at h
      case h_1 next hstep =>
        have hrest := ih (hread.step hstep) h
        rwa [List.append_assoc, List.singleton_append] at hrest
      case h_2 =>
        cases h
        rw [isWhole_abandon none rfl] at hwhole
        cases hwhole

/-- **A closed tree is read from its own tokens**, and from no others. -/
theorem tokens_of_ofTokens (h : ofTokens ts = (t, false)) (hwhole : t.isWhole = true) :
    ts = t.tokens := by
  have hstart : (State.reading .value []).HasRead [] := rfl
  exact tokens_of_run hstart h hwhole

end Tree

end AccessGuard
