import Lox.Grammar.Reading

/-!
Contract: the order in which syntax errors are noted.

A parser complains of the next token, so what is read earlier is complained of earlier. There
is one exception: that the left side of a `=` is no target is noted at the `=`, but behind all
that is noted in the value.

A parser may carry a bound on nested constructs. Two copies of it that differ in their bounds are
compared: on tokens that use up neither bound they give the same reply. How many tokens a parser
takes at least is kept beside this, because the bound that is left inside it has to suffice for
the tokens that are left. What holds of the steps of a parser holds of sequences of steps.

Owns: recorded complaints, the steps of the parser, sequences and repetitions. Does not own: the
rules of the grammar.
-/

set_option autoImplicit false

namespace Lox

/-- All that is complained of in a reply. -/
def Reply.complaints {α : Type} (reply : Reply α) : List Complaint :=
  reply.notes ++ match reply.outcome with
    | .ok _ => []
    | .error complaint => [complaint]

namespace Grammar

/-- The complaints that reading from these tokens down to a rest of them comes to, in order. -/
inductive Recorded : List Token → List Complaint → List Token → Prop where
  | skipped (read rest : List Token) : Recorded (read ++ rest) [] rest
  | here {cause : SyntaxError.Cause} (tokens : List Token) (ordinary : cause ≠ .assignmentTarget)
      (bounded : cause ≠ .nesting) : Recorded tokens [⟨cause, tokens.head?⟩] tokens
  | append {tokens middle rest : List Token} {first second : List Complaint}
      (former : Recorded tokens first middle) (latter : Recorded middle second rest) :
      Recorded tokens (first ++ second) rest
  /-- What is behind the `=` is read first. -/
  | target {equals : Token} {after rest : List Token} {value : Expr} {notes : List Complaint}
      (reads : expression (boundFor after) after = ⟨.ok value, rest, notes⟩)
      (inner : Recorded after notes rest) :
      Recorded (equals :: after) (notes ++ [⟨.assignmentTarget, some equals⟩]) rest

namespace Recorded

theorem behind (token : Token) (rest : List Token) : Recorded (token :: rest) [] rest :=
  skipped [token] rest

/-- What is skipped first is not complained of. -/
theorem earlier {tokens middle rest : List Token} {complaints : List Complaint}
    (recorded : Recorded middle complaints rest) (later : middle <:+ tokens) :
    Recorded tokens complaints rest := by
  obtain ⟨read, rfl⟩ := later
  exact append (skipped read middle) recorded

/-- Reading goes on at a later point of the tokens. -/
theorem suffix {tokens rest : List Token} {complaints : List Complaint}
    (recorded : Recorded tokens complaints rest) : rest <:+ tokens := by
  induction recorded with
  | skipped read rest => exact List.suffix_append read rest
  | here tokens _ _ => exact List.suffix_rfl
  | append _ _ former latter => exact latter.trans former
  | target _ _ inner => exact inner.trans (List.suffix_cons ..)

/-- What is complained of comes next at some point on the way. -/
theorem exists_point {tokens rest : List Token} {complaints : List Complaint}
    (recorded : Recorded tokens complaints rest) {complaint : Complaint}
    (member : complaint ∈ complaints) :
    ∃ point, rest <:+ point ∧ point <:+ tokens ∧ complaint.token = point.head? := by
  induction recorded with
  | skipped => cases member
  | here tokens _ _ =>
      obtain rfl := List.mem_singleton.mp member
      exact ⟨tokens, List.suffix_rfl, List.suffix_rfl, rfl⟩
  | append former latter inFormer inLatter =>
      rcases List.mem_append.mp member with member | member
      · obtain ⟨point, later, earlier, about⟩ := inFormer member
        exact ⟨point, latter.suffix.trans later, earlier, about⟩
      · obtain ⟨point, later, earlier, about⟩ := inLatter member
        exact ⟨point, later, earlier.trans former.suffix, about⟩
  | @target equals after rest value notes _ inner inInner =>
      rcases List.mem_append.mp member with member | member
      · obtain ⟨point, later, earlier, about⟩ := inInner member
        exact ⟨point, later, earlier.trans (List.suffix_cons ..), about⟩
      · obtain rfl := List.mem_singleton.mp member
        exact ⟨equals :: after, inner.suffix.trans (List.suffix_cons ..), List.suffix_rfl, rfl⟩

/-- What is complained of is one of the tokens, or their end. -/
theorem mem_of_token {tokens rest : List Token} {complaints : List Complaint}
    (recorded : Recorded tokens complaints rest) {complaint : Complaint}
    (member : complaint ∈ complaints) {token : Token} (is : complaint.token = some token) :
    token ∈ tokens := by
  obtain ⟨point, _, later, about⟩ := recorded.exists_point member
  exact later.subset (List.mem_of_mem_head? (about.symm.trans is))

end Recorded

end Grammar

open Grammar

namespace Parser

variable {α β : Type}

/-- Two parsers answer these tokens alike, complain in order, and take at least so many tokens
when they succeed. -/
structure SettlesAt (least : Nat) (tokens : List Token) (one other : Parser α) : Prop where
  same : other tokens = one tokens
  recorded : Recorded tokens (one tokens).complaints (one tokens).rest
  taken : ∀ value rest notes, one tokens = ⟨.ok value, rest, notes⟩ →
    rest.length + least ≤ tokens.length

/-- Two parsers settle, whatever the tokens, if these are fewer than so many. -/
def Settles (least reach : Nat) (one other : Parser α) : Prop :=
  ∀ tokens, tokens.length < reach → SettlesAt least tokens one other

/-- Of no tokens at all, nothing has to be shown. -/
theorem Settles.nowhere (least : Nat) (one other : Parser α) : Settles least 0 one other :=
  fun _ short => nomatch short

theorem Settles.within {least reach shorter : Nat} {one other : Parser α}
    (settles : Settles least reach one other) (le : shorter ≤ reach) :
    Settles least shorter one other :=
  fun tokens short => settles tokens (Nat.lt_of_lt_of_le short le)

theorem Settles.atLeast {most least reach : Nat} {one other : Parser α}
    (settles : Settles most reach one other) (le : least ≤ most) : Settles least reach one other :=
  fun tokens short => by
    obtain ⟨same, recorded, taken⟩ := settles tokens short
    refine ⟨same, recorded, fun value rest notes answer => ?_⟩
    have enough := taken value rest notes answer
    omega

/-! ## Sequences -/

/-- What comes next settles on what is left. -/
theorem SettlesAt.bind {least more : Nat} {tokens : List Token} {first first' : Parser α}
    {next next' : α → Parser β} (settles : SettlesAt least tokens first first')
    (settlesNext : ∀ value rest, rest.length + least ≤ tokens.length →
      SettlesAt more rest (next value) (next' value)) :
    SettlesAt (least + more) tokens (first >>= next) (first' >>= next') := by
  obtain ⟨same, recorded, taken⟩ := settles
  rcases answer : first tokens with ⟨complaint | value, middle, notes⟩
  · rw [answer] at same recorded
    have stopped : (first >>= next) tokens = ⟨.error complaint, middle, notes⟩ :=
      bind_of_error answer
    refine ⟨?_, ?_, ?_⟩
    · rw [bind_of_error same, stopped]
    · rw [stopped]
      exact recorded
    · intro value rest notes impossible
      rw [stopped] at impossible
      cases impossible
  · have enough := taken value middle notes answer
    rw [answer] at same recorded
    obtain ⟨sameNext, recordedNext, takenNext⟩ := settlesNext value middle enough
    have goesOn : (first >>= next) tokens =
        { next value middle with notes := notes ++ (next value middle).notes } := bind_of_ok answer
    refine ⟨?_, ?_, ?_⟩
    · rw [bind_of_ok same, goesOn, sameNext]
    · rw [goesOn]
      simp only [Reply.complaints, List.append_nil] at recorded
      simp only [Reply.complaints, List.append_assoc]
      exact .append recorded recordedNext
    · intro found rest noted ends
      rw [goesOn] at ends
      rcases answerNext : next value middle with ⟨outcome, restNext, notesNext⟩
      rw [answerNext] at ends takenNext
      obtain ⟨rfl, rfl, _⟩ := Reply.mk.inj ends
      have enoughNext := takenNext found restNext notesNext rfl
      show restNext.length + (least + more) ≤ tokens.length
      omega

/-- What is found without complaint is behind. -/
theorem SettlesAt.bind_found {least more : Nat} {tokens rest : List Token} {first : Parser α}
    {value : α} {next next' : α → Parser β} (found : first tokens = ⟨.ok value, rest, []⟩)
    (later : rest <:+ tokens) (enough : rest.length + least ≤ tokens.length)
    (settles : SettlesAt more rest (next value) (next' value)) :
    SettlesAt (least + more) tokens (first >>= next) (first >>= next') := by
  obtain ⟨same, recorded, taken⟩ := settles
  have goesOn (next : α → Parser β) : (first >>= next) tokens = next value rest := bind_of_ok found
  refine ⟨?_, ?_, fun value' rest' notes answer => ?_⟩
  · rw [goesOn, goesOn, same]
  · rw [goesOn]
    exact recorded.earlier later
  · rw [goesOn] at answer
    have enoughNext := taken value' rest' notes answer
    omega

namespace Settles

variable {least reach : Nat}

theorem bind {some : Nat} {first first' : Parser α} {next next' : α → Parser β}
    (settles : Settles some reach first first')
    (settlesNext : ∀ value, Settles least reach (next value) (next' value)) :
    Settles least reach (first >>= next) (first' >>= next') := by
  intro tokens short
  have both := (settles.atLeast (Nat.zero_le some) tokens short).bind fun value rest enough =>
    settlesNext value rest (by omega)
  rwa [Nat.zero_add] at both

/-- What comes behind a token has one token fewer to settle on. -/
theorem bind_taking {first first' : Parser α} {next next' : α → Parser β}
    (settles : Settles 1 (reach + 1) first first')
    (settlesNext : ∀ value, Settles 0 reach (next value) (next' value)) :
    Settles 1 (reach + 1) (first >>= next) (first' >>= next') := fun tokens short =>
  (settles tokens short).bind fun value rest enough => settlesNext value rest (by omega)

/-! ## Steps -/

/-- What leaves the tokens in place and does not complain. -/
theorem of_silent {parser : Parser α} (finds : List Token → α)
    (silent : ∀ tokens, parser tokens = ⟨.ok (finds tokens), tokens, []⟩) :
    Settles 0 reach parser parser := by
  intro tokens short
  refine ⟨rfl, ?_, fun value rest notes answer => ?_⟩
  · rw [silent]
    exact .skipped [] tokens
  · rw [silent] at answer
    obtain ⟨_, rfl, _⟩ := Reply.mk.inj answer
    exact Nat.le_refl _

theorem pure (value : α) : Settles 0 reach (pure value : Parser α) (pure value) :=
  of_silent (fun _ => value) fun _ => rfl

theorem atEnd : Settles 0 reach atEnd atEnd := of_silent _ fun _ => rfl

theorem sees (test : Token.Kind → Bool) : Settles 0 reach (sees test) (sees test) :=
  of_silent _ fun _ => rfl

theorem nextSpan : Settles 0 reach nextSpan nextSpan := of_silent _ fun _ => rfl

theorem fail {cause : SyntaxError.Cause} (ordinary : cause ≠ .assignmentTarget)
    (bounded : cause ≠ .nesting) :
    Settles least reach (fail cause : Parser α) (Parser.fail cause) := fun tokens _ =>
  ⟨rfl, .here tokens ordinary bounded, fun _ _ _ impossible => nomatch impossible⟩

/-- A note about the next token, at a point where reading goes on. -/
theorem bind_notePeek {cause : SyntaxError.Cause} {next next' : Parser β}
    (ordinary : cause ≠ .assignmentTarget) (bounded : cause ≠ .nesting)
    (settlesNext : Settles least reach next next') :
    Settles least reach (Parser.peek >>= fun token => note cause token >>= fun _ => next)
      (Parser.peek >>= fun token => note cause token >>= fun _ => next') := by
  intro tokens short
  have noted : SettlesAt 0 tokens (note cause tokens.head?) (note cause tokens.head?) := by
    refine ⟨rfl, .here tokens ordinary bounded, fun value rest notes answer => ?_⟩
    obtain ⟨_, rfl, _⟩ := Reply.mk.inj answer
    exact Nat.le_refl _
  have both : SettlesAt (0 + least) tokens (note cause tokens.head? >>= fun _ => next)
      (note cause tokens.head? >>= fun _ => next') :=
    noted.bind fun _ rest enough => settlesNext rest (by omega)
  have found : Parser.peek tokens = ⟨.ok tokens.head?, tokens, []⟩ := rfl
  have enough : tokens.length + 0 ≤ tokens.length := Nat.le_refl _
  have peeked : SettlesAt (0 + (0 + least)) tokens
      (Parser.peek >>= fun token => note cause token >>= fun _ => next)
      (Parser.peek >>= fun token => note cause token >>= fun _ => next') :=
    .bind_found found List.suffix_rfl enough both
  rwa [Nat.zero_add, Nat.zero_add] at peeked

theorem require {test : Token.Kind → Bool} {cause : SyntaxError.Cause}
    (ordinary : cause ≠ .assignmentTarget) (bounded : cause ≠ .nesting) :
    Settles 1 reach (require test cause) (Parser.require test cause) := by
  intro tokens short
  cases tokens with
  | nil => exact ⟨rfl, .here [] ordinary bounded, fun _ _ _ impossible => nomatch impossible⟩
  | cons token rest =>
      by_cases fits : test token.kind = true
      · have found : Parser.require test cause (token :: rest) = ⟨.ok token, rest, []⟩ := by
          simp [Parser.require, fits]
        refine ⟨rfl, ?_, fun value left notes answer => ?_⟩
        · rw [found]
          exact .behind token rest
        · rw [found] at answer
          obtain ⟨_, rfl, _⟩ := Reply.mk.inj answer
          exact Nat.le_refl _
      · have stopped : Parser.require test cause (token :: rest) =
            ⟨.error ⟨cause, some token⟩, token :: rest, []⟩ := by
          simp [Parser.require, fits]
        refine ⟨rfl, ?_, fun value left notes answer => ?_⟩
        · rw [stopped]
          exact .here (token :: rest) ordinary bounded
        · rw [stopped] at answer
          cases answer

theorem symbol (sign : Symbol) (place : String) :
    Settles 1 reach (symbol sign place) (Parser.symbol sign place) :=
  require (fun same => nomatch same) fun same => nomatch same

theorem name (role : String) : Settles 1 reach (name role) (Parser.name role) := by
  cases reach with
  | zero => exact .nowhere _ _ _
  | succ reach =>
      have word : Settles 1 (reach + 1) (Parser.require Token.Kind.isIdentifier (.name role))
          (Parser.require Token.Kind.isIdentifier (.name role)) :=
        require (fun same => nomatch same) fun same => nomatch same
      exact word.bind_taking fun _ => pure _

/-- What is found at the front of the tokens, or not at all. -/
theorem bind_front {first : Parser α} {missing : α} {next next' : α → Parser β} (one : least ≤ 1)
    (front : ∀ tokens, first tokens = ⟨.ok missing, tokens, []⟩ ∨
      ∃ token rest found, tokens = token :: rest ∧ first tokens = ⟨.ok found, rest, []⟩ ∧
        Settles 0 reach (next found) (next' found))
    (absent : Settles least (reach + 1) (next missing) (next' missing)) :
    Settles least (reach + 1) (first >>= next) (first >>= next') := by
  intro tokens short
  rcases front tokens with stays | ⟨token, rest, found, rfl, there, present⟩
  · have enough : tokens.length + 0 ≤ tokens.length := Nat.le_refl _
    have both := SettlesAt.bind_found stays List.suffix_rfl enough (absent tokens short)
    rwa [Nat.zero_add] at both
  · have enough : rest.length + 1 ≤ (token :: rest).length := Nat.le_refl _
    have both := SettlesAt.bind_found there (List.suffix_cons token rest) enough
      (present rest (Nat.lt_of_succ_lt_succ short))
    exact ⟨both.same, both.recorded, fun value left notes answer => by
      have enough := both.taken value left notes answer
      omega⟩

theorem bind_optionalAs {meaning : Token.Kind → Option α}
    {next next' : Option (α × Span) → Parser β}
    (absent : Settles least (reach + 1) (next none) (next' none))
    (present : ∀ found, Settles 0 reach (next (some found)) (next' (some found)))
    (one : least ≤ 1) :
    Settles least (reach + 1) (optionalAs meaning >>= next) (optionalAs meaning >>= next') := by
  refine bind_front one (fun tokens => ?_) absent
  cases tokens with
  | nil => exact .inl rfl
  | cons token rest =>
      cases meant : meaning token.kind with
      | none => exact .inl (by simp [optionalAs, meant])
      | some value =>
          have found : optionalAs meaning (token :: rest) =
              ⟨.ok (some (value, token.span)), rest, []⟩ := by simp [optionalAs, meant]
          exact .inr ⟨token, rest, some (value, token.span), rfl, found, present _⟩

theorem bind_optional {test : Token.Kind → Bool} {next next' : Option Token → Parser β}
    (absent : Settles least (reach + 1) (next none) (next' none))
    (present : ∀ token, Settles 0 reach (next (some token)) (next' (some token)))
    (one : least ≤ 1) :
    Settles least (reach + 1) (optional test >>= next) (optional test >>= next') := by
  refine bind_front one (fun tokens => ?_) absent
  cases tokens with
  | nil => exact .inl rfl
  | cons token rest =>
      by_cases fits : test token.kind = true
      · exact .inr ⟨token, rest, some token, rfl, by simp [Parser.optional, fits], present _⟩
      · exact .inl (by simp [Parser.optional, fits])

theorem map {parser parser' : Parser α} (settles : Settles least reach parser parser')
    (function : α → β) : Settles least reach (function <$> parser) (function <$> parser') :=
  fun tokens short => (settles tokens short).bind fun value rest enough =>
    pure (function value) rest (Nat.lt_of_le_of_lt (Nat.le_of_add_right_le enough) short)

theorem ite {condition : Bool} {yes yes' no no' : Parser α}
    (settlesYes : Settles least reach yes yes') (settlesNo : Settles least reach no no') :
    Settles least reach (if condition then yes else no) (if condition then yes' else no') := by
  split
  · exact settlesYes
  · exact settlesNo

theorem skip : Settles 0 reach skip skip := by
  intro tokens short
  refine ⟨rfl, ?_, fun value rest notes answer => ?_⟩
  · cases tokens with
    | nil => exact .skipped [] []
    | cons token rest => exact .skipped [token] rest
  · cases tokens with
    | nil =>
        obtain ⟨_, rfl, _⟩ := Reply.mk.inj answer
        exact Nat.le_refl _
    | cons token others =>
        obtain ⟨_, rfl, _⟩ := Reply.mk.inj answer
        exact Nat.le_succ _

/-- What begins by reading the next token, which is there. -/
theorem skip_bind {token : Token} {rest : List Token} {next next' : Span → Parser β}
    (short : (token :: rest).length < reach + 1)
    (settlesNext : ∀ span, Settles 0 reach (next span) (next' span)) :
    SettlesAt 1 (token :: rest) (Parser.skip >>= next) (Parser.skip >>= next') := by
  have enough : rest.length + 1 ≤ (token :: rest).length := Nat.le_refl _
  have found : Parser.skip (token :: rest) = ⟨.ok token.span, rest, []⟩ := rfl
  exact .bind_found found (List.suffix_cons ..) enough
    (settlesNext token.span rest (Nat.lt_of_succ_lt_succ short))

/-- What begins by looking at the next token. -/
theorem bind_peek {next next' : Option Token → Parser β}
    (absent : Settles least reach (next none) (next' none))
    (present : ∀ token rest, (token :: rest).length < reach →
      SettlesAt least (token :: rest) (next (some token)) (next' (some token))) :
    Settles least reach (Parser.peek >>= next) (Parser.peek >>= next') := by
  intro tokens short
  have enough : tokens.length + 0 ≤ tokens.length := Nat.le_refl _
  have found : Parser.peek tokens = ⟨.ok tokens.head?, tokens, []⟩ := rfl
  have there : SettlesAt least tokens (next tokens.head?) (next' tokens.head?) := by
    cases tokens with
    | nil => exact absent [] short
    | cons token rest => exact present token rest short
  have both := SettlesAt.bind_found found List.suffix_rfl enough there
  rwa [Nat.zero_add] at both

/-! ## Repetitions -/

section Repetitions

variable {item item' : Parser α} (settles : Settles 1 reach item item')
include settles

theorem itemsUntil (stop : Token.Kind → Bool) {bound bound' : Nat} (enough : reach ≤ bound)
    (enough' : reach ≤ bound') :
    Settles 0 reach (itemsUntil stop item bound) (Parser.itemsUntil stop item' bound') := by
  induction reach generalizing bound bound' with
  | zero => exact .nowhere _ _ _
  | succ reach inductionHypothesis =>
      obtain ⟨bound, rfl⟩ := Nat.exists_eq_add_of_le' enough
      obtain ⟨bound', rfl⟩ := Nat.exists_eq_add_of_le' enough'
      have others := inductionHypothesis (settles.within (Nat.le_succ reach))
        (Nat.le_add_left reach bound) (Nat.le_add_left reach bound')
      exact atEnd.bind fun _ => (sees stop).bind fun _ =>
        ite (pure _) ((settles.bind_taking fun _ => others.bind fun _ => pure _).atLeast
          (Nat.zero_le _))

theorem firstByComma {more more' : Parser (List α)}
    (settlesMore : Settles 0 (reach - 1) more more') :
    Settles 1 reach
      (do
        let first ← item
        match ← optionalSymbol .comma with
        | none => return [first]
        | some _ => return first :: (← more))
      (do
        let first ← item'
        match ← optionalSymbol .comma with
        | none => return [first]
        | some _ => return first :: (← more')) := by
  cases reach with
  | zero => exact .nowhere _ _ _
  | succ reach =>
      refine settles.bind_taking fun first => ?_
      cases reach with
      | zero => exact .nowhere _ _ _
      | succ reach =>
          exact bind_optional (pure _)
            (fun _ => (settlesMore.within (Nat.le_succ reach)).bind fun _ => pure _) (Nat.zero_le 1)

theorem itemsByComma (things : String) {bound bound' : Nat} (count : Nat) (enough : reach ≤ bound)
    (enough' : reach ≤ bound') :
    Settles 1 reach (itemsByComma things item bound count)
      (Parser.itemsByComma things item' bound' count) := by
  induction reach generalizing bound bound' count with
  | zero => exact .nowhere _ _ _
  | succ reach inductionHypothesis =>
      obtain ⟨bound, rfl⟩ := Nat.exists_eq_add_of_le' enough
      obtain ⟨bound', rfl⟩ := Nat.exists_eq_add_of_le' enough'
      have more := (inductionHypothesis (settles.within (Nat.le_succ reach)) (count + 1)
        (Nat.le_add_left reach bound) (Nat.le_add_left reach bound')).atLeast (Nat.zero_le 1)
      have here := settles.firstByComma more
      show Settles 1 (reach + 1) (Parser.itemsByComma things item (bound + reach + 1) count)
        (Parser.itemsByComma things item' (bound' + reach + 1) count)
      simp only [Parser.itemsByComma]
      split
      · exact bind_notePeek (fun same => nomatch same) (fun same => nomatch same) here
      · exact here

theorem parenthesizedItems (things : String) {bound bound' : Nat} (enough : reach ≤ bound)
    (enough' : reach ≤ bound') :
    Settles 1 reach (parenthesizedItems things item bound)
      (Parser.parenthesizedItems things item' bound') := by
  have closing (found : List α) : Settles 1 reach
      (do
        let closing ← Parser.symbol .rightParen ("after " ++ things)
        Pure.pure (found, closing))
      (do
        let closing ← Parser.symbol .rightParen ("after " ++ things)
        Pure.pure (found, closing)) := by
    cases reach with
    | zero => exact .nowhere _ _ _
    | succ reach => exact (symbol _ _).bind_taking fun _ => pure _
  exact (sees _).bind fun _ => ite ((pure _).bind closing)
    ((settles.itemsByComma things 0 enough enough').bind closing)

end Repetitions

end Settles

end Parser

end Lox
