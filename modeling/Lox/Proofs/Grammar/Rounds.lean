import Lox.Proofs.Grammar.Complaints

/-!
Contract: the rounds in which a program is read.

In each round a declaration is read, and the next round begins behind it, or where reading
resumes if it stops with a complaint. A round takes at least one token, so the rounds come to the
end of the tokens. What a program yields is what its rounds yield; neither the bound on nested
constructs nor the number of rounds that is granted plays any part in it.

Main statement: `declarations_eq_findings`.

Owns: readings, rounds, findings without bounds. Does not own: where reading resumes.
-/

set_option autoImplicit false

namespace Lox

/-- What a reply found, if it found something. -/
def Reply.found {α : Type} (reply : Reply α) : List α :=
  match reply.outcome with
  | .ok value => [value]
  | .error _ => []

/-- Where reading goes on after a reply: at what it left, or where reading resumes. -/
def Reply.next {α : Type} (reply : Reply α) : List Token :=
  match reply.outcome with
  | .ok _ => reply.rest
  | .error _ => Grammar.resume reply.rest

namespace Grammar

/-! ## One round -/

theorem boundFor_le {tokens others : List Token} (shorter : tokens.length ≤ others.length) :
    boundFor tokens ≤ boundFor others := by
  unfold boundFor
  omega

/-- What reading a declaration from these tokens answers. -/
def reading (tokens : List Token) : Reply Stmt := declaration (boundFor tokens) tokens

theorem declaration_settles {tokens : List Token} {bound : Nat}
    (enough : boundFor tokens ≤ bound) :
    Parser.Settles 1 (tokens.length + 1) (declaration (boundFor tokens)) (declaration bound) := by
  have room : 4 * (tokens.length + 1) ≤ boundFor tokens := by
    unfold boundFor
    omega
  exact (settles_constructs _).2.2.2 _ bound room (Nat.le_trans room enough)

theorem reading_settles {tokens : List Token} {bound : Nat} (enough : boundFor tokens ≤ bound) :
    Parser.SettlesAt 1 tokens (declaration (boundFor tokens)) (declaration bound) :=
  declaration_settles enough tokens (Nat.lt_succ_self _)

/-- Every bound that the tokens cannot use up gives this answer. -/
theorem declaration_eq_reading {tokens : List Token} {bound : Nat}
    (enough : boundFor tokens ≤ bound) : declaration bound tokens = reading tokens :=
  (reading_settles enough).same

theorem reading_recorded (tokens : List Token) :
    Recorded tokens (reading tokens).complaints (reading tokens).rest :=
  (reading_settles (Nat.le_refl _)).recorded

/-- A declaration takes at least one token. -/
theorem reading_taken {tokens : List Token} {found : Stmt}
    (reads : (reading tokens).outcome = .ok found) :
    (reading tokens).rest.length < tokens.length := by
  rcases answer : reading tokens with ⟨outcome, rest, notes⟩
  rw [answer] at reads
  obtain rfl : outcome = .ok found := reads
  exact (reading_settles (Nat.le_refl _)).taken found rest notes answer

theorem resume_shorter {tokens : List Token} (present : tokens ≠ []) :
    (resume tokens).length < tokens.length := by
  cases tokens with
  | nil => exact absurd rfl present
  | cons token rest => exact Nat.lt_succ_of_le (resumeBehind_suffix token rest).length_le

theorem reading_next_suffix (tokens : List Token) : (reading tokens).next <:+ tokens := by
  have left := (reading_recorded tokens).suffix
  unfold Reply.next
  split
  · exact left
  · exact (resume_suffix _).trans left

/-- The next round begins at least one token further, also where the declaration fails. -/
theorem reading_next_shorter {tokens : List Token} (present : tokens ≠ []) :
    (reading tokens).next.length < tokens.length := by
  unfold Reply.next
  split
  · next reads => exact reading_taken reads
  · by_cases atEnd : (reading tokens).rest = []
    · rw [atEnd]
      exact List.length_pos_iff.mpr present
    · exact Nat.lt_of_lt_of_le (resume_shorter atEnd) (reading_recorded tokens).suffix.length_le

/-! ## All rounds -/

/-- Where the rounds begin. -/
def rounds : List Token → List (List Token)
  | [] => []
  | token :: rest => (token :: rest) :: rounds (reading (token :: rest)).next
termination_by tokens => tokens.length
decreasing_by exact reading_next_shorter (List.cons_ne_nil token rest)

@[simp] theorem rounds_nil : rounds [] = [] := by rw [rounds]

theorem rounds_of_ne_nil {tokens : List Token} (present : tokens ≠ []) :
    rounds tokens = tokens :: rounds (reading tokens).next := by
  cases tokens with
  | nil => exact absurd rfl present
  | cons token rest => rw [rounds]

/-- Each round begins further on, and before the end. -/
theorem rounds_suffix (tokens : List Token) :
    ∀ start ∈ rounds tokens, start ≠ [] ∧ start <:+ tokens := by
  induction tokens using rounds.induct with
  | case1 => simp
  | case2 token rest inductionHypothesis =>
      rw [rounds_of_ne_nil (List.cons_ne_nil token rest)]
      intro start member
      obtain rfl | later := List.mem_cons.mp member
      · exact ⟨List.cons_ne_nil token rest, List.suffix_rfl⟩
      · obtain ⟨present, within⟩ := inductionHypothesis start later
        exact ⟨present, within.trans (reading_next_suffix (token :: rest))⟩

/-- Every round takes a token, so there are at most as many as tokens. -/
theorem length_rounds_le (tokens : List Token) : (rounds tokens).length ≤ tokens.length := by
  induction tokens using rounds.induct with
  | case1 => simp
  | case2 token rest inductionHypothesis =>
      have present := List.cons_ne_nil token rest
      rw [rounds_of_ne_nil present, List.length_cons]
      exact Nat.lt_of_le_of_lt inductionHypothesis (reading_next_shorter present)

/-- What the rounds yield. -/
def findings (tokens : List Token) : Findings where
  statements := (rounds tokens).flatMap fun start => (reading start).found
  complaints := (rounds tokens).flatMap fun start => (reading start).complaints

namespace Findings

/-- Findings one behind the other. -/
instance : Append Findings where
  append first second :=
    ⟨first.statements ++ second.statements, first.complaints ++ second.complaints⟩

variable (first second third : Findings)

@[simp] theorem statements_append :
    (first ++ second).statements = first.statements ++ second.statements := rfl

@[simp] theorem complaints_append :
    (first ++ second).complaints = first.complaints ++ second.complaints := rfl

@[simp] theorem nil_append : ⟨[], []⟩ ++ first = first := rfl

@[simp] theorem append_nil : first ++ ⟨[], []⟩ = first := by
  show mk (_ ++ []) (_ ++ []) = _
  rw [List.append_nil, List.append_nil]

theorem append_assoc : first ++ second ++ third = first ++ (second ++ third) := by
  show mk (_ ++ _ ++ _) (_ ++ _ ++ _) = _
  rw [List.append_assoc, List.append_assoc]
  rfl

end Findings

@[simp] theorem findings_nil : findings [] = ⟨[], []⟩ := by simp [findings]

theorem findings_of_ne_nil {tokens : List Token} (present : tokens ≠ []) :
    findings tokens = ⟨(reading tokens).found, (reading tokens).complaints⟩ ++
      findings (reading tokens).next := by
  unfold findings
  rw [rounds_of_ne_nil present, List.flatMap_cons, List.flatMap_cons]
  rfl

/-- Bounds that suffice do not show in what a program yields. -/
theorem declarations_eq_findings {tokens : List Token} {bound granted : Nat}
    (enough : boundFor tokens ≤ bound) (all : tokens.length ≤ granted) :
    declarations bound granted tokens = findings tokens := by
  induction granted generalizing tokens with
  | zero =>
      obtain rfl := List.eq_nil_of_length_eq_zero (Nat.le_zero.mp all)
      rw [findings_nil]
      rfl
  | succ granted inductionHypothesis =>
      cases tokens with
      | nil =>
          rw [findings_nil]
          rfl
      | cons token rest =>
          have present := List.cons_ne_nil token rest
          have shorter := reading_next_shorter present
          have others : declarations bound granted (reading (token :: rest)).next =
              findings (reading (token :: rest)).next :=
            inductionHypothesis (Nat.le_trans (boundFor_le (Nat.le_of_lt shorter)) enough)
              (by omega)
          rw [findings_of_ne_nil present, ← others]
          simp only [declarations, declaration_eq_reading enough]
          rcases reading (token :: rest) with ⟨complaint | found, left, notes⟩
          · show _ = (⟨_, _⟩ : Findings)
            simp [Reply.complaints, Reply.next]
            rfl
          · simp [Reply.complaints, Reply.next]
            rfl

end Grammar

open Grammar

/-- What is read from tokens is what the rounds yield. -/
theorem Program.ofTokens_eq (tokens : List Token) :
    Program.ofTokens tokens =
      match (findings (Text.of tokens).tokens).complaints with
      | [] => .ok ⟨(findings (Text.of tokens).tokens).statements⟩
      | complaints => .error (complaints.map (Complaint.toError (Text.of tokens).finish)) := by
  rw [← declarations_eq_findings (Nat.le_refl _) (Nat.le_refl _)]
  rfl

end Lox
