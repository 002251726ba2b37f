import Lox.Proofs.Lexical.Refinement

/-!
Contract: when a run of an accepted program ends in a breach.

A breach is a state that the binding of names was to rule out. It does so but in one
case: a local variable is in view in its own initializer, where nothing but a plain
read is an error. An assignment there, or a function that is called before the
initializer is done, uses the variable while its value is not there.

Main statement: `Session.verdict?_breach_iff`. While output works, a run ends in a
breach exactly if it uses a variable whose value is not there yet.

Owns: breaches of accepted programs. Does not own: the refinement.
-/

set_option autoImplicit false

namespace Lox.Lexical

open Binding

/-- While output works, only an empty cell shows as a breach. -/
theorem Mishap.shows_breach_iff {mishap : Mishap} {fault : Fault}
    (shows : mishap.Shows .working fault) :
    (∃ breach span, fault = .ofBreach breach span) ↔
      ∃ name span, mishap = .emptyCell name span := by
  constructor
  · intro breaks
    obtain ⟨breach, span, rfl⟩ := breaks
    cases mishap with
    | violation broken place => simp [Mishap.Shows, Fault.ofBreach, Fault.ofViolation] at shows
    | stackOverflow place => simp [Mishap.Shows, Fault.ofBreach] at shows
    | output reason place => simp [Mishap.Shows, Outlet.working, Outlet.steady, Sink.working] at shows
    | emptyCell name place => exact ⟨name, place, rfl⟩
  · intro empty
    obtain ⟨name, span, rfl⟩ := empty
    obtain ⟨depth, slot, same⟩ := shows
    exact ⟨.missingLocal depth slot, span, same⟩

theorem Verdict.shows_breach_iff {verdict : Verdict} {shown : Lox.Verdict}
    (shows : verdict.Shows .working shown) :
    (∃ breach span, shown = .failed (.ofBreach breach span)) ↔
      ∃ name span, verdict = .failed (.emptyCell name span) := by
  cases verdict with
  | failed mishap =>
      cases shown with
      | failed fault => simpa using Mishap.shows_breach_iff shows
      | completed => exact shows.elim
      | unfinished => exact shows.elim
  | completed =>
      cases shown with
      | completed => simp
      | failed fault => exact shows.elim
      | unfinished => exact shows.elim
  | unfinished =>
      cases shown with
      | completed => exact shows.elim
      | failed fault => exact shows.elim
      | unfinished => simp

namespace Session

/-- How the program of a request ends, unless it is rejected. -/
def verdict? (budget : Nat) (request : Request) (session : Session) : Option Verdict :=
  match request.program? with
  | none => none
  | some program =>
      match (session.resolver.resolve program).errors with
      | [] =>
          some (World.interpret budget (session.resolver.resolve program).program.statements
            session.world.clearOutput).1
      | _ => none

/-- Requests are rejected alike, and accepted programs end alike. -/
theorem Shadowed.verdict? {outlet : Outlet} {session : Session} {shadow : Lox.Session}
    (shadowed : Shadowed outlet session shadow) (budget : Nat) (request : Request) :
    Option.Rel (Verdict.Shows outlet) (session.verdict? budget request)
      (shadow.verdict? budget request) := by
  unfold Session.verdict? Lox.Session.verdict?
  cases read : request.program? with
  | none => exact .none
  | some program =>
      have unbound := Request.unbound_of_program? read
      have ends := fun accepted => shadowed.interpret unbound accepted budget
      simp only [shadowed.resolver]
      cases errors : (session.resolver.resolve program).errors with
      | nil => exact .some (ends errors)
      | cons first others => exact .none

/-- While output works, an accepted program ends in a breach exactly if the run by name
uses a variable whose value is not there yet. -/
theorem verdict?_breach_iff (callLimit : Nat) (clock : Clock) (budget : Nat)
    {requests : List Request}
    (honest : (Lox.Session.new callLimit .working clock).ServedHonestly budget requests)
    (request : Request) :
    (∃ breach span,
        (serve (Lox.Session.answer budget) requests
            (Lox.Session.new callLimit .working clock)).2.verdict? budget request =
          some (.failed (.ofBreach breach span))) ↔
      ∃ name span,
        (serve (answer budget) requests (new callLimit .working clock)).2.verdict? budget request =
          some (.failed (.emptyCell name span)) := by
  have shadowed := (shadowed_serve callLimit .working clock budget honest).2
  have alike := shadowed.verdict? budget request
  generalize (serve (Lox.Session.answer budget) requests
    (Lox.Session.new callLimit .working clock)).2.verdict? budget request = shown at alike ⊢
  generalize (serve (answer budget) requests
    (new callLimit .working clock)).2.verdict? budget request = verdict at alike ⊢
  cases alike with
  | none => simp
  | some shows => simpa using Verdict.shows_breach_iff shows

/-- A function that is called in the initializer of the variable that it returns. -/
def ownCall : String := "\x7b var a = (fun () \x7b return a; \x7d)(); \x7d"

/-- A source without errors can end in a breach. -/
theorem ownCall_breaches :
    (Lox.Session.new 2048 .working (.still 0)).verdict? 100 (.run ownCall) =
      some (.failed (.ofBreach (.missingLocal 1 0) ⟨1, 28, 1⟩)) := by
  decide +kernel

theorem ownCall_uses_emptyCell :
    ∃ name span,
      (serve (answer 100) [.run "print nil;"] (new 2048 .working (.still 0))).2.verdict? 100
          (.run ownCall) =
        some (.failed (.emptyCell name span)) := by
  have honest :
      (Lox.Session.new 2048 .working (.still 0)).ServedHonestly 100 [.run "print nil;"] :=
    ⟨trivial, trivial⟩
  refine (verdict?_breach_iff 2048 (.still 0) 100 honest (.run ownCall)).mp
    ⟨.missingLocal 1 0, ⟨1, 28, 1⟩, ?_⟩
  decide +kernel

end Session

end Lox.Lexical
