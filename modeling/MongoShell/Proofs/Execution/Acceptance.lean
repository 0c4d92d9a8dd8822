import MongoShell.Proofs.Execution.Validation
import MongoShell.Proofs.Operation.WellFormed

/-! Every operation that a statement asks for makes a request: what an operation has to have for
that is part of the shape of its kind. So an execution fails on its source text, in the client, or
by being late, and on nothing else. -/

namespace MongoShell

open Outcome

namespace Operation

/-- A number other than a limit is never negative. -/
theorem WellFormed.valid_of_ne {op : Operation} (wellFormed : op.WellFormed) {f : Field}
    (other : f ≠ .limit) (x : f.Content) (held : op.get f = some x) : f.Valid x :=
  (wellFormed.valid f x held).resolve_left fun limit => other limit.1

/-- What is checked is part of the shape of a kind. -/
theorem checks_of_kind (kind : OperationKind) : ∀ check ∈ kind.checks,
    match check with
    | .known => kind = .unknown
    | .collection => kind.isNamed = true
    | .present _ f => f ∈ kind.required
    | .natural _ f => f ≠ .limit := by
  cases kind <;> simp [OperationKind.checks, OperationKind.required, OperationKind.isNamed,
    OperationKind.isCollectionScoped]

theorem WellFormed.passes {op : Operation} (wellFormed : op.WellFormed) :
    ∀ check ∈ op.kind.checks, ¬check.Fails op := by
  intro check member fails
  have needed := checks_of_kind op.kind check member
  cases check with
  | known => exact wellFormed.known fails
  | collection => exact wellFormed.named needed fails
  | present what f =>
    have present := wellFormed.required f needed
    rw [show op.get f = none from fails] at present
    cases present
  | natural what f =>
    obtain ⟨x, held, invalid⟩ := fails
    exact invalid (wellFormed.valid_of_ne needed x held)

theorem WellFormed.request_succeeds {op : Operation} (wellFormed : op.WellFormed)
    (cap : Option Int) : Succeeds (op.request cap) :=
  (op.request_checked cap).succeeds_iff.mpr wellFormed.passes

end Operation

namespace Settings

variable {δ ω : Type}

/-- An execution of a source text ends in one of two ways. Either the text asks for no operation,
and then its error is reported and nothing is sent; or it asks for one, and then exactly one request
is sent and the outcome is the client's reply, the client's error, whatever error that is, or its
being late. The operation is never refused: a refusal among the outcomes is the client's own answer.
-/
theorem run_never_refuses (settings : Settings) (client : Client δ ω) (fresh : Fresh)
    (statement : String) (rowCap : Option Int) :
    ((∃ e, Operation.ofSource fresh statement = .error e ∧
        settings.run client fresh statement rowCap = ⟨none, .error (.statement e.report)⟩) ∨
      ∃ op request, Operation.ofSource fresh statement = .ok op ∧
        (settings.run client fresh statement rowCap).sent = some request ∧
        ((∃ reply, settings.InTime (client request) ∧ (client request).answer = .ok reply ∧
            (settings.run client fresh statement rowCap).outcome =
              .ok ⟨op.kind, statement, request.shape.rows reply⟩) ∨
          (∃ e, settings.InTime (client request) ∧ (client request).answer = .error e ∧
            (settings.run client fresh statement rowCap).outcome = .error e) ∨
          ∃ limit, settings.timeout = some limit ∧ limit < (client request).delay ∧
            (settings.run client fresh statement rowCap).outcome = .error (.timeout limit))) ∧
    ∀ e, e.isRefusal = true → (settings.run client fresh statement rowCap).outcome = .error e →
      settings.ClientFails client (settings.run client fresh statement rowCap) e := by
  cases translated : Operation.ofSource fresh statement with
  | error e =>
    have ended : settings.run client fresh statement rowCap =
        ⟨none, .error (.statement e.report)⟩ := by
      rw [run, translated]
    refine ⟨.inl ⟨e, rfl, ended⟩, fun fault refusal same => ?_⟩
    rw [ended] at same
    cases same
    cases refusal
  | ok op =>
    have executed : settings.run client fresh statement rowCap =
        settings.execute client op statement rowCap := by
      rw [run, translated]
    have wellFormed := Operation.ofSource_wellFormed translated
    obtain ⟨request, made⟩ := wellFormed.request_succeeds (rowCap.or settings.rowCap)
    rw [executed]
    refine ⟨.inr ⟨op, request, rfl, ?_⟩, fun e refusal ended => ?_⟩
    · rw [execute_sent made]
      cases came : settings.await (client request) with
      | ok reply =>
        obtain ⟨inTime, answer⟩ := await_eq_ok_iff.mp came
        exact ⟨rfl, .inl ⟨reply, inTime, answer, rfl⟩⟩
      | error e =>
        rcases await_eq_error_iff.mp came with ⟨inTime, answer⟩ | ⟨limit, deadline, late, rfl⟩
        · exact ⟨rfl, .inr (.inl ⟨e, inTime, answer, rfl⟩)⟩
        · exact ⟨rfl, .inr (.inr ⟨limit, deadline, late, rfl⟩)⟩
    · rcases (settings.outcome_eq_refusal_iff client op statement rowCap refusal).mp ended with
        ⟨fault, first, -⟩ | own
      · obtain ⟨check, member, fails⟩ := Operation.exists_firstFault_iff.mp ⟨fault, first⟩
        exact absurd fails (wellFormed.passes check member)
      · exact own

end Settings

end MongoShell
