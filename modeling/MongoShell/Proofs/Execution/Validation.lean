import MongoShell.Execution
import MongoShell.Proofs.Request.Checks

/-! Executions of any operations, also of those that no statement asks for. An operation is checked
before anything is sent, and if a check fails then nothing is sent; otherwise one request is sent,
and what comes of it depends on the answer to it and on the deadline. The client may answer by any
error, a refusal among them, so a refusal tells that a check has failed only where nothing was sent.
-/

namespace MongoShell

open Outcome

/-- Whether an error says that there is no operation, or none that a request could be made of. -/
def ExecutionError.isRefusal : ExecutionError → Bool
  | unknownOperation | invalidOperation _ => true
  | timeout _ | client _ | statement _ => false

theorem OperationFault.isRefusal_error (fault : OperationFault) : fault.error.isRefusal = true := by
  cases fault <;> rfl

theorem OperationFault.error_eq_unknownOperation_iff {fault : OperationFault} :
    fault.error = .unknownOperation ↔ fault = .noOperation := by
  cases fault <;> simp [error]

namespace Settings

/-! One response -/

section

variable {α : Type}

/-- A response is in time unless there is a deadline that has passed before it. -/
def InTime (settings : Settings) (response : Response α) : Prop :=
  ∀ limit, settings.timeout = some limit → response.delay ≤ limit

variable {settings : Settings} {response : Response α}

theorem await_inTime (inTime : settings.InTime response) :
    settings.await response = response.answer := by
  unfold await
  cases deadline : settings.timeout with
  | none => rfl
  | some limit => exact if_neg (Nat.not_lt.mpr (inTime limit deadline))

theorem await_late {limit : Nat} (deadline : settings.timeout = some limit)
    (late : limit < response.delay) : settings.await response = .error (.timeout limit) := by
  rw [await, deadline]
  exact if_pos late

/-- What comes of a response: what the client answers if it is in time, and nothing but its being
late if not. -/
theorem await_inTime_or_late (settings : Settings) (response : Response α) :
    (settings.InTime response ∧ settings.await response = response.answer) ∨
    ∃ limit, settings.timeout = some limit ∧ limit < response.delay ∧
      settings.await response = .error (.timeout limit) := by
  by_cases inTime : settings.InTime response
  · exact .inl ⟨inTime, await_inTime inTime⟩
  · obtain ⟨limit, deadline, late⟩ :
        ∃ limit, settings.timeout = some limit ∧ limit < response.delay := by
      simpa [InTime] using inTime
    exact .inr ⟨limit, deadline, late, await_late deadline late⟩

theorem await_eq_ok_iff {reply : α} : settings.await response = .ok reply ↔
    settings.InTime response ∧ response.answer = .ok reply := by
  constructor
  · intro ended
    rcases settings.await_inTime_or_late response with ⟨inTime, came⟩ | ⟨limit, -, -, late⟩
    · exact ⟨inTime, came.symm.trans ended⟩
    · rw [late] at ended
      cases ended
  · rintro ⟨inTime, answer⟩
    rw [await_inTime inTime, answer]

/-- An error is the client's own, or that of a deadline that has passed. -/
theorem await_eq_error_iff {e : ExecutionError} : settings.await response = .error e ↔
    (settings.InTime response ∧ response.answer = .error e) ∨
    ∃ limit, settings.timeout = some limit ∧ limit < response.delay ∧ .timeout limit = e := by
  constructor
  · intro ended
    rcases settings.await_inTime_or_late response with
      ⟨inTime, came⟩ | ⟨limit, deadline, late, came⟩
    · exact .inl ⟨inTime, came.symm.trans ended⟩
    · exact .inr ⟨limit, deadline, late, Except.error.inj (came.symm.trans ended)⟩
  · rintro (⟨inTime, answer⟩ | ⟨limit, deadline, late, rfl⟩)
    · rw [await_inTime inTime, answer]
    · exact await_late deadline late

theorem await_eq_timeout_iff {limit : Nat} : settings.await response = .error (.timeout limit) ↔
    (settings.timeout = some limit ∧ limit < response.delay) ∨
    settings.InTime response ∧ response.answer = .error (.timeout limit) := by
  rw [await_eq_error_iff, or_comm]
  simp

/-- A response is taken for a refusal only where the client itself answers by one. -/
theorem await_eq_refusal_iff {e : ExecutionError} (refusal : e.isRefusal = true) :
    settings.await response = .error e ↔
      settings.InTime response ∧ response.answer = .error e := by
  rw [await_eq_error_iff, or_iff_left]
  rintro ⟨limit, -, -, rfl⟩
  cases refusal

end

/-! One execution -/

variable {δ ω : Type}

/-- The client answers the request of an execution by an error, and in time. -/
def ClientFails (settings : Settings) (client : Client δ ω) (execution : Execution δ ω)
    (e : ExecutionError) : Prop :=
  ∃ request, execution.sent = some request ∧ settings.InTime (client request) ∧
    (client request).answer = .error e

section

variable {settings : Settings} {op : Operation} {rowCap : Option Int}

theorem execute_refused {fault : OperationFault}
    (refused : op.request (rowCap.or settings.rowCap) = .error fault) (client : Client δ ω)
    (statement : String) :
    settings.execute client op statement rowCap = ⟨none, .error fault.error⟩ := by
  simp only [execute, refused]

theorem execute_sent {request : Request}
    (made : op.request (rowCap.or settings.rowCap) = .ok request) (client : Client δ ω)
    (statement : String) :
    settings.execute client op statement rowCap = ⟨some request,
      (settings.await (client request)).map fun reply =>
        ⟨op.kind, statement, request.shape.rows reply⟩⟩ := by
  simp only [execute, made]

end

variable (settings : Settings) (client : Client δ ω) (op : Operation) (statement : String)
  (rowCap : Option Int)

/-- Without a request, an execution is refused for the first check of its operation that fails. -/
theorem execute_eq_refused_iff (e : ExecutionError) :
    settings.execute client op statement rowCap = ⟨none, .error e⟩ ↔
      ∃ fault, op.FirstFault op.kind.checks fault ∧ fault.error = e := by
  have checked := op.request_checked (rowCap.or settings.rowCap)
  simp only [← checked.eq_error_iff]
  cases made : op.request (rowCap.or settings.rowCap) with
  | error fault => simp [execute_refused made]
  | ok request => simp [execute_sent made]

/-- With one, a refusal that it ends with is the client's. -/
theorem outcome_eq_refusal_iff {e : ExecutionError} (refusal : e.isRefusal = true) :
    (settings.execute client op statement rowCap).outcome = .error e ↔
      (∃ fault, op.FirstFault op.kind.checks fault ∧ fault.error = e) ∨
      settings.ClientFails client (settings.execute client op statement rowCap) e := by
  rw [← settings.execute_eq_refused_iff client op statement rowCap]
  cases made : op.request (rowCap.or settings.rowCap) with
  | error fault => simp [execute_refused made, ClientFails]
  | ok request =>
    rw [execute_sent made, map_eq_error, await_eq_refusal_iff refusal]
    simp [ClientFails]

/-- Operations are validated before any effect. An execution is refused with nothing sent exactly if
a check of the kind of its operation fails, as unknown exactly if there is no operation; the reason
is that of the first check that fails, and it is the same and nothing is sent under any settings and
cap and for any client. An execution ends with a refusal in no other case than where the client
itself answers by that refusal. If no check fails then exactly one request is sent, and no other
answer of the client matters: in time its reply or its error, whatever error that is, is what the
execution ends with, and the execution times out exactly if the deadline passes before the response
or the client says in time that it did. -/
theorem execute_validates_first :
    ((∃ e, e.isRefusal = true ∧
        settings.execute client op statement rowCap = ⟨none, .error e⟩) ↔
      ∃ check ∈ op.kind.checks, check.Fails op) ∧
    (settings.execute client op statement rowCap = ⟨none, .error .unknownOperation⟩ ↔
      op.kind = .unknown) ∧
    (∀ fault, op.FirstFault op.kind.checks fault →
      ∀ (others : Settings) (other : Client δ ω) (cap : Option Int),
        others.execute other op statement cap = ⟨none, .error fault.error⟩) ∧
    (∀ e, e.isRefusal = true →
      ((settings.execute client op statement rowCap).outcome = .error e ↔
        (∃ fault, op.FirstFault op.kind.checks fault ∧ fault.error = e) ∨
        settings.ClientFails client (settings.execute client op statement rowCap) e)) ∧
    ((∀ check ∈ op.kind.checks, ¬check.Fails op) →
      ∃ request, (settings.execute client op statement rowCap).sent = some request ∧
        (∀ other : Client δ ω, other request = client request →
          settings.execute other op statement rowCap =
            settings.execute client op statement rowCap) ∧
        (∀ limit,
          (settings.execute client op statement rowCap).outcome = .error (.timeout limit) ↔
            (settings.timeout = some limit ∧ limit < (client request).delay) ∨
            settings.InTime (client request) ∧
              (client request).answer = .error (.timeout limit)) ∧
        (settings.InTime (client request) →
          (∀ e, (client request).answer = .error e →
            (settings.execute client op statement rowCap).outcome = .error e) ∧
          ∀ reply, (client request).answer = .ok reply →
            (settings.execute client op statement rowCap).outcome =
              .ok ⟨op.kind, statement, request.shape.rows reply⟩)) := by
  refine ⟨?_, ?_, fun fault first others other cap => ?_,
    fun e refusal => settings.outcome_eq_refusal_iff client op statement rowCap refusal,
    fun passing => ?_⟩
  · rw [← Operation.exists_firstFault_iff]
    constructor
    · rintro ⟨e, -, refused⟩
      obtain ⟨fault, first, -⟩ :=
        (settings.execute_eq_refused_iff client op statement rowCap e).mp refused
      exact ⟨fault, first⟩
    · rintro ⟨fault, first⟩
      exact ⟨fault.error, fault.isRefusal_error,
        (settings.execute_eq_refused_iff client op statement rowCap _).mpr ⟨fault, first, rfl⟩⟩
  · rw [execute_eq_refused_iff]
    simp only [OperationFault.error_eq_unknownOperation_iff, exists_eq_right,
      Operation.firstFault_noOperation_iff]
  · exact (others.execute_eq_refused_iff other op statement cap _).mpr ⟨fault, first, rfl⟩
  · have checked := op.request_checked (rowCap.or settings.rowCap)
    obtain ⟨request, made⟩ := checked.succeeds_iff.mpr passing
    refine ⟨request, ?_, fun other same => ?_, fun limit => ?_, fun inTime => ⟨?_, ?_⟩⟩
    · rw [execute_sent made]
    · rw [execute_sent made, execute_sent made, same]
    · rw [execute_sent made, map_eq_error, await_eq_timeout_iff]
    · intro e answer
      rw [execute_sent made, await_inTime inTime, answer]
      rfl
    · intro reply answer
      rw [execute_sent made, await_inTime inTime, answer]
      rfl

/-- A document that is missing is reported before a collection that has no name. -/
example (client : Client δ ω) : Settings.execute {} client { kind := .insertOne } "" none =
    ⟨none, .error (.invalidOperation "insertOne requires a document")⟩ := rfl

end Settings

end MongoShell
