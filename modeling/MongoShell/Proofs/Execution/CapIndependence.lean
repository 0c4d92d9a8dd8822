import MongoShell.Proofs.Execution.Validation

/-! Executions of one operation under different row caps. A cap is the limit's affair alone: it
shows in the limit of requests that find or count, and nowhere else. What comes of an execution
depends on it only through the request that is sent. -/

namespace MongoShell

open Outcome

/-- The request with another limit, of requests that find or count under a cap. -/
def Request.withLimit (limit : Option Int) : Request → Request
  | find request => find { request with limit }
  | countDocuments request => countDocuments { request with limit }
  | request => request

namespace Operation

variable (op : Operation)

theorem findRequest_limit (limit other : Option Int) :
    op.findRequest other =
      (op.findRequest limit).map fun request => { request with limit := other } := by
  unfold findRequest
  cases op.requireCollection with
  | error fault => rfl
  | ok collection => cases op.maxTime <;> rfl

theorem countRequest_limit (limit other : Option Int) :
    op.countRequest other =
      (op.countRequest limit).map fun request => { request with limit := other } := by
  unfold countRequest
  cases op.requireCollection with
  | error fault => rfl
  | ok collection => cases op.maxTime <;> rfl

/-- Operations of all other kinds make the same request under any caps, `findOne` among them, which
has a limit of its own. -/
theorem request_uncapped (notFind : op.kind ≠ .find) (notCount : op.kind ≠ .countDocuments)
    (cap other : Option Int) : op.request other = op.request cap := by
  cases kind : op.kind <;> simp only [request, kind]
  case find => exact absurd kind notFind
  case countDocuments => exact absurd kind notCount

theorem request_capped (capped : op.kind = .find ∨ op.kind = .countDocuments)
    (cap other : Option Int) :
    op.request other =
      (op.request cap).map (Request.withLimit (effectiveLimit op.limit other)) := by
  rcases capped with kind | kind <;> simp only [request, kind]
  · rw [op.findRequest_limit (effectiveLimit op.limit cap)]
    cases op.findRequest (effectiveLimit op.limit cap) <;> rfl
  · rw [op.countRequest_limit (effectiveLimit op.limit cap)]
    cases op.countRequest (effectiveLimit op.limit cap) <;> rfl

end Operation

namespace Settings

variable {δ ω : Type} (settings : Settings) (client : Client δ ω) (op : Operation)
  (statement : String)

/-- The settings with another row cap, or with none. -/
def withRowCap (cap : Option Int) : Settings := { settings with rowCap := cap }

/-- Caps under which the same request is made, or is refused for the same reason, are as good as one
another. -/
theorem execute_congr {configured own configured' own' : Option Int}
    (same : op.request (own'.or configured') = op.request (own.or configured)) :
    (settings.withRowCap configured').execute client op statement own' =
      (settings.withRowCap configured).execute client op statement own := by
  simp only [execute, withRowCap, same]
  rfl

theorem sent_execute (configured own : Option Int) :
    ((settings.withRowCap configured).execute client op statement own).sent =
      (op.request (own.or configured)).toOption := by
  cases made : op.request (own.or configured) with
  | error fault =>
    rw [(settings.withRowCap configured).execute_refused made]
    rfl
  | ok request =>
    rw [(settings.withRowCap configured).execute_sent made]
    rfl

/-- Where the same is sent, the same comes of it. -/
theorem execute_eq_of_sent_eq (capped : op.kind = .find ∨ op.kind = .countDocuments)
    {configured own configured' own' : Option Int}
    (same : ((settings.withRowCap configured').execute client op statement own').sent =
      ((settings.withRowCap configured).execute client op statement own).sent) :
    (settings.withRowCap configured').execute client op statement own' =
      (settings.withRowCap configured).execute client op statement own := by
  have moved := op.request_capped capped (own.or configured) (own'.or configured')
  rw [sent_execute, sent_execute] at same
  apply execute_congr
  cases made : op.request (own.or configured) with
  | error fault =>
    rw [moved, made]
    rfl
  | ok request =>
    rw [made] at moved same
    rw [moved] at same ⊢
    exact congrArg Except.ok (Option.some.inj same)

/-- The row cap reaches nothing but the limit of `find` and `countDocuments`. Executions of any
other operation are the same under any caps, sent request and outcome; those of `find` and
`countDocuments` differ at most in the limit that is sent, and where that is the same they do not
differ. A cap for one execution takes the place of the cap in the settings, whatever that is. -/
theorem cap_reaches_limit_only (configured own configured' own' : Option Int) :
    (op.kind ≠ .find ∧ op.kind ≠ .countDocuments →
      (settings.withRowCap configured').execute client op statement own' =
        (settings.withRowCap configured).execute client op statement own) ∧
    (op.kind = .find ∨ op.kind = .countDocuments →
      ((settings.withRowCap configured').execute client op statement own').sent =
        ((settings.withRowCap configured).execute client op statement own).sent.map
          (Request.withLimit (effectiveLimit op.limit (own'.or configured'))) ∧
      (((settings.withRowCap configured').execute client op statement own').sent =
          ((settings.withRowCap configured).execute client op statement own).sent →
        (settings.withRowCap configured').execute client op statement own' =
          (settings.withRowCap configured).execute client op statement own)) ∧
    ∀ cap, (settings.withRowCap configured).execute client op statement (some cap) =
      (settings.withRowCap (some cap)).execute client op statement none := by
  refine ⟨fun ⟨notFind, notCount⟩ => ?_, fun capped => ⟨?_, ?_⟩, fun cap => ?_⟩
  · exact execute_congr settings client op statement (op.request_uncapped notFind notCount _ _)
  · rw [sent_execute, sent_execute, op.request_capped capped (own.or configured)]
    cases op.request (own.or configured) <;> rfl
  · exact execute_eq_of_sent_eq settings client op statement capped
  · exact execute_congr settings client op statement rfl

end Settings

end MongoShell
