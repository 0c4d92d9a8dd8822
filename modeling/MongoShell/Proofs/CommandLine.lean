import MongoShell.CommandLine
import MongoShell.Proofs.Json
import MongoShell.Proofs.Outcome

/-! The command line writes all or nothing: a line for each operation if every statement asks for
one, and nothing but a report of the error if some statement does not. -/

namespace MongoShell.CommandLine

open Outcome

/-- The operations that an invocation asks for, in order: those of the statements that it names,
each a text of its own, or those of the script in the input if it names none. -/
inductive Asks (fresh : Nat → Fresh) (input : String) : List String → List Operation → Prop
  | script {statements : List Statement} {operations : List Operation}
      (read : Script.ofSource input = .ok statements)
      (each : List.Forall₂
        (fun statement op => statement.operation Registry.builtin (fresh 0) = .ok op)
        statements operations) :
      Asks fresh input [] operations
  | arguments {first : String} {rest : List String} {operations : List Operation}
      (each : List.Forall₂ (fun asked op => Operation.ofSource (fresh asked.2) asked.1 = .ok op)
        (first :: rest).zipIdx operations) :
      Asks fresh input (first :: rest) operations

/-- A statement of an invocation asks for no operation, or its script cannot be read. -/
inductive Fails (fresh : Nat → Fresh) (input : String) : List String → Prop
  | unreadable {e : SyntaxError} (read : Script.ofSource input = .error e) : Fails fresh input []
  | statement {statements : List Statement} {statement : Statement} {e : StatementError}
      (read : Script.ofSource input = .ok statements) (member : statement ∈ statements)
      (fails : statement.operation Registry.builtin (fresh 0) = .error e) : Fails fresh input []
  | argument {first text : String} {rest : List String} {index : Nat} {e : StatementError}
      (member : (text, index) ∈ (first :: rest).zipIdx)
      (fails : Operation.ofSource (fresh index) text = .error e) :
      Fails fresh input (first :: rest)

/-- What comes of the statements of an invocation. -/
def gathered (fresh : Nat → Fresh) (input : String) :
    List String → Except StatementError (List Operation)
  | [] => Operation.ofScript (fresh 0) input
  | statements => operationsOf fresh statements

variable {fresh : Nat → Fresh} {input : String} {statements : List String}

theorem run_operations : run fresh input (.operations false statements) =
    report false (gathered fresh input statements) := by
  cases statements <;> rfl

theorem gathered_of_asks {operations : List Operation}
    (asks : Asks fresh input statements operations) :
    gathered fresh input statements = .ok operations := by
  cases asks with
  | script read each =>
    rw [gathered, Operation.ofScript, read]
    exact mapM_eq_ok.mpr each
  | arguments each => exact mapM_eq_ok.mpr each

theorem gathered_of_fails (fails : Fails fresh input statements) :
    ∃ e, gathered fresh input statements = .error e := by
  cases fails with
  | unreadable read =>
    rw [gathered, Operation.ofScript, read]
    exact ⟨_, rfl⟩
  | statement read member fails =>
    rw [gathered, Operation.ofScript, read]
    exact exists_mapM_eq_error.mpr ⟨_, member, _, fails⟩
  | argument member fails => exact exists_mapM_eq_error.mpr ⟨_, member, _, fails⟩

/-- Every statement asks for an operation, or some statement does not. -/
theorem asks_or_fails (fresh : Nat → Fresh) (input : String) (statements : List String) :
    (∃ operations, Asks fresh input statements operations) ∨ Fails fresh input statements := by
  cases statements with
  | nil =>
    cases read : Script.ofSource input with
    | error e => exact .inr (.unreadable read)
    | ok script =>
      cases asked : script.mapM (Statement.operation Registry.builtin (fresh 0)) with
      | ok operations => exact .inl ⟨operations, .script read (mapM_eq_ok.mp asked)⟩
      | error e =>
        obtain ⟨statement, member, fault, fails⟩ := exists_mapM_eq_error.mp ⟨e, asked⟩
        exact .inr (.statement read member fails)
  | cons first rest =>
    cases asked : operationsOf fresh (first :: rest) with
    | ok operations => exact .inl ⟨operations, .arguments (mapM_eq_ok.mp asked)⟩
    | error e =>
      obtain ⟨⟨text, index⟩, member, fault, fails⟩ := exists_mapM_eq_error.mp ⟨e, asked⟩
      exact .inr (.argument member fails)

/-- Texts without a break, each with a break behind it, are the lines of the whole. -/
theorem splitOn_lines {lines : List (List Char)} (unbroken : ∀ line ∈ lines, '\n' ∉ line) :
    (lines.flatMap fun line => line ++ ['\n']).splitOn '\n' = lines ++ [[]] := by
  induction lines with
  | nil => rfl
  | cons line lines ih =>
    obtain ⟨first, others⟩ := List.forall_mem_cons.mp unbroken
    rw [List.flatMap_cons, List.append_assoc, List.singleton_append,
      List.splitOn_append_cons_self_of_not_mem first, ih others]
    rfl

/-- The command line writes all or nothing. If every statement asks for an operation then the lines
of the output are the compact texts of the operations in order, each ended by a line feed, and the
program ends well; if some statement fails then nothing is written and the program fails. One of the
two is always the case, and no operation whatsoever has a control character in its text, let alone
a break. -/
theorem run_all_or_nothing (fresh : Nat → Fresh) (input : String) (statements : List String) :
    (∀ operations, Asks fresh input statements operations →
      (run fresh input (.operations false statements)).code = 0 ∧
      (run fresh input (.operations false statements)).stdout.toList.splitOn '\n' =
        operations.map (fun op => op.toJson.compact) ++ [[]]) ∧
    (Fails fresh input statements →
      (run fresh input (.operations false statements)).code = 1 ∧
      (run fresh input (.operations false statements)).stdout = "") ∧
    ((∃ operations, Asks fresh input statements operations) ∨ Fails fresh input statements) ∧
    ∀ op : Operation, Inline op.toJson.compact := by
  rw [run_operations]
  refine ⟨fun operations asks => ?_, fun fails => ?_, asks_or_fails fresh input statements,
    Operation.toJson_inline⟩
  · have unbroken : ∀ line ∈ operations.map (fun op => op.toJson.compact), '\n' ∉ line := by
      intro line member
      obtain ⟨op, -, rfl⟩ := List.mem_map.mp member
      exact op.toJson_inline.not_mem
    have lines := splitOn_lines unbroken
    rw [List.flatMap_map] at lines
    rw [gathered_of_asks asks, report, String.toList_ofList]
    exact ⟨rfl, lines⟩
  · obtain ⟨e, failed⟩ := gathered_of_fails fails
    rw [failed]
    exact ⟨rfl, rfl⟩

end MongoShell.CommandLine
