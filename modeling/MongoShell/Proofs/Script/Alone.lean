import Mathlib
import MongoShell.CommandLine
import MongoShell.Proofs.Expr.Words
import MongoShell.Proofs.Script.Parts
import MongoShell.Proofs.Statement.Alike

/-! A script means what its statements mean one by one. The text of a statement is cut out of the
script, and read again by itself it is the same statement. -/

namespace MongoShell

open Grammar

namespace Script

/-- The text of a statement is read by itself as the same statement, places apart. -/
def ReadAlone (s : Statement) : Prop :=
  ∃ again : Statement, ofSource s.text = .ok [again] ∧ again.text = s.text ∧
    again.kind.eraseSpans = s.kind.eraseSpans

variable {source : String} {before behind : List Token}

theorem command_readAlone {word name : Token} (command : IsCommand word name)
    (scanned : scanFrom .start source.toList = .ok (before ++ ([word, name] ++ behind))) :
    ReadAlone (.between source.toList word name (.shell (.ofShow name.text
      (String.ofList ((word.span.through name.span).slice source.toList))))) := by
  have inner : behind ≠ [] := by
    rintro rfl
    have scanned : scanFrom .start source.toList = .ok ((before ++ [word]) ++ [name]) := by
      simpa using scanned
    have last := endOfInput_of_scanFrom scanned
    rw [command.2.2] at last
    cases last
  have finish : [word, name].getLast? = some name := rfl
  obtain ⟨moved, final, left, right, alone, kind, same, head, ends, excerpt⟩ :=
    scan_excerpt scanned inner rfl finish
  obtain ⟨word', rest, rfl, wordKind, wordText, rest⟩ := SameWords.cons_right same
  obtain ⟨name', rfl, nameKind, nameText⟩ := rest.single_right
  obtain rfl : word' = left := Option.some.inj head
  obtain rfl : name' = right := Option.some.inj ends
  have command' : IsCommand word' name' :=
    ⟨wordKind.trans command.1, wordText.trans command.2.1, nameKind.trans command.2.2⟩
  refine ⟨_, (ofSource_eq_ok _ _).mpr ⟨[word', name', final], ?_,
    ofTokens_command _ command' kind⟩, ?_, ?_⟩
  · simpa [Statement.between] using alone
  · simp only [Statement.between, String.toList_ofList, excerpt]
  · simp only [Statement.between, String.toList_ofList, excerpt, nameText]

theorem expression_readAlone {own : List Token} {next first last : Token} {e : Expr}
    (scanned : scanFrom .start source.toList = .ok (before ++ (own ++ next :: behind)))
    (whole : Whole own next e.eraseSpans) (head : own.head? = some first)
    (ends : own.getLast? = some last) :
    ReadAlone (.between source.toList first last (.ofExpr e)) := by
  obtain ⟨moved, final, left, right, alone, kind, same, head', ends', excerpt⟩ :=
    scan_excerpt scanned (by simp) head ends
  have whole' : Whole moved final e.eraseSpans := whole.ofWords same (by simp [kind])
  obtain ⟨d, first', last', begins, finishes, alike, done⟩ :=
    ofTokens_whole ((first.span.through last.span).slice source.toList) whole' kind
  obtain rfl : left = first' := Option.some.inj (head'.symm.trans begins)
  obtain rfl : right = last' := Option.some.inj (ends'.symm.trans finishes)
  refine ⟨.between ((first.span.through last.span).slice source.toList) left right (.ofExpr d),
    (ofSource_eq_ok _ _).mpr ⟨moved ++ [final], ?_, ?_⟩, ?_, ?_⟩
  · simpa [Statement.between] using alone
  · simpa only [Statement.between, String.toList_ofList] using done
  · simp only [Statement.between, excerpt]
  · exact StatementKind.ofExpr_congr alike

theorem Stands.readAlone {tokens : List Token} {s : Statement}
    (scanned : scanFrom .start source.toList = .ok tokens)
    (stands : Stands source.toList tokens s) : ReadAlone s := by
  cases stands with
  | command before behind parted command => exact command_readAlone command (parted ▸ scanned)
  | expression before behind parted whole head ends =>
    exact expression_readAlone (parted ▸ scanned) whole head ends

/-- Every statement of a script is read from its text alone, as the same statement places apart. -/
theorem statement_ofSource_text {statements : List Statement}
    (done : ofSource source = .ok statements) {s : Statement} (member : s ∈ statements) :
    ∃ again, Statement.ofSource s.text = .ok again ∧ again.text = s.text ∧
      again.kind.eraseSpans = s.kind.eraseSpans := by
  obtain ⟨tokens, scanned, read⟩ := (ofSource_eq_ok source statements).mp done
  obtain ⟨again, alone, text, kind⟩ := (stands_of_ofTokens read member).readAlone scanned
  exact ⟨again, by rw [Statement.ofSource, alone], text, kind⟩

end Script

/-! The operations of a script -/

open Outcome (Matches)

/-- Operations one by one, where the source of the second list changes from one to the next. -/
def Operation.AlikeEach (f : Fresh) (each : Nat → Fresh) (operations others : List Operation) :
    Prop :=
  ∀ i : Nat, Option.Rel (Operation.Alike f (each i)) operations[i]? others[i]?

/-- A statement that is read from its text alone asks there for the same operation. -/
theorem Operation.ofSource_text_alike {f g : Fresh} {s again : Statement}
    (alone : Statement.ofSource s.text = .ok again) (text : again.text = s.text)
    (kind : again.kind.eraseSpans = s.kind.eraseSpans) :
    Matches (Operation.Alike f g) (s.operation Registry.builtin f)
      (Operation.ofSource g s.text) := by
  rw [Operation.ofSource, alone]
  exact Statement.operation_alike Registry.builtin kind.symm text.symm

/-- Statements of a script, and the texts of them from the `k`-th on. -/
theorem Operation.mapM_alike (f : Fresh) (each : Nat → Fresh) {statements : List Statement}
    (alone : ∀ s ∈ statements, ∀ g,
      Matches (Operation.Alike f g) (s.operation Registry.builtin f) (Operation.ofSource g s.text))
    (k : Nat) :
    Matches (Operation.AlikeEach f fun i => each (k + i))
      (statements.mapM (Statement.operation Registry.builtin f))
      (((statements.map (·.text)).zipIdx k).mapM fun (text, index) =>
        Operation.ofSource (each index) text) := by
  induction statements generalizing k with
  | nil => exact .ok fun i => .none
  | cons s statements ih =>
    rw [List.map_cons, List.zipIdx_cons, List.mapM_cons, List.mapM_cons]
    refine (alone s (.head _) (each k)).bind fun op other held => ?_
    refine (ih (fun s member => alone s (.tail _ member)) (k + 1)).bind fun ops others more => ?_
    refine .ok fun i => ?_
    cases i with
    | zero => exact .some held
    | succ i =>
      have later := more i
      simp only [Nat.add_right_comm k 1 i] at later
      exact later

/-- A script means what its statements mean one by one. Each statement of a script is read from its
text alone, as the same statement places apart; so the operations of the script are those of the
texts in order, or the first failure among them; and a text is one operation if and only if it is
one statement, whose operation it is. Values made up on the way are compared by their constructor.
-/
theorem Script.means_statements_alone {source : String} {statements : List Statement}
    (read : Script.ofSource source = .ok statements) :
    (∀ s ∈ statements, ∃ again, Statement.ofSource s.text = .ok again ∧ again.text = s.text ∧
        again.kind.eraseSpans = s.kind.eraseSpans) ∧
      (∀ f each, Matches (Operation.AlikeEach f each) (Operation.ofScript f source)
        (CommandLine.operationsOf each (statements.map (·.text)))) ∧
      (∀ s, statements = [s] → ∀ f g, Matches (Operation.Alike f g) (Operation.ofSource f source)
        (Operation.ofSource g s.text)) ∧
      (statements.length ≠ 1 → ∀ f, ∃ e, Operation.ofSource f source = .error (.malformed e)) := by
  have alone (f g : Fresh) : ∀ s ∈ statements, Matches (Operation.Alike f g)
      (s.operation Registry.builtin f) (Operation.ofSource g s.text) := by
    intro s member
    obtain ⟨again, one, text, kind⟩ := Script.statement_ofSource_text read member
    exact Operation.ofSource_text_alike one text kind
  refine ⟨fun s member => Script.statement_ofSource_text read member, fun f each => ?_, ?_, ?_⟩
  · have all := Operation.mapM_alike f each (fun s member g => alone f g s member) 0
    simp only [Nat.zero_add] at all
    rw [Operation.ofScript, read]
    exact all
  · rintro s rfl f g
    rw [Operation.ofSource, Statement.ofSource, read]
    exact alone f g s (.head _)
  · intro several f
    rw [Operation.ofSource, Statement.ofSource, read]
    match statements with
    | [] => exact ⟨_, rfl⟩
    | [_] => exact absurd rfl several
    | _ :: _ :: _ => exact ⟨_, rfl⟩

/-- A command over two lines, and an expression with comments behind it and in it, parentheses
around an argument and a value that is made up. -/
def twoStatements : String :=
  "show\ndbs // all\n db[\"a b\"].find(\x7b_id: ObjectId()\x7d) /* ; */ .limit((2))"

theorem twoStatements_mean_alone :
    ∃ statements, Script.ofSource twoStatements = .ok statements ∧
      statements.map (·.text) =
        ["show\ndbs", "db[\"a b\"].find(\x7b_id: ObjectId()\x7d) /* ; */ .limit((2))"] ∧
      ∀ f each, Matches (Operation.AlikeEach f each) (Operation.ofScript f twoStatements)
        (CommandLine.operationsOf each (statements.map (·.text))) := by
  have texts : (Script.ofSource twoStatements).map (List.map (·.text)) =
      .ok ["show\ndbs", "db[\"a b\"].find(\x7b_id: ObjectId()\x7d) /* ; */ .limit((2))"] := by cbv
  obtain ⟨statements, read, parts⟩ := (Outcome.map_eq_ok _ _ _).mp texts
  obtain ⟨-, operations, -⟩ := Script.means_statements_alone read
  exact ⟨statements, read, parts, operations⟩

end MongoShell
