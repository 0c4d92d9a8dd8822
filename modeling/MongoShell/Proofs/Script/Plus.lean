import Mathlib
import MongoShell.Proofs.Statement.Numbered
import MongoShell.Proofs.Token.LongestMatch
import MongoShell.Proofs.Token.Plus

/-! A plus sign in front of a number changes nothing. Where a value may start, the sign and the
number behind it are read as the number alone is, but for two things. Behind the sign nothing goes
on with the number, which does not matter to a number that stands alone; and the name of infinity
becomes a number, which only matters to the constructors that refuse the name. -/

namespace MongoShell

namespace Script

/-- A piece of a text is a number or the name of infinity, and a value by itself: it stands where
the reader takes a value, and what follows does not go on with it. -/
structure Lone (front piece rest : List Char) : Prop where
  numeral : Starts piece rest (.token .number) ∨
    piece = "Infinity".toList ∧ Starts piece rest (.token .identifier)
  expected : ∃ tokens statements first last mode frames,
    Stretch .start front (piece ++ rest) tokens ∧ (mode = .value ∨ mode = .item) ∧
      tokens.foldlM (State.step (front ++ (piece ++ rest))) .initial =
        .ok ⟨statements, .inside first last mode frames⟩
  alone : ∀ place next others, scanFrom place rest = .ok (next :: others) →
    next.kind ∉ [.dot, .leftBracket, .leftParen]

/-- The place of a piece behind the front of a text. -/
def placeOf (front piece : List Char) : Span :=
  .between (Position.start.after front) ((Position.start.after front).after piece)

/-- A value in front of any token but those three is alone. -/
theorem kind_of_scanFrom {piece rest : List Char} {kind : TokenKind}
    (starts : Starts piece rest (.token kind)) (closes : kind ∉ [.dot, .leftBracket, .leftParen]) :
    ∀ place next others, scanFrom place (piece ++ rest) = .ok (next :: others) →
      next.kind ∉ [.dot, .leftBracket, .leftParen] := by
  intro place next others scanned
  rw [scanFrom_token starts] at scanned
  obtain ⟨behind, -, same⟩ := (Outcome.map_eq_ok _ _ _).mp scanned
  obtain ⟨rfl, -⟩ := List.cons.inj same
  exact closes

/-! The tokens of the two texts -/

/-- Behind the first tokens the second text has a sign in front of the number or the name, and the
same tokens otherwise. -/
inductive SignBefore (tokens : List Token) (t : Token) : List Token → List Token → Prop
  | intro {sign u : Token} {behind behind' : List Token} (plus : sign.kind = .plus)
      (beside : t.Beside u) (pairs : List.Forall₂ Token.Beside behind behind') :
      SignBefore tokens t (tokens ++ t :: behind) (tokens ++ sign :: u :: behind')

section

variable {front piece rest : List Char} {tokens : List Token} {kind : TokenKind}
  (starts : Starts piece rest (.token kind)) (stretch : Stretch .start front (piece ++ rest) tokens)

include starts stretch

theorem scanFrom_lone : scanFrom .start (front ++ (piece ++ rest)) =
    (scanFrom ((Position.start.after front).after piece) rest).map fun others =>
      tokens ++ ⟨kind, String.ofList piece, placeOf front piece⟩ :: others := by
  rw [stretch.scanFrom_append, scanFrom_token starts]
  cases scanFrom ((Position.start.after front).after piece) rest <;> rfl

theorem scanFrom_signed {place : Position} (sign : place = Position.start.after front) :
    scanFrom .start (front ++ '+' :: (piece ++ rest)) =
      (scanFrom ((place.after ['+']).after piece) rest).map fun others =>
        tokens ++ ⟨.plus, String.ofList ['+'], .between place (place.after ['+'])⟩ ::
          ⟨kind, String.ofList piece,
            .between (place.after ['+']) ((place.after ['+']).after piece)⟩ :: others := by
  subst sign
  have upTo : UpToPlus (piece ++ rest) ('+' :: (piece ++ rest)) := by
    obtain ⟨c, text, rfl, read⟩ := starts
    refine .plus ?_ (text ++ rest) _
    rintro rfl
    cases read
  have sign : Starts ['+'] (piece ++ rest) (.token .plus) := ⟨'+', [], rfl, rfl⟩
  have behind := scanFrom_token sign (Position.start.after front)
  rw [List.singleton_append] at behind
  rw [(stretch.upToPlus upTo).scanFrom_append, behind, scanFrom_token starts]
  cases scanFrom (((Position.start.after front).after ['+']).after piece) rest <;> rfl

/-- Both texts are cut into tokens, which are the same but for the sign, or both are not. -/
theorem scanFrom_signBefore :
    Option.Rel (SignBefore tokens ⟨kind, String.ofList piece, placeOf front piece⟩)
      (scanFrom .start (front ++ (piece ++ rest))).toOption
      (scanFrom .start (front ++ '+' :: (piece ++ rest))).toOption := by
  rw [scanFrom_lone starts stretch, scanFrom_signed starts stretch rfl, Outcome.toOption_map,
    Outcome.toOption_map]
  have sign : ((Position.start.after front).after ['+']).line = (Position.start.after front).line :=
    Position.line_after _ _
  have line : (((Position.start.after front).after ['+']).after piece).line =
      ((Position.start.after front).after piece).line := by
    rw [Position.line_after _ piece, sign, Position.line_after _ piece]
  refine Outcome.rel_map (scanFrom_beside_rel rest line) fun behind behind' pairs => ?_
  exact .intro rfl ⟨rfl, sign⟩ pairs

/-- The first token behind the number or the name is the first one that is scanned there. -/
theorem exists_next {behind : List Token} (scanned : scanFrom .start (front ++ (piece ++ rest)) =
      .ok (tokens ++ ⟨kind, String.ofList piece, placeOf front piece⟩ :: behind)) :
    ∃ next others, behind = next :: others ∧
      scanFrom ((Position.start.after front).after piece) rest = .ok (next :: others) := by
  rw [scanFrom_lone starts stretch] at scanned
  obtain ⟨others, done, same⟩ := (Outcome.map_eq_ok _ _ _).mp scanned
  obtain rfl := (List.cons.inj (List.append_cancel_left same)).2
  obtain ⟨own, rfl, -⟩ := stretch_of_scanFrom done
  cases own with
  | nil => exact ⟨_, _, rfl, done⟩
  | cons next own => exact ⟨_, _, rfl, done⟩

end

/-- No other token of a text stands where one does. -/
theorem span_ne_of_scanFrom {text : List Char} {before behind : List Token} {t : Token}
    (scanned : scanFrom .start text = .ok (before ++ t :: behind)) (kind : t.kind ≠ .endOfInput) :
    (∀ u ∈ before, u.span ≠ t.span) ∧ ∀ u ∈ behind, u.span ≠ t.span := by
  have placed := (laidOut_of_scanFrom scanned).wellPlaced
  have some : t.span.start < t.span.stop := (placed.lexemes t (by simp) kind).lt
  obtain ⟨-, others, earlier⟩ := List.pairwise_append.mp placed.ordered
  refine ⟨fun u member same => ?_, fun u member same => ?_⟩
  · have ordered := earlier u member t (.head _)
    rw [same] at ordered
    omega
  · have ordered := (List.pairwise_cons.mp others).1 u member
    rw [same] at ordered
    omega

/-! Scripts side by side -/

/-- Scripts whose tokens stand side by side go abreast. -/
theorem paired_of_beside (source other : List Char) :
    Paired False source other Token.Beside Statement.AsksAlike where
  word beside := beside.1
  breaks first second apart := by rwa [first.2, second.2]
  joins _ _ _ _ _ first second same := by rwa [first.2, second.2]
  command _ names := Statement.AsksAlike.command (Abreast.text_eq names.1)
  expression _ _ same := .same (StatementKind.ofExpr_congr same)

section Runs

variable {source other : List Char} {statements : List Statement} {first last t u : Token}
  {mode : Mode} {frames : List Frame}

theorem foldlM_beside {state state' : State} {tokens others : List Token}
    (states : state.Alike Token.Beside Statement.AsksAlike [] state')
    (pairs : List.Forall₂ Token.Beside tokens others) :
    Option.Rel (State.Alike Token.Beside Statement.AsksAlike [])
      (tokens.foldlM (State.step source) state).toOption
      (others.foldlM (State.step other) state').toOption := by
  have paired := paired_of_beside source other
  cases done : tokens.foldlM (State.step source) state with
  | ok last =>
    obtain ⟨last', done', alike⟩ := State.foldlM_alike paired states pairs done
    rw [done']
    exact .some alike
  | error e =>
    obtain ⟨t, u, fault, -, -, failed⟩ := State.foldlM_fails paired not_false states pairs done
    rw [failed]
    exact .none

/-- A number behind a sign is read where the other script has the number. -/
theorem foldlM_sign {state' : State} {sign : Token}
    (states : State.Alike Token.Beside Statement.AsksAlike []
      ⟨statements, .inside first last mode frames⟩ state')
    (expects : mode = .value ∨ mode = .item) (plus : sign.kind = .plus)
    (unsigned : Grammar.Unsigned u) (beside : t.Beside u) :
    ∃ next, [sign, u].foldlM (State.step other) state' = .ok next ∧
      State.Alike Token.Beside Statement.AsksAlike []
        ⟨statements, .inside first t (.complete (.number t.span t.text)) frames⟩ next := by
  obtain ⟨statements', stage'⟩ := state'
  obtain ⟨same, stages⟩ := states
  cases stages with
  | @inside _ first' _ last' _ mode' _ frames' firsts lasts modes surround =>
    have expects' : mode' = .value ∨ mode' = .item := by
      rcases expects with rfl | rfl
      · cases modes
        exact .inl rfl
      · cases modes
        exact .inr rfl
    have run := (unsigned.read (.inl plus) frames').expected expects' (by simp)
    refine ⟨_, foldlM_inside other run statements' first' last', same, ?_⟩
    refine .inside firsts beside (.complete ?_) surround
    simp [Expr.eraseSpans, plus, Abreast.text_eq beside.1]

/-- Behind a value that nothing goes on with, it does not matter that something could. -/
theorem foldlM_operand {next : Token} {others : List Token} {e : Expr}
    (alone : next.kind ∉ [.dot, .leftBracket, .leftParen]) :
    (next :: others).foldlM (State.step source)
        ⟨statements, .inside first last (.operand e) frames⟩ =
      (next :: others).foldlM (State.step source)
        ⟨statements, .inside first last (.complete e) frames⟩ := by
  have same : (Mode.operand e).step frames next = (Mode.complete e).step frames next :=
    Mode.HoldsOperand.operand.delivers frames next alone
  have first : State.step source ⟨statements, .inside first last (.operand e) frames⟩ next =
      State.step source ⟨statements, .inside first last (.complete e) frames⟩ next := by
    simp only [State.step, State.continueExpression, same]
    cases (Mode.complete e).step frames next with
    | error e => rfl
    | ok progress => cases progress <;> rfl
  rw [List.foldlM_cons, List.foldlM_cons, first]

/-- A number alone. -/
theorem foldlM_number (expects : mode = .value ∨ mode = .item) (kind : t.kind = .number) :
    [t].foldlM (State.step source) ⟨statements, .inside first last mode frames⟩ =
      .ok ⟨statements, .inside first t (.operand (.number t.span t.text)) frames⟩ := by
  have one : Mode.value.step frames t =
      .ok (.reading (.operand (.number t.span t.text)) frames) := by
    simp [Mode.step, Mode.start, Mode.startPrimary, kind, Except.map]
  exact foldlM_inside source ((Mode.Reaches.single one).expected expects (by simp)) statements
    first last

/-- The name of infinity alone. -/
theorem foldlM_infinity (expects : mode = .value ∨ mode = .item) (kind : t.kind = .identifier)
    (text : t.text = "Infinity") :
    [t].foldlM (State.step source) ⟨statements, .inside first last mode frames⟩ =
      .ok ⟨statements, .inside first t (.operand (.identifier t.span "Infinity")) frames⟩ := by
  have one : Mode.value.step frames t =
      .ok (.reading (.operand (.identifier t.span "Infinity")) frames) := by
    simp [Mode.step, Mode.start, Mode.startPrimary, Mode.wordValue, kind, text, Except.map]
  exact foldlM_inside source ((Mode.Reaches.single one).expected expects (by simp)) statements
    first last

/-- The name of infinity stands for the number in a run over tokens of other places. -/
theorem foldlM_named {tokens others : List Token} {place : Span}
    (before : tokens.foldlM (State.step source) .initial =
      .ok ⟨statements, .inside first last mode frames⟩)
    (elsewhere : ∀ u ∈ tokens, u.span ≠ place) (elsewhere' : ∀ u ∈ others, u.span ≠ place) :
    others.foldlM (State.step source)
        ⟨statements, .inside first t (.operand (.number place "Infinity")) frames⟩ =
      (others.foldlM (State.step source)
        ⟨statements, .inside first t (.operand (.identifier place "Infinity")) frames⟩).map
          (State.numbered place) := by
  have fixed := @State.foldlM_numbered place source .initial tokens elsewhere trivial
  change tokens.foldlM (State.step source) .initial = _ at fixed
  rw [before] at fixed
  simp only [Except.map, State.numbered, Stage.numbered, Except.ok.injEq, State.mk.injEq,
    Stage.inside.injEq, true_and] at fixed
  obtain ⟨statements_fixed, -, frames_fixed⟩ := fixed
  have named := @State.foldlM_numbered place source
    ⟨statements, .inside first t (.operand (.identifier place "Infinity")) frames⟩ others
    elsewhere' trivial
  simpa only [State.numbered, Stage.numbered, Mode.numbered, Expr.numbered, and_self, if_true,
    ← statements_fixed, ← frames_fixed] using named

end Runs

/-! Outcomes -/

theorem ofSource_toOption (source : String) :
    (ofSource source).toOption = (scanFrom .start source.toList).toOption.bind fun tokens =>
      (tokens.foldlM (State.step source.toList) .initial).toOption.map (·.statements.reverse) := by
  rw [ofSource, tokens]
  cases scanFrom .start source.toList with
  | error e => rfl
  | ok tokens => exact Outcome.toOption_map _ _

/-- Behind the number the scripts go side by side to their ends, statement by statement. -/
theorem foldlM_behind {source other : List Char} {statements : List Statement}
    {first last t u sign : Token} {mode : Mode} {frames : List Frame}
    {tokens behind behind' : List Token}
    (before : tokens.foldlM (State.step source) .initial =
      .ok ⟨statements, .inside first last mode frames⟩)
    (expects : mode = .value ∨ mode = .item) (unsigned : Grammar.Unsigned t)
    (plus : sign.kind = .plus) (beside : t.Beside u)
    (pairs : List.Forall₂ Token.Beside behind behind') :
    Option.Rel (State.Alike Token.Beside Statement.AsksAlike [])
      (behind.foldlM (State.step source)
        ⟨statements, .inside first t (.complete (.number t.span t.text)) frames⟩).toOption
      ((tokens ++ sign :: u :: behind').foldlM (State.step other) .initial).toOption := by
  have begins : State.initial.Alike Token.Beside Statement.AsksAlike [] State.initial :=
    State.initial_alike []
  have same : List.Forall₂ Token.Beside tokens tokens := List.forall₂_same.mpr fun t _ => .refl t
  obtain ⟨state', run, states⟩ :=
    State.foldlM_alike (paired_of_beside source other) begins same before
  have number : Grammar.Unsigned u := by
    rwa [Grammar.Unsigned, Abreast.kind_eq beside.1, Abreast.text_eq beside.1]
  obtain ⟨next, signed, alike⟩ := foldlM_sign states expects plus number beside
  have whole : (tokens ++ ([sign, u] ++ behind')).foldlM (State.step other) .initial =
      behind'.foldlM (State.step other) next := by
    rw [List.foldlM_append, run]
    change ([sign, u] ++ behind').foldlM (State.step other) state' = _
    rw [List.foldlM_append, signed]
    rfl
  rw [List.cons_append, List.singleton_append] at whole
  rw [whole]
  exact foldlM_beside alike pairs

section Alone

variable {source other : List Char} {statements : List Statement}
  {first last t u sign next : Token} {mode : Mode} {frames : List Frame}
  {tokens others behind' : List Token}
  (before : tokens.foldlM (State.step source) .initial =
    .ok ⟨statements, .inside first last mode frames⟩)
  (expects : mode = .value ∨ mode = .item)
  (alone : next.kind ∉ [.dot, .leftBracket, .leftParen])
  (plus : sign.kind = .plus) (beside : t.Beside u)
  (pairs : List.Forall₂ Token.Beside (next :: others) behind')

include before

theorem foldlM_through {state : State} (through : [t].foldlM (State.step source)
      ⟨statements, .inside first last mode frames⟩ = .ok state) (behind : List Token) :
    (tokens ++ t :: behind).foldlM (State.step source) .initial =
      behind.foldlM (State.step source) state := by
  rw [List.foldlM_append, before]
  change ([t] ++ behind).foldlM (State.step source) _ = _
  rw [List.foldlM_append, through]
  rfl

include expects alone plus beside pairs

/-- The number is read with the sign as without it. -/
theorem number_signed (kind : t.kind = .number) :
    Option.Rel (State.Alike Token.Beside Statement.AsksAlike [])
      ((tokens ++ t :: next :: others).foldlM (State.step source) .initial).toOption
      ((tokens ++ sign :: u :: behind').foldlM (State.step other) .initial).toOption := by
  rw [foldlM_through before (foldlM_number expects kind), foldlM_operand alone]
  exact foldlM_behind before expects (.inl kind) plus beside pairs

/-- The name of infinity is read with the sign as the number is that stands in its place. -/
theorem name_signed (kind : t.kind = .identifier) (text : t.text = "Infinity")
    (elsewhere : (∀ u ∈ tokens, u.span ≠ t.span) ∧ ∀ u ∈ next :: others, u.span ≠ t.span) :
    Option.Rel
      (fun state => State.Alike Token.Beside Statement.AsksAlike [] (state.numbered t.span))
      ((tokens ++ t :: next :: others).foldlM (State.step source) .initial).toOption
      ((tokens ++ sign :: u :: behind').foldlM (State.step other) .initial).toOption := by
  refine Outcome.rel_of_map ?_
  rw [← Outcome.toOption_map, foldlM_through before (foldlM_infinity expects kind text),
    ← foldlM_named before elsewhere.1 elsewhere.2, foldlM_operand alone, ← text]
  exact foldlM_behind before expects (.inr ⟨kind, text⟩) plus beside pairs

end Alone

/-- The statements of scripts that have gone to their ends side by side. -/
theorem State.Alike.reversed {pair : Token → Token → Prop} {alike : Statement → Statement → Prop}
    {state state' : State} (states : state.Alike pair alike [] state') :
    List.Forall₂ alike state.statements.reverse state'.statements.reverse := by
  obtain ⟨⟨own, whole, same⟩, -⟩ := states
  rw [whole, List.append_nil]
  exact List.forall₂_reverse_iff.mpr same

/-- A plus sign in front of a number that stands alone, or of the name of infinity, changes no
outcome: the script is read with it exactly if it is read without it, as statements that come to the
same one by one. Only a statement in which a constructor refuses the name may come to something
else. -/
theorem plus_transparent {source signed : String} {front piece rest : List Char}
    (lone : Lone front piece rest) (whole : source.toList = front ++ (piece ++ rest))
    (plus : signed.toList = front ++ '+' :: (piece ++ rest)) :
    Option.Rel
      (List.Forall₂ fun statement other => statement.ComesAlike other ∨
        piece = "Infinity".toList ∧ statement.RefusesName (placeOf front piece))
      (ofSource source).toOption (ofSource signed).toOption := by
  obtain ⟨numeral, ⟨tokens, statements, first, last, mode, frames, stretch, expects, before⟩,
    alone⟩ := lone
  obtain ⟨kind, starts, sorts⟩ : ∃ kind, Starts piece rest (.token kind) ∧
      (kind = .number ∨ kind = .identifier ∧ piece = "Infinity".toList) := by
    rcases numeral with starts | ⟨named, starts⟩
    · exact ⟨.number, starts, .inl rfl⟩
    · exact ⟨.identifier, starts, .inr ⟨rfl, named⟩⟩
  rw [ofSource_toOption, ofSource_toOption, whole, plus]
  refine Outcome.rel_bind (scanFrom_signBefore starts stretch) fun list other scanned same => ?_
  cases same with
  | intro plus beside pairs =>
    obtain ⟨next, others, rfl, done⟩ := exists_next starts stretch scanned
    have closed := alone _ next others done
    rcases sorts with rfl | ⟨rfl, named⟩
    · refine Outcome.rel_map (number_signed before expects closed plus beside pairs rfl) ?_
      exact fun state state' alike => alike.reversed.imp fun _ _ asks => .inl asks.comesAlike
    · have elsewhere := span_ne_of_scanFrom scanned nofun
      refine Outcome.rel_map (name_signed before expects closed plus beside pairs rfl
        (by rw [named]; rfl) elsewhere) fun state state' alike => ?_
      have statements := alike.reversed
      rw [State.numbered, ← List.map_reverse, List.forall₂_map_left_iff] at statements
      refine statements.imp fun statement other asks => ?_
      by_cases refuses : statement.RefusesName (placeOf front piece)
      · exact .inr ⟨named, refuses⟩
      · exact .inl (asks.comesAlike.of_numbered refuses)

/-- The name of infinity alone in an array. -/
theorem infinity_in_array :
    Lone ['['] "Infinity".toList [']'] ∧
      ∃ statement other, ofSource "[Infinity]" = .ok [statement] ∧
        ofSource "[+Infinity]" = .ok [other] ∧ statement.ComesAlike other := by
  have lone : Lone ['['] "Infinity".toList [']'] :=
    ⟨.inr ⟨rfl, 'I', _, rfl, rfl⟩,
      ⟨_, _, _, _, _, _, .token ⟨'[', [], rfl, rfl⟩ .nil, .inr rfl, rfl⟩,
      kind_of_scanFrom ⟨']', [], rfl, rfl⟩ (by decide)⟩
  have read : ofSource "[Infinity]" =
      .ok [⟨.expression (.array ⟨0, 10, 1, 1⟩ [.identifier ⟨1, 9, 1, 2⟩ "Infinity"]),
        "[Infinity]", ⟨0, 10, 1, 1⟩⟩] := by cbv
  have same := @plus_transparent "[Infinity]" "[+Infinity]" _ _ _ lone rfl rfl
  rw [read] at same
  obtain ⟨statements, signed⟩ : ∃ statements, ofSource "[+Infinity]" = .ok statements := by
    cases signed : ofSource "[+Infinity]" with
    | error e =>
      rw [signed] at same
      cases same
    | ok statements => exact ⟨statements, rfl⟩
  rw [signed] at same
  cases same with
  | some pairs =>
    cases pairs with
    | cons first others =>
      cases others
      rcases first with comes | ⟨-, node, member, call, within, refuses⟩
      · exact ⟨lone, _, _, read, signed, comes⟩
      · -- there is no call in the array, and none in its element
        obtain rfl := List.mem_singleton.mp member
        cases within with
        | self => cases refuses
        | child member deeper =>
          obtain rfl := List.mem_singleton.mp member
          cases deeper with
          | self => cases refuses
          | child member _ => cases member

/-- Among the constructors that take numbers some refuse the name of infinity, but not the number.
-/
theorem plus_before_infinity_in_double :
    ¬∀ (source signed : String) (front piece rest : List Char), Lone front piece rest →
      source.toList = front ++ (piece ++ rest) → signed.toList = front ++ '+' :: (piece ++ rest) →
      Option.Rel (List.Forall₂ Statement.ComesAlike)
        (ofSource source).toOption (ofSource signed).toOption := by
  intro all
  have lone : Lone "Double(".toList "Infinity".toList [')'] :=
    ⟨.inr ⟨rfl, 'I', _, rfl, rfl⟩,
      ⟨_, _, _, _, _, _,
        @Stretch.token .start "Double".toList ['('] _ .identifier _ ⟨'D', _, rfl, rfl⟩
        (.token ⟨'(', [], rfl, rfl⟩ .nil), .inr rfl, rfl⟩,
      kind_of_scanFrom ⟨')', [], rfl, rfl⟩ (by decide)⟩
  have same := all "Double(Infinity)" "Double(+Infinity)" _ _ _ lone rfl rfl
  have named : ofSource "Double(Infinity)" =
      .ok [⟨.expression (.call ⟨0, 16, 1, 1⟩ (.identifier ⟨0, 6, 1, 1⟩ "Double")
        [.identifier ⟨7, 15, 1, 8⟩ "Infinity"]), "Double(Infinity)", ⟨0, 16, 1, 1⟩⟩] := by cbv
  have signed : ofSource "Double(+Infinity)" =
      .ok [⟨.expression (.call ⟨0, 17, 1, 1⟩ (.identifier ⟨0, 6, 1, 1⟩ "Double")
        [.number ⟨7, 16, 1, 8⟩ "Infinity"]), "Double(+Infinity)", ⟨0, 17, 1, 1⟩⟩] := by cbv
  rw [named, signed] at same
  cases same with
  | some pairs =>
    cases pairs with
    | cons first _ =>
      let fresh : Fresh := ⟨0, fun _ => ⟨List.replicate 12 0, rfl⟩, fun _ => []⟩
      have differ : Option.Rel (Value.Alike fresh fresh) none (some (.double (.infinity false))) :=
        first.value fresh fresh
      cases differ

end Script

end MongoShell
