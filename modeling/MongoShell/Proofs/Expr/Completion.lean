import MongoShell.Proofs.Expr.Reading

/-! Completing an expression. Wherever the reader is, a few tokens end what it is in the middle of,
and then one token closes each of the frames around it. -/

namespace MongoShell

/-- The tokens that what was broken off is completed with, each of one character. -/
inductive Plug where
  | number
  | name
  | rightParen
  | rightBracket
  | rightBrace
  | colon

namespace Plug

def kind : Plug → TokenKind
  | number => .number
  | name => .identifier
  | rightParen => .rightParen
  | rightBracket => .rightBracket
  | rightBrace => .rightBrace
  | colon => .colon

def char : Plug → Char
  | number => '0'
  | name => 'x'
  | rightParen => ')'
  | rightBracket => ']'
  | rightBrace => '}'
  | colon => ':'

/-- Tokens of the kinds of some plugs. -/
def Fits (plugs : List Plug) (tokens : List Token) : Prop :=
  tokens.map Token.kind = plugs.map kind

end Plug

open Plug (Fits)

/-- What ends the value, name or object that a mode is in the middle of. -/
def Mode.completion : Mode → List Plug
  | value | item | signed _ => [.number]
  | operand _ | complete _ | constructor _ _ => []
  | member _ | keyword _ => [.name]
  | key _ _ => [.rightBrace]
  | colon _ _ _ _ => [.colon, .number, .rightBrace]

/-- What closes a frame behind a value. -/
def Frame.closing : Frame → Plug
  | group | arguments _ _ _ => .rightParen
  | array _ _ | index _ => .rightBracket
  | property _ _ _ _ => .rightBrace

namespace Mode

theorem delivers_operand (e : Expr) : (operand e).Delivers e :=
  HoldsOperand.operand.delivers

/-- A number is a value, and an item of any list. -/
theorem step_number {mode : Mode} {frames : List Frame} {t : Token} (kind : t.kind = .number)
    (opens : mode = .value ∨ mode = .item) :
    mode.step frames t = .ok (.reading (.operand (.number t.span t.text)) frames) := by
  have started : start frames t = .ok (.operand (.number t.span t.text), frames) := by
    simp [start, startPrimary, kind]
  rcases opens with rfl | rfl
  · rw [step, started]
    rfl
  · rw [step, startItem_eq_start (by simp [kind]), started]
    rfl

/-- What closes a frame leads out of it. -/
theorem closing_step {mode : Mode} {e : Expr} (holds : mode.Delivers e) {frame : Frame} {t : Token}
    (kind : t.kind = frame.closing.kind) (frames : List Frame) :
    ∃ d, mode.step (frame :: frames) t = .ok (.reading (.operand d) frames) := by
  have ends : ∀ plug : Plug, plug.kind ∉ [.dot, .leftBracket, .leftParen] := by
    intro plug
    cases plug <;> decide
  have closes : t.kind ∉ [.dot, .leftBracket, .leftParen] := kind ▸ ends frame.closing
  rw [holds (frame :: frames) t closes]
  cases frame <;> simp only [Frame.closing, Plug.kind] at kind <;> simp [deliver, kind]

/-- What completes a mode leads to a value in the same frames. -/
theorem reaches_value (mode : Mode) (frames : List Frame) {tokens : List Token}
    (fits : Fits mode.completion tokens) :
    ∃ last e, Reaches mode frames tokens last frames ∧ last.Delivers e := by
  have single {plug : Plug} (fits : Fits [plug] tokens) :
      ∃ t, tokens = [t] ∧ t.kind = plug.kind := by
    obtain ⟨t, rest, rfl, kind, more⟩ := List.map_eq_cons_iff.mp fits
    obtain rfl := List.map_eq_nil_iff.mp more
    exact ⟨t, rfl, kind⟩
  cases mode with
  | value =>
    obtain ⟨t, rfl, kind⟩ := single fits
    exact ⟨_, _, .single (step_number kind (.inl rfl)), delivers_operand _⟩
  | item =>
    obtain ⟨t, rfl, kind⟩ := single fits
    exact ⟨_, _, .single (step_number kind (.inr rfl)), delivers_operand _⟩
  | signed sign =>
    obtain ⟨t, rfl, kind⟩ := single fits
    exact ⟨_, _, .single (if_pos (.inl kind)), fun _ _ _ => rfl⟩
  | operand e =>
    obtain rfl := List.map_eq_nil_iff.mp fits
    exact ⟨_, e, .here, delivers_operand e⟩
  | complete e =>
    obtain rfl := List.map_eq_nil_iff.mp fits
    exact ⟨_, e, .here, fun _ _ _ => rfl⟩
  | constructor word name =>
    obtain rfl := List.map_eq_nil_iff.mp fits
    exact ⟨_, _, .here, HoldsOperand.bare.delivers⟩
  | member target =>
    obtain ⟨t, rfl, kind⟩ := single fits
    exact ⟨_, _, .single (if_pos kind), delivers_operand _⟩
  | keyword span =>
    obtain ⟨t, rfl, kind⟩ := single fits
    exact ⟨_, _, .single (if_pos kind), HoldsOperand.bare.delivers⟩
  | key opening earlier =>
    obtain ⟨t, rfl, kind⟩ := single fits
    have closed : startProperty opening earlier t =
        .ok (.operand (closeObject opening earlier t.span)) := by
      simp [startProperty, kind, Plug.kind]
    refine ⟨_, _, .single ?_, delivers_operand (closeObject opening earlier t.span)⟩
    rw [step, closed]
    rfl
  | colon opening earlier key keySpan =>
    obtain ⟨colon, rest, rfl, isColon, fits⟩ := List.map_eq_cons_iff.mp fits
    obtain ⟨number, rest, rfl, isNumber, fits⟩ := List.map_eq_cons_iff.mp fits
    obtain ⟨brace, rest, rfl, isBrace, fits⟩ := List.map_eq_cons_iff.mp fits
    obtain rfl := List.map_eq_nil_iff.mp fits
    let frame := Frame.property opening earlier key keySpan
    have toValue : step frames colon (.colon opening earlier key keySpan) =
        .ok (.reading .value (frame :: frames)) := if_pos isColon
    have toOperand : step (frame :: frames) number .value = _ := step_number isNumber (.inl rfl)
    have closes : brace.kind = frame.closing.kind := isBrace
    obtain ⟨d, closed⟩ := closing_step (delivers_operand _) closes frames
    exact ⟨_, d, .step toValue (.step toOperand (.single closed)), delivers_operand d⟩

/-- What closes all frames, one by one, leads out of them. -/
theorem reaches_out {mode : Mode} {e : Expr} (holds : mode.Delivers e) {frames : List Frame}
    {tokens : List Token} (fits : Fits (frames.map Frame.closing) tokens) :
    ∃ last d, Reaches mode frames tokens last [] ∧ last.Delivers d := by
  induction frames generalizing mode e tokens with
  | nil =>
    obtain rfl := List.map_eq_nil_iff.mp fits
    exact ⟨mode, e, .here, holds⟩
  | cons frame frames ih =>
    obtain ⟨t, rest, rfl, kind, fits⟩ := List.map_eq_cons_iff.mp fits
    obtain ⟨d, one⟩ := closing_step holds kind frames
    obtain ⟨last, d, more, holds⟩ := ih (delivers_operand d) fits
    exact ⟨last, d, .step one more, holds⟩

/-- Every reading can be completed. -/
theorem reaches_end (mode : Mode) (frames : List Frame) {tokens : List Token}
    (fits : Fits (mode.completion ++ frames.map Frame.closing) tokens) :
    ∃ last e, Reaches mode frames tokens last [] ∧ last.Delivers e := by
  unfold Plug.Fits at fits
  rw [List.map_append] at fits
  obtain ⟨own, outer, rfl, ends, closes⟩ := List.map_eq_append_iff.mp fits
  obtain ⟨middle, e, inside, holds⟩ := reaches_value mode frames ends
  obtain ⟨last, d, outside, holds⟩ := reaches_out holds closes
  exact ⟨last, d, inside.append outside, holds⟩

end Mode

end MongoShell
