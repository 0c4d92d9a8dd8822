import Mathlib.Tactic.Common
import MongoShell.Proofs.Expr.Reading

/-! The name of infinity as a number. Behind a sign `Infinity` is a number, alone it is an
identifier. Rewriting the identifier at one place to the number commutes with reading: the reader
never looks into the values that it has read, so it goes the same way over the tokens of other
places. -/

namespace MongoShell

/-! The rewriting -/

namespace Expr

mutual

/-- The expression with the name of infinity at a place made a number. What `new` constructs stays a
name. -/
def numbered (place : Span) : Expr → Expr
  | identifier span name =>
    if span = place ∧ name = "Infinity" then number span name else identifier span name
  | string span value => string span value
  | number span lexeme => number span lexeme
  | boolean span value => boolean span value
  | null span => null span
  | regex span pattern flags => regex span pattern flags
  | object span properties => object span (numberedProperties place properties)
  | array span elements => array span (numberedAll place elements)
  | member span target name => member span (target.numbered place) name
  | index span target position => index span (target.numbered place) (position.numbered place)
  | call span callee arguments => call span (callee.numbered place) (numberedAll place arguments)
  | construct span (call inner callee arguments) =>
    construct span (call inner callee (numberedAll place arguments))
  | construct span target => construct span target

def numberedAll (place : Span) : List Expr → List Expr
  | [] => []
  | e :: rest => e.numbered place :: numberedAll place rest

def numberedProperties (place : Span) : List Property → List Property
  | [] => []
  | .mk key span value :: rest =>
    .mk key span (value.numbered place) :: numberedProperties place rest

end

end Expr

def Property.numbered (place : Span) (property : Property) : Property :=
  .mk property.key property.span (property.value.numbered place)

namespace Expr

variable (place : Span)

theorem numberedAll_eq_map (elements : List Expr) :
    numberedAll place elements = elements.map (numbered place) := by
  induction elements with
  | nil => rfl
  | cons e elements ih => rw [numberedAll, ih, List.map_cons]

theorem numberedProperties_eq_map (properties : List Property) :
    numberedProperties place properties = properties.map (Property.numbered place) := by
  induction properties with
  | nil => rfl
  | cons property properties ih =>
    obtain ⟨key, span, value⟩ := property
    rw [numberedProperties, ih, List.map_cons]
    rfl

theorem numbered_object (span : Span) (properties : List Property) :
    (object span properties).numbered place =
      object span (properties.map (Property.numbered place)) := by
  rw [numbered, numberedProperties_eq_map]

theorem numbered_array (span : Span) (elements : List Expr) :
    (array span elements).numbered place = array span (elements.map (numbered place)) := by
  rw [numbered, numberedAll_eq_map]

theorem numbered_call (span : Span) (callee : Expr) (arguments : List Expr) :
    (call span callee arguments).numbered place =
      call span (callee.numbered place) (arguments.map (numbered place)) := by
  rw [numbered, numberedAll_eq_map]

theorem numbered_construct_call (span inner : Span) (callee : Expr) (arguments : List Expr) :
    (construct span (call inner callee arguments)).numbered place =
      construct span (call inner callee (arguments.map (numbered place))) := by
  rw [numbered, numberedAll_eq_map]

/-- Identifiers of other places stay as they are. -/
theorem numbered_identifier {span : Span} (elsewhere : span ≠ place) (name : String) :
    (identifier span name).numbered place = identifier span name := by
  rw [numbered, if_neg fun same => elsewhere same.1]

theorem numbered_span (e : Expr) : (e.numbered place).span = e.span := by
  cases e with
  | identifier span name =>
    rw [numbered]
    split <;> rfl
  | construct span target => cases target <;> rfl
  | _ => rfl

theorem numbered_string? (e : Expr) : (e.numbered place).string? = e.string? := by
  cases e with
  | identifier span name =>
    rw [numbered]
    split <;> rfl
  | construct span target => cases target <;> rfl
  | _ => rfl

end Expr

/-! What the reader holds -/

/-- The callee of a construction is a name that stays as it is. -/
def OpenList.numbered (place : Span) : OpenList → OpenList
  | array opening => array opening
  | arguments none callee => arguments none (callee.numbered place)
  | arguments (some word) callee => arguments (some word) callee

def Frame.numbered (place : Span) : Frame → Frame
  | group => group
  | array opening elements => array opening (elements.map (Expr.numbered place))
  | property opening earlier key keySpan =>
    property opening (earlier.map (Property.numbered place)) key keySpan
  | index target => index (target.numbered place)
  | arguments none callee values =>
    arguments none (callee.numbered place) (values.map (Expr.numbered place))
  | arguments (some word) callee values =>
    arguments (some word) callee (values.map (Expr.numbered place))

def Mode.numbered (place : Span) : Mode → Mode
  | operand e => operand (e.numbered place)
  | complete e => complete (e.numbered place)
  | member target => member (target.numbered place)
  | key opening earlier => key opening (earlier.map (Property.numbered place))
  | colon opening earlier name keySpan =>
    colon opening (earlier.map (Property.numbered place)) name keySpan
  | value => value
  | item => item
  | signed sign => signed sign
  | keyword span => keyword span
  | constructor word name => constructor word name

def Progress.numbered (place : Span) : Progress → Progress
  | reading mode frames => reading (mode.numbered place) (frames.map (Frame.numbered place))
  | finished e => finished (e.numbered place)

namespace OpenList

variable {place : Span}

theorem frame_numbered (list : OpenList) (items : List Expr) :
    (list.frame items).numbered place =
      (list.numbered place).frame (items.map (Expr.numbered place)) := by
  cases list with
  | array opening => rfl
  | arguments word callee => cases word <;> rfl

theorem closing_numbered (list : OpenList) : (list.numbered place).closing = list.closing := by
  cases list with
  | array opening => rfl
  | arguments word callee => cases word <;> rfl

theorem close_numbered (list : OpenList) (items : List Expr) (last : Span) :
    (list.numbered place).close (items.map (Expr.numbered place)) last =
      (list.close items last).numbered place := by
  cases list with
  | array opening =>
    simp only [numbered, close, Mode.closeArray, Expr.numbered_array, List.map_reverse]
  | arguments word callee =>
    cases word with
    | none =>
      simp only [numbered, close, Mode.closeCall, Expr.numbered_call, Expr.numbered_span,
        List.map_reverse]
    | some word =>
      simp only [numbered, close, Mode.closeCall, Expr.numbered_construct_call, List.map_reverse]

end OpenList

namespace Mode

variable {place : Span} {t : Token}

theorem wordValue_numbered {span : Span} (elsewhere : span ≠ place) (name : String) :
    (wordValue span name).numbered place = wordValue span name := by
  unfold wordValue
  split
  · rfl
  split
  · rfl
  split
  · rfl
  · exact Expr.numbered_identifier place elsewhere name

theorem closeObject_numbered (opening closing : Span) (properties : List Property) :
    closeObject opening (properties.map (Property.numbered place)) closing =
      (closeObject opening properties closing).numbered place := by
  rw [closeObject, closeObject, Expr.numbered_object, List.map_reverse]

/-! One token further -/

theorem start_numbered (elsewhere : t.span ≠ place) (frames : List Frame) :
    start (frames.map (Frame.numbered place)) t = (start frames t).map fun (mode, frames) =>
      (mode.numbered place, frames.map (Frame.numbered place)) := by
  simp only [start, startPrimary]
  split
  · rfl
  cases t.kind
  case identifier =>
    simp only
    split
    · rfl
    · simp only [Except.map, numbered, wordValue_numbered elsewhere]
  case string => cases t.stringContents <;> rfl
  all_goals rfl

theorem value_numbered (elsewhere : t.span ≠ place) (frames : List Frame) :
    Mode.value.step (frames.map (Frame.numbered place)) t =
      (Mode.value.step frames t).map (Progress.numbered place) := by
  rw [step, start_numbered elsewhere, step]
  cases start frames t <;> rfl

/-- The frame around a list, or any other frame. -/
theorem item_numbered (elsewhere : t.span ≠ place) (frames : List Frame) :
    Mode.item.step (frames.map (Frame.numbered place)) t =
      (Mode.item.step frames t).map (Progress.numbered place) := by
  have list (list : OpenList) (items : List Expr) (frames : List Frame) :
      Mode.item.step ((list.frame items :: frames).map (Frame.numbered place)) t =
        (Mode.item.step (list.frame items :: frames) t).map (Progress.numbered place) := by
    by_cases closes : t.kind = list.closing
    · rw [list.step_close items frames closes, List.map_cons, list.frame_numbered,
        (list.numbered place).step_close _ _ (closes.trans list.closing_numbered.symm),
        list.close_numbered]
      rfl
    · have opened : t.kind ≠ (list.numbered place).closing := by rwa [list.closing_numbered]
      rw [list.step_start items frames closes, ← value_numbered elsewhere, List.map_cons,
        list.frame_numbered, (list.numbered place).step_start _ _ opened]
  cases frames with
  | nil => exact value_numbered elsewhere []
  | cons frame frames =>
    cases frame with
    | group => exact value_numbered elsewhere (.group :: frames)
    | property opening earlier key keySpan =>
      exact value_numbered elsewhere (.property opening earlier key keySpan :: frames)
    | index target => exact value_numbered elsewhere (.index target :: frames)
    | array opening elements => exact list (.array opening) elements frames
    | arguments word callee values => exact list (.arguments word callee) values frames

theorem deliver_numbered (frames : List Frame) (e : Expr) (t : Token) :
    deliver (frames.map (Frame.numbered place)) (e.numbered place) t =
      (deliver frames e t).map (Progress.numbered place) := by
  have list (list : OpenList) (items : List Expr) (frames : List Frame) :
      deliver ((list.frame items :: frames).map (Frame.numbered place)) (e.numbered place) t =
        (deliver (list.frame items :: frames) e t).map (Progress.numbered place) := by
    rw [List.map_cons, list.frame_numbered]
    by_cases comma : t.kind = .comma
    · rw [list.deliver_comma items frames e comma,
        (list.numbered place).deliver_comma _ _ _ comma, Except.map, Progress.numbered,
        List.map_cons, list.frame_numbered]
      rfl
    by_cases closes : t.kind = list.closing
    · rw [list.deliver_close items frames e closes,
        (list.numbered place).deliver_close _ _ _ (closes.trans list.closing_numbered.symm),
        ← List.map_cons, list.close_numbered]
      rfl
    · have opened : t.kind ≠ (list.numbered place).closing := by rwa [list.closing_numbered]
      rw [list.deliver_other items frames e comma closes,
        (list.numbered place).deliver_other _ _ _ comma opened, list.closing_numbered]
      rfl
  cases frames with
  | nil => rfl
  | cons frame frames =>
    cases frame with
    | group =>
      simp only [List.map_cons, Frame.numbered, deliver]
      split <;> rfl
    | index target =>
      simp only [List.map_cons, Frame.numbered, deliver, Expr.numbered_span]
      split <;> rfl
    | property opening earlier key keySpan =>
      have closed : closeObject opening (.mk key (keySpan.through e.span) (e.numbered place) ::
            earlier.map (Property.numbered place)) t.span =
          (closeObject opening (.mk key (keySpan.through e.span) e :: earlier) t.span).numbered
            place :=
        closeObject_numbered opening t.span (.mk key (keySpan.through e.span) e :: earlier)
      simp only [List.map_cons, Frame.numbered, deliver, Expr.numbered_span, closed]
      split
      · rfl
      split <;> rfl
    | array opening elements => exact list (.array opening) elements frames
    | arguments word callee values => exact list (.arguments word callee) values frames

theorem afterOperand_numbered (frames : List Frame) (e : Expr) (t : Token) :
    afterOperand (frames.map (Frame.numbered place)) (e.numbered place) t =
      (afterOperand frames e t).map (Progress.numbered place) := by
  have delivered : deliver (frames.map (Frame.numbered place)) (e.numbered place) t =
      (deliver frames e t).map (Progress.numbered place) := deliver_numbered frames e t
  unfold afterOperand
  cases t.kind
  case dot => rfl
  case leftBracket => rfl
  case leftParen => rfl
  all_goals exact delivered

theorem startProperty_numbered (opening : Span) (earlier : List Property) (t : Token) :
    startProperty opening (earlier.map (Property.numbered place)) t =
      (startProperty opening earlier t).map (numbered place) := by
  unfold startProperty
  cases t.kind
  case rightBrace => simp only [closeObject_numbered, Except.map, numbered]
  case string => cases t.stringContents <;> rfl
  all_goals rfl

/-- Reading goes the same way at another place, whether or not the name of infinity is a number. -/
theorem step_numbered (elsewhere : t.span ≠ place) (frames : List Frame) (mode : Mode) :
    (mode.numbered place).step (frames.map (Frame.numbered place)) t =
      (mode.step frames t).map (Progress.numbered place) := by
  cases mode with
  | value => exact value_numbered elsewhere frames
  | item => exact item_numbered elsewhere frames
  | operand e => exact afterOperand_numbered frames e t
  | complete e => exact deliver_numbered frames e t
  | signed sign =>
    simp only [numbered, step]
    split <;> rfl
  | member target =>
    simp only [numbered, step, Expr.numbered_span]
    split <;> rfl
  | keyword span =>
    simp only [numbered, step]
    split <;> rfl
  | constructor word name =>
    simp only [numbered, step]
    split
    · rfl
    · exact afterOperand_numbered frames (.construct _ (.identifier _ _)) t
  | key opening earlier =>
    simp only [numbered, step, startProperty_numbered]
    cases startProperty opening earlier t <;> rfl
  | colon opening earlier name keySpan =>
    simp only [numbered, step]
    split <;> rfl

end Mode

end MongoShell
