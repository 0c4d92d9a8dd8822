import Mathlib.Data.List.Forall2
import MongoShell.Expr.Reader
import MongoShell.Proofs.Expr.Reading
import MongoShell.Proofs.Token.Excerpt

/-! Two readings abreast. The reader looks at the kinds and the texts of tokens and at nothing else,
so two readings of tokens that say the same go the same way, places apart; and where the one fails,
the other fails for the same fault, each at its own token. -/

namespace MongoShell

open MongoShell.Expr (eraseAll eraseProperties)

/-! What comes of a token -/

/-- What comes of a token in one reading, and of a token in another: both go on alike, or both fail
for the same fault, each at its token. If the second reading may be more lenient, it may also go its
own way where the first one fails. -/
inductive Abreast {α β : Type} (lenient : Prop) (t u : Token) (alike : α → β → Prop) :
    Except SyntaxError α → Except SyntaxError β → Prop
  | ok {a : α} {b : β} (held : alike a b) : Abreast lenient t u alike (.ok a) (.ok b)
  | error (fault : SyntaxFault) :
      Abreast lenient t u alike (.error (.under t.span fault)) (.error (.under u.span fault))
  | mended (allowed : lenient) (fault : SyntaxFault) (outcome : Except SyntaxError β) :
      Abreast lenient t u alike (.error (.under t.span fault)) outcome

namespace Abreast

variable {α β γ δ : Type} {lenient : Prop} {t u : Token} {alike : α → β → Prop}
  {related : γ → δ → Prop}

theorem map {first : Except SyntaxError α} {second : Except SyntaxError β} {f : α → γ} {g : β → δ}
    (abreast : Abreast lenient t u alike first second)
    (more : ∀ a b, alike a b → related (f a) (g b)) :
    Abreast lenient t u related (first.map f) (second.map g) := by
  cases abreast with
  | ok held => exact .ok (more _ _ held)
  | error fault => exact .error fault
  | mended allowed fault outcome => exact .mended allowed fault _

/-- Both readings branch on the same condition. -/
theorem ite {c : Prop} [Decidable c] {first first' : Except SyntaxError α}
    {second second' : Except SyntaxError β} (yes : c → Abreast lenient t u alike first second)
    (no : ¬c → Abreast lenient t u alike first' second') :
    Abreast lenient t u alike (if c then first else first') (if c then second else second') := by
  by_cases holds : c
  · rw [if_pos holds, if_pos holds]
    exact yes holds
  · rw [if_neg holds, if_neg holds]
    exact no holds

variable (word : u.word = t.word)

include word

theorem kind_eq : u.kind = t.kind := (Prod.mk.inj word).1

theorem text_eq : u.text = t.text := (Prod.mk.inj word).2

/-- Neither reading can go on with its token. -/
theorem unexpected (expected : Expectation) :
    Abreast lenient t u alike (.error (t.unexpected expected))
      (.error (u.unexpected expected)) := by
  unfold Token.unexpected
  rw [kind_eq word, text_eq word]
  exact .error _

theorem stringContents : Abreast lenient t u Eq t.stringContents u.stringContents := by
  unfold Token.stringContents
  rw [text_eq word]
  cases StringLiteral.contents? t.text with
  | some value => exact .ok rfl
  | none => exact .error _

end Abreast

/-! The same point of two readings -/

/-- Lists of one sort: arrays, arguments of calls, or arguments of constructions. -/
inductive OpenList.Alike : OpenList → OpenList → Prop
  | array {opening opening' : Span} : Alike (.array opening) (.array opening')
  | call {callee callee' : Expr} (same : callee.eraseSpans = callee'.eraseSpans) :
      Alike (.arguments none callee) (.arguments none callee')
  | construction {word word' : Span} {callee callee' : Expr}
      (same : callee.eraseSpans = callee'.eraseSpans) :
      Alike (.arguments (some word) callee) (.arguments (some word') callee')

inductive Frame.Alike : Frame → Frame → Prop
  | group : Alike .group .group
  | list {list list' : OpenList} {items items' : List Expr} {frame frame' : Frame}
      (lists : list.Alike list') (same : eraseAll items = eraseAll items')
      (left : frame = list.frame items) (right : frame' = list'.frame items') : Alike frame frame'
  | property {opening opening' keySpan keySpan' : Span} {earlier earlier' : List Property}
      (key : String) (members : eraseProperties earlier = eraseProperties earlier') :
      Alike (.property opening earlier key keySpan) (.property opening' earlier' key keySpan')
  | index {target target' : Expr} (same : target.eraseSpans = target'.eraseSpans) :
      Alike (.index target) (.index target')

inductive Mode.Alike : Mode → Mode → Prop
  | value : Alike .value .value
  | item : Alike .item .item
  | signed {sign sign' : Token} (word : sign'.word = sign.word) :
      Alike (.signed sign) (.signed sign')
  | operand {e e' : Expr} (same : e.eraseSpans = e'.eraseSpans) : Alike (.operand e) (.operand e')
  | complete {e e' : Expr} (same : e.eraseSpans = e'.eraseSpans) :
      Alike (.complete e) (.complete e')
  | member {target target' : Expr} (same : target.eraseSpans = target'.eraseSpans) :
      Alike (.member target) (.member target')
  | keyword {span span' : Span} : Alike (.keyword span) (.keyword span')
  | constructor {keyword keyword' : Span} {name name' : Token} (word : name'.word = name.word) :
      Alike (.constructor keyword name) (.constructor keyword' name')
  | key {opening opening' : Span} {earlier earlier' : List Property}
      (members : eraseProperties earlier = eraseProperties earlier') :
      Alike (.key opening earlier) (.key opening' earlier')
  | colon {opening opening' keySpan keySpan' : Span} {earlier earlier' : List Property}
      (key : String) (members : eraseProperties earlier = eraseProperties earlier') :
      Alike (.colon opening earlier key keySpan) (.colon opening' earlier' key keySpan')

/-- Frames that surround two readings at the same point, one by one. -/
abbrev FramesAlike : List Frame → List Frame → Prop := List.Forall₂ Frame.Alike

/-- Modes with the frames around them. -/
def PlacesAlike (place other : Mode × List Frame) : Prop :=
  place.1.Alike other.1 ∧ FramesAlike place.2 other.2

inductive Progress.Alike : Progress → Progress → Prop
  | reading {mode mode' : Mode} {frames frames' : List Frame} (modes : mode.Alike mode')
      (surround : FramesAlike frames frames') :
      Alike (.reading mode frames) (.reading mode' frames')
  | finished {e e' : Expr} (same : e.eraseSpans = e'.eraseSpans) :
      Alike (.finished e) (.finished e')

theorem OpenList.Alike.refl (list : OpenList) : list.Alike list := by
  cases list with
  | array opening => exact .array
  | arguments word callee =>
    cases word with
    | none => exact .call rfl
    | some word => exact .construction rfl

theorem Frame.Alike.refl (frame : Frame) : frame.Alike frame := by
  cases frame with
  | group => exact .group
  | array opening elements => exact .list (.refl (.array opening)) rfl rfl rfl
  | property opening earlier key keySpan => exact .property key rfl
  | index target => exact .index rfl
  | arguments word callee values => exact .list (.refl (.arguments word callee)) rfl rfl rfl

theorem Mode.Alike.refl (mode : Mode) : mode.Alike mode := by
  cases mode with
  | value => exact .value
  | item => exact .item
  | signed sign => exact .signed rfl
  | operand e => exact .operand rfl
  | complete e => exact .complete rfl
  | member target => exact .member rfl
  | keyword span => exact .keyword
  | constructor keyword name => exact .constructor rfl
  | key opening earlier => exact .key rfl
  | colon opening earlier key keySpan => exact .colon key rfl

theorem FramesAlike.refl (frames : List Frame) : FramesAlike frames frames :=
  List.forall₂_same.mpr fun frame _ => .refl frame

/-! Values that are closed -/

namespace Expr

theorem eraseAll_reverse (elements : List Expr) :
    eraseAll elements.reverse = (eraseAll elements).reverse := by
  induction elements with
  | nil => rfl
  | cons e elements ih => simp [ih, eraseAll]

theorem eraseProperties_reverse (properties : List Property) :
    eraseProperties properties.reverse = (eraseProperties properties).reverse := by
  induction properties with
  | nil => rfl
  | cons property properties ih =>
    obtain ⟨key, span, value⟩ := property
    simp [ih, eraseProperties]

end Expr

namespace OpenList

variable {list list' : OpenList}

theorem Alike.closing_eq (lists : list.Alike list') : list'.closing = list.closing := by
  cases lists <;> rfl

theorem Alike.close_eq (lists : list.Alike list') {items items' : List Expr}
    (same : eraseAll items = eraseAll items') (last last' : Span) :
    (list.close items last).eraseSpans = (list'.close items' last').eraseSpans := by
  cases lists with
  | array => simp [close, Mode.closeArray, Expr.eraseSpans, Expr.eraseAll_reverse, same]
  | call callees =>
    simp [close, Mode.closeCall, Expr.eraseSpans, Expr.eraseAll_reverse, same, callees]
  | construction callees =>
    simp [close, Mode.closeCall, Expr.eraseSpans, Expr.eraseAll_reverse, same, callees]

end OpenList

theorem closeObject_eq {opening opening' last last' : Span} {properties properties' : List Property}
    (members : eraseProperties properties = eraseProperties properties') :
    (Mode.closeObject opening properties last).eraseSpans =
      (Mode.closeObject opening' properties' last').eraseSpans := by
  simp [Mode.closeObject, Expr.eraseSpans, Expr.eraseProperties_reverse, members]

/-! One token further -/

namespace Mode

variable {lenient : Prop} {frames frames' : List Frame} {t u : Token}

theorem wordValue_eq (span span' : Span) (text : String) :
    (wordValue span text).eraseSpans = (wordValue span' text).eraseSpans := by
  unfold wordValue
  split
  · rfl
  split
  · rfl
  split
  · rfl
  · rfl

section

variable (surround : FramesAlike frames frames') (word : u.word = t.word)

include surround word

theorem start_abreast : Abreast lenient t u PlacesAlike (start frames t) (start frames' u) := by
  unfold start startPrimary
  rw [Abreast.kind_eq word, Abreast.text_eq word]
  apply Abreast.ite
  · intro _
    exact .ok ⟨.signed word, surround⟩
  intro _
  cases t.kind
  case identifier =>
    apply Abreast.ite
    · intro _
      exact .ok ⟨.keyword, surround⟩
    · intro _
      exact .ok ⟨.operand (wordValue_eq _ _ _), surround⟩
  case string =>
    apply (Abreast.stringContents word).map
    rintro contents _ rfl
    exact ⟨.operand rfl, surround⟩
  case number => exact .ok ⟨.operand rfl, surround⟩
  case regex => exact .ok ⟨.operand rfl, surround⟩
  case leftBrace => exact .ok ⟨.key rfl, surround⟩
  case leftBracket => exact .ok ⟨.item, .cons (.list .array rfl rfl rfl) surround⟩
  case leftParen => exact .ok ⟨.value, .cons .group surround⟩
  all_goals exact Abreast.unexpected word _

theorem value_abreast :
    Abreast lenient t u Progress.Alike (Mode.value.step frames t) (Mode.value.step frames' u) := by
  apply (start_abreast surround word).map
  intro place other held
  exact .reading held.1 held.2

theorem item_abreast :
    Abreast lenient t u Progress.Alike (Mode.item.step frames t) (Mode.item.step frames' u) := by
  cases surround with
  | nil => exact value_abreast .nil word
  | cons frame surround =>
    cases frame with
    | group => exact value_abreast (.cons .group surround) word
    | property key members => exact value_abreast (.cons (.property key members) surround) word
    | index same => exact value_abreast (.cons (.index same) surround) word
    | @list list list' items items' _ _ lists same left right =>
      subst left right
      by_cases closes : t.kind = list.closing
      · have closes' : u.kind = list'.closing := by
          rw [Abreast.kind_eq word, closes, lists.closing_eq]
        rw [list.step_close items _ closes, list'.step_close items' _ closes']
        exact .ok (.reading (.operand (lists.close_eq same _ _)) surround)
      · have opened : u.kind ≠ list'.closing := by
          rwa [Abreast.kind_eq word, lists.closing_eq]
        rw [list.step_start items _ closes, list'.step_start items' _ opened]
        exact value_abreast (.cons (.list lists same rfl rfl) surround) word

variable {e e' : Expr} (value : e.eraseSpans = e'.eraseSpans)

include value

theorem deliver_abreast :
    Abreast lenient t u Progress.Alike (deliver frames e t) (deliver frames' e' u) := by
  have kind := Abreast.kind_eq word
  cases surround with
  | nil => exact .ok (.finished value)
  | cons frame surround =>
    cases frame with
    | group =>
      simp only [deliver, kind]
      apply Abreast.ite
      · intro _
        exact .ok (.reading (.operand value) surround)
      · intro _
        exact Abreast.unexpected word _
    | index same =>
      simp only [deliver, kind]
      apply Abreast.ite
      · intro _
        exact .ok (.reading (.operand (by simp only [Expr.eraseSpans, same, value])) surround)
      · intro _
        exact Abreast.unexpected word _
    | @property _ _ span span' earlier earlier' key members =>
      have more : eraseProperties (.mk key (span.through e.span) e :: earlier) =
          eraseProperties (.mk key (span'.through e'.span) e' :: earlier') := by
        simp only [eraseProperties, value, members]
      simp only [deliver, kind]
      apply Abreast.ite
      · intro _
        exact .ok (.reading (.key more) surround)
      intro _
      apply Abreast.ite
      · intro _
        exact .ok (.reading (.operand (closeObject_eq more)) surround)
      · intro _
        exact Abreast.unexpected word _
    | @list list list' items items' _ _ lists same left right =>
      subst left right
      have more : eraseAll (e :: items) = eraseAll (e' :: items') := by
        simp only [eraseAll, value, same]
      by_cases comma : t.kind = .comma
      · rw [list.deliver_comma items _ e comma, list'.deliver_comma items' _ e' (kind.trans comma)]
        exact .ok (.reading .item (.cons (.list lists more rfl rfl) surround))
      by_cases closes : t.kind = list.closing
      · have closes' : u.kind = list'.closing := by rw [kind, closes, lists.closing_eq]
        rw [list.deliver_close items _ e closes, list'.deliver_close items' _ e' closes']
        exact .ok (.reading (.operand (lists.close_eq more _ _)) surround)
      · have noComma : u.kind ≠ .comma := by rwa [kind]
        have opened : u.kind ≠ list'.closing := by rwa [kind, lists.closing_eq]
        rw [list.deliver_other items _ e comma closes,
          list'.deliver_other items' _ e' noComma opened,
          lists.closing_eq]
        exact Abreast.unexpected word _

theorem afterOperand_abreast :
    Abreast lenient t u Progress.Alike (afterOperand frames e t) (afterOperand frames' e' u) := by
  have delivered : Abreast lenient t u Progress.Alike (deliver frames e t) (deliver frames' e' u) :=
    deliver_abreast surround word value
  unfold afterOperand
  rw [Abreast.kind_eq word]
  cases t.kind
  case dot => exact .ok (.reading (.member value) surround)
  case leftBracket => exact .ok (.reading .value (.cons (.index value) surround))
  case leftParen => exact .ok (.reading .item (.cons (.list (.call value) rfl rfl rfl) surround))
  all_goals exact delivered

end

theorem startProperty_abreast {opening opening' : Span} {earlier earlier' : List Property}
    (members : eraseProperties earlier = eraseProperties earlier') (word : u.word = t.word) :
    Abreast lenient t u Mode.Alike (startProperty opening earlier t)
      (startProperty opening' earlier' u) := by
  unfold startProperty
  rw [Abreast.kind_eq word, Abreast.text_eq word]
  cases t.kind
  case rightBrace => exact .ok (.operand (closeObject_eq members))
  case identifier => exact .ok (.colon _ members)
  case number => exact .ok (.colon _ members)
  case string =>
    apply (Abreast.stringContents word).map
    rintro name _ rfl
    exact .colon name members
  all_goals exact Abreast.unexpected word _

/-- One token further, two readings are still abreast. -/
theorem step_abreast {mode mode' : Mode} (modes : mode.Alike mode')
    (surround : FramesAlike frames frames') (word : u.word = t.word) :
    Abreast lenient t u Progress.Alike (mode.step frames t) (mode'.step frames' u) := by
  have kind := Abreast.kind_eq word
  have text := Abreast.text_eq word
  cases modes with
  | value => exact value_abreast surround word
  | item => exact item_abreast surround word
  | operand same => exact afterOperand_abreast surround word same
  | complete same => exact deliver_abreast surround word same
  | signed sign =>
    simp only [step, kind, text, Abreast.kind_eq sign]
    apply Abreast.ite
    · intro _
      exact .ok (.reading (.complete rfl) surround)
    · intro _
      exact Abreast.unexpected word _
  | member same =>
    simp only [step, kind, text]
    apply Abreast.ite
    · intro _
      exact .ok (.reading (.operand (by simp only [Expr.eraseSpans, same])) surround)
    · intro _
      exact Abreast.unexpected word _
  | keyword =>
    simp only [step, kind]
    apply Abreast.ite
    · intro _
      exact .ok (.reading (.constructor word) surround)
    · intro _
      exact Abreast.unexpected word _
  | @constructor _ _ name name' named =>
    have callee : (Expr.identifier name.span name.text).eraseSpans =
        (Expr.identifier name'.span name'.text).eraseSpans := by
      simp only [Expr.eraseSpans, Abreast.text_eq named]
    simp only [step, kind]
    apply Abreast.ite
    · intro _
      exact .ok (.reading .item (.cons (.list (.construction callee) rfl rfl rfl) surround))
    · intro _
      exact afterOperand_abreast surround word (congrArg (Expr.construct Expr.nowhere) callee)
  | key members =>
    apply (startProperty_abreast members word).map
    intro next next' alike
    exact .reading alike surround
  | colon name members =>
    simp only [step, kind]
    apply Abreast.ite
    · intro _
      exact .ok (.reading .value (.cons (.property name members) surround))
    · intro _
      exact Abreast.unexpected word _

end Mode

end MongoShell
