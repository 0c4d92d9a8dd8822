import MongoShell.Proofs.Expr.Grammar
import MongoShell.Proofs.Expr.Reader

/-! Reading an expression from the front of a token list, and what the grammar derives is read: the
reader gets through the tokens of a derivation, with whatever frames around them, to a mode that
holds the derived tree. -/

namespace MongoShell

/-- Read on from a mode and its frames, up to the token in front of which the expression ends. A
list of tokens ends with the end of input, so there is always such a token, or one that does not
fit. -/
def Mode.run (mode : Mode) (frames : List Frame) :
    List Token → Except SyntaxError (Expr × List Token)
  | [] => .error ⟨1, 1, .unexpectedEnd .value⟩
  | t :: rest =>
    match mode.step frames t with
    | .error e => .error e
    | .ok (.reading next others) => run next others rest
    | .ok (.finished e) => .ok (e, t :: rest)

/-- The expression at the front of a list of tokens, and the tokens behind it. -/
def Expr.read (tokens : List Token) : Except SyntaxError (Expr × List Token) :=
  Mode.value.run [] tokens

namespace Mode

theorem Reaches.run_append {mode last : Mode} {frames final : List Frame} {tokens : List Token}
    (run : Reaches mode frames tokens last final) (rest : List Token) :
    mode.run frames (tokens ++ rest) = last.run final rest := by
  induction run with
  | here => rfl
  | step one _ ih => rw [List.cons_append, Mode.run, one]; exact ih

theorem Reaches.single {mode next : Mode} {frames others : List Frame} {t : Token}
    (one : mode.step frames t = .ok (.reading next others)) :
    Reaches mode frames [t] next others := .step one .here

/-- No token that closes a list or an object, and none that parts its items, starts a value. -/
theorem kind_of_value_step {frames others : List Frame} {t : Token} {next : Mode}
    (one : Mode.value.step frames t = .ok (.reading next others)) :
    t.kind ∉ [.rightParen, .rightBracket, .rightBrace, .comma, .semicolon, .endOfInput] := by
  intro member
  simp only [List.mem_cons, List.not_mem_nil, or_false] at member
  rcases member with kind | kind | kind | kind | kind | kind <;>
    simp [Mode.step, Mode.start, Mode.startPrimary, kind, Except.map] at one

/-- What closes no list starts an item as it starts a value. -/
theorem startItem_eq_start {t : Token} (opens : t.kind ∉ [.rightBracket, .rightParen])
    (frames : List Frame) : startItem frames t = start frames t := by
  simp only [List.mem_cons, List.not_mem_nil, or_false, not_or] at opens
  unfold startItem
  split
  · rename_i kind
    exact absurd kind opens.1
  · rename_i kind
    exact absurd kind opens.2
  · rfl

/-- An item is read as a value is, since it does not start with what closes the list around it. -/
theorem Reaches.expected {mode last : Mode} {frames others : List Frame} {tokens : List Token}
    (starts : mode = .value ∨ mode = .item) (some : tokens ≠ [])
    (run : Reaches .value frames tokens last others) : Reaches mode frames tokens last others := by
  rcases starts with rfl | rfl
  · exact run
  cases run with
  | here => exact absurd rfl some
  | @step _ _ _ _ _ _ t _ one more =>
    have starts := kind_of_value_step one
    have opens : t.kind ∉ [.rightBracket, .rightParen] := by
      simp only [List.mem_cons, List.not_mem_nil, or_false, not_or] at starts ⊢
      exact ⟨starts.2.1, starts.1⟩
    refine .step ?_ more
    rw [Mode.step, startItem_eq_start opens]
    exact one

end Mode

/-! The two lists of expressions -/

/-- A list of expressions that is being read: an array, or the arguments of a call. -/
inductive OpenList where
  | array (opening : Span)
  | arguments (keyword : Option Span) (callee : Expr)

namespace OpenList

/-- The list with some items, the latest first. -/
def frame : OpenList → List Expr → Frame
  | array opening, items => .array opening items
  | arguments word callee, items => .arguments word callee items

def closing : OpenList → TokenKind
  | array _ => .rightBracket
  | arguments _ _ => .rightParen

/-- The value that the list closes to. -/
def close : OpenList → List Expr → Span → Expr
  | array opening, items, last => Mode.closeArray opening items last
  | arguments word callee, items, last => Mode.closeCall word callee items last

theorem closing_ne (list : OpenList) : list.closing ≠ .endOfInput := by
  cases list <;> simp [closing]

theorem step_close (list : OpenList) (items : List Expr) (frames : List Frame) {t : Token}
    (kind : t.kind = list.closing) :
    Mode.item.step (list.frame items :: frames) t =
      .ok (.reading (.operand (list.close items t.span)) frames) := by
  cases list <;> simp only [closing] at kind <;>
    simp [frame, close, Mode.step, Mode.startItem, kind, Except.map]

theorem step_start (list : OpenList) (items : List Expr) (frames : List Frame) {t : Token}
    (kind : t.kind ≠ list.closing) :
    Mode.item.step (list.frame items :: frames) t =
      Mode.value.step (list.frame items :: frames) t := by
  have starts : Mode.startItem (list.frame items :: frames) t =
      Mode.start (list.frame items :: frames) t := by
    cases list with
    | array opening =>
      simp only [frame, Mode.startItem]
      split
      · rename_i closes
        exact absurd closes kind
      · rename_i same _
        cases same
      · rfl
    | arguments word callee =>
      simp only [frame, Mode.startItem]
      split
      · rename_i same _
        cases same
      · rename_i closes
        exact absurd closes kind
      · rfl
  rw [Mode.step, Mode.step, starts]

theorem deliver_comma (list : OpenList) (items : List Expr) (frames : List Frame) (e : Expr)
    {t : Token} (kind : t.kind = .comma) :
    Mode.deliver (list.frame items :: frames) e t =
      .ok (.reading .item (list.frame (e :: items) :: frames)) := by
  cases list <;> simp [frame, Mode.deliver, kind]

theorem deliver_close (list : OpenList) (items : List Expr) (frames : List Frame) (e : Expr)
    {t : Token} (kind : t.kind = list.closing) :
    Mode.deliver (list.frame items :: frames) e t =
      .ok (.reading (.operand (list.close (e :: items) t.span)) frames) := by
  cases list <;> simp only [closing] at kind <;> simp [frame, close, Mode.deliver, kind]

/-- What neither parts the items of a list nor closes it. -/
theorem deliver_other (list : OpenList) (items : List Expr) (frames : List Frame) (e : Expr)
    {t : Token} (noComma : t.kind ≠ .comma) (other : t.kind ≠ list.closing) :
    Mode.deliver (list.frame items :: frames) e t =
      .error (t.unexpected (.token list.closing)) := by
  cases list <;> simp only [closing] at other <;>
    simp [frame, closing, Mode.deliver, noComma, other]

end OpenList

/-! Modes that hold a value -/

namespace Mode

/-- A value has been read, and what does not go on with it is met by the frames. -/
def Delivers (mode : Mode) (e : Expr) : Prop :=
  ∀ frames t, t.kind ∉ [.dot, .leftBracket, .leftParen] → mode.step frames t = deliver frames e t

/-- A value has been read that accesses may follow; calls may follow it too unless it is bare. -/
inductive HoldsOperand : Bool → Mode → Expr → Prop
  | operand {e : Expr} : HoldsOperand false (.operand e) e
  | bare {word : Span} {name : Token} : HoldsOperand true (.constructor word name)
      (.construct (word.through name.span) (.identifier name.span name.text))

theorem HoldsOperand.step {bare : Bool} {mode : Mode} {e : Expr} (holds : HoldsOperand bare mode e)
    (frames : List Frame) {t : Token} (called : t.kind = .leftParen → bare = false) :
    mode.step frames t = afterOperand frames e t := by
  cases holds with
  | operand => rfl
  | bare =>
    have noCall : t.kind ≠ .leftParen := fun kind => by cases called kind
    simp only [Mode.step, if_neg noCall]

theorem HoldsOperand.delivers {bare : Bool} {mode : Mode} {e : Expr}
    (holds : HoldsOperand bare mode e) : mode.Delivers e := by
  intro frames t other
  simp only [List.mem_cons, List.not_mem_nil, or_false, not_or] at other
  rw [holds.step frames fun kind => absurd kind other.2.2]
  simp only [afterOperand]
  split
  · rename_i kind
    exact absurd kind other.1
  · rename_i kind
    exact absurd kind other.2.1
  · rename_i kind
    exact absurd kind other.2.2
  · rfl

/-- The reader gets through tokens to the end of an expression with a tree. -/
def ReadsTree (tokens : List Token) (tree : Expr) (holds : Mode → Expr → Prop) : Prop :=
  ∀ frames, ∃ mode e, Reaches .value frames tokens mode frames ∧ holds mode e ∧
    e.eraseSpans = tree

/-- A single token that is an operand. -/
theorem readsTree_single {t : Token} {e tree : Expr} (noSign : t.kind ≠ .plus ∧ t.kind ≠ .minus)
    (primary : ∀ frames, startPrimary frames t = .ok (.operand e, frames))
    (same : e.eraseSpans = tree) : ReadsTree [t] tree (HoldsOperand false) := by
  intro frames
  refine ⟨.operand e, e, .single ?_, .operand, same⟩
  rw [Mode.step, start, if_neg (by simp [noSign]), primary frames]
  rfl

end Mode

namespace Expr

@[simp] theorem eraseAll_append (first second : List Expr) :
    eraseAll (first ++ second) = eraseAll first ++ eraseAll second := by
  induction first with
  | nil => rfl
  | cons e first ih => simp only [List.cons_append, eraseAll, ih]

@[simp] theorem eraseProperties_append (first second : List Property) :
    eraseProperties (first ++ second) = eraseProperties first ++ eraseProperties second := by
  induction first with
  | nil => rfl
  | cons property first ih =>
    obtain ⟨key, span, value⟩ := property
    simp only [List.cons_append, eraseProperties, ih]

theorem eraseSpans_wordValue (span : Span) {text : String} {tree : Expr}
    (word : Grammar.Word text tree) :
    text ≠ "new" ∧ (Mode.wordValue span text).eraseSpans = tree := by
  cases word with
  | yes => exact ⟨by decide, rfl⟩
  | no => exact ⟨by decide, rfl⟩
  | null => exact ⟨by decide, rfl⟩
  | name plain =>
    simp only [List.mem_cons, List.not_mem_nil, or_false, not_or] at plain
    obtain ⟨noTrue, noFalse, noNull, noNew⟩ := plain
    exact ⟨noNew, by rw [Mode.wordValue, if_neg noTrue, if_neg noFalse, if_neg noNull, eraseSpans]⟩

end Expr

/-! Derivations are read -/

namespace Grammar

open Mode (Reaches ReadsTree HoldsOperand Delivers start startPrimary startProperty deliver
  afterOperand closeArray closeObject closeCall readsTree_single kind_of_value_step)

/-- Items of a list, and the token that closes it. -/
def ReadsList (tokens : List Token) (trees : List Expr) : Prop :=
  ∀ (list : OpenList) (earlier : List Expr) (frames : List Frame) (last : Token),
    last.kind = list.closing → ∃ items, Expr.eraseAll items = trees ∧
      Reaches .item (list.frame earlier :: frames) (tokens ++ [last])
        (.operand (list.close (items.reverse ++ earlier) last.span)) frames

/-- Members of an object, and the brace that closes it. -/
def ReadsObject (tokens : List Token) (trees : List Property) : Prop :=
  ∀ (opening : Span) (earlier : List Property) (frames : List Frame) (last : Token),
    last.kind = .rightBrace → ∃ properties, Expr.eraseProperties properties = trees ∧
      Reaches (.key opening earlier) frames (tokens ++ [last])
        (.operand (closeObject opening (properties.reverse ++ earlier) last.span)) frames

theorem Unsigned.read {sign number : Token} (isSign : sign.kind = .plus ∨ sign.kind = .minus)
    (unsigned : Unsigned number) (frames : List Frame) :
    Reaches .value frames [sign, number] (.complete (.number (sign.span.through number.span)
      (if sign.kind = .minus then "-" ++ number.text else number.text))) frames := by
  have first : Mode.value.step frames sign = .ok (.reading (.signed sign) frames) := by
    rw [Mode.step, start, if_pos isSign]
    rfl
  refine .step first (.single ?_)
  exact if_pos unsigned

theorem Signed.read {tokens : List Token} {tree : Expr} (signed : Signed tokens tree) :
    ReadsTree tokens tree fun mode e => mode = .complete e := by
  intro frames
  cases signed with
  | plus isSign unsigned =>
    exact ⟨_, _, unsigned.read (.inl isSign) frames, rfl, by simp [isSign, Expr.eraseSpans]⟩
  | minus isSign unsigned =>
    exact ⟨_, _, unsigned.read (.inr isSign) frames, rfl, by simp [isSign, Expr.eraseSpans]⟩

theorem step_paren {frames : List Frame} {t : Token} (left : t.kind = .leftParen) :
    Mode.value.step frames t = .ok (.reading .value (.group :: frames)) := by
  simp [Mode.step, start, startPrimary, left, Except.map]

theorem step_brace {frames : List Frame} {t : Token} (left : t.kind = .leftBrace) :
    Mode.value.step frames t = .ok (.reading (.key t.span []) frames) := by
  simp [Mode.step, start, startPrimary, left, Except.map]

theorem step_bracket {frames : List Frame} {t : Token} (left : t.kind = .leftBracket) :
    Mode.value.step frames t =
      .ok (.reading .item ((OpenList.array t.span).frame [] :: frames)) := by
  simp [Mode.step, start, startPrimary, left, OpenList.frame, Except.map]

theorem Constructs.read {word name : Token} (words : Constructs word name) (frames : List Frame) :
    Reaches .value frames [word, name] (.constructor word.span name) frames := by
  obtain ⟨isWord, isNew, isName⟩ := words
  have first : Mode.value.step frames word = .ok (.reading (.keyword word.span) frames) := by
    simp [Mode.step, start, startPrimary, isWord, isNew, Except.map]
  have second : (Mode.keyword word.span).step frames name =
      .ok (.reading (.constructor word.span name) frames) := by
    rw [Mode.step, if_pos isName]
  exact .step first (.single second)

theorem Key.step {t : Token} {name : String} (key : Key t name) (opening : Span)
    (earlier : List Property) (frames : List Frame) :
    (Mode.key opening earlier).step frames t =
      .ok (.reading (.colon opening earlier name t.span) frames) := by
  cases key with
  | plain kind => rcases kind with kind | kind <;> simp [Mode.step, startProperty, kind, Except.map]
  | quoted kind contents =>
    simp [Mode.step, startProperty, kind, Token.stringContents, contents, Except.map]

/-- The key and the colon of a member. -/
theorem Key.read {key colon : Token} {name : String} (isKey : Key key name)
    (isColon : colon.kind = .colon) (opening : Span) (earlier : List Property)
    (frames : List Frame) :
    Reaches (.key opening earlier) frames [key, colon] .value
      (.property opening earlier name key.span :: frames) := by
  refine .step (isKey.step opening earlier frames) (.single ?_)
  rw [Mode.step, if_pos isColon]

mutual

theorem Expression.read {tokens : List Token} {tree : Expr} :
    Expression tokens tree → ReadsTree tokens tree Delivers
  | .signed number => fun frames => by
    obtain ⟨mode, e, run, rfl, same⟩ := number.read frames
    exact ⟨_, e, run, fun _ _ _ => rfl, same⟩
  | .operand value => fun frames => by
    obtain ⟨mode, e, run, holds, same⟩ := value.read frames
    exact ⟨mode, e, run, holds.delivers, same⟩

theorem Operand.read {bare : Bool} {tokens : List Token} {tree : Expr} :
    Operand bare tokens tree → ReadsTree tokens tree (HoldsOperand bare)
  | .word (t := t) kind value => by
    obtain ⟨noNew, same⟩ := Expr.eraseSpans_wordValue t.span value
    exact readsTree_single (by simp [kind]) (fun frames => by simp [startPrimary, kind, noNew]) same
  | @Operand.string t text kind contents =>
    readsTree_single (e := .string t.span text) (by simp [kind])
      (fun frames => by simp [startPrimary, kind, Token.stringContents, contents, Except.map]) rfl
  | .number (t := t) kind =>
    readsTree_single (e := .number t.span t.text) (by simp [kind])
      (fun frames => by simp [startPrimary, kind]) rfl
  | .regex (t := t) kind =>
    readsTree_single (e := .regex t.span (splitRegex t.text).1 (splitRegex t.text).2)
      (by simp [kind])
      (fun frames => by simp [startPrimary, kind]) rfl
  | @Operand.group _ closing _ _ left inner right => fun frames => by
    obtain ⟨mode, e, run, delivers, same⟩ := inner.read (.group :: frames)
    have closed : mode.step (.group :: frames) closing = .ok (.reading (.operand e) frames) := by
      rw [delivers _ _ (by simp [right]), deliver, if_pos right]
    exact ⟨_, e, .step (step_paren left) (run.append (.single closed)), .operand, same⟩
  | @Operand.object opening _ _ _ left inner right => fun frames => by
    obtain ⟨properties, same, run⟩ := inner.read opening.span [] frames _ right
    refine ⟨_, _, .step (step_brace left) run, .operand, ?_⟩
    simp [closeObject, Expr.eraseSpans, same]
  | @Operand.array opening _ _ _ left inner right => fun frames => by
    obtain ⟨items, same, run⟩ := inner.read (.array opening.span) [] frames _ right
    refine ⟨_, _, .step (step_bracket left) run, .operand, ?_⟩
    simp [OpenList.close, closeArray, Expr.eraseSpans, same]
  | .construct words => fun frames => ⟨_, _, words.read frames, .bare, rfl⟩
  | @Operand.constructCall word name opening _ _ _ words left inner right =>
    fun frames => by
    have opened : (Mode.constructor word.span name).step frames opening = .ok (.reading .item
        ((OpenList.arguments (some word.span) (.identifier name.span name.text)).frame [] ::
          frames)) := by
      rw [Mode.step, if_pos left]
      rfl
    obtain ⟨items, same, run⟩ := inner.read
      (.arguments (some word.span) (.identifier name.span name.text)) [] frames _ right
    refine ⟨_, _, (words.read frames).append (.step opened run), .operand, ?_⟩
    simp [OpenList.close, closeCall, Expr.eraseSpans, same]
  | @Operand.member _ _ _ dot name target isDot isName => fun frames => by
    obtain ⟨mode, e, run, holds, same⟩ := target.read frames
    have first : mode.step frames dot = .ok (.reading (.member e) frames) := by
      rw [holds.step frames (by simp [isDot])]
      simp [afterOperand, isDot]
    have second : (Mode.member e).step frames name = .ok (.reading
        (.operand (.member (e.span.through name.span) e name.text)) frames) := by
      rw [Mode.step, if_pos isName]
    exact ⟨_, _, run.append (.step first (.single second)), .operand,
      by simp [Expr.eraseSpans, same]⟩
  | @Operand.index _ _ _ _ _ opening closing target left inner right => fun frames => by
    obtain ⟨mode, e, run, holds, same⟩ := target.read frames
    obtain ⟨last, position, more, delivers, alike⟩ := inner.read (.index e :: frames)
    have opened : mode.step frames opening = .ok (.reading .value (.index e :: frames)) := by
      rw [holds.step frames (by simp [left])]
      simp [afterOperand, left]
    have closed : last.step (.index e :: frames) closing = .ok (.reading
        (.operand (.index (e.span.through closing.span) e position)) frames) := by
      rw [delivers _ _ (by simp [right]), deliver, if_pos right]
    refine ⟨_, _, run.append (.step opened (more.append (.single closed))), .operand, ?_⟩
    simp [Expr.eraseSpans, same, alike]
  | @Operand.call _ _ _ _ opening _ target left inner right => fun frames => by
    obtain ⟨mode, e, run, holds, same⟩ := target.read frames
    have opened : mode.step frames opening =
        .ok (.reading .item ((OpenList.arguments none e).frame [] :: frames)) := by
      rw [holds.step frames fun _ => rfl]
      simp [afterOperand, left, OpenList.frame]
    obtain ⟨items, alike, more⟩ := inner.read (.arguments none e) [] frames _ right
    refine ⟨_, _, run.append (.step opened more), .operand, ?_⟩
    simp [OpenList.close, closeCall, Expr.eraseSpans, same, alike]

theorem Items.read {tokens : List Token} {trees : List Expr} :
    Items tokens trees → ReadsList tokens trees
  | .none => fun list earlier frames last closes =>
    ⟨[], rfl, .single (list.step_close earlier frames closes)⟩
  | .last item => fun list earlier frames last closes => by
    obtain ⟨mode, e, run, delivers, same⟩ := item.read (list.frame earlier :: frames)
    have closed : mode.step (list.frame earlier :: frames) last =
        .ok (.reading (.operand (list.close (e :: earlier) last.span)) frames) := by
      rw [delivers _ _ (by cases list <;> simp [closes, OpenList.closing]),
        list.deliver_close earlier frames e closes]
    refine ⟨[e], by simp [Expr.eraseAll, same], ?_⟩
    exact (run.expected (.inr rfl) item.ne_nil).append (.single closed)
  | @Items.more _ _ _ _ comma item isComma others => fun list earlier frames last closes => by
    obtain ⟨mode, e, run, delivers, same⟩ := item.read (list.frame earlier :: frames)
    obtain ⟨items, alike, more⟩ := others.read list (e :: earlier) frames last closes
    have parted : mode.step (list.frame earlier :: frames) comma =
        .ok (.reading .item (list.frame (e :: earlier) :: frames)) := by
      rw [delivers _ _ (by simp [isComma]), list.deliver_comma earlier frames e isComma]
    refine ⟨e :: items, by simp [Expr.eraseAll, same, alike], ?_⟩
    simpa using (run.expected (.inr rfl) item.ne_nil).append (.step parted more)

theorem Members.read {tokens : List Token} {trees : List Property} :
    Members tokens trees → ReadsObject tokens trees
  | .none => fun opening earlier frames last closes =>
    ⟨[], rfl, .single (by simp [Mode.step, startProperty, closes, Except.map])⟩
  | @Members.last _ _ key _ name isKey isColon value =>
    fun opening earlier frames last closes => by
    obtain ⟨mode, e, run, delivers, same⟩ :=
      value.read (.property opening earlier name key.span :: frames)
    have closed : mode.step (.property opening earlier name key.span :: frames) last =
        .ok (.reading (.operand (closeObject opening
          (.mk name (key.span.through e.span) e :: earlier) last.span)) frames) := by
      rw [delivers _ _ (by simp [closes])]
      simp [deliver, closes]
    refine ⟨[.mk name (key.span.through e.span) e], by simp [Expr.eraseProperties, same], ?_⟩
    exact (isKey.read isColon opening earlier frames).append (run.append (.single closed))
  | @Members.more _ _ _ _ key _ comma name isKey isColon value isComma others =>
    fun opening earlier frames last closes => by
    obtain ⟨mode, e, run, delivers, same⟩ :=
      value.read (.property opening earlier name key.span :: frames)
    obtain ⟨properties, alike, more⟩ :=
      others.read opening (.mk name (key.span.through e.span) e :: earlier) frames last closes
    have parted : mode.step (.property opening earlier name key.span :: frames) comma =
        .ok (.reading (.key opening (.mk name (key.span.through e.span) e :: earlier)) frames) := by
      rw [delivers _ _ (by simp [isComma])]
      simp [deliver, isComma]
    refine ⟨.mk name (key.span.through e.span) e :: properties,
      by simp [Expr.eraseProperties, same, alike], ?_⟩
    simpa using (isKey.read isColon opening earlier frames).append (run.append (.step parted more))

end

end Grammar

end MongoShell
