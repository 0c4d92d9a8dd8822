import MongoShell.Proofs.Expr.Reading

/-! What is read is derived by the grammar. At any point of a reading the tokens so far are those
that opened the frames, from the outermost to the innermost, and those that led to the mode; one
more token keeps this so, or finds that the tokens so far are an expression as a whole. Together
with the converse the reader accepts the grammar's expressions and no others, and gives back their
trees. -/

namespace MongoShell

open MongoShell.Expr (nowhere eraseAll eraseProperties)
open Grammar

/-! The tokens behind an open frame -/

namespace OpenList

/-- The tokens of a list through its opening mark. -/
def Opens : OpenList → List Token → Prop
  | array _, tokens => ∃ t, tokens = [t] ∧ t.kind = .leftBracket
  | arguments none callee, tokens =>
    ∃ target t, tokens = target ++ [t] ∧ Operand false target callee.eraseSpans ∧
      t.kind = .leftParen
  | arguments (some _) callee, tokens =>
    ∃ word name t, tokens = [word, name, t] ∧ Constructs word name ∧ t.kind = .leftParen ∧
      callee.eraseSpans = .identifier nowhere name.text

/-- The tokens of a list through the comma behind the last of some items. -/
def Opened (list : OpenList) (items : List Expr) (tokens : List Token) : Prop :=
  ∃ opening inner, tokens = opening ++ inner ∧ list.Opens opening ∧
    LeadingItems inner (eraseAll items.reverse)

theorem Opens.closes {list : OpenList} {opening tokens : List Token} {items : List Expr}
    {last : Token} (opens : list.Opens opening) (inner : Items tokens (eraseAll items.reverse))
    (right : last.kind = list.closing) :
    Operand false (opening ++ (tokens ++ [last])) (list.close items last.span).eraseSpans := by
  match list, opens with
  | array _, ⟨t, same, left⟩ =>
    subst same
    exact .array left inner right
  | arguments none callee, ⟨target, t, same, value, left⟩ =>
    subst same
    rw [List.append_assoc]
    exact .call value left inner right
  | arguments (some _) callee, ⟨word, name, t, same, words, left, named⟩ =>
    subst same
    simp only [close, Mode.closeCall, Expr.eraseSpans, named]
    exact .constructCall words left inner right

theorem Opened.closes {list : OpenList} {items : List Expr} {tokens : List Token} {last : Token}
    (opened : list.Opened items tokens) (right : last.kind = list.closing) :
    Operand false (tokens ++ [last]) (list.close items last.span).eraseSpans := by
  obtain ⟨opening, inner, rfl, opens, leading⟩ := opened
  have all : Items inner (eraseAll items.reverse) := by simpa using leading.append .none
  rw [List.append_assoc]
  exact opens.closes all right

theorem Opened.closes_item {list : OpenList} {items : List Expr} {tokens more : List Token}
    {e : Expr} {last : Token} (opened : list.Opened items tokens)
    (item : Expression more e.eraseSpans)
    (right : last.kind = list.closing) :
    Operand false (tokens ++ (more ++ [last])) (list.close (e :: items) last.span).eraseSpans := by
  obtain ⟨opening, inner, rfl, opens, leading⟩ := opened
  have all : Items (inner ++ more) (eraseAll (e :: items).reverse) := by
    simpa [eraseAll] using leading.append (.last item)
  simpa using opens.closes all right

theorem Opened.item {list : OpenList} {items : List Expr} {tokens more : List Token} {e : Expr}
    {comma : Token} (opened : list.Opened items tokens) (item : Expression more e.eraseSpans)
    (isComma : comma.kind = .comma) :
    list.Opened (e :: items) (tokens ++ (more ++ [comma])) := by
  obtain ⟨opening, inner, rfl, opens, leading⟩ := opened
  refine ⟨opening, inner ++ (more ++ [comma]), by simp, opens, ?_⟩
  simpa [eraseAll] using leading.snoc item isComma

end OpenList

/-- The tokens of an object through the comma behind the last of some members. -/
def OpenedObject (earlier : List Property) (tokens : List Token) : Prop :=
  ∃ t members, tokens = t :: members ∧ t.kind = .leftBrace ∧
    LeadingMembers members (eraseProperties earlier.reverse)

/-- The tokens of an object through the colon of a member. -/
def OpenedMember (earlier : List Property) (name : String) (tokens : List Token) : Prop :=
  ∃ object key colon, tokens = object ++ [key, colon] ∧ OpenedObject earlier object ∧
    Key key name ∧ colon.kind = .colon

theorem OpenedObject.closes {earlier : List Property} {tokens : List Token} {opening : Span}
    {last : Token} (opened : OpenedObject earlier tokens) (right : last.kind = .rightBrace) :
    Operand false (tokens ++ [last])
      (Mode.closeObject opening earlier last.span).eraseSpans := by
  obtain ⟨t, members, rfl, left, leading⟩ := opened
  have all : Members members (eraseProperties earlier.reverse) := by
    simpa using leading.append .none
  exact .object left all right

theorem OpenedMember.closes {earlier : List Property} {name : String} {span opening : Span}
    {tokens more : List Token} {e : Expr} {last : Token}
    (opened : OpenedMember earlier name tokens) (value : Expression more e.eraseSpans)
    (right : last.kind = .rightBrace) :
    Operand false (tokens ++ (more ++ [last]))
      (Mode.closeObject opening (.mk name span e :: earlier) last.span).eraseSpans := by
  obtain ⟨-, key, colon, rfl, ⟨t, members, rfl, left, leading⟩, isKey, isColon⟩ := opened
  have all : Members (members ++ key :: colon :: more)
      (eraseProperties (.mk name span e :: earlier).reverse) := by
    simpa [eraseProperties] using leading.append (.last isKey isColon value)
  simpa [Mode.closeObject, Expr.eraseSpans] using Operand.object left all right

theorem OpenedMember.member {earlier : List Property} {name : String} {span : Span}
    {tokens more : List Token} {e : Expr} {comma : Token}
    (opened : OpenedMember earlier name tokens) (value : Expression more e.eraseSpans)
    (isComma : comma.kind = .comma) :
    OpenedObject (.mk name span e :: earlier) (tokens ++ (more ++ [comma])) := by
  obtain ⟨-, key, colon, rfl, ⟨t, members, rfl, left, leading⟩, isKey, isColon⟩ := opened
  refine ⟨t, members ++ key :: colon :: (more ++ [comma]), by simp, left, ?_⟩
  simpa [eraseProperties] using leading.snoc isKey isColon value isComma

/-- The tokens from the opening of a frame up to the value that is read in it. -/
def Frame.Opened : Frame → List Token → Prop
  | .group, tokens => ∃ t, tokens = [t] ∧ t.kind = .leftParen
  | .array opening elements, tokens => (OpenList.array opening).Opened elements tokens
  | .arguments word callee values, tokens =>
    (OpenList.arguments word callee).Opened values tokens
  | .property _ earlier name _, tokens => OpenedMember earlier name tokens
  | .index target, tokens =>
    ∃ bare inner t, tokens = inner ++ [t] ∧ Operand bare inner target.eraseSpans ∧
      t.kind = .leftBracket

/-- The tokens that opened some frames. -/
def Surrounds : List Frame → List Token → Prop
  | [], tokens => tokens = []
  | frame :: frames, tokens =>
    ∃ outer own, tokens = outer ++ own ∧ Surrounds frames outer ∧ frame.Opened own

theorem OpenList.opened_frame {list : OpenList} {items : List Expr} {tokens : List Token} :
    (list.frame items).Opened tokens ↔ list.Opened items tokens := by
  cases list <;> rfl

namespace Mode

/-- The tokens that led to a mode since the innermost frame was opened. -/
def LedTo : Mode → List Token → Prop
  | value, tokens | item, tokens => tokens = []
  | signed sign, tokens => tokens = [sign] ∧ (sign.kind = .plus ∨ sign.kind = .minus)
  | operand e, tokens => Operand false tokens e.eraseSpans
  | complete e, tokens => Signed tokens e.eraseSpans
  | member target, tokens =>
    ∃ bare inner dot, tokens = inner ++ [dot] ∧ Operand bare inner target.eraseSpans ∧
      dot.kind = .dot
  | keyword _, tokens => ∃ word, tokens = [word] ∧ word.kind = .identifier ∧ word.text = "new"
  | constructor _ name, tokens => ∃ word, tokens = [word, name] ∧ Constructs word name
  | key _ earlier, tokens => OpenedObject earlier tokens
  | colon _ earlier name _, tokens =>
    ∃ object key, tokens = object ++ [key] ∧ OpenedObject earlier object ∧ Key key name

/-- The tokens read so far are accounted for by a mode and its frames. -/
def Accounts (mode : Mode) (frames : List Frame) (tokens : List Token) : Prop :=
  ∃ outer own, tokens = outer ++ own ∧ Surrounds frames outer ∧ mode.LedTo own

end Mode

/-- What one more token has come to accounts for the tokens before it and for itself. -/
def Progress.Accounts (tokens : List Token) (t : Token) : Progress → Prop
  | .reading mode frames => mode.Accounts frames (tokens ++ [t])
  | .finished e => Whole tokens t e.eraseSpans

/-! One token further -/

namespace Mode

/-- Two lists of tokens, of which the first opened the frames and the second led to a mode that goes
on reading, account for the reading. -/
theorem accounts_of {mode : Mode} {frames : List Frame} {tokens outer : List Token}
    (own : List Token) (same : tokens = outer ++ own) (surrounds : Surrounds frames outer)
    (led : mode.LedTo own) : mode.Accounts frames tokens := ⟨outer, own, same, surrounds, led⟩

/-- A new frame that holds nothing yet but what opened it. -/
theorem accounts_frame {mode : Mode} {frame : Frame} {frames : List Frame}
    {tokens outer : List Token} (own : List Token) (same : tokens = outer ++ own)
    (surrounds : Surrounds frames outer) (opened : frame.Opened own) (led : mode.LedTo []) :
    mode.Accounts (frame :: frames) tokens :=
  ⟨tokens, [], by simp, ⟨outer, own, same, surrounds, opened⟩, led⟩

theorem wordTree {span : Span} {text : String} (noNew : text ≠ "new") :
    Word text (wordValue span text).eraseSpans := by
  unfold wordValue
  split
  · rename_i yes
    subst yes
    exact .yes
  split
  · rename_i no
    subst no
    exact .no
  split
  · rename_i null
    subst null
    exact .null
  · rename_i noTrue noFalse noNull
    exact .name (by simp [noTrue, noFalse, noNull, noNew])

theorem startPrimary_accounts {frames others : List Frame} {outer : List Token} {t : Token}
    {mode : Mode} (surrounds : Surrounds frames outer)
    (started : startPrimary frames t = .ok (mode, others)) :
    mode.Accounts others (outer ++ [t]) := by
  unfold startPrimary at started
  split at started
  · rename_i kind
    split at started
    · rename_i isNew
      cases started
      exact accounts_of _ rfl surrounds ⟨t, rfl, kind, isNew⟩
    · rename_i noNew
      cases started
      exact accounts_of _ rfl surrounds (.word kind (wordTree noNew))
  · rename_i kind
    obtain ⟨text, read, same⟩ := (Outcome.map_eq_ok _ _ _).mp started
    cases same
    unfold Token.stringContents at read
    split at read
    · rename_i contents
      cases read
      exact accounts_of _ rfl surrounds (.string kind contents)
    · cases read
  · rename_i kind
    cases started
    exact accounts_of _ rfl surrounds (.number kind)
  · rename_i kind
    cases started
    exact accounts_of _ rfl surrounds (.regex kind)
  · rename_i kind
    cases started
    exact accounts_of _ rfl surrounds ⟨t, [], rfl, kind, .none⟩
  · rename_i kind
    cases started
    exact accounts_frame _ rfl surrounds ⟨[t], [], rfl, ⟨t, rfl, kind⟩, .none⟩ rfl
  · rename_i kind
    cases started
    exact accounts_frame _ rfl surrounds ⟨t, rfl, kind⟩ rfl
  · cases started

theorem start_accounts {frames others : List Frame} {outer : List Token} {t : Token} {mode : Mode}
    (surrounds : Surrounds frames outer) (started : start frames t = .ok (mode, others)) :
    mode.Accounts others (outer ++ [t]) := by
  unfold start at started
  split at started
  · rename_i isSign
    cases started
    exact accounts_of _ rfl surrounds ⟨rfl, isSign⟩
  · exact startPrimary_accounts surrounds started

theorem startItem_accounts {frames others : List Frame} {outer : List Token} {t : Token}
    {mode : Mode} (surrounds : Surrounds frames outer)
    (started : startItem frames t = .ok (mode, others)) : mode.Accounts others (outer ++ [t]) := by
  unfold startItem at started
  split at started
  · rename_i opening elements frames closes
    obtain ⟨outer, own, rfl, surrounds, opened⟩ := surrounds
    cases started
    rw [List.append_assoc]
    have opened : (OpenList.array opening).Opened elements own := opened
    exact accounts_of _ rfl surrounds (opened.closes closes)
  · rename_i word callee values frames closes
    obtain ⟨outer, own, rfl, surrounds, opened⟩ := surrounds
    cases started
    rw [List.append_assoc]
    have opened : (OpenList.arguments word callee).Opened values own := opened
    exact accounts_of _ rfl surrounds (opened.closes closes)
  · exact start_accounts surrounds started

theorem startProperty_accounts {opening : Span} {earlier : List Property} {frames : List Frame}
    {outer own : List Token} {t : Token} {mode : Mode} (surrounds : Surrounds frames outer)
    (opened : OpenedObject earlier own) (started : startProperty opening earlier t = .ok mode) :
    mode.Accounts frames (outer ++ own ++ [t]) := by
  rw [List.append_assoc]
  unfold startProperty at started
  split at started
  · rename_i kind
    cases started
    exact accounts_of _ rfl surrounds (opened.closes kind)
  · rename_i kind
    cases started
    exact accounts_of _ rfl surrounds ⟨own, t, rfl, opened, .plain (.inl kind)⟩
  · rename_i kind
    cases started
    exact accounts_of _ rfl surrounds ⟨own, t, rfl, opened, .plain (.inr kind)⟩
  · rename_i kind
    obtain ⟨text, read, same⟩ := (Outcome.map_eq_ok _ _ _).mp started
    cases same
    unfold Token.stringContents at read
    split at read
    · rename_i contents
      cases read
      exact accounts_of _ rfl surrounds ⟨own, t, rfl, opened, .quoted kind contents⟩
    · cases read
  · cases started

/-- A list takes an item: a comma keeps it open, and the closing mark closes it. -/
theorem deliver_list_accounts (list : OpenList) {items : List Expr} {frames : List Frame} {e : Expr}
    {outer own : List Token} {t : Token} {progress : Progress}
    (surrounds : Surrounds (list.frame items :: frames) outer)
    (value : Expression own e.eraseSpans) (kind : t.kind = .comma ∨ t.kind = list.closing)
    (done : deliver (list.frame items :: frames) e t = .ok progress) :
    progress.Accounts (outer ++ own) t := by
  obtain ⟨before, opening, rfl, surrounds, opened⟩ := surrounds
  have opened := OpenList.opened_frame.mp opened
  have same : before ++ opening ++ own ++ [t] = before ++ (opening ++ (own ++ [t])) := by simp
  rcases kind with isComma | closes
  · rw [list.deliver_comma items frames e isComma] at done
    cases done
    have opened := OpenList.opened_frame.mpr (opened.item value isComma)
    exact accounts_frame _ same surrounds opened rfl
  · rw [list.deliver_close items frames e closes] at done
    cases done
    exact accounts_of _ same surrounds (opened.closes_item value closes)

theorem deliver_accounts {frames : List Frame} {e : Expr} {outer own : List Token} {t : Token}
    {progress : Progress} (surrounds : Surrounds frames outer) (whole : Whole own t e.eraseSpans)
    (done : deliver frames e t = .ok progress) : progress.Accounts (outer ++ own) t := by
  have value := whole.expression
  cases frames with
  | nil =>
    cases surrounds
    cases done
    exact whole
  | cons frame frames =>
    cases frame with
    | group =>
      obtain ⟨before, -, rfl, surrounds, opening, rfl, left⟩ := surrounds
      simp only [deliver] at done
      split at done
      · rename_i right
        cases done
        exact accounts_of (opening :: (own ++ [t])) (by simp) surrounds
          (.group left value right)
      · cases done
    | index target =>
      obtain ⟨before, -, rfl, surrounds, bare, inner, opening, rfl, object, left⟩ := surrounds
      simp only [deliver] at done
      split at done
      · rename_i right
        cases done
        exact accounts_of (inner ++ opening :: (own ++ [t])) (by simp) surrounds
          (.index object left value right)
      · cases done
    | array opening elements =>
      refine deliver_list_accounts (.array opening) surrounds value ?_ done
      simp only [deliver] at done
      by_contra other
      simp only [OpenList.closing, not_or] at other
      simp [other] at done
    | arguments word callee values =>
      refine deliver_list_accounts (.arguments word callee) surrounds value ?_ done
      simp only [deliver] at done
      by_contra other
      simp only [OpenList.closing, not_or] at other
      simp [other] at done
    | property opening earlier name span =>
      obtain ⟨before, member, rfl, surrounds, opened⟩ := surrounds
      have same : before ++ member ++ own ++ [t] = before ++ (member ++ (own ++ [t])) := by simp
      simp only [deliver] at done
      split at done
      · rename_i isComma
        cases done
        exact accounts_of _ same surrounds (opened.member value isComma)
      split at done
      · rename_i right
        cases done
        exact accounts_of _ same surrounds (opened.closes value right)
      · cases done

theorem afterOperand_accounts {bare : Bool} {frames : List Frame} {e : Expr}
    {outer own : List Token} {t : Token} {progress : Progress} (surrounds : Surrounds frames outer)
    (value : Operand bare own e.eraseSpans) (called : t.kind = .leftParen → bare = false)
    (done : afterOperand frames e t = .ok progress) : progress.Accounts (outer ++ own) t := by
  have same : outer ++ own ++ [t] = outer ++ (own ++ [t]) := List.append_assoc _ _ _
  unfold afterOperand at done
  split at done
  · rename_i kind
    cases done
    exact accounts_of _ same surrounds ⟨bare, own, t, rfl, value, kind⟩
  · rename_i kind
    cases done
    exact accounts_frame _ same surrounds ⟨bare, own, t, rfl, value, kind⟩ rfl
  · rename_i kind
    cases done
    rw [called kind] at value
    refine accounts_frame _ same surrounds ?_ rfl
    exact ⟨own ++ [t], [], by simp, ⟨own, t, rfl, value, kind⟩, .none⟩
  · rename_i noDot noIndex noCall
    have ends : t.kind ∉ [.dot, .leftBracket, .leftParen] := by
      simp only [List.mem_cons, List.not_mem_nil, or_false, not_or]
      exact ⟨noDot, noIndex, noCall⟩
    exact deliver_accounts surrounds (.inr ⟨⟨bare, value⟩, ends⟩) done

/-- One token further, the tokens are still accounted for. -/
theorem step_accounts {mode : Mode} {frames : List Frame} {tokens : List Token} {t : Token}
    {progress : Progress} (accounts : mode.Accounts frames tokens)
    (done : mode.step frames t = .ok progress) : progress.Accounts tokens t := by
  obtain ⟨outer, own, rfl, surrounds, led⟩ := accounts
  cases mode with
  | value =>
    obtain ⟨⟨next, others⟩, started, rfl⟩ := (Outcome.map_eq_ok _ _ _).mp done
    cases led
    rw [List.append_nil]
    exact start_accounts surrounds started
  | item =>
    obtain ⟨⟨next, others⟩, started, rfl⟩ := (Outcome.map_eq_ok _ _ _).mp done
    cases led
    rw [List.append_nil]
    exact startItem_accounts surrounds started
  | signed sign =>
    obtain ⟨rfl, isSign⟩ := led
    simp only [step] at done
    split at done
    · rename_i unsigned
      cases done
      refine accounts_of [sign, t] (by simp) surrounds ?_
      rcases isSign with isPlus | isMinus
      · have tree : Signed [sign, t] _ := .plus isPlus unsigned
        simpa [LedTo, Expr.eraseSpans, isPlus] using tree
      · have tree : Signed [sign, t] _ := .minus isMinus unsigned
        simpa [LedTo, Expr.eraseSpans, isMinus] using tree
    · cases done
  | operand e => exact afterOperand_accounts surrounds led (fun _ => rfl) done
  | complete e => exact deliver_accounts surrounds (.inl led) done
  | member target =>
    obtain ⟨bare, inner, dot, rfl, value, isDot⟩ := led
    simp only [step] at done
    split at done
    · rename_i isName
      cases done
      exact accounts_of (inner ++ [dot, t]) (by simp) surrounds (.member value isDot isName)
    · cases done
  | keyword span =>
    obtain ⟨word, rfl, isWord, isNew⟩ := led
    simp only [step] at done
    split at done
    · rename_i isName
      cases done
      exact accounts_of [word, t] (by simp) surrounds ⟨word, rfl, isWord, isNew, isName⟩
    · cases done
  | constructor span name =>
    obtain ⟨word, rfl, words⟩ := led
    simp only [step] at done
    split at done
    · rename_i left
      cases done
      refine accounts_frame [word, name, t] (by simp) surrounds ?_ rfl
      exact ⟨[word, name, t], [], rfl, ⟨word, name, t, rfl, words, left, rfl⟩, .none⟩
    · rename_i noCall
      exact afterOperand_accounts surrounds (.construct words) (fun left => absurd left noCall) done
  | key opening earlier =>
    obtain ⟨next, started, rfl⟩ := (Outcome.map_eq_ok _ _ _).mp done
    exact startProperty_accounts surrounds led started
  | colon opening earlier name span =>
    obtain ⟨object, key, rfl, opened, isKey⟩ := led
    simp only [step] at done
    split at done
    · rename_i isColon
      cases done
      exact accounts_frame (object ++ [key, t]) (by simp) surrounds
        ⟨object, key, t, rfl, opened, isKey, isColon⟩ rfl
    · cases done

/-- What a reading ends with is an expression as a whole, of all tokens up to where it ends. -/
theorem run_whole {mode : Mode} {frames : List Frame} {before rest behind : List Token} {e : Expr}
    (accounts : mode.Accounts frames before) (done : mode.run frames rest = .ok (e, behind)) :
    ∃ more next tail, rest = more ++ behind ∧ behind = next :: tail ∧
      Whole (before ++ more) next e.eraseSpans := by
  induction rest generalizing mode frames before with
  | nil => cases done
  | cons t rest ih =>
    unfold run at done
    split at done
    · cases done
    · rename_i stepped
      obtain ⟨more, next, tail, rfl, same, whole⟩ := ih (step_accounts accounts stepped) done
      exact ⟨t :: more, next, tail, rfl, same, by simpa using whole⟩
    · rename_i stepped
      cases done
      have whole : Whole before t e.eraseSpans := step_accounts accounts stepped
      exact ⟨[], t, rest, rfl, rfl, by simpa using whole⟩

end Mode

/-! The reader against the grammar -/

/-- The first tokens of a list, so many of them, are an expression as a whole. -/
def Grammar.Leads (tokens : List Token) (count : Nat) (tree : Expr) : Prop :=
  ∃ next, tokens[count]? = some next ∧ Whole (tokens.take count) next tree

/-- The reader gets through the tokens of an expression as a whole, and the next token ends it. -/
theorem Grammar.Whole.reaches {tokens : List Token} {next : Token} {tree : Expr}
    (whole : Whole tokens next tree) :
    ∃ mode e, Mode.Reaches .value [] tokens mode [] ∧ mode.step [] next = .ok (.finished e) ∧
      e.eraseSpans = tree := by
  rcases whole with number | ⟨⟨bare, value⟩, ends⟩
  · obtain ⟨mode, e, run, rfl, same⟩ := number.read []
    exact ⟨_, e, run, rfl, same⟩
  · obtain ⟨mode, e, run, holds, same⟩ := value.read []
    exact ⟨mode, e, run, holds.delivers [] next ends, same⟩

namespace Expr

/-- An expression as a whole is read, and nothing behind it is looked at but the next token. -/
theorem read_of_whole {tokens : List Token} {next : Token} {tree : Expr}
    (whole : Whole tokens next tree) (tail : List Token) :
    ∃ e, read (tokens ++ next :: tail) = .ok (e, next :: tail) ∧ e.eraseSpans = tree := by
  obtain ⟨mode, e, run, finished, same⟩ := whole.reaches
  refine ⟨e, ?_, same⟩
  rw [read, run.run_append, Mode.run, finished]

theorem whole_of_read {tokens behind : List Token} {e : Expr}
    (done : read tokens = .ok (e, behind)) :
    ∃ before next tail, tokens = before ++ behind ∧ behind = next :: tail ∧
      Whole before next e.eraseSpans := by
  have nothing : Mode.value.Accounts [] [] := ⟨[], [], rfl, rfl, rfl⟩
  exact Mode.run_whole nothing done

theorem read_of_leads {tokens : List Token} {count : Nat} {tree : Expr}
    (leads : Leads tokens count tree) :
    ∃ e, read tokens = .ok (e, tokens.drop count) ∧ e.eraseSpans = tree := by
  obtain ⟨next, found, whole⟩ := leads
  obtain ⟨inside, rfl⟩ := List.getElem?_eq_some_iff.mp found
  obtain ⟨e, done, same⟩ := read_of_whole whole (tokens.drop (count + 1))
  rw [← List.drop_eq_getElem_cons inside, List.take_append_drop] at done
  exact ⟨e, done, same⟩

theorem leads_of_read {tokens behind : List Token} {e : Expr}
    (done : read tokens = .ok (e, behind)) :
    ∃ count, behind = tokens.drop count ∧ count < tokens.length ∧
      Leads tokens count e.eraseSpans := by
  obtain ⟨before, next, tail, rfl, rfl, whole⟩ := whole_of_read done
  refine ⟨before.length, by simp, by simp, next, by simp, ?_⟩
  rw [List.take_left]
  exact whole

/-- Reading from the front of any list of tokens takes a number of them and gives a tree, places
apart, exactly if so many tokens derive the tree and the next one does not go on with it; it fails
exactly if no number of tokens does; and there is never more than one such number or tree. -/
theorem read_iff_leads (tokens : List Token) :
    (∀ count tree, (∃ e, read tokens = .ok (e, tokens.drop count) ∧ count < tokens.length ∧
        e.eraseSpans = tree) ↔ Leads tokens count tree) ∧
      ((∃ fault, read tokens = .error fault) ↔ ¬∃ count tree, Leads tokens count tree) ∧
      ∀ count other tree another, Leads tokens count tree → Leads tokens other another →
        count = other ∧ tree = another := by
  have within {count : Nat} {tree : Expr} (leads : Leads tokens count tree) :
      count < tokens.length := by
    obtain ⟨next, found, -⟩ := leads
    exact (List.getElem?_eq_some_iff.mp found).1
  have counted {count other : Nat} (inside : count < tokens.length) (alike : other < tokens.length)
      (same : tokens.drop count = tokens.drop other) : count = other := by
    have lengths := congrArg List.length same
    simp only [List.length_drop] at lengths
    omega
  refine ⟨fun count tree => ⟨?_, fun leads => ?_⟩, ⟨?_, fun none => ?_⟩, ?_⟩
  · rintro ⟨e, done, inside, rfl⟩
    obtain ⟨taken, same, alike, leads⟩ := leads_of_read done
    rwa [counted inside alike same]
  · obtain ⟨e, done, same⟩ := read_of_leads leads
    exact ⟨e, done, within leads, same⟩
  · rintro ⟨fault, failed⟩ ⟨count, tree, leads⟩
    obtain ⟨e, done, -⟩ := read_of_leads leads
    rw [failed] at done
    cases done
  · cases done : read tokens with
    | error fault => exact ⟨fault, rfl⟩
    | ok result =>
      obtain ⟨e, behind⟩ := result
      obtain ⟨count, -, -, leads⟩ := leads_of_read done
      exact absurd ⟨count, _, leads⟩ none
  · intro count other tree another first second
    obtain ⟨e, done, same⟩ := read_of_leads first
    obtain ⟨d, again, alike⟩ := read_of_leads second
    rw [done, Except.ok.injEq, Prod.mk.injEq] at again
    obtain ⟨rfl, behind⟩ := again
    exact ⟨counted (within first) (within second) behind, same.symm.trans alike⟩

end Expr

end MongoShell
