/-
PackageAudit.Proofs.Import.Statement — statements, and what phrases make of
their lines.

A statement is written on one line, in one of six forms, with a specifier in
quotes. The line is cut into what a phrase takes of it and what it passes over.
The phrase of the statement's kind takes all but the end of the line
(`Statement.exists_taken`); every other phrase is found nowhere in it
(`Statement.quiet_line`). Both are said of the line with anything behind it,
which is what lets lines be put below each other.
-/
import PackageAudit.Proofs.Import.Phrases

namespace PackageAudit.Import.Fallback

variable {p : Phrase String}

/-! ## 1. Statements -/

/-- A character of the names in a script. -/
def isBindingChar (c : Char) : Bool := Text.isWord c || c == '$'

/-- The name that an import gives to what it imports. -/
structure Binding where
  name : List Char
  nonempty : name ≠ []
  chars : ∀ c ∈ name, isBindingChar c = true

/-- The forms of statements. -/
inductive Form where
  | bare
  | named (binding : Binding)
  | star
  | dynamic
  | require
  | resolve

namespace Form

/-- The text in front of the specifier. -/
def opening : Form → List Char
  | bare => "import ".toList
  | named binding => "import ".toList ++ (binding.name ++ " from ".toList)
  | star => "export * from ".toList
  | dynamic => "import(".toList
  | require => "require(".toList
  | resolve => "require.resolve(".toList

/-- The text between the specifier and the semicolon. -/
def closing : Form → List Char
  | bare | named _ | star => []
  | dynamic | require | resolve => [')']

theorem eq_of_mem_closing {form : Form} {c : Char} (h : c ∈ form.closing) : c = ')' := by
  cases form with
  | bare | named _ | star => cases h
  | dynamic | require | resolve => exact List.mem_singleton.mp h

theorem eq_or_eq_of_mem_end {form : Form} {c : Char} (h : c ∈ form.closing ++ [';']) :
    c = ')' ∨ c = ';' := by
  rw [List.mem_append, List.mem_singleton] at h
  exact h.imp_left eq_of_mem_closing

theorem exists_opening (form : Form) :
    ∃ c rest, form.opening = c :: rest ∧ isBindingChar c = true := by
  cases form <;> exact ⟨_, _, rfl, rfl⟩

/-- The kind of reference. -/
def kind : Form → ImportKind
  | bare | named _ => .staticImport
  | star => .reExport
  | dynamic => .dynamicImport
  | require => .requireCall
  | resolve => .requireResolve

/-- The phrase that finds it. -/
def phrase : Form → Phrase String
  | bare | named _ => staticImport
  | star => reExport
  | dynamic => dynamicImport
  | require => requireCall
  | resolve => requireResolve

theorem kind_mem_phrases (form : Form) : form.kind ∈ phrases.map Prod.snd := by
  cases form <;> simp [phrases, kind]

theorem eq_phrase {form : Form} (h : (p, form.kind) ∈ phrases) : p = form.phrase := by
  simp only [phrases, List.mem_cons, List.not_mem_nil, or_false, Prod.mk.injEq] at h
  cases form <;> simpa [kind, phrase] using h

end Form

/-- A statement with a specifier of name characters, in single or double
quotes. -/
structure Statement where
  form : Form
  quote : Char
  specifier : List Char
  quoted : quote = '\'' ∨ quote = '"'
  nonempty : specifier ≠ []
  chars : ∀ c ∈ specifier, isNameChar c = true

namespace Statement

variable (s : Statement)

theorem quote_induction (P : Char → Prop) (single : P '\'') (double : P '"') : P s.quote :=
  s.quoted.elim (fun h => h ▸ single) fun h => h ▸ double

/-- The specifier in its quotes. -/
def quotedName : List Char := s.quote :: (s.specifier ++ [s.quote])

/-- The line of a statement, without its end. -/
def line : List Char := s.form.opening ++ (s.quotedName ++ (s.form.closing ++ [';']))

/-- Statements one per line. The last line may be ended. -/
def text (ended : Bool) (statements : List Statement) : List Char :=
  ['\n'].intercalate (statements.map line) ++ if ended then ['\n'] else []

example : text true [⟨.star, '"', "@a//b".toList, .inr rfl, by decide, List.all_eq_true.mp rfl⟩,
    ⟨.require, '\'', "import".toList, .inl rfl, by decide, List.all_eq_true.mp rfl⟩] =
      "export * from \"@a//b\";\nrequire('import');\n".toList := by
  decide

/-! ## 2. What phrases take -/

theorem quotedText?_eq {quotes excluded : List Char} (hquotes : '\'' ∈ quotes ∧ '"' ∈ quotes)
    (hexcluded : '\'' ∈ excluded ∧ '"' ∈ excluded)
    (hnames : excluded.any isNameChar = false) (rest : List Char) :
    quotedText? quotes excluded (s.quotedName ++ rest) =
      some (String.ofList s.specifier, s.quotedName.length) := by
  have hlength : s.quotedName.length = s.specifier.length + 2 := by simp [quotedName]
  rw [hlength, quotedName, List.cons_append, List.append_assoc, List.singleton_append]
  exact quotedText?_quoted (s.quote_induction (· ∈ quotes) hquotes.1 hquotes.2)
    (s.quote_induction (· ∈ excluded) hexcluded.1 hexcluded.2) s.nonempty fun c hc hmem =>
      List.any_eq_false.mp hnames c hmem (s.chars c hc)

theorem specifier?_eq (rest : List Char) :
    specifier? (s.quotedName ++ rest) = some (String.ofList s.specifier, s.quotedName.length) :=
  s.quotedText?_eq (by decide) (by decide) rfl rest

theorem argument?_eq (rest : List Char) :
    argument? (s.quotedName ++ rest) = some (String.ofList s.specifier, s.quotedName.length) :=
  s.quotedText?_eq (by decide) (by decide) rfl rest

theorem skipSpace_quotedName (rest : List Char) :
    skipSpace (s.quotedName ++ rest) = s.quotedName ++ rest := by
  rw [quotedName, List.cons_append, skipSpace, List.dropWhile_cons_of_neg]
  exact s.quote_induction (¬ Text.isSpace · = true) (by decide) (by decide)

/-- `import` and a clause take the specifier behind them. -/
theorem staticImport_eq {clause : List Char} (hclause : isClause clause = true)
    (hchars : clause.all isClauseChar = true) (rest : List Char) :
    staticImport ("import".toList ++ (clause ++ (s.quotedName ++ rest))) =
      some (String.ofList s.specifier, ("import".toList ++ (clause ++ s.quotedName)).length) := by
  have hbody : (clause ++ (s.quotedName ++ rest)).takeWhile isClauseChar = clause := by
    refine Text.takeWhile_append_stop (List.all_eq_true.mp hchars) fun c hc => ?_
    obtain rfl : s.quote = c := by simpa [quotedName] using hc
    exact s.quote_induction (isClauseChar · = false) rfl rfl
  unfold staticImport
  rw [Text.rest?_eq_some_iff.mpr rfl]
  dsimp only [Option.bind_eq_bind, Option.bind_some]
  rw [hbody, List.drop_left, s.specifier?_eq, guard, if_pos hclause, List.length_append,
    List.length_append, ← Nat.add_assoc]
  rfl

theorem isClause_binding (binding : Binding) :
    isClause (" ".toList ++ (binding.name ++ " from ".toList)) = true := by
  have hback : (Text.trimBack Text.isSpace
      (" ".toList ++ (binding.name ++ " from ".toList))).reverse =
        "morf ".toList ++ (binding.name.reverse ++ " ".toList) := by
    rw [Text.trimBack, List.reverse_reverse, List.reverse_append, List.reverse_append]
    rfl
  have hfrom : Text.rest? "morf".toList (Text.trimBack Text.isSpace
      (" ".toList ++ (binding.name ++ " from ".toList))).reverse =
        some (' ' :: (binding.name.reverse ++ " ".toList)) := by
    rw [hback]
    rfl
  rw [show " ".toList = [' '] from rfl, List.singleton_append] at hfrom ⊢
  rw [isClause, hfrom]
  simp [show Text.isSpace ' ' = true from rfl, show Text.isWord ' ' = false from rfl]

theorem all_isClauseChar_binding (binding : Binding) :
    (" ".toList ++ (binding.name ++ " from ".toList)).all isClauseChar = true := by
  have hname : binding.name.all isClauseChar = true := by
    refine List.all_eq_true.mpr fun c hc => ?_
    have hchar := binding.chars c hc
    rw [isBindingChar, Bool.or_eq_true] at hchar
    rcases hchar with h | h <;> simp [isClauseChar, h]
  rw [List.all_append, List.all_append, hname]
  rfl

theorem fromSpecifier_eq (rest : List Char) :
    fromSpecifier (" from ".toList ++ (s.quotedName ++ rest)) =
      some (String.ofList s.specifier, rest) := by
  have hspace : skipSpace (" ".toList ++ (s.quotedName ++ rest)) = s.quotedName ++ rest :=
    s.skipSpace_quotedName rest
  unfold fromSpecifier
  rw [show Text.rest? "from".toList (skipSpace (" from ".toList ++ (s.quotedName ++ rest))) =
    some (" ".toList ++ (s.quotedName ++ rest)) from rfl]
  dsimp only [Option.bind_eq_bind, Option.bind_some]
  rw [hspace, s.specifier?_eq, Option.bind_some, List.drop_left]
  rfl

/-- A star takes the specifier behind `from`. -/
theorem reExport_eq (rest : List Char) :
    reExport ("export * from ".toList ++ (s.quotedName ++ rest)) =
      some (String.ofList s.specifier, ("export * from ".toList ++ s.quotedName).length) := by
  rw [← taken_append ("export * from ".toList ++ s.quotedName) rest, List.append_assoc]
  calc reExport ("export * from ".toList ++ (s.quotedName ++ rest))
      = ((asSpecifier (" from ".toList ++ (s.quotedName ++ rest))).or
          (fromSpecifier (" from ".toList ++ (s.quotedName ++ rest)))).bind fun found =>
            some (found.1, taken ("export * from ".toList ++ (s.quotedName ++ rest)) found.2) := rfl
    _ = _ := by
      rw [show asSpecifier (" from ".toList ++ (s.quotedName ++ rest)) = none from rfl,
        Option.none_or, s.fromSpecifier_eq, Option.bind_some]

theorem firstArgument_eq (rest : List Char) :
    firstArgument ('(' :: (s.quotedName ++ rest)) = some (String.ofList s.specifier, rest) :=
  calc firstArgument ('(' :: (s.quotedName ++ rest))
      = (argument? (skipSpace (s.quotedName ++ rest))).bind fun found =>
          some (found.1, (skipSpace (s.quotedName ++ rest)).drop found.2) := rfl
    _ = some (String.ofList s.specifier, rest) := by
      rw [s.skipSpace_quotedName, s.argument?_eq, Option.bind_some, List.drop_left]

/-- A call is left with what stands behind its argument. -/
theorem bind_firstArgument_eq (word : List Char)
    (k : String × List Char → Option (String × Nat)) (rest : List Char) :
    ((Text.rest? word (word ++ '(' :: (s.quotedName ++ rest))).bind fun behind =>
        (firstArgument behind).bind k) = k (String.ofList s.specifier, rest) := by
  rw [Text.rest?_eq_some_iff.mpr rfl, Option.bind_some, s.firstArgument_eq, Option.bind_some]

theorem dynamicImport_eq (rest : List Char) :
    dynamicImport ("import(".toList ++ (s.quotedName ++ ')' :: rest)) =
      some (String.ofList s.specifier, ("import(".toList ++ (s.quotedName ++ [')'])).length) := by
  rw [← taken_append ("import(".toList ++ (s.quotedName ++ [')'])) rest, List.append_assoc,
    List.append_assoc]
  exact s.bind_firstArgument_eq "import".toList _ (')' :: rest)

theorem requireCall_eq (rest : List Char) :
    requireCall ("require(".toList ++ (s.quotedName ++ ')' :: rest)) =
      some (String.ofList s.specifier, ("require(".toList ++ (s.quotedName ++ [')'])).length) := by
  rw [← taken_append ("require(".toList ++ (s.quotedName ++ [')'])) rest, List.append_assoc,
    List.append_assoc]
  exact s.bind_firstArgument_eq "require".toList _ (')' :: rest)

theorem requireResolve_eq (rest : List Char) :
    requireResolve ("require.resolve(".toList ++ (s.quotedName ++ rest)) =
      some (String.ofList s.specifier, ("require.resolve(".toList ++ s.quotedName).length) := by
  rw [← taken_append ("require.resolve(".toList ++ s.quotedName) rest, List.append_assoc]
  exact s.bind_firstArgument_eq "require.resolve".toList _ rest

/-- The phrase of a statement takes its line but for the end. -/
theorem exists_taken (rest : List Char) :
    ∃ found back, s.line = found ++ back ∧ found ≠ [] ∧ back.any isNameChar = false ∧
      s.form.phrase (found ++ (back ++ rest)) = some (String.ofList s.specifier, found.length) := by
  unfold line
  cases s.form with
  | bare =>
    refine ⟨"import".toList ++ (" ".toList ++ s.quotedName), [';'], rfl, List.cons_ne_nil _ _,
      rfl, ?_⟩
    rw [List.append_assoc, List.append_assoc]
    exact s.staticImport_eq rfl rfl _
  | named binding =>
    refine ⟨"import".toList ++ ((" ".toList ++ (binding.name ++ " from ".toList)) ++ s.quotedName),
      [';'], ?_, List.cons_ne_nil _ _, rfl, ?_⟩
    · exact (List.append_assoc _ s.quotedName [';']).symm
    · rw [List.append_assoc, List.append_assoc]
      exact s.staticImport_eq (isClause_binding binding) (all_isClauseChar_binding binding) _
  | star =>
    refine ⟨"export * from ".toList ++ s.quotedName, [';'], rfl, List.cons_ne_nil _ _,
      rfl, ?_⟩
    rw [List.append_assoc]
    exact s.reExport_eq _
  | dynamic =>
    refine ⟨"import(".toList ++ (s.quotedName ++ [')']), [';'], ?_, List.cons_ne_nil _ _,
      rfl, ?_⟩
    · rw [List.append_assoc, List.append_assoc]
      rfl
    · rw [List.append_assoc, List.append_assoc]
      exact s.dynamicImport_eq _
  | require =>
    refine ⟨"require(".toList ++ (s.quotedName ++ [')']), [';'], ?_, List.cons_ne_nil _ _,
      rfl, ?_⟩
    · rw [List.append_assoc, List.append_assoc]
      rfl
    · rw [List.append_assoc, List.append_assoc]
      exact s.requireCall_eq _
  | resolve =>
    refine ⟨"require.resolve(".toList ++ s.quotedName, [')', ';'], rfl, List.cons_ne_nil _ _,
      rfl, ?_⟩
    rw [List.append_assoc]
    exact s.requireResolve_eq _

/-! ## 3. What phrases pass over -/

/-- No phrase begins in a specifier, in its quotes or behind them. -/
theorem quiet_quotedName (h : Opens p) (rest : List Char) :
    Quiet p rest (s.quotedName ++ (s.form.closing ++ [';'])) := by
  have hquote : isNameChar s.quote = false := s.quote_induction (isNameChar · = false) rfl rfl
  have hback : (s.quote :: (s.form.closing ++ [';'])).any isNameChar = false := by
    rw [List.any_cons, hquote]
    cases s.form <;> rfl
  rw [quotedName, List.cons_append, List.append_assoc, List.singleton_append]
  refine .cons (h.none_of_not_name hquote) (.append ?_ (h.quiet hback))
  exact h.quiet_name s.chars s.quoted

theorem quiet_of_opening (h : Opens p) (hopening : ∀ rest, Quiet p rest s.form.opening)
    (rest : List Char) : Quiet p rest s.line :=
  (hopening _).append (s.quiet_quotedName h rest)

/-- What holds of name characters and of the signs of statements holds of the
characters of a line, if it does of the opening. -/
theorem all_line {f : Char → Bool} (hname : ∀ c, isNameChar c = true → f c = true)
    (hsigns : ['\'', '"', ')', ';'].all f = true) (hopening : s.form.opening.all f = true) :
    s.line.all f = true := by
  rw [List.all_eq_true] at hsigns
  have hquote : f s.quote = true :=
    s.quote_induction (f · = true) (hsigns _ (by simp)) (hsigns _ (by simp))
  have hspecifier : s.specifier.all f = true :=
    List.all_eq_true.mpr fun c hc => hname c (s.chars c hc)
  have hclosing : s.form.closing.all f = true :=
    List.all_eq_true.mpr fun c hc => Form.eq_of_mem_closing hc ▸ hsigns _ (by simp)
  have hend : f ';' = true := hsigns _ (by simp)
  simp [line, quotedName, List.all_append, hopening, hquote, hspecifier, hclosing, hend]

theorem all_opening_named {binding : Binding} {f : Char → Bool}
    (hplain : ("import ".toList ++ " from ".toList).all f = true)
    (hname : ∀ c, isBindingChar c = true → f c = true) :
    (Form.named binding).opening.all f = true := by
  have hbinding : binding.name.all f = true :=
    List.all_eq_true.mpr fun c hc => hname c (binding.chars c hc)
  rw [List.all_append, Bool.and_eq_true] at hplain
  show ("import ".toList ++ (binding.name ++ " from ".toList)).all f = true
  rw [List.all_append, List.all_append, hplain.1, hbinding, hplain.2]
  rfl

theorem isPlain_of_class {f : Char → Bool} (hf : f '(' = false ∧ f '*' = false ∧ f '{' = false)
    {c : Char} (h : f c = true) : isPlain c = true := by
  simp [isPlain, ne_of_class f h hf.1, ne_of_class f h hf.2.1, ne_of_class f h hf.2.2]

/-- An import has no mark, so that no phrase for other statements is found in it. -/
theorem quiet_of_import (h : Reaches p) (hopening : s.form.opening.all isPlain = true)
    (rest : List Char) : Quiet p rest s.line := by
  have hline : s.line = (s.form.opening ++ (s.quotedName ++ s.form.closing)) ++ [';'] := by
    rw [line, List.append_assoc, List.append_assoc]
  have hplain := s.all_line (fun c => isPlain_of_class (by decide)) rfl hopening
  rw [hline] at hplain ⊢
  exact h.quiet hplain

/-- A phrase of another kind is found nowhere in the line of a statement. -/
theorem quiet_line {kind : ImportKind} (hp : (p, kind) ∈ phrases) (h : s.form.kind ≠ kind)
    (rest : List Char) : Quiet p rest s.line := by
  cases hform : s.form with
  | bare =>
    refine s.quiet_of_import (reaches_of_mem_phrases hp ?_) ?_ rest
    · rw [hform] at h
      exact h.symm
    · rw [hform]
      rfl
  | named binding =>
    refine s.quiet_of_import (reaches_of_mem_phrases hp ?_) ?_ rest
    · rw [hform] at h
      exact h.symm
    · rw [hform]
      exact all_opening_named rfl fun c => isPlain_of_class (by decide)
  | star | dynamic | require | resolve =>
    -- The openings are texts without variables, in which each phrase can be run.
    refine s.quiet_of_opening (opens_of_mem_phrases hp) (fun rest => ?_) rest
    rw [hform] at h ⊢
    simp only [phrases, List.mem_cons, List.not_mem_nil, or_false, Prod.mk.injEq] at hp
    rcases hp with ⟨rfl, rfl⟩ | ⟨rfl, rfl⟩ | ⟨rfl, rfl⟩ | ⟨rfl, rfl⟩ | ⟨rfl, rfl⟩
    all_goals first | exact absurd rfl h | repeat (first | exact .nil | refine .cons rfl ?_)

end Statement

end PackageAudit.Import.Fallback
