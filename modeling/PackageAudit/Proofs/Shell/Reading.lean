/-
PackageAudit.Proofs.Shell.Reading — the commands that a shell reads in a text.

A text is read character by character. Blanks end words and line ends end
commands; a number sign where a word could begin starts a comment, which ends
with the line; quotes and backslashes take the meaning from what they protect,
and are taken away. This is all that a script of plain commands consists of.
Whatever else means something to a shell (operators, expansions, patterns,
assignments, reserved words) is refused, so that a text of which commands are
read contains nothing but them.

Reading goes on from wherever it stands (`foldlM` over the characters), hence
a text is read chunk by chunk: words (`readsAs_encode`), lines of words
(`readsTo_words`), comments (`readsTo_comment`), lines one after the other
(`ReadsTo.append`). What was read before changes nothing (`readsTo_of_commands?`).
-/
import PackageAudit.Text.ShellWord
import Mathlib.Data.List.Forall2
import Mathlib.Data.List.TakeWhile
import Mathlib.Tactic.SplitIfs

namespace PackageAudit.Shell

/-! ## 1. The reader -/

/-- What the next character stands in. -/
inductive Mode where
  | plain
  | comment
  | singleQuotes
  | doubleQuotes
  | escape
  | escapeInQuotes
  deriving DecidableEq, Repr

/-- A reader between two characters: the commands that have ended, the words
of the next one that have ended, and the word that has begun. -/
structure Reader where
  mode : Mode := .plain
  commands : List (List String) := []
  words : List String := []
  word : Option (List Char) := none
  deriving DecidableEq, Repr

/-- A character that, unprotected, is an operator or asks for an expansion. -/
def isSpecial (c : Char) : Bool := "|&;()<>$`*?[]\x7b\x7d~!".toList.contains c

/-- Words that begin something other than a plain command. -/
def reservedWords : List String := [
  "if", "then", "else", "elif", "fi", "case", "esac", "for", "select", "while", "until", "do",
  "done", "in", "function", "time", "coproc"]

/-- The words are a plain command: the first one is neither reserved nor an
assignment. -/
def isCommand : List String → Bool
  | [] => false
  | w :: _ => !reservedWords.contains w && !w.toList.contains '='

namespace Reader

/-- A character of the word that has begun, or of a new one. -/
def push (r : Reader) (c : Char) : Reader := { r with word := some (r.word.getD [] ++ [c]) }

/-- Ends the word. -/
def endWord (r : Reader) : Reader :=
  match r.word with
  | none => r
  | some cs => { r with words := r.words ++ [String.ofList cs], word := none }

/-- Ends the command. A line without words is none. -/
def endCommand? (r : Reader) : Option Reader :=
  let words := r.endWord.words
  if words.isEmpty then some { commands := r.commands }
  else if isCommand words then some { commands := r.commands ++ [words] }
  else none

/-- A character outside of quotes. -/
def plainStep (r : Reader) (c : Char) : Option Reader :=
  if c == '\n' then r.endCommand?
  else if c == ' ' || c == '\t' then some r.endWord
  else if c == '#' && r.word.isNone then some { r with mode := .comment }
  else if c == '\'' then some { r with mode := .singleQuotes, word := some (r.word.getD []) }
  else if c == '"' then some { r with mode := .doubleQuotes, word := some (r.word.getD []) }
  else if c == '\\' then some { r with mode := .escape }
  else if isSpecial c then none
  else some (r.push c)

/-- A character between double quotes. -/
def quotedStep (r : Reader) (c : Char) : Option Reader :=
  if c == '"' then some { r with mode := .plain }
  else if c == '\\' then some { r with mode := .escapeInQuotes }
  else if "$`".toList.contains c then none
  else some (r.push c)

/-- A character behind a backslash between double quotes. The backslash
protects few characters; a line end is taken away with it. -/
def escapedStep (r : Reader) (c : Char) : Reader :=
  if c == '\n' then { r with mode := .doubleQuotes }
  else if "$`\"\\".toList.contains c then { r.push c with mode := .doubleQuotes }
  else { (r.push '\\').push c with mode := .doubleQuotes }

/-- One character. -/
def step (r : Reader) (c : Char) : Option Reader :=
  match r.mode with
  | .plain => r.plainStep c
  | .comment => if c == '\n' then r.endCommand? else some r
  | .singleQuotes => some (if c == '\'' then { r with mode := .plain } else r.push c)
  | .doubleQuotes => r.quotedStep c
  | .escape => some { (if c == '\n' then r else r.push c) with mode := .plain }
  | .escapeInQuotes => some (r.escapedStep c)

/-- Many characters. -/
def read (r : Reader) (cs : List Char) : Option Reader := cs.foldlM step r

/-- The end of the text, which ends the last command. Nothing may be open. -/
def finish? (r : Reader) : Option (List (List String)) :=
  if r.mode = .plain ∨ r.mode = .comment then r.endCommand?.map commands else none

end Reader

/-- The commands of a text, if it consists of plain commands. -/
def commands? (text : String) : Option (List (List String)) :=
  (Reader.read {} text.toList).bind Reader.finish?

/-! ## 2. Reading on -/

namespace Reader

@[simp] theorem read_nil (r : Reader) : r.read [] = some r := rfl

theorem read_cons (r : Reader) (c : Char) (cs : List Char) :
    r.read (c :: cs) = (r.step c).bind fun s => s.read cs := rfl

theorem read_append (r : Reader) (as bs : List Char) :
    r.read (as ++ bs) = (r.read as).bind fun s => s.read bs :=
  List.foldlM_append

/-- The reader with other commands before those that it has read. -/
def behind (done : List (List String)) (r : Reader) : Reader :=
  { r with commands := done ++ r.commands }

@[simp] theorem behind_mode (done : List (List String)) (r : Reader) :
    (r.behind done).mode = r.mode := rfl

@[simp] theorem behind_word (done : List (List String)) (r : Reader) :
    (r.behind done).word = r.word := rfl

theorem endWord_behind (done : List (List String)) (r : Reader) :
    (r.behind done).endWord = r.endWord.behind done := by
  rw [endWord, endWord, behind_word]
  cases r.word <;> rfl

theorem endCommand?_behind (done : List (List String)) (r : Reader) :
    (r.behind done).endCommand? = r.endCommand?.map (behind done) := by
  have hwords : (r.endWord.behind done).words = r.endWord.words := rfl
  rw [endCommand?, endCommand?, endWord_behind, hwords]
  split
  · rfl
  split
  · simp [behind]
  · rfl

theorem plainStep_behind (done : List (List String)) (r : Reader) (c : Char) :
    (r.behind done).plainStep c = (r.plainStep c).map (behind done) := by
  rw [plainStep, plainStep, endCommand?_behind, endWord_behind, behind_word]
  split_ifs <;> rfl

theorem quotedStep_behind (done : List (List String)) (r : Reader) (c : Char) :
    (r.behind done).quotedStep c = (r.quotedStep c).map (behind done) := by
  rw [quotedStep, quotedStep]
  split_ifs <;> rfl

theorem escapedStep_behind (done : List (List String)) (r : Reader) (c : Char) :
    (r.behind done).escapedStep c = (r.escapedStep c).behind done := by
  rw [escapedStep, escapedStep]
  split_ifs <;> rfl

/-- What was read before changes nothing. -/
theorem step_behind (done : List (List String)) (r : Reader) (c : Char) :
    (r.behind done).step c = (r.step c).map (behind done) := by
  rw [step, step, behind_mode]
  cases r.mode with
  | plain => exact plainStep_behind done r c
  | comment =>
    dsimp only
    rw [endCommand?_behind]
    split <;> rfl
  | singleQuotes =>
    dsimp only
    split <;> rfl
  | doubleQuotes => exact quotedStep_behind done r c
  | escape =>
    dsimp only
    split <;> rfl
  | escapeInQuotes => exact congrArg some (escapedStep_behind done r c)

theorem read_behind (done : List (List String)) (r : Reader) (cs : List Char) :
    (r.behind done).read cs = (r.read cs).map (behind done) := by
  induction cs generalizing r with
  | nil => rfl
  | cons c cs ih =>
    rw [read_cons, read_cons, step_behind]
    cases r.step c with
    | none => rfl
    | some s => exact ih s

end Reader

/-! ## 3. Words -/

/-- Where a word can begin, the characters are read as that word. -/
def ReadsAs (cs word : List Char) : Prop :=
  ∀ r : Reader, r.mode = .plain → r.word = none → r.read cs = some { r with word := some word }

theorem not_mem_of_isHarmless {c : Char} (h : Text.ShellWord.isHarmless c = true)
    {marks : List Char} (hmarks : marks.all (!Text.ShellWord.isHarmless ·) = true) : c ∉ marks := by
  intro hc
  have hharmful := List.all_eq_true.mp hmarks c hc
  rw [h] at hharmful
  cases hharmful

theorem isSpecial_of_isHarmless {c : Char} (h : Text.ShellWord.isHarmless c = true) :
    isSpecial c = false := by
  rw [isSpecial, Bool.eq_false_iff, ne_eq, List.contains_iff_mem]
  exact not_mem_of_isHarmless h (by decide)

theorem plainStep_of_isHarmless {c : Char} (h : Text.ShellWord.isHarmless c = true) (r : Reader) :
    r.plainStep c = some (r.push c) := by
  have hne : c ∉ ['\n', ' ', '\t', '#', '\'', '"', '\\'] := not_mem_of_isHarmless h (by decide)
  simp only [List.mem_cons, List.not_mem_nil, or_false, not_or] at hne
  obtain ⟨hline, hblank, htab, hnumber, hsingle, hdouble, hbackslash⟩ := hne
  simp [Reader.plainStep, isSpecial_of_isHarmless h, hline, hblank, htab, hnumber, hsingle, hdouble,
    hbackslash]

theorem step_of_isHarmless {r : Reader} (hmode : r.mode = .plain) {c : Char}
    (h : Text.ShellWord.isHarmless c = true) : r.step c = some (r.push c) := by
  rw [Reader.step, hmode]
  exact plainStep_of_isHarmless h r

/-- Harmless characters go on a word that has begun. -/
theorem read_harmless {r : Reader} {before cs : List Char} (hmode : r.mode = .plain)
    (hword : r.word = some before) (h : ∀ c ∈ cs, Text.ShellWord.isHarmless c = true) :
    r.read cs = some { r with word := some (before ++ cs) } := by
  induction cs generalizing r before with
  | nil => simp [← hword]
  | cons c cs ih =>
    rw [List.forall_mem_cons] at h
    have hplain : (r.push c).mode = .plain := hmode
    have hpush : (r.push c).word = some (before ++ [c]) := by simp [Reader.push, hword]
    rw [Reader.read_cons, step_of_isHarmless hmode h.1, Option.bind_some, ih hplain hpush h.2]
    simp [Reader.push]

/-- Harmless characters stand for themselves. -/
theorem readsAs_harmless {cs : List Char} (hne : cs ≠ [])
    (h : ∀ c ∈ cs, Text.ShellWord.isHarmless c = true) : ReadsAs cs cs := by
  intro r hmode hword
  obtain ⟨c, cs, rfl⟩ := List.exists_cons_of_ne_nil hne
  rw [List.forall_mem_cons] at h
  have hplain : (r.push c).mode = .plain := hmode
  have hpush : (r.push c).word = some [c] := by simp [Reader.push, hword]
  rw [Reader.read_cons, step_of_isHarmless hmode h.1, Option.bind_some,
    read_harmless hplain hpush h.2]
  rfl

/-- What stands between single quotes stands for itself, and a quote in it is
written by leaving them. -/
theorem read_innerQuotes (r : Reader) (before cs : List Char) :
    Reader.read { r with mode := .singleQuotes, word := some before }
        (Text.replaceChar '\'' Text.ShellWord.innerQuote cs) =
      some { r with mode := .singleQuotes, word := some (before ++ cs) } := by
  induction cs generalizing before with
  | nil => simp [Text.replaceChar]
  | cons c cs ih =>
    have hstep : Reader.read { r with mode := .singleQuotes, word := some before }
        (if c == '\'' then Text.ShellWord.innerQuote else [c]) =
          some { r with mode := .singleQuotes, word := some (before ++ [c]) } := by
      by_cases hc : c = '\''
      · subst hc
        rfl
      · simp [hc, Reader.read_cons, Reader.step, Reader.push]
    rw [Text.replaceChar, List.flatMap_cons, Reader.read_append, hstep, Option.bind_some]
    rw [Text.replaceChar] at ih
    rw [ih, List.append_assoc]
    rfl

/-- **Quoting.** The word that stands for a text is read as that text. -/
theorem readsAs_encode (s : String) : ReadsAs (Text.ShellWord.encode s).toList s.toList := by
  rw [Text.ShellWord.encode]
  split
  · rename_i hempty
    rw [String.isEmpty_iff.mp hempty]
    intro r hmode hword
    simp [Reader.read_cons, Reader.step, Reader.plainStep, hmode, hword]
  · rename_i hne
    have hnil : s.toList ≠ [] := by
      rw [ne_eq, String.toList_eq_nil_iff, ← String.isEmpty_iff]
      exact hne
    split
    · rename_i hall
      exact readsAs_harmless hnil (List.all_eq_true.mp hall)
    · intro r hmode hword
      have hopen : r.step '\'' = some { r with mode := .singleQuotes, word := some [] } := by
        simp [Reader.step, Reader.plainStep, hmode, hword]
      have hinner := read_innerQuotes r [] s.toList
      simp only [String.toList_append, String.toList_ofList, Reader.read_append]
      rw [show "'".toList = ['\''] from rfl, Reader.read_cons, hopen]
      simp [hinner, Reader.read_cons, Reader.step, hmode]

/-- A character that stands for itself between double quotes. -/
def isLiteral (c : Char) : Bool := !"\"\\$`".toList.contains c

theorem read_literal (r : Reader) (before : List Char) {cs : List Char}
    (h : cs.all isLiteral = true) :
    Reader.read { r with mode := .doubleQuotes, word := some before } cs =
      some { r with mode := .doubleQuotes, word := some (before ++ cs) } := by
  induction cs generalizing before with
  | nil => simp
  | cons c cs ih =>
    rw [List.all_cons, Bool.and_eq_true] at h
    have hc : c ∉ ['"', '\\', '$', '`'] := by simpa [isLiteral] using h.1
    simp only [List.mem_cons, List.not_mem_nil, or_false, not_or] at hc
    obtain ⟨hquote, hbackslash, hdollar, htick⟩ := hc
    have hstep : Reader.step { r with mode := .doubleQuotes, word := some before } c =
        some { r with mode := .doubleQuotes, word := some (before ++ [c]) } := by
      simp [Reader.step, Reader.quotedStep, Reader.push, hquote, hbackslash, hdollar, htick]
    rw [Reader.read_cons, hstep, Option.bind_some, ih _ h.2, List.append_assoc]
    rfl

/-- Between double quotes a text without marks of its own stands for itself. -/
theorem readsAs_doubleQuotes {cs : List Char} (h : cs.all isLiteral = true) :
    ReadsAs ('"' :: cs ++ ['"']) cs := by
  intro r hmode hword
  have hopen : r.step '"' = some { r with mode := .doubleQuotes, word := some [] } := by
    simp [Reader.step, Reader.plainStep, hmode, hword]
  rw [List.cons_append, Reader.read_cons, hopen, Option.bind_some, Reader.read_append,
    read_literal r [] h]
  simp [Reader.read_cons, Reader.step, Reader.quotedStep, hmode]

/-! ## 4. Lines -/

/-- Lines are read as commands, and nothing is open behind them. -/
def ReadsTo (cs : List Char) (commands : List (List String)) : Prop :=
  Reader.read {} cs = some { commands }

theorem ReadsTo.append {as bs : List Char} {before after : List (List String)}
    (ha : ReadsTo as before) (hb : ReadsTo bs after) : ReadsTo (as ++ bs) (before ++ after) := by
  have hbehind := Reader.read_behind before {} bs
  rw [hb] at hbehind
  rw [ReadsTo, Reader.read_append, ha]
  simpa [Reader.behind] using hbehind

/-- The words of a line go behind those read before it, and its end ends the command. -/
theorem read_words {texts : List (List Char)} {words : List String}
    (h : List.Forall₂ (fun text word => ReadsAs text word.toList) texts words)
    (hne : texts ≠ []) (before : List String) :
    Reader.read { words := before } ([' '].intercalate texts ++ ['\n']) =
      Reader.endCommand? { words := before ++ words } := by
  induction h generalizing before with
  | nil => exact absurd rfl hne
  | @cons text word texts words hword hrest ih =>
    have hfirst := hword { words := before } rfl rfl
    cases hrest with
    | nil =>
      have hline : Reader.step { words := before, word := some word.toList } '\n' =
          Reader.endCommand? { words := before ++ [word] } := by
        simp only [Reader.step, Reader.plainStep, Reader.endCommand?, Reader.endWord,
          String.ofList_toList, beq_self_eq_true, if_true]
        rfl
      rw [List.intercalate_singleton, Reader.read_append, hfirst, Option.bind_some,
        Reader.read_cons, hline]
      simp
    | cons hsecond hmore =>
      have hblank : Reader.step { words := before, word := some word.toList } ' ' =
          some { words := before ++ [word] } := by
        simp [Reader.step, Reader.plainStep, Reader.endWord]
      rw [List.intercalate_cons_cons, List.append_assoc, List.append_assoc, Reader.read_append,
        hfirst, Option.bind_some, List.singleton_append, Reader.read_cons, hblank,
        Option.bind_some, ih (List.cons_ne_nil _ _) (before ++ [word])]
      simp

/-- Words with blanks between them are read as a command. -/
theorem readsTo_words {texts : List (List Char)} {words : List String}
    (h : List.Forall₂ (fun text word => ReadsAs text word.toList) texts words)
    (hcommand : isCommand words = true) : ReadsTo ([' '].intercalate texts ++ ['\n']) [words] := by
  have hne : words ≠ [] := by
    rintro rfl
    cases hcommand
  have htexts : texts ≠ [] := by
    rintro rfl
    cases h
    exact hne rfl
  rw [ReadsTo, read_words h htexts []]
  simp [Reader.endCommand?, Reader.endWord, hne, hcommand]

theorem read_insideComment {cs : List Char} (h : '\n' ∉ cs) :
    Reader.read { mode := .comment } cs = some { mode := .comment } := by
  induction cs with
  | nil => rfl
  | cons c cs ih =>
    rw [List.mem_cons, not_or] at h
    have hstep : Reader.step { mode := .comment } c = some { mode := .comment } := by
      simp [Reader.step, Ne.symm h.1]
    rw [Reader.read_cons, hstep, Option.bind_some, ih h.2]

/-- Nothing is read in a comment. -/
theorem readsTo_comment {cs : List Char} (h : '\n' ∉ cs) : ReadsTo ('#' :: cs ++ ['\n']) [] := by
  have hopen : Reader.step {} '#' = some { mode := .comment } := rfl
  rw [ReadsTo, List.cons_append, Reader.read_cons, hopen, Option.bind_some, Reader.read_append,
    read_insideComment h]
  rfl

/-- What is read of a whole text is read of it as lines of a longer one. -/
theorem readsTo_of_commands? {text : String} {commands : List (List String)}
    (h : commands? text = some commands) : ReadsTo (text.toList ++ ['\n']) commands := by
  obtain ⟨r, hr, hfinish⟩ := Option.bind_eq_some_iff.mp h
  rw [Reader.finish?] at hfinish
  split at hfinish
  · rename_i hmode
    obtain ⟨s, hs, rfl⟩ := Option.map_eq_some_iff.mp hfinish
    have hline : r.step '\n' = r.endCommand? := by
      rcases hmode with hmode | hmode <;> simp [Reader.step, Reader.plainStep, hmode]
    have hclean : s = { commands := s.commands } := by
      rw [Reader.endCommand?] at hs
      split_ifs at hs <;> cases hs <;> rfl
    rw [ReadsTo, Reader.read_append, hr, Option.bind_some, Reader.read_cons, hline, hs, ← hclean]
    rfl
  · cases hfinish

theorem commands?_of_readsTo {text : String} {commands : List (List String)}
    (h : ReadsTo text.toList commands) : commands? text = some commands := by
  rw [commands?, h]
  rfl

/-- A text behind the mark of a comment: only its first line is one. -/
theorem readsTo_commented (front : String) {text : String} {commands : List (List String)}
    (hfront : '\n' ∉ front.toList)
    (h : commands? (String.ofList (Text.cutAt '\n' text.toList).2) = some commands) :
    ReadsTo (("#" ++ front ++ text).toList ++ ['\n']) commands := by
  have hsplit := List.takeWhile_append_dropWhile (p := (· != '\n')) (l := text.toList)
  have hfirst : '\n' ∉ front.toList ++ text.toList.takeWhile (· != '\n') := by
    intro hmem
    rcases List.mem_append.mp hmem with hmem | hmem
    · exact hfront hmem
    · simpa using List.mem_takeWhile_imp hmem
  have hcomment := readsTo_comment hfirst
  rw [String.toList_append, String.toList_append, ← hsplit]
  rw [Text.cutAt] at h
  cases hlater : text.toList.dropWhile (· != '\n') with
  | nil =>
    rw [hlater] at h
    obtain rfl : [] = commands := Option.some.inj h
    simpa using hcomment
  | cons c later =>
    have hc : c = '\n' := by
      have := List.head?_dropWhile_not (· != '\n') text.toList
      rw [hlater] at this
      simpa using this
    subst hc
    rw [hlater] at h
    have hrest := readsTo_of_commands? h
    rw [String.toList_ofList] at hrest
    have hboth := hcomment.append hrest
    simpa using hboth

/-! ## 5. Scripts -/

/-- The text of lines, each with its end. -/
def lineText (lines : List String) : List Char := lines.flatMap fun l => l.toList ++ ['\n']

@[simp] theorem lineText_append (lines more : List String) :
    lineText (lines ++ more) = lineText lines ++ lineText more :=
  List.flatMap_append

theorem toList_intercalate_lines (lines : List String) :
    ("\n".intercalate (lines ++ [""])).toList = lineText lines := by
  induction lines with
  | nil => rfl
  | cons line lines ih =>
    obtain ⟨next, more, hmore⟩ : ∃ next more, lines ++ [""] = next :: more := by
      cases lines with
      | nil => exact ⟨"", [], rfl⟩
      | cons next lines => exact ⟨next, lines ++ [""], rfl⟩
    rw [List.cons_append, hmore, String.intercalate_cons_cons, ← hmore, String.toList_append, ih]
    simp [lineText]

/-- The words that stand for texts are read as the command of these texts. -/
theorem readsTo_encoded {words : List String} (hcommand : isCommand words = true) :
    ReadsTo (lineText [" ".intercalate (words.map Text.ShellWord.encode)]) [words] := by
  have hwords : List.Forall₂ (fun text word => ReadsAs text word.toList)
      ((words.map Text.ShellWord.encode).map String.toList) words := by
    rw [List.map_map, List.forall₂_map_left_iff, List.forall₂_same]
    exact fun word _ => readsAs_encode word
  have hread := readsTo_words hwords hcommand
  rw [lineText, List.flatMap_singleton, String.toList_intercalate]
  exact hread

end PackageAudit.Shell
