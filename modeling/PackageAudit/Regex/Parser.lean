/-
PackageAudit.Regex.Parser — reading patterns.

A pattern is first cut into marks: single characters, and escapes of a
backslash and the character behind it. The parser looks one mark ahead; a
backslash at the end of the pattern is refused as soon as it comes into
sight, before anything else is said about the mark in front of it.

Flags at the start of a pattern hold for all of it, flags of a group for
that group. Names of characters are not known.
-/
import PackageAudit.Regex.Basic
import PackageAudit.Regex.Error
import PackageAudit.Text.Cut

namespace PackageAudit.Regex

/-! ## 1. Marks -/

/-- The marks of a pattern. A backslash at the end is a mark of its own. -/
def marks : List Char → List (List Char)
  | [] => []
  | ['\\'] => [['\\']]
  | '\\' :: c :: cs => ['\\', c] :: marks cs
  | c :: cs => [c] :: marks cs

/-- What flags change. -/
structure Flags where
  letters : Letters := {}
  multiline : Bool := false
  dotAll : Bool := false
  verbose : Bool := false
  deriving DecidableEq, BEq, Repr, Inhabited

/-- The state of the parser: the marks ahead, the position of the first of
them, the number of groups so far, their names, the widths of the groups that
are closed, the groups that stood before the outermost open look behind, the
groups that conditions refer to, and the flags of the whole pattern. -/
structure State where
  marks : List (List Char)
  position : Nat := 0
  groups : Nat := 0
  names : Table Nat := []
  widths : List (Nat × Width) := []
  lookBehindGroups : Option Nat := none
  conditions : List (Nat × Nat) := []
  flags : Flags := {}
  unicode : Bool := false
  variableLookBehind : Bool := false
  deriving Inhabited

/-- A step of the parser: a fault has a position. -/
abbrev Step := StateT State (Except (Fault × Nat))

/-- A fault at the next mark, or so many characters before it. -/
def fail {α : Type} (fault : Fault) (back : Nat := 0) : Step α := do
  throw (fault, (← get).position - back)

/-- A fault at a position. -/
def failAt {α : Type} (fault : Fault) (position : Nat) : Step α := throw (fault, position)

/-- The next mark. -/
def peek : Step (Option (List Char)) := do return (← get).marks.head?

/-- Refuses a backslash that ends the pattern. -/
def checkNext : Step Unit := do
  if (← peek) == some ['\\'] then fail .escapeAtEnd

/-- Takes the next mark. -/
def next : Step (Option (List Char)) := do
  match (← get).marks with
  | [] => return none
  | m :: ms =>
    modify fun s => { s with marks := ms, position := s.position + m.length }
    checkNext
    return some m

/-- Takes the next mark if it is a given character. -/
def accept (c : Char) : Step Bool := do
  if (← peek) == some [c] then
    let _ ← next
    return true
  else return false

/-- The next mark is one of the given characters. -/
def sees (p : Char → Bool) : Step Bool := do
  match ← peek with
  | some [c] => return p c
  | _ => return false

/-- Takes up to a number of characters with a property. -/
def takeUpTo (p : Char → Bool) : Nat → Step (List Char)
  | 0 => return []
  | n + 1 => do
    match ← peek with
    | some [c] =>
      if p c then
        let _ ← next
        return c :: (← takeUpTo p n)
      else return []
    | _ => return []

/-- Takes all characters with a property. -/
def takeAll (p : Char → Bool) : Step (List Char) := do takeUpTo p (← get).marks.length

/-- The text of the marks before a closing character, which is taken too. -/
def takeUntil (closing : Char) (what : String) : Nat → List Char → Step (List Char)
  | 0, _ => fail (.missingName what)
  | fuel + 1, acc => do
    match ← next with
    | none =>
      if acc.isEmpty then fail (.missingName what)
      else fail (.unterminatedName closing) acc.length
    | some m =>
      if m == [closing] then
        if acc.isEmpty then fail (.missingName what) 1 else return acc
      else takeUntil closing what fuel (acc ++ m)

/-- A name up to a closing character. -/
def nameUntil (closing : Char) (what : String) : Step (List Char) := do
  takeUntil closing what ((← get).marks.length + 1) []

/-! ## 2. Escapes -/

/-- An octal digit. -/
def isOctal (c : Char) : Bool := '0' ≤ c && c ≤ '7'

/-- A hexadecimal digit. -/
def isHex (c : Char) : Bool := c.isDigit || ('a' ≤ c && c ≤ 'f') || ('A' ≤ c && c ≤ 'F')

/-- The value of a hexadecimal digit. -/
def hexValue (c : Char) : Nat :=
  if c.isDigit then c.toNat - 48 else (c.toLower.toNat - 97) + 10

/-- The number that digits write. -/
def numberOf (radix : Nat) (ds : List Char) : Nat :=
  ds.foldl (fun n c => radix * n + hexValue c) 0

/-- Control characters with a letter of their own. -/
def controlCode? : Char → Option Nat
  | 'a' => some 7
  | 'b' => some 8
  | 'f' => some 12
  | 'n' => some 10
  | 'r' => some 13
  | 't' => some 9
  | 'v' => some 11
  | '\\' => some 92
  | _ => none

/-- Classes with a letter of their own. -/
def classItem? : Char → Option CharItem
  | 'd' => some (.ofClass .digit false)
  | 'D' => some (.ofClass .digit true)
  | 's' => some (.ofClass .space false)
  | 'S' => some (.ofClass .space true)
  | 'w' => some (.ofClass .word false)
  | 'W' => some (.ofClass .word true)
  | _ => none

/-- A fault about the escape that has just been taken. -/
def escapeFault {α : Type} (fault : String → Fault) (escape : List Char) : Step α :=
  fail (fault (String.ofList escape)) escape.length

/-- The code of an escape with a fixed number of hexadecimal digits. -/
def hexCode (letter : Char) (count : Nat) : Step Nat := do
  let ds ← takeUpTo isHex count
  let escape := '\\' :: letter :: ds
  if ds.length != count then escapeFault .incompleteEscape escape
  let n := numberOf 16 ds
  if n > 0x10FFFF then escapeFault .badEscape escape
  return n

/-- An escape by the name of a character. -/
def namedCode : Step Nat := do
  if !(← accept '\x7b') then fail .missingBrace
  let name ← nameUntil '\x7d' "character name"
  fail (.unknownCharacterName (String.ofList name)) (name.length + 4)

/-- The code of an escape that is written with `x`, `u`, `U` or `N`. -/
def codeEscape? (c : Char) : Step (Option Nat) := do
  match c with
  | 'x' => return some (← hexCode 'x' 2)
  | 'u' => return some (← hexCode 'u' 4)
  | 'U' => return some (← hexCode 'U' 8)
  | 'N' => return some (← namedCode)
  | _ => return none

/-- A character that stands for itself behind a backslash: no letter and no
digit. -/
def plainEscape (c : Char) : Step Nat := do
  if c.isAlphanum then escapeFault .badEscape ['\\', c]
  return c.toNat

/-- An escape between brackets. -/
def setEscape (c : Char) : Step CharItem := do
  if let some n := controlCode? c then return .code n
  if let some i := classItem? c then return i
  if let some n ← codeEscape? c then return .code n
  if isOctal c then
    let ds := c :: (← takeUpTo isOctal 2)
    let n := numberOf 8 ds
    if n > 255 then escapeFault .octalTooLarge ('\\' :: ds)
    return .code n
  return .code (← plainEscape c)

/-- A group may be referred to: it is closed, and not part of the same look
behind. -/
def checkLookBehind (index : Nat) : Step Unit := do
  let s ← get
  match s.lookBehindGroups with
  | none => return ()
  | some before =>
    if (s.widths.lookup index).isNone then fail .openGroup
    if index > before then fail .lookBehindGroup

/-- A reference to a group by its number, or a code of three octal digits.
The first digit has been taken. -/
def numberEscape (flags : Flags) (c : Char) : Step Regex := do
  let second ← takeUpTo Char.isDigit 1
  let third ← if isOctal c && second.all isOctal && !second.isEmpty then takeUpTo isOctal 1
    else pure []
  let escape := '\\' :: c :: (second ++ third)
  if !third.isEmpty then
    let n := numberOf 8 (c :: (second ++ third))
    if n > 255 then escapeFault .octalTooLarge escape
    return .char { items := [.code n], letters := flags.letters }
  else
    let index := numberOf 10 (c :: second)
    let s ← get
    if index > s.groups then fail (.unknownGroup index) (escape.length - 1)
    if (s.widths.lookup index).isNone then fail .openGroup escape.length
    checkLookBehind index
    return .backreference index flags.letters

/-- An escape outside brackets. -/
def escape (flags : Flags) (c : Char) : Step Regex := do
  let one := fun (i : CharItem) => Regex.char { items := [i], letters := flags.letters }
  match c with
  | 'A' => return .anchor .textStart
  | 'Z' => return .anchor .textEnd
  | 'b' => return .anchor (.boundary false flags.letters.ascii)
  | 'B' => return .anchor (.boundary true flags.letters.ascii)
  | _ =>
    if let some i := classItem? c then return one i
    if let some n := controlCode? c then return one (.code n)
    if let some n ← codeEscape? c then return one (.code n)
    if c == '0' then
      return one (.code (numberOf 8 (← takeUpTo isOctal 2)))
    if c.isDigit then numberEscape flags c
    else return one (.code (← plainEscape c))

/-! ## 3. Sets -/

/-- One member of a set: its item and its text. -/
def setMember (mark : List Char) : Step CharItem := do
  match mark with
  | ['\\', c] => setEscape c
  | c :: _ => return .code c.toNat
  | [] => return .code 0

/-- The items of a set up to its bracket. `start` is the position of the
opening one. -/
def setItems (start : Nat) : Nat → List CharItem → Step (List CharItem)
  | 0, _ => failAt .unclosedSet start
  | fuel + 1, acc => do
    match ← next with
    | none => failAt .unclosedSet start
    | some mark =>
      if mark == [']'] && !acc.isEmpty then return acc.reverse
      let low ← setMember mark
      if !(← accept '-') then setItems start fuel (low :: acc)
      else match ← next with
        | none => failAt .unclosedSet start
        | some [']'] => return (.code '-'.toNat :: low :: acc).reverse
        | some other =>
          let high ← setMember other
          let bad : Step (List CharItem) :=
            fail (.badRange (String.ofList mark) (String.ofList other))
              (mark.length + 1 + other.length)
          match low, high with
          | .code a, .code b =>
            if b < a then bad else setItems start fuel (.range a b :: acc)
          | _, _ => bad

/-- A set whose opening bracket has been taken. -/
def charSet (flags : Flags) (start : Nat) : Step Regex := do
  let negated ← accept '^'
  let items ← setItems start ((← get).marks.length + 1) []
  return .char { items, negated, letters := flags.letters }

/-! ## 4. Flags -/

/-- The letters of flags. -/
def isFlag (c : Char) : Bool := "iLmsxatu".toList.contains c

/-- The fault of a mark that should be a flag. -/
def flagFault (mark : List Char) (otherwise : Fault) : Fault :=
  match mark with
  | [c] => if c.isAlpha || (c.toNat > 127 && Text.isWord c && !Text.isDigitLike c) then .unknownFlag
    else otherwise
  | _ => otherwise

/-- The letters of flags up to one of the closing characters, which is taken
too. `first` is the first letter. -/
def flagLetters (closing : Char → Bool) (atEnd : Fault) (check : List Char → Char → Step Unit) :
    Nat → List Char → Char → Step (List Char × Char)
  | 0, _, _ => fail atEnd
  | fuel + 1, acc, flag => do
    check acc flag
    match ← next with
    | none => fail atEnd
    | some mark =>
      match mark with
      | [c] =>
        if closing c then return (flag :: acc, c)
        else if isFlag c then flagLetters closing atEnd check fuel (flag :: acc) c
        else fail (flagFault mark atEnd) 1
      | _ => fail (flagFault mark atEnd) mark.length

/-- A flag that is turned on: at most one of `a` and `u`, and never `L`. -/
def checkFlagOn (before : List Char) (flag : Char) : Step Unit := do
  if flag == 'L' then fail .localeFlag
  if (flag == 'a' && before.contains 'u') || (flag == 'u' && before.contains 'a') then
    fail .incompatibleFlags

/-- A flag that is turned off. -/
def checkFlagOff (_ : List Char) (flag : Char) : Step Unit := do
  if flag == 'L' || flag == 'a' || flag == 'u' then fail .typeFlagOff

/-- Flags with some turned on and some turned off. -/
def Flags.change (f : Flags) (on off : List Char) : Flags :=
  let set := fun (c : Char) (b : Bool) => (b || on.contains c) && !off.contains c
  { letters := {
      ignoreCase := set 'i' f.letters.ignoreCase
      ascii := if on.contains 'u' then false else set 'a' f.letters.ascii }
    multiline := set 'm' f.multiline
    dotAll := set 's' f.dotAll
    verbose := set 'x' f.verbose }

/-- The flags of a group, the first character of which has been taken: the
flags on and off, or those that hold for the whole pattern. -/
def flagGroup (first : Char) : Step (List Char × List Char × Bool) := do
  let fuel := (← get).marks.length + 1
  let (on, closing) ← if first == '-' then pure ([], '-')
    else flagLetters (fun c => c == ')' || c == '-' || c == ':') .flagEnd checkFlagOn fuel [] first
  if closing == ')' then return (on, [], true)
  if on.contains 't' then fail .globalFlagOn 1
  if closing == ':' then return (on, [], false)
  match ← next with
  | none => fail .missingFlag
  | some [c] =>
    if !isFlag c then fail (flagFault [c] .missingFlag) 1
    let (off, _) ← flagLetters (· == ':') .missingColon checkFlagOff fuel [] c
    if off.contains 't' then fail .globalFlagOff 1
    if on.any off.contains then fail .flagOnAndOff 1
    return (on, off, false)
  | some mark => fail .missingFlag mark.length

/-! ## 5. Groups -/

/-- A name of letters, digits and underscores that starts with no digit. -/
def isName (cs : List Char) : Bool :=
  match cs with
  | [] => false
  | c :: _ => cs.all Text.isWord && !Text.isDigitLike c

/-- Refuses what is no name. -/
def checkName (name : List Char) : Step Unit := do
  if !isName name then fail (.badGroupName (String.ofList name)) (name.length + 1)

/-- Opens a group: its number. -/
def openGroup (name : Option (List Char)) : Step Nat := do
  let s ← get
  let index := s.groups + 1
  match name with
  | none => set { s with groups := index }
  | some cs =>
    let text := String.ofList cs
    if let some before := s.names.get? text then
      fail (.groupNameTaken text index before) (cs.length + 1)
    set { s with groups := index, names := s.names.put text index }
  return index

/-- The width of an expression, given the groups closed so far. -/
def widthNow (r : Regex) : Step Width := do
  let s ← get
  return r.width fun i => (s.widths.lookup i).getD default

/-- Closes a group. -/
def closeGroup (index : Nat) (body : Regex) : Step Unit := do
  let w ← widthNow body
  modify fun s => { s with widths := (index, w) :: s.widths }

/-- Takes the closing parenthesis of a group that began at a position. -/
def closing (start : Nat) : Step Unit := do
  if !(← accept ')') then failAt .unclosedGroup start

/-- A reference to a group by its name. -/
def namedReference (flags : Flags) : Step Regex := do
  let name ← nameUntil ')' "group name"
  checkName name
  let s ← get
  match s.names.get? (String.ofList name) with
  | none => fail (.unknownGroupName (String.ofList name)) (name.length + 1)
  | some index =>
    if (s.widths.lookup index).isNone then fail .openGroup (name.length + 1)
    checkLookBehind index
    return .backreference index flags.letters

/-- The number that a condition names, perhaps with a sign and blanks. -/
def conditionNumber? (name : List Char) : Option Nat :=
  let cs := Text.trimBoth Text.isSpace name
  let ds := match cs with
    | '+' :: r => r
    | _ => cs
  if !ds.isEmpty && ds.all Text.isDecimal then some (Text.decimalNumber ds) else none

/-- The group that a condition asks about. -/
def conditionGroup : Step Nat := do
  let name ← nameUntil ')' "group name"
  let back := name.length + 1
  let s ← get
  let index ←
    if isName name then
      match s.names.get? (String.ofList name) with
      | some index => pure index
      | none => fail (.unknownGroupName (String.ofList name)) back
    else match conditionNumber? name with
      | none => fail (.badGroupName (String.ofList name)) back
      | some 0 => fail .zeroGroup back
      | some index =>
        if (s.conditions.lookup index).isNone then
          set { s with conditions := s.conditions ++ [(index, s.position - back)] }
        pure index
  checkLookBehind index
  return index

/-- A comment up to its parenthesis. -/
def comment (start : Nat) : Nat → Step Unit
  | 0 => failAt .unclosedComment start
  | fuel + 1 => do
    match ← next with
    | none => failAt .unclosedComment start
    | some mark => if mark == [')'] then return () else comment start fuel

/-- What the reader of a group is given: how to read what stands between
parentheses, and how to read one way of it. -/
structure Inner where
  whole : Flags → Step Regex
  way : Flags → Step Regex

/-- A look ahead or behind, up to its parenthesis. -/
def look (inner : Inner) (flags : Flags) (start : Nat) (behind negated : Bool) : Step Regex := do
  let outer := (← get).lookBehindGroups
  if behind && outer.isNone then modify fun s => { s with lookBehindGroups := some s.groups }
  let body ← inner.whole flags
  if behind && outer.isNone then modify fun s => { s with lookBehindGroups := none }
  closing start
  if behind then
    let w ← widthNow body
    if w.high != some w.low then modify fun s => { s with variableLookBehind := true }
    return .lookBehind negated w.low body
  else return .lookAhead negated body

/-- A condition on a group, up to its parenthesis. -/
def condition (inner : Inner) (flags : Flags) (start : Nat) : Step Regex := do
  let index ← conditionGroup
  let present ← inner.way flags
  let absent ← if ← accept '|' then
      let r ← inner.way flags
      if ← sees (· == '|') then fail .manyBranches
      pure r
    else pure .empty
  closing start
  return .conditional index present absent

/-- A group that captures. -/
def capture (inner : Inner) (flags : Flags) (start : Nat) (name : Option (List Char)) :
    Step Regex := do
  let index ← openGroup name
  let body ← inner.whole flags
  closing start
  closeGroup index body
  return .group index body

/-- What a parenthesis opens. -/
inductive Opened where
  | item (r : Regex)
  | nothing
  | flags (f : Flags)

/-- A look behind, after the less-than sign. -/
def openedBehind (inner : Inner) (flags : Flags) (start : Nat) : Step Regex := do
  match ← next with
  | none => fail .endOfPattern
  | some ['='] => look inner flags start true false
  | some ['!'] => look inner flags start true true
  | some mark => fail (.unknownExtension ("?<" ++ String.ofList mark)) (mark.length + 2)

/-- A named group or a reference to one, after the letter that announces
them. -/
def namedItem (inner : Inner) (flags : Flags) (start : Nat) : Step Regex := do
  if ← accept '<' then
    let name ← nameUntil '>' "group name"
    checkName name
    capture inner flags start (some name)
  else if ← accept '=' then namedReference flags
  else match ← next with
    | none => fail .endOfPattern
    | some mark => fail (.unknownExtension ("?P" ++ String.ofList mark)) (mark.length + 2)

/-- What follows an opening parenthesis at `start`. `first` says that nothing
stands before it. -/
def opened (inner : Inner) (flags : Flags) (start : Nat) (first : Bool) : Step Opened := do
  if !(← accept '?') then return .item (← capture inner flags start none)
  match ← next with
  | none => fail .endOfPattern
  | some ['P'] => return .item (← namedItem inner flags start)
  | some [':'] =>
    let body ← inner.whole flags
    closing start
    return .item body
  | some ['#'] =>
    comment start ((← get).marks.length + 1)
    return .nothing
  | some ['='] => return .item (← look inner flags start false false)
  | some ['!'] => return .item (← look inner flags start false true)
  | some ['<'] => return .item (← openedBehind inner flags start)
  | some ['('] => return .item (← condition inner flags start)
  | some ['>'] =>
    let body ← inner.whole flags
    closing start
    return .item (.atomic body)
  | some mark =>
    match mark with
    | [c] =>
      if isFlag c || c == '-' then
        let (on, off, whole) ← flagGroup c
        if whole then
          if !first then failAt .lateFlags start
          let s ← get
          let merged := (s.flags.change on [])
          set { s with
            flags := { merged with
              letters.ascii := s.flags.letters.ascii || on.contains 'a' }
            unicode := s.unicode || on.contains 'u' }
          return .flags (← get).flags
        else
          let body ← inner.whole (flags.change on off)
          closing start
          return .item body
      else fail (.unknownExtension ("?" ++ String.ofList mark)) (mark.length + 1)
    | _ => fail (.unknownExtension ("?" ++ String.ofList mark)) (mark.length + 1)

/-! ## 6. Sequences and ways -/

/-- An item of a sequence: what it matches, and whether it can be repeated. -/
inductive Item where
  | plain (r : Regex)
  | place (r : Regex)
  | repeated (r : Regex)

/-- What an item matches. -/
def Item.regex : Item → Regex
  | .plain r => r
  | .place r => r
  | .repeated r => r

/-- Numbers of rounds are below this one. -/
def repeatLimit : Nat := 4294967295

/-- The numbers of rounds between braces, the first of which has been taken.
Without them the brace stands for itself and nothing more is taken. -/
def bounds? : Step (Option (Nat × Option Nat)) := do
  if ← sees (· == '\x7d') then return none
  let saved ← get
  let low ← takeAll Char.isDigit
  let high ← if ← accept ',' then takeAll Char.isDigit else pure low
  if !(← accept '\x7d') then
    set saved
    return none
  let min := numberOf 10 low
  let max := if high.isEmpty then none else some (numberOf 10 high)
  if min ≥ repeatLimit || max.any (· ≥ repeatLimit) then fail .repeatTooLarge
  if max.any (· < min) then failAt .repeatBounds saved.position
  return some (min, max)

/-- The sign behind a number of rounds. -/
def greedSign : Step Greed := do
  if ← accept '?' then return .lazy
  if ← accept '+' then return .possessive
  return .greedy

/-- Repeats the last item. The sign for it began at `start`. -/
def repeatLast (start : Nat) (low : Nat) (high : Option Nat) (acc : List Item) :
    Step (List Item) := do
  match acc with
  | .plain r :: rest =>
    return .repeated (.loop r low high (← greedSign)) :: rest
  | .repeated _ :: _ => failAt .multipleRepeat start
  | _ => failAt .nothingToRepeat start

/-- Blanks that a verbose pattern may contain. -/
def isBlankMark (m : List Char) : Bool :=
  match m with
  | [c] => " \t\n\r\x0b\x0c".toList.contains c
  | _ => false

/-- The rest of a line, in a verbose pattern. -/
def skipLine : Nat → Step Unit
  | 0 => return ()
  | fuel + 1 => do
    match ← next with
    | none => return ()
    | some mark => if mark == ['\n'] then return () else skipLine fuel

/-- One item of an expression by its first mark, at `start`. -/
def itemOf (flags : Flags) (start : Nat) (mark : List Char) : Step Item := do
  match mark with
  | ['\\', c] =>
    match ← escape flags c with
    | .anchor p => return .place (.anchor p)
    | r => return .plain r
  | ['['] => return .plain (← charSet flags start)
  | ['.'] =>
    return .plain (.char (if flags.dotAll then { items := [], negated := true }
      else { items := [.code 10], negated := true }))
  | ['^'] => return .place (.anchor (if flags.multiline then .lineStart else .textStart))
  | ['$'] => return .place (.anchor (if flags.multiline then .lineEnd else .lastLineEnd))
  | c :: _ => return .plain (.char { items := [.code c.toNat], letters := flags.letters })
  | [] => return .plain .empty

/-- The items of a sequence, the latest first. `first` says that the
sequence is the first of the whole pattern. -/
def items (inner : Inner) (first : Bool) : Nat → Flags → List Item → Step (List Item)
  | 0, _, acc => return acc
  | fuel + 1, flags, acc => do
    if ← sees fun c => c == '|' || c == ')' then return acc
    let start := (← get).position
    match ← next with
    | none => return acc
    | some mark =>
      if flags.verbose && isBlankMark mark then items inner first fuel flags acc
      else if flags.verbose && mark == ['#'] then
        skipLine ((← get).marks.length + 1)
        items inner first fuel flags acc
      else match mark with
      | ['?'] => items inner first fuel flags (← repeatLast start 0 (some 1) acc)
      | ['*'] => items inner first fuel flags (← repeatLast start 0 none acc)
      | ['+'] => items inner first fuel flags (← repeatLast start 1 none acc)
      | ['\x7b'] =>
        match ← bounds? with
        | some (low, high) => items inner first fuel flags (← repeatLast start low high acc)
        | none => items inner first fuel flags ((← itemOf flags start mark) :: acc)
      | ['('] =>
        match ← opened inner flags start (first && acc.isEmpty) with
        | .item r => items inner first fuel flags (.plain r :: acc)
        | .nothing => items inner first fuel flags acc
        | .flags f => items inner first fuel f acc
      | _ => items inner first fuel flags ((← itemOf flags start mark) :: acc)

/-- A sequence. -/
def sequence (inner : Inner) (first : Bool) (flags : Flags) : Step Regex := do
  let found ← items inner first ((← get).marks.length + 1) flags []
  return Regex.ofList (found.reverse.map Item.regex)

/-- The ways after the first one. Outside of all groups each begins with the
flags of the whole pattern. -/
def moreWays (inner : Inner) (outermost : Bool) : Nat → Flags → Regex → Step Regex
  | 0, _, r => return r
  | fuel + 1, flags, r => do
    if ← accept '|' then
      let s ← get
      let flags := if outermost then s.flags else flags
      let way ← sequence inner false flags
      return .alt r (← moreWays inner outermost fuel flags way)
    else return r

/-- Several ways with bars between them. -/
def ways (inner : Inner) (outermost : Bool) (flags : Flags) : Step Regex := do
  let r ← sequence inner outermost flags
  moreWays inner outermost ((← get).marks.length + 1) flags r

/-- What stands between parentheses, nested up to a depth. -/
def innerTo : Nat → Inner
  | 0 => ⟨fun _ => return .empty, fun _ => return .empty⟩
  | depth + 1 => ⟨ways (innerTo depth) false, sequence (innerTo depth) false⟩

/-- A whole pattern. -/
def wholePattern : Step Pattern := do
  checkNext
  let s ← get
  let root ← ways (innerTo s.marks.length) true s.flags
  let s ← get
  if s.flags.letters.ascii && s.unicode then fail .asciiAndUnicode
  if (← peek).isSome then fail .closingParenthesis
  if let some (index, position) := s.conditions.find? fun c => c.1 > s.groups then
    failAt (.unknownGroup index) position
  return { root, groups := s.groups, names := s.names }

/-- Reads a pattern. A look behind must have a fixed width. -/
def Pattern.parse (flags : Flags) (pattern : String) : Except Error Pattern :=
  let cs := pattern.toList
  match wholePattern.run { marks := marks cs, flags } with
  | .error (fault, position) => .error (Error.locate cs fault position)
  | .ok (p, s) =>
    if s.variableLookBehind then .error { fault := .variableWidth, place := none } else .ok p

end PackageAudit.Regex
