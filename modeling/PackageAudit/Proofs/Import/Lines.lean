/-
PackageAudit.Proofs.Import.Lines — references are on the lines where they stand.

A script that does not parse and a stylesheet are searched without their
comments, and the lines that are reported are counted in what is left. They are
lines of the text itself, because taking comments out leaves every line end
where it was (`Thinned`): a place in what is left comes from a place in the text
with as many line ends before it (`Origin`). Blocks of markup are texts of their
own, and a place in the block is a place of the whole with the lines before the
block added (`lineAt_append`).
-/
import PackageAudit.Import.Extract
import PackageAudit.Proofs.Import.Comments
import PackageAudit.Proofs.Import.Search

namespace PackageAudit.Import

variable {reader : Script.Reader} {content text front found : List Char} {position : Nat}

/-! ## 1. Places -/

/-- Of a text, `front` is left before a position and `found` from there on,
which begins with the character at the position. -/
structure Origin (content front found : List Char) (position : Nat) : Prop where
  inside : position < content.length
  first : content[position]? = found.head?
  before : Thinned (content.take position) front
  behind : Thinned (content.drop position) found

theorem exists_origin (h : Thinned content (front ++ found)) (hne : found ≠ []) :
    ∃ position, Origin content front found position := by
  obtain ⟨c, back, rfl⟩ := List.exists_cons_of_ne_nil hne
  obtain ⟨before, behind, rfl, hbefore, hbehind⟩ := h.exists_split
  refine ⟨before.length, ?_, ?_, ?_, ?_⟩
  · simp
  · simp
  · rwa [List.take_left]
  · rw [List.drop_left]
    exact .keep c hbehind

/-- The line of a place can be counted in what is left. -/
theorem Origin.lineAt_eq (h : Origin content front found position) :
    lineAt content position = lineAt (front ++ found) front.length := by
  rw [lineAt, lineAt, List.take_left, h.before.newlines_eq]

/-- In a part of a text lines are counted from the line on which it begins. -/
theorem lineAt_append {whole part : List Char} {start : Nat} (hpart : part <+: whole.drop start)
    (hposition : position < part.length) :
    lineAt whole (start + position) = Text.newlines (whole.take start) + lineAt part position := by
  obtain ⟨rest, hrest⟩ := hpart
  have htake : whole.take (start + position) = whole.take start ++ part.take position := by
    rw [List.take_add, ← hrest, List.take_append_of_le_length (Nat.le_of_lt hposition)]
  rw [lineAt, lineAt, htake, Text.newlines, List.count_append, ← Nat.add_assoc]
  rfl

namespace Fallback

/-- A reference is one that a phrase finds in a script without its comments;
the phrase begins with the character at a position of the script. -/
def FoundAt (content : List Char) (r : Reference) (position : Nat) : Prop :=
  ∃ p front found taken, (p, r.kind) ∈ phrases ∧ dropScriptComments content = front ++ found ∧
    allowed front.getLast? = true ∧ p found = some (r.specifier, taken) ∧
    Origin content front found position

theorem exists_of_mem_finds {text : List Char} {i : Nat} {specifier : String} {kind : ImportKind}
    (h : (i, specifier, kind) ∈ finds text) : ∃ p, (p, kind) ∈ phrases ∧
      (i, specifier) ∈ findAll allowed p text := by
  rw [finds, List.mem_mergeSort, List.mem_flatMap] at h
  obtain ⟨⟨p, k⟩, hp, hmem⟩ := h
  obtain ⟨⟨i', s⟩, hfind, hsome⟩ := List.mem_filterMap.mp hmem
  dsimp only at hsome
  split at hsome
  · cases hsome
  · simp only [Option.some.injEq, Prod.mk.injEq] at hsome
    obtain ⟨rfl, rfl, rfl⟩ := hsome
    exact ⟨p, hp, hfind⟩

/-- What a phrase finds is on the line of its first character. -/
theorem exists_foundAt {file content : String} {r : Reference} (h : r ∈ references file content) :
    ∃ position, FoundAt content.toList r position ∧ r.line = lineAt content.toList position := by
  obtain ⟨⟨i, specifier, kind⟩, hfind, rfl⟩ := List.mem_map.mp h
  obtain ⟨p, hp, hmem⟩ := exists_of_mem_finds hfind
  obtain ⟨front, found, taken, htext, rfl, hne, hallowed, hfound⟩ := exists_of_mem_findAll hmem
  have hthin := thinned_dropScriptComments content.toList
  rw [htext] at hthin
  obtain ⟨position, horigin⟩ := exists_origin hthin hne
  refine ⟨position, ⟨p, front, found, taken, hp, htext, hallowed, hfound, horigin⟩, ?_⟩
  rw [horigin.lineAt_eq, htext]

end Fallback

namespace Stylesheet

/-- A reference is to a target of a statement in a stylesheet without its
comments; the statement begins with the character at a position of the
stylesheet. -/
def FoundAt (file : String) (content : List Char) (r : Reference) (position : Nat) : Prop :=
  ∃ rule front found length, dropStyleComments content = front ++ found ∧
    rule? found = some (rule, length) ∧
    (∃ s ∈ targets rule ((found.drop length).takeWhile
      (· != if Text.ends ".sass" file then '\n' else ';')), r.specifier = Text.strip s) ∧
    Origin content front found position

theorem word_of_rule? {cs : List Char} {rule : Rule} {length : Nat}
    (h : rule? cs = some (rule, length)) :
    (words.find? fun w => w.2 == rule).elim 0 (fun w => w.1.length) = length := by
  unfold rule? at h
  obtain ⟨⟨w, r⟩, hw, h⟩ := List.exists_of_findSome?_eq_some h
  obtain ⟨rest, -, h⟩ := Option.bind_eq_some_iff.mp h
  obtain ⟨-, -, h⟩ := Option.bind_eq_some_iff.mp h
  obtain ⟨rfl, rfl⟩ := Prod.mk.inj (Option.some.inj h)
  revert hw
  simp only [words, List.mem_cons, List.not_mem_nil, or_false, Prod.mk.injEq]
  rintro (⟨rfl, rfl⟩ | ⟨rfl, rfl⟩ | ⟨rfl, rfl⟩) <;> rfl

/-- What a statement names is on the line of its first character. -/
theorem exists_foundAt {file content : String} {offset : Int} {r : Reference}
    (h : r ∈ references file content offset) :
    ∃ position, FoundAt file content.toList r position ∧
      r.line = lineAt content.toList position + offset := by
  unfold references at h
  obtain ⟨⟨i, rule⟩, hmem, hr⟩ := List.mem_flatMap.mp h
  obtain ⟨s, hs, hsome⟩ := List.mem_filterMap.mp hr
  split at hsome
  · cases hsome
  · obtain rfl := Option.some.inj hsome
    obtain ⟨front, found, length, htext, rfl, hne, -, hrule⟩ := exists_of_mem_findAll hmem
    rw [word_of_rule? hrule, htext, ← List.drop_drop, List.drop_left] at hs
    have hthin := thinned_dropStyleComments content.toList
    rw [htext] at hthin
    obtain ⟨position, horigin⟩ := exists_origin hthin hne
    refine ⟨position, ⟨rule, front, found, length, htext, hrule, ⟨s, hs, rfl⟩, horigin⟩, ?_⟩
    rw [horigin.lineAt_eq, htext]

/-- Lines that come before a stylesheet are added to its own. -/
theorem references_offset (file content : String) (offset : Int) :
    references file content offset = (references file content 0).map (·.shift offset) := by
  unfold references
  rw [List.map_flatMap]
  refine List.flatMap_congr fun found _ => ?_
  rw [List.map_filterMap]
  refine List.filterMap_congr fun s _ => ?_
  split
  · rfl
  · simp [Reference.shift]

end Stylesheet

/-! ## 2. Markup -/

theorem suffix_of_rest? {start cs rest : List Char} (h : Text.rest? start cs = some rest) :
    rest <:+ cs :=
  ⟨start, (Text.rest?_eq_some_iff.mp h).symm⟩

theorem suffix_of_restAnyCase? {start cs rest : List Char}
    (h : restAnyCase? start cs = some rest) : rest <:+ cs := by
  induction start generalizing cs with
  | nil =>
    rw [restAnyCase?, Option.some.injEq] at h
    exact h ▸ List.suffix_refl cs
  | cons p ps ih =>
    cases cs with
    | nil => cases h
    | cons c cs =>
      rw [restAnyCase?] at h
      split at h
      · exact (ih h).trans (List.suffix_cons c cs)
      · cases h

/-- The content of an element is what stands in front of its closing tag. -/
theorem prefix_of_untilClosing? {element cs body rest : List Char}
    (h : untilClosing? element cs = some (body, rest)) : body <+: cs := by
  induction cs generalizing body rest with
  | nil => cases h
  | cons c cs ih =>
    rw [untilClosing?] at h
    split at h
    · obtain ⟨rfl, -⟩ := Prod.mk.inj (Option.some.inj h)
      exact List.nil_prefix
    · obtain ⟨⟨inner, rest'⟩, hinner, heq⟩ := Option.map_eq_some_iff.mp h
      obtain ⟨rfl, -⟩ := Prod.mk.inj heq
      exact List.cons_prefix_cons.mpr ⟨rfl, ih hinner⟩

theorem prefix_of_block? {element cs : List Char} {b : Block} {length : Nat}
    (h : block? element cs = some (b, length)) : b.content <+: cs.drop b.before := by
  unfold block? at h
  obtain ⟨opened, hopened, h⟩ := Option.bind_eq_some_iff.mp h
  obtain ⟨named, hnamed, h⟩ := Option.bind_eq_some_iff.mp h
  obtain ⟨-, -, h⟩ := Option.bind_eq_some_iff.mp h
  dsimp only at h
  split at h
  · rename_i inside hinside
    obtain ⟨⟨body, rest⟩, hbody, h⟩ := Option.bind_eq_some_iff.mp h
    obtain ⟨rfl, -⟩ := Prod.mk.inj (Option.some.inj h)
    have hsuffix : inside <:+ cs := by
      have hclosed : inside <:+ named := by
        refine (List.suffix_cons '>' inside).trans ?_
        rw [← hinside]
        exact List.drop_suffix _ named
      exact (hclosed.trans (suffix_of_restAnyCase? hnamed)).trans (suffix_of_rest? hopened)
    dsimp only
    rw [drop_taken hsuffix]
    exact prefix_of_untilClosing? hbody
  · cases h

/-- The content of a block stands in the markup where it is said to begin. -/
theorem prefix_of_mem_blocks {element : String} {b : Block} {start : Nat}
    (h : (b, start) ∈ blocks element text) : b.content <+: text.drop start := by
  obtain ⟨⟨i, found⟩, hmem, heq⟩ := List.mem_map.mp h
  obtain ⟨rfl, rfl⟩ := Prod.mk.inj heq
  obtain ⟨front, rest, length, rfl, rfl, -, -, hblock⟩ := exists_of_mem_findAll hmem
  rw [← List.drop_drop, List.drop_left]
  exact prefix_of_block? hblock

/-- The syntax tree of a script block. -/
def Block.tree (reader : Script.Reader) (b : Block) : Script.Tree :=
  reader (dialectOf b.attributes) (String.ofList b.content)

/-- The references of markup: those in the syntax tree of a script block, those
that phrases find in a script block that does not parse, and those in a style
block. A construct at a position of its block is on the line of the whole text on which
that position is. -/
inductive Reported (reader : Script.Reader) (file : String) (text : List Char) :
    Reference → Prop where
  | tree {b : Block} {start : Nat} {r : Reference} (hblock : (b, start) ∈ blocks "script" text)
      (hinside : b.content <+: text.drop start)
      (hwhole : (b.tree reader).hasError = false)
      (hr : r ∈ ofTree file (b.tree reader).root) :
      Reported reader file text (r.shift (Text.newlines (text.take start)))
  | phrase {b : Block} {start position : Nat} {r : Reference}
      (hblock : (b, start) ∈ blocks "script" text) (hinside : b.content <+: text.drop start)
      (hbroken : (b.tree reader).hasError = true)
      (hr : r ∈ Fallback.references file (String.ofList b.content))
      (hfound : Fallback.FoundAt b.content r position)
      (hline : r.line = lineAt b.content position) :
      Reported reader file text { r with line := lineAt text (start + position) }
  | style {b : Block} {start position : Nat} {r : Reference}
      (hblock : (b, start) ∈ blocks "style" text) (hinside : b.content <+: text.drop start)
      (hr : r ∈ Stylesheet.references file (String.ofList b.content) 0)
      (hfound : Stylesheet.FoundAt file b.content r position)
      (hline : r.line = lineAt b.content position) :
      Reported reader file text { r with line := lineAt text (start + position) }

theorem shift_eq {r : Reference} {part : List Char} {start position : Nat}
    (hpart : part <+: text.drop start) (hposition : position < part.length)
    (hline : r.line = lineAt part position) :
    r.shift (Text.newlines (text.take start)) =
      { r with line := lineAt text (start + position) } := by
  rw [Reference.shift, hline, lineAt_append hpart hposition, Int.natCast_add, Int.add_comm]

theorem Fallback.FoundAt.inside {content : List Char} {r : Reference}
    (h : Fallback.FoundAt content r position) : position < content.length := by
  obtain ⟨_, _, _, _, -, -, -, -, horigin⟩ := h
  exact horigin.inside

theorem Stylesheet.FoundAt.inside {file : String} {content : List Char} {r : Reference}
    (h : Stylesheet.FoundAt file content r position) : position < content.length := by
  obtain ⟨_, _, _, _, -, -, -, horigin⟩ := h
  exact horigin.inside

theorem references_ofScript (dialect : Script.Dialect) (file content : String) :
    (ofScript reader dialect file content).references =
      if (reader dialect content).hasError then Fallback.references file content
      else ofTree file (reader dialect content).root := by
  unfold ofScript
  dsimp only
  split <;> rfl

/-- Each block is handled as a file of its own, below the lines before it. -/
theorem mem_references_ofMarkup {file content : String} {r : Reference} :
    r ∈ (ofMarkup reader file content).references ↔
      (∃ b start, (b, start) ∈ blocks "script" content.toList ∧
        ∃ r' ∈ (ofScript reader (dialectOf b.attributes) file (String.ofList b.content)).references,
          r'.shift (Text.newlines (content.toList.take start)) = r) ∨
      ∃ b start, (b, start) ∈ blocks "style" content.toList ∧
        ∃ r' ∈ Stylesheet.references file (String.ofList b.content) 0,
          r'.shift (Text.newlines (content.toList.take start)) = r := by
  unfold ofMarkup
  dsimp only
  rw [List.mem_mergeSort, List.mem_append, List.mem_flatMap, List.mem_flatMap]
  refine or_congr ⟨?_, ?_⟩ ⟨?_, ?_⟩
  · rintro ⟨e, he, hr⟩
    obtain ⟨⟨b, start⟩, hblock, rfl⟩ := List.mem_map.mp he
    exact ⟨b, start, hblock, List.mem_map.mp hr⟩
  · rintro ⟨b, start, hblock, hr⟩
    exact ⟨_, List.mem_map_of_mem hblock, List.mem_map.mpr hr⟩
  · rintro ⟨⟨b, start⟩, hblock, hr⟩
    dsimp only at hr
    rw [Stylesheet.references_offset] at hr
    exact ⟨b, start, hblock, List.mem_map.mp hr⟩
  · rintro ⟨b, start, hblock, hr⟩
    refine ⟨(b, start), hblock, ?_⟩
    dsimp only
    rw [Stylesheet.references_offset]
    exact List.mem_map.mpr hr

/-- **Markup.** What is reported stands in a block, on the line of the whole
text. -/
theorem mem_ofMarkup_iff {file content : String} {r : Reference} :
    r ∈ (ofMarkup reader file content).references ↔
      Reported reader file content.toList r := by
  rw [mem_references_ofMarkup]
  constructor
  · rintro (⟨b, start, hblock, r, hr, rfl⟩ | ⟨b, start, hblock, r, hr, rfl⟩)
    · have hinside := prefix_of_mem_blocks hblock
      rw [references_ofScript] at hr
      split at hr
      · rename_i hbroken
        obtain ⟨position, hfound, hline⟩ := Fallback.exists_foundAt hr
        rw [String.toList_ofList] at hfound hline
        rw [shift_eq hinside hfound.inside hline]
        exact .phrase hblock hinside hbroken hr hfound hline
      · rename_i hwhole
        exact .tree hblock hinside (Bool.eq_false_iff.mpr hwhole) hr
    · have hinside := prefix_of_mem_blocks hblock
      obtain ⟨position, hfound, hline⟩ := Stylesheet.exists_foundAt hr
      rw [String.toList_ofList] at hfound hline
      rw [Int.add_zero] at hline
      rw [shift_eq hinside hfound.inside hline]
      exact .style hblock hinside hr hfound hline
  · rintro (⟨hblock, -, hwhole, hr⟩ | ⟨hblock, hinside, hbroken, hr, hfound, hline⟩ |
      ⟨hblock, hinside, hr, hfound, hline⟩)
    · refine .inl ⟨_, _, hblock, _, ?_, rfl⟩
      rw [references_ofScript]
      exact (if_neg (Bool.eq_false_iff.mp hwhole)).symm ▸ hr
    · refine .inl ⟨_, _, hblock, _, ?_, shift_eq hinside hfound.inside hline⟩
      rw [references_ofScript]
      exact (if_pos hbroken).symm ▸ hr
    · exact .inr ⟨_, _, hblock, _, hr, shift_eq hinside hfound.inside hline⟩

/-! ## 3. The lines of a file -/

/-- **References are on the lines where they stand.** What scripts and
stylesheets are searched in is their text with characters other than line ends
taken out. A reference that a phrase finds, or that a statement of a stylesheet
names, is on the line of the first character of the phrase or statement in the
text itself, where a stylesheet may begin below other lines. What is reported
for markup are the references of its blocks, each on the line that its construct
is on in the whole text. -/
theorem lines_of_original (reader : Script.Reader) (file content : String) :
    Thinned content.toList (dropScriptComments content.toList) ∧
    Thinned content.toList (dropStyleComments content.toList) ∧
    (∀ r ∈ Fallback.references file content, ∃ position,
      Fallback.FoundAt content.toList r position ∧ r.line = lineAt content.toList position) ∧
    (∀ offset, ∀ r ∈ Stylesheet.references file content offset, ∃ position,
      Stylesheet.FoundAt file content.toList r position ∧
        r.line - offset = lineAt content.toList position) ∧
    ∀ r, r ∈ (ofMarkup reader file content).references ↔
      Reported reader file content.toList r := by
  refine ⟨thinned_dropScriptComments _, thinned_dropStyleComments _,
    fun r hr => Fallback.exists_foundAt hr, fun offset r hr => ?_, fun r => mem_ofMarkup_iff⟩
  obtain ⟨position, hfound, hline⟩ := Stylesheet.exists_foundAt hr
  exact ⟨position, hfound, by rw [hline, Int.add_sub_cancel]⟩

end PackageAudit.Import
