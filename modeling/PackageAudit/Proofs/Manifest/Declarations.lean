/-
PackageAudit.Proofs.Manifest.Declarations — what the sections of a manifest declare.

Reading the sections goes through all their entries, and each entry either declares
a name or is warned about as a repetition. So after any number of entries what is
declared and what is warned about are both functions of the entries read so far
(`Holds`): the names are theirs without repetition, each stands for its first entry,
and declarations and repetitions together are as many as entries. A section that is
no object adds one warning and no entry, wherever it stands between the others.

No entry is told apart from another one here, so repetitions inside one section, which
JSON objects do not have, are counted like those between sections.
-/
import PackageAudit.Manifest.Basic
import PackageAudit.Proofs.Collection
import PackageAudit.Proofs.FileTree.Texts
import PackageAudit.Proofs.Table

namespace PackageAudit

namespace Manifest

variable {path name : String} {raw : Table Json} {m : Manifest} {read : List Declared}
  {malformed : List DependencyType} {type : DependencyType}

/-! ## 1. Sections -/

/-- The entries of a section; one that is no object has none. -/
def sectionOf (raw : Table Json) (type : DependencyType) : Table Json :=
  ((raw.get? type.sectionName).bind Json.members?).getD []

/-- The section is there and is neither null nor an object. -/
def isMalformed (raw : Table Json) (type : DependencyType) : Bool :=
  (raw.get? type.sectionName).any fun
    | .null => false
    | .obj _ => false
    | _ => true

/-- What an entry of a section declares. -/
def declaration (type : DependencyType) (name : String) (range : Json) : Declared :=
  { name, range := range.display, type }

/-- What the entries of a section declare. -/
def declarationsOf (raw : Table Json) (type : DependencyType) : List Declared :=
  (sectionOf raw type).map fun e => declaration type e.1 e.2

/-- What the entries of all sections declare, in order. -/
def declarations (raw : Table Json) : List Declared :=
  DependencyType.all.flatMap (declarationsOf raw)

/-- What the first section that has a name declares. -/
def firstDeclaration? (raw : Table Json) (name : String) : Option Declared :=
  DependencyType.all.findSome? fun type =>
    ((sectionOf raw type).get? name).map (declaration type name)

/-- The warning about a section that is no object. -/
def malformedWarning (path : String) (type : DependencyType) : Warning where
  kind := .invalidManifest
  message := type.sectionName ++ " is not an object"
  path := some path

/-! ## 2. Reading -/

/-- A manifest holds what some entries declare, with the warnings about those that
repeat a name and about sections that are no objects. -/
structure Holds (path : String) (raw : Table Json) (read : List Declared)
    (malformed : List DependencyType) (m : Manifest) : Prop where
  path_eq : m.path = path
  raw_eq : m.raw = raw
  names : m.declared.keys = (read.map Declared.name).eraseDups
  first : ∀ name, m.get? name = read.find? fun d => d.name == name
  balance : (m.warnings.countP fun w => w.kind = .duplicateDeclaration) + m.declared.keys.length =
    read.length
  malformed : (m.warnings.filter fun w => w.kind = .invalidManifest) =
    malformed.map (malformedWarning path)

/-- A name is declared when one of the entries read has it. -/
theorem Holds.get?_eq_none_iff (h : m.Holds path raw read malformed) :
    m.get? name = none ↔ name ∉ read.map Declared.name := by
  rw [get?, Table.get?_eq_none_iff, h.names, List.mem_eraseDups]

/-- **Entries.** An entry is declared, or warned about if its name has been. -/
theorem Holds.declare (h : m.Holds path raw read malformed) (type : DependencyType)
    (name : String) (range : Json) :
    (m.declare type name range).Holds path raw (read ++ [declaration type name range])
      malformed := by
  have hbalance := h.balance
  have hlater : ∀ j, (read ++ [declaration type name range]).find? (fun d => d.name == j) =
      (m.get? j).or (if name = j then some (declaration type name range) else none) := by
    intro j
    rw [List.find?_append, ← h.first j]
    by_cases hj : name = j <;> simp [declaration, hj]
  have hnames : ((read ++ [declaration type name range]).map Declared.name).eraseDups =
      if name ∈ read.map Declared.name then m.declared.keys else m.declared.keys ++ [name] := by
    rw [List.map_append, h.names]
    exact Table.eraseDups_concat _ name
  rw [Manifest.declare]
  cases hget : m.get? name with
  | some before =>
    have hmem : name ∈ read.map Declared.name := by
      by_contra hnot
      cases hget.symm.trans (h.get?_eq_none_iff.mpr hnot)
    refine ⟨h.path_eq, h.raw_eq, (hnames.trans (if_pos hmem)).symm, fun j => ?_, ?_, ?_⟩
    · rw [hlater]
      by_cases hj : name = j
      · rw [← hj, hget]
        exact hget
      · rw [if_neg hj, Option.or_none]
        rfl
    · simp
      omega
    · simpa using h.malformed
  | none =>
    have hnew : name ∉ read.map Declared.name := h.get?_eq_none_iff.mp hget
    have hkeys : name ∉ m.declared.keys := Table.get?_eq_none_iff.mp hget
    refine ⟨h.path_eq, h.raw_eq, ?_, fun j => ?_, ?_, h.malformed⟩
    · rw [hnames, if_neg hnew, Table.keys_put, if_neg hkeys]
    · rw [hlater, get?, Table.get?_put]
      by_cases hj : j = name
      · subst hj
        simp [hget, declaration]
      · simp [hj, Ne.symm hj, get?]
    · rw [Table.keys_put, if_neg hkeys, List.length_append, List.length_append]
      simp
      omega

/-- The entries of a section, one after the other. -/
theorem Holds.entries (h : m.Holds path raw read malformed) (type : DependencyType)
    (entries : Table Json) :
    (entries.foldl (fun m (name, range) => m.declare type name range) m).Holds path raw
      (read ++ entries.map fun e => declaration type e.1 e.2) malformed := by
  induction entries generalizing m read with
  | nil => simpa using h
  | cons e entries ih => simpa using ih (h.declare type e.1 e.2)

/-- **Sections.** A section adds its entries, or a warning if it is no object. -/
theorem Holds.addSection (h : m.Holds path raw read malformed) (type : DependencyType) :
    (m.addSection type).Holds path raw (read ++ declarationsOf raw type)
      (malformed ++ if isMalformed raw type then [type] else []) := by
  obtain rfl := h.raw_eq
  have hwarned : ({ m with warnings := m.warnings ++ [malformedWarning m.path type] }).Holds path
      m.raw read (malformed ++ [type]) := by
    have hbalance := h.balance
    have hmalformed := h.malformed
    refine ⟨h.path_eq, h.raw_eq, h.names, h.first, ?_, ?_⟩
    · simpa [malformedWarning] using hbalance
    · simp [hmalformed, malformedWarning, h.path_eq]
  rw [Manifest.addSection, declarationsOf, sectionOf, isMalformed]
  cases hsection : m.raw.get? type.sectionName with
  | none => simpa using h
  | some v =>
    cases v with
    | null => simpa [Json.members?] using h
    | obj entries => simpa [Json.members?] using h.entries type entries
    | _ => simpa [Json.members?, malformedWarning] using hwarned

theorem Holds.sections (h : m.Holds path raw read malformed) (types : List DependencyType) :
    (types.foldl Manifest.addSection m).Holds path raw (read ++ types.flatMap (declarationsOf raw))
      (malformed ++ types.filter (isMalformed raw)) := by
  induction types generalizing m read malformed with
  | nil => simpa using h
  | cons type types ih =>
    have hrest := ih (h.addSection type)
    rw [List.append_assoc, List.append_assoc] at hrest
    cases hmalformed : isMalformed raw type <;> simpa [hmalformed] using hrest

/-- **All sections.** What an object describes is what the entries of its sections
declare. -/
theorem holds_ofObject (path : String) (raw : Table Json) :
    (ofObject path raw).Holds path raw (declarations raw)
      (DependencyType.all.filter (isMalformed raw)) := by
  have hstart : ∀ m : Manifest, m.path = path → m.raw = raw → m.declared = [] → m.warnings = [] →
      m.Holds path raw [] [] := by
    intro m hpath hraw hdeclared hwarnings
    refine ⟨hpath, hraw, ?_, ?_, ?_, ?_⟩ <;>
      simp [get?, Table.get?, Table.keys, hdeclared, hwarnings]
  exact (hstart _ rfl rfl rfl rfl).sections DependencyType.all

/-! ## 3. First declarations -/

theorem find?_declarationsOf (raw : Table Json) (type : DependencyType) (name : String) :
    ((declarationsOf raw type).find? fun d => d.name == name) =
      ((sectionOf raw type).get? name).map (declaration type name) := by
  rw [declarationsOf]
  induction sectionOf raw type with
  | nil => rfl
  | cons e entries ih =>
    obtain ⟨key, range⟩ := e
    rw [Table.get?_cons]
    by_cases hname : name = key
    · subst hname
      simp [declaration]
    · simpa [declaration, hname, Ne.symm hname] using ih

theorem find?_declarations (raw : Table Json) (name : String) :
    ((declarations raw).find? fun d => d.name == name) = firstDeclaration? raw name := by
  rw [declarations, List.find?_flatMap, firstDeclaration?]
  simp only [find?_declarationsOf]

/-- The first declaration of a name that there is declares that name. -/
theorem map_firstDeclaration? (h : name ∈ (declarations raw).map Declared.name) :
    (firstDeclaration? raw name).map Declared.name = some name := by
  rw [← find?_declarations]
  cases hfind : (declarations raw).find? fun d => d.name == name with
  | none =>
    obtain ⟨d, hd, hname⟩ := List.mem_map.mp h
    exact absurd (beq_iff_eq.mpr hname) (List.find?_eq_none.mp hfind d hd)
  | some d =>
    have hname := List.find?_some hfind
    exact congrArg some (beq_iff_eq.mp hname)

/-- A name is declared when a section has it. -/
theorem mem_names_declarations : name ∈ (declarations raw).map Declared.name ↔
    ∃ type, name ∈ (sectionOf raw type).keys := by
  have hall : ∀ type, type ∈ DependencyType.all := by
    intro type
    cases type <;> simp [DependencyType.all]
  simp [declarations, declarationsOf, declaration, Table.keys, hall]

/-! ## 4. Loading -/

/-- **Declarations.** A manifest that is an object can be loaded. It declares the names
that its sections have, each once and in the order in which they first come, with what
the first section that has the name says. Each further entry of a name is warned about,
so that warnings about repetitions and declarations are together as many as entries;
and each section that is there and is neither null nor an object is warned about once. -/
theorem load_declares {t : FileTree} {project : String}
    (hread : t.readJson (Path.join project "package.json") = .ok (.obj raw)) :
    ∃ m, load t project = .ok m ∧
      (∀ name, m.declares name = true ↔ ∃ type, name ∈ (sectionOf raw type).keys) ∧
      (∀ name, m.get? name = firstDeclaration? raw name) ∧
      m.dependencies =
        ((declarations raw).map Declared.name).eraseDups.filterMap (firstDeclaration? raw) ∧
      m.dependencies.map Declared.name = ((declarations raw).map Declared.name).eraseDups ∧
      (m.warnings.countP fun w => w.kind = .duplicateDeclaration) + m.dependencies.length =
        (declarations raw).length ∧
      (m.warnings.filter fun w => w.kind = .invalidManifest) =
        (DependencyType.all.filter (isMalformed raw)).map
          (malformedWarning (Path.join project "package.json")) := by
  have h := holds_ofObject (Path.join project "package.json") raw
  have hload : load t project = .ok (ofObject (Path.join project "package.json") raw) := by
    rw [load, if_pos (FileTree.isFile_of_readWith hread), hread]
  generalize ofObject (Path.join project "package.json") raw = m at h hload
  have hfirst : ∀ name, m.get? name = firstDeclaration? raw name := fun name =>
    (h.first name).trans (find?_declarations raw name)
  have hdistinct : m.declared.Distinct := by
    rw [Table.Distinct, h.names]
    exact Table.nodup_eraseDups _
  have hdependencies : m.dependencies =
      ((declarations raw).map Declared.name).eraseDups.filterMap (firstDeclaration? raw) := by
    rw [dependencies, Table.values_eq hdistinct, h.names]
    exact List.filterMap_congr fun name _ => hfirst name
  refine ⟨m, hload, fun name => ?_, hfirst, hdependencies, ?_, ?_, h.malformed⟩
  · rw [declares, Table.has_iff, h.names, List.mem_eraseDups, mem_names_declarations]
  · have hnames : ∀ name ∈ ((declarations raw).map Declared.name).eraseDups,
        (firstDeclaration? raw name).map Declared.name = some name :=
      fun name hname => map_firstDeclaration? (List.mem_eraseDups.mp hname)
    rw [hdependencies, List.map_filterMap, List.filterMap_congr hnames, List.filterMap_some]
  · rw [← h.balance, dependencies, Table.values, Table.keys, List.length_map, List.length_map]

/-- A project in which two sections have the same name, and one between them is no
object. -/
def repeatedName : FileTree := ⟨.folder [("p", .folder [
  ("package.json", .file (Text.Utf8.encode ("\x7b\"dependencies\":\x7b\"a\":2\x7d," ++
    "\"devDependencies\":[],\"peerDependencies\":\x7b\"a\":\"*\",\"b\":\"1\"\x7d\x7d")))])]⟩

/-- The name is declared by the first of the two: three entries are two declarations and
one warning, and there is another one about the section between. -/
theorem load_declares_repeatedName : ∃ m, load repeatedName "/p" = .ok m ∧
    m.dependencies = [⟨"a", "2", .production⟩, ⟨"b", "1", .peer⟩] ∧
    (m.warnings.countP fun w => w.kind = .duplicateDeclaration) = 1 ∧
    (m.warnings.filter fun w => w.kind = .invalidManifest) =
      [malformedWarning "/p/package.json" .development] := by
  let raw : Table Json := [("dependencies", .obj [("a", .int 2)]), ("devDependencies", .arr []),
    ("peerDependencies", .obj [("a", .str "*"), ("b", .str "1")])]
  have hread : repeatedName.readJson (Path.join "/p" "package.json") = .ok (.obj raw) :=
    FileTree.readJson_of_write rfl String.ofList_append.symm
      ⟨by decide, by decide, by with_unfolding_all rfl⟩
  obtain ⟨m, hload, -, -, hdependencies, -, hbalance, hmalformed⟩ := load_declares hread
  have hlisted : ((declarations raw).map Declared.name).eraseDups.filterMap
      (firstDeclaration? raw) = [⟨"a", "2", .production⟩, ⟨"b", "1", .peer⟩] := by decide
  have hwarned : (DependencyType.all.filter (isMalformed raw)).map
      (malformedWarning (Path.join "/p" "package.json")) =
        [malformedWarning "/p/package.json" .development] := by decide
  have hcount : (declarations raw).length = 3 := by decide
  rw [hlisted] at hdependencies
  rw [hdependencies, hcount] at hbalance
  exact ⟨m, hload, hdependencies, by simpa using hbalance, hmalformed.trans hwarned⟩

end Manifest

end PackageAudit
