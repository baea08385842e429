/-
PackageAudit.Proofs.Audit.OneFile — projects of a manifest and one script.

What an audit reads of such a project is known but for three things: the
object that the manifest writes, the aliases that are given and the references
of the script (`reads_oneFile`). They are all that has to be computed of a
project that shows how an audit can end.
-/
import PackageAudit.Proofs.Audit.Reading
import PackageAudit.Proofs.FileTree.Texts
import PackageAudit.Proofs.Resolve.Unbundled

namespace PackageAudit.Audit

/-- The audit of a project with a manifest and one script. -/
def oneFile (manifest script : String) (aliases : List (List Json)) : Request where
  tree := ⟨.folder [("p", .folder [("index.js", .file (Text.Utf8.encode script)),
    ("package.json", .file (Text.Utf8.encode manifest))])]⟩
  project := "/p"
  options := { aliases }
  lookup := fun _ => .ok .null
  timing := { startedAt := "" }

/-- What is read of the script. -/
def scriptRead (references : List ResolvedReference) : SourceFile where
  path := "/p/index.js"
  language := some .script
  references := references

/-- What is read of the project. -/
def oneFileRead (manifest : Manifest) (config : ResolverConfig)
    (references : List ResolvedReference) : Material where
  root := "/p"
  manifest := manifest
  config := config
  configWarnings := []
  scan := { files := ["/p/index.js"] }
  sources := [(scriptRead references, [])]
  installed := { root := "/p" }
  toolConfigs := []

section

variable (manifest script : String) (aliases : List (List Json))

theorem list_oneFile :
    (oneFile manifest script aliases).tree.list "/p" = .ok ["index.js", "package.json"] := by
  have hsorted : Text.sortTexts ["index.js", "package.json"] = ["index.js", "package.json"] :=
    List.mergeSort_of_pairwise (by decide)
  rw [← hsorted]
  rfl

theorem absolute_root : Path.absolute "/" "/p" = "/p" := by
  rfl

theorem scan_oneFile :
    Source.scan (oneFile manifest script aliases).tree "/p" [] 64 =
      { files := ["/p/index.js"] } := by
  have hsize : (oneFile manifest script aliases).tree.root.size = 4 := by rfl
  simp only [Source.scan]
  rw [absolute_root, hsize]
  simp only [Source.scanStack, Source.scanFolder, list_oneFile]
  with_unfolding_all rfl

/-- The folder of the project. -/
def oneFileRoot : Path.Place := ⟨1, ["p"], Or.inl rfl, by decide⟩

theorem plain_oneFile : (oneFile manifest script aliases).tree.Plain where
  root := ⟨_, rfl⟩
  entries := by
    have hproject : (Entry.folder [("index.js", .file (Text.Utf8.encode script)),
        ("package.json", .file (Text.Utf8.encode manifest))]).Plain :=
      (Entry.Plain.empty.put (n := "index.js") (by decide) (.file _)).put (n := "package.json")
        (by decide) (.file _)
    exact Entry.Plain.empty.put (by decide) hproject

/-- There is no file beside the manifest and the script. -/
theorem missing_oneFile {names : List String} (hnames : ∀ n ∈ names, Path.IsName n)
    (hother : ∀ n ∈ names, n ∉ ["index.js", "package.json"]) :
    ∀ n ∈ names, (oneFile manifest script aliases).tree.isFile (Path.join "/p" n) = false :=
  ResolverConfig.missing_of_keys (plain_oneFile manifest script aliases) oneFileRoot rfl hnames
    hother

theorem toolConfigTexts_oneFile :
    Dependency.toolConfigTexts (oneFile manifest script aliases).tree "/p" = [] := by
  rw [Dependency.toolConfigTexts, list_oneFile]
  rfl

theorem installed_oneFile :
    Installed.load (oneFile manifest script aliases).tree "/p" 5 = .ok { root := "/p" } := by
  have hfolder : (oneFile manifest script aliases).tree.isFolder
      (Path.join "/p" "node_modules") = false := by rfl
  simp only [Installed.load, absolute_root, hfolder]
  rfl

theorem compilerConfig_oneFile :
    ResolverConfig.compilerConfig? (oneFile manifest script aliases).tree "/p" = none := by
  refine List.find?_eq_none.mpr fun path hpath => ?_
  obtain ⟨name, hname, rfl⟩ := List.mem_map.mp hpath
  rw [missing_oneFile manifest script aliases (by decide) (by decide) name hname]
  exact Bool.false_ne_true

end

section

variable {manifest script : String} {aliases : List (List Json)} {cs : List Char}
  {raw : Table Json} (htext : manifest = String.ofList cs) (h : Json.Write cs (.obj raw))

include htext h

/-- The manifest is that of the object which its text writes. -/
theorem manifest_oneFile : Manifest.load (oneFile manifest script aliases).tree "/p" =
    .ok (Manifest.ofObject "/p/package.json" raw) := by
  have hfile : (oneFile manifest script aliases).tree.isFile (Path.join "/p" "package.json") =
      true := rfl
  have hread : (oneFile manifest script aliases).tree.readJson (Path.join "/p" "package.json") =
      .ok (.obj raw) := FileTree.readJson_of_write rfl htext h
  simp only [Manifest.load, hfile, hread]
  rfl

/-- What a configuration has of such a project are the aliases that are given, if the
manifest has no member for the test runner. -/
theorem config_oneFile (reader : Script.Reader) (hrunner : Table.get? raw "jest" = none)
    {given : List Alias}
    (hgiven : aliases.mapM (ResolverConfig.optionAlias
      ⟨(oneFile manifest script aliases).tree, "/p", reader⟩) = .ok given) :
    ResolverConfig.load (oneFile manifest script aliases).tree "/p" aliases reader =
      .ok ({ root := "/p", aliases := given }, []) := by
  have hread : (oneFile manifest script aliases).tree.readRelaxed (Path.join "/p" "package.json") =
      .ok (.obj raw) := FileTree.readRelaxed_of_write rfl htext h
  have hmappers (reader : Script.Reader) : AliasConfig.jsonMappers
      ⟨(oneFile manifest script aliases).tree, "/p", reader⟩ "package.json"
      (fun data => (data.member? "jest").getD .null) = [] := by
    simp only [AliasConfig.jsonMappers, hread, Json.member?, hrunner]
    rfl
  have hunbundled : ResolverConfig.Unbundled (oneFile manifest script aliases).tree "/p" :=
    ⟨missing_oneFile manifest script aliases ResolverConfig.isName_of_mem_bundlerFiles (by decide),
      hmappers⟩
  have hnone := compilerConfig_oneFile manifest script aliases
  exact hunbundled.load absolute_root hgiven (by rw [ResolverConfig.compilerSettings, hnone]; rfl)

end

/-- What is read of a project follows from its manifest, the aliases that are given
and the references of its script. -/
theorem reads_oneFile {text script : String} {aliases : List (List Json)} {cs : List Char}
    {manifest : Manifest} {given : List Alias} {references : List ResolvedReference}
    (htext : text = String.ofList cs) (h : Json.Write cs (.obj manifest.raw))
    (hmanifest : Manifest.ofObject "/p/package.json" manifest.raw = manifest)
    (hrunner : Table.get? manifest.raw "jest" = none)
    (hgiven : aliases.mapM (ResolverConfig.optionAlias
      ⟨(oneFile text script aliases).tree, "/p", Script.read⟩) = .ok given)
    (hscript : SourceFile.read (oneFile text script aliases).tree "/p"
      (SourceFile.resolveBy (oneFile text script aliases).tree
        { root := "/p", aliases := given }) "/p/index.js" = (scriptRead references, [])) :
    Reads (oneFile text script aliases)
      (oneFileRead manifest { root := "/p", aliases := given } references) where
  root := absolute_root.symm
  manifest := (manifest_oneFile htext h).trans (congrArg Except.ok hmanifest)
  config := config_oneFile htext h Script.read hrunner hgiven
  scan := (scan_oneFile text script aliases).symm
  sources := congrArg (fun s => [s]) hscript.symm
  installed := installed_oneFile text script aliases
  toolConfigs := (toolConfigTexts_oneFile text script aliases).symm

end PackageAudit.Audit
