import EntryAnalyse.PyJson

/-! How the lines of a module's file list become the files of a run: `_filter_source_files`,
`resolve_file_path`, and the loop over both in `Orchestrator.execute`. Paths are texts; what the
file system answers about them is given. -/
namespace EntryAnalyse
namespace ModuleLoader

/-- The file system and the environment, as far as the resolution of a path reads them.
`rglob target name` lists what `Path(target).rglob(name)` yields. -/
structure FileTree where
  isFile : String → Bool
  rglob : String → String → List String
  targetDirEnv : Option String := none
  cwd : String

def startsWith (text start : String) : Bool := start.toList.isPrefixOf text.toList

def endsWith (text ending : String) : Bool := ending.toList.isSuffixOf text.toList

/-- `os.path.isabs`. -/
def isabs (path : String) : Bool := startsWith path "/"

/-- `os.path.basename`. -/
def basename (path : String) : String :=
  String.ofList (path.toList.reverse.takeWhile (· != '/')).reverse

/-- `os.path.splitext(name)[1]`: dots at the start of a name begin no extension. -/
def extension (name : String) : String :=
  let body := name.toList.dropWhile (· == '.')
  if body.contains '.' then String.ofList ('.' :: (body.reverse.takeWhile (· != '.')).reverse)
  else ""

/-- `os.path.join`. -/
def join (path rest : String) : String :=
  if isabs rest then rest
  else if path = "" || endsWith path "/" then path ++ rest
  else path ++ "/" ++ rest

/-- The slashes at the start of a path that are kept: two exactly are not one. -/
def rootSlashes (path : String) : ℕ :=
  if startsWith path "//" && !startsWith path "///" then 2 else if isabs path then 1 else 0

/-- A path from its components. -/
def assemble (slashes : ℕ) (comps : List (List Char)) : String :=
  let text := List.replicate slashes '/' ++ ['/'].intercalate comps
  if text = [] then "." else String.ofList text

/-- The loop body of `os.path.normpath`, with the components so far, the last one first. -/
def normStep (rooted : Bool) (comps : List (List Char)) (comp : List Char) : List (List Char) :=
  if comp = [] ∨ comp = ['.'] then comps
  else if comp ≠ ['.','.'] ∨ (rooted = false ∧ comps = []) ∨ comps.head? = some ['.','.'] then
    comp :: comps
  else comps.tail

def normpath (path : String) : String :=
  let slashes := rootSlashes path
  assemble slashes ((path.toList.splitOn '/').foldl (normStep (0 < slashes)) []).reverse

def abspath (cwd path : String) : String := normpath (if isabs path then path else join cwd path)

/-- `str(Path(target) / rest)`, which drops empty and `.` components and keeps `..`. -/
def pathDiv (target rest : String) : String :=
  let path := join target rest
  assemble (rootSlashes path)
    ((path.toList.splitOn '/').filter (fun comp => comp ≠ [] ∧ comp ≠ ['.']))

example : abspath "/work" "a/./b//../c.c" = "/work/a/c.c" := by decide

def knownExtensions : List String :=
  [".c",".h",".cc",".cpp",".cxx",".c++",".hh",".hpp",".hxx",".h++"]

/-- The first half of what `_filter_source_files` returns. -/
def filterSourceFiles (files : List String) : List String :=
  files.filter (fun fp => lower (extension (basename fp)) ∈ knownExtensions)

def targetPrefixes (tree : FileTree) : List String :=
  let defaultTarget := tree.targetDirEnv.getD "/data/target"
  [defaultTarget ++ "/",defaultTarget,"/data/target/","/data/target"]

/-- The path without the first of the known prefixes that it has, below the actual target. -/
def remapped (tree : FileTree) (fp targetDir : String) : Option String :=
  ((targetPrefixes tree).find? (startsWith fp)).bind fun start =>
    let candidate := pathDiv targetDir (String.ofList (fp.toList.drop start.toList.length))
    if tree.isFile candidate then some candidate else none

/-- `resolve_file_path`. -/
def resolveFilePath (tree : FileTree) (filePath targetDir : String) : Option String :=
  let fp := strip filePath
  if isabs fp && tree.isFile fp then some fp
  else
    ((if isabs fp then remapped tree fp targetDir else none).or
      (if tree.isFile (pathDiv targetDir fp) then some (pathDiv targetDir fp) else none)).or
        (tree.rglob targetDir (basename fp)).head?

/-- `resolved_files` in `Orchestrator.execute`. A file that is not found is left out; nothing
is compared with the files found before. -/
def resolvedFiles (tree : FileTree) (sourceDir targetDir : String) (files : List String) :
    List String :=
  (filterSourceFiles files).filterMap fun fp =>
    ((resolveFilePath tree fp sourceDir).or (resolveFilePath tree fp targetDir)).map
      (abspath tree.cwd)

/-- `file_hash_paths` in `PipelineEngine.run`. -/
def fileHashPaths {H : Type} (computeFileHash : String → H) (moduleFiles : List String) :
    List (H × String) :=
  moduleFiles.map (fun fp => (computeFileHash fp,fp))

theorem nodup_of_hashes {H : Type} {computeFileHash : String → H} {moduleFiles : List String}
    (h : ((fileHashPaths computeFileHash moduleFiles).map Prod.fst).Nodup) :
    moduleFiles.Nodup := by
  rw [fileHashPaths,List.map_map] at h
  exact h.of_map _

/-- A line that occurs twice and is found gives two entries. -/
theorem resolvedFiles_append (tree : FileTree) (sourceDir targetDir : String)
    (files more : List String) : resolvedFiles tree sourceDir targetDir (files ++ more) =
      resolvedFiles tree sourceDir targetDir files ++
        resolvedFiles tree sourceDir targetDir more := by
  simp only [resolvedFiles,filterSourceFiles,List.filter_append,List.filterMap_append]

/-- Three spellings of one file: below the source directory, as an absolute path of the
machine that made the list, and by its name alone. -/
example : resolvedFiles
    { isFile := fun p => p == "/src/net/a.c"
      rglob := fun _ name => if name == "a.c" then ["/src/net/a.c"] else []
      cwd := "/" } "/src" "/out" ["net/./a.c","/data/target/net/a.c","a.c","README.md"] =
    ["/src/net/a.c","/src/net/a.c","/src/net/a.c"] := by decide +kernel

end ModuleLoader
end EntryAnalyse
