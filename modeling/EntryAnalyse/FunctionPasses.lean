import EntryAnalyse.FunctionEnd
import EntryAnalyse.PyText

/-! The three passes of `extractor.py` that find where functions begin: over the syntax tree of
tree-sitter, by a regular expression for each line, and over the macros that define functions. -/
namespace EntryAnalyse
namespace Extractor

open PyJson PyText

abbrev Text := List Char

/-! ## Regular expressions -/

inductive Regex where
  | one (p : Char → Bool)
  | empty
  | seq (r s : Regex)
  | alt (r s : Regex)
  | star (greedy : Bool) (r : Regex)
  | group (r : Regex)
  | notAhead (r : Regex)
  | atEnd

/-- What is left of the text, and the groups that are closed. -/
structure Match where
  rest : Text
  groups : List Text

/-- A repetition takes at least one character each time. -/
def repeats (step : Match → List Match) (greedy : Bool) : ℕ → Match → List Match
  | 0,m => [m]
  | n + 1,m =>
    let more := (step m).flatMap fun m' =>
      if m'.rest.length < m.rest.length then repeats step greedy n m' else []
    if greedy then more ++ [m] else m :: more

/-- All ways to match the beginning of what is left, the preferred one first. -/
def Regex.run : Regex → Match → List Match
  | .one p,m =>
    match m.rest with
    | [] => []
    | c :: cs => if p c then [{ m with rest := cs }] else []
  | .empty,m => [m]
  | .seq r s,m => (r.run m).flatMap s.run
  | .alt r s,m => r.run m ++ s.run m
  | .star greedy r,m => repeats r.run greedy m.rest.length m
  | .group r,m => (r.run m).map fun m' =>
    { m' with groups := m'.groups ++ [m.rest.take (m.rest.length - m'.rest.length)] }
  | .notAhead r,m => if (r.run m).isEmpty then [m] else []
  | .atEnd,m => if m.rest.isEmpty then [m] else []

/-- `re.match`: the groups. -/
def Regex.groups (r : Regex) (text : Text) : Option (List Text) :=
  ((r.run ⟨text,[]⟩).head?).map Match.groups

namespace Regex

def lit (w : String) : Regex := w.toList.foldr (fun c r => seq (one (· == c)) r) empty

def anyOf (rs : List Regex) : Regex := rs.foldr alt (notAhead empty)

def inOrder (rs : List Regex) : Regex := rs.foldr seq empty

def many (r : Regex) : Regex := star true r

def plus (r : Regex) : Regex := seq r (star true r)

def maybe (r : Regex) : Regex := alt r empty

def space : Regex := one pyIsSpace

def blank : Regex := one fun c => c == ' ' || c == '\t'

end Regex

section Expressions
variable (isWord : Char → Bool)

open Regex

/-- `_FUNC_DEF_RE`. -/
def funcDefRe : Regex := inOrder
  [notAhead (inOrder [many blank,
      anyOf (["if","else","for","while","switch","return","do","case","#","//","/*"].map lit)]),
    many blank,
    many (seq (anyOf (["inline","static","virtual","explicit","constexpr","consteval",
      "constinit"].map lit)) (Regex.plus space)),
    maybe (inOrder [typeChar,star false typeChar,Regex.plus space]),
    group (inOrder [many (seq (Regex.plus (one fun c => isWord c || c == ':')) (lit "::")),
      one fun c => isWord c || c == '~',many (one isWord)]),
    many space,lit "(",star false (one fun c => c != ';' && c != '{'),lit ")",
    many space,many (anyOf ([lit "const",lit "override",lit "noexcept",lit "final",space])),
    alt (inOrder [lit "\x7b",many (one fun _ => true),atEnd]) (seq (many blank) atEnd)]
where
  typeChar : Regex := one fun c => isWord c || [':','*','&','<','>',',',' '].contains c

/-- `_SCOPE_OPEN_RE`. -/
def scopeOpenRe : Regex := inOrder
  [many space,anyOf (["class","struct","namespace"].map lit),Regex.plus space,
    group (seq (one isWord) (many (one fun c => isWord c || c == ':'))),many space,
    maybe (seq (lit ":") (many (one fun c => c != '{' && c != ';'))),lit "\x7b",many space,atEnd]

/-- `#define\s+(\w+)\s*\(`. -/
def defineRe : Regex := inOrder
  [lit "#define",Regex.plus space,group (Regex.plus (one isWord)),many space,lit "("]

/-- `_CALL_RE` for the names of the macros. -/
def callRe (names : List String) : Regex := inOrder
  [many space,group (anyOf (names.map lit)),many space,lit "(",
    group (Regex.plus (one fun c => c != ')')),lit ")",many space,maybe (lit ";"),many space,atEnd]

end Expressions

/-! ## Entries -/

/-- What a pass finds. The end is `0` where the pass gives none. -/
structure Entry where
  name : String
  scope : String
  line : ℕ
  endLine : ℕ
  signature : String
  regexSignature : Option String
deriving DecidableEq

/-! ## The syntax tree -/

/-- A node of tree-sitter; rows count from 0. -/
inductive Node where
  | mk (kind text : String) (startRow endRow : ℕ) (children : List Node)

namespace Node

def kind : Node → String
  | mk kind _ _ _ _ => kind

def startRow : Node → ℕ
  | mk _ _ startRow _ _ => startRow

def endRow : Node → ℕ
  | mk _ _ _ endRow _ => endRow

def children : Node → List Node
  | mk _ _ _ _ children => children

end Node

mutual

/-- `find_func_declarator`. -/
def findFuncDeclarator : Node → Option Node
  | .mk kind text startRow endRow children =>
    if kind = "function_declarator" then some (.mk kind text startRow endRow children)
    else findFuncDeclarators children

def findFuncDeclarators : List Node → Option Node
  | [] => none
  | child :: children => (findFuncDeclarator child).or (findFuncDeclarators children)

end

mutual

/-- `find_identifier`; the empty text where there is none. -/
def findIdentifier : Node → String
  | .mk kind text _ _ children =>
    if kind = "qualified_identifier" ∨ kind = "identifier" then text else findIdentifiers children

def findIdentifiers : List Node → String
  | [] => ""
  | .mk kind text startRow endRow inner :: children =>
    if kind = "parameter_list" then findIdentifiers children
    else
      let r := findIdentifier (.mk kind text startRow endRow inner)
      if r = "" then findIdentifiers children else r

end

/-- `_ts_extract_name`. -/
def tsExtractName (node : Node) : String :=
  let declarator := node.children.find? fun child =>
    ["function_declarator","pointer_declarator","reference_declarator",
      "abstract_declarator"].contains child.kind
  match findFuncDeclarator (declarator.getD node) with
  | none => ""
  | some fd => findIdentifier fd

/-- The lines of the signature, each without a line comment, up to the opening brace. -/
def signatureLines : List String → List String
  | [] => []
  | line :: lines =>
    let line := rstrip line
    let line :=
      if ['/','/'] <:+: line.toList then
        rstrip (String.ofList (line.toList.takeWhile (· != '/')))
      else line
    if '{' ∈ line.toList then [rstrip (String.ofList (line.toList.takeWhile (· != '{')))]
    else line :: signatureLines lines

/-- `_ts_build_signature`. -/
def tsBuildSignature (node : Node) (lines : List String) : String :=
  let parts := ((signatureLines ((lines.drop node.startRow).take 20)).map strip).filter (· ≠ "")
  let sig := (" ".intercalate parts).toList
  strip (String.ofList (sig.rdropWhile fun c => c == ';' || c == ' '))

mutual

/-- `walk`: the function definitions that have a name, without what is inside them. -/
def walk (lines : List String) : Node → List Entry
  | .mk kind text startRow endRow children =>
    if kind = "function_definition" then
      let node := Node.mk kind text startRow endRow children
      let name := tsExtractName node
      if name = "" then walkAll lines children
      else [⟨name,"",startRow + 1,endRow + 1,tsBuildSignature node lines,none⟩]
    else walkAll lines children

def walkAll (lines : List String) : List Node → List Entry
  | [] => []
  | child :: children => walk lines child ++ walkAll lines children

end

mutual

/-- All nodes of the tree. -/
def nodes : Node → List Node
  | .mk kind text startRow endRow children =>
    .mk kind text startRow endRow children :: nodesOfAll children

def nodesOfAll : List Node → List Node
  | [] => []
  | child :: children => nodes child ++ nodesOfAll children

end

/-- The parser that is chosen for a file. A function definition lies within the lines of the text. -/
structure Parser where
  parse : String → List String → Node
  within : ∀ filePath lines, ∀ node ∈ nodes (parse filePath lines),
    node.kind = "function_definition" → node.startRow ≤ node.endRow ∧ node.endRow < lines.length

/-- `_extract_functions_tree_sitter`. -/
def extractFunctionsTreeSitter (p : Parser) (filePath : String) (lines : List String) : List Entry :=
  walk lines (p.parse filePath lines)

/-! ## Lines that look like definitions -/

/-- `_count_braces` from a place of the line on. -/
def countBraces : Bool → Bool → Text → ℕ × ℕ
  | _,_,[] => (0,0)
  | inStr,escape,ch :: cs =>
    if escape then countBraces inStr false cs
    else if ch == '\\' && inStr then countBraces inStr true cs
    else if ch == '"' then countBraces (!inStr) false cs
    else if inStr then countBraces inStr false cs
    else if ch == '/' && cs.head? == some '/' then (0,0)
    else
      let (opens,closes) := countBraces inStr false cs
      if ch == '{' then (opens + 1,closes)
      else if ch == '}' then (opens,closes + 1)
      else (opens,closes)

/-- `raw_name.rsplit('::', 1)`, from the end of the name on. -/
def rsplitColons : Text → Text → Option (Text × Text)
  | ':' :: ':' :: before,after => some (before.reverse,after)
  | c :: before,after => rsplitColons before (c :: after)
  | [],_ => none

def reservedNames : List String :=
  ["if","else","for","while","switch","return","do","case","namespace","__attribute__","__declspec",
    "__cdecl","__stdcall","__fastcall","__thiscall","__forceinline","__asm"]

/-- The scopes that are open, the innermost first, with the depth outside. -/
structure ScopeScan where
  stack : List (String × ℤ)
  depth : ℤ
  entries : List Entry

/-- One line of `_extract_functions_regex`. -/
def regexLine (isWord : Char → Bool) (s : ScopeScan) (numbered : String × ℕ) : ScopeScan :=
  let (line,li) := numbered
  let (opens,closes) := countBraces false false line.toList
  let opened : List (String × ℤ) :=
    match (scopeOpenRe isWord).groups line.toList with
    | some (scope :: _) => if 0 < opens then (String.ofList scope,s.depth) :: s.stack else s.stack
    | _ => s.stack
  let depth := s.depth + opens - closes
  let stack := opened.dropWhile fun scope => depth ≤ scope.2
  match (funcDefRe isWord).groups line.toList with
  | some (raw :: _) =>
    if raw.isEmpty ∨ String.ofList raw ∈ reservedNames then ⟨stack,depth,s.entries⟩
    else
      let signature := rstrip (String.ofList ((strip line).toList.rdropWhile (· == '{')))
      let (scope,name) :=
        match rsplitColons raw.reverse [] with
        | some (scope,name) => (String.ofList scope,String.ofList name)
        | none => ("::".intercalate (stack.reverse.map Prod.fst),String.ofList raw)
      ⟨stack,depth,s.entries ++ [⟨name,scope,li + 1,0,"",some signature⟩]⟩
  | _ => ⟨stack,depth,s.entries⟩

/-- `_extract_functions_regex`. -/
def extractFunctionsRegex (isWord : Char → Bool) (lines : List String) : List Entry :=
  (lines.zipIdx.foldl (regexLine isWord) ⟨[],0,[]⟩).entries

/-! ## Macros -/

/-- `d[name] = line`. -/
def assign (d : List (String × ℕ)) (name : String) (line : ℕ) : List (String × ℕ) :=
  if name ∈ d.map Prod.fst then d.map fun e : String × ℕ => if e.1 = name then (name,line) else e
  else d ++ [(name,line)]

/-- The macros with braces in them, and the definition that is still read: its name, its first line
and the text so far. -/
structure MacroScan where
  withPaste : List (String × ℕ)
  fixedBody : List (String × ℕ)
  pending : Option (String × ℕ × Text)

/-- The end of a definition. -/
def MacroScan.close (s : MacroScan) : MacroScan :=
  match s.pending with
  | none => s
  | some (name,line,body) =>
    if '{' ∈ body ∧ '}' ∈ body then
      if ['#','#'] <:+: body then ⟨assign s.withPaste name line,s.fixedBody,none⟩
      else ⟨s.withPaste,assign s.fixedBody name line,none⟩
    else ⟨s.withPaste,s.fixedBody,none⟩

/-- A definition goes on behind a line that ends in a backslash. -/
def MacroScan.reads (s : MacroScan) (name : String) (line : ℕ) (body : Text) : MacroScan :=
  let s := { s with pending := some (name,line,body) }
  if (body.rdropWhile pyIsSpace).getLast? = some '\\' then s else s.close

/-- One line of the loop that looks for definitions. -/
def macroLine (isWord : Char → Bool) (s : MacroScan) (numbered : String × ℕ) : MacroScan :=
  let (line,i) := numbered
  match s.pending with
  | some (name,first,body) => s.reads name first (body ++ ' ' :: trim line.toList)
  | none =>
    if "#define ".toList.isPrefixOf (trim line.toList) then
      match (defineRe isWord).groups (trim line.toList) with
      | some (name :: _) => s.reads (String.ofList name) (i + 1) (trim line.toList)
      | _ => s
    else s

def findMacros (isWord : Char → Bool) (lines : List String) : MacroScan :=
  (lines.zipIdx.foldl (macroLine isWord) ⟨[],[],none⟩).close

/-- The calls of pasting macros outside the ranges, the first one of each function. -/
def macroCalls (names : List String) (ranges : List (ℤ × ℤ)) : List String → List (String × ℕ) →
    List Entry
  | _,[] => []
  | seen,(line,li) :: lines =>
    match (callRe names).groups line.toList with
    | some (name :: args :: _) =>
      let hint := String.ofList (name ++ '(' :: (trim (args.takeWhile (· != ',')) ++ [')']))
      if ranges.any fun r => r.1 < (li + 1 : ℕ) ∧ ((li + 1 : ℕ) : ℤ) ≤ r.2 then
        macroCalls names ranges seen lines
      else if hint ∈ seen then macroCalls names ranges seen lines
      else ⟨hint,"",li + 1,0,hint,none⟩ :: macroCalls names ranges (hint :: seen) lines
    | _ => macroCalls names ranges seen lines

/-- `_scan_macro_functions`. -/
def scanMacroFunctions (isWord : Char → Bool) (lines : List String) (ranges : List (ℤ × ℤ)) :
    List Entry :=
  let s := findMacros isWord lines
  let calls :=
    if s.withPaste.isEmpty then []
    else macroCalls (s.withPaste.map Prod.fst) ranges [] lines.zipIdx
  calls ++ s.fixedBody.map fun m => ⟨m.1,"",m.2,0,m.1,none⟩

end Extractor
end EntryAnalyse
