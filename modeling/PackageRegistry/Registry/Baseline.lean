import Mathlib.Data.List.Dedup
import Mathlib.Data.List.TakeWhile
import PackageRegistry.Lib.Utf8
import PackageRegistry.Registry.History

/-! # The immutability baseline

`load_registry_from_git` of `scripts/registry.py` reads the modules of a commit that the
next change is compared with. The commit's tree is what git shows of it; a checkout
has the same files, and what its symbolic links and submodules lead to.
-/

namespace PackageRegistry

open Checks

/-! ## Trees and checkouts -/

inductive TreeEntry where
  | blob (content : Text)
  | symlink (target : Text)
  | submodule

/-- The entries of a commit by their path -/
abbrev GitTree := Table Text TreeEntry

def TreeEntry.isBlob : TreeEntry → Bool
  | .blob _ => true
  | _ => false

/-- What lies behind the symbolic links and submodules of a checkout -/
structure Outside where
  read : Text → Option Text
  list : Text → List Text

def below (directory : Text) : Text := directory ++ text "/"

/-- A link or submodule stands at the path or above it. -/
def leadsOut (tree : GitTree) (path : Text) : Bool :=
  tree.toList.any fun e =>
    !e.2.isBlob && (e.1 == path || Text.startsWith (below e.1) path)

/-- `Path.read_text`, with nothing where there is no such file -/
def read_text (outside : Outside) (tree : GitTree) (path : Text) : Option Text :=
  if leadsOut tree path then outside.read path
  else
    match tree[path]? with
    | some (.blob content) => some content
    | _ => none

/-- The first part of a path below a directory -/
def childName (directory path : Text) : Option Text :=
  if Text.startsWith (below directory) path then
    some ((path.drop (below directory).length).takeWhile fun c => c != .ofChar '/')
  else none

def listDirectory (outside : Outside) (tree : GitTree) (directory : Text) : List Text :=
  if leadsOut tree directory then outside.list directory
  else (tree.toList.filterMap fun e => childName directory e.1).dedup

def ENVELOPE : Text := text "registry/registry.json"

def MODULES : Text := text "registry/modules"

/-- The source tree that `load_registry` finds in a checkout. What `glob("*.json")` finds
    has to be a file: reading a directory or a dangling link raises an `OSError`. -/
def checkout (outside : Outside) (tree : GitTree) (path : Text) : Option RegistryRoot := do
  let found := (listDirectory outside tree MODULES).filter (Text.endsWith (text ".json"))
  let files ← found.mapM fun name =>
    (read_text outside tree (below MODULES ++ name)).map fun content => (name, content)
  some { path, envelope := read_text outside tree ENVELOPE, modules := Table.ofList files }

/-! ## git -/

def octal (n : Nat) : Text :=
  .ofChar '\\' :: [n / 64, n / 8 % 8, n % 8].map fun digit => CodePoint.ofNat (48 + digit)

/-- A byte of a path that git does not show as it is -/
def isQuoted (c : CodePoint) : Bool :=
  c.val < 32 || c == .ofChar '"' || c == .ofChar '\\' || 127 ≤ c.val

def quoteChar (c : CodePoint) : Text :=
  if c = .ofChar '"' then text "\\\""
  else if c = .ofChar '\\' then text "\\\\"
  else if 7 ≤ c.val ∧ c.val ≤ 13 then
    .ofChar '\\' :: ((text "abtnvfr").drop (c.val - 7)).take 1
  else if isQuoted c then
    ((Text.encode [c]).getD ByteArray.empty).toList.flatMap fun byte => octal byte.toNat
  else [c]

/-- A path in a listing, with `core.quotePath` at its default -/
def quotePath (path : Text) : Text :=
  if path.any isQuoted then .ofChar '"' :: path.flatMap quoteChar ++ [.ofChar '"'] else path

/-- The lines of `git ls-tree -r --name-only` -/
def ls_tree (tree : GitTree) (directory : Text) : List Text :=
  (tree.toList.filter fun e => e.1 == directory || Text.startsWith (below directory) e.1).map
    fun e => quotePath e.1

/-- `git cat-file -e`, for which a directory is an object as well -/
def cat_file (tree : GitTree) (path : Text) : Bool :=
  (match tree[path]? with
    | some .submodule | none => false
    | some _ => true) ||
  tree.toList.any fun e => Text.startsWith (below path) e.1

section

variable (lib : Library) (reference : Text) (tree : GitTree)

/-- The object behind a path of the commit, for the messages -/
def objectName (path : Text) : Text := reference ++ text ":" ++ path

/-- `git show` of a file. A link is shown as its target. A directory would be shown as a
    listing, which is no JSON either. -/
def git_show (path : Text) : Checked Text :=
  match tree[path]? with
  | some (.blob content) => .ok content
  | some (.symlink target) => .ok target
  | _ =>
      .error (.validation (text "cannot read immutable baseline " ++ objectName reference path))

/-- `Path(path).stem` -/
def pathStem (path : Text) : Text :=
  stem ((Text.splitOn (.ofChar '/') path).getLast?.getD [])

def baselineModule (path : Text) : Checked Module := do
  let content ← git_show reference tree path
  let module ← decode_json lib content (objectName reference path)
  validate_module lib module (objectName reference path) (some (pathStem path))

def load_registry_from_git : Checked (List Module) :=
  if cat_file tree ENVELOPE = false then .ok []
  else do
    let content ← git_show reference tree ENVELOPE
    let envelope ← decode_json lib content (objectName reference ENVELOPE)
    let _ ← _schema_version lib (required envelope "schema_version")
      (objectName reference ENVELOPE)
    let paths := sortedTexts ((ls_tree tree MODULES).filter (Text.endsWith (text ".json")))
    paths.mapM (baselineModule lib reference tree)

end

variable {lib : Library}

/-! ## The verdict on a document does not depend on its origin -/

theorem decode_json_ok {t origin : Text} {d : Dict} :
    decode_json lib t origin = .ok d ↔ Json.loads t = some (.obj d) := by
  unfold decode_json
  split <;> simp_all [invalid]

theorem keys_same {value : Dict} {allowed required : List Text} (origin origin' : Text) {u : Unit} :
    _exact_keys value allowed required origin = .ok u ↔
      _exact_keys value allowed required origin' = .ok u := by
  rw [exact_keys_ok, exact_keys_ok]

theorem whenPresent_same {value : Dict} {key : String} {check check' : Json → Checked Text}
    (same : ∀ v s, check v = .ok s ↔ check' v = .ok s) {result : Option Text} :
    whenPresent value key check = .ok result ↔ whenPresent value key check' = .ok result := by
  unfold whenPresent
  split
  · simp only [map_ok, same]
  · rfl

theorem optional_string_same {value : Dict} {key : String} (origin origin' : Text) {maximum : Nat}
    {result : Option Text} : _optional_string value key origin maximum = .ok result ↔
      _optional_string value key origin' maximum = .ok result :=
  whenPresent_same fun v s => by rw [nonempty_string_ok, nonempty_string_ok]

theorem optional_https_url_same {value : Dict} {key : String} (origin origin' : Text)
    {result : Option Text} : _optional_https_url lib value key origin = .ok result ↔
      _optional_https_url lib value key origin' = .ok result :=
  whenPresent_same fun v s => by simp only [map_ok, Prod.exists, https_url_ok]

theorem publisher_same {v : Json} (origin origin' : Text) {publisher : Publisher} :
    _validate_publisher v origin = .ok publisher ↔
      _validate_publisher v origin' = .ok publisher := by
  cases v with
  | obj fields =>
      simp only [_validate_publisher, bind_ok, keys_same origin origin', canonical_id_ok,
        nonempty_string_ok]
  | null | bool | int | float | str | arr => simp [_validate_publisher, invalid]

theorem dependencies_same (origin origin' : Text) {module_id : Text} {fields : Dict}
    {modules : List (Text × Text)} : checkDependencies origin module_id fields = .ok modules ↔
      checkDependencies origin' module_id fields = .ok modules := by
  induction fields generalizing modules with
  | nil => rfl
  | cons f rest ih =>
      simp only [checkDependencies, bind_ok, canonical_id_ok, guard_ok invalid_ok,
        version_range_ok, ih]

theorem requires_same {v : Json} (origin origin' : Text) {module_id : Text} {requires : Requires} :
    _validate_requires v origin module_id = .ok requires ↔
      _validate_requires v origin' module_id = .ok requires := by
  cases v with
  | obj fields =>
      simp only [_validate_requires, bind_ok, keys_same origin origin', version_range_ok]
      cases required fields "modules" with
      | obj modules => simp only [bind_ok, dependencies_same origin origin']
      | null | bool | int | float | str | arr => simp [invalid]
  | null | bool | int | float | str | arr => simp [_validate_requires, invalid]

theorem bundleFormat_same {v : Json} (origin origin' : Text) {one : One} :
    bundleFormat v origin = .ok one ↔ bundleFormat v origin' = .ok one := by
  unfold bundleFormat
  split
  · rfl
  · split <;> simp [invalid]

theorem release_same {v : Json} (origin origin' : Text) {module_id : Text}
    {classification : Classification} {release : Release} :
    _validate_release lib v origin module_id classification = .ok release ↔
      _validate_release lib v origin' module_id classification = .ok release := by
  cases v with
  | obj fields =>
      simp only [_validate_release, bind_ok, keys_same origin origin', semver_ok, channelOf_ok,
        guard_ok invalid_ok]
      cases required fields "artifact" with
      | obj artifact =>
          simp only [bind_ok, artifact_url_ok, hexString_ok,
            keys_same (origin ++ text ".artifact") (origin' ++ text ".artifact"), bundleFormat_same origin origin', optional_string_same origin origin',
            requires_same (origin ++ text ".requires") (origin' ++ text ".requires")]
      | null | bool | int | float | str | arr => simp [invalid]
  | null | bool | int | float | str | arr => simp [_validate_release, invalid]

theorem releases_same (origin origin' : Text) {module_id : Text} {classification : Classification}
    {position : Nat} {seen : List Text} {values : List Json} {releases : List Release} :
    checkReleases lib origin module_id classification position seen values = .ok releases ↔
      checkReleases lib origin' module_id classification position seen values = .ok releases := by
  induction values generalizing position seen releases with
  | nil => rfl
  | cons value rest ih =>
      simp only [checkReleases, bind_ok, guard_ok error_ok, ih,
        release_same (releaseOrigin origin position) (releaseOrigin origin' position)]

theorem schema_same {schema : Schema} {value : Json} (origin origin' : Text) {u : Unit} :
    _validate_json_schema lib schema value origin = .ok u ↔
      _validate_json_schema lib schema value origin' = .ok u := by
  rw [schema_ok, schema_ok]

theorem validate_module_same {document : Dict} (origin origin' : Text) {expected_id : Option Text}
    {m : Module} : validate_module lib document origin expected_id = .ok m ↔
      validate_module lib document origin' expected_id = .ok m := by
  simp only [validate_module, bind_ok, keys_same origin origin', schema_version_ok, canonical_id_ok,
    guard_ok error_ok, guard_ok invalid_ok, nonempty_string_ok, classificationOf_ok, Prod.exists,
    https_url_ok, optional_string_same origin origin', optional_https_url_same origin origin',
    publisher_same (origin ++ text ".publisher") (origin' ++ text ".publisher")]
  cases required document "versions" with
  | arr values =>
      cases values with
      | nil => simp [invalid]
      | cons first others =>
          simp only [bind_ok, releases_same origin origin', schema_same origin origin']
  | null | bool | int | float | str | obj => simp [invalid]

theorem validate_module_id {document : Dict} {origin : Text} {expected_id : Option Text} {m : Module}
    (h : validate_module lib document origin expected_id = .ok m) :
    required document "id" = .str m.id := by
  simp only [validate_module, check_ok] at h
  obtain ⟨-, h⟩ := h
  simp only [bind_ok, canonical_id_ok, guard_ok error_ok, guard_ok invalid_ok, Prod.exists] at h
  obtain ⟨_, -, id, ⟨atId, -⟩, -, _, -, _, -, _, -, _, -, _, -, _, -, _, _, -, -, _, -, h⟩ := h
  split at h
  · obtain ⟨_, -, h⟩ := bind_ok.mp h
    obtain ⟨-, built⟩ := check_ok.mp h
    cases built
    exact atId
  · cases h

/-- A document that is accepted anywhere is accepted under its own id anywhere. -/
theorem validate_module_expected {document : Dict} {origin : Text} {m : Module}
    (h : validate_module lib document origin none = .ok m) (origin' : Text) :
    validate_module lib document origin' (some m.id) = .ok m := by
  have atId := validate_module_id h
  have moved := (validate_module_same origin origin').mp h
  simp only [validate_module, bind_ok, canonical_id_ok, guard_ok error_ok] at moved ⊢
  obtain ⟨u, keys, one, schema_version, id, ⟨atId', isId⟩, -, rest⟩ := moved
  rw [atId] at atId'
  cases atId'
  exact ⟨u, keys, one, schema_version, m.id, ⟨atId, isId⟩, by simp, rest⟩

/-! ## Lists of checks -/

theorem mapM_length {α β : Type} {f : α → Checked β} {l : List α} {result : List β}
    (h : l.mapM f = .ok result) : result.length = l.length := by
  induction l generalizing result with
  | nil =>
      cases h
      rfl
  | cons a rest ih =>
      rw [List.mapM_cons, bind_ok] at h
      obtain ⟨b, -, h⟩ := h
      obtain ⟨bs, later, built⟩ := bind_ok.mp h
      cases built
      rw [List.length_cons, List.length_cons, ih later]

theorem mapM_perm {α β : Type} {f : α → Checked β} {l l' : List α} (perm : l.Perm l')
    {result : List β} (h : l.mapM f = .ok result) :
    ∃ result', l'.mapM f = .ok result' ∧ result'.Perm result := by
  induction perm generalizing result with
  | nil => exact ⟨result, h, .refl _⟩
  | cons a _ ih =>
      rw [List.mapM_cons, bind_ok] at h
      obtain ⟨b, first, h⟩ := h
      obtain ⟨bs, later, built⟩ := bind_ok.mp h
      cases built
      obtain ⟨bs', later', perm⟩ := ih later
      refine ⟨b :: bs', ?_, perm.cons b⟩
      rw [List.mapM_cons, first, ok_bind, later']
      rfl
  | swap a a' l =>
      simp only [List.mapM_cons, bind_ok] at h
      obtain ⟨b', second, _, ⟨b, first, bs, others, ⟨⟩⟩, ⟨⟩⟩ := h
      refine ⟨b :: b' :: bs, ?_, .swap b' b bs⟩
      simp only [List.mapM_cons, first, second, others, ok_bind]
      rfl
  | trans _ _ ih ih' =>
      obtain ⟨r', atL', perm⟩ := ih h
      obtain ⟨r'', atL'', perm'⟩ := ih' atL'
      exact ⟨r'', atL'', perm'.trans perm⟩

/-! ## Names and paths -/

/-- A suffix without the separator lies behind it. -/
theorem suffix_behind {s before rest : Text} {sep : CodePoint} (absent : sep ∉ s)
    (h : s <:+ before ++ sep :: rest) : s <:+ rest := by
  have whole : rest <:+ before ++ sep :: rest :=
    ⟨before ++ [sep], by simp⟩
  rcases List.suffix_or_suffix_of_suffix h whole with inside | longer
  · exact inside
  · rcases Nat.lt_or_ge rest.length s.length with more | short
    · have marked : sep :: rest <:+ before ++ sep :: rest := ⟨before, rfl⟩
      have inside := List.suffix_of_suffix_length_le marked h (Nat.succ_le_of_lt more)
      exact absurd (inside.subset (by simp)) absent
    · rw [longer.eq_of_length (Nat.le_antisymm longer.length_le short)]

theorem endsWith_name {name : Text} :
    Text.endsWith (text ".json") (below MODULES ++ name) = Text.endsWith (text ".json") name := by
  have absent : CodePoint.ofChar '/' ∉ text ".json" := by decide
  have split : below MODULES ++ name = MODULES ++ .ofChar '/' :: name := by
    simp [below, text]
  rw [Bool.eq_iff_iff, Text.endsWith, Text.endsWith, List.isSuffixOf_iff_suffix,
    List.isSuffixOf_iff_suffix]
  constructor
  · intro h
    rw [split] at h
    exact suffix_behind absent h
  · intro h
    exact h.trans (List.suffix_append _ _)

theorem endsWith_quotePath (path : Text) :
    Text.endsWith (text ".json") (quotePath path) =
      (!path.any isQuoted && Text.endsWith (text ".json") path) := by
  unfold quotePath
  cases quoted : path.any isQuoted with
  | false => rfl
  | true =>
      rw [if_pos rfl, Bool.not_true, Bool.false_and, Bool.eq_false_iff]
      intro ends
      have suffix := List.isSuffixOf_iff_suffix.mp ends
      have last := List.IsSuffix.getLast suffix (by decide)
      rw [List.getLast_append_of_ne_nil _ (by simp)] at last
      exact absurd last (by decide)

theorem startsWith_below {path : Text} :
    Text.startsWith (below MODULES) path = true ↔ ∃ rest, path = below MODULES ++ rest := by
  rw [Text.startsWith, List.isPrefixOf_iff_prefix]
  constructor
  · rintro ⟨rest, rfl⟩
    exact ⟨rest, rfl⟩
  · rintro ⟨rest, rfl⟩
    exact List.prefix_append _ _

theorem pathStem_below {name : Text} (absent : CodePoint.ofChar '/' ∉ name) :
    pathStem (below MODULES ++ name) = stem name := by
  have shape : below MODULES ++ name =
      text "registry" ++ .ofChar '/' :: (text "modules" ++ .ofChar '/' :: name) := by
    simp [below, MODULES, text]
  have parts : Text.splitOn (.ofChar '/') (below MODULES ++ name) =
      [text "registry", text "modules", name] := by
    rw [shape, Text.splitOn_append (by decide), Text.splitOn_append (by decide),
      Text.splitOn_of_absent absent]
  rw [pathStem, parts]
  rfl

theorem not_isQuoted {c : CodePoint} (h : 44 ≤ c.val ∧ c.val ≤ 57 ∨ 97 ≤ c.val ∧ c.val ≤ 122) :
    isQuoted c = false := by
  have quote : c ≠ .ofChar '"' := by
    rintro rfl
    exact absurd h (by decide)
  have backslash : c ≠ .ofChar '\\' := by
    rintro rfl
    exact absurd h (by decide)
  simp only [isQuoted, beq_eq_false_iff_ne.mpr quote, beq_eq_false_iff_ne.mpr backslash,
    Bool.or_false, Bool.or_eq_false_iff, decide_eq_false_iff_not]
  omega

theorem id_not_quoted {id : Text} (h : MODULE_ID_RE id = true) : id.any isQuoted = false := by
  rw [List.any_eq_false]
  intro c mem
  rw [Bool.not_eq_true]
  rcases id_chars h c mem with lower | digit | rfl
  · simp only [CodePoint.isLower, Bool.and_eq_true, decide_eq_true_eq, Fin.le_def,
      CodePoint.val_ofChar] at lower
    exact not_isQuoted (.inr lower)
  · have range := (CodePoint.isDigit_iff c).mp digit
    exact not_isQuoted (.inl ⟨by omega, range.2⟩)
  · decide

/-- The name of an accepted module file -/
theorem name_of_stem {name id : Text} (ends : Text.endsWith (text ".json") name = true)
    (isId : IsId id) (same : stem name = id) : name = id ++ text ".json" := by
  obtain ⟨front, rfl⟩ := List.isSuffixOf_iff_suffix.mp ends
  unfold stem at same
  split at same
  · rename_i short
    have empty : front = [] := by
      rw [List.length_append] at short
      have five : (text ".json").length = 5 := rfl
      rw [five] at short
      exact List.length_eq_zero_iff.mp (by omega)
    subst empty
    rw [← same] at isId
    exact absurd isId.2 (by decide)
  · rw [← same]
    congr 1
    simp [text]

/-! ## What the checkout found -/

/-- The entries that `load_registry` looks at are files and directories. -/
structure Regular (tree : GitTree) : Prop where
  envelope : leadsOut tree ENVELOPE = false
  modules : leadsOut tree MODULES = false
  files : ∀ name, Text.endsWith (text ".json") name = true → CodePoint.ofChar '/' ∉ name →
    leadsOut tree (below MODULES ++ name) = false

/-- A path that git lists as a module file although it lies in a subdirectory -/
def nestedJson (path : Text) : Bool :=
  Text.startsWith (below MODULES) path && !path.any isQuoted &&
    Text.endsWith (text ".json") path && (path.drop (below MODULES).length).contains (.ofChar '/')

def NoNested (tree : GitTree) : Prop :=
  ∀ path entry, tree[path]? = some entry → nestedJson path = false

theorem mem_listDirectory {outside : Outside} {tree : GitTree} (regular : Regular tree)
    {name : Text} : name ∈ listDirectory outside tree MODULES ↔
      ∃ path entry, tree[path]? = some entry ∧ childName MODULES path = some name := by
  simp only [listDirectory, regular.modules, Bool.false_eq_true, if_false, List.mem_dedup,
    List.mem_filterMap, Prod.exists, Table.mem_toList]

theorem childName_some {path name : Text} (h : childName MODULES path = some name) :
    CodePoint.ofChar '/' ∉ name := by
  unfold childName at h
  split at h
  · cases h
    intro mem
    have other := List.mem_takeWhile_imp mem
    simp at other
  · cases h

theorem childName_below {name : Text} (absent : CodePoint.ofChar '/' ∉ name) :
    childName MODULES (below MODULES ++ name) = some name := by
  rw [childName, if_pos (startsWith_below.mpr ⟨name, rfl⟩), List.drop_left, Option.some.injEq,
    List.takeWhile_eq_self_iff]
  intro c mem
  have other : c ≠ .ofChar '/' := by
    rintro rfl
    exact absent mem
  simpa using other

/-- The module files of an ordinary checkout: the names that glob finds, each with the content of
    the blob at its path. -/
structure Found (tree : GitTree) (files : List (Text × Text)) : Prop where
  json : ∀ f ∈ files, Text.endsWith (text ".json") f.1 = true
  plain : ∀ f ∈ files, CodePoint.ofChar '/' ∉ f.1
  blob : ∀ f ∈ files, tree[below MODULES ++ f.1]? = some (.blob f.2)
  distinct : (files.map (·.1)).Nodup
  all : ∀ name entry, tree[below MODULES ++ name]? = some entry →
    Text.endsWith (text ".json") name = true → CodePoint.ofChar '/' ∉ name →
    name ∈ files.map (·.1)

theorem read_files {outside : Outside} {tree : GitTree} {names : List Text}
    {files : List (Text × Text)}
    (h : names.mapM (fun name => (read_text outside tree (below MODULES ++ name)).map
      fun content => (name, content)) = some files) :
    files.map (·.1) = names ∧
      ∀ f ∈ files, read_text outside tree (below MODULES ++ f.1) = some f.2 := by
  induction names generalizing files with
  | nil =>
      cases h
      simp
  | cons name rest ih =>
      simp only [List.mapM_cons, Option.bind_eq_bind, Option.bind_eq_some_iff, Option.map_eq_some_iff,
        Option.pure_def, Option.some.injEq] at h
      obtain ⟨_, ⟨content, read, rfl⟩, others, later, rfl⟩ := h
      obtain ⟨names_eq, contents⟩ := ih later
      exact ⟨by rw [List.map_cons, names_eq], List.forall_mem_cons.mpr ⟨read, contents⟩⟩

theorem found_of_checkout {outside : Outside} {tree : GitTree} {path : Text} {root : RegistryRoot}
    (h : checkout outside tree path = some root) (regular : Regular tree) :
    ∃ files, Found tree files ∧ root.modules = Table.ofList files ∧
      root.envelope = read_text outside tree ENVELOPE := by
  simp only [checkout, Option.bind_eq_bind, Option.bind_eq_some_iff] at h
  obtain ⟨files, read, built⟩ := h
  cases built
  obtain ⟨names, contents⟩ := read_files read
  have named : ∀ f ∈ files, Text.endsWith (text ".json") f.1 = true ∧
      f.1 ∈ listDirectory outside tree MODULES := by
    intro f mem
    have there : f.1 ∈ files.map (·.1) := List.mem_map.mpr ⟨f, mem, rfl⟩
    rw [names] at there
    exact ⟨(List.mem_filter.mp there).2, (List.mem_filter.mp there).1⟩
  have plain : ∀ f ∈ files, CodePoint.ofChar '/' ∉ f.1 := by
    intro f mem
    obtain ⟨_, _, -, child⟩ := (mem_listDirectory regular).mp (named f mem).2
    exact childName_some child
  refine ⟨files, ⟨fun f mem => (named f mem).1, plain, fun f mem => ?_, ?_, ?_⟩, rfl, rfl⟩
  · have content := contents f mem
    rw [read_text, regular.files f.1 (named f mem).1 (plain f mem), if_neg (by simp)] at content
    split at content
    · rename_i text_ stored
      cases content
      exact stored
    · cases content
  · rw [names, listDirectory, regular.modules, if_neg (by simp)]
    exact (List.nodup_dedup _).filter _
  · intro name entry stored ends absent
    rw [names, List.mem_filter]
    exact ⟨(mem_listDirectory regular).mpr ⟨_, entry, stored, childName_below absent⟩, ends⟩

/-- `load_registry` reads these files, in some order. -/
theorem Found.perm_files {tree : GitTree} {files : List (Text × Text)} (h : Found tree files)
    {root : RegistryRoot} (modules : root.modules = Table.ofList files) :
    root.files.Perm files := by
  have all : ∀ f ∈ root.modules.toList, Text.endsWith (text ".json") f.1 = true := by
    intro f mem
    rw [modules] at mem
    exact h.json f ((Table.get_ofList h.distinct _ _).mp ((Table.mem_toList _).mp mem))
  rw [RegistryRoot.files, List.filter_eq_self.mpr all, modules]
  refine (List.perm_ext_iff_of_nodup (Table.nodup_keys _).of_map h.distinct.of_map).mpr ?_
  rintro ⟨name, content⟩
  rw [Table.mem_toList, Table.get_ofList h.distinct]

theorem loadModules_mapM {reference directory : Text} {tree : GitTree} {seen : List Text}
    {files : List (Text × Text)} {modules : List Module}
    (blob : ∀ f ∈ files, tree[below MODULES ++ f.1]? = some (.blob f.2))
    (plain : ∀ f ∈ files, CodePoint.ofChar '/' ∉ f.1)
    (h : loadModules lib directory seen files = .ok modules) :
    files.mapM (fun f => baselineModule lib reference tree (below MODULES ++ f.1)) = .ok modules ∧
      ∀ f ∈ files, ∃ m, IsId m ∧ stem f.1 = m := by
  induction files generalizing seen modules with
  | nil =>
      cases h
      exact ⟨rfl, by simp⟩
  | cons f rest ih =>
      obtain ⟨name, content⟩ := f
      rw [List.forall_mem_cons] at blob plain
      simp only [loadModules, bind_ok, guard_ok error_ok, not_not] at h
      obtain ⟨document, decoded, m, accepted, -, named, others, passed, built⟩ := h
      cases built
      obtain ⟨later, ids⟩ := ih blob.2 plain.2 passed
      have read : baselineModule lib reference tree (below MODULES ++ name) = .ok m := by
        rw [baselineModule, git_show, blob.1, pathStem_below plain.1, named]
        simp only [bind_ok, Except.ok.injEq, decode_json_ok]
        exact ⟨content, rfl, document, decode_json_ok.mp decoded,
          validate_module_expected accepted _⟩
      refine ⟨?_, List.forall_mem_cons.mpr
        ⟨⟨m.id, (validate_module_sound accepted).1.id, named⟩, ids⟩⟩
      rw [List.mapM_cons, read, ok_bind, later]
      rfl

/-! ## What git lists -/

def listedJson (path : Text) : Bool :=
  Text.startsWith (below MODULES) path && !path.any isQuoted &&
    Text.endsWith (text ".json") path

def treePaths (tree : GitTree) : List Text := tree.toList.map (·.1)

/-- The lines that end in `.json` are paths below the directory that git does not quote. -/
theorem json_lines (tree : GitTree) :
    (ls_tree tree MODULES).filter (Text.endsWith (text ".json")) =
      (treePaths tree).filter listedJson := by
  have root_no_json : Text.endsWith (text ".json") MODULES = false := by decide
  rw [ls_tree, treePaths]
  generalize tree.toList = entries
  induction entries with
  | nil => rfl
  | cons e rest ih =>
      rw [List.map_cons, List.filter_cons, List.filter_cons, ← ih]
      cases inside : Text.startsWith (below MODULES) e.1 with
      | true =>
          rw [Bool.or_true, if_pos rfl, List.map_cons, List.filter_cons, endsWith_quotePath]
          simp only [listedJson, inside, Bool.true_and]
          cases quoted : e.1.any isQuoted with
          | true => simp
          | false => simp [quotePath, quoted]
      | false =>
          simp only [listedJson, inside, Bool.false_and, Bool.or_false, Bool.false_eq_true, if_false]
          by_cases top : e.1 = MODULES
          · have unquoted : quotePath MODULES = MODULES := by decide
            rw [if_pos (by simp [top]), List.map_cons, List.filter_cons, top, unquoted,
              root_no_json, if_neg (by simp)]
          · rw [if_neg (by simp [top])]

theorem nodup_treePaths (tree : GitTree) : (treePaths tree).Nodup := Table.nodup_keys tree

theorem mem_treePaths {tree : GitTree} {path : Text} :
    path ∈ treePaths tree ↔ ∃ entry, tree[path]? = some entry := by
  simp only [treePaths, List.mem_map, Prod.exists, Table.mem_toList]
  constructor
  · rintro ⟨_, entry, stored, rfl⟩
    exact ⟨entry, stored⟩
  · rintro ⟨entry, stored⟩
    exact ⟨path, entry, stored, rfl⟩

/-- git lists the files of the checkout, and those in subdirectories. -/
theorem Found.perm_lines {tree : GitTree} {files : List (Text × Text)} (h : Found tree files)
    (ids : ∀ f ∈ files, ∃ m, IsId m ∧ stem f.1 = m) :
    ((ls_tree tree MODULES).filter (Text.endsWith (text ".json"))).Perm
      (files.map (fun f => below MODULES ++ f.1) ++ (treePaths tree).filter nestedJson) := by
  have direct : ((treePaths tree).filter listedJson).filter (fun path => !nestedJson path) |>.Perm
      (files.map fun f => below MODULES ++ f.1) := by
    have distinct : (files.map fun f => below MODULES ++ f.1).Nodup := by
      have names := h.distinct.map (List.append_right_injective (below MODULES))
      rwa [List.map_map] at names
    refine (List.perm_ext_iff_of_nodup (((nodup_treePaths tree).filter _).filter _) distinct).mpr
      fun path => ?_
    simp only [List.mem_filter, mem_treePaths, List.mem_map, listedJson, Bool.and_eq_true,
      Bool.not_eq_true']
    constructor
    · rintro ⟨⟨⟨entry, stored⟩, ⟨inside, unquoted⟩, ends⟩, notNested⟩
      obtain ⟨name, rfl⟩ := startsWith_below.mp inside
      rw [nestedJson, inside, unquoted, ends, List.drop_left] at notNested
      have absent : CodePoint.ofChar '/' ∉ name := by simpa using notNested
      rw [endsWith_name] at ends
      obtain ⟨f, mem, rfl⟩ := List.mem_map.mp (h.all name entry stored ends absent)
      exact ⟨f, mem, rfl⟩
    · rintro ⟨f, mem, rfl⟩
      obtain ⟨id, isId, named⟩ := ids f mem
      have name := name_of_stem (h.json f mem) isId named
      have unquoted : (below MODULES ++ f.1).any isQuoted = false := by
        rw [name, List.any_append, List.any_append, id_not_quoted isId.2]
        decide
      have inside : Text.startsWith (below MODULES) (below MODULES ++ f.1) = true :=
        startsWith_below.mpr ⟨f.1, rfl⟩
      have direct : nestedJson (below MODULES ++ f.1) = false := by
        have absent := h.plain f mem
        rw [nestedJson, List.drop_left, Bool.and_eq_false_iff]
        exact .inr (by simpa using absent)
      exact ⟨⟨⟨_, h.blob f mem⟩, ⟨inside, unquoted⟩, endsWith_name.trans (h.json f mem)⟩, direct⟩
  have nested : ((treePaths tree).filter listedJson).filter nestedJson =
      (treePaths tree).filter nestedJson := by
    rw [List.filter_filter]
    refine List.filter_congr fun path _ => ?_
    unfold nestedJson listedJson
    grind
  rw [json_lines]
  have parts := List.filter_append_perm nestedJson ((treePaths tree).filter listedJson)
  rw [nested] at parts
  exact parts.symm.trans (List.perm_append_comm.trans (direct.append_right _))

/-! ## The two loaders -/

/-- `load_registry` in a checkout -/
def loadCheckout (lib : Library) (outside : Outside) (tree : GitTree) (path : Text) :
    Option (Checked (List Module)) :=
  (checkout outside tree path).map (load_registry lib)

/-- The baseline is what was accepted, up to order. -/
def SameBaseline (lib : Library) (reference : Text) (tree : GitTree) (modules : List Module) : Prop :=
  ∃ base, load_registry_from_git lib reference tree = .ok base ∧ base.Perm modules

theorem noNested_iff {tree : GitTree} : NoNested tree ↔ (treePaths tree).filter nestedJson = [] := by
  simp [NoNested, List.filter_eq_nil_iff, mem_treePaths]

def nothingOutside : Outside where
  read _ := none
  list _ := []

def roadsTree (extra : List (Text × TreeEntry)) : GitTree :=
  Table.ofList ((ENVELOPE, .blob (Json.canonical_json (.obj [(text "schema_version", .int 1)]))) ::
    (text "registry/modules/roads.json",
      .blob (Json.canonical_json (.obj (roadsModule [roadsOnGitHub]).toDict))) :: extra)

def roadsArchive : GitTree :=
  roadsTree [(text "registry/modules/archive/roads.json",
    .blob (Json.canonical_json (.obj (roadsModule [roadsOnGitHub]).toDict)))]

end PackageRegistry
