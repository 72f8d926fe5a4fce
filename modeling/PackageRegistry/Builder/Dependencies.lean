import PackageRegistry.Builder.Source

/-! # Dependencies of a candidate

`_dependency_candidates` of `scripts/ocp_builder.py`: for each dependency of a manifest the
newest release of the registry that its constraint allows, in the sense of `packaging`.
-/

namespace PackageRegistry.Builder

structure ReleaseCandidate where
  module_id : Text
  version : Text
  channel : Channel
  artifact_url : Text
  expected_sha256 : Text
  classification : Classification
  deriving DecidableEq

/-- `load_registry(ROOT / "registry")` -/
def loadRegistry (lib : Library) (root : RegistryRoot) : Building (List Module) :=
  (load_registry lib root).mapError .registry

section

variable (pkg : Packaging)

/-- The releases whose version is in the specifier, with their versions -/
def compatibleReleases (specifier : pkg.SpecifierSet) :
    List Release → Building (List (pkg.Version × Release))
  | [] => .ok []
  | release :: rest => do
      let version ← parseVersion pkg release.version
      let others ← compatibleReleases specifier rest
      .ok (if pkg.contains specifier version then (version, release) :: others else others)

def dependencyCandidate (registry : List Module) (module_id : Text) (constraint : Json) :
    Building ReleaseCandidate :=
  match registry.find? (·.id == module_id) with
  | none => refuse (text "host-contract dependency " ++ module_id ++ text " is not registered")
  | some module =>
      match constraint with
      | .str constraint =>
          match pkg.specifierSet constraint with
          | none => .error (.value (text "Invalid specifier: " ++ constraint))
          | some specifier => do
              let compatible ← compatibleReleases pkg specifier module.versions
              match firstMax (·.1) compatible with
              | none =>
                  refuse (text "no registered " ++ module_id ++ text " release satisfies " ++
                    constraint)
              | some (_, release) =>
                  .ok ⟨module_id, release.version, release.channel, release.artifact.url,
                    release.artifact.sha256, module.classification⟩
      | _ => .error .other

def dependencyCandidates (registry : List Module) : Dict → Building (List ReleaseCandidate)
  | [] => .ok []
  | (module_id, constraint) :: rest => do
      let candidate ← dependencyCandidate pkg registry module_id constraint
      let others ← dependencyCandidates registry rest
      .ok (candidate :: others)

def _dependency_candidates (lib : Library) (root : RegistryRoot) (manifest : Dict) :
    Building (List ReleaseCandidate) := do
  let registry ← loadRegistry lib root
  match manifest.lookup (text "requires") with
  | none => .error .other
  | some requires => do
      let fields ← fieldsOf requires
      let modules ← fieldsOf ((fields.lookup (text "modules")).getD (.obj []))
      dependencyCandidates pkg registry modules

end

end PackageRegistry.Builder
