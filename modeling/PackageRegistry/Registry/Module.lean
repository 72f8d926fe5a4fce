import PackageRegistry.Lib.Json
import PackageRegistry.Lib.Table

/-! # Module documents

A document that `validate_module` accepts has a known shape: these are its fields, and
the dictionary they came from. Dependencies are a mapping whose order means nothing.
-/

namespace PackageRegistry

inductive Channel where
  | stable
  | beta
  | nightly
  deriving DecidableEq

def Channel.name : Channel → Text
  | .stable => text "stable"
  | .beta => text "beta"
  | .nightly => text "nightly"

def CHANNELS : List Channel := [.stable, .beta, .nightly]

inductive Classification where
  | firstParty
  | reviewedCommunity
  deriving DecidableEq

def Classification.name : Classification → Text
  | .firstParty => text "first-party"
  | .reviewedCommunity => text "reviewed-community"

/-- The number one as JSON may have it: `1` or `1.0`. Python takes them for equal. -/
inductive One where
  | int
  | float
  deriving DecidableEq

structure Publisher where
  id : Text
  name : Text
  deriving DecidableEq

structure ReleaseArtifact where
  url : Text
  sha256 : Text
  deriving DecidableEq

structure Requires where
  host : Text
  sdk : Text
  modules : Table Text Text
  deriving DecidableEq

structure Release where
  version : Text
  channel : Channel
  artifact : ReleaseArtifact
  bundle_format_version : One
  source_commit : Text
  source_tag : Option Text
  requires : Requires
  deriving DecidableEq

/-- A module document without its versions -/
structure ModuleHead where
  schema_version : One
  id : Text
  name : Text
  description : Option Text
  publisher : Publisher
  classification : Classification
  source_repository : Text
  license : Text
  homepage : Option Text
  documentation_url : Option Text
  deriving DecidableEq

structure Module extends ModuleHead where
  versions : List Release
  deriving DecidableEq

/-! ## Dictionaries -/

/-- A Python dictionary. The order of its keys means nothing to the code, so it is
    always the order in which `canonical_json` writes them. -/
abbrev Dict := List (Text × Json)

def optional (key : Text) (value : Option Text) : Dict :=
  match value with
  | some s => [(key, .str s)]
  | none => []

def One.toJson : One → Json
  | .int => .int 1
  | .float => .float .one

def Publisher.toDict (publisher : Publisher) : Dict :=
  [(text "id", .str publisher.id), (text "name", .str publisher.name)]

def dependenciesToDict (modules : Table Text Text) : Dict :=
  modules.toList.map fun d => (d.1, .str d.2)

def Requires.toDict (requires : Requires) : Dict :=
  [(text "host", .str requires.host),
    (text "modules", .obj (dependenciesToDict requires.modules)),
    (text "sdk", .str requires.sdk)]

def ReleaseArtifact.toDict (artifact : ReleaseArtifact) : Dict :=
  [(text "sha256", .str artifact.sha256), (text "url", .str artifact.url)]

def Release.toDict (release : Release) : Dict :=
  [(text "artifact", .obj release.artifact.toDict),
    (text "bundle_format_version", release.bundle_format_version.toJson),
    (text "channel", .str release.channel.name),
    (text "requires", .obj release.requires.toDict),
    (text "source_commit", .str release.source_commit)] ++
    optional (text "source_tag") release.source_tag ++
    [(text "version", .str release.version)]

def Module.toDict (module : Module) : Dict :=
  [(text "classification", .str module.classification.name)] ++
    optional (text "description") module.description ++
    optional (text "documentation_url") module.documentation_url ++
    optional (text "homepage") module.homepage ++
    [(text "id", .str module.id),
      (text "license", .str module.license),
      (text "name", .str module.name),
      (text "publisher", .obj module.publisher.toDict),
      (text "schema_version", module.schema_version.toJson),
      (text "source_repository", .str module.source_repository),
      (text "versions", .arr (module.versions.map fun release => .obj release.toDict))]

end PackageRegistry
