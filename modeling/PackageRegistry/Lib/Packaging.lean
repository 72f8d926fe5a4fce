import Mathlib.Order.Defs.LinearOrder
import PackageRegistry.Lib.Text

/-! # The library `packaging`

Versions of PEP 440 and sets of specifiers. `none` stands for the exception that the
constructors raise.
-/

structure Packaging where
  Version : Type
  /-- Versions that compare as equal are one. -/
  order : LinearOrder Version
  /-- `Version(text)` -/
  version : Text → Option Version
  SpecifierSet : Type
  /-- `SpecifierSet(text)` -/
  specifierSet : Text → Option SpecifierSet
  /-- `version in specifiers` -/
  contains : SpecifierSet → Version → Bool
  canonicalize_name : Text → Text

attribute [instance] Packaging.order
