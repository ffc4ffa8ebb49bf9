/-!
# Settings of a run
-/

namespace Conformance

structure Settings where
  /-- Files whose names end so hold rules. -/
  ruleSuffix : String := ".rux"
  /-- Names of folders that are not searched for rules. -/
  ignoredFolders : List String := ["node_modules"]
  /-- Locations that contain this text belong to utility modules. -/
  utilitiesMarker : String := "/utils/"
  /-- Files whose paths contain one of these texts are not searched for business logic. -/
  logicExemptions : List String := ["validate.js", ".test.", ".spec."]
  maxStateHooks : Int := 5
  maxEffectHooks : Int := 2
deriving DecidableEq, Repr

end Conformance
