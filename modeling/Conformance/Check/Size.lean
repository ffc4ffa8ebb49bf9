import Conformance.Check.Subject

/-!
# The length of a file
-/

namespace Conformance.Check

/-- The file has no more lines than the rule allows. The message holds the limit whatever its length; the change of a
run that makes this check fails if the limit has too many digits to be written (`Action.size`). -/
def size : Check := fun s =>
  match s.rule.maxLines with
  | none => []
  | some most =>
    let lines := Text.countLines s.text
    if most < lines then
      [s.fault .fileSize ("File has " ++ toString lines ++ " lines (max: " ++ toString most ++ ")")]
    else []

end Conformance.Check
