import VendorScreen.Text.Quoted

namespace VendorScreen

/-!
# Verdicts

What classification finds out about a package, with the evidence.
-/

inductive Verdict where
  | skipped
  | identifierMatch
  | componentMatch (className : String)
  | neutralLibrary (entry : String)
  | oversizedClassContainer (entry : String) (size : Nat)
  | classMatch (entry className : String)
  | clean
deriving DecidableEq, Repr

namespace Verdict

def isFlagged : Verdict → Bool
  | identifierMatch | componentMatch _ | oversizedClassContainer _ _ | classMatch _ _ => true
  | skipped | neutralLibrary _ | clean => false

/-- The name of the case in reports. -/
def reason : Verdict → String
  | skipped => "skipped"
  | identifierMatch => "identifier-match"
  | componentMatch _ => "component-match"
  | neutralLibrary _ => "neutral-library"
  | oversizedClassContainer _ _ => "oversized-class-container"
  | classMatch _ _ => "class-match"
  | clean => "clean"

/-- The verdict in one line. Names from the archive are quoted. -/
def line : Verdict → String
  | skipped => "Skipped"
  | identifierMatch => "IdentifierMatch"
  | componentMatch className =>
      "ComponentMatch \x7b class_name: " ++ Text.quote className ++ " \x7d"
  | neutralLibrary entry => "NeutralLibrary \x7b entry: " ++ Text.quote entry ++ " \x7d"
  | oversizedClassContainer entry size =>
      "OversizedClassContainer \x7b entry: " ++ Text.quote entry ++ ", size: " ++ toString size
        ++ " \x7d"
  | classMatch entry className =>
      "ClassMatch \x7b entry: " ++ Text.quote entry ++ ", class_name: " ++ Text.quote className
        ++ " \x7d"
  | clean => "Clean"

end Verdict

end VendorScreen
