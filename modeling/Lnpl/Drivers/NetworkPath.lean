import Lnpl.Front.FormatSteps
import Lnpl.Lib.Percent
import Lnpl.Lib.Placeholders

/-!
# The path of a network call

The path that a network driver requests for a call with path arguments (`_assemble_path`): each
argument, percent-encoded, in the place of the first placeholder that is left.
-/

namespace Lnpl.Drivers

open Front (PathTemplate)
open Lib (Percent.quote Placeholders.replaceFirst)
open Lib.JsonText (Text codes)

/-- What leaves `call` before a request is made. -/
inductive CallFault where
  /-- `DriverError` -/
  | driver (message : String)
  /-- `UnicodeEncodeError` -/
  | unicodeEncode
  deriving DecidableEq, Repr

variable {α : Type} (str : α → Text)

/-- `_assemble_path`; `str` is the `str` of the argument values. -/
def assemblePath (template : Text) (args : List α) : Except CallFault Text :=
  args.foldlM (fun out value =>
    match Percent.quote (str value) with
    | some piece => .ok (Placeholders.replaceFirst '\x7b'.toNat '\x7d'.toNat out piece)
    | none => .error .unicodeEncode) template

/-- The path of `call`, the template of the target's capability given: the path of the endpoint, if
the call has no path arguments. -/
def callPath (repr : String → String) (target : String) (endpoint : Text)
    (template : Option PathTemplate) : Option (List α) → Except CallFault Text
  | none => .ok endpoint
  | some args =>
    match template with
    | none =>
      .error (.driver ("network target " ++ repr target ++ " has path arguments but no `path` " ++
        "declared in its capabilities entry"))
    | some template => assemblePath str (codes template.text) args

end Lnpl.Drivers
