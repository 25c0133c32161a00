import Windmill.Lib.JsonText

/-! # Members and paths

What an object holds under a key, and what is found by looking up keys one after the other. -/

namespace Windmill.Lib.JsonPath

open JsonText

def member (key : List Char) : RawJson → Option RawJson
  | .obj _ members => (members.reverse.find? fun m => decode m.1.2.1 = key).map fun m => m.2.2.1
  | _ => none

def path : List (List Char) → RawJson → Option RawJson
  | [], t => some t
  | key :: keys, t => (member key t).bind (path keys)

end Windmill.Lib.JsonPath
