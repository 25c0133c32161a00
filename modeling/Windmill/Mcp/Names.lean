import Windmill.Lib.JsonText
import Windmill.Sql.Signature

/-! # The names of tools

An item of a workspace is a tool under a name made from its path (`transform_path`,
`windmill-mcp/src/common/transform.rs`), a script of the hub under one made from its version and
summary. Names that are too long end in a hash and start with a capital letter. A short name is
turned back into a path; a hashed one only says how the path starts. -/

namespace Windmill.Mcp.Names

open Lib.JsonText (replaceText)
open Sql.Signature (splitBytes byteLength)

abbrev Text := List Char

def Text.str (t : Text) : String := String.ofList t

inductive ItemType where
  | script
  | flow
  deriving DecidableEq, Repr

def ItemType.text : ItemType → String
  | .script => "script"
  | .flow => "flow"

/-- An error, or a slice that does not end between two characters. -/
inductive Failure where
  | error (message : String)
  | panic
  deriving DecidableEq, Repr

def maxPathLength : ℕ := 40

def hashLen : ℕ := 16

def truncateToCharBoundary : Text → ℕ → Text
  | [], _ => []
  | c :: cs, n => if c.utf8Size ≤ n then c :: truncateToCharBoundary cs (n - c.utf8Size) else []

def escapePath (path : Text) : Text :=
  (path.flatMap fun c => if c = '_' then ['_', '_'] else [c]).map fun c =>
    if c = '/' then '_' else c

def prefixChar : ItemType → Char
  | .script => 's'
  | .flow => 'f'

section

-- `calculate_hash`: the hexadecimal digits of SHA-256
variable (calculateHash : Text → Text)

def transformPath (path : Text) (type : ItemType) : Text :=
  let escapedPath := escapePath path
  let shortName := prefixChar type :: '-' :: escapedPath
  if byteLength shortName ≤ maxPathLength then shortName
  else
    (prefixChar type).toUpper :: '-' ::
      (truncateToCharBoundary escapedPath (maxPathLength - 2 - hashLen) ++
        (calculateHash shortName).take hashLen)

def transformHubPath (versionId : ℕ) (summary : Text) : Text :=
  let escapedSummary := summary.map fun c => if c = ' ' then '_' else c
  let shortName := "hs-".toList ++ (toString versionId).toList ++ '-' :: escapedSummary
  if byteLength shortName ≤ maxPathLength then shortName
  else
    let fixed := "Hs-".toList ++ (toString versionId).toList ++ ['-']
    let available := maxPathLength - byteLength fixed - hashLen
    fixed ++ truncateToCharBoundary escapedSummary available ++
      (calculateHash shortName).take hashLen

end

variable (name : Text)

def parseToolPrefix : Except Failure (ItemType × Bool × Bool) :=
  let isHashed := name.head?.any Char.isUpper
  let lower := name.map Char.toLower
  if "hs-".toList.isPrefixOf lower then .ok (.script, true, isHashed)
  else if "s-".toList.isPrefixOf lower then .ok (.script, false, isHashed)
  else if "f-".toList.isPrefixOf lower then .ok (.flow, false, isHashed)
  else .error (.error ("Invalid tool name prefix: " ++ name.str))

def extractHubVersionIdFromHashed : Except Failure Text :=
  if "Hs-".toList.isPrefixOf name then
    let id := (name.drop 3).takeWhile (· ≠ '-')
    if id = [] then .error (.error ("Empty version_id in hashed hub name: " ++ name.str))
      else .ok id
  else .error (.error ("Not a hashed hub name: " ++ name.str))

def tempPlaceholder : Text := "@@UNDERSCORE@@".toList

def unescapePath (s : Text) : Text :=
  replaceText tempPlaceholder ['_'] ((replaceText ['_', '_'] tempPlaceholder s 0).map fun c =>
    if c = '_' then '/' else c) 0

def hashedPrefixLen : Option ℕ :=
  if "Hs-".toList.isPrefixOf name then some 3
  else if "S-".toList.isPrefixOf name || "F-".toList.isPrefixOf name then some 2
  else none

def extractPathPrefixFromHashed : Except Failure (Option Text) :=
  match hashedPrefixLen name with
  | none => .ok none
  | some prefixLen =>
    if byteLength name ≤ prefixLen + hashLen then .ok none
    else
      match splitBytes (name.drop prefixLen) (byteLength name - hashLen - prefixLen) with
      | none => .error .panic
      | some (escapedPrefix, _) =>
        -- the last underscores may be half of a pair
        let trimmed := (escapedPrefix.reverse.dropWhile (· = '_')).reverse
        .ok (if trimmed = [] then none else some (unescapePath trimmed))

def reverseTransform : Except Failure (ItemType × Text × Bool) := do
  let (type, isHub, isHashed) ← parseToolPrefix name
  if isHashed then
    .error
      (.error "Hashed names cannot be reverse-transformed directly; use path enumeration instead")
  else if isHub then .ok (type, (name.drop 3).takeWhile (· ≠ '-'), true)
  else .ok (type, unescapePath (name.drop 2), false)

end Windmill.Mcp.Names
