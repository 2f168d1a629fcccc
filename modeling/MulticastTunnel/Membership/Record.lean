import MulticastTunnel.Address
import MulticastTunnel.Ordered.Set

/-!
# Group records

A record tells one thing about the sources of one group: the filter that
holds, a filter that came to hold, or sources that were added or dropped.
-/

namespace MulticastTunnel.Membership

open Ordered

abbrev Sources := OrderedSet Address

inductive RecordType
  | modeIsInclude
  | modeIsExclude
  | changeToIncludeMode
  | changeToExcludeMode
  | allowNewSources
  | blockOldSources
deriving DecidableEq, Repr

namespace RecordType

def code : RecordType → Nat
  | modeIsInclude => 1
  | modeIsExclude => 2
  | changeToIncludeMode => 3
  | changeToExcludeMode => 4
  | allowNewSources => 5
  | blockOldSources => 6

def ofCode? : Nat → Option RecordType
  | 1 => some modeIsInclude
  | 2 => some modeIsExclude
  | 3 => some changeToIncludeMode
  | 4 => some changeToExcludeMode
  | 5 => some allowNewSources
  | 6 => some blockOldSources
  | _ => none

def name : RecordType → String
  | modeIsInclude => "ModeIsInclude"
  | modeIsExclude => "ModeIsExclude"
  | changeToIncludeMode => "ChangeToIncludeMode"
  | changeToExcludeMode => "ChangeToExcludeMode"
  | allowNewSources => "AllowNewSources"
  | blockOldSources => "BlockOldSources"

theorem ofCode?_code (t : RecordType) : ofCode? t.code = some t := by cases t <;> rfl

end RecordType

/-- Sources keep the order in which the report lists them. -/
structure GroupRecord where
  type : RecordType
  group : Address
  sources : List Address
deriving DecidableEq

namespace GroupRecord

/-- A record that lists a set of sources in ascending order. -/
def ofSet (type : RecordType) (group : Address) (sources : Sources) : GroupRecord :=
  ⟨type, group, sources.toList⟩

/-- Whether the record leaves its sender something to receive. -/
def describesReception (r : GroupRecord) : Bool :=
  match r.type with
  | .modeIsExclude | .changeToExcludeMode => true
  | .modeIsInclude | .changeToIncludeMode | .allowNewSources => !r.sources.isEmpty
  | .blockOldSources => false

end GroupRecord

end MulticastTunnel.Membership
