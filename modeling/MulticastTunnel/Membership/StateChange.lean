import MulticastTunnel.Membership.Filter

/-!
# State changes

What has to be told when the filter of a group changes: the new filter if
the mode changes, else the sources that were added and dropped. A change that
was not told often enough takes up later ones.
-/

namespace MulticastTunnel.Membership

inductive StateChange
  /-- The filter came to be this one. -/
  | mode (mode : FilterMode) (sources : Sources)
  /-- Sources that are received now, and ones that are not any more. -/
  | sources (allow block : Sources)
deriving DecidableEq

namespace StateChange

/-- Mode and sources of a filter; where there is none, nothing is received. -/
def parts (f : Option Filter) : FilterMode × Sources :=
  match f with
  | some f => (f.mode, f.sources)
  | none => (.including, ∅)

/-- The change from one filter to another, if they differ. -/
def between? (old new : Option Filter) : Option StateChange :=
  let (oldMode, oldSources) := parts old
  let (newMode, newSources) := parts new
  if oldMode ≠ newMode then some (.mode newMode newSources)
  else if oldSources = newSources then none
  else
    let added := newSources.diff oldSources
    let removed := oldSources.diff newSources
    match newMode with
    | .including => some (.sources added removed)
    | .excluding => some (.sources removed added)

/-- Takes up a later change, which led to the filter `current`. -/
def merge (change next : StateChange) (current : Option Filter) : StateChange :=
  match change, next with
  | _, .mode m s => .mode m s
  | .mode m _, .sources .. => .mode m (parts current).2
  | .sources allow block, .sources allow' block' =>
    .sources ((allow.union allow').diff block') ((block.union block').diff allow')

/-- The records that tell the change. -/
def records (group : Address) : StateChange → List GroupRecord
  | .mode .including s => [.ofSet .changeToIncludeMode group s]
  | .mode .excluding s => [.ofSet .changeToExcludeMode group s]
  | .sources allow block =>
    (if allow.isEmpty then [] else [.ofSet .allowNewSources group allow]) ++
      (if block.isEmpty then [] else [.ofSet .blockOldSources group block])

end StateChange

end MulticastTunnel.Membership
