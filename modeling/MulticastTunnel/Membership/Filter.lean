import MulticastTunnel.Membership.Record

/-!
# Source filters and what is asked of a group

A filter tells which sources of a group are received. It follows from what
is asked of the group: traffic of any source, traffic of single sources, and
sources that are blocked while any source is asked for. A source asked for by
itself is never blocked.
-/

namespace MulticastTunnel.Membership

inductive FilterMode
  /-- Only the listed sources are received. -/
  | including
  /-- All but the listed sources are received. -/
  | excluding
deriving DecidableEq, Repr

def FilterMode.name : FilterMode → String
  | including => "Include"
  | excluding => "Exclude"

structure Filter where
  group : Address
  mode : FilterMode
  sources : Sources
deriving DecidableEq

namespace Filter

def passes (f : Filter) (source : Address) : Bool :=
  match f.mode with
  | .including => source ∈ f.sources
  | .excluding => source ∉ f.sources

/-- The record that describes the whole filter. -/
def currentState (f : Filter) : GroupRecord :=
  let type := match f.mode with
    | .including => .modeIsInclude
    | .excluding => .modeIsExclude
  .ofSet type f.group f.sources

/-- The record that lists the received ones among the queried sources, if
there are any. -/
def response (f : Filter) (queried : Sources) : Option GroupRecord :=
  let received := queried.filter f.passes
  if received.isEmpty then none else some (.ofSet .modeIsInclude f.group received)

end Filter

/-- What is asked of one group. -/
structure Demand where
  anySource : Bool := false
  /-- Sources asked for by themselves. -/
  joined : Sources := ∅
  /-- Sources left while any source was asked for. -/
  blocked : Sources := ∅
deriving DecidableEq

namespace Demand

/-- The filter for the group, none when nothing would be received. -/
def filter? (d : Demand) (group : Address) : Option Filter :=
  if d.anySource then some ⟨group, .excluding, d.blocked.diff d.joined⟩
  else if d.joined.isEmpty then none
  else some ⟨group, .including, d.joined⟩

/-- Asks for any source, or for one more by itself. -/
def join (d : Demand) : Option Address → Demand
  | none => { d with anySource := true }
  | some source =>
    { d with joined := d.joined.insert source, blocked := d.blocked.erase source }

/-- Takes a request back. Leaving a source that was asked for by itself only
drops that request; leaving another one blocks it while any source is asked
for. -/
def leave (d : Demand) : Option Address → Demand
  | none => { d with anySource := false, blocked := ∅ }
  | some source =>
    if source ∈ d.joined then { d with joined := d.joined.erase source }
    else if d.anySource then { d with blocked := d.blocked.insert source }
    else d

end Demand

end MulticastTunnel.Membership
