import MulticastTunnel.Interface
import MulticastTunnel.Statistics.Quantity

/-!
# Display of statistics

The statistics of an interface as a table, and on one line together with what
was written out so far.
-/

namespace MulticastTunnel.Statistics

structure Written where
  datagrams : Nat := 0
  octets : Nat := 0
deriving DecidableEq, Repr

def padded (width : Nat) (s : String) : String :=
  s ++ String.ofList (List.replicate (width - s.length) ' ')

/-- The number of characters between the sides of a table. -/
def tableWidth : Nat := 61

/-- A line across the table between two corners. -/
def border (left right : String) : String :=
  left ++ String.ofList (List.replicate tableWidth '─') ++ right

def cell (text : String) : String := "│" ++ padded tableWidth (" " ++ text) ++ "│"

/-- A line of the table with a value that has a name. -/
def field (name value : String) : String := cell (padded 14 (name ++ ":") ++ value)

def tableLines (name : String) (s : Interface.Stats) : List String :=
  let rule := border "├" "┤"
  ["", border "┌" "┐", cell ("TUNNEL " ++ name), rule,
    field "Phase" s.phase.name,
    field "Groups" s!"{s.groups} ({s.channels} channels)",
    field "Reports" s!"{s.reportsSent} sent / {s.refusals} refused",
    rule, cell "DATA", rule,
    field "Received" s!"{s.data} packets",
    field "Reassembled" s!"{s.reassembled} ({s.timeouts} timed out, {s.overflows} over budget)",
    field "Delivered" s!"{s.delivered} ({s.evictions} sinks evicted)",
    border "└" "┘"]

def table (name : String) (s : Interface.Stats) : String :=
  String.join ((tableLines name s).map (· ++ "\n"))

/-- Bits written in a second on average, zero within the first one. The number
of bits has 64 binary digits. -/
def bitRate (w : Written) (seconds : Nat) : Nat :=
  if seconds = 0 then 0 else w.octets * 8 % 18446744073709551616 / seconds

/-- The line that replaces itself at each display. -/
def line (s : Interface.Stats) (w : Written) (seconds : Nat) : String :=
  "\r[" ++ padded 8 (durationText seconds) ++ "] " ++
    " | ".intercalate [s.phase.name, s!"Groups: {s.groups}", s!"Recv: {s.data}",
      "Out: " ++ sizeText w.octets, "Rate: " ++ rateText (bitRate w seconds)] ++
    String.ofList (List.replicate 9 ' ')

end MulticastTunnel.Statistics
