import MulticastTunnel.Address.Text
import MulticastTunnel.Packet

/-!
# Packets as text

One line that names the addresses, the protocol, the length and the fragment
fields of a packet.
-/

namespace MulticastTunnel

/-- A name and its fields, each with a colon, in braces. -/
def recordText (name : String) (fields : List (String × String)) : String :=
  name ++ " \x7b " ++ ", ".intercalate (fields.map fun f => f.1 ++ ": " ++ f.2) ++ " \x7d"

def Fragment.toText (f : Fragment) : String :=
  recordText "Fragment" [("offset", toString f.offset), ("more", toString f.more),
    ("identification", toString f.identification.toNat)]

def Packet.toText (p : Packet) : String :=
  let fragment := match p.fragmentInfo with
    | none => "None"
    | some f => "Some(" ++ f.toText ++ ")"
  recordText "IpPacket" [("source", p.source.toText), ("destination", p.destination.toText),
    ("protocol", toString p.protocol.toNat), ("len", toString p.length), ("fragment", fragment)]

end MulticastTunnel
