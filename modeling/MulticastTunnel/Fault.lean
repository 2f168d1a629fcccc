/-!
# Faults

Every error has a name and a text. The name of an error that wraps another
one is its own name, a dot, and the name of the other.
-/

namespace MulticastTunnel

class Fault (ε : Type) where
  name : ε → String
  message : ε → String

end MulticastTunnel
