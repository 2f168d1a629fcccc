import MulticastTunnel.Membership.Reporter

/-!
# Control over memberships

Whoever joins and leaves groups for others, such as a reporter.
-/

namespace MulticastTunnel.Membership

/-- Joins and leaves groups, over a state `ω` of its own. -/
structure Control (ω : Type) where
  join : (group : Address) → (source : Option Address) → ω → Except MembershipError Unit × ω
  leave : (group : Address) → (source : Option Address) → ω → Except MembershipError Unit × ω

/-- The control that a reporter gives at a moment. -/
def Reporter.control {ω : Type} (o : Outlet ω) (now : Nat) : Control (Reporter × ω) where
  join group source := fun (r, w) => r.join o now group source w
  leave group source := fun (r, w) => r.leave o now group source w

/-- The control that a reporter gives, or another one where there is none. -/
def Reporter.controlOr {ω : Type} (other : Control ω) (o : Outlet ω) (now : Nat) :
    Control (Option Reporter × ω) where
  join group source
    | (some r, w) =>
      let (result, r, w) := r.join o now group source w
      (result, some r, w)
    | (none, w) =>
      let (result, w) := other.join group source w
      (result, none, w)
  leave group source
    | (some r, w) =>
      let (result, r, w) := r.leave o now group source w
      (result, some r, w)
    | (none, w) =>
      let (result, w) := other.leave group source w
      (result, none, w)

end MulticastTunnel.Membership
