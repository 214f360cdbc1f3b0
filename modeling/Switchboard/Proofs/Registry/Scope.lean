import Switchboard.Proofs.Registry.Run

/-!
# Sessions are of the current scope

A session is described once, when it is opened, and its stream is never asked for again. So what its
descriptor says about the scope stays right only because no session outlives a change of scope. A
selection describes what it opens in the scope of that moment (`allOfScope_select`), and any other
act that moves to another scope leaves nothing behind (`Thins.allOfScope`).

Which requests are such a move is settled by `updateScope_eq`: a context and a namespace are the
same scope or not as a pair, after an empty context has been read as none.
-/

namespace Switchboard

namespace Registry

/-- The context and the namespace in which sessions are opened. -/
def scope (r : Registry) : Option String × String := (r.context, r.ns)

end Registry

end Switchboard
